import Mathlib.Data.String.Basic
import AndaBrain.Foundation.Worklist
import AndaBrain.Json

/-!
# The chunks of a migration

`chunks` of the draft-Space migration: the exported records are split into imports that are closed
under references.
-/

set_option autoImplicit false

namespace AndaBrain.MigrationChunks
open Foundation.Worklist

def chunkElements : ℕ := 500
def chunkNodes : ℕ := 10000

mutual
def nodes : Json → ℕ
  | .arr items => 1+itemNodes items
  | .obj fields => 1+fieldNodes fields
  | _ => 1

def itemNodes : List Json → ℕ
  | [] => 0
  | item::items => nodes item+itemNodes items

def fieldNodes : List (String × Json) → ℕ
  | [] => 0
  | (_,value)::fields => nodes value+fieldNodes fields
end

def isContent (key : String) : Bool :=
  key == "_system" || key == "governance" || key == "payload" || key == "attributes"

section References
variable (isId : String → Bool)

mutual
def references : Json → List String
  | .str id => if isId id then [id] else []
  | .arr items => itemReferences items
  | .obj fields => fieldReferences fields
  | _ => []

def itemReferences : List Json → List String
  | [] => []
  | item::items => references item++itemReferences items

def fieldReferences : List (String × Json) → List String
  | [] => []
  | (key,value)::fields =>
    (if isContent key then [] else references value)++fieldReferences fields
end

end References

def idOf (record : Json) : Option String := (record.index "id").asStr

def reusable (record : Json) : Bool :=
  (record.index "kind").isStr "concept" || (record.index "kind").isStr "proposition"

def byId (records : List Json) (id : String) : Json :=
  (records.reverse.find? fun r => idOf r == some id).getD .null

def refsOf (isId : String → Bool) (records : List Json) (id : String) : List String :=
  (references isId (byId records id)).filter (· != id)

def sorted (ids : List String) : List String := ids.mergeSort fun a b => decide (a ≤ b)

/-- The first reference, in the order of the ids, that is not one of the records. -/
def missing (isId : String → Bool) (records : List Json) (ids : List String) :
    Option (String × String) :=
  (sorted ids).findSome? fun id =>
    ((sorted (refsOf isId records id)).find? (!ids.contains ·)).map fun r => (id,r)

def fits (chunk : List Json) : Bool :=
  chunk.length ≤ chunkElements && (chunk.map nodes).sum ≤ chunkNodes

abbrev Known (ids : List String) := {id : String // id ∈ ids}

section Graph
variable (records : List Json) (ids : List String) (edges : Known ids → List (Known ids))

/-- The records that are no Concept or Proposition, and those that refer to one. -/
def indivisible : Finset (Known ids) :=
  spread edges (Finset.univ.filter fun id => !reusable (byId records id.1))

def adjacency (id : Known ids) : List (Known ids) :=
  if id ∈ indivisible records ids edges then
    (edges id).filter (· ∈ indivisible records ids edges)++
      ids.attach.filter fun other => other ∈ indivisible records ids edges ∧ id ∈ edges other
  else []

def groups : List (List (Known ids)) := components (adjacency records ids edges) ∅ ids.attach

def close (roots : List (Known ids)) : List Json :=
  let included := (sweep edges roots.toFinset roots).1
  records.filter fun r => decide (∃ id ∈ included, idOf r = some id.1)

def oversized : String :=
  "a connected reference closure exceeds one migration transaction; the database was not rebuilt"

def pack (close : List (Known ids) → List Json) :
    List (List (Known ids)) → List (Known ids) → Except String (List (List Json))
  | [], roots => .ok (if roots.isEmpty then [] else [close roots])
  | group::rest, roots =>
    let full := !fits (close (roots++group)) && !roots.isEmpty
    let next := if full then group else roots++group
    if fits (close next) then
      match pack close rest next with
      | .error e => .error e
      | .ok out => .ok (if full then close roots::out else out)
    else .error oversized

end Graph

def knownEdges (isId : String → Bool) (records : List Json) (ids : List String)
    (h : ∀ id ∈ ids, ∀ r ∈ refsOf isId records id, r ∈ ids) (id : Known ids) : List (Known ids) :=
  (refsOf isId records id.1).attach.map fun r => ⟨r.1,h id.1 id.2 r.1 r.2⟩

def chunks (isId : String → Bool) (capsule : Json) : Except String (List (List Json)) :=
  match ((capsule.index "payload").index "records").asArray with
  | none => .error "the Capsule has no records"
  | some records =>
    match records.mapM idOf with
    | none => .error "record has no id"
    | some ids =>
      if h : ∀ id ∈ ids, ∀ r ∈ refsOf isId records id, r ∈ ids then
        let edges := knownEdges isId records ids h
        pack ids (close records ids edges) (groups records ids edges) []
      else
        match missing isId records ids with
        | some (id,reference) =>
          .error (id++" references "++reference++", which was not exported")
        | none => .error ""

end AndaBrain.MigrationChunks
