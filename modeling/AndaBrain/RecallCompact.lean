import AndaBrain.Json
import Mathlib.Data.List.Sort

/-!
# Compact views of recalled memory

`budgeted/compact.rs` and the two traversals of `budgeted.rs`.
-/

set_option autoImplicit false

namespace AndaBrain.RecallPlan

def profile (symbol : String) : String := "kip://profiles/cognitive-memory@2.0.0/"++symbol

mutual
def alike : Json → Json → Bool
  | .null, .null => true
  | .bool a, .bool b => a == b
  | .int a, .int b => a == b
  | .float a, .float b => a == b
  | .str a, .str b => a == b
  | .arr as, .arr bs => alikeItems as bs
  | .obj as, .obj bs => decide (as.length = bs.length) && alikeFields as bs
  | _, _ => false

def alikeItems : List Json → List Json → Bool
  | [], [] => true
  | a::as, b::bs => alike a b && alikeItems as bs
  | _, _ => false

def alikeFields : List (String × Json) → List (String × Json) → Bool
  | [], _ => true
  | (k,a)::as, bs =>
    (match bs.lookup k with
      | some b => alike a b
      | none => false) && alikeFields as bs
end

def optionAlike : Option Json → Option Json → Bool
  | some a, some b => alike a b
  | none, none => true
  | _, _ => false

/-! ## Members -/

abbrev Fields := List (String × Json)

def field (fields : Fields) (key : String) : Option Json := (Json.obj fields).get key

def textField (fields : Fields) (key : String) : Option String := (field fields key).bind Json.asStr

def insertField (fields : Fields) (key : String) (value : Json) : Fields :=
  if fields.any (·.1 == key) then
    fields.map fun member => if member.1 == key then (key,value) else member
  else fields++[(key,value)]

def swapRemove (fields : Fields) (key : String) : Fields :=
  match fields.findIdx? (·.1 == key), fields.getLast? with
  | some i, some last => if i + 1 = fields.length then fields.dropLast else fields.dropLast.set i last
  | _, _ => fields

/-! ## Compaction -/

def elementKinds : List String := ["concept", "proposition", "assertion", "evidence", "activity"]

def isElement (fields : Fields) : Bool :=
  (textField fields "id").isSome && (textField fields "kind").any elementKinds.contains

def keptAttributes : List String :=
  ["summary", "description", "display_name", "status", "started_at", "ended_at", "due_at",
    "completed_at", "observed_at", "last_observed", "outcome"]

def isLegacy (key : String) : Bool :=
  "kip://legacy/nexus@".toList.isPrefixOf key.toList && "/LegacyRecord".toList.isSuffixOf key.toList

def facetsOf (fields : Fields) : Fields := ((field fields "facets").bind Json.asObject).getD []

def attributesOf (fields : Fields) : Fields := ((field fields "attributes").bind Json.asObject).getD []

def legacyKey (fields : Fields) : Option String := ((facetsOf fields).find? (isLegacy ·.1)).map Prod.fst

def provenanceOf (fields : Fields) : Json :=
  match legacyKey fields with
  | none => .null
  | some key =>
    let record := ((Json.obj (facetsOf fields)).index key).index "record"
    .obj [("facet",.str key), ("legacy_id",record.index "_id"), ("legacy_type",record.index "type"),
      ("legacy_status",(record.index "attributes").index "status"),
      ("metadata",record.index "metadata")]

structure Compacted where
  fields : Fields
  omitted : List String

/-- The `legacy` attribute that repeats the record of the facet. -/
def dropLegacy (provenance : Json) (attributes : Fields) : Compacted :=
  if provenance ≠ .null ∧ optionAlike (field attributes "legacy")
      (some (.obj [("id",provenance.index "legacy_id"), ("metadata",provenance.index "metadata")])) then
    ⟨swapRemove attributes "legacy",["attributes.legacy"]⟩
  else ⟨attributes,[]⟩

def dropDescription (attributes : Fields) : Compacted :=
  if (field attributes "summary").isSome ∧
      optionAlike (field attributes "summary") (field attributes "description") then
    ⟨swapRemove attributes "description",["attributes.description (same as summary)"]⟩
  else ⟨attributes,[]⟩

def keepKnown (required : Bool) (attributes : Fields) : Compacted :=
  if required then ⟨attributes,[]⟩
  else
    ⟨attributes.filter (keptAttributes.contains ·.1),
      (attributes.filter (!keptAttributes.contains ·.1)).map ("attributes."++·.1)⟩

def compactAttributes (required : Bool) (provenance : Json) (attributes : Fields) : Compacted :=
  let first := dropLegacy provenance attributes
  let second := dropDescription first.fields
  let third := keepKnown required second.fields
  ⟨third.fields,first.omitted++second.omitted++third.omitted⟩

def readMore : String :=
  "Use FIND to project this element's attributes or LegacyRecord facet when needed"

def recallDetail (fields : Fields) (omitted : List String) : Json :=
  .obj [("element",(Json.obj fields).index "id"), ("projection",.str "compact"),
    ("omitted_fields",.arr (omitted.map .str)), ("legacy_source",provenanceOf fields),
    ("read_more",.str readMore)]

def omittedOf (required : Bool) (fields : Fields) : List String :=
  (legacyKey fields).toList.map ("facets."++·)++
    (compactAttributes required (provenanceOf fields) (attributesOf fields)).omitted

/-- A native element in its compact view, and whether anything was left out. -/
def compactElement (required : Bool) (fields : Fields) : Fields × Bool :=
  let omitted := omittedOf required fields
  if omitted.isEmpty then (fields,false)
  else
    let faceted := match legacyKey fields with
      | none => fields
      | some key => insertField fields "facets" (.obj (swapRemove (facetsOf fields) key))
    let described :=
      if ((field fields "attributes").bind Json.asObject).isSome then
        insertField faceted "attributes"
          (.obj (compactAttributes required (provenanceOf fields) (attributesOf fields)).fields)
      else faceted
    (insertField described "recall_detail" (recallDetail fields omitted),true)

mutual
/-- `compact::memory`: only native element objects change. -/
def compact (required : Bool) : Json → Json × Bool
  | .arr items => (.arr (compactItems required items).1,(compactItems required items).2)
  | .obj fields =>
    if isElement fields then
      (.obj (compactElement required fields).1,(compactElement required fields).2)
    else (.obj (compactFields required fields).1,(compactFields required fields).2)
  | value => (value,false)

def compactItems (required : Bool) : List Json → List Json × Bool
  | [] => ([],false)
  | item::rest =>
    ((compact required item).1::(compactItems required rest).1,
      (compact required item).2 || (compactItems required rest).2)

def compactFields (required : Bool) : Fields → Fields × Bool
  | [] => ([],false)
  | (key,value)::rest =>
    ((key,(compact required value).1)::(compactFields required rest).1,
      (compact required value).2 || (compactFields required rest).2)
end

def compactPrimer (value : Json) : Json :=
  .obj [("execution_context",value.index "execution_context"), ("detail_query",.str "DESCRIBE PRIMER"),
    ("meaning",.str "Read basis only; not semantic completeness or permission to act")]

/-! ## Bounded traversals -/

def maxNodes : ℕ := 4096

def children : Json → List Json
  | .obj fields => (fields.map Prod.snd).reverse
  | .arr items => items.reverse
  | _ => []

def isProgram (value : Json) : Bool :=
  (value.index "schema_ref").isStr (profile "Skill") ||
    (value.index "schema_ref").isStr (profile "SkillRevision")

def containsFrom : ℕ → List Json → Bool
  | _, [] => false
  | 0, _ => true
  | nodes + 1, value::stack => isProgram value || containsFrom nodes (children value++stack)

def containsProgram (value : Json) : Bool := containsFrom maxNodes [value]

def insertSkill (id : String) (skills : List String) : List String :=
  if id ∈ skills then skills else skills.orderedInsert (· ≤ ·) id

def skillId (value : Json) : Option String :=
  if (value.index "schema_ref").isStr (profile "Skill") then (value.index "id").asStr else none

def discoverFrom : ℕ → List Json → List String → List String
  | 0, _, into => into
  | _, [], into => into
  | nodes + 1, value::stack, into =>
    if into.length > 8 then into
    else discoverFrom nodes (children value++stack) ((skillId value).elim into (insertSkill · into))

def discoverSkills (value : Json) (into : List String) : List String :=
  discoverFrom maxNodes [value] into

end AndaBrain.RecallPlan
