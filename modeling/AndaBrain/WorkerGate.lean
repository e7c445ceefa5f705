import AndaBrain.KipGate

/-!
# The model gates of the Worker

`assertFormationOperations` and `assertMaintenanceOperations` of `kip.ts` read the parsed
statements by the names of their members. A check answers the message of the error it
throws.
-/

set_option autoImplicit false

namespace AndaBrain.Worker
open Kip Foundation.Utf8Text

def maxKipOperations : ℕ := 4

def maxKipCommandBytes : ℕ := 256*1024

def maxMaintenanceSelection : ℕ := 20

def formationClauses : List String :=
  ["CreateConcept", "UpsertConcept", "EnsureProposition", "CreateEvidence", "CreateAssertion",
    "CreateActivity", "Transition", "Define"]

def formationTransitions : List String :=
  ["retracted", "superseded", "corrected", "running", "completed", "failed", "cancelled"]

/-- `Object.keys(clause)[0]`. -/
def clauseName : MutationClause → String
  | .createConcept _ => "CreateConcept"
  | .upsertConcept _ => "UpsertConcept"
  | .ensureProposition => "EnsureProposition"
  | .createEvidence _ => "CreateEvidence"
  | .createAssertion _ => "CreateAssertion"
  | .createActivity _ => "CreateActivity"
  | .transition _ => "Transition"
  | .update _ => "Update"
  | .setRetention _ => "SetRetention"
  | .purge _ => "Purge"
  | .purgePayload _ => "PurgePayload"
  | .mergeConcept _ => "MergeConcept"
  | .define _ => "Define"

/-- The members the checks look for in `Object.values(clause)[0]`. A limit is absent, `null` or
a scalar. -/
structure Body where
  setFacets : Option (List FacetAssignment)
  unsetFacets : Option (List FacetRemoval)
  setStructural : Option (List StructuralEdge)
  unsetStructural : Option (List StructuralEdge)
  actions : Option (List UpdateAction)
  whereClauses : Option (List WhereClause)
  limit : Option (Option Scalar)

def emptyBody : Body := ⟨none,none,none,none,none,none,none⟩

def bodyOf : MutationClause → Body
  | .createConcept c =>
    { emptyBody with setFacets := some c.setFacets, setStructural := c.setStructural }
  | .upsertConcept c =>
    { emptyBody with setFacets := some c.setFacets, unsetFacets := some c.unsetFacets,
                     setStructural := c.setStructural, unsetStructural := c.unsetStructural }
  | .createEvidence c | .createAssertion c | .createActivity c =>
    { emptyBody with setFacets := some c.setFacets, setStructural := c.setStructural }
  | .transition t =>
    { emptyBody with setStructural := t.setStructural, whereClauses := t.whereClauses,
                     limit := some t.limit }
  | .update c =>
    { emptyBody with actions := some c.actions, whereClauses := c.whereClauses,
                     limit := some c.limit }
  | .setRetention c => { emptyBody with whereClauses := c.whereClauses, limit := some c.limit }
  | .purge c | .purgePayload c =>
    { emptyBody with whereClauses := c.whereClauses, limit := some c.limit }
  | .mergeConcept c => { emptyBody with whereClauses := c.whereClauses }
  | .ensureProposition | .define _ => emptyBody

/-- `replace(/([a-z])([A-Z])/g, '$1 $2')`. -/
def spaced : List Char → List Char
  | a::b::rest => if a.isLower && b.isUpper then a:: ' '::b::spaced rest else a::spaced (b::rest)
  | rest => rest

def spelling (name : String) : String := String.ofList ((spaced name.toList).map Char.toUpper)

/-- `symbolRef.slice(symbolRef.lastIndexOf('/') + 1)`. -/
def localName (symbolRef : String) : String :=
  let text := symbolRef.toList
  String.ofList (text.drop (text.length - text.reverse.findIdx (· = '/')))

/-! ## Batches -/

/-- What `trim` removes. -/
def isSpace (c : Char) : Bool :=
  (9 ≤ c.toNat && c.toNat ≤ 13) || c.toNat == 0x20 || c.toNat == 0xA0 || c.toNat == 0x1680 ||
    (0x2000 ≤ c.toNat && c.toNat ≤ 0x200A) || c.toNat == 0x2028 || c.toNat == 0x2029 ||
    c.toNat == 0x202F || c.toNat == 0x205F || c.toNat == 0x3000 || c.toNat == 0xFEFF

def isBlank (command : String) : Bool := command.toList.all isSpace

def assertOperationBatch (operations : List Operation) : Option String :=
  if operations.length = 0 then some "a KIP request needs at least one operation"
  else if operations.length > maxKipOperations then
    some ("at most "++toString maxKipOperations++" KIP operations are allowed")
  else if operations.any (isBlank ·.command) then
    some "every KIP operation needs a non-empty command"
  else if (operations.map fun operation => byteLen operation.command.toList).sum >
      maxKipCommandBytes then
    some ("the KIP batch exceeds "++toString maxKipCommandBytes++" bytes")
  else none

/-! ## Values -/

def transitionState (scalar : Scalar) (parameters : Option Bindings) : Option String :=
  match scalar with
  | .literal (.str state) => some state
  | .literal _ => none
  | .param name =>
    match lookup parameters name with
    | some (.str state) => some state
    | _ => none

/-- `Number.isInteger(value) && value > 0`; a number written with a point can be an integer. -/
def integer : Option Json → Option ℤ
  | some (.int n) => if 0 < n then some n else none
  | some (.float (.finite q)) => if q.den = 1 ∧ 0 < q.num then some q.num else none
  | _ => none

def scalarInteger (scalar : Option Scalar) (parameters : Option Bindings) : Option ℤ :=
  match scalar with
  | none => none
  | some (.literal value) => integer (some value)
  | some (.param name) => integer (lookup parameters name)

/-! ## The checks -/

def assertBoundedSelection (clause : MutationClause) (parameters : Option Bindings) (max : ℤ) :
    Option String :=
  let body := bodyOf clause
  match body.whereClauses with
  | none => none
  | some [] => none
  | some (_::_) =>
    match body.limit with
    | none => none
    | some slot =>
      match scalarInteger slot parameters with
      | some limit =>
        if limit > max then
          some ("a "++spelling (clauseName clause)++" that selects with WHERE must use LIMIT "++
            toString max++" or less")
        else none
      | none =>
        some ("a "++spelling (clauseName clause)++" that selects with WHERE must use LIMIT "++
          toString max++" or less")

def facets (body : Body) : List SymbolRef :=
  (body.setFacets.getD []).map (·.facet)++(body.unsetFacets.getD []).map (·.facet)++
    (body.actions.getD []).flatMap fun
      | .setFacet f => [f.facet]
      | .unsetFacet f => [f.facet]
      | _ => []

def structural (body : Body) : List SymbolRef :=
  (body.setStructural.getD []).map (·.field)++(body.unsetStructural.getD []).map (·.field)++
    (body.actions.getD []).flatMap fun
      | .setStructural edges => edges.map (·.field)
      | .unsetStructural edges => edges.map (·.field)
      | _ => []

/-- `symbol.Name ?? (symbol.Param ? parameters?.[symbol.Param] : undefined)`. -/
def resolve (parameters : Option Bindings) : SymbolRef → Option Json
  | .name text => some (.str text)
  | .param p => lookup parameters p

def assertName (unresolved reason : String) (guarded : List String)
    (parameters : Option Bindings) (symbol : SymbolRef) : Option String :=
  match resolve parameters symbol with
  | some (.str name) =>
    if guarded.contains (localName name) then some ("UnsupportedCapability: "++name++reason)
    else none
  | _ => some unresolved

def assertFacet : Option Bindings → SymbolRef → Option String :=
  assertName "model facet names must resolve before execution"
    (" requires a configured host learning/runtime binding or is computed by the engine; it "++
      "cannot be authored by a model plan") protectedFacets

def assertField : Option Bindings → SymbolRef → Option String :=
  assertName "model structural field names must resolve before execution"
    (" is moved by host learning transactions or computed from Activity provenance; it cannot be "++
      "authored by a model plan") protectedStructural

def assertCognitiveRecords (clause : MutationClause) (parameters : Option Bindings) :
    Option String :=
  ((facets (bodyOf clause)).findSome? (assertFacet parameters)).or
    ((structural (bodyOf clause)).findSome? (assertField parameters))

def assignments (body : Body) : List FacetAssignment :=
  body.setFacets.getD []++(body.actions.getD []).flatMap fun
    | .setFacet f => [f]
    | _ => []

def assertCompleteStrength (clause : MutationClause) (parameters : Option Bindings) :
    Option String :=
  (assignments (bodyOf clause)).findSome? fun assignment =>
    match resolve parameters assignment.facet with
    | some (.str name) =>
      if localName name ≠ "MnemonicState" then none
      else
        let members := assignment.values.map (·.1)
        if members.contains "memory_strength" &&
            !(members.contains "last_metabolized_at" && members.contains "strength_policy") then
          some ("ConstraintViolation: a MnemonicState memory_strength is a base: write it with "++
            "its anchor and the host's policy pin, `last_metabolized_at: :now, strength_policy: "++
            ":strength_policy`, or leave strength unwritten (Profile §6.1)")
        else none
    | _ => none

/-- `/^msg\d+$/`. -/
def captured (name : String) : Bool :=
  match name.toList with
  | 'm':: 's':: 'g'::digits => !digits.isEmpty && digits.all Char.isDigit
  | _ => false

/-- `new Map(fields).get(name)`: the last of several. -/
def lastField (record : CreateRecord) (name : String) : Option MutationValue :=
  ((record.setFields.getD []).reverse.find? fun field => field.1 == name).map (·.2)

def literal : Option MutationValue → Option Json
  | some (.value value) => some value
  | _ => none

/-- `isJsonMap(object) && object.from !== undefined && object.from !== 'Null'`. -/
def startsObject : Json → Bool
  | .obj members =>
    match (Json.obj members).get "from" with
    | some .null => false
    | some _ => true
    | none => false
  | _ => false

def writtenStart : Option MutationValue → Bool
  | none => false
  | some (.value value) => startsObject value
  | some (.object members) => members.any fun (key,value) =>
    key == "from" && (match value with | .value .null => false | _ => true)
  | some _ => true

def assertDatedCitation (clause : MutationClause) : Option String :=
  match clause with
  | .createAssertion record =>
    let citesCapture := (record.setStructural.getD []).any fun edge =>
      match edge.field, edge.value with
      | .name field, .param name => field == "evidence" && captured name.text
      | _, _ => false
    if !citesCapture then none
    else if literal (lastField record "mode") = some (.str "inferred") then none
    else
      let asserted := lastField record "asserted_at"
      let dated := asserted.isSome && decide (literal asserted ≠ some .null)
      if !dated && !writtenStart (lastField record "valid_time") then
        some ("ConstraintViolation: an ASSERT citing a captured message needs `at:` — that "++
          "message's observed_at from captured_evidence — or a `valid: \x7bfrom: …\x7d`; without "++
          "it the claim starts at this write's time and a late-processed message would end a "++
          "newer value (Spec §13.2, §25.4)")
      else none
  | _ => none

/-- `name.length`, in UTF-16 units. -/
def textLength (name : String) : ℕ :=
  (name.toList.map fun c => if c.toNat < 0x10000 then 1 else 2).sum

def isSymbolName (kind : DefineKind) (name : String) : Bool :=
  if textLength name == 0 || decide (maxSymbolChars < textLength name) then false
  else match kind, name.toList with
    | .conceptType, c::rest => c.isUpper && rest.all Char.isAlphanum && !coreElementKinds.contains name
    | .predicate, c::rest => c.isLower &&
      rest.all (fun c => c.isLower || c.isDigit || c == '_') && !((c::rest).getLast? == some '_')
    | _, [] => false

def assertLiteralDefine (define : DefineCommand) : Option String :=
  match define.name with
  | .param _ => some "write the DEFINE name as a literal, not a parameter"
  | .name name =>
    if !isSymbolName define.kind name then
      some ("`"++name++"` is not a symbol name this brain drafts: Concept types are "++
        "UpperCamelCase letters and digits, predicates are snake_case, at most 64 characters, and "++
        "never a Core element kind")
    else if define.definition.any (fun (_,value) => !value.isLiteral) then
      some "write the DEFINE body as literals; a bound body cannot be reviewed before it runs"
    else none

def assertNoLegalHold : MutationClause → Option String
  | .setRetention c => c.values.findSome? fun (name,_) =>
    if name == "legal_hold" then
      some ("maintenance plans cannot place or lift a legal hold; set a retention class and an "++
        "expires_at, and leave the hold to the administrative endpoint")
    else none
  | _ => none

/-! ## The two policies -/

def assertFormationVerb (clause : MutationClause) : Option String :=
  if formationClauses.contains (clauseName clause) then none
  else some ("formation cannot issue "++spelling (clauseName clause)++"; it writes cognition "++
    "(CREATE / UPSERT / ENSURE / ASSERT) and corrects it (TRANSITION to retracted / superseded / "++
    "corrected)")

def assertFormationState (clause : MutationClause) (parameters : Option Bindings) : Option String :=
  match clause with
  | .transition t =>
    match transitionState t.toState parameters with
    | none => some ("formation must write the TRANSITION state as a literal this request can be "++
      "read against; a state bound elsewhere cannot be checked before it runs")
    | some state =>
      if formationTransitions.contains state then none
      else some ("formation cannot TRANSITION memory to \""++state++"\"; it corrects cognition "++
        "(retracted / superseded / corrected) and runs its own Activities. Removing memory "++
        "belongs to maintenance")
  | _ => none

def formationClause (parameters : Option Bindings) (clause : MutationClause) : Option String :=
  [match clause with | .define d => assertLiteralDefine d | _ => none,
    assertCognitiveRecords clause parameters, assertCompleteStrength clause parameters,
    assertDatedCitation clause, assertFormationVerb clause,
    assertFormationState clause parameters,
    assertBoundedSelection clause parameters maxMaintenanceSelection].findSome? id

def maintenanceClause (parameters : Option Bindings) (clause : MutationClause) : Option String :=
  [assertCognitiveRecords clause parameters, assertCompleteStrength clause parameters,
    match clause with
    | .define _ => some ("maintenance reviews draft vocabulary and never defines it: record a "++
      "near-synonym as an Insight about the existing symbol, and put a symbol worth keeping in "++
      "the summary as a proposed promotion \x7bkind, from, to\x7d")
    | .purge _ | .purgePayload _ => some "maintenance plans cannot issue KIP PURGE commands"
    | _ => none,
    assertNoLegalHold clause,
    assertBoundedSelection clause parameters maxMaintenanceSelection].findSome? id

section Operations
variable (parse : String → Except String Command)

/-- The loop the two policies share: each operation must be KML, and each clause allowed. -/
def assertOperations (other : String) (check : Option Bindings → MutationClause → Option String)
    (operations : List Operation) : Option String :=
  (assertOperationBatch operations).or (operations.findSome? fun operation =>
    match parse operation.command with
    | .error message => some message
    | .ok (.kml statement) => statement.clauses.findSome? (check operation.parameters)
    | .ok _ => some other)

def assertFormationOperations : List Operation → Option String :=
  assertOperations parse "formation accepts only KIP KML commands" formationClause

def assertMaintenanceOperations : List Operation → Option String :=
  assertOperations parse "maintenance plans must contain KML commands" maintenanceClause

end Operations

end AndaBrain.Worker
