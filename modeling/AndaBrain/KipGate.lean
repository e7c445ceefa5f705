import AndaBrain.KipSyntax
import AndaBrain.Foundation.Utf8Text
import Mathlib.Data.List.DropRight

/-!
# The model gates of the Rust deployment

`execute_cognition_request` and `execute_maintenance_request` of `kip.rs` parse a request,
look at each clause with the parameters its operation executes with, and hand the whole
request to the executor or none of it.
-/

set_option autoImplicit false

namespace AndaBrain.Kip
open Foundation.Utf8Text

def maxGatedSelection : ℕ := 20

def maxDefinesPerRequest : ℕ := 8

def maxSymbolChars : ℕ := 64

def protectedFacets : List String :=
  ["TrialRecord", "EvaluationRecord", "OutcomeRecord", "AttemptRecord", "GradingState",
    "WatchState", "LeaseState"]

def protectedStructural : List String :=
  ["current_trial", "current_evaluation", "derived_from", "compiled_from", "compiled_by",
    "consolidated_to"]

def cognitiveTransitions : List String :=
  ["retracted", "superseded", "corrected", "running", "completed", "failed", "cancelled"]

def coreElementKinds : List String :=
  ["Concept", "Proposition", "Assertion", "Evidence", "Activity"]

/-- `name.rsplit('/').next()`. -/
def localName (name : String) : String :=
  String.ofList (name.toList.rtakeWhile (· ≠ '/'))

/-! ## Symbols a brain drafts -/

def isTypeName (name : String) : Bool :=
  decide (byteLen name.toList ≤ maxSymbolChars) && name.toList.head?.any Char.isUpper &&
    name.toList.all Char.isAlphanum && !coreElementKinds.contains name

def isPredicateName (name : String) : Bool :=
  decide (byteLen name.toList ≤ maxSymbolChars) && name.toList.head?.any Char.isLower &&
    name.toList.all (fun c => c.isLower || c.isDigit || c == '_') &&
    !(name.toList.getLast? == some '_')

def isSymbolName : DefineKind → String → Bool
  | .conceptType, name => isTypeName name
  | .predicate, name => isPredicateName name

/-- `matches!(value, BoundValue::Value(_))`. -/
def BoundValue.isLiteral : BoundValue → Bool
  | .value _ => true
  | _ => false

def defineRefusal (define : DefineCommand) : Option String :=
  match define.name with
  | .param _ => some "write the DEFINE name as a literal, not a parameter"
  | .name name =>
    if !isSymbolName define.kind name then
      some ("`"++name++"` is not a symbol name this brain drafts: Concept types are "++
        "UpperCamelCase letters and digits, predicates are snake_case, at most "++
        toString maxSymbolChars++" characters, and never a Core element kind")
    else if define.definition.any (fun (_,value) => !value.isLiteral) then
      some "write the DEFINE body as literals; a bound body cannot be reviewed before it runs"
    else none

/-! ## Protected records -/

def SymbolRef.resolve (parameters : Option Bindings) : SymbolRef → Option String
  | .name text => some text
  | .param p => (lookup parameters p).bind Json.asStr

def facetsOf : MutationClause → List SymbolRef
  | .createConcept c => c.setFacets.map (·.facet)
  | .upsertConcept c => c.setFacets.map (·.facet)++c.unsetFacets.map (·.facet)
  | .createEvidence c | .createAssertion c | .createActivity c => c.setFacets.map (·.facet)
  | .update c => c.actions.filterMap fun
    | .setFacet f => some f.facet
    | .unsetFacet f => some f.facet
    | _ => none
  | _ => []

def fieldsOf (edges : Option (List StructuralEdge)) : List SymbolRef :=
  (edges.getD []).map (·.field)

def structuralOf : MutationClause → List SymbolRef
  | .createConcept c => fieldsOf c.setStructural
  | .upsertConcept c => fieldsOf c.setStructural++fieldsOf c.unsetStructural
  | .createEvidence c | .createAssertion c | .createActivity c => fieldsOf c.setStructural
  | .transition t => fieldsOf t.setStructural
  | .update c => c.actions.flatMap fun
    | .setStructural edges | .unsetStructural edges => edges.map (·.field)
    | _ => []
  | _ => []

def nameRefusal (unresolved reason : String) (guarded : List String)
    (parameters : Option Bindings) (symbol : SymbolRef) : Option String :=
  match symbol.resolve parameters with
  | none => some unresolved
  | some name => if guarded.contains (localName name) then some (name++reason) else none

def facetRefusal : Option Bindings → SymbolRef → Option String :=
  nameRefusal "model facet names must resolve before execution"
    (" requires a configured host learning/runtime binding or is computed by Nexus; it cannot be "++
      "authored by a model plan") protectedFacets

def structuralRefusal : Option Bindings → SymbolRef → Option String :=
  nameRefusal "model structural field names must resolve before execution"
    (" is moved by host learning transactions or computed from Activity provenance; it cannot be "++
      "authored by a model plan") protectedStructural

def unsupportedCognitiveWrite (command : Command) (parameters : Option Bindings) : Option String :=
  match command with
  | .kml statement =>
    ((statement.clauses.flatMap facetsOf).findSome? (facetRefusal parameters)).or
      ((statement.clauses.flatMap structuralOf).findSome? (structuralRefusal parameters))
  | _ => none

/-! ## Strength bases and dated claims -/

def assignmentsOf : MutationClause → List FacetAssignment
  | .createConcept c => c.setFacets
  | .upsertConcept c => c.setFacets
  | .update c => c.actions.filterMap fun
    | .setFacet f => some f
    | _ => none
  | _ => []

def writes (assignment : FacetAssignment) (member : String) : Bool :=
  assignment.values.any fun value => value.1 == member

def baseWithoutPin (assignment : FacetAssignment) : Bool :=
  writes assignment "memory_strength" &&
    !(writes assignment "last_metabolized_at" && writes assignment "strength_policy")

def isMnemonic (parameters : Option Bindings) (assignment : FacetAssignment) : Bool :=
  (assignment.facet.resolve parameters).any fun name => localName name == "MnemonicState"

def strengthRefusal : String :=
  ("a MnemonicState memory_strength is a base: write it with its anchor and the host's policy pin, "++
    "`last_metabolized_at: :now, strength_policy: :strength_policy`, or leave strength unwritten "++
    "(Profile §6.1)")

def incompleteStrength (command : Command) (parameters : Option Bindings) : Option String :=
  match command with
  | .kml statement =>
    (statement.clauses.flatMap assignmentsOf).findSome? fun assignment =>
      if isMnemonic parameters assignment && baseWithoutPin assignment then some strengthRefusal
      else none
  | _ => none

def citesCapture (captured : String → Bool) (record : CreateRecord) : Bool :=
  (record.setStructural.getD []).any fun edge =>
    match edge.field, edge.value with
    | .name field, .param name => field == "evidence" && captured name.text
    | _, _ => false

def firstField (record : CreateRecord) (name : String) : Option MutationValue :=
  ((record.setFields.getD []).find? fun field => field.1 == name).map (·.2)

def isInferred : Option MutationValue → Bool
  | some (.value (.str mode)) => mode == "inferred"
  | _ => false

def isDated : Option MutationValue → Bool
  | some (.value .null) => false
  | some _ => true
  | none => false

def starts : Option MutationValue → Bool
  | none => false
  | some (.value (.obj members)) => ((Json.obj members).get "from").any fun v => decide (v ≠ .null)
  | some (.value _) => false
  | some (.object members) =>
    members.any fun member => member.1 == "from" && decide (member.2 ≠ .value .null)
  | some _ => true

def undatedBy (field : String → Option MutationValue) : Bool :=
  !isInferred (field "mode") && !isDated (field "asserted_at") && !starts (field "valid_time")

def citationRefusal : String :=
  ("an ASSERT citing a captured message needs `at:` — that message's observed_at from the Captured "++
    "Evidence list — or a `valid: \x7bfrom: …\x7d`; without it the claim starts at this write's time "++
    "and a late-processed message would end a newer value (Spec §13.2, §25.4)")

def undatedCitation (command : Command) (captured : List String) : Option String :=
  match command with
  | .kml statement => statement.clauses.findSome? fun
    | .createAssertion record =>
      if citesCapture captured.contains record && undatedBy (firstField record) then
        some citationRefusal
      else none
    | _ => none
  | _ => none

/-! ## Selections -/

/-- The integer a `LIMIT` slot holds. -/
def selectionLimit (limit : Option Scalar) (parameters : Option Bindings) : Option ℕ :=
  match limit with
  | some (.literal value) => value.asU64
  | some (.param name) => (lookup parameters name).bind Json.asU64
  | none => none

def Selection.unbounded (verb : String) (selection : Selection) (parameters : Option Bindings) :
    Option String :=
  if selection.whereClauses.getD [] = [] then none
  else if (selectionLimit selection.limit parameters).any (· ≤ maxGatedSelection) then none
  else some ("a "++verb++" that selects with WHERE must carry LIMIT "++
    toString maxGatedSelection++" or less")

def unboundedSelection (clause : MutationClause) (parameters : Option Bindings) : Option String :=
  match clause with
  | .update c => c.toSelection.unbounded "UPDATE" parameters
  | .transition t => t.toSelection.unbounded "TRANSITION" parameters
  | .setRetention c => c.toSelection.unbounded "SET RETENTION" parameters
  | .purge c => c.unbounded "PURGE" parameters
  | .purgePayload c => c.unbounded "PURGE PAYLOAD" parameters
  | _ => none

/-! ## The two policies -/

def transitionStateOf (transition : Transition) (parameters : Option Bindings) : Option String :=
  match transition.toState with
  | .literal value => value.asStr
  | .param name => (lookup parameters name).bind Json.asStr

def verbRefusal (verb : String) : String :=
  "formation cannot issue "++verb++"; it writes cognition (CREATE / UPSERT / ENSURE / ASSERT) and "++
    "corrects it (TRANSITION to retracted / superseded / corrected). Administering memory in bulk "++
    "belongs to maintenance"

def clauseCognitionRefusal (parameters : Option Bindings) (clause : MutationClause) :
    Option String :=
  match clause with
  | .createConcept _ | .upsertConcept _ | .ensureProposition | .createEvidence _
  | .createAssertion _ | .createActivity _ => unboundedSelection clause parameters
  | .transition t =>
    match transitionStateOf t parameters with
    | some state =>
      if cognitiveTransitions.contains state then unboundedSelection clause parameters
      else some ("formation cannot TRANSITION memory to \""++state++"\"; it corrects cognition "++
        "(retracted / superseded / corrected) and runs its own Activities. Removing memory belongs "++
        "to maintenance")
    | none => some ("formation must write the TRANSITION state as a literal this request can be "++
      "read against; a state bound elsewhere cannot be checked before it runs")
  | .define d => defineRefusal d
  | .update _ => some (verbRefusal "UPDATE")
  | .setRetention _ => some (verbRefusal "SET RETENTION")
  | .purge _ => some (verbRefusal "PURGE")
  | .purgePayload _ => some (verbRefusal "PURGE PAYLOAD")
  | .mergeConcept _ => some (verbRefusal "MERGE CONCEPT")

def cognitionRefusal (command : Command) (parameters : Option Bindings) : Option String :=
  match command with
  | .kml statement => statement.clauses.findSome? (clauseCognitionRefusal parameters)
  | _ => none

def clauseMaintenanceRefusal (parameters : Option Bindings) (clause : MutationClause) :
    Option String :=
  match clause with
  | .define _ =>
    some ("maintenance reviews draft vocabulary and never defines it: record a near-synonym as an "++
      "Insight about the existing symbol, and put a symbol worth keeping in the report as a "++
      "proposed promotion \x7bkind, from, to\x7d")
  | .purge _ | .purgePayload _ =>
    some ("maintenance cannot issue PURGE or PURGE PAYLOAD; erasure is irreversible and this "++
      "deployment runs it deterministically from a person's forget request, never from a "++
      "maintenance plan. TRANSITION to archived or tombstoned is yours")
  | .setRetention c =>
    if c.values.any fun value => value.1 == "legal_hold" then
      some ("maintenance cannot place or lift a legal hold; set a retention class and an "++
        "expires_at, and leave the hold to a person")
    else unboundedSelection clause parameters
  | _ => unboundedSelection clause parameters

def maintenanceRefusal (command : Command) (parameters : Option Bindings) : Option String :=
  match command with
  | .kml statement => statement.clauses.findSome? (clauseMaintenanceRefusal parameters)
  | _ => none

/-! ## Requests -/

structure Library where
  parse : String → Except String Command
  opensWriteTransaction : Command → Bool

/-- A `DEFINE` is a statement of its own, and the one mutation that opens no transaction. -/
structure Library.Documented (kip : Library) : Prop where
  alone : ∀ text statement d, kip.parse text = .ok (.kml statement) →
    .define d ∈ statement.clauses → statement.clauses = [.define d]
  opens : ∀ text statement, kip.parse text = .ok (.kml statement) →
    (kip.opensWriteTransaction (.kml statement) = false ↔ ∃ d, statement.clauses = [.define d])

/-- The parser refuses a block that assigns one field twice. -/
def FieldsOnce (parse : String → Except String Command) : Prop :=
  ∀ text statement record, parse text = .ok (.kml statement) →
    .createAssertion record ∈ statement.clauses → ((record.setFields.getD []).map (·.1)).Nodup

def Library.parseOperations (kip : Library) (request : Request) : Except String (List Command) :=
  request.operations.mapM fun operation => kip.parse operation.command

def Command.isMutation : Command → Bool
  | .kml _ => true
  | _ => false

def defineBatchRefusal (kip : Library) (commands : List Command) : Option String :=
  let defines := commands.countP fun c => c.isMutation && !kip.opensWriteTransaction c
  if defines = 0 then none
  else if defines ≠ commands.length then
    some ("send DEFINE in its own request, before the MUTATE that uses the symbol; a draft symbol "++
      "commits on its own and resolves from the next request")
  else if defines > maxDefinesPerRequest then
    some ("one request may define at most "++toString maxDefinesPerRequest++
      " symbols; reuse existing symbols first")
  else none

inductive Refusal where
  | unparsed (message : String)
  | notAuthorized (message : String)
  | constraintViolation (message : String)
  | unsupportedCapability (message : String)
  deriving DecidableEq

/-- What the caller receives, and the requests the executor was handed. -/
structure Outcome (Answer : Type) where
  handed : List Request
  answer : Answer ⊕ (Refusal × Option String)

section Execution
variable {Answer : Type} (kip : Library) (executor : Request → Answer) (request : Request)

def refused (refusal : Refusal) : Outcome Answer := ⟨[],.inr (refusal,request.requestId)⟩

def executed : Outcome Answer := ⟨[request],.inl (executor request)⟩

def cognitionGate (captured : List String) (command : Command) (parameters : Option Bindings) :
    Option Refusal :=
  (((undatedCitation command captured).map .constraintViolation).or
    ((unsupportedCognitiveWrite command parameters).map .unsupportedCapability)).or
    (((incompleteStrength command parameters).map .constraintViolation).or
      ((cognitionRefusal command parameters).map .notAuthorized))

def maintenanceGate (command : Command) (parameters : Option Bindings) : Option Refusal :=
  ((unsupportedCognitiveWrite command parameters).map .unsupportedCapability).or
    (((incompleteStrength command parameters).map .constraintViolation).or
      ((maintenanceRefusal command parameters).map .notAuthorized))

/-- The first refusal of a command, each read with the parameters of its own operation. -/
def firstRefusal (gate : Command → Option Bindings → Option Refusal) (commands : List Command) :
    Option Refusal :=
  commands.zipIdx.findSome? fun (command,index) => gate command (operationParameters request index)

def executeCognitionRequest : Outcome Answer :=
  match kip.parseOperations request with
  | .error e => refused request (.unparsed e)
  | .ok commands =>
    match defineBatchRefusal kip commands with
    | some refusal => refused request (.notAuthorized refusal)
    | none =>
      match firstRefusal request (cognitionGate (request.ingest.getD [])) commands with
      | some refusal => refused request refusal
      | none => executed executor request

def executeMaintenanceRequest : Outcome Answer :=
  match kip.parseOperations request with
  | .error e => refused request (.unparsed e)
  | .ok commands =>
    match firstRefusal request maintenanceGate commands with
    | some refusal => refused request refusal
    | none => executed executor request

end Execution

end AndaBrain.Kip
