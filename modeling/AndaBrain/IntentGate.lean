import AndaBrain.Intake
import AndaBrain.KipObligations
import AndaBrain.WorkerGate

/-!
# Passes with an intent

An observe or a revise runs Formation in its scope: the host binds the context set, and the gate
of the intent looks at every Assertion and every lifecycle move of the request.
-/

set_option autoImplicit false

namespace AndaBrain.IntentGate
open Kip
open Intake (ChangeKind)

structure MemoryIntent where
  operation : Intake.Operation
  task : Option String
  contexts : List String
  changeKind : Option ChangeKind
  originalEvidence : Option String

def MemoryIntent.bindings (intent : MemoryIntent) : List (String × Json) :=
  [("contexts", .arr (intent.contexts.map .str)), ("scope_task", intent.task.elim .null .str)]++
    (intent.originalEvidence.map fun original => ("orig", Json.str original)).toList

def bindingsOf (members : List (String × Json)) : Bindings :=
  fun name => (members.find? fun member => member.1 == name).map (·.2)

/-! ## The gate of `intake.rs` -/

/-- `Transition::state`: the state as it is written. -/
def writtenState (t : Transition) : Option String :=
  match t.toState with
  | .literal (.str state) => some state
  | _ => none

def activityStates : List String := ["completed", "failed", "cancelled", "running"]

def transitionIsActivity (t : Transition) : Bool := (writtenState t).any activityStates.contains

def revisingStates : List String := ["superseded", "corrected", "retracted"]

def MemoryIntent.allowsTransition (intent : MemoryIntent) (state : Option String) : Bool :=
  match intent.operation with
  | .revise => intent.changeKind = some .correction && state.any revisingStates.contains
  | _ => true

def scopedRefusal : String :=
  "this observation is scoped: write every ASSERT with `context: :contexts` so the claim "++
    "stays in its task and contexts (MI §3, Profile §20.3)"

def MemoryIntent.moveRefusal (intent : MemoryIntent) : String :=
  match intent.operation, intent.changeKind with
  | _, some .misrecorded =>
    "a misrecording is repaired by the host; do not supersede, correct or retract any "++
      "claim — write only what the original source actually said"
  | _, some .worldChange =>
    "a world change is one new Assertion from the change; temporal succession ends the old "++
      "value, so do not supersede or retract it (Spec §25.4)"
  | .revise, _ =>
    "change_kind is unspecified: record the revision as new claims; never supersede or "++
      "retract on a guess (MI §4)"
  | _, _ => "this lifecycle move is not allowed for this intent"

/-- The value is the parameter `:contexts`. -/
def citesContexts : Option MutationValue → Bool
  | some (.param name) => name.text = "contexts"
  | _ => false

def MemoryIntent.clauseRefusal (intent : MemoryIntent) : MutationClause → Option String
  | .createAssertion record =>
    if !intent.contexts.isEmpty && !citesContexts (firstField record "context_refs") then
      some scopedRefusal
    else none
  | .transition t =>
    if !transitionIsActivity t && !intent.allowsTransition (writtenState t) then
      some intent.moveRefusal
    else none
  | _ => none

def MemoryIntent.refusal (kip : Library) (intent : MemoryIntent) (request : Request) :
    Option String :=
  match kip.parseOperations request with
  | .error _ => none
  | .ok commands => commands.findSome? fun
    | .kml statement => statement.clauses.findSome? intent.clauseRefusal
    | _ => none

def attachIntentBindings (kip : Library) (request : Request) (members : List (String × Json)) :
    Except String Request :=
  if !opensWrite kip request then .ok request
  else if members.any fun member => claims request member.1 then
    .error ("`:contexts`, `:scope_task` and `:orig` are bound by the host; cite them without "++
      "binding them")
  else .ok { request with
    parameters := some (extend (request.parameters.getD fun _ => none) (bindingsOf members)) }

def MemoryIntent.write {Answer : Type} (kip : Library) (executor : Request → Answer)
    (intent : MemoryIntent) (request : Request) : Outcome Answer :=
  match intent.refusal kip request with
  | some refusal => refused request (.notAuthorized refusal)
  | none =>
    match attachIntentBindings kip request intent.bindings with
    | .error error => refused request (.notAuthorized error)
    | .ok bound => executeCognitionRequest kip executor bound

/-! ## The gate of `kip.ts` -/

def intentBindingNames : List String := ["contexts", "scope_task", "orig"]

def MemoryIntent.moveError (intent : MemoryIntent) : String :=
  match intent.changeKind with
  | some .misrecorded =>
    "a misrecording is repaired by the host; do not supersede, correct or retract any claim"
  | some .worldChange =>
    "a world change is one new Assertion from the change; temporal succession ends the old "++
      "value, so do not supersede or retract it (Spec §25.4)"
  | _ =>
    "change_kind is unspecified: record the revision as new claims; never supersede or "++
      "retract on a guess (MI §4)"

def MemoryIntent.assertClause (intent : MemoryIntent) (parameters : Option Bindings) :
    MutationClause → Option String
  | .createAssertion record =>
    if 0 < intent.contexts.length && !citesContexts (Worker.lastField record "context_refs") then
      some scopedRefusal
    else none
  | .transition t =>
    if intent.operation = .revise then
      let state := (Worker.transitionState t.toState parameters).getD ""
      if ["completed", "failed", "cancelled", "running"].contains state then none
      else if intent.changeKind = some .correction &&
          ["superseded", "corrected", "retracted"].contains state then none
      else some intent.moveError
    else none
  | _ => none

def MemoryIntent.assertOperations (parse : String → Except String Command) (intent : MemoryIntent)
    (operations : List Operation) (planParameters : Bindings) : Option String :=
  if intentBindingNames.any fun name => (planParameters name).isSome then
    some ("`:contexts`, `:scope_task` and `:orig` are bound by the host; cite them without "++
      "binding them")
  else operations.findSome? fun operation =>
    match parse operation.command with
    | .error message => some message
    | .ok (.kml statement) =>
      statement.clauses.findSome? (intent.assertClause operation.parameters)
    | .ok _ => none

structure MutationPlan where
  commands : List String
  parameters : Bindings

def hostBindings (now : String) : Bindings :=
  bindingsOf [("strength_policy", strengthPolicy), ("now", .str now)]

/-- `{ ...plan.parameters, ...hostBindings(now), ...bindings }`, on every command. -/
def MemoryIntent.planned (intent : MemoryIntent) (now : String) (plan : MutationPlan) :
    List Operation :=
  plan.commands.map fun command => ⟨command, some (extend (extend plan.parameters
    (hostBindings now)) (bindingsOf intent.bindings))⟩

def MemoryIntent.preparePlan (parse : String → Except String Command) (intent : MemoryIntent)
    (now : String) (plan : MutationPlan) : Except String (List Operation) :=
  let operations := intent.planned now plan
  if operations.isEmpty then .ok operations
  else
    match (Worker.assertFormationOperations parse operations).or
        (intent.assertOperations parse operations plan.parameters) with
    | some error => .error error
    | none => .ok operations

/-! ## What a write does -/

/-- `composed` is the value of an array or object with a parameter in it, of a variable or of a
function. -/
structure Engine where
  composed : Option Bindings → MutationValue → Option Json

def Engine.evaluate (engine : Engine) (parameters : Option Bindings) : MutationValue → Option Json
  | .value value => some value
  | .param name => lookup parameters name
  | value => engine.composed parameters value

def Engine.stored (engine : Engine) (parameters : Option Bindings) (record : CreateRecord)
    (field : String) : Option Json :=
  (Worker.lastField record field).bind (engine.evaluate parameters)

def ContextSet (contexts : List String) (value : Option Json) : Prop :=
  ∃ refs : List String, value = some (.arr (refs.map .str)) ∧ ∀ ref, ref ∈ refs ↔ ref ∈ contexts

/-- The clause may change the state of a claim that exists. Only a move to an Activity state
leaves all claims alone: the engine makes it on an Activity and on nothing else. -/
inductive MovesClaim (request : Request) (index : ℕ) : MutationClause → Prop where
  | transition (t : Transition)
      (h : ∀ state ∈ activityStates, ¬ t.toState.Resolves request index (.str state)) :
      MovesClaim request index (.transition t)
  | purge (c : Selection) : MovesClaim request index (.purge c)
  | purgePayload (c : Selection) : MovesClaim request index (.purgePayload c)

section Properties
variable (intent : MemoryIntent) (request : Request) (commands : List Command)

def Scoped (engine : Engine) : Prop :=
  intent.contexts ≠ [] → ∀ index statement record, commands[index]? = some (.kml statement) →
    .createAssertion record ∈ statement.clauses →
      ContextSet intent.contexts
        (engine.stored (operationParameters request index) record "context_refs")

def Additive : Prop :=
  intent.operation = .revise → intent.changeKind ≠ some .correction →
    ∀ index statement clause, commands[index]? = some (.kml statement) →
      clause ∈ statement.clauses → ¬ MovesClaim request index clause

end Properties

end AndaBrain.IntentGate
