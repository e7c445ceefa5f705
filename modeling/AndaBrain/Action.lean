import AndaBrain.Json
import AndaBrain.Foundation.ConditionalStore

/-!
# Wakes, gates and their journal

The data of `action/`: a wake is gated once, its decision is prepared, saved in a journal and
committed to the native store, and a committed act is dispatched by a wake of its own.
-/

set_option autoImplicit false

namespace AndaBrain.Action
open Foundation.Resumption Foundation.ConditionalStore

abbrev WakeRef := String

structure RuntimeScope where
  id : String
  deriving DecidableEq

structure RuntimePins where
  digest : String
  deriving DecidableEq

inductive ActionKind where
  | business
  | deliverClarification
  deriving DecidableEq

inductive Decision where
  | act
  | ask
  | defer
  | silence
  deriving DecidableEq

inductive DeliveryStatus where
  | accepted
  | finished
  | unknown
  deriving DecidableEq

inductive ContinuationKey where
  | answer
  | clarification
  | dispatch
  | retry
  | manual
  deriving DecidableEq

inductive JobState where
  | pending
  | disabled
  | retrying
  | blocked
  | committed
  | awaitingReply
  | ready
  | awaitingOutcome
  | awaitingCompletion
  | outcomeUnknown
  | completed
  | cancelled
  deriving DecidableEq

structure AttemptId where
  scope : RuntimeScope
  wake : WakeRef
  kind : ActionKind
  deriving DecidableEq

/-- The name of the control record that the native store keeps for an attempt. -/
structure DispatchRef where
  scope : RuntimeScope
  attemptId : AttemptId
  deriving DecidableEq

def dispatchReference (scope : RuntimeScope) (attemptId : AttemptId) : DispatchRef :=
  ⟨scope,attemptId⟩

structure ContextRequest where
  recallReceipt : Option String
  anchor : String
  requiredRefs : List String
  premises : List String
  appliedRevisions : List String
  taskFamily : String
  environmentDigest : String
  toolVersions : List (String × String)
  deduplicationKey : Option String
  deriving DecidableEq

structure ActionRequest where
  scope : RuntimeScope
  pins : RuntimePins
  gateWakeRef : WakeRef
  kind : ActionKind
  attemptId : AttemptId
  payload : Json
  context : ContextRequest
  deriving DecidableEq

structure RequestDigest where
  kind : ActionKind
  payload : Json
  context : ContextRequest
  deriving DecidableEq

def ActionRequest.digest (request : ActionRequest) : RequestDigest :=
  ⟨request.kind,request.payload,request.context⟩

structure Capture where
  request : ContextRequest
  retrieved : List String
  items : List String
  insufficient : Option String
  receipt : Option String
  deriving DecidableEq

inductive Proposal where
  | act (rationale : String) (usedRefs : List String) (payload : Json)
  | ask (rationale : String) (usedRefs : List String) (question : String)
  | defer (reason : String)
  | silence (rationale : String) (usedRefs : List String)

structure WakeContinuation where
  key : ContinuationKey
  notBeforeMs : ℕ
  deriving DecidableEq

/-- The mutation a gate commits: its decision and, for an act, the attempt with
the artifact that fixes the request. -/
structure Command where
  decision : Decision
  rationale : String
  used : List String
  revisions : List String
  attempt : Option (AttemptId × String)
  deriving DecidableEq

/-- `considered` is the request the suggestion led to, also where another
decision took its place; it is not stored by the program. -/
structure PreparedGate where
  command : Command
  continuations : List WakeContinuation
  expected : ℕ
  fence : ℕ
  decision : Decision
  capture : Capture
  request : Option ActionRequest
  recipient : Option String
  replyDeadlineMs : Option ℕ
  clarificationPayload : Option Json
  considered : Option ActionRequest
  deriving DecidableEq

structure ActionStatus where
  wakeRef : WakeRef
  decision : Option Decision
  decisionRef : Option String
  attemptRef : Option String
  dispatchRef : Option DispatchRef
  state : JobState
  reason : Option String
  nextRunMs : Option ℕ
  attempts : ℕ
  operatorRetries : ℕ
  deriving DecidableEq

structure Job where
  scope : RuntimeScope
  pins : RuntimePins
  wakeRef : WakeRef
  rounds : ℕ
  failures : ℕ
  status : ActionStatus
  prepared : Option PreparedGate
  outputs : List String
  delivery : Option DeliveryStatus
  deriving DecidableEq

structure ClarificationResponse where
  eventKey : String
  answer : String
  deriving DecidableEq

structure Reply where
  scope : RuntimeScope
  gateWakeRef : WakeRef
  principal : String
  receivedMs : ℕ
  response : ClarificationResponse
  deriving DecidableEq

structure Dedup where
  scope : RuntimeScope
  pins : RuntimePins
  owner : WakeRef
  requestDigest : RequestDigest
  deriving DecidableEq

structure Switch where
  scope : RuntimeScope
  enabled : Bool
  deriving DecidableEq

inductive Key where
  | job (scope : RuntimeScope) (reference : WakeRef)
  | dedup (scope : RuntimeScope) (id : String)
  | reply (scope : RuntimeScope) (gate : WakeRef)
  | setting (scope : RuntimeScope)
  deriving DecidableEq

def Entry : Key → Type
  | .job _ _ => Job
  | .dedup _ _ => Dedup
  | .reply _ _ => Reply
  | .setting _ => Switch

instance (k : Key) : DecidableEq (Entry k) :=
  match k with
  | .job _ _ => inferInstanceAs (DecidableEq Job)
  | .dedup _ _ => inferInstanceAs (DecidableEq Dedup)
  | .reply _ _ => inferInstanceAs (DecidableEq Reply)
  | .setting _ => inferInstanceAs (DecidableEq Switch)

inductive WakeState where
  | pending
  | blocked
  | running (owner : String) (expiresAtMs : ℕ)
  | completed
  | cancelled
  deriving DecidableEq

structure WakeIdentity where
  scope : RuntimeScope
  pins : RuntimePins
  parentRef : Option WakeRef
  continuationKey : Option ContinuationKey
  armGeneration : ℕ

structure WakeRecord where
  wakeRef : WakeRef
  version : ℕ
  fence : ℕ
  state : WakeState

structure Limits where
  callbacksMs : ℕ
  retryMs : ℕ
  maxRetries : ℕ

structure Executor where
  supportsIdempotency : Bool

structure ClarificationBinding where
  executor : Executor
  recipientPrincipal : String
  replyTimeoutMs : ℕ

structure Host where
  limits : Limits
  business : Option Executor
  clarification : Option ClarificationBinding
  lookup : Bool
  pins : RuntimePins
  automatic : Bool
  scope : RuntimeScope
  wakes : WakeRef → WakeIdentity

/-- The state of a control record that is not `ready`. -/
inductive Held where
  | started
  | outcomeUnknown
  | completed
  deriving DecidableEq

inductive ControlState where
  | ready
  | held (state : Held)
  deriving DecidableEq

inductive LookupStatus where
  | notStarted
  | running
  | finished
  | unknown
  deriving DecidableEq

/-- A native write is refused, takes effect and is answered, or takes effect
while its answer is lost. -/
inductive Native (α : Type) where
  | refused (e : String)
  | lost (e : String)
  | done (a : α)

inductive BeginAction where
  | dispatch
  | lookup
  | outcomeUnknown
  | done
  | other
  deriving DecidableEq

structure Permit where
  dispatchRef : DispatchRef
  idempotencyKey : AttemptId
  action : BeginAction

/-- `reserved` marks the system and the anonymous principal. -/
structure AuthContext where
  principalId : String
  reserved : Bool
  authMethod : String
  authStrength : String
  delegated : Bool

structure OutputRow where
  decision : Option Decision
  attemptId : Option AttemptId

structure SourceRow where
  fired : Bool
  armGeneration : ℕ

structure Env where
  storage : Service String
  now : ℕ
  principal : Except String AuthContext
  wake : WakeRef → Except String (ℕ × ℕ × WakeState)
  native : Except String Unit
  finish : Native (List String)
  element : String → Except String OutputRow
  context : Except String ContextRequest
  capture : ContextRequest → Except String Capture
  inputFits : Except String Bool
  suggestion : Except String Proposal
  proposalFits : Proposal → Except String Bool
  allowSilence : Except String Bool
  receipt : Capture → Proposal → Except String (Option String)
  artifact : Except String String
  commandFits : Bool
  authorize : Except String Unit
  source : WakeRef → Except String SourceRow
  revalidate : Except String Unit
  committedRequest : Except String Bool
  lookup : Except String LookupStatus
  reconcile : Native Unit
  progress : Option Held
  settled : Held
  begin : Native (AttemptId × BeginAction)
  delivery : Except String DeliveryStatus

/-- `dispatched` lists the calls of an executor by attempt, `returned` the
attempts a reconciled lookup returned to `ready`, `committed` the gates whose
commit took effect. -/
structure World where
  directory : Store Key Entry
  control : DispatchRef → Option ControlState
  dispatched : List AttemptId
  returned : List AttemptId
  committed : List (WakeRef × PreparedGate)

instance : Holds World Key Entry where
  store := World.directory
  withStore w st := { w with directory := st }
  store_withStore _ _ := rfl

instance : Serves Env String where
  service := Env.storage
  refused := "precondition failed"
  conflict := "attention conditional-write conflict"

abbrev M := Prog String Env World

structure Fault where
  error : String
  job : Job

abbrev J := Prog Fault Env World

def withJob {α : Type} (job : Job) (p : M α) : J α := mapFail (fun e => ⟨e,job⟩) p

def need {α : Type} (o : Option α) (e : String) : Except String α :=
  match o with
  | some a => .ok a
  | none => .error e

def clock : M ℕ := query fun i _ => .ok i.now

def principalValid (auth : AuthContext) : Bool :=
  auth.principalId.startsWith "kip:principal:" &&
    decide (auth.principalId.utf8ByteSize ≤ 256) && !auth.reserved

def authenticated (auth : AuthContext) : Bool :=
  principalValid auth && !auth.authMethod.isEmpty && auth.authStrength != "none" &&
    !auth.delegated

def openSession : M String := do
  let auth ← query fun i _ => i.principal
  refuseIf (!authenticated auth) "actions require a directly authenticated host principal"
  pure auth.principalId

def readWake (reference : WakeRef) : M WakeRecord :=
  query fun i _ => (i.wake reference).map fun w => ⟨reference,w.1,w.2.1,w.2.2⟩

def native : M Unit := query fun i _ => i.native

def Job.new (host : Host) (reference : WakeRef) : Job where
  scope := (host.wakes reference).scope
  pins := (host.wakes reference).pins
  wakeRef := reference
  rounds := 0
  failures := 0
  status := ⟨reference,none,none,none,none,.pending,none,none,0,0⟩
  prepared := none
  outputs := []
  delivery := none

def Job.valid (job : Job) (scope : RuntimeScope) (reference : WakeRef) : Bool :=
  decide (job.scope = scope) && decide (job.wakeRef = reference) && decide (job.rounds ≤ 17) &&
    decide (job.outputs.length ≤ 128)

def load (scope : RuntimeScope) (reference : WakeRef) : M (Option Job) := do
  match ← read (Key.job scope reference) with
  | none => pure none
  | some row =>
    refuseIf (!Job.valid row.value scope reference) "action journal identity/format mismatch"
    pure (some row.value)

/-- A conditional write, reported done when the object read back is the written
one. Reading it back may fail on its own. -/
def directoryPut (k : Key) (v : Entry k) (mode : PutMode) : M Unit := do
  let reported ← putOpts k v mode
  let stored ← read k
  refuseIf (stored.map Versioned.value ≠ some v) (reported.getD (Serves.conflict Env))

def putOver (k : Key) (v : Entry k) (old : Option (Versioned (Entry k))) : M Unit :=
  directoryPut k v (match old with
    | none => .create
    | some old => .update old.version)

def save (job : Job) : M Unit := do
  let old ← read (Key.job job.scope job.wakeRef)
  putOver (Key.job job.scope job.wakeRef) job old

def executor (host : Host) (kind : ActionKind) : Except String Executor :=
  need (match kind with
    | .business => host.business
    | .deliverClarification => host.clarification.map ClarificationBinding.executor)
    "action binding unavailable"

def authorize (host : Host) (request : ActionRequest) : M Unit := do
  query fun i _ => i.authorize
  let _ ← lift (executor host request.kind)
  query fun i _ => i.authorize

def Job.withState (job : Job) (state : JobState) : Job :=
  { job with status := { job.status with state := state } }

def Job.withReason (job : Job) (reason : Option String) : Job :=
  { job with status := { job.status with reason := reason } }

def Job.withNextRun (job : Job) (nextRunMs : Option ℕ) : Job :=
  { job with status := { job.status with nextRunMs := nextRunMs } }

def Job.withDispatchRef (job : Job) (reference : DispatchRef) : Job :=
  { job with status := { job.status with dispatchRef := some reference } }

def block (job : Job) : J Job := do
  withJob job native
  let job := (job.withState .blocked).withNextRun none
  withJob job (save job)
  withJob job native
  pure job

def WakeRecord.leased (wake : WakeRecord) (principal : String) (untilMs : ℕ) : Bool :=
  match wake.state with
  | .running owner expiresAtMs => owner == principal && decide (untilMs < expiresAtMs)
  | _ => false

def resume (wake : WakeRecord) : M WakeRecord :=
  if wake.state = .blocked then do
    native
    native
    readWake wake.wakeRef
  else pure wake

def acquire (host : Host) (principal : String) (wake : WakeRecord) : M WakeRecord := do
  let wake ← resume wake
  let now ← clock
  if wake.leased principal (now+host.limits.callbacksMs*4) then pure wake
  else readWake wake.wakeRef

end AndaBrain.Action
