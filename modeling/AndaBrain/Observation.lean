import AndaBrain.Json
import AndaBrain.Foundation.ConditionalStore
import Mathlib.Data.String.Basic

/-!
# Observation receipts

`consequence/service.rs`, `native.rs` and `learning.rs`: an observation of an attempt is
journalled as a receipt, indexed, committed natively and, when it is terminal, closes the dispatch
of the attempt.
-/

set_option autoImplicit false

namespace AndaBrain.Observation
open Foundation.Resumption Foundation.ConditionalStore

structure RuntimeScope where
  spaceId : String
  spaceInstance : String
  deriving DecidableEq

inductive OutcomeStatus where
  | success
  | partly
  | failure
  | aborted
  | unknown
  deriving DecidableEq

structure Measurement where
  terminal : Bool
  outcomeStatus : OutcomeStatus
  magnitude : Option F64
  payload : Json
  deriving DecidableEq

inductive Observed where
  | measurement (m : Measurement)
  | learning (measurements : Json)
  deriving DecidableEq

structure OutcomeInput where
  spaceInstance : String
  attemptRef : String
  observerConfigurationDigest : String
  eventKey : String
  observedAt : String
  metric : String
  window : String
  observation : Observed
  correctionOf : Option String
  safetySignal : Option String
  deriving DecidableEq

structure ObserverContract where
  principalId : String
  configurationDigest : String
  controlDomain : String
  taskFamily : String
  metric : String
  window : String
  maximumDelayMs : ℕ
  deriving DecidableEq

/-- The digest that names a receipt: of its event, or of the conflict with one. -/
inductive ReceiptId where
  | event (scope : RuntimeScope) (observer event : String)
  | conflict (original : ReceiptId) (body : OutcomeInput)
  deriving DecidableEq

inductive ReceiptStatus where
  | accepted
  | lateAudit
  | conflictAudit
  | progressAudit
  | committed
  | correctionRecorded
  | learningCommitted
  deriving DecidableEq

def ReceiptStatus.isAudit : ReceiptStatus → Bool
  | .lateAudit => true
  | .conflictAudit => true
  | .progressAudit => true
  | _ => false

structure ObservationReceipt where
  format : String
  receiptId : ReceiptId
  scope : RuntimeScope
  eventKey : String
  bodyDigest : OutcomeInput
  observer : String
  receivedAtMs : ℕ
  observedAt : String
  status : ReceiptStatus
  nativeCommitted : Bool
  learningEligible : Bool
  outcomeStatus : Option OutcomeStatus
  outcomeRef : Option String
  observationRef : Option String
  reason : Option String
  safetyPending : Bool
  safetyEvaluationRef : Option String
  deriving DecidableEq

structure Command where
  input : OutcomeInput
  decision : String
  correctionRef : Option String
  taskFamily : String
  deriving DecidableEq

structure DispatchRef where
  scope : RuntimeScope
  attemptId : String
  deriving DecidableEq

inductive ContractDigest where
  | contract (c : ObserverContract)
  | learning (observerDigest : String)
  deriving DecidableEq

structure StoredReceipt where
  receipt : ObservationReceipt
  input : OutcomeInput
  decisionRef : String
  dispatchRef : Option DispatchRef
  command : Option Command
  nativeKey : ReceiptId
  contractDigest : ContractDigest
  deriving DecidableEq

inductive Row where
  | receipt (scope : RuntimeScope) (observer event : String)
  | conflict (scope : RuntimeScope) (original : ReceiptId) (body : OutcomeInput)
  deriving DecidableEq

structure Index where
  allocated : ℕ
  published : ℕ
  deriving DecidableEq

structure Pointer where
  receipt : ObservationReceipt
  storageKey : Row
  attemptRef : String
  deriving DecidableEq

inductive Key where
  | row (r : Row)
  | index (scope : RuntimeScope)
  | pointer (scope : RuntimeScope) (n : ℕ)
  | marker (scope : RuntimeScope) (receipt : ObservationReceipt)
  | correction (scope : RuntimeScope) (outcome : String)
  | safetyCursor (scope : RuntimeScope) (principal : String)
  deriving DecidableEq

def Entry : Key → Type
  | .row _ => StoredReceipt
  | .index _ => Index
  | .pointer _ _ => Pointer
  | .marker _ _ => ℕ
  | .correction _ _ => ReceiptId
  | .safetyCursor _ _ => ℕ

instance (k : Key) : DecidableEq (Entry k) :=
  match k with
  | .row _ => inferInstanceAs (DecidableEq StoredReceipt)
  | .index _ => inferInstanceAs (DecidableEq Index)
  | .pointer _ _ => inferInstanceAs (DecidableEq Pointer)
  | .marker _ _ => inferInstanceAs (DecidableEq ℕ)
  | .correction _ _ => inferInstanceAs (DecidableEq ReceiptId)
  | .safetyCursor _ _ => inferInstanceAs (DecidableEq ℕ)

inductive RuntimeError where
  | invalid (text : String)
  | unauthorized
  | forbidden
  | notFound
  | conflict (text : String)
  | retained (audit : ReceiptId)
  | unavailable (text : String)
  | storage (text : String)
  deriving DecidableEq

structure AttemptRow where
  decisionRef : Option String
  createdTx : Option String
  startedMs : Option ℕ
  trial : Bool
  taskFamily : Option String
  attemptId : Option String

structure TransactionRow where
  inDefaultSpace : Bool
  committed : Bool
  changedIds : List String
  principal : Option String

structure DispatchRow where
  attemptRef : String
  firstDispatchMs : Option ℕ

structure Delivery where
  scope : RuntimeScope
  attemptRef : String
  requestDigest : String
  committedAtMs : ℕ

/-- What the learning controller says of an attempt it has registered. -/
structure Route where
  spaceInstance : String
  observerDigest : String
  window : String
  dispatched : Bool
  hasOutcome : Bool
  lateNow : Bool
  cutoffMs : ℕ
  recovery : Bool

/-- The measurements of a learning observation, as the controller reads them. -/
structure Measured where
  finished : Bool
  status : OutcomeStatus

inductive LearningAnswer where
  | late
  | failed (e : RuntimeError)
  | recorded (outcome : Option String)

/-- The answer to a native command: an error without an effect, an error after the
transaction took effect, or its handles. -/
inductive Executed where
  | refused (e : RuntimeError)
  | lost (outcome observation : String) (e : RuntimeError)
  | done (outcome observation : String)

inductive Reconciled where
  | refused (e : RuntimeError)
  | lost (e : RuntimeError)
  | done

structure Env where
  storage : Service RuntimeError
  authorized : Except RuntimeError Unit
  now : ℕ
  bytes : ℕ
  normalized : Except RuntimeError String
  observedMs : Except RuntimeError ℕ
  attempt : Except RuntimeError AttemptRow
  decision : Except RuntimeError String
  transaction : Except RuntimeError (Option TransactionRow)
  route : Except RuntimeError (Option Route)
  dispatch : Except RuntimeError (Option DispatchRow)
  visible : String → Except RuntimeError Unit
  delivery : Except RuntimeError (Option Delivery)
  execute : Executed
  view : Except RuntimeError String
  reconcile : Reconciled
  measured : Except RuntimeError Measured
  learning : LearningAnswer
  observationInstance : Except RuntimeError String
  safetyEvaluation : Except RuntimeError String
  verification : Except RuntimeError (Option String)

structure Tx where
  key : ReceiptId
  input : OutcomeInput
  outcome : String
  observation : String
  deriving DecidableEq

structure World where
  directory : Store Key Entry
  txs : List Tx
  closed : DispatchRef → Option String

instance : Holds World Key Entry where
  store := World.directory
  withStore w st := { w with directory := st }
  store_withStore _ _ := rfl

instance : Serves Env RuntimeError where
  service := Env.storage
  refused := .storage "precondition failed"
  conflict := .storage "attention conditional-write conflict"

abbrev M := Prog RuntimeError Env World

structure Site where
  scope : RuntimeScope
  observers : List ObserverContract
  inboxValidation : Bool

def need {α : Type} (o : Option α) (e : RuntimeError) : Except RuntimeError α :=
  match o with
  | some a => .ok a
  | none => .error e

def readValue (k : Key) : M (Option (Entry k)) := do
  let row ← read k
  pure (row.map Versioned.value)

def findRow (r : Row) : M (Option StoredReceipt) := readValue (.row r)

def findPointer (scope : RuntimeScope) (n : ℕ) : M (Option Pointer) := readValue (.pointer scope n)

def findCursor (scope : RuntimeScope) (principal : String) : M (Option ℕ) :=
  readValue (.safetyCursor scope principal)

def findMarker (scope : RuntimeScope) (receipt : ObservationReceipt) : M (Option ℕ) :=
  readValue (.marker scope receipt)

def findCorrection (scope : RuntimeScope) (outcome : String) : M (Option ReceiptId) :=
  readValue (.correction scope outcome)

def readIndex (scope : RuntimeScope) : M (Option (Versioned Index)) :=
  (read (Key.index scope) : M (Option (Versioned (Entry (.index scope)))))

def readPublished (scope : RuntimeScope) : M ℕ := do
  let head ← readIndex scope
  pure (head.elim 0 fun h => h.value.published)

def modeOf (old : Option (Versioned Index)) : PutMode :=
  match old with
  | none => .create
  | some old => .update old.version

/-- Publishes a version of a receipt once: allocation, pointer, publication and
marker. -/
def indexAt (stored : StoredReceipt) (storageKey : Row) : M Unit := do
  let scope := stored.receipt.scope
  match ← findMarker scope stored.receipt with
  | some _ => pure ()
  | none => do
    let old ← readIndex scope
    let allocated := old.elim 0 fun h => h.value.allocated
    refuseIf (1000000 ≤ allocated) (.unavailable "observation journal capacity exhausted")
    confirmedPut (.index scope) (⟨allocated+1,old.elim 0 fun h => h.value.published⟩ : Index)
      (modeOf old)
    confirmedPut (.pointer scope (allocated+1))
      (⟨stored.receipt,storageKey,stored.input.attemptRef⟩ : Pointer) .create
    let found ← readIndex scope
    let head ← lift (need found .notFound)
    confirmedPut (.index scope) (⟨head.value.allocated,allocated+1⟩ : Index)
      (.update head.version)
    confirmedPut (.marker scope stored.receipt) (allocated+1 : ℕ) .create

def challenge (stored : StoredReceipt) (prior : StoredReceipt) : M Unit :=
  match prior.receipt.outcomeRef with
  | none => pure ()
  | some outcome =>
    if prior.input.attemptRef = stored.input.attemptRef then do
      let found ← findCorrection stored.receipt.scope outcome
      doIf (found.isNone = true)
        (confirmedPut (.correction stored.receipt.scope outcome) stored.receipt.receiptId .create)
    else pure ()

def markCorrection (stored : StoredReceipt) : M Unit :=
  match stored.input.correctionOf with
  | none => pure ()
  | some event => do
    match ← findRow (.receipt stored.receipt.scope stored.receipt.observer event) with
    | none => pure ()
    | some prior => challenge stored prior

def index (stored : StoredReceipt) : M Unit := do
  markCorrection stored
  indexAt stored (.receipt stored.receipt.scope stored.receipt.observer stored.receipt.eventKey)

def saveRow (r : Row) (stored : StoredReceipt) : M Unit := confirmedSave (.row r) stored

def format : String := "anda-brain:observation-receipt-v1"

def validateStored (r : StoredReceipt) (scope : RuntimeScope) (observer : String) :
    Except RuntimeError Unit :=
  if r.receipt.format ≠ format ∨ r.receipt.scope ≠ scope ∨ r.receipt.observer ≠ observer then
    .error (.conflict "observation journal identity mismatch")
  else .ok ()

def outcomeStatusOf : Observed → Option OutcomeStatus
  | .measurement m => some m.outcomeStatus
  | .learning _ => none

def prepareReceipt (scope : RuntimeScope) (observer : String) (input : OutcomeInput)
    (decisionRef : String) (dispatchRef : Option DispatchRef) (contractDigest : ContractDigest)
    (now : ℕ) : StoredReceipt where
  receipt :=
    { format := format
      receiptId := .event scope observer input.eventKey
      scope := scope
      eventKey := input.eventKey
      bodyDigest := input
      observer := observer
      receivedAtMs := now
      observedAt := input.observedAt
      status := .accepted
      nativeCommitted := false
      learningEligible := false
      outcomeStatus := outcomeStatusOf input.observation
      outcomeRef := none
      observationRef := none
      reason := none
      safetyPending := input.safetySignal.isSome
      safetyEvaluationRef := none }
  input := input
  decisionRef := decisionRef
  dispatchRef := dispatchRef
  command := none
  nativeKey := .event scope observer input.eventKey
  contractDigest := contractDigest

def StoredReceipt.audit (r : StoredReceipt) (status : ReceiptStatus) (reason : String) :
    StoredReceipt :=
  { r with receipt := { r.receipt with status := status, reason := some reason } }

def conflictRow (old : StoredReceipt) (input : OutcomeInput) (now : ℕ) : StoredReceipt :=
  { old with
    input := input
    command := none
    receipt := { old.receipt with
      bodyDigest := input
      status := .conflictAudit
      nativeCommitted := false
      learningEligible := false
      outcomeRef := none
      observationRef := none
      reason := some "event key reused with different content"
      safetyPending := input.safetySignal.isSome
      receiptId := .conflict old.receipt.receiptId input
      observedAt := input.observedAt
      receivedAtMs := now } }

def keepConflict (key : Row) (row : StoredReceipt) (saved : Option StoredReceipt) :
    M StoredReceipt :=
  match saved with
  | some saved => pure saved
  | none => do
    confirmedPut (.row key) row .create
    pure row

def conflict {α : Type} (old : StoredReceipt) (input : OutcomeInput) : M α := do
  let now ← query fun i _ => .ok i.now
  let key := Row.conflict old.receipt.scope old.receipt.receiptId input
  let saved ← findRow key
  let row ← keepConflict key (conflictRow old input now) saved
  indexAt row key
  .fail (.retained row.receipt.receiptId)

def World.committed (w : World) (key : ReceiptId) : Option Tx :=
  w.txs.find? fun tx => tx.key = key

/-- The native commit. A request whose idempotency key is known answers with the
handles of the transaction it made before. -/
def execute (key : ReceiptId) (command : Command) : M (String × String) :=
  atomic
    (fun i w => match i.execute with
      | .refused _ => w
      | .lost outcome observation _ => if (w.committed key).isSome then w
          else { w with txs := w.txs++[⟨key,command.input,outcome,observation⟩] }
      | .done outcome observation => if (w.committed key).isSome then w
          else { w with txs := w.txs++[⟨key,command.input,outcome,observation⟩] })
    (fun i w => match i.execute with
      | .refused e => .error e
      | .lost _ _ e => .error e
      | .done outcome observation => .ok (match w.committed key with
          | some tx => (tx.outcome,tx.observation)
          | none => (outcome,observation)))

def StoredReceipt.acknowledged (r : StoredReceipt) (outcome observation : String) :
    StoredReceipt :=
  { r with receipt := { r.receipt with
    nativeCommitted := true
    outcomeRef := some outcome
    observationRef := some observation
    status := if r.input.correctionOf.isSome then .correctionRecorded else .committed } }

def commitNative (stored : StoredReceipt) : M StoredReceipt := do
  let command ← lift (need stored.command (.invalid "observation preparation missing"))
  let handles ← execute stored.nativeKey command
  let attemptRef ← query fun i _ => i.view
  refuseIf (attemptRef ≠ stored.input.attemptRef)
    (.conflict "native observation receipt identity mismatch")
  pure (stored.acknowledged handles.1 handles.2)

def OutcomeInput.closes (input : OutcomeInput) : Bool :=
  match input.observation with
  | .measurement m => m.terminal && m.outcomeStatus != .unknown && input.correctionOf.isNone
  | .learning _ => false

/-- Closes the dispatch by the native compare-and-set on the row that was read. -/
def closeDispatch (reference : DispatchRef) (outcome : String) : M Unit := do
  let closed ← query fun _ w => .ok (w.closed reference)
  refuseIf (closed.any (fun other => other ≠ outcome))
    (.conflict "dispatch already has a different terminal observation")
  atomic
    (fun i w => match i.reconcile with
      | .refused _ => w
      | _ => { w with closed := Function.update w.closed reference (some outcome) })
    (fun i _ => match i.reconcile with
      | .refused e => .error e
      | .lost e => .error e
      | .done => .ok ())

def reconcile (stored : StoredReceipt) : M Unit :=
  if stored.input.closes then
    match stored.dispatchRef, stored.receipt.outcomeRef with
    | some reference, some outcome => closeDispatch reference outcome
    | _, _ => pure ()
  else pure ()

def admitReceipt (key : Row) (stored : StoredReceipt) : M ObservationReceipt := do
  saveRow key stored
  index stored
  if stored.command.isSome then do
    let stored ← commitNative stored
    saveRow key stored
    index stored
    reconcile stored
    pure stored.receipt
  else pure stored.receipt

def commitOnce (stored : StoredReceipt) : M StoredReceipt :=
  if stored.command.isSome && !stored.receipt.nativeCommitted then commitNative stored
  else pure stored

def reconcileCommitted (stored : StoredReceipt) : M Unit :=
  if stored.receipt.nativeCommitted then do
    let outcome ← lift (need stored.receipt.outcomeRef .notFound)
    query fun i _ => i.visible outcome
    reconcile stored
  else pure ()

/-- The same observation again: what its first submission left undone is done. -/
def replay (key : Row) (old : StoredReceipt) : M ObservationReceipt := do
  index old
  let stored ← commitOnce old
  saveRow key stored
  index stored
  reconcileCommitted stored
  saveRow key stored
  pure stored.receipt

def bounded (input : OutcomeInput) (bytes : ℕ) : Bool :=
  decide (bytes ≤ 16384) && input.eventKey != "" && decide (input.eventKey.utf8ByteSize ≤ 256) &&
  input.spaceInstance != "" && decide (input.spaceInstance.utf8ByteSize ≤ 256) &&
  input.correctionOf.all (fun k => k != "" && decide (k.utf8ByteSize ≤ 256) &&
    k != input.eventKey) &&
  input.safetySignal.all (fun v => v != "" && decide (v.utf8ByteSize ≤ 1024))

structure Vetted where
  input : OutcomeInput
  now : ℕ
  observed : ℕ
  started : ℕ
  decisionRef : String
  attempt : AttemptRow

def provenance (observer : String) (input : OutcomeInput) (attempt : AttemptRow) : M Unit := do
  let _ ← lift (need attempt.createdTx (.invalid "attempt creation transaction missing"))
  let found ← query fun i _ => i.transaction
  let tx ← lift (need found (.invalid "authenticated attempt provenance unavailable"))
  refuseIf (!tx.inDefaultSpace || !tx.committed || input.attemptRef ∉ tx.changedIds)
    (.invalid "invalid attempt provenance")
  let principal ← lift (need tx.principal (.invalid "authenticated attempt principal missing"))
  refuseIf (principal = observer) .forbidden

def vet (observer : String) (input : OutcomeInput) : M Vetted := do
  query fun i _ => i.authorized
  let bytes ← query fun i _ => .ok i.bytes
  refuseIf (bounded input bytes = false)
    (.invalid "invalid bounded observation identity/payload")
  let observedAt ← query fun i _ => i.normalized
  let input := { input with observedAt := observedAt }
  let observed ← query fun i _ => i.observedMs
  let now ← query fun i _ => .ok i.now
  refuseIf (now < observed) (.invalid "observation cannot be future dated")
  let attempt ← query fun i _ => i.attempt
  let decisionRef ← lift (need attempt.decisionRef
    (.invalid "observation requires a native AttemptRecord"))
  let decision ← query fun i _ => i.decision
  refuseIf (decision ≠ "act") (.invalid "observation must bind an acting decision")
  provenance observer input attempt
  let started ← lift (need attempt.startedMs (.invalid "attempt start time missing"))
  refuseIf (observed < started) (.invalid "observation predates its Attempt")
  pure ⟨input,now,observed,started,decisionRef,attempt⟩

def measurementOf (v : Vetted) : Except RuntimeError Measurement :=
  match v.input.observation with
  | .measurement m =>
    if v.attempt.trial then .error (.unavailable
      "registered learning controller required; no generic fallback is permitted")
    else .ok m
  | .learning _ => .error (.unavailable
      "registered learning controller required; no generic fallback is permitted")

def contractFor (site : Site) (observer family : String) (input : OutcomeInput) :
    Option ObserverContract :=
  site.observers.find? fun c => c.principalId = observer &&
    c.configurationDigest = input.observerConfigurationDigest && c.taskFamily = family &&
    c.metric = input.metric && c.window = input.window

def magnitudeOk (m : Measurement) : Bool :=
  m.magnitude.all (fun n => n.isFinite &&
    ((F64.finite 0).partialCmp n).any Ordering.isLE && (n.partialCmp (.finite 1)).any Ordering.isLE)

def readDispatch (reference : DispatchRef) : M (Option DispatchRow × Option String) :=
  query fun i w => i.dispatch.map fun row => (row,w.closed reference)

def correctedOutcome (site : Site) (observer : String) (input : OutcomeInput) :
    M (Option String) :=
  match input.correctionOf with
  | none => pure none
  | some event => do
    let found ← findRow (.receipt site.scope observer event)
    let prior ← lift (need found (.invalid "correction receipt unavailable"))
    lift (validateStored prior site.scope observer)
    refuseIf (prior.input.attemptRef ≠ input.attemptRef)
      (.invalid "correction belongs to another Attempt")
    match prior.receipt.outcomeRef with
    | none => pure none
    | some reference => do
      query fun i _ => i.visible reference
      pure (some reference)

def inboxCheck (site : Site) (v : Vetted) (m : Measurement) : M Unit := do
  refuseIf (v.input.metric ≠ "delivery" ∨ v.input.window ≠ "durable_inbox_v1")
    (.invalid "compiled inbox observations measure durable delivery only")
  let found ← query fun i _ => i.delivery
  let delivery ← lift (need found (.invalid "inbox delivery has not committed"))
  refuseIf (delivery.scope ≠ site.scope ∨ delivery.attemptRef ≠ v.input.attemptRef ∨
    m.payload.index "delivery_digest" ≠ .str delivery.requestDigest ∨
    v.observed < delivery.committedAtMs)
    (.invalid "inbox observation differs from the actual durable delivery")

def isLate (contract : ObserverContract) (v : Vetted) : Bool :=
  decide (v.started+contract.maximumDelayMs < v.now) ||
  decide (v.started+contract.maximumDelayMs < v.observed)

def freshReceipt (site : Site) (observer family : String) (v : Vetted)
    (contract : ObserverContract) (dispatchRef : DispatchRef) (closed correction : Option String) :
    StoredReceipt :=
  let stored := prepareReceipt site.scope observer v.input v.decisionRef (some dispatchRef)
    (.contract contract) v.now
  if isLate contract v then stored.audit .lateAudit "outside the registered observation window"
  else if v.input.closes && closed.isSome then
    stored.audit .conflictAudit "a terminal observation already closes this Attempt"
  else { stored with command := some ⟨v.input,stored.decisionRef,correction,family⟩ }

def submitFresh (site : Site) (observer family : String) (v : Vetted) (m : Measurement)
    (contract : ObserverContract) (dispatchRef : DispatchRef) (closed : Option String) :
    M ObservationReceipt := do
  let correction ← correctedOutcome site observer v.input
  doIf ((!isLate contract v && !(v.input.closes && closed.isSome) && site.inboxValidation &&
    m.outcomeStatus == .success) = true) (inboxCheck site v m)
  admitReceipt (.receipt site.scope observer v.input.eventKey)
    (freshReceipt site observer family v contract dispatchRef closed correction)

def submitKnown (site : Site) (observer : String) (v : Vetted) (contract : ObserverContract)
    (old : StoredReceipt) : M ObservationReceipt := do
  lift (validateStored old site.scope observer)
  if old.receipt.bodyDigest ≠ v.input then conflict old v.input
  else do
    refuseIf (old.contractDigest ≠ .contract contract)
      (.conflict "observer contract changed; receipt requires review")
    replay (.receipt site.scope observer v.input.eventKey) old

def admittedDispatch (v : Vetted) (reference : DispatchRef) : M (Option String) := do
  let (found,closed) ← readDispatch reference
  let row ← lift (need found
    (.invalid "observation requires a previously admitted native dispatch"))
  refuseIf (row.attemptRef ≠ v.input.attemptRef) (.invalid "observation cannot precede dispatch")
  let first ← lift (need row.firstDispatchMs (.invalid "dispatch start missing"))
  refuseIf (v.observed < first) (.invalid "observation cannot precede dispatch")
  pure closed

def submitMeasured (site : Site) (observer : String) (v : Vetted) : M ObservationReceipt := do
  let m ← lift (measurementOf v)
  refuseIf (v.input.spaceInstance ≠ site.scope.spaceInstance)
    (.invalid "observation Space instance mismatch")
  let family ← lift (need v.attempt.taskFamily (.invalid "Attempt task family missing"))
  let contract ← lift (need (contractFor site observer family v.input) .forbidden)
  refuseIf (magnitudeOk m = false ∨ (m.terminal = false ∧ m.outcomeStatus = .success))
    (.invalid "invalid magnitude or nonterminal success claim")
  let attemptId ← lift (need v.attempt.attemptId (.invalid "Attempt identity missing"))
  let closed ← admittedDispatch v ⟨site.scope,attemptId⟩
  match ← findRow (.receipt site.scope observer v.input.eventKey) with
  | some old => submitKnown site observer v contract old
  | none => submitFresh site observer family v m contract ⟨site.scope,attemptId⟩ closed

/-- The receipt of a fresh learning observation, with the reason it is an audit. -/
def learningReceipt (scope : RuntimeScope) (observer : String) (v : Vetted) (route : Route)
    (measured : Measured) : StoredReceipt :=
  let row := prepareReceipt scope observer v.input v.decisionRef none
    (.learning route.observerDigest) v.now
  if v.input.correctionOf.isSome || (route.hasOutcome && !route.recovery) then
    row.audit .conflictAudit
      "learning terminal evidence is immutable; correction retained for review"
  else if !route.recovery && (route.lateNow || decide (route.cutoffMs < v.observed)) then
    row.audit .lateAudit "outside the frozen learning cutoff; not added to the trial"
  else if !measured.finished then
    row.audit .progressAudit "nonterminal progress cannot close a learning attempt"
  else row

def StoredReceipt.learned (r : StoredReceipt) (outcome : String) (status : OutcomeStatus) :
    StoredReceipt :=
  { r with receipt := { r.receipt with
    outcomeRef := some outcome
    nativeCommitted := true
    learningEligible := true
    status := .learningCommitted
    outcomeStatus := some status } }

def keepReceipt (key : Row) (stored : StoredReceipt) : M ObservationReceipt := do
  saveRow key stored
  index stored
  pure stored.receipt

def settleLearning (key : Row) (stored : StoredReceipt) (measured : Measured) :
    M ObservationReceipt :=
  if stored.receipt.status.isAudit then pure stored.receipt
  else do
    match ← query fun i _ => .ok i.learning with
    | .late =>
      keepReceipt key
        (stored.audit .lateAudit "frozen learning cutoff reached before native acceptance")
    | .failed e => .fail e
    | .recorded none =>
      .fail (.unavailable
        "learning observation commit unresolved; retry identical request with fresh authentication")
    | .recorded (some reference) => do
      query fun i _ => i.visible reference
      keepReceipt key (stored.learned reference measured.status)

def isLearning : Observed → Bool
  | .measurement _ => false
  | .learning _ => true

def submitLearning (site : Site) (observer : String) (v : Vetted) (route : Route) :
    M ObservationReceipt := do
  refuseIf (v.input.spaceInstance ≠ route.spaceInstance ∨
    v.input.observerConfigurationDigest ≠ route.observerDigest ∨ v.input.metric ≠ "success" ∨
    v.input.window ≠ route.window)
    (.invalid "observation differs from the registered learning contract")
  refuseIf (route.dispatched = false) (.invalid "learning outcome cannot precede dispatch")
  refuseIf (isLearning v.input.observation = false)
    (.invalid "registered learning Attempt requires its typed measurements")
  let measured ← query fun i _ => i.measured
  let scope : RuntimeScope := ⟨site.scope.spaceId,route.spaceInstance⟩
  let key := Row.receipt scope observer v.input.eventKey
  match ← findRow key with
  | some old => do
    lift (validateStored old scope observer)
    if old.receipt.bodyDigest ≠ v.input then conflict old v.input
    else settleLearning key old measured
  | none => do
    let row := learningReceipt scope observer v route measured
    saveRow key row
    index row
    settleLearning key row measured

def submit (site : Site) (observer : String) (input : OutcomeInput) : M ObservationReceipt := do
  let v ← vet observer input
  match ← query fun i _ => i.route with
  | some route => submitLearning site observer v route
  | none => submitMeasured site observer v

def StoredReceipt.resolved (r : StoredReceipt) (evaluation : String) : StoredReceipt :=
  { r with receipt := { r.receipt with
    safetyPending := false
    safetyEvaluationRef := some evaluation } }

def resolveStored (key : Row) (attemptRef : String) (stored : StoredReceipt) : M ℕ :=
  if stored.receipt.safetyPending then do
    query fun i _ => i.visible attemptRef
    let _ ← lift (need stored.input.safetySignal (.invalid "safety audit lacks signal"))
    let evaluation ← query fun i _ => i.safetyEvaluation
    saveRow key (stored.resolved evaluation)
    indexAt (stored.resolved evaluation) key
    pure 1
  else pure 0

def resolvePointer (scope : RuntimeScope) (principal : String) (pointer : Pointer) : M ℕ :=
  if pointer.receipt.scope = scope ∧ pointer.receipt.observer = principal ∧
      pointer.receipt.safetyPending = true then do
    let found ← findRow pointer.storageKey
    let stored ← lift (need found (.unavailable "safety receipt unavailable"))
    lift (validateStored stored scope principal)
    resolveStored pointer.storageKey pointer.attemptRef stored
  else pure 0

def resolveAt (scope : RuntimeScope) (principal : String) (n : ℕ) : M ℕ := do
  match ← findPointer scope n with
  | none => pure 0
  | some pointer => resolvePointer scope principal pointer

def consumeFrom (scope : RuntimeScope) (principal : String) : List ℕ → M ℕ
  | [] => pure 0
  | n::rest => do
    let resolved ← resolveAt scope principal n
    confirmedSave (.safetyCursor scope principal) (n : ℕ)
    let more ← consumeFrom scope principal rest
    pure (resolved+more)

def consumeLearningSafety (site : Site) (principal : String) (limit : ℕ) : M ℕ := do
  query fun i _ => i.authorized
  refuseIf (¬(1 ≤ limit ∧ limit ≤ 8)) (.invalid "safety consumer bound must be 1..=8")
  let spaceInstance ← query fun i _ => i.observationInstance
  let scope : RuntimeScope := ⟨site.scope.spaceId,spaceInstance⟩
  let cursor ← findCursor scope principal
  let after := cursor.getD 0
  let published ← readPublished scope
  consumeFrom scope principal (List.range' (after+1) (min published (after+limit)-after))

inductive Op where
  | submit (observer : String) (input : OutcomeInput)
  | consumeLearningSafety (principal : String) (limit : ℕ)

def operate (site : Site) : Op → M Unit
  | .submit observer input => do
    let _ ← submit site observer input
    pure ()
  | .consumeLearningSafety principal limit => do
    let _ ← consumeLearningSafety site principal limit
    pure ()

def World.empty : World := ⟨⟨fun _ => none,0⟩,[],fun _ => none⟩

/-- Every state the runtime reaches from an empty journal, over any schedule of
operations, answers of its environment and stops. -/
def reached (site : Site) (events : List (Event Op Env)) : World :=
  (run (operate site) id ⟨World.empty,none,[]⟩ events).state

end AndaBrain.Observation
