import AndaBrain.ActionGate

/-!
# Driving wakes and dispatching acts

`action/gate.rs`, `action/dispatch.rs` and the entry points of `action/service.rs`.
-/

set_option autoImplicit false

namespace AndaBrain.Action
open Foundation.Resumption Foundation.ConditionalStore

def readReply (scope : RuntimeScope) (gate : WakeRef) : M (Option Reply) := do
  match ← read (Key.reply scope gate) with
  | none => pure none
  | some row => pure (some row.value)

def answered (scope : RuntimeScope) (gate : WakeRef) (recipient : String) (deadline : ℕ) :
    M Bool := do
  match ← readReply scope gate with
  | none => pure false
  | some reply =>
    refuseIf (reply.scope ≠ scope ∨ reply.gateWakeRef ≠ gate ∨ reply.principal ≠ recipient ∨
      deadline ≤ reply.receivedMs) "clarification reply correlation mismatch"
    pure true

/-- Delivering a question reads under the parent's context, without its premises. -/
def clarificationContext (context : ContextRequest) (parentRef : String) : ContextRequest :=
  { context with
    recallReceipt := none
    requiredRefs := context.requiredRefs++[parentRef]
    premises := []
    appliedRevisions := []
    taskFamily := "brain.deliver_clarification"
    deduplicationKey := none }

def clarificationProposal (capture : Capture) (parentRef : String) (payload : Option Json)
    (isAnswered expired : Bool) : Except String Proposal :=
  if isAnswered then .ok (.silence "clarification_already_answered" [parentRef])
  else if expired then .ok (.defer "clarification_expired_before_delivery")
  else match capture.insufficient with
    | some reason => .ok (.defer reason)
    | none => (need payload "question payload unavailable").map
        (.act "Deliver the parent question only; this grants no business permission" [parentRef])

def PreparedGate.manualOnly (prepared : PreparedGate) : PreparedGate :=
  if prepared.decision = .defer then
    { prepared with
      continuations := prepared.continuations.map fun child => { child with key := .manual } }
  else prepared

def settleClarification (host : Host) (wake : WakeRecord) (job : Job) (capture : Capture)
    (prepared : PreparedGate) : J (Job × PreparedGate) :=
  match prepared.request with
  | none => pure (job,prepared)
  | some request => do
    match ← withJob job (attempt (authorize host request)) with
    | .ok _ => pure (job,prepared)
    | .error e => do
      let job := { job with rounds := host.limits.maxRetries }
      let prepared ← withJob job (prepare host wake job capture
        (.defer (unavailableReason "clarification_authorization_unavailable" e)))
      pure (job,prepared.insteadOf request)

def prepareClarification (host : Host) (wake : WakeRecord) (job : Job) (parent : Job) :
    J (Job × PreparedGate) := do
  let asked ← withJob job (lift (need parent.prepared "clarification preparation missing"))
  withJob job (refuseIf (asked.decision ≠ .ask) "clarification must follow an ask decision")
  let parentRef ← withJob job (lift (need parent.status.decisionRef "ask decision unavailable"))
  let capture ← withJob job (readCapture (clarificationContext asked.capture.request parentRef))
  let recipient ← withJob job (lift (need asked.recipient "clarification recipient missing"))
  let deadline ← withJob job (lift (need asked.replyDeadlineMs "clarification deadline missing"))
  let isAnswered ← withJob job
    (answered (host.wakes wake.wakeRef).scope parent.wakeRef recipient deadline)
  let now ← withJob job clock
  let proposal ← withJob job (lift (clarificationProposal capture parentRef
    asked.clarificationPayload isAnswered (decide (deadline ≤ now))))
  let prepared ← withJob job (prepare host wake job capture proposal)
  let settled ← settleClarification host wake job capture prepared
  pure (settled.1,settled.2.manualOnly)

def storePrepared (job : Job) (prepared : PreparedGate) : J Job := do
  let job := { job with prepared := some prepared }
  withJob job (save job)
  pure job

def refreshPrepared (wake : WakeRecord) (job : Job) (prepared : PreparedGate) : J Job :=
  if prepared.expected ≠ wake.version ∨ prepared.fence ≠ wake.fence then do
    withJob job (query fun i _ => i.revalidate)
    storePrepared job { prepared with expected := wake.version, fence := wake.fence }
  else pure job

def ensurePrepared (host : Host) (wake : WakeRecord) (job : Job) (timedOut : Bool) : J Job :=
  match job.prepared with
  | some prepared => refreshPrepared wake job prepared
  | none => do
    let prepared ← withJob job (prepareGate host wake job timedOut)
    storePrepared job prepared

inductive ReplyState where
  | none
  | given (response : ClarificationResponse)
  | waiting
  | timedOut

def replyState (host : Host) (wake : WakeRecord) (parent : Job) : M ReplyState := do
  let asked ← lift (need parent.prepared "answer preparation missing")
  match ← readReply (host.wakes wake.wakeRef).scope parent.wakeRef with
  | some reply =>
    refuseIf (reply.scope ≠ (host.wakes wake.wakeRef).scope ∨
      reply.gateWakeRef ≠ parent.wakeRef ∨ some reply.principal ≠ asked.recipient ∨
      asked.replyDeadlineMs.all (fun t => decide (t ≤ reply.receivedMs)) = true)
      "reply correlation mismatch"
    pure (.given reply.response)
  | none => do
    let now ← clock
    if asked.replyDeadlineMs.any (fun t => decide (now < t)) then pure .waiting
    else pure .timedOut

def answerState (host : Host) (wake : WakeRecord) (parent : Option Job) : M ReplyState :=
  if (host.wakes wake.wakeRef).continuationKey = some .answer then do
    let parent ← lift (need parent "answer parent missing")
    replyState host wake parent
  else pure .none

def clarified (host : Host) (wake : WakeRecord) (job : Job) (parent : Option Job) : J Job :=
  if (host.wakes wake.wakeRef).continuationKey = some .clarification ∧ job.prepared.isNone then do
    let parent ← withJob job (lift (need parent "clarification parent missing"))
    let settled ← prepareClarification host wake job parent
    storePrepared settled.1 settled.2
  else pure job

def gateWake (host : Host) (principal : String) (wake : WakeRecord) (job : Job)
    (parent : Option Job) (timedOut : Bool) : J Job := do
  let wake ← withJob job (acquire host principal wake)
  if (host.wakes wake.wakeRef).continuationKey = some .manual ∧ job.status.operatorRetries = 0 then
    block (job.withReason (some "retry_limit_requires_operator"))
  else do
    let job ← clarified host wake job parent
    let job ← ensurePrepared host wake job timedOut
    commit wake.wakeRef job

def waitForReply (host : Host) (job : Job) (now : ℕ) : Job :=
  (job.withState .awaitingReply).withNextRun (some (now+min host.limits.retryMs 5000))

def gate (host : Host) (principal : String) (wake : WakeRecord) (job : Job)
    (parent : Option Job) : J Job :=
  if job.status.state = .blocked then pure job
  else do
    match ← withJob job (answerState host wake parent) with
    | .waiting => do
      let now ← withJob job clock
      pure (waitForReply host job now)
    | .timedOut =>
      gateWake host principal wake { job with rounds := host.limits.maxRetries } parent true
    | _ => gateWake host principal wake job parent false

def World.recorded (w : World) (reference : DispatchRef) (state : ControlState) : World :=
  { w with control := Function.update w.control reference (some state) }

/-- The native store moves a record on its own when an outcome arrives, but never
makes it ready again. -/
def World.progressed (w : World) (reference : DispatchRef) (next : Option Held) : World :=
  match w.control reference, next with
  | some _, some state => w.recorded reference (.held state)
  | _, _ => w

def readControl (reference : DispatchRef) : M (Option ControlState) := do
  native
  atomic (fun i w => w.progressed reference i.progress)
    (fun i w => .ok ((w.progressed reference i.progress).control reference))

def retainedControl (job : Job) : M (Option ControlState) :=
  match job.status.dispatchRef with
  | some reference => readControl reference
  | none => pure none

/-- Reads the record by the retained reference, then by the derived one: the
directory's acknowledgement may have been lost. -/
def priorControl (job : Job) (reference : DispatchRef) : M (Option ControlState × Job) := do
  match ← retainedControl job with
  | some state => pure (some state,job)
  | none => do
    match ← readControl reference with
    | some state => pure (some state,job.withDispatchRef reference)
    | none => pure (none,job)

/-- Reconciles a lookup: only one that reports `notStarted` makes the record ready. -/
def reconcile (reference : DispatchRef) (found : LookupStatus) : M Unit :=
  atomic
    (fun i w => match i.reconcile with
      | .refused _ => w
      | _ => if found = .notStarted then
          { w.recorded reference .ready with returned := w.returned++[reference.attemptId] }
        else w.recorded reference (.held i.settled))
    (fun i _ => match i.reconcile with
      | .refused e => .error e
      | .lost e => .error e
      | .done _ => .ok ())

def countAttempt (job : Job) : Job :=
  { job with status := { job.status with attempts := job.status.attempts+1 } }

def afterLookup (host : Host) (job : Job) (found : LookupStatus) (now : ℕ) : Job :=
  let job := job.withNextRun (some (now+host.limits.retryMs))
  match found with
  | .notStarted => { job.withState .ready with delivery := none }
  | .finished => { job.withState .awaitingOutcome with delivery := some .finished }
  | .running => { job.withState .awaitingOutcome with delivery := some .accepted }
  | .unknown => job.withState .outcomeUnknown

def lookUp (host : Host) (job : Job) : J Job := do
  let reference ← withJob job (lift (need job.status.dispatchRef "dispatch reference missing"))
  let job := countAttempt job
  withJob job (save job)
  let found ← withJob job (query fun i _ => i.lookup)
  withJob job (reconcile reference found)
  let now ← withJob job clock
  pure (afterLookup host job found now)

/-- The native admission of an external call. The record is there before the
answer that permits the call. -/
def beginDispatch (reference : DispatchRef) : M Permit :=
  atomic
    (fun i w => match i.begin with
      | .refused _ => w
      | .lost _ => w.recorded reference (.held i.settled)
      | .done permit => if permit.2 = .dispatch then w.recorded reference (.held i.settled)
          else w.progressed reference i.progress)
    (fun i _ => match i.begin with
      | .refused e => .error e
      | .lost e => .error e
      | .done permit => .ok ⟨reference,permit.1,permit.2⟩)

def callExecutor (attemptId : AttemptId) : M DeliveryStatus :=
  atomic
    (fun _ w => { w with dispatched := w.dispatched++[attemptId] })
    (fun i _ => .ok (match i.delivery with
      | .ok status => status
      | .error _ => .unknown))

def WakeState.isRunning : WakeState → Bool
  | .running _ _ => true
  | _ => false

def afterCall (job : Job) (delivery : DeliveryStatus) : Job :=
  { job.withState (if delivery = .unknown then .outcomeUnknown else .awaitingOutcome) with
    delivery := some delivery }

def perform (wake : WakeRecord) (job : Job) (attemptId : AttemptId) (permit : Permit) : J Job :=
  match permit.action with
  | .dispatch => do
    withJob job (refuseIf (wake.state.isRunning = false) "dispatch lacks live lease")
    let delivery ← withJob job (callExecutor attemptId)
    pure (afterCall job delivery)
  | .lookup => pure (job.withState .outcomeUnknown)
  | .outcomeUnknown => pure (job.withState .outcomeUnknown)
  | .done => pure (job.withState .awaitingCompletion)
  | .other => withJob job (.fail "unsupported native dispatch result")

/-- From the lease to the external call. Nothing is saved between the native
admission and the call. -/
def admitCall (host : Host) (principal : String) (wake : WakeRecord) (job : Job)
    (request : ActionRequest) : J Job := do
  let wake ← withJob job (acquire host principal wake)
  withJob job (authorize host request)
  withJob job (query fun i _ => i.revalidate)
  let job := countAttempt job
  withJob job (save job)
  let _ ← withJob job openSession
  let _ ← withJob job (lift (executor host request.kind))
  let permit ← withJob job (beginDispatch
    (dispatchReference (host.wakes wake.wakeRef).scope request.attemptId))
  let job := job.withDispatchRef permit.dispatchRef
  withJob job (refuseIf (permit.idempotencyKey ≠ request.attemptId)
    "native attempt identity changed")
  let job ← perform wake job request.attemptId permit
  let now ← withJob job clock
  pure (job.withNextRun (some (now+host.limits.retryMs)))

def holdBack (host : Host) (principal : String) (wake : WakeRecord) (job : Job) : J Job := do
  let _ ← withJob job (acquire host principal wake)
  block job

def dispatchOpen (host : Host) (principal : String) (wake : WakeRecord) (request : ActionRequest)
    (job : Job) : J Job :=
  if host.limits.maxRetries < job.status.attempts then
    let job := job.withReason (some "dispatch_retry_budget_exhausted")
    if wake.state ≠ .blocked then holdBack host principal wake job else pure job
  else admitCall host principal wake job request

def canReplay (host : Host) (executor : Executor) (job : Job) (state : ControlState) : Bool :=
  executor.supportsIdempotency && job.delivery.all (· == .unknown) &&
    decide (job.status.attempts ≤ host.limits.maxRetries) && state != .held .outcomeUnknown

/-- A record that is not ready: the target is looked up, or called again when it
tells repeated calls apart, or the wake waits for an outcome. -/
def dispatchHeld (host : Host) (principal : String) (wake : WakeRecord) (job : Job)
    (request : ActionRequest) (state : ControlState) : J Job :=
  if host.lookup = true ∧ job.status.attempts ≤ host.limits.maxRetries ∧
      job.delivery ≠ some .finished then lookUp host job
  else do
    let executor ← withJob job (lift (executor host request.kind))
    if canReplay host executor job state then dispatchOpen host principal wake request job
    else do
      let job := job.withReason
        (some "dispatch_requires_independent_outcome_or_authoritative_lookup")
      if wake.state ≠ .blocked then holdBack host principal wake job
      else pure ((job.withState .blocked).withNextRun none)

def dispatchState (host : Host) (principal : String) (wake : WakeRecord) (job : Job)
    (request : ActionRequest) (prior : Option ControlState) : J Job :=
  match prior with
  | some (.held state) => dispatchHeld host principal wake job request (.held state)
  | _ => dispatchOpen host principal wake request job

def answeredRequest (host : Host) (wake : WakeRecord) (request : ActionRequest) : M Bool :=
  if request.kind = .deliverClarification then do
    let correlation ← lift (need (request.payload.index "correlation").asStr
      "clarification correlation missing")
    let recipient ← lift (need (request.payload.index "recipient").asStr
      "clarification recipient missing")
    let deadline ← lift (need (request.payload.index "reply_deadline_ms").asU64
      "clarification deadline missing")
    answered (host.wakes wake.wakeRef).scope correlation recipient deadline
  else pure false

def ready (prior : Option ControlState) : Bool := prior == some .ready

def dispatchPrior (host : Host) (principal : String) (wake : WakeRecord) (job : Job)
    (request : ActionRequest) (prior : Option ControlState) : J Job := do
  let isAnswered ← withJob job (answeredRequest host wake request)
  if isAnswered = true ∧ (prior = none ∨ ready prior = true) then do
    withJob job native
    pure (((job.withState .cancelled).withReason
      (some "clarification_answered_before_delivery")).withNextRun none)
  else if prior = some (.held .completed) then do
    let _ ← withJob job (acquire host principal wake)
    withJob job native
    pure ((job.withState .completed).withNextRun none)
  else if host.limits.maxRetries < job.failures ∧ job.status.state = .blocked ∧
      ready prior = false then pure job
  else dispatchState host principal wake job request prior

def Job.follows (job : Job) (parent : Job) (attemptRef : String) : Job :=
  { job with
    status := { job.status with
      decisionRef := parent.status.decisionRef
      attemptRef := some attemptRef } }

/-- Dispatches the committed act of `parent`. -/
def dispatch (host : Host) (principal : String) (wake : WakeRecord) (job parent : Job) :
    J Job := do
  let prepared ← withJob job (lift (need parent.prepared "dispatch preparation missing"))
  let request ← withJob job (lift (need prepared.request "dispatch has no fixed request"))
  let attemptRef ← withJob job
    (lift (need parent.status.attemptRef "dispatch has no committed attempt"))
  let fixed ← withJob job (query fun i _ => i.committedRequest)
  withJob job (refuseIf (fixed = false)
    "dispatch journal differs from the native committed request")
  let job := job.follows parent attemptRef
  let found ← withJob job (priorControl job
    (dispatchReference (host.wakes wake.wakeRef).scope request.attemptId))
  dispatchPrior host principal wake found.2 request found.1

def raisedRounds (host : Host) (wake : WakeRecord) (job : Job) (parent : Option Job) : Job :=
  match parent with
  | none => job
  | some parent =>
    if job.status.operatorRetries = 0 then
      { job with rounds := parent.rounds+
          (if (host.wakes wake.wakeRef).continuationKey = some .retry then 1 else 0) }
    else job

def parentOf (host : Host) (wake : WakeRecord) : M (Option Job) :=
  match (host.wakes wake.wakeRef).parentRef with
  | none => pure none
  | some parent => do
    let job ← confirmParent host parent (host.wakes wake.wakeRef).scope
    pure (some job)

def driveWake (host : Host) (principal : String) (wake : WakeRecord) (job : Job)
    (parent : Option Job) : J Job :=
  if (host.wakes wake.wakeRef).continuationKey = some .dispatch then do
    let parent ← withJob job (lift (need parent "dispatch parent missing"))
    dispatch host principal wake job parent
  else gate host principal wake job parent

/-- One pass over a wake, from its journal entry `job`. -/
def drive (host : Host) (reference : WakeRef) (job : Job) : J Job := do
  let principal ← withJob job openSession
  let wake ← withJob job (readWake reference)
  if wake.state = .cancelled then pure (job.withState .cancelled)
  else if wake.state = .completed then
    if job.prepared.isSome then commit wake.wakeRef job else pure job
  else do
    let parent ← withJob job (parentOf host wake)
    driveWake host principal wake (raisedRounds host wake job parent) parent

def enabled (host : Host) : M Bool :=
  if host.automatic = false then pure false
  else do
    native
    match ← read (Key.setting host.scope) with
    | none => pure true
    | some row =>
      refuseIf (row.value.scope ≠ host.scope) "action switch scope mismatch"
      pure row.value.enabled

def setEnabled (host : Host) (enabled : Bool) : M Unit := do
  refuseIf (enabled = true ∧ host.automatic = false) "isolated host cannot enable actions"
  native
  let old ← read (Key.setting host.scope)
  putOver (Key.setting host.scope) ⟨host.scope,enabled⟩ old

def failedJob (host : Host) (job : Job) (e : String) (now : ℕ) : Job :=
  let failures := min (job.failures+1) (2^32-1)
  let isBlocked := decide (host.limits.maxRetries < failures)
  { job with
    failures := failures
    status := { job.status with
      reason := some (String.ofList (e.toList.take 1024))
      state := if isBlocked then .blocked else .retrying
      nextRunMs := if isBlocked then none
        else some (now+min (host.limits.retryMs*2^min failures 6) (2^64-1)) } }

def blockLeased (reference : WakeRef) (job : Job) : M Job := do
  let principal ← openSession
  let current ← readWake reference
  let now ← clock
  if current.leased principal now then do
    match ← mapFail Fault.error (attempt (block job)) with
    | .ok job => pure job
    | .error fault => pure fault.job
  else pure job

def blockFailed (reference : WakeRef) (job : Job) : M Job :=
  if job.status.state = .blocked then do
    match ← attempt (blockLeased reference job) with
    | .ok job => pure job
    | .error _ => pure job
  else pure job

def driven (host : Host) (reference : WakeRef) (job : Job) : M Job := do
  match ← mapFail Fault.error (attempt (drive host reference job)) with
  | .ok job => pure job
  | .error fault => do
    let now ← clock
    blockFailed reference (failedJob host fault.job fault.error now)

def runJob (host : Host) (reference : WakeRef) (job : Job) : M ActionStatus := do
  let job ← driven host reference job
  save job
  pure job.status

def due (job : Job) (now : ℕ) : Bool := job.status.nextRunMs.all fun t => decide (t ≤ now)

def processOwned (host : Host) (reference : WakeRef) : M ActionStatus := do
  refuseIf (host.automatic = false) "isolated host cannot run actions"
  let isEnabled ← enabled host
  if isEnabled = false then
    pure ⟨reference,none,none,none,none,.disabled,some "actions_disabled_by_host",none,0,0⟩
  else do
    refuseIf ((host.wakes reference).pins ≠ host.pins)
      "action binding/policy pins changed; re-arm or operator migration required"
    let found ← load (host.wakes reference).scope reference
    let job := found.getD (Job.new host reference)
    refuseIf (job.pins ≠ (host.wakes reference).pins) "action journal configuration mismatch"
    let now ← clock
    if due job now then runJob host reference job else pure job.status

def retriedJob (job : Job) : Job :=
  { job with
    failures := 0
    rounds := 0
    status := { job.status with
      operatorRetries := job.status.operatorRetries+1
      attempts := 0
      state := .pending
      nextRunMs := none } }

def retry (host : Host) (reference : WakeRef) : M Unit := do
  refuseIf (host.automatic = false) "isolated host cannot retry external work"
  native
  let _ ← openSession
  let wake ← readWake reference
  refuseIf ((host.wakes reference).pins ≠ host.pins ∨ wake.state = .completed ∨
    wake.state = .cancelled) "work cannot be retried under this configuration/state"
  let found ← load host.scope reference
  let job ← lift (need found "no retained action work")
  refuseIf (2^32 ≤ job.status.operatorRetries+1) "operator retry counter exhausted"
  save (retriedJob job)

def responseFits (response : ClarificationResponse) : Bool :=
  !response.eventKey.isEmpty && decide (response.eventKey.utf8ByteSize ≤ 256) &&
    !blank response.answer && decide (response.answer.utf8ByteSize ≤ 16384)

def storeReply (host : Host) (reference : WakeRef) (auth : AuthContext)
    (response : ClarificationResponse) (deadline : Option ℕ) : M Unit := do
  match ← read (Key.reply host.scope reference) with
  | some old =>
    refuseIf (old.value.scope ≠ host.scope ∨ old.value.gateWakeRef ≠ reference ∨
      old.value.principal ≠ auth.principalId ∨ old.value.response ≠ response)
      "clarification response idempotency conflict"
  | none => do
    let now ← clock
    refuseIf (deadline.all (fun t => decide (t ≤ now)) = true)
      "clarification deadline passed; answer is not consent"
    let received ← clock
    directoryPut (Key.reply host.scope reference)
      ⟨host.scope,reference,auth.principalId,received,response⟩ .create

def respond (host : Host) (reference : WakeRef) (auth : AuthContext)
    (response : ClarificationResponse) : M Unit := do
  native
  let _ ← openSession
  let job ← confirmParent host reference host.scope
  let asked ← lift (need job.prepared "clarification unavailable")
  refuseIf (asked.decision ≠ .ask ∨ asked.recipient ≠ some auth.principalId ∨
    authenticated auth = false ∨ responseFits response = false)
    "invalid authenticated clarification response"
  let decisionRef ← lift (need job.status.decisionRef "ask decision missing")
  let _ ← query fun i _ => i.element decisionRef
  storeReply host reference auth response asked.replyDeadlineMs

inductive Op where
  | process (reference : WakeRef)
  | retry (reference : WakeRef)
  | respond (reference : WakeRef) (auth : AuthContext) (response : ClarificationResponse)
  | setEnabled (enabled : Bool)

def operate (host : Host) : Op → M (Option ActionStatus)
  | .process reference => do
    let status ← processOwned host reference
    pure (some status)
  | .retry reference => do
    retry host reference
    pure none
  | .respond reference auth response => do
    respond host reference auth response
    pure none
  | .setEnabled enabled => do
    setEnabled host enabled
    pure none

def World.empty : World where
  directory := ⟨fun _ => none,0⟩
  control := fun _ => none
  dispatched := []
  returned := []
  committed := []

/-- Every state the runtime reaches from an empty journal, over any schedule of
operations, answers of its environment and stops. -/
def reached (host : Host) (events : List (Event Op Env)) : World :=
  (run (operate host) id ⟨World.empty,none,[]⟩ events).state

end AndaBrain.Action
