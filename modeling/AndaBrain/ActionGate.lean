import AndaBrain.Action
import AndaBrain.Foundation.Utf8Text

/-!
# The gate of a wake

`action/native.rs`, `action/gate.rs` and the deduplication of `action/service.rs`: a suggestion
becomes one of four decisions, which is prepared and saved before it is committed.
-/

set_option autoImplicit false

namespace AndaBrain.Action
open Foundation.Resumption Foundation.ConditionalStore

def blank (text : String) : Bool := text.toList.all Foundation.Utf8Text.isWhitespace

def WakeIdentity.actionKind (identity : WakeIdentity) : ActionKind :=
  if identity.continuationKey = some .clarification then .deliverClarification else .business

def Host.attemptOf (host : Host) (reference : WakeRef) : AttemptId :=
  ⟨(host.wakes reference).scope,reference,(host.wakes reference).actionKind⟩

def Proposal.usedRefs : Proposal → List String
  | .act _ used _ => used
  | .ask _ used _ => used
  | .defer _ => []
  | .silence _ used => used

def Proposal.rationale : Proposal → String
  | .act rationale _ _ => rationale
  | .ask rationale _ _ => rationale
  | .defer reason => reason
  | .silence rationale _ => rationale

def requestOf (host : Host) (reference : WakeRef) (capture : Capture) (payload : Json) :
    ActionRequest where
  scope := (host.wakes reference).scope
  pins := (host.wakes reference).pins
  gateWakeRef := reference
  kind := (host.wakes reference).actionKind
  attemptId := host.attemptOf reference
  payload := payload
  context := capture.request

def quietGate (wake : WakeRecord) (capture : Capture) (decision : Decision)
    (proposal : Proposal) (continuations : List WakeContinuation) : PreparedGate where
  command := ⟨decision,proposal.rationale,proposal.usedRefs,[],none⟩
  continuations := continuations
  expected := wake.version
  fence := wake.fence
  decision := decision
  capture := capture
  request := none
  recipient := none
  replyDeadlineMs := none
  clarificationPayload := none
  considered := none

def actGate (wake : WakeRecord) (capture : Capture) (proposal : Proposal)
    (request : ActionRequest) (selection : String) (now : ℕ) : PreparedGate :=
  { quietGate wake capture .act proposal [⟨.dispatch,now⟩] with
    command := ⟨.act,proposal.rationale,proposal.usedRefs,capture.request.appliedRevisions,
      some (request.attemptId,selection)⟩
    request := some request
    considered := some request }

def askGate (wake : WakeRecord) (capture : Capture) (proposal : Proposal)
    (channel : ClarificationBinding) (question : String) (now : ℕ) : PreparedGate :=
  { quietGate wake capture .ask proposal [⟨.answer,now⟩,⟨.clarification,now⟩] with
    recipient := some channel.recipientPrincipal
    replyDeadlineMs := some (now+channel.replyTimeoutMs)
    clarificationPayload := some (.obj [("question",.str question),
      ("recipient",.str channel.recipientPrincipal),("correlation",.str wake.wakeRef),
      ("reply_deadline_ms",.int (now+channel.replyTimeoutMs))]) }

def draft (host : Host) (wake : WakeRecord) (job : Job) (capture : Capture)
    (proposal : Proposal) : M PreparedGate := do
  let now ← clock
  match proposal with
  | .act _ _ payload =>
    let request := requestOf host wake.wakeRef capture payload
    let selection ← query fun i _ => i.artifact
    pure (actGate wake capture proposal request selection now)
  | .ask _ _ question =>
    let channel ← lift (need host.clarification "clarification binding missing")
    pure (askGate wake capture proposal channel question now)
  | .defer _ =>
    let key := if host.limits.maxRetries ≤ job.rounds then ContinuationKey.manual else .retry
    pure (quietGate wake capture .defer proposal [⟨key,now+host.limits.retryMs⟩])
  | .silence _ _ => pure (quietGate wake capture .silence proposal [])

def prepare (host : Host) (wake : WakeRecord) (job : Job) (capture : Capture)
    (proposal : Proposal) : M PreparedGate := do
  let receipt ← query fun i _ => i.receipt capture proposal
  let prepared ← draft host wake job { capture with receipt := receipt } proposal
  query fun i _ => if i.commandFits then .ok ()
    else .error "gate commit exceeds native byte budget"
  pure prepared

/-- The native transaction of the decision. A replay of the same gate answers
with the first receipt. -/
def finishWake (reference : WakeRef) (prepared : PreparedGate) : M (List String) :=
  atomic
    (fun i w => match i.finish with
      | .refused _ => w
      | _ => { w with committed := w.committed++[(reference,prepared)] })
    (fun i _ => match i.finish with
      | .refused e => .error e
      | .lost e => .error e
      | .done outputs => .ok outputs)

def readOutput (job : Job) (prepared : PreparedGate) (id : String) (row : OutputRow) : Job :=
  let status := if row.decision = some prepared.decision then
      { job.status with decisionRef := some id } else job.status
  let status := if prepared.request.isSome = true ∧
      row.attemptId = prepared.request.map ActionRequest.attemptId then
      { status with attemptRef := some id } else status
  { job with status := status }

def readOutputs (prepared : PreparedGate) : List String → Job → J Job
  | [], job => do
    withJob job (refuseIf (job.status.decisionRef.isNone ||
      (prepared.request.isSome && job.status.attemptRef.isNone))
      "gate receipt outputs are incomplete")
    pure job
  | id::rest, job =>
    if id.startsWith "X-" then do
      let row ← withJob job (query fun i _ => i.element id)
      readOutputs prepared rest (readOutput job prepared id row)
    else readOutputs prepared rest job

def committedJob (job : Job) (prepared : PreparedGate) : Job :=
  let job := match prepared.request with
    | some request => job.withDispatchRef (dispatchReference request.scope request.attemptId)
    | none => job
  { job with
    status := { job.status with
      state := .committed
      decision := some prepared.decision
      nextRunMs := none
      reason := none } }

def commit (reference : WakeRef) (job : Job) : J Job := do
  let prepared ← withJob job (lift (need job.prepared "gate has no prepared commit"))
  let outputs ← withJob job (finishWake reference prepared)
  let job ← readOutputs prepared outputs { job with outputs := outputs }
  pure (committedJob job prepared)

/-- The committed gate a continuation follows. Its commit is replayed, which
recovers outputs whose acknowledgement was lost. -/
def confirmParent (host : Host) (parent : WakeRef) (scope : RuntimeScope) : M Job := do
  let found ← load scope parent
  let job ← lift (need found "continuation has no prepared parent")
  let wake ← readWake parent
  refuseIf (job.pins ≠ (host.wakes parent).pins) "parent journal configuration mismatch"
  refuseIf (wake.state ≠ .completed) "parent gate has not committed"
  let needsRepair := job.status.state != .committed || job.outputs.isEmpty
  let job ← mapFail Fault.error (commit parent job)
  doIf (needsRepair = true) (save job)
  pure job

inductive DedupReason where
  | identityConflict
  | ownerGenerationChanged (owner : WakeRef)
  | duplicateCommitted (owner : WakeRef)
  | ownerUnresolved (owner : WakeRef)

def DedupReason.text : DedupReason → String
  | .identityConflict => "deduplication_identity_conflict"
  | .ownerGenerationChanged owner => "deduplication_owner_generation_changed:"++owner
  | .duplicateCommitted owner => "duplicate_committed_operation:"++owner
  | .ownerUnresolved owner => "deduplication_owner_unresolved:"++owner

def otherOwner (host : Host) (owner : WakeRef) (scope : RuntimeScope) : M DedupReason := do
  let parent ← attempt (confirmParent host owner scope)
  let original ← readWake owner
  let source ← query fun i _ => i.source original.wakeRef
  if !source.fired || source.armGeneration != (host.wakes owner).armGeneration then
    pure (.ownerGenerationChanged owner)
  else pure (match parent with
    | .ok parent => if parent.prepared.any (fun p => p.decision == .act) then
        .duplicateCommitted owner else .ownerUnresolved owner
    | .error _ => .ownerUnresolved owner)

def deduplicate (host : Host) (request : ActionRequest) : M (Option DedupReason) :=
  match request.context.deduplicationKey with
  | none => pure none
  | some id => do
    match ← read (Key.dedup request.scope id) with
    | some old =>
      if old.value.scope ≠ request.scope ∨ old.value.pins ≠ request.pins ∨
          old.value.requestDigest ≠ request.digest then pure (some .identityConflict)
      else if old.value.owner = request.gateWakeRef then pure none
      else do
        let reason ← otherOwner host old.value.owner request.scope
        pure (some reason)
    | none => do
      directoryPut (Key.dedup request.scope id)
        ⟨request.scope,request.pins,request.gateWakeRef,request.digest⟩ .create
      pure none

def DedupReason.proposal (reason : DedupReason) : Proposal :=
  match reason with
  | .duplicateCommitted _ => .silence reason.text []
  | _ => .defer reason.text

def unavailableReason (label e : String) : String :=
  String.ofList ((label++": "++e).toList.take 512)

def PreparedGate.insteadOf (prepared : PreparedGate) (request : ActionRequest) : PreparedGate :=
  { prepared with considered := some request }

/-- Authorization and deduplication of an act decide what is prepared. -/
def settle (host : Host) (wake : WakeRecord) (job : Job) (capture : Capture)
    (prepared : PreparedGate) : M PreparedGate :=
  match prepared.request with
  | none => pure prepared
  | some request => do
    match ← attempt (authorize host request) with
    | .error e => do
      let prepared ← prepare host wake job capture
        (.defer (unavailableReason "authorization_unavailable" e))
      pure (prepared.insteadOf request)
    | .ok _ =>
      if request.kind = .business then do
        match ← deduplicate host request with
        | none => pure prepared
        | some reason => do
          let prepared ← prepare host wake job capture reason.proposal
          pure (prepared.insteadOf request)
      else pure prepared

def screened (host : Host) (capture : Capture) (silenceAllowed : Bool) (proposal : Proposal) :
    Proposal :=
  match proposal with
  | .act _ used _ =>
    if capture.request.appliedRevisions.any (fun r => !used.contains r) then
      .defer "applied_revision_not_used"
    else match capture.insufficient with
      | some reason => .defer reason
      | none => if host.business.isNone then .defer "business_binding_unavailable" else proposal
  | .ask _ _ question =>
    if host.clarification.isNone || blank question then
      .defer "clarification_binding_or_question_unavailable"
    else proposal
  | .silence _ _ =>
    if !silenceAllowed then .defer "silence_not_authorized_by_policy" else proposal
  | .defer _ => proposal

def bounded (capture : Capture) (fits : Bool) (proposal : Proposal) : Proposal :=
  let proposal := if !fits then .defer "proposal_budget_exhausted" else proposal
  let proposal := if blank proposal.rationale then .defer "proposal_rationale_missing"
    else proposal
  if decide (64 < proposal.usedRefs.length) ||
      proposal.usedRefs.any (fun r => !capture.items.contains r) then
    .defer "used_reference_not_delivered"
  else proposal

def suggest (capture : Capture) (timedOut : Bool) : M Proposal := do
  let fits ← query fun i _ => i.inputFits
  if !fits then pure (.defer "gate_input_budget_exhausted")
  else if timedOut then pure (.defer "clarification_timeout_no_consent")
  else match capture.insufficient.filter (· != "premise_unknown_or_not_accepted") with
    | some reason => pure (.defer reason)
    | none => query fun i _ => i.suggestion

def allowed (proposal : Proposal) : M Bool :=
  match proposal with
  | .silence _ _ => query fun i _ => i.allowSilence
  | _ => pure true

def readCapture (request : ContextRequest) : M Capture := do
  let capture ← query fun i _ => i.capture request
  pure { capture with request := request }

/-- Reads the context, asks for a suggestion and prepares the decision. -/
def prepareGate (host : Host) (wake : WakeRecord) (job : Job) (timedOut : Bool) :
    M PreparedGate := do
  let request ← query fun i _ => i.context
  let capture ← readCapture request
  let proposal ← suggest capture timedOut
  let fits ← query fun i _ => i.proposalFits proposal
  let proposal := bounded capture fits proposal
  let silenceAllowed ← allowed proposal
  let prepared ← prepare host wake job capture (screened host capture silenceAllowed proposal)
  settle host wake job capture prepared

end AndaBrain.Action
