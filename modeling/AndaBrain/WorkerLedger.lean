import AndaBrain.WorkerProduct
import AndaBrain.Foundation.SortedMap
import AndaBrain.Json

/-!
# Receipts of the Worker

`memory-ledger.ts`: a key is bound to one receipt, a pass settles its receipt once, and a receipt
whose pass never reported back is failed when it is next read.
-/

set_option autoImplicit false

namespace AndaBrain.WorkerMemory
open Foundation Foundation.SortBy Product

def abandonedMs : ℕ := 10*60000

def maxItems : ℕ := 128

inductive Operation where
  | observe
  | revise
  | feedback
  | forget
  deriving DecidableEq

def Operation.wire : Operation → String
  | .observe => "observe"
  | .revise => "revise"
  | .feedback => "feedback"
  | .forget => "forget"

inductive ChangeKind where
  | correction
  | worldChange
  | misrecorded
  | unspecified
  deriving DecidableEq

inductive Phase where
  | recorded
  | available
  | failed
  deriving DecidableEq

inductive Disposition where
  | formed
  | evidenceOnly
  | skipped
  | erased
  deriving DecidableEq

structure Scope where
  taskRef : Option String
  contextRefs : List String
  deriving DecidableEq

structure ResolvedScope where
  requested : Scope
  task : Option String
  contexts : List String
  deriving DecidableEq

structure MemoryRequest where
  operation : Operation
  idempotencyKey : String
  scope : Scope
  sourceRef : String
  changeKind : Option ChangeKind
  targetRef : Option String
  deriving DecidableEq

structure Progress where
  receiptRef : String
  phase : Phase
  disposition : Option Disposition
  resolvedSeq : Option ℕ
  availableSeq : Option ℕ
  reason : Option String
  error : Option Failure
  deriving DecidableEq

inductive ForgetStatus where
  | completed
  | incomplete
  | blocked
  deriving DecidableEq

/-- What a receipt stores as its result: the references of an intake, or the plan of a forget. -/
inductive StoredResult where
  | memory (summary : String) (memoryRefs : List ElementId)
  | erasure (status : ForgetStatus) (planRef summary : String)
  deriving DecidableEq

structure MemoryIntent where
  operation : Operation
  changeKind : Option ChangeKind
  targetRef : Option ElementId
  originalEvidence : Option ElementId
  originalObservedAt : Option String
  deriving DecidableEq

structure IntakeRecord where
  receiptRef : String
  operation : Operation
  acceptedSeq : ℕ
  ns : String
  intentDigest : String
  scope : ResolvedScope
  sourceRef : Option String
  sourceDigest : Option String
  intent : Option MemoryIntent
  terminal : Option Progress
  result : Option StoredResult
  warnings : List String
  createdAt : ℕ
  evidence : List ElementId
  created : List ElementId
  deriving DecidableEq

structure Message where
  role : String
  timestamp : Option ℕ
  body : Json

structure SourceOrder where
  streamRef : String
  eventRef : String
  ordinal : ℕ
  predecessorReceipts : List String

structure StagedSource where
  sourceRef : String
  sourceDigest : String
  capturedAt : String
  ns : String
  messages : List Message
  observedAt : String
  order : Option SourceOrder
  erased : Bool

structure World where
  managed : Managed
  sources : SortedMap String StagedSource
  receipts : SortedMap String IntakeRecord
  sourceReceipts : SortedMap String (List String)
  delivered : List ElementId → List String

structure EvidenceInput where
  clientKey : String
  evidenceClass : String
  payload : Json
  about : Option (Option String × Option String)
  observedAt : String
  task : Option String
  contexts : List String

structure Repair where
  source : ElementId
  invalidated : ElementId
  replacements : List ElementId
  version : ℕ

structure ErasedTarget where
  ref : ElementId
  surface : String
  state : String
  deriving DecidableEq

structure ErasurePlan where
  scope : String
  basisSeq : ℕ
  sourceEventRefs : List ElementId
  targets : List ErasedTarget
  externalExports : List String
  status : ForgetStatus
  receipts : List String

structure Session extends Engine where
  purgePayload : Nexus → ElementId → Nexus × Except Failure Unit
  createEvidence : Nexus → EvidenceInput → Nexus × Except Failure (Option ElementId × Option ℕ)
  repairRecording : Nexus → Repair → Nexus × Except Failure ElementId
  findScope : Nexus → String → Except Failure (Option String)
  createScope : Nexus → String → Nexus × Except Failure String
  assertionsOn : Nexus → ElementId → Except Failure (List ElementId)
  validateErasurePlan : Nexus → ErasurePlan → Except Failure Unit

structure Site extends Digests where
  hexId : List String → String
  meaning : MemoryRequest → Option String → String
  forgetMeaning : String → Bool → String
  parseId : String → Option ElementId
  evidenceMessage : ElementId → Row → Message
  evidenceClassOf : String → String
  isoOf : ℕ → String

def memoryError (code message : String) : Failure := ⟨some code,message⟩

def notFound (what : String) : Failure := memoryError "NotFoundOrNotVisible" (what++" not found")

def isHandle (head : String) (text : String) : Bool :=
  text.toList.take head.toList.length == head.toList &&
    (text.toList.drop head.toList.length).length == 40 &&
    (text.toList.drop head.toList.length).all isLowerHex

def startsWith (text head : String) : Bool :=
  text.toList.take head.toList.length == head.toList

/-- `[...new Set(xs)]`. -/
def distinct {α : Type} [DecidableEq α] (xs : List α) : List α :=
  xs.foldl (fun kept x => if x ∈ kept then kept else kept++[x]) []

namespace World

def nexus (w : World) : Nexus := w.managed.nexus

def product (w : World) : ProductStore := w.managed.product

def withNexus (w : World) (nexus : Nexus) : World :=
  { w with managed := { w.managed with nexus } }

def putReceipt (w : World) (ref : String) (record : IntakeRecord) : World :=
  { w with receipts := w.receipts.insert ref record }

def stagedSource (w : World) (ns sourceRef : String) : Except Failure StagedSource :=
  if !isHandle "src-" sourceRef then .error (notFound "source")
  else
    match w.sources.lookup sourceRef with
    | none => .error (notFound "source")
    | some staged => if staged.ns ≠ ns then .error (notFound "source") else .ok staged

end World

structure ResolvedSource where
  ref : String
  digest : String
  messages : List Message
  observedAt : String
  order : Option SourceOrder

/-- The bytes an intake reads: a staged source, or an Evidence with an inline payload. -/
def resolveSource (site : Site) (w : World) (ns sourceRef : String) :
    Except Failure ResolvedSource :=
  if startsWith sourceRef "src-" then
    match w.stagedSource ns sourceRef with
    | .error e => .error e
    | .ok staged =>
      if staged.erased then .error (notFound "source")
      else .ok ⟨staged.sourceRef,staged.sourceDigest,staged.messages,staged.observedAt,staged.order⟩
  else
    match site.parseId sourceRef with
    | none => .error (notFound "source")
    | some id =>
      match w.nexus.load id with
      | none => .error (notFound "source")
      | some row =>
        if id.kind ≠ .evidence ∨ row.space ≠ w.nexus.space ∨ row.state ≠ .active then
          .error (notFound "source")
        else
          match row.payloadDigest with
          | none => .error (notFound "source")
          | some digest =>
            .ok
              { ref := sourceRef
                digest := if row.contentDigest.isEmpty then digest else row.contentDigest
                messages := [site.evidenceMessage id row]
                observedAt := row.observedAt.getD ""
                order := none }

/-- The Concept a scope handle stands for. An intake binds a handle that names none yet. -/
def scopeConcept (site : Site) (session : Session) (nexus : Nexus) (handle : String) :
    Nexus × Except Failure String :=
  if handle.isEmpty || decide (handle.length > 256) || handle.toList.any isControl then
    (nexus,.error (memoryError "InvalidRequestEnvelope"
      "a scope handle is 1..=256 printable characters"))
  else
    match site.parseId handle with
    | some id =>
      match nexus.load id with
      | none => (nexus,.error (memoryError "NotFoundOrNotVisible"
          "the scope handle does not name an active Concept of this Space"))
      | some row =>
        if id.kind = .concept ∧ row.space = nexus.space ∧ row.state = .active then
          (nexus,.ok handle)
        else (nexus,.error (memoryError "NotFoundOrNotVisible"
          "the scope handle does not name an active Concept of this Space"))
    | none =>
      match session.findScope nexus ("memory_scope:"++handle) with
      | .error e => (nexus,.error e)
      | .ok (some id) => (nexus,.ok id)
      | .ok none => session.createScope nexus handle

def scopeConcepts (site : Site) (session : Session) :
    Nexus → List String → Nexus × Except Failure (List String)
  | nexus, [] => (nexus,.ok [])
  | nexus, handle::rest =>
    match scopeConcept site session nexus handle with
    | (next,.error e) => (next,.error e)
    | (next,.ok id) =>
      match scopeConcepts site session next rest with
      | (last,.error e) => (last,.error e)
      | (last,.ok ids) => (last,.ok (id::ids))

def sortTexts (xs : List String) : List String := sortBy (fun a b => decide (a ≤ b)) (distinct xs)

def resolveScopeShape (scope : Scope) : Scope := { scope with contextRefs := sortTexts scope.contextRefs }

def resolveScope (site : Site) (session : Session) (nexus : Nexus) (scope : Scope) :
    Nexus × Except Failure ResolvedScope :=
  let requested := resolveScopeShape scope
  match scopeConcepts site session nexus (requested.taskRef.toList++requested.contextRefs) with
  | (next,.error e) => (next,.error e)
  | (next,.ok ids) =>
    (next,.ok ⟨requested,if requested.taskRef.isSome then ids.head? else none,sortTexts ids⟩)

def settle (w : World) (receiptRef : String) (progress : Progress) (result : Option StoredResult)
    (warnings : List String) : World × Except Failure IntakeRecord :=
  match w.receipts.lookup receiptRef with
  | none => (w,.error (notFound "receipt"))
  | some record =>
    if record.terminal.isSome then (w,.ok record)
    else
      let settled :=
        { record with
          terminal := some progress
          result := result.orElse fun _ => record.result
          warnings := warnings.foldl (fun kept x => if x ∈ kept then kept else kept++[x])
            record.warnings }
      (w.putReceipt receiptRef settled,.ok settled)

def recordOf (w : World) (ns receiptRef : String) : Except Failure IntakeRecord :=
  if !isHandle "rcpt-" receiptRef then .error (notFound "receipt")
  else
    match w.receipts.lookup receiptRef with
    | none => .error (notFound "receipt")
    | some record => if record.ns ≠ ns then .error (notFound "receipt") else .ok record

def failedProgress (receiptRef reason : String) (error : Failure) : Progress :=
  ⟨receiptRef,.failed,none,none,none,some reason,some error⟩

def outcomeUnknown : Failure :=
  memoryError "OutcomeUnknown"
    "processing was interrupted; its outcome is unknown and it is not re-run"

def abandonedProgress (receiptRef : String) : Progress :=
  failedProgress receiptRef "the processing request ended without reporting its outcome"
    outcomeUnknown

def IntakeRecord.progress (record : IntakeRecord) : Progress :=
  record.terminal.getD ⟨record.receiptRef,.recorded,none,none,none,none,none⟩

def IntakeRecord.abandoned (record : IntakeRecord) (now : ℕ) : Bool :=
  record.terminal.isNone && decide (record.createdAt+abandonedMs < now)

/-- Current progress; a pass that did not report back in time is failed here. -/
def progress (w : World) (now : ℕ) (ns receiptRef : String) :
    World × Except Failure IntakeRecord :=
  match recordOf w ns receiptRef with
  | .error e => (w,.error e)
  | .ok record =>
    if record.abandoned now then settle w receiptRef (abandonedProgress receiptRef) none []
    else (w,.ok record)

structure Report where
  phase : Phase
  error : Option Failure
  result : Option StoredResult
  warnings : List String
  deriving DecidableEq

def IntakeRecord.report (record : IntakeRecord) : Report :=
  ⟨record.progress.phase,record.progress.error,record.result,record.warnings⟩

def receiptRefOf (site : Site) (ns space : String) (operation : Operation) (key : String) : String :=
  "rcpt-"++site.hexId [ns,space,operation.wire,key]

inductive Admission where
  | replay (record : IntakeRecord)
  | accepted (record : IntakeRecord) (messages : List Message) (observedAt : String)
      (identity : SourceIdentity)

def intentOf (site : Site) (w : World) (request : MemoryRequest) :
    Except Failure (Option MemoryIntent) :=
  match request.operation with
  | .observe => .ok (some ⟨.observe,none,none,none,none⟩)
  | .revise =>
    let kind := request.changeKind.getD .unspecified
    match request.targetRef with
    | none => .ok (some ⟨.revise,some kind,none,none,none⟩)
    | some target =>
      match site.parseId target with
      | none => .error (notFound "revise target")
      | some id =>
        match w.nexus.load id with
        | none => .error (notFound "revise target")
        | some row =>
          if row.space ≠ w.nexus.space ∨ row.state ≠ .active then
            .error (notFound "revise target")
          else if kind ≠ .misrecorded then .ok (some ⟨.revise,some kind,some id,none,none⟩)
          else if id.kind ≠ .assertion then
            .error (memoryError "ConstraintViolation" "a misrecording repairs an Assertion")
          else
            match row.evidenceRefs.head? with
            | none => .error (memoryError "PreconditionFailed"
                "the extraction cites no source to recover the claim from")
            | some original =>
              .ok (some ⟨.revise,some kind,some id,some original,
                (w.nexus.load original).bind Row.observedAt⟩)
  | _ => .ok none

def readPredecessors (now : ℕ) (ns : String) : World → List String → World × Except Failure Unit
  | w, [] => (w,.ok ())
  | w, predecessor::rest =>
    match progress w now ns predecessor with
    | (next,.error e) => (next,.error e)
    | (next,.ok record) =>
      if record.progress.phase = .failed then
        (next,.error (memoryError "PreconditionFailed"
          ("predecessor receipt "++predecessor++" failed, so this revision is not formed")))
      else readPredecessors now ns next rest

def listReceipt (w : World) (sourceRef receiptRef : String) : World :=
  if startsWith sourceRef "src-" then
    match w.sourceReceipts.lookup sourceRef with
    | none => w
    | some listed =>
      if receiptRef ∈ listed then w
      else { w with sourceReceipts := w.sourceReceipts.insert sourceRef (listed++[receiptRef]) }
  else w

/-- Binds a key to new work once its source, its scope and its predecessors are there. -/
def accept (site : Site) (session : Session) (w : World) (now : ℕ) (ns receiptRef : String)
    (request : MemoryRequest) (source : Option ResolvedSource) :
    World × Except Failure Admission :=
  match resolveScope site session w.nexus request.scope with
  | (nexus,.error e) => (w.withNexus nexus,.error e)
  | (nexus,.ok scope) =>
    match readPredecessors now ns (w.withNexus nexus)
        ((source.bind ResolvedSource.order).elim [] SourceOrder.predecessorReceipts) with
    | (w,.error e) => (w,.error e)
    | (w,.ok ()) =>
      match intentOf site w request with
      | .error e => (w,.error e)
      | .ok intent =>
        let record : IntakeRecord :=
          { receiptRef
            operation := request.operation
            acceptedSeq := w.nexus.seq
            ns
            intentDigest := site.meaning request (source.map ResolvedSource.digest)
            scope
            sourceRef := source.map ResolvedSource.ref
            sourceDigest := source.map ResolvedSource.digest
            intent
            terminal := none
            result := none
            warnings := []
            createdAt := now
            evidence := []
            created := [] }
        let stored := w.putReceipt receiptRef record
        let listed := (source.map ResolvedSource.ref).elim stored (listReceipt stored · receiptRef)
        (listed,.ok (.accepted record (source.elim [] ResolvedSource.messages)
          (source.elim (site.isoOf now) ResolvedSource.observedAt)
          ⟨"memory-source:"++(source.elim receiptRef ResolvedSource.ref),
            (source.map fun s => "memory-source-digest:"++s.digest).toList⟩))

def admitRequest (site : Site) (session : Session) (w : World) (now : ℕ) (ns space : String)
    (request : MemoryRequest) : World × Except Failure Admission :=
  let receiptRef := receiptRefOf site ns space request.operation request.idempotencyKey
  let source : Except Failure (Option ResolvedSource) :=
    if request.operation = .forget then .ok none
    else (resolveSource site w ns request.sourceRef).map some
  match w.receipts.lookup receiptRef with
  | some existing =>
    if existing.ns ≠ ns then (w,.error (notFound "receipt"))
    else if existing.intentDigest ≠ site.meaning request existing.sourceDigest ∨
        (source.toOption.join.any fun s => decide (some s.digest ≠ existing.sourceDigest)) then
      (w,.error (memoryError "IdempotencyConflict"
        "this idempotency key was used for a different request"))
    else
      match progress w now ns receiptRef with
      | (next,.error e) => (next,.error e)
      | (next,.ok record) => (next,.ok (.replay record))
  | none =>
    match source with
    | .error e => (w,.error e)
    | .ok source => accept site session w now ns receiptRef request source

structure PassTrace where
  formed : List ElementId
  evidence : List ElementId
  assertions : List ElementId
  created : List ElementId
  maxSeq : Option ℕ

def repairWarning : String :=
  "change_kind was unspecified: the revision was recorded as new claims; no earlier claim was "++
    "superseded or retracted"

def skippedWarning : String :=
  "formation found nothing to remember in this source; it was skipped, not learned"

def repairMissing : String := "a misrecording repair names its target extraction"

/-- Whether an Assertion of the pass replaces what the original Evidence was misread as. -/
def replaces (nexus : Nexus) (original id : ElementId) : Bool :=
  id.kind = .assertion &&
    (nexus.load id).any fun row => decide (row.state = .active ∧ original ∈ row.evidenceRefs)

def repairOf (nexus : Nexus) (trace : PassTrace) (target original : ElementId) :
    Except Failure Repair :=
  if target.kind ≠ .assertion ∨ original.kind ≠ .evidence then .error (notFound "repair target")
  else
    match nexus.load target, nexus.load original with
    | some row, some _ =>
      .ok ⟨original,target,trace.assertions.filter (replaces nexus original),row.version⟩
    | _, _ => .error (notFound "repair target")

def failureCode (error : Failure) : Failure :=
  memoryError (error.code.getD "InternalError") error.message

def formedSummary (disposition : Disposition) (count : ℕ) : String :=
  match disposition with
  | .formed => "Formed "++toString count++" memory element(s) from the source."
  | .evidenceOnly => "Preserved the source as Evidence; no claim was formed from it."
  | _ => "Processed the source; nothing was formed from it."

def settleFormed (w : World) (receiptRef : String) (disposition : Disposition) (resolved : ℕ)
    (refs : List ElementId) (warnings : List String) : World × Except Failure IntakeRecord :=
  let warnings := warnings++(if disposition = .skipped then [skippedWarning] else [])
  settle w receiptRef ⟨receiptRef,.available,some disposition,some resolved,some resolved,none,none⟩
    (some (.memory (formedSummary disposition refs.length) refs)) warnings

def settleRepair (session : Session) (w : World) (receiptRef : String) (trace : PassTrace)
    (intent : MemoryIntent) (resolved : ℕ) : World × Except Failure IntakeRecord :=
  match intent.targetRef, intent.originalEvidence with
  | some target, some original =>
    match repairOf w.nexus trace target original with
    | .error e =>
      settle w receiptRef (failedProgress receiptRef "recording repair was refused" (failureCode e))
        none []
    | .ok repair =>
      match session.repairRecording w.nexus repair with
      | (nexus,.error e) =>
        settle (w.withNexus nexus) receiptRef
          (failedProgress receiptRef "recording repair was refused" (failureCode e)) none []
      | (nexus,.ok repairRef) =>
        settleFormed (w.withNexus nexus) receiptRef .formed (max resolved nexus.seq)
          (repairRef::trace.formed.take maxItems) []
  | _, _ =>
    settle w receiptRef
      (failedProgress receiptRef repairMissing (memoryError "PreconditionFailed" repairMissing))
      none []

def finishFormation (session : Session) (w : World) (receiptRef : String) (trace : PassTrace) :
    World × Except Failure IntakeRecord :=
  match w.receipts.lookup receiptRef with
  | none => (w,.error (notFound "receipt"))
  | some record =>
    let traced :=
      { record with
        created := distinct (record.created++trace.created)
        evidence := if trace.evidence.isEmpty then record.evidence
          else distinct (record.evidence++trace.evidence) }
    let w := w.putReceipt receiptRef traced
    let disposition := if !trace.formed.isEmpty then Disposition.formed
      else if !trace.evidence.isEmpty then .evidenceOnly else .skipped
    let resolved := max (trace.maxSeq.getD record.acceptedSeq) record.acceptedSeq
    match record.intent with
    | some intent =>
      if intent.changeKind = some .misrecorded then settleRepair session w receiptRef trace intent resolved
      else
        settleFormed w receiptRef disposition resolved (trace.formed.take maxItems)
          (if intent.operation = .revise ∧ intent.changeKind.getD .unspecified = .unspecified then
            [repairWarning] else [])
    | none => settleFormed w receiptRef disposition resolved (trace.formed.take maxItems) []

def failFormation (w : World) (receiptRef : String) (error : Failure) :
    World × Except Failure IntakeRecord :=
  settle w receiptRef (failedProgress receiptRef error.message error) none []

def referenceFound (site : Site) (nexus : Nexus) (reference : String) : Bool :=
  match site.parseId reference with
  | none => false
  | some id =>
    (nexus.load id).any fun row => decide (row.space = nexus.space ∧ row.state ≠ .purged)

def originalClass (site : Site) (nexus : Nexus) (record : IntakeRecord) : Option String :=
  ((record.sourceRef.bind site.parseId).bind fun id =>
    if id.kind = .evidence then nexus.load id else none).map Row.className

def evidenceInput (site : Site) (record : IntakeRecord) (original : Option String)
    (purpose : String) (about : Option (Option String × Option String)) (observedAt : String)
    (index : ℕ) (message : Message) : EvidenceInput where
  clientKey := "memory-"++purpose++":"++record.receiptRef++":"++toString (index+1)
  evidenceClass := original.getD (site.evidenceClassOf message.role)
  payload := message.body
  about
  observedAt := message.timestamp.elim observedAt site.isoOf
  task := record.scope.task
  contexts := record.scope.contexts

def createEvidence (session : Session) (input : ℕ → Message → EvidenceInput) (floor : ℕ) :
    Nexus → ℕ → List Message → Nexus × Except Failure (List ElementId × ℕ)
  | nexus, _, [] => (nexus,.ok ([],floor))
  | nexus, index, message::rest =>
    match session.createEvidence nexus (input index message) with
    | (next,.error e) => (next,.error e)
    | (next,.ok (id,seq)) =>
      match createEvidence session input floor next (index+1) rest with
      | (last,.error e) => (last,.error e)
      | (last,.ok (ids,top)) => (last,.ok (id.toList++ids,max (seq.getD 0) top))

inductive Purpose where
  | feedback (decisionRef attemptRef : Option String)
  | reviseReport
  deriving DecidableEq

def Purpose.wire : Purpose → String
  | .feedback _ _ => "feedback"
  | .reviseReport => "revise-report"

def Purpose.about : Purpose → Option (Option String × Option String)
  | .feedback decision attempt => some (decision,attempt)
  | .reviseReport => none

def Purpose.references : Purpose → List String
  | .feedback decision attempt => decision.toList++attempt.toList
  | .reviseReport => []

def reportWarning : String :=
  "partial: a misrecording names the extraction to repair in target_ref; the report was "++
    "preserved as Evidence and nothing was repaired"

def capturedSummary : Purpose → ℕ → String
  | .feedback _ _, n =>
    "Preserved the feedback as "++toString n++" attributed Evidence; it is not a grade."
  | .reviseReport, n => "Preserved the source as "++toString n++" Evidence."

def Purpose.warnings : Purpose → List String
  | .feedback _ _ => []
  | .reviseReport => [reportWarning]

/-- Keeps the source as attributed Evidence. Feedback on an element that is not there is
refused, and its receipt is dropped. -/
def captureEvidence (site : Site) (session : Session) (w : World) (receiptRef : String)
    (messages : List Message) (observedAt : String) (purpose : Purpose) :
    World × Except Failure IntakeRecord :=
  match w.receipts.lookup receiptRef with
  | none => (w,.error (notFound "receipt"))
  | some record =>
    if !purpose.references.all (referenceFound site w.nexus) then
      ({ w with receipts := w.receipts.erase receiptRef },.error (notFound "feedback reference"))
    else
      match createEvidence session
          (evidenceInput site record (originalClass site w.nexus record) purpose.wire purpose.about
            observedAt)
          record.acceptedSeq w.nexus 0 messages with
      | (nexus,.error e) => (w.withNexus nexus,.error e)
      | (nexus,.ok (ids,top)) =>
        settle (w.withNexus nexus) receiptRef
          ⟨receiptRef,.available,some .evidenceOnly,some top,some top,none,none⟩
          (some (.memory (capturedSummary purpose ids.length) ids)) purpose.warnings

end AndaBrain.WorkerMemory
