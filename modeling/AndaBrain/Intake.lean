import AndaBrain.KipError
import AndaBrain.Json
import AndaBrain.Foundation.ConditionalStore

/-!
# Intake, receipts and progress

`memory_interface/intake.rs` for one key of one caller: the receipt and the key that is bound to
it are two journal objects, and a mutation writes the receipt, the key and, once processing has
started, the receipt again.
-/

set_option autoImplicit false

namespace AndaBrain.Intake
open Foundation.Resumption Foundation.ConditionalStore

inductive Operation where
  | observe
  | revise
  | feedback
  | recall
  | forget
  deriving DecidableEq

inductive ChangeKind where
  | correction
  | worldChange
  | misrecorded
  | unspecified
  deriving DecidableEq

inductive Phase where
  | recorded
  | available
  | failed
  deriving DecidableEq

inductive Disposition where
  | formed
  | evidenceOnly
  | skipped
  deriving DecidableEq

structure Progress where
  receiptRef : String
  phase : Phase
  disposition : Option Disposition
  resolvedSeq : Option ℕ
  availableSeq : Option ℕ
  reason : Option String
  error : Option KipError
  deriving DecidableEq

structure Receipt where
  receiptRef : String
  operation : Operation
  spaceId : String
  acceptedSeq : ℕ
  deriving DecidableEq

structure Scope where
  task : Option String
  contexts : List String
  deriving DecidableEq

structure ResolvedScope where
  requested : Scope
  task : Option String
  contexts : List String
  deriving DecidableEq

structure MemoryIntent where
  receiptRef : String
  operation : Operation
  sourceRef : String
  scope : ResolvedScope
  changeKind : Option ChangeKind
  targetRef : Option String
  originalEvidence : Option String
  originalObservedAt : Option String
  predecessors : List String
  deriving DecidableEq

def MemoryIntent.isMisrecorded (intent : MemoryIntent) : Bool :=
  intent.changeKind == some .misrecorded

structure FormationResult where
  summary : String
  memoryRefs : List String
  deriving DecidableEq

structure Meaning where
  operation : Operation
  scope : Scope
  input : Json
  sourceRef : String
  sourceDigest : Option String
  deriving DecidableEq

/-- A content digest stands for the content it was computed from: digests of
different contents differ. -/
structure Digest where
  content : Meaning
  deriving DecidableEq

def digest (content : Meaning) : Digest := ⟨content⟩

structure IntakeRecord where
  receipt : Receipt
  nameSpace : String
  intentDigest : Digest
  scope : ResolvedScope
  sourceRef : Option String
  sourceDigest : Option String
  conversation : Option ℕ
  intent : Option MemoryIntent
  terminal : Option Progress
  result : Option FormationResult
  warnings : List String
  createdAt : ℕ
  deriving DecidableEq

structure KeyRecord where
  receiptRef : String
  intentDigest : Digest
  deriving DecidableEq

structure TraceData where
  maxSeq : Option ℕ
  formed : List String
  evidence : List String
  deriving DecidableEq

def TraceData.disposition (trace : TraceData) : Disposition :=
  if !trace.formed.isEmpty then .formed
  else if !trace.evidence.isEmpty then .evidenceOnly
  else .skipped

inductive ConversationStatus where
  | submitted
  | working
  | completed
  | failed
  | cancelled
  deriving DecidableEq

structure Conversation where
  status : ConversationStatus
  failedReason : Option String
  trace : TraceData

structure Site where
  nameSpace : String
  spaceId : String
  operation : Operation
  keyId : String

inductive Intent where
  | observe
  | revise (changeKind : Option ChangeKind) (targetRef : Option String)
  | feedback (decisionRef attemptRef : Option String)
  deriving DecidableEq

structure Request where
  scope : Scope
  input : Json
  sourceRef : String
  intent : Intent
  deriving DecidableEq

structure ResolvedSource where
  sourceRef : String
  digest : String
  messages : ℕ
  predecessorReceipts : List String
  deriving DecidableEq

inductive RevisionTarget where
  | assertion (evidenceIds : List String) (observedAt : Option String)
  | other

structure Env where
  scope : Except KipError ResolvedScope
  predecessor : String → Option KipError
  seq : Except KipError ℕ
  now : ℕ
  reference : String → Option KipError
  target : Except KipError RevisionTarget
  ingested : Option ℕ
  ingest : Except String (Option ℕ)
  originalClass : Option KipError
  capture : Except KipError (Option String × Option ℕ)
  repair : Except KipError (String × ℕ)

inductive Path where
  | receipt
  | key
  deriving DecidableEq

def Entry : Path → Type
  | .receipt => IntakeRecord
  | .key => KeyRecord

instance (p : Path) : DecidableEq (Entry p) :=
  match p with
  | .receipt => inferInstanceAs (DecidableEq IntakeRecord)
  | .key => inferInstanceAs (DecidableEq KeyRecord)

/-- `started` lists the Formation conversations started for the key, `copies`
the copies of the receipt that requests hold. -/
structure World where
  journal : Store Path Entry
  started : List ℕ
  copies : List IntakeRecord

instance : Holds World Path Entry where
  store := World.journal
  withStore w st := { w with journal := st }
  store_withStore _ _ := rfl

def conflictError : KipError := kipError "learning journal conditional-write conflict"

instance : Serves Env KipError where
  service _ := .up
  refused := kipError "precondition failed"
  conflict := conflictError

abbrev M := Prog KipError Env World

def journalUpdateAttempts : ℕ := 8
def maxTraceRefs : ℕ := 128

def Site.receiptRef (site : Site) : String := "rcpt-"++site.keyId

def vanished : KipError := ⟨.internalError,"receipt vanished"⟩

def receiptNotFound : KipError := ⟨.notFoundOrNotVisible,"receipt not found"⟩

def idempotencyConflict : KipError :=
  ⟨.idempotencyConflict,"this idempotency key was used for a different request"⟩

def journalUpdateFailed (last : Option KipError) : KipError :=
  ⟨.internalError,"a memory journal record could not be updated after "++
    toString journalUpdateAttempts++" attempts: "++
    (last.map KipError.message).getD "no attempt was made"⟩

def intakeRecord (site : Site) : M IntakeRecord := do
  match ← read Path.receipt with
  | none => Prog.fail receiptNotFound
  | some stored =>
    refuseIf (stored.value.nameSpace ≠ site.nameSpace ∨
      stored.value.receipt.spaceId ≠ site.spaceId) receiptNotFound
    pure stored.value

def addWarnings (held : List String) : List String → List String
  | [] => held
  | warning::rest =>
    if warning ∈ held then addWarnings held rest else addWarnings (held++[warning]) rest

def IntakeRecord.settle (record : IntakeRecord) (progress : Progress)
    (result : Option FormationResult) (warnings : List String) : IntakeRecord :=
  { record with
    terminal := some progress
    result := match result with
      | some result => some result
      | none => record.result
    warnings := addWarnings record.warnings warnings }

def settleRecord (progress : Progress) (result : Option FormationResult)
    (warnings : List String) : ℕ → Option KipError → M IntakeRecord
  | 0, last => Prog.fail (journalUpdateFailed last)
  | attempts + 1, _ => do
    match ← read Path.receipt with
    | none => Prog.fail receiptNotFound
    | some stored =>
      if stored.value.terminal.isSome then pure stored.value
      else
        let record := stored.value.settle progress result warnings
        match ← attempt (confirmedPut Path.receipt record (.update stored.version)) with
        | .ok _ => pure record
        | .error e => settleRecord progress result warnings attempts (some e)

def recorded (record : IntakeRecord) (reason : Option String) : Progress :=
  ⟨record.receipt.receiptRef,.recorded,none,none,none,reason,none⟩

def failedProgress (record : IntakeRecord) (reason : String) (error : KipError) : Progress :=
  ⟨record.receipt.receiptRef,.failed,none,none,none,some reason,some error⟩

def cancelError (reason : String) : KipError :=
  if containsText reason "outcome_unknown" then
    ⟨.outcomeUnknown,"processing was interrupted and its outcome is unknown: "++reason⟩
  else if startsWithText reason "predecessor_failed" then
    ⟨.preconditionFailed, "a predecessor receipt failed, so this revision was not formed: "++reason⟩
  else if reason = "source_suppressed" then
    ⟨.preconditionFailed,"the source was excluded from memory before it was processed"⟩
  else ⟨.internalError,reason⟩

def unspecifiedWarning : String :=
  "change_kind was unspecified: the revision was recorded as new claims; no earlier claim was superseded or retracted"

def skippedWarning : String :=
  "formation found nothing to remember in this source; it was skipped, not learned"

def formedSummary (disposition : Disposition) (refs : ℕ) : String :=
  match disposition with
  | .formed => "Formed "++toString refs++" memory element(s) from the source."
  | .evidenceOnly => "Preserved the source as Evidence; no claim was formed from it."
  | .skipped => "Processed the source; nothing was formed from it."

def unspecifiedRevision (intent : MemoryIntent) : Bool :=
  intent.operation == .revise &&
    (intent.changeKind.isNone || intent.changeKind == some .unspecified)

def settleFormed (record : IntakeRecord) (refs : List String) (disposition : Disposition)
    (resolved : ℕ) (warnings : List String) : M IntakeRecord :=
  let warnings := if disposition = .skipped then warnings++[skippedWarning] else warnings
  settleRecord
    ⟨record.receipt.receiptRef,.available,some disposition,some resolved,some resolved,none,none⟩
    (some ⟨formedSummary disposition refs.length,refs.take maxTraceRefs⟩) warnings
    journalUpdateAttempts none

/-- A completed conversation settles from the pass's trace; a misrecording runs
the host's recording repair first. -/
def finishFormation (record : IntakeRecord) (conversation : Conversation) : M IntakeRecord := do
  let accepted := record.receipt.acceptedSeq
  let trace := conversation.trace
  let resolved := max (trace.maxSeq.getD accepted) accepted
  match record.intent with
  | none => settleFormed record trace.formed trace.disposition resolved []
  | some intent =>
    if intent.isMisrecorded then
      match ← query fun i _ => .ok i.repair with
      | .ok (repairRef,seq) =>
        settleFormed record (repairRef::trace.formed) .formed (max resolved seq) []
      | .error e =>
        settleRecord (failedProgress record "recording repair was refused" e) none []
          journalUpdateAttempts none
    else
      settleFormed record trace.formed trace.disposition resolved
        (if unspecifiedRevision intent then [unspecifiedWarning] else [])

def unavailable : KipError :=
  ⟨.artifactUnavailable,"the processing record behind this receipt is no longer retained"⟩

def progressFrom (record : IntakeRecord) (conversation : Conversation) :
    M (Progress × IntakeRecord) :=
  match conversation.status with
  | .completed => do
    let settled ← finishFormation record conversation
    pure (settled.terminal.getD (recorded record (some "finishing formation")),settled)
  | .cancelled => do
    let reason := conversation.failedReason.getD "processing was cancelled"
    let settled ← settleRecord (failedProgress record reason (cancelError reason)) none []
      journalUpdateAttempts none
    pure (settled.terminal.getD (recorded record none),settled)
  | .failed =>
    pure (recorded record (some ("formation failed and will be retried: "++
      conversation.failedReason.getD "unknown failure")),record)
  | _ =>
    let waiting := record.intent.any fun intent => !intent.predecessors.isEmpty
    pure (recorded record
      (if waiting then some "waiting for predecessor receipts" else none),record)

/-- Current progress, read from the given copy of the receipt and from what the
conversation store answers, which is `none` for a conversation that is gone. -/
def settled (record : IntakeRecord) (answer : Option Conversation) :
    M (Progress × IntakeRecord) :=
  match record.terminal with
  | some progress => pure (progress,record)
  | none =>
    match record.conversation with
    | none => pure (recorded record (some "intake is being recorded"),record)
    | some _ => do
      match ← query fun _ _ => .ok answer with
      | none => Prog.fail unavailable
      | some conversation => progressFrom record conversation

def startFormation (record : IntakeRecord) (intent : MemoryIntent) : M IntakeRecord := do
  let output ← atomic
    (fun i w => { w with started := w.started++i.ingested.toList })
    (fun i _ => match i.ingest with
      | .ok conversation => .ok conversation
      | .error e => .error (kipError e))
  pure { record with conversation := output, intent := some intent }

structure Captured where
  evidence : List String
  maxSeq : ℕ

def captureMessages : ℕ → Captured → M Captured
  | 0, captured => pure captured
  | n + 1, captured => do
    let (id,seq) ← query fun i _ => i.capture
    captureMessages n
      ⟨captured.evidence++id.toList,max captured.maxSeq (seq.getD captured.maxSeq)⟩

def captureEvidence (record : IntakeRecord) (source : ResolvedSource) (purpose : String) :
    M IntakeRecord := do
  query fun i _ => match i.originalClass with
    | some e => .error e
    | none => .ok ()
  let captured ← captureMessages source.messages ⟨[],record.receipt.acceptedSeq⟩
  let count := toString captured.evidence.length
  let summary := if purpose = "feedback" then
      "Preserved the feedback as "++count++" attributed Evidence; it is not a grade."
    else "Preserved the source as "++count++" Evidence."
  pure { record with
    result := some ⟨summary,captured.evidence⟩
    terminal := some ⟨record.receipt.receiptRef,.available,some .evidenceOnly,
      some captured.maxSeq,some captured.maxSeq,none,none⟩ }

def checkReferences : List String → M Unit
  | [] => pure ()
  | reference::rest => do
    query fun i _ => match i.reference reference with
      | some e => .error e
      | none => .ok ()
    checkReferences rest

def reportWarning : String :=
  "partial: a misrecording names the extraction to repair in target_ref; the report was preserved as Evidence and nothing was repaired"

def uncitedExtraction : KipError :=
  ⟨.preconditionFailed,"the extraction cites no source to recover the claim from"⟩

def recoverSource (intent : MemoryIntent) (target : RevisionTarget) :
    Except KipError MemoryIntent :=
  if intent.isMisrecorded then
    match target with
    | .other => .error ⟨.constraintViolation,"a misrecording repairs an Assertion"⟩
    | .assertion [] _ => .error uncitedExtraction
    | .assertion (original::_) observedAt =>
      .ok { intent with originalEvidence := some original, originalObservedAt := observedAt }
  else .ok intent

/-- An unclear target stays explicit: the report is preserved and the gap is
reported. The warning is on the receipt before anything can fail. -/
def begun (record : IntakeRecord) : Intent → IntakeRecord
  | .revise (some .misrecorded) none =>
    { record with warnings := record.warnings++[reportWarning] }
  | _ => record

def startRevision (record : IntakeRecord) (source : ResolvedSource)
    (changeKind : Option ChangeKind) (targetRef : Option String) (predecessors : List String) :
    M IntakeRecord := do
  let intent : MemoryIntent := ⟨record.receipt.receiptRef,.revise,source.sourceRef,record.scope,
    changeKind,targetRef,none,none,predecessors⟩
  match targetRef with
  | some _ =>
    let target ← query fun i _ => i.target
    let intent ← lift (recoverSource intent target)
    startFormation record intent
  | none =>
    if intent.isMisrecorded then captureEvidence record source "revise-report"
    else startFormation record intent

def startIntent (record : IntakeRecord) (source : ResolvedSource) (predecessors : List String) :
    Intent → M IntakeRecord
  | .feedback decisionRef attemptRef => do
    checkReferences (decisionRef.toList++attemptRef.toList)
    captureEvidence record source "feedback"
  | .revise changeKind targetRef => startRevision record source changeKind targetRef predecessors
  | .observe => startFormation record ⟨record.receipt.receiptRef,.observe,source.sourceRef,
      record.scope,none,none,none,none,predecessors⟩

def checkPredecessors : List String → M Unit
  | [] => pure ()
  | predecessor::rest => do
    query fun i _ => match i.predecessor predecessor with
      | some e => .error e
      | none => .ok ()
    checkPredecessors rest

def meaning (site : Site) (request : Request) (sourceDigest : Option String) : Meaning :=
  ⟨site.operation,request.scope,request.input,request.sourceRef,sourceDigest⟩

def hold (record : IntakeRecord) : M IntakeRecord :=
  atomic (fun _ w => { w with copies := w.copies++[record] }) (fun _ _ => .ok record)

def replay (site : Site) (request : Request) (source : Except KipError ResolvedSource) :
    M IntakeRecord := do
  let record ← intakeRecord site
  refuseIf (digest (meaning site request record.sourceDigest) ≠ record.intentDigest ∨
    source.toOption.any (fun source => some source.digest != record.sourceDigest) = true)
    idempotencyConflict
  hold record

def firstRecord (site : Site) (request : Request) (source : ResolvedSource)
    (scope : ResolvedScope) (seq now : ℕ) : IntakeRecord where
  receipt := ⟨site.receiptRef,site.operation,site.spaceId,seq⟩
  nameSpace := site.nameSpace
  intentDigest := digest (meaning site request (some source.digest))
  scope := scope
  sourceRef := some request.sourceRef
  sourceDigest := some source.digest
  conversation := none
  intent := none
  terminal := none
  result := none
  warnings := []
  createdAt := now

/-- What intake started is persisted even when it failed: the key is bound and
a retry must replay this, never run it again. -/
def startOutcome (record : IntakeRecord) (outcome : Except KipError IntakeRecord) :
    IntakeRecord :=
  match outcome with
  | .ok started => started
  | .error e =>
    let progress := failedProgress record "intake could not start processing" e
    { record with terminal := some progress }

def finishIntake (record : IntakeRecord) (outcome : Except KipError IntakeRecord) :
    M IntakeRecord := do
  match ← read Path.receipt with
  | none => Prog.fail vanished
  | some stored =>
    confirmedPut Path.receipt (startOutcome record outcome) (.update stored.version)
    match outcome with
    | .ok started => hold started
    | .error e => Prog.fail e

def admitMutation (site : Site) (request : Request) (source : ResolvedSource) : M IntakeRecord := do
  let scope ← query fun i _ => i.scope
  checkPredecessors source.predecessorReceipts
  let seq ← query fun i _ => i.seq
  let now ← query fun i _ => .ok i.now
  let record := firstRecord site request source scope seq now
  confirmedPut Path.receipt record .create
  confirmedPut Path.key ⟨site.receiptRef,record.intentDigest⟩ .create
  let record := begun record request.intent
  let outcome ← attempt
    (startIntent record source source.predecessorReceipts request.intent)
  finishIntake record outcome

/-- Admits one mutation under its key, with the gate held. The source was
resolved before. -/
def memoryIntake (site : Site) (request : Request) (source : Except KipError ResolvedSource) :
    M IntakeRecord := do
  match ← read Path.key with
  | some _ => replay site request source
  | none =>
    let source ← lift source
    admitMutation site request source

def take (site : Site) : M IntakeRecord := do
  let record ← intakeRecord site
  hold record

/-- The progress of the copy a request holds. A view reads a copy and asks
once; a wait asks again and again about the copy it was given. -/
def poll (n : ℕ) (answer : Option Conversation) : M (Progress × IntakeRecord) := do
  let record ← query fun _ w => match w.copies[n]? with
    | none => .error receiptNotFound
    | some record => .ok record
  settled record answer

inductive Op where
  | intake (request : Request) (source : Except KipError ResolvedSource)
  | take
  | poll (copy : ℕ) (answer : Option Conversation)

inductive Answer where
  | receipt (record : IntakeRecord)
  | progress (progress : Progress) (record : IntakeRecord)
  deriving DecidableEq

def operate (site : Site) : Op → M Answer
  | .intake request source => do
    let record ← memoryIntake site request source
    pure (.receipt record)
  | .take => do
    let record ← take site
    pure (.receipt record)
  | .poll n answer => do
    let (progress,record) ← poll n answer
    pure (.progress progress record)

def atGate : Op → Bool
  | .intake _ _ => true
  | _ => false

def World.empty : World where
  journal := ⟨fun _ => none,0⟩
  started := []
  copies := []

end AndaBrain.Intake
