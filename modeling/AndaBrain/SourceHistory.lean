import AndaBrain.Forget
import AndaBrain.SourceTrace
import AndaBrain.Foundation.SortedMap

/-!
# The passes over a staged source

The receipts admitted from a source and the attempts of their Formation conversations.
-/

set_option autoImplicit false

namespace AndaBrain.SourceForget
open Foundation Forget FormationQueue
open Product (ElementState)

structure ElementIds where
  parse : String → Except KipError ElementKind
  evidence : ∀ id, parse id = .ok .evidence → startsWithText id "E-" = true

structure ElementRow where
  kind : ElementKind
  schemaRef : String
  state : ElementState
  clientKey : Option String
  evidenceIds : List String

def lastSegment (text : String) : String :=
  String.ofList (text.toList.reverse.takeWhile fun c => c ≠ '/').reverse

def narrativeTypes : List String := ["Event","Insight","Experience","Commitment"]

/-- Narrative memory belongs to the source it was formed from; other Concepts are shared. -/
def ElementRow.narrative (row : ElementRow) : Bool :=
  decide (row.kind = .concept) && narrativeTypes.contains (lastSegment row.schemaRef)

structure Nexus (ids : ElementIds) where
  load : String → Option ElementRow
  findByClientKey : String → Option String
  referrers : String → List String
  parsed : ∀ id row, load id = some row → ids.parse id = .ok row.kind
  keyed : ∀ id row key, load id = some row → row.kind = .evidence → row.clientKey = some key →
    findByClientKey key = some id
  cited : ∀ id row evidence, load id = some row → row.kind = .assertion →
    evidence ∈ row.evidenceIds → id ∈ referrers evidence

def kindText : ElementKind → String
  | .concept => "concept"
  | .proposition => "proposition"
  | .assertion => "assertion"
  | .evidence => "evidence"
  | .activity => "activity"

variable {ids : ElementIds}

def Nexus.Keeps (nexus next : Nexus ids) : Prop :=
  ∀ id row, nexus.load id = some row → ∃ later, next.load id = some later ∧
    later.kind = row.kind ∧ later.clientKey = row.clientKey ∧
    (row.state = .purged → later.state = .purged) ∧
    (later.state = .purged ∨ later.schemaRef = row.schemaRef ∧ row.evidenceIds ⊆ later.evidenceIds)

def Nexus.Purged (nexus : Nexus ids) (id : String) : Prop :=
  ∃ row, nexus.load id = some row ∧ row.state = .purged

structure IntakeRecord where
  sourceRef : Option String
  conversation : Option ℕ
  memoryRefs : Option (List String)

/-- The worker's copy of a conversation, and the trace of the attempt that runs on it. -/
structure Attempt where
  conversation : Conversation
  live : Option TraceData

def Attempt.latest (attempt : Attempt) : TraceData := attempt.live.getD attempt.conversation.trace

structure History (ids : ElementIds) where
  nexus : Nexus ids
  receipts : SortedMap String IntakeRecord
  conversations : ℕ → Option Conversation
  attempts : ℕ → Option Attempt
  origin : ℕ → Option String
  made : ℕ → List String
  captured : String → List String

inductive Outcome where
  | failed
  | working
  | done
  deriving DecidableEq

inductive Event (ids : ElementIds) where
  | accept (ref source : String)
  | queue (ref : String) (c : ℕ)
  | name (ref : String) (c : ℕ)
  | capture (ref : String) (created : List String) (nexus : Nexus ids) (finished : Bool)
  | settle (ref : String) (repair : Option String)
  | load (c : ℕ)
  | mark (c : ℕ) (status : ConversationStatus) (saved : Bool)
  | begin (c : ℕ)
  | write (c : ℕ) (revisions : ℕ) (reply : Option Response) (created : List String)
      (nexus : Nexus ids)
  | turn (c : ℕ) (outcome : Outcome) (saved : Bool)
  | exit (c : ℕ) (failed saved : Bool)
  | leave (c : ℕ)
  | crash
  | evolve (nexus : Nexus ids)

namespace History

/-- `persist_conversation_snapshot`: an update that the store refuses is only logged. -/
def save (s : History ids) (c : ℕ) (conversation : Conversation) (saved : Bool) : History ids :=
  if saved then { s with conversations := Function.update s.conversations c (some conversation) }
  else s

def hold (s : History ids) (c : ℕ) (attempt : Option Attempt) : History ids :=
  { s with attempts := Function.update s.attempts c attempt }

def putReceipt (s : History ids) (ref : String) (record : IntakeRecord) : History ids :=
  { s with receipts := s.receipts.insert ref record }

/-- What a settled receipt returns: the repair of a misrecording, then what the pass formed. -/
def formationRefs (repair : Option String) (trace : TraceData) : List String :=
  (repair.toList++trace.formed).take maxTraceRefs

def step (s : History ids) : Event ids → History ids
  | .accept ref source => s.putReceipt ref ⟨some source,none,none⟩
  | .queue ref c =>
    { s with
      conversations := Function.update s.conversations c (some ⟨.submitted,TraceData.default⟩)
      origin := Function.update s.origin c ((s.receipts.lookup ref).bind IntakeRecord.sourceRef) }
  | .name ref c =>
    match s.receipts.lookup ref with
    | none => s
    | some record => s.putReceipt ref { record with conversation := some c }
  | .capture ref created nexus finished =>
    let s := { s with nexus, captured := Function.update s.captured ref (s.captured ref++created) }
    match finished, s.receipts.lookup ref with
    | true, some record => s.putReceipt ref { record with memoryRefs := some created }
    | _, _ => s
  | .settle ref repair =>
    match s.receipts.lookup ref with
    | none => s
    | some record =>
      match record.conversation.bind s.conversations, record.memoryRefs with
      | some conversation, none =>
        if conversation.status = .completed then
          s.putReceipt ref
            { record with memoryRefs := some (formationRefs repair conversation.trace) }
        else s
      | _, _ => s
  | .load c => s.hold c ((s.conversations c).map fun conversation => ⟨conversation,none⟩)
  | .mark c status saved =>
    match s.attempts c with
    | none => s
    | some attempt =>
      let conversation := { attempt.conversation with status }
      (s.hold c (some ⟨conversation,attempt.live⟩)).save c conversation saved
  | .begin c =>
    s.hold c ((s.attempts c).map fun attempt =>
      ⟨attempt.conversation,some attempt.conversation.trace⟩)
  | .write c revisions reply created nexus =>
    let s := { s with nexus, made := Function.update s.made c (s.made c++created) }
    s.hold c ((s.attempts c).map fun attempt =>
      ⟨attempt.conversation,attempt.live.map fun trace =>
        reply.elim trace fun response => trace.record revisions response⟩)
  | .turn c outcome saved =>
    match s.attempts c with
    | some ⟨conversation,some live⟩ =>
      match outcome with
      | .failed =>
        let conversation := { conversation with status := .failed }
        (s.hold c (some ⟨conversation,none⟩)).save c conversation saved
      | .working =>
        let conversation := { conversation.keepTrace live with status := .working }
        (s.hold c (some ⟨conversation,some live⟩)).save c conversation saved
      | .done =>
        let conversation := { conversation.keepTrace live with status := .completed }
        (s.hold c (some ⟨conversation,none⟩)).save c conversation saved
    | _ => s
  | .exit c failed saved =>
    match s.attempts c with
    | none => s
    | some attempt =>
      let conversation := if failed then { attempt.conversation with status := .failed }
        else attempt.conversation
      (s.hold c (some ⟨conversation,none⟩)).save c conversation saved
  | .leave c => s.hold c none
  | .crash => { s with attempts := fun _ => none }
  | .evolve nexus => { s with nexus }

end History

def Reports (response : Response) (created : List String) (nexus : Nexus ids) : Prop :=
  response.seqs ≠ [] ∧ ∀ id ∈ created, ∀ row, nexus.load id = some row →
    ∃ result ∈ response.results, result.succeeded = true ∧
      ⟨some id,some (kindText row.kind),some "create"⟩ ∈ result.changes

/-- The events that can come next: `process_loop` and `drive_runner_loop` run one attempt at a
time on a conversation that is not settled. -/
def Possible (s : History ids) : Event ids → Prop
  | .accept ref _ => s.receipts.lookup ref = none ∧ s.captured ref = []
  | .queue ref c => s.conversations c = none ∧ s.attempts c = none ∧ s.made c = [] ∧
      ∃ record, s.receipts.lookup ref = some record ∧ record.conversation = none
  | .name ref c => ∃ record, s.receipts.lookup ref = some record ∧ record.conversation = none ∧
      s.origin c = record.sourceRef
  | .capture ref created nexus _ => s.nexus.Keeps nexus ∧
      (∃ record, s.receipts.lookup ref = some record ∧ record.memoryRefs = none) ∧
      ∀ id ∈ created, ∃ row, nexus.load id = some row ∧ row.kind = .evidence
  | .settle _ _ => True
  | .load c => s.attempts c = none ∧
      ∃ conversation, s.conversations c = some conversation ∧ conversation.status.terminal = false
  | .mark c status _ => status ≠ .completed ∧ ∃ attempt, s.attempts c = some attempt ∧
      attempt.live = none ∧ attempt.conversation.status.terminal = false
  | .begin c => ∃ attempt, s.attempts c = some attempt ∧ attempt.live = none ∧
      attempt.conversation.status.terminal = false
  | .write c _ reply created nexus => s.nexus.Keeps nexus ∧
      (∃ attempt live, s.attempts c = some attempt ∧ attempt.live = some live) ∧
      (∀ id ∈ created, (nexus.load id).isSome) ∧
      ∀ response, reply = some response → Reports response created nexus
  | .turn c _ _ => ∃ attempt live, s.attempts c = some attempt ∧ attempt.live = some live
  | .exit c _ _ => ∃ attempt live, s.attempts c = some attempt ∧ attempt.live = some live
  | .leave _ => True
  | .crash => True
  | .evolve nexus => s.nexus.Keeps nexus

inductive Run (meets : History ids → Event ids → Prop) (start : History ids) : History ids → Prop
  | here : Run meets start start
  | step {s : History ids} (rest : Run meets start s) (event : Event ids) (hp : Possible s event)
      (hm : meets s event) : Run meets start (s.step event)

def History.start (nexus : Nexus ids) : History ids :=
  ⟨nexus,SortedMap.empty,fun _ => none,fun _ => none,fun _ => none,fun _ => [],fun _ => []⟩

def History.latest (s : History ids) (c : ℕ) : TraceData :=
  match s.attempts c with
  | some attempt => attempt.latest
  | none => (s.conversations c).elim TraceData.default Conversation.trace

def captureKey (c i : ℕ) : String := "formation:conversation:"++toString c++":"++toString i

def maxIngestedMessages : ℕ := 16

def KeyedBy (nexus : Nexus ids) (c : ℕ) (id : String) : Prop :=
  ∃ row, nexus.load id = some row ∧ row.kind = .evidence ∧
    ∃ i < maxIngestedMessages, row.clientKey = some (captureKey c (i+1))

def Named (s : History ids) (source : String) (c : ℕ) : Prop :=
  ∃ ref record, s.receipts.lookup ref = some record ∧ record.sourceRef = some source ∧
    record.conversation = some c

def Found (s : History ids) (source id : String) : Prop :=
  (∃ c, Named s source c ∧ (KeyedBy s.nexus c id ∨ id ∈ (s.latest c).evidence)) ∨
  ∃ ref record refs, s.receipts.lookup ref = some record ∧ record.sourceRef = some source ∧
    record.memoryRefs = some refs ∧ id ∈ refs ∧ startsWithText id "E-" = true

structure Reached (s : History ids) (source : String) (c : ℕ) (id : String) (row : ElementRow) :
    Prop where
  evidence : row.kind = .evidence → Found s source id
  narrative : row.narrative = true → Held (s.latest c).formed id
  assertion : row.kind = .assertion → ∃ evidence ∈ row.evidenceIds, Found s source evidence

def Answered (s : History ids) (source : String) (c : ℕ) (id : String) : Prop :=
  ∃ row, s.nexus.load id = some row ∧ (row.state = .purged ∨ Reached s source c id row)

/-- What the record that stays behind must hold when the copy ahead of it is dropped: the
Evidence of its trace, and the narrative memory that the attempts made. -/
def Covers (s : History ids) (c : ℕ) (kept : TraceData) : Prop :=
  (∀ id ∈ (s.latest c).evidence, id ∈ kept.evidence ∨ KeyedBy s.nexus c id) ∧
  ∀ id ∈ s.made c, ∀ row, s.nexus.load id = some row → row.state ≠ .purged →
    row.narrative = true → Held kept.formed id

def History.stored (s : History ids) (c : ℕ) : TraceData :=
  (s.conversations c).elim TraceData.default Conversation.trace

def History.copied (s : History ids) (c : ℕ) : TraceData :=
  (s.attempts c).elim TraceData.default fun attempt => attempt.conversation.trace

/-- Evidence that the reply to a write reports, while the trace has room for all it reports. -/
def Noted (s : History ids) (c : ℕ) (reply : Option Response) (id : String) : Prop :=
  ∃ response, reply = some response ∧ id ∈ response.evidence ∧
    (s.latest c).evidence.length+response.evidence.length ≤ maxTraceRefs

def Accounted (source : String) (s : History ids) : Event ids → Prop
  | .write c _ reply created nexus =>
    s.origin c = some source → created ≠ [] → Named s source c ∧
      ∀ id ∈ created, ∀ row, nexus.load id = some row →
        (row.kind = .evidence → KeyedBy nexus c id ∨ Noted s c reply id) ∧
        (row.narrative = true → reply.isSome) ∧
        (row.kind = .assertion → ∃ evidence ∈ row.evidenceIds,
          Found s source evidence ∨ KeyedBy nexus c evidence ∨ Noted s c reply evidence)
  | .capture ref created _ finished =>
    ∀ record, s.receipts.lookup ref = some record → record.sourceRef = some source →
      finished = true ∨ created = []
  | .turn c outcome _ => s.origin c = some source → outcome = .failed → Covers s c (s.copied c)
  | .exit c _ _ => s.origin c = some source → Covers s c (s.copied c)
  | .leave c => s.origin c = some source → Covers s c (s.stored c)
  | .crash => ∀ c, s.origin c = some source → Covers s c (s.stored c)
  | _ => True

end AndaBrain.SourceForget
