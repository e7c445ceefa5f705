import AndaBrain.WorkerErasure

/-!
# The passes over a source

A history of the object keeps, beside its state, what the pass of every receipt created: the
results its operations returned, and the Evidence the host captured for it.
-/

set_option autoImplicit false

namespace AndaBrain.WorkerMemory
open Foundation Product

structure Change where
  create : Bool
  id : Option ElementId

structure OperationResult where
  committed : Bool
  seq : Option ℕ
  changes : List Change

def noteChange (trace : PassTrace) (change : Change) : PassTrace :=
  match change.id with
  | none => trace
  | some id =>
    let trace := if change.create then { trace with created := trace.created++[id] } else trace
    if id.kind = .evidence then { trace with evidence := trace.evidence++[id] }
    else
      { trace with
        formed := trace.formed++[id]
        assertions := if id.kind = .assertion ∧ change.create then trace.assertions++[id]
          else trace.assertions }

def noteResult (trace : PassTrace) (result : OperationResult) : PassTrace :=
  if result.committed then
    result.changes.foldl noteChange
      { trace with maxSeq := match result.seq with
          | some seq => some (max (trace.maxSeq.getD 0) seq)
          | none => trace.maxSeq }
  else trace

def traceOf (results : List OperationResult) : PassTrace :=
  results.foldl noteResult ⟨[],[],[],[],none⟩

/-- The Evidence a capture has created when it ends, or when the engine refuses a message. -/
def capturedIds (session : Session) (input : ℕ → Message → EvidenceInput) :
    Nexus → ℕ → List Message → List ElementId
  | _, _, [] => []
  | nexus, index, message::rest =>
    match session.createEvidence nexus (input index message) with
    | (_,.error _) => []
    | (next,.ok (id,_)) => id.toList++capturedIds session input next (index+1) rest

/-- The pass of a receipt: the source it was admitted from, and what it did so far. -/
structure Pass where
  source : Option String
  results : List OperationResult
  captured : List ElementId
  ended : Bool

def Pass.made (pass : Pass) : List ElementId := (traceOf pass.results).created++pass.captured

structure History where
  world : World
  passes : String → Option Pass

def History.setPass (s : History) (ref : String) (pass : Option Pass) : History :=
  { s with passes := fun r => if r = ref then pass else s.passes r }

def World.stage (w : World) (ref : String) (staged : StagedSource) : World :=
  if (w.sources.lookup ref).isSome then w
  else
    { w with
      sources := w.sources.insert ref staged
      sourceReceipts := w.sourceReceipts.insert ref [] }

/-- The calls of the object, the operations of its passes, and what else moves its store. -/
inductive HistoryCall where
  | stage (ref : String) (staged : StagedSource)
  | intake (now : ℕ) (ns space : String) (request : MemoryRequest)
  | operation (ref : String) (result : OperationResult) (nexus : Nexus)
  | finish (ref : String)
  | fault (ref : String) (error : Failure)
  | capture (ref : String) (messages : List Message) (observedAt : String) (purpose : Purpose)
  | read (now : ℕ) (ns ref : String)
  | erase (now : ℕ) (ns space : String) (request : ForgetRequest) (owner : Bool)
  | prepare (now : ℕ) (key : String) (record : ElementId) (revision : ℕ)
  | commit (now : ℕ) (key digest : String)
  | resume (now : ℕ)
  | evolve (nexus : Nexus)
  | bind (product : ProductStore)
  | retain (delivered : List ElementId → List String)

section
variable (site : Site) (session : Session)

def captureInput (w : World) (ref : String) (observedAt : String) (purpose : Purpose) :
    Option (IntakeRecord × (ℕ → Message → EvidenceInput)) :=
  (w.receipts.lookup ref).map fun record =>
    (record,evidenceInput site record (originalClass site w.nexus record) purpose.wire purpose.about
      observedAt)

def captures (w : World) (ref : String) (messages : List Message) (observedAt : String)
    (purpose : Purpose) : List ElementId :=
  ((captureInput site w ref observedAt purpose).map fun input =>
    capturedIds session input.2 w.nexus 0 messages).getD []

def historyStep (s : History) : HistoryCall → History
  | .stage ref staged => { s with world := s.world.stage ref staged }
  | .intake now ns space request =>
    match admitRequest site session s.world now ns space request with
    | (world,.ok (.accepted record _ _ _)) =>
      History.setPass { s with world } record.receiptRef (some ⟨record.sourceRef,[],[],false⟩)
    | (world,_) => { s with world }
  | .operation ref result nexus =>
    History.setPass { s with world := s.world.withNexus nexus } ref
      ((s.passes ref).map fun pass => { pass with results := pass.results++[result] })
  | .finish ref =>
    match s.passes ref with
    | none => s
    | some pass =>
      History.setPass
        { s with world := (finishFormation session s.world ref (traceOf pass.results)).1 } ref
        (some { pass with ended := true })
  | .fault ref error =>
    History.setPass { s with world := (failFormation s.world ref error).1 } ref
      ((s.passes ref).map fun pass => { pass with ended := true })
  | .capture ref messages observedAt purpose =>
    History.setPass
      { s with world := (captureEvidence site session s.world ref messages observedAt purpose).1 } ref
      (if purpose.references.all (referenceFound site s.world.nexus) then
        (s.passes ref).map fun pass =>
          { pass with
            captured := captures site session s.world ref messages observedAt purpose
            ended := true }
      else none)
  | .read now ns ref => { s with world := (progress s.world now ns ref).1 }
  | .erase now ns space request owner =>
    { s with world := (forget site session s.world now ns space request owner).1 }
  | .prepare now key record revision =>
    { s with world := { s.world with managed :=
        (prepareDelete site.toDigests session.toEngine s.world.managed now key record revision).1 } }
  | .commit now key digest =>
    { s with world := { s.world with managed :=
        (commitDelete site.toDigests session.toEngine s.world.managed now key digest).1 } }
  | .resume now =>
    { s with world := { s.world with managed :=
        (recoverChange session.toEngine s.world.managed now) } }
  | .evolve nexus => { s with world := s.world.withNexus nexus }
  | .bind product => { s with world := { s.world with managed := { s.world.managed with product } } }
  | .retain delivered => { s with world := { s.world with delivered } }

def History.Running (s : History) (ref : String) : Prop :=
  ∃ pass, s.passes ref = some pass ∧ pass.ended = false

/-- A call that can come next. A pass runs operations until it reports back or fails, and a
capture takes the place of its operations. The engine keeps its store, and the other changes
of the product leave its deletions as they are. -/
def Possible (s : History) : HistoryCall → Prop
  | .stage ref staged => staged.sourceRef = ref
  | .operation ref result nexus =>
    s.Running ref ∧ s.world.nexus.Keeps nexus ∧
      ∀ change ∈ result.changes, ∀ id, change.id = some id → (nexus.load id).isSome
  | .finish ref => s.Running ref
  | .fault ref _ => s.Running ref
  | .capture ref _ _ _ => ∃ pass, s.passes ref = some pass ∧ pass.ended = false ∧ pass.results = []
  | .commit _ key _ => ∀ change, s.world.product.changes key = some change → change.delete = true
  | .resume _ => ∀ key change, s.world.product.pending = some key →
      s.world.product.changes key = some change → change.delete = true
  | .evolve nexus => s.world.nexus.Keeps nexus
  | .bind product => ∀ key change, product.changes key = some change → change.delete = true →
      ∃ old, s.world.product.changes key = some old ∧ SameErasure old change
  | _ => True

/-- A run of the object whose calls all satisfy a condition on the state before them. -/
inductive HistoryRun (meets : History → HistoryCall → Prop) (start : History) : History → Prop
  | here : HistoryRun meets start start
  | step {s : History} (rest : HistoryRun meets start s) (call : HistoryCall)
      (hp : Possible s call) (hm : meets s call) :
      HistoryRun meets start (historyStep site session s call)

end

/-- An element that some receipt of the source records, as `forget` reads receipts. -/
def Recorded (s : History) (source : String) (id : ElementId) : Prop :=
  ∃ ref pass record, s.passes ref = some pass ∧ pass.source = some source ∧
    s.world.receipts.lookup ref = some record ∧
    (id ∈ memoryRefs record ∨ id.kind = .evidence ∧ id ∈ record.evidence)

def Output (nexus : Nexus) (id : ElementId) : Prop :=
  id.kind = .evidence ∨ id.kind = .assertion ∨ Owned nexus id

def Cites (nexus : Nexus) (id : ElementId) (among : ElementId → Prop) : Prop :=
  id.kind = .assertion ∧ ∃ row, nexus.load id = some row ∧
    ∃ evidence ∈ row.evidenceRefs, evidence.kind = .evidence ∧ among evidence

def Answered (s : History) (source : String) (id : ElementId) : Prop :=
  isPurged s.world.nexus id = true ∨
  id.kind ≠ .assertion ∧ Recorded s source id ∨
  Cites s.world.nexus id (Recorded s source) ∨
  ¬Output s.world.nexus id

def Repairs (session : Session) (nexus : Nexus) (trace : PassTrace) (intent : MemoryIntent) :
    Prop :=
  ∃ target original repair ref, intent.targetRef = some target ∧
    intent.originalEvidence = some original ∧ repairOf nexus trace target original = .ok repair ∧
    (session.repairRecording nexus repair).2 = .ok ref

def Takes (session : Session) (nexus : Nexus) (trace : PassTrace) (record : IntakeRecord) : Prop :=
  record.terminal = none ∧ ∀ intent, record.intent = some intent →
    intent.changeKind = some .misrecorded → Repairs session nexus trace intent

/-- The receipts a call of `admit` reads. -/
def consulted (site : Site) (w : World) (ns space : String) (request : MemoryRequest) :
    List String :=
  receiptRefOf site ns space request.operation request.idempotencyKey::
    match resolveSource site w ns request.sourceRef with
    | .ok source => source.order.elim [] SourceOrder.predecessorReceipts
    | .error _ => []

def Expires (s : History) (source : String) (now : ℕ) (ref : String) : Prop :=
  ∀ pass record, s.passes ref = some pass → pass.source = some source →
    s.world.receipts.lookup ref = some record → record.abandoned now = true →
    ∀ id ∈ pass.made, Answered s source id

/-- A pass of the source leaves nothing behind that its receipt does not record. When it
reports back, its receipt takes the Concepts it owns and its claims cite recorded Evidence.
When it fails, or its receipt is abandoned, it has made nothing else; and it makes nothing
else after that. -/
def Accounted (site : Site) (session : Session) (source : String) (s : History) :
    HistoryCall → Prop
  | .intake now ns space request =>
    ∀ ref ∈ consulted site s.world ns space request, Expires s source now ref
  | .read now _ ref => Expires s source now ref
  | .operation ref result nexus =>
    ∀ pass record, s.passes ref = some pass → pass.source = some source →
      s.world.receipts.lookup ref = some record → record.terminal.isSome →
      ∀ id ∈ (traceOf [result]).created,
        Answered { s with world := s.world.withNexus nexus } source id
  | .finish ref =>
    ∀ pass record, s.passes ref = some pass → pass.source = some source →
      s.world.receipts.lookup ref = some record →
      ∀ id ∈ (traceOf pass.results).created,
        Answered s source id ∨ id.kind = .evidence ∨
        Cites s.world.nexus id (fun e => e ∈ (traceOf pass.results).evidence) ∨
        id.kind = .concept ∧ Takes session s.world.nexus (traceOf pass.results) record ∧
          id ∈ (traceOf pass.results).formed.take maxItems
  | .fault ref _ =>
    ∀ pass record, s.passes ref = some pass → pass.source = some source →
      s.world.receipts.lookup ref = some record → record.terminal = none →
      ∀ id ∈ pass.made, Answered s source id
  | .capture ref messages observedAt purpose =>
    ∀ pass record, s.passes ref = some pass → pass.source = some source →
      s.world.receipts.lookup ref = some record → record.terminal.isSome →
      captures site session s.world ref messages observedAt purpose = []
  | _ => True

structure SameRecord (record later : IntakeRecord) : Prop where
  source : later.sourceRef = record.sourceRef
  result : later.result = record.result
  evidence : later.evidence = record.evidence
  created : later.createdAt = record.createdAt

theorem SameRecord.refl (record : IntakeRecord) : SameRecord record record := ⟨rfl,rfl,rfl,rfl⟩

theorem SameRecord.trans {a b c : IntakeRecord} (hab : SameRecord a b) (hbc : SameRecord b c) :
    SameRecord a c :=
  ⟨hbc.source.trans hab.source,hbc.result.trans hab.result,hbc.evidence.trans hab.evidence,
    hbc.created.trans hab.created⟩

def Reads (now : ℕ) (refs : List String) (w next : World) : Prop :=
  ∀ ref record, w.receipts.lookup ref = some record → ∃ later,
    next.receipts.lookup ref = some later ∧ SameRecord record later ∧
    (later.terminal.isSome → record.terminal.isSome ∨ ref ∈ refs ∧ record.abandoned now = true)

theorem reads_refl (now : ℕ) (refs : List String) {w next : World}
    (h : next.receipts = w.receipts) : Reads now refs w next := by
  intro ref record hr
  exact ⟨record,by rw [h, hr],SameRecord.refl record,.inl⟩

theorem reads_mono {now : ℕ} {refs more : List String} {w next : World} (h : Reads now refs w next)
    (hsub : refs ⊆ more) : Reads now more w next := by
  intro ref record hr
  obtain ⟨later,hl,hsame,hterm⟩ := h ref record hr
  exact ⟨later,hl,hsame,fun ht => (hterm ht).imp_right fun ⟨hin,ha⟩ => ⟨hsub hin,ha⟩⟩

theorem reads_trans {now : ℕ} {refs : List String} {a b c : World} (hab : Reads now refs a b)
    (hbc : Reads now refs b c) : Reads now refs a c := by
  intro ref record hr
  obtain ⟨mid,hm,hsame,hterm⟩ := hab ref record hr
  obtain ⟨later,hl,hlater,hlast⟩ := hbc ref mid hm
  refine ⟨later,hl,hsame.trans hlater,fun ht => ?_⟩
  rcases hlast ht with hmid | ⟨hin,habandoned⟩
  · exact hterm hmid
  by_cases hopen : record.terminal.isSome
  · exact .inl hopen
  right
  refine ⟨hin,?_⟩
  simp only [IntakeRecord.abandoned, hsame.created, Bool.and_eq_true] at habandoned ⊢
  exact ⟨by simpa using hopen,habandoned.2⟩

theorem progress_reads (w : World) (now : ℕ) (ns ref : String) : Reads now [ref] w
    (progress w now ns ref).1 ∧ (progress w now ns ref).1.sources = w.sources ∧
    (progress w now ns ref).1.sourceReceipts = w.sourceReceipts := by
  have hstay : Reads now [ref] w w ∧ w.sources = w.sources ∧ w.sourceReceipts = w.sourceReceipts :=
    ⟨reads_refl now _ rfl,rfl,rfl⟩
  unfold progress
  cases hr : recordOf w ns ref with
  | error e => exact hstay
  | ok record =>
    simp only
    split
    · rename_i habandoned
      have hlookup := (record_of_lookup w ns ref record hr).1
      have hopen : record.terminal = none := by
        simp only [IntakeRecord.abandoned, Bool.and_eq_true] at habandoned
        simpa using habandoned.1
      obtain ⟨settled,hw,hterm,hresult,hsource,hevidence,-⟩ :=
        settle_open w ref record (abandonedProgress ref) none [] hlookup hopen
      have hcreated : settled.createdAt = record.createdAt := by
        simp only [settle, hlookup, hopen, Option.isSome_none, Bool.false_eq_true, if_false] at hw
        injection hw with _ hs
        injection hs with hs
        rw [← hs]
      rw [hw]
      refine ⟨fun other found hf => ?_,rfl,rfl⟩
      rw [lookup_put]
      by_cases heq : other = ref
      · subst heq
        obtain rfl : record = found := Option.some.inj (hlookup.symm.trans hf)
        exact ⟨settled,by simp,⟨hsource,hresult,hevidence,hcreated⟩,
          fun _ => .inr ⟨by simp,habandoned⟩⟩
      · exact ⟨found,by simp [heq, hf],SameRecord.refl found,.inl⟩
    · exact hstay

theorem read_predecessors_reads (now : ℕ) (ns : String) (refs : List String) (w : World) : Reads now
    refs w (readPredecessors now ns w refs).1 ∧ (readPredecessors now ns w refs).1.sources =
    w.sources ∧ (readPredecessors now ns w refs).1.sourceReceipts = w.sourceReceipts := by
  induction refs generalizing w with
  | nil => exact ⟨reads_refl now _ rfl,rfl,rfl⟩
  | cons ref rest ih =>
    obtain ⟨hone,hsources,hlisted⟩ := progress_reads w now ns ref
    have hhead := reads_mono hone (show [ref] ⊆ ref::rest by simp)
    unfold readPredecessors
    generalize progress w now ns ref = x at hhead hsources hlisted
    obtain ⟨next,answer⟩ := x
    cases answer with
    | error e => exact ⟨hhead,hsources,hlisted⟩
    | ok record =>
      simp only
      split
      · exact ⟨hhead,hsources,hlisted⟩
      · obtain ⟨hrest,hs,hl⟩ := ih next
        exact ⟨reads_trans hhead (reads_mono hrest (List.subset_cons_self _ _)),hs.trans hsources,
          hl.trans hlisted⟩

theorem Session.Erases.moves {session : Session} (hdoc : session.Erases) :
    Moves session Nexus.Keeps :=
  ⟨Nexus.Keeps.refl,fun _ _ _ => Nexus.Keeps.trans,hdoc.evidence,hdoc.repair,hdoc.scope⟩

def Lists (w next : World) : Prop :=
  ∀ source, (w.sourceReceipts.lookup source = none → next.sourceReceipts.lookup source = none) ∧
    ∀ listed, w.sourceReceipts.lookup source = some listed →
      ∃ more, next.sourceReceipts.lookup source = some more ∧ listed ⊆ more

theorem lists_refl {w next : World} (h : next.sourceReceipts = w.sourceReceipts) : Lists w next := by
  intro source
  rw [h]
  exact ⟨fun h => h,fun listed h => ⟨listed,h,List.Subset.refl _⟩⟩

theorem lists_from {w mid next : World} (h : mid.sourceReceipts = w.sourceReceipts)
    (hl : Lists mid next) : Lists w next := by
  intro source
  rw [← h]
  exact hl source

theorem list_receipt_lists (w : World) (sourceRef ref : String) :
    Lists w (listReceipt w sourceRef ref) ∧ (listReceipt w sourceRef ref).sources = w.sources ∧
    (startsWith sourceRef "src-" = true →
      ∀ listed, (listReceipt w sourceRef ref).sourceReceipts.lookup sourceRef = some listed →
        ref ∈ listed) := by
  unfold listReceipt
  split
  · cases hl : w.sourceReceipts.lookup sourceRef with
    | none =>
      refine ⟨lists_refl rfl,rfl,fun _ listed h => ?_⟩
      simp [hl] at h
    | some listed =>
      simp only
      split
      · rename_i hin
        refine ⟨lists_refl rfl,rfl,fun _ found h => ?_⟩
        obtain rfl := Option.some.inj (hl.symm.trans h)
        exact hin
      refine ⟨fun source => ?_,rfl,fun _ found h => ?_⟩
      · simp only [SortedMap.lookup_insert]
        by_cases heq : source = sourceRef
        · subst heq
          simp only [hl, if_true]
          refine ⟨nofun,fun found h => ?_⟩
          cases h
          exact ⟨_,rfl,List.subset_append_left _ _⟩
        · simp only [if_neg heq]
          exact ⟨fun h => h,fun found h => ⟨found,h,List.Subset.refl _⟩⟩
      · simp only [SortedMap.lookup_insert, if_true] at h
        cases h
        simp
  · rename_i hother
    exact ⟨lists_refl rfl,rfl,fun h => absurd h hother⟩

theorem bound_lists (w : World) (ref : String) (stored : IntakeRecord) (source : Option String) :
    (source.elim (w.putReceipt ref stored) (listReceipt (w.putReceipt ref stored) · ref)).receipts =
      (w.putReceipt ref stored).receipts ∧
    (source.elim (w.putReceipt ref stored) (listReceipt (w.putReceipt ref stored) · ref)).sources =
      w.sources ∧
    Lists w (source.elim (w.putReceipt ref stored) (listReceipt (w.putReceipt ref stored) · ref)) ∧
    ∀ staged, source = some staged → startsWith staged "src-" = true → ∀ listed,
      (source.elim (w.putReceipt ref stored)
        (listReceipt (w.putReceipt ref stored) · ref)).sourceReceipts.lookup staged = some listed →
      ref ∈ listed := by
  cases source with
  | none => exact ⟨rfl,rfl,lists_refl rfl,fun _ h => nomatch h⟩
  | some staged =>
    obtain ⟨hlists,hsources,hin⟩ := list_receipt_lists (w.putReceipt ref stored) staged ref
    refine ⟨list_receipt_receipts _ staged ref,hsources,hlists,fun other h => ?_⟩
    cases h
    exact hin

def Keyed (w : World) : Prop :=
  ∀ ref staged, w.sources.lookup ref = some staged → staged.sourceRef = ref

def Listed (w : World) (source ref : String) : Prop :=
  startsWith source "src-" = true → (w.sources.lookup source).isSome ∧
    ∀ listed, w.sourceReceipts.lookup source = some listed → ref ∈ listed

structure Admitted (w next : World) (record : IntakeRecord) : Prop where
  free : w.receipts.lookup record.receiptRef = none
  stored : next.receipts.lookup record.receiptRef = some record
  result : record.result = none
  evidence : record.evidence = []
  terminal : record.terminal = none
  listed : ∀ source, record.sourceRef = some source → Listed next source record.receiptRef

section
variable (site : Site) {session : Session}

theorem resolved_staged (w : World) (hkeyed : Keyed w) (ns sourceRef : String)
    (source : ResolvedSource) (h : resolveSource site w ns sourceRef = .ok source) :
    startsWith source.ref "src-" = true → (w.sources.lookup source.ref).isSome := by
  unfold resolveSource at h
  split at h
  · unfold World.stagedSource at h
    split at h
    · cases h
    rename_i staged hstaged
    split at hstaged
    · cases hstaged
    split at hstaged
    · cases hstaged
    rename_i found hfound
    split at hstaged
    · cases hstaged
    cases hstaged
    split at h
    · cases h
    · cases h
      intro _
      simp [hkeyed _ _ hfound, hfound]
  · rename_i hother
    split at h
    · cases h
    split at h
    · cases h
    split at h
    · cases h
    split at h
    · cases h
    · cases h
      exact fun hs => absurd hs hother

theorem accept_reads (w : World) (now : ℕ) (ns ref : String)
    (request : MemoryRequest) (source : Option ResolvedSource)
    (hfree : w.receipts.lookup ref = none)
    (hsource : ∀ found, source = some found → startsWith found.ref "src-" = true →
      (w.sources.lookup found.ref).isSome) :
    Reads now ((source.bind ResolvedSource.order).elim [] SourceOrder.predecessorReceipts) w
      (accept site session w now ns ref request source).1 ∧
    (accept site session w now ns ref request source).1.sources = w.sources ∧
    Lists w (accept site session w now ns ref request source).1 ∧
    ∀ record messages observedAt identity,
      (accept site session w now ns ref request source).2 =
        .ok (.accepted record messages observedAt identity) →
      record.receiptRef = ref ∧ Admitted w (accept site session w now ns ref request source).1
        record := by
  unfold accept
  generalize resolveScope site session w.nexus request.scope = x
  obtain ⟨nexus,answer⟩ := x
  cases answer with
  | error e => exact ⟨reads_refl now _ rfl,rfl,lists_refl rfl,fun _ _ _ _ h => nomatch h⟩
  | ok scope =>
    obtain ⟨hread,hs,hl⟩ := read_predecessors_reads now ns
      ((source.bind ResolvedSource.order).elim [] SourceOrder.predecessorReceipts)
      (w.withNexus nexus)
    have hnone := read_predecessors_fresh now ns
      ((source.bind ResolvedSource.order).elim [] SourceOrder.predecessorReceipts)
      (w.withNexus nexus) ref hfree
    simp only
    generalize readPredecessors now ns (w.withNexus nexus)
      ((source.bind ResolvedSource.order).elim [] SourceOrder.predecessorReceipts) = y
      at hread hs hl hnone
    obtain ⟨next,answer⟩ := y
    have hfirst : Reads now ((source.bind ResolvedSource.order).elim []
        SourceOrder.predecessorReceipts) w next := hread
    cases answer with
    | error e => exact ⟨hfirst,hs,lists_refl hl,fun _ _ _ _ h => nomatch h⟩
    | ok u =>
      simp only
      cases intentOf site next request with
      | error e => exact ⟨hfirst,hs,lists_refl hl,fun _ _ _ _ h => nomatch h⟩
      | ok intent =>
        simp only
        have hbound := fun stored : IntakeRecord =>
          bound_lists next ref stored (source.map ResolvedSource.ref)
        refine ⟨fun other record hr => ?_,(hbound _).2.1.trans hs,?_,fun record _ _ _ h => ?_⟩
        · obtain ⟨later,hlater,hsame⟩ := hfirst other record hr
          refine ⟨later,?_,hsame⟩
          rw [(hbound _).1, lookup_put, if_neg, hlater]
          rintro rfl
          rw [hfree] at hr
          cases hr
        · exact lists_from hl (hbound _).2.2.1
        injection h with h
        injection h with h
        subst h
        refine ⟨rfl,hfree,?_,rfl,rfl,rfl,fun staged h => fun hstarts => ⟨?_,?_⟩⟩
        · rw [(hbound _).1]
          simp [lookup_put]
        · rw [(hbound _).2.1, show next.sources = w.sources from hs]
          obtain ⟨found,hfound,rfl⟩ := Option.map_eq_some_iff.mp h
          exact hsource found hfound hstarts
        · exact (hbound _).2.2.2 staged h hstarts

/-- What `admit` does to the receipts: it reads those it consults, and binds one at most. -/
theorem intake_reads (w : World) (hkeyed : Keyed w) (now : ℕ) (ns space : String)
    (request : MemoryRequest) : Reads now (consulted site w ns space request) w
    (admitRequest site session w now ns space request).1 ∧
    (admitRequest site session w now ns space request).1.sources = w.sources ∧ Lists w
    (admitRequest site session w now ns space request).1 ∧ ∀ record messages observedAt identity,
    (admitRequest site session w now ns space request).2 = .ok
    (.accepted record messages observedAt identity) → Admitted w
    (admitRequest site session w now ns space request).1 record := by
  have hstay : Reads now (consulted site w ns space request) w w ∧ w.sources = w.sources ∧
      Lists w w := ⟨reads_refl now _ rfl,rfl,lists_refl rfl⟩
  simp only [admitRequest]
  generalize hsource : (if request.operation = .forget then Except.ok none
    else (resolveSource site w ns request.sourceRef).map some) = source
  cases hexisting : w.receipts.lookup
      (receiptRefOf site ns space request.operation request.idempotencyKey) with
  | some existing =>
    simp only
    split
    · exact ⟨hstay.1,rfl,hstay.2.2,fun _ _ _ _ h => by cases h⟩
    split
    · exact ⟨hstay.1,rfl,hstay.2.2,fun _ _ _ _ h => by cases h⟩
    obtain ⟨hread,hs,hl⟩ := progress_reads w now ns
      (receiptRefOf site ns space request.operation request.idempotencyKey)
    have hmore := reads_mono hread (show [receiptRefOf site ns space request.operation
      request.idempotencyKey] ⊆ consulted site w ns space request by simp [consulted])
    generalize progress w now ns
      (receiptRefOf site ns space request.operation request.idempotencyKey) = x at hmore hs hl
    obtain ⟨next,answer⟩ := x
    cases answer with
    | error e => exact ⟨hmore,hs,lists_refl hl,fun _ _ _ _ h => by cases h⟩
    | ok record =>
      refine ⟨hmore,hs,lists_refl hl,fun _ _ _ _ h => ?_⟩
      injection h with h
      cases h
  | none =>
    simp only
    cases source with
    | error e => exact ⟨hstay.1,rfl,hstay.2.2,fun _ _ _ _ h => by cases h⟩
    | ok source =>
      have hresolved : ∀ found, source = some found →
          resolveSource site w ns request.sourceRef = .ok found := by
        rintro found rfl
        split at hsource
        · cases hsource
        cases hr : resolveSource site w ns request.sourceRef with
        | error e =>
          rw [hr] at hsource
          cases hsource
        | ok resolved =>
          rw [hr] at hsource
          cases hsource
          rfl
      obtain ⟨hread,hs,hl,haccepted⟩ := accept_reads site w now ns
        (receiptRefOf site ns space request.operation request.idempotencyKey) request source
        hexisting fun found hf => resolved_staged site w hkeyed ns _ found (hresolved found hf)
      refine ⟨reads_mono hread ?_,hs,hl,fun record messages observedAt identity h =>
        (haccepted record messages observedAt identity h).2⟩
      cases source with
      | none => simp
      | some found => simp [consulted, hresolved found rfl]

end

structure Elsewhere (ref : String) (w next : World) : Prop where
  receipts : ∀ other, other ≠ ref → next.receipts.lookup other = w.receipts.lookup other
  sources : next.sources = w.sources
  lists : next.sourceReceipts = w.sourceReceipts

theorem Elsewhere.refl (ref : String) (w : World) : Elsewhere ref w w := ⟨fun _ _ => rfl,rfl,rfl⟩

theorem Elsewhere.trans {ref : String} {a b c : World} (hab : Elsewhere ref a b)
    (hbc : Elsewhere ref b c) : Elsewhere ref a c :=
  ⟨fun other h => (hbc.receipts other h).trans (hab.receipts other h),hbc.sources.trans hab.sources,
    hbc.lists.trans hab.lists⟩

theorem with_nexus_elsewhere (ref : String) (w : World) (nexus : Nexus) :
    Elsewhere ref w (w.withNexus nexus) := ⟨fun _ _ => rfl,rfl,rfl⟩

theorem put_elsewhere (w : World) (ref : String) (stored : IntakeRecord) :
    Elsewhere ref w (w.putReceipt ref stored) :=
  ⟨fun other h => by rw [lookup_put, if_neg h],rfl,rfl⟩

theorem settle_elsewhere (w : World) (ref : String) (terminal : Progress)
    (result : Option StoredResult) (warnings : List String) :
    Elsewhere ref w (settle w ref terminal result warnings).1 := by
  rcases settle_cases w ref terminal result warnings with
    ⟨-,hw⟩ | ⟨_,-,-,hw⟩ | ⟨_,settled,-,-,-,hw⟩ <;> rw [hw]
  · exact Elsewhere.refl ref w
  · exact Elsewhere.refl ref w
  · exact put_elsewhere w ref settled

/-- What `settle` leaves of a receipt: a result is stored only with the terminal. -/
theorem settle_stores (w : World) (ref : String) (record : IntakeRecord) (terminal : Progress)
    (result : Option StoredResult) (warnings : List String)
    (hr : w.receipts.lookup ref = some record) :
    ∃ later, (settle w ref terminal result warnings).1.receipts.lookup ref = some later ∧
      later.sourceRef = record.sourceRef ∧ later.evidence = record.evidence ∧
      later.result = if record.terminal.isSome then record.result
        else result.orElse fun _ => record.result := by
  cases ht : record.terminal with
  | some t =>
    refine ⟨record,?_,rfl,rfl,by simp⟩
    simp [settle, hr, ht]
  | none =>
    obtain ⟨settled,hw,-,hresult,hsource,hevidence,-⟩ :=
      settle_open w ref record terminal result warnings hr ht
    refine ⟨settled,?_,hsource,hevidence,by simpa using hresult⟩
    rw [hw, lookup_put, if_pos rfl]

section
variable {session : Session}

variable (w : World) (ref : String) (trace : PassTrace)

theorem settle_repair_elsewhere (intent : MemoryIntent) (resolved : ℕ) : Elsewhere ref w
    (settleRepair session w ref trace intent resolved).1 := by
  unfold settleRepair
  split
  · split
    · exact settle_elsewhere w ref _ _ _
    · split
      · exact (with_nexus_elsewhere ref w _).trans (settle_elsewhere _ ref _ _ _)
      · exact (with_nexus_elsewhere ref w _).trans (settle_elsewhere _ ref _ _ _)
  · exact settle_elsewhere w ref _ _ _

theorem settle_repair_stores (intent : MemoryIntent)
    (resolved : ℕ) (record : IntakeRecord) (hr : w.receipts.lookup ref = some record) :
    ∃ later, (settleRepair session w ref trace intent resolved).1.receipts.lookup ref = some later ∧
      later.sourceRef = record.sourceRef ∧ later.evidence = record.evidence ∧
      (record.terminal = none → Repairs session w.nexus trace intent →
        ∀ id ∈ trace.formed.take maxItems, id ∈ memoryRefs later) := by
  have hsettle : ∀ (u : World) terminal result warnings, u.receipts = w.receipts →
      ∃ later, (settle u ref terminal result warnings).1.receipts.lookup ref = some later ∧
        later.sourceRef = record.sourceRef ∧ later.evidence = record.evidence ∧
        later.result = if record.terminal.isSome then record.result
          else result.orElse fun _ => record.result :=
    fun u terminal result warnings hu => settle_stores u ref record terminal result warnings
      (by rw [hu, hr])
  unfold settleRepair
  split
  · rename_i target original htarget horiginal
    split
    · rename_i e hrepair
      obtain ⟨later,hl,hs,he,-⟩ := hsettle w
        (failedProgress ref "recording repair was refused" (failureCode e)) none [] rfl
      refine ⟨later,hl,hs,he,fun _ h => ?_⟩
      obtain ⟨_,_,repair,_,ht,ho,hok,-⟩ := h
      obtain rfl := Option.some.inj (htarget.symm.trans ht)
      obtain rfl := Option.some.inj (horiginal.symm.trans ho)
      rw [hrepair] at hok
      cases hok
    rename_i repair hrepair
    split
    · rename_i nexus e hrefused
      obtain ⟨later,hl,hs,he,-⟩ := hsettle (w.withNexus nexus)
        (failedProgress ref "recording repair was refused" (failureCode e)) none [] rfl
      refine ⟨later,hl,hs,he,fun _ h => ?_⟩
      obtain ⟨_,_,other,_,ht,ho,hok,haccepted⟩ := h
      obtain rfl := Option.some.inj (htarget.symm.trans ht)
      obtain rfl := Option.some.inj (horiginal.symm.trans ho)
      rw [hrepair] at hok
      cases hok
      rw [hrefused] at haccepted
      cases haccepted
    · rename_i nexus repairRef hdone
      obtain ⟨later,hl,hs,he,hresult⟩ := hsettle (w.withNexus nexus)
        ⟨ref,.available,some .formed,some (max resolved nexus.seq),some (max resolved nexus.seq),
          none,none⟩
        (some (.memory (formedSummary .formed (repairRef::trace.formed.take maxItems).length)
          (repairRef::trace.formed.take maxItems)))
        ([]++(if Disposition.formed = .skipped then [skippedWarning] else [])) rfl
      refine ⟨later,hl,hs,he,fun ht _ id hid => ?_⟩
      simp only [ht, Option.isSome_none, Bool.false_eq_true, if_false] at hresult
      simp only [memoryRefs, hresult, Option.orElse_some]
      exact List.mem_cons_of_mem _ hid
  · rename_i hmissing
    obtain ⟨later,hl,hs,he,-⟩ := hsettle w
      (failedProgress ref repairMissing (memoryError "PreconditionFailed" repairMissing)) none [] rfl
    refine ⟨later,hl,hs,he,fun _ h => ?_⟩
    obtain ⟨target,original,_,_,ht,ho,-⟩ := h
    exact absurd ho (hmissing target original ht)

theorem finish_elsewhere : Elsewhere ref w (finishFormation session w ref trace).1 := by
  unfold finishFormation
  split
  · exact Elsewhere.refl ref w
  simp only
  split
  · split
    · exact (put_elsewhere w ref _).trans (settle_repair_elsewhere _ ref trace _ _)
    · exact (put_elsewhere w ref _).trans (settle_elsewhere _ ref _ _ _)
  · exact (put_elsewhere w ref _).trans (settle_elsewhere _ ref _ _ _)

/-- A pass that reports back: its receipt keeps the Evidence of its trace, and takes what it
formed unless the receipt has a terminal already or the repair is refused. -/
theorem finish_stores (record : IntakeRecord) (hr : w.receipts.lookup ref = some record) : ∃ later,
    (finishFormation session w ref trace).1.receipts.lookup ref = some later ∧ later.sourceRef =
    record.sourceRef ∧ (∀ e, e ∈ record.evidence ∨ e ∈ trace.evidence → e ∈ later.evidence) ∧
    (Takes session w.nexus trace record → ∀ id ∈ trace.formed.take maxItems, id ∈ memoryRefs later)
    := by
  unfold finishFormation
  simp only [hr]
  generalize hput : ({ record with
      created := distinct (record.created++trace.created)
      evidence := if trace.evidence.isEmpty then record.evidence
        else distinct (record.evidence++trace.evidence) } : IntakeRecord) = traced
  have hsame : traced.sourceRef = record.sourceRef ∧ traced.terminal = record.terminal ∧
      ∀ e, e ∈ record.evidence ∨ e ∈ trace.evidence → e ∈ traced.evidence := by
    rw [← hput]
    refine ⟨rfl,rfl,fun e he => ?_⟩
    by_cases hempty : trace.evidence.isEmpty
    · simp only [hempty, if_true]
      simpa [List.isEmpty_iff.mp hempty] using he
    · simp only [hempty, Bool.false_eq_true, if_false, mem_distinct, List.mem_append]
      exact he
  obtain ⟨hsource,hterminal,hevidence⟩ := hsame
  have hlookup : (w.putReceipt ref traced).receipts.lookup ref = some traced := by
    simp [lookup_put]
  -- a pass that repairs nothing
  have hplain : ∀ disposition resolved warnings, ∃ later,
      (settleFormed (w.putReceipt ref traced) ref disposition resolved (trace.formed.take maxItems)
        warnings).1.receipts.lookup ref = some later ∧
      later.sourceRef = record.sourceRef ∧
      (∀ e, e ∈ record.evidence ∨ e ∈ trace.evidence → e ∈ later.evidence) ∧
      (Takes session w.nexus trace record →
        ∀ id ∈ trace.formed.take maxItems, id ∈ memoryRefs later) := by
    intro disposition resolved warnings
    obtain ⟨later,hl,hs,he,hresult⟩ := settle_stores (w.putReceipt ref traced) ref traced
      ⟨ref,.available,some disposition,some resolved,some resolved,none,none⟩
      (some (.memory (formedSummary disposition (trace.formed.take maxItems).length)
        (trace.formed.take maxItems)))
      (warnings++(if disposition = .skipped then [skippedWarning] else [])) hlookup
    refine ⟨later,hl,hs.trans hsource,fun e h => he ▸ hevidence e h,fun ht id hid => ?_⟩
    simp only [hterminal, ht.1, Option.isSome_none, Bool.false_eq_true, if_false] at hresult
    simpa [memoryRefs, hresult] using hid
  split
  · rename_i intent hintent
    split
    · rename_i hkind
      obtain ⟨later,hl,hs,he,htaken⟩ := @settle_repair_stores session
        (w.putReceipt ref traced) ref trace intent _ traced hlookup
      refine ⟨later,hl,hs.trans hsource,fun e h => he ▸ hevidence e h,fun ht => ?_⟩
      exact htaken (hterminal.trans ht.1) (ht.2 intent hintent hkind)
    · exact hplain _ _ _
  · exact hplain _ _ _

theorem create_evidence_made (hdoc : session.Erases) (input : ℕ → Message → EvidenceInput)
    (floor : ℕ) (messages : List Message) (index : ℕ) (nexus : Nexus) :
    (∀ id ∈ capturedIds session input nexus index messages, id.kind = .evidence ∧
      ((createEvidence session input floor nexus index messages).1.load id).isSome) ∧
    ∀ ids top, (createEvidence session input floor nexus index messages).2 = .ok (ids,top) →
      ids = capturedIds session input nexus index messages := by
  induction messages generalizing index nexus with
  | nil =>
    refine ⟨fun _ h => (by cases h),fun ids top h => ?_⟩
    cases h
    rfl
  | cons message rest ih =>
    have hstored := hdoc.stored nexus (input index message)
    unfold createEvidence capturedIds
    generalize session.createEvidence nexus (input index message) = x at hstored
    obtain ⟨next,answer⟩ := x
    cases answer with
    | error e => exact ⟨fun _ h => (by cases h),fun _ _ h => (by cases h)⟩
    | ok made =>
      obtain ⟨id,seq⟩ := made
      simp only
      obtain ⟨hmade,hall⟩ := ih (index+1) next
      have hkeeps := create_evidence_moves hdoc.moves input floor rest (index+1) next
      generalize createEvidence session input floor next (index+1) rest = y at hmade hall hkeeps
      obtain ⟨last,answer⟩ := y
      have hloaded : ∀ x ∈ id.toList++capturedIds session input next (index+1) rest,
          x.kind = .evidence ∧ (last.load x).isSome := by
        intro x hx
        rcases List.mem_append.mp hx with hx | hx
        · obtain rfl := Option.mem_toList.mp hx
          obtain ⟨hkind,hload⟩ := hstored x seq rfl
          exact ⟨hkind,hkeeps.loaded hload⟩
        · exact hmade x hx
      cases answer with
      | error e => exact ⟨hloaded,fun _ _ h => by cases h⟩
      | ok rest =>
        refine ⟨hloaded,fun ids top h => ?_⟩
        cases h
        rw [hall rest.1 rest.2 rfl]

theorem capture_elsewhere (site : Site) (w : World) (ref : String) (messages : List Message)
    (observedAt : String) (purpose : Purpose) :
    Elsewhere ref w (captureEvidence site session w ref messages observedAt purpose).1 := by
  unfold captureEvidence
  split
  · exact Elsewhere.refl ref w
  split
  · refine ⟨fun other h => ?_,rfl,rfl⟩
    rw [SortedMap.lookup_erase]
    simp [h]
  · split
    · exact with_nexus_elsewhere ref w _
    · exact (with_nexus_elsewhere ref w _).trans (settle_elsewhere _ ref _ _ _)

/-- What a capture leaves: it records all it created, unless the engine refused a message or the
receipt had a terminal already. -/
theorem capture_stores (hdoc : session.Erases) (site : Site) (w : World) (ref : String)
    (messages : List Message) (observedAt : String) (purpose : Purpose) (record : IntakeRecord)
    (hr : w.receipts.lookup ref = some record)
    (hreferences : purpose.references.all (referenceFound site w.nexus) = true) :
    (∀ id ∈ captures site session w ref messages observedAt purpose, id.kind = .evidence ∧
      ((captureEvidence site session w ref messages observedAt purpose).1.nexus.load id).isSome) ∧
    ∃ later, (captureEvidence site session w ref messages observedAt purpose).1.receipts.lookup ref =
        some later ∧ later.sourceRef = record.sourceRef ∧
      (record.terminal = none → later.terminal.isSome →
        ∀ id ∈ captures site session w ref messages observedAt purpose, id ∈ memoryRefs later) := by
  unfold captureEvidence captures captureInput
  simp only [hr, hreferences, Bool.not_true, Bool.false_eq_true, if_false, Option.map_some,
    Option.getD_some]
  obtain ⟨hmade,hall⟩ := create_evidence_made hdoc
    (evidenceInput site record (originalClass site w.nexus record) purpose.wire purpose.about
      observedAt) record.acceptedSeq messages 0 w.nexus
  generalize capturedIds session _ w.nexus 0 messages = made at hmade hall
  generalize createEvidence session _ record.acceptedSeq w.nexus 0 messages = x at hmade hall
  obtain ⟨nexus,answer⟩ := x
  cases answer with
  | error e =>
    refine ⟨hmade,record,hr,rfl,fun ht hterm => ?_⟩
    rw [ht] at hterm
    cases hterm
  | ok pair =>
    obtain ⟨ids,top⟩ := pair
    obtain rfl := hall ids top rfl
    simp only
    obtain ⟨later,hl,hs,-,hresult⟩ := settle_stores (w.withNexus nexus) ref record
      ⟨ref,.available,some .evidenceOnly,some top,some top,none,none⟩
      (some (.memory (capturedSummary purpose ids.length) ids)) purpose.warnings hr
    refine ⟨fun id hid => ?_,later,hl,hs,fun ht _ id hid => ?_⟩
    · rw [World.nexus, settle_managed]
      exact hmade id hid
    · simp only [ht, Option.isSome_none, Bool.false_eq_true, if_false] at hresult
      simpa [memoryRefs, hresult] using hid

end

structure SameSources (w next : World) : Prop where
  sources : ∀ ref, (next.sources.lookup ref).map StagedSource.sourceRef =
    (w.sources.lookup ref).map StagedSource.sourceRef
  lists : next.sourceReceipts = w.sourceReceipts

theorem SameSources.of_eq {w next : World} (hs : next.sources = w.sources)
    (hl : next.sourceReceipts = w.sourceReceipts) : SameSources w next := ⟨fun _ => by rw [hs],hl⟩

theorem SameSources.keyed {w next : World} (h : SameSources w next) (hk : Keyed w) :
    Keyed next := by
  intro ref staged hstaged
  have hsame := h.sources ref
  rw [hstaged] at hsame
  cases hw : w.sources.lookup ref with
  | none => simp [hw] at hsame
  | some old =>
    simp only [hw, Option.map_some, Option.some.injEq] at hsame
    rw [hsame]
    exact hk ref old hw

theorem SameSources.listed {w next : World} (h : SameSources w next) {source ref : String}
    (hl : Listed w source ref) : Listed next source ref := by
  intro hstarts
  obtain ⟨hstaged,hin⟩ := hl hstarts
  refine ⟨?_,fun listed hlisted => hin listed (h.lists ▸ hlisted)⟩
  have hsame := congrArg Option.isSome (h.sources source)
  simpa [hstaged] using hsame

theorem erase_staged_sources (refs : List String) (w : World) :
    SameSources w (refs.foldl eraseStaged w) := by
  induction refs generalizing w with
  | nil => exact SameSources.of_eq rfl rfl
  | cons ref rest ih =>
    rw [List.foldl_cons]
    have hone : SameSources w (eraseStaged w ref) := by
      unfold eraseStaged
      split
      · exact SameSources.of_eq rfl rfl
      rename_i staged hstaged
      refine ⟨fun other => ?_,rfl⟩
      rw [SortedMap.lookup_insert]
      by_cases heq : other = ref
      · subst heq
        simp [hstaged]
      · simp [heq]
    have hrest := ih (eraseStaged w ref)
    exact ⟨fun other => (hrest.sources other).trans (hone.sources other),
      hrest.lists.trans hone.lists⟩

theorem settle_forget_elsewhere (w : World) (ref : String) (record : IntakeRecord) (seq : ℕ)
    (verdict : ForgetStatus × String) :
    Elsewhere ref w (settleForget w ref record seq verdict).1 := by
  unfold settleForget
  split
  · exact settle_elsewhere w ref _ _ _
  · exact settle_elsewhere w ref _ _ _
  · exact put_elsewhere w ref _

theorem forget_sources (site : Site) (session : Session) (w : World) (now : ℕ) (ns space : String)
    (request : ForgetRequest) (owner : Bool) : SameSources w
    (forget site session w now ns space request owner).1 ∧ ∀ ref record, w.receipts.lookup ref =
    some record → (forget site session w now ns space request owner).1.receipts.lookup ref = some
    record := by
  have hstay : SameSources w w := SameSources.of_eq rfl rfl
  unfold forget
  split
  · exact ⟨hstay,fun _ _ h => h⟩
  cases hfresh : w.receipts.lookup (forgetRef site ns space request.idempotencyKey) with
  | some existing =>
    simp only [hfresh]
    split <;> exact ⟨hstay,fun _ _ h => h⟩
  | none =>
    simp only [hfresh]
    generalize forgetRef site ns space request.idempotencyKey = own at hfresh
    generalize forgetReceipt site w now ns own request = bound
    refine ⟨?_,fun ref record hr => ?_⟩
    · have hput : SameSources w (w.putReceipt own bound) := SameSources.of_eq rfl rfl
      have hsettled : ∀ (u : World) terminal result warnings, SameSources w u →
          SameSources w (settle u own terminal result warnings).1 := by
        intro u terminal result warnings hu
        have helse := settle_elsewhere u own terminal result warnings
        exact ⟨fun ref => by rw [helse.sources, hu.sources ref],helse.lists.trans hu.lists⟩
      unfold runForget
      split
      · exact hsettled _ _ _ _ hput
      split
      · exact hsettled _ _ _ _ ⟨hput.sources,hput.lists⟩
      rename_i loc _ _ swept _
      simp only
      have hcleared := erase_staged_sources
        (clearable (w.putReceipt own bound) swept.suppressed loc.staged)
        { w.putReceipt own bound with managed := swept.managed }
      have hdone : ∀ u : World, SameSources { w.putReceipt own bound with
          managed := swept.managed } u → ∀ seq verdict,
          SameSources w (settleForget u own bound seq verdict).1 := by
        intro u hu seq verdict
        have helse := settle_forget_elsewhere u own bound seq verdict
        exact ⟨fun ref => by rw [helse.sources, hu.sources ref]; rfl,
          helse.lists.trans hu.lists⟩
      split
      · exact hdone _ (by exact ⟨hcleared.sources,hcleared.lists⟩) _ _
      · exact hdone _ hcleared _ _
    · have hne : ref ≠ own := by
        rintro rfl
        rw [hfresh] at hr
        cases hr
      rw [run_forget_other site session _ now ns own ref request bound hne, lookup_put, if_neg hne,
        hr]

def createdBy (result : OperationResult) : List ElementId :=
  if result.committed then
    result.changes.filterMap fun change => if change.create then change.id else none
  else []

theorem note_changes_created (changes : List Change) (trace : PassTrace) :
    (changes.foldl noteChange trace).created =
      trace.created++changes.filterMap (fun change => if change.create then change.id else none) := by
  induction changes generalizing trace with
  | nil => simp
  | cons change rest ih =>
    rw [List.foldl_cons, ih]
    obtain ⟨create,id⟩ := change
    cases id with
    | none => cases create <;> simp [noteChange]
    | some id =>
      cases create <;> by_cases hkind : id.kind = .evidence <;> simp [noteChange, hkind]

theorem trace_created (results : List OperationResult) :
    (traceOf results).created = results.flatMap createdBy := by
  have hfold : ∀ trace : PassTrace,
      (results.foldl noteResult trace).created = trace.created++results.flatMap createdBy := by
    induction results with
    | nil => simp
    | cons result rest ih =>
      intro trace
      rw [List.foldl_cons, ih, List.flatMap_cons, ← List.append_assoc]
      congr 1
      by_cases hcommitted : result.committed
      · simp only [noteResult, createdBy, hcommitted, if_true]
        exact note_changes_created result.changes _
      · simp [noteResult, createdBy, hcommitted]
  simpa [traceOf] using hfold ⟨[],[],[],[],none⟩

theorem trace_evidence (results : List OperationResult) (id : ElementId)
    (h : id ∈ (traceOf results).created) (hkind : id.kind = .evidence) :
    id ∈ (traceOf results).evidence := by
  have hchange : ∀ (trace : PassTrace) change,
      (id ∈ trace.created → id ∈ trace.evidence) →
      (id ∈ (noteChange trace change).created → id ∈ (noteChange trace change).evidence) := by
    intro trace change htrace
    unfold noteChange
    cases hid : change.id with
    | none => exact htrace
    | some other =>
      by_cases hother : other.kind = .evidence
      · cases change.create <;> simp only [hother, if_true, Bool.false_eq_true, if_false,
          List.mem_append, List.mem_singleton]
        · exact fun h => .inl (htrace h)
        · exact fun h => h.imp_left htrace
      cases change.create <;> simp only [hother, if_true, Bool.false_eq_true, if_false,
        List.mem_append, List.mem_singleton]
      · exact htrace
      · rintro (h | rfl)
        · exact htrace h
        · exact absurd hkind hother
  have hchanges : ∀ (changes : List Change) (trace : PassTrace),
      (id ∈ trace.created → id ∈ trace.evidence) →
      (id ∈ (changes.foldl noteChange trace).created →
        id ∈ (changes.foldl noteChange trace).evidence) := by
    intro changes
    induction changes with
    | nil => exact fun _ htrace => htrace
    | cons change rest ih => exact fun trace htrace => ih _ (hchange trace change htrace)
  have hresults : ∀ (results : List OperationResult) (trace : PassTrace),
      (id ∈ trace.created → id ∈ trace.evidence) →
      (id ∈ (results.foldl noteResult trace).created →
        id ∈ (results.foldl noteResult trace).evidence) := by
    intro results
    induction results with
    | nil => exact fun _ htrace => htrace
    | cons result rest ih =>
      intro trace htrace
      refine ih _ ?_
      unfold noteResult
      split
      · exact hchanges result.changes _ htrace
      · exact htrace
  exact hresults results ⟨[],[],[],[],none⟩ (fun h => nomatch h) h

end AndaBrain.WorkerMemory
