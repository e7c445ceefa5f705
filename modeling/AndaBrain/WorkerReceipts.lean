import AndaBrain.WorkerForget

/-!
# What the Worker reports of a receipt

A receipt has ended once it has a terminal or a stored result.
-/

set_option autoImplicit false

namespace AndaBrain.WorkerMemory
open Foundation Product

/-- A call on the ledger. What the object does elsewhere leaves the receipts alone. -/
inductive LedgerCall where
  | read (ns receiptRef : String)
  | intake (ns space : String) (request : MemoryRequest)
  | finish (receiptRef : String) (trace : PassTrace)
  | fault (receiptRef : String) (error : Failure)
  | capture (receiptRef : String) (messages : List Message) (observedAt : String)
      (purpose : Purpose)
  | erase (ns space : String) (request : ForgetRequest) (owner : Bool)
  | elsewhere (next : World)

inductive Reply where
  | told (receiptRef : String) (record : IntakeRecord)
  | bound (receiptRef : String)
  | refused (error : Failure)
  | silent

def tell (receiptRef : String) (x : World × Except Failure IntakeRecord) : World × Reply :=
  match x with
  | (w,.ok record) => (w,.told receiptRef record)
  | (w,.error e) => (w,.refused e)

theorem tell_world (receiptRef : String) (x : World × Except Failure IntakeRecord) :
    (tell receiptRef x).1 = x.1 := by
  obtain ⟨w,answer⟩ := x
  cases answer <;> rfl

section
variable (site : Site) (session : Session)

def ledgerStep (w : World) (now : ℕ) : LedgerCall → World × Reply
  | .read ns ref => tell ref (progress w now ns ref)
  | .intake ns space request =>
    let ref := receiptRefOf site ns space request.operation request.idempotencyKey
    match admitRequest site session w now ns space request with
    | (next,.ok (.replay record)) => (next,.told ref record)
    | (next,.ok (.accepted _ _ _ _)) => (next,.bound ref)
    | (next,.error e) => (next,.refused e)
  | .finish ref trace => tell ref (finishFormation session w ref trace)
  | .fault ref error => tell ref (failFormation w ref error)
  | .capture ref messages observedAt purpose =>
    tell ref (captureEvidence site session w ref messages observedAt purpose)
  | .erase ns space request owner =>
    tell (forgetRef site ns space request.idempotencyKey)
      (forget site session w now ns space request owner)
  | .elsewhere next => ({ next with receipts := w.receipts },.silent)

def ledgerRun (w : World) : List (ℕ × LedgerCall) → World
  | [] => w
  | (now,call)::rest => ledgerRun (ledgerStep site session w now call).1 rest

end

def IntakeRecord.Ended (record : IntakeRecord) : Prop :=
  record.terminal.isSome ∨ record.result.isSome

def QuietRead (w : World) (now : ℕ) (ns ref : String) : Prop :=
  ∀ record, recordOf w ns ref = .ok record → record.result.isSome → record.abandoned now = false

def QuietReads (now : ℕ) (ns : String) : World → List String → Prop
  | _, [] => True
  | w, ref::rest => QuietRead w now ns ref ∧
      ∀ next record, progress w now ns ref = (next,.ok record) →
        record.progress.phase ≠ .failed → QuietReads now ns next rest

def SettlesRun (w : World) (ref : String) : Prop :=
  ∀ record, w.receipts.lookup ref = some record → record.result.isSome → record.terminal.isSome

def RetainsReceipt (site : Site) (w : World) (ref : String) (purpose : Purpose) : Prop :=
  ∀ record, w.receipts.lookup ref = some record → record.Ended →
    purpose.references.all (referenceFound site w.nexus)

def predecessorsOf (site : Site) (w : World) (ns : String) (request : MemoryRequest) :
    List String :=
  if request.operation = .forget then []
  else
    match resolveSource site w ns request.sourceRef with
    | .ok source => source.order.elim [] SourceOrder.predecessorReceipts
    | .error _ => []

/-- The calls that leave every ended receipt as it was reported, by the state before them. -/
def Steady (site : Site) (session : Session) (w : World) (now : ℕ) : LedgerCall → Prop
  | .read ns ref => QuietRead w now ns ref
  | .intake ns space request =>
    let ref := receiptRefOf site ns space request.operation request.idempotencyKey
    if (w.receipts.lookup ref).isSome then QuietRead w now ns ref
    else
      QuietReads now ns (w.withNexus (resolveScope site session w.nexus request.scope).1)
        (predecessorsOf site w ns request)
  | .finish ref _ => SettlesRun w ref
  | .fault ref _ => SettlesRun w ref
  | .capture ref _ _ purpose => SettlesRun w ref ∧ RetainsReceipt site w ref purpose
  | .erase _ _ _ _ => True
  | .elsewhere _ => True

def SteadyRun (site : Site) (session : Session) : World → List (ℕ × LedgerCall) → Prop
  | _, [] => True
  | w, (now,call)::rest => Steady site session w now call ∧
      SteadyRun site session (ledgerStep site session w now call).1 rest

structure SameReport (record later : IntakeRecord) : Prop where
  terminal : later.terminal = record.terminal
  result : later.result = record.result
  warnings : later.warnings = record.warnings
  receiptRef : later.receiptRef = record.receiptRef
  ns : later.ns = record.ns
  createdAt : later.createdAt = record.createdAt

theorem SameReport.refl (record : IntakeRecord) : SameReport record record :=
  ⟨rfl,rfl,rfl,rfl,rfl,rfl⟩

theorem SameReport.trans {a b c : IntakeRecord} (hab : SameReport a b) (hbc : SameReport b c) :
    SameReport a c :=
  ⟨hbc.terminal.trans hab.terminal,hbc.result.trans hab.result,hbc.warnings.trans hab.warnings,
    hbc.receiptRef.trans hab.receiptRef,hbc.ns.trans hab.ns,hbc.createdAt.trans hab.createdAt⟩

theorem SameReport.report {a b : IntakeRecord} (h : SameReport a b) : b.report = a.report := by
  simp [IntakeRecord.report, IntakeRecord.progress, h.terminal, h.result, h.warnings, h.receiptRef]

theorem SameReport.ended {a b : IntakeRecord} (h : SameReport a b) (ha : a.Ended) : b.Ended := by
  simpa [IntakeRecord.Ended, h.terminal, h.result] using ha

def ReportsKept (w next : World) : Prop :=
  ∀ ref record, w.receipts.lookup ref = some record → record.Ended →
    ∃ later, next.receipts.lookup ref = some later ∧ SameReport record later

theorem reports_kept_of_lookups (w next : World)
    (h : ∀ ref, next.receipts.lookup ref = w.receipts.lookup ref) : ReportsKept w next := by
  intro ref record hr _
  exact ⟨record,by rw [h ref, hr],SameReport.refl record⟩

variable (w : World) (now : ℕ) (ref : String)

theorem reports_kept_refl : ReportsKept w w := reports_kept_of_lookups w w fun _ => rfl

theorem reports_kept_trans {a b c : World} (hab : ReportsKept a b) (hbc : ReportsKept b c) :
    ReportsKept a c := by
  intro ref record hr hended
  obtain ⟨mid,hm,hsame⟩ := hab ref record hr hended
  obtain ⟨later,hl,hlater⟩ := hbc ref mid hm (hsame.ended hended)
  exact ⟨later,hl,hsame.trans hlater⟩

theorem lookup_put (ref other : String) (record : IntakeRecord) :
    (w.putReceipt ref record).receipts.lookup other =
      if other = ref then some record else w.receipts.lookup other :=
  SortedMap.lookup_insert w.receipts ref other record

theorem put_keeps (stored : IntakeRecord)
    (h : ∀ record, w.receipts.lookup ref = some record → record.Ended → SameReport record stored) :
    ReportsKept w (w.putReceipt ref stored) := by
  intro other record hr hended
  rw [lookup_put]
  by_cases heq : other = ref
  · subst heq
    simpa using h record hr hended
  · rw [if_neg heq]
    exact ⟨record,hr,SameReport.refl record⟩

/-- What `settle` does: it answers with the stored record, which has a terminal. -/
theorem settle_cases (terminal : Progress)
    (result : Option StoredResult) (warnings : List String) :
    (w.receipts.lookup ref = none ∧
      settle w ref terminal result warnings = (w,.error (notFound "receipt"))) ∨
    (∃ record, w.receipts.lookup ref = some record ∧ record.terminal.isSome ∧
      settle w ref terminal result warnings = (w,.ok record)) ∨
    (∃ record settled, w.receipts.lookup ref = some record ∧ record.terminal = none ∧
      settled.terminal = some terminal ∧
      settle w ref terminal result warnings = (w.putReceipt ref settled,.ok settled)) := by
  unfold settle
  cases hr : w.receipts.lookup ref with
  | none => exact .inl ⟨rfl,rfl⟩
  | some record =>
    cases ht : record.terminal with
    | some t => exact .inr (.inl ⟨record,rfl,by simp [ht],by simp [ht]⟩)
    | none =>
      simp only [ht, Option.isSome_none, Bool.false_eq_true, if_false]
      exact .inr (.inr ⟨record,_,rfl,ht,rfl,rfl⟩)

theorem settle_keeps (terminal : Progress) (result : Option StoredResult) (warnings : List String)
    (h : SettlesRun w ref) : ReportsKept w (settle w ref terminal result warnings).1 := by
  rcases settle_cases w ref terminal result warnings with
    ⟨-,hw⟩ | ⟨_,-,-,hw⟩ | ⟨record,settled,hr,ht,-,hw⟩
  · rw [hw]
    exact reports_kept_refl w
  · rw [hw]
    exact reports_kept_refl w
  rw [hw]
  refine put_keeps w ref settled fun found hf hended => ?_
  obtain rfl : record = found := Option.some.inj (hr.symm.trans hf)
  -- an ended record without a terminal holds a result, and `h` gives it a terminal
  rcases hended with hterm | hresult
  · simp [ht] at hterm
  · simpa [ht] using h record hr hresult

theorem settle_answer (w next : World) (ref : String) (terminal : Progress)
    (result : Option StoredResult) (warnings : List String) (record : IntakeRecord)
    (h : settle w ref terminal result warnings = (next,.ok record)) :
    next.receipts.lookup ref = some record ∧ record.terminal.isSome := by
  rcases settle_cases w ref terminal result warnings with
    ⟨-,hw⟩ | ⟨found,hr,ht,hw⟩ | ⟨_,settled,-,-,ht,hw⟩ <;> rw [hw] at h <;> cases h
  · exact ⟨hr,ht⟩
  · rw [lookup_put]
    simp [ht]

theorem record_of_lookup (ns ref : String) (record : IntakeRecord)
    (h : recordOf w ns ref = .ok record) : w.receipts.lookup ref = some record ∧ record.ns = ns := by
  unfold recordOf at h
  split at h
  · cases h
  split at h
  · cases h
  rename_i found hr
  split at h
  · cases h
  · rename_i hns
    cases h
    exact ⟨hr,not_not.mp hns⟩

theorem progress_keeps (ns ref : String) (h : QuietRead w now ns ref) :
    ReportsKept w (progress w now ns ref).1 := by
  unfold progress
  cases hr : recordOf w ns ref with
  | error e => exact reports_kept_refl w
  | ok record =>
    simp only
    split
    · rename_i habandoned
      refine settle_keeps w ref _ _ _ fun found hf hresult => ?_
      have hlookup := (record_of_lookup w ns ref record hr).1
      obtain rfl : record = found := Option.some.inj (hlookup.symm.trans hf)
      rw [h record hr hresult] at habandoned
      cases habandoned
    · exact reports_kept_refl w

theorem progress_answer (w next : World) (now : ℕ) (ns ref : String) (record : IntakeRecord)
    (h : progress w now ns ref = (next,.ok record)) : next.receipts.lookup ref = some record := by
  unfold progress at h
  cases hr : recordOf w ns ref with
  | error e =>
    simp [hr] at h
  | ok found =>
    simp only [hr] at h
    split at h
    · exact (settle_answer w next ref _ _ _ record h).1
    · cases h
      exact (record_of_lookup w ns ref record hr).1

theorem read_predecessors_keep (ns : String) (refs : List String) (w : World)
    (h : QuietReads now ns w refs) : ReportsKept w (readPredecessors now ns w refs).1 := by
  induction refs generalizing w with
  | nil => exact reports_kept_refl w
  | cons ref rest ih =>
    have hread := progress_keeps w now ns ref h.1
    unfold readPredecessors
    cases hp : progress w now ns ref with
    | mk next answer =>
      rw [hp] at hread
      cases answer with
      | error e => exact hread
      | ok record =>
        simp only
        split
        · exact hread
        · rename_i hphase
          exact reports_kept_trans hread (ih next (h.2 next record hp hphase))

theorem with_nexus_keeps (nexus : Nexus) : ReportsKept w (w.withNexus nexus) :=
  reports_kept_of_lookups w _ fun _ => rfl

theorem list_receipt_receipts (sourceRef ref : String) :
    (listReceipt w sourceRef ref).receipts = w.receipts := by
  unfold listReceipt
  split
  · split
    · rfl
    · split <;> rfl
  · rfl

theorem read_predecessors_fresh (ns : String) (refs : List String) (w : World)
    (ref : String) (h : w.receipts.lookup ref = none) :
    (readPredecessors now ns w refs).1.receipts.lookup ref = none := by
  induction refs generalizing w with
  | nil => exact h
  | cons other rest ih =>
    have hstep : (progress w now ns other).1.receipts.lookup ref = none := by
      unfold progress
      cases hr : recordOf w ns other with
      | error e => exact h
      | ok record =>
        simp only
        split
        · rcases settle_cases w other (abandonedProgress other) none [] with
            ⟨-,hw⟩ | ⟨_,-,-,hw⟩ | ⟨found,settled,hf,-,-,hw⟩
          · rw [hw]
            exact h
          · rw [hw]
            exact h
          rw [hw, lookup_put]
          have hne : ref ≠ other := by
            rintro rfl
            rw [h] at hf
            cases hf
          simpa [hne] using h
        · exact h
    unfold readPredecessors
    cases hp : progress w now ns other with
    | mk next answer =>
      rw [hp] at hstep
      cases answer with
      | error e => exact hstep
      | ok record =>
        simp only
        split
        · exact hstep
        · exact ih next hstep

section
variable (site : Site) (session : Session)

variable (w : World) (ref : String)

theorem accept_keeps (now : ℕ) (ns ref : String) (request : MemoryRequest)
    (source : Option ResolvedSource) (hfresh : w.receipts.lookup ref = none)
    (h : QuietReads now ns (w.withNexus (resolveScope site session w.nexus request.scope).1)
      ((source.bind ResolvedSource.order).elim [] SourceOrder.predecessorReceipts)) :
    ReportsKept w (accept site session w now ns ref request source).1 := by
  unfold accept
  cases hs : resolveScope site session w.nexus request.scope with
  | mk nexus answer =>
    rw [hs] at h
    cases answer with
    | error e => exact with_nexus_keeps w nexus
    | ok scope =>
      have hread := reports_kept_trans (with_nexus_keeps w nexus)
        (read_predecessors_keep now ns _ _ h)
      have hnone := read_predecessors_fresh now ns
        ((source.bind ResolvedSource.order).elim [] SourceOrder.predecessorReceipts)
        (w.withNexus nexus) ref hfresh
      simp only
      generalize readPredecessors now ns (w.withNexus nexus)
        ((source.bind ResolvedSource.order).elim [] SourceOrder.predecessorReceipts) = x at hread hnone
      obtain ⟨next,answer⟩ := x
      cases answer with
      | error e => exact hread
      | ok u =>
        simp only
        cases intentOf site next request with
        | error e => exact hread
        | ok intent =>
          simp only
          refine reports_kept_trans hread ?_
          have hput : ∀ stored : IntakeRecord, ReportsKept next (next.putReceipt ref stored) := by
            intro stored
            refine put_keeps next ref stored fun found hf => ?_
            rw [hnone] at hf
            cases hf
          have hlist : ∀ stored : World, ReportsKept stored
              ((source.map ResolvedSource.ref).elim stored (listReceipt stored · ref)) := by
            intro stored
            refine reports_kept_of_lookups _ _ fun other => ?_
            cases source with
            | none => rfl
            | some s => simp [list_receipt_receipts]
          exact reports_kept_trans (hput _) (hlist _)

theorem intake_keeps (now : ℕ) (ns space : String) (request : MemoryRequest)
    (h : Steady site session w now (.intake ns space request)) :
    ReportsKept w (admitRequest site session w now ns space request).1 := by
  simp only [Steady] at h
  simp only [admitRequest]
  cases hr : w.receipts.lookup
      (receiptRefOf site ns space request.operation request.idempotencyKey) with
  | some existing =>
    simp only [hr, Option.isSome_some, if_true] at h
    have hread := progress_keeps w now ns _ h
    generalize (if request.operation = .forget then Except.ok none
      else (resolveSource site w ns request.sourceRef).map some) = source
    simp only
    split
    · exact reports_kept_refl w
    split
    · exact reports_kept_refl w
    generalize progress w now ns
      (receiptRefOf site ns space request.operation request.idempotencyKey) = x at hread
    obtain ⟨next,answer⟩ := x
    cases answer <;> exact hread
  | none =>
    simp only [hr, Option.isSome_none, Bool.false_eq_true, if_false, predecessorsOf] at h
    by_cases hop : request.operation = .forget
    · simp only [hop, if_true] at h ⊢
      rw [hop] at hr
      exact accept_keeps site session w now ns _ request none hr h
    simp only [hop, if_false] at h ⊢
    cases hsource : resolveSource site w ns request.sourceRef with
    | error e => exact reports_kept_refl w
    | ok source =>
      simp only [hsource] at h
      exact accept_keeps site session w now ns _ request (some source) hr h

theorem settle_formed_keeps (disposition : Disposition) (resolved : ℕ)
    (refs : List ElementId) (warnings : List String) (h : SettlesRun w ref) :
    ReportsKept w (settleFormed w ref disposition resolved refs warnings).1 :=
  settle_keeps w ref _ _ _ h

theorem settle_repair_keeps (trace : PassTrace) (intent : MemoryIntent)
    (resolved : ℕ) (h : SettlesRun w ref) :
    ReportsKept w (settleRepair session w ref trace intent resolved).1 := by
  have hnexus : ∀ nexus, SettlesRun (w.withNexus nexus) ref := fun _ => h
  unfold settleRepair
  split
  · split
    · exact settle_keeps w ref _ _ _ h
    split
    · exact reports_kept_trans (with_nexus_keeps w _) (settle_keeps _ ref _ _ _ (hnexus _))
    · exact reports_kept_trans (with_nexus_keeps w _)
        (settle_formed_keeps _ ref _ _ _ _ (hnexus _))
  · exact settle_keeps w ref _ _ _ h

theorem finish_keeps (trace : PassTrace) (h : SettlesRun w ref) :
    ReportsKept w (finishFormation session w ref trace).1 := by
  unfold finishFormation
  cases hr : w.receipts.lookup ref with
  | none => exact reports_kept_refl w
  | some record =>
    simp only
    generalize htraced : ({ record with created := _, evidence := _ } : IntakeRecord) = traced
    have hsame : SameReport record traced := by
      rw [← htraced]
      exact ⟨rfl,rfl,rfl,rfl,rfl,rfl⟩
    have hput : ReportsKept w (w.putReceipt ref traced) := by
      refine put_keeps w ref traced fun found hf _ => ?_
      obtain rfl : record = found := Option.some.inj (hr.symm.trans hf)
      exact hsame
    have hrun : SettlesRun (w.putReceipt ref traced) ref := by
      intro found hf hresult
      rw [lookup_put, if_pos rfl] at hf
      cases hf
      rw [hsame.terminal]
      rw [hsame.result] at hresult
      exact h record hr hresult
    refine reports_kept_trans hput ?_
    cases record.intent with
    | none => exact settle_formed_keeps _ ref _ _ _ _ hrun
    | some intent =>
      simp only
      split
      · exact settle_repair_keeps session _ ref trace intent _ hrun
      · exact settle_formed_keeps _ ref _ _ _ _ hrun

theorem capture_keeps (messages : List Message) (observedAt : String)
    (purpose : Purpose) (h : SettlesRun w ref) (hfound : RetainsReceipt site w ref purpose) :
    ReportsKept w (captureEvidence site session w ref messages observedAt purpose).1 := by
  unfold captureEvidence
  cases hr : w.receipts.lookup ref with
  | none => exact reports_kept_refl w
  | some record =>
    simp only
    split
    · rename_i hmissing
      -- the receipt is dropped, so it had not ended
      intro other kept hk hended
      by_cases heq : other = ref
      · subst heq
        obtain rfl : record = kept := Option.some.inj (hr.symm.trans hk)
        simp [hfound record hr hended] at hmissing
      · refine ⟨kept,?_,SameReport.refl kept⟩
        simp [SortedMap.lookup_erase, heq, hk]
    · generalize createEvidence session _ _ w.nexus 0 messages = x
      obtain ⟨nexus,answer⟩ := x
      cases answer with
      | error e => exact with_nexus_keeps w nexus
      | ok made =>
        have hrun : SettlesRun (w.withNexus nexus) ref := h
        exact reports_kept_trans (with_nexus_keeps w nexus) (settle_keeps _ ref _ _ _ hrun)

theorem capture_answer (w next : World) (ref : String) (messages : List Message)
    (observedAt : String) (purpose : Purpose) (record : IntakeRecord)
    (h : captureEvidence site session w ref messages observedAt purpose = (next,.ok record)) :
    next.receipts.lookup ref = some record ∧ record.terminal.isSome := by
  unfold captureEvidence at h
  cases hr : w.receipts.lookup ref with
  | none => simp [hr] at h
  | some found =>
    simp only [hr] at h
    split at h
    · simp at h
    generalize createEvidence session _ _ w.nexus 0 messages = x at h
    obtain ⟨nexus,answer⟩ := x
    cases answer with
    | error e => simp at h
    | ok made => exact settle_answer _ next ref _ _ _ record h

theorem settle_repair_answer (w next : World) (ref : String) (trace : PassTrace)
    (intent : MemoryIntent) (resolved : ℕ) (record : IntakeRecord)
    (h : settleRepair session w ref trace intent resolved = (next,.ok record)) :
    next.receipts.lookup ref = some record ∧ record.terminal.isSome := by
  unfold settleRepair at h
  split at h
  · split at h
    · exact settle_answer _ next ref _ _ _ record h
    · split at h
      · exact settle_answer _ next ref _ _ _ record h
      · exact settle_answer _ next ref _ _ _ record h
  · exact settle_answer _ next ref _ _ _ record h

theorem finish_answer (w next : World) (ref : String) (trace : PassTrace) (record : IntakeRecord)
    (h : finishFormation session w ref trace = (next,.ok record)) :
    next.receipts.lookup ref = some record ∧ record.terminal.isSome := by
  unfold finishFormation at h
  cases hr : w.receipts.lookup ref with
  | none => simp [hr] at h
  | some found =>
    simp only [hr] at h
    cases hi : found.intent with
    | none =>
      simp only [hi] at h
      exact settle_answer _ next ref _ _ _ record h
    | some intent =>
      simp only [hi] at h
      split at h
      · exact settle_repair_answer session _ next ref trace intent _ record h
      · exact settle_answer _ next ref _ _ _ record h

end

theorem erase_staged_receipts (refs : List String) (w : World) :
    (refs.foldl eraseStaged w).receipts = w.receipts := by
  induction refs generalizing w with
  | nil => rfl
  | cons ref rest ih =>
    rw [List.foldl_cons, ih]
    unfold eraseStaged
    split <;> rfl

theorem settle_other (w : World) (ref other : String) (terminal : Progress)
    (result : Option StoredResult) (warnings : List String) (h : other ≠ ref) :
    (settle w ref terminal result warnings).1.receipts.lookup other = w.receipts.lookup other := by
  rcases settle_cases w ref terminal result warnings with
    ⟨-,hw⟩ | ⟨_,-,-,hw⟩ | ⟨_,settled,-,-,-,hw⟩ <;> rw [hw]
  simp [lookup_put, h]

theorem settle_forget_other (w : World) (ref other : String) (record : IntakeRecord) (seq : ℕ)
    (verdict : ForgetStatus × String) (h : other ≠ ref) :
    (settleForget w ref record seq verdict).1.receipts.lookup other = w.receipts.lookup other := by
  unfold settleForget
  split
  · exact settle_other w ref other _ _ _ h
  · exact settle_other w ref other _ _ _ h
  · simp [lookup_put, h]

theorem settle_forget_answer (w next : World) (ref : String) (record stored : IntakeRecord)
    (seq : ℕ) (verdict : ForgetStatus × String)
    (h : settleForget w ref record seq verdict = (next,.ok stored)) :
    next.receipts.lookup ref = some stored ∧ stored.Ended := by
  unfold settleForget at h
  split at h
  · exact (settle_answer w next ref _ _ _ stored h).imp_right .inl
  · exact (settle_answer w next ref _ _ _ stored h).imp_right .inl
  · cases h
    exact ⟨by simp [lookup_put],.inr rfl⟩

section
variable (site : Site) (session : Session)

variable (w : World) (now : ℕ)

theorem run_forget_other (ns ref other : String) (request : ForgetRequest) (record : IntakeRecord)
    (h : other ≠ ref) : (runForget site session w now ns ref request record).1.receipts.lookup other
    = w.receipts.lookup other := by
  unfold runForget
  split
  · exact settle_other w ref other _ _ _ h
  split
  · exact settle_other _ ref other _ _ _ h
  · simp only
    rw [settle_forget_other _ ref other _ _ _ h]
    split <;> simp [erase_staged_receipts]

theorem run_forget_answer (w next : World) (now : ℕ) (ns ref : String) (request : ForgetRequest)
    (record stored : IntakeRecord)
    (h : runForget site session w now ns ref request record = (next,.ok stored)) :
    next.receipts.lookup ref = some stored ∧ stored.Ended := by
  unfold runForget at h
  split at h
  · exact (settle_answer _ next ref _ _ _ stored h).imp_right .inl
  · split at h
    · exact (settle_answer _ next ref _ _ _ stored h).imp_right .inl
    · exact settle_forget_answer _ next ref _ stored _ _ h

theorem forget_keeps (ns space : String) (request : ForgetRequest)
    (owner : Bool) : ReportsKept w (forget site session w now ns space request owner).1 := by
  unfold forget
  split
  · exact reports_kept_refl w
  cases hr : w.receipts.lookup (forgetRef site ns space request.idempotencyKey) with
  | some existing =>
    simp only [hr]
    split <;> exact reports_kept_refl w
  | none =>
    simp only [hr]
    intro other record hother _
    have hne : other ≠ forgetRef site ns space request.idempotencyKey := by
      rintro rfl
      rw [hr] at hother
      cases hother
    rw [run_forget_other site session _ now ns _ other request _ hne, lookup_put, if_neg hne]
    exact ⟨record,hother,SameReport.refl record⟩

theorem forget_answer (w next : World) (now : ℕ) (ns space : String) (request : ForgetRequest)
    (owner : Bool) (stored : IntakeRecord)
    (h : forget site session w now ns space request owner = (next,.ok stored)) :
    next.receipts.lookup (forgetRef site ns space request.idempotencyKey) = some stored ∧
    (w.receipts.lookup (forgetRef site ns space request.idempotencyKey) = none → stored.Ended) := by
  unfold forget at h
  split at h
  · cases h
  cases hr : w.receipts.lookup (forgetRef site ns space request.idempotencyKey) with
  | some existing =>
    simp only [hr] at h
    split at h
    · cases h
    · cases h
      exact ⟨hr,fun hnone => nomatch hnone⟩
  | none =>
    simp only [hr] at h
    have hanswer := run_forget_answer site session _ next now ns _ request _ stored h
    exact ⟨hanswer.1,fun _ => hanswer.2⟩

theorem step_keeps (call : LedgerCall) (h : Steady site session w now call) :
    ReportsKept w (ledgerStep site session w now call).1 := by
  cases call with
  | read ns ref =>
    simp only [ledgerStep, tell_world]
    exact progress_keeps w now ns ref h
  | intake ns space request =>
    have hkept := intake_keeps site session w now ns space request h
    simp only [ledgerStep]
    generalize admitRequest site session w now ns space request = x at hkept
    obtain ⟨next,answer⟩ := x
    rcases answer with e | ⟨record⟩ | ⟨record,messages,observedAt,identity⟩ <;> exact hkept
  | finish ref trace =>
    simp only [ledgerStep, tell_world]
    exact finish_keeps session w ref trace h
  | fault ref error =>
    simp only [ledgerStep, tell_world]
    exact settle_keeps w ref _ _ _ h
  | capture ref messages observedAt purpose =>
    simp only [ledgerStep, tell_world]
    exact capture_keeps site session w ref messages observedAt purpose h.1 h.2
  | erase ns space request owner =>
    simp only [ledgerStep, tell_world]
    exact forget_keeps site session w now ns space request owner
  | elsewhere next => exact reports_kept_of_lookups w _ fun _ => rfl

theorem run_keeps (run : List (ℕ × LedgerCall)) (w : World) (h : SteadyRun site session w run) :
    ReportsKept w (ledgerRun site session w run) := by
  induction run generalizing w with
  | nil => exact reports_kept_refl w
  | cons entry rest ih =>
    obtain ⟨now,call⟩ := entry
    exact reports_kept_trans (step_keeps site session w now call h.1) (ih _ h.2)

def Concludes (site : Site) (w : World) : LedgerCall → Prop
  | .finish _ _ => True
  | .fault _ _ => True
  | .capture _ _ _ _ => True
  | .erase ns space request _ =>
    w.receipts.lookup (forgetRef site ns space request.idempotencyKey) = none
  | _ => False

theorem tell_told (ref told : String) (x : World × Except Failure IntakeRecord) (next : World)
    (record : IntakeRecord) (h : tell ref x = (next,.told told record)) :
    told = ref ∧ x = (next,.ok record) := by
  obtain ⟨w,answer⟩ := x
  cases answer with
  | error e => cases h
  | ok found =>
    cases h
    exact ⟨rfl,rfl⟩

theorem told_stored (w next : World) (now : ℕ) (call : LedgerCall) (ref : String)
    (record : IntakeRecord) (h : ledgerStep site session w now call = (next,.told ref record)) :
    next.receipts.lookup ref = some record ∧ (Concludes site w call → record.Ended) := by
  cases call with
  | read ns r =>
    obtain ⟨rfl,hx⟩ := tell_told r ref _ next record h
    exact ⟨progress_answer w next now ns ref record hx,fun hc => hc.elim⟩
  | intake ns space request =>
    refine ⟨?_,fun hc => hc.elim⟩
    simp only [ledgerStep] at h
    cases hx : admitRequest site session w now ns space request with
    | mk after answer =>
      rw [hx] at h
      rcases answer with e | ⟨found⟩ | ⟨found,messages,observedAt,identity⟩
      · cases h
      · cases h
        simp only [admitRequest] at hx
        split at hx
        · split at hx
          · cases hx
          generalize (if request.operation = .forget then Except.ok none
            else (resolveSource site w ns request.sourceRef).map some) = source at hx
          split at hx
          · cases hx
          split at hx
          · cases hx
          · rename_i hp
            cases hx
            exact progress_answer w _ now ns _ _ hp
        · generalize (if request.operation = .forget then Except.ok none
            else (resolveSource site w ns request.sourceRef).map some) = source at hx
          cases source with
          | error e => cases hx
          | ok source =>
            simp only [accept] at hx
            split at hx
            · cases hx
            · split at hx
              · cases hx
              · split at hx <;> cases hx
      · cases h
  | finish r trace =>
    obtain ⟨rfl,hx⟩ := tell_told r ref _ next record h
    have hanswer := finish_answer session w next ref trace record hx
    exact ⟨hanswer.1,fun _ => .inl hanswer.2⟩
  | fault r error =>
    obtain ⟨rfl,hx⟩ := tell_told r ref _ next record h
    have hanswer := settle_answer w next ref _ _ _ record hx
    exact ⟨hanswer.1,fun _ => .inl hanswer.2⟩
  | capture r messages observedAt purpose =>
    obtain ⟨rfl,hx⟩ := tell_told r ref _ next record h
    have hanswer := capture_answer site session w next ref messages observedAt purpose record hx
    exact ⟨hanswer.1,fun _ => .inl hanswer.2⟩
  | erase ns space request owner =>
    obtain ⟨rfl,hx⟩ := tell_told _ ref _ next record h
    exact forget_answer site session w next now ns space request owner record hx
  | elsewhere after => cases h

theorem read_answered (ref : String) (record : IntakeRecord)
    (hhandle : isHandle "rcpt-" ref = true) (hr : w.receipts.lookup ref = some record) : ∃ next
    found, ledgerStep site session w now (.read record.ns ref) = (next,.told ref found) := by
  have hrecord : recordOf w record.ns ref = .ok record := by simp [recordOf, hhandle, hr]
  simp only [ledgerStep, progress, hrecord]
  split
  · rcases settle_cases w ref (abandonedProgress ref) none [] with
      ⟨hnone,-⟩ | ⟨found,-,-,hw⟩ | ⟨_,settled,-,-,-,hw⟩
    · rw [hr] at hnone
      cases hnone
    · rw [hw]
      exact ⟨_,_,rfl⟩
    · rw [hw]
      exact ⟨_,_,rfl⟩
  · exact ⟨_,_,rfl⟩

/-- An overdue receipt without a terminal is reported as failed, whatever result it holds. -/
theorem overdue_read (ref : String) (record : IntakeRecord)
    (hhandle : isHandle "rcpt-" ref = true) (hr : w.receipts.lookup ref = some record)
    (hterm : record.terminal = none) (hlate : record.createdAt+abandonedMs < now) : ∃ last found,
    ledgerStep site session w now (.read record.ns ref) = (last,.told ref found) ∧ found.report =
    ⟨.failed,some outcomeUnknown,record.result,record.warnings⟩ := by
  have hrecord : recordOf w record.ns ref = .ok record := by simp [recordOf, hhandle, hr]
  have hover : record.abandoned now = true := by simp [IntakeRecord.abandoned, hterm, hlate]
  simp only [ledgerStep, progress, hrecord, hover, if_true, settle, hr, hterm,
    Option.isSome_none, Bool.false_eq_true, if_false, tell]
  exact ⟨_,_,rfl,rfl⟩

/-- Once the call that ran an operation has answered, every later answer about its receipt
reports the same, and a reader of its namespace gets one, in every run of calls that are
steady. -/
theorem answered_receipts_stay (w next : World) (now : ℕ) (call : LedgerCall) (ref : String)
    (record : IntakeRecord)
    (hanswer : ledgerStep site session w now call = (next,.told ref record))
    (hconcludes : Concludes site w call) (run : List (ℕ × LedgerCall)) (later : ℕ)
    (asked : LedgerCall) (hrun : SteadyRun site session next (run++[(later,asked)])) :
    (∀ last found, ledgerStep site session (ledgerRun site session next run) later asked =
        (last,.told ref found) → found.report = record.report) ∧
    (isHandle "rcpt-" ref = true → asked = .read record.ns ref →
      ∃ last found, ledgerStep site session (ledgerRun site session next run) later asked =
        (last,.told ref found) ∧ found.report = record.report) := by
  obtain ⟨hstored,hended⟩ := told_stored site session w next now call ref record hanswer
  have hsplit : ∀ (run : List (ℕ × LedgerCall)) (u : World),
      SteadyRun site session u (run++[(later,asked)]) →
        SteadyRun site session u run ∧
          Steady site session (ledgerRun site session u run) later asked := by
    intro run
    induction run with
    | nil => exact fun u h => ⟨trivial,h.1⟩
    | cons entry rest ih => exact fun u h => ⟨⟨h.1,(ih _ h.2).1⟩,(ih _ h.2).2⟩
  obtain ⟨hbefore,hlast⟩ := hsplit run next hrun
  obtain ⟨kept,hkept,hsame⟩ :=
    run_keeps site session run next hbefore ref record hstored (hended hconcludes)
  have hsteps := step_keeps site session _ later asked hlast ref kept hkept
    (hsame.ended (hended hconcludes))
  have hreport : ∀ last found, ledgerStep site session (ledgerRun site session next run) later
      asked = (last,.told ref found) → found.report = record.report := by
    intro last found htold
    obtain ⟨after,hafter,hafterSame⟩ := hsteps
    rw [htold] at hafter
    have hfound := (told_stored site session _ last later asked ref found htold).1
    obtain rfl : found = after := Option.some.inj (hfound.symm.trans hafter)
    exact hafterSame.report.trans hsame.report
  refine ⟨hreport,fun hhandle hasked => ?_⟩
  subst hasked
  rw [← hsame.ns]
  obtain ⟨last,found,htold⟩ := read_answered site session _ later ref kept hhandle hkept
  rw [hsame.ns] at htold ⊢
  exact ⟨last,found,htold,hreport last found htold⟩

end

/-! A Concept forgotten by its owner: it is purged, and the receipt ends as partial. -/

def insight : ElementId := ⟨.concept,1⟩

def insightRow (state : ElementState) : Row where
  space := "brain"
  state
  version := 1
  readable := true
  legalHold := false
  className := "Insight"
  propositionId := insight
  actor := none
  evidenceRefs := []
  endpoints := []
  clientKey := .other ""
  payloadDigest := none
  contentDigest := ""
  observedAt := none

def insightNexus (state : ElementState) : Nexus where
  space := "brain"
  seq := 7
  load := fun id => if id = insight then some (insightRow state) else none
  referrers := fun _ => []
  internal := 0

def freshProduct : ProductStore := ⟨0,none,none,fun _ => none,fun _ _ => none,∅,fun _ => none⟩

def insightSession : Session where
  purge := fun _ request => (insightNexus .purged,.ok ⟨true,[request.id]⟩)
  dryRun := fun nexus _ => (nexus,.ok ())
  purgePayload := fun nexus _ => (nexus,.ok ())
  createEvidence := fun nexus _ => (nexus,.ok (none,none))
  repairRecording := fun nexus _ => (nexus,.ok ⟨.activity,1⟩)
  findScope := fun _ _ => .ok none
  createScope := fun nexus _ => (nexus,.ok "C-2")
  assertionsOn := fun _ _ => .ok []
  validateErasurePlan := fun _ _ => .ok ()

def plainSite : Site where
  preview := fun _ => ""
  changeKey := id
  hexId := fun _ => "0000000000000000000000000000000000000000"
  meaning := fun _ _ => ""
  forgetMeaning := fun target _ => target
  parseId := fun text => if text = "C-1" then some insight else none
  evidenceMessage := fun _ _ => ⟨"user",none,.null⟩
  evidenceClassOf := id
  isoOf := fun n => toString n

def insightWorld : World :=
  ⟨⟨insightNexus .active,freshProduct⟩,SortedMap.empty,SortedMap.empty,SortedMap.empty,fun _ => []⟩

def forgetInsight : LedgerCall := .erase "api" "brain" ⟨"key",.element insight,.semantic⟩ true

def insightReceipt : String := forgetRef plainSite "api" "brain" "key"

def forgotten : World := (ledgerStep plainSite insightSession insightWorld 0 forgetInsight).1

def insightSummary : List String := ["partial: "++unenumeratedSummary insight]

def insightResult : StoredResult :=
  .erasure .incomplete (planRefOf insightReceipt) (unenumeratedSummary insight)

theorem forget_insight_partial : ∃ record, ledgerStep plainSite insightSession insightWorld 0
    forgetInsight = (forgotten,.told insightReceipt record) ∧ record.report =
    ⟨.recorded,none,some insightResult,insightSummary⟩ ∧ record.terminal = none ∧ record.createdAt =
    0 ∧ record.ns = "api" :=
  ⟨_,rfl,rfl,rfl,rfl,rfl⟩

/-- A forget that answered as partial is reported as failed, with an unknown outcome, by the
first read ten minutes later. -/
theorem partial_forget_turns_unknown : ¬∀ (site : Site) (session : Session) (w next last : World)
    (now later : ℕ) (call asked : LedgerCall) (run : List (ℕ × LedgerCall)) (ref : String)
    (record found : IntakeRecord), w.receipts = SortedMap.empty → Concludes site w call → ledgerStep
    site session w now call = (next,.told ref record) → (now::(run.map Prod.fst++[later])).Pairwise
    (· ≤ ·) → ledgerStep site session (ledgerRun site session next run) later asked =
    (last,.told ref found) → found.report = record.report := by
  intro h
  obtain ⟨record,htold,hreport,hterm,hcreated,hns⟩ := forget_insight_partial
  have hstored := (told_stored plainSite insightSession _ _ 0 forgetInsight _ record htold).1
  have hlate : record.createdAt+abandonedMs < 600001 := by
    rw [hcreated]
    decide
  obtain ⟨last,found,hlater,hunknown⟩ :=
    overdue_read plainSite insightSession forgotten 600001 insightReceipt record rfl hstored hterm
      hlate
  have hsame := h plainSite insightSession insightWorld forgotten last 0 600001 forgetInsight _ []
    insightReceipt record found rfl rfl htold (by simp) hlater
  have hphase := congrArg Report.phase hsame
  rw [hreport, hunknown] at hphase
  cases hphase

/-- Read within ten minutes, the same forget is reported as it was answered. -/
theorem answered_receipts_stay_forgotten : ∃ record last found, ledgerStep plainSite insightSession
    insightWorld 0 forgetInsight = (forgotten,.told insightReceipt record) ∧ ledgerStep plainSite
    insightSession forgotten 600000 (.read record.ns insightReceipt) =
    (last,.told insightReceipt found) ∧ found.report = record.report := by
  obtain ⟨record,htold,-,hterm,hcreated,-⟩ := forget_insight_partial
  have hstored := (told_stored plainSite insightSession _ _ 0 forgetInsight _ record htold).1
  have hsteady : SteadyRun plainSite insightSession forgotten
      ([]++[(600000,.read record.ns insightReceipt)]) := by
    refine ⟨fun found hfound _ => ?_,trivial⟩
    have hlookup := (record_of_lookup forgotten _ insightReceipt found hfound).1
    obtain rfl : record = found := Option.some.inj (hstored.symm.trans hlookup)
    simp [IntakeRecord.abandoned, hcreated, abandonedMs]
  obtain ⟨last,found,hlater,hsame⟩ :=
    (answered_receipts_stay plainSite insightSession insightWorld forgotten 0 forgetInsight
      insightReceipt record htold rfl [] 600000 _ hsteady).2 rfl rfl
  exact ⟨record,last,found,htold,hlater,hsame⟩

end AndaBrain.WorkerMemory
