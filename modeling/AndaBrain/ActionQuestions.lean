import AndaBrain.ActionRuns

/-!
# Questions stay as they were saved

The recipient and the deadline of a reply are fixed by the prepared gate of its question.
-/

set_option autoImplicit false

namespace AndaBrain.Action
open Foundation.Resumption Foundation.ConditionalStore

structure Question where
  recipient : Option String
  deadline : Option ℕ
  deriving DecidableEq

def PreparedGate.question (p : PreparedGate) : Question := ⟨p.recipient,p.replyDeadlineMs⟩

def Job.question (job : Job) : Option Question := job.prepared.map PreparedGate.question

def asked (w : World) (scope : RuntimeScope) (reference : WakeRef) : Option Question :=
  (value w.directory (.job scope reference)).bind Job.question

def replied (w : World) (scope : RuntimeScope) (gate : WakeRef) : Option Reply :=
  value w.directory (.reply scope gate)

structure Calm (a b : World) : Prop where
  asked : ∀ scope reference, asked b scope reference = asked a scope reference
  replied : ∀ scope gate, replied b scope gate = replied a scope gate

structure Moves (a b : World) : Prop where
  asked : ∀ scope reference q, asked a scope reference = some q →
    asked b scope reference = some q
  replied : ∀ scope gate, replied b scope gate = replied a scope gate

def Fits (job : Job) (w : World) : Prop :=
  ∀ q, asked w job.scope job.wakeRef = some q → job.question = some q

section Worlds
variable {w t : World} {job : Job}

theorem calm_trans (a b c : World) (h : Calm a b) (h' : Calm b c) : Calm a c :=
  ⟨fun scope reference => (h'.asked scope reference).trans (h.asked scope reference),
    fun scope gate => (h'.replied scope gate).trans (h.replied scope gate)⟩

theorem calm_refl (w : World) : Calm w w := ⟨fun _ _ => rfl,fun _ _ => rfl⟩

theorem moves_of_calm (h : Calm w t) : Moves w t := by
  refine ⟨?_,h.replied⟩
  intro scope reference q hq
  rw [h.asked]
  exact hq

theorem calm_directory (h : t.directory = w.directory) : Calm w t := by
  constructor
  · intro scope reference
    rw [asked, asked, h]
  · intro scope gate
    rw [replied, replied, h]

theorem fits_calm (h : Calm w t) (hf : Fits job w) : Fits job t := by
  intro q hq
  rw [h.asked] at hq
  exact hf q hq

theorem fits_same (next : Job) (hf : Fits job w) (hs : next.scope = job.scope)
    (hr : next.wakeRef = job.wakeRef) (hp : next.prepared = job.prepared) : Fits next w := by
  intro q hq
  rw [hs, hr] at hq
  rw [Job.question, hp]
  exact hf q hq

theorem asked_written (job : Job) (scope : RuntimeScope) (reference : WakeRef) :
    asked (written w (.job scope reference) job) scope reference = job.question :=
  congrArg (fun found => found.bind Job.question)
    (value_place w.directory (.job scope reference) job)

theorem asked_written_other (k : Key) (v : Entry k) (scope : RuntimeScope)
    (reference : WakeRef) (h : Key.job scope reference ≠ k) :
    asked (written w k v) scope reference = asked w scope reference :=
  congrArg (fun found => found.bind Job.question)
    (value_place_of_ne w.directory k (.job scope reference) v h)

theorem replied_written_other (k : Key) (v : Entry k) (scope : RuntimeScope) (gate : WakeRef)
    (h : Key.reply scope gate ≠ k) : replied (written w k v) scope gate = replied w scope gate :=
  value_place_of_ne w.directory k (.reply scope gate) v h

theorem calm_written (k : Key) (v : Entry k) (hj : ∀ scope reference, Key.job scope reference ≠ k)
    (hr : ∀ scope gate, Key.reply scope gate ≠ k) : Calm w (written w k v) :=
  ⟨fun scope reference => asked_written_other k v scope reference (hj scope reference),
    fun scope gate => replied_written_other k v scope gate (hr scope gate)⟩

theorem calm_saved (job : Job) (h : asked w job.scope job.wakeRef = job.question) :
    Calm w (written w (.job job.scope job.wakeRef) job) := by
  constructor
  · intro scope reference
    by_cases hk : Key.job scope reference = .job job.scope job.wakeRef
    · cases hk
      rw [asked_written, h]
    · exact asked_written_other _ _ _ _ hk
  · intro scope gate
    exact replied_written_other _ _ _ _ (fun h => nomatch h)

theorem moves_saved (job : Job) (hf : Fits job w) :
    Moves w (written w (.job job.scope job.wakeRef) job) := by
  constructor
  · intro scope reference q hq
    by_cases hk : Key.job scope reference = .job job.scope job.wakeRef
    · cases hk
      rw [asked_written]
      exact hf q hq
    · exact (asked_written_other (.job job.scope job.wakeRef) job scope reference hk).trans hq
  · intro scope gate
    exact replied_written_other _ _ _ _ (fun h => nomatch h)

theorem fits_saved (job : Job) : Fits job (written w (.job job.scope job.wakeRef) job) := by
  intro q hq
  rw [asked_written] at hq
  exact hq

end Worlds

section Rules
variable {w : World} {job : Job} {α β : Type} {Q : α → World → Prop} {R : β → World → Prop}

theorem calm_frame {ε : Type} {E : ε → World → Prop} (p : Prog ε Env World α)
    (h : Safe Calm Q E p w) :
    Safe Calm (fun a t => Q a t ∧ Calm w t) (fun e t => E e t ∧ Calm w t) p w :=
  safe_mono p w (safe_frame (Calm w) (fun a b hab ha => calm_trans w a b ha hab) p w h
    (calm_refl w)) (fun _ _ hg => hg.1) (fun _ _ hq => hq) fun _ _ he => he

theorem calm_then (p : M α) (f : α → M β) (hp : Safe Calm Q Any p w)
    (hf : ∀ a t, Calm w t → Q a t → Safe Calm R Any (f a) t) : Safe Calm R Any (p >>= f) w := by
  apply safe_bind
  exact safe_mono p w (calm_frame p hp) (fun _ _ hg => hg) (fun a t h => hf a t h.2 h.1)
    fun _ _ _ => trivial

def AtFault (X : Job → World → Prop) (fault : Fault) (w : World) : Prop := X fault.job w

section Entries
variable {G : World → World → Prop} {X : Job → World → Prop}

theorem job_refuse (c : Prop) [Decidable c] (e : String) (f : Unit → J β) (hj : X job w)
    (hf : ¬c → Safe G R (AtFault X) (f ()) w) :
    Safe G R (AtFault X) (withJob job (refuseIf c e) >>= f) w := by
  by_cases hc : c
  · rw [refuseIf, if_pos hc]
    exact hj
  · rw [refuseIf, if_neg hc]
    exact hf hc

theorem job_still (p : M α) (f : α → J β) (hp : Safe (fun _ _ => False) Q Any p w)
    (hj : X job w) (hf : ∀ a, Q a w → Safe G R (AtFault X) (f a) w) :
    Safe G R (AtFault X) (withJob job p >>= f) w := by
  apply safe_still (withJob job p) f w (fault_job p job hp) _ hf
  intro fault hfault
  show X fault.job w
  rw [hfault]
  exact hj

theorem job_after (p : M α) (f : α → J β) (hp : Silent p) (hj : X job w)
    (hf : ∀ a, Safe G R (AtFault X) (f a) w) : Safe G R (AtFault X) (withJob job p >>= f) w := by
  have hs : Safe (fun _ _ => False) (fun _ _ => True) Any p w :=
    safe_silent p w hp (fun _ => trivial) fun _ => trivial
  exact job_still p f hs hj fun a _ => hf a

end Entries

def Bears (p : J Job) (w : World) : Prop := Safe Moves Fits (AtFault Fits) p w

theorem bears_calm (p : M α) (f : α → J β) (hp : Safe Calm Q Any p w) (hj : Fits job w)
    (hf : ∀ a t, Fits job t → Q a t → Safe Moves R (AtFault Fits) (f a) t) :
    Safe Moves R (AtFault Fits) (withJob job p >>= f) w := by
  apply safe_bind
  apply safe_mono _ w (calm_frame _ (fault_job p job hp)) (fun _ _ hg => moves_of_calm hg)
  · intro a t h
    exact hf a t (fits_calm h.2 hj) h.1
  intro fault t h
  show Fits fault.job t
  rw [h.1]
  exact fits_calm h.2 hj

theorem bears_bind (p : J α) (f : α → J β) (hp : Safe Moves Q (AtFault Fits) p w)
    (hf : ∀ a t, Q a t → Safe Moves R (AtFault Fits) (f a) t) :
    Safe Moves R (AtFault Fits) (p >>= f) w := by
  apply safe_bind
  exact safe_mono p w hp (fun _ _ hg => hg) hf fun _ _ he => he

end Rules

section Journal
variable {w : World}

theorem directory_put_frame {G : World → World → Prop} (k : Key) (v : Entry k) (mode : PutMode)
    (P : World → Prop)
    (hg : admits mode (w.directory.cells k) = true → G w (written w k v))
    (hw : admits mode (w.directory.cells k) = true → P (written w k v)) (hs : P w) :
    Safe G (fun _ t => P t) (fun _ t => P t) (directoryPut k v mode) w := by
  have back : ∀ t : World, P t → ∀ reported : Option String,
      Safe G (fun _ t => P t) (fun _ t => P t) (do
        let stored ← (read k : M _)
        refuseIf (stored.map Versioned.value ≠ some v) (reported.getD (Serves.conflict Env))) t := by
    intro t ht reported
    apply safe_bind
    apply safe_read
    · exact safe_refuse _ _ _ (fun _ => ht) fun _ => ht
    · intro _
      exact ht
  apply safe_bind
  exact safe_put_opts k v mode w hg (fun reported ha => back _ (hw ha) reported)
    fun reported => back w hs reported

variable (reference : WakeRef) (job : Job) (p : PreparedGate)

theorem save_moves (hf : Fits job w) :
    Safe Moves (fun _ t => Fits job t) (fun _ t => Fits job t) (save job) w := by
  apply safe_bind
  apply safe_read
  · exact directory_put_frame (.job job.scope job.wakeRef) job _ (fun t => Fits job t)
      (fun _ => moves_saved job hf) (fun _ => fits_saved job) hf
  · intro _
    exact hf

theorem save_calm (h : asked w job.scope job.wakeRef = job.question) :
    Safe Calm (fun _ _ => True) Any (save job) w := by
  apply safe_bind
  apply safe_read _ _ _ fun _ => trivial
  exact directory_put_frame (.job job.scope job.wakeRef) job _ (fun _ => True)
    (fun _ => calm_saved job h) (fun _ => trivial) trivial

theorem bears_save (f : Unit → J Job) (hf : Fits job w)
    (hn : ∀ t, Fits job t → Bears (f ()) t) : Bears (withJob job (save job) >>= f) w := by
  apply safe_bind
  apply safe_map_fail
  exact safe_mono _ w (save_moves job hf) (fun _ _ hg => hg) (fun _ t ht => hn t ht)
    fun _ _ he => he

structure SameGate (job next : Job) : Prop where
  scope : next.scope = job.scope
  wakeRef : next.wakeRef = job.wakeRef
  prepared : next.prepared = job.prepared

theorem same_gate_trans (a b c : Job) (h : SameGate a b) (h' : SameGate b c) : SameGate a c :=
  ⟨h'.scope.trans h.scope,h'.wakeRef.trans h.wakeRef,h'.prepared.trans h.prepared⟩

theorem fits_gate (job next : Job) (h : SameGate job next) (hf : Fits job w) : Fits next w :=
  fits_same next hf h.scope h.wakeRef h.prepared

/-- A program that works on the gate of `job` and changes no question. -/
def Minds (job : Job) (p : J Job) (w : World) : Prop :=
  Safe Calm (fun next _ => SameGate job next) (AtFault fun next _ => SameGate job next) p w

theorem read_output_gate (id : String) (row : OutputRow) :
    SameGate job (readOutput job p id row) := ⟨rfl,rfl,rfl⟩

theorem read_outputs_minds (outputs : List String) (job next : Job)
    (h : SameGate job next) : Minds job (readOutputs p outputs next) w := by
  induction outputs generalizing next with
  | nil => exact job_refuse _ _ _ h fun _ => h
  | cons id rest ih =>
    rw [readOutputs]
    apply safe_ite
    · intro _
      apply job_after _ _ (silent_query _) h
      intro row
      exact ih _ (same_gate_trans _ _ _ h (read_output_gate next p id row))
    · intro _
      exact ih next h

theorem committed_gate (job next : Job) (p : PreparedGate) (h : SameGate job next) :
    SameGate job (committedJob next p) := by
  apply same_gate_trans _ _ _ h
  unfold committedJob
  split <;> exact ⟨rfl,rfl,rfl⟩

theorem native_calm {α : Type} (act : Env → World → World) (f : Env → World → Except String α)
    (h : ∀ i, (act i w).directory = w.directory) :
    Safe Calm (fun _ _ => True) Any (atomic act f) w :=
  safe_atomic act f w (fun i => Or.inr (calm_directory (h i))) (fun _ _ _ => trivial)
    fun _ _ _ => trivial

theorem finish_wake_calm :
    Safe Calm (fun _ _ => True) Any (finishWake reference p) w := by
  apply native_calm
  intro i
  split <;> rfl

theorem commit_minds : Minds job (commit reference job) w := by
  have hsame : SameGate job job := ⟨rfl,rfl,rfl⟩
  apply job_after _ _ (silent_lift _) hsame
  intro p
  apply safe_bind
  apply safe_mono _ w (fault_job _ job (finish_wake_calm reference p)) (fun _ _ hg => hg)
  · intro outputs t _
    apply safe_bind
    apply safe_mono _ t (read_outputs_minds p outputs job { job with outputs := outputs }
      ⟨rfl,rfl,rfl⟩) (fun _ _ hg => hg)
    · intro next u hn
      exact committed_gate job next p hn
    · intro fault u hf
      exact hf
  · intro fault t hf
    show SameGate job fault.job
    rw [hf]
    exact hsame

theorem commit_bears (hf : Fits job w) : Bears (commit reference job) w := by
  apply safe_mono _ w (calm_frame _ (commit_minds reference job)) (fun _ _ hg => moves_of_calm hg)
  · intro next t h
    exact fits_gate job next h.1 (fits_calm h.2 hf)
  · intro fault t h
    exact fits_gate job fault.job h.1 (fits_calm h.2 hf)

theorem load_asked (scope : RuntimeScope) (reference : WakeRef) :
    Safe (fun _ _ => False) (fun found _ => asked w scope reference = found.bind Job.question ∧
      ∀ job, found = some job → job.scope = scope ∧ job.wakeRef = reference) Any
      (load scope reference) w := by
  apply safe_bind
  apply safe_read _ _ _ fun _ => trivial
  cases hc : w.directory.cells (.job scope reference) with
  | none =>
    refine ⟨congrArg (fun found => found.bind Job.question) (value_none _ _ hc),?_⟩
    intro job h
    cases h
  | some row =>
    apply safe_guard
    intro hv
    refine ⟨congrArg (fun found => found.bind Job.question) (value_cell _ _ row hc),?_⟩
    intro job h
    cases h
    simp only [Job.valid, Bool.not_eq_true', Bool.not_eq_false, Bool.and_eq_true,
      decide_eq_true_eq] at hv
    exact ⟨hv.1.1.1,hv.1.1.2⟩

theorem confirm_parent_calm (host : Host) (parent : WakeRef) (scope : RuntimeScope) :
    Safe Calm (fun job t => job.wakeRef = parent ∧ asked t scope parent = job.question) Any
      (confirmParent host parent scope) w := by
  apply safe_still _ _ _ (load_asked scope parent) fun _ _ => trivial
  intro found hfound
  apply safe_need
  intro job hjob
  obtain ⟨hs,hr⟩ := hfound.2 job hjob
  have hq : asked w scope parent = job.question := by
    rw [hfound.1, hjob]
    rfl
  apply safe_look
  intro wake
  apply safe_guard
  intro _
  apply safe_guard
  intro _
  apply calm_then _ _ (any_fault _ (commit_minds parent job))
  intro next t hk hn
  have hscope : next.scope = scope := hn.scope.trans hs
  have hwake : next.wakeRef = parent := hn.wakeRef.trans hr
  have hnq : next.question = job.question := congrArg (Option.map _) hn.prepared
  have hstored : asked t next.scope next.wakeRef = next.question := by
    rw [hscope, hwake, hk.asked, hq, hnq]
  have repaired : Safe Calm (fun _ _ => True) Any
      (doIf ((job.status.state != .committed || job.outputs.isEmpty) = true) (save next)) t :=
    safe_do_if _ _ t (fun _ => save_calm next hstored) fun _ => trivial
  apply calm_then _ _ repaired
  intro _ u hk' _
  refine ⟨hwake,?_⟩
  rw [hk'.asked, hk.asked, hq, hnq]

end Journal

section Gate
variable {host : Host} {w : World}

theorem other_owner_calm (owner : WakeRef) (scope : RuntimeScope) :
    Safe Calm (fun _ _ => True) Any (otherOwner host owner scope) w := by
  have parent : Safe Calm (fun _ _ => True) Any (attempt (confirmParent host owner scope)) w :=
    safe_attempt _ w (safe_mono _ w (confirm_parent_calm host owner scope) (fun _ _ hg => hg)
      (fun _ _ _ => trivial) fun _ _ _ => trivial)
  apply calm_then _ _ parent
  intro parent t _ _
  apply safe_look
  intro original
  apply safe_look
  intro source
  exact safe_ite _ _ _ _ (fun _ => trivial) fun _ => trivial

theorem deduplicate_calm (q : ActionRequest) :
    Safe Calm (fun _ _ => True) Any (deduplicate host q) w := by
  rw [deduplicate]
  cases q.context.deduplicationKey with
  | none => trivial
  | some id =>
    apply safe_bind
    apply safe_read _ _ _ fun _ => trivial
    cases w.directory.cells (.dedup q.scope id) with
    | none =>
      have placed : Safe Calm (fun _ _ => True) Any (directoryPut (.dedup q.scope id)
          ⟨q.scope,q.pins,q.gateWakeRef,q.digest⟩ .create) w :=
        directory_put_frame _ _ _ (fun _ => True)
          (fun _ => calm_written _ _ (fun _ _ h => by cases h) fun _ _ h => by cases h)
          (fun _ => trivial) trivial
      exact calm_then _ _ placed fun _ _ _ _ => trivial
    | some old =>
      apply safe_ite
      · intro _
        trivial
      intro _
      apply safe_ite
      · intro _
        trivial
      · intro _
        exact calm_then _ _ (other_owner_calm _ _) fun _ _ _ _ => trivial

variable (wake : WakeRecord) (job : Job)

theorem prepare_silent (capture : Capture)
    (proposal : Proposal) : Silent (prepare host wake job capture proposal) := by
  apply silent_bind _ _ (silent_query _)
  intro receipt
  apply silent_bind
  · apply silent_bind _ _ (silent_query _)
    intro now
    cases proposal with
    | act _ _ _ => exact silent_bind _ _ (silent_query _) fun _ => trivial
    | ask _ _ _ => exact silent_bind _ _ (silent_lift _) fun _ => trivial
    | defer _ => trivial
    | silence _ _ => trivial
  · intro prepared
    exact silent_bind _ _ (silent_query _) fun _ => trivial

theorem settle_calm (capture : Capture) (p : PreparedGate) :
    Safe Calm (fun _ _ => True) Any (settle host wake job capture p) w := by
  rw [settle]
  cases p.request with
  | none => trivial
  | some q =>
    apply safe_after _ _ _ (silent_attempt _ (authorize_silent q)) fun _ => trivial
    intro authorized
    cases authorized with
    | error e =>
      exact safe_after _ _ _ (prepare_silent wake job capture _) (fun _ => trivial)
        fun _ => trivial
    | ok _ =>
      apply safe_ite
      · intro _
        apply calm_then _ _ (deduplicate_calm q)
        intro answer t _ _
        cases answer with
        | none => trivial
        | some reason =>
          exact safe_after _ _ _ (prepare_silent wake job capture _) (fun _ => trivial)
            fun _ => trivial
      · intro _
        trivial

theorem prepare_gate_calm (timedOut : Bool) :
    Safe Calm (fun _ _ => True) Any (prepareGate host wake job timedOut) w := by
  apply safe_look
  intro request
  apply safe_after _ _ _ (read_capture_silent request) fun _ => trivial
  intro capture
  apply safe_after _ _ _ (suggest_silent capture timedOut) fun _ => trivial
  intro proposal
  apply safe_look
  intro fits
  apply safe_after _ _ _ (allowed_silent _) fun _ => trivial
  intro silenceAllowed
  apply safe_after _ _ _ (prepare_silent wake job capture _) fun _ => trivial
  intro p
  exact settle_calm wake job capture p

theorem store_prepared_bears (p : PreparedGate) (hf : Fits job w)
    (hq : job.prepared = none ∨ job.question = some p.question) :
    Bears (storePrepared job p) w := by
  have hn : Fits { job with prepared := some p } w := by
    intro q hq'
    have hjob := hf q hq'
    rcases hq with hq | hq
    · rw [Job.question, hq] at hjob
      cases hjob
    · rw [← hjob, hq]
      rfl
  exact bears_save _ _ hn fun t ht => ht

theorem refresh_prepared_bears (p : PreparedGate)
    (hf : Fits job w) (hp : job.prepared = some p) : Bears (refreshPrepared wake job p) w := by
  apply safe_ite
  · intro _
    apply job_after _ _ (silent_query _) hf
    intro _
    apply store_prepared_bears job _ hf
    right
    rw [Job.question, hp]
    rfl
  · intro _
    exact hf

theorem ensure_prepared_bears (timedOut : Bool)
    (hf : Fits job w) : Bears (ensurePrepared host wake job timedOut) w := by
  rw [ensurePrepared]
  cases hp : job.prepared with
  | some p => exact refresh_prepared_bears wake job p hf hp
  | none =>
    apply bears_calm _ _ (prepare_gate_calm wake job timedOut) hf
    intro p t hft _
    exact store_prepared_bears job p hft (Or.inl hp)

theorem settle_clarification_bears (capture : Capture)
    (p : PreparedGate) (hf : Fits job w) :
    Safe Moves (fun settled t => Fits settled.1 t ∧ settled.1.prepared = job.prepared)
      (AtFault Fits) (settleClarification host wake job capture p) w := by
  rw [settleClarification]
  cases p.request with
  | none => exact ⟨hf,rfl⟩
  | some q =>
    apply job_after _ _ (silent_attempt _ (authorize_silent q)) hf
    intro authorized
    cases authorized with
    | ok _ => exact ⟨hf,rfl⟩
    | error e =>
      have hf' : Fits { job with rounds := host.limits.maxRetries } w := fits_same _ hf rfl rfl rfl
      exact job_after _ _ (prepare_silent wake _ capture _) hf' fun _ => ⟨hf',rfl⟩

theorem prepare_clarification_bears (job parent : Job) (hf : Fits job w) :
    Safe Moves (fun settled t => Fits settled.1 t ∧ settled.1.prepared = job.prepared)
      (AtFault Fits) (prepareClarification host wake job parent) w := by
  apply job_after _ _ (silent_lift _) hf
  intro asked
  apply job_refuse _ _ _ hf
  intro _
  apply job_after _ _ (silent_lift _) hf
  intro parentRef
  apply job_after _ _ (read_capture_silent _) hf
  intro capture
  apply job_after _ _ (silent_lift _) hf
  intro recipient
  apply job_after _ _ (silent_lift _) hf
  intro deadline
  apply job_after _ _ (answered_silent _ _ _ _) hf
  intro isAnswered
  apply job_after _ _ (silent_query _) hf
  intro now
  apply job_after _ _ (silent_lift _) hf
  intro proposal
  apply job_after _ _ (prepare_silent wake job capture proposal) hf
  intro p
  exact bears_bind _ _ (settle_clarification_bears wake job capture p hf) fun _ _ hs => hs

theorem clarified_bears (parent : Option Job)
    (hf : Fits job w) : Bears (clarified host wake job parent) w := by
  apply safe_ite
  · intro hc
    apply job_after _ _ (silent_lift _) hf
    intro parent
    apply bears_bind _ _ (prepare_clarification_bears wake job parent hf)
    intro settled t hs
    refine store_prepared_bears settled.1 settled.2 hs.1 (Or.inl ?_)
    rw [hs.2]
    exact Option.isNone_iff_eq_none.mp hc.2
  · intro _
    exact hf

theorem block_bears (hf : Fits job w) : Bears (block job) w := by
  apply job_after _ _ (silent_query _) hf
  intro _
  have hf' : Fits ((job.withState .blocked).withNextRun none) w := fits_same _ hf rfl rfl rfl
  apply bears_save _ _ hf'
  intro t ht
  exact job_after _ _ (silent_query _) ht fun _ => ht

theorem resume_silent : Silent (resume wake) := by
  apply silent_ite
  · apply silent_bind _ _ (silent_query _)
    intro _
    apply silent_bind _ _ (silent_query _)
    intro _
    exact silent_query _
  · trivial

theorem acquire_silent (principal : String) (wake : WakeRecord) :
    Silent (acquire host principal wake) := by
  apply silent_bind _ _ (resume_silent wake)
  intro resumed
  apply silent_bind _ _ (silent_query _)
  intro now
  exact silent_ite _ _ _ trivial (silent_query _)

theorem gate_wake_bears (principal : String) (wake : WakeRecord) (job : Job)
    (parent : Option Job) (timedOut : Bool) (hf : Fits job w) :
    Bears (gateWake host principal wake job parent timedOut) w := by
  apply job_after _ _ (acquire_silent principal wake) hf
  intro leased
  apply safe_ite
  · intro _
    exact block_bears _ (fits_same (job.withReason _) hf rfl rfl rfl)
  intro _
  apply bears_bind _ _ (clarified_bears leased job parent hf)
  intro job' t hf'
  apply bears_bind _ _ (ensure_prepared_bears leased job' timedOut hf')
  intro job'' u hf''
  exact commit_bears leased.wakeRef job'' hf''

theorem gate_bears (principal : String) (wake : WakeRecord) (job : Job) (parent : Option Job)
    (hf : Fits job w) : Bears (gate host principal wake job parent) w := by
  apply safe_ite
  · intro _
    exact hf
  intro _
  apply job_after _ _ (answer_state_silent wake parent) hf
  intro state
  cases state with
  | waiting =>
    apply job_after _ _ (silent_query _) hf
    intro now
    exact fits_same (waitForReply host job now) hf rfl rfl rfl
  | timedOut =>
    exact gate_wake_bears principal wake _ parent true
      (fits_same { job with rounds := host.limits.maxRetries } hf rfl rfl rfl)
  | none => exact gate_wake_bears principal wake job parent false hf
  | given response => exact gate_wake_bears principal wake job parent false hf

end Gate

section Dispatch
variable {host : Host} {w : World}

theorem progressed_directory (w : World) (record : DispatchRef) (next : Option Held) :
    (w.progressed record next).directory = w.directory := by
  unfold World.progressed
  split <;> rfl

theorem read_control_calm (record : DispatchRef) :
    Safe Calm (fun _ _ => True) Any (readControl record) w := by
  apply safe_look
  intro _
  exact native_calm _ _ fun i => progressed_directory w record i.progress

theorem prior_control_calm (job : Job) (record : DispatchRef) :
    Safe Calm (fun found _ => SameGate job found.2) Any (priorControl job record) w := by
  have retained : Safe Calm (fun _ _ => True) Any (retainedControl job) w := by
    rw [retainedControl]
    cases job.status.dispatchRef with
    | some record => exact read_control_calm record
    | none => trivial
  apply calm_then _ _ retained
  intro found t _ _
  cases found with
  | some state => exact ⟨rfl,rfl,rfl⟩
  | none =>
    apply calm_then _ _ (read_control_calm record)
    intro found u _ _
    cases found with
    | some state => exact ⟨rfl,rfl,rfl⟩
    | none => exact ⟨rfl,rfl,rfl⟩

theorem look_up_bears (job : Job) (hf : Fits job w) : Bears (lookUp host job) w := by
  apply job_after _ _ (silent_lift _) hf
  intro record
  apply bears_save _ _ (fits_same (countAttempt job) hf rfl rfl rfl)
  intro t ht
  apply job_after _ _ (silent_query _) ht
  intro found
  have reconciled : Safe Calm (fun _ _ => True) Any (reconcile record found) t := by
    apply native_calm
    intro i
    split
    · rfl
    · split <;> rfl
  apply bears_calm _ _ reconciled ht
  intro _ u hu _
  apply job_after _ _ (silent_query _) hu
  intro now
  cases found <;> exact fits_same (afterLookup host _ _ now) hu rfl rfl rfl

theorem perform_bears (wake : WakeRecord) (job : Job) (attemptId : AttemptId) (permit : Permit)
    (hf : Fits job w) : Bears (perform wake job attemptId permit) w := by
  rw [perform]
  cases permit.action with
  | dispatch =>
    apply job_refuse _ _ _ hf
    intro _
    apply bears_calm _ _ (native_calm _ _ fun _ => rfl) hf
    intro delivery t ht _
    exact fits_same (afterCall job delivery) ht rfl rfl rfl
  | lookup => exact fits_same (job.withState .outcomeUnknown) hf rfl rfl rfl
  | outcomeUnknown => exact fits_same (job.withState .outcomeUnknown) hf rfl rfl rfl
  | done => exact fits_same (job.withState .awaitingCompletion) hf rfl rfl rfl
  | other => exact hf

theorem begin_dispatch_calm (record : DispatchRef) :
    Safe Calm (fun _ _ => True) Any (beginDispatch record) w := by
  apply native_calm
  intro i
  split
  · rfl
  · rfl
  · split
    · rfl
    · exact progressed_directory w record i.progress

section Request
variable (principal : String) (wake : WakeRecord) (job : Job) (request : ActionRequest)

theorem admit_call_bears (hf : Fits job w) :
    Bears (admitCall host principal wake job request) w := by
  apply job_after _ _ (acquire_silent principal wake) hf
  intro leased
  apply job_after _ _ (authorize_silent request) hf
  intro _
  apply job_after _ _ (silent_query _) hf
  intro _
  apply bears_save _ _ (fits_same (countAttempt job) hf rfl rfl rfl)
  intro t ht
  apply job_after _ _ open_session_silent ht
  intro _
  apply job_after _ _ (silent_lift _) ht
  intro _
  apply bears_calm _ _ (begin_dispatch_calm _) ht
  intro permit u hu _
  have hu' : Fits ((countAttempt job).withDispatchRef permit.dispatchRef) u :=
    fits_same _ hu rfl rfl rfl
  apply job_refuse _ _ _ hu'
  intro _
  apply bears_bind _ _ (perform_bears leased _ request.attemptId permit hu')
  intro job' v hv
  apply job_after _ _ (silent_query _) hv
  intro now
  exact fits_same (job'.withNextRun _) hv rfl rfl rfl

theorem hold_back_bears (hf : Fits job w) : Bears (holdBack host principal wake job) w := by
  apply job_after _ _ (acquire_silent principal wake) hf
  intro _
  exact block_bears job hf

theorem dispatch_open_bears (hf : Fits job w) :
    Bears (dispatchOpen host principal wake request job) w := by
  apply safe_ite
  · intro _
    have hf' := fits_same (job.withReason (some "dispatch_retry_budget_exhausted")) hf rfl rfl rfl
    exact safe_ite _ _ _ _ (fun _ => hold_back_bears principal wake _ hf') fun _ => hf'
  · intro _
    exact admit_call_bears principal wake job request hf

theorem dispatch_held_bears (state : ControlState) (hf : Fits job w) :
    Bears (dispatchHeld host principal wake job request state) w := by
  apply safe_ite
  · intro _
    exact look_up_bears job hf
  intro _
  apply job_after _ _ (silent_lift _) hf
  intro ex
  apply safe_ite
  · intro _
    exact dispatch_open_bears principal wake job request hf
  intro _
  have hf' := fits_same (job.withReason
    (some "dispatch_requires_independent_outcome_or_authoritative_lookup")) hf rfl rfl rfl
  apply safe_ite
  · intro _
    exact hold_back_bears principal wake _ hf'
  · intro _
    exact fits_same (((job.withReason _).withState .blocked).withNextRun none) hf' rfl rfl rfl

theorem dispatch_prior_bears (prior : Option ControlState) (hf : Fits job w) :
    Bears (dispatchPrior host principal wake job request prior) w := by
  apply job_after _ _ (answered_request_silent wake request) hf
  intro isAnswered
  apply safe_ite
  · intro _
    apply job_after _ _ (silent_query _) hf
    intro _
    exact fits_same (((job.withState .cancelled).withReason _).withNextRun none) hf rfl rfl rfl
  intro _
  apply safe_ite
  · intro _
    apply job_after _ _ (acquire_silent principal wake) hf
    intro _
    apply job_after _ _ (silent_query _) hf
    intro _
    exact fits_same ((job.withState .completed).withNextRun none) hf rfl rfl rfl
  intro _
  apply safe_ite
  · intro _
    exact hf
  intro _
  match prior with
  | some (.held state) => exact dispatch_held_bears principal wake job request _ hf
  | some .ready => exact dispatch_open_bears principal wake job request hf
  | none => exact dispatch_open_bears principal wake job request hf

end Request

theorem dispatch_bears (principal : String) (wake : WakeRecord) (job parent : Job)
    (hf : Fits job w) : Bears (dispatch host principal wake job parent) w := by
  apply job_after _ _ (silent_lift _) hf
  intro p
  apply job_after _ _ (silent_lift _) hf
  intro request
  apply job_after _ _ (silent_lift _) hf
  intro attemptRef
  apply job_after _ _ (silent_query _) hf
  intro fixed
  apply job_refuse _ _ _ hf
  intro _
  have hf' := fits_same (job.follows parent attemptRef) hf rfl rfl rfl
  apply bears_calm _ _ (prior_control_calm _ _) hf'
  intro found t ht hfound
  exact dispatch_prior_bears principal wake found.2 request found.1 (fits_gate _ _ hfound ht)

end Dispatch

end AndaBrain.Action
