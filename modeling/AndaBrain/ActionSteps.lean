import AndaBrain.ActionSafety

/-!
# A gate, step by step

Every step of a gate keeps the guarantee.
-/

set_option autoImplicit false

namespace AndaBrain.Action
open Foundation.Resumption Foundation.ConditionalStore

section Rules
variable {host : Host} {w : World} {ε α β : Type} {Q : α → World → Prop}
  {E F : ε → World → Prop}

theorem safe_good (p : Prog ε Env World α) (hw : Good host w) (h : Safe (Step host) Q E p w) :
    Safe (Step host) (fun a t => Q a t ∧ Kept w t ∧ Good host t)
      (fun e t => E e t ∧ Kept w t ∧ Good host t) p w := by
  have hstep : ∀ a b, Step host a b → (Kept w a ∧ Good host a) → Kept w b ∧ Good host b :=
    fun a b hs ha => ⟨kept_trans w a b ha.1 hs.1,hs.2⟩
  exact safe_mono p w (safe_frame _ hstep p w h ⟨kept_refl w,hw⟩) (fun _ _ hg => hg.1)
    (fun _ _ hq => hq) (fun _ _ he => he)

theorem safe_then (p : Prog ε Env World α) (f : α → Prog ε Env World β) {R : β → World → Prop}
    (hw : Good host w) (hp : Safe (Step host) Q F p w)
    (he : ∀ e t, Kept w t → Good host t → F e t → E e t)
    (hf : ∀ a t, Kept w t → Good host t → Q a t → Safe (Step host) R E (f a) t) :
    Safe (Step host) R E (p >>= f) w := by
  apply safe_bind
  apply safe_mono p w (safe_good p hw hp) (fun _ _ hg => hg)
  · intro a t h
    exact hf a t h.2.1 h.2.2 h.1
  · intro e t h
    exact he e t h.2.1 h.2.2 h.1

end Rules

def Any (_ : String) (_ : World) : Prop := True

section Errors
variable {G : World → World → Prop} {w : World} {α : Type} {Q : α → World → Prop}

theorem any_of {E : String → World → Prop} (p : M α) (h : Safe G Q E p w) : Safe G Q Any p w :=
  safe_mono p w h (fun _ _ hg => hg) (fun _ _ hq => hq) fun _ _ _ => trivial

theorem any_fault {E : Fault → World → Prop} (p : J α) (h : Safe G Q E p w) :
    Safe G Q Any (mapFail Fault.error p) w := by
  apply safe_map_fail
  exact safe_mono p w h (fun _ _ hg => hg) (fun _ _ hq => hq) fun _ _ _ => trivial

theorem safe_need {β : Type} {R : β → World → Prop} (o : Option α) (e : String) (f : α → M β)
    (hf : ∀ a, o = some a → Safe G R Any (f a) w) : Safe G R Any (lift (need o e) >>= f) w := by
  cases o with
  | none => trivial
  | some a => exact hf a rfl

end Errors

def Own (host : Host) (reference : WakeRef) (w : World) (job : Job) : Prop :=
  JobOk host w job ∧ job.wakeRef = reference

def Faulted (host : Host) (reference : WakeRef) (fault : Fault) (w : World) : Prop :=
  Own host reference w fault.job

def Keeps (host : Host) (reference : WakeRef) (p : J Job) (w : World) : Prop :=
  Safe (Step host) (fun job t => Own host reference t job) (Faulted host reference) p w

section Keeping
variable {host : Host} {reference : WakeRef} {w t : World} {job : Job} {α β : Type}
  {R : β → World → Prop}

theorem own_kept (h : Kept w t) (hj : Own host reference w job) : Own host reference t job :=
  ⟨job_kept job h hj.1,hj.2⟩

theorem own_same (next : Job) (hj : Own host reference w job) (hs : next.scope = job.scope)
    (hr : next.wakeRef = job.wakeRef) (hp : next.prepared = job.prepared)
    (hd : next.status.dispatchRef = job.status.dispatchRef) : Own host reference w next :=
  ⟨job_of_same job next hj.1 hs hr hp hd,hr.trans hj.2⟩

theorem keeps_refuse (c : Prop) [Decidable c] (e : String) (f : Unit → J β)
    (hj : Own host reference w job) (hf : ¬c → Safe (Step host) R (Faulted host reference) (f ()) w)
    : Safe (Step host) R (Faulted host reference) (withJob job (refuseIf c e) >>= f) w := by
  by_cases hc : c
  · rw [refuseIf, if_pos hc]
    exact hj
  · rw [refuseIf, if_neg hc]
    exact hf hc

theorem keeps_need (o : Option α) (e : String) (f : α → J β) (hj : Own host reference w job)
    (hf : ∀ a, o = some a → Safe (Step host) R (Faulted host reference) (f a) w) :
    Safe (Step host) R (Faulted host reference) (withJob job (lift (need o e)) >>= f) w := by
  cases o with
  | none => exact hj
  | some a => exact hf a rfl

theorem fault_job {G : World → World → Prop} {Q : α → World → Prop} (p : M α) (job : Job)
    (hp : Safe G Q Any p w) : Safe G Q (fun fault _ => fault.job = job) (withJob job p) w := by
  apply safe_map_fail
  exact safe_mono p w hp (fun _ _ hg => hg) (fun _ _ hq => hq) fun _ _ _ => rfl

variable {Q : α → World → Prop} (p : M α)

theorem keeps_still (f : α → J β)
    (hp : Safe (fun _ _ => False) Q Any p w) (hj : Own host reference w job)
    (hf : ∀ a, Q a w → Safe (Step host) R (Faulted host reference) (f a) w) :
    Safe (Step host) R (Faulted host reference) (withJob job p >>= f) w := by
  apply safe_still (withJob job p) f w (fault_job p job hp) _ hf
  intro fault hfault
  show Own host reference w fault.job
  rw [hfault]
  exact hj

theorem keeps_after (f : α → J β) (hp : Silent p) (hj : Own host reference w job)
    (hf : ∀ a, Safe (Step host) R (Faulted host reference) (f a) w) :
    Safe (Step host) R (Faulted host reference) (withJob job p >>= f) w := by
  have hs : Safe (fun _ _ => False) (fun _ _ => True) Any p w :=
    safe_silent p w hp (fun _ => trivial) fun _ => trivial
  exact keeps_still p f hs hj fun a _ => hf a

theorem keeps_then (f : α → J β) (hw : Good host w)
    (hj : Own host reference w job) (hp : Safe (Step host) Q Any p w)
    (hf : ∀ a t, Kept w t → Good host t → Own host reference t job → Q a t →
      Safe (Step host) R (Faulted host reference) (f a) t) :
    Safe (Step host) R (Faulted host reference) (withJob job p >>= f) w := by
  apply safe_then (withJob job p) f hw (fault_job p job hp)
  · intro fault t hk _ he
    show Own host reference t fault.job
    rw [he]
    exact own_kept hk hj
  · intro a t hk ht hq
    exact hf a t hk ht (own_kept hk hj) hq

theorem keeps_bind (p : J α) (f : α → J β) (hw : Good host w)
    (hp : Safe (Step host) Q (Faulted host reference) p w)
    (hf : ∀ a t, Kept w t → Good host t → Q a t →
      Safe (Step host) R (Faulted host reference) (f a) t) :
    Safe (Step host) R (Faulted host reference) (p >>= f) w :=
  safe_then p f hw hp (fun _ _ _ _ he => he) hf

end Keeping

section Journal
variable {host : Host} {reference : WakeRef} {w : World}

theorem directory_put_safe (k : Key) (v : Entry k) (mode : PutMode) (hw : Good host w)
    (hv : EntryOk host w k v) :
    Safe (Step host) (fun _ t => SameCalls w t ∧ value t.directory k = some v)
      (fun _ t => SameCalls w t) (directoryPut k v mode) w := by
  have back : ∀ t : World, SameCalls w t → ∀ reported : Option String,
      Safe (Step host) (fun _ t => SameCalls w t ∧ value t.directory k = some v)
        (fun _ t => SameCalls w t) (do
          let stored ← (read k : M _)
          refuseIf (stored.map Versioned.value ≠ some v)
            (reported.getD (Serves.conflict Env))) t := by
    intro t ht reported
    apply safe_bind
    apply safe_read
    · apply safe_refuse
      · intro _
        exact ht
      · intro hs
        exact ⟨ht,not_not.mp hs⟩
    · intro _
      exact ht
  apply safe_bind
  exact safe_put_opts k v mode w (fun _ => write_step k v hw hv)
    (fun reported _ => back (written w k v) ⟨rfl,rfl⟩ reported)
    fun reported => back w ⟨rfl,rfl⟩ reported

theorem put_over_safe (k : Key) (v : Entry k) (old : Option (Versioned (Entry k)))
    (hw : Good host w) (hv : EntryOk host w k v) :
    Safe (Step host) (fun _ t => SameCalls w t) (fun _ t => SameCalls w t) (putOver k v old) w :=
  safe_mono _ w (directory_put_safe k v _ hw hv) (fun _ _ hg => hg) (fun _ _ hq => hq.1)
    fun _ _ he => he

variable (job : Job) (p : PreparedGate)

theorem save_safe (hw : Good host w) (hj : JobOk host w job) :
    Safe (Step host) (fun _ t => SameCalls w t) (fun _ t => SameCalls w t) (save job) w := by
  apply safe_bind
  apply safe_read _ _ _ fun _ => ⟨rfl,rfl⟩
  exact put_over_safe (.job job.scope job.wakeRef) job _ hw hj

theorem load_still (scope : RuntimeScope) (reference : WakeRef) (hw : Good host w) :
    Safe (fun _ _ => False) (fun found _ => ∀ job, found = some job →
      Own host reference w job ∧ (host.wakes reference).scope = scope) Any
      (load scope reference) w := by
  apply safe_bind
  apply safe_read _ _ _ fun _ => trivial
  cases hc : w.directory.cells (.job scope reference) with
  | none =>
    intro job h
    cases h
  | some row =>
    have hj := hw.jobs scope reference row.value (value_cell _ _ row hc)
    apply safe_guard
    intro hv job h
    cases h
    simp only [Job.valid, Bool.not_eq_true', Bool.not_eq_false, Bool.and_eq_true,
      decide_eq_true_eq] at hv
    obtain ⟨⟨⟨hs,hr⟩,-⟩,-⟩ := hv
    refine ⟨⟨hj,hr⟩,?_⟩
    rw [← hs, hj.scope, hr]

theorem finish_wake_safe (hw : Good host w)
    (hp : PreparedOk host w reference p) :
    Safe (Step host) (fun _ _ => True) Any (finishWake reference p) w := by
  apply safe_atomic
  · intro i
    split
    · exact Or.inl rfl
    · exact Or.inr (commit_step reference p hw hp)
  · intro _ _ _
    trivial
  · intro _ _ _
    trivial

theorem read_output_own (id : String) (row : OutputRow)
    (hj : Own host reference w job) : Own host reference w (readOutput job p id row) := by
  apply own_same (readOutput job p id row) hj rfl rfl rfl
  simp only [readOutput]
  split <;> split <;> rfl

theorem read_outputs_keeps (outputs : List String) (job : Job)
    (hj : Own host reference w job) : Keeps host reference (readOutputs p outputs job) w := by
  induction outputs generalizing job with
  | nil => exact keeps_refuse _ _ _ hj fun _ => hj
  | cons id rest ih =>
    rw [readOutputs]
    apply safe_ite
    · intro _
      apply keeps_after _ _ (silent_query _) hj
      intro row
      exact ih _ (read_output_own job p id row hj)
    · intro _
      exact ih job hj

theorem committed_own (hj : Own host reference w job)
    (hd : ¬host.isDispatch reference) : Own host reference w (committedJob job p) := by
  have hs : (committedJob job p).scope = job.scope := by
    unfold committedJob
    split <;> rfl
  have hr : (committedJob job p).wakeRef = job.wakeRef := by
    unfold committedJob
    split <;> rfl
  have hp : (committedJob job p).prepared = job.prepared := by
    unfold committedJob
    split <;> rfl
  have hn : ¬host.isDispatch (committedJob job p).wakeRef := by
    rw [hr, hj.2]
    exact hd
  refine ⟨⟨?_,?_,fun h => absurd h hn,fun h => absurd h hn⟩,hr.trans hj.2⟩
  · rw [hs, hr]
    exact hj.1.scope
  · rw [hp, hr]
    exact hj.1.prepared

theorem commit_keeps (hw : Good host w) (hj : Own host reference w job) :
    Keeps host reference (commit reference job) w := by
  apply keeps_need _ _ _ hj
  intro p hp
  have hok : PreparedOk host w reference p := hj.2 ▸ hj.1.prepared p hp
  have hd : ¬host.isDispatch reference := by
    intro h
    rw [hj.1.gates (hj.2.symm ▸ h)] at hp
    cases hp
  apply keeps_then _ _ hw hj (finish_wake_safe p hw hok)
  intro outputs t _ ht hjt _
  apply keeps_bind _ _ ht (read_outputs_keeps p outputs { job with outputs := outputs }
    (own_same { job with outputs := outputs } hjt rfl rfl rfl rfl))
  intro job' _ _ _ hj'
  exact committed_own job' p hj' hd

theorem confirm_parent_safe (parent : WakeRef) (scope : RuntimeScope) (hw : Good host w) :
    Safe (Step host) (fun job t => Own host parent t job ∧ (host.wakes parent).scope = scope)
      Any (confirmParent host parent scope) w := by
  apply safe_still _ _ _ (load_still scope parent hw) fun _ _ => trivial
  intro found hfound
  apply safe_need
  intro job hjob
  obtain ⟨hj,hs⟩ := hfound job hjob
  apply safe_look
  intro wake
  apply safe_guard
  intro _
  apply safe_guard
  intro _
  apply safe_then _ _ hw (any_fault _ (commit_keeps job hw hj)) fun _ _ _ _ _ => trivial
  intro next t _ ht hn
  have repaired : Safe (Step host) (fun _ u => SameCalls t u) Any
      (doIf ((job.status.state != .committed || job.outputs.isEmpty) = true) (save next)) t :=
    safe_do_if _ _ t (fun _ => any_of _ (save_safe next ht hn.1)) fun _ => ⟨rfl,rfl⟩
  apply safe_then _ _ ht repaired fun _ _ _ _ _ => trivial
  intro _ u hk _ _
  exact ⟨own_kept hk hn,hs⟩

end Journal

section Gate
variable {host : Host} {w : World}

theorem other_owner_safe (owner : WakeRef) (scope : RuntimeScope) (hw : Good host w) :
    Safe (Step host) (fun _ _ => True) Any (otherOwner host owner scope) w := by
  have parent : Safe (Step host) (fun _ _ => True) Any (attempt (confirmParent host owner scope))
      w :=
    safe_attempt _ w (safe_mono _ w (confirm_parent_safe owner scope hw) (fun _ _ hg => hg)
      (fun _ _ _ => trivial) fun _ _ _ => trivial)
  apply safe_then _ _ hw parent fun _ _ _ _ _ => trivial
  intro parent t _ _ _
  apply safe_look
  intro original
  apply safe_look
  intro source
  exact safe_ite _ _ _ _ (fun _ => trivial) fun _ => trivial

/-- What an answer of `deduplicate` tells about the slot. -/
def Answered (w : World) (q : ActionRequest) : Option DedupReason → Prop
  | none => ∀ id, q.context.deduplicationKey = some id →
      ∃ slot, SlotFor w q id slot ∧ slot.owner = q.gateWakeRef
  | some (.duplicateCommitted _) => ∀ id, q.context.deduplicationKey = some id →
      ∃ slot, SlotFor w q id slot ∧ slot.owner ≠ q.gateWakeRef
  | some _ => True

theorem answered_other (q : ActionRequest) (reason : DedupReason)
    (h : ∀ id, q.context.deduplicationKey = some id →
      ∃ slot, SlotFor w q id slot ∧ slot.owner ≠ q.gateWakeRef) : Answered w q (some reason) := by
  cases reason with
  | duplicateCommitted _ => exact h
  | identityConflict => trivial
  | ownerGenerationChanged _ => trivial
  | ownerUnresolved _ => trivial

theorem deduplicate_safe (q : ActionRequest) (hw : Good host w) :
    Safe (Step host) (fun answer t => Answered t q answer) Any (deduplicate host q) w := by
  rw [deduplicate]
  cases hk : q.context.deduplicationKey with
  | none =>
    intro id hid
    rw [hk] at hid
    cases hid
  | some id =>
    apply safe_bind
    apply safe_read _ _ _ fun _ => trivial
    cases hc : w.directory.cells (.dedup q.scope id) with
    | none =>
      apply safe_then _ _ hw (any_of _ (directory_put_safe (.dedup q.scope id)
        ⟨q.scope,q.pins,q.gateWakeRef,q.digest⟩ .create hw hc)) fun _ _ _ _ _ => trivial
      intro _ t _ _ hput id' hid'
      rw [hk] at hid'
      cases hid'
      exact ⟨_,⟨hput.2,rfl,rfl⟩,rfl⟩
    | some old =>
      apply safe_ite
      · intro _
        trivial
      intro hm
      simp only [not_or, not_not] at hm
      have slot : SlotFor w q id old.value := ⟨value_cell _ _ old hc,hm.2.1,hm.2.2⟩
      apply safe_ite
      · intro ho id' hid'
        rw [hk] at hid'
        cases hid'
        exact ⟨_,slot,ho⟩
      intro ho
      apply safe_then _ _ hw (other_owner_safe _ _ hw) fun _ _ _ _ _ => trivial
      intro reason t hkept _ _
      apply answered_other
      intro id' hid'
      rw [hk] at hid'
      cases hid'
      exact ⟨_,slot_kept q id _ hkept slot,ho⟩

def Proposal.decision : Proposal → Decision
  | .act _ _ _ => .act
  | .ask _ _ _ => .ask
  | .defer _ => .defer
  | .silence _ _ => .silence

/-- A gate as `prepare` makes it of a proposal. -/
structure Drafted (host : Host) (reference : WakeRef) (proposal : Proposal) (p : PreparedGate) :
    Prop where
  decision : p.decision = proposal.decision
  acts : p.request.isSome ↔ p.decision = .act
  same : p.considered = p.request
  own : ∀ q, p.request = some q → ∃ capture payload, q = requestOf host reference capture payload

theorem drafted_quiet (reference : WakeRef) (proposal : Proposal) (p : PreparedGate)
    (hd : p.decision = proposal.decision) (hp : proposal.decision ≠ .act)
    (hr : p.request = none) (hc : p.considered = none) : Drafted host reference proposal p := by
  refine ⟨hd,?_,hc.trans hr.symm,?_⟩
  · rw [hr, hd]
    constructor
    · intro h
      cases h
    · intro h
      exact absurd h hp
  · intro q hq
    rw [hr] at hq
    cases hq

theorem draft_still (wake : WakeRecord) (job : Job) (capture : Capture) (proposal : Proposal) :
    Safe (fun _ _ => False) (fun p _ => Drafted host wake.wakeRef proposal p) Any
      (draft host wake job capture proposal) w := by
  apply safe_look
  intro now
  cases proposal with
  | act rationale used payload =>
    apply safe_look
    intro selection
    refine ⟨rfl,Iff.intro (fun _ => rfl) fun _ => rfl,rfl,?_⟩
    intro q hq
    cases hq
    exact ⟨capture,payload,rfl⟩
  | ask rationale used question =>
    apply safe_after _ _ _ (silent_lift _) fun _ => trivial
    intro channel
    exact drafted_quiet _ _ _ rfl (fun h => nomatch h) rfl rfl
  | defer reason => exact drafted_quiet _ _ _ rfl (fun h => nomatch h) rfl rfl
  | silence rationale used => exact drafted_quiet _ _ _ rfl (fun h => nomatch h) rfl rfl

theorem prepare_still (wake : WakeRecord) (job : Job) (capture : Capture) (proposal : Proposal) :
    Safe (fun _ _ => False) (fun p _ => Drafted host wake.wakeRef proposal p) Any
      (prepare host wake job capture proposal) w := by
  apply safe_look
  intro receipt
  apply safe_still _ _ _ (draft_still wake job _ proposal) fun _ _ => trivial
  intro p hp
  apply safe_look
  intro _
  exact hp

variable {reference : WakeRef}

variable (proposal : Proposal) (wake : WakeRecord) (job : Job) (p : PreparedGate)

theorem drafted_ok (hp : Drafted host reference proposal p)
    (hd : ∀ q id, p.request = some q → q.kind = .business →
      q.context.deduplicationKey = some id → SlotDecides w p q id) :
    PreparedOk host w reference p := by
  refine ⟨hp.acts.mpr,fun q hq => hp.same.trans hq,?_,?_⟩
  · intro q hq
    exact hp.own q (hp.same.symm.trans hq)
  · intro q id hq hk hid
    exact Or.inr (hd q id (hp.same.symm.trans hq) hk hid)

theorem instead_ok (q : ActionRequest)
    (hp : Drafted host reference proposal p) (hn : proposal.decision ≠ .act)
    (hq : ∃ capture payload, q = requestOf host reference capture payload)
    (hd : ∀ id, q.context.deduplicationKey = some id →
      p.decision = .defer ∨ SlotDecides w (p.insteadOf q) q id) :
    PreparedOk host w reference (p.insteadOf q) := by
  have hact : p.decision ≠ .act := by
    rw [hp.decision]
    exact hn
  constructor
  · intro h
    exact absurd h hact
  · intro q' hq'
    have hs : p.request.isSome = true := by
      rw [show p.request = some q' from hq']
      rfl
    exact absurd (hp.acts.mp hs) hact
  · intro q' hq'
    cases hq'
    exact hq
  · intro q' id hq' _ hid
    cases hq'
    exact hd id hid

theorem reason_proposal_decision (reason : DedupReason) : reason.proposal.decision = .defer ∨
    (reason.proposal.decision = .silence ∧ ∃ owner, reason = .duplicateCommitted owner) := by
  cases reason with
  | duplicateCommitted owner => exact Or.inr ⟨rfl,owner,rfl⟩
  | identityConflict => exact Or.inl rfl
  | ownerGenerationChanged _ => exact Or.inl rfl
  | ownerUnresolved _ => exact Or.inl rfl

theorem authorize_silent (request : ActionRequest) : Silent (authorize host request) := by
  apply silent_bind _ _ (silent_query _)
  intro _
  apply silent_bind _ _ (silent_lift _)
  intro _
  exact silent_query _

theorem settle_safe (capture : Capture) (proposal : Proposal)
    (p : PreparedGate) (hw : Good host w) (hp : Drafted host wake.wakeRef proposal p) :
    Safe (Step host) (fun p t => PreparedOk host t wake.wakeRef p) Any
      (settle host wake job capture p) w := by
  rw [settle]
  cases hr : p.request with
  | none =>
    apply drafted_ok proposal p hp
    intro q id hq
    rw [hr] at hq
    cases hq
  | some q =>
    have hown := hp.own q hr
    have hact : p.decision = .act := hp.acts.mp (by rw [hr]; rfl)
    apply safe_after _ _ _ (silent_attempt _ (authorize_silent q)) fun _ => trivial
    intro authorized
    cases authorized with
    | error e =>
      apply safe_still _ _ _ (prepare_still wake job capture _) fun _ _ => trivial
      intro deferred hdef
      exact instead_ok _ deferred q hdef (fun h => nomatch h) hown fun _ _ => Or.inl hdef.decision
    | ok _ =>
      apply safe_ite
      · intro _
        apply safe_then _ _ hw (deduplicate_safe q hw) fun _ _ _ _ _ => trivial
        intro answer t _ ht hans
        cases answer with
        | none =>
          apply drafted_ok proposal p hp
          intro q' id hq' _ hid
          rw [hr] at hq'
          cases hq'
          obtain ⟨slot,hslot,ho⟩ := hans id hid
          exact ⟨slot,hslot,Or.inl ⟨hact,ho⟩⟩
        | some reason =>
          apply safe_still _ _ _ (prepare_still wake job capture _) fun _ _ => trivial
          intro other hother
          rcases reason_proposal_decision reason with hdef | ⟨hsil,owner,rfl⟩
          · apply instead_ok _ other q hother (by rw [hdef]; exact fun h => nomatch h) hown
            intro _ _
            exact Or.inl (hother.decision.trans hdef)
          apply instead_ok _ other q hother (by rw [hsil]; exact fun h => nomatch h) hown
          intro id hid
          obtain ⟨slot,hslot,ho⟩ := hans id hid
          exact Or.inr ⟨slot,hslot,Or.inr ⟨hother.decision.trans hsil,ho⟩⟩
      · intro hk
        apply drafted_ok proposal p hp
        intro q' id hq' hk' _
        rw [hr] at hq'
        cases hq'
        exact absurd hk' hk

theorem read_capture_silent (request : ContextRequest) : Silent (readCapture request) :=
  silent_bind _ _ (silent_query _) fun _ => trivial

theorem suggest_silent (capture : Capture) (timedOut : Bool) :
    Silent (suggest capture timedOut) := by
  apply silent_bind _ _ (silent_query _)
  intro fits
  apply silent_ite
  · trivial
  apply silent_ite
  · trivial
  · split
    · trivial
    · exact silent_query _

theorem allowed_silent : Silent (allowed proposal) := by
  cases proposal with
  | silence _ _ => exact silent_query _
  | act _ _ _ => trivial
  | ask _ _ _ => trivial
  | defer _ => trivial

theorem prepare_gate_safe (timedOut : Bool) (hw : Good host w) :
    Safe (Step host) (fun p t => PreparedOk host t wake.wakeRef p) Any
      (prepareGate host wake job timedOut) w := by
  apply safe_look
  intro request
  apply safe_after _ _ _ (read_capture_silent request) fun _ => trivial
  intro capture
  apply safe_after _ _ _ (suggest_silent capture timedOut) fun _ => trivial
  intro proposal
  apply safe_look
  intro fits
  apply safe_after _ _ _ (allowed_silent _) fun _ => trivial
  intro silenceAllowed
  apply safe_still _ _ _ (prepare_still wake job capture _) fun _ _ => trivial
  intro p hp
  exact settle_safe wake job capture _ p hw hp

theorem own_prepared (hj : Own host reference w job)
    (hd : ¬host.isDispatch reference) (hp : PreparedOk host w reference p) :
    Own host reference w { job with prepared := some p } := by
  have hn : ¬host.isDispatch job.wakeRef := by
    rw [hj.2]
    exact hd
  refine ⟨⟨hj.1.scope,?_,fun h => absurd h hn,hj.1.retained⟩,hj.2⟩
  intro p' hp'
  cases hp'
  show PreparedOk host w job.wakeRef p
  rw [hj.2]
  exact hp

theorem keeps_save (f : Unit → J Job) (hw : Good host w)
    (hj : Own host reference w job)
    (hf : ∀ t, Kept w t → Good host t → Own host reference t job → SameCalls w t →
      Keeps host reference (f ()) t) : Keeps host reference (withJob job (save job) >>= f) w :=
  keeps_then _ _ hw hj (any_of _ (save_safe job hw hj.1))
    fun _ t hk ht hjt hc => hf t hk ht hjt hc

theorem store_prepared_keeps (hw : Good host w)
    (hj : Own host reference w job) (hd : ¬host.isDispatch reference)
    (hp : PreparedOk host w reference p) : Keeps host reference (storePrepared job p) w :=
  keeps_save _ _ hw (own_prepared job p hj hd hp) fun _ _ _ hjt _ => hjt

theorem refresh_prepared_keeps
    (hw : Good host w) (hj : Own host reference w job) (hd : ¬host.isDispatch reference)
    (hp : job.prepared = some p) : Keeps host reference (refreshPrepared wake job p) w := by
  have hok : PreparedOk host w reference p := hj.2 ▸ hj.1.prepared p hp
  apply safe_ite
  · intro _
    apply keeps_after _ _ (silent_query _) hj
    intro _
    exact store_prepared_keeps job _ hw hj hd ⟨hok.acts,hok.request,hok.considered,hok.decided⟩
  · intro _
    exact hj

theorem ensure_prepared_keeps (timedOut : Bool) (hw : Good host w) (hj : Own host reference w job)
    (hd : ¬host.isDispatch reference) (hr : wake.wakeRef = reference) : Keeps host reference
    (ensurePrepared host wake job timedOut) w := by
  rw [ensurePrepared]
  cases hp : job.prepared with
  | some p => exact refresh_prepared_keeps wake job p hw hj hd hp
  | none =>
    apply keeps_then _ _ hw hj (prepare_gate_safe wake job timedOut hw)
    intro p t _ ht hjt hok
    rw [hr] at hok
    exact store_prepared_keeps job p ht hjt hd hok

end Gate

section Clarification
variable {host : Host} {reference : WakeRef} {w : World}

theorem read_reply_silent (scope : RuntimeScope) (gate : WakeRef) :
    Silent (readReply scope gate) := by
  apply silent_bind _ _ (silent_query _)
  intro row
  cases row <;> trivial

theorem answered_silent (scope : RuntimeScope) (gate : WakeRef) (recipient : String)
    (deadline : ℕ) : Silent (answered scope gate recipient deadline) := by
  apply silent_bind _ _ (read_reply_silent scope gate)
  intro reply
  cases reply with
  | none => trivial
  | some reply => exact silent_bind _ _ (silent_ite _ _ _ trivial trivial) fun _ => trivial

variable (wake : WakeRecord) (job : Job)

theorem reply_state_silent (parent : Job) : Silent (replyState host wake parent) := by
  apply silent_bind _ _ (silent_lift _)
  intro asked
  apply silent_bind _ _ (read_reply_silent _ _)
  intro reply
  cases reply with
  | some reply => exact silent_bind _ _ (silent_ite _ _ _ trivial trivial) fun _ => trivial
  | none => exact silent_bind _ _ (silent_query _) fun _ => silent_ite _ _ _ trivial trivial

theorem answer_state_silent (parent : Option Job) : Silent (answerState host wake parent) := by
  apply silent_ite
  · exact silent_bind _ _ (silent_lift _) fun parent => reply_state_silent wake parent
  · trivial

theorem read_wake_still (reference : WakeRef) :
    Safe (fun _ _ => False) (fun wake _ => wake.wakeRef = reference) Any (readWake reference)
      w := by
  apply safe_query
  · intro i wake h
    cases hi : i.wake reference with
    | error e =>
      rw [hi] at h
      cases h
    | ok row =>
      rw [hi] at h
      cases h
      rfl
  · intro _ _ _
    trivial

theorem resume_still :
    Safe (fun _ _ => False) (fun next _ => next.wakeRef = wake.wakeRef) Any (resume wake) w := by
  apply safe_ite
  · intro _
    apply safe_look
    intro _
    apply safe_look
    intro _
    exact read_wake_still wake.wakeRef
  · intro _
    rfl

theorem acquire_still (principal : String) (wake : WakeRecord) :
    Safe (fun _ _ => False) (fun next _ => next.wakeRef = wake.wakeRef) Any
      (acquire host principal wake) w := by
  apply safe_still _ _ _ (resume_still wake) fun _ _ => trivial
  intro resumed hr
  apply safe_look
  intro now
  apply safe_ite
  · intro _
    exact hr
  · intro _
    rw [← hr]
    exact read_wake_still resumed.wakeRef

def Prepares (host : Host) (reference : WakeRef) (settled : Job × PreparedGate) (w : World) :
    Prop := Own host reference w settled.1 ∧ PreparedOk host w reference settled.2

theorem manual_ok (p : PreparedGate) (hp : PreparedOk host w reference p) :
    PreparedOk host w reference p.manualOnly := by
  rw [PreparedGate.manualOnly]
  split
  · exact ⟨hp.acts,hp.request,hp.considered,hp.decided⟩
  · exact hp

theorem not_business (q : ActionRequest)
    (hc : (host.wakes reference).continuationKey = some .clarification)
    (hq : ∃ capture payload, q = requestOf host reference capture payload) :
    q.kind ≠ .business := by
  obtain ⟨capture,payload,rfl⟩ := hq
  simp [requestOf, WakeIdentity.actionKind, hc]

theorem settle_clarification_safe (capture : Capture)
    (proposal : Proposal) (p : PreparedGate) (hj : Own host reference w job)
    (hr : wake.wakeRef = reference) (hp : Drafted host reference proposal p)
    (hc : (host.wakes reference).continuationKey = some .clarification) : Safe (Step host)
    (Prepares host reference) (Faulted host reference) (settleClarification host wake job capture p)
    w := by
  have hok : PreparedOk host w reference p := drafted_ok proposal p hp
    fun q _ hq hk _ => absurd hk (not_business q hc (hp.own q hq))
  rw [settleClarification]
  cases hreq : p.request with
  | none => exact ⟨hj,hok⟩
  | some q =>
    apply keeps_after _ _ (silent_attempt _ (authorize_silent q)) hj
    intro authorized
    cases authorized with
    | ok _ => exact ⟨hj,hok⟩
    | error e =>
      have hj' := own_same { job with rounds := host.limits.maxRetries } hj rfl rfl rfl rfl
      apply keeps_still _ _ (prepare_still wake _ capture _) hj'
      intro deferred hdef
      rw [hr] at hdef
      exact ⟨hj',instead_ok _ deferred q hdef (fun h => nomatch h) (hp.own q hreq)
        fun _ _ => Or.inl hdef.decision⟩

theorem prepare_clarification_safe (job parent : Job) (hw : Good host w)
    (hj : Own host reference w job) (hr : wake.wakeRef = reference)
    (hc : (host.wakes reference).continuationKey = some .clarification) : Safe (Step host)
    (Prepares host reference) (Faulted host reference) (prepareClarification host wake job parent) w
    := by
  apply keeps_after _ _ (silent_lift _) hj
  intro asked
  apply keeps_refuse _ _ _ hj
  intro _
  apply keeps_after _ _ (silent_lift _) hj
  intro parentRef
  apply keeps_after _ _ (read_capture_silent _) hj
  intro capture
  apply keeps_after _ _ (silent_lift _) hj
  intro recipient
  apply keeps_after _ _ (silent_lift _) hj
  intro deadline
  apply keeps_after _ _ (answered_silent _ _ _ _) hj
  intro isAnswered
  apply keeps_after _ _ (silent_query _) hj
  intro now
  apply keeps_after _ _ (silent_lift _) hj
  intro proposal
  apply keeps_still _ _ (prepare_still wake job capture proposal) hj
  intro p hp
  rw [hr] at hp
  apply keeps_bind _ _ hw (settle_clarification_safe wake job capture proposal p hj hr hp hc)
  intro settled t _ _ hs
  exact ⟨hs.1,manual_ok settled.2 hs.2⟩

theorem clarified_keeps (parent : Option Job) (hw : Good host w) (hj : Own host reference w job)
    (hr : wake.wakeRef = reference) (hd : ¬host.isDispatch reference) : Keeps host reference
    (clarified host wake job parent) w := by
  apply safe_ite
  · intro hc
    rw [hr] at hc
    apply keeps_after _ _ (silent_lift _) hj
    intro parent
    apply keeps_bind _ _ hw (prepare_clarification_safe wake job parent hw hj hr hc.1)
    intro settled t _ ht hs
    exact store_prepared_keeps settled.1 settled.2 ht hs.1 hd hs.2
  · intro _
    exact hj

theorem block_keeps (hw : Good host w) (hj : Own host reference w job) :
    Keeps host reference (block job) w := by
  apply keeps_after _ _ (silent_query _) hj
  intro _
  have hj' := own_same ((job.withState .blocked).withNextRun none) hj rfl rfl rfl rfl
  apply keeps_save _ _ hw hj'
  intro t _ _ hjt _
  apply keeps_after _ _ (silent_query _) hjt
  intro _
  exact hjt

theorem gate_wake_keeps (principal : String) (wake : WakeRecord) (job : Job)
    (parent : Option Job) (timedOut : Bool) (hw : Good host w) (hj : Own host reference w job)
    (hr : wake.wakeRef = reference) (hd : ¬host.isDispatch reference) :
    Keeps host reference (gateWake host principal wake job parent timedOut) w := by
  apply keeps_still _ _ (acquire_still principal wake) hj
  intro leased hl
  rw [hr] at hl
  apply safe_ite
  · intro _
    exact block_keeps _ hw (own_same (job.withReason _) hj rfl rfl rfl rfl)
  intro _
  apply keeps_bind _ _ hw (clarified_keeps leased job parent hw hj hl hd)
  intro job' t _ ht hj'
  apply keeps_bind _ _ ht (ensure_prepared_keeps leased job' timedOut ht hj' hd hl)
  intro job'' u _ hu hj''
  rw [hl]
  exact commit_keeps job'' hu hj''

theorem gate_keeps (principal : String) (wake : WakeRecord) (job : Job) (parent : Option Job)
    (hw : Good host w) (hj : Own host reference w job) (hr : wake.wakeRef = reference)
    (hd : ¬host.isDispatch reference) :
    Keeps host reference (gate host principal wake job parent) w := by
  apply safe_ite
  · intro _
    exact hj
  intro _
  apply keeps_after _ _ (answer_state_silent wake parent) hj
  intro state
  cases state with
  | waiting =>
    apply keeps_after _ _ (silent_query _) hj
    intro now
    exact own_same (waitForReply host job now) hj rfl rfl rfl rfl
  | timedOut =>
    exact gate_wake_keeps principal wake _ parent true hw
      (own_same { job with rounds := host.limits.maxRetries } hj rfl rfl rfl rfl) hr hd
  | none => exact gate_wake_keeps principal wake job parent false hw hj hr hd
  | given response => exact gate_wake_keeps principal wake job parent false hw hj hr hd

end Clarification

end AndaBrain.Action
