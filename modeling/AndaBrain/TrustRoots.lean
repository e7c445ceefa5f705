import AndaBrain.Trust

/-!
# The roots of applied calibrations

A committed review owns its roots: no schedule of operations and stops lets two of them share one.
-/

set_option autoImplicit false

namespace AndaBrain.Trust
open Foundation.Resumption Foundation.ConditionalStore

def World.job (w : World) (id : ProposalId) : Option ProposalJob := value w.journal (.job id)

def World.claim (w : World) (root : String) : Option RootClaim := value w.journal (.unit root)

def Own (w : World) (id : ProposalId) (root : String) : Prop :=
  ∃ c, w.claim root = some c ∧ c.proposal = id ∧ c.abandoned = false

/-- The review is the one of a job that is in force and owns its roots. -/
def Owned (w : World) (r : Reviewed) (version : ℕ) : Prop :=
  ∃ job, w.job r.proposalId = some job ∧ job.reviewed = some r ∧ job.stale = false ∧
    job.report.expectedVersion+1 = version ∧ ∀ root ∈ job.roots, Own w r.proposalId root

/-- The review was committed, or may still be. -/
def Recorded (w : World) (r : Reviewed) (version : ℕ) : Prop :=
  (∃ row ∈ w.control, row.calibration = some r ∧ row.version = version) ∨
  ∃ c, w.pending = some c ∧ c.reviewed = r ∧ c.expected+1 = version

def Committed (w : World) (id : ProposalId) : Prop :=
  ∃ row ∈ w.control, ∃ r, row.calibration = some r ∧ r.proposalId = id

structure JobOk (job : ProposalJob) (id : ProposalId) : Prop where
  named : job.id = id
  reviewed : ∀ r, job.reviewed = some r → r.proposalId = id ∧ job.governor.isSome

structure Rooted (w : World) : Prop where
  versions : (w.control.map ControlRow.version).Pairwise fun newer older => older < newer
  jobs : ∀ id job, w.job id = some job → JobOk job id
  owned : ∀ r version, Recorded w r version → Owned w r version
  receipts : ∀ id job, w.job id = some job → job.receipt.isSome → Committed w id

/-- The proposal was not committed, and no commit is under way. -/
def Free (id : ProposalId) (w : World) : Prop := w.pending = none ∧ ¬Committed w id

/-! ## What happens to the control outside -/

structure Later (a b : World) : Prop where
  journal : b.journal = a.journal
  idle : a.pending = none → b.pending = none
  free : ∀ id, Free id a → Free id b
  rooted : Rooted a → Rooted b

theorem later_refl (w : World) : Later w w := ⟨rfl,id,fun _ h => h,id⟩

theorem later_trans {a b c : World} (h : Later a b) (h' : Later b c) : Later a c :=
  ⟨h'.journal.trans h.journal,h'.idle ∘ h.idle,fun id => h'.free id ∘ h.free id,
    h'.rooted ∘ h.rooted⟩

theorem version_le (w : World) (h : Rooted w) (row : ControlRow) (hrow : row ∈ w.control) :
    row.version ≤ w.version := by
  have hv := h.versions
  rw [World.version]
  cases hc : w.control with
  | nil =>
    rw [hc] at hrow
    cases hrow
  | cons newest rest =>
    rw [hc] at hrow hv
    rcases List.mem_cons.1 hrow with rfl | hm
    · exact Nat.le_refl _
    · exact Nat.le_of_lt ((List.pairwise_cons.1 hv).1 _ (List.mem_map_of_mem hm))

theorem rooted_push (w : World) (c : TrustConfiguration) (calibration : Option Reviewed)
    (principal recordId : String) (gap : ℕ) (h : Rooted w)
    (hown : ∀ r, calibration = some r → Owned w r (w.version+1)) :
    Rooted (w.push c calibration principal recordId gap) := by
  refine ⟨List.pairwise_cons.2 ⟨fun v hv => ?_,h.versions⟩,h.jobs,fun r version hr => ?_,
    fun id job hj hreceipt => ?_⟩
  · obtain ⟨row,hrow,rfl⟩ := List.mem_map.1 hv
    exact Nat.lt_succ_of_le (version_le w h row hrow)
  · rcases hr with ⟨row,hrow,hcal,rfl⟩ | hp
    · rcases List.mem_cons.1 hrow with rfl | hm
      · exact hown r hcal
      · exact h.owned r _ (.inl ⟨row,hm,hcal,rfl⟩)
    · exact h.owned r version (.inr hp)
  · obtain ⟨row,hrow,hr⟩ := h.receipts id job hj hreceipt
    exact ⟨row,List.mem_cons_of_mem _ hrow,hr⟩

theorem rooted_dropped (w : World) (h : Rooted w) : Rooted { w with pending := none } := by
  refine ⟨h.versions,h.jobs,fun r version hr => ?_,h.receipts⟩
  rcases hr with hr | ⟨c,hc,-⟩
  · exact h.owned r version (.inl hr)
  · cases hc

theorem later_settled (w : World) : Later w w.settled := by
  unfold World.settled
  split
  · exact later_refl w
  next c hc =>
    have hbusy (hp : w.pending = none) : False := by
      rw [hp] at hc
      cases hc
    unfold World.commit
    split
    next hv =>
      refine ⟨rfl,fun hp => (hbusy hp).elim,
        fun _ hf => (hbusy hf.1).elim,fun h => ?_⟩
      refine rooted_push _ _ _ _ _ _ (rooted_dropped w h) fun r hr => ?_
      cases hr
      exact h.owned _ _ (.inr ⟨c,hc,rfl,by rw [hv]⟩)
    · exact ⟨rfl,fun _ => rfl,fun _ hf => (hbusy hf.1).elim,rooted_dropped w⟩

theorem pending_settled (w : World) : w.settled.pending = none := by
  unfold World.settled
  split
  · assumption
  · unfold World.commit
    split <;> rfl

theorem later_outside (w : World) (o : Outside) : Later w (w.outside o) := by
  cases o with
  | setting configuration principal recordId gap =>
    refine ⟨rfl,id,fun id hf => ⟨hf.1,?_⟩,fun h => ?_⟩
    · rintro ⟨row,hrow,r,hr,hid⟩
      rcases List.mem_cons.1 hrow with rfl | hm
      · cases hr
      · exact hf.2 ⟨row,hm,r,hr,hid⟩
    · exact rooted_push _ _ _ _ _ _ h nofun
  | settle => exact later_settled w
  | drop => exact ⟨rfl,fun _ => rfl,fun _ hf => ⟨rfl,hf.2⟩,rooted_dropped w⟩

theorem later_meanwhile (w : World) (i : Env) : Later w (w.meanwhile i) := by
  unfold World.meanwhile
  generalize i.outside = os
  induction os generalizing w with
  | nil => exact later_refl w
  | cons o os ih => exact later_trans (later_outside w o) (ih _)

/-! ## What the runtime writes -/

section Writes
variable {w : World}

theorem job_written (k : Key) (v : Entry k) (id : ProposalId) (h : Key.job id ≠ k) :
    (written w k v).job id = w.job id :=
  value_place_of_ne w.journal k _ v h

theorem claim_written (k : Key) (v : Entry k) (root : String) (h : Key.unit root ≠ k) :
    (written w k v).claim root = w.claim root :=
  value_place_of_ne w.journal k _ v h

theorem claim_written_self (root : String) (c : RootClaim) :
    (written w (.unit root) c).claim root = some c :=
  value_place w.journal (.unit root) c

theorem job_written_self (job : ProposalJob) :
    (written w (.job job.id) job).job job.id = some job :=
  value_place w.journal (.job job.id) job

theorem rooted_aside (k : Key) (v : Entry k) (h : Rooted w) (hj : ∀ id, Key.job id ≠ k)
    (hu : ∀ root, Key.unit root ≠ k) : Rooted (written w k v) := by
  have hjob : (written w k v).job = w.job := funext fun id => job_written k v id (hj id)
  have hclaim : (written w k v).claim = w.claim := funext fun root => claim_written k v root (hu root)
  refine ⟨h.versions,hjob ▸ h.jobs,fun r version hr => ?_,hjob ▸ h.receipts⟩
  have ho := h.owned r version hr
  simpa only [Owned, Own, hjob, hclaim] using ho

/-- A claim may be written unless another committed review owns its root. -/
theorem rooted_claim (root : String) (c : RootClaim) (h : Rooted w)
    (hc : ∀ r version, Recorded w r version → Own w r.proposalId root →
      c.proposal = r.proposalId ∧ c.abandoned = false) : Rooted (written w (.unit root) c) := by
  have hjob : (written w (.unit root) c).job = w.job := funext fun id => job_written _ _ id nofun
  refine ⟨h.versions,hjob ▸ h.jobs,fun r version hr => ?_,hjob ▸ h.receipts⟩
  obtain ⟨job,hj,hrev,hstale,hv,hroots⟩ := h.owned r version hr
  refine ⟨job,(congrFun hjob _).trans hj,hrev,hstale,hv,fun x hx => ?_⟩
  by_cases hxr : x = root
  · subst hxr
    exact ⟨c,claim_written_self x c,hc r version hr (hroots x hx)⟩
  · obtain ⟨old,hold,hown⟩ := hroots x hx
    exact ⟨old,(claim_written _ _ x (by simpa using hxr)).trans hold,hown⟩

/-- A job may be written if a committed review still finds what it needs there. -/
theorem rooted_job (job : ProposalJob) (h : Rooted w) (hok : JobOk job job.id)
    (hkept : ∀ r version, Recorded w r version → r.proposalId = job.id →
      ∃ old, w.job job.id = some old ∧ job.reviewed = old.reviewed ∧ job.stale = old.stale ∧
        job.report = old.report ∧ job.roots = old.roots)
    (hreceipt : job.receipt.isSome → Committed w job.id) : Rooted (written w (.job job.id) job) := by
  have hself := job_written_self (w := w) job
  have hother (id : ProposalId) (hne : id ≠ job.id) := job_written (w := w) (.job job.id) job id
    (by simpa using hne)
  refine ⟨h.versions,fun id j hj => ?_,fun r version hr => ?_,fun id j hj hjr => ?_⟩
  · by_cases hid : id = job.id
    · subst hid
      cases hself.symm.trans hj
      exact hok
    · exact h.jobs id j ((hother id hid).symm.trans hj)
  · obtain ⟨old,hold,hrev,hstale,hv,hroots⟩ := h.owned r version hr
    by_cases hid : r.proposalId = job.id
    · obtain ⟨old',hold',h1,h2,h3,h4⟩ := hkept r version hr hid
      rw [hid] at hold
      cases hold.symm.trans hold'
      exact ⟨job,hid ▸ hself,h1.trans hrev,h2.trans hstale,by rw [h3, hv],fun x hx =>
        hroots x (h4 ▸ hx)⟩
    · exact ⟨old,(hother _ hid).trans hold,hrev,hstale,hv,hroots⟩
  · by_cases hid : id = job.id
    · subst hid
      cases hself.symm.trans hj
      exact hreceipt hjr
    · exact h.receipts id j ((hother id hid).symm.trans hj) hjr

end Writes

/-! ## Programs that keep the roots -/

section Keeping
variable {α β : Type} {w : World} {Q : α → World → Prop} {R : β → World → Prop}

def Keeps (Q : α → World → Prop) (p : M α) (w : World) : Prop :=
  Safe (fun _ => Rooted) Q (fun _ => Rooted) p w

theorem keeps_bind (p : M α) (f : α → M β) (h : Keeps Q p w)
    (hf : ∀ a t, Q a t → Keeps R (f a) t) : Keeps R (p >>= f) w :=
  safe_bind p f w (safe_mono p w h (fun _ _ hg => hg) hf fun _ _ he => he)

theorem keeps_mono (p : M α) {R : α → World → Prop} (h : Keeps Q p w)
    (hq : ∀ a t, Q a t → R a t) : Keeps R p w :=
  safe_mono p w h (fun _ _ hg => hg) hq fun _ _ he => he

theorem keeps_after (p : M α) (f : α → M β) (hp : Silent p) (h : Rooted w)
    (hf : ∀ a, Keeps R (f a) w) : Keeps R (p >>= f) w :=
  safe_after p f w hp (fun _ => h) hf

theorem keeps_refuse (c : Prop) [Decidable c] (e : TrustError) (f : Unit → M β) (h : Rooted w)
    (hf : ¬c → Keeps R (f ()) w) : Keeps R (refuseIf c e >>= f) w :=
  safe_bind _ _ _ (safe_refuse _ _ _ (fun _ => h) hf)

theorem safe_value {G : World → World → Prop} {E : TrustError → World → Prop} (k : Key)
    (f : Option (Entry k) → M β) (he : ∀ e, E e w)
    (hf : Safe G R E (f (value w.journal k)) w) : Safe G R E (readValue k >>= f) w := by
  rw [readValue, bind_assoc]
  exact safe_bind _ _ _ (safe_read _ _ hf he)

theorem keeps_value (k : Key) (f : Option (Entry k) → M β) (h : Rooted w)
    (hf : Keeps R (f (value w.journal k)) w) : Keeps R (readValue k >>= f) w :=
  safe_value k f (fun _ => h) hf

theorem keeps_save (k : Key) (v : Entry k) {Q : Unit → World → Prop} (h : Rooted w)
    (hw : Rooted (written w k v)) (hq : Q () (written w k v))
    (hsame : value w.journal k = some v → Q () w) : Keeps Q (confirmedSave k v) w :=
  safe_confirmed_save k v w hw hq hsame (fun _ => h) fun _ => hw

theorem keeps_native (f : Env → World → Except TrustError α) (h : Rooted w)
    (hq : ∀ i t, Later w t → ∀ a, f i t = .ok a → Q a t) : Keeps Q (native f) w :=
  have hr (i : Env) := (later_meanwhile w i).rooted h
  safe_atomic _ _ _ (fun i => .inr (hr i)) (fun i => hq i _ (later_meanwhile w i)) fun i _ _ => hr i

end Keeping

/-! ## Whether a proposal was committed -/

section Reads
variable {w : World}

theorem read_control_keeps (moment : Option ℕ) (h : Rooted w) :
    Keeps (fun r t => Later w t ∧ (∀ row, r = some row → row ∈ t.control) ∧
      (moment = none → r = t.control.head?)) (readControl moment) w := by
  refine keeps_native _ h fun i t ht a ha => ?_
  split at ha
  · cases ha
  cases ha
  refine ⟨ht,fun row hrow => ?_,?_⟩
  · cases moment with
    | none => exact List.mem_of_mem_head? hrow
    | some seq => exact List.mem_of_find?_eq_some hrow
  · rintro rfl
    rfl

def Tells (version : ℕ) (t : World) : Option ControlRow → Prop
  | some row => row ∈ t.control ∧ row.version = version
  | none => ∀ row ∈ t.control, row.version < version

theorem search_keeps (version rounds lo hi : ℕ) (h : Rooted w) :
    Keeps (fun r t => Later w t ∧ Tells version t r) (search version rounds lo hi) w := by
  induction rounds generalizing lo hi w with
  | zero => exact h
  | succ rounds ih =>
    unfold search
    split
    · exact h
    refine keeps_bind _ _ (read_control_keeps _ h) fun found t ht => ?_
    have hr := ht.1.rooted h
    have next (lo hi : ℕ) : Keeps (fun r u => Later w u ∧ Tells version u r)
        (search version rounds lo hi) t :=
      keeps_mono _ (ih lo hi hr) fun _ _ hq => ⟨later_trans ht.1 hq.1,hq.2⟩
    cases found with
    | none => exact next _ _
    | some row =>
      by_cases heq : row.version = version
      · simp only [if_pos heq]
        exact ⟨ht.1,ht.2.1 row rfl,heq⟩
      simp only [if_neg heq]
      split
      · split
        · exact hr
        · exact next _ _
      · exact next _ _

theorem control_version_keeps (version : ℕ) (h : Rooted w) :
    Keeps (fun r t => Later w t ∧ Tells version t r) (controlVersion version) w := by
  refine keeps_bind _ _ (read_control_keeps none h) fun found t ⟨hl,_,hhead⟩ => ?_
  have hr := hl.rooted h
  cases found with
  | none => exact hr
  | some current =>
    have hv : t.version = current.version := by rw [World.version, ← hhead rfl]; rfl
    have hmem : current ∈ t.control := List.mem_of_mem_head? (hhead rfl).symm
    show Keeps _ (if current.version < version then _ else _) t
    split
    next hlt => exact ⟨hl,fun row hrow => lt_of_le_of_lt (version_le t hr row hrow) (hv ▸ hlt)⟩
    split
    · exact ⟨hl,hmem,‹_›⟩
    · exact keeps_mono _ (search_keeps version 64 0 current.seq hr) fun _ _ hq =>
        ⟨later_trans hl hq.1,hq.2⟩

def Found (job : ProposalJob) (p : TrustProposal) (t : World) : Option TrustReceipt → Prop
  | some _ => ∃ row ∈ t.control, ∃ r, row.calibration = some r ∧ job.reviewed = some r
  | none => ∀ row ∈ t.control, job.governor.isSome → row.version = p.expectedVersion+1 →
      ∀ r, job.reviewed = some r → row.calibration ≠ some r

theorem recovered_keeps (job : ProposalJob) (p : TrustProposal) (h : Rooted w) :
    Keeps (fun r t => Later w t ∧ Found job p t r) (recovered job p) w := by
  unfold recovered
  split
  next reviewed governor hrev hgov =>
    refine keeps_bind _ _ (control_version_keeps _ h) fun found t ⟨hl,htells⟩ => ?_
    have hr := hl.rooted h
    cases found with
    | none => exact ⟨hl,fun row hrow _ hv => absurd hv (Nat.ne_of_lt (htells row hrow))⟩
    | some row =>
      by_cases hcal : row.calibration = some reviewed
      · simp only [ne_eq, hcal, not_true_eq_false, if_false]
        exact keeps_refuse _ _ _ hr fun _ => ⟨hl,row,htells.1,reviewed,hcal,hrev⟩
      · simp only [ne_eq, hcal, not_false_eq_true, if_true]
        refine ⟨hl,fun row' hrow' _ hv r hr' hcal' => hcal ?_⟩
        have hnodup : (t.control.map ControlRow.version).Nodup := hr.versions.imp fun h => Nat.ne_of_gt h
        rw [hrev] at hr'
        cases hr'
        rw [List.inj_on_of_nodup_map hnodup htells.1 hrow' (htells.2.trans hv.symm)]
        exact hcal'
  next hnone =>
    refine ⟨later_refl w,fun row _ hgov _ r hr => ?_⟩
    obtain ⟨governor,hgovernor⟩ := Option.isSome_iff_exists.1 hgov
    exact (hnone r governor hr hgovernor).elim

theorem recover_keeps (h : Rooted w) :
    Keeps (fun _ t => Later w t ∧ t.pending = none) recover w := by
  refine safe_atomic _ _ _ (fun i => .inr ?_) (fun i _ hi => ?_) fun i _ hi => ?_
  · split
    · exact (later_settled _).rooted ((later_meanwhile w i).rooted h)
    · exact (later_meanwhile w i).rooted h
  · simp only [hi]
    exact ⟨later_trans (later_meanwhile w i) (later_settled _),pending_settled _⟩
  · simp only [hi]
    exact (later_meanwhile w i).rooted h

end Reads

/-! ## The job of an operation -/

/-- The job in hand is the one that is stored. -/
def Has (job : ProposalJob) (w : World) : Prop := Rooted w ∧ w.job job.id = some job

theorem has_later {a b : World} (job : ProposalJob) (h : Has job a) (hl : Later a b) : Has job b :=
  ⟨hl.rooted h.1,by rw [World.job, hl.journal]; exact h.2⟩

theorem job_ok {job : ProposalJob} {w : World} (h : Has job w) : JobOk job job.id :=
  h.1.jobs _ job h.2

theorem free_of_missing {job : ProposalJob} {w : World} (h : Has job w) (hp : w.pending = none)
    (hf : Found job job.report w none) : Free job.id w := by
  refine ⟨hp,fun ⟨row,hrow,r,hcal,hid⟩ => ?_⟩
  obtain ⟨old,hold,hrev,-,hv,-⟩ := h.1.owned r _ (.inl ⟨row,hrow,hcal,rfl⟩)
  rw [hid, h.2] at hold
  cases hold
  exact hf row hrow ((job_ok h).reviewed r hrev).2 hv.symm r hrev hcal

theorem committed_of_found {job : ProposalJob} {p : TrustProposal} {w : World} (h : Has job w)
    (receipt : TrustReceipt) (hf : Found job p w (some receipt)) : Committed w job.id := by
  obtain ⟨row,hrow,r,hcal,hrev⟩ := hf
  exact ⟨row,hrow,r,hcal,((job_ok h).reviewed r hrev).1⟩

theorem recorded_ne {id : ProposalId} {w : World} (h : Free id w) (r : Reviewed) (version : ℕ)
    (hr : Recorded w r version) : r.proposalId ≠ id := by
  intro hid
  rcases hr with ⟨row,hrow,hcal,-⟩ | ⟨c,hc,-⟩
  · exact h.2 ⟨row,hrow,r,hcal,hid⟩
  · rw [h.1] at hc
    cases hc

section Steps
variable {w : World} (job : ProposalJob)

theorem keeps_job {α : Type} {R : α → World → Prop} (id : ProposalId) (f : ProposalJob → M α)
    (h : Rooted w) (hf : ∀ job, Has job w → job.id = id → Keeps R (f job) w) :
    Keeps R (jobOf id >>= f) w := by
  rw [jobOf, bind_assoc]
  refine keeps_value (.job id) _ h ?_
  cases hj : value w.journal (.job id) with
  | none => exact h
  | some job =>
    have hid := (h.jobs id job hj).named
    exact hf job ⟨h,hid ▸ hj⟩ hid

theorem keeps_report {α : Type} {R : α → World → Prop} (f : TrustProposal → M α) (h : Has job w)
    (hf : Keeps R (f job.report) w) : Keeps R (proposal job.id >>= f) w := by
  rw [proposal, bind_assoc]
  refine keeps_job _ _ h.1 fun found hfound hid => ?_
  have hsame := hfound.2
  rw [hid, h.2] at hsame
  cases hsame
  rw [bind_assoc]
  refine keeps_after _ _ (silent_query _) h.1 fun _ => ?_
  rw [bind_assoc]
  exact keeps_refuse _ _ _ h.1 fun _ => hf

theorem save_job_keeps (h : Rooted w) (hw : Rooted (written w (.job job.id) job)) :
    Keeps (fun _ t => Has job t ∧ t.control = w.control ∧ t.pending = w.pending) (saveJob job) w :=
  keeps_save _ _ h hw ⟨⟨hw,job_written_self job⟩,rfl,rfl⟩ fun hs => ⟨⟨h,hs⟩,rfl,rfl⟩

theorem rooted_open (h : Has job w) (hf : Free job.id w) (next : ProposalJob)
    (hid : next.id = job.id) (hok : JobOk next job.id) (hreceipt : next.receipt = job.receipt) :
    Rooted (written w (.job next.id) next) := by
  refine rooted_job next h.1 (hid ▸ hok) (fun r version hr heq => ?_) fun hs => ?_
  · exact (recorded_ne hf r version hr (heq.trans hid)).elim
  · rw [hid]
    exact h.1.receipts _ job h.2 (hreceipt ▸ hs)

theorem release_keeps (roots : List String) (h : Rooted w) (hf : Free job.id w) :
    Keeps (fun _ t => Rooted t) (releaseRoots job roots) w := by
  induction roots generalizing w with
  | nil => exact h
  | cons root roots ih =>
    refine keeps_bind (Q := fun _ t => Rooted t ∧ Free job.id t) _ _ ?_ fun _ _ ht => ih ht.1 ht.2
    refine keeps_value (.unit root) _ h ?_
    cases hc : value w.journal (.unit root) with
    | none => exact ⟨h,hf⟩
    | some claim =>
      refine safe_do_if _ _ _ (fun ⟨hid,_⟩ => ?_) fun _ => ⟨h,hf⟩
      have hw : Rooted (written w (.unit root) { claim with abandoned := true }) := by
        refine rooted_claim root _ h fun r version hr ⟨c,hown,hp,_⟩ => ?_
        cases hc.symm.trans hown
        exact (recorded_ne hf r version hr (hp.symm.trans hid)).elim
      exact keeps_save _ _ h hw ⟨hw,hf⟩ fun _ => ⟨h,hf⟩

theorem stale_keeps (h : Has job w) (hf : Free job.id w) :
    Keeps (fun _ t => Rooted t) (stale job) w := by
  have hw := rooted_open job h hf { job with stale := true } rfl ⟨rfl,(job_ok h).reviewed⟩ rfl
  refine keeps_bind _ _ (save_job_keeps { job with stale := true } h.1 hw) fun _ t ht => ?_
  obtain ⟨⟨ht,-⟩,hcontrol,hpending⟩ := ht
  refine release_keeps { job with stale := true } job.roots ht ⟨hpending.trans hf.1,?_⟩
  rw [Committed, hcontrol]
  exact hf.2

theorem reserve_root_keeps (root : String) (h : Has job w) (hf : Free job.id w) :
    Keeps (fun _ t => (Has job t ∧ Free job.id t) ∧ (∀ x, Own w job.id x → Own t job.id x) ∧
      Own t job.id root) (reserveRoot job root) w := by
  refine keeps_value (.unit root) _ h.1 ?_
  have hw (hfree : ∀ r version, Recorded w r version → ¬Own w r.proposalId root) :
      Rooted (written w (.unit root) ⟨job.id,false,false⟩) :=
    rooted_claim root _ h.1 fun r version hr ho => (hfree r version hr ho).elim
  have hself : Own (written w (.unit root) ⟨job.id,false,false⟩) job.id root :=
    ⟨_,claim_written_self root _,rfl,rfl⟩
  have hstays (x : String) (hx : Own w job.id x) :
      Own (written w (.unit root) ⟨job.id,false,false⟩) job.id x := by
    by_cases hxr : x = root
    · subst hxr
      exact hself
    · obtain ⟨c,hc,hown⟩ := hx
      exact ⟨c,(claim_written _ _ x (by simpa using hxr)).trans hc,hown⟩
  have hjob : (written w (.unit root) ⟨job.id,false,false⟩).job job.id = some job :=
    (job_written (.unit root) _ job.id nofun).trans h.2
  have hsame (hs : value w.journal (.unit root) = some ⟨job.id,false,false⟩) :=
    (⟨⟨h,hf⟩,fun _ hx => hx,_,hs,rfl,rfl⟩ : (Has job w ∧ Free job.id w) ∧
      (∀ x, Own w job.id x → Own w job.id x) ∧ Own w job.id root)
  cases hc : value w.journal (.unit root) with
  | none =>
    have hw := hw fun r version _ ⟨c,hown,_⟩ => by cases hc.symm.trans hown
    exact safe_confirmed_put _ _ _ _ (fun _ => hw) (fun _ => ⟨⟨⟨hw,hjob⟩,hf⟩,hstays,hself⟩)
      hsame (fun _ => h.1) fun _ _ => hw
  | some old =>
    show Keeps _ (if old.abandoned = true then _ else _) w
    by_cases hold : old.abandoned = true
    · rw [if_pos hold]
      have hw := hw fun r version _ ⟨c,hown,_,hlive⟩ => by
        cases hc.symm.trans hown
        rw [hold] at hlive
        cases hlive
      exact keeps_save _ _ h.1 hw ⟨⟨⟨hw,hjob⟩,hf⟩,hstays,hself⟩ hsame
    · rw [if_neg hold]
      exact safe_refuse _ _ _ (fun _ => h.1) fun hid => ⟨⟨h,hf⟩,fun _ hx => hx,old,hc,
        not_not.1 hid,by simpa using hold⟩

theorem reserve_roots_keeps (roots : List String) (h : Has job w) (hf : Free job.id w) :
    Keeps (fun _ t => (Has job t ∧ Free job.id t) ∧ (∀ x, Own w job.id x → Own t job.id x) ∧
      ∀ root ∈ roots, Own t job.id root) (reserveRoots job roots) w := by
  induction roots generalizing w with
  | nil => exact ⟨⟨h,hf⟩,fun _ hx => hx,nofun⟩
  | cons root roots ih =>
    refine keeps_bind _ _ (reserve_root_keeps job root h hf) fun _ t ⟨⟨ht,hft⟩,hstays,hroot⟩ => ?_
    refine keeps_mono _ (ih ht hft) fun _ u ⟨hu,hkept,hroots⟩ => ?_
    refine ⟨hu,fun x hx => hkept x (hstays x hx),fun x hx => ?_⟩
    rcases List.mem_cons.1 hx with rfl | hx
    · exact hkept _ hroot
    · exact hroots x hx

theorem consume_keeps (roots : List String) (hsub : roots ⊆ job.roots) (h : Has job w)
    (hc : Committed w job.id) :
    Keeps (fun _ t => Has job t ∧ Committed t job.id) (consumeRoots job roots) w := by
  induction roots generalizing w with
  | nil => exact ⟨h,hc⟩
  | cons root roots ih =>
    obtain ⟨hroot,hrest⟩ := List.cons_subset.1 hsub
    refine keeps_bind (Q := fun _ t => Has job t ∧ Committed t job.id) _ _ ?_ fun _ t ht =>
      ih hrest ht.1 ht.2
    have hw : Rooted (written w (.unit root) ⟨job.id,true,false⟩) := by
      refine rooted_claim root _ h.1 fun r version hr ⟨c,hown,hp,_⟩ => ⟨?_,rfl⟩
      obtain ⟨row,hrow,s,hcal,hid⟩ := hc
      obtain ⟨old,hold,-,-,-,hroots⟩ := h.1.owned s _ (.inl ⟨row,hrow,hcal,rfl⟩)
      rw [hid, h.2] at hold
      cases hold
      obtain ⟨c',hc',hp',-⟩ := hroots root hroot
      cases hown.symm.trans hc'
      exact hid.symm.trans (hp'.symm.trans hp)
    exact keeps_save _ _ h.1 hw ⟨⟨hw,(job_written (.unit root) _ job.id nofun).trans h.2⟩,hc⟩ fun _ =>
      ⟨h,hc⟩

theorem save_aside (k : Key) (v : Entry k) (h : Has job w) (hj : ∀ id, Key.job id ≠ k)
    (hu : ∀ root, Key.unit root ≠ k) : Keeps (fun _ t => Has job t ∧ t.control = w.control ∧
      t.pending = w.pending) (confirmedSave k v) w :=
  have hw := rooted_aside k v h.1 hj hu
  keeps_save k v h.1 hw ⟨⟨hw,(job_written k v _ (hj _)).trans h.2⟩,rfl,rfl⟩ fun _ => ⟨h,rfl,rfl⟩

theorem drain_keeps (site : Site) (p : TrustProposal) (h : Has job w) (hc : Committed w job.id) :
    Keeps (fun _ t => Has job t ∧ Committed t job.id) (drain site p) w := by
  unfold drain
  split
  · refine keeps_after _ _ (silent_lift _) h.1 fun key => ?_
    refine keeps_value (.target key) _ h.1 ?_
    cases value w.journal (.target key) with
    | none => exact ⟨h,hc⟩
    | some target =>
      refine keeps_mono _ (save_aside job (.target key) _ h nofun nofun)
        fun _ t ⟨ht,hcontrol,_⟩ => ⟨ht,?_⟩
      rw [Committed, hcontrol]
      exact hc
  · exact ⟨h,hc⟩

theorem save_committed (next : ProposalJob) (h : Has job w) (hc : Committed w job.id)
    (hid : next.id = job.id) (hsame : next.reviewed = job.reviewed ∧ next.stale = job.stale ∧
      next.report = job.report ∧ next.roots = job.roots) (hgov : next.governor = job.governor) :
    Keeps (fun _ t => Has next t ∧ Committed t next.id) (saveJob next) w := by
  have hok : JobOk next job.id := ⟨hid,fun r hr => hgov ▸ (job_ok h).reviewed r (hsame.1 ▸ hr)⟩
  have hw := rooted_job next h.1 (hid ▸ hok) (fun _ _ _ _ => ⟨job,hid ▸ h.2,hsame⟩) fun _ => hid ▸ hc
  refine keeps_mono _ (save_job_keeps next h.1 hw) fun _ t ⟨ht,hcontrol,_⟩ => ⟨ht,?_⟩
  rw [Committed, hcontrol, hid]
  exact hc

theorem finish_keeps (site : Site) (p : TrustProposal) (receipt : TrustReceipt) (h : Has job w)
    (hc : Committed w job.id) : Keeps (fun _ t => Rooted t) (finish site job p receipt) w := by
  refine keeps_bind _ _ (consume_keeps job job.roots (fun _ hx => hx) h hc) fun _ t ⟨h,hc⟩ => ?_
  refine keeps_bind _ _ (save_committed job { job with receipt := some receipt } h hc rfl
    ⟨rfl,rfl,rfl,rfl⟩ rfl) fun _ t ⟨h,hc⟩ => ?_
  refine keeps_bind _ _ (drain_keeps _ site p h hc) fun _ t ⟨h,hc⟩ => ?_
  refine keeps_bind (Q := fun _ t => Rooted t) _ _ ?_ fun _ _ ht => ht
  unfold notify
  split
  · exact h.1
  refine keeps_after _ _ (silent_query _) h.1 fun _ => ?_
  exact keeps_mono _ (save_committed _ _ h hc rfl ⟨rfl,rfl,rfl,rfl⟩ rfl) fun _ _ hq => hq.1.1

theorem apply_keeps (r : Reviewed) (principal : String) (h : Has job w)
    (hstale : job.stale = false) (hr : job.reviewed = some r)
    (hown : ∀ root ∈ job.roots, Own w job.id root) :
    Keeps (fun _ t => Has job t) (applyTrustCalibration job.report.expectedVersion r principal) w := by
  have hid := ((job_ok h).reviewed r hr).1
  refine fun i => (fun hall => ⟨.inr hall.1,hall⟩ : Has job _ → _) ?_
  have hm := later_meanwhile w i
  have hs := later_trans hm (later_settled _)
  have hjob := has_later job h hs
  have ho : Owned (w.meanwhile i).settled r (job.report.expectedVersion+1) := by
    refine ⟨job,hid ▸ hjob.2,hr,hstale,rfl,fun root hroot => ?_⟩
    rw [Own, World.claim, hs.journal, hid]
    exact hown root hroot
  dsimp only
  split
  · exact has_later job h hm
  · refine ⟨⟨hjob.1.versions,hjob.1.jobs,fun s version hrec => ?_,hjob.1.receipts⟩,hjob.2⟩
    rcases hrec with hrow | ⟨c,hc,rfl,rfl⟩
    · exact hjob.1.owned s version (.inl hrow)
    · cases hc
      exact ho
  · unfold World.commit
    split
    next hv =>
      refine ⟨rooted_push _ _ _ _ _ _ hjob.1 fun s hs => ?_,hjob.2⟩
      cases hs
      rw [hv]
      exact ho
    · exact hjob

/-- The recovery of a review settles whether its job was committed. -/
theorem recovered_job {β : Type} {R : β → World → Prop} (f : Option TrustReceipt → M β)
    (h : Has job w) (hp : w.pending = none)
    (hsome : ∀ receipt t, Has job t → Committed t job.id → Keeps R (f (some receipt)) t)
    (hnone : ∀ t, Has job t → Free job.id t → Keeps R (f none) t) :
    Keeps R (recovered job job.report >>= f) w := by
  refine keeps_bind _ _ (recovered_keeps job _ h.1) fun found t ⟨hl,hfound⟩ => ?_
  have ht := has_later job h hl
  cases found with
  | some receipt => exact hsome receipt t ht (committed_of_found ht receipt hfound)
  | none => exact hnone t ht (free_of_missing ht (hl.idle hp) hfound)

theorem commit_keeps (site : Site) (r : Reviewed) (principal : String) (h : Has job w)
    (hstale : job.stale = false) (hr : job.reviewed = some r)
    (hown : ∀ root ∈ job.roots, Own w job.id root) :
    Keeps (fun _ t => Rooted t) (commitReview site job job.report r principal) w := by
  refine keeps_bind _ _ (apply_keeps job r principal h hstale hr hown) fun reported t h => ?_
  refine keeps_bind _ _ (recover_keeps h.1) fun _ t ⟨hl,hp⟩ => ?_
  refine recovered_job job _ (has_later job h hl) hp (fun receipt t h hc => finish_keeps job site _
    receipt h hc) fun t h hf => ?_
  refine keeps_bind _ _ (control_version_keeps _ h.1) fun taken t ⟨hl,_⟩ => ?_
  have h := has_later job h hl
  refine keeps_bind (Q := fun _ t => Rooted t) _ _ ?_ fun _ _ ht => ht
  exact safe_do_if _ _ _ (fun _ => stale_keeps job h (hl.free _ hf)) fun _ => h.1

theorem recheck_silent (p : TrustProposal) (references : List String) : Silent (recheck p references) := by
  induction references with
  | nil => trivial
  | cons reference rest ih =>
    exact silent_bind _ _ (silent_query _) fun _ => silent_bind _ _ (silent_refuse _ _) fun _ => ih

theorem review_keeps (native : TrustCalibrationProposal) (principal reason : String)
    (h : Has job w) (hf : Free job.id w) (hstale : job.stale = false) :
    Keeps (fun next t => (Has next t ∧ Free next.id t) ∧ next.stale = false ∧
      next.report = job.report) (review job native principal reason) w := by
  unfold review
  split
  · refine keeps_after _ _ (silent_query _) h.1 fun _ => ?_
    refine keeps_after _ _ (silent_query _) h.1 fun _ => ?_
    let next := { job with
      reviewed := some ⟨native,principal,reason,job.id⟩
      governor := some principal }
    have hw : Rooted (written w (.job next.id) next) := by
      refine rooted_open job h hf next rfl ⟨rfl,fun r hr => ?_⟩ rfl
      cases hr
      exact ⟨rfl,rfl⟩
    refine keeps_bind _ _ (save_job_keeps next h.1 hw) fun _ t ⟨ht,hcontrol,hpending⟩ => ?_
    refine ⟨⟨ht,hpending.trans hf.1,?_⟩,hstale,rfl⟩
    rw [Committed, hcontrol]
    exact hf.2
  · exact ⟨⟨h,hf⟩,hstale,rfl⟩

theorem apply_current_keeps (site : Site) (native : TrustCalibrationProposal) (version : ℕ)
    (current : TrustConfiguration) (principal reason : String) (h : Has job w)
    (hf : Free job.id w) (hstale : job.stale = false) : Keeps (fun _ t => Rooted t)
      (applyCurrent site job job.report native version current principal reason) w := by
  refine keeps_refuse _ _ _ h.1 fun _ => ?_
  refine keeps_after _ _ (silent_ite _ _ _ (recheck_silent _ _) trivial) h.1 fun _ => ?_
  refine keeps_bind _ _ (review_keeps job native principal reason h hf hstale)
    fun next t ⟨⟨h,hf⟩,hstale,hreport⟩ => ?_
  refine keeps_refuse _ _ _ h.1 fun _ => ?_
  refine keeps_bind _ _ (reserve_roots_keeps next next.roots h hf) fun _ t ⟨⟨h,_⟩,_,hown⟩ => ?_
  rw [← hreport]
  split
  · exact h.1
  next r hr => exact commit_keeps next site r principal h hstale hr hown

theorem apply_new_keeps (site : Site) (principal reason : String) (h : Has job w)
    (hf : Free job.id w) :
    Keeps (fun _ t => Rooted t) (applyNew site job job.report principal reason) w := by
  refine keeps_refuse _ _ _ h.1 fun hstale => ?_
  refine keeps_after _ _ (silent_lift _) h.1 fun native => ?_
  refine keeps_after _ _ (silent_query _) h.1 fun _ => ?_
  rw [trustControl, bind_assoc]
  refine keeps_bind _ _ (read_control_keeps none h.1) fun found t ⟨hl,_⟩ => ?_
  have h := has_later job h hl
  have hf := hl.free _ hf
  rw [bind_assoc]
  refine keeps_after _ _ (silent_lift _) h.1 fun row => ?_
  show Keeps _ (if row.version ≠ job.report.expectedVersion then _ else _) t
  split
  · exact keeps_bind _ _ (stale_keeps job h hf) fun _ _ ht => ht
  · exact apply_current_keeps job site native _ _ principal reason h hf (by simpa using hstale)

end Steps

section Operations
variable {w : World} (site : Site) (principal : String) (id : ProposalId) (reason : String)

theorem governor_silent : Silent (governor site principal) :=
  silent_bind _ _ (silent_lift _) fun _ => silent_bind _ _ (silent_refuse _ _) fun _ => silent_query _

theorem apply_inner_keeps (h : Rooted w) :
    Keeps (fun _ t => Rooted t) (applyInner site principal id reason) w := by
  refine keeps_after _ _ (governor_silent site principal) h fun _ => ?_
  refine keeps_refuse _ _ _ h fun _ => ?_
  refine keeps_job id _ h fun job h hid => ?_
  subst hid
  refine keeps_report job _ h ?_
  refine keeps_after _ _ (silent_lift _) h.1 fun cfg => ?_
  refine keeps_refuse _ _ _ h.1 fun _ => ?_
  refine keeps_bind _ _ (recover_keeps h.1) fun _ t ⟨hl,hp⟩ => ?_
  exact recovered_job job _ (has_later job h hl) hp (fun receipt t h hc => finish_keeps job site _
    receipt h hc) fun t h hf => apply_new_keeps job site principal reason h hf

theorem abandon_keeps (h : Rooted w) :
    Keeps (fun _ t => Rooted t) (abandon site principal id reason) w := by
  refine keeps_after _ _ (governor_silent site principal) h fun _ => ?_
  refine keeps_refuse _ _ _ h fun _ => ?_
  refine keeps_bind _ _ (recover_keeps h) fun _ t ⟨hl,hp⟩ => ?_
  refine keeps_job id _ (hl.rooted h) fun job h hid => ?_
  subst hid
  refine keeps_report job _ h ?_
  refine recovered_job job _ h hp (fun _ _ h _ => h.1) fun t h hf => ?_
  refine keeps_after _ _ (silent_query _) h.1 fun _ => ?_
  refine keeps_bind _ _ (save_aside job (.abandonment job.id) _ h nofun nofun)
    fun _ t ⟨h,hcontrol,hpending⟩ => stale_keeps job h ⟨hpending.trans hf.1,?_⟩
  rw [Committed, hcontrol]
  exact hf.2

/-- A proposal that is published has no job yet, so no committed review names it. -/
theorem publish_keeps (p : TrustProposal) (sources : List String) (h : Rooted w) :
    Keeps (fun _ t => Rooted t) (publish p sources) w := by
  refine keeps_after _ _ (silent_query _) h fun bytes => ?_
  refine keeps_refuse _ _ _ h fun _ => ?_
  refine keeps_after _ _ (silent_query _) h fun _ => ?_
  refine keeps_value (.job p.id) _ h ?_
  refine keeps_bind (Q := fun _ t => Rooted t) _ _ (safe_do_if _ _ _ (fun hn => ?_) fun _ => h)
    fun _ _ ht => ht
  have hw := rooted_job ⟨p.id,p.actorRef,p,sources,p.roots,none,none,none,false,false⟩ h ⟨rfl,nofun⟩
    (fun r version hr hid => by
      obtain ⟨job,hj,-⟩ := h.owned r version hr
      rw [hid] at hj
      cases (Option.isNone_iff_eq_none.1 hn).symm.trans hj) nofun
  exact safe_confirmed_put _ _ _ _ (fun _ => hw) (fun _ => hw) (fun _ => h) (fun _ => h) fun _ _ => hw

end Operations

theorem discipline (site : Site) : Discipline (operate site) id (fun _ => Rooted)
    (fun _ => Rooted) fun _ _ _ => True where
  mid _ _ h := h
  boot _ _ h := h
  op o _ w h := by
    have hk : Keeps (fun _ t => Rooted t) (operate site o) w := by
      cases o with
      | publish p sources => exact keeps_bind _ _ (publish_keeps p sources h) fun _ _ ht => ht
      | apply principal id reason =>
        exact keeps_bind _ _ (apply_inner_keeps site principal id reason h) fun _ _ ht => ht
      | abandon principal id reason => exact abandon_keeps site principal id reason h
    exact safe_mono _ w hk (fun _ _ hg => ⟨trivial,hg⟩) (fun _ _ hq => hq) fun _ _ he => he

theorem empty_rooted : Rooted World.empty := by
  refine ⟨List.Pairwise.nil,?_,?_,?_⟩
  · intro _ _ h
    cases h
  · rintro r version (⟨row,hrow,-⟩ | ⟨c,hc,-⟩)
    · cases hrow
    · cases hc
  · intro _ _ h
    cases h

theorem reached_rooted (site : Site) (events : List (Event Op Env)) : Rooted (reached site events) :=
  (run_sound (discipline site) _ events
    (sound_idle (discipline site) ⟨World.empty,none,[]⟩ rfl empty_rooted)).1

/-- What the runtime promises of the roots that were consumed. -/
structure ConsumedOnce (w : World) : Prop where
  committed : ∀ id job, w.job id = some job → job.receipt.isSome → Committed w id
  held : ∀ id job, w.job id = some job → Committed w id → ∀ root ∈ job.roots, Own w id root
  disjoint : ∀ a b ja jb, w.job a = some ja → w.job b = some jb → Committed w a → Committed w b →
    a ≠ b → ∀ root ∈ ja.roots, root ∉ jb.roots

/-- Over every schedule of the operations of the trust runtime, with stops and lost
acknowledgements: a receipt names a committed review, a committed proposal still holds its roots,
and two of them have no root in common. -/
theorem roots_consumed_once (site : Site) (events : List (Event Op Env)) :
    ConsumedOnce (reached site events) := by
  have h := reached_rooted site events
  generalize reached site events = w at h
  have held (id : ProposalId) (job : ProposalJob) (hj : w.job id = some job)
      (hc : Committed w id) : ∀ root ∈ job.roots, Own w id root := by
    obtain ⟨row,hrow,r,hcal,rfl⟩ := hc
    obtain ⟨old,hold,-,-,-,hroots⟩ := h.owned r _ (.inl ⟨row,hrow,hcal,rfl⟩)
    cases hj.symm.trans hold
    exact hroots
  refine ⟨h.receipts,held,fun a b ja jb ha hb hca hcb hne root hra hrb => hne ?_⟩
  obtain ⟨c,hc,rfl,-⟩ := held a ja ha hca root hra
  obtain ⟨d,hd,rfl,-⟩ := held b jb hb hcb root hrb
  cases hc.symm.trans hd
  rfl

end AndaBrain.Trust
