import AndaBrain.ErasedPreviews

/-!
# Erased text over whole runs

Every call of the object keeps what the stored previews owe accounted for, wherever a storage or
native call of it fails.
-/

set_option autoImplicit false

namespace AndaBrain.ManagedChanges
open Foundation.Throwing
open WorkerMemory (ElementId ElementState Failure fail Target PendingScrub)

def Tidy (w : World) : Prop :=
  ∀ s, w.scrub = some s → ∃ k c, w.control.pending = some k ∧ w.changes.lookup k = some c ∧
    c.kind = .delete

structure Stable (w : World) : Prop where
  sound : Sound w
  tidy : Tidy w

theorem Tidy.kept {w next : World} (h : Tidy w) (hk : Kept w next) : Tidy next := by
  intro s hs
  rw [hk.pending,hk.changes]
  exact h s (hk.scrub.symm.trans hs)

theorem Stable.kept {w next : World} (h : Stable w) (hk : Kept w next) : Stable next :=
  ⟨h.sound.kept hk,h.tidy.kept hk⟩

theorem Stable.called {w : World} (h : Stable w) : Stable { w with calls := w.calls+1 } :=
  h.kept ⟨rfl,rfl,rfl,rfl,rfl⟩

theorem Tidy.put {w : World} {key : String} {c : StoredChange} (h : Tidy w)
    (halike : Alike w key c) : Tidy (w.store key c) := by
  intro s hs
  obtain ⟨k,d,hp,hl,hd⟩ := h s hs
  obtain ⟨d',hl',hkind,-⟩ := alike_store halike hl
  exact ⟨k,d',hp,hl',hkind.trans hd⟩

theorem Stable.expired {w : World} {key : String} {c : StoredChange} (h : Stable w)
    (hl : w.changes.lookup key = some c) :
    Stable (w.store key (clearContent { c with state := .discarded })) :=
  ⟨h.sound.expired hl,h.tidy.put (cleared_alike hl)⟩

def Steady {α : Type} (m : Action α) : Prop := Triple Stable m (fun _ => Stable) Stable

theorem call_steady : Steady call := triple_call fun _ h => h.called

theorem of_except_steady {α : Type} (x : Except Failure α) : Steady (ofExcept x) :=
  triple_of_except (fun _ _ _ h => h) fun _ h => h

section
variable {site : Site} {engine : Engine}

variable (site engine) in
theorem show_steady (now : ℕ) (auth : Auth) (operation : String) :
    Steady (showChange site engine now auth operation) := by
  intro w hw
  exact triple_mono (show_spec site engine (R := Stable) (fun _ h => h.called)
    (fun _ _ _ h hl => h.expired hl) w now auth operation) (fun _ h => h) (fun _ _ h => h.1)
    (fun _ h => h) w ⟨rfl,hw⟩

theorem check_ok {w : World} {epoch : ℕ} (h : check site w epoch = .ok ()) :
    w.control.pending = none ∧ w.scrub = none := by
  unfold check WorkerMemory.ProductStore.check World.product at h
  dsimp only at h
  by_cases hshut : (w.control.pending.isSome || w.scrub.isSome) = true
  · rw [if_pos hshut] at h
    cases h
  · simpa [Option.isSome_iff_ne_none] using hshut

theorem Stable.put_new {w : World} {key : String} (h : Stable w)
    (hfree : w.changes.lookup key = none) (hpending : w.control.pending = none)
    (hsince : w.since key = []) (c : StoredChange) : Stable (w.store key c) := by
  have hother : ∀ {k d}, w.changes.lookup k = some d →
      (w.store key c).changes.lookup k = some d := by
    intro k d hl
    rw [store_lookup,if_neg]
    · exact hl
    · rintro rfl
      rw [hfree] at hl
      cases hl
  refine ⟨fun ht => ?_,fun s hs => ?_⟩
  · have hdue := h.sound ht
    refine ⟨fun k m hp => ?_,fun k m hp hl id hid => ?_,fun s k hs he => ?_⟩
    · rw [show (w.store key c).control.pending = none from hpending] at hp
      cases hp
    · rw [store_lookup] at hl
      split at hl
      · rename_i hk
        rw [hk,show (w.store key c).since key = [] from hsince] at hid
        cases hid
      rcases hdue.others k m hp hl id hid with hsealed | hscrub | ⟨k',d,hp',-⟩ | hnone
      · exact .inl hsealed
      · exact .inr (.inl hscrub)
      · rw [hpending] at hp'
        cases hp'
      · exact hnone.elim
    · obtain ⟨hp,d,hl,hd⟩ := hdue.excepted s k hs he
      exact ⟨hp,d,hother hl,hd⟩
  · obtain ⟨k,d,hp,hl,hd⟩ := h.tidy s hs
    exact ⟨k,d,hp,hother hl,hd⟩

theorem Stable.forgets {w : World} (h : Stable w) {since : String → List ElementId}
    (hsub : ∀ k, ∀ id ∈ since k, id ∈ w.since k) : Stable { w with since } :=
  ⟨fun ht => ⟨fun k c hp hl id hid => (h.sound ht).own k c hp hl id (hsub k id hid),
    fun k c hp hl id hid => (h.sound ht).others k c hp hl id (hsub k id hid),
    (h.sound ht).excepted⟩,h.tidy⟩

variable (site engine) in
theorem prepare_steady (now : ℕ) (auth : Auth) (input : ChangeInput) :
    Steady (prepare site engine now auth input) := by
  unfold Steady prepare
  refine triple_refuse (fun _ h => h) fun _ => triple_refuse (fun _ h => h) fun _ => ?_
  refine triple_read_bind fun v => triple_except_bind (fun _ h => h.2) fun key _ => ?_
  cases hl : v.changes.lookup key with
  | some old =>
    refine triple_bind (triple_mono (expire_stored (R := Stable) (fun _ h => h.called)
      (fun _ h hl => h.expired hl)) (fun w h => ⟨h.2,?_⟩) (fun _ _ h => h.1) fun _ h => h)
      fun related => ?_
    · rw [← h.1]
      exact hl
    refine triple_refuse (fun _ h => h) fun _ => ?_
    exact triple_refuse (fun _ h => h) fun _ => show_steady site engine now auth _
  | none =>
    refine triple_except_bind (fun _ h => h.2) fun _ hok => ?_
    refine triple_pre (P := fun w => Stable w ∧ w.changes.lookup key = none ∧
      w.control.pending = none) ?_ fun w h => ⟨h.2,h.1 ▸ hl,h.1 ▸ (check_ok hok).1⟩
    refine triple_except_bind (fun _ h => h.1) fun shown _ => ?_
    refine triple_except_bind (fun _ h => h.1) fun asked _ => ?_
    refine triple_keep (triple_same (fun _ h => h.1) (triple_each fun request _ =>
      triple_dry_run (fun w h => ⟨h.1.called,h.2⟩) fun w nexus h =>
        ⟨h.1.kept ⟨rfl,rfl,rfl,rfl,rfl⟩,h.2⟩)) fun _ => ?_
    refine triple_bind (R := fun _ w => (Stable w ∧ w.changes.lookup key = none ∧
      w.control.pending = none) ∧ w.since key = []) (triple_update fun w h => ?_) fun _ => ?_
    · refine ⟨⟨h.1.forgets fun k id hid => ?_,h.2⟩,if_pos rfl⟩
      split at hid
      · cases hid
      · exact hid
    · exact triple_bind (R := fun _ => Stable) (triple_put (fun w h => ⟨⟨h.1.1.called,h.1.2⟩,h.2⟩)
        (fun w h => h.1.1.put_new h.1.2.1 h.1.2.2 h.2 _) fun w h => h.1.1) fun _ =>
          triple_pure fun _ h => h

theorem discard_steady (auth : Auth) (operation : String) :
    Steady (discard site engine auth operation) := by
  unfold Steady discard
  refine triple_keep (triple_read fun _ h => h) fun v => ?_
  refine triple_keep (of_except_steady _) fun key => triple_bind find_spec fun stored => ?_
  refine triple_refuse (fun _ h => h.1) fun _ => ?_
  exact triple_put (fun w h => ⟨h.1.called,h.2⟩) (fun w h => h.1.expired h.2) fun _ h => h.1

theorem invalidate_steady : Steady (invalidate site) := by
  unfold Steady invalidate
  refine triple_bind (R := fun v w => v.control = w.control ∧ Stable w)
    (triple_read fun _ h => ⟨rfl,h⟩) fun v => ?_
  refine triple_except_bind (fun _ h => h.2) fun _ _ => triple_refuse (fun _ h => h.2) fun _ => ?_
  refine triple_bind (R := fun _ => Stable) (triple_called (fun w h => ⟨h.1,h.2.called⟩)
    (fun _ h => h.2) (triple_update fun w h => ?_)) fun _ => call_steady
  exact h.2.kept ⟨by rw [← h.1],rfl,rfl,rfl,rfl⟩

end

/-! ## Carrying a change out -/

structure Carries (key : String) (d : Draft) : Prop where
  pending : d.1.control.pending = some key
  alike : Alike d.1 key d.2
  clear : d.1.scrub = none ∨ d.2.kind = .delete
  due : Told d.1 → Due Nothing Nothing d.1 ∧ ∀ id ∈ d.1.since key,
    Firm id d.2 ∨ d.2.kind = .delete ∧ Begun d.1 key

def Synced (key : String) (d : Draft) : Prop := d.1.changes.lookup key = some d.2

section
variable {key : String} {w : World} {t : StoredChange}

theorem Carries.stable (h : Carries key (w,t)) : Stable w := by
  refine ⟨fun ht => (h.due ht).1,fun s hs => ?_⟩
  obtain ⟨old,hl,hkind,-⟩ := h.alike
  refine ⟨key,old,h.pending,hl,?_⟩
  rcases h.clear with hnone | hdelete
  · rw [hnone] at hs
    cases hs
  · exact hkind.symm.trans hdelete

theorem Carries.kept {next : World} (h : Carries key (w,t)) (hk : Kept w next) :
    Carries key (next,t) := by
  refine ⟨hk.pending.trans h.pending,?_,h.clear.imp_left fun hs => hk.scrub.trans hs,fun ht => ?_⟩
  · obtain ⟨old,hl,halike⟩ := h.alike
    exact ⟨old,by rw [hk.changes]; exact hl,halike⟩
  obtain ⟨hdue,hown⟩ := h.due (ht.kept hk)
  refine ⟨hdue.kept hk,fun id hid => ?_⟩
  rw [hk.since] at hid
  refine (hown id hid).imp_right fun hd => ⟨hd.1,?_⟩
  rw [Begun,hk.erasures]
  exact hd.2

theorem Carries.called (h : Carries key (w,t)) :
    Carries key ({ w with calls := w.calls+1 },t) := h.kept ⟨rfl,rfl,rfl,rfl,rfl⟩

theorem Carries.edited {t' : StoredChange} (h : Carries key (w,t)) (hkind : t'.kind = t.kind)
    (htargets : t'.preview.targets = t.preview.targets)
    (hfirm : Told w → ∀ id ∈ w.since key, Firm id t → Firm id t') : Carries key (w,t') := by
  obtain ⟨old,hl,hold,htold⟩ := h.alike
  refine ⟨h.pending,⟨old,hl,hkind.trans hold,htargets.trans htold⟩,
    h.clear.imp_right fun hd => hkind.trans hd,fun ht => ⟨(h.due ht).1,fun id hid => ?_⟩⟩
  exact ((h.due ht).2 id hid).imp (hfirm ht id hid) fun hd => ⟨hkind.trans hd.1,hd.2⟩

theorem Carries.put (h : Carries key (w,t)) : Carries key (w.store key t,t) := by
  refine ⟨h.pending,⟨t,by rw [store_lookup,if_pos rfl],rfl,rfl⟩,h.clear,fun ht => ?_⟩
  obtain ⟨hdue,hown⟩ := h.due ht
  refine ⟨hdue.put h.alike (fun _ id hid => ?_) fun hne => absurd h.pending hne,hown⟩
  exact (hown id hid).imp_right Or.inl

theorem erasure_of_deletion (outcome : Outcome) (hl : w.changes.lookup key = some t)
    (hdelete : t.kind = .delete) : (erasureOf w key outcome).owner = some key ∧
    (erasureOf w key outcome).scope = targetIds t := by
  simp [erasureOf,hl,Option.filter,hdelete,targetIds]

theorem erasure_of_other (outcome : Outcome) (hl : w.changes.lookup key = some t)
    (hother : t.kind ≠ .delete) : (erasureOf w key outcome).owner = none ∧
    (erasureOf w key outcome).scope = [] := by
  simp [erasureOf,hl,Option.filter,hother]

/-- What a request of the pending change purges is owed to its deletion, or is recognised. -/
theorem Carries.purged (h : Carries key (w,t)) (hl : w.changes.lookup key = some t)
    (nexus : Nexus) (executed : List Execution) (outcome : Outcome) :
    Carries key
      ({ w with
          nexus, executed
          erasures := w.erasures++[erasureOf w key outcome]
          since := fun k => w.since k++outcome.purged },t) := by
  refine ⟨h.pending,h.alike,h.clear,fun ht => ?_⟩
  have hnoted := ht (erasureOf w key outcome) (List.mem_append_right _ List.mem_cons_self)
  obtain ⟨hdue,hown⟩ := h.due fun e he => ht e (List.mem_append_left _ he)
  let next : World :=
    { w with
      nexus, executed
      erasures := w.erasures++[erasureOf w key outcome]
      since := fun k => w.since k++outcome.purged }
  have hbegun : ∀ k, Begun w k → Begun next k := fun k ⟨e,he,ho,hp⟩ =>
    ⟨e,List.mem_append_left _ he,ho,hp⟩
  have hstarts : ∀ id ∈ outcome.purged, t.kind = .delete → Begun next key := fun id hid hdelete =>
    ⟨erasureOf w key outcome,List.mem_append_right _ List.mem_cons_self,
      (erasure_of_deletion outcome hl hdelete).1,List.ne_nil_of_mem hid⟩
  have hnew : ∀ id ∈ outcome.purged, Firm id t ∨ t.kind = .delete ∧ Begun next key := by
    intro id hid
    by_cases hdelete : t.kind = .delete
    · exact .inr ⟨hdelete,hstarts id hid hdelete⟩
    left
    refine hnoted.fenced key t hl ?_ h.pending id hid
    rw [(erasure_of_other outcome hl hdelete).1]
    exact fun heq => nomatch heq
  have hall : ∀ id ∈ next.since key, Firm id t ∨ t.kind = .delete ∧ Begun next key := by
    intro id hid
    rcases List.mem_append.mp hid with hid | hid
    · exact (hown id hid).imp_right fun hd => ⟨hd.1,hbegun key hd.2⟩
    · exact hnew id hid
  refine ⟨⟨fun k c hp hc id hid => ?_,fun k c hp hc id hid => ?_,hdue.excepted⟩,hall⟩
  · obtain rfl := Option.some.inj (h.pending.symm.trans hp)
    obtain rfl := Option.some.inj (hl.symm.trans hc)
    exact (hall id hid).imp_right Or.inl
  rcases List.mem_append.mp hid with hid | hid
  · rcases hdue.others k c hp hc id hid with hsealed | hscrub | ⟨k',d,hp',hl',hd,hb,hcov⟩ | hnone
    · exact .inl hsealed
    · exact .inr (.inl hscrub)
    · exact .inr (.inr (.inl ⟨k',d,hp',hl',hd,hbegun k' hb,hcov⟩))
    · exact hnone.elim
  by_cases hdelete : t.kind = .delete
  · obtain ⟨howner,hscope⟩ := erasure_of_deletion outcome hl hdelete
    have hne : (erasureOf w key outcome).owner ≠ some k := by
      rw [howner]
      rintro heq
      obtain rfl := Option.some.inj heq
      exact hp h.pending
    refine (hnoted.covered k c hc hne id hid).imp_right fun hcov => .inr (.inl ?_)
    rw [hscope] at hcov
    exact ⟨key,t,h.pending,hl,hdelete,hstarts id hid hdelete,hcov⟩
  · obtain ⟨howner,hscope⟩ := erasure_of_other outcome hl hdelete
    have hne : (erasureOf w key outcome).owner ≠ some k := by
      rw [howner]
      exact fun heq => nomatch heq
    rcases hnoted.covered k c hc hne id hid with hsealed | hcov
    · exact .inl hsealed
    · rw [hscope] at hcov
      exact .inl (firm_sealed (covers_nil hcov))

end

section
variable {site : Site} {engine : Engine} {key : String}

def Unpurged (key : String) (outcome : Outcome) (w : World) : Prop :=
  Told w → ∀ id ∈ outcome.new.toList++outcome.input.toList, id ∉ w.since key

variable (engine) in
theorem native_carries (auth : Auth) (request : Request) (idempotencyKey : String)
    (t : StoredChange) :
    Triple (fun w => Carries key (w,t) ∧ Synced key (w,t))
      (native engine key auth request idempotencyKey)
      (fun outcome w => Carries key (w,t) ∧ Unpurged key outcome w)
      (fun w => Carries key (w,t)) := by
  unfold native
  refine triple_bind (triple_err (triple_call
    (P := fun w => Carries key (w,t) ∧ Synced key (w,t)) fun w h => ⟨h.1.called,h.2⟩) fun _ h => h.1) fun _ => ?_
  refine triple_read_bind fun v => ?_
  generalize engine.mutate v.nexus auth request (some idempotencyKey) = r
  obtain ⟨nexus,answer⟩ := r
  cases answer with
  | error e =>
    refine triple_bind (R := fun _ w => Carries key (w,t)) (triple_update fun w h => ?_) fun _ =>
      triple_throwing fun _ h => h
    exact h.2.1.kept ⟨rfl,rfl,rfl,rfl,rfl⟩
  | ok outcome =>
    refine triple_bind (R := fun _ w => Carries key (w,t) ∧ Unpurged key outcome w)
      (triple_update fun w h => ⟨?_,fun ht id hid => ?_⟩) fun _ => triple_pure fun _ h => h
    · exact h.2.1.purged h.2.2 nexus _ outcome
    · exact (ht (erasureOf w key outcome) (List.mem_append_right _ List.mem_cons_self)).fresh id hid

theorem synced_call : Triple (fun d => Carries key d ∧ Synced key d) (onFst call : Step Unit)
    (fun _ d => Carries key d ∧ Synced key d) (Carries key) :=
  triple_on_fst fun t => triple_err (triple_call (P := fun w => Carries key (w,t) ∧ Synced key (w,t)) fun _ h => ⟨h.1.called,h.2⟩) fun _ h => h.1

theorem already_synced (target : Done) :
    Triple (fun d => Carries key d ∧ Synced key d) (already target)
      (fun _ d => Carries key d ∧ Synced key d) (Carries key) := by
  unfold already
  cases target with
  | correction => exact triple_pure fun _ h => h
  | target id =>
    refine triple_bind synced_call fun _ => ?_
    refine triple_keep (triple_read fun _ h => h) fun v => ?_
    exact triple_except_bind (fun _ h => h.1) fun _ _ => triple_pure fun _ h => h

theorem recorded_firm {id : ElementId} {t : StoredChange} {outcome : Outcome}
    (hnew : id ∉ outcome.new.toList++outcome.input.toList) (h : Firm id t) :
    Firm id { t with replacementRecord := outcome.new, sourceEvidence := outcome.input } := by
  rintro (hold | hrep)
  · exact (h (.inl hold)).alike rfl rfl
  · refine absurd ?_ hnew
    simp only [List.mem_append,Option.mem_toList]
    exact hrep

theorem execute_carries (request : Request) (target : Done) (settled : Bool) :
    Triple (fun d => Carries key d ∧ Synced key d) (execute engine key request target settled)
      (fun _ => Carries key) (Carries key) := by
  unfold execute
  refine triple_ite (fun _ => triple_pure fun _ h => h.1) fun _ => ?_
  refine triple_read_bind fun v => ?_
  refine triple_bind (R := fun outcome d => Carries key d ∧ Unpurged key outcome d.1)
    (triple_on_fst fun t => triple_pre (native_carries engine v.2.auth request _ t) (fun _ h => h.2)) fun outcome => ?_
  refine triple_refuse (fun _ h => h.1) fun _ => ?_
  refine triple_ite (fun _ => triple_update fun d h => ?_) fun _ => triple_pure fun _ h => h.1
  exact h.1.edited rfl rfl fun ht id hid hfirm =>
    recorded_firm (fun hin => h.2 ht id hin hid) hfirm

theorem put_synced {stored : StoredChange} :
    Triple (fun d : Draft => d.2 = stored ∧ Carries key d) (onFst (putChange key stored))
      (fun _ d => Carries key d ∧ Synced key d) (Carries key) := by
  refine triple_on_fst fun t => triple_put (fun w h => ⟨h.1,h.2.called⟩) (fun w h => ?_)
    fun w h => h.2
  obtain ⟨rfl,hcarry⟩ := h
  exact ⟨hcarry.put,by rw [Synced,store_lookup,if_pos rfl]⟩

theorem completed_firm {id : ElementId} {t : StoredChange} {completed : List Done}
    (h : Firm id t) : Firm id { t with completed } := fun hn => (h hn).alike rfl rfl

variable (engine) in
theorem request_synced (entry : Request × ℕ) :
    Triple (fun d => Carries key d ∧ Synced key d) (runRequest engine key entry)
      (fun _ d => Carries key d ∧ Synced key d) (Carries key) := by
  unfold runRequest
  refine triple_keep (triple_read fun _ h => h) fun v => ?_
  refine triple_except_bind (fun _ h => h.1) fun target _ => ?_
  refine triple_ite (fun _ => triple_pure fun _ h => h) fun _ => ?_
  refine triple_bind (already_synced target) fun settled => ?_
  refine triple_bind (execute_carries entry.1 target settled) fun _ => ?_
  refine triple_bind (R := fun _ => Carries key) (triple_update fun d h =>
    h.edited rfl rfl fun _ _ _ => completed_firm) fun _ => ?_
  exact triple_bind (R := fun v d => d.2 = v.2 ∧ Carries key d) (triple_read fun _ h => ⟨rfl,h⟩)
    fun v => put_synced

variable (site engine) in
theorem verify_synced :
    Triple (fun d => Carries key d ∧ Synced key d) (verify site engine)
      (fun _ d => Carries key d ∧ Synced key d) (Carries key) := by
  unfold verify
  refine triple_keep synced_call fun _ => triple_keep (triple_read fun _ h => h) fun v => ?_
  refine triple_ite (fun _ => ?_) fun _ => ?_
  · refine triple_except_bind (fun _ h => h.1) fun record _ => ?_
    exact triple_refuse (fun _ h => h.1) fun _ => triple_pure fun _ h => h
  · refine triple_each fun target _ => triple_keep synced_call fun _ =>
      triple_except_bind (fun _ h => h.1) fun row _ => ?_
    exact triple_refuse (fun _ h => h.1) fun _ => triple_pure fun _ h => h

structure Finished (key : String) (d : Draft) : Prop where
  carries : Carries key d
  scrub : d.1.scrub = none
  deleted : d.2.kind = .delete → Emptied d.2 ∧ Swept (targetIds d.2) (some key) d.1

variable {w : World} {t : StoredChange}

theorem Finished.called (h : Finished key (w,t)) :
    Finished key ({ w with calls := w.calls+1 },t) := ⟨h.carries.called,h.scrub,h.deleted⟩

theorem Carries.framed {v w : World} {t : StoredChange} (h : Carries key (v,t)) (hsound : Sound w)
    (hframe : Frame (some key) v w) (hclear : w.scrub = none ∨ t.kind = .delete) :
    Carries key (w,t) := by
  refine ⟨?_,?_,hclear,fun ht => ⟨hsound ht,fun id hid => ?_⟩⟩
  · rw [hframe.control]
    exact h.pending
  · obtain ⟨old,hl,halike⟩ := h.alike
    exact ⟨old,(hframe.spared key rfl).trans hl,halike⟩
  rw [hframe.since] at hid
  have htold : Told v := by
    rw [Told,← hframe.erasures]
    exact ht
  refine ((h.due htold).2 id hid).imp_right fun hd => ⟨hd.1,?_⟩
  rw [Begun,hframe.erasures]
  exact hd.2

theorem scrub_deleted_finished {now : ℕ} :
    Triple (fun d => Carries key d ∧ Synced key d) (scrubDeleted now key)
      (fun _ => Finished key) (Carries key) := by
  unfold scrubDeleted
  refine triple_bind (R := fun v d => v = d ∧ Carries key d) (triple_read fun _ h => ⟨rfl,h.1⟩)
    fun v => ?_
  refine triple_ite (fun hdelete => ?_) fun hother => triple_pure fun d h => ?_
  · refine triple_bind (R := fun _ d => Carries key d ∧ d.1.scrub = none ∧
      Swept (targetIds d.2) (some key) d.1) ?_ fun _ => triple_update fun d h =>
        ⟨h.1.edited rfl rfl fun _ id _ _ => emptied_firm (clear_content_emptied _) id,h.2.1,
          fun _ => ⟨clear_content_emptied _,h.2.2⟩⟩
    rintro ⟨w,t⟩ ⟨rfl,hcarry⟩
    have hpre : Told w → Due Nothing (Covers (recorded w (targetIds t))) w ∧
        Exceptable (some key) w := by
      refine fun ht => ⟨(hcarry.due ht).1.mono (fun _ _ h => h) fun _ _ h => h.elim,fun k hk => ?_⟩
      obtain rfl := Option.some.inj hk
      obtain ⟨old,hl,hkind,-⟩ := hcarry.alike
      exact ⟨hcarry.pending,old,hl,hkind.symm.trans hdelete⟩
    refine triple_on_fst (P := fun d => d = (w,t)) (Q := fun _ d => Carries key d ∧
      d.1.scrub = none ∧ Swept (targetIds d.2) (some key) d.1) (E := Carries key)
      (fun t' => ?_) (w,t) rfl
    refine triple_mono (triple_fixed (C := t' = t) fun _ =>
      scrub_changes_spec w now (targetIds t) (some key)) (fun w' h => ?_) (fun _ w' h => ?_)
      fun w' h => ?_
    · obtain ⟨rfl,rfl⟩ := Prod.mk.inj h
      exact ⟨rfl,rfl,hpre⟩
    · obtain ⟨rfl,hsound,hframe,hnone,hswept⟩ := h
      exact ⟨hcarry.framed hsound hframe (.inl hnone),hnone,hswept⟩
    · obtain ⟨rfl,hsound,hframe⟩ := h
      exact hcarry.framed hsound hframe (.inr hdelete)
  · obtain ⟨rfl,hcarry⟩ := h
    exact ⟨hcarry,hcarry.clear.resolve_right hother,fun hd => absurd hd hother⟩

theorem Finished.settle (h : Finished key (w,t)) :
    Finished key (w,{ t with state := .confirmed, error := none }) := by
  refine ⟨h.carries.edited rfl rfl fun _ id _ hfirm hn => (hfirm hn).alike rfl rfl,h.scrub,
    fun hd => ?_⟩
  obtain ⟨hempty,hswept⟩ := h.deleted hd
  exact ⟨hempty.alike rfl rfl,hswept⟩

theorem Finished.put (h : Finished key (w,t)) : Finished key (w.store key t,t) := by
  refine ⟨h.carries.put,h.scrub,fun hd => ⟨(h.deleted hd).1,fun k c hk hl => ?_⟩⟩
  rw [store_lookup,if_neg (fun heq : k = key => hk (heq ▸ rfl))] at hl
  exact (h.deleted hd).2 k c hk hl

theorem Finished.release (h : Finished key (w,t))
    (hsynced : Synced key (w,t)) {control : Control} (hcontrol : control.pending = none)
    (released : List Release) : Stable { w with control, released } := by
  refine ⟨fun ht => ?_,fun s hs => ?_⟩
  · obtain ⟨hdue,hown⟩ := h.carries.due ht
    refine ⟨fun k c hp => ?_,fun k c _ hl id hid => ?_,fun s k hs => ?_⟩
    · rw [show ({ w with control, released } : World).control.pending = none from hcontrol] at hp
      cases hp
    · left
      by_cases hk : k = key
      · subst hk
        obtain rfl := Option.some.inj (hsynced.symm.trans hl)
        rcases hown id hid with hfirm | ⟨hdelete,-⟩
        · exact firm_sealed hfirm
        · exact emptied_sealed (h.deleted hdelete).1 id
      have hp : w.control.pending ≠ some k := by
        rw [show w.control.pending = some key from h.carries.pending]
        exact fun heq => hk (Option.some.inj heq).symm
      rcases hdue.others k c hp hl id hid with hsealed | ⟨s,hs,-⟩ | ⟨k',d,hp',hl',hd,-,hc⟩ | hnone
      · exact hsealed
      · rw [show w.scrub = none from h.scrub] at hs
        cases hs
      · obtain rfl := Option.some.inj (h.carries.pending.symm.trans hp')
        obtain rfl := Option.some.inj (hsynced.symm.trans hl')
        exact (h.deleted hd).2 k c (fun heq => hk (Option.some.inj heq).symm) hl id hc
      · exact hnone.elim
    · rw [show ({ w with control, released } : World).scrub = none from h.scrub] at hs
      cases hs
  · rw [show ({ w with control, released } : World).scrub = none from h.scrub] at hs
    cases hs

theorem confirm_stable {now : ℕ} :
    Triple (fun d => Carries key d ∧ Synced key d) (confirm now key) (fun _ d => Stable d.1)
      (Carries key) := by
  unfold confirm
  refine triple_bind scrub_deleted_finished fun _ => ?_
  refine triple_bind (R := fun _ => Finished key) (triple_update fun _ h => h.settle) fun _ => ?_
  refine triple_bind (R := fun v d => d.2 = v.2 ∧ Finished key d) (triple_read fun _ h => ⟨rfl,h⟩)
    fun v => ?_
  refine triple_bind (R := fun _ d => Finished key d ∧ Synced key d)
    (triple_on_fst fun t => triple_put (fun w h => ⟨h.1,h.2.called⟩) (fun w h => ?_)
      fun w h => h.2.carries) fun _ => ?_
  · obtain ⟨rfl,hfinished⟩ := h
    exact ⟨hfinished.put,by rw [Synced,store_lookup,if_pos rfl]⟩
  refine triple_keep (triple_on_fst fun t => triple_same (fun _ h => h.1.carries)
    (triple_call fun _ h => ⟨h.1.called,h.2⟩)) fun _ => ?_
  refine triple_keep (triple_read fun _ h => h) fun v => triple_on_fst fun t => ?_
  exact triple_called (fun _ h => ⟨h.1.called,h.2⟩) (fun _ h => h.1.carries)
    (triple_update fun w h => h.1.release h.2 rfl _)

variable (site engine) in
theorem carry_out_stable (now : ℕ) :
    Triple (fun d => Carries key d ∧ Synced key d) (carryOut site engine now key)
      (fun _ d => Stable d.1) (Carries key) := by
  unfold carryOut
  refine triple_keep synced_call fun _ => triple_keep (triple_read fun _ h => h) fun v => ?_
  refine triple_except_bind (fun _ h => h.1) fun _ _ => ?_
  refine triple_keep (triple_each fun entry _ => request_synced engine entry) fun _ => ?_
  exact triple_bind (verify_synced site engine) fun _ => confirm_stable

theorem wait_stable :
    Triple (fun w => Carries key (w,t)) (wait key t) (fun _ => Stable) Stable := by
  unfold wait
  refine triple_bind (R := fun _ => Stable) (triple_put (fun w h => h.called) (fun w h => ?_)
    fun w h => h.stable) fun _ => triple_pure fun _ h => h
  refine Carries.stable (Carries.put (h.edited rfl rfl fun _ id _ hfirm hn => ?_))
  exact (hfirm hn).alike rfl rfl

variable (site engine) in
/-- A pending change is carried out, or waits, with what it owes accounted for. -/
theorem apply_stable (now : ℕ) :
    Triple (fun w => Stable w ∧ w.control.pending = some key) (apply site engine now key)
      (fun _ => Stable) Stable := by
  unfold apply
  refine triple_called (fun w h => ⟨h.1.called,h.2⟩) (fun _ h => h.1) ?_
  refine triple_bind (triple_err find_spec fun _ h => h.1) fun stored => ?_
  rintro w ⟨⟨hstable,hpending⟩,hl⟩
  have hcarry : Carries key (w,stored) := by
    refine ⟨hpending,⟨stored,hl,rfl,rfl⟩,?_,fun ht => ⟨hstable.sound ht,fun id hid => ?_⟩⟩
    · cases hs : w.scrub with
      | none => exact .inl rfl
      | some s =>
        obtain ⟨k,c,hp,hc,hdelete⟩ := hstable.tidy s hs
        obtain rfl := Option.some.inj (hpending.symm.trans hp)
        obtain rfl := Option.some.inj (hl.symm.trans hc)
        exact .inr hdelete
    · rcases (hstable.sound ht).own key stored hpending hl id hid with hfirm | hbegun | hnone
      · exact .inl hfirm
      · exact .inr hbegun
      · exact hnone.elim
  have hrun := carry_out_stable site engine now (w,stored) ⟨hcarry,hl⟩
  dsimp only
  generalize carryOut site engine now key (w,stored) = r at hrun ⊢
  obtain ⟨⟨next,copy⟩,answer⟩ := r
  cases answer with
  | ok a => exact hrun
  | error e => exact wait_stable next hrun

/-! ## The calls that apply a change -/

theorem Stable.fenced {w : World} {stored : StoredChange} (h : Stable w)
    (hnone : w.control.pending = none) (hl : w.changes.lookup key = some stored)
    (hstate : stored.state = .prepared) {control : Control} (hcontrol : control.pending = some key)
    (released : List Release) : Stable { w with control, released } := by
  have hscrub : w.scrub = none := by
    by_contra hs
    obtain ⟨s,hs⟩ := Option.ne_none_iff_exists'.mp hs
    obtain ⟨k,c,hp,-⟩ := h.tidy s hs
    rw [hnone] at hp
    cases hp
  have hsealed : Told w → ∀ k c, w.changes.lookup k = some c → ∀ id ∈ w.since k, SealedBy id c := by
    intro ht k c hc id hid
    rcases (h.sound ht).others k c (by rw [hnone]; exact fun heq => nomatch heq) hc id hid with
      hsealed | ⟨s,hs,-⟩ | ⟨k',d,hp,-⟩ | hnone'
    · exact hsealed
    · rw [hscrub] at hs
      cases hs
    · rw [hnone] at hp
      cases hp
    · exact hnone'.elim
  refine ⟨fun ht => ⟨fun k c hp hc id hid => ?_,fun k c _ hc id hid =>
    .inl (hsealed ht k c hc id hid),fun s k hs => ?_⟩,fun s hs => ?_⟩
  · obtain rfl := Option.some.inj (hcontrol.symm.trans hp)
    obtain rfl := Option.some.inj (hl.symm.trans hc)
    refine .inl (sealed_firm (hsealed ht key stored hl id hid) ?_)
    rw [hstate]
    decide
  · rw [show ({ w with control, released } : World).scrub = none from hscrub] at hs
    cases hs
  · rw [show ({ w with control, released } : World).scrub = none from hscrub] at hs
    cases hs

def Committable (now : ℕ) (key : String) (stored : StoredChange) (w : World) : Prop :=
  Stable w ∧ (w.changes.lookup key = some stored ∨
    stored.state = .prepared ∧ stored.expiresAt < now ∧ w.control.pending ≠ some key)

theorem fence_stable {now : ℕ} {auth : Auth} {operation : String} {stored : StoredChange} :
    Triple (fun w => Committable now key stored w ∧ w.control.pending = none)
      (fence site engine now auth operation key stored)
      (fun _ w => Stable w ∧ w.control.pending = some key ∧ w.changes.lookup key = some stored)
      Stable := by
  unfold fence
  refine triple_keep (triple_read fun _ h => h) fun v => triple_refuse (fun w h => h.1.1) fun hlive => ?_
  simp only [not_or,not_not,not_lt] at hlive
  refine triple_pre (P := fun w => Stable w ∧ w.control.pending = none ∧
    w.changes.lookup key = some stored) ?_ fun w h => ?_
  · refine triple_except_bind (fun _ h => h.1) fun _ _ => ?_
    refine triple_refuse (fun _ h => h.1) fun _ => triple_refuse (fun _ h => h.1) fun _ => ?_
    refine triple_keep (triple_called (fun w h => ⟨h.1.called,h.2⟩) (fun _ h => h.1)
      (triple_update fun w h => ⟨h.1.kept ⟨rfl,rfl,rfl,rfl,rfl⟩,h.2⟩)) fun _ => ?_
    exact triple_called (fun w h => ⟨h.1.called,h.2⟩) (fun _ h => h.1) (triple_update fun w h =>
      ⟨h.1.fenced h.2.1 h.2.2 hlive.1 rfl _,rfl,h.2.2⟩)
  · obtain ⟨⟨hstable,hshown⟩,hnone⟩ := h
    exact ⟨hstable,hnone,hshown.resolve_right fun hlate => absurd hlate.2.1 (not_lt.mpr hlive.2)⟩

variable (site engine) in
theorem commit_steady (now : ℕ) (auth : Auth) (operation previewDigest : String) :
    Steady (commit site engine now auth operation previewDigest) := by
  unfold Steady commit
  refine triple_read_bind fun v => triple_except_bind (fun _ h => h.2) fun key hk => ?_
  refine triple_bind (triple_err find_spec fun _ h => h.2) fun stored => ?_
  refine triple_bind (R := fun _ => Committable now key stored) ?_ fun _ => ?_
  · rintro w ⟨⟨rfl,hstable⟩,hl⟩
    refine triple_mono (show_spec site engine (R := Stable) (fun _ h => h.called)
      (fun _ _ _ h hl => h.expired hl) v now auth operation) (fun _ h => h)
      (fun _ w' h => ⟨h.1,h.2.2 key hk stored hl⟩) (fun _ h => h) v ⟨rfl,hstable⟩
  refine triple_refuse (fun _ h => h.1) fun _ => ?_
  refine triple_bind (R := fun v w => v.control = w.control ∧ Committable now key stored w)
    (triple_read fun w h => ⟨rfl,h⟩) fun v => ?_
  refine triple_ite (fun _ => triple_pre (show_steady site engine now auth operation) (fun _ h => h.2.1)) fun _ => ?_
  refine triple_refuse (fun _ h => h.2.1) fun hother => ?_
  refine triple_refuse (fun _ h => h.2.1) fun _ => ?_
  refine triple_bind (R := fun _ w => Stable w ∧ w.control.pending = some key ∧
    w.changes.lookup key = some stored) ?_ fun _ => ?_
  · unfold fenceFirst
    refine triple_ite (fun hnone => triple_pre fence_stable (fun w h => ⟨h.2,h.1 ▸ hnone⟩)) fun hsome => triple_pure fun w h => ?_
    obtain ⟨hcontrol,hstable,hshown⟩ := h
    have hpending : w.control.pending = some key := by
      rw [hcontrol] at hsome hother
      cases hp : w.control.pending with
      | none => exact absurd hp hsome
      | some k =>
        simp only [hp,Option.any_some,decide_eq_true_eq,not_not] at hother
        rw [hother]
    exact ⟨hstable,hpending,hshown.resolve_right fun hlate => hlate.2.2 hpending⟩
  · refine triple_bind (R := fun _ w => Stable w ∧ w.control.pending = some key)
      (triple_put (fun w h => ⟨h.1.called,h.2⟩) (fun w h => ⟨?_,h.2.1⟩) fun _ h => h.1) fun _ =>
        apply_stable site engine now
    obtain ⟨hstable,hpending,hl⟩ := h
    have halike : Alike w key { stored with auth, state := .committing } := ⟨stored,hl,rfl,rfl⟩
    refine ⟨fun ht => (hstable.sound ht).put halike (fun _ id hid => ?_) fun hne =>
      absurd hpending hne,hstable.tidy.put halike⟩
    exact ((hstable.sound ht).own key stored hpending hl id hid).imp_left
      fun hfirm hn => (hfirm hn).alike rfl rfl

variable (site engine) in
theorem recover_stable (now : ℕ) :
    Triple Sound (recoverChange site engine now) (fun _ => Stable) Sound := by
  unfold recoverChange
  refine triple_bind (R := fun _ => Stable) ?_ fun _ => ?_
  · unfold resumeScrub
    refine triple_read_bind fun v => ?_
    cases hs : v.scrub with
    | none =>
      refine triple_pure fun w h => ⟨h.2,fun s hw => ?_⟩
      rw [← h.1,hs] at hw
      cases hw
    | some scrub =>
      refine triple_rescue (I := Sound) (fun w h => ?_) (triple_throwing fun _ h => h)
      obtain ⟨rfl,hsound⟩ := h
      refine triple_mono (scrub_changes_spec v now scrub.ids scrub.except) (fun _ h => h)
        (fun _ w h => ⟨h.1,fun s hw => ?_⟩) (fun _ h => h.1) v ⟨rfl,fun ht =>
          ⟨(hsound ht).mono (fun _ _ h => h) fun _ _ h => h.elim,fun k hk =>
            (hsound ht).excepted scrub k hs hk⟩⟩
      rw [h.2.2.1] at hw
      cases hw
  · refine triple_bind (R := fun v w => v.control = w.control ∧ Stable w)
      (triple_read fun _ h => ⟨rfl,h⟩) fun v => ?_
    cases hp : v.control.pending with
    | none => exact triple_pure fun _ h => h.2
    | some key =>
      exact triple_bind (R := fun _ => Stable) (triple_mono (apply_stable site engine now)
        (fun w h => ⟨h.2,h.1 ▸ hp⟩) (fun _ _ h => h) fun _ h => h.sound) fun _ =>
          triple_pure fun _ h => h

end

end AndaBrain.ManagedChanges
