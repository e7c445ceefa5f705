import AndaBrain.ProductSafety

/-!
# The operations on managed changes, step by step

Each operation started in a quiet state takes only admissible steps and ends in a quiet state,
with a value or with an error.
-/

set_option autoImplicit false

namespace AndaBrain.Product
open Foundation.Resumption Foundation.ConditionalStore

variable {Q : Unit → World → Prop} {E : String → World → Prop}

theorem add_source_keys_silent (sources : List RecordSource) (keys : Finset String) :
    Silent (addSourceKeys sources keys) := by
  induction sources generalizing keys with
  | nil => trivial
  | cons source rest ih => exact silent_bind _ _ (silent_query _) fun keys => ih keys

theorem source_keys_silent (record : MemoryRecord) : Silent (sourceKeysForRecord record) := by
  apply silent_bind _ _ (add_source_keys_silent _ _)
  intro keys
  exact silent_ite _ _ _ trivial trivial

variable (lib : Library) (caller : Principal) (input : ChangeInput) (erased : Finset String)
  {G : World → World → Prop} (w : World) (key : String) (stored : Versioned StoredChange)
  (x : StoredChange)

theorem prepare_targets_silent (record : MemoryRecord)
    (sources : Finset String) : Silent (prepareTargets caller input record sources) :=
  silent_ite _ _ _ (silent_ite _ _ _ trivial trivial) (silent_query _)

theorem change_requests_silent (input : ChangeInput)
    (preview : ChangePreview) (now : ℕ) : Silent (changeRequests lib key input preview now) := by
  apply silent_ite
  · split
    · trivial
    apply silent_bind _ _ (silent_query _)
    intro schema
    apply silent_ite
    · exact silent_bind _ _ (silent_lift _) fun _ => trivial
    · trivial
  · trivial

theorem parse_all_silent (requests : List Request) : Silent (parseAll requests) := by
  induction requests with
  | nil => trivial
  | cons request rest ih => exact silent_bind _ _ (silent_query _) fun _ => ih

theorem dry_run_silent (requests : List Request) : Silent (dryRun requests) := by
  cases requests with
  | nil => trivial
  | cons request rest => exact silent_query _

theorem untouched_of_absent (hw : Quiet w) (hc : change w key = none) : ¬Touched w key := by
  intro h
  obtain ⟨x,hx,_⟩ := hw.bound key h
  rw [hc] at hx
  cases hx

theorem untouched_of_open (hw : Quiet w) (hc : change w key = some x)
    (hp : w.published.pending ≠ some key) (hx : x.receipt.state ≠ .confirmed) : ¬Touched w key := by
  intro h
  obtain ⟨y,hy,hb⟩ := hw.bound key h
  rw [hc] at hy
  cases hy
  exact hb.elim hp hx

theorem requests_of_untouched (h : ¬Touched w key) :
    requestsOf w key = [] := not_not.mp fun hr => h (Or.inr hr)

def Failed (_ : String) (w : World) : Prop := Quiet w

theorem prepare_fresh_safe
    (key digest : String) (w : World) (hw : Quiet w) (hn : w.journal.cells (.change key) = none)
    (hm : ¬marked w key) :
    Safe Step (fun _ b => Quiet b) Failed (prepareFresh lib caller input key digest) w := by
  have hf : ∀ e, Failed e w := fun _ => hw
  have ht : ¬Touched w key := untouched_of_absent w key hw (value_none _ _ hn)
  apply safe_after _ _ _ (silent_query _) hf
  intro record
  apply safe_bind
  apply safe_refuse _ _ _ fun _ => hw
  intro _
  apply safe_bind
  apply safe_refuse _ _ _ fun _ => hw
  intro _
  apply safe_after _ _ _ (source_keys_silent record) hf
  intro sources
  apply safe_after _ _ _ (prepare_targets_silent caller input record sources) hf
  intro targets
  apply safe_bind
  apply safe_refuse _ _ _ fun _ => hw
  intro _
  apply safe_after _ _ _ (silent_query _) hf
  intro now
  apply safe_after _ _ _ (change_requests_silent _ _ _ _ _) hf
  intro requests
  apply safe_after _ _ _ (parse_all_silent requests) hf
  intro _
  apply safe_after _ _ _ (silent_do_if _ _ (dry_run_silent requests)) hf
  intro _
  apply safe_after _ _ _ (silent_lift _) hf
  intro previewDigest
  apply safe_bind
  apply safe_put
  · intro _
    apply write_change_step w key _ hw fun h => absurd h ht
    intro hr
    exact absurd hr.marked hm
  · intro _
    exact write_change_quiet w key _ hw fun h => absurd h ht
  · intro _
    exact hw
  · exact hf

theorem prepare_safe
    (hw : Quiet w) :
    Safe Step (fun _ b => Quiet b ∧
        ∀ key, operationKey lib caller input.operationId = .ok key → ¬Retired w key) Failed
      (prepareChangeInner lib caller input) w := by
  have hf : ∀ e, Failed e w := fun _ => hw
  apply safe_bind
  apply safe_refuse _ _ _ fun _ => hw
  intro _
  apply safe_bind
  apply safe_lift _ _ _ fun e _ => hf e
  intro key hkey
  apply safe_bind
  apply safe_refuse _ _ _ fun _ => hw
  intro _
  apply safe_after _ _ _ (silent_lift _) hf
  intro digest
  apply safe_bind
  apply safe_read _ _ _ hf
  split
  · exact hw
  rename_i hnone
  have hm : ¬marked w key := fun h => h (value_none _ _ hnone)
  have hret : ∀ k, operationKey lib caller input.operationId = .ok k → ¬Retired w k := by
    intro k hk hr
    rw [hkey] at hk
    cases hk
    exact hm hr.marked
  apply safe_bind
  apply safe_read _ _ _ hf
  split
  · apply safe_ite
    · intro _
      exact hw
    · intro _
      exact ⟨hw,hret⟩
  rename_i hn
  apply safe_after _ _ _ (silent_query _) hf
  intro state
  apply safe_bind
  apply safe_refuse _ _ _ fun _ => hw
  intro _
  apply safe_mono _ _ (prepare_fresh_safe lib caller input key digest w hw hn hm)
  · exact fun _ _ h => h
  · exact fun _ _ h => ⟨h,hret⟩
  · exact fun _ _ h => h

structure Kept (a b : World) : Prop where
  cells : ∀ key, b.journal.cells (.change key) = a.journal.cells (.change key)
  durable : durable b = durable a
  published : b.published = a.published
  native : b.native = a.native
  executed : b.executed = a.executed

theorem kept_refl : Kept w w := ⟨fun _ => rfl,rfl,rfl,rfl,rfl⟩

theorem mark_kept : Kept w (written w (.discarded key) true) :=
  ⟨fun _ => cells_place_of_ne _ _ _ _ (by simp),durable_write_mark w key,rfl,rfl,rfl⟩

theorem mark_discarded_safe (w : World) (hw : Quiet w) (hg : G w (written w (.discarded key) true))
    (hq : ∀ b, Quiet b → marked b key → Kept w b → Q () b) (he : ∀ e, E e w) : Safe G Q E
    (markDiscarded key) w := by
  apply safe_bind
  apply safe_read _ _ _ he
  split
  · rename_i c hc
    apply hq w hw _ (kept_refl w)
    intro h
    have hv : value w.journal (.discarded key) = some c.value := value_cell _ _ c hc
    rw [h] at hv
    cases hv
  apply safe_put
  · exact fun _ => hg
  · intro _
    exact hq _ (write_mark_quiet w key hw) (marked_write_mark w key key (Or.inr rfl))
      (mark_kept w key)
  · intro h
    apply hq w hw _ (kept_refl w)
    intro hn
    rw [show value w.journal (.discarded key) = some true from h] at hn
    cases hn
  · exact he

theorem retired_of_discarded (hw : Quiet w) (hm : marked w key)
    (hp : w.published.pending ≠ some key)
    (hx : ∀ x, change w key = some x → x.receipt.state = .discarded) : Retired w key := by
  refine ⟨hm,hx,hp,?_⟩
  intro state hs
  rw [hw.settled] at hs
  cases hs
  exact hp

def DiscardStep (lib : Library) (caller : Principal) (id : String) (a b : World) : Prop :=
  Step a b ∧ ∀ key, operationKey lib caller id = .ok key → requestsOf a key = []

theorem not_confirmed_of_discardable (state : ChangeState) (h : ¬state.discardable = false) :
    state ≠ .confirmed := by
  intro hc
  rw [hc] at h
  exact h rfl

theorem discard_safe (id : String) (w : World)
    (hw : Quiet w) :
    Safe (DiscardStep lib caller id) (fun _ b => Quiet b ∧
        ∀ key, operationKey lib caller id = .ok key → Retired b key) Failed
      (productDiscard lib caller id) w := by
  have hf : ∀ e, Failed e w := fun _ => hw
  apply safe_bind
  apply safe_lift _ _ _ fun e _ => hf e
  intro key hkey
  have hstep : ∀ a b, Step a b → ¬Touched a key → DiscardStep lib caller id a b := by
    intro a b hs ht
    refine ⟨hs,?_⟩
    intro k hk
    rw [hkey] at hk
    cases hk
    exact requests_of_untouched a _ ht
  have hretire : ∀ b, Quiet b → Retired b key → Quiet b ∧
      ∀ k, operationKey lib caller id = .ok k → Retired b k := by
    intro b hb hr
    refine ⟨hb,?_⟩
    intro k hk
    rw [hkey] at hk
    cases hk
    exact hr
  apply safe_bind
  apply safe_query _ _ _ fun _ e _ => hf e
  intro _ state hstate
  cases hstate
  apply safe_bind
  apply safe_refuse _ _ _ fun _ => hw
  intro hp
  apply safe_bind
  apply safe_read _ _ _ hf
  split
  · rename_i hn
    have ht := untouched_of_absent w key hw (value_none _ _ hn)
    apply mark_discarded_safe key w hw (hstep _ _ (write_mark_step w key hw) ht) _ hf
    intro b hb hm hkept
    apply hretire b hb
    apply retired_of_discarded b key hb hm
    · rw [hkept.published]
      exact hp
    · intro x hx
      rw [show change b key = none from value_none _ _ ((hkept.cells key).trans hn)] at hx
      cases hx
  rename_i stored hs
  apply safe_bind
  apply safe_refuse _ _ _ fun _ => hw
  intro hd
  have hopen := not_confirmed_of_discardable _ hd
  have ht := untouched_of_open w key stored.value hw (value_cell _ _ _ hs) hp hopen
  apply safe_bind
  apply mark_discarded_safe key w hw (hstep _ _ (write_mark_step w key hw) ht) _ hf
  intro b hb hm hkept
  have hpb : b.published.pending ≠ some key := by
    rw [hkept.published]
    exact hp
  have htb := untouched_of_open b key stored.value hb
    (value_cell _ _ _ ((hkept.cells key).trans hs)) hpb hopen
  apply safe_put
  · intro _
    exact hstep _ _ (write_change_step b key _ hb (fun h => absurd h htb) fun _ => rfl) htb
  · intro _
    have hq := write_change_quiet b key (stored.value.withState .discarded).clearContent hb
      fun h => absurd h htb
    apply hretire _ hq
    apply retired_of_discarded _ key hq _ hpb
    · intro x hx
      rw [change_write_change] at hx
      cases hx
      rfl
    · rw [marked_write_change]
      exact hm
  · intro h
    apply hretire b hb
    apply retired_of_discarded b key hb hm hpb
    intro x hx
    rw [show change b key = _ from h] at hx
    cases hx
    rfl
  · exact fun _ => hb

structure Cleared (a b : World) : Prop where
  quiet : Quiet b
  published : b.published = a.published
  native : b.native = a.native
  executed : b.executed = a.executed
  pending : ∀ key, a.published.pending = some key →
    b.journal.cells (.change key) = a.journal.cells (.change key)

theorem cleared_refl (hw : Quiet w) : Cleared w w :=
  ⟨hw,rfl,rfl,rfl,fun _ _ => rfl⟩

theorem cleared_trans (a b c : World) (hab : Cleared a b) (hbc : Cleared b c) : Cleared a c := by
  refine ⟨hbc.quiet,hbc.published.trans hab.published,hbc.native.trans hab.native,
    hbc.executed.trans hab.executed,?_⟩
  intro key hk
  rw [hbc.pending key (by rw [hab.published]; exact hk), hab.pending key hk]

theorem cleared_state (correctionErased : Bool) (x : StoredChange) :
    (clearedChange correctionErased x).receipt.state =
      if x.receipt.state = .prepared then .discarded else x.receipt.state := by
  unfold clearedChange
  by_cases h : x.receipt.state = .prepared
  · simp only [if_pos h]
    split <;> rfl
  · simp only [if_neg h]
    split <;> rfl

theorem write_cleared (b : World) (key : String) (x : StoredChange) (ce : Bool) (hb : Quiet b)
    (hx : change b key = some x) (hp : b.published.pending ≠ some key) : Step b
    (written b (.change key) (clearedChange ce x)) ∧ Cleared b
    (written b (.change key) (clearedChange ce x)) := by
  have htouched : Touched b key → b.published.pending = some key ∨
      (clearedChange ce x).receipt.state = .confirmed := by
    intro ht
    obtain ⟨y,hy,hs⟩ := hb.bound key ht
    rw [hx] at hy
    cases hy
    have hc := hs.resolve_left hp
    rw [cleared_state, hc]
    exact Or.inr rfl
  have hretired : Retired b key → (clearedChange ce x).receipt.state = .discarded := by
    intro hr
    rw [cleared_state, hr.discarded x hx]
    rfl
  refine ⟨write_change_step b key _ hb htouched hretired,
    write_change_quiet b key _ hb htouched,rfl,rfl,rfl,?_⟩
  intro j hj
  apply cells_place_of_ne
  intro e
  cases e
  exact hp hj

theorem clear_preview_safe (w : World) (hw : Quiet w)
    (hp : w.published.pending ≠ some key) (hq : ∀ b, Cleared w b → Q () b)
    (he : ∀ e b, Quiet b → E e b) : Safe Step Q E (clearPreview erased key) w := by
  apply safe_bind
  apply safe_read _ _ _ fun e => he e w hw
  split
  · exact hq w (cleared_refl w hw)
  rename_i stored hs
  apply safe_ite
  · intro _
    apply safe_bind
    have hput : ∀ b, Quiet b → Kept w b → Safe Step Q E (put (Path.change key)
        (clearedChange (erasedBy erased stored.value).2 stored.value)
        (.update stored.version) : M Unit) b := by
      intro b hb hkept
      have hpb : b.published.pending ≠ some key := by
        rw [hkept.published]
        exact hp
      have hcell := (hkept.cells key).trans hs
      have hw' := write_cleared b key stored.value (erasedBy erased stored.value).2 hb
        (value_cell _ _ _ hcell) hpb
      have hc : Cleared w b := ⟨hb,hkept.published,hkept.native,hkept.executed,
        fun k _ => hkept.cells k⟩
      apply safe_put
      · exact fun _ => hw'.1
      · exact fun _ => hq _ (cleared_trans w b _ hc hw'.2)
      · exact fun _ => hq b hc
      · exact fun e => he e b hb
    apply safe_do_if
    · intro _
      apply mark_discarded_safe _ w hw (write_mark_step w _ hw) _ fun e => he e w hw
      intro b hb _ hkept
      exact hput b hb hkept
    · intro _
      exact hput w hw (kept_refl w)
  · intro _
    exact hq w (cleared_refl w hw)

theorem clear_previews_safe (except : Option String) (keys : List String)
    (w : World) (hw : Quiet w) (hp : ∀ key, w.published.pending = some key → except = some key)
    (hq : ∀ b, Cleared w b → Q () b) (he : ∀ e b, Quiet b → E e b) : Safe Step Q E
    (clearPreviews erased except keys) w := by
  induction keys generalizing w with
  | nil => exact hq w (cleared_refl w hw)
  | cons key rest ih =>
    have hrest : ∀ b, Cleared w b → Safe Step Q E (clearPreviews erased except rest) b := by
      intro b hb
      apply ih b hb.quiet
      · rw [hb.published]
        exact hp
      · intro c hc
        exact hq c (cleared_trans w b c hb hc)
    apply safe_bind
    apply safe_do_if
    · intro hx
      apply clear_preview_safe erased key w hw _ hrest he
      intro h
      exact hx (hp key h)
    · intro _
      exact hrest w (cleared_refl w hw)

theorem clear_content_safe (except : Option String) (w : World)
    (hw : Quiet w) (hp : ∀ key, w.published.pending = some key → except = some key)
    (hq : ∀ b, Cleared w b → Q () b) (he : ∀ e b, Quiet b → E e b) :
    Safe Step Q E (clearProductPreviewContent erased except) w := by
  apply safe_after _ _ _ (silent_query _) fun e => he e w hw
  intro keys
  exact clear_previews_safe erased except keys w hw hp hq he

structure Fenced (key : String) (w : World) : Prop where
  quiet : Quiet w
  pending : w.published.pending = some key

theorem fenced_write (w : World) (hw : Fenced key w) :
    Step w (written w (.change key) x) ∧ Fenced key (written w (.change key) x) := by
  constructor
  · apply write_change_step w key x hw.quiet fun _ => Or.inl hw.pending
    intro hr
    exact absurd hw.pending hr.published
  · exact ⟨write_change_quiet w key x hw.quiet fun _ => Or.inl hw.pending,hw.pending⟩

theorem fenced_put (mode : PutMode) (w : World) (hw : Fenced key w)
    (hq : ∀ b, Fenced key b → change b key = some x → b.native = w.native → Q () b)
    (he : ∀ e b, Quiet b → E e b) : Safe Step Q E (put (Path.change key) x mode : M Unit) w := by
  have hwrite := fenced_write key x w hw
  apply safe_put
  · exact fun _ => hwrite.1
  · exact fun _ => hq _ hwrite.2 (change_write_change w key x) rfl
  · exact fun h => hq w hw h rfl
  · exact fun e => he e w hw.quiet

theorem reread_safe (w : World) {R : Versioned StoredChange → World → Prop}
    (hw : Quiet w) (hq : ∀ stored, w.journal.cells (.change key) = some stored → R stored w)
    (he : ∀ e b, Quiet b → E e b) : Safe Step R E (reread key) w := by
  apply safe_bind
  apply safe_read _ _ _ fun e => he e w hw
  split
  · exact he _ w hw
  · rename_i stored hs
    exact hq stored hs

theorem found_applied_silent (kind : ChangeKind) (target : String) :
    Silent (foundApplied kind target) :=
  silent_ite _ _ _ trivial (silent_bind _ _ (silent_query _) fun _ => trivial)

def AppliedPost (key : String) (applied : Applied) (w : World) : Prop :=
  match applied with
  | .through stored => Fenced key w ∧ w.journal.cells (.change key) = some stored
  | .reconciling _ => Quiet w

theorem apply_request_safe (key target : String) (request : Request)
    (stored : Versioned StoredChange) (w : World) (hw : Fenced key w) :
    Safe Step (AppliedPost key) Failed (applyRequest key target request stored) w := by
  have he : ∀ (e : String) b, Quiet b → Failed e b := fun _ _ h => h
  have hthrough : ∀ x b, Fenced key b → Safe Step (AppliedPost key) Failed (do
      put (Path.change key) x (.update stored.version)
      let stored ← reread key
      pure (.through stored)) b := by
    intro x b hb
    apply safe_bind
    apply fenced_put key x _ b hb _ he
    intro c hc _ _
    apply safe_bind
    apply reread_safe key c hc.quiet _ he
    intro st hst
    exact ⟨hc,hst⟩
  apply safe_after _ _ _ (found_applied_silent _ _) fun _ => hw.quiet
  intro done
  apply safe_ite
  · intro _
    exact hthrough _ w hw
  intro _
  apply safe_bind
  apply safe_atomic
  · intro i
    exact Or.inr (execute_step w _ key request hw.quiet hw.pending)
  · intro i response _
    have hx : Fenced key (ran w (i.execute request w.native).2 key request) :=
      ⟨execute_quiet w _ key request hw.quiet hw.pending,hw.pending⟩
    apply safe_ite
    · intro _
      exact hthrough _ _ hx
    intro _
    apply safe_bind
    apply fenced_put key _ _ _ hx _ he
    intro c hc _ _
    apply safe_bind
    apply reread_safe key c hc.quiet _ he
    intro st _
    exact hc.quiet
  · intro _ _ h
    cases h

theorem apply_requests_safe (index : ℕ) (requests : List Request) (stored : Versioned StoredChange)
    (w : World) (hw : Fenced key w) (hs : w.journal.cells (.change key) = some stored) : Safe Step
    (AppliedPost key) Failed (applyRequests key index requests stored) w := by
  induction requests generalizing index stored w with
  | nil => exact ⟨hw,hs⟩
  | cons request rest ih =>
    apply safe_after _ _ _ (silent_lift _) fun _ => hw.quiet
    intro target
    apply safe_ite
    · intro _
      exact ih (index + 1) stored w hw hs
    intro _
    apply safe_bind
    apply safe_mono _ _ (apply_request_safe key target request stored w hw) fun _ _ h => h
    · intro applied b hb
      cases applied with
      | through st => exact ih (index + 1) st b hb.1 hb.2
      | reconciling receipt => exact hb
    · exact fun _ _ h => h

theorem get_element_safe {R : ElementState → World → Prop}
    (id : String) (w : World) (hq : ∀ state, w.native id = some state → R state w)
    (he : ∀ e, E e w) : Safe G R E (getElement id) w := by
  apply safe_query
  · intro i state h
    cases hn : w.native id with
    | none => cases hs : i.storage <;> simp [hs, hn] at h
    | some found =>
      apply hq state
      rw [hn]
      cases hs : i.storage <;> simp_all
  · exact fun _ e _ => he e

theorem verify_targets_safe (kind : ChangeKind) (targets : List Target)
    (w : World) (hq : (∀ t ∈ targets, w.native t.id = some (verifiedState kind)) → Q () w)
    (he : ∀ e, E e w) : Safe G Q E (verifyTargets kind targets) w := by
  induction targets with
  | nil => exact hq (by simp)
  | cons target rest ih =>
    apply safe_bind
    apply get_element_safe target.id w _ he
    intro state hstate
    apply safe_bind
    apply safe_refuse _ _ _ fun _ => he _
    intro hv
    apply ih
    intro hrest
    apply hq
    intro t ht
    rcases List.mem_cons.mp ht with rfl | hmem
    · rw [hstate, not_not.mp hv]
    · exact hrest t hmem

def Seen (w : World) (x : StoredChange) : Prop :=
  x.input.kind.revises = false →
    ∀ t ∈ x.receipt.preview.targets, w.native t.id = some (verifiedState x.input.kind)

theorem verify_change_safe (w : World)
    (hq : Seen w x → Q () w) (he : ∀ e, E e w) : Safe G Q E (verifyChange x) w := by
  apply safe_ite
  · intro hrev
    apply safe_after _ _ _ (silent_query _) he
    intro old
    apply safe_refuse _ _ _ fun _ => he _
    intro _
    apply hq
    intro hno
    rw [hrev] at hno
    cases hno
  · intro _
    exact verify_targets_safe _ _ w (fun h => hq fun _ => h) he

theorem confirmed_change_fields : (confirmedChange x).receipt.state = .confirmed
    ∧ (confirmedChange x).input.kind = x.input.kind ∧ (confirmedChange x).receipt.preview.targets =
    x.receipt.preview.targets := by
  unfold confirmedChange
  dsimp only
  split <;> exact ⟨rfl,rfl,rfl⟩

theorem verified_of_seen (hs : Seen w x)
    (hc : change w key = some (confirmedChange x)) : Verified w key := by
  obtain ⟨hstate,hkind,htargets⟩ := confirmed_change_fields x
  refine ⟨_,hc,hstate,?_,?_⟩
  · rw [hkind, htargets]
    intro hk t ht
    have h := hs (by rw [hk]; rfl) t ht
    rwa [hk] at h
  · rw [hkind, htargets]
    intro hk t ht
    have h := hs (by rw [hk]; rfl) t ht
    rwa [hk] at h

theorem release_savable (w : World) (seq : ℕ) (hw : Fenced key w)
    (hv : Verified w key) : Savable w (w.published.release seq) := by
  refine ⟨⟨?_,fun _ h => h,?_⟩,?_,?_⟩
  · rw [if_neg]
    · rfl
    · intro h
      exact h.2 rfl
  · intro j hj
    rw [hw.pending] at hj
    cases hj
    exact Or.inr ⟨rfl,hv⟩
  · intro j hj
    have ht : Touched w j := hj.resolve_right (by simp [ControlState.release])
    obtain ⟨x,hx,hs⟩ := hw.quiet.bound j ht
    refine ⟨x,hx,Or.inr ?_⟩
    rcases hs with hp | hc
    · rw [hw.pending] at hp
      cases hp
      obtain ⟨y,hy,hconf,_⟩ := hv
      rw [hx] at hy
      cases hy
      exact hconf
    · exact hc
  · intro j _ h
    cases h

theorem finish_change_safe (w : World)
    (hw : Fenced key w) :
    Safe Step (fun _ b => Quiet b) Failed (finishChange key stored) w := by
  have he : ∀ (e : String) b, Quiet b → Failed e b := fun _ _ h => h
  apply safe_after _ _ _ (silent_query _) fun _ => hw.quiet
  intro _
  apply safe_bind
  apply verify_change_safe stored.value w _ fun _ => hw.quiet
  intro hseen
  have hconfirm : ∀ b, Fenced key b → b.native = w.native → Safe Step (fun _ b => Quiet b)
      Failed (do
        put (Path.change key) (confirmedChange stored.value) (.update stored.version)
        let control ← snapshot
        let seq ← query fun i _ => i.currentSeq
        save (control.release seq)
        pure (confirmedChange stored.value).receipt) b := by
    intro b hb hn
    apply safe_bind
    apply fenced_put key _ _ b hb _ he
    intro c hc hchange hnative
    have hv : Verified c key := by
      apply verified_of_seen c key stored.value _ hchange
      intro hrev t ht
      rw [hnative, hn]
      exact hseen hrev t ht
    apply safe_bind
    apply safe_query _ _ _ fun _ _ _ => hc.quiet
    intro _ control hcontrol
    cases hcontrol
    apply safe_after _ _ _ (silent_query _) fun _ => hc.quiet
    intro seq
    apply safe_bind
    apply safe_save c _ hc.quiet (release_savable key c seq hc hv) _ fun _ => hc.quiet
    intro d hd _ _
    exact hd
  apply safe_bind
  apply safe_do_if
  · intro _
    apply clear_content_safe _ _ w hw.quiet _ _ he
    · intro j hj
      rw [hw.pending] at hj
      exact hj
    intro b hb
    refine hconfirm b ⟨hb.quiet,?_⟩ hb.native
    rw [hb.published]
    exact hw.pending
  · intro _
    exact hconfirm w hw rfl

theorem fence_savable (state : ControlState) (w : World)
    (hw : Quiet w) (hp : w.published.pending = none) (hx : change w key = some x)
    (hr : ¬Retired w key) (hs : w.published.fence key x.receipt.preview.excludedSources = .ok state)
    : Savable w state := by
  obtain ⟨hepoch,hpending,hsup,_⟩ := ControlState.fence_ok _ _ _ _ hs
  refine ⟨⟨?_,hsup,?_⟩,?_,?_⟩
  · rw [if_pos]
    · exact hepoch
    · refine ⟨hp,?_⟩
      rw [hpending]
      exact Option.some_ne_none key
  · intro j hj
    rw [hp] at hj
    cases hj
  · intro j hj
    rcases hj with ht | hj
    · obtain ⟨y,hy,hb⟩ := hw.bound j ht
      refine ⟨y,hy,Or.inr (hb.resolve_left ?_)⟩
      rw [hp]
      exact (Option.some_ne_none j).symm
    · rw [hpending] at hj
      cases hj
      exact ⟨x,hx,Or.inl hpending⟩
  · intro j hj h
    rw [hpending] at h
    cases h
    exact hr hj

theorem take_fence_safe (w : World)
    (hw : Quiet w) (hs : w.journal.cells (.change key) = some stored) (hr : ¬Retired w key)
    (hq : ∀ b, Fenced key b → b.journal.cells (.change key) = some stored → Q () b)
    (he : ∀ e, E e w) : Safe Step Q E (takeFence key stored.value) w := by
  apply safe_bind
  apply safe_query _ _ _ fun _ e _ => he e
  intro _ control hcontrol
  cases hcontrol
  split
  · rename_i pending hp
    apply safe_refuse _ _ _ fun _ => he _
    intro h
    rw [not_not.mp h] at hp
    exact hq w ⟨hw,hp⟩ hs
  rename_i hp
  apply safe_bind
  apply safe_lift _ _ _ fun e _ => he e
  intro state hstate
  have hsave := fence_savable key stored.value state w hw hp (value_cell _ _ _ hs) hr hstate
  apply safe_save w state hw hsave _ he
  intro b hb hpub hbeside
  apply hq b ⟨hb,?_⟩ ((hbeside.cells key).trans hs)
  rw [hpub]
  exact (ControlState.fence_ok _ _ _ _ hstate).2.1

theorem apply_change_safe (w : World) (hw : Quiet w) (hr : ¬Retired w key) :
    Safe Step (fun _ b => Quiet b) Failed (applyChangeLocked key) w := by
  apply safe_bind
  apply reread_safe key w hw _ fun _ _ h => h
  intro stored hs
  apply safe_bind
  apply take_fence_safe key stored w hw hs hr _ fun _ => hw
  intro b hb hsb
  apply safe_bind
  apply safe_mono _ _ (apply_requests_safe key 0 _ stored b hb hsb) fun _ _ h => h
  · intro applied c hc
    cases applied with
    | through st => exact finish_change_safe key st c hc.1
    | reconciling receipt => exact hc
  · exact fun _ _ h => h

theorem commit_targets_silent (kind : ChangeKind) (current : MemoryRecord)
    (keys : Finset String) : Silent (commitTargets kind current keys) :=
  silent_ite _ _ _ trivial (silent_query _)

theorem not_retired_of_open
    (hx : change w key = some x) (hs : x.receipt.state ≠ .discarded) : ¬Retired w key :=
  fun hr => hs (hr.discarded x hx)

theorem admit_commit_safe (w : World)
    (hw : Quiet w) (hs : w.journal.cells (.change key) = some stored) (hr : ¬Retired w key)
    (hq : ∀ b, Fenced key b → Q () b) (he : ∀ e b, Quiet b → E e b) :
    Safe Step Q E (admitCommit key stored) w := by
  have hf : ∀ e, E e w := fun e => he e w hw
  apply safe_after _ _ _ (silent_query _) hf
  intro now
  apply safe_bind
  apply safe_refuse _ _ _ fun _ => hf _
  intro _
  apply safe_after _ _ _ (silent_query _) hf
  intro current
  apply safe_bind
  apply safe_refuse _ _ _ fun _ => hf _
  intro _
  apply safe_after _ _ _ (source_keys_silent current) hf
  intro keys
  apply safe_after _ _ _ (commit_targets_silent _ _ _) hf
  intro targets
  apply safe_bind
  apply safe_refuse _ _ _ fun _ => hf _
  intro _
  apply safe_bind
  apply safe_query _ _ _ fun _ e _ => hf e
  intro _ control hcontrol
  cases hcontrol
  apply safe_bind
  apply safe_refuse _ _ _ fun _ => hf _
  intro hav
  have hp : w.published.pending = none := by
    cases hpend : w.published.pending with
    | none => rfl
    | some j => exact absurd (by simp [ControlState.available, hpend]) hav
  apply safe_bind
  apply safe_lift _ _ _ fun e _ => hf e
  intro state hstate
  apply safe_bind
  apply safe_save w state hw
    (fence_savable key stored.value state w hw hp (value_cell _ _ _ hs) hr hstate) _ hf
  intro b hb hpub _
  have hfence : Fenced key b := by
    refine ⟨hb,?_⟩
    rw [hpub]
    exact (ControlState.fence_ok _ _ _ _ hstate).2.1
  apply fenced_put key _ _ b hfence _ he
  intro c hc _ _
  exact hq c hc

theorem fenced_not_retired (w : World) (hw : Fenced key w) : ¬Retired w key :=
  fun hr => hr.published hw.pending

theorem commit_safe (id previewDigest : String)
    (w : World) (hw : Quiet w) :
    Safe Step (fun _ b => Quiet b ∧
        ∀ key, operationKey lib caller id = .ok key → ¬Retired w key) Failed
      (productCommit lib caller id previewDigest) w := by
  have hf : ∀ e, Failed e w := fun _ => hw
  apply safe_bind
  apply safe_lift _ _ _ fun e _ => hf e
  intro key hkey
  apply safe_bind
  apply safe_read _ _ _ hf
  split
  · exact hw
  rename_i stored hs
  apply safe_bind
  apply safe_refuse _ _ _ fun _ => hw
  intro _
  apply safe_bind
  apply safe_refuse _ _ _ fun _ => hw
  intro _
  apply safe_bind
  apply safe_refuse _ _ _ fun _ => hw
  intro hopen
  have hr : ¬Retired w key := not_retired_of_open w key _ (value_cell _ _ _ hs) hopen
  have hret : ∀ k, operationKey lib caller id = .ok k → ¬Retired w k := by
    intro k hk
    rw [hkey] at hk
    cases hk
    exact hr
  have happly : ∀ b, Quiet b → ¬Retired b key → Safe Step (fun _ b => Quiet b ∧
      ∀ k, operationKey lib caller id = .ok k → ¬Retired w k) Failed
      (applyChangeLocked key) b := by
    intro b hb hrb
    apply safe_mono _ _ (apply_change_safe key b hb hrb) fun _ _ h => h
    · exact fun _ _ h => ⟨h,hret⟩
    · exact fun _ _ h => h
  apply safe_after _ _ _ (silent_query _) hf
  intro state
  apply safe_ite
  · intro _
    exact ⟨hw,hret⟩
  intro _
  apply safe_ite
  · intro _
    exact happly w hw hr
  intro _
  apply safe_bind
  apply safe_do_if
  · intro _
    apply admit_commit_safe key stored w hw hs hr _ fun _ _ h => h
    intro b hb
    exact happly b hb.quiet (fenced_not_retired key b hb)
  · intro _
    exact happly w hw hr

theorem recover_safe (w : World) (hw : Quiet w) :
    Safe Step (fun _ b => Quiet b) Failed (recoverProductChange key) w := by
  apply safe_bind
  apply safe_query _ _ _ fun _ _ _ => hw
  intro _ seen hseen
  cases hseen
  apply safe_ite
  · intro hk
    have hr := bound_not_retired w key (hw.bound key (Or.inl hk))
    apply safe_bind
    exact safe_mono _ _ (apply_change_safe key w hw hr) (fun _ _ h => h) (fun _ _ h => h)
      fun _ _ h => h
  · intro _
    exact hw

theorem suppress_savable (keys : Finset String) (state : ControlState)
    (hw : Quiet w) (hs : w.published.suppress keys = some state) : Savable w state := by
  obtain ⟨hepoch,hpending,hsup⟩ := ControlState.suppress_some _ _ _ hs
  refine ⟨⟨?_,?_,?_⟩,?_,?_⟩
  · rw [if_neg, hepoch]
    rw [hpending]
    exact fun h => h.2 h.1
  · rw [hsup]
    exact Finset.subset_union_left
  · intro j hj
    rw [hpending]
    exact Or.inl hj
  · intro j hj
    rw [hpending] at hj
    have ht : Touched w j := hj.elim id fun h => Or.inl (hw.pending j h)
    obtain ⟨x,hx,hb⟩ := hw.bound j ht
    rw [← hpending] at hb
    exact ⟨x,hx,hb⟩
  · intro j hj
    rw [hpending]
    exact hj.published

theorem suppress_safe (keys : Finset String) (w : World) (hw : Quiet w) :
    Safe Step (fun _ b => Quiet b) Failed (suppressSources keys) w := by
  apply safe_bind
  apply safe_query _ _ _ fun _ _ _ => hw
  intro _ control hcontrol
  cases hcontrol
  split
  · exact hw
  rename_i state hstate
  apply safe_bind
  apply safe_refuse _ _ _ fun _ => hw
  intro _
  apply safe_save w state hw (suppress_savable w keys state hw hstate) _ fun _ => hw
  intro b hb _ _
  exact hb

theorem forget_safe (hw : Quiet w) :
    Safe Step (fun _ b => Quiet b) Failed (forgetPreviews erased) w := by
  apply safe_bind
  apply safe_query _ _ _ fun _ _ _ => hw
  intro _ control hcontrol
  cases hcontrol
  apply safe_bind
  apply safe_refuse _ _ _ fun _ => hw
  intro hav
  apply safe_bind
  apply safe_atomic
  · exact fun i => Or.inr (work_step w _ hw)
  · intro i _ _
    apply clear_content_safe _ _ _ (work_quiet w _ hw) _ _ fun _ _ h => h
    · intro j hj
      exact absurd (by simp [ControlState.available, show w.published.pending = some j from hj])
        hav
    · exact fun b hb => hb.quiet
  · exact fun i e _ => work_quiet w _ hw

end AndaBrain.Product
