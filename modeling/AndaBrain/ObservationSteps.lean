import AndaBrain.ObservationLedger

/-!
# The observation operations keep the guarantee

Every operation is followed write by write. A fresh receipt is judged where it is
journalled; everything after that, and every replay, works on the journalled
receipt.
-/

set_option autoImplicit false

namespace AndaBrain.Observation
open Foundation.Resumption Foundation.ConditionalStore

section Writing
variable {α : Type} {b : Prop} {w : World}

def Keeps (b : Prop) (Q : α → World → Prop) (p : M α) (w : World) : Prop :=
  Safe (fun a t => Grows a t ∧ Sound b t) Q (fun _ t => Sound b t) p w

theorem keeps_bind {β : Type} (p : M α) (f : α → M β) {Q : β → World → Prop}
    (h : Keeps b (fun a t => Keeps b Q (f a) t) p w) : Keeps b Q (p >>= f) w :=
  safe_bind p f w h

theorem keeps_mono (p : M α) {Q R : α → World → Prop} (h : Keeps b Q p w)
    (hq : ∀ a t, Q a t → R a t) : Keeps b R p w :=
  safe_mono p w h (fun _ _ hg => hg) hq fun _ _ he => he

theorem keeps_after {β : Type} (p : M α) (f : α → M β) {Q : β → World → Prop} (hp : Silent p)
    (h : Sound b w) (hf : ∀ a, Keeps b Q (f a) w) : Keeps b Q (p >>= f) w :=
  safe_after p f w hp (fun _ => h) hf

theorem keeps_refuse {β : Type} (c : Prop) [Decidable c] (e : RuntimeError) (f : Unit → M β)
    {Q : β → World → Prop} (h : Sound b w) (hf : ¬c → Keeps b Q (f ()) w) :
    Keeps b Q (refuseIf c e >>= f) w := by
  apply keeps_bind
  exact safe_refuse c e w (fun _ => h) hf

theorem keeps_put (k : Key) (v : Entry k) (mode : PutMode) {Q : Unit → World → Prop}
    (h : Sound b w) (hw : admits mode (w.directory.cells k) = true →
      Grows w (written w k v) ∧ Sound b (written w k v))
    (hq : admits mode (w.directory.cells k) = true → Q () (written w k v))
    (hsame : value w.directory k = some v → Q () w) : Keeps b Q (confirmedPut k v mode) w :=
  safe_confirmed_put k v mode w hw hq hsame (fun _ => h) fun ha _ => (hw ha).2

theorem keeps_save (k : Key) (v : Entry k) {Q : Unit → World → Prop} (h : Sound b w)
    (hw : Grows w (written w k v) ∧ Sound b (written w k v)) (hq : Q () (written w k v))
    (hsame : value w.directory k = some v → Q () w) : Keeps b Q (confirmedSave k v) w :=
  safe_confirmed_save k v w hw hq hsame (fun _ => h) fun _ => hw.2

theorem keeps_read {β : Type} (k : Key) (f : Option (Entry k) → M β) {Q : β → World → Prop}
    (h : Sound b w) (hf : Keeps b Q (f (value w.directory k)) w) :
    Keeps b Q (readValue k >>= f) w := by
  apply keeps_bind
  apply safe_bind
  apply safe_read
  · exact hf
  · intro _
    exact h

theorem keeps_row {β : Type} (r : Row) (f : Option StoredReceipt → M β) {Q : β → World → Prop}
    (h : Sound b w) (hf : Keeps b Q (f (w.row r)) w) : Keeps b Q (findRow r >>= f) w :=
  keeps_read (.row r) f h hf

end Writing

theorem read_value_silent (k : Key) : Silent (readValue k) :=
  silent_bind _ _ (silent_query _) fun _ => trivial

theorem read_index_silent (scope : RuntimeScope) : Silent (readIndex scope) :=
  silent_query _

section Indexing
variable {b : Prop} {w : World}

structure Aside (a t : World) : Prop where
  row : t.row = a.row
  txs : t.txs = a.txs

theorem aside_refl (w : World) : Aside w w := ⟨rfl,rfl⟩

theorem aside_trans {a c t : World} (h : Aside a c) (h' : Aside c t) : Aside a t :=
  ⟨h'.row.trans h.row,h'.txs.trans h.txs⟩

theorem aside_written (k : Key) (v : Entry k) (hr : ∀ r, Key.row r ≠ k) : Aside w (written w k v) :=
  ⟨row_other w k v hr,rfl⟩

variable (scope : RuntimeScope) (stored : StoredReceipt)

theorem head_of_cell (old : Option (Versioned Index)) (h : w.directory.cells (.index scope) = old) :
    w.head scope = old.elim ⟨0,0⟩ Versioned.value := by
  have hv : value w.directory (.index scope) = old.map Versioned.value := congrArg _ h
  rw [World.head, hv]
  cases old <;> rfl

theorem pointer_unallocated {scope : RuntimeScope} {a p : ℕ} (h : Indexed w)
    (hhead : w.head scope = ⟨a,p⟩) : w.pointer scope (a+1) = none := by
  cases hp : w.pointer scope (a+1) with
  | none => rfl
  | some q =>
    have hplaced := (h.placed scope (a+1) q hp).2
    rw [hhead] at hplaced
    exact absurd hplaced (by simp)

theorem keeps_head {α : Type} (scope : RuntimeScope) (f : Option (Versioned Index) → M α)
    {Q : α → World → Prop} (h : Sound b w)
    (hf : ∀ old : Option (Versioned Index), w.head scope = old.elim ⟨0,0⟩ Versioned.value →
      Keeps b Q (f old) w) : Keeps b Q (readIndex scope >>= f) w := by
  have hread : Safe (fun a t => Grows a t ∧ Sound b t) (fun old t => Keeps b Q (f old) t)
      (fun _ t => Sound b t) (readIndex scope) w :=
    safe_read (.index scope) w (hf _ (head_of_cell scope _ rfl)) fun _ => h
  exact keeps_bind _ _ hread

structure Apart (k : Key) : Prop where
  row : ∀ r, Key.row r ≠ k
  pointer : ∀ scope n, Key.pointer scope n ≠ k
  index : ∀ scope, Key.index scope ≠ k
  marker : ∀ scope receipt, Key.marker scope receipt ≠ k

theorem put_apart (k : Key) (v : Entry k) (mode : PutMode) (hk : Apart k) (h : Sound b w) :
    Keeps b (fun _ t => Sound b t ∧ Aside w t) (confirmedPut k v mode) w := by
  have hw := sound_other k v h hk.row hk.pointer hk.index hk.marker
  exact keeps_put k v mode h (fun _ => hw) (fun _ => ⟨hw.2,aside_written k v hk.row⟩) fun _ =>
    ⟨h,aside_refl w⟩

theorem save_apart (k : Key) (v : Entry k) (hk : Apart k) (h : Sound b w) :
    Keeps b (fun _ t => Sound b t ∧ Aside w t) (confirmedSave k v) w := by
  have hw := sound_other k v h hk.row hk.pointer hk.index hk.marker
  exact keeps_save k v h hw ⟨hw.2,aside_written k v hk.row⟩ fun _ => ⟨h,aside_refl w⟩

/-- After an indexing of the receipt. -/
structure Published (b : Prop) (w : World) (scope : RuntimeScope) (receipt : ObservationReceipt)
    (t : World) : Prop where
  sound : Sound b t
  aside : Aside w t
  shown : ∃ n, t.Shown scope receipt n

theorem published_later {receipt : ObservationReceipt} {a t : World} (h : Aside w a)
    (ht : Published b a scope receipt t) : Published b w scope receipt t :=
  ⟨ht.sound,aside_trans h ht.aside,ht.shown⟩

theorem mark_keeps (receipt : ObservationReceipt) (n : ℕ) (h : Sound b w)
    (hn : w.Shown scope receipt n) : Keeps b (fun _ t => Published b w scope receipt t)
    (confirmedPut (.marker scope receipt) (n : ℕ) .create) w := by
  obtain ⟨hg,hs⟩ := sound_marker scope receipt n h hn
  apply keeps_put _ _ _ h
  · intro _
    exact ⟨hg,hs⟩
  · intro _
    exact ⟨hs,aside_written (.marker scope receipt) _ (fun _ h => nomatch h),n,shown_grows hg hn⟩
  · intro _
    exact ⟨h,aside_refl w,n,hn⟩

theorem publish_keeps (receipt : ObservationReceipt) (n : ℕ)
    (h : Sound b w) (ha : (w.head scope).allocated = n) (hp : (w.head scope).published ≤ n)
    (hheld : ∃ p, w.pointer scope n = some p ∧ p.receipt = receipt) :
    Keeps b (fun _ t => Published b w scope receipt t) (do
      let found ← readIndex scope
      let head ← lift (need found .notFound)
      confirmedPut (.index scope) (⟨head.value.allocated,n⟩ : Index) (.update head.version)
      confirmedPut (.marker scope receipt) (n : ℕ) .create) w := by
  apply keeps_head scope _ h
  intro found hhead
  cases found with
  | none => exact h
  | some head =>
    have hhead : w.head scope = head.value := hhead
    have hw := sound_allocate scope ⟨head.value.allocated,n⟩ h (by rw [hhead])
      (by rw [hhead] at hp ⊢; exact hp) (by rw [hhead] at ha; exact ha ▸ le_refl _)
      fun _ => ha.le
    show Keeps b _ (do
      confirmedPut (.index scope) (⟨head.value.allocated,n⟩ : Index) (.update head.version)
      confirmedPut (.marker scope receipt) (n : ℕ) .create) w
    apply keeps_bind
    apply keeps_put _ _ _ h
    · intro _
      exact hw
    · intro _
      have hn : (written w (.index scope) ⟨head.value.allocated,n⟩).Shown scope receipt n := by
        obtain ⟨p,hpn,hr⟩ := hheld
        refine ⟨?_,p,hw.1.kept scope n p hpn,hr⟩
        rw [head_written, Function.update_self]
      apply keeps_mono _ (mark_keeps scope receipt n hw.2 hn)
      intro _ t ht
      exact published_later scope (aside_written (.index scope) _ fun _ h => nomatch h) ht
    · intro hv
      have hsame : w.head scope = ⟨head.value.allocated,n⟩ :=
        congrArg (fun found : Option Index => found.getD ⟨0,0⟩) hv
      exact mark_keeps scope receipt n h ⟨by rw [hsame],hheld⟩

/-- The pointer of an allocated position is written, then the position is
published. -/
theorem place_keeps (pointer : Pointer) (n : ℕ) (hr : pointer.receipt = stored.receipt)
    (h : Sound b w) (ha : (w.head scope).allocated = n) (hp : (w.head scope).published < n)
    (hnone : w.pointer scope n = none) :
    Keeps b (fun _ t => Published b w scope stored.receipt t) (do
      confirmedPut (.pointer scope n) pointer .create
      let found ← readIndex scope
      let head ← lift (need found .notFound)
      confirmedPut (.index scope) (⟨head.value.allocated,n⟩ : Index) (.update head.version)
      confirmedPut (.marker scope stored.receipt) (n : ℕ) .create) w := by
  have hw := sound_pointer scope n pointer h (by omega) hp hnone
  have hhead := head_other w (.pointer scope n) pointer (fun _ h => nomatch h)
  have hheld : (written w (.pointer scope n) pointer).pointer scope n = some pointer := by
    rw [pointer_written, Function.update_self, Function.update_self]
  apply keeps_bind
  apply keeps_put _ _ _ h
  · intro _
    exact hw
  · intro _
    apply keeps_mono _ (publish_keeps scope stored.receipt n hw.2 (by rw [hhead]; exact ha)
      (by rw [hhead]; omega) ⟨pointer,hheld,hr⟩)
    intro _ t ht
    exact published_later scope (aside_written (.pointer scope n) _ fun _ h => nomatch h) ht
  · intro hv
    cases hnone.symm.trans hv

theorem allocate_keeps (pointer : Pointer) (hr : pointer.receipt = stored.receipt)
    (mode : PutMode) (a p : ℕ) (hhead : w.head scope = ⟨a,p⟩) (h : Sound b w) :
    Keeps b (fun _ t => Published b w scope stored.receipt t) (do
      confirmedPut (.index scope) (⟨a+1,p⟩ : Index) mode
      confirmedPut (.pointer scope (a+1)) pointer .create
      let found ← readIndex scope
      let head ← lift (need found .notFound)
      confirmedPut (.index scope) (⟨head.value.allocated,a+1⟩ : Index) (.update head.version)
      confirmedPut (.marker scope stored.receipt) (a+1 : ℕ) .create) w := by
  have hle : p ≤ a := by
    have := h.indexed.published scope
    rwa [hhead] at this
  have hw := sound_allocate scope ⟨a+1,p⟩ h (by rw [hhead]; exact Nat.le_succ a)
    (by rw [hhead]) (hle.trans (Nat.le_succ a)) fun hlt => by
      rw [hhead] at hlt
      exact absurd hlt (lt_irrefl _)
  have hnew : (written w (.index scope) ⟨a+1,p⟩).head scope = ⟨a+1,p⟩ := by
    rw [head_written, Function.update_self]
  have hnone := pointer_unallocated h.indexed hhead
  apply keeps_bind
  apply keeps_put _ _ _ h
  · intro _
    exact hw
  · intro _
    apply keeps_mono _ (place_keeps scope stored pointer (a+1) hr hw.2 _ _ _)
    · intro _ t ht
      exact published_later scope (aside_written (.index scope) _ fun _ h => nomatch h) ht
    · rw [hnew]
    · rw [hnew]
      exact Nat.lt_succ_of_le hle
    · have hsame := pointer_other w (.index scope) ⟨a+1,p⟩ (fun _ _ h => nomatch h)
      exact (congrFun (congrFun hsame scope) (a+1)).trans hnone
  · intro hv
    have hcontra : w.head scope = ⟨a+1,p⟩ :=
      congrArg (fun found : Option Index => found.getD ⟨0,0⟩) hv
    rw [hhead] at hcontra
    simp at hcontra

/-- An indexing that is reported done leaves the receipt at a published position. -/
theorem index_at_publishes (key : Row) (h : Sound b w) :
    Keeps b (fun _ t => Published b w stored.receipt.scope stored.receipt t)
      (indexAt stored key) w := by
  apply keeps_read (.marker stored.receipt.scope stored.receipt) _ h
  cases hm : w.marker stored.receipt.scope stored.receipt with
  | some n =>
    rw [World.marker] at hm
    rw [hm]
    exact ⟨h,aside_refl w,n,h.indexed.marked _ _ n hm⟩
  | none =>
    rw [World.marker] at hm
    rw [hm]
    apply keeps_head stored.receipt.scope _ h
    intro old hhead
    apply keeps_refuse _ _ _ h
    intro _
    cases old with
    | none => exact allocate_keeps stored.receipt.scope stored _ rfl _ 0 0 hhead h
    | some head =>
      exact allocate_keeps stored.receipt.scope stored _ rfl _ head.value.allocated
        head.value.published hhead h

theorem index_at_keeps (key : Row) (h : Sound b w) :
    Keeps b (fun _ t => Sound b t ∧ Aside w t) (indexAt stored key) w :=
  keeps_mono _ (index_at_publishes stored key h) fun _ _ ht => ⟨ht.sound,ht.aside⟩

theorem mark_correction_keeps (h : Sound b w) :
    Keeps b (fun _ t => Sound b t ∧ Aside w t) (markCorrection stored) w := by
  rw [markCorrection.eq_def]
  cases stored.input.correctionOf with
  | none => exact ⟨h,aside_refl w⟩
  | some event =>
    apply keeps_after (findRow _) _ (read_value_silent _) h
    intro found
    cases found with
    | none => exact ⟨h,aside_refl w⟩
    | some prior =>
      show Keeps b _ (challenge stored prior) w
      rw [challenge.eq_def]
      cases prior.receipt.outcomeRef with
      | none => exact ⟨h,aside_refl w⟩
      | some outcome =>
        apply safe_ite
        · intro _
          apply keeps_after (findCorrection _ _) _ (read_value_silent _) h
          intro found
          apply safe_do_if
          · intro _
            exact put_apart _ _ _
              ⟨fun _ h => (nomatch h),fun _ _ h => (nomatch h),fun _ h => (nomatch h),
                fun _ _ h => (nomatch h)⟩ h
          · intro _
            exact ⟨h,aside_refl w⟩
        · intro _
          exact ⟨h,aside_refl w⟩

theorem index_keeps (h : Sound b w) :
    Keeps b (fun _ t => Sound b t ∧ Aside w t) (index stored) w := by
  apply keeps_bind
  apply keeps_mono _ (mark_correction_keeps stored h)
  intro _ t ht
  apply keeps_mono _ (index_at_keeps stored _ ht.1)
  intro _ u hu
  exact ⟨hu.1,aside_trans ht.2 hu.2⟩

end Indexing

section Receipts
variable {b : Prop} {w : World}

theorem save_row_keeps (key : Row) (s : StoredReceipt) (h : Sound b w) (hw : RowWrite b w key s) :
    Keeps b (fun _ t => Sound b t ∧ t.row key = some s) (saveRow key s) w := by
  have hs := sound_row key s h hw
  apply keeps_save _ _ h hs
  · refine ⟨hs.2,?_⟩
    rw [row_written, Function.update_self]
  · intro hv
    exact ⟨h,hv⟩

variable (scope : RuntimeScope) (observer event : String) (r : StoredReceipt)
  (stored : StoredReceipt)

theorem origin_refl : SameOrigin r r := ⟨rfl,rfl,rfl⟩

theorem execute_keeps {α : Type} (f : String × String → M α) {Q : α → World → Prop}
    (scope : RuntimeScope) (observer event : String) (r : StoredReceipt) (c : Command)
    (h : Sound b w) (hr : w.row (.receipt scope observer event) = some r) (hc : r.command = some c)
    (hf : ∀ handles t, Sound b t → t.row = w.row → Keeps b Q (f handles) t) : Keeps b Q
    (execute r.nativeKey c >>= f) w := by
  obtain ⟨hk,hi⟩ := h.journalled.keyed scope observer event r c hr hc
  have hnew : ∀ outcome observation, ¬(w.committed r.nativeKey).isSome = true →
      Grows w { w with txs := w.txs++[⟨r.nativeKey,c.input,outcome,observation⟩] } ∧
      Sound b { w with txs := w.txs++[⟨r.nativeKey,c.input,outcome,observation⟩] } := by
    intro outcome observation hnone
    apply sound_committed scope observer event r _ h hr (by rw [hc]; rfl) hk hi
    intro old ho he
    have hfind := List.find?_eq_none.mp (Option.not_isSome_iff_eq_none.mp hnone) old ho
    exact hfind (by simpa using he)
  apply keeps_bind
  intro i
  cases hx : i.execute with
  | refused e =>
    simp only [hx]
    exact ⟨Or.inl trivial,h⟩
  | lost outcome observation e =>
    simp only [hx]
    by_cases hcom : (w.committed r.nativeKey).isSome = true
    · simp only [if_pos hcom]
      exact ⟨Or.inl trivial,h⟩
    · simp only [if_neg hcom]
      exact ⟨Or.inr (hnew outcome observation hcom),(hnew outcome observation hcom).2⟩
  | done outcome observation =>
    simp only [hx]
    by_cases hcom : (w.committed r.nativeKey).isSome = true
    · simp only [if_pos hcom]
      exact ⟨Or.inl trivial,hf _ w h rfl⟩
    · simp only [if_neg hcom]
      exact ⟨Or.inr (hnew outcome observation hcom),hf _ _ (hnew outcome observation hcom).2 rfl⟩

/-- A native commit leaves the journal alone and answers with a new version of the
receipt. -/
theorem commit_native_keeps
    (h : Sound b w) (hr : w.row (.receipt scope observer event) = some r) :
    Keeps b (fun s t => Sound b t ∧ SameOrigin r s ∧
      t.row (.receipt scope observer event) = some r) (commitNative r) w := by
  cases hc : r.command with
  | none =>
    rw [commitNative, hc]
    exact h
  | some c =>
    rw [commitNative, hc]
    apply execute_keeps _ scope observer event r c h hr hc
    intro handles t ht hrow
    apply keeps_after _ _ (silent_query _) ht
    intro attemptRef
    apply keeps_refuse _ _ _ ht
    intro _
    exact ⟨ht,⟨hc ▸ rfl,rfl,rfl⟩,by rw [hrow]; exact hr⟩

theorem close_dispatch_keeps (reference : DispatchRef) (outcome : String) (h : Sound b w) :
    Keeps b (fun _ t => Sound b t ∧ t.row = w.row) (closeDispatch reference outcome) w := by
  apply keeps_after _ _ (silent_query _) h
  intro closed
  apply keeps_refuse _ _ _ h
  intro _ i
  cases hr : i.reconcile with
  | refused e =>
    simp only [hr]
    exact ⟨Or.inl trivial,h⟩
  | lost e =>
    simp only [hr]
    exact ⟨Or.inr (sound_closed _ h),(sound_closed _ h).2⟩
  | done =>
    simp only [hr]
    exact ⟨Or.inr (sound_closed _ h),(sound_closed _ h).2,rfl⟩

theorem reconcile_keeps (h : Sound b w) :
    Keeps b (fun _ t => Sound b t ∧ t.row = w.row) (reconcile stored) w := by
  apply safe_ite
  · intro _
    split
    · exact close_dispatch_keeps _ _ h
    · exact ⟨h,rfl⟩
  · intro _
    exact ⟨h,rfl⟩

theorem admit_keeps
    (h : Sound b w) (hw : RowWrite b w (.receipt scope observer event) stored) :
    Keeps b (fun _ t => Sound b t) (admitReceipt (.receipt scope observer event) stored) w := by
  apply keeps_bind
  apply keeps_mono _ (save_row_keeps _ stored h hw)
  intro _ t ht
  apply keeps_bind
  apply keeps_mono _ (index_keeps stored ht.1)
  intro _ t' ht'
  have hrow : t'.row (.receipt scope observer event) = some stored := by
    rw [ht'.2.row]
    exact ht.2
  apply safe_ite
  · intro _
    apply keeps_bind
    apply keeps_mono _ (commit_native_keeps scope observer event stored ht'.1 hrow)
    intro s u hu
    apply keeps_bind
    apply keeps_mono _ (save_row_keeps _ s hu.1 (.version _ stored s hu.2.2 hu.2.1))
    intro _ u hu
    apply keeps_bind
    apply keeps_mono _ (index_keeps s hu.1)
    intro _ u hu
    apply keeps_bind
    apply keeps_mono _ (reconcile_keeps s hu.1)
    intro _ u hu
    exact hu.1
  · intro _
    exact ht'.1

theorem commit_once_keeps
    (h : Sound b w) (hr : w.row (.receipt scope observer event) = some r) :
    Keeps b (fun s t => Sound b t ∧ SameOrigin r s ∧
      t.row (.receipt scope observer event) = some r) (commitOnce r) w := by
  apply safe_ite
  · intro _
    exact commit_native_keeps scope observer event r h hr
  · intro _
    exact ⟨h,origin_refl r,hr⟩

theorem reconcile_committed_keeps (h : Sound b w) :
    Keeps b (fun _ t => Sound b t ∧ t.row = w.row) (reconcileCommitted stored) w := by
  apply safe_ite
  · intro _
    apply keeps_after _ _ (silent_lift _) h
    intro outcome
    apply keeps_after _ _ (silent_query _) h
    intro _
    exact reconcile_keeps stored h
  · intro _
    exact ⟨h,rfl⟩

theorem replay_keeps (old : StoredReceipt)
    (h : Sound b w) (hr : w.row (.receipt scope observer event) = some old) :
    Keeps b (fun _ t => Sound b t) (replay (.receipt scope observer event) old) w := by
  apply keeps_bind
  apply keeps_mono _ (index_keeps old h)
  intro _ t ht
  apply keeps_bind
  apply keeps_mono _ (commit_once_keeps scope observer event old ht.1 (by rw [ht.2.row]; exact hr))
  intro s t ht
  apply keeps_bind
  apply keeps_mono _ (save_row_keeps _ s ht.1 (.version _ old s ht.2.2 ht.2.1))
  intro _ t ht
  apply keeps_bind
  apply keeps_mono _ (index_keeps s ht.1)
  intro _ t' ht'
  apply keeps_bind
  apply keeps_mono _ (reconcile_committed_keeps s ht'.1)
  intro _ u hu
  have hrow : u.row (.receipt scope observer event) = some s := by
    rw [hu.2, ht'.2.row]
    exact ht.2
  apply keeps_bind
  apply keeps_mono _ (save_row_keeps _ s hu.1 (.version _ s s hrow (origin_refl s)))
  intro _ v hv
  exact hv.1

theorem conflict_keeps {α : Type} (old : StoredReceipt) (input : OutcomeInput) (h : Sound b w)
    {Q : α → World → Prop} : Keeps b Q (conflict old input) w := by
  apply keeps_after _ _ (silent_query _) h
  intro now
  have tail : ∀ row t, Sound b t → Keeps b Q (do
      indexAt row (.conflict old.receipt.scope old.receipt.receiptId input)
      (.fail (.retained row.receipt.receiptId) : M α)) t := by
    intro row t ht
    apply keeps_bind
    exact keeps_mono _ (index_at_keeps row _ ht) fun _ _ hu => hu.1
  apply keeps_after (findRow _) _ (read_value_silent _) h
  intro saved
  apply keeps_bind
  cases saved with
  | some saved => exact tail saved w h
  | none =>
    apply keeps_bind
    have hw := sound_row (.conflict old.receipt.scope old.receipt.receiptId input)
      (conflictRow old input now) h (.audit _ _ _ _)
    apply keeps_put _ _ _ h
    · intro _
      exact hw
    · intro _
      exact tail _ _ hw.2
    · intro _
      exact tail _ w h

theorem submit_known_keeps (site : Site) (observer : String) (v : Vetted)
    (contract : ObserverContract) (old : StoredReceipt) (h : Sound b w)
    (hr : w.row (.receipt site.scope observer v.input.eventKey) = some old) :
    Keeps b (fun _ t => Sound b t) (submitKnown site observer v contract old) w := by
  apply keeps_after _ _ (silent_lift _) h
  intro _
  apply safe_ite
  · intro _
    exact conflict_keeps old v.input h
  intro _
  apply keeps_refuse _ _ _ h
  intro _
  exact replay_keeps site.scope observer v.input.eventKey old h hr

theorem keep_receipt_keeps (key : Row) (r s : StoredReceipt) (h : Sound b w)
    (hr : w.row key = some r) (ho : SameOrigin r s) :
    Keeps b (fun _ t => Sound b t) (keepReceipt key s) w := by
  apply keeps_bind
  apply keeps_mono _ (save_row_keeps key s h (.version key r s hr ho))
  intro _ t ht
  apply keeps_bind
  apply keeps_mono _ (index_keeps s ht.1)
  intro _ u hu
  exact hu.1

theorem settle_learning_keeps (key : Row) (stored : StoredReceipt) (measured : Measured)
    (h : Sound b w) (hr : w.row key = some stored) :
    Keeps b (fun _ t => Sound b t) (settleLearning key stored measured) w := by
  apply safe_ite
  · intro _
    exact h
  intro _
  apply keeps_after _ _ (silent_query _) h
  intro answer
  match answer with
  | .late => exact keep_receipt_keeps key stored _ h hr ⟨rfl,rfl,rfl⟩
  | .failed e => exact h
  | .recorded none => exact h
  | .recorded (some reference) =>
    apply keeps_after _ _ (silent_query _) h
    intro _
    exact keep_receipt_keeps key stored _ h hr ⟨rfl,rfl,rfl⟩

theorem learning_receipt_command (observer : String) (v : Vetted) (route : Route)
    (measured : Measured) : (learningReceipt scope observer v route measured).command = none := by
  rw [learningReceipt]
  split
  · rfl
  · split
    · rfl
    · split <;> rfl

theorem submit_learning_keeps (site : Site) (observer : String) (v : Vetted) (route : Route)
    (h : Sound b w) : Keeps b (fun _ t => Sound b t) (submitLearning site observer v route) w := by
  apply keeps_refuse _ _ _ h
  intro _
  apply keeps_refuse _ _ _ h
  intro _
  apply keeps_refuse _ _ _ h
  intro _
  apply keeps_after _ _ (silent_query _) h
  intro measured
  apply keeps_row _ _ h
  cases hr : w.row (.receipt ⟨site.scope.spaceId,route.spaceInstance⟩ observer v.input.eventKey) with
  | some old =>
    apply keeps_after _ _ (silent_lift _) h
    intro _
    apply safe_ite
    · intro _
      exact conflict_keeps old v.input h
    · intro _
      exact settle_learning_keeps _ old measured h hr
  | none =>
    have hnone := learning_receipt_command ⟨site.scope.spaceId,route.spaceInstance⟩ observer v route
      measured
    apply keeps_bind
    apply keeps_mono _ (save_row_keeps _ _ h (.fresh _ _ _ _ hr _ _))
    · intro _ t ht
      apply keeps_bind
      apply keeps_mono _ (index_keeps _ ht.1)
      intro _ u hu
      exact settle_learning_keeps _ _ measured hu.1 (by rw [hu.2.row]; exact ht.2)
    · intro c hc
      rw [hnone] at hc
      cases hc
    · intro _ attemptRef other r hs
      rw [StoredReceipt.closing, hnone] at hs
      cases hs.1

end Receipts

section Safety
variable {b : Prop} {w : World}

theorem resolve_stored_keeps (key : Row) (attemptRef : String) (stored : StoredReceipt)
    (h : Sound b w) (hr : w.row key = some stored) :
    Keeps b (fun _ t => Sound b t) (resolveStored key attemptRef stored) w := by
  apply safe_ite
  · intro _
    apply keeps_after _ _ (silent_query _) h
    intro _
    apply keeps_after _ _ (silent_lift _) h
    intro _
    apply keeps_after _ _ (silent_query _) h
    intro evaluation
    apply keeps_bind
    apply keeps_mono _ (save_row_keeps key (stored.resolved evaluation) h
      (.version key stored _ hr ⟨rfl,rfl,rfl⟩))
    intro _ t ht
    apply keeps_bind
    apply keeps_mono _ (index_at_keeps _ key ht.1)
    intro _ u hu
    exact hu.1
  · intro _
    exact h

theorem resolve_at_keeps (scope : RuntimeScope) (principal : String) (n : ℕ) (h : Sound b w) :
    Keeps b (fun _ t => Sound b t) (resolveAt scope principal n) w := by
  apply keeps_after (findPointer scope n) _ (read_value_silent _) h
  intro found
  cases found with
  | none => exact h
  | some pointer =>
    apply safe_ite
    · intro _
      apply keeps_row _ _ h
      cases hr : w.row pointer.storageKey with
      | none => exact h
      | some stored =>
        show Keeps b _ (do
          lift (validateStored stored scope principal)
          resolveStored pointer.storageKey pointer.attemptRef stored) w
        apply keeps_after _ _ (silent_lift _) h
        intro _
        exact resolve_stored_keeps pointer.storageKey pointer.attemptRef stored h hr
    · intro _
      exact h

theorem consume_from_keeps (scope : RuntimeScope) (principal : String) (ns : List ℕ)
    (h : Sound b w) : Keeps b (fun _ t => Sound b t) (consumeFrom scope principal ns) w := by
  induction ns generalizing w with
  | nil => exact h
  | cons n rest ih =>
    apply keeps_bind
    apply keeps_mono _ (resolve_at_keeps scope principal n h)
    intro resolved t ht
    apply keeps_bind
    apply keeps_mono _ (save_apart (.safetyCursor scope principal) _
      ⟨fun _ h => (nomatch h),fun _ _ h => (nomatch h),fun _ h => (nomatch h),
        fun _ _ h => (nomatch h)⟩ ht)
    intro _ u hu
    apply keeps_bind
    apply keeps_mono _ (ih hu.1)
    intro more v hv
    exact hv

theorem consume_keeps (site : Site) (principal : String) (limit : ℕ) (h : Sound b w) :
    Keeps b (fun _ t => Sound b t) (consumeLearningSafety site principal limit) w := by
  apply keeps_after _ _ (silent_query _) h
  intro _
  apply keeps_refuse _ _ _ h
  intro _
  apply keeps_after _ _ (silent_query _) h
  intro spaceInstance
  apply keeps_after (findCursor _ _) _ (read_value_silent _) h
  intro cursor
  apply keeps_after (readPublished _) _ (silent_bind _ _ (read_index_silent _) fun _ => trivial) h
  intro published
  exact consume_from_keeps _ principal _ h

end Safety

end AndaBrain.Observation
