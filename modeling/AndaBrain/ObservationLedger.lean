import AndaBrain.Observation
import Mathlib.Data.List.Nodup

/-!
# What the observation journal guarantees

The index of a scope publishes no position that is not allocated, positions are written once,
above everything published before, and a publication covers every position written so far.
-/

set_option autoImplicit false

namespace AndaBrain.Observation
open Foundation.Resumption Foundation.ConditionalStore

section Views
variable (w : World)

def World.row (r : Row) : Option StoredReceipt := value w.directory (.row r)

def World.pointer (scope : RuntimeScope) (n : ℕ) : Option Pointer :=
  value w.directory (.pointer scope n)

def World.marker (scope : RuntimeScope) (receipt : ObservationReceipt) : Option ℕ :=
  value w.directory (.marker scope receipt)

def World.head (scope : RuntimeScope) : Index :=
  (show Option Index from value w.directory (.index scope)).getD ⟨0,0⟩

end Views

section Writes
variable (w : World)

theorem value_written (k j : Key) (v : Entry k) (h : j ≠ k) :
    value (written w k v).directory j = value w.directory j :=
  value_place_of_ne w.directory k j v h

theorem value_written_self (k : Key) (v : Entry k) : value (written w k v).directory k = some v :=
  value_place w.directory k v

theorem row_written (r : Row) (s : StoredReceipt) :
    (written w (.row r) s).row = Function.update w.row r (some s) := by
  funext j
  by_cases hj : j = r
  · subst hj
    rw [Function.update_self]
    exact value_written_self w (.row j) s
  · rw [Function.update_of_ne hj]
    exact value_written w (.row r) (.row j) s (by simpa using hj)

theorem pointer_written (scope : RuntimeScope) (n : ℕ) (p : Pointer) :
    (written w (.pointer scope n) p).pointer = Function.update w.pointer scope
    (Function.update (w.pointer scope) n (some p)) := by
  funext s m
  by_cases hs : s = scope
  · subst hs
    rw [Function.update_self]
    by_cases hm : m = n
    · subst hm
      rw [Function.update_self]
      exact value_written_self w (.pointer s m) p
    · rw [Function.update_of_ne hm]
      exact value_written w (.pointer s n) (.pointer s m) p (by simpa using hm)
  · rw [Function.update_of_ne hs]
    exact value_written w (.pointer scope n) (.pointer s m) p (by simp [hs])

theorem marker_written (scope : RuntimeScope) (receipt : ObservationReceipt) (n : ℕ) :
    (written w (.marker scope receipt) n).marker = Function.update w.marker scope
    (Function.update (w.marker scope) receipt (some n)) := by
  funext s r
  by_cases hs : s = scope
  · subst hs
    rw [Function.update_self]
    by_cases hr : r = receipt
    · subst hr
      rw [Function.update_self]
      exact value_written_self w (.marker s r) n
    · rw [Function.update_of_ne hr]
      exact value_written w (.marker s receipt) (.marker s r) n (by simpa using hr)
  · rw [Function.update_of_ne hs]
    exact value_written w (.marker scope receipt) (.marker s r) n (by simp [hs])

theorem head_written (scope : RuntimeScope) (i : Index) :
    (written w (.index scope) i).head = Function.update w.head scope i := by
  funext s
  by_cases hs : s = scope
  · subst hs
    rw [Function.update_self]
    exact congrArg (fun found : Option Index => found.getD ⟨0,0⟩)
      (value_written_self w (.index s) i)
  · rw [Function.update_of_ne hs]
    exact congrArg (fun found : Option Index => found.getD ⟨0,0⟩)
      (value_written w (.index scope) (.index s) i (by simpa using hs))

variable (k : Key) (v : Entry k)

theorem row_other (h : ∀ r, Key.row r ≠ k) : (written w k v).row = w.row :=
  funext fun r => value_written w k _ v (h r)

theorem pointer_other (h : ∀ scope n, Key.pointer scope n ≠ k) :
    (written w k v).pointer = w.pointer :=
  funext fun scope => funext fun n => value_written w k _ v (h scope n)

theorem marker_other (h : ∀ scope receipt, Key.marker scope receipt ≠ k) :
    (written w k v).marker = w.marker :=
  funext fun scope => funext fun receipt => value_written w k _ v (h scope receipt)

theorem head_other (h : ∀ scope, Key.index scope ≠ k) : (written w k v).head = w.head :=
  funext fun scope => congrArg (fun found : Option Index => found.getD ⟨0,0⟩)
    (value_written w k _ v (h scope))

end Writes

/-- A published position of the scope holds the receipt. -/
def World.Shown (w : World) (scope : RuntimeScope) (receipt : ObservationReceipt) (n : ℕ) : Prop :=
  n ≤ (w.head scope).published ∧ ∃ p, w.pointer scope n = some p ∧ p.receipt = receipt

structure Indexed (w : World) : Prop where
  published : ∀ scope, (w.head scope).published ≤ (w.head scope).allocated
  placed : ∀ scope n p, w.pointer scope n = some p → 1 ≤ n ∧ n ≤ (w.head scope).allocated
  marked : ∀ scope receipt n, w.marker scope receipt = some n → w.Shown scope receipt n

structure Grows (a b : World) : Prop where
  published : ∀ scope, (a.head scope).published ≤ (b.head scope).published
  kept : ∀ scope n p, a.pointer scope n = some p → b.pointer scope n = some p
  frozen : ∀ scope n, n ≤ (a.head scope).published → b.pointer scope n = a.pointer scope n
  covered : ∀ scope, (a.head scope).published < (b.head scope).published →
    ∀ n p, a.pointer scope n = some p → n ≤ (b.head scope).published

theorem grows_refl (w : World) : Grows w w :=
  ⟨fun _ => le_refl _,fun _ _ _ h => h,fun _ _ _ => rfl,fun _ h => absurd h (lt_irrefl _)⟩

theorem grows_trans (a b c : World) (h : Grows a b) (h' : Grows b c) : Grows a c := by
  refine ⟨?_,?_,?_,?_⟩
  · intro scope
    exact (h.published scope).trans (h'.published scope)
  · intro scope n p hp
    exact h'.kept scope n p (h.kept scope n p hp)
  · intro scope n hn
    rw [h'.frozen scope n (hn.trans (h.published scope)), h.frozen scope n hn]
  · intro scope hlt n p hp
    rcases (h.published scope).lt_or_eq with hb | hb
    · exact (h.covered scope hb n p hp).trans (h'.published scope)
    · exact h'.covered scope (hb ▸ hlt) n p (h.kept scope n p hp)

theorem shown_grows {w t : World} (h : Grows w t) {scope : RuntimeScope}
    {receipt : ObservationReceipt} {n : ℕ} (hs : w.Shown scope receipt n) :
    t.Shown scope receipt n := by
  obtain ⟨hn,p,hp,hr⟩ := hs
  exact ⟨hn.trans (h.published scope),p,h.kept scope n p hp,hr⟩

structure Journalled (w : World) : Prop where
  keyed : ∀ scope observer event r c, w.row (.receipt scope observer event) = some r →
    r.command = some c → r.nativeKey = .event scope observer event ∧ c.input = r.input
  recorded : ∀ tx ∈ w.txs, ∃ scope observer event r, tx.key = .event scope observer event ∧
    w.row (.receipt scope observer event) = some r ∧ r.command.isSome ∧ tx.input = r.input
  once : (w.txs.map Tx.key).Nodup

def StoredReceipt.closing (r : StoredReceipt) (attemptRef : String) : Prop :=
  r.command.isSome = true ∧ r.input.closes = true ∧ r.input.attemptRef = attemptRef

def Exclusive (w : World) : Prop := ∀ attemptRef a b r s,
  w.row (.receipt a.1 a.2.1 a.2.2) = some r → w.row (.receipt b.1 b.2.1 b.2.2) = some s →
  r.closing attemptRef → s.closing attemptRef → (a : RuntimeScope × String × String) = b

/-- The guarantee; the last part only under the condition `b`. -/
structure Sound (b : Prop) (w : World) : Prop where
  indexed : Indexed w
  journalled : Journalled w
  exclusive : b → Exclusive w

section Steps
variable {w t : World} {b : Prop}

theorem grows_same (hh : t.head = w.head) (hp : t.pointer = w.pointer) : Grows w t := by
  refine ⟨?_,?_,?_,?_⟩
  · intro scope
    rw [hh]
  · intro scope n p h
    rwa [hp]
  · intro scope n _
    rw [hp]
  · intro scope h
    rw [hh] at h
    exact absurd h (lt_irrefl _)

theorem indexed_same (h : Indexed w) (hh : t.head = w.head) (hp : t.pointer = w.pointer)
    (hm : t.marker = w.marker) : Indexed t := by
  obtain ⟨h1,h2,h3⟩ := h
  refine ⟨?_,?_,?_⟩
  · rwa [hh]
  · rwa [hh, hp]
  · intro scope receipt n hn
    rw [hm] at hn
    exact shown_grows (grows_same hh hp) (h3 scope receipt n hn)

theorem journalled_same (h : Journalled w) (hr : t.row = w.row) (hx : t.txs = w.txs) :
    Journalled t := by
  obtain ⟨h1,h2,h3⟩ := h
  constructor
  · rwa [hr]
  · rwa [hr, hx]
  · rwa [hx]

theorem exclusive_same (h : Exclusive w) (hr : t.row = w.row) : Exclusive t := by
  intro attemptRef a c r s ha hc
  rw [hr] at ha hc
  exact h attemptRef a c r s ha hc

theorem sound_other (k : Key) (v : Entry k) (h : Sound b w) (hr : ∀ r, Key.row r ≠ k)
    (hp : ∀ scope n, Key.pointer scope n ≠ k) (hi : ∀ scope, Key.index scope ≠ k)
    (hm : ∀ scope receipt, Key.marker scope receipt ≠ k) :
    Grows w (written w k v) ∧ Sound b (written w k v) := by
  have hrow := row_other w k v hr
  have hhead := head_other w k v hi
  have hpointer := pointer_other w k v hp
  exact ⟨grows_same hhead hpointer,indexed_same h.indexed hhead hpointer (marker_other w k v hm),
    journalled_same h.journalled hrow rfl,fun hb => exclusive_same (h.exclusive hb) hrow⟩

/-- The head of a scope moves: a publication reaches everything allocated. -/
theorem sound_allocate (scope : RuntimeScope) (i : Index) (h : Sound b w)
    (ha : (w.head scope).allocated ≤ i.allocated) (hp : (w.head scope).published ≤ i.published)
    (hle : i.published ≤ i.allocated)
    (hc : (w.head scope).published < i.published → (w.head scope).allocated ≤ i.published) :
    Grows w (written w (.index scope) i) ∧ Sound b (written w (.index scope) i) := by
  have hrow := row_other w (.index scope) i (fun _ h => nomatch h)
  have hpointer := pointer_other w (.index scope) i (fun _ _ h => nomatch h)
  have hmarker := marker_other w (.index scope) i (fun _ _ h => nomatch h)
  have hhead := head_written w scope i
  have hgrows : Grows w (written w (.index scope) i) := by
    refine ⟨?_,?_,?_,?_⟩
    · intro s
      rw [hhead]
      by_cases hs : s = scope
      · subst hs
        rw [Function.update_self]
        exact hp
      · rw [Function.update_of_ne hs]
    · intro s n p hn
      rwa [hpointer]
    · intro s n _
      rw [hpointer]
    · intro s hlt n p hn
      rw [hhead] at hlt ⊢
      by_cases hs : s = scope
      · subst hs
        rw [Function.update_self] at hlt ⊢
        exact (h.indexed.placed s n p hn).2.trans (hc hlt)
      · rw [Function.update_of_ne hs] at hlt
        exact absurd hlt (lt_irrefl _)
  refine ⟨hgrows,⟨?_,?_,?_⟩,journalled_same h.journalled hrow rfl,
    fun hb => exclusive_same (h.exclusive hb) hrow⟩
  · intro s
    rw [hhead]
    by_cases hs : s = scope
    · subst hs
      rw [Function.update_self]
      exact hle
    · rw [Function.update_of_ne hs]
      exact h.indexed.published s
  · intro s n p hn
    rw [hpointer] at hn
    rw [hhead]
    obtain ⟨h1,h2⟩ := h.indexed.placed s n p hn
    refine ⟨h1,?_⟩
    by_cases hs : s = scope
    · subst hs
      rw [Function.update_self]
      exact h2.trans ha
    · rw [Function.update_of_ne hs]
      exact h2
  · intro s receipt n hn
    rw [hmarker] at hn
    exact shown_grows hgrows (h.indexed.marked s receipt n hn)

theorem sound_pointer (scope : RuntimeScope) (n : ℕ) (p : Pointer) (h : Sound b w)
    (hn : n ≤ (w.head scope).allocated) (hp : (w.head scope).published < n)
    (hnone : w.pointer scope n = none) :
    Grows w (written w (.pointer scope n) p) ∧ Sound b (written w (.pointer scope n) p) := by
  have hrow := row_other w (.pointer scope n) p (fun _ h => nomatch h)
  have hhead := head_other w (.pointer scope n) p (fun _ h => nomatch h)
  have hmarker := marker_other w (.pointer scope n) p (fun _ _ h => nomatch h)
  have hpointer := pointer_written w scope n p
  have hgrows : Grows w (written w (.pointer scope n) p) := by
    refine ⟨?_,?_,?_,?_⟩
    · intro s
      rw [hhead]
    · intro s m q hm
      rw [hpointer]
      by_cases hs : s = scope
      · subst hs
        rw [Function.update_self]
        by_cases hmn : m = n
        · subst hmn
          rw [hnone] at hm
          cases hm
        · rw [Function.update_of_ne hmn]
          exact hm
      · rw [Function.update_of_ne hs]
        exact hm
    · intro s m hm
      rw [hpointer]
      by_cases hs : s = scope
      · subst hs
        rw [Function.update_self, Function.update_of_ne (by omega)]
      · rw [Function.update_of_ne hs]
    · intro s hlt
      rw [hhead] at hlt
      exact absurd hlt (lt_irrefl _)
  refine ⟨hgrows,⟨?_,?_,?_⟩,journalled_same h.journalled hrow rfl,
    fun hb => exclusive_same (h.exclusive hb) hrow⟩
  · rw [hhead]
    exact h.indexed.published
  · intro s m q hm
    rw [hhead]
    rw [hpointer] at hm
    by_cases hs : s = scope
    · subst hs
      rw [Function.update_self] at hm
      by_cases hmn : m = n
      · subst hmn
        exact ⟨by omega,hn⟩
      · rw [Function.update_of_ne hmn] at hm
        exact h.indexed.placed s m q hm
    · rw [Function.update_of_ne hs] at hm
      exact h.indexed.placed s m q hm
  · intro s receipt m hm
    rw [hmarker] at hm
    exact shown_grows hgrows (h.indexed.marked s receipt m hm)

theorem sound_marker (scope : RuntimeScope) (receipt : ObservationReceipt) (n : ℕ)
    (h : Sound b w) (hn : w.Shown scope receipt n) :
    Grows w (written w (.marker scope receipt) n) ∧
    Sound b (written w (.marker scope receipt) n) := by
  have hrow := row_other w (.marker scope receipt) n (fun _ h => nomatch h)
  have hhead := head_other w (.marker scope receipt) n (fun _ h => nomatch h)
  have hpointer := pointer_other w (.marker scope receipt) n (fun _ _ h => nomatch h)
  have hmarker := marker_written w scope receipt n
  have hgrows := grows_same hhead hpointer
  refine ⟨hgrows,⟨?_,?_,?_⟩,journalled_same h.journalled hrow rfl,
    fun hb => exclusive_same (h.exclusive hb) hrow⟩
  · rw [hhead]
    exact h.indexed.published
  · rw [hhead, hpointer]
    exact h.indexed.placed
  · intro s r m hm
    apply shown_grows hgrows
    rw [hmarker] at hm
    by_cases hs : s = scope
    · subst hs
      rw [Function.update_self] at hm
      by_cases hr : r = receipt
      · subst hr
        rw [Function.update_self] at hm
        cases hm
        exact hn
      · rw [Function.update_of_ne hr] at hm
        exact h.indexed.marked s r m hm
    · rw [Function.update_of_ne hs] at hm
      exact h.indexed.marked s r m hm

def SameOrigin (r s : StoredReceipt) : Prop :=
  s.command = r.command ∧ s.input = r.input ∧ s.nativeKey = r.nativeKey

/-- A write of a receipt: over a version of it, or to a row that is free. -/
inductive RowWrite (b : Prop) (w : World) : Row → StoredReceipt → Prop
  | version (key : Row) (r s : StoredReceipt) (hr : w.row key = some r) (ho : SameOrigin r s) :
    RowWrite b w key s
  | audit (scope : RuntimeScope) (id : ReceiptId) (body : OutcomeInput) (s : StoredReceipt) :
    RowWrite b w (.conflict scope id body) s
  | fresh (scope : RuntimeScope) (observer event : String) (s : StoredReceipt)
    (hnone : w.row (.receipt scope observer event) = none)
    (hk : ∀ c, s.command = some c → s.nativeKey = .event scope observer event ∧ c.input = s.input)
    (hb : b → ∀ attemptRef other r, s.closing attemptRef →
      w.row (.receipt other.1 other.2.1 other.2.2) = some r → r.closing attemptRef →
      (other : RuntimeScope × String × String) = (scope,observer,event)) :
    RowWrite b w (.receipt scope observer event) s

theorem closing_origin (r s : StoredReceipt) (h : SameOrigin r s) (attemptRef : String)
    (hs : s.closing attemptRef) : r.closing attemptRef := by
  obtain ⟨hc,hi,-⟩ := h
  rw [StoredReceipt.closing, hc, hi] at hs
  exact hs

theorem journalled_row (key : Row) (s : StoredReceipt) (h : Journalled w) (hw : RowWrite b w key s) :
    Journalled (written w (.row key) s) := by
  have hrow := row_written w key s
  obtain ⟨h1,h2,h3⟩ := h
  refine ⟨?_,?_,h3⟩
  · intro scope observer event r c hr hc
    rw [hrow] at hr
    by_cases he : Row.receipt scope observer event = key
    · subst he
      rw [Function.update_self] at hr
      cases hr
      cases hw with
      | version _ old _ hold ho =>
        obtain ⟨hoc,hoi,hok⟩ := ho
        rw [hoc] at hc
        rw [hok, hoi]
        exact h1 scope observer event old c hold hc
      | fresh _ _ _ _ _ hk _ => exact hk c hc
    · rw [Function.update_of_ne he] at hr
      exact h1 scope observer event r c hr hc
  intro tx htx
  obtain ⟨scope,observer,event,r,hk,hr,hc,hi⟩ := h2 tx htx
  by_cases he : Row.receipt scope observer event = key
  · subst he
    cases hw with
    | version _ old _ hold ho =>
      cases hold.symm.trans hr
      obtain ⟨hoc,hoi,-⟩ := ho
      refine ⟨scope,observer,event,s,hk,?_,?_,?_⟩
      · rw [hrow, Function.update_self]
      · rw [hoc]
        exact hc
      · rw [hoi]
        exact hi
    | fresh _ _ _ _ hnone _ _ =>
      rw [hnone] at hr
      cases hr
  · refine ⟨scope,observer,event,r,hk,?_,hc,hi⟩
    rw [hrow, Function.update_of_ne he]
    exact hr

theorem exclusive_row (key : Row) (s : StoredReceipt) (hb : b) (h : Exclusive w)
    (hw : RowWrite b w key s) : Exclusive (written w (.row key) s) := by
  have hrow := row_written w key s
  have hown : ∀ attemptRef (a : RuntimeScope × String × String) r,
      (written w (.row key) s).row (.receipt a.1 a.2.1 a.2.2) = some r → r.closing attemptRef →
      (∃ old, w.row (.receipt a.1 a.2.1 a.2.2) = some old ∧ old.closing attemptRef) ∨
      (Row.receipt a.1 a.2.1 a.2.2 = key ∧ s.closing attemptRef ∧
        ∀ (c : RuntimeScope × String × String) old, w.row (.receipt c.1 c.2.1 c.2.2) = some old →
          old.closing attemptRef → c = a) := by
    intro attemptRef a r hr hcl
    rw [hrow] at hr
    by_cases he : Row.receipt a.1 a.2.1 a.2.2 = key
    · rw [he, Function.update_self] at hr
      cases hr
      cases hw with
      | version _ old _ hold ho =>
        rw [← he] at hold
        exact Or.inl ⟨old,hold,closing_origin old s ho attemptRef hcl⟩
      | audit _ _ _ _ => cases he
      | fresh scope observer event _ hnone hk hf =>
        have ha : a = (scope,observer,event) := by
          cases he
          rfl
        subst ha
        exact Or.inr ⟨rfl,hcl,fun c old hc ho => hf hb attemptRef c old hcl hc ho⟩
    · rw [Function.update_of_ne he] at hr
      exact Or.inl ⟨r,hr,hcl⟩
  intro attemptRef a c r s' ha hc hra hrc
  rcases hown attemptRef a r ha hra with ⟨old,ho,hoc⟩ | ⟨hka,-,halone⟩
  · rcases hown attemptRef c s' hc hrc with ⟨old',ho',hoc'⟩ | ⟨-,-,calone⟩
    · exact h attemptRef a c old old' ho ho' hoc hoc'
    · exact calone a old ho hoc
  rcases hown attemptRef c s' hc hrc with ⟨old',ho',hoc'⟩ | ⟨hkc,-,-⟩
  · exact (halone c old' ho' hoc').symm
  · have he := hka.trans hkc.symm
    simp only [Row.receipt.injEq] at he
    exact Prod.ext he.1 (Prod.ext he.2.1 he.2.2)

theorem sound_row (key : Row) (s : StoredReceipt) (h : Sound b w) (hw : RowWrite b w key s) :
    Grows w (written w (.row key) s) ∧ Sound b (written w (.row key) s) := by
  have hhead := head_other w (.row key) s (fun _ h => nomatch h)
  have hpointer := pointer_other w (.row key) s (fun _ _ h => nomatch h)
  have hmarker := marker_other w (.row key) s (fun _ _ h => nomatch h)
  exact ⟨grows_same hhead hpointer,indexed_same h.indexed hhead hpointer hmarker,
    journalled_row key s h.journalled hw,fun hb => exclusive_row key s hb (h.exclusive hb) hw⟩

theorem sound_committed (scope : RuntimeScope) (observer event : String) (r : StoredReceipt)
    (tx : Tx) (h : Sound b w) (hr : w.row (.receipt scope observer event) = some r)
    (hc : r.command.isSome) (hk : tx.key = .event scope observer event) (hi : tx.input = r.input)
    (hnew : ∀ old ∈ w.txs, old.key ≠ tx.key) :
    Grows w { w with txs := w.txs++[tx] } ∧ Sound b { w with txs := w.txs++[tx] } := by
  refine ⟨grows_same rfl rfl,indexed_same h.indexed rfl rfl rfl,⟨h.journalled.keyed,?_,?_⟩,
    fun hb => exclusive_same (h.exclusive hb) rfl⟩
  · intro old hm
    rcases List.mem_append.mp hm with ho | hn
    · exact h.journalled.recorded old ho
    · rw [List.mem_singleton.mp hn]
      exact ⟨scope,observer,event,r,hk,hr,hc,hi⟩
  show ((w.txs++[tx]).map Tx.key).Nodup
  rw [List.map_append]
  apply List.Nodup.append h.journalled.once (List.nodup_singleton _)
  intro k hm hm'
  obtain ⟨old,ho,rfl⟩ := List.mem_map.mp hm
  exact hnew old ho (List.mem_singleton.mp hm')

theorem sound_closed (closed : DispatchRef → Option String) (h : Sound b w) :
    Grows w { w with closed := closed } ∧ Sound b { w with closed := closed } :=
  ⟨grows_same rfl rfl,indexed_same h.indexed rfl rfl rfl,journalled_same h.journalled rfl rfl,
    fun hb => exclusive_same (h.exclusive hb) rfl⟩

end Steps

end AndaBrain.Observation
