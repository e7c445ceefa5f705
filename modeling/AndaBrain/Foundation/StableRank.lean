import AndaBrain.Foundation.SortBy
import AndaBrain.Foundation.KeptPrefix

/-!
# Places in a stable sort

Where a stable sort puts an entry of a list is a count over the list itself: the entries before it
with no larger key, and those after it with a smaller one.
-/

set_option autoImplicit false

namespace Foundation.StableRank
open SortBy

variable {α β : Type*} [LinearOrder β]

/-- The place of the entry `a` at `i` in the stable sort of `xs` by `key`. -/
def place (key : α → β) (xs : List α) (i : ℕ) (a : α) : ℕ :=
  (xs.take i).countP (fun b => decide (key b ≤ key a)) +
    (xs.drop i).countP (fun b => decide (key b < key a))

def shift (key : α → β) (x a : α) : ℕ := if key x ≤ key a then 1 else 0

section Place
variable (key : α → β)

theorem place_succ (x : α) (xs : List α) (i : ℕ) (a : α) :
    place key (x::xs) (i+1) a = place key xs i a + shift key x a := by
  rw [place, place, shift, List.take_succ_cons, List.drop_succ_cons, List.countP_cons]
  by_cases h : key x ≤ key a
  · simp only [h, decide_true, if_true]
    omega
  · simp only [h, decide_false, Bool.false_eq_true, if_false]
    omega

theorem place_zero (x : α) (xs : List α) :
    place key (x::xs) 0 x = xs.countP fun b => decide (key b < key x) := by
  simp [place]

theorem smaller_le_place (xs : List α) (i : ℕ) (a : α) :
    xs.countP (fun b => decide (key b < key a)) ≤ place key xs i a := by
  have hsplit : (xs.take i++xs.drop i).countP (fun b => decide (key b < key a)) = _ :=
    List.countP_append
  rw [List.take_append_drop] at hsplit
  have hmono : (xs.take i).countP (fun b => decide (key b < key a)) ≤
      (xs.take i).countP (fun b => decide (key b ≤ key a)) := by
    apply List.countP_mono_left
    intro b _ hb
    have hlt : key b < key a := by simpa using hb
    simpa using hlt.le
  rw [place]
  omega

theorem place_lt_of_tie (xs : List α) (i j : ℕ) (a b : α) (ha : xs[i]? = some a)
    (hb : xs[j]? = some b) (hkey : key a = key b) (hij : i < j) :
    place key xs i a < place key xs j b := by
  induction xs generalizing i j with
  | nil => simp at ha
  | cons x xs ih =>
    cases j with
    | zero => omega
    | succ j =>
      rw [List.getElem?_cons_succ] at hb
      rw [place_succ]
      cases i with
      | zero =>
        rw [List.getElem?_cons_zero, Option.some.injEq] at ha
        subst ha
        have hsmall := smaller_le_place key xs j b
        have hone : shift key x b = 1 := if_pos hkey.le
        rw [place_zero, hone, hkey]
        omega
      | succ i =>
        rw [List.getElem?_cons_succ] at ha
        have hshift : shift key x a = shift key x b := by rw [shift, shift, hkey]
        have hlt := ih i j ha hb (by omega)
        rw [place_succ, hshift]
        omega

theorem head_least (b c : α) (xs : List α) (hs : (b::xs).Pairwise (fun a b => key a ≤ key b))
    (hc : c ∈ b::xs) : key b ≤ key c := by
  rcases List.mem_cons.mp hc with rfl | hc
  · exact le_rfl
  · exact (List.pairwise_cons.mp hs).1 c hc

theorem none_smaller (x b : α) (xs : List α) (h : key x ≤ key b)
    (hs : (b::xs).Pairwise (fun a b => key a ≤ key b)) :
    (b::xs).countP (fun c => decide (key c < key x)) = 0 := by
  rw [List.countP_eq_zero]
  intro c hc
  simpa using h.trans (head_least key b c xs hs hc)

end Place

section Sorted
variable (key : α → β) (le : α → α → Bool) (hle : ∀ a b, le a b = true ↔ key a ≤ key b)

def insertBy (le : α → α → Bool) (x : α) (xs : List α) : List α :=
  xs.orderedInsert (fun a b => le a b = true) x

theorem insert_here (x b : α) (xs : List α) (h : le x b = true) :
    insertBy le x (b::xs) = x::b::xs := by
  simp [insertBy, h]

theorem insert_later (x b : α) (xs : List α) (h : ¬le x b = true) :
    insertBy le x (b::xs) = b::insertBy le x xs := by
  simp [insertBy, h]

include hle in
theorem insert_own (x : α) (xs : List α) (hs : xs.Pairwise (fun a b => key a ≤ key b)) :
    (insertBy le x xs)[xs.countP fun c => decide (key c < key x)]? = some x := by
  induction xs with
  | nil => rfl
  | cons b xs ih =>
    by_cases h : le x b = true
    · rw [insert_here le x b xs h, none_smaller key x b xs ((hle x b).mp h) hs]
      rfl
    · have hlt : key b < key x := lt_of_not_ge fun hx => h ((hle x b).mpr hx)
      rw [insert_later le x b xs h, List.countP_cons_of_pos (by simpa using hlt),
        List.getElem?_cons_succ]
      exact ih (List.pairwise_cons.mp hs).2

include hle in
theorem insert_other (x a : α) (xs : List α) (p : ℕ)
    (hs : xs.Pairwise (fun a b => key a ≤ key b)) (ha : xs[p]? = some a) :
    (insertBy le x xs)[p + shift key x a]? = some a := by
  induction xs generalizing p with
  | nil => simp at ha
  | cons b xs ih =>
    by_cases h : le x b = true
    · have hxa : key x ≤ key a :=
        ((hle x b).mp h).trans (head_least key b a xs hs (List.mem_of_getElem? ha))
      rw [insert_here le x b xs h, shift, if_pos hxa, List.getElem?_cons_succ]
      exact ha
    rw [insert_later le x b xs h]
    cases p with
    | zero =>
      rw [List.getElem?_cons_zero, Option.some.injEq] at ha
      have hno : ¬key x ≤ key a := by
        rw [← ha]
        exact fun hx => h ((hle x b).mpr hx)
      rw [shift, if_neg hno, List.getElem?_cons_zero, ha]
    | succ p =>
      rw [List.getElem?_cons_succ] at ha
      rw [show p + 1 + shift key x a = p + shift key x a + 1 by omega, List.getElem?_cons_succ]
      exact ih p (List.pairwise_cons.mp hs).2 ha

include hle in
theorem insert_cases (x a : α) (xs : List α) (q : ℕ)
    (hs : xs.Pairwise (fun a b => key a ≤ key b)) (ha : (insertBy le x xs)[q]? = some a) :
    (a = x ∧ q = xs.countP fun c => decide (key c < key x)) ∨
      ∃ p, xs[p]? = some a ∧ q = p + shift key x a := by
  induction xs generalizing q with
  | nil =>
    cases q with
    | zero => exact .inl ⟨(Option.some.inj ha).symm,rfl⟩
    | succ q => simp [insertBy] at ha
  | cons b xs ih =>
    by_cases h : le x b = true
    · rw [insert_here le x b xs h] at ha
      cases q with
      | zero =>
        left
        rw [none_smaller key x b xs ((hle x b).mp h) hs]
        exact ⟨(Option.some.inj ha).symm,rfl⟩
      | succ q =>
        right
        rw [List.getElem?_cons_succ] at ha
        have hxa : key x ≤ key a :=
          ((hle x b).mp h).trans (head_least key b a xs hs (List.mem_of_getElem? ha))
        exact ⟨q,ha,by rw [shift, if_pos hxa]⟩
    have hlt : key b < key x := lt_of_not_ge fun hx => h ((hle x b).mpr hx)
    rw [insert_later le x b xs h] at ha
    cases q with
    | zero =>
      rw [List.getElem?_cons_zero, Option.some.injEq] at ha
      have hno : ¬key x ≤ key a := by
        rw [← ha]
        exact not_le_of_gt hlt
      exact .inr ⟨0,by rw [List.getElem?_cons_zero, ha],by rw [shift, if_neg hno]⟩
    | succ q =>
      rw [List.getElem?_cons_succ] at ha
      rcases ih q (List.pairwise_cons.mp hs).2 ha with ⟨rfl,hq⟩ | ⟨p,hp,hq⟩
      · left
        rw [List.countP_cons_of_pos (by simpa using hlt), hq]
        exact ⟨rfl,rfl⟩
      · exact .inr ⟨p+1,by rw [List.getElem?_cons_succ, hp],by omega⟩

include hle in
/-- Every entry stands in the stable sort at its place. -/
theorem sort_at_place (xs : List α) (i : ℕ) (a : α) (ha : xs[i]? = some a) :
    (sortBy le xs)[place key xs i a]? = some a := by
  induction xs generalizing i with
  | nil => simp at ha
  | cons x xs ih =>
    have hs := sort_by_sorted key le hle xs
    have hcons : sortBy le (x::xs) = insertBy le x (sortBy le xs) := rfl
    rw [hcons]
    cases i with
    | zero =>
      rw [List.getElem?_cons_zero, Option.some.injEq] at ha
      rw [← ha, place_zero, ← (sort_by_perm le xs).countP_eq]
      exact insert_own key le hle x _ hs
    | succ i =>
      rw [List.getElem?_cons_succ] at ha
      rw [place_succ]
      exact insert_other key le hle x a _ _ hs (ih i ha)

include hle in
/-- What stands in the stable sort is an entry at its place. -/
theorem place_of_sort (xs : List α) (q : ℕ) (a : α) (ha : (sortBy le xs)[q]? = some a) :
    ∃ i, xs[i]? = some a ∧ place key xs i a = q := by
  induction xs generalizing q with
  | nil => simp [sortBy] at ha
  | cons x xs ih =>
    have hs := sort_by_sorted key le hle xs
    rcases insert_cases key le hle x a _ q hs ha with ⟨rfl,hq⟩ | ⟨p,hp,hq⟩
    · refine ⟨0,rfl,?_⟩
      rw [place_zero, hq, (sort_by_perm le xs).countP_eq]
    · obtain ⟨i,hi,hplace⟩ := ih p hp
      exact ⟨i+1,by rw [List.getElem?_cons_succ, hi],by rw [place_succ, hplace, hq]⟩

include hle in
/-- Places follow the keys, and within a key the list. -/
theorem place_le_iff (xs : List α) (i j : ℕ) (a b : α) (ha : xs[i]? = some a)
    (hb : xs[j]? = some b) :
    place key xs i a ≤ place key xs j b ↔ key a < key b ∨ key a = key b ∧ i ≤ j := by
  have hkeys : ∀ i j a b, xs[i]? = some a → xs[j]? = some b →
      place key xs i a ≤ place key xs j b → key a ≤ key b := by
    intro i j a b ha hb hp
    rcases hp.lt_or_eq with hlt | heq
    · obtain ⟨hi,hai⟩ := List.getElem?_eq_some_iff.mp (sort_at_place key le hle xs i a ha)
      obtain ⟨hj,hbj⟩ := List.getElem?_eq_some_iff.mp (sort_at_place key le hle xs j b hb)
      have h := List.pairwise_iff_getElem.mp (sort_by_sorted key le hle xs) _ _ hi hj hlt
      rwa [hai, hbj] at h
    · have h := sort_at_place key le hle xs i a ha
      rw [heq, sort_at_place key le hle xs j b hb] at h
      rw [Option.some.inj h]
  constructor
  · intro hp
    rcases (hkeys i j a b ha hb hp).lt_or_eq with hlt | heq
    · exact .inl hlt
    · refine .inr ⟨heq,?_⟩
      by_contra hji
      have := place_lt_of_tie key xs j i b a hb ha heq.symm (by omega)
      omega
  · rintro (hlt | ⟨heq,hij⟩)
    · by_contra hp
      exact absurd (hkeys j i b a hb ha (by omega)) (not_le_of_gt hlt)
    · rcases hij.lt_or_eq with hlt | rfl
      · exact (place_lt_of_tie key xs i j a b ha hb heq hlt).le
      · rw [ha] at hb
        rw [Option.some.inj hb]

end Sorted

/-! ## Cutting the sorted list -/

/-- The entry at `i` is one of the first `limit` of the stable sort. -/
def Listed (key : α → β) (limit : ℕ) (xs : List α) (i : ℕ) (a : α) : Prop :=
  xs[i]? = some a ∧ place key xs i a < limit

def Behind (key : α → β) (i : ℕ) (a : α) (j : ℕ) (b : α) : Prop :=
  key a < key b ∨ key a = key b ∧ i ≤ j

section Cut
variable (key : α → β) (le : α → α → Bool) (hle : ∀ a b, le a b = true ↔ key a ≤ key b)
  (limit : ℕ) (xs : List α)
include hle

theorem listed_at (i : ℕ) (a : α) (h : Listed key limit xs i a) :
    ((sortBy le xs).take limit)[place key xs i a]? = some a :=
  (List.getElem?_take_of_lt h.2).trans (sort_at_place key le hle xs i a h.1)

theorem listed_of_taken (q : ℕ) (a : α) (h : ((sortBy le xs).take limit)[q]? = some a) :
    ∃ i, Listed key limit xs i a ∧ place key xs i a = q := by
  rw [List.getElem?_take] at h
  by_cases hq : q < limit
  · rw [if_pos hq] at h
    obtain ⟨i,hi,hplace⟩ := place_of_sort key le hle xs q a h
    exact ⟨i,⟨hi,hplace ▸ hq⟩,hplace⟩
  · rw [if_neg hq] at h
    cases h

/-- Being held in the cut sorted list, said of the list itself. -/
theorem held_iff (must : α → Bool) (is answers : α → Prop) :
    KeptPrefix.Held ((sortBy le xs).take limit) must is answers ↔
      ∃ i a, Listed key limit xs i a ∧ is a ∧ (must a = true ∨
        ∃ j b, Listed key limit xs j b ∧ Behind key i a j b ∧ answers b) := by
  have hbehind : ∀ i j a b, Listed key limit xs i a → Listed key limit xs j b →
      (Behind key i a j b ↔ place key xs i a ≤ place key xs j b) :=
    fun i j a b ha hb => (place_le_iff key le hle xs i j a b ha.1 hb.1).symm
  constructor
  · rintro ⟨q,a,hq,his,hanswer⟩
    obtain ⟨i,hi,hplace⟩ := listed_of_taken key le hle limit xs q a hq
    refine ⟨i,a,hi,his,hanswer.imp id ?_⟩
    rintro ⟨b,hb,hans⟩
    obtain ⟨p,hp⟩ := List.mem_iff_getElem?.mp hb
    rw [List.getElem?_drop] at hp
    obtain ⟨j,hj,hjp⟩ := listed_of_taken key le hle limit xs (q+p) b hp
    refine ⟨j,b,hj,?_,hans⟩
    rw [hbehind i j a b hi hj, hplace, hjp]
    omega
  · rintro ⟨i,a,hi,his,hanswer⟩
    refine ⟨_,a,listed_at key le hle limit xs i a hi,his,hanswer.imp id ?_⟩
    rintro ⟨j,b,hj,hb,hans⟩
    rw [hbehind i j a b hi hj] at hb
    exact ⟨b,KeptPrefix.mem_drop_of_le _ _ _ b (listed_at key le hle limit xs j b hj) hb,hans⟩

end Cut

end Foundation.StableRank
