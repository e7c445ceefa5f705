import Mathlib.Data.List.Sort

/-!
# Stable sorting by a comparator

`sortBy` is the stable sort of a comparator, written so that it computes by structural recursion;
a stable sort by a total comparator has one result.
-/

set_option autoImplicit false

namespace Foundation.SortBy

variable {α β : Type*}

def sortBy (le : α → α → Bool) (xs : List α) : List α :=
  xs.insertionSort (fun a b => le a b = true)

theorem sort_by_perm (le : α → α → Bool) (xs : List α) : (sortBy le xs).Perm xs :=
  List.perm_insertionSort _ xs

theorem sort_by_sorted [LinearOrder β] (key : α → β) (le : α → α → Bool)
    (h : ∀ a b, le a b = true ↔ key a ≤ key b) (xs : List α) :
    (sortBy le xs).Pairwise (fun a b => key a ≤ key b) := by
  have htotal : Std.Total (fun a b => le a b = true) := by
    constructor
    intro a b
    rw [h, h]
    exact le_total _ _
  have htrans : IsTrans α (fun a b => le a b = true) := by
    constructor
    intro a b c hab hbc
    exact (h a c).mpr (((h a b).mp hab).trans ((h b c).mp hbc))
  exact (List.pairwise_insertionSort _ xs).imp (fun hab => (h _ _).mp hab)

/-- Distinct keys make the order strict, so that the sorted list determines
its own arrangement. -/
theorem sort_by_strict [LinearOrder β] (key : α → β) (le : α → α → Bool)
    (h : ∀ a b, le a b = true ↔ key a ≤ key b) (xs : List α) (hn : (xs.map key).Nodup) :
    (sortBy le xs).Pairwise (fun a b => key a < key b) := by
  have hperm : ((sortBy le xs).map key).Nodup :=
    ((sort_by_perm le xs).map key).nodup_iff.mpr hn
  have hne : (sortBy le xs).Pairwise (fun a b => key a ≠ key b) := List.pairwise_map.mp hperm
  exact ((sort_by_sorted key le h xs).and hne).imp (fun hab => lt_of_le_of_ne hab.1 hab.2)

theorem strict_ext [LinearOrder β] (key : α → β) (xs ys : List α)
    (hx : xs.Pairwise fun a b => key a < key b) (hy : ys.Pairwise fun a b => key a < key b)
    (h : ∀ a, a ∈ xs ↔ a ∈ ys) : xs = ys := by
  have hirrefl : Std.Irrefl fun a b => key a < key b := ⟨fun a => lt_irrefl (key a)⟩
  have hanti : Std.Antisymm fun a b => key a < key b :=
    ⟨fun a b hab hba => absurd hba (lt_asymm hab)⟩
  exact hx.eq_of_mem_iff hy h

def dedupAdjacent [DecidableEq α] : List α → List α
  | a::b::rest => if a = b then dedupAdjacent (b::rest) else a::dedupAdjacent (b::rest)
  | xs => xs

theorem mem_dedup_adjacent [DecidableEq α] (xs : List α) (x : α) :
    x ∈ dedupAdjacent xs ↔ x ∈ xs := by
  fun_induction dedupAdjacent xs with
  | case1 b rest ih =>
    rw [ih]
    simp
  | case2 a b rest hne ih => simp only [List.mem_cons, ih]
  | case3 xs _ => exact Iff.rfl

theorem dedup_adjacent_strict [LinearOrder β] [DecidableEq β] (xs : List β)
    (h : xs.Pairwise (fun a b => a ≤ b)) : (dedupAdjacent xs).Pairwise (fun a b => a < b) := by
  fun_induction dedupAdjacent xs with
  | case1 b rest ih => exact ih (List.pairwise_cons.mp h).2
  | case2 a b rest hne ih =>
    obtain ⟨ha,ht⟩ := List.pairwise_cons.mp h
    have hab : a < b := lt_of_le_of_ne (ha b (by simp)) hne
    refine List.Pairwise.cons ?_ (ih ht)
    intro x hx
    rw [mem_dedup_adjacent] at hx
    rcases List.mem_cons.mp hx with rfl | hx
    · exact hab
    · exact lt_of_lt_of_le hab ((List.pairwise_cons.mp ht).1 x hx)
  | case3 xs hxs =>
    match xs, hxs with
    | [], _ => exact List.Pairwise.nil
    | [a], _ => exact List.pairwise_singleton _ a
    | a::b::rest, hxs => exact absurd rfl (hxs a b rest)

end Foundation.SortBy
