import Mathlib.Data.List.Sort

/-!
# Pages of a list that is sorted by a key

A reader takes a strictly sorted list page by page. What it has taken is always
the part of the list below its position, so nothing is taken twice or stepped
over.
-/

set_option autoImplicit false

namespace Foundation.KeysetPages

variable {α β : Type*} [LinearOrder β] (key : α → β)

theorem filter_upto_last (xs ys : List α) (last : α)
    (h : (xs++ys).Pairwise (fun a b => key a < key b)) (hl : xs.getLast? = some last) :
    (xs++ys).filter (fun a => decide (key a ≤ key last)) = xs := by
  obtain ⟨hx,-,hxy⟩ := List.pairwise_append.mp h
  obtain ⟨init,rfl⟩ := List.getLast?_eq_some_iff.mp hl
  have hinit := (List.pairwise_append.mp hx).2.2
  rw [List.filter_append]
  have hleft : (init++[last]).filter (fun a => decide (key a ≤ key last)) = init++[last] := by
    apply List.filter_eq_self.mpr
    intro a ha
    rcases List.mem_append.mp ha with ha | ha
    · exact decide_eq_true (hinit a ha last (by simp)).le
    · rw [List.mem_singleton.mp ha]
      simp
  have hright : ys.filter (fun a => decide (key a ≤ key last)) = [] := by
    apply List.filter_eq_nil_iff.mpr
    intro b hb
    have := hxy last (by simp) b hb
    simpa using this
  rw [hleft, hright, List.append_nil]

/-- A set of members that is closed downwards is a first part of a sorted list. -/
theorem filter_append_not (p : α → Bool) (xs : List α)
    (h : xs.Pairwise (fun a b => key a < key b))
    (hp : ∀ a ∈ xs, ∀ b ∈ xs, key a < key b → p b = true → p a = true) :
    xs.filter p++xs.filter (fun a => !p a) = xs := by
  induction xs with
  | nil => rfl
  | cons x xs ih =>
    obtain ⟨hx,hxs⟩ := List.pairwise_cons.mp h
    have hrest := ih hxs fun a ha b hb => hp a (by simp [ha]) b (by simp [hb])
    by_cases hpx : p x = true
    · simp [hpx, hrest]
    have hnone : xs.filter p = [] := by
      apply List.filter_eq_nil_iff.mpr
      intro b hb hpb
      exact hpx (hp x (by simp) b (by simp [hb]) (hx b hb) hpb)
    rw [hnone, List.nil_append] at hrest
    simp [hpx, hnone, hrest]

theorem page_taken (p : α → Bool) (xs : List α) (k : ℕ) (last : α)
    (h : xs.Pairwise (fun a b => key a < key b))
    (hp : ∀ a ∈ xs, ∀ b ∈ xs, key a < key b → p b = true → p a = true)
    (hl : ((xs.filter fun a => !p a).take k).getLast? = some last) :
    xs.filter (fun a => decide (key a ≤ key last)) =
      xs.filter p++(xs.filter fun a => !p a).take k := by
  have hsplit : (xs.filter p++(xs.filter fun a => !p a).take k)++
      (xs.filter fun a => !p a).drop k = xs := by
    rw [List.append_assoc, List.take_append_drop]
    exact filter_append_not key p xs h hp
  have hlast : (xs.filter p++(xs.filter fun a => !p a).take k).getLast? = some last := by
    rw [List.getLast?_append, hl]
    rfl
  have := filter_upto_last key _ _ last (by rw [hsplit]; exact h) hlast
  rwa [hsplit] at this

theorem mem_page (xs : List α) (k : ℕ) (last a : α)
    (h : xs.Pairwise (fun a b => key a < key b)) (hl : (xs.take k).getLast? = some last)
    (ha : a ∈ xs) (hle : key a ≤ key last) : a ∈ xs.take k := by
  have hpage := filter_upto_last key (xs.take k) (xs.drop k) last
    (by rw [List.take_append_drop]; exact h) hl
  rw [List.take_append_drop] at hpage
  rw [← hpage]
  exact List.mem_filter.mpr ⟨ha,decide_eq_true hle⟩

end Foundation.KeysetPages
