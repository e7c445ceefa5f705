import Mathlib.Data.List.Pairwise

/-!
# The first of each key

`firstBy key xs` is what a list says first under each key. A loop that holds what it has and takes
an entry only when nothing held has its key arrives there.
-/

set_option autoImplicit false

namespace Foundation.FirstWins

variable {α β : Type*} [DecidableEq β] (key : α → β)

def firstBy : List α → List α
  | [] => []
  | a::rest => a::(firstBy rest).filter fun b => decide (key b ≠ key a)

def holds (held : List α) (a : α) : Bool := held.any fun b => decide (key b = key a)

def keepNew (held : List α) : List α → List α
  | [] => held
  | a::rest => if holds key held a then keepNew held rest else keepNew (held++[a]) rest

theorem holds_iff (held : List α) (a : α) : holds key held a = true ↔ ∃ b ∈ held, key b = key a := by
  simp [holds]

theorem holds_snoc (held : List α) (a b : α) :
    holds key (held++[a]) b = (holds key held b || decide (key a = key b)) := by
  simp [holds]

theorem keep_new_eq (held xs : List α) :
    keepNew key held xs = held++(firstBy key xs).filter fun a => !holds key held a := by
  induction xs generalizing held with
  | nil => simp [keepNew, firstBy]
  | cons a rest ih =>
    rw [keepNew, firstBy]
    by_cases h : holds key held a = true
    · rw [if_pos h, ih, List.filter_cons_of_neg (by simp [h]), List.filter_filter]
      congr 1
      apply List.filter_congr
      intro b _
      by_cases hb : key b = key a
      · obtain ⟨c,hc,hca⟩ := (holds_iff key held a).mp h
        have hin : holds key held b = true := (holds_iff key held b).mpr ⟨c,hc,hca.trans hb.symm⟩
        simp [hin]
      · simp [hb]
    · rw [if_neg h, ih, List.filter_cons_of_pos (by simpa using h), List.filter_filter,
        List.append_assoc, List.singleton_append]
      congr 2
      apply List.filter_congr
      intro b _
      rw [holds_snoc, Bool.not_or, ← decide_not]
      exact congrArg _ (decide_eq_decide.mpr ne_comm)

/-- The loop that starts with nothing. -/
theorem keep_new_nil (xs : List α) : keepNew key [] xs = firstBy key xs := by
  rw [keep_new_eq]
  simp [holds]

theorem keep_new_append (held xs ys : List α) :
    keepNew key held (xs++ys) = keepNew key (keepNew key held xs) ys := by
  induction xs generalizing held with
  | nil => rfl
  | cons a rest ih =>
    rw [List.cons_append, keepNew, keepNew]
    by_cases h : holds key held a = true
    · rw [if_pos h, if_pos h]
      exact ih held
    · rw [if_neg h, if_neg h]
      exact ih _

theorem mem_first_by (xs : List α) (a : α) (h : a ∈ firstBy key xs) : a ∈ xs := by
  induction xs with
  | nil => exact h
  | cons b rest ih =>
    rw [firstBy] at h
    rcases List.mem_cons.mp h with rfl | h
    · exact List.mem_cons_self
    · exact List.mem_cons_of_mem b (ih (List.mem_filter.mp h).1)

theorem first_by_distinct (xs : List α) : (firstBy key xs).Pairwise fun a b => key a ≠ key b := by
  induction xs with
  | nil => exact List.Pairwise.nil
  | cons a rest ih =>
    rw [firstBy, List.pairwise_cons]
    refine ⟨fun b hb => ?_,ih.filter _⟩
    have hne : key b ≠ key a := by simpa using (List.mem_filter.mp hb).2
    exact hne.symm

theorem first_by_of_distinct (xs : List α) (h : xs.Pairwise fun a b => key a ≠ key b) :
    firstBy key xs = xs := by
  induction xs with
  | nil => rfl
  | cons a rest ih =>
    rw [List.pairwise_cons] at h
    rw [firstBy, ih h.2, List.filter_eq_self.mpr]
    intro b hb
    simpa using (h.1 b hb).symm

/-- The loop that starts with entries of distinct keys. -/
theorem keep_new_distinct (held xs : List α) (h : held.Pairwise fun a b => key a ≠ key b) :
    keepNew key held xs = firstBy key (held++xs) := by
  rw [← keep_new_nil, keep_new_append, keep_new_nil, first_by_of_distinct key held h]

end Foundation.FirstWins
