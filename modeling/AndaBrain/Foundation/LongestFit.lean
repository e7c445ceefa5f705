import Mathlib.Order.Basic

/-!
# The longest prefix that fits

The whole is tried first, then the part that must stay, and between the two the boundary is found
by halving. Nothing is assumed of the test: what comes back has passed it.
-/

set_option autoImplicit false

namespace Foundation.LongestFit

variable {ε τ : Type}

/-- Halves the gap between a length that fits and one that does not. The gap
itself bounds the number of rounds. -/
def narrow (fit : ℕ → Except ε (Option τ)) : ℕ → ℕ → ℕ → τ → Except ε (ℕ × τ)
  | 0, fits, _, best => .ok (fits,best)
  | rounds + 1, fits, overflows, best =>
    if 1 < overflows - fits then
      let middle := fits + (overflows - fits) / 2
      match fit middle with
      | .error e => .error e
      | .ok (some built) => narrow fit rounds middle overflows built
      | .ok none => narrow fit rounds fits middle best
    else .ok (fits,best)

def longestFitting (required len : ℕ) (fit : ℕ → Except ε (Option τ)) :
    Except ε (Option (ℕ × τ)) :=
  match fit len with
  | .error e => .error e
  | .ok (some all) => .ok (some (len,all))
  | .ok none =>
    match fit required with
    | .error e => .error e
    | .ok none => .ok none
    | .ok (some best) => (narrow fit (len - required) required len best).map some

variable (fit : ℕ → Except ε (Option τ))

theorem narrow_fits (rounds fits overflows k : ℕ) (best t : τ)
    (hb : fit fits = .ok (some best)) (h : narrow fit rounds fits overflows best = .ok (k,t)) :
    fit k = .ok (some t) ∧ fits ≤ k ∧ (k < overflows ∨ k = fits) := by
  induction rounds generalizing fits overflows best with
  | zero =>
    cases h
    exact ⟨hb,Nat.le_refl _,Or.inr rfl⟩
  | succ rounds ih =>
    rw [narrow] at h
    by_cases hgap : 1 < overflows - fits
    · rw [if_pos hgap] at h
      cases hm : fit (fits + (overflows - fits) / 2) with
      | error e => simp [hm] at h
      | ok found =>
        cases found with
        | some built =>
          simp only [hm] at h
          obtain ⟨hk,hle,hlt⟩ := ih _ _ _ hm h
          refine ⟨hk,by omega,Or.inl ?_⟩
          omega
        | none =>
          simp only [hm] at h
          obtain ⟨hk,hle,hlt⟩ := ih _ _ _ hb h
          refine ⟨hk,hle,?_⟩
          omega
    · rw [if_neg hgap] at h
      cases h
      exact ⟨hb,Nat.le_refl _,Or.inr rfl⟩

theorem longest_fitting_fits (required len k : ℕ) (t : τ) (hlen : required ≤ len)
    (h : longestFitting required len fit = .ok (some (k,t))) :
    fit k = .ok (some t) ∧ required ≤ k ∧ k ≤ len := by
  rw [longestFitting] at h
  cases hall : fit len with
  | error e => simp [hall] at h
  | ok found =>
    cases found with
    | some all =>
      simp only [hall, Except.ok.injEq, Option.some.injEq, Prod.mk.injEq] at h
      obtain ⟨rfl,rfl⟩ := h
      exact ⟨hall,hlen,Nat.le_refl _⟩
    | none =>
      simp only [hall] at h
      cases hreq : fit required with
      | error e => simp [hreq] at h
      | ok found =>
        cases found with
        | none => simp [hreq] at h
        | some best =>
          simp only [hreq] at h
          cases hn : narrow fit (len - required) required len best with
          | error e => simp [hn, Except.map] at h
          | ok x =>
            simp only [hn, Except.map, Except.ok.injEq, Option.some.injEq] at h
            subst h
            obtain ⟨hk,hle,hlt⟩ := narrow_fits fit _ _ _ _ _ _ hreq hn
            exact ⟨hk,hle,by omega⟩

theorem narrow_total (hfit : ∀ j, ∃ r, fit j = .ok r) (rounds fits overflows : ℕ) (best : τ) :
    ∃ k t, narrow fit rounds fits overflows best = .ok (k,t) := by
  induction rounds generalizing fits overflows best with
  | zero => exact ⟨fits,best,rfl⟩
  | succ rounds ih =>
    rw [narrow]
    split
    · obtain ⟨r,hr⟩ := hfit (fits+(overflows-fits)/2)
      cases r <;> simp only [hr] <;> exact ih _ _ _
    · exact ⟨fits,best,rfl⟩

/-- With a round for each length of the gap, the search ends next to a length that does not fit,
and more rounds change nothing. -/
theorem narrow_ends (rounds fits overflows k : ℕ) (best t : τ) (ho : fit overflows = .ok none)
    (hlt : fits < overflows) (hr : overflows-fits ≤ rounds+1)
    (h : narrow fit rounds fits overflows best = .ok (k,t)) :
    fit (k+1) = .ok none ∧ ∀ more, narrow fit (rounds+more) fits overflows best = .ok (k,t) := by
  induction rounds generalizing fits overflows best with
  | zero =>
    cases h
    obtain rfl : overflows = k+1 := by omega
    refine ⟨ho,fun more => ?_⟩
    cases more <;> simp [narrow]
  | succ rounds ih =>
    simp only [Nat.add_right_comm, narrow] at h ⊢
    by_cases hgap : 1 < overflows-fits
    · simp only [if_pos hgap] at h ⊢
      cases hm : fit (fits+(overflows-fits)/2) with
      | error e => simp [hm] at h
      | ok found =>
        cases found with
        | some built =>
          simp only [hm] at h ⊢
          exact ih _ _ _ ho (by omega) (by omega) h
        | none =>
          simp only [hm] at h ⊢
          exact ih _ _ _ hm (by omega) (by omega) h
    · simp only [if_neg hgap] at h ⊢
      cases h
      obtain rfl : overflows = k+1 := by omega
      exact ⟨ho,fun _ => rfl⟩

section Threshold
variable (f : ℕ → τ) (bound top : ℕ) (hle : ∀ j, j ≤ bound → fit j = .ok (some (f j)))
  (hgt : ∀ j, bound < j → j ≤ top → fit j = .ok none)
include hle hgt

theorem narrow_threshold (rounds fits overflows : ℕ) (hf : fits ≤ bound)
    (ho : bound < overflows) (ht : overflows ≤ top) (hr : overflows - fits ≤ rounds + 1) :
    narrow fit rounds fits overflows (f fits) = .ok (bound,f bound) := by
  induction rounds generalizing fits overflows with
  | zero =>
    have hb : fits = bound := by omega
    rw [narrow, hb]
  | succ rounds ih =>
    rw [narrow]
    by_cases hgap : 1 < overflows - fits
    · rw [if_pos hgap]
      by_cases hm : fits + (overflows - fits) / 2 ≤ bound
      · simp only [hle _ hm]
        exact ih _ _ hm ho ht (by omega)
      have hm' := Nat.lt_of_not_le hm
      have htop : fits + (overflows - fits) / 2 ≤ top := by omega
      simp only [hgt _ hm' htop]
      exact ih _ _ hf hm' htop (by omega)
    · rw [if_neg hgap]
      have hb : fits = bound := by omega
      rw [hb]

theorem longest_fitting_threshold (required : ℕ) (hr : required ≤ bound) (hl : bound ≤ top) :
    longestFitting required top fit = .ok (some (bound,f bound)) := by
  rw [longestFitting]
  by_cases hb : top ≤ bound
  · have heq : top = bound := Nat.le_antisymm hb hl
    rw [heq]
    simp only [hle bound (Nat.le_refl _)]
  have hlt : bound < top := Nat.lt_of_not_le hb
  simp only [hgt _ hlt (Nat.le_refl _), hle _ hr]
  rw [narrow_threshold fit f bound top hle hgt _ _ _ hr hlt (Nat.le_refl _) (by omega)]
  rfl

end Threshold

end Foundation.LongestFit
