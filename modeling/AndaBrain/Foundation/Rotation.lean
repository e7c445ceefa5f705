import Mathlib

/-!
# A cursor that goes round

`n` places are visited in pages of at most `k`. A page starts behind the cursor, or at the
first place when the cursor stands on the last one, and the cursor moves to its end.
-/

set_option autoImplicit false

namespace Foundation.Rotation

variable (n k : ℕ)

def behind (c : ℕ) : ℕ := if c = n then 0 else c

def stop (c : ℕ) : ℕ := min n (behind n c+k)

def OnPage (c s : ℕ) : Prop := behind n c < s ∧ s ≤ stop n k c

def pages : ℕ := (n+k-1)/k

variable {n k}

theorem le_pages (hk : 0 < k) : n ≤ pages n k*k := by
  have hlt := Nat.lt_div_mul_add (a := n+k-1) hk
  show n ≤ (n+k-1)/k*k
  omega

theorem stop_le (c : ℕ) : stop n k c ≤ n := min_le_left _ _

theorem behind_stop (c s : ℕ) (hs : s ≤ n) (h : behind n c+k < s) :
    behind n (stop n k c) = behind n c+k := by
  have hstop : stop n k c = behind n c+k := min_eq_right (by omega)
  rw [hstop, behind, if_neg (by omega)]

theorem reached (m : ℕ) (c s : ℕ) (hlt : behind n c < s) (hs : s ≤ n)
    (hm : s ≤ behind n c+m*k) : ∃ i < m, OnPage n k ((stop n k)^[i] c) s := by
  induction m generalizing c with
  | zero => omega
  | succ m ih =>
    by_cases hpage : s ≤ behind n c+k
    · exact ⟨0,by omega,hlt,le_min hs hpage⟩
    have hnext := behind_stop (k := k) c s hs (by omega)
    have hsum : (m+1)*k = m*k+k := Nat.succ_mul m k
    have hnear : s ≤ behind n (stop n k c)+m*k := by omega
    obtain ⟨i,hi,hon⟩ := ih (stop n k c) (by omega) hnear
    exact ⟨i+1,by omega,hon⟩

theorem wraps (m : ℕ) (c : ℕ) (hc : c ≤ n) (hm : n ≤ behind n c+m*k) :
    ∃ i ≤ m, (stop n k)^[i] c = n := by
  induction m generalizing c with
  | zero =>
    have hcn : c = n := by
      by_cases h : c = n
      · exact h
      · rw [behind, if_neg h] at hm
        omega
    exact ⟨0,le_refl 0,hcn⟩
  | succ m ih =>
    by_cases hpage : n ≤ behind n c+k
    · exact ⟨1,by omega,min_eq_left hpage⟩
    have hnext := behind_stop (k := k) c n (le_refl n) (by omega)
    have hsum : (m+1)*k = m*k+k := Nat.succ_mul m k
    have hnear : n ≤ behind n (stop n k c)+m*k := by omega
    obtain ⟨i,hi,hend⟩ := ih (stop n k c) (stop_le c) hnear
    exact ⟨i+1,by omega,hend⟩

theorem covers (hk : 0 < k) (c s : ℕ) (hc : c ≤ n) (hpos : 0 < s) (hs : s ≤ n) :
    ∃ i < 2*pages n k, OnPage n k ((stop n k)^[i] c) s := by
  have hfit := le_pages (n := n) hk
  by_cases hlt : behind n c < s
  · have hround : s ≤ behind n c+pages n k*k := by omega
    obtain ⟨i,hi,hon⟩ := reached (pages n k) c s hlt hs hround
    exact ⟨i,by omega,hon⟩
  have hround : n ≤ behind n c+pages n k*k := by omega
  obtain ⟨i,hi,hend⟩ := wraps (pages n k) c hc hround
  have hzero : behind n n = 0 := if_pos rfl
  have hagain : s ≤ behind n n+pages n k*k := by omega
  obtain ⟨j,hj,hon⟩ := reached (pages n k) n s (by omega) hs hagain
  refine ⟨j+i,by omega,?_⟩
  rw [Function.iterate_add_apply, hend]
  exact hon

section Around
variable {α : Type} [LinearOrder α] {ids : List α}

def around (ids : List α) (c : α) : List α := ids.filter (c < ·)++ids.filter (· ≤ c)

def window (k : ℕ) (ids : List α) (c : α) : List α := (around ids c).take k

def turned (k : ℕ) (ids : List α) (c : α) : α := (window k ids c).getLast?.getD c

theorem around_perm (ids : List α) (c : α) : (around ids c).Perm ids := by
  have h := List.filter_append_perm (fun x => decide (c < x)) ids
  simpa only [around, ← decide_not, not_lt] using h

theorem window_nodup (k : ℕ) (c : α) (h : ids.Nodup) : (window k ids c).Nodup :=
  ((around_perm ids c).nodup_iff.mpr h).sublist (List.take_sublist _ _)

theorem around_split (front back : List α) (c : α) (hfront : ∀ z ∈ front, z ≤ c)
    (hback : ∀ z ∈ back, c < z) : around (front++back) c = back++front := by
  have hlow : front.filter (c < ·) = [] := by simpa using hfront
  have hhigh : back.filter (c < ·) = back := by simpa using hback
  have hkeep : front.filter (· ≤ c) = front := by simpa using hfront
  have hdrop : back.filter (· ≤ c) = [] := by simpa using hback
  simp [around, hlow, hhigh, hkeep, hdrop]

theorem exists_split (h : ids.Pairwise (· < ·)) (c : α) :
    ∃ front back, ids = front++back ∧ (∀ z ∈ front, z ≤ c) ∧ ∀ z ∈ back, c < z := by
  induction ids with
  | nil => exact ⟨[],[],rfl,by simp,by simp⟩
  | cons y ids ih =>
    obtain ⟨hy,hids⟩ := List.pairwise_cons.mp h
    by_cases hc : c < y
    · exact ⟨[],y::ids,rfl,by simp,fun z hz => by
        rcases List.mem_cons.mp hz with rfl | hz
        · exact hc
        · exact lt_trans hc (hy z hz)⟩
    · obtain ⟨front,back,rfl,hfront,hback⟩ := ih hids
      exact ⟨y::front,back,rfl,List.forall_mem_cons.mpr ⟨not_lt.mp hc,hfront⟩,hback⟩

/-- When the cursor moves over the next member, that member comes last. -/
theorem around_cons (h : ids.Pairwise (· < ·)) (c x : α) (rest : List α)
    (hc : around ids c = x::rest) : around ids x = rest++[x] := by
  obtain ⟨front,back,rfl,hfront,hback⟩ := exists_split h c
  obtain ⟨hsorted,hs,hcross⟩ := List.pairwise_append.mp h
  rw [around_split front back c hfront hback] at hc
  cases back with
  | nil =>
    obtain rfl : front = x::rest := hc
    have hx := (List.pairwise_cons.mp hsorted).1
    simpa using around_split [x] rest x (by simp) hx
  | cons y back =>
    obtain ⟨rfl,rfl⟩ := List.cons.inj hc
    have hlow : ∀ z ∈ front++[y], z ≤ y := by
      intro z hz
      rcases List.mem_append.mp hz with hz | hz
      · exact le_of_lt (hcross z hz y List.mem_cons_self)
      · exact le_of_eq (List.mem_singleton.mp hz)
    simpa using around_split (front++[y]) back y hlow (List.pairwise_cons.mp hs).1

theorem around_after (h : ids.Pairwise (· < ·)) (c : α) (page rest : List α)
    (hc : around ids c = page++rest) : around ids (page.getLast?.getD c) = rest++page := by
  induction page generalizing c rest with
  | nil => simpa using hc
  | cons x page ih =>
    have hx := around_cons h c x (page++rest) hc
    have hnext := ih x (rest++[x]) (by rw [hx, List.append_assoc])
    rw [List.getLast?_cons, Option.getD_some, hnext, List.append_assoc]
    rfl

/-- As many windows as hold all the members visit each of them. -/
theorem windows_cover (h : ids.Pairwise (· < ·)) (m : ℕ) (c x : α)
    (hx : x ∈ (around ids c).take (m*k)) : ∃ i < m, x ∈ window k ids ((turned k ids)^[i] c) := by
  induction m generalizing c with
  | zero => simp at hx
  | succ m ih =>
    by_cases hnow : x ∈ window k ids c
    · exact ⟨0,Nat.succ_pos m,hnow⟩
    have hturn : around ids (turned k ids c) = (around ids c).drop k++window k ids c :=
      around_after h c _ _ (List.take_append_drop k _).symm
    have hlater : x ∈ ((around ids c).drop k).take (m*k) := by
      rw [Nat.succ_mul, Nat.add_comm, List.take_add] at hx
      exact (List.mem_append.mp hx).resolve_left hnow
    obtain ⟨i,hi,hin⟩ := ih (turned k ids c) (by
      rw [hturn, List.take_append]
      exact List.mem_append_left _ hlater)
    exact ⟨i+1,Nat.succ_lt_succ hi,hin⟩

end Around

end Foundation.Rotation
