import Mathlib.Data.List.Infix
import Mathlib.Data.List.Range

/-!
# Entries that nest by level

A list of entries, each with a level, is read as an outline: an entry is open until a later
entry of the same or a smaller level. A stack that forgets the levels and is cut at a depth
holds the open entries exactly as long as no level is skipped below an entry that is closed.
-/

set_option autoImplicit false

namespace Foundation.Nesting

variable {α : Type*} (level : α → ℕ)

def enclosing : List α → List α
  | [] => []
  | e::rest => if rest.all (level e < level ·) then e::enclosing rest else enclosing rest

/-- What a stack holds that is cut to one less than the level of each entry. -/
def stacked (entries : List α) : List α :=
  entries.foldl (fun s e => s.take (level e-1)++[e]) []

def Fits (s : List α) (n : ℕ) : Prop :=
  (∀ e ∈ s, level e < n) ∨ (s.take (n-1)).map level = List.range' 1 (n-1)

def Steady (entries : List α) : Prop :=
  ∀ before e after, entries = before++e::after → Fits level (enclosing level before) (level e)

theorem enclosing_sublist (entries : List α) : (enclosing level entries).Sublist entries := by
  induction entries with
  | nil => exact List.Sublist.slnil
  | cons e rest ih =>
    simp only [enclosing]
    split
    · exact ih.cons_cons e
    · exact ih.cons e

theorem enclosing_increasing (entries : List α) :
    (enclosing level entries).Pairwise fun a b => level a < level b := by
  induction entries with
  | nil => exact List.Pairwise.nil
  | cons e rest ih =>
    simp only [enclosing]
    split
    · rename_i hopen
      have hall : ∀ l ∈ rest, level e < level l := by simpa using hopen
      exact List.Pairwise.cons (fun l hl => hall l ((enclosing_sublist level rest).subset hl)) ih
    · exact ih

theorem enclosing_snoc (before : List α) (e : α) :
    enclosing level (before++[e]) = (enclosing level before).filter (level · < level e)++[e] := by
  induction before with
  | nil => simp [enclosing]
  | cons d before ih =>
    simp only [List.cons_append, enclosing, List.all_append, List.all_cons, List.all_nil,
      Bool.and_true]
    by_cases hopen : before.all (level d < level ·) <;> by_cases hlt : level d < level e
    · simp [hopen, hlt, ih]
    · simp [hopen, hlt, ih]
    · simp [hopen, hlt, ih]
    · simp [hopen, hlt, ih]

theorem stacked_snoc (before : List α) (e : α) :
    stacked level (before++[e]) = (stacked level before).take (level e-1)++[e] := by
  simp [stacked]

theorem increasing_length (levels : List ℕ) (lo hi : ℕ) (h : levels.Pairwise (· < ·))
    (hlo : ∀ n ∈ levels, lo ≤ n) (hhi : ∀ n ∈ levels, n < hi) : levels.length ≤ hi-lo := by
  induction levels generalizing lo with
  | nil => exact Nat.zero_le _
  | cons n levels ih =>
    obtain ⟨hn,hrest⟩ := List.pairwise_cons.mp h
    have hlen := ih (n+1) hrest (fun m hm => hn m hm) fun m hm => hhi m (List.mem_cons_of_mem _ hm)
    have h1 := hlo n List.mem_cons_self
    have h2 := hhi n List.mem_cons_self
    simp only [List.length_cons]
    omega

theorem increasing_range (levels : List ℕ) (lo : ℕ) (h : levels.Pairwise (· < ·))
    (hlo : ∀ n ∈ levels, lo ≤ n) (hhi : ∀ n ∈ levels, n < lo+levels.length) :
    levels = List.range' lo levels.length := by
  induction levels generalizing lo with
  | nil => rfl
  | cons n levels ih =>
    obtain ⟨hn,hrest⟩ := List.pairwise_cons.mp h
    have htail : ∀ m ∈ levels, m < lo+(levels.length+1) :=
      fun m hm => hhi m (List.mem_cons_of_mem _ hm)
    have hlen := increasing_length levels (n+1) _ hrest (fun m hm => hn m hm) htail
    have h1 := hlo n List.mem_cons_self
    have h2 := hhi n List.mem_cons_self
    simp only [List.length_cons] at h2
    have heq : n = lo := by omega
    subst heq
    have hsame := ih (n+1) hrest (fun m hm => hn m hm) fun m hm => by
      have := htail m hm
      omega
    rw [List.length_cons, List.range'_succ, ← hsame]

section Cut
variable {level} (s : List α) (n : ℕ)

theorem filter_take (h : s.Pairwise fun a b => level a < level b) :
    s.filter (level · < n) = s.take (s.filter (level · < n)).length := by
  induction s with
  | nil => rfl
  | cons e s ih =>
    obtain ⟨he,hs⟩ := List.pairwise_cons.mp h
    by_cases hlt : level e < n
    · simp only [hlt, decide_true, List.filter_cons_of_pos, List.length_cons, List.take_succ_cons]
      rw [← ih hs]
    have hnone : (e::s).filter (level · < n) = [] := by
      rw [List.filter_eq_nil_iff]
      intro d hd
      rcases List.mem_cons.mp hd with rfl | hd
      · simpa using hlt
      · have := he d hd
        simp only [decide_eq_true_eq]
        omega
    rw [hnone]
    rfl

theorem filter_length (h : s.Pairwise fun a b => level a < level b) (hpos : ∀ e ∈ s, 1 ≤ level e) :
    (s.filter (level · < n)).length ≤ n-1 := by
  rw [← List.length_map (f := level)]
  apply increasing_length _ 1 n
  · exact List.pairwise_map.mpr (h.sublist List.filter_sublist)
  · intro m hm
    obtain ⟨e,he,rfl⟩ := List.mem_map.mp hm
    exact hpos e (List.mem_filter.mp he).1
  · intro m hm
    obtain ⟨e,he,rfl⟩ := List.mem_map.mp hm
    simpa using (List.mem_filter.mp he).2

theorem fits_iff (h : s.Pairwise fun a b => level a < level b) (hpos : ∀ e ∈ s, 1 ≤ level e) :
    Fits level s n ↔ (s.take (n-1)).length = (s.filter (level · < n)).length := by
  have hcut := filter_take s n h
  have hlen := filter_length s n h hpos
  constructor
  · rintro (hall | hfull)
    · have hkept : s.filter (level · < n) = s :=
        List.filter_eq_self.mpr fun e he => by simpa using hall e he
      rw [hkept] at hlen ⊢
      rw [List.length_take]
      omega
    have hroom : (s.take (n-1)).length = n-1 := by
      simpa using congrArg List.length hfull
    have hin : (s.take (n-1)).filter (level · < n) = s.take (n-1) := by
      apply List.filter_eq_self.mpr
      intro e he
      have hl : level e ∈ List.range' 1 (n-1) := hfull ▸ List.mem_map_of_mem he
      have := List.mem_range'_1.mp hl
      simp only [decide_eq_true_eq]
      omega
    have hle := ((List.take_sublist (n-1) s).filter (level · < n)).length_le
    rw [hin] at hle
    omega
  intro heq
  by_cases hall : s.length ≤ n-1
  · left
    rw [List.take_of_length_le hall] at heq
    have hsame := List.filter_sublist.eq_of_length heq.symm
    intro e he
    have hin : e ∈ s.filter (level · < n) := by rwa [hsame]
    simpa using (List.mem_filter.mp hin).2
  right
  rw [List.length_take, Nat.min_eq_left (by omega)] at heq
  rw [← heq] at hcut
  have hlevels : ((s.take (n-1)).map level).length = n-1 := by
    rw [List.length_map, List.length_take]
    omega
  conv_rhs => rw [← hlevels]
  apply increasing_range
  · exact List.pairwise_map.mpr (h.sublist (List.take_sublist _ _))
  · intro m hm
    obtain ⟨e,he,rfl⟩ := List.mem_map.mp hm
    exact hpos e (List.mem_of_mem_take he)
  intro m hm
  obtain ⟨e,he,rfl⟩ := List.mem_map.mp hm
  rw [← hcut] at he
  have := (List.mem_filter.mp he).2
  simp only [decide_eq_true_eq] at this
  omega

end Cut

variable {β : Type*} (title : α → β)

theorem stacked_iff (entries : List α) (hpos : ∀ e ∈ entries, 1 ≤ level e) :
    (∀ before e after, entries = before++e::after →
      (stacked level (before++[e])).map title = (enclosing level (before++[e])).map title) ↔
    Steady level entries := by
  have hone : ∀ before e after, entries = before++e::after →
      (stacked level before).map title = (enclosing level before).map title →
      ((stacked level (before++[e])).map title = (enclosing level (before++[e])).map title ↔
        Fits level (enclosing level before) (level e)) := by
    intro before e after heq hsame
    have hopen : ∀ d ∈ enclosing level before, 1 ≤ level d := fun d hd => hpos d <| by
      rw [heq]
      exact List.mem_append_left _ ((enclosing_sublist level before).subset hd)
    rw [fits_iff _ _ (enclosing_increasing level before) hopen, stacked_snoc, enclosing_snoc]
    simp only [List.map_append, List.map_take, hsame, List.append_cancel_right_eq]
    rw [← List.map_take]
    constructor
    · intro h
      simpa using congrArg List.length h
    · intro h
      rw [filter_take _ _ (enclosing_increasing level before), ← h]
      simp
  have hpoint : ∀ before after, entries = before++after →
      (∀ b e a, entries = b++e::a → b.length < before.length →
        (stacked level (b++[e])).map title = (enclosing level (b++[e])).map title) →
      (stacked level before).map title = (enclosing level before).map title := by
    intro before after heq h
    rcases List.eq_nil_or_concat' before with rfl | ⟨b,e,rfl⟩
    · rfl
    · exact h b e after (by simpa using heq) (by simp)
  constructor
  · intro h before e after heq
    exact (hone before e after heq (hpoint before _ heq fun b d a hb _ => h b d a hb)).mp
      (h before e after heq)
  intro h before e after heq
  induction hn : before.length using Nat.strongRecOn generalizing before e after with
  | ind n ih =>
    apply (hone before e after heq _).mpr (h before e after heq)
    apply hpoint before _ heq
    intro b d a hb hlt
    exact ih b.length (by omega) b d a hb rfl

end Foundation.Nesting
