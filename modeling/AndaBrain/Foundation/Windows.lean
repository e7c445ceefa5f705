import Mathlib.Data.List.Sort

/-!
# The first rows of an ordered answer

A bounded query answers with the first rows in the order of a key and says nothing about rows of
equal keys.
-/

set_option autoImplicit false

namespace Foundation.Windows
variable {α κ : Type*} [LinearOrder κ]

structure Arranges (key : α → κ) (rows answer : List α) : Prop where
  perm : answer.Perm rows
  sorted : answer.Pairwise (fun a b => key a ≤ key b)

def upTo (key : α → κ) (rows : List α) (k : κ) : List α :=
  rows.filter fun row => decide (key row ≤ k)

theorem in_window (key : α → κ) (rows answer : List α) (row : α) (limit : ℕ)
    (h : Arranges key rows answer) (hrow : row ∈ rows)
    (few : (upTo key rows (key row)).length ≤ limit) : row ∈ answer.take limit := by
  obtain ⟨before,after,rfl⟩ := List.append_of_mem (h.perm.mem_iff.mpr hrow)
  have hbefore : ∀ other ∈ before, key other ≤ key row := fun other hother =>
    (List.pairwise_append.mp h.sorted).2.2 other hother row (List.mem_cons_self ..)
  have hlen : before.length+1 ≤ (upTo key rows (key row)).length := by
    have hperm := (h.perm.filter fun other => decide (key other ≤ key row)).length_eq
    have hall : before.filter (fun other => decide (key other ≤ key row)) = before :=
      List.filter_eq_self.mpr fun other hother => by simpa using hbefore other hother
    rw [upTo, ← hperm, List.filter_append, hall]
    simp
  rw [List.take_append]
  apply List.mem_append_right
  obtain ⟨m,hm⟩ : ∃ m, limit-before.length = m+1 := ⟨limit-before.length-1,by omega⟩
  rw [hm, List.take_succ_cons]
  exact List.mem_cons_self ..

theorem sorted_by (key : α → κ) (rows : List α) :
    (rows.insertionSort (fun a b => key a ≤ key b)).Pairwise (fun a b => key a ≤ key b) := by
  have htotal : Std.Total (fun a b : α => key a ≤ key b) := ⟨fun a b => le_total _ _⟩
  have htrans : IsTrans α (fun a b : α => key a ≤ key b) := ⟨fun a b c => le_trans⟩
  exact List.pairwise_insertionSort _ rows

variable [DecidableEq α]

/-- The arrangement in which a row comes last among those of its key. -/
def latest (key : α → κ) (rows : List α) (row : α) : List α :=
  (((rows.filter fun other => decide (key other ≤ key row ∧ other ≠ row)).insertionSort
    (fun a b => key a ≤ key b))++[row])++
  (rows.filter fun other => decide (key row < key other)).insertionSort (fun a b => key a ≤ key b)

theorem latest_arranges (key : α → κ) (rows : List α) (row : α) (hn : rows.Nodup)
    (hrow : row ∈ rows) : Arranges key rows (latest key rows row) := by
  constructor
  · have hfirst := List.perm_insertionSort (fun a b => key a ≤ key b)
      (rows.filter fun other => decide (key other ≤ key row ∧ other ≠ row))
    have hlast := List.perm_insertionSort (fun a b => key a ≤ key b)
      (rows.filter fun other => decide (key row < key other))
    apply (List.perm_ext_iff_of_nodup _ hn).mpr
    · intro other
      simp only [latest, List.mem_append, hfirst.mem_iff, hlast.mem_iff, List.mem_filter,
        decide_eq_true_eq, List.mem_singleton]
      by_cases heq : other = row
      · simp [heq, hrow]
      · by_cases hle : key other ≤ key row
        · simp [heq, hle]
        · simp [heq, hle, lt_of_not_ge hle]
    apply List.Nodup.append
    · apply List.Nodup.append
      · exact hfirst.nodup_iff.mpr (hn.filter _)
      · exact List.nodup_singleton row
      · intro other hother hrow'
        rw [hfirst.mem_iff, List.mem_filter] at hother
        simp [List.mem_singleton.mp hrow'] at hother
    · exact hlast.nodup_iff.mpr (hn.filter _)
    intro other hother hrest
    simp only [List.mem_append, hfirst.mem_iff, List.mem_filter, decide_eq_true_eq,
      List.mem_singleton] at hother
    simp only [hlast.mem_iff, List.mem_filter, decide_eq_true_eq] at hrest
    rcases hother with hother | hother
    · exact absurd hother.2.1 (not_le.mpr hrest.2)
    · exact absurd hrest.2 (by simp [hother])
  have hfirst : ∀ other ∈ (rows.filter fun other => decide (key other ≤ key row ∧ other ≠ row)
      ).insertionSort (fun a b => key a ≤ key b), key other ≤ key row := by
    intro other hother
    rw [(List.perm_insertionSort _ _).mem_iff, List.mem_filter] at hother
    exact (of_decide_eq_true hother.2).1
  apply List.pairwise_append.mpr
  refine ⟨List.pairwise_append.mpr ⟨sorted_by key _,List.pairwise_singleton _ _,?_⟩,
    sorted_by key _,?_⟩
  · intro other hother last hlast
    rw [List.mem_singleton.mp hlast]
    exact hfirst other hother
  intro other hother rest hrest
  rw [(List.perm_insertionSort _ _).mem_iff, List.mem_filter] at hrest
  have hlt : key row < key rest := of_decide_eq_true hrest.2
  rcases List.mem_append.mp hother with hother | hother
  · exact (hfirst other hother).trans hlt.le
  · rw [List.mem_singleton.mp hother]
    exact hlt.le

theorem beyond_window (key : α → κ) (rows : List α) (row : α) (limit : ℕ) (hn : rows.Nodup)
    (hrow : row ∈ rows) (many : limit < (upTo key rows (key row)).length) :
    row ∉ (latest key rows row).take limit := by
  have hfirst := List.perm_insertionSort (fun a b => key a ≤ key b)
    (rows.filter fun other => decide (key other ≤ key row ∧ other ≠ row))
  have hlen : (upTo key rows (key row)).length =
      (rows.filter fun other => decide (key other ≤ key row ∧ other ≠ row)).length+1 := by
    have hrest : rows.filter (fun other => decide (key other ≤ key row ∧ other ≠ row)) =
        (upTo key rows (key row)).erase row := by
      rw [upTo, (hn.filter _).erase_eq_filter, List.filter_filter]
      apply List.filter_congr
      intro other _
      by_cases heq : other = row <;> simp [heq]
    have hmem : row ∈ upTo key rows (key row) := by simp [upTo, hrow]
    have hpos := List.length_pos_of_mem hmem
    rw [hrest, List.length_erase_of_mem hmem]
    omega
  rw [latest, List.append_assoc, List.take_append_of_le_length]
  · intro hmem
    have := List.mem_of_mem_take hmem
    rw [hfirst.mem_iff, List.mem_filter] at this
    simp at this
  · rw [hfirst.length_eq]
    omega

end Foundation.Windows
