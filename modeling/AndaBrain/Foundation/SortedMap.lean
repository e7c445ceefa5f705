import Mathlib.Data.List.Sort

/-!
# Maps kept in the order of their keys

A map is the list of its entries with strictly increasing keys. Two maps with the same
entries are equal, so a map can be compared through its lookups.
-/

set_option autoImplicit false

namespace Foundation

structure SortedMap (κ α : Type) [LinearOrder κ] where
  entries : List (κ × α)
  sorted : entries.Pairwise (fun a b => a.1 < b.1)

namespace SortedMap
variable {κ α : Type} [LinearOrder κ]

def empty : SortedMap κ α := ⟨[],List.Pairwise.nil⟩

def lookup (m : SortedMap κ α) (k : κ) : Option α :=
  (m.entries.find? fun e => decide (e.1 = k)).map Prod.snd

def retain (m : SortedMap κ α) (p : κ → Bool) : SortedMap κ α :=
  ⟨m.entries.filter fun e => p e.1,m.sorted.filter _⟩

def erase (m : SortedMap κ α) (k : κ) : SortedMap κ α := m.retain fun key => decide (key ≠ k)

def insert (m : SortedMap κ α) (k : κ) (a : α) : SortedMap κ α where
  entries := m.entries.filter (fun e => decide (e.1 < k))++
    (k,a)::m.entries.filter fun e => decide (k < e.1)
  sorted := by
    refine List.pairwise_append.mpr ⟨m.sorted.filter _,?_,?_⟩
    · refine List.pairwise_cons.mpr ⟨?_,m.sorted.filter _⟩
      intro e he
      simpa using (List.mem_filter.mp he).2
    intro e he f hf
    have hlt : e.1 < k := by simpa using (List.mem_filter.mp he).2
    rcases List.mem_cons.mp hf with rfl | hf
    · exact hlt
    · exact hlt.trans (by simpa using (List.mem_filter.mp hf).2)

def ofList (entries : List (κ × α)) : SortedMap κ α :=
  entries.foldl (fun m e => m.insert e.1 e.2) empty

def isEmpty (m : SortedMap κ α) : Bool := m.entries.isEmpty

theorem lookup_iff (m : SortedMap κ α) (k : κ) (a : α) :
    m.lookup k = some a ↔ (k,a) ∈ m.entries := by
  unfold lookup
  constructor
  · intro h
    obtain ⟨e,he,rfl⟩ := Option.map_eq_some_iff.mp h
    have hk : e.1 = k := by simpa using List.find?_some he
    rw [← hk]
    exact List.mem_of_find?_eq_some he
  intro h
  obtain ⟨entries,hsorted⟩ := m
  show (entries.find? fun e => decide (e.1 = k)).map Prod.snd = some a
  induction entries with
  | nil => cases h
  | cons e rest ih =>
    obtain ⟨hfirst,hrest⟩ := List.pairwise_cons.mp hsorted
    rcases List.mem_cons.mp h with rfl | h
    · simp
    · have hne : e.1 ≠ k := ne_of_lt (hfirst (k,a) h)
      simpa [hne] using ih hrest h

@[simp] theorem lookup_empty (k : κ) : (empty : SortedMap κ α).lookup k = none := rfl

theorem lookup_retain (m : SortedMap κ α) (p : κ → Bool) (k : κ) :
    (m.retain p).lookup k = if p k then m.lookup k else none := by
  ext a
  rw [lookup_iff]
  by_cases hp : p k = true
  · simp [retain, hp, lookup_iff]
  · simp [retain, hp]

theorem lookup_erase (m : SortedMap κ α) (k key : κ) :
    (m.erase k).lookup key = if key = k then none else m.lookup key := by
  rw [erase, lookup_retain]
  by_cases h : key = k <;> simp [h]

theorem lookup_insert (m : SortedMap κ α) (k key : κ) (a : α) :
    (m.insert k a).lookup key = if key = k then some a else m.lookup key := by
  ext b
  rw [lookup_iff]
  by_cases h : key = k
  · subst h
    simp [insert, eq_comm]
  · have hcase := lt_or_gt_of_ne h
    simp [insert, h, lookup_iff, ← and_or_left, hcase]

end SortedMap

end Foundation
