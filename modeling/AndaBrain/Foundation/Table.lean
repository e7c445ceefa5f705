import Mathlib.Data.List.Sort

/-!
# Tables whose row ids only grow

A table keeps its rows in the order of their ids. A new row receives the id after the largest that
was ever given, so an id that was removed never comes back.
-/

set_option autoImplicit false

namespace Foundation

structure Table (α : Type) where
  rows : List (ℕ × α)
  last : ℕ
  sorted : rows.Pairwise (fun a b => a.1 < b.1)
  bound : ∀ r ∈ rows, 0 < r.1 ∧ r.1 ≤ last

namespace Table
variable {α : Type}

def empty : Table α := ⟨[],0,List.Pairwise.nil,fun _ h => nomatch h⟩

def get (t : Table α) (id : ℕ) : Option α := (t.rows.find? fun r => r.1 == id).map Prod.snd

def add (t : Table α) (a : α) : Table α where
  rows := t.rows++[(t.last+1,a)]
  last := t.last+1
  sorted := by
    refine List.pairwise_append.mpr ⟨t.sorted,List.pairwise_singleton _ _,?_⟩
    intro r hr s hs
    rw [List.mem_singleton.mp hs]
    exact Nat.lt_succ_of_le (t.bound r hr).2
  bound := by
    intro r hr
    rcases List.mem_append.mp hr with hr | hr
    · have := t.bound r hr
      omega
    · rw [List.mem_singleton.mp hr]
      omega

def update (t : Table α) (id : ℕ) (f : α → α) : Table α where
  rows := t.rows.map fun r => (r.1,if r.1 = id then f r.2 else r.2)
  last := t.last
  sorted := List.pairwise_map.mpr t.sorted
  bound := by
    intro r hr
    obtain ⟨s,hs,rfl⟩ := List.mem_map.mp hr
    exact t.bound s hs

def remove (t : Table α) (id : ℕ) : Table α where
  rows := t.rows.filter fun r => r.1 != id
  last := t.last
  sorted := t.sorted.filter _
  bound := fun r hr => t.bound r (List.mem_filter.mp hr).1

/-- The ids of the rows that satisfy a predicate, in increasing order. -/
def select (t : Table α) (p : ℕ → α → Bool) : List ℕ :=
  (t.rows.filter fun r => p r.1 r.2).map Prod.fst

/-- Looking up an id in rows whose ids are distinct. -/
theorem find_row (rows : List (ℕ × α)) (h : rows.Pairwise (fun a b => a.1 < b.1)) (id : ℕ)
    (a : α) : (rows.find? fun r => r.1 == id) = some (id,a) ↔ (id,a) ∈ rows := by
  induction rows with
  | nil => simp
  | cons r rows ih =>
    obtain ⟨hr,hrest⟩ := List.pairwise_cons.mp h
    by_cases hid : r.1 = id
    · have hout : (id,a) ∉ rows := by
        intro hm
        have := hr (id,a) hm
        omega
      simp [hid, hout, eq_comm]
    · have hne : (id,a) ≠ r := by
        intro heq
        exact hid (by rw [← heq])
      simp [hid, hne, ih hrest]

variable (t : Table α) (p : ℕ → α → Bool) (id : ℕ) (a : α) (f : α → α)

theorem mem_rows : (id,a) ∈ t.rows ↔ t.get id = some a := by
  rw [← find_row t.rows t.sorted]
  unfold get
  constructor
  · intro h
    rw [h]
    rfl
  intro h
  obtain ⟨r,hr,ha⟩ := Option.map_eq_some_iff.mp h
  have hid : r.1 = id := by simpa using List.find?_some hr
  rw [hr, ← hid, ← ha]

theorem get_bound (h : t.get id = some a) : 0 < id ∧ id ≤ t.last :=
  t.bound _ ((mem_rows t id a).mpr h)

theorem get_zero : t.get 0 = none := by
  cases h : t.get 0 with
  | none => rfl
  | some a =>
    have := get_bound t 0 a h
    omega

theorem get_add_new : (t.add a).get (t.last+1) = some a := by
  rw [← mem_rows]
  simp [add]

theorem get_add_old (id : ℕ) (h : id ≠ t.last+1) : (t.add a).get id = t.get id := by
  ext b
  rw [← mem_rows, ← mem_rows]
  simp [add, h]

theorem get_update (id i : ℕ) (f : α → α) :
    (t.update id f).get i = if i = id then (t.get i).map f else t.get i := by
  ext b
  rw [← mem_rows]
  split
  · rename_i hi
    rw [Option.map_eq_some_iff]
    constructor
    · intro h
      obtain ⟨r,hr,heq⟩ := List.mem_map.mp h
      simp only [Prod.mk.injEq] at heq
      rw [if_pos (heq.1.trans hi)] at heq
      exact ⟨r.2,(mem_rows t i r.2).mp (by rw [← heq.1]; exact hr),heq.2⟩
    · rintro ⟨a,ha,rfl⟩
      exact List.mem_map.mpr ⟨(i,a),(mem_rows t i a).mpr ha,by simp [hi]⟩
  · rename_i hi
    rw [← mem_rows]
    constructor
    · intro h
      obtain ⟨r,hr,heq⟩ := List.mem_map.mp h
      simp only [Prod.mk.injEq] at heq
      rw [if_neg (fun h => hi (heq.1.symm.trans h))] at heq
      rw [← heq.1, ← heq.2]
      exact hr
    · intro h
      exact List.mem_map.mpr ⟨(i,b),h,by simp [hi]⟩

theorem get_update_self : (t.update id f).get id = (t.get id).map f := by
  rw [get_update, if_pos rfl]

theorem get_update_other (id i : ℕ) (f : α → α) (h : i ≠ id) : (t.update id f).get i = t.get i := by
  rw [get_update, if_neg h]

theorem get_remove (id i : ℕ) :
    (t.remove id).get i = if i = id then none else t.get i := by
  ext b
  rw [← mem_rows]
  split
  · rename_i hi
    simp [remove, hi]
  · rename_i hi
    rw [← mem_rows]
    simp [remove, hi]

theorem mem_select : id ∈ t.select p ↔ ∃ a, t.get id = some a ∧ p id a = true := by
  constructor
  · intro h
    obtain ⟨r,hr,rfl⟩ := List.mem_map.mp h
    obtain ⟨hm,hp⟩ := List.mem_filter.mp hr
    exact ⟨r.2,(mem_rows t r.1 r.2).mp hm,hp⟩
  · rintro ⟨a,ha,hp⟩
    exact List.mem_map.mpr ⟨(id,a),List.mem_filter.mpr ⟨(mem_rows t id a).mpr ha,hp⟩,rfl⟩

theorem select_sorted : (t.select p).Pairwise (· < ·) :=
  List.pairwise_map.mpr (t.sorted.filter _)

theorem select_add :
    (t.add a).select p = t.select p++(if p (t.last+1) a then [t.last+1] else []) := by
  rw [select, add, List.filter_append, List.map_append]
  by_cases h : p (t.last+1) a = true <;> simp [select, h]

theorem select_update
    (h : ∀ a, t.get id = some a → p id (f a) = p id a) : (t.update id f).select p = t.select p := by
  rw [select, update, List.filter_map, List.map_map, select]
  have hfilter : t.rows.filter ((fun r => p r.1 r.2) ∘
      fun r => (r.1,if r.1 = id then f r.2 else r.2)) = t.rows.filter fun r => p r.1 r.2 := by
    apply List.filter_congr
    intro r hr
    by_cases hid : r.1 = id
    · have hrow : t.get id = some r.2 := by
        rw [← hid]
        exact (mem_rows t r.1 r.2).mp hr
      simp [hid, h r.2 hrow]
    · simp [hid]
  rw [hfilter]
  rfl

/-- A row that is changed right after it was added. -/
theorem update_add : (t.add a).update (t.last+1) f = t.add (f a) := by
  have hrows : ((t.rows++[(t.last+1,a)]).map fun r => (r.1,if r.1 = t.last+1 then f r.2 else r.2)) =
      t.rows++[(t.last+1,f a)] := by
    rw [List.map_append]
    congr 1
    · conv_rhs => rw [← List.map_id t.rows]
      apply List.map_congr_left
      intro r hr
      have := (t.bound r hr).2
      rw [if_neg (by omega)]
      rfl
    · simp
  simp only [update, add, hrows]

@[simp] theorem last_add : (t.add a).last = t.last+1 := rfl

@[simp] theorem last_update : (t.update id f).last = t.last := rfl

@[simp] theorem last_remove : (t.remove id).last = t.last := rfl

@[simp] theorem get_empty : (empty : Table α).get id = none := rfl

end Table

end Foundation
