import AndaBrain.AttentionTick

/-!
# What each operation of the directory can do

One lemma for each operation says how it may leave the store, whichever of its writes it
stops after.
-/

set_option autoImplicit false

namespace AndaBrain.Attention

theorem next_ok {n m : ℕ} (h : next n = .ok m) : m = n+1 ∧ n+1 ≤ maxCounter := by
  unfold next at h
  by_cases hle : n+1 ≤ maxCounter
  · rw [if_pos hle] at h
    cases h
    exact ⟨rfl,hle⟩
  · rw [if_neg hle] at h
    cases h

theorem next_of_le {n : ℕ} (h : n+1 ≤ maxCounter) : next n = .ok (n+1) := if_pos h

theorem put_done {α : Type} (new old : Store) (rest : Store → Store × Except String α) :
    put .done new old rest = rest new := rfl

theorem put_cases {α : Type} (answer : Put) (new old : Store)
    (rest : Store → Store × Except String α) : (put answer new old rest).1 = old ∨
    (put answer new old rest).1 = new ∨ put answer new old rest = rest new := by
  cases answer with
  | done => exact .inr (.inr rfl)
  | lost e => exact .inr (.inl rfl)
  | failed e => exact .inl rfl

def Store.allocated (st : Store) : ℕ := st.root.elim 0 Root.allocated

@[simp] theorem set_entry_root (st : Store) (key : String) (e : Entry) :
    (st.setEntry key e).root = st.root := rfl

@[simp] theorem set_entry_index (st : Store) (key : String) (e : Entry) :
    (st.setEntry key e).index = st.index := rfl

@[simp] theorem set_entry_self (st : Store) (key : String) (e : Entry) :
    (st.setEntry key e).entries key = some e := Function.update_self ..

section Operations
variable (host : Host)

variable (st : Store) (id : String)

theorem entry_iff (e : Entry) : host.entry st id = .ok (some e) ↔ validId
    id = true ∧ st.entries (host.digest id) = some e ∧ e.valid id host.shard = true := by
  unfold Host.entry
  by_cases hid : validId id = true
  · rw [if_pos hid]
    cases hentry : st.entries (host.digest id) with
    | none => simp
    | some old =>
      by_cases hvalid : old.valid id host.shard = true
      · simp only [if_pos hvalid, Except.ok.injEq, Option.some.injEq]
        constructor
        · rintro rfl
          exact ⟨hid,rfl,hvalid⟩
        · rintro ⟨-,h,-⟩
          exact h
      simp only [if_neg hvalid]
      constructor
      · intro h
        cases h
      · rintro ⟨-,h,hv⟩
        cases h
        exact absurd hv hvalid
  · rw [if_neg hid]
    simp [hid]

theorem entry_none (h : host.entry st id = .ok none) : st.entries (host.digest id) = none := by
  unfold Host.entry at h
  split at h
  · split at h
    · assumption
    · split at h <;> cases h
  · cases h

theorem entry_id (e : Entry) (h : host.entry st id = .ok (some e)) : e.id = id := by
  have hvalid := ((entry_iff host st id e).mp h).2.2
  simp only [Entry.valid, Bool.and_eq_true, beq_iff_eq] at hvalid
  exact hvalid.1.1.1.1.1.1.1.1.1.1.1.1.1.2

theorem read_slot_iff (slot : ℕ) (e : Entry) : host.readSlot st slot = .ok (some e) ↔
    st.index slot = some (host.indexOf e) ∧ host.entry st e.id = .ok (some e) ∧ e.slot = slot := by
  unfold Host.readSlot
  cases hindex : st.index slot with
  | none => simp
  | some index =>
    obtain ⟨format,scope,shard⟩ := index
    simp only [Option.some.injEq, Host.indexOf, Index.mk.injEq]
    constructor
    · intro h
      split at h
      · cases h
      next hform =>
      split at h
      · cases h
      · cases h
      next old hentry =>
      split at h
      · cases h
      next hsame =>
      cases h
      push Not at hform hsame
      have hid := entry_id host st _ _ hentry
      exact ⟨⟨hform.1,hsame.2.symm,hform.2⟩,by rw [hid]; exact hentry,hsame.1⟩
    · rintro ⟨⟨rfl,rfl,rfl⟩,hentry,rfl⟩
      rw [if_neg (by simp), show e.registration.scope.spaceId = e.id from rfl, hentry]
      simp

theorem enroll_cases (native : AttentionConfig) (e : Entry) (entryPut indexPut : Put) :
    (host.enroll st id native e entryPut indexPut).1 = st ∨ ∃ version dirty, next e.version = .ok
    version ∧ next e.dirty = .ok dirty ∧ (host.enroll st id native e entryPut indexPut).1.entries =
    Function.update st.entries (host.digest id) (some (Host.renewed e native version dirty)) ∧
    (host.enroll st id native e entryPut indexPut).1.root = st.root := by
  unfold Host.enroll
  cases hversion : next e.version with
  | error err => exact .inl rfl
  | ok version =>
    cases hdirty : next e.dirty with
    | error err => exact .inl rfl
    | ok dirty =>
      simp only
      cases entryPut with
      | failed err => exact .inl rfl
      | lost err => exact .inr ⟨version,dirty,rfl,rfl,rfl,rfl⟩
      | done =>
        right
        refine ⟨version,dirty,rfl,rfl,?_⟩
        rw [put_done]
        unfold Host.putIndex
        split
        · split
          · rcases put_cases indexPut _ _ _ with h | h | h <;> rw [h] <;> exact ⟨rfl,rfl⟩
          · exact ⟨rfl,rfl⟩
        · rcases put_cases indexPut _ _ _ with h | h | h <;> rw [h] <;> exact ⟨rfl,rfl⟩

theorem check_root_ok {root root' : Root} (h : checkRoot root = .ok root') :
    root' = root ∧ root.cursor ≤ root.allocated := by
  unfold checkRoot at h
  split at h
  · cases h
  next hok =>
  cases h
  push Not at hok
  exact ⟨rfl,hok.2.2⟩

theorem with_root_cases {α : Type} (st : Store) (answer : Put)
    (rest : Root → Store → Store × Except String α) :
    (withRoot st answer rest).1 = st ∨
      (st.root = none ∧ (withRoot st answer rest).1 = { st with root := some Root.start }) ∨
      (∃ root, st.root = some root ∧ checkRoot root = .ok root ∧ withRoot st answer rest = rest root st) ∨
      (st.root = none ∧ withRoot st answer rest = rest Root.start { st with root := some Root.start }) := by
  unfold withRoot
  cases hroot : st.root with
  | some root =>
    simp only
    cases hcheck : checkRoot root with
    | error err => exact .inl rfl
    | ok root' =>
      obtain ⟨rfl,-⟩ := check_root_ok hcheck
      exact .inr (.inr (.inl ⟨root',rfl,hcheck,rfl⟩))
  | none =>
    simp only
    rcases put_cases answer { st with root := some Root.start } st
      (fun st => rest Root.start st) with h | h | h
    · exact .inl h
    · exact .inr (.inl ⟨trivial,h⟩)
    · exact .inr (.inr (.inr ⟨trivial,h⟩))

section Register
variable (st : Store) (id : String) (native : AttentionConfig) (enabled : Bool)
  (puts : Host.RegisterPuts)

def Host.firstEntry (slot : ℕ) : Entry :=
  Host.renewed (host.newEntry slot id native enabled) native 1 1

theorem allocate_cases (root : Root) (h : st.root = some root) :
    ((host.allocate id native enabled puts root st).1.entries = st.entries ∧
      st.allocated ≤ (host.allocate id native enabled puts root st).1.allocated) ∨
    ((host.allocate id native enabled puts root st).1.allocated = st.allocated+1 ∧
      (host.allocate id native enabled puts root st).1.entries =
        Function.update st.entries (host.digest id)
          (some (host.firstEntry id native enabled (st.allocated+1)))) := by
  have hsame : st.allocated = root.allocated := by rw [Store.allocated, h]; rfl
  unfold Host.allocate
  split
  · exact .inl ⟨rfl,le_refl _⟩
  rcases put_cases puts.allocate
    { st with root := some { root with allocated := root.allocated+1 } } st
    (fun st => host.enroll st id native (host.newEntry (root.allocated+1) id native enabled)
      puts.entry puts.index) with hput | hput | hput
  · rw [hput]
    exact .inl ⟨rfl,le_refl _⟩
  · rw [hput]
    exact .inl ⟨rfl,hsame.le.trans (Nat.le_succ _)⟩
  rw [hput, hsame]
  rcases enroll_cases host { st with root := some { root with allocated := root.allocated+1 } } id
      native (host.newEntry (root.allocated+1) id native enabled) puts.entry puts.index with
    henroll | ⟨version,dirty,hversion,hdirty,hentries,hroot⟩
  · rw [henroll]
    exact .inl ⟨rfl,Nat.le_succ _⟩
  obtain ⟨rfl,-⟩ := next_ok hversion
  obtain ⟨rfl,-⟩ := next_ok hdirty
  right
  rw [Store.allocated, hroot, hentries]
  exact ⟨rfl,rfl⟩

/-- A registration renews the entry of the Space, or gives the Space the next slot. -/
theorem register_cases :
    ((host.register st id native enabled puts).1.entries = st.entries ∧
      st.allocated ≤ (host.register st id native enabled puts).1.allocated) ∨
    (∃ old version dirty, host.entry st id = .ok (some old) ∧ old.nativeScope = native.scope ∧
      next old.version = .ok version ∧ next old.dirty = .ok dirty ∧
      (host.register st id native enabled puts).1.entries =
        Function.update st.entries (host.digest id) (some (Host.renewed old native version dirty)) ∧
      (host.register st id native enabled puts).1.root = st.root) ∨
    (host.entry st id = .ok none ∧
      (host.register st id native enabled puts).1.allocated = st.allocated+1 ∧
      (host.register st id native enabled puts).1.entries =
        Function.update st.entries (host.digest id)
          (some (host.firstEntry id native enabled (st.allocated+1)))) := by
  unfold Host.register
  cases hentry : host.entry st id with
  | error err => exact .inl ⟨rfl,le_refl _⟩
  | ok found =>
    cases found with
    | some old =>
      simp only
      by_cases hscope : old.nativeScope = native.scope
      · rw [if_neg (by simpa using hscope)]
        rcases enroll_cases host st id native old puts.entry puts.index with h |
          ⟨version,dirty,hv,hd,he,hr⟩
        · rw [h]
          exact .inl ⟨rfl,le_refl _⟩
        · exact .inr (.inl ⟨old,version,dirty,rfl,hscope,hv,hd,he,hr⟩)
      · rw [if_pos (by simpa using hscope)]
        exact .inl ⟨rfl,le_refl _⟩
    | none =>
      simp only
      rcases with_root_cases st puts.create (host.allocate id native enabled puts) with
        h | ⟨hnone,h⟩ | ⟨root,hroot,-,h⟩ | ⟨hnone,h⟩
      · rw [h]
        exact .inl ⟨rfl,le_refl _⟩
      · rw [h]
        refine .inl ⟨rfl,?_⟩
        rw [Store.allocated, hnone]
        exact Nat.zero_le _
      · rw [h]
        rcases allocate_cases host st id native enabled puts root hroot with hcase | hcase
        · exact .inl hcase
        · exact .inr (.inr ⟨trivial,hcase⟩)
      have hzero : st.allocated = Store.allocated { st with root := some Root.start } := by
        rw [Store.allocated, hnone]
        rfl
      rw [h, hzero]
      rcases allocate_cases host { st with root := some Root.start } id native enabled puts
        Root.start rfl with hcase | hcase
      · exact .inl hcase
      · exact .inr (.inr ⟨trivial,hcase⟩)

end Register

theorem edit_cases (st : Store) (id : String) (change : Host.Change) (answer : Put) :
    (host.edit st id change answer).1 = st ∨ ∃ old e version dirty, host.entry st id = .ok
    (some old) ∧ change.apply old = .ok e ∧ next e.version = .ok version ∧ next e.dirty = .ok dirty
    ∧ (host.edit st id change answer).1 = st.setEntry (host.digest id) (Host.edited e version dirty)
    := by
  unfold Host.edit
  cases hentry : host.entry st id with
  | error err => exact .inl rfl
  | ok found =>
    cases found with
    | none => exact .inl rfl
    | some old =>
      simp only
      cases hchange : change.apply old with
      | error err => exact .inl rfl
      | ok e =>
        simp only
        cases hversion : next e.version with
        | error err => exact .inl rfl
        | ok version =>
          cases hdirty : next e.dirty with
          | error err => exact .inl rfl
          | ok dirty =>
            simp only
            rcases put_cases answer (st.setEntry (host.digest id) (Host.edited e version dirty)) st
              (fun st => (st,.ok ())) with h | h | h
            · exact .inl h
            · exact .inr ⟨old,e,version,dirty,rfl,hchange,hversion,hdirty,h⟩
            · exact .inr ⟨old,e,version,dirty,rfl,hchange,hversion,hdirty,congrArg Prod.fst h⟩

/-- A finish writes over an entry of the same version and generation, or nothing. -/
theorem finish_cases (st : Store) (e : Entry) (answer : Put) : (host.finish st e answer).1 = st ∨ ∃
    old version, host.entry st e.id = .ok (some old) ∧ old.version = e.version ∧ old.dirty = e.dirty
    ∧ next e.version = .ok version ∧ (host.finish st e answer).1 = st.setEntry (host.digest e.id)
    (Host.finished e version) := by
  unfold Host.finish
  cases hentry : host.entry st e.id with
  | error err => exact .inl rfl
  | ok found =>
    cases found with
    | none => exact .inl rfl
    | some old =>
      simp only
      by_cases hstale : old.version ≠ e.version ∨ old.dirty ≠ e.dirty
      · rw [if_pos hstale]
        exact .inl rfl
      rw [if_neg hstale]
      push Not at hstale
      cases hversion : next e.version with
      | error err => exact .inl rfl
      | ok version =>
        simp only
        rcases put_cases answer (st.setEntry (host.digest e.id) (Host.finished e version)) st
          (fun st => (st,.ok true)) with h | h | h
        · exact .inl h
        · exact .inr ⟨old,version,rfl,hstale.1,hstale.2,rfl,h⟩
        · exact .inr ⟨old,version,rfl,hstale.1,hstale.2,rfl,congrArg Prod.fst h⟩

end Operations

end AndaBrain.Attention
