import AndaBrain.Foundation.ThreadPool

/-!
# A keyed object store with conditional writes

Every object carries the version of its last write. A write may require that no object is there,
or that the object still has a version read before.
-/

set_option autoImplicit false

namespace Foundation.ConditionalStore
open Foundation.Resumption

structure Versioned (α : Type) where
  value : α
  version : ℕ
  deriving DecidableEq

inductive PutMode : Type
  | create
  | update (version : ℕ)
  deriving DecidableEq

structure Store (κ : Type) (β : κ → Type) where
  cells : (k : κ) → Option (Versioned (β k))
  next : ℕ

section Store
variable {κ : Type} {β : κ → Type} {α : Type}

def admits (mode : PutMode) (cell : Option (Versioned α)) : Bool :=
  match mode with
  | .create => cell.isNone
  | .update version => cell.any fun c => c.version == version

def value (st : Store κ β) (k : κ) : Option (β k) := (st.cells k).map Versioned.value

variable (st : Store κ β) (k : κ)

theorem value_none (h : st.cells k = none) : value st k = none := by
  rw [value, h]
  rfl

theorem value_cell (c : Versioned (β k)) (h : st.cells k = some c) : value st k = some c.value := by
  rw [value, h]
  rfl

theorem value_some (v : β k) (h : value st k = some v) : ∃ c, st.cells k = some c ∧ c.value = v :=
  Option.map_eq_some_iff.mp h

theorem admits_create (h : st.cells k = none) : admits .create (st.cells k) = true := by
  rw [h]
  rfl

theorem admits_update (c : Versioned (β k))
    (h : st.cells k = some c) : admits (.update c.version) (st.cells k) = true := by
  rw [h]
  simp [admits]

variable [DecidableEq κ]

def place (st : Store κ β) (k : κ) (v : β k) : Store κ β where
  cells := Function.update st.cells k (some ⟨v,st.next⟩)
  next := st.next + 1

@[simp] theorem cells_place (st : Store κ β) (k : κ) (v : β k) :
    (place st k v).cells k = some ⟨v,st.next⟩ := by
  simp [place]

theorem cells_place_of_ne (st : Store κ β) (k j : κ) (v : β k) (h : j ≠ k) :
    (place st k v).cells j = st.cells j :=
  Function.update_of_ne h _ _

@[simp] theorem value_place (st : Store κ β) (k : κ) (v : β k) :
    value (place st k v) k = some v := by
  rw [value, cells_place]
  rfl

theorem value_place_of_ne (st : Store κ β) (k j : κ) (v : β k) (h : j ≠ k) :
    value (place st k v) j = value st j := by
  rw [value, cells_place_of_ne st k j v h]
  rfl

end Store

/-- How the store treats one call: it serves it, it serves it and loses the
acknowledgement, or it fails the call without an effect. -/
inductive Service (ε : Type) : Type
  | up
  | lost (e : ε)
  | down (e : ε)

/-- A state that holds a store. -/
class Holds (σ : Type) (κ : outParam Type) (β : outParam (κ → Type)) where
  store : σ → Store κ β
  withStore : σ → Store κ β → σ
  store_withStore : ∀ s st, store (withStore s st) = st

/-- An environment that decides how the store treats a call. -/
class Serves (ι : Type) (ε : Type) where
  service : ι → Service ε
  refused : ε
  conflict : ε

section Programs
variable {ε ι σ κ : Type} {β : κ → Type} [Holds σ κ β] [Serves ι ε]

def read (k : κ) : Prog ε ι σ (Option (Versioned (β k))) :=
  query fun i s =>
    match (Serves.service i : Service ε) with
    | .down e => .error e
    | _ => .ok ((Holds.store s).cells k)

variable [DecidableEq κ]

def written (s : σ) (k : κ) (v : β k) : σ :=
  Holds.withStore s (place (Holds.store s) k v)

@[simp] theorem store_written (s : σ) (k : κ) (v : β k) :
    Holds.store (written s k v) = place (Holds.store s) k v :=
  Holds.store_withStore _ _

def putOpts (k : κ) (v : β k) (mode : PutMode) : Prog ε ι σ (Option ε) :=
  atomic
    (fun i s =>
      match (Serves.service i : Service ε) with
      | .down _ => s
      | _ => if admits mode ((Holds.store s).cells k) then written s k v else s)
    (fun i s =>
      match (Serves.service i : Service ε) with
      | .down e => .ok (some e)
      | .lost e => .ok (some e)
      | .up => .ok (if admits mode ((Holds.store s).cells k) then none
          else some (Serves.refused ι)))

variable [∀ k, DecidableEq (β k)]

def readBack (k : κ) (v : β k) (reported : Option ε) : Prog ε ι σ Unit :=
  query fun _ s =>
    if value (Holds.store s) k = some v then .ok ()
    else .error (reported.getD (Serves.conflict ι))

/-- A write whose read-back is served: what is stored is known when it returns. -/
def put (k : κ) (v : β k) (mode : PutMode) : Prog ε ι σ Unit := do
  let reported ← putOpts k v mode
  readBack k v reported

variable {G : σ → σ → Prop} {E : ε → σ → Prop}

variable (k : κ) (v : β k)

omit [DecidableEq κ] [∀ k, DecidableEq (β k)] in
theorem safe_read (s : σ) {Q : Option (Versioned (β k)) → σ → Prop}
    (hq : Q ((Holds.store s).cells k) s) (he : ∀ e, E e s) :
    Safe G Q E (read k : Prog ε ι σ _) s := by
  apply safe_query
  · intro i a h
    cases hs : (Serves.service i : Service ε) with
    | up =>
      simp only [hs, Except.ok.injEq] at h
      exact h ▸ hq
    | lost e =>
      simp only [hs, Except.ok.injEq] at h
      exact h ▸ hq
    | down e => simp [hs] at h
  · intro _ e _
    exact he e

omit [∀ k, DecidableEq (β k)] in
theorem safe_put_opts (mode : PutMode) (s : σ) {Q : Option ε → σ → Prop}
    (hg : admits mode ((Holds.store s).cells k) = true → G s (written s k v))
    (hq : ∀ r, admits mode ((Holds.store s).cells k) = true → Q r (written s k v))
    (hs : ∀ r, Q r s) : Safe G Q E (putOpts k v mode : Prog ε ι σ _) s := by
  intro i
  cases hi : (Serves.service i : Service ε) with
  | down e =>
    simp only [hi, lift]
    exact ⟨Or.inl trivial,hs _⟩
  | up =>
    by_cases ha : admits mode ((Holds.store s).cells k) = true
    · simp only [hi, lift, if_pos ha]
      exact ⟨Or.inr (hg ha),hq _ ha⟩
    · simp only [hi, lift, if_neg ha]
      exact ⟨Or.inl trivial,hs _⟩
  | lost e =>
    by_cases ha : admits mode ((Holds.store s).cells k) = true
    · simp only [hi, lift, if_pos ha]
      exact ⟨Or.inr (hg ha),hq _ ha⟩
    · simp only [hi, lift, if_neg ha]
      exact ⟨Or.inl trivial,hs _⟩

/-- A write by the only writer: it is reported done when it took effect, or
when the object already held the value, and it fails without an effect. -/
theorem safe_put (mode : PutMode) (s : σ) {Q : Unit → σ → Prop}
    (hg : admits mode ((Holds.store s).cells k) = true → G s (written s k v))
    (hq : admits mode ((Holds.store s).cells k) = true → Q () (written s k v))
    (hsame : value (Holds.store s) k = some v → Q () s) (he : ∀ e, E e s) :
    Safe G Q E (put k v mode : Prog ε ι σ _) s := by
  apply safe_bind
  apply safe_put_opts k v mode s hg
  · intro reported ha
    have hv : value (Holds.store (written s k v)) k = some v := by
      rw [store_written, value_place]
    apply safe_query
    · intro _ _ _
      exact hq ha
    · intro _ _ h
      rw [if_pos hv] at h
      cases h
  · intro reported
    apply safe_query
    · intro _ _ h
      by_cases hv : value (Holds.store s) k = some v
      · exact hsame hv
      · rw [if_neg hv] at h
        cases h
    · intro _ e _
      exact he e

def confirm (k : κ) (v : β k) (reported : Option ε) : Prog ε ι σ Unit := do
  let stored ← read k
  refuseIf (stored.map Versioned.value ≠ some v) (reported.getD (Serves.conflict ι))

/-- A write whose object is read back by a call of its own, which may fail. -/
def confirmedPut (k : κ) (v : β k) (mode : PutMode) : Prog ε ι σ Unit := do
  let reported ← putOpts k v mode
  confirm k v reported

def confirmedSave (k : κ) (v : β k) : Prog ε ι σ Unit := do
  let old ← read k
  confirmedPut k v (match old with
    | none => .create
    | some old => .update old.version)

theorem safe_confirmed_put (mode : PutMode) (s : σ) {Q : Unit → σ → Prop}
    (hg : admits mode ((Holds.store s).cells k) = true → G s (written s k v))
    (hq : admits mode ((Holds.store s).cells k) = true → Q () (written s k v))
    (hsame : value (Holds.store s) k = some v → Q () s) (he : ∀ e, E e s)
    (hw : admits mode ((Holds.store s).cells k) = true → ∀ e, E e (written s k v)) :
    Safe G Q E (confirmedPut k v mode : Prog ε ι σ _) s := by
  have back : ∀ (t : σ) (reported : Option ε), (value (Holds.store t) k = some v → Q () t) →
      (∀ e, E e t) → Safe G Q E (confirm k v reported : Prog ε ι σ _) t := by
    intro t reported ht het
    apply safe_bind
    apply safe_read
    · exact safe_refuse _ _ _ (fun _ => het _) fun hs => ht (not_not.mp hs)
    · exact het
  apply safe_bind
  exact safe_put_opts k v mode s hg (fun reported ha => back _ reported (fun _ => hq ha) (hw ha))
    fun reported => back s reported hsame he

theorem safe_confirmed_save (s : σ) {Q : Unit → σ → Prop}
    (hg : G s (written s k v)) (hq : Q () (written s k v))
    (hsame : value (Holds.store s) k = some v → Q () s) (he : ∀ e, E e s)
    (hw : ∀ e, E e (written s k v)) : Safe G Q E (confirmedSave k v : Prog ε ι σ _) s := by
  apply safe_bind
  apply safe_read
  · exact safe_confirmed_put k v _ s (fun _ => hg) (fun _ => hq) hsame he fun _ => hw
  · exact he

def served (service : Service ε) : Bool :=
  match service with
  | .down _ => false
  | _ => true

omit [DecidableEq κ] [∀ k, DecidableEq (β k)] in
theorem outcome_read (env : ℕ → ι) (s : σ)
    (h : served (Serves.service (env 0) : Service ε) = true) :
    outcome (read k : Prog ε ι σ _) env s =
      (.ok ((Holds.store s).cells k),s,fun n => env (n+1)) := by
  rw [read, outcome_query]
  cases hs : (Serves.service (env 0) : Service ε) with
  | down e =>
    rw [hs] at h
    cases h
  | up => rfl
  | lost e => rfl

omit [DecidableEq κ] [∀ k, DecidableEq (β k)] in
theorem yields_read {i : ι} (s : σ) (h : served (Serves.service i : Service ε) = true) :
    Yields i (read k : Prog ε ι σ _) s (.ok ((Holds.store s).cells k)) s :=
  outcome_read k (fun _ => i) s h

/-- A write that the object admits takes effect and is confirmed by a store that serves its
calls, also where it loses the acknowledgement. -/
theorem yields_confirmed_put {i : ι} (mode : PutMode) (s : σ)
    (h : served (Serves.service i : Service ε) = true)
    (ha : admits mode ((Holds.store s).cells k) = true) :
    Yields i (confirmedPut k v mode : Prog ε ι σ _) s (.ok ()) (written s k v) := by
  have hput : ∃ r, Yields i (putOpts k v mode : Prog ε ι σ _) s (.ok r) (written s k v) := by
    simp only [Yields, putOpts, outcome_atomic]
    cases hs : (Serves.service i : Service ε) with
    | down e =>
      rw [hs] at h
      cases h
    | up => exact ⟨none,by simp only [ha, if_true]⟩
    | lost e => exact ⟨some e,by simp only [ha, if_true]⟩
  obtain ⟨r,hr⟩ := hput
  apply yields_bind hr
  apply yields_bind (yields_read k (written s k v) h)
  rw [store_written, cells_place, refuseIf, if_neg (fun hne => hne rfl)]
  exact yields_ret ()

section Shared
open Foundation.ThreadPool
variable {R : σ → σ → Prop}

omit [DecidableEq κ] [∀ k, DecidableEq (β k)] in
theorem under_read (hup : ∀ i : ι, (Serves.service i : Service ε) = .up) (k : κ) (s : σ)
    {Q : Option (Versioned (β k)) → σ → Prop}
    (hq : ∀ t, R s t → ∀ u, R t u → Q ((Holds.store t).cells k) u) :
    SafeUnder R G Q E (read k : Prog ε ι σ _) s := by
  apply under_query
  · intro t ht i a h
    simp only [hup i, Except.ok.injEq] at h
    rw [← h]
    exact hq t ht
  · intro t ht i e h
    simp [hup i] at h

omit [DecidableEq κ] in
theorem under_confirm (hrefl : ∀ s, R s s) (htrans : ∀ a b c, R a b → R b c → R a c)
    (hup : ∀ i : ι, (Serves.service i : Service ε) = .up) (k : κ) (v : β k) (reported : Option ε)
    (s : σ) {Q : Unit → σ → Prop}
    (hq : ∀ t, R s t → value (Holds.store t) k = some v → ∀ u, R t u → Q () u)
    (he : ∀ t, R s t → value (Holds.store t) k ≠ some v → ∀ e u, R t u → E e u) :
    SafeUnder R G Q E (confirm k v reported : Prog ε ι σ _) s := by
  apply under_bind hrefl
  apply under_query
  · intro t ht i a ha u hu
    simp only [hup i, Except.ok.injEq] at ha
    subst ha
    apply under_refuse
    · exact fun hne w hw => he t ht hne _ w (htrans _ _ _ hu hw)
    · exact fun hv w hw => hq t ht (not_not.mp hv) w (htrans _ _ _ hu hw)
  · intro t ht i e h
    simp [hup i] at h

/-- A write among other writers, to a store that serves every call: what is
there when the object is read back decides the answer. -/
theorem under_confirmed_put (hrefl : ∀ s, R s s) (htrans : ∀ a b c, R a b → R b c → R a c)
    (hup : ∀ i : ι, (Serves.service i : Service ε) = .up)
    (k : κ) (v : β k) (mode : PutMode) (s : σ) {Q : Unit → σ → Prop}
    (hg : ∀ t, R s t → admits mode ((Holds.store t).cells k) = true → G t (written t k v))
    (hdone : ∀ t, R s t → admits mode ((Holds.store t).cells k) = true → ∀ u, R (written t k v) u →
      (value (Holds.store u) k = some v → ∀ w, R u w → Q () w) ∧
      (value (Holds.store u) k ≠ some v → ∀ e w, R u w → E e w))
    (hkept : ∀ t, R s t → admits mode ((Holds.store t).cells k) ≠ true → ∀ u, R t u →
      (value (Holds.store u) k = some v → ∀ w, R u w → Q () w) ∧
      (value (Holds.store u) k ≠ some v → ∀ e w, R u w → E e w)) :
    SafeUnder R G Q E (confirmedPut k v mode : Prog ε ι σ _) s := by
  apply under_bind hrefl
  intro t ht i
  by_cases ha : admits mode ((Holds.store t).cells k) = true
  · simp only [hup i, if_pos ha, lift]
    refine ⟨Or.inr (hg t ht ha),fun u hu => ?_⟩
    exact under_confirm hrefl htrans hup k v none u (fun w hw => (hdone t ht ha w (htrans _ _ _ hu hw)).1)
      fun w hw => (hdone t ht ha w (htrans _ _ _ hu hw)).2
  · simp only [hup i, if_neg ha, lift]
    refine ⟨Or.inl trivial,fun u hu => ?_⟩
    exact under_confirm hrefl htrans hup k v _ u (fun w hw => (hkept t ht ha w (htrans _ _ _ hu hw)).1)
      fun w hw => (hkept t ht ha w (htrans _ _ _ hu hw)).2

end Shared

end Programs

end Foundation.ConditionalStore
