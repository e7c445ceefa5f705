import AndaBrain.ProductChanges

/-!
# What one step of a managed change can do

Every operation on the product control is run step by step.
-/

set_option autoImplicit false

namespace AndaBrain.Product
open Foundation.Resumption Foundation.ConditionalStore

inductive Op where
  | prepare (caller : Principal) (input : ChangeInput)
  | commit (caller : Principal) (id previewDigest : String)
  | discard (caller : Principal) (id : String)
  | recover (key : String)
  | suppressSources (keys : Finset String)
  | admitSource (source : SourceIdentity)
  | check (processing : Option ℕ)
  | forget (erased : Finset String)
  | work
  deriving DecidableEq

inductive Reply where
  | receipt (receipt : ChangeReceipt)
  | admitted (epoch : ℕ)
  | done
  deriving DecidableEq

def prog (lib : Library) : Op → M Reply
  | .prepare caller input => do
    let receipt ← prepareChangeInner lib caller input
    pure (.receipt receipt)
  | .commit caller id previewDigest => do
    let receipt ← productCommit lib caller id previewDigest
    pure (.receipt receipt)
  | .discard caller id => do
    productDiscard lib caller id
    pure .done
  | .recover key => do
    recoverProductChange key
    pure .done
  | .suppressSources keys => do
    suppressSources keys
    pure .done
  | .admitSource source => do
    let state ← snapshot
    match state.admitSource source with
    | .ok epoch => pure (.admitted epoch)
    | .error e => Prog.fail e.text
  | .check processing => do
    let state ← snapshot
    lift (state.check processing)
    pure .done
  | .forget erased => do
    forgetPreviews erased
    pure .done
  | .work => do
    atomic (fun i w => { w with native := i.work w.native }) (fun _ _ => .ok ())
    pure .done

def durable (w : World) : Option ControlState := value w.journal .state

def change (w : World) (key : String) : Option StoredChange := value w.journal (.change key)

def marked (w : World) (key : String) : Prop := value w.journal (.discarded key) ≠ none

def requestsOf (w : World) (key : String) : List Request :=
  (w.executed.filter fun entry => entry.1 == key).map Prod.snd

def reboot (w : World) : World :=
  let state := (durable w).getD ControlState.default
  { w with published := state, seen := state.pending.toList }

def fresh (native : Graph) : World where
  journal := place ⟨fun _ => none,0⟩ .state ControlState.default
  published := ControlState.default
  seen := []
  native := native
  executed := []

def Touched (w : World) (key : String) : Prop := key ∈ w.seen ∨ requestsOf w key ≠ []

def Bound (w : World) (state : ControlState) (key : String) : Prop :=
  ∃ x, change w key = some x ∧ (state.pending = some key ∨ x.receipt.state = .confirmed)

def Verified (w : World) (key : String) : Prop :=
  ∃ x, change w key = some x ∧ x.receipt.state = .confirmed ∧
    (x.input.kind = .delete → ∀ t ∈ x.receipt.preview.targets, w.native t.id = some .purged) ∧
    (x.input.kind = .suppress → ∀ t ∈ x.receipt.preview.targets, w.native t.id = some .archived)

structure Follows (w : World) (old new : ControlState) : Prop where
  epoch : new.epoch =
    if old.pending = none ∧ new.pending ≠ none then old.epoch + 1 else old.epoch
  suppressed : old.suppressed ⊆ new.suppressed
  cleared : ∀ key, old.pending = some key →
    new.pending = some key ∨ (new.pending = none ∧ Verified w key)

def Coherent (w : World) (state : ControlState) : Prop :=
  ∀ key, state.pending = some key ∨ requestsOf w key ≠ [] → Bound w state key

structure Quiet (w : World) : Prop where
  settled : durable w = some w.published
  pending : ∀ key, w.published.pending = some key → key ∈ w.seen
  bound : ∀ key, Touched w key → Bound w w.published key

def Mid (w : World) : Prop :=
  ∃ state, durable w = some state ∧ Coherent w state ∧ Coherent w w.published ∧
    Follows w w.published state

structure Retired (w : World) (key : String) : Prop where
  marked : marked w key
  discarded : ∀ x, change w key = some x → x.receipt.state = .discarded
  published : w.published.pending ≠ some key
  durable : ∀ state, durable w = some state → state.pending ≠ some key

structure Step (a b : World) : Prop where
  published : Follows a a.published b.published
  durable : ∀ old new, durable a = some old → durable b = some new → Follows a old new
  mid : Mid b
  retired : ∀ key, Retired a key → Retired b key ∧ requestsOf b key = requestsOf a key

theorem follows_refl (w : World) (state : ControlState) : Follows w state state := by
  refine ⟨?_,fun _ h => h,fun _ h => Or.inl h⟩
  rw [if_neg]
  intro h
  exact h.2 h.1

theorem quiet_coherent (w : World) (h : Quiet w) : Coherent w w.published := by
  intro key hk
  apply h.bound key
  rcases hk with hp | hr
  · exact Or.inl (h.pending key hp)
  · exact Or.inr hr

theorem quiet_mid (w : World) (h : Quiet w) : Mid w :=
  ⟨w.published,h.settled,quiet_coherent w h,quiet_coherent w h,follows_refl _ _⟩

theorem bound_not_retired (w : World) (key : String) (hb : Bound w w.published key) :
    ¬Retired w key := by
  intro hr
  obtain ⟨x,hx,hs⟩ := hb
  rcases hs with hp | hc
  · exact hr.published hp
  · have hd := hr.discarded x hx
    rw [hc] at hd
    cases hd

theorem step_quiet (a b : World) (ha : Quiet a) (hb : Quiet b) (hp : b.published = a.published)
    (hr : ∀ key, Retired a key → Retired b key ∧ requestsOf b key = requestsOf a key) : Step a b :=
    by
  refine ⟨?_,?_,quiet_mid b hb,hr⟩
  · rw [hp]
    exact follows_refl a _
  intro old new ho hn
  rw [ha.settled] at ho
  rw [hb.settled, hp] at hn
  cases ho
  cases hn
  exact follows_refl a _

section Writes
variable (w : World) (key : String) (x : StoredChange)

@[simp] theorem durable_write_change : durable (written w (.change key) x) = durable w :=
  value_place_of_ne _ _ _ _ (by simp)

@[simp] theorem change_write_change : change (written w (.change key) x) key = some x :=
  value_place _ _ _

theorem change_write_other (j : String) (h : j ≠ key) :
    change (written w (.change key) x) j = change w j :=
  value_place_of_ne _ _ _ _ (by simpa using h)

@[simp] theorem marked_write_change (j : String) :
    marked (written w (.change key) x) j = marked w j := by
  unfold marked
  rw [show value (written w (.change key) x).journal (.discarded j) = value w.journal
    (.discarded j) from value_place_of_ne _ _ _ _ (by simp)]

@[simp] theorem durable_write_mark : durable (written w (.discarded key) true) = durable w :=
  value_place_of_ne _ _ _ _ (by simp)

@[simp] theorem change_write_mark (j : String) :
    change (written w (.discarded key) true) j = change w j :=
  value_place_of_ne _ _ _ _ (by simp)

theorem marked_write_mark (j : String) (h : marked w j ∨ j = key) :
    marked (written w (.discarded key) true) j := by
  unfold marked
  by_cases hj : j = key
  · subst hj
    rw [show value (written w (.discarded j) true).journal (.discarded j) = some true from
      value_place _ _ _]
    exact Option.some_ne_none _
  · rw [show value (written w (.discarded key) true).journal (.discarded j) = value w.journal
      (.discarded j) from value_place_of_ne _ _ _ _ (by simpa using hj)]
    exact h.resolve_right hj

end Writes

variable (a : World) (native : Graph) (key : String) (state : ControlState)

/-- A stored change may be rewritten when a key in use stays pending or becomes
confirmed, and a discarded one stays discarded. -/
theorem write_change_quiet (x : StoredChange) (ha : Quiet a)
    (hb : Touched a key → a.published.pending = some key ∨ x.receipt.state = .confirmed) :
    Quiet (written a (.change key) x) := by
  refine ⟨?_,ha.pending,?_⟩
  · rw [durable_write_change]
    exact ha.settled
  intro j hj
  by_cases h : j = key
  · subst h
    exact ⟨x,change_write_change a j x,hb hj⟩
  · obtain ⟨y,hy,hs⟩ := ha.bound j hj
    exact ⟨y,(change_write_other a key x j h).trans hy,hs⟩

theorem write_change_step (x : StoredChange) (ha : Quiet a)
    (hb : Touched a key → a.published.pending = some key ∨ x.receipt.state = .confirmed)
    (hr : Retired a key → x.receipt.state = .discarded) : Step a (written a (.change key) x) := by
  apply step_quiet a _ ha (write_change_quiet a key x ha hb) rfl
  intro j hj
  refine ⟨⟨?_,?_,hj.published,?_⟩,rfl⟩
  · rw [marked_write_change]
    exact hj.marked
  · intro y hy
    by_cases h : j = key
    · subst h
      rw [change_write_change] at hy
      cases hy
      exact hr hj
    · rw [change_write_other a key x j h] at hy
      exact hj.discarded y hy
  · intro state hs
    rw [durable_write_change] at hs
    exact hj.durable state hs

theorem write_mark_quiet (ha : Quiet a) : Quiet (written a (.discarded key) true) := by
  refine ⟨?_,ha.pending,?_⟩
  · rw [durable_write_mark]
    exact ha.settled
  · intro j hj
    obtain ⟨y,hy,hs⟩ := ha.bound j hj
    exact ⟨y,(change_write_mark a key j).trans hy,hs⟩

theorem write_mark_step (ha : Quiet a) : Step a (written a (.discarded key) true) := by
  apply step_quiet a _ ha (write_mark_quiet a key ha) rfl
  intro j hj
  refine ⟨⟨marked_write_mark a key j (Or.inl hj.marked),?_,hj.published,?_⟩,rfl⟩
  · intro y hy
    rw [change_write_mark] at hy
    exact hj.discarded y hy
  · intro state hs
    rw [durable_write_mark] at hs
    exact hj.durable state hs

theorem work_quiet (ha : Quiet a) :
    Quiet { a with native := native } := ⟨ha.settled,ha.pending,ha.bound⟩

theorem work_step (ha : Quiet a) :
    Step a { a with native := native } := by
  apply step_quiet a _ ha (work_quiet a native ha) rfl
  intro j hj
  exact ⟨⟨hj.marked,hj.discarded,hj.published,hj.durable⟩,rfl⟩

/-- The engine was given a request of the key and left this graph behind. -/
def ran (w : World) (native : Graph) (key : String) (request : Request) : World :=
  { w with native := native, executed := w.executed++[(key,request)] }

theorem requests_ran (w : World) (native : Graph) (key j : String) (request : Request) :
    requestsOf (ran w native key request) j =
      if j = key then requestsOf w j++[request] else requestsOf w j := by
  unfold requestsOf ran
  by_cases h : j = key
  · subst h
    simp [List.filter_append]
  · have hk : key ≠ j := fun e => h e.symm
    simp [List.filter_append, h, hk]

theorem execute_quiet (request : Request) (ha : Quiet a)
    (hp : a.published.pending = some key) : Quiet (ran a native key request) := by
  refine ⟨ha.settled,ha.pending,?_⟩
  intro j hj
  have hk : Touched a j := by
    by_cases h : j = key
    · subst h
      exact Or.inl (ha.pending j hp)
    rcases hj with hs | hr
    · exact Or.inl hs
    · rw [requests_ran, if_neg h] at hr
      exact Or.inr hr
  exact ha.bound j hk

theorem execute_step (request : Request) (ha : Quiet a)
    (hp : a.published.pending = some key) : Step a (ran a native key request) := by
  apply step_quiet a _ ha (execute_quiet a native key request ha hp) rfl
  intro j hj
  have h : j ≠ key := by
    intro e
    subst e
    exact hj.published hp
  refine ⟨⟨hj.marked,hj.discarded,hj.published,hj.durable⟩,?_⟩
  rw [requests_ran, if_neg h]

/-- The journal's changes and marks, the graph and the executed requests are
the ones of `a`. -/
structure Beside (a b : World) : Prop where
  cells : ∀ key, b.journal.cells (.change key) = a.journal.cells (.change key)
  marks : ∀ key, value b.journal (.discarded key) = value a.journal (.discarded key)
  native : b.native = a.native
  executed : b.executed = a.executed

theorem beside_refl : Beside a a := ⟨fun _ => rfl,fun _ => rfl,rfl,rfl⟩

theorem beside_change (a b : World) (h : Beside a b) (key : String) :
    change b key = change a key := by
  unfold change value
  rw [h.cells]

theorem beside_requests (a b : World) (h : Beside a b) (key : String) :
    requestsOf b key = requestsOf a key := by
  unfold requestsOf
  rw [h.executed]

theorem beside_bound (a b : World) (h : Beside a b) (state : ControlState) (key : String)
    (hb : Bound a state key) : Bound b state key := by
  obtain ⟨x,hx,hs⟩ := hb
  exact ⟨x,(beside_change a b h key).trans hx,hs⟩

theorem beside_follows (a b : World) (h : Beside a b) (old new : ControlState)
    (hf : Follows a old new) : Follows b old new := by
  refine ⟨hf.epoch,hf.suppressed,?_⟩
  intro key hk
  rcases hf.cleared key hk with hp | ⟨hn,x,hx,hc,hd,hs⟩
  · exact Or.inl hp
  refine Or.inr ⟨hn,x,(beside_change a b h key).trans hx,hc,?_,?_⟩
  · rw [h.native]
    exact hd
  · rw [h.native]
    exact hs

theorem beside_retired (a b : World) (h : Beside a b) (key : String) (hr : Retired a key)
    (hp : b.published.pending ≠ some key)
    (hd : ∀ state, durable b = some state → state.pending ≠ some key) : Retired b key := by
  refine ⟨?_,?_,hp,hd⟩
  · unfold marked
    rw [h.marks]
    exact hr.marked
  · intro x hx
    rw [beside_change a b h] at hx
    exact hr.discarded x hx

structure Savable (a : World) (state : ControlState) : Prop where
  follows : Follows a a.published state
  bound : ∀ key, Touched a key ∨ state.pending = some key → Bound a state key
  retired : ∀ key, Retired a key → state.pending ≠ some key

theorem write_state_beside : Beside a (written a .state state) := by
  exact ⟨fun _ => cells_place_of_ne _ _ _ _ (by simp),
    fun _ => value_place_of_ne _ _ _ _ (by simp),rfl,rfl⟩

theorem durable_write_state :
    durable (written a .state state) = some state := value_place _ _ _

theorem write_state_step (ha : Quiet a)
    (hs : Savable a state) : Step a (written a .state state) := by
  have hb := write_state_beside a state
  have hd := durable_write_state a state
  refine ⟨follows_refl a _,?_,⟨state,hd,?_,?_,beside_follows a _ hb _ _ hs.follows⟩,?_⟩
  · intro old new ho hn
    rw [ha.settled] at ho
    rw [hd] at hn
    cases ho
    cases hn
    exact hs.follows
  · intro key hk
    apply beside_bound a _ hb
    apply hs.bound key
    rcases hk with hp | hr
    · exact Or.inr hp
    · rw [beside_requests a _ hb] at hr
      exact Or.inl (Or.inr hr)
  · intro key hk
    rw [beside_requests a _ hb] at hk
    exact beside_bound a _ hb _ key (quiet_coherent a ha key hk)
  · intro key hk
    refine ⟨beside_retired a _ hb key hk hk.published ?_,beside_requests a _ hb key⟩
    intro new hn
    rw [hd] at hn
    cases hn
    exact hs.retired key hk

def taken (w : World) (state : ControlState) : World :=
  { w with published := state, seen := state.pending.toList++w.seen }

theorem taken_quiet (a m : World) (state : ControlState) (hs : Savable a state) (hb : Beside a m)
    (hseen : m.seen = a.seen) (hd : durable m = some state) : Quiet (taken m state) := by
  refine ⟨hd,?_,?_⟩
  · intro key hk
    exact List.mem_append_left _ (by simpa [taken] using hk)
  intro key hk
  apply beside_bound a (taken m state) ⟨hb.cells,hb.marks,hb.native,hb.executed⟩
  apply hs.bound key
  rcases hk with hm | hr
  · rcases List.mem_append.mp hm with hp | ho
    · exact Or.inr (by simpa using hp)
    · exact Or.inl (Or.inl (hseen ▸ ho))
  · exact Or.inl (Or.inr (by rwa [← beside_requests a m hb key]))

theorem taken_step (a m : World) (state : ControlState) (hs : Savable a state)
    (hb : Beside a m) (hseen : m.seen = a.seen) (hp : m.published = a.published)
    (hd : durable m = some state) : Step m (taken m state) := by
  refine ⟨?_,?_,quiet_mid _ (taken_quiet a m state hs hb hseen hd),?_⟩
  · rw [hp]
    exact beside_follows a m hb _ _ hs.follows
  · intro old new ho hn
    rw [hd] at ho
    have hn' : some state = some new := hd.symm.trans hn
    cases ho
    cases hn'
    exact follows_refl m _
  · intro key hk
    exact ⟨⟨hk.marked,hk.discarded,hk.durable state hd,hk.durable⟩,rfl⟩

theorem safe_save (ha : Quiet a) (hs : Savable a state) {Q : Unit → World → Prop}
    {E : String → World → Prop} (hq : ∀ b, Quiet b → b.published = state → Beside a b → Q () b)
    (he : ∀ e, E e a) : Safe Step Q E (save state) a := by
  have finish : ∀ m, Beside a m → m.seen = a.seen → m.published = a.published →
      durable m = some state → Safe Step Q E (publish state) m := by
    intro m hb hseen hp hd
    apply safe_atomic
    · intro _
      exact Or.inr (taken_step a m state hs hb hseen hp hd)
    · intro _ _ _
      exact hq _ (taken_quiet a m state hs hb hseen hd) rfl
        ⟨hb.cells,hb.marks,hb.native,hb.executed⟩
    · intro _ _ h
      cases h
  apply safe_bind
  apply safe_read _ _ _ he
  split
  · exact he _
  apply safe_bind
  apply safe_put
  · intro _
    exact write_state_step a state ha hs
  · intro _
    exact finish _ (write_state_beside a state) rfl rfl (durable_write_state a state)
  · intro h
    exact finish a (beside_refl a) rfl rfl h
  · exact he

end AndaBrain.Product
