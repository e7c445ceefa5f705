import AndaBrain.ObservationRuns

/-!
# The readers of the observation index

`receipts`, `utility_page` and `trust_page` read the index without the gate: the head first, then
the pointers of a page one by one, while receipts are being published. What a reader has seen is
compared with what was ever written.
-/

set_option autoImplicit false

namespace AndaBrain.Observation
open Foundation.Resumption Foundation.ConditionalStore
open Foundation.ThreadPool (SafeUnder under_rely under_bind under_query under_after under_lift)

inductive Item where
  | receipt (r : ObservationReceipt)
  | outcome (reference : String)
  | verification (reference : String)

/-- A page: the pointers that were read, what the reader makes of them, and where
the next page starts. -/
structure Page where
  visited : List (ℕ × Pointer)
  items : List Item
  nextAfter : ℕ

/-- The pointers at the positions, in order; a position without one is passed over. -/
def scan (scope : RuntimeScope) (visit : Pointer → M (Option Item)) :
    List ℕ → M (List (ℕ × Pointer) × List Item)
  | [] => pure ([],[])
  | n::rest => do
    match ← findPointer scope n with
    | none => scan scope visit rest
    | some pointer => do
      let item ← visit pointer
      let (visited,items) ← scan scope visit rest
      pure ((n,pointer)::visited,item.toList++items)

def pageTo (scope : RuntimeScope) (visit : Pointer → M (Option Item)) (after through : ℕ) :
    M Page := do
  let (visited,items) ← scan scope visit (List.range' (after+1) (through-after))
  pure ⟨visited,items,through⟩

/-- An observer lists its own receipts whose attempt it may still see. -/
def visitReceipt (scope : RuntimeScope) (principal : String) (p : Pointer) : M (Option Item) :=
  if p.receipt.scope ≠ scope ∨ p.receipt.observer ≠ principal then pure none
  else do
    match ← attempt (query fun i _ => i.visible p.attemptRef) with
    | .ok _ => pure (some (.receipt p.receipt))
    | .error .forbidden => pure none
    | .error .notFound => pure none
    | .error e => .fail e

def receipts (scope : RuntimeScope) (principal : String) (after limit : ℕ) : M Page := do
  query fun i _ => i.authorized
  refuseIf (¬(1 ≤ limit ∧ limit ≤ 100)) (.invalid "receipt limit must be 1..=100")
  let published ← readPublished scope
  refuseIf (published < after) (.invalid "receipt cursor is outside this journal")
  pageTo scope (visitReceipt scope principal) after (min published (after+limit))

/-- The outcome of a receipt that the observer of the reader committed. -/
def committedOutcome (scope : RuntimeScope) (observer : String) (p : Pointer) : Option String :=
  if p.receipt.scope = scope ∧ p.receipt.observer = observer ∧ p.receipt.nativeCommitted = true then
    p.receipt.outcomeRef
  else none

def visitOutcome (scope : RuntimeScope) (observer : String) (p : Pointer) : M (Option Item) :=
  pure ((committedOutcome scope observer p).map .outcome)

def utilityPage (scope : RuntimeScope) (observer : String) (after limit : ℕ) : M Page := do
  refuseIf (¬(1 ≤ limit ∧ limit ≤ 8)) (.invalid "utility page limit")
  let published ← readPublished scope
  pageTo scope (visitOutcome scope observer) after (min published (after+limit))

def visitVerification (scope : RuntimeScope) (observer : String) (p : Pointer) :
    M (Option Item) :=
  match committedOutcome scope observer p with
  | none => pure none
  | some reference => do
    query fun i _ => i.visible reference
    let found ← query fun i _ => i.verification
    pure (found.map .verification)

def trustPage (scope : RuntimeScope) (observer : String) (after limit : ℕ) : M Page := do
  refuseIf (¬(1 ≤ limit ∧ limit ≤ 8)) (.invalid "trust discovery page limit")
  let published ← readPublished scope
  pageTo scope (visitVerification scope observer) after (min published (after+limit))

inductive Consumer where
  | receipts (scope : RuntimeScope) (principal : String)
  | utility (scope : RuntimeScope) (observer : String)
  | trust (scope : RuntimeScope) (observer : String)

def Consumer.scope : Consumer → RuntimeScope
  | .receipts scope _ => scope
  | .utility scope _ => scope
  | .trust scope _ => scope

def Consumer.page : Consumer → ℕ → ℕ → M Page
  | .receipts scope principal => Observation.receipts scope principal
  | .utility scope observer => utilityPage scope observer
  | .trust scope observer => trustPage scope observer

/-- A reader with its cursor, the page it is reading and the pointers it was shown. -/
structure Reader where
  cursor : ℕ
  page : Option (M Page)
  seen : List (ℕ × Pointer)

def Reader.new : Reader := ⟨0,none,[]⟩

structure Watched where
  runtime : Config Op Unit RuntimeError Env World
  reader : Reader

/-- One event of the runtime, or of its reader: it asks for a page, takes a step of
reading it, or loses it. -/
inductive Move where
  | runtime (e : Event Op Env)
  | ask (limit : ℕ)
  | read (i : Env)
  | lose

def move (site : Site) (consumer : Consumer) (x : Watched) : Move → Watched
  | .runtime e => { x with runtime := advance (operate site) id x.runtime e }
  | .ask limit =>
    match x.reader.page with
    | some _ => x
    | none =>
      { x with reader := { x.reader with page := some (consumer.page x.reader.cursor limit) } }
  | .lose => { x with reader := { x.reader with page := none } }
  | .read i =>
    match x.reader.page with
    | none => x
    | some (.ret page) => { x with reader := ⟨page.nextAfter,none,x.reader.seen++page.visited⟩ }
    | some (.fail _) => { x with reader := { x.reader with page := none } }
    | some (.step act next) =>
      { x with
        runtime := { x.runtime with state := act i x.runtime.state }
        reader := { x.reader with page := some (next i x.runtime.state) } }

def Watched.start : Watched := ⟨⟨World.empty,none,[]⟩,Reader.new⟩

def watch (site : Site) (consumer : Consumer) (moves : List Move) : Watched :=
  moves.foldl (move site consumer) Watched.start

/-- The pointers at the positions after `a`, up to `b`. -/
def World.between (w : World) (scope : RuntimeScope) (a b : ℕ) : List (ℕ × Pointer) :=
  (List.range' (a+1) (b-a)).filterMap fun n => (w.pointer scope n).map fun p => (n,p)

section Between
variable {w t : World} (scope : RuntimeScope)

theorem between_stable (a b : ℕ) (h : Grows w t) (hb : b ≤ (w.head scope).published) :
    t.between scope a b = w.between scope a b := by
  apply List.filterMap_congr
  intro n hn
  have hle : n ≤ (w.head scope).published := by
    have := List.mem_range'_1.mp hn
    omega
  rw [h.frozen scope n hle]

theorem between_append (a b c : ℕ) (hab : a ≤ b) (hbc : b ≤ c) :
    w.between scope a b++w.between scope b c = w.between scope a c := by
  have hr : List.range' (a+1) (c-a) = List.range' (a+1) (b-a)++List.range' (b+1) (c-b) := by
    have hs : b+1 = a+1+(b-a) := by omega
    rw [hs, List.range'_append_1]
    congr 1
    omega
  rw [World.between, World.between, World.between, hr, List.filterMap_append]

theorem mem_between (b n : ℕ) (p : Pointer) :
    (n,p) ∈ w.between scope 0 b ↔ 1 ≤ n ∧ n ≤ b ∧ w.pointer scope n = some p := by
  simp only [World.between, List.mem_filterMap, List.mem_range'_1, Option.map_eq_some_iff,
    Prod.mk.injEq]
  constructor
  · rintro ⟨m,hm,q,hq,rfl,rfl⟩
    exact ⟨by omega,by omega,hq⟩
  · rintro ⟨h1,h2,hp⟩
    exact ⟨n,by omega,p,hp,rfl,rfl⟩

theorem between_positions (a b : ℕ) : ((w.between scope a b).map Prod.fst).Nodup := by
  have hsub : List.Sublist ((w.between scope a b).map Prod.fst) (List.range' (a+1) (b-a)) := by
    rw [World.between]
    induction List.range' (a+1) (b-a) with
    | nil => exact List.Sublist.slnil
    | cons n rest ih =>
      cases hp : w.pointer scope n with
      | none =>
        simp only [List.filterMap_cons, hp, Option.map_none]
        exact ih.cons n
      | some p =>
        simp only [List.filterMap_cons, hp, Option.map_some, List.map_cons]
        exact ih.cons_cons n
  exact hsub.nodup List.nodup_range'

end Between

section Pages
variable {w : World} {α : Type}

abbrev Reads (Q : α → World → Prop) (p : M α) (w : World) : Prop :=
  SafeUnder Grows (fun _ _ => False) Q (fun _ _ => True) p w

theorem reads_after {β : Type} (p : M α) (f : α → M β) {Q : β → World → Prop} (hp : Silent p)
    (hf : ∀ t, Grows w t → ∀ a, Reads Q (f a) t) : Reads Q (p >>= f) w :=
  under_after grows_refl grows_trans p f w hp (fun _ _ _ => trivial) hf

theorem reads_cell {β : Type} (k : Key) (f : Option (Versioned (Entry k)) → M β)
    {Q : β → World → Prop}
    (hf : ∀ t, Grows w t → ∀ u, Grows t u → Reads Q (f (t.directory.cells k)) u) :
    Reads Q (Foundation.ConditionalStore.read k >>= f) w := by
  apply under_bind grows_refl
  apply under_query
  · intro t ht i a ha u hu
    have hcell : a = t.directory.cells k := by
      cases hs : (Serves.service i : Service RuntimeError) with
      | down e => simp [hs] at ha
      | up =>
        simp only [hs, Except.ok.injEq] at ha
        exact ha.symm
      | lost e =>
        simp only [hs, Except.ok.injEq] at ha
        exact ha.symm
    subst hcell
    exact hf t ht u hu
  · intro _ _ _ _ _ _ _
    trivial

theorem reads_value {β : Type} (k : Key) (f : Option (Entry k) → M β) {Q : β → World → Prop}
    (hf : ∀ t, Grows w t → ∀ u, Grows t u → Reads Q (f (value t.directory k)) u) :
    Reads Q (readValue k >>= f) w := by
  rw [readValue, Foundation.Resumption.bind_assoc]
  exact reads_cell k _ hf

theorem reads_pointer {β : Type} (scope : RuntimeScope) (n : ℕ) (f : Option Pointer → M β)
    {Q : β → World → Prop}
    (hf : ∀ t, Grows w t → ∀ u, Grows t u → Reads Q (f (t.pointer scope n)) u) :
    Reads Q (findPointer scope n >>= f) w :=
  reads_value (.pointer scope n) f hf

theorem reads_published {β : Type} (scope : RuntimeScope) (f : ℕ → M β) {Q : β → World → Prop}
    (hf : ∀ t, Grows w t → ∀ u, Grows t u → Reads Q (f (t.head scope).published) u) :
    Reads Q (readPublished scope >>= f) w := by
  rw [readPublished, Foundation.Resumption.bind_assoc]
  apply reads_cell (.index scope)
  intro t ht u hu
  have hf' := hf t ht u hu
  rw [head_of_cell scope (t.directory.cells (.index scope)) rfl] at hf'
  cases hc : (t.directory.cells (.index scope) : Option (Versioned Index)) with
  | none =>
    rw [hc] at hf'
    exact hf'
  | some head =>
    rw [hc] at hf'
    exact hf'

variable {scope : RuntimeScope}

theorem scan_reads (visit : Pointer → M (Option Item)) (hv : ∀ p, Silent (visit p)) (ns : List ℕ)
    (w t : World) (h : Grows w t) (hn : ∀ n ∈ ns, n ≤ (w.head scope).published) :
    Reads (fun r _ => r.1 = ns.filterMap fun n => (w.pointer scope n).map fun p => (n,p))
      (scan scope visit ns) t := by
  induction ns generalizing t with
  | nil =>
    intro _ _
    rfl
  | cons n rest ih =>
    have hrest : ∀ m ∈ rest, m ≤ (w.head scope).published :=
      fun m hm => hn m (List.mem_cons_of_mem n hm)
    apply reads_pointer
    intro u hu v hv'
    have hp : u.pointer scope n = w.pointer scope n :=
      (grows_trans w t u h hu).frozen scope n (hn n List.mem_cons_self)
    have hv'' : Grows w v := grows_trans w u v (grows_trans w t u h hu) hv'
    rw [hp]
    cases hw : w.pointer scope n with
    | none =>
      simp only [List.filterMap_cons, hw, Option.map_none]
      exact ih v hv'' hrest
    | some p =>
      apply reads_after _ _ (hv p)
      intro x hx item
      apply under_bind grows_refl
      apply Foundation.ThreadPool.under_mono _ _ (ih x (grows_trans w v x hv'' hx) hrest)
      · intro r y hr z _
        simp only [List.filterMap_cons, hw, Option.map_some]
        rw [hr]
      · intro _ _ _
        trivial

def PageOk (scope : RuntimeScope) (after : ℕ) (page : Page) (t : World) : Prop :=
  after ≤ page.nextAfter ∧ page.nextAfter ≤ (t.head scope).published ∧
  page.visited = t.between scope after page.nextAfter

theorem page_to_reads (visit : Pointer → M (Option Item)) (hv : ∀ p, Silent (visit p))
    (after through : ℕ) (w : World) (ha : after ≤ through) (hp : through ≤ (w.head scope).published)
    : Reads (PageOk scope after) (pageTo scope visit after through) w := by
  apply under_bind grows_refl
  have hn : ∀ n ∈ List.range' (after+1) (through-after), n ≤ (w.head scope).published := by
    intro n hm
    have := List.mem_range'_1.mp hm
    omega
  -- The scan is followed with the state at its start in mind; every later state agrees with it.
  have hscan := scan_reads visit hv _ w w (grows_refl w) hn
  have hframed := Foundation.ThreadPool.under_frame (fun t => Grows w t)
    (fun a b hab ha => grows_trans w a b ha hab) (fun _ _ hf => hf.elim) _ w hscan (grows_refl w)
  apply Foundation.ThreadPool.under_mono _ _ hframed
  · intro r t hr u hu
    have hw : Grows w u := grows_trans w t u hr.2 hu
    refine ⟨ha,hp.trans (hw.published scope),?_⟩
    rw [between_stable scope after through hw hp]
    exact hr.1
  · intro _ _ _
    trivial

theorem visit_receipt_silent (principal : String) (p : Pointer) :
    Silent (visitReceipt scope principal p) := by
  refine silent_ite _ _ _ (show Silent (pure none) from trivial) ?_
  apply silent_bind _ _ (silent_attempt _ (silent_query _))
  intro found
  match found with
  | .ok _ => trivial
  | .error .forbidden => trivial
  | .error .notFound => trivial
  | .error (.invalid _) => trivial
  | .error .unauthorized => trivial
  | .error (.conflict _) => trivial
  | .error (.retained _) => trivial
  | .error (.unavailable _) => trivial
  | .error (.storage _) => trivial

theorem visit_outcome_silent (observer : String) (p : Pointer) :
    Silent (visitOutcome scope observer p) := trivial

theorem visit_verification_silent (observer : String) (p : Pointer) :
    Silent (visitVerification scope observer p) := by
  rw [visitVerification.eq_def]
  cases committedOutcome scope observer p with
  | none => trivial
  | some reference =>
    apply silent_bind _ _ (silent_query _)
    intro _
    apply silent_bind _ _ (silent_query _)
    intro _
    trivial

theorem page_reads (consumer : Consumer) (after limit : ℕ)
    (ha : after ≤ (w.head consumer.scope).published) :
    Reads (PageOk consumer.scope after) (consumer.page after limit) w := by
  have tail : ∀ (visit : Pointer → M (Option Item)), (∀ p, Silent (visit p)) → ∀ t, Grows w t →
      ∀ u, Grows t u → Reads (PageOk consumer.scope after) (pageTo consumer.scope visit after
        (min (t.head consumer.scope).published (after+limit))) u := by
    intro visit hv t ht u hu
    have ht' := ht.published consumer.scope
    have hu' := hu.published consumer.scope
    exact page_to_reads visit hv after _ u (by omega) (by omega)
  cases consumer with
  | receipts scope principal =>
    apply reads_after _ _ (silent_query _)
    intro t ht _
    apply reads_after _ _ (silent_refuse _ _)
    intro u hu _
    have hu' := grows_trans w t u ht hu
    apply reads_published
    intro x hx y hy
    apply reads_after _ _ (silent_refuse _ _)
    intro z hz _
    exact tail _ (visit_receipt_silent principal) x (grows_trans w u x hu' hx) z
      (grows_trans x y z hy hz)
  | utility scope observer =>
    apply reads_after _ _ (silent_refuse _ _)
    intro u hu _
    apply reads_published
    intro x hx y hy
    exact tail _ (visit_outcome_silent observer) x (grows_trans w u x hu hx) y hy
  | trust scope observer =>
    apply reads_after _ _ (silent_refuse _ _)
    intro u hu _
    apply reads_published
    intro x hx y hy
    exact tail _ (visit_verification_silent observer) x (grows_trans w u x hu hx) y hy

end Pages

section Progress

structure Answering (i : Env) : Prop where
  storage : i.storage = .up
  authorized : i.authorized = .ok ()
  visible : ∀ reference, i.visible reference = .ok ()
  verification : ∃ found, i.verification = .ok found

abbrev Ends {α : Type} (i : Env) (w : World) (p : M α) (a : α) : Prop :=
  outcome p (fun _ => i) w = (.ok a,w,fun _ => i)

variable {i : Env} {w : World} {α β : Type}

theorem ends_bind (p : M α) (f : α → M β) (a : α) (b : β) (hp : Ends i w p a)
    (hf : Ends i w (f a) b) : Ends i w (p >>= f) b := by
  rw [Ends, outcome_bind, hp]
  exact hf

theorem ends_query (f : Env → World → Except RuntimeError α) (a : α) (h : f i w = .ok a) :
    Ends i w (query f) a := by
  rw [Ends, outcome_query, h]

theorem ends_read (k : Key) (h : Answering i) :
    Ends i w (Foundation.ConditionalStore.read k) (w.directory.cells k) := by
  apply outcome_read k (fun _ => i) w
  show served i.storage = true
  rw [h.storage]
  rfl

theorem ends_pointer (scope : RuntimeScope) (n : ℕ) (h : Answering i) :
    Ends i w (findPointer scope n) (w.pointer scope n) :=
  ends_bind _ _ _ _ (ends_read (.pointer scope n) h) rfl

theorem ends_published (scope : RuntimeScope) (h : Answering i) :
    Ends i w (readPublished scope) (w.head scope).published := by
  apply ends_bind _ _ _ _ (ends_read (.index scope) h)
  rw [head_of_cell scope (w.directory.cells (.index scope)) rfl]
  cases (w.directory.cells (.index scope) : Option (Versioned Index)) <;> rfl

theorem ends_allowed (c : Prop) [Decidable c] (e : RuntimeError) (h : ¬c) :
    Ends i w (refuseIf c e) () := by
  rw [refuseIf, if_neg h]
  rfl

variable {scope : RuntimeScope}

theorem scan_ends (visit : Pointer → M (Option Item)) (h : Answering i)
    (hv : ∀ p, ∃ item, Ends i w (visit p) item) (ns : List ℕ) :
    ∃ r, Ends i w (scan scope visit ns) r := by
  induction ns with
  | nil => exact ⟨_,rfl⟩
  | cons n rest ih =>
    obtain ⟨r,hr⟩ := ih
    have hpointer := ends_pointer (w := w) scope n h
    cases hp : w.pointer scope n with
    | none =>
      rw [hp] at hpointer
      exact ⟨r,ends_bind _ _ _ _ hpointer hr⟩
    | some p =>
      rw [hp] at hpointer
      obtain ⟨item,hitem⟩ := hv p
      exact ⟨_,ends_bind _ _ _ _ hpointer (ends_bind _ _ _ _ hitem (ends_bind _ _ _ _ hr rfl))⟩

theorem page_to_ends (scope : RuntimeScope) (visit : Pointer → M (Option Item)) (h : Answering i)
    (hv : ∀ p, ∃ item, Ends i w (visit p) item) (after through : ℕ) :
    ∃ page, Ends i w (pageTo scope visit after through) page ∧ page.nextAfter = through := by
  obtain ⟨r,hr⟩ := scan_ends visit h hv (List.range' (after+1) (through-after))
  exact ⟨_,ends_bind _ _ _ _ hr rfl,rfl⟩

theorem visit_receipt_ends (principal : String) (p : Pointer) (h : Answering i) :
    ∃ item, Ends i w (visitReceipt scope principal p) item := by
  rw [visitReceipt]
  by_cases hc : p.receipt.scope ≠ scope ∨ p.receipt.observer ≠ principal
  · rw [if_pos hc]
    exact ⟨none,rfl⟩
  rw [if_neg hc]
  have ha : Ends i w (attempt (query fun i _ => i.visible p.attemptRef)) (.ok ()) := by
    show outcome (attempt (lift (i.visible p.attemptRef))) _ _ = _
    rw [h.visible]
    rfl
  exact ⟨_,ends_bind _ _ _ _ ha rfl⟩

theorem visit_verification_ends (observer : String) (p : Pointer) (h : Answering i) :
    ∃ item, Ends i w (visitVerification scope observer p) item := by
  rw [visitVerification.eq_def]
  cases committedOutcome scope observer p with
  | none => exact ⟨none,rfl⟩
  | some reference =>
    obtain ⟨found,hf⟩ := h.verification
    exact ⟨_,ends_bind _ _ _ _ (ends_query _ _ (h.visible reference))
      (ends_bind _ _ _ _ (ends_query _ _ hf) rfl)⟩

theorem page_ends (consumer : Consumer) (after limit : ℕ) (h : Answering i)
    (ha : after ≤ (w.head consumer.scope).published) (h1 : 1 ≤ limit) (h8 : limit ≤ 8) : ∃ page,
    Ends i w (consumer.page after limit) page ∧ page.nextAfter = min
    (w.head consumer.scope).published (after+limit) := by
  have hlimit : ¬¬(1 ≤ limit ∧ limit ≤ 8) := by omega
  have hlimit' : ¬¬(1 ≤ limit ∧ limit ≤ 100) := by omega
  cases consumer with
  | receipts scope principal =>
    have hafter : ¬(w.head scope).published < after := Nat.not_lt.mpr ha
    obtain ⟨page,hp,hn⟩ := page_to_ends (w := w) scope (visitReceipt scope principal) h
      (fun p => visit_receipt_ends principal p h) after
      (min (w.head scope).published (after+limit))
    refine ⟨page,?_,hn⟩
    apply ends_bind _ _ _ _ (ends_query _ _ h.authorized)
    apply ends_bind _ _ _ _ (ends_allowed _ _ hlimit')
    apply ends_bind _ _ _ _ (ends_published scope h)
    exact ends_bind _ _ _ _ (ends_allowed _ _ hafter) hp
  | utility scope observer =>
    obtain ⟨page,hp,hn⟩ := page_to_ends (w := w) scope (visitOutcome scope observer) h
      (fun p => ⟨_,rfl⟩) after (min (w.head scope).published (after+limit))
    refine ⟨page,?_,hn⟩
    apply ends_bind _ _ _ _ (ends_allowed _ _ hlimit)
    exact ends_bind _ _ _ _ (ends_published scope h) hp
  | trust scope observer =>
    obtain ⟨page,hp,hn⟩ := page_to_ends (w := w) scope
      (visitVerification scope observer) h (fun p => visit_verification_ends observer p h) after
      (min (w.head scope).published (after+limit))
    refine ⟨page,?_,hn⟩
    apply ends_bind _ _ _ _ (ends_allowed _ _ hlimit)
    exact ends_bind _ _ _ _ (ends_published scope h) hp

end Progress

section Watching
variable (site : Site) {consumer : Consumer}

theorem plain_discipline : Discipline (operate site) id (fun _ => Sound False)
    (fun _ => Sound False) fun _ => Grows :=
  discipline_of_if (observation_discipline (A := fun _ _ _ _ => True) fun hb => hb.elim)
    fun _ _ _ _ => trivial

structure Faithful (consumer : Consumer) (x : Watched) : Prop where
  runtime : Foundation.Resumption.Sound (fun _ => Sound False) (fun _ => Sound False)
    (fun _ => Grows) x.runtime
  cursor : x.reader.cursor ≤ (x.runtime.state.head consumer.scope).published
  seen : x.reader.seen = x.runtime.state.between consumer.scope 0 x.reader.cursor
  page : ∀ p, x.reader.page = some p →
    Reads (PageOk consumer.scope x.reader.cursor) p x.runtime.state

theorem advance_grows (c : Config Op Unit RuntimeError Env World) (e : Event Op Env)
    (h : Foundation.Resumption.Sound (fun _ => Sound False) (fun _ => Sound False)
      (fun _ => Grows) c) : Grows c.state (advance (operate site) id c e).state := by
  rcases advance_state (operate site) id c e h with he | ⟨o,p,-,hg⟩ | hr
  · rw [he]
    exact grows_refl _
  · exact hg
  · rw [hr]
    exact grows_refl _

variable (x : Watched)

theorem move_runtime (e : Event Op Env) (h : Faithful consumer x) :
    Faithful consumer (move site consumer x (.runtime e)) ∧
    Grows x.runtime.state (move site consumer x (.runtime e)).runtime.state := by
  have hg : Grows x.runtime.state (advance (operate site) id x.runtime e).state :=
    advance_grows site x.runtime e h.runtime
  refine ⟨⟨advance_sound (plain_discipline site) x.runtime e h.runtime,?_,?_,?_⟩,hg⟩
  · exact h.cursor.trans (hg.published consumer.scope)
  · exact h.seen.trans (between_stable consumer.scope 0 x.reader.cursor hg h.cursor).symm
  · intro p hp
    exact under_rely grows_trans p _ _ (h.page p hp) hg

theorem move_page (page : Page) (h : Faithful consumer x)
    (hp : x.reader.page = some (.ret page)) :
    Faithful consumer { x with reader := ⟨page.nextAfter,none,x.reader.seen++page.visited⟩ } := by
  obtain ⟨ha,hb,hv⟩ := h.page _ hp x.runtime.state (grows_refl _)
  refine ⟨h.runtime,hb,?_,?_⟩
  · show x.reader.seen++page.visited = x.runtime.state.between consumer.scope 0 page.nextAfter
    rw [h.seen, hv, between_append consumer.scope 0 _ _ (Nat.zero_le _) ha]
  · intro p hp'
    cases hp'

theorem faithful_page (page : Option (M Page)) (h : Faithful consumer x)
    (hp : ∀ p, page = some p → Reads (PageOk consumer.scope x.reader.cursor) p x.runtime.state) :
    Faithful consumer { x with reader := { x.reader with page := page } } :=
  ⟨h.runtime,h.cursor,h.seen,hp⟩

theorem move_read (i : Env) (h : Faithful consumer x) :
    Faithful consumer (move site consumer x (.read i)) ∧
    (move site consumer x (.read i)).runtime.state = x.runtime.state := by
  rw [move.eq_def]
  match hp : x.reader.page with
  | none => exact ⟨h,rfl⟩
  | some (.ret page) => exact ⟨move_page x page h hp,rfl⟩
  | some (.fail e) => exact ⟨faithful_page x none h (fun _ hn => nomatch hn),rfl⟩
  | some (.step act next) =>
    obtain ⟨hs,hn⟩ := h.page _ hp x.runtime.state (grows_refl _) i
    have hs : act i x.runtime.state = x.runtime.state := hs.resolve_right id
    rw [hs] at hn
    have hconfig : { x.runtime with state := act i x.runtime.state } = x.runtime := by
      rw [hs]
    show Faithful consumer ⟨{ x.runtime with state := act i x.runtime.state },
      { x.reader with page := some (next i x.runtime.state) }⟩ ∧
      act i x.runtime.state = x.runtime.state
    rw [hconfig]
    refine ⟨faithful_page x (some (next i x.runtime.state)) h ?_,hs⟩
    intro p hp'
    cases hp'
    exact hn

theorem move_faithful (m : Move) (h : Faithful consumer x) : Faithful consumer
    (move site consumer x m) ∧ Grows x.runtime.state (move site consumer x m).runtime.state := by
  cases m with
  | runtime e => exact move_runtime site x e h
  | read i =>
    obtain ⟨hf,hs⟩ := move_read site x i h
    refine ⟨hf,?_⟩
    rw [hs]
    exact grows_refl _
  | lose => exact ⟨faithful_page x none h (fun _ hn => nomatch hn),grows_refl _⟩
  | ask limit =>
    rw [move.eq_def]
    cases hp : x.reader.page with
    | some p => exact ⟨h,grows_refl _⟩
    | none =>
      refine ⟨faithful_page x _ h ?_,grows_refl _⟩
      intro p hp'
      cases hp'
      exact page_reads consumer x.reader.cursor limit h.cursor

theorem moves_faithful (ms : List Move) (h : Faithful consumer x) :
    Faithful consumer (ms.foldl (move site consumer) x) ∧
    Grows x.runtime.state (ms.foldl (move site consumer) x).runtime.state := by
  induction ms generalizing x with
  | nil => exact ⟨h,grows_refl _⟩
  | cons m rest ih =>
    obtain ⟨hf,hg⟩ := move_faithful site x m h
    obtain ⟨hf',hg'⟩ := ih _ hf
    exact ⟨hf',grows_trans _ _ _ hg hg'⟩

theorem start_faithful (site : Site) (consumer : Consumer) : Faithful consumer Watched.start := by
  refine ⟨sound_idle (plain_discipline site) _ rfl (empty_sound False),le_refl _,rfl,?_⟩
  intro p hp
  cases hp

end Watching

section Catching
variable (site : Site) (consumer : Consumer) {i : Env}

def Reading (i : Env) (moves : List Move) : Prop :=
  ∀ m ∈ moves, m = .lose ∨ m = .ask 1 ∨ m = .read i

theorem reads_to_end (p : M Page) (page : Page) (x : Watched) {Q : Page → World → Prop}
    (hs : Reads Q p x.runtime.state) (hx : x.reader.page = some p)
    (h : Ends i x.runtime.state p page) : ∃ k, (List.replicate k (Move.read i)).foldl
    (move site consumer) x = ⟨x.runtime,⟨page.nextAfter,none,x.reader.seen++page.visited⟩⟩ := by
  induction p generalizing x with
  | ret a =>
    cases h
    refine ⟨1,?_⟩
    show move site consumer x (.read i) = _
    rw [move.eq_def, hx]
  | fail e => cases h
  | step act next ih =>
    obtain ⟨ha,hn⟩ := hs x.runtime.state (grows_refl _) i
    have ha : act i x.runtime.state = x.runtime.state := ha.resolve_right id
    rw [ha] at hn
    have hmove : move site consumer x (.read i) =
        ⟨x.runtime,{ x.reader with page := some (next i x.runtime.state) }⟩ := by
      rw [move.eq_def, hx]
      show (⟨{ x.runtime with state := act i x.runtime.state },_⟩ : Watched) = _
      rw [ha]
    have hend : Ends i x.runtime.state (next i x.runtime.state) page := by
      have h' : outcome (next i x.runtime.state) (fun _ => i) (act i x.runtime.state) =
        (.ok page,x.runtime.state,fun _ => i) := h
      rwa [ha] at h'
    obtain ⟨k,hk⟩ := ih i x.runtime.state
      ⟨x.runtime,{ x.reader with page := some (next i x.runtime.state) }⟩ hn rfl hend
    refine ⟨k+1,?_⟩
    rw [List.replicate_succ, List.foldl_cons, hmove]
    exact hk

theorem catches_up (x : Watched) (h : Answering i) (gap : ℕ)
    (hg : x.reader.cursor+gap = (x.runtime.state.head consumer.scope).published) : ∃ moves, Reading
    i moves ∧ (moves.foldl (move site consumer) x).runtime = x.runtime ∧
    (moves.foldl (move site consumer) x).reader.cursor =
    (x.runtime.state.head consumer.scope).published := by
  induction gap generalizing x with
  | zero => exact ⟨[],List.forall_mem_nil _,rfl,hg⟩
  | succ gap ih =>
    have hc : x.reader.cursor ≤ (x.runtime.state.head consumer.scope).published := by omega
    obtain ⟨page,hp,hn⟩ := page_ends consumer x.reader.cursor 1 h hc (le_refl 1) (by omega)
    obtain ⟨k,hk⟩ := reads_to_end site consumer _ page
      ⟨x.runtime,⟨x.reader.cursor,some (consumer.page x.reader.cursor 1),x.reader.seen⟩⟩
      (page_reads consumer x.reader.cursor 1 hc) rfl hp
    have hgap : page.nextAfter+gap = (x.runtime.state.head consumer.scope).published := by omega
    obtain ⟨rest,hrest,hr,hcursor⟩ := ih
      ⟨x.runtime,⟨page.nextAfter,none,x.reader.seen++page.visited⟩⟩ hgap
    have hall : (Move.lose::.ask 1::List.replicate k (.read i)++rest).foldl (move site consumer) x =
        rest.foldl (move site consumer)
          ⟨x.runtime,⟨page.nextAfter,none,x.reader.seen++page.visited⟩⟩ := by
      rw [List.foldl_append, List.foldl_cons, List.foldl_cons]
      exact congrArg (rest.foldl (move site consumer)) hk
    refine ⟨.lose::.ask 1::List.replicate k (.read i)++rest,?_,?_,?_⟩
    · intro m hm
      simp only [List.cons_append, List.mem_cons, List.mem_append, List.mem_replicate] at hm
      rcases hm with hm | hm | hm | hm
      · exact .inl hm
      · exact .inr (.inl hm)
      · exact .inr (.inr hm.2)
      · exact hrest m hm
    · rw [hall]
      exact hr
    · rw [hall]
      exact hcursor

end Catching

section Publication
variable {i : Env} {w : World} (stored : StoredReceipt)

theorem put_runs (k : Key) (v : Entry k) (mode : PutMode) (h : served i.storage = true)
    (ha : admits mode (w.directory.cells k) = true) :
    Yields i (confirmedPut k v mode : M Unit) w (.ok ()) (written w k v) :=
  yields_confirmed_put k v mode w h ha

theorem create_runs (k : Key) (v : Entry k) (h : served i.storage = true)
    (hv : value w.directory k = none) :
    Yields i (confirmedPut k v .create : M Unit) w (.ok ()) (written w k v) :=
  put_runs k v .create h (admits_create _ _ (Option.map_eq_none_iff.mp hv))

theorem index_runs (scope : RuntimeScope) (found : Option (Versioned Index))
    (h : served i.storage = true) (hf : w.directory.cells (.index scope) = found) :
    Yields i (readIndex scope) w (.ok found) w := by
  subst hf
  exact yields_read (ε := RuntimeError) (Key.index scope) w h

variable (scope : RuntimeScope) (receipt : ObservationReceipt) (pointer : Pointer) (mode : PutMode)

/-- The four writes of an indexing, each of them served. -/
theorem writes_run (a p : ℕ) (h : served i.storage = true)
    (hindex : admits mode (w.directory.cells (.index scope)) = true)
    (hpointer : w.pointer scope (a+1) = none) (hmarker : w.marker scope receipt = none) :
    ∃ t, Yields i (do
      confirmedPut (.index scope) (⟨a+1,p⟩ : Index) mode
      confirmedPut (.pointer scope (a+1)) pointer .create
      let found ← readIndex scope
      let head ← lift (need found .notFound)
      confirmedPut (.index scope) (⟨head.value.allocated,a+1⟩ : Index) (.update head.version)
      confirmedPut (.marker scope receipt) (a+1 : ℕ) .create) w (.ok ()) t ∧
      t.head scope = ⟨a+1,a+1⟩ := by
  let allocated := written w (.index scope) (⟨a+1,p⟩ : Index)
  let placed := written allocated (.pointer scope (a+1)) pointer
  let published := written placed (.index scope) (⟨a+1,a+1⟩ : Index)
  have hfree : allocated.pointer scope (a+1) = none :=
    (congrFun (congrFun (pointer_other w (.index scope) (⟨a+1,p⟩ : Index)
      (fun _ _ h => nomatch h)) scope) (a+1)).trans hpointer
  have hunmarked : published.marker scope receipt = none := by
    have h1 := marker_other w (.index scope) (⟨a+1,p⟩ : Index) (fun _ _ h => nomatch h)
    have h2 := marker_other allocated (.pointer scope (a+1)) pointer (fun _ _ h => nomatch h)
    have h3 := marker_other placed (.index scope) (⟨a+1,a+1⟩ : Index) (fun _ _ h => nomatch h)
    exact (congrFun (congrFun (h3.trans (h2.trans h1)) scope) receipt).trans hmarker
  have hcell : placed.directory.cells (.index scope) =
      some (⟨(⟨a+1,p⟩ : Index),w.directory.next⟩ : Versioned (Entry (.index scope))) :=
    (cells_place_of_ne allocated.directory (.pointer scope (a+1)) (.index scope) pointer
      (fun h => nomatch h)).trans (cells_place w.directory (.index scope) (⟨a+1,p⟩ : Index))
  refine ⟨written published (.marker scope receipt) (a+1 : ℕ),?_,?_⟩
  · refine yields_bind (put_runs (.index scope) (⟨a+1,p⟩ : Index) mode h hindex) ?_
    refine yields_bind (create_runs (.pointer scope (a+1)) pointer h hfree) ?_
    refine yields_bind (index_runs scope _ h hcell) ?_
    refine yields_bind (yields_ret _) ?_
    refine yields_bind (put_runs (.index scope) (⟨a+1,a+1⟩ : Index) (.update w.directory.next) h
      (admits_update _ _ _ hcell)) ?_
    exact create_runs (.marker scope receipt) (a+1 : ℕ) h hunmarked
  · have h4 := head_other published (.marker scope receipt) (a+1 : ℕ) (fun _ h => nomatch h)
    rw [h4, head_written, Function.update_self]

/-- An indexing that the store serves, for a receipt that has no marker yet, runs through and
publishes everything allocated. -/
theorem index_at_runs (key : Row) (h : served i.storage = true) (hi : Indexed w)
    (hm : w.marker stored.receipt.scope stored.receipt = none)
    (hc : (w.head stored.receipt.scope).allocated < 1000000) :
    ∃ t, Yields i (indexAt stored key) w (.ok ()) t ∧
      (t.head stored.receipt.scope).published = (t.head stored.receipt.scope).allocated := by
  have hmarker : Yields i (findMarker stored.receipt.scope stored.receipt) w (.ok none) w := by
    have hr : Yields i (readValue (.marker stored.receipt.scope stored.receipt)) w
        (.ok (w.marker stored.receipt.scope stored.receipt)) w :=
      yields_bind (yields_read (.marker _ _) w h) (yields_ret _)
    rwa [hm] at hr
  have hread := index_runs stored.receipt.scope _ h
    (rfl : w.directory.cells (.index stored.receipt.scope) = _)
  have hhead := head_of_cell stored.receipt.scope _
    (rfl : w.directory.cells (.index stored.receipt.scope) = _)
  have hfree : w.pointer stored.receipt.scope ((w.head stored.receipt.scope).allocated+1) = none :=
    pointer_unallocated hi rfl
  have hroom : Yields i (refuseIf (1000000 ≤ (w.head stored.receipt.scope).allocated)
      (RuntimeError.unavailable "observation journal capacity exhausted")) w (.ok ()) w := by
    rw [refuseIf, if_neg (Nat.not_le.mpr hc)]
    exact yields_ret ()
  cases hcell : (w.directory.cells (.index stored.receipt.scope) : Option (Versioned Index)) with
  | none =>
    rw [hcell] at hread hhead
    rw [hhead] at hfree hroom
    obtain ⟨t,ht,htop⟩ := writes_run stored.receipt.scope stored.receipt
      ⟨stored.receipt,key,stored.input.attemptRef⟩ .create 0 0 h (admits_create _ _ hcell) hfree hm
    exact ⟨t,yields_bind hmarker (yields_bind hread (yields_bind hroom ht)),by rw [htop]⟩
  | some head =>
    rw [hcell] at hread hhead
    rw [hhead] at hfree hroom
    obtain ⟨t,ht,htop⟩ := writes_run stored.receipt.scope stored.receipt
      ⟨stored.receipt,key,stored.input.attemptRef⟩ (.update head.version) head.value.allocated
      head.value.published h (admits_update _ _ _ hcell) hfree hm
    exact ⟨t,yields_bind hmarker (yields_bind hread (yields_bind hroom ht)),by rw [htop]⟩

end Publication

/-- From one moment of a run to a later one: the index only grows, a publication covers
every pointer written before it, and the reader has seen the pointers up to its
cursor, which its pages bring to the published position. -/
structure Lossless (site : Site) (consumer : Consumer) (x y : Watched) : Prop where
  allocated : ∀ scope, (y.runtime.state.head scope).published ≤
    (y.runtime.state.head scope).allocated
  grows : Grows x.runtime.state y.runtime.state
  cursor : y.reader.cursor ≤ (y.runtime.state.head consumer.scope).published
  seen : ∀ n p, (n,p) ∈ y.reader.seen ↔
    1 ≤ n ∧ n ≤ y.reader.cursor ∧ y.runtime.state.pointer consumer.scope n = some p
  once : (y.reader.seen.map Prod.fst).Nodup
  complete : ∀ i, Answering i → ∃ moves, Reading i moves ∧
    (moves.foldl (move site consumer) y).runtime = y.runtime ∧
    ∀ n p, (n,p) ∈ (moves.foldl (move site consumer) y).reader.seen ↔
      n ≤ (y.runtime.state.head consumer.scope).published ∧
      y.runtime.state.pointer consumer.scope n = some p
  shown : ∀ stored key env, (outcome (indexAt stored key) env y.runtime.state).1 = .ok () →
    ∃ n, (outcome (indexAt stored key) env y.runtime.state).2.1.Shown stored.receipt.scope
      stored.receipt n
  publishes : ∀ stored key i, served i.storage = true →
    y.runtime.state.marker stored.receipt.scope stored.receipt = none →
    (y.runtime.state.head stored.receipt.scope).allocated < 1000000 →
    ∃ t, Yields i (indexAt stored key) y.runtime.state (.ok ()) t ∧
      Grows y.runtime.state t ∧ ∀ n p, t.pointer stored.receipt.scope n = some p →
        n ≤ (t.head stored.receipt.scope).published

section Lossless
variable {site : Site} {consumer : Consumer} {x : Watched}

theorem faithful_seen (h : Faithful consumer x) (n : ℕ) (p : Pointer) : (n,p) ∈ x.reader.seen ↔
    1 ≤ n ∧ n ≤ x.reader.cursor ∧ x.runtime.state.pointer consumer.scope n = some p := by
  rw [h.seen]
  exact mem_between consumer.scope _ n p

theorem faithful_complete (h : Faithful consumer x) (i : Env) (hi : Answering i) :
    ∃ moves, Reading i moves ∧ (moves.foldl (move site consumer) x).runtime = x.runtime ∧
    ∀ n p, (n,p) ∈ (moves.foldl (move site consumer) x).reader.seen ↔
      n ≤ (x.runtime.state.head consumer.scope).published ∧
      x.runtime.state.pointer consumer.scope n = some p := by
  obtain ⟨moves,hm,hr,hc⟩ := catches_up site consumer x hi _ (Nat.add_sub_of_le h.cursor)
  refine ⟨moves,hm,hr,?_⟩
  intro n p
  rw [faithful_seen (moves_faithful site x moves h).1, hr, hc]
  exact ⟨fun hn => hn.2,fun hn => ⟨(h.runtime.1.indexed.placed _ n p hn.2).1,hn⟩⟩

theorem faithful_publishes (h : Faithful consumer x) (stored : StoredReceipt) (key : Row) (i : Env)
    (hi : served i.storage = true)
    (hm : x.runtime.state.marker stored.receipt.scope stored.receipt = none)
    (hc : (x.runtime.state.head stored.receipt.scope).allocated < 1000000) :
    ∃ t, Yields i (indexAt stored key) x.runtime.state (.ok ()) t ∧ Grows x.runtime.state t ∧
      ∀ n p, t.pointer stored.receipt.scope n = some p →
        n ≤ (t.head stored.receipt.scope).published := by
  obtain ⟨t,ht,htop⟩ := index_at_runs stored key hi h.runtime.1.indexed hm hc
  have hk := index_at_publishes stored key h.runtime.1
  have hg := safe_related _ _ grows_refl grows_trans (fun _ _ hab => hab.1) hk fun _ => i
  rw [ht] at hg
  refine ⟨t,ht,hg,?_⟩
  intro n p hp
  rw [htop]
  exact ((safe_yields _ _ hk ht).sound.indexed.placed _ n p hp).2

end Lossless

/-- The first observer's receipt, stopped between the write of its pointer and the publication. -/
def stoppedRun : List Move :=
  .runtime (.start (.submit "first" (sampleInput "event")))::
    List.replicate 19 (.runtime (.tick (sampleEnv "outcome" .done)))++[.runtime .crash]

theorem readers_quiet {site : Site} {consumer : Consumer} (moves : List Move) (x : Watched)
    (h : Faithful consumer x) (hm : ∀ m ∈ moves, ∀ e, m ≠ .runtime e) :
    (moves.foldl (move site consumer) x).runtime.state = x.runtime.state := by
  induction moves generalizing x with
  | nil => rfl
  | cons m rest ih =>
    have hrest : ∀ m' ∈ rest, ∀ e, m' ≠ .runtime e :=
      fun m' h' => hm m' (List.mem_cons_of_mem m h')
    have hstate : (move site consumer x m).runtime.state = x.runtime.state := by
      cases m with
      | runtime e => exact absurd rfl (hm _ List.mem_cons_self e)
      | read i => exact (move_read site x i h).2
      | lose => rfl
      | ask limit =>
        rw [move.eq_def]
        cases x.reader.page <;> rfl
    exact (ih _ (move_faithful site x m h).1 hrest).trans hstate

def firstReader : Consumer := .receipts sampleScope "first"

end AndaBrain.Observation
