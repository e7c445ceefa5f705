import AndaBrain.CurrentMemory

/-!
# What the gates of current memory let through

Both walks look at the matchers of elements, at any depth. The ends of tuples, the filter
expressions and, in the gate of `product/control.rs`, some spellings and cursors are not
looked at; `Command.Covered` and `Command.Shown` say so for each gate.
-/

set_option autoImplicit false

namespace AndaBrain.CurrentMemory
open Kip (Scalar SymbolRef Bindings Operation lookup)

/-! ## The walks -/

@[simp] theorem within_nil (clause : WhereClause) : ¬ Within clause [] := by
  intro h
  cases h with
  | here _ h => simp at h
  | inside _ row h _ => simp at h

theorem within_cons (clause row : WhereClause) (rest : List WhereClause) :
    Within clause (row::rest) ↔ clause = row ∨ Within clause row.block ∨ Within clause rest := by
  constructor
  · intro h
    cases h with
    | here _ h =>
      rcases List.mem_cons.1 h with h | h
      · simp [h]
      · simp [Within.here rest h]
    | inside _ inner h deep =>
      rcases List.mem_cons.1 h with h | h
      · simp [← h, deep]
      · simp [Within.inside rest inner h deep]
  · rintro (rfl | h | h)
    · exact .here _ (by simp)
    · exact .inside _ row (by simp) h
    · cases h with
      | here _ h => exact .here _ (by simp [h])
      | inside _ inner h deep => exact .inside _ inner (by simp [h]) deep

mutual
theorem clauses_iff (rows : List WhereClause) : clauses rows = true ↔
    ∀ clause, Within clause rows → ObjectMatcher.keyed clause.matcher = false := by
  cases rows with
  | nil => simp [clauses]
  | cons row rest =>
    simp only [clauses, Bool.and_eq_true, row_iff row, clauses_iff rest, within_cons]
    grind
theorem row_iff (row : WhereClause) : rowActive row = true ↔
    ObjectMatcher.keyed row.matcher = false ∧
      ∀ clause, Within clause row.block → ObjectMatcher.keyed clause.matcher = false := by
  cases row with
  | not rows | optional rows | union rows =>
    simp [rowActive, clauses_iff rows, WhereClause.matcher, WhereClause.block,
      ObjectMatcher.keyed]
  | _ => simp [rowActive, WhereClause.matcher, WhereClause.block, ObjectMatcher.keyed]
end

theorem activeMatcher_ok (matcher : Option ObjectMatcher) :
    activeMatcher matcher = .ok () ↔ ∀ m ∈ matcher, ObjectMatcher.keyed m = false := by
  cases matcher with
  | none => simp [activeMatcher]
  | some m =>
    by_cases h : ObjectMatcher.keyed m = true <;>
      simp_all [activeMatcher, ObjectMatcher.keyed]

theorem bind_ok (x : Except String Unit) (y : Unit → Except String Unit) :
    (x >>= y) = .ok () ↔ x = .ok () ∧ y () = .ok () := by
  cases x <;> simp [bind, Except.bind]

mutual
theorem active_clauses (rows : List WhereClause) :
    activeClauses rows = .ok () ↔ clauses rows = true := by
  cases rows with
  | nil => simp [activeClauses, clauses]
  | cons row rest =>
    simp [activeClauses, clauses, bind_ok, active_clause row, active_clauses rest]
theorem active_clause (row : WhereClause) :
    activeClause row = .ok () ↔ rowActive row = true := by
  cases row with
  | not rows | optional rows | union rows =>
    simp [activeClause, rowActive, active_clauses rows]
  | _ => simp [activeClause, rowActive, activeMatcher_ok, ObjectMatcher.keyed]
end

/-! ## What a statement may reach -/

def Command.blocks : Command → List (List WhereClause)
  | .kql query => [query.whereClauses]
  | .kml statement => statement.filterMap MutationClause.whereClauses
  | .metaCommand (.exportCapsule rows) => [rows]
  | .metaCommand _ => []

def Command.matchers : Command → List ObjectMatcher
  | .kml statement => statement.filterMap MutationClause.matcher
  | _ => []

def Command.asOf : Command → Option Scalar
  | .kql query => query.asOf
  | .metaCommand (.search search) => search.asOfSeq
  | _ => none

def Command.cursor : Command → Option Scalar
  | .kql query => query.cursor
  | .metaCommand (.search search) => search.cursor
  | .metaCommand (.list cursor) => cursor
  | .metaCommand (.history cursor) => cursor
  | _ => none

def Command.historical : Command → Bool
  | .metaCommand (.history _) | .metaCommand (.changes _) | .metaCommand (.exportCapsule _) => true
  | .metaCommand (.describe .other) => false
  | .metaCommand (.describe _) => true
  | .metaCommand (.verify artifact) | .metaCommand (.validate artifact)
  | .metaCommand (.preview artifact) => artifact = .capsule
  | _ => false

def Fresh (engine : Engine) (readFloor : ℕ) (shared own : Option Bindings)
    (cursor : Option Scalar) : Prop :=
  ∀ scalar ∈ cursor, ∀ token, tokenOf shared own scalar = some token →
    ∀ seq, engine.snapshot token = some seq → readFloor ≤ seq

structure CurrentCommand (engine : Engine) (readFloor : ℕ) (shared own : Option Bindings)
    (command : Command) : Prop where
  active : ∀ rows ∈ command.blocks, ∀ clause, Within clause rows → clause.constrainsState = false
  matched : ∀ m ∈ command.matchers,
    ObjectMatcher.keyed m = false ∧ membersNameState m = false
  present : command.asOf = none
  recent : command.historical = false
  fresh : Fresh engine readFloor shared own command.cursor

structure CurrentOnly (engine : Engine) (readFloor : ℕ) (request : Request) : Prop where
  unbound : ∀ read ∈ request.read, read.snapshotToken = none
  commands : ∀ operation ∈ request.operations, ∀ command,
    engine.parse operation.command = .ok command →
    CurrentCommand engine readFloor request.parameters operation.parameters command

/-! ## What the gates do not look at -/

structure Command.Shown (command : Command) : Prop where
  clauses : ∀ rows ∈ command.blocks, ∀ clause, Within clause rows → clause.hidesState = false
  matchers : ∀ m ∈ command.matchers, membersNameState m = false

/-- A `MATCH` has no quoted member under `state`, a capsule is neither verified, validated nor
previewed, and the pages of a search or a list are recent. -/
structure Command.Covered (engine : Engine) (readFloor : ℕ) (shared own : Option Bindings)
    (command : Command) : Prop extends command.Shown where
  spelled : ∀ m ∈ command.matchers, ∀ member ∈ m, isState member.1 = true → member.1 = "state"
  capsule : command ≠ .metaCommand (.verify .capsule) ∧
    command ≠ .metaCommand (.validate .capsule) ∧ command ≠ .metaCommand (.preview .capsule)
  pages : ∀ search, command = .metaCommand (.search search) →
    Fresh engine readFloor shared own search.cursor
  lists : ∀ cursor, command = .metaCommand (.list cursor) →
    Fresh engine readFloor shared own cursor

/-! ## The loops over the operations -/

variable (engine : Engine)

theorem parsed_zip (operations : List Operation) (commands : List Command)
    (h : operations.mapM (fun operation => engine.parse operation.command) = .ok commands)
    (command : Command) (operation : Operation) :
    (command, operation) ∈ commands.zip operations ↔
      operation ∈ operations ∧ engine.parse operation.command = .ok command := by
  induction operations generalizing commands with
  | nil =>
    simp only [List.mapM_nil, pure, Except.pure, Except.ok.injEq] at h
    simp [← h]
  | cons head rest ih =>
    rw [List.mapM_cons] at h
    cases hp : engine.parse head.command with
    | error e => simp [hp, bind, Except.bind] at h
    | ok first =>
      cases hr : rest.mapM (fun operation => engine.parse operation.command) with
      | error e => simp [hp, hr, bind, Except.bind] at h
      | ok others =>
        simp only [hp, hr, bind, Except.bind, pure, Except.pure, Except.ok.injEq] at h
        simp only [← h, List.zip_cons_cons, List.mem_cons, Prod.mk.injEq, ih others hr]
        constructor
        · rintro (⟨rfl, rfl⟩ | ⟨hm, he⟩)
          · exact ⟨.inl rfl, hp⟩
          · exact ⟨.inr hm, he⟩
        rintro ⟨rfl | hm, he⟩
        · simp [hp] at he
          simp [he]
        · exact .inr ⟨hm, he⟩

theorem operations_ok (shared : Option Bindings) (readFloor : ℕ)
    (pairs : List (Command × Operation)) : currentOperations engine shared readFloor pairs = .ok ()
    ↔ ∀ pair ∈ pairs, current engine shared pair.2.parameters readFloor pair.1 = .ok true := by
  induction pairs with
  | nil => simp [currentOperations]
  | cons head rest ih =>
    obtain ⟨command, operation⟩ := head
    cases hc : current engine shared operation.parameters readFloor command with
    | error e => simp [currentOperations, hc, bind, Except.bind]
    | ok admitted => cases admitted <;> simp [currentOperations, hc, ih, bind, Except.bind]

theorem request_ok (request : Request) (readFloor : ℕ)
    (h : currentRequest engine request readFloor = .ok ()) :
    (∀ read ∈ request.read, read.snapshotToken = none) ∧ ∀ operation ∈ request.operations, ∀
    command, engine.parse operation.command = .ok command → current engine request.parameters
    operation.parameters readFloor command = .ok true := by
  unfold currentRequest at h
  split at h
  · simp at h
  rename_i hread
  refine ⟨fun read hr => ?_, fun operation hm command hp => ?_⟩
  · simp only [Option.mem_def] at hr
    simp [hr] at hread
    exact hread.1
  cases hc : request.operations.mapM (fun operation => engine.parse operation.command) with
  | error e => simp [hc, bind, Except.bind] at h
  | ok commands =>
    simp only [hc, bind, Except.bind] at h
    exact (operations_ok engine _ readFloor _).1 h (command, operation)
      ((parsed_zip engine _ commands hc command operation).2 ⟨hm, hp⟩)

theorem assert_ok (operations : List Operation)
    (h : assertCurrentOperations engine operations = .ok ()) : ∀ operation ∈ operations, ∀ command,
    engine.parse operation.command = .ok command → assertCommand command = .ok () := by
  induction operations with
  | nil => simp
  | cons head rest ih =>
    rw [assertCurrentOperations] at h
    cases hp : engine.parse head.command with
    | error e => simp [hp, bind, Except.bind] at h
    | ok first =>
      simp only [hp, bind, Except.bind] at h
      have hb := (bind_ok (assertCommand first) fun _ => assertCurrentOperations engine rest).1
        (by simpa [bind, Except.bind] using h)
      intro operation hm command hc
      rcases List.mem_cons.1 hm with rfl | hm
      · rw [hp, Except.ok.injEq] at hc
        exact hc ▸ hb.1
      · exact ih hb.2 operation hm command hc

/-! ## One statement -/

theorem cursor_fresh (query : KqlQuery) (shared own : Option Bindings)
    (readFloor : ℕ) (h : currentCursor engine query shared own readFloor = .ok true) :
    Fresh engine readFloor shared own query.cursor := by
  intro scalar hs token ht seq hq
  simp only [Option.mem_def] at hs
  simp only [currentCursor, hs, ht, Engine.fromToken, hq] at h
  split at h
  · simpa [Except.map] using h
  · simp [Except.map] at h

theorem query_current (query : KqlQuery) (shared own : Option Bindings)
    (readFloor : ℕ) (h : current engine shared own readFloor (.kql query) = .ok true) : query.asOf =
    none ∧ clauses query.whereClauses = true ∧ Fresh engine readFloor shared own query.cursor := by
  simp only [current] at h
  split at h
  · rename_i hq
    simp only [Bool.and_eq_true, Option.isNone_iff_eq_none] at hq
    exact ⟨hq.1, hq.2, cursor_fresh engine query shared own readFloor h⟩
  · simp at h

theorem mutation_current (clause : MutationClause) (h : clause.current = true) :
    (∀ rows ∈ clause.whereClauses, clauses rows = true) ∧ ∀ m ∈ clause.matcher, ∀ member ∈ m,
    member.1 ≠ "state" := by
  cases clause with
  | upsertConcept matcher =>
    refine ⟨by simp [MutationClause.whereClauses], fun m hm member hk hs => ?_⟩
    simp only [MutationClause.matcher, Option.mem_def] at hm
    simp only [MutationClause.current, hm, Option.all_some, Bool.not_eq_true',
      List.any_eq_false] at h
    simpa [hs] using h member hk
  | other => simp [MutationClause.whereClauses, MutationClause.matcher]
  | update rows | transition rows | setRetention rows | purge rows | purgePayload rows
  | mergeConcept rows =>
    cases rows <;> simp_all [MutationClause.current, MutationClause.whereClauses,
      MutationClause.matcher, noneOrActive]

theorem assert_clauses (statement : List MutationClause) (h : assertClauses statement = .ok ()) : ∀
    clause ∈ statement, (∀ rows ∈ clause.whereClauses, clauses rows = true) ∧ ∀ m ∈ clause.matcher,
    ObjectMatcher.keyed m = false := by
  induction statement with
  | nil => simp
  | cons head rest ih =>
    rw [assertClauses, bind_ok, assertClause, bind_ok, activeMatcher_ok] at h
    intro clause hm
    rcases List.mem_cons.1 hm with rfl | hm
    · refine ⟨fun rows hr => ?_, h.1.1⟩
      simp only [Option.mem_def] at hr
      simpa [hr, active_clauses] using h.1.2
    · exact ih h.2 clause hm

theorem shown_of_current {engine : Engine} {readFloor : ℕ} {shared own : Option Bindings}
    {command : Command} (h : CurrentCommand engine readFloor shared own command) :
    command.Shown where
  clauses rows hr clause hw := by
    have := h.active rows hr clause hw
    simp only [WhereClause.constrainsState, Bool.or_eq_false_iff] at this
    exact this.2
  matchers m hm := (h.matched m hm).2

theorem covered_of_current {engine : Engine} {readFloor : ℕ} {shared own : Option Bindings}
    {command : Command} (h : CurrentCommand engine readFloor shared own command) :
    command.Covered engine readFloor shared own where
  toShown := shown_of_current h
  spelled m hm member hk hs := by
    have := (h.matched m hm).1
    simp only [ObjectMatcher.keyed, List.any_eq_false] at this
    exact absurd hs (this member hk)
  capsule := by
    have := h.recent
    refine ⟨?_, ?_, ?_⟩ <;> rintro rfl <;> simp [Command.historical] at this
  pages search hc := by
    have := h.fresh
    simpa [hc, Command.cursor] using this
  lists cursor hc := by
    have := h.fresh
    simpa [hc, Command.cursor] using this

theorem constrains_of_walk {rows : List WhereClause} {clause : WhereClause}
    (ha : clauses rows = true) (hw : Within clause rows) (hs : clause.hidesState = false) :
    clause.constrainsState = false := by
  simp [WhereClause.constrainsState, (clauses_iff rows).1 ha clause hw, hs]

/-- The gate of `product/control.rs` leaves open exactly what it does not look at. -/
theorem command_current (shared own : Option Bindings) (readFloor : ℕ) (command : Command)
    (h : current engine shared own readFloor command = .ok true) : CurrentCommand engine readFloor
    shared own command ↔ command.Covered engine readFloor shared own := by
  refine ⟨covered_of_current, fun hc => ?_⟩
  cases command with
  | kql query =>
    have hq := query_current engine query shared own readFloor h
    refine ⟨fun rows hr clause hw => ?_, by simp [Command.matchers], hq.1, rfl, hq.2.2⟩
    have he : rows = query.whereClauses := by simpa [Command.blocks] using hr
    exact constrains_of_walk (he ▸ hq.2.1) hw (hc.clauses rows hr clause hw)
  | kml statement =>
    have hk : ∀ clause ∈ statement, clause.current = true := by simpa [current] using h
    refine ⟨fun rows hr clause hw => ?_, fun m hm => ⟨?_, hc.matchers m hm⟩, rfl, rfl,
      by simp [Fresh, Command.cursor]⟩
    · obtain ⟨mutation, hm, he⟩ := List.mem_filterMap.1 hr
      exact constrains_of_walk ((mutation_current mutation (hk mutation hm)).1 rows he) hw
        (hc.clauses rows hr clause hw)
    obtain ⟨mutation, hmem, he⟩ := List.mem_filterMap.1 hm
    have hn := (mutation_current mutation (hk mutation hmem)).2 m he
    simp only [ObjectMatcher.keyed, List.any_eq_false]
    exact fun member hk hs => hn member hk (hc.spelled m hm member hk hs)
  | metaCommand command =>
    cases command with
    | search search =>
      have hs : search.asOfSeq = none := by simpa [current] using h
      exact ⟨by simp [Command.blocks], by simp [Command.matchers], hs, rfl, hc.pages search rfl⟩
    | list cursor =>
      exact ⟨by simp [Command.blocks], by simp [Command.matchers], rfl, rfl, hc.lists cursor rfl⟩
    | describe target =>
      cases target with
      | other => exact ⟨by simp [Command.blocks], by simp [Command.matchers], rfl, rfl,
          by simp [Fresh, Command.cursor]⟩
      | _ => simp [current] at h
    | verify artifact | validate artifact | preview artifact =>
      refine ⟨by simp [Command.blocks], by simp [Command.matchers], rfl, ?_,
        by simp [Fresh, Command.cursor]⟩
      have := hc.capsule
      simpa [Command.historical] using this
    | _ => simp [current] at h

theorem command_asserted (shared own : Option Bindings) (readFloor : ℕ)
    (command : Command) (h : assertCommand command = .ok ()) :
    CurrentCommand engine readFloor shared own command ↔ command.Shown := by
  refine ⟨shown_of_current, fun hc => ?_⟩
  cases command with
  | kql query =>
    simp only [assertCommand] at h
    split at h
    · simp at h
    rename_i hn
    simp only [Bool.or_eq_true, not_or, Bool.not_eq_true, Option.isSome_eq_false_iff,
      Option.isNone_iff_eq_none] at hn
    refine ⟨fun rows hr clause hw => ?_, by simp [Command.matchers], hn.1, rfl,
      by simp [Fresh, Command.cursor, hn.2]⟩
    have he : rows = query.whereClauses := by simpa [Command.blocks] using hr
    exact constrains_of_walk (he ▸ (active_clauses _).1 h) hw (hc.clauses rows hr clause hw)
  | kml statement =>
    have hk := assert_clauses statement (by simpa [assertCommand] using h)
    refine ⟨fun rows hr clause hw => ?_, fun m hm => ⟨?_, hc.matchers m hm⟩, rfl, rfl,
      by simp [Fresh, Command.cursor]⟩
    · obtain ⟨mutation, hm, he⟩ := List.mem_filterMap.1 hr
      exact constrains_of_walk ((hk mutation hm).1 rows he) hw (hc.clauses rows hr clause hw)
    · obtain ⟨mutation, hmem, he⟩ := List.mem_filterMap.1 hm
      exact (hk mutation hmem).2 m he
  | metaCommand command =>
    cases command with
    | search search =>
      simp only [assertCommand] at h
      split at h
      · simp at h
      rename_i hn
      simp only [Bool.or_eq_true, not_or, Bool.not_eq_true, Option.isSome_eq_false_iff,
        Option.isNone_iff_eq_none] at hn
      exact ⟨by simp [Command.blocks], by simp [Command.matchers], hn.1, rfl,
        by simp [Fresh, Command.cursor, hn.2]⟩
    | _ => simp [assertCommand] at h

/-! ## Requests -/

/-- The list of operations as a request without a read section or shared parameters. -/
def requestOf (operations : List Operation) : Request := ⟨none, none, operations⟩

/-- A request that passes a gate reaches current memory alone if and only if it holds nothing
that the gate does not look at. -/
theorem admitted_requests_are_current (engine : Engine) :
    (∀ request readFloor, currentRequest engine request readFloor = .ok () →
      (CurrentOnly engine readFloor request ↔ ∀ operation ∈ request.operations, ∀ command,
          engine.parse operation.command = .ok command →
          command.Covered engine readFloor request.parameters operation.parameters)) ∧
    ∀ operations readFloor, assertCurrentOperations engine operations = .ok () →
      (CurrentOnly engine readFloor (requestOf operations) ↔ ∀ operation ∈ operations, ∀ command,
          engine.parse operation.command = .ok command → command.Shown) := by
  refine ⟨fun request readFloor h => ?_, fun operations readFloor h => ?_⟩
  · have hr := request_ok engine request readFloor h
    constructor
    · intro hc operation hm command hp
      exact covered_of_current (hc.commands operation hm command hp)
    intro hc
    refine ⟨hr.1, fun operation hm command hp => ?_⟩
    exact (command_current engine _ _ readFloor command (hr.2 operation hm command hp)).2
      (hc operation hm command hp)
  · have ha := assert_ok engine operations h
    constructor
    · intro hc operation hm command hp
      exact shown_of_current (hc.commands operation hm command hp)
    intro hc
    refine ⟨by simp [requestOf], fun operation hm command hp => ?_⟩
    exact (command_asserted engine _ _ readFloor command (ha operation hm command hp)).2
      (hc operation hm command hp)

/-! ## Three statements -/

def supportText : String :=
  "FIND(?a) WHERE \x7b?a ASSERTION \x7bstance: \"support\"\x7d\x7d LIMIT 20 CURSOR :page"

def support : KqlQuery where
  whereClauses := [.assertion "a" [("stance", .scalar (.literal (.str "support")))]]
  asOf := none
  cursor := some (.param ⟨"page", by decide⟩)

def archivedText : String :=
  "FIND(?p) WHERE \x7b?p (\x7bstate: \"archived\"\x7d, \"knows\", ?o)\x7d LIMIT 20"

/-- The inline pattern of an end of a tuple names `state`. -/
def archivedEnd : WhereClause :=
  .proposition (some "p") (.triple (.object [("state", .scalar (.literal (.str "archived")))])
    "knows" (.variable "o"))

def searchText : String := "SEARCH CONCEPT \"Alice\" LIMIT 20 CURSOR \"page-3\""

def demoParse (text : String) : Except String Command :=
  if text = supportText then .ok (.kql support)
  else if text = archivedText then .ok (.kql ⟨[archivedEnd], none, none⟩)
  else if text = searchText then
    .ok (.metaCommand (.search ⟨none, some (.literal (.str "page-3"))⟩))
  else .error "InvalidSyntax"

/-- Two pages, one from before the change at 10 and one from after it. -/
def demoEngine : Engine where
  parse := demoParse
  snapshot := fun token => if token = "page-3" then some 3
    else if token = "page-12" then some 12 else none
  continues := fun _ _ _ _ => true

def pageBinding : Bindings := fun name => if name = "page" then some (.str "page-12") else none

theorem support_covered (own : Option Bindings) :
    Command.Covered demoEngine 10 (some pageBinding) own (.kql support) where
  clauses rows hr clause hw := by
    have he : rows = support.whereClauses := by simpa [Command.blocks] using hr
    subst he
    rw [support, within_cons] at hw
    rcases hw with rfl | hw | hw
    · decide
    · simp [WhereClause.block] at hw
    · simp at hw
  matchers := by simp [Command.matchers]
  spelled := by simp [Command.matchers]
  capsule := by simp
  pages := by simp
  lists := by simp

theorem admitted_requests_are_current_paged : CurrentOnly demoEngine 10
    ⟨none, some pageBinding, [⟨supportText, none⟩]⟩ ∧ ¬ CurrentOnly demoEngine 10
    (requestOf [⟨archivedText, none⟩]) := by
  constructor
  · refine ((admitted_requests_are_current demoEngine).1 _ 10 rfl).2 ?_
    intro operation hm command hp
    obtain rfl : operation = ⟨supportText, none⟩ := by simpa using hm
    obtain rfl : command = .kql support := by
      simpa [demoEngine, demoParse] using hp.symm
    exact support_covered none
  · rw [(admitted_requests_are_current demoEngine).2 [⟨archivedText, none⟩] 10 rfl]
    intro h
    have hs := (h ⟨archivedText, none⟩ (by simp) (.kql ⟨[archivedEnd], none, none⟩) rfl).clauses
      [archivedEnd] (by simp [Command.blocks]) archivedEnd (.here _ (by simp))
    exact absurd hs (by decide)

/-- The end of a tuple passes both gates, and an old page of a search the one of
`product/control.rs`. -/
theorem inline_state_passes_both_gates : ∃ engine request readFloor, currentRequest engine request
    readFloor = .ok () ∧ assertCurrentOperations engine request.operations = .ok () ∧ ¬ CurrentOnly
    engine readFloor request ∧ ¬ CurrentOnly engine readFloor (requestOf request.operations) ∧ ∃
    paged, currentRequest engine paged readFloor = .ok () ∧ ¬ CurrentOnly engine readFloor paged :=
    by
  have hs : ¬ CurrentOnly demoEngine 10 (requestOf [⟨archivedText, none⟩]) := by
    intro h
    have hc := (h.commands ⟨archivedText, none⟩ (by simp [requestOf])
      (.kql ⟨[archivedEnd], none, none⟩) rfl).active [archivedEnd] (by simp [Command.blocks])
      archivedEnd (.here _ (by simp))
    exact absurd hc (by decide)
  refine ⟨demoEngine, requestOf [⟨archivedText, none⟩], 10, rfl, rfl, hs, hs,
    requestOf [⟨searchText, none⟩], rfl, fun h => ?_⟩
  have hf := (h.commands ⟨searchText, none⟩ (by simp [requestOf]) _ rfl).fresh
    (.literal (.str "page-3")) rfl "page-3" rfl 3 rfl
  exact absurd hf (by decide)

end AndaBrain.CurrentMemory
