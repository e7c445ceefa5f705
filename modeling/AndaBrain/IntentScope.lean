import AndaBrain.IntentGate
import AndaBrain.GateAgreement

/-!
# Scoped and revising passes

A request that reaches the engine cites the host's context set and moves no claim that its intent
may not move.
-/

set_option autoImplicit false

namespace AndaBrain.IntentGate
open Kip
open Intake (ChangeKind)

/-! ## Values -/

theorem cites_iff (value : Option MutationValue) :
    citesContexts value = true ↔ ∃ p : Identifier, value = some (.param p) ∧ p.text = "contexts" := by
  cases value with
  | none => simp [citesContexts]
  | some v => cases v <;> simp [citesContexts]

theorem cited_stored (engine : Engine) (parameters : Option Bindings) (record : CreateRecord)
    (contexts : List String) (h : citesContexts (Worker.lastField record "context_refs") = true)
    (hb : ∀ p : Identifier, p.text = "contexts" →
      lookup parameters p = some (.arr (contexts.map .str))) :
    ContextSet contexts (engine.stored parameters record "context_refs") := by
  obtain ⟨p, hv, hp⟩ := (cites_iff _).1 h
  exact ⟨contexts, by simp [Engine.stored, hv, Engine.evaluate, hb p hp], by simp⟩

theorem contexts_first (intent : MemoryIntent) :
    bindingsOf intent.bindings "contexts" = some (.arr (intent.contexts.map .str)) := by
  simp [bindingsOf, MemoryIntent.bindings]

/-- A field that is assigned once is read alike from both ends. -/
theorem last_first (record : CreateRecord) (name : String)
    (h : ((record.setFields.getD []).map (·.1)).Nodup) :
    Worker.lastField record name = firstField record name := by
  unfold Worker.lastField firstField
  generalize record.setFields.getD [] = fields at h
  congr 1
  induction fields with
  | nil => rfl
  | cons field rest ih =>
    rw [List.map_cons, List.nodup_cons] at h
    rw [List.reverse_cons, List.find?_append, ih h.2, List.find?_cons]
    cases hf : field.1 == name with
    | false => simp [hf]
    | true =>
      have hrest : rest.find? (fun field => field.1 == name) = none := by
        rw [List.find?_eq_none]
        intro other hother heq
        rw [beq_iff_eq] at hf heq
        exact h.1 (List.mem_map.2 ⟨other, hother, heq.trans hf.symm⟩)
      simp [hrest, hf]

/-! ## The gate of `intake.rs` -/

section Rust
variable {Answer : Type} (kip : Library) (executor : Request → Answer)
variable (intent : MemoryIntent) (request bound : Request)

theorem handed_cases (documented : kip.Documented)
    (h : (intent.write kip executor request).handed = [bound]) : intent.refusal kip request = none ∧
    attachIntentBindings kip request intent.bindings = .ok bound ∧ ∃ commands, kip.parseOperations
    bound = .ok commands ∧ CognitionPlan bound commands := by
  unfold MemoryIntent.write at h
  cases hr : intent.refusal kip request with
  | some refusal => simp [hr, refused] at h
  | none =>
    cases ha : attachIntentBindings kip request intent.bindings with
    | error e => simp [hr, ha, refused] at h
    | ok attached =>
      simp only [hr, ha] at h
      rcases (model_gates_sound kip documented executor attached).1 with ⟨refusal, he⟩ | ⟨he, hc⟩
      · simp [he] at h
      · have heq : attached = bound := by simpa [he] using h
        exact ⟨rfl, by rw [heq], heq ▸ hc⟩

theorem attached_operations (h : attachIntentBindings kip request intent.bindings = .ok bound) :
    bound.operations = request.operations := by
  simp only [attachIntentBindings] at h
  split at h
  · cases h
    rfl
  split at h
  · cases h
  · cases h
    rfl

/-- The host's set stands for `:contexts` in every operation of a request that writes. -/
theorem contexts_bound (h : attachIntentBindings kip request intent.bindings = .ok bound)
    (hw : opensWrite kip bound = true) (index : ℕ) (p : Identifier) (hp : p.text = "contexts") :
    lookup (operationParameters bound index) p = some (.arr (intent.contexts.map .str)) := by
  rw [lookup_iff]
  simp only [attachIntentBindings] at h
  split at h
  · cases h
    simp_all
  split at h
  · cases h
  rename_i hno hclaims
  have hfree : claims request "contexts" = false := by
    simp only [MemoryIntent.bindings, List.cons_append, List.any_cons, Bool.or_eq_true,
      not_or, Bool.not_eq_true] at hclaims
    exact hclaims.1
  cases h
  refine .request _ ?_ rfl ?_
  · intro inner hi
    exact own_unbound request index p (hp ▸ hfree) inner hi
  · simp [extend, hp, contexts_first]

theorem clause_opens (documented : kip.Documented) (commands : List Command)
    (hp : kip.parseOperations bound = .ok commands) (index : ℕ) (statement : KmlStatement)
    (clause : MutationClause) (hs : commands[index]? = some (.kml statement))
    (hc : clause ∈ statement.clauses) (hd : ∀ d, clause ≠ .define d) :
    opensWrite kip bound = true := by
  obtain ⟨operation, ho, ht⟩ := parsed_command kip bound.operations commands hp _
    (List.mem_of_getElem? hs)
  have hopen : kip.opensWriteTransaction (.kml statement) = true := by
    by_contra hno
    obtain ⟨d, he⟩ := (documented.opens _ statement ht).1 (by simpa using hno)
    rw [he, List.mem_singleton] at hc
    exact hd d hc
  exact List.any_eq_true.2 ⟨operation, ho, by simp [ht, hopen]⟩

theorem clause_allowed (commands : List Command) (hp : kip.parseOperations request = .ok commands)
    (h : intent.refusal kip request = none) (index : ℕ) (statement : KmlStatement)
    (clause : MutationClause) (hs : commands[index]? = some (.kml statement))
    (hc : clause ∈ statement.clauses) : intent.clauseRefusal clause = none := by
  simp only [MemoryIntent.refusal, hp, List.findSome?_eq_none_iff] at h
  have := h _ (List.mem_of_getElem? hs)
  simp only [List.findSome?_eq_none_iff] at this
  exact this clause hc

theorem first_cites (record : CreateRecord) (hne : intent.contexts ≠ [])
    (h : intent.clauseRefusal (.createAssertion record) = none) :
    citesContexts (firstField record "context_refs") = true := by
  by_contra hno
  simp [MemoryIntent.clauseRefusal, hno, hne] at h

theorem activity_written (t : Transition) (hop : intent.operation = .revise)
    (hk : intent.changeKind ≠ some .correction) (h : intent.clauseRefusal (.transition t) = none) :
    ∃ state ∈ activityStates, t.toState = .literal (.str state) := by
  have ha : transitionIsActivity t = true := by
    by_contra hno
    simp [MemoryIntent.clauseRefusal, hno, MemoryIntent.allowsTransition, hop, hk] at h
  simp only [transitionIsActivity, Option.any_eq_true, List.contains_iff_mem] at ha
  obtain ⟨state, hs, hm⟩ := ha
  refine ⟨state, hm, ?_⟩
  unfold writtenState at hs
  split at hs
  · rename_i written ht
    rw [ht, show written = state by simpa using hs]
  · simp at hs

theorem no_purge (index : ℕ) (c : Selection) :
    ¬ Cognitive request index (.purge c) ∧ ¬ Cognitive request index (.purgePayload c) := by
  constructor <;> (intro h; cases h)

theorem additive_handed (documented : kip.Documented) (commands : List Command)
    (h : (intent.write kip executor request).handed = [bound])
    (hp : kip.parseOperations bound = .ok commands) : Additive intent bound commands := by
  obtain ⟨hr, ha, commands', hp', hplan⟩ := handed_cases kip executor intent request bound documented h
  obtain rfl : commands = commands' := by simpa [hp] using hp'
  have hops := attached_operations kip intent request bound ha
  intro hop hk index statement clause hs hc hm
  cases hm with
  | transition t hno =>
    have hreq : kip.parseOperations request = .ok commands := by
      simpa [Library.parseOperations, hops] using hp
    obtain ⟨state, hstate, ht⟩ := activity_written intent t hop hk
      (clause_allowed kip intent request commands hreq hr index statement _ hs hc)
    exact hno state hstate (ht ▸ .literal _)
  | purge c => exact (no_purge bound index c).1 (hplan.clauses index statement hs _ hc).1
  | purgePayload c => exact (no_purge bound index c).2 (hplan.clauses index statement hs _ hc).1

theorem scoped_handed (documented : kip.Documented) (once : FieldsOnce kip.parse) (engine : Engine)
    (commands : List Command) (h : (intent.write kip executor request).handed = [bound])
    (hp : kip.parseOperations bound = .ok commands) : Scoped intent bound commands engine := by
  obtain ⟨hr, ha, -⟩ := handed_cases kip executor intent request bound documented h
  have hreq : kip.parseOperations request = .ok commands := by
    simpa [Library.parseOperations, attached_operations kip intent request bound ha] using hp
  intro hne index statement record hs hc
  have hw := clause_opens kip bound documented commands hp index statement _ hs hc (by simp)
  have hfirst := first_cites intent record hne
    (clause_allowed kip intent request commands hreq hr index statement _ hs hc)
  obtain ⟨operation, -, ht⟩ := parsed_command kip bound.operations commands hp _
    (List.mem_of_getElem? hs)
  apply cited_stored engine _ record _ (last_first record _ (once _ statement record ht hc) ▸ hfirst)
  exact fun p => contexts_bound kip intent request bound ha hw index p

end Rust

/-! ## The gate of `kip.ts` -/

section Plan
variable (parse : String → Except String Command) (intent : MemoryIntent) (now : String)
variable (plan : MutationPlan) (operations : List Operation)

def requestOf (operations : List Operation) : Request := ⟨operations, none, none, none⟩

theorem prepared (h : intent.preparePlan parse now plan = .ok operations) :
    operations = intent.planned now plan ∧ (operations ≠ [] →
      Worker.assertFormationOperations parse operations = none ∧
        intent.assertOperations parse operations plan.parameters = none) := by
  simp only [MemoryIntent.preparePlan] at h
  split at h
  · rename_i he
    simp only [Except.ok.injEq] at h
    simp_all
  split at h
  · cases h
  rename_i hgate
  simp only [Except.ok.injEq] at h
  subst h
  exact ⟨rfl, fun _ => Option.or_eq_none_iff.1 hgate⟩

theorem planned_parameters (index : ℕ) (operation : Operation)
    (h : (intent.planned now plan)[index]? = some operation) (p : Identifier)
    (hp : p.text = "contexts") : lookup
    (operationParameters (requestOf (intent.planned now plan)) index) p = some
    (.arr (intent.contexts.map .str)) := by
  have ho : ∃ command ∈ plan.commands, operation = ⟨command, some (extend (extend plan.parameters
      (hostBindings now)) (bindingsOf intent.bindings))⟩ := by
    obtain ⟨command, hc, he⟩ := List.mem_map.1 (List.mem_of_getElem? h)
    exact ⟨command, hc, he.symm⟩
  obtain ⟨command, -, rfl⟩ := ho
  simp [operationParameters, ownParameters, requestOf, h, lookup, extend, hp, contexts_first]

theorem parsed_at (commands : List Command)
    (hp : operations.mapM (fun operation => parse operation.command) = .ok commands) (index : ℕ)
    (command : Command) (hs : commands[index]? = some command) :
    ∃ operation, operations[index]? = some operation ∧ parse operation.command = .ok command := by
  induction operations generalizing commands index with
  | nil =>
    simp only [List.mapM_nil, pure, Except.pure, Except.ok.injEq] at hp
    simp [← hp] at hs
  | cons head rest ih =>
    rw [List.mapM_cons] at hp
    cases hf : parse head.command with
    | error e => simp [hf, bind, Except.bind] at hp
    | ok first =>
      cases hr : rest.mapM (fun operation => parse operation.command) with
      | error e => simp [hf, hr, bind, Except.bind] at hp
      | ok others =>
        simp only [hf, hr, bind, Except.bind, pure, Except.pure, Except.ok.injEq] at hp
        subst hp
        cases index with
        | zero =>
          obtain rfl : first = command := by simpa using hs
          exact ⟨head, by simp, hf⟩
        | succ i => simpa using ih others hr i (by simpa using hs)

section Clause
variable (index : ℕ) (operation : Operation) (statement : KmlStatement) (clause : MutationClause)
variable (ho : operations[index]? = some operation)
variable (hs : parse operation.command = .ok (.kml statement)) (hc : clause ∈ statement.clauses)

include ho hs hc in
theorem clause_asserted (h : intent.assertOperations parse operations plan.parameters = none) :
    intent.assertClause operation.parameters clause = none := by
  simp only [MemoryIntent.assertOperations] at h
  split at h
  · cases h
  rw [List.findSome?_eq_none_iff] at h
  have := h operation (List.mem_of_getElem? ho)
  simp only [hs, List.findSome?_eq_none_iff] at this
  exact this clause hc

include ho hs hc in
theorem clause_formation (h : Worker.assertFormationOperations parse operations = none) :
    Worker.formationClause operation.parameters clause = none := by
  simp only [Worker.assertFormationOperations, Worker.assertOperations, Option.or_eq_none_iff,
    List.findSome?_eq_none_iff] at h
  have := h.2 operation (List.mem_of_getElem? ho)
  simp only [hs, List.findSome?_eq_none_iff] at this
  exact this clause hc

end Clause

theorem last_cites (parameters : Option Bindings) (record : CreateRecord)
    (hne : intent.contexts ≠ [])
    (h : intent.assertClause parameters (.createAssertion record) = none) :
    citesContexts (Worker.lastField record "context_refs") = true := by
  by_contra hno
  simp [MemoryIntent.assertClause, hno, List.length_pos_iff, hne] at h

theorem activity_resolved (parameters : Option Bindings) (t : Transition)
    (hop : intent.operation = .revise) (hk : intent.changeKind ≠ some .correction)
    (h : intent.assertClause parameters (.transition t) = none) :
    ∃ state ∈ activityStates, Worker.transitionState t.toState parameters = some state := by
  cases hw : Worker.transitionState t.toState parameters with
  | none => simp [MemoryIntent.assertClause, hop, hk, hw] at h
  | some state =>
    by_cases hm : state ∈ activityStates
    · exact ⟨state, hm, rfl⟩
    · simp only [activityStates, List.mem_cons, List.not_mem_nil, or_false, not_or] at hm
      simp [MemoryIntent.assertClause, hop, hk, hw, hm] at h

theorem formation_verb (parameters : Option Bindings) (clause : MutationClause)
    (h : Worker.formationClause parameters clause = none) :
    Worker.assertFormationVerb clause = none := by
  simp only [Worker.formationClause, List.findSome?_eq_none_iff, List.forall_mem_cons] at h
  exact h.2.2.2.2.1

theorem state_resolves (index : ℕ) (operation : Operation) (t : Transition) (state : String)
    (ho : operations[index]? = some operation)
    (h : Worker.transitionState t.toState operation.parameters = some state) :
    t.toState.Resolves (requestOf operations) index (.str state) := by
  have hp : operationParameters (requestOf operations) index = operation.parameters := by
    cases hq : operation.parameters with
    | none => simp [operationParameters, ownParameters, requestOf, ho, hq]
    | some inner =>
      have he : extend (fun _ => none) inner = inner := by
        funext name
        simp [extend]
      simp [operationParameters, ownParameters, requestOf, ho, hq, he]
  unfold Worker.transitionState at h
  split at h
  · rename_i written ht
    rw [ht, show written = state by simpa using h]
    exact .literal _
  · simp at h
  rename_i name ht
  rw [ht]
  split at h
  · rename_i bound hl
    refine .param name _ ((lookup_iff _ _ _ _).1 ?_)
    rw [hp, hl, show bound = state by simpa using h]
  · simp at h

theorem prepared_plan (engine : Engine) (commands : List Command)
    (h : intent.preparePlan parse now plan = .ok operations)
    (hp : operations.mapM (fun operation => parse operation.command) = .ok commands) :
    Scoped intent (requestOf operations) commands engine ∧
      Additive intent (requestOf operations) commands := by
  obtain ⟨rfl, hgates⟩ := prepared parse intent now plan operations h
  have hgate : ∀ (index : ℕ) operation, (intent.planned now plan)[index]? = some operation →
      Worker.assertFormationOperations parse (intent.planned now plan) = none ∧
        intent.assertOperations parse (intent.planned now plan) plan.parameters = none := by
    intro index operation ho
    exact hgates (List.ne_nil_of_mem (List.mem_of_getElem? ho))
  constructor
  · intro hne index statement record hs hc
    obtain ⟨operation, ho, ht⟩ := parsed_at parse _ commands hp index _ hs
    apply cited_stored engine
    · exact last_cites intent _ record hne (clause_asserted parse intent plan _ index operation
        statement _ ho ht hc (hgate index operation ho).2)
    · exact planned_parameters intent now plan index operation ho
  intro hop hk index statement clause hs hc hm
  obtain ⟨operation, ho, ht⟩ := parsed_at parse _ commands hp index _ hs
  have hassert := clause_asserted parse intent plan _ index operation statement clause ho ht hc
    (hgate index operation ho).2
  have hverb := formation_verb operation.parameters clause (clause_formation parse _ index
    operation statement clause ho ht hc (hgate index operation ho).1)
  cases hm with
  | transition t hno =>
    obtain ⟨state, hstate, hw⟩ := activity_resolved intent operation.parameters t hop hk hassert
    exact hno state hstate (state_resolves _ index operation t state ho hw)
  | purge c | purgePayload c =>
    simp [Worker.assertFormationVerb, Worker.clauseName, Worker.formationClauses] at hverb

end Plan

/-! ## Both gates -/

/-- In both deployments the requests of a scoped pass write its context set into every Assertion
they create, and a revise that is no correction moves no claim. -/
theorem intents_confine_passes (engine : Engine) (intent : MemoryIntent) :
    (∀ {Answer : Type} (kip : Library) (executor : Request → Answer) request bound commands,
      kip.Documented → FieldsOnce kip.parse →
      (intent.write kip executor request).handed = [bound] →
      kip.parseOperations bound = .ok commands →
      Additive intent bound commands ∧ Scoped intent bound commands engine) ∧
    ∀ parse now plan operations commands, intent.preparePlan parse now plan = .ok operations →
      operations.mapM (fun operation => parse operation.command) = .ok commands →
      Additive intent (requestOf operations) commands ∧
        Scoped intent (requestOf operations) commands engine := by
  constructor
  · intro Answer kip executor request bound commands documented once h hp
    exact ⟨additive_handed kip executor intent request bound documented commands h hp,
      scoped_handed kip executor intent request bound documented once engine commands h hp⟩
  · intro parse now plan operations commands h hp
    exact (prepared_plan parse intent now plan operations engine commands h hp).symm

/-! ## A scoped observation -/

def scopedIntent : MemoryIntent := ⟨.observe, none, ["C-1", "C-2"], none, none⟩

def citedSet : String × MutationValue := ("context_refs", .param ⟨"contexts", by decide⟩)

/-- `CREATE ASSERTION ?a` with the host's context set. -/
def scopedClaim : MutationClause := .createAssertion ⟨some [citedSet], [], none⟩

def plainEngine : Engine := ⟨fun _ _ => none⟩

def scopedRequest (text : String) : Request :=
  { plainRequest text with
    parameters := some (extend (fun _ => none) (bindingsOf scopedIntent.bindings)) }

def scopedPlan : MutationPlan := ⟨["CREATE ASSERTION ?a"], fun _ => none⟩

theorem intents_confine_passes_scoped : Scoped scopedIntent (scopedRequest "CREATE ASSERTION ?a")
    [.kml ⟨[scopedClaim]⟩] plainEngine ∧ Scoped scopedIntent
    (requestOf (scopedIntent.planned "2026-08-20T00:00:00.000Z" scopedPlan)) [.kml ⟨[scopedClaim]⟩]
    plainEngine := by
  have honce : FieldsOnce (libraryOf ⟨[scopedClaim]⟩).parse := by
    intro text statement record hp hc
    obtain rfl : (⟨[scopedClaim]⟩ : KmlStatement) = statement := by simpa [libraryOf] using hp
    rw [List.mem_singleton, scopedClaim, MutationClause.createAssertion.injEq] at hc
    rw [hc]
    decide
  constructor
  · exact ((intents_confine_passes plainEngine scopedIntent).1 (libraryOf ⟨[scopedClaim]⟩)
      (fun _ => ()) (plainRequest "CREATE ASSERTION ?a") (scopedRequest "CREATE ASSERTION ?a")
      [.kml ⟨[scopedClaim]⟩] (library_documented scopedClaim (by simp [scopedClaim])) honce
      rfl rfl).2
  · exact ((intents_confine_passes plainEngine scopedIntent).2
      (fun _ => .ok (.kml ⟨[scopedClaim]⟩)) "2026-08-20T00:00:00.000Z" scopedPlan _
      [.kml ⟨[scopedClaim]⟩] rfl rfl).2

end AndaBrain.IntentGate
