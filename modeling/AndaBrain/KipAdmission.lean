import AndaBrain.KipGate

/-!
# What a model request that reaches the executor holds

A gate refuses a request with none of its operations carried out, or hands it on whole after each
clause was found to be one the policy allows.
-/

set_option autoImplicit false

namespace AndaBrain.Kip

structure Contained (request : Request) (index : ℕ) (clause : MutationClause) : Prop where
  bounded : ∀ patterns limit, Selects clause patterns limit → patterns ≠ [] →
    ∃ scalar, ∃ n : ℕ, limit = some scalar ∧ scalar.Resolves request index (.int n) ∧
      n ≤ maxGatedSelection
  facets : ∀ symbol name, FacetAt symbol clause → symbol.Resolves request index name →
    ∀ facet ∈ protectedFacets, ¬ EndsIn name facet
  structural : ∀ symbol name, StructuralAt symbol clause → symbol.Resolves request index name →
    ∀ field ∈ protectedStructural, ¬ EndsIn name field

inductive Cognitive (request : Request) (index : ℕ) : MutationClause → Prop where
  | createConcept (c : CreateConcept) : Cognitive request index (.createConcept c)
  | upsertConcept (c : UpsertConcept) : Cognitive request index (.upsertConcept c)
  | ensureProposition : Cognitive request index .ensureProposition
  | createEvidence (c : CreateRecord) : Cognitive request index (.createEvidence c)
  | createAssertion (c : CreateRecord) : Cognitive request index (.createAssertion c)
  | createActivity (c : CreateRecord) : Cognitive request index (.createActivity c)
  | transition (t : Transition) (state : String) (cognitive : state ∈ cognitiveTransitions)
      (resolves : t.toState.Resolves request index (.str state)) :
      Cognitive request index (.transition t)
  | define (d : DefineCommand) (name : String) (literal : d.name = .name name)
      (named : isSymbolName d.kind name = true)
      (body : ∀ member ∈ d.definition, ∃ value, member.2 = .value value) :
      Cognitive request index (.define d)

/-- A clause that neither defines, nor erases, nor touches a legal hold. -/
def Custodial : MutationClause → Prop
  | .define _ | .purge _ | .purgePayload _ => False
  | .setRetention c => ∀ value ∈ c.values, value.1 ≠ "legal_hold"
  | _ => True

structure CognitionPlan (request : Request) (commands : List Command) : Prop where
  clauses : ∀ index statement, commands[index]? = some (.kml statement) →
    ∀ clause ∈ statement.clauses, Cognitive request index clause ∧ Contained request index clause
  defines : ∀ statement d, .kml statement ∈ commands → .define d ∈ statement.clauses →
    (∀ command ∈ commands, ∃ e, command = .kml ⟨[.define e]⟩) ∧
      commands.length ≤ maxDefinesPerRequest

structure MaintenancePlan (request : Request) (commands : List Command) : Prop where
  clauses : ∀ index statement, commands[index]? = some (.kml statement) →
    ∀ clause ∈ statement.clauses, Custodial clause ∧ Contained request index clause

/-! ## Names -/

theorem after_slash (head tail : List Char) (h : '/' ∉ tail) :
    (head++ '/'::tail).rtakeWhile (· ≠ '/') = tail := by
  have htail : ∀ c ∈ tail.reverse, decide (c ≠ '/') = true := by
    intro c hc
    simpa using fun e : c = '/' => h (by simpa [e] using hc)
  rw [List.rtakeWhile, List.reverse_append, List.reverse_cons, List.append_assoc,
    List.takeWhile_append_of_pos htail]
  simp

theorem local_name_iff (name tail : String) (h : '/' ∉ tail.toList) :
    localName name = tail ↔ EndsIn name tail := by
  constructor
  · intro hl
    have hsplit : name.toList.rdropWhile (· ≠ '/')++tail.toList = name.toList := by
      rw [← hl, localName, String.toList_ofList]
      exact List.rdropWhile_append_rtakeWhile
    by_cases hne : name.toList.rdropWhile (· ≠ '/') = []
    · rw [hne, List.nil_append] at hsplit
      exact .inl (String.toList_injective hsplit.symm)
    have hlast : (name.toList.rdropWhile (· ≠ '/')).getLast hne = '/' := by
      simpa using List.rdropWhile_last_not (· ≠ '/') name.toList hne
    have hend := List.dropLast_append_getLast hne
    rw [hlast] at hend
    refine .inr ⟨(name.toList.rdropWhile (· ≠ '/')).dropLast,?_⟩
    rw [List.append_cons, hend, hsplit]
  · intro he
    rcases he with rfl | ⟨head,hhead⟩
    · have hself : name.toList.rtakeWhile (· ≠ '/') = name.toList := by
        rw [List.rtakeWhile_eq_self_iff]
        intro c hc
        simpa using fun e : c = '/' => h (e ▸ hc)
      rw [localName, hself, String.ofList_toList]
    · rw [localName, hhead, after_slash head tail.toList h, String.ofList_toList]

theorem facet_no_slash : ∀ facet ∈ protectedFacets, '/' ∉ facet.toList := by decide

theorem structural_no_slash : ∀ field ∈ protectedStructural, '/' ∉ field.toList := by decide

variable (clause : MutationClause) (request : Request) (index : ℕ) (symbol : SymbolRef)

theorem resolve_iff (name : String) : symbol.resolve (operationParameters request index) = some name
    ↔ symbol.Resolves request index name := by
  cases symbol with
  | name text =>
    simp only [SymbolRef.resolve, Option.some.injEq]
    exact ⟨fun h => h ▸ .name text,fun h => by cases h; rfl⟩
  | param p =>
    simp only [SymbolRef.resolve, Option.bind_eq_some_iff]
    constructor
    · rintro ⟨value,hv,hs⟩
      cases value with
      | str text =>
        cases hs
        exact .param p _ ((lookup_iff _ _ _ _).1 hv)
      | _ => simp [Json.asStr] at hs
    · intro h
      cases h with
      | param _ _ hb => exact ⟨_,(lookup_iff _ _ _ _).2 hb,rfl⟩

theorem name_refusal_none (unresolved reason : String) (guarded : List String)
    (parameters : Option Bindings) (symbol : SymbolRef) : nameRefusal unresolved reason guarded
    parameters symbol = none ↔ ∃ name, symbol.resolve parameters = some name ∧ localName name ∉
    guarded := by
  cases h : symbol.resolve parameters with
  | none => simp [nameRefusal, h]
  | some name => simp [nameRefusal, h]

theorem admitted_name (unresolved reason : String) (guarded : List String)
    (hslash : ∀ tail ∈ guarded, '/' ∉ tail.toList) (request : Request) (index : ℕ)
    (symbol : SymbolRef) (name : String)
    (h : nameRefusal unresolved reason guarded (operationParameters request index) symbol = none)
    (hr : symbol.Resolves request index name) : ∀ tail ∈ guarded, ¬ EndsIn name tail := by
  obtain ⟨other,ho,hout⟩ := (name_refusal_none _ _ _ _ _).1 h
  rw [(resolve_iff _ _ _ _).2 hr] at ho
  cases ho
  intro tail ht he
  exact hout ((local_name_iff name tail (hslash tail ht)).2 he ▸ ht)

/-! ## Places -/

theorem mem_facets (h : FacetAt symbol clause) : symbol ∈ facetsOf clause := by
  cases h with
  | created c f hf => exact List.mem_map_of_mem hf
  | upserted c f hf => exact List.mem_append_left _ (List.mem_map_of_mem hf)
  | upsertRemoved c f hf => exact List.mem_append_right _ (List.mem_map_of_mem hf)
  | evidence c f hf => exact List.mem_map_of_mem hf
  | assertion c f hf => exact List.mem_map_of_mem hf
  | activity c f hf => exact List.mem_map_of_mem hf
  | updated c f hf => exact List.mem_filterMap.2 ⟨_,hf,rfl⟩
  | updateRemoved c f hf => exact List.mem_filterMap.2 ⟨_,hf,rfl⟩

theorem mem_fields {edges : Option (List StructuralEdge)} {set : List StructuralEdge}
    {e : StructuralEdge} (hs : edges = some set) (h : e ∈ set) : e.field ∈ fieldsOf edges := by
  simpa [fieldsOf, hs] using ⟨e,h,rfl⟩

theorem mem_structural (h : StructuralAt symbol clause) : symbol ∈ structuralOf clause := by
  cases h with
  | created c edges e hs he => exact mem_fields hs he
  | upserted c edges e hs he => exact List.mem_append_left _ (mem_fields hs he)
  | upsertRemoved c edges e hs he => exact List.mem_append_right _ (mem_fields hs he)
  | evidence c edges e hs he => exact mem_fields hs he
  | assertion c edges e hs he => exact mem_fields hs he
  | activity c edges e hs he => exact mem_fields hs he
  | moved t edges e hs he => exact mem_fields hs he
  | updated c edges e hs he => exact List.mem_flatMap.2 ⟨_,hs,List.mem_map_of_mem he⟩
  | updateRemoved c edges e hs he => exact List.mem_flatMap.2 ⟨_,hs,List.mem_map_of_mem he⟩

theorem unsupported_none (statement : KmlStatement) (parameters : Option Bindings) :
    unsupportedCognitiveWrite (.kml statement) parameters = none ↔ ∀ clause ∈ statement.clauses,
    (∀ symbol ∈ facetsOf clause, facetRefusal parameters symbol = none) ∧ ∀ symbol ∈ structuralOf
    clause, structuralRefusal parameters symbol = none := by
  simp only [unsupportedCognitiveWrite, Option.or_eq_none_iff, List.findSome?_eq_none_iff,
    List.mem_flatMap]
  constructor
  · intro h clause hc
    exact ⟨fun symbol hs => h.1 symbol ⟨clause,hc,hs⟩,fun symbol hs => h.2 symbol ⟨clause,hc,hs⟩⟩
  · intro h
    exact ⟨fun symbol ⟨clause,hc,hs⟩ => (h clause hc).1 symbol hs,
      fun symbol ⟨clause,hc,hs⟩ => (h clause hc).2 symbol hs⟩

/-! ## Limits and states -/

theorem selection_limit (limit : Option Scalar) (n : ℕ)
    (h : selectionLimit limit (operationParameters request index) = some n) :
    ∃ scalar, limit = some scalar ∧ scalar.Resolves request index (.int n) := by
  have hint : ∀ value : Json, value.asU64 = some n → value = .int n := by
    intro value hv
    cases value with
    | int z =>
      simp only [Json.asU64] at hv
      split at hv
      · simp only [Option.some.injEq] at hv
        simp only [Json.int.injEq]
        omega
      · cases hv
    | _ => simp [Json.asU64] at hv
  cases limit with
  | none => simp [selectionLimit] at h
  | some scalar =>
    cases scalar with
    | literal value => exact ⟨_,rfl,hint value h ▸ .literal value⟩
    | param p =>
      obtain ⟨value,hv,hn⟩ := Option.bind_eq_some_iff.1 h
      exact ⟨_,rfl,.param p _ ((lookup_iff _ _ _ _).1 (hint value hn ▸ hv))⟩

theorem selection_bounded (verb : String) (selection : Selection) (parameters : Option Bindings)
    (patterns : List WhereClause) (hw : selection.whereClauses = some patterns)
    (hne : patterns ≠ []) (h : selection.unbounded verb parameters = none) :
    ∃ n ≤ maxGatedSelection, selectionLimit selection.limit parameters = some n := by
  simp only [Selection.unbounded, hw, Option.getD_some, if_neg hne] at h
  split at h
  · obtain ⟨n,hn,hle⟩ := (Option.any_eq_true _ _).1 ‹_›
    exact ⟨n,by simpa using hle,hn⟩
  · cases h

theorem unbounded_none (parameters : Option Bindings)
    (patterns : List WhereClause) (limit : Option Scalar) (hs : Selects clause patterns limit)
    (hne : patterns ≠ []) (h : unboundedSelection clause parameters = none) :
    ∃ n ≤ maxGatedSelection, selectionLimit limit parameters = some n := by
  cases hs with
  | transition t _ hw => exact selection_bounded _ t.toSelection parameters patterns hw hne h
  | update c _ hw => exact selection_bounded _ c.toSelection parameters patterns hw hne h
  | setRetention c _ hw => exact selection_bounded _ c.toSelection parameters patterns hw hne h
  | purge c _ hw => exact selection_bounded _ c parameters patterns hw hne h
  | purgePayload c _ hw => exact selection_bounded _ c parameters patterns hw hne h

theorem transition_state (t : Transition) (state : String)
    (h : transitionStateOf t (operationParameters request index) = some state) :
    t.toState.Resolves request index (.str state) := by
  have hstr : ∀ value : Json, value.asStr = some state → value = .str state := by
    intro value hv
    cases value <;> simp_all [Json.asStr]
  simp only [transitionStateOf] at h
  cases hto : t.toState with
  | literal value =>
    rw [hto] at h
    exact hstr value h ▸ .literal value
  | param p =>
    rw [hto] at h
    obtain ⟨value,hv,hs⟩ := Option.bind_eq_some_iff.1 h
    exact .param p _ ((lookup_iff _ _ _ _).1 (hstr value hs ▸ hv))

theorem define_admitted (d : DefineCommand) (h : defineRefusal d = none) : ∃ name, d.name = .name
    name ∧ isSymbolName d.kind name = true ∧ ∀ member ∈ d.definition, ∃ value, member.2 = .value
    value := by
  simp only [defineRefusal] at h
  cases hd : d.name with
  | param p => simp [hd] at h
  | name name =>
    simp only [hd] at h
    split at h
    · cases h
    split at h
    · cases h
    refine ⟨name,rfl,by simpa using ‹¬ (!isSymbolName d.kind name) = true›,?_⟩
    intro member hm
    cases hv : member.2 with
    | value v => exact ⟨v,rfl⟩
    | _ =>
      exfalso
      apply ‹¬ d.definition.any _ = true›
      exact List.any_eq_true.2 ⟨member,hm,by simp [hv, BoundValue.isLiteral]⟩

theorem cognition_clause (clause : MutationClause)
    (h : clauseCognitionRefusal (operationParameters request index) clause = none) : Cognitive
    request index clause ∧ unboundedSelection clause (operationParameters request index) = none :=
    by
  cases clause with
  | createConcept c => exact ⟨.createConcept c,h⟩
  | upsertConcept c => exact ⟨.upsertConcept c,h⟩
  | ensureProposition => exact ⟨.ensureProposition,h⟩
  | createEvidence c => exact ⟨.createEvidence c,h⟩
  | createAssertion c => exact ⟨.createAssertion c,h⟩
  | createActivity c => exact ⟨.createActivity c,h⟩
  | transition t =>
    simp only [clauseCognitionRefusal] at h
    cases ht : transitionStateOf t (operationParameters request index) with
    | none => simp [ht] at h
    | some state =>
      simp only [ht] at h
      split at h
      · have hmem : state ∈ cognitiveTransitions := by
          simpa using ‹cognitiveTransitions.contains state = true›
        exact ⟨.transition t state hmem (transition_state request index t state ht),h⟩
      · cases h
  | define d =>
    obtain ⟨name,hn,hs,hb⟩ := define_admitted d h
    exact ⟨.define d name hn hs hb,rfl⟩
  | _ => simp [clauseCognitionRefusal] at h

theorem maintenance_clause (parameters : Option Bindings)
    (h : clauseMaintenanceRefusal parameters clause = none) :
    Custodial clause ∧ unboundedSelection clause parameters = none := by
  cases clause with
  | define d => simp [clauseMaintenanceRefusal] at h
  | purge c => simp [clauseMaintenanceRefusal] at h
  | purgePayload c => simp [clauseMaintenanceRefusal] at h
  | setRetention c =>
    simp only [clauseMaintenanceRefusal] at h
    split at h
    · cases h
    refine ⟨?_,h⟩
    intro value hv he
    apply ‹¬ c.values.any _ = true›
    exact List.any_eq_true.2 ⟨value,hv,by simpa using he⟩
  | _ => exact ⟨trivial,h⟩

theorem contained_clause (statement : KmlStatement)
    (clause : MutationClause) (hc : clause ∈ statement.clauses)
    (hu : unsupportedCognitiveWrite (.kml statement) (operationParameters request index) = none)
    (hb : unboundedSelection clause (operationParameters request index) = none) :
    Contained request index clause := by
  have hnames := (unsupported_none _ _).1 hu clause hc
  constructor
  · intro patterns limit hs hne
    obtain ⟨n,hn,hl⟩ := unbounded_none clause _ patterns limit hs hne hb
    obtain ⟨scalar,hscalar,hr⟩ := selection_limit request index limit n hl
    exact ⟨scalar,n,hscalar,hr,hn⟩
  · intro symbol name hf hr
    exact admitted_name _ _ _ facet_no_slash request index symbol name
      (hnames.1 symbol (mem_facets clause symbol hf)) hr
  · intro symbol name hf hr
    exact admitted_name _ _ _ structural_no_slash request index symbol name
      (hnames.2 symbol (mem_structural clause symbol hf)) hr

/-! ## Requests -/

theorem first_refusal_none (gate : Command → Option Bindings → Option Refusal)
    (commands : List Command) (h : firstRefusal request gate commands = none) (index : ℕ)
    (command : Command) (hc : commands[index]? = some command) :
    gate command (operationParameters request index) = none := by
  rw [firstRefusal, List.findSome?_eq_none_iff] at h
  exact h (command,index) (List.mem_zipIdx_iff_getElem?.2 hc)

theorem parsed_command (kip : Library) (operations : List Operation) (commands : List Command)
    (h : operations.mapM (fun operation => kip.parse operation.command) = .ok commands)
    (command : Command) (hc : command ∈ commands) :
    ∃ operation ∈ operations, kip.parse operation.command = .ok command := by
  induction operations generalizing commands with
  | nil =>
    cases h
    simp at hc
  | cons operation rest ih =>
    rw [List.mapM_cons] at h
    cases hf : kip.parse operation.command with
    | error e => simp [hf, bind, Except.bind] at h
    | ok first =>
      cases hr : rest.mapM (fun operation => kip.parse operation.command) with
      | error e => simp [hf, hr, bind, Except.bind] at h
      | ok others =>
        simp only [hf, hr, bind, Except.bind, pure, Except.pure, Except.ok.injEq] at h
        subst h
        rcases List.mem_cons.1 hc with rfl | hc
        · exact ⟨operation,by simp,hf⟩
        · obtain ⟨other,ho,hp⟩ := ih others hr hc
          exact ⟨other,by simp [ho],hp⟩

theorem batch_admitted (kip : Library) (documented : kip.Documented) (request : Request)
    (commands : List Command) (hp : kip.parseOperations request = .ok commands)
    (h : defineBatchRefusal kip commands = none) (statement : KmlStatement) (d : DefineCommand)
    (hs : .kml statement ∈ commands) (hd : .define d ∈ statement.clauses) :
    (∀ command ∈ commands, ∃ e, command = .kml ⟨[.define e]⟩) ∧ commands.length ≤
    maxDefinesPerRequest := by
  have hpositive : 0 < commands.countP fun c => c.isMutation && !kip.opensWriteTransaction c := by
    obtain ⟨operation,-,ht⟩ := parsed_command kip request.operations commands hp _ hs
    have halone := documented.alone _ statement d ht hd
    have hopen := (documented.opens _ statement ht).2 ⟨d,halone⟩
    exact List.countP_pos_iff.2 ⟨_,hs,by simp [Command.isMutation, hopen]⟩
  simp only [defineBatchRefusal, if_neg hpositive.ne'] at h
  split at h
  · cases h
  split at h
  · cases h
  have hall := not_not.1 ‹¬ (_ ≠ commands.length)›
  refine ⟨?_,by omega⟩
  intro command hc
  have hcount := List.countP_eq_length.1 hall command hc
  simp only [Bool.and_eq_true, Bool.not_eq_true'] at hcount
  obtain ⟨operation,-,ht⟩ := parsed_command kip request.operations commands hp _ hc
  cases command with
  | kml s =>
    obtain ⟨e,he⟩ := (documented.opens _ s ht).1 hcount.2
    exact ⟨e,by rw [← he]⟩
  | _ => simp [Command.isMutation] at hcount

theorem cognition_plan (kip : Library) (documented : kip.Documented) (request : Request)
    (commands : List Command) (hp : kip.parseOperations request = .ok commands)
    (hb : defineBatchRefusal kip commands = none) (captured : List String)
    (h : firstRefusal request (cognitionGate captured) commands = none) :
    CognitionPlan request commands := by
  refine ⟨?_,fun statement d => batch_admitted kip documented request commands hp hb statement d⟩
  intro index statement hs clause hc
  have hgate := first_refusal_none request _ commands h index _ hs
  simp only [cognitionGate, Option.or_eq_none_iff, Option.map_eq_none_iff] at hgate
  obtain ⟨⟨-,hu⟩,-,hcog⟩ := hgate
  rw [cognitionRefusal, List.findSome?_eq_none_iff] at hcog
  obtain ⟨hcognitive,hbound⟩ := cognition_clause request index clause (hcog clause hc)
  exact ⟨hcognitive,contained_clause request index statement clause hc hu hbound⟩

theorem maintenance_plan (commands : List Command)
    (h : firstRefusal request maintenanceGate commands = none) :
    MaintenancePlan request commands := by
  constructor
  intro index statement hs clause hc
  have hgate := first_refusal_none request _ commands h index _ hs
  simp only [maintenanceGate, Option.or_eq_none_iff, Option.map_eq_none_iff] at hgate
  obtain ⟨hu,-,hmain⟩ := hgate
  rw [maintenanceRefusal, List.findSome?_eq_none_iff] at hmain
  obtain ⟨hcustodial,hbound⟩ := maintenance_clause clause _ (hmain clause hc)
  exact ⟨hcustodial,contained_clause request index statement clause hc hu hbound⟩

/-- A gate refuses a request whole, or hands it on whole with a plan it allows. -/
theorem model_gates_sound {Answer : Type} (kip : Library) (documented : kip.Documented)
    (executor : Request → Answer) (request : Request) :
    ((∃ refusal, executeCognitionRequest kip executor request =
        ⟨[],.inr (refusal,request.requestId)⟩) ∨
      executeCognitionRequest kip executor request = ⟨[request],.inl (executor request)⟩ ∧
        ∃ commands, kip.parseOperations request = .ok commands ∧
          CognitionPlan request commands) ∧
    ((∃ refusal, executeMaintenanceRequest kip executor request =
        ⟨[],.inr (refusal,request.requestId)⟩) ∨
      executeMaintenanceRequest kip executor request = ⟨[request],.inl (executor request)⟩ ∧
        ∃ commands, kip.parseOperations request = .ok commands ∧
          MaintenancePlan request commands) := by
  cases hp : kip.parseOperations request with
  | error e =>
    exact ⟨.inl ⟨.unparsed e,by simp [executeCognitionRequest, hp, refused]⟩,
      .inl ⟨.unparsed e,by simp [executeMaintenanceRequest, hp, refused]⟩⟩
  | ok commands =>
    constructor
    · cases hb : defineBatchRefusal kip commands with
      | some text => exact .inl ⟨.notAuthorized text,by simp [executeCognitionRequest, hp, hb, refused]⟩
      | none =>
        cases hf : firstRefusal request (cognitionGate (request.ingest.getD [])) commands with
        | some refusal =>
          exact .inl ⟨refusal,by simp [executeCognitionRequest, hp, hb, hf, refused]⟩
        | none =>
          exact .inr ⟨by simp [executeCognitionRequest, hp, hb, hf, executed],commands,rfl,
            cognition_plan kip documented request commands hp hb _ hf⟩
    · cases hf : firstRefusal request maintenanceGate commands with
      | some refusal => exact .inl ⟨refusal,by simp [executeMaintenanceRequest, hp, hf, refused]⟩
      | none =>
        exact .inr ⟨by simp [executeMaintenanceRequest, hp, hf, executed],commands,rfl,
          maintenance_plan request commands hf⟩

def sampleKip : Library where
  parse text :=
    if text = "TRANSITION ?a TO :state WHERE \x7b ?a ASSERTION \x7b\x7d \x7d LIMIT :limit" then
      .ok (.kml ⟨[.transition ⟨⟨some ["?a ASSERTION \x7b\x7d"],some (.param ⟨"limit",by decide⟩)⟩,
        .param ⟨"state",by decide⟩,none⟩]⟩)
    else if text = "DEFINE PREDICATE \"mentors\" \x7bdescription: \"x\"\x7d" then
      .ok (.kml ⟨[.define ⟨.predicate,.name "mentors",[("description",.value (.str "x"))]⟩]⟩)
    else .error "KIP_1001"
  opensWriteTransaction
    | .kml ⟨[.define _]⟩ => false
    | _ => true

theorem sample_documented : sampleKip.Documented := by
  constructor
  · intro text statement d h hd
    simp only [sampleKip] at h
    split at h
    · cases h
      simp at hd
    split at h
    · cases h
      rw [List.mem_singleton.1 hd]
    · cases h
  · intro text statement h
    simp only [sampleKip] at h
    split at h
    · cases h
      simp [sampleKip]
    split at h
    · cases h
      simp [sampleKip]
    · cases h

/-- The operation binds the limit again, below the one the request binds. -/
def sampleRequest : Request where
  operations := [⟨"TRANSITION ?a TO :state WHERE \x7b ?a ASSERTION \x7b\x7d \x7d LIMIT :limit",
    some fun name => if name = "limit" then some (.int 5) else none⟩]
  parameters := some fun name =>
    if name = "limit" then some (.int 100) else if name = "state" then some (.str "retracted") else none
  ingest := none
  requestId := none

theorem model_gates_sound_shadowed : ∃ commands, sampleKip.parseOperations sampleRequest = .ok
    commands ∧ CognitionPlan sampleRequest commands := by
  rcases (model_gates_sound sampleKip sample_documented (fun _ => ()) sampleRequest).1 with
    ⟨refusal,h⟩ | ⟨-,h⟩
  · have : (executeCognitionRequest sampleKip (fun _ => ()) sampleRequest).handed.length = 1 := by
      decide +kernel
    simp [h] at this
  · exact h

end AndaBrain.Kip
