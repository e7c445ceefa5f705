import AndaBrain.KipAdmission

/-!
# What an admitted write owes

The host binds its strength pin and the captured messages before a gate looks at a request.
-/

set_option autoImplicit false

namespace AndaBrain.Kip

def hostStrengthPolicy : String := "strength_policy"

def hostNow : String := "now"

def strengthPolicy : Json :=
  .obj [("artifact_ref",.str "kip:strength-half-life-30d"), ("content_digest",
      .str "sha256:a50a89b83f937c97cabf0f8371cccfd326f4fdd438b6d7b9ead507d77927b227")]

section Attachment
variable (kip : Library)

/-- `request.operations.iter().any(|operation| …opens_write_transaction())`. -/
def opensWrite (request : Request) : Bool :=
  request.operations.any fun operation =>
    match kip.parse operation.command with
    | .ok command => kip.opensWriteTransaction command
    | .error _ => false

def bindsName (parameters : Option Bindings) (name : String) : Bool :=
  parameters.any fun p => (p name).isSome

def claims (request : Request) (name : String) : Bool :=
  bindsName request.parameters name ||
    request.operations.any fun operation => bindsName operation.parameters name

/-- `now` is the text of the host's time. -/
def attachHostBindings (now : String) (request : Request) : Except String Request :=
  if !opensWrite kip request then .ok request
  else if claims request hostStrengthPolicy then
    .error "`:strength_policy` is bound by the host; cite it without binding it"
  else
    let outer := request.parameters.getD fun _ => none
    let pinned := extend outer fun name =>
      if name = hostStrengthPolicy then some strengthPolicy else none
    .ok { request with
      parameters := some (extend (fun name => if name = hostNow then some (.str now) else none) pinned) }

/-- `keys` are the keys of the captured Evidence. -/
def attachObservation (keys : List String) (request : Request) : Except String Request :=
  if request.ingest.isSome then .error "formation ingest is supplied by the host"
  else if keys.any (claims request) then
    .error "captured observation bindings cannot be replaced"
  else if opensWrite kip request then .ok { request with ingest := some keys }
  else .ok request

def attach (now : String) (observation : Option (List String)) (request : Request) :
    Except String Request :=
  match attachHostBindings kip now request with
  | .error e => .error e
  | .ok bound =>
    match observation with
    | none => .ok bound
    | some keys => attachObservation kip keys bound

end Attachment

/-! ## The obligations -/

inductive AssignedIn : FacetAssignment → MutationClause → Prop where
  | created (c : CreateConcept) (f : FacetAssignment) (h : f ∈ c.setFacets) :
      AssignedIn f (.createConcept c)
  | upserted (c : UpsertConcept) (f : FacetAssignment) (h : f ∈ c.setFacets) :
      AssignedIn f (.upsertConcept c)
  | updated (c : Update) (f : FacetAssignment) (h : .setFacet f ∈ c.actions) :
      AssignedIn f (.update c)
  | evidence (c : CreateRecord) (f : FacetAssignment) (h : f ∈ c.setFacets) :
      AssignedIn f (.createEvidence c)
  | assertion (c : CreateRecord) (f : FacetAssignment) (h : f ∈ c.setFacets) :
      AssignedIn f (.createAssertion c)
  | activity (c : CreateRecord) (f : FacetAssignment) (h : f ∈ c.setFacets) :
      AssignedIn f (.createActivity c)

inductive CreatesRecord : MutationClause → Prop where
  | evidence (c : CreateRecord) : CreatesRecord (.createEvidence c)
  | assertion (c : CreateRecord) : CreatesRecord (.createAssertion c)
  | activity (c : CreateRecord) : CreatesRecord (.createActivity c)

def Writes (assignment : FacetAssignment) (member : String) : Prop :=
  ∃ value, (member,value) ∈ assignment.values

/-- A `MnemonicState` with a strength of its own, however the facet is named. -/
def StrengthBase (request : Request) (index : ℕ) (assignment : FacetAssignment) : Prop :=
  (∃ name, assignment.facet.Resolves request index name ∧ EndsIn name "MnemonicState") ∧
    Writes assignment "memory_strength"

/-- The value a list assigns to a name. -/
def firstOf (values : List (String × MutationValue)) (name : String) : Option MutationValue :=
  (values.find? fun value => value.1 == name).map (·.2)

section Obligations
-- How the engine reads a name of a member list.
variable (read : List (String × MutationValue) → String → Option MutationValue)

def CitesPin (assignment : FacetAssignment) : Prop :=
  ∃ p : Identifier, read assignment.values "strength_policy" = some (.param p) ∧
    p.text = hostStrengthPolicy

structure Pinned (request : Request) (index : ℕ) (assignment : FacetAssignment) : Prop where
  anchored : Writes assignment "last_metabolized_at"
  written : Writes assignment "strength_policy"
  policy : ∃ p : Identifier, read assignment.values "strength_policy" = some (.param p) ∧
    p.text = hostStrengthPolicy ∧ Bound request index p strengthPolicy

def CitesMessage (request : Request) (index : ℕ) (record : CreateRecord) : Prop :=
  ∃ edges edge, record.setStructural = some edges ∧ edge ∈ edges ∧
    (∃ name, edge.field.Resolves request index name ∧ EndsIn name "evidence") ∧
    ∃ handle : Identifier, edge.value = .param handle ∧ handle.text ∈ request.ingest.getD []

def Inferred (request : Request) (index : ℕ) (record : CreateRecord) : Prop :=
  read (record.setFields.getD []) "mode" = some (.value (.str "inferred")) ∨
    ∃ p, read (record.setFields.getD []) "mode" = some (.param p) ∧
      Bound request index p (.str "inferred")

/-- A value other than a literal `null` is written. -/
inductive WrittenTime : Option MutationValue → Prop where
  | value (v : MutationValue) (h : v ≠ .value .null) : WrittenTime (some v)

inductive WrittenValidity : Option MutationValue → Prop where
  | literal (members : List (String × Json)) (v : Json) (h : (Json.obj members).get "from" = some v)
      (hv : v ≠ .null) : WrittenValidity (some (.value (.obj members)))
  | object (members : List (String × BoundValue)) (v : BoundValue) (h : ("from",v) ∈ members)
      (hv : v ≠ .value .null) : WrittenValidity (some (.object members))
  | param (p : Identifier) : WrittenValidity (some (.param p))
  | other : WrittenValidity (some .other)

def Carries (record : CreateRecord) : Prop :=
  WrittenTime (read (record.setFields.getD []) "asserted_at") ∨
    WrittenValidity (read (record.setFields.getD []) "valid_time")

structure Undated (request : Request) (index : ℕ) (record : CreateRecord) : Prop where
  cites : CitesMessage request index record
  stated : ¬ Inferred read request index record
  bare : ¬ Carries read record

def StrengthHolds (request : Request) (commands : List Command) : Prop :=
  ∀ index statement clause assignment, commands[index]? = some (.kml statement) →
    clause ∈ statement.clauses → AssignedIn assignment clause →
      StrengthBase request index assignment → Pinned read request index assignment

def DatesHold (request : Request) (commands : List Command) : Prop :=
  ∀ index statement record, commands[index]? = some (.kml statement) →
    .createAssertion record ∈ statement.clauses → ¬ Undated read request index record

/-! ## The spellings the checks do not read -/

def StrengthSpelled (request : Request) (commands : List Command) : Prop :=
  ∀ index statement clause assignment, commands[index]? = some (.kml statement) →
    clause ∈ statement.clauses → AssignedIn assignment clause →
      StrengthBase request index assignment →
        (CreatesRecord clause →
          Writes assignment "last_metabolized_at" ∧ Writes assignment "strength_policy") ∧
        (Writes assignment "strength_policy" → CitesPin read assignment)

/-- An edge whose field is written as the name `evidence` cites a captured message. -/
def CitesPlainly (request : Request) (record : CreateRecord) : Prop :=
  ∃ edges edge handle, record.setStructural = some edges ∧ edge ∈ edges ∧
    edge.field = .name "evidence" ∧ edge.value = .param handle ∧
    handle.text ∈ request.ingest.getD []

/-- No claim is undated that names the evidence field by its reference or by a parameter wherever it
cites a captured message. -/
def DatesSpelled (request : Request) (commands : List Command) : Prop :=
  ∀ index statement record, commands[index]? = some (.kml statement) →
    .createAssertion record ∈ statement.clauses → ¬ CitesPlainly request record →
      ¬ Undated read request index record

end Obligations

/-! ## What the checks read -/

theorem writes_iff (assignment : FacetAssignment) (member : String) :
    writes assignment member = true ↔ Writes assignment member := by
  simp only [writes, List.any_eq_true, Writes]
  constructor
  · rintro ⟨value,hv,he⟩
    exact ⟨value.2,by simpa [← show value.1 = member by simpa using he] using hv⟩
  · rintro ⟨value,hv⟩
    exact ⟨(member,value),hv,by simp⟩

theorem mnemonic_of_base (request : Request) (index : ℕ) (assignment : FacetAssignment)
    (h : StrengthBase request index assignment) :
    isMnemonic (operationParameters request index) assignment = true := by
  obtain ⟨⟨name,hr,he⟩,-⟩ := h
  have hlocal : localName name = "MnemonicState" := (local_name_iff name _ (by decide)).2 he
  simp [isMnemonic, (resolve_iff _ _ _ _).2 hr, hlocal]

theorem assigned_read (assignment : FacetAssignment) (clause : MutationClause)
    (h : AssignedIn assignment clause) :
    CreatesRecord clause ∨ assignment ∈ assignmentsOf clause := by
  cases h with
  | created c _ hf => exact .inr hf
  | upserted c _ hf => exact .inr hf
  | updated c _ hf => exact .inr (List.mem_filterMap.2 ⟨_,hf,rfl⟩)
  | evidence c _ hf => exact .inl (.evidence c)
  | assertion c _ hf => exact .inl (.assertion c)
  | activity c _ hf => exact .inl (.activity c)

theorem complete_base (request : Request) (index : ℕ) (statement : KmlStatement)
    (clause : MutationClause) (assignment : FacetAssignment) (hc : clause ∈ statement.clauses)
    (ha : assignment ∈ assignmentsOf clause) (hb : StrengthBase request index assignment)
    (h : incompleteStrength (.kml statement) (operationParameters request index) = none) :
    Writes assignment "last_metabolized_at" ∧ Writes assignment "strength_policy" := by
  rw [incompleteStrength, List.findSome?_eq_none_iff] at h
  have hone := h assignment (List.mem_flatMap.2 ⟨clause,hc,ha⟩)
  simp only [mnemonic_of_base request index assignment hb, baseWithoutPin,
    (writes_iff _ _).2 hb.2, Bool.true_and] at hone
  split at hone
  · cases hone
  · have : writes assignment "last_metabolized_at" = true ∧
        writes assignment "strength_policy" = true := by grind
    exact ⟨(writes_iff _ _).1 this.1,(writes_iff _ _).1 this.2⟩

theorem plain_capture (request : Request) (record : CreateRecord) (h : CitesPlainly request record) :
    citesCapture (request.ingest.getD []).contains record = true := by
  obtain ⟨edges,edge,handle,hedges,hedge,hfield,hvalue,hin⟩ := h
  rw [citesCapture, hedges, Option.getD_some, List.any_eq_true]
  exact ⟨edge,hedge,by simp [hfield, hvalue, hin]⟩

theorem starts_written (value : Option MutationValue) (h : starts value = true) :
    WrittenValidity value := by
  unfold starts at h
  split at h
  · cases h
  · rename_i members
    rw [Option.any_eq_true] at h
    obtain ⟨v,hv,hne⟩ := h
    exact .literal members v hv (of_decide_eq_true hne)
  · cases h
  · rename_i members
    obtain ⟨member,hm,hkey⟩ := List.any_eq_true.1 h
    simp only [Bool.and_eq_true, beq_iff_eq, decide_eq_true_eq] at hkey
    exact .object members member.2 (hkey.1 ▸ hm) hkey.2
  · rename_i v hliteral hplain hobject
    cases v with
    | value v => exact absurd rfl (hplain v)
    | param p => exact .param p
    | object members => exact absurd rfl (hobject members)
    | other => exact .other

/-- What the gate takes for dated is inferred, or carries a time. -/
theorem dated_carries (read : List (String × MutationValue) → String → Option MutationValue)
    (request : Request) (index : ℕ) (record : CreateRecord)
    (hread : ∀ name, read (record.setFields.getD []) name = firstField record name)
    (h : undatedBy (firstField record) = false) :
    Inferred read request index record ∨ Carries read record := by
  simp only [undatedBy, Bool.and_eq_false_iff, Bool.not_eq_false'] at h
  rcases h with (hinferred | hdated) | hstarts
  · left
    left
    rw [hread]
    revert hinferred
    unfold isInferred
    split
    · rename_i mode hmode
      intro heq
      rw [hmode, beq_iff_eq.1 heq]
    · exact nofun
  · right
    left
    rw [hread]
    revert hdated
    cases firstField record "asserted_at" with
    | none => exact nofun
    | some v =>
      intro hdated
      refine .value v ?_
      rintro rfl
      cases hdated
  · right
    right
    rw [hread]
    exact starts_written _ hstarts

theorem read_citation (statement : KmlStatement) (request : Request) (record : CreateRecord)
    (hr : .createAssertion record ∈ statement.clauses) (hcites : CitesPlainly request record)
    (h : undatedCitation (.kml statement) (request.ingest.getD []) = none) :
    undatedBy (firstField record) = false := by
  rw [undatedCitation, List.findSome?_eq_none_iff] at h
  have hone := h _ hr
  simpa [plain_capture request record hcites] using hone

/-! ## The host's bindings -/

theorem own_unbound (request : Request) (index : ℕ) (p : Identifier)
    (h : claims request p.text = false) (inner : Bindings)
    (hi : ownParameters request index = some inner) : inner p.text = none := by
  simp only [claims, Bool.or_eq_false_iff, List.any_eq_false] at h
  obtain ⟨op,hop,hpar⟩ := Option.bind_eq_some_iff.1 hi
  have := h.2 op (List.mem_of_getElem? hop)
  simpa [bindsName, hpar] using this

theorem observation_keeps (kip : Library) (keys : List String) (request attached : Request)
    (h : attachObservation kip keys request = .ok attached) :
    attached.operations = request.operations ∧ attached.parameters = request.parameters := by
  simp only [attachObservation] at h
  split at h
  · cases h
  · split at h
    · cases h
    · split at h <;> cases h <;> exact ⟨rfl,rfl⟩

theorem host_bound (kip : Library) (now : String) (request bound : Request)
    (h : attachHostBindings kip now request = .ok bound) (hw : opensWrite kip bound = true)
    (index : ℕ) (p : Identifier) (hp : p.text = hostStrengthPolicy) :
    Bound bound index p strengthPolicy := by
  simp only [attachHostBindings] at h
  split at h
  · cases h
    simp_all
  split at h
  · cases h
  have hclaims : claims request hostStrengthPolicy = false := by
    simpa using ‹¬ claims request hostStrengthPolicy = true›
  cases h
  refine .request _ ?_ rfl (by simp [extend, hp])
  intro inner hi
  exact own_unbound request index p (hp ▸ hclaims) inner hi

theorem pin_bound (kip : Library) (now : String) (observation : Option (List String))
    (request attached : Request) (h : attach kip now observation request = .ok attached)
    (hw : opensWrite kip attached = true) (index : ℕ) (p : Identifier)
    (hp : p.text = hostStrengthPolicy) : Bound attached index p strengthPolicy := by
  simp only [attach] at h
  cases hb : attachHostBindings kip now request with
  | error e => simp [hb] at h
  | ok bound =>
    cases observation with
    | none =>
      simp only [hb, Except.ok.injEq] at h
      exact h ▸ host_bound kip now request bound hb (h ▸ hw) index p hp
    | some keys =>
      simp only [hb] at h
      obtain ⟨hops,hpars⟩ := observation_keeps kip keys bound attached h
      have hopens : opensWrite kip bound = true := by simpa [opensWrite, hops] using hw
      have hbound := host_bound kip now request bound hb hopens index p hp
      rw [← lookup_iff] at hbound ⊢
      simpa [operationParameters, ownParameters, hops, hpars] using hbound

theorem assigned_opens (kip : Library) (documented : kip.Documented) (request : Request)
    (commands : List Command) (hp : kip.parseOperations request = .ok commands) (index : ℕ)
    (statement : KmlStatement) (clause : MutationClause) (assignment : FacetAssignment)
    (hs : commands[index]? = some (.kml statement)) (hc : clause ∈ statement.clauses)
    (ha : AssignedIn assignment clause) : opensWrite kip request = true := by
  obtain ⟨operation,ho,ht⟩ := parsed_command kip request.operations commands hp _
    (List.mem_of_getElem? hs)
  have hopen : kip.opensWriteTransaction (.kml statement) = true := by
    by_contra hno
    obtain ⟨d,hd⟩ := (documented.opens _ statement ht).1 (by simpa using hno)
    rw [hd, List.mem_singleton] at hc
    subst hc
    cases ha
  exact List.any_eq_true.2 ⟨operation,ho,by simp [ht, hopen]⟩

section Admitted
variable (kip : Library) (documented : kip.Documented)
variable (read : List (String × MutationValue) → String → Option MutationValue)
variable (now : String) (observation : Option (List String)) (request attached : Request)
variable (h : attach kip now observation request = .ok attached) (commands : List Command)
variable (hp : kip.parseOperations attached = .ok commands)

include documented h hp in
theorem strength_iff
    (hchecked : ∀ index statement, commands[index]? = some (.kml statement) →
      incompleteStrength (.kml statement) (operationParameters attached index) = none) :
    StrengthHolds read attached commands ↔ StrengthSpelled read attached commands := by
  constructor
  · intro hold index statement clause assignment hs hc ha hb
    obtain ⟨anchored,written,p,hcite,htext,-⟩ := hold index statement clause assignment hs hc ha hb
    exact ⟨fun _ => ⟨anchored,written⟩,fun _ => ⟨p,hcite,htext⟩⟩
  intro spelled index statement clause assignment hs hc ha hb
  obtain ⟨hrecord,hpolicy⟩ := spelled index statement clause assignment hs hc ha hb
  have hboth : Writes assignment "last_metabolized_at" ∧ Writes assignment "strength_policy" := by
    rcases assigned_read assignment clause ha with hr | hr
    · exact hrecord hr
    · exact complete_base attached index statement clause assignment hc hr hb
        (hchecked index statement hs)
  obtain ⟨p,hcite,htext⟩ := hpolicy hboth.2
  have hopens := assigned_opens kip documented attached commands hp index statement clause
    assignment hs hc ha
  exact ⟨hboth.1,hboth.2,p,hcite,htext,
    pin_bound kip now observation request attached h hopens index p htext⟩

end Admitted

/-! ## A base on an Activity, and one with its pin -/

def libraryOf (statement : KmlStatement) : Library where
  parse _ := .ok (.kml statement)
  opensWriteTransaction
    | .kml ⟨[.define _]⟩ => false
    | _ => true

theorem library_documented (clause : MutationClause) (h : ∀ d, clause ≠ .define d) :
    (libraryOf ⟨[clause]⟩).Documented := by
  constructor
  · intro text statement d hp hd
    cases hp
    exact absurd (List.mem_singleton.1 hd).symm (h d)
  intro text statement hp
  cases hp
  constructor
  · intro ho
    cases clause <;> simp_all [libraryOf]
  · rintro ⟨d,hd⟩
    exact absurd (List.singleton_inj.1 hd) (h d)

def strengthValue : MutationValue := .value (.float (.finite (7/10)))

/-- `CREATE ACTIVITY ?a` with a `MnemonicState` that has a strength and nothing else. -/
def activityBase : MutationClause :=
  .createActivity ⟨none,[⟨.name "MnemonicState",[("memory_strength",strengthValue)]⟩],none⟩

/-- `CREATE ASSERTION ?a` with a strength, its anchor and the host's policy, and with the time of the
message that it cites. -/
def citedClaim : CreateRecord where
  setFields := some [("asserted_at",.param ⟨"said",by decide⟩)]
  setFacets := [⟨.name "MnemonicState",[("memory_strength",strengthValue),
    ("last_metabolized_at",.param ⟨"now",by decide⟩),
    ("strength_policy",.param ⟨"strength_policy",by decide⟩)]⟩]
  setStructural := some [⟨.name "evidence",.param ⟨"msg1",by decide⟩⟩]

def plainRequest (text : String) : Request := ⟨[⟨text,none⟩],none,none,none⟩

def boundRequest (text now : String) : Request :=
  { plainRequest text with
    parameters := some (extend (fun name => if name = hostNow then some (.str now) else none)
      (extend (fun _ => none) fun name =>
        if name = hostStrengthPolicy then some strengthPolicy else none)) }

end AndaBrain.Kip
