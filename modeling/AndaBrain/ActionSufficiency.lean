import AndaBrain.ActionContext
import AndaBrain.ActionRuns

/-!
# Which insufficiency a capture reports

A capture keeps the first reason it meets. The reasons are listed here in the order in which the
loop meets them, so that the reported one is the head of a list.
-/

set_option autoImplicit false

namespace AndaBrain.ActionContext
open AndaBrain.Action RecallPack Foundation.SortBy Foundation.Resumption

structure View where
  id : String
  row : Json
  projected : Option Json

def viewOf (session : Session) (request : ContextRequest) (anchor : Json) (seq : ℕ)
    (id : String) : Except String View := do
  let row ← element session id (some seq)
  let projected ← projection session request anchor seq id
  .ok ⟨id,row,projected⟩

def View.unverified (request : ContextRequest) (v : View) : Bool :=
  dependencyUnverified v.row || revisionUnverified request v.id v.row

def View.unaccepted (request : ContextRequest) (v : View) : Bool :=
  premiseUnaccepted request v.id v.projected

def View.reasons (request : ContextRequest) (v : View) : List String :=
  (if dependencyUnverified v.row then ["dependency_unverified"] else [])++
  (if revisionUnverified request v.id v.row then ["revision_unverified"] else [])++
  (if v.unaccepted request then [premiseReason] else [])

def View.pin (v : View) : Json := ActionContext.pin v.id v.row

def View.item (v : View) : MemoryItem := ActionContext.item v.id v.row v.projected

structure Answers where
  basis : Json
  page : List Json
  refs : List String
  views : List View
  serialized : SerializedPacket
  packet : MemoryPacket

def Answers.reasons (request : ContextRequest) (answers : Answers) : List String :=
  (if pageFull answers.page then ["constraint_coverage_incomplete"] else [])++
  answers.views.flatMap (View.reasons request)++
  (if answers.serialized.insufficient then ["required_context_does_not_fit"] else [])

def answersOf (reader : Reader) (fire : Fire) (request : ContextRequest)
    (budget : RecallBudget) : Except String Answers :=
  if requestBounded request then do
    let anchor ← belief reader.session request.anchor none
    let basis := anchor.index "basis"
    let seq ← need (basis.index "snapshot_seq").asU64 "native basis sequence missing"
    let commitments ← reader.session.findCommitments seq
    let page ← need commitments.asArray "invalid commitment page"
    let ids ← commitmentIds page
    let refs := references request fire ids
    let views ← refs.mapM (viewOf reader.session request anchor seq)
    let serialized ← packAll reader budget (views.map View.item)
    let packet ← unpack reader budget serialized
    .ok ⟨basis,page,refs,views,serialized,packet⟩
  else .error "invalid bounded gate context"

def Answers.capture (request : ContextRequest) (answers : Answers) : Capture where
  receipt := none
  request := request
  basis := answers.basis
  pins := answers.views.map View.pin
  retrieved := answers.refs
  packet := answers.packet
  insufficient := (answers.reasons request).head?

theorem note_if_head (c : Bool) (reason : String) (found : List String) :
    noteIf c reason found.head? = (found++if c then [reason] else []).head? := by
  cases c <;> cases found <;> simp [noteIf]

variable (reader : Reader) (fire : Fire) (request : ContextRequest) (v : View)
  (budget : RecallBudget) (answers : Answers) (host : Host) (wake : WakeRecord) (job : Job)
  (capture : Action.Capture) (timedOut : Bool) (reason : String) (env : ℕ → Env) (w : World)

theorem note_view (found : List String) :
    noteIf (premiseUnaccepted request v.id v.projected) premiseReason
      (noteIf (revisionUnverified request v.id v.row) "revision_unverified"
        (noteIf (dependencyUnverified v.row) "dependency_unverified" found.head?)) =
      (found++v.reasons request).head? := by
  simp only [note_if_head, View.reasons, View.unaccepted, List.append_assoc]
  rfl

theorem collect_eq (session : Session) (request : ContextRequest) (anchor : Json) (seq : ℕ)
    (ids : List String) (found : List String) (pins : List Json) (items : List MemoryItem) :
    collect session request anchor seq ids ⟨found.head?,pins,items⟩ =
      (ids.mapM (viewOf session request anchor seq)).map fun views =>
        ⟨(found++views.flatMap (View.reasons request)).head?,pins++views.map View.pin,
          items++views.map View.item⟩ := by
  induction ids generalizing found pins items with
  | nil => simp [collect, pure, Except.pure, Except.map]
  | cons id ids ih =>
    rw [collect, List.mapM_cons, viewOf]
    cases hr : element session id (some seq) with
    | error e => rfl
    | ok row =>
      cases hp : projection session request anchor seq id with
      | error e => rfl
      | ok projected =>
        have hn := note_view request ⟨id,row,projected⟩ found
        simp only [bind, Except.bind]
        rw [hn, ih]
        cases ids.mapM (viewOf session request anchor seq) with
        | error e => rfl
        | ok views => simp [Except.map, pure, Except.pure, View.pin, View.item]

theorem bind_map {α β γ : Type} (x : Except String α) (f : α → Except String β)
    (g : α → Except String γ) (h : γ → β) (hfg : ∀ a, f a = (g a).map h) :
    (x >>= f) = (x >>= g).map h := by
  cases x with
  | error e => rfl
  | ok a => exact hfg a

theorem read_eq : Capture.read reader fire request budget =
    (answersOf reader fire request budget).map (Answers.capture request) := by
  rw [Capture.read, answersOf]
  by_cases hb : requestBounded request = true
  · rw [if_pos hb, if_pos hb]
    apply bind_map
    intro anchor
    apply bind_map
    intro seq
    apply bind_map
    intro commitments
    apply bind_map
    intro page
    apply bind_map
    intro ids
    have hf : noteIf (pageFull page) "constraint_coverage_incomplete" none =
        (if pageFull page then ["constraint_coverage_incomplete"] else []).head? :=
      note_if_head (pageFull page) _ []
    simp only [hf, collect_eq]
    cases (references request fire ids).mapM (viewOf reader.session request anchor seq) with
    | error e => rfl
    | ok views =>
      show (packAll reader budget (views.map View.item) >>= _) =
        (packAll reader budget (views.map View.item) >>= _).map _
      apply bind_map
      intro serialized
      simp only [note_if_head]
      apply bind_map
      intro packet
      rfl
  · rw [if_neg hb, if_neg hb]
    rfl

theorem view_of_id (session : Session) (request : ContextRequest) (anchor : Json) (seq : ℕ)
    (id : String) (v : View) (h : viewOf session request anchor seq id = .ok v) : v.id = id := by
  rw [viewOf] at h
  cases hr : element session id (some seq) with
  | error e =>
    rw [hr] at h
    cases h
  | ok row =>
    cases hp : projection session request anchor seq id with
    | error e =>
      rw [hr, hp] at h
      cases h
    | ok projected =>
      rw [hr, hp] at h
      cases h
      rfl

theorem views_ids (session : Session) (request : ContextRequest) (anchor : Json) (seq : ℕ)
    (ids : List String) (views : List View)
    (h : ids.mapM (viewOf session request anchor seq) = .ok views) : views.map View.id = ids := by
  induction ids generalizing views with
  | nil =>
    cases h
    rfl
  | cons id ids ih =>
    rw [List.mapM_cons] at h
    cases hv : viewOf session request anchor seq id with
    | error e =>
      rw [hv] at h
      cases h
    | ok v =>
      cases ht : ids.mapM (viewOf session request anchor seq) with
      | error e =>
        rw [hv, ht] at h
        cases h
      | ok vs =>
        rw [hv, ht] at h
        cases h
        rw [List.map_cons, view_of_id session request anchor seq id v hv, ih vs ht]

theorem references_strict (fire : Fire) (ids : List String) :
    (references request fire ids).Pairwise (fun a b => a < b) :=
  dedup_adjacent_strict _ (sort_by_sorted id _ (fun a b => by simp) _)

theorem answers_sorted
    (h : answersOf reader fire request budget = .ok answers) :
    answers.views.Pairwise (fun a b => a.id < b.id) := by
  rw [answersOf] at h
  by_cases hb : requestBounded request = true
  · rw [if_pos hb] at h
    obtain ⟨anchor,-,h⟩ := except_bind_ok _ _ _ h
    obtain ⟨seq,-,h⟩ := except_bind_ok _ _ _ h
    obtain ⟨commitments,-,h⟩ := except_bind_ok _ _ _ h
    obtain ⟨page,-,h⟩ := except_bind_ok _ _ _ h
    obtain ⟨ids,-,h⟩ := except_bind_ok _ _ _ h
    obtain ⟨views,hv,h⟩ := except_bind_ok _ _ _ h
    obtain ⟨serialized,-,h⟩ := except_bind_ok _ _ _ h
    obtain ⟨packet,-,h⟩ := except_bind_ok _ _ _ h
    cases h
    apply List.pairwise_map.mp
    rw [views_ids _ _ _ _ _ _ hv]
    exact references_strict request fire ids
  · rw [if_neg hb] at h
    cases h

def Answers.Lacking (request : ContextRequest) (answers : Answers) : Prop :=
  pageFull answers.page = true ∨ (∃ v ∈ answers.views, v.unverified request = true) ∨
    answers.serialized.insufficient = true

def Answers.Shown (request : ContextRequest) (answers : Answers) : Prop :=
  pageFull answers.page = true ∨
  (∀ p ∈ answers.views, p.unaccepted request = true →
    ∃ v ∈ answers.views, v.id ≤ p.id ∧ v.unverified request = true) ∨
  ((∀ v ∈ answers.views, v.unverified request = false) ∧ answers.serialized.insufficient = false)

theorem reasons_unverified (h : v.unverified request = true) :
    ∃ r rest, v.reasons request = r::rest ∧ r ≠ premiseReason := by
  rw [View.unverified, Bool.or_eq_true] at h
  by_cases hd : dependencyUnverified v.row = true
  · exact ⟨"dependency_unverified",_,by rw [View.reasons, if_pos hd]; rfl,by decide⟩
  · have hr := h.resolve_left hd
    exact ⟨"revision_unverified",_,by rw [View.reasons, if_neg hd, if_pos hr]; rfl,by decide⟩

theorem reasons_verified
    (h : v.unverified request = false) :
    v.reasons request = if v.unaccepted request then [premiseReason] else [] := by
  rw [View.unverified, Bool.or_eq_false_iff] at h
  simp [View.reasons, h.1, h.2]

theorem views_head_premise (views : List View)
    (hs : views.Pairwise (fun a b => a.id < b.id)) :
    (views.flatMap (View.reasons request)).head? = some premiseReason ↔
      ∃ p ∈ views, p.unaccepted request = true ∧
        ∀ v ∈ views, v.id ≤ p.id → v.unverified request = false := by
  induction views with
  | nil => simp
  | cons v views ih =>
    obtain ⟨hlt,ht⟩ := List.pairwise_cons.mp hs
    rw [List.flatMap_cons]
    by_cases hu : v.unverified request = true
    · obtain ⟨r,rest,hr,hne⟩ := reasons_unverified request v hu
      rw [hr]
      constructor
      · intro h
        exact absurd (Option.some.inj h) hne
      rintro ⟨p,hp,-,hall⟩
      rcases List.mem_cons.mp hp with rfl | hp
      · simp [hall p (by simp) le_rfl] at hu
      · simp [hall v (by simp) (hlt p hp).le] at hu
    have hf : v.unverified request = false := by simpa using hu
    rw [reasons_verified request v hf]
    by_cases ha : v.unaccepted request = true
    · rw [if_pos ha]
      refine ⟨fun _ => ⟨v,by simp,ha,?_⟩,fun _ => rfl⟩
      intro w hw hle
      rcases List.mem_cons.mp hw with rfl | hw
      · exact hf
      · exact absurd hle (not_le.mpr (hlt w hw))
    rw [if_neg ha, List.nil_append, ih ht]
    constructor
    · rintro ⟨p,hp,hpa,hall⟩
      refine ⟨p,List.mem_cons_of_mem _ hp,hpa,?_⟩
      intro w hw hle
      rcases List.mem_cons.mp hw with rfl | hw
      · exact hf
      · exact hall w hw hle
    · rintro ⟨p,hp,hpa,hall⟩
      rcases List.mem_cons.mp hp with rfl | hp
      · exact absurd hpa ha
      · exact ⟨p,hp,hpa,fun w hw => hall w (List.mem_cons_of_mem _ hw)⟩

theorem views_head_none (views : List View)
    (h : (views.flatMap (View.reasons request)).head? = none) (v : View) (hv : v ∈ views) :
    v.unverified request = false ∧ v.unaccepted request = false := by
  have hn := List.flatMap_eq_nil_iff.mp (List.head?_eq_none_iff.mp h) v hv
  by_cases hu : v.unverified request = true
  · obtain ⟨r,rest,hr,-⟩ := reasons_unverified request v hu
    rw [hr] at hn
    cases hn
  have hf : v.unverified request = false := by simpa using hu
  rw [reasons_verified request v hf] at hn
  by_cases ha : v.unaccepted request = true
  · rw [if_pos ha] at hn
    cases hn
  · exact ⟨hf,by simpa using ha⟩

def exempt (insufficient : Option String) : Bool := insufficient.all (· == premiseReason)

theorem exempt_iff_shown
    (hs : answers.views.Pairwise (fun a b => a.id < b.id)) :
    (exempt (answers.reasons request).head? = true → ¬answers.Lacking request) ↔
      answers.Shown request := by
  by_cases hp : pageFull answers.page = true
  · have hh : (answers.reasons request).head? = some "constraint_coverage_incomplete" := by
      rw [Answers.reasons, if_pos hp]
      rfl
    refine ⟨fun _ => Or.inl hp,fun _ h => ?_⟩
    rw [hh] at h
    exact absurd h (by decide)
  have hr : answers.reasons request = answers.views.flatMap (View.reasons request)++
      (if answers.serialized.insufficient then ["required_context_does_not_fit"] else []) := by
    rw [Answers.reasons, if_neg hp]
    rfl
  have hpremise := views_head_premise request answers.views hs
  cases hv : answers.views.flatMap (View.reasons request) with
  | nil =>
    have hnone := views_head_none request answers.views (by rw [hv]; rfl)
    refine ⟨fun _ => Or.inr (Or.inl fun p hp' ha => ?_),fun _ h hl => ?_⟩
    · simp [(hnone p hp').2] at ha
    rcases hl with hl | ⟨v,hv',hu⟩ | hl
    · exact hp hl
    · simp [(hnone v hv').1] at hu
    · rw [hr, hv, if_pos hl] at h
      exact absurd h (by decide)
  | cons r rest =>
    rw [hr, hv, List.cons_append, List.head?_cons]
    rw [hv, List.head?_cons, Option.some.injEq] at hpremise
    by_cases hrp : r = premiseReason
    · obtain ⟨p,hpv,hpa,hall⟩ := hpremise.mp hrp
      constructor
      · intro h
        have hl := h (by simp [exempt, hrp])
        refine Or.inr (Or.inr ⟨fun v hv => ?_,?_⟩)
        · exact Bool.eq_false_iff.mpr fun hu => hl (Or.inr (Or.inl ⟨v,hv,hu⟩))
        · exact Bool.eq_false_iff.mpr fun hi => hl (Or.inr (Or.inr hi))
      rintro (h | h | h) _ hl
      · exact hp h
      · obtain ⟨v,hv,hle,hu⟩ := h p hpv hpa
        simp [hall v hv hle] at hu
      rcases hl with hl | ⟨v,hv,hu⟩ | hl
      · exact hp hl
      · simp [h.1 v hv] at hu
      · simp [h.2] at hl
    · refine ⟨fun _ => Or.inr (Or.inl fun p hpv hpa => ?_),fun _ h => ?_⟩
      · by_contra hno
        refine hrp (hpremise.mpr ⟨p,hpv,hpa,fun v hv hle => ?_⟩)
        exact Bool.eq_false_iff.mpr fun hu => hno ⟨v,hv,hle,hu⟩
      · simp [exempt, hrp] at h

def OnlyPremises (reader : Reader) (fire : Fire) (request : ContextRequest)
    (budget : RecallBudget) : Prop :=
  ∃ answers, answersOf reader fire request budget = .ok answers ∧ ¬answers.Lacking request

def Delivers (reader : Reader) (fire : Fire) (request : ContextRequest) (budget : RecallBudget)
    (env : ℕ → Env) : Prop :=
  ∀ n, (env n).context = .ok request ∧ (env n).capture request =
    (Capture.read reader fire request budget).map Capture.delivered

def withSuggestion (suggestion : Except String Proposal) (i : Env) : Env :=
  { i with suggestion := suggestion }

def Consults (host : Host) (wake : WakeRecord) (job : Job) (timedOut : Bool) (env : ℕ → Env)
    (w : World) : Prop :=
  ∃ a b, (outcome (prepareGate host wake job timedOut) (fun n => withSuggestion a (env n)) w).1 ≠
    (outcome (prepareGate host wake job timedOut) (fun n => withSuggestion b (env n)) w).1

structure Unmasked (reader : Reader) (fire : Fire) (request : ContextRequest)
    (budget : RecallBudget) : Prop where
  consults : ∀ host wake job timedOut env w, Delivers reader fire request budget env →
    Consults host wake job timedOut env w → OnlyPremises reader fire request budget
  defers : ∀ host wake job timedOut env w, Delivers reader fire request budget env →
    ∀ prepared, (outcome (prepareGate host wake job timedOut) env w).1 = .ok prepared →
    OnlyPremises reader fire request budget ∨ prepared.decision = .defer
  revalidates : ∀ stored : Capture, stored.request = request →
    stored.revalidate reader fire budget true = .ok () →
    OnlyPremises reader fire request budget

theorem held_iff (insufficient : Option String) :
    insufficient.any (fun r => !true || r != premiseReason) = !exempt insufficient := by
  cases insufficient <;> simp [exempt, bne]

theorem revalidate_eq
    (stored : Capture) (answers : Answers)
    (ha : answersOf reader fire stored.request budget = .ok answers) :
    stored.revalidate reader fire budget true =
      if exempt (answers.reasons stored.request).head? = false then
        .error "current action prerequisites are insufficient"
      else if basisKeys.any (fun k => answers.basis.index k != stored.basis.index k) then
        .error "action basis changed"
      else if answers.views.map View.pin ≠ stored.pins then
        .error "action context or required constraints changed"
      else .ok () := by
  rw [Capture.revalidate, read_eq, ha]
  simp only [Except.map, bind, Except.bind, held_iff, Bool.not_eq_true']
  rfl

theorem revalidate_exempt (stored : Capture)
    (h : stored.revalidate reader fire budget true = .ok ()) : ∃ answers, answersOf reader fire
    stored.request budget = .ok answers ∧ exempt (answers.reasons stored.request).head? = true := by
  cases ha : answersOf reader fire stored.request budget with
  | error e =>
    rw [Capture.revalidate, read_eq, ha] at h
    cases h
  | ok answers =>
    refine ⟨answers,rfl,?_⟩
    rw [revalidate_eq reader fire budget stored answers ha] at h
    by_contra hx
    rw [if_pos (Bool.eq_false_iff.mpr hx)] at h
    cases h

theorem revalidate_fresh (ha : answersOf reader fire request budget = .ok answers)
    (hx : exempt (answers.reasons request).head? = true) : (answers.capture request).revalidate
    reader fire budget true = .ok () := by
  rw [revalidate_eq reader fire budget (answers.capture request) answers ha]
  simp [Answers.capture, hx]

def weigh (host : Host) (wake : WakeRecord) (job : Job) (capture : Action.Capture)
    (proposal : Proposal) : M PreparedGate := do
  let silenceAllowed ← allowed proposal
  let prepared ← prepare host wake job capture (screened host capture silenceAllowed proposal)
  settle host wake job capture prepared

def consider (host : Host) (wake : WakeRecord) (job : Job) (capture : Action.Capture)
    (proposal : Proposal) : M PreparedGate := do
  let fits ← query fun i _ => i.proposalFits proposal
  weigh host wake job capture (bounded capture fits proposal)

theorem prepare_gate_eq :
    prepareGate host wake job timedOut = (do
      let request ← query fun i _ => i.context
      let capture ← readCapture request
      let proposal ← suggest capture timedOut
      consider host wake job capture proposal) :=
  rfl

theorem bounded_defer (fits : Bool) (reason : String) :
    ∃ r, bounded capture fits (.defer reason) = .defer r := by
  have hr : ∃ r, (if !fits then Proposal.defer "proposal_budget_exhausted" else .defer reason) =
      .defer r := by
    cases fits <;> exact ⟨_,rfl⟩
  obtain ⟨r,hr⟩ := hr
  simp only [bounded, hr]
  by_cases hb : blank r = true
  · exact ⟨"proposal_rationale_missing",by simp [Proposal.rationale, hb, Proposal.usedRefs]⟩
  · exact ⟨r,by simp [Proposal.rationale, hb, Proposal.usedRefs]⟩

theorem prepare_defer_blind (a : Except String Proposal) :
    Blind (withSuggestion a) (prepare host wake job capture (.defer reason)) := by
  apply blind_bind
  · exact blind_query _ _ fun _ _ => rfl
  intro receipt
  apply blind_bind
  · apply blind_bind
    · exact blind_query _ _ fun _ _ => rfl
    · intro now
      trivial
  · intro prepared
    apply blind_bind
    · exact blind_query _ _ fun _ _ => rfl
    · intro _
      trivial

theorem prepare_defer (prepared : PreparedGate)
    (h : (outcome (prepare host wake job capture (.defer reason)) env w).1 = .ok prepared) :
    prepared.decision = .defer ∧ prepared.request = none := by
  have hs : Safe (fun _ _ => False) (fun p _ => Drafted host wake.wakeRef (.defer reason) p) Any
      (prepare host wake job capture (.defer reason)) w := prepare_still wake job capture _
  have hd := safe_outcome _ w hs env prepared h
  refine ⟨hd.decision,?_⟩
  cases hr : prepared.request with
  | none => rfl
  | some q =>
    have hact := hd.acts.mp (by rw [hr]; rfl)
    rw [hd.decision] at hact
    cases hact

theorem weigh_defer : (outcome (weigh host wake job capture (.defer reason)) env w).1 =
    (outcome (prepare host wake job capture (.defer reason)) env w).1 := by
  have hd := prepare_defer host wake job capture reason env w
  show (outcome (prepare host wake job capture (.defer reason) >>= settle host wake job capture)
    env w).1 = _
  rw [outcome_bind]
  rcases ho : outcome (prepare host wake job capture (.defer reason)) env w with ⟨_ | p,t,rest⟩
  · rfl
  · simp only [settle, (hd p (by rw [ho])).2]
    rfl

theorem consider_defer :
    (∀ a, (outcome (consider host wake job capture (.defer reason))
        (fun n => withSuggestion a (env n)) w).1 =
      (outcome (consider host wake job capture (.defer reason)) env w).1) ∧
    ∀ prepared, (outcome (consider host wake job capture (.defer reason)) env w).1 =
      .ok prepared → prepared.decision = .defer := by
  simp only [consider, outcome_bind, outcome_query]
  have hsame : ∀ a, (withSuggestion a (env 0)).proposalFits (.defer reason) =
      (env 0).proposalFits (.defer reason) := fun _ => rfl
  simp only [hsame]
  cases (env 0).proposalFits (.defer reason) with
  | error e => exact ⟨fun _ => rfl,fun _ h => nomatch h⟩
  | ok fits =>
    obtain ⟨r,hr⟩ := bounded_defer capture fits reason
    simp only [hr, weigh_defer]
    constructor
    · intro a
      exact outcome_blind _ _ (prepare_defer_blind host wake job capture r a) _ _
    · intro prepared h
      exact (prepare_defer host wake job capture r _ _ prepared h).1

theorem suggest_held
    (h : exempt capture.insufficient = false) :
    ∃ reason : Bool → String, suggest capture timedOut = (do
      let fits ← query fun i _ => i.inputFits
      pure (.defer (reason fits))) := by
  cases hi : capture.insufficient with
  | none => simp [hi, exempt] at h
  | some r =>
    have hr : (r != "premise_unknown_or_not_accepted") = true := by
      simpa [hi, exempt, premiseReason, bne] using h
    refine ⟨fun fits => if !fits then "gate_input_budget_exhausted"
      else if timedOut then "clarification_timeout_no_consent" else r,?_⟩
    simp only [suggest, hi, Option.filter, hr]
    congr 1
    funext fits
    cases fits <;> cases timedOut <;> rfl

theorem suggest_exempt (h : exempt capture.insufficient = true) :
    suggest capture false = (do
      let fits ← query fun i _ => i.inputFits
      if !fits then pure (.defer "gate_input_budget_exhausted")
      else query fun i _ => i.suggestion) := by
  have hf : capture.insufficient.filter (· != "premise_unknown_or_not_accepted") = none := by
    cases hi : capture.insufficient with
    | none => rfl
    | some r =>
      have hr : r = "premise_unknown_or_not_accepted" := by
        simpa [hi, exempt, premiseReason] using h
      rw [hr]
      rfl
  simp only [suggest, hf]
  rfl

theorem read_capture_outcome
    (capture : Action.Capture) (h : (env 0).capture request = .ok capture)
    (hr : capture.request = request) :
    outcome (readCapture request) env w = (.ok capture,w,fun n => env (n+1)) := by
  have hc : { capture with request := request } = capture := by rw [← hr]
  rw [readCapture, outcome_bind, outcome_query, h]
  simp only [hc]
  rfl

theorem prepare_gate_outcome
    (ha : answersOf reader fire request budget = .ok answers)
    (he : Delivers reader fire request budget env) :
    outcome (prepareGate host wake job timedOut) env w =
      outcome (suggest (answers.capture request).delivered timedOut >>=
        consider host wake job (answers.capture request).delivered) (fun n => env (n+2)) w := by
  have hc : (env 1).capture request = .ok (answers.capture request).delivered := by
    rw [(he 1).2, read_eq, ha]
    rfl
  rw [prepare_gate_eq, outcome_bind, outcome_query, (he 0).1]
  simp only []
  rw [outcome_bind, read_capture_outcome request _ w _ hc rfl]

/-- A context that is held back keeps the policy out of what the gate prepares. -/
theorem gate_held (ha : answersOf reader fire request budget = .ok answers)
    (he : Delivers reader fire request budget env)
    (hx : exempt (answers.reasons request).head? = false) : ¬Consults host wake job timedOut env w ∧
    ∀ prepared, (outcome (prepareGate host wake job timedOut) env w).1 = .ok prepared →
    prepared.decision = .defer := by
  obtain ⟨reason,hs⟩ := suggest_held (answers.capture request).delivered timedOut hx
  have hone : ∀ env', Delivers reader fire request budget env' →
      (outcome (prepareGate host wake job timedOut) env' w).1 =
        match (env' 2).inputFits with
        | .error e => .error e
        | .ok fits => (outcome (consider host wake job (answers.capture request).delivered
            (.defer (reason fits))) (fun n => env' (n+3)) w).1 := by
    intro env' he'
    rw [prepare_gate_outcome reader fire request budget answers host wake job timedOut env' w ha
      he', hs, outcome_bind, outcome_bind, outcome_query]
    cases (env' 2).inputFits <;> rfl
  constructor
  · rintro ⟨a,b,hne⟩
    have hsame : ∀ a, (outcome (prepareGate host wake job timedOut)
        (fun n => withSuggestion a (env n)) w).1 =
        (outcome (prepareGate host wake job timedOut) env w).1 := by
      intro a
      rw [hone _ he, hone (fun n => withSuggestion a (env n)) he]
      show (match (env 2).inputFits with | .error e => _ | .ok fits => _) = _
      cases (env 2).inputFits with
      | error e => rfl
      | ok fits => exact (consider_defer host wake job _ (reason fits) _ w).1 a
    rw [hsame, hsame] at hne
    exact hne rfl
  · intro prepared hp
    rw [hone env he] at hp
    cases hf : (env 2).inputFits with
    | error e =>
      rw [hf] at hp
      cases hp
    | ok fits =>
      rw [hf] at hp
      exact (consider_defer host wake job _ (reason fits) _ w).2 prepared hp

theorem gate_consults (ha : answersOf reader fire request budget = .ok answers)
    (he : Delivers reader fire request budget env) (hf : (env 2).inputFits = .ok true)
    (hx : exempt (answers.reasons request).head? = true) : Consults host wake job false env w := by
  have hone : ∀ e, (outcome (prepareGate host wake job false)
      (fun n => withSuggestion (.error e) (env n)) w).1 = .error e := by
    intro e
    have hf' : (withSuggestion (.error e) (env 2)).inputFits = .ok true := hf
    rw [prepare_gate_outcome reader fire request budget answers host wake job false
      (fun n => withSuggestion (.error e) (env n)) w ha he, suggest_exempt _ hx]
    simp only [outcome_bind, outcome_query, Nat.zero_add, hf']
    rfl
  refine ⟨.error "first",.error "second",?_⟩
  rw [hone, hone]
  decide

theorem gate_unread (e : String) (host : Host) (wake : WakeRecord) (job : Job) (timedOut : Bool)
    (env : ℕ → Env) (w : World) (ha : answersOf reader fire request budget = .error e)
    (he : Delivers reader fire request budget env) :
    (outcome (prepareGate host wake job timedOut) env w).1 = .error e := by
  have hc : (env 1).capture request = .error e := by
    rw [(he 1).2, read_eq, ha]
    rfl
  rw [prepare_gate_eq, outcome_bind, outcome_query, (he 0).1]
  simp only [readCapture, outcome_bind, outcome_query, hc]

/-- The order of the references decides: no insufficiency is hidden exactly when
every unaccepted premise comes after another reason in the order of the
references, or there is no other reason. -/
theorem insufficiency_unmasked_iff (reader : Reader) (fire : Fire) (request : ContextRequest)
    (budget : RecallBudget) : Unmasked reader fire request budget ↔ ∀ answers, answersOf reader fire
    request budget = .ok answers → answers.Shown request := by
  constructor
  · intro h answers ha
    rw [← exempt_iff_shown request answers (answers_sorted reader fire request budget answers ha)]
    intro hx
    obtain ⟨answers',ha',hl⟩ := h.revalidates (answers.capture request) rfl
      (revalidate_fresh reader fire request budget answers ha hx)
    rw [ha] at ha'
    cases ha'
    exact hl
  intro h
  have hgood : ∀ answers, answersOf reader fire request budget = .ok answers →
      exempt (answers.reasons request).head? = true →
      OnlyPremises reader fire request budget := by
    intro answers ha hx
    exact ⟨answers,ha,(exempt_iff_shown request answers
      (answers_sorted reader fire request budget answers ha)).mpr (h answers ha) hx⟩
  constructor
  · intro host wake job timedOut env w he hc
    cases ha : answersOf reader fire request budget with
    | error e =>
      obtain ⟨a,b,hne⟩ := hc
      rw [gate_unread reader fire request budget e host wake job timedOut _ w ha
        (show Delivers reader fire request budget (fun n => withSuggestion a (env n)) from he),
        gate_unread reader fire request budget e host wake job timedOut _ w ha
        (show Delivers reader fire request budget (fun n => withSuggestion b (env n)) from he)]
        at hne
      exact absurd rfl hne
    | ok answers =>
      apply hgood answers ha
      by_contra hx
      exact (gate_held reader fire request budget answers host wake job timedOut env w ha he
        (Bool.eq_false_iff.mpr hx)).1 hc
  · intro host wake job timedOut env w he prepared hp
    cases ha : answersOf reader fire request budget with
    | error e =>
      rw [gate_unread reader fire request budget e host wake job timedOut env w ha he] at hp
      cases hp
    | ok answers =>
      by_cases hx : exempt (answers.reasons request).head? = true
      · exact Or.inl (hgood answers ha hx)
      · exact Or.inr ((gate_held reader fire request budget answers host wake job timedOut env w
          ha he (Bool.eq_false_iff.mpr hx)).2 prepared hp)
  · intro stored hs hr
    obtain ⟨answers,ha,hx⟩ := revalidate_exempt reader fire budget stored hr
    rw [hs] at ha hx
    exact hgood answers ha hx

/-- A premise `P-1` that is not accepted comes before a watch `X-2` whose
dependencies are not verified. -/
def maskedRow (id : String) : Json :=
  .obj [("id",.str id),("_system",.obj (("version",.int 1)::
    if id = "X-2" then [("dependency_validity",.obj [("action_eligible",.bool false)])] else []))]

def maskedReader : Reader where
  session := {
    parse := .ok
    findElement := fun _ id _ => .ok (.arr [maskedRow id])
    findBelief := fun _ _ => .ok (.arr [.obj [("basis",.obj [("snapshot_seq",.int 7)]),
      ("status",.str "contested")]])
    findCommitments := fun _ => .ok (.arr []) }
  codec := ⟨fun _ => .ok "packet",fun _ => .ok 1,fun _ => .ok 1⟩
  decode := fun _ => .ok (nullPacket RecallBudget.default)

def maskedFire : Fire := ⟨"X-2","X-3"⟩

def maskedRequest : ContextRequest where
  recallReceipt := none
  anchor := "P-1"
  requiredRefs := []
  premises := ["P-1"]
  appliedRevisions := []
  taskFamily := "brain.reply"
  environmentDigest := "sha256:0000000000000000000000000000000000000000000000000000000000000000"
  toolVersions := []
  deduplicationKey := none

def maskedEnv (_ : ℕ) : Env :=
  { sampleEnv .act firstAttempt .null 0 [] with
    context := .ok maskedRequest
    capture := fun request =>
      (Capture.read maskedReader maskedFire request RecallBudget.default).map Capture.delivered }

theorem masked_answers : ((answersOf maskedReader maskedFire maskedRequest
    RecallBudget.default).toOption.any fun answers =>
      exempt (answers.reasons maskedRequest).head? &&
        answers.views.any (View.unverified maskedRequest)) = true := by
  decide +kernel

/-- The gate asks its policy and the question is revalidated, although the watch
is not verified. -/
theorem masked_insufficiency : ¬Unmasked maskedReader maskedFire maskedRequest RecallBudget.default
    ∧ Consults sampleHost ⟨"first",1,1,.pending⟩ (Job.new sampleHost "first") false maskedEnv
    (reached sampleHost []) := by
  have hm := masked_answers
  cases ha : answersOf maskedReader maskedFire maskedRequest RecallBudget.default with
  | error e =>
    rw [ha] at hm
    cases hm
  | ok answers =>
    rw [ha] at hm
    obtain ⟨hx,hu⟩ : exempt (answers.reasons maskedRequest).head? = true ∧
        answers.views.any (View.unverified maskedRequest) = true := by
      simpa [Except.toOption] using hm
    have hl : answers.Lacking maskedRequest := Or.inr (Or.inl (by simpa using hu))
    constructor
    · intro h
      obtain ⟨answers',ha',hn⟩ := h.revalidates (answers.capture maskedRequest) rfl
        (revalidate_fresh _ _ _ _ answers ha hx)
      rw [ha] at ha'
      cases ha'
      exact hn hl
    · exact gate_consults maskedReader maskedFire maskedRequest RecallBudget.default answers _ _ _
        maskedEnv _ ha (fun _ => ⟨rfl,rfl⟩) rfl hx

end AndaBrain.ActionContext
