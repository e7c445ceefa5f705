import AndaBrain.Intake
import AndaBrain.Foundation.Utf8Text
import AndaBrain.Foundation.SortBy
import AndaBrain.Foundation.LongestFit

/-!
# The briefing of a recall

`memory_interface/recall.rs` from the host reads to the briefing: the items of the Recall pass and
of five channels are merged, sorted, cut to the schema bound and then to the output budget, and
what the budget removes marks a channel incomplete.
-/

set_option autoImplicit false

namespace AndaBrain.Recall
open Foundation.Utf8Text Foundation.SortBy Foundation.LongestFit
open Intake (Scope ResolvedScope Progress)

def channelLimit : ℕ := 32
def searchLimit : ℕ := 8
def maxItems : ℕ := 128

inductive ItemRole where
  | constraint
  | warning
  | fact
  | procedure
  | experience
  | source
  deriving DecidableEq

inductive EpistemicStatus where
  | accepted
  | rejected
  | contested
  | uncertain
  | insufficient
  | notApplicable
  deriving DecidableEq

def EpistemicStatus.debug : EpistemicStatus → String
  | .accepted => "Accepted"
  | .rejected => "Rejected"
  | .contested => "Contested"
  | .uncertain => "Uncertain"
  | .insufficient => "Insufficient"
  | .notApplicable => "NotApplicable"

inductive Standing where
  | unproven
  | revoked
  deriving DecidableEq

structure MemoryItem where
  reference : String
  text : String
  role : ItemRole
  epistemicStatus : EpistemicStatus
  evidenceRefs : List String
  actionEligible : Bool
  standing : Option Standing
  deriving DecidableEq

abbrev Pins := List (String × ℕ)

structure Candidate where
  item : MemoryItem
  pins : Pins
  required : Bool
  deriving DecidableEq

structure Plan where
  exact : Bool
  complete : Bool
  truncation : Option String
  deriving DecidableEq

inductive ChannelState where
  | complete
  | incomplete
  | notApplicable
  deriving DecidableEq

namespace Plan

def exactRead (truncated : Bool) : Plan :=
  ⟨true,!truncated,if truncated then some "page_limit" else none⟩

def approximate (ok : Bool) : Plan := ⟨false,ok,if ok then none else some "unsupported"⟩

def failed (reason : String) : Plan := ⟨true,false,some reason⟩

def state (plan : Plan) : ChannelState := if plan.complete then .complete else .incomplete

end Plan

inductive Channel where
  | constraints
  | commitments
  | dependencies
  | failures
  | experiences
  | skills
  | evidence
  deriving DecidableEq

inductive RecallMode where
  | answer
  | action
  | resume
  deriving DecidableEq

inductive ElementKind where
  | concept
  | proposition
  | assertion
  | evidence
  | activity
  deriving DecidableEq

/-- The memory a briefing reads, at its sequence, scope and world time. The row
found by an id carries it. -/
structure Snapshot where
  rows : String → Option Json
  kind : String → Option ElementKind
  belief : String → Except KipError Json
  claims : String → Except KipError (List Json)
  render : Json → String
  named : ∀ id row, rows id = some row → (row.index "id").asStr = some id

def truncate (text : String) (max : ℕ) : String :=
  if byteLen text.toList ≤ max then text
  else
    let stop := floorFrom text.toList (max - 3)
    String.ofList ((slice text.toList 0 stop).getD [])++"..."

def isBlank (text : String) : Bool := text.toList.all isWhitespace

def nonblank (text fallback : String) : String :=
  if isBlank text then fallback else truncate text 4096

def statusOf (value : String) : EpistemicStatus :=
  if value = "accepted" then .accepted
  else if value = "rejected" then .rejected
  else if value = "contested" then .contested
  else if value = "uncertain" then .uncertain
  else .insufficient

def localName (reference : String) : String :=
  String.ofList (reference.toList.reverse.takeWhile (· != '/')).reverse

def stringsOf (value : Json) (f : Json → Option String) : List String :=
  (value.asArray.getD []).filterMap f

def conceptScope (row : Json) : Option String × List String :=
  match ((row.get "facets").bind Json.asObject).bind
      fun facets => facets.find? fun f => localName f.1 == "MemoryScope" with
  | none => (none,[])
  | some facet =>
    ((facet.2.index "task_ref").asStr,stringsOf (facet.2.index "context_refs") Json.asStr)

def referenceId (value : Json) : Option String :=
  match value.asStr with
  | some id => some id
  | none => (value.index "id").asStr

def versionOf (row : Json) : ℕ := ((row.index "_system").index "version").asU64.getD 0

def dependencyCaveat (row : Json) : Option String :=
  let validity := (row.index "_system").index "dependency_validity"
  let status := match (validity.get "status").bind Json.asStr with
    | some status => some status
    | none => validity.asStr
  status.filter fun status => status == "needs_review" || status == "unverifiable"

/-- A stored task must be this task, and every stored context in this set. -/
def admits (scope : ResolvedScope) (storedTask : Option String) (storedContexts : List String) :
    Bool :=
  if storedTask.isSome && scope.task != storedTask then false
  else storedContexts.all fun context => scope.contexts.contains context

def inScope (scope : ResolvedScope) (row : Json) : Bool :=
  let (task,contexts) := conceptScope row
  admits scope task contexts

def optionOr (a b : Option String) : Option String :=
  match a with
  | some x => some x
  | none => b

structure Kind where
  role : ItemRole
  status : EpistemicStatus
  standing : Option Standing
  text : String
  required : Bool

def conceptKind (row : Json) (required : Bool) : Option Kind :=
  let typeName := ((row.index "schema_ref").asStr.map localName).getD ""
  let attributes := row.index "attributes"
  let name := (row.index "name").asStr.getD ""
  let summary := (optionOr (attributes.index "summary").asStr
    (attributes.index "goal").asStr).getD name
  if typeName = "Insight" then
    if (attributes.index "insight_class").isStr "constraint" then
      some ⟨.constraint,.accepted,none,"Constraint: "++summary,true⟩
    else some ⟨.fact,.uncertain,none,"Insight: "++summary,required⟩
  else if typeName = "Commitment" then
    let due := match (attributes.index "due_at").asStr with
      | some due => ", due "++due
      | none => ""
    some ⟨.constraint,.accepted,none,"Open commitment ("++
      (attributes.index "status").asStr.getD "pending"++"): "++summary++due,required⟩
  else if typeName = "Experience" ∨ typeName = "Event" then
    let outcome := (attributes.index "outcome_status").asStr.getD "unknown"
    if outcome = "failure" ∨ outcome = "aborted" then
      some ⟨.warning,.uncertain,none,"Past failure ("++outcome++"): "++summary,true⟩
    else
      some ⟨.experience,.notApplicable,none,"Experience ("++outcome++"): "++summary,required⟩
  else if typeName = "Skill" then
    let revoked := (((row.index "_system").index "lifecycle").index "status").isStr "revoked" ||
      (attributes.index "status").isStr "revoked"
    some ⟨.procedure,.notApplicable,some (if revoked then .revoked else .unproven),
      "Procedure candidate (unproven, grants no permission): "++name,required⟩
  else none

def plainItem (text : String) (role : ItemRole) (status : EpistemicStatus)
    (evidenceRefs : List String) (standing : Option Standing) : MemoryItem :=
  ⟨"",text,role,status,evidenceRefs,false,standing⟩

/-- A Concept as a briefing item. The host's own scope handles are bookkeeping. -/
def conceptItem (row : Json) (required : Bool) : Option Candidate :=
  match (row.index "id").asStr with
  | none => none
  | some id =>
    if ((row.index "attributes").index "event_class").isStr "memory_scope" then none
    else (conceptKind row required).map fun kind =>
      ⟨plainItem (truncate kind.text 4096) kind.role kind.status [] kind.standing,
        [(id,versionOf row)],kind.required⟩

def roleRank : ItemRole → ℕ
  | .constraint => 0
  | .warning => 1
  | .fact => 2
  | .procedure => 3
  | .experience => 4
  | .source => 5

def endpointText (s : Snapshot) (value : Json) : String :=
  (((referenceId value).bind s.rows).bind fun row => (row.index "name").asStr).getD
    (s.render value)

def claimAdmitted (scope : ResolvedScope) (claim : Json) : Bool :=
  ((claim.index "_system").index "state").isStr "active" &&
  !(((claim.index "_system").index "recording_validity").index "status").isStr "invalidated" &&
  admits scope none (stringsOf (claim.index "context_refs") referenceId)

def predicateOf (prop : Json) : String :=
  ((prop.index "predicate_ref").asStr.map localName).getD "?"

def statusIn (belief : Json) : EpistemicStatus :=
  statusOf ((belief.index "status").asStr.getD "")

def citedAssertion (s : Snapshot) (id : String) (row : Json) : Option Candidate := do
  let proposition ← optionOr (referenceId (row.index "proposition"))
    (row.index "proposition_id").asStr
  let prop ← s.rows proposition
  let belief ← (s.belief proposition).toOption
  let text := endpointText s (prop.index "subject")++" · "++predicateOf prop++" · "++
    endpointText s (prop.index "object")++" (claimed by "++
    endpointText s (row.index "asserted_by")++")"
  some ⟨plainItem (truncate text 4096) .fact (statusIn belief)
      ((stringsOf (row.index "evidence") referenceId).take 32) none,
    [(id,versionOf row),(proposition,versionOf prop)],false⟩

def supportOf (belief : Json) : List String :=
  (stringsOf (belief.index "support") fun a =>
    optionOr (a.index "assertion_id").asStr (a.index "id").asStr).take 32

def citedProposition (s : Snapshot) (id : String) (row : Json) : Option Candidate := do
  let belief ← (s.belief id).toOption
  let text := s.render (row.index "subject")++" · "++predicateOf row++" · "++
    s.render (row.index "object")
  some ⟨plainItem (truncate text 4096) .fact (statusIn belief) (supportOf belief) none,
    [(id,versionOf row)],false⟩

/-- One cited element. `none` when it is not memory a briefing reports,
`some none` when it is out of scope. -/
def citedItem (s : Snapshot) (scope : ResolvedScope) (id : String) : Option (Option Candidate) :=
  match s.kind id with
  | none => none
  | some kind =>
    match s.rows id with
    | none => some none
    | some row =>
      if !((row.index "_system").index "state").isStr "active" then some none
      else match kind with
        | .assertion =>
          if !claimAdmitted scope row then some none else (citedAssertion s id row).map some
        | .proposition =>
          match s.claims id with
          | .error _ => none
          | .ok claims =>
            if !claims.any (claimAdmitted scope) then some none
            else (citedProposition s id row).map some
        | .concept => if !inScope scope row then some none else (conceptItem row false).map some
        | .evidence =>
          if !inScope scope row then some none
          else some (some ⟨plainItem (truncate ("Source: "++s.render (row.index "payload")) 4096)
            .source .notApplicable [id] none,[(id,versionOf row)],false⟩)
        | .activity => none

def citedRead (s : Snapshot) (scope : ResolvedScope) (read : String × ℕ) :
    Option (Option Candidate) :=
  if 0 < read.2 ∧ (s.rows read.1).all (fun row => versionOf row != read.2) = true then some none
  else citedItem s scope read.1

structure Trace where
  reads : List (String × ℕ)
  distinct : (reads.map Prod.fst).Nodup

inductive Pass where
  | answered (answer : String) (trace : Trace)
  | incomplete (reason : String)
  | failed (error : String)
  | deadline

/-- A search serves the live index, which may be past the snapshot before the
search or after it. -/
structure SearchRead where
  current : Bool
  rows : Except KipError (List Json)
  stillCurrent : Bool

def exactChannel (scope : ResolvedScope) (read : Except KipError (List Json)) :
    List Candidate × Plan :=
  match read with
  | .error _ => ([],.failed "unsupported")
  | .ok rows =>
    (((rows.take channelLimit).filter (inScope scope)).filterMap (conceptItem · true),
      .exactRead (decide (channelLimit < rows.length)))

def searchChannel (s : Snapshot) (scope : ResolvedScope) (query : String)
    (read : SearchRead) : List Candidate × Plan :=
  if !isBlank query && !read.current then ([],.failed "unsupported")
  else match read.rows with
    | .error _ => ([],.failed "unsupported")
    | .ok rows =>
      let found := (rows.take searchLimit).filterMap fun row =>
        s.rows ((row.index "id").asStr.getD "")
      let items := (found.filter (inScope scope)).filterMap (conceptItem · false)
      (items, if !read.stillCurrent then .failed "unsupported"
        else if isBlank query && decide (searchLimit < rows.length) then .exactRead true
        else .approximate true)

structure Reading where
  snapshot : Snapshot
  scope : ResolvedScope
  mode : RecallMode
  query : Option String
  pass : Pass
  constraints : Except KipError (List Json)
  commitments : Except KipError (List Json)
  failures : SearchRead
  experiences : SearchRead
  skills : SearchRead
  after : List Progress
  pending : List String
  uncertainties : List String
  attention : Option (List Json × String)
  basisId : String

namespace Reading
variable (r : Reading)

def asked : Bool := (r.query.filter fun q => !isBlank q).isSome

def reads : List (String × ℕ) :=
  if r.asked then match r.pass with
    | .answered _ trace => trace.reads
    | _ => []
  else []

def cited : List Candidate :=
  (r.reads.filterMap (citedRead r.snapshot r.scope)).filterMap id

def dropped : Bool := r.reads.any fun read => citedRead r.snapshot r.scope read == some none

def evidencePlan : Plan :=
  if r.asked then match r.pass with
    | .answered _ _ => .approximate true
    | .incomplete _ => .failed "unsupported"
    | .failed _ => .failed "unsupported"
    | .deadline => .failed "deadline"
  else .approximate false

def passUncertainty : List String :=
  if r.asked then match r.pass with
    | .answered _ _ => []
    | .incomplete reason => ["the recall pass did not complete: "++reason]
    | .failed error => ["the recall pass failed: "++error]
    | .deadline => ["the recall pass reached the deadline"]
  else []

def answer : String :=
  if r.asked && !r.dropped then match r.pass with
    | .answered answer _ => answer
    | _ => ""
  else ""

def warnings : List String :=
  if r.dropped then ["the recall pass read unavailable, invalidated or out-of-scope memory; its summary was replaced with verified items"]
  else []

def read : Channel → List Candidate × Plan
  | .constraints => exactChannel r.scope r.constraints
  | .commitments => exactChannel r.scope r.commitments
  | .dependencies => ([],.exactRead false)
  | .failures => searchChannel r.snapshot r.scope (r.query.getD "") r.failures
  | .experiences => searchChannel r.snapshot r.scope (r.query.getD "") r.experiences
  | .skills => searchChannel r.snapshot r.scope (r.query.getD "") r.skills
  | .evidence => (r.cited,r.evidencePlan)

def gathered (channel : Channel) : List Candidate := (r.read channel).1

def plans (channel : Channel) : Plan := (r.read channel).2

end Reading

def mergeInto (held : List Candidate) : List Candidate → List Candidate
  | [] => held
  | candidate::rest =>
    if held.any (fun c => c.pins == candidate.pins) then mergeInto held rest
    else mergeInto (held++[candidate]) rest

def hostChannels : List Channel := [.constraints,.commitments,.failures,.experiences,.skills]

def dependencyWarning (id : String) (row : Json) (status : String) : Candidate :=
  ⟨plainItem (id++" depends on memory that changed ("++status++"); review before relying on it")
    .warning .uncertain [id] none,[(id,versionOf row)],true⟩

def caveats (s : Snapshot) (candidate : Candidate) : List Candidate :=
  candidate.pins.filterMap fun pin =>
    (s.rows pin.1).bind fun row => (dependencyCaveat row).map (dependencyWarning pin.1 row)

def sortsBefore (a b : Candidate) : Bool :=
  if a.required == b.required then decide (roleRank a.item.role ≤ roleRank b.item.role)
  else a.required

namespace Reading
variable (r : Reading)

def merged : List Candidate :=
  mergeInto r.cited (hostChannels.flatMap r.gathered)

def dependencyWarnings : List Candidate := r.merged.flatMap (caveats r.snapshot)

def candidates : List Candidate := r.merged++r.dependencyWarnings

def notAccepted (candidate : Candidate) : Bool :=
  (candidate.item.epistemicStatus == .contested || candidate.item.epistemicStatus == .uncertain) &&
  (candidate.item.role == .fact || candidate.item.role == .constraint)

def unverified : List String :=
  r.dependencyWarnings.map (fun c => c.item.text)++
  if r.mode = .action then (r.candidates.filter notAccepted).map fun c =>
    (c.pins.head?.map Prod.fst).getD "an item"++" is "++c.item.epistemicStatus.debug++
      ", not accepted"
  else []

def allUncertainties : List String :=
  r.uncertainties++r.passUncertainty++
  if r.candidates.isEmpty && r.query.isSome then
    ["no recorded memory answers this; the basis is insufficient, which is not a no"]
  else []

def ranked : List Candidate := (sortBy sortsBefore r.candidates).take maxItems

def noMemory : String := "No recorded memory bears on this in scope."

def summary : String :=
  let lines := (r.ranked.take 12).map fun c => "- "++c.item.text
  let fallback := if lines.isEmpty then noMemory else "\n".intercalate lines
  nonblank (if isBlank r.answer then fallback else r.answer) noMemory

end Reading

structure Coverage where
  requested : Scope
  channels : Channel → ChannelState
  pendingReceipts : List String
  unverifiedPreconditions : List String
  complete : Bool
  actionEligible : Bool

structure Briefing where
  summary : String
  items : List MemoryItem
  uncertainties : List String
  basisRef : String
  coverage : Coverage
  after : List Progress
  attention : Option (List Json × String)

/-- The wire library's derived flags and the counter of the serialized briefing. -/
structure Wire where
  complete : (Channel → ChannelState) → List String → Bool
  actionEligible : (Channel → ChannelState) → List String → List String → Bool
  countTokens : Briefing → Except KipError ℕ

def charged : ItemRole → Channel
  | .experience => .experiences
  | .procedure => .skills
  | _ => .evidence

def overBudget (plans : Channel → Plan) (removed : Candidate) : Channel → Plan :=
  fun channel =>
    if channel = charged removed.item.role then
      { plans channel with complete := false, truncation := some "budget" }
    else plans channel

def dedup (values : List String) : List String :=
  (values.foldl (fun seen v => if v ∈ seen then seen else seen++[v]) []).take 128

def delivered (basisId : String) (eligible : Bool) (entry : Candidate × ℕ) : MemoryItem :=
  { entry.1.item with
    reference := basisId++":"++toString entry.2
    actionEligible := eligible && entry.1.item.epistemicStatus == .accepted &&
      (entry.1.item.role == .fact || entry.1.item.role == .constraint) }

def plansFor (r : Reading) (kept : ℕ) : Channel → Plan :=
  (r.ranked.drop kept).foldl overBudget r.plans

def coverageOf (wire : Wire) (r : Reading) (plans : Channel → Plan) : Coverage :=
  let channels := fun channel => (plans channel).state
  ⟨r.scope.requested,channels,r.pending,r.unverified,wire.complete channels r.pending,
    wire.actionEligible channels r.pending r.unverified⟩

def briefingOf (wire : Wire) (r : Reading) (kept : ℕ) : Briefing :=
  let coverage := coverageOf wire r (plansFor r kept)
  ⟨r.summary,(r.ranked.take kept).zipIdx.map (delivered r.basisId coverage.actionEligible),
    dedup r.allUncertainties,r.basisId,coverage,r.after,r.attention⟩

def fitting (wire : Wire) (r : Reading) (maxTokens kept : ℕ) :
    Except KipError (Option Briefing) :=
  (wire.countTokens (briefingOf wire r kept)).map fun tokens =>
    if tokens ≤ maxTokens then some (briefingOf wire r kept) else none

def requiredCount (candidates : List Candidate) : ℕ :=
  (candidates.takeWhile Candidate.required).length

structure Recalled where
  briefing : Briefing
  pins : List (String × Pins)
  warnings : List String

def limitExceeded (maxTokens : ℕ) : KipError :=
  ⟨.resultLimitExceeded,"the required constraints, warnings and coverage need more than "++
    toString maxTokens++" tokens under o200k_base@tiktoken-rs-0.12"⟩

def resultTooLong (tokens maxTokens : ℕ) : KipError :=
  ⟨.resultLimitExceeded,"the result needs "++toString tokens++" tokens; the budget is "++
    toString maxTokens⟩

def briefingResponse (wire : Wire) (recalled : Recalled) (maxTokens : ℕ) :
    Except KipError Recalled := do
  let tokens ← wire.countTokens recalled.briefing
  if maxTokens < tokens then .error (resultTooLong tokens maxTokens) else .ok recalled

def memoryRecall (wire : Wire) (r : Reading) (maxTokens : ℕ) (retained : Except KipError Unit) :
    Except KipError Recalled := do
  match ← longestFitting (requiredCount r.ranked) r.ranked.length (fitting wire r maxTokens) with
  | none => .error (limitExceeded maxTokens)
  | some (kept,briefing) =>
    let pins := (briefing.items.zip (r.ranked.take kept)).map fun x => (x.1.reference,x.2.pins)
    retained
    briefingResponse wire ⟨briefing,pins,r.warnings⟩ maxTokens

end AndaBrain.Recall
