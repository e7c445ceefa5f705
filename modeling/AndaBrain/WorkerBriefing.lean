import AndaBrain.Foundation.LongestFit
import AndaBrain.WorkerGate
import AndaBrain.WorkerLedger

/-!
# Briefings of the Worker

`collect`, `assemble` and `deliver` of `memory-ledger.ts`. The engine commits nothing between the
reads of one call, so it is one function from commands to answers.
-/

set_option autoImplicit false

namespace AndaBrain.WorkerMemory
open Foundation.SortBy Foundation.LongestFit
open Worker (localName isBlank)

def channelLimit : ℕ := 32

def searchLimit : ℕ := 8

inductive Role where
  | fact
  | constraint
  | experience
  | procedure
  | warning
  | source
  deriving DecidableEq

inductive EpistemicStatus where
  | accepted
  | rejected
  | contested
  | uncertain
  | insufficient
  | notApplicable
  deriving DecidableEq

def EpistemicStatus.wire : EpistemicStatus → String
  | .accepted => "accepted"
  | .rejected => "rejected"
  | .contested => "contested"
  | .uncertain => "uncertain"
  | .insufficient => "insufficient"
  | .notApplicable => "not_applicable"

inductive Standing where
  | unproven
  | revoked
  deriving DecidableEq

structure MemoryItem where
  ref : String
  text : String
  role : Role
  epistemicStatus : EpistemicStatus
  evidenceRefs : List String
  actionEligible : Bool
  standing : Option Standing
  deriving DecidableEq

structure Candidate where
  item : MemoryItem
  pins : List (String × ℚ)
  required : Bool
  deriving DecidableEq

/-- `pins[0]?.[0]`. -/
def Candidate.pin (candidate : Candidate) : Option String := candidate.pins.head?.map Prod.fst

inductive Channel where
  | constraints
  | commitments
  | dependencies
  | failures
  | experiences
  | skills
  | evidence
  deriving DecidableEq

def channels : List Channel :=
  [.constraints, .commitments, .dependencies, .failures, .experiences, .skills, .evidence]

structure Plan where
  exact : Bool
  complete : Bool
  truncation : Option String
  deriving DecidableEq

inductive ChannelState where
  | complete
  | incomplete
  | notApplicable
  deriving DecidableEq

structure Coverage where
  complete : Bool
  scope : Scope
  channels : Channel → ChannelState
  pendingReceipts : List String
  unverifiedPreconditions : List String
  actionEligible : Bool

structure AttentionItem where
  ref : String
  kind : String
  summary : String
  raisedSeq : ℕ
  dueAt : Option String
  targetRefs : List String
  priority : Option ℚ

structure Briefing where
  summary : String
  items : List MemoryItem
  uncertainties : List String
  basisRef : String
  coverage : Coverage
  after : List Progress
  attention : Option (List AttentionItem)
  attentionCursor : Option String

structure Options where
  mode : String
  validAt : Option String
  asOfSeq : Option ℕ
  query : Option String
  after : List Progress
  uncertainties : List String
  evidenceComplete : Bool
  summary : Option String
  attention : Option (List AttentionItem)
  attentionCursor : Option String
  warnings : List String

/-- What the engine answers to a command, and the name of a loaded Concept. -/
structure EngineReads where
  query : String → List (String × Json) → Except Failure (List Json)
  conceptName : ElementId → Option String

/-- `String(value)`, `JSON.stringify(value)`, `text.slice(0, n)` over UTF-16 units, and the
UTF-8 bytes of a serialized briefing. -/
structure Wire where
  shown : Json → String
  stringify : Json → String
  clip : ℕ → String → String
  size : Briefing → ℕ

/-! ## Rows -/

/-- `isJsonMap`. -/
def isMap (value : Json) : Bool := value.asObject.isSome

def stringAt (value : Json) (key : String) : Option String := (value.get key).bind Json.asStr

def numberOf : Json → Option ℚ
  | .int n => some n
  | .float (.finite q) => some q
  | _ => none

/-- `value.key ?? fallback`, as text. -/
def shownAt (wire : Wire) (value : Json) (key fallback : String) : String :=
  match value.get key with
  | none | some .null => fallback
  | some found => wire.shown found

def refIds (refs : List Json) : List String :=
  refs.flatMap fun ref =>
    match ref with
    | .str id => [id]
    | other => (stringAt other "id").toList

def systemOf (row : Json) : Option Json := (row.get "_system").filter isMap

def versionOf (row : Json) : ℚ :=
  (((systemOf row).bind (·.get "version")).bind numberOf).getD 0

/-- The `MemoryScope` facet of a row. -/
def conceptScope (row : Json) : Option String × List String :=
  let facets := ((row.get "facets").bind Json.asObject).getD []
  match (facets.find? fun facet => localName facet.1 = "MemoryScope").map Prod.snd with
  | some (.obj fields) =>
    let scope := Json.obj fields
    (stringAt scope "task_ref",
      (((scope.get "context_refs").bind Json.asArray).getD []).filterMap Json.asStr)
  | _ => (none,[])

def admits (scope : ResolvedScope) (task : Option String) (contexts : List String) : Bool :=
  (task.isNone || scope.task == task) && contexts.all scope.contexts.contains

def admitsRow (scope : ResolvedScope) (row : Json) : Bool :=
  admits scope (conceptScope row).1 (conceptScope row).2

def statusOf (value : Option Json) : EpistemicStatus :=
  match value with
  | some (.str "accepted") => .accepted
  | some (.str "rejected") => .rejected
  | some (.str "contested") => .contested
  | some (.str "uncertain") => .uncertain
  | _ => .insufficient

def roleRank : Role → ℕ
  | .constraint => 0
  | .warning => 1
  | .fact => 2
  | .procedure => 3
  | .experience => 4
  | .source => 5

/-- A Concept as an item, unless it has no id, is a scope handle or is of another type. -/
def conceptItem (wire : Wire) (row : Json) (required : Bool) : Option Candidate :=
  match stringAt row "id" with
  | none => none
  | some id =>
    if id.isEmpty then none
    else
      let type := localName (((stringAt row "schema_ref").or (stringAt row "type")).getD "")
      let attributes := ((row.get "attributes").filter isMap).getD (.obj [])
      let name := (stringAt row "name").getD ""
      let summary := ((stringAt attributes "summary").or (stringAt attributes "goal")).getD name
      let make (text : String) (role : Role) (status : EpistemicStatus) (isRequired : Bool)
          (standing : Option Standing) : Candidate :=
        ⟨⟨"",wire.clip 4096 text,role,status,[],false,standing⟩,[(id,versionOf row)],isRequired⟩
      if stringAt attributes "event_class" = some "memory_scope" then none
      else if type = "Insight" ∧ stringAt attributes "insight_class" = some "constraint" then
        some (make ("Constraint: "++summary) .constraint .accepted true none)
      else if type = "Commitment" then
        let due := match stringAt attributes "due_at" with
          | some moment => ", due "++moment
          | none => ""
        some (make ("Open commitment ("++shownAt wire attributes "status" "pending"++"): "++
          summary++due) .constraint .accepted required none)
      else if type = "Experience" ∨ type = "Event" then
        let outcome := shownAt wire attributes "outcome_status" "unknown"
        let failed := outcome = "failure" ∨ outcome = "aborted"
        some (make ((if failed then "Past failure" else "Experience")++" ("++outcome++"): "++
          summary) (if failed then .warning else .experience)
          (if failed then .uncertain else .notApplicable) (required || decide failed) none)
      else if type = "Skill" then
        let lifecycle := ((row.get "lifecycle").filter isMap).bind (stringAt · "status")
        let revoked := stringAt attributes "status" = some "revoked" ∨ lifecycle = some "revoked"
        some (make ("Procedure candidate (unproven, grants no permission): "++name) .procedure
          .notApplicable required (some (if revoked then .revoked else .unproven)))
      else if type = "Insight" then
        some (make ("Insight: "++summary) .fact .uncertain required none)
      else none

/-! ## Element views -/

/-- The views read in this call, `null` among them. -/
abbrev Memo := List (String × Option Json)

def elementPattern : Kind → String
  | .concept => "?e CONCEPT \x7bid: :id\x7d"
  | .proposition => "?e PROPOSITION (id: :id)"
  | .assertion => "?e ASSERTION \x7bid: :id\x7d"
  | .evidence => "?e EVIDENCE \x7bid: :id\x7d"
  | .activity => "?e ACTIVITY \x7bid: :id\x7d"

def asOfClause : Option ℕ → String
  | none => ""
  | some seq => " AS OF SEQ "++toString seq

def firstMap (answer : Except Failure (List Json)) : Option Json :=
  match answer with
  | .ok (first::_) => if isMap first then some first else none
  | _ => none

def remember (memo : Memo) (row : Json) : Memo :=
  match stringAt row "id" with
  | none => memo
  | some id => (id,some row)::memo

section Collect
variable (site : Site) (wire : Wire) (reads : EngineReads) (scope : ResolvedScope) (options : Options)

def row (memo : Memo) (id : String) : Memo × Option Json :=
  match memo.lookup id with
  | some cached => (memo,cached)
  | none =>
    match site.parseId id with
    | none => (memo,none)
    | some parsed =>
      let found := firstMap (reads.query ("FIND(?e) WHERE \x7b "++elementPattern parsed.kind++
        " \x7d"++asOfClause options.asOfSeq++" LIMIT 1") [("id",.str id)])
      ((id,found)::memo,found)

def label (endpoint : Option Json) : String :=
  let named := ((endpoint.bind (stringAt · "id")).bind site.parseId).bind reads.conceptName
  match named with
  | some name => wire.clip 512 name
  | none => wire.clip 512 (wire.stringify (endpoint.getD .null))

/-- `subject · predicate · object`. -/
def tupleText (prop : Json) : String :=
  label site wire reads (prop.get "subject")++" · "++
    localName (shownAt wire prop "predicate_ref" "?")++" · "++
    label site wire reads (prop.get "object")

def belief (proposition : String) : Option Json :=
  let timed := options.validAt.filter (fun moment => !moment.isEmpty)
  firstMap (reads.query ("FIND(?b) WHERE \x7b ?b BELIEF (id: :id) \x7d"++
      asOfClause options.asOfSeq++(if timed.isSome then " FOR TIME :valid_at" else "")++
      " WITH EPISTEMIC \x7bpurpose: \"memory_recall\", risk: \"low\", context_refs: :contexts\x7d")
    ([("id",.str proposition), ("contexts",.arr (scope.contexts.map .str))]++
      (timed.map fun moment => ("valid_at",Json.str moment)).toList))

def contextsOf (row : Json) : List String :=
  refIds (((row.get "context_refs").bind Json.asArray).getD [])

def invalidated (system : Json) : Bool :=
  (((system.get "recording_validity").filter isMap).bind (·.get "status")).any
    (·.isStr "invalidated")

inductive Cited where
  | item (candidate : Candidate)
  | outOfScope
  | unavailable
  | nothing

def propositionOf (row : Json) : Option String :=
  (((stringAt row "proposition").or ((row.get "proposition").bind (stringAt · "id"))).or
    (stringAt row "proposition_id")).filter (fun id => !id.isEmpty)

def evidenceOf (row : Json) : List String :=
  (refIds ((((row.get "evidence").bind Json.asArray).or
    ((row.get "evidence_refs").bind Json.asArray)).getD [])).take 32

def claimed (claims : List Json) : Bool :=
  claims.any fun claim =>
    match systemOf claim with
    | none => false
    | some system =>
      (system.get "state").any (·.isStr "active") && !invalidated system &&
        admits scope none (contextsOf claim)

def citedAssertion (memo : Memo) (id : String) (view system : Json) : Memo × Cited :=
  if invalidated system then (memo,.unavailable)
  else if !admits scope none (contextsOf view) then (memo,.outOfScope)
  else
    match propositionOf view with
    | none => (memo,.nothing)
    | some proposition =>
      let believed := belief reads scope options proposition
      let read := row site reads options memo proposition
      let text := match read.2 with
        | some prop => tupleText site wire reads prop
        | none => proposition
      (read.1,.item ⟨⟨"",wire.clip 4096 text,.fact,
        statusOf (believed.bind (·.get "status")),evidenceOf view,false,none⟩,
        [(id,versionOf view), (proposition,0)],false⟩)

def citedProposition (id : String) (view : Json) : Cited :=
  match reads.query ("FIND(?a) WHERE \x7b ?p PROPOSITION (id: :id) "++
      "?a ASSERTION \x7bproposition: ?p\x7d \x7d LIMIT 64") [("id",.str id)] with
  | .error _ => .nothing
  | .ok claims =>
    if !claimed scope claims then .outOfScope
    else
      let believed := belief reads scope options id
      .item ⟨⟨"",wire.clip 4096 (tupleText site wire reads view),.fact,
        statusOf (believed.bind (·.get "status")),[],false,none⟩,[(id,versionOf view)],false⟩

def citedItem (memo : Memo) (id : String) : Memo × Cited :=
  match site.parseId id with
  | none => (memo,.nothing)
  | some parsed =>
    let read := row site reads options memo id
    match read.2, read.2.bind systemOf with
    | some view, some system =>
      if !(system.get "state").any (·.isStr "active") then (read.1,.unavailable)
      else
        match parsed.kind with
        | .assertion => citedAssertion site wire reads scope options read.1 id view system
        | .proposition => (read.1,citedProposition site wire reads scope options id view)
        | .concept =>
          if !admitsRow scope view then (read.1,.outOfScope)
          else
            match conceptItem wire view false with
            | some candidate => (read.1,.item candidate)
            | none => (read.1,.nothing)
        | .evidence =>
          if !admitsRow scope view then (read.1,.outOfScope)
          else
            let payload := ((view.get "payload").map wire.stringify).getD "undefined"
            (read.1,.item ⟨⟨"",wire.clip 4096 ("Source: "++payload),.source,.notApplicable,[id],
              false,none⟩,[(id,versionOf view)],false⟩)
        | .activity => (read.1,.nothing)
    | _, _ => (read.1,.unavailable)

def citedItems : Memo → List String → Memo × List Candidate × Bool
  | memo, [] => (memo,[],false)
  | memo, id::rest =>
    let read := citedItem site wire reads scope options memo id
    let others := citedItems read.1 rest
    match read.2 with
    | .item candidate => (others.1,candidate::others.2.1,others.2.2)
    | .nothing => others
    | .outOfScope | .unavailable => (others.1,others.2.1,true)

/-! ## Channel reads -/

structure ChannelRead where
  memo : Memo
  items : List Candidate
  plan : Plan

def rememberRows (memo : Memo) (rows : List Json) : Memo := rows.foldl remember memo

def rowItems (required : Bool) (rows : List Json) : List Candidate :=
  rows.filterMap fun view =>
    if isMap view && admitsRow scope view then conceptItem wire view required else none

def constraintsCommand : String :=
  "FIND(?c) WHERE \x7b ?c \x7btype: \"Insight\"\x7d "++
    "FILTER(?c.attributes.insight_class == \"constraint\") \x7d"

def commitmentsCommand : String :=
  "FIND(?c) WHERE \x7b ?c \x7btype: \"Commitment\"\x7d "++
    "FILTER(IN(?c.attributes.status, [\"pending\", \"blocked\"])) \x7d"

def exactAnswer (command : String) : Except Failure (List Json) :=
  reads.query (command++asOfClause options.asOfSeq++" LIMIT "++toString (channelLimit + 1)) []

def exactChannel (memo : Memo) (command : String) : ChannelRead :=
  match exactAnswer reads options command with
  | .error _ => ⟨memo,[],⟨true,false,some "unsupported"⟩⟩
  | .ok rows =>
    let truncated := decide (rows.length > channelLimit)
    let kept := rows.take channelLimit
    ⟨rememberRows memo kept,rowItems wire scope true kept,
      ⟨true,!truncated,if truncated then some "page_limit" else none⟩⟩

def searchAnswer (type filter : String) : Except Failure (List Json) :=
  let query := options.query.getD ""
  if isBlank query then
    reads.query ("FIND(?c) WHERE \x7b ?c \x7btype: \""++type++"\"\x7d"++filter++" \x7d"++
      asOfClause options.asOfSeq++" LIMIT "++toString (searchLimit + 1)) []
  else
    reads.query ("FIND(?c) WHERE \x7b ?c SEARCH CONCEPT :query WITH TYPE \""++type++
        "\" LIMIT "++toString (searchLimit*2)++filter++" \x7d LIMIT "++toString searchLimit)
      [("query",.str query)]

def searchChannel (memo : Memo) (type filter : String) : ChannelRead :=
  let blank := isBlank (options.query.getD "")
  if !blank && options.asOfSeq.isSome then ⟨memo,[],⟨false,false,some "unsupported"⟩⟩
  else
    match searchAnswer reads options type filter with
    | .error _ => ⟨memo,[],⟨false,false,some "unsupported"⟩⟩
    | .ok rows =>
      let truncated := blank && decide (rows.length > searchLimit)
      let kept := rows.take searchLimit
      ⟨rememberRows memo kept,rowItems wire scope false kept,
        if truncated then ⟨true,false,some "page_limit"⟩ else ⟨false,true,none⟩⟩

def failuresFilter : String :=
  " FILTER(IN(?c.attributes.outcome_status, [\"failure\", \"aborted\"]))"

def experiencesFilter : String :=
  " FILTER(IN(?c.attributes.outcome_status, [\"success\", \"partial\", \"unknown\"]))"

/-- What the reads of one call brought, before their items are merged. -/
structure Gathered where
  memo : Memo
  cited : List Candidate
  dropped : Bool
  items : Channel → List Candidate
  plans : Channel → Plan

def gather (cited : List String) : Gathered :=
  let own := citedItems site wire reads scope options [] cited
  let constraints := exactChannel wire reads scope options own.1 constraintsCommand
  let commitments := exactChannel wire reads scope options constraints.memo commitmentsCommand
  let failures :=
    searchChannel wire reads scope options commitments.memo "Experience" failuresFilter
  let experiences :=
    searchChannel wire reads scope options failures.memo "Experience" experiencesFilter
  let skills := searchChannel wire reads scope options experiences.memo "Skill" ""
  { memo := skills.memo
    cited := own.2.1
    dropped := own.2.2
    items := fun
      | .constraints => constraints.items
      | .commitments => commitments.items
      | .failures => failures.items
      | .experiences => experiences.items
      | .skills => skills.items
      | .dependencies | .evidence => []
    plans := fun
      | .constraints => constraints.plan
      | .commitments => commitments.plan
      | .failures => failures.plan
      | .experiences => experiences.plan
      | .skills => skills.plan
      | .dependencies => ⟨true,true,none⟩
      | .evidence => ⟨false,options.evidenceComplete,
          if options.evidenceComplete then none else some "unsupported"⟩ }

/-! ## Collection -/

def merge (kept more : List Candidate) : List Candidate :=
  more.foldl (fun kept c => if kept.any (·.pin == c.pin) then kept else kept++[c]) kept

def Gathered.merged (gathered : Gathered) : List Candidate :=
  merge [] (gathered.cited++gathered.items .constraints++gathered.items .commitments++
    gathered.items .failures++gathered.items .experiences++gathered.items .skills)

def dependencyStatus (view : Option Json) : Option String :=
  let validity := (view.bind systemOf).bind (·.get "dependency_validity")
  let status := validity.bind fun value => if isMap value then value.get "status" else some value
  (status.bind Json.asStr).filter fun text => text = "needs_review" ∨ text = "unverifiable"

def noteOf (candidate : Candidate) (status : String) : Candidate :=
  let id := candidate.pin.getD ""
  ⟨⟨"",id++" depends on memory that changed ("++status++"); review before relying on it",.warning,
    .uncertain,[id],false,none⟩,candidate.pins,true⟩

def dependencyNotes : Memo → List Candidate → List Candidate
  | _, [] => []
  | memo, candidate::rest =>
    let read := row site reads options memo (candidate.pin.getD "")
    match dependencyStatus read.2 with
    | some status => noteOf candidate status::dependencyNotes read.1 rest
    | none => dependencyNotes read.1 rest

def unacceptedNotes (candidates : List Candidate) : List String :=
  candidates.filterMap fun c =>
    if (c.item.epistemicStatus = .contested ∨ c.item.epistemicStatus = .uncertain) ∧
        (c.item.role = .fact ∨ c.item.role = .constraint) then
      some (c.pin.getD "an item"++" is "++c.item.epistemicStatus.wire++", not accepted")
    else none

def comesBefore (a b : Candidate) : Bool :=
  if a.required == b.required then decide (roleRank a.item.role ≤ roleRank b.item.role)
  else a.required

structure Collected where
  candidates : List Candidate
  plans : Channel → Plan
  dropped : Bool
  unverified : List String
  uncertainties : List String
  summary : String

def noAnswer : String :=
  "no recorded memory answers this; the basis is insufficient, which is not a no"

def noMemory : String := "No recorded memory bears on this in scope."

def ordered (merged notes : List Candidate) : List Candidate := sortBy comesBefore (merged++notes)

def collect (cited : List String) : Collected :=
  let gathered := gather site wire reads scope options cited
  let merged := gathered.merged
  let notes := dependencyNotes site reads options gathered.memo merged
  let candidates := (ordered merged notes).take maxItems
  { candidates
    plans := gathered.plans
    dropped := gathered.dropped
    unverified := notes.map (·.item.text)++
      (if options.mode = "action" then unacceptedNotes (merged++notes) else [])
    uncertainties := options.uncertainties++
      (if (merged++notes).isEmpty ∧ options.query.any (fun query => !query.isEmpty) then [noAnswer]
      else [])
    summary :=
      match options.summary.filter (fun text => !text.isEmpty && !gathered.dropped) with
      | some text => text
      | none =>
        if candidates.isEmpty then noMemory
        else "\n".intercalate ((candidates.take 12).map fun c => "- "++c.item.text) }

end Collect

/-! ## Delivery -/

def coverage (scope : Scope) (states : Channel → ChannelState)
    (pending unverified : List String) : Coverage :=
  let complete :=
    channels.all (fun channel => decide (states channel ≠ .incomplete)) && pending.isEmpty
  ⟨complete,scope,states,pending,unverified,complete && unverified.isEmpty⟩

def pendingReceipts (snapshot : ℕ) (after : List Progress) : List String :=
  (after.filter fun p => decide (p.phase ≠ .available) ||
    p.availableSeq.all (fun seq => decide (seq > snapshot))).map (·.receiptRef)

def assemble (wire : Wire) (scope : ResolvedScope) (snapshot : ℕ) (basis : String)
    (plans : Channel → Plan) (candidates : List Candidate) (after : List Progress)
    (collected : Collected) : Briefing :=
  let states channel := if (plans channel).complete then ChannelState.complete else .incomplete
  let coverage := coverage scope.requested states (pendingReceipts snapshot after)
    (distinct collected.unverified)
  let clipped := wire.clip 4096 collected.summary
  { summary := if clipped.isEmpty then noMemory else clipped
    items := candidates.mapIdx fun index candidate =>
      { candidate.item with
        ref := basis++":"++toString index
        actionEligible := coverage.actionEligible &&
          decide (candidate.item.epistemicStatus = .accepted) &&
          decide (candidate.item.role = .fact ∨ candidate.item.role = .constraint) }
    uncertainties := (distinct collected.uncertainties).take 128
    basisRef := basis
    coverage
    after
    attention := none
    attentionCursor := none }

def blamed : Role → Channel
  | .experience => .experiences
  | .procedure => .skills
  | _ => .evidence

def blame (plans : Channel → Plan) (channel : Channel) : Channel → Plan :=
  Function.update plans channel { plans channel with complete := false, truncation := some "budget" }

/-- Keeps every required item and the first `keep` optional ones. -/
def trim (keep : ℕ) : ℕ → (Channel → Plan) → List Candidate → List Candidate × (Channel → Plan)
  | _, plans, [] => ([],plans)
  | kept, plans, c::rest =>
    if c.required then
      let others := trim keep kept plans rest
      (c::others.1,others.2)
    else if kept < keep then
      let others := trim keep (kept + 1) plans rest
      (c::others.1,others.2)
    else trim keep (kept + 1) (blame plans (blamed c.item.role)) rest

structure Build where
  briefing : Briefing
  candidates : List Candidate
  plans : Channel → Plan

def build (wire : Wire) (scope : ResolvedScope) (options : Options) (snapshot : ℕ) (basis : String)
    (collected : Collected) (keep : ℕ) : Build :=
  let trimmed := trim keep 0 collected.plans collected.candidates
  let briefing := assemble wire scope snapshot basis trimmed.2 trimmed.1 options.after collected
  let covered := if options.mode = "attention" then
      { briefing with coverage := { briefing.coverage with channels := fun _ => .notApplicable } }
    else briefing
  let raised := match options.attention with
    | none => covered
    | some items => { covered with attention := some items
                                   attentionCursor := options.attentionCursor.filter (!·.isEmpty) }
  ⟨raised,trimmed.1,trimmed.2⟩

def attentionCollected (options : Options) : Collected :=
  { candidates := []
    plans := fun _ => ⟨true,true,none⟩
    dropped := false
    unverified := []
    uncertainties := options.uncertainties
    summary := toString ((options.attention.getD []).length)++" attention item(s) raised since "++
      "the cursor. An item is a prompt to think, never permission to act." }

def droppedWarning : String :=
  "the recall pass read unavailable, invalidated or out-of-scope memory; its summary was "++
    "replaced with verified items"

structure Delivered where
  build : Build
  warnings : List String

def resolveScopeToRead (site : Site) (session : Session) (nexus : Nexus) (scope : Scope) :
    Except Failure ResolvedScope :=
  (resolveScope site
    { session with createScope := fun nexus handle => (nexus,.ok ("unbound:"++handle)) }
    nexus scope).2

def collectedFor (site : Site) (wire : Wire) (reads : EngineReads) (scope : ResolvedScope)
    (options : Options) (cited : List String) : Collected :=
  if options.mode = "attention" then attentionCollected options
  else collect site wire reads scope options cited

/-- `fitsBudget`. -/
def fits (wire : Wire) (maxTokens : ℕ) (built : Build) : Option Build :=
  if wire.size built.briefing ≤ maxTokens then some built else none

def optionalCount (candidates : List Candidate) : ℕ := (candidates.filter (!·.required)).length

def deliver (site : Site) (wire : Wire) (session : Session) (nexus : Nexus) (reads : EngineReads)
    (basis : String) (scopeInput : Scope) (cited : List String) (options : Options)
    (maxTokens : ℕ) : Except Failure Delivered :=
  match resolveScopeToRead site session nexus scopeInput with
  | .error e => .error e
  | .ok scope =>
    let snapshot := options.asOfSeq.getD nexus.seq
    let collected := collectedFor site wire reads scope options cited
    let built := build wire scope options snapshot basis collected
    let fit keep : Except Failure (Option Build) := .ok (fits wire maxTokens (built keep))
    match longestFitting 0 (optionalCount collected.candidates) fit with
    | .error e => .error e
    | .ok none => .error (memoryError "ResultLimitExceeded"
        ("the required constraints, warnings and coverage need more than "++
          toString maxTokens++" tokens"))
    | .ok (some (_,best)) =>
      .ok ⟨best,options.warnings++(if collected.dropped then [droppedWarning] else [])⟩

end AndaBrain.WorkerMemory
