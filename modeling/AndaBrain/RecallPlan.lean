import AndaBrain.Foundation.LongestFit
import AndaBrain.Foundation.Utf8Text
import AndaBrain.RecallCompact
import AndaBrain.RecallPack

/-!
# Planning a budgeted Recall

`plan_budgeted`, `refresh_budget_procedures` and `finish_budgeted` of `budgeted.rs`. The host
reads, the model, the tools and the clocks are what one run meets.
-/

set_option autoImplicit false

namespace AndaBrain.RecallPlan
open Foundation.LongestFit Foundation.SortBy Foundation.Utf8Text RecallPack

def maxCalls : ℕ := 16

def maxCallsPerTurn : ℕ := 4

def maxRows : ℕ := 32

def maxBytes : ℕ := 1024*1024

def maxTurns : ℕ := 8

def selectName : String := "select_recall_items"

def checkName : String := "check_procedure_status"

def referenceName : String := "kip_reference"

def allChannels : List Channel :=
  [.primer, .notes, .counterparty, .history, .kip, .wiki, .procedures]

/-- `created` is every item that `add` admitted. -/
structure Material where
  nextId : ℕ
  failure : Option String
  items : List MemoryItem
  coverage : Coverage
  criticalMissing : Bool
  skills : List String
  procedures : List (String × String)
  created : List MemoryItem

def emptyMaterial : Material := ⟨0,none,[],⟨[],[],[],[]⟩,false,[],[],[]⟩

def markCoverage (coverage : Coverage) (channel : Channel) (partially : Bool) : Coverage :=
  let queried := if channel ∈ coverage.queried then coverage.queried else coverage.queried++[channel]
  let partials := if partially ∧ channel ∉ coverage.partials then coverage.partials++[channel]
    else coverage.partials
  { coverage with queried, partials }

def omitCoverage (coverage : Coverage) (channel : Channel) : Coverage :=
  let marked := markCoverage coverage channel true
  { marked with omitted := if channel ∈ marked.omitted then marked.omitted
                           else marked.omitted++[channel] }

def withUnchecked (coverage : Coverage) : Coverage :=
  { coverage with unchecked := allChannels.filter (· ∉ coverage.queried) }

/-- `format!("m{:03}", n)`. -/
def itemId (n : ℕ) : String :=
  let digits := (toString n).toList
  "m"++String.ofList (List.replicate (3 - digits.length) '0'++digits)

def isEmptyContent : Json → Bool
  | .null | .arr [] | .obj [] => true
  | _ => false

/-- The content as an item holds it, and whether the compact view left something out. -/
def admitted (channel : Channel) (priority : Priority) (content : Json) : Json × Bool :=
  if channel = .kip ∨ channel = .counterparty then
    compact (decide (priority.rank ≤ Priority.warning.rank)) content
  else (content,false)

def isCritical (priority : Priority) : Bool := priority = .required ∨ priority = .warning

structure Prompt where
  items : List MemoryItem
  observations : List Json
  coverage : Coverage

/-- The writer and the counter of packets, the text of a normalized planner request, the writer
of a packet with its failure reason and the reader of a packet. What was written without items
is read without items. -/
structure Wire extends Codec where
  normalized : Prompt → Except String String
  reasonText : PacketView → String → Except String String
  readPacket : String → Except String (Option PacketView)
  read_empty : ∀ view content read, packetText view = .ok content → view.items = [] →
    readPacket content = .ok (some read) → read.items = []
  read_null : ∀ read, readPacket "null" ≠ .ok (some read)

namespace Material

def markChannel (m : Material) (channel : Channel) (partially : Bool) : Material :=
  { m with coverage := markCoverage m.coverage channel partially }

def omitChannel (m : Material) (channel : Channel) : Material :=
  { m with coverage := omitCoverage m.coverage channel }

/-- `coverage()`. -/
def reported (m : Material) : Coverage := withUnchecked m.coverage

def refuse (m : Material) (channel : Channel) (priority : Priority) : Material :=
  { m.omitChannel channel with criticalMissing := m.criticalMissing || isCritical priority }

def push (m : Material) (item : MemoryItem) : Material :=
  { m with nextId := m.nextId + 1, items := m.items++[item], created := m.created++[item] }

def add (codec : Codec) (m : Material) (channel : Channel) (priority : Priority) (content : Json) :
    Except String (Material × Option String) :=
  let marked := m.markChannel channel false
  if isEmptyContent content then .ok (marked,none)
  else
    let view := admitted channel priority content
    let compacted := if view.2 then marked.markChannel channel true else marked
    if maxItems ≤ compacted.items.length then .ok (compacted.refuse channel priority,none)
    else
      match codec.contentBytes view.1 with
      | .error e => .error e
      | .ok bytes =>
        if maxBytes < bytes then .ok (compacted.refuse channel priority,none)
        else
          let id := itemId compacted.nextId
          .ok (compacted.push ⟨id,channel,priority,view.1⟩,some id)

end Material

/-! ## One run -/

inductive HostRead where
  | unavailable
  | answered (value : Option Json)

structure ToolCall where
  name : String
  args : Json

structure Output where
  failed : Bool
  toolCalls : List ToolCall
  content : String

/-- What one run meets. A tool answers its value and whether it is an error; `remaining` tells
whether a turn begins before the deadline. The clocks are read once for each final check and
once for each item of an expiry pass, the business clock once for a pass. -/
structure Session where
  counterpartyNamed : Bool
  profile : Option Json
  primer : Json
  notes : Option Json
  history : Json
  constraints : HostRead
  discovery : HostRead
  names : List String
  modelTurns : ℕ
  remaining : ℕ → Bool
  reply : ℕ → Prompt → Option Output
  readText : String → Option Json
  tool : ℕ → String → Json → Except String (Json × Bool)
  check : ℕ → String → Except String (Json × Bool)
  checkedAt : ℕ → ℕ × String
  wall : ℕ → ℕ → ℕ
  business : ℕ → String
  utility : List MemoryItem → Utility

def text (value : String) : Json := .str value

def openingContent : Json :=
  .obj [("scope",text "authorized retrieved candidates, not exhaustive semantic coverage"),
    ("constraints",text ("All host-detected unresolved commitments and warnings are "++
      "retained before optional memories. Unchecked/omitted sources may contain "++
      "additional restrictions.")),
    ("procedures",text ("Raw memory, historic grades and model text confer no standing "++
      "or execution authority. Only a separately checked exact current revision "++
      "may be a verified candidate; acting hosts must revalidate before dispatch.")),
    ("action_ready",.bool false)]

def outputExhausted : String := "recall_output_budget_exhausted"

def readIncomplete : String := "recall_required_read_incomplete"

def contextExhausted : String := "recall_context_budget_exhausted"

def deadlineReached : String := "recall_deadline_reached"

def modelUnavailable : String := "recall_model_unavailable"

def plannerIncomplete : String := "recall_planner_incomplete"

def windowIncomplete : String := "recall_procedure_window_incomplete"

section Run
variable (wire : Wire) (s : Session) (limits : RecallBudget)

def addItem (m : Material) (channel : Channel) (priority : Priority) (content : Json) :
    Except String Material :=
  (m.add wire.toCodec channel priority content).map Prod.fst

def addRows : List Json → Material → Except String Material
  | [], m => .ok m
  | row::rest, m =>
    match addItem wire m .kip .required row with
    | .error e => .error e
    | .ok next => addRows rest next

def missing (m : Material) : Material := { m with criticalMissing := true }

def readPrimer (m : Material) : Except String Material :=
  match s.primer with
  | .null => .ok ((missing m).omitChannel .primer)
  | primer => addItem wire m .primer .required (compactPrimer primer)

def readProfile (m : Material) : Except String Material :=
  let marked := m.markChannel .counterparty false
  match s.profile with
  | some profile => addItem wire marked .counterparty .relevant profile
  | none => .ok (if s.counterpartyNamed then marked.omitChannel .counterparty else marked)

def readConstraints (m : Material) : Except String Material :=
  match s.constraints with
  | .unavailable => .ok ((missing m).omitChannel .kip)
  | .answered value =>
    match value.bind Json.asArray with
    | none => .ok ((missing m).omitChannel .kip)
    | some rows =>
      let marked := m.markChannel .kip (decide (maxRows < rows.length))
      addRows wire (rows.take maxRows) (if maxRows < rows.length then missing marked else marked)

def readHost (m : Material) : Except String Material :=
  match readPrimer wire s m with
  | .error e => .error e
  | .ok primed =>
    let noted := if s.notes.isSome then primed.markChannel .notes false
      else primed.omitChannel .notes
    match readProfile wire s noted with
    | .error e => .error e
    | .ok profiled => readConstraints wire s (profiled.markChannel .history false)

def programPriority (value : Json) : Priority :=
  if containsProgram value then .unprovenProcedure else .relevant

def holding (m : Material) (element : Json) : Option MemoryItem :=
  m.items.find? fun item =>
    (element.index "id").asStr.isSome && (item.content.index "id").asStr == (element.index "id").asStr

def addHits : List Json → Material → Except String (Material × List String)
  | [], m => .ok (m,[])
  | hit::rest, m =>
    let element := hit.index "element"
    let found := { m with skills := discoverSkills element m.skills }
    match holding found element with
    | some item => (addHits rest found).map fun r => (r.1,item.id::r.2)
    | none =>
      match found.add wire.toCodec .kip (programPriority element) element with
      | .error e => .error e
      | .ok (next,id) => (addHits rest next).map fun r => (r.1,id.toList++r.2)

def searchUnavailable : Json :=
  .obj [("query_search",text "unavailable"), ("meaning",text "not evidence of absence")]

def readDiscovery (m : Material) : Except String (Material × List String) :=
  let marked := m.markChannel .kip true
  match s.discovery with
  | .unavailable =>
    (addItem wire (marked.omitChannel .kip) .kip .warning searchUnavailable).map fun next => (next,[])
  | .answered value =>
    match (value.map (·.index "hits")).bind Json.asArray with
    | none => .ok (marked.omitChannel .kip,[])
    | some hits => addHits wire (hits.take 8) marked

def readNarrative (m : Material) : Except String Material :=
  match s.notes with
  | none => addItem wire m .history .relevant s.history
  | some notes =>
    match addItem wire m .notes .relevant notes with
    | .error e => .error e
    | .ok noted => addItem wire noted .history .relevant s.history

/-! ## Turns -/

/-- A request as it went out, with the items present when it was built. -/
structure Sent where
  tokens : ℕ
  visible : List MemoryItem
  prompt : Prompt

structure Planning where
  material : Material
  observations : List Json
  calls : ℕ
  selected : List String
  failed : Bool
  finished : Bool
  contextSpent : ℕ
  contextFallback : Option (List MemoryItem × Coverage)
  sent : List Sent

def Planning.stopped (p : Planning) : Bool := p.failed || p.finished

def Planning.fail (p : Planning) (reason : String) : Planning :=
  { p with failed := true, material := { p.material with failure := some reason } }

def evictionOrder (visible : List MemoryItem) : List MemoryItem :=
  sortBy (fun a b => decide (b.priority.rank < a.priority.rank ∨
    (b.priority.rank = a.priority.rank ∧ b.id ≤ a.id))) (visible.filter (!isRequired ·))

def promptOf (p : Planning) (evicted : List MemoryItem) : Prompt where
  items := p.material.items.filter (·.id ∉ evicted.map MemoryItem.id)
  observations := p.observations
  coverage := withUnchecked (evicted.foldl (fun c item => omitCoverage c item.channel)
    p.material.coverage)

/-- The request that keeps the `kept` optional items evicted last. -/
def fitRequest (p : Planning) (order : List MemoryItem) (kept : ℕ) :
    Except String (Option (ℕ × Prompt)) :=
  let prompt := promptOf p (order.take (order.length - kept))
  match wire.normalized prompt with
  | .error e => .error e
  | .ok encoded =>
    if byteLen encoded.toList ≤ 4*maxBytes then
      match wire.count encoded with
      | .error e => .error e
      | .ok tokens =>
        .ok (if tokens ≤ limits.contextTokens - p.contextSpent then some (tokens,prompt) else none)
    else .ok none

def evict (m : Material) (evicted : List MemoryItem) : Material :=
  evicted.foldl (fun m item =>
    { m.omitChannel item.channel with items := m.items.filter (·.id ≠ item.id) }) m

def buildRequest (p : Planning) : Except String (Planning × Option (ℕ × Prompt)) :=
  let order := evictionOrder p.material.items
  match longestFitting 0 order.length (fitRequest wire limits p order) with
  | .error e => .error e
  | .ok (some (kept,request)) =>
    .ok ({ p with material := evict p.material (order.take (order.length - kept))
                  contextSpent := p.contextSpent + request.1 },some request)
  | .ok none =>
    .ok ({ p.fail contextExhausted with
            material := evict (p.fail contextExhausted).material order
            contextFallback := some (p.material.items,p.material.coverage) },none)

/-- `Selection`: the one member is a list of texts. -/
def selectionOf (value : Json) : Option (List String) :=
  match value with
  | .obj [("selected_ids",.arr ids)] => ids.mapM Json.asStr
  | _ => none

def isTrue (value : Json) : Bool := value matches .bool true

def channelOf (name : String) : Option Channel :=
  if name = "execute_kip_readonly" then some .kip
  else if name = "wiki_read" ∨ name = "wiki_search" then some .wiki
  else if name = checkName then some .procedures
  else none

def resultPriority (channel : Channel) (value : Json) (toolError : Bool) : Priority :=
  if toolError then .warning
  else if channel = .procedures then
    if isTrue (value.index "recommendation_allowed") then .verifiedProcedure else .warning
  else programPriority value

def referenceUnavailable : Json :=
  .obj [("status",text "unavailable"), ("hint",text ("Use document=index, or section=index for "++
    "exact headings, with offset=0."))]

def toolUnavailable (name : String) : Json :=
  .obj [("tool",text name), ("status",text "unavailable"),
    ("meaning",text "not evidence of absence or complete coverage")]

def rememberCheck (m : Material) (channel : Channel) (id : String) (args : Json) : Material :=
  match (args.index "skill_ref").asStr with
  | some skill => if channel = .procedures then { m with procedures := m.procedures++[(id,skill)] }
    else m
  | none => m

def takeResult (p : Planning) (tool : ToolCall) (channel : Channel) : Except String Planning :=
  let marked := p.material.markChannel channel false
  match s.tool p.calls tool.name tool.args with
  | .ok (value,toolError) =>
    let reported := if toolError then marked.omitChannel channel else marked
    let found := { reported with skills := discoverSkills value reported.skills }
    match found.add wire.toCodec channel (resultPriority channel value toolError) value with
    | .error e => .error e
    | .ok (next,none) => .ok { p with material := next }
    | .ok (next,some id) =>
      .ok { p with
        material := rememberCheck next channel id tool.args
        observations := p.observations++[.obj [("tool",text tool.name), ("item_id",text id),
          ("partial",.bool toolError)]] }
  | .error _ =>
    (addItem wire (marked.omitChannel channel) channel .warning (toolUnavailable tool.name)).map
      fun next => { p with
        material := next
        observations := p.observations++[.obj [("tool",text tool.name),
          ("status",text "unavailable")]] }

def windowed (p : Planning) (channel : Channel) : Planning :=
  if channel = .kip ∨ channel = .wiki then
    { p with material := p.material.markChannel channel true }
  else p

def readReference (p : Planning) (tool : ToolCall) : Planning :=
  let answer := match s.tool p.calls tool.name tool.args with
    | .ok answer => answer
    | .error _ => (referenceUnavailable,true)
  { p with observations := p.observations++[.obj [("tool",text tool.name), ("reference",answer.1),
      ("is_error",.bool answer.2)]] }

def runTool (p : Planning) (tool : ToolCall) : Except String Planning :=
  let counted := { p with calls := p.calls + 1 }
  match wire.contentBytes tool.args with
  | .error e => .error e
  | .ok bytes =>
    if 16384 < bytes then .ok { counted with failed := true }
    else if tool.name = selectName then
      match selectionOf tool.args with
      | some ids => .ok { counted with selected := ids, finished := true }
      | none => .ok { counted with failed := true }
    else if tool.name ∉ s.names then .ok { counted with failed := true }
    else if tool.name = referenceName then .ok (readReference s counted tool)
    else
      match channelOf tool.name with
      | none => .ok { counted with failed := true }
      | some channel => (takeResult wire s counted tool channel).map (windowed · channel)

def runTools : List ToolCall → Planning → Except String Planning
  | [], p => .ok p
  | tool::rest, p =>
    match runTool wire s p tool with
    | .error e => .error e
    | .ok next => if next.stopped then .ok next else runTools rest next

def takeOutput (p : Planning) (output : Output) : Except String Planning :=
  if output.failed then .ok (p.fail modelUnavailable)
  else if output.toolCalls = [] then
    let chosen := if byteLen output.content.toList ≤ 16384 then
        (s.readText output.content).bind selectionOf else none
    match chosen with
    | some ids => .ok { p with selected := ids, finished := true }
    | none => .ok { p with failed := true }
  else if maxCallsPerTurn < output.toolCalls.length ∨
      maxCalls < p.calls + output.toolCalls.length then .ok { p with failed := true }
  else runTools wire s output.toolCalls p

def turn (k : ℕ) (p : Planning) : Except String Planning :=
  match buildRequest wire limits p with
  | .error e => .error e
  | .ok (built,none) => .ok { built with failed := true }
  | .ok (built,some request) =>
    if built.material.criticalMissing then .ok { built with failed := true }
    else if !s.remaining k then .ok (built.fail deadlineReached)
    else
      let asked := { built with sent := built.sent++[⟨request.1,p.material.items,request.2⟩] }
      match s.reply k request.2 with
      | none => .ok (asked.fail modelUnavailable)
      | some output => takeOutput wire s asked output

def turns : ℕ → ℕ → Planning → Except String Planning
  | 0, _, p => .ok p
  | n + 1, k, p =>
    match turn wire s limits k p with
    | .error e => .error e
    | .ok next => if next.stopped then .ok next else turns n (k + 1) next

/-! ## Delivery -/

def partialNotice : Json :=
  .obj [("status",text "partial"), ("reason",text contextExhausted),
    ("selection",text "host-read candidates; model planning was incomplete"),
    ("action_ready",.bool false)]

def dropNarrative (m : Material) (channel : Channel) : Material :=
  let items := m.items.filter fun item => decide (item.channel ≠ channel) || isRequired item
  if items.length ≠ m.items.length then { m with items }.omitChannel channel else { m with items }

def restored (p : Planning) : Material :=
  match p.contextFallback with
  | some (items,coverage) => { p.material with items, coverage }
  | none => p.material

def fallBack (p : Planning) : Except String Planning :=
  if p.material.failure = some contextExhausted ∧ p.material.criticalMissing = false then
    match addItem wire (dropNarrative (dropNarrative (restored p) .notes) .history) .primer .warning
        partialNotice with
    | .error e => .error e
    | .ok next =>
      .ok { p with
        material := { next.markChannel .kip true with failure := none }
        selected := next.items.map MemoryItem.id
        finished := true
        failed := false }
  else .ok p

def conclude (p : Planning) : Planning :=
  let failed := p.failed || !p.finished
  let failure := if failed ∧ p.material.failure = none then some plannerIncomplete
    else p.material.failure
  { p with
    failed
    material := { p.material with failure }
    selected := p.selected.filter fun id => p.material.items.any (·.id == id) }

/-- `value[key] = member`. It panics on what is neither an object nor `null`. -/
def setIndex (value : Json) (key : String) (member : Json) : Except String Json :=
  match value with
  | .obj fields => .ok (.obj (insertField fields key member))
  | .null => .ok (.obj [(key,member)])
  | _ => .error "panic: cannot access a key of a value that is no object"

def setWarning (value : Json) (warning : String) : Except String Json :=
  match setIndex value "recommendation_allowed" (.bool false) with
  | .error e => .error e
  | .ok denied => setIndex denied "host_delivery_warning" (text warning)

def isCurrent (value : Json) (wall : ℕ) (business : String) : Bool :=
  (value.index "context_expires_at_ms").asU64.any (fun t => decide (wall < t)) &&
    (value.index "review_due_at").asStr.any (fun t => decide (business < t))

def unverified (skill : String) : Json :=
  .obj [("skill_ref",text skill), ("recommendation_allowed",.bool false),
    ("reason",text "current procedure verification unavailable")]

def notEstablished : String := "current applicability was not established or expired before delivery"

def checkedContent (i : ℕ) (skill : String) : Except String (Json × Priority) :=
  match s.check i skill with
  | .ok (value,false) =>
    if isTrue (value.index "recommendation_allowed") &&
        isCurrent value (s.checkedAt i).1 (s.checkedAt i).2 then .ok (value,.required)
    else (setWarning value notEstablished).map (·,.warning)
  | _ => .ok (unverified skill,.warning)

def skillsToCheck (m : Material) : List String :=
  (m.procedures.map Prod.snd).foldl (fun skills skill => insertSkill skill skills) m.skills

def runChecks : ℕ → List String → Material → Except String (Material × List (String × Option String))
  | _, [], m => .ok (m,[])
  | i, skill::rest, m =>
    match checkedContent s i skill with
    | .error e => .error e
    | .ok (content,priority) =>
      match m.add wire.toCodec .procedures priority content with
      | .error e => .error e
      | .ok (next,id) => (runChecks (i + 1) rest next).map fun r => (r.1,(skill,id)::r.2)

def forgetChecks (m : Material) : Material :=
  { m with items := m.items.filter fun item => decide (item.id ∉ m.procedures.map Prod.fst) }

def refresh (m : Material) : Except String (Material × List (String × Option String)) :=
  if checkName ∉ s.names then .ok (m,[])
  else if 8 < (skillsToCheck m).length then
    .ok ({ (missing m).omitChannel .procedures with failure := some windowIncomplete },[])
  else runChecks wire s 0 (skillsToCheck m) (forgetChecks m)

def expiredWarning : String := "procedure check expired before delivery; revalidation required"

def expireOne (pass index : ℕ) (all : Bool) (item : MemoryItem) : MemoryItem × Bool :=
  if item.channel = .procedures ∧ isTrue (item.content.index "recommendation_allowed") ∧
      (all ∨ isCurrent item.content (s.wall pass index) (s.business pass) = false) then
    match item.content with
    | .obj fields =>
      ({ item with
          content := .obj (insertField (insertField fields "recommendation_allowed" (.bool false))
            "host_delivery_warning" (text expiredWarning))
          priority := .warning },true)
    | _ => (item,false)
  else (item,false)

def expire (pass : ℕ) (all : Bool) (items : List MemoryItem) : List MemoryItem × Bool :=
  ((items.mapIdx fun index item => (expireOne s pass index all item).1),
    (items.mapIdx fun index item => (expireOne s pass index all item).2).any id)

def insufficient (coverage : Coverage) : Except String SerializedPacket := do
  limits.validate
  insufficientPacket wire.toCodec limits [] coverage

def withFailureReason (packet : SerializedPacket) (reason : String) :
    Except String SerializedPacket :=
  match wire.readPacket packet.content with
  | .error e => .error e
  | .ok none => .ok packet
  | .ok (some view) =>
    match wire.reasonText view reason with
    | .error e => .error e
    | .ok content =>
      match wire.count content with
      | .error e => .error e
      | .ok tokens => .ok (if limits.maxTokens < tokens then packet else ⟨content,tokens,true⟩)

structure Delivered where
  packet : SerializedPacket
  items : List MemoryItem
  failure : Option String

def packItems (m : Material) (selected : List String) (failed : Bool) :
    Except String (SerializedPacket × List MemoryItem) :=
  let first := (expire s 0 false m.items).1
  if failed || m.criticalMissing then
    (insufficient wire limits m.reported).map (·,first)
  else
    match packRanked wire.toCodec limits first selected m.reported (s.utility first) with
    | .error e => .error e
    | .ok packet =>
      let second := expire s 1 false first
      if second.2 then
        let third := (expire s 2 true second.1).1
        (packRanked wire.toCodec limits third selected m.reported (s.utility first)).map (·,third)
      else .ok (packet,first)

def finish (m : Material) (selected : List String) (failed : Bool) : Except String Delivered :=
  match packItems wire s limits m selected failed with
  | .error e => .error e
  | .ok (packet,items) =>
    if packet.insufficient then
      let reason := m.failure.getD outputExhausted
      (withFailureReason wire limits packet reason).map (⟨·,items,some reason⟩)
    else .ok ⟨packet,items,none⟩

/-- A whole run: what was delivered, the planning it came from, the material after the final
checks and those checks. -/
structure Recalled where
  delivered : Delivered
  planning : Planning
  material : Material
  checks : List (String × Option String)

def beginPlanning (m : Material) (discovered : List String) : Planning where
  material := m
  observations := [.obj [("primer",s.primer)],
    .obj [("query_search",.obj [("item_ids",.arr (discovered.map .str)), ("partial",.bool true)])]]
  calls := 0
  selected := []
  failed := false
  finished := false
  contextSpent := 0
  contextFallback := none
  sent := []

def endEarly (m : Material) (reason : String) : Except String Recalled :=
  let failed := { m with failure := some reason }
  (finish wire s limits failed [] true).map fun delivered =>
    ⟨delivered,beginPlanning s failed [],failed,[]⟩

def planFrom (m : Material) (discovered : List String) : Except String Recalled :=
  match turns wire s limits (min s.modelTurns maxTurns) 0 (beginPlanning s m discovered) with
  | .error e => .error e
  | .ok planned =>
    match fallBack wire planned with
    | .error e => .error e
    | .ok settled =>
      let concluded := conclude settled
      match (if concluded.failed then .ok (concluded.material,[])
        else refresh wire s concluded.material) with
      | .error e => .error e
      | .ok (material,checks) =>
        (finish wire s limits material concluded.selected concluded.failed).map fun delivered =>
          ⟨delivered,concluded,material,checks⟩

def planBudgeted : Except String Recalled :=
  match addItem wire emptyMaterial .primer .required openingContent with
  | .error e => .error e
  | .ok opened =>
    match pack wire.toCodec limits opened.items [] opened.reported with
    | .error e => .error e
    | .ok empty =>
      if empty.insufficient then endEarly wire s limits opened outputExhausted
      else
        match readHost wire s opened with
        | .error e => .error e
        | .ok read =>
          if read.criticalMissing then endEarly wire s limits read readIncomplete
          else
            match pack wire.toCodec limits read.items [] read.reported with
            | .error e => .error e
            | .ok bare =>
              if bare.insufficient then endEarly wire s limits read outputExhausted
              else
                match readDiscovery wire s read with
                | .error e => .error e
                | .ok (found,discovered) =>
                  match readNarrative wire s found with
                  | .error e => .error e
                  | .ok narrated => planFrom wire s limits narrated discovered

end Run

end AndaBrain.RecallPlan
