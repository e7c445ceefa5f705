import AndaBrain.ActionGate
import AndaBrain.RecallPack

/-!
# The context of a gate

`action/context.rs`: a gate reads one belief without a sequence number and everything else as of
the sequence number of that belief.
-/

set_option autoImplicit false

namespace AndaBrain.ActionContext
open AndaBrain.Action RecallPack Foundation.SortBy

def profile : String := "kip://profiles/cognitive-memory@2.0.0/"

def beginsWith (text lead : String) : Bool := lead.toList.isPrefixOf text.toList

def isLowerHex (c : Char) : Bool := c.isDigit || (decide ('a' ≤ c) && decide (c ≤ 'f'))

def digestValid (value : String) : Bool :=
  beginsWith value "sha256:" && (value.toList.drop 7).length == 64 &&
    (value.toList.drop 7).all isLowerHex

inductive ElementKind where
  | concept
  | proposition
  | assertion
  | evidence
  | activity
  deriving DecidableEq

def elementKind (id : String) : Option ElementKind :=
  match id.toList.head? with
  | some 'C' => some .concept
  | some 'P' => some .proposition
  | some 'A' => some .assertion
  | some 'E' => some .evidence
  | some 'X' => some .activity
  | _ => none

/-- The answers of the native store. `parse` reads an identifier and prints it
again; the other three are the rows of one query each. -/
structure Session where
  parse : String → Except String String
  findElement : ElementKind → String → Option ℕ → Except String Json
  findBelief : String → Option ℕ → Except String Json
  findCommitments : ℕ → Except String Json

structure MemoryPacket where
  format : String
  status : String
  failedReason : Option String
  tokenizer : String
  tokenLimit : ℕ
  items : List MemoryItem
  coverage : Coverage
  semanticComplete : Bool
  actionReady : Bool

structure Reader where
  session : Session
  codec : Codec
  decode : String → Except String MemoryPacket

structure Fire where
  watchRef : String
  fireActivityRef : String

structure Capture where
  receipt : Option String
  request : ContextRequest
  basis : Json
  pins : List Json
  retrieved : List String
  packet : MemoryPacket
  insufficient : Option String

def Capture.delivered (capture : Capture) : Action.Capture where
  request := capture.request
  retrieved := capture.retrieved
  items := capture.packet.items.map MemoryItem.id
  insufficient := capture.insufficient
  receipt := capture.receipt

def element (session : Session) (id : String) (seq : Option ℕ) : Except String Json := do
  let parsed ← session.parse id
  if parsed ≠ id then .error "noncanonical action reference"
  else do
    let kind ← need (elementKind id) "invalid action reference"
    let rows ← session.findElement kind id seq
    let row ← need (rows.asArray.bind List.head?) "action reference unavailable"
    if row.index "id" ≠ .str id ∨ ((row.index "_system").index "version").asU64 = none then
      .error "action reference is not fully readable"
    else .ok row

def belief (session : Session) (id : String) (seq : Option ℕ) : Except String Json :=
  if beginsWith id "P-" then do
    let rows ← session.findBelief id seq
    need (rows.asArray.bind List.head?) "native belief coordinate unavailable"
  else .error "BELIEF requires a Proposition"

def toolVersionValid (tool : String × String) : Bool :=
  tool.1 != "" && decide (tool.1.utf8ByteSize ≤ 128) && tool.2 != "" &&
    decide (tool.2.utf8ByteSize ≤ 256)

def requestBounded (request : ContextRequest) : Bool :=
  decide (request.requiredRefs.length ≤ 32) && decide (request.premises.length ≤ 16) &&
    decide (request.appliedRevisions.length ≤ 8) && request.taskFamily != "" &&
    decide (request.taskFamily.utf8ByteSize ≤ 256) && digestValid request.environmentDigest &&
    decide (request.toolVersions.length ≤ 16) && request.toolVersions.all toolVersionValid &&
    request.deduplicationKey.all (fun s => s != "" && decide (s.utf8ByteSize ≤ 256))

def references (request : ContextRequest) (fire : Fire) (commitments : List String) :
    List String :=
  dedupAdjacent (sortBy (fun a b => decide (a ≤ b))
    (request.requiredRefs++request.premises++request.appliedRevisions++
      [request.anchor,fire.watchRef,fire.fireActivityRef]++commitments))

def dependencyValidity (row : Json) : Json :=
  (row.index "_system").index "dependency_validity"

def dependencyUnverified (row : Json) : Bool :=
  (dependencyValidity row).asObject.isSome &&
    (dependencyValidity row).index "action_eligible" != .bool true

def revisionUnverified (request : ContextRequest) (id : String) (row : Json) : Bool :=
  request.appliedRevisions.contains id &&
    (row.index "schema_ref" != .str (profile++"SkillRevision") ||
      (row.index "attributes").index "task_family" != .str request.taskFamily ||
      (dependencyValidity row).index "action_eligible" != .bool true)

def premiseUnaccepted (request : ContextRequest) (id : String) (projection : Option Json) : Bool :=
  request.premises.contains id && projection.all (fun p => p.index "status" != .str "accepted")

def projection (session : Session) (request : ContextRequest) (anchor : Json) (seq : ℕ)
    (id : String) : Except String (Option Json) :=
  if id = request.anchor then .ok (some anchor)
  else if beginsWith id "P-" then (belief session id (some seq)).map some
  else .ok none

def pin (id : String) (row : Json) : Json :=
  .obj [("id",.str id),("version",(row.index "_system").index "version")]

def item (id : String) (row : Json) (projection : Option Json) : MemoryItem where
  id := id
  channel := .kip
  priority := .required
  content := .obj [("element",row),("belief",projection.getD .null)]

structure Collected where
  insufficient : Option String
  pins : List Json
  items : List MemoryItem

def noteIf (c : Bool) (reason : String) (insufficient : Option String) : Option String :=
  if c then insufficient.or (some reason) else insufficient

def premiseReason : String := "premise_unknown_or_not_accepted"

def collect (session : Session) (request : ContextRequest) (anchor : Json) (seq : ℕ) :
    List String → Collected → Except String Collected
  | [], acc => .ok acc
  | id::rest, acc => do
    let row ← element session id (some seq)
    let insufficient := noteIf (dependencyUnverified row) "dependency_unverified" acc.insufficient
    let insufficient := noteIf (revisionUnverified request id row) "revision_unverified"
      insufficient
    let projected ← projection session request anchor seq id
    let insufficient := noteIf (premiseUnaccepted request id projected) premiseReason insufficient
    collect session request anchor seq rest
      ⟨insufficient,acc.pins++[pin id row],acc.items++[item id row projected]⟩

def nullPacket (budget : RecallBudget) : MemoryPacket where
  format := packetFormat
  status := "budget_insufficient"
  failedReason := none
  tokenizer := budget.tokenizer
  tokenLimit := budget.maxTokens
  items := []
  coverage := ⟨[],[],[.kip],[]⟩
  semanticComplete := false
  actionReady := false

def unpack (reader : Reader) (budget : RecallBudget) (packet : SerializedPacket) :
    Except String MemoryPacket :=
  if packet.content = "null" then .ok (nullPacket budget) else reader.decode packet.content

def packAll (reader : Reader) (budget : RecallBudget) (items : List MemoryItem) :
    Except String SerializedPacket :=
  pack reader.codec budget items [] ⟨[.kip],[],[],[]⟩

def commitmentIds (page : List Json) : Except String (List String) :=
  (page.take 32).mapM fun row => need (row.index "id").asStr "commitment reference missing"

def pageFull (page : List Json) : Bool := decide (33 ≤ page.length)

def Capture.read (reader : Reader) (fire : Fire) (request : ContextRequest)
    (budget : RecallBudget) : Except String Capture :=
  if requestBounded request then do
    let anchor ← belief reader.session request.anchor none
    let basis := anchor.index "basis"
    let seq ← need (basis.index "snapshot_seq").asU64 "native basis sequence missing"
    let commitments ← reader.session.findCommitments seq
    let page ← need commitments.asArray "invalid commitment page"
    let insufficient := noteIf (pageFull page) "constraint_coverage_incomplete" none
    let ids ← commitmentIds page
    let refs := references request fire ids
    let collected ← collect reader.session request anchor seq refs ⟨insufficient,[],[]⟩
    let serialized ← packAll reader budget collected.items
    let insufficient := noteIf serialized.insufficient "required_context_does_not_fit"
      collected.insufficient
    let packet ← unpack reader budget serialized
    .ok ⟨none,request,basis,collected.pins,refs,packet,insufficient⟩
  else .error "invalid bounded gate context"

def basisKeys : List String :=
  ["schema_environment_version","identity_version","policy","trust_version",
    "authorization_view","context_refs","purpose","risk"]

def Capture.revalidate (reader : Reader) (fire : Fire) (budget : RecallBudget)
    (stored : Capture) (clarification : Bool) : Except String Unit := do
  let fresh ← Capture.read reader fire stored.request budget
  if fresh.insufficient.any (fun r => !clarification || r != premiseReason) then
    .error "current action prerequisites are insufficient"
  else if basisKeys.any (fun k => fresh.basis.index k != stored.basis.index k) then
    .error "action basis changed"
  else if fresh.pins ≠ stored.pins then
    .error "action context or required constraints changed"
  else .ok ()

end AndaBrain.ActionContext
