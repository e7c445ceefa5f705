import Mathlib.Data.String.Basic
import AndaBrain.Json
import AndaBrain.Foundation.SortBy

/-!
# Recall selection and serialization budgets

`recall_budget/mod.rs`: whole items are admitted into a packet in the host's order, and the limit
is enforced against the serialized packet, recounted at every admission together with its
coverage.
-/

set_option autoImplicit false

namespace AndaBrain.RecallPack
open Foundation.SortBy

def maxItems : ℕ := 256
def maxItemContentBytes : ℕ := 1024*1024
def packetFormat : String := "anda-brain-recall/1"
def tokenizerName : String := "o200k_base@tiktoken-rs-0.12"
def legacyTokenizer : String := "o200k_base@tiktoken-rs-0.12.0"

def canonicalTokenizer (name : String) : Option String :=
  if name = tokenizerName ∨ name = legacyTokenizer then some tokenizerName else none

structure RecallBudget where
  tokenizer : String
  maxTokens : ℕ
  contextTokens : ℕ
  deriving DecidableEq, Repr

def RecallBudget.default : RecallBudget := ⟨tokenizerName,4096,49152⟩

def RecallBudget.validate (b : RecallBudget) : Except String Unit :=
  if (canonicalTokenizer b.tokenizer).isNone then .error "unsupported Recall tokenizer"
  else if ¬(1 ≤ b.maxTokens ∧ b.maxTokens ≤ 65536) then
    .error "Recall max_tokens must be in 1..=65536"
  else if ¬(1 ≤ b.contextTokens ∧ b.contextTokens ≤ 131072) then
    .error "Recall context_tokens must be in 1..=131072"
  else .ok ()

inductive Channel where
  | primer
  | notes
  | counterparty
  | history
  | kip
  | wiki
  | procedures
  deriving DecidableEq, Repr

def Channel.rank : Channel → ℕ
  | .primer => 0
  | .notes => 1
  | .counterparty => 2
  | .history => 3
  | .kip => 4
  | .wiki => 5
  | .procedures => 6

inductive Priority where
  | required
  | warning
  | verifiedProcedure
  | relevant
  | unprovenProcedure
  deriving DecidableEq, Repr

def Priority.rank : Priority → ℕ
  | .required => 0
  | .warning => 1
  | .verifiedProcedure => 2
  | .relevant => 3
  | .unprovenProcedure => 4

structure MemoryItem where
  id : String
  channel : Channel
  priority : Priority
  content : Json
  deriving Repr

structure Coverage where
  queried : List Channel
  partials : List Channel
  omitted : List Channel
  unchecked : List Channel
  deriving DecidableEq, Repr

structure PacketView where
  format : String
  status : String
  tokenizer : String
  tokenLimit : ℕ
  items : List MemoryItem
  coverage : Coverage
  semanticComplete : Bool
  actionReady : Bool
  deriving Repr

structure SerializedPacket where
  content : String
  tokens : ℕ
  insufficient : Bool
  deriving DecidableEq, Repr

/-- The JSON writer for packets and item contents, and the token counter. -/
structure Codec where
  packetText : PacketView → Except String String
  contentBytes : Json → Except String ℕ
  count : String → Except String ℕ

def validateItemsFrom (codec : Codec) : List String → List MemoryItem → Except String Unit
  | _, [] => .ok ()
  | ids, item::rest =>
    if item.id = "" ∨ item.id ∈ ids then
      .error "Recall memory item ids must be nonempty and unique"
    else do
      let bytes ← codec.contentBytes item.content
      if maxItemContentBytes < bytes then
        .error "Recall memory item content exceeds 1 MiB of serialized JSON"
      else validateItemsFrom codec (item.id::ids) rest

def validateItems (codec : Codec) (items : List MemoryItem) : Except String Unit :=
  if maxItems < items.length then .error "Recall memory item count exceeds 256"
  else validateItemsFrom codec [] items

def normalizeChannels (channels : List Channel) : List Channel :=
  dedupAdjacent (sortBy (fun a b => a.rank ≤ b.rank) channels)

def normalized (c : Coverage) : Coverage :=
  ⟨normalizeChannels c.queried,normalizeChannels c.partials,
    normalizeChannels c.omitted,normalizeChannels c.unchecked⟩

def reportItem (kept : List MemoryItem) (c : Coverage) (item : MemoryItem) : Coverage :=
  if item.id ∈ kept.map MemoryItem.id then c
  else
    { c with
      omitted := c.omitted++[item.channel]
      partials := if item.channel ∈ kept.map MemoryItem.channel then c.partials++[item.channel]
        else c.partials }

def deliveryCoverage (items kept : List MemoryItem) (original : Coverage) : Coverage :=
  let reported := items.foldl (reportItem kept) original
  normalized { reported with
    partials := reported.partials++
      reported.omitted.filter (fun c => c ∈ kept.map MemoryItem.channel) }

def packetView (budget : RecallBudget) (items kept : List MemoryItem) (coverage : Coverage)
    (insufficient : Bool) : PacketView where
  format := packetFormat
  status := if insufficient then "budget_insufficient" else "bounded"
  tokenizer := tokenizerName
  tokenLimit := budget.maxTokens
  items := kept
  coverage := deliveryCoverage items kept coverage
  semanticComplete := false
  actionReady := false

def serializePacket (codec : Codec) (budget : RecallBudget) (items kept : List MemoryItem)
    (coverage : Coverage) (insufficient : Bool) : Except String SerializedPacket := do
  let content ← codec.packetText (packetView budget items kept coverage insufficient)
  let tokens ← codec.count content
  .ok ⟨content,tokens,insufficient⟩

def insufficientPacket (codec : Codec) (budget : RecallBudget) (items : List MemoryItem)
    (coverage : Coverage) : Except String SerializedPacket := do
  let packet ← serializePacket codec budget items [] coverage true
  if packet.tokens ≤ budget.maxTokens then .ok packet
  else do
    let tokens ← codec.count "null"
    if budget.maxTokens < tokens then
      .error "Recall budget cannot encode the null failure sentinel"
    else .ok ⟨"null",tokens,true⟩

abbrev Utility := String → Option F64

/-- The host-verified utility of an item: a signal outside `[0, 1]` is none. -/
def score (utility : Utility) (id : String) : Option F64 :=
  (utility id).filter (fun v => v.isFinite && (F64.partialCmp (.finite 0) v).any Ordering.isLE &&
    (F64.partialCmp v (.finite 1)).any Ordering.isLE)

def optionCmp : Option F64 → Option F64 → Option Ordering
  | none, none => some .eq
  | none, some _ => some .lt
  | some _, none => some .gt
  | some a, some b => a.partialCmp b

def itemOrder (utility : Utility) (left right : MemoryItem) : Ordering :=
  (compare left.priority.rank right.priority.rank).then
    (((optionCmp (score utility right.id) (score utility left.id)).getD .eq).then
      (compare left.id right.id))

def isRequired (item : MemoryItem) : Bool := item.priority.rank ≤ Priority.warning.rank

def orderedItems (utility : Utility) (items : List MemoryItem) : List MemoryItem :=
  sortBy (fun l r => (itemOrder utility l r).isLE) items

def requiredItems (utility : Utility) (items : List MemoryItem) : List MemoryItem :=
  (orderedItems utility items).filter isRequired

def admitItems (codec : Codec) (budget : RecallBudget) (items : List MemoryItem)
    (selectedIds : List String) (coverage : Coverage) :
    List MemoryItem → List MemoryItem → SerializedPacket → Except String SerializedPacket
  | [], _, serialized => .ok serialized
  | item::rest, kept, serialized =>
    if isRequired item || !selectedIds.contains item.id then
      admitItems codec budget items selectedIds coverage rest kept serialized
    else do
      let candidate ← serializePacket codec budget items (kept++[item]) coverage false
      if candidate.tokens ≤ budget.maxTokens then
        admitItems codec budget items selectedIds coverage rest (kept++[item]) candidate
      else admitItems codec budget items selectedIds coverage rest kept serialized

def packRanked (codec : Codec) (budget : RecallBudget) (items : List MemoryItem)
    (selectedIds : List String) (coverage : Coverage) (utility : Utility) :
    Except String SerializedPacket := do
  budget.validate
  validateItems codec items
  let kept := requiredItems utility items
  let serialized ← serializePacket codec budget items kept coverage false
  if budget.maxTokens < serialized.tokens then insufficientPacket codec budget items coverage
  else admitItems codec budget items selectedIds coverage (orderedItems utility items) kept serialized

def pack (codec : Codec) (budget : RecallBudget) (items : List MemoryItem)
    (selectedIds : List String) (coverage : Coverage) : Except String SerializedPacket :=
  packRanked codec budget items selectedIds coverage (fun _ => none)

end AndaBrain.RecallPack
