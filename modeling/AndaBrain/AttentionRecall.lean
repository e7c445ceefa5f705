import AndaBrain.WikiText
import AndaBrain.Foundation.SortBy
import AndaBrain.Foundation.Windows
import Mathlib.Data.Prod.Lex
import Mathlib.Data.String.Basic

/-!
# Attention recall

`recall_attention` of `space/attention_recall.rs` delivers what `watch_fire` and
`commitment_review` Activities raised, page by page in the order of commit and reference.
-/

set_option autoImplicit false

namespace AndaBrain.AttentionRecall
open Foundation.SortBy Foundation.Windows Foundation.Utf8Text
open WikiText

def maxPage : ℕ := 50
def activityWindow : ℕ := 200
def maxReviewTargets : ℕ := 128

def watchSchema : String := "kip://profiles/cognitive-memory@2.0.0/Watch"
def commitmentSchema : String := "kip://profiles/cognitive-memory@2.0.0/Commitment"

structure Position where
  seq : ℕ
  reference : Option String
  deriving DecidableEq

def Position.precedes (after : Position) (seq : ℕ) (reference : String) : Bool :=
  decide (after.seq < seq) ||
    (seq == after.seq && after.reference.any fun last => decide (last < reference))

def cursorPrefix : Text := "attention:".toList

def cursorStart : Text := "attention:start".toList

def parseSeq (text : Text) (reference : Option String) : Except String (Option Position) :=
  match parseU64 text with
  | some seq => .ok (some ⟨seq,reference⟩)
  | none => .error "invalid attention cursor"

def parseCursor (cursor : Text) : Except String (Option Position) :=
  if cursorPrefix.isPrefixOf cursor then
    let value := cursor.drop cursorPrefix.length
    if value = "start".toList ∨ value = "-1".toList then .ok none
    else
      match splitOnce ':' value with
      | some (seq,reference) =>
        if reference = [] then .error "invalid attention cursor"
        else parseSeq seq (some (String.ofList reference))
      | none => parseSeq value none
  else .error "invalid attention cursor"

def renderCursor (pos : Position) : Text :=
  cursorPrefix++decimal pos.seq++pos.reference.elim [] fun reference => ':'::reference.toList

structure Item where
  reference : String
  kind : String
  summary : String
  raisedSeq : ℕ
  dueAt : Option String
  targetRefs : List String
  priority : Option F64

structure Page where
  items : List Item
  attentionCursor : Text
  complete : Bool

structure Input where
  id : String
  schemaRef : String
  deriving DecidableEq

structure Activity where
  id : String
  seq : ℕ
  activityClass : String
  inputs : List Input
  deriving DecidableEq

structure Engine where
  activities : List Activity → List Activity
  arranges : ∀ rows, Arranges Activity.seq rows (activities rows)
  inputs : List Input → List Input
  shuffles : ∀ rows, (inputs rows).Perm rows

/-- What one call meets: its limit, the order of the rows, the errors of its reads, and
the attributes and targets that Concepts have at the time. -/
structure Call where
  limit : Option ℕ
  engine : Engine
  failure : Option String
  inputFailure : String → Option String
  attributes : String → Json
  targets : String → Except String (List String)

def raises (a : Activity) : Bool :=
  a.activityClass == "watch_fire" || a.activityClass == "commitment_review"

structure Row where
  id : String
  seq : ℕ
  activityClass : String
  deriving DecidableEq

def readRow (row : Json) : Option Row := do
  let columns ← row.asArray
  pure ⟨← columns[0]? >>= Json.asStr,← columns[1]? >>= Json.asU64,← columns[2]? >>= Json.asStr⟩

def renderRow (a : Activity) : Json := .arr [.str a.id,.int a.seq,.str a.activityClass]

def readWindow (history : List Activity) (call : Call) (start : ℕ) : Except String (List Json) :=
  match call.failure with
  | some error => .error error
  | none => .ok (((call.engine.activities (history.filter fun a => raises a && decide (start ≤ a.seq))).take
      activityWindow).map renderRow)

def readInputs (history : List Activity) (call : Call) (activity : String) :
    Except String (List Json) :=
  match call.inputFailure activity with
  | some error => .error error
  | none =>
    let inputs := ((history.find? fun a => a.id == activity).elim [] Activity.inputs)
    .ok (((call.engine.inputs inputs).take maxReviewTargets).map fun i =>
      .arr [.str i.id,.str i.schemaRef,call.attributes i.id])

def summary (attributes : Json) (fallback : String) : String :=
  let text := (((attributes.index "summary").asStr.getD "").toList.take 4096)
  if trim text = [] then fallback else String.ofList text

def asF64 : Json → Option F64
  | .float x => some x
  | .int n => some (.finite n)
  | _ => none

def raisedItem (call : Call) (seq : ℕ) (activityClass : String) (row : Json) :
    Except String (Option Item) :=
  match row.asArray with
  | none => .ok none
  | some columns =>
    match columns[0]? >>= Json.asStr, columns[1]? >>= Json.asStr with
    | some id, some schemaRef =>
      let attributes := columns[2]?.getD .null
      if activityClass = "watch_fire" ∧ schemaRef = watchSchema then
        match call.targets id with
        | .error error => .error error
        | .ok targets => .ok (some
            { reference := id
              kind := "watch_fired"
              summary := summary attributes "Watch fired"
              raisedSeq := seq
              dueAt := none
              targetRefs := targets
              priority := none })
      else if activityClass = "commitment_review" ∧ schemaRef = commitmentSchema then
        .ok (some
          { reference := id
            kind := "commitment_due"
            summary := summary attributes "Commitment due"
            raisedSeq := seq
            dueAt := (attributes.index "due_at").asStr
            targetRefs := [id]
            priority := asF64 (attributes.index "priority") })
      else .ok none
    | _, _ => .ok none

def raisedItems (history : List Activity) (call : Call) (row : Row) : Except String (List Item) := do
  let rows ← readInputs history call row.id
  let items ← rows.mapM (raisedItem call row.seq row.activityClass)
  pure (items.filterMap id)

/-- `dedup_by`: an item goes when the last one kept has its reference. -/
def dedupAfter : Option String → List Item → List Item
  | _, [] => []
  | last, item::rest =>
    if last = some item.reference then dedupAfter last rest
    else item::dedupAfter (some item.reference) rest

def readCommit (history : List Activity) (call : Call) (rows : List Row) :
    Except String (List Item) := do
  let items ← rows.mapM (raisedItems history call)
  pure (dedupAfter none (sortBy (fun a b => decide (a.reference ≤ b.reference)) items.flatten))

def grouped : List Row → List (List Row)
  | [] => []
  | row::rows =>
    match grouped rows with
    | (next::group)::groups =>
      if row.seq = next.seq then (row::next::group)::groups else [row]::(next::group)::groups
    | groups => [row]::groups

def push (after : Option Position) (limit : ℕ) : List Item → List Item → List Item × Bool
  | items, [] => (items,false)
  | items, item::rest =>
    if after.any fun after => !after.precedes item.raisedSeq item.reference then
      push after limit items rest
    else if items.length = limit then (items,true)
    else push after limit (items++[item]) rest

structure Scanned where
  items : List Item
  more : Bool
  through : Option ℕ

def scan (read : List Row → Except String (List Item)) (after : Option Position) (limit : ℕ) :
    List Item → Option ℕ → List (List Row) → Except String Scanned
  | items, through, [] => .ok ⟨items,false,through⟩
  | items, through, group::groups =>
    match read group with
    | .error error => .error error
    | .ok commit =>
      match push after limit items commit with
      | (items,true) => .ok ⟨items,true,through⟩
      | (items,false) => scan read after limit items (group.head?.map Row.seq) groups

/-- A cursor inside a commit reads it again; one behind a commit starts at the next. -/
def startOf : Option Position → ℕ
  | none => 0
  | some ⟨seq,some _⟩ => seq
  | some ⟨seq,none⟩ => min (seq+1) (2^64-1)

/-- A full window leaves its last commit to the next page, unless it holds no other. -/
def whole (rows : List Row) : List Row :=
  match rows.head?, rows.getLast? with
  | some first, some last =>
    if activityWindow ≤ rows.length ∧ first.seq ≠ last.seq then
      rows.filter fun row => row.seq != last.seq
    else rows
  | _, _ => rows

def recallAttention (history : List Activity) (cursor : Option Text) (call : Call) :
    Except String Page := do
  let after ← cursor.elim (.ok none) parseCursor
  let limit := call.limit.getD 20
  if ¬(1 ≤ limit ∧ limit ≤ maxPage) then
    throw "attention limit must be 1..=50"
  let window ← readWindow history call (startOf after)
  let rows := window.filterMap readRow
  let windowFull := decide (activityWindow ≤ rows.length)
  let scanned ← scan (readCommit history call) after limit [] none (grouped (whole rows))
  let attentionCursor :=
    if scanned.more then
      (scanned.items.getLast?.map fun last => renderCursor ⟨last.raisedSeq,some last.reference⟩).getD []
    else
      match scanned.through with
      | some seq => renderCursor ⟨seq,none⟩
      | none => cursor.getD cursorStart
  pure ⟨scanned.items,attentionCursor,!scanned.more && !windowFull⟩

/-- The Activities of one commit; the commit gives them its coordinate. -/
structure Commit where
  gap : ℕ
  activities : List Activity

structure Walk where
  history : List Activity
  seq : ℕ
  cursor : Option Text
  delivered : List Item
  pages : List (Page × List Activity)

def Walk.start : Walk := ⟨[],0,none,[],[]⟩

inductive Event where
  | commit (c : Commit)
  | call (c : Call)

def Walk.step (w : Walk) : Event → Walk
  | .commit c =>
    { w with
      history := w.history++c.activities.map fun a => { a with seq := w.seq+1+c.gap }
      seq := w.seq+1+c.gap }
  | .call c =>
    match recallAttention w.history w.cursor c with
    | .error _ => w
    | .ok page =>
      { w with
        cursor := some page.attentionCursor
        delivered := w.delivered++page.items
        pages := w.pages++[(page,w.history)] }

def walk (events : List Event) : Walk := events.foldl Walk.step Walk.start

section Cursors

def ahead (after : Option Position) (k : ℕ ×ₗ String) : Bool :=
  after.all fun after => after.precedes (ofLex k).1 (ofLex k).2

theorem ahead_iff (seq : ℕ) (reference : Option String) (k : ℕ ×ₗ String) : ahead
    (some ⟨seq,reference⟩) k = true ↔ seq < (ofLex k).1 ∨
    ((ofLex k).1 = seq ∧ ∃ last, reference = some last ∧ last < (ofLex k).2) := by
  cases reference <;> simp [ahead, Position.precedes]

theorem ahead_item (last : Item) (k : ℕ ×ₗ String) : ahead
    (some ⟨last.raisedSeq,some last.reference⟩) k = true ↔ toLex (last.raisedSeq,last.reference) < k
    := by
  rw [ahead_iff, show k = toLex (ofLex k) from rfl, Prod.Lex.toLex_lt_toLex]
  constructor
  · rintro (h | ⟨h,reference,hr,hl⟩)
    · exact .inl h
    · cases hr
      exact .inr ⟨h.symm,hl⟩
  · rintro (h | ⟨h,hl⟩)
    · exact .inl h
    · exact .inr ⟨h.symm,_,rfl,hl⟩

theorem ahead_up (after : Option Position) (j k : ℕ ×ₗ String) (hjk : j ≤ k)
    (h : ahead after j = true) : ahead after k = true := by
  cases after with
  | none => rfl
  | some after =>
    obtain ⟨seq,reference⟩ := after
    rw [ahead_iff] at h ⊢
    rw [show j = toLex (ofLex j) from rfl, show k = toLex (ofLex k) from rfl,
      Prod.Lex.toLex_le_toLex] at hjk
    rcases hjk with hlt | ⟨heq,hle⟩
    · rcases h with h | ⟨h,-⟩
      · exact .inl (h.trans hlt)
      · exact .inl (h ▸ hlt)
    · rcases h with h | ⟨h,last,hr,hl⟩
      · exact .inl (heq ▸ h)
      · exact .inr ⟨heq ▸ h,last,hr,hl.trans_le hle⟩

theorem cursor_value (text : Text) : parseCursor (cursorPrefix++text) =
    if text = "start".toList ∨ text = "-1".toList then .ok none
    else
      match splitOnce ':' text with
      | some (seq,reference) =>
        if reference = [] then .error "invalid attention cursor"
        else parseSeq seq (some (String.ofList reference))
      | none => parseSeq text none := by
  have hpre : cursorPrefix.isPrefixOf (cursorPrefix++text) = true :=
    List.isPrefixOf_iff_prefix.mpr (List.prefix_append _ _)
  rw [parseCursor, if_pos hpre]
  simp only [List.drop_left]

theorem parse_start : parseCursor cursorStart = .ok none := by decide

theorem decimal_not_word (n : ℕ) (rest word : Text) (c : Char) (hword : word.head? = some c)
    (hc : c.isDigit = false) : decimal n++rest ≠ word := by
  intro h
  obtain ⟨d,ds,hd⟩ := List.exists_cons_of_ne_nil (l := decimal n) Nat.toDigits_ne_nil
  rw [hd, List.cons_append] at h
  rw [← h, List.head?_cons, Option.some.injEq] at hword
  have hmem : c ∈ decimal n := by rw [hd, hword]; exact List.mem_cons_self ..
  exact not_in_decimal n c hc hmem

theorem split_none (sep : Char) (text : Text) (h : sep ∉ text) : splitOnce sep text = none := by
  induction text with
  | nil => rfl
  | cons c text ih =>
    simp only [List.mem_cons, not_or] at h
    have hc : c ≠ sep := fun heq => h.1 heq.symm
    simp [splitOnce, hc, ih h.2]

theorem parse_render (pos : Position) (hseq : pos.seq < 2^64)
    (href : pos.reference ≠ some "") : parseCursor (renderCursor pos) = .ok (some pos) := by
  obtain ⟨seq,reference⟩ := pos
  have hcolon : ':' ∉ decimal seq := not_in_decimal seq ':' (by decide)
  rw [renderCursor, List.append_assoc, cursor_value]
  have hwords : ¬(decimal seq++reference.elim [] (fun reference => ':'::reference.toList) =
      "start".toList ∨ decimal seq++reference.elim [] (fun reference => ':'::reference.toList) =
      "-1".toList) := by
    rw [not_or]
    exact ⟨decimal_not_word seq _ _ 's' (by decide) (by decide),
      decimal_not_word seq _ _ '-' (by decide) (by decide)⟩
  rw [if_neg hwords]
  cases reference with
  | none =>
    simp only [Option.elim_none, List.append_nil, split_none ':' _ hcolon, parseSeq,
      parse_decimal seq hseq]
  | some reference =>
    have hne : reference.toList ≠ [] := by
      intro h
      apply href
      rw [Option.some.injEq]
      exact String.toList_injective h
    simp only [Option.elim_some, split_once_at ':' (decimal seq) reference.toList hcolon, if_neg hne,
      parseSeq, parse_decimal seq hseq, String.ofList_toList]

end Cursors

end AndaBrain.AttentionRecall
