import Mathlib
import AndaBrain.Foundation.Utf8Text

/-!
# The history of a completed conversation

`history_document` of `agents.rs` keeps the opening input of a pass and its newest messages within
a budget of bytes.
-/

set_option autoImplicit false

namespace AndaBrain.HistoryDocument
open Foundation.Utf8Text

def historyDocumentMaxBytes : ℕ := 64*1024
def truncatedMarker : Text := "…[truncated]".toList

inductive ContentPart where
  | text (text : Text)
  | other

structure Message (η : Type) where
  header : η
  content : List ContentPart

structure TextMessage (η : Type) where
  header : η
  content : List Text

/-- What the JSON of a message adds to its texts, the white space of `trim`, and
`truncate_utf8_to_max_bytes`. -/
structure Renderer (η : Type) where
  frame : η → ℕ
  partFrame : ℕ
  white : Char → Bool
  cut : ℕ → Text → Text

/-- A cut keeps the characters that end within its bytes. -/
structure Renderer.Documented {η : Type} (r : Renderer η) : Prop where
  head : ∀ max text, r.cut max text <+: text
  within : ∀ max text, byteLen (r.cut max text) ≤ max
  longest : ∀ max text head, head <+: text → byteLen head ≤ max → head <+: r.cut max text

def escapedChar (c : Char) : ℕ :=
  if c = '"' ∨ c = '\\' ∨ c = '\n' ∨ c = '\r' ∨ c = '\t' ∨ c.toNat = 8 ∨ c.toNat = 12 then 2
  else if c.toNat < 32 then 6 else c.utf8Size

def escapedLen (text : Text) : ℕ := (text.map escapedChar).sum

section Document
variable {η : Type} (r : Renderer η)

def truncateText : ℕ → List Text → List Text
  | _, [] => []
  | remaining, text::content =>
    if byteLen text ≤ remaining then text::truncateText (remaining-byteLen text) content
    else [r.cut remaining text++truncatedMarker]

def visibleText : ContentPart → Option Text
  | .text text => if text.all r.white then none else some text
  | .other => none

def textMessage (message : Message η) : Option (TextMessage η) :=
  let content := message.content.filterMap (visibleText r)
  if content = [] then none else some ⟨message.header,content⟩

def textMessages (messages : List (Option (Message η))) : List (TextMessage η) :=
  messages.filterMap fun message => message.bind (textMessage r)

def partsLen (content : List Text) : ℕ :=
  (content.map fun text => r.partFrame+escapedLen text).sum

def renderedLen (m : TextMessage η) : ℕ :=
  r.frame m.header+partsLen r m.content+1

def truncated (m : TextMessage η) (maxBytes : ℕ) : TextMessage η :=
  ⟨m.header,truncateText r maxBytes m.content⟩

/-- The loop over the messages from the newest one on: those that are kept, and how many are
left. -/
def keepNewest : ℕ → Bool → List (TextMessage η) → List (TextMessage η) × ℕ
  | _, _, [] => ([],0)
  | budget, newestEmpty, message::messages =>
    if renderedLen r message ≤ budget then
      let kept := keepNewest (budget-renderedLen r message) false messages
      (message::kept.1,kept.2)
    else if newestEmpty then
      let cut := truncated r message budget
      let kept := keepNewest (budget-renderedLen r cut) false messages
      (cut::kept.1,kept.2)
    else ([],messages.length+1)

/-- The kept messages and `omitted_messages`. -/
def historyDocument (messages : List (Option (Message η))) : List (TextMessage η) × ℕ :=
  match textMessages r messages with
  | [] => ([],0)
  | input::messages =>
    let input := truncated r input (historyDocumentMaxBytes/2)
    let kept := keepNewest r (historyDocumentMaxBytes-renderedLen r input) true messages.reverse
    (input::kept.1.reverse,kept.2)

def size (messages : List (TextMessage η)) : ℕ := (messages.map (renderedLen r)).sum

/-- The cut opening and a suffix of the other messages, the newest of them possibly cut. -/
def Continues (kept : List (TextMessage η)) (omitted : ℕ) : List (TextMessage η) → Prop
  | [] => kept = [] ∧ omitted = 0
  | input::messages => ∃ dropped shown, messages = dropped++shown ∧ omitted = dropped.length ∧
      (kept = truncated r input (historyDocumentMaxBytes/2)::shown ∨ ∃ front newest budget,
        shown = front++[newest] ∧ budget < renderedLen r newest ∧
        kept = truncated r input (historyDocumentMaxBytes/2)::(front++[truncated r newest budget]))

/-! ## How a text renders within its share -/

/-- How the longest head of a text renders that takes at most `max` bytes. -/
def headLen (max : ℕ) (text : Text) : ℕ :=
  ((text.inits.filter fun head => byteLen head ≤ max).map escapedLen).foldr Nat.max 0

/-- The parts that begin within `max` bytes of text. -/
def begun (max : ℕ) (content : List Text) : ℕ :=
  (List.range content.length).countP fun i => byteLen (content.take i).flatten ≤ max

/-- What a message adds within a share of `max` bytes of text: itself where its texts take no
more, and else its head, in the parts that begin there, and the marker. -/
def sharedLen (m : TextMessage η) (max : ℕ) : ℕ :=
  if byteLen m.content.flatten ≤ max then renderedLen r m
  else r.frame m.header+(begun max m.content*r.partFrame+headLen max m.content.flatten+
    escapedLen truncatedMarker)+1

/-- The opening message within half of the budget, and the newest one within what is left of it. -/
def SharesFit (slack : ℕ) : List (TextMessage η) → Prop
  | [] => True
  | input::messages =>
    let opening := sharedLen r input (historyDocumentMaxBytes/2)
    match messages.getLast? with
    | none => opening ≤ historyDocumentMaxBytes+slack
    | some newest => renderedLen r newest ≤ historyDocumentMaxBytes-opening ∨
      opening+sharedLen r newest (historyDocumentMaxBytes-opening) ≤ historyDocumentMaxBytes+slack

theorem escaped_append (a b : Text) : escapedLen (a++b) = escapedLen a+escapedLen b := by
  simp [escapedLen]

theorem flatten_cons (text : Text) (content : List Text) :
    byteLen (text::content).flatten = byteLen text+byteLen content.flatten := by
  rw [List.flatten_cons, byte_len_append]

theorem truncate_whole (max : ℕ) (content : List Text) (hfit : byteLen content.flatten ≤ max) :
    truncateText r max content = content := by
  induction content generalizing max with
  | nil => rfl
  | cons text content ih =>
    rw [flatten_cons] at hfit
    rw [truncateText, if_pos (by omega), ih _ (by omega)]

section Cuts
variable {r} (h : r.Documented)
include h

theorem head_len (max : ℕ) (text : Text) : headLen max text = escapedLen (r.cut max text) := by
  apply le_antisymm
  · apply List.max_le_of_forall_le
    intro len hlen
    obtain ⟨head,hhead,rfl⟩ := List.mem_map.1 hlen
    rw [List.mem_filter, List.mem_inits, decide_eq_true_eq] at hhead
    obtain ⟨rest,hrest⟩ := h.longest max text head hhead.1 hhead.2
    rw [← hrest, escaped_append]
    exact Nat.le_add_right _ _
  · refine List.le_max_of_le (List.mem_map_of_mem (List.mem_filter.2 ⟨?_,?_⟩)) (Nat.le_refl _)
    · exact (List.mem_inits _ _).2 (h.head max text)
    · exact decide_eq_true (h.within max text)

/-- A part that fits goes whole, and the cut falls behind it. -/
theorem cut_behind (max : ℕ) (text rest : Text) (hfit : byteLen text ≤ max) :
    r.cut max (text++rest) = text++r.cut (max-byteLen text) rest := by
  have hwithin := h.within (max-byteLen text) rest
  have hle : text++r.cut (max-byteLen text) rest <+: r.cut max (text++rest) := by
    refine h.longest _ _ _ ((List.prefix_append_right_inj _).2 (h.head _ _)) ?_
    rw [byte_len_append]
    omega
  obtain ⟨more,hmore⟩ := h.longest max (text++rest) text (List.prefix_append _ _) hfit
  have hge : more <+: r.cut (max-byteLen text) rest := by
    apply h.longest
    · rw [← List.prefix_append_right_inj text, hmore]
      exact h.head _ _
    · have := h.within max (text++rest)
      rw [← hmore, byte_len_append] at this
      omega
  rw [← hmore] at hle ⊢
  rw [List.prefix_append_right_inj] at hle
  rw [hge.eq_of_length (Nat.le_antisymm hge.length_le hle.length_le)]

/-- A part that does not fit holds the cut. -/
theorem cut_inside (max : ℕ) (text rest : Text) (hlong : max < byteLen text) :
    r.cut max (text++rest) = r.cut max text := by
  have hwithin := h.within max (text++rest)
  have hle : r.cut max text <+: r.cut max (text++rest) :=
    h.longest _ _ _ ((h.head _ _).trans (List.prefix_append _ _)) (h.within _ _)
  have hge : r.cut max (text++rest) <+: r.cut max text := by
    refine h.longest _ _ _ ?_ hwithin
    refine (List.prefix_or_prefix_of_prefix (h.head max (text++rest))
      (List.prefix_append text rest)).resolve_right ?_
    rintro ⟨more,hmore⟩
    rw [← hmore, byte_len_append] at hwithin
    omega
  exact (hle.eq_of_length (Nat.le_antisymm hle.length_le hge.length_le)).symm

theorem truncate_len (max : ℕ) (content : List Text) (hlong : max < byteLen content.flatten) :
    partsLen r (truncateText r max content) = begun max content*r.partFrame+
      headLen max content.flatten+escapedLen truncatedMarker := by
  induction content generalizing max with
  | nil => exact absurd hlong (Nat.not_lt_zero _)
  | cons text content ih =>
    rw [flatten_cons] at hlong
    rw [begun, List.length_cons, List.range_succ_eq_map, List.countP_cons, List.countP_map,
      head_len h, List.flatten_cons, truncateText]
    have hfirst : byteLen (List.take 0 (text::content)).flatten ≤ max := Nat.zero_le _
    have hbegun : decide (byteLen (List.take 0 (text::content)).flatten ≤ max) = true :=
      decide_eq_true hfirst
    rw [if_pos hbegun]
    by_cases hfit : byteLen text ≤ max
    · have hrest := ih (max-byteLen text) (by omega)
      have hcount : ((fun i => decide (byteLen ((text::content).take i).flatten ≤ max)) ∘ Nat.succ) =
          fun i => decide (byteLen (content.take i).flatten ≤ max-byteLen text) := by
        funext i
        rw [Function.comp, List.take_succ_cons, flatten_cons, decide_eq_decide]
        omega
      rw [head_len h, begun] at hrest
      rw [if_pos hfit, cut_behind h _ _ _ hfit, escaped_append, hcount, partsLen, List.map_cons,
        List.sum_cons]
      rw [partsLen] at hrest
      rw [hrest]
      rw [Nat.add_mul, Nat.one_mul]
      omega
    · have hcount : ((fun i => decide (byteLen ((text::content).take i).flatten ≤ max)) ∘ Nat.succ) =
          fun _ => false := by
        funext i
        rw [Function.comp, List.take_succ_cons, flatten_cons, decide_eq_false_iff_not]
        omega
      rw [if_neg hfit, cut_inside h _ _ _ (by omega), hcount]
      simp [partsLen, escaped_append, Nat.add_assoc]

theorem truncated_len (m : TextMessage η) (max : ℕ) :
    renderedLen r (truncated r m max) = sharedLen r m max := by
  unfold sharedLen
  split
  · rename_i hfit
    rw [truncated, truncate_whole r max m.content hfit]
  · rename_i hlong
    rw [renderedLen, truncated, truncate_len h max m.content (by omega)]

end Cuts

theorem keep_rest (budget : ℕ) (messages : List (TextMessage η)) : size r
    (keepNewest r budget false messages).1 ≤ budget ∧ ∃ older, messages =
    (keepNewest r budget false messages).1++older ∧ (keepNewest r budget false messages).2 =
    older.length := by
  induction messages generalizing budget with
  | nil => exact ⟨Nat.zero_le _,[],rfl,rfl⟩
  | cons message messages ih =>
    unfold keepNewest
    by_cases h : renderedLen r message ≤ budget
    · obtain ⟨hsize,older,hsplit,hcount⟩ := ih (budget-renderedLen r message)
      simp only [if_pos h]
      refine ⟨?_,older,congrArg (message::·) hsplit,hcount⟩
      simp only [size, List.map_cons, List.sum_cons] at hsize ⊢
      omega
    · simp only [if_neg h, Bool.false_eq_true, if_false]
      exact ⟨Nat.zero_le _,_,rfl,rfl⟩

theorem keep_newest (budget : ℕ) (message : TextMessage η) (messages : List (TextMessage η)) :
    ∃ first shown older, messages = shown++older ∧
      keepNewest r budget true (message::messages) = (first::shown,older.length) ∧
      (renderedLen r message ≤ budget ∧ first = message ∨
        budget < renderedLen r message ∧ first = truncated r message budget) ∧
      size r shown ≤ budget-renderedLen r first := by
  unfold keepNewest
  by_cases h : renderedLen r message ≤ budget
  · obtain ⟨hsize,older,hsplit,hcount⟩ := keep_rest r (budget-renderedLen r message) messages
    simp only [if_pos h, hcount]
    exact ⟨_,_,older,hsplit,rfl,.inl ⟨h,rfl⟩,hsize⟩
  obtain ⟨hsize,older,hsplit,hcount⟩ :=
    keep_rest r (budget-renderedLen r (truncated r message budget)) messages
  simp only [if_neg h, if_true, hcount]
  exact ⟨_,_,older,hsplit,rfl,.inr ⟨by omega,rfl⟩,hsize⟩

theorem size_reverse_concat (messages : List (TextMessage η)) (m : TextMessage η) :
    size r (messages.reverse++[m]) = size r messages+renderedLen r m := by
  simp [size, List.sum_reverse]

end Document

/-- What a history document keeps, and when it stays within its budget: exactly when the opening
message renders within it as far as half of the budget reaches into its texts, and the newest one
as far as the rest does. -/
theorem history_document_fits {η : Type} (r : Renderer η) (h : r.Documented)
    (messages : List (Option (Message η))) (slack : ℕ) :
    Continues r (historyDocument r messages).1 (historyDocument r messages).2 (textMessages r messages) ∧
    (size r (historyDocument r messages).1 ≤ historyDocumentMaxBytes+slack ↔
      SharesFit r slack (textMessages r messages)) := by
  unfold historyDocument
  cases textMessages r messages with
  | nil => exact ⟨⟨rfl,rfl⟩,by simp [size, SharesFit]⟩
  | cons input messages =>
    have hcons (m : TextMessage η) (kept : List (TextMessage η)) :
        size r (m::kept) = renderedLen r m+size r kept := rfl
    have hopening := truncated_len h input (historyDocumentMaxBytes/2)
    rcases List.eq_nil_or_concat messages with rfl | ⟨older,newest,rfl⟩
    · exact ⟨⟨[],[],rfl,rfl,.inl rfl⟩,by simp [SharesFit, keepNewest, size, hopening]⟩
    simp only [List.concat_eq_append, List.reverse_append, List.reverse_singleton,
      List.singleton_append]
    generalize hcut : truncated r input (historyDocumentMaxBytes/2) = cut at hopening
    obtain ⟨first,shown,left,hsplit,hkeep,hfirst,hsize⟩ :=
      keep_newest r (historyDocumentMaxBytes-renderedLen r cut) newest older.reverse
    have holder : older = left.reverse++shown.reverse := by
      rw [← List.reverse_append, ← hsplit, List.reverse_reverse]
    rw [hkeep, hcons, List.reverse_cons, size_reverse_concat]
    constructor
    · refine ⟨left.reverse,shown.reverse++[newest],by rw [holder, List.append_assoc],by simp,?_⟩
      rcases hfirst with ⟨-,rfl⟩ | ⟨hlong,rfl⟩
      · exact .inl (by rw [hcut])
      · exact .inr ⟨_,newest,_,rfl,hlong,by rw [hcut]⟩
    unfold SharesFit
    simp only [List.getLast?_append, List.getLast?_singleton, Option.some_or, ← hopening]
    rcases hfirst with ⟨hfit,rfl⟩ | ⟨hlong,rfl⟩
    · have hpos : 0 < renderedLen r first := Nat.succ_pos _
      omega
    rw [← truncated_len h newest]
    -- what is left when the cut message fits holds the others
    by_cases hroom : renderedLen r (truncated r newest (historyDocumentMaxBytes-renderedLen r cut)) <
        historyDocumentMaxBytes-renderedLen r cut
    · omega
    · have hnone : size r shown = 0 := by omega
      omega

/-- The characters of a text that end within `max` bytes. -/
def headWithin : ℕ → Text → Text
  | _, [] => []
  | max, c::text => if c.utf8Size ≤ max then c::headWithin (max-c.utf8Size) text else []

def plain : Renderer Unit := ⟨fun _ => 60,26,Char.isWhitespace,headWithin⟩

theorem plain_documented : plain.Documented where
  head max text := by
    show headWithin max text <+: text
    induction text generalizing max with
    | nil => exact List.prefix_refl _
    | cons c text ih =>
      unfold headWithin
      split
      · exact (List.prefix_cons_inj c).2 (ih _)
      · exact List.nil_prefix
  within max text := by
    show byteLen (headWithin max text) ≤ max
    induction text generalizing max with
    | nil => exact Nat.zero_le _
    | cons c text ih =>
      unfold headWithin
      split
      · have hrest := ih (max-c.utf8Size)
        rw [byteLen]
        omega
      · exact Nat.zero_le _
  longest max text head := by
    show head <+: text → byteLen head ≤ max → head <+: headWithin max text
    intro hhead hfit
    induction text generalizing max head with
    | nil => exact hhead
    | cons c text ih =>
      cases head with
      | nil => exact List.nil_prefix
      | cons d head =>
        obtain ⟨rfl,hrest⟩ := List.cons_prefix_cons.1 hhead
        rw [byteLen] at hfit
        rw [headWithin, if_pos (by omega), List.prefix_cons_inj]
        exact ih (max-d.utf8Size) head hrest (by omega)

def control : Char := Char.ofNat 1

def controls (n : ℕ) : Text := List.replicate n control

theorem controls_bytes (n : ℕ) : byteLen (controls n) = n := by
  have hsize : control.utf8Size = 1 := by decide
  induction n with
  | zero => rfl
  | succ n ih =>
    rw [controls, List.replicate_succ, byteLen, hsize]
    rw [controls] at ih
    omega

theorem controls_escaped (n : ℕ) : escapedLen (controls n) = 6*n := by
  have hsize : escapedChar control = 6 := by decide
  simp [escapedLen, controls, hsize, Nat.mul_comm]

theorem controls_text (n : ℕ) (h : 0 < n) :
    textMessages plain [some ⟨(),[.text (controls n)]⟩] = [⟨(),[controls n]⟩] := by
  have hvisible : (controls n).all plain.white = false := by
    obtain ⟨k,rfl⟩ : ∃ k, n = k+1 := ⟨n-1,by omega⟩
    rfl
  simp [textMessages, textMessage, visibleText, hvisible]

/-- Control characters render six times as long: ten thousand of them fit. -/
theorem history_document_fits_controls :
    size plain (historyDocument plain [some ⟨(),[.text (controls 10000)]⟩]).1 ≤
      historyDocumentMaxBytes+1024 := by
  generalize hn : 10000 = n
  have hfits := (history_document_fits plain plain_documented [some ⟨(),[.text (controls n)]⟩] 1024).2
  rw [controls_text n (by omega)] at hfits
  refine hfits.mpr ?_
  have hwhole : byteLen [controls n].flatten ≤ historyDocumentMaxBytes/2 := by
    rw [List.flatten_singleton, controls_bytes, historyDocumentMaxBytes]
    omega
  show sharedLen plain ⟨(),[controls n]⟩ (historyDocumentMaxBytes/2) ≤ historyDocumentMaxBytes+1024
  rw [sharedLen, if_pos hwhole, renderedLen, partsLen, List.map_singleton, List.sum_singleton,
    controls_escaped, historyDocumentMaxBytes]
  show 60+(26+6*n)+1 ≤ _
  omega

theorem head_escaped (m n : ℕ) (h : m ≤ n) : 6*m ≤ escapedLen (headWithin m (controls n)) := by
  have hhead : controls m <+: headWithin m (controls n) := by
    refine plain_documented.longest m (controls n) _ ⟨controls (n-m),?_⟩ (controls_bytes m).le
    rw [controls, controls, controls, List.replicate_append_replicate, Nat.add_sub_cancel' h]
  obtain ⟨rest,hrest⟩ := hhead
  rw [← hrest, escaped_append, controls_escaped]
  omega

theorem controls_cut (m n : ℕ) (h : m < n) : truncated plain ⟨(),[controls n]⟩ m =
    ⟨(),[headWithin m (controls n)++truncatedMarker]⟩ := by
  rw [truncated, truncateText, controls_bytes, if_neg (Nat.not_le.mpr h)]
  rfl

theorem escaped_exceeds (shown : Text)
    (h : 6*(historyDocumentMaxBytes/2) ≤ escapedLen shown) :
    ¬size plain [⟨(),[shown++truncatedMarker]⟩] ≤ historyDocumentMaxBytes+1024 := by
  have hmax : historyDocumentMaxBytes = 65536 := rfl
  simp only [size, List.map_cons, List.map_nil, List.sum_cons, List.sum_nil, renderedLen, partsLen,
    escaped_append]
  omega

/-- An input of 70,000 control characters is cut to half the budget in bytes of text, and renders
six times as long. -/
theorem escaped_input_exceeds : ¬size plain
    (historyDocument plain [some ⟨(),[.text (controls 70000)]⟩]).1 ≤ historyDocumentMaxBytes+1024 := by
  have hhalf : historyDocumentMaxBytes/2 < 70000 := by decide
  have hdoc : (historyDocument plain [some ⟨(),[.text (controls 70000)]⟩]).1 =
      [⟨(),[headWithin (historyDocumentMaxBytes/2) (controls 70000)++truncatedMarker]⟩] := by
    rw [historyDocument, controls_text _ (by omega)]
    show [truncated plain _ (historyDocumentMaxBytes/2)] = _
    rw [controls_cut _ _ hhalf]
  rw [hdoc]
  exact escaped_exceeds _ (head_escaped _ _ hhalf.le)

end AndaBrain.HistoryDocument
