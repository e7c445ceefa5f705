import Mathlib
import AndaBrain.Json
import AndaBrain.WikiTiling

/-!
# Text of the wiki

`wiki/chunk.rs`, `wiki/outline.rs` and `wiki/types.rs`: content normalization, slugs, checksums,
the outline of a document, titles, excerpts and the citation URI.
-/

set_option autoImplicit false

namespace AndaBrain.WikiText
open Foundation.Utf8Text
open WikiChunk

/-- Unicode tables, NFC and SHA3. NFC is idempotent, a prefix of a text in NFC is in NFC,
a line feed never composes with its neighbours, and no line break is composed. -/
structure Library where
  tables : CharTables
  nfc : Text → Text
  sha3 : Text → Text
  jsonText : Json → Text
  debugText : Text → Text
  lower_stable : ∀ c d, d ∈ tables.toLowercase c → tables.toLowercase d = [d]
  lower_plain : ∀ c ∈ "untitled-".toList, tables.toLowercase c = [c]
  letters : ∀ c ∈ "untitled".toList, tables.isAlphanumeric c = true
  separators : ∀ c ∈ "-/".toList, tables.isAlphanumeric c = false
  spaces : ∀ c, isWhitespace c = true → tables.isAlphanumeric c = false
  nfc_idem : ∀ x, nfc (nfc x) = nfc x
  nfc_lines : ∀ x y, nfc (x++ '\n'::y) = nfc x++ '\n'::nfc y
  nfc_front : ∀ x y, nfc (x++y) = x++y → nfc x = x
  nfc_breaks : ∀ x c, c ∈ nfc x → c = '\n' ∨ c = '\r' → c ∈ x

def byteOrderMark : Char := Char.ofNat 0xfeff

def stripMark (content : Text) : Text :=
  if content.head? = some byteOrderMark then content.tail else content

/-- `replace("\r\n", "\n")`. -/
def replaceCrlf : Text → Text
  | '\r':: '\n'::rest => '\n'::replaceCrlf rest
  | c::rest => c::replaceCrlf rest
  | [] => []

def squeeze : Text → Text
  | '\n':: '\n'::rest => squeeze ('\n'::rest)
  | out => out

def normalizeContent (lib : Library) (content : Text) : Text :=
  let content := stripMark content
  let content := (replaceCrlf content).map fun c => if c = '\r' then '\n' else c
  let content := lib.nfc content
  let out := (content.splitOn '\n').flatMap fun line => trimEnd line++['\n']
  let out := (squeeze out.reverse).reverse
  let out := out.dropWhile (· == '\n')
  if (trim out).isEmpty then [] else out

def slugifyPath (lib : Library) (input : Text) : Text :=
  let segments := (((input.splitOn '/').map trim).filter (!·.isEmpty)).map (slugify lib.tables)
  if segments.isEmpty then "untitled".toList else ['/'].intercalate segments

def checksumFor (lib : Library) (parts : List Text) : Text :=
  "sha3-256:".toList++lib.sha3 parts.flatten

/-- Decimal digits, as `format!` writes a number. -/
def decimal (n : ℕ) : Text := Nat.toDigits 10 n

def chunkChecksum (lib : Library) (versionChecksum : Text) (start stop : ℕ) (text : Text) : Text :=
  checksumFor lib [versionChecksum,decimal start++ ':'::decimal stop,text]

def splitWhitespace : Text → List Text
  | [] => []
  | c::cs =>
    if isWhitespace c then splitWhitespace cs
    else match cs with
      | [] => [[c]]
      | d::_ =>
        if isWhitespace d then [c]::splitWhitespace cs
        else match splitWhitespace cs with
          | [] => [[c]]
          | word::words => (c::word)::words

def quoteExcerpt (text : Text) : Text :=
  let collapsed := [' '].intercalate (splitWhitespace text)
  if collapsed.length ≤ 320 then collapsed else collapsed.take 320++"...".toList

def firstHeadingFrom (fences : FenceTracker) : List Text → Option Text
  | [] => none
  | line::rest =>
    if (fences.feed line).2 then firstHeadingFrom (fences.feed line).1 rest
    else match parseHeading (trimStart line) with
      | some heading => some heading.2
      | none => firstHeadingFrom (fences.feed line).1 rest

/-- `markdown_title`: the first heading outside a code fence. -/
def firstHeadingTitle (content : Text) : Option Text :=
  firstHeadingFrom ⟨none⟩ (content.splitOn '\n')

structure TocEntry where
  anchor : Text
  headingPath : List Text
  byteStart : ℕ
  byteEnd : ℕ
  deriving DecidableEq

structure OutlineState where
  entries : List (ℕ × TocEntry)
  stack : List (ℕ × Text)
  names : List (Text × ℕ)
  fences : FenceTracker
  offset : ℕ

def anchorFor (base : Text) (count : ℕ) : Text :=
  if count = 1 then base else base++ '-'::decimal count

/-- The first count from `count` on whose anchor no entry has. Counts give distinct
anchors, so one more try than there are entries is enough. -/
def freshAnchor (taken : List Text) (base : Text) : ℕ → ℕ → ℕ × Text
  | 0, count => (count,anchorFor base count)
  | fuel+1, count =>
    if taken.contains (anchorFor base count) then freshAnchor taken base fuel (count+1)
    else (count,anchorFor base count)

def countOf (names : List (Text × ℕ)) (base : Text) : ℕ := (names.lookup base).getD 0

def outlineStep (lib : Library) (size : ℕ) (s : OutlineState) (line : Text) : OutlineState :=
  let fed := s.fences.feed line
  let next := { s with fences := fed.1, offset := s.offset+byteLen line }
  if fed.2 then next
  else match parseHeading (trim line) with
    | none => next
    | some (level,title) =>
      let closed := s.entries.map fun e =>
        if level ≤ e.1 ∧ e.2.byteEnd = size then (e.1,{ e.2 with byteEnd := s.offset }) else e
      let stack := (s.stack.reverse.dropWhile fun h => level ≤ h.1).reverse++[(level,title)]
      let base := slugify lib.tables title
      let fresh := freshAnchor (s.entries.map fun e => e.2.anchor) base s.entries.length
        (countOf s.names base+1)
      { next with
        entries := closed++[(level,⟨fresh.2,stack.map Prod.snd,s.offset,size⟩)]
        stack := stack
        names := (base,fresh.1)::s.names }

def preambleAnchor (taken : List Text) : ℕ → Text → Text
  | 0, anchor => anchor
  | fuel+1, anchor => if taken.contains anchor then preambleAnchor taken fuel (anchor++['-']) else anchor

def outline (lib : Library) (content : Text) : List TocEntry :=
  let size := byteLen content
  let s := (splitInclusive '\n' content).foldl (outlineStep lib size) ⟨[],[],[],⟨none⟩,0⟩
  let entries := s.entries.map Prod.snd
  let preambleEnd := entries.head?.elim size TocEntry.byteStart
  if 0 < preambleEnd then
    ⟨preambleAnchor (entries.map TocEntry.anchor) entries.length "preamble".toList,[],0,
      preambleEnd⟩::entries
  else entries

def anchorCovering (entries : List TocEntry) (start stop : ℕ) : Text :=
  let covering := entries.reverse.find? fun e => e.byteStart ≤ start && stop ≤ e.byteEnd
  let starting := entries.reverse.find? fun e => e.byteStart ≤ start && start < e.byteEnd
  ((covering.or starting).map TocEntry.anchor).getD []

def citationUri (spaceId : Text) (docId versionId start stop : ℕ) : Text :=
  "wiki://".toList++spaceId++ '/'::decimal docId++ '@'::decimal versionId++ '#'::decimal start++
    '-'::decimal stop

def splitOnce (sep : Char) : Text → Option (Text × Text)
  | [] => none
  | c::cs => if c = sep then some ([],cs) else (splitOnce sep cs).map fun p => (c::p.1,p.2)

/-- `str::parse::<u64>`: an optional plus sign, at least one digit and no overflow. -/
def parseU64 (text : Text) : Option ℕ :=
  let digits := if text.head? = some '+' then text.tail else text
  if digits ≠ [] ∧ digits.all Char.isDigit = true ∧ Nat.ofDigitChars 10 digits 0 < 2^64 then
    some (Nat.ofDigitChars 10 digits 0)
  else none

section Numbers

theorem split_once_at (sep : Char) (front back : Text) (h : sep ∉ front) :
    splitOnce sep (front++sep::back) = some (front,back) := by
  induction front with
  | nil => simp [splitOnce]
  | cons c front ih =>
    simp only [List.mem_cons, not_or] at h
    have hc : c ≠ sep := fun heq => h.1 heq.symm
    simp [splitOnce, hc, ih h.2]

theorem decimal_digit (n : ℕ) (c : Char) (h : c ∈ decimal n) : c.isDigit = true :=
  Nat.isDigit_of_mem_toDigits (by decide) (by decide) h

theorem not_in_decimal (n : ℕ) (c : Char) (h : c.isDigit = false) : c ∉ decimal n := by
  intro hin
  rw [decimal_digit n c hin] at h
  cases h

theorem parse_decimal (n : ℕ) (h : n < 2^64) : parseU64 (decimal n) = some n := by
  have hplus : (decimal n).head? ≠ some '+' := by
    intro hhead
    exact not_in_decimal n '+' (by decide) (List.mem_of_mem_head? hhead)
  have hvalue : Nat.ofDigitChars 10 (decimal n) 0 = n := Nat.ofDigitChars_ten_toDigits
  have hne : decimal n ≠ [] := Nat.toDigits_ne_nil
  simp only [parseU64, if_neg hplus, hvalue]
  rw [if_pos ⟨hne,List.all_eq_true.mpr (decimal_digit n),h⟩]

end Numbers

structure CitationTarget where
  space : Text
  docId : ℕ
  versionId : ℕ
  start : ℕ
  stop : ℕ
  deriving DecidableEq

def parseCitationUri (uri : Text) : Option CitationTarget := do
  let rest ← if "wiki://".toList.isPrefixOf uri then some (uri.drop 7) else none
  let space ← splitOnce '/' rest
  let doc ← splitOnce '@' space.2
  let version ← splitOnce '#' doc.2
  let range ← splitOnce '-' version.2
  some ⟨space.1,← parseU64 doc.1,← parseU64 version.1,← parseU64 range.1,← parseU64 range.2⟩

section Ascii

theorem to_lower_twice (c : Char) : c.toLower.toLower = c.toLower := by
  by_cases h : c.val ≥ 'A'.val ∧ c.val ≤ 'Z'.val
  · have hnot : ¬(c.toLower.val ≥ 'A'.val ∧ c.toLower.val ≤ 'Z'.val) := by
      rw [Char.toLower, dif_pos h]
      simp only [ge_iff_le, UInt32.le_iff_toNat_le, UInt32.toNat_add] at h ⊢
      simp at h ⊢
      omega
    conv_lhs => rw [Char.toLower, dif_neg hnot]
  · have heq : c.toLower = c := by
      rw [Char.toLower, dif_neg h]
    rw [heq, heq]

theorem space_not_alphanumeric (c : Char) (h : isWhitespace c = true) : c.isAlphanum = false := by
  simp only [isWhitespace, Bool.or_eq_true, Bool.and_eq_true, decide_eq_true_eq, beq_iff_eq] at h
  have hval : c.toNat = c.val.toNat := rfl
  simp only [Char.isAlphanum, Char.isAlpha, Char.isUpper, Char.isLower, Char.isDigit,
    Bool.or_eq_false_iff, Bool.and_eq_false_iff, decide_eq_false_iff_not, ge_iff_le,
    UInt32.le_iff_toNat_le]
  simp
  omega

def asciiLibrary : Library where
  tables := WikiTiling.asciiTables
  nfc := id
  sha3 := id
  jsonText := fun _ => []
  debugText := id
  lower_stable := by
    intro c d hd
    rw [List.mem_singleton.mp hd]
    exact congrArg (fun e => [e]) (to_lower_twice c)
  lower_plain := @of_decide_eq_true _ (List.decidableBAll _ _) rfl
  letters := @of_decide_eq_true _ (List.decidableBAll _ _) rfl
  separators := @of_decide_eq_true _ (List.decidableBAll _ _) rfl
  spaces := space_not_alphanumeric
  nfc_idem := fun _ => rfl
  nfc_lines := fun _ _ => rfl
  nfc_front := fun _ _ _ => rfl
  nfc_breaks := fun _ _ h _ => h

end Ascii

end AndaBrain.WikiText
