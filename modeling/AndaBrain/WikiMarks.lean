import AndaBrain.WikiNormal

/-!
# Normalizing twice

One byte order mark is taken away before the lines are trimmed and the blank lines at the front
go.
-/

set_option autoImplicit false

namespace AndaBrain.WikiMarks
open Foundation.Utf8Text
open WikiText WikiNormal

/-- What NFC does at whitespace and at marks: it makes no text blank that was not, it moves no
mark to the front or away from it, and the rest of a text in NFC is in NFC. -/
structure Inert (lib : Library) : Prop where
  blank : ∀ x, (∀ c ∈ lib.nfc x, isWhitespace c = true) ↔ ∀ c ∈ x, isWhitespace c = true
  mark : ∀ x, (lib.nfc x).head? = some byteOrderMark ↔ x.head? = some byteOrderMark
  rest : ∀ x y, lib.nfc (x++y) = x++y → lib.nfc y = y

def inputLines (content : Text) : List Text :=
  ((replaceCrlf (stripMark content)).map fun c => if c = '\r' then '\n' else c).splitOn '\n'

def isBlank (line : Text) : Bool := line.all isWhitespace

def Marked (content : Text) : Prop :=
  ∃ line, (inputLines content).find? (!isBlank ·) = some line ∧ line.head? = some byteOrderMark

section Lines
variable {lib : Library}

theorem nfc_lines_map (text : Text) :
    (lib.nfc text).splitOn '\n' = (text.splitOn '\n').map lib.nfc := by
  induction hn : text.length using Nat.strongRecOn generalizing text with
  | ind n ih =>
    by_cases hfeed : '\n' ∈ text
    · obtain ⟨x,y,rfl,hx⟩ := List.eq_append_cons_of_mem hfeed
      have hx' : '\n' ∉ lib.nfc x := fun hin => hx (lib.nfc_breaks x _ hin (Or.inl rfl))
      rw [lib.nfc_lines, List.splitOn_append_cons_self_of_not_mem hx',
        List.splitOn_append_cons_self_of_not_mem hx, ih y.length (by simp at hn; omega) y rfl]
      rfl
    · have hfeed' : '\n' ∉ lib.nfc text := fun hin => hfeed (lib.nfc_breaks text _ hin (Or.inl rfl))
      rw [List.splitOn_eq_singleton hfeed, List.splitOn_eq_singleton hfeed']
      rfl

theorem cut_lines_input (content : Text) :
    cutLines lib content = (inputLines content).map fun line => trimEnd (lib.nfc line) := by
  rw [cutLines, nfc_lines_map, List.map_map]
  rfl

theorem trim_end_nil (text : Text) : trimEnd text = [] ↔ ∀ c ∈ text, isWhitespace c = true :=
  List.rdropWhile_eq_nil_iff

theorem trim_end_head (text : Text) (h : trimEnd text ≠ []) : (trimEnd text).head? = text.head? := by
  obtain ⟨rest,hrest⟩ := List.rdropWhile_prefix isWhitespace text
  conv_rhs => rw [← hrest]
  cases hcut : trimEnd text with
  | nil => exact absurd hcut h
  | cons c cs =>
    have heq : text.rdropWhile isWhitespace = c::cs := hcut
    rw [heq]
    rfl

variable (hlib : Inert lib)
include hlib

theorem cut_empty (line : Text) : trimEnd (lib.nfc line) = [] ↔ isBlank line = true := by
  rw [trim_end_nil, hlib.blank, isBlank, List.all_eq_true]

theorem cut_marked (line : Text) (h : isBlank line = false) :
    (trimEnd (lib.nfc line)).head? = some byteOrderMark ↔ line.head? = some byteOrderMark := by
  have hne : trimEnd (lib.nfc line) ≠ [] := by
    intro hnil
    rw [(cut_empty hlib line).mp hnil] at h
    cases h
  rw [trim_end_head _ hne, hlib.mark]

end Lines

theorem drop_back (front : List Text) (line : Text) (back : List Text) (h : line ≠ []) :
    ∃ kept, (front++line::back).rdropWhile List.isEmpty = front++line::kept := by
  induction back using List.reverseRecOn with
  | nil =>
    refine ⟨[],?_⟩
    exact List.rdropWhile_concat_neg _ _ _ (by simpa using h)
  | append_singleton back last ih =>
    have hsplit : front++line::(back++[last]) = (front++line::back)++[last] := by simp
    rw [hsplit]
    by_cases hlast : last = []
    · rw [List.rdropWhile_concat_pos _ _ _ (by simp [hlast])]
      exact ih
    · refine ⟨back++[last],?_⟩
      rw [List.rdropWhile_concat_neg _ _ _ (by simpa using hlast), hsplit]

theorem drop_front (front : List Text) (line : Text) (back : List Text)
    (hfront : ∀ l ∈ front, l = []) (h : line ≠ []) :
    (front++line::back).dropWhile List.isEmpty = line::back := by
  induction front with
  | nil => exact List.dropWhile_cons_of_neg (by simpa using h)
  | cons l front ih =>
    rw [List.cons_append, List.dropWhile_cons_of_pos (by simp [hfront l (by simp)])]
    exact ih fun m hm => hfront m (List.mem_cons_of_mem _ hm)

section Twice
variable {lib : Library} (hlib : Inert lib)
include hlib

theorem normalize_first (content line : Text)
    (h : (inputLines content).find? (!isBlank ·) = some line) : ∃ lines, normalizeContent lib
    content = terminated (trimEnd (lib.nfc line)::lines) ∧ Normal lib
    (trimEnd (lib.nfc line)::lines) := by
  obtain ⟨hshown,front,back,hlines,hfront⟩ := List.find?_eq_some_iff_append.mp h
  have hblank : isBlank line = false := by simpa using hshown
  have hne : trimEnd (lib.nfc line) ≠ [] := by
    intro hnil
    rw [(cut_empty hlib line).mp hnil] at hblank
    cases hblank
  have hcut : cutLines lib content = (front.map fun l => trimEnd (lib.nfc l))++
      trimEnd (lib.nfc line)::(back.map fun l => trimEnd (lib.nfc l)) := by
    rw [cut_lines_input, hlines, List.map_append, List.map_cons]
  have hempty : ∀ l ∈ front.map fun l => trimEnd (lib.nfc l), l = [] := by
    intro l hl
    obtain ⟨raw,hraw,rfl⟩ := List.mem_map.mp hl
    rw [cut_empty hlib]
    simpa using hfront raw hraw
  obtain ⟨kept,hkept⟩ := drop_back (front.map fun l => trimEnd (lib.nfc l)) _
    (back.map fun l => trimEnd (lib.nfc l)) hne
  have htidy : tidy (cutLines lib content) =
      (front.map fun l => trimEnd (lib.nfc l))++trimEnd (lib.nfc line)::kept := by
    rw [tidy, hcut, hkept, if_neg (by simp)]
  have hdrop : (tidy (cutLines lib content)).dropWhile List.isEmpty =
      trimEnd (lib.nfc line)::kept := by
    rw [htidy]
    exact drop_front _ _ _ hempty hne
  have hnormal := dropped_normal _ (cut_lines_each content) (by rw [hdrop]; simp)
  rw [hdrop] at hnormal
  refine ⟨kept,?_,hnormal⟩
  rw [normalize_eq, hdrop, if_neg]
  exact terminated_not_blank _ _ List.mem_cons_self hne (hnormal.each _ List.mem_cons_self)

theorem normalize_blank (content : Text) (h : (inputLines content).find? (!isBlank ·) = none) :
    normalizeContent lib content = [] := by
  have hall : ∀ l ∈ cutLines lib content, l = [] := by
    intro l hl
    rw [cut_lines_input] at hl
    obtain ⟨raw,hraw,rfl⟩ := List.mem_map.mp hl
    rw [cut_empty hlib]
    simpa using List.find?_eq_none.mp h raw hraw
  have hnone : (cutLines lib content).rdropWhile List.isEmpty = [] :=
    List.rdropWhile_eq_nil_iff.mpr fun l hl => by simp [hall l hl]
  rw [normalize_eq, tidy, if_pos hnone]
  rfl

/-- Normalizing a second time changes nothing exactly when the first line that is not blank does
not begin with a mark of its own. -/
theorem normalize_twice (content : Text) : normalizeContent lib (normalizeContent lib content) =
    normalizeContent lib content ↔ ¬Marked content := by
  cases hfind : (inputLines content).find? (!isBlank ·) with
  | none =>
    rw [normalize_blank hlib content hfind]
    have hagain : normalizeContent lib [] = [] := by
      apply normalize_blank hlib
      rfl
    constructor
    · rintro - ⟨line,hline,-⟩
      rw [hfind] at hline
      cases hline
    · exact fun _ => hagain
  | some line =>
    obtain ⟨lines,heq,hnormal⟩ := normalize_first hlib content line hfind
    have hshown : isBlank line = false := by simpa using List.find?_some hfind
    have hne : trimEnd (lib.nfc line) ≠ [] := by
      intro hnil
      rw [(cut_empty hlib line).mp hnil] at hshown
      cases hshown
    have hhead : (terminated (trimEnd (lib.nfc line)::lines)).head? = some byteOrderMark ↔
        Marked content := by
      have hfirst : (terminated (trimEnd (lib.nfc line)::lines)).head? =
          (trimEnd (lib.nfc line)).head? := by
        rw [terminated_cons]
        cases hcut : trimEnd (lib.nfc line) with
        | nil => exact absurd hcut hne
        | cons c cs => rfl
      rw [hfirst, cut_marked hlib line hshown]
      constructor
      · exact fun hmark => ⟨line,hfind,hmark⟩
      · rintro ⟨other,hother,hmark⟩
        rw [hfind, Option.some.injEq] at hother
        rwa [hother]
    rw [heq, ← hhead]
    constructor
    · intro hsame hmark
      rcases normalize_marked hlib.rest _ hnormal hmark with honly | ⟨-,hshort⟩
      · rw [honly, normalize_mark_only] at hsame
        cases hsame
      · rw [hsame] at hshort
        exact lt_irrefl _ hshort
    · exact normalize_stable _ hnormal

end Twice

theorem ascii_inert : Inert asciiLibrary := by
  refine ⟨fun _ => Iff.rfl,fun _ => Iff.rfl,fun _ _ _ => rfl⟩

theorem normalize_twice_lines : normalizeContent asciiLibrary
    (normalizeContent asciiLibrary "\n a \r\nb\t".toList) = normalizeContent asciiLibrary
    "\n a \r\nb\t".toList ↔ ¬Marked "\n a \r\nb\t".toList :=
  normalize_twice ascii_inert _

/-- The second of two marks is left by the first pass and taken away by the second one. -/
theorem two_marks_change : ¬∀ (lib : Library), Inert lib → ∀ content, normalizeContent lib
    (normalizeContent lib content) = normalizeContent lib content := by
  intro h
  have hsame := h asciiLibrary ascii_inert [byteOrderMark,byteOrderMark,'a']
  revert hsame
  decide +kernel

end AndaBrain.WikiMarks
