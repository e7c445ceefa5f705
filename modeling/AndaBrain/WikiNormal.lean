import AndaBrain.WikiSlugs

/-!
# Normalized content is stable

What `normalize_content` returns is a list of lines, each ended by a line feed: no spaces
at their ends, no carriage returns, in NFC, and the first and the last of them not empty.
On such a text it changes nothing, unless the text begins with a byte order mark: the mark
of a text that had two of them is taken away the second time.
-/

set_option autoImplicit false

namespace AndaBrain.WikiNormal
open Foundation.Utf8Text
open WikiText

def terminated (lines : List Text) : Text := lines.flatMap fun line => line++['\n']

theorem terminated_cons (line : Text) (lines : List Text) :
    terminated (line::lines) = line++ '\n'::terminated lines := by
  simp [terminated]

section Cut

def tidy (lines : List Text) : List Text :=
  if lines.rdropWhile List.isEmpty = [] then [[]] else lines.rdropWhile List.isEmpty

theorem squeeze_stops (c : Char) (rest : Text) (h : c ≠ '\n') :
    squeeze ('\n'::c::rest) = '\n'::c::rest := by
  rw [squeeze]
  rintro _ ⟨⟩
  exact h rfl

theorem squeeze_terminated (lines : List Text) (hne : lines ≠ []) (h : ∀ line ∈ lines, '\n' ∉ line) :
    (squeeze (terminated lines).reverse).reverse = terminated (tidy lines) := by
  induction lines using List.reverseRecOn with
  | nil => exact absurd rfl hne
  | append_singleton front line ih =>
    rcases List.eq_nil_or_concat' line with rfl | ⟨before,c,rfl⟩
    · have hdrop : (front++[[]]).rdropWhile List.isEmpty = front.rdropWhile List.isEmpty :=
        List.rdropWhile_concat_pos _ _ _ rfl
      rcases List.eq_nil_or_concat' front with rfl | ⟨before,last,rfl⟩
      · rfl
      have hone : (terminated (before++[last])).reverse =
          '\n'::(last.reverse++(terminated before).reverse) := by
        simp [terminated]
      have htwo : (terminated (before++[last]++[[]])).reverse =
          '\n':: '\n'::(last.reverse++(terminated before).reverse) := by
        simp [terminated]
      rw [htwo, squeeze, ← hone, ih (by simp) fun l hl => h l (List.mem_append_left _ hl), tidy, tidy,
        hdrop]
    · have hc : c ≠ '\n' := fun heq => h (before++[c]) (by simp) (by simp [heq])
      have hkept : (front++[before++[c]]).rdropWhile List.isEmpty = front++[before++[c]] :=
        List.rdropWhile_concat_neg _ _ _ (by simp)
      have hrev : (terminated (front++[before++[c]])).reverse =
          '\n'::c::(before.reverse++(terminated front).reverse) := by
        simp [terminated]
      rw [tidy, hkept, if_neg (by simp), hrev, squeeze_stops c _ hc, ← hrev, List.reverse_reverse]

theorem drop_terminated (lines : List Text) (h : ∀ line ∈ lines, '\n' ∉ line) :
    (terminated lines).dropWhile (· == '\n') = terminated (lines.dropWhile List.isEmpty) := by
  induction lines with
  | nil => rfl
  | cons line lines ih =>
    cases line with
    | nil => simpa [terminated_cons] using ih fun l hl => h l (by simp [hl])
    | cons c line =>
      have hc : c ≠ '\n' := fun heq => h (c::line) (by simp) (by simp [heq])
      simp [terminated_cons, hc]

end Cut

section Lines
variable {lib : Library}

structure Line (lib : Library) (line : Text) : Prop where
  feed : '\n' ∉ line
  back : '\r' ∉ line
  trimmed : trimEnd line = line
  nfc : lib.nfc line = line

structure Normal (lib : Library) (lines : List Text) : Prop where
  each : ∀ line ∈ lines, Line lib line
  first : ∃ line, lines.head? = some line ∧ line ≠ []
  last : ∃ line, lines.getLast? = some line ∧ line ≠ []

variable (text : Text) (content : Text) (lines : List Text) (line : Text)

theorem no_return (h : '\r' ∉ text) :
    (replaceCrlf text).map (fun c => if c = '\r' then '\n' else c) = text := by
  induction text with
  | nil => rfl
  | cons c rest ih =>
    simp only [List.mem_cons, not_or] at h
    have hc : c ≠ '\r' := fun heq => h.1 heq.symm
    rw [replaceCrlf, List.map_cons, ih h.2, if_neg hc]
    rintro _ rfl
    exact absurd rfl hc

theorem return_gone : '\r' ∉ (replaceCrlf text).map fun c => if c = '\r' then '\n' else c := by
  intro h
  obtain ⟨c,-,hc⟩ := List.mem_map.mp h
  split at hc
  · cases hc
  · rename_i hne
    exact hne hc

theorem nfc_nil : lib.nfc [] = [] := lib.nfc_front [] (lib.nfc []) (lib.nfc_idem [])

theorem nfc_terminated (h : ∀ line ∈ lines, lib.nfc line = line) :
    lib.nfc (terminated lines) = terminated lines := by
  induction lines with
  | nil => exact nfc_nil
  | cons line lines ih =>
    rw [terminated_cons, lib.nfc_lines, h line (by simp), ih fun l hl => h l (by simp [hl])]

theorem first_feed (a b x y : Text) (ha : '\n' ∉ a) (hb : '\n' ∉ b) (h : a++ '\n'::x = b++ '\n'::y) :
    a = b ∧ x = y := by
  induction a generalizing b with
  | nil =>
    cases b with
    | nil => simpa using h
    | cons c b =>
      simp only [List.nil_append, List.cons_append, List.cons.injEq] at h
      exact absurd (List.mem_cons.mpr (Or.inl h.1)) hb
  | cons c a ih =>
    cases b with
    | nil =>
      simp only [List.nil_append, List.cons_append, List.cons.injEq] at h
      exact absurd (List.mem_cons.mpr (Or.inl h.1.symm)) ha
    | cons d b =>
      simp only [List.cons_append, List.cons.injEq] at h
      obtain ⟨hab,hxy⟩ := ih b (fun hin => ha (by simp [hin])) (fun hin => hb (by simp [hin])) h.2
      exact ⟨by rw [h.1, hab],hxy⟩

theorem nfc_split (h : lib.nfc text = text) :
    ∀ line ∈ text.splitOn '\n', lib.nfc line = line ∧ '\n' ∉ line ∧ ∀ c ∈ line, c ∈ text := by
  induction hn : text.length using Nat.strongRecOn generalizing text with
  | ind n ih =>
    by_cases hfeed : '\n' ∈ text
    · obtain ⟨x,y,rfl,hx⟩ := List.eq_append_cons_of_mem hfeed
      rw [lib.nfc_lines] at h
      have hx' : '\n' ∉ lib.nfc x := fun hin => hx (lib.nfc_breaks x _ hin (Or.inl rfl))
      obtain ⟨hnx,hny⟩ := first_feed _ _ _ _ hx' hx h
      rw [List.splitOn_append_cons_self_of_not_mem hx]
      intro line hline
      rcases List.mem_cons.mp hline with rfl | hline
      · exact ⟨hnx,hx,fun c hc => List.mem_append_left _ hc⟩
      · obtain ⟨hnfc,hnot,hchars⟩ := ih y.length (by simp at hn; omega) y hny rfl line hline
        exact ⟨hnfc,hnot,fun c hc => by simp [hchars c hc]⟩
    · rw [List.splitOn_eq_singleton hfeed]
      intro line hline
      rw [List.mem_singleton.mp hline]
      exact ⟨h,hfeed,fun c hc => hc⟩

theorem trimmed_line (h : lib.nfc line = line) (hfeed : '\n' ∉ line)
    (hback : '\r' ∉ line) : Line lib (trimEnd line) := by
  obtain ⟨rest,hrest⟩ := List.rdropWhile_prefix isWhitespace line
  have hsplit : trimEnd line++rest = line := hrest
  refine ⟨?_,?_,List.rdropWhile_idempotent _ _,?_⟩
  · exact fun hin => hfeed (hsplit ▸ List.mem_append_left _ hin)
  · exact fun hin => hback (hsplit ▸ List.mem_append_left _ hin)
  · exact lib.nfc_front _ rest (by rw [hsplit]; exact h)

theorem trim_nil (h : trim text = []) : ∀ c ∈ text, isWhitespace c = true := by
  have hrest : ∀ c ∈ trimStart text, isWhitespace c = true :=
    List.rdropWhile_eq_nil_iff.mp h
  have hnone : trimStart text = [] := by
    cases hcut : trimStart text with
    | nil => rfl
    | cons c rest =>
      have hnot := List.head?_dropWhile_not isWhitespace text
      rw [show text.dropWhile isWhitespace = trimStart text from rfl, hcut] at hnot
      have hc := hrest c (by simp [hcut])
      simp [hc] at hnot
  exact List.dropWhile_eq_nil_iff.mp hnone

theorem terminated_not_blank (hin : line ∈ lines)
    (hne : line ≠ []) (h : Line lib line) : trim (terminated lines) ≠ [] := by
  intro hblank
  have hlast := List.rdropWhile_eq_self_iff.mp h.trimmed hne
  apply hlast
  apply trim_nil _ hblank
  exact List.mem_flatMap.mpr ⟨line,hin,List.mem_append_left _ (List.getLast_mem hne)⟩

def cutLines (lib : Library) (content : Text) : List Text :=
  ((lib.nfc ((replaceCrlf (stripMark content)).map fun c => if c = '\r' then '\n' else c)).splitOn
    '\n').map trimEnd

theorem cut_lines_each : ∀ line ∈ cutLines lib content, Line lib line := by
  intro line hline
  obtain ⟨raw,hraw,rfl⟩ := List.mem_map.mp hline
  obtain ⟨hnfc,hfeed,hchars⟩ := nfc_split _ (lib.nfc_idem _) raw hraw
  apply trimmed_line raw hnfc hfeed
  intro hback
  exact return_gone _ (lib.nfc_breaks _ _ (hchars _ hback) (Or.inr rfl))

theorem cut_lines_nonempty : cutLines lib content ≠ [] := by
  simp [cutLines]

theorem tidy_mem (h : line ∈ tidy lines) : line ∈ lines ∨ line = [] := by
  unfold tidy at h
  split at h
  · exact Or.inr (List.mem_singleton.mp h)
  · exact Or.inl ((List.rdropWhile_prefix _ _).subset h)

theorem normalize_eq :
    normalizeContent lib content =
      if trim (terminated ((tidy (cutLines lib content)).dropWhile List.isEmpty)) = [] then []
      else terminated ((tidy (cutLines lib content)).dropWhile List.isEmpty) := by
  have hfeed : ∀ line ∈ cutLines lib content, '\n' ∉ line :=
    fun line hline => (cut_lines_each content line hline).feed
  have hsqueeze := squeeze_terminated _ (cut_lines_nonempty content) hfeed
  have hdrop := drop_terminated (tidy (cutLines lib content)) (by
    intro line hline
    rcases tidy_mem _ _ hline with hline | rfl
    · exact hfeed line hline
    · exact List.not_mem_nil)
  have hflat : ((lib.nfc ((replaceCrlf (stripMark content)).map fun c =>
      if c = '\r' then '\n' else c)).splitOn '\n').flatMap (fun line => trimEnd line++['\n']) =
        terminated (cutLines lib content) := by
    rw [terminated, cutLines, List.flatMap_map]
  simp only [normalizeContent, hflat, hsqueeze, hdrop, List.isEmpty_iff]

theorem last_of_suffix (front kept : List Text) (hne : kept ≠ []) :
    (front++kept).getLast? = kept.getLast? := by
  rw [List.getLast?_append, List.getLast?_eq_some_getLast hne]
  rfl

theorem dropped_normal (h : ∀ line ∈ lines, Line lib line)
    (hkept : (tidy lines).dropWhile List.isEmpty ≠ []) :
    Normal lib ((tidy lines).dropWhile List.isEmpty) := by
  obtain ⟨front,hfront⟩ := List.dropWhile_suffix (l := tidy lines) List.isEmpty
  have htidy : tidy lines = lines.rdropWhile List.isEmpty ∧ lines.rdropWhile List.isEmpty ≠ [] := by
    by_cases hnone : lines.rdropWhile List.isEmpty = []
    · rw [tidy, if_pos hnone] at hkept
      exact absurd rfl hkept
    · exact ⟨if_neg hnone,hnone⟩
  have hlast := List.rdropWhile_last_not List.isEmpty lines htidy.2
  refine ⟨?_,?_,?_⟩
  · intro line hline
    have hin : line ∈ tidy lines := hfront ▸ List.mem_append_right _ hline
    rw [htidy.1] at hin
    exact h line ((List.rdropWhile_prefix _ _).subset hin)
  · refine ⟨_,List.head?_eq_some_head hkept,?_⟩
    intro hempty
    have hnot := List.head_dropWhile_not List.isEmpty hkept
    rw [hempty] at hnot
    cases hnot
  refine ⟨_,List.getLast?_eq_some_getLast hkept,?_⟩
  intro hempty
  have hsame := last_of_suffix front _ hkept
  rw [hfront, List.getLast?_eq_some_getLast hkept, hempty, htidy.1,
    List.getLast?_eq_some_getLast htidy.2, Option.some.injEq] at hsame
  rw [hsame] at hlast
  exact hlast rfl

theorem normalize_normal : normalizeContent lib content = [] ∨ ∃ lines, Normal lib
    lines ∧ normalizeContent lib content = terminated lines := by
  rw [normalize_eq]
  split
  · exact Or.inl rfl
  rename_i hblank
  refine Or.inr ⟨_,dropped_normal _ (cut_lines_each content) ?_,rfl⟩
  intro hnone
  rw [hnone] at hblank
  exact hblank rfl

theorem kept_line (hin : line ∈ lines) (hne : line ≠ []) : line ∈ lines.dropWhile List.isEmpty := by
  rw [← List.takeWhile_append_dropWhile (p := List.isEmpty) (l := lines)] at hin
  rcases List.mem_append.mp hin with hin | hin
  · exact absurd (List.isEmpty_iff.mp (List.mem_takeWhile_imp hin)) hne
  · exact hin

theorem split_terminated (h : ∀ line ∈ lines, '\n' ∉ line) :
    (terminated lines).splitOn '\n' = lines++[[]] := by
  induction lines with
  | nil => rfl
  | cons line lines ih =>
    rw [terminated_cons, List.splitOn_append_cons_self_of_not_mem (h line (by simp)),
      ih fun l hl => h l (by simp [hl])]
    rfl

theorem cut_terminated (hstrip : stripMark content = terminated lines)
    (h : ∀ line ∈ lines, Line lib line) : cutLines lib content = lines++[[]] := by
  have hback : '\r' ∉ terminated lines := by
    intro hin
    obtain ⟨line,hline,hr⟩ := List.mem_flatMap.mp hin
    rcases List.mem_append.mp hr with hr | hr
    · exact (h line hline).back hr
    · simp at hr
  rw [cutLines, hstrip, no_return _ hback, nfc_terminated lines fun l hl => (h l hl).nfc,
    split_terminated lines fun l hl => (h l hl).feed, List.map_append]
  congr 1
  conv_rhs => rw [← List.map_id lines]
  exact List.map_congr_left fun l hl => (h l hl).trimmed

/-- A text of such lines is normalized by removing the empty lines at its front. -/
theorem normalize_terminated (hstrip : stripMark content = terminated lines)
    (h : ∀ line ∈ lines, Line lib line) (hlast : ∃ line, lines.getLast? = some line ∧ line ≠ []) :
    normalizeContent lib content = terminated (lines.dropWhile List.isEmpty) := by
  obtain ⟨line,hline,hne⟩ := hlast
  have hin : line ∈ lines := List.mem_of_getLast? hline
  have hlines : lines.rdropWhile List.isEmpty = lines := by
    rw [List.rdropWhile_eq_self_iff]
    intro hl
    rw [List.getLast?_eq_some_getLast hl, Option.some.injEq] at hline
    simpa [hline] using hne
  have htidy : tidy (lines++[[]]) = lines := by
    have hdrop : (lines++[[]]).rdropWhile List.isEmpty = lines := by
      rw [List.rdropWhile_concat_pos _ _ _ rfl]
      exact hlines
    rw [tidy, hdrop, if_neg (List.ne_nil_of_mem hin)]
  have hkept := kept_line lines line hin hne
  rw [normalize_eq, cut_terminated content lines hstrip h, htidy,
    if_neg (terminated_not_blank _ line hkept hne (h line hin))]

/-- Normalizing a stored content again changes nothing, unless it begins with a mark. -/
theorem normalize_stable (h : Normal lib lines)
    (hmark : (terminated lines).head? ≠ some byteOrderMark) :
    normalizeContent lib (terminated lines) = terminated lines := by
  have hstrip : stripMark (terminated lines) = terminated lines := if_neg hmark
  rw [normalize_terminated _ lines hstrip h.each h.last]
  obtain ⟨line,hline,hne⟩ := h.first
  cases lines with
  | nil => cases hline
  | cons first rest =>
    have heq : first = line := by simpa using hline
    rw [List.dropWhile_cons_of_neg (by simpa [heq] using hne)]

theorem drop_shorter :
    (terminated (lines.dropWhile List.isEmpty)).length ≤ (terminated lines).length := by
  obtain ⟨front,hfront⟩ := List.dropWhile_suffix (l := lines) List.isEmpty
  conv_rhs => rw [← hfront, terminated, List.flatMap_append, List.length_append]
  exact Nat.le_add_left _ _

theorem normalize_mark_only : normalizeContent lib [byteOrderMark,'\n'] = [] := by
  have hline : ∀ line ∈ [([] : Text)], Line lib line := by
    intro line hline
    rw [List.mem_singleton.mp hline]
    exact ⟨List.not_mem_nil,List.not_mem_nil,rfl,nfc_nil⟩
  rw [normalize_eq, cut_terminated _ [[]] rfl hline]
  rfl

/-- The rest of a line that begins with a mark, if a part of a text in NFC is in NFC. -/
theorem marked_line (hnfc : ∀ x y, lib.nfc (x++y) = x++y → lib.nfc y = y) (c : Char) (line : Text)
    (h : Line lib (c::line)) : Line lib line where
  feed hin := h.feed (List.mem_cons_of_mem _ hin)
  back hin := h.back (List.mem_cons_of_mem _ hin)
  trimmed := by
    apply List.rdropWhile_eq_self_iff.mpr
    intro hne
    have hlast := List.rdropWhile_eq_self_iff.mp h.trimmed (by simp)
    rwa [List.getLast_cons hne] at hlast
  nfc := hnfc [c] line h.nfc

theorem normalize_marked (hnfc : ∀ x y, lib.nfc (x++y) = x++y → lib.nfc y = y) (lines : List Text)
    (h : Normal lib lines) (hmark : (terminated lines).head? = some byteOrderMark) :
    terminated lines = [byteOrderMark,'\n'] ∨
      (normalizeContent lib (terminated lines) ≠ [] ∧
        (normalizeContent lib (terminated lines)).length < (terminated lines).length) := by
  obtain ⟨first,hfirst,hne⟩ := h.first
  obtain ⟨last,hlast,hlastne⟩ := h.last
  cases lines with
  | nil => cases hfirst
  | cons line rest =>
    have heq : line = first := by simpa using hfirst
    subst heq
    cases line with
    | nil => exact absurd rfl hne
    | cons c line =>
      have hc : c = byteOrderMark := by simpa [terminated_cons] using hmark
      subst hc
      have hstrip : stripMark (terminated ((byteOrderMark::line)::rest)) = terminated (line::rest) := by
        rw [stripMark, if_pos hmark, terminated_cons, terminated_cons]
        rfl
      have hlines : ∀ l ∈ line::rest, Line lib l := by
        intro l hl
        rcases List.mem_cons.mp hl with rfl | hl
        · exact marked_line hnfc _ _ (h.each _ List.mem_cons_self)
        · exact h.each l (List.mem_cons_of_mem _ hl)
      by_cases honly : line = [] ∧ rest = []
      · left
        rw [honly.1, honly.2]
        rfl
      right
      have hend : ∃ l, (line::rest).getLast? = some l ∧ l ≠ [] := by
        cases rest with
        | nil => exact ⟨line,rfl,fun hnil => honly ⟨hnil,rfl⟩⟩
        | cons second rest =>
          rw [List.getLast?_cons_cons] at hlast ⊢
          exact ⟨last,hlast,hlastne⟩
      rw [normalize_terminated _ _ hstrip hlines hend]
      constructor
      · obtain ⟨l,hl,hlne⟩ := hend
        have hkept := kept_line _ l (List.mem_of_getLast? hl) hlne
        intro hnil
        have hin : '\n' ∈ terminated ((line::rest).dropWhile List.isEmpty) :=
          List.mem_flatMap.mpr ⟨l,hkept,by simp⟩
        rw [hnil] at hin
        cases hin
      · apply (drop_shorter _).trans_lt
        simp [terminated_cons]

end Lines

end AndaBrain.WikiNormal
