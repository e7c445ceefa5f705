import Mathlib.Data.List.DropRight
import AndaBrain.WikiText

/-!
# Slugs are stable

What `slugify` returns is made of characters that it keeps, with single dashes inside. On
such a text it changes nothing, so a path that has been slugified once is its own slug.
-/

set_option autoImplicit false

namespace AndaBrain.WikiSlugs
open Foundation.Utf8Text
open WikiChunk WikiText

theorem trim_end_matches_eq (p : Char → Bool) (text : Text) :
    trimEndMatches p text = text.rdropWhile p := rfl

theorem trim_eq_self (text : Text) (h : ∀ c ∈ text, isWhitespace c = false) : trim text = text := by
  have hstart : trimStart text = text := by
    cases text with
    | nil => rfl
    | cons c rest => simp [trimStart, h c (by simp)]
  rw [trim, hstart, trimEnd, trim_end_matches_eq, List.rdropWhile_eq_self_iff]
  intro hne
  simp [h _ (List.getLast_mem hne)]

theorem trim_idem (text : Text) : trim (trim text) = trim text := by
  have hend : trimEnd (trim text) = trim text := List.rdropWhile_idempotent _ _
  have hstart : trimStart (trim text) = trim text := by
    cases htrim : trim text with
    | nil => rfl
    | cons c rest =>
      -- the first character is one at which the front was cut
      obtain ⟨more,hmore⟩ := List.rdropWhile_prefix isWhitespace (trimStart text)
      have hfirst : (trimStart text).head? = some c := by
        have hcut : (trimStart text).rdropWhile isWhitespace = c::rest := htrim
        rw [← hmore, hcut]
        rfl
      have hnot := List.head?_dropWhile_not isWhitespace text
      rw [show text.dropWhile isWhitespace = trimStart text from rfl, hfirst] at hnot
      have hc : isWhitespace c = false := by simpa using hnot
      simp [trimStart, hc]
  conv_lhs => rw [trim, hstart]
  exact hend

section Plain
variable {lib : Library}

/-- A character that `slugify` keeps as it is. -/
def Kept (lib : Library) (c : Char) : Prop :=
  lib.tables.isAlphanumeric c = true ∧ lib.tables.toLowercase c = [c]

def Apart (a b : Char) : Prop := ¬(a = '-' ∧ b = '-')

instance (a b : Char) : Decidable (Apart a b) := inferInstanceAs (Decidable (¬_))

/-- What `slugify` builds, before the dashes at the end are removed. -/
structure Slugged (lib : Library) (s : Text) : Prop where
  chars : ∀ c ∈ s, c = '-' ∨ Kept lib c
  short : s.length ≤ slugMaxChars
  front : s.head? ≠ some '-'
  single : s.IsChain Apart

structure Plain (lib : Library) (s : Text) : Prop extends Slugged lib s where
  nonempty : s ≠ []
  back : s.getLast? ≠ some '-'

def dashed (s : Text) : Bool := s.getLast? == some '-'

theorem dash_not_kept : ¬Kept lib '-' := by
  intro h
  have hsep := lib.separators '-' (by decide)
  rw [h.1] at hsep
  cases hsep

theorem slugged_nil : Slugged lib [] :=
  ⟨fun _ h => (nomatch h),Nat.zero_le _,by simp,List.IsChain.nil⟩

theorem chain_snoc (s : Text) (c : Char) (h : s.IsChain Apart)
    (hc : c = '-' → s.getLast? ≠ some '-') : (s++[c]).IsChain Apart := by
  apply List.isChain_append.mpr
  refine ⟨h,List.isChain_singleton _,?_⟩
  rintro a ha b hb ⟨rfl,rfl⟩
  have hcb : c = '-' := by simpa using hb
  exact hc hcb ha

theorem slug_step_slugged (st : SlugState) (c : Char) (hlow : lib.tables.toLowercase c = [c])
    (h : Slugged lib st.slug) (hchars : st.chars = st.slug.length)
    (hdash : st.lastDash = dashed st.slug) : Slugged lib (slugStep lib.tables st c).slug ∧
    (slugStep lib.tables st c).chars = (slugStep lib.tables st c).slug.length ∧
    (slugStep lib.tables st c).lastDash = dashed (slugStep lib.tables st c).slug := by
  unfold slugStep
  split
  · exact ⟨h,hchars,hdash⟩
  rename_i hroom
  have hshort : st.slug.length+1 ≤ slugMaxChars := by omega
  split
  · rename_i halnum
    have hne : c ≠ '-' := by
      rintro rfl
      exact dash_not_kept ⟨halnum,hlow⟩
    refine ⟨⟨?_,by simpa using hshort,?_,chain_snoc _ _ h.single fun heq => absurd heq hne⟩,?_,?_⟩
    · intro d hd
      rcases List.mem_append.mp hd with hd | hd
      · exact h.chars d hd
      · rw [List.mem_singleton.mp hd]
        exact Or.inr ⟨halnum,hlow⟩
    · cases hs : st.slug with
      | nil => simpa using hne
      | cons a rest =>
        have hfront := h.front
        rw [hs] at hfront
        simpa using hfront
    · simp [hchars]
    · simp [dashed, hne]
  split
  · rename_i hgo
    simp only [Bool.and_eq_true, Bool.not_eq_true', List.isEmpty_eq_false_iff] at hgo
    have hlast : st.slug.getLast? ≠ some '-' := by
      rw [hdash] at hgo
      simpa [dashed] using hgo.1
    refine ⟨⟨?_,by simpa using hshort,?_,chain_snoc _ _ h.single fun _ => hlast⟩,?_,?_⟩
    · intro d hd
      rcases List.mem_append.mp hd with hd | hd
      · exact h.chars d hd
      · exact Or.inl (List.mem_singleton.mp hd)
    · cases hs : st.slug with
      | nil => exact absurd hs hgo.2
      | cons a rest =>
        have hfront := h.front
        rw [hs] at hfront
        simpa using hfront
    · simp [hchars]
    · simp [dashed]
  · exact ⟨h,hchars,hdash⟩

theorem slug_fold_slugged (lowered : Text) (st : SlugState)
    (hlow : ∀ c ∈ lowered, lib.tables.toLowercase c = [c]) (h : Slugged lib st.slug)
    (hchars : st.chars = st.slug.length) (hdash : st.lastDash = dashed st.slug) :
    Slugged lib (lowered.foldl (slugStep lib.tables) st).slug := by
  induction lowered generalizing st with
  | nil => exact h
  | cons c rest ih =>
    obtain ⟨hs,hc,hd⟩ := slug_step_slugged st c (hlow c (by simp)) h hchars hdash
    exact ih _ (fun d hd => hlow d (by simp [hd])) hs hc hd

theorem untitled_plain : Plain lib "untitled".toList where
  chars := by
    intro c hc
    refine Or.inr ⟨lib.letters c hc,lib.lower_plain c ?_⟩
    have hsub : ∀ d ∈ "untitled".toList, d ∈ "untitled-".toList :=
      @of_decide_eq_true _ (List.decidableBAll _ _) rfl
    exact hsub c hc
  short := by decide
  front := by decide
  single := by decide
  nonempty := by decide
  back := by decide

theorem slugged_trimmed (full : Text) (h : Slugged lib full)
    (hne : trimEndMatches (· == '-') full ≠ []) : Plain lib (trimEndMatches (· == '-') full) := by
  rw [trim_end_matches_eq] at hne ⊢
  have hlast := List.rdropWhile_last_not (· == '-') full hne
  obtain ⟨rest,hrest⟩ := List.rdropWhile_prefix (· == '-') full
  refine ⟨⟨?_,?_,?_,?_⟩,hne,?_⟩
  · intro c hc
    apply h.chars
    rw [← hrest]
    exact List.mem_append_left _ hc
  · have hshort := h.short
    rw [← hrest, List.length_append] at hshort
    omega
  · have hfront := h.front
    rw [← hrest, List.head?_append_of_ne_nil _ hne] at hfront
    exact hfront
  · have hsingle := h.single
    rw [← hrest] at hsingle
    exact (List.isChain_append.mp hsingle).1
  · rw [List.getLast?_eq_some_getLast hne]
    simpa using hlast

theorem slugify_plain (input : Text) : Plain lib (slugify lib.tables input) := by
  have hfold : Slugged lib
      ((input.flatMap lib.tables.toLowercase).foldl (slugStep lib.tables) ⟨[],0,false⟩).slug := by
    apply slug_fold_slugged _ _ _ slugged_nil rfl rfl
    intro d hd
    obtain ⟨c,-,hc⟩ := List.mem_flatMap.mp hd
    exact lib.lower_stable c d hc
  simp only [slugify]
  split
  · exact untitled_plain
  · rename_i hne
    exact slugged_trimmed _ hfold (by simpa using hne)

theorem slug_fold_copies (rest done : Text) (h : Slugged lib (done++rest)) :
    (rest.foldl (slugStep lib.tables) ⟨done,done.length,dashed done⟩).slug = done++rest := by
  induction rest generalizing done with
  | nil => simp
  | cons c rest ih =>
    have hroom : ¬slugMaxChars ≤ done.length := by
      have := h.short
      simp only [List.length_append, List.length_cons] at this
      omega
    have hstep : slugStep lib.tables ⟨done,done.length,dashed done⟩ c =
        ⟨done++[c],(done++[c]).length,dashed (done++[c])⟩ := by
      rcases h.chars c (by simp) with rfl | hkept
      · have hnot := lib.separators '-' (by decide)
        have hdone : done ≠ [] := by
          rintro rfl
          exact h.front rfl
        have hlast : done.getLast? ≠ some '-' := by
          intro hget
          exact (List.isChain_append.mp h.single).2.2 '-' hget '-' (by simp) ⟨rfl,rfl⟩
        simp [slugStep, hroom, hnot, hlast, hdone, dashed]
      · have hne : c ≠ '-' := by
          rintro rfl
          exact dash_not_kept hkept
        simp [slugStep, hroom, hkept.1, dashed, hne]
    rw [List.foldl_cons, hstep, ih (done++[c]) (by simpa using h)]
    simp

theorem lowered_plain (s : Text) (h : Slugged lib s) : s.flatMap lib.tables.toLowercase = s := by
  have hone : ∀ c ∈ s, lib.tables.toLowercase c = [c] := by
    intro c hc
    rcases h.chars c hc with rfl | hkept
    · exact lib.lower_plain '-' (by decide)
    · exact hkept.2
  clear h
  induction s with
  | nil => rfl
  | cons c rest ih =>
    rw [List.flatMap_cons, hone c (by simp), ih fun d hd => hone d (by simp [hd])]
    rfl

theorem slugify_stable (s : Text) (h : Plain lib s) : slugify lib.tables s = s := by
  have hfold : (s.foldl (slugStep lib.tables) ⟨[],0,false⟩).slug = s :=
    slug_fold_copies s [] h.toSlugged
  have htrim : trimEndMatches (· == '-') s = s := by
    rw [trim_end_matches_eq, List.rdropWhile_eq_self_iff]
    intro hne
    have hback := h.back
    rw [List.getLast?_eq_some_getLast hne] at hback
    simpa using hback
  have hne : s.isEmpty = false := by simpa using h.nonempty
  simp [slugify, lowered_plain s h.toSlugged, hfold, htrim, hne]

theorem plain_no_space (s : Text) (h : Plain lib s) (c : Char) (hc : c ∈ s) :
    isWhitespace c = false := by
  rcases h.chars c hc with rfl | hkept
  · decide
  cases hw : isWhitespace c with
  | false => rfl
  | true =>
    have := lib.spaces c hw
    rw [hkept.1] at this
    cases this

theorem plain_no_slash (s : Text) (h : Plain lib s) : '/' ∉ s := by
  intro hc
  rcases h.chars '/' hc with heq | hkept
  · exact absurd heq (by decide)
  · have := lib.separators '/' (by decide)
    rw [hkept.1] at this
    cases this

end Plain

section Paths
variable {lib : Library}

def PlainPath (lib : Library) (path : Text) : Prop :=
  ∃ segments, segments ≠ [] ∧ (∀ s ∈ segments, Plain lib s) ∧ path = ['/'].intercalate segments

theorem slugify_path_plain (input : Text) : PlainPath lib (slugifyPath lib input) := by
  simp only [slugifyPath]
  split
  · exact ⟨["untitled".toList],by simp,by simpa using untitled_plain,by simp⟩
  rename_i hne
  refine ⟨_,by simpa using hne,?_,rfl⟩
  intro s hs
  obtain ⟨raw,-,rfl⟩ := List.mem_map.mp hs
  exact slugify_plain raw

theorem split_plain_path (segments : List Text) (hne : segments ≠ [])
    (h : ∀ s ∈ segments, Plain lib s) : (['/'].intercalate segments).splitOn '/' = segments :=
  List.splitOn_intercalate '/' (fun s hs => plain_no_slash s (h s hs)) hne

theorem slugify_path_stable (path : Text) (h : PlainPath lib path) : slugifyPath lib path = path := by
  obtain ⟨segments,hne,hall,rfl⟩ := h
  have htrim : segments.map trim = segments := by
    conv_rhs => rw [← List.map_id segments]
    apply List.map_congr_left
    intro s hs
    exact trim_eq_self s (plain_no_space s (hall s hs))
  have hfilter : segments.filter (!·.isEmpty) = segments := by
    apply List.filter_eq_self.mpr
    intro s hs
    simpa using (hall s hs).nonempty
  have hslug : segments.map (slugify lib.tables) = segments := by
    conv_rhs => rw [← List.map_id segments]
    apply List.map_congr_left
    intro s hs
    exact slugify_stable s (hall s hs)
  have hempty : segments.isEmpty = false := by simpa using hne
  simp [slugifyPath, split_plain_path segments hne hall, htrim, hfilter, hslug, hempty]

theorem slugify_path_twice (input : Text) :
    slugifyPath lib (slugifyPath lib input) = slugifyPath lib input :=
  slugify_path_stable _ (slugify_path_plain input)

theorem intercalate_chars (segments : List Text) (c : Char)
    (h : c ∈ ['/'].intercalate segments) : c = '/' ∨ ∃ s ∈ segments, c ∈ s := by
  induction segments with
  | nil => simp at h
  | cons s rest ih =>
    cases rest with
    | nil => exact Or.inr ⟨s,by simp,by simpa using h⟩
    | cons t rest =>
      rw [List.intercalate_cons_cons, List.mem_append, List.mem_append] at h
      rcases h with (h | h) | h
      · exact Or.inr ⟨s,by simp,h⟩
      · exact Or.inl (by simpa using h)
      · rcases ih h with h | ⟨u,hu,hc⟩
        · exact Or.inl h
        · exact Or.inr ⟨u,by simp [hu],hc⟩

theorem plain_path_no_space (path : Text) (h : PlainPath lib path) (c : Char) (hc : c ∈ path) :
    isWhitespace c = false := by
  obtain ⟨segments,-,hall,rfl⟩ := h
  rcases intercalate_chars segments c hc with rfl | ⟨s,hs,hcs⟩
  · decide
  · exact plain_no_space s (hall s hs) c hcs

theorem plain_path_nonempty (path : Text) (h : PlainPath lib path) : path ≠ [] := by
  obtain ⟨segments,hne,hall,rfl⟩ := h
  obtain ⟨s,rest,rfl⟩ := List.exists_cons_of_ne_nil hne
  have hs := (hall s (by simp)).nonempty
  cases rest with
  | nil => simpa using hs
  | cons t rest => simp [List.intercalate_cons_cons]

end Paths

end AndaBrain.WikiSlugs
