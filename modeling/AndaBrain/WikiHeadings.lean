import AndaBrain.Foundation.Nesting
import AndaBrain.WikiText

/-!
# Heading paths of sections

`split_sections` keeps the titles of the open headings on a stack and cuts it to one less than the
level of the next heading.
-/

set_option autoImplicit false

namespace AndaBrain.WikiHeadings
open Foundation.Nesting Foundation.SpanTiling Foundation.Utf8Text
open WikiChunk WikiText WikiTiling

def headings (lines : List LineInfo) : List (ℕ × Text) := lines.filterMap LineInfo.boundary

def headingsUpTo (lines : List LineInfo) (offset : ℕ) : List (ℕ × Text) :=
  headings (lines.filter (·.start ≤ offset))

def chainAt (lines : List LineInfo) (offset : ℕ) : List Text :=
  (enclosing Prod.fst (headingsUpTo lines offset)).map Prod.snd

def PathsNest (content : Text) : Prop :=
  ∀ sec ∈ splitSections (scanLines content), ∃ u, sec.units.head? = some u ∧
    sec.headingPath = chainAt (scanLines content) u.start

theorem parsed_level (trimmed : Text) (heading : ℕ × Text) (h : parseHeading trimmed = some heading) :
    1 ≤ heading.1 := by
  simp only [parseHeading] at h
  by_cases hlevel : runLength '#' trimmed < 1 ∨ 6 < runLength '#' trimmed
  · rw [if_pos hlevel] at h
    cases h
  rw [if_neg hlevel] at h
  split at h
  · cases h
  obtain ⟨-,heq⟩ := Option.ite_none_left_eq_some.mp h
  rw [Option.some.injEq] at heq
  rw [← heq]
  simp only
  omega

theorem scanned_level (raws : List Text) (offset : ℕ) (fences : FenceTracker) (line : LineInfo)
    (h : line ∈ scanFrom offset fences raws) (heading : ℕ × Text)
    (hb : line.boundary = some heading) : 1 ≤ heading.1 := by
  induction raws generalizing offset fences with
  | nil => cases h
  | cons raw rest ih =>
    rcases List.mem_cons.mp h with rfl | h
    · simp only [lineInfo] at hb
      split at hb
      · cases hb
      · exact parsed_level _ _ (Option.filter_eq_some_iff.mp hb).1
    · exact ih _ _ h

theorem heading_levels (content : Text) (heading : ℕ × Text)
    (h : heading ∈ headings (scanLines content)) : 1 ≤ heading.1 := by
  obtain ⟨line,hline,hb⟩ := List.mem_filterMap.mp h
  exact scanned_level _ _ _ line hline heading hb

section Walk

def pendingStart (s : SplitState) : Option ℕ :=
  (s.units.map PackUnit.start++(s.unit.map OpenUnit.start).toList).head?

structure Walked (before : List LineInfo) (s : SplitState) : Prop where
  stack : s.stack = (stacked Prod.fst (headings before)).map Prod.snd
  sections : ∀ sec ∈ s.sections, ∃ u, sec.units.head? = some u ∧
    (∃ l ∈ before, l.start = u.start) ∧
    sec.headingPath = (stacked Prod.fst (headingsUpTo before u.start)).map Prod.snd
  pending : ∀ p, pendingStart s = some p →
    (∃ l ∈ before, l.start = p) ∧ headingsUpTo before p = headings before
  found : ∀ l ∈ before, l.boundary.isSome →
    (∃ sec ∈ s.sections, ∃ u, sec.units.head? = some u ∧ u.start = l.start) ∨
      pendingStart s = some l.start

theorem pending_flush_unit (s : SplitState) : pendingStart s.flushUnit = pendingStart s := by
  cases hu : s.unit with
  | none => simp [pendingStart, SplitState.flushUnit, hu]
  | some u => simp [pendingStart, SplitState.flushUnit, hu, OpenUnit.close]

theorem pending_add_line (s : SplitState) (line : LineInfo) :
    pendingStart (s.addLine line) = (pendingStart s).or (some line.start) := by
  cases hunits : s.units with
  | nil =>
    cases hu : s.unit with
    | none => simp [pendingStart, SplitState.addLine, extendUnit, hunits, hu]
    | some u => simp [pendingStart, SplitState.addLine, extendUnit, hunits, hu]
  | cons u units => simp [pendingStart, SplitState.addLine, hunits]

theorem break_unit_eq (s : SplitState) (line : LineInfo) : (s.breakUnit line).sections = s.sections
    ∧ (s.breakUnit line).stack = s.stack ∧ pendingStart (s.breakUnit line) = pendingStart s := by
  unfold SplitState.breakUnit
  split
  · exact ⟨rfl,rfl,pending_flush_unit s⟩
  · exact ⟨rfl,rfl,rfl⟩

theorem flushed_sections (s : SplitState) :
    (pendingStart s = none ∧ s.flushUnit.flushSection.sections = s.sections) ∨ ∃ sec u,
    s.flushUnit.flushSection.sections = s.sections++[sec] ∧ sec.headingPath = s.stack ∧
    sec.units.head? = some u ∧ pendingStart s = some u.start := by
  rw [← pending_flush_unit]
  cases hunits : s.flushUnit.units with
  | nil =>
    left
    have hunit : s.flushUnit.unit = none := rfl
    refine ⟨by simp [pendingStart, hunits, hunit],?_⟩
    rw [SplitState.flushSection, if_pos (by simp [hunits])]
    rfl
  | cons u units =>
    right
    refine ⟨⟨s.stack,u::units⟩,u,?_,rfl,rfl,by simp [pendingStart, hunits]⟩
    rw [SplitState.flushSection, if_neg (by simp [hunits])]
    simp only [hunits]
    rfl

variable (before : List LineInfo) (line : LineInfo)

theorem up_to_snoc (p : ℕ) (h : p < line.start) :
    headingsUpTo (before++[line]) p = headingsUpTo before p := by
  simp [headingsUpTo, List.filter_append, h]

theorem up_to_all (h : ∀ l ∈ before, l.start < line.start) :
    headingsUpTo (before++[line]) line.start = headings (before++[line]) := by
  rw [headingsUpTo, List.filter_eq_self.mpr]
  intro l hl
  rcases List.mem_append.mp hl with hl | hl
  · simpa using (h l hl).le
  · simp [List.mem_singleton.mp hl]

theorem headings_snoc : headings (before++[line]) = headings before++line.boundary.toList := by
  rw [headings, List.filterMap_append]
  cases hb : line.boundary <;> simp [headings, hb]

theorem walked_plain (s : SplitState) (h : Walked before s) (hlt : ∀ l ∈ before, l.start < line.start)
    (hb : line.boundary = none) : Walked (before++[line]) (s.step line) := by
  obtain ⟨hsections,hstack,hpending⟩ := break_unit_eq s line
  have hstep : s.step line = (s.breakUnit line).addLine line := by
    rw [SplitState.step, SplitState.openSection, hb]
  have hheads : headings (before++[line]) = headings before := by
    simp [headings_snoc, hb]
  have hstart : pendingStart (s.step line) = (pendingStart s).or (some line.start) := by
    rw [hstep, pending_add_line, hpending]
  have hsame : (s.step line).sections = s.sections := by
    rw [hstep]
    exact hsections
  constructor
  · rw [hheads, ← h.stack, hstep]
    exact hstack
  · intro sec hsec
    rw [hsame] at hsec
    obtain ⟨u,hu,⟨l,hl,hs⟩,hpath⟩ := h.sections sec hsec
    refine ⟨u,hu,⟨l,List.mem_append_left _ hl,hs⟩,?_⟩
    rw [up_to_snoc _ _ _ (hs ▸ hlt l hl)]
    exact hpath
  · intro p hp
    rw [hstart] at hp
    cases hs : pendingStart s with
    | none =>
      rw [hs, Option.none_or, Option.some.injEq] at hp
      subst hp
      exact ⟨⟨line,by simp,rfl⟩,up_to_all before line hlt⟩
    | some q =>
      rw [hs, Option.some_or, Option.some.injEq] at hp
      subst hp
      obtain ⟨⟨l,hl,hq⟩,hall⟩ := h.pending q hs
      refine ⟨⟨l,List.mem_append_left _ hl,hq⟩,?_⟩
      rw [up_to_snoc _ _ _ (hq ▸ hlt l hl), hheads]
      exact hall
  · intro l hl hsome
    rcases List.mem_append.mp hl with hl | hl
    · rcases h.found l hl hsome with hsec | hp
      · left
        rwa [hsame]
      · right
        rw [hstart, hp]
        rfl
    · rw [List.mem_singleton.mp hl, hb] at hsome
      cases hsome

theorem walked_heading (s : SplitState) (h : Walked before s)
    (hlt : ∀ l ∈ before, l.start < line.start) (level : ℕ) (title : Text)
    (hb : line.boundary = some (level,title)) : Walked (before++[line]) (s.step line) := by
  have hstep : s.step line =
      (SplitState.mk s.flushUnit.flushSection.sections (s.stack.take (level-1)++[title])
        s.flushUnit.flushSection.units s.flushUnit.flushSection.unit false).addLine line := by
    have hnone : s.flushUnit.flushSection.unit = none := by
      unfold SplitState.flushSection
      split <;> rfl
    rw [SplitState.step, SplitState.openSection, hb]
    simp [SplitState.breakUnit, hnone]
  have hempty : s.flushUnit.flushSection.units = [] ∧ s.flushUnit.flushSection.unit = none := by
    unfold SplitState.flushSection
    split
    · rename_i hunits
      exact ⟨by simpa using hunits,rfl⟩
    · exact ⟨rfl,rfl⟩
  have hheads : headings (before++[line]) = headings before++[(level,title)] := by
    simp [headings_snoc, hb]
  have hsections : (s.step line).sections = s.flushUnit.flushSection.sections := by
    rw [hstep]
    rfl
  have hstart : pendingStart (s.step line) = some line.start := by
    rw [hstep, pending_add_line]
    simp [pendingStart, hempty]
  have hold : ∀ sec ∈ s.flushUnit.flushSection.sections, ∃ u, sec.units.head? = some u ∧
      (∃ l ∈ before, l.start = u.start) ∧
      sec.headingPath = (stacked Prod.fst (headingsUpTo before u.start)).map Prod.snd := by
    intro sec hsec
    rcases flushed_sections s with ⟨-,heq⟩ | ⟨new,u,heq,hpath,hu,hp⟩
    · exact h.sections sec (heq ▸ hsec)
    rw [heq] at hsec
    rcases List.mem_append.mp hsec with hsec | hsec
    · exact h.sections sec hsec
    · rw [List.mem_singleton.mp hsec]
      obtain ⟨hl,hall⟩ := h.pending _ hp
      exact ⟨u,hu,hl,by rw [hpath, hall, h.stack]⟩
  constructor
  · rw [hheads, stacked_snoc, List.map_append, List.map_take, ← h.stack, hstep]
    rfl
  · intro sec hsec
    rw [hsections] at hsec
    obtain ⟨u,hu,⟨l,hl,hs⟩,hpath⟩ := hold sec hsec
    refine ⟨u,hu,⟨l,List.mem_append_left _ hl,hs⟩,?_⟩
    rw [up_to_snoc _ _ _ (hs ▸ hlt l hl)]
    exact hpath
  · intro p hp
    rw [hstart, Option.some.injEq] at hp
    subst hp
    exact ⟨⟨line,by simp,rfl⟩,up_to_all before line hlt⟩
  intro l hl hsome
  rcases List.mem_append.mp hl with hl | hl
  · left
    rw [hsections]
    rcases flushed_sections s with ⟨hnone,heq⟩ | ⟨new,u,heq,-,hu,hp⟩
    · rcases h.found l hl hsome with hsec | hp
      · rwa [heq]
      · rw [hnone] at hp
        cases hp
    · rcases h.found l hl hsome with ⟨sec,hsec,hin⟩ | hpl
      · exact ⟨sec,by rw [heq]; exact List.mem_append_left _ hsec,hin⟩
      · rw [hp, Option.some.injEq] at hpl
        exact ⟨new,by simp [heq],u,hu,hpl⟩
  · right
    rw [List.mem_singleton.mp hl]
    exact hstart

theorem walked_fold (rest : List LineInfo) (s : SplitState) (h : Walked before s)
    (hlt : (before++rest).Pairwise fun a b => a.start < b.start) :
    Walked (before++rest) (rest.foldl SplitState.step s) := by
  induction rest generalizing before s with
  | nil => simpa using h
  | cons line rest ih =>
    have hbefore : ∀ l ∈ before, l.start < line.start := fun l hl =>
      (List.pairwise_append.mp hlt).2.2 l hl line List.mem_cons_self
    have hstep : Walked (before++[line]) (s.step line) := by
      cases hb : line.boundary with
      | none => exact walked_plain before line s h hbefore hb
      | some heading => exact walked_heading before line s h hbefore heading.1 heading.2 hb
    have hsplit : before++line::rest = (before++[line])++rest := by simp
    rw [hsplit] at hlt ⊢
    exact ih _ _ hstep hlt

end Walk

section Sorted
variable (lines : List LineInfo) (hlt : lines.Pairwise fun a b => a.start < b.start)
include hlt

theorem filter_splits (p : ℕ) :
    lines = lines.filter (·.start ≤ p)++lines.filter (fun l => !decide (l.start ≤ p)) := by
  induction lines with
  | nil => rfl
  | cons line rest ih =>
    obtain ⟨hline,hrest⟩ := List.pairwise_cons.mp hlt
    by_cases hle : line.start ≤ p
    · simp only [hle, decide_true, List.filter_cons_of_pos, Bool.not_true, Bool.false_eq_true,
        not_false_eq_true, List.filter_cons_of_neg, List.cons_append]
      rw [← ih hrest]
    have hnone : (line::rest).filter (·.start ≤ p) = [] := by
      rw [List.filter_eq_nil_iff]
      intro l hl
      rcases List.mem_cons.mp hl with rfl | hl
      · simpa using hle
      · have := hline l hl
        simp only [decide_eq_true_eq]
        omega
    have hall : (line::rest).filter (fun l => !decide (l.start ≤ p)) = line::rest := by
      rw [List.filter_eq_self]
      intro l hl
      have := List.filter_eq_nil_iff.mp hnone l hl
      simpa using this
    rw [hnone, hall]
    rfl

theorem up_to_front (p : ℕ) : ∃ after, headings lines = headingsUpTo lines p++after := by
  refine ⟨headings (lines.filter fun l => !decide (l.start ≤ p)),?_⟩
  conv_lhs => rw [filter_splits lines hlt p]
  exact List.filterMap_append

theorem heading_line (front : List (ℕ × Text)) (e : ℕ × Text) (after : List (ℕ × Text))
    (h : headings lines = front++e::after) :
    ∃ l ∈ lines, l.boundary = some e ∧ headingsUpTo lines l.start = front++[e] := by
  obtain ⟨l1,l2,rfl,rfl,h2⟩ := List.filterMap_eq_append_iff.mp h
  obtain ⟨m1,l,m2,rfl,hm1,hl,-⟩ := List.filterMap_eq_cons_iff.mp h2
  refine ⟨l,by simp,hl,?_⟩
  have hsplit : l1++(m1++l::m2) = (l1++m1)++l::m2 := by simp
  rw [hsplit] at hlt ⊢
  obtain ⟨-,hrest,hbefore⟩ := List.pairwise_append.mp hlt
  have hlater : m2.filter (·.start ≤ l.start) = [] := by
    rw [List.filter_eq_nil_iff]
    intro m hm
    have := (List.pairwise_cons.mp hrest).1 m hm
    simp only [decide_eq_true_eq]
    omega
  have hcut : headingsUpTo ((l1++m1)++l::m2) l.start = headingsUpTo ((l1++m1)++[l]) l.start := by
    simp [headingsUpTo, hlater]
  rw [hcut, up_to_all _ l fun a ha => hbefore a ha l List.mem_cons_self, headings_snoc, hl]
  simp [headings, List.filterMap_eq_nil_iff.mpr hm1]

end Sorted

theorem tiles_increasing (P : ℕ → Prop) (spans : List Span) (lo hi : ℕ) (h : Tiles P lo spans hi) :
    (∀ s ∈ spans, lo ≤ s.1) ∧ spans.Pairwise fun a b => a.1 < b.1 := by
  induction spans generalizing lo with
  | nil => exact ⟨by simp,List.Pairwise.nil⟩
  | cons s spans ih =>
    obtain ⟨hs,hlt,-,hrest⟩ := h
    obtain ⟨hlo,hpair⟩ := ih _ hrest
    constructor
    · intro t ht
      rcases List.mem_cons.mp ht with rfl | ht
      · exact hs.ge
      · have := hlo t ht
        omega
    · refine List.Pairwise.cons (fun t ht => ?_) hpair
      have := hlo t ht
      omega

theorem scan_increasing (content : Text) :
    (scanLines content).Pairwise fun a b => a.start < b.start :=
  by simpa [List.pairwise_map, lineSpan] using (tiles_increasing _ _ 0 _ (scan_lines_tiles content)).2

/-- Each section starts at a line and has the stack of that line, and each heading starts one. -/
theorem sections_walked (content : Text) :
    (∀ sec ∈ splitSections (scanLines content), ∃ u, sec.units.head? = some u ∧ sec.headingPath =
        (stacked Prod.fst (headingsUpTo (scanLines content) u.start)).map Prod.snd) ∧
    ∀ l ∈ scanLines content, l.boundary.isSome →
      ∃ sec ∈ splitSections (scanLines content), ∃ u, sec.units.head? = some u ∧
        u.start = l.start := by
  have h := walked_fold [] (scanLines content) ⟨[],[],[],none,false⟩
    ⟨rfl,by simp,by simp [pendingStart],by simp⟩ (by simpa using scan_increasing content)
  rw [List.nil_append] at h
  rw [splitSections]
  rcases flushed_sections ((scanLines content).foldl SplitState.step ⟨[],[],[],none,false⟩) with
    ⟨hnone,heq⟩ | ⟨new,u,heq,hpath,hu,hp⟩
  · rw [heq]
    constructor
    · intro sec hsec
      obtain ⟨u,hu,-,hpath⟩ := h.sections sec hsec
      exact ⟨u,hu,hpath⟩
    intro l hl hsome
    rcases h.found l hl hsome with hin | hp
    · exact hin
    · rw [hnone] at hp
      cases hp
  rw [heq]
  constructor
  · intro sec hsec
    rcases List.mem_append.mp hsec with hsec | hsec
    · obtain ⟨u,hu,-,hpath⟩ := h.sections sec hsec
      exact ⟨u,hu,hpath⟩
    · rw [List.mem_singleton.mp hsec]
      exact ⟨u,hu,by rw [hpath, h.stack, (h.pending _ hp).2]⟩
  · intro l hl hsome
    rcases h.found l hl hsome with ⟨sec,hsec,hin⟩ | hpl
    · exact ⟨sec,List.mem_append_left _ hsec,hin⟩
    · rw [hp, Option.some.injEq] at hpl
      exact ⟨new,by simp,u,hu,hpl⟩

/-- The paths of the sections follow the nesting of the headings exactly when no heading closes
another below a level that was skipped. -/
theorem paths_nest_iff (content : Text) :
    PathsNest content ↔ Steady Prod.fst (headings (scanLines content)) := by
  have hlt := scan_increasing content
  obtain ⟨hpaths,hfound⟩ := sections_walked content
  rw [← stacked_iff Prod.fst Prod.snd _ (heading_levels content)]
  constructor
  · intro h before e after heq
    obtain ⟨l,hl,hb,hup⟩ := heading_line _ hlt before e after heq
    obtain ⟨sec,hsec,u,hu,hstart⟩ := hfound l hl (by simp [hb])
    obtain ⟨v,hv,hnest⟩ := h sec hsec
    obtain ⟨w,hw,hstack⟩ := hpaths sec hsec
    obtain rfl : u = v := Option.some.inj (hu.symm.trans hv)
    obtain rfl : u = w := Option.some.inj (hu.symm.trans hw)
    rw [hstack, chainAt, hstart, hup] at hnest
    exact hnest
  · intro h sec hsec
    obtain ⟨u,hu,hpath⟩ := hpaths sec hsec
    refine ⟨u,hu,?_⟩
    obtain ⟨after,hafter⟩ := up_to_front _ hlt u.start
    rw [hpath, chainAt]
    rcases List.eq_nil_or_concat' (headingsUpTo (scanLines content) u.start) with hnil | ⟨b,e,heq⟩
    · rw [hnil]
      rfl
    · rw [heq] at hafter ⊢
      exact h b e after (by simpa using hafter)

/-- Two headings of level three with nothing above them: the second is put under the first. -/
theorem skipped_levels_nest : ¬∀ (lib : Library) (raw content : Text) (plan : ChunkPlan),
    normalizeContent lib raw = content → chunkMarkdown lib.tables content = some plan → plan.capped
    = false → PathsNest content := by
  intro h
  let content := "### A\n### B\n".toList
  have hcapped : (chunkMarkdown asciiLibrary.tables content).map ChunkPlan.capped = some false := by
    decide +kernel
  obtain ⟨plan,hplan,hcap⟩ := Option.map_eq_some_iff.mp hcapped
  have hsections : splitSections (scanLines content) =
      [⟨["A".toList],[⟨0,6,false⟩]⟩,⟨["A".toList,"B".toList],[⟨6,12,false⟩]⟩] := by decide +kernel
  obtain ⟨u,hu,hpath⟩ := h asciiLibrary content content plan (by decide +kernel) hplan hcap
    ⟨["A".toList,"B".toList],[⟨6,12,false⟩]⟩ (by rw [hsections]; simp)
  cases hu
  revert hpath
  decide +kernel

end AndaBrain.WikiHeadings
