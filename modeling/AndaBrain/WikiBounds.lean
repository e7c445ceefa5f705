import AndaBrain.WikiText

/-!
# Sizes of chunks

A forced split leaves pieces of at most the cap it is given.
-/

set_option autoImplicit false

namespace AndaBrain.WikiBounds
open Foundation.SpanTiling Foundation.Utf8Text
open WikiChunk WikiTiling

section Force
variable (content : Text) (headingPath : List Text)

theorem cut_line_bounds (max lineEnd pieceStart : ℕ) (hmax : 4 ≤ max)
    (hstart : Boundary content pieceStart) (hend : lineEnd ≤ byteLen content) :
    (∀ d ∈ (cutLine content headingPath max lineEnd pieceStart).1,
      d.byteStart < d.byteEnd ∧ d.byteEnd-d.byteStart ≤ max) ∧
    Boundary content (cutLine content headingPath max lineEnd pieceStart).2 ∧
    lineEnd-(cutLine content headingPath max lineEnd pieceStart).2 ≤ max := by
  fun_induction cutLine content headingPath max lineEnd pieceStart with
  | case1 pieceStart hlong hcut =>
    have := floor_progress content pieceStart max hstart hmax (by omega)
    omega
  | case2 pieceStart hlong hcut cut rest ih =>
    obtain ⟨hpieces,hb,hlast⟩ := ih (floor_boundary _ _)
    refine ⟨?_,hb,hlast⟩
    intro d hd
    rcases List.mem_cons.mp hd with rfl | hd
    · have hle := floor_le content (pieceStart+max)
      simp only [forcedDraft, cut] at hle ⊢
      omega
    · exact hpieces d hd
  | case3 pieceStart hlong => exact ⟨by simp,hstart,by omega⟩

theorem split_pieces_bounds (max : ℕ) (hmax : 4 ≤ max) (raws : List Text) (p s : Text)
    (pieceStart : ℕ) (heq : content = p++(raws.flatten++s)) (hle : pieceStart ≤ byteLen p)
    (hroom : byteLen p-pieceStart ≤ max) (hstart : Boundary content pieceStart) :
    (∀ d ∈ (splitPieces content headingPath max raws pieceStart (byteLen p)).1,
      d.byteStart < d.byteEnd ∧ d.byteEnd-d.byteStart ≤ max) ∧
    byteLen p+byteLen raws.flatten-
      (splitPieces content headingPath max raws pieceStart (byteLen p)).2 ≤ max := by
  induction raws generalizing p pieceStart with
  | nil => exact ⟨by simp [splitPieces],by simpa [splitPieces, byteLen] using hroom⟩
  | cons raw raws ih =>
    have hlen : byteLen (p++raw) = byteLen p+byteLen raw := byte_len_append p raw
    have hb : Boundary content (byteLen p) := by
      rw [heq]
      exact boundary_append p _
    have hbound : byteLen p+byteLen raw ≤ byteLen content := by
      rw [heq]
      simp only [List.flatten_cons, byte_len_append]
      omega
    let breaks := max < byteLen p+byteLen raw-pieceStart ∧ pieceStart < byteLen p
    let opened := if breaks then byteLen p else pieceStart
    have hopened : Boundary content opened ∧ opened ≤ byteLen p+byteLen raw := by
      by_cases hbr : breaks
      · simp only [opened, if_pos hbr]
        exact ⟨hb,by omega⟩
      · simp only [opened, if_neg hbr]
        exact ⟨hstart,by omega⟩
    obtain ⟨hcut,hcutb,hcutlen⟩ :=
      cut_line_bounds content headingPath max (byteLen p+byteLen raw) opened hmax hopened.1 hbound
    have hcutle :=
      (cut_line_tiles content headingPath max (byteLen p+byteLen raw) opened hopened.2).2
    obtain ⟨hlater,hlast⟩ :=
      ih (p++raw) (cutLine content headingPath max (byteLen p+byteLen raw) opened).2 (by simp [heq])
        (by rw [hlen]; exact hcutle) (by rw [hlen]; exact hcutlen) hcutb
    rw [hlen] at hlater hlast
    constructor
    · intro d hd
      simp only [splitPieces, List.mem_append] at hd
      rcases hd with (hd | hd) | hd
      · by_cases hbr : breaks
        · rw [if_pos hbr, List.mem_singleton] at hd
          subst hd
          exact ⟨hbr.2,hroom⟩
        · rw [if_neg hbr] at hd
          cases hd
      · exact hcut d hd
      · exact hlater d hd
    · rw [List.flatten_cons, byte_len_append, ← Nat.add_assoc]
      exact hlast

theorem force_split_bounds (start stop max : ℕ) (hmax : 4 ≤ max) (pieces : List ChunkDraft)
    (h : forceSplit content start stop headingPath max = some pieces) :
    ∀ d ∈ pieces, d.byteStart < d.byteEnd ∧ d.byteEnd-d.byteStart ≤ max := by
  simp only [forceSplit] at h
  obtain ⟨text,hslice,hpieces⟩ := Option.bind_eq_some_iff.mp h
  obtain ⟨p,s,hcontent,hp,hm⟩ := slice_cut content text start stop hslice
  have hflat := split_inclusive_flatten '\n' text
  obtain ⟨hall,hlast⟩ := split_pieces_bounds content headingPath max hmax (splitInclusive '\n' text)
    p s start (by rw [hflat]; exact hcontent) hp.ge (by omega) (by
      rw [hcontent, ← hp]
      exact boundary_append p _)
  rw [hp] at hall hlast
  rw [hflat, hm] at hlast
  rw [Option.some.injEq] at hpieces
  subst hpieces
  intro d hd
  rcases List.mem_append.mp hd with hd | hd
  · exact hall d hd
  by_cases hopen :
      (splitPieces content headingPath max (splitInclusive '\n' text) start start).2 < stop
  · rw [if_pos hopen, List.mem_singleton] at hd
    subst hd
    exact ⟨hopen,hlast⟩
  · rw [if_neg hopen] at hd
    cases hd

end Force

section Units

def linesOf (lines : List LineInfo) (start stop : ℕ) : List LineInfo :=
  lines.filter fun l => start ≤ l.start && l.start < stop

def Fenced (lines : List LineInfo) (start stop : ℕ) : Bool := (linesOf lines start stop).any (·.inFence)

/-- More than half of the lines of a range that are not blank are rows of a table. -/
def MostlyTable (lines : List LineInfo) (start stop : ℕ) : Bool :=
  let rows := (linesOf lines start stop).countP fun l => !l.blank
  0 < rows && rows < (linesOf lines start stop).countP (·.tableRow)*2

def UnitOk (lines : List LineInfo) (stop : ℕ) (u : PackUnit) : Prop :=
  u.stop ≤ stop ∧ u.atomic = (Fenced lines u.start u.stop || MostlyTable lines u.start u.stop)

structure OpenOk (lines : List LineInfo) (stop : ℕ) (u : OpenUnit) : Prop where
  begins : u.start ≤ stop
  ends : u.stop = stop
  fence : u.fence = Fenced lines u.start stop
  total : u.totalRows = (linesOf lines u.start stop).countP fun l => !l.blank
  table : u.tableRows = (linesOf lines u.start stop).countP (·.tableRow)

structure Counted (lines : List LineInfo) (stop : ℕ) (s : SplitState) : Prop where
  closed : ∀ sec ∈ s.sections, ∀ u ∈ sec.units, UnitOk lines stop u
  units : ∀ u ∈ s.units, UnitOk lines stop u
  unit : ∀ u, s.unit = some u → OpenOk lines stop u

variable (lines : List LineInfo) (stop : ℕ) (line : LineInfo)

theorem open_close (u : OpenUnit) (h : OpenOk lines stop u) : UnitOk lines stop u.close := by
  refine ⟨h.ends.le,?_⟩
  simp only [OpenUnit.close, MostlyTable, h.ends, h.fence, h.total, h.table]

theorem counted_flush_unit (s : SplitState) (h : Counted lines stop s) :
    Counted lines stop s.flushUnit := by
  refine ⟨h.closed,?_,by simp [SplitState.flushUnit]⟩
  intro u hu
  rcases List.mem_append.mp hu with hu | hu
  · exact h.units u hu
  · obtain ⟨v,hv,rfl⟩ := Option.map_eq_some_iff.mp (Option.mem_toList.mp hu)
    exact open_close lines stop v (h.unit v hv)

theorem counted_flush_section (s : SplitState) (h : Counted lines stop s) :
    Counted lines stop s.flushSection := by
  unfold SplitState.flushSection
  by_cases hempty : s.units.isEmpty
  · rwa [if_pos hempty]
  rw [if_neg hempty]
  refine ⟨?_,by simp,h.unit⟩
  intro sec hsec
  rcases List.mem_append.mp hsec with hsec | hsec
  · exact h.closed sec hsec
  · rw [List.mem_singleton.mp hsec]
    exact h.units

theorem counted_opened (s : SplitState) (h : Counted lines stop s) :
    Counted lines stop ((s.openSection line).breakUnit line) := by
  have hopen : Counted lines stop (s.openSection line) := by
    unfold SplitState.openSection
    split
    · exact h
    · have hflushed := counted_flush_section lines stop _ (counted_flush_unit lines stop s h)
      exact ⟨hflushed.closed,hflushed.units,hflushed.unit⟩
  unfold SplitState.breakUnit
  split
  · exact counted_flush_unit lines stop _ hopen
  · exact hopen

theorem lines_of_later (start finish : ℕ) (h : finish ≤ line.start) :
    linesOf (lines++[line]) start finish = linesOf lines start finish := by
  have hnot : ¬line.start < finish := by omega
  simp [linesOf, List.filter_append, hnot]

theorem lines_of_next (start : ℕ) (hbefore : ∀ l ∈ lines, l.start < line.start)
    (hstart : start ≤ line.start) (hline : line.start < line.stop) :
    linesOf (lines++[line]) start line.stop = linesOf lines start line.start++[line] := by
  have hsame : linesOf lines start line.stop = linesOf lines start line.start := by
    apply List.filter_congr
    intro l hl
    have := hbefore l hl
    simp [this, this.trans hline]
  have hlast : linesOf [line] start line.stop = [line] := by
    simp [linesOf, hstart, hline]
  rw [linesOf, List.filter_append]
  exact congrArg₂ _ hsame hlast

theorem unit_later (u : PackUnit) (h : UnitOk lines line.start u) (hline : line.start < line.stop) :
    UnitOk (lines++[line]) line.stop u := by
  refine ⟨h.1.trans hline.le,?_⟩
  rw [h.2, Fenced, Fenced, MostlyTable, MostlyTable, lines_of_later lines line _ _ h.1]

def RowsShow (l : LineInfo) : Prop := l.tableRow = true → l.blank = false

theorem counted_add_line (s : SplitState) (h : Counted lines line.start s)
    (hbefore : ∀ l ∈ lines, l.start < line.start) (hline : line.start < line.stop)
    (hrow : RowsShow line) : Counted (lines++[line]) line.stop (s.addLine line) := by
  refine ⟨fun sec hsec u hu => unit_later lines line u (h.closed sec hsec u hu) hline,
    fun u hu => unit_later lines line u (h.units u hu) hline,?_⟩
  intro u hu
  simp only [SplitState.addLine, Option.some.injEq] at hu
  subst hu
  cases hunit : s.unit with
  | none =>
    have hlines := lines_of_next lines line line.start hbefore le_rfl hline
    have hnone : linesOf lines line.start line.start = [] := by
      rw [linesOf, List.filter_eq_nil_iff]
      intro l hl
      simp
    rw [hnone, List.nil_append] at hlines
    constructor
    · exact hline.le
    · rfl
    · simp [extendUnit, Fenced, hlines]
    · cases hb : line.blank <;> simp [extendUnit, hlines, hb]
    · cases ht : line.tableRow <;> simp [extendUnit, hlines, ht]
  | some v =>
    have hv := h.unit v hunit
    have hlines := lines_of_next lines line v.start hbefore hv.begins hline
    constructor
    · exact hv.begins.trans hline.le
    · rfl
    · simp [extendUnit, Fenced, hlines, hv.fence]
    · simp only [extendUnit, hlines, List.countP_append, ← hv.total]
      cases hb : line.blank <;> simp [hb]
    simp only [extendUnit, hlines, List.countP_append, ← hv.table]
    cases ht : line.tableRow
    · simp [ht]
    · simp [ht, hrow ht]

theorem counted_fold (P : ℕ → Prop) (rest : List LineInfo) (pos hi : ℕ) (s : SplitState)
    (h : Counted lines pos s) (hbefore : ∀ l ∈ lines, l.start < pos)
    (ht : Tiles P pos (rest.map lineSpan) hi) (hrows : ∀ l ∈ rest, RowsShow l) :
    Counted (lines++rest) hi (rest.foldl SplitState.step s) := by
  induction rest generalizing lines pos s with
  | nil =>
    obtain rfl : pos = hi := ht
    simpa using h
  | cons line rest ih =>
    obtain ⟨hs,hlt,-,hrest⟩ := ht
    obtain rfl : line.start = pos := hs
    have hstep : Counted (lines++[line]) line.stop (s.step line) :=
      counted_add_line lines line _ (counted_opened lines line.start line s h) hbefore hlt
        (hrows line List.mem_cons_self)
    have hsplit : lines++line::rest = (lines++[line])++rest := by simp
    rw [hsplit]
    apply ih (lines++[line]) line.stop _ hstep
    · intro l hl
      rcases List.mem_append.mp hl with hl | hl
      · exact (hbefore l hl).trans hlt
      · rw [List.mem_singleton.mp hl]
        exact hlt
    · exact hrest
    · exact fun l hl => hrows l (List.mem_cons_of_mem _ hl)

theorem scanned_rows (raws : List Text) (offset : ℕ) (fences : FenceTracker) :
    ∀ l ∈ scanFrom offset fences raws, RowsShow l := by
  induction raws generalizing offset fences with
  | nil => exact fun _ h => nomatch h
  | cons raw rest ih =>
    intro l hl
    rcases List.mem_cons.mp hl with rfl | hl
    · intro hrow
      simp only [lineInfo, Bool.and_eq_true] at hrow ⊢
      cases htrim : trimStart (stripNewline raw) with
      | nil =>
        rw [htrim] at hrow
        cases hrow.2
      | cons c cs => rfl
    · exact ih _ _ l hl

end Units

def unitsOf (content : Text) : List PackUnit :=
  (splitSections (scanLines content)).flatMap MarkdownSection.units

theorem unit_atomic (content : Text) (u : PackUnit) (h : u ∈ unitsOf content) : u.atomic =
    (Fenced (scanLines content) u.start u.stop || MostlyTable (scanLines content) u.start u.stop) :=
    by
  have hcount := counted_fold [] (Boundary content) (scanLines content) 0 (byteLen content)
    ⟨[],[],[],none,false⟩ ⟨by simp,by simp,by simp⟩ (by simp) (scan_lines_tiles content)
    (scanned_rows _ _ _)
  have hdone := counted_flush_section _ _ _ (counted_flush_unit _ _ _ hcount)
  obtain ⟨sec,hsec,hu⟩ := List.mem_flatMap.mp h
  rw [List.nil_append] at hdone
  exact (hdone.closed sec hsec u hu).2

section Pack
variable (content : Text) (headingPath : List Text) (all : List PackUnit)

def Sized (d : ChunkDraft) : Prop :=
  d.byteEnd-d.byteStart ≤ chunkHardMax ∨
    (d.byteEnd-d.byteStart ≤ chunkAtomicMax ∧ d.byteStart < d.byteEnd ∧
      ∃ u ∈ all, u.atomic = true ∧ u.start ≤ d.byteStart ∧ d.byteEnd ≤ u.stop)

def Packed (r : PackRange) : Prop :=
  (r.stop-r.start ≤ chunkTargetMax) ∨ ∃ u ∈ all, u.range = r

theorem tiles_inside (P : ℕ → Prop) (lo hi : ℕ) (spans : List Span) (h : Tiles P lo spans hi) :
    lo ≤ hi ∧ ∀ s ∈ spans, lo ≤ s.1 ∧ s.2 ≤ hi := by
  induction spans generalizing lo with
  | nil => exact ⟨le_of_eq h,by simp⟩
  | cons s spans ih =>
    obtain ⟨hs,hlt,-,hrest⟩ := h
    obtain ⟨hle,hall⟩ := ih _ hrest
    refine ⟨by omega,?_⟩
    intro t ht
    rcases List.mem_cons.mp ht with rfl | ht
    · exact ⟨hs.ge,hle⟩
    · have := hall t ht
      omega

theorem force_split_inside (start stop max : ℕ) (hlt : start < stop) (pieces : List ChunkDraft)
    (h : forceSplit content start stop headingPath max = some pieces) :
    ∀ d ∈ pieces, start ≤ d.byteStart ∧ d.byteEnd ≤ stop := by
  obtain ⟨text,hslice,-⟩ := Option.bind_eq_some_iff.mp h
  obtain ⟨p,s,hcontent,hp,hm⟩ := slice_cut content text start stop hslice
  have hstart : Boundary content start := by
    rw [hcontent, ← hp]
    exact boundary_append p _
  have hstop : Boundary content stop := by
    rw [hcontent, ← List.append_assoc, ← hm, ← hp, ← byte_len_append]
    exact boundary_append _ s
  obtain ⟨found,hfound,htiles⟩ := force_split_tiles content headingPath start stop max hstart hstop hlt
  obtain rfl : found = pieces := Option.some.inj (hfound.symm.trans h)
  intro d hd
  exact (tiles_inside _ _ _ _ htiles).2 _ (List.mem_map_of_mem hd)

theorem close_range_sized (r : PackRange) (s s' : PackState) (hr : Packed all r)
    (h : closeRange content headingPath r s = some s') (hs : ∀ d ∈ s.drafts, Sized all d) :
    ∀ d ∈ s'.drafts, Sized all d := by
  have hpiece : ∀ d : ChunkDraft, d.byteStart < d.byteEnd → r.start ≤ d.byteStart →
      d.byteEnd ≤ r.stop → d.byteEnd-d.byteStart ≤ (if r.atomic then chunkAtomicMax else chunkHardMax) →
      Sized all d := by
    intro d hne hlo hhi hcap
    rcases hr with hsmall | ⟨u,hu,hrange⟩
    · left
      simp only [chunkTargetMax, chunkHardMax] at hsmall ⊢
      omega
    subst hrange
    cases hatomic : u.atomic with
    | false => exact Or.inl (by simpa [PackUnit.range, hatomic] using hcap)
    | true =>
      exact Or.inr ⟨by simpa [PackUnit.range, hatomic] using hcap,hne,u,hu,hatomic,hlo,hhi⟩
  simp only [closeRange] at h
  by_cases hempty : r.stop-r.start = 0
  · rw [if_pos hempty, Option.some.injEq] at h
    exact h ▸ hs
  rw [if_neg hempty] at h
  by_cases hcap : (if r.atomic then chunkAtomicMax else chunkHardMax) < r.stop-r.start
  · rw [if_pos hcap] at h
    obtain ⟨pieces,hsplit,heq⟩ := Option.bind_eq_some_iff.mp h
    rw [Option.some.injEq] at heq
    have hmax : 4 ≤ if r.atomic then chunkAtomicMax else chunkHardMax := by
      cases r.atomic <;> simp [chunkAtomicMax, chunkHardMax]
    intro d hd
    rw [← heq] at hd
    rcases List.mem_append.mp hd with hd | hd
    · exact hs d hd
    · obtain ⟨hne,hlen⟩ := force_split_bounds content headingPath _ _ _ hmax pieces hsplit d hd
      obtain ⟨hlo,hhi⟩ := force_split_inside content headingPath _ _ _ (by omega) pieces hsplit d hd
      exact hpiece d hne hlo hhi hlen
  · rw [if_neg hcap, Option.some.injEq] at h
    intro d hd
    rw [← h] at hd
    rcases List.mem_append.mp hd with hd | hd
    · exact hs d hd
    · rw [List.mem_singleton.mp hd]
      exact hpiece _ (by simp only; omega) le_rfl le_rfl (not_lt.mp hcap)

theorem pack_units_sized (P : ℕ → Prop) (units : List PackUnit) (cur : PackRange) (s s' : PackState)
    (hi : ℕ) (hcur : Packed all cur) (hunits : ∀ u ∈ units, u ∈ all)
    (ht : Tiles P cur.stop (units.map unitSpan) hi)
    (h : packUnits content headingPath units cur s = some s') (hs : ∀ d ∈ s.drafts, Sized all d) :
    ∀ d ∈ s'.drafts, Sized all d := by
  induction units generalizing cur s with
  | nil => exact close_range_sized content headingPath all cur s s' hcur h hs
  | cons u units ih =>
    obtain ⟨hu,hlt,-,hrest⟩ := ht
    have hstart : u.start = cur.stop := hu
    have hin : ∀ v ∈ units, v ∈ all := fun v hv => hunits v (List.mem_cons_of_mem _ hv)
    simp only [packUnits] at h
    by_cases hfit : (cur.stop-cur.start)+(u.stop-u.start) ≤ chunkTargetMax
    · rw [if_pos hfit] at h
      exact ih ⟨cur.start,u.stop,false⟩ s (Or.inl (by simp only; omega)) hin hrest h hs
    rw [if_neg hfit] at h
    obtain ⟨closed,hclosed,hpacked⟩ := Option.bind_eq_some_iff.mp h
    exact ih u.range closed (Or.inr ⟨u,hunits u List.mem_cons_self,rfl⟩) hin hrest hpacked
      (close_range_sized content headingPath all cur s closed hcur hclosed hs)

theorem pack_sections_sized (P : ℕ → Prop) (secs : List MarkdownSection) (s s' : PackState)
    (lo hi : ℕ) (hunits : ∀ sec ∈ secs, ∀ u ∈ sec.units, u ∈ all)
    (ht : Tiles P lo (sectionSpans secs) hi) (h : packSections content secs s = some s')
    (hs : ∀ d ∈ s.drafts, Sized all d) : ∀ d ∈ s'.drafts, Sized all d := by
  induction secs generalizing s lo with
  | nil =>
    rw [packSections, Option.some.injEq] at h
    exact h ▸ hs
  | cons sec secs ih =>
    have hsplit : sectionSpans (sec::secs) = sec.units.map unitSpan++sectionSpans secs := by
      simp [sectionSpans]
    rw [hsplit] at ht
    obtain ⟨mid,hsec,hrest⟩ := tiles_split lo hi _ _ ht
    obtain ⟨packed,hpacked,hlater⟩ := Option.bind_eq_some_iff.mp h
    refine ih packed mid (fun x hx => hunits x (List.mem_cons_of_mem _ hx)) hrest hlater ?_
    have hin := hunits sec List.mem_cons_self
    cases hun : sec.units with
    | nil =>
      rw [packSection, hun, Option.some.injEq] at hpacked
      exact hpacked ▸ hs
    | cons u units =>
      rw [packSection, hun] at hpacked
      rw [hun] at hsec hin
      exact pack_units_sized content sec.headingPath all P units u.range s packed mid
        (Or.inr ⟨u,hin u List.mem_cons_self,rfl⟩) (fun v hv => hin v (List.mem_cons_of_mem _ hv))
        hsec.2.2.2 hpacked hs

theorem merge_from_sized (rest : List ChunkDraft) (a : ChunkDraft)
    (h : ∀ d ∈ a::rest, Sized all d) : ∀ d ∈ mergeFrom a rest, Sized all d := by
  induction rest generalizing a with
  | nil => exact h
  | cons b rest ih =>
    simp only [mergeFrom]
    by_cases hmerge : mergesForward a b = true
    · rw [if_pos hmerge]
      apply ih
      intro d hd
      rcases List.mem_cons.mp hd with rfl | hd
      · left
        simp only [mergesForward, Bool.and_eq_true, decide_eq_true_eq] at hmerge
        simp only [mergeDrafts, chunkTargetMax, chunkHardMax] at hmerge ⊢
        omega
      · exact h d (by simp [hd])
    · rw [if_neg hmerge]
      intro d hd
      rcases List.mem_cons.mp hd with rfl | hd
      · exact h d (by simp)
      · exact ih b (fun x hx => h x (List.mem_cons_of_mem _ hx)) d hd

end Pack

def Shares (u : PackUnit) (d : ChunkDraft) : Prop := u.start < d.byteEnd ∧ d.byteStart < u.stop

theorem plan_sized (tables : CharTables) (content : Text) (plan : ChunkPlan)
    (h : chunkMarkdown tables content = some plan) (hcap : plan.capped = false) :
    ∀ d ∈ plan.drafts, Sized (unitsOf content) d := by
  by_cases hempty : content.isEmpty
  · rw [chunkMarkdown, if_pos hempty, Option.some.injEq] at h
    rw [← h]
    simp
  rw [chunkMarkdown, if_neg hempty] at h
  obtain ⟨packed,hpacked,heq⟩ := Option.bind_eq_some_iff.mp h
  have htiles := split_sections_tiles (scanLines content) _ (scan_lines_tiles content)
  have hdrafts := pack_sections_sized content (unitsOf content) (Boundary content)
    (splitSections (scanLines content)) ⟨[],0⟩ packed 0 _
    (fun sec hsec u hu => List.mem_flatMap.mpr ⟨sec,hsec,hu⟩) htiles hpacked (by simp)
  have hmerged : ∀ d ∈ mergeSmallSiblings packed.drafts, Sized (unitsOf content) d := by
    cases hd : packed.drafts with
    | nil => simp [mergeSmallSiblings]
    | cons a rest => exact merge_from_sized _ rest a (hd ▸ hdrafts)
  rw [Option.some.injEq] at heq
  subst heq
  have hshort : ¬maxChunksPerVersion < (mergeSmallSiblings packed.drafts).length := by
    simpa using hcap
  intro d hd
  obtain ⟨⟨e,i⟩,he,rfl⟩ := List.mem_map.mp hd
  rw [capDrafts, dif_neg hshort] at he
  exact hmerged e (List.fst_mem_of_mem_zipIdx he)

/-- Chunks are at most as large as the larger cap, those of plain units at most as large as the
smaller one, and a forced split makes pieces of at most the cap that it is given. -/
theorem chunk_sizes (tables : CharTables) (content : Text) :
    (∀ plan, chunkMarkdown tables content = some plan → plan.capped = false →
      ∀ d ∈ plan.drafts, d.byteEnd-d.byteStart ≤ chunkAtomicMax ∧
        ((∀ u ∈ unitsOf content, Shares u d → Fenced (scanLines content) u.start u.stop = false ∧
          MostlyTable (scanLines content) u.start u.stop = false) →
          d.byteEnd-d.byteStart ≤ chunkHardMax)) ∧
    ∀ start stop headingPath max, 4 ≤ max → (slice content start stop).isSome →
      ∃ pieces, forceSplit content start stop headingPath max = some pieces ∧
        ∀ d ∈ pieces, d.byteStart < d.byteEnd ∧ d.byteEnd-d.byteStart ≤ max := by
  constructor
  · intro plan hplan hcap d hd
    rcases plan_sized tables content plan hplan hcap d hd with hsmall | ⟨hlarge,hne,u,hu,hatomic,hlo,hhi⟩
    · exact ⟨hsmall.trans (by decide),fun _ => hsmall⟩
    refine ⟨hlarge,?_⟩
    intro hplain
    obtain ⟨hfence,htable⟩ := hplain u hu ⟨by omega,by omega⟩
    rw [unit_atomic content u hu, hfence, htable] at hatomic
    cases hatomic
  · intro start stop headingPath max hmax hslice
    obtain ⟨text,htext⟩ := Option.isSome_iff_exists.mp hslice
    obtain ⟨pieces,hpieces⟩ : ∃ pieces, forceSplit content start stop headingPath max = some pieces := by
      rw [forceSplit, htext]
      exact ⟨_,rfl⟩
    exact ⟨pieces,hpieces,force_split_bounds content headingPath start stop max hmax pieces hpieces⟩

section Prose

def proseFence (n : ℕ) : Text :=
  List.replicate n 'x'++ '\n'::[backtick,backtick,backtick,'\n']

theorem split_inclusive_line (line rest : Text) (h : '\n' ∉ line) :
    splitInclusive '\n' (line++ '\n'::rest) = (line++['\n'])::splitInclusive '\n' rest := by
  induction line with
  | nil => simp [splitInclusive]
  | cons c line ih =>
    simp only [List.mem_cons, not_or] at h
    rw [List.cons_append, splitInclusive, if_neg (Ne.symm h.1), ih h.2]
    rfl

theorem byte_len_replicate (n : ℕ) : byteLen (List.replicate n 'x') = n := by
  induction n with
  | zero => rfl
  | succ n ih =>
    have hone : 'x'.utf8Size = 1 := by decide
    rw [List.replicate_succ, byteLen, ih, hone, Nat.add_comm]

theorem prose_lines (n : ℕ) : splitInclusive '\n' (proseFence n) =
    [List.replicate n 'x'++['\n'],[backtick,backtick,backtick,'\n']] := by
  rw [proseFence, split_inclusive_line _ _ (by simp [List.mem_replicate])]
  rfl

theorem prose_bytes (n : ℕ) : byteLen (List.replicate n 'x'++['\n']) = n+1 := by
  rw [byte_len_append, byte_len_replicate]
  rfl

theorem prose_scan (n : ℕ) (h : 0 < n) : scanLines (proseFence n) =
    [⟨0,n+1,false,false,false,none⟩,⟨n+1,n+5,false,true,false,none⟩] := by
  have hstrip : stripNewline (List.replicate n 'x'++['\n']) = List.replicate n 'x' := by
    simp [stripNewline]
  rw [scanLines, prose_lines]
  simp only [scanFrom, lineInfo, hstrip, prose_bytes, Nat.zero_add]
  cases n with
  | zero => omega
  | succ n => rfl

theorem prose_sections (n : ℕ) (h : 0 < n) :
    splitSections (scanLines (proseFence n)) = [⟨[],[⟨0,n+5,true⟩]⟩] := by
  rw [prose_scan n h]
  rfl

theorem prose_split (n : ℕ) (hlo : 32768 ≤ n) (hhi : n ≤ 65531) : forceSplit (proseFence n) 0 (n+5)
    [] chunkAtomicMax = some [forcedDraft [] 0 32768,forcedDraft [] 32768 (n+5)] := by
  have hlen : byteLen (proseFence n) = n+5 := by
    rw [proseFence, byte_len_append, byte_len_replicate]
    rfl
  have hslice : slice (proseFence n) 0 (n+5) = some (proseFence n) := by
    rw [← hlen]
    exact slice_all _
  have hb : Boundary (proseFence n) 32768 := by
    have hcut : proseFence n = List.replicate 32768 'x'++(List.replicate (n-32768) 'x'++
        '\n'::[backtick,backtick,backtick,'\n']) := by
      rw [← List.append_assoc, ← List.replicate_add, Nat.add_sub_cancel' hlo]
      rfl
    rw [hcut]
    conv => arg 2; rw [← byte_len_replicate 32768]
    exact boundary_append _ _
  have hfloor : floorCharBoundary (proseFence n) (0+32768) = 32768 := by
    apply le_antisymm
    · exact (floor_le _ _).trans (by omega)
    · exact floor_from_ge _ _ _ hb (by omega)
  have hrest : ∀ stop, stop ≤ n+5 → cutLine (proseFence n) [] 32768 stop 32768 = ([],32768) := by
    intro stop hstop
    rw [cutLine, dif_neg (by omega)]
  have hfirst : cutLine (proseFence n) [] 32768 (n+1) 0 = ([forcedDraft [] 0 32768],32768) := by
    rw [cutLine, dif_pos (by omega), dif_neg (by omega)]
    simp only [hfloor, hrest (n+1) (by omega)]
  have hfence : byteLen [backtick,backtick,backtick,'\n'] = 4 := rfl
  have hno : ¬(32768 < n+1+4-32768 ∧ 32768 < n+1) := by omega
  simp only [forceSplit, hslice, prose_lines, chunkAtomicMax, splitPieces, prose_bytes, hfence,
    Nat.zero_add, Nat.lt_irrefl, and_false, if_false, hfirst, if_neg hno, hrest (n+1+4) (by omega),
    Option.bind_eq_bind, Option.bind_some]
  rw [if_pos (by omega)]
  rfl

theorem prose_plan (tables : CharTables) (n : ℕ) (hlo : 32768 ≤ n) (hhi : n ≤ 65531) : ∃ plan,
    chunkMarkdown tables (proseFence n) = some plan ∧ plan.capped = false ∧ ∃ d ∈ plan.drafts,
    d.byteStart = 0 ∧ d.byteEnd = 32768 := by
  have hne : (proseFence n).isEmpty = false := by simp [proseFence]
  have hpack : packSections (proseFence n) (splitSections (scanLines (proseFence n))) ⟨[],0⟩ =
      some ⟨[forcedDraft [] 0 32768,forcedDraft [] 32768 (n+5)],1⟩ := by
    rw [prose_sections n (by omega)]
    simp only [packSections, packSection, packUnits, PackUnit.range, closeRange, if_true]
    rw [if_neg (by omega), if_pos (by simp only [chunkAtomicMax]; omega), prose_split n hlo hhi]
    rfl
  have hmerge : mergeSmallSiblings [forcedDraft [] 0 32768,forcedDraft [] 32768 (n+5)] =
      [forcedDraft [] 0 32768,forcedDraft [] 32768 (n+5)] := rfl
  refine ⟨_,by rw [chunkMarkdown, hne, hpack]; rfl,?_,?_⟩
  · simp only [hmerge]
    rfl
  refine ⟨setAnchor tables (forcedDraft [] 0 32768,0),?_,rfl,rfl⟩
  simp only [hmerge]
  rw [capDrafts, dif_neg (by simp [maxChunksPerVersion])]
  exact List.mem_map_of_mem (by simp)

/-- A long line above a code fence is one atomic unit with the fence: its first piece holds no
line of the fence and has the size of the larger cap. -/
theorem prose_above_fence : ¬∀ (tables : CharTables) (content : Text) (plan : ChunkPlan),
    chunkMarkdown tables content = some plan → plan.capped = false → ∀ d ∈ plan.drafts,
    (∀ l ∈ scanLines content, l.inFence = true → l.stop ≤ d.byteStart ∨ d.byteEnd ≤ l.start) →
    (∀ u ∈ unitsOf content, Shares u d → MostlyTable (scanLines content) u.start u.stop = false) →
    d.byteEnd-d.byteStart ≤ chunkHardMax := by
  intro h
  obtain ⟨plan,hplan,hcap,d,hd,hstart,hend⟩ := prose_plan asciiTables 40000 (by omega) (by omega)
  have hscan := prose_scan 40000 (by omega)
  have hbound := h asciiTables (proseFence 40000) plan hplan hcap d hd (by
    intro l hl hfence
    rw [hscan] at hl
    simp only [List.mem_cons, List.not_mem_nil, or_false] at hl
    rcases hl with rfl | rfl
    · cases hfence
    · right
      rw [hend]
      decide) (by
    intro u hu hshares
    have heq : u = ⟨0,40005,true⟩ := by
      simpa [unitsOf, prose_sections 40000 (by omega)] using hu
    rw [heq, hscan]
    decide)
  rw [hstart, hend] at hbound
  exact absurd hbound (by decide)

end Prose

end AndaBrain.WikiBounds
