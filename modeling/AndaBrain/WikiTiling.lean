import AndaBrain.WikiChunk

/-!
# Chunks tile the content

Every pass of the chunker keeps one statement: the spans it has produced run from the start of the
content to the offset reached so far, without a gap, without an empty span and with every cut on a
character boundary.
-/

set_option autoImplicit false

namespace AndaBrain.WikiTiling
open WikiChunk Foundation.SpanTiling Foundation.Utf8Text

def lineSpan (l : LineInfo) : Span := (l.start,l.stop)

def unitSpan (u : PackUnit) : Span := (u.start,u.stop)

def draftSpan (d : ChunkDraft) : Span := (d.byteStart,d.byteEnd)

theorem scan_from_tiles (content p : Text) (raws : List Text) (fences : FenceTracker)
    (heq : content = p++raws.flatten) (hne : ∀ raw ∈ raws, raw ≠ []) : Tiles (Boundary content)
    (byteLen p) ((scanFrom (byteLen p) fences raws).map lineSpan) (byteLen content) := by
  induction raws generalizing p fences with
  | nil => simp [scanFrom, Tiles, heq]
  | cons raw raws ih =>
    have hpos := byte_len_pos raw (hne raw (by simp))
    have hcut : content = (p++raw)++raws.flatten := by simp [heq]
    have hlen : byteLen (p++raw) = byteLen p+byteLen raw := byte_len_append p raw
    have hrest := ih (p++raw) (fences.feed (stripNewline raw)).1 hcut
      (fun r hr => hne r (by simp [hr]))
    have hb : Boundary content (byteLen p+byteLen raw) := by
      rw [← hlen, hcut]
      exact boundary_append (p++raw) raws.flatten
    rw [hlen] at hrest
    refine ⟨rfl,?_,hb,hrest⟩
    change byteLen p < byteLen p+byteLen raw
    omega

theorem scan_lines_tiles (content : Text) :
    Tiles (Boundary content) 0 ((scanLines content).map lineSpan) (byteLen content) :=
  scan_from_tiles content [] _ ⟨none⟩ (split_inclusive_flatten '\n' content).symm
    (split_inclusive_ne_nil '\n' content)

section Split
variable {P : ℕ → Prop}

def sectionSpans (ss : List MarkdownSection) : List Span :=
  (ss.flatMap MarkdownSection.units).map unitSpan

def stateSpans (s : SplitState) : List Span :=
  sectionSpans s.sections++s.units.map unitSpan++(s.unit.map (fun u => (u.start,u.stop))).toList

variable (s : SplitState) (line : LineInfo)

theorem flush_unit_spans : stateSpans s.flushUnit = stateSpans s := by
  cases hu : s.unit with
  | none => simp [stateSpans, SplitState.flushUnit, hu]
  | some u => simp [stateSpans, SplitState.flushUnit, hu, OpenUnit.close, unitSpan]

theorem flush_section_spans : stateSpans s.flushSection = stateSpans s := by
  by_cases h : s.units.isEmpty
  · simp only [SplitState.flushSection, h, if_true]
  · simp [SplitState.flushSection, h, stateSpans, sectionSpans]

theorem open_section_spans : stateSpans (s.openSection line) = stateSpans s := by
  unfold SplitState.openSection
  split
  · rfl
  · change stateSpans s.flushUnit.flushSection = stateSpans s
    rw [flush_section_spans, flush_unit_spans]

theorem break_unit_spans : stateSpans (s.breakUnit line) = stateSpans s := by
  unfold SplitState.breakUnit
  split
  · exact flush_unit_spans s
  · rfl

theorem add_line_tiles (h : Tiles P 0 (stateSpans s) line.start) (hlt : line.start < line.stop)
    (hp : P line.stop) : Tiles P 0 (stateSpans (s.addLine line)) line.stop := by
  cases hu : s.unit with
  | none =>
    have hs : stateSpans (s.addLine line) = stateSpans s++[(line.start,line.stop)] := by
      simp [stateSpans, SplitState.addLine, extendUnit, hu]
    rw [hs]
    exact tiles_append 0 line.start line.stop _ _ h (tiles_one _ _ hlt hp)
  | some u =>
    let closed := sectionSpans s.sections++s.units.map unitSpan
    have hold : stateSpans s = closed++[(u.start,u.stop)] := by simp [stateSpans, hu, closed]
    have hnew : stateSpans (s.addLine line) = closed++[(u.start,line.stop)] := by
      simp [stateSpans, SplitState.addLine, extendUnit, hu, closed]
    rw [hold] at h
    obtain ⟨mid,hc,hm,hmid,_,hend⟩ := tiles_split 0 _ closed _ h
    have hend' : u.stop = line.start := hend
    rw [hnew]
    refine tiles_append 0 mid line.stop _ _ hc ⟨hm,?_,hp,rfl⟩
    exact hmid.trans (by simpa [hend'] using hlt)

theorem split_step_tiles (h : Tiles P 0 (stateSpans s) line.start) (hlt : line.start < line.stop)
    (hp : P line.stop) : Tiles P 0 (stateSpans (s.step line)) line.stop := by
  apply add_line_tiles _ _ _ hlt hp
  rwa [break_unit_spans, open_section_spans]

theorem split_fold_tiles (lines : List LineInfo) (s : SplitState) (lo hi : ℕ)
    (h : Tiles P 0 (stateSpans s) lo) (hl : Tiles P lo (lines.map lineSpan) hi) :
    Tiles P 0 (stateSpans (lines.foldl SplitState.step s)) hi := by
  induction lines generalizing s lo with
  | nil =>
    obtain rfl : lo = hi := hl
    exact h
  | cons line lines ih =>
    obtain ⟨hs,hlt,hp,hr⟩ := hl
    have hs' : line.start = lo := hs
    subst hs'
    exact ih _ line.stop (split_step_tiles s line h hlt hp) hr

theorem flushed_spans (hu : s.unit = none) :
    stateSpans s.flushSection = sectionSpans s.flushSection.sections := by
  by_cases hs : s.units.isEmpty
  · have hnil : s.units = [] := by simpa using hs
    simp [stateSpans, SplitState.flushSection, hnil, hu]
  · simp [stateSpans, SplitState.flushSection, hs, hu]

theorem split_sections_tiles (lines : List LineInfo) (hi : ℕ)
    (h : Tiles P 0 (lines.map lineSpan) hi) :
    Tiles P 0 (sectionSpans (splitSections lines)) hi := by
  have hf := split_fold_tiles lines ⟨[],[],[],none,false⟩ 0 hi rfl h
  rwa [← flush_unit_spans, ← flush_section_spans, flushed_spans _ rfl] at hf

end Split

section Force
variable (content : Text) (headingPath : List Text)

theorem cut_line_tiles (max lineEnd pieceStart : ℕ) (hle : pieceStart ≤ lineEnd) : Tiles
    (Boundary content) pieceStart
    ((cutLine content headingPath max lineEnd pieceStart).1.map draftSpan)
    (cutLine content headingPath max lineEnd pieceStart).2 ∧
    (cutLine content headingPath max lineEnd pieceStart).2 ≤ lineEnd := by
  fun_induction cutLine content headingPath max lineEnd pieceStart with
  | case1 pieceStart hlong hcut => exact ⟨rfl,hle⟩
  | case2 pieceStart hlong hcut cut rest ih =>
    have hfloor := floor_le content (pieceStart+max)
    have hb := floor_boundary content (pieceStart+max)
    obtain ⟨ht,hend⟩ := ih (by omega)
    exact ⟨⟨rfl,by simp only [draftSpan, forcedDraft]; omega,hb,ht⟩,hend⟩
  | case3 pieceStart hlong => exact ⟨rfl,hle⟩

theorem split_pieces_tiles (max : ℕ) (raws : List Text) (p s : Text) (pieceStart : ℕ)
    (heq : content = p++(raws.flatten++s)) (hle : pieceStart ≤ byteLen p) : Tiles (Boundary content)
    pieceStart ((splitPieces content headingPath max raws pieceStart (byteLen p)).1.map draftSpan)
    (splitPieces content headingPath max raws pieceStart (byteLen p)).2 ∧
    (splitPieces content headingPath max raws pieceStart (byteLen p)).2 ≤ byteLen p+byteLen
    raws.flatten := by
  induction raws generalizing p pieceStart with
  | nil => exact ⟨rfl,by simpa [splitPieces, byteLen] using hle⟩
  | cons raw raws ih =>
    have hlen : byteLen (p++raw) = byteLen p+byteLen raw := byte_len_append p raw
    have hb : Boundary content (byteLen p) := by
      rw [heq]
      exact boundary_append p _
    let breaks := max < byteLen p+byteLen raw-pieceStart ∧ pieceStart < byteLen p
    let opened := if breaks then byteLen p else pieceStart
    have hopened : opened ≤ byteLen p+byteLen raw := by
      simp only [opened]
      split <;> omega
    have hline : Tiles (Boundary content) pieceStart
        ((if breaks then [forcedDraft headingPath pieceStart (byteLen p)] else []).map draftSpan)
        opened := by
      by_cases hbr : breaks
      · simp only [opened, if_pos hbr]
        exact tiles_one _ _ hbr.2 hb
      · simp only [opened, if_neg hbr]
        rfl
    obtain ⟨hcut,hcutle⟩ := cut_line_tiles content headingPath max (byteLen p+byteLen raw)
      opened hopened
    have hrest := ih (p++raw) (cutLine content headingPath max (byteLen p+byteLen raw) opened).2
      (by simp [heq]) (by rw [hlen]; exact hcutle)
    rw [hlen] at hrest
    constructor
    · simp only [splitPieces, List.map_append]
      exact tiles_append _ _ _ _ _ (tiles_append _ _ _ _ _ hline hcut) hrest.1
    · refine hrest.2.trans (le_of_eq ?_)
      simp only [List.flatten_cons, byte_len_append]
      omega

theorem force_split_tiles (start stop max : ℕ) (hstart : Boundary content start)
    (hstop : Boundary content stop) (hlt : start < stop) : ∃ pieces, forceSplit content start stop
    headingPath max = some pieces ∧ Tiles (Boundary content) start (pieces.map draftSpan) stop := by
  obtain ⟨p,m,s,heq,hp,hm⟩ := boundaries_cut content start stop hstart hstop (le_of_lt hlt)
  have hslice : slice content start stop = some m := by
    rw [heq, ← hp, ← hm]
    exact slice_parts p m s
  have hflat := split_inclusive_flatten '\n' m
  obtain ⟨ht,hle⟩ := split_pieces_tiles content headingPath max (splitInclusive '\n' m) p s start
    (by rw [hflat]; exact heq) (le_of_eq hp.symm)
  rw [hflat, hm] at hle
  rw [hp] at ht hle
  refine ⟨_,by simp only [forceSplit, hslice]; rfl,?_⟩
  simp only [List.map_append]
  apply tiles_append _ _ _ _ _ ht
  by_cases hopen : (splitPieces content headingPath max (splitInclusive '\n' m) start start).2 < stop
  · rw [if_pos hopen]
    exact tiles_one _ _ hopen hstop
  · rw [if_neg hopen]
    exact le_antisymm hle (not_lt.mp hopen)

theorem close_range_tiles (r : PackRange) (s : PackState) (hstart : Boundary content r.start)
    (hstop : Boundary content r.stop) (hlt : r.start < r.stop) : ∃ s' new, closeRange content
    headingPath r s = some s' ∧ s'.drafts = s.drafts++new ∧ Tiles (Boundary content) r.start
    (new.map draftSpan) r.stop := by
  have hne : r.stop-r.start ≠ 0 := by omega
  by_cases hcap : (if r.atomic then chunkAtomicMax else chunkHardMax) < r.stop-r.start
  · obtain ⟨pieces,hf,ht⟩ := force_split_tiles content headingPath r.start r.stop
      (if r.atomic then chunkAtomicMax else chunkHardMax) hstart hstop hlt
    exact ⟨_,pieces,by simp only [closeRange, if_neg hne, if_pos hcap, hf]; rfl,rfl,ht⟩
  · let whole : ChunkDraft := ⟨headingPath,[],r.start,r.stop,false⟩
    refine ⟨⟨s.drafts++[whole],s.forcedSplits⟩,[whole],?_,rfl,tiles_one _ _ hlt hstop⟩
    simp only [closeRange, if_neg hne, if_neg hcap, whole]

theorem pack_units_tiles (units : List PackUnit) (cur : PackRange) (s : PackState) (hi : ℕ)
    (hstart : Boundary content cur.start) (hstop : Boundary content cur.stop)
    (hlt : cur.start < cur.stop) (hu : Tiles (Boundary content) cur.stop (units.map unitSpan) hi) :
    ∃ s' new, packUnits content headingPath units cur s = some s' ∧ s'.drafts = s.drafts++new ∧
    Tiles (Boundary content) cur.start (new.map draftSpan) hi := by
  induction units generalizing cur s with
  | nil =>
    obtain rfl : cur.stop = hi := hu
    exact close_range_tiles content headingPath cur s hstart hstop hlt
  | cons u units ih =>
    obtain ⟨hs,hult,hub,hur⟩ := hu
    have hus : u.start = cur.stop := hs
    have hlt' : cur.stop < u.stop := hult
    by_cases hfit : (cur.stop-cur.start)+(u.stop-u.start) ≤ chunkTargetMax
    · simp only [packUnits, if_pos hfit]
      exact ih ⟨cur.start,u.stop,false⟩ s hstart hub (hlt.trans hlt') hur
    obtain ⟨s1,new1,h1,hd1,ht1⟩ := close_range_tiles content headingPath cur s hstart hstop hlt
    obtain ⟨s2,new2,h2,hd2,ht2⟩ := ih u.range s1 (by simpa [PackUnit.range, hus] using hstop)
      hub (by simpa [PackUnit.range, hus] using hlt') hur
    refine ⟨s2,new1++new2,by simp only [packUnits, if_neg hfit, h1]; exact h2,
      by rw [hd2, hd1, List.append_assoc],?_⟩
    have hstart2 : u.range.start = cur.stop := hus
    rw [hstart2] at ht2
    rw [List.map_append]
    exact tiles_append _ _ _ _ _ ht1 ht2

theorem pack_sections_tiles (secs : List MarkdownSection) (s : PackState) (lo hi : ℕ)
    (hlo : Boundary content lo) (ht : Tiles (Boundary content) lo (sectionSpans secs) hi) : ∃ s'
    new, packSections content secs s = some s' ∧ s'.drafts = s.drafts++new ∧ Tiles
    (Boundary content) lo (new.map draftSpan) hi := by
  induction secs generalizing s lo with
  | nil => exact ⟨s,[],rfl,by simp,ht⟩
  | cons sec secs ih =>
    have hsplit : sectionSpans (sec::secs) = sec.units.map unitSpan++sectionSpans secs := by
      simp [sectionSpans]
    rw [hsplit] at ht
    obtain ⟨mid,hsec,hrest⟩ := tiles_split lo hi _ _ ht
    have hmid := tiles_end _ _ _ hsec hlo
    obtain ⟨s1,new1,h1,hd1,ht1⟩ : ∃ s1 new1, packSection content sec s = some s1 ∧
        s1.drafts = s.drafts++new1 ∧
        Tiles (Boundary content) lo (new1.map draftSpan) mid := by
      cases hun : sec.units with
      | nil =>
        rw [hun] at hsec
        exact ⟨s,[],by simp only [packSection, hun],by simp,hsec⟩
      | cons u units =>
        rw [hun] at hsec
        obtain ⟨hs,hult,hub,hur⟩ := hsec
        have hus : u.start = lo := hs
        subst hus
        simp only [packSection, hun]
        exact pack_units_tiles content sec.headingPath units u.range s mid hlo hub hult hur
    obtain ⟨s2,new2,h2,hd2,ht2⟩ := ih s1 mid hmid hrest
    refine ⟨s2,new1++new2,by simp only [packSections, h1]; exact h2,
      by rw [hd2, hd1, List.append_assoc],?_⟩
    rw [List.map_append]
    exact tiles_append _ _ _ _ _ ht1 ht2

end Force

section Merge
variable {P : ℕ → Prop}

theorem merge_from_tiles (rest : List ChunkDraft) (a : ChunkDraft) (lo hi : ℕ)
    (h : Tiles P lo ((a::rest).map draftSpan) hi) :
    Tiles P lo ((mergeFrom a rest).map draftSpan) hi := by
  induction rest generalizing a lo with
  | nil => exact h
  | cons b rest ih =>
    simp only [mergeFrom]
    split
    · exact ih (mergeDrafts a b) lo (tiles_merge lo hi _ _ _ h)
    · exact ⟨h.1,h.2.1,h.2.2.1,ih b _ h.2.2.2⟩

variable (drafts : List ChunkDraft) (lo hi : ℕ)

theorem merge_small_siblings_tiles (h : Tiles P lo (drafts.map draftSpan) hi) : Tiles P lo
    ((mergeSmallSiblings drafts).map draftSpan) hi := by
  cases drafts with
  | nil => exact h
  | cons a rest => exact merge_from_tiles rest a lo hi h

theorem halve_adjacent_tiles (h : Tiles P lo (drafts.map draftSpan) hi) : Tiles P lo
    ((halveAdjacent drafts).map draftSpan) hi := by
  induction drafts using halveAdjacent.induct generalizing lo with
  | case1 a b rest ih =>
    obtain ⟨ha,hlt,hp,hr⟩ := tiles_merge lo hi _ _ _ h
    simp only [halveAdjacent]
    exact ⟨ha,hlt,hp,ih _ hr⟩
  | case2 drafts hshort =>
    rwa [halveAdjacent.eq_2 drafts hshort]

theorem cap_drafts_tiles (h : Tiles P lo (drafts.map draftSpan) hi) : Tiles P lo
    ((capDrafts drafts).map draftSpan) hi := by
  fun_induction capDrafts drafts with
  | case1 drafts hlong ih => exact ih (halve_adjacent_tiles drafts lo hi h)
  | case2 drafts hlong => exact h

theorem cap_drafts_length : (capDrafts drafts).length ≤ maxChunksPerVersion := by
  fun_induction capDrafts drafts with
  | case1 drafts hlong ih => exact ih
  | case2 drafts hlong => exact not_lt.mp hlong

end Merge

theorem anchors_keep_spans (tables : CharTables) (drafts : List ChunkDraft) (n : ℕ) :
    ((drafts.zipIdx n).map (setAnchor tables)).map draftSpan = drafts.map draftSpan := by
  induction drafts generalizing n with
  | nil => rfl
  | cons d drafts ih => simpa [setAnchor, draftSpan] using ih (n+1)

theorem chunk_markdown_spans (tables : CharTables) (content : Text) (hne : content ≠ []) : ∃ plan,
    chunkMarkdown tables content = some plan ∧ Tiles (Boundary content) 0
    (plan.drafts.map draftSpan) (byteLen content) ∧ plan.drafts.length ≤ maxChunksPerVersion := by
  have hsections := split_sections_tiles _ _ (scan_lines_tiles content)
  obtain ⟨packed,drafts,hpack,hdrafts,ht⟩ := pack_sections_tiles content
    (splitSections (scanLines content)) ⟨[],0⟩ 0 _ (boundary_zero content) hsections
  have hempty : content.isEmpty = false := by simpa using hne
  have hd : packed.drafts = drafts := by simpa using hdrafts
  refine ⟨_,by simp only [chunkMarkdown, hempty, hpack]; rfl,?_,?_⟩
  · simp only [anchors_keep_spans, hd]
    exact cap_drafts_tiles _ _ _ (merge_small_siblings_tiles drafts _ _ ht)
  · simpa using cap_drafts_length (mergeSmallSiblings packed.drafts)

/-- Chunk tiling. The plan exists for every non-empty content, so no pass
indexes the text off a character boundary; its drafts are non-empty, run
through the content in order and concatenate to it. -/
theorem chunk_markdown_tiles_content (tables : CharTables) (content : Text)
    (hne : content ≠ []) :
    ∃ plan, chunkMarkdown tables content = some plan ∧
      plan.drafts ≠ [] ∧
      (∀ d ∈ plan.drafts, d.byteStart < d.byteEnd ∧
        isCharBoundary content d.byteStart = true ∧ isCharBoundary content d.byteEnd = true) ∧
      plan.drafts.head?.map ChunkDraft.byteStart = some 0 ∧
      plan.drafts.getLast?.map ChunkDraft.byteEnd = some (byteLen content) ∧
      plan.drafts.IsChain (fun a b => a.byteEnd = b.byteStart) ∧
      plan.drafts.length ≤ maxChunksPerVersion ∧
      ∃ pieces, plan.drafts.mapM (fun d => slice content d.byteStart d.byteEnd) = some pieces ∧
        pieces.flatten = content := by
  obtain ⟨plan,hplan,ht,hlen⟩ := chunk_markdown_spans tables content hne
  have hspans : plan.drafts.map draftSpan ≠ [] :=
    tiles_nonempty _ _ _ ht (byte_len_pos content hne)
  have hdrafts : plan.drafts ≠ [] := by simpa using hspans
  refine ⟨plan,hplan,hdrafts,?_,?_,?_,?_,hlen,?_⟩
  · intro d hd
    exact tiles_mem _ _ _ ht (boundary_zero content) (draftSpan d) (List.mem_map_of_mem hd)
  · obtain ⟨d,rest,heq⟩ := List.exists_cons_of_ne_nil hdrafts
    have hhead := tiles_head _ _ _ ht (draftSpan d) (by simp [heq])
    simpa [heq, draftSpan] using hhead
  · obtain ⟨init,d,heq⟩ := List.eq_nil_or_concat' plan.drafts |>.resolve_left hdrafts
    have hlast := tiles_last _ _ _ ht (draftSpan d) (by simp [heq])
    simpa [heq, draftSpan] using hlast
  · exact (List.isChain_map draftSpan).mp (tiles_chain _ _ _ ht)
  · obtain ⟨pieces,hmap,hflat⟩ := tiles_concat [] content _ ht
    exact ⟨pieces,by simpa [List.mapM_map, draftSpan, Function.comp_def] using hmap,hflat⟩

def asciiTables : CharTables := ⟨fun c => [c.toLower],Char.isAlphanum⟩

theorem chunk_markdown_tiles_heading : "# 汉字\n".toList ≠ [] ∧ ∃ plan, chunkMarkdown asciiTables
    "# 汉字\n".toList = some plan ∧ plan.drafts ≠ [] ∧ plan.drafts.length ≤ maxChunksPerVersion := by
  have hne : "# 汉字\n".toList ≠ [] := by decide
  obtain ⟨plan,hplan,hdrafts,_,_,_,_,hlen,_⟩ :=
    chunk_markdown_tiles_content asciiTables "# 汉字\n".toList hne
  exact ⟨hne,plan,hplan,hdrafts,hlen⟩

end AndaBrain.WikiTiling
