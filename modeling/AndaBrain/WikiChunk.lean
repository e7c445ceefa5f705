import AndaBrain.Foundation.Utf8Text

/-!
# The fence-aware Markdown chunker

The five passes of `wiki/chunk.rs`: the line scan with its fence state, the split into sections
and units, packing, forced splitting, and the merging of small siblings followed by halving down
to the per-version cap.
-/

set_option autoImplicit false

namespace AndaBrain.WikiChunk
open Foundation.Utf8Text

def chunkTargetMin : ℕ := 800
def chunkTargetMax : ℕ := 2000
def chunkHardMax : ℕ := 4096
def chunkAtomicMax : ℕ := 32*1024
def maxChunksPerVersion : ℕ := 1000
def slugMaxChars : ℕ := 120

/-- The Unicode tables behind `char::to_lowercase` and `char::is_alphanumeric`. -/
structure CharTables where
  toLowercase : Char → List Char
  isAlphanumeric : Char → Bool

structure ChunkDraft where
  headingPath : List Text
  anchor : Text
  byteStart : ℕ
  byteEnd : ℕ
  forced : Bool
  deriving DecidableEq, Repr

structure ChunkPlan where
  drafts : List ChunkDraft
  forcedSplits : ℕ
  capped : Bool
  deriving DecidableEq, Repr

structure SlugState where
  slug : Text
  chars : ℕ
  lastDash : Bool

/-- One character of the lowered input. The loop stops for good once the
budget is spent, and a spent budget leaves the state as it is. -/
def slugStep (tables : CharTables) (s : SlugState) (ch : Char) : SlugState :=
  if slugMaxChars ≤ s.chars then s
  else if tables.isAlphanumeric ch then ⟨s.slug++[ch],s.chars+1,false⟩
  else if !s.lastDash && !s.slug.isEmpty then ⟨s.slug++['-'],s.chars+1,true⟩
  else s

def slugify (tables : CharTables) (input : Text) : Text :=
  let lowered := input.flatMap tables.toLowercase
  let slug := trimEndMatches (· == '-') (lowered.foldl (slugStep tables) ⟨[],0,false⟩).slug
  if slug.isEmpty then "untitled".toList else slug

structure FenceTracker where
  fence : Option (Char × ℕ)
  deriving DecidableEq, Repr

def backtick : Char := Char.ofNat 0x60

def runLength (ch : Char) (text : Text) : ℕ := (text.takeWhile (· == ch)).length

/-- One line without its newline, and whether it is inside a code fence,
delimiter lines included. -/
def FenceTracker.feed (t : FenceTracker) (line : Text) : FenceTracker × Bool :=
  let trimmed := trimStart line
  match t.fence with
  | some (ch,len) => (if len ≤ runLength ch trimmed then ⟨none⟩ else t,true)
  | none =>
    if 3 ≤ runLength backtick trimmed then (⟨some (backtick,runLength backtick trimmed)⟩,true)
    else if 3 ≤ runLength '~' trimmed then (⟨some ('~',runLength '~' trimmed)⟩,true)
    else (t,false)

def isBlankMark (c : Char) : Bool := c == ' ' || c == '\t'

def parseHeading (trimmed : Text) : Option (ℕ × Text) :=
  let level := runLength '#' trimmed
  if level < 1 ∨ 6 < level then none
  else
    let rest := trimmed.drop level
    if !(rest.head?.any isBlankMark) && !rest.isEmpty then none
    else
      let text := trim rest
      let stripped := trimEndMatches (· == '#') text
      let title :=
        if byteLen stripped < byteLen text ∧
            (stripped.isEmpty ∨ stripped.getLast?.any isBlankMark) then trimEnd stripped
        else text
      if title.isEmpty then none else some (level,title)

structure LineInfo where
  start : ℕ
  stop : ℕ
  blank : Bool
  inFence : Bool
  tableRow : Bool
  boundary : Option (ℕ × Text)
  deriving DecidableEq, Repr

def stripNewline (raw : Text) : Text :=
  if raw.getLast? = some '\n' then raw.dropLast else raw

def lineInfo (offset : ℕ) (fences : FenceTracker) (raw : Text) : LineInfo :=
  let line := stripNewline raw
  let trimmed := trimStart line
  let inFence := (fences.feed line).2
  { start := offset
    stop := offset+byteLen raw
    blank := trimmed.isEmpty
    inFence := inFence
    tableRow := !inFence && trimmed.head? == some '|'
    boundary := if inFence then none else (parseHeading trimmed).filter (fun h => h.1 ≤ 3) }

def scanFrom (offset : ℕ) (fences : FenceTracker) : List Text → List LineInfo
  | [] => []
  | raw::rest => lineInfo offset fences raw::
      scanFrom (offset+byteLen raw) (fences.feed (stripNewline raw)).1 rest

def scanLines (content : Text) : List LineInfo :=
  scanFrom 0 ⟨none⟩ (splitInclusive '\n' content)

structure PackUnit where
  start : ℕ
  stop : ℕ
  atomic : Bool
  deriving DecidableEq, Repr

structure MarkdownSection where
  headingPath : List Text
  units : List PackUnit
  deriving DecidableEq, Repr

/-- The unit that is still open: its range, whether it holds fence lines, and
its table and non-blank row counts. -/
structure OpenUnit where
  start : ℕ
  stop : ℕ
  fence : Bool
  tableRows : ℕ
  totalRows : ℕ
  deriving DecidableEq, Repr

def OpenUnit.close (u : OpenUnit) : PackUnit :=
  ⟨u.start,u.stop,u.fence || (0 < u.totalRows && u.totalRows < u.tableRows*2)⟩

structure SplitState where
  sections : List MarkdownSection
  stack : List Text
  units : List PackUnit
  unit : Option OpenUnit
  prevBlankOutside : Bool
  deriving DecidableEq, Repr

def SplitState.flushUnit (s : SplitState) : SplitState :=
  { s with units := s.units++(s.unit.map OpenUnit.close).toList, unit := none }

def SplitState.flushSection (s : SplitState) : SplitState :=
  if s.units.isEmpty then s
  else { s with sections := s.sections++[⟨s.stack,s.units⟩], units := [] }

def SplitState.openSection (s : SplitState) (line : LineInfo) : SplitState :=
  match line.boundary with
  | none => s
  | some (level,title) =>
    { s.flushUnit.flushSection with
      stack := s.stack.take (level-1)++[title]
      prevBlankOutside := false }

def SplitState.breakUnit (s : SplitState) (line : LineInfo) : SplitState :=
  if s.unit.isSome && s.prevBlankOutside && !line.blank then s.flushUnit else s

def extendUnit (unit : Option OpenUnit) (line : LineInfo) : OpenUnit :=
  match unit with
  | some u =>
    { u with
      stop := line.stop
      fence := u.fence || line.inFence
      totalRows := if line.blank then u.totalRows else u.totalRows+1
      tableRows := if !line.blank && line.tableRow then u.tableRows+1 else u.tableRows }
  | none => ⟨line.start,line.stop,line.inFence,line.tableRow.toNat,(!line.blank).toNat⟩

def SplitState.addLine (s : SplitState) (line : LineInfo) : SplitState :=
  { s with
    unit := some (extendUnit s.unit line)
    prevBlankOutside := line.blank && !line.inFence }

def SplitState.step (s : SplitState) (line : LineInfo) : SplitState :=
  ((s.openSection line).breakUnit line).addLine line

def splitSections (lines : List LineInfo) : List MarkdownSection :=
  (lines.foldl SplitState.step ⟨[],[],[],none,false⟩).flushUnit.flushSection.sections

def forcedDraft (headingPath : List Text) (start stop : ℕ) : ChunkDraft :=
  ⟨headingPath,[],start,stop,true⟩

/-- The character-boundary cuts of a line that is longer than the cap, and
the start of the piece that remains open. -/
def cutLine (content : Text) (headingPath : List Text) (max lineEnd pieceStart : ℕ) :
    List ChunkDraft × ℕ :=
  if _hlong : max < lineEnd-pieceStart then
    if _hcut : floorCharBoundary content (pieceStart+max) ≤ pieceStart then ([],pieceStart)
    else
      let cut := floorCharBoundary content (pieceStart+max)
      let rest := cutLine content headingPath max lineEnd cut
      (forcedDraft headingPath pieceStart cut::rest.1,rest.2)
  else ([],pieceStart)
termination_by lineEnd-pieceStart
decreasing_by omega

def splitPieces (content : Text) (headingPath : List Text) (max : ℕ) :
    List Text → ℕ → ℕ → List ChunkDraft × ℕ
  | [], pieceStart, _ => ([],pieceStart)
  | raw::rest, pieceStart, cursor =>
    let lineEnd := cursor+byteLen raw
    let breaks := max < lineEnd-pieceStart ∧ pieceStart < cursor
    let atLine := if breaks then [forcedDraft headingPath pieceStart cursor] else []
    let inLine := cutLine content headingPath max lineEnd (if breaks then cursor else pieceStart)
    let later := splitPieces content headingPath max rest inLine.2 lineEnd
    (atLine++inLine.1++later.1,later.2)

def forceSplit (content : Text) (start stop : ℕ) (headingPath : List Text) (max : ℕ) :
    Option (List ChunkDraft) := do
  let text ← slice content start stop
  let pieces := splitPieces content headingPath max (splitInclusive '\n' text) start start
  some (pieces.1++if pieces.2 < stop then [forcedDraft headingPath pieces.2 stop] else [])

structure PackState where
  drafts : List ChunkDraft
  forcedSplits : ℕ
  deriving DecidableEq, Repr

structure PackRange where
  start : ℕ
  stop : ℕ
  atomic : Bool
  deriving DecidableEq, Repr

def closeRange (content : Text) (headingPath : List Text) (r : PackRange) (s : PackState) :
    Option PackState :=
  let len := r.stop-r.start
  let cap := if r.atomic then chunkAtomicMax else chunkHardMax
  if len = 0 then some s
  else if cap < len then do
    let pieces ← forceSplit content r.start r.stop headingPath cap
    some ⟨s.drafts++pieces,s.forcedSplits+1⟩
  else some ⟨s.drafts++[⟨headingPath,[],r.start,r.stop,false⟩],s.forcedSplits⟩

def PackUnit.range (u : PackUnit) : PackRange := ⟨u.start,u.stop,u.atomic⟩

def packUnits (content : Text) (headingPath : List Text) :
    List PackUnit → PackRange → PackState → Option PackState
  | [], cur, s => closeRange content headingPath cur s
  | u::units, cur, s =>
    if (cur.stop-cur.start)+(u.stop-u.start) ≤ chunkTargetMax then
      packUnits content headingPath units ⟨cur.start,u.stop,false⟩ s
    else do
      let closed ← closeRange content headingPath cur s
      packUnits content headingPath units u.range closed

def packSection (content : Text) (sec : MarkdownSection) (s : PackState) : Option PackState :=
  match sec.units with
  | [] => some s
  | u::units => packUnits content sec.headingPath units u.range s

def packSections (content : Text) : List MarkdownSection → PackState → Option PackState
  | [], s => some s
  | sec::rest, s => do
    let packed ← packSection content sec s
    packSections content rest packed

def commonPrefixLen : List Text → List Text → ℕ
  | x::a, y::b => if x = y then commonPrefixLen a b+1 else 0
  | _, _ => 0

def siblings (a b : ChunkDraft) : Bool :=
  let common := commonPrefixLen a.headingPath b.headingPath
  a.headingPath == b.headingPath ||
    (1 ≤ common && a.headingPath.length ≤ common+1 && b.headingPath.length ≤ common+1)

def mergesForward (a b : ChunkDraft) : Bool :=
  a.byteEnd-a.byteStart < chunkTargetMin && !(a.forced || b.forced) &&
    b.byteEnd-a.byteStart ≤ chunkTargetMax && siblings a b

def mergeDrafts (a b : ChunkDraft) : ChunkDraft :=
  { a with
    headingPath := if a.headingPath = b.headingPath then a.headingPath
      else a.headingPath.take (commonPrefixLen a.headingPath b.headingPath)
    byteEnd := b.byteEnd }

/-- The index of the source's loop stays on a merged draft, which is the
head here; a draft that is passed is never looked at again. -/
def mergeFrom (a : ChunkDraft) : List ChunkDraft → List ChunkDraft
  | [] => [a]
  | b::rest => if mergesForward a b then mergeFrom (mergeDrafts a b) rest else a::mergeFrom b rest

def mergeSmallSiblings : List ChunkDraft → List ChunkDraft
  | [] => []
  | a::rest => mergeFrom a rest

def joinPair (a b : ChunkDraft) : ChunkDraft :=
  ⟨a.headingPath.take (commonPrefixLen a.headingPath b.headingPath),[],
    a.byteStart,b.byteEnd,a.forced || b.forced⟩

def halveAdjacent : List ChunkDraft → List ChunkDraft
  | a::b::rest => joinPair a b::halveAdjacent rest
  | drafts => drafts

theorem halve_adjacent_length (drafts : List ChunkDraft) :
    (halveAdjacent drafts).length = (drafts.length+1)/2 := by
  induction drafts using halveAdjacent.induct with
  | case1 a b rest ih =>
    simp only [halveAdjacent, List.length_cons, ih]
    omega
  | case2 drafts h =>
    match drafts, h with
    | [], _ => simp [halveAdjacent]
    | [_], _ => simp [halveAdjacent]
    | a::b::rest, h => exact absurd rfl (h a b rest)

def capDrafts (drafts : List ChunkDraft) : List ChunkDraft :=
  if _hlong : maxChunksPerVersion < drafts.length then capDrafts (halveAdjacent drafts) else drafts
termination_by drafts.length
decreasing_by
  rw [halve_adjacent_length]
  simp only [maxChunksPerVersion] at *
  omega

def anchorOf (tables : CharTables) (draft : ChunkDraft) (idx : ℕ) : Text :=
  let base := match draft.headingPath.getLast? with
    | some heading => slugify tables heading
    | none => "section".toList
  base++ '-'::(toString idx).toList

def setAnchor (tables : CharTables) (d : ChunkDraft × ℕ) : ChunkDraft :=
  { d.1 with anchor := anchorOf tables d.1 d.2 }

def chunkMarkdown (tables : CharTables) (content : Text) : Option ChunkPlan :=
  if content.isEmpty then some ⟨[],0,false⟩
  else do
    let packed ← packSections content (splitSections (scanLines content)) ⟨[],0⟩
    let merged := mergeSmallSiblings packed.drafts
    some ⟨(capDrafts merged).zipIdx.map (setAnchor tables),packed.forcedSplits,
      maxChunksPerVersion < merged.length⟩

end AndaBrain.WikiChunk
