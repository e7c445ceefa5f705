import AndaBrain.WikiRead

/-!
# What the digest reads and cites

`wiki/digest.rs`: the digest rebuilds the chunks of a version from its content, gives each
of them an anchor, and resolves the anchor of every extracted fact to the byte range and
the checksum of its chunk.
-/

set_option autoImplicit false

namespace AndaBrain.WikiDigest
open Foundation.Utf8Text
open WikiText WikiStore WikiRead

def maxFactsPerVersion : ℕ := 64
def maxIdentChars : ℕ := 120
def maxSymbolChars : ℕ := 64

structure ConceptRef where
  type : Text
  name : Text

/-- A fact as the model proposes it. Its confidence is the number of the reply. -/
structure ExtractedFact where
  subject : ConceptRef
  predicate : Text
  object : ConceptRef
  confidence : Option Text
  anchor : Option Text

structure TripleKey where
  subjectType : Text
  subjectName : Text
  predicate : Text
  objectType : Text
  objectName : Text
  deriving DecidableEq

structure DigestedFact where
  key : TripleKey
  confidence : Text
  citation : Text
  checksum : Text
  assertionGeneration : ℕ

def cleanIdent (value : Text) : Option Text :=
  let value := trim value
  if value.isEmpty ∨ maxIdentChars < value.length ∨ value.head? = some '$' ∨ value.head? = some '_' then
    none
  else some value

def isAsciiAlphanumeric (c : Char) : Bool := c.isAlphanum

def capitalized : Text → Text
  | [] => []
  | c::rest => c.toUpper::rest

def cleanTypeIdent (value : Text) : Option Text :=
  (cleanIdent value).bind fun value =>
    if value.head?.any Char.isUpper && value.all isAsciiAlphanumeric then some value
    else
      let out := (value.splitOnP (!isAsciiAlphanumeric ·)).flatMap capitalized
      if out.head?.any Char.isAlpha && out.length ≤ maxSymbolChars then some out else none

structure SnakeState where
  out : Text
  lowerOrDigit : Bool

def snakeStep (s : SnakeState) (c : Char) : SnakeState :=
  if isAsciiAlphanumeric c then
    let out := if c.isUpper && s.lowerOrDigit then s.out++['_'] else s.out
    ⟨out++[c.toLower],c.isLower || c.isDigit⟩
  else ⟨if s.out.getLast? != some '_' && !s.out.isEmpty then s.out++['_'] else s.out,false⟩

def cleanPredicateIdent (value : Text) : Option Text :=
  (cleanIdent value).bind fun value =>
    if value.head?.any Char.isLower &&
        value.all (fun c => c.isLower || c.isDigit || c == '_') then some value
    else
      let out := trimEndMatches (· == '_') (((value.foldl snakeStep ⟨[],false⟩).out).dropWhile (· == '_'))
      if out.head?.any Char.isAlpha && out.length ≤ maxSymbolChars then some out else none

section Source
variable (svc : Reader)

def sourceInput (doc : WikiDoc) (version : WikiVersion) : CommitInput where
  docId := none
  parentVersion := none
  ns := none
  slug := none
  title := doc.title
  content := version.content
  tags := none
  aclLabel := none
  sourceUri := none
  message := none
  metadata := none

def sourceRow (docId versionId : ℕ) (row : ChunkRow) : ChunkRow :=
  { row with docId := docId, versionId := versionId, anchor := "chunk-".toList++decimal row.ordinal }

def sourceChunks (docId : ℕ) (doc : WikiDoc) (versionId : ℕ) (version : WikiVersion) :
    Except WikiError (List ChunkRow) :=
  match prepareCommit svc.toWikiService (sourceInput doc version) with
  | .error e => .error e
  | .ok prepared => .ok (prepared.chunks.map (sourceRow docId versionId))

structure Passage where
  start : ℕ
  stop : ℕ
  checksum : Text
  text : Text

def passageOf (version : WikiVersion) (chunks : List ChunkRow) (anchor : Option Text) : Passage :=
  match anchor.bind fun anchor => chunks.reverse.find? (·.anchor == anchor) with
  | some chunk => ⟨chunk.byteStart,chunk.byteEnd,chunk.checksum,chunk.text⟩
  | none => ⟨0,version.size,chunkChecksum svc.toLibrary version.checksum 0 version.size version.content,
      version.content⟩

def digestedFact (confidence : Option Text → Text) (docId versionId : ℕ) (version : WikiVersion)
    (chunks : List ChunkRow) (fact : ExtractedFact) : Option DigestedFact := do
  let subjectType ← cleanTypeIdent fact.subject.type
  let subjectName ← cleanIdent fact.subject.name
  let predicate ← cleanPredicateIdent fact.predicate
  let objectType ← cleanTypeIdent fact.object.type
  let objectName ← cleanIdent fact.object.name
  let passage := passageOf svc version chunks fact.anchor
  some {
    key := ⟨subjectType,subjectName,predicate,objectType,objectName⟩
    confidence := confidence fact.confidence
    citation := citationUri svc.spaceId docId versionId passage.start passage.stop
    checksum := passage.checksum
    assertionGeneration := 0 }

def keepFacts (facts : List DigestedFact) (alive : List TripleKey) :
    List DigestedFact → List DigestedFact × List TripleKey
  | [] => (facts,alive)
  | fact::rest =>
    if alive.contains fact.key then keepFacts facts alive rest
    else keepFacts (if facts.length < maxFactsPerVersion then facts++[fact] else facts)
      (alive++[fact.key]) rest

/-- `confidence` fills in the default and clamps to [0, 1]. -/
def normalizeFacts (confidence : Option Text → Text) (docId versionId : ℕ) (version : WikiVersion)
    (chunks : List ChunkRow) (extraction : List ExtractedFact) :
    List DigestedFact × List TripleKey :=
  keepFacts [] [] (extraction.filterMap (digestedFact svc confidence docId versionId version chunks))

end Source

end AndaBrain.WikiDigest
