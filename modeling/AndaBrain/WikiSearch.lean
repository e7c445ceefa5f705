import AndaBrain.WikiRead

/-!
# Searching the wiki

`wiki/search.rs`: the chunk rows give candidates in the order of their relevance, the document
rows decide which of them the caller may see, and the versions give the text around a hit.
-/

set_option autoImplicit false

namespace AndaBrain.WikiSearch
open Foundation Foundation.Resumption Foundation.Utf8Text
open WikiChunk WikiText WikiStore WikiRead

def evalNamespace : Text := "wiki_eval".toList

/-- A service with the ranking of its database: the candidates for a query, up to a
limit. -/
structure Searcher extends Reader where
  rank : Text → ℕ → Table ChunkRow → List ℕ

structure Schedule where
  order : List ℕ → List ℕ
  all : ∀ ids, (order ids).Perm ids

inductive WikiSearchMode where
  | chunks
  | docs
  deriving DecidableEq

structure WikiSearchInput where
  query : Text
  namespaces : List Text
  docIds : List ℕ
  tags : List Text
  topK : Option ℕ
  mode : WikiSearchMode
  expand : Option ℕ

structure WikiCitation where
  uri : Text
  docId : ℕ
  versionId : ℕ
  chunkId : ℕ
  headingPath : List Text
  anchor : Text
  byteRange : ℕ × ℕ
  checksum : Text
  quote : Text

structure WikiHit where
  text : Text
  docTitle : Text
  headingPath : List Text
  citation : WikiCitation

structure WikiSearchOutput where
  hits : List WikiHit
  totalDocsMatched : ℕ

def WikiSearchInput.normalize (input : WikiSearchInput) : WikiSearchInput :=
  { input with
    query := trim input.query
    namespaces := normalizeTags input.namespaces
    tags := normalizeTags input.tags
    docIds := (input.docIds.mergeSort (· ≤ ·)).dedup }

abbrev Row := ℕ × ChunkRow

section Search
variable (svc : Searcher)

def docIdsByTags (tags : List Text) : M (List ℕ) :=
  scanIds svc.toWikiService World.docs fun _ doc =>
    (tags.take maxIncludeKeys).any (doc.tags.contains ·)

/-- The documents that the ids and tags of a query admit: `none` if nothing can match. -/
def admitted (docIds : List ℕ) (tags : List Text) : M (Option (List ℕ)) :=
  if tags.isEmpty then pure (some docIds)
  else do
    let tagged ← docIdsByTags svc tags
    let tagged := tagged.take maxIncludeKeys
    let found := if docIds.isEmpty then tagged else docIds.filter (tagged.contains ·)
    pure (if found.isEmpty then none else some found)

def chunkFilter (namespaces : List Text) (docIds : List ℕ) (labels : Option (List Text))
    (row : ChunkRow) : Bool :=
  row.current && (namespaces.isEmpty || namespaces.contains row.ns)
    && (docIds.isEmpty || docIds.contains row.docId) && labels.all (aclFilter · row.aclLabel)

def fetchLimit (mode : WikiSearchMode) (topK : ℕ) : ℕ :=
  match mode with
  | .chunks => topK
  | .docs => min (max (topK*8) topK) 200

def candidates (query : Text) (namespaces : List Text) (docIds : List ℕ)
    (labels : Option (List Text)) (fetch : ℕ) : M (List Row) :=
  ask fun w => .ok ((((svc.rank query fetch w.chunks).filterMap fun id =>
    (w.chunks.get id).map fun row => (id,row)).filter fun row =>
      chunkFilter namespaces docIds labels row.2).take fetch)

def snapshots : List ℕ → M (List (ℕ × WikiDoc))
  | [] => pure []
  | id::rest => do
    let doc ← attempt (docRecord svc.toWikiService id)
    let doc ← unlessMissing doc
    let docs ← snapshots rest
    pure ((doc.map fun doc => (id,doc)).toList++docs)

def visible (access : WikiAccess) (docs : List (ℕ × WikiDoc)) (row : Row) : Bool :=
  (docs.lookup row.2.docId).any fun doc => decide (doc.currentVersion = row.2.versionId)
    && decide (doc.status = .active) && access.allows doc.aclLabel

def firstOfDocs (picked : List ℕ) : List Row → List Row
  | [] => []
  | row::rows =>
    if picked.contains row.2.docId then firstOfDocs picked rows
    else row::firstOfDocs (row.2.docId::picked) rows

def hitFrom (row : Row) : WikiHit where
  text := row.2.text
  docTitle := row.2.title
  headingPath := row.2.headingPath
  citation := {
    uri := citationUri svc.spaceId row.2.docId row.2.versionId row.2.byteStart row.2.byteEnd
    docId := row.2.docId
    versionId := row.2.versionId
    chunkId := row.1
    headingPath := row.2.headingPath
    anchor := row.2.anchor
    byteRange := (row.2.byteStart,row.2.byteEnd)
    checksum := row.2.checksum
    quote := quoteExcerpt row.2.text }

abbrev Layout := WikiVersion × ChunkPlan

def layouts : List ℕ → M (List (ℕ × Layout))
  | [] => pure []
  | id::rest => do
    let version ← versionRecord svc.toWikiService id
    match chunkMarkdown svc.tables version.content with
    | none => .fail .panic
    | some plan => do
      let more ← layouts rest
      pure ((id,version,plan)::more)

/-- The hit with up to `expand` chunks on both sides of it. -/
def widen (expand : ℕ) (row : Row) (version : WikiVersion) (plan : ChunkPlan) :
    Except WikiError WikiHit :=
  let pos := row.2.ordinal
  let hit := hitFrom svc row
  if pos < plan.drafts.length then
    match plan.drafts[pos-expand]?, plan.drafts[min (pos+expand) (plan.drafts.length-1)]? with
    | some lo, some hi => do
      let text ← cut version.content lo.byteStart hi.byteEnd
      pure { hit with
        text := text
        citation := { hit.citation with
          uri := citationUri svc.spaceId row.2.docId row.2.versionId lo.byteStart hi.byteEnd
          byteRange := (lo.byteStart,hi.byteEnd)
          checksum := chunkChecksum svc.toLibrary version.checksum lo.byteStart hi.byteEnd text } }
    | _, _ => .error .panic
  else .ok hit

def widenAll (expand : ℕ) (found : List (ℕ × Layout)) : List Row → Except WikiError (List WikiHit)
  | [] => .ok []
  | row::rows =>
    match found.lookup row.2.versionId with
    | none => .error .panic
    | some layout => do
      let hit ← widen svc expand row layout.1 layout.2
      let hits ← widenAll expand found rows
      pure (hit::hits)

def expandHits (schedule : Schedule) (core : List Row) (expand : ℕ) : M (List WikiHit) := do
  let found ← layouts svc (schedule.order (core.map fun row => row.2.versionId).dedup)
  lift (widenAll svc expand found core)

def hitsOf (schedule : Schedule) (expand : ℕ) (core : List Row) : M (List WikiHit) :=
  if expand = 0 then pure (core.map (hitFrom svc)) else expandHits svc schedule core expand

def searchInner (schedule : Schedule) (raw : WikiSearchInput) (labels : Option (List Text)) :
    M WikiSearchOutput := do
  let input := raw.normalize
  refuseIf (input.query = []) (.invalid "query cannot be empty".toList)
  let namespaces := input.namespaces.take maxIncludeKeys
  let topK := min (max (input.topK.getD 8) 1) 50
  match ← admitted svc (input.docIds.take maxIncludeKeys) input.tags with
  | none => pure ⟨[],0⟩
  | some docIds => do
    let found ← candidates svc input.query namespaces docIds labels (fetchLimit input.mode topK)
    let docs ← snapshots svc (schedule.order (found.map fun row => row.2.docId).dedup)
    let rows := found.filter (visible ⟨[],labels⟩ docs)
    let rows := if namespaces.isEmpty then rows.filter (·.2.ns != evalNamespace) else rows
    let core := match input.mode with
      | .chunks => rows
      | .docs => (firstOfDocs [] rows).take topK
    let hits ← hitsOf svc schedule (min (input.expand.getD 0) 2) core
    pure ⟨hits,(rows.map fun row => row.2.docId).dedup.length⟩

def searchView (schedule : Schedule) (input : WikiSearchInput) (view : Option (List Text)) :
    M WikiSearchOutput :=
  searchInner svc schedule input view

def searchScoped (schedule : Schedule) (access : WikiAccess) (input : WikiSearchInput) (now : ℕ) :
    M WikiSearchOutput := do
  let output ← searchInner svc schedule input access.labels
  doIf (svc.auditReads = true) (do
    let _ ← attempt (writeEvent .wikiQueried none none access.actor
      [("query",.str (String.ofList input.query)),("hits",.int output.hits.length),
        ("restricted",.bool access.labels.isSome)] now)
    pure ())
  pure output

end Search

end AndaBrain.WikiSearch
