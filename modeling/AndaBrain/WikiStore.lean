import Mathlib.Data.Finmap
import AndaBrain.Foundation.Table
import AndaBrain.Foundation.Resumption
import AndaBrain.WikiText

/-!
# The wiki store

`wiki/store.rs` and the storage helpers of `wiki/mod.rs`: document, version and chunk rows, the
one write primitive `commit`, archive and restore, and the sweep that repairs what a crash left.
-/

set_option autoImplicit false

namespace AndaBrain.WikiStore
open Foundation Foundation.Resumption Foundation.Utf8Text
open WikiChunk WikiText

abbrev Metadata := Finmap (fun _ : Text => Json)

def maxDocBytes : ℕ := 1024*1024
def maxReadBytes : ℕ := 256*1024
def sentinelTtlMs : ℕ := 10*60*1000
def scanPage : ℕ := 200
def maxTags : ℕ := 64
def maxTagChars : ℕ := 120
def maxSlugChars : ℕ := 256
def maxMetadataKeys : ℕ := 64
def maxMetadataBytes : ℕ := 64*1024
def chunkerVersion : ℕ := 1
def defaultNamespace : Text := "default".toList

inductive DocStatus where
  | active
  | archived
  deriving DecidableEq

/-- A document row. Version 0 marks a document that is still initializing. -/
structure WikiDoc where
  ns : Text
  slug : Text
  title : Text
  status : DocStatus
  currentVersion : ℕ
  generation : ℕ
  digestPending : Bool
  currentChecksum : Text
  tags : List Text
  aclLabel : Text
  sourceUri : Option Text
  metadata : Metadata
  createdBy : Text
  updatedBy : Text
  createdAt : ℕ
  updatedAt : ℕ

structure WikiVersion where
  docId : ℕ
  parentVersion : Option ℕ
  checksum : Text
  content : Text
  size : ℕ
  author : Text
  message : Option Text
  createdAt : ℕ

structure ChunkRow where
  docId : ℕ
  versionId : ℕ
  ns : Text
  current : Bool
  title : Text
  headingPath : List Text
  anchor : Text
  ordinal : ℕ
  text : Text
  byteStart : ℕ
  byteEnd : ℕ
  checksum : Text
  chunkerVersion : ℕ
  aclLabel : Text

def ChunkRow.mark (current : Bool) (row : ChunkRow) : ChunkRow := { row with current := current }

inductive EventKind where
  | docCreated
  | versionCommitted
  | docArchived
  | docRestored
  | orphanSwept
  | importCompleted
  | exportCompleted
  | wikiRead
  | wikiQueried
  deriving DecidableEq

structure EventRow where
  kind : EventKind
  docId : Option ℕ
  versionId : Option ℕ
  actor : Text
  detail : List (String × Json)
  createdAt : ℕ

structure World where
  docs : Table WikiDoc
  versions : Table WikiVersion
  chunks : Table ChunkRow
  events : Table EventRow
  aclDefaults : List (Text × Text)

def World.empty : World := ⟨.empty,.empty,.empty,.empty,[]⟩

inductive WikiError where
  | conflict (currentVersion : ℕ) (currentChecksum updatedBy : Text) (updatedAt : ℕ)
  | tooLarge (size max : ℕ)
  | notFound (message : Text)
  | invalid (message : Text)
  | db (message : Text)
  -- a slice off a character boundary
  | panic
  deriving DecidableEq

inductive Collection where
  | docs
  | versions
  | chunks

/-- A wiki service: its space, the crates it uses, and what its database says of a row
that does not exist. One search returns at least the chunks of one version. -/
structure WikiService extends Library where
  spaceId : Text
  missingPath : Collection → ℕ → Text
  missingName : Collection → ℕ → Text
  searchLimit : ℕ
  searchLimit_ok : maxChunksPerVersion ≤ searchLimit

def asciiService : WikiService where
  toLibrary := asciiLibrary
  spaceId := "space".toList
  missingPath := fun _ _ => "wiki".toList
  missingName := fun _ id => decimal id
  searchLimit := maxChunksPerVersion
  searchLimit_ok := Nat.le_refl _

inductive Fault where
  | none
  | failed (applied : Bool) (message : Text)

def Fault.applied : Fault → Bool
  | .none => true
  | .failed applied _ => applied

abbrev M := Prog WikiError Fault World

section Storage
variable (svc : WikiService)

/-- `From<DBError>` of a missing row. -/
def missing (c : Collection) (id : ℕ) : WikiError :=
  .notFound (svc.missingPath c id++ '/'::svc.missingName c id)

def ask {α : Type} (f : World → Except WikiError α) : M α :=
  query fun fault w => match fault with
    | .none => f w
    | .failed _ message => .error (.db message)

def peek {α : Type} (f : World → α) : M α := query fun _ w => .ok (f w)

def write {α : Type} (f : World → World) (answer : World → Except WikiError α) : M α :=
  atomic (fun fault w => if fault.applied then f w else w) fun fault w => match fault with
    | .none => answer w
    | .failed _ message => .error (.db message)

def getRow {α : Type} (c : Collection) (table : World → Table α) (id : ℕ) : M α :=
  ask fun w => match (table w).get id with
    | some row => .ok row
    | none => .error (missing svc c id)

def addDoc (doc : WikiDoc) : M ℕ :=
  write (fun w => { w with docs := w.docs.add doc }) fun w => .ok (w.docs.last+1)

def addVersion (version : WikiVersion) : M ℕ :=
  write (fun w => { w with versions := w.versions.add version }) fun w => .ok (w.versions.last+1)

def addChunk (row : ChunkRow) : M ℕ :=
  write (fun w => { w with chunks := w.chunks.add row }) fun w => .ok (w.chunks.last+1)

def writeEvent (kind : EventKind) (docId versionId : Option ℕ) (actor : Text)
    (detail : List (String × Json)) (now : ℕ) : M ℕ :=
  write (fun w => { w with events := w.events.add ⟨kind,docId,versionId,actor,detail,now⟩ })
    fun w => .ok (w.events.last+1)

def updateDoc (id : ℕ) (f : WikiDoc → WikiDoc) : M Unit :=
  write (fun w => { w with docs := w.docs.update id f }) fun w =>
    if (w.docs.get id).isSome then .ok () else .error (missing svc .docs id)

def setCurrent (current : Bool) (id : ℕ) : M Unit :=
  write (fun w => { w with chunks := w.chunks.update id (ChunkRow.mark current) })
    fun w => if (w.chunks.get id).isSome then .ok () else .error (missing svc .chunks id)

def removeDoc (id : ℕ) : M Unit :=
  write (fun w => { w with docs := w.docs.remove id }) fun _ => .ok ()

def removeVersion (id : ℕ) : M Unit :=
  write (fun w => { w with versions := w.versions.remove id }) fun _ => .ok ()

def removeChunk (id : ℕ) : M Unit :=
  write (fun w => { w with chunks := w.chunks.remove id }) fun _ => .ok ()

/-- `query_last_ids`: the newest ids of a selection, in increasing order. -/
def lastIds (ids : List ℕ) (limit : ℕ) : List ℕ := ids.drop (ids.length-limit)

/-- `scan_ids`: pages below a falling cursor. Each page moves it, so `fuel` pages from a
cursor of at most `fuel` reach the end. -/
def scanFrom (ids : World → List ℕ) : ℕ → ℕ → M (List ℕ)
  | 0, _ => pure []
  | fuel+1, cursor => do
    let page ← ask fun w => .ok (lastIds ((ids w).filter (· < cursor)) svc.searchLimit)
    match page.head? with
    | none => pure []
    | some first =>
      if page.length < svc.searchLimit then pure page
      else do
        let rest ← scanFrom ids fuel first
        pure (page++rest)

def scanIds {α : Type} (table : World → Table α) (p : ℕ → α → Bool) : M (List ℕ) := do
  let cursor ← peek fun w => (table w).last+1
  scanFrom svc (fun w => (table w).select p) cursor cursor

def chunkIdsOf (docId versionId : ℕ) : M (List ℕ) :=
  ask fun w => .ok ((w.chunks.select fun _ row =>
    row.docId == docId && row.versionId == versionId).take svc.searchLimit)

def allChunkIdsOf (docId : ℕ) : M (List ℕ) :=
  scanIds svc World.chunks fun _ row => row.docId == docId

def versionIdsOf (docId : ℕ) : M (List ℕ) :=
  scanIds svc World.versions fun _ row => row.docId == docId

def aclDefaultFor (ns : Text) : M Text := peek fun w => (w.aclDefaults.lookup ns).getD []

def docRecord (docId : ℕ) : M WikiDoc := do
  let doc ← getRow svc .docs World.docs docId
  refuseIf (doc.currentVersion = 0)
    (.notFound ("document ".toList++decimal docId++" not found".toList))
  pure doc

def versionRecord (id : ℕ) : M WikiVersion := getRow svc .versions World.versions id

def chainVersion (docId id : ℕ) : M WikiVersion := do
  let version ← versionRecord svc id
  refuseIf (version.docId ≠ docId ∨ version.parentVersion.any (fun p => p == 0 || id ≤ p) = true)
    (.db ("invalid version chain for document ".toList++decimal docId++" at ".toList++decimal id))
  pure version

/-- The walk of `published_version`. Parents are smaller, so `id` steps are enough. -/
def publishedFrom (docId versionId : ℕ) : ℕ → Option ℕ → M WikiVersion
  | fuel+1, some id =>
    if id < versionId then publishedFrom docId versionId fuel none
    else do
      let version ← chainVersion svc docId id
      if id = versionId then pure version
      else publishedFrom docId versionId fuel version.parentVersion
  | _, _ => .fail (.notFound ("version ".toList++decimal versionId++
      " is not published for document ".toList++decimal docId))

def publishedVersion (docId : ℕ) (doc : WikiDoc) (versionId : ℕ) : M WikiVersion :=
  publishedFrom svc docId versionId (doc.currentVersion+1) (some doc.currentVersion)

def publishedIdsFrom (docId : ℕ) : ℕ → Option ℕ → M (List ℕ)
  | fuel+1, some id => do
    let version ← chainVersion svc docId id
    let rest ← publishedIdsFrom docId fuel version.parentVersion
    pure (id::rest)
  | _, _ => pure []

def publishedVersionIds (docId : ℕ) (doc : WikiDoc) : M (List ℕ) :=
  publishedIdsFrom svc docId (doc.currentVersion+1) (some doc.currentVersion)

def findDocIdBySlug (ns slug : Text) : M (Option ℕ) :=
  ask fun w => .ok (w.docs.select fun _ doc => doc.ns == ns && doc.slug == slug).head?

end Storage

section Slugs
variable (svc : WikiService)

def reserved (slug : Text) : Bool :=
  let last := (slug.splitOn '/').getLast?
  last == some "index".toList || last == some "log".toList

def slugCandidate (base : Text) (attempt : ℕ) : Text :=
  if attempt = 0 then base else base++ '-'::decimal (attempt+1)

def probeSlugs (ns base : Text) (exclude : Option ℕ) : List ℕ → M (Option Text)
  | [] => pure none
  | attempt::rest =>
    if reserved (slugCandidate base attempt) then probeSlugs ns base exclude rest
    else do
      match ← findDocIdBySlug ns (slugCandidate base attempt) with
      | none => pure (some (slugCandidate base attempt))
      | some id =>
        if some id = exclude then pure (some (slugCandidate base attempt))
        else probeSlugs ns base exclude rest

def uniqueSlug (ns base : Text) (exclude : Option ℕ) (now : ℕ) : M Text := do
  let base := slugifyPath svc.toLibrary base
  match ← probeSlugs ns base exclude (List.range 100) with
  | some slug => pure slug
  | none => pure (base++ '-'::decimal now)

end Slugs

structure CommitInput where
  docId : Option ℕ
  parentVersion : Option ℕ
  ns : Option Text
  slug : Option Text
  title : Text
  content : Text
  tags : Option (List Text)
  aclLabel : Option Text
  sourceUri : Option Text
  message : Option Text
  metadata : Option Metadata

section Prepare
variable (svc : WikiService)

def normalizeOpt (value : Option Text) : Option Text :=
  value.bind fun inner => if (trim inner).isEmpty then none else some (trim inner)

def dedupFrom (seen : List Text) : List Text → List Text
  | [] => []
  | tag::tags => if seen.contains tag then dedupFrom seen tags else tag::dedupFrom (tag::seen) tags

def normalizeTags (tags : List Text) : List Text :=
  dedupFrom [] ((tags.map trim).filter (!·.isEmpty))

def CommitInput.normalize (input : CommitInput) : CommitInput :=
  let title := trim input.title
  { input with
    title := if title.isEmpty then (firstHeadingTitle input.content).getD [] else title
    ns := normalizeOpt input.ns
    slug := normalizeOpt input.slug
    message := normalizeOpt input.message
    sourceUri := input.sourceUri.map trim
    tags := input.tags.map normalizeTags }

def metadataSize (metadata : Metadata) : ℕ :=
  (metadata.entries.map fun e => byteLen e.1+byteLen (svc.jsonText e.2)).sum

def exceeds (what : String) (n max : ℕ) (unit : String) : WikiError :=
  .invalid (what.toList++decimal n++" exceeds the ".toList++decimal max++unit.toList)

def CommitInput.validate (input : CommitInput) : Except WikiError Unit := do
  match input.tags with
  | none => pure ()
  | some tags => do
    if maxTags < tags.length then .error (exceeds "too many tags: " tags.length maxTags " limit")
    match tags.find? (maxTagChars < ·.length) with
    | some tag => .error (.invalid ("tag ".toList++svc.debugText tag++" exceeds 120 characters".toList))
    | none => pure ()
  if (input.slug.any (maxSlugChars < ·.length)) = true then
    .error (.invalid "slug exceeds 256 characters".toList)
  match input.metadata with
  | none => pure ()
  | some metadata => do
    if maxMetadataKeys < metadata.keys.card then
      .error (exceeds "too many metadata keys: " metadata.keys.card maxMetadataKeys " limit")
    if maxMetadataBytes < metadataSize svc metadata then
      .error (exceeds "metadata too large: ~" (metadataSize svc metadata) maxMetadataBytes
        " byte limit")

structure Prepared where
  input : CommitInput
  content : Text
  checksum : Text
  forcedSplits : ℕ
  capped : Bool
  chunks : List ChunkRow

def chunkRowOf (title content checksum : Text) (toc : List TocEntry) (draft : ChunkDraft × ℕ) :
    Option ChunkRow := do
  let text ← slice content draft.1.byteStart draft.1.byteEnd
  some {
    docId := 0
    versionId := 0
    ns := []
    current := false
    title := title
    headingPath := draft.1.headingPath
    anchor := anchorCovering toc draft.1.byteStart draft.1.byteEnd
    ordinal := draft.2
    text := text
    byteStart := draft.1.byteStart
    byteEnd := draft.1.byteEnd
    checksum := chunkChecksum svc.toLibrary checksum draft.1.byteStart draft.1.byteEnd text
    chunkerVersion := chunkerVersion
    aclLabel := [] }

def chunkRows (title content checksum : Text) (plan : ChunkPlan) : Option (List ChunkRow) :=
  plan.drafts.zipIdx.mapM
    (chunkRowOf svc title content checksum (outline svc.toLibrary content))

def prepareCommit (raw : CommitInput) : Except WikiError Prepared := do
  let input := raw.normalize
  if input.title.isEmpty then
    .error (.invalid "title is required (or provide a markdown heading)".toList)
  input.validate svc
  let content := normalizeContent svc.toLibrary input.content
  if content.isEmpty then .error (.invalid "content cannot be empty".toList)
  if maxDocBytes < byteLen content then .error (.tooLarge (byteLen content) maxDocBytes)
  let checksum := checksumFor svc.toLibrary [content]
  match chunkMarkdown svc.tables content with
  | none => .error .panic
  | some plan =>
    match chunkRows svc input.title content checksum plan with
    | none => .error .panic
    | some rows => .ok ⟨input,content,checksum,plan.forcedSplits,plan.capped,rows⟩

end Prepare

def each {α : Type} (f : α → M Unit) : List α → M Unit
  | [] => pure ()
  | a::rest => do
    f a
    each f rest

def addChunks : List ChunkRow → M (List ℕ)
  | [] => pure []
  | row::rest => do
    let id ← addChunk row
    let ids ← addChunks rest
    pure (id::ids)

structure DocInfo where
  id : ℕ
  ns : Text
  slug : Text
  title : Text
  status : DocStatus
  currentVersion : ℕ
  currentChecksum : Text
  tags : List Text
  aclLabel : Text
  sourceUri : Option Text
  metadata : Metadata
  createdBy : Text
  updatedBy : Text
  createdAt : ℕ
  updatedAt : ℕ

def docInfo (id : ℕ) (doc : WikiDoc) : DocInfo :=
  ⟨id,doc.ns,doc.slug,doc.title,doc.status,doc.currentVersion,doc.currentChecksum,doc.tags,
    doc.aclLabel,doc.sourceUri,doc.metadata,doc.createdBy,doc.updatedBy,doc.createdAt,
    doc.updatedAt⟩

structure VersionInfo where
  id : ℕ
  docId : ℕ
  parentVersion : Option ℕ
  checksum : Text
  size : ℕ
  author : Text
  message : Option Text
  createdAt : ℕ

def versionInfo (version : WikiVersion) (id : ℕ) : VersionInfo :=
  ⟨id,version.docId,version.parentVersion,version.checksum,version.size,version.author,
    version.message,version.createdAt⟩

structure CommitOutput where
  doc : DocInfo
  version : VersionInfo
  chunks : ℕ
  created : Bool
  idempotent : Bool

section Commit
variable (svc : WikiService)

def unchanged (input : CommitInput) (checksum : Text) (doc : WikiDoc) : Bool :=
  doc.currentChecksum == checksum && doc.title == input.title
    && input.tags.all (· == doc.tags)
    && input.aclLabel.all (trim · == doc.aclLabel)
    && input.ns.all (· == doc.ns)
    && input.slug.all (slugifyPath svc.toLibrary · == doc.slug)
    && input.sourceUri.all (fun uri =>
      if uri.isEmpty then doc.sourceUri.isNone else some uri == doc.sourceUri)
    && input.metadata.all (fun metadata => decide (metadata = doc.metadata))

def existingDoc (input : CommitInput) : M (Option (ℕ × WikiDoc)) :=
  match input.docId with
  | none => pure none
  | some id => do
    let doc ← docRecord svc id
    refuseIf (doc.status = .archived) (.invalid ("document ".toList++decimal id++
      " is archived; restore it before committing".toList))
    match input.parentVersion with
    | none => .fail (.invalid "parent_version is required when updating".toList)
    | some parent => do
      refuseIf (parent ≠ doc.currentVersion)
        (.conflict doc.currentVersion doc.currentChecksum doc.updatedBy doc.updatedAt)
      pure (some (id,doc))

def replay (id : ℕ) (doc : WikiDoc) : M CommitOutput := do
  let version ← versionRecord svc doc.currentVersion
  let chunks ← chunkIdsOf svc id doc.currentVersion
  pure ⟨docInfo id doc,versionInfo version doc.currentVersion,chunks.length,false,true⟩

structure Target where
  docId : ℕ
  created : Bool
  ns : Text
  slug : Text
  prevVersion : ℕ

def commitTags (input : CommitInput) (existing : Option (ℕ × WikiDoc)) : List Text :=
  match input.tags, existing with
  | some tags, _ => tags
  | none, some (_,doc) => doc.tags
  | none, none => []

def commitLabel (input : CommitInput) (existing : Option (ℕ × WikiDoc)) : M Text :=
  match input.aclLabel, existing with
  | some label, _ => pure (trim label)
  | none, some (_,doc) => pure doc.aclLabel
  | none, none => aclDefaultFor (input.ns.getD defaultNamespace)

/-- The row of a document that is created: version 0 until its first version is there. -/
def sentinelDoc (input : CommitInput) (ns slug : Text) (tags : List Text) (aclLabel actor : Text)
    (now : ℕ) : WikiDoc where
  ns := ns
  slug := slug
  title := input.title
  status := .active
  currentVersion := 0
  generation := 1
  digestPending := false
  currentChecksum := []
  tags := tags
  aclLabel := aclLabel
  sourceUri := input.sourceUri
  metadata := input.metadata.getD ∅
  createdBy := actor
  updatedBy := actor
  createdAt := now
  updatedAt := now

/-- The slug of an updated document. It is looked up again only if it changes. -/
def movedSlug (input : CommitInput) (id : ℕ) (doc : WikiDoc) (now : ℕ) : M Text :=
  let ns := input.ns.getD doc.ns
  let want := input.slug.getD doc.slug
  if want ≠ doc.slug ∨ ns ≠ doc.ns then uniqueSlug svc ns want (some id) now else pure doc.slug

def resolveTarget (input : CommitInput) (tags : List Text) (aclLabel actor : Text) (now : ℕ)
    (existing : Option (ℕ × WikiDoc)) : M Target :=
  match existing with
  | some (id,doc) => do
    let slug ← movedSlug svc input id doc now
    pure ⟨id,false,input.ns.getD doc.ns,slug,doc.currentVersion⟩
  | none => do
    let ns := input.ns.getD defaultNamespace
    let slug ← uniqueSlug svc ns (input.slug.getD (slugify svc.tables input.title)) none now
    let id ← addDoc (sentinelDoc input ns slug tags aclLabel actor now)
    pure ⟨id,true,ns,slug,0⟩

/-- The fields that publish a version: one update makes the commit effective. -/
def publishedDoc (p : Prepared) (target : Target) (tags : List Text) (aclLabel actor : Text)
    (now versionId generation : ℕ) (doc : WikiDoc) : WikiDoc :=
  { doc with
    ns := target.ns
    slug := target.slug
    title := p.input.title
    status := .active
    currentVersion := versionId
    generation := generation
    digestPending := true
    currentChecksum := p.checksum
    tags := tags
    aclLabel := aclLabel
    sourceUri := match p.input.sourceUri with
      | none => doc.sourceUri
      | some uri => if uri.isEmpty then none else some uri
    metadata := p.input.metadata.getD doc.metadata
    updatedBy := actor
    updatedAt := now }

def commitDetail (p : Prepared) : List (String × Json) :=
  [("chunks",.int p.chunks.length),("checksum",.str (String.ofList p.checksum)),
    ("size",.int (byteLen p.content))]
    ++(if 0 < p.forcedSplits then [("forced_splits",.int p.forcedSplits)] else [])
    ++(if p.capped then [("chunks_capped",.bool true)] else [])
    ++(match p.input.message with
      | some message => [("message",.str (String.ofList message))]
      | none => [])

def dropChunksOf (docId versionId : ℕ) : M Unit := do
  let ids ← chunkIdsOf svc docId versionId
  each removeChunk ids

def versionRow (p : Prepared) (target : Target) (actor : Text) (now : ℕ) : WikiVersion where
  docId := target.docId
  parentVersion := if target.created then none else some target.prevVersion
  checksum := p.checksum
  content := p.content
  size := byteLen p.content
  author := actor
  message := p.input.message
  createdAt := now

def patched (p : Prepared) (target : Target) (versionId : ℕ) (aclLabel : Text) : List ChunkRow :=
  p.chunks.map fun row =>
    { row with docId := target.docId, versionId := versionId, ns := target.ns, aclLabel := aclLabel }

/-- The writes of a commit. The document row is the activation point: before it the old
version is visible, after it the new one. -/
def activate (actor : Text) (p : Prepared) (now generation : ℕ) (tags : List Text)
    (aclLabel : Text) (target : Target) : M CommitOutput := do
  -- 1) immutable version row
  let versionId ← addVersion (versionRow p target actor now)
  -- 2) chunks, inactive until the document flips
  let chunkIds ← addChunks (patched p target versionId aclLabel)
  -- 3) activation point
  updateDoc svc target.docId (publishedDoc p target tags aclLabel actor now versionId generation)
  -- 4) retrieval rows
  each (setCurrent svc true) chunkIds
  -- 5) superseded chunks
  doIf (target.created = false) (dropChunksOf svc target.docId target.prevVersion)
  -- 6) audit event
  let _ ← writeEvent (if target.created then .docCreated else .versionCommitted)
    (some target.docId) (some versionId) actor (commitDetail p) now
  let doc ← docRecord svc target.docId
  let stored ← versionRecord svc versionId
  pure ⟨docInfo target.docId doc,versionInfo stored versionId,p.chunks.length,target.created,false⟩

def publish (actor : Text) (p : Prepared) (now : ℕ) (existing : Option (ℕ × WikiDoc)) :
    M CommitOutput := do
  let tags := commitTags p.input existing
  let aclLabel ← commitLabel p.input existing
  let target ← resolveTarget svc p.input tags aclLabel actor now existing
  let generation := existing.elim 1 (fun e => e.2.generation+1)
  activate svc actor p now generation tags aclLabel target

def commitPrepared (actor : Text) (p : Prepared) (now : ℕ) : M CommitOutput := do
  match ← existingDoc svc p.input with
  | some (id,doc) =>
    if unchanged svc p.input p.checksum doc then replay svc id doc
    else publish svc actor p now (some (id,doc))
  | none => publish svc actor p now none

def commit (actor : Text) (input : CommitInput) (now : ℕ) : M CommitOutput := do
  let p ← lift (prepareCommit svc input)
  commitPrepared svc actor p now

end Commit

section Lifecycle
variable (svc : WikiService)

def setChunksCurrent (docId versionId : ℕ) (current : Bool) : M Unit := do
  let ids ← chunkIdsOf svc docId versionId
  each (setCurrent svc current) ids

def turnedDoc (status : DocStatus) (generation : ℕ) (actor : Text) (now : ℕ) (doc : WikiDoc) :
    WikiDoc :=
  { doc with
    status := status
    generation := generation+1
    digestPending := true
    updatedBy := actor
    updatedAt := now }

def turn (status : DocStatus) (refusal : String) (kind : EventKind) (actor : Text)
    (docId now : ℕ) : M DocInfo := do
  let doc ← docRecord svc docId
  refuseIf (doc.status = status) (.invalid ("document ".toList++decimal docId++refusal.toList))
  updateDoc svc docId (turnedDoc status doc.generation actor now)
  setChunksCurrent svc docId doc.currentVersion (status == .active)
  let _ ← writeEvent kind (some docId) (some doc.currentVersion) actor [] now
  let doc ← docRecord svc docId
  pure (docInfo docId doc)

def archive (actor : Text) (docId now : ℕ) : M DocInfo :=
  turn svc .archived " is already archived" .docArchived actor docId now

def restore (actor : Text) (docId now : ℕ) : M DocInfo :=
  turn svc .active " is not archived" .docRestored actor docId now

structure SweepReport where
  docsRemoved : ℕ
  versionsRemoved : ℕ
  chunksRemoved : ℕ
  chunksRepaired : ℕ

def SweepReport.none : SweepReport := ⟨0,0,0,0⟩

def SweepReport.plus (a b : SweepReport) : SweepReport :=
  ⟨a.docsRemoved+b.docsRemoved,a.versionsRemoved+b.versionsRemoved,
    a.chunksRemoved+b.chunksRemoved,a.chunksRepaired+b.chunksRepaired⟩

def SweepReport.isEmpty (r : SweepReport) : Bool :=
  r.docsRemoved == 0 && r.versionsRemoved == 0 && r.chunksRemoved == 0 && r.chunksRepaired == 0

def sweepSentinel (docId : ℕ) : M SweepReport := do
  let versions ← versionIdsOf svc docId
  each removeVersion versions
  let chunks ← allChunkIdsOf svc docId
  each removeChunk chunks
  removeDoc docId
  pure ⟨1,versions.length,chunks.length,0⟩

def sweepVersions (docId : ℕ) : List ℕ → M ℕ
  | [] => pure 0
  | version::rest => do
    let chunks ← chunkIdsOf svc docId version
    each removeChunk chunks
    removeVersion version
    let removed ← sweepVersions docId rest
    pure (chunks.length+removed)

def sweepChunks (docId : ℕ) (doc : WikiDoc) : M SweepReport := do
  let keep ← chunkIdsOf svc docId doc.currentVersion
  let all ← allChunkIdsOf svc docId
  let superseded := all.filter (!keep.contains ·)
  each removeChunk superseded
  let want := doc.status == .active
  let mismatched ← scanIds svc World.chunks fun _ row =>
    row.docId == docId && row.versionId == doc.currentVersion && row.current == !want
  each (setCurrent svc want) mismatched
  pure ⟨0,0,superseded.length,mismatched.length⟩

def sweepDoc (docId : ℕ) (doc : WikiDoc) (now : ℕ) : M SweepReport :=
  if doc.currentVersion = 0 then
    if sentinelTtlMs < now-doc.createdAt then sweepSentinel svc docId else pure .none
  else do
    let published ← publishedVersionIds svc docId doc
    let versions ← versionIdsOf svc docId
    let orphans := versions.filter (!published.contains ·)
    let chunks ← sweepVersions svc docId orphans
    let reconciled ← sweepChunks svc docId doc
    pure (SweepReport.plus ⟨0,orphans.length,chunks,0⟩ reconciled)

def getDocs : List ℕ → M (List (ℕ × WikiDoc))
  | [] => pure []
  | id::rest => do
    let doc ← getRow svc .docs World.docs id
    let docs ← getDocs rest
    pure ((id,doc)::docs)

def sweepDocs (now : ℕ) : List (ℕ × WikiDoc) → M SweepReport
  | [] => pure .none
  | (id,doc)::rest => do
    let report ← sweepDoc svc id doc now
    let reports ← sweepDocs now rest
    pure (report.plus reports)

def sweepPages (now : ℕ) : ℕ → ℕ → M SweepReport
  | 0, _ => pure .none
  | fuel+1, cursor => do
    let page ← ask fun w => .ok (lastIds (w.docs.select fun id _ => decide (id < cursor)) scanPage)
    let docs ← getDocs svc page
    match page.head? with
    | none => pure .none
    | some first => do
      let report ← sweepDocs svc now docs
      if page.length < scanPage then pure report
      else do
        let rest ← sweepPages now fuel first
        pure (report.plus rest)

def orphanSweep (now : ℕ) : M SweepReport := do
  let cursor ← peek fun w => w.docs.last+1
  let report ← sweepPages svc now cursor cursor
  doIf (report.isEmpty = false) (do
    let _ ← writeEvent .orphanSwept none none "system".toList
      [("docs_removed",.int report.docsRemoved),("versions_removed",.int report.versionsRemoved),
        ("chunks_removed",.int report.chunksRemoved),
        ("chunks_repaired",.int report.chunksRepaired)] now
    pure ())
  pure report

def setAclDefaults (defaults : List (Text × Text)) : M Unit :=
  write (fun w => { w with aclDefaults :=
      ((defaults.map fun d => (trim d.1,trim d.2)).filter (!·.1.isEmpty)).reverse })
    fun _ => .ok ()

end Lifecycle

end AndaBrain.WikiStore
