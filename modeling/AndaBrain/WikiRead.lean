import AndaBrain.WikiStore

/-!
# Reading the wiki

`wiki/read.rs`: a request names a document, the document row decides whether the caller may see
it, and everything else is read from that row and the versions it publishes.
-/

set_option autoImplicit false

namespace AndaBrain.WikiRead
open Foundation Foundation.Resumption Foundation.Utf8Text
open WikiText WikiStore

def maxIncludeKeys : ℕ := 4096

structure Reader extends WikiService where
  fromCursor : Option Text → Except Text (Option ℕ)
  toCursor : ℕ → Option Text
  auditReads : Bool

structure WikiAccess where
  actor : Text
  labels : Option (List Text)

def WikiAccess.allows (access : WikiAccess) (label : Text) : Bool :=
  match access.labels with
  | none => true
  | some labels => label.isEmpty || labels.any (· == label)

inductive WikiSelector where
  | toc
  | sectionOf (anchor : Text)
  | range (start stop : ℕ)
  | full

structure WikiReadInput where
  docId : ℕ
  version : Option ℕ
  selector : WikiSelector

structure WikiReadOutput where
  docId : ℕ
  versionId : ℕ
  isCurrent : Bool
  title : Text
  status : DocStatus
  checksum : Text
  size : ℕ
  toc : Option (List TocEntry)
  content : Option Text
  byteRange : Option (ℕ × ℕ)
  truncated : Bool

structure WikiListDocsInput where
  ns : Option Text
  status : Option Text
  tag : Option Text
  cursor : Option Text
  limit : Option ℕ

structure WikiDocListOutput where
  docs : List DocInfo
  nextCursor : Option Text

structure WikiVersionListOutput where
  versions : List VersionInfo
  nextCursor : Option Text

structure WikiVerifyInput where
  uri : Option Text
  docId : Option ℕ
  versionId : Option ℕ
  byteRange : Option (ℕ × ℕ)
  checksum : Option Text

inductive WikiVerifyStatus where
  | valid
  | superseded
  | invalid
  | notFound
  deriving DecidableEq

structure WikiVerifyOutput where
  status : WikiVerifyStatus
  currentVersion : Option ℕ
  checksum : Option Text
  quote : Option Text
  deriving DecidableEq

def statusText : DocStatus → Text
  | .active => "active".toList
  | .archived => "archived".toList

section Documents
variable (svc : Reader)

def guardDoc (docId : ℕ) (doc : WikiDoc) (access : WikiAccess) : M Unit :=
  refuseIf (access.allows doc.aclLabel = false)
    (.notFound ("document ".toList++decimal docId++" not found".toList))

def authorized (access : WikiAccess) (docId : ℕ) : M WikiDoc := do
  let doc ← docRecord svc.toWikiService docId
  guardDoc docId doc access
  pure doc

/-- `content[start..end]`. -/
def cut (content : Text) (start stop : ℕ) : Except WikiError Text :=
  match slice content start stop with
  | some text => .ok text
  | none => .error .panic

def selectFrom (lib : Library) (content : Text) (output : WikiReadOutput) :
    WikiSelector → Except WikiError WikiReadOutput
  | .toc => .ok { output with toc := some (outline lib content) }
  | .sectionOf anchor =>
    match (outline lib content).find? (·.anchor == anchor) with
    | none => .error (.notFound ("section anchor ".toList++anchor++" not found".toList))
    | some entry => do
      let stop := floorCharBoundary content (min entry.byteEnd (entry.byteStart+maxReadBytes))
      let text ← cut content entry.byteStart stop
      pure { output with
        truncated := decide (stop < entry.byteEnd)
        content := some text
        byteRange := some (entry.byteStart,stop) }
  | .range start stop =>
    if stop < start then .error (.invalid "range start exceeds end".toList)
    else do
      let first := floorCharBoundary content start
      let last := floorCharBoundary content stop
      let capped := decide (maxReadBytes < last-first)
      let last := if capped then floorCharBoundary content (first+maxReadBytes) else last
      let text ← cut content first last
      pure { output with
        truncated := capped
        content := some text
        byteRange := some (first,last) }
  | .full => do
    let stop := floorCharBoundary content maxReadBytes
    let text ← cut content 0 stop
    pure { output with
      truncated := decide (stop < byteLen content)
      content := some text
      byteRange := some (0,stop) }

def readDocument (docId : ℕ) (doc : WikiDoc) (version : Option ℕ) (selector : WikiSelector) :
    M WikiReadOutput := do
  let versionId := version.getD doc.currentVersion
  let stored ← publishedVersion svc.toWikiService docId doc versionId
  lift (selectFrom svc.toLibrary stored.content {
    docId := docId
    versionId := versionId
    isCurrent := decide (versionId = doc.currentVersion)
    title := doc.title
    status := doc.status
    checksum := stored.checksum
    size := stored.size
    toc := none
    content := none
    byteRange := none
    truncated := false } selector)

def auditRead (access : WikiAccess) (output : WikiReadOutput) (now : ℕ) : M Unit :=
  doIf (svc.auditReads = true) (do
    let _ ← attempt (writeEvent .wikiRead (some output.docId) (some output.versionId) access.actor
      [("restricted",.bool access.labels.isSome)] now)
    pure ())

def readScoped (access : WikiAccess) (input : WikiReadInput) (now : ℕ) : M WikiReadOutput := do
  let doc ← authorized svc access input.docId
  let output ← readDocument svc input.docId doc input.version input.selector
  auditRead svc access output now
  pure output

def documentScoped (access : WikiAccess) (docId now : ℕ) : M (DocInfo × List TocEntry) := do
  let doc ← authorized svc access docId
  let output ← readDocument svc docId doc none .toc
  auditRead svc access output now
  pure (docInfo docId doc,output.toc.getD [])

def readView (input : WikiReadInput) (view : Option (List Text)) : M WikiReadOutput := do
  let doc ← authorized svc ⟨[],view⟩ input.docId
  readDocument svc input.docId doc input.version input.selector

end Documents

section Lists
variable (svc : Reader)

def cursorOrMax {α : Type} (table : World → Table α) (cursor : Option Text) : M ℕ :=
  match svc.fromCursor cursor with
  | .error message => .fail (.invalid ("invalid cursor: ".toList++message))
  | .ok (some cursor) => pure cursor
  | .ok none => peek fun w => (table w).last+1

def pageCursor (ids : List ℕ) (limit : ℕ) : Option Text :=
  if limit ≤ ids.length then ids.min?.bind svc.toCursor else none

def pageLimit (limit : Option ℕ) : ℕ := min (max (limit.getD 20) 1) 100

/-- The labels of the query: unlabeled documents and the granted labels. -/
def aclFilter (labels : List Text) (label : Text) : Bool :=
  label.isEmpty || (labels.take (maxIncludeKeys-1)).any (· == label)

def listed (input : WikiListDocsInput) (doc : WikiDoc) : Bool :=
  decide (0 < doc.currentVersion) && input.ns.all (· == doc.ns)
    && input.status.all (· == statusText doc.status) && input.tag.all (doc.tags.contains ·)

def listDocsInner (input : WikiListDocsInput) (labels : Option (List Text)) :
    M WikiDocListOutput := do
  let limit := pageLimit input.limit
  let cursor ← cursorOrMax svc World.docs input.cursor
  let ids ← ask fun w => .ok (lastIds (w.docs.select fun id doc => decide (id < cursor)
    && listed input doc && labels.all (aclFilter · doc.aclLabel)) limit)
  let rows ← getDocs svc.toWikiService ids
  let kept := rows.filter fun row => listed input row.2
    && labels.all fun labels => WikiAccess.allows ⟨[],some labels⟩ row.2.aclLabel
  pure ⟨kept.map fun row => docInfo row.1 row.2,pageCursor svc (rows.map Prod.fst) limit⟩

def listDocsScoped (access : WikiAccess) (input : WikiListDocsInput) : M WikiDocListOutput :=
  listDocsInner svc input access.labels

/-- The walk of `document_versions`, newest first. -/
def versionsFrom (docId cursor limit : ℕ) :
    ℕ → Option ℕ → List (ℕ × WikiVersion) → M (List (ℕ × WikiVersion))
  | fuel+1, some id, rows => do
    let version ← chainVersion svc.toWikiService docId id
    if id < cursor then
      if rows.length+1 = limit then pure (rows++[(id,version)])
      else versionsFrom docId cursor limit fuel version.parentVersion (rows++[(id,version)])
    else versionsFrom docId cursor limit fuel version.parentVersion rows
  | _, _, rows => pure rows

def documentVersions (docId : ℕ) (doc : WikiDoc) (cursor : Option Text) (limit : Option ℕ) :
    M WikiVersionListOutput := do
  let limit := pageLimit limit
  let cursor ← cursorOrMax svc World.versions cursor
  let found ← versionsFrom svc docId cursor limit (doc.currentVersion+1) (some doc.currentVersion) []
  let rows := found.reverse
  pure ⟨rows.map fun row => versionInfo row.2 row.1,pageCursor svc (rows.map Prod.fst) limit⟩

def listVersionsScoped (access : WikiAccess) (docId : ℕ) (cursor : Option Text)
    (limit : Option ℕ) : M WikiVersionListOutput := do
  let doc ← authorized svc access docId
  documentVersions svc docId doc cursor limit

end Lists

section Verify
variable (svc : Reader)

structure VerifyTarget where
  docId : ℕ
  versionId : ℕ
  start : ℕ
  stop : ℕ

def verifyTarget (input : WikiVerifyInput) : Except WikiError VerifyTarget :=
  match input.uri with
  | some uri =>
    match parseCitationUri uri with
    | none => .error (.invalid ("malformed citation uri: ".toList++uri))
    | some target =>
      if target.space ≠ svc.spaceId then
        .error (.invalid ("citation belongs to space ".toList++target.space++", not ".toList++
          svc.spaceId))
      else .ok ⟨target.docId,target.versionId,target.start,target.stop⟩
  | none =>
    match input.docId, input.versionId, input.byteRange with
    | some docId, some versionId, some range => .ok ⟨docId,versionId,range.1,range.2⟩
    | _, _, _ => .error (.invalid
        "either uri or doc_id+version_id+byte_range is required".toList)

def verifyNotFound : WikiVerifyOutput := ⟨.notFound,none,none,none⟩

def verifyResolved (docId : ℕ) (doc : WikiDoc) (versionId : ℕ) (version : WikiVersion)
    (start stop : ℕ) (expected : Option Text) : WikiVerifyOutput :=
  if version.docId ≠ docId then verifyNotFound
  else match slice version.content start stop with
    | none => ⟨.invalid,some doc.currentVersion,none,none⟩
    | some text =>
      let computed := chunkChecksum svc.toLibrary version.checksum start stop text
      if expected.any (· != computed) then ⟨.invalid,some doc.currentVersion,some computed,none⟩
      else ⟨if versionId = doc.currentVersion then .valid else .superseded,
        some doc.currentVersion,some computed,some (quoteExcerpt text)⟩

def unlessMissing {α : Type} : Except WikiError α → M (Option α)
  | .ok a => pure (some a)
  | .error (.notFound _) => pure none
  | .error e => .fail e

/-- The verification of a citation in a document that the caller may see. -/
def verifyFound (target : VerifyTarget) (expected : Option Text) : Option WikiDoc → M WikiVerifyOutput
  | none => pure verifyNotFound
  | some doc => do
    let version ← attempt (publishedVersion svc.toWikiService target.docId doc target.versionId)
    match ← unlessMissing version with
    | none => pure verifyNotFound
    | some version => pure (verifyResolved svc target.docId doc target.versionId version
        target.start target.stop expected)

def verifyScoped (access : WikiAccess) (input : WikiVerifyInput) : M WikiVerifyOutput := do
  let target ← lift (verifyTarget svc input)
  let found ← attempt (docRecord svc.toWikiService target.docId)
  let found ← unlessMissing found
  verifyFound svc target input.checksum (found.filter fun doc => access.allows doc.aclLabel)

end Verify

end AndaBrain.WikiRead
