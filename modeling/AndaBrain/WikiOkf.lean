import Mathlib.Data.String.Basic
import AndaBrain.Foundation.SortedMap
import AndaBrain.WikiStore

/-!
# OKF bundles: import

`wiki/okf.rs`: a bundle is a list of files. The path of a file gives the slug of its document, its
frontmatter the native fields and the metadata, its body the content.
-/

set_option autoImplicit false

namespace AndaBrain.WikiOkf
open Foundation Foundation.Resumption Foundation.Utf8Text
open WikiText WikiStore

def maxImportEntries : ℕ := 65536
def frontmatterKey : Text := "x_okf_frontmatter".toList
def okfTypeKey : Text := "okf_type".toList

abbrev Fields := SortedMap String Json

structure Yaml where
  parse : Text → Except Text Fields
  emit : Fields → Except Text Text

structure BundleEntry where
  path : Text
  content : Text

inductive ImportStatus where
  | created
  | updated
  | unchanged
  deriving DecidableEq

structure ImportedDoc where
  path : Text
  docId : ℕ
  versionId : ℕ
  status : ImportStatus
  deriving DecidableEq

structure ImportSkip where
  path : Text
  reason : Text
  deriving DecidableEq

structure ImportOutput where
  created : ℕ
  updated : ℕ
  unchanged : ℕ
  docs : List ImportedDoc
  skipped : List ImportSkip

def lowercase (text : Text) : Text := text.map Char.toLower

def stripSuffix (suffix text : Text) : Option Text :=
  if suffix.isSuffixOf text then some (text.take (text.length-suffix.length)) else none

def conceptPath (raw : Text) : Option Text := do
  let path := (trim raw).map fun c => if c = '\\' then '/' else c
  let concept ← stripSuffix ".md".toList path
  if concept.isEmpty || path.head? == some '/' then none
  else
    let segments := concept.splitOn '/'
    if segments.any (fun s => (trim s).isEmpty || s == ".".toList || s == "..".toList) then none
    else do
      let last ← segments.getLast?
      let base := lowercase (trim last)
      if base == "index".toList || base == "log".toList then none else some concept

def skipReason (path : Text) : Text :=
  let lower := lowercase (trim path)
  if !".md".toList.isSuffixOf lower then "not a markdown file".toList
  else if lower == "index.md".toList || lower == "log.md".toList ||
      "/index.md".toList.isSuffixOf lower || "/log.md".toList.isSuffixOf lower then
    "reserved OKF file".toList
  else "invalid path".toList

def closes (line : Text) : Bool := trimEnd line == "---".toList || trimEnd line == "...".toList

def splitBlock (before : Text) : List Text → Option (Text × Text)
  | [] => none
  | line::rest => if closes line then some (before,rest.flatten) else splitBlock (before++line) rest

def stripPrefixOf (front text : Text) : Option Text :=
  if front.isPrefixOf text then some (text.drop front.length) else none

def splitFrontmatter (content : Text) : Option Text × Text :=
  let stripped := stripMark content
  let block := (stripPrefixOf "---".toList stripped).bind fun rest =>
    (stripPrefixOf "\r\n".toList rest).or (stripPrefixOf "\n".toList rest)
  match block.bind fun text => splitBlock [] (splitInclusive '\n' text) with
  | some (raw,body) => (some (trimEndMatches (· == '\n') (replaceCrlf raw)),body)
  | none => (none,stripped)

def provenance (key : String) : Bool := "x_anda_".toList.isPrefixOf key.toList

def parseFrontmatter (yaml : Yaml) (raw : Text) : Except WikiError Fields :=
  if (trim raw).isEmpty then .ok .empty
  else match yaml.parse raw with
    | .error message => .error (.invalid ("invalid YAML frontmatter: ".toList++message))
    | .ok fields => .ok (fields.retain (!provenance ·))

def frontmatterFields (yaml : Yaml) : Option Text → Except WikiError Fields
  | some raw => parseFrontmatter yaml raw
  | none => .ok .empty

def takeString (fields : Fields) (key : String) : Except WikiError (Option Text × Fields) :=
  match fields.lookup key with
  | none => .ok (none,fields.erase key)
  | some .null => .ok (none,fields.erase key)
  | some (.str value) =>
    .ok (if (trim value.toList).isEmpty then none else some (trim value.toList),fields.erase key)
  | some _ => .error (.invalid ("frontmatter ".toList++key.toList++" must be a string".toList))

def tagText : Json → Except WikiError Text
  | .str tag => .ok tag.toList
  | _ => .error (.invalid "frontmatter tags must contain strings".toList)

def takeTags (fields : Fields) : Except WikiError (List Text × Fields) :=
  match fields.lookup "tags" with
  | none => .ok ([],fields.erase "tags")
  | some .null => .ok ([],fields.erase "tags")
  | some (.arr tags) => do
    let tags ← tags.mapM tagText
    pure (tags,fields.erase "tags")
  | some _ => .error (.invalid "frontmatter tags must be a list".toList)

/-- The metadata of a file: its type, and the fields that the importer does not know. -/
def importedMetadata (kind : Option Text) (fields : Fields) : Metadata :=
  let unknown : Metadata :=
    if fields.isEmpty then ∅ else Finmap.insert frontmatterKey (.obj fields.entries) ∅
  match kind.filter (· != "Document".toList) with
  | some kind => unknown.insert okfTypeKey (.str (String.ofList kind))
  | none => unknown

def importInput (svc : WikiService) (yaml : Yaml) (ns concept : Text) (entry : BundleEntry) :
    Except WikiError CommitInput := do
  let split := splitFrontmatter entry.content
  let fields ← frontmatterFields yaml split.1
  let (title,fields) ← takeString fields "title"
  let (tags,fields) ← takeTags fields
  let (resource,fields) ← takeString fields "resource"
  let (kind,fields) ← takeString fields "type"
  pure {
    docId := none
    parentVersion := none
    ns := some ns
    slug := some (slugifyPath svc.toLibrary concept)
    title := (title.or (firstHeadingTitle split.2)).getD ((concept.splitOn '/').getLast?.getD concept)
    content := split.2
    tags := some tags
    aclLabel := none
    sourceUri := some (resource.getD [])
    message := some ("okf import: ".toList++entry.path)
    metadata := some (importedMetadata kind fields) }

/-- A file replaces the importer's fields and keeps the rest of the metadata. -/
def mergeMetadata (stored imported : Metadata) : Metadata :=
  imported ∪ (stored.erase frontmatterKey).erase okfTypeKey

def mergedInput (input : CommitInput) (id : ℕ) (doc : WikiDoc) : CommitInput :=
  { input with
    docId := some id
    parentVersion := some doc.currentVersion
    metadata := some (mergeMetadata doc.metadata (input.metadata.getD ∅)) }

def importStatus (out : CommitOutput) : ImportStatus :=
  if out.created then .created else if out.idempotent then .unchanged else .updated

section Import
variable (svc : WikiService) (yaml : Yaml)

/-- The commit of a file: as it stands, or merged into the document of its slug. -/
def mergeInto (ns slug : Text) (input : CommitInput) : M CommitInput := do
  match ← findDocIdBySlug ns slug with
  | none => pure input
  | some id => do
    let doc ← docRecord svc id
    let _ ← lift ((mergedInput input id doc).validate svc)
    pure (mergedInput input id doc)

def importPrepared (actor ns slug path : Text) (p : Prepared) (now : ℕ) : M ImportedDoc := do
  let input ← mergeInto svc ns slug p.input
  let out ← commitPrepared svc actor { p with input := input } now
  pure ⟨path,out.doc.id,out.version.id,importStatus out⟩

def importEntry (actor ns : Text) (entry : BundleEntry) (now : ℕ) : M (Option ImportedDoc) :=
  match conceptPath entry.path with
  | none => pure none
  | some concept => do
    let input ← lift (importInput svc yaml ns concept entry)
    let p ← lift (prepareCommit svc input)
    let doc ← importPrepared svc actor ns (slugifyPath svc.toLibrary concept) entry.path p now
    pure (some doc)

/-- `Display` of the errors. -/
def errorText : WikiError → Text
  | .conflict version checksum by' at' =>
    "commit conflict: document is at version ".toList++decimal version++" (checksum ".toList++
      checksum++", updated by ".toList++by'++" at ".toList++decimal at'++
      "); re-read, merge, and retry with parent_version=".toList++decimal version
  | .tooLarge size max =>
    "content too large: ".toList++decimal size++" bytes exceeds the ".toList++decimal max++
      " byte limit; split the document".toList
  | .notFound message => "not found: ".toList++message
  | .invalid message => "invalid: ".toList++message
  | .db message => "db error: ".toList++message
  | .panic => []

def ImportOutput.record (out : ImportOutput) (path : Text) :
    Except WikiError (Option ImportedDoc) → ImportOutput
  | .ok (some doc) =>
    { out with
      created := out.created+(if doc.status = .created then 1 else 0)
      updated := out.updated+(if doc.status = .updated then 1 else 0)
      unchanged := out.unchanged+(if doc.status = .unchanged then 1 else 0)
      docs := out.docs++[doc] }
  | .ok none => { out with skipped := out.skipped++[⟨path,skipReason path⟩] }
  | .error e => { out with skipped := out.skipped++[⟨path,errorText e⟩] }

def importEntries (actor ns : Text) (now : ℕ) : List BundleEntry → ImportOutput → M ImportOutput
  | [], out => pure out
  | entry::rest, out => do
    let result ← attempt (importEntry svc yaml actor ns entry now)
    importEntries actor ns now rest (out.record entry.path result)

def bundleNamespace (ns : Option Text) : Text := (normalizeOpt ns).getD defaultNamespace

def importBundle (actor : Text) (ns : Option Text) (entries : List BundleEntry) (now : ℕ) :
    M ImportOutput := do
  refuseIf (entries = []) (.invalid "bundle has no entries".toList)
  refuseIf (maxImportEntries < entries.length) (.invalid ("bundle has ".toList++
    decimal entries.length++" entries, limit is ".toList++decimal maxImportEntries))
  let out ← importEntries svc yaml actor (bundleNamespace ns) now entries ⟨0,0,0,[],[]⟩
  let _ ← writeEvent .importCompleted none none actor
    [("namespace",.str (String.ofList (bundleNamespace ns))),("created",.int out.created),
      ("updated",.int out.updated),("unchanged",.int out.unchanged),
      ("skipped",.int out.skipped.length)] now
  pure out

end Import

end AndaBrain.WikiOkf
