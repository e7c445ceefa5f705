import AndaBrain.ProductControl
import AndaBrain.Json
import AndaBrain.Foundation.ConditionalStore
import AndaBrain.Foundation.Utf8Text

/-!
# Durable, conditional memory changes

`product/changes.rs` over one journal that holds the control state, the stored changes and the
discard marks.
-/

set_option autoImplicit false

namespace AndaBrain.Product
open Foundation.Resumption Foundation.ConditionalStore

abbrev Principal := String

def Principal.anonymous : Principal := "2vxsx-fae"

inductive ChangeKind where
  | correct
  | worldChange
  | misrecorded
  | suppress
  | delete
  deriving DecidableEq

def ChangeKind.revises : ChangeKind → Bool
  | .correct => true
  | .worldChange => true
  | _ => false

def ChangeKind.wire : ChangeKind → String
  | .correct => "correct"
  | .worldChange => "world_change"
  | .misrecorded => "misrecorded"
  | .suppress => "suppress"
  | .delete => "delete"

structure ChangeInput where
  operationId : String
  recordId : String
  expectedRevision : ℕ
  kind : ChangeKind
  newValue : Option String
  deriving DecidableEq

structure Target where
  id : String
  revision : ℕ
  kind : String
  deriving DecidableEq

structure RecordSource where
  evidenceId : String
  payloadDigest : Option String
  formationConversation : Option ℕ
  productOperation : Option String
  messageIndex : Option ℕ
  observedAt : Option String
  deriving DecidableEq

structure MemoryRecord where
  id : String
  revision : ℕ
  propositionId : String
  actorId : Option String
  actorKey : Option String
  subject : Json
  predicate : String
  object : Json
  text : String
  subjectLabel : String
  objectLabel : String
  stance : String
  status : String
  storageState : String
  assertedAt : Option String
  validFrom : Option String
  validUntil : Option String
  contextRefs : List String
  updatedAt : String
  sources : List RecordSource
  sourcesComplete : Bool
  deriving DecidableEq

structure ChangePreview where
  record : MemoryRecord
  newValue : Option String
  targets : List Target
  excludedSources : Finset String
  resetsProcessingContext : Bool
  scope : String
  deriving DecidableEq

inductive ChangeState where
  | prepared
  | committing
  | reconciling
  | confirmed
  | discarded
  deriving DecidableEq

structure ChangeReceipt where
  schemaVersion : ℕ
  operationId : String
  operationKey : String
  caller : Principal
  state : ChangeState
  previewDigest : String
  expiresAt : ℕ
  preview : ChangePreview
  replacementRecord : Option String
  sourceEvidence : Option String
  error : Option String
  deriving DecidableEq

structure Request where
  command : String
  parameters : List (String × Json)
  idempotencyKey : Option String
  dryRun : Option Bool
  deriving DecidableEq

structure Response where
  succeeded : Bool
  errorMessage : String
  newHandle : Option String
  inputHandle : Option String
  deriving DecidableEq

structure StoredChange where
  input : ChangeInput
  inputDigest : String
  receipt : ChangeReceipt
  requests : List Request
  completedTargets : Finset String
  deriving DecidableEq

def MemoryRecord.clearContent (record : MemoryRecord) : MemoryRecord :=
  { record with text := "", subjectLabel := "", objectLabel := "",
                subject := .null, object := .null }

namespace StoredChange

def withState (c : StoredChange) (state : ChangeState) : StoredChange :=
  { c with receipt := { c.receipt with state } }

def withPreview (c : StoredChange) (preview : ChangePreview) : StoredChange :=
  { c with receipt := { c.receipt with preview } }

def withError (c : StoredChange) (error : Option String) : StoredChange :=
  { c with receipt := { c.receipt with error } }

def complete (c : StoredChange) (target : String) : StoredChange :=
  { c with completedTargets := insert target c.completedTargets }

def clearRecordContent (c : StoredChange) : StoredChange :=
  c.withPreview { c.receipt.preview with record := c.receipt.preview.record.clearContent }

def clearContent (c : StoredChange) : StoredChange :=
  let c := (c.clearRecordContent).withError none
  let c := c.withPreview { c.receipt.preview with newValue := none }
  { c with input := { c.input with newValue := none }, requests := [] }

end StoredChange

inductive Path where
  | state
  | change (key : String)
  | discarded (key : String)
  deriving DecidableEq

def Entry : Path → Type
  | .state => ControlState
  | .change _ => StoredChange
  | .discarded _ => Bool

instance (p : Path) : DecidableEq (Entry p) :=
  match p with
  | .state => inferInstanceAs (DecidableEq ControlState)
  | .change _ => inferInstanceAs (DecidableEq StoredChange)
  | .discarded _ => inferInstanceAs (DecidableEq Bool)

inductive ElementState where
  | purged
  | archived
  | live (state : String)
  deriving DecidableEq

abbrev Graph := String → Option ElementState

/-- `published` and `seen` live in memory. `seen` holds the keys the published
state has shown as pending: a recovery reads such a key before it has the
gate. `executed` lists the requests the engine was given, with their change. -/
structure World where
  journal : Store Path Entry
  published : ControlState
  seen : List String
  native : Graph
  executed : List (String × Request)

instance : Holds World Path Entry where
  store := World.journal
  withStore w st := { w with journal := st }
  store_withStore _ _ := rfl

structure Env where
  storage : Service String
  now : ℕ
  productRecord : String → Except String MemoryRecord
  addSourceKeys : RecordSource → Finset String → Except String (Finset String)
  deletionTargets : MemoryRecord → Finset String → Except String (List Target × Finset String)
  conceptSchema : String → Except String String
  parseOperations : Request → Except String Unit
  dryRun : Request → Bool
  execute : Request → Graph → Response × Graph
  resetNotes : Except String Unit
  currentSeq : Except String ℕ
  changeKeys : Except String (List String)
  work : Graph → Graph

instance : Serves Env String where
  service := Env.storage
  refused := "precondition failed"
  conflict := "learning journal conditional-write conflict"

structure Library where
  operationDigest : Principal → String → Except String String
  inputDigest : ChangeInput → Except String String
  previewDigest : ChangePreview → Except String String
  timestamp : ℕ → String
  point : String → Option Json

abbrev M := Prog String Env World

def operationKey (lib : Library) (caller : Principal) (id : String) : Except String String :=
  if id.isEmpty || decide (id.utf8ByteSize > 128) ||
      !(id.toList.all fun c => c.isAlphanum || c == '-' || c == '_') then
    .error "invalid_request"
  else do
    let digest ← lib.operationDigest caller id
    pure (String.ofList (digest.toList.drop 7))

def snapshot : M ControlState := query fun _ w => .ok w.published

def publish (state : ControlState) : M Unit :=
  atomic (fun _ w => { w with published := state, seen := state.pending.toList++w.seen })
    (fun _ _ => .ok ())

/-- `Control::save`. The faults of this model are crashes, refused writes and lost
acknowledgements: a read-back that failed too would leave `published` behind what is stored. -/
def save (state : ControlState) : M Unit := do
  match ← read Path.state with
  | none => Prog.fail "memory control state missing"
  | some old =>
    put Path.state state (.update old.version)
    publish state

def getElement (id : String) : M ElementState :=
  query fun i w =>
    match i.storage with
    | .down e => .error e
    | _ =>
      match w.native id with
      | some state => .ok state
      | none => .error "element not found"

def productRecord (id : String) : M MemoryRecord := query fun i _ => i.productRecord id

def addSourceKeys : List RecordSource → Finset String → M (Finset String)
  | [], keys => pure keys
  | source::rest, keys => do
    let keys ← query fun i _ => i.addSourceKeys source keys
    addSourceKeys rest keys

def sourceKeysForRecord (record : MemoryRecord) : M (Finset String) := do
  let keys ← addSourceKeys record.sources ∅
  if keys = ∅ then Prog.fail "unsupported_scope" else pure keys

def deletionTargets (record : MemoryRecord) (sources : Finset String) :
    M (List Target × Finset String) :=
  query fun i _ => i.deletionTargets record sources

def previewScope : String :=
  "Selected claims, their cited input messages and recorded dependents. Background Notes/history are reset; source conversations stop contributing memory. Other independent records, Bot chat/files/logs/backups and already-delivered context are not erased."

def deleteCommand : String :=
  "PURGE :id EXPECT VERSION :version REFERENCE POLICY \"authorized_cascade\" CONFIRM \"PURGE\""

def suppressCommand : String := "TRANSITION :id TO \"archived\" EXPECT VERSION :version"

def correctCommand : String :=
  "MUTATE \x7b CREATE EVIDENCE ?input \x7b CLIENT KEY :source_key SET FIELDS \x7b evidence_class:\"user_statement\", payload: :statement, observed_at: :at \x7d \x7d CREATE CONCEPT ?value \x7b TYPE :object_type NAME :new_value \x7d ASSERT ?new (:subject, :predicate, ?value) \x7bby: :actor, mode:\"stated\", evidence:?input, at: :at, valid: :valid, context: :contexts\x7d TRANSITION :old TO \"superseded\" BY ?new EXPECT VERSION :version CREATE ACTIVITY ?change \x7b SET FIELDS \x7bactivity_class:\"belief_revision\",status:\"completed\",started_at: :at,ended_at: :at\x7d SET STRUCTURAL \x7b(\"inputs\", :old) (\"inputs\", ?input) (\"outputs\", ?new)\x7d \x7d \x7d"

def worldChangeCommand : String :=
  "MUTATE \x7b CREATE EVIDENCE ?input \x7b CLIENT KEY :source_key SET FIELDS \x7b evidence_class:\"user_statement\", payload: :statement, observed_at: :at \x7d \x7d CREATE CONCEPT ?value \x7b TYPE :object_type NAME :new_value \x7d ASSERT ?new (:subject, :predicate, ?value) \x7bby: :actor, mode:\"stated\", evidence:?input, at: :at, context: :contexts\x7d CREATE ACTIVITY ?change \x7b SET FIELDS \x7bactivity_class:\"user_memory_change\",status:\"completed\",started_at: :at,ended_at: :at\x7d SET STRUCTURAL \x7b(\"inputs\", :old) (\"inputs\", ?input) (\"outputs\", ?new)\x7d \x7d \x7d"

def targetRequest (key : String) (kind : ChangeKind) (target : Target) : Request where
  command := if kind = .delete then deleteCommand else suppressCommand
  parameters := [("id",.str target.id),("version",.int target.revision)]
  idempotencyKey := some ("memory-product:"++key++":"++target.id)
  dryRun := none

def correctedValidTime (lib : Library) (record : MemoryRecord) : Except String Json := do
  let from_ ← match record.validFrom.bind lib.point with
    | some point => pure point
    | none =>
      match record.assertedAt with
      | some at_ => pure (.obj [("latest",.str at_)])
      | none => .error "unsupported_scope"
  match record.validUntil.bind lib.point with
  | some until_ => pure (.obj [("from",from_),("until",until_)])
  | none => pure (.obj [("from",from_)])

def optionText : Option String → Json
  | some s => .str s
  | none => .null

def revisionParameters (lib : Library) (key : String) (input : ChangeInput)
    (preview : ChangePreview) (now : ℕ) (schema : String) : List (String × Json) :=
  [("old",.str input.recordId), ("source_key",.str ("memory-product:"++key++":input")),
   ("statement",.obj [("kind",.str input.kind.wire),("new_value",optionText input.newValue),
     ("previous_record",.str input.recordId)]),
   ("at",.str (lib.timestamp now)),("object_type",.str schema),
   ("new_value",optionText input.newValue),("subject",preview.record.subject),
   ("predicate",.str preview.record.predicate),
   ("actor",.obj [("id",optionText preview.record.actorId)]),
   ("contexts",.arr (preview.record.contextRefs.map Json.str))]

def changeRequests (lib : Library) (key : String) (input : ChangeInput)
    (preview : ChangePreview) (now : ℕ) : M (List Request) :=
  if input.kind.revises then do
    match (preview.record.object.get "id").bind Json.asStr with
    | none => Prog.fail "unsupported_scope"
    | some objectId =>
      let schema ← query fun i _ => i.conceptSchema objectId
      let parameters := revisionParameters lib key input preview now schema
      let idempotencyKey := some ("memory-product:"++key++":correct")
      if input.kind = .correct then
        let valid ← lift (correctedValidTime lib preview.record)
        pure [⟨correctCommand,
          parameters++[("version",.int input.expectedRevision),("valid",valid)],
          idempotencyKey,none⟩]
      else pure [⟨worldChangeCommand,parameters,idempotencyKey,none⟩]
  else pure (preview.targets.map (targetRequest key input.kind))

def parseAll : List Request → M Unit
  | [] => pure ()
  | request::rest => do
    query fun i _ => i.parseOperations request
    parseAll rest

/-- A revision is validated against the live schema before it is stored. -/
def dryRun (requests : List Request) : M Unit :=
  match requests with
  | [] => pure ()
  | request::_ =>
    query fun i _ =>
      if i.dryRun { request with dryRun := some true, idempotencyKey := none } then .ok ()
      else .error "unsupported_correction"

def isBlank (text : String) : Bool := text.toList.all Foundation.Utf8Text.isWhitespace

def prepareTargets (caller : Principal) (input : ChangeInput) (record : MemoryRecord)
    (sources : Finset String) : M (List Target × Finset String) :=
  if input.kind.revises then
    if record.status ≠ "active" ∨ record.storageState ≠ "active" ∨
        record.actorKey ≠ some caller ∨ record.stance ≠ "support" then
      Prog.fail "unsupported_scope"
    else pure ([⟨record.id,record.revision,"assertion"⟩],sources)
  else deletionTargets record sources

def newValueRefused (input : ChangeInput) (record : MemoryRecord) : Bool :=
  if input.kind.revises then
    match input.newValue with
    | none => true
    | some text => isBlank text || decide (text.utf8ByteSize > 8192) || text == record.objectLabel
  else input.newValue.isSome

def prepareFresh (lib : Library) (caller : Principal) (input : ChangeInput)
    (key digest : String) : M ChangeReceipt := do
  let record ← productRecord input.recordId
  refuseIf (record.revision ≠ input.expectedRevision) "revision_conflict"
  refuseIf (record.sourcesComplete = false) "unsupported_scope"
  let sources ← sourceKeysForRecord record
  let (targets,excludedSources) ← prepareTargets caller input record sources
  refuseIf (newValueRefused input record = true) "invalid_request"
  let preview : ChangePreview :=
    ⟨record,input.newValue,targets,excludedSources,true,previewScope⟩
  let now ← query fun i _ => .ok i.now
  let requests ← changeRequests lib key input preview now
  parseAll requests
  doIf (input.kind.revises = true) (dryRun requests)
  let previewDigest ← lift (lib.previewDigest preview)
  let receipt : ChangeReceipt :=
    ⟨1,input.operationId,key,caller,.prepared,previewDigest,min (now + 600000) (2^64 - 1),
      preview,none,none,none⟩
  put (Path.change key) ⟨input,digest,receipt,requests,∅⟩ .create
  pure receipt

def prepareChangeInner (lib : Library) (caller : Principal) (input : ChangeInput) :
    M ChangeReceipt := do
  refuseIf (caller = Principal.anonymous) "unauthorized"
  let key ← lift (operationKey lib caller input.operationId)
  refuseIf (input.kind = .misrecorded) "unsupported_capability"
  let digest ← lift (lib.inputDigest input)
  match ← read (Path.discarded key) with
  | some _ => Prog.fail "preview_expired"
  | none =>
    match ← read (Path.change key) with
    | some old =>
      if old.value.inputDigest ≠ digest then Prog.fail "idempotency_conflict"
      else pure old.value.receipt
    | none =>
      let state ← snapshot
      refuseIf (state.available = false) "memory_change_pending"
      prepareFresh lib caller input key digest

def markDiscarded (key : String) : M Unit := do
  match ← read (Path.discarded key) with
  | some _ => pure ()
  | none => put (Path.discarded key) true .create

def ChangeState.discardable : ChangeState → Bool
  | .prepared => true
  | .discarded => true
  | _ => false

def productDiscard (lib : Library) (caller : Principal) (id : String) : M Unit := do
  let key ← lift (operationKey lib caller id)
  let state ← snapshot
  refuseIf (state.pending = some key) "memory_change_pending"
  match ← read (Path.change key) with
  | none => markDiscarded key
  | some stored =>
    refuseIf (stored.value.receipt.state.discardable = false) "memory_change_pending"
    markDiscarded key
    put (Path.change key) (stored.value.withState .discarded).clearContent
      (.update stored.version)

def erasedBy (erased : Finset String) (change : StoredChange) : Bool × Bool :=
  let record := change.receipt.preview.record
  (decide (record.id ∈ erased) || decide (record.propositionId ∈ erased) ||
      record.sources.any fun source => decide (source.evidenceId ∈ erased),
    (change.receipt.replacementRecord.any fun id => decide (id ∈ erased)) ||
      change.receipt.sourceEvidence.any fun id => decide (id ∈ erased))

def clearedChange (correctionErased : Bool) (change : StoredChange) : StoredChange :=
  let change :=
    if change.receipt.state = .prepared then change.withState .discarded else change
  if correctionErased || change.receipt.state != .confirmed then change.clearContent
  else change.clearRecordContent

def clearPreview (erased : Finset String) (key : String) : M Unit := do
  match ← read (Path.change key) with
  | none => pure ()
  | some stored =>
    let (recordErased,correctionErased) := erasedBy erased stored.value
    if recordErased || correctionErased then
      doIf (stored.value.receipt.state = .prepared)
        (markDiscarded stored.value.receipt.operationKey)
      put (Path.change key) (clearedChange correctionErased stored.value)
        (.update stored.version)
    else pure ()

def clearPreviews (erased : Finset String) (except : Option String) : List String → M Unit
  | [] => pure ()
  | key::rest => do
    doIf (except ≠ some key) (clearPreview erased key)
    clearPreviews erased except rest

def clearProductPreviewContent (erased : Finset String) (except : Option String) : M Unit := do
  let keys ← query fun i _ => i.changeKeys
  clearPreviews erased except keys

def execute (key : String) (request : Request) : M Response :=
  atomic
    (fun i w => { w with native := (i.execute request w.native).2,
                         executed := w.executed++[(key,request)] })
    (fun i w => .ok (i.execute request w.native).1)

inductive Applied where
  | through (stored : Versioned StoredChange)
  | reconciling (receipt : ChangeReceipt)

def alreadyApplied (kind : ChangeKind) (state : ElementState) : Bool :=
  state == .purged || (kind == .suppress && state == .archived)

def targetOf (change : StoredChange) (index : ℕ) : Except String String :=
  if change.input.kind.revises then .ok "correction"
  else
    match change.receipt.preview.targets[index]? with
    | some target => .ok target.id
    | none => .error "index out of bounds"

def withHandles (change : StoredChange) (response : Response) : StoredChange :=
  if change.input.kind.revises then
    { change with receipt := { change.receipt with
        replacementRecord := response.newHandle, sourceEvidence := response.inputHandle } }
  else change

def reread (key : String) : M (Versioned StoredChange) := do
  match ← read (Path.change key) with
  | none => Prog.fail "memory change missing"
  | some stored => pure stored

def foundApplied (kind : ChangeKind) (target : String) : M Bool :=
  if kind.revises then pure false
  else do
    let state ← getElement target
    pure (alreadyApplied kind state)

def applyRequest (key target : String) (request : Request)
    (stored : Versioned StoredChange) : M Applied := do
  let done ← foundApplied stored.value.input.kind target
  if done then
    put (Path.change key) (stored.value.complete target) (.update stored.version)
    let stored ← reread key
    pure (.through stored)
  else
    let response ← execute key request
    if response.succeeded then
      put (Path.change key) ((withHandles stored.value response).complete target)
        (.update stored.version)
      let stored ← reread key
      pure (.through stored)
    else
      put (Path.change key)
        ((stored.value.withState .reconciling).withError (some response.errorMessage))
        (.update stored.version)
      let stored ← reread key
      pure (.reconciling stored.value.receipt)

def applyRequests (key : String) : ℕ → List Request → Versioned StoredChange → M Applied
  | _, [], stored => pure (.through stored)
  | index, request::rest, stored => do
    let target ← lift (targetOf stored.value index)
    if target ∈ stored.value.completedTargets then applyRequests key (index + 1) rest stored
    else
      match ← applyRequest key target request stored with
      | .reconciling receipt => pure (.reconciling receipt)
      | .through stored => applyRequests key (index + 1) rest stored

def verifiedState (kind : ChangeKind) : ElementState :=
  if kind = .delete then .purged else .archived

def verifyTargets (kind : ChangeKind) : List Target → M Unit
  | [] => pure ()
  | target::rest => do
    let state ← getElement target.id
    refuseIf (state ≠ verifiedState kind) "memory change verification incomplete"
    verifyTargets kind rest

def verifyChange (change : StoredChange) : M Unit :=
  if change.input.kind.revises then do
    let old ← productRecord change.input.recordId
    refuseIf (old.status ≠ (if change.input.kind = .correct then "superseded" else "active") ∨
      change.receipt.replacementRecord = none) "correction verification incomplete"
  else verifyTargets change.input.kind change.receipt.preview.targets

def confirmedChange (change : StoredChange) : StoredChange :=
  let change := (change.withState .confirmed).withError none
  if change.input.kind = .delete then change.clearContent else change

def finishChange (key : String) (stored : Versioned StoredChange) : M ChangeReceipt := do
  query fun i _ => i.resetNotes
  verifyChange stored.value
  doIf (stored.value.input.kind = .delete)
    (clearProductPreviewContent
      (stored.value.receipt.preview.targets.map Target.id).toFinset (some key))
  put (Path.change key) (confirmedChange stored.value) (.update stored.version)
  let control ← snapshot
  let seq ← query fun i _ => i.currentSeq
  save (control.release seq)
  pure (confirmedChange stored.value).receipt

def takeFence (key : String) (stored : StoredChange) : M Unit := do
  let control ← snapshot
  match control.pending with
  | some pending => refuseIf (pending ≠ key) "memory_change_pending"
  | none =>
    let control ← lift (control.fence key stored.receipt.preview.excludedSources)
    save control

def applyChangeLocked (key : String) : M ChangeReceipt := do
  let stored ← reread key
  takeFence key stored.value
  match ← applyRequests key 0 stored.value.requests stored with
  | .reconciling receipt => pure receipt
  | .through stored => finishChange key stored

def commitTargets (kind : ChangeKind) (current : MemoryRecord) (keys : Finset String) :
    M (List Target × Finset String) :=
  if kind.revises then pure ([⟨current.id,current.revision,"assertion"⟩],keys)
  else deletionTargets current keys

/-- A prepared change is committed only while its preview still describes the
record, its targets and its sources. -/
def admitCommit (key : String) (stored : Versioned StoredChange) : M Unit := do
  let now ← query fun i _ => .ok i.now
  refuseIf (now > stored.value.receipt.expiresAt) "preview_expired"
  let current ← productRecord stored.value.input.recordId
  refuseIf (current.revision ≠ stored.value.input.expectedRevision ∨
    current ≠ stored.value.receipt.preview.record) "revision_conflict"
  let keys ← sourceKeysForRecord current
  let (targets,keys) ← commitTargets stored.value.input.kind current keys
  refuseIf (targets ≠ stored.value.receipt.preview.targets ∨
    keys ≠ stored.value.receipt.preview.excludedSources) "revision_conflict"
  let control ← snapshot
  refuseIf (control.available = false) "memory_change_pending"
  let control ← lift (control.fence key stored.value.receipt.preview.excludedSources)
  save control
  put (Path.change key) (stored.value.withState .committing) (.update stored.version)

def productCommit (lib : Library) (caller : Principal) (id previewDigest : String) :
    M ChangeReceipt := do
  let key ← lift (operationKey lib caller id)
  match ← read (Path.change key) with
  | none => Prog.fail "not_found"
  | some stored =>
    refuseIf (stored.value.receipt.caller ≠ caller) "not_found"
    refuseIf (stored.value.receipt.previewDigest ≠ previewDigest) "revision_conflict"
    refuseIf (stored.value.receipt.state = .discarded) "preview_expired"
    let state ← snapshot
    if stored.value.receipt.state = .confirmed ∧ state.pending = none then
      pure stored.value.receipt
    else if state.pending = some key then applyChangeLocked key
    else do
      doIf (stored.value.receipt.state = .prepared) (admitCommit key stored)
      applyChangeLocked key

def recoverProductChange (key : String) : M Unit := do
  let seen ← query fun _ w => .ok w.seen
  if key ∈ seen then
    let _ ← applyChangeLocked key
    pure ()
  else pure ()

def suppressSources (keys : Finset String) : M Unit := do
  let control ← snapshot
  match control.suppress keys with
  | none => pure ()
  | some control =>
    refuseIf (control.suppressed.card > suppressionCapacity)
      "source suppression capacity exhausted"
    save control

def forgetPreviews (erased : Finset String) : M Unit := do
  let control ← snapshot
  refuseIf (control.available = false) "memory_change_pending"
  atomic (fun i w => { w with native := i.work w.native }) (fun _ _ => .ok ())
  clearProductPreviewContent erased none

end AndaBrain.Product
