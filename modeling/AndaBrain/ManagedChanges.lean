import AndaBrain.Foundation.SortedMap
import AndaBrain.Foundation.Throwing
import AndaBrain.WorkerProduct

/-!
# Managed changes of every kind

The changes of `product.ts` with the texts they hold. Each storage or native call may throw, and
what was written before stays.
-/

set_option autoImplicit false

namespace AndaBrain.ManagedChanges
open Foundation Foundation.Throwing
open WorkerMemory (ElementId ElementState Failure fail Target StoredBinding RecordSource
  PendingScrub ChangeState)
open Product (SourceIdentity)

inductive ChangeKind where
  | correct
  | worldChange
  | misrecorded
  | suppress
  | delete
  deriving DecidableEq

def revises (kind : ChangeKind) : Bool := decide (kind = .correct ∨ kind = .worldChange)

structure Auth where
  principalId : String
  grants : String
  deriving DecidableEq

structure ChangeInput where
  operationId : String
  recordId : ElementId
  expectedRevision : ℕ
  kind : ChangeKind
  newValue : Option String
  deriving DecidableEq

/-- The subject or object of a Proposition: an element, or another value by its JSON text. -/
inductive Endpoint where
  | null
  | element (id : ElementId)
  | literal (json : String)
  deriving DecidableEq

def Endpoint.id? : Endpoint → Option ElementId
  | .element id => some id
  | _ => none

structure Element extends WorkerMemory.Row where
  readers : Auth → Bool
  name : String
  key : String
  schemaRef : String
  predicate : String
  subject : Endpoint
  object : Endpoint
  stance : String
  status : String
  assertedAt : Option String
  validFrom : Option String
  validUntil : Option String
  contextRefs : List String
  updatedAt : String

structure Nexus where
  space : String
  seq : ℕ
  load : ElementId → Option Element
  referrers : ElementId → List ElementId
  internal : ℕ

def Nexus.readBy (nexus : Nexus) (auth : Auth) : WorkerMemory.Nexus where
  space := nexus.space
  seq := nexus.seq
  load id := (nexus.load id).map fun e =>
    { e.toRow with
      readable := e.readers auth
      endpoints := e.subject.id?.toList++e.object.id?.toList }
  referrers := nexus.referrers
  internal := nexus.internal

structure MemoryRecord extends WorkerMemory.MemoryRecord where
  actorKey : Option String
  subject : Endpoint
  predicate : String
  object : Endpoint
  text : String
  subjectLabel : String
  objectLabel : String
  stance : String
  status : String
  storageState : ElementState
  assertedAt : Option String
  validFrom : Option String
  validUntil : Option String
  contextRefs : List String
  updatedAt : String
  deriving DecidableEq

structure ChangePreview where
  record : MemoryRecord
  newValue : Option String
  targets : List Target
  excludedSources : Finset String
  deriving DecidableEq

structure Statement where
  kind : ChangeKind
  newValue : String
  previousRecord : ElementId
  deriving DecidableEq

/-- The parameters of a revision; `version` and `valid` are those of a correction only. -/
structure ReviseParameters where
  old : ElementId
  sourceKey : String
  statement : Statement
  observedAt : String
  objectType : String
  newValue : String
  subject : Endpoint
  predicate : String
  actor : Option ElementId
  contexts : List String
  version : Option ℕ
  valid : Option (String × Option String)
  deriving DecidableEq

inductive Request where
  | purge (id : ElementId) (version : ℕ)
  | archive (id : ElementId) (version : ℕ)
  | revise (parameters : ReviseParameters)
  deriving DecidableEq

inductive Done where
  | correction
  | target (id : ElementId)
  deriving DecidableEq

structure StoredChange where
  input : ChangeInput
  auth : Auth
  caller : String
  state : ChangeState
  previewDigest : String
  expiresAt : ℕ
  preview : ChangePreview
  replacementRecord : Option ElementId
  sourceEvidence : Option ElementId
  error : Option String
  requests : List Request
  completed : List Done
  deriving DecidableEq

def StoredChange.kind (change : StoredChange) : ChangeKind := change.input.kind

structure Control where
  epoch : ℕ
  pending : Option String
  deriving DecidableEq

/-- A native request as it was executed: for which change, and what was stored then. -/
structure Execution where
  key : String
  request : Request
  control : Control
  change : Option StoredChange

structure Release where
  key : String
  change : Option StoredChange
  nexus : Nexus

/-- A purge as it was reported: the deletion it was a request of, what the scrub of it is given, the
elements created with it, and what was stored then. -/
structure Erasure where
  owner : Option String
  purged : List ElementId
  scope : List ElementId
  created : List ElementId
  earlier : List ElementId
  pending : Option String
  changes : SortedMap String StoredChange

/-- The result of a mutation: whether it committed, the handles `new` and `input`, and the
elements it reports as purged. -/
structure Outcome where
  committed : Bool
  new : Option ElementId
  input : Option ElementId
  purged : List ElementId

structure Engine where
  permits : Nexus → Auth → Bool
  mutate : Nexus → Auth → Request → Option String → Nexus × Except Failure Outcome

/-- Digests, the clock's text, and the readers over text and stored timestamps. -/
structure Site where
  anonymous : String
  previewDigest : ChangePreview → String
  changeKey : String → String → String
  statementDigest : Statement → String
  isoOf : ℕ → String
  clip : String → String
  localName : String → String
  blank : String → Bool
  endpoint : String → Option String
  latest : String → String

structure World where
  nexus : Nexus
  control : Control
  sources : String → Option SourceIdentity
  evidence : String → ℕ → Option StoredBinding
  suppressed : Finset String
  changes : SortedMap String StoredChange
  scrub : Option PendingScrub
  executed : List Execution
  released : List Release
  erasures : List Erasure
  since : String → List ElementId
  calls : ℕ
  faults : ℕ → Bool

def World.store (w : World) (key : String) (change : StoredChange) : World :=
  { w with changes := w.changes.insert key change }

abbrev Action (α : Type) : Type := Throwing World Failure α

def ioFailure : Failure := ⟨none,"storage"⟩

def call : Action Unit := fun w =>
  ({ w with calls := w.calls+1 },if w.faults w.calls then .error ioFailure else .ok ())

def putChange (key : String) (change : StoredChange) : Action Unit := do
  call
  update fun w => w.store key change

def putControl (control : Control) : Action Unit := do
  call
  update fun w =>
    { w with
      control
      released := w.released++
        ((w.control.pending.filter fun key => decide (control.pending ≠ some key)).toList.map
          fun key => ⟨key,w.changes.lookup key,w.nexus⟩) }

def find (key reason : String) : Action StoredChange := do
  let w ← read
  match w.changes.lookup key with
  | none => throwing ⟨none,reason⟩
  | some stored => pure stored

section
variable (site : Site)

def StoredChange.product (change : StoredChange) : WorkerMemory.StoredChange where
  delete := decide (change.kind = .delete)
  record := change.input.recordId
  revision := change.input.expectedRevision
  state := change.state
  previewDigest := change.previewDigest
  expiresAt := change.expiresAt
  preview := ⟨change.preview.record.toMemoryRecord,change.preview.targets,
    change.preview.excludedSources⟩
  statement := match change.requests with
    | .revise parameters::_ => some (site.statementDigest parameters.statement)
    | _ => none
  requests := !change.requests.isEmpty
  completed := change.completed.filterMap fun
    | .correction => none
    | .target id => some id
  replacementRecord := change.replacementRecord
  sourceEvidence := change.sourceEvidence

def World.product (w : World) : WorkerMemory.ProductStore where
  epoch := w.control.epoch
  pending := w.control.pending
  scrub := w.scrub
  sources := w.sources
  evidence := w.evidence
  suppressed := w.suppressed
  changes key := (w.changes.lookup key).map (StoredChange.product site)

def check (w : World) (epoch : ℕ) : Except Failure Unit := (w.product site).check epoch

def begin (w : World) (source : Option SourceIdentity) (origin : Option String) :
    Except Failure (World × ℕ) := do
  let (product,epoch) ← (w.product site).begin source origin
  pure ({ w with sources := product.sources },epoch)

end

/-- `suppress`: the puts of its keys as one storage call, which writes all of them or none. -/
def suppress (keys : Finset String) : Action Unit := do
  call
  update fun w => { w with suppressed := w.suppressed ∪ keys }

section
variable (site : Site) (engine : Engine)

def invalidate : Action Unit := do
  let w ← read
  ofExcept (check site w w.control.epoch)
  if w.control.epoch+1 > WorkerMemory.maxSafeInteger then throwing ⟨none,"epoch_exhausted"⟩
  else do
    putControl { w.control with epoch := w.control.epoch+1 }
    -- clearMaintenanceContext
    call

def session (w : World) (auth : Auth) : Except Failure Unit :=
  if auth.principalId.isEmpty || auth.principalId == site.anonymous then fail "unauthorized"
  else if engine.permits w.nexus auth then .ok ()
  else fail "not_permitted"

def label (w : World) (endpoint : Endpoint) : String :=
  match endpoint with
  | .null => "null"
  | .literal json => site.clip json
  | .element id =>
    match w.nexus.load id with
    | some row =>
      if id.kind = .concept then site.clip row.name
      else site.clip ("\x7b\"id\":\""++id.text++"\"\x7d")
    | none => ""

def record (w : World) (auth : Auth) (id : ElementId) : Except Failure MemoryRecord := do
  session site engine w auth
  let read ← WorkerMemory.readRecord (w.nexus.readBy auth) (w.product site) id
  match w.nexus.load id, w.nexus.load read.propositionId with
  | some row, some proposition =>
    let subject := label site w proposition.subject
    let object := label site w proposition.object
    pure
      { read with
        actorKey := (read.actor.filter fun actor => decide (actor.kind = .concept)).bind fun actor =>
          (w.nexus.load actor).map Element.key
        subject := proposition.subject
        predicate := proposition.predicate
        object := proposition.object
        text := subject++" · "++site.localName proposition.predicate++" · "++object
        subjectLabel := subject
        objectLabel := object
        stance := row.stance
        status := row.status
        storageState := row.state
        assertedAt := row.assertedAt
        validFrom := row.validFrom
        validUntil := row.validUntil
        contextRefs := row.contextRefs
        updatedAt := row.updatedAt }
  | _, _ => fail "not_found"

def preview (w : World) (auth : Auth) (input : ChangeInput) : Except Failure ChangePreview := do
  let record ← record site engine w auth input.recordId
  if record.revision ≠ input.expectedRevision then fail "revision_conflict"
  else if !record.sourcesComplete then fail "unsupported_scope"
  else
    let keys ← record.sources.mapM (WorkerMemory.keysForSource (w.product site))
    let cited := keys.foldl (· ∪ ·) ∅
    if revises input.kind then
      if record.status ≠ "active" ∨ record.storageState ≠ .active ∨ record.stance ≠ "support" ∨
          record.actorKey ≠ some auth.principalId then fail "unsupported_scope"
      else
        match input.newValue with
        | none => fail "invalid_request"
        | some value =>
          if site.blank value || decide (value.utf8ByteSize > 8192) ||
              decide (value = record.objectLabel) then fail "invalid_request"
          else pure ⟨record,some value,[⟨record.id,record.revision⟩],cited⟩
    else if input.newValue.isSome then fail "invalid_request"
    else
      let (found,sources) ← WorkerMemory.closure (w.nexus.readBy auth) (w.product site) 128 [] []
        cited [record.propositionId]
      pure ⟨record,none,WorkerMemory.sortTargets found,sources⟩

def keptInterval (record : MemoryRecord) : Except Failure (String × Option String) :=
  let stop := record.validUntil.bind site.endpoint
  match record.validFrom.bind site.endpoint with
  | some start => .ok (start,stop)
  | none =>
    match record.assertedAt with
    | some asserted => .ok (site.latest asserted,stop)
    | none => fail "unsupported_scope"

def requests (w : World) (now : ℕ) (auth : Auth) (key : String) (input : ChangeInput)
    (preview : ChangePreview) : Except Failure (List Request) :=
  if !revises input.kind then
    .ok (preview.targets.map fun target =>
      if input.kind = .delete then .purge target.id target.revision
      else .archive target.id target.revision)
  else
    match preview.record.object with
    | .element object => do
      let row ← WorkerMemory.readElement (w.nexus.readBy auth) object
      if object.kind ≠ .concept then fail "unsupported_scope"
      else
        let value := input.newValue.getD ""
        let parameters : ReviseParameters :=
          { old := input.recordId
            sourceKey := "memory-product:"++key++":input"
            statement := ⟨input.kind,value,input.recordId⟩
            observedAt := site.isoOf now
            objectType := ((w.nexus.load object).map Element.schemaRef).getD row.className
            newValue := value
            subject := preview.record.subject
            predicate := preview.record.predicate
            actor := preview.record.actor
            contexts := preview.record.contextRefs
            version := none
            valid := none }
        if input.kind = .correct then
          let valid ← keptInterval site preview.record
          pure [.revise { parameters with
            version := some input.expectedRevision, valid := some valid }]
        else pure [.revise parameters]
    | _ => fail "unsupported_scope"

def isOperationId (id : String) : Bool :=
  !id.isEmpty && decide (id.length ≤ 128) &&
    id.toList.all fun c => c.isAlphanum || c == '_' || c == '-'

def keyOf (w : World) (auth : Auth) (operation : String) : Except Failure String := do
  session site engine w auth
  if !isOperationId operation then fail "invalid_request"
  else pure (site.changeKey auth.principalId operation)

/-! ## What a change keeps of its texts -/

def clearRecord (change : StoredChange) : StoredChange :=
  { change with preview :=
      { change.preview with record :=
          { change.preview.record with
            text := "", subjectLabel := "", objectLabel := ""
            subject := .null, object := .null, endpoints := [] } } }

def clearContent (change : StoredChange) : StoredChange :=
  let cleared := clearRecord change
  { cleared with
    preview := { cleared.preview with newValue := none }
    error := none
    requests := [] }

def expired (w : World) (now : ℕ) (key : String) (change : StoredChange) : Bool :=
  decide (change.state = .prepared ∧ change.expiresAt < now ∧ w.control.pending ≠ some key)

/-- `expire`: the change as it is after, stored when it has changed. -/
def expire (now : ℕ) (key : String) (change : StoredChange) : Action StoredChange := do
  let w ← read
  if expired w now key change then do
    let ended := clearContent { change with state := .discarded }
    putChange key ended
    pure ended
  else pure change

def oldErased (ids : List ElementId) (change : StoredChange) : Bool :=
  decide (change.preview.record.id ∈ ids ∨ change.preview.record.propositionId ∈ ids ∨
    ∃ source ∈ change.preview.record.sources, source.evidenceId ∈ ids)

def replacementErased (ids : List ElementId) (change : StoredChange) : Bool :=
  change.replacementRecord.any (fun id => decide (id ∈ ids)) ||
    change.sourceEvidence.any (fun id => decide (id ∈ ids))

def scrubbed (ids : List ElementId) (change : StoredChange) : StoredChange :=
  let ended := if change.state = .prepared then { change with state := .discarded } else change
  if replacementErased ids change || decide (ended.state ≠ .confirmed) then clearContent ended
  else clearRecord ended

def scrubOne (now : ℕ) (ids : List ElementId) (key : String) (stored : StoredChange) :
    Action Unit := do
  let related ← expire now key stored
  if oldErased ids related || replacementErased ids related then
    putChange key (scrubbed ids related)
  else pure ()

def putScrub (scrub : Option PendingScrub) : Action Unit := do
  call
  update fun w => { w with scrub }

/-- A cleanup that fails is done again: what it is given is stored with what is left to do. -/
def openScrub (erased : List ElementId) (but : Option String) : Action (List ElementId) := do
  call
  let w ← read
  let ids := erased++(w.scrub.map PendingScrub.ids).getD []
  putScrub (some ⟨ids,but⟩)
  pure ids

def scrubAll (now : ℕ) (ids : List ElementId) (but : Option String) : Action Unit := do
  let w ← read
  each (fun entry : String × StoredChange => do
    -- a page of the journal
    call
    if but = some entry.1 then pure () else scrubOne now ids entry.1 entry.2) w.changes.entries
  putScrub none

def scrubChanges (now : ℕ) (erased : List ElementId) (but : Option String) : Action Unit := do
  let ids ← openScrub erased but
  scrubAll now ids but

/-! ## The entry points -/

def showChange (now : ℕ) (auth : Auth) (operation : String) : Action StoredChange := do
  let w ← read
  let key ← ofExcept (keyOf site engine w auth operation)
  let stored ← find key "not_found"
  let stored ← expire now key stored
  let w ← read
  ofExcept (session site engine w auth)
  let record := stored.preview.record
  let _ ← ofExcept ((stored.preview.targets.map Target.id++record.propositionId::
    (record.sources.map RecordSource.evidenceId++record.subject.id?.toList++
      record.object.id?.toList++record.actor.toList)).mapM
        (WorkerMemory.readElement (w.nexus.readBy auth)))
  pure stored

/-- The purge of a request of a change, which is scrubbed when the change is a deletion. -/
def erasureOf (w : World) (key : String) (outcome : Outcome) : Erasure :=
  let deletion := (w.changes.lookup key).filter fun change => decide (change.kind = .delete)
  { owner := deletion.map fun _ => key
    purged := outcome.purged
    scope := (deletion.map fun change => change.preview.targets.map Target.id).getD []
    created := outcome.new.toList++outcome.input.toList
    earlier := w.since key
    pending := w.control.pending
    changes := w.changes }

def native (key : String) (auth : Auth) (request : Request) (idempotencyKey : String) :
    Action Outcome := do
  call
  let w ← read
  let (nexus,answer) := engine.mutate w.nexus auth request (some idempotencyKey)
  update fun w =>
    { w with
      nexus
      executed := w.executed++[⟨key,request,w.control,w.changes.lookup key⟩]
      erasures := match answer with
        | .ok outcome => w.erasures++[erasureOf w key outcome]
        | .error _ => w.erasures
      since := match answer with
        | .ok outcome => fun k => w.since k++outcome.purged
        | .error _ => w.since }
  ofExcept answer

def dryRun (auth : Auth) (request : Request) : Action Unit := do
  call
  let w ← read
  let (nexus,answer) := engine.mutate w.nexus auth request none
  update fun w => { w with nexus }
  let _ ← ofExcept answer
  pure ()

def prepare (now : ℕ) (auth : Auth) (input : ChangeInput) : Action StoredChange := do
  if input.expectedRevision < 1 then throwing ⟨none,"invalid_request"⟩
  else if input.kind = .misrecorded then throwing ⟨none,"unsupported_capability"⟩
  else do
    let w ← read
    let key ← ofExcept (keyOf site engine w auth input.operationId)
    match w.changes.lookup key with
    | some old => do
      let old ← expire now key old
      if old.state = .discarded then throwing ⟨none,"preview_expired"⟩
      else if old.input ≠ input then throwing ⟨none,"idempotency_conflict"⟩
      else showChange site engine now auth input.operationId
    | none => do
      ofExcept (check site w w.control.epoch)
      let preview ← ofExcept (preview site engine w auth input)
      let requests ← ofExcept (requests site w now auth key input preview)
      each (dryRun engine auth) requests
      let stored : StoredChange :=
        { input, auth
          caller := auth.principalId
          state := .prepared
          previewDigest := site.previewDigest preview
          expiresAt := now+WorkerMemory.previewMs
          preview
          replacementRecord := none
          sourceEvidence := none
          error := none
          requests
          completed := [] }
      -- nothing was purged since this one was stored
      update fun w => { w with since := fun k => if k = key then [] else w.since k }
      putChange key stored
      pure stored

def discard (auth : Auth) (operation : String) : Action Unit := do
  let w ← read
  let key ← ofExcept (keyOf site engine w auth operation)
  let stored ← find key "not_found"
  if (stored.state ≠ .prepared ∧ stored.state ≠ .discarded) ∨ w.control.pending = some key then
    throwing ⟨none,"memory_change_pending"⟩
  else putChange key (clearContent { stored with state := .discarded })

abbrev Draft : Type := World × StoredChange

abbrev Step (α : Type) : Type := Throwing Draft Failure α

def edit (f : StoredChange → StoredChange) : Step Unit := update fun d => (d.1,f d.2)

def targetOf (change : StoredChange) (index : ℕ) : Except Failure Done :=
  if revises change.kind then .ok .correction
  else
    match change.preview.targets[index]? with
    | some target => .ok (.target target.id)
    | none => fail "undefined"

def already (target : Done) : Step Bool := do
  match target with
  | .correction => pure false
  | .target id => do
    onFst call
    let (w,stored) ← read
    let row ← ofExcept (WorkerMemory.readElement (w.nexus.readBy stored.auth) id)
    pure (decide (row.state = .purged ∨ stored.kind = .suppress ∧ row.state = .archived))

def doneText : Done → String
  | .correction => "correction"
  | .target id => id.text

def execute (key : String) (request : Request) (target : Done) (settled : Bool) : Step Unit :=
  if settled then pure ()
  else do
    let (_,stored) ← read
    let outcome ← onFst (native engine key stored.auth request
      ("memory-product:"++key++":"++doneText target))
    if !outcome.committed then throwing ⟨none,"change_not_committed"⟩
    else if revises stored.kind then
      edit fun s => { s with replacementRecord := outcome.new, sourceEvidence := outcome.input }
    else pure ()

def runRequest (key : String) (entry : Request × ℕ) : Step Unit := do
  let (_,stored) ← read
  let target ← ofExcept (targetOf stored entry.2)
  if target ∈ stored.completed then pure ()
  else do
    let settled ← already target
    execute engine key entry.1 target settled
    edit fun s => { s with completed := s.completed++[target] }
    let (_,stored) ← read
    onFst (putChange key stored)

def verify : Step Unit := do
  onFst call
  let (w,stored) ← read
  if revises stored.kind then do
    let record ← ofExcept (record site engine w stored.auth stored.preview.record.id)
    if record.status ≠ (if stored.kind = .correct then "superseded" else "active") ∨
        stored.replacementRecord = none then throwing ⟨none,"verification_incomplete"⟩
    else pure ()
  else
    each (fun target : Target => do
      onFst call
      let row ← ofExcept (WorkerMemory.readElement (w.nexus.readBy stored.auth) target.id)
      if row.state ≠ .purged ∧
          row.state ≠ (if stored.kind = .delete then .purged else .archived) then
        throwing ⟨none,"verification_incomplete"⟩
      else pure ()) stored.preview.targets

def scrubDeleted (now : ℕ) (key : String) : Step Unit := do
  let (_,stored) ← read
  if stored.kind = .delete then do
    onFst (scrubChanges now (stored.preview.targets.map Target.id) (some key))
    edit clearContent
  else pure ()

def confirm (now : ℕ) (key : String) : Step Unit := do
  scrubDeleted now key
  edit fun s => { s with state := .confirmed, error := none }
  let (_,stored) ← read
  onFst (putChange key stored)
  -- clearMaintenanceContext
  onFst call
  let (w,_) ← read
  onFst (putControl { w.control with pending := none })

def carryOut (now : ℕ) (key : String) : Step Unit := do
  onFst call
  let (w,stored) ← read
  ofExcept (session site engine w stored.auth)
  each (runRequest engine key) stored.requests.zipIdx
  verify site engine
  confirm now key

def wait (key : String) (stored : StoredChange) : Action StoredChange := do
  let waiting :=
    { stored with
      state := .reconciling
      error := some "native_change_requires_reconciliation" }
  putChange key waiting
  pure waiting

def apply (now : ℕ) (key : String) : Action StoredChange := do
  call
  let stored ← find key "memory_change_missing"
  fun w =>
    match carryOut site engine now key (w,stored) with
    | ((w,stored),.ok ()) => (w,.ok stored)
    | ((w,stored),.error _) => wait key stored w

def fence (now : ℕ) (auth : Auth) (operation key : String) (stored : StoredChange) :
    Action Unit := do
  let w ← read
  if stored.state ≠ .prepared ∨ stored.expiresAt < now then throwing ⟨none,"preview_expired"⟩
  else do
    let input : ChangeInput :=
      { operationId := operation
        recordId := stored.preview.record.id
        expectedRevision := stored.preview.record.revision
        kind := stored.kind
        newValue := if revises stored.kind then stored.preview.newValue else none }
    let current ← ofExcept (preview site engine w auth input)
    if site.previewDigest current ≠ stored.previewDigest then throwing ⟨none,"revision_conflict"⟩
    else if w.control.epoch+1 > WorkerMemory.maxSafeInteger then
      throwing ⟨none,"epoch_exhausted"⟩
    else do
      suppress stored.preview.excludedSources
      putControl ⟨w.control.epoch+1,some key⟩

def fenceFirst (now : ℕ) (auth : Auth) (operation key : String) (stored : StoredChange)
    (pending : Option String) : Action Unit :=
  if pending = none then fence site engine now auth operation key stored else pure ()

def commit (now : ℕ) (auth : Auth) (operation previewDigest : String) : Action StoredChange := do
  let w ← read
  let key ← ofExcept (keyOf site engine w auth operation)
  let stored ← find key "not_found"
  let _ ← showChange site engine now auth operation
  if stored.previewDigest ≠ previewDigest then throwing ⟨none,"revision_conflict"⟩
  else do
    let w ← read
    let control := w.control
    if stored.state = .confirmed ∧ control.pending = none then
      showChange site engine now auth operation
    else if control.pending.any (fun k => decide (k ≠ key)) then
      throwing ⟨none,"memory_change_pending"⟩
    else if stored.state = .discarded then throwing ⟨none,"preview_expired"⟩
    else do
      fenceFirst site engine now auth operation key stored control.pending
      putChange key { stored with auth, state := .committing }
      apply site engine now key

def resumeScrub (now : ℕ) : Action Unit := do
  let w ← read
  match w.scrub with
  | none => pure ()
  | some scrub =>
    rescue (scrubChanges now scrub.ids scrub.except)
      (throwing ⟨none,"memory_change_pending"⟩)

/-- `recover`: the cleanup that was interrupted, then the change that is pending. -/
def recoverChange (now : ℕ) : Action Unit := do
  resumeScrub now
  let w ← read
  match w.control.pending with
  | none => pure ()
  | some key => do
    let _ ← apply site engine now key
    pure ()

end

end AndaBrain.ManagedChanges
