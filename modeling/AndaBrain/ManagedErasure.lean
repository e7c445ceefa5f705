import AndaBrain.ManagedFence
import AndaBrain.WorkerForget

/-!
# What erases beside the managed changes

The administrative forget, the administrative batch and the forget of the Memory Interface, over
the store of the managed changes.
-/

set_option autoImplicit false

namespace AndaBrain.ManagedChanges
open Foundation.Throwing
open WorkerMemory (ElementId ElementState Failure fail Target distinct sortIds operationOf)

structure Eraser extends Engine where
  parse : String → Except Failure ElementId
  erasesMemory : String → Bool
  mayRead : Nexus → ElementId → Bool
  purge : Nexus → ElementId → Nexus × Except Failure (List ElementId)
  purgePayload : Nexus → ElementId → Nexus × Except Failure Unit
  batch : Nexus → List String → Nexus × Except Failure (List ElementId)
  assertionsOn : Nexus → ElementId → Except Failure (List ElementId)

def World.purgedBy (w : World) (answer : Except Failure (List ElementId)) :
    String → List ElementId :=
  match answer with
  | .ok purged => fun key => w.since key++purged
  | .error _ => w.since

def noteErased (purged scope : List ElementId) : Action Unit :=
  update fun w =>
    { w with
      erasures := w.erasures++[⟨none,purged,scope,[],[],w.control.pending,w.changes⟩] }

def recorded (w : World) (purged : List ElementId) : List ElementId :=
  if w.faults w.calls || w.faults (w.calls+1) then [] else purged

/-- `afterErase`, and the scrub of a batch. -/
def scrubErased (now : ℕ) (purged : List ElementId) : Action Unit :=
  if purged = [] then pure ()
  else do
    let w ← read
    noteErased purged (recorded w purged)
    scrubChanges now purged none

section
variable (site : Site) (eraser : Eraser)

/-- `PURGE … REFERENCE POLICY "authorized_cascade"`. -/
def purgeCascade (id : ElementId) : Action (List ElementId) := do
  call
  let w ← read
  let (nexus,answer) := eraser.purge w.nexus id
  update fun w => { w with nexus, since := w.purgedBy answer }
  ofExcept answer

/-! ## The administrative forget -/

structure ForgetInput where
  entities : List String
  dryRun : Bool
  deriving DecidableEq

structure ForgetEntry where
  entity : String
  existed : Bool
  error : Option String
  deriving DecidableEq

structure ForgetReport where
  dryRun : Bool
  deleted : WorkerMemory.Kind → ℕ
  entities : List ForgetEntry

def validForget (input : ForgetInput) : Bool :=
  decide (input.entities.length ≤ 100) && input.entities.all fun id => decide (id.length ≤ 128)

def existed (w : World) (id : ElementId) : Bool :=
  (w.nexus.load id).any (fun row =>
    decide (row.space = w.nexus.space ∧ row.state ≠ .purged ∧ row.state ≠ .pending)) &&
    eraser.mayRead w.nexus id

def eraseEntity (dryRun : Bool) (entity : String) : Action (ForgetEntry × List ElementId) := do
  match eraser.parse entity with
  | .error e => pure (⟨entity,false,some e.message⟩,[])
  | .ok id => do
    let w ← read
    if existed eraser w id && !dryRun then do
      match ← attempt (purgeCascade eraser id) with
      | .ok purged => pure (⟨entity,true,none⟩,purged)
      | .error e => pure (⟨entity,true,some e.message⟩,[])
    else pure (⟨entity,existed eraser w id,none⟩,[])

def eraseEntities (dryRun : Bool) : List String → Action (List ForgetEntry × List ElementId)
  | [] => pure ([],[])
  | entity::rest => do
    let (entry,purged) ← eraseEntity eraser dryRun entity
    let (entries,more) ← eraseEntities dryRun rest
    pure (entry::entries,purged++more)

def fenceErasure (erases : Bool) : Action Unit := if erases then invalidate site else pure ()

/-- `memory/forget`; the entities are given trimmed. -/
def forgetMemory (now : ℕ) (input : ForgetInput) : Action ForgetReport := do
  if validForget input then do
    recoverChange site eraser.toEngine now
    fenceErasure site !input.dryRun
    let (entities,erased) ← eraseEntities eraser input.dryRun (distinct input.entities)
    scrubErased now erased
    pure ⟨input.dryRun,fun kind => (erased.filter fun id => decide (id.kind = kind)).length,entities⟩
  else throwing ⟨none,"invalid forget request (max 100 element ids)"⟩

/-! ## The administrative batch -/

def runBatch (operations : List String) : Action (List ElementId) := do
  call
  let w ← read
  let (nexus,answer) := eraser.batch w.nexus operations
  update fun w => { w with nexus, since := w.purgedBy answer }
  ofExcept answer

def executeAdminKipBatch (now : ℕ) (operations : List String) : Action Unit := do
  recoverChange site eraser.toEngine now
  fenceErasure site (operations.any eraser.erasesMemory)
  let erased ← runBatch eraser operations
  scrubErased now erased

/-! ## The forget of the Memory Interface -/

/-- What the ledger located for a forget: the element it names, when it names one, the Evidence and
the Concepts of its source, and the keys of the source. -/
structure Selection where
  target : Option ElementId
  evidence : List ElementId
  owned : List ElementId
  keys : Finset String

def claimsOf (w : World) (selection : Selection) : Except Failure (List ElementId) := do
  let named ← match selection.target with
    | some id =>
      if id.kind = .assertion then .ok [id]
      else if id.kind = .proposition then eraser.assertionsOn w.nexus id
      else .ok []
    | none => .ok []
  pure (sortIds (distinct (named++selection.evidence.flatMap fun evidence =>
    (w.nexus.referrers evidence).filter fun id => decide (id.kind = .assertion))))

def deleteClaim (now : ℕ) (auth : Auth) (receiptRef : String) (claim : ElementId) :
    Action StoredChange := do
  let w ← read
  let record ← ofExcept (record site eraser.toEngine w auth claim)
  let operation := operationOf receiptRef claim
  let prepared ← prepare site eraser.toEngine now auth ⟨operation,claim,record.revision,.delete,none⟩
  let confirmed ← commit site eraser.toEngine now auth operation prepared.previewDigest
  if confirmed.state = .confirmed then pure confirmed
  else throwing ⟨none,confirmed.error.getD "memory change did not confirm"⟩

def eraseClaim (now : ℕ) (auth : Auth) (receiptRef : String) (erased : List ElementId)
    (claim : ElementId) : Action (List ElementId × Finset String) := do
  if claim ∈ erased then pure ([],∅)
  else do
    match ← attempt (deleteClaim site eraser now auth receiptRef claim) with
    | .ok confirmed =>
      pure (confirmed.preview.targets.map Target.id,confirmed.preview.excludedSources)
    | .error e => if e.message = "unsupported_scope" then pure ([],∅) else throwing e

def eraseClaims (now : ℕ) (auth : Auth) (receiptRef : String) :
    List ElementId → List ElementId → Finset String → Action (List ElementId × Finset String)
  | [], erased, keys => pure (erased,keys)
  | claim::rest, erased, keys => do
    let (more,excluded) ← eraseClaim site eraser now auth receiptRef erased claim
    eraseClaims now auth receiptRef rest (erased++more) (keys ∪ excluded)

def directTargets (selection : Selection) (claims erased : List ElementId) : List ElementId :=
  distinct ((selection.evidence++selection.owned).filter (fun id => decide (id ∉ erased))++
    (selection.target.filter fun id => decide (id ∉ erased ∧ id ∉ claims)).toList)

def purgeDirect (id : ElementId) : Action Unit := do
  let purged ← purgeCascade eraser id
  noteErased purged []

def isPurged (w : World) (id : ElementId) : Bool :=
  (w.nexus.load id).any fun row => decide (row.state = .purged)

def purgeDirects : List ElementId → Action Unit
  | [] => pure ()
  | id::rest => do
    let w ← read
    if isPurged w id then purgeDirects rest
    else do
      match ← attempt (purgeDirect eraser id) with
      | .ok () => purgeDirects rest
      | .error e => if e.code = some "LegalHoldConflict" then pure () else throwing e

def suppressSources (keys : Finset String) : Action Unit :=
  if keys = ∅ then pure () else suppress keys

def forgetSemantic (now : ℕ) (auth : Auth) (receiptRef : String) (selection : Selection) :
    Action Unit := do
  let w ← read
  let claims ← ofExcept (claimsOf eraser w selection)
  let (erased,keys) ← eraseClaims site eraser now auth receiptRef claims [] selection.keys
  purgeDirects eraser (directTargets selection claims erased)
  suppressSources keys

def purgePayloadOf (id : ElementId) : Action Unit := do
  call
  let w ← read
  let (nexus,answer) := eraser.purgePayload w.nexus id
  update fun w => { w with nexus }
  ofExcept answer

/-- `MemoryLedger.forget`, as far as it moves this store. -/
def memoryForget (now : ℕ) (auth : Auth) (receiptRef : String) (selection : Selection)
    (semantic : Bool) : Action Unit := do
  recoverChange site eraser.toEngine now
  if semantic then forgetSemantic site eraser now auth receiptRef selection
  else do
    each (purgePayloadOf eraser) selection.evidence
    suppressSources selection.keys

end

end AndaBrain.ManagedChanges
