import AndaBrain.ProductControl
import AndaBrain.Foundation.SortBy

/-!
# The managed changes of the Worker

`product.ts`: the epoch that admits agent passes, the suppressed sources, and the deletion of one
claim with everything that cites it.
-/

set_option autoImplicit false

namespace AndaBrain.WorkerMemory
open Foundation.SortBy Product

inductive Kind where
  | concept
  | proposition
  | assertion
  | evidence
  | activity
  deriving DecidableEq

def Kind.letter : Kind → String
  | .concept => "C-"
  | .proposition => "P-"
  | .assertion => "A-"
  | .evidence => "E-"
  | .activity => "X-"

structure ElementId where
  kind : Kind
  seq : ℕ
  deriving DecidableEq

def ElementId.text (id : ElementId) : String := id.kind.letter++toString id.seq

def sortIds (ids : List ElementId) : List ElementId :=
  sortBy (fun a b => decide (a.text ≤ b.text)) ids

inductive ElementState where
  | active
  | archived
  | tombstoned
  | pending
  | purged
  deriving DecidableEq

/-- A client key as the expressions of `sourceOf` read it. -/
inductive ClientKey where
  | formation (origin : String) (index : ℕ)
  | change (operation : String)
  | other (text : String)
  deriving DecidableEq

/-- A stored element. The members that only one kind has are empty in the others; `className`
is the local name of a Concept's type and the class of an Evidence. -/
structure Row where
  space : String
  state : ElementState
  version : ℕ
  readable : Bool
  legalHold : Bool
  className : String
  propositionId : ElementId
  actor : Option ElementId
  evidenceRefs : List ElementId
  endpoints : List ElementId
  clientKey : ClientKey
  payloadDigest : Option String
  contentDigest : String
  observedAt : Option String
  deriving DecidableEq

structure Nexus where
  space : String
  seq : ℕ
  load : ElementId → Option Row
  referrers : ElementId → List ElementId
  internal : ℕ

/-- A thrown error: a `MemoryError` or an engine error has a code, a plain one has not. -/
structure Failure where
  code : Option String
  message : String
  deriving DecidableEq

def fail {α : Type} (reason : String) : Except Failure α := .error ⟨none,reason⟩

inductive ReferencePolicy where
  | tombstoneReference
  | authorizedCascade
  deriving DecidableEq

/-- A PURGE command; `version` is what `EXPECT VERSION` names. -/
structure Purge where
  id : ElementId
  version : Option ℕ
  policy : ReferencePolicy
  deriving DecidableEq

/-- The result of a mutation: whether it committed, and the elements it reports as purged. -/
structure Outcome where
  committed : Bool
  purged : List ElementId

structure StoredBinding where
  payloadDigest : String
  observedAt : Option String
  deriving DecidableEq

structure RecordSource where
  evidenceId : ElementId
  payloadDigest : Option String
  origin : Option (String × ℕ)
  productOperation : Option String
  observedAt : Option String
  deriving DecidableEq

structure MemoryRecord where
  id : ElementId
  revision : ℕ
  propositionId : ElementId
  actor : Option ElementId
  endpoints : List ElementId
  sources : List RecordSource
  sourcesComplete : Bool
  deriving DecidableEq

structure Target where
  id : ElementId
  revision : ℕ
  deriving DecidableEq

structure ChangePreview where
  record : MemoryRecord
  targets : List Target
  excludedSources : Finset String
  deriving DecidableEq

inductive ChangeState where
  | prepared
  | committing
  | reconciling
  | confirmed
  | discarded
  deriving DecidableEq

/-- A stored change. `statement` is the digest of the first request's statement and `requests`
tells whether the requests are still there. -/
structure StoredChange where
  delete : Bool
  record : ElementId
  revision : ℕ
  state : ChangeState
  previewDigest : String
  expiresAt : ℕ
  preview : ChangePreview
  statement : Option String
  requests : Bool
  completed : List ElementId
  replacementRecord : Option ElementId
  sourceEvidence : Option ElementId

structure PendingScrub where
  ids : List ElementId
  except : Option String

structure ProductStore where
  epoch : ℕ
  pending : Option String
  scrub : Option PendingScrub
  sources : String → Option SourceIdentity
  evidence : String → ℕ → Option StoredBinding
  suppressed : Finset String
  changes : String → Option StoredChange

structure Engine where
  purge : Nexus → Purge → Nexus × Except Failure Outcome
  dryRun : Nexus → List Purge → Nexus × Except Failure Unit

structure Digests where
  preview : ChangePreview → String
  changeKey : String → String

def maxSafeInteger : ℕ := 2^53 - 1

def previewMs : ℕ := 600000

def sourceKeys (source : SourceIdentity) : Except Failure (Finset String) :=
  if source.parents.length > 16 ||
      (source.key::source.parents).any fun key =>
        key.isEmpty || decide (key.utf8ByteSize > 512) || key.toList.any isControl then
    fail "invalid_source"
  else .ok source.keys

def isLowerHex (c : Char) : Bool :=
  (decide ('0' ≤ c) && decide (c ≤ '9')) || (decide ('a' ≤ c) && decide (c ≤ 'f'))

def isOrigin (origin : String) : Bool :=
  let head := "formation:sha256:".toList
  origin.toList.take head.length == head &&
    (origin.toList.drop head.length).length == 64 &&
    (origin.toList.drop head.length).all isLowerHex

namespace ProductStore

def isSuppressed (product : ProductStore) (keys : Finset String) : Bool :=
  decide (keys ∩ product.suppressed ≠ ∅)

def check (product : ProductStore) (epoch : ℕ) : Except Failure Unit :=
  if product.pending.isSome || product.scrub.isSome then fail "memory_change_pending"
  else if epoch ≠ product.epoch then fail "memory_changed_rebuild_context"
  else .ok ()

def bindSource (product : ProductStore) (origin : String) (source : SourceIdentity) : ProductStore :=
  { product with sources := fun o => if o = origin then some source else product.sources o }

def begin (product : ProductStore) (source : Option SourceIdentity)
    (origin : Option String) : Except Failure (ProductStore × ℕ) := do
  product.check product.epoch
  match source with
  | none => pure (product,product.epoch)
  | some source =>
    let keys ← sourceKeys source
    if product.isSuppressed keys then fail "source_suppressed"
    else
      match origin with
      | none => pure (product,product.epoch)
      | some origin =>
        if !isOrigin origin then fail "invalid_source"
        else if (product.sources origin).any fun old =>
            decide (old ≠ source) then
          fail "source_identity_conflict"
        else pure (product.bindSource origin source,product.epoch)

def capture (product : ProductStore) (origin : String) (index : ℕ) (binding : StoredBinding) :
    Except Failure ProductStore :=
  if (product.evidence origin index).any fun old => decide (old ≠ binding) then
    fail "source_identity_conflict"
  else .ok
    { product with
      evidence := fun o i =>
        if o = origin ∧ i = index then some binding else product.evidence o i }

def suppress (product : ProductStore) (keys : Finset String) : ProductStore :=
  { product with suppressed := product.suppressed ∪ keys }

def invalidate (product : ProductStore) : Except Failure ProductStore := do
  product.check product.epoch
  if product.epoch+1 > maxSafeInteger then fail "epoch_exhausted"
  else pure { product with epoch := product.epoch+1 }

end ProductStore

def readElement (nexus : Nexus) (id : ElementId) : Except Failure Row :=
  match nexus.load id with
  | none => fail "not_found"
  | some row => if row.space ≠ nexus.space || !row.readable then fail "not_found" else .ok row

def sourceOf (id : ElementId) (row : Row) : RecordSource where
  evidenceId := id
  payloadDigest := if row.state ≠ .purged then row.payloadDigest else none
  origin := match row.clientKey with
    | .formation origin index => some (origin,index)
    | _ => none
  productOperation := match row.clientKey with
    | .change operation => some operation
    | _ => none
  observedAt := row.observedAt

def keysForSource (product : ProductStore) (source : RecordSource) :
    Except Failure (Finset String) :=
  let captured : Option (String × SourceIdentity) := do
    let (origin,index) ← source.origin
    let identity ← product.sources origin
    let binding ← product.evidence origin index
    if some binding.payloadDigest = source.payloadDigest ∧ binding.observedAt = source.observedAt then
      some (origin,identity)
    else none
  match captured with
  | some (origin,identity) => do
    let keys ← sourceKeys identity
    pure (insert origin keys)
  | none =>
    match source.productOperation with
    | none => fail "unsupported_scope"
    | some operation =>
      match product.changes operation with
      | none => fail "unsupported_scope"
      | some change =>
        if change.state = .confirmed ∧ change.sourceEvidence = some source.evidenceId ∧
            change.statement.isSome ∧ change.statement = source.payloadDigest then
          .ok {"product-change:"++operation}
        else fail "unsupported_scope"

def completeSource (product : ProductStore) (source : RecordSource) : Bool :=
  source.payloadDigest.isSome &&
    match keysForSource product source with
    | .ok keys => decide (keys ≠ ∅)
    | .error _ => false

def readSource (nexus : Nexus) (id : ElementId) : Except Failure RecordSource := do
  let row ← readElement nexus id
  if id.kind ≠ .evidence then fail "invalid_evidence"
  else pure (sourceOf id row)

def readRecord (nexus : Nexus) (product : ProductStore) (id : ElementId) :
    Except Failure MemoryRecord := do
  let row ← readElement nexus id
  if id.kind ≠ .assertion ∨ row.state = .purged then fail "not_found"
  else
    let proposition ← readElement nexus row.propositionId
    if row.propositionId.kind ≠ .proposition ∨ proposition.state = .purged then fail "not_found"
    else
      let _ ← row.actor.toList.mapM (readElement nexus)
      let sources ← row.evidenceRefs.mapM (readSource nexus)
      let _ ← proposition.endpoints.mapM (readElement nexus)
      pure
        { id
          revision := row.version
          propositionId := row.propositionId
          actor := row.actor
          endpoints := proposition.endpoints
          sources
          sourcesComplete := !sources.isEmpty && sources.all (completeSource product) }

/-- The elements a deletion reaches from a Proposition: those that cite it, their
Propositions and inputs, and so on. `room` is what is left of the 128 elements it may meet;
the pending elements are a stack with its top in front. -/
def closure (nexus : Nexus) (product : ProductStore) :
    ℕ → List ElementId → List Target → Finset String → List ElementId →
      Except Failure (List Target × Finset String)
  | room, seen, found, sources, pending =>
    match pending.dropWhile fun id => decide (id ∈ seen), room with
    | [], _ => .ok (found,sources)
    | _::_, 0 => fail "unsupported_scope"
    | id::rest, room+1 => do
      let row ← readElement nexus id
      if row.state = .purged then closure nexus product room (id::seen) found sources rest
      else if id.kind = .concept ∨ row.legalHold then fail "unsupported_scope"
      else
        let inputs := if id.kind = .assertion then row.propositionId::row.evidenceRefs else []
        let keys ← if id.kind = .evidence then keysForSource product (sourceOf id row) else pure ∅
        closure nexus product room (id::seen) (⟨id,row.version⟩::found) (sources ∪ keys)
          ((inputs++nexus.referrers id).reverse++rest)

def sortTargets (targets : List Target) : List Target :=
  sortBy (fun a b => decide (a.id.text ≤ b.id.text)) targets

def previewDelete (nexus : Nexus) (product : ProductStore) (record : ElementId) (revision : ℕ) :
    Except Failure ChangePreview := do
  let memory ← readRecord nexus product record
  if memory.revision ≠ revision then fail "revision_conflict"
  else if !memory.sourcesComplete then fail "unsupported_scope"
  else
    let keys ← memory.sources.mapM (keysForSource product)
    let (found,sources) ←
      closure nexus product 128 [] [] (keys.foldl (· ∪ ·) ∅) [memory.propositionId]
    pure ⟨memory,sortTargets found,sources⟩

def deleteRequests (preview : ChangePreview) : List Purge :=
  preview.targets.map fun target => ⟨target.id,some target.revision,.tombstoneReference⟩

def putChange (product : ProductStore) (key : String) (change : StoredChange) : ProductStore :=
  { product with changes := fun k => if k = key then some change else product.changes k }

def clearRecord (change : StoredChange) : StoredChange :=
  { change with preview :=
      { change.preview with record := { change.preview.record with endpoints := [] } } }

def clearContent (change : StoredChange) : StoredChange :=
  { clearRecord change with statement := none, requests := false }

def expire (product : ProductStore) (now : ℕ) (key : String) (change : StoredChange) : StoredChange :=
  if change.state = .prepared ∧ change.expiresAt < now ∧ product.pending ≠ some key then
    clearContent { change with state := .discarded }
  else change

def scrubOne (product : ProductStore) (now : ℕ) (ids : List ElementId) (key : String)
    (stored : StoredChange) : StoredChange :=
  let related := expire product now key stored
  let record := related.preview.record
  let old := record.id ∈ ids ∨ record.propositionId ∈ ids ∨
    ∃ source ∈ record.sources, source.evidenceId ∈ ids
  let replaced := (∃ id ∈ related.replacementRecord, id ∈ ids) ∨
    ∃ id ∈ related.sourceEvidence, id ∈ ids
  if ¬old ∧ ¬replaced then related
  else
    let ended := if related.state = .prepared then { related with state := .discarded } else related
    if replaced ∨ ended.state ≠ .confirmed then clearContent ended else clearRecord ended

def scrubChanges (product : ProductStore) (now : ℕ) (erased : List ElementId)
    (but : Option String) : ProductStore :=
  let ids := erased++(product.scrub.map PendingScrub.ids).getD []
  { product with
    changes := fun key => (product.changes key).map fun stored =>
      if but = some key then stored else scrubOne product now ids key stored
    scrub := none }

def showChange (nexus : Nexus) (product : ProductStore) (now : ℕ) (key : String) :
    Except Failure (ProductStore × StoredChange) :=
  match product.changes key with
  | none => fail "not_found"
  | some stored => do
    let stored := expire product now key stored
    let record := stored.preview.record
    let _ ← (stored.preview.targets.map Target.id++record.propositionId::
      (record.sources.map RecordSource.evidenceId++record.endpoints++record.actor.toList)).mapM
        (readElement nexus)
    pure (putChange product key stored,stored)

/-- The PURGE requests of a stored deletion, one after the other, as far as the engine goes. -/
def purgeTargets (engine : Engine) : Nexus → List ElementId → List Target →
    Nexus × List ElementId × Bool
  | nexus, completed, [] => (nexus,completed,true)
  | nexus, completed, target::rest =>
    if target.id ∈ completed then purgeTargets engine nexus completed rest
    else
      match readElement nexus target.id with
      | .error _ => (nexus,completed,false)
      | .ok row =>
        if row.state = .purged then purgeTargets engine nexus (completed++[target.id]) rest
        else
          match engine.purge nexus ⟨target.id,some target.revision,.tombstoneReference⟩ with
          | (next,.ok outcome) =>
            if outcome.committed then purgeTargets engine next (completed++[target.id]) rest
            else (next,completed,false)
          | (next,.error _) => (next,completed,false)

def verified (nexus : Nexus) (targets : List Target) : Bool :=
  targets.all fun target =>
    match readElement nexus target.id with
    | .ok row => decide (row.state = .purged)
    | .error _ => false

/-- Carries out a deletion under the fence. What cannot be carried out waits for a retry. -/
def apply (engine : Engine) (nexus : Nexus) (product : ProductStore) (now : ℕ) (key : String)
    (stored : StoredChange) : Nexus × ProductStore × StoredChange :=
  let (next,completed,carried) :=
    purgeTargets engine nexus stored.completed
      (if stored.requests then stored.preview.targets else [])
  let done := { stored with completed }
  if carried && verified next stored.preview.targets then
    let scrubbed := scrubChanges product now (stored.preview.targets.map Target.id) (some key)
    let confirmed := clearContent { done with state := .confirmed }
    (next,{ putChange scrubbed key confirmed with pending := none },confirmed)
  else
    let waiting := { done with state := .reconciling }
    (next,putChange product key waiting,waiting)

structure Managed where
  nexus : Nexus
  product : ProductStore

/-- `prepare` with `kind: 'delete'`. -/
def prepareDelete (digests : Digests) (engine : Engine) (m : Managed) (now : ℕ) (key : String)
    (record : ElementId) (revision : ℕ) : Managed × Except Failure StoredChange :=
  if revision < 1 then (m,fail "invalid_request")
  else
    match m.product.changes key with
    | some old =>
      let product := putChange m.product key (expire m.product now key old)
      if (expire m.product now key old).state = .discarded then
        ({ m with product },fail "preview_expired")
      else if !(old.delete && decide (old.record = record ∧ old.revision = revision)) then
        ({ m with product },fail "idempotency_conflict")
      else
        match showChange m.nexus product now key with
        | .error e => ({ m with product },.error e)
        | .ok (shown,change) => ({ m with product := shown },.ok change)
    | none =>
      match m.product.check m.product.epoch with
      | .error e => (m,.error e)
      | .ok () =>
        match previewDelete m.nexus m.product record revision with
        | .error e => (m,.error e)
        | .ok preview =>
          match engine.dryRun m.nexus (deleteRequests preview) with
          | (nexus,.error e) => ({ m with nexus },.error e)
          | (nexus,.ok ()) =>
            let change : StoredChange :=
              { delete := true, record, revision
                state := .prepared
                previewDigest := digests.preview preview
                expiresAt := now+previewMs
                preview
                statement := none
                requests := true
                completed := []
                replacementRecord := none
                sourceEvidence := none }
            (⟨nexus,putChange m.product key change⟩,.ok change)

def fenceChange (product : ProductStore) (key : String) (change : StoredChange) : ProductStore :=
  putChange
    { product.suppress change.preview.excludedSources with
      epoch := product.epoch+1, pending := some key }
    key { change with state := .committing }

def commitDelete (digests : Digests) (engine : Engine) (m : Managed) (now : ℕ) (key : String)
    (previewDigest : String) : Managed × Except Failure StoredChange :=
  match showChange m.nexus m.product now key with
  | .error e => (m,.error e)
  | .ok (product,change) =>
    if change.previewDigest ≠ previewDigest then (⟨m.nexus,product⟩,fail "revision_conflict")
    else if change.state = .confirmed ∧ product.pending = none then (⟨m.nexus,product⟩,.ok change)
    else if product.pending.any (fun k => decide (k ≠ key)) then
      (⟨m.nexus,product⟩,fail "memory_change_pending")
    else if change.state = .discarded then (⟨m.nexus,product⟩,fail "preview_expired")
    else if product.pending.isSome then
      let held := putChange product key { change with state := .committing }
      let (nexus,product,change) :=
        apply engine m.nexus held now key { change with state := .committing }
      (⟨nexus,product⟩,.ok change)
    else if change.state ≠ .prepared ∨ change.expiresAt < now then
      (⟨m.nexus,product⟩,fail "preview_expired")
    else
      match previewDelete m.nexus product change.record change.revision with
      | .error e => (⟨m.nexus,product⟩,.error e)
      | .ok preview =>
        if digests.preview preview ≠ change.previewDigest then
          (⟨m.nexus,product⟩,fail "revision_conflict")
        else if product.epoch+1 > maxSafeInteger then
          (⟨m.nexus,product⟩,fail "epoch_exhausted")
        else
          let (nexus,product,change) :=
            apply engine m.nexus (fenceChange product key change) now key
              { change with state := .committing }
          (⟨nexus,product⟩,.ok change)

def resumeScrub (product : ProductStore) (now : ℕ) : ProductStore :=
  match product.scrub with
  | none => product
  | some scrub => scrubChanges product now scrub.ids scrub.except

def recoverChange (engine : Engine) (m : Managed) (now : ℕ) : Managed :=
  let product := resumeScrub m.product now
  match product.pending with
  | none => { m with product }
  | some key =>
    match product.changes key with
    | none => { m with product }
    | some stored =>
      let (nexus,product,_) := apply engine m.nexus product now key stored
      ⟨nexus,product⟩

end AndaBrain.WorkerMemory
