import AndaBrain.WorkerLedger

/-!
# The forget of the Worker

`MemoryLedger.forget`: a claim is erased through the deletion of the product, Evidence no claim
was erased with and the Concepts a source owns are purged directly, and the staged bytes are
cleared.
-/

set_option autoImplicit false

namespace AndaBrain.WorkerMemory
open Product

inductive ForgetMode where
  | payloadOnly
  | semantic
  deriving DecidableEq

/-- A target reference as `forget` reads it: by its first letters, then as an element id. -/
inductive ForgetTarget where
  | source (ref : String)
  | element (id : ElementId)
  | unknown (text : String)
  deriving DecidableEq

def ForgetTarget.text : ForgetTarget → String
  | .source ref => ref
  | .element id => id.text
  | .unknown text => text

structure ForgetRequest where
  idempotencyKey : String
  target : ForgetTarget
  mode : ForgetMode
  deriving DecidableEq

structure Located where
  staged : Option StagedSource
  evidenceTargets : List ElementId
  ownedConcepts : List ElementId
  suppressed : Finset String
  status : ForgetStatus
  summary : String

def ownedClasses : List String := ["Event", "Insight", "Experience", "Commitment"]

def unfinishedSummary : String := "source processing has not finished"

def untracedSummary : String := "some source outputs have no verified ownership trace"

def memoryRefs (record : IntakeRecord) : List ElementId :=
  match record.result with
  | some (.memory _ refs) => refs
  | _ => []

def noteReference (nexus : Nexus) (mode : ForgetMode) (created : List ElementId) (loc : Located)
    (ref : ElementId) : Located :=
  if ref.kind = .evidence then { loc with evidenceTargets := loc.evidenceTargets++[ref] }
  else if mode = .semantic ∧ ref.kind = .concept ∧
      (nexus.load ref).any (fun row => decide (row.className ∈ ownedClasses)) then
    if ref ∈ created then
      { loc with ownedConcepts :=
          if ref ∈ loc.ownedConcepts then loc.ownedConcepts else loc.ownedConcepts++[ref] }
    else { loc with status := .incomplete, summary := untracedSummary }
  else loc

/-- What one intake of the source left: the Evidence it captured and the Concepts it owns. -/
def noteIntake (nexus : Nexus) (mode : ForgetMode) (loc : Located) (intake : IntakeRecord) :
    Located :=
  let loc := if intake.terminal.isNone then
      { loc with status := .incomplete, summary := unfinishedSummary } else loc
  let loc := (memoryRefs intake).foldl (noteReference nexus mode intake.created) loc
  { loc with evidenceTargets := loc.evidenceTargets++intake.evidence }

def sourceIntakes (w : World) (sourceRef : String) : List IntakeRecord :=
  match w.sourceReceipts.lookup sourceRef with
  | none => (w.receipts.entries.map Prod.snd).filter fun intake =>
      decide (intake.sourceRef = some sourceRef)
  | some listed => listed.filterMap fun ref =>
      (w.receipts.lookup ref).filter fun intake => decide (intake.sourceRef = some sourceRef)

def stagedKeys (staged : StagedSource) : Finset String :=
  {"memory-source:"++staged.sourceRef,"memory-source-digest:"++staged.sourceDigest}

def locate (w : World) (ns : String) (request : ForgetRequest) : Except Failure Located :=
  match request.target with
  | .source ref =>
    match w.stagedSource ns ref with
    | .error e => .error e
    | .ok staged =>
      .ok ((sourceIntakes w ref).foldl (noteIntake w.nexus request.mode)
        ⟨some staged,[],[],stagedKeys staged,.completed,""⟩)
  | .element id =>
    match w.nexus.load id with
    | none => .error (notFound "forget target")
    | some row =>
      if row.space ≠ w.nexus.space ∨ row.state = .purged then .error (notFound "forget target")
      else .ok ⟨none,if id.kind = .evidence then [id] else [],[],∅,.completed,""⟩
  | .unknown _ => .error (notFound "forget target")

structure Sweep where
  managed : Managed
  targets : List ErasedTarget
  roots : List ElementId
  erased : List ElementId
  suppressed : Finset String
  status : ForgetStatus
  summary : String

def Sweep.begin (w : World) (loc : Located) : Sweep :=
  ⟨w.managed,[],[],[],loc.suppressed,loc.status,loc.summary⟩

def claimsOf (session : Session) (nexus : Nexus) (target : ForgetTarget)
    (evidenceTargets : List ElementId) : Except Failure (List ElementId) :=
  let named : Except Failure (List ElementId) := match target with
    | .element id =>
      if id.kind = .assertion then .ok [id]
      else if id.kind = .proposition then session.assertionsOn nexus id
      else .ok []
    | _ => .ok []
  named.map fun named =>
    sortIds (distinct (named++evidenceTargets.flatMap fun evidence =>
      (nexus.referrers evidence).filter fun id => decide (id.kind = .assertion)))

def deleteClaim (digests : Digests) (engine : Engine) (m : Managed) (now : ℕ) (operation : String)
    (claim : ElementId) : Managed × Except Failure StoredChange :=
  match readRecord m.nexus m.product claim with
  | .error e => (m,.error e)
  | .ok record =>
    let key := digests.changeKey operation
    match prepareDelete digests engine m now key claim record.revision with
    | (m,.error e) => (m,.error e)
    | (m,.ok prepared) =>
      match commitDelete digests engine m now key prepared.previewDigest with
      | (m,.error e) => (m,.error e)
      | (m,.ok confirmed) =>
        if confirmed.state ≠ .confirmed then (m,fail "native_change_requires_reconciliation")
        else (m,.ok confirmed)

def unverifiedSummary (claim : ElementId) : String :=
  claim.text++"'s sources cannot be verified, so it was not erased"

def operationOf (receiptRef : String) (claim : ElementId) : String :=
  "mi-"++String.ofList ((receiptRef.toList.drop 5).take 16)++"-"++
    String.ofList (claim.text.toList.filter fun c => decide (c ≠ '-'))

def eraseClaim (digests : Digests) (engine : Engine) (now : ℕ) (receiptRef : String)
    (sweep : Sweep) (claim : ElementId) : Sweep × Option Failure :=
  if claim ∈ sweep.erased then (sweep,none)
  else
    match deleteClaim digests engine sweep.managed now (operationOf receiptRef claim) claim with
    | (m,.ok confirmed) =>
      let ids := confirmed.preview.targets.map Target.id
      ({ sweep with
          managed := m
          roots := sweep.roots++ids.filter fun id => decide (id.kind = .evidence)
          targets := sweep.targets++ids.map fun id => ⟨id,"element","erased"⟩
          erased := sweep.erased++ids
          suppressed := sweep.suppressed ∪ confirmed.preview.excludedSources },none)
    | (m,.error e) =>
      if e.message = "unsupported_scope" then
        ({ sweep with
            managed := m
            status := .incomplete
            summary := unverifiedSummary claim
            targets := sweep.targets++[⟨claim,"element","pending"⟩] },none)
      else ({ sweep with managed := m },some e)

def eraseClaims (digests : Digests) (engine : Engine) (now : ℕ) (receiptRef : String) :
    Sweep → List ElementId → Sweep × Option Failure
  | sweep, [] => (sweep,none)
  | sweep, claim::rest =>
    match eraseClaim digests engine now receiptRef sweep claim with
    | (next,none) => eraseClaims digests engine now receiptRef next rest
    | (next,some e) => (next,some e)

def directTargets (target : ForgetTarget) (loc : Located) (claims erased : List ElementId) :
    List ElementId :=
  distinct ((loc.evidenceTargets++loc.ownedConcepts).filter (fun id => decide (id ∉ erased))++
    match target with
    | .element id => if id ∉ erased ∧ id ∉ claims then [id] else []
    | _ => [])

def heldSummary (id : ElementId) : String := "a legal hold retains "++id.text

def unenumeratedSummary (id : ElementId) : String :=
  id.text++" was purged, but the sources it was formed from were not enumerated, so erasure of "++
    "their copies is not verified"

def isPurged (nexus : Nexus) (id : ElementId) : Bool :=
  (nexus.load id).any fun row => decide (row.state = .purged)

def cascade (id : ElementId) : Purge := ⟨id,none,.authorizedCascade⟩

def Sweep.purged (sweep : Sweep) (owned : List ElementId) (id : ElementId) (nexus : Nexus)
    (outcome : Outcome) : Sweep :=
  let roots := if id.kind = .evidence then sweep.roots++[id] else sweep.roots
  let next : Sweep :=
    { sweep with
      managed := { sweep.managed with nexus }
      roots
      targets := sweep.targets++outcome.purged.map fun id => ⟨id,"element","erased"⟩ }
  if id.kind ≠ .evidence ∧ id ∉ owned ∧ roots = [] ∧ next.status = .completed then
    { next with status := .incomplete, summary := unenumeratedSummary id }
  else next

def Sweep.refused (sweep : Sweep) (id : ElementId) (nexus : Nexus) : Sweep :=
  { sweep with
    managed := { sweep.managed with nexus }
    roots := if id.kind = .evidence then sweep.roots++[id] else sweep.roots }

def purgeDirect (engine : Engine) (owned : List ElementId) :
    Sweep → List ElementId → Sweep × Option Failure
  | sweep, [] => (sweep,none)
  | sweep, id::rest =>
    if isPurged sweep.managed.nexus id then purgeDirect engine owned sweep rest
    else
      match engine.purge sweep.managed.nexus (cascade id) with
      | (nexus,.ok outcome) => purgeDirect engine owned (sweep.purged owned id nexus outcome) rest
      | (nexus,.error e) =>
        if e.code = some "LegalHoldConflict" then
          ({ sweep.refused id nexus with status := .blocked, summary := heldSummary id },none)
        else (sweep.refused id nexus,some e)

def suppressSources (m : Managed) (keys : Finset String) : Managed :=
  { m with product := m.product.suppress keys }

/-- The semantic branch: the claims, the direct purges, and the sources they leave suppressed. -/
def sweepSemantic (digests : Digests) (session : Session) (w : World) (now : ℕ)
    (receiptRef : String) (target : ForgetTarget) (loc : Located) : Sweep × Option Failure :=
  match claimsOf session w.nexus target loc.evidenceTargets with
  | .error e => (Sweep.begin w loc,some e)
  | .ok claims =>
    match eraseClaims digests session.toEngine now receiptRef (Sweep.begin w loc) claims with
    | (sweep,some e) => (sweep,some e)
    | (sweep,none) =>
      match purgeDirect session.toEngine loc.ownedConcepts sweep
          (directTargets target loc claims sweep.erased) with
      | (sweep,some e) => (sweep,some e)
      | (sweep,none) =>
        ({ sweep with managed := suppressSources sweep.managed sweep.suppressed },none)

def sweepPayloads (session : Session) : Sweep → List ElementId → Sweep × Option Failure
  | sweep, [] => (sweep,none)
  | sweep, id::rest =>
    match session.purgePayload sweep.managed.nexus id with
    | (nexus,.error e) => ({ sweep with managed := { sweep.managed with nexus } },some e)
    | (nexus,.ok ()) =>
      sweepPayloads session
        { sweep with
          managed := { sweep.managed with nexus }
          targets := sweep.targets++[⟨id,"payload","erased"⟩] } rest

def clearable (w : World) (suppressed : Finset String) (staged : Option StagedSource) :
    List String :=
  (w.sources.entries.filter fun e =>
    !e.2.erased && (decide ("memory-source:"++e.1 ∈ suppressed) ||
      staged.any fun s => decide (s.sourceRef = e.1))).map Prod.fst

def eraseStaged (w : World) (ref : String) : World :=
  match w.sources.lookup ref with
  | none => w
  | some staged =>
    { w with sources := w.sources.insert ref { staged with messages := [], erased := true } }

def sweep (digests : Digests) (session : Session) (w : World) (now : ℕ) (receiptRef : String)
    (request : ForgetRequest) (loc : Located) : Sweep × Option Failure :=
  match request.mode with
  | .semantic => sweepSemantic digests session w now receiptRef request.target loc
  | .payloadOnly =>
    if loc.evidenceTargets.isEmpty && loc.staged.isNone then
      (Sweep.begin w loc,some (memoryError "ConstraintViolation"
        "payload_only forgets an Evidence payload or a staged source"))
    else sweepPayloads session (Sweep.begin w loc) loc.evidenceTargets

def forgetReceipt (site : Site) (w : World) (now : ℕ) (ns receiptRef : String)
    (request : ForgetRequest) : IntakeRecord where
  receiptRef
  operation := .forget
  acceptedSeq := w.nexus.seq
  ns
  intentDigest := site.forgetMeaning request.target.text (request.mode = .semantic)
  scope := ⟨⟨none,[]⟩,none,[]⟩
  sourceRef := none
  sourceDigest := none
  intent := none
  terminal := none
  result := none
  warnings := []
  createdAt := now
  evidence := []
  created := []

def planOf (w : World) (receiptRef : String) (mode : ForgetMode) (sweep : Sweep) : ErasurePlan where
  scope := if mode = .semantic then "semantic_forgetting" else "payload_only"
  basisSeq := sweep.managed.nexus.seq
  sourceEventRefs := sortIds (distinct sweep.roots)
  targets := sweep.targets
  externalExports := w.delivered (sweep.targets.map ErasedTarget.ref)
  status := sweep.status
  receipts := [receiptRef]

def planRefOf (receiptRef : String) : String := "plan-"++String.ofList (receiptRef.toList.drop 5)

/-- The status a forget ends with, once the engine has read the plan of a complete one. -/
def verdict (session : Session) (w : World) (receiptRef : String) (mode : ForgetMode)
    (sweep : Sweep) (host : ℕ) : ForgetStatus × String :=
  let checked := if sweep.status = .completed then
      match session.validateErasurePlan sweep.managed.nexus (planOf w receiptRef mode sweep) with
      | .ok () => (ForgetStatus.completed,sweep.summary)
      | .error e => (.incomplete,"the erasure could not be verified complete: "++e.message)
    else (sweep.status,sweep.summary)
  if checked.2.isEmpty then
    (checked.1,"Erased "++toString sweep.targets.length++" element(s) or payload(s) and "++
      toString host++" host copy surface(s).")
  else checked

/-- How a forget's receipt ends. A partial one stores its result without a terminal. -/
def settleForget (w : World) (receiptRef : String) (record : IntakeRecord) (seq : ℕ)
    (verdict : ForgetStatus × String) : World × Except Failure IntakeRecord :=
  let result := StoredResult.erasure verdict.1 (planRefOf receiptRef) verdict.2
  match verdict.1 with
  | .completed =>
    settle w receiptRef ⟨receiptRef,.available,some .erased,some seq,some seq,none,none⟩
      (some result) []
  | .blocked =>
    settle w receiptRef
      (failedProgress receiptRef verdict.2 (memoryError "LegalHoldConflict" verdict.2))
      (some result) []
  | .incomplete =>
    let stored := { record with result := some result, warnings := ["partial: "++verdict.2] }
    (w.putReceipt receiptRef stored,.ok stored)

def runForget (site : Site) (session : Session) (w : World) (now : ℕ) (ns receiptRef : String)
    (request : ForgetRequest) (record : IntakeRecord) : World × Except Failure IntakeRecord :=
  match locate w ns request with
  | .error e =>
    settle w receiptRef (failedProgress receiptRef "the erasure could not run" (failureCode e)) none []
  | .ok loc =>
    match sweep site.toDigests session w now receiptRef request loc with
    | (swept,some e) =>
      settle { w with managed := swept.managed } receiptRef
        (failedProgress receiptRef "the erasure could not run" (failureCode e)) none []
    | (swept,none) =>
      let host := clearable w swept.suppressed loc.staged
      let cleared := host.foldl eraseStaged { w with managed := swept.managed }
      let done := if loc.staged.isSome then
          { cleared with managed := suppressSources cleared.managed swept.suppressed }
        else cleared
      settleForget done receiptRef record done.nexus.seq
        (verdict session w receiptRef request.mode swept host.length)

def forgetRef (site : Site) (ns space key : String) : String :=
  receiptRefOf site ns space .forget key

def forget (site : Site) (session : Session) (w : World) (now : ℕ) (ns space : String)
    (request : ForgetRequest) (owner : Bool) : World × Except Failure IntakeRecord :=
  if request.mode = .semantic ∧ owner = false then
    (w,.error (memoryError "NotAuthorized" "a semantic forget is the owner's decision"))
  else
    let receiptRef := forgetRef site ns space request.idempotencyKey
    match w.receipts.lookup receiptRef with
    | some existing =>
      if existing.ns ≠ ns ∨
          existing.intentDigest ≠ site.forgetMeaning request.target.text (request.mode = .semantic) then
        (w,.error (memoryError "IdempotencyConflict"
          "this idempotency key was used for a different request"))
      else (w,.ok existing)
    | none =>
      let record := forgetReceipt site w now ns receiptRef request
      runForget site session (w.putReceipt receiptRef record) now ns receiptRef request record

end AndaBrain.WorkerMemory
