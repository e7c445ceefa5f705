import AndaBrain.Json
import AndaBrain.Foundation.ConditionalStore
import Mathlib.Data.List.Sort
import Mathlib.Data.String.Basic

/-!
# Utility calibration

`consequence/utility.rs` and `consequence/utility/transaction.rs`: outcomes are
queued for the memory they are attributed to, a selection of their independent
units is calibrated, and the calibration is committed in one native transaction.
The journal holds the catalog of targets, the targets, the reservation of each
unit and the results; the native store keeps one transaction for each
idempotency key. A digest is modelled by the content it was computed from, and
the arithmetic on floats is a parameter.
-/

set_option autoImplicit false

namespace AndaBrain.Utility
open Foundation.Resumption Foundation.ConditionalStore

def maxTargets : ℕ := 4096
def maxSamples : ℕ := 64

structure MemoryPin where
  id : String
  version : ℕ
  contentDigest : String
  deriving DecidableEq

abbrev Entries := List (String × String)

def insertEntry (m : Entries) (key value : String) : Entries :=
  (m.filter fun e => e.1 ≠ key).orderedInsert (fun a b => a.1 ≤ b.1) (key,value)

def extendEntries (m more : Entries) : Entries :=
  more.foldl (fun m e => insertEntry m e.1 e.2) m

def insertMember (xs : List String) (x : String) : List String :=
  if x ∈ xs then xs else xs.orderedInsert (fun a b => a ≤ b) x

structure AttributionSample where
  outcomeRef : String
  target : MemoryPin
  evidenceDigests : Entries
  independentUnit : String
  effect : Option F64
  lowerBound : Option F64
  upperBound : Option F64
  confidence : Option F64
  independentSamples : ℕ
  reason : Option String
  deriving DecidableEq

structure UtilityParameters where
  stepCap : F64
  minimumIndependentSamples : ℕ
  gain : F64
  minimumConfidence : F64
  initialUtility : Option F64

structure UtilityConfig where
  digest : String
  contractDigest : String
  paired : Bool
  parameters : Option UtilityParameters
  approved : Bool
  apply : Bool
  valid : Except String Unit

def UtilityConfig.calibrated (c : UtilityConfig) : Bool := c.parameters.isSome && c.approved

structure Estimate where
  effect : F64
  lower : F64
  upper : F64
  confidence : F64
  deriving DecidableEq

/-- The arithmetic of the runtime on floats. `pooled` weighs the numbers of the
samples and fails where one of them has none. -/
structure Arithmetic where
  pooled : List AttributionSample → ℕ → Except String Estimate
  capped : UtilityParameters → F64 → F64
  moved : F64 → F64 → F64

structure Site where
  config : UtilityConfig
  arithmetic : Arithmetic

structure CalibrationKey where
  target : String
  content : Option String
  contract : String
  selected : List String
  excluded : Entries
  evidence : Entries
  deriving DecidableEq

structure CalibrationReceipt where
  calibrationKey : CalibrationKey
  target : String
  targetPin : Option MemoryPin
  selectedOutcomes : List String
  excluded : Entries
  evidenceRefs : List String
  uncertainty : Option Estimate
  independentSamples : ℕ
  oldValue : Option F64
  newValue : Option F64
  initialAssumption : Option F64
  delta : Option F64
  applied : Bool
  reason : Option String
  previousReceipt : Option String
  deriving DecidableEq

structure UtilityResult where
  receipt : CalibrationReceipt
  evidenceRef : Option String
  deriving DecidableEq

/-- The native request. Its idempotency key is the calibration key with the
generation of the target. -/
structure Request where
  calibrationKey : CalibrationKey
  generation : ℕ
  receipt : CalibrationReceipt
  deriving DecidableEq

structure Pending where
  request : Request
  result : UtilityResult
  samples : List String
  evidence : Entries
  deriving DecidableEq

structure Target where
  id : String
  outcomes : List String
  last : Option UtilityResult
  pending : Option Pending
  rankPin : Option MemoryPin
  rankEvidence : Entries
  applied : Option UtilityResult
  generation : ℕ
  deriving DecidableEq

def Target.new (id : String) : Target := ⟨id,[],none,none,none,[],none,0⟩

structure UnitClaim where
  target : String
  calibrationKey : CalibrationKey
  receipt : Option String
  deriving DecidableEq

structure Catalog where
  allocated : ℕ
  cursor : ℕ
  sourceCursor : ℕ
  pending : Option Target
  deriving DecidableEq

def Catalog.default : Catalog := ⟨0,0,0,none⟩

inductive Key where
  | registration (digest : String)
  | catalog
  | slot (n : ℕ)
  | target (id : String)
  | unit (id : String)
  | result (key : CalibrationKey)
  deriving DecidableEq

def Entry : Key → Type
  | .registration _ => String
  | .catalog => Catalog
  | .slot _ => String
  | .target _ => Target
  | .unit _ => UnitClaim
  | .result _ => UtilityResult

instance (k : Key) : DecidableEq (Entry k) :=
  match k with
  | .registration _ => inferInstanceAs (DecidableEq String)
  | .catalog => inferInstanceAs (DecidableEq Catalog)
  | .slot _ => inferInstanceAs (DecidableEq String)
  | .target _ => inferInstanceAs (DecidableEq Target)
  | .unit _ => inferInstanceAs (DecidableEq UnitClaim)
  | .result _ => inferInstanceAs (DecidableEq UtilityResult)

structure TargetRow where
  pin : Option MemoryPin
  utility : Option F64
  isRevision : Bool

/-- The answer to a native commit: an error without an effect, an error after the
transaction took effect, or the reference of the receipt. -/
inductive Executed where
  | refused (conflict : Bool) (e : String)
  | lost (conflict : Bool) (e : String)
  | done (reference : String)

structure Env where
  storage : Service String
  native : Except String Unit
  trace : String → Except String AttributionSample
  row : String → Option TargetRow
  currentRevision : Except String Bool
  prepare : Except String Unit
  describe : Except String String
  usable : String → String → Bool
  execute : Executed
  page : ℕ → Except String (List String × ℕ)

structure Tx where
  request : Request
  samples : List String
  deriving DecidableEq

structure World where
  journal : Store Key Entry
  txs : List Tx

instance : Holds World Key Entry where
  store := World.journal
  withStore w st := { w with journal := st }
  store_withStore _ _ := rfl

instance : Serves Env String where
  service := Env.storage
  refused := "precondition failed"
  conflict := "learning journal conditional-write conflict"

abbrev M := Prog String Env World

def need {α : Type} (o : Option α) (e : String) : Except String α :=
  match o with
  | some a => .ok a
  | none => .error e

def readValue (k : Key) : M (Option (Entry k)) := do
  let row ← read k
  pure (row.map Versioned.value)

def findRegistration (digest : String) : M (Option String) := readValue (.registration digest)

def findCatalog : M (Option Catalog) := readValue .catalog

def findTarget (id : String) : M (Option Target) := readValue (.target id)

def findUnit (id : String) : M (Option UnitClaim) := readValue (.unit id)

def findResult (key : CalibrationKey) : M (Option UtilityResult) := readValue (.result key)

def repair (catalog : Catalog) (target : Target) : M Unit := do
  let found ← findTarget target.id
  doIf (found.isNone = true) (confirmedPut (.target target.id) target .create)
  confirmedPut (.slot catalog.allocated) target.id .create
  confirmedSave .catalog { catalog with pending := none }

def repairPending (catalog : Option Catalog) : M Unit :=
  match catalog with
  | none => pure ()
  | some catalog =>
    match catalog.pending with
    | none => pure ()
    | some target => repair catalog target

def registerConfig (site : Site) : M Unit := do
  match ← findRegistration site.config.digest with
  | some old =>
    refuseIf (old ≠ site.config.digest)
      "utility contract is immutable while calibration history exists"
  | none => confirmedPut (.registration site.config.digest) site.config.digest .create

def register (site : Site) : M Unit := do
  lift site.config.valid
  registerConfig site
  let catalog ← findCatalog
  repairPending catalog

def readTarget (id : String) : M Target := do
  let found ← findTarget id
  lift (need found "utility target not registered")

/-- Publishes a new target: its slot is reserved with the whole target before the
slot and the target are written. -/
def publish (catalog : Catalog) (target : Target) : M Unit := do
  refuseIf (maxTargets ≤ catalog.allocated) "utility target capacity reached"
  let catalog := { catalog with allocated := catalog.allocated+1, pending := some target }
  confirmedSave .catalog catalog
  confirmedPut (.slot catalog.allocated) target.id .create
  confirmedSave (.target target.id) target
  confirmedSave .catalog { catalog with pending := none }

def admitTo (target : Target) (known : Bool) (outcome : String) : M Unit := do
  refuseIf (outcome ∉ target.outcomes ∧ maxSamples ≤ target.outcomes.length)
    "utility target evidence capacity reached"
  let target := { target with outcomes := insertMember target.outcomes outcome }
  if known then confirmedSave (.target target.id) target
  else do
    let catalog ← findCatalog
    publish (catalog.getD Catalog.default) target

def enqueue (site : Site) (outcome : String) : M Unit := do
  register site
  let sample ← query fun i _ => i.trace outcome
  let old ← findTarget sample.target.id
  admitTo (old.getD (Target.new sample.target.id)) old.isSome outcome

structure Gathered where
  excluded : Entries
  samples : List AttributionSample
  seen : List String
  digests : Entries

def Gathered.exclude (acc : Gathered) (outcome reason : String) : Gathered :=
  { acc with excluded := insertEntry acc.excluded outcome reason }

/-- An eligible sample is taken once for each unit that is not consumed yet. -/
def Gathered.take (acc : Gathered) (outcome : String) (sample : AttributionSample)
    (claim : Option UnitClaim) : Gathered :=
  if claim.any (fun u => u.receipt.isSome) then
    acc.exclude outcome "already_consumed_independent_unit"
  else if sample.independentUnit ∈ acc.seen then
    acc.exclude outcome "duplicate_independent_root"
  else { acc with
    seen := acc.seen++[sample.independentUnit]
    samples := acc.samples++[sample] }

def gather : List String → Gathered → M Gathered
  | [], acc => pure acc
  | outcome::rest, acc => do
    match ← attempt (query fun i _ => i.trace outcome) with
    | .error _ => gather rest (acc.exclude outcome "evidence_unavailable_or_invalidated")
    | .ok sample => do
      let acc := { acc with digests := extendEntries acc.digests sample.evidenceDigests }
      match sample.reason with
      | some reason => gather rest (acc.exclude outcome reason)
      | none => do
        let claim ← findUnit sample.independentUnit
        gather rest (acc.take outcome sample claim)

structure Selection where
  row : Option TargetRow
  samples : List AttributionSample
  excluded : Entries
  digests : Entries

def Selection.pin (s : Selection) : Option MemoryPin := s.row.bind TargetRow.pin

def isCurrent (pin : Option MemoryPin) (s : AttributionSample) : Bool :=
  pin.any fun p => p.id == s.target.id && p.contentDigest == s.target.contentDigest

def batch (c : UtilityConfig) : ℕ :=
  if c.paired then 1
  else match c.parameters with
    | none => 64
    | some p => p.minimumIndependentSamples

def select (c : UtilityConfig) (row : Option TargetRow) (g : Gathered) : Selection :=
  let pin := row.bind TargetRow.pin
  let excluded := (g.samples.filter fun s => !isCurrent pin s).foldl
    (fun m s => insertEntry m s.outcomeRef "memory_content_changed") g.excluded
  let samples := (g.samples.filter (isCurrent pin)).take (batch c)
  ⟨row,samples,excluded,g.digests.filter fun e =>
    samples.any (fun s => s.evidenceDigests.any (fun d => d.1 == e.1)) ||
      excluded.any (fun x => x.1 == e.1)⟩

def uncertain (p : UtilityParameters) (e : Option Estimate) : Bool :=
  e.all fun e => e.confidence.partialCmp p.minimumConfidence == some .lt ||
    ((e.lower.partialCmp (.finite 0)).any Ordering.isLE &&
      (e.upper.partialCmp (.finite 0)).any Ordering.isGE)

def groupSize (samples : List AttributionSample) : ℕ :=
  (samples.map AttributionSample.independentSamples).sum

def verdict (c : UtilityConfig) (id : String) (s : Selection) (e : Option Estimate) :
    Option String :=
  match s.row with
  | none => some "target_unavailable"
  | some row =>
    if !"C-".toList.isPrefixOf id.toList then some "mnemonic_state_requires_concept"
    else if s.samples.isEmpty then some "no_new_attributable_evidence"
    else match c.parameters with
      | none => some "parameters_missing"
      | some p =>
        if !c.calibrated then some "calibration_missing"
        else if !c.apply then some "proposal_only"
        else if groupSize s.samples < p.minimumIndependentSamples then
          some "insufficient_independent_samples"
        else if uncertain p e then some "uncertain_effect"
        else if (row.utility.or p.initialUtility).isNone then
          some "initial_admission_assumption_missing"
        else none

def Selection.outcomes (s : Selection) : List String :=
  s.samples.map AttributionSample.outcomeRef

def calibrationKey (c : UtilityConfig) (id : String) (s : Selection) : CalibrationKey where
  target := id
  content := s.pin.map MemoryPin.contentDigest
  contract := c.contractDigest
  selected := s.outcomes
  excluded := s.excluded
  evidence := s.digests

def receiptOf (site : Site) (target : Target) (s : Selection) (e : Option Estimate)
    (reason : Option String) : CalibrationReceipt :=
  let old := s.row.bind TargetRow.utility
  let prior := site.config.parameters.bind UtilityParameters.initialUtility
  let delta := e.bind fun e => site.config.parameters.map fun p =>
    site.arithmetic.capped p e.effect
  { calibrationKey := calibrationKey site.config target.id s
    target := target.id
    targetPin := s.pin
    selectedOutcomes := s.outcomes
    excluded := s.excluded
    evidenceRefs := s.digests.map Prod.fst
    uncertainty := e
    independentSamples := groupSize s.samples
    oldValue := old
    newValue := if reason.isNone then
        (old.or prior).bind fun v => delta.map fun d => site.arithmetic.moved v d
      else old
    initialAssumption := if target.applied.isNone then old.or prior else none
    delta := delta
    applied := reason.isNone
    reason := reason
    previousReceipt := target.last.bind UtilityResult.evidenceRef }

def pendingOf (target : Target) (s : Selection) (receipt : CalibrationReceipt) : Pending where
  request := ⟨receipt.calibrationKey,target.generation,receipt⟩
  result := ⟨receipt,none⟩
  samples := if receipt.applied then s.samples.map AttributionSample.independentUnit else []
  evidence := s.digests

def World.committed (w : World) (p : Pending) : Option Tx :=
  w.txs.find? fun tx => tx.request.calibrationKey = p.request.calibrationKey &&
    tx.request.generation = p.request.generation

/-- The receipt of the transaction with the intent's idempotency key, if there is
one. It must be this intent's receipt. -/
def recovered (p : Pending) : M (Option String) :=
  query fun i w =>
    match i.describe with
    | .error e => .error e
    | .ok reference =>
      match w.committed p with
      | none => .ok none
      | some tx => if tx.request.receipt = p.result.receipt then .ok (some reference)
          else .error "committed utility receipt missing"

def holdUnit (target : Target) (p : Pending) (id : String) : M Unit := do
  match ← findUnit id with
  | some held =>
    refuseIf (held.target ≠ target.id ∨ held.calibrationKey ≠ p.result.receipt.calibrationKey)
      "independent sample already reserved for another attribution"
  | none => confirmedPut (.unit id) ⟨target.id,p.result.receipt.calibrationKey,none⟩ .create

def holdUnits (target : Target) (p : Pending) : List String → M Unit
  | [] => pure ()
  | id::rest => do
    holdUnit target p id
    holdUnits target p rest

def Target.dropped (target : Target) : Target :=
  { target with pending := none, generation := target.generation+1 }

def recheck (target : Target) : Entries → M Unit
  | [] => pure ()
  | e::rest => do
    let current ← query fun i _ => .ok (i.usable e.1 e.2)
    if current then recheck target rest
    else do
      confirmedSave (.target target.id) target.dropped
      .fail "utility evidence changed before commit; recompute on next pass"

/-- The native commit. A request whose idempotency key is known does not commit
again. -/
def execute (p : Pending) : M (Except (Bool × String) String) :=
  atomic
    (fun i w => match i.execute with
      | .refused _ _ => w
      | _ => if (w.committed p).isSome then w
          else { w with txs := w.txs++[⟨p.request,p.samples⟩] })
    (fun i _ => .ok (match i.execute with
      | .refused conflict e => .error (conflict,e)
      | .lost conflict e => .error (conflict,e)
      | .done reference => .ok reference))

def dropOnConflict (target : Target) (p : Pending) (conflict : Bool) : M Unit :=
  if conflict then do
    let found ← recovered p
    doIf (found.isNone = true) (confirmedSave (.target target.id) target.dropped)
  else pure ()

def executeNew (target : Target) (p : Pending) : M String := do
  holdUnits target p p.samples
  if p.result.receipt.applied then recheck target p.evidence else pure ()
  match ← execute p with
  | .ok reference => pure reference
  | .error (conflict,e) => do
    dropOnConflict target p conflict
    .fail ("utility native commit unresolved: "++e)

def consumeUnits (target : Target) (result : UtilityResult) : List String → M Unit
  | [] => pure ()
  | id::rest => do
    confirmedSave (.unit id) ⟨target.id,result.receipt.calibrationKey,result.evidenceRef⟩
    consumeUnits target result rest

def Target.settled (target : Target) (p : Pending) (result : UtilityResult) : Target :=
  let target := if result.receipt.applied then
      { target with
        applied := some result
        rankPin := result.receipt.targetPin
        rankEvidence := p.evidence
        outcomes := target.outcomes.filter fun id => id ∉ result.receipt.selectedOutcomes }
    else target
  { target with
    outcomes := target.outcomes.filter fun id => id ∉ result.receipt.excluded.map Prod.fst
    last := some result
    pending := none }

def finish (target : Target) (p : Pending) (reference : String) : M UtilityResult := do
  let result : UtilityResult := { p.result with evidenceRef := some reference }
  consumeUnits target result p.samples
  confirmedPut (.result result.receipt.calibrationKey) result .create
  confirmedSave (.target target.id) (target.settled p result)
  pure result

def referenceOf (target : Target) (p : Pending) (found : Option String) : M String :=
  match found with
  | some reference => pure reference
  | none => executeNew target p

def commit (target : Target) (p : Pending) : M UtilityResult := do
  query fun i _ => i.native
  let found ← recovered p
  let reference ← referenceOf target p found
  finish target p reference

def intend (target : Target) (p : Pending) : M UtilityResult := do
  confirmedSave (.target target.id) { target with pending := some p }
  commit { target with pending := some p } p

def replays (s : Selection) (target : Target) : Option UtilityResult :=
  if s.samples.isEmpty && s.excluded.all (fun e =>
      e.2 == "already_consumed_independent_unit" || e.2 == "duplicate_independent_root") then
    target.applied
  else none

def revisionOk (row : Option TargetRow) : M Bool :=
  if row.any TargetRow.isRevision then query fun i _ => i.currentRevision else pure true

def propose (target : Target) (s : Selection) (receipt : CalibrationReceipt) :
    M UtilityResult := do
  match ← findResult receipt.calibrationKey with
  | some previous => pure previous
  | none => do
    query fun i _ => i.prepare
    intend target (pendingOf target s receipt)

def recalibrate (site : Site) (target : Target) : M UtilityResult := do
  let gathered ← gather target.outcomes ⟨[],[],[],[]⟩
  let row ← query fun i _ => .ok (i.row target.id)
  let s := select site.config row gathered
  let e ← lift (if s.samples.isEmpty then .ok none
    else (site.arithmetic.pooled s.samples (groupSize s.samples)).map some)
  let current ← revisionOk row
  let reason := if current then verdict site.config target.id s e
    else some "revision_is_not_current_or_eligible"
  match replays s target with
  | some applied => pure applied
  | none => propose target s (receiptOf site target s e reason)

def Target.refilled (target : Target) : Target :=
  match target.outcomes, target.applied with
  | [], some applied =>
    { target with outcomes := applied.receipt.selectedOutcomes.foldl insertMember [] }
  | _, _ => target

def evaluateIdle (site : Site) (target : Target) : M UtilityResult :=
  match target.outcomes, target.applied, target.last with
  | [], none, some last => pure last
  | _, _, _ => recalibrate site target.refilled

def evaluateInner (site : Site) (id : String) : M UtilityResult := do
  let target ← readTarget id
  match target.pending with
  | some p => commit target p
  | none => evaluateIdle site target

def evaluate (site : Site) (id : String) : M UtilityResult := do
  register site
  evaluateInner site id

def readCatalog : M Catalog := do
  let catalog ← findCatalog
  pure (catalog.getD Catalog.default)

def openTick (site : Site) : M Catalog := do
  register site
  readCatalog

def closeTick (cursor sourceCursor : ℕ) : M Unit := do
  let current ← readCatalog
  confirmedSave .catalog { current with cursor := cursor, sourceCursor := sourceCursor }

inductive Op where
  | enqueue (outcome : String)
  | evaluate (id : String)
  | openTick
  | closeTick (cursor sourceCursor : ℕ)

/-- Everything that holds the runtime's gate. A tick releases it between its
parts, so other operations may come in between. -/
def operate (site : Site) : Op → M Unit
  | .enqueue outcome => enqueue site outcome
  | .evaluate id => do
    let _ ← evaluate site id
    pure ()
  | .openTick => do
    let _ ← openTick site
    pure ()
  | .closeTick cursor sourceCursor => closeTick cursor sourceCursor

def World.empty : World := ⟨⟨fun _ => none,0⟩,[]⟩

/-- Every state the runtime reaches from an empty journal, over any schedule of
operations, answers of its environment and stops. -/
def reached (site : Site) (events : List (Event Op Env)) : World :=
  (run (operate site) id ⟨World.empty,none,[]⟩ events).state

end AndaBrain.Utility
