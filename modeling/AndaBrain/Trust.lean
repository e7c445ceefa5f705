import AndaBrain.Utility
import AndaBrain.Foundation.Utf8Text

/-!
# Trust calibration

`consequence/trust/runtime.rs`, `proposal.rs` and `governance.rs`: a proposal takes the first
verified samples whose roots are free, and a governor applies it to the versioned trust control or
abandons it.
-/

set_option autoImplicit false

namespace AndaBrain.Trust
open Foundation.Resumption Foundation.ConditionalStore
open Utility (Entries insertEntry insertMember)

inductive TrustError where
  | ineligible (reason : String)
  | failed (reason : String)
  deriving DecidableEq

structure TrustParameters where
  minimumSamples : ℕ

structure TrustConfig where
  governorPrincipal : Option String
  predicateRef : String
  contextRef : String
  contractDigest : String
  parameters : Option TrustParameters
  approved : Bool
  apply : Bool
  valid : Except TrustError Unit

def TrustConfig.calibrated (c : TrustConfig) : Bool := c.parameters.isSome && c.approved

def TrustConfig.needed (c : TrustConfig) : ℕ := c.parameters.elim 32 TrustParameters.minimumSamples

structure ContextualTrustRule where
  id : String
  actorRef : String
  predicateRef : Option String
  contextRef : Option String
  weight : F64
  deriving DecidableEq

structure TrustConfiguration where
  weights : List (String × F64)
  defaultWeight : F64
  rules : List ContextualTrustRule
  deriving DecidableEq

/-- `concept` is the check of a reference to a Concept. -/
structure Site where
  config : Option TrustConfig
  concept : String → Except TrustError Unit

def Site.cfg (site : Site) : Except TrustError TrustConfig :=
  match site.config with
  | none => .error (.failed "trust is not configured")
  | some c =>
    match c.valid with
    | .error e => .error e
    | .ok _ => .ok c

structure TrustCalibrationProposal where
  expectedVersion : ℕ
  configuration : TrustConfiguration
  evidenceRefs : List String
  deriving DecidableEq

inductive ProposalId where
  | accuracy (contract actor : String) (version : ℕ) (configuration : TrustConfiguration)
      (epoch : ℕ) (evidence : List String) (excluded : Entries)
  | restore (previous : ProposalId) (version : ℕ) (evidence : List String)
      (reason governor : String)
  deriving DecidableEq

/-- The native proposal as it was reviewed; its review names the proposal. -/
structure Reviewed where
  native : TrustCalibrationProposal
  principal : String
  reason : String
  proposalId : ProposalId
  deriving DecidableEq

structure TrustProposal where
  id : ProposalId
  contractDigest : String
  actorRef : String
  predicateRef : String
  contextRef : String
  expectedVersion : ℕ
  proposedRule : Option ContextualTrustRule
  evidenceRefs : List String
  roots : List String
  excluded : Entries
  nativeProposal : Option TrustCalibrationProposal
  restores : Option ProposalId
  deriving DecidableEq

structure TrustReceipt where
  proposalId : ProposalId
  reviewedProposal : Reviewed
  governor : String
  version : ℕ
  spaceSeq : ℕ
  controlRef : String
  deriving DecidableEq

structure ProposalJob where
  id : ProposalId
  actor : String
  report : TrustProposal
  sources : List String
  roots : List String
  reviewed : Option Reviewed
  governor : Option String
  receipt : Option TrustReceipt
  stale : Bool
  notified : Bool
  deriving DecidableEq

structure RootClaim where
  proposal : ProposalId
  applied : Bool
  abandoned : Bool
  deriving DecidableEq

structure Source where
  clientKey : String
  bodyDigest : String
  reference : Option String
  deriving DecidableEq

structure TargetKey where
  actor : String
  contract : String
  deriving DecidableEq

structure Target where
  id : TargetKey
  sources : List Source
  latest : Option ProposalId
  epoch : ℕ
  deriving DecidableEq

structure Catalog where
  targets : List TargetKey
  cursor : ℕ
  sourceCursor : ℕ
  pending : Option Target
  deriving DecidableEq

structure Abandonment where
  report : TrustProposal
  principal : String
  reason : String
  deriving DecidableEq

structure Discovery where
  reference : String
  reason : String
  contract : String
  deriving DecidableEq

inductive Key where
  | catalog
  | target (id : TargetKey)
  | job (id : ProposalId)
  | unit (root : String)
  | abandonment (id : ProposalId)
  | discoveryExcluded (reference : String)
  deriving DecidableEq

def Entry : Key → Type
  | .catalog => Catalog
  | .target _ => Target
  | .job _ => ProposalJob
  | .unit _ => RootClaim
  | .abandonment _ => Abandonment
  | .discoveryExcluded _ => Discovery

instance (k : Key) : DecidableEq (Entry k) :=
  match k with
  | .catalog => inferInstanceAs (DecidableEq Catalog)
  | .target _ => inferInstanceAs (DecidableEq Target)
  | .job _ => inferInstanceAs (DecidableEq ProposalJob)
  | .unit _ => inferInstanceAs (DecidableEq RootClaim)
  | .abandonment _ => inferInstanceAs (DecidableEq Abandonment)
  | .discoveryExcluded _ => inferInstanceAs (DecidableEq Discovery)

structure ControlRow where
  version : ℕ
  seq : ℕ
  configuration : TrustConfiguration
  calibration : Option Reviewed
  principal : String
  recordId : String
  deriving DecidableEq

structure Commit where
  expected : ℕ
  reviewed : Reviewed
  principal : String
  recordId : String
  gap : ℕ

inductive Outside where
  | setting (configuration : TrustConfiguration) (principal recordId : String) (gap : ℕ)
  | settle
  | drop

structure Sample where
  reference : String
  actor : String
  unit : String
  claimGroup : String
  sequence : ℕ
  correct : Option Bool
  sources : List String
  reason : Option String

/-- The answer to a native application: refused; committed, or refused for its
version, with or without an acknowledgement; or interrupted. -/
inductive Applied where
  | refused (e : TrustError)
  | served (conflict : TrustError)
  | lost (e : TrustError)
  | interrupted (e : TrustError)

structure Env where
  storage : Service TrustError
  permitted : Except TrustError Unit
  outside : List Outside
  recover : Except TrustError Unit
  control : Except TrustError Unit
  artifact : Except TrustError Unit
  resolve : Source → Except TrustError (Option String)
  sample : String → Except TrustError Sample
  evidence : String → Except TrustError (String × String)
  corrected : String → Except TrustError Bool
  applied : Applied
  recordId : String
  gap : ℕ
  bytes : ℕ
  bound : Bool
  trustChanged : Except TrustError Unit
  page : ℕ → Except TrustError (List String × ℕ)
  verified : Except TrustError (String × Source)
  registered : Except TrustError Unit
  recorded : Except TrustError String

/-- The journal, the rows of the trust control with the newest first, and a commit
that was interrupted. -/
structure World where
  journal : Store Key Entry
  control : List ControlRow
  pending : Option Commit

instance : Holds World Key Entry where
  store := World.journal
  withStore w st := { w with journal := st }
  store_withStore _ _ := rfl

instance : Serves Env TrustError where
  service := Env.storage
  refused := .failed "precondition failed"
  conflict := .failed "learning journal conditional-write conflict"

abbrev M := Prog TrustError Env World

def need {α : Type} (o : Option α) (e : String) : Except TrustError α :=
  match o with
  | some a => .ok a
  | none => .error (.failed e)

def World.version (w : World) : ℕ := w.control.head?.elim 0 ControlRow.version

def World.seq (w : World) : ℕ := w.control.head?.elim 0 ControlRow.seq

def World.push (w : World) (configuration : TrustConfiguration) (calibration : Option Reviewed)
    (principal recordId : String) (gap : ℕ) : World :=
  { w with control :=
      ⟨w.version+1,w.seq+1+gap,configuration,calibration,principal,recordId⟩::w.control }

/-- The compare-and-set: a row with the reviewed pin, if the version is still the
expected one. -/
def World.commit (w : World) (c : Commit) : World :=
  if w.version = c.expected then
    w.push c.reviewed.native.configuration (some c.reviewed) c.principal c.recordId c.gap
  else w

def World.settled (w : World) : World :=
  match w.pending with
  | none => w
  | some c => { w with pending := none }.commit c

def World.outside (w : World) : Outside → World
  | .setting configuration principal recordId gap => w.push configuration none principal recordId gap
  | .settle => w.settled
  | .drop => { w with pending := none }

def World.meanwhile (w : World) (i : Env) : World := i.outside.foldl World.outside w

def native {α : Type} (f : Env → World → Except TrustError α) : M α :=
  atomic (fun i w => w.meanwhile i) fun i w => f i (w.meanwhile i)

def recover : M Unit :=
  atomic
    (fun i w => match i.recover with
      | .ok _ => (w.meanwhile i).settled
      | .error _ => w.meanwhile i)
    fun i _ => i.recover

def readControl (moment : Option ℕ) : M (Option ControlRow) :=
  native fun i w =>
    match i.control with
    | .error e => .error e
    | .ok _ => .ok (match moment with
      | none => w.control.head?
      | some seq => w.control.find? fun row => row.seq ≤ seq)

def artifact : M Unit := query fun i _ => i.artifact

def readValue (k : Key) : M (Option (Entry k)) := do
  let row ← read k
  pure (row.map Versioned.value)

def findTarget (id : TargetKey) : M (Option Target) := readValue (.target id)

def findJob (id : ProposalId) : M (Option ProposalJob) := readValue (.job id)

def findUnit (root : String) : M (Option RootClaim) := readValue (.unit root)

def governor (site : Site) (principal : String) : M Unit := do
  let cfg ← lift site.cfg
  refuseIf (¬(cfg.apply = true ∧ cfg.calibrated = true ∧ cfg.governorPrincipal = some principal))
    (.failed "trust application is not enabled for this calibrated governor")
  query fun i _ => i.permitted

def historyError : TrustError :=
  .failed "trust version history is unavailable; commit cannot be assumed absent"

def search (version : ℕ) : ℕ → ℕ → ℕ → M (Option ControlRow)
  | 0, _, _ => .fail historyError
  | rounds+1, lo, hi =>
    if hi < lo then .fail historyError
    else do
      let mid := lo+(hi-lo)/2
      match ← readControl (some mid) with
      | none => search version rounds (mid+1) hi
      | some row =>
        if row.version = version then pure (some row)
        else if version < row.version then
          if mid = 0 then .fail historyError else search version rounds lo (mid-1)
        else search version rounds (mid+1) hi

def controlVersion (version : ℕ) : M (Option ControlRow) := do
  let found ← readControl none
  let current ← lift (need found "native trust configuration unavailable")
  if current.version < version then pure none
  else if current.version = version then pure (some current)
  else search version 64 0 current.seq

def receiptOf (job : ProposalJob) (reviewed : Reviewed) (governor : String) (row : ControlRow) :
    TrustReceipt :=
  ⟨job.id,reviewed,governor,row.version,row.seq,row.recordId⟩

def recovered (job : ProposalJob) (p : TrustProposal) : M (Option TrustReceipt) :=
  match job.reviewed, job.governor with
  | some reviewed, some governor => do
    match ← controlVersion (p.expectedVersion+1) with
    | none => pure none
    | some row =>
      if row.calibration ≠ some reviewed then pure none
      else do
        refuseIf (row.principal ≠ governor) (.failed "trust receipt author mismatch")
        pure (some (receiptOf job reviewed governor row))
  | _, _ => pure none

def jobOf (id : ProposalId) : M ProposalJob := do
  let found ← findJob id
  lift (need found "trust proposal missing")

def proposal (id : ProposalId) : M TrustProposal := do
  let job ← jobOf id
  artifact
  refuseIf (job.report.id ≠ id) (.failed "trust proposal identity mismatch")
  pure job.report

def saveJob (job : ProposalJob) : M Unit := confirmedSave (.job job.id) job

def trustControl : M (ℕ × TrustConfiguration) := do
  let found ← readControl none
  let row ← lift (need found "native trust configuration unavailable")
  pure (row.version,row.configuration)

def reasonOk (reason : String) : Bool :=
  !reason.toList.all Foundation.Utf8Text.isWhitespace && decide (reason.utf8ByteSize ≤ 4096)

def releaseRoot (job : ProposalJob) (root : String) : M Unit := do
  match ← findUnit root with
  | none => pure ()
  | some claim =>
    doIf (claim.proposal = job.id ∧ claim.applied = false)
      (confirmedSave (.unit root) { claim with abandoned := true })

def releaseRoots (job : ProposalJob) : List String → M Unit
  | [] => pure ()
  | root::rest => do
    releaseRoot job root
    releaseRoots job rest

def stale (job : ProposalJob) : M Unit := do
  saveJob { job with stale := true }
  releaseRoots { job with stale := true } job.roots

def consumeRoots (job : ProposalJob) : List String → M Unit
  | [] => pure ()
  | root::rest => do
    confirmedSave (.unit root) ⟨job.id,true,false⟩
    consumeRoots job rest

def excludedReason (m : Entries) (reference : String) : Option String :=
  (m.find? fun e => e.1 = reference).map Prod.snd

def keptAfter (p : TrustProposal) (s : Source) : Bool :=
  s.reference.all fun r => !p.evidenceRefs.contains r &&
    (excludedReason p.excluded r).all fun reason => reason == "outside_fixed_first_n_group"

def targetKey (site : Site) (actor : String) : Except TrustError TargetKey := do
  site.concept actor
  let cfg ← site.cfg
  pure ⟨actor,cfg.contractDigest⟩

def drain (site : Site) (p : TrustProposal) : M Unit :=
  if p.restores.isNone then do
    let key ← lift (targetKey site p.actorRef)
    match ← findTarget key with
    | none => pure ()
    | some target =>
      confirmedSave (.target key) { target with sources := target.sources.filter (keptAfter p) }
  else pure ()

def notify (job : ProposalJob) : M Unit :=
  if job.notified then pure ()
  else do
    query fun i _ => if i.bound then i.trustChanged else .ok ()
    saveJob { job with notified := true }

def finish (site : Site) (job : ProposalJob) (p : TrustProposal) (receipt : TrustReceipt) :
    M TrustReceipt := do
  consumeRoots job job.roots
  saveJob { job with receipt := some receipt }
  drain site p
  notify { job with receipt := some receipt }
  pure receipt

def inScope (p : TrustProposal) (r : ContextualTrustRule) : Bool :=
  r.actorRef == p.actorRef && r.predicateRef == some p.predicateRef &&
    r.contextRef == some p.contextRef

def sortedRules (c : TrustConfiguration) : TrustConfiguration :=
  { c with rules := c.rules.insertionSort fun a b => a.id ≤ b.id }

def permitted (p : TrustProposal) (current : TrustConfiguration) : TrustConfiguration :=
  { current with rules := (current.rules.filter fun r => !inScope p r)++p.proposedRule.toList }

def recheck (p : TrustProposal) : List String → M Unit
  | [] => pure ()
  | reference::rest => do
    let sample ← query fun i _ => i.sample reference
    refuseIf (sample.actor ≠ p.actorRef ∨ sample.reason.isSome = true ∨ sample.unit ∉ p.roots ∨
      sample.claimGroup ∉ p.roots) (.failed "trust evidence no longer qualifies")
    recheck p rest

def recheckEvidence (p : TrustProposal) : M Unit :=
  if p.restores.isNone then recheck p p.evidenceRefs else pure ()

def review (job : ProposalJob) (native : TrustCalibrationProposal) (principal reason : String) :
    M ProposalJob :=
  if job.reviewed.isNone then do
    artifact
    artifact
    let job := { job with
      reviewed := some ⟨native,principal,reason,job.id⟩
      governor := some principal }
    saveJob job
    pure job
  else pure job

def reserveRoot (job : ProposalJob) (root : String) : M Unit := do
  match ← findUnit root with
  | some old =>
    if old.abandoned then confirmedSave (.unit root) ⟨job.id,false,false⟩
    else
      refuseIf (old.proposal ≠ job.id)
        (.failed "independent trust root already reserved or consumed")
  | none => confirmedPut (.unit root) ⟨job.id,false,false⟩ .create

def reserveRoots (job : ProposalJob) : List String → M Unit
  | [] => pure ()
  | root::rest => do
    reserveRoot job root
    reserveRoots job rest

def applyTrustCalibration (expected : ℕ) (reviewed : Reviewed) (principal : String) :
    M (Option TrustError) :=
  atomic
    (fun i w =>
      let commit : Commit := ⟨expected,reviewed,principal,i.recordId,i.gap⟩
      match i.applied with
      | .refused _ => w.meanwhile i
      | .interrupted _ => { (w.meanwhile i).settled with pending := some commit }
      | _ => ((w.meanwhile i).settled).commit commit)
    (fun i w => .ok (match i.applied with
      | .refused e => some e
      | .lost e => some e
      | .interrupted e => some e
      | .served conflict =>
        if ((w.meanwhile i).settled).version = expected then none else some conflict))

def unresolvedError : TrustError := .failed "trust commit acknowledgement unresolved"

def commitReview (site : Site) (job : ProposalJob) (p : TrustProposal) (reviewed : Reviewed)
    (principal : String) : M TrustReceipt := do
  let reported ← applyTrustCalibration p.expectedVersion reviewed principal
  recover
  match ← recovered job p with
  | some receipt => finish site job p receipt
  | none => do
    let taken ← controlVersion (p.expectedVersion+1)
    doIf (taken.isSome = true) (stale job)
    .fail (reported.getD unresolvedError)

def changeOk (p : TrustProposal) (native : TrustCalibrationProposal) (version : ℕ)
    (current : TrustConfiguration) : Prop :=
  sortedRules native.configuration = sortedRules (permitted p current) ∧
  native.expectedVersion = version

instance (p : TrustProposal) (native : TrustCalibrationProposal) (version : ℕ)
    (current : TrustConfiguration) : Decidable (changeOk p native version current) :=
  inferInstanceAs (Decidable (_ ∧ _))

def applyCurrent (site : Site) (job : ProposalJob) (p : TrustProposal)
    (native : TrustCalibrationProposal) (version : ℕ) (current : TrustConfiguration)
    (principal reason : String) : M TrustReceipt := do
  refuseIf (¬changeOk p native version current)
    (.failed "trust proposal changes more than its exact registered scope")
  recheckEvidence p
  let job ← review job native principal reason
  refuseIf (job.governor ≠ some principal) (.failed "pending trust review belongs to another governor")
  reserveRoots job job.roots
  match job.reviewed with
  | none => .fail unresolvedError
  | some reviewed => commitReview site job p reviewed principal

def applyNew (site : Site) (job : ProposalJob) (p : TrustProposal) (principal reason : String) :
    M TrustReceipt := do
  refuseIf (job.stale = true)
    (.failed "stale trust proposal requires a fresh explicit proposal/review")
  let native ← lift (need p.nativeProposal "diagnostic trust proposal cannot be applied")
  artifact
  let (version,current) ← trustControl
  if version ≠ p.expectedVersion then do
    stale job
    .fail (.failed "trust version conflict; another setting is preserved")
  else applyCurrent site job p native version current principal reason

def domainChanged (cfg : TrustConfig) (p : TrustProposal) : Prop :=
  p.predicateRef ≠ cfg.predicateRef ∨ p.contextRef ≠ cfg.contextRef ∨
    (p.restores.isNone = true ∧ p.contractDigest ≠ cfg.contractDigest)

instance (cfg : TrustConfig) (p : TrustProposal) : Decidable (domainChanged cfg p) :=
  inferInstanceAs (Decidable (_ ∨ _ ∨ _))

def applyInner (site : Site) (principal : String) (id : ProposalId) (reason : String) :
    M TrustReceipt := do
  governor site principal
  refuseIf (reasonOk reason = false) (.failed "bounded trust review reason required")
  let job ← jobOf id
  let p ← proposal id
  let cfg ← lift site.cfg
  refuseIf (domainChanged cfg p)
    (.failed "trust proposal contract/domain changed; explicit review required")
  recover
  match ← recovered job p with
  | some receipt => finish site job p receipt
  | none => applyNew site job p principal reason

def abandon (site : Site) (principal : String) (id : ProposalId) (reason : String) : M Unit := do
  governor site principal
  refuseIf (reasonOk reason = false) (.failed "bounded abandonment reason required")
  recover
  let job ← jobOf id
  let p ← proposal id
  match ← recovered job p with
  | some _ => .fail (.failed "applied trust must be restored through a new governance version")
  | none => do
    artifact
    confirmedSave (.abandonment id) ⟨job.report,principal,reason⟩
    stale job

/-- What a proposal has read of the sources of its target. -/
structure Gathered where
  sources : List Source
  candidates : List Sample
  excluded : Entries
  unresolved : Bool

def Gathered.empty : Gathered := ⟨[],[],[],false⟩

def Gathered.exclude (g : Gathered) (key reason : String) : Gathered :=
  { g with excluded := insertEntry g.excluded key reason }

def TrustError.isIneligible : TrustError → Bool
  | .ineligible _ => true
  | .failed _ => false

def Gathered.add (g : Gathered) (actor id : String) : Except TrustError Sample → Gathered
  | .ok sample =>
    if sample.actor ≠ actor then g.exclude id "verification_actor_mismatch"
    else
      match sample.reason with
      | some reason => g.exclude id reason
      | none => { g with candidates := g.candidates++[{ sample with reference := id }] }
  | .error e => { g.exclude id "verification_ineligible_or_unavailable" with
      unresolved := g.unresolved || !e.isIneligible }

def gather (actor : String) : List Source → Gathered → M Gathered
  | [], g => pure g
  | source::rest, g => do
    match ← query fun i _ => i.resolve source with
    | none =>
      gather actor rest { g.exclude source.clientKey "verification_not_committed" with
        sources := g.sources++[source]
        unresolved := true }
    | some id => do
      let sample ← query fun i _ => .ok (i.sample id)
      gather actor rest ({ g with
        sources := g.sources++[{ source with reference := some id }] }.add actor id sample)

structure Selection where
  seen : List String
  selected : List Sample
  excluded : Entries

def Selection.exclude (s : Selection) (sample : Sample) (reason : String) : Selection :=
  { s with excluded := insertEntry s.excluded sample.reference reason }

def consumed (root : String) : M Bool := do
  let found ← findUnit root
  pure (found.any fun claim => !claim.abandoned)

/-- The first samples with two roots of their own that no proposal holds. -/
def select (needed : ℕ) : List Sample → Selection → M Selection
  | [], acc => pure acc
  | sample::rest, acc =>
    if sample.unit ∈ acc.seen then
      select needed rest (acc.exclude sample "duplicate_evidence_root")
    else
      let acc := { acc with seen := sample.unit::acc.seen }
      if sample.claimGroup ∈ acc.seen then
        select needed rest (acc.exclude sample "duplicate_evidence_root")
      else do
        let acc := { acc with seen := sample.claimGroup::acc.seen }
        let unit ← consumed sample.unit
        let group ← consumed sample.claimGroup
        if unit || group then
          select needed rest (acc.exclude sample "root_already_consumed_or_reserved")
        else if acc.selected.length < needed then
          select needed rest { acc with selected := acc.selected++[sample] }
        else select needed rest (acc.exclude sample "outside_fixed_first_n_group")

def sampleBefore (a b : Sample) : Prop :=
  a.sequence < b.sequence ∨ (a.sequence = b.sequence ∧ a.reference ≤ b.reference)

instance : DecidableRel sampleBefore :=
  fun _ _ => inferInstanceAs (Decidable (_ ∨ _ ∧ _))

/-- A source that stays in its target behind a proposal with these exclusions. -/
def retained (excluded : Entries) (s : Source) : Bool :=
  s.reference.all fun id => (excludedReason excluded id).all fun reason =>
    reason == "outside_fixed_first_n_group" || reason == "verification_not_committed" ||
      reason == "verification_ineligible_or_unavailable"

/-- The part of `propose_inner` that deals with samples: what it reads of the sources, what it
selects, and the sources of the target once the proposal is published. -/
def proposeSamples (cfg : TrustConfig) (actor : String) (target : Target) :
    M (Gathered × Selection × List Source) := do
  let found ← gather actor target.sources .empty
  let chosen ← select cfg.needed (found.candidates.insertionSort sampleBefore) ⟨[],[],found.excluded⟩
  pure (found,chosen,found.sources.filter (retained chosen.excluded))

def publish (p : TrustProposal) (sources : List String) : M TrustProposal := do
  let bytes ← query fun i _ => .ok i.bytes
  refuseIf (262144 < bytes ∨ 256 < sources.length)
    (.failed "trust proposal material budget exceeded")
  artifact
  let found ← findJob p.id
  doIf (found.isNone = true) (confirmedPut (.job p.id)
    ⟨p.id,p.actorRef,p,sources,p.roots,none,none,none,false,false⟩ .create)
  pure p

/-- What reaches the jobs and the roots. Proposing, restoring and the automatic passes do so by
publishing a proposal, whatever it says, and by applying one. -/
inductive Op where
  | publish (p : TrustProposal) (sources : List String)
  | apply (principal : String) (id : ProposalId) (reason : String)
  | abandon (principal : String) (id : ProposalId) (reason : String)

def operate (site : Site) : Op → M Unit
  | .publish p sources => do
    let _ ← publish p sources
    pure ()
  | .apply principal id reason => do
    let _ ← applyInner site principal id reason
    pure ()
  | .abandon principal id reason => abandon site principal id reason

def World.empty : World := ⟨⟨fun _ => none,0⟩,[],none⟩

/-- Every state that the runtime reaches from an empty journal, over any schedule of operations,
answers of its environment and stops. -/
def reached (site : Site) (events : List (Event Op Env)) : World :=
  (run (operate site) id ⟨World.empty,none,[]⟩ events).state

end AndaBrain.Trust
