import AndaBrain.WorkerDeletion
import AndaBrain.WorkerReceipts

/-!
# Fences and suppressions across the calls of the object

Every call keeps the epoch from going back and the suppressed sources suppressed.
-/

set_option autoImplicit false

namespace AndaBrain.WorkerMemory
open Foundation Foundation.SortBy Product

structure Session.Documented (session : Session) : Prop where
  engine : session.toEngine.Documented
  payload : ∀ (nexus : Nexus) id, nexus.Follows (session.purgePayload nexus id).1
  evidence : ∀ (nexus : Nexus) input, nexus.Follows (session.createEvidence nexus input).1
  repair : ∀ (nexus : Nexus) input, nexus.Follows (session.repairRecording nexus input).1
  scope : ∀ (nexus : Nexus) handle, nexus.Follows (session.createScope nexus handle).1

structure Leaves (w next : World) : Prop where
  product : next.product = w.product
  follows : w.nexus.Follows next.nexus

theorem Leaves.of_managed {w next : World} (h : next.managed = w.managed) : Leaves w next := by
  refine ⟨by simp [World.product, h],?_⟩
  simp only [World.nexus, h]
  exact Nexus.Follows.refl _

theorem settle_managed (w : World) (ref : String) (terminal : Progress)
    (result : Option StoredResult) (warnings : List String) :
    (settle w ref terminal result warnings).1.managed = w.managed := by
  rcases settle_cases w ref terminal result warnings with
    ⟨-,hw⟩ | ⟨_,-,-,hw⟩ | ⟨_,_,-,-,-,hw⟩ <;> rw [hw]
  rfl

theorem progress_managed (w : World) (now : ℕ) (ns ref : String) :
    (progress w now ns ref).1.managed = w.managed := by
  unfold progress
  split
  · rfl
  · split
    · exact settle_managed w ref _ _ _
    · rfl

theorem read_predecessors_managed (now : ℕ) (ns : String) (refs : List String) (w : World) :
    (readPredecessors now ns w refs).1.managed = w.managed := by
  induction refs generalizing w with
  | nil => rfl
  | cons ref rest ih =>
    have hread := progress_managed w now ns ref
    unfold readPredecessors
    generalize progress w now ns ref = x at hread
    obtain ⟨next,answer⟩ := x
    cases answer with
    | error e => exact hread
    | ok record =>
      simp only
      split
      · exact hread
      · rw [ih next]
        exact hread

structure Moves (session : Session) (R : Nexus → Nexus → Prop) : Prop where
  refl : ∀ nexus, R nexus nexus
  trans : ∀ a b c, R a b → R b c → R a c
  evidence : ∀ nexus input, R nexus (session.createEvidence nexus input).1
  repair : ∀ nexus input, R nexus (session.repairRecording nexus input).1
  scope : ∀ nexus handle, R nexus (session.createScope nexus handle).1

structure LeavesBy (R : Nexus → Nexus → Prop) (w next : World) : Prop where
  product : next.product = w.product
  moved : R w.nexus next.nexus

section
variable (site : Site) {session : Session} {R : Nexus → Nexus → Prop}

theorem LeavesBy.of_managed (hmoves : Moves session R) {w next : World}
    (h : next.managed = w.managed) : LeavesBy R w next := by
  refine ⟨by simp [World.product, h],?_⟩
  simp only [World.nexus, h]
  exact hmoves.refl _

theorem LeavesBy.trans {a b c : World} (hab : LeavesBy R a b) (hmoves : Moves session R)
    (hbc : LeavesBy R b c) : LeavesBy R a c :=
  ⟨hbc.product.trans hab.product,hmoves.trans _ _ _ hab.moved hbc.moved⟩

theorem with_nexus_moves (w : World) (nexus : Nexus) (h : R w.nexus nexus) :
    LeavesBy R w (w.withNexus nexus) := ⟨rfl,h⟩

theorem scope_concept_moves (hmoves : Moves session R) (nexus : Nexus) (handle : String) :
    R nexus (scopeConcept site session nexus handle).1 := by
  have hstay := hmoves.refl nexus
  unfold scopeConcept
  split
  · exact hstay
  split
  · split
    · exact hstay
    · split <;> exact hstay
  split
  · exact hstay
  · exact hstay
  · exact hmoves.scope nexus handle

theorem scope_concepts_move (hmoves : Moves session R) (handles : List String)
    (nexus : Nexus) : R nexus (scopeConcepts site session nexus handles).1 := by
  induction handles generalizing nexus with
  | nil => exact hmoves.refl nexus
  | cons handle rest ih =>
    have hone := scope_concept_moves site hmoves nexus handle
    unfold scopeConcepts
    generalize scopeConcept site session nexus handle = x at hone
    obtain ⟨next,answer⟩ := x
    cases answer with
    | error e => exact hone
    | ok id =>
      simp only
      have hrest := ih next
      generalize scopeConcepts site session next rest = y at hrest
      obtain ⟨last,answer⟩ := y
      cases answer <;> exact hmoves.trans _ _ _ hone hrest

theorem resolve_scope_moves (hmoves : Moves session R) (nexus : Nexus) (scope : Scope) :
    R nexus (resolveScope site session nexus scope).1 := by
  unfold resolveScope
  simp only
  have hall := scope_concepts_move site hmoves
    ((resolveScopeShape scope).taskRef.toList++(resolveScopeShape scope).contextRefs) nexus
  generalize scopeConcepts site session nexus _ = x at hall
  obtain ⟨next,answer⟩ := x
  cases answer <;> exact hall

theorem list_receipt_managed (w : World) (sourceRef ref : String) :
    (listReceipt w sourceRef ref).managed = w.managed := by
  unfold listReceipt
  split
  · split
    · rfl
    · split <;> rfl
  · rfl

theorem accept_moves (hmoves : Moves session R) (w : World) (now : ℕ) (ns ref : String)
    (request : MemoryRequest) (source : Option ResolvedSource) :
    LeavesBy R w (accept site session w now ns ref request source).1 := by
  have hscope := resolve_scope_moves site hmoves w.nexus request.scope
  unfold accept
  generalize resolveScope site session w.nexus request.scope = x at hscope
  obtain ⟨nexus,answer⟩ := x
  cases answer with
  | error e => exact with_nexus_moves w nexus hscope
  | ok scope =>
    have hread := (with_nexus_moves w nexus hscope).trans hmoves (LeavesBy.of_managed hmoves
      (read_predecessors_managed now ns
        ((source.bind ResolvedSource.order).elim [] SourceOrder.predecessorReceipts)
        (w.withNexus nexus)))
    simp only
    generalize readPredecessors now ns (w.withNexus nexus) _ = y at hread
    obtain ⟨next,answer⟩ := y
    cases answer with
    | error e => exact hread
    | ok u =>
      simp only
      cases intentOf site next request with
      | error e => exact hread
      | ok intent =>
        refine hread.trans hmoves (LeavesBy.of_managed hmoves ?_)
        cases source with
        | none => rfl
        | some s => simp [list_receipt_managed, World.putReceipt]

theorem intake_moves (hmoves : Moves session R) (w : World) (now : ℕ) (ns space : String)
    (request : MemoryRequest) :
    LeavesBy R w (admitRequest site session w now ns space request).1 := by
  simp only [admitRequest]
  generalize (if request.operation = .forget then Except.ok none
    else (resolveSource site w ns request.sourceRef).map some) = source
  split
  · split
    · exact LeavesBy.of_managed hmoves rfl
    split
    · exact LeavesBy.of_managed hmoves rfl
    have hread := LeavesBy.of_managed hmoves (progress_managed w now ns
      (receiptRefOf site ns space request.operation request.idempotencyKey))
    generalize progress w now ns
      (receiptRefOf site ns space request.operation request.idempotencyKey) = x at hread
    obtain ⟨next,answer⟩ := x
    cases answer <;> exact hread
  · cases source with
    | error e => exact LeavesBy.of_managed hmoves rfl
    | ok source => exact accept_moves site hmoves w now ns _ request source

theorem settle_moves (hmoves : Moves session R) (w : World) (ref : String) (terminal : Progress)
    (result : Option StoredResult) (warnings : List String) :
    LeavesBy R w (settle w ref terminal result warnings).1 :=
  LeavesBy.of_managed hmoves (settle_managed w ref terminal result warnings)

theorem settle_repair_moves (hmoves : Moves session R) (w : World) (ref : String)
    (trace : PassTrace) (intent : MemoryIntent) (resolved : ℕ) :
    LeavesBy R w (settleRepair session w ref trace intent resolved).1 := by
  unfold settleRepair
  split
  · split
    · exact settle_moves hmoves w ref _ _ _
    rename_i repair _
    have hrepair := hmoves.repair w.nexus repair
    generalize session.repairRecording w.nexus repair = x at hrepair
    obtain ⟨nexus,answer⟩ := x
    have hnexus := with_nexus_moves w nexus hrepair
    cases answer with
    | error e => exact hnexus.trans hmoves (settle_moves hmoves _ ref _ _ _)
    | ok repairRef => exact hnexus.trans hmoves (settle_moves hmoves _ ref _ _ _)
  · exact settle_moves hmoves w ref _ _ _

theorem finish_moves (hmoves : Moves session R) (w : World) (ref : String) (trace : PassTrace) :
    LeavesBy R w (finishFormation session w ref trace).1 := by
  unfold finishFormation
  split
  · exact LeavesBy.of_managed hmoves rfl
  rename_i record _
  have hput : ∀ stored : IntakeRecord, LeavesBy R w (w.putReceipt ref stored) :=
    fun _ => LeavesBy.of_managed hmoves rfl
  simp only
  split
  · split
    · exact (hput _).trans hmoves (settle_repair_moves hmoves _ ref trace _ _)
    · exact (hput _).trans hmoves (settle_moves hmoves _ ref _ _ _)
  · exact (hput _).trans hmoves (settle_moves hmoves _ ref _ _ _)

theorem create_evidence_moves (hmoves : Moves session R) (input : ℕ → Message → EvidenceInput)
    (floor : ℕ) (messages : List Message) (index : ℕ) (nexus : Nexus) :
    R nexus (createEvidence session input floor nexus index messages).1 := by
  induction messages generalizing index nexus with
  | nil => exact hmoves.refl nexus
  | cons message rest ih =>
    have hone := hmoves.evidence nexus (input index message)
    unfold createEvidence
    generalize session.createEvidence nexus (input index message) = x at hone
    obtain ⟨next,answer⟩ := x
    cases answer with
    | error e => exact hone
    | ok made =>
      simp only
      have hrest := ih (index+1) next
      generalize createEvidence session input floor next (index+1) rest = y at hrest
      obtain ⟨last,answer⟩ := y
      cases answer <;> exact hmoves.trans _ _ _ hone hrest

theorem capture_moves (hmoves : Moves session R) (w : World) (ref : String)
    (messages : List Message) (observedAt : String) (purpose : Purpose) :
    LeavesBy R w (captureEvidence site session w ref messages observedAt purpose).1 := by
  unfold captureEvidence
  split
  · exact LeavesBy.of_managed hmoves rfl
  rename_i record _
  split
  · exact LeavesBy.of_managed hmoves rfl
  have hmade := create_evidence_moves hmoves
    (evidenceInput site record (originalClass site w.nexus record) purpose.wire purpose.about
      observedAt) record.acceptedSeq messages 0 w.nexus
  generalize createEvidence session _ record.acceptedSeq w.nexus 0 messages = x at hmade
  obtain ⟨nexus,answer⟩ := x
  have hnexus := with_nexus_moves w nexus hmade
  cases answer with
  | error e => exact hnexus
  | ok made => exact hnexus.trans hmoves (settle_moves hmoves _ ref _ _ _)

end

theorem Session.Documented.moves {session : Session} (hdoc : session.Documented) :
    Moves session Nexus.Follows :=
  ⟨Nexus.Follows.refl,fun _ _ _ => Nexus.Follows.trans,hdoc.evidence,hdoc.repair,hdoc.scope⟩

theorem LeavesBy.leaves {w next : World} (h : LeavesBy Nexus.Follows w next) : Leaves w next :=
  ⟨h.product,h.moved⟩

/-- One direct PURGE that the engine is asked for: the rows before it, the rows after it and,
where it is refused, why. -/
structure DirectAnswer where
  before : Nexus
  after : Nexus
  refusal : Option Failure

/-- What the engine answers to the direct PURGEs of `ids`, up to its first refusal. -/
def directAnswers (engine : Engine) : Nexus → List ElementId → List DirectAnswer
  | _, [] => []
  | nexus, id::rest =>
    if isPurged nexus id then directAnswers engine nexus rest
    else
      match engine.purge nexus (cascade id) with
      | (next,.ok _) => ⟨nexus,next,none⟩::directAnswers engine next rest
      | (next,.error e) => [⟨nexus,next,some e⟩]

def Broken (answers : List DirectAnswer) : Prop :=
  ∃ a ∈ answers, ∃ e, a.refusal = some e ∧ e.code ≠ some "LegalHoldConflict"

/-- Where a PURGE erases something, no pass of `passes` holds the epoch, and an Evidence it erases
has a recorded identity that is suppressed, or that has a key of the target while no PURGE is
refused for another reason than a legal hold. -/
def ShieldedDirect (product : ProductStore) (keys : Finset String) (passes : List ℕ)
    (answers : List DirectAnswer) : Prop :=
  ∀ a ∈ answers,
    (∀ x, isPurged a.before x = false → isPurged a.after x = true →
      ∀ e ∈ passes, e < product.epoch) ∧
    ∀ x identity, Identified ⟨a.before,product⟩ x identity → isPurged a.after x = true →
      identity.keys ∩ product.suppressed ≠ ∅ ∨ (identity.keys ∩ keys ≠ ∅ ∧ ¬Broken answers)

theorem unbroken_tail {a : DirectAnswer} {rest : List DirectAnswer} (h : ¬Broken (a::rest)) :
    ¬Broken rest := by
  rintro ⟨b,hb,hrefused⟩
  exact h ⟨b,List.mem_cons_of_mem _ hb,hrefused⟩

theorem ShieldedDirect.tail {product : ProductStore} {keys : Finset String} {passes : List ℕ}
    {a : DirectAnswer} {rest : List DirectAnswer}
    (h : ShieldedDirect product keys passes (a::rest)) :
    ShieldedDirect product keys passes rest := by
  intro b hb
  obtain ⟨hfence,hkeys⟩ := h b (List.mem_cons_of_mem _ hb)
  exact ⟨hfence,fun x identity hid hx => (hkeys x identity hid hx).imp_right
    fun hown => ⟨hown.1,unbroken_tail hown.2⟩⟩

theorem purged_managed (sweep : Sweep) (owned : List ElementId) (id : ElementId) (nexus : Nexus)
    (outcome : Outcome) :
    (sweep.purged owned id nexus outcome).managed = { sweep.managed with nexus } ∧
    (sweep.purged owned id nexus outcome).suppressed = sweep.suppressed := by
  unfold Sweep.purged
  generalize (if id.kind = .evidence then sweep.roots++[id] else sweep.roots) = roots
  simp only
  split <;> exact ⟨rfl,rfl⟩

section
variable {engine : Engine}

theorem unbroken_ends (owned ids : List ElementId) (sweep : Sweep)
    (h : ¬Broken (directAnswers engine sweep.managed.nexus ids)) :
    (purgeDirect engine owned sweep ids).2 = none := by
  induction ids generalizing sweep with
  | nil => rfl
  | cons id rest ih =>
    unfold purgeDirect
    unfold directAnswers at h
    split
    · rename_i hp
      simp only [hp, if_true] at h
      exact ih sweep h
    rename_i hp
    simp only [hp] at h
    generalize engine.purge sweep.managed.nexus (cascade id) = x at h
    obtain ⟨nexus,answer⟩ := x
    cases answer with
    | ok outcome =>
      apply ih
      rw [(purged_managed sweep owned id nexus outcome).1]
      exact unbroken_tail h
    | error e =>
      have hcode : e.code = some "LegalHoldConflict" := by
        by_contra hcode
        exact h ⟨_,List.mem_singleton.mpr rfl,e,rfl,hcode⟩
      simp [hcode]

theorem purge_direct_follows (hdoc : engine.Documented) (owned ids : List ElementId) (sweep : Sweep)
    : (purgeDirect engine owned sweep ids).1.managed.product = sweep.managed.product ∧
    (purgeDirect engine owned sweep ids).1.suppressed = sweep.suppressed ∧
    sweep.managed.nexus.Follows (purgeDirect engine owned sweep ids).1.managed.nexus := by
  induction ids generalizing sweep with
  | nil => exact ⟨rfl,rfl,Nexus.Follows.refl _⟩
  | cons id rest ih =>
    unfold purgeDirect
    split
    · exact ih sweep
    have hfollows := hdoc.follows sweep.managed.nexus (cascade id)
    generalize engine.purge sweep.managed.nexus (cascade id) = x at hfollows
    obtain ⟨nexus,answer⟩ := x
    cases answer with
    | ok outcome =>
      obtain ⟨hp,hs,hf⟩ := ih (sweep.purged owned id nexus outcome)
      obtain ⟨hmanaged,hsup⟩ := purged_managed sweep owned id nexus outcome
      rw [hmanaged] at hp hf
      rw [hsup] at hs
      exact ⟨hp,hs,hfollows.trans hf⟩
    | error e =>
      simp only
      split <;> exact ⟨rfl,rfl,hfollows⟩

/-- What the direct purges of a shielded forget erase is out of reach of the passes, and its
recorded sources are suppressed, or will be at the end of the loop. -/
theorem purge_direct_shielded (hdoc : engine.Documented) (owned : List ElementId)
    (passes : List ℕ) (keys : Finset String) (ids : List ElementId) (sweep : Sweep)
    (h : ShieldedDirect sweep.managed.product keys passes
      (directAnswers engine sweep.managed.nexus ids)) :
    (∀ x, isPurged sweep.managed.nexus x = false →
      isPurged (purgeDirect engine owned sweep ids).1.managed.nexus x = true →
      ∀ e ∈ passes, e < sweep.managed.product.epoch) ∧
    (∀ x identity, Identified sweep.managed x identity →
      isPurged (purgeDirect engine owned sweep ids).1.managed.nexus x = true →
      identity.keys ∩ sweep.managed.product.suppressed ≠ ∅ ∨
      (identity.keys ∩ keys ≠ ∅ ∧ (purgeDirect engine owned sweep ids).2 = none)) := by
  induction ids generalizing sweep with
  | nil =>
    refine ⟨fun x hx hx' => ?_,fun x identity hid hx => ?_⟩
    · rw [show (purgeDirect engine owned sweep []).1 = sweep from rfl, hx] at hx'
      cases hx'
    obtain ⟨row,_,_,hr,hs,-⟩ := hid.recorded
    have hno : isPurged sweep.managed.nexus x = false := by simp [isPurged, hr, hs]
    rw [show (purgeDirect engine owned sweep []).1 = sweep from rfl, hno] at hx
    cases hx
  | cons id rest ih =>
    unfold directAnswers at h
    unfold purgeDirect
    split
    · rename_i hp
      simp only [hp, if_true] at h
      exact ih sweep h
    rename_i hp
    simp only [hp] at h
    have hfollows := hdoc.follows sweep.managed.nexus (cascade id)
    have hrefused := hdoc.refused sweep.managed.nexus (cascade id)
    generalize engine.purge sweep.managed.nexus (cascade id) = y at h hfollows hrefused
    obtain ⟨nexus,answer⟩ := y
    cases answer with
    | ok outcome =>
      obtain ⟨hfence,hkeys⟩ := h _ List.mem_cons_self
      obtain ⟨hmanaged,-⟩ := purged_managed sweep owned id nexus outcome
      obtain ⟨hlater,hlaterKeys⟩ := ih (sweep.purged owned id nexus outcome)
        (by rw [hmanaged]; exact h.tail)
      rw [hmanaged] at hlater hlaterKeys
      refine ⟨fun x hx hx' => ?_,fun x identity hid hx => ?_⟩
      · cases hmid : isPurged nexus x with
        | true => exact hfence x hx hmid
        | false => exact hlater x hmid hx'
      cases hmid : isPurged nexus x with
      | true =>
        refine (hkeys x identity hid hmid).imp_right fun hown => ⟨hown.1,?_⟩
        exact unbroken_ends owned rest _ (by rw [hmanaged]; exact unbroken_tail hown.2)
      | false =>
        have hadvance : Advance sweep.managed { sweep.managed with nexus } :=
          ⟨hfollows,le_refl _,Finset.Subset.refl _,fun _ _ h => h,.inl⟩
        exact hlaterKeys x identity (hid.advance hadvance hmid) hx
    | error e =>
      have hsame := hrefused e rfl
      have hstays : ∀ x, isPurged nexus x = isPurged sweep.managed.nexus x := hsame
      have hnone : ∀ s : Sweep × Option Failure, s.1.managed.nexus = nexus →
          (∀ x, isPurged sweep.managed.nexus x = false → isPurged s.1.managed.nexus x = true →
            ∀ e ∈ passes, e < sweep.managed.product.epoch) ∧
          (∀ x identity, Identified sweep.managed x identity → isPurged s.1.managed.nexus x = true →
            identity.keys ∩ sweep.managed.product.suppressed ≠ ∅ ∨
            (identity.keys ∩ keys ≠ ∅ ∧ s.2 = none)) := by
        intro s hs
        refine ⟨fun x hx hx' => ?_,fun x identity hid hx => ?_⟩
        · rw [hs, hstays x, hx] at hx'
          cases hx'
        · obtain ⟨row,_,_,hr,hstate,-⟩ := hid.recorded
          rw [hs, hstays x] at hx
          simp [isPurged, hr, hstate] at hx
      simp only
      split
      · exact hnone _ rfl
      · exact hnone _ rfl

end

/-- The state in which a semantic forget begins its direct purges, and what it purges. -/
def beforeDirect (digests : Digests) (session : Session) (w : World) (now : ℕ)
    (receiptRef : String) (target : ForgetTarget) (loc : Located) :
    Option (Managed × List ElementId) :=
  match claimsOf session w.nexus target loc.evidenceTargets with
  | .error _ => none
  | .ok claims =>
    match eraseClaims digests session.toEngine now receiptRef (Sweep.begin w loc) claims with
    | (_,some _) => none
    | (sweep,none) => some (sweep.managed,directTargets target loc claims sweep.erased)

/-- The object with the epochs that `begin` has returned. -/
structure Fleet where
  world : World
  passes : List ℕ

def Shielded (site : Site) (session : Session) (s : Fleet) (now : ℕ) (ns space : String)
    (request : ForgetRequest) : Prop :=
  let ref := forgetRef site ns space request.idempotencyKey
  let bound := s.world.putReceipt ref (forgetReceipt site s.world now ns ref request)
  ∀ loc, locate bound ns request = .ok loc →
    ∀ m ids, beforeDirect site.toDigests session bound now ref request.target loc =
        some (m,ids) →
      ShieldedDirect m.product loc.suppressed s.passes (directAnswers session.toEngine m.nexus ids)

structure Fleet.Ready (s : Fleet) : Prop where
  sound : Sound s.world.managed
  passes : ∀ e ∈ s.passes, e ≤ s.world.product.epoch ∧
    (s.world.product.pending.isSome → e < s.world.product.epoch)

structure Swept (m : Managed) (swept : Sweep × Option Failure) : Prop where
  advance : Advance m swept.1.managed
  sound : Sound swept.1.managed

theorem Leaves.step {w next : World} (h : Leaves w next) (hs : Sound w.managed) :
    Advance w.managed next.managed ∧ Sound next.managed := by
  have hproduct : next.managed.product = w.managed.product := h.product
  have hadvance : Advance w.managed next.managed :=
    ⟨h.follows,by rw [hproduct],by rw [hproduct],by simp [hproduct],
      fun hp => .inl (hproduct ▸ hp)⟩
  refine ⟨hadvance,sound_of_changes hs hadvance (by simp [hproduct]) ?_ ?_⟩
  · intro key change hc _
    rw [hproduct] at hc
    exact .inl ⟨change,hc,SameFence.refl change⟩
  · intro key hp
    rw [hproduct] at hp
    exact .inl hp

theorem suppress_step {m : Managed} (hs : Sound m) (keys : Finset String) :
    Deletes m (suppressSources m keys) ∧ Sound (suppressSources m keys) := by
  have hadvance : Advance m (suppressSources m keys) :=
    ⟨Nexus.Follows.refl _,le_refl _,Finset.subset_union_left,fun _ _ h => h,.inl⟩
  refine ⟨deletes_nothing hadvance fun _ => rfl,?_⟩
  exact sound_of_changes hs hadvance (fun _ _ h => h)
    (fun key change h _ => .inl ⟨change,h,SameFence.refl change⟩) fun _ h => .inl h

section
variable (site : Site) {session : Session}

theorem nexus_step {m : Managed} (hs : Sound m) (nexus : Nexus) (h : m.nexus.Follows nexus) :
    Advance m { m with nexus } ∧ Sound { m with nexus } := by
  have hadvance : Advance m { m with nexus } :=
    ⟨h,le_refl _,Finset.Subset.refl _,fun _ _ h => h,.inl⟩
  refine ⟨hadvance,?_⟩
  exact sound_of_changes hs hadvance (fun _ _ h => h)
    (fun key change h _ => .inl ⟨change,h,SameFence.refl change⟩) fun _ h => .inl h

theorem purge_direct_step (hdoc : session.Documented) (owned ids : List ElementId)
    (sweep : Sweep) (hs : Sound sweep.managed) :
    Swept sweep.managed (purgeDirect session.toEngine owned sweep ids) := by
  obtain ⟨hp,-,hf⟩ := purge_direct_follows hdoc.engine owned ids sweep
  have hstep := nexus_step hs (purgeDirect session.toEngine owned sweep ids).1.managed.nexus hf
  have heq : ({ sweep.managed with
      nexus := (purgeDirect session.toEngine owned sweep ids).1.managed.nexus } : Managed) =
      (purgeDirect session.toEngine owned sweep ids).1.managed := by
    simp only [← hp]
  rw [heq] at hstep
  exact ⟨hstep.1,hstep.2⟩

theorem sweep_semantic_step (hdoc : session.Documented) (w : World) (hs : Sound w.managed)
    (now : ℕ) (ref : String) (target : ForgetTarget) (loc : Located) :
    Swept w.managed (sweepSemantic site.toDigests session w now ref target loc) := by
  unfold sweepSemantic
  split
  · exact ⟨Advance.refl _,hs⟩
  rename_i claims _
  have hclaims := erase_claims_spec site.toDigests hdoc.engine claims (Sweep.begin w loc) hs now ref
  generalize eraseClaims site.toDigests session.toEngine now ref (Sweep.begin w loc) claims = x
    at hclaims
  obtain ⟨sweep,stop⟩ := x
  cases stop with
  | some e => exact ⟨hclaims.1.advance,hclaims.2⟩
  | none =>
    simp only
    have hdirect := purge_direct_step hdoc loc.ownedConcepts
      (directTargets target loc claims sweep.erased) sweep hclaims.2
    generalize purgeDirect session.toEngine loc.ownedConcepts sweep
      (directTargets target loc claims sweep.erased) = y at hdirect
    obtain ⟨last,stop⟩ := y
    cases stop with
    | some e => exact ⟨hclaims.1.advance.trans hdirect.advance,hdirect.sound⟩
    | none =>
      obtain ⟨hsup,hsound⟩ := suppress_step hdirect.sound last.suppressed
      exact ⟨(hclaims.1.advance.trans hdirect.advance).trans hsup.advance,hsound⟩

theorem sweep_payloads_step (hdoc : session.Documented) (ids : List ElementId) (sweep : Sweep)
    (hs : Sound sweep.managed) : Swept sweep.managed (sweepPayloads session sweep ids) := by
  induction ids generalizing sweep with
  | nil => exact ⟨Advance.refl _,hs⟩
  | cons id rest ih =>
    have hpurge := nexus_step hs _ (hdoc.payload sweep.managed.nexus id)
    unfold sweepPayloads
    generalize session.purgePayload sweep.managed.nexus id = x at hpurge
    obtain ⟨nexus,answer⟩ := x
    cases answer with
    | error e => exact ⟨hpurge.1,hpurge.2⟩
    | ok u =>
      have hrest := ih
        { sweep with
          managed := { sweep.managed with nexus }
          targets := sweep.targets++[⟨id,"payload","erased"⟩] } hpurge.2
      exact ⟨hpurge.1.trans hrest.advance,hrest.sound⟩

theorem sweep_step (hdoc : session.Documented) (w : World) (hs : Sound w.managed) (now : ℕ)
    (ref : String) (request : ForgetRequest) (loc : Located) :
    Swept w.managed (sweep site.toDigests session w now ref request loc) := by
  unfold sweep
  split
  · exact sweep_semantic_step site hdoc w hs now ref request.target loc
  · split
    · exact ⟨Advance.refl _,hs⟩
    · exact sweep_payloads_step hdoc loc.evidenceTargets (Sweep.begin w loc) hs

theorem erase_staged_managed (refs : List String) (w : World) :
    (refs.foldl eraseStaged w).managed = w.managed := by
  induction refs generalizing w with
  | nil => rfl
  | cons ref rest ih =>
    rw [List.foldl_cons, ih]
    unfold eraseStaged
    split <;> rfl

theorem settle_forget_managed (w : World) (ref : String) (record : IntakeRecord) (seq : ℕ)
    (verdict : ForgetStatus × String) :
    (settleForget w ref record seq verdict).1.managed = w.managed := by
  unfold settleForget
  split
  · exact settle_managed w ref _ _ _
  · exact settle_managed w ref _ _ _
  · rfl

/-- A forget leaves the product as its sweep did, with more sources suppressed at most. -/
theorem run_forget_managed (session : Session) (w : World) (now : ℕ) (ns ref : String) (request : ForgetRequest)
    (record : IntakeRecord) :
    (runForget site session w now ns ref request record).1.managed = w.managed ∨
    ∃ loc, locate w ns request = .ok loc ∧
      ((runForget site session w now ns ref request record).1.managed =
          (sweep site.toDigests session w now ref request loc).1.managed ∨
        (runForget site session w now ns ref request record).1.managed =
          suppressSources (sweep site.toDigests session w now ref request loc).1.managed
            (sweep site.toDigests session w now ref request loc).1.suppressed) := by
  unfold runForget
  split
  · exact .inl (settle_managed w ref _ _ _)
  rename_i loc hloc
  right
  refine ⟨loc,hloc,?_⟩
  generalize sweep site.toDigests session w now ref request loc = x
  obtain ⟨swept,stop⟩ := x
  cases stop with
  | some e => exact .inl (settle_managed _ ref _ _ _)
  | none =>
    simp only
    rw [settle_forget_managed]
    split
    · right
      simp [erase_staged_managed]
    · left
      simp [erase_staged_managed]

theorem forget_step (hdoc : session.Documented) (w : World) (hs : Sound w.managed) (now : ℕ)
    (ns space : String) (request : ForgetRequest) (owner : Bool) :
    Advance w.managed (forget site session w now ns space request owner).1.managed ∧
    Sound (forget site session w now ns space request owner).1.managed := by
  unfold forget
  split
  · exact ⟨Advance.refl _,hs⟩
  simp only
  split
  · split <;> exact ⟨Advance.refl _,hs⟩
  generalize forgetRef site ns space request.idempotencyKey = ref
  generalize forgetReceipt site w now ns ref request = record
  have hbound : Sound (w.putReceipt ref record).managed := hs
  rcases run_forget_managed site session (w.putReceipt ref record) now ns ref
      request record with h | ⟨loc,-,h | h⟩ <;> rw [h]
  · exact ⟨Advance.refl _,hs⟩
  · have hswept := sweep_step site hdoc _ hbound now ref request loc
    exact ⟨hswept.advance,hswept.sound⟩
  have hswept := sweep_step site hdoc _ hbound now ref request loc
  obtain ⟨hsup,hsound⟩ := suppress_step hswept.sound
    (sweep site.toDigests session (w.putReceipt ref record) now ref request loc).1.suppressed
  exact ⟨hswept.advance.trans hsup.advance,hsound⟩

end

inductive ObjectStep (site : Site) (session : Session) : Fleet → Fleet → Prop
  | begin (s : Fleet) (source : Option SourceIdentity) (origin : Option String)
      (product : ProductStore) (epoch : ℕ)
      (h : s.world.product.begin source origin = .ok (product,epoch)) :
      ObjectStep site session s
        ⟨{ s.world with managed := { s.world.managed with product } },epoch::s.passes⟩
  | capture (s : Fleet) (origin : String) (index : ℕ) (binding : StoredBinding)
      (product : ProductStore) (h : s.world.product.capture origin index binding = .ok product) :
      ObjectStep site session s
        { s with world := { s.world with managed := { s.world.managed with product } } }
  | suppress (s : Fleet) (keys : Finset String) :
      ObjectStep site session s
        { s with world := { s.world with managed := suppressSources s.world.managed keys } }
  | invalidate (s : Fleet) (product : ProductStore)
      (h : s.world.product.invalidate = .ok product) :
      ObjectStep site session s
        { s with world := { s.world with managed := { s.world.managed with product } } }
  | prepare (s : Fleet) (now : ℕ) (key : String) (record : ElementId) (revision : ℕ) :
      ObjectStep site session s
        { s with world := { s.world with managed :=
            (prepareDelete site.toDigests session.toEngine s.world.managed now key record
              revision).1 } }
  | commit (s : Fleet) (now : ℕ) (key digest : String)
      (h : ∀ change, s.world.product.changes key = some change → change.delete = true) :
      ObjectStep site session s
        { s with world := { s.world with managed :=
            (commitDelete site.toDigests session.toEngine s.world.managed now key digest).1 } }
  | resume (s : Fleet) (now : ℕ)
      (h : ∀ key change, s.world.product.pending = some key →
        s.world.product.changes key = some change → change.delete = true) :
      ObjectStep site session s
        { s with world := { s.world with managed :=
            (recoverChange session.toEngine s.world.managed now) } }
  | call (s : Fleet) (now : ℕ) (call : LedgerCall) (h : ∀ next, call ≠ .elsewhere next) :
      ObjectStep site session s
        { s with world := (ledgerStep site session s.world now call).1 }
  | evolve (s : Fleet) (nexus : Nexus) (h : s.world.nexus.Follows nexus) :
      ObjectStep site session s { s with world := s.world.withNexus nexus }
  | store (s : Fleet) (next : World) (h : next.managed = s.world.managed) :
      ObjectStep site session s { s with world := next }
  | manage (s : Fleet) (next : Managed) (hadvance : Advance s.world.managed next)
      (hsound : Sound next) :
      ObjectStep site session s { s with world := { s.world with managed := next } }

inductive ObjectRun (site : Site) (session : Session) : Fleet → Fleet → Prop
  | done (s : Fleet) : ObjectRun site session s s
  | step {s mid last : Fleet} (h : ObjectStep site session s mid)
      (rest : ObjectRun site session mid last) : ObjectRun site session s last

theorem begin_step {m : Managed} (hs : Sound m) (source : Option SourceIdentity)
    (origin : Option String) (product : ProductStore) (epoch : ℕ)
    (h : m.product.begin source origin = .ok (product,epoch)) :
    Advance m { m with product } ∧ Sound { m with product } ∧ epoch = m.product.epoch ∧
      product.epoch = m.product.epoch ∧ m.product.pending = none ∧ product.pending = none := by
  have hclosed : m.product.pending = none := by
    unfold ProductStore.begin ProductStore.check at h
    cases hp : m.product.pending with
    | none => rfl
    | some key =>
      simp [hp, fail] at h
      cases h
  have hsame : product = m.product →
      Advance m { m with product } ∧ Sound { m with product } := by
    rintro rfl
    exact ⟨Advance.refl m,hs⟩
  unfold ProductStore.begin at h
  cases hc : m.product.check m.product.epoch with
  | error e =>
    rw [hc] at h
    cases h
  | ok u =>
    rw [hc] at h
    cases source with
    | none =>
      cases h
      exact ⟨(hsame rfl).1,(hsame rfl).2,rfl,rfl,hclosed,hclosed⟩
    | some source =>
      cases hk : sourceKeys source with
      | error e =>
        change (sourceKeys source >>= _) = _ at h
        rw [hk] at h
        cases h
      | ok keys =>
        change (sourceKeys source >>= _) = _ at h
        rw [hk] at h
        change (if m.product.isSuppressed keys then _ else _) = _ at h
        split at h
        · cases h
        cases origin with
        | none =>
          cases h
          exact ⟨(hsame rfl).1,(hsame rfl).2,rfl,rfl,hclosed,hclosed⟩
        | some origin =>
          simp only at h
          split at h
          · cases h
          split at h
          · cases h
          rename_i hfree
          cases h
          have hold : ∀ identity, m.product.sources origin = some identity →
              identity = source := by
            intro identity hi
            simpa [hi] using hfree
          have hkeys : keys = source.keys := by
            unfold sourceKeys at hk
            split at hk
            · cases hk
            · cases hk
              rfl
          have hadvance : Advance m { m with product := m.product.bindSource origin source } := by
            refine ⟨Nexus.Follows.refl _,le_refl _,Finset.Subset.refl _,?_,.inl⟩
            intro o identity hi
            by_cases ho : o = origin
            · subst ho
              simp [ProductStore.bindSource, hold identity hi]
            · simpa [ProductStore.bindSource, ho] using hi
          refine ⟨hadvance,⟨?_,hs.fenced,?_⟩,rfl,rfl,hclosed,hclosed⟩
          · intro key change hchange hd target ht
            exact (hs.covered key change hchange hd target ht).advance hadvance
          intro o identity hi
          simp only [ProductStore.bindSource] at hi
          split at hi
          · cases hi
            rw [hk, hkeys]
          · exact hs.sources o identity hi

section
variable {site : Site} {session : Session}

theorem call_step (hdoc : session.Documented) (w : World) (hs : Sound w.managed) (now : ℕ)
    (call : LedgerCall) (h : ∀ next, call ≠ .elsewhere next) :
    Advance w.managed (ledgerStep site session w now call).1.managed ∧
    Sound (ledgerStep site session w now call).1.managed := by
  cases call with
  | read ns ref =>
    simp only [ledgerStep, tell_world]
    exact (Leaves.of_managed (progress_managed w now ns ref)).step hs
  | intake ns space request =>
    have hleft := (intake_moves site hdoc.moves w now ns space request).leaves
    simp only [ledgerStep]
    generalize admitRequest site session w now ns space request = x at hleft
    obtain ⟨next,answer⟩ := x
    rcases answer with e | ⟨record⟩ | ⟨record,messages,observedAt,identity⟩ <;>
      exact hleft.step hs
  | finish ref trace =>
    simp only [ledgerStep, tell_world]
    exact (finish_moves hdoc.moves w ref trace).leaves.step hs
  | fault ref error =>
    simp only [ledgerStep, tell_world]
    exact (settle_moves hdoc.moves w ref _ _ _).leaves.step hs
  | capture ref messages observedAt purpose =>
    simp only [ledgerStep, tell_world]
    exact (capture_moves site hdoc.moves w ref messages observedAt purpose).leaves.step hs
  | erase ns space request owner =>
    simp only [ledgerStep, tell_world]
    exact forget_step site hdoc w hs now ns space request owner
  | elsewhere next => exact absurd rfl (h next)

theorem object_step (hdoc : session.Documented) {s next : Fleet}
    (h : ObjectStep site session s next) (hs : s.Ready) :
    Advance s.world.managed next.world.managed ∧ next.Ready := by
  have hkeep : ∀ w : World, Advance s.world.managed w.managed → Sound w.managed →
      Fleet.Ready { s with world := w } := by
    intro w hadvance hsound
    refine ⟨hsound,fun e he => ?_⟩
    obtain ⟨hle,hlt⟩ := hs.passes e he
    have hepoch : s.world.product.epoch ≤ w.product.epoch := hadvance.epoch
    refine ⟨hle.trans hepoch,fun hp => ?_⟩
    rcases hadvance.pending hp with hpend | hmore
    · exact (hlt hpend).trans_le hepoch
    · exact hle.trans_lt hmore
  have hone : ∀ w : World,
      Advance s.world.managed w.managed ∧ Sound w.managed →
      Advance s.world.managed w.managed ∧ Fleet.Ready { s with world := w } :=
    fun w hw => ⟨hw.1,hkeep w hw.1 hw.2⟩
  cases h with
  | begin source origin product epoch h =>
    obtain ⟨hadvance,hsound,he,hp,hclosed,hopen⟩ := begin_step hs.sound source origin product epoch h
    refine ⟨hadvance,hsound,fun e hmem => ?_⟩
    have hepoch : ({ s.world with managed := { s.world.managed with product } } : World).product.epoch =
        s.world.product.epoch := hp
    have hnone : ({ s.world with managed := { s.world.managed with product } } :
        World).product.pending = none := hopen
    rw [hepoch, hnone]
    rcases List.mem_cons.mp hmem with rfl | hmem
    · exact ⟨he.le,fun h => nomatch h⟩
    · exact ⟨(hs.passes e hmem).1,fun h => nomatch h⟩
  | capture origin index binding product h =>
    refine hone _ ?_
    unfold ProductStore.capture at h
    split at h
    · cases h
    cases h
    have hadvance : Advance s.world.managed
        { s.world.managed with product :=
          { s.world.product with
            evidence := fun o i =>
              if o = origin ∧ i = index then some binding else s.world.product.evidence o i } } :=
      ⟨Nexus.Follows.refl _,le_refl _,Finset.Subset.refl _,fun _ _ h => h,.inl⟩
    exact ⟨hadvance,sound_of_changes hs.sound hadvance (fun _ _ h => h)
      (fun key change h _ => .inl ⟨change,h,SameFence.refl change⟩) fun _ h => .inl h⟩
  | suppress keys =>
    obtain ⟨hsup,hsound⟩ := suppress_step hs.sound keys
    exact hone _ ⟨hsup.advance,hsound⟩
  | invalidate product h =>
    refine hone _ ?_
    unfold ProductStore.invalidate at h
    cases hc : s.world.product.check s.world.product.epoch with
    | error e =>
      rw [hc] at h
      cases h
    | ok u =>
      rw [hc] at h
      change (if s.world.product.epoch+1 > maxSafeInteger then _ else _) = _ at h
      split at h
      · cases h
      cases h
      have hadvance : Advance s.world.managed
          { s.world.managed with product :=
            { s.world.product with epoch := s.world.product.epoch+1 } } :=
        ⟨Nexus.Follows.refl _,Nat.le_succ _,Finset.Subset.refl _,fun _ _ h => h,.inl⟩
      exact ⟨hadvance,sound_of_changes hs.sound hadvance (fun _ _ h => h)
        (fun key change h _ => .inl ⟨change,h,SameFence.refl change⟩) fun _ h => .inl h⟩
  | prepare now key record revision =>
    obtain ⟨hd,hsound,-⟩ :=
      prepare_spec site.toDigests hdoc.engine hs.sound now key record revision
    exact hone _ ⟨hd.advance,hsound⟩
  | commit now key digest h =>
    obtain ⟨hd,hsound⟩ := commit_spec site.toDigests hdoc.engine hs.sound now key digest h
    exact hone _ ⟨hd.advance,hsound⟩
  | resume now h =>
    obtain ⟨hd,hsound⟩ := recover_spec hdoc.engine hs.sound now h
    exact hone _ ⟨hd.advance,hsound⟩
  | call now call h => exact hone _ (call_step hdoc s.world hs.sound now call h)
  | evolve nexus h => exact hone _ (nexus_step hs.sound nexus h)
  | store next h =>
    refine hone _ ?_
    rw [h]
    exact ⟨Advance.refl _,hs.sound⟩
  | manage next hadvance hsound => exact hone _ ⟨hadvance,hsound⟩

theorem object_run (hdoc : session.Documented) {s last : Fleet} (h : ObjectRun site session s last)
    (hs : s.Ready) : Advance s.world.managed last.world.managed ∧ last.Ready := by
  induction h with
  | done s => exact ⟨Advance.refl _,hs⟩
  | step hstep _ ih =>
    obtain ⟨hone,hready⟩ := object_step hdoc hstep hs
    obtain ⟨hrest,hlast⟩ := ih hready
    exact ⟨hone.trans hrest,hlast⟩

end

def ProductStore.Open (product : ProductStore) : Prop :=
  product.pending = none ∧ product.scrub = none

theorem begin_refused (product : ProductStore) (identity : SourceIdentity) (origin : Option String)
    (hkeys : sourceKeys identity = .ok identity.keys)
    (hsup : identity.keys ∩ product.suppressed ≠ ∅) : ∃ e, product.begin (some identity) origin =
    .error e ∧ (product.Open → e = ⟨none,"source_suppressed"⟩) := by
  unfold ProductStore.begin
  cases hc : product.check product.epoch with
  | error e =>
    refine ⟨e,rfl,fun hopen => ?_⟩
    simp [ProductStore.check, hopen.1, hopen.2] at hc
  | ok u =>
    refine ⟨⟨none,"source_suppressed"⟩,?_,fun _ => rfl⟩
    change (sourceKeys identity >>= _) = _
    rw [hkeys]
    change (if product.isSuppressed identity.keys then _ else _) = _
    simp [ProductStore.isSuppressed, hsup, fail]

theorem check_refused (product : ProductStore) (epoch : ℕ) (h : epoch < product.epoch) :
    ∃ e, product.check epoch = .error e := by
  unfold ProductStore.check
  split
  · exact ⟨_,rfl⟩
  · rw [if_pos (by omega)]
    exact ⟨_,rfl⟩

/-- What a shielded sweep leaves: each pass admitted before is behind the epoch if anything was
erased, and an erased Evidence has its recorded source suppressed. -/
structure Fenced (passes : List ℕ) (m next : Managed) : Prop where
  passes : (∃ id, isPurged m.nexus id = false ∧ isPurged next.nexus id = true) →
    ∀ e ∈ passes, e < next.product.epoch
  excluded : ∀ id identity, Identified m id identity → isPurged next.nexus id = true →
    identity.keys ∩ next.product.suppressed ≠ ∅

theorem SourceIdentity.keys_nonempty (identity : SourceIdentity) (keys : Finset String)
    (h : identity.keys ⊆ keys) : identity.keys ∩ keys ≠ ∅ := by
  rw [Finset.inter_eq_left.mpr h]
  simp [SourceIdentity.keys]

theorem keys_meet_mono {keys some more : Finset String} (h : keys ∩ some ≠ ∅)
    (hsub : some ⊆ more) : keys ∩ more ≠ ∅ := by
  intro hempty
  apply h
  exact Finset.subset_empty.mp (hempty ▸ Finset.inter_subset_inter_left hsub)

section
variable (site : Site) {session : Session}

theorem deletes_fenced {passes : List ℕ} {m next : Managed} (h : Deletes m next)
    (hpasses : ∀ e ∈ passes, e ≤ m.product.epoch ∧
      (m.product.pending.isSome → e < m.product.epoch)) : Fenced passes m next where
  passes := by
    rintro ⟨id,hbefore,hafter⟩ e he
    have hepoch := h.advance.epoch
    obtain ⟨hle,hlt⟩ := hpasses e he
    rcases h.fenced id hbefore hafter with hmore | hpend
    · omega
    · exact (hlt hpend).trans_le hepoch
  excluded := fun id identity hid hp =>
    SourceIdentity.keys_nonempty identity _ (h.excluded id identity hid hp)

theorem Fenced.trans_deletes {passes : List ℕ} {m next last : Managed} (h : Fenced passes m next)
    (hrest : Advance next last)
    (hkept : ∀ id, isPurged last.nexus id = isPurged next.nexus id) : Fenced passes m last where
  passes := by
    rintro ⟨id,hbefore,hafter⟩ e he
    rw [hkept id] at hafter
    exact (h.passes ⟨id,hbefore,hafter⟩ e he).trans_le hrest.epoch
  excluded := by
    intro id identity hid hp
    rw [hkept id] at hp
    exact keys_meet_mono (h.excluded id identity hid hp) hrest.suppressed

theorem erase_claims_keys (digests : Digests) (engine : Engine) (now : ℕ) (ref : String)
    (claims : List ElementId) (sweep : Sweep) :
    sweep.suppressed ⊆ (eraseClaims digests engine now ref sweep claims).1.suppressed := by
  induction claims generalizing sweep with
  | nil => exact Finset.Subset.refl _
  | cons claim rest ih =>
    have hone : sweep.suppressed ⊆
        (eraseClaim digests engine now ref sweep claim).1.suppressed := by
      unfold eraseClaim
      split
      · exact Finset.Subset.refl _
      split
      · exact Finset.subset_union_left
      split <;> exact Finset.Subset.refl _
    unfold eraseClaims
    generalize eraseClaim digests engine now ref sweep claim = x at hone
    obtain ⟨next,stop⟩ := x
    cases stop with
    | none => exact hone.trans (ih next)
    | some e => exact hone

theorem sweep_semantic_fenced (hdoc : session.Documented) (w : World) (hs : Sound w.managed)
    (now : ℕ) (ref : String) (target : ForgetTarget) (loc : Located) (passes : List ℕ)
    (hpasses : ∀ e ∈ passes, e ≤ w.product.epoch ∧ (w.product.pending.isSome → e < w.product.epoch))
    (hshield : ∀ m ids, beforeDirect site.toDigests session w now ref target loc =
        some (m,ids) →
      ShieldedDirect m.product loc.suppressed passes
        (directAnswers session.toEngine m.nexus ids)) :
    Fenced passes w.managed (sweepSemantic site.toDigests session w now ref target loc).1.managed := by
  unfold beforeDirect at hshield
  unfold sweepSemantic
  cases hc : claimsOf session w.nexus target loc.evidenceTargets with
  | error e => exact deletes_fenced (Deletes.refl _) hpasses
  | ok claims =>
    simp only [hc] at hshield
    have hclaims := erase_claims_spec site.toDigests hdoc.engine claims (Sweep.begin w loc) hs now ref
    have hown := erase_claims_keys site.toDigests session.toEngine now ref claims (Sweep.begin w loc)
    simp only
    generalize eraseClaims site.toDigests session.toEngine now ref (Sweep.begin w loc) claims = x
      at hclaims hshield hown
    obtain ⟨sweep,stop⟩ := x
    cases stop with
    | some e => exact deletes_fenced hclaims.1 hpasses
    | none =>
      have hdirect := hshield sweep.managed _ rfl
      simp only
      have hfirst : Fenced passes w.managed sweep.managed := deletes_fenced hclaims.1 hpasses
      have hadvance : Advance w.managed sweep.managed := hclaims.1.advance
      obtain ⟨hfence,hkeys⟩ := purge_direct_shielded hdoc.engine loc.ownedConcepts passes _ _
        sweep hdirect
      obtain ⟨hproduct,hsuppressed,-⟩ := purge_direct_follows hdoc.engine loc.ownedConcepts
        (directTargets target loc claims sweep.erased) sweep
      generalize purgeDirect session.toEngine loc.ownedConcepts sweep
        (directTargets target loc claims sweep.erased) = y at hfence hkeys hproduct hsuppressed
      obtain ⟨last,stop⟩ := y
      simp only at hfence hkeys hproduct hsuppressed
      have hpassed : (∃ id, isPurged w.managed.nexus id = false ∧
          isPurged last.managed.nexus id = true) → ∀ e ∈ passes, e < sweep.managed.product.epoch := by
        rintro ⟨id,hbefore,hafter⟩ e he
        cases hmid : isPurged sweep.managed.nexus id with
        | true => exact hfirst.passes ⟨id,hbefore,hmid⟩ e he
        | false => exact hfence id hmid hafter e he
      cases stop with
      | some e =>
        refine ⟨fun hid e he => ?_,fun id identity hid hp => ?_⟩
        · rw [hproduct]
          exact hpassed hid e he
        rw [hproduct]
        cases hmid : isPurged sweep.managed.nexus id with
        | true => exact hfirst.excluded id identity hid hmid
        | false =>
          rcases hkeys id identity (hid.advance hadvance hmid) hp with hmeet | ⟨-,hend⟩
          · exact hmeet
          · cases hend
      | none =>
        simp only [suppressSources, ProductStore.suppress, hproduct, hsuppressed]
        refine ⟨hpassed,fun id identity hid hp => ?_⟩
        cases hmid : isPurged sweep.managed.nexus id with
        | true =>
          exact keys_meet_mono (hfirst.excluded id identity hid hmid) Finset.subset_union_left
        | false =>
          rcases hkeys id identity (hid.advance hadvance hmid) hp with hmeet | ⟨hmeet,-⟩
          · exact keys_meet_mono hmeet Finset.subset_union_left
          · exact keys_meet_mono hmeet (hown.trans Finset.subset_union_right)

theorem forget_fenced (hdoc : session.Documented) (s : Fleet) (hs : s.Ready) (now : ℕ)
    (ns space : String) (request : ForgetRequest) (owner : Bool) (hmode : request.mode = .semantic)
    (hshield : Shielded site session s now ns space request) : Fenced s.passes s.world.managed
    (forget site session s.world now ns space request owner).1.managed := by
  have hnothing : Fenced s.passes s.world.managed s.world.managed :=
    deletes_fenced (Deletes.refl _) hs.passes
  unfold forget
  split
  · exact hnothing
  simp only
  split
  · split <;> exact hnothing
  unfold Shielded at hshield
  simp only at hshield
  generalize forgetRef site ns space request.idempotencyKey = ref at hshield
  generalize forgetReceipt site s.world now ns ref request = record at hshield
  have hbound : Sound (s.world.putReceipt ref record).managed := hs.sound
  rcases run_forget_managed site session (s.world.putReceipt ref record) now ns ref request
      record with h | ⟨loc,hloc,h⟩
  · rw [h]
    exact hnothing
  have hsweep : sweep site.toDigests session (s.world.putReceipt ref record) now ref request
      loc = sweepSemantic site.toDigests session (s.world.putReceipt ref record) now ref
        request.target loc := by
    simp [sweep, hmode]
  have hfenced := sweep_semantic_fenced site hdoc _ hbound now ref request.target loc
    s.passes hs.passes fun m ids hb => hshield loc hloc m ids hb
  have hswept := sweep_semantic_step site hdoc _ hbound now ref request.target loc
  rcases h with h | h <;> rw [h, hsweep]
  · exact hfenced
  obtain ⟨hsup,-⟩ := suppress_step hswept.sound
    (sweepSemantic site.toDigests session (s.world.putReceipt ref record) now ref
      request.target loc).1.suppressed
  exact hfenced.trans_deletes hsup.advance fun _ => rfl

end

def Fleet.Fresh (s : Fleet) : Prop :=
  s.passes = [] ∧ s.world.product.pending = none ∧
    (∀ key, s.world.product.changes key = none) ∧ ∀ origin, s.world.product.sources origin = none

theorem fresh_ready (s : Fleet) (h : s.Fresh) : s.Ready := by
  obtain ⟨hp,hpend,hchanges,hsources⟩ := h
  refine ⟨⟨fun key change hc => ?_,fun key change hk => ?_,fun origin identity hi => ?_⟩,?_⟩
  · rw [show s.world.managed.product.changes key = none from hchanges key] at hc
    cases hc
  · rw [show s.world.managed.product.pending = none from hpend] at hk
    cases hk
  · rw [show s.world.managed.product.sources origin = none from hsources origin] at hi
    cases hi
  · simp [hp]

/-- A semantic forget in any run of the object, if its direct purges are shielded: in every
state the object reaches later, the recorded source of an Evidence it purged is refused, and if
it purged anything, every epoch returned before it is refused. -/
theorem shielded_forget_fences (site : Site) (session : Session) (hdoc : session.Documented)
    (start s last : Fleet) (now : ℕ) (ns space : String) (request : ForgetRequest) (owner : Bool)
    (hstart : start.Fresh) (hbefore : ObjectRun site session start s)
    (hmode : request.mode = .semantic)
    (hshield : Shielded site session s now ns space request)
    (hafter : ObjectRun site session
      { s with world := (forget site session s.world now ns space request owner).1 } last) :
    (∀ id identity, Identified s.world.managed id identity →
      isPurged (forget site session s.world now ns space request owner).1.nexus id = true →
      ∀ origin, ∃ e, last.world.product.begin (some identity) origin = .error e ∧
        (last.world.product.Open → e = ⟨none,"source_suppressed"⟩)) ∧
    ((∃ id, isPurged s.world.nexus id = false ∧
        isPurged (forget site session s.world now ns space request owner).1.nexus id = true) →
      ∀ e ∈ s.passes, ∃ failure, last.world.product.check e = .error failure) := by
  have hready := (object_run hdoc hbefore (fresh_ready start hstart)).2
  have hfenced := forget_fenced site hdoc s hready now ns space request owner hmode hshield
  have hnext : Fleet.Ready { s with
      world := (forget site session s.world now ns space request owner).1 } := by
    have hcall : ObjectStep site session s
        { s with world := (ledgerStep site session s.world now
            (.erase ns space request owner)).1 } := .call s now _ fun _ h => nomatch h
    have hstep := object_step hdoc hcall hready
    simpa only [ledgerStep, tell_world] using hstep.2
  have hlater := (object_run hdoc hafter hnext).1
  refine ⟨fun id identity hid hp origin => ?_,fun hid e he => ?_⟩
  · obtain ⟨row,source,_,_,_,_,hsource⟩ := hid.recorded
    exact begin_refused _ identity origin (hready.sound.sources source identity hsource)
      (keys_meet_mono (hfenced.excluded id identity hid hp) hlater.suppressed)
  · exact check_refused _ e ((hfenced.passes hid e he).trans_le hlater.epoch)

/-! A pass is admitted, and the owner then forgets what its source was remembered as: a claim
with its Evidence, or an Evidence no claim cites. -/

def purgeRow (nexus : Nexus) (id : ElementId) : Nexus :=
  { nexus with load := fun x =>
      if x = id then (nexus.load x).map fun row => { row with state := .purged }
      else nexus.load x }

/-- A session whose engine purges what it is asked to, and nothing else. -/
def plainSession : Session where
  purge := fun nexus request => (purgeRow nexus request.id,.ok ⟨true,[request.id]⟩)
  dryRun := fun nexus _ => (nexus,.ok ())
  purgePayload := fun nexus _ => (nexus,.ok ())
  createEvidence := fun nexus _ => (nexus,.ok (none,none))
  repairRecording := fun nexus _ => (nexus,.ok ⟨.activity,1⟩)
  findScope := fun _ _ => .ok none
  createScope := fun nexus _ => (nexus,.ok "C-2")
  assertionsOn := fun _ _ => .ok []
  validateErasurePlan := fun _ _ => .ok ()

theorem plain_documented : plainSession.Documented := by
  have hpurge : ∀ (nexus : Nexus) id, nexus.Follows (purgeRow nexus id) := by
    intro nexus id x row hr
    by_cases hx : x = id
    · subst hx
      exact ⟨{ row with state := .purged },by simp [purgeRow, hr],fun _ => rfl,
        fun h => absurd rfl h⟩
    · exact ⟨row,by simp [purgeRow, hx, hr],fun h => h,fun _ => rfl⟩
  refine ⟨⟨fun nexus request => hpurge nexus request.id,(fun _ _ _ h => nomatch h),?_,
    fun nexus _ => Nexus.Follows.refl nexus,fun _ _ _ => rfl⟩,fun nexus _ => Nexus.Follows.refl nexus,
    fun nexus _ => Nexus.Follows.refl nexus,fun nexus _ => Nexus.Follows.refl nexus,
    fun nexus _ => Nexus.Follows.refl nexus⟩
  intro nexus id version x hx
  simp [plainSession, purgeRow, isPurged, hx]

def claimId : ElementId := ⟨.assertion,1⟩

def propositionId : ElementId := ⟨.proposition,1⟩

def citedId : ElementId := ⟨.evidence,1⟩

def uncitedId : ElementId := ⟨.evidence,2⟩

def originText : String :=
  "formation:sha256:0000000000000000000000000000000000000000000000000000000000000000"

def toldRow (evidenceRefs : List ElementId) (clientKey : ClientKey) : Row where
  space := "brain"
  state := .active
  version := 1
  readable := true
  legalHold := false
  className := ""
  propositionId
  actor := none
  evidenceRefs
  endpoints := []
  clientKey
  payloadDigest := some "payload"
  contentDigest := ""
  observedAt := none

def toldNexus : Nexus where
  space := "brain"
  seq := 3
  load := fun id =>
    if id = claimId then some (toldRow [citedId] (.other ""))
    else if id = propositionId then some (toldRow [] (.other ""))
    else if id = citedId then some (toldRow [] (.formation originText 1))
    else if id = uncitedId then some (toldRow [] (.formation originText 2))
    else none
  referrers := fun id => if id = propositionId ∨ id = citedId then [claimId] else []
  internal := 0

def conversation : SourceIdentity := ⟨"conversation:1",[]⟩

def toldWorld (product : ProductStore) : World :=
  ⟨⟨toldNexus,product⟩,SortedMap.empty,SortedMap.empty,SortedMap.empty,fun _ => []⟩

def boundProduct : ProductStore := freshProduct.bindSource originText conversation

def capturedProduct : ProductStore :=
  { boundProduct with
    evidence := fun o i =>
      if o = originText ∧ i = 1 then some ⟨"payload",none⟩ else boundProduct.evidence o i }

def admittedFleet : Fleet := ⟨toldWorld capturedProduct,[0]⟩

theorem admitted_reached :
    ObjectRun plainSite plainSession ⟨toldWorld freshProduct,[]⟩ admittedFleet := by
  have hbegin : freshProduct.begin (some conversation) (some originText) = .ok (boundProduct,0) := by
    rfl
  exact .step (.begin _ (some conversation) (some originText) boundProduct 0 hbegin)
    (.step (.capture _ originText 1 ⟨"payload",none⟩ capturedProduct rfl) (.done _))

def forgetClaim : ForgetRequest := ⟨"key",.element claimId,.semantic⟩

def forgetEvidence : ForgetRequest := ⟨"key",.element uncitedId,.semantic⟩

def forgotAt (request : ForgetRequest) : World :=
  (forget plainSite plainSession admittedFleet.world 0 "api" "brain" request true).1

theorem claim_leaves_nothing (session : Session) (digests : Digests) (w : World) (now : ℕ)
    (ref : String) (id : ElementId) (loc : Located) (m : Managed) (ids : List ElementId)
    (hkind : id.kind = .assertion) (he : loc.evidenceTargets = []) (ho : loc.ownedConcepts = [])
    (h : beforeDirect digests session w now ref (.element id) loc = some (m,ids)) : ids = [] := by
  unfold beforeDirect at h
  have hclaims : claimsOf session w.nexus (.element id) loc.evidenceTargets = .ok [id] := by
    simp [claimsOf, hkind, he, Except.map, sortIds, sortBy, distinct]
  simp only [hclaims] at h
  split at h
  · cases h
  · cases h
    simp [directTargets, he, ho, distinct]

/-- The forget of the claim keeps the pass and its conversation out. -/
theorem shielded_forget_fences_claim :
    (∀ origin, ∃ e, (forgotAt forgetClaim).product.begin (some conversation) origin = .error e) ∧
    ∃ failure, (forgotAt forgetClaim).product.check 0 = .error failure := by
  have hshield : Shielded plainSite plainSession admittedFleet 0 "api" "brain" forgetClaim := by
    intro loc hloc m ids hbefore
    change (Except.ok ⟨none,[],[],∅,.completed,""⟩ : Except Failure Located) = .ok loc at hloc
    cases hloc
    have hids := claim_leaves_nothing plainSession _ _ _ _ claimId _ m ids rfl rfl rfl hbefore
    rw [hids]
    exact fun a ha => nomatch ha
  have hpurged : isPurged (forgotAt forgetClaim).nexus citedId = true := by decide +kernel
  have hfences := shielded_forget_fences plainSite plainSession plain_documented _ admittedFleet _ 0
    "api" "brain" forgetClaim true ⟨rfl,rfl,fun _ => rfl,fun _ => rfl⟩ admitted_reached rfl hshield
    (.done _)
  refine ⟨fun origin => ?_,hfences.2 ⟨citedId,rfl,hpurged⟩ 0 (by simp [admittedFleet])⟩
  obtain ⟨e,he,-⟩ := hfences.1 citedId conversation
    ⟨rfl,_,originText,1,rfl,by decide,rfl,by simp [admittedFleet, toldWorld, capturedProduct,
      boundProduct, ProductStore.bindSource]⟩ hpurged origin
  exact ⟨e,he⟩

/-- The forget of the Evidence leaves the epoch of the pass as it was. -/
theorem direct_purge_unfenced :
    ¬∀ (site : Site) (session : Session) (_ : session.Documented) (start s last : Fleet)
      (now : ℕ) (ns space : String) (request : ForgetRequest) (owner : Bool), start.Fresh →
      ObjectRun site session start s → request.mode = .semantic →
      ObjectRun site session
        { s with world := (forget site session s.world now ns space request owner).1 } last →
      (∀ id identity, Identified s.world.managed id identity →
        isPurged (forget site session s.world now ns space request owner).1.nexus id = true →
        ∀ origin, ∃ e, last.world.product.begin (some identity) origin = .error e ∧
          (last.world.product.Open → e = ⟨none,"source_suppressed"⟩)) ∧
      ((∃ id, isPurged s.world.nexus id = false ∧
          isPurged (forget site session s.world now ns space request owner).1.nexus id = true) →
        ∀ e ∈ s.passes, ∃ failure, last.world.product.check e = .error failure) := by
  intro h
  have hpurged : isPurged (forgotAt forgetEvidence).nexus uncitedId = true := by decide +kernel
  have hepoch : (forgotAt forgetEvidence).product.epoch = 0 ∧
      (forgotAt forgetEvidence).product.pending = none ∧
      (forgotAt forgetEvidence).product.scrub.isSome = false := by decide +kernel
  have hfails := (h plainSite plainSession plain_documented _ admittedFleet _ 0 "api" "brain"
    forgetEvidence true ⟨rfl,rfl,fun _ => rfl,fun _ => rfl⟩ admitted_reached rfl (.done _)).2
    ⟨uncitedId,rfl,hpurged⟩ 0 (by simp [admittedFleet])
  obtain ⟨failure,hf⟩ := hfails
  change (forgotAt forgetEvidence).product.check 0 = .error failure at hf
  simp [ProductStore.check, hepoch] at hf

end AndaBrain.WorkerMemory
