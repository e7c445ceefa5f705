import AndaBrain.PreviewRuns

/-!
# The erasing calls, and runs of every call

The forgets and the batch purge first and are given to a scrub after, or to none.
-/

set_option autoImplicit false

namespace AndaBrain.ManagedChanges
open Foundation.Throwing
open WorkerMemory (ElementId ElementState Failure fail Target)

section
variable {site : Site} {eraser : Eraser}

def purgedOf : Except Failure (List ElementId) → List ElementId
  | .ok purged => purged
  | .error _ => []

theorem purged_by_mem {w : World} {answer : Except Failure (List ElementId)} {k : String}
    {id : ElementId} (h : id ∈ w.purgedBy answer k) : id ∈ w.since k ∨ id ∈ purgedOf answer := by
  cases answer with
  | ok purged => exact List.mem_append.mp h
  | error e => exact .inl h

theorem Owing.purged {w : World} {purged : List ElementId} (h : Owing purged w) (nexus : Nexus)
    (answer : Except Failure (List ElementId)) :
    Owing (purged++purgedOf answer) { w with nexus, since := w.purgedBy answer } := by
  intro ht
  have hdue := h ht
  refine ⟨fun k c hp hl id hid => ?_,fun k c hp hl id hid => ?_,hdue.excepted⟩
  · rcases purged_by_mem hid with hold | hnew
    · exact (hdue.own k c hp hl id hold).imp_right
        (Or.imp_right fun hin => List.mem_append_left _ hin)
    · exact .inr (.inr (List.mem_append_right _ hnew))
  · rcases purged_by_mem hid with hold | hnew
    · exact (hdue.others k c hp hl id hold).imp_right
        (Or.imp_right (Or.imp_right fun hin => List.mem_append_left _ hin))
    · exact .inr (.inr (.inr (List.mem_append_right _ hnew)))

theorem Owing.called {w : World} {purged : List ElementId} (h : Owing purged w) :
    Owing purged { w with calls := w.calls+1 } :=
  fun ht => (h ht).kept ⟨rfl,rfl,rfl,rfl,rfl⟩

theorem purging_owes (purged : List ElementId)
    (mutate : World → Nexus × Except Failure (List ElementId)) :
    Triple (Owing purged)
      (do
        call
        let w ← read
        let (nexus,answer) := mutate w
        update fun w => { w with nexus, since := w.purgedBy answer }
        ofExcept answer : Action (List ElementId))
      (fun more => Owing (purged++more)) (Owing purged) := by
  refine triple_bind (triple_call fun _ h => h.called) fun _ => ?_
  refine triple_keep (triple_read fun _ h => h) fun v => ?_
  generalize mutate v = r
  obtain ⟨nexus,answer⟩ := r
  refine triple_bind (R := fun _ => Owing (purged++purgedOf answer))
    (triple_update fun w h => h.purged nexus answer) fun _ => ?_
  cases answer with
  | ok more => exact triple_pure fun _ h => h
  | error e =>
    refine triple_throwing fun w h => ?_
    rwa [purgedOf,List.append_nil] at h

variable (eraser) in
theorem purge_owes (purged : List ElementId) (id : ElementId) :
    Triple (Owing purged) (purgeCascade eraser id) (fun more => Owing (purged++more))
      (Owing purged) := purging_owes purged fun w => eraser.purge w.nexus id

variable (eraser) in
theorem batch_owes (operations : List String) :
    Triple Sound (runBatch eraser operations) (fun more => Owing more) Sound :=
  triple_mono (purging_owes [] fun w => eraser.batch w.nexus operations)
    (fun _ h => owing_nil.mpr h) (fun _ _ h => h) fun _ h => owing_nil.mp h

variable (eraser) in
theorem erase_entity_owes {purged : List ElementId} (dryRun : Bool) (entity : String) :
    Triple (Owing purged) (eraseEntity eraser dryRun entity)
      (fun r => Owing (purged++r.2)) Sound := by
  have hnone : ∀ entry : ForgetEntry, Triple (Owing purged)
      (pure (entry,[]) : Action (ForgetEntry × List ElementId))
      (fun r => Owing (purged++r.2)) Sound := fun entry => triple_pure fun w h => by
    rwa [List.append_nil]
  unfold eraseEntity
  cases eraser.parse entity with
  | error e => exact hnone _
  | ok id =>
    refine triple_keep (triple_read fun _ h => h) fun v => ?_
    refine triple_ite (fun _ => ?_) fun _ => hnone _
    refine triple_bind (R := fun answer => Owing (purged++purgedOf answer))
      (triple_attempt (triple_err (purge_owes eraser purged id) fun w h e => by rwa [purgedOf,List.append_nil])) fun answer => ?_
    cases answer with
    | ok more => exact triple_pure fun _ h => h
    | error e => exact triple_pure fun _ h => h

variable (eraser) in
theorem erase_entities_owe (purged : List ElementId) (dryRun : Bool) (entities : List String) :
    Triple (Owing purged) (eraseEntities eraser dryRun entities)
      (fun r => Owing (purged++r.2)) Sound := by
  induction entities generalizing purged with
  | nil => exact triple_pure fun w h => by rwa [List.append_nil]
  | cons entity rest ih =>
    refine triple_bind (erase_entity_owes eraser dryRun entity) fun first => ?_
    refine triple_bind (ih _) fun more => triple_pure fun w h => ?_
    rwa [← List.append_assoc]

theorem fence_erasure_sound (erases : Bool) :
    Triple Stable (fenceErasure site erases) (fun _ => Sound) Sound := by
  unfold fenceErasure
  exact triple_ite (fun _ => triple_mono invalidate_steady (fun _ h => h) (fun _ _ h => h.sound)
    fun _ h => h.sound) fun _ => triple_pure fun _ h => h.sound

variable (now : ℕ) (auth : Auth) (receiptRef : String)

variable (site eraser) in
theorem forget_memory_sound (input : ForgetInput) :
    Triple Sound (forgetMemory site eraser now input) (fun _ => Sound) Sound := by
  unfold forgetMemory
  refine triple_ite (fun _ => ?_) fun _ => triple_throwing fun _ h => h
  refine triple_bind (recover_stable site eraser.toEngine now) fun _ => ?_
  refine triple_bind (fence_erasure_sound _) fun _ => ?_
  refine triple_bind (triple_pre (erase_entities_owe eraser [] input.dryRun _) (fun _ h => owing_nil.mpr h)) fun r => ?_
  exact triple_bind (scrub_erased_spec now r.2) fun _ => triple_pure fun _ h => h

variable (site eraser) in
theorem admin_batch_sound (operations : List String) :
    Triple Sound (executeAdminKipBatch site eraser now operations) (fun _ => Sound) Sound := by
  unfold executeAdminKipBatch
  refine triple_bind (recover_stable site eraser.toEngine now) fun _ => ?_
  refine triple_bind (fence_erasure_sound _) fun _ => ?_
  exact triple_bind (batch_owes eraser operations) fun erased => scrub_erased_spec now erased

/-! ## The forget of the Memory Interface -/

variable (site eraser) in
theorem delete_claim_steady (claim : ElementId) :
    Steady (deleteClaim site eraser now auth receiptRef claim) := by
  unfold Steady deleteClaim
  refine triple_keep (triple_read fun _ h => h) fun v => ?_
  refine triple_bind (of_except_steady _) fun record => ?_
  refine triple_bind (prepare_steady site eraser.toEngine now auth _) fun prepared => ?_
  refine triple_bind (commit_steady site eraser.toEngine now auth _ _) fun confirmed => ?_
  exact triple_ite (fun _ => triple_pure fun _ h => h) fun _ => triple_throwing fun _ h => h

variable (site eraser) in
theorem erase_claim_steady (erased : List ElementId)
    (claim : ElementId) : Steady (eraseClaim site eraser now auth receiptRef erased claim) := by
  unfold Steady eraseClaim
  refine triple_ite (fun _ => triple_pure fun _ h => h) fun _ => ?_
  refine triple_bind (R := fun _ => Stable) (triple_attempt (triple_err (delete_claim_steady site eraser now auth receiptRef claim) fun _ h _ => h)) fun answer => ?_
  cases answer with
  | ok confirmed => exact triple_pure fun _ h => h
  | error e =>
    exact triple_ite (fun _ => triple_pure fun _ h => h) fun _ => triple_throwing fun _ h => h

variable (site eraser) in
theorem erase_claims_steady (claims erased : List ElementId) (keys : Finset String) : Steady
    (eraseClaims site eraser now auth receiptRef claims erased keys) := by
  induction claims generalizing erased keys with
  | nil => exact triple_pure fun _ h => h
  | cons claim rest ih =>
    exact triple_bind (erase_claim_steady site eraser now auth receiptRef erased claim)
      fun r => ih _ _

variable (eraser) in
theorem purge_direct_sound (id : ElementId) :
    Triple Sound (purgeDirect eraser id) (fun _ => Sound) Sound := by
  unfold purgeDirect
  refine triple_bind (triple_mono (purge_owes eraser [] id) (fun _ h => owing_nil.mpr h)
    (fun _ _ h => h) fun _ h => owing_nil.mp h) fun purged => note_unscrubbed purged

variable (eraser) in
theorem purge_directs_sound (ids : List ElementId) :
    Triple Sound (purgeDirects eraser ids) (fun _ => Sound) Sound := by
  induction ids with
  | nil => exact triple_pure fun _ h => h
  | cons id rest ih =>
    refine triple_keep (triple_read fun _ h => h) fun v => ?_
    refine triple_ite (fun _ => ih) fun _ => ?_
    refine triple_bind (R := fun _ => Sound) (triple_attempt (triple_err (purge_direct_sound eraser id) fun _ h _ => h)) fun answer => ?_
    cases answer with
    | ok u => exact ih
    | error e =>
      exact triple_ite (fun _ => triple_pure fun _ h => h) fun _ => triple_throwing fun _ h => h

theorem suppress_sources_sound (keys : Finset String) :
    Triple Sound (suppressSources keys) (fun _ => Sound) Sound := by
  unfold suppressSources
  refine triple_ite (fun _ => triple_pure fun _ h => h) fun _ => ?_
  exact triple_bind (triple_call fun _ h => h.called) fun _ =>
    triple_update fun _ h => h.kept ⟨rfl,rfl,rfl,rfl,rfl⟩

variable (site eraser) in
theorem memory_forget_sound (selection : Selection)
    (semantic : Bool) :
    Triple Sound (memoryForget site eraser now auth receiptRef selection semantic)
      (fun _ => Sound) Sound := by
  unfold memoryForget
  refine triple_bind (recover_stable site eraser.toEngine now) fun _ => ?_
  refine triple_ite (fun _ => ?_) fun _ => ?_
  · unfold forgetSemantic
    refine triple_keep (triple_read fun _ h => h) fun v => ?_
    refine triple_bind (triple_err (of_except_steady _) fun _ h => h.sound) fun claims => ?_
    refine triple_bind (triple_mono (erase_claims_steady site eraser now auth receiptRef claims []
      selection.keys) (fun _ h => h) (fun _ _ h => h.sound) fun _ h => h.sound) fun r => ?_
    exact triple_bind (purge_directs_sound eraser _) fun _ => suppress_sources_sound r.2
  refine triple_bind (triple_pre (triple_each (I := Sound) (E := Sound) fun id _ => ?_) (fun _ h => h.sound)) fun _ => suppress_sources_sound _
  unfold purgePayloadOf
  refine triple_bind (triple_call fun _ h => h.called) fun _ => ?_
  refine triple_keep (triple_read fun _ h => h) fun v => ?_
  exact triple_bind (R := fun _ => Sound) (triple_update fun _ h => h.kept ⟨rfl,rfl,rfl,rfl,rfl⟩)
    fun _ => triple_of_except (fun _ _ _ h => h) fun _ h => h

end

/-! ## Runs -/

/-- The calls of the object, each with the clock it reads; `recover` is any other one, which moves
no more of this store. -/
inductive Entry where
  | prepare (now : ℕ) (auth : Auth) (input : ChangeInput)
  | commit (now : ℕ) (auth : Auth) (operation previewDigest : String)
  | discard (now : ℕ) (auth : Auth) (operation : String)
  | change (now : ℕ) (auth : Auth) (operation : String)
  | forgetMemory (now : ℕ) (input : ForgetInput)
  | executeAdminKipBatch (now : ℕ) (operations : List String)
  | memoryForget (now : ℕ) (auth : Auth) (receiptRef : String) (selection : Selection)
      (semantic : Bool)
  | recover (now : ℕ)
  | bind (sources : String → Option Product.SourceIdentity)
      (evidence : String → ℕ → Option WorkerMemory.StoredBinding)
  | evolve (nexus : Nexus)

section
variable (site : Site)

def Entry.action (eraser : Eraser) : Entry → Action Unit
  | .prepare now auth input => do
    recoverChange site eraser.toEngine now
    finish (ManagedChanges.prepare site eraser.toEngine now auth input)
  | .commit now auth operation previewDigest => do
    recoverChange site eraser.toEngine now
    finish (ManagedChanges.commit site eraser.toEngine now auth operation previewDigest)
  | .discard now auth operation => do
    recoverChange site eraser.toEngine now
    ManagedChanges.discard site eraser.toEngine auth operation
  | .change now auth operation => do
    recoverChange site eraser.toEngine now
    finish (showChange site eraser.toEngine now auth operation)
  | .forgetMemory now input => finish (ManagedChanges.forgetMemory site eraser now input)
  | .executeAdminKipBatch now operations =>
    ManagedChanges.executeAdminKipBatch site eraser now operations
  | .memoryForget now auth receiptRef selection semantic =>
    ManagedChanges.memoryForget site eraser now auth receiptRef selection semantic
  | .recover now => recoverChange site eraser.toEngine now
  | .bind sources evidence => update fun w => { w with sources, evidence }
  | .evolve nexus => update fun w => { w with nexus }

/-- A call with the storage and native calls of it that fail, and the engine it meets. -/
def World.serve (w : World) (faults : ℕ → Bool) (eraser : Eraser) (entry : Entry) : World :=
  (entry.action site eraser { w with calls := 0, faults }).1

inductive Course (start : World) : World → Prop
  | here : Course start start
  | step {w : World} (rest : Course start w) (faults : ℕ → Bool) (eraser : Eraser)
      (entry : Entry) : Course start (w.serve site faults eraser entry)

end

section
variable {site : Site}

theorem finish_sound {α : Type} {m : Action α} (h : Steady m) :
    Triple Stable (finish m) (fun _ => Sound) Sound :=
  triple_bind (triple_err h fun _ h => h.sound) fun _ =>
    triple_pure fun _ h => h.sound

variable (site) in
theorem entry_sound (eraser : Eraser) (entry : Entry) :
    Triple Sound (entry.action site eraser) (fun _ => Sound) Sound := by
  have hrecover : ∀ now, Triple Sound (recoverChange site eraser.toEngine now) (fun _ => Stable)
      Sound := fun now => recover_stable site eraser.toEngine now
  cases entry with
  | prepare now auth input =>
    exact triple_bind (hrecover now) fun _ => finish_sound (prepare_steady site _ now auth input)
  | commit now auth operation digest =>
    exact triple_bind (hrecover now) fun _ =>
      finish_sound (commit_steady site _ now auth operation digest)
  | discard now auth operation =>
    exact triple_bind (hrecover now) fun _ => triple_mono (discard_steady auth operation)
      (fun _ h => h) (fun _ _ h => h.sound) fun _ h => h.sound
  | change now auth operation =>
    exact triple_bind (hrecover now) fun _ => finish_sound (show_steady site _ now auth operation)
  | forgetMemory now input =>
    exact triple_bind (forget_memory_sound site eraser now input) fun _ => triple_pure fun _ h => h
  | executeAdminKipBatch now operations => exact admin_batch_sound site eraser now operations
  | memoryForget now auth receiptRef selection semantic =>
    exact memory_forget_sound site eraser now auth receiptRef selection semantic
  | recover now =>
    exact triple_mono (hrecover now) (fun _ h => h) (fun _ _ h => h.sound) fun _ h => h
  | bind sources evidence => exact triple_update fun _ h => h.kept ⟨rfl,rfl,rfl,rfl,rfl⟩
  | evolve nexus => exact triple_update fun _ h => h.kept ⟨rfl,rfl,rfl,rfl,rfl⟩

theorem serve_sound {w : World} (h : Sound w) (faults : ℕ → Bool) (eraser : Eraser)
    (entry : Entry) : Sound (w.serve site faults eraser entry) := by
  have hstart : Sound { w with calls := 0, faults } := h.kept ⟨rfl,rfl,rfl,rfl,rfl⟩
  have hentry := entry_sound site eraser entry _ hstart
  unfold World.serve
  generalize entry.action site eraser { w with calls := 0, faults } = r at hentry ⊢
  obtain ⟨next,answer⟩ := r
  cases answer <;> exact hentry

theorem course_sound {start w : World} (h : Sound start) (hrun : Course site start w) :
    Sound w := by
  induction hrun with
  | here => exact h
  | step rest faults eraser entry ih => exact serve_sound ih faults eraser entry

theorem fresh_sound {w : World} (h : Fresh w) (hscrub : w.scrub = none) : Sound w := by
  refine fun _ => ⟨fun k c _ hl => ?_,fun k c _ hl => ?_,fun s k hs => ?_⟩
  · rw [h.changes] at hl
    cases hl
  · rw [h.changes] at hl
    cases hl
  · rw [hscrub] at hs
    cases hs

/-- Erased text does not survive a run whose purges are all recognised, once no scrub is pending
and no deletion waits that has purged something. -/
theorem runs_seal_previews {start w : World} (h : Fresh start) (hstart : start.scrub = none)
    (hrun : Course site start w) (htold : Told w) (hscrub : w.scrub = none) (hwhole : Whole w) :
    ∀ k c, w.changes.lookup k = some c → ∀ id ∈ w.since k, SealedBy id c := by
  have hdue := course_sound (fresh_sound h hstart) hrun htold
  intro k c hl id hid
  have hfinished : ∀ key, w.control.pending = some key → ¬Begun w key :=
    fun key hp ⟨e,he,ho,hne⟩ => hne (hwhole key hp e he ho)
  by_cases hp : w.control.pending = some k
  · rcases hdue.own k c hp hl id hid with hfirm | ⟨-,hbegun⟩ | hnone
    · exact firm_sealed hfirm
    · exact absurd hbegun (hfinished k hp)
    · exact hnone.elim
  rcases hdue.others k c hp hl id hid with hsealed | ⟨s,hs,-⟩ | ⟨k',d,hp',-,-,hb,-⟩ | hnone
  · exact hsealed
  · rw [hscrub] at hs
    cases hs
  · exact absurd hb (hfinished k' hp')
  · exact hnone.elim

end

/-! ## A prepared deletion whose Concept, or whose record, is erased beside it -/

def purgeBerlin : String :=
  "PURGE \"C-2\" REFERENCE POLICY \"tombstone_reference\" CONFIRM \"PURGE\""

def purgeClaim : String :=
  "PURGE \"A-1\" REFERENCE POLICY \"authorized_cascade\" CONFIRM \"PURGE\""

def sampleBatch (operations : List String) : List ElementId :=
  operations.flatMap fun command =>
    if command = purgeBerlin then [berlin] else if command = purgeClaim then [claim] else []

def sampleCascade (id : ElementId) : List ElementId :=
  if id = berlin then [berlin,livesIn,claim] else [id]

def sampleEraser : Eraser where
  toEngine := sampleEngine
  parse _ := fail "invalid element id"
  erasesMemory command := decide (command = purgeBerlin ∨ command = purgeClaim)
  mayRead _ _ := true
  purge nexus id := (nexus.purge (sampleCascade id),.ok (sampleCascade id))
  purgePayload nexus _ := (nexus,.ok ())
  batch nexus operations := (nexus.purge (sampleBatch operations),.ok (sampleBatch operations))
  assertionsOn _ _ := .ok []

def heldWorld : World :=
  sampleWorld.serve sampleSite noFaults sampleEraser (.prepare 0 owner deletion)

def served (entry : Entry) : World := heldWorld.serve sampleSite noFaults sampleEraser entry

theorem served_course (entry : Entry) : Course sampleSite sampleWorld (served entry) :=
  .step (.step .here noFaults sampleEraser (.prepare 0 owner deletion)) noFaults sampleEraser entry

def heldChange (w : World) : Option StoredChange := w.changes.lookup "owner:erase"

def claimPurged : World := served (.executeAdminKipBatch 1 [purgeClaim])

def berlinPurged : World := served (.executeAdminKipBatch 1 [purgeBerlin])

def berlinForgotten : World := served (.memoryForget 1 owner "rcpt-1" ⟨some berlin,[],[],∅⟩ true)

/-- The batch that purges the claim empties the prepared change. -/
theorem runs_seal_previews_batch : claim ∈ claimPurged.since "owner:erase" ∧
    ∀ k c, claimPurged.changes.lookup k = some c → ∀ id ∈ claimPurged.since k, SealedBy id c := by
  have hnone : claimPurged.control.pending = none := by decide +kernel
  refine ⟨by decide +kernel,?_⟩
  refine runs_seal_previews sample_fresh rfl (served_course _) ?_ ?_ fun key hp => ?_
  · show Told claimPurged
    decide +kernel
  · show claimPurged.scrub = none
    decide +kernel
  · cases hnone.symm.trans hp

/-- Neither the batch that purges the Concept alone nor the forget of the Memory Interface that
purges it with what refers to it takes its name out of the prepared change. -/
theorem previews_keep_purged_name :
    (Course sampleSite sampleWorld berlinPurged ∧ berlinPurged.scrub = none ∧
      berlinPurged.control.pending = none ∧ berlin ∈ berlinPurged.since "owner:erase" ∧
      (heldChange berlinPurged).any (fun c =>
        decide (c.preview.record.object.id? = some berlin ∧
          c.preview.record.objectLabel = "Berlin")) = true) ∧
    Course sampleSite sampleWorld berlinForgotten ∧ berlinForgotten.scrub = none ∧
      berlinForgotten.control.pending = none ∧ claim ∈ berlinForgotten.since "owner:erase" ∧
      (heldChange berlinForgotten).any (fun c =>
        decide (c.preview.record.id = claim ∧
          c.preview.record.text = "Ada · lives_in · Berlin")) = true := by
  refine ⟨⟨served_course _,?_⟩,served_course _,?_⟩ <;> decide +kernel

end AndaBrain.ManagedChanges
