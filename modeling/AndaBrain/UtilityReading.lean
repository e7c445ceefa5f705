import AndaBrain.UtilitySteps
import AndaBrain.Foundation.Noting
import Mathlib.Data.List.Induction

/-!
# What an evaluation reads

Beside a run it is noted what every target showed when it was last read. As long as a target with
reserved units shows the same again, the key of its next intent is the one they were reserved under.
-/

set_option autoImplicit false

namespace AndaBrain.Utility
open Foundation.Resumption Foundation.ConditionalStore

/-- What a queued outcome shows: the sample it traces to, if any, and whether its unit is
consumed. -/
structure Sight where
  outcome : String
  sample : Option AttributionSample
  consumed : Bool
  deriving DecidableEq

structure Basis where
  sights : List Sight
  content : Option (String × String)
  deriving DecidableEq

def Sight.unit (s : Sight) : Option String :=
  (s.sample.filter fun x => x.reason.isNone).map AttributionSample.independentUnit

def Basis.units (B : Basis) : List String := B.sights.filterMap Sight.unit

def World.consumed (w : World) (u : String) : Bool := (w.unit u).any fun c => c.receipt.isSome

/-- The unit is reserved for the target, and no calibration has consumed it. -/
def World.reserved (w : World) (id u : String) : Bool :=
  (w.unit u).any fun c => c.receipt.isNone && c.target == id

def sightOf (i : Env) (w : World) (outcome : String) : Sight where
  outcome := outcome
  sample := (i.trace outcome).toOption
  consumed := (i.trace outcome).toOption.any fun s => w.consumed s.independentUnit

def contentOf (row : Option TargetRow) : Option (String × String) :=
  (row.bind TargetRow.pin).map fun p => (p.id,p.contentDigest)

def basisOf (i : Env) (w : World) (target : Target) : Basis where
  sights := target.refilled.outcomes.map (sightOf i w)
  content := contentOf (i.row target.id)

def Gathered.see (acc : Gathered) (s : Sight) : Gathered :=
  match s.sample with
  | none => acc.exclude s.outcome "evidence_unavailable_or_invalidated"
  | some sample =>
    let acc := { acc with digests := extendEntries acc.digests sample.evidenceDigests }
    match sample.reason with
    | some reason => acc.exclude s.outcome reason
    | none =>
      if s.consumed then acc.exclude s.outcome "already_consumed_independent_unit"
      else acc.take s.outcome sample none

def gatheredOf (sights : List Sight) : Gathered := sights.foldl Gathered.see ⟨[],[],[],[]⟩

def rowOf (content : Option (String × String)) : Option TargetRow :=
  content.map fun p => ⟨some ⟨p.1,0,p.2⟩,none,false⟩

def keyOf (c : UtilityConfig) (id : String) (B : Basis) : CalibrationKey :=
  calibrationKey c id (select c (rowOf B.content) (gatheredOf B.sights))

inductive Phase where
  | fresh
  | reading
  | closed
  deriving DecidableEq

structure Notes where
  last : String → Option Basis
  phase : Phase

def Notes.empty : Notes := ⟨fun _ => none,.fresh⟩

def Notes.named (g : Notes) (id : String) : List String :=
  match g.phase with
  | .reading => (g.last id).elim [] Basis.units
  | _ => []

/-- An evaluation in which a target shows now this and now that has not read anything definite. -/
def Notes.read (g : Notes) (id : String) (B : Basis) : Notes where
  last := Function.update g.last id
    (if g.phase = .fresh ∨ g.last id = some B then some B else none)
  phase := .reading

theorem read_self (g : Notes) (id : String) (B : Basis) : (g.read id B).last id =
    if g.phase = .fresh ∨ g.last id = some B then some B else none :=
  Function.update_self _ _ _

theorem read_other (g : Notes) (id j : String) (B : Basis) (h : j ≠ id) :
    (g.read id B).last j = g.last j :=
  Function.update_of_ne h _ _

def Notes.renew (g : Notes) : Notes := { g with phase := .fresh }

/-- The notes of an evaluation, until its intent is stored. -/
def note : Op → Notes → Env → World → Notes
  | .evaluate id, g, i, w =>
    if g.phase = .closed then g
    else match w.target id with
      | none => g
      | some t => if t.pending.isSome then { g with phase := .closed } else g.read id (basisOf i w t)
  | _, g, _, _ => g

/-- While a unit that the evaluation comes upon is reserved for the target, the target shows what
it showed when it was last read. -/
def Calm : Op → Notes → Env → World → Prop
  | .evaluate id, g, i, w => g.phase ≠ .closed → ∀ t ∈ w.target id, t.pending = none →
      ∀ u ∈ (basisOf i w t).units++g.named id, w.reserved id u = true →
        g.last id = some (basisOf i w t)
  | _, _, _, _ => True

instance (o : Op) (g : Notes) (i : Env) (w : World) : Decidable (Calm o g i w) :=
  match o with
  | .evaluate id => inferInstanceAs (Decidable (g.phase ≠ .closed → ∀ t ∈ w.target id,
      t.pending = none → ∀ u ∈ (basisOf i w t).units++g.named id, w.reserved id u = true →
        g.last id = some (basisOf i w t)))
  | .enqueue _ => .isTrue trivial
  | .openTick => .isTrue trivial
  | .closeTick _ _ => .isTrue trivial

def readings (b : Prop) (c : UtilityConfig) (g : Notes) : Readings where
  kept := b
  last id := (g.last id).map fun B => ⟨B.units,keyOf c id B⟩

section Pure
variable (c : UtilityConfig) (id : String)

theorem take_seen (acc : Gathered) (outcome : String) (sample : AttributionSample)
    (claim : Option UnitClaim) : acc.take outcome sample claim =
    if claim.any (fun u => u.receipt.isSome) then
      acc.exclude outcome "already_consumed_independent_unit"
    else acc.take outcome sample none := by
  by_cases h : claim.any (fun u => u.receipt.isSome) = true
  · rw [Gathered.take, if_pos h, if_pos h]
  · rw [Gathered.take, if_neg h, if_neg h]
    rfl

theorem take_samples (acc : Gathered) (outcome : String) (sample s : AttributionSample)
    (claim : Option UnitClaim) (h : s ∈ (acc.take outcome sample claim).samples) :
    s ∈ acc.samples ∨ s = sample ∧ claim.any (fun u => u.receipt.isSome) = false := by
  rw [Gathered.take] at h
  split at h
  · exact Or.inl h
  · next hc =>
    split at h
    · exact Or.inl h
    rcases List.mem_append.mp h with hold | hnew
    · exact Or.inl hold
    · exact Or.inr ⟨List.mem_singleton.mp hnew,Bool.eq_false_iff.mpr hc⟩

theorem see_samples (acc : Gathered) (x : Sight) (s : AttributionSample)
    (h : s ∈ (acc.see x).samples) :
    s ∈ acc.samples ∨ x.sample = some s ∧ s.reason = none ∧ x.consumed = false := by
  rw [Gathered.see] at h
  cases hx : x.sample with
  | none =>
    rw [hx] at h
    exact Or.inl h
  | some sample =>
    simp only [hx] at h
    cases hr : sample.reason with
    | some reason =>
      simp only [hr] at h
      exact Or.inl h
    | none =>
      simp only [hr] at h
      split at h
      · exact Or.inl h
      · next hc =>
        rcases take_samples _ _ _ _ _ h with hold | ⟨rfl,-⟩
        · exact Or.inl hold
        · exact Or.inr ⟨rfl,hr,Bool.eq_false_iff.mpr hc⟩

theorem sight_unit (x : Sight) (s : AttributionSample) (h : x.sample = some s)
    (hr : s.reason = none) : x.unit = some s.independentUnit := by
  simp [Sight.unit, h, Option.filter, hr]

theorem gathered_units (sights : List Sight) (s : AttributionSample)
    (h : s ∈ (gatheredOf sights).samples) : s.independentUnit ∈ sights.filterMap Sight.unit := by
  induction sights using List.reverseRecOn with
  | nil => cases h
  | append_singleton seen x ih =>
    rw [gatheredOf, List.foldl_append] at h
    rw [List.filterMap_append]
    rcases see_samples _ x s h with hold | ⟨hx,hr,-⟩
    · exact List.mem_append_left _ (ih hold)
    · apply List.mem_append_right
      exact List.mem_filterMap.mpr ⟨x,List.mem_singleton_self x,sight_unit x s hx hr⟩

/-- The key depends on the row through the identity and the content of the memory. -/
theorem key_of_content (row : Option TargetRow) (g : Gathered) :
    calibrationKey c id (select c (rowOf (contentOf row)) g) =
      calibrationKey c id (select c row g) := by
  have hpin : ∀ s, isCurrent ((rowOf (contentOf row)).bind TargetRow.pin) s =
      isCurrent (row.bind TargetRow.pin) s := by
    intro s
    cases hp : row.bind TargetRow.pin <;> simp [rowOf, contentOf, isCurrent, hp]
  have hdigest : ((rowOf (contentOf row)).bind TargetRow.pin).map MemoryPin.contentDigest =
      (row.bind TargetRow.pin).map MemoryPin.contentDigest := by
    cases hp : row.bind TargetRow.pin <;> simp [rowOf, contentOf, hp]
  simp only [calibrationKey, select, Selection.pin, Selection.outcomes, funext hpin, hdigest]

end Pure

section Ticks
variable {b : Prop} {c : UtilityConfig} {w : World} {g : Notes} {i : Env} {t : Target}

theorem consumed_or_reserved (u : String) (claim : UnitClaim) (h : w.unit u = some claim)
    (hn : w.consumed u = false) : claim.receipt = none ∧ w.reserved claim.target u = true := by
  rw [World.consumed, h] at hn
  have hr : claim.receipt = none := by simpa using hn
  refine ⟨hr,?_⟩
  simp [World.reserved, h, hr]

theorem note_reading (hold : w.target t.id = some t) (hnone : t.pending = none)
    (hopen : g.phase ≠ .closed) : note (.evaluate t.id) g i w = g.read t.id (basisOf i w t) := by
  rw [note, if_neg hopen, hold]
  simp [hnone]

theorem note_closed (o : Op) (h : g.phase = .closed) : note o g i w = g := by
  cases o with
  | evaluate id => rw [note, if_pos h]
  | _ => rfl

/-- A tick while the target is read: either it shows what it has shown, or none of the units it has
shown and shows now is reserved for it. -/
theorem read_cases (hold : w.target t.id = some t) (hnone : t.pending = none)
    (hreading : g.phase = .reading) (hcalm : Calm (.evaluate t.id) g i w) :
    (g.read t.id (basisOf i w t)).last t.id = g.last t.id ∧
        g.last t.id = some (basisOf i w t) ∨
      (g.read t.id (basisOf i w t)).last t.id = none ∧
        ∀ u ∈ (basisOf i w t).units++g.named t.id, w.reserved t.id u = false := by
  by_cases hsame : g.last t.id = some (basisOf i w t)
  · left
    refine ⟨?_,hsame⟩
    rw [read_self, if_pos (Or.inr hsame), hsame]
  · right
    constructor
    · rw [read_self, if_neg (by simp [hreading, hsame])]
    · intro u hu
      apply Bool.eq_false_iff.mpr
      intro hr
      exact hsame (hcalm (by simp [hreading]) t hold hnone u hu hr)

/-- The notes agree with the reservations after a tick that the notes allow. -/
theorem note_agreed (o : Op) (hids : ∀ id t, w.target id = some t → t.id = id)
    (hcalm : Calm o g i w) (h : Agreed (readings b c g).last w) :
    Agreed (readings b c (note o g i w)).last w := by
  cases o with
  | evaluate id =>
    by_cases hclosed : g.phase = .closed
    · rwa [note_closed _ hclosed]
    cases hf : w.target id with
    | none =>
      rw [note, if_neg hclosed, hf]
      exact h
    | some t =>
      have hid := hids id t hf
      subst hid
      cases hp : t.pending with
      | some p =>
        rw [note, if_neg hclosed, hf]
        simp only [hp, Option.isSome_some, if_true]
        exact h
      | none =>
        rw [note_reading hf hp hclosed]
        refine ⟨h.claims,?_,?_⟩
        · intro u claim l hc ho hl hu
          by_cases he : claim.target = t.id
          · simp only [readings, he, read_self] at hl
            split at hl
            · cases hl
              have hr : w.reserved t.id u = true := by
                simp [World.reserved, hc, ho, he]
              have hsame := hcalm hclosed t hf hp u (List.mem_append_left _ hu) hr
              apply h.reserved u claim _ hc ho _ hu
              simp [readings, he, hsame]
            · cases hl
          · simp only [readings] at hl
            rw [read_other _ _ _ _ he] at hl
            exact h.reserved u claim l hc ho hl hu
        · intro id p l hp' hl
          by_cases he : id = t.id
          · rw [he, World.pendingAt, hf] at hp'
            rw [show (some t).bind Target.pending = t.pending from rfl, hp] at hp'
            cases hp'
          · simp only [readings] at hl
            rw [read_other _ _ _ _ he] at hl
            exact h.intents id p l hp' hl
  | enqueue _ => exact h
  | openTick => exact h
  | closeTick _ _ => exact h

end Ticks

section Register
variable {w v : World}

/-- Neither a pending intent nor a reservation has changed. -/
def Still (w v : World) : Prop := v.pendingAt = w.pendingAt ∧ v.unit = w.unit

theorem still_other (k : Key) (e : Entry k) (h : Still w v) (ht : ∀ id, Key.target id ≠ k)
    (hu : ∀ id, Key.unit id ≠ k) : Still w (written v k e) :=
  ⟨(pending_other v k e ht).trans h.1,(unit_other v k e hu).trans h.2⟩

theorem still_first (t : Target) (h : Still w v) (hn : v.target t.id = none)
    (ht : t.pending = none) : Still w (written v (.target t.id) t) := by
  refine ⟨?_,(unit_other v (.target t.id) t (fun _ h => nomatch h)).trans h.2⟩
  rw [pending_written, ht, ← h.1]
  have hp : v.pendingAt t.id = none := by
    rw [World.pendingAt, hn]
    rfl
  rw [← hp, Function.update_eq_self]

def Stays {α : Type} (w : World) (p : M α) (v : World) : Prop :=
  Safe (fun _ t => Still w t) (fun _ t => Still w t) (fun _ t => Still w t) p v

theorem stays_put (k : Key) (e : Entry k) (mode : PutMode) (h : Still w v)
    (hw : admits mode (v.journal.cells k) = true → Still w (written v k e)) :
    Stays w (confirmedPut k e mode) v :=
  safe_confirmed_put k e mode v hw hw (fun _ => h) (fun _ => h) fun ha _ => hw ha

theorem stays_bind {α β : Type} (p : M α) (f : α → M β) (hp : Stays w p v)
    (hf : ∀ a t, Still w t → Stays w (f a) t) : Stays w (p >>= f) v := by
  apply safe_bind
  exact safe_mono p v hp (fun _ _ hg => hg) (fun a t ht => hf a t ht) fun _ _ he => he

theorem stays_silent {α : Type} (p : M α) (hp : Silent p) (h : Still w v) : Stays w p v :=
  safe_silent p v hp (fun _ => h) fun _ => h

theorem repair_stays (c : Catalog) (t : Target) (ht : t.pending = none) (h : Still w v) :
    Stays w (repair c t) v := by
  have rest : ∀ u, Still w u → Stays w (do
      confirmedPut (.slot c.allocated) t.id .create
      confirmedSave .catalog { c with pending := none }) u := by
    intro u hu
    refine stays_bind _ _ (stays_put _ _ _ hu fun _ =>
      still_other _ _ hu (fun _ h => nomatch h) fun _ h => nomatch h) ?_
    intro _ x hx
    have hw := still_other .catalog { c with pending := none } hx (fun _ h => nomatch h)
      fun _ h => nomatch h
    exact safe_confirmed_save _ _ x hw hw (fun _ => hx) (fun _ => hx) fun _ => hw
  apply stays_bind _ _ (stays_silent _ (read_value_silent _) h)
  intro found u hu
  refine stays_bind _ _ ?_ fun _ x hx => rest x hx
  apply safe_do_if
  · intro _
    apply stays_put _ _ _ hu
    intro ha
    exact still_first t hu (value_none _ _ (Option.isNone_iff_eq_none.mp ha)) ht
  · intro _
    exact hu

theorem register_stays (site : Site) (h : Charged w) : Stays w (register site) w := by
  have tail : ∀ v : World, Still w v → v.catalog = w.catalog → Stays w (do
      let catalog ← findCatalog
      repairPending catalog) v := by
    intro v hv hc
    have repaired : ∀ found : Option Catalog, found.getD Catalog.default = w.catalog →
        Stays w (repairPending found) v := by
      intro found hfound
      cases found with
      | none => exact hv
      | some c =>
        rw [repairPending.eq_def]
        cases hp : c.pending with
        | none =>
          simp only [hp]
          exact hv
        | some t =>
          simp only [hp]
          exact repair_stays c t (h.fresh t (by rw [← hfound]; exact hp)) hv
    apply safe_bind
    apply safe_bind
    exact safe_read _ v (repaired _ hc) fun _ => hv
  have start : Still w w := ⟨rfl,rfl⟩
  refine safe_after _ _ _ (silent_lift _) (fun _ => start) fun _ => ?_
  apply safe_bind
  refine safe_after (findRegistration site.config.digest) _ _ (read_value_silent _)
    (fun _ => start) fun found => ?_
  cases found with
  | some old => exact safe_refuse _ _ _ (fun _ => start) fun _ => tail w start rfl
  | none =>
    have hw := still_other (.registration site.config.digest) site.config.digest start
      (by rintro _ ⟨⟩) (by rintro _ ⟨⟩)
    have hcat := catalog_other w (.registration site.config.digest) site.config.digest
      (by rintro ⟨⟩)
    exact safe_confirmed_put _ _ _ _ (fun _ => hw) (fun _ => tail _ hw hcat)
      (fun _ => tail w start rfl) (fun _ => start) fun _ _ => hw

end Register

section Evaluation
variable {α : Type} {b : Prop} {site : Site} {w : World} {g : Notes} {t : Target}

def Asked (b : Prop) (o : Op) (g : Notes) (i : Env) (w : World) : Prop := b → Calm o g i w

/-- The journal is sound with what the notes hold. -/
def Kept (b : Prop) (site : Site) (g : Notes) (w : World) : Prop :=
  Sound (readings b site.config g) w

def Notes.Keeps (b : Prop) (site : Site) (id : String) (p : M α) (g : Notes) (w : World) : Prop :=
  SafeNoting (Asked b (.evaluate id)) (note (.evaluate id)) (Kept b site)
    (fun _ => Kept b site) (fun _ => Kept b site) p g w

theorem kept_noted (o : Op) (i : Env) (h : Kept b site g w) (hA : Asked b o g i w) :
    Kept b site (note o g i w) w :=
  ⟨h.charged,h.listed,fun hb => note_agreed o h.charged.ids (hA hb) (h.agreed hb)⟩

theorem noting_read {id : String} (k : Key) (f : Option (Entry k) → M α) (h : Kept b site g w)
    (hf : ∀ i, Asked b (.evaluate id) g i w →
      Notes.Keeps b site id (f (value w.journal k)) (note (.evaluate id) g i w) w) :
    Notes.Keeps b site id (readValue k >>= f) g w := by
  apply safe_noting_bind
  apply safe_noting_bind
  apply safe_noting_query
  · intro i hA
    exact kept_noted _ i h hA
  · intro i a hA ha
    have he : a = (Holds.store w).cells k := by
      cases hs : (Serves.service i : Service String) with
      | up =>
        simp only [hs, Except.ok.injEq] at ha
        exact ha.symm
      | lost e =>
        simp only [hs, Except.ok.injEq] at ha
        exact ha.symm
      | down e =>
        simp only [hs] at ha
        cases ha
    rw [he]
    exact hf i hA
  · intro i _ hA _
    exact kept_noted _ i h hA

/-- The key of an intent under way is the one that follows from what was read last; where nothing
definite was, none of its units is reserved. -/
structure Fits (b : Prop) (site : Site) (t : Target) (key : CalibrationKey) (units : List String)
    (w : World) (g : Notes) : Prop where
  begun : g.phase ≠ .fresh
  kept : Kept b site g w
  known : b → ∀ B, g.last t.id = some B →
    key = keyOf site.config t.id B ∧ ∀ u ∈ units, u ∈ B.units
  free : b → g.last t.id = none → ∀ u ∈ units, w.reserved t.id u = false

theorem fits_noted {key : CalibrationKey} {units : List String} (i : Env)
    (hold : w.target t.id = some t) (hnone : t.pending = none)
    (hA : Asked b (.evaluate t.id) g i w) (h : Fits b site t key units w g) :
    Fits b site t key units w (note (.evaluate t.id) g i w) := by
  by_cases hclosed : g.phase = .closed
  · rwa [note_closed _ hclosed]
  have hreading : g.phase = .reading := by
    cases hp : g.phase with
    | fresh => exact absurd hp h.begun
    | reading => rfl
    | closed => exact absurd hp hclosed
  have hk := kept_noted _ i h.kept hA
  rw [note_reading hold hnone hclosed] at hk ⊢
  refine ⟨(fun hf => nomatch hf),hk,fun hb B hB => ?_,fun hb hn => ?_⟩
  · rcases read_cases hold hnone hreading (hA hb) with ⟨hsame,-⟩ | ⟨hlost,-⟩
    · exact h.known hb B (hsame.symm.trans hB)
    · cases hlost.symm.trans hB
  · rcases read_cases hold hnone hreading (hA hb) with ⟨hsame,hB⟩ | ⟨-,hfree⟩
    · cases (hsame.symm.trans hn).symm.trans hB
    · cases hl : g.last t.id with
      | none => exact h.free hb hl
      | some B =>
        intro u hu
        apply hfree u
        apply List.mem_append_right
        simp only [Notes.named, hreading, hl]
        exact (h.known hb B hl).2 u hu

/-- How far the gathering of a target's outcomes has come. -/
structure Seen (b : Prop) (site : Site) (t : Target) (acc : Gathered) (rest : List String)
    (w : World) (g : Notes) : Prop where
  reading : g.phase = .reading
  kept : Kept b site g w
  listed : ∀ o ∈ rest, o ∈ t.refilled.outcomes
  known : b → ∀ B, g.last t.id = some B → ∃ seen todo, B.sights = seen++todo ∧
    todo.map Sight.outcome = rest ∧ acc = gatheredOf seen
  free : b → g.last t.id = none → ∀ s ∈ acc.samples, w.reserved t.id s.independentUnit = false
  unconsumed : ∀ s ∈ acc.samples, w.consumed s.independentUnit = false

section Gathering
variable {acc : Gathered} {rest : List String} (i : Env) (hold : w.target t.id = some t)
  (hnone : t.pending = none) (hA : Asked b (.evaluate t.id) g i w)
include hold hnone hA

theorem seen_free (h : Seen b site t acc rest w g) (hb : b)
    (hn : (note (.evaluate t.id) g i w).last t.id = none) :
    (∀ s ∈ acc.samples, w.reserved t.id s.independentUnit = false) ∧
      ∀ u ∈ (basisOf i w t).units, w.reserved t.id u = false := by
  have hopen : g.phase ≠ .closed := by simp [h.reading]
  rw [note_reading hold hnone hopen] at hn
  rcases read_cases hold hnone h.reading (hA hb) with ⟨hsame,hB⟩ | ⟨-,hfree⟩
  · cases (hsame.symm.trans hn).symm.trans hB
  refine ⟨fun s hs => ?_,fun u hu => hfree u (List.mem_append_left _ hu)⟩
  cases hl : g.last t.id with
  | none => exact h.free hb hl s hs
  | some B =>
    obtain ⟨seen,todo,hB,-,hacc⟩ := h.known hb B hl
    apply hfree
    apply List.mem_append_right
    simp only [Notes.named, h.reading, hl]
    show _ ∈ B.sights.filterMap Sight.unit
    rw [hB, List.filterMap_append]
    exact List.mem_append_left _ (gathered_units seen s (hacc ▸ hs))

theorem seen_last (h : Seen b site t acc rest w g) (hb : b) (B : Basis)
    (hB : (note (.evaluate t.id) g i w).last t.id = some B) :
    g.last t.id = some B ∧ B = basisOf i w t := by
  have hopen : g.phase ≠ .closed := by simp [h.reading]
  rw [note_reading hold hnone hopen] at hB
  rcases read_cases hold hnone h.reading (hA hb) with ⟨hsame,hl⟩ | ⟨hlost,-⟩
  · have hl' := hsame.symm.trans hB
    cases hl.symm.trans hl'
    exact ⟨hl,rfl⟩
  · cases hlost.symm.trans hB

theorem seen_noted (h : Seen b site t acc rest w g) :
    Seen b site t acc rest w (note (.evaluate t.id) g i w) where
  reading := by
    rw [note_reading hold hnone (by simp [h.reading])]
    rfl
  kept := kept_noted _ i h.kept hA
  listed := h.listed
  known hb B hB := h.known hb B (seen_last i hold hnone hA h hb B hB).1
  free hb hn := (seen_free i hold hnone hA h hb hn).1
  unconsumed := h.unconsumed

theorem seen_taken {o : String} (h : Seen b site t acc (o::rest) w g) :
    Seen b site t (acc.see (sightOf i w o)) rest w (note (.evaluate t.id) g i w) where
  reading := (seen_noted i hold hnone hA h).reading
  kept := kept_noted _ i h.kept hA
  listed x hx := h.listed x (List.mem_cons_of_mem o hx)
  known hb B hB := by
    obtain ⟨hl,hBi⟩ := seen_last i hold hnone hA h hb B hB
    obtain ⟨seen,todo,hsights,htodo,hacc⟩ := h.known hb B hl
    obtain ⟨x,todo,rfl,hx,htodo⟩ := List.map_eq_cons_iff.mp htodo
    have hm : x ∈ t.refilled.outcomes.map (sightOf i w) := by
      have hm : x ∈ B.sights := by simp [hsights]
      rwa [hBi] at hm
    obtain ⟨o',-,hx'⟩ := List.mem_map.mp hm
    have ho : o' = o := by
      rw [← hx, ← hx']
      rfl
    refine ⟨seen++[x],todo,by simp [hsights],htodo,?_⟩
    rw [gatheredOf, List.foldl_append, ← gatheredOf, hacc, ← hx', ho]
    rfl
  free hb hn s hs := by
    obtain ⟨hacc,hB⟩ := seen_free i hold hnone hA h hb hn
    rcases see_samples acc _ s hs with hs | ⟨hx,hr,-⟩
    · exact hacc s hs
    · apply hB
      apply List.mem_filterMap.mpr
      refine ⟨sightOf i w o,?_,sight_unit _ s hx hr⟩
      exact List.mem_map.mpr ⟨o,h.listed o List.mem_cons_self,rfl⟩
  unconsumed s hs := by
    rcases see_samples acc _ s hs with hs | ⟨hx,-,hc⟩
    · exact h.unconsumed s hs
    · have hx' : (i.trace o).toOption = some s := hx
      simpa [sightOf, hx'] using hc

end Gathering

theorem gather_keeps (f : Gathered → M α) (acc : Gathered) (rest : List String)
    (hold : w.target t.id = some t) (hnone : t.pending = none)
    (h : Seen b site t acc rest w g)
    (hf : ∀ acc g, Seen b site t acc [] w g → Notes.Keeps b site t.id (f acc) g w) :
    Notes.Keeps b site t.id (gather rest acc >>= f) g w := by
  induction rest generalizing acc g with
  | nil => exact hf acc g h
  | cons o rest ih =>
    rw [gather, Foundation.Resumption.bind_assoc]
    apply safe_noting_bind
    apply safe_noting_attempt
    apply safe_noting_query
    · intro i hA
      exact kept_noted _ i h.kept hA
    · intro i sample hA htrace
      have hs := seen_taken i hold hnone hA h
      have hsee : (sightOf i w o).sample = some sample := by
        simp only [sightOf, htrace]
        rfl
      simp only [Gathered.see, hsee] at hs
      cases hr : sample.reason with
      | some reason =>
        simp only [hr] at hs ⊢
        exact ih _ hs
      | none =>
        simp only [hr] at hs ⊢
        rw [Foundation.Resumption.bind_assoc]
        apply noting_read (.unit sample.independentUnit) _ hs.kept
        intro j hA'
        have hs' := seen_noted j hold hnone hA' hs
        have hc : (sightOf i w o).consumed =
            ((w.unit sample.independentUnit).any fun u => u.receipt.isSome) := by
          simp only [sightOf, htrace]
          rfl
        rw [hc, ← show _ = _ from take_seen _ _ _ _] at hs'
        exact ih _ hs'
    · intro i e hA htrace
      have hs := seen_taken i hold hnone hA h
      have hsee : (sightOf i w o).sample = none := by
        simp only [sightOf, htrace]
        rfl
      simp only [Gathered.see, hsee] at hs
      exact ih _ hs

variable {key : CalibrationKey} {units : List String}

/-- What only looks at the journal keeps the intent under way in step with the notes. -/
theorem fits_look {β : Type} (p : M β) (f : β → M α) {Q : β → Prop} (hold : w.target t.id = some t)
    (hnone : t.pending = none) (h : Fits b site t key units w g)
    (hp : Safe (fun _ s => s = w) (fun a s => s = w ∧ Q a) (fun _ s => s = w) p w)
    (hf : ∀ a g, Q a → Fits b site t key units w g → Notes.Keeps b site t.id (f a) g w) :
    Notes.Keeps b site t.id (p >>= f) g w := by
  apply safe_noting_bind
  refine safe_noting_of_safe (Fits b site t key units w) (· = w) p g w hp h rfl ?_ ?_ ?_ ?_
  · intro g i s hs hA hg
    subst hs
    exact fits_noted i hold hnone hA hg
  · intro g s hg hs
    subst hs
    exact hg.kept
  · rintro a g s hg ⟨rfl,ha⟩
    exact hf a g ha hg
  · intro _ g s hg hs
    subst hs
    exact hg.kept

theorem commit_noted {id : String} (target : Target) (p : Pending) (hid : target.id = id)
    (h : Working (readings b site.config g) target p w) :
    Notes.Keeps b site id (commit target p) g w := by
  subst hid
  have hshut : ∀ i, (note (.evaluate target.id) g i w).phase = .closed ∧
      (note (.evaluate target.id) g i w).last = g.last := by
    intro i
    rw [note]
    split
    · next hc => exact ⟨hc,rfl⟩
    · rw [h.stored]
      simp [h.pending]
  apply safe_noting_first
  · intro i _
    have hc := (hshut i).1
    exact ⟨fun _ hn => absurd hc hn,note_closed _ hc⟩
  · intro g hk
    exact ⟨fun _ => hk,fun _ => hk⟩
  · exact h.sound
  · intro i _
    obtain ⟨hc,hl⟩ := hshut i
    have hsame : Kept b site (note (.evaluate target.id) g i w) =
        Sound (readings b site.config g) := by
      unfold Kept readings
      rw [hl]
    refine safe_noting_of_safe (fun g' => g' = note (.evaluate target.id) g i w) _ _ _ w
      (commit_keeps h) rfl h.sound ?_ ?_ ?_ ?_
    · intro g' j s _ _ hg
      rw [hg]
      exact note_closed _ hc
    · intro g' s hg hs
      rw [hg, hsame]
      exact hs
    · intro _ g' s hg hs
      rw [hg, hsame]
      exact hs
    · intro _ g' s hg hs
      rw [hg, hsame]
      exact hs

theorem reusable_fits (p : Pending) (hb : b) (h : Fits b site t p.key units w g)
    (hok : PendingOk t.id p) (hs : ∀ u ∈ p.samples, u ∈ units)
    (hc : ∀ u ∈ units, w.consumed u = false) : Reusable w p := by
  intro u hu claim hclaim ht
  obtain ⟨hr,hheld⟩ := consumed_or_reserved u claim hclaim (hc u (hs u hu))
  have hid : claim.target = t.id := ht.trans hok.target
  rw [hid] at hheld
  cases hl : g.last t.id with
  | none =>
    rw [h.free hb hl u (hs u hu)] at hheld
    cases hheld
  | some B =>
    obtain ⟨hk,hB⟩ := h.known hb B hl
    rw [hk]
    apply (h.kept.agreed hb).reserved u claim ⟨B.units,keyOf site.config t.id B⟩ hclaim hr _
      (hB u (hs u hu))
    simp only [readings, hid, hl]
    rfl

theorem mark_noted (marked : Target) (p : Pending) (hid : marked.id = t.id)
    (hp : marked.pending = some p) (hold : w.target t.id = some t) (hnone : t.pending = none)
    (h : Fits b site t p.key units w g) (hok : PendingOk t.id p) (hr : w.result p.key = none)
    (hs : ∀ u ∈ p.samples, u ∈ units) (hc : ∀ u ∈ units, w.consumed u = false) :
    Notes.Keeps b site t.id (do
      confirmedSave (.target t.id) marked
      commit marked p) g w := by
  have hstored : ∀ g, Fits b site t p.key units w g →
      Sound (readings b site.config g) (written w (.target t.id) marked) := by
    intro g hg
    apply sound_target_intent t.id marked t p hg.kept hold hnone hid hp hok hr
    · intro hb
      exact reusable_fits p hb hg hok hs hc
    · intro hb l hl
      obtain ⟨B,hB,rfl⟩ := Option.map_eq_some_iff.mp hl
      exact (hg.known hb B hB).1
  have hat : (written w (.target t.id) marked).target t.id = some marked := by
    rw [target_written, Function.update_self]
  have hclosed : ∀ g i, Fits b site t p.key units w g → Fits b site t p.key units w
      (note (.evaluate t.id) g i (written w (.target t.id) marked)) := by
    intro g i hg
    rw [note]
    split
    · exact hg
    · rw [hat]
      simp only [hp, Option.isSome_some, if_true]
      exact ⟨(by rintro ⟨⟩),hg.kept,hg.known,hg.free⟩
  have hsave : Safe (fun _ s => s = w ∨ s = written w (.target t.id) marked)
      (fun _ s => s = written w (.target t.id) marked)
      (fun _ s => s = w ∨ s = written w (.target t.id) marked)
      (confirmedSave (.target t.id) marked : M Unit) w := by
    refine safe_confirmed_save _ _ w (Or.inr rfl) rfl ?_ (fun _ => Or.inl rfl) fun _ => Or.inr rfl
    intro hv
    have hcontra : w.target t.id = some marked := hv
    cases hold.symm.trans hcontra
    cases hnone.symm.trans hp
  apply safe_noting_bind
  refine safe_noting_of_safe (Fits b site t p.key units w)
    (fun s => s = w ∨ s = written w (.target t.id) marked) _ g w hsave h (Or.inl rfl) ?_ ?_ ?_ ?_
  · rintro g i s (rfl | rfl) hA hg
    · exact fits_noted i hold hnone hA hg
    · exact hclosed g i hg
  · rintro g s hg (rfl | rfl)
    · exact hg.kept
    · exact hstored g hg
  · rintro _ g s hg rfl
    exact commit_noted marked p hid ⟨hstored g hg,by rw [hid, hat],hp⟩
  · rintro _ g s hg (rfl | rfl)
    · exact hg.kept
    · exact hstored g hg

theorem propose_noted (target : Target) (s : Selection) (receipt : CalibrationReceipt)
    (hid : target.id = t.id) (hold : w.target t.id = some t) (hnone : t.pending = none)
    (h : Fits b site t receipt.calibrationKey (s.samples.map AttributionSample.independentUnit) w g)
    (hok : PendingOk t.id (pendingOf target s receipt))
    (hc : ∀ x ∈ s.samples, w.consumed x.independentUnit = false) :
    Notes.Keeps b site t.id (propose target s receipt) g w := by
  have hfind : Safe (fun _ v => v = w)
      (fun a v => v = w ∧ a = w.result receipt.calibrationKey) (fun _ v => v = w)
      (findResult receipt.calibrationKey) w := by
    apply safe_bind
    exact safe_read _ w ⟨rfl,rfl⟩ fun _ => rfl
  apply fits_look (findResult receipt.calibrationKey) _ hold hnone h hfind
  rintro found g rfl hg
  cases hr : w.result receipt.calibrationKey with
  | some previous => exact hg.kept
  | none =>
    apply fits_look (query fun i _ => i.prepare) _ (Q := fun _ => True) hold hnone hg
      (safe_query _ w (fun _ _ _ => ⟨rfl,trivial⟩) fun _ _ _ => rfl)
    intro _ g _ hg
    show Notes.Keeps b site t.id (intend target (pendingOf target s receipt)) g w
    rw [intend, hid]
    apply mark_noted (t := t) { target with id := t.id, pending := some (pendingOf target s receipt) }
      (pendingOf target s receipt) rfl rfl hold hnone hg hok hr
    · intro u hu
      simp only [pendingOf] at hu
      split at hu
      · exact hu
      · cases hu
    · intro u hu
      obtain ⟨x,hx,rfl⟩ := List.mem_map.mp hu
      exact hc x hx

theorem selected_gathered (c : UtilityConfig) (row : Option TargetRow) (acc : Gathered)
    (s : AttributionSample) (h : s ∈ (select c row acc).samples) : s ∈ acc.samples :=
  List.mem_of_mem_filter (List.mem_of_mem_take h)

theorem pending_ok (site : Site) (target : Target) (s : Selection) (e : Option Estimate)
    (reason : Option String) :
    PendingOk target.id (pendingOf target s (receiptOf site target s e reason)) :=
  ⟨rfl,rfl,rfl⟩

theorem revision_silent (row : Option TargetRow) : Silent (revisionOk row) :=
  silent_ite _ _ _ (silent_query _) trivial

theorem recalibrate_noted (target : Target) (hid : target.id = t.id)
    (hold : w.target t.id = some t) (hnone : t.pending = none)
    (h : Seen b site t ⟨[],[],[],[]⟩ target.outcomes w g) :
    Notes.Keeps b site t.id (recalibrate site target) g w := by
  apply gather_keeps _ _ _ hold hnone h
  intro acc g hg
  apply safe_noting_bind
  apply safe_noting_query
  · intro i hA
    exact kept_noted _ i hg.kept hA
  · intro i row hA hrow
    have hrow : i.row target.id = row := Except.ok.inj hrow
    have hs := seen_noted i hold hnone hA hg
    have hfit : Fits b site t (calibrationKey site.config target.id (select site.config row acc))
        ((select site.config row acc).samples.map AttributionSample.independentUnit) w
        (note (.evaluate t.id) g i w) := by
      refine ⟨by simp [hs.reading],hs.kept,fun hb B hB => ?_,fun hb hn u hu => ?_⟩
      · obtain ⟨hl,hBi⟩ := seen_last i hold hnone hA hg hb B hB
        obtain ⟨seen,todo,hsights,htodo,hacc⟩ := hg.known hb B hl
        rw [List.map_eq_nil_iff.mp htodo, List.append_nil] at hsights
        have hcontent : B.content = contentOf row := by
          rw [hBi, basisOf, ← hid, hrow]
        constructor
        · rw [keyOf, hcontent, hsights, ← hacc, key_of_content, hid]
        · intro u hu
          obtain ⟨x,hx,rfl⟩ := List.mem_map.mp hu
          rw [Basis.units, hsights]
          exact gathered_units seen x (hacc ▸ selected_gathered _ _ _ _ hx)
      · obtain ⟨x,hx,rfl⟩ := List.mem_map.mp hu
        exact hs.free hb hn x (selected_gathered _ _ _ _ hx)
    have hc : ∀ x ∈ (select site.config row acc).samples,
        w.consumed x.independentUnit = false := fun x hx =>
      hs.unconsumed x (selected_gathered _ _ _ _ hx)
    apply fits_look (lift _) _ (Q := fun _ => True) hold hnone hfit
      (safe_silent _ w (silent_lift _) (fun _ => ⟨rfl,trivial⟩) fun _ => rfl)
    intro e g _ hg
    apply fits_look (revisionOk row) _ (Q := fun _ => True) hold hnone hg
      (safe_silent _ w (revision_silent row) (fun _ => ⟨rfl,trivial⟩) fun _ => rfl)
    intro current g _ hg
    cases replays (select site.config row acc) target with
    | some applied => exact hg.kept
    | none =>
      apply propose_noted target _ _ hid hold hnone hg _ hc
      rw [← hid]
      exact pending_ok site target _ _ _
  · intro i _ hA _
    exact kept_noted _ i hg.kept hA

theorem refilled_id (target : Target) : target.refilled.id = target.id := by
  rw [Target.refilled.eq_def]
  split <;> rfl

theorem evaluate_idle_noted (hold : w.target t.id = some t) (hnone : t.pending = none)
    (hreading : g.phase = .reading) (h : Kept b site g w)
    (hstart : b → ∀ B, g.last t.id = some B →
      B.sights.map Sight.outcome = t.refilled.outcomes) :
    Notes.Keeps b site t.id (evaluateIdle site t) g w := by
  have hre : Notes.Keeps b site t.id (recalibrate site t.refilled) g w := by
    apply recalibrate_noted t.refilled (refilled_id t) hold hnone
    refine ⟨hreading,h,fun _ ho => ho,fun hb B hB => ⟨[],B.sights,rfl,hstart hb B hB,rfl⟩,?_,?_⟩
    · intro _ _ s hs
      cases hs
    · intro s hs
      cases hs
  rw [evaluateIdle.eq_def]
  split
  · exact h
  · exact hre

theorem evaluate_inner_noted (id : String) (h : Kept b site g w)
    (hp : g.phase = .closed → (w.pendingAt id).isSome) :
    Notes.Keeps b site id (evaluateInner site id) g w := by
  rw [evaluateInner, readTarget, Foundation.Resumption.bind_assoc]
  apply noting_read (.target id) _ h
  intro i hA
  have hk := kept_noted _ i h hA
  show Notes.Keeps b site id (lift (need (w.target id) _) >>= _) _ w
  cases hf : w.target id with
  | none => exact hk
  | some t =>
    have hid : t.id = id := h.charged.ids id t hf
    subst hid
    have hgo : ∀ (e : String) (k : Target → M UtilityResult),
        lift (need (some t) e) >>= k = k t := fun _ _ => rfl
    rw [hgo]
    cases hpend : t.pending with
    | some p => exact commit_noted t p rfl ⟨hk,hf,hpend⟩
    | none =>
      have hopen : g.phase ≠ .closed := by
        intro hc
        have hsome := hp hc
        rw [World.pendingAt, hf] at hsome
        simp [hpend] at hsome
      have hnote := note_reading (i := i) hf hpend hopen
      apply evaluate_idle_noted hf hpend _ hk
      · intro _ B hB
        rw [hnote, read_self] at hB
        split at hB
        · cases hB
          simp [basisOf, sightOf, Function.comp_def]
        · cases hB
      · rw [hnote]
        rfl

theorem evaluate_noted (id : String) (h : Kept b site g w) (hg : g.phase = .fresh) :
    Notes.Keeps b site id (evaluate site id) g w := by
  have hfree : Sound Readings.free w := ⟨h.charged,h.listed,False.elim⟩
  have hreg := safe_and _ w (register_keeps site hfree) (register_stays site h.charged)
  have hk : ∀ g v, (b → Agreed (readings b site.config g).last w) → Sound Readings.free v →
      Still w v → Kept b site g v := by
    intro g v hg hv hs
    exact ⟨hv.charged,hv.listed,fun hb => agreed_framed (hg hb) hs.1 hs.2⟩
  apply safe_noting_bind
  refine safe_noting_of_safe
    (fun g => (b → Agreed (readings b site.config g).last w) ∧
      (g.phase = .closed → (w.pendingAt id).isSome))
    (fun v => Sound Readings.free v ∧ Still w v) _ g w hreg ⟨h.agreed,by simp [hg]⟩
    ⟨hfree,rfl,rfl⟩ ?_ ?_ ?_ ?_
  · rintro g i v ⟨hv,hs⟩ hA ⟨hg,hp⟩
    have hn := kept_noted _ i (hk g v hg hv hs) hA
    constructor
    · intro hb
      exact agreed_framed (hn.agreed hb) hs.1.symm hs.2.symm
    · intro hc
      rw [note] at hc
      split at hc
      · exact hp hc
      · cases hf : v.target id with
        | none =>
          simp only [hf] at hc
          exact hp hc
        | some t =>
          simp only [hf] at hc
          rw [← hs.1, World.pendingAt, hf]
          split at hc
          · next hsome => exact hsome
          · cases hc
  · rintro g v ⟨hg,-⟩ ⟨hv,hs⟩
    exact hk g v hg hv hs
  · rintro _ g v ⟨hg,hp⟩ ⟨⟨hv,-⟩,hs⟩
    apply evaluate_inner_noted id (hk g v hg hv hs)
    rw [hs.1]
    exact hp
  · rintro _ g v ⟨hg,-⟩ ⟨hv,hs⟩
    exact hk g v hg hv hs

end Evaluation

end AndaBrain.Utility
