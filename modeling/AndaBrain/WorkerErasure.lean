import AndaBrain.WorkerFence
import Mathlib.Data.List.TakeWhile

/-!
# What a completed forget has erased

A forget that ends as completed has erased every Evidence and every owned Concept its source
intakes record, and every claim that cites one of these Evidence.
-/

set_option autoImplicit false

namespace AndaBrain.WorkerMemory
open Foundation Foundation.SortBy Product
open Foundation.Resumption (except_bind_ok)

def Nexus.Indexed (nexus : Nexus) : Prop :=
  ∀ id row, nexus.load id = some row → id.kind = .assertion → row.state ≠ .purged →
    id ∈ nexus.referrers row.propositionId ∧
    ∀ evidence ∈ row.evidenceRefs, id ∈ nexus.referrers evidence

structure Nexus.Keeps (nexus next : Nexus) : Prop where
  rows : ∀ id row, nexus.load id = some row → ∃ after, next.load id = some after ∧
    (row.state = .purged → after.state = .purged) ∧
    (after.state ≠ .purged →
      after.className = row.className ∧ row.evidenceRefs ⊆ after.evidenceRefs)
  indexed : nexus.Indexed → next.Indexed

variable {m : Managed} (nexus : Nexus) (product : ProductStore)

theorem Nexus.Keeps.refl : nexus.Keeps nexus :=
  ⟨fun _ row h => ⟨row,h,id,fun _ => ⟨rfl,List.Subset.refl _⟩⟩,id⟩

theorem Nexus.Keeps.trans {a b c : Nexus} (hab : a.Keeps b) (hbc : b.Keeps c) : a.Keeps c where
  rows := by
    intro id row h
    obtain ⟨mid,hm,hmp,hmk⟩ := hab.rows id row h
    obtain ⟨last,hl,hlp,hlk⟩ := hbc.rows id mid hm
    refine ⟨last,hl,fun hp => hlp (hmp hp),fun hp => ?_⟩
    have hmid := hmk fun h => hp (hlp h)
    exact ⟨(hlk hp).1.trans hmid.1,List.Subset.trans hmid.2 (hlk hp).2⟩
  indexed := fun h => hbc.indexed (hab.indexed h)

theorem Nexus.Keeps.purged {nexus next : Nexus} (h : nexus.Keeps next) {id : ElementId}
    (hp : isPurged nexus id = true) : isPurged next id = true := by
  obtain ⟨row,hr,hs⟩ := (is_purged_iff nexus id).mp hp
  obtain ⟨after,ha,hap,-⟩ := h.rows id row hr
  exact (is_purged_iff next id).mpr ⟨after,ha,hap hs⟩

theorem Nexus.Keeps.loaded {nexus next : Nexus} (h : nexus.Keeps next) {id : ElementId}
    (hl : (nexus.load id).isSome) : (next.load id).isSome := by
  obtain ⟨row,hr⟩ := Option.isSome_iff_exists.mp hl
  obtain ⟨after,ha,-⟩ := h.rows id row hr
  simp [ha]

/-- What the engine documents of its erasures: the store keeps its rows and its index, and a
cascading PURGE that it carries out purges the element it names. -/
structure Engine.Erases (engine : Engine) : Prop where
  purge : ∀ (nexus : Nexus) request, nexus.Keeps (engine.purge nexus request).1
  dryRun : ∀ (nexus : Nexus) requests, nexus.Keeps (engine.dryRun nexus requests).1
  cascade : ∀ nexus id outcome, (engine.purge nexus (cascade id)).2 = .ok outcome →
    isPurged (engine.purge nexus (cascade id)).1 id = true

structure Settled (m : Managed) : Prop where
  named : ∀ key change, m.product.changes key = some change → change.delete = true →
    ∃ target ∈ change.preview.targets, target.id = change.record
  erased : ∀ key change, m.product.changes key = some change → change.delete = true →
    change.state = .confirmed →
    ∀ target ∈ change.preview.targets, isPurged m.nexus target.id = true

structure SameErasure (change next : StoredChange) : Prop where
  delete : next.delete = change.delete
  record : next.record = change.record
  targets : next.preview.targets = change.preview.targets
  confirmed : next.state = .confirmed → change.state = .confirmed

theorem SameErasure.refl (change : StoredChange) : SameErasure change change := ⟨rfl,rfl,rfl,id⟩

theorem SameErasure.trans {a b c : StoredChange} (hab : SameErasure a b) (hbc : SameErasure b c) :
    SameErasure a c :=
  ⟨hbc.delete.trans hab.delete,hbc.record.trans hab.record,hbc.targets.trans hab.targets,
    fun h => hab.confirmed (hbc.confirmed h)⟩

theorem expire_erasure (now : ℕ) (key : String) (change : StoredChange) :
    SameErasure change (expire product now key change) := by
  unfold expire
  split
  · exact ⟨rfl,rfl,rfl,nofun⟩
  · exact SameErasure.refl change

theorem scrub_one_erasure (now : ℕ) (ids : List ElementId) (key : String)
    (change : StoredChange) : SameErasure change (scrubOne product now ids key change) := by
  have hexpired := expire_erasure product now key change
  unfold scrubOne
  generalize expire product now key change = related at hexpired
  simp only
  split
  · exact hexpired
  refine hexpired.trans ?_
  by_cases hprepared : related.state = .prepared <;> simp only [hprepared, if_true, if_false] <;>
    split
  all_goals first
    | exact ⟨rfl,rfl,rfl,id⟩
    | exact ⟨rfl,rfl,rfl,fun h => by simp [clearContent, clearRecord] at h⟩

theorem scrub_changes_erasure (now : ℕ) (erased : List ElementId)
    (but : Option String) (key : String) (found : StoredChange)
    (h : (scrubChanges product now erased but).changes key = some found) :
    ∃ old, product.changes key = some old ∧ SameErasure old found := by
  simp only [scrubChanges, Option.map_eq_some_iff] at h
  obtain ⟨old,hold,hfound⟩ := h
  refine ⟨old,hold,?_⟩
  rw [← hfound]
  split
  · exact SameErasure.refl old
  · exact scrub_one_erasure product now _ key old

/-- Stored changes that were there before, but for those that are settled themselves. -/
theorem settled_of_changes {m next : Managed} (hs : Settled m) (hk : m.nexus.Keeps next.nexus)
    (h : ∀ key change, next.product.changes key = some change → change.delete = true →
      (∃ old, m.product.changes key = some old ∧ SameErasure old change) ∨
      ((∃ target ∈ change.preview.targets, target.id = change.record) ∧ (change.state = .confirmed →
          ∀ target ∈ change.preview.targets, isPurged next.nexus target.id = true))) :
    Settled next where
  named := by
    intro key change hc hd
    rcases h key change hc hd with ⟨old,hold,hsame⟩ | ⟨hnamed,-⟩
    · rw [hsame.targets, hsame.record]
      exact hs.named key old hold (hsame.delete ▸ hd)
    · exact hnamed
  erased := by
    intro key change hc hd hstate target ht
    rcases h key change hc hd with ⟨old,hold,hsame⟩ | ⟨-,herased⟩
    · rw [hsame.targets] at ht
      exact hk.purged
        (hs.erased key old hold (hsame.delete ▸ hd) (hsame.confirmed hstate) target ht)
    · exact herased hstate target ht

theorem journal_settled (hs : Settled m) (product : ProductStore)
    (h : ∀ key change, product.changes key = some change → change.delete = true →
      ∃ old, m.product.changes key = some old ∧ SameErasure old change) :
    Settled { m with product } :=
  settled_of_changes hs (Nexus.Keeps.refl _) fun key change hc hd => .inl (h key change hc hd)

theorem nexus_settled (hs : Settled m) (nexus : Nexus) (hk : m.nexus.Keeps nexus) :
    Settled { m with nexus } :=
  settled_of_changes hs hk fun _ change hc _ => .inl ⟨change,hc,SameErasure.refl change⟩

theorem suppress_settled (hs : Settled m) (keys : Finset String) :
    Settled (suppressSources m keys) :=
  journal_settled hs _ fun _ change hc _ => ⟨change,hc,SameErasure.refl change⟩

theorem put_settled (hs : Settled m) (key : String) (stored change : StoredChange)
    (hstored : m.product.changes key = some stored) (hsame : SameErasure stored change) :
    Settled { m with product := putChange m.product key change } := by
  refine journal_settled hs _ fun other found hf _ => ?_
  rcases put_change_cases _ key other change found hf with ⟨rfl,rfl⟩ | ⟨-,hold⟩
  · exact ⟨stored,hstored,hsame⟩
  · exact ⟨found,hold,SameErasure.refl found⟩

theorem show_change_settled (hs : Settled m) (now : ℕ) (key : String)
    (product : ProductStore) (change : StoredChange)
    (h : showChange m.nexus m.product now key = .ok (product,change)) :
    Settled { m with product } ∧ product.changes key = some change ∧
      ∃ stored, m.product.changes key = some stored ∧ SameErasure stored change := by
  obtain ⟨stored,hc,rfl,rfl⟩ := show_change_ok h
  have hsame := expire_erasure m.product now key stored
  exact ⟨put_settled hs key stored _ hc hsame,by simp [putChange],stored,hc,hsame⟩

theorem closure_complete (room : ℕ)
    (seen pending : List ElementId) (found result : List Target) (sources excluded : Finset String)
    (hseen : ∀ id ∈ seen, isPurged nexus id = true ∨ ∃ target ∈ found, target.id = id)
    (h : closure nexus product room seen found sources pending = .ok (result,excluded)) :
    (∀ target ∈ found, target ∈ result) ∧
    ∀ id ∈ pending, isPurged nexus id = true ∨ ∃ target ∈ result, target.id = id := by
  have hended : pending.dropWhile (fun id => decide (id ∈ seen)) = [] →
      ∀ id ∈ pending, isPurged nexus id = true ∨ ∃ target ∈ found, target.id = id :=
    fun hdrop id hid => hseen id (by simpa using List.dropWhile_eq_nil_iff.mp hdrop id hid)
  induction room generalizing seen pending found sources with
  | zero =>
    obtain ⟨hdrop,h⟩ | ⟨_,_,_,_,-,hroom,-⟩ := closure_cases h
    · cases h
      exact ⟨fun _ ht => ht,hended hdrop⟩
    · cases hroom
  | succ room ih =>
    obtain ⟨hdrop,h⟩ | ⟨id,rest,left,row,hdrop,hroom,hload,h⟩ := closure_cases h
    · cases h
      exact ⟨fun _ ht => ht,hended hdrop⟩
    obtain rfl : room = left := Nat.succ.inj hroom
    -- what the closure goes on with has seen one element more
    have hgo : ∀ (stack : List ElementId) (more : List Target) (keys : Finset String),
        (∀ target ∈ found, target ∈ more) → (∀ x ∈ rest, x ∈ stack) →
        (isPurged nexus id = true ∨ ∃ target ∈ more, target.id = id) →
        closure nexus product room (id::seen) more keys stack = .ok (result,excluded) →
        (∀ target ∈ found, target ∈ result) ∧
        ∀ x ∈ pending, isPurged nexus x = true ∨ ∃ target ∈ result, target.id = x := by
      intro stack more keys hmore hstack hid hclosure
      have hmet : ∀ x ∈ id::seen, isPurged nexus x = true ∨ ∃ target ∈ more, target.id = x := by
        intro x hx
        rcases List.mem_cons.mp hx with rfl | hx
        · exact hid
        · exact (hseen x hx).imp_right fun ⟨target,ht,hx⟩ => ⟨target,hmore target ht,hx⟩
      obtain ⟨hkept,hreached⟩ := ih _ _ _ _ hmet hclosure
        fun hdrop x hx => hmet x (by simpa using List.dropWhile_eq_nil_iff.mp hdrop x hx)
      refine ⟨fun target ht => hkept target (hmore target ht),fun x hx => ?_⟩
      have hsplit := List.takeWhile_append_dropWhile (p := fun id => decide (id ∈ seen))
        (l := pending)
      rw [← hsplit, hdrop] at hx
      rcases List.mem_append.mp hx with htake | hx
      · have hx : x ∈ seen := by simpa using List.mem_takeWhile_imp htake
        exact (hmet x (List.mem_cons_of_mem _ hx)).imp_right fun ⟨target,ht,hx⟩ =>
          ⟨target,hkept target ht,hx⟩
      · rcases List.mem_cons.mp hx with rfl | hx
        · exact hid.imp_right fun ⟨target,ht,hx⟩ => ⟨target,hkept target ht,hx⟩
        · exact hreached x (hstack x hx)
    obtain ⟨hpurged,h⟩ | ⟨keys,inputs,-,h⟩ := h
    · exact hgo rest found sources (fun _ ht => ht) (fun _ hx => hx)
        (.inl ((is_purged_iff nexus id).mpr ⟨row,hload,hpurged⟩)) h
    · exact hgo _ _ _ (fun _ ht => List.mem_cons_of_mem _ ht)
        (fun x hx => List.mem_append_right _ hx) (.inr ⟨_,List.mem_cons_self,rfl⟩) h

/-- A closure that starts from one Proposition reaches everything that cites it. -/
theorem closure_referrers (room : ℕ) (root : ElementId)
    (result : List Target) (sources excluded : Finset String) (hroot : isPurged nexus root = false)
    (h : closure nexus product room [] [] sources [root] = .ok (result,excluded)) : ∀ id ∈
    nexus.referrers root, isPurged nexus id = true ∨ ∃ target ∈ result, target.id = id := by
  obtain ⟨hdrop,-⟩ | ⟨id,rest,left,row,hdrop,-,hload,h⟩ := closure_cases h
  · simp at hdrop
  obtain ⟨rfl,rfl⟩ : root = id ∧ rest = [] := by simpa [eq_comm] using hdrop
  obtain ⟨hpurged,-⟩ | ⟨keys,inputs,-,h⟩ := h
  · rw [(is_purged_iff nexus root).mpr ⟨row,hload,hpurged⟩] at hroot
    cases hroot
  intro id hid
  refine (closure_complete nexus product left [root] _ _ result _ excluded ?_ h).2 id (by simp [hid])
  simp

/-- The claim an owner reads is an unpurged Assertion on a Proposition that is not purged. -/
theorem read_record_spec (id : ElementId)
    (memory : MemoryRecord) (h : readRecord nexus product id = .ok memory) : ∃ row, nexus.load id =
    some row ∧ id.kind = .assertion ∧ row.state ≠ .purged ∧ memory.propositionId = row.propositionId
    ∧ isPurged nexus row.propositionId = false := by
  obtain ⟨row,hread,h⟩ := except_bind_ok _ _ _ h
  split at h
  · cases h
  rename_i hclaim
  push Not at hclaim
  obtain ⟨proposition,hproposition,h⟩ := except_bind_ok _ _ _ h
  split at h
  · cases h
  rename_i hlive
  push Not at hlive
  obtain ⟨_,-,h⟩ := except_bind_ok _ _ _ h
  obtain ⟨_,-,h⟩ := except_bind_ok _ _ _ h
  obtain ⟨_,-,h⟩ := except_bind_ok _ _ _ h
  cases h
  exact ⟨row,read_element_load hread,hclaim.1,hclaim.2,rfl,
    by simp [isPurged, read_element_load hproposition, hlive.2]⟩

theorem preview_named (m : Managed) (hindexed : m.nexus.Indexed) (record : ElementId) (revision : ℕ)
    (preview : ChangePreview) (h : previewDelete m.nexus m.product record revision = .ok preview) :
    ∃ target ∈ preview.targets, target.id = record := by
  obtain ⟨memory,found,keys,hread,hclosure,htargets⟩ := preview_delete_ok h
  obtain ⟨row,hrow,hkind,hlive,hproposition,hroot⟩ := read_record_spec _ _ _ _ hread
  rw [hproposition] at hclosure
  have hcites := (hindexed record row hrow hkind hlive).1
  rcases closure_referrers m.nexus m.product 128 row.propositionId found _ _ hroot hclosure
    record hcites with hpurged | ⟨target,ht,hid⟩
  · simp [isPurged, hrow, hlive] at hpurged
  · rw [htargets]
    exact ⟨target,(sort_by_perm _ found).mem_iff.mpr ht,hid⟩

section
variable {engine : Engine} (digests : Digests)

theorem purge_targets_keeps (hdoc : engine.Erases) (targets : List Target) (nexus : Nexus)
    (completed : List ElementId) : nexus.Keeps (purgeTargets engine nexus completed targets).1 := by
  induction targets generalizing nexus completed with
  | nil => exact Nexus.Keeps.refl nexus
  | cons target rest ih =>
    unfold purgeTargets
    split
    · exact ih nexus completed
    split
    · exact Nexus.Keeps.refl nexus
    split
    · exact ih nexus _
    have hkeeps := hdoc.purge nexus ⟨target.id,some target.revision,.tombstoneReference⟩
    generalize engine.purge nexus ⟨target.id,some target.revision,.tombstoneReference⟩ = x
      at hkeeps
    obtain ⟨next,answer⟩ := x
    cases answer with
    | error e => exact hkeeps
    | ok outcome =>
      simp only
      split
      · exact hkeeps.trans (ih next _)
      · exact hkeeps

theorem verified_purged (nexus : Nexus) (targets : List Target) (h : verified nexus targets = true) :
    ∀ target ∈ targets, isPurged nexus target.id = true := by
  intro target ht
  have hone := List.all_eq_true.mp h target ht
  cases hread : readElement nexus target.id with
  | error e => simp [hread] at hone
  | ok row =>
    simp only [hread, decide_eq_true_eq] at hone
    exact (is_purged_iff nexus target.id).mpr ⟨row,read_element_load hread,hone⟩

/-- A deletion that is carried out is confirmed only when its targets are erased. -/
theorem apply_settled (hdoc : engine.Erases) {m : Managed} (hs : Settled m) (now : ℕ)
    (key : String) (stored : StoredChange)
    (hnamed : ∃ target ∈ stored.preview.targets, target.id = stored.record) :
    m.nexus.Keeps (apply engine m.nexus m.product now key stored).1 ∧
    Settled ⟨(apply engine m.nexus m.product now key stored).1,
      (apply engine m.nexus m.product now key stored).2.1⟩ ∧
    (apply engine m.nexus m.product now key stored).2.1.changes key =
      some (apply engine m.nexus m.product now key stored).2.2 ∧
    (apply engine m.nexus m.product now key stored).2.2.delete = stored.delete ∧
    (apply engine m.nexus m.product now key stored).2.2.record = stored.record := by
  have hkeeps := purge_targets_keeps hdoc (if stored.requests then stored.preview.targets else [])
    m.nexus stored.completed
  unfold apply
  generalize purgeTargets engine m.nexus stored.completed
    (if stored.requests then stored.preview.targets else []) = x at hkeeps
  obtain ⟨next,completed,carried⟩ := x
  simp only
  split
  · rename_i hdone
    simp only [Bool.and_eq_true] at hdone
    refine ⟨hkeeps,?_,by simp [putChange],rfl,rfl⟩
    refine settled_of_changes hs hkeeps fun other found hf _ => ?_
    rcases put_change_cases _ key other _ found hf with ⟨-,rfl⟩ | ⟨-,hold⟩
    · exact .inr ⟨hnamed,fun _ => verified_purged next _ hdone.2⟩
    · exact .inl (scrub_changes_erasure m.product now _ _ other found hold)
  · refine ⟨hkeeps,?_,by simp [putChange],rfl,rfl⟩
    refine settled_of_changes hs hkeeps fun other found hf _ => ?_
    rcases put_change_cases _ key other _ found hf with ⟨-,rfl⟩ | ⟨-,hold⟩
    · exact .inr ⟨hnamed,fun h => by simp at h⟩
    · exact .inl ⟨found,hold,SameErasure.refl found⟩

theorem prepare_settled (hdoc : engine.Erases) {m : Managed} (hs : Settled m)
    (hindexed : m.nexus.Indexed) (now : ℕ) (key : String) (record : ElementId) (revision : ℕ) :
    m.nexus.Keeps (prepareDelete digests engine m now key record revision).1.nexus ∧ Settled
    (prepareDelete digests engine m now key record revision).1 ∧ ∀ change,
    (prepareDelete digests engine m now key record revision).2 = .ok change →
    (prepareDelete digests engine m now key record revision).1.product.changes key = some change ∧
    change.delete = true ∧ change.record = record := by
  have hstay := Nexus.Keeps.refl m.nexus
  unfold prepareDelete
  split
  · exact ⟨hstay,hs,fun _ h => by cases h⟩
  cases hc : m.product.changes key with
  | some old =>
    simp only
    have hexpired := expire_erasure m.product now key old
    have hput := put_settled hs key old _ hc hexpired
    split
    · exact ⟨hstay,hput,fun _ h => by cases h⟩
    split
    · exact ⟨hstay,hput,fun _ h => by cases h⟩
    rename_i hmatch
    have hold : old.delete = true ∧ old.record = record := by
      simp only [Bool.not_eq_true', Bool.and_eq_false_iff, not_or, Bool.not_eq_false,
        decide_eq_true_eq] at hmatch
      exact ⟨hmatch.1,hmatch.2.1⟩
    have hat : (putChange m.product key (expire m.product now key old)).changes key =
        some (expire m.product now key old) := by simp [putChange]
    generalize putChange m.product key (expire m.product now key old) = product at hput hat
    cases hshow : showChange m.nexus product now key with
    | error e => exact ⟨hstay,hput,fun _ h => by cases h⟩
    | ok pair =>
      obtain ⟨shown,change⟩ := pair
      obtain ⟨hsettled,hchange,stored,hstored,hsame⟩ :=
        show_change_settled (m := { m with product }) hput now key shown change hshow
      obtain rfl := Option.some.inj (hat.symm.trans hstored)
      refine ⟨hstay,hsettled,fun found h => ?_⟩
      cases h
      exact ⟨hchange,hsame.delete.trans (hexpired.delete.trans hold.1),
        hsame.record.trans (hexpired.record.trans hold.2)⟩
  | none =>
    simp only
    split
    · exact ⟨hstay,hs,fun _ h => by cases h⟩
    cases hpreview : previewDelete m.nexus m.product record revision with
    | error e => exact ⟨hstay,hs,fun _ h => by cases h⟩
    | ok preview =>
      simp only
      have hkeeps := hdoc.dryRun m.nexus (deleteRequests preview)
      generalize engine.dryRun m.nexus (deleteRequests preview) = x at hkeeps
      obtain ⟨nexus,answer⟩ := x
      cases answer with
      | error e => exact ⟨hkeeps,nexus_settled hs nexus hkeeps,fun _ h => by cases h⟩
      | ok u =>
        simp only
        refine ⟨hkeeps,?_,fun found h => ?_⟩
        · refine settled_of_changes hs hkeeps fun other found hf _ => ?_
          rcases put_change_cases _ key other _ found hf with ⟨-,rfl⟩ | ⟨-,hold⟩
          · exact .inr ⟨preview_named m hindexed record revision preview hpreview,
              fun h => by simp at h⟩
          · exact .inl ⟨found,hold,SameErasure.refl found⟩
        · cases h
          exact ⟨by simp [putChange],rfl,rfl⟩

theorem commit_settled (hdoc : engine.Erases) {m : Managed} (hs : Settled m) (now : ℕ)
    (key digest : String)
    (hdelete : ∀ change, m.product.changes key = some change → change.delete = true) : m.nexus.Keeps
    (commitDelete digests engine m now key digest).1.nexus ∧ Settled
    (commitDelete digests engine m now key digest).1 ∧ ∀ change,
    (commitDelete digests engine m now key digest).2 = .ok change →
    (commitDelete digests engine m now key digest).1.product.changes key = some change ∧
    change.delete = true ∧ ∃ stored, m.product.changes key = some stored ∧ change.record =
    stored.record := by
  have hstay := Nexus.Keeps.refl m.nexus
  cases hshow : showChange m.nexus m.product now key with
  | error e =>
    simp only [commitDelete, hshow]
    exact ⟨hstay,hs,fun _ h => by cases h⟩
  | ok pair =>
    obtain ⟨product,change⟩ := pair
    have hend := commit_ends engine digests digest hshow
    generalize commitDelete digests engine m now key digest = result at hend
    obtain ⟨hsettled,hchange,stored,hstored,hsame⟩ :=
      show_change_settled hs now key product change hshow
    have hkind : change.delete = true := hsame.delete.trans (hdelete stored hstored)
    -- the change is carried out behind `held`, where it is stored as committing
    have hcarried : ∀ held : ProductStore, Settled ⟨m.nexus,held⟩ →
        let done := carried engine m held now key { change with state := .committing }
        m.nexus.Keeps done.1.nexus ∧ Settled done.1 ∧ ∀ found, done.2 = .ok found →
          done.1.product.changes key = some found ∧ found.delete = true ∧
          ∃ stored, m.product.changes key = some stored ∧ found.record = stored.record := by
      intro held hheld
      obtain ⟨hk,hset,hat,hd,hr⟩ := apply_settled hdoc hheld now key
        { change with state := .committing } (hsettled.named key change hchange hkind)
      refine ⟨hk,hset,fun found h => ?_⟩
      cases h
      exact ⟨hat,hd.trans hkind,stored,hstored,hr.trans hsame.record⟩
    have hcommitting : SameErasure change { change with state := .committing } :=
      ⟨rfl,rfl,rfl,fun h => by simp at h⟩
    cases hend with
    | refused e => exact ⟨hstay,hsettled,fun _ h => by cases h⟩
    | confirmed =>
      refine ⟨hstay,hsettled,fun found h => ?_⟩
      cases h
      exact ⟨hchange,hkind,stored,hstored,hsame.record⟩
    | resumed hkey => exact hcarried _ (put_settled hsettled key change _ hchange hcommitting)
    | fenced =>
      refine hcarried _ (journal_settled hsettled _ fun other found hf _ => ?_)
      rcases put_change_cases _ key other _ found hf with ⟨rfl,rfl⟩ | ⟨-,hold⟩
      · exact ⟨change,hchange,hcommitting⟩
      · exact ⟨found,hold,SameErasure.refl found⟩

theorem recover_settled (hdoc : engine.Erases) {m : Managed} (hs : Settled m) (now : ℕ)
    (hdelete : ∀ key change, m.product.pending = some key → m.product.changes key = some change →
      change.delete = true) :
    m.nexus.Keeps (recoverChange engine m now).nexus ∧ Settled (recoverChange engine m now) := by
  have hstay := Nexus.Keeps.refl m.nexus
  unfold recoverChange
  have hscrubbed : (resumeScrub m.product now).pending = m.product.pending ∧
      ∀ key change, (resumeScrub m.product now).changes key = some change →
        ∃ old, m.product.changes key = some old ∧ SameErasure old change := by
    unfold resumeScrub
    cases m.product.scrub with
    | none => exact ⟨rfl,fun key change h => ⟨change,h,SameErasure.refl change⟩⟩
    | some scrub =>
      exact ⟨rfl,fun key change h => scrub_changes_erasure m.product now _ _ key change h⟩
  generalize resumeScrub m.product now = product at hscrubbed
  obtain ⟨hpending,hchanges⟩ := hscrubbed
  have hsettled := journal_settled hs product fun key change h _ => hchanges key change h
  simp only
  split
  · exact ⟨hstay,hsettled⟩
  rename_i key hkey
  split
  · exact ⟨hstay,hsettled⟩
  rename_i stored hstored
  obtain ⟨old,hold,hsame⟩ := hchanges key stored hstored
  have hkind : stored.delete = true :=
    hsame.delete.trans (hdelete key old (hpending ▸ hkey) hold)
  obtain ⟨hk,hset,-⟩ := apply_settled hdoc hsettled now key stored
    (hsettled.named key stored hstored hkind)
  exact ⟨hk,hset⟩

/-- A claim whose deletion is answered as confirmed is erased, with all its targets. -/
theorem delete_claim_settled (hdoc : engine.Erases) {m : Managed} (hs : Settled m)
    (hindexed : m.nexus.Indexed) (now : ℕ) (operation : String) (claim : ElementId) : m.nexus.Keeps
    (deleteClaim digests engine m now operation claim).1.nexus ∧ Settled
    (deleteClaim digests engine m now operation claim).1 ∧ ∀ change,
    (deleteClaim digests engine m now operation claim).2 = .ok change → isPurged
    (deleteClaim digests engine m now operation claim).1.nexus claim = true ∧ ∀ target ∈
    change.preview.targets, isPurged (deleteClaim digests engine m now operation claim).1.nexus
    target.id = true := by
  unfold deleteClaim
  cases readRecord m.nexus m.product claim with
  | error e => exact ⟨Nexus.Keeps.refl _,hs,fun _ h => nomatch h⟩
  | ok record =>
    simp only
    obtain ⟨hprepare,hprepared,hstored⟩ := prepare_settled digests hdoc hs hindexed now
      (digests.changeKey operation) claim record.revision
    generalize prepareDelete digests engine m now (digests.changeKey operation) claim
      record.revision = x at hprepare hprepared hstored
    obtain ⟨next,answer⟩ := x
    cases answer with
    | error e => exact ⟨hprepare,hprepared,fun _ h => nomatch h⟩
    | ok prepared =>
      simp only
      obtain ⟨hat,hkind,hrecord⟩ := hstored prepared rfl
      obtain ⟨hcommit,hcommitted,hanswer⟩ := commit_settled digests hdoc hprepared now
        (digests.changeKey operation) prepared.previewDigest fun change h => by
          obtain rfl := Option.some.inj (hat.symm.trans h)
          exact hkind
      generalize commitDelete digests engine next now (digests.changeKey operation)
        prepared.previewDigest = y at hcommit hcommitted hanswer
      obtain ⟨last,answer⟩ := y
      cases answer with
      | error e => exact ⟨hprepare.trans hcommit,hcommitted,fun _ h => nomatch h⟩
      | ok confirmed =>
        simp only
        split
        · exact ⟨hprepare.trans hcommit,hcommitted,fun _ h => nomatch h⟩
        rename_i hstate
        refine ⟨hprepare.trans hcommit,hcommitted,fun change h => ?_⟩
        cases h
        obtain ⟨hchange,hdeletes,stored,hs,hsame⟩ := hanswer confirmed rfl
        obtain rfl := Option.some.inj (hat.symm.trans hs)
        have herased := hcommitted.erased _ confirmed hchange hdeletes (not_not.mp hstate)
        obtain ⟨target,ht,hid⟩ := hcommitted.named _ confirmed hchange hdeletes
        refine ⟨?_,herased⟩
        rw [← hrecord, ← hsame, ← hid]
        exact herased target ht

structure Sweep.Carries (sweep next : Sweep) : Prop where
  keeps : sweep.managed.nexus.Keeps next.managed.nexus
  settled : Settled next.managed
  erased : ∀ id ∈ next.erased, isPurged next.managed.nexus id = true
  status : next.status = .completed → sweep.status = .completed

theorem Sweep.Carries.refl (sweep : Sweep) (hs : Settled sweep.managed)
    (herased : ∀ id ∈ sweep.erased, isPurged sweep.managed.nexus id = true) :
    sweep.Carries sweep := ⟨Nexus.Keeps.refl _,hs,herased,id⟩

theorem Sweep.Carries.trans {a b c : Sweep} (hab : a.Carries b) (hbc : b.Carries c) : a.Carries c :=
  ⟨hab.keeps.trans hbc.keeps,hbc.settled,hbc.erased,fun h => hab.status (hbc.status h)⟩

theorem erase_claim_carries (hdoc : engine.Erases) (sweep : Sweep) (hs : Settled sweep.managed)
    (hindexed : sweep.managed.nexus.Indexed)
    (herased : ∀ id ∈ sweep.erased, isPurged sweep.managed.nexus id = true) (now : ℕ)
    (receiptRef : String) (claim : ElementId) :
    sweep.Carries (eraseClaim digests engine now receiptRef sweep claim).1 ∧
    ((eraseClaim digests engine now receiptRef sweep claim).2 = none →
      (eraseClaim digests engine now receiptRef sweep claim).1.status = .completed →
      isPurged (eraseClaim digests engine now receiptRef sweep claim).1.managed.nexus claim =
        true) := by
  unfold eraseClaim
  split
  · rename_i hin
    exact ⟨Sweep.Carries.refl sweep hs herased,fun _ _ => herased claim hin⟩
  obtain ⟨hkeeps,hsettled,hconfirmed⟩ := delete_claim_settled digests hdoc hs hindexed now
    (operationOf receiptRef claim) claim
  generalize deleteClaim digests engine sweep.managed now (operationOf receiptRef claim) claim = x
    at hkeeps hsettled hconfirmed
  obtain ⟨m,answer⟩ := x
  have hkept : ∀ id ∈ sweep.erased, isPurged m.nexus id = true :=
    fun id hid => hkeeps.purged (herased id hid)
  cases answer with
  | ok confirmed =>
    obtain ⟨hclaim,htargets⟩ := hconfirmed confirmed rfl
    refine ⟨⟨hkeeps,hsettled,fun id hid => ?_,id⟩,fun _ _ => hclaim⟩
    rcases List.mem_append.mp hid with hid | hid
    · exact hkept id hid
    · obtain ⟨target,ht,rfl⟩ := List.mem_map.mp hid
      exact htargets target ht
  | error e =>
    simp only
    split
    · exact ⟨⟨hkeeps,hsettled,hkept,fun h => by simp at h⟩,fun _ h => by simp at h⟩
    · exact ⟨⟨hkeeps,hsettled,hkept,id⟩,fun h => by simp at h⟩

theorem erase_claims_complete (hdoc : engine.Erases) (claims : List ElementId) (sweep : Sweep)
    (hs : Settled sweep.managed) (hindexed : sweep.managed.nexus.Indexed)
    (herased : ∀ id ∈ sweep.erased, isPurged sweep.managed.nexus id = true) (now : ℕ)
    (receiptRef : String) :
    sweep.Carries (eraseClaims digests engine now receiptRef sweep claims).1 ∧
    ((eraseClaims digests engine now receiptRef sweep claims).2 = none →
      (eraseClaims digests engine now receiptRef sweep claims).1.status = .completed →
      ∀ claim ∈ claims, isPurged
        (eraseClaims digests engine now receiptRef sweep claims).1.managed.nexus claim = true) := by
  induction claims generalizing sweep with
  | nil => exact ⟨Sweep.Carries.refl sweep hs herased,fun _ _ _ h => by cases h⟩
  | cons claim rest ih =>
    obtain ⟨hone,hclaim⟩ :=
      erase_claim_carries digests hdoc sweep hs hindexed herased now receiptRef claim
    unfold eraseClaims
    generalize eraseClaim digests engine now receiptRef sweep claim = x at hone hclaim
    obtain ⟨next,stop⟩ := x
    cases stop with
    | some e => exact ⟨hone,fun h => by cases h⟩
    | none =>
      obtain ⟨hrest,hothers⟩ := ih next hone.settled (hone.keeps.indexed hindexed) hone.erased
      refine ⟨hone.trans hrest,fun hnone hstatus id hid => ?_⟩
      rcases List.mem_cons.mp hid with rfl | hid
      · exact hrest.keeps.purged (hclaim rfl (hrest.status hstatus))
      · exact hothers hnone hstatus id hid

theorem purged_carries {sweep : Sweep} (owned : List ElementId) (id : ElementId) (nexus : Nexus)
    (outcome : Outcome) (hs : Settled sweep.managed)
    (herased : ∀ id ∈ sweep.erased, isPurged sweep.managed.nexus id = true)
    (hk : sweep.managed.nexus.Keeps nexus) : sweep.Carries (sweep.purged owned id nexus outcome) ∧
    (sweep.purged owned id nexus outcome).managed.nexus = nexus := by
  have hkept : ∀ id ∈ sweep.erased, isPurged nexus id = true :=
    fun id hid => hk.purged (herased id hid)
  have hsettled := nexus_settled hs nexus hk
  unfold Sweep.purged
  generalize (if id.kind = .evidence then sweep.roots++[id] else sweep.roots) = roots
  simp only
  split
  · exact ⟨⟨hk,hsettled,hkept,fun h => by simp at h⟩,rfl⟩
  · exact ⟨⟨hk,hsettled,hkept,fun h => h⟩,rfl⟩

theorem purge_direct_complete (hdoc : engine.Erases) (owned ids : List ElementId) (sweep : Sweep)
    (hs : Settled sweep.managed)
    (herased : ∀ id ∈ sweep.erased, isPurged sweep.managed.nexus id = true) :
    sweep.Carries (purgeDirect engine owned sweep ids).1 ∧
    ((purgeDirect engine owned sweep ids).2 = none →
      (purgeDirect engine owned sweep ids).1.status = .completed →
      ∀ id ∈ ids, isPurged (purgeDirect engine owned sweep ids).1.managed.nexus id = true) := by
  induction ids generalizing sweep with
  | nil => exact ⟨Sweep.Carries.refl sweep hs herased,fun _ _ _ h => nomatch h⟩
  | cons id rest ih =>
    unfold purgeDirect
    split
    · rename_i hpurged
      obtain ⟨hrest,hothers⟩ := ih sweep hs herased
      refine ⟨hrest,fun hnone hstatus x hx => ?_⟩
      rcases List.mem_cons.mp hx with rfl | hx
      · exact hrest.keeps.purged hpurged
      · exact hothers hnone hstatus x hx
    have hkeeps := hdoc.purge sweep.managed.nexus (cascade id)
    have hcascade := hdoc.cascade sweep.managed.nexus id
    generalize engine.purge sweep.managed.nexus (cascade id) = x at hkeeps hcascade
    obtain ⟨nexus,answer⟩ := x
    cases answer with
    | error e =>
      have hkept : ∀ id ∈ sweep.erased, isPurged nexus id = true :=
        fun id hid => hkeeps.purged (herased id hid)
      have hsettled := nexus_settled hs nexus hkeeps
      simp only
      split
      · exact ⟨⟨hkeeps,hsettled,hkept,fun h => by simp at h⟩,fun _ h => by simp at h⟩
      · exact ⟨⟨hkeeps,hsettled,hkept,fun h => h⟩,fun h => by simp at h⟩
    | ok outcome =>
      obtain ⟨hone,hnexus⟩ := purged_carries owned id nexus outcome hs herased hkeeps
      obtain ⟨hrest,hothers⟩ := ih _ hone.settled hone.erased
      refine ⟨hone.trans hrest,fun hnone hstatus x hx => ?_⟩
      rcases List.mem_cons.mp hx with rfl | hx
      · refine hrest.keeps.purged ?_
        rw [hnexus]
        exact hcascade outcome rfl
      · exact hothers hnone hstatus x hx

end

theorem mem_distinct {α : Type} [DecidableEq α] (xs : List α) (x : α) :
    x ∈ distinct xs ↔ x ∈ xs := by
  have hfold : ∀ (kept : List α), x ∈ xs.foldl
      (fun kept x => if x ∈ kept then kept else kept++[x]) kept ↔ x ∈ kept ∨ x ∈ xs := by
    induction xs with
    | nil => simp
    | cons y rest ih =>
      intro kept
      rw [List.foldl_cons, ih]
      by_cases hy : y ∈ kept
      · simp only [if_pos hy, List.mem_cons]
        constructor
        · rintro (h | h)
          · exact .inl h
          · exact .inr (.inr h)
        rintro (h | rfl | h)
        · exact .inl h
        · exact .inl hy
        · exact .inr h
      · simp only [if_neg hy, List.mem_append, List.mem_cons, List.not_mem_nil, or_false, or_assoc]
  simpa [distinct] using hfold []

section
variable {session : Session}

theorem claims_cite (nexus : Nexus) (target : ForgetTarget)
    (evidenceTargets claims : List ElementId)
    (h : claimsOf session nexus target evidenceTargets = .ok claims) : ∀ evidence ∈ evidenceTargets,
    ∀ id ∈ nexus.referrers evidence, id.kind = .assertion → id ∈ claims := by
  intro evidence he id hid hkind
  have hmap : ∀ named : Except Failure (List ElementId), (named.map fun named =>
      sortIds (distinct (named++evidenceTargets.flatMap fun evidence =>
        (nexus.referrers evidence).filter fun id => decide (id.kind = .assertion)))) = .ok claims →
      id ∈ claims := by
    intro named hn
    cases named with
    | error e => cases hn
    | ok named =>
      cases hn
      refine (sort_by_perm _ _).mem_iff.mpr ((mem_distinct _ _).mpr (List.mem_append_right _ ?_))
      exact List.mem_flatMap.mpr ⟨evidence,he,by simp [hid, hkind]⟩
  exact hmap _ h

theorem direct_targets_mem (target : ForgetTarget) (loc : Located) (claims erased : List ElementId)
    (id : ElementId) (h : id ∈ loc.evidenceTargets ∨ id ∈ loc.ownedConcepts) :
    id ∈ erased ∨ id ∈ directTargets target loc claims erased := by
  by_cases hin : id ∈ erased
  · exact .inl hin
  · right
    refine (mem_distinct _ _).mpr (List.mem_append_left _ (List.mem_filter.mpr ⟨?_,by simp [hin]⟩))
    exact List.mem_append.mpr h

structure Located.Erased (loc : Located) (before after : Nexus) : Prop where
  status : loc.status = .completed
  evidence : ∀ id ∈ loc.evidenceTargets, isPurged after id = true
  concepts : ∀ id ∈ loc.ownedConcepts, isPurged after id = true
  claims : ∀ evidence ∈ loc.evidenceTargets, ∀ id ∈ before.referrers evidence,
    id.kind = .assertion → isPurged after id = true

theorem sweep_semantic_complete (hdoc : session.toEngine.Erases) (digests : Digests) (w : World)
    (hs : Settled w.managed) (hindexed : w.nexus.Indexed) (now : ℕ) (receiptRef : String)
    (target : ForgetTarget) (loc : Located) :
    w.nexus.Keeps (sweepSemantic digests session w now receiptRef target loc).1.managed.nexus ∧
    Settled (sweepSemantic digests session w now receiptRef target loc).1.managed ∧
    ((sweepSemantic digests session w now receiptRef target loc).2 = none →
      (sweepSemantic digests session w now receiptRef target loc).1.status = .completed →
      loc.Erased w.nexus
        (sweepSemantic digests session w now receiptRef target loc).1.managed.nexus) := by
  unfold sweepSemantic
  cases hclaims : claimsOf session w.nexus target loc.evidenceTargets with
  | error e => exact ⟨Nexus.Keeps.refl _,hs,fun h => nomatch h⟩
  | ok claims =>
    simp only
    obtain ⟨hsweep,hclaim⟩ := erase_claims_complete digests hdoc claims (Sweep.begin w loc) hs
      hindexed (fun _ h => nomatch h) now receiptRef
    generalize eraseClaims digests session.toEngine now receiptRef (Sweep.begin w loc) claims = x
      at hsweep hclaim
    obtain ⟨swept,stop⟩ := x
    cases stop with
    | some e => exact ⟨hsweep.keeps,hsweep.settled,fun h => nomatch h⟩
    | none =>
      simp only
      obtain ⟨hdirect,hgone⟩ := purge_direct_complete hdoc loc.ownedConcepts
        (directTargets target loc claims swept.erased) swept hsweep.settled hsweep.erased
      generalize purgeDirect session.toEngine loc.ownedConcepts swept
        (directTargets target loc claims swept.erased) = y at hdirect hgone
      obtain ⟨last,stop⟩ := y
      cases stop with
      | some e => exact ⟨hsweep.keeps.trans hdirect.keeps,hdirect.settled,fun h => nomatch h⟩
      | none =>
        simp only
        refine ⟨hsweep.keeps.trans hdirect.keeps,suppress_settled hdirect.settled _,
          fun _ hstatus => ?_⟩
        have hswept := hdirect.status hstatus
        have hreached : ∀ id, id ∈ loc.evidenceTargets ∨ id ∈ loc.ownedConcepts →
            isPurged last.managed.nexus id = true := by
          intro id hid
          rcases direct_targets_mem target loc claims swept.erased id hid with hin | hin
          · exact hdirect.keeps.purged (hsweep.erased id hin)
          · exact hgone rfl hstatus id hin
        exact
          { status := hsweep.status hswept
            evidence := fun id hid => hreached id (.inl hid)
            concepts := fun id hid => hreached id (.inr hid)
            claims := fun evidence he id hid hkind => hdirect.keeps.purged
              (hclaim rfl hswept id (claims_cite _ _ _ _ hclaims evidence he id hid hkind)) }

theorem sweep_payloads_settled
    (hpayload : ∀ (nexus : Nexus) id, nexus.Keeps (session.purgePayload nexus id).1)
    (ids : List ElementId) (sweep : Sweep) (hs : Settled sweep.managed) : sweep.managed.nexus.Keeps
    (sweepPayloads session sweep ids).1.managed.nexus ∧ Settled
    (sweepPayloads session sweep ids).1.managed := by
  induction ids generalizing sweep with
  | nil => exact ⟨Nexus.Keeps.refl _,hs⟩
  | cons id rest ih =>
    have hkeeps := hpayload sweep.managed.nexus id
    unfold sweepPayloads
    generalize session.purgePayload sweep.managed.nexus id = x at hkeeps
    obtain ⟨nexus,answer⟩ := x
    have hsettled := nexus_settled hs nexus hkeeps
    cases answer with
    | error e => exact ⟨hkeeps,hsettled⟩
    | ok u =>
      obtain ⟨hrest,hlast⟩ := ih
        { sweep with
          managed := { sweep.managed with nexus }
          targets := sweep.targets++[⟨id,"payload","erased"⟩] } hsettled
      exact ⟨hkeeps.trans hrest,hlast⟩

end

structure Session.Erases (session : Session) : Prop where
  engine : session.toEngine.Erases
  payload : ∀ (nexus : Nexus) id, nexus.Keeps (session.purgePayload nexus id).1
  evidence : ∀ (nexus : Nexus) input, nexus.Keeps (session.createEvidence nexus input).1
  stored : ∀ nexus input id seq, (session.createEvidence nexus input).2 = .ok (some id,seq) →
    id.kind = .evidence ∧ ((session.createEvidence nexus input).1.load id).isSome
  repair : ∀ (nexus : Nexus) input, nexus.Keeps (session.repairRecording nexus input).1
  scope : ∀ (nexus : Nexus) handle, nexus.Keeps (session.createScope nexus handle).1

structure Located.Grows (loc next : Located) : Prop where
  evidence : loc.evidenceTargets ⊆ next.evidenceTargets
  concepts : loc.ownedConcepts ⊆ next.ownedConcepts
  status : next.status = .completed → loc.status = .completed

theorem Located.Grows.refl (loc : Located) : loc.Grows loc :=
  ⟨List.Subset.refl _,List.Subset.refl _,id⟩

theorem Located.Grows.trans {a b c : Located} (hab : a.Grows b) (hbc : b.Grows c) : a.Grows c :=
  ⟨List.Subset.trans hab.evidence hbc.evidence,List.Subset.trans hab.concepts hbc.concepts,
    fun h => hab.status (hbc.status h)⟩

def Owned (nexus : Nexus) (id : ElementId) : Prop :=
  id.kind = .concept ∧ ∃ row, nexus.load id = some row ∧ row.className ∈ ownedClasses

theorem note_reference_grows (nexus : Nexus) (created : List ElementId) (loc : Located)
    (ref : ElementId) :
    loc.Grows (noteReference nexus .semantic created loc ref) ∧
    (ref.kind = .evidence → ref ∈ (noteReference nexus .semantic created loc ref).evidenceTargets) ∧
    ((noteReference nexus .semantic created loc ref).status = .completed → Owned nexus ref →
      ref ∈ (noteReference nexus .semantic created loc ref).ownedConcepts) := by
  unfold noteReference
  split
  · rename_i hkind
    refine ⟨⟨List.subset_append_left _ _,List.Subset.refl _,id⟩,by simp,fun _ h => ?_⟩
    rw [h.1] at hkind
    cases hkind
  rename_i hevidence
  split
  · split
    · split
      · rename_i hin
        exact ⟨Located.Grows.refl loc,fun h => absurd h hevidence,fun _ _ => hin⟩
      · exact ⟨⟨List.Subset.refl _,List.subset_append_left _ _,id⟩,
          fun h => absurd h hevidence,by simp⟩
    · exact ⟨⟨List.Subset.refl _,List.Subset.refl _,fun h => by simp at h⟩,
        fun h => absurd h hevidence,fun h => by simp at h⟩
  · rename_i hother
    refine ⟨Located.Grows.refl loc,fun h => absurd h hevidence,fun _ h => ?_⟩
    obtain ⟨hkind,row,hrow,hclass⟩ := h
    exact absurd ⟨rfl,hkind,by simp [hrow, hclass]⟩ hother

theorem note_references_grow (nexus : Nexus) (created refs : List ElementId) (loc : Located) :
    loc.Grows (refs.foldl (noteReference nexus .semantic created) loc) ∧
    ∀ ref ∈ refs,
      (ref.kind = .evidence →
        ref ∈ (refs.foldl (noteReference nexus .semantic created) loc).evidenceTargets) ∧
      ((refs.foldl (noteReference nexus .semantic created) loc).status = .completed →
        Owned nexus ref →
        ref ∈ (refs.foldl (noteReference nexus .semantic created) loc).ownedConcepts) := by
  induction refs generalizing loc with
  | nil => exact ⟨Located.Grows.refl loc,fun _ h => nomatch h⟩
  | cons ref rest ih =>
    obtain ⟨hone,hevidence,howned⟩ := note_reference_grows nexus created loc ref
    obtain ⟨hrest,hothers⟩ := ih (noteReference nexus .semantic created loc ref)
    rw [List.foldl_cons]
    refine ⟨hone.trans hrest,fun x hx => ?_⟩
    rcases List.mem_cons.mp hx with rfl | hx
    · exact ⟨fun h => hrest.evidence (hevidence h),
        fun h ho => hrest.concepts (howned (hrest.status h) ho)⟩
    · exact hothers x hx

structure Located.Holds (nexus : Nexus) (loc : Located) (intake : IntakeRecord) : Prop where
  ended : loc.status = .completed → intake.terminal.isSome
  noted : ∀ ref ∈ intake.evidence, ref ∈ loc.evidenceTargets
  evidence : ∀ ref ∈ memoryRefs intake, ref.kind = .evidence → ref ∈ loc.evidenceTargets
  concepts : ∀ ref ∈ memoryRefs intake, Owned nexus ref → loc.status = .completed →
    ref ∈ loc.ownedConcepts

theorem Located.Holds.grows {nexus : Nexus} {loc next : Located} {intake : IntakeRecord}
    (h : loc.Holds nexus intake) (hg : loc.Grows next) : next.Holds nexus intake :=
  ⟨fun hs => h.ended (hg.status hs),fun ref hr => hg.evidence (h.noted ref hr),
    fun ref hr hk => hg.evidence (h.evidence ref hr hk),
    fun ref hr ho hs => hg.concepts (h.concepts ref hr ho (hg.status hs))⟩

theorem note_intake_holds (nexus : Nexus) (loc : Located) (intake : IntakeRecord) :
    loc.Grows (noteIntake nexus .semantic loc intake) ∧
    (noteIntake nexus .semantic loc intake).Holds nexus intake := by
  unfold noteIntake
  have hend : ∃ start : Located, (if intake.terminal.isNone then
      { loc with status := .incomplete, summary := unfinishedSummary } else loc) = start ∧
      loc.Grows start ∧ (start.status = .completed → intake.terminal.isSome) := by
    refine ⟨_,rfl,?_⟩
    cases ht : intake.terminal with
    | none => exact ⟨⟨List.Subset.refl _,List.Subset.refl _,fun h => by simp at h⟩,
        fun h => by simp at h⟩
    | some t => exact ⟨Located.Grows.refl loc,fun _ => rfl⟩
  obtain ⟨start,hstart,hgrows,hended⟩ := hend
  simp only [hstart]
  obtain ⟨hrefs,hnoted⟩ := note_references_grow nexus intake.created (memoryRefs intake) start
  have hlast : ((memoryRefs intake).foldl (noteReference nexus .semantic intake.created) start).Grows
      { (memoryRefs intake).foldl (noteReference nexus .semantic intake.created) start with
        evidenceTargets := ((memoryRefs intake).foldl
          (noteReference nexus .semantic intake.created) start).evidenceTargets++intake.evidence } :=
    ⟨List.subset_append_left _ _,List.Subset.refl _,id⟩
  refine ⟨(hgrows.trans hrefs).trans hlast,⟨fun h => hended (hrefs.status h),?_,?_,?_⟩⟩
  · exact fun ref hr => List.mem_append_right _ hr
  · exact fun ref hr hk => hlast.evidence ((hnoted ref hr).1 hk)
  · exact fun ref hr ho hs => (hnoted ref hr).2 hs ho

theorem note_intakes_hold (nexus : Nexus) (intakes : List IntakeRecord) (loc : Located) :
    loc.Grows (intakes.foldl (noteIntake nexus .semantic) loc) ∧
    ∀ intake ∈ intakes, (intakes.foldl (noteIntake nexus .semantic) loc).Holds nexus intake := by
  induction intakes generalizing loc with
  | nil => exact ⟨Located.Grows.refl loc,fun _ h => nomatch h⟩
  | cons intake rest ih =>
    obtain ⟨hone,hholds⟩ := note_intake_holds nexus loc intake
    obtain ⟨hrest,hothers⟩ := ih (noteIntake nexus .semantic loc intake)
    rw [List.foldl_cons]
    refine ⟨hone.trans hrest,fun x hx => ?_⟩
    rcases List.mem_cons.mp hx with rfl | hx
    · exact hholds.grows hrest
    · exact hothers x hx

theorem locate_source_holds (w : World) (ns source : String) (request : ForgetRequest)
    (loc : Located) (htarget : request.target = .source source) (hmode : request.mode = .semantic)
    (h : locate w ns request = .ok loc) : isHandle "src-" source = true ∧ ∀ intake ∈ sourceIntakes w
    source, loc.Holds w.nexus intake := by
  unfold locate at h
  simp only [htarget, hmode] at h
  cases hstaged : w.stagedSource ns source with
  | error e =>
    rw [hstaged] at h
    cases h
  | ok staged =>
    rw [hstaged] at h
    cases h
    refine ⟨?_,(note_intakes_hold w.nexus (sourceIntakes w source) _).2⟩
    unfold World.stagedSource at hstaged
    split at hstaged
    · cases hstaged
    · rename_i hhandle
      simpa using hhandle

section
variable (site : Site) {session : Session}

theorem sweep_settled (hdoc : session.Erases) (w : World) (hs : Settled w.managed)
    (hindexed : w.nexus.Indexed) (now : ℕ) (ref : String) (request : ForgetRequest) (loc : Located)
    : w.nexus.Keeps (sweep site.toDigests session w now ref request loc).1.managed.nexus ∧ Settled
    (sweep site.toDigests session w now ref request loc).1.managed := by
  unfold sweep
  split
  · obtain ⟨hk,hset,-⟩ := sweep_semantic_complete hdoc.engine site.toDigests w hs hindexed now ref
      request.target loc
    exact ⟨hk,hset⟩
  · split
    · exact ⟨Nexus.Keeps.refl _,hs⟩
    · exact sweep_payloads_settled hdoc.payload loc.evidenceTargets (Sweep.begin w loc) hs

theorem forget_settled (hdoc : session.Erases) (w : World) (hs : Settled w.managed)
    (hindexed : w.nexus.Indexed) (now : ℕ) (ns space : String) (request : ForgetRequest)
    (owner : Bool) : w.nexus.Keeps (forget site session w now ns space request owner).1.nexus ∧
    Settled (forget site session w now ns space request owner).1.managed := by
  unfold forget
  split
  · exact ⟨Nexus.Keeps.refl _,hs⟩
  simp only
  split
  · split <;> exact ⟨Nexus.Keeps.refl _,hs⟩
  generalize forgetRef site ns space request.idempotencyKey = ref
  generalize forgetReceipt site w now ns ref request = record
  rw [World.nexus, World.nexus]
  rcases run_forget_managed site session (w.putReceipt ref record) now ns ref
      request record with h | ⟨loc,-,h | h⟩ <;> rw [h]
  · exact ⟨Nexus.Keeps.refl _,hs⟩
  · exact sweep_settled site hdoc (w.putReceipt ref record) hs hindexed now ref request loc
  · obtain ⟨hk,hset⟩ :=
      sweep_settled site hdoc (w.putReceipt ref record) hs hindexed now ref request loc
    exact ⟨hk,suppress_settled hset _⟩

theorem settle_open (w : World) (ref : String) (record : IntakeRecord) (terminal : Progress)
    (result : Option StoredResult) (warnings : List String)
    (hr : w.receipts.lookup ref = some record) (ht : record.terminal = none) :
    ∃ settled, settle w ref terminal result warnings = (w.putReceipt ref settled,.ok settled) ∧
      settled.terminal = some terminal ∧
      settled.result = (result.orElse fun _ => record.result) ∧
      settled.sourceRef = record.sourceRef ∧ settled.evidence = record.evidence ∧
      settled.created = record.created ∧ settled.intent = record.intent := by
  unfold settle
  simp only [hr, ht, Option.isSome_none, Bool.false_eq_true, if_false]
  exact ⟨_,rfl,rfl,rfl,rfl,rfl,rfl,rfl⟩

theorem verdict_completed (w : World) (ref : String) (mode : ForgetMode) (swept : Sweep) (host : ℕ)
    (h : (verdict session w ref mode swept host).1 = .completed) : swept.status = .completed := by
  unfold verdict at h
  by_cases hs : swept.status = .completed
  · exact hs
  · simp only [if_neg hs] at h
    split at h <;> exact h

theorem settle_forget_completed (w next : World) (ref : String) (record stored : IntakeRecord)
    (seq : ℕ) (verdict : ForgetStatus × String) (planRef summary : String)
    (hr : w.receipts.lookup ref = some record) (ht : record.terminal = none)
    (h : settleForget w ref record seq verdict = (next,.ok stored))
    (hresult : stored.result = some (.erasure .completed planRef summary)) :
    verdict.1 = .completed ∧ next.managed = w.managed := by
  have hmanaged := settle_forget_managed w ref record seq verdict
  rw [h] at hmanaged
  refine ⟨?_,hmanaged⟩
  unfold settleForget at h
  split at h
  · assumption
  · rename_i hblocked
    obtain ⟨settled,hw,-,hset,-⟩ := settle_open w ref record
      (failedProgress ref verdict.2 (memoryError "LegalHoldConflict" verdict.2))
      (some (.erasure verdict.1 (planRefOf ref) verdict.2)) [] hr ht
    rw [hw] at h
    cases h
    simp [hset, hblocked] at hresult
  · rename_i hunfinished
    cases h
    simp [hunfinished] at hresult

theorem run_forget_completed (w next : World) (now : ℕ) (ns ref : String) (request : ForgetRequest)
    (record stored : IntakeRecord) (planRef summary : String)
    (hr : w.receipts.lookup ref = some record) (ht : record.terminal = none)
    (hnone : record.result = none)
    (h : runForget site session w now ns ref request record = (next,.ok stored))
    (hresult : stored.result = some (.erasure .completed planRef summary)) : ∃ loc, locate w ns
    request = .ok loc ∧ (sweep site.toDigests session w now ref request loc).2 = none ∧
    (sweep site.toDigests session w now ref request loc).1.status = .completed ∧ next.nexus =
    (sweep site.toDigests session w now ref request loc).1.managed.nexus := by
  -- a receipt that is settled as failed has no result
  have hfailed : ∀ (m : Managed) (error : Failure) (u : World) (answer : IntakeRecord),
      settle { w with managed := m } ref
        (failedProgress ref "the erasure could not run" (failureCode error)) none [] =
          (u,.ok answer) → answer.result = none := by
    intro m error u answer hs
    obtain ⟨settled,hw,-,hset,-⟩ := settle_open { w with managed := m } ref record
      (failedProgress ref "the erasure could not run" (failureCode error)) none [] hr ht
    rw [hw] at hs
    cases hs
    rw [hset, hnone]
    rfl
  unfold runForget at h
  cases hloc : locate w ns request with
  | error e =>
    simp only [hloc] at h
    rw [hfailed w.managed e next stored h] at hresult
    cases hresult
  | ok loc =>
    simp only [hloc] at h
    refine ⟨loc,rfl,?_⟩
    generalize sweep site.toDigests session w now ref request loc = x at h
    obtain ⟨swept,stop⟩ := x
    cases stop with
    | some e =>
      simp only at h
      rw [hfailed swept.managed e next stored h] at hresult
      cases hresult
    | none =>
      simp only at h
      have hreceipts := erase_staged_receipts (clearable w swept.suppressed loc.staged)
        { w with managed := swept.managed }
      split at h
      all_goals
        have hlookup : SortedMap.lookup (List.foldl eraseStaged { w with managed := swept.managed }
            (clearable w swept.suppressed loc.staged)).receipts ref = some record := by
          rw [hreceipts, hr]
        obtain ⟨hverdict,hmanaged⟩ :=
          settle_forget_completed _ next ref record stored _ _ planRef summary (by exact hlookup) ht
            h hresult
        refine ⟨rfl,verdict_completed w ref request.mode swept _ hverdict,?_⟩
        rw [World.nexus, hmanaged]
        simp [suppressSources, erase_staged_managed]

theorem forget_erases (hdoc : session.Erases) (w next : World) (hs : Settled w.managed)
    (hindexed : w.nexus.Indexed) (now : ℕ) (ns space : String) (request : ForgetRequest)
    (owner : Bool) (stored : IntakeRecord) (planRef summary : String)
    (hmode : request.mode = .semantic)
    (hfresh : w.receipts.lookup (forgetRef site ns space request.idempotencyKey) = none)
    (h : forget site session w now ns space request owner = (next,.ok stored))
    (hresult : stored.result = some (.erasure .completed planRef summary)) : ∃ bound loc, bound =
    w.putReceipt (forgetRef site ns space request.idempotencyKey)
    (forgetReceipt site w now ns (forgetRef site ns space request.idempotencyKey) request) ∧ locate
    bound ns request = .ok loc ∧ loc.Erased w.nexus next.nexus := by
  unfold forget at h
  split at h
  · cases h
  simp only [hfresh] at h
  generalize forgetRef site ns space request.idempotencyKey = ref at h
  set record := forgetReceipt site w now ns ref request with hrecord
  refine ⟨w.putReceipt ref record,?_⟩
  obtain ⟨loc,hloc,hstop,hstatus,hnexus⟩ := run_forget_completed site (w.putReceipt ref record)
    next now ns ref request record stored planRef summary (by simp [lookup_put]) rfl rfl h hresult
  refine ⟨loc,rfl,hloc,?_⟩
  rw [hnexus]
  unfold sweep at hstop hstatus ⊢
  simp only [hmode] at hstop hstatus ⊢
  exact (sweep_semantic_complete hdoc.engine site.toDigests (w.putReceipt ref record) hs hindexed
    now ref request.target loc).2.2 hstop hstatus

end

end AndaBrain.WorkerMemory
