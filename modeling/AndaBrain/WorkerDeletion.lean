import AndaBrain.WorkerForget
import AndaBrain.Foundation.Resumption

/-!
# What a managed deletion leaves

A deletion opens a new epoch, suppresses the sources of every Evidence it may erase and only
then calls the engine, so what it erased is out of reach of the passes admitted before, however
far the engine went.
-/

set_option autoImplicit false

namespace AndaBrain.WorkerMemory
open Foundation.SortBy Product
open Foundation.Resumption (except_bind_ok)

section Reads
variable {nexus : Nexus} {product : ProductStore}

theorem read_element_load {id : ElementId} {row : Row} (h : readElement nexus id = .ok row) :
    nexus.load id = some row := by
  unfold readElement at h
  cases hl : nexus.load id with
  | none => simp [hl, fail] at h
  | some found =>
    simp only [hl] at h
    split at h
    · cases h
    · cases h
      rfl

/-- A closure ends, or it takes one more element: a purged one leads no further, any other is
added with the keys of its sources. -/
theorem closure_cases {room : ℕ} {seen pending : List ElementId} {found : List Target}
    {sources : Finset String} {answer : List Target × Finset String}
    (h : closure nexus product room seen found sources pending = .ok answer) :
    (pending.dropWhile (fun id => decide (id ∈ seen)) = [] ∧ answer = (found,sources)) ∨
    ∃ id rest left row, pending.dropWhile (fun id => decide (id ∈ seen)) = id::rest ∧
      room = left+1 ∧ nexus.load id = some row ∧
      (row.state = .purged ∧
          closure nexus product left (id::seen) found sources rest = .ok answer ∨
        ∃ keys inputs, (id.kind = .evidence → keysForSource product (sourceOf id row) = .ok keys) ∧
          closure nexus product left (id::seen) (⟨id,row.version⟩::found) (sources ∪ keys)
            ((inputs++nexus.referrers id).reverse++rest) = .ok answer) := by
  unfold closure at h
  split at h
  · cases h
    exact .inl ⟨‹_›,rfl⟩
  · cases h
  rename_i id rest left hdrop
  obtain ⟨row,hread,h⟩ := except_bind_ok _ _ _ h
  refine .inr ⟨id,rest,left,row,hdrop,rfl,read_element_load hread,?_⟩
  split at h
  · exact .inl ⟨‹_›,h⟩
  split at h
  · cases h
  dsimp only at h
  right
  by_cases hkind : id.kind = .evidence
  · rw [if_pos hkind] at h
    obtain ⟨keys,hkeys,h⟩ := except_bind_ok _ _ _ h
    exact ⟨keys,_,fun _ => hkeys,h⟩
  · rw [if_neg hkind] at h
    exact ⟨∅,_,fun hevidence => absurd hevidence hkind,h⟩

theorem preview_delete_ok {record : ElementId} {revision : ℕ} {preview : ChangePreview}
    (h : previewDelete nexus product record revision = .ok preview) :
    ∃ memory found keys, readRecord nexus product record = .ok memory ∧
      closure nexus product 128 [] [] keys [memory.propositionId] =
        .ok (found,preview.excludedSources) ∧
      preview.targets = sortTargets found := by
  obtain ⟨memory,hread,h⟩ := except_bind_ok _ _ _ h
  split at h
  · cases h
  split at h
  · cases h
  obtain ⟨keys,-,h⟩ := except_bind_ok _ _ _ h
  obtain ⟨⟨found,sources⟩,hclosure,h⟩ := except_bind_ok _ _ _ h
  cases h
  exact ⟨memory,found,_,hread,hclosure,rfl⟩

theorem show_change_ok {now : ℕ} {key : String} {shown : ProductStore} {change : StoredChange}
    (h : showChange nexus product now key = .ok (shown,change)) :
    ∃ stored, product.changes key = some stored ∧ change = expire product now key stored ∧
      shown = putChange product key change := by
  unfold showChange at h
  split at h
  · cases h
  obtain ⟨_,-,h⟩ := except_bind_ok _ _ _ h
  cases h
  exact ⟨_,‹_›,rfl,rfl⟩

end Reads

def Nexus.Follows (nexus next : Nexus) : Prop :=
  ∀ id row, nexus.load id = some row → ∃ after, next.load id = some after ∧
    (row.state = .purged → after.state = .purged) ∧
    (after.state ≠ .purged → after.clientKey = row.clientKey)

theorem Nexus.Follows.refl (nexus : Nexus) : nexus.Follows nexus :=
  fun _ row h => ⟨row,h,id,fun _ => rfl⟩

theorem Nexus.Follows.trans {a b c : Nexus} (hab : a.Follows b) (hbc : b.Follows c) :
    a.Follows c := by
  intro id row h
  obtain ⟨mid,hm,hmp,hmk⟩ := hab id row h
  obtain ⟨last,hl,hlp,hlk⟩ := hbc id mid hm
  refine ⟨last,hl,fun hp => hlp (hmp hp),fun hp => ?_⟩
  have hmid : mid.state ≠ .purged := fun h => hp (hlp h)
  rw [hlk hp, hmk hmid]

structure Engine.Documented (engine : Engine) : Prop where
  follows : ∀ (nexus : Nexus) request, nexus.Follows (engine.purge nexus request).1
  refused : ∀ nexus request e, (engine.purge nexus request).2 = .error e →
    ∀ id, isPurged (engine.purge nexus request).1 id = isPurged nexus id
  tombstone : ∀ nexus id version x, x ≠ id →
    isPurged (engine.purge nexus ⟨id,version,.tombstoneReference⟩).1 x = isPurged nexus x
  dryFollows : ∀ (nexus : Nexus) requests, nexus.Follows (engine.dryRun nexus requests).1
  dryKeeps : ∀ nexus requests id,
    isPurged (engine.dryRun nexus requests).1 id = isPurged nexus id

def Covered (m : Managed) (keys : Finset String) (id : ElementId) : Prop :=
  id.kind = .evidence → ∃ row, m.nexus.load id = some row ∧
    (row.state ≠ .purged → ∀ origin index, row.clientKey = .formation origin index →
      ∃ identity, m.product.sources origin = some identity ∧ identity.keys ⊆ keys)

structure Sound (m : Managed) : Prop where
  covered : ∀ key change, m.product.changes key = some change → change.delete = true →
    ∀ target ∈ change.preview.targets, Covered m change.preview.excludedSources target.id
  fenced : ∀ key change, m.product.pending = some key → m.product.changes key = some change →
    change.delete = true → change.preview.excludedSources ⊆ m.product.suppressed
  sources : ∀ origin identity, m.product.sources origin = some identity →
    sourceKeys identity = .ok identity.keys

structure Advance (m next : Managed) : Prop where
  follows : m.nexus.Follows next.nexus
  epoch : m.product.epoch ≤ next.product.epoch
  suppressed : m.product.suppressed ⊆ next.product.suppressed
  sources : ∀ origin identity, m.product.sources origin = some identity →
    next.product.sources origin = some identity
  pending : next.product.pending.isSome → m.product.pending.isSome ∨
    m.product.epoch < next.product.epoch

structure Identified (m : Managed) (id : ElementId) (identity : SourceIdentity) : Prop where
  kind : id.kind = .evidence
  recorded : ∃ row origin index, m.nexus.load id = some row ∧ row.state ≠ .purged ∧
    row.clientKey = .formation origin index ∧ m.product.sources origin = some identity

structure Deletes (m next : Managed) : Prop where
  advance : Advance m next
  fenced : ∀ id, isPurged m.nexus id = false → isPurged next.nexus id = true →
    m.product.epoch < next.product.epoch ∨ m.product.pending.isSome
  excluded : ∀ id identity, Identified m id identity → isPurged next.nexus id = true →
    identity.keys ⊆ next.product.suppressed

theorem Advance.refl (m : Managed) : Advance m m :=
  ⟨Nexus.Follows.refl _,le_refl _,Finset.Subset.refl _,fun _ _ h => h,.inl⟩

theorem Advance.trans {a b c : Managed} (hab : Advance a b) (hbc : Advance b c) : Advance a c where
  follows := hab.follows.trans hbc.follows
  epoch := hab.epoch.trans hbc.epoch
  suppressed := hab.suppressed.trans hbc.suppressed
  sources := fun origin identity h => hbc.sources origin identity (hab.sources origin identity h)
  pending := by
    intro h
    have hb := hbc.epoch
    have ha := hab.epoch
    rcases hbc.pending h with hpend | hlt
    · rcases hab.pending hpend with hpend | hlt
      · exact .inl hpend
      · exact .inr (by omega)
    · exact .inr (by omega)

theorem is_purged_iff (nexus : Nexus) (id : ElementId) :
    isPurged nexus id = true ↔ ∃ row, nexus.load id = some row ∧ row.state = .purged := by
  unfold isPurged
  cases nexus.load id <;> simp

variable {m next : Managed} (product : ProductStore)

theorem Identified.advance {id : ElementId} {identity : SourceIdentity}
    (h : Identified m id identity) (hm : Advance m next) (hp : isPurged next.nexus id = false) :
    Identified next id identity := by
  obtain ⟨row,origin,index,hr,hs,hk,hi⟩ := h.recorded
  obtain ⟨after,ha,-,hkey⟩ := hm.follows id row hr
  have hstate : after.state ≠ .purged := by
    intro hpurged
    rw [(is_purged_iff next.nexus id).mpr ⟨after,ha,hpurged⟩] at hp
    cases hp
  exact ⟨h.kind,after,origin,index,ha,hstate,by rw [hkey hstate, hk],hm.sources origin identity hi⟩

theorem Deletes.refl (m : Managed) : Deletes m m where
  advance := Advance.refl m
  fenced := by
    intro id h h'
    rw [h] at h'
    cases h'
  excluded := by
    intro id identity h hp
    obtain ⟨row,_,_,hr,hs,-⟩ := h.recorded
    obtain ⟨found,hf,hfs⟩ := (is_purged_iff _ _).mp hp
    rw [hr] at hf
    cases hf
    exact absurd hfs hs

theorem Deletes.trans {a b c : Managed} (hab : Deletes a b) (hbc : Deletes b c) : Deletes a c where
  advance := hab.advance.trans hbc.advance
  fenced := by
    intro id h h'
    have ha := hab.advance.epoch
    have hb := hbc.advance.epoch
    cases hmid : isPurged b.nexus id with
    | true => exact (hab.fenced id h hmid).imp_left fun hlt => by omega
    | false =>
      rcases hbc.fenced id hmid h' with hlt | hpend
      · exact .inl (by omega)
      · rcases hab.advance.pending hpend with hpend | hlt
        · exact .inr hpend
        · exact .inl (by omega)
  excluded := by
    intro id identity h hp
    cases hmid : isPurged b.nexus id with
    | true => exact (hab.excluded id identity h hmid).trans hbc.advance.suppressed
    | false => exact hbc.excluded id identity (h.advance hab.advance hmid) hp

theorem deletes_nothing (h : Advance m next)
    (hkept : ∀ id, isPurged next.nexus id = isPurged m.nexus id) : Deletes m next where
  advance := h
  fenced := by
    intro id hn hp
    rw [hkept id, hn] at hp
    cases hp
  excluded := by
    intro id identity hid hp
    rw [hkept id] at hp
    exact ((Deletes.refl m).excluded id identity hid hp).trans h.suppressed

theorem Covered.advance {keys : Finset String} {id : ElementId}
    (h : Covered m keys id) (hm : Advance m next) : Covered next keys id := by
  intro hkind
  obtain ⟨row,hr,hkeys⟩ := h hkind
  obtain ⟨after,ha,hap,hak⟩ := hm.follows id row hr
  refine ⟨after,ha,fun hs origin index hkey => ?_⟩
  have hrow : row.state ≠ .purged := fun hp => hs (hap hp)
  rw [hak hs] at hkey
  obtain ⟨identity,hi,hsub⟩ := hkeys hrow origin index hkey
  exact ⟨identity,hm.sources origin identity hi,hsub⟩

theorem Covered.mono {m : Managed} {keys more : Finset String} {id : ElementId}
    (h : Covered m keys id) (hsub : keys ⊆ more) : Covered m more id := by
  intro hkind
  obtain ⟨row,hr,hkeys⟩ := h hkind
  refine ⟨row,hr,fun hs origin index hkey => ?_⟩
  obtain ⟨identity,hi,hk⟩ := hkeys hs origin index hkey
  exact ⟨identity,hi,hk.trans hsub⟩

structure SameFence (change next : StoredChange) : Prop where
  delete : next.delete = change.delete
  targets : next.preview.targets = change.preview.targets
  excluded : next.preview.excludedSources = change.preview.excludedSources

theorem SameFence.refl (change : StoredChange) : SameFence change change := ⟨rfl,rfl,rfl⟩

theorem SameFence.trans {a b c : StoredChange} (hab : SameFence a b) (hbc : SameFence b c) :
    SameFence a c :=
  ⟨hbc.delete.trans hab.delete,hbc.targets.trans hab.targets,hbc.excluded.trans hab.excluded⟩

/-- Stored changes whose fences were there before, but for one whose fence is given. -/
theorem sound_of_changes (hs : Sound m) (hm : Advance m next)
    (hsources : ∀ origin identity, next.product.sources origin = some identity →
      m.product.sources origin = some identity)
    (hchanges : ∀ key change, next.product.changes key = some change → change.delete = true →
      (∃ old, m.product.changes key = some old ∧ SameFence old change) ∨
      ((∀ target ∈ change.preview.targets, Covered m change.preview.excludedSources target.id) ∧
        (next.product.pending = some key →
          change.preview.excludedSources ⊆ next.product.suppressed)))
    (hpending : ∀ key, next.product.pending = some key → m.product.pending = some key ∨
      ∀ change, next.product.changes key = some change → change.delete = true →
        change.preview.excludedSources ⊆ next.product.suppressed) : Sound next where
  covered := by
    intro key change hc hd target ht
    rcases hchanges key change hc hd with ⟨old,hold,hsame⟩ | ⟨hnew,-⟩
    · rw [hsame.excluded]
      rw [hsame.targets] at ht
      rw [hsame.delete] at hd
      exact (hs.covered key old hold hd target ht).advance hm
    · exact (hnew target ht).advance hm
  fenced := by
    intro key change hp hc hd
    rcases hpending key hp with hold | hnew
    · rcases hchanges key change hc hd with ⟨old,hchange,hsame⟩ | ⟨-,hnew⟩
      · rw [hsame.excluded]
        rw [hsame.delete] at hd
        exact (hs.fenced key old hold hchange hd).trans hm.suppressed
      · exact hnew hp
    · exact hnew change hc hd
  sources := fun origin identity h => hs.sources origin identity (hsources origin identity h)

theorem expire_fence (now : ℕ) (key : String) (change : StoredChange) :
    SameFence change (expire product now key change) := by
  unfold expire
  split <;> exact ⟨rfl,rfl,rfl⟩

theorem scrub_one_fence (now : ℕ) (ids : List ElementId) (key : String)
    (change : StoredChange) : SameFence change (scrubOne product now ids key change) := by
  have hexpired := expire_fence product now key change
  unfold scrubOne
  generalize expire product now key change = related at hexpired
  simp only
  split
  · exact hexpired
  · by_cases hprepared : related.state = .prepared <;> simp only [hprepared, if_true, if_false] <;>
      split <;> exact hexpired.trans ⟨rfl,rfl,rfl⟩

theorem put_change_cases (key other : String)
    (change found : StoredChange) (h : (putChange product key change).changes other = some found) :
    (other = key ∧ found = change) ∨ (other ≠ key ∧ product.changes other = some found) := by
  simp only [putChange] at h
  split at h
  · rename_i heq
    cases h
    exact .inl ⟨heq,rfl⟩
  · rename_i hne
    exact .inr ⟨hne,h⟩

theorem scrub_cases (now : ℕ) (erased : List ElementId) (but : Option String) (key : String)
    (found : StoredChange) (h : (scrubChanges product now erased but).changes key = some found) : ∃
    old, product.changes key = some old ∧ SameFence old found := by
  simp only [scrubChanges, Option.map_eq_some_iff] at h
  obtain ⟨old,hold,hfound⟩ := h
  refine ⟨old,hold,?_⟩
  rw [← hfound]
  split
  · exact SameFence.refl old
  · exact scrub_one_fence product now _ key old

section
variable {engine : Engine}

theorem purge_targets_spec (hdoc : engine.Documented) (targets : List Target) (nexus : Nexus)
    (completed : List ElementId) : nexus.Follows (purgeTargets engine nexus completed targets).1 ∧ ∀
    id, isPurged nexus id = false → isPurged (purgeTargets engine nexus completed targets).1 id =
    true → ∃ target ∈ targets, target.id = id := by
  induction targets generalizing nexus completed with
  | nil =>
    refine ⟨Nexus.Follows.refl _,fun id h h' => ?_⟩
    rw [show (purgeTargets engine nexus completed []).1 = nexus from rfl, h] at h'
    cases h'
  | cons target rest ih =>
    have hskip : ∀ done, nexus.Follows (purgeTargets engine nexus done rest).1 ∧
        ∀ id, isPurged nexus id = false →
          isPurged (purgeTargets engine nexus done rest).1 id = true →
          ∃ t ∈ target::rest, t.id = id := by
      intro done
      obtain ⟨hf,hp⟩ := ih nexus done
      refine ⟨hf,fun id h h' => ?_⟩
      obtain ⟨t,ht,hid⟩ := hp id h h'
      exact ⟨t,List.mem_cons_of_mem _ ht,hid⟩
    have hstay : nexus.Follows nexus ∧ ∀ id, isPurged nexus id = false →
        isPurged nexus id = true → ∃ t ∈ target::rest, t.id = id := by
      refine ⟨Nexus.Follows.refl _,fun id h h' => ?_⟩
      rw [h] at h'
      cases h'
    unfold purgeTargets
    split
    · exact hskip _
    split
    · exact hstay
    split
    · exact hskip _
    have hfollows := hdoc.follows nexus ⟨target.id,some target.revision,.tombstoneReference⟩
    have honly : ∀ id, isPurged nexus id = false →
        isPurged (engine.purge nexus
          ⟨target.id,some target.revision,.tombstoneReference⟩).1 id = true →
        id = target.id := by
      intro id h h'
      by_contra hne
      rw [hdoc.tombstone nexus target.id _ id hne, h] at h'
      cases h'
    generalize engine.purge nexus ⟨target.id,some target.revision,.tombstoneReference⟩ = x
      at hfollows honly
    obtain ⟨next,answer⟩ := x
    have hlast : nexus.Follows next ∧ ∀ id, isPurged nexus id = false →
        isPurged next id = true → ∃ t ∈ target::rest, t.id = id :=
      ⟨hfollows,fun id h h' => ⟨target,List.mem_cons_self,(honly id h h').symm⟩⟩
    cases answer with
    | error e => exact hlast
    | ok outcome =>
      simp only
      split
      · obtain ⟨hf,hp⟩ := ih next (completed++[target.id])
        refine ⟨hfollows.trans hf,fun id h h' => ?_⟩
        cases hmid : isPurged next id with
        | true => exact hlast.2 id h hmid
        | false =>
          obtain ⟨t,ht,hid⟩ := hp id hmid h'
          exact ⟨t,List.mem_cons_of_mem _ ht,hid⟩
      · exact hlast

theorem apply_spec (hdoc : engine.Documented) (m : Managed) (now : ℕ) (key : String)
    (stored : StoredChange) (hs : Sound m) (hpending : m.product.pending = some key)
    (hcovered : ∀ target ∈ stored.preview.targets,
      Covered m stored.preview.excludedSources target.id)
    (hfence : stored.preview.excludedSources ⊆ m.product.suppressed) :
    Deletes m ⟨(apply engine m.nexus m.product now key stored).1,
      (apply engine m.nexus m.product now key stored).2.1⟩ ∧
    Sound ⟨(apply engine m.nexus m.product now key stored).1,
      (apply engine m.nexus m.product now key stored).2.1⟩ ∧
    SameFence stored (apply engine m.nexus m.product now key stored).2.2 ∧
    (apply engine m.nexus m.product now key stored).2.1.epoch = m.product.epoch ∧
    (apply engine m.nexus m.product now key stored).2.1.changes key =
      some (apply engine m.nexus m.product now key stored).2.2 := by
  set requested := if stored.requests then stored.preview.targets else [] with hrequested
  have hpurges := purge_targets_spec hdoc requested m.nexus stored.completed
  have hof : ∀ id, isPurged m.nexus id = false →
      isPurged (purgeTargets engine m.nexus stored.completed requested).1 id = true →
      ∃ target ∈ stored.preview.targets, target.id = id := by
    intro id h h'
    obtain ⟨target,ht,hid⟩ := hpurges.2 id h h'
    refine ⟨target,?_,hid⟩
    rw [hrequested] at ht
    split at ht
    · exact ht
    · cases ht
  unfold apply
  rw [← hrequested]
  generalize purgeTargets engine m.nexus stored.completed requested = x at hpurges hof
  obtain ⟨next,completed,carried⟩ := x
  have hdeletes : ∀ product : ProductStore, product.epoch = m.product.epoch →
      product.suppressed = m.product.suppressed → product.sources = m.product.sources →
      Deletes m ⟨next,product⟩ := by
    intro product he hsup hsrc
    have hadvance : Advance m ⟨next,product⟩ :=
      ⟨hpurges.1,by simp [he],by simp [hsup],by simp [hsrc],fun _ => .inl (by simp [hpending])⟩
    refine ⟨hadvance,fun _ _ _ => .inr (by simp [hpending]),fun id identity hid hp => ?_⟩
    have hnot : isPurged m.nexus id = false := by
      obtain ⟨row,_,_,hr,hstate,-⟩ := hid.recorded
      simp [isPurged, hr, hstate]
    obtain ⟨target,ht,rfl⟩ := hof id hnot hp
    obtain ⟨row,origin,index,hr,hstate,hkey,hsource⟩ := hid.recorded
    obtain ⟨found,hf,hkeys⟩ := hcovered target ht hid.kind
    rw [hr] at hf
    cases hf
    obtain ⟨known,hknown,hsub⟩ := hkeys hstate origin index hkey
    rw [hsource] at hknown
    cases hknown
    simp only [hsup]
    exact hsub.trans hfence
  have hsound : ∀ (product : ProductStore) (done : StoredChange), SameFence stored done →
      product.suppressed = m.product.suppressed → product.epoch = m.product.epoch →
      product.sources = m.product.sources →
      (product.pending = some key ∨ product.pending = none) →
      (∀ other found, product.changes other = some found → (other = key ∧ found = done) ∨
        ∃ old, m.product.changes other = some old ∧ SameFence old found) →
      Sound ⟨next,product⟩ := by
    intro product done hdone hsup he hsrc hpend hchanges
    refine sound_of_changes hs (hdeletes product he hsup hsrc).advance (by simp [hsrc]) ?_ ?_
    · intro other found hfound hd
      rcases hchanges other found hfound with ⟨rfl,rfl⟩ | hold
      · refine .inr ⟨?_,fun _ => ?_⟩
        · rw [hdone.targets, hdone.excluded]
          exact hcovered
        · simp only [hsup, hdone.excluded]
          exact hfence
      · exact .inl hold
    · intro other hother
      rcases hpend with hp | hp
      · left
        rw [hpending, ← hp]
        exact hother
      · simp [hp] at hother
  simp only
  split
  · set confirmed := clearContent { stored with completed, state := .confirmed } with hconfirmed
    have hsame : SameFence stored confirmed := ⟨rfl,rfl,rfl⟩
    refine ⟨hdeletes _ rfl rfl rfl,hsound _ confirmed hsame rfl rfl rfl (.inr rfl) ?_,hsame,rfl,
      by simp [putChange]⟩
    intro other found hfound
    rcases put_change_cases _ key other confirmed found hfound with hnew | ⟨-,hold⟩
    · exact .inl hnew
    · exact .inr (scrub_cases m.product now _ _ other found hold)
  · set waiting : StoredChange := { stored with completed, state := .reconciling } with hwaiting
    have hsame : SameFence stored waiting := ⟨rfl,rfl,rfl⟩
    refine ⟨hdeletes _ rfl rfl rfl,hsound _ waiting hsame rfl rfl rfl (.inl hpending) ?_,hsame,rfl,
      by simp [putChange]⟩
    intro other found hfound
    rcases put_change_cases _ key other waiting found hfound with hnew | ⟨-,hold⟩
    · exact .inl hnew
    · exact .inr ⟨found,hold,SameFence.refl found⟩

end

/-- The keys of a source whose identity is recorded under the origin of its Evidence. -/
theorem keys_for_recorded (product : ProductStore) (id : ElementId) (row : Row) (origin : String)
    (index : ℕ) (keys : Finset String) (hkey : row.clientKey = .formation origin index)
    (h : keysForSource product (sourceOf id row) = .ok keys) : ∃ identity, product.sources origin =
    some identity ∧ ∃ own, sourceKeys identity = .ok own ∧ keys = insert origin own := by
  unfold keysForSource at h
  simp only [sourceOf, hkey, Option.bind_eq_bind, Option.bind_some] at h
  cases hi : product.sources origin with
  | none => simp [hi, fail] at h
  | some identity =>
    simp only [hi, Option.bind_some] at h
    cases hb : product.evidence origin index with
    | none => simp [hb, fail] at h
    | some binding =>
      simp only [hb, Option.bind_some] at h
      by_cases hbound : some binding.payloadDigest =
          (if row.state ≠ .purged then row.payloadDigest else none) ∧
          binding.observedAt = row.observedAt
      · simp only [hbound, and_self, if_true] at h
        cases hk : sourceKeys identity with
        | error e =>
          rw [hk] at h
          cases h
        | ok own =>
          rw [hk] at h
          cases h
          exact ⟨identity,rfl,own,hk,rfl⟩
      · simp only [hbound, if_false] at h
        cases h

/-- Every element of a deletion's closure that is an Evidence has its sources among those the
deletion excludes. -/
theorem closure_covered (m : Managed) (hs : Sound m) (room : ℕ) (seen pending : List ElementId)
    (found result : List Target) (sources excluded : Finset String)
    (hfound : ∀ target ∈ found, Covered m sources target.id)
    (h : closure m.nexus m.product room seen found sources pending = .ok (result,excluded)) :
    sources ⊆ excluded ∧ ∀ target ∈ result, Covered m excluded target.id := by
  induction room generalizing seen pending found sources with
  | zero =>
    obtain ⟨-,h⟩ | ⟨_,_,_,_,-,hroom,-⟩ := closure_cases h
    · cases h
      exact ⟨Finset.Subset.refl _,hfound⟩
    · cases hroom
  | succ room ih =>
    obtain ⟨-,h⟩ | ⟨id,rest,left,row,-,hroom,hload,h⟩ := closure_cases h
    · cases h
      exact ⟨Finset.Subset.refl _,hfound⟩
    obtain rfl : room = left := Nat.succ.inj hroom
    obtain ⟨-,h⟩ | ⟨keys,inputs,hkeys,h⟩ := h
    · exact ih _ _ _ _ hfound h
    have hstep : ∀ target ∈ (⟨id,row.version⟩ : Target)::found,
        Covered m (sources ∪ keys) target.id := by
      intro target ht
      rcases List.mem_cons.mp ht with rfl | ht
      · intro hkind
        refine ⟨row,hload,fun _ origin index hkey => ?_⟩
        obtain ⟨identity,hi,own,hown,rfl⟩ :=
          keys_for_recorded m.product id row origin index keys hkey (hkeys hkind)
        refine ⟨identity,hi,?_⟩
        rw [hs.sources origin identity hi] at hown
        cases hown
        exact (Finset.subset_insert _ _).trans Finset.subset_union_right
      · exact (hfound target ht).mono Finset.subset_union_left
    have hrest := ih _ _ _ _ hstep h
    exact ⟨Finset.subset_union_left.trans hrest.1,hrest.2⟩

theorem preview_covered (m : Managed) (hs : Sound m) (record : ElementId) (revision : ℕ)
    (preview : ChangePreview) (h : previewDelete m.nexus m.product record revision = .ok preview) :
    ∀ target ∈ preview.targets, Covered m preview.excludedSources target.id := by
  obtain ⟨memory,found,keys,-,hclosure,htargets⟩ := preview_delete_ok h
  have hcovered := (closure_covered m hs 128 [] _ [] found _ _ (by simp) hclosure).2
  intro target ht
  rw [htargets] at ht
  exact hcovered target ((sort_by_perm _ found).mem_iff.mp ht)

theorem journal_step {m : Managed} (hs : Sound m) (product : ProductStore)
    (he : product.epoch = m.product.epoch) (hsup : product.suppressed = m.product.suppressed)
    (hsrc : product.sources = m.product.sources) (hp : product.pending = m.product.pending)
    (hchanges : ∀ key change, product.changes key = some change → change.delete = true →
      ∃ old, m.product.changes key = some old ∧ SameFence old change) :
    Deletes m { m with product } ∧ Sound { m with product } := by
  have hadvance : Advance m { m with product } :=
    ⟨Nexus.Follows.refl _,by simp [he],by simp [hsup],by simp [hsrc],fun h => .inl (hp ▸ h)⟩
  refine ⟨deletes_nothing hadvance fun _ => rfl,?_⟩
  refine sound_of_changes hs hadvance (by simp [hsrc]) (fun key change hc hd => ?_) fun key hk => ?_
  · exact .inl (hchanges key change hc hd)
  · left
    rw [← hp]
    exact hk

theorem put_expired_step {m : Managed} (hs : Sound m) (now : ℕ) (key : String)
    (stored : StoredChange) (h : m.product.changes key = some stored) :
    Deletes m { m with product := putChange m.product key (expire m.product now key stored) } ∧
      Sound { m with product := putChange m.product key (expire m.product now key stored) } := by
  refine journal_step hs _ rfl rfl rfl rfl fun other change hc _ => ?_
  rcases put_change_cases _ key other _ change hc with ⟨rfl,rfl⟩ | ⟨-,hold⟩
  · exact ⟨stored,h,expire_fence _ now other stored⟩
  · exact ⟨change,hold,SameFence.refl change⟩

theorem show_change_spec {m : Managed} (hs : Sound m) (now : ℕ) (key : String)
    (product : ProductStore) (change : StoredChange)
    (h : showChange m.nexus m.product now key = .ok (product,change)) :
    Deletes m { m with product } ∧ Sound { m with product } ∧
      product.changes key = some change ∧ product.pending = m.product.pending := by
  obtain ⟨stored,hc,rfl,rfl⟩ := show_change_ok h
  obtain ⟨hd,hsound⟩ := put_expired_step hs now key stored hc
  exact ⟨hd,hsound,by simp [putChange],rfl⟩

section
variable {engine : Engine} (digests : Digests)

theorem prepare_spec (hdoc : engine.Documented) {m : Managed} (hs : Sound m) (now : ℕ)
    (key : String) (record : ElementId) (revision : ℕ) : Deletes m
    (prepareDelete digests engine m now key record revision).1 ∧ Sound
    (prepareDelete digests engine m now key record revision).1 ∧ ∀ change,
    (prepareDelete digests engine m now key record revision).2 = .ok change →
    (prepareDelete digests engine m now key record revision).1.product.changes key = some change ∧
    change.delete = true := by
  have hstay : Deletes m m ∧ Sound m := ⟨Deletes.refl m,hs⟩
  unfold prepareDelete
  split
  · exact ⟨hstay.1,hstay.2,fun _ h => nomatch h⟩
  cases hc : m.product.changes key with
  | some old =>
    simp only
    have hput := put_expired_step hs now key old hc
    split
    · exact ⟨hput.1,hput.2,fun _ h => nomatch h⟩
    split
    · exact ⟨hput.1,hput.2,fun _ h => nomatch h⟩
    rename_i hmatch
    set product := putChange m.product key (expire m.product now key old) with hproduct
    cases hshow : showChange m.nexus product now key with
    | error e => exact ⟨hput.1,hput.2,fun _ h => nomatch h⟩
    | ok pair =>
      obtain ⟨shown,change⟩ := pair
      obtain ⟨hd,hsound,hchange,-⟩ :=
        show_change_spec (m := ⟨m.nexus,product⟩) hput.2 now key shown change hshow
      refine ⟨hput.1.trans hd,hsound,fun found h => ?_⟩
      cases h
      refine ⟨hchange,?_⟩
      -- the stored change is a deletion, and showing it keeps its kind
      have hold : old.delete = true := by
        simp only [Bool.not_eq_true', Bool.and_eq_false_iff, not_or, Bool.not_eq_false]
          at hmatch
        exact hmatch.1
      have hat : product.changes key = some (expire m.product now key old) := by
        simp [hproduct, putChange]
      obtain ⟨stored,hstored,rfl,-⟩ := show_change_ok hshow
      obtain rfl := Option.some.inj (hat.symm.trans hstored)
      rw [(expire_fence product now key _).delete, (expire_fence _ now key old).delete, hold]
  | none =>
    simp only
    split
    · exact ⟨hstay.1,hstay.2,fun _ h => nomatch h⟩
    cases hpreview : previewDelete m.nexus m.product record revision with
    | error e => exact ⟨hstay.1,hstay.2,fun _ h => nomatch h⟩
    | ok preview =>
      simp only
      have hfollows := hdoc.dryFollows m.nexus (deleteRequests preview)
      have hkeeps := hdoc.dryKeeps m.nexus (deleteRequests preview)
      generalize engine.dryRun m.nexus (deleteRequests preview) = x at hfollows hkeeps
      obtain ⟨nexus,answer⟩ := x
      have hadvance : ∀ product : ProductStore, product.epoch = m.product.epoch →
          product.suppressed = m.product.suppressed → product.sources = m.product.sources →
          product.pending = m.product.pending → Advance m ⟨nexus,product⟩ := by
        intro product he hsup hsrc hp
        exact ⟨hfollows,by simp [he],by simp [hsup],by simp [hsrc],fun h => .inl (hp ▸ h)⟩
      cases answer with
      | error e =>
        have ha := hadvance m.product rfl rfl rfl rfl
        refine ⟨deletes_nothing ha hkeeps,?_,fun _ h => nomatch h⟩
        exact sound_of_changes hs ha (fun _ _ h => h)
          (fun k change h _ => .inl ⟨change,h,SameFence.refl change⟩) fun k h => .inl h
      | ok u =>
        simp only
        have ha := hadvance
          (putChange m.product key
            { delete := true, record, revision, state := .prepared,
              previewDigest := digests.preview preview, expiresAt := now+previewMs, preview,
              statement := none, requests := true, completed := [],
              replacementRecord := none, sourceEvidence := none }) rfl rfl rfl rfl
        refine ⟨deletes_nothing ha hkeeps,?_,?_⟩
        · refine sound_of_changes hs ha (fun _ _ h => h) (fun other change hchange _ => ?_)
            fun k h => ?_
          · rcases put_change_cases _ key other _ change hchange with ⟨rfl,rfl⟩ | ⟨-,hold⟩
            · refine .inr ⟨preview_covered m hs record revision preview hpreview,fun hp => ?_⟩
              -- the pending change is stored, and this key was not
              have hfree := hp
              rename_i hcheck _
              exfalso
              unfold ProductStore.check at hcheck
              change m.product.pending = _ at hfree
              simp [hfree, fail] at hcheck
            · exact .inl ⟨change,hold,SameFence.refl change⟩
          · exact .inl h
        · intro change h
          cases h
          exact ⟨by simp [putChange],rfl⟩

theorem fence_step {m : Managed} (hs : Sound m) (key : String) (change : StoredChange)
    (hchange : m.product.changes key = some change) :
    Deletes m { m with product := fenceChange m.product key change } ∧
      Sound { m with product := fenceChange m.product key change } := by
  have hadvance : Advance m { m with product := fenceChange m.product key change } := by
    refine ⟨Nexus.Follows.refl _,?_,?_,fun _ _ h => h,fun _ => .inr ?_⟩
    · simp [fenceChange, putChange]
    · exact Finset.subset_union_left
    · simp [fenceChange, putChange]
  refine ⟨deletes_nothing hadvance fun _ => rfl,?_⟩
  refine sound_of_changes hs hadvance (fun _ _ h => h) (fun other found hfound _ => ?_)
    fun other hother => ?_
  · left
    rcases put_change_cases _ key other _ found hfound with ⟨rfl,rfl⟩ | ⟨-,hold⟩
    · exact ⟨change,hchange,rfl,rfl,rfl⟩
    · exact ⟨found,hold,SameFence.refl found⟩
  right
  intro found hfound _
  obtain rfl : key = other := by simpa [fenceChange, putChange] using hother
  rcases put_change_cases _ key key _ found hfound with ⟨-,rfl⟩ | ⟨hne,-⟩
  · exact Finset.subset_union_right
  · exact absurd rfl hne

variable (engine) in
def carried (m : Managed) (held : ProductStore) (now : ℕ) (key : String) (change : StoredChange) :
    Managed × Except Failure StoredChange :=
  let done := apply engine m.nexus held now key change
  (⟨done.1,done.2.1⟩,.ok done.2.2)

variable (engine) in
/-- How a commit ends: refused, answered from its receipt, or carried out behind its fence. -/
inductive CommitEnd (m : Managed) (now : ℕ) (key : String) (product : ProductStore)
    (change : StoredChange) : Managed × Except Failure StoredChange → Prop
  | refused (e : Failure) : CommitEnd m now key product change (⟨m.nexus,product⟩,.error e)
  | confirmed : CommitEnd m now key product change (⟨m.nexus,product⟩,.ok change)
  | resumed (h : product.pending = some key) : CommitEnd m now key product change
      (carried engine m (putChange product key { change with state := .committing }) now key
        { change with state := .committing })
  | fenced : CommitEnd m now key product change
      (carried engine m (fenceChange product key change) now key
        { change with state := .committing })

variable (engine) in
theorem commit_ends {m : Managed} {now : ℕ} {key : String} {product : ProductStore}
    {change : StoredChange} (digest : String)
    (h : showChange m.nexus m.product now key = .ok (product,change)) :
    CommitEnd engine m now key product change (commitDelete digests engine m now key digest) := by
  simp only [commitDelete, h]
  split
  · exact .refused _
  split
  · exact .confirmed
  split
  · exact .refused _
  rename_i hother
  split
  · exact .refused _
  split
  · rename_i hheld
    apply CommitEnd.resumed
    obtain ⟨held,hh⟩ := Option.isSome_iff_exists.mp hheld
    rw [hh] at hother ⊢
    simpa using hother
  split
  · exact .refused _
  split
  · exact .refused _
  split
  · exact .refused _
  split
  · exact .refused _
  exact .fenced

theorem commit_spec (hdoc : engine.Documented) {m : Managed} (hs : Sound m) (now : ℕ)
    (key digest : String)
    (hdelete : ∀ change, m.product.changes key = some change → change.delete = true) :
    Deletes m (commitDelete digests engine m now key digest).1 ∧
    Sound (commitDelete digests engine m now key digest).1 := by
  cases hshow : showChange m.nexus m.product now key with
  | error e =>
    simp only [commitDelete, hshow]
    exact ⟨Deletes.refl m,hs⟩
  | ok pair =>
    obtain ⟨product,change⟩ := pair
    have hend := commit_ends engine digests digest hshow
    generalize commitDelete digests engine m now key digest = result at hend
    obtain ⟨hshown,hsound,hchange,hpending⟩ := show_change_spec hs now key product change hshow
    have hkind : change.delete = true := by
      obtain ⟨stored,hc,rfl,-⟩ := show_change_ok hshow
      rw [(expire_fence _ now key stored).delete, hdelete stored hc]
    cases hend with
    | refused e => exact ⟨hshown,hsound⟩
    | confirmed => exact ⟨hshown,hsound⟩
    | resumed hkey =>
      -- the change was fenced by an earlier commit and is resumed
      set committing : StoredChange := { change with state := .committing } with hc
      obtain ⟨hput,hputSound⟩ := journal_step hsound (putChange product key committing)
        rfl rfl rfl rfl fun other found hfound _ => by
          rcases put_change_cases _ key other _ found hfound with ⟨rfl,rfl⟩ | ⟨-,hold⟩
          · exact ⟨change,hchange,rfl,rfl,rfl⟩
          · exact ⟨found,hold,SameFence.refl found⟩
      have hat : (putChange product key committing).changes key = some committing := by
        simp [putChange]
      have happly := apply_spec hdoc ⟨m.nexus,putChange product key committing⟩ now key
        committing hputSound hkey (hputSound.covered key committing hat hkind)
        (hputSound.fenced key committing hkey hat hkind)
      exact ⟨(hshown.trans hput).trans happly.1,happly.2.1⟩
    | fenced =>
      set committing : StoredChange := { change with state := .committing } with hc
      obtain ⟨hfence,hfenced⟩ := fence_step hsound key change hchange
      have hat : (fenceChange product key change).changes key =
          some committing := by
        simp [fenceChange, putChange, hc]
      have happly := apply_spec hdoc ⟨m.nexus,fenceChange product key change⟩ now
        key committing hfenced rfl
        (hfenced.covered key committing hat hkind)
        (hfenced.fenced key committing rfl hat hkind)
      exact ⟨(hshown.trans hfence).trans happly.1,happly.2.1⟩

theorem recover_spec (hdoc : engine.Documented) {m : Managed} (hs : Sound m) (now : ℕ)
    (hdelete : ∀ key change, m.product.pending = some key → m.product.changes key = some change →
      change.delete = true) :
    Deletes m (recoverChange engine m now) ∧ Sound (recoverChange engine m now) := by
  unfold recoverChange
  generalize hproduct : resumeScrub m.product now = product
  have hscrubbed : product.epoch = m.product.epoch ∧
      product.suppressed = m.product.suppressed ∧ product.sources = m.product.sources ∧
      product.pending = m.product.pending ∧ ∀ key change, product.changes key = some change →
        ∃ old, m.product.changes key = some old ∧ SameFence old change := by
    rw [← hproduct]
    unfold resumeScrub
    cases m.product.scrub with
    | none => exact ⟨rfl,rfl,rfl,rfl,fun key change h => ⟨change,h,SameFence.refl change⟩⟩
    | some scrub =>
      exact ⟨rfl,rfl,rfl,rfl,fun key change h => scrub_cases m.product now _ _ key change h⟩
  obtain ⟨he,hsup,hsrc,hp,hchanges⟩ := hscrubbed
  obtain ⟨hscrub,hsound⟩ := journal_step hs product he hsup hsrc hp
    fun key change h _ => hchanges key change h
  simp only
  split
  · exact ⟨hscrub,hsound⟩
  rename_i key hkey
  split
  · exact ⟨hscrub,hsound⟩
  rename_i stored hstored
  obtain ⟨old,hold,hsame⟩ := hchanges key stored hstored
  have hkind : stored.delete = true := by
    rw [hsame.delete]
    exact hdelete key old (hp ▸ hkey) hold
  have happly := apply_spec hdoc ⟨m.nexus,product⟩ now key stored hsound hkey
    (hsound.covered key stored hstored hkind) (hsound.fenced key stored hkey hstored hkind)
  exact ⟨hscrub.trans happly.1,happly.2.1⟩

theorem delete_claim_spec (hdoc : engine.Documented) {m : Managed} (hs : Sound m) (now : ℕ)
    (operation : String) (claim : ElementId) :
    Deletes m (deleteClaim digests engine m now operation claim).1 ∧
    Sound (deleteClaim digests engine m now operation claim).1 := by
  unfold deleteClaim
  cases readRecord m.nexus m.product claim with
  | error e => exact ⟨Deletes.refl m,hs⟩
  | ok record =>
    simp only
    obtain ⟨hprepare,hprepared,hchange⟩ := prepare_spec digests hdoc hs now
      (digests.changeKey operation) claim record.revision
    generalize prepareDelete digests engine m now (digests.changeKey operation) claim
      record.revision = x at hprepare hprepared hchange
    obtain ⟨next,answer⟩ := x
    cases answer with
    | error e => exact ⟨hprepare,hprepared⟩
    | ok prepared =>
      simp only
      obtain ⟨hstored,hkind⟩ := hchange prepared rfl
      obtain ⟨hcommit,hcommitted⟩ := commit_spec digests hdoc hprepared now
        (digests.changeKey operation) prepared.previewDigest fun change h => by
          rw [hstored] at h
          cases h
          exact hkind
      generalize commitDelete digests engine next now (digests.changeKey operation)
        prepared.previewDigest = y at hcommit hcommitted
      obtain ⟨last,answer⟩ := y
      cases answer with
      | error e => exact ⟨hprepare.trans hcommit,hcommitted⟩
      | ok confirmed =>
        simp only
        split <;> exact ⟨hprepare.trans hcommit,hcommitted⟩

theorem erase_claim_spec (hdoc : engine.Documented) (sweep : Sweep) (hs : Sound sweep.managed)
    (now : ℕ) (receiptRef : String) (claim : ElementId) :
    Deletes sweep.managed (eraseClaim digests engine now receiptRef sweep claim).1.managed ∧
    Sound (eraseClaim digests engine now receiptRef sweep claim).1.managed := by
  unfold eraseClaim
  split
  · exact ⟨Deletes.refl _,hs⟩
  have hdelete := delete_claim_spec digests hdoc hs now (operationOf receiptRef claim) claim
  generalize deleteClaim digests engine sweep.managed now (operationOf receiptRef claim) claim = x
    at hdelete
  obtain ⟨m,answer⟩ := x
  cases answer with
  | ok confirmed => exact hdelete
  | error e =>
    simp only
    split <;> exact hdelete

theorem erase_claims_spec (hdoc : engine.Documented) (claims : List ElementId) (sweep : Sweep)
    (hs : Sound sweep.managed) (now : ℕ) (receiptRef : String) :
    Deletes sweep.managed (eraseClaims digests engine now receiptRef sweep claims).1.managed ∧
    Sound (eraseClaims digests engine now receiptRef sweep claims).1.managed := by
  induction claims generalizing sweep with
  | nil => exact ⟨Deletes.refl _,hs⟩
  | cons claim rest ih =>
    obtain ⟨hd,hsound⟩ := erase_claim_spec digests hdoc sweep hs now receiptRef claim
    unfold eraseClaims
    generalize eraseClaim digests engine now receiptRef sweep claim = x at hd hsound
    obtain ⟨next,stop⟩ := x
    cases stop with
    | some e => exact ⟨hd,hsound⟩
    | none =>
      obtain ⟨hrest,hlast⟩ := ih next hsound
      exact ⟨hd.trans hrest,hlast⟩

end

end AndaBrain.WorkerMemory
