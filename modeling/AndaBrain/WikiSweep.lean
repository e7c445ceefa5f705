import AndaBrain.WikiSteps

/-!
# The orphan sweep

The sweep visits every document once. A document that it has visited keeps its published
versions and the chunks of the current one, and nothing else; the visits that follow do
not touch its rows.
-/

set_option autoImplicit false

namespace AndaBrain.WikiSweep
open Foundation Foundation.Resumption Foundation.Utf8Text
open WikiStore WikiLedger
open WikiSteps

structure Clean (w : World) (docId : ℕ) (doc : WikiDoc) : Prop where
  chunks : ∀ id row, w.chunks.get id = some row → row.docId = docId →
    row.versionId = doc.currentVersion ∧ row.current = (doc.status == .active)
  versions : ∀ id v, w.versions.get id = some v → v.docId = docId →
    ∃ ids, Published w docId ids ∧ id ∈ ids

structure Apart (docId : ℕ) (w t : World) : Prop where
  docs : ∀ id, id ≠ docId → t.docs.get id = w.docs.get id
  less : ∀ id doc, t.docs.get id = some doc → w.docs.get id = some doc
  chunks : ∀ id row, t.chunks.get id = some row → row.docId ≠ docId → w.chunks.get id = some row
  versions : ∀ id v, t.versions.get id = some v → v.docId ≠ docId → w.versions.get id = some v

theorem clean_apart (w t : World) (docId other : ℕ) (doc : WikiDoc) (h : Clean w other doc)
    (hne : other ≠ docId) (ha : Apart docId w t) (he : Evolves w t) : Clean t other doc := by
  constructor
  · rintro id row hrow rfl
    exact h.chunks id row (ha.chunks id row hrow hne) rfl
  rintro id v hv rfl
  obtain ⟨ids,hids,hid⟩ := h.versions id v (ha.versions id v hv hne) rfl
  obtain ⟨-,more,hmore⟩ := he.kept v.docId ids hids
  exact ⟨more++ids,hmore,List.mem_append_right _ hid⟩

section Visit
variable {svc : WikiService} {P : Table WikiDoc → Text → Text → Option ℕ → Prop}
  {A : ℕ → ℕ → Prop} {w : World}

theorem reads_all_chunks (docId : ℕ) :
    Reads (fun found => ∀ id, id ∈ found ↔ ∃ row, w.chunks.get id = some row ∧ row.docId = docId)
      (allChunkIdsOf svc docId) w := by
  apply reads_mono _ (reads_scan World.chunks _)
  intro found h id
  simpa using h id

theorem reads_versions_of (docId : ℕ) :
    Reads (fun found => ∀ id, id ∈ found ↔ ∃ v, w.versions.get id = some v ∧ v.docId = docId)
      (versionIdsOf svc docId) w := by
  apply reads_mono _ (reads_scan World.versions _)
  intro found h id
  simpa using h id

theorem sentinel_unpublished (docId : ℕ) (doc : WikiDoc) (hdoc : w.docs.get docId = some doc)
    (hzero : doc.currentVersion = 0) (id : ℕ) (v : WikiVersion)
    (hv : w.versions.get id = some v) (hd : v.docId = docId) : Unpublished w id := by
  intro other ids hp hid
  have heq := published_owner docId other ids id v hp hid hv hd
  subst heq
  exact published_nonzero other ids doc hp hdoc hzero

theorem keeps_sentinel (docId : ℕ) (doc : WikiDoc) (hdoc : w.docs.get docId = some doc)
    (hzero : doc.currentVersion = 0) :
    Keeps svc P A (fun _ t => Apart docId w t) (sweepSentinel svc docId) w := by
  apply keeps_read _ _ (reads_versions_of docId)
  intro versions hversions
  have hunpublished : ∀ id ∈ versions, Unpublished w id := by
    intro id hid
    obtain ⟨v,hv,hd⟩ := (hversions id).mp hid
    exact sentinel_unpublished docId doc hdoc hzero id v hv hd
  apply keeps_bind
  apply keeps_mono _ (keeps_drop_versions versions hunpublished)
  rintro _ t rfl
  apply keeps_read _ _ (reads_all_chunks docId)
  intro chunks hchunks
  have hloose : ∀ id ∈ chunks, Loose { w with versions := dropAll w.versions versions } id := by
    intro id hid row found hrow hfound hne
    obtain ⟨other,hother,rfl⟩ := (hchunks id).mp hid
    have heq : some row = some other := hrow.symm.trans hother
    cases heq
    have hsame : some found = some doc := hfound.symm.trans hdoc
    cases hsame
    exact absurd hzero hne
  apply keeps_bind
  apply keeps_mono _ (keeps_drop_chunks chunks hloose)
  rintro _ t rfl
  apply keeps_bind
  apply keeps_write
  · apply Change.dropDoc
    intro found hfound
    have hsame : some found = some doc := hfound.symm.trans hdoc
    cases hsame
    exact hzero
  intro _ _
  constructor
  · intro id hid
    show (w.docs.remove docId).get id = _
    rw [Table.get_remove, if_neg hid]
  · intro id found hfound
    rw [Table.get_remove] at hfound
    split at hfound
    · cases hfound
    · exact hfound
  · intro id row hrow _
    rw [get_drop_all] at hrow
    split at hrow
    · cases hrow
    · exact hrow
  · intro id v hv _
    rw [get_drop_all] at hv
    split at hv
    · cases hv
    · exact hv

theorem published_without (id docId : ℕ) (ids : List ℕ) (h : Published w docId ids)
    (hid : id ∉ ids) : Published { w with versions := w.versions.remove id } docId ids := by
  obtain ⟨doc,hdoc,hhead,hchain⟩ := h
  refine ⟨doc,hdoc,hhead,chain_kept _ ids hchain ?_⟩
  intro i hi
  have hne : i ≠ id := by
    rintro rfl
    exact hid hi
  show (w.versions.remove id).get i = _
  rw [Table.get_remove, if_neg hne]

/-- The versions of crashed commits. Their chunks go with them, as far as one search
finds them. -/
theorem keeps_orphans (docId : ℕ) (doc : WikiDoc) (ids orphans : List ℕ)
    (hdoc : w.docs.get docId = some doc) (hids : Published w docId ids)
    (horphans : ∀ id ∈ orphans, id ∉ ids ∧ ∀ v, w.versions.get id = some v → v.docId = docId) :
    Keeps svc P A (fun _ t => t.docs = w.docs ∧ t.versions = dropAll w.versions orphans ∧
      ∀ id row, t.chunks.get id = some row → w.chunks.get id = some row)
      (sweepVersions svc docId orphans) w := by
  induction orphans generalizing w with
  | nil => exact ⟨rfl,rfl,fun _ _ h => h⟩
  | cons version rest ih =>
    obtain ⟨hout,howner⟩ := horphans version (by simp)
    apply keeps_read _ _ (reads_chunk_ids _ _)
    rintro chunks rfl
    apply keeps_bind
    have hcur : doc.currentVersion ≠ version := by
      rintro rfl
      exact hout (List.mem_of_mem_head? (published_head docId ids doc hids hdoc))
    apply keeps_mono _ (keeps_drop_chunks _ (superseded_loose docId version doc hdoc hcur))
    rintro _ t rfl
    apply keeps_bind
    have hunpublished : Unpublished w version := by
      intro other chain hchain hin
      obtain ⟨v,hv,-⟩ := chain_row chain hchain.choose_spec.2.2 version hin
      have heq := published_owner docId other chain version v hchain hin hv (howner v hv)
      subst heq
      rw [published_unique other chain ids hchain hids] at hin
      exact hout hin
    apply keeps_write
    · exact Change.dropVersion _ version hunpublished
    intro _ _
    apply keeps_bind
    have hids' := published_without version docId ids hids hout
    apply keeps_mono _ (ih (w := { w with
      versions := w.versions.remove version
      chunks := dropAll w.chunks ((w.chunks.select fun _ row =>
        row.docId == docId && row.versionId == version).take svc.searchLimit) }) hdoc hids' ?_)
    · rintro _ t ⟨hdocs,hversions,hchunks⟩
      refine ⟨hdocs,hversions,?_⟩
      intro id row hrow
      have hless := hchunks id row hrow
      rw [get_drop_all] at hless
      split at hless
      · cases hless
      · exact hless
    · intro id hid
      obtain ⟨hnot,hown⟩ := horphans id (by simp [hid])
      refine ⟨hnot,?_⟩
      intro v hv
      rw [Table.get_remove] at hv
      split at hv
      · cases hv
      · exact hown v hv

theorem current_ids (hok : Ok svc w) (docId : ℕ) (doc : WikiDoc)
    (hdoc : w.docs.get docId = some doc) (hne : doc.currentVersion ≠ 0) (id : ℕ) :
    id ∈ (w.chunks.select fun _ row => row.docId == docId && row.versionId == doc.currentVersion).take
        svc.searchLimit ↔
      ∃ row, w.chunks.get id = some row ∧ row.docId = docId ∧ row.versionId = doc.currentVersion := by
  obtain ⟨v,hv,hrows⟩ := hok.tiled docId doc hdoc hne
  have hlen := (rows_of_tiles v _ (hok.versions _ v hv).nonempty hrows).2
  rw [List.length_map] at hlen
  have hall : (w.chunks.select fun _ row =>
      row.docId == docId && row.versionId == doc.currentVersion).length ≤ svc.searchLimit := by
    refine Nat.le_trans ?_ (hlen.trans svc.searchLimit_ok)
    simp [Table.select, storedRows]
  rw [List.take_of_length_le hall, Table.mem_select]
  simp

theorem keeps_sweep_chunks (hok : Ok svc w) (docId : ℕ) (doc : WikiDoc)
    (hdoc : w.docs.get docId = some doc) (hne : doc.currentVersion ≠ 0) :
    Keeps svc P A (fun _ t => t.docs = w.docs ∧ t.versions = w.versions ∧
      (∀ id row, t.chunks.get id = some row → row.docId = docId →
        row.versionId = doc.currentVersion ∧ row.current = (doc.status == .active)) ∧
      ∀ id row, t.chunks.get id = some row → row.docId ≠ docId → w.chunks.get id = some row)
      (sweepChunks svc docId doc) w := by
  apply keeps_read _ _ (reads_chunk_ids _ _)
  rintro keep rfl
  apply keeps_read _ _ (reads_all_chunks docId)
  intro all hall
  have hsuperseded : ∀ id, id ∈ all.filter (!((w.chunks.select fun _ row =>
      row.docId == docId && row.versionId == doc.currentVersion).take svc.searchLimit).contains ·) ↔
      ∃ row, w.chunks.get id = some row ∧ row.docId = docId ∧
        row.versionId ≠ doc.currentVersion := by
    intro id
    have hkeep := current_ids hok docId doc hdoc hne id
    rw [List.mem_filter, hall]
    simp only [Bool.not_eq_true', List.contains_eq_mem, decide_eq_false_iff_not, hkeep]
    constructor
    · rintro ⟨⟨row,hrow,hd⟩,hout⟩
      exact ⟨row,hrow,hd,fun hv => hout ⟨row,hrow,hd,hv⟩⟩
    rintro ⟨row,hrow,hd,hv⟩
    refine ⟨⟨row,hrow,hd⟩,?_⟩
    rintro ⟨other,hother,-,hcur⟩
    rw [hrow] at hother
    cases hother
    exact hv hcur
  generalize all.filter (!((w.chunks.select fun _ row =>
      row.docId == docId && row.versionId == doc.currentVersion).take svc.searchLimit).contains ·) =
    superseded at hsuperseded ⊢
  have hloose : ∀ id ∈ superseded, Loose w id := by
    intro id hid row found hrow hfound _
    obtain ⟨other,hother,rfl,hv⟩ := (hsuperseded id).mp hid
    rw [hrow] at hother
    cases hother
    rw [hdoc] at hfound
    cases hfound
    exact hv.symm
  apply keeps_bind
  apply keeps_mono _ (keeps_drop_chunks superseded hloose)
  rintro _ t rfl
  apply keeps_read _ _ (reads_scan World.chunks _)
  intro mismatched hmismatched
  apply keeps_bind
  apply keeps_mono _ (keeps_mark _ mismatched)
  rintro _ t rfl
  have hleft : ∀ id row, (dropAll w.chunks superseded).get id = some row →
      w.chunks.get id = some row ∧ (row.docId = docId → row.versionId = doc.currentVersion) := by
    intro id row hrow
    rw [get_drop_all] at hrow
    split at hrow
    · cases hrow
    rename_i hout
    refine ⟨hrow,fun hd => ?_⟩
    by_contra hv
    exact hout ((hsuperseded id).mpr ⟨row,hrow,hd,hv⟩)
  refine ⟨rfl,rfl,?_,?_⟩
  · intro id row hrow hd
    rw [get_mark_all] at hrow
    split at hrow
    · obtain ⟨old,hold,rfl⟩ := Option.map_eq_some_iff.mp hrow
      exact ⟨(hleft id old hold).2 hd,rfl⟩
    rename_i hout
    have hv := (hleft id row hrow).2 hd
    refine ⟨hv,?_⟩
    by_contra hcur
    apply hout
    refine (hmismatched id).mpr ⟨row,hrow,?_⟩
    simp only [hd, hv, BEq.rfl, Bool.true_and]
    cases hrc : row.current <;> cases hst : (doc.status == DocStatus.active) <;> simp_all
  · intro id row hrow hd
    rw [get_mark_all] at hrow
    split at hrow
    · rename_i hin
      obtain ⟨old,hold,rfl⟩ := Option.map_eq_some_iff.mp hrow
      obtain ⟨other,hother,hp⟩ := (hmismatched id).mp hin
      have heq : some old = some other := hold.symm.trans hother
      cases heq
      simp only [Bool.and_eq_true, beq_iff_eq] at hp
      exact absurd hp.1.1 hd
    · exact (hleft id row hrow).1

theorem keeps_sweep_doc (hok : Ok svc w) (docId : ℕ) (doc : WikiDoc) (now : ℕ)
    (hdoc : w.docs.get docId = some doc) :
    Keeps svc P A (fun _ t => Apart docId w t ∧
      (doc.currentVersion ≠ 0 → Clean t docId doc)) (sweepDoc svc docId doc now) w := by
  apply safe_ite
  · intro hzero
    apply safe_ite
    · intro _
      apply keeps_mono _ (keeps_sentinel docId doc hdoc hzero)
      exact fun _ t h => ⟨h,fun hne => absurd hzero hne⟩
    · intro _
      exact ⟨⟨fun _ _ => rfl,fun _ _ h => h,fun _ _ h _ => h,fun _ _ h _ => h⟩,
        fun hne => absurd hzero hne⟩
  intro hne
  obtain ⟨ids,hids⟩ := hok.chains docId doc hdoc hne
  have hhead := published_head docId ids doc hids hdoc
  apply keeps_read _ _ (reads_published docId doc ids hids.choose_spec.2.2 hhead)
  rintro found rfl
  apply keeps_read _ _ (reads_versions_of docId)
  intro versions hversions
  have horphans : ∀ id ∈ versions.filter (!found.contains ·), id ∉ found ∧
      ∀ v, w.versions.get id = some v → v.docId = docId := by
    intro id hid
    obtain ⟨hin,hout⟩ := List.mem_filter.mp hid
    refine ⟨by simpa using hout,?_⟩
    intro v hv
    obtain ⟨u,hu,hd⟩ := (hversions id).mp hin
    rw [hv] at hu
    cases hu
    exact hd
  apply keeps_bind
  apply keeps_mono _ (keeps_ok _ hok (keeps_orphans docId doc found _ hdoc hids horphans))
  rintro _ middle ⟨⟨hdocs,hleft,hchunks⟩,hok',hevolves⟩
  have hdoc' : middle.docs.get docId = some doc := by
    rw [hdocs]
    exact hdoc
  apply keeps_bind
  apply keeps_mono _ (keeps_sweep_chunks hok' docId doc hdoc' hne)
  rintro _ t ⟨htdocs,htversions,hclean,hothers⟩
  have hsame : t.docs = w.docs := htdocs.trans hdocs
  have hless : ∀ id v, t.versions.get id = some v →
      w.versions.get id = some v ∧ id ∉ versions.filter (!found.contains ·) := by
    intro id v hv
    rw [htversions, hleft, get_drop_all] at hv
    split at hv
    · cases hv
    · rename_i hout
      exact ⟨hv,hout⟩
  refine ⟨⟨?_,?_,?_,?_⟩,fun _ => ⟨hclean,?_⟩⟩
  · intro id _
    rw [hsame]
  · intro id d hd
    rw [← hsame]
    exact hd
  · intro id row hrow hd
    exact hchunks id row (hothers id row hrow hd)
  · intro id v hv _
    exact (hless id v hv).1
  intro id v hv hd
  obtain ⟨hw,hout⟩ := hless id v hv
  obtain ⟨-,more,d,hmd,hhead',hchain⟩ := hevolves.kept docId found hids
  refine ⟨more++found,⟨d,by rw [htdocs]; exact hmd,hhead',by rw [htversions]; exact hchain⟩,?_⟩
  -- a version that is left is no orphan
  have hin : id ∈ versions := (hversions id).mpr ⟨v,hw,hd⟩
  have hfound : id ∈ found := by
    by_contra hnot
    exact hout (List.mem_filter.mpr ⟨hin,by simpa using hnot⟩)
  exact List.mem_append_right _ hfound

end Visit

section Pages
variable {svc : WikiService} {P : Table WikiDoc → Text → Text → Option ℕ → Prop}
  {A : ℕ → ℕ → Prop} {w : World}

theorem reads_docs (ids : List ℕ) :
    Reads (fun docs => docs.map Prod.fst = ids ∧ ∀ d ∈ docs, w.docs.get d.1 = some d.2)
      (getDocs svc ids) w := by
  induction ids with
  | nil => exact ⟨rfl,fun _ h => nomatch h⟩
  | cons id ids ih =>
    apply reads_bind _ _ (reads_row .docs World.docs id)
    intro doc hdoc
    apply reads_bind _ _ ih
    rintro docs ⟨hids,hrows⟩
    refine ⟨by simp [hids],?_⟩
    intro d hd
    rcases List.mem_cons.mp hd with rfl | hd
    · exact hdoc
    · exact hrows d hd

def CleanFrom (w : World) (bound : ℕ) : Prop :=
  ∀ id doc, w.docs.get id = some doc → bound ≤ id → doc.currentVersion ≠ 0 → Clean w id doc

/-- The visits of a page clean its documents and leave the others as clean as they were. -/
theorem keeps_sweep_docs (hok : Ok svc w) (now : ℕ) (docs : List (ℕ × WikiDoc))
    (hrows : ∀ d ∈ docs, w.docs.get d.1 = some d.2) (hnodup : (docs.map Prod.fst).Nodup) :
    Keeps svc P A (fun _ t => Ok svc t ∧ (∀ id doc, t.docs.get id = some doc → w.docs.get id = some doc) ∧
      ∀ id doc, t.docs.get id = some doc → doc.currentVersion ≠ 0 →
        id ∈ docs.map Prod.fst ∨ Clean w id doc → Clean t id doc) (sweepDocs svc now docs) w := by
  induction docs generalizing w with
  | nil => exact ⟨hok,fun _ _ h => h,fun _ _ _ _ h => h.resolve_left List.not_mem_nil⟩
  | cons d docs ih =>
    obtain ⟨docId,doc⟩ := d
    have hdoc : w.docs.get docId = some doc := hrows (docId,doc) (by simp)
    obtain ⟨hout,hrest⟩ := List.nodup_cons.mp hnodup
    apply keeps_bind
    apply keeps_mono _ (keeps_ok _ hok (keeps_sweep_doc hok docId doc now hdoc))
    rintro _ middle ⟨⟨hapart,hclean⟩,hok',hevolves⟩
    apply keeps_bind
    have hrows' : ∀ d ∈ docs, middle.docs.get d.1 = some d.2 := by
      intro d hd
      have hne : d.1 ≠ docId := fun heq => hout (List.mem_map.mpr ⟨d,hd,heq⟩)
      rw [hapart.docs d.1 hne]
      exact hrows d (by simp [hd])
    apply keeps_mono _ (ih hok' hrows' hrest)
    rintro _ t ⟨hokt,hless,hkeep⟩
    refine ⟨hokt,fun id d hd => hapart.less id d (hless id d hd),?_⟩
    intro id found hfound hne hcase
    apply hkeep id found hfound hne
    by_cases hid : id = docId
    · subst hid
      have heq : w.docs.get id = some found := hapart.less id found (hless id found hfound)
      rw [hdoc] at heq
      cases heq
      exact Or.inr (hclean hne)
    · rcases hcase with hin | hw
      · rcases List.mem_cons.mp hin with heq | hin
        · exact absurd heq hid
        · exact Or.inl hin
      · exact Or.inr (clean_apart w middle docId id found hw hid hapart hevolves)

theorem keeps_sweep_pages (hok : Ok svc w) (now fuel cursor : ℕ) (hfuel : cursor ≤ fuel)
    (h : CleanFrom w cursor) :
    Keeps svc P A (fun _ t => CleanFrom t 0) (sweepPages svc now fuel cursor) w := by
  induction fuel generalizing w cursor with
  | zero =>
    have hc : cursor = 0 := by omega
    rw [hc] at h
    exact h
  | succ fuel ih =>
    apply keeps_read _ _ (reads_ok fun w =>
      lastIds (w.docs.select fun id _ => decide (id < cursor)) scanPage)
    intro page hpages
    apply keeps_read _ _ (reads_docs _)
    rintro docs ⟨hids,hrows⟩
    have hsorted := w.docs.select_sorted fun id _ => decide (id < cursor)
    have hselect : ∀ id, id ∈ w.docs.select (fun id _ => decide (id < cursor)) ↔
        (∃ doc, w.docs.get id = some doc) ∧ id < cursor := by
      intro id
      rw [Table.mem_select]
      simp
    split
    · rename_i hnone
      rw [hpages] at hnone
      have hempty := last_ids_none _ _ (by decide) hnone
      intro id doc hdoc _ hne
      by_cases hc : id < cursor
      · have hin := (hselect id).mpr ⟨⟨doc,hdoc⟩,hc⟩
        rw [hempty] at hin
        cases hin
      · exact h id doc hdoc (by omega) hne
    rename_i first hfirst
    rw [hpages] at hfirst hids
    have hpage := fun id => mem_last_ids _ _ first id hsorted hfirst
    have hnodup : (docs.map Prod.fst).Nodup := by
      rw [hids]
      exact (hsorted.imp fun h => Nat.ne_of_lt h).sublist (List.drop_sublist _ _)
    apply keeps_bind
    apply keeps_mono _ (keeps_sweep_docs hok now docs hrows hnodup)
    rintro report t ⟨hokt,hless,hclean⟩
    have hfirst' : CleanFrom t first := by
      intro id doc hdoc hle hne
      apply hclean id doc hdoc hne
      by_cases hc : id < cursor
      · rw [hids, hpage, hselect]
        exact Or.inl ⟨⟨⟨doc,hless id doc hdoc⟩,hc⟩,hle⟩
      · exact Or.inr (h id doc (hless id doc hdoc) (by omega) hne)
    apply safe_ite
    · intro hshort id doc hdoc _ hne
      rw [hpages] at hshort
      apply hclean id doc hdoc hne
      by_cases hc : id < cursor
      · rw [hids, last_ids_all _ _ hshort, hselect]
        exact Or.inl ⟨⟨doc,hless id doc hdoc⟩,hc⟩
      · exact Or.inr (h id doc (hless id doc hdoc) (by omega) hne)
    · intro _
      have hin := (hpage first).mp (List.mem_of_mem_head? hfirst)
      have hlt := ((hselect first).mp hin.1).2
      apply keeps_bind
      apply keeps_mono _ (ih hokt first (by omega) hfirst')
      exact fun _ _ h => h

theorem keeps_sweep (hok : Ok svc w) (now : ℕ) :
    Keeps svc P A (fun _ t => CleanFrom t 0) (orphanSweep svc now) w := by
  apply keeps_read _ _ (reads_peek _ (Q := fun cursor => cursor = w.docs.last+1) rfl)
  rintro cursor rfl
  apply keeps_bind
  have hstart : CleanFrom w (w.docs.last+1) := by
    intro id doc hdoc hle
    have := Table.get_bound w.docs id doc hdoc
    omega
  apply keeps_mono _ (keeps_sweep_pages hok now _ _ (Nat.le_refl _) hstart)
  intro report t ht
  apply keeps_bind
  apply keeps_mono (Q := fun _ t => CleanFrom t 0)
  · apply safe_do_if
    · intro _
      apply keeps_bind
      apply keeps_write _ _ (.log t _)
      intro _ _
      exact fun id doc hdoc hle hne => ⟨(ht id doc hdoc hle hne).chunks,(ht id doc hdoc hle hne).versions⟩
    · intro _
      exact ht
  · intro _ _ h
    exact h

end Pages

end AndaBrain.WikiSweep
