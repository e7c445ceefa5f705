import AndaBrain.WikiIdentity
import AndaBrain.WikiSlugs

/-!
# Importing a bundle again

A file is looked up under the slug of its path and created under the slug that `unique_slug`
chooses.
-/

set_option autoImplicit false

namespace AndaBrain.WikiReplay
open Foundation Foundation.Resumption Foundation.Utf8Text
open WikiText WikiStore
open WikiSteps WikiOkf WikiQuiet WikiIdentity

section Plans
variable {svc : WikiService} {yaml : Yaml} {ns slug : Text} {entry : BundleEntry} {p : Prepared}

/-- The commit of an entry that can be imported, with the slug it is looked up under. -/
def planned (svc : WikiService) (yaml : Yaml) (ns : Text) (entry : BundleEntry) :
    Option (Text × Prepared) :=
  (conceptPath entry.path).bind fun concept =>
    match importInput svc yaml ns concept entry with
    | .error _ => none
    | .ok input =>
      match prepareCommit svc input with
      | .error _ => none
      | .ok p => some (slugifyPath svc.toLibrary concept,p)

theorem planned_some (h : planned svc yaml ns entry = some (slug,p)) : ∃ concept input, conceptPath
    entry.path = some concept ∧ importInput svc yaml ns concept entry = .ok input ∧ prepareCommit
    svc input = .ok p ∧ slug = slugifyPath svc.toLibrary concept := by
  unfold planned at h
  obtain ⟨concept,hconcept,h⟩ := Option.bind_eq_some_iff.mp h
  split at h
  · cases h
  rename_i input hinput
  split at h
  · cases h
  · rename_i q hq
    cases h
    exact ⟨concept,input,hconcept,hinput,hq,rfl⟩

theorem planned_of (concept : Text) (input : CommitInput)
    (hconcept : conceptPath entry.path = some concept)
    (hinput : importInput svc yaml ns concept entry = .ok input) (hp : prepareCommit svc input = .ok p) :
    planned svc yaml ns entry = some (slugifyPath svc.toLibrary concept,p) := by
  simp only [planned, hconcept, Option.bind_some, hinput, hp]

structure Asked (ns slug : Text) (input : CommitInput) : Prop where
  docId : input.docId = none
  ns : input.ns = some ns
  slug : input.slug = some slug
  label : input.aclLabel = none
  tags : ∃ tags, input.tags = some tags
  uri : ∃ uri, input.sourceUri = some uri
  metadata : ∃ metadata, input.metadata = some metadata

theorem import_input_shape (concept : Text) (input : CommitInput)
    (h : importInput svc yaml ns concept entry = .ok input) :
    ∃ title tags uri message metadata, input =
      { docId := none
        parentVersion := none
        ns := some ns
        slug := some (slugifyPath svc.toLibrary concept)
        title := title
        content := (splitFrontmatter entry.content).2
        tags := some tags
        aclLabel := none
        sourceUri := some uri
        message := some message
        metadata := some metadata } := by
  rw [importInput] at h
  obtain ⟨fields,-,h⟩ := except_bind_ok _ _ _ h
  obtain ⟨⟨title,fields⟩,-,h⟩ := except_bind_ok _ _ _ h
  obtain ⟨⟨tags,fields⟩,-,h⟩ := except_bind_ok _ _ _ h
  obtain ⟨⟨resource,fields⟩,-,h⟩ := except_bind_ok _ _ _ h
  obtain ⟨⟨kind,fields⟩,-,h⟩ := except_bind_ok _ _ _ h
  exact ⟨_,_,_,_,_,(Except.ok.inj h).symm⟩

theorem normalize_opt_self (text : Text) (hne : text ≠ []) (htrim : trim text = text) :
    normalizeOpt (some text) = some text := by
  simp [normalizeOpt, htrim, hne]

theorem planned_asked (hne : ns ≠ []) (htrim : trim ns = ns)
    (h : planned svc yaml ns entry = some (slug,p)) :
    Asked ns slug p.input ∧ slugifyPath svc.toLibrary slug = slug := by
  obtain ⟨concept,input,-,hinput,hp,rfl⟩ := planned_some h
  obtain ⟨title,tags,uri,message,metadata,rfl⟩ := import_input_shape concept input hinput
  have hpath : WikiSlugs.PlainPath svc.toLibrary (slugifyPath svc.toLibrary concept) :=
    WikiSlugs.slugify_path_plain concept
  rw [(prepare_ok _ p hp).2.1]
  refine ⟨⟨rfl,normalize_opt_self ns hne htrim,?_,rfl,⟨_,rfl⟩,⟨_,rfl⟩,⟨_,rfl⟩⟩,
    WikiSlugs.slugify_path_twice concept⟩
  exact normalize_opt_self _ (WikiSlugs.plain_path_nonempty _ hpath)
    (WikiSlugs.trim_eq_self _ (WikiSlugs.plain_path_no_space _ hpath))

theorem ends_unplanned (actor : Text) (now : ℕ) (w : World) (h : planned svc yaml ns entry = none) :
    ∃ r, Ends (importEntry svc yaml actor ns entry now) w r w ∧ ∀ d, r ≠ .ok (some d) := by
  unfold planned at h
  unfold importEntry
  cases hconcept : conceptPath entry.path with
  | none => exact ⟨_,yields_ret none,nofun⟩
  | some concept =>
    simp only [hconcept, Option.bind_some] at h
    cases hinput : importInput svc yaml ns concept entry with
    | error e => exact ⟨_,yields_bind_error (yields_lift_eq hinput),nofun⟩
    | ok input =>
      simp only [hinput] at h
      cases hp : prepareCommit svc input with
      | error e => 
        exact ⟨_,yields_bind (yields_lift_eq hinput) (yields_bind_error (yields_lift_eq hp)),nofun⟩
      | ok p => simp [hp] at h

theorem ends_planned (actor : Text) (now : ℕ) (w t : World) (r : Except WikiError ImportedDoc)
    (h : planned svc yaml ns entry = some (slug,p))
    (hp : Ends (importPrepared svc actor ns slug entry.path p now) w r t) :
    Ends (importEntry svc yaml actor ns entry now) w (r.map some) t := by
  obtain ⟨concept,input,hconcept,hinput,hprep,rfl⟩ := planned_some h
  unfold importEntry
  rw [hconcept]
  apply yields_bind (yields_lift_eq hinput)
  apply yields_bind (yields_lift_eq hprep)
  cases r with
  | error e => exact yields_bind_error hp
  | ok d => exact yields_bind hp (yields_ret _)

end Plans

section Merge

theorem lookup_merge (stored imported : Metadata) (key : Text) :
    (mergeMetadata stored imported).lookup key = (imported.lookup key).or
      (if key = frontmatterKey ∨ key = okfTypeKey then none else stored.lookup key) := by
  have hrest : ((stored.erase frontmatterKey).erase okfTypeKey).lookup key =
      if key = frontmatterKey ∨ key = okfTypeKey then none else stored.lookup key := by
    by_cases ht : key = okfTypeKey
    · rw [ht, Finmap.lookup_erase, if_pos (Or.inr rfl)]
    rw [Finmap.lookup_erase_ne ht]
    by_cases hf : key = frontmatterKey
    · rw [hf, Finmap.lookup_erase, if_pos (Or.inl rfl)]
    · rw [Finmap.lookup_erase_ne hf, if_neg (by simp [hf, ht])]
  rw [mergeMetadata, ← hrest]
  by_cases hkey : key ∈ imported
  · obtain ⟨value,hvalue⟩ := Finmap.mem_iff.mp hkey
    rw [Finmap.lookup_union_left hkey, hvalue]
    rfl
  · rw [Finmap.lookup_union_right hkey, Finmap.lookup_eq_none.mpr hkey]
    rfl

theorem merge_twice (stored imported : Metadata) :
    mergeMetadata (mergeMetadata stored imported) imported = mergeMetadata stored imported := by
  apply Finmap.ext_lookup
  intro key
  simp only [lookup_merge]
  cases imported.lookup key <;> split <;> simp [*]

theorem merge_self (imported : Metadata) : mergeMetadata imported imported = imported := by
  apply Finmap.ext_lookup
  intro key
  rw [lookup_merge]
  cases imported.lookup key <;> split <;> simp

end Merge

section Outcome
variable {svc : WikiService} {ns slug : Text} {p : Prepared} {docs docs' : Table WikiDoc}

structure Mirrors (p : Prepared) (ns slug : Text) (doc : WikiDoc) : Prop where
  checksum : doc.currentChecksum = p.checksum
  title : doc.title = p.input.title
  tags : p.input.tags = some doc.tags
  ns : doc.ns = ns
  slug : doc.slug = slug
  uri : p.input.sourceUri.map (fun uri => if uri.isEmpty then none else some uri) = some doc.sourceUri
  metadata : mergeMetadata doc.metadata (p.input.metadata.getD ∅) = doc.metadata

theorem mirrors_unchanged (hasked : Asked ns slug p.input)
    (hslug : slugifyPath svc.toLibrary slug = slug) (id : ℕ) (doc : WikiDoc)
    (h : Mirrors p ns slug doc) :
    unchanged svc (mergedInput p.input id doc) p.checksum doc = true := by
  obtain ⟨uri,huri⟩ := hasked.uri
  have hsource := h.uri
  rw [huri] at hsource
  have hstored : doc.sourceUri = if uri.isEmpty then none else some uri :=
    (Option.some.inj hsource).symm
  simp only [unchanged, mergedInput, h.checksum, h.title, h.tags, hasked.label, hasked.ns, h.ns,
    hasked.slug, h.slug, huri, h.metadata]
  by_cases hempty : uri = []
  · simp [hslug, hstored, hempty]
  · simp [hslug, hstored, hempty]

def Settled (svc : WikiService) (ns slug : Text) (p : Prepared) (docs : Table WikiDoc) : Prop :=
  ∃ id doc, slugOwner docs ns slug = some id ∧ docs.get id = some doc ∧
    (doc.currentVersion = 0 ∨ doc.status = .archived ∨
      (∃ e, (mergedInput p.input id doc).validate svc = .error e) ∨
      unchanged svc (mergedInput p.input id doc) p.checksum doc = true)

inductive Filed (svc : WikiService) (ns slug : Text) (p : Prepared) :
    Table WikiDoc → Table WikiDoc → Prop
  | still (docs : Table WikiDoc) (h : Settled svc ns slug p docs) : Filed svc ns slug p docs docs
  | fresh (docs : Table WikiDoc) (doc : WikiDoc) (now : ℕ) (hnone : slugOwner docs ns slug = none)
      (hns : doc.ns = ns) (hsel : Selected docs ns slug none now doc.slug)
      (hmirror : Mirrors p ns doc.slug doc) : Filed svc ns slug p docs (docs.add doc)
  | changed (docs : Table WikiDoc) (id : ℕ) (doc : WikiDoc) (f : WikiDoc → WikiDoc)
      (howner : slugOwner docs ns slug = some id) (hdoc : docs.get id = some doc)
      (hmirror : Mirrors p ns slug (f doc)) : Filed svc ns slug p docs (docs.update id f)

variable (w : World) (actor path : Text)

theorem ends_owner (ns slug : Text) (found : Option ℕ)
    (h : slugOwner w.docs ns slug = found) : Ends (findDocIdBySlug ns slug) w (.ok found) w := by
  rw [← h]
  exact ends_ask fun w => .ok (slugOwner w.docs ns slug)

theorem ends_settled (now : ℕ) (h : Settled svc ns slug p w.docs) :
    ∃ r, Ends (importPrepared svc actor ns slug path p now) w r w ∧ ∀ d, r = .ok d → d.status =
    .unchanged := by
  obtain ⟨id,doc,howner,hdoc,hcase⟩ := h
  have hfind := ends_owner w ns slug _ howner
  by_cases hzero : doc.currentVersion = 0
  · exact ⟨_,yields_bind_error (yields_bind hfind
      (yields_bind_error (ends_initializing id doc hdoc hzero))),nofun⟩
  have hread : Ends (docRecord svc id) w (.ok doc) w := ends_doc id doc hdoc hzero
  cases hvalid : (mergedInput p.input id doc).validate svc with
  | error e =>
    exact ⟨_,yields_bind_error (yields_bind hfind (yields_bind hread
      (yields_bind_error (yields_lift_eq hvalid)))),nofun⟩
  | ok u =>
    have hmerge : Ends (mergeInto svc ns slug p.input) w (.ok (mergedInput p.input id doc)) w :=
      yields_bind hfind (yields_bind hread (yields_bind (yields_lift_eq hvalid) (yields_ret _)))
    by_cases harch : doc.status = .archived
    · exact ⟨_,yields_bind hmerge (yields_bind_error (yields_bind_error (yields_bind hread
        (ends_refused _ _ _ harch)))),nofun⟩
    have hsame : unchanged svc (mergedInput p.input id doc) p.checksum doc = true := by
      simpa [hzero, harch, hvalid] using hcase
    have hexists : Ends (existingDoc svc (mergedInput p.input id doc)) w (.ok (some (id,doc))) w :=
      yields_bind hread (ends_pass _ _ _ harch (ends_pass _ _ _ (by simp) (yields_ret _)))
    obtain ⟨r,t,hreplay⟩ := yields_total Fault.none (replay svc id doc) w
    have hcommit : Ends (commitPrepared svc actor { p with input := mergedInput p.input id doc } now)
        w r t := by
      apply yields_bind hexists
      simp only [if_pos hsame]
      exact hreplay
    cases r with
    | error e =>
      obtain rfl := reads_still _ (reads_replay id doc) hreplay
      exact ⟨_,yields_bind hmerge (yields_bind_error hcommit),nofun⟩
    | ok out =>
      obtain ⟨⟨hidem,hcreated⟩,rfl⟩ := reads_ends _ (reads_replay id doc) hreplay
      refine ⟨_,yields_bind hmerge (yields_bind hcommit (yields_ret _)),?_⟩
      intro d hd
      cases hd
      simp [importStatus, hidem, hcreated]

theorem ends_fresh (now : ℕ) (hasked : Asked ns slug p.input)
    (hslug : slugifyPath svc.toLibrary slug = slug) (h : slugOwner w.docs ns slug = none) : ∃ d t,
    Ends (importPrepared svc actor ns slug path p now) w (.ok d) t ∧ d.status = .created ∧ Filed svc
    ns slug p w.docs t.docs := by
  obtain ⟨tags,htags⟩ := hasked.tags
  obtain ⟨uri,huri⟩ := hasked.uri
  obtain ⟨metadata,hmeta⟩ := hasked.metadata
  obtain ⟨out,t,hends,⟨label,target,middle,-,hres,hact⟩,-⟩ := ends_publish svc (w := w) actor p now none
    hasked.docId
  obtain ⟨hsel,hid,hcreated,hns,-,rfl⟩ := hres
  have hmerge : Ends (mergeInto svc ns slug p.input) w (.ok p.input) w :=
    yields_bind (ends_owner w ns slug none h) (yields_ret _)
  have hexists : Ends (existingDoc svc p.input) w (.ok none) w := by
    rw [existingDoc, hasked.docId]
    exact yields_ret none
  have hcommit : Ends (commitPrepared svc actor { p with input := p.input } now) w (.ok out) t :=
    yields_bind hexists hends
  refine ⟨_,t,yields_bind hmerge (yields_bind hcommit (yields_ret _)),?_,?_⟩
  · simp [importStatus, hact.created, hcreated]
  rw [hasked.ns] at hns
  rw [CreatedAs, hasked.ns, hasked.slug] at hsel
  simp only [Option.getD_some, hslug] at hns hsel
  have hdocs := hact.docs
  rw [hid, Table.update_add] at hdocs
  rw [hdocs]
  apply Filed.fresh w.docs _ now h hns hsel
  refine ⟨rfl,rfl,?_,hns,rfl,?_,?_⟩
  · rw [htags]
    simp [publishedDoc, commitTags, htags]
  · simp [publishedDoc, huri]
  · simp [publishedDoc, hmeta, merge_self]

theorem ends_changed (now id : ℕ) (doc : WikiDoc)
    (hasked : Asked ns slug p.input) (howner : slugOwner w.docs ns slug = some id)
    (hdoc : w.docs.get id = some doc) (hne : doc.currentVersion ≠ 0)
    (hactive : doc.status ≠ .archived) (hvalid : (mergedInput p.input id doc).validate svc = .ok ())
    (hdiff : unchanged svc (mergedInput p.input id doc) p.checksum doc = false) : ∃ d t, Ends
    (importPrepared svc actor ns slug path p now) w (.ok d) t ∧ Filed svc ns slug p w.docs t.docs :=
    by
  obtain ⟨tags,htags⟩ := hasked.tags
  obtain ⟨uri,huri⟩ := hasked.uri
  obtain ⟨metadata,hmeta⟩ := hasked.metadata
  obtain ⟨stored,hstored,hdns,hdslug⟩ := owner_mem ns slug id howner
  rw [hdoc] at hstored
  cases hstored
  have hfind := ends_owner w ns slug _ howner
  have hread : Ends (docRecord svc id) w (.ok doc) w := ends_doc id doc hdoc hne
  have hmerge : Ends (mergeInto svc ns slug p.input) w (.ok (mergedInput p.input id doc)) w :=
    yields_bind hfind (yields_bind hread (yields_bind (yields_lift_eq hvalid) (yields_ret _)))
  have hexists : Ends (existingDoc svc (mergedInput p.input id doc)) w (.ok (some (id,doc))) w :=
    yields_bind hread (ends_pass _ _ _ hactive (ends_pass _ _ _ (by simp) (yields_ret _)))
  obtain ⟨out,t,hends,⟨label,target,middle,-,hres,hact⟩,-⟩ := ends_publish svc (w := w) actor
    { p with input := mergedInput p.input id doc } now (some (id,doc)) ⟨rfl,hdoc,hne,hactive,rfl⟩
  obtain ⟨hmoved,hid,-,hns,-,rfl⟩ := hres
  have hcommit : Ends (commitPrepared svc actor { p with input := mergedInput p.input id doc } now)
      middle (.ok out) t := by
    apply yields_bind hexists
    simp only [hdiff]
    exact hends
  refine ⟨_,t,yields_bind hmerge (yields_bind hcommit (yields_ret _)),?_⟩
  -- the document stays where it is
  have hstay : target.slug = slug := by
    simpa [MovedTo, mergedInput, hasked.slug, hasked.ns, hdslug, hdns] using hmoved
  have hns' : target.ns = ns := by simpa [mergedInput, hasked.ns] using hns
  rw [hact.docs, hid]
  apply Filed.changed _ id doc _ howner hdoc
  refine ⟨rfl,rfl,?_,hns',hstay,?_,?_⟩
  · simp [publishedDoc, commitTags, mergedInput, htags]
  · simp [publishedDoc, mergedInput, huri]
  · simp [publishedDoc, mergedInput, merge_twice]

theorem ends_filed (now : ℕ) (hasked : Asked ns slug p.input)
    (hslug : slugifyPath svc.toLibrary slug = slug) : ∃ r t, Ends
    (importPrepared svc actor ns slug path p now) w r t ∧ Filed svc ns slug p w.docs t.docs := by
  cases howner : slugOwner w.docs ns slug with
  | none =>
    obtain ⟨d,t,hends,-,hfiled⟩ := ends_fresh w actor path now hasked hslug howner
    exact ⟨_,t,hends,hfiled⟩
  | some id =>
    obtain ⟨doc,hdoc,-,-⟩ := owner_mem ns slug id howner
    by_cases hsettled : Settled svc ns slug p w.docs
    · obtain ⟨r,hends,-⟩ := ends_settled w actor path now hsettled
      exact ⟨r,w,hends,.still _ hsettled⟩
    have hopen : ¬(doc.currentVersion = 0 ∨ doc.status = .archived ∨
        (∃ e, (mergedInput p.input id doc).validate svc = .error e) ∨
        unchanged svc (mergedInput p.input id doc) p.checksum doc = true) :=
      fun hcase => hsettled ⟨id,doc,howner,hdoc,hcase⟩
    simp only [not_or, not_exists, Bool.not_eq_true] at hopen
    obtain ⟨hne,hactive,hvalid,hdiff⟩ := hopen
    cases hv : (mergedInput p.input id doc).validate svc with
    | error e => exact absurd hv (hvalid e)
    | ok u =>
      obtain ⟨d,t,hends,hfiled⟩ := ends_changed w actor path now id doc hasked howner hdoc hne
        hactive hv hdiff
      exact ⟨_,t,hends,hfiled⟩

end Outcome

section Effects
variable {svc : WikiService} {ns slug other : Text} {p q : Prepared} {docs docs' : Table WikiDoc}

theorem owner_add (doc : WikiDoc) (ns slug : Text) :
    slugOwner (docs.add doc) ns slug = (slugOwner docs ns slug).or
      (if doc.ns = ns ∧ doc.slug = slug then some (docs.last+1) else none) := by
  rw [slugOwner, Table.select_add, List.head?_append, slugOwner]
  by_cases h : doc.ns = ns ∧ doc.slug = slug <;> simp [h]

theorem owner_update (id : ℕ) (f : WikiDoc → WikiDoc) (ns slug : Text)
    (h : ∀ doc, docs.get id = some doc → (f doc).ns = doc.ns ∧ (f doc).slug = doc.slug) :
    slugOwner (docs.update id f) ns slug = slugOwner docs ns slug := by
  rw [slugOwner, Table.select_update, slugOwner]
  intro doc hdoc
  rw [(h doc hdoc).1, (h doc hdoc).2]

theorem changed_stays (id : ℕ) (doc : WikiDoc) (f : WikiDoc → WikiDoc)
    (howner : slugOwner docs ns slug = some id) (hdoc : docs.get id = some doc)
    (hmirror : Mirrors p ns slug (f doc)) (found : WikiDoc) (hfound : docs.get id = some found) :
    (f found).ns = found.ns ∧ (f found).slug = found.slug := by
  obtain ⟨stored,hstored,hns,hslug⟩ := owner_mem ns slug id howner
  rw [hdoc] at hstored hfound
  cases hstored
  cases hfound
  exact ⟨hmirror.ns.trans hns.symm,hmirror.slug.trans hslug.symm⟩

theorem filed_owner (h : Filed svc ns slug p docs docs') (id : ℕ)
    (howner : slugOwner docs ns other = some id) : slugOwner docs' ns other = some id := by
  cases h with
  | still => exact howner
  | fresh doc now hnone hns hsel hmirror =>
    rw [owner_add, howner]
    rfl
  | changed target doc f hown hdoc hmirror =>
    rw [owner_update _ _ _ _ (changed_stays target doc f hown hdoc hmirror)]
    exact howner

theorem filed_unowned (h : Filed svc ns slug p docs docs') (hres : reserved other = true)
    (hnone : slugOwner docs ns other = none) : slugOwner docs' ns other = none := by
  cases h with
  | still => exact hnone
  | fresh doc now hfree hns hsel hmirror =>
    have hslug : doc.slug ≠ other := by
      rintro rfl
      rcases hsel with ⟨attempt,-,hopen,-,heq⟩ | ⟨-,heq⟩
      · rw [heq] at hres
        exact hopen (Or.inl hres)
      · rw [heq, suffixed_not_reserved] at hres
        cases hres
    rw [owner_add, hnone, if_neg fun hsame => hslug hsame.2]
    rfl
  | changed target doc f hown hdoc hmirror =>
    rw [owner_update _ _ _ _ (changed_stays target doc f hown hdoc hmirror)]
    exact hnone

theorem filed_settles (hasked : Asked ns slug p.input) (hslug : slugifyPath svc.toLibrary slug = slug)
    (hgood : reserved slug = false ∨ ∃ id, slugOwner docs ns slug = some id)
    (h : Filed svc ns slug p docs docs') : Settled svc ns slug p docs' := by
  cases h with
  | still hs => exact hs
  | fresh doc now hnone hns hsel hmirror =>
    have hopen : ¬Blocked docs ns none (slugCandidate slug 0) := by
      rintro (hres | ⟨id,hid,-⟩)
      · rcases hgood with hfree | ⟨id,hid⟩
        · rw [slugCandidate, if_pos rfl, hfree] at hres
          cases hres
        · rw [hnone] at hid
          cases hid
      · rw [slugCandidate, if_pos rfl, hnone] at hid
        cases hid
    have hsame : doc.slug = slug := by
      rcases hsel with ⟨attempt,-,-,hbefore,heq⟩ | ⟨hall,-⟩
      · cases attempt with
        | zero => exact heq
        | succ n => exact absurd (hbefore 0 (Nat.succ_pos n)) hopen
      · exact absurd (hall 0 (by omega)) hopen
    rw [hsame] at hmirror
    refine ⟨docs.last+1,doc,?_,Table.get_add_new _ _,Or.inr (Or.inr (Or.inr
      (mirrors_unchanged hasked hslug _ doc hmirror)))⟩
    rw [owner_add, hnone, if_pos ⟨hns,hsame⟩]
    rfl
  | changed id doc f howner hdoc hmirror =>
    refine ⟨id,f doc,?_,?_,Or.inr (Or.inr (Or.inr (mirrors_unchanged hasked hslug id _ hmirror)))⟩
    · rw [owner_update _ _ _ _ (changed_stays id doc f howner hdoc hmirror)]
      exact howner
    · rw [Table.get_update_self, hdoc]
      rfl

theorem filed_keeps (h : Filed svc ns slug p docs docs') (hne : other ≠ slug)
    (hs : Settled svc ns other q docs) : Settled svc ns other q docs' := by
  obtain ⟨id,doc,howner,hdoc,hcase⟩ := hs
  refine ⟨id,doc,filed_owner h id howner,?_,hcase⟩
  cases h with
  | still => exact hdoc
  | fresh new now hnone hns hsel hmirror =>
    have hbound := (Table.get_bound _ _ _ hdoc).2
    rw [Table.get_add_old _ _ _ (by omega)]
    exact hdoc
  | changed target found f hown hfound hmirror =>
    have hid : id ≠ target := by
      rintro rfl
      obtain ⟨a,ha,-,haslug⟩ := owner_mem ns other id howner
      obtain ⟨b,hb,-,hbslug⟩ := owner_mem ns slug id hown
      rw [ha] at hb
      cases hb
      exact hne (haslug.symm.trans hbslug)
    rw [Table.get_update_other _ _ _ _ hid]
    exact hdoc

end Effects

section Passes
variable {svc : WikiService} {yaml : Yaml} {ns : Text}

def keys (svc : WikiService) (yaml : Yaml) (ns : Text) (entries : List BundleEntry) : List Text :=
  (entries.filterMap (planned svc yaml ns)).map Prod.fst

def AllSettled (svc : WikiService) (yaml : Yaml) (ns : Text) (entries : List BundleEntry)
    (docs : Table WikiDoc) : Prop :=
  ∀ entry ∈ entries, ∀ slug p, planned svc yaml ns entry = some (slug,p) →
    Settled svc ns slug p docs

def Findable (svc : WikiService) (yaml : Yaml) (ns : Text) (docs : Table WikiDoc)
    (entry : BundleEntry) : Prop :=
  ∀ slug p, planned svc yaml ns entry = some (slug,p) →
    reserved slug = false ∨ ∃ id, slugOwner docs ns slug = some id

theorem record_still (out : ImportOutput) (path : Text) (r : Except WikiError (Option ImportedDoc))
    (h : ∀ d, r = .ok (some d) → d.status = .unchanged) :
    (out.record path r).created = out.created ∧ (out.record path r).updated = out.updated := by
  match r, h with
  | .ok (some d), h => simp [ImportOutput.record, h d rfl]
  | .ok none, _ => exact ⟨rfl,rfl⟩
  | .error e, _ => exact ⟨rfl,rfl⟩

theorem record_grows (out : ImportOutput) (path : Text) (r : Except WikiError (Option ImportedDoc)) :
    out.created ≤ (out.record path r).created := by
  match r with
  | .ok (some d) => exact Nat.le_add_right _ _
  | .ok none => exact Nat.le_refl _
  | .error e => exact Nat.le_refl _

theorem ends_entries (actor : Text) (now : ℕ) (entry : BundleEntry) (rest : List BundleEntry)
    (out out' : ImportOutput) (w t u : World) (r : Except WikiError (Option ImportedDoc))
    (h : Ends (importEntry svc yaml actor ns entry now) w r t)
    (hrest : Ends (importEntries svc yaml actor ns now rest (out.record entry.path r)) t (.ok out') u) :
    Ends (importEntries svc yaml actor ns now (entry::rest) out) w (.ok out') u :=
  yields_bind (yields_attempt h) hrest

variable (hne : ns ≠ []) (htrim : trim ns = ns)
include hne htrim

theorem first_pass (actor : Text) (now : ℕ) (entries : List BundleEntry) (out : ImportOutput)
    (w : World) (hkeys : (keys svc yaml ns entries).Nodup)
    (hfind : ∀ entry ∈ entries, Findable svc yaml ns w.docs entry) : ∃ out' t, Ends
    (importEntries svc yaml actor ns now entries out) w (.ok out') t ∧ AllSettled svc yaml ns
    entries t.docs ∧ ∀ slug q, slug ∉ keys svc yaml ns entries → Settled svc ns slug q w.docs →
    Settled svc ns slug q t.docs := by
  induction entries generalizing w out with
  | nil => exact ⟨out,w,yields_ret out,fun _ h => (nomatch h),fun _ _ _ h => h⟩
  | cons entry rest ih =>
    cases hplan : planned svc yaml ns entry with
    | none =>
      have hsame : keys svc yaml ns (entry::rest) = keys svc yaml ns rest := by simp [keys, hplan]
      obtain ⟨r,hends,-⟩ := ends_unplanned actor now w hplan
      obtain ⟨out',t,hrest,hall,hkeep⟩ := ih (out.record entry.path r) w (hsame ▸ hkeys)
        fun e he => hfind e (List.mem_cons_of_mem _ he)
      refine ⟨out',t,ends_entries actor now entry rest out out' w w t r hends hrest,?_,?_⟩
      · intro e he slug p hp
        rcases List.mem_cons.mp he with rfl | he
        · rw [hplan] at hp
          cases hp
        · exact hall e he slug p hp
      · rw [hsame]
        exact hkeep
    | some plan =>
      obtain ⟨slug,p⟩ := plan
      have hcons : keys svc yaml ns (entry::rest) = slug::keys svc yaml ns rest := by
        simp [keys, hplan]
      rw [hcons] at hkeys
      obtain ⟨hnotin,hrestkeys⟩ := List.nodup_cons.mp hkeys
      obtain ⟨hasked,hslug⟩ := planned_asked hne htrim hplan
      obtain ⟨r,t,hends,hfiled⟩ := ends_filed w actor entry.path now hasked hslug
      have hsettled := filed_settles hasked hslug (hfind entry (by simp) slug p hplan) hfiled
      obtain ⟨out',u,hrest,hall,hkeep⟩ := ih (out.record entry.path (r.map some)) t hrestkeys (by
        intro e he s q hq
        rcases hfind e (List.mem_cons_of_mem _ he) s q hq with hfree | ⟨id,hid⟩
        · exact Or.inl hfree
        · exact Or.inr ⟨id,filed_owner hfiled id hid⟩)
      refine ⟨out',u,ends_entries actor now entry rest out out' w t u _
        (ends_planned actor now w t r hplan hends) hrest,?_,?_⟩
      · intro e he s q hq
        rcases List.mem_cons.mp he with rfl | he
        · rw [hplan] at hq
          cases hq
          exact hkeep slug p hnotin hsettled
        · exact hall e he s q hq
      · rw [hcons]
        intro s q hs hset
        simp only [List.mem_cons, not_or] at hs
        exact hkeep s q hs.2 (filed_keeps hfiled hs.1 hset)

omit hne htrim in
theorem settled_pass (actor : Text) (now : ℕ) (entries : List BundleEntry) (out : ImportOutput)
    (w : World) (h : AllSettled svc yaml ns entries w.docs) : ∃ out', Ends
    (importEntries svc yaml actor ns now entries out) w (.ok out') w ∧ out'.created = out.created ∧
    out'.updated = out.updated := by
  induction entries generalizing out with
  | nil => exact ⟨out,yields_ret out,rfl,rfl⟩
  | cons entry rest ih =>
    have hentry : ∃ r, Ends (importEntry svc yaml actor ns entry now) w r w ∧
        ∀ d, r = .ok (some d) → d.status = .unchanged := by
      cases hplan : planned svc yaml ns entry with
      | none =>
        obtain ⟨r,hends,hno⟩ := ends_unplanned actor now w hplan
        exact ⟨r,hends,fun d hd => absurd hd (hno d)⟩
      | some plan =>
        obtain ⟨r,hends,hstill⟩ := ends_settled w actor entry.path now
          (h entry (by simp) plan.1 plan.2 hplan)
        refine ⟨_,ends_planned actor now w w r hplan hends,?_⟩
        intro d hd
        cases r with
        | error e => cases hd
        | ok found =>
          have heq : found = d := by simpa [Except.map] using hd
          rw [← heq]
          exact hstill found rfl
    obtain ⟨r,hends,hstill⟩ := hentry
    obtain ⟨out',hrest,hcreated,hupdated⟩ := ih (out.record entry.path r)
      fun e he => h e (List.mem_cons_of_mem _ he)
    obtain ⟨hc,hu⟩ := record_still out entry.path r hstill
    exact ⟨out',ends_entries actor now entry rest out out' w w w r hends hrest,
      hcreated.trans hc,hupdated.trans hu⟩

/-- A reserved slug that nobody has is never found, so its file is created every time. -/
theorem unowned_pass (actor : Text) (now : ℕ) (slug : Text) (hres : reserved slug = true)
    (entries : List BundleEntry) (out : ImportOutput) (w : World)
    (hnone : slugOwner w.docs ns slug = none) :
    ∃ out' t, Ends (importEntries svc yaml actor ns now entries out) w (.ok out') t ∧
      slugOwner t.docs ns slug = none ∧ out.created ≤ out'.created ∧
      ((∃ entry ∈ entries, ∃ p, planned svc yaml ns entry = some (slug,p)) →
        out.created < out'.created) := by
  induction entries generalizing w out with
  | nil =>
    refine ⟨out,w,yields_ret out,hnone,Nat.le_refl _,?_⟩
    rintro ⟨entry,hentry,-⟩
    cases hentry
  | cons entry rest ih =>
    -- the entry keeps the slug unowned, and counts if the slug is its own
    have hentry : ∃ r t, Ends (importEntry svc yaml actor ns entry now) w r t ∧
        slugOwner t.docs ns slug = none ∧ ((∃ p, planned svc yaml ns entry = some (slug,p)) →
          out.created < (out.record entry.path r).created) := by
      cases hplan : planned svc yaml ns entry with
      | none =>
        obtain ⟨r,hends,-⟩ := ends_unplanned actor now w hplan
        exact ⟨r,w,hends,hnone,fun ⟨_,hp⟩ => nomatch hp⟩
      | some plan =>
        obtain ⟨own,p⟩ := plan
        obtain ⟨hasked,hslug⟩ := planned_asked hne htrim hplan
        by_cases heq : own = slug
        · subst heq
          obtain ⟨d,t,hends,hcreated,hfiled⟩ := ends_fresh w actor entry.path now hasked hslug hnone
          refine ⟨_,t,ends_planned actor now w t _ hplan hends,filed_unowned hfiled hres hnone,?_⟩
          intro _
          simp [Except.map, ImportOutput.record, hcreated]
        · obtain ⟨r,t,hends,hfiled⟩ := ends_filed w actor entry.path now hasked hslug
          refine ⟨_,t,ends_planned actor now w t _ hplan hends,filed_unowned hfiled hres hnone,?_⟩
          rintro ⟨q,hq⟩
          cases hq
          exact absurd rfl heq
    obtain ⟨r,t,hends,hnone',hcount⟩ := hentry
    obtain ⟨out',u,hrest,hfinal,hle,hlt⟩ := ih (out.record entry.path r) t hnone'
    have hgrow := record_grows out entry.path r
    refine ⟨out',u,ends_entries actor now entry rest out out' w t u r hends hrest,hfinal,
      hgrow.trans hle,?_⟩
    rintro ⟨e,he,p,hp⟩
    rcases List.mem_cons.mp he with rfl | he
    · exact (hcount ⟨p,hp⟩).trans_le hle
    · exact hgrow.trans_lt (hlt ⟨e,he,p,hp⟩)

end Passes

section Bundles
variable (svc : WikiService) (yaml : Yaml)

def Refused (entries : List BundleEntry) : Prop :=
  entries = [] ∨ maxImportEntries < entries.length

def Replays (ns : Option Text) (entries : List BundleEntry) (w : World) : Prop :=
  ∀ actor actor' now now' r r' t t',
    Ends (importBundle svc yaml actor ns entries now) w r t →
    Ends (importBundle svc yaml actor' ns entries now') t r' t' →
    (∀ out, r' = .ok out → out.created = 0 ∧ out.updated = 0) ∧
      (∀ e, r' = .error e → r = .error e) ∧ t'.docs = t.docs ∧ t'.versions = t.versions

variable {svc yaml} {ns : Option Text} {entries : List BundleEntry} {w : World}

variable (svc yaml ns) in
theorem ends_refused_bundle (h : Refused entries) :
    ∃ e, ∀ actor now w, Ends (importBundle svc yaml actor ns entries now) w (.error e) w := by
  by_cases hempty : entries = []
  · exact ⟨_,fun _ _ w => ends_refused _ _ _ hempty⟩
  · have hlong := h.resolve_left hempty
    exact ⟨_,fun _ _ w => ends_pass _ _ _ hempty (ends_refused _ _ _ hlong)⟩

theorem ends_bundle (actor : Text) (now : ℕ) (h : ¬Refused entries) (out : ImportOutput) (t : World)
    (hends : Ends (importEntries svc yaml actor (bundleNamespace ns) now entries ⟨0,0,0,[],[]⟩) w
      (.ok out) t) :
    ∃ u, Ends (importBundle svc yaml actor ns entries now) w (.ok out) u ∧ u.docs = t.docs ∧
      u.versions = t.versions := by
  simp only [Refused, not_or] at h
  exact ⟨_,ends_pass _ _ _ h.1 (ends_pass _ _ _ h.2 (yields_bind hends (yields_bind (ends_write _ _)
    (yields_ret _)))),rfl,rfl⟩

theorem bundle_namespace (ns : Option Text) :
    bundleNamespace ns ≠ [] ∧ trim (bundleNamespace ns) = bundleNamespace ns := by
  cases ns with
  | none => exact ⟨by decide,by decide⟩
  | some text =>
    by_cases hempty : trim text = []
    · simp only [bundleNamespace, normalizeOpt, Option.bind_some, hempty]
      exact ⟨by decide,by decide⟩
    · simp only [bundleNamespace, normalizeOpt, Option.bind_some, List.isEmpty_iff, if_neg hempty]
      exact ⟨hempty,WikiSlugs.trim_idem text⟩

theorem replays_refused (h : Refused entries) : Replays svc yaml ns entries w := by
  intro actor actor' now now' r r' t t' hfirst hsecond
  obtain ⟨e,he⟩ := ends_refused_bundle svc yaml ns h
  obtain ⟨rfl,rfl⟩ := yields_unique hfirst (he actor now w)
  obtain ⟨rfl,rfl⟩ := yields_unique hsecond (he actor' now' t)
  exact ⟨nofun,fun _ h => h,rfl,rfl⟩

theorem replays_findable (hok : ¬Refused entries)
    (hkeys : (keys svc yaml (bundleNamespace ns) entries).Nodup)
    (h : ∀ entry ∈ entries, Findable svc yaml (bundleNamespace ns) w.docs entry) :
    Replays svc yaml ns entries w := by
  intro actor actor' now now' r r' t t' hfirst hsecond
  obtain ⟨hne,htrim⟩ := bundle_namespace ns
  obtain ⟨out,u,hpass,hall,-⟩ := first_pass hne htrim actor now entries ⟨0,0,0,[],[]⟩ w hkeys h
  obtain ⟨v,hbundle,hdocs,-⟩ := ends_bundle actor now hok out u hpass
  obtain ⟨rfl,rfl⟩ := yields_unique hfirst hbundle
  rw [← hdocs] at hall
  obtain ⟨out',hpass',hcreated,hupdated⟩ := settled_pass actor' now' entries ⟨0,0,0,[],[]⟩ t hall
  obtain ⟨v',hbundle',hdocs',hversions'⟩ := ends_bundle actor' now' hok out' t hpass'
  obtain ⟨rfl,rfl⟩ := yields_unique hsecond hbundle'
  refine ⟨?_,nofun,hdocs',hversions'⟩
  intro found hfound
  cases hfound
  exact ⟨hcreated,hupdated⟩

theorem replay_grows (hok : ¬Refused entries) (slug : Text) (p : Prepared) (entry : BundleEntry)
    (hin : entry ∈ entries) (hplan : planned svc yaml (bundleNamespace ns) entry = some (slug,p))
    (hres : reserved slug = true) (hnone : slugOwner w.docs (bundleNamespace ns) slug = none) :
    ¬Replays svc yaml ns entries w := by
  intro h
  obtain ⟨hne,htrim⟩ := bundle_namespace ns
  obtain ⟨out,u,hpass,hunowned,-⟩ := unowned_pass hne htrim [] 0 slug hres entries
    ⟨0,0,0,[],[]⟩ w hnone
  obtain ⟨v,hbundle,hdocs,-⟩ := ends_bundle [] 0 hok out u hpass
  rw [← hdocs] at hunowned
  obtain ⟨out',u',hpass',-,-,hgrows⟩ := unowned_pass hne htrim [] 0 slug hres entries
    ⟨0,0,0,[],[]⟩ v hunowned
  obtain ⟨v',hbundle',-⟩ := ends_bundle [] 0 hok out' u' hpass'
  have hzero := ((h [] [] 0 0 _ _ v v' hbundle hbundle').1 out' rfl).1
  have hpos := hgrows ⟨entry,hin,p,hplan⟩
  rw [hzero] at hpos
  exact absurd hpos (Nat.lt_irrefl _)

/-- When re-importing a bundle does not grow the wiki. If no two files of the bundle are
looked up under the same slug, then for every state of the wiki the second import creates
and updates nothing, and leaves every document and version row alone, exactly if no file
has a reserved slug that no document of the namespace has. -/
theorem reimport_settles_iff (hkeys : (keys svc yaml (bundleNamespace ns) entries).Nodup) : Replays
    svc yaml ns entries w ↔ Refused entries ∨ ∀ entry ∈ entries, ∀ slug p, planned svc yaml
    (bundleNamespace ns) entry = some (slug,p) → reserved slug = false ∨ ∃ id, slugOwner w.docs
    (bundleNamespace ns) slug = some id := by
  by_cases hok : Refused entries
  · exact ⟨fun _ => Or.inl hok,fun _ => replays_refused hok⟩
  constructor
  · intro h
    right
    intro entry hin slug p hplan
    cases hres : reserved slug with
    | false => exact Or.inl rfl
    | true =>
      cases howner : slugOwner w.docs (bundleNamespace ns) slug with
      | none => exact absurd h (replay_grows hok slug p entry hin hplan hres howner)
      | some id => exact Or.inr ⟨id,rfl⟩
  · rintro (hrefused | hfind)
    · exact absurd hrefused hok
    · exact replays_findable hok hkeys hfind

theorem keys_singleton (svc : WikiService) (yaml : Yaml) (ns : Text) (entry : BundleEntry) :
    (keys svc yaml ns [entry]).Nodup := by
  cases hplan : planned svc yaml ns entry <;> simp [keys, hplan]

theorem reimport_settles_guide :
    (keys asciiService silentYaml (bundleNamespace none) [⟨"guide.md".toList,"hello".toList⟩]).Nodup
    ∧ Replays asciiService silentYaml none [⟨"guide.md".toList,"hello".toList⟩] World.empty := by
  have hkeys := keys_singleton asciiService silentYaml (bundleNamespace none)
    ⟨"guide.md".toList,"hello".toList⟩
  refine ⟨hkeys,(reimport_settles_iff hkeys).mpr (Or.inr ?_)⟩
  intro entry hin slug p hplan
  rw [List.mem_singleton.mp hin] at hplan
  obtain ⟨concept,input,hconcept,-,-,rfl⟩ := planned_some hplan
  have hguide : conceptPath "guide.md".toList = some "guide".toList := by decide
  rw [hguide] at hconcept
  cases hconcept
  exact Or.inl (by decide)

/-- The slug of "index!.md" is "index": the file is stored as "index-2" and never found. -/
theorem reserved_slug_grows :
    (keys asciiService silentYaml (bundleNamespace none)
      [⟨"index!.md".toList,"hello".toList⟩]).Nodup ∧
    ¬Replays asciiService silentYaml none [⟨"index!.md".toList,"hello".toList⟩] World.empty := by
  refine ⟨keys_singleton _ _ _ _,?_⟩
  have hconcept : conceptPath "index!.md".toList = some "index!".toList := by decide
  obtain ⟨input,hinput⟩ : ∃ input, importInput asciiService silentYaml (bundleNamespace none)
      "index!".toList ⟨"index!.md".toList,"hello".toList⟩ = .ok input := ⟨_,rfl⟩
  obtain ⟨p,hp⟩ := prepare_total asciiService input (by cases hinput; decide)
    (by cases hinput; decide) (by cases hinput; decide) (by cases hinput; decide)
  have hplan : planned asciiService silentYaml (bundleNamespace none)
      ⟨"index!.md".toList,"hello".toList⟩ =
        some (slugifyPath asciiService.toLibrary "index!".toList,p) :=
    planned_of _ input hconcept hinput hp
  have hok : ¬Refused [⟨"index!.md".toList,"hello".toList⟩] := by simp [Refused, maxImportEntries]
  exact replay_grows hok _ p _ (List.mem_singleton_self _) hplan (by decide) rfl

end Bundles

end AndaBrain.WikiReplay
