import AndaBrain.WikiIdentity

/-!
# Committing the same input again

A commit repeated at the version it has made changes nothing as long as its document has
the slug it asks for. `unique_slug` may have given the document another one.
-/

set_option autoImplicit false

namespace AndaBrain.WikiRecommit
open Foundation Foundation.Resumption Foundation.Utf8Text
open WikiText WikiStore
open WikiSteps WikiQuiet WikiIdentity

/-- The input of a commit, sent again for the document and the version that it gave. -/
def again (input : CommitInput) (out : CommitOutput) : CommitInput :=
  { input with docId := some out.doc.id, parentVersion := some out.version.id }

def SlugKept (svc : WikiService) (docs : Table WikiDoc) (input : CommitInput) (slug : Text) :
    Option (ℕ × WikiDoc) → Prop
  | none => ¬Blocked docs (input.ns.getD defaultNamespace) none (slugifyPath svc.toLibrary slug)
  | some (id,doc) => if slug ≠ doc.slug ∨ input.ns.getD doc.ns ≠ doc.ns
      then ¬Blocked docs (input.ns.getD doc.ns) (some id) (slugifyPath svc.toLibrary slug)
      else slugifyPath svc.toLibrary slug = slug

def Recommits (svc : WikiService) (t : World) (actor : Text) (input : CommitInput) (later : ℕ)
    (out : CommitOutput) : Prop :=
  ∃ found, Ends (commit svc actor (again input out) later) t (.ok found) t ∧
    found.idempotent = true ∧ found.version.id = out.version.id

section Commit
variable {svc : WikiService} {w t : World} {actor : Text} {input : CommitInput} {now : ℕ}
  {out : CommitOutput} {p : Prepared} {existing : Option (ℕ × WikiDoc)}

theorem prepare_again (h : prepareCommit svc input = .ok p) :
    prepareCommit svc (again input out) = .ok { p with input := again p.input out } := by
  have hmap : prepareCommit svc (again input out) = (prepareCommit svc input).map fun p =>
      { p with input := again p.input out } := by
    simp only [prepareCommit, bind, Except.bind, show (again input out).normalize =
      again input.normalize out from rfl, show (again input.normalize out).validate svc =
      input.normalize.validate svc from rfl]
    simp only [again]
    repeat' first | rfl | (split <;> try simp only [*, Bool.false_eq_true, if_true, if_false])
  rw [hmap, h]
  rfl

theorem commit_ends (h : Ends (commit svc actor input now) w (.ok out) t) : ∃ p existing,
    prepareCommit svc input = .ok p ∧ Existing w p.input existing ∧
    ((∃ id doc, existing = some (id,doc) ∧ unchanged svc p.input p.checksum doc = true ∧
        Ends (replay svc id doc) w (.ok out) t) ∨
      ((∀ id doc, existing = some (id,doc) → unchanged svc p.input p.checksum doc = false) ∧
        Committed svc w actor p now existing out t ∧
        out.doc.id = existing.elim (w.docs.last+1) Prod.fst ∧
        out.version.id = w.versions.last+1)) := by
  cases hp : prepareCommit svc input with
  | error e => cases (yields_unique h (yields_bind_error (yields_lift_eq hp))).1
  | ok p =>
    obtain ⟨r,s,hr⟩ := yields_total Fault.none (existingDoc svc p.input) w
    cases r with
    | error e =>
      cases (yields_unique h (yields_bind (yields_lift_eq hp) (yields_bind_error hr))).1
    | ok existing =>
      obtain ⟨hex,rfl⟩ := reads_ends _ (reads_existing p.input) hr
      refine ⟨p,existing,rfl,hex,?_⟩
      obtain ⟨found,u,hpublish,hnames⟩ := ends_publish svc actor p now existing hex
      match existing, hex with
      | none, hex =>
        obtain ⟨heq,rfl⟩ := yields_unique h (yields_bind (yields_lift_eq hp) (yields_bind hr hpublish))
        cases heq
        exact Or.inr ⟨fun _ _ h => (nomatch h),hnames⟩
      | some (id,doc), hex =>
        by_cases hsame : unchanged svc p.input p.checksum doc = true
        · obtain ⟨r,u,hreplay⟩ := yields_total Fault.none (replay svc id doc) s
          obtain ⟨heq,rfl⟩ := yields_unique h (yields_bind (yields_lift_eq hp)
            (yields_bind hr (by simp only [if_pos hsame]; exact hreplay)))
          exact Or.inl ⟨id,doc,rfl,hsame,by rw [heq]; exact hreplay⟩
        obtain ⟨heq,rfl⟩ := yields_unique h (yields_bind (yields_lift_eq hp)
          (yields_bind hr (by simp only [if_neg hsame]; exact hpublish)))
        cases heq
        refine Or.inr ⟨?_,hnames⟩
        intro _ _ h
        cases h
        simpa using hsame

theorem selected_base {docs : Table WikiDoc} {ns base slug : Text} {exclude : Option ℕ}
    (h : Selected docs ns base exclude now slug) : base = slug ↔ ¬Blocked docs ns exclude base := by
  rcases h with ⟨attempt,-,hfree,hbefore,rfl⟩ | ⟨hall,rfl⟩
  · by_cases hfirst : attempt = 0
    · subst hfirst
      exact ⟨fun _ => hfree,fun _ => rfl⟩
    · have hblocked : Blocked docs ns exclude base := hbefore 0 (by omega)
      simp [slugCandidate, hfirst, hblocked]
  · have hblocked : Blocked docs ns exclude base := hall 0 (by omega)
    simp [hblocked]

theorem resolved_slug {tags : List Text} {label slug : Text} {target : Target} {middle : World}
    (h : Resolution svc w input tags label actor now target middle existing)
    (hslug : input.slug = some slug) :
    slugifyPath svc.toLibrary slug = target.slug ↔ SlugKept svc w.docs input slug existing := by
  match existing, h with
  | none, ⟨hcreated,_⟩ =>
    rw [CreatedAs, hslug] at hcreated
    exact selected_base hcreated
  | some (id,doc), ⟨hmoved,_⟩ =>
    simp only [MovedTo, hslug, Option.getD_some] at hmoved
    by_cases hnew : slug ≠ doc.slug ∨ input.ns.getD doc.ns ≠ doc.ns
    · rw [if_pos hnew] at hmoved
      rw [SlugKept, if_pos hnew]
      exact selected_base hmoved
    rw [if_neg hnew] at hmoved
    rw [SlugKept, if_neg hnew, hmoved]
    simp only [not_or, not_not] at hnew
    rw [← hnew.1]

theorem published_unchanged {target : Target} {label : Text} {versionId generation : ℕ}
    (doc : WikiDoc) (hlabel : ∀ given, p.input.aclLabel = some given → label = trim given)
    (hns : ∀ ns, p.input.ns = some ns → target.ns = ns) :
    unchanged svc (again p.input out) p.checksum (publishedDoc p target
      (commitTags p.input existing) label actor now versionId generation doc) = true ↔
    ∀ slug, p.input.slug = some slug → slugifyPath svc.toLibrary slug = target.slug := by
  simp only [unchanged, again, publishedDoc, Bool.and_eq_true, Option.all_eq_true, beq_iff_eq]
  constructor
  · rintro ⟨⟨⟨-,hslug⟩,-⟩,-⟩
    exact hslug
  intro hslug
  refine ⟨⟨⟨⟨⟨⟨⟨trivial,trivial⟩,?_⟩,?_⟩,?_⟩,hslug⟩,?_⟩,?_⟩
  · intro tags htags
    simp [commitTags, htags]
  · intro given hgiven
    exact (hlabel given hgiven).symm
  · intro ns hgiven
    exact (hns ns hgiven).symm
  · intro uri huri
    by_cases hempty : uri.isEmpty = true <;> simp [huri, hempty]
  · intro metadata hmetadata
    simp [hmetadata]

theorem replay_again {id : ℕ} {doc : WikiDoc} (h : Ends (replay svc id doc) w (.ok out) t) :
    t = w ∧ out.idempotent = true ∧ out.doc.id = id ∧ out.version.id = doc.currentVersion := by
  have hnames : Reads (fun out => out.idempotent = true ∧ out.doc.id = id ∧
      out.version.id = doc.currentVersion) (replay svc id doc) w :=
    reads_bind _ _ (reads_version _) fun _ _ => reads_bind _ _ (reads_chunk_ids _ _) fun _ _ =>
      ⟨rfl,rfl,rfl⟩
  exact (reads_ends _ hnames h).symm

theorem ends_again {id : ℕ} {doc : WikiDoc} {r : Except WikiError CommitOutput} (later : ℕ)
    (hp : prepareCommit svc input = .ok p) (hid : out.doc.id = id)
    (hversion : out.version.id = doc.currentVersion) (hdoc : w.docs.get id = some doc)
    (hne : doc.currentVersion ≠ 0) (hactive : doc.status ≠ .archived)
    (hsame : unchanged svc (again p.input out) p.checksum doc = true)
    (h : Ends (replay svc id doc) w r t) : Ends (commit svc actor (again input out) later) w r t := by
  have hexisting : Ends (existingDoc svc (again p.input out)) w (.ok (some (id,doc))) w := by
    rw [existingDoc, again, hid, hversion]
    exact yields_bind (ends_doc id doc hdoc hne)
      (ends_pass _ _ _ hactive (ends_pass _ _ _ (by simp) (yields_ret _)))
  refine yields_bind (yields_lift_eq (prepare_again hp)) (yields_bind hexisting ?_)
  simp only [if_pos hsame]
  exact h

/-- A commit that has made a version is repeated without a write if and only if the slug
it asked for has been kept. -/
theorem committed_recommits (later : ℕ) (other : Text) (hp : prepareCommit svc input = .ok p)
    (hex : Existing w p.input existing) (h : Committed svc w actor p now existing out t)
    (hid : out.doc.id = existing.elim (w.docs.last+1) Prod.fst)
    (hversion : out.version.id = w.versions.last+1) : Recommits svc t other input later out ↔
    ∀ slug, p.input.slug = some slug → SlugKept svc w.docs p.input slug existing := by
  obtain ⟨label,target,middle,hlabel,hres,hact⟩ := h
  have hplace : target.docId = out.doc.id ∧ (∀ ns, p.input.ns = some ns → target.ns = ns) ∧
      middle.versions = w.versions ∧ ∃ doc, middle.docs.get target.docId = some doc := by
    match existing, hex, hres with
    | none, _, ⟨_,htarget,_,hns,_,hmiddle⟩ =>
      rw [hid, htarget, hmiddle]
      exact ⟨rfl,fun ns h => by rw [hns, h]; rfl,rfl,_,Table.get_add_new _ _⟩
    | some (id,doc), hex, ⟨_,htarget,_,hns,_,hmiddle⟩ =>
      rw [hid, htarget, hmiddle]
      exact ⟨rfl,fun ns h => by rw [hns, h]; rfl,rfl,doc,hex.2.1⟩
  obtain ⟨htarget,hns,hversions,doc,hdoc⟩ := hplace
  have hstored := hact.docs
  have hsame : unchanged svc (again p.input out) p.checksum (publishedDoc p target
      (commitTags p.input existing) label actor now (middle.versions.last+1)
      (existing.elim 1 fun e => e.2.generation+1) doc) = true ↔ _ :=
    published_unchanged doc hlabel hns
  generalize hnew : publishedDoc p target (commitTags p.input existing) label actor now
    (middle.versions.last+1) (existing.elim 1 fun e => e.2.generation+1) doc = new at hsame
  have hrow : t.docs.get out.doc.id = some new := by
    rw [hstored, htarget, Table.get_update_self, ← htarget, hdoc, ← hnew]
    rfl
  have hcurrent : out.version.id = new.currentVersion := by
    rw [hversion, ← hversions, ← hnew]
    rfl
  have hrest : (∀ slug, p.input.slug = some slug → slugifyPath svc.toLibrary slug = target.slug) ↔
      ∀ slug, p.input.slug = some slug → SlugKept svc w.docs p.input slug existing :=
    forall_congr' fun slug => forall_congr' fun hslug => resolved_slug hres hslug
  rw [← hrest, ← hsame]
  constructor
  · rintro ⟨found,hends,hidem,-⟩
    obtain ⟨q,_,hq,hfound,⟨id,stored,rfl,hunchanged,-⟩ | ⟨-,hcommitted,-⟩⟩ := commit_ends hends
    · rw [prepare_again hp] at hq
      cases hq
      obtain ⟨hname,hget,-⟩ := hfound
      cases hname
      rw [hrow] at hget
      cases hget
      exact hunchanged
    · obtain ⟨_,_,_,_,_,hfresh⟩ := hcommitted
      rw [hfresh.fresh] at hidem
      cases hidem
  · intro hunchanged
    have hread : t.versions.get new.currentVersion = some (versionRow p target actor now) := by
      rw [hact.versions, ← hcurrent, hversion, hversions, Table.get_add_new]
    refine ⟨_,ends_again later hp rfl hcurrent hrow ?_ ?_ hunchanged (yields_bind
      (ends_row .versions World.versions _ _ hread) (yields_bind (ends_ask _) (yields_ret _))),
      rfl,hcurrent.symm⟩
    · rw [← hnew]
      exact Nat.succ_ne_zero _
    · rw [← hnew]
      exact nofun

/-- Replay of a commit. The input that a commit has accepted, sent again for the version
it gave, is answered without a write if and only if the commit was itself such a replay,
asked for no slug, or got the slug it asked for. -/
theorem recommit_idempotent_iff (h : Ends (commit svc actor input now) w (.ok out) t) :
    ∃ p existing, prepareCommit svc input = .ok p ∧ Existing w p.input existing ∧
    ∀ other later, Recommits svc t other input later out ↔
      (∃ id doc, existing = some (id,doc) ∧ unchanged svc p.input p.checksum doc = true) ∨
      ∀ slug, p.input.slug = some slug → SlugKept svc w.docs p.input slug existing := by
  obtain ⟨p,existing,hp,hex,⟨id,doc,rfl,hsame,hreplay⟩ | ⟨hdiff,hcommitted,hid,hversion⟩⟩ :=
    commit_ends h
  · refine ⟨p,_,hp,hex,fun other later => iff_of_true ?_ (Or.inl ⟨id,doc,rfl,hsame⟩)⟩
    obtain ⟨rfl,hidem,hid,hversion⟩ := replay_again hreplay
    exact ⟨out,ends_again later hp hid hversion hex.2.1 hex.2.2.1 hex.2.2.2.1 hsame hreplay,hidem,rfl⟩
  refine ⟨p,existing,hp,hex,fun other later => ?_⟩
  rw [committed_recommits later other hp hex hcommitted hid hversion]
  constructor
  · exact Or.inr
  rintro (⟨id,doc,rfl,hsame⟩ | hslug)
  · rw [hdiff id doc rfl] at hsame
    cases hsame
  · exact hslug

end Commit

theorem recommit_idempotent_iff_guide : ∃ out t,
    Ends (commit asciiService [] guideInput 2) World.empty (.ok out) t ∧
    Recommits asciiService t [] guideInput 3 out := by
  obtain ⟨p,hp,hinput⟩ := guide_prepared
  obtain ⟨out,t,_,hends,-⟩ := ends_create asciiService (w := World.empty) [] guideInput 2 p hp
    (by rw [hinput]; rfl)
  obtain ⟨q,existing,hq,hex,hiff⟩ := recommit_idempotent_iff hends
  refine ⟨out,t,hends,(hiff [] 3).mpr (Or.inr ?_)⟩
  rw [hp] at hq
  cases hq
  rw [hinput] at hex ⊢
  match existing, hex with
  | none, _ =>
    rintro slug hslug (hreserved | ⟨id,howner,-⟩)
    · cases hslug
      exact absurd hreserved (by decide)
    · obtain ⟨_,hdoc,-⟩ := owner_mem _ _ id howner
      cases hdoc

/-- A new document that asks for the slug of an index gets `index-2`. -/
theorem recommit_writes_index : ¬∀ svc w actor input now out t,
    Ends (commit svc actor input now) w (.ok out) t →
    ∀ other later, Recommits svc t other input later out := by
  intro h
  obtain ⟨p,hp⟩ := prepare_total asciiService { guideInput with slug := some "index".toList }
    (by decide) (by decide) (by decide) (by decide)
  obtain ⟨-,hinput,-⟩ := prepare_ok _ p hp
  obtain ⟨out,t,_,hends,-⟩ := ends_create asciiService (w := World.empty) []
    { guideInput with slug := some "index".toList } 2 p hp (by rw [hinput]; rfl)
  obtain ⟨q,existing,hq,hex,⟨_,_,rfl,-⟩ | ⟨-,hcommitted,hid,hversion⟩⟩ := commit_ends hends
  · rw [hp] at hq
    cases hq
    rw [hinput] at hex
    cases hex.1
  rw [hp] at hq
  cases hq
  have hkept := (committed_recommits 3 [] hp hex hcommitted hid hversion).mp (h _ _ _ _ _ _ _ hends [] 3)
  rw [hinput] at hex hkept
  match existing, hex with
  | none, _ => exact hkept "index".toList rfl (Or.inl (by decide))

end AndaBrain.WikiRecommit
