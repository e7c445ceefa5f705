import AndaBrain.WikiSweep
import AndaBrain.WikiOkf

/-!
# Runs of the wiki

The write lock lets one operation run at a time; the process may stop after any of its row writes.
-/

set_option autoImplicit false

namespace AndaBrain.WikiRuns
open Foundation Foundation.Resumption Foundation.Utf8Text
open WikiText WikiStore WikiLedger
open WikiSteps WikiSweep WikiOkf

inductive Op where
  | commit (actor : Text) (input : CommitInput) (now : ℕ)
  | archive (actor : Text) (docId now : ℕ)
  | restore (actor : Text) (docId now : ℕ)
  | sweep (now : ℕ)
  | setAclDefaults (defaults : List (Text × Text))
  | importEntry (actor ns : Text) (entry : BundleEntry) (now : ℕ)

inductive Answer where
  | committed (out : CommitOutput)
  | turned (doc : DocInfo)
  | swept (report : SweepReport)
  | done
  | imported (doc : Option ImportedDoc)

section System
variable (svc : WikiService) (yaml : Yaml)

def prog : Op → M Answer
  | .commit actor input now => do
    let out ← commit svc actor input now
    pure (.committed out)
  | .archive actor docId now => do
    let doc ← archive svc actor docId now
    pure (.turned doc)
  | .restore actor docId now => do
    let doc ← restore svc actor docId now
    pure (.turned doc)
  | .sweep now => do
    let report ← orphanSweep svc now
    pure (.swept report)
  | .setAclDefaults defaults => do
    setAclDefaults defaults
    pure .done
  | .importEntry actor ns entry now => do
    let doc ← importEntry svc yaml actor ns entry now
    pure (.imported doc)

abbrev Wiki := Config Op Answer WikiError Fault World

def advance (c : Wiki) (e : Event Op Fault) : Wiki := Resumption.advance (prog svc yaml) id c e

def run (c : Wiki) (es : List (Event Op Fault)) : Wiki := Resumption.run (prog svc yaml) id c es

def start : Wiki := ⟨World.empty,none,[]⟩

theorem run_more (c : Wiki) (es fs : List (Event Op Fault)) :
    run svc yaml c (es++fs) = run svc yaml (run svc yaml c es) fs :=
  run_append _ _ c es fs

theorem run_served (o : Op) (c : Wiki) (r : Except WikiError Answer) (t : World)
    (hidle : c.running = none) (h : Yields Fault.none (prog svc yaml o) c.state r t) :
    ∃ n, run svc yaml c (.start o::List.replicate n (.tick .none)) = ⟨t,none,c.log++[(o,r)]⟩ := by
  obtain ⟨w,running,log⟩ := c
  cases hidle
  exact run_yields (prog svc yaml) id o Fault.none _ w t r log h

end System

section Operations
variable {svc : WikiService} {yaml : Yaml}
  {P : Table WikiDoc → Text → Text → Option ℕ → Prop} {w : World}

def MergedFor (w : World) (ns slug : Text) (input merged : CommitInput) : Prop :=
  match slugOwner w.docs ns slug with
  | none => merged = input
  | some id => ∃ doc, w.docs.get id = some doc ∧ doc.currentVersion ≠ 0 ∧
      merged = mergedInput input id doc

def CommitOf (svc : WikiService) (yaml : Yaml) (w : World) : Op → CommitInput → ℕ → Prop
  | .commit _ raw now, input, stamp =>
    stamp = now ∧ ∃ p, prepareCommit svc raw = .ok p ∧ p.input = input
  | .importEntry _ ns entry now, input, stamp =>
    stamp = now ∧ ∃ concept raw p, conceptPath entry.path = some concept ∧
      importInput svc yaml ns concept entry = .ok raw ∧ prepareCommit svc raw = .ok p ∧
      MergedFor w ns (slugifyPath svc.toLibrary concept) p.input input
  | _, _, _ => False

def SlugsKnown (svc : WikiService) (yaml : Yaml)
    (P : Table WikiDoc → Text → Text → Option ℕ → Prop) (w : World) (o : Op) : Prop :=
  ∀ input now existing, CommitOf svc yaml w o input now → Existing w input existing →
    SlugKnown svc P w.docs input now existing

def Replaces : Op → ℕ → ℕ → Prop
  | .commit _ input _, docId, version => Parent input docId version
  | _, _, _ => True

def Reached : Op → Answer → World → Prop
  | .sweep _, _, t => CleanFrom t 0
  | _, _, _ => True

theorem keeps_commit_op (actor : Text) (input : CommitInput) (now : ℕ) (hok : Ok svc w)
    (h : SlugsKnown svc yaml P w (.commit actor input now)) :
    Keeps svc P (Parent input) (fun _ _ => True) (commit svc actor input now) w := by
  apply keeps_bind
  apply safe_lift
  · intro p hp
    obtain ⟨hprepared,hinput,-⟩ := prepare_ok input p hp
    apply keeps_mono _ (keeps_commit actor p now hprepared hok
      (fun existing => h p.input now existing ⟨rfl,p,hp,rfl⟩) ?_)
    · exact fun _ _ _ => trivial
    · intro docId version hparent
      rw [hinput] at hparent
      exact hparent
  · exact fun _ _ => trivial

theorem reads_merged (ns slug : Text) (input : CommitInput) :
    Reads (MergedFor w ns slug input) (mergeInto svc ns slug input) w := by
  apply reads_bind _ _ (reads_owner ns slug)
  intro found hfound
  cases found with
  | none =>
    show MergedFor w ns slug input input
    rw [MergedFor, ← hfound]
  | some id =>
    apply reads_bind _ _ (reads_doc id)
    intro doc hdoc
    apply reads_bind _ _ (R := fun _ => True)
    · exact safe_lift _ _ (fun _ _ => trivial) fun _ _ => trivial
    intro _ _
    show MergedFor w ns slug input (mergedInput input id doc)
    rw [MergedFor, ← hfound]
    exact ⟨doc,hdoc.1,hdoc.2,rfl⟩

theorem keeps_import_prepared (actor ns slug path : Text) (p : Prepared) (now : ℕ)
    (hp : PreparedOk svc p) (hok : Ok svc w)
    (h : ∀ merged existing, MergedFor w ns slug p.input merged → Existing w merged existing →
      SlugKnown svc P w.docs merged now existing) :
    Keeps svc P (fun _ _ => True) (fun _ _ => True)
      (importPrepared svc actor ns slug path p now) w := by
  apply keeps_read _ _ (reads_merged ns slug p.input)
  intro merged hmerged
  apply keeps_bind
  have hprepared : PreparedOk svc { p with input := merged } :=
    ⟨hp.checksum,hp.normal,hp.nonempty,hp.bound,hp.rows⟩
  apply keeps_mono _ (keeps_commit actor _ now hprepared hok
    (fun existing => h merged existing hmerged) fun _ _ _ => trivial)
  exact fun _ _ _ => trivial

theorem keeps_import_op (actor ns : Text) (entry : BundleEntry) (now : ℕ) (hok : Ok svc w)
    (h : SlugsKnown svc yaml P w (.importEntry actor ns entry now)) :
    Keeps svc P (fun _ _ => True) (fun _ _ => True) (importEntry svc yaml actor ns entry now) w := by
  unfold importEntry
  split
  · trivial
  rename_i concept hconcept
  apply keeps_bind
  apply safe_lift _ _ _ (fun _ _ => trivial)
  intro input hinput
  apply keeps_bind
  apply safe_lift _ _ _ (fun _ _ => trivial)
  intro p hp
  apply keeps_bind
  apply keeps_mono _ (keeps_import_prepared actor ns _ entry.path p now
    (prepare_ok input p hp).1 hok fun merged existing hmerged =>
      h merged now existing ⟨rfl,concept,input,p,hconcept,hinput,hp,hmerged⟩)
  exact fun _ _ _ => trivial

theorem keeps_op (o : Op) (hok : Ok svc w) (h : SlugsKnown svc yaml P w o) :
    Keeps svc P (Replaces o) (Reached o) (prog svc yaml o) w := by
  cases o with
  | commit actor input now =>
    exact keeps_bind _ _ (keeps_commit_op actor input now hok h)
  | archive actor docId now => exact keeps_bind _ _ (keeps_turn _ _ _ _ _ _)
  | restore actor docId now => exact keeps_bind _ _ (keeps_turn _ _ _ _ _ _)
  | sweep now => exact keeps_bind _ _ (keeps_sweep hok now)
  | setAclDefaults defaults => exact keeps_bind _ _ (keeps_labels defaults)
  | importEntry actor ns entry now =>
    exact keeps_bind _ _ (keeps_import_op actor ns entry now hok h)

end Operations

section Runs
variable {svc : WikiService} {yaml : Yaml}
  {P : Table WikiDoc → Text → Text → Option ℕ → Prop}

theorem stepwise : Stepwise (prog svc yaml) id (fun o w => SlugsKnown svc yaml P w o) (Ok svc)
    (fun o => Change svc P (Replaces o)) Reached where
  keep _ _ _ hok hchange := change_ok hok hchange
  op o _ hok h := keeps_op o hok h
  boot _ hok := hok

def Anything (_ : Table WikiDoc) (_ _ : Text) (_ : Option ℕ) : Prop := True

theorem slugs_known_anything (w : World) (o : Op) : SlugsKnown svc yaml Anything w o := by
  intro input now existing _ _
  match existing with
  | none => exact fun _ _ => trivial
  | some (id,doc) => exact fun _ _ => Or.inr trivial

variable (svc yaml)

def Held (c : Wiki) : Prop := InStep (Ok svc) (fun o => Change svc Anything (Replaces o)) Reached c

theorem run_held (c : Wiki) (es : List (Event Op Fault)) (h : Held svc c) :
    Held svc (run svc yaml c es) :=
  run_in_step stepwise c es (starts_any c es fun o w => slugs_known_anything w o) h

theorem start_held : Held svc start := ⟨ok_empty svc,fun _ _ h => nomatch h⟩

theorem run_evolves (c : Wiki) (es : List (Event Op Fault)) (h : Held svc c) :
    Evolves c.state (run svc yaml c es).state :=
  in_step_related stepwise Evolves evolves_refl evolves_trans
    (fun _ _ _ hchange => change_evolves hchange) evolves_refl c es
    (starts_any c es fun o w => slugs_known_anything w o) h

def Publishes (c : Wiki) (e : Event Op Fault) (docId version : ℕ) : Prop :=
  ∃ doc doc', c.state.docs.get docId = some doc ∧ doc.currentVersion = version ∧
    (advance svc yaml c e).state.docs.get docId = some doc' ∧ doc'.currentVersion ≠ version

theorem publishes_replaces (c : Wiki) (e : Event Op Fault) (docId version : ℕ) (h : Held svc c)
    (hp : Publishes svc yaml c e docId version) :
    ∃ o p, c.running = some (o,p) ∧ Replaces o docId version := by
  obtain ⟨doc,doc',hdoc,rfl,hdoc',hne⟩ := hp
  have hsame (hstate : (advance svc yaml c e).state = c.state) : False := by
    rw [hstate, hdoc] at hdoc'
    cases hdoc'
    exact hne rfl
  rcases in_step_cases (prog svc yaml) id c e h with hs | ⟨o,p,hr,hchange⟩ | hs
  · exact (hsame hs).elim
  · exact ⟨o,p,hr,change_publishes hchange docId doc doc' hdoc hdoc' hne⟩
  · exact (hsame hs).elim

theorem replaced_once (c : Wiki) (e f : Event Op Fault) (es : List (Event Op Fault))
    (docId other version : ℕ) (h : Held svc c) (hne : version ≠ 0)
    (hp : Publishes svc yaml c e docId version)
    (hq : Publishes svc yaml (run svc yaml (advance svc yaml c e) es) f other version) : False := by
  obtain ⟨doc,doc',hdoc,rfl,hdoc',hmoved⟩ := hp
  obtain ⟨last,-,hlast,hversion,-,-⟩ := hq
  obtain ⟨ids,hids⟩ := h.1.chains docId doc hdoc hne
  have hin : doc.currentVersion ∈ ids :=
    List.mem_of_mem_head? (published_head docId ids doc hids hdoc)
  have hone : Evolves c.state (advance svc yaml c e).state := run_evolves svc yaml c [e] h
  have hheld : Held svc (advance svc yaml c e) := run_held svc yaml c [e] h
  obtain ⟨hkept,more,hmore⟩ := hone.kept docId ids hids
  obtain ⟨hkept',after,hafter⟩ :=
    (run_evolves svc yaml (advance svc yaml c e) es hheld).kept docId _ hmore
  -- the version row says whose version it is
  obtain ⟨others,hothers⟩ := (run_held svc yaml _ es hheld).1.chains other last hlast
    (by rw [hversion]; exact hne)
  obtain ⟨v,hv,hown⟩ := chain_row ids hids.choose_spec.2.2 _ hin
  have hv' : (run svc yaml (advance svc yaml c e) es).state.versions.get doc.currentVersion = some v := by
    rw [hkept' _ (List.mem_append_right _ hin), hkept _ hin]
    exact hv
  have hheadOther := published_head other others last hothers hlast
  rw [hversion] at hheadOther
  have heq := published_owner docId other others _ v hothers (List.mem_of_mem_head? hheadOther)
    hv' hown
  subst heq
  -- it cannot be the newest one: something stands before it
  have hheadAfter := published_head other _ last hafter hlast
  rw [hversion] at hheadAfter
  have hsorted := chain_sorted _ hafter.choose_spec.2.2
  cases more with
  | nil =>
    have hhead' := published_head other _ doc' hmore hdoc'
    rw [List.nil_append, published_head other ids doc hids hdoc, Option.some.injEq] at hhead'
    exact hmoved hhead'.symm
  | cons first rest =>
    cases after with
    | nil =>
      have hfirst : first = doc.currentVersion := by simpa using hheadAfter
      have hlt := (List.pairwise_cons.mp hsorted).1 doc.currentVersion (by simp [hin])
      omega
    | cons second rest' =>
      have hsecond : second = doc.currentVersion := by simpa using hheadAfter
      have hlt := (List.pairwise_cons.mp hsorted).1 doc.currentVersion (by simp [hin])
      omega

/-- Publication is atomic, and what a crash leaves is repaired. After every row write of
every run, crashes included: the published versions of a document are one chain of
parents with falling ids that ends in a version without parent; none of them changes or
goes; of two updates based on the same version at most one is published; and where a
sweep has returned, every document that is not initializing has the chunk rows of its
current version, which tile the content and are visible if the document is active, its
published versions, and no other rows. -/
theorem publication_atomic_and_repairable (es : List (Event Op Fault)) :
    let c := run svc yaml start es
    (∀ docId doc, c.state.docs.get docId = some doc → doc.currentVersion ≠ 0 →
      ∃ ids, ids.head? = some doc.currentVersion ∧ Chain c.state.versions docId ids ∧
        ids.Pairwise (· > ·)) ∧
    (∀ fs docId ids, Published c.state docId ids →
      (∀ id ∈ ids, (run svc yaml c fs).state.versions.get id = c.state.versions.get id) ∧
      ∃ more, Published (run svc yaml c fs).state docId (more++ids)) ∧
    (∀ e f fs actor actor' input input' now now' p p' docId docId' version version',
      input.docId ≠ none → input'.docId ≠ none → input.parentVersion = input'.parentVersion →
      c.running = some (.commit actor input now,p) →
      (run svc yaml (advance svc yaml c e) fs).running = some (.commit actor' input' now',p') →
      ¬(Publishes svc yaml c e docId version ∧
        Publishes svc yaml (run svc yaml (advance svc yaml c e) fs) f docId' version')) ∧
    (∀ now r, c.running = some (.sweep now,.ret r) →
      ∀ docId doc, c.state.docs.get docId = some doc → doc.currentVersion ≠ 0 →
        (∃ v, c.state.versions.get doc.currentVersion = some v ∧
          RowsOf svc v ((storedRows c.state docId doc.currentVersion).map core) ∧
          ((storedRows c.state docId doc.currentVersion).map ChunkRow.text).flatten = v.content) ∧
        (∀ id row, c.state.chunks.get id = some row → row.docId = docId →
          row.versionId = doc.currentVersion ∧ row.current = (doc.status == .active)) ∧
        ∃ ids, Published c.state docId ids ∧
          ∀ id, id ∈ ids ↔ ∃ v, c.state.versions.get id = some v ∧ v.docId = docId) := by
  intro c
  have hheld : Held svc c := run_held svc yaml start es (start_held svc)
  refine ⟨?_,?_,?_,?_⟩
  · intro docId doc hdoc hne
    obtain ⟨ids,hids⟩ := hheld.1.chains docId doc hdoc hne
    exact ⟨ids,published_head docId ids doc hids hdoc,hids.choose_spec.2.2,
      chain_sorted ids hids.choose_spec.2.2⟩
  · intro fs docId ids hids
    exact (run_evolves svc yaml c fs hheld).kept docId ids hids
  · intro e f fs actor actor' input input' now now' p p' docId docId' version version' hupdate
      hupdate' hparent hrun hrun' hboth
    obtain ⟨o,q,ho,hrep⟩ := publishes_replaces svc yaml c e docId version hheld hboth.1
    rw [hrun] at ho
    cases ho
    have hheld' := run_held svc yaml _ fs (run_held svc yaml c [e] hheld)
    obtain ⟨o',q',ho',hrep'⟩ := publishes_replaces svc yaml _ f docId' version' hheld' hboth.2
    have hsame : some (o',q') = some (Op.commit actor' input' now',p') := ho'.symm.trans hrun'
    cases hsame
    rcases hrep with ⟨hnone,-⟩ | ⟨-,hfrom,hne⟩
    · exact hupdate hnone
    rcases hrep' with ⟨hnone,-⟩ | ⟨-,hfrom',-⟩
    · exact hupdate' hnone
    · rw [hparent, hfrom'] at hfrom
      cases hfrom
      exact replaced_once svc yaml c e f fs docId docId' version hheld hne hboth.1 hboth.2
  intro now r hrun docId doc hdoc hne
  have hclean : CleanFrom c.state 0 := hheld.2 _ _ hrun
  have h := hclean docId doc hdoc (Nat.zero_le _) hne
  obtain ⟨v,hv,hrows⟩ := hheld.1.tiled docId doc hdoc hne
  refine ⟨⟨v,hv,hrows,?_⟩,h.chunks,?_⟩
  · have htext := rows_of_text v _ (hheld.1.versions _ v hv).nonempty hrows
    rw [List.map_map] at htext
    exact htext
  obtain ⟨ids,hids⟩ := hheld.1.chains docId doc hdoc hne
  refine ⟨ids,hids,fun id => ⟨chain_row ids hids.choose_spec.2.2 id,?_⟩⟩
  rintro ⟨u,hu,hown⟩
  obtain ⟨others,hothers,hid⟩ := h.versions id u hu hown
  rw [published_unique docId ids others hids hothers]
  exact hid

end Runs

end AndaBrain.WikiRuns
