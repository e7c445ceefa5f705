import AndaBrain.WikiSteps

/-!
# The wiki operations without faults

A database that serves every call lets every commit finish. What the operation has then
done to the documents and the versions is what it decided when it looked.
-/

set_option autoImplicit false

namespace AndaBrain.WikiQuiet
open Foundation Foundation.Resumption Foundation.Utf8Text
open WikiChunk WikiText WikiStore
open WikiSteps

section Rules
variable {α β : Type} {w t u : World}

abbrev Ends (p : M α) (w : World) (r : Except WikiError α) (t : World) : Prop :=
  Yields Fault.none p w r t

theorem ends_ask (f : World → Except WikiError α) : Ends (ask f) w (f w) w :=
  yields_query _

theorem ends_peek (f : World → α) : Ends (peek f) w (.ok (f w)) w :=
  yields_query _

theorem ends_write (f : World → World) (answer : World → Except WikiError α) :
    Ends (write f answer) w (answer w) (f w) :=
  yields_atomic _ _

theorem ends_pass (c : Prop) [Decidable c] (e : WikiError) (f : Unit → M α) {r : Except WikiError α}
    (hc : ¬c) (h : Ends (f ()) w r t) : Ends (refuseIf c e >>= f) w r t := by
  rw [refuseIf, if_neg hc]
  exact yields_bind (yields_ret ()) h

theorem ends_refused (c : Prop) [Decidable c] (e : WikiError) (f : Unit → M α) (hc : c) :
    Ends (refuseIf c e >>= f) w (.error e) w := by
  rw [refuseIf, if_pos hc]
  exact yields_bind_error (yields_fail e)

theorem reads_ends (p : M α) {Q : α → Prop} {a : α} (h : Reads Q p w) (he : Ends p w (.ok a) t) :
    Q a ∧ t = w :=
  safe_yields (G := fun _ _ => False) (E := fun _ _ => True) (Q := fun a s => Q a ∧ s = w) p w
    (safe_looks p w h (fun _ hq => ⟨hq,rfl⟩) fun _ _ => trivial) he

theorem reads_still (p : M α) {Q : α → Prop} {r : Except WikiError α} (h : Reads Q p w)
    (he : Ends p w r t) : t = w := by
  have hend := safe_outcome_end (G := fun _ _ => False) (fun s => s = w) p w
    (safe_looks p w h (fun _ _ => rfl) fun _ _ => rfl) fun _ => Fault.none
  rw [he] at hend
  exact hend

variable {svc : WikiService}

theorem ends_row (c : Collection) (table : World → Table α) (id : ℕ) (row : α)
    (h : (table w).get id = some row) : Ends (getRow svc c table id) w (.ok row) w := by
  have hask : ∀ f : World → Except WikiError α, f w = .ok row → Ends (ask f) w (.ok row) w :=
    fun f hf => hf ▸ ends_ask f
  apply hask
  rw [h]

theorem ends_doc (docId : ℕ) (doc : WikiDoc) (h : w.docs.get docId = some doc)
    (hne : doc.currentVersion ≠ 0) : Ends (docRecord svc docId) w (.ok doc) w :=
  yields_bind (ends_row .docs World.docs docId doc h) (ends_pass _ _ _ hne (yields_ret doc))

theorem ends_initializing (docId : ℕ) (doc : WikiDoc) (h : w.docs.get docId = some doc)
    (hzero : doc.currentVersion = 0) : Ends (docRecord svc docId) w
    (.error (.notFound ("document ".toList++decimal docId++" not found".toList))) w :=
  yields_bind (ends_row .docs World.docs docId doc h) (ends_refused _ _ _ hzero)

end Rules

section Loops
variable {svc : WikiService} {w : World}

theorem ends_drop_chunks (ids : List ℕ) :
    Ends (each removeChunk ids) w (.ok ()) { w with chunks := dropAll w.chunks ids } := by
  induction ids generalizing w with
  | nil => exact yields_ret ()
  | cons id ids ih => exact yields_bind (ends_write _ _) (ih (w := { w with chunks := w.chunks.remove id }))

variable (svc) in
theorem ends_mark (current : Bool) (ids : List ℕ) (h : ∀ id ∈ ids, (w.chunks.get id).isSome) :
    Ends (each (setCurrent svc current) ids) w (.ok ())
      { w with chunks := markAll current w.chunks ids } := by
  induction ids generalizing w with
  | nil => exact yields_ret ()
  | cons id ids ih =>
    have hwrite := ends_write (w := w)
      (fun w => { w with chunks := w.chunks.update id (ChunkRow.mark current) })
      fun w => if (w.chunks.get id).isSome then .ok () else .error (missing svc .chunks id)
    rw [if_pos (h id (by simp))] at hwrite
    refine yields_bind hwrite (ih (w := { w with chunks := w.chunks.update id (ChunkRow.mark current) }) ?_)
    intro i hi
    have hsome := h i (by simp [hi])
    show ((w.chunks.update id (ChunkRow.mark current)).get i).isSome
    rw [Table.get_update]
    split <;> simp [hsome]

theorem add_all_keeps (t : Table ChunkRow) (rows : List ChunkRow) (id : ℕ)
    (h : (t.get id).isSome) : ((addAll t rows).get id).isSome := by
  induction rows generalizing t with
  | nil => exact h
  | cons row rows ih =>
    apply ih
    obtain ⟨old,hold⟩ := Option.isSome_iff_exists.mp h
    have := Table.get_bound t id old hold
    rw [Table.get_add_old _ _ _ (by omega)]
    exact h

theorem ends_add_chunks (rows : List ChunkRow) :
    ∃ ids, Ends (addChunks rows) w (.ok ids) { w with chunks := addAll w.chunks rows } ∧
      ∀ id ∈ ids, ((addAll w.chunks rows).get id).isSome := by
  induction rows generalizing w with
  | nil => exact ⟨[],yields_ret [],fun _ h => nomatch h⟩
  | cons row rows ih =>
    obtain ⟨ids,hends,hids⟩ := ih (w := { w with chunks := w.chunks.add row })
    refine ⟨(w.chunks.last+1)::ids,?_,?_⟩
    · exact yields_bind (ends_write _ _) (yields_bind hends (yields_ret _))
    intro id hid
    rcases List.mem_cons.mp hid with rfl | hid
    · apply add_all_keeps (w.chunks.add row) rows
      rw [Table.get_add_new]
      rfl
    · exact hids id hid

end Loops

section Commit
variable (svc : WikiService) {w : World}

theorem ends_update (id : ℕ) (f : WikiDoc → WikiDoc) (h : (w.docs.get id).isSome) :
    Ends (updateDoc svc id f) w (.ok ()) { w with docs := w.docs.update id f } := by
  have hwrite := ends_write (w := w) (fun w => { w with docs := w.docs.update id f })
    fun w => if (w.docs.get id).isSome then .ok () else .error (missing svc .docs id)
  rw [if_pos h] at hwrite
  exact hwrite

theorem ends_drop_superseded (c : Prop) [Decidable c] (docId versionId : ℕ) : ∃ t, Ends
    (doIf c (dropChunksOf svc docId versionId)) w (.ok ()) t ∧ t.docs = w.docs ∧ t.versions =
    w.versions := by
  by_cases hc : c
  · rw [doIf, if_pos hc]
    exact ⟨_,yields_bind (ends_ask _) (ends_drop_chunks _),rfl,rfl⟩
  · rw [doIf, if_neg hc]
    exact ⟨w,yields_ret (),rfl,rfl⟩

theorem ends_activate (p : Prepared) (target : Target) (doc : WikiDoc) (tags : List Text)
    (aclLabel actor : Text) (now generation : ℕ) (hrow : w.docs.get target.docId = some doc) : ∃ out
    t, Ends (activate svc actor p now generation tags aclLabel target) w (.ok out) t ∧ Activated w p
    target tags aclLabel actor now generation out t ∧ out.doc.id = target.docId ∧
    out.version.id = w.versions.last+1 := by
  obtain ⟨ids,hchunks,hids⟩ := ends_add_chunks
    (w := { w with versions := w.versions.add (versionRow p target actor now) })
    (patched p target (w.versions.last+1) aclLabel)
  have hupdate := ends_update svc (w := { w with
    versions := w.versions.add (versionRow p target actor now)
    chunks := addAll w.chunks (patched p target (w.versions.last+1) aclLabel) }) target.docId
    (publishedDoc p target tags aclLabel actor now (w.versions.last+1) generation)
    (by rw [hrow]; rfl)
  have hmark := ends_mark svc (w := { w with
    docs := w.docs.update target.docId
      (publishedDoc p target tags aclLabel actor now (w.versions.last+1) generation)
    versions := w.versions.add (versionRow p target actor now)
    chunks := addAll w.chunks (patched p target (w.versions.last+1) aclLabel) }) true ids hids
  obtain ⟨t,hdrop,hdocs,hversions⟩ := ends_drop_superseded svc (w := { w with
    docs := w.docs.update target.docId
      (publishedDoc p target tags aclLabel actor now (w.versions.last+1) generation)
    versions := w.versions.add (versionRow p target actor now)
    chunks := markAll true (addAll w.chunks (patched p target (w.versions.last+1) aclLabel)) ids })
    (target.created = false) target.docId target.prevVersion
  have hdoc : t.docs.get target.docId = some
      (publishedDoc p target tags aclLabel actor now (w.versions.last+1) generation doc) := by
    rw [hdocs, Table.get_update_self, hrow]
    rfl
  have hversion : t.versions.get (w.versions.last+1) = some (versionRow p target actor now) := by
    rw [hversions, Table.get_add_new]
  refine ⟨_,_,yields_bind (ends_write _ _) (yields_bind hchunks (yields_bind hupdate
    (yields_bind hmark (yields_bind hdrop (yields_bind (ends_write _ _) (yields_bind
      (ends_doc target.docId _ hdoc (Nat.succ_ne_zero _)) (yields_bind
        (ends_row .versions World.versions _ _ hversion) (yields_ret _)))))))),
    ⟨hdocs,hversions,rfl,rfl⟩,rfl,rfl⟩

theorem ends_label (input : CommitInput) (existing : Option (ℕ × WikiDoc)) :
    ∃ label, Ends (commitLabel input existing) w (.ok label) w := by
  unfold commitLabel
  split
  · exact ⟨_,yields_ret _⟩
  · exact ⟨_,yields_ret _⟩
  · exact ⟨_,ends_peek _⟩

theorem ends_probe (ns base : Text) (exclude : Option ℕ) (attempts : List ℕ) :
    ∃ found, Ends (probeSlugs ns base exclude attempts) w (.ok found) w := by
  induction attempts with
  | nil => exact ⟨none,yields_ret _⟩
  | cons attempt rest ih =>
    obtain ⟨found,hrest⟩ := ih
    unfold probeSlugs
    split
    · exact ⟨found,hrest⟩
    cases howner : slugOwner w.docs ns (slugCandidate base attempt) with
    | none =>
      have hask := ends_ask (w := w) fun w => .ok (slugOwner w.docs ns (slugCandidate base attempt))
      rw [howner] at hask
      exact ⟨_,yields_bind hask (yields_ret _)⟩
    | some id =>
      have hask := ends_ask (w := w) fun w => .ok (slugOwner w.docs ns (slugCandidate base attempt))
      rw [howner] at hask
      by_cases hex : some id = exclude
      · refine ⟨some (slugCandidate base attempt),yields_bind hask ?_⟩
        simp only [if_pos hex]
        exact yields_ret _
      · refine ⟨found,yields_bind hask ?_⟩
        simp only [if_neg hex]
        exact hrest

theorem ends_unique_slug (ns base : Text) (exclude : Option ℕ) (now : ℕ) :
    ∃ slug, Ends (uniqueSlug svc ns base exclude now) w (.ok slug) w := by
  obtain ⟨found,hprobe⟩ := ends_probe (w := w) ns (slugifyPath svc.toLibrary base) exclude
    (List.range 100)
  cases found with
  | none => exact ⟨_,yields_bind hprobe (yields_ret _)⟩
  | some slug => exact ⟨slug,yields_bind hprobe (yields_ret _)⟩

theorem ends_moved (input : CommitInput) (id : ℕ) (doc : WikiDoc) (now : ℕ) :
    ∃ slug, Ends (movedSlug svc input id doc now) w (.ok slug) w := by
  unfold movedSlug
  extract_lets ns want
  split
  · exact ends_unique_slug svc _ _ _ _
  · exact ⟨_,yields_ret _⟩

theorem ends_publish (actor : Text) (p : Prepared) (now : ℕ) (existing : Option (ℕ × WikiDoc))
    (hex : Existing w p.input existing) : ∃ out t, Ends (publish svc actor p now existing) w
    (.ok out) t ∧ Committed svc w actor p now existing out t ∧
    out.doc.id = existing.elim (w.docs.last+1) Prod.fst ∧ out.version.id = w.versions.last+1 := by
  obtain ⟨label,hlabel⟩ := ends_label (w := w) p.input existing
  have hgiven := (reads_ends _ (reads_label p.input existing) hlabel).1
  match existing, hex with
  | some (id,doc), hex =>
    obtain ⟨slug,hslug⟩ := ends_moved svc (w := w) p.input id doc now
    have hmoved := (reads_ends _ (reads_moved p.input id doc now) hslug).1
    obtain ⟨out,t,hends,hact,hnames⟩ := ends_activate svc (w := w) p
      ⟨id,false,p.input.ns.getD doc.ns,slug,doc.currentVersion⟩ doc
      (commitTags p.input (some (id,doc))) label actor now (doc.generation+1) hex.2.1
    exact ⟨out,t,yields_bind hlabel (yields_bind (yields_bind hslug (yields_ret _)) hends),
      ⟨label,⟨id,false,p.input.ns.getD doc.ns,slug,doc.currentVersion⟩,w,hgiven,
        ⟨hmoved,rfl,rfl,rfl,rfl,rfl⟩,hact⟩,hnames⟩
  | none, _ =>
    obtain ⟨slug,hslug⟩ := ends_unique_slug svc (w := w)
      (p.input.ns.getD defaultNamespace) (p.input.slug.getD (slugify svc.tables p.input.title)) none now
    have hsel := (reads_ends _ (reads_unique_slug _ _ _ _) hslug).1
    obtain ⟨out,t,hends,hact,hnames⟩ := ends_activate svc
      (w := { w with docs := w.docs.add (sentinelDoc p.input (p.input.ns.getD defaultNamespace) slug
        (commitTags p.input none) label actor now) }) p
      ⟨w.docs.last+1,true,p.input.ns.getD defaultNamespace,slug,0⟩ _
      (commitTags p.input none) label actor now 1 (Table.get_add_new _ _)
    exact ⟨out,t,yields_bind hlabel (yields_bind (yields_bind hslug (yields_bind (ends_write _ _)
      (yields_ret _))) hends),⟨label,⟨w.docs.last+1,true,p.input.ns.getD defaultNamespace,slug,0⟩,_,
        hgiven,⟨hsel,rfl,rfl,rfl,rfl,rfl⟩,hact⟩,hnames⟩

theorem ends_create (actor : Text) (input : CommitInput) (now : ℕ) (p : Prepared)
    (hp : prepareCommit svc input = .ok p) (hnew : p.input.docId = none) : ∃ out t doc, Ends
    (commit svc actor input now) w (.ok out) t ∧ t.docs = w.docs.add doc ∧ CreatedAs svc w.docs
    p.input now doc.slug ∧ doc.ns = p.input.ns.getD defaultNamespace ∧ ∀ given, p.input.aclLabel =
    some given → doc.aclLabel = trim given := by
  obtain ⟨out,t,hends,⟨label,target,middle,hlabel,hres,hact⟩,-⟩ :=
    ends_publish svc (w := w) actor p now none hnew
  obtain ⟨hsel,hid,hcreated,hns,hprev,rfl⟩ := hres
  have hexisting : Ends (existingDoc svc p.input) w (.ok none) w := by
    rw [existingDoc, hnew]
    exact yields_ret none
  have hdocs := hact.docs
  rw [hid, Table.update_add] at hdocs
  exact ⟨out,t,_,yields_bind (yields_lift_eq hp) (yields_bind hexisting hends),hdocs,hsel,hns,hlabel⟩

end Commit

end AndaBrain.WikiQuiet
