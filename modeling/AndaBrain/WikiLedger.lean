import AndaBrain.WikiStore

/-!
# What the rows of the wiki say of each other

The published versions of a document are a chain of parents. The chunks of its current version are
the rows of that version's content.
-/

set_option autoImplicit false

namespace AndaBrain.WikiLedger
open Foundation Foundation.Utf8Text
open WikiChunk WikiText WikiStore

/-- Versions of one document, newest first, each the parent of the one before it. -/
def Chain (versions : Table WikiVersion) (docId : ℕ) : List ℕ → Prop
  | [] => False
  | [id] => ∃ v, versions.get id = some v ∧ v.docId = docId ∧ v.parentVersion = none
  | id::parent::rest =>
    (∃ v, versions.get id = some v ∧ v.docId = docId ∧ v.parentVersion = some parent) ∧
      parent < id ∧ Chain versions docId (parent::rest)

def Published (w : World) (docId : ℕ) (ids : List ℕ) : Prop :=
  ∃ doc, w.docs.get docId = some doc ∧ ids.head? = some doc.currentVersion ∧
    Chain w.versions docId ids

section Chains
variable {versions : Table WikiVersion} {docId : ℕ}

theorem chain_row (ids : List ℕ) (h : Chain versions docId ids) (id : ℕ) (hid : id ∈ ids) :
    ∃ v, versions.get id = some v ∧ v.docId = docId := by
  induction ids with
  | nil => cases hid
  | cons first rest ih =>
    cases rest with
    | nil =>
      obtain ⟨v,hv,hd,-⟩ := h
      rw [List.mem_singleton.mp hid]
      exact ⟨v,hv,hd⟩
    | cons parent rest =>
      obtain ⟨⟨v,hv,hd,-⟩,-,hrest⟩ := h
      rcases List.mem_cons.mp hid with hid | hid
      · rw [hid]
        exact ⟨v,hv,hd⟩
      · exact ih hrest hid

theorem chain_sorted (ids : List ℕ) (h : Chain versions docId ids) : ids.Pairwise (· > ·) := by
  induction ids with
  | nil => exact List.Pairwise.nil
  | cons first rest ih =>
    cases rest with
    | nil => exact List.pairwise_singleton _ _
    | cons parent rest =>
      obtain ⟨-,hlt,hrest⟩ := h
      have hsorted := ih hrest
      refine List.pairwise_cons.mpr ⟨?_,hsorted⟩
      intro id hid
      rcases List.mem_cons.mp hid with hid | hid
      · rw [hid]
        exact hlt
      · exact ((List.pairwise_cons.mp hsorted).1 id hid).trans hlt

theorem chain_kept (other : Table WikiVersion) (ids : List ℕ) (h : Chain versions docId ids)
    (hsame : ∀ id ∈ ids, other.get id = versions.get id) : Chain other docId ids := by
  induction ids with
  | nil => exact h
  | cons first rest ih =>
    cases rest with
    | nil =>
      obtain ⟨v,hv,hd,hp⟩ := h
      exact ⟨v,by rw [hsame first (by simp), hv],hd,hp⟩
    | cons parent rest =>
      obtain ⟨⟨v,hv,hd,hp⟩,hlt,hrest⟩ := h
      exact ⟨⟨v,by rw [hsame first (by simp), hv],hd,hp⟩,hlt,
        ih hrest fun id hid => hsame id (List.mem_cons_of_mem _ hid)⟩

theorem chain_unique (ids other : List ℕ) (h : Chain versions docId ids)
    (ho : Chain versions docId other) (hhead : ids.head? = other.head?) : ids = other := by
  induction ids generalizing other with
  | nil => exact h.elim
  | cons first rest ih =>
    cases other with
    | nil => exact ho.elim
    | cons second others =>
      have hfirst : first = second := by simpa using hhead
      subst hfirst
      cases rest with
      | nil =>
        obtain ⟨v,hv,-,hp⟩ := h
        cases others with
        | nil => rfl
        | cons parent others =>
          obtain ⟨⟨u,hu,-,hq⟩,-,-⟩ := ho
          rw [hv] at hu
          cases hu
          rw [hp] at hq
          cases hq
      | cons parent rest =>
        obtain ⟨⟨v,hv,-,hp⟩,-,hrest⟩ := h
        cases others with
        | nil =>
          obtain ⟨u,hu,-,hq⟩ := ho
          rw [hv] at hu
          cases hu
          rw [hp] at hq
          cases hq
        | cons parent' others =>
          obtain ⟨⟨u,hu,-,hq⟩,-,hothers⟩ := ho
          rw [hv] at hu
          cases hu
          rw [hp] at hq
          cases hq
          rw [ih (parent::others) hrest hothers rfl]

end Chains

def core (row : ChunkRow) : ChunkRow :=
  { row with docId := 0, versionId := 0, ns := [], current := false, aclLabel := [] }

def RowsOf (svc : WikiService) (v : WikiVersion) (rows : List ChunkRow) : Prop :=
  ∃ title plan, chunkMarkdown svc.tables v.content = some plan ∧
    chunkRows svc title v.content v.checksum plan = some rows

section Rows
variable {svc : WikiService}

variable {α β : Type} (f : α → Option β) (as : List α)

theorem mapM_each (bs : List β)
    (h : as.mapM f = some bs) : List.Forall₂ (fun a b => f a = some b) as bs := by
  induction as generalizing bs with
  | nil =>
    cases h
    exact List.Forall₂.nil
  | cons a as ih =>
    rw [List.mapM_cons] at h
    cases ha : f a with
    | none => simp [ha] at h
    | some b =>
      cases hrest : as.mapM f with
      | none => simp [ha, hrest] at h
      | some rest =>
        simp [ha, hrest] at h
        subst h
        exact List.Forall₂.cons ha (ih rest hrest)

theorem mapM_mem (bs : List β)
    (h : as.mapM f = some bs) (b : β) (hb : b ∈ bs) : ∃ a ∈ as, f a = some b := by
  have hall := mapM_each f as bs h
  clear h
  induction hall with
  | nil => cases hb
  | cons hab _ ih =>
    rcases List.mem_cons.mp hb with rfl | hb
    · exact ⟨_,List.mem_cons_self,hab⟩
    · obtain ⟨a,ha,hf⟩ := ih hb
      exact ⟨a,List.mem_cons_of_mem _ ha,hf⟩

theorem mapM_defined (bs : List β)
    (h : as.mapM f = some bs) (a : α) (ha : a ∈ as) : ∃ b, f a = some b := by
  have hall := mapM_each f as bs h
  clear h
  induction hall with
  | nil => cases ha
  | cons hab _ ih =>
    rcases List.mem_cons.mp ha with rfl | ha
    · exact ⟨_,hab⟩
    · exact ih ha

theorem mapM_total (h : ∀ a ∈ as, ∃ b, f a = some b) : ∃ bs, as.mapM f = some bs := by
  induction as with
  | nil => exact ⟨[],rfl⟩
  | cons a as ih =>
    obtain ⟨b,hb⟩ := h a (by simp)
    obtain ⟨bs,hbs⟩ := ih fun c hc => h c (by simp [hc])
    exact ⟨b::bs,by rw [List.mapM_cons, hb, hbs]; rfl⟩

theorem chunk_rows_core (title content checksum : Text) (plan : ChunkPlan) (rows : List ChunkRow)
    (h : chunkRows svc title content checksum plan = some rows) (row : ChunkRow)
    (hrow : row ∈ rows) : core row = row := by
  obtain ⟨draft,-,hd⟩ := mapM_mem _ _ _ h row hrow
  obtain ⟨text,-,heq⟩ := Option.bind_eq_some_iff.mp hd
  cases heq
  rfl

theorem mapM_all (g : α → β) (as : List α)
    (h : ∀ a ∈ as, f a = some (g a)) : as.mapM f = some (as.map g) := by
  induction as with
  | nil => rfl
  | cons a as ih =>
    rw [List.mapM_cons, h a (by simp), ih fun b hb => h b (by simp [hb])]
    rfl

def rowSpan (row : ChunkRow) : SpanTiling.Span := (row.byteStart,row.byteEnd)

theorem rows_of_row (v : WikiVersion) (rows : List ChunkRow) (h : RowsOf svc v rows)
    (row : ChunkRow) (hrow : row ∈ rows) : slice v.content row.byteStart row.byteEnd = some row.text
    ∧ row.checksum = chunkChecksum svc.toLibrary v.checksum row.byteStart row.byteEnd row.text ∧
    row.chunkerVersion = chunkerVersion := by
  obtain ⟨title,plan,-,hrows⟩ := h
  obtain ⟨draft,-,hd⟩ := mapM_mem _ _ _ hrows row hrow
  obtain ⟨text,htext,heq⟩ := Option.bind_eq_some_iff.mp hd
  cases heq
  exact ⟨htext,rfl,rfl⟩

theorem rows_of_tiles (v : WikiVersion) (rows : List ChunkRow) (hne : v.content ≠ [])
    (h : RowsOf svc v rows) : SpanTiling.Tiles (Boundary v.content) 0 (rows.map rowSpan)
    (byteLen v.content) ∧ rows.length ≤ maxChunksPerVersion := by
  obtain ⟨title,plan,hplan,hrows⟩ := h
  obtain ⟨plan',hplan',ht,hlen⟩ := WikiTiling.chunk_markdown_spans svc.tables v.content hne
  rw [hplan] at hplan'
  cases hplan'
  have hall := mapM_each _ _ _ hrows
  have hspans : rows.map rowSpan = plan.drafts.map WikiTiling.draftSpan := by
    have hone : List.Forall₂ (fun d row => rowSpan row = WikiTiling.draftSpan d.1)
        plan.drafts.zipIdx rows := by
      apply hall.imp
      intro d row hd
      obtain ⟨text,-,heq⟩ := Option.bind_eq_some_iff.mp hd
      cases heq
      rfl
    have hmap : rows.map rowSpan = plan.drafts.zipIdx.map fun d => WikiTiling.draftSpan d.1 := by
      rw [← List.forall₂_eq_eq_eq, List.forall₂_map_left_iff, List.forall₂_map_right_iff]
      exact hone.flip
    rw [hmap]
    conv_rhs => rw [← List.zipIdx_map_fst 0 plan.drafts, List.map_map]
    rfl
  have hlen' := hall.length_eq
  rw [List.length_zipIdx] at hlen'
  rw [hspans]
  exact ⟨ht,by omega⟩

variable (svc) in
theorem chunk_rows_total (title content checksum : Text) (hne : content ≠ []) : ∃ plan rows,
    chunkMarkdown svc.tables content = some plan ∧ chunkRows svc title content checksum plan = some
    rows := by
  obtain ⟨plan,hplan,ht,-⟩ := WikiTiling.chunk_markdown_spans svc.tables content hne
  obtain ⟨pieces,hpieces,-⟩ := tiles_concat [] content _ ht
  -- every draft is a slice of the content
  have hslice : ∀ d ∈ plan.drafts.zipIdx, ∃ text,
      slice content d.1.byteStart d.1.byteEnd = some text := by
    intro d hd
    have hin : d.1 ∈ plan.drafts := by
      rw [← List.zipIdx_map_fst 0 plan.drafts]
      exact List.mem_map_of_mem hd
    rw [List.mapM_map] at hpieces
    exact mapM_defined _ _ _ hpieces d.1 hin
  have hrow : ∀ d ∈ plan.drafts.zipIdx, ∃ row,
      chunkRowOf svc title content checksum (outline svc.toLibrary content) d = some row := by
    intro d hd
    obtain ⟨text,htext⟩ := hslice d hd
    exact ⟨_,by rw [chunkRowOf, htext]; rfl⟩
  obtain ⟨rows,hrows⟩ := mapM_total _ _ hrow
  exact ⟨plan,rows,hplan,hrows⟩

theorem rows_of_text (v : WikiVersion) (rows : List ChunkRow) (hne : v.content ≠ [])
    (h : RowsOf svc v rows) : (rows.map ChunkRow.text).flatten = v.content := by
  obtain ⟨pieces,hpieces,hflat⟩ := tiles_concat [] v.content _ (rows_of_tiles v rows hne h).1
  have hmap := mapM_all (fun row => slice v.content row.byteStart row.byteEnd) ChunkRow.text rows
    fun row hrow => (rows_of_row v rows h row hrow).1
  have heq : some pieces = some (rows.map ChunkRow.text) := by
    rw [← hpieces, ← hmap, List.mapM_map]
    rfl
  cases heq
  exact hflat

end Rows

/-- The chunk rows of one version of a document, in the order of their ids. -/
def storedRows (w : World) (docId versionId : ℕ) : List ChunkRow :=
  (w.chunks.rows.filter fun r => r.2.docId == docId && r.2.versionId == versionId).map Prod.snd

def Tiled (svc : WikiService) (w : World) (docId versionId : ℕ) : Prop :=
  ∃ v, w.versions.get versionId = some v ∧
    RowsOf svc v ((storedRows w docId versionId).map core)

structure VersionOk (svc : WikiService) (v : WikiVersion) : Prop where
  checksum : v.checksum = checksumFor svc.toLibrary [v.content]
  size : v.size = byteLen v.content
  normal : ∃ raw, v.content = normalizeContent svc.toLibrary raw
  nonempty : v.content ≠ []
  bound : byteLen v.content ≤ maxDocBytes

structure Ok (svc : WikiService) (w : World) : Prop where
  versions : ∀ id v, w.versions.get id = some v → VersionOk svc v
  chains : ∀ docId doc, w.docs.get docId = some doc → doc.currentVersion ≠ 0 →
    ∃ ids, Published w docId ids
  tiled : ∀ docId doc, w.docs.get docId = some doc → doc.currentVersion ≠ 0 →
    Tiled svc w docId doc.currentVersion
  given : ∀ id row, w.chunks.get id = some row → row.versionId ≤ w.versions.last
  rows : ∀ id row v, w.chunks.get id = some row → w.versions.get row.versionId = some v →
    v.docId = row.docId ∧ ∃ rows, RowsOf svc v rows ∧ core row ∈ rows

structure Evolves (a b : World) : Prop where
  last : a.versions.last ≤ b.versions.last
  fresh : ∀ id v, b.versions.get id = some v → id ≤ a.versions.last → a.versions.get id = some v
  kept : ∀ docId ids, Published a docId ids →
    (∀ id ∈ ids, b.versions.get id = a.versions.get id) ∧ ∃ more, Published b docId (more++ids)

theorem evolves_refl (w : World) : Evolves w w :=
  ⟨Nat.le_refl _,fun _ _ h _ => h,fun _ _ h => ⟨fun _ _ => rfl,[],h⟩⟩

theorem evolves_trans (a b c : World) (h : Evolves a b) (g : Evolves b c) : Evolves a c := by
  constructor
  · exact h.last.trans g.last
  · intro id v hv hid
    exact h.fresh id v (g.fresh id v hv (hid.trans h.last)) hid
  intro docId ids hp
  obtain ⟨hsame,more,hmore⟩ := h.kept docId ids hp
  obtain ⟨hsame',more',hmore'⟩ := g.kept docId (more++ids) hmore
  refine ⟨fun id hid => (hsame' id (List.mem_append_right _ hid)).trans (hsame id hid),
    more'++more,?_⟩
  rw [List.append_assoc]
  exact hmore'

/-- Every row write of the store, with what holds when it is made. `P` is what is known
of a slug that a document takes, `A` says which documents may be published from which
version. -/
inductive Change (svc : WikiService) (P : Table WikiDoc → Text → Text → Option ℕ → Prop)
    (A : ℕ → ℕ → Prop) : World → World → Prop
  | log (w : World) (e : EventRow) : Change svc P A w { w with events := w.events.add e }
  | labels (w : World) (defaults : List (Text × Text)) :
      Change svc P A w { w with aclDefaults := defaults }
  | sentinel (w : World) (doc : WikiDoc) (h : doc.currentVersion = 0)
      (hslug : P w.docs doc.ns doc.slug none) : Change svc P A w { w with docs := w.docs.add doc }
  | version (w : World) (v : WikiVersion) (h : VersionOk svc v) :
      Change svc P A w { w with versions := w.versions.add v }
  | chunk (w : World) (row : ChunkRow) (v : WikiVersion)
      (hget : w.versions.get row.versionId = some v) (hdoc : v.docId = row.docId)
      (hrow : ∃ rows, RowsOf svc v rows ∧ core row ∈ rows)
      (hnot : ∀ doc, w.docs.get row.docId = some doc → doc.currentVersion ≠ row.versionId) :
      Change svc P A w { w with chunks := w.chunks.add row }
  | flip (w : World) (docId : ℕ) (doc : WikiDoc) (f : WikiDoc → WikiDoc) (v : WikiVersion)
      (hdoc : w.docs.get docId = some doc)
      (hget : w.versions.get (f doc).currentVersion = some v) (hv : v.docId = docId)
      (hparent : v.parentVersion = if doc.currentVersion = 0 then none else some doc.currentVersion)
      (hlt : doc.currentVersion < (f doc).currentVersion)
      (htiled : Tiled svc w docId (f doc).currentVersion)
      (hslug : ((f doc).ns = doc.ns ∧ (f doc).slug = doc.slug) ∨
        P w.docs (f doc).ns (f doc).slug (some docId)) (hauth : A docId doc.currentVersion) :
      Change svc P A w { w with docs := w.docs.update docId f }
  | turn (w : World) (docId : ℕ) (f : WikiDoc → WikiDoc)
      (hf : ∀ doc, (f doc).currentVersion = doc.currentVersion ∧ (f doc).ns = doc.ns ∧
        (f doc).slug = doc.slug) : Change svc P A w { w with docs := w.docs.update docId f }
  | mark (w : World) (id : ℕ) (current : Bool) : Change svc P A w
      { w with chunks := w.chunks.update id (ChunkRow.mark current) }
  | dropChunk (w : World) (id : ℕ) (h : ∀ row doc, w.chunks.get id = some row →
        w.docs.get row.docId = some doc → doc.currentVersion ≠ 0 →
        doc.currentVersion ≠ row.versionId) :
      Change svc P A w { w with chunks := w.chunks.remove id }
  | dropVersion (w : World) (id : ℕ) (h : ∀ docId ids, Published w docId ids → id ∉ ids) :
      Change svc P A w { w with versions := w.versions.remove id }
  | dropDoc (w : World) (docId : ℕ)
      (h : ∀ doc, w.docs.get docId = some doc → doc.currentVersion = 0) :
      Change svc P A w { w with docs := w.docs.remove docId }

section Steady
variable {svc : WikiService} {a b : World}

structure Steady (a b : World) : Prop where
  forth : ∀ docId doc, a.docs.get docId = some doc → doc.currentVersion ≠ 0 →
    ∃ doc', b.docs.get docId = some doc' ∧ doc'.currentVersion = doc.currentVersion
  back : ∀ docId doc, b.docs.get docId = some doc → doc.currentVersion ≠ 0 →
    ∃ doc', a.docs.get docId = some doc' ∧ doc'.currentVersion = doc.currentVersion

theorem steady_same (h : b.docs = a.docs) : Steady a b := by
  constructor
  · intro docId doc hdoc _
    exact ⟨doc,by rw [h]; exact hdoc,rfl⟩
  · intro docId doc hdoc _
    exact ⟨doc,by rw [← h]; exact hdoc,rfl⟩

theorem published_nonzero (docId : ℕ) (ids : List ℕ) (doc : WikiDoc) (h : Published a docId ids)
    (hdoc : a.docs.get docId = some doc) : doc.currentVersion ≠ 0 := by
  obtain ⟨doc',hdoc',hhead,hchain⟩ := h
  rw [hdoc] at hdoc'
  cases hdoc'
  intro hzero
  rw [hzero] at hhead
  obtain ⟨v,hv,-⟩ := chain_row ids hchain 0 (List.mem_of_mem_head? hhead)
  rw [Table.get_zero] at hv
  cases hv

theorem published_head (docId : ℕ) (ids : List ℕ) (doc : WikiDoc) (h : Published a docId ids)
    (hdoc : a.docs.get docId = some doc) : ids.head? = some doc.currentVersion := by
  obtain ⟨found,hfound,hhead,-⟩ := h
  rw [hdoc] at hfound
  cases hfound
  exact hhead

theorem published_unique (docId : ℕ) (ids others : List ℕ) (h : Published a docId ids)
    (ho : Published a docId others) : ids = others := by
  obtain ⟨doc,hdoc,hhead,hchain⟩ := h
  have hother := published_head docId others doc ho hdoc
  obtain ⟨-,-,-,hochain⟩ := ho
  exact chain_unique _ _ hchain hochain (hhead.trans hother.symm)

theorem published_owner (docId other : ℕ) (ids : List ℕ) (id : ℕ) (v : WikiVersion)
    (h : Published a other ids) (hid : id ∈ ids) (hv : a.versions.get id = some v)
    (hd : v.docId = docId) : other = docId := by
  obtain ⟨-,-,-,hchain⟩ := h
  obtain ⟨u,hu,hother⟩ := chain_row ids hchain id hid
  rw [hv] at hu
  cases hu
  exact hother.symm.trans hd

theorem published_steady (hs : Steady a b) (docId : ℕ) (ids : List ℕ) (h : Published a docId ids)
    (hsame : ∀ id ∈ ids, b.versions.get id = a.versions.get id) : Published b docId ids := by
  obtain ⟨doc,hdoc,hhead,hchain⟩ := h
  have hne := published_nonzero docId ids doc ⟨doc,hdoc,hhead,hchain⟩ hdoc
  obtain ⟨doc',hdoc',hcur⟩ := hs.forth docId doc hdoc hne
  exact ⟨doc',hdoc',by rw [hcur]; exact hhead,chain_kept b.versions ids hchain hsame⟩

theorem evolves_steady (hs : Steady a b) (hlast : a.versions.last ≤ b.versions.last)
    (hfresh : ∀ id v, b.versions.get id = some v → id ≤ a.versions.last →
      a.versions.get id = some v)
    (hsame : ∀ docId ids, Published a docId ids → ∀ id ∈ ids,
      b.versions.get id = a.versions.get id) : Evolves a b := by
  refine ⟨hlast,hfresh,?_⟩
  intro docId ids h
  exact ⟨hsame docId ids h,[],published_steady hs docId ids h (hsame docId ids h)⟩

theorem ok_steady (h : Ok svc a) (hs : Steady a b)
    (hversions : ∀ id v, b.versions.get id = some v → VersionOk svc v)
    (hsame : ∀ docId ids, Published a docId ids → ∀ id ∈ ids, b.versions.get id = a.versions.get id)
    (hstored : ∀ docId doc, a.docs.get docId = some doc → doc.currentVersion ≠ 0 →
      (storedRows b docId doc.currentVersion).map core =
        (storedRows a docId doc.currentVersion).map core)
    (hgiven : ∀ id row, b.chunks.get id = some row → row.versionId ≤ b.versions.last)
    (hrows : ∀ id row v, b.chunks.get id = some row → b.versions.get row.versionId = some v →
      v.docId = row.docId ∧ ∃ rows, RowsOf svc v rows ∧ core row ∈ rows) : Ok svc b := by
  refine ⟨hversions,?_,?_,hgiven,hrows⟩
  · intro docId doc hdoc hne
    obtain ⟨doc',hdoc',hcur⟩ := hs.back docId doc hdoc hne
    obtain ⟨ids,hp⟩ := h.chains docId doc' hdoc' (by rw [hcur]; exact hne)
    exact ⟨ids,published_steady hs docId ids hp (hsame docId ids hp)⟩
  intro docId doc hdoc hne
  obtain ⟨doc',hdoc',hcur⟩ := hs.back docId doc hdoc hne
  have hne' : doc'.currentVersion ≠ 0 := by rw [hcur]; exact hne
  obtain ⟨ids,hp⟩ := h.chains docId doc' hdoc' hne'
  obtain ⟨v,hv,hof⟩ := h.tiled docId doc' hdoc' hne'
  have hin : doc'.currentVersion ∈ ids := by
    obtain ⟨doc'',hdoc'',hhead,-⟩ := hp
    rw [hdoc'] at hdoc''
    cases hdoc''
    exact List.mem_of_mem_head? hhead
  rw [← hcur]
  refine ⟨v,by rw [hsame docId ids hp _ hin]; exact hv,?_⟩
  rw [hstored docId doc' hdoc' hne']
  exact hof

end Steady

section Stored
variable {w : World}

theorem stored_add (row : ChunkRow) (docId versionId : ℕ) :
    storedRows { w with chunks := w.chunks.add row } docId versionId =
      storedRows w docId versionId++
        (if row.docId = docId ∧ row.versionId = versionId then [row] else []) := by
  unfold storedRows Table.add
  rw [List.filter_append, List.map_append]
  congr 1
  by_cases hd : row.docId = docId <;> by_cases hv : row.versionId = versionId <;> simp [hd, hv]

theorem stored_mark (id docId versionId : ℕ) (current : Bool) :
    (storedRows { w with chunks := w.chunks.update id (ChunkRow.mark current) }
      docId versionId).map core = (storedRows w docId versionId).map core := by
  unfold storedRows Table.update
  rw [List.filter_map, List.map_map, List.map_map, List.map_map]
  have hfilter : ((fun r : ℕ × ChunkRow => r.2.docId == docId && r.2.versionId == versionId) ∘
      fun r : ℕ × ChunkRow => (r.1,if r.1 = id then r.2.mark current else r.2)) =
      fun r => r.2.docId == docId && r.2.versionId == versionId := by
    funext r
    by_cases hr : r.1 = id <;> simp [hr, ChunkRow.mark]
  rw [hfilter]
  apply List.map_congr_left
  intro r _
  by_cases hr : r.1 = id <;> simp [hr, core, ChunkRow.mark]

theorem stored_remove (id docId versionId : ℕ) (h : ∀ row, w.chunks.get id = some row →
    ¬(row.docId = docId ∧ row.versionId = versionId)) :
    storedRows { w with chunks := w.chunks.remove id } docId versionId =
      storedRows w docId versionId := by
  unfold storedRows Table.remove
  rw [List.filter_filter]
  congr 1
  apply List.filter_congr
  intro r hr
  by_cases hid : r.1 = id
  · have hrow : w.chunks.get id = some r.2 := by
      rw [← hid]
      exact (Table.mem_rows w.chunks r.1 r.2).mp hr
    have := h r.2 hrow
    by_cases hd : r.2.docId = docId <;> by_cases hv : r.2.versionId = versionId <;>
      simp [hd, hv] at this ⊢
  · simp [hid]

end Stored

section Changes
variable {svc : WikiService} {P : Table WikiDoc → Text → Text → Option ℕ → Prop}
  {A : ℕ → ℕ → Prop} {w : World}

theorem steady_add (doc : WikiDoc) (h : doc.currentVersion = 0) :
    Steady w { w with docs := w.docs.add doc } := by
  constructor
  · intro docId old hold hne
    have hbound := Table.get_bound w.docs docId old hold
    exact ⟨old,by rw [Table.get_add_old _ _ _ (by omega)]; exact hold,rfl⟩
  intro docId new hnew hne
  by_cases hid : docId = w.docs.last+1
  · rw [hid, Table.get_add_new] at hnew
    cases hnew
    exact absurd h hne
  · rw [Table.get_add_old _ _ _ hid] at hnew
    exact ⟨new,hnew,rfl⟩

theorem steady_update (docId : ℕ) (f : WikiDoc → WikiDoc)
    (hf : ∀ doc, (f doc).currentVersion = doc.currentVersion) :
    Steady w { w with docs := w.docs.update docId f } := by
  constructor
  · intro id old hold _
    by_cases hid : id = docId
    · refine ⟨f old,?_,hf old⟩
      rw [hid, Table.get_update_self, ← hid, hold]
      rfl
    · exact ⟨old,by rw [Table.get_update_other _ _ _ _ hid]; exact hold,rfl⟩
  intro id new hnew _
  by_cases hid : id = docId
  · rw [hid, Table.get_update_self] at hnew
    obtain ⟨old,hold,rfl⟩ := Option.map_eq_some_iff.mp hnew
    exact ⟨old,by rw [hid]; exact hold,(hf old).symm⟩
  · rw [Table.get_update_other _ _ _ _ hid] at hnew
    exact ⟨new,hnew,rfl⟩

theorem steady_remove (docId : ℕ)
    (h : ∀ doc, w.docs.get docId = some doc → doc.currentVersion = 0) :
    Steady w { w with docs := w.docs.remove docId } := by
  constructor
  · intro id old hold hne
    have hid : id ≠ docId := by
      intro heq
      exact hne (h old (by rw [← heq]; exact hold))
    exact ⟨old,by rw [Table.get_remove, if_neg hid]; exact hold,rfl⟩
  · intro id new hnew _
    rw [Table.get_remove] at hnew
    split at hnew
    · cases hnew
    · exact ⟨new,hnew,rfl⟩

theorem version_added (v : WikiVersion) (docId : ℕ) (ids : List ℕ) (h : Published w docId ids) (id : ℕ)
    (hid : id ∈ ids) : (w.versions.add v).get id = w.versions.get id := by
  obtain ⟨-,-,-,hchain⟩ := h
  obtain ⟨u,hu,-⟩ := chain_row ids hchain id hid
  have := Table.get_bound w.versions id u hu
  exact Table.get_add_old _ _ _ (by omega)

theorem flip_published (docId : ℕ) (doc : WikiDoc) (f : WikiDoc → WikiDoc) (v : WikiVersion)
    (ids : List ℕ) (hdoc : w.docs.get docId = some doc)
    (hget : w.versions.get (f doc).currentVersion = some v) (hv : v.docId = docId)
    (hparent : v.parentVersion = some doc.currentVersion)
    (hlt : doc.currentVersion < (f doc).currentVersion) (h : Published w docId ids) :
    Published { w with docs := w.docs.update docId f } docId ((f doc).currentVersion::ids) := by
  obtain ⟨doc',hdoc',hhead,hchain⟩ := h
  rw [hdoc] at hdoc'
  cases hdoc'
  refine ⟨f doc,?_,rfl,?_⟩
  · rw [Table.get_update_self, hdoc]
    rfl
  cases ids with
  | nil => cases hhead
  | cons first rest =>
    have hfirst : first = doc.currentVersion := by simpa using hhead
    subst hfirst
    exact ⟨⟨v,hget,hv,hparent⟩,hlt,hchain⟩

theorem flip_evolves (docId : ℕ) (doc : WikiDoc) (f : WikiDoc → WikiDoc) (v : WikiVersion)
    (hdoc : w.docs.get docId = some doc)
    (hget : w.versions.get (f doc).currentVersion = some v) (hv : v.docId = docId)
    (hparent : v.parentVersion = if doc.currentVersion = 0 then none else some doc.currentVersion)
    (hlt : doc.currentVersion < (f doc).currentVersion) :
    Evolves w { w with docs := w.docs.update docId f } := by
  refine ⟨Nat.le_refl _,fun _ _ h _ => h,?_⟩
  intro id ids h
  refine ⟨fun _ _ => rfl,?_⟩
  by_cases hid : id = docId
  · subst hid
    have hne := published_nonzero id ids doc h hdoc
    rw [if_neg hne] at hparent
    exact ⟨[(f doc).currentVersion],flip_published id doc f v ids hdoc hget hv hparent hlt h⟩
  · obtain ⟨other,hother,hhead,hchain⟩ := h
    exact ⟨[],other,by rw [Table.get_update_other _ _ _ _ hid]; exact hother,hhead,hchain⟩

theorem flip_ok (h : Ok svc w) (docId : ℕ) (doc : WikiDoc) (f : WikiDoc → WikiDoc)
    (v : WikiVersion) (hdoc : w.docs.get docId = some doc)
    (hget : w.versions.get (f doc).currentVersion = some v) (hv : v.docId = docId)
    (hparent : v.parentVersion = if doc.currentVersion = 0 then none else some doc.currentVersion)
    (hlt : doc.currentVersion < (f doc).currentVersion)
    (htiled : Tiled svc w docId (f doc).currentVersion) :
    Ok svc { w with docs := w.docs.update docId f } := by
  refine ⟨h.versions,?_,?_,h.given,h.rows⟩
  · intro id new hnew hne
    by_cases hid : id = docId
    · subst hid
      by_cases hzero : doc.currentVersion = 0
      · rw [if_pos hzero] at hparent
        refine ⟨[(f doc).currentVersion],f doc,?_,rfl,v,hget,hv,hparent⟩
        rw [Table.get_update_self, hdoc]
        rfl
      · rw [if_neg hzero] at hparent
        obtain ⟨ids,hp⟩ := h.chains id doc hdoc hzero
        exact ⟨_,flip_published id doc f v ids hdoc hget hv hparent hlt hp⟩
    · rw [Table.get_update_other _ _ _ _ hid] at hnew
      obtain ⟨ids,other,hother,hhead,hchain⟩ := h.chains id new hnew hne
      exact ⟨ids,other,by rw [Table.get_update_other _ _ _ _ hid]; exact hother,hhead,hchain⟩
  · intro id new hnew hne
    by_cases hid : id = docId
    · subst hid
      rw [Table.get_update_self, hdoc] at hnew
      cases hnew
      exact htiled
    · rw [Table.get_update_other _ _ _ _ hid] at hnew
      exact h.tiled id new hnew hne

theorem change_evolves {b : World} (h : Change svc P A w b) : Evolves w b := by
  cases h with
  | log e => exact evolves_steady (steady_same rfl) (Nat.le_refl _) (fun _ _ h _ => h) fun _ _ _ _ _ => rfl
  | labels defaults =>
    exact evolves_steady (steady_same rfl) (Nat.le_refl _) (fun _ _ h _ => h) fun _ _ _ _ _ => rfl
  | sentinel doc h =>
    exact evolves_steady (steady_add doc h) (Nat.le_refl _) (fun _ _ h _ => h) fun _ _ _ _ _ => rfl
  | version v h =>
    refine evolves_steady (steady_same rfl) (Nat.le_succ _) ?_ (version_added v)
    intro id u hu hid
    rw [Table.get_add_old _ _ _ (by omega)] at hu
    exact hu
  | chunk row v =>
    exact evolves_steady (steady_same rfl) (Nat.le_refl _) (fun _ _ h _ => h) fun _ _ _ _ _ => rfl
  | flip docId doc f v hdoc hget hv hparent hlt =>
    exact flip_evolves docId doc f v hdoc hget hv hparent hlt
  | turn docId f hf =>
    exact evolves_steady (steady_update docId f fun doc => (hf doc).1) (Nat.le_refl _)
      (fun _ _ h _ => h) fun _ _ _ _ _ => rfl
  | mark id current =>
    exact evolves_steady (steady_same rfl) (Nat.le_refl _) (fun _ _ h _ => h) fun _ _ _ _ _ => rfl
  | dropChunk id h =>
    exact evolves_steady (steady_same rfl) (Nat.le_refl _) (fun _ _ h _ => h) fun _ _ _ _ _ => rfl
  | dropVersion id h =>
    refine evolves_steady (steady_same rfl) (Nat.le_refl _) ?_ ?_
    · intro i v hv _
      rw [Table.get_remove] at hv
      split at hv
      · cases hv
      · exact hv
    · intro docId ids hp i hi
      have hne : i ≠ id := by
        intro heq
        exact h docId ids hp (by rw [← heq]; exact hi)
      rw [Table.get_remove, if_neg hne]
  | dropDoc docId h =>
    exact evolves_steady (steady_remove docId h) (Nat.le_refl _) (fun _ _ h _ => h)
      fun _ _ _ _ _ => rfl

theorem change_publishes {b : World} (h : Change svc P A w b) (docId : ℕ) (doc doc' : WikiDoc)
    (hdoc : w.docs.get docId = some doc) (hdoc' : b.docs.get docId = some doc')
    (hne : doc'.currentVersion ≠ doc.currentVersion) : A docId doc.currentVersion := by
  have hsame (hget : w.docs.get docId = some doc') : A docId doc.currentVersion := by
    rw [hdoc] at hget
    cases hget
    exact absurd rfl hne
  cases h with
  | sentinel new h =>
    have hbound := Table.get_bound w.docs docId doc hdoc
    rw [Table.get_add_old _ _ _ (by omega)] at hdoc'
    exact hsame hdoc'
  | flip id old f v hold hget hv hparent hlt htiled hslug hauth =>
    by_cases hid : docId = id
    · subst hid
      rw [hdoc] at hold
      cases hold
      exact hauth
    · rw [Table.get_update_other _ _ _ _ hid] at hdoc'
      exact hsame hdoc'
  | turn id f hf =>
    by_cases hid : docId = id
    · subst hid
      rw [Table.get_update_self, hdoc] at hdoc'
      cases hdoc'
      exact absurd (hf doc).1 hne
    · rw [Table.get_update_other _ _ _ _ hid] at hdoc'
      exact hsame hdoc'
  | dropDoc id h =>
    rw [Table.get_remove] at hdoc'
    split at hdoc'
    · cases hdoc'
    · exact hsame hdoc'
  | _ => exact hsame hdoc'

theorem change_ok {b : World} (ok : Ok svc w) (h : Change svc P A w b) : Ok svc b := by
  cases h with
  | log e =>
    exact ok_steady ok (steady_same rfl) ok.versions (fun _ _ _ _ _ => rfl) (fun _ _ _ _ => rfl)
      ok.given ok.rows
  | labels defaults =>
    exact ok_steady ok (steady_same rfl) ok.versions (fun _ _ _ _ _ => rfl) (fun _ _ _ _ => rfl)
      ok.given ok.rows
  | sentinel doc h =>
    exact ok_steady ok (steady_add doc h) ok.versions (fun _ _ _ _ _ => rfl) (fun _ _ _ _ => rfl)
      ok.given ok.rows
  | version v h =>
    refine ok_steady ok (steady_same rfl) ?_ (version_added v) (fun _ _ _ _ => rfl) ?_ ?_
    · intro id u hu
      by_cases hid : id = w.versions.last+1
      · rw [hid, Table.get_add_new] at hu
        cases hu
        exact h
      · rw [Table.get_add_old _ _ _ hid] at hu
        exact ok.versions id u hu
    · intro id row hrow
      exact (ok.given id row hrow).trans (Nat.le_succ _)
    · intro id row u hrow hu
      have hbound := ok.given id row hrow
      rw [Table.get_add_old _ _ _ (by omega)] at hu
      exact ok.rows id row u hrow hu
  | chunk row v hget hdoc hrow hnot =>
    refine ok_steady ok (steady_same rfl) ok.versions (fun _ _ _ _ _ => rfl) ?_ ?_ ?_
    · intro docId doc hd _
      have hne : ¬(row.docId = docId ∧ row.versionId = doc.currentVersion) := by
        rintro ⟨rfl,hcur⟩
        exact hnot doc hd hcur.symm
      rw [stored_add, if_neg hne, List.append_nil]
    · intro id r hr
      by_cases hid : id = w.chunks.last+1
      · rw [hid, Table.get_add_new] at hr
        cases hr
        exact (Table.get_bound w.versions _ v hget).2
      · rw [Table.get_add_old _ _ _ hid] at hr
        exact ok.given id r hr
    · intro id r u hr hu
      by_cases hid : id = w.chunks.last+1
      · rw [hid, Table.get_add_new] at hr
        cases hr
        rw [hget] at hu
        cases hu
        exact ⟨hdoc,hrow⟩
      · rw [Table.get_add_old _ _ _ hid] at hr
        exact ok.rows id r u hr hu
  | flip docId doc f v hdoc hget hv hparent hlt htiled =>
    exact flip_ok ok docId doc f v hdoc hget hv hparent hlt htiled
  | turn docId f hf =>
    exact ok_steady ok (steady_update docId f fun doc => (hf doc).1) ok.versions
      (fun _ _ _ _ _ => rfl) (fun _ _ _ _ => rfl) ok.given ok.rows
  | mark id current =>
    refine ok_steady ok (steady_same rfl) ok.versions (fun _ _ _ _ _ => rfl)
      (fun docId doc _ _ => stored_mark id docId doc.currentVersion current) ?_ ?_
    · intro i row hrow
      rw [Table.get_update] at hrow
      split at hrow
      · obtain ⟨old,hold,rfl⟩ := Option.map_eq_some_iff.mp hrow
        exact ok.given i old hold
      · exact ok.given i row hrow
    intro i row u hrow hu
    rw [Table.get_update] at hrow
    split at hrow
    · obtain ⟨old,hold,rfl⟩ := Option.map_eq_some_iff.mp hrow
      exact ok.rows i old u hold hu
    · exact ok.rows i row u hrow hu
  | dropChunk id h =>
    refine ok_steady ok (steady_same rfl) ok.versions (fun _ _ _ _ _ => rfl) ?_ ?_ ?_
    · intro docId doc hdoc hne
      congr 1
      apply stored_remove
      rintro row hrow ⟨rfl,hcur⟩
      exact h row doc hrow hdoc hne hcur.symm
    · intro i row hrow
      rw [Table.get_remove] at hrow
      split at hrow
      · cases hrow
      · exact ok.given i row hrow
    · intro i row u hrow hu
      rw [Table.get_remove] at hrow
      split at hrow
      · cases hrow
      · exact ok.rows i row u hrow hu
  | dropVersion id h =>
    refine ok_steady ok (steady_same rfl) ?_ ?_ (fun _ _ _ _ => rfl) ok.given ?_
    · intro i v hv
      rw [Table.get_remove] at hv
      split at hv
      · cases hv
      · exact ok.versions i v hv
    · intro docId ids hp i hi
      have hne : i ≠ id := by
        intro heq
        exact h docId ids hp (by rw [← heq]; exact hi)
      rw [Table.get_remove, if_neg hne]
    · intro i row u hrow hu
      rw [Table.get_remove] at hu
      split at hu
      · cases hu
      · exact ok.rows i row u hrow hu
  | dropDoc docId h =>
    exact ok_steady ok (steady_remove docId h) ok.versions (fun _ _ _ _ _ => rfl)
      (fun _ _ _ _ => rfl) ok.given ok.rows

theorem ok_empty (svc : WikiService) : Ok svc World.empty := by
  constructor <;> intros <;> simp_all [World.empty]

end Changes

end AndaBrain.WikiLedger
