import AndaBrain.Foundation.Observer
import AndaBrain.WikiRuns
import AndaBrain.WikiSearch

/-!
# Restricted callers see admitted text only

A search reads chunk rows, then document rows, then versions, while commits go on.
-/

set_option autoImplicit false

namespace AndaBrain.WikiAdmitted
open Foundation Foundation.Resumption Foundation.Observer Foundation.Utf8Text
open WikiChunk WikiText WikiStore WikiLedger
open WikiOkf WikiRuns WikiRead WikiSearch

section Rules
variable {α : Type} {svc : WikiService} {H : Set World} {s : World}

theorem follows_ask (f : World → Except WikiError α) :
    Follows Evolves (Ok svc) (fun a K t => K = insert t H ∧ Evolves s t ∧ Ok svc t ∧ f t = .ok a)
      (fun _ K t => K = insert t H ∧ Evolves s t ∧ Ok svc t) (ask f) H s := by
  apply follows_query
  · intro t hr hi fault a ha
    cases fault with
    | failed applied message => cases ha
    | none => exact ⟨rfl,hr,hi,ha⟩
  · intro t hr hi _ _ _
    exact ⟨rfl,hr,hi⟩

theorem follows_row {β : Type} (c : Collection) (table : World → Table β) (id : ℕ) :
    Follows Evolves (Ok svc)
      (fun row K t => K = insert t H ∧ Evolves s t ∧ Ok svc t ∧ (table t).get id = some row)
      (fun _ K t => K = insert t H ∧ Evolves s t ∧ Ok svc t) (getRow svc c table id) H s := by
  apply follows_mono _ (follows_ask _) _ fun _ _ _ h => h
  rintro row K t ⟨hK,hev,hok,hrow⟩
  refine ⟨hK,hev,hok,?_⟩
  cases hget : (table t).get id with
  | none => simp [hget] at hrow
  | some found =>
    simp only [hget, Except.ok.injEq] at hrow
    rw [hrow]

theorem follows_doc (docId : ℕ) :
    Follows Evolves (Ok svc)
      (fun doc K t => K = insert t H ∧ Evolves s t ∧ Ok svc t ∧ t.docs.get docId = some doc ∧
        doc.currentVersion ≠ 0)
      (fun _ K t => K = insert t H ∧ Evolves s t ∧ Ok svc t) (docRecord svc docId) H s := by
  apply follows_bind
  apply follows_mono _ (follows_row .docs World.docs docId) _ fun _ _ _ h => h
  rintro doc K t ⟨hK,hev,hok,hdoc⟩
  apply follows_refuse
  · intro _
    exact ⟨hK,hev,hok⟩
  · intro hne
    exact ⟨hK,hev,hok,hdoc,hne⟩

theorem follows_unless (r : Except WikiError α) {Q : Option α → Set World → World → Prop}
    (h : ∀ found, (∀ a, found = some a → r = .ok a) → Q found H s) :
    Follows Evolves (Ok svc) Q (fun _ _ _ => True) (unlessMissing r) H s := by
  cases r with
  | ok a => exact h (some a) fun _ ha => by rw [Option.some.inj ha]
  | error e =>
    cases e with
    | notFound message => exact h none fun _ ha => nomatch ha
    | _ => trivial

end Rules

section Hits
variable {svc : Searcher} {labels : Option (List Text)} {H : Set World} {s : World}

def Snapped (svc : Searcher) (first : World) (docs : List (ℕ × WikiDoc)) (H : Set World)
    (s : World) : Prop :=
  ∀ e ∈ docs, ∃ t ∈ H, Ok svc.toWikiService t ∧ Evolves first t ∧ Evolves t s ∧
    t.docs.get e.1 = some e.2 ∧ e.2.currentVersion ≠ 0

theorem follows_snapshots (first : World) (ids : List ℕ) (hfirst : Evolves first s) :
    Follows Evolves (Ok svc.toWikiService)
      (fun docs K t => H ⊆ K ∧ Evolves s t ∧ Snapped svc first docs K t) (fun _ _ _ => True)
      (snapshots svc ids) H s := by
  induction ids generalizing H s with
  | nil => exact ⟨Set.Subset.refl _,evolves_refl s,fun _ h => nomatch h⟩
  | cons id rest ih =>
    have hlook : Follows Evolves (Ok svc.toWikiService) (fun r K t => H ⊆ K ∧ Evolves s t ∧
        Ok svc.toWikiService t ∧ ∀ doc, r = .ok doc →
          t ∈ K ∧ t.docs.get id = some doc ∧ doc.currentVersion ≠ 0) (fun _ _ _ => True)
        (attempt (docRecord svc.toWikiService id)) H s := by
      apply follows_attempt
      apply follows_mono _ (follows_doc id)
      · rintro doc K t ⟨rfl,hev,hok,hdoc,hne⟩
        refine ⟨Set.subset_insert _ _,hev,hok,?_⟩
        intro found hfound
        cases hfound
        exact ⟨Set.mem_insert _ _,hdoc,hne⟩
      · rintro e K t ⟨rfl,hev,hok⟩
        exact ⟨Set.subset_insert _ _,hev,hok,fun _ h => nomatch h⟩
    apply follows_bind
    apply follows_mono _ hlook _ fun _ _ _ h => h
    rintro r K t ⟨hsub,hev,hok,hread⟩
    apply follows_bind
    apply follows_unless
    intro found hfound
    apply follows_bind
    apply follows_mono _ (ih (evolves_trans _ _ _ hfirst hev)) _ fun _ _ _ h => h
    rintro docs L u ⟨hsub',hev',hsnapped⟩
    refine ⟨hsub.trans hsub',evolves_trans _ _ _ hev hev',?_⟩
    intro e he
    rcases List.mem_append.mp he with he | he
    · cases found with
      | none => cases he
      | some doc =>
        obtain ⟨hin,hdoc,hne⟩ := hread doc (hfound doc rfl)
        rw [List.mem_singleton.mp he]
        exact ⟨t,hsub' hin,hok,evolves_trans _ _ _ hfirst hev,hev',hdoc,hne⟩
    · exact hsnapped e he

def Kept (svc : Searcher) (labels : Option (List Text)) (H : Set World) (s : World) (row : Row) : Prop :=
  ∃ t ∈ H, ∃ doc v rows, Evolves t s ∧ t.docs.get row.2.docId = some doc ∧
    doc.currentVersion = row.2.versionId ∧ doc.status = .active ∧
    WikiAccess.allows ⟨[],labels⟩ doc.aclLabel = true ∧
    t.versions.get row.2.versionId = some v ∧ RowsOf svc.toWikiService v rows ∧ core row.2 ∈ rows

theorem mem_of_lookup {α : Type} (pairs : List (ℕ × α)) (key : ℕ) (a : α)
    (h : pairs.lookup key = some a) : (key,a) ∈ pairs := by
  obtain ⟨before,after,rfl,-⟩ := List.lookup_eq_some_iff.mp h
  simp

/-- The row was there before the document was seen at its version, and the version is the
one that the row was cut from. -/
theorem visible_kept (first : World) (docs : List (ℕ × WikiDoc)) (row : Row)
    (hok : Ok svc.toWikiService first) (hrow : first.chunks.get row.1 = some row.2)
    (hsnapped : Snapped svc first docs H s) (h : visible ⟨[],labels⟩ docs row = true) :
    Kept svc labels H s row := by
  simp only [visible, Option.any_eq_true, Bool.and_eq_true, decide_eq_true_eq] at h
  obtain ⟨doc,hlook,⟨hversion,hactive⟩,hallowed⟩ := h
  obtain ⟨t,ht,htok,hfirst,hts,hdoc,hne⟩ := hsnapped _ (mem_of_lookup _ _ _ hlook)
  obtain ⟨v,hv,-⟩ := htok.tiled _ doc hdoc hne
  rw [hversion] at hv
  have hold := hfirst.fresh _ v hv (hok.given row.1 row.2 hrow)
  obtain ⟨-,rows,hrows,hcore⟩ := hok.rows row.1 row.2 v hrow hold
  exact ⟨t,ht,doc,v,rows,hts,hdoc,hversion,hactive,hallowed,hv,hrows,hcore⟩

/-- A hit is text of a version that was current at a moment of the call, while the
document was active and allowed. Its quote and headings are those of a chunk of that
version, and its citation names the text. -/
def HitSeen (svc : Searcher) (allowed : Text → Bool) (moments : Set World) (hit : WikiHit) : Prop :=
  ∃ t ∈ moments, ∃ doc v rows row, t.docs.get hit.citation.docId = some doc ∧
    doc.currentVersion = hit.citation.versionId ∧ doc.status = .active ∧
    allowed doc.aclLabel = true ∧ t.versions.get hit.citation.versionId = some v ∧
    slice v.content hit.citation.byteRange.1 hit.citation.byteRange.2 = some hit.text ∧
    (RowsOf svc.toWikiService v rows ∧ row ∈ rows ∧
      slice v.content row.byteStart row.byteEnd = some row.text ∧
      hit.citation.quote = quoteExcerpt row.text ∧ hit.headingPath = row.headingPath ∧
      hit.citation.headingPath = row.headingPath) ∧
    hit.citation.uri = citationUri svc.spaceId hit.citation.docId hit.citation.versionId
      hit.citation.byteRange.1 hit.citation.byteRange.2 ∧
    hit.citation.checksum = chunkChecksum svc.toLibrary v.checksum hit.citation.byteRange.1
      hit.citation.byteRange.2 hit.text

theorem kept_hit (row : Row) (hit : WikiHit) (h : Kept svc labels H s row)
    (hdoc : hit.citation.docId = row.2.docId) (hversion : hit.citation.versionId = row.2.versionId)
    (hquote : hit.citation.quote = quoteExcerpt row.2.text)
    (hheading : hit.headingPath = row.2.headingPath)
    (hheading' : hit.citation.headingPath = row.2.headingPath)
    (huri : hit.citation.uri = citationUri svc.spaceId row.2.docId row.2.versionId
      hit.citation.byteRange.1 hit.citation.byteRange.2)
    (htext : ∀ v, (∃ t ∈ H, Evolves t s ∧ t.versions.get row.2.versionId = some v) →
      slice v.content row.2.byteStart row.2.byteEnd = some row.2.text →
      row.2.checksum = chunkChecksum svc.toLibrary v.checksum row.2.byteStart row.2.byteEnd
        row.2.text →
      slice v.content hit.citation.byteRange.1 hit.citation.byteRange.2 = some hit.text ∧
      hit.citation.checksum = chunkChecksum svc.toLibrary v.checksum hit.citation.byteRange.1
        hit.citation.byteRange.2 hit.text) :
    HitSeen svc (WikiAccess.allows ⟨[],labels⟩) H hit := by
  obtain ⟨t,ht,doc,v,rows,hts,hget,hcur,hactive,hallowed,hv,hrows,hcore⟩ := h
  obtain ⟨hslice,hsum,-⟩ := rows_of_row v rows hrows (core row.2) hcore
  obtain ⟨hcut,hchecksum⟩ := htext v ⟨t,ht,hts,hv⟩ hslice hsum
  refine ⟨t,ht,doc,v,rows,core row.2,?_,?_,hactive,hallowed,?_,hcut,
    ⟨hrows,hcore,hslice,hquote,hheading,hheading'⟩,?_,hchecksum⟩
  · rw [hdoc]
    exact hget
  · rw [hversion]
    exact hcur
  · rw [hversion]
    exact hv
  · rw [hdoc, hversion]
    exact huri

def Laid (s : World) (found : List (ℕ × Layout)) : Prop :=
  ∀ e ∈ found, ∃ t, Evolves s t ∧ t.versions.get e.1 = some e.2.1

theorem follows_layouts (from' : World) (ids : List ℕ) (hfrom : Evolves from' s) :
    Follows Evolves (Ok svc.toWikiService) (fun found K t => H ⊆ K ∧ Evolves s t ∧ Laid from' found)
      (fun _ _ _ => True) (layouts svc ids) H s := by
  induction ids generalizing H s with
  | nil => exact ⟨Set.Subset.refl _,evolves_refl s,fun _ h => nomatch h⟩
  | cons id rest ih =>
    apply follows_bind
    apply follows_mono _ (follows_row .versions World.versions id) _ fun _ _ _ _ => trivial
    rintro version K t ⟨rfl,hev,hok,hversion⟩
    split
    · trivial
    rename_i plan hplan
    apply follows_bind
    apply follows_mono _ (ih (evolves_trans _ _ _ hfrom hev)) _ fun _ _ _ h => h
    rintro more L u ⟨hsub,hev',hmore⟩
    refine ⟨(Set.subset_insert _ _).trans hsub,evolves_trans _ _ _ hev hev',?_⟩
    intro e he
    rcases List.mem_cons.mp he with rfl | he
    · exact ⟨t,evolves_trans _ _ _ hfrom hev,hversion⟩
    · exact hmore e he

theorem plain_hit_admitted (row : Row) (h : Kept svc labels H s row) :
    HitSeen svc (WikiAccess.allows ⟨[],labels⟩) H (hitFrom svc row) :=
  kept_hit row _ h rfl rfl rfl rfl rfl rfl fun _ _ hslice hsum => ⟨hslice,hsum⟩

theorem wide_hit_admitted (expand : ℕ) (row : Row) (version : WikiVersion) (plan : ChunkPlan)
    (hit : WikiHit) (h : Kept svc labels H s row)
    (hversion : ∃ t, Evolves s t ∧ t.versions.get row.2.versionId = some version)
    (hwide : widen svc expand row version plan = .ok hit) :
    HitSeen svc (WikiAccess.allows ⟨[],labels⟩) H hit := by
  unfold widen at hwide
  extract_lets pos base at hwide
  split at hwide
  · split at hwide
    · rename_i lo hi _ _
      obtain ⟨text,htext,hhit⟩ := except_bind_ok _ _ _ hwide
      cases hhit
      apply kept_hit row _ h rfl rfl rfl rfl rfl rfl
      rintro v ⟨t,-,hts,hv⟩ - -
      obtain ⟨u,hsu,hu⟩ := hversion
      have hsame := (evolves_trans _ _ _ hts hsu).fresh _ version hu (Table.get_bound _ _ _ hv).2
      rw [hv] at hsame
      cases hsame
      unfold cut at htext
      split at htext
      · rename_i found hfound
        cases htext
        exact ⟨hfound,rfl⟩
      · cases htext
    · cases hwide
  · have heq : hit = hitFrom svc row := (Except.ok.inj hwide).symm
    rw [heq]
    exact plain_hit_admitted row h

theorem widened_admitted (expand : ℕ) (found : List (ℕ × Layout)) (rows : List Row)
    (hits : List WikiHit) (h : ∀ row ∈ rows, Kept svc labels H s row) (hlaid : Laid s found)
    (hwide : widenAll svc expand found rows = .ok hits) : ∀ hit ∈ hits, HitSeen svc (WikiAccess.allows ⟨[],labels⟩) H hit := by
  induction rows generalizing hits with
  | nil =>
    cases hwide
    exact fun _ h => nomatch h
  | cons row rows ih =>
    unfold widenAll at hwide
    split at hwide
    · cases hwide
    rename_i layout hlook
    obtain ⟨first,hfirst,hwide⟩ := except_bind_ok _ _ _ hwide
    obtain ⟨more,hmore,hwide⟩ := except_bind_ok _ _ _ hwide
    cases hwide
    intro hit hin
    rcases List.mem_cons.mp hin with rfl | hin
    · exact wide_hit_admitted expand row _ _ _ (h row (by simp))
        (hlaid _ (mem_of_lookup _ _ _ hlook)) hfirst
    · exact ih more (fun r hr => h r (by simp [hr])) hmore hit hin

theorem hit_later (K : Set World) (hit : WikiHit) (hsub : H ⊆ K) (h : HitSeen svc (WikiAccess.allows ⟨[],labels⟩) H hit) :
    HitSeen svc (WikiAccess.allows ⟨[],labels⟩) K hit := by
  obtain ⟨t,ht,hrest⟩ := h
  exact ⟨t,hsub ht,hrest⟩

theorem follows_hits (schedule : Schedule) (expand : ℕ) (rows : List Row)
    (h : ∀ row ∈ rows, Kept svc labels H s row) :
    Follows Evolves (Ok svc.toWikiService) (fun hits K _ => ∀ hit ∈ hits, HitSeen svc (WikiAccess.allows ⟨[],labels⟩) K hit)
      (fun _ _ _ => True) (hitsOf svc schedule expand rows) H s := by
  unfold hitsOf
  split
  · intro hit hin
    obtain ⟨row,hrow,rfl⟩ := List.mem_map.mp hin
    exact plain_hit_admitted row (h row hrow)
  apply follows_bind
  apply follows_mono _ (follows_layouts s _ (evolves_refl s)) _ fun _ _ _ h => h
  rintro found K t ⟨hsub,-,hlaid⟩
  apply follows_lift _ _ fun _ _ => trivial
  intro hits hwide hit hin
  exact hit_later K hit hsub (widened_admitted expand found rows hits h hlaid hwide hit hin)

end Hits

section Search
variable {svc : Searcher} {labels : Option (List Text)}

theorem first_of_docs_mem (picked : List ℕ) (rows : List Row) (row : Row)
    (h : row ∈ firstOfDocs picked rows) : row ∈ rows := by
  induction rows generalizing picked with
  | nil => cases h
  | cons first rows ih =>
    unfold firstOfDocs at h
    split at h
    · exact List.mem_cons_of_mem _ (ih picked h)
    · rcases List.mem_cons.mp h with rfl | h
      · exact List.mem_cons_self
      · exact List.mem_cons_of_mem _ (ih _ h)

theorem silent_ask {α : Type} (f : World → Except WikiError α) : Silent (ask f) := silent_query _

theorem silent_scan (ids : World → List ℕ) (fuel cursor : ℕ) :
    Silent (scanFrom svc.toWikiService ids fuel cursor) := by
  induction fuel generalizing cursor with
  | zero => trivial
  | succ fuel ih =>
    apply silent_bind _ _ (silent_ask _)
    intro page
    split
    · trivial
    · exact silent_ite _ _ _ trivial (silent_bind _ _ (ih _) fun _ => trivial)

theorem silent_admitted (docIds : List ℕ) (tags : List Text) : Silent (admitted svc docIds tags) := by
  unfold admitted
  split
  · trivial
  · apply silent_bind
    · exact silent_bind _ _ (silent_query _) fun _ => silent_scan _ _ _
    · exact fun _ => trivial

theorem follows_search (schedule : Schedule) (input : WikiSearchInput) (H : Set World) (s : World) :
    Follows Evolves (Ok svc.toWikiService)
      (fun output K _ => ∀ hit ∈ output.hits, HitSeen svc (WikiAccess.allows ⟨[],labels⟩) K hit) (fun _ _ _ => True)
      (searchInner svc schedule input labels) H s := by
  apply follows_refuse _ _ _ fun _ => trivial
  intro _
  apply follows_bind
  apply follows_mono _ (follows_silent _ (fun _ _ => True) (silent_admitted _ _)
    (fun _ _ _ _ _ _ => trivial) trivial) _ fun _ _ _ h => h
  intro docIds K t _
  cases docIds with
  | none => exact fun _ h => nomatch h
  | some docIds =>
    apply follows_bind
    apply follows_mono _ (follows_ask _) _ fun _ _ _ _ => trivial
    rintro found L first ⟨rfl,-,hok,hfound⟩
    -- the candidates are rows of one moment
    have hrows : ∀ row ∈ found, first.chunks.get row.1 = some row.2 := by
      intro row hrow
      rw [← Except.ok.inj hfound] at hrow
      have hin := (List.mem_filter.mp (List.mem_of_mem_take hrow)).1
      obtain ⟨id,-,hid⟩ := List.mem_filterMap.mp hin
      obtain ⟨stored,hstored,rfl⟩ := Option.map_eq_some_iff.mp hid
      exact hstored
    apply follows_bind
    apply follows_mono _ (follows_snapshots first _ (evolves_refl first)) _ fun _ _ _ h => h
    rintro docs K' u ⟨-,-,hsnapped⟩
    extract_lets rows rows' core
    have hkept : ∀ row ∈ rows, Kept svc labels K' u row := by
      intro row hrow
      obtain ⟨hin,hvisible⟩ := List.mem_filter.mp hrow
      exact visible_kept first docs row hok (hrows row hin) hsnapped hvisible
    have hkept' : ∀ row ∈ rows', row ∈ rows := by
      intro row hrow
      simp only [rows'] at hrow
      split at hrow
      · exact (List.mem_filter.mp hrow).1
      · exact hrow
    have hcore : ∀ row ∈ core, Kept svc labels K' u row := by
      intro row hrow
      apply hkept row
      apply hkept' row
      simp only [core] at hrow
      split at hrow
      · exact hrow
      · exact first_of_docs_mem [] _ row (List.mem_of_mem_take hrow)
    apply follows_bind
    apply follows_mono _ (follows_hits schedule _ core hcore) _ fun _ _ _ h => h
    intro hits K'' v hhits
    exact hhits

end Search

section Labels
variable {labels : List Text}

theorem allowed_label (label : Text) (h : WikiAccess.allows ⟨[],some labels⟩ label = true) :
    label = [] ∨ label ∈ labels := by
  simp only [WikiAccess.allows, Bool.or_eq_true, List.isEmpty_iff, List.any_eq_true, beq_iff_eq] at h
  rcases h with h | ⟨l,hl,rfl⟩
  · exact Or.inl h
  · exact Or.inr hl

/-- A hit is text of a version that was current at a moment of the call, while the
document was active and its label admitted. Its quote and headings are those of a chunk of
that version. -/
def HitAdmitted (svc : Searcher) (labels : List Text) (moments : Set World) (hit : WikiHit) : Prop :=
  ∃ t ∈ moments, ∃ doc v rows row, t.docs.get hit.citation.docId = some doc ∧
    doc.currentVersion = hit.citation.versionId ∧ doc.status = .active ∧
    (doc.aclLabel = [] ∨ doc.aclLabel ∈ labels) ∧
    t.versions.get hit.citation.versionId = some v ∧
    slice v.content hit.citation.byteRange.1 hit.citation.byteRange.2 = some hit.text ∧
    RowsOf svc.toWikiService v rows ∧ row ∈ rows ∧
    slice v.content row.byteStart row.byteEnd = some row.text ∧
    hit.citation.quote = quoteExcerpt row.text ∧ hit.headingPath = row.headingPath ∧
    hit.citation.headingPath = row.headingPath

theorem seen_admitted {svc : Searcher} {moments : Set World} (hit : WikiHit)
    (h : HitSeen svc (WikiAccess.allows ⟨[],some labels⟩) moments hit) :
    HitAdmitted svc labels moments hit := by
  obtain ⟨t,ht,doc,v,rows,row,hdoc,hcur,hactive,hallowed,hv,htext,hchunk,-⟩ := h
  exact ⟨t,ht,doc,v,rows,row,hdoc,hcur,hactive,allowed_label _ hallowed,hv,htext,hchunk⟩

end Labels

section Reads
variable {svc : Reader} {labels : List Text}

/-- What a read of the current version returns: the outline of a version, or a part of its
text, that was current at a moment of the call while the label was admitted. -/
def ReadAdmitted (svc : Reader) (labels : List Text) (moments : Set World)
    (output : WikiReadOutput) : Prop :=
  output.isCurrent = true → ∃ t ∈ moments, ∃ doc v, t.docs.get output.docId = some doc ∧
    doc.currentVersion = output.versionId ∧ (doc.aclLabel = [] ∨ doc.aclLabel ∈ labels) ∧
    t.versions.get output.versionId = some v ∧
    (∀ toc, output.toc = some toc → toc = outline svc.toLibrary v.content) ∧
    ∀ text, output.content = some text → ∃ range, output.byteRange = some range ∧
      slice v.content range.1 range.2 = some text

theorem cut_slice (content text : Text) (start stop : ℕ) (h : cut content start stop = .ok text) :
    slice content start stop = some text := by
  unfold cut at h
  split at h
  · rename_i found hfound
    cases h
    exact hfound
  · cases h

structure PartOf (lib : Library) (content : Text) (base output : WikiReadOutput) : Prop where
  docId : output.docId = base.docId
  versionId : output.versionId = base.versionId
  isCurrent : output.isCurrent = base.isCurrent
  toc : ∀ toc, output.toc = some toc → toc = outline lib content
  text : ∀ text, output.content = some text → ∃ range, output.byteRange = some range ∧
    slice content range.1 range.2 = some text

theorem part_of_text (lib : Library) (content text : Text) (base : WikiReadOutput) (start stop : ℕ)
    (truncated : Bool) (htoc : base.toc = none) (h : cut content start stop = .ok text) :
    PartOf lib content base { base with
      truncated := truncated
      content := some text
      byteRange := some (start,stop) } where
  docId := rfl
  versionId := rfl
  isCurrent := rfl
  toc _ hsome := by
    simp [htoc] at hsome
  text found hfound := by
    cases hfound
    exact ⟨(start,stop),rfl,cut_slice content text start stop h⟩

theorem select_from_part (lib : Library) (content : Text) (base output : WikiReadOutput)
    (selector : WikiSelector) (htoc : base.toc = none) (hcontent : base.content = none)
    (h : selectFrom lib content base selector = .ok output) : PartOf lib content base output := by
  cases selector with
  | toc =>
    cases h
    refine ⟨rfl,rfl,rfl,?_,?_⟩
    · intro toc hsome
      cases hsome
      rfl
    · intro text hsome
      simp [hcontent] at hsome
  | sectionOf anchor =>
    rw [selectFrom] at h
    split at h
    · cases h
    · obtain ⟨text,htext,h⟩ := except_bind_ok _ _ _ h
      cases h
      exact part_of_text lib content text base _ _ _ htoc htext
  | range start stop =>
    rw [selectFrom] at h
    split at h
    · cases h
    · obtain ⟨text,htext,h⟩ := except_bind_ok _ _ _ h
      cases h
      exact part_of_text lib content text base _ _ _ htoc htext
  | full =>
    obtain ⟨text,htext,h⟩ := except_bind_ok _ _ _ h
    cases h
    exact part_of_text lib content text base _ _ _ htoc htext

theorem silent_published (docId versionId fuel : ℕ) (next : Option ℕ) :
    Silent (publishedFrom svc.toWikiService docId versionId fuel next) := by
  induction fuel generalizing next with
  | zero => trivial
  | succ fuel ih =>
    cases next with
    | none => trivial
    | some id =>
      unfold publishedFrom
      apply silent_ite _ _ _ (ih none)
      apply silent_bind
      · apply silent_bind _ _ (silent_ask _)
        intro version
        exact silent_bind _ _ (silent_refuse _ _) fun _ => trivial
      · exact fun version => silent_ite _ _ _ trivial (ih _)

variable {H : Set World} {s : World}

theorem follows_current (docId id fuel : ℕ) :
    Follows Evolves (Ok svc.toWikiService)
      (fun version K t => K = insert t H ∧ Evolves s t ∧ Ok svc.toWikiService t ∧
        t.versions.get id = some version)
      (fun _ _ _ => True) (publishedFrom svc.toWikiService docId id (fuel+1) (some id)) H s := by
  unfold publishedFrom
  rw [if_neg (Nat.lt_irrefl id)]
  apply follows_bind
  apply follows_bind
  apply follows_mono _ (follows_row .versions World.versions id) _ fun _ _ _ _ => trivial
  intro version K t hread
  apply follows_refuse _ _ _ fun _ => trivial
  intro _
  show Follows _ _ _ _ (if id = id then pure version else _) K t
  rw [if_pos rfl]
  exact hread

theorem follows_read (docId : ℕ) (doc : WikiDoc) (version : Option ℕ) (selector : WikiSelector)
    (hs : s ∈ H) (hok : Ok svc.toWikiService s) (hdoc : s.docs.get docId = some doc)
    (hne : doc.currentVersion ≠ 0) (hlabel : doc.aclLabel = [] ∨ doc.aclLabel ∈ labels) :
    Follows Evolves (Ok svc.toWikiService) (fun output K _ => ReadAdmitted svc labels K output)
      (fun _ _ _ => True) (readDocument svc docId doc version selector) H s := by
  by_cases hcurrent : version.getD doc.currentVersion = doc.currentVersion
  · unfold readDocument publishedVersion
    rw [hcurrent]
    apply follows_bind
    apply follows_mono _ (follows_current docId doc.currentVersion _) _ fun _ _ _ h => h
    rintro stored K t ⟨rfl,hev,-,hstored⟩
    apply follows_lift _ _ fun _ _ => trivial
    intro output houtput _
    have hpart := select_from_part _ _ _ _ _ rfl rfl houtput
    obtain ⟨v,hv,-⟩ := hok.tiled docId doc hdoc hne
    have hsame := hev.fresh _ stored hstored (Table.get_bound _ _ _ hv).2
    refine ⟨s,Set.mem_insert_of_mem _ hs,doc,stored,?_,?_,hlabel,?_,hpart.toc,hpart.text⟩
    · rw [hpart.docId]
      exact hdoc
    · rw [hpart.versionId]
    · rw [hpart.versionId]
      exact hsame
  · apply follows_bind
    apply follows_mono _ (follows_silent _ (fun _ _ => True) (silent_published _ _ _ _)
      (fun _ _ _ _ _ _ => trivial) trivial) _ fun _ _ _ _ => trivial
    intro stored K t _
    apply follows_lift _ _ fun _ _ => trivial
    intro output houtput hflag
    rw [(select_from_part _ _ _ _ _ rfl rfl houtput).isCurrent] at hflag
    exact absurd (of_decide_eq_true hflag) hcurrent

theorem follows_authorized (actor : Text) (docId : ℕ) (version : Option ℕ)
    (selector : WikiSelector) :
    Follows Evolves (Ok svc.toWikiService) (fun output K _ => ReadAdmitted svc labels K output)
      (fun _ _ _ => True) (authorized svc ⟨actor,some labels⟩ docId >>= fun doc =>
        readDocument svc docId doc version selector) H s := by
  apply follows_bind
  apply follows_bind
  apply follows_mono _ (follows_doc docId) _ fun _ _ _ _ => trivial
  rintro doc K t ⟨rfl,-,hok,hdoc,hne⟩
  apply follows_refuse _ _ _ fun _ => trivial
  intro hdenied
  have hallowed : WikiAccess.allows ⟨actor,some labels⟩ doc.aclLabel = true := by
    simpa using hdenied
  exact follows_read docId doc version selector (Set.mem_insert _ _) hok hdoc hne
    (allowed_label doc.aclLabel hallowed)

end Reads

section Beside
variable {α β : Type} (svc : WikiService) (yaml : Yaml)

/-- The wiki with a reader beside it: the events of the wiki are its operations, their row
writes, and crashes; the reader takes one storage read at a time. -/
def beside (x : Wiki × M α) (es : List (Event Op Fault ⊕ Fault)) : Wiki × M α :=
  Observer.run Config.state (fun c w => { c with state := w }) (WikiRuns.advance svc yaml) x es

def during (x : Wiki × M α) (es : List (Event Op Fault ⊕ Fault)) : Set World :=
  Observer.moments Config.state (fun c w => { c with state := w }) (WikiRuns.advance svc yaml) x es

variable {Q : β → Set World → Prop}

/-- What a reader finds in every course of the wiki it finds beside any run. What follows
the reading, such as an audit, no longer changes the answer. -/
theorem beside_answers (c : Wiki) (p : M α) (f : α → M β) (es : List (Event Op Fault ⊕ Fault))
    (b : β) (hmono : ∀ b (H K : Set World), H ⊆ K → Q b H → Q b K) (hc : Held svc c)
    (h : Follows Evolves (Ok svc) (fun a H _ => Finishes (fun b => Q b H) (f a)) (fun _ _ _ => True)
      p ∅ c.state)
    (hret : (beside svc yaml (c,p >>= f) es).2 = .ret b) :
    Q b (during svc yaml (c,p >>= f) es) := by
  have hend := run_on_track evolves_trans evolves_refl (fun _ => rfl) (fun _ hc => hc.1)
    (fun c e hc => ⟨run_held svc yaml c [e] hc,run_evolves svc yaml c [e] hc⟩) hmono ∅ _ es b
    (Or.inl ⟨hc,p,rfl,h⟩) hret
  rw [Set.empty_union] at hend
  exact hend

theorem during_leads (c : Wiki) (p : M α) (es : List (Event Op Fault ⊕ Fault)) (hc : Held svc c)
    (h : Follows Evolves (Ok svc) (fun _ _ _ => True) (fun _ _ _ => True) p ∅ c.state) :
    Held svc (beside svc yaml (c,p) es).1 ∧ ∀ t ∈ during svc yaml (c,p) es,
      Ok svc t ∧ Evolves t (beside svc yaml (c,p) es).1.state :=
  moments_lead evolves_trans evolves_refl (fun _ => rfl) (fun c hc => hc.1)
    (fun c e hc => ⟨run_held svc yaml c [e] hc,run_evolves svc yaml c [e] hc⟩) ∅ (c,p) es hc h

theorem finishes_tail {γ : Type} (q : M γ) (f : γ → M β) (P : β → Prop)
    (h : ∀ c, Finishes P (f c)) : Finishes P (q >>= f) := by
  induction q with
  | ret c => exact h c
  | fail e => trivial
  | step act next ih => exact fun i s => ih i s

end Beside

section Answers
variable (svc : Searcher) (yaml : Yaml)

/-- A search beside any run, whoever it is for, and whatever is done with its output. -/
theorem search_seen {β : Type} (c : Wiki) (hc : Held svc.toWikiService c) (schedule : Schedule)
    (input : WikiSearchInput) (labels : Option (List Text)) (f : WikiSearchOutput → M β)
    (Q : β → Set World → Prop) (fs : List (Event Op Fault ⊕ Fault)) (b : β)
    (hmono : ∀ b (H K : Set World), H ⊆ K → Q b H → Q b K)
    (hf : ∀ output H, (∀ hit ∈ output.hits, HitSeen svc (WikiAccess.allows ⟨[],labels⟩) H hit) →
      Finishes (fun b => Q b H) (f output))
    (hret : (beside svc.toWikiService yaml (c,searchInner svc schedule input labels >>= f) fs).2 = .ret b) :
    Q b (during svc.toWikiService yaml (c,searchInner svc schedule input labels >>= f) fs) := by
  apply beside_answers _ yaml c _ _ fs b hmono hc _ hret
  apply follows_mono _ (follows_search schedule input ∅ c.state) _ fun _ _ _ _ => trivial
  intro output H _ hhits
  exact hf output H hhits

theorem hits_later (labels : List Text) (output : WikiSearchOutput) (H K : Set World) (hsub : H ⊆ K)
    (h : ∀ hit ∈ output.hits, HitAdmitted svc labels H hit) :
    ∀ hit ∈ output.hits, HitAdmitted svc labels K hit := by
  intro hit hin
  obtain ⟨t,ht,hrest⟩ := h hit hin
  exact ⟨t,hsub ht,hrest⟩

theorem read_later (labels : List Text) (output : WikiReadOutput) (H K : Set World) (hsub : H ⊆ K)
    (h : ReadAdmitted svc.toReader labels H output) : ReadAdmitted svc.toReader labels K output := by
  intro hcurrent
  obtain ⟨t,ht,hrest⟩ := h hcurrent
  exact ⟨t,hsub ht,hrest⟩

end Answers

end AndaBrain.WikiAdmitted
