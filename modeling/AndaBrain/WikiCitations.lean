import AndaBrain.WikiAdmitted
import AndaBrain.WikiDigest
import AndaBrain.WikiIdentity
import AndaBrain.WikiNormal

/-!
# Citations verify

A search cites the rows of a version or a wider part of it, the digest the rows of the version as
it is chunked again. Every citation of a search is one of the version that it names.
-/

set_option autoImplicit false

namespace AndaBrain.WikiCitations
open Foundation Foundation.Resumption Foundation.Observer Foundation.Utf8Text
open WikiText WikiStore WikiLedger
open WikiNormal WikiOkf WikiSteps WikiQuiet WikiRead WikiDigest
open WikiRuns WikiSearch WikiAdmitted

section Codec

theorem uri_shape (space d v a b : Text) : "wiki://".toList++space++ '/'::d++ '@'::v++ '#'::a++
    '-'::b = "wiki://".toList++(space++ '/'::(d++ '@'::(v++ '#'::(a++ '-'::b)))) := by
  simp only [List.append_assoc, List.cons_append]

theorem parse_parts (space d v a b : Text) (hspace : '/' ∉ space) (hd : '@' ∉ d) (hv : '#' ∉ v)
    (ha : '-' ∉ a) :
    parseCitationUri ("wiki://".toList++space++ '/'::d++ '@'::v++ '#'::a++ '-'::b) =
      (parseU64 d).bind fun docId => (parseU64 v).bind fun versionId => (parseU64 a).bind fun start =>
        (parseU64 b).map fun stop => ⟨space,docId,versionId,start,stop⟩ := by
  have hfront (rest : Text) : "wiki://".toList.isPrefixOf ("wiki://".toList++rest) = true := by
    rw [List.isPrefixOf_iff_prefix]
    exact List.prefix_append _ _
  have hrest (rest : Text) : ("wiki://".toList++rest).drop 7 = rest := List.drop_left' (by decide)
  rw [uri_shape, parseCitationUri, hfront, if_pos rfl, hrest]
  simp only [Option.bind_eq_bind, Option.bind_some, split_once_at _ _ _ hspace, split_once_at _ _ _ hd,
    split_once_at _ _ _ hv, split_once_at _ _ _ ha]
  cases parseU64 d <;> cases parseU64 v <;> cases parseU64 a <;> cases parseU64 b <;> rfl

theorem uri_parts (space : Text) (docId versionId start stop : ℕ) : citationUri space docId
    versionId start stop = "wiki://".toList++space++ '/'::decimal docId++ '@'::decimal versionId++
    '#'::decimal start++ '-'::decimal stop := by
  delta citationUri
  exact Eq.refl _

theorem parse_citation (space : Text) (docId versionId start stop : ℕ) (hspace : '/' ∉ space)
    (hdoc : docId < 2^64) (hversion : versionId < 2^64) (hstart : start < 2^64)
    (hstop : stop < 2^64) : parseCitationUri (citationUri space docId versionId start stop) = some
    ⟨space,docId,versionId,start,stop⟩ := by
  rw [uri_parts, parse_parts space _ _ _ _ hspace (not_in_decimal docId '@' (by decide))
    (not_in_decimal versionId '#' (by decide)) (not_in_decimal start '-' (by decide)),
    parse_decimal _ hdoc, parse_decimal _ hversion, parse_decimal _ hstart, parse_decimal _ hstop]
  rfl

end Codec

section Sure
variable {α β : Type} {svc : WikiService} {w : World}

/-- A reader that answers `a`, unless the database fails. -/
structure Sure (a : α) (p : M α) (w : World) : Prop where
  ends : Ends p w (.ok a) w
  only : Safe (fun _ _ => False) (fun b _ => b = a) (fun e _ => ∃ message, e = .db message) p w

theorem sure_ret (a : α) : Sure a (pure a) w := ⟨yields_ret a,rfl⟩

theorem sure_ask (f : World → Except WikiError α) (a : α) (h : f w = .ok a) : Sure a (ask f) w where
  ends := by
    have hask := ends_ask (w := w) f
    rwa [h] at hask
  only := by
    apply safe_query
    · intro fault b hb
      cases fault with
      | none =>
        simp only [h, Except.ok.injEq] at hb
        exact hb.symm
      | failed applied message => cases hb
    intro fault e he
    cases fault with
    | none => simp [h] at he
    | failed applied message =>
      cases he
      exact ⟨message,rfl⟩

theorem sure_bind (p : M α) (f : α → M β) (a : α) (b : β) (hp : Sure a p w) (hf : Sure b (f a) w) :
    Sure b (p >>= f) w where
  ends := yields_bind hp.ends hf.ends
  only := by
    apply safe_still _ _ _ hp.only fun _ h => h
    rintro _ rfl
    exact hf.only

theorem sure_attempt (p : M α) (f : Except WikiError α → M β) (a : α) (b : β) (hp : Sure a p w)
    (hf : Sure b (f (.ok a)) w)
    (he : ∀ message, Safe (fun _ _ => False) (fun c _ => c = b) (fun e _ => ∃ message, e = .db message)
      (f (.error (.db message))) w) : Sure b (attempt p >>= f) w where
  ends := yields_bind (yields_attempt hp.ends) hf.ends
  only := by
    apply safe_still (Q := fun r _ => r = .ok a ∨ ∃ message, r = .error (.db message))
      (F := fun _ _ => False)
    · apply safe_attempt
      apply safe_mono _ _ hp.only (fun _ _ h => h)
      · rintro _ _ rfl
        exact Or.inl rfl
      · rintro _ _ ⟨message,rfl⟩
        exact Or.inr ⟨message,rfl⟩
    · exact fun _ h => h.elim
    · rintro r (rfl | ⟨message,rfl⟩)
      · exact hf.only
      · exact he message

theorem sure_pass (c : Prop) [Decidable c] (e : WikiError) (f : Unit → M α) (a : α) (hc : ¬c)
    (h : Sure a (f ()) w) : Sure a (refuseIf c e >>= f) w := by
  rw [refuseIf, if_neg hc]
  exact h

theorem sure_row {γ : Type} (c : Collection) (table : World → Table γ) (id : ℕ) (row : γ)
    (h : (table w).get id = some row) : Sure row (getRow svc c table id) w :=
  sure_ask _ row (by simp only [h])

theorem sure_doc (docId : ℕ) (doc : WikiDoc) (h : w.docs.get docId = some doc)
    (hne : doc.currentVersion ≠ 0) : Sure doc (docRecord svc docId) w :=
  sure_bind _ _ doc doc (sure_row .docs World.docs docId doc h) (sure_pass _ _ _ doc hne (sure_ret doc))

theorem chain_parent {docId : ℕ} (first : ℕ) (rest : List ℕ)
    (h : Chain w.versions docId (first::rest)) : ∃ found, w.versions.get first = some found ∧
    found.docId = docId ∧ found.parentVersion = rest.head? ∧
    (rest ≠ [] → Chain w.versions docId rest) ∧ ∀ p, rest.head? = some p → p < first ∧ 0 < p := by
  cases rest with
  | nil =>
    obtain ⟨found,hfound,hown,hparent⟩ := h
    exact ⟨found,hfound,hown,hparent,fun h => absurd rfl h,fun _ h => nomatch h⟩
  | cons parent rest =>
    obtain ⟨⟨found,hfound,hown,hparent⟩,hlt,hrest⟩ := h
    refine ⟨found,hfound,hown,hparent,fun _ => hrest,?_⟩
    rintro p ⟨⟩
    obtain ⟨v,hv,-⟩ := chain_row _ hrest parent List.mem_cons_self
    exact ⟨hlt,(Table.get_bound _ _ _ hv).1⟩

theorem sure_published_from (docId versionId fuel : ℕ) (ids : List ℕ) (id : ℕ) (v : WikiVersion)
    (hchain : Chain w.versions docId ids) (hhead : ids.head? = some id) (hin : versionId ∈ ids)
    (hv : w.versions.get versionId = some v) (hfuel : id < fuel) :
    Sure v (publishedFrom svc docId versionId fuel (some id)) w := by
  induction fuel generalizing ids id with
  | zero => omega
  | succ fuel ih =>
    match ids, hchain, hhead, hin with
    | first::rest, hchain, hhead, hin =>
      have hfirst : first = id := by simpa using hhead
      subst hfirst
      have hsorted := chain_sorted _ hchain
      have hle : versionId ≤ first := by
        rcases List.mem_cons.mp hin with rfl | hin
        · exact Nat.le_refl _
        · exact Nat.le_of_lt ((List.pairwise_cons.mp hsorted).1 versionId hin)
      unfold publishedFrom
      rw [if_neg (Nat.not_lt.mpr hle)]
      obtain ⟨found,hfound,hown,hparent,hrest,hbound⟩ := chain_parent first rest hchain
      have hchecked : Sure found (chainVersion svc docId first) w := by
        apply sure_bind _ _ found found (sure_row .versions World.versions first found hfound)
        apply sure_pass _ _ _ found _ (sure_ret found)
        rintro (hother | hbad)
        · exact hother hown
        obtain ⟨p,hp,hbad⟩ := (Option.any_eq_true _ _).mp hbad
        obtain ⟨hlt,hpos⟩ := hbound p (hparent ▸ hp)
        simp at hbad
        omega
      apply sure_bind _ _ found v hchecked
      by_cases heq : first = versionId
      · rw [if_pos heq]
        rw [heq, hv] at hfound
        cases hfound
        exact sure_ret v
      rw [if_neg heq]
      have hin : versionId ∈ rest := (List.mem_cons.mp hin).resolve_left fun h => heq h.symm
      rw [hparent]
      cases rest with
      | nil => cases hin
      | cons parent rest =>
        have hlt := (hbound parent rfl).1
        exact ih (parent::rest) parent (hrest (by simp)) rfl hin (by omega)

end Sure

section Verify
variable {svc : Reader} {w : World}

def citing (uri checksum : Text) : WikiVerifyInput := ⟨some uri,none,none,none,some checksum⟩

def Good (status : WikiVerifyStatus) : Prop := status = .valid ∨ status = .superseded

def Verifies (svc : Reader) (w : World) (uri checksum : Text) : Prop :=
  ∀ actor, ∃ output, Good output.status ∧
    Sure output (verifyScoped svc ⟨actor,none⟩ (citing uri checksum)) w

theorem verify_sure (hspace : '/' ∉ svc.spaceId) (docId versionId start stop : ℕ) (ids : List ℕ)
    (v : WikiVersion) (checksum actor : Text) (hids : Published w docId ids)
    (hin : versionId ∈ ids) (hv : w.versions.get versionId = some v)
    (hdocId : docId < 2^64) (hversionId : versionId < 2^64) (hstart : start < 2^64)
    (hstop : stop < 2^64) : ∃ doc, v.docId = docId ∧
      Sure (verifyResolved svc docId doc versionId v start stop (some checksum))
        (verifyScoped svc ⟨actor,none⟩
          (citing (citationUri svc.spaceId docId versionId start stop) checksum)) w := by
  obtain ⟨doc,hdoc,hhead,hchain⟩ := id hids
  have hne := published_nonzero docId ids doc hids hdoc
  have htarget : verifyTarget svc (citing (citationUri svc.spaceId docId versionId start stop)
      checksum) = .ok ⟨docId,versionId,start,stop⟩ := by
    simp only [verifyTarget, citing,
      parse_citation svc.spaceId docId versionId start stop hspace hdocId hversionId hstart hstop]
    simp
  have hown : v.docId = docId := by
    obtain ⟨found,hfound,hown⟩ := chain_row ids hchain versionId hin
    rw [hv] at hfound
    cases hfound
    exact hown
  have hlift : Sure ⟨docId,versionId,start,stop⟩ (lift (verifyTarget svc (citing (citationUri
      svc.spaceId docId versionId start stop) checksum))) w := by
    rw [htarget]
    exact sure_ret _
  refine ⟨doc,hown,?_⟩
  apply sure_bind _ _ _ _ hlift
  apply sure_attempt _ _ doc _ (sure_doc docId doc hdoc hne)
  · apply sure_bind _ _ (some doc) _ (sure_ret _)
    apply sure_attempt _ _ v _ (sure_published_from docId versionId _ ids _ v hchain hhead hin hv
      (Nat.lt_succ_self _))
    · exact sure_bind _ _ (some v) _ (sure_ret _) (sure_ret _)
    · exact fun message => ⟨message,rfl⟩
  · exact fun message => ⟨message,rfl⟩

theorem cited_verifies (hspace : '/' ∉ svc.spaceId) (docId versionId start stop : ℕ) (ids : List ℕ)
    (v : WikiVersion) (text : Text) (hids : Published w docId ids) (hin : versionId ∈ ids)
    (hv : w.versions.get versionId = some v) (hdocId : docId < 2^64) (hversionId : versionId < 2^64)
    (hstart : start < 2^64) (hstop : stop < 2^64) (htext : slice v.content start stop = some text) :
    Verifies svc w (citationUri svc.spaceId docId versionId start stop)
    (chunkChecksum svc.toLibrary v.checksum start stop text) := by
  intro actor
  obtain ⟨doc,hown,hsure⟩ := verify_sure hspace docId versionId start stop ids v
    (chunkChecksum svc.toLibrary v.checksum start stop text) actor hids hin hv hdocId hversionId
    hstart hstop
  refine ⟨_,?_,hsure⟩
  by_cases hcur : versionId = doc.currentVersion
  · left
    simp [verifyResolved, hown, htext, hcur]
  · right
    simp [verifyResolved, hown, htext, hcur]

def Stands (svc : Reader) (w : World) (uri checksum : Text) (versionId : ℕ) (range : ℕ × ℕ)
    (text : Text) : Prop :=
  Verifies svc w uri checksum ∧ ∃ v, w.versions.get versionId = some v ∧
    slice v.content range.1 range.2 = some text

theorem cited_later {t : World} (hspace : '/' ∉ svc.spaceId) (hok : Ok svc.toWikiService t)
    (hev : Evolves t w) (docId versionId : ℕ) (doc : WikiDoc) (v : WikiVersion) (range : ℕ × ℕ)
    (text : Text) (hdoc : t.docs.get docId = some doc) (hcur : doc.currentVersion = versionId)
    (hne : versionId ≠ 0) (hv : t.versions.get versionId = some v) (hdocId : docId < 2^64)
    (hversionId : versionId < 2^64) (htext : slice v.content range.1 range.2 = some text) : Stands
    svc w (citationUri svc.spaceId docId versionId range.1 range.2)
    (chunkChecksum svc.toLibrary v.checksum range.1 range.2 text) versionId range text := by
  obtain ⟨ids,hids⟩ := hok.chains docId doc hdoc (by rw [hcur]; exact hne)
  obtain ⟨hkept,more,hmore⟩ := hev.kept docId ids hids
  have hin : versionId ∈ ids := by
    rw [← hcur]
    exact List.mem_of_mem_head? (published_head docId ids doc hids hdoc)
  have hlater : w.versions.get versionId = some v := by
    rw [hkept _ hin]
    exact hv
  obtain ⟨hle,hbound⟩ := slice_bound _ _ _ _ htext
  have hsize := (hok.versions versionId v hv).bound
  have hmax : maxDocBytes < 2^64 := by decide
  refine ⟨?_,v,hlater,htext⟩
  exact cited_verifies hspace docId versionId range.1 range.2 _ v text hmore
    (List.mem_append_right _ hin) hlater hdocId hversionId (by omega) (by omega) htext

end Verify

section Search
variable (svc : Searcher) (yaml : Yaml)

def SearchCites (c : Wiki) : Prop :=
  ∀ schedule input labels fs output,
    (beside svc.toWikiService yaml (c,searchView svc schedule input labels) fs).2 = .ret output →
    ∀ hit ∈ output.hits, hit.citation.docId < 2^64 → hit.citation.versionId < 2^64 → ∀ gs,
      Stands svc.toReader (run svc.toWikiService yaml
          (beside svc.toWikiService yaml (c,searchView svc schedule input labels) fs).1 gs).state
        hit.citation.uri hit.citation.checksum hit.citation.versionId hit.citation.byteRange hit.text

theorem search_cites (hspace : '/' ∉ svc.spaceId) (c : Wiki) (hc : Held svc.toWikiService c) :
    SearchCites svc yaml c := by
  intro schedule input labels fs output hret hit hin hdocId hversionId gs
  unfold searchView at hret ⊢
  rw [← bind_ret (searchInner _ _ _ _)] at hret ⊢
  -- the search looks at moments that lead to the state after it
  have hfollows : Follows Evolves (Ok svc.toWikiService) (fun _ _ _ => True) (fun _ _ _ => True)
      (searchInner svc schedule input labels >>= Prog.ret) ∅ c.state := by
    rw [bind_ret]
    exact follows_mono _ (follows_search schedule input ∅ c.state)
      (fun _ _ _ _ => trivial) fun _ _ _ _ => trivial
  obtain ⟨hend,hlead⟩ := during_leads _ yaml c _ fs hc hfollows
  have hseen := search_seen svc yaml c hc schedule input labels Prog.ret
    (fun output H => ∀ hit ∈ output.hits, HitSeen svc (WikiAccess.allows ⟨[],labels⟩) H hit) fs output
    (fun output H K hsub h hit hin => hit_later K hit hsub (h hit hin)) (fun _ _ h => h) hret hit hin
  obtain ⟨t,ht,doc,v,rows,row,hdoc,hcur,-,-,hv,htext,-,huri,hsum⟩ := hseen
  obtain ⟨hok,hev⟩ := hlead t ht
  rw [huri, hsum]
  have hpos := (Table.get_bound _ _ _ hv).1
  exact cited_later hspace hok (evolves_trans _ _ _ hev (run_evolves _ yaml _ gs hend))
    hit.citation.docId hit.citation.versionId doc v hit.citation.byteRange hit.text hdoc hcur (by omega)
    hv hdocId hversionId htext

end Search

section Digest
variable (svc : Reader) (yaml : Yaml)

def DigestCites (c : Wiki) (docId : ℕ) (doc : WikiDoc) (v : WikiVersion) : Prop :=
  ∀ chunks confidence extraction, sourceChunks svc docId doc doc.currentVersion v = .ok chunks →
    ∀ fact ∈ (normalizeFacts svc confidence docId doc.currentVersion v chunks extraction).1, ∀ gs,
      ∃ range text,
        fact.citation = citationUri svc.spaceId docId doc.currentVersion range.1 range.2 ∧
        Stands svc (run svc.toWikiService yaml c gs).state fact.citation fact.checksum
          doc.currentVersion range text

def Unmarked (v : WikiVersion) : Prop :=
  v.content.head? ≠ some byteOrderMark ∨ v.content = [byteOrderMark,'\n']

theorem kept_facts (facts rest : List DigestedFact) (alive : List TripleKey) (fact : DigestedFact)
    (h : fact ∈ (keepFacts facts alive rest).1) : fact ∈ facts ∨ fact ∈ rest := by
  induction rest generalizing facts alive with
  | nil => exact .inl h
  | cons f rest ih =>
    rw [keepFacts] at h
    split at h
    · exact (ih _ _ h).imp_right (List.mem_cons_of_mem _)
    rcases ih _ _ h with hin | hin
    · split at hin
      · rcases List.mem_append.mp hin with hin | hin
        · exact .inl hin
        · exact .inr (List.mem_singleton.mp hin ▸ List.mem_cons_self)
      · exact .inl hin
    · exact .inr (List.mem_cons_of_mem _ hin)

theorem fact_passage (confidence : Option Text → Text) (docId versionId : ℕ) (v : WikiVersion)
    (chunks : List ChunkRow) (extraction : List ExtractedFact) (fact : DigestedFact)
    (h : fact ∈ (normalizeFacts svc confidence docId versionId v chunks extraction).1) : ∃ anchor,
    fact.citation = citationUri svc.spaceId docId versionId (passageOf svc v chunks anchor).start
    (passageOf svc v chunks anchor).stop ∧ fact.checksum = (passageOf svc v chunks anchor).checksum
    := by
  rcases kept_facts _ _ _ fact h with h | h
  · cases h
  obtain ⟨given,-,hgiven⟩ := List.mem_filterMap.mp h
  simp only [digestedFact, Option.bind_eq_bind, Option.bind_eq_some_iff] at hgiven
  obtain ⟨_,-,_,-,_,-,_,-,_,-,heq⟩ := hgiven
  cases heq
  exact ⟨given.anchor,rfl,rfl⟩

theorem passage_stored (docId : ℕ) (doc : WikiDoc) (v : WikiVersion) (chunks : List ChunkRow)
    (hok : VersionOk svc.toWikiService v) (hmark : Unmarked v)
    (hsource : sourceChunks svc docId doc doc.currentVersion v = .ok chunks) (anchor : Option Text) :
    let p := passageOf svc v chunks anchor
    slice v.content p.start p.stop = some p.text ∧
      p.checksum = chunkChecksum svc.toLibrary v.checksum p.start p.stop p.text := by
  unfold sourceChunks at hsource
  split at hsource
  · cases hsource
  rename_i prepared hp
  cases hsource
  obtain ⟨hprepared,-,hcontent⟩ := prepare_ok _ _ hp
  have hsame : prepared.content = v.content := by
    rcases hmark with hmark | hmark
    · obtain ⟨raw,hraw⟩ := hok.normal
      rcases normalize_normal raw with hnil | ⟨lines,hlines,heq⟩
      · exact absurd (hraw.trans hnil) hok.nonempty
      rw [hcontent]
      have hv : v.content = terminated lines := hraw.trans heq
      rw [hv] at hmark
      change normalizeContent svc.toLibrary v.content = v.content
      rw [hv]
      exact normalize_stable lines hlines hmark
    · have hnil : prepared.content = [] := by
        rw [hcontent]
        change normalizeContent svc.toLibrary v.content = []
        rw [hmark]
        exact normalize_mark_only
      exact absurd hnil hprepared.nonempty
  have hrows : RowsOf svc.toWikiService v prepared.chunks := by
    have hsum : v.checksum = prepared.checksum := by
      rw [hok.checksum, hprepared.checksum, hsame]
    rw [RowsOf, hsum, ← hsame]
    exact hprepared.rows
  unfold passageOf
  split
  · rename_i chunk hchunk
    obtain ⟨name,-,hfind⟩ := Option.bind_eq_some_iff.mp hchunk
    obtain ⟨row,hrow,rfl⟩ := List.mem_map.mp (List.mem_reverse.mp (List.mem_of_find?_eq_some hfind))
    have hspec := rows_of_row v _ hrows row hrow
    exact ⟨hspec.1,hspec.2.1⟩
  · have hsize : v.size = byteLen v.content := hok.size
    exact ⟨by rw [hsize]; exact slice_all v.content,rfl⟩

/-- Along every run, the citations of searches stand, and so do those of the digest of a
version that does not begin with a byte order mark, or has nothing behind the mark. -/
theorem citations_stand (svc : Searcher) (hspace : '/' ∉ svc.spaceId) (es : List (Event Op Fault)) :
    let c := run svc.toWikiService yaml start es
    SearchCites svc yaml c ∧
    ∀ docId doc v, c.state.docs.get docId = some doc →
      c.state.versions.get doc.currentVersion = some v → docId < 2^64 → doc.currentVersion < 2^64 →
      Unmarked v → DigestCites svc.toReader yaml c docId doc v := by
  intro c
  have hc : Held svc.toWikiService c := run_held _ yaml _ es (start_held _)
  refine ⟨search_cites svc yaml hspace c hc,?_⟩
  intro docId doc v hdoc hv hdocId hversionId hmark chunks confidence extraction hsource fact hfact gs
  obtain ⟨anchor,huri,hsum⟩ := fact_passage svc.toReader confidence docId _ v chunks extraction fact hfact
  obtain ⟨htext,hcheck⟩ := passage_stored svc.toReader docId doc v chunks
    (hc.1.versions _ v hv) hmark hsource anchor
  generalize passageOf svc.toReader v chunks anchor = p at huri hsum htext hcheck
  refine ⟨(p.start,p.stop),p.text,huri,?_⟩
  rw [huri, hsum, hcheck]
  have hpos := (Table.get_bound _ _ _ hv).1
  exact cited_later hspace hc.1 (run_evolves _ yaml _ gs hc) docId _ doc v (p.start,p.stop) p.text hdoc rfl
    (by omega) hv hdocId hversionId htext

end Digest

section Notes

def asciiSearcher : Searcher where
  toWikiService := asciiService
  fromCursor := fun _ => .ok none
  toCursor := fun id => some (decimal id)
  auditReads := false
  rank := fun _ _ _ => []

def noteInput (content : Text) : CommitInput where
  docId := none
  parentVersion := none
  ns := none
  slug := none
  title := "note".toList
  content := content
  tags := none
  aclLabel := none
  sourceUri := none
  message := none
  metadata := none

theorem note_committed (yaml : Yaml) (content stored : Text)
    (hstored : normalizeContent asciiLibrary content = stored) (hne : stored ≠ [])
    (hsize : byteLen stored ≤ maxDocBytes)
    (hvalid : (noteInput content).normalize.validate asciiService = .ok ()) : ∃ es doc v,
    (run asciiService yaml start es).state.docs.get 1 = some doc ∧
    (run asciiService yaml start es).state.versions.get doc.currentVersion = some v ∧
    doc.currentVersion = 1 ∧ doc.title = "note".toList ∧ v.content = stored := by
  subst hstored
  have htitle : (noteInput content).normalize.title = "note".toList := rfl
  obtain ⟨p,hp⟩ := prepare_total asciiService (noteInput content)
    (by rw [htitle]; decide) hvalid hne hsize
  obtain ⟨-,hinput,hcontent⟩ := prepare_ok _ p hp
  have hnew : p.input.docId = none := by
    rw [hinput]
    rfl
  obtain ⟨out,t,hends,⟨label,target,middle,-,⟨-,hid,-,-,-,rfl⟩,hact⟩,-⟩ :=
    ends_publish asciiService (w := World.empty) [] p 0 none hnew
  have hexisting : Ends (existingDoc asciiService p.input) World.empty (.ok none) World.empty := by
    rw [existingDoc, hnew]
    exact yields_ret none
  have hcommit : Ends (commit asciiService [] (noteInput content) 0) World.empty (.ok out) t :=
    yields_bind (yields_lift_eq hp) (yields_bind hexisting hends)
  obtain ⟨n,hrun⟩ := run_served asciiService yaml (.commit [] (noteInput content) 0)
    start _ t rfl (yields_bind hcommit (yields_ret _))
  have hdocs := hact.docs
  rw [hid, Table.update_add] at hdocs
  obtain ⟨doc,hget,hcur,htitled⟩ : ∃ doc, t.docs.get 1 = some doc ∧ doc.currentVersion = 1 ∧
      doc.title = "note".toList := by
    rw [hdocs]
    exact ⟨_,Table.get_add_new Table.empty _,rfl,(congrArg CommitInput.title hinput).trans htitle⟩
  refine ⟨.start (.commit [] (noteInput content) 0)::List.replicate n (.tick .none),doc,
    versionRow p target [] 0,?_,?_,hcur,htitled,hcontent⟩
  · rw [hrun]
    exact hget
  rw [hrun, hcur]
  change t.versions.get 1 = _
  rw [hact.versions]
  exact Table.get_add_new Table.empty _

theorem plain_note_stands : ∃ es doc v, v.content = "a\n".toList ∧ DigestCites
    asciiSearcher.toReader WikiIdentity.silentYaml
    (run asciiService WikiIdentity.silentYaml start es) 1 doc v := by
  obtain ⟨es,doc,v,hdoc,hv,hcur,-,hcontent⟩ := note_committed WikiIdentity.silentYaml "a".toList
    "a\n".toList (by decide +kernel) (by decide) (by decide) (by decide)
  exact ⟨es,doc,v,hcontent,(citations_stand WikiIdentity.silentYaml asciiSearcher (by decide) es).2 1 doc
    v hdoc hv (by decide) (by rw [hcur]; decide) (.inl (by rw [hcontent]; decide))⟩

def knownFact (anchor : Text) : ExtractedFact :=
  ⟨⟨"Person".toList,"Ann".toList⟩,"knows".toList,⟨"Person".toList,"Bo".toList⟩,none,some anchor⟩

/-- A known anchor of a note behind two marks is cited where the version has no text. -/
theorem marked_note_invalid : ¬∀ (svc : Searcher) (yaml : Yaml), '/' ∉ svc.spaceId → ∀ es docId doc v,
    let c := run svc.toWikiService yaml start es
    c.state.docs.get docId = some doc → c.state.versions.get doc.currentVersion = some v →
    docId < 2^64 → doc.currentVersion < 2^64 → DigestCites svc.toReader yaml c docId doc v := by
  intro hall
  obtain ⟨es,doc,v,hdoc,hv,hcur,htitle,hcontent⟩ := note_committed WikiIdentity.silentYaml
    [byteOrderMark,byteOrderMark,'a'] [byteOrderMark,'a','\n'] (by decide +kernel) (by decide)
    (by decide) (by decide)
  have hc : Held asciiService (run asciiService WikiIdentity.silentYaml start es) :=
    run_held _ _ _ es (start_held _)
  have hsource : sourceInput doc v = noteInput [byteOrderMark,'a','\n'] := by
    rw [sourceInput, htitle, hcontent]
    rfl
  obtain ⟨p,hp⟩ := prepare_total asciiService (sourceInput doc v) (by rw [hsource]; decide)
    (by rw [hsource]; decide) (by rw [hsource]; decide +kernel) (by rw [hsource]; decide +kernel)
  obtain ⟨hok,-,hread⟩ := prepare_ok _ p hp
  have hagain : p.content = ['a','\n'] := by
    rw [hread, hsource]
    decide +kernel
  let again : WikiVersion := { v with content := p.content, checksum := p.checksum }
  have hrows : RowsOf asciiService again p.chunks := hok.rows
  have htiles := (rows_of_tiles again p.chunks hok.nonempty hrows).1
  have hfirst : ∃ row, row ∈ p.chunks := by
    have hne := SpanTiling.tiles_nonempty _ _ _ htiles (by
      change 0 < byteLen p.content
      rw [hagain]
      decide)
    exact List.exists_mem_of_ne_nil _ fun h => hne (by rw [h]; rfl)
  obtain ⟨row,hrow⟩ := hfirst
  have hchunks : sourceChunks asciiSearcher.toReader 1 doc doc.currentVersion v =
      .ok (p.chunks.map (sourceRow 1 doc.currentVersion)) := by
    have hp' : prepareCommit asciiSearcher.toWikiService (sourceInput doc v) = .ok p := hp
    simp only [sourceChunks, hp']
  have hstop : ∀ r ∈ p.chunks, slice v.content r.byteStart r.byteEnd = none := by
    intro r hr
    have hlt := (SpanTiling.tiles_mem _ _ _ htiles (boundary_zero _) _ (List.mem_map_of_mem hr)).1
    have hle := (slice_bound _ _ _ _ (rows_of_row again _ hrows r hr).1).2
    change r.byteEnd ≤ byteLen p.content at hle
    change r.byteStart < r.byteEnd at hlt
    rw [hagain] at hle
    have htwo : byteLen ['a','\n'] = 2 := by decide
    rw [htwo] at hle
    rw [hcontent]
    have hcases : r.byteStart = 0 ∧ r.byteEnd = 1 ∨ r.byteStart = 0 ∧ r.byteEnd = 2 ∨
        r.byteStart = 1 ∧ r.byteEnd = 2 := by omega
    rcases hcases with ⟨ha,hb⟩ | ⟨ha,hb⟩ | ⟨ha,hb⟩ <;> rw [ha, hb] <;> decide
  generalize hmap : p.chunks.map (sourceRow 1 doc.currentVersion) = chunks at hchunks
  have hpassage : ∃ r ∈ p.chunks, passageOf asciiSearcher.toReader v chunks
      (some (sourceRow 1 doc.currentVersion row).anchor) =
        ⟨r.byteStart,r.byteEnd,r.checksum,r.text⟩ := by
    simp only [passageOf, Option.bind_some]
    cases hfind : chunks.reverse.find?
        (·.anchor == (sourceRow 1 doc.currentVersion row).anchor) with
    | none =>
      have hmem : sourceRow 1 doc.currentVersion row ∈ chunks.reverse := by
        rw [← hmap]
        exact List.mem_reverse.mpr (List.mem_map_of_mem hrow)
      simpa using List.find?_eq_none.mp hfind _ hmem
    | some chunk =>
      have hin := List.mem_reverse.mp (List.mem_of_find?_eq_some hfind)
      rw [← hmap] at hin
      obtain ⟨r,hr,rfl⟩ := List.mem_map.mp hin
      exact ⟨r,hr,rfl⟩
  obtain ⟨r,hr,hpassage⟩ := hpassage
  obtain ⟨fact,hfact,huri⟩ : ∃ fact, digestedFact asciiSearcher.toReader (fun _ => []) 1
      doc.currentVersion v chunks (knownFact (sourceRow 1 doc.currentVersion row).anchor) = some fact ∧
      fact.citation = citationUri asciiSearcher.spaceId 1 doc.currentVersion
        (passageOf asciiSearcher.toReader v chunks
          (some (sourceRow 1 doc.currentVersion row).anchor)).start
        (passageOf asciiSearcher.toReader v chunks
          (some (sourceRow 1 doc.currentVersion row).anchor)).stop := ⟨_,rfl,rfl⟩
  rw [hpassage] at huri
  have hmem : fact ∈ (normalizeFacts asciiSearcher.toReader (fun _ => []) 1 doc.currentVersion v chunks
      [knownFact (sourceRow 1 doc.currentVersion row).anchor]).1 := by
    rw [normalizeFacts, List.filterMap_cons_some hfact]
    exact List.mem_singleton.mpr rfl
  obtain ⟨-,-,-,hstands,-⟩ := hall asciiSearcher WikiIdentity.silentYaml (by decide) es 1 doc v hdoc hv
    (by decide) (by rw [hcur]; decide) chunks _ _ hchunks fact hmem []
  obtain ⟨output,hgood,hsure⟩ := hstands []
  obtain ⟨ids,hids⟩ := hc.1.chains 1 doc hdoc (by rw [hcur]; decide)
  have hin := List.mem_of_mem_head? (published_head 1 ids doc hids hdoc)
  have hsmall : ∀ n, n ≤ 2 → n < 2^64 := fun n hn => Nat.lt_of_le_of_lt hn (by decide)
  have hbound : r.byteStart ≤ 2 ∧ r.byteEnd ≤ 2 := by
    have hle := slice_bound _ _ _ _ (rows_of_row again _ hrows r hr).1
    change r.byteStart ≤ r.byteEnd ∧ r.byteEnd ≤ byteLen p.content at hle
    rw [hagain] at hle
    exact ⟨hle.1.trans hle.2,hle.2⟩
  obtain ⟨found,hown,hother⟩ := @verify_sure asciiSearcher.toReader _ (by decide) 1 _ r.byteStart
    r.byteEnd ids v fact.checksum [] hids hin hv (by decide) (by rw [hcur]; decide)
    (hsmall _ hbound.1) (hsmall _ hbound.2)
  rw [huri] at hsure
  have hsame := Except.ok.inj (yields_unique hsure.ends hother.ends).1
  rw [hsame, verifyResolved, if_neg (not_not.mpr hown), hstop r hr] at hgood
  rcases hgood with h | h <;> cases h

end Notes

end AndaBrain.WikiCitations
