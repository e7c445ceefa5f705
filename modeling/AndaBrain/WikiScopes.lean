import AndaBrain.WikiIdentity
import AndaBrain.WikiRead

/-!
# What a restricted caller can tell

Two states that agree on the documents a caller may see answer every request alike, with
one exception: a row that the caller may not see is refused in other words than a row
that does not exist.
-/

set_option autoImplicit false

namespace AndaBrain.WikiScopes
open Foundation Foundation.Resumption Foundation.Utf8Text
open WikiText WikiStore WikiLedger
open WikiSteps WikiQuiet WikiRuns WikiRead

inductive Request where
  | read (input : WikiReadInput) (now : ℕ)
  | document (docId now : ℕ)
  | versions (docId : ℕ) (cursor : Option Text) (limit : Option ℕ)
  | view (input : WikiReadInput)
  | list (input : WikiListDocsInput)
  | verify (input : WikiVerifyInput)

def Request.resolves : Request → Option ℕ
  | .read input _ => some input.docId
  | .document docId _ => some docId
  | .versions docId _ _ => some docId
  | .view input => some input.docId
  | .list _ => none
  | .verify _ => none

inductive Reply where
  | read (output : WikiReadOutput)
  | document (doc : DocInfo) (toc : List TocEntry)
  | versions (output : WikiVersionListOutput)
  | docs (output : WikiDocListOutput)
  | verified (output : WikiVerifyOutput)

def serve (svc : Reader) (access : WikiAccess) : Request → M Reply
  | .read input now => do
    let output ← readScoped svc access input now
    pure (.read output)
  | .document docId now => do
    let found ← documentScoped svc access docId now
    pure (.document found.1 found.2)
  | .versions docId cursor limit => do
    let output ← listVersionsScoped svc access docId cursor limit
    pure (.versions output)
  | .view input => do
    let output ← readView svc input access.labels
    pure (.read output)
  | .list input => do
    let output ← listDocsScoped svc access input
    pure (.docs output)
  | .verify input => do
    let output ← verifyScoped svc access input
    pure (.verified output)

structure Agree (labels : List Text) (a b : World) : Prop where
  docs : ∀ id doc, WikiAccess.allows ⟨[],some labels⟩ doc.aclLabel = true →
    (a.docs.get id = some doc ↔ b.docs.get id = some doc)
  versions : ∀ id doc ids, WikiAccess.allows ⟨[],some labels⟩ doc.aclLabel = true →
    a.docs.get id = some doc → Published a id ids →
    ∀ version ∈ ids, b.versions.get version = a.versions.get version

section Authorization
variable {svc : Reader} {labels : List Text} {a b : World}

def authorization (svc : Reader) (labels : List Text) (docId : ℕ) (fault : Fault) (w : World) :
    Except WikiError WikiDoc :=
  match fault with
  | .failed _ message => .error (.db message)
  | .none => match w.docs.get docId with
    | none => .error (missing svc.toWikiService .docs docId)
    | some doc =>
      if doc.currentVersion = 0 ∨ WikiAccess.allows ⟨[],some labels⟩ doc.aclLabel = false then
        .error (.notFound ("document ".toList++decimal docId++" not found".toList))
      else .ok doc

theorem outcome_authorized (actor : Text) (docId : ℕ) (env : ℕ → Fault) (w : World) :
    outcome (authorized svc ⟨actor,some labels⟩ docId) env w =
      (authorization svc labels docId (env 0) w,w,fun n => env (n+1)) := by
  have hallows (label : Text) : WikiAccess.allows ⟨actor,some labels⟩ label =
      WikiAccess.allows ⟨[],some labels⟩ label := rfl
  unfold authorized docRecord getRow ask guardDoc
  rw [outcome_bind, outcome_bind, outcome_query]
  cases env 0 with
  | failed applied message => rfl
  | none =>
    cases hdoc : w.docs.get docId with
    | none => simp only [authorization, hdoc]
    | some doc =>
      simp only [authorization, hdoc, hallows]
      by_cases hzero : doc.currentVersion = 0
      · simp only [hzero, true_or, if_true]
        rfl
      simp only [hzero, false_or, refuseIf, if_false]
      show outcome (guardDoc docId doc ⟨[],some labels⟩ >>= fun _ => pure doc) _ w = _
      by_cases hden : WikiAccess.allows ⟨[],some labels⟩ doc.aclLabel = false
      · rw [guardDoc, refuseIf, if_pos hden, if_pos hden]
        rfl
      · rw [guardDoc, refuseIf, if_neg hden, if_neg hden]
        rfl

def Shown (labels : List Text) (a b : World) (docId : ℕ) (doc : WikiDoc) : Prop :=
  a.docs.get docId = some doc ∧ b.docs.get docId = some doc ∧ doc.currentVersion ≠ 0 ∧
    WikiAccess.allows ⟨[],some labels⟩ doc.aclLabel = true

theorem authorization_shown (hagree : Agree labels a b) (docId : ℕ) (doc : WikiDoc)
    (h : authorization svc labels docId .none a = .ok doc) : Shown labels a b docId doc := by
  cases hdoc : a.docs.get docId with
  | none => simp [authorization, hdoc] at h
  | some found =>
    simp only [authorization, hdoc] at h
    split at h
    · cases h
    rename_i hseen
    cases h
    simp only [not_or, Bool.not_eq_false] at hseen
    exact ⟨hdoc,(hagree.docs docId doc hseen.2).mp hdoc,hseen⟩

theorem differs_hidden (p q : Table WikiDoc) (h : ∀ id doc,
      WikiAccess.allows ⟨[],some labels⟩ doc.aclLabel = true → (p.get id = some doc ↔ q.get id = some doc))
    (docId : ℕ) (doc : WikiDoc) (hdoc : q.get docId = some doc) (hnot : p.get docId ≠ some doc) :
    WikiAccess.allows ⟨[],some labels⟩ doc.aclLabel = false := by
  cases hden : WikiAccess.allows ⟨[],some labels⟩ doc.aclLabel with
  | false => rfl
  | true => exact absurd ((h docId doc hden).mpr hdoc) hnot

/-- Where both states have a row, or neither has one, the document is authorized alike. -/
theorem authorization_same (hagree : Agree labels a b) (docId : ℕ)
    (hrow : (a.docs.get docId).isSome = (b.docs.get docId).isSome) (fault : Fault) :
    authorization svc labels docId fault a = authorization svc labels docId fault b := by
  cases fault with
  | failed applied message => rfl
  | none =>
    cases hA : a.docs.get docId with
    | none =>
      rw [hA] at hrow
      have hB : b.docs.get docId = none := by simpa using hrow.symm
      simp only [authorization, hA, hB]
    | some doc =>
      rw [hA] at hrow
      obtain ⟨other,hB⟩ := Option.isSome_iff_exists.mp hrow.symm
      by_cases heq : doc = other
      · simp only [authorization, hA, hB, heq]
      -- neither is allowed, or both states would show the same row
      have hother := differs_hidden _ _ hagree.docs docId other hB (by
        rw [hA]
        simpa using heq)
      have hdoc := differs_hidden _ _ (fun id doc h => (hagree.docs id doc h).symm) docId doc hA (by
        rw [hB]
        simpa using Ne.symm heq)
      simp only [authorization, hA, hB, hother, hdoc, or_true, if_true]

theorem twins_authorized (hagree : Agree labels a b) (actor : Text) (docId : ℕ)
    (hrow : (a.docs.get docId).isSome = (b.docs.get docId).isSome) :
    Twins (fun x y => x = y ∧ Shown labels a b docId x) (authorized svc ⟨actor,some labels⟩ docId) a
      (authorized svc ⟨actor,some labels⟩ docId) b := by
  intro env
  refine ⟨_,_,_,outcome_authorized actor docId env a,outcome_authorized actor docId env b,?_⟩
  rw [← authorization_same hagree docId hrow]
  cases hauth : authorization svc labels docId (env 0) a with
  | error e => exact .error e
  | ok doc =>
    refine .ok doc doc ⟨rfl,?_⟩
    cases hfault : env 0 with
    | failed applied message => simp [authorization, hfault] at hauth
    | none =>
      rw [hfault] at hauth
      exact authorization_shown hagree docId doc hauth

variable (svc) in
theorem authorization_differs (hagree : Agree labels a b) (docId : ℕ)
    (hrow : (a.docs.get docId).isSome ≠ (b.docs.get docId).isSome) : ∃ e e', authorization svc
    labels docId .none a = .error e ∧ authorization svc labels docId .none b = .error e' ∧ e ≠ e' :=
    by
  have hslash : ('/' : Char) ∉ "document ".toList++decimal docId++" not found".toList := by
    simp only [List.mem_append, not_or]
    refine ⟨⟨by decide,?_⟩,by decide⟩
    intro hmem
    have := Nat.isDigit_of_mem_toDigits (b := 10) (by decide) (by decide) hmem
    exact absurd this (by decide)
  have hwords : WikiError.notFound ("document ".toList++decimal docId++" not found".toList) ≠
      missing svc.toWikiService .docs docId := by
    intro heq
    apply hslash
    rw [missing, WikiError.notFound.injEq] at heq
    rw [heq]
    simp
  cases hA : a.docs.get docId with
  | none =>
    cases hB : b.docs.get docId with
    | none => simp [hA, hB] at hrow
    | some doc =>
      have hden := differs_hidden _ _ hagree.docs docId doc hB (by simp [hA])
      exact ⟨_,_,by simp only [authorization, hA],
        by simp only [authorization, hB, hden, or_true, if_true],hwords.symm⟩
  | some doc =>
    cases hB : b.docs.get docId with
    | some other => simp [hA, hB] at hrow
    | none =>
      have hden := differs_hidden _ _ (fun id doc h => (hagree.docs id doc h).symm) docId doc hA
        (by simp [hB])
      exact ⟨_,_,by simp only [authorization, hA, hden, or_true, if_true],
        by simp only [authorization, hB],hwords⟩

end Authorization

section Versions
variable {svc : Reader} {a b : World} {docId : ℕ}

def Shared (a b : World) (docId : ℕ) (next : Option ℕ) : Prop :=
  ∀ id, next = some id → ∃ ids, Chain a.versions docId ids ∧ ids.head? = some id ∧
    ∀ i ∈ ids, b.versions.get i = a.versions.get i

theorem shared_next (id : ℕ) (v : WikiVersion) (h : Shared a b docId (some id))
    (hv : a.versions.get id = some v) : Shared a b docId v.parentVersion := by
  obtain ⟨ids,hchain,hhead,hsame⟩ := h id rfl
  intro parent hparent
  match ids, hchain, hhead with
  | [first], hchain, hhead =>
    obtain ⟨u,hu,-,hp⟩ := hchain
    have hfirst : first = id := by simpa using hhead
    rw [hfirst, hv] at hu
    cases hu
    rw [hp] at hparent
    cases hparent
  | first::second::rest, hchain, hhead =>
    obtain ⟨⟨u,hu,-,hp⟩,-,hrest⟩ := hchain
    have hfirst : first = id := by simpa using hhead
    rw [hfirst, hv] at hu
    cases hu
    rw [hp] at hparent
    cases hparent
    exact ⟨_,hrest,rfl,fun i hi => hsame i (List.mem_cons_of_mem _ hi)⟩

theorem shared_bound (id : ℕ) (h : Shared a b docId (some id)) :
    id ≤ a.versions.last ∧ id ≤ b.versions.last ∧ b.versions.get id = a.versions.get id := by
  obtain ⟨ids,hchain,hhead,hsame⟩ := h id rfl
  have hin := List.mem_of_mem_head? hhead
  obtain ⟨v,hv,-⟩ := chain_row ids hchain id hin
  have hb := hsame id hin
  exact ⟨(Table.get_bound _ _ _ hv).2,(Table.get_bound _ _ _ (hb.trans hv)).2,hb⟩

theorem twins_ask {α : Type} (f g : World → Except WikiError α) {Q : α → α → Prop}
    (h : Match Q (f a) (g b)) : Twins Q (ask f) a (ask g) b := by
  apply twins_query
  intro fault
  cases fault with
  | failed applied message => exact .error _
  | none => exact h

theorem match_same {α : Type} (r : Except WikiError α) {Q : α → α → Prop}
    (h : ∀ x, r = .ok x → Q x x) : Match Q r r := by
  cases r with
  | error e => exact .error e
  | ok x => exact .ok x x (h x rfl)

theorem twins_refuse {α β : Type} (c : Prop) [Decidable c] (e : WikiError) (f : Unit → M α)
    (g : Unit → M β) {Q : α → β → Prop} (h : ¬c → Twins Q (f ()) a (g ()) b) :
    Twins Q (refuseIf c e >>= f) a (refuseIf c e >>= g) b := by
  by_cases hc : c
  · rw [refuseIf, if_pos hc]
    exact twins_fail e
  · rw [refuseIf, if_neg hc]
    exact h hc

theorem twins_chain_version (id : ℕ) (h : Shared a b docId (some id)) :
    Twins (fun x y => x = y ∧ a.versions.get id = some x) (chainVersion svc.toWikiService docId id) a
      (chainVersion svc.toWikiService docId id) b := by
  have hrow : Twins (fun x y => x = y ∧ a.versions.get id = some x)
      (versionRecord svc.toWikiService id) a (versionRecord svc.toWikiService id) b := by
    apply twins_ask
    rw [(shared_bound id h).2.2]
    apply match_same
    intro v hv
    cases hget : a.versions.get id with
    | none => simp [hget] at hv
    | some found =>
      simp only [hget, Except.ok.injEq] at hv
      rw [hv]
      exact ⟨rfl,rfl⟩
  apply twins_bind _ _ _ _ hrow
  rintro x y ⟨rfl,hx⟩
  apply twins_refuse
  intro _
  exact twins_ret _ _ ⟨rfl,hx⟩

theorem twins_published_from (versionId fuel : ℕ) (next : Option ℕ) (h : Shared a b docId next) :
    Twins (fun x y => x = y) (publishedFrom svc.toWikiService docId versionId fuel next) a
      (publishedFrom svc.toWikiService docId versionId fuel next) b := by
  induction fuel generalizing next with
  | zero => exact twins_fail _
  | succ fuel ih =>
    cases next with
    | none => exact twins_fail _
    | some id =>
      unfold publishedFrom
      by_cases hlt : id < versionId
      · simp only [if_pos hlt]
        exact ih none fun _ h => nomatch h
      simp only [if_neg hlt]
      apply twins_bind _ _ _ _ (twins_chain_version id h)
      rintro v _ ⟨rfl,hv⟩
      by_cases heq : id = versionId
      · simp only [if_pos heq]
        exact twins_ret _ _ rfl
      · simp only [if_neg heq]
        exact ih v.parentVersion (shared_next id v h hv)

theorem twins_versions_from (limit fuel : ℕ) (cursor cursor' : ℕ) (next : Option ℕ)
    (rows : List (ℕ × WikiVersion)) (h : Shared a b docId next)
    (hcursor : cursor = cursor' ∨ (a.versions.last < cursor ∧ b.versions.last < cursor')) :
    Twins (fun x y => x = y) (versionsFrom svc docId cursor limit fuel next rows) a
      (versionsFrom svc docId cursor' limit fuel next rows) b := by
  induction fuel generalizing next rows with
  | zero => exact twins_ret _ _ rfl
  | succ fuel ih =>
    cases next with
    | none => exact twins_ret _ _ rfl
    | some id =>
      have hbound := shared_bound id h
      have hsame : id < cursor ↔ id < cursor' := by omega
      unfold versionsFrom
      apply twins_bind _ _ _ _ (twins_chain_version id h)
      rintro v _ ⟨rfl,hv⟩
      have hnext := shared_next id v h hv
      by_cases hlt : id < cursor
      · simp only [if_pos hlt, if_pos (hsame.mp hlt)]
        by_cases hfull : rows.length+1 = limit
        · simp only [if_pos hfull]
          exact twins_ret _ _ rfl
        · simp only [if_neg hfull]
          exact ih _ _ hnext
      · simp only [if_neg hlt, if_neg (hsame.not.mp hlt)]
        exact ih _ _ hnext

end Versions

section Requests
variable {svc : Reader} {labels : List Text} {a b : World}

theorem shown_shared (hok : Ok svc.toWikiService a) (hagree : Agree labels a b) (docId : ℕ)
    (doc : WikiDoc) (h : Shown labels a b docId doc) : Shared a b docId (some doc.currentVersion) := by
  obtain ⟨hA,-,hne,hallowed⟩ := h
  obtain ⟨ids,hids⟩ := hok.chains docId doc hA hne
  intro id hid
  cases hid
  exact ⟨ids,hids.choose_spec.2.2,published_head docId ids doc hids hA,
    hagree.versions docId doc ids hallowed hA hids⟩

theorem twins_lift {α : Type} (r : Except WikiError α) :
    Twins (fun x y => x = y) (lift r : M α) a (lift r) b := by
  cases r with
  | error e => exact twins_fail e
  | ok x => exact twins_ret _ _ rfl

theorem twins_read_document (docId : ℕ) (doc : WikiDoc) (version : Option ℕ)
    (selector : WikiSelector) (h : Shared a b docId (some doc.currentVersion)) :
    Twins (fun x y => x = y) (readDocument svc docId doc version selector) a
      (readDocument svc docId doc version selector) b := by
  apply twins_bind _ _ _ _ (twins_published_from _ _ _ h)
  rintro v _ rfl
  exact twins_lift _

theorem twins_cursor {α : Type} (table : World → Table α) (cursor : Option Text) :
    Twins (fun x y => x = y ∨ ((table a).last < x ∧ (table b).last < y)) (cursorOrMax svc table cursor) a
      (cursorOrMax svc table cursor) b := by
  unfold cursorOrMax
  split
  · exact twins_fail _
  · exact twins_ret _ _ (Or.inl rfl)
  · exact twins_query _ _ fun _ => .ok _ _ (Or.inr ⟨Nat.lt_succ_self _,Nat.lt_succ_self _⟩)

theorem twins_document_versions (docId : ℕ) (doc : WikiDoc) (cursor : Option Text)
    (limit : Option ℕ) (h : Shared a b docId (some doc.currentVersion)) :
    Twins (fun x y => x = y) (documentVersions svc docId doc cursor limit) a
      (documentVersions svc docId doc cursor limit) b := by
  apply twins_bind _ _ _ _ (twins_cursor World.versions cursor)
  intro x y hxy
  apply twins_bind _ _ _ _ (twins_versions_from _ _ x y _ _ h hxy)
  rintro rows _ rfl
  exact twins_ret _ _ rfl

theorem outcome_audit {α : Type} (access : WikiAccess) (output : WikiReadOutput) (now : ℕ) (x : α)
    (env : ℕ → Fault) (w : World) :
    (outcome (auditRead svc access output now >>= fun _ => pure x) env w).1 = .ok x := by
  unfold auditRead doIf
  by_cases haudit : svc.auditReads = true
  · rw [if_pos haudit, outcome_bind, outcome_bind, outcome_attempt]
    rfl
  · rw [if_neg haudit]
    rfl

theorem read_alike (hok : Ok svc.toWikiService a) (hagree : Agree labels a b) (actor : Text)
    (input : WikiReadInput) (now : ℕ)
    (hrow : (a.docs.get input.docId).isSome = (b.docs.get input.docId).isSome) (env : ℕ → Fault) :
    (outcome (readScoped svc ⟨actor,some labels⟩ input now) env a).1 =
    (outcome (readScoped svc ⟨actor,some labels⟩ input now) env b).1 := by
  apply twins_result _ _ _ _ (twins_authorized hagree actor input.docId hrow)
  rintro doc _ ⟨rfl,hshown⟩
  apply twins_result _ _ _ _ (twins_read_document _ _ _ _ (shown_shared hok hagree _ _ hshown))
  rintro output _ rfl env
  rw [outcome_audit, outcome_audit]

theorem document_alike (hok : Ok svc.toWikiService a) (hagree : Agree labels a b) (actor : Text)
    (docId now : ℕ) (hrow : (a.docs.get docId).isSome = (b.docs.get docId).isSome) (env : ℕ → Fault)
    : (outcome (documentScoped svc ⟨actor,some labels⟩ docId now) env a).1 =
    (outcome (documentScoped svc ⟨actor,some labels⟩ docId now) env b).1 := by
  apply twins_result _ _ _ _ (twins_authorized hagree actor docId hrow)
  rintro doc _ ⟨rfl,hshown⟩
  apply twins_result _ _ _ _ (twins_read_document _ _ _ _ (shown_shared hok hagree _ _ hshown))
  rintro output _ rfl env
  rw [outcome_audit, outcome_audit]

end Requests

section Lists
variable {svc : Reader} {labels : List Text} {a b : World}

theorem filter_allows (label : Text) (h : aclFilter labels label = true) :
    WikiAccess.allows ⟨[],some labels⟩ label = true := by
  simp only [aclFilter, WikiAccess.allows, Bool.or_eq_true, List.any_eq_true] at h ⊢
  rcases h with h | ⟨l,hl,heq⟩
  · exact Or.inl h
  · exact Or.inr ⟨l,List.mem_of_mem_take hl,heq⟩

theorem select_same (p q : Table WikiDoc) (f g : ℕ → WikiDoc → Bool)
    (h : ∀ id doc, (p.get id = some doc ∧ f id doc = true) ↔ (q.get id = some doc ∧ g id doc = true)) :
    p.select f = q.select g := by
  have hmem : ∀ id, id ∈ p.select f ↔ id ∈ q.select g := by
    intro id
    rw [Table.mem_select, Table.mem_select]
    exact exists_congr fun doc => h id doc
  have hp := p.select_sorted f
  have hq := q.select_sorted g
  have hperm : (p.select f).Perm (q.select g) :=
    (List.perm_ext_iff_of_nodup (hp.imp fun h => Nat.ne_of_lt h) (hq.imp fun h => Nat.ne_of_lt h)).mpr
      hmem
  apply hperm.eq_of_pairwise _ hp hq
  intro x y _ _ hxy hyx
  exact absurd (hxy.trans hyx) (Nat.lt_irrefl _)

theorem twins_get_docs (ids : List ℕ) (h : ∀ id ∈ ids, a.docs.get id = b.docs.get id) :
    Twins (fun x y => x = y) (getDocs svc.toWikiService ids) a (getDocs svc.toWikiService ids) b := by
  induction ids with
  | nil => exact twins_ret _ _ rfl
  | cons id rest ih =>
    have hrow : Twins (fun x y => x = y) (getRow svc.toWikiService .docs World.docs id) a
        (getRow svc.toWikiService .docs World.docs id) b := by
      apply twins_ask
      rw [h id (by simp)]
      exact match_same _ fun _ _ => rfl
    apply twins_bind _ _ _ _ hrow
    rintro doc _ rfl
    apply twins_bind _ _ _ _ (ih fun i hi => h i (by simp [hi]))
    rintro docs _ rfl
    exact twins_ret _ _ rfl

theorem twins_list (hagree : Agree labels a b) (input : WikiListDocsInput) :
    Twins (fun x y => x = y) (listDocsInner svc input (some labels)) a
      (listDocsInner svc input (some labels)) b := by
  apply twins_bind _ _ _ _ (twins_cursor World.docs input.cursor)
  intro cursor cursor' hcursor
  -- a document that the filter lets through is allowed, so both states have it
  have hsel : ∀ id doc,
      (a.docs.get id = some doc ∧ (decide (id < cursor) && listed input doc
        && aclFilter labels doc.aclLabel) = true) ↔
      (b.docs.get id = some doc ∧ (decide (id < cursor') && listed input doc
        && aclFilter labels doc.aclLabel) = true) := by
    intro id doc
    simp only [Bool.and_eq_true, decide_eq_true_eq]
    constructor
    · rintro ⟨hget,⟨hlt,hlist⟩,hlabel⟩
      have hb := (hagree.docs id doc (filter_allows _ hlabel)).mp hget
      have ha' := (Table.get_bound _ _ _ hget).2
      have hb' := (Table.get_bound _ _ _ hb).2
      exact ⟨hb,⟨by omega,hlist⟩,hlabel⟩
    · rintro ⟨hget,⟨hlt,hlist⟩,hlabel⟩
      have ha := (hagree.docs id doc (filter_allows _ hlabel)).mpr hget
      have ha' := (Table.get_bound _ _ _ ha).2
      have hb' := (Table.get_bound _ _ _ hget).2
      exact ⟨ha,⟨by omega,hlist⟩,hlabel⟩
  have hids := select_same a.docs b.docs _ _ hsel
  have hquery : Twins (fun x y => x = y ∧ ∀ id ∈ x, a.docs.get id = b.docs.get id)
      (ask fun w => .ok (lastIds (w.docs.select fun id doc => decide (id < cursor)
        && listed input doc && aclFilter labels doc.aclLabel) (pageLimit input.limit))) a
      (ask fun w => .ok (lastIds (w.docs.select fun id doc => decide (id < cursor')
        && listed input doc && aclFilter labels doc.aclLabel) (pageLimit input.limit))) b := by
    apply twins_ask
    rw [← hids]
    refine .ok _ _ ⟨rfl,?_⟩
    intro id hid
    obtain ⟨doc,hget,hp⟩ := (Table.mem_select _ _ _).mp (List.mem_of_mem_drop hid)
    rw [hget, ((hsel id doc).mp ⟨hget,hp⟩).1]
  apply twins_bind _ _ _ _ hquery
  rintro ids _ ⟨rfl,hrows⟩
  apply twins_bind _ _ _ _ (twins_get_docs ids hrows)
  rintro rows _ rfl
  exact twins_ret _ _ rfl

end Lists

section Verify
variable {svc : Reader} {labels : List Text} {a b : World}

def seen (access : WikiAccess) : Except WikiError WikiDoc → Except WikiError (Option WikiDoc)
  | .ok doc => .ok (if access.allows doc.aclLabel then some doc else none)
  | .error (.notFound _) => .ok none
  | .error e => .error e

theorem unless_missing_seen {α : Type} (access : WikiAccess) (r : Except WikiError WikiDoc)
    (k : Option WikiDoc → M α) :
    (unlessMissing r >>= fun found => k (found.filter fun doc => access.allows doc.aclLabel)) =
      lift (seen access r) >>= k := by
  cases r with
  | ok doc =>
    show k ((some doc).filter _) = k _
    rw [Option.filter_some]
  | error e => cases e <;> rfl

def lookupDoc (svc : Reader) (docId : ℕ) (fault : Fault) (w : World) : Except WikiError WikiDoc :=
  match fault with
  | .failed _ message => .error (.db message)
  | .none => match w.docs.get docId with
    | none => .error (missing svc.toWikiService .docs docId)
    | some doc =>
      if doc.currentVersion = 0 then
        .error (.notFound ("document ".toList++decimal docId++" not found".toList))
      else .ok doc

theorem outcome_doc_record (docId : ℕ) (env : ℕ → Fault) (w : World) :
    outcome (docRecord svc.toWikiService docId) env w =
      (lookupDoc svc docId (env 0) w,w,fun n => env (n+1)) := by
  unfold docRecord getRow ask
  rw [outcome_bind, outcome_query]
  cases env 0 with
  | failed applied message => rfl
  | none =>
    cases hdoc : w.docs.get docId with
    | none => simp only [lookupDoc, hdoc]
    | some doc =>
      simp only [lookupDoc, hdoc, refuseIf]
      by_cases hzero : doc.currentVersion = 0
      · simp only [if_pos hzero]
        rfl
      · simp only [if_neg hzero]
        rfl

theorem seen_lookup (actor : Text) (docId : ℕ) (w : World) :
    seen ⟨actor,some labels⟩ (lookupDoc svc docId .none w) = .ok ((w.docs.get docId).filter fun doc =>
      decide (doc.currentVersion ≠ 0) && WikiAccess.allows ⟨[],some labels⟩ doc.aclLabel) := by
  have hallows (label : Text) : WikiAccess.allows ⟨actor,some labels⟩ label =
      WikiAccess.allows ⟨[],some labels⟩ label := rfl
  cases hdoc : w.docs.get docId with
  | none =>
    simp only [lookupDoc, hdoc]
    rfl
  | some doc =>
    simp only [lookupDoc, hdoc]
    by_cases hzero : doc.currentVersion = 0
    · simp [hzero, seen, Option.filter_some]
    · simp [hzero, seen, hallows, Option.filter_some]

theorem filter_same (hagree : Agree labels a b) (docId : ℕ) :
    ((a.docs.get docId).filter fun doc => decide (doc.currentVersion ≠ 0) &&
      WikiAccess.allows ⟨[],some labels⟩ doc.aclLabel) =
    (b.docs.get docId).filter fun doc => decide (doc.currentVersion ≠ 0) &&
      WikiAccess.allows ⟨[],some labels⟩ doc.aclLabel := by
  ext doc
  simp only [Option.filter_eq_some_iff, Bool.and_eq_true]
  constructor
  · rintro ⟨hget,hne,hallowed⟩
    exact ⟨(hagree.docs docId doc hallowed).mp hget,hne,hallowed⟩
  · rintro ⟨hget,hne,hallowed⟩
    exact ⟨(hagree.docs docId doc hallowed).mpr hget,hne,hallowed⟩

theorem twins_seen {α : Type} (hagree : Agree labels a b) (actor : Text) (docId : ℕ)
    (k : Option WikiDoc → M α) {Q : α → α → Prop}
    (hk : ∀ found, (∀ doc, found = some doc → Shown labels a b docId doc) →
      Twins Q (k found) a (k found) b) :
    Twins Q (attempt (docRecord svc.toWikiService docId) >>= fun found => unlessMissing found >>=
        fun found => k (found.filter fun doc => WikiAccess.allows ⟨actor,some labels⟩ doc.aclLabel)) a
      (attempt (docRecord svc.toWikiService docId) >>= fun found => unlessMissing found >>=
        fun found => k (found.filter fun doc => WikiAccess.allows ⟨actor,some labels⟩ doc.aclLabel))
      b := by
  have hlook : Twins (fun r r' => seen ⟨actor,some labels⟩ r = seen ⟨actor,some labels⟩ r' ∧
      ∀ doc, seen ⟨actor,some labels⟩ r = .ok (some doc) → Shown labels a b docId doc)
      (attempt (docRecord svc.toWikiService docId)) a (attempt (docRecord svc.toWikiService docId)) b := by
    intro env
    refine ⟨_,_,_,by rw [outcome_attempt, outcome_doc_record],
      by rw [outcome_attempt, outcome_doc_record],.ok _ _ ?_⟩
    cases env 0 with
    | failed applied message => exact ⟨rfl,fun _ h => nomatch h⟩
    | none =>
      rw [seen_lookup, seen_lookup, filter_same hagree]
      refine ⟨rfl,?_⟩
      intro doc hdoc
      have hb := Option.filter_eq_some_iff.mp (Except.ok.inj hdoc)
      rw [← filter_same hagree] at hdoc
      have ha := Option.filter_eq_some_iff.mp (Except.ok.inj hdoc)
      simp only [Bool.and_eq_true, decide_eq_true_eq] at hb
      exact ⟨ha.1,hb.1,hb.2⟩
  apply twins_bind _ _ _ _ hlook
  rintro r r' ⟨hsame,hshown⟩
  rw [unless_missing_seen, unless_missing_seen, ← hsame]
  cases hr : seen ⟨actor,some labels⟩ r with
  | error e => exact twins_fail e
  | ok found => exact hk found fun doc hdoc => hshown doc (by rw [hr, hdoc])

theorem twins_verify (hok : Ok svc.toWikiService a) (hagree : Agree labels a b) (actor : Text)
    (input : WikiVerifyInput) :
    Twins (fun x y => x = y) (verifyScoped svc ⟨actor,some labels⟩ input) a
      (verifyScoped svc ⟨actor,some labels⟩ input) b := by
  apply twins_bind _ _ _ _ (twins_lift _)
  rintro target _ rfl
  apply twins_seen hagree actor target.docId (verifyFound svc target input.checksum)
  intro found hshown
  cases found with
  | none => exact twins_ret _ _ rfl
  | some doc =>
    have hshared := shown_shared hok hagree target.docId doc (hshown doc rfl)
    apply twins_bind _ _ _ _ (twins_attempt _ _ (twins_published_from _ _ _ hshared))
    intro r r' hm
    have hsame : r = r' := by
      cases hm with
      | error e => rfl
      | ok x y hxy => rw [hxy]
    rw [← hsame]
    match r with
    | .ok version => exact twins_ret _ _ rfl
    | .error e => cases e <;> first | exact twins_ret _ _ rfl | exact twins_fail _

end Verify

section Requests
variable (svc : Reader) (actor : Text) (labels : List Text) (req : Request) {a b : World}

def Indistinguishable (a b : World) : Prop :=
  ∀ env, (outcome (serve svc ⟨actor,some labels⟩ req) env a).1 =
    (outcome (serve svc ⟨actor,some labels⟩ req) env b).1

theorem served_alike (hok : Ok svc.toWikiService a) (hagree : Agree labels a b)
    (hrow : ∀ docId, req.resolves = some docId →
      (a.docs.get docId).isSome = (b.docs.get docId).isSome) :
    Indistinguishable svc actor labels req a b := by
  intro env
  cases req with
  | read input now =>
    rw [serve, outcome_map, outcome_map, read_alike hok hagree actor input now (hrow _ rfl)]
  | document docId now =>
    rw [serve, outcome_map, outcome_map, document_alike hok hagree actor docId now (hrow _ rfl)]
  | versions docId cursor limit =>
    apply twins_result _ _ _ _ (Q := fun x y => x = y)
    · apply twins_bind _ _ _ _ (twins_authorized hagree actor docId (hrow _ rfl))
      rintro doc _ ⟨rfl,hshown⟩
      exact twins_document_versions _ _ _ _ (shown_shared hok hagree _ _ hshown)
    · rintro output _ rfl _
      rfl
  | view input =>
    apply twins_result _ _ _ _ (Q := fun x y => x = y)
    · apply twins_bind _ _ _ _ (twins_authorized hagree [] input.docId (hrow _ rfl))
      rintro doc _ ⟨rfl,hshown⟩
      exact twins_read_document _ _ _ _ (shown_shared hok hagree _ _ hshown)
    · rintro output _ rfl _
      rfl
  | list input =>
    apply twins_result _ _ _ _ (twins_list hagree input)
    rintro output _ rfl _
    rfl
  | verify input =>
    apply twins_result _ _ _ _ (twins_verify hok hagree actor input)
    rintro output _ rfl _
    rfl

theorem served_refused (w : World) (docId : ℕ) (e : WikiError) (h : req.resolves = some docId)
    (hauth : authorization svc labels docId .none w = .error e) :
    (outcome (serve svc ⟨actor,some labels⟩ req) (fun _ => .none) w).1 = .error e := by
  have hstop (who : Text) :
      Yields Fault.none (authorized svc ⟨who,some labels⟩ docId) w (.error e) w := by
    rw [Yields, outcome_authorized, hauth]
  have hserve : Yields Fault.none (serve svc ⟨actor,some labels⟩ req) w (.error e) w := by
    cases req with
    | read input now =>
      cases h
      exact yields_bind_error (yields_bind_error (hstop actor))
    | document id now =>
      cases h
      exact yields_bind_error (yields_bind_error (hstop actor))
    | versions id cursor limit =>
      cases h
      exact yields_bind_error (yields_bind_error (hstop actor))
    | view input =>
      cases h
      exact yields_bind_error (yields_bind_error (hstop []))
    | list input => cases h
    | verify input => cases h
  rw [hserve]

/-- When a denied document looks like an absent one. For every restricted caller, every
request and every two states that agree on the documents the caller may see, the answers
are equal exactly if the request does not resolve a document (a list, a verification) or
the two states have, or have not, a row under the requested id. -/
theorem denied_like_absent_iff (hok : Ok svc.toWikiService a) (hagree : Agree labels a b) :
    Indistinguishable svc actor labels req a b ↔ ∀ docId, req.resolves = some docId →
    (a.docs.get docId).isSome = (b.docs.get docId).isSome := by
  constructor
  · intro h docId hres
    by_contra hrow
    obtain ⟨e,e',ha,hb,hne⟩ := authorization_differs svc hagree docId hrow
    have hsame := h fun _ => .none
    rw [served_refused svc actor labels req a docId e hres ha,
      served_refused svc actor labels req b docId e' hres hb] at hsame
    exact hne (Except.error.inj hsame)
  · exact served_alike svc actor labels req hok hagree

end Requests

section Secret

def asciiReader : Reader where
  toWikiService := asciiService
  fromCursor := fun _ => .ok none
  toCursor := fun id => some (decimal id)
  auditReads := false

def secretInput : CommitInput where
  docId := none
  parentVersion := none
  ns := none
  slug := none
  title := "plan".toList
  content := "plan".toList
  tags := none
  aclLabel := some "secret".toList
  sourceUri := none
  message := none
  metadata := none

theorem secret_created : ∃ es doc, (run asciiService WikiIdentity.silentYaml start es).state.docs =
    Table.empty.add doc ∧ doc.aclLabel = "secret".toList := by
  obtain ⟨p,hp⟩ := prepare_total asciiService secretInput (by decide) (by decide) (by decide)
    (by decide)
  have hinput := (prepare_ok secretInput p hp).2.1
  obtain ⟨out,t,doc,hends,hdocs,-,-,hlabel⟩ := ends_create asciiService (w := World.empty) []
    secretInput 0 p hp (by rw [hinput]; rfl)
  obtain ⟨n,hrun⟩ := run_served asciiService WikiIdentity.silentYaml (.commit [] secretInput 0) start _
    t rfl (yields_bind hends (yields_ret _))
  refine ⟨.start (.commit [] secretInput 0)::List.replicate n (.tick .none),doc,?_,?_⟩
  · rw [hrun]
    exact hdocs
  · exact hlabel "secret".toList (by rw [hinput]; rfl)

theorem agree_secret (w : World) (doc : WikiDoc) (hdocs : w.docs = Table.empty.add doc)
    (hlabel : doc.aclLabel = "secret".toList) : Agree [] World.empty w := by
  constructor
  · intro id other hallowed
    constructor
    · intro h
      cases h
    intro h
    have hid := Table.get_bound _ _ _ h
    rw [hdocs] at hid h
    have hone : id = 1 := by
      have hlast : (Table.empty.add doc).last = 1 := rfl
      omega
    have hget : (Table.empty.add doc).get 1 = some doc := Table.get_add_new Table.empty doc
    rw [hone, hget] at h
    cases h
    rw [hlabel] at hallowed
    exact absurd hallowed (by decide)
  · intro id other ids _ h
    cases h

/-- A list does not tell the empty wiki from one with a document under another label. -/
theorem denied_like_absent_listed : ∃ es, Agree [] World.empty
    (run asciiService WikiIdentity.silentYaml start es).state ∧ Indistinguishable asciiReader [] []
    (.list ⟨none,none,none,none,none⟩) World.empty
    (run asciiService WikiIdentity.silentYaml start es).state := by
  obtain ⟨es,doc,hdocs,hlabel⟩ := secret_created
  have hagree := agree_secret _ doc hdocs hlabel
  exact ⟨es,hagree,(denied_like_absent_iff asciiReader [] [] _ (ok_empty _) hagree).mpr
    fun _ h => nomatch h⟩

/-- Reading the document is refused in other words than reading an absent one. -/
theorem denied_unlike_absent : ∃ es,
    Agree [] World.empty (run asciiService WikiIdentity.silentYaml start es).state ∧
    (outcome (serve asciiReader ⟨[],some []⟩ (.read ⟨1,none,.full⟩ 0)) (fun _ => .none)
      World.empty).1 ≠
    (outcome (serve asciiReader ⟨[],some []⟩ (.read ⟨1,none,.full⟩ 0)) (fun _ => .none)
      (run asciiService WikiIdentity.silentYaml start es).state).1 := by
  obtain ⟨es,doc,hdocs,hlabel⟩ := secret_created
  have hagree := agree_secret _ doc hdocs hlabel
  have hget : (run asciiService WikiIdentity.silentYaml start es).state.docs.get 1 = some doc := by
    rw [hdocs]
    exact Table.get_add_new Table.empty doc
  obtain ⟨e,e',ha,hb,hne⟩ := authorization_differs asciiReader hagree 1 (by
    rw [hget]
    exact Bool.false_ne_true)
  refine ⟨es,hagree,?_⟩
  rw [served_refused asciiReader [] [] _ _ 1 e rfl ha, served_refused asciiReader [] [] _ _ 1 e' rfl hb]
  intro heq
  exact hne (Except.error.inj heq)

end Secret

end AndaBrain.WikiScopes
