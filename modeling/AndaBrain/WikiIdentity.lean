import AndaBrain.WikiQuiet
import AndaBrain.WikiRuns

/-!
# Slugs identify documents

`unique_slug` tries a hundred candidates and takes the first that is neither reserved nor taken.
-/

set_option autoImplicit false

namespace AndaBrain.WikiIdentity
open Foundation Foundation.Resumption Foundation.Utf8Text
open WikiChunk WikiText WikiStore WikiLedger
open WikiSteps WikiOkf WikiRuns
open WikiQuiet

section Reserved

theorem last_segment_suffix (segments : List Text) (last : Text)
    (h : segments.getLast? = some last) : last <:+ ['/'].intercalate segments := by
  induction segments with
  | nil => cases h
  | cons s rest ih =>
    cases rest with
    | nil =>
      have hs : s = last := by simpa using h
      rw [List.intercalate_singleton, hs]
    | cons t rest =>
      rw [List.intercalate_cons_cons]
      exact (ih (by simpa using h)).trans (List.suffix_append _ _)

theorem digit_not_reserved (slug : Text) (c : Char) (h : slug.getLast? = some c)
    (hc : c.isDigit = true) : reserved slug = false := by
  unfold reserved
  extract_lets last
  have hends : ∀ name : Text, last = some name → name ≠ [] → name.getLast? = some c := by
    intro name hlast hne
    have hsuffix := last_segment_suffix _ name hlast
    rw [List.intercalate_splitOn] at hsuffix
    obtain ⟨front,rfl⟩ := hsuffix
    rwa [List.getLast?_append_of_ne_nil _ hne] at h
  have hindex : last ≠ some "index".toList := by
    intro heq
    have := hends _ heq (by decide)
    cases this
    exact absurd hc (by decide)
  have hlog : last ≠ some "log".toList := by
    intro heq
    have := hends _ heq (by decide)
    cases this
    exact absurd hc (by decide)
  rw [beq_eq_false_iff_ne.mpr hindex, beq_eq_false_iff_ne.mpr hlog]
  rfl

theorem decimal_ne_nil (n : ℕ) : decimal n ≠ [] := Nat.toDigits_ne_nil

theorem suffixed_not_reserved (base : Text) (n : ℕ) : reserved (base++ '-'::decimal n) = false := by
  have hlast : (base++ '-'::decimal n).getLast? = some ((decimal n).getLast (decimal_ne_nil n)) := by
    rw [List.getLast?_append_of_ne_nil _ (by simp), List.getLast?_cons_of_ne_nil (decimal_ne_nil n),
      List.getLast?_eq_some_getLast]
  apply digit_not_reserved _ _ hlast
  exact Nat.isDigit_of_mem_toDigits (by decide) (by decide) (List.getLast_mem _)

end Reserved

/-- A slug that a document other than `exclude` does not have. -/
def Free (docs : Table WikiDoc) (ns slug : Text) (exclude : Option ℕ) : Prop :=
  reserved slug = false ∧
    ∀ id doc, docs.get id = some doc → doc.ns = ns → doc.slug = slug → some id = exclude

structure Distinct (docs : Table WikiDoc) : Prop where
  unique : ∀ a b doc doc', docs.get a = some doc → docs.get b = some doc' → doc.ns = doc'.ns →
    doc.slug = doc'.slug → a = b
  unreserved : ∀ id doc, docs.get id = some doc → reserved doc.slug = false

section Docs
variable {svc : WikiService} {A : ℕ → ℕ → Prop} {w t : World} {docs : Table WikiDoc}

theorem distinct_add (doc : WikiDoc) (h : Distinct docs) (hfree : Free docs doc.ns doc.slug none) :
    Distinct (docs.add doc) := by
  have hcase : ∀ id d, (docs.add doc).get id = some d →
      (id = docs.last+1 ∧ d = doc) ∨ docs.get id = some d := by
    intro id d hd
    by_cases hid : id = docs.last+1
    · rw [hid, Table.get_add_new] at hd
      exact Or.inl ⟨hid,(Option.some.inj hd).symm⟩
    · rw [Table.get_add_old _ _ _ hid] at hd
      exact Or.inr hd
  constructor
  · intro a b da db ha hb hns hslug
    rcases hcase a da ha with ⟨ha',rfl⟩ | ha' <;> rcases hcase b db hb with ⟨hb',rfl⟩ | hb'
    · omega
    · exact nomatch hfree.2 b db hb' hns.symm hslug.symm
    · exact nomatch hfree.2 a da ha' hns hslug
    · exact h.unique a b da db ha' hb' hns hslug
  · intro id d hd
    rcases hcase id d hd with ⟨-,rfl⟩ | hd
    · exact hfree.1
    · exact h.unreserved id d hd

theorem distinct_update (docId : ℕ) (f : WikiDoc → WikiDoc) (h : Distinct docs)
    (hslug : ∀ doc, docs.get docId = some doc → ((f doc).ns = doc.ns ∧ (f doc).slug = doc.slug) ∨
      Free docs (f doc).ns (f doc).slug (some docId)) : Distinct (docs.update docId f) := by
  -- a document that keeps its place, or the one that has just been given another
  have hmoved : ∀ id doc other, docs.get docId = some doc → docs.get id = some other →
      other.ns = (f doc).ns → other.slug = (f doc).slug → id = docId := by
    intro id doc other hdoc hother hns hs
    rcases hslug doc hdoc with ⟨hn,hl⟩ | hfree
    · exact h.unique id docId other doc hother hdoc (hns.trans hn) (hs.trans hl)
    · exact Option.some.inj (hfree.2 id other hother hns hs)
  constructor
  · intro a b da db ha hb hns hs
    rw [Table.get_update] at ha hb
    split at ha <;> split at hb
    · omega
    · rename_i ha' hb'
      obtain ⟨doc,hdoc,rfl⟩ := Option.map_eq_some_iff.mp ha
      rw [ha'] at hdoc
      exact absurd (hmoved b doc db hdoc hb hns.symm hs.symm) hb'
    · rename_i ha' hb'
      obtain ⟨doc,hdoc,rfl⟩ := Option.map_eq_some_iff.mp hb
      rw [hb'] at hdoc
      exact absurd (hmoved a doc da hdoc ha hns hs) ha'
    · exact h.unique a b da db ha hb hns hs
  · intro id doc hdoc
    rw [Table.get_update] at hdoc
    split at hdoc
    · rename_i hid
      obtain ⟨old,hold,rfl⟩ := Option.map_eq_some_iff.mp hdoc
      rw [hid] at hold
      rcases hslug old hold with ⟨-,hl⟩ | hfree
      · rw [hl]
        exact h.unreserved docId old hold
      · exact hfree.1
    · exact h.unreserved id doc hdoc

theorem distinct_remove (docId : ℕ) (h : Distinct docs) : Distinct (docs.remove docId) := by
  have hless : ∀ id doc, (docs.remove docId).get id = some doc → docs.get id = some doc := by
    intro id doc hdoc
    rw [Table.get_remove] at hdoc
    split at hdoc
    · cases hdoc
    · exact hdoc
  exact ⟨fun a b da db ha hb => h.unique a b da db (hless a da ha) (hless b db hb),
    fun id doc hdoc => h.unreserved id doc (hless id doc hdoc)⟩

theorem change_distinct (h : Change svc Free A w t) (hd : Distinct w.docs) : Distinct t.docs := by
  cases h with
  | sentinel doc hzero hslug => exact distinct_add doc hd hslug
  | flip docId doc f v hdoc hget hv hparent hlt htiled hslug hauth =>
    apply distinct_update docId f hd
    intro other hother
    rw [hdoc] at hother
    cases hother
    exact hslug
  | turn docId f hf =>
    exact distinct_update docId f hd fun doc _ => Or.inl (hf doc).2
  | dropDoc docId hzero => exact distinct_remove docId hd
  | _ => exact hd

def Room (docs : Table WikiDoc) (ns base : Text) (exclude : Option ℕ) (now : ℕ) : Prop :=
  (∃ attempt < 100, ¬Blocked docs ns exclude (slugCandidate base attempt)) ∨
  ∀ id doc, docs.get id = some doc → doc.ns = ns → doc.slug = base++ '-'::decimal now →
    some id = exclude

theorem owner_mem (ns slug : Text) (id : ℕ) (h : slugOwner docs ns slug = some id) :
    ∃ doc, docs.get id = some doc ∧ doc.ns = ns ∧ doc.slug = slug := by
  obtain ⟨doc,hdoc,hp⟩ := (Table.mem_select _ _ _).mp (List.mem_of_mem_head? h)
  simp only [Bool.and_eq_true, beq_iff_eq] at hp
  exact ⟨doc,hdoc,hp⟩

theorem owner_none (ns slug : Text) (h : slugOwner docs ns slug = none) (id : ℕ) (doc : WikiDoc)
    (hdoc : docs.get id = some doc) (hns : doc.ns = ns) (hslug : doc.slug = slug) : False := by
  have hin : id ∈ docs.select fun _ d => d.ns == ns && d.slug == slug :=
    (Table.mem_select _ _ _).mpr ⟨doc,hdoc,by simp [hns, hslug]⟩
  rw [List.head?_eq_none_iff.mp h] at hin
  cases hin

theorem selected_free (hd : Distinct docs) (ns base : Text) (exclude : Option ℕ) (now : ℕ)
    (slug : Text) (hroom : Room docs ns base exclude now)
    (h : Selected docs ns base exclude now slug) : Free docs ns slug exclude := by
  rcases h with ⟨attempt,hlt,hfree,-,rfl⟩ | ⟨hall,rfl⟩
  · simp only [Blocked, not_or, not_exists, not_and, not_not, Bool.not_eq_true] at hfree
    refine ⟨hfree.1,?_⟩
    intro id doc hdoc hns hslug
    cases howner : slugOwner docs ns (slugCandidate base attempt) with
    | none => exact (owner_none ns _ howner id doc hdoc hns hslug).elim
    | some owner =>
      obtain ⟨other,hother,hns',hslug'⟩ := owner_mem ns _ owner howner
      have heq := hd.unique id owner doc other hdoc hother (hns.trans hns'.symm)
        (hslug.trans hslug'.symm)
      rw [heq]
      exact hfree.2 owner howner
  · refine ⟨suffixed_not_reserved base now,?_⟩
    rcases hroom with ⟨attempt,hlt,hfree⟩ | hclock
    · exact absurd (hall attempt hlt) hfree
    · exact hclock

end Docs

section Runs
variable {svc : WikiService} {yaml : Yaml}

def RoomFor (svc : WikiService) (docs : Table WikiDoc) (input : CommitInput) (now : ℕ) :
    Option (ℕ × WikiDoc) → Prop
  | none => Room docs (input.ns.getD defaultNamespace)
      (slugifyPath svc.toLibrary (input.slug.getD (slugify svc.tables input.title))) none now
  | some (id,doc) => input.slug.getD doc.slug ≠ doc.slug ∨ input.ns.getD doc.ns ≠ doc.ns →
      Room docs (input.ns.getD doc.ns) (slugifyPath svc.toLibrary (input.slug.getD doc.slug))
        (some id) now

def Roomy (svc : WikiService) (yaml : Yaml) (o : Op) (w : World) : Prop :=
  ∀ input now existing, CommitOf svc yaml w o input now → Existing w input existing →
    RoomFor svc w.docs input now existing

theorem slug_known_free (docs : Table WikiDoc) (hd : Distinct docs) (input : CommitInput)
    (now : ℕ) (existing : Option (ℕ × WikiDoc)) (h : RoomFor svc docs input now existing) :
    SlugKnown svc Free docs input now existing := by
  match existing with
  | none =>
    intro slug hsel
    exact selected_free hd _ _ none now slug h hsel
  | some (id,doc) =>
    intro slug hmoved
    unfold MovedTo at hmoved
    split at hmoved
    · rename_i hchange
      exact Or.inr (selected_free hd _ _ (some id) now slug (h hchange) hmoved)
    · rename_i hstay
      simp only [not_or, not_not] at hstay
      exact Or.inl ⟨hstay.2,hmoved⟩

theorem stepwise_distinct : Stepwise (prog svc yaml) id (Roomy svc yaml)
    (fun w => Ok svc w ∧ Distinct w.docs) (fun o => Change svc Free (Replaces o)) Reached where
  keep _ _ _ h hchange := ⟨change_ok h.1 hchange,change_distinct hchange h.2⟩
  op o _ h hroom := keeps_op o h.1 fun input now existing hof hex =>
    slug_known_free _ h.2 input now existing (hroom input now existing hof hex)
  boot _ h := h

/-- Slug identity. In every state of a run whose commits and imports find a candidate
that they can take, or whose time gives a slug that is free, no two documents share
namespace and slug, and no slug ends in a reserved name. -/
theorem slugs_identify (es : List (Event Op Fault))
    (h : Starts (prog svc yaml) id (Roomy svc yaml) start es) :
    let docs := (run svc yaml start es).state.docs
    (∀ a b doc doc', docs.get a = some doc → docs.get b = some doc' → doc.ns = doc'.ns →
      doc.slug = doc'.slug → a = b) ∧
    ∀ id doc, docs.get id = some doc → (doc.slug.splitOn '/').getLast? ≠ some "index".toList ∧
      (doc.slug.splitOn '/').getLast? ≠ some "log".toList := by
  have hempty : Distinct World.empty.docs :=
    ⟨fun _ _ _ _ ha => (nomatch ha),fun _ _ hd => nomatch hd⟩
  have hrun := run_in_step stepwise_distinct start es h
    ⟨⟨ok_empty svc,hempty⟩,fun _ _ hp => nomatch hp⟩
  refine ⟨hrun.1.2.unique,?_⟩
  intro id doc hdoc
  have hres := hrun.1.2.unreserved id doc hdoc
  unfold reserved at hres
  simpa using hres

end Runs

section Collision
variable (yaml : Yaml)

def guideInput : CommitInput where
  docId := none
  parentVersion := none
  ns := none
  slug := some "guide".toList
  title := "guide".toList
  content := "guide".toList
  tags := none
  aclLabel := none
  sourceUri := none
  message := none
  metadata := none

theorem guide_prepared : ∃ p, prepareCommit asciiService guideInput = .ok p ∧
    p.input = guideInput.normalize := by
  obtain ⟨p,hp⟩ := prepare_total asciiService guideInput (by decide) (by decide) (by decide)
    (by decide)
  exact ⟨p,hp,(prepare_ok guideInput p hp).2.1⟩

def guideCommit : Op := .commit [] guideInput 2

theorem guide_created (c : Wiki) (hidle : c.running = none) :
    ∃ n, let d := run asciiService yaml c (.start guideCommit::List.replicate n (.tick .none))
      d.running = none ∧ d.state.docs.last = c.state.docs.last+1 ∧
      (∀ id ≤ c.state.docs.last, d.state.docs.get id = c.state.docs.get id) ∧
      ∃ doc, d.state.docs.get (c.state.docs.last+1) = some doc ∧ doc.ns = defaultNamespace ∧
        Selected c.state.docs defaultNamespace "guide".toList none 2 doc.slug := by
  obtain ⟨p,hp,hinput⟩ := guide_prepared
  obtain ⟨out,t,doc,hends,hdocs,hsel,hns,-⟩ := ends_create asciiService (w := c.state) [] guideInput 2 p
    hp (by rw [hinput]; rfl)
  rw [CreatedAs, hinput] at hsel
  rw [hinput] at hns
  obtain ⟨n,hrun⟩ := run_served asciiService yaml guideCommit c _ t hidle
    (yields_bind hends (yields_ret _))
  refine ⟨n,?_⟩
  rw [hrun]
  refine ⟨rfl,?_,?_,doc,?_,hns,hsel⟩
  · show t.docs.last = c.state.docs.last+1
    rw [hdocs]
    rfl
  · intro id hle
    show t.docs.get id = c.state.docs.get id
    rw [hdocs, Table.get_add_old _ _ _ (by omega)]
  · show t.docs.get (c.state.docs.last+1) = some doc
    rw [hdocs, Table.get_add_new]

theorem guide_candidate (attempt : ℕ) : reserved (slugCandidate "guide".toList attempt) = false := by
  by_cases h : attempt = 0
  · subst h
    decide
  · rw [slugCandidate, if_neg h]
    exact suffixed_not_reserved _ _

def Taken (docs : Table WikiDoc) (slug : Text) : Prop :=
  ∃ id doc, docs.get id = some doc ∧ doc.ns = defaultNamespace ∧ doc.slug = slug

theorem blocked_taken (docs : Table WikiDoc) (attempt : ℕ) : Blocked docs defaultNamespace none
    (slugCandidate "guide".toList attempt) ↔ Taken docs (slugCandidate "guide".toList attempt) := by
  constructor
  · rintro (hres | ⟨id,hid,-⟩)
    · rw [guide_candidate] at hres
      cases hres
    · obtain ⟨doc,hdoc⟩ := owner_mem _ _ id hid
      exact ⟨id,doc,hdoc⟩
  · rintro ⟨id,doc,hdoc,hns,hslug⟩
    cases howner : slugOwner docs defaultNamespace (slugCandidate "guide".toList attempt) with
    | none => exact (owner_none _ _ howner id doc hdoc hns hslug).elim
    | some owner => exact Or.inr ⟨owner,howner,nofun⟩

theorem candidates_taken (k : ℕ) (hk : k ≤ 100) : ∃ es,
    (run asciiService yaml start es).running = none ∧
    ∀ i < k, Taken (run asciiService yaml start es).state.docs (slugCandidate "guide".toList i) := by
  induction k with
  | zero => exact ⟨[],rfl,fun _ h => absurd h (Nat.not_lt_zero _)⟩
  | succ k ih =>
    obtain ⟨es,hidle,htaken⟩ := ih (by omega)
    obtain ⟨n,hidle',-,hold,doc,hdoc,hns,hsel⟩ := guide_created yaml _ hidle
    refine ⟨es++ .start guideCommit::List.replicate n (.tick .none),?_,?_⟩
    · rw [run_more]
      exact hidle'
    rw [run_more]
    have hkept : ∀ slug, Taken (run asciiService yaml start es).state.docs slug →
        Taken (run asciiService yaml (run asciiService yaml start es)
          (.start guideCommit::List.replicate n (.tick .none))).state.docs slug := by
      rintro slug ⟨id,other,hother,hrest⟩
      exact ⟨id,other,by rw [hold id (Table.get_bound _ _ _ hother).2]; exact hother,hrest⟩
    intro i hi
    by_cases hlt : i < k
    · exact hkept _ (htaken i hlt)
    have heq : i = k := by omega
    subst heq
    rcases hsel with ⟨attempt,-,hfree,hbefore,hslug⟩ | ⟨hall,-⟩
    · rw [blocked_taken] at hfree
      rcases Nat.lt_trichotomy attempt i with h | h | h
      · exact absurd (htaken attempt h) hfree
      · rw [← h]
        exact ⟨_,doc,hdoc,hns,hslug⟩
      · exact hkept _ ((blocked_taken _ i).mp (hbefore i h))
    · exact hkept _ ((blocked_taken _ i).mp (hall i (by omega)))

def silentYaml : Yaml := ⟨fun _ => .ok .empty,fun _ => .ok []⟩

/-- The hundred and first create of one slug, at time 2, takes the slug of the second. -/
theorem clock_slug_collides : ¬∀ es : List (Event Op Fault),
    let docs := (run asciiService silentYaml start es).state.docs
    ∀ a b doc doc', docs.get a = some doc → docs.get b = some doc' → doc.ns = doc'.ns →
      doc.slug = doc'.slug → a = b := by
  intro h
  obtain ⟨es,hidle,htaken⟩ := candidates_taken silentYaml 100 (Nat.le_refl _)
  obtain ⟨n,-,-,hold,doc,hdoc,hns,hsel⟩ := guide_created silentYaml _ hidle
  have hclock : doc.slug = slugCandidate "guide".toList 1 := by
    rcases hsel with ⟨attempt,hlt,hfree,-⟩ | ⟨-,hslug⟩
    · exact absurd ((blocked_taken _ attempt).mpr (htaken attempt hlt)) hfree
    · exact hslug
  obtain ⟨id,other,hother,hons,hoslug⟩ := htaken 1 (by omega)
  have hbound := (Table.get_bound _ _ _ hother).2
  have heq := h (es++ .start guideCommit::List.replicate n (.tick .none)) id _ other doc
    (by rw [run_more]; exact (hold id hbound).trans hother)
    (by rw [run_more]; exact hdoc) (hons.trans hns.symm) (hoslug.trans hclock.symm)
  omega

/-- While a candidate is free, the next create of the slug has room. -/
theorem roomy_guide (w : World) (attempt : ℕ) (hlt : attempt < 100)
    (hfree : ¬Taken w.docs (slugCandidate "guide".toList attempt)) :
    Roomy asciiService yaml guideCommit w := by
  rintro input now existing ⟨rfl,p,hp,rfl⟩ hexisting
  obtain ⟨p',hp',hinput⟩ := guide_prepared
  cases hp.symm.trans hp'
  rw [hinput] at hexisting ⊢
  cases existing with
  | some _ => exact nomatch hexisting.1
  | none =>
    refine Or.inl ⟨attempt,hlt,?_⟩
    rw [← blocked_taken] at hfree
    exact hfree

theorem starts_ticks {C : Op → World → Prop} (c : Wiki) (n : ℕ) (svc : WikiService) :
    Starts (prog svc yaml) id C c (List.replicate n (.tick .none)) := by
  induction n generalizing c with
  | zero => trivial
  | succ n ih => exact ⟨fun _ h => (nomatch h),ih _⟩

theorem starts_guide (c : Wiki) (n attempt : ℕ) (hlt : attempt < 100)
    (hfree : ¬Taken c.state.docs (slugCandidate "guide".toList attempt)) :
    Starts (prog asciiService yaml) id (Roomy asciiService yaml) c
      (Event.start guideCommit::List.replicate n (.tick Fault.none)) := by
  refine ⟨?_,starts_ticks yaml _ n asciiService⟩
  rintro o heq -
  cases heq
  exact roomy_guide yaml c.state attempt hlt hfree

/-- The slug of a create is the first candidate that no document has. -/
theorem selected_first (docs : Table WikiDoc) (slug : Text) (k : ℕ) (hk : k < 100)
    (hbefore : ∀ i < k, Taken docs (slugCandidate "guide".toList i))
    (hfree : ¬Taken docs (slugCandidate "guide".toList k))
    (h : Selected docs defaultNamespace "guide".toList none 2 slug) :
    slug = slugCandidate "guide".toList k := by
  rcases h with ⟨attempt,-,hopen,htaken,rfl⟩ | ⟨hall,-⟩
  · rw [blocked_taken] at hopen
    rcases Nat.lt_trichotomy attempt k with hlt | rfl | hgt
    · exact absurd (hbefore attempt hlt) hopen
    · rfl
    · exact absurd ((blocked_taken _ k).mp (htaken k hgt)) hfree
  · exact absurd ((blocked_taken _ k).mp (hall k hk)) hfree

/-- Two creates of one slug: the second document takes the second candidate. -/
theorem slugs_identify_guides : ∃ es : List (Event Op Fault),
    Starts (prog asciiService silentYaml) id (Roomy asciiService silentYaml) start es ∧
    let docs := (run asciiService silentYaml start es).state.docs
    (∃ doc doc', docs.get 1 = some doc ∧ docs.get 2 = some doc' ∧ doc.ns = doc'.ns ∧
      doc.slug = "guide".toList ∧ doc'.slug = "guide-2".toList) ∧
    ∀ a b doc doc', docs.get a = some doc → docs.get b = some doc' → doc.ns = doc'.ns →
      doc.slug = doc'.slug → a = b := by
  have hempty (slug : Text) : ¬Taken start.state.docs slug := fun ⟨_,_,h,_⟩ => nomatch h
  obtain ⟨n,hidle,hlast,-,doc,hdoc,hns,hsel⟩ := guide_created silentYaml start rfl
  have hslug := selected_first _ _ 0 (by omega) (fun _ h => absurd h (Nat.not_lt_zero _)) (hempty _) hsel
  -- behind the first create, its document is the only one
  have hfirst (slug : Text) : Taken (run asciiService silentYaml start (.start guideCommit::
      List.replicate n (.tick .none))).state.docs slug ↔ slug = doc.slug := by
    constructor
    · rintro ⟨id,other,hother,-,rfl⟩
      have hbound := Table.get_bound _ _ _ hother
      rw [hlast] at hbound
      have hone : id = 0+1 := by
        have : start.state.docs.last = 0 := rfl
        omega
      subst hone
      rw [show start.state.docs.last+1 = 0+1 from rfl, hother] at hdoc
      rw [Option.some.inj hdoc]
    · rintro rfl
      exact ⟨_,doc,hdoc,hns,rfl⟩
  have hfree : ¬Taken (run asciiService silentYaml start (.start guideCommit::
      List.replicate n (.tick .none))).state.docs (slugCandidate "guide".toList 1) := by
    rw [hfirst, hslug]
    decide
  obtain ⟨m,-,-,hold,doc',hdoc',hns',hsel'⟩ := guide_created silentYaml _ hidle
  have hslug' := selected_first _ _ 1 (by omega)
    (fun i h => by rw [Nat.lt_one_iff.mp h, hfirst, hslug]) hfree hsel'
  have hstarts := starts_append (starts_guide silentYaml start n 0 (by omega) (hempty _))
    (starts_guide silentYaml _ m 1 (by omega) hfree)
  refine ⟨_,hstarts,⟨doc,doc',?_,?_,hns.trans hns'.symm,hslug,hslug'⟩,(slugs_identify _ hstarts).1⟩
  · rw [run_more, hold 1 (by rw [hlast]; exact Nat.le_refl _)]
    exact hdoc
  · rw [run_more]
    rw [hlast] at hdoc'
    exact hdoc'

end Collision

end AndaBrain.WikiIdentity
