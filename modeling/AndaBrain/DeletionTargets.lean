import AndaBrain.ProductChanges
import AndaBrain.Foundation.SortBy
import Mathlib.Data.List.TakeWhile

/-!
# The closure of a managed deletion

`deletion_targets` of `product/changes.rs`: from the Proposition of a record the search goes to
everything that refers to an element, and from an Assertion to its Proposition and its Evidence.
-/

set_option autoImplicit false

namespace AndaBrain.Product
open Foundation.SortBy Foundation.Resumption

inductive ElementKind where
  | concept
  | proposition
  | assertion
  | evidence
  | activity
  deriving DecidableEq

def ElementKind.wire : ElementKind → String
  | .concept => "concept"
  | .proposition => "proposition"
  | .assertion => "assertion"
  | .evidence => "evidence"
  | .activity => "activity"

/-- An element, with the parsed references of an Assertion and the source of an Evidence. -/
structure Element where
  kind : ElementKind
  revision : ℕ
  purged : Bool
  legalHold : Bool
  references : Except String (List String)
  source : Except String RecordSource

structure ElementGraph where
  element : String → Except String Element
  referrers : String → Except String (List String)
  sourceKeys : RecordSource → Except String (Finset String)

/-- What an element adds to the pending elements and to the source keys. -/
def inputsOf (g : ElementGraph) (e : Element) : Except String (List String × Finset String) :=
  match e.kind with
  | .concept => .error "unsupported_scope"
  | .assertion => do
    let refs ← e.references
    .ok (refs,∅)
  | .evidence => do
    let source ← e.source
    let keys ← g.sourceKeys source
    .ok ([],keys)
  | _ => .ok ([],∅)

def visitElement (g : ElementGraph) (id : String) :
    Except String (Option (Target × List String × Finset String)) := do
  let e ← g.element id
  if e.purged then .ok none
  else do
    let inputs ← inputsOf g e
    if e.legalHold then .error "unsupported_scope"
    else do
      let refs ← g.referrers id
      .ok (some (⟨id,e.revision,e.kind.wire⟩,inputs.1++refs,inputs.2))

/-- The search, with the pending elements as a stack. `room` is what is left of the 128 elements
that it may see. -/
def searchTargets (g : ElementGraph) : ℕ → List String → List Target → Finset String →
    List String → Except String (List Target × Finset String)
  | room, seen, targets, sources, pending =>
    match pending.dropWhile fun id => decide (id ∈ seen), room with
    | [], _ => .ok (targets,sources)
    | _::_, 0 => .error "unsupported_scope"
    | id::rest, room+1 => do
      match ← visitElement g id with
      | none => searchTargets g room (id::seen) targets sources rest
      | some (target,next,keys) =>
        searchTargets g room (id::seen) (target::targets) (sources ∪ keys) (next.reverse++rest)

def targetsOf (g : ElementGraph) (propositionId : String) (sources : Finset String) :
    Except String (List Target × Finset String) := do
  let (targets,sources) ← searchTargets g 128 [] [] sources [propositionId]
  .ok (sortBy (fun a b => decide (a.id ≤ b.id)) targets,sources)

section Closure
variable (g : ElementGraph)

def Unpurged (id : String) : Prop := ∃ e, g.element id = .ok e ∧ e.purged = false

inductive Steps (a b : String) : Prop
  | referrer (refs : List String) (h : g.referrers a = .ok refs) (hb : b ∈ refs)
  | reference (e : Element) (h : g.element a = .ok e) (hk : e.kind = .assertion)
      (refs : List String) (hr : e.references = .ok refs) (hb : b ∈ refs)

inductive Reached (root : String) : String → Prop
  | root (h : Unpurged g root) : Reached root root
  | step (a b : String) (h : Reached root a) (hs : Steps g a b) (hb : Unpurged g b) : Reached root b

def Listed (sources : Finset String) (t : Target) : Prop :=
  ∃ e, g.element t.id = .ok e ∧ t.revision = e.revision ∧ t.kind = e.kind.wire ∧
    e.kind ≠ .concept ∧ e.legalHold = false ∧
    (e.kind = .evidence → ∃ source keys, e.source = .ok source ∧ g.sourceKeys source = .ok keys ∧
      keys ⊆ sources)

theorem visit_cases (id : String) (r : Option (Target × List String × Finset String))
    (h : visitElement g id = .ok r) : (r = none ∧ ¬Unpurged g id) ∨ ∃ t next keys, r = some
    (t,next,keys) ∧ t.id = id ∧ Unpurged g id ∧ Listed g keys t ∧ ∀ b, b ∈ next ↔ Steps g id b := by
  obtain ⟨e,he,h⟩ := except_bind_ok _ _ _ h
  by_cases hp : e.purged
  · rw [if_pos hp] at h
    refine .inl ⟨(Except.ok.inj h).symm,?_⟩
    rintro ⟨e',he',hp'⟩
    rw [← Except.ok.inj (he.symm.trans he'), hp] at hp'
    cases hp'
  rw [if_neg hp] at h
  obtain ⟨inputs,hi,h⟩ := except_bind_ok _ _ _ h
  by_cases hl : e.legalHold
  · rw [if_pos hl] at h
    cases h
  rw [if_neg hl] at h
  obtain ⟨refs,hr,h⟩ := except_bind_ok _ _ _ h
  have hinputs : e.kind ≠ .concept ∧
      (e.kind = .evidence → ∃ source keys, e.source = .ok source ∧
        g.sourceKeys source = .ok keys ∧ keys ⊆ inputs.2) ∧
      ∀ b, b ∈ inputs.1 ↔ e.kind = .assertion ∧ ∃ refs, e.references = .ok refs ∧ b ∈ refs := by
    cases hk : e.kind with
    | concept => simp [inputsOf, hk] at hi
    | assertion =>
      simp only [inputsOf, hk] at hi
      obtain ⟨refs,href,hi⟩ := except_bind_ok _ _ _ hi
      rw [← Except.ok.inj hi]
      simp [href]
    | evidence =>
      simp only [inputsOf, hk] at hi
      obtain ⟨source,hs,hi⟩ := except_bind_ok _ _ _ hi
      obtain ⟨keys,hkeys,hi⟩ := except_bind_ok _ _ _ hi
      rw [← Except.ok.inj hi]
      simp [hs, hkeys]
    | _ =>
      simp only [inputsOf, hk, Except.ok.injEq] at hi
      simp [← hi]
  refine .inr ⟨_,_,_,(Except.ok.inj h).symm,rfl,⟨e,he,by simpa using hp⟩,
    ⟨e,he,rfl,rfl,hinputs.1,by simpa using hl,hinputs.2.1⟩,fun b => ?_⟩
  rw [List.mem_append, hinputs.2.2 b]
  constructor
  · rintro (⟨hk,refs,href,hb⟩ | hb)
    · exact .reference e he hk refs href hb
    · exact .referrer refs hr hb
  rintro (⟨refs',hr',hb⟩ | ⟨e',he',hk,refs',href,hb⟩)
  · rw [Except.ok.inj (hr.symm.trans hr')]
    exact .inr hb
  · rw [← Except.ok.inj (he.symm.trans he')] at hk href
    exact .inl ⟨hk,refs',href,hb⟩

structure Explored (root : String) (seen : List String) (targets : List Target)
    (sources : Finset String) (pending : List String) : Prop where
  found : ∀ x ∈ seen, Unpurged g x → ∃ t ∈ targets, t.id = x
  listed : ∀ t ∈ targets, t.id ∈ seen ∧ Reached g root t.id ∧ Listed g sources t
  closed : ∀ t ∈ targets, ∀ b, Steps g t.id b → b ∈ seen ∨ b ∈ pending
  reached : ∀ x ∈ pending, Unpurged g x → Reached g root x
  start : root ∈ seen ∨ root ∈ pending
  nodup : (targets.map Target.id).Nodup

theorem listed_mono (a b : Finset String) (t : Target) (hab : a ⊆ b) (h : Listed g a t) :
    Listed g b t := by
  obtain ⟨e,he,hr,hk,hc,hl,hs⟩ := h
  refine ⟨e,he,hr,hk,hc,hl,fun hev => ?_⟩
  obtain ⟨source,keys,hsrc,hkeys,hsub⟩ := hs hev
  exact ⟨source,keys,hsrc,hkeys,hsub.trans hab⟩

variable {g} {root : String} {seen pending : List String} {targets : List Target}
  {sources : Finset String}

theorem explored_drop (h : Explored g root seen targets sources pending) :
    Explored g root seen targets sources (pending.dropWhile fun id => decide (id ∈ seen)) := by
  have hmem : ∀ x ∈ pending, x ∈ seen ∨ x ∈ pending.dropWhile fun id => decide (id ∈ seen) := by
    intro x hx
    rw [← List.takeWhile_append_dropWhile (p := fun id => decide (id ∈ seen)) (l := pending)] at hx
    rcases List.mem_append.mp hx with hx | hx
    · exact .inl (by simpa using List.mem_takeWhile_imp hx)
    · exact .inr hx
  exact ⟨h.found,h.listed,fun t ht b hb => (h.closed t ht b hb).elim .inl (hmem b),
    fun x hx => h.reached x ((List.dropWhile_sublist _).subset hx),h.start.elim .inl (hmem root),
    h.nodup⟩

theorem explored_skip (id : String) (rest : List String)
    (h : Explored g root seen targets sources (id::rest)) (hid : ¬Unpurged g id) :
    Explored g root (id::seen) targets sources rest where
  found x hx hk := by
    rcases List.mem_cons.mp hx with rfl | hx
    · exact absurd hk hid
    · exact h.found x hx hk
  listed t ht := ⟨List.mem_cons_of_mem _ (h.listed t ht).1,(h.listed t ht).2⟩
  closed t ht b hb := by
    have hc := h.closed t ht b hb
    grind
  reached x hx := h.reached x (List.mem_cons_of_mem _ hx)
  start := by
    have hs := h.start
    grind
  nodup := h.nodup

theorem explored_take (id : String) (rest next : List String) (t : Target) (keys : Finset String)
    (h : Explored g root seen targets sources (id::rest)) (hnew : id ∉ seen) (ht : t.id = id)
    (hk : Unpurged g id) (hl : Listed g keys t) (hn : ∀ b, b ∈ next ↔ Steps g id b) :
    Explored g root (id::seen) (t::targets) (sources ∪ keys) (next.reverse++rest) := by
  subst ht
  have hreach := h.reached t.id List.mem_cons_self hk
  refine ⟨fun x hx hx' => ?_,fun u hu => ?_,fun u hu b hb => ?_,fun x hx hx' => ?_,?_,?_⟩
  · rcases List.mem_cons.mp hx with rfl | hx
    · exact ⟨t,List.mem_cons_self,rfl⟩
    · obtain ⟨u,hu,he⟩ := h.found x hx hx'
      exact ⟨u,List.mem_cons_of_mem _ hu,he⟩
  · rcases List.mem_cons.mp hu with rfl | hu
    · exact ⟨List.mem_cons_self,hreach,listed_mono g _ _ _ Finset.subset_union_right hl⟩
    · obtain ⟨hs,hr,hl⟩ := h.listed u hu
      exact ⟨List.mem_cons_of_mem _ hs,hr,listed_mono g _ _ _ Finset.subset_union_left hl⟩
  · rcases List.mem_cons.mp hu with rfl | hu
    · simp [(hn b).mpr hb]
    · have hc := h.closed u hu b hb
      grind
  · rcases List.mem_append.mp hx with hx | hx
    · exact .step t.id x hreach ((hn x).mp (List.mem_reverse.mp hx)) hx'
    · exact h.reached x (List.mem_cons_of_mem _ hx) hx'
  · have hs := h.start
    grind
  · rw [List.map_cons, List.nodup_cons]
    refine ⟨fun hin => ?_,h.nodup⟩
    obtain ⟨u,hu,he⟩ := List.mem_map.mp hin
    exact hnew (he ▸ (h.listed u hu).1)

theorem search_explored (room : ℕ) (result : List Target) (excluded : Finset String)
    (hi : Explored g root seen targets sources pending)
    (h : searchTargets g room seen targets sources pending = .ok (result,excluded)) :
    (∃ seen, Explored g root seen result excluded []) ∧ sources ⊆ excluded ∧ result.length ≤
    targets.length+room := by
  induction room generalizing seen pending targets sources with
  | zero =>
    have hd := explored_drop hi
    unfold searchTargets at h
    split at h
    · rename_i hdrop
      cases h
      exact ⟨⟨seen,hdrop ▸ hd⟩,Finset.Subset.refl _,Nat.le_refl _⟩
    · cases h
    · contradiction
  | succ room ih =>
    have hd := explored_drop hi
    unfold searchTargets at h
    split at h
    · rename_i hdrop
      cases h
      exact ⟨⟨seen,hdrop ▸ hd⟩,Finset.Subset.refl _,Nat.le_add_right _ _⟩
    · contradiction
    rename_i id rest k hdrop hroom
    obtain rfl : room = k := by omega
    rw [hdrop] at hd
    have hnew : id ∉ seen := by
      have hhead := List.head_dropWhile_not (fun id => decide (id ∈ seen)) (l := pending)
        (by simp [hdrop])
      simpa [hdrop] using hhead
    obtain ⟨r,hr,h⟩ := except_bind_ok _ _ _ h
    rcases visit_cases g id r hr with ⟨rfl,hk⟩ | ⟨t,next,keys,rfl,ht,hk,hl,hn⟩
    · obtain ⟨hex,hsub,hlen⟩ := ih (explored_skip id rest hd hk) h
      exact ⟨hex,hsub,by omega⟩
    · obtain ⟨hex,hsub,hlen⟩ := ih (explored_take id rest next t keys hd hnew ht hk hl hn) h
      rw [List.length_cons] at hlen
      exact ⟨hex,Finset.subset_union_left.trans hsub,by omega⟩

end Closure

/-- The deletion closure. The targets are exactly the elements that the Proposition reaches
through elements that are not purged, at most 128, each listed once and in the order of the ids,
none of them a Concept or under a hold, and the sources of every Evidence are among the keys. -/
theorem deletion_closure (g : ElementGraph) (propositionId : String)
    (sources excluded : Finset String) (targets : List Target)
    (h : targetsOf g propositionId sources = .ok (targets,excluded)) :
    (∀ id, (∃ t ∈ targets, t.id = id) ↔ Reached g propositionId id) ∧
    (∀ t ∈ targets, Listed g excluded t) ∧ sources ⊆ excluded ∧ targets.length ≤ 128 ∧
    targets.Pairwise fun a b => a.id < b.id := by
  obtain ⟨⟨found,keys⟩,hsearch,h⟩ := except_bind_ok _ _ _ h
  obtain ⟨rfl,rfl⟩ := Prod.mk.inj (Except.ok.inj h)
  have hperm := sort_by_perm (fun a b : Target => decide (a.id ≤ b.id)) found
  have hinit : Explored g propositionId [] [] sources [propositionId] :=
    ⟨by simp,by simp,by simp,fun x hx hk => by
      obtain rfl := List.mem_singleton.mp hx
      exact .root hk,by simp,by simp⟩
  obtain ⟨⟨seen,hex⟩,hsub,hlen⟩ := search_explored 128 found keys hinit hsearch
  refine ⟨fun id => ?_,fun t ht => (hex.listed t (hperm.mem_iff.mp ht)).2.2,hsub,?_,?_⟩
  · simp only [hperm.mem_iff]
    constructor
    · rintro ⟨t,ht,rfl⟩
      exact (hex.listed t ht).2.1
    intro hr
    induction hr with
    | root hk => exact hex.found _ (hex.start.resolve_right (by simp)) hk
    | step a b _ hs hb ih =>
      obtain ⟨t,ht,rfl⟩ := ih
      exact hex.found b ((hex.closed t ht b hs).resolve_right (by simp)) hb
  · rw [hperm.length_eq]
    simpa using hlen
  · exact sort_by_strict Target.id _ (fun _ _ => decide_eq_true_iff) found hex.nodup

def cyclicGraph : ElementGraph where
  element id :=
    if id = "A-1" then .ok ⟨.assertion,3,false,false,.ok ["P-1"],.error ""⟩
    else .ok ⟨.proposition,2,false,false,.ok [],.error ""⟩
  referrers id := .ok (if id = "P-1" then ["A-1"] else [])
  sourceKeys _ := .ok ∅

theorem deletion_closure_cyclic :
    (∃ t ∈ [Target.mk "A-1" 3 "assertion",⟨"P-1",2,"proposition"⟩], t.id = "A-1") ↔
    Reached cyclicGraph "P-1" "A-1" :=
  (deletion_closure cyclicGraph "P-1" ∅ ∅ _ rfl).1 "A-1"

end AndaBrain.Product
