import Mathlib.Data.Finset.Sort

/-!
# Searches of a finite graph

A graph is a list of neighbours for each node. A depth-first search with a set of seen nodes
finds what is reachable, searches that share their seen nodes find the components of a
symmetric graph, and a set that takes in every node with a neighbour in it becomes the nodes
that can reach it.
-/

set_option autoImplicit false

namespace Foundation.Worklist

variable {α : Type*} (next : α → List α)

def Reach (a b : α) : Prop := Relation.ReflTransGen (fun x y => y ∈ next x) a b

theorem closed_reach (s : Finset α) (h : ∀ a ∈ s, ∀ b ∈ next a, b ∈ s) (a b : α) (ha : a ∈ s)
    (hreach : Reach next a b) : b ∈ s := by
  induction hreach with
  | refl => exact ha
  | tail _ hstep ih => exact h _ ih _ hstep

theorem reach_back (hsym : ∀ a b, b ∈ next a → a ∈ next b) (a b : α) (h : Reach next a b) :
    Reach next b a := by
  induction h with
  | refl => exact Relation.ReflTransGen.refl
  | tail _ hstep ih => exact Relation.ReflTransGen.head (hsym _ _ hstep) ih

variable [DecidableEq α]

/-- The seen nodes after a list of neighbours, and those of them that are new. -/
def visit (seen : Finset α) : List α → Finset α × List α
  | [] => (seen,[])
  | b::bs =>
    if b ∈ seen then visit seen bs
    else ((visit (insert b seen) bs).1,b::(visit (insert b seen) bs).2)

variable (seen : Finset α) (bs : List α)

theorem visit_seen (b : α) : b ∈ (visit seen bs).1 ↔ b ∈ seen ∨ b ∈ bs := by
  induction bs generalizing seen with
  | nil => simp [visit]
  | cons c bs ih =>
    simp only [visit]
    by_cases hc : c ∈ seen
    · rw [if_pos hc, ih, List.mem_cons]
      constructor
      · rintro (h | h)
        · exact Or.inl h
        · exact Or.inr (Or.inr h)
      rintro (h | rfl | h)
      · exact Or.inl h
      · exact Or.inl hc
      · exact Or.inr h
    · rw [if_neg hc, ih, Finset.mem_insert, List.mem_cons]
      tauto

theorem visit_fresh (b : α) : b ∈ (visit seen bs).2 ↔ b ∈ bs ∧ b ∉ seen := by
  induction bs generalizing seen with
  | nil => simp [visit]
  | cons c bs ih =>
    simp only [visit]
    by_cases hc : c ∈ seen
    · rw [if_pos hc, ih, List.mem_cons]
      constructor
      · exact fun h => ⟨Or.inr h.1,h.2⟩
      · rintro ⟨rfl | h,hb⟩
        · exact absurd hc hb
        · exact ⟨h,hb⟩
    rw [if_neg hc, List.mem_cons, ih, Finset.mem_insert, List.mem_cons]
    constructor
    · rintro (rfl | ⟨h,hb⟩)
      · exact ⟨Or.inl rfl,hc⟩
      · exact ⟨Or.inr h,fun hs => hb (Or.inr hs)⟩
    rintro ⟨rfl | h,hb⟩
    · exact Or.inl rfl
    · by_cases heq : b = c
      · exact Or.inl heq
      · exact Or.inr ⟨h,by simp [heq, hb]⟩

theorem visit_nodup : (visit seen bs).2.Nodup := by
  induction bs generalizing seen with
  | nil => exact List.nodup_nil
  | cons c bs ih =>
    simp only [visit]
    by_cases hc : c ∈ seen
    · rw [if_pos hc]
      exact ih seen
    rw [if_neg hc]
    refine List.nodup_cons.mpr ⟨?_,ih _⟩
    intro hin
    exact ((visit_fresh _ _ _).mp hin).2 (Finset.mem_insert_self c seen)

theorem visit_none (h : (visit seen bs).2 = []) : (visit seen bs).1 = seen := by
  ext b
  rw [visit_seen]
  refine ⟨?_,Or.inl⟩
  rintro (hb | hb)
  · exact hb
  by_contra hnot
  have hin := (visit_fresh seen bs b).mpr ⟨hb,hnot⟩
  rw [h] at hin
  cases hin

theorem visit_grows (h : (visit seen bs).2 ≠ []) : seen.card < (visit seen bs).1.card := by
  obtain ⟨b,hb⟩ := List.exists_mem_of_ne_nil _ h
  obtain ⟨hin,hnot⟩ := (visit_fresh seen bs b).mp hb
  apply Finset.card_lt_card
  refine Finset.ssubset_iff_subset_ne.mpr ⟨fun c hc => (visit_seen _ _ _).mpr (Or.inl hc),?_⟩
  intro heq
  rw [heq] at hnot
  exact hnot ((visit_seen _ _ _).mpr (Or.inr hin))

/-- A depth-first search: the seen nodes at its end and those that it has found. -/
def sweep [Fintype α] (seen : Finset α) : List α → Finset α × List α
  | [] => (seen,[])
  | a::pending =>
    let found := visit seen (next a)
    let rest := sweep found.1 (found.2.reverse++pending)
    (rest.1,found.2++rest.2)
termination_by pending => (Fintype.card α-seen.card,pending.length)
decreasing_by
  by_cases hnone : (visit seen (next a)).2 = []
  · rw [visit_none _ _ hnone, hnone]
    simp only [List.reverse_nil, List.nil_append]
    exact Prod.Lex.right _ (Nat.lt_succ_self _)
  · have hgrow := visit_grows seen (next a) hnone
    have hle := Finset.card_le_univ (visit seen (next a)).1
    exact Prod.Lex.left _ _ (by omega)

variable [Fintype α]

theorem sweep_found (seen : Finset α) (pending : List α) : (sweep next seen pending).2.Nodup ∧ ∀ b,
    (b ∈ (sweep next seen pending).1 ↔ b ∈ seen ∨ b ∈ (sweep next seen pending).2) ∧
    (b ∈ (sweep next seen pending).2 → b ∉ seen) := by
  fun_induction sweep next seen pending with
  | case1 seen => simp
  | case2 seen a pending found rest ih =>
    obtain ⟨hnodup,hmem⟩ := ih
    refine ⟨?_,?_⟩
    · refine List.nodup_append'.mpr ⟨visit_nodup _ _,hnodup,?_⟩
      intro b hb hrest
      exact (hmem b).2 hrest ((visit_seen _ _ _).mpr (Or.inr ((visit_fresh _ _ _).mp hb).1))
    intro b
    rw [(hmem b).1, List.mem_append]
    simp only [found, visit_seen, visit_fresh]
    constructor
    · constructor
      · rintro ((h | h) | h)
        · exact Or.inl h
        · by_cases hb : b ∈ seen
          · exact Or.inl hb
          · exact Or.inr (Or.inl ⟨h,hb⟩)
        · exact Or.inr (Or.inr h)
      · rintro (h | ⟨h,-⟩ | h)
        · exact Or.inl (Or.inl h)
        · exact Or.inl (Or.inr h)
        · exact Or.inr h
    · rintro (⟨-,h⟩ | h) hb
      · exact h hb
      · exact (hmem b).2 h ((visit_seen _ _ _).mpr (Or.inl hb))

theorem sweep_sound (seen : Finset α) (pending : List α) (b : α)
    (h : b ∈ (sweep next seen pending).1) : b ∈ seen ∨ ∃ a ∈ pending, Reach next a b := by
  fun_induction sweep next seen pending with
  | case1 seen => exact Or.inl h
  | case2 seen a pending found rest ih =>
    rcases ih h with hseen | ⟨c,hc,hreach⟩
    · rcases (visit_seen _ _ _).mp hseen with hseen | hnext
      · exact Or.inl hseen
      · exact Or.inr ⟨a,List.mem_cons_self,Relation.ReflTransGen.single hnext⟩
    right
    rcases List.mem_append.mp hc with hc | hc
    · have hnext := ((visit_fresh _ _ _).mp (List.mem_reverse.mp hc)).1
      exact ⟨a,List.mem_cons_self,Relation.ReflTransGen.head hnext hreach⟩
    · exact ⟨c,List.mem_cons_of_mem _ hc,hreach⟩

/-- Every seen node that is not pending has had its neighbours seen: so it is at the end. -/
theorem sweep_closed (seen : Finset α) (pending : List α)
    (h : ∀ a ∈ seen, a ∉ pending → ∀ b ∈ next a, b ∈ seen) :
    ∀ a ∈ (sweep next seen pending).1, ∀ b ∈ next a, b ∈ (sweep next seen pending).1 := by
  fun_induction sweep next seen pending with
  | case1 seen => exact fun a ha => h a ha (by simp)
  | case2 seen a pending found rest ih =>
    apply ih
    intro c hc hnot b hb
    simp only [List.mem_append, List.mem_reverse, not_or] at hnot
    rw [visit_seen]
    by_cases heq : c = a
    · subst heq
      exact Or.inr hb
    rcases (visit_seen _ _ _).mp hc with hseen | hnext
    · left
      apply h c hseen _ b hb
      simp [heq, hnot.2]
    by_cases hold : c ∈ seen
    · left
      apply h c hold _ b hb
      simp [heq, hnot.2]
    · exact absurd ((visit_fresh _ _ _).mpr ⟨hnext,hold⟩) hnot.1

theorem sweep_iff (base : Finset α) (pending : List α) (hbase : ∀ a ∈ base, ∀ b ∈ next a, b ∈ base)
    (b : α) : b ∈ (sweep next (base ∪ pending.toFinset) pending).1 ↔ b ∈ base ∨ ∃ a ∈ pending, Reach
    next a b := by
  have hclosed := sweep_closed next (base ∪ pending.toFinset) pending (by
    intro a ha hnot b hb
    rcases Finset.mem_union.mp ha with ha | ha
    · exact Finset.mem_union_left _ (hbase a ha b hb)
    · exact absurd (List.mem_toFinset.mp ha) hnot)
  have hsub : ∀ a ∈ base ∪ pending.toFinset, a ∈ (sweep next (base ∪ pending.toFinset) pending).1 :=
    fun a ha => (((sweep_found next _ pending).2 a).1).mpr (Or.inl ha)
  constructor
  · intro h
    rcases sweep_sound next _ _ b h with hseen | hreach
    · rcases Finset.mem_union.mp hseen with hb | hb
      · exact Or.inl hb
      · exact Or.inr ⟨b,List.mem_toFinset.mp hb,Relation.ReflTransGen.refl⟩
    · exact Or.inr hreach
  · rintro (hb | ⟨a,ha,hreach⟩)
    · exact hsub b (Finset.mem_union_left _ hb)
    · exact closed_reach next _ hclosed a b
        (hsub a (Finset.mem_union_right _ (List.mem_toFinset.mpr ha))) hreach

/-- One search for each node of a list that no earlier search has seen. -/
def components (seen : Finset α) : List α → List (List α)
  | [] => []
  | a::rest =>
    if a ∈ seen then components seen rest
    else
      let found := sweep next (insert a seen) [a]
      (a::found.2)::components found.1 rest

/-- In a symmetric graph each search finds one component, and no node is found twice. -/
theorem components_spec (hsym : ∀ a b, b ∈ next a → a ∈ next b) (seen : Finset α) (nodes : List α)
    (hseen : ∀ a ∈ seen, ∀ b ∈ next a, b ∈ seen) : (components next seen nodes).flatten.Nodup ∧
    (∀ g ∈ components next seen nodes, ∃ a ∈ nodes, ∀ b, b ∈ g ↔ Reach next a b) ∧
    (∀ g ∈ components next seen nodes, ∀ b ∈ g, b ∉ seen) ∧ ∀ a ∈ nodes, a ∈ seen ∨ ∃ g ∈ components
    next seen nodes, a ∈ g := by
  induction nodes generalizing seen with
  | nil => simp [components]
  | cons a nodes ih =>
    simp only [components]
    by_cases ha : a ∈ seen
    · rw [if_pos ha]
      obtain ⟨h1,h2,h3,h4⟩ := ih seen hseen
      refine ⟨h1,?_,h3,?_⟩
      · intro g hg
        obtain ⟨c,hc,hall⟩ := h2 g hg
        exact ⟨c,List.mem_cons_of_mem _ hc,hall⟩
      intro c hc
      rcases List.mem_cons.mp hc with rfl | hc
      · exact Or.inl ha
      · exact h4 c hc
    rw [if_neg ha]
    have hbase : insert a seen = seen ∪ [a].toFinset := by
      ext b
      simp
    have hiff := sweep_iff next seen [a] hseen
    rw [← hbase] at hiff
    have hgroup : ∀ b, b ∈ a::(sweep next (insert a seen) [a]).2 ↔ Reach next a b := by
      have hout : ∀ b, Reach next a b → b ∉ seen := by
        intro b hreach hb
        apply ha
        apply closed_reach next seen hseen b a hb
        exact reach_back next hsym a b hreach
      intro b
      have hfound := (sweep_found next (insert a seen) [a]).2 b
      constructor
      · intro hb
        rcases List.mem_cons.mp hb with rfl | hb
        · exact Relation.ReflTransGen.refl
        have hin := hfound.1.mpr (Or.inr hb)
        rcases (hiff b).mp hin with hold | ⟨c,hc,hreach⟩
        · exact absurd (Finset.mem_insert_of_mem hold) (hfound.2 hb)
        · rwa [List.mem_singleton.mp hc] at hreach
      · intro hreach
        have hin := (hiff b).mpr (Or.inr ⟨a,by simp,hreach⟩)
        rcases hfound.1.mp hin with hold | hnew
        · rcases Finset.mem_insert.mp hold with rfl | hold
          · exact List.mem_cons_self
          · exact absurd hold (hout b hreach)
        · exact List.mem_cons_of_mem _ hnew
    have hclosed := sweep_closed next (insert a seen) [a] (by
      intro c hc hnot b hb
      rcases Finset.mem_insert.mp hc with rfl | hc
      · exact absurd List.mem_cons_self hnot
      · exact Finset.mem_insert_of_mem (hseen c hc b hb))
    obtain ⟨h1,h2,h3,h4⟩ := ih _ hclosed
    obtain ⟨hnodup,hfound⟩ := sweep_found next (insert a seen) [a]
    have hin : ∀ b ∈ a::(sweep next (insert a seen) [a]).2,
        b ∈ (sweep next (insert a seen) [a]).1 := by
      intro b hb
      rcases List.mem_cons.mp hb with rfl | hb
      · exact (hfound b).1.mpr (Or.inl (Finset.mem_insert_self _ _))
      · exact (hfound b).1.mpr (Or.inr hb)
    refine ⟨?_,?_,?_,?_⟩
    · rw [List.flatten_cons, List.nodup_append']
      refine ⟨List.nodup_cons.mpr ⟨fun h => (hfound a).2 h (Finset.mem_insert_self _ _),hnodup⟩,
        h1,?_⟩
      intro b hb hlater
      obtain ⟨g,hg,hbg⟩ := List.mem_flatten.mp hlater
      exact h3 g hg b hbg (hin b hb)
    · intro g hg
      rcases List.mem_cons.mp hg with rfl | hg
      · exact ⟨a,List.mem_cons_self,hgroup⟩
      · obtain ⟨c,hc,hall⟩ := h2 g hg
        exact ⟨c,List.mem_cons_of_mem _ hc,hall⟩
    · intro g hg b hb hs
      have hlate : b ∈ (sweep next (insert a seen) [a]).1 :=
        (hfound b).1.mpr (Or.inl (Finset.mem_insert_of_mem hs))
      rcases List.mem_cons.mp hg with rfl | hg
      · rcases List.mem_cons.mp hb with rfl | hb
        · exact ha hs
        · exact (hfound b).2 hb (Finset.mem_insert_of_mem hs)
      · exact h3 g hg b hb hlate
    · intro c hc
      rcases List.mem_cons.mp hc with rfl | hc
      · exact Or.inr ⟨_,List.mem_cons_self,List.mem_cons_self⟩
      rcases h4 c hc with hold | ⟨g,hg,hcg⟩
      · rcases (hfound c).1.mp hold with hold | hnew
        · rcases Finset.mem_insert.mp hold with rfl | hold
          · exact Or.inr ⟨_,List.mem_cons_self,List.mem_cons_self⟩
          · exact Or.inl hold
        · exact Or.inr ⟨_,List.mem_cons_self,List.mem_cons_of_mem _ hnew⟩
      · exact Or.inr ⟨g,List.mem_cons_of_mem _ hg,hcg⟩

def touching (s : Finset α) : Finset α :=
  Finset.univ.filter fun a => a ∉ s ∧ ∃ b ∈ next a, b ∈ s

/-- A set that takes in every node with a neighbour in it, until there is none. -/
def spread (s : Finset α) : Finset α :=
  if touching next s = ∅ then s else spread (s ∪ touching next s)
termination_by Fintype.card α-s.card
decreasing_by
  rename_i hsome
  obtain ⟨a,ha⟩ := Finset.nonempty_iff_ne_empty.mpr hsome
  have hlt : s.card < (s ∪ touching next s).card := by
    apply Finset.card_lt_card
    refine Finset.ssubset_iff_subset_ne.mpr ⟨Finset.subset_union_left,?_⟩
    intro heq
    have hnot := (Finset.mem_filter.mp ha).2.1
    rw [heq] at hnot
    exact hnot (Finset.mem_union_right _ ha)
  have hle := Finset.card_le_univ (s ∪ touching next s)
  omega

theorem mem_touching (s : Finset α) (a : α) :
    a ∈ touching next s ↔ a ∉ s ∧ ∃ b ∈ next a, b ∈ s := by
  simp [touching]

theorem spread_iff (s : Finset α) (a : α) : a ∈ spread next s ↔ ∃ b ∈ s, Reach next a b := by
  fun_induction spread next s with
  | case1 s hnone =>
    constructor
    · exact fun ha => ⟨a,ha,Relation.ReflTransGen.refl⟩
    rintro ⟨b,hb,hreach⟩
    induction hreach using Relation.ReflTransGen.head_induction_on with
    | refl => exact hb
    | head hstep _ ih =>
      by_contra hnot
      have hin := (mem_touching next s _).mpr ⟨hnot,_,hstep,ih⟩
      rw [hnone] at hin
      exact absurd hin (Finset.notMem_empty _)
  | case2 s hsome ih =>
    rw [ih]
    constructor
    · rintro ⟨b,hb,hreach⟩
      rcases Finset.mem_union.mp hb with hb | hb
      · exact ⟨b,hb,hreach⟩
      · obtain ⟨-,c,hc,hs⟩ := (mem_touching next s b).mp hb
        exact ⟨c,hs,hreach.tail hc⟩
    · rintro ⟨b,hb,hreach⟩
      exact ⟨b,Finset.mem_union_left _ hb,hreach⟩

end Foundation.Worklist
