import Mathlib.Algebra.Order.BigOperators.Group.List
import AndaBrain.MigrationChunks

/-!
# Every identity is minted once

The closure of one group never pulls in a record of another group that has to travel with its own:
what leads to such a record belongs to the same component.
-/

set_option autoImplicit false

namespace AndaBrain.MigrationOnce
open Foundation.Worklist
open MigrationChunks

section Statement
variable (isId : String → Bool) (records : List Json) (ids : List String)

def Refers (a b : String) : Prop := b ∈ refsOf isId records a

def Reaches (a b : String) : Prop := Relation.ReflTransGen (Refers isId records) a b

def Carried (a : String) : Prop :=
  a ∈ ids ∧ ∃ b ∈ ids, Reaches isId records a b ∧ reusable (byId records b) = false

def Joined (a b : String) : Prop :=
  Relation.EqvGen (fun x y => Carried isId records ids x ∧ Carried isId records ids y ∧
    Refers isId records x y) a b

open Classical in
noncomputable def groupClosure (a : String) : List Json :=
  records.filter fun r => decide (∃ b c, Joined isId records ids a b ∧
    Reaches isId records b c ∧ idOf r = some c)

def Missing : Prop := ∃ a ∈ ids, ∃ b, Refers isId records a b ∧ b ∉ ids

structure Minted (out : List (List Json)) : Prop where
  occurs : ∀ r ∈ records, ∃ c ∈ out, r ∈ c
  once : ∀ r ∈ records, ∀ a, idOf r = some a → Carried isId records ids a →
    ∃! i : Fin out.length, r ∈ out.get i
  closed : ∀ c ∈ out, ∀ r ∈ c, ∀ a b, idOf r = some a → Refers isId records a b →
    ∃ s ∈ c, idOf s = some b
  sublist : ∀ c ∈ out, c.Sublist records
  limits : ∀ c ∈ out, c.length ≤ chunkElements ∧ (c.map nodes).sum ≤ chunkNodes

end Statement

variable (records : List Json) (ids : List String)

theorem mapped_ids (h : records.mapM idOf = some ids) : records.map idOf = ids.map some := by
  induction records generalizing ids with
  | nil =>
    simp only [List.mapM_nil, Option.pure_def, Option.some.injEq] at h
    rw [← h]
    rfl
  | cons r records ih =>
    rw [List.mapM_cons] at h
    obtain ⟨id,hid,h⟩ := Option.bind_eq_some_iff.mp h
    obtain ⟨rest,hrest,h⟩ := Option.bind_eq_some_iff.mp h
    simp only [Option.pure_def, Option.some.injEq] at h
    rw [← h, List.map_cons, List.map_cons, hid, ih rest hrest]

theorem record_id (h : records.map idOf = ids.map some)
    (r : Json) (hr : r ∈ records) : ∃ a ∈ ids, idOf r = some a := by
  have hin : idOf r ∈ ids.map some := h ▸ List.mem_map_of_mem hr
  obtain ⟨a,ha,heq⟩ := List.mem_map.mp hin
  exact ⟨a,ha,heq.symm⟩

theorem id_record (h : records.map idOf = ids.map some)
    (a : String) (ha : a ∈ ids) : ∃ r ∈ records, idOf r = some a := by
  have hin : some a ∈ records.map idOf := h ▸ List.mem_map_of_mem ha
  exact List.mem_map.mp hin

theorem missing_found (isId : String → Bool) (records : List Json) (ids : List String)
    (h : ¬∀ id ∈ ids, ∀ r ∈ refsOf isId records id, r ∈ ids) :
    ∃ p, missing isId records ids = some p := by
  rw [← Option.isSome_iff_exists, missing]
  by_contra hnone
  rw [Option.not_isSome_iff_eq_none, List.findSome?_eq_none_iff] at hnone
  apply h
  intro id hid r hr
  have hfind := hnone id (List.mem_mergeSort.mpr hid)
  rw [Option.map_eq_none_iff, List.find?_eq_none] at hfind
  simpa using hfind r (List.mem_mergeSort.mpr hr)

section Graph
variable (isId : String → Bool) (records : List Json) (ids : List String)
variable (h : ∀ id ∈ ids, ∀ r ∈ refsOf isId records id, r ∈ ids)

theorem known_edge (a b : Known ids) :
    b ∈ knownEdges isId records ids h a ↔ Refers isId records a.1 b.1 := by
  simp only [knownEdges, List.mem_map, List.mem_attach, true_and, Subtype.exists]
  constructor
  · rintro ⟨r,hr,rfl⟩
    exact hr
  · exact fun hb => ⟨b.1,hb,rfl⟩

theorem reach_known (a : Known ids) (c : String) (hreach : Reaches isId records a.1 c) :
    ∃ hc : c ∈ ids, Reach (knownEdges isId records ids h) a ⟨c,hc⟩ := by
  induction hreach with
  | refl => exact ⟨a.2,Relation.ReflTransGen.refl⟩
  | tail _ hstep ih =>
    obtain ⟨hb,hpath⟩ := ih
    refine ⟨h _ hb _ hstep,hpath.tail ?_⟩
    exact (known_edge isId records ids h ⟨_,hb⟩ ⟨_,_⟩).mpr hstep

theorem reach_iff (a b : Known ids) :
    Reach (knownEdges isId records ids h) a b ↔ Reaches isId records a.1 b.1 := by
  constructor
  · intro hreach
    induction hreach with
    | refl => exact Relation.ReflTransGen.refl
    | tail _ hstep ih => exact ih.tail ((known_edge isId records ids h _ _).mp hstep)
  · intro hreach
    obtain ⟨hb,hpath⟩ := reach_known isId records ids h a b.1 hreach
    exact hpath

theorem indivisible_iff (a : Known ids) :
    a ∈ indivisible records ids (knownEdges isId records ids h) ↔ Carried isId records ids a.1 := by
  rw [indivisible, spread_iff]
  constructor
  · rintro ⟨b,hb,hreach⟩
    refine ⟨a.2,b.1,b.2,(reach_iff isId records ids h a b).mp hreach,?_⟩
    simpa using hb
  · rintro ⟨-,b,hb,hreach,hkind⟩
    refine ⟨⟨b,hb⟩,by simpa using hkind,(reach_iff isId records ids h a ⟨b,hb⟩).mpr hreach⟩

theorem adjacent_iff (a b : Known ids) : b ∈ adjacency records ids (knownEdges isId records ids h) a
    ↔ Carried isId records ids a.1 ∧ Carried isId records ids b.1 ∧
    (Refers isId records a.1 b.1 ∨ Refers isId records b.1 a.1) := by
  rw [adjacency]
  by_cases ha : a ∈ indivisible records ids (knownEdges isId records ids h)
  · rw [if_pos ha]
    simp only [List.mem_append, List.mem_filter, decide_eq_true_eq, List.mem_attach, true_and,
      indivisible_iff, known_edge]
    have := (indivisible_iff isId records ids h a).mp ha
    tauto
  · rw [if_neg ha]
    rw [indivisible_iff] at ha
    simp [ha]

theorem adjacent_symm (a b : Known ids)
    (hb : b ∈ adjacency records ids (knownEdges isId records ids h) a) :
    a ∈ adjacency records ids (knownEdges isId records ids h) b := by
  rw [adjacent_iff] at hb ⊢
  tauto

theorem joined_known (a b : String) (hj : Joined isId records ids a b) : (a = b) ∨ ∃ (ha : a ∈ ids)
    (hb : b ∈ ids), Reach (adjacency records ids (knownEdges isId records ids h)) ⟨a,ha⟩ ⟨b,hb⟩ :=
    by
  induction hj with
  | rel x y hstep =>
    refine Or.inr ⟨hstep.1.1,hstep.2.1.1,Relation.ReflTransGen.single ?_⟩
    exact (adjacent_iff isId records ids h ⟨x,_⟩ ⟨y,_⟩).mpr
      ⟨hstep.1,hstep.2.1,Or.inl hstep.2.2⟩
  | refl x => exact Or.inl rfl
  | symm x y _ ih =>
    rcases ih with rfl | ⟨hx,hy,hpath⟩
    · exact Or.inl rfl
    · exact Or.inr ⟨hy,hx,reach_back _ (adjacent_symm isId records ids h) _ _ hpath⟩
  | trans x y z _ _ ih1 ih2 =>
    rcases ih1 with rfl | ⟨hx,hy,hpath⟩
    · exact ih2
    · rcases ih2 with rfl | ⟨_,hz,hrest⟩
      · exact Or.inr ⟨hx,hy,hpath⟩
      · exact Or.inr ⟨hx,hz,hpath.trans hrest⟩

theorem joined_iff (a b : Known ids) : Reach (adjacency records ids (knownEdges isId records ids h))
    a b ↔ Joined isId records ids a.1 b.1 := by
  constructor
  · intro hreach
    induction hreach with
    | refl => exact Relation.EqvGen.refl _
    | tail _ hstep ih =>
      obtain ⟨hx,hy,hstep | hstep⟩ := (adjacent_iff isId records ids h _ _).mp hstep
      · exact ih.trans _ _ _ (Relation.EqvGen.rel _ _ ⟨hx,hy,hstep⟩)
      · exact ih.trans _ _ _ ((Relation.EqvGen.rel _ _ ⟨hy,hx,hstep⟩).symm _ _)
  · intro hj
    rcases joined_known isId records ids h a.1 b.1 hj with heq | ⟨ha,hb,hpath⟩
    · rw [Subtype.ext heq]
      exact Relation.ReflTransGen.refl
    · exact hpath

theorem mem_close (roots : List (Known ids)) (r : Json) : r ∈ close records ids
    (knownEdges isId records ids h) roots ↔ r ∈ records ∧ ∃ b ∈ roots, ∃ c, Reaches isId records b.1
    c ∧ idOf r = some c := by
  have hiff := sweep_iff (knownEdges isId records ids h) ∅ roots (by simp)
  rw [Finset.empty_union] at hiff
  simp only [close, List.mem_filter, decide_eq_true_eq]
  constructor
  · rintro ⟨hr,c,hc,hid⟩
    rcases (hiff c).mp hc with hnone | ⟨b,hb,hreach⟩
    · exact absurd hnone (Finset.notMem_empty c)
    · exact ⟨hr,b,hb,c.1,(reach_iff isId records ids h b c).mp hreach,hid⟩
  · rintro ⟨hr,b,hb,c,hreach,hid⟩
    obtain ⟨hc,hpath⟩ := reach_known isId records ids h b c hreach
    exact ⟨hr,⟨c,hc⟩,(hiff _).mpr (Or.inr ⟨b,hb,hpath⟩),hid⟩

include h in
theorem carried_path (a : String) (ha : Carried isId records ids a) (b : String) (hb : b ∈ ids)
    (hreach : Reaches isId records b a) : Joined isId records ids b a := by
  induction hreach using Relation.ReflTransGen.head_induction_on with
  | refl => exact Relation.EqvGen.refl _
  | @head x y hstep hpath ih =>
    obtain ⟨-,c,hc,hlast,hkind⟩ := ha
    have hy := h x hb y hstep
    refine (Relation.EqvGen.rel _ _ ⟨?_,?_,hstep⟩).trans _ _ _ (ih hy)
    · exact ⟨hb,c,hc,(Relation.ReflTransGen.head hstep hpath).trans hlast,hkind⟩
    · exact ⟨hy,c,hc,hpath.trans hlast,hkind⟩

end Graph

section Pack
variable (ids : List String) (close : List (Known ids) → List Json)

/-- A run of the packer: it fails at a group whose closure is too large, and otherwise it
returns the closures of blocks of whole groups. -/
theorem pack_spec (hmono : ∀ roots more, roots ⊆ more → fits (close more) = true →
      fits (close roots) = true)
    (gs rs : List (List (Known ids))) (hgs : ∀ g ∈ gs, g ≠ []) (hrs : ∀ g ∈ rs, g ≠ [])
    (hfit : rs ≠ [] → fits (close rs.flatten) = true) :
    (∃ e, pack ids close gs rs.flatten = .error e ∧ ∃ g ∈ gs, fits (close g) = false) ∨
      ∃ blocks : List (List (List (Known ids))),
        pack ids close gs rs.flatten = .ok (blocks.map fun b => close b.flatten) ∧
        blocks.flatten = rs++gs ∧ (∀ b ∈ blocks, fits (close b.flatten) = true) ∧
        ∀ g ∈ gs, fits (close g) = true := by
  have hempty : ∀ l : List (List (Known ids)), (∀ g ∈ l, g ≠ []) → l.flatten = [] → l = [] := by
    intro l hl hflat
    cases l with
    | nil => rfl
    | cons g l =>
      rw [List.flatten_cons, List.append_eq_nil_iff] at hflat
      exact absurd hflat.1 (hl g List.mem_cons_self)
  induction gs generalizing rs with
  | nil =>
    right
    by_cases hnone : rs.flatten = []
    · obtain rfl := hempty rs hrs hnone
      exact ⟨[],rfl,rfl,by simp,by simp⟩
    refine ⟨[rs],?_,by simp,?_,by simp⟩
    · have hne : rs.flatten.isEmpty = false := by simpa using hnone
      simp [pack, hne]
    · intro b hb
      rw [List.mem_singleton.mp hb]
      exact hfit (by rintro rfl; exact hnone rfl)
  | cons g gs ih =>
    have hg := hgs g List.mem_cons_self
    have hrest : ∀ x ∈ gs, x ≠ [] := fun x hx => hgs x (List.mem_cons_of_mem _ hx)
    simp only [pack]
    by_cases hfull : (!fits (close (rs.flatten++g)) && !rs.flatten.isEmpty) = true
    · rw [if_pos hfull]
      by_cases hnext : fits (close g) = true
      · rw [if_pos hnext]
        rcases ih [g] hrest (by simpa using hg) (by simpa using hnext) with
          ⟨e,he,x,hx,hbad⟩ | ⟨blocks,hok,hflat,hblocks,hall⟩
        · left
          rw [List.flatten_singleton] at he
          exact ⟨e,by rw [he],x,List.mem_cons_of_mem _ hx,hbad⟩
        right
        rw [List.flatten_singleton] at hok
        have hne : rs ≠ [] := by
          rintro rfl
          simp at hfull
        refine ⟨rs::blocks,by rw [hok]; simp [hfull],by simp [hflat],?_,?_⟩
        · intro b hb
          rcases List.mem_cons.mp hb with rfl | hb
          · exact hfit hne
          · exact hblocks b hb
        · intro x hx
          rcases List.mem_cons.mp hx with rfl | hx
          · exact hnext
          · exact hall x hx
      · rw [if_neg hnext]
        exact Or.inl ⟨_,rfl,g,List.mem_cons_self,by simpa using hnext⟩
    rw [if_neg hfull]
    have hflat : rs.flatten++g = (rs++[g]).flatten := by simp
    by_cases hnext : fits (close (rs.flatten++g)) = true
    · rw [if_pos hnext, hflat]
      rcases ih (rs++[g]) hrest (by
          intro x hx
          rcases List.mem_append.mp hx with hx | hx
          · exact hrs x hx
          · rwa [List.mem_singleton.mp hx]) (by rw [← hflat]; exact fun _ => hnext) with
        ⟨e,he,x,hx,hbad⟩ | ⟨blocks,hok,hblk,hblocks,hall⟩
      · exact Or.inl ⟨e,by rw [he],x,List.mem_cons_of_mem _ hx,hbad⟩
      right
      refine ⟨blocks,by rw [hok]; simp [hfull],by simp [hblk],hblocks,?_⟩
      intro x hx
      rcases List.mem_cons.mp hx with rfl | hx
      · exact hmono _ _ (List.subset_append_right _ _) hnext
      · exact hall x hx
    · rw [if_neg hnext]
      have hroots : rs.flatten = [] := by
        simpa [hnext] using hfull
      rw [hroots, List.nil_append] at hnext
      exact Or.inl ⟨_,rfl,g,List.mem_cons_self,by simpa using hnext⟩

end Pack

theorem fits_sublist (small large : List Json) (h : small.Sublist large) (hfit : fits large = true) :
    fits small = true := by
  simp only [fits, Bool.and_eq_true, decide_eq_true_eq] at hfit ⊢
  have hsum : (small.map nodes).sum ≤ (large.map nodes).sum :=
    (h.map nodes).sum_le_sum fun _ _ => Nat.zero_le _
  exact ⟨h.length_le.trans hfit.1,hsum.trans hfit.2⟩

section Groups
variable (isId : String → Bool) (records : List Json) (ids : List String)
variable (h : ∀ id ∈ ids, ∀ r ∈ refsOf isId records id, r ∈ ids)

theorem close_mono (roots more : List (Known ids)) (hsub : roots ⊆ more)
    (hfit : fits (close records ids (knownEdges isId records ids h) more) = true) :
    fits (close records ids (knownEdges isId records ids h) roots) = true := by
  apply fits_sublist _ _ _ hfit
  rw [close, close]
  apply List.monotone_filter_right
  intro r hr
  have hiff := fun roots => sweep_iff (knownEdges isId records ids h) ∅ roots (by simp)
  simp only [Finset.empty_union] at hiff
  simp only [decide_eq_true_eq] at hr ⊢
  obtain ⟨c,hc,hid⟩ := hr
  refine ⟨c,?_,hid⟩
  rcases (hiff roots c).mp hc with hnone | ⟨b,hb,hreach⟩
  · exact absurd hnone (Finset.notMem_empty c)
  · exact (hiff more c).mpr (Or.inr ⟨b,hsub hb,hreach⟩)

theorem groups_spec :
    (groups records ids (knownEdges isId records ids h)).flatten.Nodup ∧
      (∀ g ∈ groups records ids (knownEdges isId records ids h), ∃ a : Known ids,
        ∀ b : Known ids, b ∈ g ↔ Joined isId records ids a.1 b.1) ∧
      ∀ a : Known ids, ∃ g ∈ groups records ids (knownEdges isId records ids h), a ∈ g := by
  obtain ⟨hnodup,hgroup,-,hall⟩ := components_spec
    (adjacency records ids (knownEdges isId records ids h)) (adjacent_symm isId records ids h) ∅
    ids.attach (by simp)
  refine ⟨hnodup,?_,?_⟩
  · intro g hg
    obtain ⟨a,-,hmem⟩ := hgroup g hg
    exact ⟨a,fun b => (hmem b).trans (joined_iff isId records ids h a b)⟩
  intro a
  rcases hall a (List.mem_attach ids a) with hnone | hin
  · exact absurd hnone (Finset.notMem_empty a)
  · exact hin

theorem group_nonempty (g : List (Known ids))
    (hg : g ∈ groups records ids (knownEdges isId records ids h)) : g ≠ [] := by
  obtain ⟨a,hmem⟩ := (groups_spec isId records ids h).2.1 g hg
  exact List.ne_nil_of_mem ((hmem a).mpr (Relation.EqvGen.refl _))

theorem close_group (g : List (Known ids))
    (hg : g ∈ groups records ids (knownEdges isId records ids h)) (a : Known ids) (ha : a ∈ g) :
    close records ids (knownEdges isId records ids h) g = groupClosure isId records ids a.1 := by
  obtain ⟨d,hmem⟩ := (groups_spec isId records ids h).2.1 g hg
  have hda := (hmem a).mp ha
  have hin : ∀ b : Known ids, b ∈ g ↔ Joined isId records ids a.1 b.1 := fun b =>
    (hmem b).trans ⟨fun hb => (hda.symm _ _).trans _ _ _ hb,fun hb => hda.trans _ _ _ hb⟩
  have hclose := mem_close isId records ids h g
  simp only [close, List.mem_filter, decide_eq_true_eq] at hclose
  rw [close, groupClosure]
  apply List.filter_congr
  intro r hr
  apply decide_eq_decide.mpr
  have hone := hclose r
  simp only [hr, true_and] at hone
  rw [hone]
  constructor
  · rintro ⟨b,hb,c,hreach,hid⟩
    exact ⟨b.1,c,(hin b).mp hb,hreach,hid⟩
  rintro ⟨b,c,hj,hreach,hid⟩
  have hb : b ∈ ids := by
    rcases joined_known isId records ids h a.1 b hj with heq | ⟨-,hb,-⟩
    · exact heq ▸ a.2
    · exact hb
  exact ⟨⟨b,hb⟩,(hin ⟨b,hb⟩).mpr hj,c,hreach,hid⟩

theorem carried_once (blocks : List (List (Known ids)))
    (hblocks : ∀ g ∈ blocks, g ∈ groups records ids (knownEdges isId records ids h))
    (r : Json) (a : Known ids) (hid : idOf r = some a.1) (ha : Carried isId records ids a.1)
    (hr : r ∈ close records ids (knownEdges isId records ids h) blocks.flatten) :
    a ∈ blocks.flatten := by
  obtain ⟨-,b,hb,c,hreach,hc⟩ := (mem_close isId records ids h _ r).mp hr
  rw [hid, Option.some.injEq] at hc
  subst hc
  obtain ⟨g,hg,hbg⟩ := List.mem_flatten.mp hb
  obtain ⟨d,hmem⟩ := (groups_spec isId records ids h).2.1 g (hblocks g hg)
  have hj := carried_path isId records ids h a.1 ha b.1 b.2 hreach
  exact List.mem_flatten.mpr ⟨g,hg,(hmem a).mpr (((hmem b).mp hbg).trans _ _ _ hj)⟩

/-- The closures of blocks that make up all the groups hold every record as they should. -/
theorem blocks_minted (hids : records.map idOf = ids.map some) (blocks : List (List (List (Known ids))))
    (hflat : blocks.flatten = groups records ids (knownEdges isId records ids h))
    (hfits : ∀ b ∈ blocks,
      fits (close records ids (knownEdges isId records ids h) b.flatten) = true) :
    Minted isId records ids
      (blocks.map fun b => close records ids (knownEdges isId records ids h) b.flatten) := by
  obtain ⟨hgroups,-,hall⟩ := groups_spec isId records ids h
  have hin : ∀ b ∈ blocks, ∀ g ∈ b, g ∈ groups records ids (knownEdges isId records ids h) :=
    fun b hb g hg => hflat ▸ List.mem_flatten.mpr ⟨b,hb,hg⟩
  have hblock : ∀ a : Known ids, ∃ b ∈ blocks, a ∈ b.flatten := by
    intro a
    obtain ⟨g,hg,ha⟩ := hall a
    obtain ⟨b,hb,hgb⟩ := List.mem_flatten.mp (hflat ▸ hg)
    exact ⟨b,hb,List.mem_flatten.mpr ⟨g,hgb,ha⟩⟩
  have hroot : ∀ r ∈ records, ∀ a : Known ids, idOf r = some a.1 → ∀ b, a ∈ List.flatten b →
      r ∈ close records ids (knownEdges isId records ids h) b.flatten :=
    fun r hr a hid b ha =>
      (mem_close isId records ids h _ r).mpr ⟨hr,a,ha,a.1,Relation.ReflTransGen.refl,hid⟩
  have hdisjoint : blocks.Pairwise fun b c => ∀ a : Known ids, a ∈ b.flatten → a ∉ c.flatten := by
    have hflatten : (blocks.map List.flatten).flatten.Nodup := by
      rw [← List.flatten_flatten, hflat]
      exact hgroups
    exact (List.pairwise_map.mp (List.nodup_flatten.mp hflatten).2).imp
      fun hd a ha hc => hd ha hc
  constructor
  · intro r hr
    obtain ⟨a,ha,hid⟩ := record_id records ids hids r hr
    obtain ⟨b,hb,hab⟩ := hblock ⟨a,ha⟩
    exact ⟨_,List.mem_map_of_mem hb,hroot r hr ⟨a,ha⟩ hid b hab⟩
  · intro r hr a hid hcarried
    obtain ⟨b,hb,hab⟩ := hblock ⟨a,hcarried.1⟩
    obtain ⟨i,hi,rfl⟩ := List.getElem_of_mem hb
    refine ⟨⟨i,by simpa using hi⟩,?_,?_⟩
    · simpa using hroot r hr ⟨a,hcarried.1⟩ hid _ hab
    rintro ⟨j,hj⟩ hrj
    have hj' : j < blocks.length := by simpa using hj
    simp only [List.get_eq_getElem, List.getElem_map] at hrj
    have haj := carried_once isId records ids h (blocks[j]) (hin _ (List.getElem_mem hj')) r
      ⟨a,hcarried.1⟩ hid hcarried hrj
    rw [Fin.mk.injEq]
    rcases lt_trichotomy i j with hlt | heq | hlt
    · exact absurd haj (List.pairwise_iff_getElem.mp hdisjoint i j hi hj' hlt _ hab)
    · exact heq.symm
    · exact absurd hab (List.pairwise_iff_getElem.mp hdisjoint j i hj' hi hlt _ haj)
  · intro c hc r hr a b hid hrefers
    obtain ⟨block,-,rfl⟩ := List.mem_map.mp hc
    obtain ⟨-,d,hd,e,hreach,he⟩ := (mem_close isId records ids h _ r).mp hr
    rw [hid, Option.some.injEq] at he
    subst he
    obtain ⟨hbids,-⟩ := reach_known isId records ids h d b (hreach.tail hrefers)
    obtain ⟨s,hs,hsid⟩ := id_record records ids hids b hbids
    exact ⟨s,(mem_close isId records ids h _ s).mpr ⟨hs,d,hd,b,hreach.tail hrefers,hsid⟩,hsid⟩
  · intro c hc
    obtain ⟨block,-,rfl⟩ := List.mem_map.mp hc
    exact List.filter_sublist
  · intro c hc
    obtain ⟨block,hb,rfl⟩ := List.mem_map.mp hc
    simpa [fits] using hfits block hb

end Groups

/-- The packing fails exactly when a record refers to one that is not exported or when the closure
of one group is too large, and otherwise its chunks mint every identity once. -/
theorem chunks_mint_once (isId : String → Bool) (capsule : Json) (records : List Json)
    (ids : List String)
    (hrecords : ((capsule.index "payload").index "records").asArray = some records)
    (hids : records.mapM idOf = some ids) :
    ((∃ e, chunks isId capsule = .error e) ↔ Missing isId records ids ∨
      ∃ a ∈ ids, ¬((groupClosure isId records ids a).length ≤ chunkElements ∧
        ((groupClosure isId records ids a).map nodes).sum ≤ chunkNodes)) ∧
    ∀ out, chunks isId capsule = .ok out → Minted isId records ids out := by
  have hmap := mapped_ids records ids hids
  by_cases h : ∀ id ∈ ids, ∀ r ∈ refsOf isId records id, r ∈ ids
  · have hchunks : chunks isId capsule =
        pack ids (close records ids (knownEdges isId records ids h))
          (groups records ids (knownEdges isId records ids h)) [] := by
      simp only [chunks, hrecords, hids, dif_pos h]
    have hnone : ¬Missing isId records ids := by
      rintro ⟨a,ha,b,hb,hout⟩
      exact hout (h a ha b hb)
    have hspec := pack_spec ids (close records ids (knownEdges isId records ids h))
      (close_mono isId records ids h) (groups records ids (knownEdges isId records ids h)) []
      (group_nonempty isId records ids h) (by simp) (by simp)
    rw [List.flatten_nil, ← hchunks] at hspec
    have hgroup : ∀ g ∈ groups records ids (knownEdges isId records ids h), ∀ a ∈ g,
        (fits (close records ids (knownEdges isId records ids h) g) = true ↔
          (groupClosure isId records ids a.1).length ≤ chunkElements ∧
          ((groupClosure isId records ids a.1).map nodes).sum ≤ chunkNodes) := by
      intro g hg a ha
      rw [close_group isId records ids h g hg a ha]
      simp [fits]
    rcases hspec with ⟨e,he,g,hg,hbad⟩ | ⟨blocks,hok,hflat,hfits,hall⟩
    · refine ⟨⟨fun _ => Or.inr ?_,fun _ => ⟨e,he⟩⟩,fun out hout => by rw [he] at hout; cases hout⟩
      obtain ⟨a,ha⟩ := List.exists_mem_of_ne_nil g (group_nonempty isId records ids h g hg)
      refine ⟨a.1,a.2,?_⟩
      rw [← hgroup g hg a ha, hbad]
      exact Bool.false_ne_true
    constructor
    · constructor
      · rintro ⟨e,he⟩
        rw [hok] at he
        cases he
      rintro (hmissing | ⟨a,ha,hbad⟩)
      · exact absurd hmissing hnone
      · obtain ⟨g,hg,hag⟩ := (groups_spec isId records ids h).2.2 ⟨a,ha⟩
        exact absurd ((hgroup g hg ⟨a,ha⟩ hag).mp (hall g hg)) hbad
    · intro out hout
      rw [hok, Except.ok.injEq] at hout
      subst hout
      exact blocks_minted isId records ids h hmap blocks hflat hfits
  · obtain ⟨p,hp⟩ := missing_found isId records ids h
    have hchunks : chunks isId capsule =
        .error (p.1++" references "++p.2++", which was not exported") := by
      simp only [chunks, hrecords, hids, dif_neg h, hp]
    have hmissing : Missing isId records ids := by
      simp only [not_forall] at h
      obtain ⟨a,ha,b,hb,hout⟩ := h
      exact ⟨a,ha,b,hb,hout⟩
    rw [hchunks]
    exact ⟨⟨fun _ => Or.inl hmissing,fun _ => ⟨_,rfl⟩⟩,fun out hout => by cases hout⟩

def pairRecords : List Json :=
  [.obj [("kind",.str "evidence"),("id",.str "E-1")],
    .obj [("kind",.str "assertion"),("id",.str "A-1"),
      ("evidence",.arr [.obj [("id",.str "E-1")]])]]

def pairCapsule : Json := .obj [("payload",.obj [("records",.arr pairRecords)])]

def pairId (s : String) : Bool := s == "E-1" || s == "A-1"

theorem chunks_mint_pair :
    ((∃ e, chunks pairId pairCapsule = .error e) ↔ Missing pairId pairRecords ["E-1","A-1"] ∨
      ∃ a ∈ ["E-1","A-1"],
        ¬((groupClosure pairId pairRecords ["E-1","A-1"] a).length ≤ chunkElements ∧
          ((groupClosure pairId pairRecords ["E-1","A-1"] a).map nodes).sum ≤ chunkNodes)) ∧
    ∀ out, chunks pairId pairCapsule = .ok out →
      Minted pairId pairRecords ["E-1","A-1"] out :=
  chunks_mint_once pairId pairCapsule pairRecords ["E-1","A-1"] (by rfl) (by rfl)

end AndaBrain.MigrationOnce
