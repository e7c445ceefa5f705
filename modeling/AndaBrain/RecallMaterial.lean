import AndaBrain.RecallPlan
import Mathlib.Data.List.Infix

/-!
# The material of a Recall

Items are numbered once. Until the final checks, whatever removes an item removes only optional
ones, so that every constraint and warning ever added is held.
-/

set_option autoImplicit false

namespace AndaBrain.RecallPlan
open RecallPack

theorem item_id_injective : Function.Injective itemId := by
  have hnumber (n : ℕ) : Nat.ofDigitChars 10 ((itemId n).toList.drop 1) 0 = n := by
    simp [itemId, Nat.toList_repr, Nat.ofDigitChars_append]
  intro a b h
  rw [← hnumber a, h, hnumber b]

structure Kept (m : Material) : Prop where
  numbered : ∀ item ∈ m.created, ∃ k < m.nextId, item.id = itemId k
  distinct : (m.created.map MemoryItem.id).Nodup
  within : m.items.Sublist m.created
  held : ∀ item ∈ m.created, isRequired item = true → item ∈ m.items
  checked : ∀ entry ∈ m.procedures, ∃ item ∈ m.created, item.id = entry.1 ∧ item.channel = .procedures

theorem Kept.same {m : Material} (h : Kept m) (a b : MemoryItem) (ha : a ∈ m.created)
    (hb : b ∈ m.created) (hid : a.id = b.id) : a = b :=
  List.inj_on_of_nodup_map h.distinct ha hb hid

structure Grows (m next : Material) : Prop where
  kept : Kept m → Kept next
  created : m.created <+: next.created
  critical : m.criticalMissing = true → next.criticalMissing = true

variable (m : Material) (channel : Channel)

theorem Grows.refl : Grows m m := ⟨id,List.prefix_rfl,id⟩

theorem Grows.trans {a b c : Material} (h : Grows a b) (h' : Grows b c) : Grows a c :=
  ⟨fun hk => h'.kept (h.kept hk),h.created.trans h'.created,fun hc => h'.critical (h.critical hc)⟩

structure Leaves (m next : Material) : Prop where
  nextId : next.nextId = m.nextId
  items : next.items = m.items
  procedures : next.procedures = m.procedures
  created : next.created = m.created
  critical : m.criticalMissing = true → next.criticalMissing = true

theorem Leaves.grows {m next : Material} (h : Leaves m next) : Grows m next := by
  obtain ⟨hn,hi,hp,hc,hcrit⟩ := h
  refine ⟨fun hk => ⟨?_,?_,?_,?_,?_⟩,by rw [hc],hcrit⟩
  · rw [hc, hn]
    exact hk.numbered
  · rw [hc]
    exact hk.distinct
  · rw [hi, hc]
    exact hk.within
  · rw [hi, hc]
    exact hk.held
  · rw [hp, hc]
    exact hk.checked

theorem mark_leaves (partially : Bool) :
    Leaves m (m.markChannel channel partially) := ⟨rfl,rfl,rfl,rfl,id⟩

theorem omit_leaves : Leaves m (m.omitChannel channel) :=
  ⟨rfl,rfl,rfl,rfl,id⟩

theorem missing_leaves : Leaves m (missing m) := ⟨rfl,rfl,rfl,rfl,fun _ => rfl⟩

theorem refuse_leaves (priority : Priority) : Leaves m (m.refuse channel priority) :=
  ⟨rfl,rfl,rfl,rfl,fun h => by simp [Material.refuse, h]⟩

theorem push_grows (priority : Priority) (content : Json) :
    Grows m (m.push ⟨itemId m.nextId,channel,priority,content⟩) := by
  refine ⟨fun hk => ⟨?_,?_,?_,?_,?_⟩,List.prefix_append _ _,id⟩
  · intro item hitem
    rcases List.mem_append.mp hitem with h | h
    · obtain ⟨k,hlt,hid⟩ := hk.numbered item h
      exact ⟨k,Nat.lt_succ_of_lt hlt,hid⟩
    · obtain rfl := List.mem_singleton.mp h
      exact ⟨m.nextId,Nat.lt_succ_self _,rfl⟩
  · have hnew : ∀ item ∈ m.created, item.id ≠ itemId m.nextId := by
      intro item hitem heq
      obtain ⟨k,hlt,hid⟩ := hk.numbered item hitem
      have := item_id_injective (hid.symm.trans heq)
      omega
    simp only [Material.push, List.map_append, List.map_cons, List.map_nil]
    rw [List.nodup_append]
    refine ⟨hk.distinct,by simp,?_⟩
    intro a ha b hb hab
    obtain ⟨item,hitem,rfl⟩ := List.mem_map.mp ha
    obtain rfl : b = itemId m.nextId := by simpa using hb
    exact hnew item hitem hab
  · exact hk.within.append (List.Sublist.refl _)
  · intro item hitem hr
    rcases List.mem_append.mp hitem with h | h
    · exact List.mem_append_left _ (hk.held item h hr)
    · exact List.mem_append_right _ h
  · intro entry hentry
    obtain ⟨item,hitem,h⟩ := hk.checked entry hentry
    exact ⟨item,List.mem_append_left _ hitem,h⟩

section Add
variable (codec : Codec) (m next : Material) (channel : Channel) (priority : Priority)
  (content : Json) (id : Option String)

theorem add_cases (h : m.add codec channel priority content = .ok (next,id)) :
    (isEmptyContent content = true ∧ Leaves m next ∧ id = none) ∨
      ∃ base, Leaves m base ∧ isEmptyContent content = false ∧
        ((next = base.refuse channel priority ∧ id = none) ∨
          (next = base.push ⟨itemId base.nextId,channel,priority,
              (admitted channel priority content).1⟩ ∧ id = some (itemId base.nextId))) := by
  simp only [Material.add] at h
  by_cases he : isEmptyContent content = true
  · rw [if_pos he] at h
    cases h
    exact Or.inl ⟨he,mark_leaves _ _ _,rfl⟩
  rw [if_neg he] at h
  have hbase : Leaves m (if (admitted channel priority content).2 then
      (m.markChannel channel false).markChannel channel true
      else m.markChannel channel false) := by
    by_cases hv : (admitted channel priority content).2 = true
    · rw [if_pos hv]
      exact ⟨rfl,rfl,rfl,rfl,fun h => h⟩
    · rw [if_neg hv]
      exact mark_leaves _ _ _
  generalize (if (admitted channel priority content).2 then
      (m.markChannel channel false).markChannel channel true
      else m.markChannel channel false) = base at h hbase
  refine Or.inr ⟨base,hbase,by simpa using he,?_⟩
  by_cases hfull : maxItems ≤ base.items.length
  · simp only [if_pos hfull, Except.ok.injEq, Prod.mk.injEq] at h
    exact Or.inl ⟨h.1.symm,h.2.symm⟩
  rw [if_neg hfull] at h
  cases hb : codec.contentBytes (admitted channel priority content).1 with
  | error e => simp [hb] at h
  | ok bytes =>
    simp only [hb] at h
    by_cases hbig : maxBytes < bytes
    · simp only [if_pos hbig, Except.ok.injEq, Prod.mk.injEq] at h
      exact Or.inl ⟨h.1.symm,h.2.symm⟩
    · simp only [if_neg hbig, Except.ok.injEq, Prod.mk.injEq] at h
      exact Or.inr ⟨h.1.symm,h.2.symm⟩

theorem add_grows (h : m.add codec channel priority content = .ok (next,id)) : Grows m next := by
  rcases add_cases codec m next channel priority content id h with
    ⟨_,hl,_⟩ | ⟨base,hl,_,⟨rfl,_⟩ | ⟨rfl,_⟩⟩
  · exact hl.grows
  · exact hl.grows.trans (refuse_leaves base channel priority).grows
  · exact hl.grows.trans (push_grows base channel priority _)

theorem critical_required (item : MemoryItem) : isCritical item.priority = isRequired item := by
  unfold isCritical isRequired
  cases item.priority <;> decide

theorem add_required (h : m.add codec channel priority content = .ok (next,id))
    (hc : isEmptyContent content = false) (hp : isCritical priority = true) : next.criticalMissing =
    true ∨ ∃ item ∈ next.items, item ∈ next.created ∧ item.channel = channel ∧ item.priority =
    priority ∧ item.content = (admitted channel priority content).1 ∧ id = some item.id := by
  rcases add_cases codec m next channel priority content id h with
    ⟨he,_,_⟩ | ⟨base,_,_,⟨rfl,_⟩ | ⟨rfl,hid⟩⟩
  · rw [hc] at he
    cases he
  · exact Or.inl (by simp [Material.refuse, hp])
  · exact Or.inr ⟨_,List.mem_append_right _ (List.mem_singleton.mpr rfl),
      List.mem_append_right _ (List.mem_singleton.mpr rfl),rfl,rfl,rfl,hid⟩

end Add

/-! ## Host reads -/

section Reads
variable (wire : Wire) (s : Session)

variable (m next : Material)

theorem add_item_steps (channel : Channel) (priority : Priority)
    (content : Json) (h : addItem wire m channel priority content = .ok next) :
    ∃ id, m.add wire.toCodec channel priority content = .ok (next,id) := by
  rw [addItem] at h
  cases ha : m.add wire.toCodec channel priority content with
  | error e =>
    rw [ha] at h
    cases h
  | ok r =>
    rw [ha] at h
    cases h
    exact ⟨r.2,rfl⟩

theorem add_item_grows (channel : Channel) (priority : Priority)
    (content : Json) (h : addItem wire m channel priority content = .ok next) : Grows m next := by
  obtain ⟨id,ha⟩ := add_item_steps wire m next channel priority content h
  exact add_grows wire.toCodec m next channel priority content id ha

def HoldsRow (m : Material) (row : Json) : Prop :=
  m.criticalMissing = true ∨ ∃ item ∈ m.created, item.channel = .kip ∧ item.priority = .required ∧
    item.content = (compact true row).1

theorem HoldsRow.grows {m next : Material} {row : Json} (h : HoldsRow m row) (hg : Grows m next) :
    HoldsRow next row := by
  rcases h with hc | ⟨item,hitem,hrow⟩
  · exact Or.inl (hg.critical hc)
  · exact Or.inr ⟨item,hg.created.subset hitem,hrow⟩

theorem add_rows_grows (rows : List Json) (m next : Material) (h : addRows wire rows m = .ok next) :
    Grows m next ∧ ∀ row ∈ rows, isEmptyContent row = false → HoldsRow next row := by
  induction rows generalizing m with
  | nil =>
    cases h
    exact ⟨Grows.refl _,by simp⟩
  | cons row rest ih =>
    rw [addRows] at h
    cases ha : addItem wire m .kip .required row with
    | error e => simp [ha] at h
    | ok mid =>
      simp only [ha] at h
      obtain ⟨hg,hrows⟩ := ih mid h
      obtain ⟨id,hadd⟩ := add_item_steps wire m mid .kip .required row ha
      refine ⟨(add_grows wire.toCodec m mid .kip .required row id hadd).trans hg,?_⟩
      intro r hr hne
      rcases List.mem_cons.mp hr with rfl | hr
      · refine HoldsRow.grows ?_ hg
        rcases add_required wire.toCodec m mid .kip .required r id hadd hne rfl with
          hc | ⟨item,_,hitem,hch,hp,hcontent,_⟩
        · exact Or.inl hc
        · exact Or.inr ⟨item,hitem,hch,hp,hcontent⟩
      · exact hrows r hr hne

theorem read_primer_grows (h : readPrimer wire s m = .ok next) : Grows m next := by
  unfold readPrimer at h
  split at h
  · cases h
    exact ((missing_leaves m).grows).trans (omit_leaves _ _).grows
  · exact add_item_grows wire m next _ _ _ h

theorem read_profile_grows (h : readProfile wire s m = .ok next) : Grows m next := by
  have hmark := (mark_leaves m .counterparty false).grows
  simp only [readProfile] at h
  cases hp : s.profile with
  | some profile =>
    simp only [hp] at h
    exact hmark.trans (add_item_grows wire _ next _ _ _ h)
  | none =>
    simp only [hp, Except.ok.injEq] at h
    subst h
    by_cases hn : s.counterpartyNamed = true
    · rw [if_pos hn]
      exact hmark.trans (omit_leaves _ _).grows
    · rw [if_neg hn]
      exact hmark

def constraintRows : Option (List Json) :=
  match s.constraints with
  | .unavailable => none
  | .answered value => value.bind Json.asArray

def ReadIncomplete : Prop := ∀ rows, constraintRows s = some rows → maxRows < rows.length

theorem read_constraints_grows (h : readConstraints wire s m = .ok next) : Grows
    m next ∧ (ReadIncomplete s → next.criticalMissing = true) ∧ ∀ rows, constraintRows s = some rows
    → ∀ row ∈ rows, isEmptyContent row = false → HoldsRow next row := by
  have hlost := ((missing_leaves m).grows).trans (omit_leaves (missing m) .kip).grows
  unfold readConstraints at h
  cases hr : s.constraints with
  | unavailable =>
    simp only [hr, Except.ok.injEq] at h
    subst h
    refine ⟨hlost,fun _ => rfl,?_⟩
    intro rows hrows
    simp [constraintRows, hr] at hrows
  | answered value =>
    simp only [hr] at h
    have hrows : constraintRows s = value.bind Json.asArray := by simp [constraintRows, hr]
    cases hv : value.bind Json.asArray with
    | none =>
      simp only [hv, Except.ok.injEq] at h
      subst h
      refine ⟨hlost,fun _ => rfl,?_⟩
      intro rows hsome
      rw [hrows, hv] at hsome
      cases hsome
    | some rows =>
      simp only [hv] at h
      have hmark := (mark_leaves m .kip (decide (maxRows < rows.length))).grows
      obtain ⟨hg,hheld⟩ := add_rows_grows wire _ _ next h
      by_cases hfull : maxRows < rows.length
      · rw [if_pos hfull] at hg
        have hcrit : next.criticalMissing = true := hg.critical rfl
        exact ⟨hmark.trans ((missing_leaves _).grows.trans hg),fun _ => hcrit,
          fun _ _ _ _ _ => Or.inl hcrit⟩
      rw [if_neg hfull] at hg
      refine ⟨hmark.trans hg,fun hinc => ?_,?_⟩
      · exact absurd (hinc rows (hrows.trans hv)) hfull
      intro rows' hrows' row hrow hne
      obtain rfl : rows = rows' := Option.some.inj ((hrows.trans hv).symm.trans hrows')
      rw [List.take_of_length_le (by omega)] at hheld
      exact hheld row hrow hne

theorem read_host_grows (h : readHost wire s m = .ok next) : Grows m next ∧
    (ReadIncomplete s → next.criticalMissing = true) ∧ ∀ rows, constraintRows s = some rows → ∀ row
    ∈ rows, isEmptyContent row = false → HoldsRow next row := by
  simp only [readHost] at h
  cases hp : readPrimer wire s m with
  | error e => simp [hp] at h
  | ok primed =>
    simp only [hp] at h
    have hnoted : Grows primed (if s.notes.isSome then primed.markChannel .notes false
        else primed.omitChannel .notes) := by
      by_cases hn : s.notes.isSome = true
      · rw [if_pos hn]
        exact (mark_leaves _ _ _).grows
      · rw [if_neg hn]
        exact (omit_leaves _ _).grows
    generalize (if s.notes.isSome then primed.markChannel .notes false
        else primed.omitChannel .notes) = noted at h hnoted
    cases hc : readProfile wire s noted with
    | error e => simp [hc] at h
    | ok profiled =>
      simp only [hc] at h
      obtain ⟨hg,hrest⟩ := read_constraints_grows wire s _ next h
      have hbefore := (read_primer_grows wire s m primed hp).trans
        (hnoted.trans (read_profile_grows wire s noted profiled hc))
      exact ⟨hbefore.trans ((mark_leaves _ _ _).grows.trans hg),hrest⟩

theorem add_hits_grows (hits : List Json) (m : Material) (next : Material × List String)
    (h : addHits wire hits m = .ok next) : Grows m next.1 := by
  induction hits generalizing m next with
  | nil =>
    cases h
    exact Grows.refl m
  | cons hit rest ih =>
    simp only [addHits] at h
    have hskills : Grows m { m with skills := discoverSkills (hit.index "element") m.skills } :=
      Leaves.grows ⟨rfl,rfl,rfl,rfl,fun h => h⟩
    generalize { m with skills := discoverSkills (hit.index "element") m.skills } = found at h hskills
    cases hh : holding found (hit.index "element") with
    | some item =>
      simp only [hh] at h
      cases hr : addHits wire rest found with
      | error e => simp [hr, Except.map] at h
      | ok r =>
        simp only [hr, Except.map, Except.ok.injEq] at h
        subst h
        exact hskills.trans (ih found r hr)
    | none =>
      simp only [hh] at h
      cases ha : found.add wire.toCodec .kip (programPriority (hit.index "element"))
          (hit.index "element") with
      | error e => simp [ha] at h
      | ok added =>
        simp only [ha] at h
        cases hr : addHits wire rest added.1 with
        | error e => simp [hr, Except.map] at h
        | ok r =>
          simp only [hr, Except.map, Except.ok.injEq] at h
          subst h
          exact hskills.trans ((add_grows wire.toCodec found added.1 _ _ _ added.2 ha).trans
            (ih added.1 r hr))

theorem read_discovery_grows (m : Material) (next : Material × List String)
    (h : readDiscovery wire s m = .ok next) : Grows m next.1 := by
  have hmark := (mark_leaves m .kip true).grows
  simp only [readDiscovery] at h
  generalize m.markChannel .kip true = marked at h hmark
  cases hd : s.discovery with
  | unavailable =>
    simp only [hd] at h
    cases ha : addItem wire (marked.omitChannel .kip) .kip .warning searchUnavailable with
    | error e => simp [ha, Except.map] at h
    | ok added =>
      simp only [ha, Except.map, Except.ok.injEq] at h
      subst h
      exact hmark.trans ((omit_leaves _ _).grows.trans (add_item_grows wire _ added _ _ _ ha))
  | answered value =>
    simp only [hd] at h
    cases hv : (value.map (·.index "hits")).bind Json.asArray with
    | none =>
      simp only [hv, Except.ok.injEq] at h
      subst h
      exact hmark.trans (omit_leaves _ _).grows
    | some hits =>
      simp only [hv] at h
      exact hmark.trans (add_hits_grows wire _ marked next h)

theorem read_narrative_grows (h : readNarrative wire s m = .ok next) : Grows m next := by
  unfold readNarrative at h
  cases hn : s.notes with
  | none =>
    simp only [hn] at h
    exact add_item_grows wire m next _ _ _ h
  | some notes =>
    simp only [hn] at h
    cases ha : addItem wire m .notes .relevant notes with
    | error e => simp [ha] at h
    | ok noted =>
      simp only [ha] at h
      exact (add_item_grows wire m noted _ _ _ ha).trans (add_item_grows wire noted next _ _ _ h)

end Reads

end AndaBrain.RecallPlan
