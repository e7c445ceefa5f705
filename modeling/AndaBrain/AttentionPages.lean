import AndaBrain.AttentionRecall

/-!
# Attention is delivered once

A page takes the next keys behind its cursor, in the order of commit and reference. The keys are
those of whole commits: a full window leaves its last commit to the next page.
-/

set_option autoImplicit false

namespace AndaBrain.AttentionRecall
open Foundation.SortBy

abbrev Key := ℕ ×ₗ String

def keyOf (item : Item) : Key := toLex (item.raisedSeq,item.reference)

def carries (activityClass : String) (i : Input) : Bool :=
  decide (activityClass = "watch_fire" ∧ i.schemaRef = watchSchema) ||
    decide (activityClass = "commitment_review" ∧ i.schemaRef = commitmentSchema)

def Raised (history : List Activity) (k : Key) : Prop :=
  ∃ a ∈ history, ∃ i ∈ a.inputs, carries a.activityClass i = true ∧ k = toLex (a.seq,i.id)

section Lists
variable {α β : Type}

theorem mapM_ok (f : α → Except String β) (as : List α) (bs : List β)
    (h : as.mapM f = .ok bs) : List.Forall₂ (fun a b => f a = .ok b) as bs := by
  induction as generalizing bs with
  | nil =>
    cases h
    exact List.Forall₂.nil
  | cons a as ih =>
    rw [List.mapM_cons] at h
    cases ha : f a with
    | error error =>
      rw [ha] at h
      cases h
    | ok b =>
      rw [ha] at h
      cases has : as.mapM f with
      | error error =>
        rw [has] at h
        cases h
      | ok rest =>
        rw [has] at h
        cases h
        exact List.Forall₂.cons ha (ih rest has)

theorem forall₂_mem {R : α → β → Prop} {as : List α} {bs : List β} (h : List.Forall₂ R as bs) :
    (∀ a ∈ as, ∃ b ∈ bs, R a b) ∧ ∀ b ∈ bs, ∃ a ∈ as, R a b := by
  induction h with
  | nil => simp
  | cons hab _ ih =>
    constructor
    · intro a ha
      rcases List.mem_cons.mp ha with rfl | ha
      · exact ⟨_,List.mem_cons_self,hab⟩
      · obtain ⟨b,hb,hr⟩ := ih.1 a ha
        exact ⟨b,List.mem_cons_of_mem _ hb,hr⟩
    · intro b hb
      rcases List.mem_cons.mp hb with rfl | hb
      · exact ⟨_,List.mem_cons_self,hab⟩
      · obtain ⟨a,ha,hr⟩ := ih.2 b hb
        exact ⟨a,List.mem_cons_of_mem _ ha,hr⟩

theorem strict_ext [LinearOrder α] (as bs : List α) (ha : as.Pairwise (· < ·))
    (hb : bs.Pairwise (· < ·)) (h : ∀ x, x ∈ as ↔ x ∈ bs) : as = bs := by
  have hperm : as.Perm bs :=
    (List.perm_ext_iff_of_nodup (ha.imp ne_of_lt) (hb.imp ne_of_lt)).mpr h
  exact hperm.eq_of_pairwise (fun a b _ _ hab hba => (lt_asymm hab hba).elim) ha hb

end Lists

section Readings
variable {history : List Activity} {call : Call}

theorem raised_item_spec (seq : ℕ) (activityClass : String) (i : Input) (r : Option Item)
    (h : raisedItem call seq activityClass
      (.arr [.str i.id,.str i.schemaRef,call.attributes i.id]) = .ok r) :
    r.map keyOf = if carries activityClass i = true then some (toLex (seq,i.id)) else none := by
  simp only [raisedItem, Json.asArray, List.getElem?_cons_zero, List.getElem?_cons_succ,
    Option.bind_eq_bind, Option.bind_some, Json.asStr] at h
  by_cases hw : activityClass = "watch_fire" ∧ i.schemaRef = watchSchema
  · rw [if_pos hw] at h
    cases ht : call.targets i.id with
    | error error =>
      rw [ht] at h
      cases h
    | ok targets =>
      rw [ht] at h
      cases h
      simp [carries, hw, keyOf]
  · rw [if_neg hw] at h
    by_cases hc : activityClass = "commitment_review" ∧ i.schemaRef = commitmentSchema
    · rw [if_pos hc] at h
      cases h
      simp [carries, hc, keyOf]
    · rw [if_neg hc] at h
      cases h
      simp [carries, hw, hc]

structure Readable (history : List Activity) : Prop where
  distinct : (history.map Activity.id).Nodup
  inputs : ∀ a ∈ history, a.inputs.length ≤ maxReviewTargets

def rowOf (a : Activity) : Row := ⟨a.id,a.seq,a.activityClass⟩

theorem find_activity (ok : Readable history) (a : Activity) (ha : a ∈ history) :
    history.find? (fun b => b.id == a.id) = some a := by
  cases hf : history.find? (fun b => b.id == a.id) with
  | none =>
    have := List.find?_eq_none.mp hf a ha
    simp at this
  | some b =>
    have hid : b.id = a.id := by simpa using List.find?_some hf
    rw [List.inj_on_of_nodup_map ok.distinct (List.mem_of_find?_eq_some hf) ha hid]

theorem raised_items_spec (ok : Readable history) (a : Activity) (ha : a ∈ history)
    (items : List Item) (h : raisedItems history call (rowOf a) = .ok items) (k : Key) : k ∈
    items.map keyOf ↔ ∃ i ∈ a.inputs, carries a.activityClass i = true ∧ k = toLex (a.seq,i.id) :=
    by
  rw [raisedItems, readInputs] at h
  cases hf : call.inputFailure (rowOf a).id with
  | some error =>
    rw [hf] at h
    cases h
  | none =>
    rw [hf] at h
    simp only [rowOf] at h
    rw [find_activity ok a ha] at h
    simp only [Option.elim_some] at h
    have hperm := call.engine.shuffles a.inputs
    rw [List.take_of_length_le (hperm.length_eq ▸ ok.inputs a ha)] at h
    simp only [bind, Except.bind] at h
    cases hm : ((call.engine.inputs a.inputs).map fun i => Json.arr [.str i.id,.str i.schemaRef,
        call.attributes i.id]).mapM (raisedItem call a.seq a.activityClass) with
    | error error =>
      rw [hm] at h
      cases h
    | ok rs =>
      rw [hm] at h
      cases h
      have hall := mapM_ok _ _ _ hm
      rw [List.forall₂_map_left_iff] at hall
      have hmem := forall₂_mem hall
      rw [List.mem_map]
      constructor
      · rintro ⟨item,hitem,rfl⟩
        rw [List.mem_filterMap] at hitem
        obtain ⟨r,hr,hid⟩ := hitem
        obtain ⟨i,hi,hspec⟩ := hmem.2 r hr
        have hkey := raised_item_spec a.seq a.activityClass i r hspec
        rw [show r = some item from hid] at hkey
        by_cases hc : carries a.activityClass i = true
        · rw [if_pos hc] at hkey
          exact ⟨i,hperm.mem_iff.mp hi,hc,Option.some.inj hkey⟩
        · rw [if_neg hc] at hkey
          cases hkey
      · rintro ⟨i,hi,hc,rfl⟩
        obtain ⟨r,hr,hspec⟩ := hmem.1 i (hperm.mem_iff.mpr hi)
        have hkey := raised_item_spec a.seq a.activityClass i r hspec
        rw [if_pos hc] at hkey
        obtain ⟨item,rfl,hitem⟩ := Option.map_eq_some_iff.mp hkey
        exact ⟨item,List.mem_filterMap.mpr ⟨_,hr,rfl⟩,hitem⟩

theorem dedup_after_spec (seq : ℕ) (items : List Item) (last : Option String)
    (hseq : ∀ item ∈ items, item.raisedSeq = seq)
    (hs : items.Pairwise (fun a b => a.reference ≤ b.reference))
    (hl : ∀ l, last = some l → ∀ item ∈ items, l ≤ item.reference) :
    ((dedupAfter last items).map keyOf).Pairwise (· < ·) ∧
    (∀ l, last = some l → ∀ k ∈ (dedupAfter last items).map keyOf, toLex (seq,l) < k) ∧
    ∀ k, (k ∈ (dedupAfter last items).map keyOf ∨ ∃ l, last = some l ∧ k = toLex (seq,l)) ↔
      (k ∈ items.map keyOf ∨ ∃ l, last = some l ∧ k = toLex (seq,l)) := by
  induction items generalizing last with
  | nil => simp [dedupAfter]
  | cons item rest ih =>
    obtain ⟨hfirst,hrest⟩ := List.pairwise_cons.mp hs
    have hkey : keyOf item = toLex (seq,item.reference) := by
      rw [keyOf, hseq item (by simp)]
    have hseq' : ∀ item ∈ rest, item.raisedSeq = seq := fun item hitem => hseq item (by simp [hitem])
    by_cases hsame : last = some item.reference
    · have := ih last hseq' hrest fun l hl' other hother => hl l hl' other (by simp [hother])
      simp only [dedupAfter, if_pos hsame]
      refine ⟨this.1,this.2.1,?_⟩
      intro k
      rw [this.2.2 k, List.map_cons, List.mem_cons, hkey]
      constructor
      · rintro (h | h)
        · exact .inl (.inr h)
        · exact .inr h
      rintro ((h | h) | h)
      · exact .inr ⟨_,hsame,h⟩
      · exact .inl h
      · exact .inr h
    have := ih (some item.reference) hseq' hrest
      fun l hl' other hother => Option.some.inj hl' ▸ hfirst other hother
    simp only [dedupAfter, if_neg hsame, List.map_cons]
    have hafter := this.2.1 item.reference rfl
    refine ⟨?_,?_,?_⟩
    · rw [hkey]
      exact List.pairwise_cons.mpr ⟨hafter,this.1⟩
    · intro l hl' k hk
      have hle := hl l hl' item (by simp)
      have hne : l ≠ item.reference := fun heq => hsame (heq ▸ hl')
      have hlt : toLex (seq,l) < toLex (seq,item.reference) :=
        Prod.Lex.toLex_lt_toLex.mpr (.inr ⟨rfl,lt_of_le_of_ne hle hne⟩)
      rcases List.mem_cons.mp hk with rfl | hk
      · rw [hkey]
        exact hlt
      · exact hlt.trans (hafter k hk)
    intro k
    have hk := this.2.2 k
    simp only [Option.some.injEq, exists_eq_left'] at hk
    simp only [List.mem_cons, hkey]
    constructor
    · rintro ((h | h) | h)
      · exact .inl (.inl h)
      · rcases hk.mp (.inl h) with h | h
        · exact .inl (.inr h)
        · exact .inl (.inl h)
      · exact .inr h
    rintro ((h | h) | h)
    · exact .inl (.inl h)
    · rcases hk.mpr (.inl h) with h | h
      · exact .inl (.inr h)
      · exact .inl (.inl h)
    · exact .inr h

end Readings

section Commits
variable {history : List Activity} {call : Call}

def rowKeys (history : List Activity) (row : Row) : List Key :=
  (((history.find? fun a => a.id == row.id).elim [] Activity.inputs).filter
    (carries row.activityClass)).map fun i => toLex (row.seq,i.id)

def groupKeys (history : List Activity) (group : List Row) : List Key :=
  dedupAdjacent (sortBy (fun a b => decide (a ≤ b)) (group.flatMap (rowKeys history)))

theorem mem_row_keys (ok : Readable history) (a : Activity) (ha : a ∈ history) (k : Key) : k ∈
    rowKeys history (rowOf a) ↔ ∃ i ∈ a.inputs, carries a.activityClass i = true ∧ k = toLex
    (a.seq,i.id) := by
  simp only [rowKeys, rowOf]
  rw [find_activity ok a ha]
  simp only [Option.elim_some, List.mem_map, List.mem_filter]
  constructor
  · rintro ⟨i,⟨hi,hc⟩,rfl⟩
    exact ⟨i,hi,hc,rfl⟩
  · rintro ⟨i,hi,hc,rfl⟩
    exact ⟨i,⟨hi,hc⟩,rfl⟩

theorem mem_group_keys (group : List Row) (k : Key) :
    k ∈ groupKeys history group ↔ ∃ row ∈ group, k ∈ rowKeys history row := by
  rw [groupKeys, mem_dedup_adjacent, (sort_by_perm _ _).mem_iff, List.mem_flatMap]

theorem group_keys_strict (group : List Row) : (groupKeys history group).Pairwise (· < ·) := by
  apply dedup_adjacent_strict
  exact sort_by_sorted id _ (fun a b => by simp) _

def OfCommit (history : List Activity) (seq : ℕ) (group : List Row) : Prop :=
  ∀ row ∈ group, ∃ a ∈ history, row = rowOf a ∧ a.seq = seq

theorem read_commit_spec (ok : Readable history) (seq : ℕ) (group : List Row)
    (hg : OfCommit history seq group) (commit : List Item)
    (h : readCommit history call group = .ok commit) :
    commit.map keyOf = groupKeys history group := by
  rw [readCommit] at h
  cases hm : group.mapM (raisedItems history call) with
  | error error =>
    rw [hm] at h
    cases h
  | ok read =>
    rw [hm] at h
    cases h
    have hmem := forall₂_mem (mapM_ok _ _ _ hm)
    have hseq : ∀ item ∈ read.flatten, item.raisedSeq = seq := by
      intro item hitem
      obtain ⟨items,hitems,hitem⟩ := List.mem_flatten.mp hitem
      obtain ⟨row,hrow,hread⟩ := hmem.2 items hitems
      obtain ⟨a,ha,rfl,rfl⟩ := hg row hrow
      obtain ⟨i,-,-,hk⟩ := (raised_items_spec ok a ha items hread (keyOf item)).mp
        (List.mem_map.mpr ⟨item,hitem,rfl⟩)
      exact (Prod.mk.inj (toLex.injective hk)).1
    have hperm := sort_by_perm (fun a b : Item => decide (a.reference ≤ b.reference)) read.flatten
    have hspec := dedup_after_spec seq
      (sortBy (fun a b : Item => decide (a.reference ≤ b.reference)) read.flatten) none
      (fun item hitem => hseq item (hperm.mem_iff.mp hitem))
      (sort_by_sorted Item.reference _ (fun a b => by simp) _) (fun l hl => by cases hl)
    apply strict_ext _ _ hspec.1 (group_keys_strict group)
    intro k
    have hk := hspec.2.2 k
    simp only [reduceCtorEq, false_and, exists_false, or_false] at hk
    rw [hk, mem_group_keys, (hperm.map keyOf).mem_iff, List.mem_map]
    constructor
    · rintro ⟨item,hitem,rfl⟩
      obtain ⟨items,hitems,hitem⟩ := List.mem_flatten.mp hitem
      obtain ⟨row,hrow,hread⟩ := hmem.2 items hitems
      obtain ⟨a,ha,rfl,rfl⟩ := hg row hrow
      refine ⟨rowOf a,hrow,(mem_row_keys ok a ha _).mpr ?_⟩
      exact (raised_items_spec ok a ha items hread _).mp (List.mem_map.mpr ⟨item,hitem,rfl⟩)
    rintro ⟨row,hrow,hk⟩
    obtain ⟨a,ha,rfl,rfl⟩ := hg row hrow
    obtain ⟨items,hitems,hread⟩ := hmem.1 (rowOf a) hrow
    obtain ⟨item,hitem,rfl⟩ := List.mem_map.mp
      ((raised_items_spec ok a ha items hread k).mpr ((mem_row_keys ok a ha k).mp hk))
    exact ⟨item,List.mem_flatten.mpr ⟨items,hitems,hitem⟩,rfl⟩

theorem push_spec (after : Option Position) (limit : ℕ) (commit items : List Item)
    (hl : items.length ≤ limit) : (push after limit items commit).1.map keyOf = items.map keyOf++
    ((commit.map keyOf).filter (ahead after)).take (limit-items.length) ∧
    (push after limit items commit).2 = decide
    (limit < items.length+((commit.map keyOf).filter (ahead after)).length) := by
  induction commit generalizing items with
  | nil => simp [push, hl]
  | cons item rest ih =>
    have hahead : (after.any fun after => !after.precedes item.raisedSeq item.reference) =
        !ahead after (keyOf item) := by
      cases after <;> simp [ahead, keyOf]
    rw [push, hahead]
    cases ha : ahead after (keyOf item) with
    | false =>
      simp only [Bool.not_false, if_true, List.map_cons, List.filter_cons, ha, Bool.false_eq_true,
        if_false]
      exact ih items hl
    | true =>
      simp only [Bool.not_true, Bool.false_eq_true, if_false, List.map_cons, List.filter_cons, ha,
        if_true]
      by_cases hfull : items.length = limit
      · simp [hfull]
      rw [if_neg hfull]
      obtain ⟨k,hk⟩ : ∃ k, limit-items.length = k+1 := ⟨limit-items.length-1,by omega⟩
      have := ih (items++[item]) (by simp; omega)
      rw [this.1, this.2, hk, List.take_succ_cons]
      simp only [List.map_append, List.map_cons, List.map_nil, List.length_append,
        List.length_cons, List.length_nil, List.append_assoc, List.cons_append, List.nil_append]
      refine ⟨?_,by congr 1; apply propext; omega⟩
      rw [show limit-(items.length+(0+1)) = k by omega]

/-- The page takes the first keys behind the position, over the commits in turn. -/
theorem scan_spec (read : List Row → Except String (List Item)) (after : Option Position)
    (limit : ℕ) (groups : List (List Row))
    (hread : ∀ group ∈ groups, ∀ commit, read group = .ok commit →
      commit.map keyOf = groupKeys history group)
    (items : List Item) (through : Option ℕ) (hl : items.length ≤ limit) (r : Scanned)
    (h : scan read after limit items through groups = .ok r) :
    r.items.map keyOf = items.map keyOf++
      ((groups.flatMap (groupKeys history)).filter (ahead after)).take (limit-items.length) ∧
    (r.more = true ↔
      limit < items.length+((groups.flatMap (groupKeys history)).filter (ahead after)).length) ∧
    (r.more = false → r.through =
      groups.getLast?.elim through fun group => group.head?.map Row.seq) := by
  induction groups generalizing items through with
  | nil =>
    cases h
    simp [hl]
  | cons group groups ih =>
    rw [scan] at h
    cases hcommit : read group with
    | error error =>
      rw [hcommit] at h
      cases h
    | ok commit =>
      rw [hcommit] at h
      simp only at h
      have hkeys := hread group (by simp) commit hcommit
      obtain ⟨hitems,hmore⟩ := push_spec after limit commit items hl
      rw [hkeys] at hitems hmore
      have hlen := congrArg List.length hitems
      simp only [List.length_map, List.length_append, List.length_take] at hlen
      rw [List.flatMap_cons, List.filter_append]
      rcases hpush : push after limit items commit with ⟨pushed,cut⟩
      rw [hpush] at h hitems hmore hlen
      simp only at hitems hmore hlen
      cases cut with
      | true =>
        cases h
        have hlt := of_decide_eq_true hmore.symm
        refine ⟨?_,?_,fun hf => by cases hf⟩
        · rw [hitems, List.take_append_of_le_length (by omega)]
        · simp only [true_iff, List.length_append]
          omega
      | false =>
        have hle := of_decide_eq_false hmore.symm
        have hpushed : pushed.length ≤ limit := by omega
        have := ih (fun group hgroup => hread group (by simp [hgroup])) pushed _ hpushed h
        refine ⟨?_,?_,?_⟩
        · rw [this.1, hitems, List.append_assoc, List.take_append]
          congr 3
          omega
        · rw [this.2.1, List.length_append]
          constructor <;> intro hlt <;> omega
        intro hf
        rw [this.2.2 hf]
        cases groups with
        | nil => rfl
        | cons next groups =>
          rw [List.getLast?_cons_cons, List.getLast?_eq_some_getLast (List.cons_ne_nil next groups)]
          rfl

end Commits

section Groups

theorem grouped_flatten (rows : List Row) : (grouped rows).flatten = rows := by
  induction rows with
  | nil => rfl
  | cons row rows ih =>
    rw [grouped]
    rcases hg : grouped rows with _ | ⟨_ | ⟨next,group⟩,groups⟩
    · rw [hg] at ih
      simpa using ih
    · rw [hg] at ih
      simpa using ih
    rw [hg] at ih
    by_cases hsame : row.seq = next.seq
    · simp only [if_pos hsame]
      simpa using ih
    · simp only [if_neg hsame]
      simpa using ih

/-- The groups of sorted rows: none is empty, each has one coordinate, and they rise. -/
theorem grouped_spec (rows : List Row) (hs : rows.Pairwise (fun a b => a.seq ≤ b.seq)) :
    (∀ group ∈ grouped rows, group ≠ [] ∧ ∀ a ∈ group, ∀ b ∈ group, a.seq = b.seq) ∧
    (grouped rows).Pairwise (fun g g' => ∀ a ∈ g, ∀ b ∈ g', a.seq < b.seq) := by
  induction rows with
  | nil => simp [grouped]
  | cons row rows ih =>
    obtain ⟨hfirst,hrest⟩ := List.pairwise_cons.mp hs
    obtain ⟨heach,hrise⟩ := ih hrest
    have hflat := grouped_flatten rows
    rw [grouped]
    rcases hg : grouped rows with _ | ⟨_ | ⟨next,group⟩,groups⟩
    · simp
    · rw [hg] at heach
      exact absurd rfl (heach [] (by simp)).1
    rw [hg] at heach hrise hflat
    have hmem : ∀ g ∈ (next::group)::groups, ∀ b ∈ g, row.seq ≤ b.seq := by
      intro g hgm b hb
      apply hfirst b
      rw [← hflat]
      exact List.mem_flatten.mpr ⟨g,hgm,hb⟩
    have hnext := (heach (next::group) (by simp)).2
    obtain ⟨hrise1,hrise2⟩ := List.pairwise_cons.mp hrise
    by_cases hsame : row.seq = next.seq
    · simp only [if_pos hsame]
      constructor
      · intro g hgm
        rcases List.mem_cons.mp hgm with rfl | hgm
        · refine ⟨by simp,?_⟩
          have hall : ∀ b ∈ row::next::group, b.seq = next.seq := by
            intro b hb
            rcases List.mem_cons.mp hb with rfl | hb
            · exact hsame
            · exact hnext b hb next (by simp)
          intro a ha b hb
          rw [hall a ha, hall b hb]
        · exact heach g (by simp [hgm])
      · apply List.pairwise_cons.mpr
        refine ⟨?_,hrise2⟩
        intro g hgm a ha b hb
        rcases List.mem_cons.mp ha with rfl | ha
        · exact hsame ▸ hrise1 g hgm next (by simp) b hb
        · exact hrise1 g hgm a ha b hb
    simp only [if_neg hsame]
    have hlt : row.seq < next.seq :=
      lt_of_le_of_ne (hmem (next::group) (by simp) next (by simp)) hsame
    constructor
    · intro g hgm
      rcases List.mem_cons.mp hgm with rfl | hgm
      · simp
      · exact heach g hgm
    apply List.pairwise_cons.mpr
    refine ⟨?_,hrise⟩
    intro g hgm a ha b hb
    rw [List.mem_singleton.mp ha]
    rcases List.mem_cons.mp hgm with rfl | hgm
    · exact hlt.trans_eq (hnext next (by simp) b hb)
    · exact hlt.trans (hrise1 g hgm next (by simp) b hb)

end Groups

section Window
variable {history : List Activity} {call : Call} {start : ℕ}

def Bounded (history : List Activity) : Prop :=
  ∀ seq, (history.filter fun a => raises a && a.seq == seq).length ≤ activityWindow

/-- The raising Activities from a coordinate on, as the engine arranges them. -/
def arranged (history : List Activity) (call : Call) (start : ℕ) : List Activity :=
  call.engine.activities (history.filter fun a => raises a && decide (start ≤ a.seq))

def windowRows (history : List Activity) (call : Call) (start : ℕ) : List Row :=
  ((arranged history call start).take activityWindow).map rowOf

theorem mem_arranged (a : Activity) : a ∈ arranged history call start ↔
    a ∈ history ∧ raises a = true ∧ start ≤ a.seq := by
  rw [arranged, (call.engine.arranges _).perm.mem_iff]
  simp

theorem read_render (a : Activity) : readRow (renderRow a) = some (rowOf a) := by
  simp [readRow, renderRow, rowOf, Json.asArray, Json.asStr, Json.asU64]

theorem read_rows (rows : List Activity) : (rows.map renderRow).filterMap readRow = rows.map rowOf := by
  induction rows with
  | nil => rfl
  | cons a rows ih => simp [read_render, ih]

theorem whole_sublist (rows : List Row) : (whole rows).Sublist rows := by
  rw [whole]
  split
  · split
    · exact List.filter_sublist
    · exact List.Sublist.refl _
  · exact List.Sublist.refl _

/-- A commit that is in the window in part and not dropped is there as a whole. -/
theorem whole_closed (hb : Bounded history) (a : Activity) (ha : a ∈ arranged history call start)
    (row : Row) (hrow : row ∈ whole (windowRows history call start)) (hle : a.seq ≤ row.seq) :
    rowOf a ∈ whole (windowRows history call start) := by
  have hsorted : (arranged history call start).Pairwise (fun a b => a.seq ≤ b.seq) :=
    (call.engine.arranges _).sorted
  rw [← List.take_append_drop activityWindow (arranged history call start)] at hsorted ha
  obtain ⟨hs,-,hcross⟩ := List.pairwise_append.mp hsorted
  have hin : a ∈ (arranged history call start).take activityWindow →
      rowOf a ∈ windowRows history call start := fun h => List.mem_map.mpr ⟨a,h,rfl⟩
  have hrow' : row ∈ windowRows history call start := (whole_sublist _).subset hrow
  obtain ⟨b,hb',rfl⟩ := List.mem_map.mp hrow'
  have hne : (arranged history call start).take activityWindow ≠ [] := List.ne_nil_of_mem hb'
  obtain ⟨first,rest,hfirst⟩ := List.exists_cons_of_ne_nil hne
  have hlast := List.getLast?_eq_some_getLast hne
  generalize ((arranged history call start).take activityWindow).getLast hne = last at hlast
  have hhead : (windowRows history call start).head? = some (rowOf first) := by
    rw [windowRows, hfirst]
    rfl
  have hend : (windowRows history call start).getLast? = some (rowOf last) := by
    rw [windowRows, List.getLast?_map, hlast]
    rfl
  have hupper : ∀ c ∈ (arranged history call start).take activityWindow, c.seq ≤ last.seq := by
    obtain ⟨init,hinit⟩ := List.getLast?_eq_some_iff.mp hlast
    intro c hc
    rw [hinit] at hc hs
    rcases List.mem_append.mp hc with hc | hc
    · exact (List.pairwise_append.mp hs).2.2 c hc last (by simp)
    · rw [List.mem_singleton.mp hc]
  have hlastmem := List.mem_of_getLast? hlast
  have hdrop : ∀ c ∈ (arranged history call start).drop activityWindow, last.seq ≤ c.seq :=
    fun c hc => hcross last hlastmem c hc
  rw [whole, hhead, hend] at hrow ⊢
  change a.seq ≤ b.seq at hle
  simp only at hrow ⊢
  by_cases hcut : activityWindow ≤ (windowRows history call start).length ∧
      (rowOf first).seq ≠ (rowOf last).seq
  · -- The last commit is dropped, the others end before it.
    rw [if_pos hcut] at hrow ⊢
    rw [List.mem_filter, bne_iff_ne] at hrow ⊢
    have hlt : a.seq < last.seq := hle.trans_lt (lt_of_le_of_ne (hupper b hb') hrow.2)
    refine ⟨hin ?_,hlt.ne⟩
    rcases List.mem_append.mp ha with ha | ha
    · exact ha
    · exact absurd (hdrop a ha) (not_le.mpr hlt)
  rw [if_neg hcut] at hrow ⊢
  apply hin
  rcases List.mem_append.mp ha with ha | ha
  · exact ha
  exfalso
  -- Behind a full window of one commit there would be one Activity too many of it.
  have hlong : activityWindow < (arranged history call start).length := by
    have := List.length_pos_of_mem ha
    rw [List.length_drop] at this
    omega
  have hfull : activityWindow ≤ (windowRows history call start).length := by
    rw [windowRows, List.length_map, List.length_take]
    omega
  have hsame : first.seq = last.seq := by
    by_contra hneq
    exact hcut ⟨hfull,hneq⟩
  have hall : ∀ c ∈ (arranged history call start).take activityWindow, c.seq = last.seq := by
    intro c hc
    apply le_antisymm (hupper c hc)
    rw [← hsame]
    rw [hfirst] at hc hs
    rcases List.mem_cons.mp hc with rfl | hc
    · exact le_refl _
    · exact (List.pairwise_cons.mp hs).1 c hc
  have haseq : a.seq = last.seq := le_antisymm (hle.trans (hupper b hb')) (hdrop a ha)
  have hcount : activityWindow+1 ≤
      ((arranged history call start).filter fun c => c.seq == last.seq).length := by
    rw [← List.take_append_drop activityWindow (arranged history call start),
      List.filter_append, List.length_append]
    have htake : ((arranged history call start).take activityWindow).filter
        (fun c => c.seq == last.seq) = (arranged history call start).take activityWindow :=
      List.filter_eq_self.mpr fun c hc => by simpa using hall c hc
    have hrest : 0 < (((arranged history call start).drop activityWindow).filter
        fun c => c.seq == last.seq).length :=
      List.length_pos_of_mem (List.mem_filter.mpr ⟨ha,by simpa using haseq⟩)
    rw [htake, List.length_take]
    omega
  have hsub : ((arranged history call start).filter fun c => c.seq == last.seq).length ≤
      (history.filter fun c => raises c && c.seq == last.seq).length := by
    have hperm := ((call.engine.arranges (history.filter fun a => raises a &&
      decide (start ≤ a.seq))).perm.filter fun c => c.seq == last.seq).length_eq
    rw [arranged, hperm, List.filter_filter]
    apply List.Sublist.length_le
    apply List.monotone_filter_right
    intro c hc
    simp only [Bool.and_eq_true] at hc ⊢
    exact ⟨hc.2.1,hc.1⟩
  have := hb last.seq
  omega

theorem whole_nonempty (h : windowRows history call start ≠ []) :
    whole (windowRows history call start) ≠ [] := by
  obtain ⟨first,rest,hfirst⟩ := List.exists_cons_of_ne_nil h
  rw [whole, hfirst, List.getLast?_eq_some_getLast (List.cons_ne_nil first rest)]
  simp only [List.head?_cons]
  split
  · rename_i hcut
    intro hnil
    have := List.filter_eq_nil_iff.mp hnil first (by simp)
    simp only [bne_iff_ne, ne_eq, not_not] at this
    exact hcut.2 this
  · exact List.cons_ne_nil _ _

theorem short_window (h : (windowRows history call start).length < activityWindow) (a : Activity)
    (ha : a ∈ arranged history call start) : rowOf a ∈ whole (windowRows history call start) := by
  have hwhole : whole (windowRows history call start) = windowRows history call start := by
    rw [whole]
    split
    · rw [if_neg (fun hcut => absurd hcut.1 (not_le.mpr h))]
    · rfl
  rw [hwhole, windowRows]
  rw [windowRows, List.length_map, List.length_take] at h
  rw [List.take_of_length_le (by omega)]
  exact List.mem_map.mpr ⟨a,ha,rfl⟩

end Window

end AndaBrain.AttentionRecall
