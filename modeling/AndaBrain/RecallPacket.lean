import Mathlib.Data.Prod.Lex
import AndaBrain.RecallPack

/-!
# The packet contract

A packed recall either carries no item at all, which happens exactly when the required set alone
does not fit, or it carries the whole required set, besides it only selected items, in the host's
order, and it reports the channel of everything it left out.
-/

set_option autoImplicit false

namespace AndaBrain.RecallPacket
open RecallPack Foundation.SortBy

def signal (utility : Utility) (id : String) : WithBot ℚ :=
  match score utility id with
  | some (.finite v) => (v : WithBot ℚ)
  | _ => ⊥

def Before (utility : Utility) (a b : MemoryItem) : Prop :=
  a.priority.rank < b.priority.rank ∨ a.priority.rank = b.priority.rank ∧
    (signal utility b.id < signal utility a.id ∨
      signal utility b.id = signal utility a.id ∧ a.id < b.id)

def sortKey (utility : Utility) (i : MemoryItem) : ℕ ×ₗ ((WithBot ℚ)ᵒᵈ ×ₗ String) :=
  toLex (i.priority.rank,toLex (OrderDual.toDual (signal utility i.id),i.id))

variable (utility : Utility)

theorem score_finite (id : String) (x : F64)
    (h : score utility id = some x) : ∃ v, x = .finite v := by
  have hp := (Option.filter_eq_some_iff.mp h).2
  cases x with
  | finite v => exact ⟨v,rfl⟩
  | nan => simp [F64.isFinite] at hp
  | negInf => simp [F64.isFinite] at hp
  | posInf => simp [F64.isFinite] at hp

theorem option_cmp_signal (a b : String) : (optionCmp (score utility a) (score utility b)).getD .eq
    = compare (signal utility a) (signal utility b) := by
  cases ha : score utility a with
  | none =>
    cases hb : score utility b with
    | none => simp [signal, ha, hb, optionCmp]
    | some y =>
      obtain ⟨w,rfl⟩ := score_finite utility b y hb
      have hlt : signal utility a < signal utility b := by simp [signal, ha, hb]
      simpa [ha, hb, optionCmp] using (compare_lt_iff_lt.mpr hlt).symm
  | some x =>
    obtain ⟨v,rfl⟩ := score_finite utility a x ha
    cases hb : score utility b with
    | none =>
      have hlt : signal utility b < signal utility a := by simp [signal, ha, hb]
      simpa [ha, hb, optionCmp] using (compare_gt_iff_gt.mpr hlt).symm
    | some y =>
      obtain ⟨w,rfl⟩ := score_finite utility b y hb
      have hcmp : compare (v : WithBot ℚ) (w : WithBot ℚ) = compare v w := by
        rcases lt_trichotomy v w with h | h | h
        · rw [compare_lt_iff_lt.mpr h, compare_lt_iff_lt]
          exact WithBot.coe_lt_coe.mpr h
        · rw [h]
          simp
        · rw [compare_gt_iff_gt.mpr h, compare_gt_iff_gt]
          exact WithBot.coe_lt_coe.mpr h
      simp [signal, ha, hb, optionCmp, F64.partialCmp, hcmp]

theorem item_order_key (a b : MemoryItem) :
    (itemOrder utility a b).isLE = true ↔ sortKey utility a ≤ sortKey utility b := by
  have hid : (compare a.id b.id).isLE = true ↔ a.id ≤ b.id := by
    rw [Ordering.isLE_iff_eq_lt_or_eq_eq, compare_lt_iff_lt, compare_eq_iff_eq, le_iff_lt_or_eq]
  rw [itemOrder, option_cmp_signal, Ordering.isLE_then_iff_or, Ordering.isLE_then_iff_or,
    compare_lt_iff_lt, compare_eq_iff_eq, compare_lt_iff_lt, compare_eq_iff_eq, hid,
    sortKey, sortKey, Prod.Lex.toLex_le_toLex, Prod.Lex.toLex_le_toLex,
    OrderDual.toDual_lt_toDual, OrderDual.toDual_inj, eq_comm (a := signal utility b.id)]

theorem key_before (a b : MemoryItem)
    (h : sortKey utility a < sortKey utility b) : Before utility a b := by
  simp only [sortKey, Prod.Lex.toLex_lt_toLex, OrderDual.toDual_lt_toDual,
    OrderDual.toDual_inj] at h
  rcases h with h | ⟨h,h' | ⟨h',hid⟩⟩
  · exact Or.inl h
  · exact Or.inr ⟨h,Or.inl h'⟩
  · exact Or.inr ⟨h,Or.inr ⟨h'.symm,hid⟩⟩

theorem ordered_perm (items : List MemoryItem) :
    (orderedItems utility items).Perm items := sort_by_perm _ _

theorem ordered_before (items : List MemoryItem) (hn : (items.map MemoryItem.id).Nodup) :
    (orderedItems utility items).Pairwise (Before utility) := by
  have hkeys : (items.map (sortKey utility)).Nodup := by
    apply List.Nodup.of_map (fun k => (ofLex (ofLex k).2).2)
    rw [List.map_map]
    exact hn
  exact (sort_by_strict (sortKey utility) _ (item_order_key utility) items hkeys).imp
    (fun h => key_before utility _ _ h)

theorem mem_normalize (channels : List Channel) (c : Channel) :
    c ∈ normalizeChannels channels ↔ c ∈ channels := by
  rw [normalizeChannels, mem_dedup_adjacent]
  exact (sort_by_perm _ channels).mem_iff

theorem report_keeps_omitted (kept items : List MemoryItem) (c : Coverage) (ch : Channel)
    (h : ch ∈ c.omitted) : ch ∈ (items.foldl (reportItem kept) c).omitted := by
  induction items generalizing c with
  | nil => exact h
  | cons item items ih =>
    apply ih
    unfold reportItem
    split
    · exact h
    · exact List.mem_append_left _ h

theorem report_omits (kept items : List MemoryItem) (c : Coverage) (i : MemoryItem)
    (hi : i ∈ items) (hk : i.id ∉ kept.map MemoryItem.id) :
    i.channel ∈ (items.foldl (reportItem kept) c).omitted := by
  induction items generalizing c with
  | nil => simp at hi
  | cons item items ih =>
    rcases List.mem_cons.mp hi with rfl | hi
    · have hrep : i.channel ∈ (reportItem kept c i).omitted := by
        rw [reportItem, if_neg hk]
        exact List.mem_append_right _ (List.mem_singleton.mpr rfl)
      exact report_keeps_omitted kept items _ _ hrep
    · exact ih _ hi

theorem delivery_omitted (items kept : List MemoryItem) (original : Coverage) (i : MemoryItem)
    (hi : i ∈ items) (hk : i.id ∉ kept.map MemoryItem.id) :
    i.channel ∈ (deliveryCoverage items kept original).omitted :=
  (mem_normalize _ _).mpr (report_omits kept items original i hi hk)

theorem delivery_partials (items kept : List MemoryItem) (original : Coverage) (i j : MemoryItem)
    (hi : i ∈ items) (hk : i.id ∉ kept.map MemoryItem.id) (hj : j ∈ kept)
    (hch : j.channel = i.channel) :
    i.channel ∈ (deliveryCoverage items kept original).partials := by
  apply (mem_normalize _ _).mpr
  apply List.mem_append_right
  rw [List.mem_filter]
  refine ⟨report_omits kept items original i hi hk,?_⟩
  rw [decide_eq_true_eq, ← hch]
  exact List.mem_map_of_mem hj

theorem validated_ids (codec : Codec) (ids : List String) (items : List MemoryItem)
    (h : validateItemsFrom codec ids items = .ok ()) :
    (items.map MemoryItem.id).Nodup ∧ ∀ i ∈ items, i.id ∉ ids := by
  induction items generalizing ids with
  | nil => simp
  | cons item items ih =>
    simp only [validateItemsFrom] at h
    split at h
    · simp at h
    next hid =>
    cases hb : codec.contentBytes item.content with
    | error e =>
      rw [hb] at h
      cases h
    | ok bytes =>
      rw [hb] at h
      simp only [bind, Except.bind] at h
      split at h
      · cases h
      obtain ⟨hn,hd⟩ := ih (item.id::ids) h
      have hnew : ∀ i ∈ items, i.id ≠ item.id := by
        intro i hi heq
        exact hd i hi (by simp [heq])
      constructor
      · rw [List.map_cons, List.nodup_cons]
        refine ⟨?_,hn⟩
        intro hm
        obtain ⟨i,hi,heq⟩ := List.mem_map.mp hm
        exact hnew i hi heq
      · intro i hi hmem
        rcases List.mem_cons.mp hi with rfl | hi
        · exact hid (Or.inr hmem)
        · exact hd i hi (by simp [hmem])

theorem serialize_sound (codec : Codec) (budget : RecallBudget) (items kept : List MemoryItem)
    (coverage : Coverage) (insufficient : Bool) (p : SerializedPacket)
    (h : serializePacket codec budget items kept coverage insufficient = .ok p) : codec.packetText
    (packetView budget items kept coverage insufficient) = .ok p.content ∧ codec.count p.content =
    .ok p.tokens ∧ p.insufficient = insufficient := by
  unfold serializePacket at h
  cases ht : codec.packetText (packetView budget items kept coverage insufficient) with
  | error e =>
    rw [ht] at h
    cases h
  | ok content =>
    rw [ht] at h
    simp only [bind, Except.bind] at h
    cases hc : codec.count content with
    | error e =>
      rw [hc] at h
      cases h
    | ok tokens =>
      rw [hc] at h
      simp only [Except.ok.injEq] at h
      subst h
      exact ⟨rfl,hc,rfl⟩

def NoItems (codec : Codec) (p : SerializedPacket) : Prop :=
  p.content = "null" ∨ ∃ view, codec.packetText view = .ok p.content ∧ view.items = []

theorem insufficient_packet_sound (codec : Codec) (budget : RecallBudget) (items : List MemoryItem)
    (coverage : Coverage) (p : SerializedPacket)
    (h : insufficientPacket codec budget items coverage = .ok p) : codec.count p.content = .ok
    p.tokens ∧ p.tokens ≤ budget.maxTokens ∧ p.insufficient = true ∧ NoItems codec p := by
  unfold insufficientPacket at h
  cases hs : serializePacket codec budget items [] coverage true with
  | error e =>
    rw [hs] at h
    cases h
  | ok packet =>
    rw [hs] at h
    simp only [bind, Except.bind] at h
    split at h
    · next hfit =>
      obtain rfl : packet = p := by simpa using h
      obtain ⟨ht,hc,hi⟩ := serialize_sound _ _ _ _ _ _ _ hs
      exact ⟨hc,hfit,hi,Or.inr ⟨_,ht,rfl⟩⟩
    cases hc : codec.count "null" with
    | error e =>
      rw [hc] at h
      cases h
    | ok tokens =>
      rw [hc] at h
      simp only at h
      split at h
      · cases h
      · next hfit =>
        obtain rfl := Except.ok.inj h
        exact ⟨hc,not_lt.mp hfit,rfl,Or.inl rfl⟩

section Admission
variable (codec : Codec) (budget : RecallBudget) (items : List MemoryItem)
  (selectedIds : List String) (coverage : Coverage)

def Fits (kept : List MemoryItem) (p : SerializedPacket) : Prop :=
  serializePacket codec budget items kept coverage false = .ok p ∧ p.tokens ≤ budget.maxTokens

theorem admit_items_sound (rest kept : List MemoryItem) (s p : SerializedPacket)
    (h : admitItems codec budget items selectedIds coverage rest kept s = .ok p)
    (hs : Fits codec budget items coverage kept s) : ∃ extra, extra.Sublist rest ∧
    (∀ i ∈ extra, isRequired i = false ∧ i.id ∈ selectedIds) ∧ Fits codec budget items coverage
    (kept++extra) p := by
  induction rest generalizing kept s with
  | nil =>
    obtain rfl := Except.ok.inj h
    exact ⟨[],List.Sublist.refl _,by simp,by simpa using hs⟩
  | cons item rest ih =>
    simp only [admitItems] at h
    split at h
    · obtain ⟨extra,hsub,hsel,hfit⟩ := ih kept s h hs
      exact ⟨extra,hsub.cons item,hsel,hfit⟩
    next hskip =>
    have hskip : isRequired item = false ∧ item.id ∈ selectedIds := by
      simpa [not_or] using hskip
    cases hc : serializePacket codec budget items (kept++[item]) coverage false with
    | error e =>
      rw [hc] at h
      cases h
    | ok candidate =>
      rw [hc] at h
      simp only [bind, Except.bind] at h
      split at h
      · next hle =>
        obtain ⟨extra,hsub,hsel,hfit⟩ := ih (kept++[item]) candidate h ⟨hc,hle⟩
        refine ⟨item::extra,hsub.cons_cons item,?_,by simpa using hfit⟩
        intro i hi
        rcases List.mem_cons.mp hi with rfl | hi
        · exact hskip
        · exact hsel i hi
      · obtain ⟨extra,hsub,hsel,hfit⟩ := ih kept s h hs
        exact ⟨extra,hsub.cons item,hsel,hfit⟩

end Admission

structure Delivers (utility : Utility) (items : List MemoryItem) (selectedIds : List String)
    (view : PacketView) : Prop where
  required : ∀ i ∈ items, isRequired i = true → i ∈ view.items
  selected : ∀ i ∈ view.items, i ∈ items ∧ (isRequired i = true ∨ i.id ∈ selectedIds)
  ordered : view.items.Pairwise (Before utility)
  omitted : ∀ i ∈ items, i ∉ view.items → i.channel ∈ view.coverage.omitted
  partials : ∀ i ∈ items, i ∉ view.items → (∃ j ∈ view.items, j.channel = i.channel) →
    i.channel ∈ view.coverage.partials

theorem kept_delivers (budget : RecallBudget) (items : List MemoryItem) (selectedIds : List String)
    (coverage : Coverage) (utility : Utility) (extra : List MemoryItem)
    (hn : (items.map MemoryItem.id).Nodup) (hsub : extra.Sublist (orderedItems utility items))
    (hsel : ∀ i ∈ extra, isRequired i = false ∧ i.id ∈ selectedIds) : Delivers utility items
    selectedIds (packetView budget items (requiredItems utility items++extra) coverage false) := by
  have hmem : ∀ i, i ∈ orderedItems utility items ↔ i ∈ items :=
    fun i => (ordered_perm utility items).mem_iff
  have hkept : ∀ i ∈ requiredItems utility items++extra, i ∈ items := by
    intro i hi
    rcases List.mem_append.mp hi with hi | hi
    · exact (hmem i).mp (List.mem_filter.mp hi).1
    · exact (hmem i).mp (hsub.subset hi)
  have hids : ∀ i ∈ items, i ∉ requiredItems utility items++extra →
      i.id ∉ (requiredItems utility items++extra).map MemoryItem.id := by
    intro i hi hk hm
    obtain ⟨j,hj,hid⟩ := List.mem_map.mp hm
    have : j = i := List.inj_on_of_nodup_map hn (hkept j hj) hi hid
    exact hk (this ▸ hj)
  have hord := ordered_before utility items hn
  constructor
  · intro i hi hr
    exact List.mem_append_left _ (List.mem_filter.mpr ⟨(hmem i).mpr hi,hr⟩)
  · intro i hi
    refine ⟨hkept i hi,?_⟩
    rcases List.mem_append.mp hi with hi | hi
    · exact Or.inl (List.mem_filter.mp hi).2
    · exact Or.inr (hsel i hi).2
  · apply List.pairwise_append.mpr
    refine ⟨hord.sublist List.filter_sublist,hord.sublist hsub,?_⟩
    intro a ha b hb
    have hra : a.priority.rank ≤ Priority.warning.rank := by
      simpa [isRequired] using (List.mem_filter.mp ha).2
    have hrb : Priority.warning.rank < b.priority.rank := by
      simpa [isRequired] using (hsel b hb).1
    exact Or.inl (hra.trans_lt hrb)
  · intro i hi hk
    exact delivery_omitted items _ coverage i hi (hids i hi hk)
  · rintro i hi hk ⟨j,hj,hch⟩
    exact delivery_partials items _ coverage i j hi (hids i hi hk) hj hch

theorem validate_items_ids (codec : Codec) (items : List MemoryItem)
    (h : validateItems codec items = .ok ()) : (items.map MemoryItem.id).Nodup := by
  unfold validateItems at h
  split at h
  · cases h
  · exact (validated_ids codec [] items h).1

theorem pack_ranked_steps (codec : Codec) (budget : RecallBudget) (items : List MemoryItem)
    (selectedIds : List String) (coverage : Coverage) (utility : Utility)
    (p : SerializedPacket)
    (h : packRanked codec budget items selectedIds coverage utility = .ok p) :
    validateItems codec items = .ok () ∧ ∃ base,
      serializePacket codec budget items (requiredItems utility items) coverage false = .ok base ∧
      (if budget.maxTokens < base.tokens then insufficientPacket codec budget items coverage
        else admitItems codec budget items selectedIds coverage (orderedItems utility items)
          (requiredItems utility items) base) = .ok p := by
  unfold packRanked at h
  cases hv : budget.validate with
  | error e =>
    rw [hv] at h
    cases h
  | ok u =>
    rw [hv] at h
    simp only [bind, Except.bind] at h
    cases hi : validateItems codec items with
    | error e =>
      rw [hi] at h
      cases h
    | ok u =>
      rw [hi] at h
      simp only at h
      cases hs : serializePacket codec budget items (requiredItems utility items) coverage false with
      | error e =>
        rw [hs] at h
        cases h
      | ok base =>
        rw [hs] at h
        exact ⟨rfl,base,rfl,h⟩

/-- The recall packet contract. The counted text is the delivered one; the
packet is insufficient exactly when the required set alone does not fit, and
otherwise its view delivers. -/
theorem pack_ranked_contract (codec : Codec) (budget : RecallBudget) (items : List MemoryItem)
    (selectedIds : List String) (coverage : Coverage) (utility : Utility)
    (p : SerializedPacket)
    (h : packRanked codec budget items selectedIds coverage utility = .ok p) :
    codec.count p.content = .ok p.tokens ∧ p.tokens ≤ budget.maxTokens ∧
    ∃ base,
      serializePacket codec budget items (requiredItems utility items) coverage false = .ok base ∧
      (p.insufficient = true ↔ budget.maxTokens < base.tokens) ∧
      (p.insufficient = true → NoItems codec p) ∧
      (p.insufficient = false → ∃ view, codec.packetText view = .ok p.content ∧
        Delivers utility items selectedIds view) := by
  obtain ⟨hv,base,hbase,hrun⟩ := pack_ranked_steps codec budget items selectedIds coverage utility p h
  have hn := validate_items_ids codec items hv
  by_cases hbig : budget.maxTokens < base.tokens
  · rw [if_pos hbig] at hrun
    obtain ⟨hc,hle,hins,hno⟩ := insufficient_packet_sound codec budget items coverage p hrun
    refine ⟨hc,hle,base,hbase,by simp [hins, hbig],fun _ => hno,?_⟩
    intro hfalse
    rw [hins] at hfalse
    cases hfalse
  rw [if_neg hbig] at hrun
  obtain ⟨extra,hsub,hsel,hser,hle⟩ := admit_items_sound codec budget items selectedIds coverage
    _ _ _ p hrun ⟨hbase,not_lt.mp hbig⟩
  obtain ⟨ht,hc,hins⟩ := serialize_sound _ _ _ _ _ _ _ hser
  refine ⟨hc,hle,base,hbase,by simp [hins, hbig],?_,?_⟩
  · intro htrue
    rw [hins] at htrue
    cases htrue
  · intro _
    exact ⟨_,ht,kept_delivers budget items selectedIds coverage utility extra hn hsub hsel⟩

/-- A counter of one token per character over the packet's status and ids. -/
def characterCodec : Codec where
  packetText view := .ok (view.status++"|".intercalate (view.items.map MemoryItem.id))
  contentBytes _ := .ok 4
  count text := .ok text.length

def relatedItems : List MemoryItem :=
  [⟨"b",.wiki,.relevant,.null⟩,⟨"c",.wiki,.relevant,.null⟩,⟨"a",.kip,.required,.null⟩]

def relatedUtility : Utility := fun id => if id = "c" then some (.finite 1) else none

theorem pack_ranked_contract_related : packRanked characterCodec ⟨tokenizerName,10,64⟩ relatedItems
    ["c","b"] ⟨[],[],[],[]⟩ relatedUtility = .ok ⟨"boundeda|c",10,false⟩ ∧ ∃ view,
    characterCodec.packetText view = .ok "boundeda|c" ∧ Delivers relatedUtility relatedItems
    ["c","b"] view := by
  have hrun : packRanked characterCodec ⟨tokenizerName,10,64⟩ relatedItems ["c","b"]
      ⟨[],[],[],[]⟩ relatedUtility = .ok ⟨"boundeda|c",10,false⟩ := by decide +kernel
  obtain ⟨_,_,_,_,_,_,hview⟩ := pack_ranked_contract characterCodec ⟨tokenizerName,10,64⟩
    relatedItems ["c","b"] ⟨[],[],[],[]⟩ relatedUtility ⟨"boundeda|c",10,false⟩ hrun
  exact ⟨hrun,hview rfl⟩

end AndaBrain.RecallPacket
