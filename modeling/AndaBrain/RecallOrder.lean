import AndaBrain.RecallPacket

/-!
# Packing does not depend on the order of its input

The comparator of the items is a total order when their ids are unique, and every channel list
is sorted and without repetitions when it is written, so a packet is a function of the sets of
items, selected ids and reported channels.
-/

set_option autoImplicit false

namespace AndaBrain.RecallOrder
open RecallPack RecallPacket Foundation.SortBy

section Coverage

instance : LinearOrder Channel := LinearOrder.lift' Channel.rank fun a b h => by
  cases a <;> cases b <;> first | rfl | cases h

theorem normalize_strict (xs : List Channel) :
    (normalizeChannels xs).Pairwise fun a b => a < b :=
  dedup_adjacent_strict _ (sort_by_sorted id _ (fun _ _ => decide_eq_true_iff) xs)

theorem normalize_same (xs ys : List Channel) (h : ∀ c, c ∈ xs ↔ c ∈ ys) :
    normalizeChannels xs = normalizeChannels ys := by
  apply strict_ext id _ _ (normalize_strict xs) (normalize_strict ys)
  intro c
  rw [mem_normalize, mem_normalize, h c]

structure Same (c c' : Coverage) : Prop where
  queried : ∀ x, x ∈ c.queried ↔ x ∈ c'.queried
  partials : ∀ x, x ∈ c.partials ↔ x ∈ c'.partials
  omitted : ∀ x, x ∈ c.omitted ↔ x ∈ c'.omitted
  unchecked : ∀ x, x ∈ c.unchecked ↔ x ∈ c'.unchecked

variable (kept : List MemoryItem)

theorem report_same (items : List MemoryItem) (c : Coverage) :
    (items.foldl (reportItem kept) c).queried = c.queried ∧
    (items.foldl (reportItem kept) c).unchecked = c.unchecked := by
  induction items generalizing c with
  | nil => exact ⟨rfl,rfl⟩
  | cons item items ih =>
    rw [List.foldl_cons]
    by_cases hk : item.id ∈ kept.map MemoryItem.id
    · simpa only [reportItem, if_pos hk] using ih c
    · simpa only [reportItem, if_neg hk] using ih _

theorem mem_report_omitted (items : List MemoryItem) (c : Coverage) (x : Channel) : x ∈
    (items.foldl (reportItem kept) c).omitted ↔ x ∈ c.omitted ∨ ∃ i ∈ items, i.id ∉ kept.map
    MemoryItem.id ∧ i.channel = x := by
  induction items generalizing c with
  | nil => simp
  | cons item items ih =>
    rw [List.foldl_cons, ih]
    by_cases hk : item.id ∈ kept.map MemoryItem.id
    · simp only [reportItem, if_pos hk, List.mem_cons]
      grind
    · simp only [reportItem, if_neg hk, List.mem_append, List.mem_cons]
      grind

theorem mem_report_partials (items : List MemoryItem) (c : Coverage) (x : Channel) : x ∈
    (items.foldl (reportItem kept) c).partials ↔ x ∈ c.partials ∨ x ∈ kept.map MemoryItem.channel ∧
    ∃ i ∈ items, i.id ∉ kept.map MemoryItem.id ∧ i.channel = x := by
  induction items generalizing c with
  | nil => simp
  | cons item items ih =>
    rw [List.foldl_cons, ih]
    by_cases hk : item.id ∈ kept.map MemoryItem.id
    · simp only [reportItem, if_pos hk, List.mem_cons]
      grind
    by_cases hc : item.channel ∈ kept.map MemoryItem.channel
    · simp only [reportItem, if_neg hk, if_pos hc, List.mem_append, List.mem_cons]
      grind
    · simp only [reportItem, if_neg hk, if_neg hc, List.mem_cons]
      grind

theorem delivery_same (items items' : List MemoryItem) (c c' : Coverage)
    (hi : ∀ i, i ∈ items ↔ i ∈ items') (hc : Same c c') :
    deliveryCoverage items kept c = deliveryCoverage items' kept c' := by
  have ho : ∀ x, x ∈ (items.foldl (reportItem kept) c).omitted ↔
      x ∈ (items'.foldl (reportItem kept) c').omitted := by
    intro x
    simp only [mem_report_omitted, hc.omitted, hi]
  simp only [deliveryCoverage, normalized, (report_same kept items c).1,
    (report_same kept items c).2, (report_same kept items' c').1, (report_same kept items' c').2]
  rw [normalize_same _ _ hc.queried, normalize_same _ _ hc.unchecked, normalize_same _ _ ho]
  congr 1
  apply normalize_same
  intro x
  simp only [List.mem_append, List.mem_filter, ho, mem_report_partials, hc.partials, hi]

end Coverage

section Packing
variable (codec : Codec) (budget : RecallBudget) {items items' : List MemoryItem}
  {c c' : Coverage} (hi : items.Perm items') (hc : Same c c')

include hi in
theorem ordered_same (utility : Utility) (hn : (items.map MemoryItem.id).Nodup) :
    orderedItems utility items = orderedItems utility items' := by
  have hkeys : ∀ xs : List MemoryItem, (xs.map MemoryItem.id).Nodup →
      (xs.map (sortKey utility)).Nodup := by
    intro xs hx
    apply List.Nodup.of_map (fun k => (ofLex (ofLex k).2).2)
    rw [List.map_map]
    exact hx
  have hn' : (items'.map MemoryItem.id).Nodup := (hi.map MemoryItem.id).nodup_iff.mp hn
  apply strict_ext (sortKey utility)
  · exact sort_by_strict _ _ (item_order_key utility) items (hkeys items hn)
  · exact sort_by_strict _ _ (item_order_key utility) items' (hkeys items' hn')
  · intro i
    rw [(ordered_perm utility items).mem_iff, (ordered_perm utility items').mem_iff, hi.mem_iff]

theorem validated_iff (ids : List String) (xs : List MemoryItem) : validateItemsFrom codec ids xs =
    .ok () ↔ (xs.map MemoryItem.id).Nodup ∧ ∀ i ∈ xs, i.id ≠ "" ∧ i.id ∉ ids ∧ ∃ bytes,
    codec.contentBytes i.content = .ok bytes ∧ bytes ≤ maxItemContentBytes := by
  induction xs generalizing ids with
  | nil => simp [validateItemsFrom]
  | cons item xs ih =>
    by_cases hid : item.id = "" ∨ item.id ∈ ids
    · simp only [validateItemsFrom, if_pos hid, reduceCtorEq, false_iff]
      rintro ⟨-,h⟩
      have hitem := h item List.mem_cons_self
      exact hid.elim hitem.1 hitem.2.1
    cases hb : codec.contentBytes item.content with
    | error e =>
      simp only [validateItemsFrom, if_neg hid, hb, bind, Except.bind, reduceCtorEq, false_iff]
      rintro ⟨-,h⟩
      obtain ⟨bytes,hbytes,-⟩ := (h item List.mem_cons_self).2.2
      rw [hb] at hbytes
      cases hbytes
    | ok bytes =>
      by_cases hbig : maxItemContentBytes < bytes
      · simp only [validateItemsFrom, if_neg hid, hb, bind, Except.bind, if_pos hbig,
          reduceCtorEq, false_iff]
        rintro ⟨-,h⟩
        obtain ⟨n,hn,hle⟩ := (h item List.mem_cons_self).2.2
        rw [hb, Except.ok.injEq] at hn
        omega
      · simp only [validateItemsFrom, if_neg hid, hb, bind, Except.bind, if_neg hbig, ih,
          List.map_cons, List.nodup_cons, List.mem_map, List.mem_cons]
        grind

include hi in
theorem validate_same : validateItems codec items = .ok () ↔ validateItems codec items' = .ok () := by
  have hfrom : validateItemsFrom codec [] items = .ok () ↔
      validateItemsFrom codec [] items' = .ok () := by
    rw [validated_iff, validated_iff, (hi.map MemoryItem.id).nodup_iff]
    simp only [hi.mem_iff]
  unfold validateItems
  rw [hi.length_eq]
  by_cases hlen : maxItems < items'.length
  · rw [if_pos hlen, if_pos hlen]
  · rw [if_neg hlen, if_neg hlen]
    exact hfrom

include hi hc in
theorem serialize_same (kept : List MemoryItem) (insufficient : Bool) : serializePacket codec budget
    items kept c insufficient = serializePacket codec budget items' kept c' insufficient := by
  rw [serializePacket, serializePacket, packetView, packetView,
    delivery_same kept items items' c c' (fun i => hi.mem_iff) hc]

include hi hc in
theorem admit_same (ids ids' : List String) (hs : ∀ id, id ∈ ids ↔ id ∈ ids')
    (rest kept : List MemoryItem) (s : SerializedPacket) : admitItems codec budget items ids c rest
    kept s = admitItems codec budget items' ids' c' rest kept s := by
  have hsel : ∀ id, ids.contains id = ids'.contains id := by
    intro id
    rw [Bool.eq_iff_iff, List.contains_iff_mem, List.contains_iff_mem, hs id]
  induction rest generalizing kept s with
  | nil => rfl
  | cons item rest ih =>
    simp only [admitItems, hsel, serialize_same codec budget hi hc, ih]

include hi hc in
theorem packed_same (utility : Utility) (ids ids' : List String) (hs : ∀ id, id ∈ ids ↔ id ∈ ids')
    (p : SerializedPacket) (h : packRanked codec budget items ids c utility = .ok p) : packRanked
    codec budget items' ids' c' utility = .ok p := by
  have hv := (pack_ranked_steps codec budget items ids c utility p h).1
  have hord := ordered_same hi utility (validate_items_ids codec items hv)
  rw [← h]
  simp only [packRanked, requiredItems, insufficientPacket, hv, (validate_same codec hi).mp hv,
    hord, serialize_same codec budget hi hc, admit_same codec budget hi hc ids ids' hs]

end Packing

/-- Packing is order-independent. Inputs with the same items in another order, the same selected
ids and the same channels in each list are packed into the same packets. -/
theorem pack_ranked_order (codec : Codec) (budget : RecallBudget) (items items' : List MemoryItem)
    (ids ids' : List String) (c c' : Coverage) (utility : Utility) (hi : items.Perm items')
    (hs : ∀ id, id ∈ ids ↔ id ∈ ids') (hc : Same c c') (p : SerializedPacket) : packRanked codec
    budget items ids c utility = .ok p ↔ packRanked codec budget items' ids' c' utility = .ok p :=
    by
  constructor
  · exact packed_same codec budget hi hc utility ids ids' hs p
  · exact packed_same codec budget hi.symm ⟨fun x => (hc.queried x).symm,
      fun x => (hc.partials x).symm,fun x => (hc.omitted x).symm,fun x => (hc.unchecked x).symm⟩
      utility ids' ids (fun id => (hs id).symm) p

theorem pack_ranked_order_related : packRanked characterCodec ⟨tokenizerName,10,64⟩
    relatedItems.reverse ["b","c","b"] ⟨[],[.wiki,.wiki],[],[]⟩ relatedUtility = .ok
    ⟨"boundeda|c",10,false⟩ := by
  apply (pack_ranked_order characterCodec ⟨tokenizerName,10,64⟩ relatedItems relatedItems.reverse
    ["c","b"] ["b","c","b"] ⟨[],[.wiki],[],[]⟩ ⟨[],[.wiki,.wiki],[],[]⟩ relatedUtility
    (List.reverse_perm _).symm (by grind) ⟨by simp,by simp,by simp,by simp⟩ _).mp
  decide +kernel

end AndaBrain.RecallOrder
