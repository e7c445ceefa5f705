import AndaBrain.RecallPacket
import AndaBrain.RecallTurns

/-!
# Constraints and warnings of a Recall

A budgeted Recall delivers every constraint and warning it met or no item at all. The final
check of a Skill takes the place of what the model's own check of it had answered.
-/

set_option autoImplicit false

namespace AndaBrain.RecallPlan
open RecallPack RecallPacket

/-! ## After the turns -/

section Run
variable (wire : Wire) (s : Session) (limits : RecallBudget)

variable (m : Material)

theorem drop_narrative_grows (channel : Channel) : Grows m (dropNarrative m channel) := by
  have hfilter : Kept m → Kept { m with
      items := m.items.filter fun item => decide (item.channel ≠ channel) || isRequired item } := by
    intro hk
    refine ⟨hk.numbered,hk.distinct,List.filter_sublist.trans hk.within,?_,hk.checked⟩
    intro item hitem hr
    exact List.mem_filter.mpr ⟨hk.held item hitem hr,by simp [hr]⟩
  simp only [dropNarrative]
  split_ifs
  · exact ⟨fun hk => ((omit_leaves _ _).grows).kept (hfilter hk),List.prefix_rfl,fun h => h⟩
  · exact ⟨hfilter,List.prefix_rfl,fun h => h⟩

theorem fall_back_grows (p next : Planning) (ht : Stands p) (h : fallBack wire p = .ok next) :
    Grows p.material next.material ∧ next.sent = p.sent ∧ next.calls = p.calls := by
  simp only [fallBack] at h
  by_cases hex : p.material.failure = some contextExhausted ∧ p.material.criticalMissing = false
  · rw [if_pos hex] at h
    have hrestored : Grows p.material (restored p) := by
      unfold restored
      split
      · rename_i items coverage hf
        have hback := ht.fallback items coverage hf
        exact ⟨fun _ => ⟨hback.numbered,hback.distinct,hback.within,hback.held,hback.checked⟩,
          List.prefix_rfl,fun h => h⟩
      · exact Grows.refl _
    cases ha : addItem wire (dropNarrative (dropNarrative (restored p) .notes) .history) .primer
        .warning partialNotice with
    | error e => simp [ha] at h
    | ok added =>
      simp only [ha, Except.ok.injEq] at h
      subst h
      have hlast : Grows added { added.markChannel .kip true with failure := none } :=
        Leaves.grows ⟨rfl,rfl,rfl,rfl,fun h => h⟩
      exact ⟨hrestored.trans ((drop_narrative_grows _ _).trans ((drop_narrative_grows _ _).trans
        ((add_item_grows wire _ added _ _ _ ha).trans hlast))),rfl,rfl⟩
  · rw [if_neg hex] at h
    cases h
    exact ⟨Grows.refl _,rfl,rfl⟩

theorem conclude_grows (p : Planning) : Grows p.material (conclude p).material :=
  Leaves.grows ⟨rfl,rfl,rfl,rfl,fun h => h⟩

/-! ## Final checks -/

theorem insert_field_ne_nil (fields : Fields) (key : String) (value : Json) :
    insertField fields key value ≠ [] := by
  unfold insertField
  split_ifs with h
  · intro hnil
    rw [List.map_eq_nil_iff] at hnil
    simp [hnil] at h
  · simp

theorem set_warning_content (value content : Json) (warning : String)
    (h : setWarning value warning = .ok content) : isEmptyContent content = false := by
  have hset : ∀ value key member content, setIndex value key member = .ok content →
      ∃ fields, content = .obj fields ∧ fields ≠ [] := by
    intro value key member content h
    unfold setIndex at h
    split at h
    · cases h
      exact ⟨_,rfl,insert_field_ne_nil _ _ _⟩
    · cases h
      exact ⟨_,rfl,by simp⟩
    · cases h
  unfold setWarning at h
  cases hd : setIndex value "recommendation_allowed" (.bool false) with
  | error e => simp [hd] at h
  | ok denied =>
    simp only [hd] at h
    obtain ⟨fields,rfl,hne⟩ := hset _ _ _ _ h
    cases fields with
    | nil => exact absurd rfl hne
    | cons f rest => rfl

theorem checked_content_critical (i : ℕ) (skill : String) (content : Json) (priority : Priority)
    (h : checkedContent s i skill = .ok (content,priority)) :
    isEmptyContent content = false ∧ isCritical priority = true := by
  unfold checkedContent at h
  split at h
  · rename_i value hcheck
    by_cases hok : (isTrue (value.index "recommendation_allowed") &&
        isCurrent value (s.checkedAt i).1 (s.checkedAt i).2) = true
    · simp only [if_pos hok, Except.ok.injEq, Prod.mk.injEq] at h
      obtain ⟨rfl,rfl⟩ := h
      refine ⟨?_,rfl⟩
      rw [Bool.and_eq_true] at hok
      cases value with
      | obj fields =>
        cases fields with
        | nil => simp [Json.index, Json.get, Json.asObject, isTrue] at hok
        | cons f rest => rfl
      | arr items => simp [Json.index, Json.get, Json.asObject, isTrue] at hok
      | null => simp [Json.index, Json.get, Json.asObject, isTrue] at hok
      | _ => rfl
    · rw [if_neg hok] at h
      cases hw : setWarning value notEstablished with
      | error e => simp [hw, Except.map] at h
      | ok warned =>
        simp only [hw, Except.map, Except.ok.injEq, Prod.mk.injEq] at h
        obtain ⟨rfl,rfl⟩ := h
        exact ⟨set_warning_content value warned notEstablished hw,rfl⟩
  · cases h
    exact ⟨rfl,rfl⟩

structure Checked (m next : Material) (skills : List String)
    (checks : List (String × Option String)) : Prop where
  created : m.created <+: next.created
  critical : m.criticalMissing = true → next.criticalMissing = true
  items : ∀ item ∈ m.items, item ∈ next.items
  fresh : ∀ item ∈ next.created, item ∈ m.created ∨ item ∈ next.items
  skills : checks.map Prod.fst = skills
  held : next.criticalMissing = true ∨ ∀ check ∈ checks, ∃ item ∈ next.items,
    check.2 = some item.id ∧ item.channel = .procedures ∧ isRequired item = true

theorem add_items (codec : Codec) (m next : Material) (channel : Channel) (priority : Priority)
    (content : Json) (id : Option String) (h : m.add codec channel priority content = .ok (next,id))
    : (∀ item ∈ m.items, item ∈ next.items) ∧ ∀ item ∈ next.created, item ∈ m.created ∨ item ∈
    next.items := by
  rcases add_cases codec m next channel priority content id h with
    ⟨_,hl,_⟩ | ⟨base,hl,_,⟨rfl,_⟩ | ⟨rfl,_⟩⟩
  · exact ⟨fun item hi => hl.items ▸ hi,fun item hi => Or.inl (hl.created ▸ hi)⟩
  · exact ⟨fun item hi => hl.items ▸ hi,fun item hi => Or.inl (hl.created ▸ hi)⟩
  refine ⟨fun item hi => List.mem_append_left _ (hl.items ▸ hi),?_⟩
  intro item hi
  rcases List.mem_append.mp hi with hi | hi
  · exact Or.inl (hl.created ▸ hi)
  · exact Or.inr (List.mem_append_right _ hi)

theorem run_checks_checked (skills : List String) (i : ℕ) (m : Material)
    (result : Material × List (String × Option String))
    (h : runChecks wire s i skills m = .ok result) : Checked m result.1 skills result.2 := by
  induction skills generalizing i m result with
  | nil =>
    cases h
    exact ⟨List.prefix_rfl,fun h => h,fun _ hi => hi,fun _ hi => Or.inl hi,rfl,Or.inr (by simp)⟩
  | cons skill rest ih =>
    rw [runChecks] at h
    cases hc : checkedContent s i skill with
    | error e => simp [hc] at h
    | ok checked =>
      obtain ⟨content,priority⟩ := checked
      simp only [hc] at h
      obtain ⟨hne,hcrit⟩ := checked_content_critical s i skill content priority hc
      cases ha : m.add wire.toCodec .procedures priority content with
      | error e => simp [ha] at h
      | ok added =>
        obtain ⟨mid,id⟩ := added
        simp only [ha] at h
        cases hr : runChecks wire s (i + 1) rest mid with
        | error e => simp [hr, Except.map] at h
        | ok last =>
          simp only [hr, Except.map, Except.ok.injEq] at h
          subst h
          have hg := add_grows wire.toCodec m mid _ _ _ id ha
          obtain ⟨hitems,hfresh⟩ := add_items wire.toCodec m mid _ _ _ id ha
          have hrest := ih (i + 1) mid last hr
          refine ⟨hg.created.trans hrest.created,fun h => hrest.critical (hg.critical h),
            fun item hi => hrest.items item (hitems item hi),?_,by simp [hrest.skills],?_⟩
          · intro item hi
            rcases hrest.fresh item hi with hi | hi
            · exact (hfresh item hi).imp (fun h => h) (hrest.items item)
            · exact Or.inr hi
          rcases add_required wire.toCodec m mid _ _ _ id ha hne hcrit with
            hlost | ⟨item,hitem,_,hch,hp,_,hid⟩
          · exact Or.inl (hrest.critical hlost)
          rcases hrest.held with hlost | hheld
          · exact Or.inl hlost
          refine Or.inr fun check hcheck => ?_
          rcases List.mem_cons.mp hcheck with rfl | hcheck
          · exact ⟨item,hrest.items item hitem,hid,hch,by rw [← critical_required, hp, hcrit]⟩
          · exact hheld check hcheck

structure Settled (m next : Material) (checks : List (String × Option String)) : Prop where
  created : m.created <+: next.created
  critical : m.criticalMissing = true → next.criticalMissing = true
  few : checks.length ≤ 8
  held : next.criticalMissing = true ∨
    (∀ item ∈ next.created, isRequired item = true → item ∈ next.items ∨
      ∃ skill, (item.id,skill) ∈ m.procedures ∧ skill ∈ checks.map Prod.fst) ∧
    ∀ check ∈ checks, ∃ item ∈ next.items,
      check.2 = some item.id ∧ item.channel = .procedures ∧ isRequired item = true

theorem mem_insert_skill (id skill : String) (skills : List String) :
    skill ∈ insertSkill id skills ↔ skill = id ∨ skill ∈ skills := by
  unfold insertSkill
  split_ifs with h
  · constructor
    · exact Or.inr
    · rintro (rfl | hs)
      · exact h
      · exact hs
  · rw [List.mem_orderedInsert]

theorem mem_skills_to_check (skill : String) :
    skill ∈ skillsToCheck m ↔ skill ∈ m.skills ∨ skill ∈ m.procedures.map Prod.snd := by
  have hfold (found skills : List String) :
      skill ∈ found.foldl (fun skills skill => insertSkill skill skills) skills ↔
        skill ∈ skills ∨ skill ∈ found := by
    induction found generalizing skills with
    | nil => simp
    | cons id rest ih =>
      rw [List.foldl_cons, ih, mem_insert_skill, List.mem_cons]
      tauto
  exact hfold _ _

theorem refresh_settled (result : Material × List (String × Option String))
    (hk : Kept m) (h : refresh wire s m = .ok result) : Settled m result.1 result.2 := by
  unfold refresh at h
  by_cases hnone : checkName ∉ s.names
  · rw [if_pos hnone] at h
    cases h
    exact ⟨List.prefix_rfl,fun h => h,by simp,
      Or.inr ⟨fun item hi hr => Or.inl (hk.held item hi hr),by simp⟩⟩
  rw [if_neg hnone] at h
  by_cases hmany : 8 < (skillsToCheck m).length
  · rw [if_pos hmany] at h
    cases h
    exact ⟨List.prefix_rfl,fun _ => rfl,by simp,Or.inl rfl⟩
  rw [if_neg hmany] at h
  have hchecked := run_checks_checked wire s _ 0 _ result h
  have hlen : result.2.length ≤ 8 := by
    have := congrArg List.length hchecked.skills
    rw [List.length_map] at this
    omega
  refine ⟨hchecked.created,hchecked.critical,hlen,?_⟩
  rcases hchecked.held with hlost | hheld
  · exact Or.inl hlost
  refine Or.inr ⟨?_,hheld⟩
  intro item hi hr
  rcases hchecked.fresh item hi with hold | hnew
  · by_cases hp : item.id ∈ m.procedures.map Prod.fst
    · obtain ⟨⟨id,skill⟩,hentry,hid⟩ := List.mem_map.mp hp
      obtain rfl : id = item.id := hid
      refine Or.inr ⟨skill,hentry,?_⟩
      rw [hchecked.skills, mem_skills_to_check]
      exact Or.inr (List.mem_map.mpr ⟨_,hentry,rfl⟩)
    · refine Or.inl (hchecked.items item ?_)
      exact List.mem_filter.mpr ⟨hk.held item hold hr,by simpa using hp⟩
  · exact Or.inl hnew

/-! ## Packing -/

structure Aged (item aged : MemoryItem) : Prop where
  id : aged.id = item.id
  channel : aged.channel = item.channel
  required : isRequired item = true → isRequired aged = true
  same : item.channel ≠ .procedures → aged = item

theorem Aged.trans {a b c : MemoryItem} (h : Aged a b) (h' : Aged b c) : Aged a c :=
  ⟨h'.id.trans h.id,h'.channel.trans h.channel,fun hr => h'.required (h.required hr),
    fun hc => (h'.same (fun hb => hc (h.channel.symm.trans hb))).trans (h.same hc)⟩

theorem expire_one_aged (pass index : ℕ) (all : Bool) (item : MemoryItem) :
    Aged item (expireOne s pass index all item).1 := by
  unfold expireOne
  split_ifs with h
  · split
    · exact ⟨rfl,rfl,fun _ => rfl,fun hc => absurd h.1 hc⟩
    · exact ⟨rfl,rfl,fun h => h,fun _ => rfl⟩
  · exact ⟨rfl,rfl,fun h => h,fun _ => rfl⟩

theorem expire_aged (pass : ℕ) (all : Bool) (items : List MemoryItem) (item : MemoryItem)
    (h : item ∈ items) : ∃ aged ∈ (expire s pass all items).1, Aged item aged := by
  obtain ⟨i,hi,rfl⟩ := List.mem_iff_getElem.mp h
  exact ⟨_,List.mem_mapIdx.mpr ⟨i,hi,rfl⟩,expire_one_aged s pass i all _⟩

def NoMemory (content : String) : Prop :=
  content = "null" ∨ ∃ view : PacketView, view.items = [] ∧
    (wire.packetText view = .ok content ∨ ∃ reason, wire.reasonText view reason = .ok content)

def Contains (view : PacketView) (item : MemoryItem) : Prop :=
  ∃ held ∈ view.items, Aged item held

structure Packs (m : Material) (failed : Bool) (packet : SerializedPacket) : Prop where
  counted : wire.count packet.content = .ok packet.tokens
  fits : packet.tokens ≤ limits.maxTokens
  failed : failed = true ∨ m.criticalMissing = true → packet.insufficient = true
  empty : packet.insufficient = true → NoItems wire.toCodec packet
  full : packet.insufficient = false → ∃ view, wire.packetText view = .ok packet.content ∧
    ∀ item ∈ m.items, isRequired item = true → Contains view item

theorem packed_packs (items : List MemoryItem) (selected : List String)
    (coverage : Coverage) (utility : Utility) (packet : SerializedPacket)
    (haged : ∀ item ∈ m.items, ∃ aged ∈ items, Aged item aged) (hok : m.criticalMissing = false)
    (h : packRanked wire.toCodec limits items selected coverage utility = .ok packet) : Packs wire
    limits m false packet := by
  obtain ⟨hc,hle,_,_,_,hempty,hfull⟩ :=
    pack_ranked_contract wire.toCodec limits items selected coverage utility packet h
  refine ⟨hc,hle,?_,hempty,?_⟩
  · rintro (hf | hcrit)
    · cases hf
    · rw [hok] at hcrit
      cases hcrit
  intro hins
  obtain ⟨view,htext,hdel⟩ := hfull hins
  refine ⟨view,htext,?_⟩
  intro item hitem hr
  obtain ⟨aged,hin,ha⟩ := haged item hitem
  exact ⟨aged,hdel.required aged hin (ha.required hr),ha⟩

theorem pack_items_packs (selected : List String) (failed : Bool)
    (result : SerializedPacket × List MemoryItem)
    (h : packItems wire s limits m selected failed = .ok result) :
    Packs wire limits m failed result.1 := by
  have hfirst := fun item hi => expire_aged s 0 false m.items item hi
  simp only [packItems] at h
  by_cases hlost : (failed || m.criticalMissing) = true
  · rw [if_pos hlost] at h
    cases hv : limits.validate with
    | error e => simp [insufficient, hv, bind, Except.bind, Except.map] at h
    | ok u =>
      cases hi : insufficientPacket wire.toCodec limits [] m.reported with
      | error e => simp [insufficient, hv, hi, bind, Except.bind, Except.map] at h
      | ok packet =>
        simp only [insufficient, hv, hi, bind, Except.bind, Except.map, Except.ok.injEq] at h
        subst h
        obtain ⟨hc,hle,hins,hno⟩ :=
          insufficient_packet_sound wire.toCodec limits [] m.reported packet hi
        exact ⟨hc,hle,fun _ => hins,fun _ => hno,fun hfalse => by simp [hins] at hfalse⟩
  rw [if_neg hlost] at h
  have hlost' : failed = false ∧ m.criticalMissing = false := by simpa using hlost
  obtain ⟨rfl,hok⟩ := hlost'
  cases hp : packRanked wire.toCodec limits (expire s 0 false m.items).1 selected m.reported
      (s.utility (expire s 0 false m.items).1) with
  | error e => simp [hp] at h
  | ok packet =>
    simp only [hp] at h
    split_ifs at h with hchanged
    · cases hp3 : packRanked wire.toCodec limits
        (expire s 2 true (expire s 1 false (expire s 0 false m.items).1).1).1 selected m.reported
        (s.utility (expire s 0 false m.items).1) with
      | error e => simp [hp3, Except.map] at h
      | ok third =>
        simp only [hp3, Except.map, Except.ok.injEq] at h
        subst h
        refine packed_packs wire limits m _ selected m.reported _ third ?_ hok hp3
        intro item hi
        obtain ⟨a,ha,hage⟩ := hfirst item hi
        obtain ⟨b,hb,hage'⟩ := expire_aged s 1 false _ a ha
        obtain ⟨c,hc,hage''⟩ := expire_aged s 2 true _ b hb
        exact ⟨c,hc,hage.trans (hage'.trans hage'')⟩
    · cases h
      exact packed_packs wire limits m _ selected m.reported _ packet hfirst hok hp

theorem with_failure_reason_empty (packet result : SerializedPacket) (reason : String)
    (hc : wire.count packet.content = .ok packet.tokens) (hfits : packet.tokens ≤ limits.maxTokens)
    (hno : NoItems wire.toCodec packet)
    (h : withFailureReason wire limits packet reason = .ok result) : wire.count result.content = .ok
    result.tokens ∧ result.tokens ≤ limits.maxTokens ∧ NoMemory wire result.content := by
  have hplain : NoMemory wire packet.content := by
    rcases hno with hnull | ⟨view,htext,hnil⟩
    · exact Or.inl hnull
    · exact Or.inr ⟨view,hnil,Or.inl htext⟩
  unfold withFailureReason at h
  cases hr : wire.readPacket packet.content with
  | error e => simp [hr] at h
  | ok read =>
    cases read with
    | none =>
      simp only [hr, Except.ok.injEq] at h
      subst h
      exact ⟨hc,hfits,hplain⟩
    | some view =>
      have hnil : view.items = [] := by
        rcases hno with hnull | ⟨written,htext,hnil⟩
        · rw [hnull] at hr
          exact absurd hr (wire.read_null view)
        · exact wire.read_empty written packet.content view htext hnil hr
      simp only [hr] at h
      cases ht : wire.reasonText view reason with
      | error e => simp [ht] at h
      | ok content =>
        simp only [ht] at h
        cases hn : wire.count content with
        | error e => simp [hn] at h
        | ok tokens =>
          simp only [hn, Except.ok.injEq] at h
          by_cases hbig : limits.maxTokens < tokens
          · rw [if_pos hbig] at h
            subst h
            exact ⟨hc,hfits,hplain⟩
          · rw [if_neg hbig] at h
            subst h
            exact ⟨hn,Nat.le_of_not_lt hbig,Or.inr ⟨view,hnil,Or.inr ⟨reason,ht⟩⟩⟩

structure Delivers (m : Material) (failed : Bool) (d : Delivered) : Prop where
  counted : wire.count d.packet.content = .ok d.packet.tokens
  fits : d.packet.tokens ≤ limits.maxTokens
  failed : failed = true ∨ m.criticalMissing = true → NoMemory wire d.packet.content
  full : NoMemory wire d.packet.content ∨ ∃ view, wire.packetText view = .ok d.packet.content ∧
    ∀ item ∈ m.items, isRequired item = true → Contains view item

theorem finish_delivers (selected : List String) (failed : Bool) (d : Delivered)
    (h : finish wire s limits m selected failed = .ok d) : Delivers wire limits m failed d := by
  unfold finish at h
  cases hp : packItems wire s limits m selected failed with
  | error e => simp [hp] at h
  | ok result =>
    obtain ⟨packet,items⟩ := result
    simp only [hp] at h
    have hpacks := pack_items_packs wire s limits m selected failed _ hp
    by_cases hins : packet.insufficient = true
    · rw [if_pos hins] at h
      cases hw : withFailureReason wire limits packet (m.failure.getD outputExhausted) with
      | error e => simp [hw, Except.map] at h
      | ok last =>
        simp only [hw, Except.map, Except.ok.injEq] at h
        subst h
        obtain ⟨hc,hle,hno⟩ := with_failure_reason_empty wire limits packet last _ hpacks.counted
          hpacks.fits (hpacks.empty hins) hw
        exact ⟨hc,hle,fun _ => hno,Or.inl hno⟩
    · rw [if_neg hins] at h
      cases h
      exact ⟨hpacks.counted,hpacks.fits,fun hf => absurd (hpacks.failed hf) hins,
        Or.inr (hpacks.full (by simpa using hins))⟩

/-! ## Whole runs -/

def isOpen (row : Json) : Bool :=
  let status := (row.index "attributes").index "status"
  status.isStr "pending" || status.isStr "blocked"

theorem open_nonempty (row : Json) (h : isOpen row = true) : isEmptyContent row = false := by
  cases row with
  | obj fields =>
    cases fields with
    | nil => cases h
    | cons f rest => rfl
  | arr items =>
    cases items with
    | nil => cases h
    | cons f rest => rfl
  | null => cases h
  | _ => rfl

def Replaced (r : Recalled) (view : PacketView) (item : MemoryItem) : Prop :=
  ∃ skill id, (item.id,skill) ∈ r.planning.material.procedures ∧ (skill,some id) ∈ r.checks ∧
    ∃ held ∈ view.items, held.id = id ∧ held.channel = .procedures

structure Guarded (r : Recalled) : Prop where
  counted : wire.count r.delivered.packet.content = .ok r.delivered.packet.tokens ∧
    r.delivered.packet.tokens ≤ limits.maxTokens
  guarded : NoMemory wire r.delivered.packet.content ∨
    ∃ view, wire.packetText view = .ok r.delivered.packet.content ∧
      (∀ rows, constraintRows s = some rows → ∀ row ∈ rows, isOpen row = true →
        ∃ item ∈ view.items, item.channel = .kip ∧ item.priority = .required ∧
          item.content = (compact true row).1) ∧
      ∀ item ∈ r.material.created, item.priority = .warning →
        Contains view item ∨ Replaced r view item
  incomplete : ReadIncomplete s → NoMemory wire r.delivered.packet.content
  spent : (r.planning.sent.map Sent.tokens).sum ≤ limits.contextTokens
  requests : ∀ x ∈ r.planning.sent,
    (∃ encoded, wire.normalized x.prompt = .ok encoded ∧ wire.count encoded = .ok x.tokens) ∧
      ∀ item ∈ x.visible, isRequired item = true → item ∈ x.prompt.items
  calls : r.planning.sent.length ≤ maxTurns ∧ r.planning.calls ≤ maxCalls ∧ r.checks.length ≤ 8

theorem end_early_guarded (reason : String) (r : Recalled)
    (h : endEarly wire s limits m reason = .ok r) : Guarded wire s limits r := by
  simp only [endEarly] at h
  cases hf : finish wire s limits { m with failure := some reason } [] true with
  | error e => simp [hf, Except.map] at h
  | ok d =>
    simp only [hf, Except.map, Except.ok.injEq] at h
    subst h
    have hd := finish_delivers wire s limits _ [] true d hf
    have hno := hd.failed (Or.inl rfl)
    exact ⟨⟨hd.counted,hd.fits⟩,Or.inl hno,fun _ => hno,by simp [beginPlanning],
      by simp [beginPlanning],by simp [beginPlanning]⟩

theorem begin_sound (discovered : List String) :
    Sound wire limits 0 (beginPlanning s m discovered) :=
  ⟨by simp [beginPlanning],Nat.zero_le _,by simp [beginPlanning],by simp [beginPlanning],le_rfl,
    Nat.zero_le _⟩

theorem begin_stands (discovered : List String) (hk : Kept m) :
    Stands (beginPlanning s m discovered) :=
  ⟨hk,fun _ _ h => (nomatch h),fun _ => rfl⟩

theorem plan_from_guarded (discovered : List String) (r : Recalled) (hk : Kept m)
    (hread : ReadIncomplete s → m.criticalMissing = true)
    (hrows : ∀ rows, constraintRows s = some rows → ∀ row ∈ rows, isEmptyContent row = false →
      HoldsRow m row) (h : planFrom wire s limits m discovered = .ok r) :
    Guarded wire s limits r := by
  unfold planFrom at h
  cases hturns : turns wire s limits (min s.modelTurns maxTurns) 0
      (beginPlanning s m discovered) with
  | error e => simp [hturns] at h
  | ok planned =>
    simp only [hturns] at h
    obtain ⟨hsound,hstands,hgrows⟩ := turns_sound wire s limits _ 0 _ planned
      (begin_sound wire s limits m discovered) (begin_stands s m discovered hk) rfl hturns
    cases hback : fallBack wire planned with
    | error e => simp [hback] at h
    | ok settled =>
      simp only [hback] at h
      obtain ⟨hgback,hsent,hcalls⟩ := fall_back_grows wire planned settled hstands hback
      have hall : Grows m (conclude settled).material :=
        (hgrows.trans hgback).trans (conclude_grows settled)
      have hkept := hall.kept hk
      have hsettled : ∀ material checks,
          (if (conclude settled).failed = true then .ok ((conclude settled).material,[])
            else refresh wire s (conclude settled).material) = .ok (material,checks) →
          Settled (conclude settled).material material checks := by
        intro material checks hr
        by_cases hf : (conclude settled).failed = true
        · rw [if_pos hf] at hr
          cases hr
          exact ⟨List.prefix_rfl,fun h => h,by simp,
            Or.inr ⟨fun item hi hreq => Or.inl (hkept.held item hi hreq),by simp⟩⟩
        · rw [if_neg hf] at hr
          exact refresh_settled wire s _ (material,checks) hkept hr
      cases hr : (if (conclude settled).failed = true then
          (.ok ((conclude settled).material,[]) : Except String _)
          else refresh wire s (conclude settled).material) with
      | error e => simp [hr] at h
      | ok result =>
        obtain ⟨material,checks⟩ := result
        have hs := hsettled material checks hr
        simp only [hr] at h
        cases hf : finish wire s limits material (conclude settled).selected
            (conclude settled).failed with
        | error e => simp [hf, Except.map] at h
        | ok d =>
          simp only [hf, Except.map, Except.ok.injEq] at h
          subst h
          have hd := finish_delivers wire s limits material _ _ d hf
          have hsent' : (conclude settled).sent = planned.sent := hsent
          have hcalls' : (conclude settled).calls = planned.calls := hcalls
          have hlost : material.criticalMissing = true → NoMemory wire d.packet.content :=
            fun hc => hd.failed (Or.inr hc)
          refine ⟨⟨hd.counted,hd.fits⟩,?_,
            fun hinc => hlost (hs.critical (hall.critical (hread hinc))),?_,?_,?_,?_,hs.few⟩
          · rcases hd.full with hno | ⟨view,htext,hview⟩
            · exact Or.inl hno
            rcases hs.held with hc | ⟨hheld,hchecks⟩
            · exact Or.inl (hlost hc)
            by_cases hcrit : (conclude settled).material.criticalMissing = true
            · exact Or.inl (hlost (hs.critical hcrit))
            refine Or.inr ⟨view,htext,?_,?_⟩
            · intro rows hsome row hrow hopen
              rcases (hrows rows hsome row hrow (open_nonempty row hopen)).grows hall with
                hc | ⟨item,hitem,hch,hp,hcontent⟩
              · exact absurd hc hcrit
              have hreq : isRequired item = true := by rw [← critical_required, hp]; rfl
              rcases hheld item (hs.created.subset hitem) hreq with hin | ⟨skill,hproc,_⟩
              · obtain ⟨held,hin',haged⟩ := hview item hin hreq
                rw [haged.same (by rw [hch]; decide)] at hin'
                exact ⟨item,hin',hch,hp,hcontent⟩
              -- An item of the graph is not the answer to a check.
              obtain ⟨other,hother,hid,hpch⟩ := hkept.checked _ hproc
              rw [hkept.same other item hother hitem hid, hch] at hpch
              cases hpch
            · intro item hitem hp
              have hreq : isRequired item = true := by rw [← critical_required, hp]; rfl
              rcases hheld item hitem hreq with hin | ⟨skill,hproc,hskill⟩
              · exact Or.inl (hview item hin hreq)
              obtain ⟨⟨checked,id⟩,hcheck,hskill'⟩ := List.mem_map.mp hskill
              obtain rfl : checked = skill := hskill'
              obtain ⟨found,hfound,hid,hfch,hfreq⟩ := hchecks _ hcheck
              obtain ⟨held,hin,haged⟩ := hview found hfound hfreq
              have hid' : id = some found.id := hid
              refine Or.inr ⟨checked,found.id,hproc,hid' ▸ hcheck,held,hin,haged.id,?_⟩
              rw [haged.channel, hfch]
          · rw [hsent']
            exact hsound.spent.trans hsound.within
          · intro x hx
            rw [hsent'] at hx
            exact ⟨hsound.counted x hx,hsound.whole x hx⟩
          · have hasked := hsound.asked
            rw [hsent']
            omega
          · rw [hcalls']
            exact hsound.calls

theorem empty_kept : Kept emptyMaterial :=
  ⟨by simp [emptyMaterial],List.nodup_nil,List.Sublist.refl _,by simp [emptyMaterial],
    by simp [emptyMaterial]⟩

/-- A budgeted Recall delivers no item, or all constraints it read and all warnings it met but
those of a check the model made, in whose place stands the final check. -/
theorem recall_delivers_constraints (r : Recalled) (h : planBudgeted wire s limits = .ok r) :
    Guarded wire s limits r := by
  unfold planBudgeted at h
  cases ho : addItem wire emptyMaterial .primer .required openingContent with
  | error e => simp [ho] at h
  | ok opened =>
    simp only [ho] at h
    have hopened := add_item_grows wire _ opened _ _ _ ho
    cases hp : pack wire.toCodec limits opened.items [] opened.reported with
    | error e => simp [hp] at h
    | ok bare =>
      simp only [hp] at h
      by_cases hb : bare.insufficient = true
      · rw [if_pos hb] at h
        exact end_early_guarded wire s limits opened _ r h
      rw [if_neg hb] at h
      cases hr : readHost wire s opened with
      | error e => simp [hr] at h
      | ok read =>
        simp only [hr] at h
        obtain ⟨hgread,hinc,hrows⟩ := read_host_grows wire s opened read hr
        by_cases hcrit : read.criticalMissing = true
        · rw [if_pos hcrit] at h
          exact end_early_guarded wire s limits read _ r h
        rw [if_neg hcrit] at h
        cases hp2 : pack wire.toCodec limits read.items [] read.reported with
        | error e => simp [hp2] at h
        | ok again =>
          simp only [hp2] at h
          by_cases hb2 : again.insufficient = true
          · rw [if_pos hb2] at h
            exact end_early_guarded wire s limits read _ r h
          rw [if_neg hb2] at h
          cases hd : readDiscovery wire s read with
          | error e => simp [hd] at h
          | ok found =>
            obtain ⟨discovered,ids⟩ := found
            simp only [hd] at h
            have hgfound := read_discovery_grows wire s read _ hd
            cases hn : readNarrative wire s discovered with
            | error e => simp [hn] at h
            | ok narrated =>
              simp only [hn] at h
              have hgrest := hgfound.trans (read_narrative_grows wire s discovered narrated hn)
              exact plan_from_guarded wire s limits narrated ids r
                ((hopened.trans (hgread.trans hgrest)).kept empty_kept)
                (fun hi => hgrest.critical (hinc hi))
                (fun rows hs row hrow hne => (hrows rows hs row hrow hne).grows hgrest) h

end Run

/-! A Commitment is pending. The model checks a Skill and is told that it may not be recommended.
The final check answers the same, and its item is the one delivered. -/

def emptyView : PacketView :=
  ⟨packetFormat,"budget_insufficient",tokenizerName,0,[],⟨[],[],[],[]⟩,false,false⟩

def listingText (view : PacketView) : List Char :=
  view.items.flatMap (fun item => '|'::item.id.toList)++ '#'::view.status.toList

def listingWire : Wire where
  packetText view := .ok (String.ofList (listingText view))
  contentBytes _ := .ok 4
  count content := .ok content.length
  normalized _ := .ok "request"
  reasonText _ reason := .ok ("!"++reason)
  readPacket content := .ok (if content.toList.head? = some '#' then some emptyView else none)
  read_empty := by
    intro view content read _ _ h
    by_cases hc : content.toList.head? = some '#'
    · simp only [if_pos hc, Except.ok.injEq, Option.some.injEq] at h
      rw [← h]
      rfl
    · simp [if_neg hc] at h
  read_null := by
    intro read h
    simp at h

def deniedCheck : Json := .obj [("skill_ref",.str "C-9"), ("recommendation_allowed",.bool false)]

def pendingRow : Json :=
  .obj [("id",.str "C-1"), ("attributes",.obj [("status",.str "pending")])]

def checkingSession : Session where
  counterpartyNamed := false
  profile := none
  primer := .str "primer"
  notes := some (.arr [])
  history := .arr []
  constraints := .answered (some (.arr [pendingRow]))
  discovery := .answered (some (.obj [("hits",.arr [])]))
  names := ["execute_kip_readonly", referenceName, checkName]
  modelTurns := 7
  remaining := fun _ => true
  reply := fun k _ =>
    if k = 0 then some ⟨false,[⟨checkName,.obj [("skill_ref",.str "C-9")]⟩],""⟩
    else some ⟨false,[⟨selectName,.obj [("selected_ids",.arr [])]⟩],""⟩
  readText := fun _ => none
  tool := fun _ _ _ => .ok (deniedCheck,false)
  check := fun _ _ => .ok (deniedCheck,false)
  checkedAt := fun _ => (0,"")
  wall := fun _ _ => 0
  business := fun _ => ""
  utility := fun _ _ => none

theorem checking_run : ∃ r, planBudgeted listingWire checkingSession RecallBudget.default = .ok r ∧
    r.delivered.packet.content = "|m000|m001|m002|m004#bounded" ∧
    ∃ item ∈ r.material.created, item.priority = .warning ∧ item.id = "m003" := by
  have hrun : ((planBudgeted listingWire checkingSession RecallBudget.default).toOption.any fun r =>
      decide (r.delivered.packet.content = "|m000|m001|m002|m004#bounded") &&
        r.material.created.any fun item =>
          decide (item.priority = .warning) && decide (item.id = "m003")) = true := by
    decide +kernel
  cases hr : planBudgeted listingWire checkingSession RecallBudget.default with
  | error e => simp [hr, Except.toOption] at hrun
  | ok r =>
    simp only [hr, Except.toOption, Option.any_some, Bool.and_eq_true, decide_eq_true_eq,
      List.any_eq_true] at hrun
    exact ⟨r,rfl,hrun⟩

theorem listed_infix (view : PacketView) (item : MemoryItem) (h : item ∈ view.items) :
    item.id.toList <:+: listingText view := by
  obtain ⟨before,after,hsplit⟩ := List.append_of_mem h
  refine ⟨before.flatMap (fun item => '|'::item.id.toList)++['|'],
    after.flatMap (fun item => '|'::item.id.toList)++ '#'::view.status.toList,?_⟩
  simp [listingText, hsplit]

/-- The warning of the model's own check is not delivered. -/
theorem replaced_warning_undelivered : ¬∀ (wire : Wire) (s : Session) (limits : RecallBudget)
    (r : Recalled), planBudgeted wire s limits = .ok r → NoMemory wire r.delivered.packet.content ∨
    ∃ view, wire.packetText view = .ok r.delivered.packet.content ∧ ∀ item ∈ r.material.created,
    item.priority = .warning → ∃ held ∈ view.items, held.id = item.id := by
  intro h
  obtain ⟨r,hrun,hcontent,item,hitem,hp,hid⟩ := checking_run
  have htext (view : PacketView)
      (ht : listingWire.packetText view = .ok r.delivered.packet.content) :
      listingText view = "|m000|m001|m002|m004#bounded".toList := by
    rw [hcontent] at ht
    have := congrArg String.toList (Except.ok.inj ht)
    rwa [String.toList_ofList] at this
  rcases h listingWire checkingSession RecallBudget.default r hrun with
    (hnull | ⟨view,hnil,ht | ⟨reason,ht⟩⟩) | ⟨view,ht,hall⟩
  · rw [hcontent] at hnull
    exact absurd hnull (by decide)
  · have := htext view ht
    simp [listingText, hnil] at this
  · rw [hcontent] at ht
    have := congrArg String.toList (Except.ok.inj ht)
    simp at this
  obtain ⟨held,hin,hsame⟩ := hall item hitem hp
  have hinfix := listed_infix view held hin
  rw [htext view ht, hsame, hid] at hinfix
  revert hinfix
  decide +kernel

theorem recall_delivers_constraints_checking : ∃ r, planBudgeted listingWire checkingSession
    RecallBudget.default = .ok r ∧ Guarded listingWire checkingSession RecallBudget.default r ∧
    r.delivered.packet.content = "|m000|m001|m002|m004#bounded" ∧ isOpen pendingRow = true := by
  obtain ⟨r,hrun,hcontent,_⟩ := checking_run
  exact ⟨r,hrun,recall_delivers_constraints listingWire checkingSession RecallBudget.default r hrun,
    hcontent,by decide⟩

end AndaBrain.RecallPlan
