import AndaBrain.RecallMaterial

/-!
# The turns of a Recall

A request that is sent fits what is left of the context budget and leaves out optional items
only. What is said of one turn holds of all of them.
-/

set_option autoImplicit false

namespace AndaBrain.RecallPlan
open Foundation.LongestFit Foundation.SortBy Foundation.Utf8Text RecallPack

/-! ## Evictions -/

theorem mem_eviction_order (visible : List MemoryItem) (item : MemoryItem) :
    item ∈ evictionOrder visible ↔ item ∈ visible ∧ isRequired item = false := by
  rw [evictionOrder, (sort_by_perm _ _).mem_iff, List.mem_filter]
  simp

theorem evict_leaves (evicted : List MemoryItem) (m : Material) : (evict m evicted).created =
    m.created ∧ (evict m evicted).nextId = m.nextId ∧ (evict m evicted).procedures = m.procedures ∧
    (evict m evicted).criticalMissing = m.criticalMissing ∧ (evict m evicted).failure = m.failure :=
    by
  induction evicted generalizing m with
  | nil => exact ⟨rfl,rfl,rfl,rfl,rfl⟩
  | cons e rest ih => exact ih _

theorem mem_evict (evicted : List MemoryItem) (m : Material) (item : MemoryItem) :
    item ∈ (evict m evicted).items ↔ item ∈ m.items ∧ item.id ∉ evicted.map MemoryItem.id := by
  induction evicted generalizing m with
  | nil => simp [evict]
  | cons e rest ih =>
    rw [evict, List.foldl_cons]
    refine (ih _).trans ?_
    simp only [List.mem_filter, decide_eq_true_eq, List.map_cons, List.mem_cons, not_or, and_assoc]

theorem evict_sublist (evicted : List MemoryItem) (m : Material) :
    (evict m evicted).items.Sublist m.items := by
  induction evicted generalizing m with
  | nil => exact List.Sublist.refl _
  | cons e rest ih => exact (ih _).trans List.filter_sublist

theorem evict_grows (m : Material) (evicted : List MemoryItem)
    (he : ∀ e ∈ evicted, e ∈ m.items ∧ isRequired e = false) : Grows m (evict m evicted) := by
  obtain ⟨hc,hn,hp,hcrit,_⟩ := evict_leaves evicted m
  refine ⟨fun hk => ⟨?_,?_,?_,?_,?_⟩,by rw [hc],by rw [hcrit]; exact id⟩
  · rw [hc, hn]
    exact hk.numbered
  · rw [hc]
    exact hk.distinct
  · rw [hc]
    exact (evict_sublist evicted m).trans hk.within
  · intro item hitem hr
    rw [hc] at hitem
    rw [mem_evict]
    refine ⟨hk.held item hitem hr,?_⟩
    intro hmem
    obtain ⟨e,hin,hid⟩ := List.mem_map.mp hmem
    have hsame := hk.same e item (hk.within.subset (he e hin).1) hitem hid
    rw [← hsame, (he e hin).2] at hr
    cases hr
  · rw [hp, hc]
    exact hk.checked

/-! ## Requests -/

section Run
variable (wire : Wire) (s : Session) (limits : RecallBudget)

structure Sound (turn : ℕ) (p : Planning) : Prop where
  spent : (p.sent.map Sent.tokens).sum ≤ p.contextSpent
  within : p.contextSpent ≤ limits.contextTokens
  counted : ∀ x ∈ p.sent,
    ∃ encoded, wire.normalized x.prompt = .ok encoded ∧ wire.count encoded = .ok x.tokens
  whole : ∀ x ∈ p.sent, ∀ item ∈ x.visible, isRequired item = true → item ∈ x.prompt.items
  asked : p.sent.length ≤ turn
  calls : p.calls ≤ maxCalls

theorem fit_request_cases (p : Planning) (order : List MemoryItem) (kept tokens : ℕ)
    (prompt : Prompt) (h : fitRequest wire limits p order kept = .ok (some (tokens,prompt))) :
    prompt = promptOf p (order.take (order.length - kept)) ∧ tokens ≤ limits.contextTokens -
    p.contextSpent ∧ ∃ encoded, wire.normalized prompt = .ok encoded ∧ wire.count encoded = .ok
    tokens := by
  simp only [fitRequest] at h
  cases he : wire.normalized (promptOf p (order.take (order.length - kept))) with
  | error e => simp [he] at h
  | ok encoded =>
    simp only [he] at h
    by_cases hsize : byteLen encoded.toList ≤ 4*maxBytes
    · rw [if_pos hsize] at h
      cases hc : wire.count encoded with
      | error e => simp [hc] at h
      | ok counted =>
        simp only [hc, Except.ok.injEq] at h
        by_cases hroom : counted ≤ limits.contextTokens - p.contextSpent
        · simp only [if_pos hroom, Option.some.injEq, Prod.mk.injEq] at h
          obtain ⟨rfl,rfl⟩ := h
          exact ⟨rfl,hroom,encoded,he,hc⟩
        · simp [if_neg hroom] at h
    · simp [if_neg hsize] at h

structure Built (p built : Planning) : Prop where
  material : Grows p.material built.material
  sent : built.sent = p.sent
  calls : built.calls = p.calls
  spent : p.contextSpent ≤ built.contextSpent
  within : p.contextSpent ≤ limits.contextTokens → built.contextSpent ≤ limits.contextTokens
  fallback : ∀ items coverage, built.contextFallback = some (items,coverage) →
    p.contextFallback = some (items,coverage) ∨
      (items = p.material.items ∧ built.material.created = p.material.created ∧
        built.material.nextId = p.material.nextId ∧
        built.material.procedures = p.material.procedures)

theorem build_request_built (p built : Planning) (request : Option (ℕ × Prompt))
    (h : buildRequest wire limits p = .ok (built,request)) : Built limits p built ∧
    (request = none → built.failed = true) ∧ ∀ tokens prompt, request = some (tokens,prompt) →
    built.contextFallback = p.contextFallback ∧ p.contextSpent + tokens = built.contextSpent ∧
    (∃ encoded, wire.normalized prompt = .ok encoded ∧ wire.count encoded = .ok tokens) ∧
    (Kept p.material → ∀ item ∈ p.material.items, isRequired item = true → item ∈ prompt.items) :=
    by
  have horder : ∀ e ∈ evictionOrder p.material.items,
      e ∈ p.material.items ∧ isRequired e = false :=
    fun e he => (mem_eviction_order _ e).mp he
  simp only [buildRequest] at h
  cases hf : longestFitting 0 (evictionOrder p.material.items).length
      (fitRequest wire limits p (evictionOrder p.material.items)) with
  | error e => simp [hf] at h
  | ok found =>
    cases found with
    | none =>
      simp only [hf, Except.ok.injEq, Prod.mk.injEq] at h
      obtain ⟨rfl,rfl⟩ := h
      obtain ⟨hc,hn,hp,_⟩ := evict_leaves (evictionOrder p.material.items)
        (p.fail contextExhausted).material
      refine ⟨⟨?_,rfl,rfl,le_rfl,fun h => h,?_⟩,fun _ => rfl,fun _ _ h => (nomatch h)⟩
      · have hfail : Grows p.material (p.fail contextExhausted).material :=
          Leaves.grows ⟨rfl,rfl,rfl,rfl,fun h => h⟩
        exact hfail.trans (evict_grows _ _ horder)
      · intro items coverage hsome
        simp only [Option.some.injEq, Prod.mk.injEq] at hsome
        exact Or.inr ⟨hsome.1.symm,hc,hn,hp⟩
    | some best =>
      obtain ⟨kept,tokens,prompt⟩ := best
      simp only [hf, Except.ok.injEq, Prod.mk.injEq] at h
      obtain ⟨rfl,rfl⟩ := h
      obtain ⟨hfit,_,_⟩ := longest_fitting_fits _ 0 _ kept (tokens,prompt) (Nat.zero_le _) hf
      obtain ⟨hprompt,hroom,hcounted⟩ :=
        fit_request_cases wire limits p _ kept tokens prompt hfit
      have htake : ∀ e ∈ (evictionOrder p.material.items).take
          ((evictionOrder p.material.items).length - kept),
          e ∈ p.material.items ∧ isRequired e = false :=
        fun e he => horder e (List.mem_of_mem_take he)
      refine ⟨⟨evict_grows _ _ htake,rfl,rfl,Nat.le_add_right _ _,fun hle => ?_,
        fun _ _ h => Or.inl h⟩,
        (fun h => nomatch h),?_⟩
      · change p.contextSpent + tokens ≤ limits.contextTokens
        omega
      intro tokens' prompt' hsome
      simp only [Option.some.injEq, Prod.mk.injEq] at hsome
      obtain ⟨rfl,rfl⟩ := hsome
      refine ⟨rfl,rfl,hcounted,?_⟩
      intro hk item hitem hr
      rw [hprompt, promptOf, List.mem_filter]
      refine ⟨hitem,?_⟩
      simp only [decide_eq_true_eq]
      intro hmem
      obtain ⟨e,hin,hid⟩ := List.mem_map.mp hmem
      have hsame := hk.same e item (hk.within.subset (htake e hin).1)
        (hk.within.subset hitem) hid
      rw [← hsame, (htake e hin).2] at hr
      cases hr

/-! ## Tools -/

structure Works (p next : Planning) : Prop where
  material : Grows p.material next.material
  sent : next.sent = p.sent
  spent : next.contextSpent = p.contextSpent
  fallback : next.contextFallback = p.contextFallback

theorem Works.refl (p : Planning) : Works p p := ⟨Grows.refl _,rfl,rfl,rfl⟩

theorem Works.trans {a b c : Planning} (h : Works a b) (h' : Works b c) : Works a c :=
  ⟨h.material.trans h'.material,h'.sent.trans h.sent,h'.spent.trans h.spent,
    h'.fallback.trans h.fallback⟩

theorem fail_works (p : Planning) (reason : String) : Works p (p.fail reason) :=
  ⟨Leaves.grows ⟨rfl,rfl,rfl,rfl,fun h => h⟩,rfl,rfl,rfl⟩

theorem remember_check_grows (channel : Channel) (priority : Priority)
    (content : Json) (base : Material) (args : Json) :
    Grows base (rememberCheck (base.push ⟨itemId base.nextId,channel,priority,content⟩) channel
      (itemId base.nextId) args) := by
  have hpush := push_grows base channel priority content
  unfold rememberCheck
  split
  · split_ifs with hch
    · refine ⟨fun hk => ?_,hpush.created,hpush.critical⟩
      have hkept := hpush.kept hk
      refine ⟨hkept.numbered,hkept.distinct,hkept.within,hkept.held,?_⟩
      intro entry hentry
      rcases List.mem_append.mp hentry with h | h
      · exact hkept.checked entry h
      · obtain rfl := List.mem_singleton.mp h
        exact ⟨_,List.mem_append_right _ (List.mem_singleton.mpr rfl),rfl,hch⟩
    · exact hpush
  · exact hpush

theorem add_remember_grows (codec : Codec) (m next : Material) (channel : Channel)
    (priority : Priority) (content : Json) (id : String) (args : Json)
    (h : m.add codec channel priority content = .ok (next,some id)) :
    Grows m (rememberCheck next channel id args) := by
  rcases add_cases codec m next channel priority content (some id) h with
    ⟨_,_,hid⟩ | ⟨base,hl,_,⟨_,hid⟩ | ⟨rfl,hid⟩⟩
  · cases hid
  · cases hid
  · cases hid
    exact hl.grows.trans (remember_check_grows channel priority _ base args)

theorem take_result_works (p next : Planning) (tool : ToolCall) (channel : Channel)
    (h : takeResult wire s p tool channel = .ok next) : Works p next ∧ next.calls = p.calls := by
  have hmark := (mark_leaves p.material channel false).grows
  simp only [takeResult] at h
  generalize p.material.markChannel channel false = marked at h hmark
  cases ht : s.tool p.calls tool.name tool.args with
  | error e =>
    simp only [ht] at h
    cases ha : addItem wire (marked.omitChannel channel) channel .warning
        (toolUnavailable tool.name) with
    | error e => simp [ha, Except.map] at h
    | ok added =>
      simp only [ha, Except.map, Except.ok.injEq] at h
      subst h
      exact ⟨⟨hmark.trans ((omit_leaves _ _).grows.trans (add_item_grows wire _ _ _ _ _ ha)),
        rfl,rfl,rfl⟩,rfl⟩
  | ok answer =>
    obtain ⟨value,toolError⟩ := answer
    simp only [ht] at h
    have hfound : Grows marked
        { (if toolError then marked.omitChannel channel else marked) with
          skills := discoverSkills value
            (if toolError then marked.omitChannel channel else marked).skills } := by
      cases toolError <;> exact Leaves.grows ⟨rfl,rfl,rfl,rfl,fun h => h⟩
    generalize { (if toolError then marked.omitChannel channel else marked) with
      skills := discoverSkills value
        (if toolError then marked.omitChannel channel else marked).skills } = found at h hfound
    cases ha : found.add wire.toCodec channel (resultPriority channel value toolError) value with
    | error e => simp [ha] at h
    | ok added =>
      obtain ⟨held,id⟩ := added
      cases id with
      | none =>
        simp only [ha, Except.ok.injEq] at h
        subst h
        exact ⟨⟨hmark.trans (hfound.trans (add_grows _ _ _ _ _ _ _ ha)),rfl,rfl,rfl⟩,rfl⟩
      | some id =>
        simp only [ha, Except.ok.injEq] at h
        subst h
        exact ⟨⟨hmark.trans (hfound.trans (add_remember_grows _ _ _ _ _ _ _ _ ha)),
          rfl,rfl,rfl⟩,rfl⟩

theorem windowed_works (p : Planning) (channel : Channel) :
    Works p (windowed p channel) ∧ (windowed p channel).calls = p.calls := by
  unfold windowed
  split_ifs
  · exact ⟨⟨(mark_leaves _ _ _).grows,rfl,rfl,rfl⟩,rfl⟩
  · exact ⟨Works.refl p,rfl⟩

theorem run_tool_works (p next : Planning) (tool : ToolCall)
    (h : runTool wire s p tool = .ok next) : Works p next ∧ next.calls = p.calls + 1 := by
  have hsame : ∀ q : Planning, q.material = p.material → q.sent = p.sent →
      q.contextSpent = p.contextSpent → q.contextFallback = p.contextFallback → Works p q :=
    fun q hm hs hc hf => ⟨by rw [hm]; exact Grows.refl _,hs,hc,hf⟩
  simp only [runTool] at h
  cases hb : wire.contentBytes tool.args with
  | error e => simp [hb] at h
  | ok bytes =>
    simp only [hb] at h
    by_cases hbig : 16384 < bytes
    · simp only [if_pos hbig, Except.ok.injEq] at h
      subst h
      exact ⟨hsame _ rfl rfl rfl rfl,rfl⟩
    rw [if_neg hbig] at h
    by_cases hselect : tool.name = selectName
    · rw [if_pos hselect] at h
      cases hsel : selectionOf tool.args with
      | some ids =>
        simp only [hsel, Except.ok.injEq] at h
        subst h
        exact ⟨hsame _ rfl rfl rfl rfl,rfl⟩
      | none =>
        simp only [hsel, Except.ok.injEq] at h
        subst h
        exact ⟨hsame _ rfl rfl rfl rfl,rfl⟩
    rw [if_neg hselect] at h
    by_cases hname : tool.name ∉ s.names
    · simp only [if_pos hname, Except.ok.injEq] at h
      subst h
      exact ⟨hsame _ rfl rfl rfl rfl,rfl⟩
    rw [if_neg hname] at h
    by_cases href : tool.name = referenceName
    · simp only [if_pos href, Except.ok.injEq] at h
      subst h
      exact ⟨hsame _ rfl rfl rfl rfl,rfl⟩
    rw [if_neg href] at h
    cases hch : channelOf tool.name with
    | none =>
      simp only [hch, Except.ok.injEq] at h
      subst h
      exact ⟨hsame _ rfl rfl rfl rfl,rfl⟩
    | some channel =>
      simp only [hch] at h
      cases ht : takeResult wire s { p with calls := p.calls + 1 } tool channel with
      | error e => simp [ht, Except.map] at h
      | ok taken =>
        simp only [ht, Except.map, Except.ok.injEq] at h
        subst h
        obtain ⟨hw,hcalls⟩ := take_result_works wire s _ taken tool channel ht
        obtain ⟨hv,hvcalls⟩ := windowed_works taken channel
        exact ⟨(hsame { p with calls := p.calls + 1 } rfl rfl rfl rfl).trans (hw.trans hv),
          hvcalls.trans hcalls⟩

theorem run_tools_works (tools : List ToolCall) (p next : Planning)
    (h : runTools wire s tools p = .ok next) :
    Works p next ∧ next.calls ≤ p.calls + tools.length := by
  induction tools generalizing p with
  | nil =>
    cases h
    exact ⟨Works.refl _,by simp⟩
  | cons tool rest ih =>
    rw [runTools] at h
    cases ht : runTool wire s p tool with
    | error e => simp [ht] at h
    | ok mid =>
      simp only [ht] at h
      obtain ⟨hw,hcalls⟩ := run_tool_works wire s p mid tool ht
      by_cases hstop : mid.stopped = true
      · simp only [hstop, if_true, Except.ok.injEq] at h
        subst h
        refine ⟨hw,?_⟩
        simp only [List.length_cons]
        omega
      · rw [if_neg hstop] at h
        obtain ⟨hrest,hle⟩ := ih mid h
        refine ⟨hw.trans hrest,?_⟩
        simp only [List.length_cons]
        omega

theorem take_output_works (p next : Planning) (output : Output)
    (h : takeOutput wire s p output = .ok next) :
    Works p next ∧ (p.calls ≤ maxCalls → next.calls ≤ maxCalls) := by
  simp only [takeOutput] at h
  by_cases hf : output.failed = true
  · simp only [if_pos hf, Except.ok.injEq] at h
    subst h
    exact ⟨fail_works p _,fun h => h⟩
  rw [if_neg hf] at h
  by_cases hn : output.toolCalls = []
  · rw [if_pos hn] at h
    split at h <;> cases h <;> exact ⟨⟨Grows.refl _,rfl,rfl,rfl⟩,fun h => h⟩
  rw [if_neg hn] at h
  by_cases hmany : maxCallsPerTurn < output.toolCalls.length ∨
      maxCalls < p.calls + output.toolCalls.length
  · simp only [if_pos hmany, Except.ok.injEq] at h
    subst h
    exact ⟨⟨Grows.refl _,rfl,rfl,rfl⟩,fun h => h⟩
  · rw [if_neg hmany] at h
    obtain ⟨hw,hle⟩ := run_tools_works wire s output.toolCalls p next h
    exact ⟨hw,fun _ => by omega⟩

/-! ## Turns -/

structure Stands (p : Planning) : Prop where
  kept : Kept p.material
  fallback : ∀ items coverage, p.contextFallback = some (items,coverage) →
    Kept { p.material with items }
  stopped : p.stopped = false → p.contextFallback = none

theorem Sound.unsent {k : ℕ} {p next : Planning} (h : Sound wire limits k p)
    (hsent : next.sent = p.sent) (hle : p.contextSpent ≤ next.contextSpent)
    (hwithin : next.contextSpent ≤ limits.contextTokens) (hcalls : next.calls ≤ maxCalls) :
    Sound wire limits (k + 1) next := by
  refine ⟨?_,hwithin,?_,?_,?_,hcalls⟩
  · rw [hsent]
    exact h.spent.trans hle
  · rw [hsent]
    exact h.counted
  · rw [hsent]
    exact h.whole
  · rw [hsent]
    exact h.asked.trans (Nat.le_succ k)

theorem Sound.asks {k : ℕ} {p next : Planning} (h : Sound wire limits k p) (x : Sent)
    (hsent : next.sent = p.sent++[x]) (hspent : p.contextSpent + x.tokens = next.contextSpent)
    (hwithin : next.contextSpent ≤ limits.contextTokens) (hcalls : next.calls ≤ maxCalls)
    (hcounted : ∃ encoded, wire.normalized x.prompt = .ok encoded ∧
      wire.count encoded = .ok x.tokens)
    (hwhole : ∀ item ∈ x.visible, isRequired item = true → item ∈ x.prompt.items) :
    Sound wire limits (k + 1) next := by
  refine ⟨?_,hwithin,?_,?_,?_,hcalls⟩
  · rw [hsent, List.map_append, List.sum_append]
    have := h.spent
    simp only [List.map_cons, List.map_nil, List.sum_singleton]
    omega
  · intro y hy
    rw [hsent, List.mem_append, List.mem_singleton] at hy
    rcases hy with hy | rfl
    · exact h.counted y hy
    · exact hcounted
  · intro y hy
    rw [hsent, List.mem_append, List.mem_singleton] at hy
    rcases hy with hy | rfl
    · exact h.whole y hy
    · exact hwhole
  · rw [hsent, List.length_append, List.length_singleton]
    exact Nat.succ_le_succ h.asked

theorem turn_sound (k : ℕ) (p next : Planning) (hs : Sound wire limits k p) (ht : Stands p)
    (hgo : p.stopped = false) (h : turn wire s limits k p = .ok next) :
    Sound wire limits (k + 1) next ∧ Stands next ∧ Grows p.material next.material := by
  have hnone := ht.stopped hgo
  simp only [turn] at h
  cases hb : buildRequest wire limits p with
  | error e => simp [hb] at h
  | ok result =>
    obtain ⟨built,request⟩ := result
    obtain ⟨hbuilt,hfailed,hsome⟩ := build_request_built wire limits p built request hb
    have hkept := hbuilt.material.kept ht.kept
    have hwithin := hbuilt.within hs.within
    have hcalls : built.calls ≤ maxCalls := hbuilt.calls ▸ hs.calls
    cases request with
    | none =>
      simp only [hb, Except.ok.injEq] at h
      subst h
      refine ⟨hs.unsent wire limits hbuilt.sent hbuilt.spent hwithin hcalls,⟨hkept,?_,?_⟩,
        hbuilt.material⟩
      · intro items coverage hitems
        rcases hbuilt.fallback items coverage hitems with hold | ⟨rfl,hc,hn,hp⟩
        · rw [hnone] at hold
          cases hold
        refine ⟨?_,?_,?_,?_,?_⟩
        · rw [hc, hn]
          exact ht.kept.numbered
        · rw [hc]
          exact ht.kept.distinct
        · rw [hc]
          exact ht.kept.within
        · rw [hc]
          exact ht.kept.held
        · rw [hc, hp]
          exact ht.kept.checked
      · intro hgo
        cases hgo
    | some request =>
      obtain ⟨tokens,prompt⟩ := request
      obtain ⟨hback,hspent,hcounted,hwhole⟩ := hsome tokens prompt rfl
      have hclear : built.contextFallback = none := hback.trans hnone
      -- A planning that works on from here has no material to fall back on.
      have hstands : ∀ q : Planning, Grows built.material q.material →
          q.contextFallback = none → Stands q := by
        intro q hq hq'
        refine ⟨hq.kept hkept,?_,fun _ => hq'⟩
        intro items coverage hitems
        rw [hq'] at hitems
        cases hitems
      simp only [hb] at h
      by_cases hcrit : built.material.criticalMissing = true
      · simp only [if_pos hcrit, Except.ok.injEq] at h
        subst h
        exact ⟨hs.unsent wire limits hbuilt.sent hbuilt.spent hwithin hcalls,
          hstands _ (Grows.refl _) hclear,hbuilt.material⟩
      rw [if_neg hcrit] at h
      by_cases hlate : (!s.remaining k) = true
      · simp only [if_pos hlate, Except.ok.injEq] at h
        subst h
        have hfail := (fail_works built deadlineReached).material
        exact ⟨hs.unsent wire limits hbuilt.sent hbuilt.spent hwithin hcalls,
          hstands _ hfail hclear,hbuilt.material.trans hfail⟩
      rw [if_neg hlate] at h
      cases hr : s.reply k prompt with
      | none =>
        simp only [hr, Except.ok.injEq] at h
        subst h
        have hfail := (fail_works built modelUnavailable).material
        exact ⟨hs.asks wire limits ⟨tokens,p.material.items,prompt⟩
            (by rw [← hbuilt.sent]; rfl) hspent hwithin hcalls hcounted (hwhole ht.kept),
          hstands _ hfail hclear,hbuilt.material.trans hfail⟩
      | some output =>
        simp only [hr] at h
        obtain ⟨hw,hle⟩ := take_output_works wire s _ next output h
        exact ⟨hs.asks wire limits ⟨tokens,p.material.items,prompt⟩
            (by rw [hw.sent, hbuilt.sent]) (hspent.trans hw.spent.symm)
            (hw.spent ▸ hwithin) (hle hcalls) hcounted (hwhole ht.kept),
          hstands _ hw.material (hw.fallback.trans hclear),hbuilt.material.trans hw.material⟩

theorem turns_sound (n k : ℕ) (p next : Planning) (hs : Sound wire limits k p) (ht : Stands p)
    (hgo : p.stopped = false) (h : turns wire s limits n k p = .ok next) :
    Sound wire limits (k + n) next ∧ Stands next ∧ Grows p.material next.material := by
  induction n generalizing k p with
  | zero =>
    cases h
    exact ⟨hs,ht,Grows.refl _⟩
  | succ n ih =>
    rw [turns] at h
    cases hturn : turn wire s limits k p with
    | error e => simp [hturn] at h
    | ok mid =>
      simp only [hturn] at h
      obtain ⟨hsm,htm,hgm⟩ := turn_sound wire s limits k p mid hs ht hgo hturn
      by_cases hstop : mid.stopped = true
      · simp only [hstop, if_true, Except.ok.injEq] at h
        subst h
        refine ⟨⟨hsm.spent,hsm.within,hsm.counted,hsm.whole,?_,hsm.calls⟩,htm,hgm⟩
        exact hsm.asked.trans (by omega)
      · rw [if_neg hstop] at h
        obtain ⟨hsn,htn,hgn⟩ := ih (k + 1) mid hsm htm (by simpa using hstop) h
        have hk : k + 1 + n = k + (n + 1) := by omega
        rw [hk] at hsn
        exact ⟨hsn,htn,hgm.trans hgn⟩

end Run

end AndaBrain.RecallPlan
