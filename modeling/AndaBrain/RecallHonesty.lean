import AndaBrain.Recall
import AndaBrain.Foundation.FirstWins
import AndaBrain.Foundation.KeptPrefix

/-!
# What a briefing leaves out

A candidate that is gathered and not delivered should leave its reader's channel incomplete.
-/

set_option autoImplicit false

namespace AndaBrain.Recall
open Foundation.SortBy Foundation.LongestFit Foundation.FirstWins Foundation.KeptPrefix

def bare (item : MemoryItem) : MemoryItem := { item with reference := "", actionEligible := false }

def Present (c : Candidate) (recalled : Recalled) : Prop :=
  ∃ x ∈ recalled.briefing.items.zip recalled.pins, x.2.2 = c.pins ∧ bare x.1 = c.item

def Accounted (r : Reading) (recalled : Recalled) : Prop :=
  ∀ channel, ∀ c ∈ r.gathered channel,
    Present c recalled ∨ recalled.briefing.coverage.channels channel = .incomplete

def Same (c k : Candidate) : Prop := k.pins = c.pins ∧ k.item = c.item

section Plans

theorem over_budget_complete (plans : Channel → Plan) (removed : List Candidate) (channel : Channel)
    : (removed.foldl overBudget plans channel).complete = true ↔ (plans channel).complete = true ∧ ∀
    x ∈ removed, charged x.item.role ≠ channel := by
  induction removed generalizing plans with
  | nil => simp
  | cons x rest ih =>
    rw [List.foldl_cons, ih, overBudget]
    by_cases h : channel = charged x.item.role
    · simp [h]
    · have h' : charged x.item.role ≠ channel := fun he => h he.symm
      simp [h, h']

theorem state_incomplete (plan : Plan) : plan.state = .incomplete ↔ ¬plan.complete = true := by
  rw [Plan.state]
  by_cases h : plan.complete = true
  · simp [h]
  · simp [h]

end Plans

section Ranking

def rankKey (c : Candidate) : ℕ := (if c.required then 0 else 6) + roleRank c.item.role

theorem role_rank_lt (role : ItemRole) : roleRank role < 6 := by
  cases role <;> decide

theorem sorts_before_key (a b : Candidate) : sortsBefore a b = true ↔ rankKey a ≤ rankKey b := by
  have ha := role_rank_lt a.item.role
  have hb := role_rank_lt b.item.role
  rw [sortsBefore, rankKey, rankKey]
  cases a.required with
  | true =>
    cases b.required with
    | true => simp
    | false =>
      simp
      omega
  | false =>
    cases b.required with
    | true =>
      simp
      omega
    | false => simp

theorem ranked_sorted (r : Reading) : r.ranked.Pairwise (fun a b => rankKey a ≤ rankKey b) :=
  (sort_by_sorted rankKey sortsBefore sorts_before_key r.candidates).sublist
    (List.take_sublist _ _)

theorem optional_of_sorted (l : List Candidate)
    (h : l.Pairwise (fun a b => rankKey a ≤ rankKey b)) :
    ∀ x ∈ l.drop (requiredCount l), x.required = false := by
  induction l with
  | nil => simp
  | cons a rest ih =>
    rw [List.pairwise_cons] at h
    by_cases ha : a.required = true
    · have hc : requiredCount (a::rest) = requiredCount rest + 1 := by
        simp [requiredCount, ha]
      rw [hc, List.drop_succ_cons]
      exact ih h.2
    have hc : requiredCount (a::rest) = 0 := by
      simp [requiredCount, ha]
    rw [hc, List.drop_zero]
    have hkey : 6 ≤ rankKey a := by simp [rankKey, ha]
    intro x hx
    rw [List.mem_cons] at hx
    rcases hx with rfl | hx
    · simpa using ha
    have hle := h.1 x hx
    have hlt := role_rank_lt x.item.role
    by_cases hr : x.required = true
    · have hxk : rankKey x = roleRank x.item.role := by simp [rankKey, hr]
      omega
    · simpa using hr

theorem required_count_length (l : List Candidate) : requiredCount l ≤ l.length :=
  (List.takeWhile_prefix _).length_le

end Ranking

section Items

structure Gathered (c : Candidate) : Prop where
  plain : bare c.item = c.item
  quiet : c.item.role = .warning → c.item.evidenceRefs = []

theorem concept_item_spec (row : Json) (required : Bool) (c : Candidate)
    (h : conceptItem row required = some c) :
    Gathered c ∧ ∃ id, (row.index "id").asStr = some id ∧ c.pins = [(id,versionOf row)] := by
  rw [conceptItem] at h
  cases hid : (row.index "id").asStr with
  | none => simp [hid] at h
  | some id =>
    simp only [hid] at h
    by_cases hs : ((row.index "attributes").index "event_class").isStr "memory_scope" = true
    · simp [hs] at h
    · rw [if_neg hs, Option.map_eq_some_iff] at h
      obtain ⟨kind,_,rfl⟩ := h
      exact ⟨⟨rfl,fun _ => rfl⟩,id,rfl,rfl⟩

theorem concept_items_gathered (rows : List Json) (required : Bool) :
    ∀ c ∈ rows.filterMap (conceptItem · required), Gathered c := by
  intro c hc
  rw [List.mem_filterMap] at hc
  obtain ⟨row,_,h⟩ := hc
  exact (concept_item_spec row required c h).1

variable (s : Snapshot) (scope : Intake.ResolvedScope)

theorem exact_channel_gathered
    (read : Except KipError (List Json)) : ∀ c ∈ (exactChannel scope read).1, Gathered c := by
  cases read with
  | error e => simp [exactChannel]
  | ok rows => exact concept_items_gathered _ true

theorem search_channel_gathered (query : String)
    (read : SearchRead) : ∀ c ∈ (searchChannel s scope query read).1, Gathered c := by
  rw [searchChannel]
  by_cases h : (!isBlank query && !read.current) = true
  · simp [h]
  rw [if_neg h]
  cases read.rows with
  | error e => simp
  | ok rows => exact concept_items_gathered _ false

theorem cited_assertion_spec (id : String) (row : Json) (c : Candidate)
    (h : citedAssertion s id row = some c) : Gathered c ∧ c.pins.head?.map Prod.fst = some id := by
  simp only [citedAssertion, Option.bind_eq_bind, Option.bind_eq_some_iff] at h
  obtain ⟨proposition,_,prop,_,belief,_,hc⟩ := h
  rw [← Option.some.inj hc]
  exact ⟨⟨rfl,fun hr => by cases hr⟩,rfl⟩

theorem cited_proposition_spec (id : String) (row : Json) (c : Candidate)
    (h : citedProposition s id row = some c) :
    Gathered c ∧ c.pins.head?.map Prod.fst = some id := by
  simp only [citedProposition, Option.bind_eq_bind, Option.bind_eq_some_iff] at h
  obtain ⟨belief,_,hc⟩ := h
  rw [← Option.some.inj hc]
  exact ⟨⟨rfl,fun hr => by cases hr⟩,rfl⟩

theorem some_of_map (x : Option Candidate) (c : Candidate) (h : x.map some = some (some c)) :
    x = some c := by
  rw [Option.map_eq_some_iff] at h
  obtain ⟨d,hd,hdc⟩ := h
  rw [hd, Option.some.inj hdc]

theorem cited_item_spec (id : String) (c : Candidate) (h : citedItem s scope id = some (some c)) :
    Gathered c ∧ c.pins.head?.map Prod.fst = some id := by
  rw [citedItem] at h
  cases hk : s.kind id with
  | none => simp [hk] at h
  | some kind =>
    cases hr : s.rows id with
    | none => simp [hk, hr] at h
    | some row =>
      simp only [hk, hr] at h
      by_cases hs : (!((row.index "_system").index "state").isStr "active") = true
      · simp [hs] at h
      rw [if_neg hs] at h
      cases kind with
      | assertion =>
        by_cases ha : (!claimAdmitted scope row) = true
        · simp [ha] at h
        · simp only [if_neg ha] at h
          exact cited_assertion_spec s id row c (some_of_map _ c h)
      | proposition =>
        cases hc : s.claims id with
        | error e => simp [hc] at h
        | ok claims =>
          simp only [hc] at h
          by_cases ha : (!claims.any (claimAdmitted scope)) = true
          · simp [ha] at h
          · rw [if_neg ha] at h
            exact cited_proposition_spec s id row c (some_of_map _ c h)
      | concept =>
        by_cases ha : (!inScope scope row) = true
        · simp [ha] at h
        simp only [if_neg ha] at h
        obtain ⟨hg,id',hid,hp⟩ := concept_item_spec row false c (some_of_map _ c h)
        rw [s.named id row hr] at hid
        rw [hp, ← Option.some.inj hid]
        exact ⟨hg,rfl⟩
      | evidence =>
        by_cases ha : (!inScope scope row) = true
        · simp [ha] at h
        · simp only [if_neg ha] at h
          rw [← Option.some.inj (Option.some.inj h)]
          exact ⟨⟨rfl,fun hw => by cases hw⟩,rfl⟩
      | activity => cases h

theorem cited_read_spec (read : String × ℕ)
    (c : Candidate) (h : citedRead s scope read = some (some c)) :
    Gathered c ∧ c.pins.head?.map Prod.fst = some read.1 := by
  rw [citedRead] at h
  by_cases hv : 0 < read.2 ∧ (s.rows read.1).all (fun row => versionOf row != read.2) = true
  · rw [if_pos hv] at h
    cases h
  · rw [if_neg hv] at h
    exact cited_item_spec s scope read.1 c h

def citedOf (s : Snapshot) (scope : Intake.ResolvedScope) (reads : List (String × ℕ)) :
    List Candidate :=
  (reads.filterMap (citedRead s scope)).filterMap id

theorem mem_cited_of (reads : List (String × ℕ)) (c : Candidate) (h : c ∈ citedOf s scope reads) : ∃
    read ∈ reads, citedRead s scope read = some (some c) := by
  rw [citedOf, List.mem_filterMap] at h
  obtain ⟨found,hf,hc⟩ := h
  rw [List.mem_filterMap] at hf
  obtain ⟨read,hr,hread⟩ := hf
  have hfound : found = some c := hc
  rw [hfound] at hread
  exact ⟨read,hr,hread⟩

theorem cited_distinct
    (reads : List (String × ℕ)) (h : (reads.map Prod.fst).Nodup) :
    (citedOf s scope reads).Pairwise (fun a b => a.pins ≠ b.pins) := by
  induction reads with
  | nil => exact List.Pairwise.nil
  | cons read rest ih =>
    rw [List.map_cons, List.nodup_cons] at h
    cases hc : citedRead s scope read with
    | none =>
      have he : citedOf s scope (read::rest) = citedOf s scope rest := by
        simp [citedOf, hc]
      rw [he]
      exact ih h.2
    | some found =>
      cases found with
      | none =>
        have he : citedOf s scope (read::rest) = citedOf s scope rest := by
          simp [citedOf, hc]
        rw [he]
        exact ih h.2
      | some c =>
        have he : citedOf s scope (read::rest) = c::citedOf s scope rest := by
          simp [citedOf, hc]
        rw [he, List.pairwise_cons]
        refine ⟨?_,ih h.2⟩
        intro d hd hpins
        obtain ⟨other,ho,hread⟩ := mem_cited_of s scope rest d hd
        have h1 := (cited_read_spec s scope read c hc).2
        have h2 := (cited_read_spec s scope other d hread).2
        rw [hpins, h2] at h1
        apply h.1
        rw [← Option.some.inj h1]
        exact List.mem_map_of_mem ho

theorem reads_distinct (r : Reading) : (r.reads.map Prod.fst).Nodup := by
  rw [Reading.reads]
  by_cases h : r.asked = true
  · rw [if_pos h]
    cases r.pass with
    | answered answer trace => exact trace.distinct
    | incomplete reason => exact List.nodup_nil
    | failed error => exact List.nodup_nil
    | deadline => exact List.nodup_nil
  · rw [if_neg h]
    exact List.nodup_nil

theorem gathered_spec (r : Reading) (channel : Channel) : ∀ c ∈ r.gathered channel, Gathered c := by
  cases channel with
  | constraints => exact exact_channel_gathered r.scope r.constraints
  | commitments => exact exact_channel_gathered r.scope r.commitments
  | dependencies =>
    intro c hc
    cases hc
  | failures => exact search_channel_gathered r.snapshot r.scope _ r.failures
  | experiences => exact search_channel_gathered r.snapshot r.scope _ r.experiences
  | skills => exact search_channel_gathered r.snapshot r.scope _ r.skills
  | evidence =>
    intro c hc
    obtain ⟨read,_,hread⟩ := mem_cited_of r.snapshot r.scope r.reads c hc
    exact (cited_read_spec r.snapshot r.scope read c hread).1

end Items

section Merge

theorem merge_into_keeps (held new : List Candidate) :
    mergeInto held new = keepNew Candidate.pins held new := by
  induction new generalizing held with
  | nil => rfl
  | cons c rest ih =>
    have hany : held.any (fun k => k.pins == c.pins) = holds Candidate.pins held c := by
      simp only [holds, beq_eq_decide]
    rw [mergeInto, keepNew, hany, ih, ih]

variable (r : Reading)

/-- The six readers' answers one after the other, the pass first. -/
def Reading.offers : List Candidate :=
  r.cited++r.gathered .constraints++r.gathered .commitments++r.gathered .failures++
    r.gathered .experiences++r.gathered .skills

theorem merged_first : r.merged = firstBy Candidate.pins r.offers := by
  have hoffers : r.offers = r.cited++hostChannels.flatMap r.gathered := by
    simp [Reading.offers, hostChannels]
  rw [Reading.merged, merge_into_keeps, hoffers]
  exact keep_new_distinct _ _ _ (cited_distinct r.snapshot r.scope r.reads (reads_distinct r))

theorem merged_distinct : r.merged.Pairwise (fun a b => a.pins ≠ b.pins) := by
  rw [merged_first]
  exact first_by_distinct _ _

theorem merged_gathered : ∀ c ∈ r.merged, Gathered c := by
  intro c hc
  rw [merged_first] at hc
  have hmem := mem_first_by _ _ _ hc
  simp only [Reading.offers, List.mem_append] at hmem
  rcases hmem with ((((h | h) | h) | h) | h) | h
  · exact gathered_spec r .evidence c h
  · exact gathered_spec r .constraints c h
  · exact gathered_spec r .commitments c h
  · exact gathered_spec r .failures c h
  · exact gathered_spec r .experiences c h
  · exact gathered_spec r .skills c h

theorem dependency_warning_spec (k : Candidate) (h : k ∈ r.dependencyWarnings) : bare
    k.item = k.item ∧ k.item.role = .warning ∧ k.item.evidenceRefs ≠ [] := by
  rw [Reading.dependencyWarnings, List.mem_flatMap] at h
  obtain ⟨c,_,hk⟩ := h
  rw [caveats, List.mem_filterMap] at hk
  obtain ⟨pin,_,hpin⟩ := hk
  rw [Option.bind_eq_some_iff] at hpin
  obtain ⟨row,_,hrow⟩ := hpin
  rw [Option.map_eq_some_iff] at hrow
  obtain ⟨status,_,rfl⟩ := hrow
  exact ⟨rfl,rfl,List.cons_ne_nil _ _⟩

theorem candidates_plain : ∀ k ∈ r.candidates, bare k.item = k.item := by
  intro k hk
  rw [Reading.candidates, List.mem_append] at hk
  rcases hk with h | h
  · exact (merged_gathered r k h).plain
  · exact (dependency_warning_spec r k h).1

theorem warning_not_same (c k : Candidate) (hc : Gathered c)
    (hk : k ∈ r.dependencyWarnings) : ¬Same c k := by
  intro h
  have hw := dependency_warning_spec r k hk
  rw [h.2] at hw
  exact hw.2.2 (hc.quiet hw.2.1)

theorem ranked_once (c : Candidate) (hc : Gathered c) :
    r.ranked.Pairwise (fun a b => ¬(Same c a ∧ Same c b)) := by
  have hmerged : r.merged.Pairwise (fun a b => ¬(Same c a ∧ Same c b)) := by
    apply (merged_distinct r).imp
    intro a b hab h
    exact hab (h.1.1.trans h.2.1.symm)
  have hall : r.candidates.Pairwise (fun a b => ¬(Same c a ∧ Same c b)) := by
    rw [Reading.candidates, List.pairwise_append]
    refine ⟨hmerged,?_,?_⟩
    · apply List.pairwise_of_forall_mem_list
      intro a ha b _ h
      exact warning_not_same r c a hc ha h.1
    · intro a _ b hb h
      exact warning_not_same r c b hc hb h.2
  have hsort : (sortBy sortsBefore r.candidates).Pairwise (fun a b => ¬(Same c a ∧ Same c b)) := by
    apply ((sort_by_perm sortsBefore r.candidates).pairwise_iff ?_).mpr hall
    intro a b h hba
    exact h ⟨hba.2,hba.1⟩
  exact hsort.sublist (List.take_sublist _ _)

theorem ranked_plain : ∀ k ∈ r.ranked, bare k.item = k.item := by
  intro k hk
  apply candidates_plain r k
  exact (sort_by_perm sortsBefore r.candidates).subset (List.mem_of_mem_take hk)

end Merge

section Delivery

def recalledAt (wire : Wire) (r : Reading) (kept : ℕ) : Recalled where
  briefing := briefingOf wire r kept
  pins := ((briefingOf wire r kept).items.zip (r.ranked.take kept)).map
    fun x => (x.1.reference,x.2.pins)
  warnings := r.warnings

variable (wire : Wire) (r : Reading)

theorem fitting_some (maxTokens kept : ℕ) (b : Briefing)
    (h : fitting wire r maxTokens kept = .ok (some b)) : b = briefingOf wire r kept := by
  rw [fitting] at h
  cases hc : wire.countTokens (briefingOf wire r kept) with
  | error e => simp [hc, Except.map] at h
  | ok tokens =>
    by_cases ht : tokens ≤ maxTokens
    · simp only [hc, Except.map, if_pos ht, Except.ok.injEq, Option.some.injEq] at h
      exact h.symm
    · simp [hc, Except.map, ht] at h

theorem memory_recall_kept (maxTokens : ℕ) (retained : Except KipError Unit) (recalled : Recalled)
    (h : memoryRecall wire r maxTokens retained = .ok recalled) : ∃ kept, requiredCount r.ranked ≤
    kept ∧ kept ≤ r.ranked.length ∧ recalled = recalledAt wire r kept ∧
    longestFitting (requiredCount r.ranked) r.ranked.length (fitting wire r maxTokens) =
      .ok (some (kept,briefingOf wire r kept)) := by
  rw [memoryRecall] at h
  cases hf : longestFitting (requiredCount r.ranked) r.ranked.length
      (fitting wire r maxTokens) with
  | error e =>
    rw [hf] at h
    cases h
  | ok found =>
    rw [hf] at h
    cases found with
    | none => cases h
    | some x =>
      obtain ⟨kept,briefing⟩ := x
      obtain ⟨hfit,hle,hlen⟩ := longest_fitting_fits _ _ _ _ _
        (required_count_length r.ranked) hf
      have hb := fitting_some wire r maxTokens kept briefing hfit
      refine ⟨kept,hle,hlen,?_,by rw [hb]⟩
      cases retained with
      | error e => cases h
      | ok _ =>
        have hresp : briefingResponse wire ⟨briefing,(briefing.items.zip (r.ranked.take kept)).map
            (fun x => (x.1.reference,x.2.pins)),r.warnings⟩ maxTokens = .ok recalled := h
        rw [briefingResponse] at hresp
        cases hc : wire.countTokens briefing with
        | error e =>
          simp only [hc] at hresp
          cases hresp
        | ok tokens =>
          simp only [hc] at hresp
          by_cases ht : maxTokens < tokens
          · have hbad : (.error (resultTooLong tokens maxTokens) : Except KipError Recalled) =
                .ok recalled := by
              rw [← hresp]
              exact (if_pos ht).symm
            cases hbad
          have hgood : (.ok ⟨briefing,(briefing.items.zip (r.ranked.take kept)).map
              (fun x => (x.1.reference,x.2.pins)),r.warnings⟩ : Except KipError Recalled) =
              .ok recalled := by
            rw [← hresp]
            exact (if_neg ht).symm
          rw [← Except.ok.inj hgood, hb]
          rfl

theorem bare_delivered (basisId : String) (eligible : Bool) (entry : Candidate × ℕ)
    (h : bare entry.1.item = entry.1.item) :
    bare (delivered basisId eligible entry) = entry.1.item := by
  rw [← h]
  rfl

theorem zip_retained (l : List Candidate) (f : Candidate × ℕ → MemoryItem) :
    (l.zipIdx.map f).zip (((l.zipIdx.map f).zip l).map fun x => (x.1.reference,x.2.pins)) =
    l.zipIdx.map fun e => (f e,((f e).reference,e.1.pins)) := by
  have hl : l.zipIdx.map Prod.fst = l := by simp
  have hin : (l.zipIdx.map f).zip l = l.zipIdx.map fun e => (f e,e.1) := by
    rw [← List.zip_map']
    rw [hl]
  rw [hin, List.map_map, List.zip_map']
  rfl

theorem present_at (kept : ℕ) (c : Candidate) :
    Present c (recalledAt wire r kept) ↔ ∃ k ∈ r.ranked.take kept, Same c k := by
  have hzip : (recalledAt wire r kept).briefing.items.zip (recalledAt wire r kept).pins =
      (r.ranked.take kept).zipIdx.map (fun e =>
        (delivered r.basisId (briefingOf wire r kept).coverage.actionEligible e,
          ((delivered r.basisId (briefingOf wire r kept).coverage.actionEligible e).reference,
            e.1.pins))) := by
    exact zip_retained _ _
  have hplain : ∀ k ∈ r.ranked.take kept, bare k.item = k.item :=
    fun k hk => ranked_plain r k (List.mem_of_mem_take hk)
  rw [Present, hzip]
  constructor
  · intro h
    obtain ⟨x,hx,hp,hi⟩ := h
    rw [List.mem_map] at hx
    obtain ⟨e,he,rfl⟩ := hx
    have hmem : e.1 ∈ r.ranked.take kept := List.fst_mem_of_mem_zipIdx he
    rw [bare_delivered _ _ e (hplain e.1 hmem)] at hi
    exact ⟨e.1,hmem,hp,hi⟩
  · intro h
    obtain ⟨k,hk,hs⟩ := h
    obtain ⟨i,hi⟩ := List.mem_iff_getElem?.mp hk
    have he : (k,i) ∈ (r.ranked.take kept).zipIdx := List.mk_mem_zipIdx_iff_getElem?.mpr hi
    refine ⟨_,List.mem_map_of_mem he,hs.1,?_⟩
    rw [bare_delivered _ _ (k,i) (hplain k hk)]
    exact hs.2

/-- A counter that charges for every item beyond a number makes the briefing
keep that number. -/
def countAbove (bound : ℕ) : Wire where
  complete _ _ := false
  actionEligible _ _ _ := false
  countTokens briefing := .ok (if briefing.items.length ≤ bound then 0 else 1)

theorem briefing_length (kept : ℕ) :
    (briefingOf wire r kept).items.length = min kept r.ranked.length := by
  simp [briefingOf]

theorem memory_recall_fits (maxTokens kept tokens : ℕ)
    (hf : longestFitting (requiredCount r.ranked) r.ranked.length (fitting wire r maxTokens) =
      .ok (some (kept,briefingOf wire r kept)))
    (hc : wire.countTokens (briefingOf wire r kept) = .ok tokens) (hle : tokens ≤ maxTokens) :
    memoryRecall wire r maxTokens (.ok ()) = .ok (recalledAt wire r kept) := by
  rw [memoryRecall, hf]
  show briefingResponse wire (recalledAt wire r kept) maxTokens = _
  rw [briefingResponse]
  show (do
    let tokens ← wire.countTokens (briefingOf wire r kept)
    if maxTokens < tokens then .error (resultTooLong tokens maxTokens)
    else .ok (recalledAt wire r kept)) = _
  rw [hc]
  exact if_neg (Nat.not_lt_of_le hle)

theorem memory_recall_at (kept : ℕ) (hr : requiredCount r.ranked ≤ kept)
    (hl : kept ≤ r.ranked.length) :
    memoryRecall (countAbove kept) r 0 (.ok ()) = .ok (recalledAt (countAbove kept) r kept) := by
  have hle : ∀ j, j ≤ kept → fitting (countAbove kept) r 0 j =
      .ok (some (briefingOf (countAbove kept) r j)) := by
    intro j hj
    have hlen : (briefingOf (countAbove kept) r j).items.length ≤ kept := by
      rw [briefing_length]
      omega
    have hc : (countAbove kept).countTokens (briefingOf (countAbove kept) r j) = .ok 0 :=
      congrArg Except.ok (if_pos hlen)
    rw [fitting, hc]
    rfl
  have hgt : ∀ j, kept < j → j ≤ r.ranked.length →
      fitting (countAbove kept) r 0 j = .ok none := by
    intro j hj hjl
    have hlen : ¬(briefingOf (countAbove kept) r j).items.length ≤ kept := by
      rw [briefing_length]
      omega
    have hc : (countAbove kept).countTokens (briefingOf (countAbove kept) r j) = .ok 1 :=
      congrArg Except.ok (if_neg hlen)
    rw [fitting, hc]
    rfl
  have hf := longest_fitting_threshold _ _ kept r.ranked.length hle hgt _ hr hl
  have hlen : (briefingOf (countAbove kept) r kept).items.length ≤ kept := by
    rw [briefing_length]
    omega
  have hc : (countAbove kept).countTokens (briefingOf (countAbove kept) r kept) = .ok 0 :=
    congrArg Except.ok (if_pos hlen)
  exact memory_recall_fits (countAbove kept) r 0 kept 0 hf hc le_rfl

end Delivery

theorem channel_at (wire : Wire) (r : Reading) (kept : ℕ) (channel : Channel) :
    (recalledAt wire r kept).briefing.coverage.channels channel = .incomplete ↔
    ¬((r.plans channel).complete = true ∧ ∀ x ∈ r.ranked.drop kept, charged x.item.role ≠ channel)
    := by
  rw [← over_budget_complete, ← state_incomplete]
  rfl

/-- A recall accounts for what was gathered when the kept prefix tells of it. -/
theorem accounted_iff (wire : Wire) (r : Reading) (kept : ℕ) :
    Accounted r (recalledAt wire r kept) ↔ ∀ channel, (r.plans channel).complete = true →
      ∀ c ∈ r.gathered channel,
        Told r.ranked (Same c) (fun x => charged x.item.role = channel) kept := by
  have hmarked : ∀ channel, (r.plans channel).complete = true →
      ((recalledAt wire r kept).briefing.coverage.channels channel = .incomplete ↔
        ∃ x ∈ r.ranked.drop kept, charged x.item.role = channel) := by
    intro channel hplan
    rw [channel_at]
    simp [hplan]
  constructor
  · intro h channel hplan c hc
    exact (h channel c hc).imp (present_at wire r kept c).mp (hmarked channel hplan).mp
  · intro h channel c hc
    by_cases hplan : (r.plans channel).complete = true
    · exact (h channel hplan c hc).imp (present_at wire r kept c).mpr (hmarked channel hplan).mpr
    · right
      rw [channel_at]
      exact fun hno => hplan hno.1

/-- Lengths that are tested without an error. -/
def answering (ε : Type) {τ : Type} (g : ℕ → Option τ) (n : ℕ) : Except ε (Option τ) := .ok (g n)

/-- The search that cuts a briefing ends beside a prefix that does not fit, whatever the order in
which prefixes fit; when every prefix of a fitting one fits, it returns the longest. -/
theorem longest_fitting_ends {ε τ : Type} (g : ℕ → Option τ) (required len : ℕ)
    (hlen : required ≤ len) :
    (∀ best more, g len = none → g required = some best →
      narrow (answering ε g) (len-required+more) required len best =
        narrow (answering ε g) (len-required) required len best) ∧
    ∃ r, longestFitting required len (answering ε g) = .ok r ∧
      (r = none ↔ g len = none ∧ g required = none) ∧
      ∀ k v, r = some (k,v) → required ≤ k ∧ k ≤ len ∧ g k = some v ∧ (k = len ∨ g (k+1) = none) ∧
        ((∀ i j, required ≤ j → j ≤ i → i ≤ len → (g i).isSome → (g j).isSome) →
          ∀ j, j ≤ len → (g j).isSome → j ≤ k) := by
  have hends (best : τ) (hall : g len = none) (hreq : g required = some best) :
      ∃ k v, narrow (answering ε g) (len-required) required len best = .ok (k,v) ∧ g (k+1) = none ∧
        ∀ more, narrow (answering ε g) (len-required+more) required len best = .ok (k,v) := by
    have hne : required ≠ len := by
      rintro rfl
      rw [hall] at hreq
      cases hreq
    obtain ⟨k,v,hk⟩ := narrow_total (answering ε g) (fun j => ⟨g j,rfl⟩) (len-required) required len best
    obtain ⟨hnext,hmore⟩ := narrow_ends (answering ε g) _ _ _ _ _ _ (congrArg Except.ok hall) (by omega)
      (by omega) hk
    exact ⟨k,v,hk,Except.ok.inj hnext,hmore⟩
  refine ⟨fun best more hall hreq => ?_,?_⟩
  · obtain ⟨k,v,hk,-,hmore⟩ := hends best hall hreq
    rw [hmore, hk]
  have hfits k v := longest_fitting_fits (answering ε g) required len k v hlen
  cases hall : g len with
  | some all =>
    have hr : longestFitting required len (answering ε g) = .ok (some (len,all)) := by
      simp [longestFitting, answering, hall]
    refine ⟨_,hr,by simp,fun k v hkv => ?_⟩
    cases hkv
    exact ⟨hlen,Nat.le_refl _,hall,.inl rfl,fun _ _ hj _ => hj⟩
  | none =>
    cases hreq : g required with
    | none => exact ⟨none,by simp [longestFitting, answering, hall, hreq],by simp,fun _ _ h => by cases h⟩
    | some best =>
      obtain ⟨k,v,hk,hnext,-⟩ := hends best hall hreq
      have hr : longestFitting required len (answering ε g) = .ok (some (k,v)) := by
        simp [longestFitting, answering, hall, hreq, hk, Except.map]
      refine ⟨_,hr,by simp,fun k' v' hkv => ?_⟩
      cases hkv
      obtain ⟨hv,hlow,hhigh⟩ := hfits k v hr
      refine ⟨hlow,hhigh,Except.ok.inj hv,.inr hnext,fun hdown j hj hsome => ?_⟩
      by_contra hgt
      have hnot := hdown j (k+1) (by omega) (by omega) hj hsome
      rw [hnext] at hnot
      cases hnot

/-- Lengths 2, 3 and 5 fit; the search between 2 and 6 stops at the end of the first gap. -/
theorem longest_fitting_ends_gap : ∃ r, longestFitting 2 6 (fun n =>
      (.ok (if n = 2 ∨ n = 3 ∨ n = 5 then some n else none) : Except Unit (Option ℕ))) = .ok r ∧
    (r = none ↔ False) := by
  obtain ⟨-,r,hr,hnone,-⟩ := longest_fitting_ends (ε := Unit)
    (fun n => if n = 2 ∨ n = 3 ∨ n = 5 then some n else none) 2 6 (by decide)
  exact ⟨r,hr,by simpa using hnone⟩

end AndaBrain.Recall
