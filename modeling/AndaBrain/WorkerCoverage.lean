import AndaBrain.Foundation.FirstWins
import AndaBrain.Foundation.StableRank
import AndaBrain.WorkerBriefing
import AndaBrain.WorkerReceipts

/-!
# What a briefing leaves out

Something gathered is absent from a delivered briefing for one of three reasons: no item was made
of it, 128 others are worth more, or the output budget trimmed it.
-/

set_option autoImplicit false

namespace AndaBrain.WorkerMemory
open Foundation.SortBy Foundation.LongestFit Foundation.FirstWins Foundation.StableRank
  Foundation.KeptPrefix
open Worker (isBlank)

/-- Something gathered and the channel it came from. A row without an id has no pin. -/
structure Subject where
  channel : Channel
  pin : Option String
  deriving DecidableEq

/-- What a delivery rests on: the readers' answers in reading order, the dependency warnings,
what was gathered from which channel, and the channels whose reader has seen everything it answers
for. -/
structure Gathering where
  offers : List Candidate
  notes : List Candidate
  subjects : List Subject
  whole : Channel → Prop

/-- Required before optional, and by role. -/
def worth (c : Candidate) : ℕ :=
  (if c.required then 0 else 6) + match c.item.role with
    | .constraint => 0
    | .warning => 1
    | .fact => 2
    | .procedure => 3
    | .experience => 4
    | .source => 5

/-- Leaving out an item of the role marks the channel. -/
def Answers : Channel → Role → Prop
  | .experiences, role => role = .experience
  | .skills, role => role = .procedure
  | .evidence, role => role ≠ .experience ∧ role ≠ .procedure
  | _, _ => False

namespace Gathering

/-- What is offered first under its pin, and the warnings. -/
def pool (g : Gathering) : List Candidate := firstBy Candidate.pin g.offers++g.notes

def Held (g : Gathering) (built : Build) (s : Subject) : Prop :=
  ∃ c ∈ built.candidates, c ∈ g.offers ∧ c.pin = s.pin

structure Honest (g : Gathering) (built : Build) : Prop where
  told : ∀ s ∈ g.subjects,
    g.Held built s ∨ built.briefing.coverage.channels s.channel = .incomplete
  warned : ∀ note ∈ g.notes,
    note ∈ built.candidates ∨ built.briefing.coverage.channels .dependencies = .incomplete
  refused : ((∃ s ∈ g.subjects, ¬g.Held built s) ∨ ∃ note ∈ g.notes, note ∉ built.candidates) →
    built.briefing.coverage.complete = false ∧ built.briefing.coverage.actionEligible = false

/-- What came from a whole reader is one of the 128 worth most, as the item that is offered first
under its pin; and that item is required, or one listed behind it answers for the reader. Every
warning is one of the 128. -/
structure Traceable (g : Gathering) : Prop where
  told : ∀ s ∈ g.subjects, g.whole s.channel →
    ∃ i c, Listed worth 128 g.pool i c ∧ (c ∈ g.offers ∧ c.pin = s.pin) ∧ (c.required = true ∨
      ∃ j d, Listed worth 128 g.pool j d ∧ Behind worth i c j d ∧ Answers s.channel d.item.role)
  warned : ∀ note ∈ g.notes, ∃ i, Listed worth 128 g.pool i note

def ranked (g : Gathering) : List Candidate :=
  (ordered (firstBy Candidate.pin g.offers) g.notes).take maxItems

def optional (g : Gathering) : List Candidate := g.ranked.filter (!·.required)

structure Distinct (g : Gathering) : Prop where
  notes : g.notes.Nodup
  apart : ∀ c ∈ g.offers, c ∉ g.notes
  due : ∀ note ∈ g.notes, note.required = true
  read : g.whole .dependencies

end Gathering

/-! ## Trimming -/

theorem mem_trim (keep kept : ℕ) (plans : Channel → Plan) (cs : List Candidate) (c : Candidate) : c
    ∈ (trim keep kept plans cs).1 ↔ (c ∈ cs ∧ c.required = true) ∨ c ∈
    (cs.filter (!·.required)).take (keep - kept) := by
  induction cs generalizing kept plans with
  | nil => simp [trim]
  | cons d rest ih =>
    by_cases hr : d.required = true
    · simp only [trim, hr, if_true, List.mem_cons, ih, Bool.not_true, Bool.false_eq_true,
        not_false_eq_true, List.filter_cons_of_neg]
      by_cases hd : c = d
      · simp [hd, hr]
      · simp [hd]
    have hfalse : d.required = false := by simpa using hr
    have hskip : ((c = d ∨ c ∈ rest) ∧ c.required = true) ↔ c ∈ rest ∧ c.required = true := by
      by_cases hd : c = d
      · subst hd
        simp [hfalse]
      · simp [hd]
    by_cases hk : kept < keep
    · have hsub : keep - kept = keep - (kept + 1) + 1 := by omega
      simp only [trim, hfalse, Bool.false_eq_true, if_false, hk, if_true, List.mem_cons, ih,
        Bool.not_false, List.filter_cons_of_pos, hsub, List.take_succ_cons, hskip]
      tauto
    · have hsub : keep - kept = 0 := by omega
      have hnext : keep - (kept + 1) = 0 := by omega
      simp only [trim, hfalse, Bool.false_eq_true, if_false, hk, List.mem_cons, ih, hsub, hnext,
        List.take_zero, List.not_mem_nil, or_false, hskip]

theorem blame_complete (plans : Channel → Plan) (marked channel : Channel) :
    (blame plans marked channel).complete = false ↔ (plans channel).complete = false ∨ marked =
    channel := by
  by_cases h : channel = marked
  · simp [blame, h]
  · simp [blame, Function.update_of_ne h, Ne.symm h]

theorem trim_plans (keep kept : ℕ) (plans : Channel → Plan) (cs : List Candidate)
    (channel : Channel) : ((trim keep kept plans cs).2 channel).complete = false ↔
    (plans channel).complete = false ∨ ∃ d ∈ (cs.filter (!·.required)).drop (keep - kept), blamed
    d.item.role = channel := by
  induction cs generalizing kept plans with
  | nil => simp [trim]
  | cons d rest ih =>
    by_cases hr : d.required = true
    · simp only [trim, hr, if_true, ih, Bool.not_true, Bool.false_eq_true, not_false_eq_true,
        List.filter_cons_of_neg]
    have hfalse : d.required = false := by simpa using hr
    by_cases hk : kept < keep
    · have hsub : keep - kept = keep - (kept + 1) + 1 := by omega
      simp only [trim, hfalse, Bool.false_eq_true, if_false, hk, if_true, ih, Bool.not_false,
        List.filter_cons_of_pos, hsub, List.drop_succ_cons]
    have hsub : keep - kept = 0 := by omega
    have hnext : keep - (kept + 1) = 0 := by omega
    simp only [trim, hfalse, Bool.false_eq_true, if_false, hk, ih, hsub, hnext, List.drop_zero,
      Bool.not_false, List.filter_cons_of_pos, List.mem_cons, exists_eq_or_imp, blame_complete,
      or_assoc]

theorem mem_channels (channel : Channel) : channel ∈ channels := by
  cases channel <;> decide

theorem coverage_incomplete (scope : Scope) (states : Channel → ChannelState)
    (pending unverified : List String) (channel : Channel) (h : states channel = .incomplete) :
    (coverage scope states pending unverified).complete = false ∧
    (coverage scope states pending unverified).actionEligible = false := by
  have hall : channels.all (fun channel => decide (states channel ≠ .incomplete)) = false := by
    rw [List.all_eq_false]
    exact ⟨channel,mem_channels channel,by simp [h]⟩
  simp only [coverage, hall, Bool.false_and, and_self]

/-! ## Ranking -/

theorem role_rank_lt (role : Role) : roleRank role < 6 := by
  cases role <;> decide

theorem worth_eq (c : Candidate) : worth c = (if c.required then 0 else 6) + roleRank c.item.role := by
  rw [worth]
  cases c.item.role <;> rfl

theorem comes_before_worth (a b : Candidate) : comesBefore a b = true ↔ worth a ≤ worth b := by
  have ha := role_rank_lt a.item.role
  have hb := role_rank_lt b.item.role
  rw [comesBefore, worth_eq, worth_eq]
  cases a.required with
  | true =>
    cases b.required with
    | true => simp
    | false =>
      simp
      omega
  | false =>
    cases b.required with
    | true =>
      simp
      omega
    | false => simp

theorem answers_iff (channel : Channel) (role : Role) :
    blamed role = channel ↔ Answers channel role := by
  cases role <;> cases channel <;> simp [blamed, Answers]

theorem optional_worth (c : Candidate) : c.required = false ↔ 6 ≤ worth c := by
  have h := role_rank_lt c.item.role
  rw [worth_eq]
  cases c.required with
  | true =>
    simp
    omega
  | false => simp

/-- In a list by worth the required items are a prefix. -/
theorem required_prefix (cs : List Candidate) (h : cs.Pairwise fun a b => worth a ≤ worth b) :
    cs.filter (·.required) = cs.take (required cs Candidate.required) ∧
    cs.filter (!·.required) = cs.drop (required cs Candidate.required) := by
  induction cs with
  | nil => exact ⟨rfl,rfl⟩
  | cons c rest ih =>
    rw [List.pairwise_cons] at h
    by_cases hc : c.required = true
    · have hlen : required (c::rest) Candidate.required = required rest Candidate.required + 1 := by
        simp [required, hc]
      rw [hlen, List.take_succ_cons, List.drop_succ_cons, List.filter_cons_of_pos hc,
        List.filter_cons_of_neg (by simp [hc]), (ih h.2).1, (ih h.2).2]
      exact ⟨rfl,rfl⟩
    · have hlen : required (c::rest) Candidate.required = 0 := by simp [required, hc]
      have hall : ∀ d ∈ c::rest, d.required = false := by
        intro d hd
        rw [optional_worth]
        have hle : 6 ≤ worth c := (optional_worth c).mp (by simpa using hc)
        rcases List.mem_cons.mp hd with rfl | hd
        · exact hle
        · exact hle.trans (h.1 d hd)
      rw [hlen, List.take_zero, List.drop_zero, List.filter_eq_nil_iff, List.filter_eq_self]
      exact ⟨fun d hd => by simp [hall d hd],fun d hd => by simp [hall d hd]⟩

namespace Gathering
variable (g : Gathering)

theorem ranked_pool : g.ranked = (sortBy comesBefore g.pool).take 128 := rfl

theorem ranked_by_worth : g.ranked.Pairwise fun a b => worth a ≤ worth b :=
  (sort_by_sorted worth comesBefore comes_before_worth _).sublist (List.take_sublist _ _)

theorem optional_drop : g.optional = g.ranked.drop (required g.ranked Candidate.required) :=
  ( required_prefix g.ranked g.ranked_by_worth).2

theorem optional_after : ∀ x ∈ g.ranked.drop (required g.ranked Candidate.required),
    x.required = false := by
  intro x hx
  rw [← optional_drop] at hx
  simpa using (List.mem_filter.mp hx).2

variable {g}

/-- A pin stands for one offer of the pool. -/
theorem Distinct.ranked_once (h : g.Distinct) (pin : Option String) :
    g.ranked.Pairwise fun a b =>
      ¬((a ∈ g.offers ∧ a.pin = pin) ∧ b ∈ g.offers ∧ b.pin = pin) := by
  have hpool : g.pool.Pairwise fun a b =>
      ¬((a ∈ g.offers ∧ a.pin = pin) ∧ b ∈ g.offers ∧ b.pin = pin) := by
    rw [pool, List.pairwise_append]
    refine ⟨?_,?_,?_⟩
    · exact (first_by_distinct Candidate.pin g.offers).imp
        fun hne hab => hne (hab.1.2.trans hab.2.2.symm)
    · exact List.pairwise_of_forall_mem_list fun a ha b _ hab => h.apart a hab.1.1 ha
    · exact fun a _ b hb hab => h.apart b hab.2.1 hb
  refine List.Pairwise.sublist (List.take_sublist _ _) ?_
  exact ((sort_by_perm comesBefore g.pool).pairwise_iff fun hab hba => hab hba.symm).mpr hpool

end Gathering

section Built
variable (g : Gathering) (wire : Wire) (scope : ResolvedScope) (options : Options) (snapshot : ℕ)
  (basis : String) (collected : Collected) (hc : collected.candidates = g.ranked)
  (hp : ∀ channel, (collected.plans channel).complete = true ↔ g.whole channel)

theorem build_refused (keep : ℕ) (channel : Channel)
    (h : ((build wire scope options snapshot basis collected keep).plans channel).complete = false)
    : (build wire scope options snapshot basis collected keep).briefing.coverage.complete = false ∧
    (build wire scope options snapshot basis collected keep).briefing.coverage.actionEligible =
    false := by
  have hstate := coverage_incomplete scope.requested
    (fun channel => if ((build wire scope options snapshot basis collected keep).plans
      channel).complete then ChannelState.complete else .incomplete)
    (pendingReceipts snapshot options.after) (distinct collected.unverified) channel (by simp [h])
  cases ha : options.attention <;> by_cases hm : options.mode = "attention" <;>
    simpa [build, assemble, ha, hm] using hstate

theorem build_channels (hm : options.mode ≠ "attention") (keep : ℕ) (channel : Channel) :
    (build wire scope options snapshot basis collected keep).briefing.coverage.channels channel =
    .incomplete ↔ ((build wire scope options snapshot basis collected keep).plans channel).complete
    = false := by
  cases ha : options.attention <;> simp [build, assemble, coverage, ha, hm]

def Gathering.Fits (g : Gathering) (options : Options) : Prop :=
  options.mode = "attention" → g.subjects = [] ∧ g.notes = []

include hc in
/-- A build holds a prefix of the ranked candidates. -/
theorem mem_build (keep : ℕ) (c : Candidate) :
    c ∈ (build wire scope options snapshot basis collected keep).candidates ↔
    c ∈ g.ranked.take (required g.ranked Candidate.required + keep) := by
  have hsplit := required_prefix g.ranked g.ranked_by_worth
  rw [build, mem_trim, hc, Nat.sub_zero, List.take_add, List.mem_append, ← hsplit.1, ← hsplit.2,
    List.mem_filter]

include hc hp in
theorem build_unread (keep : ℕ) (channel : Channel) :
    ((build wire scope options snapshot basis collected keep).plans channel).complete = false ↔
    (g.whole channel → ∃ d ∈ g.ranked.drop (required g.ranked Candidate.required + keep),
      blamed d.item.role = channel) := by
  have hsplit := ( required_prefix g.ranked g.ranked_by_worth).2
  rw [build, trim_plans, hc, Nat.sub_zero, hsplit, List.drop_drop, ← hp]
  by_cases h : (collected.plans channel).complete = true
  · simp [h]
  · simp [h]

include hc hp in
/-- A build is honest when its prefix tells of what came from a whole reader and holds every
warning. -/
theorem honest_iff (hd : g.Distinct) (hfits : g.Fits options) (keep : ℕ) :
    g.Honest (build wire scope options snapshot basis collected keep) ↔
      (∀ s ∈ g.subjects, g.whole s.channel →
        Told g.ranked (fun c => c ∈ g.offers ∧ c.pin = s.pin)
          (fun d => blamed d.item.role = s.channel)
          (required g.ranked Candidate.required + keep)) ∧
      ∀ note ∈ g.notes, note ∈ g.ranked := by
  have hmem := mem_build g wire scope options snapshot basis collected hc keep
  have hplan := build_unread g wire scope options snapshot basis collected hc hp keep
  have hchannel := build_channels wire scope options snapshot basis collected
  have hrefused := build_refused wire scope options snapshot basis collected keep
  have hnote : ∀ note ∈ g.notes, note ∈ g.ranked →
      note ∈ (build wire scope options snapshot basis collected keep).candidates := by
    intro note hn hr
    rw [hmem, List.take_add, List.mem_append, ← ( required_prefix _ g.ranked_by_worth).1]
    exact .inl (List.mem_filter.mpr ⟨hr,hd.due note hn⟩)
  have hheld : ∀ s, g.Held (build wire scope options snapshot basis collected keep) s ↔
      ∃ c ∈ g.ranked.take (required g.ranked Candidate.required + keep),
        c ∈ g.offers ∧ c.pin = s.pin := by
    intro s
    simp only [Gathering.Held, hmem]
  have htold : ∀ s, (g.Held (build wire scope options snapshot basis collected keep) s ∨
      ((build wire scope options snapshot basis collected keep).plans s.channel).complete = false) ↔
      (g.whole s.channel → Told g.ranked (fun c => c ∈ g.offers ∧ c.pin = s.pin)
        (fun d => blamed d.item.role = s.channel)
        (required g.ranked Candidate.required + keep)) := by
    intro s
    rw [hplan, hheld, Told]
    by_cases hw : g.whole s.channel
    · simp only [hw, forall_const]
    · simp [hw]
  have hmode : ∀ s ∈ g.subjects, options.mode ≠ "attention" := by
    intro s hs hm
    rw [(hfits hm).1] at hs
    exact List.not_mem_nil hs
  constructor
  · intro h
    refine ⟨fun s hs => (htold s).mp ?_,fun note hn => ?_⟩
    · exact (h.told s hs).imp id (hchannel (hmode s hs) keep s.channel).mp
    · have hm : options.mode ≠ "attention" := by
        intro hm
        rw [(hfits hm).2] at hn
        exact List.not_mem_nil hn
      rcases h.warned note hn with hin | hdep
      · exact List.mem_of_mem_take ((hmem note).mp hin)
      · -- No role is charged to the dependencies.
        rw [hchannel hm, hplan] at hdep
        obtain ⟨d,_,hrole⟩ := hdep hd.read
        rw [answers_iff] at hrole
        exact hrole.elim
  · rintro ⟨hsubjects,hnotes⟩
    have hsub : ∀ s ∈ g.subjects, _ := fun s hs => (htold s).mpr (hsubjects s hs)
    have hwarned : ∀ note ∈ g.notes,
        note ∈ (build wire scope options snapshot basis collected keep).candidates :=
      fun note hn => hnote note hn (hnotes note hn)
    refine ⟨fun s hs => (hsub s hs).imp id (hchannel (hmode s hs) keep s.channel).mpr,
      fun note hn => .inl (hwarned note hn),?_⟩
    rintro (⟨s,hs,habsent⟩ | ⟨note,hn,habsent⟩)
    · exact hrefused s.channel ((hsub s hs).resolve_left habsent)
    · exact absurd (hwarned note hn) habsent

theorem note_listed (note : Candidate) :
    note ∈ g.ranked ↔ ∃ i, Listed worth 128 g.pool i note := by
  constructor
  · intro h
    obtain ⟨q,hq⟩ := List.mem_iff_getElem?.mp h
    obtain ⟨i,hi,_⟩ := listed_of_taken worth comesBefore comes_before_worth 128 g.pool q note hq
    exact ⟨i,hi⟩
  · rintro ⟨i,hi⟩
    exact List.mem_of_getElem? (listed_at worth comesBefore comes_before_worth 128 g.pool i note hi)

include hc hp in
/-- Every build is honest if and only if every loss is traceable. -/
theorem builds_honest_iff (hd : g.Distinct) (hfits : g.Fits options) :
    (∀ keep, keep ≤ g.optional.length →
      g.Honest (build wire scope options snapshot basis collected keep)) ↔ g.Traceable := by
  have hlen : required g.ranked Candidate.required + g.optional.length = g.ranked.length := by
    rw [g.optional_drop, List.length_drop]
    exact Nat.add_sub_cancel' (required_le_length _ _)
  have hheld : ∀ s : Subject, (∀ keep, keep ≤ g.optional.length →
      Told g.ranked (fun c => c ∈ g.offers ∧ c.pin = s.pin)
        (fun d => blamed d.item.role = s.channel)
        (required g.ranked Candidate.required + keep)) ↔
      ∃ i c, Listed worth 128 g.pool i c ∧ (c ∈ g.offers ∧ c.pin = s.pin) ∧ (c.required = true ∨
        ∃ j d, Listed worth 128 g.pool j d ∧ Behind worth i c j d ∧
          Answers s.channel d.item.role) := by
    intro s
    simp only [← answers_iff]
    rw [← held_iff worth comesBefore comes_before_worth 128 g.pool, ← g.ranked_pool,
      ← told_iff_held g.ranked Candidate.required _ _ g.optional_after (hd.ranked_once s.pin)]
    constructor
    · intro h kept hlo hhi
      have hat := h (kept - required g.ranked Candidate.required) (by omega)
      rwa [Nat.add_sub_cancel' hlo] at hat
    · intro h keep hk
      exact h _ (by omega) (by omega)
  simp only [honest_iff g wire scope options snapshot basis collected hc hp hd hfits]
  constructor
  · intro h
    refine ⟨fun s hs hw => (hheld s).mp fun keep hk => (h keep hk).1 s hs hw,fun note hn => ?_⟩
    exact (note_listed g note).mp ((h 0 (Nat.zero_le _)).2 note hn)
  · intro h keep hk
    refine ⟨fun s hs hw => (hheld s).mpr (h.told s hs hw) keep hk,fun note hn => ?_⟩
    exact (note_listed g note).mpr (h.warned note hn)

end Built

/-! ## Candidates -/

theorem merge_keeps (kept more : List Candidate) :
    merge kept more = keepNew Candidate.pin kept more := by
  induction more generalizing kept with
  | nil => rfl
  | cons c rest ih =>
    have hany : kept.any (fun k => k.pin == c.pin) = holds Candidate.pin kept c := by
      simp only [holds, beq_eq_decide]
    rw [keepNew, merge, List.foldl_cons, hany, ← merge, ih]
    by_cases h : holds Candidate.pin kept c = true
    · rw [if_pos h, if_pos h]
    · rw [if_neg h, if_neg h, ← ih]

def Candidate.Formed (c : Candidate) : Prop :=
  c.pin.isSome = true ∧ (c.item.role = .warning → c.item.evidenceRefs = [])

theorem concept_item_formed (wire : Wire) (view : Json) (required : Bool) (c : Candidate)
    (h : conceptItem wire view required = some c) : c.Formed := by
  simp only [conceptItem] at h
  split at h
  · cases h
  · split_ifs at h <;> cases h <;> simp [Candidate.Formed, Candidate.pin]

theorem row_items_formed (wire : Wire) (scope : ResolvedScope) (required : Bool) (rows : List Json)
    (c : Candidate) (h : c ∈ rowItems wire scope required rows) : c.Formed := by
  obtain ⟨view,_,hview⟩ := List.mem_filterMap.mp h
  split_ifs at hview
  exact concept_item_formed wire view required c hview

section Reads
variable (site : Site) (wire : Wire) (reads : EngineReads) (scope : ResolvedScope)
  (options : Options)

variable (memo : Memo) (cited : List String)

theorem cited_assertion_formed (id : String) (view system : Json) (c : Candidate)
    (h : (citedAssertion site wire reads scope options memo id view system).2 = .item c) :
    c.Formed := by
  by_cases hi : invalidated system = true
  · simp [citedAssertion, hi] at h
  by_cases ha : admits scope none (contextsOf view) = true
  · cases hp : propositionOf view with
    | none => simp [citedAssertion, hi, ha, hp] at h
    | some proposition =>
      simp only [citedAssertion, hi, ha, hp, Bool.not_true, Bool.false_eq_true, if_false] at h
      cases h
      exact ⟨rfl,fun h => nomatch h⟩
  · simp [citedAssertion, hi, ha] at h

theorem cited_proposition_formed (id : String) (view : Json) (c : Candidate)
    (h : citedProposition site wire reads scope options id view = .item c) : c.Formed := by
  simp only [citedProposition] at h
  split at h
  · cases h
  · split_ifs at h
    cases h
    exact ⟨rfl,fun h => nomatch h⟩

theorem cited_item_formed (id : String) (c : Candidate)
    (h : (citedItem site wire reads scope options memo id).2 = .item c) : c.Formed := by
  simp only [citedItem] at h
  split at h
  · cases h
  rename_i parsed _
  split at h
  · rename_i view system _ _
    by_cases ha : (system.get "state").any (·.isStr "active") = true
    · simp only [ha, Bool.not_true, Bool.false_eq_true, if_false] at h
      cases hk : parsed.kind with
      | assertion =>
        simp only [hk] at h
        exact cited_assertion_formed site wire reads scope options _ _ _ _ c h
      | proposition =>
        simp only [hk] at h
        exact cited_proposition_formed site wire reads scope options _ _ c h
      | concept =>
        by_cases hs : admitsRow scope view = true
        · cases hc : conceptItem wire view false with
          | none => simp [hk, hs, hc] at h
          | some candidate =>
            simp only [hk, hs, hc, Bool.not_true, Bool.false_eq_true, if_false] at h
            cases h
            exact concept_item_formed wire view false _ hc
        · simp [hk, hs] at h
      | evidence =>
        by_cases hs : admitsRow scope view = true
        · simp only [hk, hs, Bool.not_true, Bool.false_eq_true, if_false] at h
          cases h
          exact ⟨rfl,fun h => nomatch h⟩
        · simp [hk, hs] at h
      | activity => simp [hk] at h
    · simp [ha] at h
  · cases h

theorem cited_items_formed (ids : List String) (c : Candidate)
    (h : c ∈ (citedItems site wire reads scope options memo ids).2.1) : c.Formed := by
  induction ids generalizing memo with
  | nil => simp [citedItems] at h
  | cons id rest ih =>
    simp only [citedItems] at h
    cases hr : (citedItem site wire reads scope options memo id).2 with
    | item candidate =>
      simp only [hr, List.mem_cons] at h
      rcases h with rfl | h
      · exact cited_item_formed site wire reads scope options memo id c hr
      · exact ih _ h
    | nothing =>
      simp only [hr] at h
      exact ih _ h
    | outOfScope =>
      simp only [hr] at h
      exact ih _ h
    | unavailable =>
      simp only [hr] at h
      exact ih _ h

theorem exact_channel_formed (command : String) (c : Candidate)
    (h : c ∈ (exactChannel wire reads scope options memo command).items) : c.Formed := by
  simp only [exactChannel] at h
  split at h
  · cases h
  · exact row_items_formed wire scope _ _ c h

theorem search_channel_formed (type filter : String) (c : Candidate)
    (h : c ∈ (searchChannel wire reads scope options memo type filter).items) : c.Formed := by
  simp only [searchChannel] at h
  split_ifs at h
  · cases h
  · split at h
    · cases h
    · exact row_items_formed wire scope _ _ c h

/-- The readers' answers one after the other, the pass first. -/
def offersFor : List Candidate :=
  let gathered := gather site wire reads scope options cited
  gathered.cited++gathered.items .constraints++gathered.items .commitments++
    gathered.items .failures++gathered.items .experiences++gathered.items .skills

theorem merged_first : (gather site wire reads scope options cited).merged =
    firstBy Candidate.pin (offersFor site wire reads scope options cited) := by
  rw [Gathered.merged, merge_keeps, keep_new_nil]
  rfl

theorem offers_formed (c : Candidate)
    (h : c ∈ offersFor site wire reads scope options cited) : c.Formed := by
  simp only [offersFor, List.mem_append, or_assoc] at h
  rcases h with h | h | h | h | h | h
  · exact cited_items_formed site wire reads scope options _ _ c h
  · exact exact_channel_formed wire reads scope options _ _ c h
  · exact exact_channel_formed wire reads scope options _ _ c h
  all_goals exact search_channel_formed wire reads scope options _ _ _ c h

theorem mem_dependency_notes (candidates : List Candidate) (note : Candidate)
    (h : note ∈ dependencyNotes site reads options memo candidates) :
    ∃ c ∈ candidates, ∃ status, note = noteOf c status := by
  induction candidates generalizing memo with
  | nil => simp [dependencyNotes] at h
  | cons c rest ih =>
    simp only [dependencyNotes] at h
    split at h
    · rcases List.mem_cons.mp h with rfl | h
      · exact ⟨c,by simp,_,rfl⟩
      · obtain ⟨d,hd,status,rfl⟩ := ih _ h
        exact ⟨d,by simp [hd],status,rfl⟩
    · obtain ⟨d,hd,status,rfl⟩ := ih _ h
      exact ⟨d,by simp [hd],status,rfl⟩

theorem dependency_notes_pins (candidates : List Candidate) :
    ((dependencyNotes site reads options memo candidates).map Candidate.pin).Sublist
    (candidates.map Candidate.pin) := by
  induction candidates generalizing memo with
  | nil => exact List.Sublist.refl _
  | cons c rest ih =>
    simp only [dependencyNotes]
    split
    · exact (ih _).cons_cons _
    · exact (ih _).cons _

def inScope (answer : Except Failure (List Json)) : List Json :=
  match answer with
  | .error _ => []
  | .ok rows => rows.filter fun view => isMap view && admitsRow scope view

/-- The channel a cited item is part of. -/
def home : Role → Channel
  | .experience => .experiences
  | .procedure => .skills
  | .constraint | .warning | .fact | .source => .evidence

/-- What `collect` gathers: the cited items, the items of the channels, and the in-scope rows of
the two exact ones. -/
def subjectsOf (cited : List String) : List Subject :=
  let gathered := gather site wire reads scope options cited
  gathered.cited.map (fun c => ⟨home c.item.role,c.pin⟩)++
    channels.flatMap (fun channel => (gathered.items channel).map fun c => ⟨channel,c.pin⟩)++
    (inScope scope (exactAnswer reads options constraintsCommand)).map
      (fun view => ⟨.constraints,stringAt view "id"⟩)++
    (inScope scope (exactAnswer reads options commitmentsCommand)).map
      (fun view => ⟨.commitments,stringAt view "id"⟩)

def ExactWhole (command : String) : Prop :=
  ∃ rows, exactAnswer reads options command = .ok rows ∧ rows.length ≤ 32

def SearchWhole (type filter : String) : Prop :=
  (isBlank (options.query.getD "") = false → options.asOfSeq = none) ∧
    ∃ rows, searchAnswer reads options type filter = .ok rows ∧
      (isBlank (options.query.getD "") = true → rows.length ≤ 8)

/-- The reader has seen everything that it answers for. -/
def Whole : Channel → Prop
  | .constraints => ExactWhole reads options constraintsCommand
  | .commitments => ExactWhole reads options commitmentsCommand
  | .dependencies => True
  | .failures => SearchWhole reads options "Experience" failuresFilter
  | .experiences => SearchWhole reads options "Experience" experiencesFilter
  | .skills => SearchWhole reads options "Skill" ""
  | .evidence => options.evidenceComplete = true

theorem exact_channel_whole (command : String) :
    (exactChannel wire reads scope options memo command).plan.complete = true ↔
      ExactWhole reads options command := by
  rw [exactChannel, ExactWhole]
  cases exactAnswer reads options command with
  | error e => simp
  | ok rows => simp [channelLimit]

theorem search_channel_whole (type filter : String) :
    (searchChannel wire reads scope options memo type filter).plan.complete = true ↔
      SearchWhole reads options type filter := by
  simp only [searchChannel, SearchWhole]
  by_cases hpast : (!isBlank (options.query.getD "") && options.asOfSeq.isSome) = true
  · rw [if_pos hpast]
    simp only [Bool.and_eq_true, Bool.not_eq_true', Option.isSome_iff_ne_none] at hpast
    simp [hpast]
  have hnow : isBlank (options.query.getD "") = false → options.asOfSeq = none := by
    simpa using hpast
  rw [if_neg hpast]
  cases searchAnswer reads options type filter with
  | error e => simp
  | ok rows =>
    cases hb : isBlank (options.query.getD "") with
    | false => simp [hnow hb]
    | true =>
      by_cases hlen : searchLimit < rows.length
      · have hmore : ¬rows.length ≤ 8 := Nat.not_le_of_lt hlen
        simp [hlen, hmore]
      · have hle : rows.length ≤ 8 := Nat.le_of_not_lt hlen
        simp [hlen, hle]

theorem whole_iff (channel : Channel) :
    ((gather site wire reads scope options cited).plans channel).complete = true ↔
      Whole reads options channel := by
  cases channel with
  | constraints => exact exact_channel_whole wire reads scope options _ _
  | commitments => exact exact_channel_whole wire reads scope options _ _
  | dependencies => exact iff_of_true rfl trivial
  | failures => exact search_channel_whole wire reads scope options _ _ _
  | experiences => exact search_channel_whole wire reads scope options _ _ _
  | skills => exact search_channel_whole wire reads scope options _ _ _
  | evidence => exact Iff.rfl

/-- What a call gathers, and for each row that is offered first the warning it calls for. -/
def gatheringFor (cited : List String) : Gathering :=
  if options.mode = "attention" then ⟨[],[],[],fun _ => True⟩
  else
    let offers := offersFor site wire reads scope options cited
    ⟨offers,dependencyNotes site reads options (gather site wire reads scope options cited).memo
        (firstBy Candidate.pin offers),
      subjectsOf site wire reads scope options cited,Whole reads options⟩

theorem gathering_distinct : (gatheringFor site wire reads scope options cited).Distinct := by
  by_cases hm : options.mode = "attention"
  · rw [gatheringFor, if_pos hm]
    exact ⟨List.nodup_nil,nofun,nofun,trivial⟩
  rw [gatheringFor, if_neg hm]
  have hpins : ((firstBy Candidate.pin (offersFor site wire reads scope options cited)).map
      Candidate.pin).Nodup := List.pairwise_map.mpr (first_by_distinct _ _)
  have hnotes := mem_dependency_notes site reads options
    (gather site wire reads scope options cited).memo
    (firstBy Candidate.pin (offersFor site wire reads scope options cited))
  refine ⟨List.Nodup.of_map _ (hpins.sublist (dependency_notes_pins _ _ _ _ _)),?_,?_,trivial⟩
  · intro c hc hn
    obtain ⟨d,_,status,rfl⟩ := hnotes c hn
    have hrefs := (offers_formed site wire reads scope options cited _ hc).2 rfl
    exact List.cons_ne_nil _ _ hrefs
  · intro note hn
    obtain ⟨d,_,status,rfl⟩ := hnotes note hn
    rfl

theorem gathering_fits : (gatheringFor site wire reads scope options cited).Fits options := by
  intro hm
  rw [gatheringFor, if_pos hm]
  exact ⟨rfl,rfl⟩

theorem collected_candidates : (collectedFor site wire reads scope options cited).candidates =
    (gatheringFor site wire reads scope options cited).ranked := by
  by_cases hm : options.mode = "attention"
  · rw [collectedFor, gatheringFor, if_pos hm, if_pos hm]
    rfl
  · rw [collectedFor, gatheringFor, if_neg hm, if_neg hm, Gathering.ranked, collect, merged_first]

theorem collected_whole (channel : Channel) :
    ((collectedFor site wire reads scope options cited).plans channel).complete = true ↔
      (gatheringFor site wire reads scope options cited).whole channel := by
  by_cases hm : options.mode = "attention"
  · rw [collectedFor, gatheringFor, if_pos hm, if_pos hm]
    exact iff_of_true rfl trivial
  · rw [collectedFor, gatheringFor, if_neg hm, if_neg hm]
    exact whole_iff site wire reads scope options cited channel

/-! ## Deliveries -/

/-- The briefing with the first `keep` optional items. -/
def buildFor (nexus : Nexus) (basis : String) (cited : List String) (keep : ℕ) : Build :=
  build wire scope options (options.asOfSeq.getD nexus.seq) basis
    (collectedFor site wire reads scope options cited) keep

variable (session : Session) (nexus : Nexus) (basis : String) (scopeInput : Scope)
  (cited : List String)

theorem optional_count : optionalCount (collectedFor site wire reads scope options cited).candidates =
    (gatheringFor site wire reads scope options cited).optional.length := by
  rw [optionalCount, collected_candidates]
  rfl

theorem deliver_built (hscope : resolveScopeToRead site session nexus scopeInput = .ok scope)
    (maxTokens : ℕ) (d : Delivered)
    (h : deliver site wire session nexus reads basis scopeInput cited options maxTokens = .ok d) :
    ∃ keep ≤ (gatheringFor site wire reads scope options cited).optional.length,
      d.build = buildFor site wire reads scope options nexus basis cited keep := by
  simp only [deliver, hscope, optional_count] at h
  split at h
  · cases h
  · cases h
  rename_i keep best hbest
  cases h
  obtain ⟨hfit,_,hle⟩ := longest_fitting_fits _ 0 _ keep best (Nat.zero_le _) hbest
  simp only [fits, Except.ok.injEq] at hfit
  split_ifs at hfit
  cases hfit
  exact ⟨keep,hle,rfl⟩

theorem deliver_at (hscope : resolveScopeToRead site session nexus scopeInput = .ok scope)
    (hgrow : ∀ keep < (gatheringFor site wire reads scope options cited).optional.length,
      wire.size (buildFor site wire reads scope options nexus basis cited keep).briefing <
        wire.size (buildFor site wire reads scope options nexus basis cited (keep + 1)).briefing)
    (keep : ℕ) (hk : keep ≤ (gatheringFor site wire reads scope options cited).optional.length) :
    ∃ d, deliver site wire session nexus reads basis scopeInput cited options
        (wire.size (buildFor site wire reads scope options nexus basis cited keep).briefing) =
          .ok d ∧ d.build = buildFor site wire reads scope options nexus basis cited keep := by
  have hup : ∀ i j, i < j →
      j ≤ (gatheringFor site wire reads scope options cited).optional.length →
      wire.size (buildFor site wire reads scope options nexus basis cited i).briefing <
        wire.size (buildFor site wire reads scope options nexus basis cited j).briefing := by
    intro i j hij hj
    induction j with
    | zero => omega
    | succ j ih =>
      have hstep := hgrow j (by omega)
      by_cases heq : i = j
      · exact heq ▸ hstep
      · exact (ih (by omega) (by omega)).trans hstep
  simp only [deliver, hscope, optional_count]
  rw [longest_fitting_threshold _ (buildFor site wire reads scope options nexus basis cited) keep
    (gatheringFor site wire reads scope options cited).optional.length]
  · exact ⟨_,rfl,rfl⟩
  · intro j hj
    have hle : wire.size (buildFor site wire reads scope options nexus basis cited j).briefing ≤
        wire.size (buildFor site wire reads scope options nexus basis cited keep).briefing := by
      by_cases heq : j = keep
      · rw [heq]
      · exact (hup j keep (by omega) hk).le
    exact congrArg Except.ok (if_pos hle)
  · intro j hlt hj
    exact congrArg Except.ok (if_neg (Nat.not_le_of_lt (hup keep j hlt hj)))
  · exact Nat.zero_le _
  · exact hk

end Reads

/-! An open commitment is asked for, and the pass cites it. The citation is read first and is
optional, so the required item of the channel is not added. -/

def parseConcept (text : String) : Option ElementId :=
  match text.toList with
  | 'C':: '-'::digits =>
    if digits.isEmpty || !digits.all Char.isDigit then none
    else some ⟨.concept,digits.foldl (fun n d => 10*n+(d.toNat - 48)) 0⟩
  | _ => none

def conceptSite : Site := { plainSite with parseId := parseConcept }

def plainWire : Wire where
  shown := fun value => value.asStr.getD ""
  stringify := fun value => value.asStr.getD "null"
  clip := fun n text => String.ofList (text.toList.take n)
  size := fun briefing => 600+(briefing.items.map fun item => 170+item.text.length).sum

def openCommitment : Json :=
  .obj [("id",.str "C-1"), ("type",.str "Commitment"), ("name",.str "release"),
    ("attributes",.obj [("status",.str "pending"), ("summary",.str "ship the release")]),
    ("_system",.obj [("state",.str "active"), ("version",.int 1)])]

def deploySkill : Json :=
  .obj [("id",.str "C-2"), ("type",.str "Skill"), ("name",.str "deploy"),
    ("_system",.obj [("state",.str "active"), ("version",.int 1)])]

def skillsCommand : String :=
  "FIND(?c) WHERE \x7b ?c SEARCH CONCEPT :query WITH TYPE \"Skill\" LIMIT 16 \x7d LIMIT 8"

def commitmentReads : EngineReads where
  query := fun command params =>
    if params.lookup "id" = some (.str "C-1") ∨ command = commitmentsCommand++" LIMIT 33" then
      .ok [openCommitment]
    else if command = skillsCommand then .ok [deploySkill]
    else .ok []
  conceptName := fun _ => none

def askOptions : Options where
  mode := "answer"
  validAt := none
  asOfSeq := none
  query := some "deploy"
  after := []
  uncertainties := []
  evidenceComplete := true
  summary := some "Deploys went fine."
  attention := none
  attentionCursor := none
  warnings := []

def wholeSpace : ResolvedScope := ⟨⟨none,[]⟩,none,[]⟩

def askedFor (cited : List String) (maxTokens : ℕ) : Except Failure Delivered :=
  deliver conceptSite plainWire insightSession (insightNexus .active) commitmentReads "basis-0"
    ⟨none,[]⟩ cited askOptions maxTokens

def askedGathering (cited : List String) : Gathering :=
  gatheringFor conceptSite plainWire commitmentReads wholeSpace askOptions cited

def commitmentItem : Candidate :=
  ⟨⟨"","Open commitment (pending): ship the release",.constraint,.accepted,[],false,none⟩,
    [("C-1",1)],true⟩

def skillItem : Candidate :=
  ⟨⟨"","Procedure candidate (unproven, grants no permission): deploy",.procedure,.notApplicable,[],
    false,some .unproven⟩,[("C-2",1)],false⟩

end AndaBrain.WorkerMemory
