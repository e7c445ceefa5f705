import AndaBrain.Trust

/-!
# The samples of a proposal

A proposal takes the first samples, in native order, whose two roots are free, and the sources of
the others that could have been among them stay in the target.
-/

set_option autoImplicit false

namespace AndaBrain.Trust
open Foundation.Resumption Foundation.ConditionalStore
open Utility (Entries insertEntry)

def World.held (w : World) (root : String) : Bool :=
  (value w.journal (.unit root) : Option RootClaim).any fun claim => !claim.abandoned

def roots (s : Sample) : List String := [s.unit,s.claimGroup]

/-! ## The first samples -/

section Spec
variable (held : String → Bool) (needed : ℕ)

/-- No proposal holds a root of the sample, and no sample that is taken has it. -/
def Eligible (taken : List Sample) (s : Sample) : Prop :=
  ∀ root ∈ roots s, held root = false ∧ ∀ t ∈ taken, root ∉ roots t

instance (taken : List Sample) (s : Sample) : Decidable (Eligible held taken s) :=
  inferInstanceAs (Decidable (∀ root ∈ roots s, _))

def take (taken : List Sample) (s : Sample) : List Sample :=
  if Eligible held taken s ∧ taken.length < needed then taken++[s] else taken

/-- The first `needed` eligible samples. -/
def firstN (samples : List Sample) : List Sample := samples.foldl (take held needed) []

/-- Whether one of these samples, the latest first, has left the root behind: each leaves its unit,
and its claim group too where its unit had not been left. -/
def left (root : String) : List Sample → Bool
  | [] => false
  | s::earlier => s.unit == root || (s.claimGroup == root && !left s.unit earlier) ||
    left root earlier

/-- A sample that is eligible at its place has two roots, and no sample before it left one. -/
def Apart (samples : List Sample) : Prop :=
  ∀ before s after, samples = before++s::after → Eligible held (firstN held needed before) s →
    s.unit ≠ s.claimGroup ∧ ∀ root ∈ roots s, left root before.reverse = false

/-- The selection holds the first samples, and what is eligible at its place keeps its source. -/
structure FirstN (samples : List Sample) (sources kept : List Source) (chosen : List Sample) :
    Prop where
  selected : chosen = firstN held needed samples
  kept : ∀ before s after, samples = before++s::after → Eligible held (firstN held needed before) s →
    ∀ source ∈ sources, source.reference = some s.reference → source ∈ kept

theorem first_more (before : List Sample) (s : Sample) :
    firstN held needed (before++[s]) = take held needed (firstN held needed before) s := by
  rw [firstN, List.foldl_append]
  rfl

end Spec

/-! ## The loop -/

theorem reason_insert (m : Entries) (key value reference : String) :
    excludedReason (insertEntry m key value) reference =
      if reference = key then some value else excludedReason m reference := by
  have hinsert (rest : Entries) (hrest : ∀ e ∈ rest, e.1 ≠ key) :
      excludedReason (rest.orderedInsert (fun a b => a.1 ≤ b.1) (key,value)) reference =
        if reference = key then some value else excludedReason rest reference := by
    unfold excludedReason
    induction rest with
    | nil => by_cases h : reference = key <;> simp [h, eq_comm]
    | cons e rest ih =>
      have hne := hrest e List.mem_cons_self
      have ih := ih fun e' he' => hrest e' (List.mem_cons_of_mem _ he')
      rw [List.orderedInsert_cons]
      split
      · by_cases h : reference = key <;> simp [h, eq_comm]
      · rw [List.find?_cons, List.find?_cons]
        by_cases he : e.1 = reference
        · simp [he, he ▸ hne]
        · simpa [he] using ih
  rw [insertEntry, hinsert _ fun e he => by simpa using (List.mem_filter.1 he).2]
  by_cases h : reference = key
  · rw [if_pos h, if_pos h]
  rw [if_neg h, if_neg h, excludedReason, excludedReason, List.find?_filter]
  congr 2
  funext e
  by_cases he : e.1 = reference <;> simp [he, h]

section Loop
variable (held : String → Bool) (needed : ℕ)

/-- What the loop makes of one sample. -/
def judge (acc : Selection) (s : Sample) : Selection :=
  if s.unit ∈ acc.seen then acc.exclude s "duplicate_evidence_root"
  else
    let acc := { acc with seen := s.unit::acc.seen }
    if s.claimGroup ∈ acc.seen then acc.exclude s "duplicate_evidence_root"
    else
      let acc := { acc with seen := s.claimGroup::acc.seen }
      if held s.unit || held s.claimGroup then acc.exclude s "root_already_consumed_or_reserved"
      else if acc.selected.length < needed then { acc with selected := acc.selected++[s] }
      else acc.exclude s "outside_fixed_first_n_group"

def judged (samples : List Sample) (excluded : Entries) : Selection :=
  samples.foldl (judge held needed) ⟨[],[],excluded⟩

theorem judged_more (before : List Sample) (s : Sample) (excluded : Entries) :
    judged held needed (before++[s]) excluded =
      judge held needed (judged held needed before excluded) s := by
  rw [judged, List.foldl_append]
  rfl

theorem judge_seen (acc : Selection) (s : Sample) (root : String) :
    root ∈ (judge held needed acc s).seen ↔
      s.unit = root ∨ (s.claimGroup = root ∧ s.unit ∉ acc.seen) ∨ root ∈ acc.seen := by
  unfold judge Selection.exclude
  grind

theorem judge_selected (acc : Selection) (s : Sample) :
    (judge held needed acc s).selected = if s.unit ∉ acc.seen ∧ s.claimGroup ∉ s.unit::acc.seen ∧
      (held s.unit || held s.claimGroup) = false ∧ acc.selected.length < needed then
        acc.selected++[s] else acc.selected := by
  unfold judge Selection.exclude
  grind

theorem judge_aside (acc : Selection) (s : Sample) (reference : String) (h : reference ≠ s.reference) :
    excludedReason (judge held needed acc s).excluded reference =
      excludedReason acc.excluded reference := by
  have hinsert (m : Entries) (reason : String) :
      excludedReason (insertEntry m s.reference reason) reference = excludedReason m reference := by
    rw [reason_insert, if_neg h]
  unfold judge Selection.exclude
  grind

theorem judged_aside (after : List Sample) (acc : Selection) (reference : String)
    (h : reference ∉ after.map Sample.reference) :
    excludedReason (after.foldl (judge held needed) acc).excluded reference =
      excludedReason acc.excluded reference := by
  induction after generalizing acc with
  | nil => rfl
  | cons s rest ih =>
    rw [List.map_cons, List.mem_cons, not_or] at h
    rw [List.foldl_cons, ih _ h.2, judge_aside held needed acc s reference h.1]

/-- The loop has seen what was left. -/
theorem judged_seen (before : List Sample) (excluded : Entries) (root : String) :
    root ∈ (judged held needed before excluded).seen ↔ left root before.reverse = true := by
  induction before using List.reverseRecOn generalizing root with
  | nil => simp [judged, left]
  | append_singleton before s ih =>
    rw [judged_more, judge_seen, List.reverse_append, List.reverse_singleton, List.singleton_append,
      left, ih, ih]
    simp [or_assoc]

theorem judged_roots (before : List Sample) (excluded : Entries) :
    ∀ t ∈ (judged held needed before excluded).selected, ∀ root ∈ roots t,
      root ∈ (judged held needed before excluded).seen := by
  induction before using List.reverseRecOn with
  | nil => simp [judged]
  | append_singleton before s ih =>
    intro t ht root hroot
    rw [judged_more] at ht ⊢
    rw [judge_seen]
    rw [judge_selected] at ht
    split at ht
    · rename_i hnew
      rcases List.mem_append.1 ht with ht | ht
      · exact .inr (.inr (ih t ht root hroot))
      · rw [List.mem_singleton] at ht
        subst ht
        rcases List.mem_pair.1 hroot with rfl | rfl
        · exact .inl rfl
        · exact .inr (.inl ⟨rfl,hnew.1⟩)
    · exact .inr (.inr (ih t ht root hroot))

theorem apart_prefix (before after : List Sample) (h : Apart held needed (before++after)) :
    Apart held needed before := by
  rintro front s back rfl
  exact h front s (back++after) (by simp)

/-- Where eligible samples stand apart, the loop takes the first ones. -/
theorem judged_first (samples : List Sample) (excluded : Entries) (h : Apart held needed samples) :
    (judged held needed samples excluded).selected = firstN held needed samples := by
  induction samples using List.reverseRecOn with
  | nil => rfl
  | append_singleton before s ih =>
    have ih := ih ( apart_prefix held needed before [s] h)
    rw [judged_more, judge_selected, first_more, take, ih]
    by_cases he : Eligible held (firstN held needed before) s
    · obtain ⟨hne,hfree⟩ := h before s [] rfl he
      have hseen (root : String) (hr : root ∈ roots s) :
          root ∉ (judged held needed before excluded).seen := by
        rw [judged_seen, hfree root hr]
        exact Bool.false_ne_true
      have hu := hseen s.unit (by simp [roots])
      have hg := hseen s.claimGroup (by simp [roots])
      have hheld : (held s.unit || held s.claimGroup) = false := by
        simp [(he s.unit (by simp [roots])).1, (he s.claimGroup (by simp [roots])).1]
      simp [hu, hg, hheld, he, Ne.symm hne]
    · have hspec : ¬(Eligible held (firstN held needed before) s ∧
          (firstN held needed before).length < needed) := fun h => he h.1
      rw [if_neg hspec, if_neg]
      rintro ⟨hu,hg,hheld,-⟩
      rw [Bool.or_eq_false_iff] at hheld
      have hseen : ∀ root ∈ roots s, root ∉ (judged held needed before excluded).seen := by
        intro root hr
        rcases List.mem_pair.1 hr with rfl | rfl
        · exact hu
        · exact fun h => hg (List.mem_cons_of_mem _ h)
      refine he fun root hr => ⟨?_,fun t ht hroot => ?_⟩
      · rcases List.mem_pair.1 hr with rfl | rfl
        · exact hheld.1
        · exact hheld.2
      · exact hseen root hr (judged_roots held needed before excluded t (ih ▸ ht) root hroot)

end Loop

/-! ## The sources -/

/-- What is known of the sources that were read, where no two of them name one record. -/
structure Read (g : Gathered) : Prop where
  named : ∀ s ∈ g.candidates, s.reference ∈ g.sources.filterMap Source.reference
  distinct : (g.candidates.map Sample.reference).Nodup
  pending : ∀ s ∈ g.candidates, ∀ reason, excludedReason g.excluded s.reference = some reason →
    reason = "verification_not_committed"
  known : ∀ reference reason, excludedReason g.excluded reference = some reason →
    reason = "verification_not_committed" ∨ reference ∈ g.sources.filterMap Source.reference

section Sources
variable {g : Gathered}

theorem read_uncommitted (source : Source) (h : Read g) :
    Read { g.exclude source.clientKey "verification_not_committed" with
      sources := g.sources++[source]
      unresolved := true } := by
  have hmem (reference : String) (hr : reference ∈ g.sources.filterMap Source.reference) :
      reference ∈ (g.sources++[source]).filterMap Source.reference := by
    rw [List.filterMap_append]
    exact List.mem_append_left _ hr
  refine ⟨fun s hs => hmem _ (h.named s hs),h.distinct,fun s hs reason hreason => ?_,
    fun reference reason hreason => ?_⟩
  · simp only [Gathered.exclude, reason_insert] at hreason
    split at hreason
    · exact (Option.some.inj hreason).symm
    · exact h.pending s hs reason hreason
  · simp only [Gathered.exclude, reason_insert] at hreason
    split at hreason
    · exact .inl (Option.some.inj hreason).symm
    · exact (h.known reference reason hreason).imp_right (hmem reference)

theorem read_added (actor id : String) (source : Source) (sample : Except TrustError Sample)
    (hnew : id ∉ g.sources.filterMap Source.reference) (h : Read g) :
    Read ({ g with sources := g.sources++[{ source with reference := some id }] }.add actor id sample)
      := by
  let refs := (g.sources++[{ source with reference := some id }]).filterMap Source.reference
  have hrefs : refs = g.sources.filterMap Source.reference++[id] := by
    simp [refs]
  have hmem (reference : String) (hr : reference ∈ g.sources.filterMap Source.reference) :
      reference ∈ refs := by
    rw [hrefs]
    exact List.mem_append_left _ hr
  have hid : id ∈ refs := by
    rw [hrefs]
    exact List.mem_append_right _ (List.mem_singleton_self _)
  have hexcluded (reason : String) (unresolved : Bool) :
      Read { sources := g.sources++[{ source with reference := some id }]
             candidates := g.candidates
             excluded := insertEntry g.excluded id reason
             unresolved := unresolved } := by
    refine ⟨fun s hs => hmem _ (h.named s hs),h.distinct,fun s hs reason hreason => ?_,
      fun reference reason hreason => ?_⟩
    · have hne : s.reference ≠ id := fun heq => hnew (heq ▸ h.named s hs)
      rw [reason_insert, if_neg hne] at hreason
      exact h.pending s hs reason hreason
    · rw [reason_insert] at hreason
      split at hreason
      · rename_i heq
        rw [heq]
        exact .inr hid
      · exact (h.known reference reason hreason).imp_right (hmem reference)
  cases sample with
  | error e => exact hexcluded _ _
  | ok sample =>
    simp only [Gathered.add]
    split
    · exact hexcluded _ _
    split
    · exact hexcluded _ _
    refine ⟨fun s hs => ?_,?_,fun s hs reason hreason => ?_,
      fun reference reason hreason => (h.known reference reason hreason).imp_right (hmem reference)⟩
    · rcases List.mem_append.1 hs with hs | hs
      · exact hmem _ (h.named s hs)
      · rw [List.mem_singleton.1 hs]
        exact hid
    · rw [List.map_append, List.map_singleton]
      refine List.Nodup.append h.distinct (List.nodup_singleton _) ?_
      intro reference hr hlast
      rw [List.mem_singleton] at hlast
      obtain ⟨s,hs,rfl⟩ := List.mem_map.1 hr
      have heq : s.reference = id := hlast
      exact hnew (heq ▸ h.named s hs)
    · rcases List.mem_append.1 hs with hs | hs
      · exact h.pending s hs reason hreason
      · rw [List.mem_singleton.1 hs] at hreason
        exact (h.known id reason hreason).resolve_right hnew

theorem safe_gather (w : World) (actor : String) (sources : List Source) (g : Gathered) :
    Safe (fun _ _ => False) (fun found t => t = w ∧ ∃ more, found.sources = g.sources++more ∧
      ((found.sources.filterMap Source.reference).Nodup → Read g → Read found)) (fun _ _ => True)
      (gather actor sources g) w := by
  induction sources generalizing g with
  | nil => exact ⟨rfl,[],(List.append_nil _).symm,fun _ h => h⟩
  | cons source rest ih =>
    apply safe_look
    rintro (_ | id)
    · refine safe_mono _ _ (ih _) (fun _ _ h => h) ?_ fun _ _ h => h
      rintro found t ⟨rfl,more,hmore,hread⟩
      refine ⟨rfl,source::more,by simpa using hmore,fun hd h => ?_⟩
      exact hread hd (read_uncommitted source h)
    · apply safe_look
      intro sample
      refine safe_mono _ _ (ih _) (fun _ _ h => h) ?_ fun _ _ h => h
      rintro found t ⟨rfl,more,hmore,hread⟩
      have hsources : ({ g with sources := g.sources++[{ source with reference := some id }] }.add
          actor id sample).sources = g.sources++[{ source with reference := some id }] := by
        unfold Gathered.add Gathered.exclude
        grind
      rw [hsources] at hmore
      refine ⟨rfl,{ source with reference := some id }::more,by simpa using hmore,fun hd h => ?_⟩
      refine hread hd (read_added actor id source sample ?_ h)
      rw [hmore, List.append_assoc, List.filterMap_append] at hd
      intro hin
      exact (List.nodup_append.1 hd).2.2 id hin id (List.mem_filterMap.2 ⟨_,List.mem_cons_self,rfl⟩) rfl

end Sources

section Program
variable (w : World)

theorem safe_consumed (root : String) :
    Safe (fun _ _ => False) (fun b t => t = w ∧ b = w.held root) (fun _ _ => True)
      (consumed root) w := by
  apply safe_bind
  apply safe_bind
  apply safe_read
  · exact ⟨rfl,rfl⟩
  · exact fun _ => trivial

theorem safe_select (needed : ℕ) (samples : List Sample) (acc : Selection) :
    Safe (fun _ _ => False) (fun chosen t => t = w ∧ chosen =
      samples.foldl (judge w.held needed) acc) (fun _ _ => True) (select needed samples acc) w := by
  induction samples generalizing acc with
  | nil => exact ⟨rfl,rfl⟩
  | cons s rest ih =>
    simp only [select, judge, List.foldl_cons]
    by_cases hu : s.unit ∈ acc.seen
    · simp only [if_pos hu]
      exact ih _
    simp only [if_neg hu]
    by_cases hg : s.claimGroup ∈ s.unit::acc.seen
    · simp only [if_pos hg]
      exact ih _
    simp only [if_neg hg]
    apply safe_still _ _ _ (safe_consumed w s.unit) fun _ _ => trivial
    rintro unit ⟨-,rfl⟩
    apply safe_still _ _ _ (safe_consumed w s.claimGroup) fun _ _ => trivial
    rintro group ⟨-,rfl⟩
    by_cases hheld : (w.held s.unit || w.held s.claimGroup) = true
    · simp only [if_pos hheld]
      exact ih _
    simp only [if_neg hheld]
    by_cases hn : acc.selected.length < needed
    · simp only [if_pos hn]
      exact ih _
    · simp only [if_neg hn]
      exact ih _

theorem samples_ordered (candidates : List Sample) :
    (candidates.insertionSort sampleBefore).Pairwise sampleBefore := by
  have htotal : Std.Total sampleBefore := by
    constructor
    intro a b
    have hr := le_total a.reference b.reference
    unfold sampleBefore
    grind
  have htrans : IsTrans Sample sampleBefore := by
    constructor
    intro a b c hab hbc
    have hr : a.reference ≤ b.reference → b.reference ≤ c.reference → a.reference ≤ c.reference :=
      le_trans
    unfold sampleBefore at *
    grind
  exact List.pairwise_insertionSort _ _

end Program

/-! ## Exactness -/

section Exact
variable (held : String → Bool) (needed : ℕ) (samples : List Sample) (sources : List Source)
variable (excluded : Entries)

/-- What the loop says of a sample stays said, where the samples are distinct records. -/
theorem judged_own (before after : List Sample) (s : Sample)
    (hd : ((before++s::after).map Sample.reference).Nodup) :
    excludedReason (judged held needed (before++s::after) excluded).excluded s.reference =
      excludedReason (judge held needed (judged held needed before excluded) s).excluded s.reference ∧
    excludedReason (judged held needed before excluded).excluded s.reference =
      excludedReason excluded s.reference := by
  rw [List.map_append, List.map_cons, List.nodup_append, List.nodup_cons] at hd
  constructor
  · rw [judged, List.foldl_append, List.foldl_cons]
    exact judged_aside held needed after _ _ hd.2.1.1
  · refine judged_aside held needed before _ _ fun hin => ?_
    exact hd.2.2 _ hin _ List.mem_cons_self rfl

theorem first_iff_apart (hd : (samples.map Sample.reference).Nodup)
    (hnamed : ∀ s ∈ samples, s.reference ∈ sources.filterMap Source.reference)
    (hopen : ∀ s ∈ samples, ∀ reason, excludedReason excluded s.reference = some reason →
      reason = "verification_not_committed") :
    FirstN held needed samples sources
      (sources.filter (retained (judged held needed samples excluded).excluded))
      (judged held needed samples excluded).selected ↔ Apart held needed samples := by
  constructor
  · rintro h before s after rfl he
    by_contra hno
    -- the sample is excluded for a root that was left, and its source goes
    have hdup : s.unit ∈ (judged held needed before excluded).seen ∨
        s.claimGroup ∈ s.unit::(judged held needed before excluded).seen := by
      by_contra hfree
      rw [not_or, List.mem_cons, not_or] at hfree
      refine hno ⟨Ne.symm hfree.2.1,fun root hr => ?_⟩
      rw [← Bool.not_eq_true, ← judged_seen held needed before excluded]
      rcases List.mem_pair.1 hr with rfl | rfl
      · exact hfree.1
      · exact hfree.2.2
    have hreason : excludedReason (judged held needed (before++s::after) excluded).excluded
        s.reference = some "duplicate_evidence_root" := by
      rw [(judged_own held needed excluded before after s hd).1, judge]
      rcases hdup with hu | hg
      · rw [if_pos hu, Selection.exclude, reason_insert, if_pos rfl]
      · by_cases hu : s.unit ∈ (judged held needed before excluded).seen
        · rw [if_pos hu, Selection.exclude, reason_insert, if_pos rfl]
        · simp only [if_neg hu, if_pos hg, Selection.exclude, reason_insert]
          rfl
    obtain ⟨source,hsource,href⟩ := List.mem_filterMap.1 (hnamed s (by simp))
    have hkept := (List.mem_filter.1 (h.kept before s after rfl he source hsource href)).2
    rw [retained, href] at hkept
    simp [hreason] at hkept
  · intro h
    refine ⟨judged_first held needed samples excluded h,?_⟩
    rintro before s after rfl he source hsource href
    obtain ⟨hne,hfree⟩ := h before s after rfl he
    have hseen (root : String) (hr : root ∈ roots s) :
        root ∉ (judged held needed before excluded).seen := by
      rw [judged_seen, hfree root hr]
      exact Bool.false_ne_true
    have hg : s.claimGroup ∉ s.unit::(judged held needed before excluded).seen := by
      rw [List.mem_cons, not_or]
      exact ⟨Ne.symm hne,hseen _ (by simp [roots])⟩
    have hheld : (held s.unit || held s.claimGroup) = false := by
      simp [(he s.unit (by simp [roots])).1, (he s.claimGroup (by simp [roots])).1]
    obtain ⟨hlast,hbefore⟩ := judged_own held needed excluded before after s hd
    rw [List.mem_filter, retained, href]
    refine ⟨hsource,?_⟩
    simp only [Option.all_some, hlast, judge, if_neg (hseen s.unit (by simp [roots])), if_neg hg,
      hheld, Bool.false_eq_true, if_false]
    split
    · rw [hbefore, Option.all_eq_true]
      intro reason hreason
      rw [hopen s (by simp) reason hreason]
      rfl
    · rw [Selection.exclude, reason_insert, if_pos rfl]
      rfl

end Exact

/-- First-n selection. The samples are judged in native order. Where the sources of a target name
distinct records, a proposal selects the first eligible samples and keeps the source of each
eligible one, exactly when each of those has two roots of which no sample before it left one. -/
theorem selection_first_n (cfg : TrustConfig) (actor : String) (target : Target) (w : World)
    (env : ℕ → Env) (found : Gathered) (chosen : Selection) (kept : List Source)
    (h : (outcome (proposeSamples cfg actor target) env w).1 = .ok (found,chosen,kept))
    (hdistinct : (found.sources.filterMap Source.reference).Nodup) :
    let samples := found.candidates.insertionSort sampleBefore
    samples.Pairwise sampleBefore ∧
    (FirstN w.held cfg.needed samples found.sources kept chosen.selected ↔
      Apart w.held cfg.needed samples) := by
  intro samples
  refine ⟨samples_ordered _,?_⟩
  have hperm : samples.Perm found.candidates := List.perm_insertionSort _ _
  have hread : Read found ∧ chosen = judged w.held cfg.needed samples found.excluded ∧
      kept = found.sources.filter (retained chosen.excluded) := by
    have hsafe : Safe (fun _ _ => False) (fun r _ => (r.1.sources.filterMap Source.reference).Nodup →
        Read r.1 ∧ r.2.1 = judged w.held cfg.needed (r.1.candidates.insertionSort sampleBefore)
          r.1.excluded ∧ r.2.2 = r.1.sources.filter (retained r.2.1.excluded)) (fun _ _ => True)
        (proposeSamples cfg actor target) w := by
      apply safe_still _ _ _ (safe_gather w actor target.sources .empty) fun _ _ => trivial
      rintro found ⟨-,more,-,hread⟩
      apply safe_still _ _ _ (safe_select w cfg.needed _ _) fun _ _ => trivial
      rintro chosen ⟨-,rfl⟩ hd
      have hstart : Read .empty := ⟨nofun,List.nodup_nil,nofun,nofun⟩
      exact ⟨hread hd hstart,rfl,rfl⟩
    exact safe_outcome _ w hsafe env _ h hdistinct
  obtain ⟨hread,rfl,rfl⟩ := hread
  exact first_iff_apart w.held cfg.needed samples found.sources found.excluded
    ((hperm.map _).nodup_iff.2 hread.distinct)
    (fun s hs => hread.named s (hperm.mem_iff.1 hs))
    fun s hs => hread.pending s (hperm.mem_iff.1 hs)

section Runs

def sampleAt (sequence : ℕ) (reference unit group : String) : Sample :=
  ⟨reference,"actor",unit,group,sequence,some true,[],none⟩

def quiet : Env where
  storage := .up
  permitted := .ok ()
  outside := []
  recover := .ok ()
  control := .ok ()
  artifact := .ok ()
  resolve _ := .ok none
  sample _ := .error (.failed "")
  evidence _ := .ok ("","")
  corrected _ := .ok false
  applied := .refused (.failed "")
  recordId := ""
  gap := 0
  bytes := 0
  bound := false
  trustChanged := .ok ()
  page _ := .ok ([],0)
  verified := .error (.failed "")
  registered := .ok ()
  recorded := .error (.failed "")

/-- The root `u` is held by a proposal. -/
def reserved : World := { World.empty with
  journal := place World.empty.journal (.unit "u")
    (⟨.restore (.accuracy "" "" 0 ⟨[],.nan,[]⟩ 0 [] []) 0 [] "" "",false,false⟩ : RootClaim) }

def sampled (samples : List Sample) : Env := { quiet with
  resolve := fun source => .ok (some source.clientKey)
  sample := fun id => match samples.find? fun s => s.reference = id with
    | some s => .ok s
    | none => .error (.failed "") }

def oneSample : TrustConfig := ⟨none,"","","",some ⟨1⟩,false,false,.ok ()⟩

def sourceAt (key : String) : Source := ⟨key,"",some key⟩

def targetOf (keys : List String) : Target :=
  ⟨⟨"actor",""⟩,keys.map fun key => ⟨key,"",none⟩,none,0⟩

/-- Two samples with four roots: the first one is selected, and the source of the other one stays. -/
theorem selection_first_n_fresh : ∃ found chosen kept,
    (outcome (proposeSamples oneSample "actor" (targetOf ["a","b"])) (fun _ =>
      sampled [sampleAt 1 "a" "x" "g",sampleAt 2 "b" "y" "h"]) reserved).1 = .ok (found,chosen,kept) ∧
    chosen.selected = [sampleAt 1 "a" "x" "g"] ∧ sourceAt "b" ∈ kept := by
  refine ⟨_,_,_,rfl,rfl,?_⟩
  have hfirst := (selection_first_n oneSample "actor" (targetOf ["a","b"]) reserved (fun _ =>
    sampled [sampleAt 1 "a" "x" "g",sampleAt 2 "b" "y" "h"]) _ _ _ rfl (by decide +kernel)).2.mpr ?_
  · exact hfirst.kept [sampleAt 1 "a" "x" "g"] (sampleAt 2 "b" "y" "h") [] rfl (by decide +kernel)
      (sourceAt "b") (by decide +kernel) rfl
  · intro before s after heq _
    match before, heq with
    | [], heq =>
      cases heq
      decide
    | [_], heq =>
      cases heq
      decide
    | x::y::before, heq =>
      have hlen : 2 = (x::y::before++s::after).length := congrArg List.length heq
      simp only [List.length_append, List.length_cons] at hlen
      omega

/-- The unit of the first sample is consumed, and the second one shares only its claim group with
it: nothing is selected, and the source of the second one goes. -/
theorem passed_over_root_excludes :
    let samples := [sampleAt 1 "a" "u" "g",sampleAt 2 "b" "v" "g"]
    ∃ found chosen kept, (outcome (proposeSamples oneSample "actor" (targetOf ["a","b"]))
        (fun _ => sampled samples) reserved).1 = .ok (found,chosen,kept) ∧
      found.candidates = samples ∧
      firstN reserved.held 1 samples = [sampleAt 2 "b" "v" "g"] ∧ chosen.selected = [] ∧
      sourceAt "b" ∈ found.sources ∧ sourceAt "b" ∉ kept := by
  exact ⟨_,_,_,rfl,rfl,rfl,rfl,by decide +kernel,by decide +kernel⟩

end Runs

end AndaBrain.Trust
