import AndaBrain.RecallHonesty
import AndaBrain.Foundation.StableRank

/-!
# When the coverage of a briefing is honest

What was gathered and left out leaves its reader's channel incomplete, and an open row of an exact
channel is delivered or leaves that channel incomplete. When this holds is said of the reads alone:
of the readers' answers in reading order, and of how many of them are worth more.
-/

set_option autoImplicit false

namespace AndaBrain.Recall
open Foundation.SortBy Foundation.LongestFit Foundation.FirstWins
  Foundation.StableRank Foundation.KeptPrefix

section Claim
variable (r : Reading)

/-- The rows an exact channel is answered with. -/
def Reading.exactRows : Channel → List Json
  | .constraints => r.constraints.toOption.getD []
  | .commitments => r.commitments.toOption.getD []
  | _ => []

/-- A Commitment or a constraint Insight. The host's own scope handles are neither. -/
def isOpen (row : Json) : Bool :=
  let typeName := ((row.index "schema_ref").asStr.map localName).getD ""
  let attributes := row.index "attributes"
  !(attributes.index "event_class").isStr "memory_scope" && (typeName == "Commitment" ||
    typeName == "Insight" && (attributes.index "insight_class").isStr "constraint")

structure Honest (recalled : Recalled) : Prop where
  accounted : Accounted r recalled
  rows : ∀ channel, ∀ row ∈ r.exactRows channel, inScope r.scope row = true → isOpen row = true →
    ∀ id, (row.index "id").asStr = some id →
      (∃ x ∈ recalled.briefing.items.zip recalled.pins, x.2.2 = [(id,versionOf row)]) ∨
        recalled.briefing.coverage.channels channel = .incomplete

end Claim

section Condition
variable (r : Reading)

def SearchWhole (read : SearchRead) : Prop :=
  (isBlank (r.query.getD "") = false → read.current = true) ∧ read.stillCurrent = true ∧
    ∃ rows, read.rows = .ok rows ∧ (isBlank (r.query.getD "") = true → rows.length ≤ 8)

/-- The reader has seen everything that it answers for. -/
def Whole : Channel → Prop
  | .constraints => ∃ rows, r.constraints = .ok rows ∧ rows.length ≤ 32
  | .commitments => ∃ rows, r.commitments = .ok rows ∧ rows.length ≤ 32
  | .dependencies => True
  | .failures => SearchWhole r r.failures
  | .experiences => SearchWhole r r.experiences
  | .skills => SearchWhole r r.skills
  | .evidence => r.asked = true ∧ ∃ answer trace, r.pass = .answered answer trace

/-- What is offered first under its pins, in reading order, and a warning for each of these rows
whose dependencies changed. -/
def Reading.pool : List Candidate :=
  firstBy Candidate.pins r.offers++
    (firstBy Candidate.pins r.offers).flatMap (caveats r.snapshot)

/-- Required before optional, and by role. -/
def worth (c : Candidate) : ℕ :=
  (if c.required then 0 else 6) + match c.item.role with
    | .constraint => 0
    | .warning => 1
    | .fact => 2
    | .procedure => 3
    | .experience => 4
    | .source => 5

/-- Leaving out a candidate of the role marks the channel. -/
def Answers : Channel → ItemRole → Prop
  | .experiences, role => role = .experience
  | .skills, role => role = .procedure
  | .evidence, role => role ≠ .experience ∧ role ≠ .procedure
  | _, _ => False

/-- Everything that a whole reader gathered is listed as that reader has it. -/
def Reached : Prop :=
  ∀ channel, Whole r channel → ∀ c ∈ r.gathered channel,
    ∃ i k, Listed worth 128 r.pool i k ∧ Same c k

/-- What is listed is besides required, or something listed behind it answers for its reader. -/
def Reported : Prop :=
  ∀ channel, Whole r channel → ∀ c ∈ r.gathered channel,
    ∃ i k, Listed worth 128 r.pool i k ∧ Same c k ∧ (k.required = true ∨
      ∃ j x, Listed worth 128 r.pool j x ∧ Behind worth i k j x ∧ Answers channel x.item.role)

end Condition

section Reads
variable (r : Reading)

theorem exact_channel_whole (read : Except KipError (List Json)) :
    (exactChannel r.scope read).2.complete = true ↔ ∃ rows, read = .ok rows ∧ rows.length ≤ 32 := by
  cases read with
  | error e => simp [exactChannel, Plan.failed]
  | ok rows =>
    have hlimit : (exactChannel r.scope (.ok rows)).2.complete = !decide (32 < rows.length) := rfl
    simp [hlimit]

theorem search_channel_whole (read : SearchRead) :
    (searchChannel r.snapshot r.scope (r.query.getD "") read).2.complete = true ↔
      SearchWhole r read := by
  rw [searchChannel, SearchWhole]
  by_cases hnow : (!isBlank (r.query.getD "") && !read.current) = true
  · rw [if_pos hnow]
    simp only [Bool.and_eq_true, Bool.not_eq_true'] at hnow
    simp [Plan.failed, hnow]
  have hcurrent : isBlank (r.query.getD "") = false → read.current = true := by simpa using hnow
  rw [if_neg hnow]
  cases hr : read.rows with
  | error e => simp [Plan.failed]
  | ok rows =>
    cases hs : read.stillCurrent with
    | false => simp [Plan.failed]
    | true =>
      by_cases hb : isBlank (r.query.getD "") = true
      · by_cases hlen : 8 < rows.length
        · simp [hb, hlen, Plan.exactRead, searchLimit]
        · have hle : rows.length ≤ 8 := by omega
          simp [hb, hlen, hle, Plan.approximate, searchLimit]
      · simp [hb, hcurrent, Plan.approximate]

theorem whole_iff (channel : Channel) : (r.plans channel).complete = true ↔ Whole r channel := by
  cases channel with
  | constraints => exact exact_channel_whole r r.constraints
  | commitments => exact exact_channel_whole r r.commitments
  | dependencies => exact iff_of_true rfl trivial
  | failures => exact search_channel_whole r r.failures
  | experiences => exact search_channel_whole r r.experiences
  | skills => exact search_channel_whole r r.skills
  | evidence =>
    rw [Reading.plans, Reading.read, Reading.evidencePlan, Whole]
    cases r.asked with
    | false => simp [Plan.approximate]
    | true => cases r.pass <;> simp [Plan.approximate, Plan.failed]

theorem candidates_pool : r.candidates = r.pool := by
  rw [Reading.candidates, Reading.dependencyWarnings, merged_first]
  rfl

theorem worth_key (c : Candidate) : rankKey c = worth c := by
  rw [rankKey, worth]
  cases c.item.role <;> rfl

theorem sorts_before_worth (a b : Candidate) : sortsBefore a b = true ↔ worth a ≤ worth b := by
  rw [sorts_before_key, worth_key, worth_key]

theorem answers_iff (channel : Channel) (role : ItemRole) :
    charged role = channel ↔ Answers channel role := by
  cases role <;> cases channel <;> simp [charged, Answers]

theorem ranked_pool : r.ranked = (sortBy sortsBefore r.pool).take 128 := by
  rw [Reading.ranked, candidates_pool]
  rfl

theorem optional_after : ∀ x ∈ r.ranked.drop (required r.ranked Candidate.required),
    x.required = false :=
  optional_of_sorted r.ranked (ranked_sorted r)

theorem accounted_reported :
    (∀ wire kept, requiredCount r.ranked ≤ kept → kept ≤ r.ranked.length →
      Accounted r (recalledAt wire r kept)) ↔ Reported r := by
  have hheld : ∀ channel, ∀ c ∈ r.gathered channel,
      ((∀ kept, requiredCount r.ranked ≤ kept → kept ≤ r.ranked.length →
          Told r.ranked (Same c) (fun x => charged x.item.role = channel) kept) ↔
        ∃ i k, Listed worth 128 r.pool i k ∧ Same c k ∧ (k.required = true ∨
          ∃ j x, Listed worth 128 r.pool j x ∧ Behind worth i k j x ∧
            Answers channel x.item.role)) := by
    intro channel c hc
    simp only [← answers_iff]
    rw [← held_iff worth sortsBefore sorts_before_worth 128 r.pool, ← ranked_pool]
    exact told_iff_held r.ranked Candidate.required (Same c) _ (optional_after r)
      (ranked_once r c (gathered_spec r channel c hc))
  constructor
  · intro h channel hw c hc
    rw [← hheld channel c hc]
    exact fun kept hlo hhi => (accounted_iff (countAbove 0) r kept).mp (h _ kept hlo hhi) channel
      ((whole_iff r channel).mpr hw) c hc
  · intro h wire kept hlo hhi
    rw [accounted_iff]
    intro channel hplan c hc
    exact (hheld channel c hc).mpr (h channel ((whole_iff r channel).mp hplan) c hc) kept hlo hhi

/-- An open row of an exact channel makes an item there, or stands past what the channel reads. -/
theorem open_row_item (channel : Channel) (row : Json) (id : String)
    (hrow : row ∈ r.exactRows channel) (hscope : inScope r.scope row = true)
    (hopen : isOpen row = true) (hid : (row.index "id").asStr = some id)
    (hplan : (r.plans channel).complete = true) :
    ∃ c ∈ r.gathered channel, c.pins = [(id,versionOf row)] := by
  have hitem : ∃ c, conceptItem row true = some c := by
    rw [isOpen] at hopen
    simp only [Bool.and_eq_true, Bool.or_eq_true, Bool.not_eq_true', beq_iff_eq] at hopen
    rw [conceptItem, hid, conceptKind]
    simp only [hopen.1, Bool.false_eq_true, if_false]
    rcases hopen.2 with h | ⟨h,hc⟩
    · simp [h]
    · simp [h, hc]
  obtain ⟨c,hc⟩ := hitem
  have hpins := (concept_item_spec row true c hc).2
  obtain ⟨id',hid',hp⟩ := hpins
  rw [hid, Option.some.injEq] at hid'
  have hexact : ∀ read rows, read = .ok rows → row ∈ rows →
      (exactChannel r.scope read).2.complete = true → c ∈ (exactChannel r.scope read).1 := by
    intro read rows hread hmem hcomplete
    obtain ⟨rows',hrows',hlen⟩ := (exact_channel_whole r read).mp hcomplete
    obtain rfl : rows' = rows := Except.ok.inj (hrows'.symm.trans hread)
    have hall : rows'.take channelLimit = rows' := List.take_of_length_le hlen
    rw [hread, exactChannel, hall]
    exact List.mem_filterMap.mpr ⟨row,List.mem_filter.mpr ⟨hmem,hscope⟩,hc⟩
  refine ⟨c,?_,by rw [hp, hid']⟩
  cases channel with
  | constraints =>
    rw [Reading.exactRows] at hrow
    cases hr : r.constraints with
    | error e => simp [hr, Except.toOption] at hrow
    | ok rows => exact hexact r.constraints rows hr (by simpa [hr, Except.toOption] using hrow) hplan
  | commitments =>
    rw [Reading.exactRows] at hrow
    cases hr : r.commitments with
    | error e => simp [hr, Except.toOption] at hrow
    | ok rows => exact hexact r.commitments rows hr (by simpa [hr, Except.toOption] using hrow) hplan
  | _ => cases hrow

theorem honest_of_accounted (wire : Wire) (kept : ℕ) (h : Accounted r (recalledAt wire r kept)) :
    Honest r (recalledAt wire r kept) := by
  refine ⟨h,fun channel row hrow hscope hopen id hid => ?_⟩
  by_cases hplan : (r.plans channel).complete = true
  · obtain ⟨c,hc,hpins⟩ := open_row_item r channel row id hrow hscope hopen hid hplan
    refine (h channel c hc).imp ?_ fun hi => hi
    rintro ⟨x,hx,hxp,-⟩
    exact ⟨x,hx,hxp.trans hpins⟩
  · right
    rw [channel_at]
    exact fun hno => hplan hno.1

section Room
variable (wire : Wire) (maxTokens : ℕ)
  (hroom : ∀ b, ∃ t ≤ maxTokens, wire.countTokens b = .ok t)
include hroom

theorem all_fit : longestFitting (requiredCount r.ranked) r.ranked.length
    (fitting wire r maxTokens) = .ok (some (r.ranked.length,briefingOf wire r r.ranked.length)) := by
  refine longest_fitting_threshold _ (briefingOf wire r) _ _ (fun kept _ => ?_)
    (fun j hlt hle => by omega) _ (required_count_length _) le_rfl
  obtain ⟨t,ht,hcount⟩ := hroom (briefingOf wire r kept)
  rw [fitting, hcount]
  exact congrArg Except.ok (if_pos ht)

theorem all_kept (retained : Except KipError Unit) (recalled : Recalled)
    (h : memoryRecall wire r maxTokens retained = .ok recalled) :
    recalled = recalledAt wire r r.ranked.length := by
  obtain ⟨kept,_,_,hrec,hf⟩ := memory_recall_kept wire r maxTokens retained recalled h
  rw [all_fit r wire maxTokens hroom] at hf
  have hkept : r.ranked.length = kept :=
    congrArg Prod.fst (Option.some.inj (Except.ok.inj hf))
  rw [hrec, hkept]

theorem all_recalled :
    memoryRecall wire r maxTokens (.ok ()) = .ok (recalledAt wire r r.ranked.length) := by
  obtain ⟨t,ht,hcount⟩ := hroom (briefingOf wire r r.ranked.length)
  exact memory_recall_fits wire r maxTokens _ t (all_fit r wire maxTokens hroom) hcount ht

end Room

theorem accounted_reached (wire : Wire) :
    Accounted r (recalledAt wire r r.ranked.length) ↔ Reached r := by
  have hheld : ∀ channel c,
      (Told r.ranked (Same c) (fun x => charged x.item.role = channel) r.ranked.length ↔
        ∃ i k, Listed worth 128 r.pool i k ∧ Same c k) := by
    intro channel c
    simp only [Told, List.take_length, List.drop_length, List.not_mem_nil, false_and, exists_false,
      or_false]
    rw [ranked_pool]
    constructor
    · rintro ⟨k,hk,hs⟩
      obtain ⟨q,hq⟩ := List.mem_iff_getElem?.mp hk
      obtain ⟨i,hi,_⟩ := listed_of_taken worth sortsBefore sorts_before_worth 128 r.pool q k hq
      exact ⟨i,k,hi,hs⟩
    · rintro ⟨i,k,hi,hs⟩
      have hat := listed_at worth sortsBefore sorts_before_worth 128 r.pool i k hi
      exact ⟨k,List.mem_of_getElem? hat,hs⟩
  rw [accounted_iff]
  simp only [whole_iff, hheld]
  rfl

end Reads

section Sample

def sampleRow : Json := .obj [("id",.str "C-1"),("schema_ref",.str "kip:core/Commitment"),
  ("name",.str "reply"),
  ("attributes",.obj [("summary",.str "reply to Ada"),("status",.str "pending")]),
  ("_system",.obj [("state",.str "active"),("version",.int 3)])]

def sampleRows (id : String) : Option Json := if id = "C-1" then some sampleRow else none

def sampleSnapshot : Snapshot where
  rows := sampleRows
  kind _ := some .concept
  belief _ := .error (kipError "no belief")
  claims _ := .ok []
  render _ := ""
  named := by
    intro id row h
    rw [sampleRows] at h
    by_cases hid : id = "C-1"
    · rw [if_pos hid] at h
      rw [hid, ← Option.some.inj h]
      rfl
    · rw [if_neg hid] at h
      cases h

def sampleReading : Reading where
  snapshot := sampleSnapshot
  scope := ⟨⟨none,[]⟩,none,[]⟩
  mode := .answer
  query := some "what is open?"
  pass := .answered "A reply to Ada is open." ⟨[("C-1",3)],by decide⟩
  constraints := .ok []
  commitments := .ok [sampleRow]
  failures := ⟨true,.ok [],true⟩
  experiences := ⟨true,.ok [],true⟩
  skills := ⟨true,.ok [],true⟩
  after := []
  pending := []
  uncertainties := []
  attention := none
  basisId := "basis-1"

/-- Forty tokens for the frame of a briefing and thirty for each item. -/
def sampleWire : Wire where
  complete _ _ := false
  actionEligible _ _ _ := false
  countTokens briefing := .ok (40 + 30 * briefing.items.length)

end Sample

end AndaBrain.Recall
