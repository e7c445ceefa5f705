import AndaBrain.Settlement
import AndaBrain.Foundation.SortedMap

/-!
# The review of what revised roots fed

`settle_memory_metabolism` reads a page of superseded Assertions, walks the dependents of the
first of them, counts corrections and moves the persisted cursor.
-/

set_option autoImplicit false

namespace AndaBrain.RevisedRoots
open Settlement Foundation

def revisedRootsLimit : ℕ := 20

structure Dependent where
  id : String
  kind : String
  distance : ℕ
  via : Option String
  deriving DecidableEq

structure RevisedRoot where
  assertion : String
  proposition : Option String
  actor : Option String
  supersededBy : List String
  spaceSeq : ℕ
  dependents : List Dependent
  truncated : Bool
  deriving DecidableEq

/-- A walk that succeeded: its rows, whether more follow, and its coded warnings. -/
structure Listing extends Response where
  warnings : List String

def readDependent (row : Json) : Option Dependent := do
  let id ← row.get "id" >>= Json.asStr
  pure
    { id := id
      kind := (row.get "kind" >>= Json.asStr).getD ""
      distance := (row.get "distance" >>= Json.asU64).getD 1
      via := row.get "via" >>= (fun via => via.get "activity") >>= Json.asStr }

def dependentsOf (reply : Listing) : List Dependent :=
  ((reply.result.bind Json.asArray).getD []).filterMap readDependent

def dependentsTruncated (reply : Listing) : Bool :=
  reply.nextCursor || reply.warnings.any (fun code => code == "truncated")

def revisedRoot (row : SupersededRow) (walk : Except String Listing) : RevisedRoot where
  assertion := row.assertion
  proposition := row.proposition
  actor := row.actor
  supersededBy := row.supersededBy
  spaceSeq := row.spaceSeq
  dependents := walk.toOption.elim [] dependentsOf
  truncated := walk.toOption.elim true dependentsTruncated

def revisedRoots (walk : String → Except String Listing) (rows : List SupersededRow) :
    List RevisedRoot :=
  (rows.take revisedRootsLimit).map fun row => revisedRoot row (walk row.assertion)

structure SourceReliability where
  corrections : ℕ
  lastCorrectedAt : ℕ

structure MemorySettlementReport where
  settledAt : ℕ
  revisedRoots : List RevisedRoot
  newCorrections : ℕ
  correctionScanError : Option String
  correctionScanIncomplete : Bool
  correctionScanThroughSeq : ℕ

/-- The stored cursor: a coordinate alone in a Space of an older version. -/
inductive Mark where
  | seq (seq : ℕ)
  | cursor (cursor : CorrectionCursor)

/-- What settlements and cycles leave: the ledger's corrected entities, the extensions
of the Space, the walks that were answered, and the roots that the assessment of each
started cycle carried. -/
structure Space where
  history : History
  correctionCursor : Option Mark
  corrected : List String
  sourceReliability : SortedMap String SourceReliability
  memorySettlement : Option MemorySettlementReport
  walks : List (String × Except String Listing)
  cycles : List (List RevisedRoot)

def Space.start : Space := ⟨⟨[],0⟩,none,[],.empty,none,[],[]⟩

def resume : Option Mark → CorrectionCursor
  | none => ⟨0,""⟩
  | some (.seq seq) => ⟨seq,""⟩
  | some (.cursor cursor) => cursor

def Space.after (s : Space) : CorrectionCursor := resume s.correctionCursor

/-- What one settlement meets: the answers of the graph, the ledger's error at a row of
the page, and the error that ends it after the cursor was moved. -/
structure Pass where
  nowMs : ℕ
  scan : Answer
  walk : String → Except String Listing
  record : ℕ → Option String
  rest : Option String

structure Recorded where
  corrected : List String
  sourceReliability : SortedMap String SourceReliability
  newCorrections : ℕ

def creditCorrection (nowMs : ℕ) (map : SortedMap String SourceReliability) (actor : String) :
    SortedMap String SourceReliability :=
  let entry := (map.lookup actor).getD ⟨0,0⟩
  map.insert actor ⟨entry.corrections+1,nowMs⟩

def recordCorrection (nowMs : ℕ) (r : Recorded) (row : SupersededRow) : Recorded :=
  if row.assertion ∈ r.corrected then r
  else
    { corrected := row.assertion::r.corrected
      sourceReliability :=
        row.actor.elim r.sourceReliability (creditCorrection nowMs r.sourceReliability)
      newCorrections := r.newCorrections+1 }

/-- The rows of the page in turn, up to the first that the ledger fails to record. -/
def recordRows (nowMs : ℕ) (record : ℕ → Option String) :
    ℕ → List SupersededRow → Recorded → Recorded × Option String
  | _, [], r => (r,none)
  | n, row::rows, r =>
    match record n with
    | some error => (r,some error)
    | none => recordRows nowMs record (n+1) rows (recordCorrection nowMs r row)

def settleMemoryMetabolism (s : Space) (p : Pass) : Space × Except String MemorySettlementReport :=
  let corrections := scanCorrections s.after (s.history.reply s.after p.scan)
  let roots := revisedRoots p.walk corrections.rows
  let (r,failed) := recordRows p.nowMs p.record 0 corrections.rows ⟨s.corrected,s.sourceReliability,0⟩
  let recorded : Space :=
    { s with
      corrected := r.corrected
      sourceReliability := r.sourceReliability
      walks := s.walks++roots.map fun root => (root.assertion,p.walk root.assertion) }
  match failed with
  | some error => (recorded,.error error)
  | none =>
    let moved : Space :=
      { recorded with
        correctionCursor :=
          if corrections.cursor ≠ s.after then some (.cursor corrections.cursor)
          else s.correctionCursor }
    match p.rest with
    | some error => (moved,.error error)
    | none =>
      let report : MemorySettlementReport :=
        { settledAt := p.nowMs
          revisedRoots := roots
          newCorrections := r.newCorrections
          correctionScanError := corrections.error
          correctionScanIncomplete := corrections.incomplete
          correctionScanThroughSeq := corrections.watermark }
      ({ moved with memorySettlement := some report },.ok report)

def maintenanceAssessment (s : Space) : List RevisedRoot :=
  s.memorySettlement.elim [] MemorySettlementReport.revisedRoots

/-- A maintenance call: a failed settlement does not end it, and the cycle may still
fail to start. -/
def maintenance (s : Space) (p : Pass) (starts : Bool) : Space :=
  let settled := (settleMemoryMetabolism s p).1
  if starts then { settled with cycles := settled.cycles++[maintenanceAssessment settled] }
  else settled

inductive Event where
  | transaction (t : Transaction)
  | settle (p : Pass)
  | maintenance (p : Pass) (starts : Bool)

def Space.step (s : Space) : Event → Space
  | .transaction t => { s with history := s.history.commit t }
  | .settle p => (settleMemoryMetabolism s p).1
  | .maintenance p starts => maintenance s p starts

def run (events : List Event) : Space := events.foldl Space.step Space.start

/-- The superseded Assertions that the graph answers a settlement with, when all of them
can be read. -/
def page (s : Space) (p : Pass) : List SupersededRow :=
  match p.scan with
  | .page limit _ unreadable =>
    let rows := (s.history.matching s.after).take (min limit settlementBatchLimit)
    if ∀ n < rows.length, unreadable n = none then rows else []
  | _ => []

def Unrecorded (s : Space) (p : Pass) : Prop := ∃ n < (page s p).length, p.record n ≠ none

structure Shows (walks : List (String × Except String Listing)) (row : SupersededRow)
    (root : RevisedRoot) : Prop where
  assertion : root.assertion = row.assertion
  proposition : root.proposition = row.proposition
  actor : root.actor = row.actor
  supersededBy : root.supersededBy = row.supersededBy
  spaceSeq : root.spaceSeq = row.spaceSeq
  walked : root.truncated = true ∨
    ∃ reply, (row.assertion,.ok reply) ∈ walks ∧ root.dependents = dependentsOf reply

def Reviewed (s : Space) : Prop :=
  ∀ row ∈ s.history.rows, covered s.after row = true →
    ∃ cycle ∈ s.cycles, ∃ root ∈ cycle, Shows s.walks row root

/-- A settlement that moves the cursor over a page walks the whole page, stores its
report, and its cycle starts. -/
def Carried (s : Space) : Event → Prop
  | .transaction _ => True
  | .settle p => page s p = [] ∨ Unrecorded s p
  | .maintenance p starts => page s p = [] ∨ Unrecorded s p ∨
      ((page s p).length ≤ revisedRootsLimit ∧ p.rest = none ∧ starts = true)

section Settlements
variable {s : Space} {p : Pass}

theorem superseded_length (rows : List SupersededRow)
    (unreadable : ℕ → Option {j : Json // readRow j = none}) :
    (supersededRows (rows.mapIdx fun n row => ((unreadable n).map Subtype.val).getD
      (render row))).length = rows.length ↔ ∀ n < rows.length, unreadable n = none := by
  constructor
  · intro h
    induction rows generalizing unreadable with
    | nil => simp
    | cons row rest ih =>
      have hle := List.length_filterMap_le readRow (rest.mapIdx fun n row =>
        ((unreadable (n+1)).map Subtype.val).getD (render row))
      rw [List.length_mapIdx] at hle
      rw [List.mapIdx_cons] at h
      cases hu : unreadable 0 with
      | some j =>
        simp only [supersededRows, List.filterMap_cons, hu, Option.map_some, Option.getD_some,
          j.property, List.length_cons] at h
        omega
      | none =>
        simp only [supersededRows, List.filterMap_cons, hu, Option.map_none, Option.getD_none,
          read_render, List.length_cons, Nat.add_right_cancel_iff] at h
        intro n hn
        cases n with
        | zero => exact hu
        | succ n =>
          rw [List.length_cons, Nat.add_lt_add_iff_right] at hn
          exact ih (fun n => unreadable (n+1)) h n hn
  · intro h
    induction rows generalizing unreadable with
    | nil => rfl
    | cons row rest ih =>
      have hrest := ih (fun n => unreadable (n+1)) (fun n hn => h (n+1) (by simpa using hn))
      have hu := h 0 (by simp)
      rw [List.mapIdx_cons]
      simp only [supersededRows, List.filterMap_cons, hu, Option.map_none, Option.getD_none,
        read_render, List.length_cons, Nat.add_right_cancel_iff]
      exact hrest

theorem settle_rows (after : CorrectionCursor) (incomplete : Bool) (rows : List SupersededRow) :
    (Settlement.settle after incomplete rows).rows = rows := by
  rw [Settlement.settle.eq_def]
  cases rows.getLast? with
  | some last => rfl
  | none => cases incomplete <;> rfl

theorem scan_page (ok : s.history.Ok) :
    (scanCorrections s.after (s.history.reply s.after p.scan)).rows = page s p := by
  rw [page]
  cases p.scan with
  | failed error => rfl
  | noArray result nextCursor h => simp [scanCorrections, History.reply, h, degraded]
  | page limit more unreadable =>
    simp only [scanCorrections, History.reply, Option.bind_some, Json.asArray]
    have hiff := superseded_length
      ((s.history.matching s.after).take (min limit settlementBatchLimit)) unreadable
    split
    · rename_i hlen
      rw [List.length_mapIdx] at hlen
      rw [if_neg (fun h => hlen (hiff.mpr h))]
      rfl
    rename_i hlen
    rw [not_not, List.length_mapIdx] at hlen
    rw [if_pos (hiff.mp hlen), settle_rows, superseded_rows_sent _ unreadable hlen]
    have hfilter : ((s.history.matching s.after).take (min limit settlementBatchLimit)).filter
        (beyond s.after) = (s.history.matching s.after).take (min limit settlementBatchLimit) := by
      apply List.filter_eq_self.mpr
      intro row hrow
      exact List.of_mem_filter (List.mem_of_mem_take hrow)
    rw [hfilter]
    apply sort_of_strict
    exact ((ordered_strict ok).filter _).sublist (List.take_sublist _ _)

theorem record_failed (nowMs : ℕ) (record : ℕ → Option String) (rows : List SupersededRow)
    (k : ℕ) (r : Recorded) :
    (recordRows nowMs record k rows r).2 = none ↔ ∀ n < rows.length, record (k+n) = none := by
  induction rows generalizing k r with
  | nil => simp [recordRows]
  | cons row rows ih =>
    rw [recordRows]
    cases hk : record k with
    | some error =>
      simp only [reduceCtorEq, false_iff]
      intro h
      have := h 0 (by simp)
      simp [hk] at this
    | none =>
      rw [ih]
      constructor
      · intro h n hn
        cases n with
        | zero => exact hk
        | succ n =>
          have := h n (by simpa using hn)
          rwa [show k+(n+1) = k+1+n by omega]
      · intro h n hn
        have := h (n+1) (by simpa using hn)
        rwa [show k+1+n = k+(n+1) by omega]

/-- What a settlement does to the cursor and the stored report. -/
inductive Moves (s : Space) (p : Pass) (s' : Space) : Prop where
  | held (failed : Unrecorded s p) (cursor : s'.correctionCursor = s.correctionCursor)
      (stored : s'.memorySettlement = s.memorySettlement)
  | broken (recorded : ¬Unrecorded s p) (reads : Reads s.history s.after
      (scanCorrections s.after (s.history.reply s.after p.scan)))
      (cursor : s'.after = (scanCorrections s.after (s.history.reply s.after p.scan)).cursor)
      (rest : p.rest ≠ none) (stored : s'.memorySettlement = s.memorySettlement)
  | stored (recorded : ¬Unrecorded s p) (reads : Reads s.history s.after
      (scanCorrections s.after (s.history.reply s.after p.scan)))
      (cursor : s'.after = (scanCorrections s.after (s.history.reply s.after p.scan)).cursor)
      (rest : p.rest = none) (report : maintenanceAssessment s' = revisedRoots p.walk (page s p))

theorem settle_moves (ok : s.history.Ok) (bounded : s.after.seq ≤ s.history.seq) :
    Moves s p (settleMemoryMetabolism s p).1 := by
  have hpage := scan_page (p := p) ok
  have hreads := scan_reads p.scan ok bounded
  have hmark : ∀ c : CorrectionCursor,
      resume (if c ≠ s.after then some (.cursor c) else s.correctionCursor) = c := by
    intro c
    by_cases h : c = s.after
    · simp [h, Space.after]
    · simp [h, resume]
  have hfailed := record_failed p.nowMs p.record (page s p) 0 ⟨s.corrected,s.sourceReliability,0⟩
  simp only [zero_add] at hfailed
  rw [settleMemoryMetabolism]
  simp only [hpage]
  rcases hrec : recordRows p.nowMs p.record 0 (page s p) ⟨s.corrected,s.sourceReliability,0⟩
    with ⟨r,_ | error⟩
  · rw [hrec] at hfailed
    have hall : ¬Unrecorded s p := by
      rintro ⟨n,hn,hne⟩
      exact hne (hfailed.mp rfl n hn)
    cases hrest : p.rest with
    | some error => exact .broken hall hreads (hmark _) (by simp [hrest]) rfl
    | none => exact .stored hall hreads (hmark _) hrest rfl
  · rw [hrec] at hfailed
    have hsome : Unrecorded s p := by
      by_contra hnone
      have := hfailed.mpr (fun n hn => by_contra fun hne => hnone ⟨n,hn,hne⟩)
      cases this
    exact .held hsome rfl rfl

theorem settle_frame (s : Space) (p : Pass) : (settleMemoryMetabolism s p).1.history = s.history ∧
    (settleMemoryMetabolism s p).1.cycles = s.cycles := by
  rw [settleMemoryMetabolism]
  rcases recordRows p.nowMs p.record 0 _ _ with ⟨r,_ | error⟩
  · cases p.rest <;> exact ⟨rfl,rfl⟩
  · exact ⟨rfl,rfl⟩

theorem settle_walks (ok : s.history.Ok) : (settleMemoryMetabolism s p).1.walks =
    s.walks++(revisedRoots p.walk (page s p)).map fun root =>
      (root.assertion,p.walk root.assertion) := by
  have hpage := scan_page (p := p) ok
  rw [settleMemoryMetabolism]
  simp only [hpage]
  rcases recordRows p.nowMs p.record 0 _ _ with ⟨r,_ | error⟩
  · cases p.rest <;> rfl
  · rfl

end Settlements

section Runs
variable {s : Space}

def rootKey (root : RevisedRoot) : ℕ ×ₗ String := toLex (root.spaceSeq,root.assertion)

def Passed (s : Space) (root : RevisedRoot) : Prop :=
  ∃ row ∈ s.history.rows, rowKey row = rootKey root ∧ covered s.after row = true

structure Space.Ok (s : Space) : Prop where
  history : s.history.Ok
  bounded : s.after.seq ≤ s.history.seq
  listed : ∀ cycle ∈ s.cycles, ∀ root ∈ cycle, Passed s root
  stored : ∀ root ∈ maintenanceAssessment s, Passed s root

theorem covers_iff {h : History} {c : CorrectionCursor} {scan : CorrectionScan}
    (reads : Reads h c scan) (row : SupersededRow) (hrow : row ∈ h.rows) :
    covered scan.cursor row = true ↔ covered c row = true ∨ row ∈ scan.rows := by
  have hmem := (mem_ordered row).mpr hrow
  constructor
  · intro hcov
    have : row ∈ h.ordered.filter (covered scan.cursor) := List.mem_filter.mpr ⟨hmem,hcov⟩
    rw [reads.taken, List.mem_append] at this
    exact this.imp List.of_mem_filter id
  · intro hcov
    have : row ∈ h.ordered.filter (covered c)++scan.rows :=
      List.mem_append.mpr (hcov.imp (fun hcov => List.mem_filter.mpr ⟨hmem,hcov⟩) id)
    rw [← reads.taken] at this
    exact List.of_mem_filter this

theorem page_sublist (s : Space) (p : Pass) : (page s p).Sublist (s.history.matching s.after) := by
  rw [page]
  cases p.scan with
  | page limit more unreadable =>
    by_cases h : ∀ n < ((s.history.matching s.after).take (min limit settlementBatchLimit)).length,
        unreadable n = none
    · simp only [if_pos h, List.take_sublist]
    · simp only [if_neg h, List.nil_sublist]
  | _ => exact List.nil_sublist _

variable (p : Pass) (row : SupersededRow)

theorem page_mem (h : row ∈ page s p) : row ∈ s.history.rows ∧ covered s.after row = false := by
  have hmatching := (page_sublist s p).subset h
  have hb := List.of_mem_filter hmatching
  exact ⟨(mem_ordered row).mp (List.mem_of_mem_filter hmatching),by simp [covered, hb]⟩

theorem page_strict (ok : s.history.Ok) :
    (page s p).Pairwise (fun a b => rowKey a < rowKey b) :=
  ((ordered_strict ok).filter _).sublist (page_sublist s p)

theorem covered_key (c : CorrectionCursor) (a b : SupersededRow) (h : rowKey a = rowKey b) :
    covered c a = covered c b := by
  have hab : a.spaceSeq = b.spaceSeq ∧ a.assertion = b.assertion :=
    Prod.mk.inj (toLex.injective h)
  simp [covered, beyond, hab.1, hab.2]

theorem passed_settle (ok : s.Ok) (root : RevisedRoot) (h : Passed s root) :
    Passed (settleMemoryMetabolism s p).1 root := by
  obtain ⟨row,hrow,hkey,hcov⟩ := h
  have hhistory := (settle_frame s p).1
  refine ⟨row,by rw [hhistory]; exact hrow,hkey,?_⟩
  cases settle_moves (p := p) ok.history ok.bounded with
  | held failed cursor stored => rwa [Space.after, cursor]
  | broken recorded reads cursor rest stored =>
    rw [cursor]
    exact (covers_iff reads row hrow).mpr (.inl hcov)
  | stored recorded reads cursor rest report =>
    rw [cursor]
    exact (covers_iff reads row hrow).mpr (.inl hcov)

theorem root_of_page (root : RevisedRoot) (h : root ∈ revisedRoots p.walk (page s p)) :
    ∃ row ∈ (page s p).take revisedRootsLimit, root = revisedRoot row (p.walk row.assertion) := by
  obtain ⟨row,hrow,rfl⟩ := List.mem_map.mp h
  exact ⟨row,hrow,rfl⟩

theorem settle_ok (ok : s.Ok) : (settleMemoryMetabolism s p).1.Ok := by
  have hframe := settle_frame s p
  have hpage := scan_page (p := p) ok.history
  have hmoves := settle_moves (p := p) ok.history ok.bounded
  constructor
  · rw [hframe.1]
    exact ok.history
  · rw [hframe.1]
    cases hmoves with
    | held failed cursor stored =>
      rw [Space.after, cursor]
      exact ok.bounded
    | broken recorded reads cursor rest stored =>
      rw [cursor]
      exact reads.bounded
    | stored recorded reads cursor rest report =>
      rw [cursor]
      exact reads.bounded
  · rw [hframe.2]
    intro cycle hcycle root hroot
    exact passed_settle p ok root (ok.listed cycle hcycle root hroot)
  intro root hroot
  cases hmoves with
  | held failed cursor stored =>
    rw [maintenanceAssessment, stored] at hroot
    exact passed_settle p ok root (ok.stored root hroot)
  | broken recorded reads cursor rest stored =>
    rw [maintenanceAssessment, stored] at hroot
    exact passed_settle p ok root (ok.stored root hroot)
  | stored recorded reads cursor rest report =>
    rw [report] at hroot
    obtain ⟨row,hrow,rfl⟩ := root_of_page p root hroot
    have hmem := (page_mem p row (List.mem_of_mem_take hrow)).1
    refine ⟨row,by rw [hframe.1]; exact hmem,rfl,?_⟩
    rw [cursor]
    apply (covers_iff reads row hmem).mpr
    rw [hpage]
    exact .inr (List.mem_of_mem_take hrow)

theorem covered_commit (t : Transaction) (ok : s.Ok) (row : SupersededRow)
    (hrow : row ∈ (s.history.commit t).rows) (hcov : covered s.after row = true) :
    row ∈ s.history.rows := by
  rcases List.mem_append.mp hrow with hrow | hrow
  · exact hrow
  obtain ⟨a,-,rfl⟩ := List.mem_map.mp hrow
  have hbounded := ok.bounded
  rw [covered_iff] at hcov
  simp only at hcov
  omega

theorem passed_commit (t : Transaction) (root : RevisedRoot) (h : Passed s root) :
    Passed { s with history := s.history.commit t } root := by
  obtain ⟨row,hrow,hkey,hcov⟩ := h
  exact ⟨row,List.mem_append_left _ hrow,hkey,hcov⟩

theorem step_ok (e : Event) (ok : s.Ok) : (s.step e).Ok := by
  cases e with
  | transaction t =>
    refine ⟨commit_ok t ok.history,?_,?_,?_⟩
    · have := ok.bounded
      show s.after.seq ≤ s.history.seq+1+t.gap
      omega
    · intro cycle hcycle root hroot
      exact passed_commit t root (ok.listed cycle hcycle root hroot)
    · intro root hroot
      exact passed_commit t root (ok.stored root hroot)
  | settle p => exact settle_ok p ok
  | maintenance p starts =>
    have hok := settle_ok p ok
    rw [Space.step, maintenance]
    cases starts with
    | false => exact hok
    | true =>
      refine ⟨hok.history,hok.bounded,?_,hok.stored⟩
      intro cycle hcycle root hroot
      rcases List.mem_append.mp hcycle with hcycle | hcycle
      · exact hok.listed cycle hcycle root hroot
      · rw [List.mem_singleton.mp hcycle] at hroot
        exact hok.stored root hroot

theorem start_ok : Space.start.Ok := by
  refine ⟨⟨List.nodup_nil,?_,?_⟩,le_refl _,?_,?_⟩
  · intro row hrow
    cases hrow
  · intro row hrow
    cases hrow
  · intro cycle hcycle
    cases hcycle
  · intro root hroot
    cases hroot

theorem run_ok (events : List Event) : (run events).Ok := by
  induction events using List.reverseRecOn with
  | nil => exact start_ok
  | append_singleton events e ih =>
    rw [run, List.foldl_append]
    exact step_ok e ih

theorem shows_walked (walks : List (String × Except String Listing))
    (h : (row.assertion,p.walk row.assertion) ∈ walks) : Shows walks row
    (revisedRoot row (p.walk row.assertion)) := by
  refine ⟨rfl,rfl,rfl,rfl,rfl,?_⟩
  cases hw : p.walk row.assertion with
  | error e => exact .inl rfl
  | ok reply => exact .inr ⟨reply,hw ▸ h,rfl⟩

theorem shows_more (walks more : List (String × Except String Listing)) (row : SupersededRow)
    (root : RevisedRoot) (h : Shows walks row root) : Shows (walks++more) row root :=
  { h with
    walked := h.walked.imp id fun ⟨reply,hreply,hd⟩ => ⟨reply,List.mem_append_left _ hreply,hd⟩ }

theorem reviewed_idle (ok : s.Ok) (h : Reviewed s)
    (idle : page s p = [] ∨ Unrecorded s p) : Reviewed (settleMemoryMetabolism s p).1 := by
  have hframe := settle_frame s p
  have hpage := scan_page (p := p) ok.history
  have hold : ∀ row ∈ s.history.rows, covered (settleMemoryMetabolism s p).1.after row = true →
      covered s.after row = true := by
    intro row hrow hcov
    have hreads : ∀ scan : CorrectionScan, Reads s.history s.after scan → scan.rows = page s p →
        ¬Unrecorded s p → covered scan.cursor row = true → covered s.after row = true := by
      intro scan reads hrows hrec hcov
      rcases (covers_iff reads row hrow).mp hcov with hcov | hmem
      · exact hcov
      · rw [hrows, idle.resolve_right hrec] at hmem
        cases hmem
    cases settle_moves (p := p) ok.history ok.bounded with
    | held failed cursor stored => rwa [Space.after, cursor] at hcov
    | broken recorded reads cursor rest stored => exact hreads _ reads hpage recorded (cursor ▸ hcov)
    | stored recorded reads cursor rest report => exact hreads _ reads hpage recorded (cursor ▸ hcov)
  intro row hrow hcov
  rw [hframe.1] at hrow
  obtain ⟨cycle,hcycle,root,hroot,hshows⟩ := h row hrow (hold row hrow hcov)
  rw [hframe.2, settle_walks ok.history]
  exact ⟨cycle,hcycle,root,hroot,shows_more _ _ row root hshows⟩

theorem reviewed_cycle (cycle : List RevisedRoot) (h : Reviewed s) :
    Reviewed { s with cycles := s.cycles++[cycle] } := by
  intro row hrow hcov
  obtain ⟨c,hc,root,hroot,hshows⟩ := h row hrow hcov
  exact ⟨c,List.mem_append_left _ hc,root,hroot,hshows⟩

theorem reviewed_step (e : Event) (ok : s.Ok) (h : Reviewed s) (carried : Carried s e) :
    Reviewed (s.step e) := by
  cases e with
  | transaction t =>
    intro row hrow hcov
    exact h row (covered_commit t ok row hrow hcov) hcov
  | settle p => exact reviewed_idle p ok h carried
  | maintenance p starts =>
    rw [Space.step, maintenance]
    rcases or_assoc.mpr carried with idle | ⟨hlen,hrest,rfl⟩
    · have hidle := reviewed_idle p ok h idle
      cases starts with
      | false => exact hidle
      | true => exact reviewed_cycle _ hidle
    by_cases hrec : Unrecorded s p
    · exact reviewed_cycle _ (reviewed_idle p ok h (.inr hrec))
    cases settle_moves (p := p) ok.history ok.bounded with
    | held failed cursor stored => exact absurd failed hrec
    | broken recorded reads cursor rest stored => exact absurd hrest rest
    | stored recorded reads cursor rest report =>
      have hframe := settle_frame s p
      intro row hrow hcov
      have hrow' : row ∈ s.history.rows := hframe.1 ▸ hrow
      have hcov' : covered (scanCorrections s.after (s.history.reply s.after p.scan)).cursor
          row = true := cursor ▸ hcov
      show ∃ cycle ∈ (settleMemoryMetabolism s p).1.cycles++[maintenanceAssessment
        (settleMemoryMetabolism s p).1], ∃ root ∈ cycle,
        Shows (settleMemoryMetabolism s p).1.walks row root
      rw [report, hframe.2, settle_walks ok.history]
      rcases (covers_iff reads row hrow').mp hcov' with hcov' | hmem
      · obtain ⟨cycle,hcycle,root,hroot,hshows⟩ := h row hrow' hcov'
        exact ⟨cycle,List.mem_append_left _ hcycle,root,hroot,shows_more _ _ row root hshows⟩
      rw [scan_page ok.history] at hmem
      have hroot : revisedRoot row (p.walk row.assertion) ∈
          revisedRoots p.walk (page s p) := by
        apply List.mem_map.mpr
        exact ⟨row,by rwa [List.take_of_length_le hlen],rfl⟩
      refine ⟨_,List.mem_append_right _ (List.mem_singleton_self _),_,hroot,?_⟩
      apply shows_walked
      apply List.mem_append_right
      exact List.mem_map.mpr ⟨_,hroot,rfl⟩

theorem shows_key {walks : List (String × Except String Listing)} {row : SupersededRow}
    {root : RevisedRoot} (h : Shows walks row root) : rootKey root = rowKey row := by
  rw [rootKey, rowKey, h.spaceSeq, h.assertion]

theorem not_shown (hrow : row ∈ page s p) (root : RevisedRoot) (passed : Passed s root)
    (walks : List (String × Except String Listing)) : ¬Shows walks row root := by
  intro hshows
  obtain ⟨other,-,hkey,hcov⟩ := passed
  rw [covered_key s.after other row (hkey.trans (shows_key hshows)), (page_mem p row hrow).2] at hcov
  cases hcov

theorem covered_page (ok : s.Ok) (hrec : ¬Unrecorded s p) (row : SupersededRow)
    (hrow : row ∈ page s p) : covered (settleMemoryMetabolism s p).1.after row = true := by
  have hmem := (page_mem p row hrow).1
  have hscan : row ∈ (scanCorrections s.after (s.history.reply s.after p.scan)).rows := by
    rwa [scan_page ok.history]
  cases settle_moves (p := p) ok.history ok.bounded with
  | held failed cursor stored => exact absurd failed hrec
  | broken recorded reads cursor rest stored =>
    rw [cursor]
    exact (covers_iff reads row hmem).mpr (.inr hscan)
  | stored recorded reads cursor rest report =>
    rw [cursor]
    exact (covers_iff reads row hmem).mpr (.inr hscan)

theorem page_head (h : page s p ≠ []) : ∃ row, row ∈ page s p :=
  List.exists_mem_of_ne_nil _ h

theorem page_rest (ok : s.history.Ok) (h : revisedRootsLimit < (page s p).length) :
    ∃ row ∈ page s p, ∀ other ∈ (page s p).take revisedRootsLimit, rowKey other < rowKey row := by
  have hne : (page s p).drop revisedRootsLimit ≠ [] := by
    simp only [ne_eq, List.drop_eq_nil_iff]
    omega
  obtain ⟨row,hrow⟩ := List.exists_mem_of_ne_nil _ hne
  have hstrict := page_strict p ok
  rw [← List.take_append_drop revisedRootsLimit (page s p)] at hstrict
  exact ⟨row,List.mem_of_mem_drop hrow,fun other hother =>
    (List.pairwise_append.mp hstrict).2.2 other hother row hrow⟩

theorem reviewed_only (e : Event) (ok : s.Ok) (h : Reviewed (s.step e)) : Carried s e := by
  cases e with
  | transaction t => exact trivial
  | settle p =>
    by_contra hnot
    rw [Carried, not_or] at hnot
    obtain ⟨row,hrow⟩ := page_head p hnot.1
    obtain ⟨cycle,hcycle,root,hroot,hshows⟩ := h row
      (by rw [Space.step, (settle_frame s p).1]; exact (page_mem p row hrow).1)
      (covered_page p ok hnot.2 row hrow)
    rw [Space.step, (settle_frame s p).2] at hcycle
    exact not_shown p row hrow root (ok.listed cycle hcycle root hroot) _ hshows
  | maintenance p starts =>
    by_contra hnot
    simp only [Carried, not_or] at hnot
    obtain ⟨hne,hrec,hnot⟩ := hnot
    have hframe := settle_frame s p
    -- Some row of the page is in no cycle, whatever the assessment carried.
    have hmiss : ∃ row ∈ page s p, ∀ root ∈ maintenanceAssessment (settleMemoryMetabolism s p).1,
        starts = true → rootKey root ≠ rowKey row := by
      cases settle_moves (p := p) ok.history ok.bounded with
      | held failed cursor stored => exact absurd failed hrec
      | broken recorded reads cursor rest stored =>
        obtain ⟨row,hrow⟩ := page_head p hne
        refine ⟨row,hrow,?_⟩
        intro root hroot hs hkey
        rw [maintenanceAssessment, stored] at hroot
        obtain ⟨other,-,hother,hcov⟩ := ok.stored root hroot
        rw [covered_key s.after other row (hother.trans hkey), (page_mem p row hrow).2] at hcov
        cases hcov
      | stored recorded reads cursor rest report =>
        by_cases hlen : (page s p).length ≤ revisedRootsLimit
        · obtain ⟨row,hrow⟩ := page_head p hne
          exact ⟨row,hrow,fun root hroot hs => absurd ⟨hlen,rest,hs⟩ hnot⟩
        obtain ⟨row,hrow,hlt⟩ := page_rest p ok.history (not_le.mp hlen)
        refine ⟨row,hrow,?_⟩
        intro root hroot hs hkey
        rw [report] at hroot
        obtain ⟨other,hother,rfl⟩ := root_of_page p root hroot
        exact (hlt other hother).ne hkey
    obtain ⟨row,hrow,hmiss⟩ := hmiss
    rw [Space.step, maintenance] at h
    cases starts with
    | false =>
      obtain ⟨cycle,hcycle,root,hroot,hshows⟩ := h row
        (by rw [if_neg Bool.false_ne_true, hframe.1]; exact (page_mem p row hrow).1)
        (covered_page p ok hrec row hrow)
      rw [if_neg Bool.false_ne_true, hframe.2] at hcycle
      exact not_shown p row hrow root (ok.listed cycle hcycle root hroot) _ hshows
    | true =>
      obtain ⟨cycle,hcycle,root,hroot,hshows⟩ := h row
        (by show row ∈ (settleMemoryMetabolism s p).1.history.rows
            rw [hframe.1]
            exact (page_mem p row hrow).1)
        (covered_page p ok hrec row hrow)
      rcases List.mem_append.mp hcycle with hcycle | hcycle
      · rw [hframe.2] at hcycle
        exact not_shown p row hrow root (ok.listed cycle hcycle root hroot) _ hshows
      · rw [List.mem_singleton.mp hcycle] at hroot
        exact hmiss root hroot rfl (shows_key hshows)

end Runs

/-- No state of a run has passed an unreviewed root if and only if every settlement of the
run that passes rows walks all of them and stores its report for a cycle that starts. -/
theorem revised_roots_reviewed_iff (events : List Event) :
    (∀ before, before <+: events → Reviewed (run before)) ↔
    (∀ before e, before++[e] <+: events → Carried (run before) e) := by
  have hstep : ∀ before e, run (before++[e]) = (run before).step e := by
    intro before e
    simp [run]
  constructor
  · intro h before e hpre
    have hreviewed := h (before++[e]) hpre
    rw [hstep] at hreviewed
    exact reviewed_only e (run_ok before) hreviewed
  intro h before
  induction before using List.reverseRecOn with
  | nil =>
    intro _ row hrow
    cases hrow
  | append_singleton before e ih =>
    intro hpre
    rw [hstep]
    have hbefore : before <+: events := (List.prefix_append before [e]).trans hpre
    exact reviewed_step e (run_ok before) (ih hbefore) (h before e hpre)

section Lost

def revision : Transaction where
  gap := 0
  revised := [⟨"A-1",0,none,none,["A-2"]⟩]
  distinct := by decide
  named := by decide

def quiet : Pass :=
  ⟨0,.page settlementBatchLimit false fun _ => none,fun _ => .ok ⟨⟨some (.arr []),false⟩,[]⟩,
    fun _ => none,none⟩

/-- The cycle after the settlement does not start, and the next settlement finds nothing:
its report replaces the roots before any cycle saw them. -/
theorem replaced_report_loses_root :
    ¬Reviewed (run [.transaction revision,.maintenance quiet false,.maintenance quiet true]) := by
  intro h
  have hrow : (⟨"A-1",1,none,none,["A-2"]⟩ : SupersededRow) ∈
      (run [.transaction revision,.maintenance quiet false,.maintenance quiet true]).history.rows := by
    decide
  have hcov : covered (run [.transaction revision,.maintenance quiet false,
      .maintenance quiet true]).after ⟨"A-1",1,none,none,["A-2"]⟩ = true := by
    decide
  have hcycles : (run [.transaction revision,.maintenance quiet false,
      .maintenance quiet true]).cycles = [[]] := by
    decide
  obtain ⟨cycle,hcycle,root,hroot,-⟩ := h _ hrow hcov
  rw [hcycles, List.mem_singleton] at hcycle
  subst hcycle
  cases hroot

end Lost

end AndaBrain.RevisedRoots
