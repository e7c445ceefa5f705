import AndaBrain.Json
import AndaBrain.Foundation.SortBy
import AndaBrain.Foundation.KeysetPages
import Mathlib.Data.List.Induction
import Mathlib.Data.Prod.Lex
import Mathlib.Data.String.Basic

/-!
# The discovery of corrections

`scan_corrections` of `settlement/mod.rs` reads the superseded Assertions page by page, in the
order of their transaction and id.
-/

set_option autoImplicit false

namespace AndaBrain.Settlement
open Foundation.SortBy Foundation.KeysetPages

def settlementBatchLimit : ℕ := 500

structure SupersededRow where
  assertion : String
  spaceSeq : ℕ
  actor : Option String
  proposition : Option String
  supersededBy : List String
  deriving DecidableEq

/-- An empty id: the coordinate was read whole. Any other id: read up to it. -/
structure CorrectionCursor where
  seq : ℕ
  afterId : String
  deriving DecidableEq

structure CorrectionScan where
  rows : List SupersededRow
  cursor : CorrectionCursor
  watermark : ℕ
  incomplete : Bool
  error : Option String

def elementId : Json → Option String
  | .str id => some id
  | .obj fields => (Json.obj fields).get "id" |>.bind Json.asStr
  | _ => none

def readRow (row : Json) : Option SupersededRow := do
  let columns ← row.asArray
  let id ← columns[0]? >>= Json.asStr
  let seq ← columns[1]? >>= Json.asU64
  pure
    { assertion := id
      spaceSeq := seq
      actor := columns[2]? >>= elementId
      proposition := columns[3]? >>= elementId
      supersededBy := ((columns[4]? >>= Json.asArray).getD []).filterMap elementId }

def supersededRows (rows : List Json) : List SupersededRow := rows.filterMap readRow

/-- A reply that succeeded: its result, and whether the engine offers to go on. -/
structure Response where
  result : Option Json
  nextCursor : Bool

def beyond (after : CorrectionCursor) (row : SupersededRow) : Bool :=
  decide (after.seq < row.spaceSeq) ||
    (row.spaceSeq == after.seq && after.afterId != "" && decide (after.afterId < row.assertion))

def rowBefore (a b : SupersededRow) : Bool :=
  decide (a.spaceSeq < b.spaceSeq) ||
    (a.spaceSeq == b.spaceSeq && decide (a.assertion ≤ b.assertion))

def through (after : CorrectionCursor) : ℕ :=
  if after.afterId = "" then after.seq else after.seq-1

def degraded (after : CorrectionCursor) (error : String) : CorrectionScan :=
  ⟨[],after,through after,true,some error⟩

def settle (after : CorrectionCursor) (incomplete : Bool) (rows : List SupersededRow) :
    CorrectionScan :=
  match rows.getLast? with
  | some last =>
    { rows := rows
      cursor := ⟨last.spaceSeq,if incomplete then last.assertion else ""⟩
      watermark := max (if incomplete then last.spaceSeq-1 else last.spaceSeq) (through after)
      incomplete := incomplete
      error := none }
  | none =>
    if incomplete then ⟨rows,after,max (through after) (through after),incomplete,none⟩
    else ⟨rows,⟨after.seq,""⟩,max after.seq (through after),incomplete,none⟩

def scanCorrections (after : CorrectionCursor) (reply : Except String Response) :
    CorrectionScan :=
  match reply with
  | .error error => degraded after error
  | .ok response =>
    match response.result.bind Json.asArray with
    | none => degraded after "correction scan returned no row array"
    | some rows =>
      let parsed := supersededRows rows
      if parsed.length ≠ rows.length then
        degraded after "correction scan returned an unreadable row; cursor retained"
      else
        settle after (decide (settlementBatchLimit ≤ rows.length) || response.nextCursor)
          (sortBy rowBefore (parsed.filter (beyond after)))

structure Transaction where
  gap : ℕ
  revised : List SupersededRow
  distinct : (revised.map SupersededRow.assertion).Nodup
  named : ∀ row ∈ revised, row.assertion ≠ ""

structure History where
  rows : List SupersededRow
  seq : ℕ

def History.commit (h : History) (t : Transaction) : History where
  rows := h.rows++t.revised.map fun row => { row with spaceSeq := h.seq+1+t.gap }
  seq := h.seq+1+t.gap

def History.ordered (h : History) : List SupersededRow := sortBy rowBefore h.rows

def render (row : SupersededRow) : Json :=
  .arr [.str row.assertion,.int row.spaceSeq,row.actor.elim .null .str,
    row.proposition.elim .null .str,.arr (row.supersededBy.map .str)]

/-- How the graph answers a scan: with an error, with something that is no array,
or with a page that may be cut short and hold rows nobody can read. -/
inductive Answer where
  | failed (error : String)
  | noArray (result : Option Json) (nextCursor : Bool) (h : result.bind Json.asArray = none)
  | page (limit : ℕ) (more : Bool) (unreadable : ℕ → Option {j : Json // readRow j = none})

def History.matching (h : History) (after : CorrectionCursor) : List SupersededRow :=
  h.ordered.filter (beyond after)

def History.reply (h : History) (after : CorrectionCursor) : Answer → Except String Response
  | .failed error => .error error
  | .noArray result nextCursor _ => .ok ⟨result,nextCursor⟩
  | .page limit more unreadable =>
    let rows := (h.matching after).take (min limit settlementBatchLimit)
    .ok
      { result := some (.arr (rows.mapIdx fun n row => ((unreadable n).map Subtype.val).getD
          (render row)))
        nextCursor := more ||
          (decide (limit < settlementBatchLimit) && decide (limit < (h.matching after).length)) }

structure Walk where
  history : History
  cursor : CorrectionCursor
  scans : List CorrectionScan

inductive Event where
  | transaction (t : Transaction)
  | scan (a : Answer)

def Walk.step (w : Walk) : Event → Walk
  | .transaction t => { w with history := w.history.commit t }
  | .scan a =>
    let scan := scanCorrections w.cursor (w.history.reply w.cursor a)
    { w with cursor := scan.cursor, scans := w.scans++[scan] }

def Walk.start : Walk := ⟨⟨[],0⟩,⟨0,""⟩,[]⟩

def walk (events : List Event) : Walk := events.foldl Walk.step Walk.start

def Walk.returned (w : Walk) : List SupersededRow := w.scans.flatMap CorrectionScan.rows

def Walk.watermark (w : Walk) : ℕ := w.scans.getLast?.elim 0 CorrectionScan.watermark

section Rows

def rowKey (row : SupersededRow) : ℕ ×ₗ String := toLex (row.spaceSeq,row.assertion)

theorem row_before_key (a b : SupersededRow) : rowBefore a b = true ↔ rowKey a ≤ rowKey b := by
  simp [rowBefore, rowKey, Prod.Lex.toLex_le_toLex]

theorem read_render (row : SupersededRow) : readRow (render row) = some row := by
  have hids : ∀ ids : List String, (ids.map Json.str).filterMap elementId = ids := by
    intro ids
    induction ids with
    | nil => rfl
    | cons id ids ih => simp [elementId, ih]
  have hoption : ∀ o : Option String, elementId (o.elim .null .str) = o := by
    intro o
    cases o <;> rfl
  cases row with
  | mk id seq actor proposition supersededBy =>
    simp [readRow, render, Json.asArray, Json.asStr, Json.asU64, hoption, hids]

theorem superseded_rows_sent (rows : List SupersededRow)
    (unreadable : ℕ → Option {j : Json // readRow j = none})
    (h : (supersededRows (rows.mapIdx fun n row => ((unreadable n).map Subtype.val).getD
      (render row))).length = rows.length) :
    supersededRows (rows.mapIdx fun n row => ((unreadable n).map Subtype.val).getD
      (render row)) = rows := by
  induction rows generalizing unreadable with
  | nil => rfl
  | cons row rest ih =>
    rw [List.mapIdx_cons] at h ⊢
    have hle : (supersededRows (rest.mapIdx fun n row =>
        ((unreadable (n+1)).map Subtype.val).getD (render row))).length ≤ rest.length := by
      have := List.length_filterMap_le readRow (rest.mapIdx fun n row =>
        ((unreadable (n+1)).map Subtype.val).getD (render row))
      rwa [List.length_mapIdx] at this
    cases hu : unreadable 0 with
    | some j =>
      simp only [supersededRows, List.filterMap_cons, hu, Option.map_some, Option.getD_some,
        j.property, List.length_cons] at h hle
      omega
    | none =>
      simp only [supersededRows, List.filterMap_cons, hu, Option.map_none, Option.getD_none,
        read_render, List.length_cons, Nat.add_right_cancel_iff] at h ⊢
      rw [List.cons.injEq]
      exact ⟨rfl,ih (fun n => unreadable (n+1)) h⟩

end Rows

section Cursor

def covered (c : CorrectionCursor) (row : SupersededRow) : Bool := !beyond c row

theorem covered_iff (c : CorrectionCursor) (row : SupersededRow) : covered c row = true ↔
    row.spaceSeq < c.seq ∨ (row.spaceSeq = c.seq ∧ (c.afterId = "" ∨ row.assertion ≤ c.afterId)) := by
  by_cases hid : c.afterId = ""
  · simp [covered, beyond, hid]
    omega
  by_cases hlt : c.seq < row.spaceSeq
  · simp [covered, beyond, hlt]
    omega
  have hs : decide (c.afterId < row.assertion) = false ↔ row.assertion ≤ c.afterId := by
    rw [decide_eq_false_iff_not, not_lt]
  by_cases heq : row.spaceSeq = c.seq
  · simp only [covered, beyond, hid, heq, hs, lt_irrefl, decide_false, Bool.false_or,
      beq_self_eq_true, Bool.true_and, Bool.not_eq_true', Bool.and_eq_false_iff,
      bne_eq_false_iff_eq, false_or, true_and]
  · simp [covered, beyond, hid, hlt, heq]
    omega

theorem covered_below (c : CorrectionCursor) (a b : SupersededRow) (h : rowKey a < rowKey b)
    (hb : covered c b = true) : covered c a = true := by
  rw [covered_iff] at hb ⊢
  rw [rowKey, rowKey, Prod.Lex.toLex_lt_toLex] at h
  rcases h with h | ⟨he,hid⟩
  · left
    rcases hb with hb | ⟨hb,-⟩
    · exact h.trans hb
    · exact hb ▸ h
  · rcases hb with hb | ⟨hb,hi⟩
    · exact .inl (lt_of_eq_of_lt he hb)
    · exact .inr ⟨he.trans hb,hi.imp id fun hi => hid.le.trans hi⟩

theorem covered_at (last : SupersededRow) (hid : last.assertion ≠ "") :
    covered ⟨last.spaceSeq,last.assertion⟩ = fun row => decide (rowKey row ≤ rowKey last) := by
  funext row
  have h := covered_iff ⟨last.spaceSeq,last.assertion⟩ row
  simp only [hid, false_or] at h
  have hk : rowKey row ≤ rowKey last ↔ row.spaceSeq < last.spaceSeq ∨
      (row.spaceSeq = last.spaceSeq ∧ row.assertion ≤ last.assertion) :=
    Prod.Lex.toLex_le_toLex
  rw [Bool.eq_iff_iff, h, decide_eq_true_iff, hk]

end Cursor

section History

structure History.Ok (h : History) : Prop where
  distinct : (h.rows.map rowKey).Nodup
  named : ∀ row ∈ h.rows, row.assertion ≠ ""
  dated : ∀ row ∈ h.rows, 1 ≤ row.spaceSeq ∧ row.spaceSeq ≤ h.seq

variable {h : History}

theorem mem_ordered (row : SupersededRow) : row ∈ h.ordered ↔ row ∈ h.rows :=
  (sort_by_perm rowBefore h.rows).mem_iff

theorem ordered_strict (ok : h.Ok) : h.ordered.Pairwise (fun a b => rowKey a < rowKey b) :=
  sort_by_strict rowKey rowBefore row_before_key h.rows ok.distinct

theorem sort_of_strict (rows : List SupersededRow)
    (hs : rows.Pairwise (fun a b => rowKey a < rowKey b)) : sortBy rowBefore rows = rows := by
  apply List.Pairwise.insertionSort_eq
  exact hs.imp fun hab => (row_before_key _ _).mpr hab.le

theorem commit_ok (t : Transaction) (ok : h.Ok) : (h.commit t).Ok := by
  constructor
  · simp only [History.commit, List.map_append, List.map_map]
    apply List.Nodup.append ok.distinct
    · apply (List.nodup_map_iff_inj_on (List.Nodup.of_map _ t.distinct)).mpr
      intro a ha b hb hab
      have hid : a.assertion = b.assertion := (Prod.mk.inj (toLex.injective hab)).2
      exact List.inj_on_of_nodup_map t.distinct ha hb hid
    intro k hk hk'
    obtain ⟨a,ha,rfl⟩ := List.mem_map.mp hk
    obtain ⟨b,hb,hab⟩ := List.mem_map.mp hk'
    have hseq : h.seq+1+t.gap = a.spaceSeq := (Prod.mk.inj (toLex.injective hab)).1
    have := (ok.dated a ha).2
    omega
  · intro row hrow
    rcases List.mem_append.mp hrow with hrow | hrow
    · exact ok.named row hrow
    · obtain ⟨a,ha,rfl⟩ := List.mem_map.mp hrow
      exact t.named a ha
  · intro row hrow
    show 1 ≤ row.spaceSeq ∧ row.spaceSeq ≤ h.seq+1+t.gap
    rcases List.mem_append.mp hrow with hrow | hrow
    · have := ok.dated row hrow
      omega
    · obtain ⟨a,ha,rfl⟩ := List.mem_map.mp hrow
      show 1 ≤ h.seq+1+t.gap ∧ h.seq+1+t.gap ≤ h.seq+1+t.gap
      omega

theorem ordered_commit (t : Transaction) (ok : h.Ok) : ∃ rest,
    (h.commit t).ordered = h.ordered++rest ∧ ∀ row ∈ rest, h.seq < row.spaceSeq := by
  have hnew : ∀ row ∈ t.revised.map (fun row => { row with spaceSeq := h.seq+1+t.gap }),
      h.seq < row.spaceSeq := by
    intro row hrow
    obtain ⟨a,-,rfl⟩ := List.mem_map.mp hrow
    show h.seq < h.seq+1+t.gap
    omega
  refine ⟨sortBy rowBefore (t.revised.map fun row => { row with spaceSeq := h.seq+1+t.gap }),?_,?_⟩
  · have hperm : (h.commit t).ordered.Perm (h.ordered++
        sortBy rowBefore (t.revised.map fun row => { row with spaceSeq := h.seq+1+t.gap })) :=
      (sort_by_perm rowBefore _).trans
        ((sort_by_perm rowBefore h.rows).symm.append (sort_by_perm rowBefore _).symm)
    have hle : (h.ordered++sortBy rowBefore
        (t.revised.map fun row => { row with spaceSeq := h.seq+1+t.gap })).Pairwise
        (fun a b => rowKey a ≤ rowKey b) := by
      apply List.pairwise_append.mpr
      refine ⟨sort_by_sorted rowKey rowBefore row_before_key _,
        sort_by_sorted rowKey rowBefore row_before_key _,?_⟩
      intro a ha b hb
      have h1 := (ok.dated a ((mem_ordered a).mp ha)).2
      have h2 := hnew b ((sort_by_perm rowBefore _).mem_iff.mp hb)
      exact Prod.Lex.toLex_le_toLex.mpr (.inl (h1.trans_lt h2))
    have hlt := ordered_strict (commit_ok t ok)
    apply List.Perm.eq_of_pairwise _ (hlt.imp le_of_lt) hle hperm
    intro a b ha hb hab hba
    by_contra hne
    have hkeys : ((h.commit t).ordered.map rowKey).Nodup :=
      List.pairwise_map.mpr (hlt.imp ne_of_lt)
    exact hne (List.inj_on_of_nodup_map hkeys ha (hperm.mem_iff.mpr hb) (le_antisymm hab hba))
  · intro row hrow
    exact hnew row ((sort_by_perm rowBefore _).mem_iff.mp hrow)

end History

section Scan
variable {h : History} {c : CorrectionCursor}

structure Reads (h : History) (c : CorrectionCursor) (scan : CorrectionScan) : Prop where
  taken : h.ordered.filter (covered scan.cursor) = h.ordered.filter (covered c)++scan.rows
  watermark : scan.watermark = through scan.cursor
  forward : through c ≤ scan.watermark
  bounded : scan.cursor.seq ≤ h.seq

theorem degraded_reads (error : String) (hc : c.seq ≤ h.seq) : Reads h c (degraded c error) :=
  ⟨(List.append_nil _).symm,rfl,le_refl _,hc⟩

theorem through_le (c : CorrectionCursor) : through c ≤ c.seq := by
  rw [through]
  split <;> omega

theorem settle_reads (incomplete : Bool) (k : ℕ) (ok : h.Ok) (hc : c.seq ≤ h.seq)
    (hall : incomplete = false → (h.matching c).take k = h.matching c) :
    Reads h c (settle c incomplete ((h.matching c).take k)) := by
  have hmatching : h.matching c = h.ordered.filter fun row => !covered c row := by
    simp [History.matching, covered]
  have hbelow : ∀ a ∈ h.ordered, ∀ b ∈ h.ordered, rowKey a < rowKey b → covered c b = true →
      covered c a = true := fun a _ b _ => covered_below c a b
  have hsplit : h.ordered.filter (covered c)++h.matching c = h.ordered := by
    rw [hmatching]
    exact filter_append_not rowKey (covered c) h.ordered (ordered_strict ok) hbelow
  rw [settle.eq_def]
  cases hl : ((h.matching c).take k).getLast? with
  | some last =>
    have hmem : last ∈ h.matching c := List.mem_of_mem_take (List.mem_of_getLast? hl)
    have hrow : last ∈ h.rows := (mem_ordered last).mp (List.mem_of_mem_filter hmem)
    have hdated := ok.dated last hrow
    have hbeyond : c.seq ≤ last.spaceSeq ∧ (c.afterId = "" → c.seq < last.spaceSeq) := by
      have hb := List.of_mem_filter hmem
      simp only [beyond, Bool.or_eq_true, Bool.and_eq_true, decide_eq_true_eq, beq_iff_eq,
        bne_iff_ne] at hb
      rcases hb with hb | ⟨⟨hb,hid⟩,-⟩
      · exact ⟨hb.le,fun _ => hb⟩
      · exact ⟨hb.ge,fun he => absurd he hid⟩
    have hthrough : through c ≤ last.spaceSeq-1 := by
      rw [through]
      split
      · rename_i hid
        have := hbeyond.2 hid
        omega
      · omega
    cases incomplete with
    | true =>
      have hid := ok.named last hrow
      refine ⟨?_,?_,le_max_right _ _,hdated.2⟩
      · show h.ordered.filter (covered ⟨last.spaceSeq,last.assertion⟩) = _
        rw [covered_at last hid]
        rw [hmatching] at hl ⊢
        exact page_taken rowKey (covered c) h.ordered k last (ordered_strict ok) hbelow hl
      · show max (last.spaceSeq-1) (through c) = through ⟨last.spaceSeq,last.assertion⟩
        rw [max_eq_left hthrough, through, if_neg hid]
    | false =>
      refine ⟨?_,?_,le_max_right _ _,hdated.2⟩
      · show h.ordered.filter (covered ⟨last.spaceSeq,""⟩) = _++(h.matching c).take k
        rw [hall rfl, hsplit]
        apply List.filter_eq_self.mpr
        -- Nothing is left behind the last row, so its whole coordinate was read.
        intro row hmem'
        rw [covered_iff]
        have hle : rowKey row ≤ rowKey last := by
          rw [hall rfl] at hl
          rw [← hsplit] at hmem'
          have := filter_upto_last rowKey (h.ordered.filter (covered c)++h.matching c) [] last
            (by rw [List.append_nil, hsplit]; exact ordered_strict ok)
            (by rw [List.getLast?_append, hl]; rfl)
          rw [List.append_nil] at this
          rw [← this] at hmem'
          simpa using List.of_mem_filter hmem'
        rcases Prod.Lex.toLex_le_toLex.mp hle with hlt | ⟨heq,-⟩
        · exact .inl hlt
        · exact .inr ⟨heq,.inl rfl⟩
      · show max last.spaceSeq (through c) = through ⟨last.spaceSeq,""⟩
        rw [max_eq_left (by omega)]
        rfl
  | none =>
    have hnil : (h.matching c).take k = [] := List.getLast?_eq_none_iff.mp hl
    rw [hnil]
    cases incomplete with
    | true =>
      exact ⟨(List.append_nil _).symm,max_self _,le_max_right _ _,hc⟩
    | false =>
      have hall' : h.ordered.filter (covered c) = h.ordered := by
        rw [hall rfl] at hnil
        rw [hnil, List.append_nil] at hsplit
        exact hsplit
      refine ⟨?_,?_,le_max_right _ _,hc⟩
      · show h.ordered.filter (covered ⟨c.seq,""⟩) = h.ordered.filter (covered c)++[]
        rw [List.append_nil, hall']
        apply List.filter_eq_self.mpr
        intro row hrow
        have hcov := List.filter_eq_self.mp hall' row hrow
        rw [covered_iff] at hcov ⊢
        rcases hcov with hlt | ⟨heq,-⟩
        · exact .inl hlt
        · exact .inr ⟨heq,.inl rfl⟩
      · show max c.seq (through c) = through ⟨c.seq,""⟩
        rw [max_eq_left (through_le c)]
        rfl

theorem scan_reads (a : Answer) (ok : h.Ok) (hc : c.seq ≤ h.seq) :
    Reads h c (scanCorrections c (h.reply c a)) := by
  cases a with
  | failed error => exact degraded_reads error hc
  | noArray result nextCursor hn =>
    simp only [scanCorrections, History.reply, hn]
    exact degraded_reads _ hc
  | page limit more unreadable =>
    simp only [scanCorrections, History.reply, Option.bind_some, Json.asArray]
    split
    · exact degraded_reads _ hc
    rename_i hlen
    rw [not_not, List.length_mapIdx] at hlen
    rw [superseded_rows_sent _ unreadable hlen, List.length_mapIdx]
    have hfilter : ((h.matching c).take (min limit settlementBatchLimit)).filter (beyond c) =
        (h.matching c).take (min limit settlementBatchLimit) := by
      apply List.filter_eq_self.mpr
      intro row hrow
      exact List.of_mem_filter (List.mem_of_mem_take hrow)
    have hstrict : ((h.matching c).take (min limit settlementBatchLimit)).Pairwise
        (fun a b => rowKey a < rowKey b) :=
      ((ordered_strict ok).filter _).sublist (List.take_sublist _ _)
    rw [hfilter, sort_of_strict _ hstrict]
    apply settle_reads _ _ ok hc
    intro hcomplete
    apply List.take_of_length_le
    simp only [Bool.or_eq_false_iff, decide_eq_false_iff_not, List.length_take,
      Bool.and_eq_false_iff] at hcomplete
    omega

end Scan

section Walks

structure Walk.Ok (w : Walk) : Prop where
  history : w.history.Ok
  returned : w.returned = w.history.ordered.filter (covered w.cursor)
  bounded : w.cursor.seq ≤ w.history.seq
  watermark : w.watermark = through w.cursor
  rising : (w.scans.map CorrectionScan.watermark).Pairwise (fun a b => a ≤ b)

theorem start_ok : Walk.start.Ok := by
  refine ⟨⟨List.nodup_nil,?_,?_⟩,rfl,le_refl _,rfl,List.Pairwise.nil⟩
  · intro row hrow
    cases hrow
  · intro row hrow
    cases hrow

theorem transaction_ok (w : Walk) (t : Transaction) (ok : w.Ok) : (w.step (.transaction t)).Ok := by
  obtain ⟨rest,hrest,hnew⟩ := ordered_commit t ok.history
  refine ⟨commit_ok t ok.history,?_,?_,ok.watermark,ok.rising⟩
  · show w.returned = (w.history.commit t).ordered.filter (covered w.cursor)
    rw [hrest, List.filter_append, ok.returned]
    have hnone : rest.filter (covered w.cursor) = [] := by
      apply List.filter_eq_nil_iff.mpr
      intro row hrow hcov
      rw [covered_iff] at hcov
      have h1 := hnew row hrow
      have h2 := ok.bounded
      omega
    rw [hnone, List.append_nil]
  · have := ok.bounded
    show w.cursor.seq ≤ w.history.seq+1+t.gap
    omega

theorem watermark_le (w : Walk) (ok : w.Ok) :
    ∀ m ∈ w.scans.map CorrectionScan.watermark, m ≤ w.watermark := by
  intro m hm
  rcases List.eq_nil_or_concat w.scans with hnil | ⟨init,last,hlast⟩
  · rw [hnil] at hm
    cases hm
  have hlast' : w.scans = init++[last] := by rw [hlast, List.concat_eq_append]
  have hw : w.watermark = last.watermark := by
    rw [Walk.watermark, hlast']
    simp
  have hr := ok.rising
  rw [hlast', List.map_append] at hr hm
  rw [hw]
  rcases List.mem_append.mp hm with hm | hm
  · exact (List.pairwise_append.mp hr).2.2 m hm last.watermark (by simp)
  · simp only [List.map_cons, List.map_nil, List.mem_singleton] at hm
    exact hm.le

theorem scan_ok (w : Walk) (a : Answer) (ok : w.Ok) : (w.step (.scan a)).Ok := by
  have hreads := scan_reads a ok.history ok.bounded
  have hle := watermark_le w ok
  rw [Walk.step]
  generalize scanCorrections w.cursor (w.history.reply w.cursor a) = scan at hreads
  refine ⟨ok.history,?_,hreads.bounded,?_,?_⟩
  · show (w.scans++[scan]).flatMap CorrectionScan.rows = _
    rw [hreads.taken, List.flatMap_append, ← ok.returned]
    simp [Walk.returned]
  · show (w.scans++[scan]).getLast?.elim 0 CorrectionScan.watermark = through scan.cursor
    rw [List.getLast?_concat]
    exact hreads.watermark
  show ((w.scans++[scan]).map CorrectionScan.watermark).Pairwise _
  rw [List.map_append]
  apply List.pairwise_append.mpr
  refine ⟨ok.rising,List.pairwise_singleton _ _,?_⟩
  intro m hm n hn
  simp only [List.map_cons, List.map_nil, List.mem_singleton] at hn
  rw [hn]
  exact (hle m hm).trans (ok.watermark ▸ hreads.forward)

theorem walk_ok (events : List Event) : (walk events).Ok := by
  induction events using List.reverseRecOn with
  | nil => exact start_ok
  | append_singleton events e ih =>
    rw [walk, List.foldl_append]
    cases e with
    | transaction t => exact transaction_ok _ t ih
    | scan a => exact scan_ok _ a ih

end Walks

/-- Over every growing history and every sequence of scans: what a watermark covers
was returned by one scan, once; nothing else than superseded Assertions is
returned, none twice; and the watermarks never decrease. -/
theorem corrections_discovered_once (events : List Event) :
    (∀ row ∈ (walk events).history.rows, row.spaceSeq ≤ (walk events).watermark →
      (walk events).returned.count row = 1) ∧
    (∀ row ∈ (walk events).returned, row ∈ (walk events).history.rows) ∧
    ((walk events).returned.map rowKey).Nodup ∧
    ((walk events).scans.map CorrectionScan.watermark).Pairwise (fun a b => a ≤ b) := by
  have ok := walk_ok events
  have hstrict := (ordered_strict ok.history).filter (covered (walk events).cursor)
  have hkeys : ((walk events).returned.map rowKey).Nodup := by
    rw [ok.returned]
    exact List.pairwise_map.mpr (hstrict.imp ne_of_lt)
  refine ⟨?_,?_,hkeys,ok.rising⟩
  · intro row hrow hle
    have hmem : row ∈ (walk events).returned := by
      rw [ok.returned, List.mem_filter, mem_ordered, covered_iff]
      refine ⟨hrow,?_⟩
      have hdated := (ok.history.dated row hrow).1
      rw [ok.watermark, through] at hle
      split at hle
      · rename_i hid
        rcases Nat.lt_or_eq_of_le hle with hlt | heq
        · exact .inl hlt
        · exact .inr ⟨heq,.inl hid⟩
      · left
        omega
    exact List.count_eq_one_of_mem (List.Nodup.of_map _ hkeys) hmem
  · intro row hrow
    rw [ok.returned] at hrow
    exact (mem_ordered row).mp (List.mem_of_mem_filter hrow)

end AndaBrain.Settlement
