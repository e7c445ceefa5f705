import AndaBrain.WorkerCorrections

/-!
# No correction is passed over

A page holds the first unread superseded Assertions. While it is pending, each of its rows is
offered or was acknowledged, so the cursor passes a row only after some call named it.
-/

set_option autoImplicit false

namespace AndaBrain.WorkerCorrections
open Settlement Foundation.KeysetPages
open RevisedRoots (Dependent RevisedRoot Mark)

/-! ## Pages of the history -/

section Pages
variable {h : History} {c : CorrectionCursor}

theorem read_unread (ok : h.Ok) : h.ordered.filter (covered c)++h.matching c = h.ordered := by
  have hm : h.matching c = h.ordered.filter fun row => !covered c row := by
    simp [History.matching, covered]
  rw [hm]
  exact filter_append_not rowKey (covered c) h.ordered (ordered_strict ok)
    fun a _ b _ => covered_below c a b

theorem unread_split (ok : h.Ok) (next : CorrectionCursor) (rows : List SupersededRow)
    (ht : h.ordered.filter (covered next) = h.ordered.filter (covered c)++rows) :
    h.matching c = rows++h.matching next := by
  have hc := read_unread (c := c) ok
  have hn := read_unread (c := next) ok
  rw [ht, List.append_assoc] at hn
  exact List.append_cancel_left (hc.trans hn.symm)

theorem unread_commit (t : Transaction) (ok : h.Ok) (hc : c.seq ≤ h.seq) : ∃ rest,
    (h.commit t).ordered = h.ordered++rest ∧ (h.commit t).matching c = h.matching c++rest ∧
    (h.commit t).ordered.filter (covered c) = h.ordered.filter (covered c) := by
  obtain ⟨rest, hrest, hnew⟩ := ordered_commit t ok
  have hbeyond : ∀ row ∈ rest, beyond c row = true := by
    intro row hrow
    have := hnew row hrow
    simp only [beyond, Bool.or_eq_true, decide_eq_true_eq]
    omega
  refine ⟨rest, hrest, ?_, ?_⟩
  · rw [History.matching, hrest, List.filter_append, List.filter_eq_self.mpr hbeyond,
      History.matching]
  rw [hrest, List.filter_append]
  have : rest.filter (covered c) = [] := by
    apply List.filter_eq_nil_iff.mpr
    intro row hrow
    simp [covered, hbeyond row hrow]
  rw [this, List.append_nil]

theorem settle_forward (incomplete : Bool) (k : ℕ) (ok : h.Ok) (row : SupersededRow)
    (hr : covered c row = true) :
    covered (Settlement.settle c incomplete ((h.matching c).take k)).cursor row = true := by
  have hwhole : ∀ seq id, covered ⟨seq, id⟩ row = true → covered ⟨seq, ""⟩ row = true := by
    intro seq id hcov
    rw [covered_iff] at hcov ⊢
    rcases hcov with h1 | h1
    · exact .inl h1
    · exact .inr ⟨h1.1, .inl rfl⟩
  rw [Settlement.settle.eq_def]
  cases hl : ((h.matching c).take k).getLast? with
  | none =>
    cases incomplete with
    | true => exact hr
    | false => exact hwhole c.seq c.afterId hr
  | some last =>
    have hmem : last ∈ h.matching c := List.mem_of_mem_take (List.mem_of_getLast? hl)
    have hid := ok.named last ((mem_ordered last).mp (List.mem_of_mem_filter hmem))
    have hlast : covered ⟨last.spaceSeq, last.assertion⟩ row = true := by
      rw [covered_at last hid]
      by_contra hno
      simp only [decide_eq_true_eq, not_le] at hno
      have hcl := covered_below c last row hno hr
      have := List.of_mem_filter hmem
      simp [covered, this] at hcl
    cases incomplete with
    | true => exact hlast
    | false => exact hwhole last.spaceSeq last.assertion hlast

end Pages

/-! ## One scan -/

def readable (h : History) (c : CorrectionCursor) : Answer → Option (List SupersededRow)
  | .page limit _ unreadable =>
    let rows := (h.matching c).take (min limit correctionScanLimit)
    if ∀ n < rows.length, unreadable n = none then some rows else none
  | _ => none

def rootId (root : RevisedRoot) : ℕ × String := (root.spaceSeq, root.assertion)

def rowId (row : SupersededRow) : ℕ × String := (row.spaceSeq, row.assertion)

section Scan
variable (h : History) (c : CorrectionCursor) (walk : String → Option Walk)

theorem position_scanned (incomplete : Bool) (rows : List SupersededRow) :
    (scannedPage c incomplete rows walk).position = (Settlement.settle c incomplete rows).cursor :=
    by
  rw [scannedPage, Settlement.settle.eq_def]
  cases rows.getLast? with
  | some last => cases incomplete <;> rfl
  | none =>
    cases incomplete with
    | false => rfl
    | true =>
      by_cases hid : c.afterId = ""
      · cases c
        simp_all [CorrectionPage.position, idOf]
      · simp [CorrectionPage.position, idOf, hid]

theorem roots_scanned (incomplete : Bool) (rows : List SupersededRow) :
    (scannedPage c incomplete rows walk).revisedRoots =
        rows.map (fun row => rootOf row (walk row.assertion)) ∧
      (scannedPage c incomplete rows walk).error = none := by
  rw [scannedPage]
  cases rows.getLast? <;> exact ⟨rfl, rfl⟩

theorem scan_failed (a : Answer) (hr : readable h c a = none) :
    ∃ error, scanCorrections c (replyTo h c a) walk = failedPage c error := by
  cases a with
  | failed error => exact ⟨error, rfl⟩
  | noArray result nextCursor hn =>
    exact ⟨"correction scan returned no row array", by simp only [scanCorrections, replyTo, hn]⟩
  | page limit more unreadable =>
    simp only [readable, ite_eq_right_iff, reduceCtorEq, imp_false] at hr
    refine ⟨"correction scan returned an unreadable row; cursor retained", ?_⟩
    simp only [scanCorrections, replyTo, Option.bind_some, Json.asArray]
    rw [if_pos]
    rw [List.length_mapIdx]
    exact fun hlen => hr ((RevisedRoots.superseded_length _ unreadable).mp hlen)

theorem scan_read (ok : h.Ok) (a : Answer) (rows : List SupersededRow)
    (hr : readable h c a = some rows) : ∃ incomplete k, k ≤ correctionScanLimit ∧ rows =
    (h.matching c).take k ∧ scanCorrections c (replyTo h c a) walk = scannedPage c incomplete rows
    walk ∧ (incomplete = false → (h.matching c).take k = h.matching c) := by
  cases a with
  | failed error => simp [readable] at hr
  | noArray result nextCursor hn => simp [readable] at hr
  | page limit more unreadable =>
    simp only [readable, Option.ite_none_right_eq_some, Option.some.injEq] at hr
    obtain ⟨hall, rfl⟩ := hr
    have hlen := (RevisedRoots.superseded_length
      ((h.matching c).take (min limit correctionScanLimit)) unreadable).mpr hall
    refine ⟨decide (correctionScanLimit ≤
        ((h.matching c).take (min limit correctionScanLimit)).length) ||
      (more || (decide (limit < correctionScanLimit) && decide (limit < (h.matching c).length))),
      min limit correctionScanLimit, min_le_right _ _, rfl, ?_, ?_⟩
    · simp only [scanCorrections, replyTo, Option.bind_some, Json.asArray, List.length_mapIdx]
      rw [if_neg (by rw [not_not]; exact hlen), superseded_rows_sent _ unreadable hlen]
      have hfilter : ((h.matching c).take (min limit correctionScanLimit)).filter (beyond c) =
          (h.matching c).take (min limit correctionScanLimit) := by
        apply List.filter_eq_self.mpr
        intro row hrow
        exact List.of_mem_filter (List.mem_of_mem_take hrow)
      have hstrict : ((h.matching c).take (min limit correctionScanLimit)).Pairwise
          (fun a b => rowKey a < rowKey b) :=
        ((ordered_strict ok).filter _).sublist (List.take_sublist _ _)
      rw [hfilter, sort_of_strict _ hstrict]
    · intro hcomplete
      apply List.take_of_length_le
      simp only [Bool.or_eq_false_iff, decide_eq_false_iff_not, List.length_take,
        Bool.and_eq_false_iff] at hcomplete
      omega

end Scan

/-! ## The invariant -/

/-- The superseded Assertions that the cursor has not passed, in their order. -/
def World.due (w : World) : List SupersededRow := w.history.matching w.position

def World.upcoming (w : World) : List SupersededRow := w.due.take correctionScanLimit

def Reviewed (w : World) : Prop :=
  ∀ row ∈ w.history.rows, covered w.position row = true → rowId row ∈ w.acknowledged

structure Holds (w : World) (page : CorrectionPage) (rows : List SupersededRow) : Prop where
  first : rows <+: w.due
  size : rows.length ≤ correctionScanLimit
  taken : w.history.ordered.filter (covered page.position) =
    w.history.ordered.filter (covered w.position)++rows
  bounded : page.position.seq ≤ w.history.seq
  forward : ∀ row, covered w.position row = true → covered page.position row = true
  readable : page.error = none
  nonempty : page.revisedRoots.length > 0
  shown : ∀ root ∈ page.revisedRoots, ∃ row ∈ rows, rootId root = rowId row
  kept : ∀ row ∈ rows,
    rowId row ∈ w.acknowledged ∨ ∃ root ∈ page.revisedRoots, rootId root = rowId row

structure Ok (w : World) : Prop where
  history : w.history.Ok
  bounded : w.position.seq ≤ w.history.seq
  reviewed : Reviewed w
  offered : w.offered = w.kv.pending.elim [] CorrectionPage.revisedRoots
  page : ∀ page ∈ w.kv.pending, ∃ rows, Holds w page rows

/-- What a call may do to a world. `ids` are the ids it names, `cleared` says that it clears the
context. -/
structure Moves (ids : List String) (cleared : Prop) (w next : World) : Prop where
  ok : Ok next
  forward : ∀ row, covered w.position row = true → covered next.position row = true
  upcoming : ∀ row ∈ w.upcoming, row ∈ next.upcoming ∨ covered next.position row = true
  offered : ∀ root ∈ w.offered, root ∈ next.offered ∨ root.assertion ∈ ids ∨ cleared

theorem moves_refl {w : World} (ids : List String) (cleared : Prop) (ok : Ok w) :
    Moves ids cleared w w :=
  ⟨ok, fun _ h => h, fun _ h => .inl h, fun _ h => .inl h⟩

theorem moves_trans {w next last : World} {ids : List String} {cleared : Prop}
    (h : Moves ids cleared w next) (h' : Moves ids cleared next last) :
    Moves ids cleared w last := by
  refine ⟨h'.ok, fun row hr => h'.forward row (h.forward row hr), ?_, ?_⟩
  · intro row hr
    rcases h.upcoming row hr with hu | hc
    · exact h'.upcoming row hu
    · exact .inr (h'.forward row hc)
  · intro root hr
    rcases h.offered root hr with ho | ho
    · exact h'.offered root ho
    · exact .inr ho

theorem holds_more {w next : World} {page : CorrectionPage} {rows : List SupersededRow}
    (hold : Holds w page rows) (hp : next.position = w.position) (hh : next.history = w.history)
    (ha : w.acknowledged ⊆ next.acknowledged) : Holds next page rows := by
  refine ⟨?_, hold.size, ?_, ?_, ?_, hold.readable, hold.nonempty, hold.shown, ?_⟩
  · simpa [World.due, hp, hh] using hold.first
  · simpa [hp, hh] using hold.taken
  · simpa [hh] using hold.bounded
  · simpa [hp] using hold.forward
  · exact fun row hr => (hold.kept row hr).imp (fun h => ha h) id

theorem moves_aside {w next : World} (ids : List String) (cleared : Prop) (ok : Ok w)
    (hp : next.kv.pending = w.kv.pending) (hr : next.offered = w.offered)
    (hc : next.position = w.position) (hh : next.history = w.history)
    (ha : w.acknowledged ⊆ next.acknowledged) : Moves ids cleared w next := by
  refine ⟨⟨hh ▸ ok.history, ?_, ?_, ?_, ?_⟩, ?_, ?_, ?_⟩
  · simpa [hc, hh] using ok.bounded
  · intro row hrow hcov
    exact ha (ok.reviewed row (hh ▸ hrow) (hc ▸ hcov))
  · rw [hr, hp, ok.offered]
  · intro page hpage
    obtain ⟨rows, hold⟩ := ok.page page (hp ▸ hpage)
    exact ⟨rows, holds_more hold hc hh ha⟩
  · exact fun row hcov => hc ▸ hcov
  · intro row hrow
    left
    simpa [World.upcoming, World.due, hc, hh] using hrow
  · exact fun root h => .inl (hr ▸ h)

theorem prefix_take {α : Type*} {xs ys : List α} {k : ℕ} (h : xs <+: ys) (hk : xs.length ≤ k) :
    ∀ x ∈ xs, x ∈ ys.take k := by
  obtain ⟨rest, rfl⟩ := h
  intro x hx
  rw [List.take_append, List.take_of_length_le hk]
  simp [hx]

/-! ## The calls -/

section Calls
variable {w next : World} (ids : List String) (cleared : Prop)

theorem acknowledged_id (page : CorrectionPage) (hp : w.kv.pending = some page) (root : RevisedRoot)
    (hr : root ∈ page.revisedRoots) (hi : root.assertion ∈ ids) : rootId root ∈ w.kv.named ids := by
  simp only [Kv.named, hp, Option.elim_some, List.mem_map, List.mem_filter, List.contains_iff_mem]
  exact ⟨root, ⟨hr, hi⟩, rfl⟩

theorem commit_moves (t : Transaction) (ok : Ok w) :
    Moves ids cleared w { w with history := w.history.commit t } := by
  obtain ⟨rest, hord, hdue, hread⟩ := unread_commit t ok.history ok.bounded
  have hseq : w.history.seq ≤ (w.history.commit t).seq := by
    show w.history.seq ≤ w.history.seq+1+t.gap
    omega
  have hnew : ∀ row ∈ (w.history.commit t).rows, covered w.position row = true →
      row ∈ w.history.rows := by
    intro row hrow hcov
    have : row ∈ (w.history.commit t).ordered.filter (covered w.position) :=
      List.mem_filter.mpr ⟨(mem_ordered row).mpr hrow, hcov⟩
    rw [hread] at this
    exact (mem_ordered row).mp (List.mem_of_mem_filter this)
  refine ⟨⟨commit_ok t ok.history, ok.bounded.trans hseq, ?_, ok.offered, ?_⟩, fun _ h => h, ?_,
    fun _ h => .inl h⟩
  · intro row hrow hcov
    exact ok.reviewed row (hnew row hrow hcov) hcov
  · intro page hpage
    obtain ⟨rows, hold⟩ := ok.page page hpage
    obtain ⟨rest', hord', -, hread'⟩ := unread_commit t ok.history hold.bounded
    refine ⟨rows, ?_, hold.size, ?_, hold.bounded.trans hseq, hold.forward, hold.readable,
      hold.nonempty, hold.shown, hold.kept⟩
    · show rows <+: (w.history.commit t).matching w.position
      rw [hdue]
      exact hold.first.trans (List.prefix_append _ _)
    · exact hread'.trans (hold.taken.trans (congrArg (·++rows) hread.symm))
  · intro row hrow
    left
    show row ∈ ((w.history.commit t).matching w.position).take correctionScanLimit
    rw [hdue, List.take_append]
    exact List.mem_append_left _ hrow

theorem commits_moves (ts : List Transaction) (ok : Ok w) :
    Moves ids cleared w { w with history := ts.foldl History.commit w.history } := by
  induction ts generalizing w with
  | nil => exact moves_refl ids cleared ok
  | cons t rest ih =>
    have hfirst := commit_moves ids cleared t ok
    exact moves_trans hfirst (ih hfirst.ok)

theorem clear_moves (ok : Ok w) (hc : cleared) :
    Moves ids cleared w { w with kv := clearMaintenanceContext w.kv } := by
  refine ⟨⟨ok.history, ok.bounded, ok.reviewed, rfl, ?_⟩, fun _ h => h, fun _ h => .inl h,
    fun _ _ => .inr (.inr hc)⟩
  intro page hpage
  simp [clearMaintenanceContext] at hpage

theorem resave_moves (page : CorrectionPage) (ok : Ok w) (hp : w.kv.pending = some page) :
    Moves ids cleared w { w with kv := w.kv.save page } := by
  obtain ⟨rows, hold⟩ := ok.page page hp
  have hoff : w.offered = page.revisedRoots := by simpa [hp] using ok.offered
  have hsave : w.kv.save page = { w.kv with revisedRoots := some page.revisedRoots } := by
    have hkv : w.kv = { w.kv with pending := some page } := by rw [← hp]
    simp only [Kv.save, hold.readable, Option.getD_none, hold.nonempty, if_true]
    rw [hkv]
  rw [hsave]
  exact moves_aside ids cleared ok rfl (by simp [World.offered] at hoff ⊢; exact hoff.symm) rfl rfl
    (List.Subset.refl _)

theorem passed_moves (ok : Ok w) (rows : List SupersededRow) (hp : next.kv.pending = none)
    (ho : next.offered = []) (hh : next.history = w.history)
    (ha : w.acknowledged ⊆ next.acknowledged)
    (hb : next.position.seq ≤ w.history.seq)
    (hf : ∀ row, covered w.position row = true → covered next.position row = true)
    (ht : w.history.ordered.filter (covered next.position) =
      w.history.ordered.filter (covered w.position)++rows)
    (hr : ∀ row ∈ rows, rowId row ∈ next.acknowledged)
    (hleft : ∀ root ∈ w.offered, root.assertion ∈ ids ∨ cleared) : Moves ids cleared w next := by
  have hcov : ∀ row ∈ rows, covered next.position row = true := by
    intro row hrow
    have : row ∈ w.history.ordered.filter (covered next.position) := by
      rw [ht]
      exact List.mem_append_right _ hrow
    exact List.of_mem_filter this
  refine ⟨⟨hh ▸ ok.history, hh ▸ hb, ?_, ?_, ?_⟩, hf, ?_, fun root h => .inr (hleft root h)⟩
  · intro row hrow hcovered
    have hmem : row ∈ w.history.ordered.filter (covered next.position) :=
      List.mem_filter.mpr ⟨(mem_ordered row).mpr (hh ▸ hrow), hcovered⟩
    rw [ht] at hmem
    rcases List.mem_append.mp hmem with hold | hnew
    · exact ha (ok.reviewed row (hh ▸ hrow) (List.of_mem_filter hold))
    · exact hr row hnew
  · rw [ho, hp]
    rfl
  · intro page hpage
    rw [hp] at hpage
    cases hpage
  · intro row hrow
    have hsplit : w.due = rows++next.due := by
      rw [World.due, World.due, hh]
      exact unread_split ok.history next.position rows ht
    rw [World.upcoming, hsplit, List.take_append] at hrow
    rcases List.mem_append.mp hrow with h | h
    · exact .inr (hcov row (List.mem_of_mem_take h))
    · left
      exact (List.take_subset_take_left _ (Nat.sub_le _ _)) h

theorem failed_position (c : CorrectionCursor) (error : String) :
    (failedPage c error).position = c := by
  cases c with
  | mk seq afterId =>
    by_cases hid : afterId = "" <;> simp [CorrectionPage.position, failedPage, idOf, hid]

theorem failed_moves (error : String) (ok : Ok w) (hp : w.kv.pending = none) :
    Moves ids cleared w { w with kv := w.kv.save (failedPage w.position error) } := by
  have hoff : w.offered = [] := by simpa [hp] using ok.offered
  have hpos := failed_position w.position error
  by_cases he : error = ""
  · refine moves_aside ids cleared ok ?_ ?_ ?_ (by rfl) (by exact List.Subset.refl _)
    · simp [Kv.save, failedPage, he, hp]
    · rw [hoff]
      simp [World.offered, Kv.save, failedPage]
    · simpa [World.position, Kv.save, failedPage, he, RevisedRoots.resume] using hpos
  · refine moves_aside ids cleared ok ?_ ?_ ?_ (by rfl) (by exact List.Subset.refl _)
    · simp [Kv.save, failedPage, he]
    · rw [hoff]
      simp [World.offered, Kv.save, failedPage]
    · simp [World.position, Kv.save, failedPage, he]

theorem scanned_moves (found : Found) (rows : List SupersededRow) (ok : Ok w)
    (hp : w.kv.pending = none) (hr : readable w.history w.position found.scan = some rows) :
    Moves ids cleared w { w with kv := w.kv.save (scanCorrections w.position
      (replyTo w.history w.position found.scan) found.walk) } ∧
    World.offered { w with kv := w.kv.save (scanCorrections w.position
      (replyTo w.history w.position found.scan) found.walk) } =
        rows.map fun row => rootOf row (found.walk row.assertion) := by
  obtain ⟨incomplete, k, hk, hrows, hscan, hall⟩ :=
    scan_read w.history w.position found.walk ok.history found.scan rows hr
  have hpos := position_scanned w.position found.walk incomplete rows
  obtain ⟨hroots, herr⟩ := roots_scanned w.position found.walk incomplete rows
  have hreads := settle_reads incomplete k ok.history ok.bounded hall
  rw [← hrows] at hreads
  have hforward : ∀ row, covered w.position row = true →
      covered (scannedPage w.position incomplete rows found.walk).position row = true := by
    intro row hrow
    rw [hpos, hrows]
    exact settle_forward incomplete k ok.history row hrow
  have htaken : w.history.ordered.filter
      (covered (scannedPage w.position incomplete rows found.walk).position) =
        w.history.ordered.filter (covered w.position)++rows := by
    rw [hpos, hreads.taken, RevisedRoots.settle_rows]
  have hoff : w.offered = [] := by simpa [hp] using ok.offered
  rw [hscan]
  cases hcase : rows with
  | nil =>
    subst hcase
    have hsave : w.kv.save (scannedPage w.position incomplete [] found.walk) =
        { w.kv with
          pending := none
          revisedRoots := some []
          cursor := some (.cursor (scannedPage w.position incomplete [] found.walk).position) } := by
      simp [Kv.save, hroots, herr]
    rw [hsave]
    refine ⟨?_, rfl⟩
    apply passed_moves ids cleared ok [] (by rfl) (by rfl) (by rfl) (by exact List.Subset.refl _)
    · exact hpos ▸ hreads.bounded
    · exact hforward
    · exact htaken
    · simp
    · simp [hoff]
  | cons first rest =>
    have hlen : (scannedPage w.position incomplete rows found.walk).revisedRoots.length > 0 := by
      rw [hroots, List.length_map, hcase]
      simp
    rw [← hcase]
    have hsave : w.kv.save (scannedPage w.position incomplete rows found.walk) =
        { w.kv with
          pending := some (scannedPage w.position incomplete rows found.walk)
          revisedRoots := some (scannedPage w.position incomplete rows found.walk).revisedRoots } := by
      simp only [Kv.save, herr, Option.getD_none, hlen, if_true]
    rw [hsave]
    refine ⟨⟨⟨ok.history, ok.bounded, ok.reviewed, rfl, ?_⟩, fun _ h => h, fun _ h => .inl h, ?_⟩,
      hroots⟩
    · intro page hpage
      obtain rfl : _ = page := by simpa using hpage
      refine ⟨rows, ?_, ?_, ?_, ?_, hforward, herr, hlen, ?_, ?_⟩
      · rw [hrows]
        exact List.take_prefix _ _
      · rw [hrows, List.length_take]
        exact (min_le_left _ _).trans hk
      · exact htaken
      · exact hpos ▸ hreads.bounded
      · intro root hroot
        rw [hroots] at hroot
        obtain ⟨row, hrow, rfl⟩ := List.mem_map.mp hroot
        exact ⟨row, hrow, rfl⟩
      · intro row hrow
        right
        rw [hroots]
        exact ⟨_, List.mem_map.mpr ⟨row, hrow, rfl⟩, rfl⟩
    · intro root hroot
      rw [hoff] at hroot
      cases hroot

/-- The roots of a page that are left when these ids are acknowledged. -/
def CorrectionPage.remaining (page : CorrectionPage) (ids : List String) : List RevisedRoot :=
  page.revisedRoots.filter fun root => !ids.contains root.assertion

theorem acknowledge_cases (kv kv' : Kv) (h : kv.acknowledge ids = .ok kv') :
    (kv.pending = none ∧ kv' = kv) ∨ ∃ page, kv.pending = some page ∧
      ((page.remaining ids).length > 0 ∧ kv' = { kv with
          pending := some { page with revisedRoots := page.remaining ids }
          revisedRoots := some (page.remaining ids) } ∨
        ¬ (page.remaining ids).length > 0 ∧
          kv' = clearMaintenanceContext { kv with cursor := some (.cursor page.position) }) := by
  rw [Kv.acknowledge] at h
  cases hv : kv.validateAcknowledgement ids with
  | error e => simp [hv, bind, Except.bind] at h
  | ok u =>
    simp only [hv, bind, Except.bind] at h
    cases hp : kv.pending with
    | none =>
      simp only [hp, Except.ok.injEq] at h
      exact .inl ⟨rfl, h.symm⟩
    | some page =>
      simp only [hp] at h
      refine .inr ⟨page, rfl, ?_⟩
      by_cases hleft : (page.remaining ids).length > 0
      · left
        rw [CorrectionPage.remaining] at hleft ⊢
        rw [if_pos hleft, Except.ok.injEq] at h
        exact ⟨hleft, h.symm⟩
      · right
        rw [CorrectionPage.remaining] at hleft ⊢
        rw [if_neg hleft, Except.ok.injEq] at h
        exact ⟨hleft, h.symm⟩

theorem mem_remaining (page : CorrectionPage) (root : RevisedRoot) :
    root ∈ page.remaining ids ↔ root ∈ page.revisedRoots ∧ root.assertion ∉ ids := by
  simp [CorrectionPage.remaining]

theorem acknowledge_moves (ok : Ok w) (h : w.acknowledge ids = .ok next) :
    Moves ids cleared w next := by
  rw [World.acknowledge] at h
  cases hk : w.kv.acknowledge ids with
  | error e => simp [hk, bind, Except.bind] at h
  | ok kv =>
    simp only [hk, bind, Except.bind, Except.ok.injEq] at h
    subst h
    rcases acknowledge_cases ids w.kv kv hk with ⟨-, rfl⟩ | ⟨page, hp, hcase⟩
    · exact moves_aside ids cleared ok (by rfl) (by rfl) (by rfl) (by rfl)
        (by exact List.subset_append_left _ _)
    obtain ⟨rows, hold⟩ := ok.page page hp
    have hoff : w.offered = page.revisedRoots := by simpa [hp] using ok.offered
    -- A root that is not left was named while its page was pending.
    have hnamed : ∀ root ∈ page.revisedRoots, root.assertion ∈ ids →
        rootId root ∈ w.acknowledged++w.kv.named ids := by
      intro root hroot hid
      exact List.mem_append_right _ (acknowledged_id ids page hp root hroot hid)
    rcases hcase with ⟨hleft, rfl⟩ | ⟨hnone, rfl⟩
    · refine ⟨⟨ok.history, ok.bounded, ?_, rfl, ?_⟩, fun _ h => h, fun _ h => .inl h, ?_⟩
      · exact fun row hrow hcov => List.mem_append_left _ (ok.reviewed row hrow hcov)
      · intro page' hpage'
        obtain rfl : _ = page' := by simpa using hpage'
        refine ⟨rows, hold.first, hold.size, hold.taken, hold.bounded, hold.forward,
          hold.readable, hleft, ?_, ?_⟩
        · exact fun root hroot => hold.shown root ((mem_remaining ids page root).mp hroot).1
        intro row hrow
        rcases hold.kept row hrow with hack | ⟨root, hroot, hkey⟩
        · exact .inl (List.mem_append_left _ hack)
        · by_cases hid : root.assertion ∈ ids
          · exact .inl (hkey ▸ hnamed root hroot hid)
          · exact .inr ⟨root, (mem_remaining ids page root).mpr ⟨hroot, hid⟩, hkey⟩
      · intro root hroot
        rw [hoff] at hroot
        by_cases hid : root.assertion ∈ ids
        · exact .inr (.inl hid)
        · exact .inl ((mem_remaining ids page root).mpr ⟨hroot, hid⟩)
    have hall : ∀ root ∈ page.revisedRoots, root.assertion ∈ ids := by
      intro root hroot
      by_contra hid
      exact hnone (List.length_pos_of_mem ((mem_remaining ids page root).mpr ⟨hroot, hid⟩))
    apply passed_moves ids cleared ok rows (by rfl) (by rfl) (by rfl)
      (by exact List.subset_append_left _ _)
    · exact hold.bounded
    · exact hold.forward
    · exact hold.taken
    · intro row hrow
      rcases hold.kept row hrow with hack | ⟨root, hroot, hkey⟩
      · exact List.mem_append_left _ hack
      · exact hkey ▸ hnamed root hroot (hall root hroot)
    · intro root hroot
      rw [hoff] at hroot
      exact .inl (hall root hroot)

theorem settle_moves (run : Option String) (epoch now : ℕ) (found : Found) (ok : Ok w)
    (h : w.settleMemory run epoch now found = .ok next) :
    Moves ids cleared w next ∧ (w.kv.pending = none → ∀ rows,
      readable w.history w.position found.scan = some rows →
      next.offered = rows.map fun row => rootOf row (found.walk row.assertion)) := by
  simp only [World.settleMemory, bind, Except.bind] at h
  split at h
  · cases h
  split at h
  · cases h
  simp only [Except.ok.injEq] at h
  subst h
  cases hp : w.kv.pending with
  | some page =>
    simp only [Option.getD_some]
    exact ⟨resave_moves ids cleared page ok hp, by simp⟩
  | none =>
    simp only [Option.getD_none]
    cases hr : readable w.history w.position found.scan with
    | none =>
      obtain ⟨error, hscan⟩ := scan_failed w.history w.position found.walk found.scan hr
      rw [hscan]
      exact ⟨failed_moves ids cleared error ok hp, by simp⟩
    | some rows =>
      obtain ⟨hmoves, hoffered⟩ := scanned_moves ids cleared found rows ok hp hr
      refine ⟨hmoves, fun _ rows' hrows' => ?_⟩
      rw [← Option.some.inj hrows']
      exact hoffered

theorem run_moves (run : Option MaintenanceRun) (ok : Ok w) :
    Moves ids cleared w { w with kv := { w.kv with run := run } } :=
  moves_aside ids cleared ok (by rfl) (by rfl) (by rfl) (by rfl) (by exact List.Subset.refl _)

theorem release_moves (id : String) (ok : Ok w) :
    Moves ids cleared w { w with kv := w.kv.release id } := by
  rw [Kv.release]
  split
  · exact run_moves ids cleared none ok
  · exact moves_refl ids cleared ok

theorem begin_cases (kv kv' : Kv) (epoch expiresAt now : ℕ) (id : String)
    (h : kv.begin epoch expiresAt now id = .ok kv') :
    kv' = { kv with run := some ⟨id, epoch, expiresAt⟩ } := by
  rw [Kv.begin] at h
  split at h
  · cases h
  · split at h
    · cases h
    · exact (Except.ok.inj h).symm

theorem open_moves (expiresAt now later : ℕ) (id : String) (found : Found) (reads : Bool)
    (ok : Ok w) (h : w.openMaintenance expiresAt now later id found reads = .ok next) :
    Moves ids cleared w next := by
  simp only [World.openMaintenance, bind, Except.bind] at h
  split at h
  · cases h
  split at h
  · cases h
  rename_i kv hbegin
  have hb := run_moves ids cleared (some ⟨id, w.control.epoch, expiresAt⟩) ok
  rw [← begin_cases w.kv kv _ _ _ _ hbegin] at hb
  split at h
  · simp only [Except.ok.injEq] at h
    exact h ▸ moves_trans hb (release_moves ids cleared id hb.ok)
  rename_i settled hsettle
  have hs := moves_trans hb (settle_moves ids cleared _ _ _ found hb.ok hsettle).1
  split at h
  · simp only [Except.ok.injEq] at h
    exact h ▸ hs
  · simp only [Except.ok.injEq] at h
    exact h ▸ moves_trans hs (release_moves ids cleared id hs.ok)

def Plan.acknowledges (plan : Plan) : List String :=
  if plan.run.isSome && !plan.failed then plan.reviewed else []

theorem plan_moves (plan : Plan) (ok : Ok w) (h : w.executeMaintenancePlan plan = .ok next) :
    Moves plan.acknowledges cleared w next := by
  simp only [World.executeMaintenancePlan, bind, Except.bind] at h
  split at h
  · cases h
  split at h
  · cases h
  split at h
  · cases h
  have hw := commits_moves plan.acknowledges cleared plan.commits ok
  split at h
  · rename_i hruns
    rw [Plan.acknowledges, if_pos hruns] at hw ⊢
    exact moves_trans hw (acknowledge_moves plan.reviewed cleared hw.ok h)
  · simp only [Except.ok.injEq] at h
    exact h ▸ hw

theorem acknowledge_corrections_moves (epoch : ℕ) (ok : Ok w)
    (h : w.acknowledgeCorrections ids epoch = .ok next) : Moves ids cleared w next := by
  simp only [World.acknowledgeCorrections, bind, Except.bind] at h
  split at h
  · cases h
  · exact acknowledge_moves ids cleared ok h

end Calls

/-! ## Runs -/

/-- The ids that a call acknowledges when it succeeds: those of a run's plan of which no operation
failed, and those of an acknowledgement. -/
def Event.acknowledges : Event → List String
  | .plan p => p.acknowledges
  | .acknowledge ids _ => ids
  | _ => []

def World.acknowledges (w : World) (e : Event) : List String :=
  match w.call e with
  | .ok _ => e.acknowledges
  | .error _ => []

def Event.Clears : Event → Prop
  | .managed _ clears => clears = true
  | _ => False

theorem call_moves (w next : World) (e : Event) (ok : Ok w) (h : w.call e = .ok next) :
    Moves e.acknowledges e.Clears w next := by
  cases e with
  | transaction t =>
    simp only [World.call, Except.ok.injEq] at h
    exact h ▸ commit_moves _ _ t ok
  | settle run epoch now found => exact (settle_moves _ _ run epoch now found ok h).1
  | openMaintenance expiresAt now later id found reads =>
    exact open_moves _ _ expiresAt now later id found reads ok h
  | plan plan => exact plan_moves _ plan ok h
  | acknowledge ids epoch => exact acknowledge_corrections_moves ids _ epoch ok h
  | closeMaintenance id =>
    simp only [World.call, Except.ok.injEq] at h
    exact h ▸ release_moves _ _ id ok
  | managed control clears =>
    simp only [World.call, Except.ok.injEq] at h
    subst h
    have hc : Moves [] (clears = true) w { w with control := control } :=
      moves_aside _ _ ok (by rfl) (by rfl) (by rfl) (by rfl) (by exact List.Subset.refl _)
    cases clears with
    | false => exact hc
    | true => exact moves_trans hc (clear_moves _ _ hc.ok rfl)

theorem step_moves (w : World) (e : Event) (ok : Ok w) :
    Moves (w.acknowledges e) e.Clears w (w.step e) := by
  rw [World.step, World.acknowledges]
  cases hc : w.call e with
  | error error => exact moves_refl _ _ ok
  | ok next => exact call_moves w next e ok hc

/-! ## What counts as acknowledged -/

theorem acknowledge_records (w next : World) (ids : List String) (h : w.acknowledge ids = .ok next) :
    next.acknowledged = w.acknowledged++w.kv.named ids := by
  rw [World.acknowledge] at h
  cases hk : w.kv.acknowledge ids with
  | error e => simp [hk, bind, Except.bind] at h
  | ok kv =>
    simp only [hk, bind, Except.bind, Except.ok.injEq] at h
    rw [← h]

theorem named_none (kv : Kv) : kv.named [] = [] := by
  simp [Kv.named]

theorem plan_records (w next : World) (plan : Plan) (h : w.executeMaintenancePlan plan = .ok next) :
    next.acknowledged = w.acknowledged++w.kv.named plan.acknowledges := by
  simp only [World.executeMaintenancePlan, bind, Except.bind] at h
  split at h
  · cases h
  split at h
  · cases h
  split at h
  · cases h
  split at h
  · rename_i hruns
    rw [Plan.acknowledges, if_pos hruns]
    have hrecords := acknowledge_records _ next plan.reviewed h
    exact hrecords
  · rename_i hruns
    rw [Plan.acknowledges, if_neg hruns, named_none, List.append_nil]
    rw [← Except.ok.inj h]

theorem settle_records (w next : World) (run : Option String) (epoch now : ℕ) (found : Found)
    (h : w.settleMemory run epoch now found = .ok next) : next.acknowledged = w.acknowledged := by
  simp only [World.settleMemory, bind, Except.bind] at h
  split at h
  · cases h
  split at h
  · cases h
  rw [← Except.ok.inj h]

theorem open_records (w next : World) (expiresAt now later : ℕ) (id : String) (found : Found)
    (reads : Bool) (h : w.openMaintenance expiresAt now later id found reads = .ok next) :
    next.acknowledged = w.acknowledged := by
  simp only [World.openMaintenance, bind, Except.bind] at h
  split at h
  · cases h
  split at h
  · cases h
  split at h
  · rw [← Except.ok.inj h]
  rename_i settled hsettle
  have hs := settle_records _ settled _ _ _ found hsettle
  split at h <;> (rw [← Except.ok.inj h]; exact hs)

/-- Nothing else than an acknowledgement of pending roots is on record as one. -/
theorem step_records (w : World) (e : Event) :
    (w.step e).acknowledged = w.acknowledged++w.kv.named (w.acknowledges e) := by
  rw [World.step, World.acknowledges]
  cases hc : w.call e with
  | error error => simp [Except.toOption, named_none]
  | ok next =>
    simp only [Except.toOption, Option.getD_some]
    have hnone : w.acknowledged = w.acknowledged++w.kv.named [] := by
      rw [named_none, List.append_nil]
    cases e with
    | plan plan => exact plan_records w next plan hc
    | acknowledge ids epoch =>
      simp only [World.call, World.acknowledgeCorrections, bind, Except.bind] at hc
      split at hc
      · cases hc
      · exact acknowledge_records w next ids hc
    | settle run epoch now found => exact (settle_records w next run epoch now found hc).trans hnone
    | openMaintenance expiresAt now later id found reads =>
      exact (open_records w next expiresAt now later id found reads hc).trans hnone
    | transaction _ | closeMaintenance _ | managed _ _ =>
      rw [← Except.ok.inj hc]
      exact hnone

theorem start_ok : Ok World.start := by
  refine ⟨⟨List.nodup_nil, ?_, ?_⟩, le_refl _, ?_, rfl, ?_⟩
  · simp [World.start]
  · simp [World.start]
  · intro row hrow
    cases hrow
  · intro page hpage
    cases hpage

theorem run_ok (events : List Event) : Ok (run events) := by
  induction events using List.reverseRecOn with
  | nil => exact start_ok
  | append_singleton events e ih =>
    rw [run, List.foldl_append]
    exact (step_moves _ e ih).ok

/-- The rows that a settlement reads: it is admitted, finds no page pending, and the page that
it is answered with can be read. -/
def World.scans (w : World) : Event → Option (List SupersededRow)
  | .settle run epoch now found =>
    if w.kv.pending.isNone && (w.settleMemory run epoch now found).toOption.isSome then
      readable w.history w.position found.scan
    else none
  | .openMaintenance expiresAt now later id found _ =>
    match w.checkProcessing w.control.epoch, w.kv.begin w.control.epoch expiresAt now id with
    | .ok _, .ok kv =>
      if w.kv.pending.isNone && (World.settleMemory { w with kv := kv } (some id)
          w.control.epoch later found).toOption.isSome then
        readable w.history w.position found.scan
      else none
    | _, _ => none
  | _ => none

theorem scan_offers (w : World) (e : Event) (ok : Ok w) (rows : List SupersededRow)
    (h : w.scans e = some rows) : (w.step e).offered.map rootId = rows.map rowId := by
  cases e with
  | settle run epoch now found =>
    simp only [World.scans, Bool.and_eq_true, Option.isNone_iff_eq_none,
      Option.ite_none_right_eq_some] at h
    obtain ⟨⟨hp, hs⟩, hr⟩ := h
    cases hc : w.settleMemory run epoch now found with
    | error e => simp [hc, Except.toOption] at hs
    | ok next =>
      have hoff := (settle_moves [] False run epoch now found ok hc).2 hp rows hr
      simp only [World.step, World.call, hc, Except.toOption, Option.getD_some, hoff, List.map_map]
      rfl
  | openMaintenance expiresAt now later id found reads =>
    simp only [World.scans] at h
    split at h
    · rename_i kv hcheck hbegin
      simp only [Bool.and_eq_true, Option.isNone_iff_eq_none, Option.ite_none_right_eq_some] at h
      obtain ⟨⟨hp, hs⟩, hr⟩ := h
      have hb := begin_cases w.kv kv _ _ _ _ hbegin
      have hok : Ok { w with kv := kv } := by
        rw [hb]
        exact (run_moves [] False (some ⟨id, w.control.epoch, expiresAt⟩) ok).ok
      cases hc : World.settleMemory { w with kv := kv } (some id) w.control.epoch later found with
      | error e => simp [hc, Except.toOption] at hs
      | ok settled =>
        have hread : readable w.history (World.position { w with kv := kv }) found.scan =
            some rows := by
          rw [hb]
          exact hr
        have hoff := (settle_moves [] False (some id) _ later found hok hc).2 (by rw [hb]; exact hp)
          rows hread
        have hnext : (w.step (.openMaintenance expiresAt now later id found reads)).offered =
            settled.offered := by
          simp only [World.step, World.call, World.openMaintenance, hcheck, hbegin, hc, bind,
            Except.bind]
          cases reads with
          | true => rfl
          | false =>
            simp only [Bool.false_eq_true, if_false, Except.toOption, Option.getD_some,
              World.offered, Kv.release]
            split <;> rfl
        rw [hnext, hoff, List.map_map]
        rfl
    · cases h
  | _ => simp [World.scans] at h

/-- In every run: the cursor never moves back and passes a superseded Assertion only after it
was acknowledged from the pending page; a root is offered until a call that succeeds acknowledges
it or the context is cleared, and only such a call is on record; and what is offered is due, stays
due until the cursor passes it, and is what the next page that can be read offers. -/
theorem corrections_reviewed (events : List Event) (e : Event) :
    (∀ row, covered (run events).position row = true →
      covered ((run events).step e).position row = true) ∧
    Reviewed ((run events).step e) ∧
    ((run events).step e).acknowledged =
      (run events).acknowledged++(run events).kv.named ((run events).acknowledges e) ∧
    (∀ root ∈ (run events).offered, root ∈ ((run events).step e).offered ∨
      root.assertion ∈ (run events).acknowledges e ∨ e.Clears) ∧
    (∀ root ∈ (run events).offered, ∃ row ∈ (run events).upcoming, rootId root = rowId row) ∧
    (∀ row ∈ (run events).upcoming, row ∈ ((run events).step e).upcoming ∨
      covered ((run events).step e).position row = true) ∧
    ∀ rows, (run events).scans e = some rows →
      ((run events).step e).offered.map rootId = rows.map rowId := by
  have ok := run_ok events
  have hstep := step_moves (run events) e ok
  refine ⟨hstep.forward, hstep.ok.reviewed, step_records (run events) e, hstep.offered, ?_,
    hstep.upcoming, scan_offers (run events) e ok⟩
  intro root hroot
  rw [ok.offered] at hroot
  cases hp : (run events).kv.pending with
  | none => simp [hp] at hroot
  | some page =>
    obtain ⟨rows, hold⟩ := ok.page page hp
    obtain ⟨row, hrow, hkey⟩ := hold.shown root (by simpa [hp] using hroot)
    exact ⟨row, prefix_take hold.first hold.size row hrow, hkey⟩

end AndaBrain.WorkerCorrections
