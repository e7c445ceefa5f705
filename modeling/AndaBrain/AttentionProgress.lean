import AndaBrain.AttentionScan

/-!
# What a checkpoint stands for

A checkpoint stands for the passes that led to it: its cursors are the ends of walks those
passes have made from the start, and its due time is not after any that they met.
-/

set_option autoImplicit false

namespace AndaBrain.Attention

def Kept (nextDueMs : Option ℕ) (due : ℕ) : Prop := ∃ n, nextDueMs = some n ∧ n ≤ due

theorem kept_new (old : Option ℕ) (due : ℕ) : Kept (minDue old due) due := by
  cases old with
  | none => exact ⟨due,rfl,le_refl due⟩
  | some v => exact ⟨min v due,rfl,min_le_right v due⟩

theorem kept_min {old : Option ℕ} {due : ℕ} (new : ℕ) (h : Kept old due) : Kept (minDue old new) due := by
  obtain ⟨n,rfl,hn⟩ := h
  exact ⟨min n new,rfl,(min_le_left n new).trans hn⟩

section Walks

def Walk.last (w : Walk) : String := ((w.page.take w.taken).getLast?).getD w.after

def Walk.Ends (limit : ℕ) (w : Walk) : Prop := w.page.length < limit ∧ w.taken = w.page.length

inductive Reaches : String → List Walk → String → Prop
  | here (a : String) : Reaches a [] a
  | walk (w : Walk) (ws : List Walk) (b : String) (h : Reaches w.last ws b) : Reaches w.after (w::ws) b

def ToEnd (limit : ℕ) (ws : List Walk) : Prop :=
  ∃ front w, ws = front++[w] ∧ Reaches "" front w.after ∧ w.Ends limit

theorem reaches_snoc {a : String} {ws : List Walk} {w : Walk} (h : Reaches a ws w.after) :
    Reaches a (ws++[w]) w.last := by
  generalize hb : w.after = b at h
  induction h with
  | here a =>
    rw [← hb]
    exact .walk w [] w.last (.here w.last)
  | walk v ws b h ih => exact .walk v (ws++[w]) w.last (ih hb)

def Covers (limit : ℕ) (ws : List Walk) (after : String) (finished : Bool) : Prop :=
  ∃ walks, walks.Sublist ws ∧ (finished = true → ToEnd limit walks) ∧
    (finished = false → Reaches "" walks after)

variable {limit : ℕ} {ws : List Walk} {after : String} {finished : Bool}

theorem covers_start (ws : List Walk) : Covers limit ws "" false :=
  ⟨[],List.nil_sublist ws,fun h => absurd h (by decide),fun _ => .here ""⟩

theorem covers_more (w : Walk) (h : Covers limit ws after true) (after' : String) :
    Covers limit (ws++[w]) after' true := by
  obtain ⟨walks,hsub,hend,-⟩ := h
  exact ⟨walks,hsub.trans (List.sublist_append_left ws [w]),hend,fun h => absurd h (by decide)⟩

theorem covers_walk (w : Walk) (h : Covers limit ws w.after false) : Covers limit (ws++[w]) w.last
    false ∧ (w.Ends limit → ∀ after', Covers limit (ws++[w]) after' true) := by
  obtain ⟨walks,hsub,-,hreach⟩ := h
  have happ : (walks++[w]).Sublist (ws++[w]) := hsub.append (List.Sublist.refl [w])
  refine ⟨⟨walks++[w],happ,fun h => absurd h (by decide),fun _ => reaches_snoc (hreach rfl)⟩,?_⟩
  intro hends after'
  exact ⟨walks++[w],happ,fun _ => ⟨walks,w,rfl,hreach rfl,hends⟩,fun h => absurd h (by decide)⟩

end Walks

section Listings

inductive ListsTo : Option String → List Listing → Option String → Prop
  | here (c : Option String) : ListsTo c [] c
  | page (l : Listing) (ls : List Listing) (c : Option String) (h : ListsTo l.page.nextCursor ls c) :
      ListsTo l.cursor (l::ls) c

def ListedToEnd (ls : List Listing) : Prop :=
  ∃ front l, ls = front++[l] ∧ ListsTo none front l.cursor ∧ l.page.complete = true

theorem lists_snoc {c : Option String} {ls : List Listing} {l : Listing} (h : ListsTo c ls l.cursor) :
    ListsTo c (ls++[l]) l.page.nextCursor := by
  generalize hd : l.cursor = d at h
  induction h with
  | here c =>
    rw [← hd]
    exact .page l [] l.page.nextCursor (.here l.page.nextCursor)
  | page k ls c h ih => exact .page k (ls++[l]) l.page.nextCursor (ih hd)

def Inside (cp : Checkpoint) (ls : List Listing) : Prop :=
  ∃ front l, ls = front++[l] ∧ cp.wakesDone = false ∧ l.page.nextCursor = cp.wakePageCursor ∧
    l.page.complete = cp.wakePageComplete ∧ ListsTo none front l.cursor

/-- Where the listing of wakes stands: between two pages, inside one, or at the end. -/
inductive Position (cp : Checkpoint) (ls : List Listing) : Prop
  | between (hpending : cp.wakePending = []) (hdone : cp.wakesDone = false)
      (h : ListsTo none ls cp.wakeCursor) : Position cp ls
  | inside (hpending : cp.wakePending ≠ []) (h : Inside cp ls) : Position cp ls
  | ended (hpending : cp.wakePending = []) (hdone : cp.wakesDone = true) (h : ListedToEnd ls) :
      Position cp ls

def AllHandled (pending : List String) (ls : List Listing) (handled : List Handled) : Prop :=
  ∀ l ∈ ls, ∀ reference ∈ l.page.items, reference ∈ pending ∨ ∃ h ∈ handled, h.reference = reference

def CoversWakes (cp : Checkpoint) (listed : List Listing) (handled : List Handled) : Prop :=
  ∃ ls, ls.Sublist listed ∧ Position cp ls ∧ AllHandled cp.wakePending ls handled

theorem CoversWakes.same {cp next : Checkpoint} {listed : List Listing} {handled : List Handled}
    (h : CoversWakes cp listed handled) (hpending : next.wakePending = cp.wakePending)
    (hdone : next.wakesDone = cp.wakesDone) (hcursor : next.wakeCursor = cp.wakeCursor)
    (hpage : next.wakePageCursor = cp.wakePageCursor)
    (hcomplete : next.wakePageComplete = cp.wakePageComplete) :
    CoversWakes next listed handled := by
  obtain ⟨ls,hsub,hpos,hall⟩ := h
  refine ⟨ls,hsub,?_,hpending ▸ hall⟩
  cases hpos with
  | between h1 h2 h3 => exact .between (hpending.trans h1) (hdone.trans h2) (hcursor ▸ h3)
  | inside h1 h2 => exact .inside (hpending ▸ h1) (by
      simpa only [Inside, hdone, hpage, hcomplete] using h2)
  | ended h1 h2 h3 => exact .ended (hpending.trans h1) (hdone.trans h2) h3

end Listings

structure KeepsDue (tickMs : ℕ) (nextDueMs : Option ℕ) (t : Trace) : Prop where
  rechecks : ∀ due ∈ t.rechecks, Kept nextDueMs due
  armed : ∀ due ∈ t.armedDue, t.nowMs < due → Kept nextDueMs due
  runnable : ∀ due ∈ t.runnableDue, Kept nextDueMs (t.nowMs+tickMs)
  pending : ∀ h ∈ t.handled, ∀ notBeforeMs, h.wake.state = .pending notBeforeMs → h.nowMs < notBeforeMs →
    Kept nextDueMs (max notBeforeMs (h.nowMs+tickMs))

theorem keeps_due_mono {tickMs : ℕ} {old new : Option ℕ} {t : Trace} (h : KeepsDue tickMs old t)
    (hmono : ∀ due, Kept old due → Kept new due) : KeepsDue tickMs new t where
  rechecks due hd := hmono _ (h.rechecks due hd)
  armed due hd hlt := hmono _ (h.armed due hd hlt)
  runnable due hd := hmono _ (h.runnable due hd)
  pending w hw n hs hlt := hmono _ (h.pending w hw n hs hlt)

structure Progress (policy : AttentionPolicy) (cp : Checkpoint) (ps : List Trace) : Prop where
  runnable : Covers policy.watchesPerSpace (ps.filterMap Trace.runnable) cp.runnableAfter cp.runnableDone
  armed : Covers policy.watchesPerSpace (ps.filterMap Trace.armed) cp.allAfter cp.allDone
  wakes : CoversWakes cp (ps.filterMap Trace.listed) (ps.flatMap Trace.handled)
  due : ∀ t ∈ ps, KeepsDue policy.tickMs cp.nextDueMs t

theorem progress_fresh (policy : AttentionPolicy) (generation : ℕ) : Progress policy (.fresh generation) [] where
  runnable := covers_start _
  armed := covers_start _
  wakes := ⟨[],List.nil_sublist _,.between rfl rfl (.here none),fun _ hl => absurd hl List.not_mem_nil⟩
  due := fun _ ht => absurd ht List.not_mem_nil

theorem progress_begin {policy : AttentionPolicy} {cp : Checkpoint} {ps : List Trace}
    (h : Progress policy cp ps) (nowMs : ℕ) : Progress policy cp (ps++[Trace.start nowMs]) where
  runnable := by simpa [List.filterMap_append, Trace.start] using h.runnable
  armed := by simpa [List.filterMap_append, Trace.start] using h.armed
  wakes := by simpa [List.filterMap_append, List.flatMap_append, Trace.start] using h.wakes
  due := by
    intro t ht
    rcases List.mem_append.mp ht with ht | ht
    · exact h.due t ht
    · rw [List.mem_singleton.mp ht]
      constructor <;> simp [Trace.start]

section Sections
variable (policy : AttentionPolicy) (adapters : Adapters) (answers : ScanAnswers)

structure Advanced (policy : AttentionPolicy) (answers : ScanAnswers) (rows : List WatchRow)
    (s s' : Scan) (r : Except String Bool) : Prop where
  parts : ∃ front rest, rows = front++rest ∧ (r = .ok false → rest = []) ∧
    s'.trace = { s.trace with
      runnable := s.trace.runnable.map fun w => { w with taken := w.taken+front.length }
      runnableDue := s.trace.runnableDue++front.flatMap fun row => row.dueAtMs.toList } ∧
    ∃ nextDueMs, s'.checkpoint = { s.checkpoint with
      runnableAfter := (front.getLast?.map WatchRow.id).getD s.checkpoint.runnableAfter
      nextDueMs := nextDueMs } ∧
    (∀ due, Kept s.checkpoint.nextDueMs due → Kept nextDueMs due) ∧
    (front ≠ [] → Kept nextDueMs (answers.nowMs+policy.tickMs))

theorem advance_rows_spec (rows : List WatchRow) (s : Scan) : Advanced policy answers rows s
    (advanceRows policy answers rows s).1 (advanceRows policy answers rows s).2 := by
  have none_taken : ∀ (s : Scan) (rows : List WatchRow) (r : Except String Bool),
      (r = .ok false → rows = []) → Advanced policy answers rows s s r := by
    intro s rows r hr
    refine ⟨[],rows,rfl,hr,?_,s.checkpoint.nextDueMs,rfl,fun _ h => h,fun h => absurd rfl h⟩
    have hrun : (s.trace.runnable.map fun w => { w with taken := w.taken+0 }) = s.trace.runnable := by
      cases s.trace.runnable <;> rfl
    simp only [List.flatMap_nil, List.append_nil, List.length_nil, hrun]
  induction rows generalizing s with
  | nil => exact none_taken s [] _ fun _ => rfl
  | cons row rows ih =>
    unfold advanceRows
    split
    · exact none_taken s (row::rows) _ fun h => by cases h
    split
    · exact none_taken s (row::rows) _ fun h => by cases h
    next report _ =>
    obtain ⟨front,rest,rfl,hend,htrace,nextDueMs,hcp,hmono,hnew⟩ := (ih
      { checkpoint := { s.checkpoint with
          runnableAfter := row.id
          nextDueMs := minDue s.checkpoint.nextDueMs (answers.nowMs+policy.tickMs) }
        report := report
        trace := { s.trace with
          runnable := s.trace.runnable.map fun w => { w with taken := w.taken+1 }
          runnableDue := s.trace.runnableDue++row.dueAtMs.toList } }).parts
    refine ⟨row::front,rest,rfl,hend,?_,nextDueMs,?_,?_,?_⟩
    · rw [htrace]
      simp only [Trace.mk.injEq, true_and, List.flatMap_cons, List.append_assoc, and_true]
      cases s.trace.runnable with
      | none => rfl
      | some w =>
        simp only [Option.map_some, List.length_cons, Option.some.injEq, Walk.mk.injEq, true_and]
        omega
    · rw [hcp]
      have hlast : (front.getLast?.map WatchRow.id).getD row.id =
          ((row::front).getLast?.map WatchRow.id).getD s.checkpoint.runnableAfter := by
        cases front with
        | nil => rfl
        | cons x front =>
          rw [List.getLast?_cons_cons, List.getLast?_eq_some_getLast (List.cons_ne_nil x front)]
          rfl
      rw [← hlast]
    · exact fun due h => hmono due (kept_min _ h)
    · exact fun _ => hmono _ (kept_new ..)

/-- What the first section may do to the checkpoint and to the record. -/
inductive RunnableStep (policy : AttentionPolicy) (answers : ScanAnswers) (s s' : Scan) : Prop
  | same (hcp : s'.checkpoint = s.checkpoint) (htrace : s'.trace = s.trace)
  | walked (w : Walk) (dues : List ℕ) (after : String) (finished : Bool) (nextDueMs : Option ℕ)
      (htrace : s'.trace = { s.trace with
        runnable := some w, runnableDue := s.trace.runnableDue++dues })
      (hcp : s'.checkpoint = { s.checkpoint with
        runnableAfter := after, runnableDone := finished, nextDueMs := nextDueMs })
      (hafter : w.after = s.checkpoint.runnableAfter)
      (hend : (finished = s.checkpoint.runnableDone ∧ after = w.last) ∨
        (finished = true ∧ w.Ends policy.watchesPerSpace))
      (hmono : ∀ due, Kept s.checkpoint.nextDueMs due → Kept nextDueMs due)
      (hnew : dues ≠ [] → Kept nextDueMs (answers.nowMs+policy.tickMs)) :
      RunnableStep policy answers s s'

theorem walked_last (after : String) (front rest : List WatchRow) :
    (⟨after,(front++rest).map WatchRow.id,front.length⟩ : Walk).last =
    (front.getLast?.map WatchRow.id).getD after := by
  rw [Walk.last, List.map_append, List.take_left' (List.length_map _), List.getLast?_map]

theorem scan_runnable_spec (s : Scan) :
    RunnableStep policy answers s (scanRunnable policy answers s).1 := by
  unfold scanRunnable
  split
  · exact .same rfl rfl
  split
  · exact .same rfl rfl
  next rows _ =>
  have hspec := advance_rows_spec policy answers rows
    { s with trace := { s.trace with
      runnable := some ⟨s.checkpoint.runnableAfter,rows.map WatchRow.id,0⟩ } }
  simp only
  generalize advanceRows policy answers rows { s with trace := { s.trace with
      runnable := some ⟨s.checkpoint.runnableAfter,rows.map WatchRow.id,0⟩ } } = x at hspec ⊢
  obtain ⟨s',r⟩ := x
  obtain ⟨front,rest,rfl,hr,htrace,nextDueMs,hcp,hmono,hnew⟩ := hspec.parts
  simp only at hr htrace hcp hmono
  have hdues : (front.flatMap fun row => row.dueAtMs.toList) ≠ [] → front ≠ [] := by
    rintro h rfl
    exact h rfl
  have hplain : ∀ t : Scan, t.checkpoint = s'.checkpoint → t.trace = s'.trace →
      RunnableStep policy answers s t := by
    intro t hc ht
    refine .walked ⟨s.checkpoint.runnableAfter,(front++rest).map WatchRow.id,front.length⟩ _ _ _
      nextDueMs ?_ (hc.trans hcp) rfl (.inl ⟨rfl,?_⟩) hmono fun h => hnew (hdues h)
    · rw [ht, htrace]
      simp only [Option.map_some, Nat.zero_add]
    · exact (walked_last ..).symm
  cases r with
  | error e => exact hplain _ rfl rfl
  | ok exhausted =>
    simp only
    split
    · next hshort =>
      obtain ⟨hlen,rfl⟩ := hshort
      have hrest := hr rfl
      subst hrest
      refine .walked ⟨s.checkpoint.runnableAfter,(front++[]).map WatchRow.id,front.length⟩
        (front.flatMap fun row => row.dueAtMs.toList) "" true nextDueMs ?_ ?_ rfl
        (.inr ⟨rfl,?_,?_⟩) hmono fun h => hnew (hdues h)
      · rw [htrace]
        simp only [Option.map_some, Nat.zero_add]
      · simp only [hcp]
      · rw [List.length_map]
        exact hlen
      · simp
    · exact hplain _ rfl rfl

inductive ArmedStep (policy : AttentionPolicy) (answers : ScanAnswers) (s s' : Scan) : Prop
  | same (hcp : s'.checkpoint = s.checkpoint) (htrace : s'.trace = s.trace)
  | walked (w : Walk) (dues : List ℕ) (finished : Bool) (nextDueMs : Option ℕ)
      (htrace : s'.trace = { s.trace with armed := some w, armedDue := s.trace.armedDue++dues })
      (hcp : s'.checkpoint = { s.checkpoint with
        allAfter := w.last, allDone := finished, nextDueMs := nextDueMs })
      (hopen : s.checkpoint.allDone = false)
      (hafter : w.after = s.checkpoint.allAfter)
      (hend : finished = true → w.Ends policy.watchesPerSpace)
      (hmono : ∀ due, Kept s.checkpoint.nextDueMs due → Kept nextDueMs due)
      (hnew : ∀ due ∈ dues, answers.nowMs < due → Kept nextDueMs due) :
      ArmedStep policy answers s s'

theorem armed_row_spec (s : Scan) (row : WatchRow) :
    (armedRow policy adapters answers s row).trace =
        { s.trace with armedDue := s.trace.armedDue++row.dueAtMs.toList } ∧
      ∃ nextDueMs, (armedRow policy adapters answers s row).checkpoint =
          { s.checkpoint with allAfter := row.id, nextDueMs := nextDueMs } ∧
        (∀ due, Kept s.checkpoint.nextDueMs due → Kept nextDueMs due) ∧
        ∀ due ∈ row.dueAtMs.toList, answers.nowMs < due → Kept nextDueMs due := by
  obtain ⟨id,version,generation,condition,dueAtMs⟩ := row
  unfold armedRow
  by_cases hsem : adapters.semantic = true ∧ isStructured condition = false
  · cases dueAtMs with
    | none =>
      simp only [if_pos hsem, Scan.due, Option.toList_none]
      exact ⟨trivial,_,rfl,fun due h => kept_min _ h,fun due h => absurd h List.not_mem_nil⟩
    | some due =>
      by_cases hdue : due > answers.nowMs
      · simp only [if_pos hsem, if_pos hdue, Scan.due, Option.toList_some]
        refine ⟨trivial,_,rfl,fun d h => kept_min _ (kept_min _ h),fun d h _ => ?_⟩
        rw [List.mem_singleton.mp h]
        exact kept_new ..
      · simp only [if_pos hsem, if_neg hdue, Scan.due, Option.toList_some]
        refine ⟨trivial,_,rfl,fun d h => kept_min _ h,fun d h hlt => ?_⟩
        rw [List.mem_singleton.mp h] at hlt
        exact absurd hlt hdue
  cases dueAtMs with
  | none =>
    simp only [if_neg hsem, Option.toList_none]
    exact ⟨trivial,_,rfl,fun due h => h,fun due h => absurd h List.not_mem_nil⟩
  | some due =>
    by_cases hdue : due > answers.nowMs
    · simp only [if_neg hsem, if_pos hdue, Scan.due, Option.toList_some]
      refine ⟨trivial,_,rfl,fun d h => kept_min _ h,fun d h _ => ?_⟩
      rw [List.mem_singleton.mp h]
      exact kept_new ..
    · simp only [if_neg hsem, if_neg hdue, Option.toList_some]
      refine ⟨trivial,_,rfl,fun d h => h,fun d h hlt => ?_⟩
      rw [List.mem_singleton.mp h] at hlt
      exact absurd hlt hdue

theorem armed_rows_spec (rows : List WatchRow) (s : Scan) :
    (rows.foldl (armedRow policy adapters answers) s).trace =
        { s.trace with armedDue := s.trace.armedDue++rows.flatMap fun row => row.dueAtMs.toList } ∧
      ∃ nextDueMs, (rows.foldl (armedRow policy adapters answers) s).checkpoint =
          { s.checkpoint with
            allAfter := (rows.getLast?.map WatchRow.id).getD s.checkpoint.allAfter
            nextDueMs := nextDueMs } ∧
        (∀ due, Kept s.checkpoint.nextDueMs due → Kept nextDueMs due) ∧
        ∀ due ∈ rows.flatMap fun row => row.dueAtMs.toList, answers.nowMs < due → Kept nextDueMs due := by
  induction rows generalizing s with
  | nil =>
    refine ⟨?_,_,rfl,fun _ h => h,fun _ h => absurd h List.not_mem_nil⟩
    rw [List.flatMap_nil, List.append_nil]
    rfl
  | cons row rows ih =>
    obtain ⟨htrace,n,hcp,hmono,hnew⟩ :=
      armed_row_spec policy adapters answers s row
    obtain ⟨htrace',n',hcp',hmono',hnew'⟩ := ih (armedRow policy adapters answers s row)
    rw [hcp] at hmono'
    refine ⟨?_,n',?_,fun due h => hmono' due (hmono due h),?_⟩
    · rw [List.foldl_cons, htrace', htrace]
      simp only [List.flatMap_cons, List.append_assoc]
    · rw [List.foldl_cons, hcp', hcp]
      have hlast : (rows.getLast?.map WatchRow.id).getD row.id =
          ((row::rows).getLast?.map WatchRow.id).getD s.checkpoint.allAfter := by
        cases rows with
        | nil => rfl
        | cons x rows =>
          rw [List.getLast?_cons_cons, List.getLast?_eq_some_getLast (List.cons_ne_nil x rows)]
          rfl
      rw [← hlast]
    · intro due hdue hlt
      rw [List.flatMap_cons] at hdue
      rcases List.mem_append.mp hdue with h | h
      · exact hmono' due (hnew due h hlt)
      · exact hnew' due h hlt

theorem scan_armed_spec (s : Scan) :
    ArmedStep policy answers s (scanArmed policy adapters answers s).1 := by
  unfold scanArmed
  split
  · exact .same rfl rfl
  next hopen =>
  split
  · exact .same rfl rfl
  next rows _ =>
  obtain ⟨htrace,n,hcp,hmono,hnew⟩ := armed_rows_spec policy adapters answers rows
    ⟨{ s.checkpoint with allDone := decide (rows.length < policy.watchesPerSpace) },s.report,
      { s.trace with armed := some ⟨s.checkpoint.allAfter,rows.map WatchRow.id,rows.length⟩ }⟩
  have hlast := walked_last s.checkpoint.allAfter rows []
  rw [List.append_nil] at hlast
  refine .walked ⟨s.checkpoint.allAfter,rows.map WatchRow.id,rows.length⟩ _
    (decide (rows.length < policy.watchesPerSpace)) n htrace ?_ ?_ rfl ?_ hmono hnew
  · rw [hlast]
    exact hcp
  · simpa using fun h => hopen (.inl h)
  · intro h
    exact ⟨by rw [List.length_map]; exact of_decide_eq_true h,by rw [List.length_map]⟩

/-- The checkpoint with another due time and another end of the running leases. -/
def Checkpoint.timed (cp : Checkpoint) (nextDueMs : Option ℕ) (runningUntilMs : ℕ) : Checkpoint :=
  { cp with nextDueMs := nextDueMs, runningUntilMs := runningUntilMs }

structure Timed (s s' : Scan) (due : Option ℕ) : Prop where
  trace : s'.trace = s.trace
  parts : ∃ nextDueMs runningUntilMs, s'.checkpoint = s.checkpoint.timed nextDueMs runningUntilMs ∧
    (∀ d, Kept s.checkpoint.nextDueMs d → Kept nextDueMs d) ∧ ∀ d ∈ due, Kept nextDueMs d

theorem timed_due (s : Scan) (report : AttentionReport) (runningUntilMs d : ℕ) :
    Timed s (Scan.due { s with
      report := report, checkpoint := s.checkpoint.timed s.checkpoint.nextDueMs runningUntilMs } d)
      (some d) where
  trace := rfl
  parts := by
    refine ⟨minDue s.checkpoint.nextDueMs d,runningUntilMs,rfl,fun _ h => kept_min _ h,fun e he => ?_⟩
    cases he
    exact kept_new ..

theorem timed_weaken {s s' : Scan} {due : Option ℕ} (h : Timed s s' due) : Timed s s' none where
  trace := h.trace
  parts := by
    obtain ⟨n,u,hcp,hmono,-⟩ := h.parts
    exact ⟨n,u,hcp,hmono,fun _ hd => by cases hd⟩

theorem process_action_spec (s : Scan) (a : WakeAnswers) :
    Timed s (processAction policy s a) none := by
  have hrun : ∀ (t : Scan) (expiresAtMs : ℕ), Timed s t none →
      Timed s { t with checkpoint := runningUntil t.checkpoint expiresAtMs } none := by
    intro t expiresAtMs ht
    obtain ⟨n,u,hcp,hmono,hnew⟩ := ht.parts
    exact ⟨ht.trace,n,max u expiresAtMs,by rw [hcp]; rfl,hmono,hnew⟩
  unfold processAction
  have ht := fun report next => timed_weaken (timed_due s report s.checkpoint.runningUntilMs next)
  cases a.action
  all_goals
    dsimp only
    split
    · exact hrun _ _ (ht _ _)
    · exact ht _ _

theorem resume_blocked_spec (s s' : Scan) (a : WakeAnswers) (wake : Wake) (due : ℕ)
    (h : resumeBlocked policy s a wake due = .ok s') : Timed s s' none := by
  unfold resumeBlocked at h
  cases hmarker : a.marker with
  | error e =>
    rw [hmarker] at h
    cases h
  | ok old =>
    rw [hmarker] at h
    simp only [bind, Except.bind] at h
    split at h
    · cases hresume : a.resume with
      | ok u =>
        rw [hresume] at h
        cases h
        exact timed_weaken (timed_due s _ s.checkpoint.runningUntilMs _)
      | error e =>
        rw [hresume] at h
        cases hput : a.markerPut with
        | error e =>
          rw [hput] at h
          cases h
        | ok u =>
          rw [hput] at h
          cases h
          exact timed_weaken (timed_due s _ s.checkpoint.runningUntilMs _)
    · cases h
      exact timed_weaken (timed_due s _ s.checkpoint.runningUntilMs _)

def pendingDue (policy : AttentionPolicy) (wake : Wake) (nowMs : ℕ) : Option ℕ :=
  match wake.state with
  | .pending notBeforeMs =>
    if nowMs < notBeforeMs then some (max notBeforeMs (nowMs+policy.tickMs)) else none
  | _ => none

theorem process_idle_spec (s s' : Scan) (a : WakeAnswers) (wake : Wake)
    (h : processIdle policy adapters s a wake = .ok s') : Timed s s' (pendingDue policy wake a.nowMs) := by
  obtain ⟨state,version,fence⟩ := wake
  unfold processIdle at h
  cases state with
  | pending n =>
    cases h
    have hdue : ∀ report, Timed s (Scan.due { s with report := report } (max n (a.nowMs+policy.tickMs)))
        (some (max n (a.nowMs+policy.tickMs))) :=
      fun report => timed_due s report s.checkpoint.runningUntilMs _
    unfold pendingDue
    by_cases hlt : a.nowMs < n
    · simp only [if_pos hlt]
      exact hdue _
    · simp only [if_neg hlt]
      exact timed_weaken (hdue _)
  | running expiresAtMs =>
    cases h
    exact timed_weaken (timed_due s s.report (max s.checkpoint.runningUntilMs expiresAtMs) _)
  | blockedUntil n => exact resume_blocked_spec policy s s' a _ n h
  | blockedOnChange => exact resume_blocked_spec policy s s' a _ a.nowMs h
  | completed =>
    cases h
    exact ⟨rfl,s.checkpoint.nextDueMs,s.checkpoint.runningUntilMs,rfl,fun _ h => h,fun _ hd => by cases hd⟩
  | cancelled =>
    cases h
    exact ⟨rfl,s.checkpoint.nextDueMs,s.checkpoint.runningUntilMs,rfl,fun _ h => h,fun _ hd => by cases hd⟩

structure WakeStep (policy : AttentionPolicy) (s s' : Scan) (reference : String) : Prop where
  parts : ∃ nextDueMs runningUntilMs nowMs wake,
    s'.checkpoint = s.checkpoint.timed nextDueMs runningUntilMs ∧
    s'.trace = { s.trace with handled := s.trace.handled++[⟨reference,nowMs,wake⟩] } ∧
    (∀ d, Kept s.checkpoint.nextDueMs d → Kept nextDueMs d) ∧
    ∀ d ∈ pendingDue policy wake nowMs, Kept nextDueMs d

theorem process_wake_spec (s s' : Scan) (reference : String)
    (h : processWake policy adapters answers s reference = .ok s') : WakeStep policy s s' reference := by
  unfold processWake at h
  simp only [bind, Except.bind] at h
  generalize answers.wake reference = a at h
  cases hread : a.read with
  | error e =>
    rw [hread] at h
    cases h
  | ok wake =>
    rw [hread] at h
    simp only at h
    have close : ∀ t : Scan, Timed s t (pendingDue policy wake a.nowMs) →
        Except.ok { t with trace := { t.trace with
          handled := t.trace.handled++[⟨reference,a.nowMs,wake⟩] } } = (Except.ok s' : Except String Scan) →
        WakeStep policy s s' reference := by
      intro t ht heq
      cases heq
      obtain ⟨n,u,hcp,hmono,hnew⟩ := ht.parts
      refine ⟨n,u,a.nowMs,wake,hcp,?_,hmono,hnew⟩
      simp only [ht.trace]
    by_cases hact : adapters.actions.isSome = true ∧ actionable wake.state a.nowMs = true
    · have hnone : pendingDue policy wake a.nowMs = none := by
        unfold pendingDue
        split
        · next n hstate =>
          have h2 := hact.2
          rw [hstate] at h2
          simp only [actionable, gt_iff_lt, Bool.not_eq_true', decide_eq_false_iff_not] at h2
          exact if_neg h2
        · rfl
      rw [hnone] at close
      rw [if_pos hact] at h
      split at h
      · exact close _ (timed_weaken (timed_due s _ s.checkpoint.runningUntilMs _)) h
      · exact close _ (process_action_spec policy s a) h
    · rw [if_neg hact] at h
      cases hidle : processIdle policy adapters s a wake with
      | error e =>
        rw [hidle] at h
        cases h
      | ok t =>
        rw [hidle] at h
        exact close t (process_idle_spec policy adapters s t a wake hidle) h

structure PendingStep (policy : AttentionPolicy) (pending : List String) (s s' : Scan)
    (r : Except String Unit) : Prop where
  parts : ∃ front rest handled nextDueMs runningUntilMs, pending = front++rest ∧
    (∀ e, r = .error e → rest ≠ []) ∧ handled.map Handled.reference = front ∧
    s'.checkpoint = ({ s.checkpoint with wakePending := rest }).timed nextDueMs runningUntilMs ∧
    s'.trace = { s.trace with handled := s.trace.handled++handled } ∧
    (∀ d, Kept s.checkpoint.nextDueMs d → Kept nextDueMs d) ∧
    ∀ h ∈ handled, ∀ d ∈ pendingDue policy h.wake h.nowMs, Kept nextDueMs d

theorem process_pending_spec (pending : List String) (s : Scan) (hs : s.checkpoint.wakePending = pending) :
    PendingStep policy pending s (processPending policy adapters answers pending s).1
      (processPending policy adapters answers pending s).2 := by
  have untouched : ∀ (s s' : Scan) (pending : List String) (r : Except String Unit),
      s.checkpoint.wakePending = pending → s'.checkpoint = s.checkpoint → s'.trace = s.trace →
      (∀ e, r = .error e → pending ≠ []) → PendingStep policy pending s s' r := by
    intro s s' pending r hs hcp htrace hr
    refine ⟨[],pending,[],s.checkpoint.nextDueMs,s.checkpoint.runningUntilMs,rfl,hr,rfl,?_,?_,
      fun _ h => h,fun h hh => absurd hh List.not_mem_nil⟩
    · rw [hcp, ← hs]
      rfl
    · rw [htrace, List.append_nil]
  induction pending generalizing s with
  | nil => exact untouched s s [] _ hs rfl rfl fun e h => by cases h
  | cons reference rest ih =>
    unfold processPending
    split
    · exact untouched s s _ _ hs rfl rfl fun e h => by cases h
    split
    · exact untouched s _ _ _ hs rfl rfl fun e h => by cases h
    cases hwake : processWake policy adapters answers s reference with
    | error e => exact untouched s s _ _ hs rfl rfl fun _ _ => List.cons_ne_nil reference rest
    | ok t =>
      obtain ⟨n,u,nowMs,wake,hcp,htrace,hmono,hnew⟩ :=
        (process_wake_spec policy adapters answers s t reference hwake).parts
      simp only
      obtain ⟨front,tail,handled,n',u',hsplit,hr,hmap,hcp',htrace',hmono',hnew'⟩ :=
        (ih { t with checkpoint := { t.checkpoint with wakePending := rest } } rfl).parts
      simp only [hcp] at hmono'
      refine ⟨reference::front,tail,⟨reference,nowMs,wake⟩::handled,n',u',?_,hr,?_,?_,?_,
        fun d h => hmono' d (hmono d h),?_⟩
      · rw [hsplit]
        rfl
      · rw [List.map_cons, hmap]
      · rw [hcp', hcp]
        rfl
      · rw [htrace', htrace]
        simp only [List.append_assoc, List.singleton_append]
      intro h hh d hd
      rcases List.mem_cons.mp hh with rfl | hh
      · exact hmono' d (hnew d hd)
      · exact hnew' h hh d hd

theorem keeps_due_runnable {tickMs : ℕ} {old new : Option ℕ} {t : Trace} (w : Walk) (dues : List ℕ)
    (h : KeepsDue tickMs old t) (hmono : ∀ due, Kept old due → Kept new due)
    (hnew : dues ≠ [] → Kept new (t.nowMs+tickMs)) :
    KeepsDue tickMs new { t with runnable := some w, runnableDue := t.runnableDue++dues } where
  rechecks due hd := hmono _ (h.rechecks due hd)
  armed due hd hlt := hmono _ (h.armed due hd hlt)
  runnable due hd := by
    rcases List.mem_append.mp hd with hd | hd
    · exact hmono _ (h.runnable due hd)
    · exact hnew (List.ne_nil_of_mem hd)
  pending x hx n hs hlt := hmono _ (h.pending x hx n hs hlt)

theorem keeps_due_armed {tickMs : ℕ} {old new : Option ℕ} {t : Trace} (w : Walk) (dues : List ℕ)
    (h : KeepsDue tickMs old t) (hmono : ∀ due, Kept old due → Kept new due)
    (hnew : ∀ due ∈ dues, t.nowMs < due → Kept new due) :
    KeepsDue tickMs new { t with armed := some w, armedDue := t.armedDue++dues } where
  rechecks due hd := hmono _ (h.rechecks due hd)
  armed due hd hlt := by
    rcases List.mem_append.mp hd with hd | hd
    · exact hmono _ (h.armed due hd hlt)
    · exact hnew due hd hlt
  runnable due hd := hmono _ (h.runnable due hd)
  pending x hx n hs hlt := hmono _ (h.pending x hx n hs hlt)

theorem keeps_due_handled {old new : Option ℕ} {t : Trace} (handled : List Handled)
    (h : KeepsDue policy.tickMs old t) (hmono : ∀ due, Kept old due → Kept new due)
    (hnew : ∀ x ∈ handled, ∀ d ∈ pendingDue policy x.wake x.nowMs, Kept new d) (listed : Option Listing) :
    KeepsDue policy.tickMs new { t with listed := listed, handled := t.handled++handled } where
  rechecks due hd := hmono _ (h.rechecks due hd)
  armed due hd hlt := hmono _ (h.armed due hd hlt)
  runnable due hd := hmono _ (h.runnable due hd)
  pending x hx n hs hlt := by
    rcases List.mem_append.mp hx with hx | hx
    · exact hmono _ (h.pending x hx n hs hlt)
    apply hnew x hx
    rw [pendingDue, hs]
    simp only
    rw [if_pos hlt]
    rfl

section Passes
variable {s s' : Scan} {ps : List Trace}

theorem due_append {old new : Option ℕ} {t t' : Trace}
    (h : ∀ x ∈ ps++[t], KeepsDue policy.tickMs old x) (hmono : ∀ due, Kept old due → Kept new due)
    (ht : KeepsDue policy.tickMs new t') : ∀ x ∈ ps++[t'], KeepsDue policy.tickMs new x := by
  intro x hx
  rcases List.mem_append.mp hx with hx | hx
  · exact keeps_due_mono (h x (List.mem_append_left _ hx)) hmono
  · rw [List.mem_singleton.mp hx]
    exact ht

theorem runnable_progress (hnone : s.trace.runnable = none) (hnow : s.trace.nowMs = answers.nowMs)
    (h : Progress policy s.checkpoint (ps++[s.trace])) (hstep : RunnableStep policy answers s s') :
    Progress policy s'.checkpoint (ps++[s'.trace]) := by
  cases hstep with
  | same hcp htrace =>
    rw [hcp, htrace]
    exact h
  | walked w dues after finished nextDueMs htrace hcp hafter hend hmono hnew =>
    have hold := h.runnable
    rw [List.filterMap_append, List.filterMap_cons_none hnone, List.filterMap_nil, List.append_nil] at hold
    have hwalks : (ps++[s'.trace]).filterMap Trace.runnable = ps.filterMap Trace.runnable++[w] := by
      rw [List.filterMap_append, htrace]
      rfl
    constructor
    · rw [hwalks, hcp]
      simp only
      cases hdone : s.checkpoint.runnableDone with
      | true =>
        rw [hdone] at hold hend
        have hfinished : finished = true := by
          rcases hend with ⟨h,-⟩ | ⟨h,-⟩ <;> exact h
        rw [hfinished]
        exact covers_more w hold _
      | false =>
        rw [hdone, ← hafter] at hold
        obtain ⟨hlast,hends⟩ := covers_walk w hold
        rcases hend with ⟨hfinished,hreach⟩ | ⟨hfinished,hreach⟩
        · rw [hfinished, hreach, hdone]
          exact hlast
        · rw [hfinished]
          exact hends hreach _
    · have harmed := h.armed
      rw [List.filterMap_append] at harmed
      rw [List.filterMap_append, hcp, htrace]
      exact harmed
    · have hwakes := h.wakes
      rw [List.filterMap_append, List.flatMap_append] at hwakes
      rw [List.filterMap_append, List.flatMap_append, htrace, hcp]
      exact CoversWakes.same hwakes rfl rfl rfl rfl rfl
    · have ht := h.due s.trace (List.mem_append_right _ (List.mem_singleton.mpr rfl))
      rw [hcp, htrace]
      rw [← hnow] at hnew
      exact due_append policy h.due hmono (keeps_due_runnable w dues ht hmono hnew)

theorem armed_progress (hnone : s.trace.armed = none) (hnow : s.trace.nowMs = answers.nowMs)
    (h : Progress policy s.checkpoint (ps++[s.trace])) (hstep : ArmedStep policy answers s s') :
    Progress policy s'.checkpoint (ps++[s'.trace]) := by
  cases hstep with
  | same hcp htrace =>
    rw [hcp, htrace]
    exact h
  | walked w dues finished nextDueMs htrace hcp hopen hafter hend hmono hnew =>
    have hold := h.armed
    rw [List.filterMap_append, List.filterMap_cons_none hnone, List.filterMap_nil, List.append_nil,
      hopen, ← hafter] at hold
    obtain ⟨hlast,hends⟩ := covers_walk w hold
    have hwalks : (ps++[s'.trace]).filterMap Trace.armed = ps.filterMap Trace.armed++[w] := by
      rw [List.filterMap_append, htrace]
      rfl
    constructor
    · have hrun := h.runnable
      rw [List.filterMap_append] at hrun
      rw [List.filterMap_append, hcp, htrace]
      exact hrun
    · rw [hwalks, hcp]
      simp only
      cases hfin : finished with
      | true => exact hends (hend hfin) _
      | false => exact hlast
    · have hwakes := h.wakes
      rw [List.filterMap_append, List.flatMap_append] at hwakes
      rw [List.filterMap_append, List.flatMap_append, htrace, hcp]
      exact CoversWakes.same hwakes rfl rfl rfl rfl rfl
    · have ht := h.due s.trace (List.mem_append_right _ (List.mem_singleton.mpr rfl))
      rw [hcp, htrace]
      rw [← hnow] at hnew
      exact due_append policy h.due hmono (keeps_due_armed w dues ht hmono hnew)

theorem all_handled_more {ls : List Listing} {front rest : List String} {handled more : List Handled}
    (h : AllHandled (front++rest) ls handled) (hmap : more.map Handled.reference = front) :
    AllHandled rest ls (handled++more) := by
  intro l hl reference href
  rcases h l hl reference href with hp | ⟨x,hx,hr⟩
  · rcases List.mem_append.mp hp with hf | hr
    · rw [← hmap] at hf
      obtain ⟨x,hx,hxr⟩ := List.mem_map.mp hf
      exact .inr ⟨x,List.mem_append_right _ hx,hxr⟩
    · exact .inl hr
  · exact .inr ⟨x,List.mem_append_left _ hx,hr⟩

theorem pending_progress {ls : List Listing} {r : Except String Unit} {listed : List Listing}
    (hrun : Covers policy.watchesPerSpace ((ps++[s.trace]).filterMap Trace.runnable)
      s.checkpoint.runnableAfter s.checkpoint.runnableDone)
    (harmed : Covers policy.watchesPerSpace ((ps++[s.trace]).filterMap Trace.armed)
      s.checkpoint.allAfter s.checkpoint.allDone)
    (hdue : ∀ t ∈ ps++[s.trace], KeepsDue policy.tickMs s.checkpoint.nextDueMs t)
    (hlisted : (ps++[s.trace]).filterMap Trace.listed = listed) (hsub : ls.Sublist listed)
    (hinside : Inside s.checkpoint ls)
    (hall : AllHandled s.checkpoint.wakePending ls ((ps++[s.trace]).flatMap Trace.handled))
    (hstep : PendingStep policy s.checkpoint.wakePending s s' r) :
    (r = .ok () → Progress policy (closePage s'.checkpoint) (ps++[s'.trace])) ∧
      (∀ e, r = .error e → Progress policy s'.checkpoint (ps++[s'.trace])) := by
  obtain ⟨front,rest,handled,nextDueMs,u,hsplit,hr,hmap,hcp,htrace,hmono,hnew⟩ := hstep.parts
  obtain ⟨first,l,hls,hopen,hnext,hcomplete,hlists⟩ := hinside
  have hrun' : Covers policy.watchesPerSpace ((ps++[s'.trace]).filterMap Trace.runnable)
      s.checkpoint.runnableAfter s.checkpoint.runnableDone := by
    rw [List.filterMap_append] at hrun ⊢
    rw [htrace]
    exact hrun
  have harmed' : Covers policy.watchesPerSpace ((ps++[s'.trace]).filterMap Trace.armed)
      s.checkpoint.allAfter s.checkpoint.allDone := by
    rw [List.filterMap_append] at harmed ⊢
    rw [htrace]
    exact harmed
  have hlisted' : (ps++[s'.trace]).filterMap Trace.listed = listed := by
    rw [← hlisted, List.filterMap_append, List.filterMap_append, htrace]
    rfl
  have hdue' : ∀ t ∈ ps++[s'.trace], KeepsDue policy.tickMs nextDueMs t := by
    have ht := hdue s.trace (List.mem_append_right _ (List.mem_singleton.mpr rfl))
    rw [htrace]
    exact due_append policy hdue hmono (keeps_due_handled policy handled ht hmono hnew s.trace.listed)
  have hall' : AllHandled rest ls ((ps++[s'.trace]).flatMap Trace.handled) := by
    rw [hsplit] at hall
    have hmore := all_handled_more hall hmap
    rw [List.flatMap_append] at hmore ⊢
    rw [htrace]
    simpa using hmore
  have stays : rest ≠ [] → Progress policy s'.checkpoint (ps++[s'.trace]) := by
    intro hne
    rw [hcp]
    exact ⟨hrun',harmed',⟨ls,by rw [hlisted']; exact hsub,
      .inside hne ⟨first,l,hls,hopen,hnext,hcomplete,hlists⟩,hall'⟩,hdue'⟩
  constructor
  · intro _
    by_cases hne : rest = []
    · have hclose : closePage s'.checkpoint = { s'.checkpoint with
          wakeCursor := s'.checkpoint.wakePageCursor
          wakePageCursor := none
          wakesDone := s'.checkpoint.wakePageComplete } := by
        apply if_pos
        rw [hcp]
        exact hne
      rw [hclose, hcp]
      refine ⟨hrun',harmed',⟨ls,by rw [hlisted']; exact hsub,?_,?_⟩,hdue'⟩
      · cases hdone : l.page.complete with
        | true =>
          rw [hdone] at hcomplete
          exact .ended hne hcomplete.symm ⟨first,l,hls,hlists,hdone⟩
        | false =>
          rw [hdone] at hcomplete
          refine .between hne hcomplete.symm ?_
          show ListsTo none ls s.checkpoint.wakePageCursor
          rw [hls, ← hnext]
          exact lists_snoc hlists
      · exact hall'
    · have hclose : closePage s'.checkpoint = s'.checkpoint := by
        apply if_neg
        rw [hcp]
        exact hne
      rw [hclose]
      exact stays hne
  · intro e he
    exact stays (hr e he)

/-- The end of `scanWakes`, after the pending wakes of its page. -/
def pageEnd : Scan × Except String Unit → Scan × Except String Unit
  | (s,.error e) => (s,.error e)
  | (s,.ok ()) => ({ s with checkpoint := closePage s.checkpoint },.ok ())

theorem wakes_progress (hnone : s.trace.listed = none) (h : Progress policy s.checkpoint (ps++[s.trace])) :
    Progress policy (scanWakes policy adapters answers s).1.checkpoint
      (ps++[(scanWakes policy adapters answers s).1.trace]) := by
  unfold scanWakes
  split
  · exact h
  next hgo =>
  have hopen : s.checkpoint.wakesDone = false := by
    simpa using fun hd => hgo (.inl hd)
  have close : ∀ (t : Scan) (ls : List Listing) (listed : List Listing),
      Covers policy.watchesPerSpace ((ps++[t.trace]).filterMap Trace.runnable)
        t.checkpoint.runnableAfter t.checkpoint.runnableDone →
      Covers policy.watchesPerSpace ((ps++[t.trace]).filterMap Trace.armed)
        t.checkpoint.allAfter t.checkpoint.allDone →
      (∀ x ∈ ps++[t.trace], KeepsDue policy.tickMs t.checkpoint.nextDueMs x) →
      (ps++[t.trace]).filterMap Trace.listed = listed → ls.Sublist listed → Inside t.checkpoint ls →
      AllHandled t.checkpoint.wakePending ls ((ps++[t.trace]).flatMap Trace.handled) →
      Progress policy
        (pageEnd (processPending policy adapters answers t.checkpoint.wakePending t)).1.checkpoint
        (ps++[(pageEnd
          (processPending policy adapters answers t.checkpoint.wakePending t)).1.trace]) := by
    intro t ls listed h1 h2 h3 h4 h5 h6 h7
    obtain ⟨hok,herror⟩ := pending_progress policy h1 h2 h3 h4 h5 h6 h7
      (process_pending_spec policy adapters answers t.checkpoint.wakePending t rfl)
    generalize processPending policy adapters answers t.checkpoint.wakePending t = x at hok herror ⊢
    obtain ⟨s',r⟩ := x
    cases r with
    | error e => exact herror e rfl
    | ok u => exact hok rfl
  by_cases hempty : s.checkpoint.wakePending = []
  · unfold listPage
    rw [if_pos hempty]
    obtain ⟨ls,hsub,hpos,hall⟩ := h.wakes
    rw [List.filterMap_append, List.filterMap_cons_none hnone, List.filterMap_nil, List.append_nil] at hsub
    cases hlist : answers.list s.checkpoint.wakeCursor with
    | error e =>
      cases e with
      | other m => exact h
      | versionConflict m =>
        -- The listing changed: it starts again from its first page.
        refine ⟨h.runnable,h.armed,⟨[],List.nil_sublist _,?_,?_⟩,h.due⟩
        · exact .between hempty hopen (.here none)
        · exact fun l hl => absurd hl List.not_mem_nil
    | ok page =>
      have hbetween : ListsTo none ls s.checkpoint.wakeCursor := by
        cases hpos with
        | between _ _ hb => exact hb
        | inside hp _ => exact absurd hempty hp
        | ended _ hd _ => rw [hopen] at hd; cases hd
      have hrun := h.runnable
      have harmed := h.armed
      have hdue := h.due
      rw [List.filterMap_append] at hrun harmed
      refine close
        { checkpoint := { s.checkpoint with
            wakePending := page.items
            wakePageCursor := page.nextCursor
            wakePageComplete := page.complete }
          report := { s.report with wakesScanned := page.scanned }
          trace := { s.trace with listed := some ⟨s.checkpoint.wakeCursor,page⟩ } }
        (ls++[⟨s.checkpoint.wakeCursor,page⟩])
        (ps.filterMap Trace.listed++[⟨s.checkpoint.wakeCursor,page⟩]) ?_ ?_ ?_ ?_
        (hsub.append (List.Sublist.refl _)) ⟨ls,_,rfl,hopen,rfl,rfl,hbetween⟩ ?_
      · rw [List.filterMap_append]
        exact hrun
      · rw [List.filterMap_append]
        exact harmed
      · have ht := hdue s.trace (List.mem_append_right _ (List.mem_singleton.mpr rfl))
        exact due_append policy hdue (fun _ h => h) ⟨ht.rechecks,ht.armed,ht.runnable,ht.pending⟩
      · rw [List.filterMap_append]
        rfl
      intro l hl reference href
      rcases List.mem_append.mp hl with hl | hl
      · rcases hall l hl reference href with hp | ⟨x,hx,hr⟩
        · rw [hempty] at hp
          exact absurd hp List.not_mem_nil
        · refine .inr ⟨x,?_,hr⟩
          rw [List.flatMap_append] at hx ⊢
          exact hx
      · rw [List.mem_singleton.mp hl] at href
        exact .inl href
  · unfold listPage
    rw [if_neg hempty]
    obtain ⟨ls,hsub,hpos,hall⟩ := h.wakes
    have hinside : Inside s.checkpoint ls := by
      cases hpos with
      | between hp _ _ => exact absurd hp hempty
      | inside _ hi => exact hi
      | ended hp _ _ => exact absurd hp hempty
    exact close s ls _ h.runnable h.armed h.due rfl hsub hinside hall

theorem sections_progress (hrun : s.trace.runnable = none) (harmed : s.trace.armed = none)
    (hlisted : s.trace.listed = none) (hnow : s.trace.nowMs = answers.nowMs)
    (h : Progress policy s.checkpoint (ps++[s.trace])) : Progress policy
    (scanSections policy adapters answers s).1.checkpoint
    (ps++[(scanSections policy adapters answers s).1.trace]) := by
  have hspec := scan_runnable_spec policy answers s
  have hfirst := runnable_progress policy answers hrun hnow h hspec
  have hkeep : (scanRunnable policy answers s).1.trace.armed = none ∧
      (scanRunnable policy answers s).1.trace.listed = none ∧
      (scanRunnable policy answers s).1.trace.nowMs = answers.nowMs := by
    cases hspec with
    | same hcp htrace => rw [htrace]; exact ⟨harmed,hlisted,hnow⟩
    | walked w dues after finished nextDueMs htrace => rw [htrace]; exact ⟨harmed,hlisted,hnow⟩
  unfold scanSections
  generalize scanRunnable policy answers s = x at hfirst hkeep ⊢
  obtain ⟨s₁,r₁⟩ := x
  cases r₁ with
  | error e => exact hfirst
  | ok u =>
    have hspec₂ := scan_armed_spec policy adapters answers s₁
    have hsecond := armed_progress policy answers hkeep.1 hkeep.2.2 hfirst hspec₂
    have hkeep₂ : (scanArmed policy adapters answers s₁).1.trace.listed = none := by
      cases hspec₂ with
      | same hcp htrace => rw [htrace]; exact hkeep.2.1
      | walked w dues finished nextDueMs htrace => rw [htrace]; exact hkeep.2.1
    simp only
    generalize scanArmed policy adapters answers s₁ = y at hsecond hkeep₂ ⊢
    obtain ⟨s₂,r₂⟩ := y
    cases r₂ with
    | error e => exact hsecond
    | ok u => exact wakes_progress policy adapters answers hkeep₂ hsecond

theorem rechecks_progress (rechecks : List Recheck)
    (h : Progress policy s.checkpoint (ps++[s.trace])) (hrun : s.trace.runnable = none)
    (harmed : s.trace.armed = none) (hlisted : s.trace.listed = none)
    (hnow : s.trace.nowMs = answers.nowMs) : Progress policy
    (scanRechecks answers rechecks s).checkpoint (ps++[(scanRechecks answers rechecks s).trace]) ∧
    (scanRechecks answers rechecks s).trace.runnable = none ∧
    (scanRechecks answers rechecks s).trace.armed = none ∧
    (scanRechecks answers rechecks s).trace.listed = none ∧
    (scanRechecks answers rechecks s).trace.nowMs = answers.nowMs := by
  unfold scanRechecks
  induction rechecks generalizing s with
  | nil => exact ⟨h,hrun,harmed,hlisted,hnow⟩
  | cons r rechecks ih =>
    rw [List.foldl_cons]
    by_cases hdue : r.dueAtMs ≤ answers.nowMs
    · rw [if_pos hdue]
      exact ih h hrun harmed hlisted hnow
    rw [if_neg hdue]
    have hmono : ∀ d, Kept s.checkpoint.nextDueMs d → Kept (minDue s.checkpoint.nextDueMs r.dueAtMs) d :=
      fun d hd => kept_min _ hd
    have hwakes := h.wakes
    have hwalks := h.runnable
    have harms := h.armed
    rw [List.filterMap_append] at hwakes hwalks harms
    rw [List.flatMap_append] at hwakes
    refine ih ⟨?_,?_,?_,?_⟩ hrun harmed hlisted hnow
    · rw [List.filterMap_append]
      exact hwalks
    · rw [List.filterMap_append]
      exact harms
    · rw [List.filterMap_append, List.flatMap_append]
      exact CoversWakes.same hwakes rfl rfl rfl rfl rfl
    · have ht := h.due s.trace (List.mem_append_right _ (List.mem_singleton.mpr rfl))
      refine due_append policy h.due hmono ⟨?_,?_,?_,?_⟩
      · intro d hd
        rcases List.mem_append.mp hd with hd | hd
        · exact hmono d (ht.rechecks d hd)
        · rw [List.mem_singleton.mp hd]
          exact kept_new ..
      · exact fun d hd hlt => hmono d (ht.armed d hd hlt)
      · exact fun d hd => hmono _ (ht.runnable d hd)
      · exact fun x hx n hs hlt => hmono _ (ht.pending x hx n hs hlt)

end Passes

theorem sections_generation (s : Scan) :
    (scanSections policy adapters answers s).1.checkpoint.generation = s.checkpoint.generation := by
  have hrun : (scanRunnable policy answers s).1.checkpoint.generation = s.checkpoint.generation := by
    cases scan_runnable_spec policy answers s with
    | same hcp htrace => rw [hcp]
    | walked w dues after finished nextDueMs htrace hcp => rw [hcp]
  unfold scanSections
  generalize scanRunnable policy answers s = x at hrun ⊢
  obtain ⟨s₁,r₁⟩ := x
  cases r₁ with
  | error e => exact hrun
  | ok u =>
    have harmed : (scanArmed policy adapters answers s₁).1.checkpoint.generation =
        s₁.checkpoint.generation := by
      cases scan_armed_spec policy adapters answers s₁ with
      | same hcp htrace => rw [hcp]
      | walked w dues finished nextDueMs htrace hcp => rw [hcp]
    simp only at hrun ⊢
    generalize scanArmed policy adapters answers s₁ = y at harmed ⊢
    obtain ⟨s₂,r₂⟩ := y
    cases r₂ with
    | error e => exact harmed.trans hrun
    | ok u =>
      refine Eq.trans ?_ (harmed.trans hrun)
      show (scanWakes policy adapters answers s₂).1.checkpoint.generation = s₂.checkpoint.generation
      unfold scanWakes
      split
      · rfl
      have hlist : (listPage answers s₂).1.checkpoint.generation = s₂.checkpoint.generation := by
        unfold listPage
        split
        · split <;> rfl
        · rfl
      generalize listPage answers s₂ = z at hlist ⊢
      obtain ⟨s₃,r₃⟩ := z
      cases r₃ with
      | error e => exact hlist
      | ok u =>
        obtain ⟨front,rest,handled,n,u',-,-,-,hcp,-⟩ :=
          (process_pending_spec policy adapters answers s₃.checkpoint.wakePending s₃ rfl).parts
        simp only
        generalize processPending policy adapters answers s₃.checkpoint.wakePending s₃ = w at hcp ⊢
        obtain ⟨s₄,r₄⟩ := w
        have hgen : s₄.checkpoint.generation = s₂.checkpoint.generation := by
          rw [hcp]
          exact hlist
        cases r₄ with
        | error e => exact hgen
        | ok u =>
          show (closePage s₄.checkpoint).generation = _
          unfold closePage
          split <;> exact hgen

theorem rechecks_generation (rechecks : List Recheck) (s : Scan) :
    (scanRechecks answers rechecks s).checkpoint.generation = s.checkpoint.generation := by
  unfold scanRechecks
  induction rechecks generalizing s with
  | nil => rfl
  | cons r rechecks ih =>
    rw [List.foldl_cons, ih]
    split <;> rfl

structure SameEntry (e e' : Entry) : Prop where
  id : e'.id = e.id
  slot : e'.slot = e.slot
  version : e'.version = e.version
  dirty : e'.dirty = e.dirty
  reconciled : e'.reconciled = e.reconciled

structure Walked (policy : AttentionPolicy) (e e' : Entry) (t : Trace) (complete : Bool) : Prop where
  generation : e'.checkpoint.generation = e.dirty
  progress : ∀ ps, Progress policy (resumed e) ps → Progress policy e'.checkpoint (ps++[t])
  finished : complete = true → e'.checkpoint.complete = true ∧
    ∀ d, Kept e'.checkpoint.nextDueMs d → e'.registration.nextCheckMs ≤ d

theorem resumed_generation (e : Entry) : (resumed e).generation = e.dirty := by
  unfold resumed
  split
  · rfl
  · next h =>
    push Not at h
    exact h.1

def saysComplete (r : Except String AttentionReport) : Bool :=
  r.toOption.any AttentionReport.scanComplete

theorem scan_inner_spec (e : Entry) :
    SameEntry e (scanInner policy adapters answers e).1 ∧
      (((scanInner policy adapters answers e).1.checkpoint = e.checkpoint ∧
        saysComplete (scanInner policy adapters answers e).2.2 = false) ∨
      Walked policy e (scanInner policy adapters answers e).1 (scanInner policy adapters answers e).2.1
        (saysComplete (scanInner policy adapters answers e).2.2)) := by
  unfold scanInner
  split
  · exact ⟨⟨rfl,rfl,rfl,rfl,rfl⟩,.inl ⟨rfl,rfl⟩⟩
  cases answers.config with
  | error err => exact ⟨⟨rfl,rfl,rfl,rfl,rfl⟩,.inl ⟨rfl,rfl⟩⟩
  | ok found =>
    cases found with
    | none => exact ⟨⟨rfl,rfl,rfl,rfl,rfl⟩,.inl ⟨rfl,rfl⟩⟩
    | some cfg =>
      simp only
      split
      · exact ⟨⟨rfl,rfl,rfl,rfl,rfl⟩,.inl ⟨rfl,rfl⟩⟩
      have hprogress : ∀ ps, Progress policy (resumed e) ps →
          Progress policy (scanSections policy adapters answers (scanRechecks answers e.rechecks
            ⟨resumed e,AttentionReport.empty,Trace.start answers.nowMs⟩)).1.checkpoint
          (ps++[(scanSections policy adapters answers (scanRechecks answers e.rechecks
            ⟨resumed e,AttentionReport.empty,Trace.start answers.nowMs⟩)).1.trace]) := by
        intro ps hps
        have hbegin := progress_begin hps answers.nowMs
        obtain ⟨hp,h1,h2,h3,h4⟩ := rechecks_progress policy answers
          (s := ⟨resumed e,AttentionReport.empty,Trace.start answers.nowMs⟩) e.rechecks hbegin
          rfl rfl rfl rfl
        exact sections_progress policy adapters answers h1 h2 h3 h4 hp
      have hgeneration := (sections_generation policy adapters answers (scanRechecks answers
        e.rechecks ⟨resumed e,AttentionReport.empty,Trace.start answers.nowMs⟩)).trans
        ((rechecks_generation answers e.rechecks _).trans (resumed_generation e))
      generalize scanSections policy adapters answers (scanRechecks answers e.rechecks
        ⟨resumed e,AttentionReport.empty,Trace.start answers.nowMs⟩) = x at hprogress hgeneration ⊢
      obtain ⟨s,r⟩ := x
      cases r with
      | error err =>
        exact ⟨⟨rfl,rfl,rfl,rfl,rfl⟩,.inr ⟨hgeneration,hprogress,fun h => absurd h Bool.false_ne_true⟩⟩
      | ok u =>
        refine ⟨⟨rfl,rfl,rfl,rfl,rfl⟩,.inr ⟨hgeneration,hprogress,fun h => ⟨h,?_⟩⟩⟩
        intro d hd
        obtain ⟨n,hn,hle⟩ := hd
        have hcomplete : s.checkpoint.complete = true := h
        have hnext : s.checkpoint.nextDueMs = some n := hn
        show nextCheck policy answers s.checkpoint ≤ d
        unfold nextCheck
        rw [if_pos hcomplete, hnext]
        exact (min_le_left _ _).trans hle

theorem scanned_spec (e : Entry) (failedMs : ℕ) :
    SameEntry e (scanned policy adapters answers failedMs e).1 ∧
      (((scanned policy adapters answers failedMs e).1.checkpoint = e.checkpoint ∧
        (scanned policy adapters answers failedMs e).1.lastReport.scanComplete = false) ∨
      Walked policy e (scanned policy adapters answers failedMs e).1
        (scanned policy adapters answers failedMs e).2
        (scanned policy adapters answers failedMs e).1.lastReport.scanComplete) := by
  obtain ⟨hsame,hcase⟩ := scan_inner_spec policy adapters answers e
  unfold scanned
  generalize scanInner policy adapters answers e = x at hsame hcase ⊢
  obtain ⟨e',t,r⟩ := x
  obtain ⟨hid,hslot,hversion,hdirty,hreconciled⟩ := hsame
  cases r with
  | ok report =>
    refine ⟨⟨hid,hslot,hversion,hdirty,hreconciled⟩,hcase.imp id fun h => ?_⟩
    exact ⟨h.generation,h.progress,h.finished⟩
  | error err =>
    refine ⟨⟨hid,hslot,hversion,hdirty,hreconciled⟩,hcase.imp (fun h => ⟨h.1,rfl⟩) fun h => ?_⟩
    exact ⟨h.generation,h.progress,fun h => absurd h Bool.false_ne_true⟩

end Sections

end AndaBrain.Attention
