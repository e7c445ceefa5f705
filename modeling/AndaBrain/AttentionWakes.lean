import AndaBrain.AttentionVisits
import AndaBrain.AttentionProgress
import Mathlib.Data.List.ReduceOption

/-!
# The wakes behind one that cannot be read

A scan takes the pending wakes from the head of the stored list, and a head that `read_wake`
refuses stays where it is.
-/

set_option autoImplicit false

namespace AndaBrain.Attention

structure Wakes where
  listing : Option String → WakePage
  bounded : ∀ c, (listing c).items.length ≤ 200
  readable : String → Bool

inductive Pages (listing : Option String → WakePage) : Option String → List WakePage → Prop
  | last (c : Option String) (h : (listing c).complete = true) : Pages listing c [listing c]
  | more (c : Option String) (ps : List WakePage) (h : (listing c).complete = false)
      (hrest : Pages listing (listing c).nextCursor ps) : Pages listing c (listing c::ps)

def unitsOf (page : WakePage) : List (Option String) := page.items.map some++[none]

def units (pages : List WakePage) : List (Option String) := pages.flatMap unitsOf

def listedItems (pages : List WakePage) : List String := pages.flatMap WakePage.items

structure Served (a : ScanAnswers) (row : WatchRow) : Prop where
  generation : row.generation.isSome = true
  marker : ∃ old, (a.row row.id).marker = .ok old
  session : (a.row row.id).session = .ok ()
  markerPut : (a.row row.id).markerPut = .ok ()

structure Steady (w : Wakes) (cfg : AttentionConfig) (a : ScanAnswers) : Prop where
  config : a.config = .ok (some cfg)
  runnable : ∀ after, ∃ rows, a.runnable after = .ok rows ∧ ∀ row ∈ rows, Served a row
  armed : ∀ after, ∃ rows, a.armed after = .ok rows
  time : a.wakesLate = false ∧ ∀ reference, (a.wake reference).late = false
  list : ∀ c, a.list c = .ok (w.listing c)
  read : ∀ reference, (a.wake reference).read.isOk = w.readable reference
  marker : ∀ reference, ∃ old, (a.wake reference).marker = .ok old
  markerPut : ∀ reference, (a.wake reference).markerPut = .ok ()

theorem pages_parts {listing : Option String → WakePage} {c : Option String} {pages : List WakePage}
    (h : Pages listing c pages) : ∃ ps, pages = listing c::ps ∧
    ((listing c).complete = true → ps = []) ∧
    ((listing c).complete = false → Pages listing (listing c).nextCursor ps) := by
  cases h with
  | last _ hcomplete => exact ⟨[],rfl,fun _ => rfl,fun h => absurd (hcomplete.symm.trans h) (by decide)⟩
  | more _ ps hcomplete hrest =>
    exact ⟨ps,rfl,fun h => absurd (hcomplete.symm.trans h) (by decide),fun _ => hrest⟩

section Runs
variable (host : Host) (policy : AttentionPolicy) (adapters : Adapters)

def handledIn (failedMs : ℕ) (id : String) : Store → List ScanAnswers → List String
  | _, [] => []
  | st, a::as =>
    ((host.entry st id).toOption.join.elim [] fun e =>
      (scanned policy adapters a failedMs e).2.handled.map Handled.reference)++
      handledIn failedMs id (scan policy adapters a host failedMs .done st id).1 as

end Runs

section Standing

def LeftFrom (w : Wakes) (c : Option String) (left : List (Option String)) : Prop :=
  ∃ pages, Pages w.listing c pages ∧ left = units pages

inductive Left (w : Wakes) (cp : Checkpoint) : List (Option String) → Prop
  | between (left : List (Option String)) (hpending : cp.wakePending = []) (hdone : cp.wakesDone = false)
      (h : LeftFrom w cp.wakeCursor left) : Left w cp left
  | inside (rest : List (Option String)) (hpending : cp.wakePending ≠ [])
      (hlen : cp.wakePending.length ≤ 200) (hdone : cp.wakesDone = false)
      (hlast : cp.wakePageComplete = true → rest = [])
      (hmore : cp.wakePageComplete = false → LeftFrom w cp.wakePageCursor rest) :
      Left w cp (cp.wakePending.map some++none::rest)
  | ended (hpending : cp.wakePending = []) (hdone : cp.wakesDone = true) : Left w cp []

def AllReadable (w : Wakes) (us : List (Option String)) : Prop :=
  ∀ reference, some reference ∈ us → w.readable reference = true

structure Consumes (w : Wakes) (left rest : List (Option String)) (handled : List String) : Prop where
  parts : ∃ front, left = front++rest ∧ handled = front.reduceOption ∧ AllReadable w front ∧
    (front = [] → left ≠ [] → ∃ b, w.readable b = false ∧ left.head? = some (some b))

variable (policy : AttentionPolicy) (adapters : Adapters) {w : Wakes} {cfg : AttentionConfig}
  {a : ScanAnswers}

theorem advance_row_ok (row : WatchRow) (report : AttentionReport) (h : Served a row) :
    ∃ report', advanceRow a row report = .ok report' := by
  obtain ⟨old,hmarker⟩ := h.marker
  obtain ⟨generation,hgen⟩ := Option.isSome_iff_exists.mp h.generation
  unfold advanceRow
  simp only [hmarker, hgen, h.session, h.markerPut, bind, Except.bind, Option.elim_some]
  split
  · exact ⟨_,rfl⟩
  · split <;> exact ⟨_,rfl⟩

theorem advance_rows_ok (rows : List WatchRow) (s : Scan) (h : ∀ row ∈ rows, Served a row) :
    ∃ exhausted, (advanceRows policy a rows s).2 = .ok exhausted := by
  induction rows generalizing s with
  | nil => exact ⟨false,rfl⟩
  | cons row rows ih =>
    unfold advanceRows
    split
    · exact ⟨true,rfl⟩
    obtain ⟨report,hreport⟩ := advance_row_ok row
      { s.report with watchesScanned := s.report.watchesScanned+1 } (h row (List.mem_cons_self ..))
    rw [hreport]
    exact ih _ fun row hrow => h row (List.mem_cons_of_mem _ hrow)

theorem scan_runnable_ok (h : Steady w cfg a) (s : Scan) : (scanRunnable policy a s).2 = .ok () := by
  unfold scanRunnable
  split
  · rfl
  obtain ⟨rows,hrows,hserved⟩ := h.runnable s.checkpoint.runnableAfter
  rw [hrows]
  simp only
  obtain ⟨exhausted,hok⟩ := advance_rows_ok policy rows { s with trace := { s.trace with
    runnable := some ⟨s.checkpoint.runnableAfter,rows.map WatchRow.id,0⟩ } } hserved
  generalize advanceRows policy a rows _ = x at hok ⊢
  obtain ⟨s',r⟩ := x
  simp only at hok
  subst hok
  simp only
  split <;> rfl

theorem scan_armed_ok (h : Steady w cfg a) (s : Scan) : (scanArmed policy adapters a s).2 = .ok () := by
  unfold scanArmed
  split
  · rfl
  · obtain ⟨rows,hrows⟩ := h.armed s.checkpoint.allAfter
    rw [hrows]

theorem process_wake_ok (h : Steady w cfg a) (s : Scan) (reference : String)
    (hread : w.readable reference = true) : ∃ s', processWake policy adapters a s reference = .ok s' := by
  have hisok := h.read reference
  obtain ⟨old,hmarker⟩ := h.marker reference
  have hput := h.markerPut reference
  have hblocked : ∀ wake due, ∃ s', resumeBlocked policy s (a.wake reference) wake due = .ok s' := by
    intro wake due
    unfold resumeBlocked
    simp only [hmarker, hput, bind, Except.bind]
    split
    · split <;> exact ⟨_,rfl⟩
    · exact ⟨_,rfl⟩
  have hidle : ∀ wake, ∃ s', processIdle policy adapters s (a.wake reference) wake = .ok s' := by
    intro wake
    unfold processIdle
    split
    · exact ⟨_,rfl⟩
    · exact ⟨_,rfl⟩
    · exact hblocked wake _
    · exact hblocked wake _
    · exact ⟨s,rfl⟩
  rw [hread] at hisok
  unfold processWake
  simp only [bind, Except.bind]
  cases hr : (a.wake reference).read with
  | error e =>
    rw [hr] at hisok
    cases hisok
  | ok wake =>
    simp only
    split
    · split <;> exact ⟨_,rfl⟩
    · obtain ⟨s',hs⟩ := hidle wake
      rw [hs]
      exact ⟨_,rfl⟩

theorem process_wake_fails (h : Steady w cfg a) (s : Scan) (reference : String)
    (hread : w.readable reference = false) : ∃ e, processWake policy adapters a s reference = .error e := by
  have hisok := h.read reference
  rw [hread] at hisok
  unfold processWake
  simp only [bind, Except.bind]
  cases hr : (a.wake reference).read with
  | error e => exact ⟨e,rfl⟩
  | ok wake =>
    rw [hr] at hisok
    cases hisok

structure TakesFrom (w : Wakes) (items : List String) (s s' : Scan) (spent : Bool)
    (r : Except String Unit) : Prop where
  parts : ∃ front rest nextDueMs runningUntilMs, items = front++rest ∧
    (∀ b ∈ front, w.readable b = true) ∧
    s'.checkpoint = ({ s.checkpoint with wakePending := rest }).timed nextDueMs runningUntilMs ∧
    s'.trace.handled.map Handled.reference = s.trace.handled.map Handled.reference++front ∧
    (∀ e, r = .error e → rest ≠ []) ∧
    (front = [] → rest ≠ [] → spent = false → ∃ b, w.readable b = false ∧ rest.head? = some b)

theorem process_pending_takes (h : Steady w cfg a) (items : List String) (s : Scan)
    (hs : s.checkpoint.wakePending = items) : TakesFrom w items s
    (processPending policy adapters a items s).1 (budgetSpent adapters s.report)
    (processPending policy adapters a items s).2 := by
  have untouched : ∀ (s s' : Scan) (items : List String) (spent : Bool) (r : Except String Unit),
      s.checkpoint.wakePending = items → s'.checkpoint = s.checkpoint → s'.trace = s.trace →
      (∀ e, r = .error e → items ≠ []) →
      (items ≠ [] → spent = false → ∃ b, w.readable b = false ∧ items.head? = some b) →
      TakesFrom w items s s' spent r := by
    intro s s' items spent r hs hcp htrace hr hstuck
    refine ⟨[],items,s.checkpoint.nextDueMs,s.checkpoint.runningUntilMs,rfl,by simp,?_,?_,hr,
      fun _ => hstuck⟩
    · rw [hcp, ← hs]
      rfl
    · rw [htrace, List.append_nil]
  induction items generalizing s with
  | nil => exact untouched s s [] _ _ hs rfl rfl (fun e h => by cases h) fun h => absurd rfl h
  | cons reference rest ih =>
    unfold processPending
    rw [if_neg (by simp [h.time.2 reference])]
    by_cases hspent : budgetSpent adapters s.report = true
    · rw [if_pos hspent]
      refine untouched s _ _ _ _ hs rfl rfl (fun e h => by cases h) fun _ hfalse => ?_
      rw [hspent] at hfalse
      cases hfalse
    rw [if_neg hspent]
    by_cases hread : w.readable reference = true
    · obtain ⟨t,ht⟩ := process_wake_ok policy adapters h s reference hread
      obtain ⟨n,u,nowMs,wake,hcp,htrace,-,-⟩ := (process_wake_spec policy adapters a s t reference ht).parts
      rw [ht]
      obtain ⟨front,tail,n',u',hsplit,hreadable,hcp',hhandled,hr,-⟩ :=
        (ih { t with checkpoint := { t.checkpoint with wakePending := rest } } rfl).parts
      refine ⟨reference::front,tail,n',u',by rw [hsplit]; rfl,?_,?_,?_,hr,fun h => by cases h⟩
      · intro b hb
        rcases List.mem_cons.mp hb with rfl | hb
        · exact hread
        · exact hreadable b hb
      · rw [hcp', hcp]
        rfl
      · rw [hhandled, htrace]
        simp
    · have hfails : w.readable reference = false := by simpa using hread
      obtain ⟨e,he⟩ := process_wake_fails policy adapters h s reference hfails
      rw [he]
      exact untouched s s _ _ _ hs rfl rfl (fun _ _ => List.cons_ne_nil reference rest)
        fun _ _ => ⟨reference,hfails,rfl⟩

theorem close_left {items : List String} {tail : List (Option String)} {s s' : Scan}
    {r : Except String Unit} (hopen : s.checkpoint.wakesDone = false) (hlen : items.length ≤ 200)
    (hlast : s.checkpoint.wakePageComplete = true → tail = [])
    (hmore : s.checkpoint.wakePageComplete = false → LeftFrom w s.checkpoint.wakePageCursor tail)
    (hfresh : s.trace.handled = []) (h : TakesFrom w items s s' false r) : ∃ left, Left w
    (closePage s'.checkpoint) left ∧ Consumes w (items.map some++none::tail) left
    (s'.trace.handled.map Handled.reference) ∧ ∀ e, r = .error e → closePage s'.checkpoint =
    s'.checkpoint := by
  obtain ⟨front,rest,n,u,rfl,hreadable,hcp,hhandled,hr,hstuck⟩ := h.parts
  rw [hfresh, List.map_nil, List.nil_append] at hhandled
  have hall : AllReadable w (front.map some) := by
    intro b hb
    obtain ⟨c,hc,hcb⟩ := List.mem_map.mp hb
    cases hcb
    exact hreadable _ hc
  have hsome : (front.map some).reduceOption = front := by
    simp [List.reduceOption]
  rw [hcp, hhandled]
  by_cases hrest : rest = []
  · subst hrest
    have hconsumed : Consumes w ((front++[]).map some++none::tail) tail front := by
      refine ⟨front.map some++[none],by simp,?_,?_,fun h => by simp at h⟩
      · rw [List.reduceOption_append, hsome]
        simp [List.reduceOption]
      intro b hb
      rcases List.mem_append.mp hb with hb | hb
      · exact hall b hb
      · simp at hb
    have hclose : closePage (({ s.checkpoint with wakePending := [] }).timed n u) =
        { (({ s.checkpoint with wakePending := [] }).timed n u) with
          wakeCursor := s.checkpoint.wakePageCursor
          wakePageCursor := none
          wakesDone := s.checkpoint.wakePageComplete } := if_pos rfl
    refine ⟨tail,?_,hconsumed,fun e he => absurd rfl (hr e he)⟩
    rw [hclose]
    cases hcomplete : s.checkpoint.wakePageComplete with
    | true =>
      rw [hlast hcomplete]
      exact .ended rfl rfl
    | false => exact .between tail rfl rfl (hmore hcomplete)
  · have hclose : closePage (({ s.checkpoint with wakePending := rest }).timed n u) =
        ({ s.checkpoint with wakePending := rest }).timed n u := if_neg hrest
    rw [hclose]
    refine ⟨rest.map some++none::tail,.inside tail hrest ?_ hopen hlast hmore,?_,fun _ _ => rfl⟩
    · exact (by simp : rest.length ≤ (front++rest).length).trans hlen
    refine ⟨front.map some,by simp,hsome.symm,hall,fun h _ => ?_⟩
    obtain ⟨b,hb,hhead⟩ := hstuck (by simpa using h) hrest rfl
    refine ⟨b,hb,?_⟩
    rw [List.map_eq_nil_iff.mp h]
    simp [hhead]

theorem budget_fresh (report : AttentionReport) (h : report.actionsProcessed = 0) :
    budgetSpent adapters report = false := by
  unfold budgetSpent
  rw [h]
  cases adapters.actions with
  | none => rfl
  | some perPass =>
    have := perPass.2.1
    simp only [Option.any_some, decide_eq_false_iff_not]
    omega

theorem scan_wakes_consumes (h : Steady w cfg a) (s : Scan) {left : List (Option String)}
    (hleft : Left w s.checkpoint left) (hfresh : s.trace.handled = [])
    (hreport : s.report.actionsProcessed = 0) : ∃ rest, Left w
    (scanWakes policy adapters a s).1.checkpoint rest ∧ Consumes w left rest
    ((scanWakes policy adapters a s).1.trace.handled.map Handled.reference) := by
  have page : ∀ (t : Scan) (tail : List (Option String)), t.checkpoint.wakesDone = false →
      t.checkpoint.wakePending.length ≤ 200 →
      (t.checkpoint.wakePageComplete = true → tail = []) →
      (t.checkpoint.wakePageComplete = false → LeftFrom w t.checkpoint.wakePageCursor tail) →
      t.trace.handled = [] → t.report.actionsProcessed = 0 →
      ∃ rest, Left w
          (pageEnd (processPending policy adapters a t.checkpoint.wakePending t)).1.checkpoint rest ∧
        Consumes w (t.checkpoint.wakePending.map some++none::tail) rest
          ((pageEnd (processPending policy adapters a
            t.checkpoint.wakePending t)).1.trace.handled.map Handled.reference) := by
    intro t tail hopen hlen hlast hmore hfresh hreport
    have htakes := process_pending_takes policy adapters h
      t.checkpoint.wakePending t rfl
    rw [budget_fresh adapters t.report hreport] at htakes
    obtain ⟨rest,hrest,hconsumes,herror⟩ := close_left hopen hlen hlast hmore hfresh htakes
    generalize processPending policy adapters a t.checkpoint.wakePending t = x at *
    obtain ⟨s',r⟩ := x
    cases r with
    | error e =>
      rw [herror e rfl] at hrest
      exact ⟨rest,hrest,hconsumes⟩
    | ok u => exact ⟨rest,hrest,hconsumes⟩
  unfold scanWakes
  cases hleft with
  | ended hpending hdone =>
    rw [if_pos (.inl hdone)]
    refine ⟨[],.ended hpending hdone,[],rfl,?_,fun b hb => absurd hb List.not_mem_nil,
      fun _ h => absurd rfl h⟩
    simp only [hfresh]
    rfl
  | inside rest hpending hlen hdone hlast hmore =>
    rw [if_neg (by simp [hdone, h.time.1])]
    unfold listPage
    rw [if_neg hpending]
    exact page s rest hdone hlen hlast hmore hfresh hreport
  | between _ hpending hdone hfrom =>
    obtain ⟨pages,hpages,rfl⟩ := hfrom
    rw [if_neg (by simp [hdone, h.time.1])]
    unfold listPage
    rw [if_pos hpending, h.list]
    have hlen := w.bounded s.checkpoint.wakeCursor
    obtain ⟨ps,hps,hlast,hmore⟩ := pages_parts hpages
    have hunits : units pages = (w.listing s.checkpoint.wakeCursor).items.map some++none::units ps := by
      simp [hps, units, unitsOf]
    rw [hunits]
    exact page _ (units ps) hdone hlen (fun hc => by rw [hlast hc]; rfl)
      (fun hc => ⟨ps,hmore hc,rfl⟩) hfresh hreport

structure SameWakes (s s' : Scan) : Prop where
  checkpoint : s'.checkpoint.wakePending = s.checkpoint.wakePending ∧
    s'.checkpoint.wakeCursor = s.checkpoint.wakeCursor ∧
    s'.checkpoint.wakePageCursor = s.checkpoint.wakePageCursor ∧
    s'.checkpoint.wakePageComplete = s.checkpoint.wakePageComplete ∧
    s'.checkpoint.wakesDone = s.checkpoint.wakesDone
  handled : s'.trace.handled = s.trace.handled
  actions : s'.report.actionsProcessed = s.report.actionsProcessed

theorem same_wakes_trans {s t u : Scan} (h : SameWakes s t) (h' : SameWakes t u) : SameWakes s u where
  checkpoint := by
    obtain ⟨h1,h2,h3,h4,h5⟩ := h.checkpoint
    obtain ⟨h1',h2',h3',h4',h5'⟩ := h'.checkpoint
    exact ⟨h1'.trans h1,h2'.trans h2,h3'.trans h3,h4'.trans h4,h5'.trans h5⟩
  handled := h'.handled.trans h.handled
  actions := h'.actions.trans h.actions

theorem left_same {s s' : Scan} {left : List (Option String)} (h : SameWakes s s')
    (hleft : Left w s.checkpoint left) : Left w s'.checkpoint left := by
  obtain ⟨h1,h2,h3,h4,h5⟩ := h.checkpoint
  cases hleft with
  | between _ hpending hdone hfrom =>
    exact .between left (h1.trans hpending) (h5.trans hdone) (by rw [h2]; exact hfrom)
  | inside rest hpending hlen hdone hlast hmore =>
    rw [← h1] at hpending hlen ⊢
    exact .inside rest hpending hlen (h5.trans hdone) (by rw [h4]; exact hlast)
      (by rw [h4, h3]; exact hmore)
  | ended hpending hdone => exact .ended (h1.trans hpending) (h5.trans hdone)

theorem advance_row_actions (row : WatchRow) (report report' : AttentionReport)
    (h : advanceRow a row report = .ok report') : report'.actionsProcessed = report.actionsProcessed := by
  unfold advanceRow at h
  simp only [bind, Except.bind] at h
  cases hmarker : (a.row row.id).marker with
  | error e => simp [hmarker] at h
  | ok old =>
    cases hgen : row.generation with
    | none => simp [hmarker, hgen] at h
    | some generation =>
      simp only [hmarker, hgen, Option.elim_some] at h
      split at h
      · cases h
        rfl
      cases hsession : (a.row row.id).session with
      | error e => simp [hsession] at h
      | ok u =>
        simp only [hsession] at h
        split at h
        · cases h
          rfl
        cases hput : (a.row row.id).markerPut with
        | error e => simp [hput] at h
        | ok u =>
          simp only [hput] at h
          cases h
          rfl

theorem advance_rows_actions (rows : List WatchRow) (s : Scan) :
    (advanceRows policy a rows s).1.report.actionsProcessed = s.report.actionsProcessed := by
  induction rows generalizing s with
  | nil => rfl
  | cons row rows ih =>
    unfold advanceRows
    split
    · rfl
    split
    · rfl
    · next report hrow =>
      have hkeep := advance_row_actions row _ report hrow
      exact (ih _).trans hkeep

theorem scan_runnable_same (s : Scan) : SameWakes s (scanRunnable policy a s).1 where
  checkpoint := by
    cases scan_runnable_spec policy a s with
    | same hcp htrace => simp [hcp]
    | walked w dues after finished n htrace hcp => simp [hcp]
  handled := by
    cases scan_runnable_spec policy a s with
    | same hcp htrace => rw [htrace]
    | walked w dues after finished n htrace hcp => rw [htrace]
  actions := by
    unfold scanRunnable
    split
    · rfl
    split
    · rfl
    next rows _ =>
    have hactions := advance_rows_actions policy (a := a) rows
      { s with trace := { s.trace with
        runnable := some ⟨s.checkpoint.runnableAfter,rows.map WatchRow.id,0⟩ } }
    simp only
    generalize advanceRows policy a rows _ = x at hactions ⊢
    obtain ⟨s',r⟩ := x
    cases r with
    | error e => exact hactions
    | ok exhausted =>
      simp only
      split <;> exact hactions

theorem armed_row_actions (s : Scan) (row : WatchRow) :
    (armedRow policy adapters a s row).report.actionsProcessed = s.report.actionsProcessed := by
  unfold armedRow
  simp only
  split <;> split <;> split <;> (try split) <;> rfl

theorem scan_armed_same (s : Scan) : SameWakes s (scanArmed policy adapters a s).1 where
  checkpoint := by
    cases scan_armed_spec policy adapters a s with
    | same hcp htrace => simp [hcp]
    | walked w dues finished n htrace hcp => simp [hcp]
  handled := by
    cases scan_armed_spec policy adapters a s with
    | same hcp htrace => rw [htrace]
    | walked w dues finished n htrace hcp => rw [htrace]
  actions := by
    have hrows : ∀ (rows : List WatchRow) (s : Scan),
        (rows.foldl (armedRow policy adapters a) s).report.actionsProcessed =
          s.report.actionsProcessed := by
      intro rows
      induction rows with
      | nil => intro s; rfl
      | cons row rows ih =>
        intro s
        rw [List.foldl_cons, ih]
        exact armed_row_actions policy adapters s row
    unfold scanArmed
    split
    · rfl
    · split
      · rfl
      · exact hrows _ _

theorem scan_rechecks_same (rechecks : List Recheck) (s : Scan) :
    SameWakes s (scanRechecks a rechecks s) := by
  unfold scanRechecks
  induction rechecks generalizing s with
  | nil => exact ⟨⟨rfl,rfl,rfl,rfl,rfl⟩,rfl,rfl⟩
  | cons r rechecks ih =>
    rw [List.foldl_cons]
    refine same_wakes_trans ?_ (ih _)
    split <;> exact ⟨⟨rfl,rfl,rfl,rfl,rfl⟩,rfl,rfl⟩

theorem scan_sections_consumes (h : Steady w cfg a) (s : Scan) {left : List (Option String)}
    (hleft : Left w s.checkpoint left) (hfresh : s.trace.handled = [])
    (hreport : s.report.actionsProcessed = 0) : ∃ rest, Left w
    (scanSections policy adapters a s).1.checkpoint rest ∧ Consumes w left rest
    ((scanSections policy adapters a s).1.trace.handled.map Handled.reference) := by
  have hrunnable := scan_runnable_same policy (a := a) s
  have hok := scan_runnable_ok policy h s
  unfold scanSections
  generalize scanRunnable policy a s = x at hrunnable hok ⊢
  obtain ⟨s₁,r₁⟩ := x
  simp only at hok hrunnable
  subst hok
  simp only
  have harmed := scan_armed_same policy adapters (a := a) s₁
  have hok := scan_armed_ok policy adapters h s₁
  generalize scanArmed policy adapters a s₁ = y at harmed hok ⊢
  obtain ⟨s₂,r₂⟩ := y
  simp only at hok harmed
  subst hok
  have hsame := same_wakes_trans hrunnable harmed
  exact scan_wakes_consumes policy adapters h s₂ (left_same hsame hleft) (hsame.handled.trans hfresh)
    (hsame.actions.trans hreport)

/-- An entry with another checkpoint, other rechecks and other times and reports. -/
def Entry.passed (e : Entry) (cp : Checkpoint) (rechecks : List Recheck)
    (lastScanMs failures nextCheckMs : ℕ) (report : AttentionReport) : Entry :=
  { e with
    checkpoint := cp
    rechecks := rechecks
    lastScanMs := lastScanMs
    failures := failures
    lastReport := report
    registration := { e.registration with nextCheckMs := nextCheckMs } }

theorem finished_valid {e : Entry} {id : String} {shard : ℕ} (cp : Checkpoint) (rechecks : List Recheck)
    (lastScanMs failures nextCheckMs : ℕ) (report : AttentionReport) (h : e.valid id shard = true)
    (hlen : rechecks.length = e.rechecks.length) (hpending : cp.wakePending.length ≤ 200)
    (hversion : e.version+1 ≤ maxCounter) :
    (Host.finished (e.passed cp rechecks lastScanMs failures nextCheckMs report)
      (e.version+1)).valid id shard = true := by
  simp only [Entry.valid, Bool.and_eq_true, decide_eq_true_eq, bne_iff_ne] at h ⊢
  obtain ⟨⟨⟨⟨⟨⟨⟨⟨⟨⟨⟨⟨⟨⟨⟨⟨h1,h2⟩,h3⟩,h4⟩,h5⟩,h6⟩,h7⟩,h8⟩,-⟩,-⟩,h11⟩,h12⟩,h13⟩,h14⟩,-⟩,h16⟩,h17⟩ := h
  refine ⟨⟨⟨⟨⟨⟨⟨⟨⟨⟨⟨⟨⟨⟨⟨⟨h1,h2⟩,h3⟩,h4⟩,h5⟩,h6⟩,h7⟩,h8⟩,Nat.succ_ne_zero _⟩,hversion⟩,h11⟩,h12⟩,?_⟩,?_⟩,
    hpending⟩,h16⟩,h17⟩
  · show (if report.scanComplete = true then e.dirty else e.reconciled) ≤ e.dirty
    split
    · exact le_refl _
    · exact h13
  · exact hlen.trans_le h14

theorem left_bounded {cp : Checkpoint} {left : List (Option String)} (h : Left w cp left) :
    cp.wakePending.length ≤ 200 := by
  cases h with
  | between _ hpending hdone hfrom => simp [hpending]
  | inside rest hpending hlen hdone hlast hmore => exact hlen
  | ended hpending hdone => simp [hpending]

theorem scanned_consumes (h : Steady w cfg a) (hpolicy : policy.enabled = true) (e : Entry)
    (henabled : e.registration.enabled = true) (hcfg : cfg = ⟨e.nativeScope,e.registration.pins⟩)
    (failedMs : ℕ) {left : List (Option String)} (hleft : Left w (resumed e) left) : ∃ cp rechecks
    lastScanMs failures nextCheckMs report rest, (scanned policy adapters a failedMs e).1 = e.passed
    cp rechecks lastScanMs failures nextCheckMs report ∧ rechecks.length = e.rechecks.length ∧
    cp.generation = e.dirty ∧ Left w cp rest ∧ Consumes w left rest
    ((scanned policy adapters a failedMs e).2.handled.map Handled.reference) := by
  have hsame := scan_rechecks_same (a := a) e.rechecks
    ⟨resumed e,AttentionReport.empty,Trace.start a.nowMs⟩
  obtain ⟨rest,hrest,hconsumes⟩ := scan_sections_consumes policy adapters h
    (scanRechecks a e.rechecks ⟨resumed e,AttentionReport.empty,Trace.start a.nowMs⟩)
    (left_same hsame hleft) hsame.handled hsame.actions
  have hgeneration := (sections_generation policy adapters a (scanRechecks a e.rechecks
    ⟨resumed e,AttentionReport.empty,Trace.start a.nowMs⟩)).trans
    ((rechecks_generation a e.rechecks _).trans (resumed_generation e))
  have hlen : (e.rechecks.map (markDue a.nowMs)).length = e.rechecks.length := List.length_map _
  unfold scanned scanInner
  rw [if_neg (by simp [hpolicy, henabled]), h.config]
  simp only
  rw [if_neg (by simp [hcfg])]
  generalize scanSections policy adapters a (scanRechecks a e.rechecks
    ⟨resumed e,AttentionReport.empty,Trace.start a.nowMs⟩) = x at hrest hconsumes hgeneration ⊢
  obtain ⟨s,r⟩ := x
  cases r with
  | error err => exact ⟨s.checkpoint,_,_,_,_,_,rest,rfl,hlen,hgeneration,hrest,hconsumes⟩
  | ok u => exact ⟨s.checkpoint,_,_,_,_,_,rest,rfl,hlen,hgeneration,hrest,hconsumes⟩

structure Attended (host : Host) (cfg : AttentionConfig) (st : Store) (id : String) (e : Entry) : Prop where
  entry : host.entry st id = .ok (some e)
  enabled : e.registration.enabled = true
  config : cfg = ⟨e.nativeScope,e.registration.pins⟩

theorem scan_consumes (h : Steady w cfg a) (hpolicy : policy.enabled = true) {host : Host} {st : Store}
    {id : String} {e : Entry} (hs : Attended host cfg st id e) (failedMs : ℕ)
    (hversion : e.version+1 ≤ maxCounter) {left : List (Option String)} (hleft : Left w (resumed e) left) :
    ∃ e' rest, Attended host cfg (scan policy adapters a host failedMs .done st id).1 id e' ∧
      e'.version = e.version+1 ∧ e'.checkpoint.generation = e'.dirty ∧ Left w e'.checkpoint rest ∧
      Consumes w left rest ((scanned policy adapters a failedMs e).2.handled.map Handled.reference) := by
  obtain ⟨cp,rechecks,lastScanMs,failures,nextCheckMs,report,rest,hentry,hlen,hgen,hrest,hconsumes⟩ :=
    scanned_consumes policy adapters h hpolicy e hs.enabled hs.config failedMs hleft
  obtain ⟨hid,hstored,hvalid⟩ := (entry_iff host st id e).mp hs.entry
  have hsame := entry_id host st id e hs.entry
  refine ⟨Host.finished (e.passed cp rechecks lastScanMs failures nextCheckMs report) (e.version+1),
    rest,⟨?_,hs.enabled,hs.config⟩,rfl,hgen,hrest,hconsumes⟩
  unfold scan
  rw [hs.entry]
  simp only
  rw [hentry]
  have hfinish : host.finish st (e.passed cp rechecks lastScanMs failures nextCheckMs report) .done =
      (st.setEntry (host.digest id)
        (Host.finished (e.passed cp rechecks lastScanMs failures nextCheckMs report) (e.version+1)),
        .ok true) := by
    have hid' : (e.passed cp rechecks lastScanMs failures nextCheckMs report).id = id := hsame
    unfold Host.finish
    rw [hid', hs.entry]
    simp only
    rw [if_neg (by simp [Entry.passed, Entry.version, Entry.dirty])]
    rw [show (e.passed cp rechecks lastScanMs failures nextCheckMs report).version = e.version from rfl,
      next_of_le hversion]
    rfl
  rw [hfinish]
  exact (entry_iff host _ id _).mpr ⟨hid,by simp,finished_valid cp rechecks lastScanMs failures
    nextCheckMs report hvalid hlen (left_bounded hrest) hversion⟩

end Standing

section Runs
variable (policy : AttentionPolicy) (adapters : Adapters) {w : Wakes} {cfg : AttentionConfig}
  {host : Host} {id : String} (failedMs : ℕ)

theorem units_items (pages : List WakePage) : (units pages).reduceOption = listedItems pages := by
  induction pages with
  | nil => rfl
  | cons page pages ih =>
    rw [units, List.flatMap_cons, List.reduceOption_append]
    rw [units] at ih
    rw [ih]
    simp [unitsOf, listedItems, List.reduceOption]

theorem mem_units {reference : String} {us : List (Option String)} :
    some reference ∈ us ↔ reference ∈ us.reduceOption := by
  simp [List.reduceOption]

theorem resumed_after {e : Entry} {rest : List (Option String)} (hgen : e.checkpoint.generation = e.dirty)
    (hrest : Left w e.checkpoint rest) :
    Left w (resumed e) rest ∨ (rest = [] ∧ resumed e = .fresh e.dirty) := by
  unfold resumed
  by_cases hcomplete : e.checkpoint.complete = true
  · rw [if_pos (.inr hcomplete)]
    cases hrest with
    | ended hpending hdone => exact .inr ⟨rfl,rfl⟩
    | between _ hpending hdone hfrom => simp [Checkpoint.complete, hdone] at hcomplete
    | inside rest hpending hlen hdone hlast hmore => simp [Checkpoint.complete, hdone] at hcomplete
  · rw [if_neg (by simp [hgen, hcomplete])]
    exact .inl hrest

theorem left_fresh {pages : List WakePage} (hpages : Pages w.listing none pages) (generation : ℕ) :
    Left w (.fresh generation) (units pages) := .between _ rfl rfl ⟨pages,hpages,rfl⟩

theorem handled_cons (st : Store) (a : ScanAnswers) (as : List ScanAnswers) (e : Entry)
    (h : host.entry st id = .ok (some e)) : handledIn host policy adapters failedMs id st (a::as) =
    (scanned policy adapters a failedMs e).2.handled.map Handled.reference++ handledIn host policy
    adapters failedMs id (scan policy adapters a host failedMs .done st id).1 as := by
  rw [handledIn, h]
  rfl

theorem run_consumes (hpolicy : policy.enabled = true) (as : List ScanAnswers)
    (has : ∀ a ∈ as, Steady w cfg a) {st : Store} {e : Entry} (hs : Attended host cfg st id e)
    (hversion : e.version+as.length ≤ maxCounter) {left : List (Option String)}
    (hleft : Left w (resumed e) left) : ∃ front rest, left = front++rest ∧ front.reduceOption ⊆
    handledIn host policy adapters failedMs id st as ∧
    (as.length ≤ front.length ∨ rest = [] ∨ ∃ b, w.readable b = false ∧ rest.head? = some (some b))
    := by
  induction as generalizing st e left with
  | nil => exact ⟨[],left,rfl,by simp,.inl (le_refl _)⟩
  | cons a as ih =>
    rw [List.length_cons] at hversion
    obtain ⟨e',rest,hs',hv,hgen,hrest,hconsumes⟩ := scan_consumes policy adapters
      (has a (List.mem_cons_self ..)) hpolicy hs failedMs (by omega) hleft
    obtain ⟨front,rfl,hhandled,-,hstuck⟩ := hconsumes.parts
    rw [handled_cons policy adapters failedMs st a as e hs.entry, hhandled]
    have stop : rest = [] ∨ (∃ b, w.readable b = false ∧ rest.head? = some (some b)) →
        ∃ front' rest', front++rest = front'++rest' ∧ front'.reduceOption ⊆ front.reduceOption++
          handledIn host policy adapters failedMs id (scan policy adapters a host failedMs .done st id).1 as ∧
        ((a::as).length ≤ front'.length ∨ rest' = [] ∨
          ∃ b, w.readable b = false ∧ rest'.head? = some (some b)) :=
      fun h => ⟨front,rest,rfl,List.subset_append_left _ _,.inr h⟩
    by_cases hend : rest = []
    · exact stop (.inl hend)
    by_cases hfront : front = []
    · subst hfront
      exact stop (.inr (hstuck rfl hend))
    have hnext : Left w (resumed e') rest := by
      rcases resumed_after hgen hrest with h | ⟨h,-⟩
      · exact h
      · exact absurd h hend
    obtain ⟨front',rest',rfl,hsub,hmeasure⟩ := ih (fun a ha => has a (List.mem_cons_of_mem _ ha)) hs'
      (by omega) hnext
    refine ⟨front++front',rest',(List.append_assoc ..).symm,?_,hmeasure.imp_left ?_⟩
    · rw [List.reduceOption_append]
      exact List.append_subset.mpr ⟨List.subset_append_left _ _,
        fun b hb => List.mem_append_right _ (hsub hb)⟩
    intro h
    have hpos := List.length_pos_of_ne_nil hfront
    rw [List.length_cons, List.length_append]
    omega

theorem run_readable (hpolicy : policy.enabled = true) {pages : List WakePage}
    (hpages : Pages w.listing none pages) (as : List ScanAnswers) (has : ∀ a ∈ as, Steady w cfg a)
    {st : Store} {e : Entry} (hs : Attended host cfg st id e)
    (hversion : e.version+as.length ≤ maxCounter) {past left : List (Option String)}
    (hleft : Left w (resumed e) left) (hunits : past++left = units pages)
    (hpast : AllReadable w past) : ∀ reference ∈ handledIn host policy adapters failedMs id st as, ∃
    front rest, front++rest = units pages ∧ AllReadable w front ∧ some reference ∈ front := by
  induction as generalizing st e past left with
  | nil => exact fun _ h => absurd h List.not_mem_nil
  | cons a as ih =>
    rw [List.length_cons] at hversion
    obtain ⟨e',rest,hs',hv,hgen,hrest,hconsumes⟩ := scan_consumes policy adapters
      (has a (List.mem_cons_self ..)) hpolicy hs failedMs (by omega) hleft
    obtain ⟨front,rfl,hhandled,hfront,-⟩ := hconsumes.parts
    have hall : AllReadable w (past++front) := by
      intro b hb
      rcases List.mem_append.mp hb with hb | hb
      · exact hpast b hb
      · exact hfront b hb
    have hsplit : (past++front)++rest = units pages := by rw [List.append_assoc, hunits]
    rw [handled_cons policy adapters failedMs st a as e hs.entry, hhandled]
    intro reference href
    rcases List.mem_append.mp href with href | href
    · exact ⟨past++front,rest,hsplit,hall,List.mem_append_right _ (mem_units.mpr href)⟩
    have htail := fun a ha => has a (List.mem_cons_of_mem _ ha)
    rcases resumed_after hgen hrest with hnext | ⟨-,hfresh⟩
    · exact ih htail hs' (by omega) hnext hsplit hall reference href
    have hnext : Left w (resumed e') (units pages) := by
      rw [hfresh]
      exact left_fresh hpages _
    exact ih htail hs' (by omega) hnext (List.nil_append _)
      (fun b hb => absurd hb List.not_mem_nil) reference href

end Runs

section Results

def Wakes.scan (w : Wakes) (cfg : AttentionConfig) : ScanAnswers where
  config := .ok (some cfg)
  nowMs := 0
  runnableLate := false
  runnable := fun _ => .ok []
  row := fun _ => ⟨false,.ok none,.ok (),.ok none,.ok ()⟩
  armedLate := false
  armed := fun _ => .ok []
  wakesLate := false
  list := fun c => .ok (w.listing c)
  wake := fun reference =>
    { late := false
      read := if w.readable reference then .ok ⟨.completed,1,1⟩ else .error "not found"
      nowMs := 0
      action := .error "no action"
      current := .error "no wake"
      marker := .ok none
      resume := .ok ()
      markerPut := .ok () }
  endLate := false

theorem scan_steady (w : Wakes) (cfg : AttentionConfig) : Steady w cfg (w.scan cfg) where
  config := rfl
  runnable after := ⟨[],rfl,fun row hrow => absurd hrow List.not_mem_nil⟩
  armed after := ⟨[],rfl⟩
  time := ⟨rfl,fun _ => rfl⟩
  list c := rfl
  read reference := by
    show (if w.readable reference then _ else _ : Except String Wake).isOk = w.readable reference
    cases w.readable reference <;> rfl
  marker reference := ⟨none,rfl⟩
  markerPut reference := rfl

variable (host : Host) (policy : AttentionPolicy) (adapters : Adapters)

def Reached (w : Wakes) (cfg : AttentionConfig) (pages : List WakePage) (failedMs : ℕ) (st : Store)
    (e : Entry) (reference : String) : Prop :=
  ∀ as : List ScanAnswers, (∀ a ∈ as, Steady w cfg a) → (units pages).length ≤ as.length →
    e.version+as.length ≤ maxCounter → reference ∈ handledIn host policy adapters failedMs e.id st as

def Unblocked (w : Wakes) (pages : List WakePage) (reference : String) : Prop :=
  ∃ before after, listedItems pages = before++reference::after ∧ ∀ b ∈ before, w.readable b = true

theorem mem_front {w : Wakes} {front rest before after : List String} {reference : String}
    (h : front++rest = before++reference::after) (hbefore : ∀ b ∈ before, w.readable b = true)
    (href : w.readable reference = true) (hstuck : ∀ b, rest.head? = some b → w.readable b = false) :
    reference ∈ front := by
  rcases List.append_eq_append_iff.mp h with ⟨c,rfl,hrest⟩ | ⟨c,rfl,hafter⟩
  · cases c with
    | nil =>
      have := hstuck reference (by rw [hrest]; rfl)
      rw [href] at this
      cases this
    | cons b c =>
      have := hstuck b (by rw [hrest]; rfl)
      rw [hbefore b (by simp)] at this
      cases this
  · cases c with
    | nil =>
      have := hstuck reference (by rw [List.nil_append] at hafter; rw [← hafter]; rfl)
      rw [href] at this
      cases this
    | cons b c =>
      cases hafter
      simp

/-- Repeated scans process every wake that can be read exactly when none of them is listed
behind one that cannot: the head of the pending list stays until it was processed. -/
theorem unreadable_wake_blocks (w : Wakes) (cfg : AttentionConfig) (pages : List WakePage)
    (hpages : Pages w.listing none pages) (hpolicy : policy.enabled = true) (failedMs : ℕ) (st : Store)
    (e : Entry) (hs : Attended host cfg st e.id e) (hbegin : resumed e = .fresh e.dirty)
    (hversion : e.version+(units pages).length ≤ maxCounter) :
    (∀ reference ∈ listedItems pages, w.readable reference = true →
        Reached host policy adapters w cfg pages failedMs st e reference) ↔
      ∀ reference ∈ listedItems pages, w.readable reference = true → Unblocked w pages reference := by
  have hleft : Left w (resumed e) (units pages) := by
    rw [hbegin]
    exact left_fresh hpages _
  constructor
  · intro h reference hlisted hread
    have hsteady : ∀ a ∈ List.replicate (units pages).length (w.scan cfg), Steady w cfg a := by
      intro a ha
      rw [List.eq_of_mem_replicate ha]
      exact scan_steady w cfg
    have hhandled := h reference hlisted hread _ hsteady (by simp) (by simpa using hversion)
    obtain ⟨front,rest,hunits,hreadable,href⟩ := run_readable policy adapters failedMs hpolicy hpages _ hsteady hs
      (by simpa using hversion) hleft (List.nil_append _)
      (fun b hb => absurd hb List.not_mem_nil) reference hhandled
    obtain ⟨before,after,rfl⟩ := List.append_of_mem href
    refine ⟨before.reduceOption,after.reduceOption++rest.reduceOption,?_,?_⟩
    · rw [← units_items, ← hunits]
      simp [List.reduceOption]
    · intro b hb
      exact hreadable b (List.mem_append_left _ (mem_units.mpr hb))
  intro h reference hlisted hread as has hlen hroom
  obtain ⟨before,after,hsplit,hbefore⟩ := h reference hlisted hread
  obtain ⟨front,rest,hunits,hsub,hmeasure⟩ := run_consumes policy adapters failedMs hpolicy as has hs hroom hleft
  apply hsub
  rw [← units_items, hunits, List.reduceOption_append] at hsplit
  refine mem_front hsplit hbefore hread fun b hb => ?_
  have hshort : rest = [] ∨ ∃ b, w.readable b = false ∧ rest.head? = some (some b) := by
    rcases hmeasure with h | h
    · have := congrArg List.length hunits
      rw [List.length_append] at this
      exact .inl (List.eq_nil_of_length_eq_zero (by omega))
    · exact h
  rcases hshort with rfl | ⟨c,hc,hhead⟩
  · cases hb
  cases rest with
  | nil => cases hhead
  | cons x rest =>
    cases hhead
    cases hb
    exact hc

def twoWakes (first second : String) : Wakes where
  listing := fun _ => ⟨[first,second],2,none,true⟩
  bounded _ := by simp
  readable reference := reference == "wake"

def newSpace : Entry := plainHost.firstEntry "space" (plainConfig "space") true 1

def newStore : Store := Store.empty.setEntry "space" newSpace

theorem new_attended : Attended plainHost (plainConfig "space") newStore "space" newSpace where
  entry := (entry_iff plainHost newStore "space" newSpace).mpr ⟨by decide +kernel,rfl,by decide +kernel⟩
  enabled := rfl
  config := rfl

theorem two_pages (first second : String) :
    Pages (twoWakes first second).listing none [⟨[first,second],2,none,true⟩] := .last none rfl

theorem unreadable_wake_blocks_none : Reached plainHost plainPolicy ⟨none,false⟩
    (twoWakes "wake" "purged") (plainConfig "space") [⟨["wake","purged"],2,none,true⟩] 0 newStore
    newSpace "wake" :=
  (unreadable_wake_blocks plainHost plainPolicy ⟨none,false⟩ (twoWakes "wake" "purged")
    (plainConfig "space") [⟨["wake","purged"],2,none,true⟩] (two_pages "wake" "purged") rfl 0 newStore
    newSpace new_attended (by decide +kernel) (by decide +kernel)).mpr
    (by
      intro reference _ hread
      have hwake : reference = "wake" := by simpa [twoWakes] using hread
      subst hwake
      exact ⟨[],["purged"],rfl,fun b hb => absurd hb List.not_mem_nil⟩) "wake" (List.Mem.head _) rfl

/-- A purged wake in front of another one: no number of scans comes to the other one. -/
theorem purged_wake_blocks_next : ¬ ∀ reference ∈ ["purged","wake"],
    (twoWakes "purged" "wake").readable reference = true → Reached plainHost plainPolicy
    ⟨none,false⟩ (twoWakes "purged" "wake") (plainConfig "space") [⟨["purged","wake"],2,none,true⟩]
    0 newStore newSpace reference := by
  intro h
  have hhandled := h "wake" (by decide) (by decide)
    (List.replicate 3 ((twoWakes "purged" "wake").scan (plainConfig "space"))) ?_ (by decide) (by decide)
  · revert hhandled
    decide +kernel
  · intro a ha
    rw [List.eq_of_mem_replicate ha]
    exact scan_steady ..

end Results

end AndaBrain.Attention
