import AndaBrain.AttentionDirectory
import AndaBrain.Json

/-!
# The bounded scan of one Space

`scan_inner` of `attention/service.rs` advances a page of runnable Watches, looks through a page
of armed Watches and processes the pending wakes of a page.
-/

set_option autoImplicit false

namespace AndaBrain.Attention

structure PolicyFields where
  enabled : Bool
  tickMs : ℕ
  spacesPerTick : ℕ
  watchesPerSpace : ℕ
  changesPerWatch : ℕ
  wakesPerSpace : ℕ
  wallTimeMs : ℕ
  reconcileMs : ℕ
  blockedRetryMs : ℕ

/-- `AttentionPolicy::validate`. -/
def PolicyFields.valid (p : PolicyFields) : Bool :=
  decide (1 ≤ p.tickMs ∧ p.tickMs ≤ 60000) && decide (1 ≤ p.spacesPerTick ∧ p.spacesPerTick ≤ 20) &&
    decide (1 ≤ p.watchesPerSpace ∧ p.watchesPerSpace ≤ 20) &&
    decide (1 ≤ p.changesPerWatch ∧ p.changesPerWatch ≤ 200) &&
    decide (1 ≤ p.wakesPerSpace ∧ p.wakesPerSpace ≤ 200) &&
    decide (1 ≤ p.wallTimeMs ∧ p.wallTimeMs ≤ 30000) &&
    decide (p.tickMs ≤ p.reconcileMs ∧ p.reconcileMs ≤ 3600000) &&
    decide (p.tickMs ≤ p.blockedRetryMs ∧ p.blockedRetryMs ≤ 3600000)

structure AttentionPolicy extends PolicyFields where
  bounded : toPolicyFields.valid = true

/-- The adapters that a Space is opened with: the actions of one pass, and whether an
evaluator of conditions in text is installed. -/
structure Adapters where
  actions : Option { n : ℕ // 1 ≤ n ∧ n ≤ 20 }
  semantic : Bool

structure BlockedWatch where
  version : ℕ
  generation : ℕ
  retryAtMs : ℕ
  reason : String
  deriving DecidableEq

/-- A row of a page of Watches; `dueAtMs` is its `due_at` where that parses. -/
structure WatchRow where
  id : String
  version : ℕ
  generation : Option ℕ
  condition : Json
  dueAtMs : Option ℕ

inductive NativeError where
  | versionConflict (message : String)
  | other (message : String)

def NativeError.message : NativeError → String
  | .versionConflict m => m
  | .other m => m

/-- What one row of the runnable page meets: whether the deadline has passed, the backoff
object, the session, the answer of `advance_watch`, and the write of a new backoff. -/
structure RowAnswers where
  late : Bool
  marker : Except String (Option BlockedWatch)
  session : Except String Unit
  advance : Except NativeError (Option String)
  markerPut : Except String Unit

inductive WakeState where
  | pending (notBeforeMs : ℕ)
  | running (expiresAtMs : ℕ)
  | blockedUntil (notBeforeMs : ℕ)
  | blockedOnChange
  | completed
  | cancelled
  deriving DecidableEq

structure Wake where
  state : WakeState
  version : ℕ
  fence : ℕ
  deriving DecidableEq

structure ActionStatus where
  state : String
  reason : Option String
  nextRunMs : Option ℕ

structure WakeAnswers where
  late : Bool
  read : Except String Wake
  nowMs : ℕ
  action : Except String ActionStatus
  current : Except String Wake
  marker : Except String (Option BlockedWatch)
  resume : Except String Unit
  markerPut : Except String Unit

structure WakePage where
  items : List String
  scanned : ℕ
  nextCursor : Option String
  complete : Bool

structure ScanAnswers where
  config : Except String (Option AttentionConfig)
  nowMs : ℕ
  runnableLate : Bool
  runnable : String → Except String (List WatchRow)
  row : String → RowAnswers
  armedLate : Bool
  armed : String → Except String (List WatchRow)
  wakesLate : Bool
  list : Option String → Except NativeError WakePage
  wake : String → WakeAnswers
  endLate : Bool

def isStructured (condition : Json) : Bool :=
  (match condition with | .obj _ => true | _ => false) && (condition.get "text").isNone &&
    ["element","slot","type"].any fun key => (condition.get key).isSome

/-- A page of Watches as a pass walks it: where it starts, its rows, and how many of them
the pass has processed. -/
structure Walk where
  after : String
  page : List String
  taken : ℕ

structure Listing where
  cursor : Option String
  page : WakePage

structure Handled where
  reference : String
  nowMs : ℕ
  wake : Wake

/-- What a pass has met. The program keeps no such record; the statements about passes are
made with it. -/
structure Trace where
  nowMs : ℕ
  rechecks : List ℕ
  runnable : Option Walk
  runnableDue : List ℕ
  armed : Option Walk
  armedDue : List ℕ
  listed : Option Listing
  handled : List Handled

def Trace.start (nowMs : ℕ) : Trace := ⟨nowMs,[],none,[],none,[],none,[]⟩

structure Scan where
  checkpoint : Checkpoint
  report : AttentionReport
  trace : Trace

def Scan.due (s : Scan) (ms : ℕ) : Scan :=
  { s with checkpoint := { s.checkpoint with nextDueMs := minDue s.checkpoint.nextDueMs ms } }

section Sections
variable (policy : AttentionPolicy) (adapters : Adapters) (answers : ScanAnswers)

/-- One runnable Watch: an unexpired backoff defers it, a refusal renews the backoff. -/
def advanceRow (row : WatchRow) (report : AttentionReport) : Except String AttentionReport := do
  let a := answers.row row.id
  let old ← a.marker
  let generation ← row.generation.elim (.error "runnable Watch lacks generation") .ok
  if old.any fun b => b.version == row.version && b.generation == generation &&
      decide (b.retryAtMs > answers.nowMs) then
    pure (report.defer "watch_retry_backoff" false)
  else
    a.session
    match a.advance with
    | .ok status =>
      pure { report with
        advanced := report.advanced+1
        fired := report.fired+(status == some "fired").toNat
        expired := report.expired+(status == some "expired").toNat }
    | .error e =>
      a.markerPut
      let report := report.defer "native_watch_unavailable" false
      pure { report with
        conflicted := report.conflicted+(match e with | .versionConflict _ => 1 | .other _ => 0)
        error := some e.message }

/-- The rows of a runnable page in turn. The answer tells whether the deadline cut them. -/
def advanceRows : List WatchRow → Scan → Scan × Except String Bool
  | [], s => (s,.ok false)
  | row::rows, s =>
    if (answers.row row.id).late then (s,.ok true)
    else
      match advanceRow answers row
          { s.report with watchesScanned := s.report.watchesScanned+1 } with
      | .error e => (s,.error e)
      | .ok report =>
        let cp := s.checkpoint
        advanceRows rows
          { checkpoint := { cp with
              runnableAfter := row.id
              nextDueMs := minDue cp.nextDueMs (answers.nowMs+policy.tickMs) }
            report := report
            trace := { s.trace with
              runnable := s.trace.runnable.map fun w => { w with taken := w.taken+1 }
              runnableDue := s.trace.runnableDue++row.dueAtMs.toList } }

def scanRunnable (s : Scan) : Scan × Except String Unit :=
  if answers.runnableLate then (s,.ok ())
  else
    match answers.runnable s.checkpoint.runnableAfter with
    | .error e => (s,.error e)
    | .ok rows =>
      let walk : Walk := ⟨s.checkpoint.runnableAfter,rows.map WatchRow.id,0⟩
      let s := { s with trace := { s.trace with runnable := some walk } }
      match advanceRows policy answers rows s with
      | (s,.error e) => (s,.error e)
      | (s,.ok exhausted) =>
        if rows.length < policy.watchesPerSpace ∧ exhausted = false then
          let cp := { s.checkpoint with runnableDone := true, runnableAfter := "" }
          ({ s with checkpoint := cp },.ok ())
        else (s,.ok ())

/-- One armed Watch: it is reported when no scan can judge it, and its due time counts. -/
def armedRow (s : Scan) (row : WatchRow) : Scan :=
  let structured := isStructured row.condition
  let report :=
    if structured = false ∨ row.generation = none then
      s.report.defer
        (if row.generation = none then "legacy_watch_requires_replacement"
          else if adapters.semantic then "semantic_evaluation_separate_pass"
          else "semantic_evaluator_unavailable") false
    else s.report
  let s := { s with report := report }
  let s := if adapters.semantic ∧ structured = false then s.due (answers.nowMs+policy.tickMs) else s
  let s := match row.dueAtMs with
    | some due => if due > answers.nowMs then s.due due else s
    | none => s
  { s with
    checkpoint := { s.checkpoint with allAfter := row.id }
    trace := { s.trace with armedDue := s.trace.armedDue++row.dueAtMs.toList } }

def scanArmed (s : Scan) : Scan × Except String Unit :=
  if s.checkpoint.allDone ∨ answers.armedLate then (s,.ok ())
  else
    match answers.armed s.checkpoint.allAfter with
    | .error e => (s,.error e)
    | .ok rows =>
      let walk : Walk := ⟨s.checkpoint.allAfter,rows.map WatchRow.id,rows.length⟩
      let cp := { s.checkpoint with allDone := decide (rows.length < policy.watchesPerSpace) }
      let trace := { s.trace with armed := some walk }
      (rows.foldl (armedRow policy adapters answers) ⟨cp,s.report,trace⟩,.ok ())

def runningUntil (cp : Checkpoint) (expiresAtMs : ℕ) : Checkpoint :=
  { cp with runningUntilMs := max cp.runningUntilMs expiresAtMs }

def actionable (state : WakeState) (nowMs : ℕ) : Bool :=
  match state with
  | .completed => false
  | .cancelled => false
  | .pending notBeforeMs => !decide (notBeforeMs > nowMs)
  | _ => true

def resumeBlocked (s : Scan) (a : WakeAnswers) (wake : Wake) (due : ℕ) : Except String Scan := do
  let now := a.nowMs
  let old ← a.marker
  let backoff := (old.filter fun b => b.version == wake.version && b.generation == wake.fence).elim 0
    BlockedWatch.retryAtMs
  if due ≤ now ∧ backoff ≤ now then
    match a.resume with
    | .ok () =>
      let report := { s.report with resumed := s.report.resumed+1 }
      pure (Scan.due { s with report := report } (max (now+policy.tickMs) (now+policy.tickMs)))
    | .error _ =>
      a.markerPut
      let report := s.report.defer "wake_resume_unverified" true
      pure (Scan.due { s with report := report }
        (max (now+policy.blockedRetryMs) (now+policy.tickMs)))
  else
    let report :=
      if backoff > now then s.report.defer "wake_resume_backoff" true else s.report
    pure (Scan.due { s with report := report } (max (max due backoff) (now+policy.tickMs)))

def processAction (s : Scan) (a : WakeAnswers) : Scan :=
  let now := a.nowMs
  let report := { s.report with actionsProcessed := s.report.actionsProcessed+1 }
  let s :=
    match a.action with
    | .ok status =>
      let report := { report with actionStates := bump report.actionStates status.state }
      let report := if status.reason.isSome then report.defer "action_blocked" true else report
      Scan.due { s with report := report } (status.nextRunMs.getD (now+policy.reconcileMs))
    | .error e =>
      let report := report.defer "action_configuration_or_source_unavailable" true
      let report := { report with error := some e }
      Scan.due { s with report := report } (now+policy.blockedRetryMs)
  match a.current with
  | .ok ⟨.running expiresAtMs,_,_⟩ =>
    { s with checkpoint := runningUntil s.checkpoint expiresAtMs }
  | _ => s

def budgetSpent (report : AttentionReport) : Bool :=
  adapters.actions.any fun perPass => decide (perPass.1 ≤ report.actionsProcessed)

def processIdle (s : Scan) (a : WakeAnswers) (wake : Wake) : Except String Scan :=
  let now := a.nowMs
  match wake.state with
  | .pending notBeforeMs =>
    let report := { s.report with pending := s.report.pending+1 }
    let report :=
      if adapters.actions.isNone then report.defer "action_bindings_not_installed" true else report
    .ok (Scan.due { s with report := report } (max notBeforeMs (now+policy.tickMs)))
  | .running expiresAtMs =>
    let s := { s with checkpoint := runningUntil s.checkpoint expiresAtMs }
    .ok (s.due (max expiresAtMs (now+policy.tickMs)))
  | .blockedUntil notBeforeMs => resumeBlocked policy s a wake notBeforeMs
  | .blockedOnChange => resumeBlocked policy s a wake now
  | _ => .ok s

def processWake (s : Scan) (reference : String) : Except String Scan := do
  let a := answers.wake reference
  let wake ← a.read
  let s ←
    if adapters.actions.isSome ∧ actionable wake.state a.nowMs = true then
      if budgetSpent adapters s.report then
        let report := { s.report with budgetExhausted := true }
        pure (Scan.due { s with report := report } (a.nowMs+policy.tickMs))
      else pure (processAction policy s a)
    else processIdle policy adapters s a wake
  let handled := s.trace.handled++[⟨reference,a.nowMs,wake⟩]
  pure { s with trace := { s.trace with handled := handled } }

/-- The pending wakes from the head on. A wake leaves the list when it was processed. -/
def processPending : List String → Scan → Scan × Except String Unit
  | [], s => (s,.ok ())
  | reference::rest, s =>
    if (answers.wake reference).late then (s,.ok ())
    else if budgetSpent adapters s.report then
      ({ s with report := { s.report with budgetExhausted := true } },.ok ())
    else
      match processWake policy adapters answers s reference with
      | .error e => (s,.error e)
      | .ok s =>
        processPending rest { s with checkpoint := { s.checkpoint with wakePending := rest } }

def listPage (s : Scan) : Scan × Except String Unit :=
  if s.checkpoint.wakePending = [] then
    match answers.list s.checkpoint.wakeCursor with
    | .error (.versionConflict m) =>
      ({ s with checkpoint := { s.checkpoint with wakeCursor := none } },.error m)
    | .error (.other m) => (s,.error m)
    | .ok page =>
      ({ checkpoint := { s.checkpoint with
          wakePending := page.items
          wakePageCursor := page.nextCursor
          wakePageComplete := page.complete }
         report := { s.report with wakesScanned := page.scanned }
         trace := { s.trace with listed := some ⟨s.checkpoint.wakeCursor,page⟩ } },.ok ())
  else (s,.ok ())

def closePage (cp : Checkpoint) : Checkpoint :=
  if cp.wakePending = [] then
    { cp with
      wakeCursor := cp.wakePageCursor
      wakePageCursor := none
      wakesDone := cp.wakePageComplete }
  else cp

def scanWakes (s : Scan) : Scan × Except String Unit :=
  if s.checkpoint.wakesDone ∨ answers.wakesLate then (s,.ok ())
  else
    match listPage answers s with
    | (s,.error e) => (s,.error e)
    | (s,.ok ()) =>
      match processPending policy adapters answers s.checkpoint.wakePending s with
      | (s,.error e) => (s,.error e)
      | (s,.ok ()) => ({ s with checkpoint := closePage s.checkpoint },.ok ())

def markDue (now : ℕ) (r : Recheck) : Recheck :=
  if r.dueAtMs ≤ now then { r with notified := true } else r

def scanRechecks (rechecks : List Recheck) (s : Scan) : Scan :=
  rechecks.foldl
    (fun s r =>
      if r.dueAtMs ≤ answers.nowMs then
        { s with report := { s.report with rechecksDue := s.report.rechecksDue+1 } }
      else
        let s := s.due r.dueAtMs
        { s with trace := { s.trace with rechecks := s.trace.rechecks++[r.dueAtMs] } })
    s

end Sections

def Checkpoint.complete (cp : Checkpoint) : Bool := cp.runnableDone && cp.allDone && cp.wakesDone

/-- A checkpoint of another generation, or a finished one, gives way to a fresh one. -/
def resumed (e : Entry) : Checkpoint :=
  if e.checkpoint.generation ≠ e.dirty ∨ e.checkpoint.complete = true then .fresh e.dirty
  else e.checkpoint

section Scans
variable (policy : AttentionPolicy) (adapters : Adapters) (answers : ScanAnswers)

def scanSections (s : Scan) : Scan × Except String Unit :=
  match scanRunnable policy answers s with
  | (s,.error e) => (s,.error e)
  | (s,.ok ()) =>
    match scanArmed policy adapters answers s with
    | (s,.error e) => (s,.error e)
    | (s,.ok ()) => scanWakes policy adapters answers s

def scanReport (s : Scan) : AttentionReport :=
  let complete := s.checkpoint.complete
  { s.report with
    scanComplete := complete
    budgetExhausted := !complete || answers.endLate
    error := if s.report.rechecksDue > 0 then
        some (s.report.error.getD "recheck retained for its trusted consumer")
      else s.report.error }

def nextCheck (cp : Checkpoint) : ℕ :=
  if cp.complete then
    min (cp.nextDueMs.getD (answers.nowMs+policy.reconcileMs)) (answers.nowMs+policy.reconcileMs)
  else answers.nowMs+policy.tickMs

/-- `scan_inner`: the entry as it is left, the record of the pass and its answer. -/
def scanInner (e : Entry) : Entry × Trace × Except String AttentionReport :=
  if policy.enabled = false ∨ e.registration.enabled = false then
    (e,Trace.start answers.nowMs,.ok (AttentionReport.empty.defer "attention_disabled" true))
  else
    match answers.config with
    | .error err => (e,Trace.start answers.nowMs,.error err)
    | .ok none =>
      (e,Trace.start answers.nowMs,.error "registered native attention configuration is missing")
    | .ok (some cfg) =>
      if cfg.scope ≠ e.nativeScope ∨ cfg.pins ≠ e.registration.pins then
        (e,Trace.start answers.nowMs,
          .error "attention configuration changed; registered host reconciliation required")
      else
        let s := scanRechecks answers e.rechecks
          ⟨resumed e,AttentionReport.empty,Trace.start answers.nowMs⟩
        let e := { e with rechecks := e.rechecks.map (markDue answers.nowMs) }
        match scanSections policy adapters answers s with
        | (s,.error err) => ({ e with checkpoint := s.checkpoint },s.trace,.error err)
        | (s,.ok ()) =>
          let report := scanReport answers s
          ({ e with
              checkpoint := s.checkpoint
              lastScanMs := if report.scanComplete then answers.nowMs else e.lastScanMs
              registration := { e.registration with nextCheckMs := nextCheck policy answers s.checkpoint } },
            s.trace,.ok report)

/-- The entry that a scan hands to `finish`. The time of a failure is read after it. -/
def scanned (failedMs : ℕ) (e : Entry) : Entry × Trace :=
  match scanInner policy adapters answers e with
  | (e,trace,.ok report) => ({ e with failures := 0, lastReport := report },trace)
  | (e,trace,.error err) =>
    let failures := moreFailures e.failures
    let registration := { e.registration with
      nextCheckMs := failedMs+min (policy.tickMs*2^(min failures 8)) policy.blockedRetryMs }
    ({ e with
        failures := failures
        registration := registration
        lastReport := { AttentionReport.empty with error := some err } },trace)

def scan (host : Host) (failedMs : ℕ) (answer : Put) (st : Store) (id : String) :
    Store × Except String AttentionReport :=
  match host.entry st id with
  | .error err => (st,.error err)
  | .ok none => (st,.ok { AttentionReport.empty with scanComplete := true })
  | .ok (some e) =>
    let e := (scanned policy adapters answers failedMs e).1
    match host.finish st e answer with
    | (st,.error err) => (st,.error err)
    | (st,.ok _) => (st,.ok e.lastReport)

end Scans

end AndaBrain.Attention
