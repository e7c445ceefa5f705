import AndaBrain.AttentionScan

/-!
# The attention pass over a shard

`space/attention.rs` visits a page of slots in turn and moves the cursor once, to the last slot
whose visit returned.
-/

set_option autoImplicit false

namespace AndaBrain.Attention

structure AttentionTick where
  visited : ℕ
  loaded : ℕ
  skipped : ℕ
  failed : ℕ
  fired : ℕ
  budgetExhausted : Bool
  deriving DecidableEq

def AttentionTick.empty : AttentionTick := ⟨0,0,0,0,0,false⟩

/-- What scheduling one recheck meets: the native configuration as `register_inner` reads
and checks it, the writes of the registration, the configuration of a Space that had none,
and the write of the edit. -/
structure ScheduleAnswers where
  native : Except String AttentionConfig
  enabled : Bool
  puts : Host.RegisterPuts
  configured : Except String Unit
  edit : Put

/-- What the visit of one slot meets. Without a learning runtime there are no reviews. -/
structure VisitAnswers where
  late : Bool
  fault : Option String
  nowMs : ℕ
  load : Except String Unit
  reviews : Except String (List Recheck)
  hintLate : ℕ → Bool
  schedule : ℕ → ScheduleAnswers
  scan : ScanAnswers
  failedMs : ℕ
  scanPut : Put
  finishPut : Put

structure TickAnswers where
  fault : Option String
  visit : ℕ → VisitAnswers
  createPut : Put
  cursorPut : Put

section Visit
variable (host : Host)

def registerInner (st : Store) (id : String) (a : ScheduleAnswers) : Store × Except String Entry :=
  match a.native with
  | .error e => (st,.error e)
  | .ok native =>
    match host.register st id native a.enabled a.puts with
    | (st,.error e) => (st,.error e)
    | (st,.ok entry) => (st,a.configured.map fun _ => entry)

def bounded (recheck : Recheck) : Bool :=
  recheck.key != "" && decide (recheck.key.utf8ByteSize ≤ 256) && decide (recheck.dueAtMs ≤ maxCounter)

def Entry.knows (e : Entry) (recheck : Recheck) : Bool :=
  e.rechecks.any fun r =>
    r.key == recheck.key && r.source == recheck.source && r.dueAtMs == recheck.dueAtMs

def scheduleRecheck (st : Store) (id : String) (recheck : Recheck) (a : ScheduleAnswers) :
    Store × Except String Unit :=
  if bounded recheck = false then (st,.error "invalid bounded recheck")
  else
    match host.entry st id with
    | .error e => (st,.error e)
    | .ok old =>
      if old.any (Entry.knows · recheck) then (st,.ok ())
      else
        match registerInner host st id a with
        | (st,.error e) => (st,.error e)
        | (st,.ok _) => host.edit st id (.schedule { recheck with notified := false }) a.edit

/-- The hints of the learning reviews in turn, from the `n`th on. -/
def scheduleHints (id : String) (a : VisitAnswers) :
    ℕ → List Recheck → Store → AttentionTick → Store × AttentionTick × Except String Unit
  | _, [], st, report => (st,report,.ok ())
  | n, hint::hints, st, report =>
    if a.hintLate n then (st,{ report with budgetExhausted := true },.ok ())
    else
      match scheduleRecheck host st id hint (a.schedule n) with
      | (st,.error e) => (st,report,.error e)
      | (st,.ok ()) => scheduleHints id a (n+1) hints st report

variable (policy : AttentionPolicy) (adapters : Adapters)

def scanLoaded (id : String) (a : VisitAnswers) (st : Store) (report : AttentionTick) :
    Store × AttentionTick × Except String Unit :=
  match scan policy adapters a.scan host a.failedMs a.scanPut st id with
  | (st,.ok pass) =>
    (st,{ report with
      fired := report.fired+pass.fired
      failed := report.failed+pass.error.isSome.toNat },.ok ())
  | (st,.error _) => (st,{ report with failed := report.failed+1 },.ok ())

def due (row : Entry) (nowMs : ℕ) : Bool :=
  row.registration.enabled &&
    (decide (row.registration.nextCheckMs ≤ nowMs) || decide (row.dirty > row.reconciled) ||
      decide (nowMs-row.lastScanMs ≥ policy.reconcileMs)) &&
    !(decide (row.failures > 0) && decide (row.registration.nextCheckMs > nowMs))

def unloaded (row : Entry) (nowMs : ℕ) (error : String) : Entry :=
  { row with
    failures := moreFailures row.failures
    registration := { row.registration with nextCheckMs := nowMs+policy.blockedRetryMs }
    lastReport := { row.lastReport with error := some error, scanComplete := false } }

def attentionVisit (slot : ℕ) (a : VisitAnswers) (st : Store) (report : AttentionTick) :
    Store × AttentionTick × Except String Unit :=
  match a.fault.elim (host.readSlot st slot) .error with
  | .error _ => (st,{ report with failed := report.failed+1 },.ok ())
  | .ok none => (st,{ report with skipped := report.skipped+1 },.ok ())
  | .ok (some row) =>
    if due policy row a.nowMs = false then (st,{ report with skipped := report.skipped+1 },.ok ())
    else
      match a.load with
      | .error error =>
        let report := { report with failed := report.failed+1 }
        match host.finish st (unloaded policy row a.nowMs error) a.finishPut with
        | (st,.error e) => (st,report,.error e)
        | (st,.ok _) => (st,report,.ok ())
      | .ok () =>
        let report := { report with loaded := report.loaded+1 }
        match a.reviews with
        | .error _ => scanLoaded host policy adapters row.id a st { report with failed := report.failed+1 }
        | .ok hints =>
          match scheduleHints host row.id a 0 hints st report with
          | (st,report,.error e) => (st,report,.error e)
          | (st,report,.ok ()) => scanLoaded host policy adapters row.id a st report

def visitSlots (visit : ℕ → VisitAnswers) : List ℕ → Store → AttentionTick → Option ℕ →
    Store × AttentionTick × Option ℕ × Except String Unit
  | [], st, report, last => (st,report,last,.ok ())
  | slot::slots, st, report, last =>
    if (visit slot).late then (st,{ report with budgetExhausted := true },last,.ok ())
    else
      match attentionVisit host policy adapters slot (visit slot) st
          { report with visited := report.visited+1 } with
      | (st,report,.error e) => (st,report,last,.error e)
      | (st,report,.ok ()) => visitSlots visit slots st report (some slot)

def tickPage (st : Store) (a : TickAnswers) : Except String (List ℕ) :=
  a.fault.elim (page st policy.spacesPerTick) .error

/-- `attention_tick_inner`, with its counts also where it returns an error. -/
def attentionTick (st : Store) (a : TickAnswers) : Store × AttentionTick × Except String Unit :=
  match tickPage policy st a with
  | .error e => (st,.empty,.error e)
  | .ok slots =>
    match visitSlots host policy adapters a.visit slots st .empty none with
    | (st,report,none,outcome) => (st,report,outcome)
    | (st,report,some slot,outcome) =>
      match advanceCursor st slot a.createPut a.cursorPut with
      | (st,.error e) => (st,report,.error e)
      | (st,.ok ()) => (st,report,outcome)

def visitedSlots (st : Store) (a : TickAnswers) : List ℕ :=
  ((tickPage policy st a).toOption.getD []).take
    (attentionTick host policy adapters st a).2.1.visited

end Visit

/-- What happens to a shard: a pass, or writes of others to entries and index objects. -/
inductive Event where
  | tick (a : TickAnswers)
  | others (entries : String → Option Entry) (index : ℕ → Option Index)

def Event.isTick : Event → Bool
  | .tick _ => true
  | .others _ _ => false

section Runs
variable (host : Host) (policy : AttentionPolicy) (adapters : Adapters)

def step (st : Store) : Event → Store
  | .tick a => (attentionTick host policy adapters st a).1
  | .others entries index => { st with entries := entries, index := index }

def visitedIn : Store → List Event → List ℕ
  | _, [] => []
  | st, .tick a::es => visitedSlots host policy adapters st a++
      visitedIn (step host policy adapters st (.tick a)) es
  | st, e::es => visitedIn (step host policy adapters st e) es

end Runs

structure TickAnswers.Open (a : TickAnswers) : Prop where
  readable : a.fault = none
  writable : a.createPut = .done ∧ a.cursorPut = .done
  time : ∀ slot, (a.visit slot).late = false
  hints : ∀ slot n, (a.visit slot).hintLate n = false

section Condition
variable (host : Host)

structure Registers (e : Entry) (a : ScheduleAnswers) : Prop where
  native : ∃ native, a.native = .ok native ∧ e.nativeScope = native.scope
  configured : a.configured = .ok ()
  version : e.version+2 ≤ maxCounter
  dirty : e.dirty+2 ≤ maxCounter
  puts : a.puts.entry = .done ∧ a.puts.index = .done ∧ a.edit = .done

def Entry.room (e : Entry) (recheck : Recheck) : Bool :=
  (e.rechecks.any fun r => r.key == recheck.key) || decide (e.rechecks.length < 128)

def Schedulable (st : Store) (id : String) (recheck : Recheck) (a : ScheduleAnswers) : Prop :=
  bounded recheck = true ∧ ∃ e, host.entry st id = .ok (some e) ∧
    (e.knows recheck = true ∨ (Registers e a ∧ e.room recheck = true))

def AllSchedulable (id : String) (a : VisitAnswers) : ℕ → List Recheck → Store → Prop
  | _, [], _ => True
  | n, hint::hints, st => Schedulable host st id hint (a.schedule n) ∧
      AllSchedulable id a (n+1) hints (scheduleRecheck host st id hint (a.schedule n)).1

variable (policy : AttentionPolicy) (adapters : Adapters)

def Contained (slot : ℕ) (a : VisitAnswers) (st : Store) : Prop :=
  ∀ row, a.fault = none → host.readSlot st slot = .ok (some row) → due policy row a.nowMs = true →
    (∀ error, a.load = .error error → row.version < maxCounter ∧ a.finishPut = .done) ∧
    (∀ hints, a.load = .ok () → a.reviews = .ok hints → AllSchedulable host row.id a 0 hints st)

def PageContained (visit : ℕ → VisitAnswers) : List ℕ → Store → Prop
  | [], _ => True
  | slot::slots, st => Contained host policy slot (visit slot) st ∧
      PageContained visit slots (attentionVisit host policy adapters slot (visit slot) st .empty).1

def RunContained : Store → List Event → Prop
  | _, [] => True
  | st, .tick a::es =>
      PageContained host policy adapters a.visit ((tickPage policy st a).toOption.getD []) st ∧
        RunContained (step host policy adapters st (.tick a)) es
  | st, e::es => RunContained (step host policy adapters st e) es

end Condition

section Instances

def plainPolicy : AttentionPolicy where
  enabled := true
  tickMs := 5000
  spacesPerTick := 20
  watchesPerSpace := 20
  changesPerWatch := 200
  wakesPerSpace := 200
  wallTimeMs := 10000
  reconcileMs := 900000
  blockedRetryMs := 60000
  bounded := by decide

def plainHost : Host := ⟨7,fun id => id⟩

def plainConfig (id : String) : AttentionConfig :=
  ⟨⟨id,"instance"⟩,⟨⟨"nexus:structured-watch-v1","digest"⟩,none,none⟩⟩

def quietScan (id : String) (nowMs : ℕ) : ScanAnswers where
  config := .ok (some (plainConfig id))
  nowMs := nowMs
  runnableLate := false
  runnable := fun _ => .ok []
  row := fun _ => ⟨false,.ok none,.ok (),.ok none,.ok ()⟩
  armedLate := false
  armed := fun _ => .ok []
  wakesLate := false
  list := fun _ => .ok ⟨[],0,none,true⟩
  wake := fun _ => ⟨false,.error "no wake",nowMs,.error "no action",.error "no wake",.ok none,.ok (),.ok ()⟩
  endLate := false

def plainPuts : Host.RegisterPuts := ⟨.done,.done,.done,.done⟩

end Instances

end AndaBrain.Attention
