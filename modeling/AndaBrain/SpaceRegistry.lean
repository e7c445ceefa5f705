import Mathlib.Data.Nat.Notation
import Mathlib.Logic.Function.Basic

/-!
# Loading and evicting one Space

Calls of `load_space_mode` and runs of `flush_and_evict_once` share the map entry of one Space.
-/

set_option autoImplicit false

namespace AndaBrain.SpaceRegistry

inductive Cell
  | empty
  | running (load : ℕ)
  | ready (closed : Bool)
  deriving DecidableEq, Repr

/-- `begun` records that a close of the Space has been entered. -/
structure SpaceEntry where
  cell : Cell
  closing : Bool
  lastAccessMs : ℕ
  begun : Bool
  deriving DecidableEq, Repr

def SpaceEntry.new (nowMs : ℕ) : SpaceEntry := ⟨.empty,false,nowMs,false⟩

inductive LoadPhase
  | lookup
  | insert
  | check (e : ℕ)
  | enter (e : ℕ)
  | connect (e : ℕ)
  | opened (e : ℕ)
  | discover (e : ℕ)
  | held (e : ℕ)
  | done
  deriving DecidableEq, Repr

structure Load where
  touch : Bool
  phase : LoadPhase
  deriving DecidableEq, Repr

inductive RunPhase
  | lock (e : ℕ)
  | count (e : ℕ)
  | inspect (e : ℕ)
  | owners (e : ℕ)
  | mark (e : ℕ)
  | close (e : ℕ)
  | closing (e : ℕ)
  | remove (e : ℕ)
  | leave (e : ℕ)
  | done
  deriving DecidableEq, Repr

structure EvictRun where
  nowMs : ℕ
  idleTimeoutMs : ℕ
  phase : RunPhase
  deriving DecidableEq, Repr

/-- The entry whose clone a load holds; it lets go of it when it returns. -/
def LoadPhase.entry : LoadPhase → Option ℕ
  | .check e | .enter e | .connect e | .opened e | .discover e => some e
  | .lookup | .insert | .held _ | .done => none

def LoadPhase.space : LoadPhase → Option ℕ
  | .opened e | .discover e | .held e => some e
  | _ => none

def RunPhase.entry : RunPhase → Option ℕ
  | .lock e | .count e | .inspect e | .owners e | .mark e | .close e | .closing e | .remove e
  | .leave e => some e
  | .done => none

structure Registry where
  slot : Option ℕ
  lock : Option ℕ
  entries : ℕ → SpaceEntry
  fresh : ℕ
  loads : ℕ → Load
  calls : ℕ
  runs : ℕ → EvictRun
  ticks : ℕ

def Registry.init : Registry where
  slot := none
  lock := none
  entries := fun _ => SpaceEntry.new 0
  fresh := 0
  loads := fun _ => ⟨false,.done⟩
  calls := 0
  runs := fun _ => ⟨0,0,.done⟩
  ticks := 0

section Counts
variable (s : Registry) (e : ℕ)

/-- `Arc::strong_count(entry)`: the map, the loads and the snapshots. -/
def entryCount : ℕ :=
  (if s.slot = some e then 1 else 0) +
    ((List.range s.calls).filter fun i => (s.loads i).phase.entry = some e).length +
    ((List.range s.ticks).filter fun j => (s.runs j).phase.entry = some e).length

/-- `Arc::strong_count(space)`: the cell, the loads and what the Space's own tasks hold. -/
def spaceCount (tasks : ℕ) : ℕ :=
  1 + ((List.range s.calls).filter fun i => (s.loads i).phase.space = some e).length + tasks

end Counts

section Updates
variable (s : Registry)

def setLoad (i : ℕ) (p : LoadPhase) : Registry :=
  { s with loads := Function.update s.loads i { s.loads i with phase := p } }

def setRun (j : ℕ) (p : RunPhase) : Registry :=
  { s with runs := Function.update s.runs j { s.runs j with phase := p } }

def setEntry (e : ℕ) (x : SpaceEntry) : Registry :=
  { s with entries := Function.update s.entries e x }

def unlock : Registry := { s with lock := none }

end Updates

inductive Act
  | call (touch : Bool)
  | lookup (i : ℕ)
  | insert (i nowMs : ℕ)
  | check (i : ℕ)
  | enter (i : ℕ)
  | connect (i : ℕ) (ok : Bool)
  | touch (i nowMs : ℕ)
  | discover (i : ℕ) (ok : Bool)
  | release (i : ℕ)
  | cancelLoad (i : ℕ)
  | tick (nowMs idleTimeoutMs : ℕ)
  | lock (j : ℕ)
  | count (j : ℕ)
  | inspect (j : ℕ) (busy : Bool)
  | owners (j tasks : ℕ)
  | mark (j : ℕ)
  | close (j : ℕ)
  | closed (j : ℕ) (ok : Bool)
  | remove (j : ℕ)
  | leave (j : ℕ)
  | cancelRun (j : ℕ)
  deriving DecidableEq, Repr

section Loads
variable (s : Registry) (i : ℕ)

def call (touch : Bool) : Registry :=
  { s with loads := Function.update s.loads s.calls ⟨touch,.lookup⟩, calls := s.calls + 1 }

def lookup : Option Registry :=
  match (s.loads i).phase, s.lock with
  | .lookup, none => some (match s.slot with
      | some e => setLoad s i (.check e)
      | none => setLoad s i .insert)
  | _, _ => none

def insert (nowMs : ℕ) : Option Registry :=
  match (s.loads i).phase, s.lock with
  | .insert, none => some (match s.slot with
      | some e => setLoad s i (.check e)
      | none => setLoad
          { setEntry s s.fresh (SpaceEntry.new (if (s.loads i).touch then nowMs else 0)) with
            slot := some s.fresh, fresh := s.fresh + 1 } i (.check s.fresh))
  | _, _ => none

def check : Option Registry :=
  match (s.loads i).phase with
  | .check e => some (if (s.entries e).closing then setLoad s i .done else setLoad s i (.enter e))
  | _ => none

def enter : Option Registry :=
  match (s.loads i).phase with
  | .enter e => match (s.entries e).cell with
    | .ready _ => some (setLoad s i (.opened e))
    | .running _ => none
    | .empty =>
      some (setLoad (setEntry s e { s.entries e with cell := .running i }) i (.connect e))
  | _ => none

def connect (ok : Bool) : Option Registry :=
  match (s.loads i).phase with
  | .connect e => some (if ok
      then setLoad (setEntry s e { s.entries e with cell := .ready false }) i (.opened e)
      else setLoad (setEntry s e { s.entries e with cell := .empty }) i .done)
  | _ => none

def touch (nowMs : ℕ) : Option Registry :=
  match (s.loads i).phase with
  | .opened e => some (setLoad (if (s.loads i).touch
      then setEntry s e { s.entries e with lastAccessMs := nowMs } else s) i (.discover e))
  | _ => none

def discover (ok : Bool) : Option Registry :=
  match (s.loads i).phase with
  | .discover e => some (setLoad s i (if ok then .held e else .done))
  | _ => none

def release : Option Registry :=
  match (s.loads i).phase with
  | .held _ => some (setLoad s i .done)
  | _ => none

def cancelLoad : Option Registry :=
  match (s.loads i).phase with
  | .held _ | .done => none
  | .connect e => some (setLoad (setEntry s e { s.entries e with cell := .empty }) i .done)
  | _ => some (setLoad s i .done)

end Loads

section Runs
variable (s : Registry) (j : ℕ)

def tick (nowMs idleTimeoutMs : ℕ) : Option Registry :=
  match s.lock, s.slot with
  | none, some e => some { s with
      runs := Function.update s.runs s.ticks ⟨nowMs,idleTimeoutMs,.lock e⟩, ticks := s.ticks + 1 }
  | _, _ => none

def lock : Option Registry :=
  match (s.runs j).phase, s.lock with
  | .lock e, none => some (
      if s.slot ≠ some e then setRun s j (.leave e)
      else if (s.entries e).closing then setRun s j (.close e)
      else { setRun s j (.count e) with lock := some j })
  | _, _ => none

def count : Option Registry :=
  match (s.runs j).phase with
  | .count e => some (
      if (s.runs j).nowMs - (s.entries e).lastAccessMs ≤ (s.runs j).idleTimeoutMs ∨
          entryCount s e > 2
      then unlock (setRun s j (.leave e)) else setRun s j (.inspect e))
  | _ => none

def inspect (busy : Bool) : Option Registry :=
  match (s.runs j).phase with
  | .inspect e => some (match (s.entries e).cell with
      | .ready _ => if busy then unlock (setRun s j (.leave e)) else setRun s j (.owners e)
      | _ => unlock { setRun s j (.leave e) with slot := none })
  | _ => none

def owners (tasks : ℕ) : Option Registry :=
  match (s.runs j).phase with
  | .owners e => some (if spaceCount s e tasks > 1
      then unlock (setRun s j (.leave e)) else setRun s j (.mark e))
  | _ => none

def mark : Option Registry :=
  match (s.runs j).phase with
  | .mark e =>
    some (unlock (setRun (setEntry s e { s.entries e with closing := true }) j (.close e)))
  | _ => none

-- The Space's own lock only orders two closes of it, so that they may overlap here.
def close : Option Registry :=
  match (s.runs j).phase with
  | .close e => some (match (s.entries e).cell with
      | .ready _ => setRun (setEntry s e { s.entries e with begun := true }) j (.closing e)
      | _ => setRun s j (.remove e))
  | _ => none

def closed (ok : Bool) : Option Registry :=
  match (s.runs j).phase with
  | .closing e => some (if ok
      then setRun (setEntry s e { s.entries e with cell := .ready true }) j (.remove e)
      else setRun s j (.leave e))
  | _ => none

def remove : Option Registry :=
  match (s.runs j).phase, s.lock with
  | .remove e, none => some (if s.slot = some e
      then { setRun s j (.leave e) with slot := none } else setRun s j (.leave e))
  | _, _ => none

def leave : Option Registry :=
  match (s.runs j).phase with
  | .leave _ => some (setRun s j .done)
  | _ => none

/-- Nothing is awaited between the two ends of the section of the lock. -/
def cancelRun : Option Registry :=
  if s.lock = some j ∨ (s.runs j).phase = .done then none else some (setRun s j .done)

end Runs

def step (s : Registry) : Act → Option Registry
  | .call t => some (call s t)
  | .lookup i => lookup s i
  | .insert i now => insert s i now
  | .check i => check s i
  | .enter i => enter s i
  | .connect i ok => connect s i ok
  | .touch i now => touch s i now
  | .discover i ok => discover s i ok
  | .release i => release s i
  | .cancelLoad i => cancelLoad s i
  | .tick now timeout => tick s now timeout
  | .lock j => lock s j
  | .count j => count s j
  | .inspect j busy => inspect s j busy
  | .owners j tasks => owners s j tasks
  | .mark j => mark s j
  | .close j => close s j
  | .closed j ok => closed s j ok
  | .remove j => remove s j
  | .leave j => leave s j
  | .cancelRun j => cancelRun s j

inductive Reached : Registry → Prop
  | init : Reached .init
  | step (s s' : Registry) (a : Act) : Reached s → step s a = some s' → Reached s'

def run (s : Registry) : List Act → Option Registry
  | [] => some s
  | a::rest => (step s a).bind fun t => run t rest

theorem run_reached (acts : List Act) (s s' : Registry) (hs : Reached s)
    (h : run s acts = some s') : Reached s' := by
  induction acts generalizing s with
  | nil =>
    cases h
    exact hs
  | cons a rest ih =>
    obtain ⟨t,ha,hr⟩ := Option.bind_eq_some_iff.mp h
    exact ih t (.step s t a hs ha) hr

end AndaBrain.SpaceRegistry
