import AndaBrain.KipError
import AndaBrain.Foundation.SortedMap
import AndaBrain.Foundation.Utf8Text

/-!
# The attention directory

`attention/catalog.rs` keeps one root, one entry for each Space and one index object for each slot
of a shard.
-/

set_option autoImplicit false

namespace AndaBrain.Attention
open Foundation Foundation.Utf8Text

def attentionFormat : String := "anda-brain:attention-v1"
def directoryFormat : String := "anda-brain:attention-directory-v1"
def maxCounter : ℕ := 2^53-1
def maxSlots : ℕ := 1000000

structure RuntimePin where
  id : String
  digest : String
  deriving DecidableEq

structure RuntimePins where
  policy : RuntimePin
  evaluator : Option RuntimePin
  binding : Option RuntimePin
  deriving DecidableEq

structure RuntimeScope where
  spaceId : String
  spaceInstance : String
  deriving DecidableEq

structure AttentionConfig where
  scope : RuntimeScope
  pins : RuntimePins
  deriving DecidableEq

structure Registration where
  format : String
  scope : RuntimeScope
  pins : RuntimePins
  version : ℕ
  shard : ℕ
  enabled : Bool
  dirtyGeneration : ℕ
  reconciledGeneration : ℕ
  nextCheckMs : ℕ
  deriving DecidableEq

structure AttentionReport where
  actionsProcessed : ℕ
  actionStates : SortedMap String ℕ
  watchesScanned : ℕ
  advanced : ℕ
  fired : ℕ
  expired : ℕ
  blocked : ℕ
  blockedWakes : ℕ
  blockedReasons : SortedMap String ℕ
  conflicted : ℕ
  wakesScanned : ℕ
  pending : ℕ
  resumed : ℕ
  rechecksDue : ℕ
  scanComplete : Bool
  budgetExhausted : Bool
  error : Option String

def AttentionReport.empty : AttentionReport where
  actionsProcessed := 0
  actionStates := .empty
  watchesScanned := 0
  advanced := 0
  fired := 0
  expired := 0
  blocked := 0
  blockedWakes := 0
  blockedReasons := .empty
  conflicted := 0
  wakesScanned := 0
  pending := 0
  resumed := 0
  rechecksDue := 0
  scanComplete := false
  budgetExhausted := false
  error := none

def bump (counts : SortedMap String ℕ) (key : String) : SortedMap String ℕ :=
  counts.insert key ((counts.lookup key).getD 0+1)

def AttentionReport.defer (r : AttentionReport) (reason : String) (wake : Bool) : AttentionReport :=
  { r with
    blocked := r.blocked+1
    blockedWakes := r.blockedWakes+wake.toNat
    blockedReasons := bump r.blockedReasons reason }

inductive RecheckSource where
  | defer
  | skillReview
  | dependencyInvalidation
  deriving DecidableEq

structure Recheck where
  key : String
  source : RecheckSource
  dueAtMs : ℕ
  notified : Bool
  deriving DecidableEq

structure Checkpoint where
  generation : ℕ
  runnableAfter : String
  allAfter : String
  wakeCursor : Option String
  wakePending : List String
  wakePageCursor : Option String
  wakePageComplete : Bool
  runnableDone : Bool
  allDone : Bool
  wakesDone : Bool
  nextDueMs : Option ℕ
  runningUntilMs : ℕ
  deriving DecidableEq

def Checkpoint.fresh (generation : ℕ) : Checkpoint where
  generation := generation
  runnableAfter := ""
  allAfter := ""
  wakeCursor := none
  wakePending := []
  wakePageCursor := none
  wakePageComplete := false
  runnableDone := false
  allDone := false
  wakesDone := false
  nextDueMs := none
  runningUntilMs := 0

structure Entry where
  format : String
  slot : ℕ
  registration : Registration
  nativeScope : RuntimeScope
  checkpoint : Checkpoint
  lastScanMs : ℕ
  failures : ℕ
  lastReport : AttentionReport
  rechecks : List Recheck

def Entry.id (e : Entry) : String := e.registration.scope.spaceId
def Entry.version (e : Entry) : ℕ := e.registration.version
def Entry.dirty (e : Entry) : ℕ := e.registration.dirtyGeneration
def Entry.reconciled (e : Entry) : ℕ := e.registration.reconciledGeneration

/-- `u32::saturating_add(1)`. -/
def moreFailures (n : ℕ) : ℕ := min (n+1) (2^32-1)

def validId (id : String) : Bool :=
  id != "" && decide (id.utf8ByteSize ≤ 128) && !(id.toList.head?.any isWhitespace) &&
    !(id.toList.getLast?.any isWhitespace) && !(id.toList.any fun c => c == '/' || c == '\\') &&
    id != "." && id != ".." && !startsWithText id "__brain_runtime__"

/-- `next`: the counter after this one. -/
def next (n : ℕ) : Except String ℕ :=
  if n+1 ≤ maxCounter then .ok (n+1) else .error "attention counter exhausted"

def minDue (old : Option ℕ) (new : ℕ) : Option ℕ := some (old.elim new fun v => min v new)

/-- `Entry::validate`. -/
def Entry.valid (e : Entry) (id : String) (shard : ℕ) : Bool :=
  let r := e.registration
  validId id && e.format == directoryFormat && r.format == attentionFormat &&
    r.scope.spaceId == id && r.shard == shard &&
    r.scope.spaceInstance == e.nativeScope.spaceInstance && r.scope.spaceInstance != "" &&
    decide (r.scope.spaceInstance.utf8ByteSize ≤ 256) && r.version != 0 &&
    decide (r.version ≤ maxCounter) && r.dirtyGeneration != 0 &&
    decide (r.dirtyGeneration ≤ maxCounter) &&
    decide (r.reconciledGeneration ≤ r.dirtyGeneration) && decide (e.rechecks.length ≤ 128) &&
    decide (e.checkpoint.wakePending.length ≤ 200) && e.slot != 0 && decide (e.slot ≤ maxSlots)

structure Root where
  format : String
  allocated : ℕ
  cursor : ℕ
  deriving DecidableEq

def Root.start : Root := ⟨directoryFormat,0,0⟩

structure Index where
  format : String
  scope : RuntimeScope
  shard : ℕ
  deriving DecidableEq

structure Store where
  root : Option Root
  entries : String → Option Entry
  index : ℕ → Option Index

def Store.empty : Store := ⟨none,fun _ => none,fun _ => none⟩

/-- What becomes of one write: it is acknowledged, it is made and what follows it fails, or
it fails. -/
inductive Put where
  | done
  | lost (error : String)
  | failed (error : String)

section Writes
variable {α : Type}

def put (answer : Put) (new old : Store) (rest : Store → Store × Except String α) :
    Store × Except String α :=
  match answer with
  | .done => rest new
  | .lost error => (new,.error error)
  | .failed error => (old,.error error)

end Writes

structure Host where
  shard : ℕ
  digest : String → String

def checkRoot (root : Root) : Except String Root :=
  if root.format ≠ directoryFormat ∨ root.allocated > maxSlots ∨ root.cursor > root.allocated then
    .error "invalid attention root"
  else .ok root

/-- `Directory::root`: a missing root is made first. -/
def withRoot {α : Type} (st : Store) (answer : Put) (rest : Root → Store → Store × Except String α) :
    Store × Except String α :=
  match st.root with
  | some root =>
    match checkRoot root with
    | .error e => (st,.error e)
    | .ok root => rest root st
  | none => put answer { st with root := some Root.start } st fun st => rest Root.start st

def page (st : Store) (limit : ℕ) : Except String (List ℕ) :=
  match st.root with
  | none => .ok []
  | some root =>
    match checkRoot root with
    | .error e => .error e
    | .ok root =>
      let start := if root.cursor = root.allocated then 1 else root.cursor+1
      let stop := min root.allocated (start+limit-1)
      .ok (List.range' start (stop+1-start))

def advanceCursor (st : Store) (slot : ℕ) (create answer : Put) : Store × Except String Unit :=
  withRoot st create fun root st =>
    if slot = 0 ∨ slot > root.allocated then (st,.error "invalid attention scan coordinate")
    else put answer { st with root := some { root with cursor := slot } } st fun st => (st,.ok ())

def Store.setEntry (st : Store) (key : String) (e : Entry) : Store :=
  { st with entries := Function.update st.entries key (some e) }

namespace Host
variable (host : Host)

def entry (st : Store) (id : String) : Except String (Option Entry) :=
  if validId id then
    match st.entries (host.digest id) with
    | none => .ok none
    | some e =>
      if e.valid id host.shard then .ok (some e)
      else .error "invalid attention directory identity/version"
  else .error "invalid attention Space ID"

def indexOf (e : Entry) : Index := ⟨directoryFormat,e.registration.scope,host.shard⟩

/-- The index object is only ever created; one with the same bytes acknowledges the write. -/
def putIndex (st : Store) (e : Entry) (answer : Put) : Store × Except String Entry :=
  match st.index e.slot with
  | some old =>
    if old = host.indexOf e then put answer st st fun st => (st,.ok e)
    else (st,.error "attention conditional-write conflict")
  | none =>
    put answer { st with index := Function.update st.index e.slot (some (host.indexOf e)) } st
      fun st => (st,.ok e)

def newEntry (slot : ℕ) (id : String) (native : AttentionConfig) (enabled : Bool) : Entry where
  format := directoryFormat
  slot := slot
  registration :=
    { format := attentionFormat
      scope := ⟨id,native.scope.spaceInstance⟩
      pins := native.pins
      version := 0
      shard := host.shard
      enabled := enabled
      dirtyGeneration := 0
      reconciledGeneration := 0
      nextCheckMs := 0 }
  nativeScope := native.scope
  checkpoint := .fresh 0
  lastScanMs := 0
  failures := 0
  lastReport := .empty
  rechecks := []

def renewed (e : Entry) (native : AttentionConfig) (version dirty : ℕ) : Entry :=
  { e with
    registration := { e.registration with
      version := version
      dirtyGeneration := dirty
      pins := native.pins
      nextCheckMs := 0 }
    failures := 0
    checkpoint := .fresh 0 }

/-- The second half of `Directory::register`: the entry and its index object. -/
def enroll (st : Store) (id : String) (native : AttentionConfig) (e : Entry)
    (entryPut indexPut : Put) : Store × Except String Entry :=
  match next e.version with
  | .error err => (st,.error err)
  | .ok version =>
    match next e.dirty with
    | .error err => (st,.error err)
    | .ok dirty =>
      let e := renewed e native version dirty
      put entryPut (st.setEntry (host.digest id) e) st fun st => host.putIndex st e indexPut

structure RegisterPuts where
  create : Put
  allocate : Put
  entry : Put
  index : Put

def allocate (id : String) (native : AttentionConfig) (enabled : Bool) (puts : RegisterPuts)
    (root : Root) (st : Store) : Store × Except String Entry :=
  if root.allocated ≥ maxSlots then (st,.error "attention directory is full")
  else
    put puts.allocate { st with root := some { root with allocated := root.allocated+1 } } st
      fun st => host.enroll st id native (host.newEntry (root.allocated+1) id native enabled)
        puts.entry puts.index

def register (st : Store) (id : String) (native : AttentionConfig) (enabled : Bool)
    (puts : RegisterPuts) : Store × Except String Entry :=
  match host.entry st id with
  | .error e => (st,.error e)
  | .ok (some old) =>
    if old.nativeScope ≠ native.scope then
      (st,.error "attention instance mismatch; explicit migration required")
    else host.enroll st id native old puts.entry puts.index
  | .ok none =>
    withRoot st puts.create (host.allocate id native enabled puts)

def readSlot (st : Store) (slot : ℕ) : Except String (Option Entry) :=
  match st.index slot with
  | none => .ok none
  | some index =>
    if index.format ≠ directoryFormat ∨ index.shard ≠ host.shard then
      .error "invalid attention slot"
    else
      match host.entry st index.scope.spaceId with
      | .error e => .error e
      | .ok none => .error "attention registration missing"
      | .ok (some e) =>
        if e.slot ≠ slot ∨ e.registration.scope ≠ index.scope then
          .error "attention slot identity mismatch"
        else .ok (some e)

/-- The entry as `finish` writes it. -/
def finished (e : Entry) (version : ℕ) : Entry :=
  { e with
    registration := { e.registration with
      version := version
      reconciledGeneration :=
        if e.lastReport.scanComplete then e.dirty else e.reconciled } }

/-- `Directory::finish`: an entry that has changed since it was read stays as it is. -/
def finish (st : Store) (e : Entry) (answer : Put) : Store × Except String Bool :=
  match host.entry st e.id with
  | .error err => (st,.error err)
  | .ok none => (st,.error "attention registration missing")
  | .ok (some old) =>
    if old.version ≠ e.version ∨ old.dirty ≠ e.dirty then (st,.ok false)
    else
      match next e.version with
      | .error err => (st,.error err)
      | .ok version =>
        put answer (st.setEntry (host.digest e.id) (finished e version)) st fun st => (st,.ok true)

/-- The changes that `edit` is asked for. -/
inductive Change where
  | enable (enabled : Bool)
  | schedule (recheck : Recheck)
  | acknowledge (key : String) (dueAtMs : ℕ)

def replaceFirst {α : Type} (p : α → Bool) (new : α) : List α → List α
  | [] => []
  | a::rest => if p a then new::rest else a::replaceFirst p new rest

def Change.apply : Change → Entry → Except String Entry
  | .enable enabled, e => .ok { e with registration := { e.registration with enabled := enabled } }
  | .schedule recheck, e =>
    if e.rechecks.any fun r => r.key == recheck.key then
      .ok { e with rechecks := replaceFirst (fun r => r.key == recheck.key) recheck e.rechecks }
    else if 128 ≤ e.rechecks.length then .error "recheck queue is full"
    else .ok { e with rechecks := e.rechecks++[recheck] }
  | .acknowledge key dueAtMs, e =>
    if e.rechecks.any fun r => r.key == key && r.dueAtMs == dueAtMs then
      .ok { e with rechecks := e.rechecks.eraseP fun r => r.key == key && r.dueAtMs == dueAtMs }
    else .error "recheck changed or unavailable"

def edited (e : Entry) (version dirty : ℕ) : Entry :=
  { e with
    registration := { e.registration with
      version := version
      dirtyGeneration := dirty
      nextCheckMs := 0 }
    failures := 0 }

def edit (st : Store) (id : String) (change : Change) (answer : Put) : Store × Except String Unit :=
  match host.entry st id with
  | .error err => (st,.error err)
  | .ok none => (st,.error "attention registration missing")
  | .ok (some old) =>
    match change.apply old with
    | .error err => (st,.error err)
    | .ok e =>
      match next e.version with
      | .error err => (st,.error err)
      | .ok version =>
        match next e.dirty with
        | .error err => (st,.error err)
        | .ok dirty =>
          put answer (st.setEntry (host.digest id) (edited e version dirty)) st fun st => (st,.ok ())

end Host

end AndaBrain.Attention
