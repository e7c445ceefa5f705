import AndaBrain.RevisedRoots

/-!
# The correction pages of the Worker

`scanCorrections` of `settle.ts` reads the next superseded Assertions, `MaintenanceWork` of
`maintenance.ts` keeps their page until its roots are acknowledged, and `brain.ts` opens, settles
and plans maintenance over it.
-/

set_option autoImplicit false

namespace AndaBrain.WorkerCorrections
open Settlement Foundation.SortBy
open RevisedRoots (Dependent RevisedRoot Mark)

def correctionScanLimit : ℕ := 20

structure CorrectionPage where
  revisedRoots : List RevisedRoot
  cursor : ℕ
  cursorAfterId : Option String
  incomplete : Bool
  error : Option String

structure Walk where
  dependents : List Dependent
  truncated : Bool

def rootOf (row : SupersededRow) (walk : Option Walk) : RevisedRoot where
  assertion := row.assertion
  proposition := row.proposition
  actor := row.actor
  supersededBy := row.supersededBy
  spaceSeq := row.spaceSeq
  dependents := walk.elim [] Walk.dependents
  truncated := walk.elim true Walk.truncated

/-- `''` is no id. -/
def idOf (afterId : String) : Option String := if afterId = "" then none else some afterId

def failedPage (after : CorrectionCursor) (error : String) : CorrectionPage :=
  ⟨[], after.seq, idOf after.afterId, true, some error⟩

def scannedPage (after : CorrectionCursor) (incomplete : Bool) (selected : List SupersededRow)
    (walk : String → Option Walk) : CorrectionPage :=
  let roots := selected.map fun row => rootOf row (walk row.assertion)
  match selected.getLast? with
  | some last =>
    ⟨roots, last.spaceSeq, if incomplete then some last.assertion else none, incomplete, none⟩
  | none => ⟨roots, after.seq, if incomplete then idOf after.afterId else none, incomplete, none⟩

def scanCorrections (after : CorrectionCursor) (found : Except String Response)
    (walk : String → Option Walk) : CorrectionPage :=
  match found with
  | .error error => failedPage after error
  | .ok response =>
    match response.result.bind Json.asArray with
    | none => failedPage after "correction scan returned no row array"
    | some rows =>
      let roots := supersededRows rows
      if roots.length ≠ rows.length then
        failedPage after "correction scan returned an unreadable row; cursor retained"
      else
        scannedPage after (decide (correctionScanLimit ≤ rows.length) || response.nextCursor)
          (sortBy rowBefore (roots.filter (beyond after))) walk

/-- How the graph answers `supersededCommand`. -/
def replyTo (history : History) (after : CorrectionCursor) : Answer → Except String Response
  | .failed error => .error error
  | .noArray result nextCursor _ => .ok ⟨result, nextCursor⟩
  | .page limit more unreadable =>
    let rows := (history.matching after).take (min limit correctionScanLimit)
    .ok
      { result := some (.arr (rows.mapIdx fun n row => ((unreadable n).map Subtype.val).getD
          (render row)))
        nextCursor := more ||
          (decide (limit < correctionScanLimit) &&
            decide (limit < (history.matching after).length)) }

/-! ## `maintenance.ts` -/

structure MaintenanceRun where
  id : String
  epoch : ℕ
  expiresAt : ℕ

structure Kv where
  pending : Option CorrectionPage
  revisedRoots : Option (List RevisedRoot)
  cursor : Option Mark
  run : Option MaintenanceRun

def clearMaintenanceContext (kv : Kv) : Kv := { kv with pending := none, revisedRoots := none }

/-- The two readings of the clock are `now`; `id` is the random one. -/
def Kv.begin (kv : Kv) (epoch expiresAt now : ℕ) (id : String) : Except String Kv :=
  if kv.run.any fun old => old.epoch == epoch && decide (old.expiresAt > now) then
    .error "maintenance_busy"
  else if expiresAt ≤ now ∨ now+300000 < expiresAt then .error "maintenance_run_expired"
  else .ok { kv with run := some ⟨id, epoch, expiresAt⟩ }

def Kv.check (kv : Kv) (id : String) (epoch now : ℕ) : Except String Unit :=
  match kv.run with
  | none => .error "maintenance_run_expired"
  | some run =>
    if run.id ≠ id ∨ run.epoch ≠ epoch ∨ run.expiresAt ≤ now then .error "maintenance_run_expired"
    else .ok ()

def Kv.release (kv : Kv) (id : String) : Kv :=
  if kv.run.any fun run => run.id == id then { kv with run := none } else kv

/-- `{seq: page.cursor, after_id: page.cursor_after_id ?? ''}` -/
def CorrectionPage.position (page : CorrectionPage) : CorrectionCursor :=
  ⟨page.cursor, page.cursorAfterId.getD ""⟩

def Kv.save (kv : Kv) (page : CorrectionPage) : Kv :=
  let kept : Kv :=
    if page.error.getD "" = "" then
      if page.revisedRoots.length > 0 then { kv with pending := some page }
      else { kv with pending := none, cursor := some (.cursor page.position) }
    else kv
  { kept with revisedRoots := some page.revisedRoots }

def Kv.validateAcknowledgement (kv : Kv) (ids : List String) : Except String Unit :=
  let roots := kv.pending.elim [] CorrectionPage.revisedRoots
  if ids.any fun id => !roots.any fun root => root.assertion == id then
    .error "invalid_correction_acknowledgement"
  else .ok ()

def Kv.acknowledge (kv : Kv) (ids : List String) : Except String Kv := do
  kv.validateAcknowledgement ids
  match kv.pending with
  | none => .ok kv
  | some page =>
    let remaining := page.revisedRoots.filter fun root => !ids.contains root.assertion
    if remaining.length > 0 then
      .ok { kv with
        pending := some { page with revisedRoots := remaining }, revisedRoots := some remaining }
    else .ok (clearMaintenanceContext { kv with cursor := some (.cursor page.position) })

/-! ## `brain.ts` -/

/-- The processing epoch of the product, and whether a change or a scrub is pending. -/
structure Control where
  epoch : ℕ
  busy : Bool

structure World where
  kv : Kv
  control : Control
  history : History
  acknowledged : List (ℕ × String)

def World.position (w : World) : CorrectionCursor := RevisedRoots.resume w.kv.cursor

def World.checkProcessing (w : World) (epoch : ℕ) : Except String Unit :=
  if w.control.busy then .error "memory_change_pending"
  else if epoch ≠ w.control.epoch then .error "memory_changed_rebuild_context"
  else .ok ()

def World.checkRun (w : World) (run : Option String) (epoch now : ℕ) : Except String Unit :=
  match run with
  | none => .ok ()
  | some id => w.kv.check id epoch now

structure Found where
  scan : Answer
  walk : String → Option Walk

def World.settleMemory (w : World) (run : Option String) (epoch now : ℕ) (found : Found) :
    Except String World := do
  w.checkProcessing epoch
  w.checkRun run epoch now
  let page := w.kv.pending.getD
    (scanCorrections w.position (replyTo w.history w.position found.scan) found.walk)
  .ok { w with kv := w.kv.save page }

/-- `later` is the clock of the second check, `reads` whether the reads behind it succeed. -/
def World.openMaintenance (w : World) (expiresAt now later : ℕ) (id : String) (found : Found)
    (reads : Bool) : Except String World := do
  let epoch := w.control.epoch
  w.checkProcessing epoch
  let kv ← w.kv.begin epoch expiresAt now id
  let begun : World := { w with kv := kv }
  match begun.settleMemory (some id) epoch later found with
  | .error _ => .ok { begun with kv := begun.kv.release id }
  | .ok settled =>
    if reads then .ok settled else .ok { settled with kv := settled.kv.release id }

def Kv.named (kv : Kv) (ids : List String) : List (ℕ × String) :=
  ((kv.pending.elim [] CorrectionPage.revisedRoots).filter fun root =>
    ids.contains root.assertion).map fun root => (root.spaceSeq, root.assertion)

def World.acknowledge (w : World) (ids : List String) : Except String World := do
  let kv ← w.kv.acknowledge ids
  .ok { w with kv := kv, acknowledged := w.acknowledged++w.kv.named ids }

def World.acknowledgeCorrections (w : World) (ids : List String) (epoch : ℕ) :
    Except String World := do
  w.checkProcessing epoch
  w.acknowledge ids

/-- A plan: `commits` are the transactions its operations committed, `failed` whether one of
them failed. -/
structure Plan where
  epoch : ℕ
  run : Option String
  now : ℕ
  reviewed : List String
  commits : List Transaction
  failed : Bool

def World.executeMaintenancePlan (w : World) (plan : Plan) : Except String World := do
  w.checkProcessing plan.epoch
  w.checkRun plan.run plan.epoch plan.now
  w.kv.validateAcknowledgement plan.reviewed
  let worked : World := { w with history := plan.commits.foldl History.commit w.history }
  if plan.run.isSome && !plan.failed then worked.acknowledge plan.reviewed else .ok worked

/-! ## Runs -/

inductive Event where
  | transaction (t : Transaction)
  | settle (run : Option String) (epoch now : ℕ) (found : Found)
  | openMaintenance (expiresAt now later : ℕ) (id : String) (found : Found) (reads : Bool)
  | plan (plan : Plan)
  | acknowledge (ids : List String) (epoch : ℕ)
  | closeMaintenance (id : String)
  | managed (next : Control) (clears : Bool)

def World.call (w : World) : Event → Except String World
  | .transaction t => .ok { w with history := w.history.commit t }
  | .settle run epoch now found => w.settleMemory run epoch now found
  | .openMaintenance expiresAt now later id found reads =>
    w.openMaintenance expiresAt now later id found reads
  | .plan plan => w.executeMaintenancePlan plan
  | .acknowledge ids epoch => w.acknowledgeCorrections ids epoch
  | .closeMaintenance id => .ok { w with kv := w.kv.release id }
  | .managed next clears =>
    .ok { w with control := next, kv := if clears then clearMaintenanceContext w.kv else w.kv }

def World.step (w : World) (e : Event) : World := (w.call e).toOption.getD w

def World.start : World := ⟨⟨none, none, none, none⟩, ⟨0, false⟩, ⟨[], 0⟩, []⟩

def run (events : List Event) : World := events.foldl World.step World.start

/-- The `revised_roots` of an assessment. -/
def World.offered (w : World) : List RevisedRoot := w.kv.revisedRoots.getD []

end AndaBrain.WorkerCorrections
