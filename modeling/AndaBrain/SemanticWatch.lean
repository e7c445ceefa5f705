import AndaBrain.AttentionDirectory
import AndaBrain.Json
import AndaBrain.Foundation.ConditionalStore
import Mathlib.Data.List.Dedup

/-!
# The evaluation of Watches by a model

`attention/semantic.rs` and `attention/semantic/runtime.rs`: a pass takes the armed Watches with a
condition in text one after the other.
-/

set_option autoImplicit false

namespace AndaBrain.Semantic
open Foundation Foundation.Resumption Foundation.ConditionalStore Foundation.Utf8Text
open Attention (RuntimePin next)

structure SemanticLimits where
  watchesPerPass : ℕ
  candidatesPerPage : ℕ
  inputTokens : ℕ
  outputTokens : ℕ
  passInputTokens : ℕ
  retryMs : ℕ
  attemptsPerPage : ℕ

structure SemanticPass where
  scanned : ℕ
  calls : ℕ
  inputTokens : ℕ
  advanced : ℕ
  fired : ℕ
  expired : ℕ
  deferred : ℕ
  reason : Option String
  deriving DecidableEq

def SemanticPass.empty : SemanticPass := ⟨0,0,0,0,0,0,0,none⟩

inductive WatchMatch where
  | matches
  | noMatch
  | unknown
  deriving DecidableEq

structure WatchJudgment where
  candidateId : String
  result : WatchMatch
  rationale : String
  deriving DecidableEq

structure WatchEvaluation where
  evaluationKey : String
  evaluator : Option RuntimePin
  judgments : List WatchJudgment
  deriving DecidableEq

/-- A candidate transition of a page; `changeId` is the ID of its change where it has one. -/
structure Candidate where
  id : String
  changeId : Option String

structure PreparedWatchPage where
  ticketRef : String
  pageDigest : String
  condition : Json
  evaluator : Option RuntimePin
  watchRef : String
  expectedVersion : ℕ
  armGeneration : ℕ
  candidates : List Candidate

structure Reply where
  ticketRef : String
  pageDigest : String
  conditionDigest : String
  evaluator : RuntimePin
  judgments : List WatchJudgment

inductive NativeCode where
  | versionConflict
  | notAuthorized
  | notFoundOrNotVisible
  | unsupportedCapability
  | resourceExhausted
  | another (name : String)
  deriving DecidableEq

inductive NativeError where
  | kip (code : NativeCode) (message : String)
  | other (message : String)
  deriving DecidableEq

/-- An error of a call: from outside, of the object store, or of the program itself. -/
inductive Failure where
  | native (error : NativeError)
  | store (message : String)
  | host (message : String)
  deriving DecidableEq

def Failure.definite : Failure → Bool
  | .native (.kip (.another _) _) => false
  | .native (.kip _ _) => true
  | _ => false

/-- The parts of the program that are fixed: its limits and pin, the tokenizer, the digest,
the reader of replies, and the pages by their tickets. -/
structure Site where
  limits : SemanticLimits
  pin : RuntimePin
  scope : Json
  count : String → Except String ℕ
  digest : Json → Except NativeError String
  parse : String → Except String Reply
  requestTokens : PreparedWatchPage → Except NativeError ℕ
  page : String → PreparedWatchPage

section Judgments
variable (site : Site)

def covers : List String → List WatchJudgment → Bool
  | _, [] => true
  | remaining, j::js =>
    remaining.contains j.candidateId && !(j.rationale.toList.all isWhitespace) &&
      decide (j.rationale.utf8ByteSize ≤ 4096) && covers (remaining.erase j.candidateId) js

def checkReply (page : PreparedWatchPage) (reply : Reply) : Except String (List WatchJudgment) :=
  let mismatched := "semantic_incomplete_or_mismatched_receipt"
  if reply.ticketRef ≠ page.ticketRef ∨ reply.pageDigest ≠ page.pageDigest then .error mismatched
  else
    match site.digest page.condition with
    | .error _ => .error "content digest unavailable"
    | .ok digest =>
      if reply.conditionDigest ≠ digest ∨ some reply.evaluator ≠ page.evaluator ∨
          reply.judgments.length ≠ page.candidates.length then .error mismatched
      else if covers (page.candidates.map Candidate.id).dedup reply.judgments then .ok reply.judgments
      else .error "semantic_invalid_judgment"

/-- `judgments`: a reply of the evaluator is taken whole or not at all. -/
def judgments (raw : String) (page : PreparedWatchPage) (limit : ℕ) :
    Except String (List WatchJudgment) := do
  if raw.utf8ByteSize > 262144 then .error "semantic_output_budget_exceeded"
  let tokens ← site.count raw
  if tokens > limit then .error "semantic_output_budget_exceeded"
  let reply ← site.parse raw
  checkReply site page reply

def unknown (page : PreparedWatchPage) (reason : String) : List WatchJudgment :=
  page.candidates.map fun c => ⟨c.id,.unknown,"Host withheld coverage: "++reason⟩

end Judgments

structure SemanticProgress where
  ticketRef : Option String
  evaluationRef : Option String
  status : Option String
  reason : Option String
  deriving DecidableEq

structure ArtifactPin where
  id : String
  digest : String
  deriving DecidableEq

structure Job where
  watch : String
  version : ℕ
  generation : ℕ
  epoch : ℕ
  attempts : ℕ
  ticket : Option String
  evaluation : Option ArtifactPin
  accepted : Bool
  progress : SemanticProgress
  retryAtMs : ℕ
  deriving DecidableEq

structure Cursor where
  after : String
  pending : Option String
  last : SemanticPass
  deriving DecidableEq

def Cursor.start : Cursor := ⟨"",none,.empty⟩

inductive Key where
  | cursor
  | job (watch : String)
  deriving DecidableEq

abbrev Entry : Key → Type
  | .cursor => Cursor
  | .job _ => Job

instance (k : Key) : DecidableEq (Entry k) := by
  cases k with
  | cursor => exact inferInstanceAs (DecidableEq Cursor)
  | job watch => exact inferInstanceAs (DecidableEq Job)

/-- A Watch as the native store holds it. One that was purged is not armed any more. -/
structure Watch where
  version : ℕ
  generation : Option ℕ
  status : String
  condition : Json

structure Change where
  id : String
  watch : Watch

structure Artifact where
  body : WatchEvaluation
  sources : List String

/-- What is recorded of a run: the calls of the evaluator, and the evaluations that were
handed to `commit_watch_page`. -/
inductive Happening where
  | called (ticket watch : String) (version generation epoch : ℕ)
  | committed (ticket : String) (evaluation : WatchEvaluation)
  deriving DecidableEq

/-- The state: the objects of the program, the native Watches and artifacts, and the record
of the run, the latest first. -/
structure World where
  directory : Store Key Entry
  watches : SortedMap String Watch
  artifacts : ArtifactPin → Option Artifact
  trail : List Happening

inductive Provider where
  | raw (text : String)
  | unavailable
  | panicked
  | timedOut

structure CommitResult where
  status : Option String
  evaluationRef : Option String

/-- What one step meets: the object store, the changes of Watches since the step before, the
clock, and the answers of the native calls and of the evaluator. -/
structure Env where
  service : Service String
  changes : List Change
  context : Except NativeError Unit
  sameConfig : Bool
  nowMs : ℕ
  late : Bool
  native : Option NativeError
  stored : Bool
  ticket : Option String
  pin : ArtifactPin
  provider : Provider
  commit : CommitResult

instance : Holds World Key Entry where
  store := World.directory
  withStore w st := { w with directory := st }
  store_withStore _ _ := rfl

instance : Serves Env String where
  service := Env.service
  refused := "precondition"
  conflict := "attention conditional-write conflict"

def changeWatch (watches : SortedMap String Watch) (c : Change) : SortedMap String Watch :=
  match watches.lookup c.id with
  | some old => if old.version < c.watch.version then watches.insert c.id c.watch else watches
  | none => watches.insert c.id c.watch

def World.changed (w : World) (changes : List Change) : World :=
  { w with watches := changes.foldl changeWatch w.watches }

def World.record (w : World) (h : Happening) : World := { w with trail := h::w.trail }

def World.putArtifact (w : World) (pin : ArtifactPin) (artifact : Artifact) : World :=
  { w with artifacts := Function.update w.artifacts pin (some artifact) }

abbrev M (α : Type) := Prog Failure Env World α

/-- A step outside of the object store: others come first, then it acts and answers. -/
def outside {α : Type} (act : Env → World → World) (f : Env → World → Except Failure α) : M α :=
  .step (fun i w => act i (w.changed i.changes)) fun i w => lift (f i (w.changed i.changes))

def look {α : Type} (f : Env → World → Except Failure α) : M α := outside (fun _ w => w) f

def ask {α : Type} (f : Env → World → Except Failure α) : M α :=
  look fun i w => i.native.elim (f i w) fun e => .error (.native e)

def context : M Unit := look fun i _ => i.context.mapError .native

def clock : M ℕ := look fun i _ => .ok i.nowMs

def deadline : M Bool := look fun i _ => .ok i.late

def save (k : Key) (v : Entry k) : M Unit := mapFail Failure.store (confirmedSave k v)

def fetch (k : Key) : M (Option (Entry k)) :=
  mapFail Failure.store do
    let found ← read k
    .ret (found.map Versioned.value)

structure Stop where
  failure : Failure
  job : Job
  pass : SemanticPass

def holding {α : Type} (job : Job) (pass : SemanticPass) (p : M α) : Prog Stop Env World α :=
  mapFail (fun e => ⟨e,job,pass⟩) p

section Evaluate
variable (site : Site)

/-- The page that the job asks for; the digest of its basis makes the call repeatable. -/
def prepareWatchPage (job : Job) : M String := do
  let _ ← lift ((site.digest (.obj [("scope",site.scope),("pin",.str site.pin.digest),
    ("watch",.str job.watch),("version",.int job.version),
    ("generation",.int job.generation)])).mapError .native)
  ask fun i _ => i.ticket.elim (.error (.host "native prepared page missing")) .ok

def prepared (job : Job) (pass : SemanticPass) : Prog Stop Env World (Job × String) :=
  match job.ticket with
  | some ticket => .ret (job,ticket)
  | none => do
    let ticket ← holding job pass (prepareWatchPage site job)
    let job := { job with
      ticket := some ticket
      progress := { job.progress with ticketRef := some ticket } }
    holding job pass (save (.job job.watch) job)
    .ret (job,ticket)

def readPage (job : Job) (ticket : String) : M PreparedWatchPage := do
  let page ← ask fun _ _ => .ok (site.page ticket)
  refuseIf (page.evaluator ≠ some site.pin ∨ page.watchRef ≠ job.watch ∨
    page.expectedVersion ≠ job.version ∨ page.armGeneration ≠ job.generation)
    (.host "semantic prepared page does not match host intent")
  .ret page

def readArtifact (pin : ArtifactPin) : M WatchEvaluation :=
  ask fun _ w => (w.artifacts pin).elim
    (.error (.native (.kip .notFoundOrNotVisible "artifact"))) fun a => .ok a.body

def checkWatch (job : Job) : M Unit :=
  look fun i w =>
    if i.native.isNone ∧ ((w.watches.lookup job.watch).any fun n => n.version == job.version &&
        n.status == "armed" && n.generation == some job.generation) = true then .ok ()
    else .error (.native (.kip .versionConflict "semantic Watch changed before model dispatch"))

def callEvaluator (job : Job) (ticket : String) : M Provider :=
  outside (fun _ w => w.record (.called ticket job.watch job.version job.generation job.epoch))
    fun i _ => .ok i.provider

/-- What is made of the answer of the evaluator: judgments, or the reason why there are
none. -/
def readProvider (page : PreparedWatchPage) : Provider → Except String (List WatchJudgment)
  | .raw text => (judgments site text page site.limits.outputTokens).mapError
      fun _ => "semantic_invalid_or_truncated_receipt"
  | .unavailable => .error "semantic_provider_unavailable"
  | .panicked => .error "semantic_evaluator_panicked"
  | .timedOut => .error "semantic_evaluator_timeout"

def putArtifact (artifact : Artifact) : M ArtifactPin :=
  let free := fun (i : Env) (w : World) =>
    (w.artifacts i.pin).all fun a => decide (a.body = artifact.body)
  outside
    (fun i w =>
      if free i w = true ∧ (i.native.isNone ∨ i.stored = true) then w.putArtifact i.pin artifact else w)
    fun i w =>
      match i.native with
      | some e => .error (.native e)
      | none =>
        if free i w then .ok i.pin
        else .error (.native (.kip (.another "IdempotencyConflict") "artifact"))

/-- The judgments of a page: the evaluator is asked where there is something to judge. -/
def judged (job : Job) (pass : SemanticPass) (ticket : String) (page : PreparedWatchPage)
    (tokens : ℕ) : Prog Stop Env World (List WatchJudgment × Job × SemanticPass) :=
  if page.candidates.isEmpty then .ret ([],job,pass)
  else do
    let pass := { pass with calls := pass.calls+1, inputTokens := pass.inputTokens+tokens }
    let answer ← holding job pass (callEvaluator job ticket)
    match readProvider site page answer with
    | .ok rows => .ret (rows,job,pass)
    | .error reason =>
      .ret (unknown page reason,{ job with progress := { job.progress with reason := some reason } },pass)

/-- A new evaluation: the attempt is saved before the evaluator is called, and the pin of
the stored judgments after. -/
def attempted (job : Job) (pass : SemanticPass) (ticket : String) (page : PreparedWatchPage)
    (tokens : ℕ) : Prog Stop Env World (WatchEvaluation × Job × SemanticPass) := do
  let job := { job with
    attempts := job.attempts+1
    progress := { job.progress with reason := none } }
  holding job pass (save (.job job.watch) job)
  let (rows,job,pass) ← judged site job pass ticket page tokens
  let key ← holding job pass (lift ((site.digest (.obj [("ticket",.str ticket),
    ("pin",.str site.pin.digest),("epoch",.int job.epoch),("attempt",.int job.attempts)])).mapError
      .native))
  let evaluation : WatchEvaluation := ⟨key,some site.pin,rows⟩
  let pin ← holding job pass
    (putArtifact ⟨evaluation,job.watch::page.candidates.filterMap Candidate.changeId⟩)
  let job := { job with evaluation := some pin }
  holding job pass (save (.job job.watch) job)
  .ret (evaluation,job,pass)

def evaluation (job : Job) (pass : SemanticPass) (ticket : String) (page : PreparedWatchPage) :
    Prog Stop Env World (Option WatchEvaluation × Job × SemanticPass) :=
  match job.evaluation with
  | some pin => do
    let found ← holding job pass (readArtifact pin)
    .ret (some found,job,pass)
  | none => do
    holding job pass (checkWatch job)
    if page.candidates.length > site.limits.candidatesPerPage then
      let job := { job with
        progress := { job.progress with reason := some "semantic_page_budget_exceeded" }
        attempts := site.limits.attemptsPerPage }
      holding job pass (save (.job job.watch) job)
      .ret (none,job,pass)
    else
      let tokens ← holding job pass (lift ((site.requestTokens page).mapError .native))
      let late ← holding job pass deadline
      if page.candidates.isEmpty = false ∧ (tokens > site.limits.inputTokens ∨
          tokens > site.limits.passInputTokens-pass.inputTokens ∨ late = true) then
        let job := { job with
          progress := { job.progress with reason := some "semantic_input_or_pass_budget_exhausted" } }
        holding job pass (save (.job job.watch) job)
        .ret (none,job,pass)
      else
        let (found,job,pass) ← attempted site job pass ticket page tokens
        .ret (some found,job,pass)

def commitWatchPage (ticket : String) (evaluation : WatchEvaluation) : M CommitResult :=
  outside (fun _ w => w.record (.committed ticket evaluation)) fun i _ =>
    i.native.elim (.ok i.commit) fun e => .error (.native e)

def conclude (job : Job) (pass : SemanticPass) (ticket : String) (evaluation : WatchEvaluation) :
    Prog Stop Env World (Job × SemanticPass) := do
  let same ← holding job pass (look fun i _ => (i.context.mapError .native).map fun _ => i.sameConfig)
  refuseIf (same = false) ⟨.host "semantic configuration changed during evaluation",job,pass⟩
  let result ← holding job pass (commitWatchPage ticket evaluation)
  let accepted := decide (result.status ≠ some "deferred")
  let reason := if accepted then none else some (job.progress.reason.getD "semantic_unknown")
  let progress := { job.progress with
    status := result.status, evaluationRef := result.evaluationRef, reason := reason }
  let job := { job with accepted := accepted, progress := progress, evaluation := none }
  let now ← holding job pass clock
  let job := { job with retryAtMs := now+site.limits.retryMs }
  holding job pass (save (.job job.watch) job)
  .ret (job,pass)

def evaluate (job : Job) (pass : SemanticPass) : Prog Stop Env World (Job × SemanticPass) :=
  if job.accepted then .ret (job,pass)
  else do
    let now ← holding job pass clock
    if job.evaluation.isNone ∧ (job.retryAtMs > now ∨ job.attempts ≥ site.limits.attemptsPerPage) then
      let reason := job.progress.reason.getD "semantic_attempt_budget_exhausted"
      .ret ({ job with progress := { job.progress with reason := some reason } },pass)
    else
      let (job,ticket) ← prepared site job pass
      let page ← holding job pass (readPage site job ticket)
      let (found,job,pass) ← evaluation site job pass ticket page
      match found with
      | none => .ret (job,pass)
      | some found => conclude site job pass ticket found

end Evaluate

section Passes
variable (site : Site)

def tally (job : Job) (pass : SemanticPass) : SemanticPass :=
  if job.accepted then
    { pass with
      advanced := pass.advanced+1
      fired := pass.fired+(job.progress.status == some "fired").toNat
      expired := pass.expired+(job.progress.status == some "expired").toNat }
  else { pass with deferred := pass.deferred+1, reason := job.progress.reason }

/-- `process`: only a definite refusal gives the evaluation up. -/
def process (watch : String) (pass : SemanticPass) : M SemanticPass := do
  let pass := { pass with scanned := pass.scanned+1 }
  let found ← fetch (.job watch)
  let job ← lift (found.elim (.error (.host "semantic pending job missing")) .ok)
  let outcome ← mapFail Stop.failure (attempt (evaluate site job pass))
  match outcome with
  | .ok (job,pass) => .ret (tally job pass)
  | .error ⟨failure,job,pass⟩ =>
    if failure.definite then do
      let job := { job with
        evaluation := none
        attempts := site.limits.attemptsPerPage
        progress := { job.progress with
          reason := some "semantic_native_basis_or_material_unavailable" } }
      save (.job watch) job
      .ret (tally job pass)
    else .fail failure

structure Row where
  id : String
  version : ℕ
  generation : ℕ

/-- The rows of the discovery: armed Watches behind a row that are not fully structured. -/
def Watch.discovered (after id : String) (n : Watch) : Bool :=
  n.status == "armed" && decide (after < id) &&
    (n.condition.index "text" != .null ||
      ["element","slot","type"].all fun key => n.condition.index key == .null)

def rowOf (after : String) (e : String × Watch) : Option Row :=
  if e.2.discovered after e.1 then e.2.generation.map fun generation => ⟨e.1,e.2.version,generation⟩
  else none

def discover (after : String) : M (List Row) :=
  look fun i w =>
    if i.native.isSome then .error (.host "semantic Watch discovery unavailable")
    else .ok ((w.watches.entries.filterMap (rowOf after)).take site.limits.watchesPerPass)

def newJob (row : Row) : Job where
  watch := row.id
  version := row.version
  generation := row.generation
  epoch := 0
  attempts := 0
  ticket := none
  evaluation := none
  accepted := false
  progress := ⟨none,none,none,none⟩
  retryAtMs := 0

def unrecovered : Failure :=
  .host "pending semantic commit must be recovered before replacing its input"

def openJob (row : Row) : M Unit := do
  let old ← fetch (.job row.id)
  doIf (old.all (fun job => decide (job.version ≠ row.version ∨ job.generation ≠ row.generation)) = true) do
    refuseIf (old.any (fun job => job.evaluation.isSome) = true) unrecovered
    save (.job row.id) (newJob row)

def saveCursor (cursor : Cursor) : M Unit := save .cursor cursor

def settle (watch : String) (cursor : Cursor) (pass : SemanticPass) : M (Cursor × SemanticPass) := do
  let pass ← process site watch pass
  let cursor := { cursor with after := watch, pending := none }
  saveCursor cursor
  .ret (cursor,pass)

def passRows : List Row → Cursor → SemanticPass → M (Cursor × SemanticPass × Bool)
  | [], cursor, pass => .ret (cursor,pass,true)
  | row::rows, cursor, pass => do
    let late ← deadline
    if pass.scanned ≥ site.limits.watchesPerPass ∨ late = true then .ret (cursor,pass,false)
    else do
      openJob row
      let cursor := { cursor with pending := some row.id }
      saveCursor cursor
      let (cursor,pass) ← settle site row.id cursor pass
      passRows rows cursor pass

def recover (cursor : Cursor) : M (Cursor × SemanticPass) :=
  match cursor.pending with
  | some watch => settle site watch cursor .empty
  | none => .ret (cursor,.empty)

def pass : M SemanticPass := do
  context
  let found ← fetch .cursor
  let (cursor,pass) ← recover site (found.getD .start)
  let rows ← discover site cursor.after
  let (cursor,pass,complete) ← passRows site rows cursor pass
  let after := if complete = true ∧ rows.length < site.limits.watchesPerPass then "" else cursor.after
  saveCursor { cursor with after := after, last := pass }
  .ret pass

/-- `str::parse::<u64>` succeeds. -/
def parsesU64 (text : List Char) : Bool :=
  let digits := match text with
    | '+'::rest => rest
    | _ => text
  !digits.isEmpty && digits.all Char.isDigit &&
    decide (digits.foldl (fun n c => n*10+(c.toNat-48)) 0 < 2^64)

def validWatchId (watch : String) : Bool :=
  startsWithText watch "C-" && parsesU64 (watch.toList.drop 2)

/-- `retry`: the operator opens a new epoch of attempts. -/
def retry (watch : String) : M Unit := do
  context
  refuseIf (validWatchId watch = false) (.host "invalid semantic Watch ID")
  let found ← fetch (.job watch)
  let job ← lift (found.elim (.error (.host "semantic work not found")) .ok)
  refuseIf (job.evaluation.isSome = true ∨ job.accepted = true)
    (.host "resolve pending/accepted semantic commit before retry")
  let epoch ← lift ((next job.epoch).mapError .host)
  save (.job watch) { job with
    epoch := epoch
    attempts := 0
    retryAtMs := 0
    progress := { job.progress with reason := none } }

inductive Op where
  | pass
  | retry (watch : String)
  deriving DecidableEq

def operate : Op → M (Option SemanticPass)
  | .pass => do
    let result ← pass site
    .ret (some result)
  | .retry watch => do
    retry watch
    .ret none

end Passes

end AndaBrain.Semantic
