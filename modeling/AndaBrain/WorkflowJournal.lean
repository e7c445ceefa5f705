import Mathlib.Data.List.Basic
import Mathlib.Data.Nat.Notation
import Mathlib.Tactic.MkIffOfInductiveProp

/-!
# The journal of a workflow attempt

`verify_journal` of `learning/workflow_http.rs` replays the events a host recorded, and
`classify` of `learning/runtime.rs` turns what was measured into the outcome of the attempt.
-/

set_option autoImplicit false

namespace AndaBrain.WorkflowJournal

inductive WorkflowRequirement where
  | required
  | unnecessary
  | forbidden
  deriving DecidableEq

structure WorkflowState where
  preparationRequirement : WorkflowRequirement
  prepared : Bool
  committed : Bool
  deriving DecidableEq

inductive WorkflowAction where
  | inspect
  | prepare
  | commit
  deriving DecidableEq

structure WorkflowEvent where
  sequence : ℕ
  action : WorkflowAction
  before : WorkflowState
  after : WorkflowState
  succeeded : Bool

structure PairCase where
  taskDigest : String
  initialStateDigest : String
  seed : String
  deriving DecidableEq

structure Journal (ι : Type) where
  format : String
  dispatchId : String
  attemptRef : String
  fencingToken : ℕ
  identity : ι
  case : PairCase
  initialState : WorkflowState
  events : List WorkflowEvent
  startedAtMs : ℕ
  finishedAtMs : Option ℕ
  finished : Bool
  accountingComplete : Bool
  inputTokens : Option ℕ
  outputTokens : Option ℕ

structure Budget where
  toolCalls : ℕ
  elapsedMs : ℕ
  inputTokens : ℕ
  outputTokens : ℕ

structure Plan where
  pairs : String → Option PairCase
  budget : Budget

structure Ticket where
  pairId : String
  dispatchId : String
  attemptRef : String
  fencingToken : ℕ
  startedAt : String
  plan : Plan

def isHex (c : Char) : Bool := c.isDigit || (decide ('a' ≤ c) && decide (c ≤ 'f'))

def isDigest (value : String) : Bool :=
  "sha256:".toList.isPrefixOf value.toList && (value.toList.drop 7).length == 64 &&
    (value.toList.drop 7).all isHex

structure Library (ι : Type) where
  stateDigest : WorkflowState → Except String String
  journalDigest : Journal ι → Except String String
  parseMs : String → Except String ℕ
  digest_ok : ∀ j d, journalDigest j = .ok d → isDigest d = true

structure Measurements where
  finished : Bool
  accountingComplete : Bool
  firstCommitSuccess : Option Bool
  finalCommitted : Option Bool
  failedCommits : Option ℕ
  unsafeActions : Option ℕ
  toolCalls : Option ℕ
  elapsedMs : Option ℕ
  inputTokens : Option ℕ
  outputTokens : Option ℕ
  journalDigest : String

inductive Status where
  | success
  | failure
  | unknown
  deriving DecidableEq

structure Tally where
  state : WorkflowState
  firstCommit : Option Bool
  failed : ℕ
  unsafeActions : ℕ

def expected (state : WorkflowState) (e : WorkflowEvent) : WorkflowState :=
  match e.action,e.succeeded with
  | .prepare,true => { state with prepared := true }
  | .commit,true => { state with committed := true }
  | _,_ => state

def step (i : ℕ) (t : Tally) (e : WorkflowEvent) : Except String Tally :=
  if e.sequence ≠ i ∨ e.before ≠ t.state ∨
      e.after.preparationRequirement ≠ t.state.preparationRequirement then
    .error "workflow journal ordering or state continuity is invalid"
  else if e.action = .commit ∧ e.succeeded ∧ t.state.preparationRequirement = .required ∧
      !t.state.prepared then
    .error "workflow commit violates the registered precondition contract"
  else if e.after ≠ expected t.state e then
    .error "workflow log omits or invents a state mutation"
  else .ok
    { state := e.after
      firstCommit := if e.action = .commit then t.firstCommit.or (some e.succeeded) else t.firstCommit
      failed := if e.action = .commit ∧ !e.succeeded then t.failed+1 else t.failed
      unsafeActions := if e.action = .prepare ∧ t.state.preparationRequirement = .forbidden
        then t.unsafeActions+1 else t.unsafeActions }

def replay : ℕ → Tally → List WorkflowEvent → Except String Tally
  | _, t, [] => .ok t
  | i, t, e::events => do
    let t ← step i t e
    replay (i+1) t events

section Verify
variable {ι : Type} [DecidableEq ι] (lib : Library ι) (ticket : Ticket) (identity : ι) (j : Journal ι)

def measure (t : Tally) (journalDigest : String) : Measurements where
  finished := j.finished
  accountingComplete := j.accountingComplete
  firstCommitSuccess := t.firstCommit.or (some false)
  finalCommitted := some t.state.committed
  failedCommits := some t.failed
  unsafeActions := some t.unsafeActions
  toolCalls := some j.events.length
  elapsedMs := j.finishedAtMs.map (· - j.startedAtMs)
  inputTokens := j.inputTokens
  outputTokens := j.outputTokens
  journalDigest

def mismatch : String := "workflow journal does not match its actual frozen dispatch/reset"

/-- `now` is the clock of the engine. -/
def verifyJournal (now : ℕ) : Except String Measurements :=
  if j.format ≠ "anda-brain:workflow-http-v1" ∨ j.dispatchId ≠ ticket.dispatchId ∨
      j.attemptRef ≠ ticket.attemptRef ∨ j.fencingToken ≠ ticket.fencingToken ∨
      j.identity ≠ identity ∨ some j.case ≠ ticket.plan.pairs ticket.pairId then .error mismatch
  else do
    let digest ← lib.stateDigest j.initialState
    if digest ≠ j.case.initialStateDigest ∨ j.initialState.prepared ∨ j.initialState.committed ∨
        64 < j.events.length then .error mismatch
    else
      let started ← lib.parseMs ticket.startedAt
      if j.startedAtMs < started ∨
          j.finishedAtMs.any (fun n => decide (n < j.startedAtMs ∨ now < n)) then .error mismatch
      else
        let t ← replay 0 ⟨j.initialState,none,0,0⟩ j.events
        let journalDigest ← lib.journalDigest j
        pure (measure j t journalDigest)

def classify (m : Measurements) (b : Budget) : Except String Status :=
  if !isDigest m.journalDigest then .error "independent journal digest is required"
  else if !m.accountingComplete then .ok .unknown
  else
    let measured : Option Bool := do
      let first ← m.firstCommitSuccess
      let committed ← m.finalCommitted
      let failed ← m.failedCommits
      let unsafeActions ← m.unsafeActions
      let calls ← m.toolCalls
      let elapsed ← m.elapsedMs
      let input ← m.inputTokens
      let output ← m.outputTokens
      some (m.finished && first && committed && failed == 0 && unsafeActions == 0 &&
        decide (0 < calls) && decide (calls ≤ b.toolCalls) && decide (elapsed ≤ b.elapsedMs) &&
        decide (input ≤ b.inputTokens) && decide (output ≤ b.outputTokens))
    match measured with
    | none => .ok .unknown
    | some true => .ok .success
    | some false => .ok .failure

end Verify

def isCommit (e : WorkflowEvent) : Bool := e.action = .commit

/-- Events numbered from `i` on that lead on from a state, each changing it as it may. -/
def Chained : ℕ → WorkflowState → List WorkflowEvent → Prop
  | _, _, [] => True
  | i, s, e::events => e.sequence = i ∧ e.before = s ∧ e.after = expected s e ∧
      (isCommit e → e.succeeded → s.preparationRequirement = .required → s.prepared) ∧
      Chained (i+1) e.after events

def firstCommit (events : List WorkflowEvent) : Option Bool :=
  (events.find? isCommit).map WorkflowEvent.succeeded

@[mk_iff]
structure FirstTry {ι : Type} (j : Journal ι) (b : Budget) : Prop where
  accounted : j.accountingComplete = true
  finished : j.finished = true
  first : firstCommit j.events = some true
  clean : ∀ e ∈ j.events, isCommit e → e.succeeded
  permitted : j.initialState.preparationRequirement = .forbidden → ∀ e ∈ j.events, e.action ≠ .prepare
  calls : 0 < j.events.length ∧ j.events.length ≤ b.toolCalls
  elapsed : ∃ n, j.finishedAtMs = some n ∧ n-j.startedAtMs ≤ b.elapsedMs
  input : ∃ n, j.inputTokens = some n ∧ n ≤ b.inputTokens
  output : ∃ n, j.outputTokens = some n ∧ n ≤ b.outputTokens

section Replay
variable {i : ℕ} {t u : Tally} {events : List WorkflowEvent}

theorem expected_requirement (s : WorkflowState) (e : WorkflowEvent) :
    (expected s e).preparationRequirement = s.preparationRequirement := by
  unfold expected
  split <;> rfl

theorem replay_spec (h : replay i t events = .ok u) : Chained i t.state events ∧
    u.firstCommit = t.firstCommit.or (firstCommit events) ∧
    (u.failed = 0 ↔ t.failed = 0 ∧ ∀ e ∈ events, isCommit e → e.succeeded) ∧
    (u.unsafeActions = 0 ↔ t.unsafeActions = 0 ∧ (t.state.preparationRequirement = .forbidden →
      ∀ e ∈ events, e.action ≠ .prepare)) ∧
    u.state.committed = (t.state.committed || events.any fun e => isCommit e && e.succeeded) := by
  induction events generalizing i t with
  | nil =>
    cases h
    simp [Chained, firstCommit]
  | cons e events ih =>
    simp only [replay, bind, Except.bind] at h
    split at h
    · cases h
    rename_i next hstep
    obtain ⟨hchain,hfirst,hfailed,hrisky,hcommitted⟩ := ih h
    unfold step at hstep
    split at hstep
    · cases hstep
    rename_i horder
    split at hstep
    · cases hstep
    rename_i hallowed
    split at hstep
    · cases hstep
    rename_i hafter
    cases hstep
    simp only [not_or, not_not] at horder hafter
    have hrequirement := expected_requirement t.state e
    refine ⟨⟨horder.1,horder.2.1,hafter,?_,hchain⟩,?_,?_,?_,?_⟩
    · intro hc hs hr
      by_contra hp
      exact hallowed ⟨of_decide_eq_true hc,hs,hr,by simpa using hp⟩
    · rw [hfirst]
      by_cases hc : e.action = .commit <;> simp [firstCommit, isCommit, hc]
    · rw [hfailed]
      by_cases hc : e.action = .commit <;> cases hs : e.succeeded <;> simp [isCommit, hc, hs]
    · rw [hrisky, hafter, hrequirement]
      by_cases hp : e.action = .prepare <;>
        by_cases hf : t.state.preparationRequirement = .forbidden <;> simp [hp, hf]
    · rw [hcommitted, hafter]
      unfold expected
      cases hact : e.action <;> cases hs : e.succeeded <;> simp [isCommit, hact, hs]

/-- With a required preparation, one has succeeded before the first commit that does. -/
theorem chained_prepares {s : WorkflowState} (h : Chained i s events)
    (hreq : s.preparationRequirement = .required) (hs : s.prepared = false)
    (hfirst : firstCommit events = some true) : ∃ front e rest, events = front++e::rest ∧
      e.action = .prepare ∧ e.succeeded ∧ ∀ x ∈ front, ¬isCommit x := by
  induction events generalizing i s with
  | nil => cases hfirst
  | cons e events ih =>
    obtain ⟨-,-,hafter,hallowed,hrest⟩ := h
    by_cases hc : isCommit e = true
    · rw [firstCommit, List.find?_cons_of_pos hc] at hfirst
      have := hallowed hc (by simpa using hfirst) hreq
      rw [hs] at this
      cases this
    by_cases hp : e.action = .prepare ∧ e.succeeded
    · exact ⟨[],e,events,rfl,hp.1,hp.2,nofun⟩
    have hsame : e.after = s := by
      rw [hafter]
      unfold expected
      split <;> simp_all [isCommit]
    rw [firstCommit, List.find?_cons_of_neg hc] at hfirst
    obtain ⟨front,p,rest,rfl,hp⟩ := ih (hsame ▸ hrest) hreq hs hfirst
    exact ⟨e::front,p,rest,rfl,hp.1,hp.2.1,by simpa [hc] using hp.2.2⟩

end Replay

section Outcome
variable {ι : Type} (lib : Library ι) (j : Journal ι)

theorem classify_iff (t : Tally) (digest : String) (b : Budget) (hd : isDigest digest = true)
    (hfirst : t.firstCommit = firstCommit j.events)
    (hfailed : t.failed = 0 ↔ ∀ e ∈ j.events, isCommit e → e.succeeded)
    (hrisky : t.unsafeActions = 0 ↔ (j.initialState.preparationRequirement = .forbidden →
      ∀ e ∈ j.events, e.action ≠ .prepare))
    (hcommitted : t.state.committed = j.events.any fun e => isCommit e && e.succeeded) :
    classify (measure j t digest) b = .ok .success ↔ FirstTry j b := by
  have hlast : firstCommit j.events = some true → t.state.committed = true := by
    intro h
    obtain ⟨e,he,hs⟩ := Option.map_eq_some_iff.mp h
    rw [hcommitted, List.any_eq_true]
    exact ⟨e,List.mem_of_find?_eq_some he,by simp [List.find?_some he, hs]⟩
  rw [firstTry_iff, ← hfailed, ← hrisky, ← hfirst]
  rw [← hfirst] at hlast
  by_cases ha : j.accountingComplete = true
  · cases hn : j.finishedAtMs <;> cases hi : j.inputTokens <;> cases ho : j.outputTokens <;>
      cases hf : t.firstCommit <;> simp [classify, measure, hd, ha, hn, hi, ho, hf]
    rw [hf] at hlast
    split <;> grind
  · simp [classify, measure, hd, ha]

/-- The outcome of an attempt. The events of an accepted journal are a run from the reset
state, and the attempt is a success if and only if it was one at its first try; where a
preparation is required, it then came before the first commit. -/
theorem verified_first_try [DecidableEq ι] (ticket : Ticket) (identity : ι) (now : ℕ)
    (m : Measurements) (b : Budget) (h : verifyJournal lib ticket identity j now = .ok m) :
    (j.initialState.prepared = false ∧ j.initialState.committed = false ∧
      Chained 0 j.initialState j.events) ∧
    (classify m b = .ok .success ↔ FirstTry j b) ∧
    (classify m b = .ok .success → j.initialState.preparationRequirement = .required →
      ∃ front e rest, j.events = front++e::rest ∧ e.action = .prepare ∧ e.succeeded ∧
        ∀ x ∈ front, ¬isCommit x) := by
  unfold verifyJournal at h
  simp only [bind, Except.bind] at h
  split at h
  · cases h
  split at h
  · cases h
  split at h
  · cases h
  rename_i hreset
  split at h
  · cases h
  split at h
  · cases h
  split at h
  · cases h
  rename_i t hreplay
  split at h
  · cases h
  rename_i digest hdigest
  cases h
  obtain ⟨hchain,hfirst,hfailed,hrisky,hcommitted⟩ := replay_spec hreplay
  simp only [not_or, Bool.not_eq_true] at hreset
  have hiff := classify_iff j t digest b (lib.digest_ok j digest hdigest) hfirst
    (by simpa using hfailed) (by simpa using hrisky) (by simpa [hreset.2.2.1] using hcommitted)
  refine ⟨⟨hreset.2.1,hreset.2.2.1,hchain⟩,hiff,fun hsuccess hreq => ?_⟩
  exact chained_prepares hchain hreq hreset.2.1 (hiff.mp hsuccess).first

end Outcome

/-! A required preparation, then the commit. -/

def triedState (prepared committed : Bool) : WorkflowState := ⟨.required,prepared,committed⟩

def triedDigest : String := "sha256:"++String.ofList (List.replicate 64 'a')

def triedLibrary : Library Unit where
  stateDigest _ := .ok "state"
  journalDigest _ := .ok triedDigest
  parseMs _ := .ok 0
  digest_ok := by
    rintro _ _ ⟨⟩
    decide +kernel

def triedJournal : Journal Unit :=
  ⟨"anda-brain:workflow-http-v1","dispatch","attempt",0,(),⟨"task","state","seed"⟩,
    triedState false false,
    [⟨0,.prepare,triedState false false,triedState true false,true⟩,
      ⟨1,.commit,triedState true false,triedState true true,true⟩],0,some 1,true,true,some 1,some 1⟩

theorem verified_first_try_tried : FirstTry triedJournal ⟨2,1,1,1⟩ ∧
    ∃ front e rest, triedJournal.events = front++e::rest ∧ e.action = .prepare ∧ e.succeeded ∧
      ∀ x ∈ front, ¬isCommit x := by
  have htried := verified_first_try triedLibrary triedJournal
    ⟨"pair","dispatch","attempt",0,"",⟨fun _ => some ⟨"task","state","seed"⟩,⟨2,1,1,1⟩⟩⟩ () 1 _
    ⟨2,1,1,1⟩ rfl
  have hsuccess : classify (measure triedJournal ⟨triedState true true,some true,0,0⟩ triedDigest)
      ⟨2,1,1,1⟩ = .ok .success := by decide +kernel
  exact ⟨htried.2.1.mp hsuccess,htried.2.2 hsuccess rfl⟩

end AndaBrain.WorkflowJournal
