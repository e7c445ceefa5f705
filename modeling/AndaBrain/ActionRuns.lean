import AndaBrain.ActionDispatch

/-!
# Whole runs of the action runtime

Operations hold the runtime's gate, so they follow one another; each can stop at every await, and
its work is taken up again by a later one.
-/

set_option autoImplicit false

namespace AndaBrain.Action
open Foundation.Resumption Foundation.ConditionalStore

section Operations
variable {host : Host} {reference : WakeRef} {w t : World}

theorem raised_rounds_own (wake : WakeRecord) (job : Job) (parent : Option Job)
    (hj : Own host reference w job) : Own host reference w (raisedRounds host wake job parent) := by
  unfold raisedRounds
  split
  · exact hj
  · split
    · exact own_same { job with rounds := _ } hj rfl rfl rfl rfl
    · exact hj

theorem parent_of_safe (wake : WakeRecord) (hw : Good host w) (hr : wake.wakeRef = reference) :
    Safe (Step host) (fun found t => ∀ job, found = some job →
      ∃ parent, (host.wakes reference).parentRef = some parent ∧ Own host parent t job ∧
        (host.wakes parent).scope = (host.wakes reference).scope) Any (parentOf host wake) w := by
  rw [parentOf, hr]
  cases hp : (host.wakes reference).parentRef with
  | none =>
    intro job hj
    cases hj
  | some parent =>
    apply safe_then _ _ hw (confirm_parent_safe parent _ hw) fun _ _ _ _ _ => trivial
    intro found t _ _ hf job hj
    cases hj
    exact ⟨parent,rfl,hf⟩

theorem drive_wake_keeps (principal : String) (wake : WakeRecord) (job : Job)
    (found : Option Job) (hw : Good host w) (hj : Own host reference w job)
    (hr : wake.wakeRef = reference) (hp : ∀ parentJob, found = some parentJob →
      ∃ parent, (host.wakes reference).parentRef = some parent ∧ Own host parent w parentJob ∧
        (host.wakes parent).scope = (host.wakes reference).scope) :
    Keeps host reference (driveWake host principal wake job found) w := by
  apply safe_ite
  · intro hd
    rw [hr] at hd
    apply keeps_need _ _ _ hj
    intro parentJob hf
    obtain ⟨parent,hpr,hown,hs⟩ := hp parentJob hf
    exact dispatch_keeps principal wake job parentJob parent hw hj hown hr hd hpr hs
  · intro hd
    rw [hr] at hd
    exact gate_keeps principal wake job found hw hj hr hd

theorem drive_keeps (job : Job) (hw : Good host w) (hj : Own host reference w job) :
    Keeps host reference (drive host reference job) w := by
  apply keeps_after _ _ open_session_silent hj
  intro principal
  apply keeps_still _ _ (read_wake_still reference) hj
  intro wake hr
  apply safe_ite
  · intro _
    exact own_same (job.withState .cancelled) hj rfl rfl rfl rfl
  intro _
  apply safe_ite
  · intro _
    apply safe_ite
    · intro _
      rw [hr]
      exact commit_keeps job hw hj
    · intro _
      exact hj
  · intro _
    apply keeps_then _ _ hw hj (parent_of_safe wake hw hr)
    intro found t _ ht hjt hp
    exact drive_wake_keeps principal wake _ found ht (raised_rounds_own wake job found hjt) hr hp

def Left (host : Host) (reference : WakeRef) : Except Fault Job → World → Prop
  | .ok job, w => Own host reference w job
  | .error fault, w => Own host reference w fault.job

theorem attempt_left (p : J Job) (h : Keeps host reference p w) :
    Safe (Step host) (Left host reference) Any (mapFail Fault.error (attempt p)) w := by
  apply any_fault (E := fun _ _ => True)
  exact safe_attempt p w h

theorem block_leased_safe (job : Job) (hw : Good host w) (hj : Own host reference w job) :
    Safe (Step host) (fun job t => Own host reference t job) Any (blockLeased reference job)
      w := by
  apply safe_after _ _ _ open_session_silent fun _ => trivial
  intro principal
  apply safe_look
  intro current
  apply safe_look
  intro now
  apply safe_ite
  · intro _
    apply safe_then _ _ hw (attempt_left _ (block_keeps job hw hj)) fun _ _ _ _ _ => trivial
    intro outcome t _ _ hl
    cases outcome with
    | ok job => exact hl
    | error fault => exact hl
  · intro _
    exact hj

theorem block_failed_safe (job : Job) (hw : Good host w) (hj : Own host reference w job) :
    Safe (Step host) (fun job t => Own host reference t job) Any (blockFailed reference job)
      w := by
  apply safe_ite
  · intro _
    have tried : Safe (Step host) (fun outcome t => ∀ job, outcome = .ok job →
        Own host reference t job) Any (attempt (blockLeased reference job)) w := by
      apply safe_attempt
      apply safe_mono _ w (block_leased_safe job hw hj) (fun _ _ hg => hg)
      · intro job t hjt job' h
        cases h
        exact hjt
      · intro e t _ job' h
        cases h
    apply safe_then _ _ hw tried fun _ _ _ _ _ => trivial
    intro outcome t hk _ ho
    cases outcome with
    | ok job => exact ho job rfl
    | error e => exact own_kept hk hj
  · intro _
    exact hj

theorem driven_safe (job : Job) (hw : Good host w) (hj : Own host reference w job) :
    Safe (Step host) (fun job t => Own host reference t job) Any (driven host reference job)
      w := by
  apply safe_then _ _ hw (attempt_left _ (drive_keeps job hw hj)) fun _ _ _ _ _ => trivial
  intro outcome t _ ht hl
  cases outcome with
  | ok job => exact hl
  | error fault =>
    apply safe_look
    intro now
    exact block_failed_safe _ ht
      (own_same (failedJob host fault.job fault.error now) hl rfl rfl rfl rfl)

theorem run_job_safe (job : Job) (hw : Good host w) (hj : Own host reference w job) :
    Safe (Step host) (fun _ _ => True) Any (runJob host reference job) w := by
  apply safe_then _ _ hw (driven_safe job hw hj) fun _ _ _ _ _ => trivial
  intro job' t _ ht hj'
  apply safe_then _ _ ht (any_of _ (save_safe job' ht hj'.1)) fun _ _ _ _ _ => trivial
  intro _ _ _ _ _
  trivial

theorem enabled_silent (host : Host) : Silent (enabled host) := by
  apply silent_ite
  · trivial
  apply silent_bind _ _ (silent_query _)
  intro _
  apply silent_bind _ _ (silent_query _)
  intro row
  cases row with
  | none => trivial
  | some row => exact silent_bind _ _ (silent_ite _ _ _ trivial trivial) fun _ => trivial

theorem new_own (host : Host) (reference : WakeRef) (w : World) :
    Own host reference w (Job.new host reference) := by
  refine ⟨⟨rfl,?_,fun _ => rfl,?_⟩,rfl⟩
  · intro p hp
    cases hp
  · intro _ record hr
    cases hr

theorem process_owned_safe (reference : WakeRef) (hw : Good host w) :
    Safe (Step host) (fun _ _ => True) Any (processOwned host reference) w := by
  apply safe_guard
  intro _
  apply safe_after _ _ _ (enabled_silent host) fun _ => trivial
  intro isEnabled
  apply safe_ite
  · intro _
    trivial
  intro _
  apply safe_guard
  intro _
  apply safe_still _ _ _ (load_still _ reference hw) fun _ _ => trivial
  intro found hf
  have hj : Own host reference w (found.getD (Job.new host reference)) := by
    cases found with
    | none => exact new_own host reference w
    | some job => exact (hf job rfl).1
  apply safe_guard
  intro _
  apply safe_look
  intro now
  apply safe_ite
  · intro _
    exact run_job_safe _ hw hj
  · intro _
    trivial

theorem retry_safe (reference : WakeRef) (hw : Good host w) :
    Safe (Step host) (fun _ _ => True) Any (retry host reference) w := by
  apply safe_guard
  intro _
  apply safe_look
  intro _
  apply safe_after _ _ _ open_session_silent fun _ => trivial
  intro _
  apply safe_look
  intro wake
  apply safe_guard
  intro _
  apply safe_still _ _ _ (load_still host.scope reference hw) fun _ _ => trivial
  intro found hf
  apply safe_need
  intro job hjob
  apply safe_guard
  intro _
  have hj := own_same (retriedJob job) (hf job hjob).1 rfl rfl rfl rfl
  exact safe_mono _ w (save_safe _ hw hj.1) (fun _ _ hg => hg) (fun _ _ _ => trivial)
    fun _ _ _ => trivial

theorem store_reply_safe (reference : WakeRef) (auth : AuthContext)
    (response : ClarificationResponse) (deadline : Option ℕ) (hw : Good host w) :
    Safe (Step host) (fun _ _ => True) Any (storeReply host reference auth response deadline)
      w := by
  apply safe_look
  intro old
  cases old with
  | some old => exact safe_refuse _ _ _ (fun _ => trivial) fun _ => trivial
  | none =>
    apply safe_look
    intro now
    apply safe_guard
    intro _
    apply safe_look
    intro received
    exact safe_mono _ w (directory_put_safe (.reply host.scope reference)
      ⟨host.scope,reference,auth.principalId,received,response⟩ .create hw trivial)
      (fun _ _ hg => hg) (fun _ _ _ => trivial) fun _ _ _ => trivial

theorem respond_safe (reference : WakeRef) (auth : AuthContext)
    (response : ClarificationResponse) (hw : Good host w) :
    Safe (Step host) (fun _ _ => True) Any (respond host reference auth response) w := by
  apply safe_look
  intro _
  apply safe_after _ _ _ open_session_silent fun _ => trivial
  intro _
  apply safe_then _ _ hw (confirm_parent_safe reference host.scope hw) fun _ _ _ _ _ => trivial
  intro job t _ ht _
  apply safe_after _ _ _ (silent_lift _) fun _ => trivial
  intro asked
  apply safe_guard
  intro _
  apply safe_after _ _ _ (silent_lift _) fun _ => trivial
  intro decisionRef
  apply safe_look
  intro _
  exact store_reply_safe reference auth response _ ht

theorem set_enabled_safe (enabled : Bool) (hw : Good host w) :
    Safe (Step host) (fun _ _ => True) Any (setEnabled host enabled) w := by
  apply safe_guard
  intro _
  apply safe_look
  intro _
  apply safe_look
  intro old
  exact safe_mono _ w (put_over_safe (.setting host.scope) ⟨host.scope,enabled⟩ old hw trivial)
    (fun _ _ hg => hg) (fun _ _ _ => trivial) fun _ _ _ => trivial

theorem operate_safe (o : Op) (hw : Good host w) :
    Safe (Step host) (fun _ _ => True) Any (operate host o) w := by
  cases o with
  | process reference =>
    exact safe_then _ _ hw (process_owned_safe reference hw) (fun _ _ _ _ _ => trivial)
      fun _ _ _ _ _ => trivial
  | retry reference =>
    exact safe_then _ _ hw (retry_safe reference hw) (fun _ _ _ _ _ => trivial)
      fun _ _ _ _ _ => trivial
  | respond reference auth response =>
    exact safe_then _ _ hw (respond_safe reference auth response hw) (fun _ _ _ _ _ => trivial)
      fun _ _ _ _ _ => trivial
  | setEnabled enabled =>
    exact safe_then _ _ hw (set_enabled_safe enabled hw) (fun _ _ _ _ _ => trivial)
      fun _ _ _ _ _ => trivial

end Operations

theorem discipline (host : Host) : Discipline (operate host) id (fun _ w => Good host w)
    (fun _ w => Good host w) fun _ a b => Kept a b where
  mid _ _ h := h
  boot _ _ h := h
  op o _ w hw := safe_mono _ w (safe_good _ hw (operate_safe o hw)) (fun _ _ hg => hg)
    (fun _ _ hq => hq.2.2) fun _ _ he => he.2.2

theorem good_empty (host : Host) : Good host World.empty := by
  constructor
  · intro scope reference job hj
    cases hj
  · intro reference p hp
    cases hp
  · intro a _
    exact Nat.zero_le _
  · intro a _ _
    exact Nat.le_refl _

theorem reached_good (host : Host) (events : List (Event Op Env)) :
    Good host (reached host events) :=
  (run_sound (discipline host) _ events
    (sound_idle (discipline host) ⟨World.empty,none,[]⟩ rfl (good_empty host))).1

/-- An attempt whose executor cannot tell repeated calls apart is called once at
most, and once more for every lookup that reported it not started and was
reconciled. -/
theorem dispatched_once_per_return (host : Host) (events : List (Event Op Env))
    (attemptId : AttemptId) (hu : Unguarded host attemptId.kind) :
    (reached host events).dispatched.count attemptId ≤ 1+(reached host events).returned.count
    attemptId := by
  have hc := (reached_good host events).calls attemptId hu
  omega

def sampleScope : RuntimeScope := ⟨"scope"⟩

def sampleHost : Host where
  limits := ⟨5000,60000,3⟩
  business := some ⟨false⟩
  clarification := none
  lookup := true
  pins := ⟨"pins"⟩
  automatic := true
  scope := sampleScope
  wakes reference :=
    if reference = "dispatch" then ⟨sampleScope,⟨"pins"⟩,some "first",some .dispatch,1⟩
    else ⟨sampleScope,⟨"pins"⟩,none,none,1⟩

def sampleContext : ContextRequest where
  recallReceipt := none
  anchor := "anchor"
  requiredRefs := []
  premises := []
  appliedRevisions := []
  taskFamily := "family"
  environmentDigest := "digest"
  toolVersions := []
  deduplicationKey := some "order"

/-- Answers under which the wakes of `done` are committed and every call times out. -/
def sampleEnv (decision : Decision) (attemptId : AttemptId) (payload : Json) (now : ℕ)
    (done : List WakeRef) : Env where
  storage := .up
  now := now
  principal := .ok ⟨"kip:principal:host",false,"key","strong",false⟩
  wake reference := .ok (1,1,if reference ∈ done then .completed
    else .running "kip:principal:host" 1000000)
  native := .ok ()
  finish := .done ["X-decision","X-attempt"]
  element id := .ok (if id = "X-decision" then ⟨some decision,none⟩ else ⟨none,some attemptId⟩)
  context := .ok sampleContext
  capture request := .ok ⟨request,[],[],none,none⟩
  inputFits := .ok true
  suggestion := .ok (.act "because" [] payload)
  proposalFits _ := .ok true
  allowSilence := .ok true
  receipt _ _ := .ok none
  artifact := .ok "artifact"
  commandFits := true
  authorize := .ok ()
  source _ := .ok ⟨true,1⟩
  revalidate := .ok ()
  committedRequest := .ok true
  lookup := .ok .notStarted
  reconcile := .done ()
  progress := none
  settled := .started
  begin := .done (attemptId,.dispatch)
  delivery := .error "timeout"

def sampleRun (reference : WakeRef) (env : Env) : List (Event Op Env) :=
  .start (.process reference)::List.replicate 60 (.tick env)

def firstAttempt : AttemptId := sampleHost.attemptOf "first"

def sampleDispatches : List (Event Op Env) :=
  sampleRun "first" (sampleEnv .act firstAttempt .null 0 [])++
  sampleRun "dispatch" (sampleEnv .act firstAttempt .null 0 ["first"])++
  sampleRun "dispatch" (sampleEnv .act firstAttempt .null 100000 ["first"])++
  sampleRun "dispatch" (sampleEnv .act firstAttempt .null 200000 ["first"])

/-- A lost call, a lookup that reports it not started, and a second call: the
bound is reached. -/
theorem dispatched_once_per_return_lookup : (reached sampleHost sampleDispatches).dispatched.count
    firstAttempt = 2 ∧ (reached sampleHost sampleDispatches).returned.count firstAttempt = 1 ∧
    (reached sampleHost sampleDispatches).dispatched.count firstAttempt ≤
    1+(reached sampleHost sampleDispatches).returned.count firstAttempt := by
  refine ⟨by decide +kernel,by decide +kernel,?_⟩
  apply dispatched_once_per_return
  intro ex hx
  cases hx
  rfl

structure ActsFor (w : World) (scope : RuntimeScope) (id : String) (reference : WakeRef)
    (p : PreparedGate) (q : ActionRequest) : Prop where
  committed : (reference,p) ∈ w.committed
  decision : p.decision = .act
  request : p.request = some q
  kind : q.kind = .business
  scope : q.scope = scope
  key : q.context.deduplicationKey = some id

structure ConsidersFor (w : World) (scope : RuntimeScope) (id : String) (reference : WakeRef)
    (p : PreparedGate) (q : ActionRequest) : Prop where
  committed : (reference,p) ∈ w.committed
  considered : p.considered = some q
  kind : q.kind = .business
  scope : q.scope = scope
  key : q.context.deduplicationKey = some id

section Slots
variable {host : Host} {w : World} {scope : RuntimeScope} {id : String} {reference : WakeRef}
  {p : PreparedGate} {q : ActionRequest}

theorem considers_of_acts (hw : Good host w) (h : ActsFor w scope id reference p q) :
    ConsidersFor w scope id reference p q :=
  ⟨h.committed,(hw.committed reference p h.committed).request q h.request,h.kind,h.scope,h.key⟩

theorem slot_of_considers (hw : Good host w) (h : ConsidersFor w scope id reference p q) :
    p.decision = .defer ∨ ∃ slot, value w.directory (.dedup scope id) = some slot ∧
      slot.requestDigest = q.digest ∧
      ((p.decision = .act ∧ slot.owner = reference) ∨
        (p.decision = .silence ∧ slot.owner ≠ reference)) := by
  have hok := hw.committed reference p h.committed
  obtain ⟨capture,payload,hq⟩ := hok.considered q h.considered
  have hr : q.gateWakeRef = reference := by
    rw [hq]
    rfl
  rcases hok.decided q id h.considered h.kind h.key with hd | ⟨slot,hs,hown⟩
  · exact Or.inl hd
  · rw [hr] at hown
    rw [← h.scope]
    exact Or.inr ⟨slot,hs.stored,hs.digest,hown⟩

theorem owner_of_acts (hw : Good host w) (h : ActsFor w scope id reference p q) :
    ∃ slot, value w.directory (.dedup scope id) = some slot ∧ slot.owner = reference := by
  rcases slot_of_considers hw (considers_of_acts hw h) with hd | ⟨slot,hs,-,⟨-,ho⟩ | ⟨hd,-⟩⟩
  · rw [h.decision] at hd
    cases hd
  · exact ⟨slot,hs,ho⟩
  · rw [h.decision] at hd
    cases hd

end Slots

/-- Under one deduplication key one wake at most commits an act; the gates of all
others are silent or deferred, and a request that differs from the one the key
was taken for is deferred. -/
theorem business_acts_once (host : Host) (events : List (Event Op Env)) (scope : RuntimeScope)
    (id : String) :
    (∀ r p q r' p' q', ActsFor (reached host events) scope id r p q →
      ActsFor (reached host events) scope id r' p' q' → r = r') ∧
    (∀ r p q r' p' q', ActsFor (reached host events) scope id r p q →
      ConsidersFor (reached host events) scope id r' p' q' → r' ≠ r →
      p'.decision = .silence ∨ p'.decision = .defer) ∧
    (∀ r p q slot, ConsidersFor (reached host events) scope id r p q →
      value (reached host events).directory (.dedup scope id) = some slot →
      slot.requestDigest ≠ q.digest → p.decision = .defer) := by
  have hw := reached_good host events
  refine ⟨?_,?_,?_⟩
  · intro r p q r' p' q' h h'
    obtain ⟨slot,hs,rfl⟩ := owner_of_acts hw h
    obtain ⟨slot',hs',rfl⟩ := owner_of_acts hw h'
    rw [hs] at hs'
    cases hs'
    rfl
  · intro r p q r' p' q' h h' hne
    obtain ⟨slot,hs,rfl⟩ := owner_of_acts hw h
    rcases slot_of_considers hw h' with hd | ⟨slot',hs',-,⟨-,ho⟩ | ⟨hd,-⟩⟩
    · exact Or.inr hd
    · rw [hs] at hs'
      cases hs'
      exact absurd ho.symm hne
    · exact Or.inl hd
  · intro r p q slot h hs hne
    rcases slot_of_considers hw h with hd | ⟨slot',hs',hdig,-⟩
    · exact hd
    · rw [hs] at hs'
      cases hs'
      exact absurd hdig hne

def sampleOrders : List (Event Op Env) :=
  sampleRun "first" (sampleEnv .act firstAttempt .null 0 [])++
  sampleRun "second" (sampleEnv .silence firstAttempt .null 0 ["first"])++
  sampleRun "third" (sampleEnv .defer firstAttempt (.bool true) 0 ["first","second"])

/-- The first wake acts, the second, with the same request, is silent. -/
theorem business_acts_once_second : ∃ p q p' q', ActsFor (reached sampleHost sampleOrders)
    sampleScope "order" "first" p q ∧ ConsidersFor (reached sampleHost sampleOrders) sampleScope
    "order" "second" p' q' ∧ (p'.decision = .silence ∨ p'.decision = .defer) := by
  have first : ∃ c ∈ (reached sampleHost sampleOrders).committed, c.1 = "first" ∧
      c.2.decision = .act ∧ ∃ q ∈ c.2.request, q.kind = .business ∧ q.scope = sampleScope ∧
        q.context.deduplicationKey = some "order" := by decide +kernel
  have second : ∃ c ∈ (reached sampleHost sampleOrders).committed, c.1 = "second" ∧
      ∃ q ∈ c.2.considered, q.kind = .business ∧ q.scope = sampleScope ∧
        q.context.deduplicationKey = some "order" := by decide +kernel
  obtain ⟨⟨r,p⟩,hc,rfl,hd,q,hq,hk,hs,hid⟩ := first
  obtain ⟨⟨r',p'⟩,hc',rfl,q',hq',hk',hs',hid'⟩ := second
  have acts : ActsFor (reached sampleHost sampleOrders) sampleScope "order" "first" p q :=
    ⟨hc,hd,hq,hk,hs,hid⟩
  have considers : ConsidersFor (reached sampleHost sampleOrders) sampleScope "order" "second"
      p' q' := ⟨hc',hq',hk',hs',hid'⟩
  refine ⟨p,q,p',q',acts,considers,?_⟩
  apply (business_acts_once sampleHost sampleOrders sampleScope "order").2.1
  · exact acts
  · exact considers
  · decide

end AndaBrain.Action
