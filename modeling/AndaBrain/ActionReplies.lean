import AndaBrain.ActionQuestions

/-!
# Stored replies and the checks they meet

A reply is stored with a second reading of the clock, after a first one was
compared with the deadline. Where the second reading is in time as well, the
stored reply passes every later check; where it is not, the reply is stored and
the gates that read it report a mismatch.
-/

set_option autoImplicit false

namespace AndaBrain.Action
open Foundation.Resumption Foundation.ConditionalStore

section Operations
variable {host : Host} {w : World}

theorem parent_of_calm (wake : WakeRecord) :
    Safe Calm (fun _ _ => True) Any (parentOf host wake) w := by
  rw [parentOf]
  cases (host.wakes wake.wakeRef).parentRef with
  | none => trivial
  | some parent => exact calm_then _ _ (confirm_parent_calm host parent _) fun _ _ _ _ => trivial

theorem raised_rounds_gate (wake : WakeRecord) (job : Job) (parent : Option Job) :
    SameGate job (raisedRounds host wake job parent) := by
  unfold raisedRounds
  split
  · exact ⟨rfl,rfl,rfl⟩
  · split <;> exact ⟨rfl,rfl,rfl⟩

variable (reference : WakeRef) (job : Job)

theorem drive_bears (hf : Fits job w) : Bears (drive host reference job) w := by
  apply job_after _ _ open_session_silent hf
  intro principal
  apply job_after _ _ (silent_query _) hf
  intro wake
  apply safe_ite
  · intro _
    exact fits_same (job.withState .cancelled) hf rfl rfl rfl
  intro _
  apply safe_ite
  · intro _
    exact safe_ite _ _ _ _ (fun _ => commit_bears wake.wakeRef job hf) fun _ => hf
  intro _
  apply bears_calm _ _ (parent_of_calm wake) hf
  intro found t ht _
  have ht' := fits_gate job (raisedRounds host wake job found) (raised_rounds_gate wake job found)
    ht
  apply safe_ite
  · intro _
    apply job_after _ _ (silent_lift _) ht'
    intro parent
    exact dispatch_bears principal wake _ parent ht'
  · intro _
    exact gate_bears principal wake _ found ht'

def LeftFits : Except Fault Job → World → Prop
  | .ok job, w => Fits job w
  | .error fault, w => Fits fault.job w

theorem attempt_bears (p : J Job) (h : Bears p w) :
    Safe Moves LeftFits (fun _ _ => False) (mapFail Fault.error (attempt p)) w := by
  apply safe_map_fail
  exact safe_attempt p w h

theorem block_leased_moves (hf : Fits job w) :
    Safe Moves Fits (fun _ t => Fits job t) (blockLeased reference job) w := by
  apply safe_after _ _ _ open_session_silent fun _ => hf
  intro principal
  apply safe_after _ _ _ (silent_query _) fun _ => hf
  intro current
  apply safe_after _ _ _ (silent_query _) fun _ => hf
  intro now
  apply safe_ite
  · intro _
    apply safe_bind
    apply safe_mono _ w (attempt_bears _ (block_bears job hf)) (fun _ _ hg => hg)
    · intro left t hl
      cases left with
      | ok job => exact hl
      | error fault => exact hl
    · intro _ _ h
      cases h
  · intro _
    exact hf

theorem block_failed_moves (hf : Fits job w) :
    Safe Moves Fits Any (blockFailed reference job) w := by
  apply safe_ite
  · intro _
    apply safe_bind
    apply safe_attempt
    apply safe_mono _ w (block_leased_moves reference job hf) (fun _ _ hg => hg)
    · intro job t ht
      exact ht
    · intro e t ht
      exact ht
  · intro _
    exact hf

theorem driven_moves (hf : Fits job w) : Safe Moves Fits Any (driven host reference job) w := by
  apply safe_bind
  apply safe_mono _ w (attempt_bears _ (drive_bears reference job hf)) (fun _ _ hg => hg)
  · intro left t hl
    cases left with
    | ok job => exact hl
    | error fault =>
      apply safe_look
      intro now
      exact block_failed_moves reference _
        (fits_same (failedJob host fault.job fault.error now) hl rfl rfl rfl)
  · intro _ _ h
    cases h

theorem run_job_moves (hf : Fits job w) :
    Safe Moves (fun _ _ => True) Any (runJob host reference job) w := by
  apply safe_bind
  apply safe_mono _ w (driven_moves reference job hf) (fun _ _ hg => hg)
  · intro job' t hf'
    apply safe_bind
    exact safe_mono _ t (save_moves job' hf') (fun _ _ hg => hg) (fun _ _ _ => trivial)
      fun _ _ _ => trivial
  · intro _ _ _
    trivial

theorem found_fits (scope : RuntimeScope) (reference : WakeRef) (found : Option Job) (job : Job)
    (hq : asked w scope reference = found.bind Job.question) (hj : found = some job)
    (hs : job.scope = scope ∧ job.wakeRef = reference) : Fits job w := by
  intro q hq'
  rw [hs.1, hs.2, hq, hj] at hq'
  exact hq'

theorem process_owned_moves :
    Safe Moves (fun _ _ => True) Any (processOwned host reference) w := by
  apply safe_guard
  intro _
  apply safe_after _ _ _ (enabled_silent host) fun _ => trivial
  intro isEnabled
  apply safe_ite
  · intro _
    trivial
  intro _
  apply safe_guard
  intro _
  apply safe_still _ _ _ (load_asked _ reference) fun _ _ => trivial
  intro found hfound
  have hf : Fits (found.getD (Job.new host reference)) w := by
    cases hj : found with
    | none =>
      intro q hq
      have hnone := hfound.1
      rw [hj] at hnone
      exact absurd (hnone.symm.trans hq) (fun h => nomatch h)
    | some job => exact found_fits _ _ _ job hfound.1 hj (hfound.2 job hj)
  apply safe_guard
  intro _
  apply safe_look
  intro now
  exact safe_ite _ _ _ _ (fun _ => run_job_moves reference _ hf) fun _ => trivial

theorem retry_moves :
    Safe Moves (fun _ _ => True) Any (retry host reference) w := by
  apply safe_guard
  intro _
  apply safe_look
  intro _
  apply safe_after _ _ _ open_session_silent fun _ => trivial
  intro _
  apply safe_look
  intro wake
  apply safe_guard
  intro _
  apply safe_still _ _ _ (load_asked host.scope reference) fun _ _ => trivial
  intro found hfound
  apply safe_need
  intro job hj
  apply safe_guard
  intro _
  have hf := fits_same (retriedJob job) (found_fits _ _ _ job hfound.1 hj (hfound.2 job hj))
    rfl rfl rfl
  exact safe_mono _ w (save_moves _ hf) (fun _ _ hg => hg) (fun _ _ _ => trivial)
    fun _ _ _ => trivial

theorem set_enabled_moves (enabled : Bool) :
    Safe Moves (fun _ _ => True) Any (setEnabled host enabled) w := by
  apply safe_guard
  intro _
  apply safe_look
  intro _
  apply safe_look
  intro old
  exact directory_put_frame (.setting host.scope) ⟨host.scope,enabled⟩ _ (fun _ => True)
    (fun _ => moves_of_calm (calm_written _ _ (fun _ _ h => nomatch h) fun _ _ h => nomatch h))
    (fun _ => trivial) trivial

end Operations

structure Accepted (w : World) (scope : RuntimeScope) (gate : WakeRef) (reply : Reply) : Prop where
  inScope : reply.scope = scope
  forGate : reply.gateWakeRef = gate
  inTime : ∃ q deadline, asked w scope gate = some q ∧ q.recipient = some reply.principal ∧
    q.deadline = some deadline ∧ reply.receivedMs < deadline

def AllAccepted (w : World) : Prop :=
  ∀ scope gate reply, replied w scope gate = some reply → Accepted w scope gate reply

theorem accepted_moves (a b : World) (h : Moves a b) (ha : AllAccepted a) : AllAccepted b := by
  intro scope gate reply hr
  rw [h.replied] at hr
  obtain ⟨hs,hg,q,deadline,hq,hrest⟩ := ha scope gate reply hr
  exact ⟨hs,hg,q,deadline,h.asked _ _ _ hq,hrest⟩

/-- The end of `respond`: the time of receipt is read and the reply stored. -/
def receive (host : Host) (reference : WakeRef) (auth : AuthContext)
    (response : ClarificationResponse) : M Unit := do
  let received ← clock
  directoryPut (Key.reply host.scope reference)
    ⟨host.scope,reference,auth.principalId,received,response⟩ .create

def InTime (host : Host) (o : Op) (p : M (Option ActionStatus)) (i : Env) (w : World) : Prop :=
  ∀ reference auth response, o = .respond reference auth response →
    p = (do
      receive host reference auth response
      pure none) →
    ∀ q deadline, asked w host.scope reference = some q → q.deadline = some deadline →
      i.now < deadline

theorem store_reply_eq (host : Host) (reference : WakeRef) (auth : AuthContext)
    (response : ClarificationResponse) (deadline : Option ℕ) :
    storeReply host reference auth response deadline = (do
      match ← read (Key.reply host.scope reference) with
      | some old =>
        refuseIf (old.value.scope ≠ host.scope ∨ old.value.gateWakeRef ≠ reference ∨
          old.value.principal ≠ auth.principalId ∨ old.value.response ≠ response)
          "clarification response idempotency conflict"
      | none => do
        let now ← clock
        refuseIf (deadline.all (fun t => decide (t ≤ now)) = true)
          "clarification deadline passed; answer is not consent"
        receive host reference auth response) :=
  rfl

section Respond
variable {host : Host} {w : World}

theorem accepted_reply (reference : WakeRef) (reply : Reply) (q : Question) (deadline : ℕ)
    (hw : AllAccepted w) (hs : reply.scope = host.scope) (hg : reply.gateWakeRef = reference)
    (hq : asked w host.scope reference = some q) (hp : q.recipient = some reply.principal)
    (hd : q.deadline = some deadline) (hr : reply.receivedMs < deadline) :
    AllAccepted (written w (.reply host.scope reference) reply) := by
  have hasked : ∀ scope gate, asked (written w (.reply host.scope reference) reply) scope gate =
      asked w scope gate :=
    fun scope gate => asked_written_other _ _ scope gate (fun h => nomatch h)
  intro scope gate found hf
  by_cases hk : Key.reply scope gate = .reply host.scope reference
  · cases hk
    have he : some reply = some found := (value_place w.directory _ _).symm.trans hf
    cases he
    exact ⟨hs,hg,q,deadline,by rw [hasked]; exact hq,hp,hd,hr⟩
  · have hold : replied w scope gate = some found :=
      (replied_written_other _ _ scope gate hk).symm.trans hf
    obtain ⟨hs',hg',q',deadline',hq',hrest⟩ := hw scope gate found hold
    exact ⟨hs',hg',q',deadline',by rw [hasked]; exact hq',hrest⟩

theorem receive_if (reference : WakeRef) (auth : AuthContext) (response : ClarificationResponse)
    (q : Question) (deadline : ℕ) (hw : AllAccepted w)
    (hq : asked w host.scope reference = some q) (hp : q.recipient = some auth.principalId)
    (hd : q.deadline = some deadline) :
    SafeIf (InTime host (.respond reference auth response)) (fun _ b => True ∧ AllAccepted b)
      (fun _ => AllAccepted) (fun _ => AllAccepted) (do
        receive host reference auth response
        pure none) w := by
  intro i hA
  have hnow : i.now < deadline := hA reference auth response rfl rfl q deadline hq hd
  refine ⟨Or.inl rfl,?_⟩
  apply safe_if_of_safe
  apply safe_bind
  exact directory_put_frame (.reply host.scope reference)
    ⟨host.scope,reference,auth.principalId,i.now,response⟩ .create AllAccepted
    (fun _ => ⟨trivial,accepted_reply reference _ q deadline hw rfl rfl hq hp hd hnow⟩)
    (fun _ => accepted_reply reference _ q deadline hw rfl rfl hq hp hd hnow) hw

theorem store_reply_if (reference : WakeRef) (auth : AuthContext)
    (response : ClarificationResponse) (q : Question) (hw : AllAccepted w)
    (hq : asked w host.scope reference = some q) (hp : q.recipient = some auth.principalId) :
    SafeIf (InTime host (.respond reference auth response)) (fun _ b => True ∧ AllAccepted b)
      (fun _ => AllAccepted) (fun _ => AllAccepted) (do
        storeReply host reference auth response q.deadline
        pure none) w := by
  simp only [store_reply_eq, Foundation.Resumption.bind_assoc]
  apply safe_if_after _ _ _ _ (silent_query _) fun _ => hw
  intro old
  cases old with
  | some old => exact safe_if_after _ _ _ _ (silent_ite _ _ _ trivial trivial) (fun _ => hw) fun _ => hw
  | none =>
    simp only [Foundation.Resumption.bind_assoc]
    apply safe_if_after _ _ _ _ (silent_query _) fun _ => hw
    intro now
    apply safe_if_bind
    apply safe_refuse
    · intro _
      exact hw
    intro hlate
    cases hd : q.deadline with
    | none =>
      rw [hd] at hlate
      exact absurd rfl hlate
    | some deadline => exact receive_if reference auth response q deadline hw hq hp hd

theorem respond_if (reference : WakeRef) (auth : AuthContext) (response : ClarificationResponse)
    (hw : AllAccepted w) :
    SafeIf (InTime host (.respond reference auth response)) (fun _ b => True ∧ AllAccepted b)
      (fun _ => AllAccepted) (fun _ => AllAccepted) (operate host (.respond reference auth response))
      w := by
  simp only [operate, respond, Foundation.Resumption.bind_assoc]
  apply safe_if_after _ _ _ _ (silent_query _) fun _ => hw
  intro _
  apply safe_if_after _ _ _ _ open_session_silent fun _ => hw
  intro _
  apply safe_if_bind
  have hcalm : ∀ t, Calm w t → AllAccepted t :=
    fun t ht => accepted_moves w t (moves_of_calm ht) hw
  have confirmed := safe_frame (Calm w) (fun a b hab ha => calm_trans w a b ha hab) _ w
    (confirm_parent_calm host reference host.scope) (calm_refl w)
  apply safe_mono _ w confirmed (fun _ b hg => ⟨trivial,hcalm b hg.2⟩) _ fun _ t he => hcalm t he.2
  intro job t hjob
  have ht := hcalm t hjob.2
  apply safe_if_bind
  apply safe_lift _ _ _ fun _ _ => ht
  intro asked hasked
  have hprep : job.prepared = some asked := by
    cases hp : job.prepared with
    | none =>
      rw [hp] at hasked
      cases hasked
    | some p =>
      rw [hp] at hasked
      cases hasked
      rfl
  have hq : Action.asked t host.scope reference = some asked.question := by
    rw [hjob.1.2, Job.question, hprep]
    rfl
  apply safe_if_bind
  apply safe_refuse _ _ _ fun _ => ht
  intro hvalid
  have hrec : asked.recipient = some auth.principalId := by
    by_contra h
    exact hvalid (Or.inr (Or.inl h))
  apply safe_if_after _ _ _ _ (silent_lift _) fun _ => ht
  intro decisionRef
  apply safe_if_after _ _ _ _ (silent_query _) fun _ => ht
  intro _
  exact store_reply_if reference auth response asked.question ht hq hrec

theorem operate_moves (o : Op) (p : M (Option ActionStatus)) (hw : AllAccepted w)
    (h : Safe Moves (fun _ _ => True) Any p w) :
    SafeIf (InTime host o) (fun _ b => True ∧ AllAccepted b) (fun _ => AllAccepted)
      (fun _ => AllAccepted) p w := by
  apply safe_if_of_safe
  exact safe_mono _ w (safe_frame AllAccepted accepted_moves p w h hw)
    (fun _ _ hg => ⟨trivial,hg.2⟩) (fun _ _ hq => hq.2) fun _ _ he => he.2

theorem moves_done (p : M Unit) (h : Safe Moves (fun _ _ => True) Any p w) :
    Safe Moves (fun _ _ => True) Any (do
      p
      pure (none : Option ActionStatus)) w := by
  apply safe_bind
  exact safe_mono _ w h (fun _ _ hg => hg) (fun _ _ _ => trivial) fun _ _ _ => trivial

end Respond

theorem reply_discipline (host : Host) : DisciplineIf (operate host) id (InTime host)
    (fun _ => AllAccepted) (fun _ => AllAccepted) fun _ _ _ => True where
  mid _ _ h := h
  boot _ _ h := h
  op o _ w hw := by
    cases o with
    | process reference =>
      apply operate_moves _ _ hw
      apply safe_bind
      exact safe_mono _ w (process_owned_moves reference) (fun _ _ hg => hg)
        (fun _ _ _ => trivial) fun _ _ _ => trivial
    | retry reference => exact operate_moves _ _ hw (moves_done _ (retry_moves reference))
    | respond reference auth response => exact respond_if reference auth response hw
    | setEnabled enabled => exact operate_moves _ _ hw (moves_done _ (set_enabled_moves enabled))

structure Consumable (host : Host) (w : World) (scope : RuntimeScope) (gate : WakeRef)
    (reply : Reply) : Prop where
  accepted : Accepted w scope gate reply
  answer : ∀ wake job env, (host.wakes wake.wakeRef).scope = scope →
    value w.directory (.job scope gate) = some job → Job.valid job scope gate = true →
    (env 0).storage = .up →
    (outcome (replyState host wake job) env w).1 = .ok (.given reply.response)
  clarification : ∀ job p recipient deadline env,
    value w.directory (.job scope gate) = some job → job.prepared = some p →
    p.recipient = some recipient → p.replyDeadlineMs = some deadline →
    (env 0).storage = .up →
    (outcome (answered scope gate recipient deadline) env w).1 = .ok true

theorem read_reply_outcome (scope : RuntimeScope) (gate : WakeRef) (reply : Reply)
    (env : ℕ → Env) (w : World) (hup : (env 0).storage = .up)
    (hr : replied w scope gate = some reply) :
    outcome (readReply scope gate) env w = (.ok (some reply),w,fun n => env (n+1)) := by
  obtain ⟨row,hc,rfl⟩ := value_some _ _ _ hr
  have hread : outcome (read (Key.reply scope gate) : M _) env w =
      (.ok (some row),w,fun n => env (n+1)) := by
    rw [Foundation.ConditionalStore.read, outcome_query]
    have hs : (Serves.service (env 0) : Service String) = .up := hup
    simp only [hs]
    exact congrArg (fun r => (Except.ok r,w,fun n => env (n+1))) hc
  rw [readReply, outcome_bind, hread]
  rfl

theorem consumable_of_accepted (host : Host) (w : World) (scope : RuntimeScope) (gate : WakeRef)
    (reply : Reply) (hr : replied w scope gate = some reply) (h : Accepted w scope gate reply) :
    Consumable host w scope gate reply := by
  obtain ⟨q,deadline,hq,hrec,hdl,hlt⟩ := h.inTime
  have hprep : ∀ job, value w.directory (.job scope gate) = some job →
      ∃ p, job.prepared = some p ∧ p.question = q := by
    intro job hj
    rw [asked, hj] at hq
    exact Option.map_eq_some_iff.mp hq
  refine ⟨h,?_,?_⟩
  · intro wake job env hs hj hv hup
    obtain ⟨p,hp,rfl⟩ := hprep job hj
    have hw : job.wakeRef = gate := by
      simp only [Job.valid, Bool.and_eq_true, decide_eq_true_eq] at hv
      exact hv.1.1.2
    have hrec' : p.recipient = some reply.principal := hrec
    have hdl' : p.replyDeadlineMs = some deadline := hdl
    simp only [replyState, hp, need, lift, hs, hw]
    show (outcome (readReply scope gate >>= _) env w).1 = _
    rw [outcome_bind, read_reply_outcome scope gate reply env w hup hr]
    simp [h.inScope, h.forGate, hrec', hdl', refuseIf, not_le.mpr hlt]
    rfl
  · intro job p recipient deadline' env hj hp hrec' hdl' hup
    obtain ⟨p',hp',rfl⟩ := hprep job hj
    rw [hp] at hp'
    cases hp'
    have hr' : recipient = reply.principal := Option.some.inj (hrec'.symm.trans hrec)
    have hd' : deadline' = deadline := Option.some.inj (hdl'.symm.trans hdl)
    rw [answered, outcome_bind, read_reply_outcome scope gate reply env w hup hr]
    simp [h.inScope, h.forGate, hr', hd', refuseIf, not_le.mpr hlt]
    rfl

/-- Wherever the second reading of the clock is before the deadline, every reply
that is stored can be consumed, in every state of the run. -/
theorem stored_replies_consumable (host : Host) (events : List (Event Op Env))
    (h : Conforms (operate host) id (InTime host) ⟨World.empty,none,[]⟩ events)
    (scope : RuntimeScope) (gate : WakeRef) (reply : Reply)
    (hr : replied (reached host events) scope gate = some reply) :
    Consumable host (reached host events) scope gate reply := by
  have hempty : AllAccepted World.empty := by
    intro scope gate reply hr
    cases hr
  have hs := run_sound_if (reply_discipline host) _ events h
    (sound_if_idle (reply_discipline host) ⟨World.empty,none,[]⟩ rfl hempty)
  exact consumable_of_accepted host _ scope gate reply hr (hs.1 scope gate reply hr)

def onTime (host : Host) (c : Config Op (Option ActionStatus) String Env World) (i : Env) : Bool :=
  match c.running with
  | some (.respond reference _ _,_) =>
    ((asked c.state host.scope reference).bind Question.deadline).all
      (fun deadline => decide (i.now < deadline))
  | _ => true

def punctual (host : Host) (c : Config Op (Option ActionStatus) String Env World) :
    List (Event Op Env) → Bool
  | [] => true
  | .tick i::rest => onTime host c i && punctual host (advance (operate host) id c (.tick i)) rest
  | e::rest => punctual host (advance (operate host) id c e) rest

theorem on_time_before (host : Host) (c : Config Op (Option ActionStatus) String Env World)
    (i : Env) (o : Op) (p : M (Option ActionStatus)) (hr : c.running = some (o,p))
    (h : onTime host c i = true) : InTime host o p i c.state := by
  intro reference auth response ho _ q deadline hq hd
  subst ho
  simpa [onTime, hr, hq, hd] using h

theorem conforms_of_punctual (host : Host) (c : Config Op (Option ActionStatus) String Env World)
    (events : List (Event Op Env)) (h : punctual host c events = true) :
    Conforms (operate host) id (InTime host) c events := by
  induction events generalizing c with
  | nil => trivial
  | cons e rest ih =>
    cases e with
    | start o =>
      refine ⟨?_,ih _ h⟩
      intro i o p he
      cases he
    | crash =>
      refine ⟨?_,ih _ h⟩
      intro i o p he
      cases he
    | tick i =>
      rw [punctual, Bool.and_eq_true] at h
      refine ⟨?_,ih _ h.2⟩
      intro j o p he hr
      cases he
      exact on_time_before host c i o p hr h.1

def askingHost : Host :=
  { sampleHost with clarification := some ⟨⟨false⟩,"kip:principal:user",1000⟩ }

def askingEnv (now : ℕ) (done : List WakeRef) : Env :=
  { sampleEnv .ask firstAttempt .null now done with
    suggestion := .ok (.ask "because" [] "which one?") }

def sampleResponse : ClarificationResponse := ⟨"event","the first"⟩

def sampleUser : AuthContext := ⟨"kip:principal:user",false,"key","strong",false⟩

/-- A question of deadline 1000 is committed, then answered: the answer reads the
clock at `first` for a number of steps and at `second` after them. -/
def answerRun (steps first second : ℕ) : List (Event Op Env) :=
  .start (.process "first")::List.replicate 40 (.tick (askingEnv 0 []))++
  .start (.respond "first" sampleUser sampleResponse)::
    List.replicate steps (.tick (askingEnv first ["first"]))++
    List.replicate 6 (.tick (askingEnv second ["first"]))

def storedReply (received : ℕ) : Reply :=
  ⟨sampleScope,"first","kip:principal:user",received,sampleResponse⟩

theorem stored_replies_consumable_early : Consumable askingHost
    (reached askingHost (answerRun 20 10 20)) sampleScope "first" (storedReply 10) :=
  stored_replies_consumable askingHost (answerRun 20 10 20)
    (conforms_of_punctual _ _ _ (by decide +kernel)) sampleScope "first" _ (by decide +kernel)

def readings (events : List (Event Op Env)) : List ℕ :=
  events.filterMap fun e => match e with
    | .tick i => some i.now
    | _ => none

def errorOf {α : Type} : Except String α → Option String
  | .ok _ => none
  | .error e => some e

/-- The clock goes from 999 to 1000 between the two readings of an answer. The
reply is stored as received at the deadline, and both gates reject it. -/
theorem late_reply_rejected :
    (readings (answerRun 10 999 1000)).Pairwise (fun a b => a ≤ b) ∧
    replied (reached askingHost (answerRun 10 999 1000)) sampleScope "first" =
      some (storedReply 1000) ∧
    ¬Consumable askingHost (reached askingHost (answerRun 10 999 1000)) sampleScope "first"
      (storedReply 1000) ∧
    errorOf (outcome (answered sampleScope "first" "kip:principal:user" 1000)
      (fun _ => askingEnv 1000 ["first"]) (reached askingHost (answerRun 10 999 1000))).1 =
      some "clarification reply correlation mismatch" ∧
    (value (reached askingHost (answerRun 10 999 1000)).directory
      (.job sampleScope "first")).bind (fun job =>
        errorOf (outcome (replyState askingHost ⟨"answer",1,1,.pending⟩ job)
          (fun _ => askingEnv 1000 ["first"]) (reached askingHost (answerRun 10 999 1000))).1) =
      some "reply correlation mismatch" := by
  refine ⟨by decide +kernel,by decide +kernel,?_,by decide +kernel,by decide +kernel⟩
  intro h
  obtain ⟨q,deadline,hq,-,hd,hlt⟩ := h.accepted.inTime
  have hdl : (asked (reached askingHost (answerRun 10 999 1000)) sampleScope "first").bind
      Question.deadline = some 1000 := by decide +kernel
  rw [hq, Option.bind_some, hd] at hdl
  cases hdl
  exact absurd hlt (by decide)

end AndaBrain.Action
