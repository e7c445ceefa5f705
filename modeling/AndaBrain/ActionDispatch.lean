import AndaBrain.ActionSteps

/-!
# Dispatch, step by step

A dispatch reads the control record of its attempt before anything else.
-/

set_option autoImplicit false

namespace AndaBrain.Action
open Foundation.Resumption

variable {host : Host} {reference : WakeRef} {w t : World} {attemptId : AttemptId}

def Free (host : Host) (w : World) (attemptId : AttemptId) : Prop :=
  Unguarded host attemptId.kind → Room w attemptId

theorem free_same (h : SameCalls w t) (hf : Free host w attemptId) : Free host t attemptId :=
  fun hu => room_same attemptId h (hf hu)

theorem free_of_open (hw : Good host w) (ho : Open (w.control (recordOf attemptId))) :
    Free host w attemptId := fun hu => hw.room attemptId hu ho

variable (job : Job) (record : DispatchRef)

theorem read_control_safe (hw : Good host w) :
    Safe (Step host) (fun state t => t.control record = state) Any (readControl record) w := by
  apply safe_look
  intro _
  apply safe_atomic
  · intro i
    exact progressed_step record i.progress hw
  · intro i state hs
    cases hs
    rfl
  · intro _ _ _
    trivial

theorem retained_control_safe (hw : Good host w) :
    Safe (Step host) (fun state t => state ≠ none → ∃ record,
      job.status.dispatchRef = some record ∧ t.control record = state) Any
      (retainedControl job) w := by
  rw [retainedControl]
  cases hr : job.status.dispatchRef with
  | some record =>
    apply safe_mono _ w (read_control_safe record hw) (fun _ _ hg => hg) _ fun _ _ he => he
    intro state t hs _
    exact ⟨record,rfl,hs⟩
  | none =>
    intro h
    exact absurd rfl h

/-- The dispatch wake `reference` carries out the attempt, in the attempt's scope. -/
structure Carries (host : Host) (reference : WakeRef) (attemptId : AttemptId) : Prop where
  dispatch : host.isDispatch reference
  target : Target host reference attemptId
  scope : (host.wakes reference).scope = attemptId.scope

theorem carries_record (h : Carries host reference attemptId) :
    dispatchReference (host.wakes reference).scope attemptId = recordOf attemptId := by
  rw [h.scope]
  rfl

theorem own_record (h : Carries host reference attemptId) (hj : Own host reference w job) : Own host
    reference w (job.withDispatchRef (recordOf attemptId)) := by
  refine ⟨⟨hj.1.scope,hj.1.prepared,hj.1.gates,?_⟩,hj.2⟩
  intro _ record hr
  cases hr
  refine ⟨attemptId,?_,rfl⟩
  show Target host job.wakeRef attemptId
  rw [hj.2]
  exact h.target

theorem retained_record (h : Carries host reference attemptId) (hj : Own host reference w job)
    (hr : job.status.dispatchRef = some record) : record = recordOf attemptId := by
  have hd : host.isDispatch job.wakeRef := by
    rw [hj.2]
    exact h.dispatch
  obtain ⟨other,⟨parent,hp,rfl⟩,rfl⟩ := hj.1.retained hd record hr
  obtain ⟨parent',hp',rfl⟩ := h.target
  rw [hj.2, hp'] at hp
  cases hp
  rfl

theorem prior_control_safe (h : Carries host reference attemptId)
    (hw : Good host w) (hj : Own host reference w job) :
    Safe (Step host) (fun found t => Own host reference t found.2 ∧
      (Open found.1 → Free host t attemptId)) Any
      (priorControl job (recordOf attemptId)) w := by
  apply safe_then _ _ hw (retained_control_safe job hw) fun _ _ _ _ _ => trivial
  intro retained t hk ht hret
  cases retained with
  | some state =>
    obtain ⟨record,hr,hs⟩ := hret (fun h => nomatch h)
    rw [retained_record job record h hj hr] at hs
    refine ⟨own_kept hk hj,?_⟩
    intro ho
    rw [← hs] at ho
    exact free_of_open ht ho
  | none =>
    apply safe_then _ _ ht (read_control_safe (recordOf attemptId) ht) fun _ _ _ _ _ => trivial
    intro state u hk' hu hs
    have hfree : Open state → Free host u attemptId := by
      intro ho
      rw [← hs] at ho
      exact free_of_open hu ho
    have hju := own_kept hk' (own_kept hk hj)
    cases state with
    | some state => exact ⟨own_record job h hju,hfree⟩
    | none => exact ⟨hju,hfree⟩

theorem reconcile_safe (found : LookupStatus) (hw : Good host w) :
    Safe (Step host) (fun _ _ => True) Any (reconcile record found) w := by
  apply safe_atomic
  · intro i
    split
    · exact Or.inl rfl
    right
    split
    · exact returned_step record hw
    · exact recorded_step record _ hw
  · intro _ _ _
    trivial
  · intro _ _ _
    trivial

theorem after_lookup_own (found : LookupStatus) (now : ℕ)
    (hj : Own host reference w job) : Own host reference w (afterLookup host job found now) := by
  cases found <;> exact own_same (afterLookup host job _ now) hj rfl rfl rfl rfl

theorem look_up_keeps (hw : Good host w) (hj : Own host reference w job) :
    Keeps host reference (lookUp host job) w := by
  apply keeps_after _ _ (silent_lift _) hj
  intro record
  apply keeps_save _ _ hw (own_same (countAttempt job) hj rfl rfl rfl rfl)
  intro t _ ht hjt _
  apply keeps_after _ _ (silent_query _) hjt
  intro found
  apply keeps_then _ _ ht hjt (reconcile_safe record found ht)
  intro _ u _ _ hju _
  apply keeps_after _ _ (silent_query _) hju
  intro now
  exact after_lookup_own _ found now hju

/-- When a call is permitted, its record is there and holds further calls back. -/
theorem begin_dispatch_safe (hw : Good host w) :
    Safe (Step host) (fun permit t => SameCalls w t ∧ permit.dispatchRef = record ∧
      (permit.action = .dispatch → ¬Open (t.control record))) Any (beginDispatch record) w := by
  apply safe_atomic
  · intro i
    split
    · exact Or.inl rfl
    · exact Or.inr (recorded_step record _ hw)
    · split
      · exact Or.inr (recorded_step record _ hw)
      · exact progressed_step record _ hw
  · intro i permit hp
    cases hb : i.begin with
    | refused e => simp [hb] at hp
    | lost e => simp [hb] at hp
    | done given =>
      simp only [hb, Except.ok.injEq] at hp
      subst hp
      by_cases hd : given.2 = .dispatch
      · simp only [if_pos hd]
        refine ⟨⟨rfl,rfl⟩,trivial,fun _ => ?_⟩
        rw [recorded_control]
        exact not_open_held _
      · simp only [if_neg hd]
        exact ⟨progressed_calls record _,trivial,fun h => absurd h hd⟩
  · intro _ _ _
    trivial

theorem call_executor_safe (hw : Good host w) (hf : Free host w attemptId)
    (hh : ¬Open (w.control (recordOf attemptId))) :
    Safe (Step host) (fun _ _ => True) Any (callExecutor attemptId) w := by
  apply safe_atomic
  · intro _
    exact Or.inr (call_step attemptId hw hf hh)
  · intro _ _ _
    trivial
  · intro _ _ _
    trivial

theorem perform_keeps (wake : WakeRecord) (job : Job) (permit : Permit) (hw : Good host w)
    (hj : Own host reference w job) (hf : Free host w attemptId)
    (hh : permit.action = .dispatch → ¬Open (w.control (recordOf attemptId))) :
    Keeps host reference (perform wake job attemptId permit) w := by
  rw [perform]
  cases ha : permit.action with
  | dispatch =>
    apply keeps_refuse _ _ _ hj
    intro _
    apply keeps_then _ _ hw hj (call_executor_safe hw hf (hh ha))
    intro delivery t _ _ hjt _
    exact own_same (afterCall job delivery) hjt rfl rfl rfl rfl
  | lookup => exact own_same (job.withState .outcomeUnknown) hj rfl rfl rfl rfl
  | outcomeUnknown => exact own_same (job.withState .outcomeUnknown) hj rfl rfl rfl rfl
  | done => exact own_same (job.withState .awaitingCompletion) hj rfl rfl rfl rfl
  | other => exact hj

theorem open_session_silent : Silent openSession := by
  apply silent_bind _ _ (silent_query _)
  intro auth
  exact silent_bind _ _ (silent_ite _ _ _ trivial trivial) fun _ => trivial

section Request
variable (principal : String) (wake : WakeRecord) (job : Job) (request : ActionRequest)

theorem admit_call_keeps (h : Carries host reference request.attemptId) (hw : Good host w)
    (hj : Own host reference w job) (hr : wake.wakeRef = reference)
    (hf : Free host w request.attemptId) :
    Keeps host reference (admitCall host principal wake job request) w := by
  apply keeps_still _ _ (acquire_still principal wake) hj
  intro leased hl
  rw [hr] at hl
  apply keeps_after _ _ (authorize_silent request) hj
  intro _
  apply keeps_after _ _ (silent_query _) hj
  intro _
  apply keeps_save _ _ hw (own_same (countAttempt job) hj rfl rfl rfl rfl)
  intro t _ ht hjt hc
  apply keeps_after _ _ open_session_silent hjt
  intro _
  apply keeps_after _ _ (silent_lift _) hjt
  intro _
  rw [hl, carries_record h]
  apply keeps_then _ _ ht hjt (begin_dispatch_safe (recordOf request.attemptId) ht)
  intro permit u _ hu hju hb
  rw [hb.2.1]
  have hju' := own_record _ h hju
  apply keeps_refuse _ _ _ hju'
  intro _
  have hfu := free_same hb.1 (free_same hc hf)
  apply keeps_bind _ _ hu (perform_keeps leased _ permit hu hju' hfu hb.2.2)
  intro job' v _ _ hj'
  apply keeps_after _ _ (silent_query _) hj'
  intro now
  exact own_same (job'.withNextRun _) hj' rfl rfl rfl rfl

theorem hold_back_keeps (hw : Good host w) (hj : Own host reference w job) :
    Keeps host reference (holdBack host principal wake job) w := by
  apply keeps_still _ _ (acquire_still principal wake) hj
  intro _ _
  exact block_keeps job hw hj

theorem dispatch_open_keeps (h : Carries host reference request.attemptId) (hw : Good host w)
    (hj : Own host reference w job) (hr : wake.wakeRef = reference)
    (hf : Free host w request.attemptId) :
    Keeps host reference (dispatchOpen host principal wake request job) w := by
  apply safe_ite
  · intro _
    have hj' := own_same (job.withReason (some "dispatch_retry_budget_exhausted")) hj
      rfl rfl rfl rfl
    apply safe_ite
    · intro _
      exact hold_back_keeps principal wake _ hw hj'
    · intro _
      exact hj'
  · intro _
    exact admit_call_keeps principal wake job request h hw hj hr hf

theorem free_of_replay (ex : Executor) (state : ControlState)
    (hk : request.kind = request.attemptId.kind) (hx : executor host request.kind = .ok ex)
    (hc : canReplay host ex job state = true) : Free host w request.attemptId := by
  intro hu
  rw [hk] at hx
  simp [canReplay, hu ex hx] at hc

theorem dispatch_held_keeps (state : ControlState) (h : Carries host reference request.attemptId)
    (hw : Good host w) (hj : Own host reference w job) (hr : wake.wakeRef = reference)
    (hk : request.kind = request.attemptId.kind) : Keeps host reference
    (dispatchHeld host principal wake job request state) w := by
  apply safe_ite
  · intro _
    exact look_up_keeps job hw hj
  intro _
  have found : Safe (fun _ _ => False) (fun ex _ => executor host request.kind = .ok ex) Any
      (lift (executor host request.kind) : M Executor) w :=
    safe_lift _ w (fun _ hx => hx) fun _ _ => trivial
  apply keeps_still _ _ found hj
  intro ex hx
  apply safe_ite
  · intro hc
    exact dispatch_open_keeps principal wake job request h hw hj hr
      (free_of_replay job request ex state hk hx hc)
  intro _
  have hj' := own_same (job.withReason
    (some "dispatch_requires_independent_outcome_or_authoritative_lookup")) hj rfl rfl rfl rfl
  apply safe_ite
  · intro _
    exact hold_back_keeps principal wake _ hw hj'
  · intro _
    exact own_same (((job.withReason _).withState .blocked).withNextRun none) hj' rfl rfl rfl
      rfl

theorem dispatch_state_keeps (prior : Option ControlState)
    (h : Carries host reference request.attemptId) (hw : Good host w)
    (hj : Own host reference w job) (hr : wake.wakeRef = reference)
    (hk : request.kind = request.attemptId.kind) (hf : Open prior → Free host w request.attemptId) :
    Keeps host reference (dispatchState host principal wake job request prior) w := by
  match prior with
  | some (.held state) =>
    exact dispatch_held_keeps principal wake job request _ h hw hj hr hk
  | some .ready =>
    exact dispatch_open_keeps principal wake job request h hw hj hr (hf (Or.inr rfl))
  | none => exact dispatch_open_keeps principal wake job request h hw hj hr (hf (Or.inl rfl))

theorem answered_request_silent : Silent (answeredRequest host wake request) := by
  apply silent_ite
  · apply silent_bind _ _ (silent_lift _)
    intro correlation
    apply silent_bind _ _ (silent_lift _)
    intro recipient
    apply silent_bind _ _ (silent_lift _)
    intro deadline
    exact answered_silent _ _ _ _
  · trivial

theorem dispatch_prior_keeps (prior : Option ControlState)
    (h : Carries host reference request.attemptId) (hw : Good host w)
    (hj : Own host reference w job) (hr : wake.wakeRef = reference)
    (hk : request.kind = request.attemptId.kind) (hf : Open prior → Free host w request.attemptId) :
    Keeps host reference (dispatchPrior host principal wake job request prior) w := by
  apply keeps_after _ _ (answered_request_silent wake request) hj
  intro isAnswered
  apply safe_ite
  · intro _
    apply keeps_after _ _ (silent_query _) hj
    intro _
    exact own_same (((job.withState .cancelled).withReason _).withNextRun none) hj rfl rfl rfl rfl
  intro _
  apply safe_ite
  · intro _
    apply keeps_still _ _ (acquire_still principal wake) hj
    intro _ _
    apply keeps_after _ _ (silent_query _) hj
    intro _
    exact own_same ((job.withState .completed).withNextRun none) hj rfl rfl rfl rfl
  intro _
  apply safe_ite
  · intro _
    exact hj
  · intro _
    exact dispatch_state_keeps principal wake job request prior h hw hj hr hk hf

end Request

theorem dispatch_keeps (principal : String) (wake : WakeRecord) (job parentJob : Job)
    (parent : WakeRef) (hw : Good host w) (hj : Own host reference w job)
    (hp : Own host parent w parentJob) (hr : wake.wakeRef = reference)
    (hd : host.isDispatch reference) (hpr : (host.wakes reference).parentRef = some parent)
    (hs : (host.wakes parent).scope = (host.wakes reference).scope) :
    Keeps host reference (dispatch host principal wake job parentJob) w := by
  apply keeps_need _ _ _ hj
  intro p hprep
  apply keeps_need _ _ _ hj
  intro request hreq
  have hok : PreparedOk host w parent p := hp.2 ▸ hp.1.prepared p hprep
  obtain ⟨capture,payload,rfl⟩ := hok.considered request (hok.request request hreq)
  have h : Carries host reference (host.attemptOf parent) := ⟨hd,⟨parent,hpr,rfl⟩,hs.symm⟩
  apply keeps_after _ _ (silent_lift _) hj
  intro attemptRef
  apply keeps_after _ _ (silent_query _) hj
  intro fixed
  apply keeps_refuse _ _ _ hj
  intro _
  have hj' := own_same (job.follows parentJob attemptRef) hj rfl rfl rfl rfl
  rw [hr]
  show Safe _ _ _ (withJob _ (priorControl _ (dispatchReference _ (host.attemptOf parent))) >>= _) w
  rw [carries_record h]
  apply keeps_then _ _ hw hj' (prior_control_safe _ h hw hj')
  intro found t _ ht _ hf
  exact dispatch_prior_keeps principal wake found.2 _ found.1 h ht hf.1 hr rfl hf.2

end AndaBrain.Action
