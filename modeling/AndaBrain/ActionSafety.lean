import AndaBrain.ActionRuntime

/-!
# What the journal and the control records guarantee

Every journal entry and every committed gate agrees with the slots of the deduplication keys, and
no attempt has more external calls than its control record accounts for.
-/

set_option autoImplicit false

namespace AndaBrain.Action
open Foundation.ConditionalStore

/-- The slot of the key `id`, taken for a request like this one. -/
structure SlotFor (w : World) (q : ActionRequest) (id : String) (slot : Dedup) : Prop where
  stored : value w.directory (.dedup q.scope id) = some slot
  pins : slot.pins = q.pins
  digest : slot.requestDigest = q.digest

def SlotDecides (w : World) (p : PreparedGate) (q : ActionRequest) (id : String) : Prop :=
  ∃ slot, SlotFor w q id slot ∧
    ((p.decision = .act ∧ slot.owner = q.gateWakeRef) ∨
      (p.decision = .silence ∧ slot.owner ≠ q.gateWakeRef))

structure PreparedOk (host : Host) (w : World) (reference : WakeRef) (p : PreparedGate) :
    Prop where
  acts : p.decision = .act → p.request.isSome
  request : ∀ q, p.request = some q → p.considered = some q
  considered : ∀ q, p.considered = some q → ∃ capture payload,
    q = requestOf host reference capture payload
  decided : ∀ q id, p.considered = some q → q.kind = .business →
    q.context.deduplicationKey = some id → p.decision = .defer ∨ SlotDecides w p q id

def Host.isDispatch (host : Host) (reference : WakeRef) : Prop :=
  (host.wakes reference).continuationKey = some .dispatch

def recordOf (attemptId : AttemptId) : DispatchRef := dispatchReference attemptId.scope attemptId

/-- `attemptId` is the attempt that the dispatch wake `reference` carries out. -/
def Target (host : Host) (reference : WakeRef) (attemptId : AttemptId) : Prop :=
  ∃ parent, (host.wakes reference).parentRef = some parent ∧ attemptId = host.attemptOf parent

structure JobOk (host : Host) (w : World) (job : Job) : Prop where
  scope : job.scope = (host.wakes job.wakeRef).scope
  prepared : ∀ p, job.prepared = some p → PreparedOk host w job.wakeRef p
  gates : host.isDispatch job.wakeRef → job.prepared = none
  retained : host.isDispatch job.wakeRef → ∀ record, job.status.dispatchRef = some record →
    ∃ attemptId, Target host job.wakeRef attemptId ∧ record = recordOf attemptId

def Unguarded (host : Host) (kind : ActionKind) : Prop :=
  ∀ ex, executor host kind = .ok ex → ex.supportsIdempotency = false

def Room (w : World) (attemptId : AttemptId) : Prop :=
  w.dispatched.count attemptId ≤ w.returned.count attemptId

def Open (state : Option ControlState) : Prop := state = none ∨ state = some .ready

structure Good (host : Host) (w : World) : Prop where
  jobs : ∀ scope reference job, value w.directory (.job scope reference) = some job →
    JobOk host w job
  committed : ∀ reference p, (reference,p) ∈ w.committed → PreparedOk host w reference p
  calls : ∀ a, Unguarded host a.kind → w.dispatched.count a ≤ w.returned.count a+1
  room : ∀ a, Unguarded host a.kind → Open (w.control (recordOf a)) → Room w a

def Kept (a b : World) : Prop := ∀ scope id slot,
  value a.directory (.dedup scope id) = some slot → value b.directory (.dedup scope id) = some slot

def Step (host : Host) (a b : World) : Prop := Kept a b ∧ Good host b

def SameCalls (a b : World) : Prop := b.dispatched = a.dispatched ∧ b.returned = a.returned

variable {host : Host} {w t : World}

theorem kept_refl (w : World) : Kept w w := fun _ _ _ h => h

theorem kept_trans (a b c : World) (h : Kept a b) (h' : Kept b c) : Kept a c :=
  fun scope id slot hs => h' scope id slot (h scope id slot hs)

theorem kept_directory (a b : World) (h : b.directory = a.directory) : Kept a b := by
  intro scope id slot hs
  rw [h]
  exact hs

theorem slot_kept (q : ActionRequest) (id : String) (slot : Dedup) (h : Kept w t)
    (hs : SlotFor w q id slot) : SlotFor t q id slot :=
  ⟨h _ _ _ hs.stored,hs.pins,hs.digest⟩

theorem prepared_kept (reference : WakeRef) (p : PreparedGate) (h : Kept w t)
    (hp : PreparedOk host w reference p) : PreparedOk host t reference p := by
  refine ⟨hp.acts,hp.request,hp.considered,?_⟩
  intro q id hq hk hid
  rcases hp.decided q id hq hk hid with hd | ⟨slot,hs,hrest⟩
  · exact Or.inl hd
  · exact Or.inr ⟨slot,slot_kept q id slot h hs,hrest⟩

theorem job_kept (job : Job) (h : Kept w t) (hj : JobOk host w job) : JobOk host t job :=
  ⟨hj.scope,fun p hp => prepared_kept _ _ h (hj.prepared p hp),hj.gates,hj.retained⟩

theorem job_of_same (job next : Job) (hj : JobOk host w job) (hs : next.scope = job.scope)
    (hr : next.wakeRef = job.wakeRef) (hp : next.prepared = job.prepared)
    (hd : next.status.dispatchRef = job.status.dispatchRef) : JobOk host w next := by
  constructor
  · rw [hs, hr]
    exact hj.scope
  · rw [hp, hr]
    exact hj.prepared
  · rw [hp, hr]
    exact hj.gates
  · rw [hd, hr]
    exact hj.retained

theorem room_same (a : AttemptId) (h : SameCalls w t) (hr : Room w a) : Room t a := by
  rw [Room, h.1, h.2]
  exact hr

def EntryOk (host : Host) (w : World) : (k : Key) → Entry k → Prop
  | .job _ _, job => JobOk host w job
  | .dedup scope id, _ => w.directory.cells (.dedup scope id) = none
  | .reply _ _, _ => True
  | .setting _, _ => True

theorem write_kept (k : Key) (v : Entry k) (hv : EntryOk host w k v) : Kept w (written w k v) := by
  intro scope id slot hs
  have hne : Key.dedup scope id ≠ k := by
    intro hk
    subst hk
    rw [value_none _ _ hv] at hs
    cases hs
  exact (value_place_of_ne w.directory k _ v hne).trans hs

theorem write_jobs (k : Key) (v : Entry k) (hw : Good host w) (hv : EntryOk host w k v)
    (scope : RuntimeScope) (reference : WakeRef) (job : Job)
    (hj : value (written w k v).directory (.job scope reference) = some job) :
    JobOk host w job := by
  by_cases hk : Key.job scope reference = k
  · subst hk
    have he : some v = some job := (value_place w.directory _ v).symm.trans hj
    cases he
    exact hv
  · exact hw.jobs scope reference job ((value_place_of_ne w.directory k _ v hk).symm.trans hj)

theorem write_step (k : Key) (v : Entry k) (hw : Good host w) (hv : EntryOk host w k v) :
    Step host w (written w k v) := by
  have hk : Kept w (written w k v) := write_kept k v hv
  refine ⟨hk,?_,?_,hw.calls,hw.room⟩
  · intro scope reference job hj
    exact job_kept job hk (write_jobs k v hw hv scope reference job hj)
  · intro reference p hp
    exact prepared_kept _ _ hk (hw.committed reference p hp)

theorem native_step (hw : Good host w) (hd : t.directory = w.directory)
    (hc : ∀ reference p, (reference,p) ∈ t.committed → PreparedOk host w reference p)
    (hcalls : ∀ a, Unguarded host a.kind → t.dispatched.count a ≤ t.returned.count a+1)
    (hroom : ∀ a, Unguarded host a.kind → Open (t.control (recordOf a)) → Room t a) :
    Step host w t := by
  have hk : Kept w t := kept_directory w t hd
  refine ⟨hk,?_,fun reference p hp => prepared_kept _ _ hk (hc reference p hp),hcalls,hroom⟩
  intro scope reference job hj
  rw [hd] at hj
  exact job_kept job hk (hw.jobs scope reference job hj)

theorem commit_step (reference : WakeRef) (p : PreparedGate) (hw : Good host w)
    (hp : PreparedOk host w reference p) :
    Step host w { w with committed := w.committed++[(reference,p)] } := by
  apply native_step hw
  · rfl
  · intro r q hq
    rcases List.mem_append.mp hq with hq | hq
    · exact hw.committed r q hq
    · cases List.mem_singleton.mp hq
      exact hp
  · exact hw.calls
  · exact hw.room

theorem recorded_control (w : World) (record : DispatchRef) (state : ControlState) :
    (w.recorded record state).control record = some state :=
  Function.update_self _ _ _

theorem recorded_other (w : World) (record other : DispatchRef) (state : ControlState)
    (h : other ≠ record) : (w.recorded record state).control other = w.control other :=
  Function.update_of_ne h _ _

theorem not_open_held (state : Held) : ¬Open (some (.held state)) := by
  simp [Open]

theorem recorded_step (record : DispatchRef) (state : Held) (hw : Good host w) :
    Step host w (w.recorded record (.held state)) := by
  apply native_step hw
  · rfl
  · exact hw.committed
  · exact hw.calls
  intro a ha ho
  by_cases hr : recordOf a = record
  · rw [hr, recorded_control] at ho
    exact absurd ho (not_open_held state)
  · rw [recorded_other w _ _ _ hr] at ho
    exact hw.room a ha ho

theorem progressed_step (record : DispatchRef) (next : Option Held) (hw : Good host w) :
    w.progressed record next = w ∨ Step host w (w.progressed record next) := by
  unfold World.progressed
  split
  · exact Or.inr (recorded_step _ _ hw)
  · exact Or.inl rfl

theorem progressed_calls (record : DispatchRef) (next : Option Held) :
    SameCalls w (w.progressed record next) := by
  unfold World.progressed
  split <;> exact ⟨rfl,rfl⟩

theorem returned_step (record : DispatchRef) (hw : Good host w) :
    Step host w { w.recorded record .ready with
      returned := w.returned++[record.attemptId] } := by
  have hcount : ∀ a, (w.returned++[record.attemptId]).count a =
      w.returned.count a+[record.attemptId].count a := fun a => List.count_append
  apply native_step hw
  · rfl
  · exact hw.committed
  · intro a ha
    have hc := hw.calls a ha
    show w.dispatched.count a ≤ (w.returned++[record.attemptId]).count a+1
    rw [hcount]
    omega
  intro a ha ho
  show w.dispatched.count a ≤ (w.returned++[record.attemptId]).count a
  rw [hcount]
  by_cases hr : recordOf a = record
  · have hc := hw.calls a ha
    have hone : [record.attemptId].count a = 1 := by
      rw [← hr]
      exact List.count_singleton_self
    omega
  · have hroom := hw.room a ha (by rwa [← recorded_other w _ _ .ready hr])
    rw [Room] at hroom
    omega

theorem call_step (attemptId : AttemptId) (hw : Good host w)
    (hroom : Unguarded host attemptId.kind → Room w attemptId)
    (hheld : ¬Open (w.control (recordOf attemptId))) :
    Step host w { w with dispatched := w.dispatched++[attemptId] } := by
  have hcount : ∀ a, (w.dispatched++[attemptId]).count a =
      w.dispatched.count a+[attemptId].count a := fun a => List.count_append
  have hzero : ∀ a, a ≠ attemptId → [attemptId].count a = 0 := by
    intro a ha
    exact List.count_singleton.trans (if_neg (by simpa using Ne.symm ha))
  apply native_step hw
  · rfl
  · exact hw.committed
  · intro a ha
    show (w.dispatched++[attemptId]).count a ≤ w.returned.count a+1
    rw [hcount]
    by_cases he : a = attemptId
    · subst he
      have hr := hroom ha
      rw [Room] at hr
      rw [List.count_singleton_self]
      omega
    · rw [hzero a he]
      exact hw.calls a ha
  · intro a ha ho
    have he : a ≠ attemptId := fun he => hheld (he ▸ ho)
    show (w.dispatched++[attemptId]).count a ≤ w.returned.count a
    rw [hcount, hzero a he]
    exact hw.room a ha ho

end AndaBrain.Action
