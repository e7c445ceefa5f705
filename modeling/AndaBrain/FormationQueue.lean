import Mathlib.Data.List.Range
import AndaBrain.Foundation.KeysetPages

/-!
# The Formation queue and its watermark

`agents/formation.rs`: accepted conversations are encoded in the order of their ids.
-/

set_option autoImplicit false

namespace AndaBrain.FormationQueue

inductive ConversationStatus where
  | submitted
  | working
  | idle
  | completed
  | cancelled
  | failed
deriving DecidableEq

def ConversationStatus.terminal : ConversationStatus → Bool
  | .completed => true
  | .cancelled => true
  | _ => false

def pendingStatuses : List ConversationStatus := [.submitted,.working,.idle,.failed]

structure Row where
  status : ConversationStatus
  label : Option String

def Row.formation (row : Row) : Bool := row.label.all (· == "formation")

abbrev Rows := ℕ → Option Row

def pending (rows : Rows) (id : ℕ) : Bool :=
  (rows id).any fun row => !row.status.terminal && row.formation

def queryIds (rows : Rows) (latest cursor : ℕ) : List ℕ :=
  ((List.range' 1 latest).filter fun id =>
    decide (cursor < id) && (rows id).any fun row => pendingStatuses.contains row.status).take 64

/-- The pages of the search. Each page moves the cursor, so `latest + 1` pages are enough. -/
def findPages (rows : Rows) (latest : ℕ) : ℕ → ℕ → Option ℕ
  | 0, _ => none
  | fuel+1, cursor =>
    match (queryIds rows latest cursor).getLast? with
    | none => none
    | some last =>
      match (queryIds rows latest cursor).find? (pending rows) with
      | some id => some id
      | none => findPages rows latest fuel last

def findNextSubmitted (rows : Rows) (latest afterId : ℕ) : Option ℕ :=
  findPages rows latest (latest+1) afterId

/-- Where the worker that owns the slot stands in its loop, with the status of its
own copy of the conversation while it processes it. -/
inductive Phase where
  | processing (status : ConversationStatus) (retried : Bool)
  | saving
  | offering
  | searching

structure Worker where
  id : ℕ
  phase : Phase

structure Start where
  id : ℕ
  status : ConversationStatus

structure State where
  rows : Rows
  latest : ℕ
  processed : ℕ
  stored : ℕ
  worker : Option Worker
  maintenance : Bool
  rechecks : List ℕ
  starts : List Start

def State.start : State := ⟨fun _ => none,0,0,0,none,false,[],[]⟩

/-- How a write of the marker ends: on disk, in memory only, or not at all. -/
inductive Saved where
  | done
  | unflushed
  | failed

inductive Event where
  | submit (error : Bool)
  | other (label : String) (status : ConversationStatus)
  | restart (id : ℕ) (error : Bool)
  | resume (error : Bool)
  | enter (k : ℕ)
  | snapshot (status : ConversationStatus) (kept : Bool)
  | returned (giveUp kept : Bool)
  | save (result : Saved)
  | offer (taken : Bool)
  | search (error : Bool)
  | recheck (k : ℕ) (error : Bool)
  | maintain
  | rested
  | reopen

def State.idle (s : State) : Bool := s.worker.isNone && !s.maintenance

def State.statusOf (s : State) (id : ℕ) : ConversationStatus :=
  (s.rows id).elim .submitted Row.status

def State.put (s : State) (id : ℕ) (row : Row) : State :=
  { s with rows := Function.update s.rows id (some row) }

/-- `update_conversation`: the row keeps its label. -/
def State.update (s : State) (id : ℕ) (status : ConversationStatus) (kept : Bool) : State :=
  match kept, s.rows id with
  | true, some row => s.put id { row with status := status }
  | _, _ => s

def State.begin (s : State) (id : ℕ) : State :=
  { s with starts := s.starts++[⟨id,s.statusOf id⟩] }

/-- The search of a request or of a double check; what it finds is started later. -/
def State.locate (s : State) (afterId : ℕ) (error : Bool) : State :=
  match error, findNextSubmitted s.rows s.latest afterId with
  | false, some id => s.begin id
  | _, _ => s

def State.startProcess (s : State) (id : ℕ) (error : Bool) : State :=
  if s.idle then s.locate (id-1) error else s

def State.submitted (s : State) (row : Row) : State :=
  { s.put (s.latest+1) row with latest := s.latest+1 }

def State.submit (s : State) (error : Bool) : State :=
  let next := s.submitted ⟨.submitted,some "formation"⟩
  if next.idle then
    if next.processed+1 < next.latest then next.locate next.processed error
    else next.begin next.latest
  else next

def State.enter (s : State) (k : ℕ) : State :=
  match s.starts[k]? with
  | none => s
  | some t =>
    let rest := { s with starts := s.starts.eraseIdx k }
    if s.idle then { rest with worker := some ⟨t.id,.processing t.status false⟩ } else rest

def State.settle (s : State) (id : ℕ) (status : ConversationStatus) : State :=
  if status.terminal then { s with worker := some ⟨id,.saving⟩ } else { s with worker := none }

def State.returned (s : State) (w : Worker) (giveUp kept : Bool) : State :=
  match w.phase with
  | .processing status retried =>
    if status = .failed then
      if retried then
        if giveUp then (s.update w.id .cancelled kept).settle w.id .cancelled
        else (s.update w.id .failed kept).settle w.id .failed
      else { s with worker := some ⟨w.id,.processing .failed true⟩ }
    else s.settle w.id status
  | _ => s

def State.save (s : State) (w : Worker) (result : Saved) : State :=
  let processed := max s.processed w.id
  let next := { s with worker := some ⟨w.id,.offering⟩ }
  match result with
  | .done => { next with processed := processed, stored := processed }
  | .unflushed => { next with processed := processed }
  | .failed => next

def State.search (s : State) (w : Worker) (error : Bool) : State :=
  if error then { s with worker := none }
  else match findNextSubmitted s.rows s.latest w.id with
    | some id => { s with worker := some ⟨id,.processing (s.statusOf id) false⟩ }
    | none => { s with worker := none, rechecks := s.rechecks++[w.id] }

def State.advance (s : State) : Event → State
  | .submit error => s.submit error
  | .other label status =>
    if label = "formation" then s else s.submitted ⟨status,some label⟩
  | .restart id error => s.startProcess id error
  | .resume error => s.startProcess (s.processed+1) error
  | .enter k => s.enter k
  | .snapshot status kept =>
    match s.worker with
    | some ⟨id,.processing current retried⟩ =>
      -- A terminal status ends the attempt.
      if current.terminal then s
      else { s.update id status kept with worker := some ⟨id,.processing status retried⟩ }
    | _ => s
  | .returned giveUp kept =>
    match s.worker with
    | some w => s.returned w giveUp kept
    | none => s
  | .save result =>
    match s.worker with
    | some ⟨id,.saving⟩ => s.save ⟨id,.saving⟩ result
    | _ => s
  | .offer taken =>
    match s.worker with
    | some ⟨id,.offering⟩ =>
      if taken then { s with worker := none, maintenance := true }
      else { s with worker := some ⟨id,.searching⟩ }
    | _ => s
  | .search error =>
    match s.worker with
    | some ⟨id,.searching⟩ => s.search ⟨id,.searching⟩ error
    | _ => s
  | .recheck k error =>
    match s.rechecks[k]? with
    | none => s
    | some id => { s with rechecks := s.rechecks.eraseIdx k }.locate id error
  | .maintain => if s.idle then { s with maintenance := true } else s
  | .rested => { s with maintenance := false }
  | .reopen =>
    { s with processed := s.stored, worker := none, maintenance := false, rechecks := [],
             starts := [] }

def run (events : List Event) : State := events.foldl State.advance State.start

structure Covered (s : State) : Prop where
  settled : ∀ id row, id ≤ s.stored → s.rows id = some row → row.formation = true →
    row.status = .completed ∨ row.status = .cancelled
  found : ∀ id row, s.rows id = some row → row.formation = true → row.status.terminal = false →
    ∃ c, findNextSubmitted s.rows s.latest s.stored = some c ∧ c ≤ id

section Search
variable {rows : Rows} {latest : ℕ}

theorem terminal_iff (status : ConversationStatus) :
    pendingStatuses.contains status = !status.terminal := by
  cases status <;> rfl

theorem pending_listed (id : ℕ) (h : pending rows id = true) :
    ((rows id).any fun row => pendingStatuses.contains row.status) = true := by
  unfold pending at h
  cases hr : rows id with
  | none =>
    rw [hr] at h
    cases h
  | some row =>
    rw [hr] at h
    have hboth : !row.status.terminal && row.formation := h
    rw [Bool.and_eq_true] at hboth
    simp only [Option.any_some, terminal_iff]
    exact hboth.1

def matching (rows : Rows) (latest cursor : ℕ) : List ℕ :=
  (List.range' 1 latest).filter fun id =>
    decide (cursor < id) && (rows id).any fun row => pendingStatuses.contains row.status

theorem matching_sorted (cursor : ℕ) :
    (matching rows latest cursor).Pairwise (fun a b => a < b) :=
  List.Pairwise.filter _ List.pairwise_lt_range'

theorem mem_matching (cursor id : ℕ) (hin : 1 ≤ id ∧ id ≤ latest) (hc : cursor < id)
    (hp : pending rows id = true) : id ∈ matching rows latest cursor := by
  refine List.mem_filter.mpr ⟨?_,?_⟩
  · rw [List.mem_range'_1]
    omega
  · rw [pending_listed id hp, decide_eq_true hc]
    rfl

theorem matching_bounds (cursor id : ℕ) (h : id ∈ matching rows latest cursor) :
    cursor < id ∧ 1 ≤ id ∧ id ≤ latest := by
  obtain ⟨hr,hb⟩ := List.mem_filter.mp h
  rw [List.mem_range'_1] at hr
  rw [Bool.and_eq_true] at hb
  have hc := of_decide_eq_true hb.1
  omega

def InRange (rows : Rows) (latest : ℕ) : Prop :=
  ∀ id row, rows id = some row → 1 ≤ id ∧ id ≤ latest

theorem pending_range (hr : InRange rows latest) (id : ℕ) (h : pending rows id = true) :
    1 ≤ id ∧ id ≤ latest := by
  unfold pending at h
  cases hrow : rows id with
  | none =>
    rw [hrow] at h
    cases h
  | some row => exact hr id row hrow

structure First (rows : Rows) (latest cursor id : ℕ) : Prop where
  after : cursor < id
  bound : id ≤ latest
  pending : pending rows id = true
  least : ∀ i, cursor < i → i < id → FormationQueue.pending rows i = false

theorem pending_on_page (hr : InRange rows latest) (cursor last i : ℕ)
    (hl : (queryIds rows latest cursor).getLast? = some last) (hc : cursor < i) (hi : i ≤ last)
    (hp : pending rows i = true) : i ∈ queryIds rows latest cursor :=
  Foundation.KeysetPages.mem_page (fun n : ℕ => n) _ 64 last i (matching_sorted cursor) hl
    (mem_matching cursor i (pending_range hr i hp) hc hp) hi

theorem page_bounds (cursor i : ℕ) (h : i ∈ queryIds rows latest cursor) :
    cursor < i ∧ 1 ≤ i ∧ i ≤ latest :=
  matching_bounds cursor i (List.mem_of_mem_take h)

theorem first_on_page (hr : InRange rows latest) (cursor last c : ℕ)
    (hl : (queryIds rows latest cursor).getLast? = some last)
    (hf : (queryIds rows latest cursor).find? (pending rows) = some c) :
    First rows latest cursor c := by
  obtain ⟨hp,before,after,hsplit,hnone⟩ := List.find?_eq_some_iff_append.mp hf
  have hsorted : (queryIds rows latest cursor).Pairwise (fun a b => a < b) :=
    (matching_sorted cursor).sublist (List.take_sublist 64 _)
  have hmem := List.mem_of_find?_eq_some hf
  have hbounds := page_bounds cursor c hmem
  have hlast : c ≤ last := by
    obtain ⟨init,hinit⟩ := List.getLast?_eq_some_iff.mp hl
    rw [hinit] at hmem hsorted
    rcases List.mem_append.mp hmem with hc | hc
    · exact ((List.pairwise_append.mp hsorted).2.2 c hc last (by simp)).le
    · exact (List.mem_singleton.mp hc).le
  refine ⟨hbounds.1,hbounds.2.2,hp,?_⟩
  intro i hc hi
  by_contra hpi
  rw [Bool.not_eq_false] at hpi
  have hon := pending_on_page hr cursor last i hl hc (hi.le.trans hlast) hpi
  rw [hsplit] at hon hsorted
  rcases List.mem_append.mp hon with hb | hb
  · have := hnone i hb
    rw [hpi] at this
    cases this
  rcases List.mem_cons.mp hb with hb | hb
  · omega
  · have := (List.pairwise_cons.mp (List.pairwise_append.mp hsorted).2.1).1 i hb
    omega

theorem find_pages_some (hr : InRange rows latest) (fuel cursor c : ℕ)
    (h : findPages rows latest fuel cursor = some c) : First rows latest cursor c := by
  induction fuel generalizing cursor with
  | zero => cases h
  | succ fuel ih =>
    rw [findPages] at h
    cases hl : (queryIds rows latest cursor).getLast? with
    | none =>
      rw [hl] at h
      cases h
    | some last =>
      have hbounds := page_bounds cursor last (List.mem_of_getLast? hl)
      rw [hl] at h
      cases hf : (queryIds rows latest cursor).find? (pending rows) with
      | some d =>
        rw [hf] at h
        cases h
        exact first_on_page hr cursor last c hl hf
      | none =>
        rw [hf] at h
        have hnext := ih last h
        refine ⟨hbounds.1.trans hnext.after,hnext.bound,hnext.pending,?_⟩
        intro i hc hi
        by_cases hle : i ≤ last
        · by_contra hp
          rw [Bool.not_eq_false] at hp
          exact List.find?_eq_none.mp hf i (pending_on_page hr cursor last i hl hc hle hp) hp
        · exact hnext.least i (by omega) hi

theorem find_pages_none (hr : InRange rows latest) (fuel cursor : ℕ)
    (hfuel : latest < cursor+fuel) (h : findPages rows latest fuel cursor = none) (i : ℕ)
    (hc : cursor < i) : pending rows i = false := by
  by_contra hp
  rw [Bool.not_eq_false] at hp
  have hrange := pending_range hr i hp
  induction fuel generalizing cursor with
  | zero => omega
  | succ fuel ih =>
    rw [findPages] at h
    cases hl : (queryIds rows latest cursor).getLast? with
    | none =>
      have hempty : queryIds rows latest cursor = [] := List.getLast?_eq_none_iff.mp hl
      have hnone : matching rows latest cursor = [] := by
        rcases List.take_eq_nil_iff.mp hempty with h64 | h
        · cases h64
        · exact h
      have := mem_matching cursor i hrange hc hp
      rw [hnone] at this
      cases this
    | some last =>
      have hbounds := page_bounds cursor last (List.mem_of_getLast? hl)
      rw [hl] at h
      cases hf : (queryIds rows latest cursor).find? (pending rows) with
      | some d =>
        rw [hf] at h
        cases h
      | none =>
        rw [hf] at h
        by_cases hle : i ≤ last
        · exact List.find?_eq_none.mp hf i (pending_on_page hr cursor last i hl hc hle hp) hp
        · exact ih last (by omega) h (by omega)

theorem find_next_some (hr : InRange rows latest) (cursor c : ℕ)
    (h : findNextSubmitted rows latest cursor = some c) : First rows latest cursor c :=
  find_pages_some hr (latest+1) cursor c h

theorem find_next_none (hr : InRange rows latest) (cursor i : ℕ)
    (h : findNextSubmitted rows latest cursor = none) (hc : cursor < i) : pending rows i = false :=
  find_pages_none hr (latest+1) cursor (by omega) h i hc

end Search

def Clear (rows : Rows) (id : ℕ) : Prop := ∀ i, i < id → pending rows i = false

structure WorkerOk (rows : Rows) (latest processed : ℕ) (w : Worker) : Prop where
  bound : w.id ≤ latest
  clear : Clear rows w.id
  phase : match w.phase with
    | .processing status _ => processed < w.id ∧ pending rows w.id = !status.terminal
    | _ => pending rows w.id = false

structure StartOk (rows : Rows) (latest : ℕ) (t : Start) : Prop where
  bound : t.id ≤ latest
  clear : Clear rows t.id
  status : t.status.terminal = false

structure Inv (s : State) : Prop where
  range : InRange s.rows s.latest
  stored : s.stored ≤ s.processed
  bound : s.processed ≤ s.latest
  settled : Clear s.rows (s.processed+1)
  worker : ∀ w, s.worker = some w → WorkerOk s.rows s.latest s.processed w
  starts : ∀ t ∈ s.starts, StartOk s.rows s.latest t
  rechecks : ∀ c ∈ s.rechecks, c ≤ s.latest ∧ Clear s.rows (c+1)

section Steps
variable {s : State}

theorem inv_start : Inv State.start := by
  constructor
  · intro id row h
    cases h
  · exact Nat.le_refl 0
  · exact Nat.le_refl 0
  · intro i _
    rfl
  · intro w h
    cases h
  · intro t h
    cases h
  · intro c h
    cases h

theorem inv_worker (h : Inv s) (w : Option Worker) (maintenance : Bool)
    (hw : ∀ x, w = some x → WorkerOk s.rows s.latest s.processed x) :
    Inv { s with worker := w, maintenance := maintenance } :=
  ⟨h.range,h.stored,h.bound,h.settled,hw,h.starts,h.rechecks⟩

theorem inv_released (h : Inv s) (maintenance : Bool) :
    Inv { s with worker := none, maintenance := maintenance } :=
  inv_worker h none maintenance (fun _ hx => nomatch hx)

theorem pending_status (id : ℕ) (h : pending s.rows id = true) :
    (s.statusOf id).terminal = false := by
  unfold pending at h
  unfold State.statusOf
  cases hr : s.rows id with
  | none => rfl
  | some row =>
    rw [hr] at h
    have hboth : (!row.status.terminal && row.formation) = true := h
    rw [Bool.and_eq_true, Bool.not_eq_true'] at hboth
    exact hboth.1

theorem pending_after (h : Inv s) (id : ℕ) (hp : pending s.rows id = true) : s.processed < id := by
  by_contra hle
  have := h.settled id (by omega)
  rw [hp] at this
  cases this

theorem begin_inv (h : Inv s) (id : ℕ) (hb : id ≤ s.latest) (hc : Clear s.rows id)
    (hp : pending s.rows id = true) : Inv (s.begin id) := by
  refine ⟨h.range,h.stored,h.bound,h.settled,h.worker,?_,h.rechecks⟩
  intro t ht
  rcases List.mem_append.mp ht with ht | ht
  · exact h.starts t ht
  · rw [List.mem_singleton.mp ht]
    exact ⟨hb,hc,pending_status id hp⟩

theorem locate_inv (h : Inv s) (afterId : ℕ) (error : Bool) (hc : Clear s.rows (afterId+1)) :
    Inv (s.locate afterId error) := by
  unfold State.locate
  split
  · rename_i id hf
    have hfirst := find_next_some h.range afterId id hf
    apply begin_inv h id hfirst.bound _ hfirst.pending
    intro i hi
    by_cases hle : i ≤ afterId
    · exact hc i (by omega)
    · exact hfirst.least i (by omega) hi
  · exact h

theorem start_process_inv (h : Inv s) (id : ℕ) (error : Bool) (hc : Clear s.rows id) :
    Inv (s.startProcess id error) := by
  unfold State.startProcess
  split
  · apply locate_inv h
    intro i hi
    by_cases hlt : i < id
    · exact hc i hlt
    have hzero : i = 0 := by omega
    by_contra hp
    rw [Bool.not_eq_false] at hp
    have := pending_range h.range i hp
    omega
  · exact h

theorem put_pending (id i : ℕ) (row : Row) (hi : i ≠ id) :
    pending (s.put id row).rows i = pending s.rows i := by
  simp [pending, State.put, hi]

theorem put_pending_self (id : ℕ) (row : Row) :
    pending (s.put id row).rows id = (!row.status.terminal && row.formation) := by
  simp [pending, State.put]

theorem submitted_inv (h : Inv s) (row : Row) : Inv (s.submitted row) := by
  have hold : ∀ id, id ≤ s.latest+1 → Clear s.rows id → Clear (s.submitted row).rows id := by
    intro id hid hc i hi
    rw [← hc i hi]
    exact put_pending (s.latest+1) i row (by omega)
  constructor
  · intro id r hr
    by_cases hid : id = s.latest+1
    · subst hid
      exact ⟨Nat.succ_pos _,Nat.le_refl _⟩
    have hr' : Function.update s.rows (s.latest+1) (some row) id = some r := hr
    rw [Function.update_of_ne hid] at hr'
    have := h.range id r hr'
    exact ⟨this.1,this.2.trans (Nat.le_succ _)⟩
  · exact h.stored
  · exact h.bound.trans (Nat.le_succ _)
  · exact hold _ (Nat.succ_le_succ h.bound) h.settled
  · intro w hw
    have ok := h.worker w hw
    have hsame : pending (s.submitted row).rows w.id = pending s.rows w.id :=
      put_pending (s.latest+1) w.id row (by have := ok.bound; omega)
    refine ⟨ok.bound.trans (Nat.le_succ _),hold _ (ok.bound.trans (Nat.le_succ _)) ok.clear,?_⟩
    rw [hsame]
    exact ok.phase
  · intro t ht
    have ok := h.starts t ht
    exact ⟨ok.bound.trans (Nat.le_succ _),hold _ (ok.bound.trans (Nat.le_succ _)) ok.clear,
      ok.status⟩
  · intro c hc
    have ok := h.rechecks c hc
    exact ⟨ok.1.trans (Nat.le_succ _),hold _ (Nat.succ_le_succ ok.1) ok.2⟩

theorem submit_inv (h : Inv s) (error : Bool) : Inv (s.submit error) := by
  have hnext := submitted_inv h ⟨.submitted,some "formation"⟩
  unfold State.submit
  extract_lets next
  split
  · split
    · exact locate_inv hnext _ error hnext.settled
    rename_i hnear
    apply begin_inv hnext _ (Nat.le_refl _)
    · intro i hi
      have hlt : i < next.latest := hi
      exact hnext.settled i (show i < next.processed+1 by omega)
    · exact put_pending_self (s.latest+1) _
  · exact hnext

theorem enter_inv (h : Inv s) (k : ℕ)
    (he : ∀ t, s.starts[k]? = some t → s.idle = true → pending s.rows t.id = true) :
    Inv (s.enter k) := by
  unfold State.enter
  cases ht : s.starts[k]? with
  | none => exact h
  | some t =>
    have ok := h.starts t (List.mem_of_getElem? ht)
    have hrest : Inv { s with starts := s.starts.eraseIdx k } :=
      ⟨h.range,h.stored,h.bound,h.settled,h.worker,
        fun x hx => h.starts x (List.mem_of_mem_eraseIdx hx),h.rechecks⟩
    show Inv (if s.idle then _ else _)
    split
    · rename_i hidle
      have hp := he t ht hidle
      apply inv_worker hrest
      intro x hx
      cases hx
      refine ⟨ok.bound,ok.clear,pending_after h t.id hp,?_⟩
      rw [ok.status]
      exact hp
    · exact hrest

theorem update_pending (id i : ℕ) (status : ConversationStatus) (kept : Bool)
    (hp : pending s.rows id = true) : pending (s.update id status kept).rows i =
      if i = id ∧ kept = true then !status.terminal else pending s.rows i := by
  cases kept with
  | false => simp [State.update]
  | true =>
    cases hr : s.rows id with
    | none =>
      simp [pending, hr] at hp
    | some row =>
      have hform : row.formation = true := by
        simp [pending, hr] at hp
        exact hp.2
      have hput : s.update id status true = s.put id { row with status := status } := by
        simp [State.update, hr]
      rw [hput]
      by_cases hi : i = id
      · have hsame : ({ row with status := status } : Row).formation = true := hform
        rw [hi, put_pending_self, hsame]
        simp
      · rw [put_pending id i _ hi]
        simp [hi]

theorem update_fields (id : ℕ) (status : ConversationStatus) (kept : Bool) :
    ∃ rows, s.update id status kept = { s with rows := rows } ∧
      ∀ i, (rows i).isSome → (s.rows i).isSome := by
  unfold State.update
  split
  · rename_i row hr
    refine ⟨_,rfl,?_⟩
    intro i hi
    by_cases hid : i = id
    · rw [hid, hr]
      rfl
    · rwa [Function.update_of_ne hid] at hi
  · exact ⟨s.rows,rfl,fun i hi => hi⟩

/-- A write of a worker to its pending conversation. The worker then stands where the
new status of its copy says. -/
theorem update_inv (h : Inv s) (w : Worker) (status : ConversationStatus) (kept : Bool)
    (hw : WorkerOk s.rows s.latest s.processed w) (hp : pending s.rows w.id = true)
    (hk : status.terminal = true → kept = true) :
    Inv { s.update w.id status kept with worker := none } ∧
      Clear (s.update w.id status kept).rows w.id ∧
      pending (s.update w.id status kept).rows w.id = !status.terminal := by
  have hold := fun i => update_pending w.id i status kept hp
  obtain ⟨rows,heq,hsome⟩ := update_fields (s := s) w.id status kept
  rw [heq] at hold ⊢
  -- What was settled before the write is settled after it.
  have hkeep : ∀ id, Clear s.rows id → Clear rows id := by
    intro id hc i hi
    rw [hold i]
    split
    · rename_i hid
      have := hc i hi
      rw [hid.1, hp] at this
      cases this
    · exact hc i hi
  refine ⟨⟨?_,h.stored,h.bound,hkeep _ h.settled,fun _ hx => (nomatch hx),?_,?_⟩,
    hkeep _ hw.clear,?_⟩
  · intro id row hr
    have hnew : rows id = some row := hr
    have hsr := hsome id (by rw [hnew]; rfl)
    obtain ⟨old,hold'⟩ := Option.isSome_iff_exists.mp hsr
    exact h.range id old hold'
  · intro t ht
    have ok := h.starts t ht
    exact ⟨ok.bound,hkeep _ ok.clear,ok.status⟩
  · intro c hc
    exact ⟨(h.rechecks c hc).1,hkeep _ (h.rechecks c hc).2⟩
  rw [hold w.id, hp]
  cases kept with
  | true => simp
  | false =>
    cases hterm : status.terminal with
    | false => simp
    | true => cases hk hterm

theorem settle_inv (id : ℕ) (status : ConversationStatus)
    (h : Inv { s with worker := none }) (hb : id ≤ s.latest) (hc : Clear s.rows id)
    (hp : pending s.rows id = !status.terminal) : Inv (s.settle id status) := by
  unfold State.settle
  split
  · rename_i hterm
    refine ⟨h.range,h.stored,h.bound,h.settled,?_,h.starts,h.rechecks⟩
    intro x hx
    cases hx
    exact ⟨hb,hc,by rw [hp, hterm]; rfl⟩
  · exact h

theorem returned_inv (h : Inv s) (w : Worker) (giveUp kept : Bool) (hw : s.worker = some w)
    (hk : giveUp = true → kept = true) : Inv (s.returned w giveUp kept) := by
  have ok := h.worker w hw
  unfold State.returned
  cases hphase : w.phase with
  | processing status retried =>
    have hp := ok.phase
    rw [hphase] at hp
    obtain ⟨hafter,hpend⟩ := hp
    show Inv (if status = .failed then _ else _)
    split
    · rename_i hfailed
      subst hfailed
      split
      · split
        · rename_i hgive
          have hup := update_inv h w .cancelled kept ok hpend (fun _ => hk hgive)
          obtain ⟨rows,heq,-⟩ := update_fields (s := s) w.id .cancelled kept
          rw [heq] at hup ⊢
          exact settle_inv w.id .cancelled hup.1 ok.bound hup.2.1 hup.2.2
        · have hup := update_inv h w .failed kept ok hpend (fun hx => nomatch hx)
          obtain ⟨rows,heq,-⟩ := update_fields (s := s) w.id .failed kept
          rw [heq] at hup ⊢
          exact settle_inv w.id .failed hup.1 ok.bound hup.2.1 hup.2.2
      · apply inv_worker h _ s.maintenance
        intro x hx
        cases hx
        exact ⟨ok.bound,ok.clear,hafter,hpend⟩
    · exact settle_inv w.id status (inv_released h s.maintenance) ok.bound ok.clear hpend
  | saving => exact h
  | offering => exact h
  | searching => exact h

theorem save_inv (h : Inv s) (id : ℕ) (result : Saved) (hw : s.worker = some ⟨id,.saving⟩) :
    Inv (s.save ⟨id,.saving⟩ result) := by
  have ok := h.worker _ hw
  have hself : pending s.rows id = false := ok.phase
  have hmax : Clear s.rows (max s.processed id+1) := by
    intro i hi
    by_cases hle : i ≤ s.processed
    · exact h.settled i (by omega)
    by_cases heq : i = id
    · rw [heq]
      exact hself
    · exact ok.clear i (by show i < id; omega)
  have hworker : ∀ processed, ∀ w, some (⟨id,.offering⟩ : Worker) = some w →
      WorkerOk s.rows s.latest processed w := by
    intro processed w hw
    cases hw
    exact ⟨ok.bound,ok.clear,hself⟩
  have hbound : max s.processed id ≤ s.latest := max_le h.bound ok.bound
  cases result with
  | done =>
    exact ⟨h.range,Nat.le_refl _,hbound,hmax,hworker _,h.starts,h.rechecks⟩
  | unflushed =>
    exact ⟨h.range,h.stored.trans (le_max_left _ _),hbound,hmax,hworker _,h.starts,h.rechecks⟩
  | failed => exact ⟨h.range,h.stored,h.bound,h.settled,hworker _,h.starts,h.rechecks⟩

theorem clear_succ (id : ℕ) (rows : Rows) (hc : Clear rows id) (hp : pending rows id = false) :
    Clear rows (id+1) := by
  intro i hi
  by_cases heq : i = id
  · rw [heq]
    exact hp
  · exact hc i (by omega)

theorem search_inv (h : Inv s) (id : ℕ) (error : Bool) (hw : s.worker = some ⟨id,.searching⟩) :
    Inv (s.search ⟨id,.searching⟩ error) := by
  have ok := h.worker _ hw
  have hall : Clear s.rows (id+1) := clear_succ id s.rows ok.clear ok.phase
  unfold State.search
  split
  · exact inv_released h s.maintenance
  cases hf : findNextSubmitted s.rows s.latest id with
  | some next =>
    have hfirst := find_next_some h.range id next hf
    apply inv_worker h _ s.maintenance
    intro x hx
    cases hx
    refine ⟨hfirst.bound,?_,pending_after h next hfirst.pending,?_⟩
    · intro i hi
      by_cases hle : i ≤ id
      · exact hall i (by omega)
      · exact hfirst.least i (by omega) hi
    · rw [pending_status next hfirst.pending]
      exact hfirst.pending
  | none =>
    refine ⟨h.range,h.stored,h.bound,h.settled,fun _ hx => (nomatch hx),h.starts,?_⟩
    intro c hc
    rcases List.mem_append.mp hc with hc | hc
    · exact h.rechecks c hc
    · rw [List.mem_singleton.mp hc]
      exact ⟨ok.bound,hall⟩

theorem offer_inv (h : Inv s) (id : ℕ) (hw : s.worker = some ⟨id,.offering⟩) :
    Inv { s with worker := some ⟨id,.searching⟩ } := by
  have ok := h.worker _ hw
  apply inv_worker h _ s.maintenance
  intro x hx
  cases hx
  exact ⟨ok.bound,ok.clear,ok.phase⟩

theorem snapshot_inv (h : Inv s) (id : ℕ) (current status : ConversationStatus)
    (retried kept : Bool) (hw : s.worker = some ⟨id,.processing current retried⟩)
    (hcur : current.terminal = false) (hk : status.terminal = true → kept = true) :
    Inv { s.update id status kept with worker := some ⟨id,.processing status retried⟩ } := by
  have ok := h.worker _ hw
  have hp : pending s.rows id = true := by
    rw [ok.phase.2, hcur]
    rfl
  obtain ⟨hinv,hclear,hself⟩ := update_inv h _ status kept ok hp hk
  obtain ⟨rows,heq,-⟩ := update_fields (s := s) id status kept
  rw [heq] at hinv hclear hself ⊢
  refine ⟨hinv.range,hinv.stored,hinv.bound,hinv.settled,?_,hinv.starts,hinv.rechecks⟩
  intro x hx
  cases hx
  exact ⟨ok.bound,hclear,ok.phase.1,hself⟩

theorem recheck_inv (h : Inv s) (k id : ℕ) (error : Bool) (hk : s.rechecks[k]? = some id) :
    Inv ({ s with rechecks := s.rechecks.eraseIdx k }.locate id error) := by
  have hrest : Inv { s with rechecks := s.rechecks.eraseIdx k } :=
    ⟨h.range,h.stored,h.bound,h.settled,h.worker,h.starts,
      fun c hc => h.rechecks c (List.mem_of_mem_eraseIdx hc)⟩
  exact locate_inv hrest id error (h.rechecks id (List.mem_of_getElem? hk)).2

theorem reopen_inv (h : Inv s) : Inv { s with
    processed := s.stored, worker := none, maintenance := false, rechecks := [], starts := [] } := by
  refine ⟨h.range,Nat.le_refl _,h.stored.trans h.bound,?_,?_,?_,?_⟩
  · intro i hi
    have hlt : i < s.stored+1 := hi
    exact h.settled i (by have := h.stored; omega)
  · intro w hw
    cases hw
  · intro t ht
    cases ht
  · intro c hc
    cases hc

/-- What the queue relies on. A restart has nothing pending before it; a conversation
that was found is still pending when it is admitted; the store takes every terminal
status. -/
def Event.Orderly (s : State) : Event → Prop
  | .restart id _ => ∀ i, i < id → pending s.rows i = false
  | .enter k => ∀ t, s.starts[k]? = some t → s.idle = true → pending s.rows t.id = true
  | .snapshot status kept => status.terminal = true → kept = true
  | .returned giveUp kept => giveUp = true → kept = true
  | _ => True

theorem advance_inv (h : Inv s) (e : Event) (he : e.Orderly s) : Inv (s.advance e) := by
  rw [State.advance.eq_def]
  cases e with
  | submit error => exact submit_inv h error
  | other label status =>
    show Inv (if label = "formation" then _ else _)
    split
    · exact h
    · exact submitted_inv h _
  | restart id error => exact start_process_inv h id error he
  | resume error => exact start_process_inv h (s.processed+1) error h.settled
  | enter k => exact enter_inv h k he
  | snapshot status kept =>
    dsimp only
    split
    · rename_i id current retried hw
      split
      · exact h
      · rename_i hcur
        rw [Bool.not_eq_true] at hcur
        exact snapshot_inv h id current status retried kept hw hcur he
    · exact h
  | returned giveUp kept =>
    dsimp only
    split
    · rename_i w hw
      exact returned_inv h w giveUp kept hw he
    · exact h
  | save result =>
    dsimp only
    split
    · rename_i id hw
      exact save_inv h id result hw
    · exact h
  | offer taken =>
    dsimp only
    split
    · rename_i id hw
      split
      · exact inv_released h true
      · exact offer_inv h id hw
    · exact h
  | search error =>
    dsimp only
    split
    · rename_i id hw
      exact search_inv h id error hw
    · exact h
  | recheck k error =>
    dsimp only
    split
    · exact h
    · rename_i id hk
      exact recheck_inv h k id error hk
  | maintain =>
    dsimp only
    split
    · exact inv_worker h s.worker true h.worker
    · exact h
  | rested => exact inv_worker h s.worker false h.worker
  | reopen => exact reopen_inv h

theorem inv_covered (h : Inv s) : Covered s := by
  have hstored : ∀ i, i ≤ s.stored → pending s.rows i = false := by
    intro i hi
    exact h.settled i (by have := h.stored; omega)
  constructor
  · intro id row hid hr hform
    have := hstored id hid
    rw [pending, hr] at this
    have hterm : (!row.status.terminal && row.formation) = false := this
    rw [hform] at hterm
    cases hst : row.status <;> simp [hst, ConversationStatus.terminal] at hterm ⊢
  intro id row hr hform hterm
  have hp : pending s.rows id = true := by
    rw [pending, hr]
    simp [hform, hterm]
  have hafter : s.stored < id := by
    by_contra hle
    have := hstored id (by omega)
    rw [hp] at this
    cases this
  cases hf : findNextSubmitted s.rows s.latest s.stored with
  | none =>
    have := find_next_none h.range s.stored id hf hafter
    rw [hp] at this
    cases this
  | some c =>
    refine ⟨c,rfl,?_⟩
    by_contra hlt
    have := (find_next_some h.range s.stored c hf).least id hafter (by omega)
    rw [hp] at this
    cases this

end Steps

/-- Every event of the run meets its condition in the state it happens in. -/
def Orderly (s : State) : List Event → Prop
  | [] => True
  | e::events => e.Orderly s ∧ Orderly (s.advance e) events

theorem run_inv (events : List Event) (s : State) (h : Inv s) (ho : Orderly s events) :
    Inv (events.foldl State.advance s) := by
  induction events generalizing s with
  | nil => exact h
  | cons e events ih => exact ih (s.advance e) (advance_inv h e ho.1) ho.2

/-- In an orderly run the marker never passes a conversation that is still pending. -/
theorem marker_covers (events : List Event) (h : Orderly State.start events) :
    Covered (run events) :=
  inv_covered (run_inv events State.start inv_start h)

def failedRound : List Event :=
  [.snapshot .failed true,.returned false true,.snapshot .failed true,.returned false true]

def completed : List Event := [.snapshot .completed true,.returned false true,.save .done]

theorem marker_covers_resume :
    Covered (run ([.submit false,.enter 0,.submit false]++failedRound++[.resume false,.enter 0]
      ++completed)) := by
  apply marker_covers
  refine ⟨trivial,?_,trivial,fun _ => rfl,fun _ => rfl,fun _ => rfl,fun _ => rfl,trivial,?_,
    fun _ => rfl,fun _ => rfl,trivial,trivial⟩
  · intro t ht _
    cases ht
    rfl
  · intro t ht _
    cases ht
    rfl

/-- The first conversation fails while a second waits, and the second is restarted. -/
def overtaken : List Event :=
  [.submit false,.enter 0,.submit false]++failedRound++[.restart 2 false,.enter 0]++completed

theorem marker_passes_failed : ¬∀ events, Covered (run events) := by
  intro h
  have hrow : (run overtaken).rows 1 = some ⟨.failed,some "formation"⟩ := by rfl
  have hstored : (run overtaken).stored = 2 := by rfl
  have := (h overtaken).settled 1 _ (by rw [hstored]; decide) hrow rfl
  simp at this

end AndaBrain.FormationQueue
