import Mathlib.Data.List.Basic

/-!
# The two writer slots

`agents/formation.rs`, `agents/maintenance.rs` and `space/hooks.rs`: Formation and Maintenance
write the graph one at a time.
-/

set_option autoImplicit false

namespace AndaBrain.FormationSlots

abbrev DocumentId := {id : ℕ // id ≠ 0}

/-- Where a thread stands. A thread starts as a request; the request becomes the
worker that it spawns, and a Formation worker becomes the Maintenance worker that it
hands its slot to. -/
inductive Pc where
  | absent
  -- a submission or a restart: the loads, the search, the admission
  | arriving
  | checking
  | locating
  | admitting (c : DocumentId)
  | admitted (c : DocumentId)
  -- a Formation worker with its slot
  | spawned (c : DocumentId)
  | working (c : DocumentId)
  | ending (c : DocumentId)
  | failing (c : DocumentId)
  | saving (c : DocumentId)
  | searching (c : DocumentId)
  | advancing (c next : DocumentId)
  | releasing (c : DocumentId)
  -- the same worker after it released its slot
  | rechecking
  | readmitting (next : DocumentId)
  -- a claim on Maintenance, by a request or by a Formation worker
  | offering (c : DocumentId)
  | claiming (owner handoff : Option DocumentId)
  | settling (owner handoff : Option DocumentId)
  | handing (owner handoff : Option DocumentId)
  | yielding (owner : Option DocumentId)
  -- a Maintenance worker
  | dispatching
  | maintaining
  | curating
  | concluding
  | leaving
  -- guards that are being dropped
  | dropping (c : DocumentId) (claim : Bool)
  | resting
  | stray

structure State where
  formation : ℕ
  maintenance : Bool
  closing : Bool
  pc : ℕ → Pc

def State.start : State := ⟨0,false,false,fun _ => .absent⟩

structure Choice where
  next : Option DocumentId
  error : Bool
  retry : Bool
  terminal : Bool
  offer : Bool
  started : Bool

def State.goto (s : State) (a : ℕ) (p : Pc) : State := { s with pc := Function.update s.pc a p }

def resumed : Option DocumentId → Pc
  | none => .absent
  | some c => .searching c

def slotValue (c : Option DocumentId) : ℕ := c.elim 0 Subtype.val

def State.step (s : State) (a : ℕ) (i : Choice) : State :=
  match s.pc a with
  | .absent => s
  | .arriving => if s.formation ≠ 0 then s.goto a .absent else s.goto a .checking
  | .checking => if s.maintenance then s.goto a .absent else s.goto a .locating
  | .locating =>
    match i.next with
    | none => s.goto a .absent
    | some c => s.goto a (.admitting c)
  | .admitting c =>
    if s.maintenance ∨ s.formation ≠ 0 then s.goto a .absent
    else { s.goto a (.admitted c) with formation := c }
  | .admitted c => if s.closing then s.goto a (.dropping c false) else s.goto a (.spawned c)
  | .spawned c => s.goto a (.working c)
  | .working c => s.goto a (.ending c)
  | .ending c =>
    if i.retry then s.goto a (.working c)
    else if i.terminal then s.goto a (.saving c)
    else s.goto a (.failing c)
  | .failing _ => { s.goto a .absent with formation := 0 }
  | .saving c => if i.offer then s.goto a (.offering c) else s.goto a (.searching c)
  | .searching c =>
    if i.error then s.goto a (.failing c)
    else match i.next with
      | none => s.goto a (.releasing c)
      | some next => s.goto a (.advancing c next)
  | .advancing c next =>
    if s.formation = c then { s.goto a (.working next) with formation := next }
    else s.goto a .absent
  | .releasing _ => { s.goto a .rechecking with formation := 0 }
  | .rechecking =>
    match i.error, i.next with
    | false, some next => s.goto a (.readmitting next)
    | _, _ => s.goto a .absent
  | .readmitting next =>
    if s.maintenance ∨ s.formation ≠ 0 then s.goto a .absent
    else { s.goto a (.working next) with formation := next }
  | .offering c => s.goto a (.claiming (some c) (if s.formation ≠ 0 then some c else none))
  | .claiming owner handoff =>
    if s.formation = slotValue handoff ∧ s.maintenance = false then
      { s.goto a (.settling owner handoff) with maintenance := true }
    else s.goto a (resumed owner)
  | .settling owner handoff =>
    if i.started then s.goto a (.handing owner handoff) else s.goto a (.yielding owner)
  | .handing owner handoff =>
    match handoff with
    | none => s.goto a .dispatching
    | some c =>
      if s.formation = c then { s.goto a .dispatching with formation := 0 }
      else s.goto a (.yielding owner)
  | .yielding owner => { s.goto a (resumed owner) with maintenance := false }
  | .dispatching => if s.closing then s.goto a .resting else s.goto a .maintaining
  | .maintaining => s.goto a .curating
  | .curating => s.goto a .concluding
  | .concluding => s.goto a .leaving
  | .leaving => { s.goto a .arriving with maintenance := false }
  | .dropping c claim =>
    if claim then { s.goto a (.dropping c false) with maintenance := false }
    else { s.goto a .absent with formation := 0 }
  | .resting => { s.goto a .absent with maintenance := false }
  | .stray => { s.goto a .absent with formation := 0 }

/-- A thread is dropped at an await, with the guards that it still holds. The guard
of a Formation worker stays armed until its loop has returned. -/
def State.drop (s : State) (a : ℕ) : State :=
  match s.pc a with
  | .locating => s.goto a .absent
  | .settling none _ => s.goto a .resting
  | .spawned c => if s.closing then s.goto a (.dropping c false) else s
  | .working c => if s.closing then s.goto a (.dropping c false) else s
  | .ending c => if s.closing then s.goto a (.dropping c false) else s
  | .saving c => if s.closing then s.goto a (.dropping c false) else s
  | .searching c => if s.closing then s.goto a (.dropping c false) else s
  | .settling (some c) _ => if s.closing then s.goto a (.dropping c true) else s
  | .rechecking => if s.closing then s.goto a .stray else s
  | .maintaining => if s.closing then s.goto a .resting else s
  | .curating => if s.closing then s.goto a .resting else s
  | .concluding => if s.closing then s.goto a .resting else s
  | _ => s

inductive Event where
  | submit (a : ℕ)
  | maintain (a : ℕ)
  | step (a : ℕ) (i : Choice)
  | drop (a : ℕ)
  | close

def State.advance (s : State) : Event → State
  | .submit a =>
    match s.pc a with
    | .absent => s.goto a .arriving
    | _ => s
  | .maintain a =>
    match s.pc a with
    | .absent => s.goto a (.claiming none none)
    | _ => s
  | .step a i => s.step a i
  | .drop a => s.drop a
  | .close => { s with closing := true }

def run (events : List Event) : State := events.foldl State.advance State.start

def Pc.active : Pc → Bool
  | .absent => false
  | .arriving => false
  | .checking => false
  | .locating => false
  | .admitting _ => false
  | .claiming none _ => false
  | _ => true

structure Exclusive (s : State) : Prop where
  formation : ∀ a b c d, s.pc a = .working c → s.pc b = .working d → a = b
  maintenance : ∀ a b c, s.pc a = .working c → s.pc b ≠ .curating
  free : (∀ a, (s.pc a).active = false) → s.formation = 0 ∧ s.maintenance = false

/-- The conversation in whose name a thread holds the Formation slot. -/
def Pc.owner : Pc → Option DocumentId
  | .admitted c => some c
  | .spawned c => some c
  | .working c => some c
  | .ending c => some c
  | .failing c => some c
  | .saving c => some c
  | .searching c => some c
  | .advancing c _ => some c
  | .releasing c => some c
  | .offering c => some c
  | .claiming owner _ => owner
  | .settling owner _ => owner
  | .handing owner _ => owner
  | .yielding owner => owner
  | .dropping c _ => some c
  | _ => none

def Pc.holder : Pc → Bool
  | .settling _ _ => true
  | .handing _ _ => true
  | .yielding _ => true
  | .dispatching => true
  | .maintaining => true
  | .curating => true
  | .concluding => true
  | .leaving => true
  | .dropping _ claim => claim
  | .resting => true
  | _ => false

def Pc.local : Pc → Prop
  | .claiming none handoff => handoff = none
  | .settling owner handoff => owner = handoff
  | .handing owner handoff => owner = handoff
  | _ => True

structure Inv (s : State) : Prop where
  slot : ∀ a c, (s.pc a).owner = some c → s.formation = c
  sole : ∀ a b, (s.pc a).owner.isSome → (s.pc b).owner.isSome → a = b
  taken : s.formation ≠ 0 → ∃ a, (s.pc a).owner.isSome
  flag : ∀ a, (s.pc a).holder = true → s.maintenance = true
  one : ∀ a b, (s.pc a).holder = true → (s.pc b).holder = true → a = b
  held : s.maintenance = true → ∃ a, (s.pc a).holder = true
  apart : ∀ a b, (s.pc a).holder = true → (s.pc b).owner.isSome → a = b
  known : ∀ a, (s.pc a).local

section Moves
variable {s : State} {a : ℕ} {p : Pc}

theorem goto_self (s : State) (a : ℕ) (p : Pc) : (s.goto a p).pc a = p := by
  simp [State.goto]

theorem goto_other (s : State) (a b : ℕ) (p : Pc) (h : b ≠ a) : (s.goto a p).pc b = s.pc b := by
  simp [State.goto, h]

theorem known_goto (h : Inv s) (hp : p.local) (b : ℕ) : ((s.goto a p).pc b).local := by
  by_cases hb : b = a
  · rw [hb, goto_self]
    exact hp
  · rw [goto_other s a b p hb]
    exact h.known b

theorem owner_goto (ho : p.owner = (s.pc a).owner) (b : ℕ) :
    ((s.goto a p).pc b).owner = (s.pc b).owner := by
  by_cases hb : b = a
  · rw [hb, goto_self, ho]
  · rw [goto_other s a b p hb]

theorem holder_goto (hh : p.holder = (s.pc a).holder) (b : ℕ) :
    ((s.goto a p).pc b).holder = (s.pc b).holder := by
  by_cases hb : b = a
  · rw [hb, goto_self, hh]
  · rw [goto_other s a b p hb]

theorem inv_frame (h : Inv s) (ho : p.owner = (s.pc a).owner) (hh : p.holder = (s.pc a).holder)
    (hp : p.local) : Inv (s.goto a p) := by
  constructor
  · intro b c hb
    rw [owner_goto ho] at hb
    exact h.slot b c hb
  · intro b c
    rw [owner_goto ho, owner_goto ho]
    exact h.sole b c
  · intro hf
    obtain ⟨b,hb⟩ := h.taken hf
    exact ⟨b,by rw [owner_goto ho]; exact hb⟩
  · intro b
    rw [holder_goto hh]
    exact h.flag b
  · intro b c
    rw [holder_goto hh, holder_goto hh]
    exact h.one b c
  · intro hm
    obtain ⟨b,hb⟩ := h.held hm
    exact ⟨b,by rw [holder_goto hh]; exact hb⟩
  · intro b c
    rw [holder_goto hh, owner_goto ho]
    exact h.apart b c
  · exact known_goto h hp

theorem unowned (h : Inv s) (hf : s.formation = 0) (b : ℕ) : (s.pc b).owner = none := by
  cases hb : (s.pc b).owner with
  | none => rfl
  | some c => exact absurd ((h.slot b c hb).symm.trans hf) c.property

theorem unheld (h : Inv s) (hm : s.maintenance = false) (b : ℕ) : (s.pc b).holder = false := by
  cases hb : (s.pc b).holder with
  | false => rfl
  | true => exact absurd (h.flag b hb) (by simp [hm])

theorem inv_take (h : Inv s) (c : DocumentId) (hf : s.formation = 0) (hm : s.maintenance = false)
    (ho : p.owner = some c) (hh : p.holder = false) (hp : p.local) :
    Inv { s.goto a p with formation := c } := by
  have hown : ∀ b, ((s.goto a p).pc b).owner.isSome → b = a := by
    intro b hb
    by_contra hne
    rw [goto_other s a b p hne, unowned h hf b] at hb
    cases hb
  have hhold : ∀ b, ((s.goto a p).pc b).holder = false := by
    intro b
    rw [holder_goto (hh.trans (unheld h hm a).symm)]
    exact unheld h hm b
  constructor
  · intro b d hb
    have hba := hown b (by rw [hb]; rfl)
    rw [hba, goto_self, ho] at hb
    cases hb
    rfl
  · intro b d hb hd
    exact (hown b hb).trans (hown d hd).symm
  · intro _
    exact ⟨a,by rw [goto_self, ho]; rfl⟩
  · intro b hb
    cases (hhold b).symm.trans hb
  · intro b d hb
    cases (hhold b).symm.trans hb
  · intro ht
    cases hm.symm.trans ht
  · intro b d hb
    cases (hhold b).symm.trans hb
  · exact known_goto h hp

theorem inv_move (h : Inv s) (c next : DocumentId) (hc : (s.pc a).owner = some c)
    (ho : p.owner = some next) (hh : p.holder = (s.pc a).holder) (hp : p.local) :
    Inv { s.goto a p with formation := next } := by
  have hown : ∀ b, ((s.goto a p).pc b).owner.isSome → b = a := by
    intro b hb
    by_contra hne
    rw [goto_other s a b p hne] at hb
    exact hne (h.sole b a hb (by rw [hc]; rfl))
  constructor
  · intro b d hb
    have hba := hown b (by rw [hb]; rfl)
    rw [hba, goto_self, ho] at hb
    cases hb
    rfl
  · intro b d hb hd
    exact (hown b hb).trans (hown d hd).symm
  · intro _
    exact ⟨a,by rw [goto_self, ho]; rfl⟩
  · intro b
    rw [holder_goto hh]
    exact h.flag b
  · intro b d
    rw [holder_goto hh, holder_goto hh]
    exact h.one b d
  · intro hm
    obtain ⟨b,hb⟩ := h.held hm
    exact ⟨b,by rw [holder_goto hh]; exact hb⟩
  · intro b d hb hd
    rw [holder_goto hh] at hb
    rw [hown d hd]
    exact h.apart b a hb (by rw [hc]; rfl)
  · exact known_goto h hp

theorem inv_release (h : Inv s) (c : DocumentId) (hc : (s.pc a).owner = some c)
    (ho : p.owner = none) (hh : p.holder = (s.pc a).holder) (hp : p.local) :
    Inv { s.goto a p with formation := 0 } := by
  have hnone : ∀ b, ((s.goto a p).pc b).owner = none := by
    intro b
    by_cases hb : b = a
    · rw [hb, goto_self, ho]
    · rw [goto_other s a b p hb]
      by_contra hne
      exact hb (h.sole b a (Option.isSome_iff_ne_none.mpr hne) (by rw [hc]; rfl))
  constructor
  · intro b d hb
    rw [hnone b] at hb
    cases hb
  · intro b d hb
    rw [hnone b] at hb
    cases hb
  · intro hf
    exact absurd rfl hf
  · intro b
    rw [holder_goto hh]
    exact h.flag b
  · intro b d
    rw [holder_goto hh, holder_goto hh]
    exact h.one b d
  · intro hm
    obtain ⟨b,hb⟩ := h.held hm
    exact ⟨b,by rw [holder_goto hh]; exact hb⟩
  · intro b d _ hd
    rw [hnone d] at hd
    cases hd
  · exact known_goto h hp

theorem inv_claim (h : Inv s) (hm : s.maintenance = false)
    (halone : ∀ b, (s.pc b).owner.isSome → b = a) (ho : p.owner = (s.pc a).owner)
    (hh : p.holder = true) (hp : p.local) : Inv { s.goto a p with maintenance := true } := by
  have hhold : ∀ b, ((s.goto a p).pc b).holder = true → b = a := by
    intro b hb
    by_contra hne
    rw [goto_other s a b p hne, unheld h hm b] at hb
    cases hb
  constructor
  · intro b c hb
    rw [owner_goto ho] at hb
    exact h.slot b c hb
  · intro b c
    rw [owner_goto ho, owner_goto ho]
    exact h.sole b c
  · intro hf
    obtain ⟨b,hb⟩ := h.taken hf
    exact ⟨b,by rw [owner_goto ho]; exact hb⟩
  · intro _ _
    rfl
  · intro b c hb hc
    exact (hhold b hb).trans (hhold c hc).symm
  · intro _
    exact ⟨a,by rw [goto_self, hh]⟩
  · intro b c hb hc
    rw [owner_goto ho] at hc
    exact (hhold b hb).trans (halone c hc).symm
  · exact known_goto h hp

theorem inv_unclaim (h : Inv s) (hc : (s.pc a).holder = true) (ho : p.owner = (s.pc a).owner)
    (hh : p.holder = false) (hp : p.local) : Inv { s.goto a p with maintenance := false } := by
  have hnone : ∀ b, ((s.goto a p).pc b).holder = false := by
    intro b
    by_cases hb : b = a
    · rw [hb, goto_self, hh]
    rw [goto_other s a b p hb]
    cases hbh : (s.pc b).holder with
    | false => rfl
    | true => exact absurd (h.one b a hbh hc) hb
  constructor
  · intro b c hb
    rw [owner_goto ho] at hb
    exact h.slot b c hb
  · intro b c
    rw [owner_goto ho, owner_goto ho]
    exact h.sole b c
  · intro hf
    obtain ⟨b,hb⟩ := h.taken hf
    exact ⟨b,by rw [owner_goto ho]; exact hb⟩
  · intro b hb
    cases (hnone b).symm.trans hb
  · intro b c hb
    cases (hnone b).symm.trans hb
  · intro hm
    cases hm
  · intro b c hb
    cases (hnone b).symm.trans hb
  · exact known_goto h hp

end Moves

section Steps
variable {s : State} {a : ℕ}

theorem claim_inv (h : Inv s) (owner handoff : Option DocumentId)
    (hpc : s.pc a = .claiming owner handoff) (hf : s.formation = slotValue handoff)
    (hm : s.maintenance = false) :
    Inv { s.goto a (.settling owner handoff) with maintenance := true } := by
  have howner : (s.pc a).owner = owner := by rw [hpc]; rfl
  have hsame : owner = handoff := by
    cases owner with
    | none =>
      have hk := h.known a
      rw [hpc] at hk
      exact hk.symm
    | some c =>
      have hs := h.slot a c howner
      cases handoff with
      | none => exact absurd (hs.symm.trans hf) c.property
      | some d => exact congrArg some (Subtype.ext (hs.symm.trans hf))
  have howns : (Pc.settling owner handoff).owner = (s.pc a).owner := howner.symm
  refine inv_claim h hm ?_ howns rfl hsame
  intro b hb
  cases owner with
  | some c => exact h.sole b a hb (by rw [howner]; rfl)
  | none =>
    rw [← hsame] at hf
    rw [unowned h hf b] at hb
    cases hb

theorem handing_inv (h : Inv s) (owner : Option DocumentId) (c : DocumentId)
    (hpc : s.pc a = .handing owner (some c)) :
    Inv { s.goto a .dispatching with formation := 0 } := by
  have hsame := h.known a
  rw [hpc] at hsame
  have howner : (s.pc a).owner = some c := by rw [hpc]; exact hsame
  exact inv_release h c howner rfl (by rw [hpc]; rfl) trivial

theorem resumed_owner (owner : Option DocumentId) : (resumed owner).owner = owner := by
  cases owner <;> rfl

theorem resumed_holder (owner : Option DocumentId) : (resumed owner).holder = false := by
  cases owner <;> rfl

theorem resumed_local (owner : Option DocumentId) : (resumed owner).local := by
  cases owner <;> trivial

/-- Every step of a thread keeps the slots in order, if the guard of a worker that was
dropped in its double check finds the slot free. -/
theorem step_inv (h : Inv s) (a : ℕ) (i : Choice) (hs : s.pc a = .stray → s.formation = 0) :
    Inv (s.step a i) := by
  -- The common case: the thread holds after the step what it held before.
  have frame : ∀ p : Pc, p.owner = (s.pc a).owner → p.holder = (s.pc a).holder → p.local →
      Inv (s.goto a p) := fun p => inv_frame h
  have hknown := h.known a
  rw [State.step.eq_def]
  cases hpc : s.pc a with
  | absent => exact h
  | arriving =>
    rw [hpc] at frame
    show Inv (if s.formation ≠ 0 then _ else _)
    split <;> exact frame _ rfl rfl trivial
  | checking =>
    rw [hpc] at frame
    show Inv (if s.maintenance then _ else _)
    split <;> exact frame _ rfl rfl trivial
  | locating =>
    rw [hpc] at frame
    cases i.next <;> exact frame _ rfl rfl trivial
  | admitting c =>
    show Inv (if s.maintenance ∨ s.formation ≠ 0 then _ else _)
    split
    · rw [hpc] at frame
      exact frame _ rfl rfl trivial
    · rename_i hn
      rw [not_or, Bool.not_eq_true, not_not] at hn
      exact inv_take h c hn.2 hn.1 rfl rfl trivial
  | admitted c =>
    rw [hpc] at frame
    show Inv (if s.closing then _ else _)
    split <;> exact frame _ rfl rfl trivial
  | spawned c =>
    rw [hpc] at frame
    exact frame _ rfl rfl trivial
  | working c =>
    rw [hpc] at frame
    exact frame _ rfl rfl trivial
  | ending c =>
    rw [hpc] at frame
    show Inv (if i.retry then _ else if i.terminal then _ else _)
    split
    · exact frame _ rfl rfl trivial
    · split <;> exact frame _ rfl rfl trivial
  | failing c => exact inv_release h c (by rw [hpc]; rfl) rfl (by rw [hpc]; rfl) trivial
  | saving c =>
    rw [hpc] at frame
    show Inv (if i.offer then _ else _)
    split <;> exact frame _ rfl rfl trivial
  | searching c =>
    rw [hpc] at frame
    show Inv (if i.error then _ else _)
    split
    · exact frame _ rfl rfl trivial
    · cases i.next <;> exact frame _ rfl rfl trivial
  | advancing c next =>
    have hs : s.formation = c := h.slot a c (by rw [hpc]; rfl)
    show Inv (if s.formation = c then _ else _)
    rw [if_pos hs]
    exact inv_move h c next (by rw [hpc]; rfl) rfl (by rw [hpc]; rfl) trivial
  | releasing c => exact inv_release h c (by rw [hpc]; rfl) rfl (by rw [hpc]; rfl) trivial
  | rechecking =>
    rw [hpc] at frame
    show Inv (match i.error, i.next with
      | false, some next => s.goto a (.readmitting next)
      | _, _ => s.goto a .absent)
    split <;> exact frame _ rfl rfl trivial
  | readmitting next =>
    show Inv (if s.maintenance ∨ s.formation ≠ 0 then _ else _)
    split
    · rw [hpc] at frame
      exact frame _ rfl rfl trivial
    · rename_i hn
      rw [not_or, Bool.not_eq_true, not_not] at hn
      exact inv_take h next hn.2 hn.1 rfl rfl trivial
  | offering c =>
    rw [hpc] at frame
    exact frame _ rfl rfl trivial
  | claiming owner handoff =>
    show Inv (if s.formation = slotValue handoff ∧ s.maintenance = false then _ else _)
    split
    · rename_i hc
      exact claim_inv h owner handoff hpc hc.1 hc.2
    · rw [hpc] at frame
      exact frame _ (resumed_owner owner) (resumed_holder owner) (resumed_local owner)
  | settling owner handoff =>
    rw [hpc] at frame hknown
    show Inv (if i.started then _ else _)
    split
    · exact frame _ rfl rfl hknown
    · exact frame _ rfl rfl trivial
  | handing owner handoff =>
    cases handoff with
    | none =>
      rw [hpc] at frame hknown
      exact frame _ hknown.symm rfl trivial
    | some c =>
      show Inv (if s.formation = c then _ else _)
      split
      · exact handing_inv h owner c hpc
      · rw [hpc] at frame
        exact frame _ rfl rfl trivial
  | yielding owner =>
    exact inv_unclaim h (by rw [hpc]; rfl) (by rw [hpc]; exact resumed_owner owner)
      (resumed_holder owner) (resumed_local owner)
  | dispatching =>
    rw [hpc] at frame
    show Inv (if s.closing then _ else _)
    split <;> exact frame _ rfl rfl trivial
  | maintaining =>
    rw [hpc] at frame
    exact frame _ rfl rfl trivial
  | curating =>
    rw [hpc] at frame
    exact frame _ rfl rfl trivial
  | concluding =>
    rw [hpc] at frame
    exact frame _ rfl rfl trivial
  | leaving => exact inv_unclaim h (by rw [hpc]; rfl) (by rw [hpc]; rfl) rfl trivial
  | dropping c claim =>
    cases claim with
    | true => exact inv_unclaim h (by rw [hpc]; rfl) (by rw [hpc]; rfl) rfl trivial
    | false => exact inv_release h c (by rw [hpc]; rfl) rfl (by rw [hpc]; rfl) trivial
  | resting => exact inv_unclaim h (by rw [hpc]; rfl) (by rw [hpc]; rfl) rfl trivial
  | stray =>
    have hfree : { s.goto a .absent with formation := 0 } = s.goto a .absent :=
      congrArg (fun n => { s.goto a .absent with formation := n }) (hs hpc).symm
    rw [hpc] at frame
    show Inv { s.goto a .absent with formation := 0 }
    rw [hfree]
    exact frame _ rfl rfl trivial

theorem drop_inv (h : Inv s) (a : ℕ) : Inv (s.drop a) := by
  have frame : ∀ p : Pc, p.owner = (s.pc a).owner → p.holder = (s.pc a).holder → p.local →
      Inv (s.goto a p) := fun p => inv_frame h
  have closed : ∀ p : Pc, p.owner = (s.pc a).owner → p.holder = (s.pc a).holder → p.local →
      Inv (if s.closing then s.goto a p else s) := by
    intro p ho hh hp
    split
    · exact frame p ho hh hp
    · exact h
  rw [State.drop.eq_def]
  cases hpc : s.pc a with
  | rechecking =>
    rw [hpc] at closed
    exact closed _ rfl rfl trivial
  | locating =>
    rw [hpc] at frame
    exact frame _ rfl rfl trivial
  | settling owner handoff =>
    rw [hpc] at frame closed
    cases owner with
    | none => exact frame _ rfl rfl trivial
    | some c => exact closed _ rfl rfl trivial
  | spawned c =>
    rw [hpc] at closed
    exact closed _ rfl rfl trivial
  | working c =>
    rw [hpc] at closed
    exact closed _ rfl rfl trivial
  | ending c =>
    rw [hpc] at closed
    exact closed _ rfl rfl trivial
  | saving c =>
    rw [hpc] at closed
    exact closed _ rfl rfl trivial
  | searching c =>
    rw [hpc] at closed
    exact closed _ rfl rfl trivial
  | maintaining =>
    rw [hpc] at closed
    exact closed _ rfl rfl trivial
  | curating =>
    rw [hpc] at closed
    exact closed _ rfl rfl trivial
  | concluding =>
    rw [hpc] at closed
    exact closed _ rfl rfl trivial
  | _ => exact h

/-- The guard of a worker that was dropped in its double check, after it had released
its slot, runs only when nobody has taken the slot since. -/
def Event.spares (s : State) : Event → Prop
  | .step a _ => s.pc a = .stray → s.formation = 0
  | _ => True

theorem advance_inv (h : Inv s) (e : Event) (he : e.spares s) : Inv (s.advance e) := by
  cases e with
  | submit a =>
    show Inv (match s.pc a with
      | .absent => s.goto a .arriving
      | _ => s)
    cases hpc : s.pc a with
    | absent => exact inv_frame h (by rw [hpc]; rfl) (by rw [hpc]; rfl) trivial
    | _ => exact h
  | maintain a =>
    show Inv (match s.pc a with
      | .absent => s.goto a (.claiming none none)
      | _ => s)
    cases hpc : s.pc a with
    | absent => exact inv_frame h (by rw [hpc]; rfl) (by rw [hpc]; rfl) rfl
    | _ => exact h
  | step a i => exact step_inv h a i he
  | drop a => exact drop_inv h a
  | close => exact ⟨h.slot,h.sole,h.taken,h.flag,h.one,h.held,h.apart,h.known⟩

theorem inv_start : Inv State.start := by
  constructor
  · intro a c hc
    cases hc
  · intro a b ha
    cases ha
  · intro hf
    exact absurd rfl hf
  · intro a ha
    cases ha
  · intro a b ha
    cases ha
  · intro hm
    cases hm
  · intro a b ha
    cases ha
  · intro a
    trivial

theorem owner_active (p : Pc) (h : p.owner.isSome) : p.active = true := by
  cases p with
  | claiming owner handoff =>
    cases owner with
    | none => cases h
    | some c => rfl
  | _ => first | rfl | cases h

theorem holder_active (p : Pc) (h : p.holder = true) : p.active = true := by
  cases p <;> first | rfl | cases h

theorem inv_exclusive (h : Inv s) : Exclusive s := by
  constructor
  · intro a b c d ha hb
    exact h.sole a b (by rw [ha]; rfl) (by rw [hb]; rfl)
  · intro a b c ha hb
    have hab := h.apart b a (by rw [hb]; rfl) (by rw [ha]; rfl)
    rw [hab, ha] at hb
    cases hb
  intro hnone
  constructor
  · by_contra hf
    obtain ⟨a,ha⟩ := h.taken hf
    cases (hnone a).symm.trans (owner_active _ ha)
  cases hm : s.maintenance with
  | false => rfl
  | true =>
    obtain ⟨a,ha⟩ := h.held hm
    cases (hnone a).symm.trans (holder_active _ ha)

end Steps

/-- Every event of the run meets its condition in the state it happens in. -/
def Spared (s : State) : List Event → Prop
  | [] => True
  | e::events => e.spares s ∧ Spared (s.advance e) events

theorem run_inv (events : List Event) (s : State) (h : Inv s) (hs : Spared s events) :
    Inv (events.foldl State.advance s) := by
  induction events generalizing s with
  | nil => exact h
  | cons e events ih => exact ih (s.advance e) (advance_inv h e hs.1) hs.2

/-- The slots let one writer in at a time, and nobody leaves one behind, in every run
where no dropped worker clears the slot of another. -/
theorem one_writer (events : List Event) (h : Spared State.start events) : Exclusive (run events) :=
  inv_exclusive (run_inv events State.start inv_start h)

def document (n : ℕ) : DocumentId := ⟨n + 1,Nat.succ_ne_zero n⟩

def Choice.idle : Choice := ⟨none,false,false,true,false,false⟩

def Choice.found (c : DocumentId) : Choice := { Choice.idle with next := some c }

/-- A submission finds its conversation, is admitted and starts to work. -/
def submission (a : ℕ) (c : DocumentId) : List Event :=
  [.submit a,.step a .idle,.step a .idle,.step a (.found c),.step a .idle,.step a .idle,
    .step a .idle]

/-- A worker completes its conversation, finds no other and releases its slot. -/
def completion (a : ℕ) : List Event :=
  [.step a .idle,.step a .idle,.step a .idle,.step a .idle,.step a .idle]

theorem one_writer_dropped_in_double_check : Exclusive
    (run (submission 0 (document 0) ++ completion 0 ++ [.close,.drop 0,.step 0 .idle])) := by
  apply one_writer
  simp [submission, completion, Spared, Event.spares, State.start, State.advance, State.step,
    State.drop, State.goto, Choice.idle, Choice.found]

/-- Two workers are in their double check when a third is admitted. The drop of the
first frees the slot of the third, and the second takes it. -/
def overwritten : List Event :=
  submission 0 (document 0) ++ completion 0 ++ submission 1 (document 1) ++ completion 1 ++
    submission 2 (document 2) ++ [.step 1 (.found (document 2)),.close,.drop 0,.step 0 .idle,
      .step 1 .idle]

theorem two_writers : ¬∀ events, Exclusive (run events) := by
  intro h
  have hone : (run overwritten).pc 1 = .working (document 2) := by rfl
  have htwo : (run overwritten).pc 2 = .working (document 2) := by rfl
  cases (h overwritten).formation 1 2 _ _ hone htwo

end AndaBrain.FormationSlots
