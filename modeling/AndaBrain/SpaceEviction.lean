import Mathlib.Data.List.Basic
import AndaBrain.SpaceRegistry

/-!
# Eviction never closes a Space in use

The two counts that allow an eviction leave nobody but the map and the run itself with a clone,
and the section of the lock keeps it so until the flag is set.
-/

set_option autoImplicit false

namespace AndaBrain.SpaceEviction
open SpaceRegistry

def Uses (p : LoadPhase) (e : ℕ) : Prop :=
  p = .enter e ∨ p = .connect e ∨ p.space = some e

def Used (s : Registry) (e : ℕ) : Prop := ∃ i, Uses (s.loads i).phase e

def Alive (s : Registry) (e : ℕ) : Prop :=
  (∃ i, (s.entries e).cell = .running i) ∨ (s.entries e).cell = .ready false

def Ready (s : Registry) (e : ℕ) : Prop := ∃ c, (s.entries e).cell = .ready c

def Free (s : Registry) (e : ℕ) : Prop := ∀ i, (s.loads i).phase.entry ≠ some e

def Inside (s : Registry) (j e : ℕ) : Prop :=
  s.lock = some j ∧ s.slot = some e ∧ (s.entries e).closing = false

def LoadOk (s : Registry) (i : ℕ) : LoadPhase → Prop
  | .enter e => (s.entries e).closing = false
  | .connect e => (s.entries e).cell = .running i ∧ (s.entries e).closing = false
  | .opened e | .discover e | .held e => Ready s e ∧ (s.entries e).closing = false
  | _ => True

def RunOk (s : Registry) (j : ℕ) : RunPhase → Prop
  | .count e => Inside s j e
  | .inspect e => Inside s j e ∧ Free s e
  | .owners e => Inside s j e ∧ Free s e ∧ Ready s e
  | .mark e => Inside s j e ∧ Free s e ∧ Ready s e ∧ ∀ i, (s.loads i).phase.space ≠ some e
  | .close e | .closing e => (s.entries e).closing = true
  | .remove e => (s.entries e).cell = .ready true
  | _ => True

structure Inv (s : Registry) : Prop where
  idle_load : ∀ i, s.calls ≤ i → (s.loads i).phase = .done
  idle_run : ∀ j, s.ticks ≤ j → (s.runs j).phase = .done
  slot_known : ∀ e, s.slot = some e → e < s.fresh
  unborn : ∀ e, s.fresh ≤ e → (s.entries e).cell = .empty ∧ (s.entries e).closing = false
  gone : ∀ e, s.slot ≠ some e →
    (s.entries e).cell = .ready true ∨ (s.entries e).cell = .empty ∧ Free s e
  runner : ∀ i e, (s.entries e).cell = .running i → (s.loads i).phase = .connect e
  shut : ∀ e, (s.entries e).cell = .ready true ∨ (s.entries e).begun = true →
    (s.entries e).closing = true
  closing : ∀ e, (s.entries e).closing = true → Ready s e
  load : ∀ i, LoadOk s i (s.loads i).phase
  run : ∀ j, RunOk s j (s.runs j).phase

theorem init_inv : Inv Registry.init := by
  constructor <;> simp [Registry.init, SpaceEntry.new, LoadOk, RunOk, Free, LoadPhase.entry]

section Frame
variable (s : Registry) (i j k e : ℕ)

theorem load_phase (p : LoadPhase) :
    ((setLoad s i p).loads k).phase = if k = i then p else (s.loads k).phase := by
  by_cases h : k = i
  · simp [setLoad, h]
  · simp [setLoad, h]

theorem run_phase (p : RunPhase) :
    ((setRun s j p).runs k).phase = if k = j then p else (s.runs k).phase := by
  by_cases h : k = j
  · simp [setRun, h]
  · simp [setRun, h]

theorem entry_at (x : SpaceEntry) :
    (setEntry s e x).entries k = if k = e then x else s.entries k := by
  simp [setEntry, Function.update_apply]

theorem called (hi : Inv s) (h : (s.loads i).phase ≠ .done) : i < s.calls := by
  by_contra hge
  exact h (hi.idle_load i (by omega))

theorem ticked (hi : Inv s) (h : (s.runs j).phase ≠ .done) : j < s.ticks := by
  by_contra hge
  exact h (hi.idle_run j (by omega))

theorem using_open (hi : Inv s) (h : Uses (s.loads i).phase e) : (s.entries e).closing = false := by
  have hl := hi.load i
  cases hp : (s.loads i).phase <;> simp_all [Uses, LoadPhase.space, LoadOk]

theorem using_slot (hi : Inv s) (hc : (s.loads i).phase.entry = some e)
    (hu : Uses (s.loads i).phase e) : s.slot = some e := by
  by_contra hne
  have hopen := using_open s i e hi hu
  rcases hi.gone e hne with h | h
  · simp [hi.shut e (.inl h)] at hopen
  · exact h.2 i hc

theorem alive_slot (hi : Inv s) (h : Alive s e) : s.slot = some e := by
  by_contra hne
  rcases hi.gone e hne with hg | hg <;> rcases h with ⟨i,hr⟩ | hr <;> simp_all

/-- What runs rely on is kept by whoever leaves the map, the flags and the cells that are
ready as they are, and takes nothing that is inside a section behind its count. -/
theorem run_kept (p : RunPhase) (hr : RunOk s j p) (t : Registry) (hlock : t.lock = s.lock)
    (hslot : t.slot = s.slot) (hclosing : ∀ e, (t.entries e).closing = (s.entries e).closing)
    (hready : ∀ e c, (s.entries e).cell = .ready c → (t.entries e).cell = .ready c)
    (hfree : ∀ e, Inside s j e → Free s e → Free t e)
    (hspace : ∀ e, Free s e → (∀ i, (s.loads i).phase.space ≠ some e) →
      ∀ i, (t.loads i).phase.space ≠ some e) : RunOk t j p := by
  have hin : ∀ e, Inside s j e → Inside t j e := fun e h =>
    ⟨hlock.trans h.1,hslot.trans h.2.1,(hclosing e).trans h.2.2⟩
  have hcell : ∀ e, Ready s e → Ready t e := fun e ⟨c,hc⟩ => ⟨c,hready e c hc⟩
  cases p with
  | lock e => trivial
  | count e => exact hin e hr
  | inspect e => exact ⟨hin e hr.1,hfree e hr.1 hr.2⟩
  | owners e => exact ⟨hin e hr.1,hfree e hr.1 hr.2.1,hcell e hr.2.2⟩
  | mark e =>
    exact ⟨hin e hr.1,hfree e hr.1 hr.2.1,hcell e hr.2.2.1,hspace e hr.2.1 hr.2.2.2⟩
  | close e => exact (hclosing e).trans hr
  | closing e => exact (hclosing e).trans hr
  | remove e => exact hready e true hr
  | leave e => trivial
  | done => trivial

end Frame

section Loads
variable (s : Registry) (i : ℕ)

structure Moves (p : LoadPhase) : Prop where
  called : i < s.calls
  entry : ∀ e, p.entry = some e →
    (s.loads i).phase.entry = some e ∨ s.lock = none ∧ s.slot = some e
  space : ∀ e, p.space = some e →
    (s.loads i).phase.space = some e ∨ (s.loads i).phase.entry = some e
  settled : ∀ e, (s.loads i).phase ≠ .connect e
  ok : LoadOk s i p

variable (e : ℕ) (s' : Registry)

theorem free_set (p : LoadPhase) (hf : Free s e)
    (hp : p.entry = some e → (s.loads i).phase.entry = some e) : Free (setLoad s i p) e := by
  intro k hk
  rw [load_phase] at hk
  by_cases h : k = i
  · rw [if_pos h] at hk
    exact hf i (hp hk)
  · rw [if_neg h] at hk
    exact hf k hk

theorem load_inv (p : LoadPhase) (hi : Inv s) (hm : Moves s i p) : Inv (setLoad s i p) := by
  refine { hi with idle_load := ?_, gone := ?_, runner := ?_, load := ?_, run := ?_ }
  · intro k hk
    change s.calls ≤ k at hk
    have := hm.called
    rw [load_phase, if_neg (by omega)]
    exact hi.idle_load k hk
  · intro e hslot
    refine (hi.gone e hslot).imp_right fun h => ⟨h.1,free_set s i e p h.2 fun hp => ?_⟩
    exact (hm.entry e hp).resolve_right fun ho => hslot ho.2
  · intro k e hk
    have ho := hi.runner k e hk
    by_cases h : k = i
    · exact absurd (h ▸ ho) (hm.settled e)
    · rw [load_phase, if_neg h]
      exact ho
  · intro k
    rw [load_phase]
    by_cases h : k = i
    · rw [if_pos h, h]
      exact hm.ok
    · rw [if_neg h]
      exact hi.load k
  intro j
  refine run_kept s j _ (hi.run j) (setLoad s i p) rfl rfl (fun _ => rfl) (fun _ _ h => h) ?_ ?_
  · intro e hin hf
    refine free_set s i e p hf fun hp => (hm.entry e hp).resolve_right fun ho => ?_
    have hl := hin.1
    simp [ho.1] at hl
  intro e hf hno k hk
  rw [load_phase] at hk
  by_cases h : k = i
  · rw [if_pos h] at hk
    exact (hm.space e hk).elim (hno i) (hf i)
  · rw [if_neg h] at hk
    exact hno k hk

/-- The access time, and an entry that nobody has yet, take no part in what is kept. -/
theorem entry_inv (x : SpaceEntry) (hi : Inv s) (hcell : x.cell = (s.entries e).cell)
    (hclosing : x.closing = (s.entries e).closing)
    (hbegun : x.begun = true → (s.entries e).begun = true) : Inv (setEntry s e x) := by
  have hsame : ∀ k, ((setEntry s e x).entries k).cell = (s.entries k).cell ∧
      ((setEntry s e x).entries k).closing = (s.entries k).closing ∧
      (((setEntry s e x).entries k).begun = true → (s.entries k).begun = true) := by
    intro k
    rw [entry_at]
    by_cases h : k = e
    · rw [if_pos h, h]
      exact ⟨hcell,hclosing,hbegun⟩
    · rw [if_neg h]
      exact ⟨rfl,rfl,id⟩
  refine { hi with
    unborn := ?_, gone := ?_, runner := ?_, shut := ?_, closing := ?_, load := ?_, run := ?_ }
  · intro k hk
    rw [(hsame k).1, (hsame k).2.1]
    exact hi.unborn k hk
  · intro k hk
    rw [(hsame k).1]
    exact hi.gone k hk
  · intro k e' hk
    rw [(hsame e').1] at hk
    exact hi.runner k e' hk
  · intro k hk
    rw [(hsame k).2.1]
    exact hi.shut k (hk.imp (fun h => (hsame k).1 ▸ h) (hsame k).2.2)
  · intro k hk
    rw [(hsame k).2.1] at hk
    obtain ⟨c,hc⟩ := hi.closing k hk
    exact ⟨c,(hsame k).1.trans hc⟩
  · intro k
    have hl := hi.load k
    change LoadOk _ _ (s.loads k).phase
    cases hp : (s.loads k).phase <;> simp_all [LoadOk, Ready]
  · intro j
    exact run_kept s j _ (hi.run j) (setEntry s e x) rfl rfl (fun k => (hsame k).2.1)
      (fun k c h => (hsame k).1.trans h) (fun _ _ h => h) (fun _ _ h => h)

theorem born_inv (x : SpaceEntry) (hi : Inv s) (hl : s.lock = none) (hs : s.slot = none)
    (hx : x.cell = .empty ∧ x.closing = false ∧ x.begun = false) :
    Inv { setEntry s s.fresh x with slot := some s.fresh, fresh := s.fresh + 1 } := by
  have hu := hi.unborn s.fresh (Nat.le_refl _)
  have hset := entry_inv s s.fresh x hi (hx.1.trans hu.1.symm) (hx.2.1.trans hu.2.symm)
    (fun h => by simp [hx.2.2] at h)
  refine { hset with slot_known := ?_, unborn := ?_, gone := ?_, run := ?_ }
  · intro e he
    cases he
    exact Nat.lt_succ_self _
  · intro e he
    exact hset.unborn e (Nat.le_of_succ_le he)
  · intro e _
    exact hset.gone e (by simp [setEntry, hs])
  intro j
  have hr := hset.run j
  change RunOk _ j (s.runs j).phase at hr ⊢
  cases hp : (s.runs j).phase <;> simp_all [RunOk, Inside, setEntry, Ready]

inductive Connects (e : ℕ) : Cell → LoadPhase → Cell → LoadPhase → Prop
  | start : Connects e .empty (.enter e) (.running i) (.connect e)
  | finish : Connects e (.running i) (.connect e) (.ready false) (.opened e)
  | fail : Connects e (.running i) (.connect e) .empty .done

theorem connects_uses (c d : Cell) (p q : LoadPhase) (h : Connects i e c p d q) : p.entry = some e ∧
    Uses p e ∧ (c = .empty ∨ c = .running i) ∧ d ≠ .ready true ∧ (d = .running i → q = .connect e) ∧
    (∀ k, d = .running k → k = i) ∧ (∀ e', q.entry = some e' ∨ q.space = some e' → e' = e) := by
  cases h <;> simp [LoadPhase.entry, LoadPhase.space, Uses, eq_comm]

theorem connect_inv (d : Cell) (q : LoadPhase) (hi : Inv s)
    (h : Connects i e (s.entries e).cell (s.loads i).phase d q) :
    Inv (setLoad (setEntry s e { s.entries e with cell := d }) i q) := by
  obtain ⟨hentry,huses,hc,hd,hq,hrun,hqe⟩ := connects_uses i e _ _ _ _ h
  have hslot := using_slot s i e hi hentry huses
  have hopen := using_open s i e hi huses
  have hcalled := called s i hi (fun hp => by simp [hp, LoadPhase.entry] at hentry)
  have hready : ∀ k c, (s.entries k).cell = .ready c → k ≠ e := by
    rintro k c hk rfl
    rcases hc with hc | hc <;> simp [hc] at hk
  have hat : ∀ k, k ≠ e →
      (setLoad (setEntry s e { s.entries e with cell := d }) i q).entries k = s.entries k := by
    intro k hk
    change (setEntry s e _).entries k = _
    rw [entry_at, if_neg hk]
  have hnew : (setLoad (setEntry s e { s.entries e with cell := d }) i q).entries e =
      { s.entries e with cell := d } := by
    change (setEntry s e _).entries e = _
    rw [entry_at, if_pos rfl]
  have hflag : ∀ k, ((setLoad (setEntry s e { s.entries e with cell := d }) i q).entries k).closing =
      (s.entries k).closing := by
    intro k
    by_cases hk : k = e
    · rw [hk, hnew]
    · rw [hat k hk]
  have hfree : ∀ k, Free s k →
      Free (setLoad (setEntry s e { s.entries e with cell := d }) i q) k := by
    intro k hk
    refine free_set _ i k q hk fun hp => ?_
    rw [hqe k (.inl hp)]
    exact hentry
  refine { hi with
    idle_load := ?_, unborn := ?_, gone := ?_, runner := ?_, shut := ?_, closing := ?_,
    load := ?_, run := ?_ }
  · intro k hk
    change s.calls ≤ k at hk
    rw [load_phase, if_neg (by omega)]
    exact hi.idle_load k hk
  · intro k hk
    have hknown := hi.slot_known e hslot
    change s.fresh ≤ k at hk
    rw [hat k (by omega)]
    exact hi.unborn k hk
  · intro k hk
    have hne : k ≠ e := fun heq => hk (heq ▸ hslot)
    rw [hat k hne]
    exact (hi.gone k hk).imp_right fun hg => ⟨hg.1,hfree k hg.2⟩
  · intro k e' hk
    rw [load_phase]
    by_cases he : e' = e
    · rw [he, hnew] at hk
      have hki := hrun k hk
      rw [if_pos hki, he]
      exact hq (hki ▸ hk)
    rw [hat e' he] at hk
    have ho := hi.runner k e' hk
    have hki : k ≠ i := by
      rintro rfl
      rw [ho] at hentry
      exact he (Option.some.inj hentry)
    rw [if_neg hki]
    exact ho
  · intro k hk
    rw [hflag]
    by_cases he : k = e
    · rw [he, hnew] at hk
      rw [he]
      exact hi.shut e (.inr (hk.resolve_left hd))
    · rw [hat k he] at hk
      exact hi.shut k hk
  · intro k hk
    rw [hflag] at hk
    obtain ⟨c,hc⟩ := hi.closing k hk
    exact ⟨c,by rw [hat k (hready k c hc)]; exact hc⟩
  · intro k
    rw [load_phase]
    by_cases hki : k = i
    · rw [if_pos hki, hki]
      have hcell := congrArg SpaceEntry.cell hnew
      have hclear := (hflag e).trans hopen
      generalize (s.entries e).cell = c at h
      generalize (s.loads i).phase = p at h
      cases h with
      | start => exact ⟨hcell,hclear⟩
      | finish => exact ⟨⟨false,hcell⟩,hclear⟩
      | fail => trivial
    rw [if_neg hki]
    have hl := hi.load k
    change LoadOk _ k (s.loads k).phase
    have hrunning : ∀ e', (s.entries e').cell = .running k → e' ≠ e := by
      rintro e' hr rfl
      rcases hc with hc | hc
      · simp [hc] at hr
      · rw [hc] at hr
        exact hki (Cell.running.inj hr).symm
    cases hp : (s.loads k).phase <;> simp only [hp, LoadOk, Ready, hflag] at hl ⊢
    case enter e' => exact hl
    case connect e' => exact ⟨by rw [hat e' (hrunning e' hl.1)]; exact hl.1,hl.2⟩
    all_goals
      obtain ⟨⟨c,hcell⟩,hf⟩ := hl
      exact ⟨⟨c,by rw [hat _ (hready _ c hcell)]; exact hcell⟩,hf⟩
  intro j
  refine run_kept s j _ (hi.run j) _ rfl rfl hflag ?_ (fun k _ hk => hfree k hk) ?_
  · intro k c hk
    rw [hat k (hready k c hk)]
    exact hk
  intro k hf hno m hm
  rw [load_phase] at hm
  by_cases hmi : m = i
  · rw [if_pos hmi] at hm
    rw [hqe k (.inr hm)] at hf
    exact hf i hentry
  · rw [if_neg hmi] at hm
    exact hno m hm

theorem done_inv (hi : Inv s) (hs : ∀ e, (s.loads i).phase ≠ .connect e)
    (hne : (s.loads i).phase ≠ .done) : Inv (setLoad s i .done) :=
  load_inv s i .done hi ⟨called s i hi hne,by simp [LoadPhase.entry],by simp [LoadPhase.space],hs,
    trivial⟩

/-- The clone of the entry that the map has is taken in one section of the lock. -/
theorem found_inv (hi : Inv s) (hp : (s.loads i).phase = .lookup ∨ (s.loads i).phase = .insert)
    (hl : s.lock = none) (hs : s.slot = some e) : Inv (setLoad s i (.check e)) := by
  have hne : (s.loads i).phase ≠ .done := by rcases hp with h | h <;> simp [h]
  refine load_inv s i _ hi ⟨called s i hi hne,fun e' he => ?_,by simp [LoadPhase.space],?_,trivial⟩
  · cases he
    exact .inr ⟨hl,hs⟩
  · rcases hp with h | h <;> simp [h]

theorem goes_inv (p : LoadPhase) (hi : Inv s) (hp : ∀ e', (s.loads i).phase ≠ .connect e')
    (hold : (s.loads i).phase.entry = some e) (hentry : ∀ e', p.entry = some e' → e' = e)
    (hspace : ∀ e', p.space = some e' → e' = e) (hok : LoadOk s i p) : Inv (setLoad s i p) := by
  have hne : (s.loads i).phase ≠ .done := by
    intro h
    simp [h, LoadPhase.entry] at hold
  refine load_inv s i p hi ⟨called s i hi hne,fun e' he => ?_,fun e' he => ?_,hp,hok⟩
  · rw [hentry e' he]
    exact .inl hold
  · rw [hspace e' he]
    exact .inr hold

theorem lookup_inv (hi : Inv s) (h : lookup s i = some s') : Inv s' := by
  unfold lookup at h
  split at h
  · rename_i hp hl
    cases hs : s.slot with
    | some e =>
      rw [hs] at h
      cases h
      exact found_inv s i e hi (.inl hp) hl hs
    | none =>
      rw [hs] at h
      cases h
      exact load_inv s i _ hi ⟨called s i hi (by simp [hp]),by simp [LoadPhase.entry],
        by simp [LoadPhase.space],by simp [hp],trivial⟩
  · cases h

theorem insert_inv (now : ℕ) (hi : Inv s)
    (h : SpaceRegistry.insert s i now = some s') : Inv s' := by
  unfold SpaceRegistry.insert at h
  split at h
  · rename_i hp hl
    cases hs : s.slot with
    | some e =>
      rw [hs] at h
      cases h
      exact found_inv s i e hi (.inr hp) hl hs
    | none =>
      rw [hs] at h
      cases h
      have hb := born_inv s (SpaceEntry.new (if (s.loads i).touch then now else 0)) hi hl hs
        ⟨rfl,rfl,rfl⟩
      exact found_inv _ i s.fresh hb (.inr hp) hl rfl
  · cases h

theorem check_inv (hi : Inv s) (h : check s i = some s') : Inv s' := by
  unfold check at h
  split at h
  · rename_i e hp
    by_cases hf : (s.entries e).closing = true
    · rw [if_pos hf] at h
      cases h
      exact done_inv s i hi (by simp [hp]) (by simp [hp])
    rw [if_neg hf] at h
    cases h
    exact goes_inv s i e _ hi (by simp [hp]) (congrArg LoadPhase.entry hp)
      (by simp [LoadPhase.entry, eq_comm]) (by simp [LoadPhase.space]) (by simpa [LoadOk] using hf)
  · cases h

theorem enter_inv (hi : Inv s) (h : enter s i = some s') : Inv s' := by
  unfold enter at h
  split at h
  · rename_i e hp
    cases hc : (s.entries e).cell with
    | ready c =>
      rw [hc] at h
      cases h
      exact goes_inv s i e _ hi (by simp [hp]) (congrArg LoadPhase.entry hp)
        (by simp [LoadPhase.entry, eq_comm]) (by simp [LoadPhase.space, eq_comm])
        ⟨⟨c,hc⟩,using_open s i e hi (.inl hp)⟩
    | running k =>
      rw [hc] at h
      cases h
    | empty =>
      rw [hc] at h
      cases h
      apply connect_inv s i e _ _ hi
      rw [hc, hp]
      exact .start
  · cases h

theorem ends_inv (d : Cell) (q : LoadPhase) (hi : Inv s)
    (hp : (s.loads i).phase = .connect e)
    (h : d = .ready false ∧ q = .opened e ∨ d = .empty ∧ q = .done) :
    Inv (setLoad (setEntry s e { s.entries e with cell := d }) i q) := by
  have hl := hi.load i
  rw [hp] at hl
  apply connect_inv s i e d q hi
  rw [hl.1, hp]
  rcases h with ⟨rfl,rfl⟩ | ⟨rfl,rfl⟩
  · exact .finish
  · exact .fail

theorem connected_inv (ok : Bool) (hi : Inv s) (h : connect s i ok = some s') : Inv s' := by
  unfold connect at h
  split at h
  · rename_i e hp
    cases ok with
    | true =>
      cases h
      exact ends_inv s i e _ _ hi hp (.inl ⟨rfl,rfl⟩)
    | false =>
      cases h
      exact ends_inv s i e _ _ hi hp (.inr ⟨rfl,rfl⟩)
  · cases h

theorem touch_inv (now : ℕ) (hi : Inv s) (h : touch s i now = some s') : Inv s' := by
  unfold touch at h
  split at h
  · rename_i e hp
    cases h
    have hgo : ∀ t, Inv t → t.loads = s.loads → Inv (setLoad t i (.discover e)) := by
      intro t ht heq
      have hp' : (t.loads i).phase = .opened e := by rw [heq, hp]
      have hl := ht.load i
      rw [hp'] at hl
      exact goes_inv t i e _ ht (by simp [hp']) (congrArg LoadPhase.entry hp')
        (by simp [LoadPhase.entry, eq_comm]) (by simp [LoadPhase.space, eq_comm]) hl
    by_cases ht : (s.loads i).touch = true
    · rw [if_pos ht]
      exact hgo _ (entry_inv s e _ hi rfl rfl id) rfl
    · rw [if_neg ht]
      exact hgo s hi rfl
  · cases h

theorem discover_inv (ok : Bool) (hi : Inv s) (h : discover s i ok = some s') : Inv s' := by
  unfold discover at h
  split at h
  · rename_i e hp
    cases ok with
    | true =>
      cases h
      have hl := hi.load i
      rw [hp] at hl
      exact goes_inv s i e _ hi (by simp [hp]) (congrArg LoadPhase.entry hp)
        (by simp [LoadPhase.entry]) (by simp [LoadPhase.space, eq_comm]) hl
    | false =>
      cases h
      exact done_inv s i hi (by simp [hp]) (by simp [hp])
  · cases h

theorem release_inv (hi : Inv s) (h : release s i = some s') : Inv s' := by
  unfold release at h
  split at h
  · rename_i e hp
    cases h
    exact done_inv s i hi (by simp [hp]) (by simp [hp])
  · cases h

theorem cancelLoad_inv (hi : Inv s) (h : cancelLoad s i = some s') : Inv s' := by
  unfold cancelLoad at h
  split at h
  · cases h
  · cases h
  · rename_i e hp
    cases h
    exact ends_inv s i e _ _ hi hp (.inr ⟨rfl,rfl⟩)
  · rename_i hheld hdone hconnect
    cases h
    exact done_inv s i hi hconnect hdone

theorem call_inv (t : Bool) (hi : Inv s) : Inv (call s t) := by
  have hphase : ∀ k, ((call s t).loads k).phase =
      if k = s.calls then .lookup else (s.loads k).phase := by
    intro k
    by_cases h : k = s.calls
    · simp [call, h]
    · simp [call, h]
  have hfree : ∀ e, Free s e → Free (call s t) e := by
    intro e hf k hk
    rw [hphase] at hk
    by_cases h : k = s.calls
    · simp [h, LoadPhase.entry] at hk
    · rw [if_neg h] at hk
      exact hf k hk
  refine { hi with idle_load := ?_, gone := ?_, runner := ?_, load := ?_, run := ?_ }
  · intro k hk
    change s.calls + 1 ≤ k at hk
    rw [hphase, if_neg (by omega)]
    exact hi.idle_load k (by omega)
  · exact fun e hs => (hi.gone e hs).imp_right fun hg => ⟨hg.1,hfree e hg.2⟩
  · intro k e hk
    have ho := hi.runner k e hk
    have hne : k ≠ s.calls := by
      rintro rfl
      simp [hi.idle_load s.calls (Nat.le_refl _)] at ho
    rw [hphase, if_neg hne]
    exact ho
  · intro k
    rw [hphase]
    by_cases h : k = s.calls
    · rw [if_pos h]
      trivial
    · rw [if_neg h]
      exact hi.load k
  · intro j
    refine run_kept s j _ (hi.run j) (call s t) rfl rfl (fun _ => rfl) (fun _ _ h => h)
      (fun e _ => hfree e) fun e hf hno k hk => ?_
    rw [hphase] at hk
    by_cases h : k = s.calls
    · simp [h, LoadPhase.space] at hk
    · rw [if_neg h] at hk
      exact hno k hk

end Loads

section Runs
variable (s : Registry) (j : ℕ)

theorem run_inv (p : RunPhase) (hi : Inv s) (hj : j < s.ticks) (hp : RunOk s j p) :
    Inv (setRun s j p) := by
  refine { hi with idle_run := ?_, run := ?_ }
  · intro k hk
    change s.ticks ≤ k at hk
    rw [run_phase, if_neg (by omega)]
    exact hi.idle_run k hk
  intro k
  rw [run_phase]
  by_cases h : k = j
  · rw [if_pos h, h]
    exact hp
  · rw [if_neg h]
    exact hi.run k

theorem alone (k : ℕ) (p : RunPhase) (hp : RunOk s k p) (hk : s.lock ≠ some k)
    (t : Registry) (hentries : t.entries = s.entries) : RunOk t k p := by
  cases p <;> simp_all [RunOk, Inside]

theorem unlock_inv (hi : Inv s) (hlock : s.lock = some j) (hj : ∀ t, RunOk t j (s.runs j).phase) :
    Inv (unlock s) := by
  refine { hi with run := fun k => ?_ }
  by_cases h : k = j
  · exact h ▸ hj _
  · refine alone s k _ (hi.run k) (fun hk => h ?_) _ rfl
    rw [hlock] at hk
    exact (Option.some.inj hk).symm

variable (e : ℕ) (s' : Registry)

theorem refuse_inv (hi : Inv s) (hj : j < s.ticks) (hin : Inside s j e) :
    Inv (unlock (setRun s j (.leave e))) := by
  apply unlock_inv _ j (run_inv s j (.leave e) hi hj trivial) hin.1
  intro t
  rw [run_phase, if_pos rfl]
  trivial

/-- The map lets go of an entry that is closed, or that nobody can initialize any more. -/
theorem empty_inv (hi : Inv s) (hs : s.slot = some e) (hlock : s.lock = none)
    (h : (s.entries e).cell = .ready true ∨ (s.entries e).cell = .empty ∧ Free s e) :
    Inv { s with slot := none } := by
  refine { hi with slot_known := ?_, gone := ?_, run := ?_ }
  · intro e' he
    cases he
  · intro e' _
    by_cases heq : e' = e
    · rw [heq]
      exact h
    · refine hi.gone e' fun hslot => heq ?_
      rw [hs] at hslot
      exact (Option.some.inj hslot).symm
  · exact fun k => alone s k _ (hi.run k) (by simp [hlock]) _ rfl

/-- The map and the run hold two clones: with no more than these no load has one. -/
theorem few_clones (hi : Inv s) (hs : s.slot = some e)
    (hj : (s.runs j).phase.entry = some e) (hc : ¬entryCount s e > 2) : Free s e := by
  intro i hload
  have hticked := ticked s j hi (fun h => by simp [h, RunPhase.entry] at hj)
  have hcalled := called s i hi (fun h => by simp [h, LoadPhase.entry] at hload)
  have hone : 0 < ((List.range s.calls).filter fun i => (s.loads i).phase.entry = some e).length :=
    List.length_pos_of_mem (List.mem_filter.mpr ⟨List.mem_range.mpr hcalled,by simpa using hload⟩)
  have htwo : 0 < ((List.range s.ticks).filter fun k => (s.runs k).phase.entry = some e).length :=
    List.length_pos_of_mem (List.mem_filter.mpr ⟨List.mem_range.mpr hticked,by simpa using hj⟩)
  rw [entryCount, if_pos hs] at hc
  omega

theorem few_owners (e tasks : ℕ) (hi : Inv s) (hc : ¬spaceCount s e tasks > 1) (i : ℕ) :
    (s.loads i).phase.space ≠ some e := by
  intro hload
  have hcalled := called s i hi (fun h => by simp [h, LoadPhase.space] at hload)
  have hone : 0 < ((List.range s.calls).filter fun i => (s.loads i).phase.space = some e).length :=
    List.length_pos_of_mem (List.mem_filter.mpr ⟨List.mem_range.mpr hcalled,by simpa using hload⟩)
  rw [spaceCount] at hc
  omega

/-- An entry in nobody's use, with nobody inside its section, goes on towards its end. -/
theorem shut_inv (c d : Bool) (x : SpaceEntry) (hi : Inv s) (he : e < s.fresh)
    (hc : (s.entries e).cell = .ready c) (hu : ¬Used s e) (hout : ∀ k, ¬Inside s k e)
    (hx : x.cell = .ready d) (hd : c = true → d = true) (hf : x.closing = true) :
    Inv (setEntry s e x) := by
  have hat : ∀ k, k ≠ e → (setEntry s e x).entries k = s.entries k := by
    intro k hk
    rw [entry_at, if_neg hk]
  have hnew : (setEntry s e x).entries e = x := by
    rw [entry_at, if_pos rfl]
  have hkeep : ∀ k, (s.entries k).cell = .ready true →
      ((setEntry s e x).entries k).cell = .ready true := by
    intro k hk
    by_cases h : k = e
    · rw [h, hnew, hx, hd (by rw [h, hc] at hk; exact Cell.ready.inj hk)]
    · rw [hat k h]
      exact hk
  have hflag : ∀ k, (s.entries k).closing = true → ((setEntry s e x).entries k).closing = true := by
    intro k hk
    by_cases h : k = e
    · rw [h, hnew]
      exact hf
    · rw [hat k h]
      exact hk
  have hready : ∀ k, Ready s k → Ready (setEntry s e x) k := by
    rintro k ⟨b,hb⟩
    by_cases h : k = e
    · exact ⟨d,by rw [h, hnew]; exact hx⟩
    · exact ⟨b,by rw [hat k h]; exact hb⟩
  refine { hi with
    unborn := ?_, gone := ?_, runner := ?_, shut := ?_, closing := ?_, load := ?_, run := ?_ }
  · intro k hk
    change s.fresh ≤ k at hk
    rw [hat k (by omega)]
    exact hi.unborn k hk
  · intro k hk
    rcases hi.gone k hk with hg | hg
    · exact .inl (hkeep k hg)
    have hne : k ≠ e := by
      rintro rfl
      simp [hc] at hg
    rw [hat k hne]
    exact .inr hg
  · intro i k hk
    have hne : k ≠ e := by
      rintro rfl
      simp [hnew, hx] at hk
    rw [hat k hne] at hk
    exact hi.runner i k hk
  · intro k hk
    by_cases h : k = e
    · rw [h, hnew]
      exact hf
    · rw [hat k h] at hk ⊢
      exact hi.shut k hk
  · intro k hk
    by_cases h : k = e
    · exact h ▸ hready e ⟨c,hc⟩
    · rw [hat k h] at hk
      exact hready k (hi.closing k hk)
  · intro i
    have hl := hi.load i
    have hne : ∀ k, Uses (s.loads i).phase k → k ≠ e := by
      rintro k hk rfl
      exact hu ⟨i,hk⟩
    change LoadOk _ i (s.loads i).phase
    cases hp : (s.loads i).phase <;> simp only [hp, LoadOk] at hl ⊢
    case enter k => exact (hat k (hne k (.inl hp))) ▸ hl
    case connect k => exact (hat k (hne k (.inr (.inl hp)))) ▸ hl
    all_goals
      rename_i k
      have hk : k ≠ e := hne k (.inr (.inr (by rw [hp]; rfl)))
      exact ⟨hready k hl.1,(hat k hk) ▸ hl.2⟩
  intro k
  have hr := hi.run k
  have hin : ∀ m, Inside s k m → Inside (setEntry s e x) k m := by
    intro m hm
    have hne : m ≠ e := by
      rintro rfl
      exact hout k hm
    exact ⟨hm.1,hm.2.1,(hat m hne) ▸ hm.2.2⟩
  change RunOk _ k (s.runs k).phase
  cases hp : (s.runs k).phase <;> simp only [hp, RunOk] at hr ⊢
  case count m => exact hin m hr
  case inspect m => exact ⟨hin m hr.1,hr.2⟩
  case owners m => exact ⟨hin m hr.1,hr.2.1,hready m hr.2.2⟩
  case mark m => exact ⟨hin m hr.1,hr.2.1,hready m hr.2.2.1,hr.2.2.2⟩
  case close m => exact hflag m hr
  case closing m => exact hflag m hr
  case remove m => exact hkeep m hr

theorem closing_quiet (hi : Inv s) (h : (s.entries e).closing = true) :
    ¬Used s e ∧ (∀ k, ¬Inside s k e) ∧ e < s.fresh := by
  refine ⟨?_,?_,?_⟩
  · rintro ⟨i,hu⟩
    simp [using_open s i e hi hu] at h
  · rintro k ⟨_,_,hk⟩
    simp [hk] at h
  · by_contra hge
    simp [(hi.unborn e (by omega)).2] at h

theorem tick_inv (now timeout : ℕ) (hi : Inv s) (h : tick s now timeout = some s') : Inv s' := by
  unfold tick at h
  split at h
  · rename_i e hl hs
    cases h
    refine { hi with idle_run := ?_, run := ?_ }
    · intro k hk
      change s.ticks + 1 ≤ k at hk
      have hne : k ≠ s.ticks := by omega
      simp only [Function.update_of_ne hne]
      exact hi.idle_run k (by omega)
    intro k
    by_cases h : k = s.ticks
    · simp only [h, Function.update_self]
      trivial
    · simp only [Function.update_of_ne h]
      exact hi.run k
  · cases h

theorem lock_inv (hi : Inv s) (h : lock s j = some s') : Inv s' := by
  unfold lock at h
  split at h
  · rename_i e hp hl
    have hj := ticked s j hi (by simp [hp])
    by_cases hs : s.slot = some e
    · rw [if_neg (not_not.mpr hs)] at h
      by_cases hf : (s.entries e).closing = true
      · rw [if_pos hf] at h
        cases h
        exact run_inv s j (.close e) hi hj hf
      rw [if_neg hf] at h
      cases h
      have htake : Inv { s with lock := some j } :=
        { hi with run := fun k => alone s k _ (hi.run k) (by simp [hl]) _ rfl }
      exact run_inv { s with lock := some j } j (.count e) htake hj ⟨rfl,hs,by simpa using hf⟩
    · rw [if_pos hs] at h
      cases h
      exact run_inv s j (.leave e) hi hj trivial
  · cases h

theorem count_inv (hi : Inv s) (h : count s j = some s') : Inv s' := by
  unfold count at h
  split at h
  · rename_i e hp
    have hj := ticked s j hi (by simp [hp])
    have hin := hi.run j
    rw [hp] at hin
    by_cases hc : (s.runs j).nowMs - (s.entries e).lastAccessMs ≤ (s.runs j).idleTimeoutMs ∨
        entryCount s e > 2
    · rw [if_pos hc] at h
      cases h
      exact refuse_inv s j e hi hj hin
    rw [if_neg hc] at h
    cases h
    have hfew := few_clones s j e hi hin.2.1 (by rw [hp]; rfl) fun h => hc (.inr h)
    exact run_inv s j (.inspect e) hi hj ⟨hin,hfew⟩
  · cases h

theorem inspect_inv (busy : Bool) (hi : Inv s) (h : inspect s j busy = some s') : Inv s' := by
  unfold inspect at h
  split at h
  · rename_i e hp
    have hj := ticked s j hi (by simp [hp])
    have hr := hi.run j
    rw [hp] at hr
    obtain ⟨hin,hfree⟩ := hr
    have hout := refuse_inv s j e hi hj hin
    cases hc : (s.entries e).cell with
    | ready c =>
      rw [hc] at h
      cases busy with
      | true =>
        cases h
        exact hout
      | false =>
        cases h
        exact run_inv s j (.owners e) hi hj ⟨hin,hfree,c,hc⟩
    | running k =>
      -- the load that initializes would hold a clone
      exact absurd (by rw [hi.runner k e hc]; rfl) (hfree k)
    | empty =>
      rw [hc] at h
      cases h
      exact empty_inv (unlock (setRun s j (.leave e))) e hout hin.2.1 rfl (.inr ⟨hc,hfree⟩)
  · cases h

theorem owners_inv (tasks : ℕ) (hi : Inv s) (h : owners s j tasks = some s') : Inv s' := by
  unfold owners at h
  split at h
  · rename_i e hp
    have hj := ticked s j hi (by simp [hp])
    have hr := hi.run j
    rw [hp] at hr
    by_cases hc : spaceCount s e tasks > 1
    · rw [if_pos hc] at h
      cases h
      exact refuse_inv s j e hi hj hr.1
    · rw [if_neg hc] at h
      cases h
      exact run_inv s j (.mark e) hi hj ⟨hr.1,hr.2.1,hr.2.2,few_owners s e tasks hi hc⟩
  · cases h

theorem mark_inv (hi : Inv s) (h : mark s j = some s') : Inv s' := by
  unfold mark at h
  split at h
  · rename_i e hp
    have hj := ticked s j hi (by simp [hp])
    have hr := hi.run j
    rw [hp] at hr
    obtain ⟨hin,hfree,⟨c,hc⟩,hspace⟩ := hr
    have hunused : ¬Used s e := by
      rintro ⟨i,hu | hu | hu⟩
      · exact hfree i (by rw [hu]; rfl)
      · exact hfree i (by rw [hu]; rfl)
      · exact hspace i hu
    have hset := shut_inv (unlock (setRun s j (.leave e))) e c c
      { s.entries e with closing := true } (refuse_inv s j e hi hj hin) (hi.slot_known e hin.2.1)
      hc hunused (by rintro k ⟨hk,_⟩; cases hk) hc id rfl
    have hgo := run_inv _ j (.close e) hset hj (by rw [RunOk, entry_at, if_pos rfl])
    cases h
    have heq : setRun (setEntry (unlock (setRun s j (.leave e))) e
        { s.entries e with closing := true }) j (.close e) =
        unlock (setRun (setEntry s e { s.entries e with closing := true }) j (.close e)) := by
      simp [setRun, setEntry, unlock]
    exact heq ▸ hgo
  · cases h

theorem close_inv (hi : Inv s) (h : close s j = some s') : Inv s' := by
  unfold close at h
  split at h
  · rename_i e hp
    have hj := ticked s j hi (by simp [hp])
    have hf := hi.run j
    rw [hp] at hf
    obtain ⟨c,hc⟩ := hi.closing e hf
    obtain ⟨hu,hout,he⟩ := closing_quiet s e hi hf
    rw [hc] at h
    cases h
    have hset := shut_inv s e c c { s.entries e with begun := true } hi he hc hu hout hc id hf
    exact run_inv _ j (.closing e) hset hj (by rw [RunOk, entry_at, if_pos rfl]; exact hf)
  · cases h

theorem closed_inv (ok : Bool) (hi : Inv s) (h : closed s j ok = some s') : Inv s' := by
  unfold closed at h
  split at h
  · rename_i e hp
    have hj := ticked s j hi (by simp [hp])
    have hf := hi.run j
    rw [hp] at hf
    cases ok with
    | true =>
      cases h
      obtain ⟨c,hc⟩ := hi.closing e hf
      obtain ⟨hu,hout,he⟩ := closing_quiet s e hi hf
      have hset := shut_inv s e c true { s.entries e with cell := .ready true } hi he hc hu hout
        rfl (fun _ => rfl) hf
      exact run_inv _ j (.remove e) hset hj (by rw [RunOk, entry_at, if_pos rfl])
    | false =>
      cases h
      exact run_inv s j (.leave e) hi hj trivial
  · cases h

theorem remove_inv (hi : Inv s) (h : remove s j = some s') : Inv s' := by
  unfold remove at h
  split at h
  · rename_i e hp hl
    have hr := hi.run j
    rw [hp] at hr
    have hout := run_inv s j (.leave e) hi (ticked s j hi (by simp [hp])) trivial
    by_cases hs : s.slot = some e
    · rw [if_pos hs] at h
      cases h
      exact empty_inv (setRun s j (.leave e)) e hout hs hl (.inl hr)
    · rw [if_neg hs] at h
      cases h
      exact hout
  · cases h

theorem leave_inv (hi : Inv s) (h : leave s j = some s') : Inv s' := by
  unfold leave at h
  split at h
  · rename_i e hp
    cases h
    exact run_inv s j .done hi (ticked s j hi (by simp [hp])) trivial
  · cases h

theorem cancelRun_inv (hi : Inv s) (h : cancelRun s j = some s') : Inv s' := by
  unfold cancelRun at h
  by_cases hno : s.lock = some j ∨ (s.runs j).phase = .done
  · rw [if_pos hno] at h
    cases h
  · rw [if_neg hno] at h
    cases h
    exact run_inv s j .done hi (ticked s j hi fun h => hno (.inr h)) trivial

end Runs

theorem step_inv (s s' : Registry) (a : Act) (hi : Inv s) (h : step s a = some s') : Inv s' := by
  cases a with
  | call t =>
    cases h
    exact call_inv s t hi
  | lookup i => exact lookup_inv s i s' hi h
  | insert i now => exact insert_inv s i s' now hi h
  | check i => exact check_inv s i s' hi h
  | enter i => exact enter_inv s i s' hi h
  | connect i ok => exact connected_inv s i s' ok hi h
  | touch i now => exact touch_inv s i s' now hi h
  | discover i ok => exact discover_inv s i s' ok hi h
  | release i => exact release_inv s i s' hi h
  | cancelLoad i => exact cancelLoad_inv s i s' hi h
  | tick now timeout => exact tick_inv s s' now timeout hi h
  | lock j => exact lock_inv s j s' hi h
  | count j => exact count_inv s j s' hi h
  | inspect j busy => exact inspect_inv s j s' busy hi h
  | owners j tasks => exact owners_inv s j s' tasks hi h
  | mark j => exact mark_inv s j s' hi h
  | close j => exact close_inv s j s' hi h
  | closed j ok => exact closed_inv s j s' ok hi h
  | remove j => exact remove_inv s j s' hi h
  | leave j => exact leave_inv s j s' hi h
  | cancelRun j => exact cancelRun_inv s j s' hi h

theorem reached_inv (s : Registry) (h : Reached s) : Inv s := by
  induction h with
  | init => exact init_inv
  | step s s' a _ hs ih => exact step_inv s s' a ih hs

/-- In every state that loads and evictions can lead to, a close that begins finds no load
that has passed its check and no handle, a load returns no Space whose close has begun,
and of the Spaces of the id at most one is initialized or being initialized and not closed. -/
theorem evictions_spare_users (s : Registry) (h : Reached s) :
    (∀ j s', step s (.close j) = some s' → ∀ e, (s'.runs j).phase = .closing e → ¬Used s e) ∧
    (∀ e, (s.entries e).begun = true → ¬Used s e) ∧
    (∀ i s', step s (.discover i true) = some s' → ∀ e, (s'.loads i).phase = .held e →
      (s'.entries e).begun = false) ∧
    ∀ e e', Alive s e → Alive s e' → e = e' := by
  have hi := reached_inv s h
  have hbegun : ∀ t : Registry, Inv t → ∀ e, (t.entries e).begun = true → ¬Used t e :=
    fun t ht e he => (closing_quiet t e ht (ht.shut e (.inr he))).1
  refine ⟨fun j s' hs e he hu => ?_,hbegun s hi,fun i s' hs e he => ?_,fun e e' he he' => ?_⟩
  · change close s j = some s' at hs
    unfold close at hs
    split at hs
    · rename_i e₀ hp
      have hf := hi.run j
      rw [hp] at hf
      obtain ⟨c,hc⟩ := hi.closing e₀ hf
      rw [hc] at hs
      cases hs
      rw [run_phase, if_pos rfl] at he
      cases he
      exact (closing_quiet s e hi hf).1 hu
    · cases hs
  · have hi' := step_inv s s' _ hi hs
    by_contra hb
    exact hbegun s' hi' e (by simpa using hb) ⟨i,.inr (.inr (by rw [he]; rfl))⟩
  · have hslot := alive_slot s e hi he
    rw [alive_slot s e' hi he'] at hslot
    exact (Option.some.inj hslot).symm

/-- A Space is opened, held and let go of; a run that comes by after the idle time still
meets a second load, the next one does not. -/
def idleSpace : List Act :=
  [.call true,.lookup 0,.insert 0 1000,.check 0,.enter 0,.connect 0 true,.touch 0 1000,
    .discover 0 true,.call true,.lookup 1,.release 0,.tick 700000 540000,.lock 0,.count 0,
    .leave 0,.check 1,.cancelLoad 1,.tick 700000 540000,.lock 1,.count 1,.inspect 1 false,
    .owners 1 0,.mark 1]

theorem idle_space_closes : ∃ s s', Reached s ∧ step s (.close 1) = some s' ∧
    (s'.runs 1).phase = .closing 0 ∧ ¬Used s 0 := by
  have hrun := (Option.some_get (show (run .init idleSpace).isSome by rfl)).symm
  have hstep := (Option.some_get (show (step ((run .init idleSpace).get rfl) (.close 1)).isSome
    by rfl)).symm
  have hreach := run_reached idleSpace _ _ .init hrun
  exact ⟨_,_,hreach,hstep,rfl,(evictions_spare_users _ hreach).1 1 _ hstep 0 rfl⟩

end AndaBrain.SpaceEviction
