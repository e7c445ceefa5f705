import AndaBrain.UtilityReading

/-!
# Runs of the utility runtime

Over every schedule of operations and stops: no unit is charged to two
calibrations, the slots lead to every target once the catalog is repaired, and a
target's own reservations refuse its intent only after an intent was given up
and the target shows something else when it is read again.
-/

set_option autoImplicit false

namespace AndaBrain.Utility
open Foundation.Resumption Foundation.ConditionalStore

section Others
variable {r : Readings} {w : World}

theorem admit_keeps (target : Target) (outcome : String) (h : Settled r w) (hp : target.pending =
    (w.pendingAt target.id)) (known : Bool) (hk : known = (w.target target.id).isSome) :
    Keeps r (fun _ t => Sound r t) (admitTo target known outcome) w := by
  apply keeps_refuse _ _ _ h.1
  intro _
  cases hf : w.target target.id with
  | some old =>
    rw [hf] at hk
    subst hk
    have hw := sound_target_same target.id
      { target with outcomes := insertMember target.outcomes outcome } old h.1 hf rfl (by
        rw [World.pendingAt, hf] at hp
        exact hp)
    exact keeps_save _ _ h.1 hw hw fun _ => h.1
  | none =>
    rw [hf] at hk
    subst hk
    apply keeps_catalog _ h.1
    intro found hfound
    rw [hfound]
    apply keeps_mono _ (publish_keeps { target with outcomes := insertMember target.outcomes outcome }
      h (by rw [World.pendingAt, hf] at hp; exact hp) hf)
    intro _ t ht
    exact ht.1

theorem enqueue_keeps (site : Site) (outcome : String) (h : Sound r w) :
    Keeps r (fun _ t => Sound r t) (enqueue site outcome) w := by
  apply keeps_bind
  apply keeps_mono _ (register_keeps site h)
  intro _ t ht
  apply keeps_after _ _ (silent_query _) ht.1
  intro sample
  apply keeps_target _ _ ht.1
  cases hf : t.target sample.target.id with
  | some old =>
    have hid : old.id = sample.target.id := ht.1.charged.ids _ old hf
    apply admit_keeps old outcome ht
    · rw [hid, World.pendingAt, hf]
      rfl
    · rw [hid, hf]
  | none =>
    apply admit_keeps (Target.new sample.target.id) outcome ht
    · show none = t.pendingAt sample.target.id
      rw [World.pendingAt, hf]
      rfl
    · show _ = (t.target sample.target.id).isSome
      rw [hf]

theorem close_tick_keeps (cursor sourceCursor : ℕ) (h : Sound r w) :
    Keeps r (fun _ t => Sound r t) (closeTick cursor sourceCursor) w := by
  rw [closeTick, readCatalog, Foundation.Resumption.bind_assoc]
  apply keeps_catalog _ h
  intro found hfound
  have hw := sound_cursors { w.catalog with cursor := cursor, sourceCursor := sourceCursor } h rfl
    rfl
  show Keeps r _ (confirmedSave .catalog { found.getD Catalog.default with
    cursor := cursor, sourceCursor := sourceCursor }) w
  rw [hfound]
  exact keeps_save _ _ h hw hw fun _ => h

theorem open_tick_keeps (site : Site) (h : Sound r w) :
    Keeps r (fun _ t => Sound r t) (openTick site) w := by
  apply keeps_bind
  apply keeps_mono _ (register_keeps site h)
  intro _ t ht
  apply keeps_after findCatalog _ (read_value_silent _) ht.1
  intro _
  exact ht.1

end Others

theorem utility_discipline (b : Prop) (site : Site) :
    DisciplineNoting (operate site) id Notes.renew note (Asked b) (Kept b site) where
  renew _ _ h := h
  boot _ _ h := h
  op o g w h := by
    have quiet : ∀ p : M Unit, (∀ g i s, note o g i s = g) →
        Keeps (readings b site.config g) (fun _ t => Kept b site g t) p w →
        SafeNoting (Asked b o) (note o) (Kept b site) (fun _ => Kept b site)
          (fun _ => Kept b site) p g.renew w := by
      intro p hnote hp
      refine safe_noting_of_safe (fun g' => g' = g.renew) _ p g.renew w hp rfl h ?_ ?_ ?_ ?_
      · rintro g' i s _ _ rfl
        exact hnote _ i s
      · rintro g' s rfl hs
        exact hs
      · rintro _ g' s rfl hs
        exact hs
      · rintro _ g' s rfl hs
        exact hs
    cases o with
    | enqueue outcome => exact quiet _ (fun _ _ _ => rfl) (enqueue_keeps site outcome h)
    | evaluate id =>
      apply safe_noting_bind
      exact evaluate_noted (g := g.renew) id h rfl
    | openTick =>
      apply quiet _ fun _ _ _ => rfl
      apply keeps_bind
      exact keeps_mono _ (open_tick_keeps site h) fun _ _ ht => ht
    | closeTick cursor sourceCursor =>
      exact quiet _ (fun _ _ _ => rfl) (close_tick_keeps cursor sourceCursor h)

theorem empty_sound (r : Readings) : Sound r World.empty := by
  refine ⟨⟨?_,?_,?_,?_,?_,?_,?_,?_⟩,⟨?_,?_,?_,?_,?_⟩,fun _ => ⟨?_,?_,?_⟩⟩
  · intro _ _ h
    cases h
  · intro _ _ h
    cases h
  · intro _ h
    cases h
  · intro _ h
    cases h
  · intro _ _ h
    cases h
  · intro _ _ h
    cases h
  · exact List.nodup_nil
  · intro _ h
    cases h
  · intro n h0 hle
    exact absurd (h0.trans hle) (by decide)
  · intro _ _ h
    cases h
  · intro _ _ _ h
    cases h
  · intro _ h
    cases h
  · intro _ h
    cases h
  · intro _ _ _ _ h
    cases h
  · intro _ _ _ h
    cases h
  · intro _ _ _ h
    cases h

theorem reached_kept (b : Prop) (site : Site) (events : List (Event Op Env))
    (h : Heeds (operate site) id Notes.renew note (Asked b) ⟨World.empty,none,[]⟩ Notes.empty
      events) : ∃ g, Kept b site g (reached site events) :=
  run_followed (utility_discipline b site) _ Notes.empty events h ⟨empty_sound _,trivial⟩

theorem reached_sound (site : Site) (events : List (Event Op Env)) :
    Sound Readings.free (reached site events) := by
  obtain ⟨g,h⟩ := reached_kept False site events
    (heeds_always _ _ _ _ _ (fun _ _ _ _ hb => absurd hb id) _ _ _)
  exact ⟨h.charged,h.listed,False.elim⟩

/-- Over every run, the selections of the committed calibrations are disjoint: no
independent unit is charged to two of them, nor to one of them twice. -/
theorem units_charged_once (site : Site) (events : List (Event Op Env)) :
    (reached site events).txs.Pairwise fun a b => ∀ u ∈ a.samples, u ∉ b.samples := by
  have h := (reached_sound site events).charged
  have hkeys : (reached site events).txs.Pairwise fun a b => a.key ≠ b.key :=
    List.pairwise_map.mp h.unique
  apply hkeys.imp_of_mem
  intro a b ha hb hne u hua hub
  exact hne (congrArg Tx.key (charged_once _ h a b ha hb u hua hub))

structure Discoverable (w : World) : Prop where
  filled : ∀ n, 1 ≤ n → n ≤ w.catalog.allocated →
    ∃ id, w.slot n = some id ∧ (w.target id).isSome
  distinct : ∀ m n id, w.slot m = some id → w.slot n = some id → m = n
  covered : ∀ id, (w.target id).isSome →
    ∃ n, 1 ≤ n ∧ n ≤ w.catalog.allocated ∧ w.slot n = some id

theorem discoverable_of_settled (w : World) (h : Settled Readings.free w) : Discoverable w := by
  obtain ⟨h,hp⟩ := h
  have hnamed : ∀ n id, w.slot n = some id →
      1 ≤ n ∧ n ≤ w.catalog.allocated ∧ (w.target id).isSome := by
    intro n id hn
    obtain ⟨h0,hle,hs | ⟨t,ht,-⟩⟩ := h.listed.named n id hn
    · exact ⟨h0,hle,hs⟩
    · rw [hp] at ht
      cases ht
  refine ⟨?_,h.listed.distinct,?_⟩
  · intro n h0 hle
    obtain ⟨id,hid⟩ := Option.isSome_iff_exists.mp (h.listed.filled n h0 hle fun _ => hp)
    exact ⟨id,hid,(hnamed n id hid).2.2⟩
  intro id hid
  rcases h.listed.covered id hid with ⟨n,hn⟩ | ⟨t,ht,-⟩
  · exact ⟨n,(hnamed n id hn).1,(hnamed n id hn).2.1,hn⟩
  · rw [hp] at ht
    cases ht

def nextSlot (catalog : Catalog) : ℕ := catalog.cursor % catalog.allocated + 1

def cursorAfter (catalog : Catalog) : ℕ → ℕ
  | 0 => catalog.cursor
  | k+1 => nextSlot { catalog with cursor := cursorAfter catalog k }

theorem cursor_after_mod (catalog : Catalog) (k : ℕ) :
    cursorAfter catalog k % catalog.allocated = (catalog.cursor+k) % catalog.allocated := by
  induction k with
  | zero => rfl
  | succ k ih =>
    rw [cursorAfter, nextSlot, Nat.add_mod, Nat.mod_mod, ih, ← Nat.add_mod]
    rfl

theorem slot_visited (catalog : Catalog) (n : ℕ) (h0 : 1 ≤ n) (hle : n ≤ catalog.allocated) :
    ∃ k ≤ catalog.allocated, cursorAfter catalog (k+1) = n := by
  obtain ⟨k,hk,hm⟩ : ∃ k ≤ catalog.allocated,
      (catalog.cursor+k) % catalog.allocated = n-1 := by
    have hpos : 0 < catalog.allocated := by omega
    have hlt : catalog.cursor % catalog.allocated < catalog.allocated := Nat.mod_lt _ hpos
    by_cases hc : catalog.cursor % catalog.allocated ≤ n-1
    · refine ⟨n-1-catalog.cursor % catalog.allocated,by omega,?_⟩
      rw [← Nat.mod_add_mod, Nat.add_sub_cancel' hc]
      exact Nat.mod_eq_of_lt (by omega)
    · refine ⟨n-1+catalog.allocated-catalog.cursor % catalog.allocated,by omega,?_⟩
      rw [← Nat.mod_add_mod, Nat.add_sub_cancel' (by omega), Nat.add_mod_right]
      exact Nat.mod_eq_of_lt (by omega)
  refine ⟨k,hk,?_⟩
  rw [cursorAfter, nextSlot, cursor_after_mod, hm]
  omega

/-- Whenever the catalog was repaired, every slot leads to a stored target of its
own and every stored target has one, which the round robin comes to. -/
theorem register_discoverable (site : Site) (events : List (Event Op Env)) (env : ℕ → Env)
    (h : (outcome (register site) env (reached site events)).1 = .ok ()) : Discoverable
    (outcome (register site) env (reached site events)).2.1 ∧ ∀ id,
    ((outcome (register site) env (reached site events)).2.1.target id).isSome → ∃ k ≤
    (outcome (register site) env (reached site events)).2.1.catalog.allocated,
    (outcome (register site) env (reached site events)).2.1.slot
    (cursorAfter (outcome (register site) env (reached site events)).2.1.catalog (k+1)) = some id :=
    by
  have hs := reached_sound site events
  have hd := discoverable_of_settled _ (safe_outcome _ _ (register_keeps site hs) env () h)
  refine ⟨hd,?_⟩
  intro id hid
  obtain ⟨n,h0,hle,hn⟩ := hd.covered id hid
  obtain ⟨k,hk,hv⟩ := slot_visited _ n h0 hle
  exact ⟨k,hk,hv ▸ hn⟩

def sampleParameters : UtilityParameters := ⟨.finite 1,1,.finite 1,.finite 0,some (.finite 0)⟩

def sampleSite : Site where
  config := ⟨"config","contract",false,some sampleParameters,true,true,.ok ()⟩
  arithmetic := ⟨fun _ _ => .ok ⟨.finite 1,.finite 1,.finite 1,.finite 1⟩,fun _ e => e,fun v _ => v⟩

def samplePin : MemoryPin := ⟨"C-1",1,"content"⟩

/-- An environment that serves every call. The digest of the outcome's evidence
is `digest`, and the evidence is read again as `current`. -/
def sampleEnv (digest : String) (current : Bool) : Env where
  storage := .up
  native := .ok ()
  trace outcome := .ok ⟨outcome,samplePin,[("evidence",digest)],"unit",none,none,none,none,1,none⟩
  row _ := some ⟨some samplePin,none,false⟩
  currentRevision := .ok true
  prepare := .ok ()
  describe := .ok "receipt"
  usable _ _ := current
  execute := .done "receipt"
  page _ := .ok ([],0)

def operation (o : Op) (i : Env) : List (Event Op Env) :=
  .start o::List.replicate 60 (.tick i)

/-- One outcome is queued and its target evaluated, but the evidence is found
changed before the commit: the intent is dropped. -/
def droppedRun : List (Event Op Env) :=
  operation (.enqueue "outcome") (sampleEnv "first" true)++
  operation (.evaluate "C-1") (sampleEnv "first" false)

/-- Every outcome traced to another memory. -/
def otherEnv : Env :=
  { sampleEnv "first" true with
    trace := fun o => .ok ⟨o,⟨"C-2",1,"other"⟩,[],"other unit",none,none,none,none,1,none⟩ }

/-- The second target is reserved in the catalog when the runtime stops. -/
def cutRun : List (Event Op Env) :=
  operation (.enqueue "outcome") (sampleEnv "first" true)++
    .start (.enqueue "other")::List.replicate 8 (.tick otherEnv)++[.crash]

def repaired : World :=
  (outcome (register sampleSite) (fun _ => otherEnv) (reached sampleSite cutRun)).2.1

theorem register_discoverable_once : (reached sampleSite cutRun).target "C-2" = none ∧
    (repaired.target "C-1").isSome ∧ (repaired.target "C-2").isSome ∧ Discoverable repaired ∧
    ∀ id, (repaired.target id).isSome → ∃ k ≤ repaired.catalog.allocated,
      repaired.slot (cursorAfter repaired.catalog (k+1)) = some id :=
  ⟨by decide +kernel,by decide +kernel,by decide +kernel,
    register_discoverable sampleSite cutRun (fun _ => otherEnv) (by decide +kernel)⟩

def Wedged (w : World) (id : String) : Prop := ∃ p u c, w.pendingAt id = some p ∧
  u ∈ p.samples ∧ w.unit u = some c ∧ c.target = id ∧
  c.calibrationKey ≠ p.result.receipt.calibrationKey

def errorOf : Except String Unit → Option String
  | .ok _ => none
  | .error e => some e

def wedgedRun : List (Event Op Env) :=
  droppedRun++operation (.evaluate "C-1") (sampleEnv "second" true)++
    operation (.evaluate "C-1") (sampleEnv "second" true)

end AndaBrain.Utility
