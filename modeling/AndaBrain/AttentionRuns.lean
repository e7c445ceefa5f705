import AndaBrain.AttentionSteps
import AndaBrain.AttentionProgress

/-!
# Runs of an attention directory

Registrations, edits and passes of any Spaces interleave; every operation may stop after any of
its writes, and a pass that has begun may never end.
-/

set_option autoImplicit false

namespace AndaBrain.Attention

/-- A pass that ended: its Space, the generation it began under and what it met. -/
structure PassRecord where
  id : String
  generation : ℕ
  trace : Trace

structure Machine where
  store : Store
  flights : List Entry
  passes : List PassRecord

def Machine.start : Machine := ⟨.empty,[],[]⟩

inductive Act where
  | register (id : String) (native : AttentionConfig) (enabled : Bool) (puts : Host.RegisterPuts)
  | edit (id : String) (change : Host.Change) (answer : Put)
  | begin (id : String)
  | scan (flight : ℕ) (answers : ScanAnswers) (failedMs : ℕ) (answer : Put)
  | unloaded (flight : ℕ) (nowMs : ℕ) (error : String) (answer : Put)
  | lose (flight : ℕ)

section Machine
variable (host : Host) (policy : AttentionPolicy) (adapters : Adapters)

def Machine.step (m : Machine) : Act → Machine
  | .register id native enabled puts =>
    { m with store := (host.register m.store id native enabled puts).1 }
  | .edit id change answer => { m with store := (host.edit m.store id change answer).1 }
  | .begin id =>
    match host.entry m.store id with
    | .ok (some e) => { m with flights := m.flights++[e] }
    | _ => m
  | .scan flight answers failedMs answer =>
    match m.flights[flight]? with
    | none => m
    | some e =>
      let pass := scanned policy adapters answers failedMs e
      { store := (host.finish m.store pass.1 answer).1
        flights := m.flights.eraseIdx flight
        passes := m.passes++[⟨e.id,e.dirty,pass.2⟩] }
  | .unloaded flight nowMs error answer =>
    match m.flights[flight]? with
    | none => m
    | some e =>
      { m with
        store := (host.finish m.store (unloaded policy e nowMs error) answer).1
        flights := m.flights.eraseIdx flight }
  | .lose flight => { m with flights := m.flights.eraseIdx flight }

def Machine.run (m : Machine) (acts : List Act) : Machine :=
  acts.foldl (Machine.step host policy adapters) m

end Machine

/-- What the passes of a Space under one generation met, in the order in which they ended. -/
def tracesOf (passes : List PassRecord) (id : String) (generation : ℕ) : List Trace :=
  (passes.filter fun p => p.id == id && p.generation == generation).map PassRecord.trace

theorem traces_append (passes more : List PassRecord) (id : String) (generation : ℕ) :
    (tracesOf passes id generation).Sublist (tracesOf (passes++more) id generation) := by
  unfold tracesOf
  rw [List.filter_append, List.map_append]
  exact List.sublist_append_left _ _

theorem traces_snoc (passes : List PassRecord) (id : String) (generation : ℕ) (t : Trace) :
    tracesOf (passes++[⟨id,generation,t⟩]) id generation = tracesOf passes id generation++[t] := by
  unfold tracesOf
  rw [List.filter_append, List.map_append]
  simp

/-- The passes have walked every page to its end, and the time is not after any due time
they met, give or take a slack for the Watches that are advanced and for pending wakes. -/
structure Met (policy : AttentionPolicy) (slack : ℕ) (ps : List Trace) (nextCheckMs : ℕ) : Prop where
  runnable : ∃ walks, walks.Sublist (ps.filterMap Trace.runnable) ∧ ToEnd policy.watchesPerSpace walks
  armed : ∃ walks, walks.Sublist (ps.filterMap Trace.armed) ∧ ToEnd policy.watchesPerSpace walks
  wakes : ∃ pages, pages.Sublist (ps.filterMap Trace.listed) ∧ ListedToEnd pages ∧
    ∀ l ∈ pages, ∀ reference ∈ l.page.items, ∃ t ∈ ps, ∃ h ∈ t.handled, h.reference = reference
  rechecks : ∀ t ∈ ps, ∀ due ∈ t.rechecks, nextCheckMs ≤ due
  armedDue : ∀ t ∈ ps, ∀ due ∈ t.armedDue, t.nowMs < due → nextCheckMs ≤ due
  runnableDue : ∀ t ∈ ps, ∀ due ∈ t.runnableDue, t.nowMs < due → nextCheckMs ≤ max due (t.nowMs+slack)
  pending : ∀ t ∈ ps, ∀ h ∈ t.handled, ∀ notBeforeMs, h.wake.state = .pending notBeforeMs →
    h.nowMs < notBeforeMs → nextCheckMs ≤ max notBeforeMs (h.nowMs+slack)

def Reconciled (policy : AttentionPolicy) (slack : ℕ) (passes : List PassRecord) (e : Entry) : Prop :=
  ∃ ps, ps.Sublist (tracesOf passes e.id e.reconciled) ∧ Met policy slack ps e.registration.nextCheckMs

section Runs
variable (host : Host) (policy : AttentionPolicy) (adapters : Adapters)

def Stands (passes : List PassRecord) (e : Entry) : Prop :=
  e.checkpoint.generation = e.dirty →
    ∃ ps, ps.Sublist (tracesOf passes e.id e.dirty) ∧ Progress policy e.checkpoint ps

structure Fine (passes : List PassRecord) (allocated : ℕ) (key : String) (e : Entry) : Prop where
  home : host.digest e.id = key
  slot : e.slot ≤ allocated
  order : e.reconciled ≤ e.dirty
  behind : e.checkpoint.generation ≤ e.dirty
  stands : Stands policy passes e

structure Machine.Sound (m : Machine) : Prop where
  fine : ∀ key e, m.store.entries key = some e → Fine host policy m.passes m.store.allocated key e
  distinct : ∀ key key' e e', m.store.entries key = some e → m.store.entries key' = some e' →
    e.slot = e'.slot → key = key'
  flights : ∀ e ∈ m.flights, ∃ old, m.store.entries (host.digest e.id) = some old ∧ old.id = e.id ∧
    e.version ≤ old.version ∧ (e.version = old.version → e = old)

structure Follows (passes : List PassRecord) (a b : Entry) : Prop where
  id : b.id = a.id
  slot : b.slot = a.slot
  version : b = a ∨ a.version < b.version
  dirty : a.dirty ≤ b.dirty
  reconciled : a.reconciled ≤ b.reconciled
  acknowledged : a.reconciled ≠ b.reconciled → Reconciled policy policy.tickMs passes b

theorem follows_same (passes : List PassRecord) (a : Entry) : Follows policy passes a a :=
  ⟨rfl,rfl,.inl rfl,le_refl _,le_refl _,fun h => absurd rfl h⟩

variable {host policy} {passes : List PassRecord} {m : Machine}

theorem fine_more {allocated allocated' : ℕ} {key : String} {e : Entry} (h : Fine host policy passes allocated key e)
    (more : List PassRecord) (hle : allocated ≤ allocated') :
    Fine host policy (passes++more) allocated' key e where
  home := h.home
  slot := h.slot.trans hle
  order := h.order
  behind := h.behind
  stands hg := by
    obtain ⟨ps,hsub,hp⟩ := h.stands hg
    exact ⟨ps,hsub.trans (traces_append passes more _ _),hp⟩

theorem sound_write (h : m.Sound host policy) (st : Store) (flights : List Entry) (more : List PassRecord)
    (key : String) (old new : Entry) (hold : m.store.entries key = some old)
    (hentries : st.entries = Function.update m.store.entries key (some new))
    (halloc : m.store.allocated ≤ st.allocated)
    (hnew : Fine host policy (m.passes++more) st.allocated key new) (hslot : new.slot = old.slot)
    (hid : new.id = old.id) (hversion : old.version < new.version)
    (hflights : ∀ e ∈ flights, e ∈ m.flights) :
    Machine.Sound host policy ⟨st,flights,m.passes++more⟩ := by
  have hself : st.entries key = some new := by rw [hentries, Function.update_self]
  have hother : ∀ k, k ≠ key → st.entries k = m.store.entries k := by
    intro k hk
    rw [hentries, Function.update_of_ne hk]
  -- The slots are those of the entries before the write.
  have hslots : ∀ k e, st.entries k = some e → ∃ a, m.store.entries k = some a ∧ a.slot = e.slot := by
    intro k e he
    by_cases hk : k = key
    · subst hk
      rw [hself] at he
      cases he
      exact ⟨old,hold,hslot.symm⟩
    · rw [hother k hk] at he
      exact ⟨e,he,rfl⟩
  constructor
  · intro k e he
    by_cases hk : k = key
    · subst hk
      have heq : new = e := Option.some.inj (hself.symm.trans he)
      rw [← heq]
      exact hnew
    · exact fine_more (h.fine k e ((hother k hk).symm.trans he)) more halloc
  · intro k k' e e' he he' hs
    obtain ⟨a,ha,has⟩ := hslots k e he
    obtain ⟨a',ha',has'⟩ := hslots k' e' he'
    exact h.distinct k k' a a' ha ha' (has.trans (hs.trans has'.symm))
  · intro e he
    obtain ⟨a,ha,haid,hle,heq⟩ := h.flights e (hflights e he)
    by_cases hk : host.digest e.id = key
    · rw [hk, hold] at ha
      cases ha
      refine ⟨new,by rw [hk]; exact hself,hid.trans haid,by omega,fun hv => ?_⟩
      omega
    · exact ⟨a,(hother _ hk).trans ha,haid,hle,heq⟩

theorem sound_idle (h : m.Sound host policy) (st : Store) (flights : List Entry) (more : List PassRecord)
    (hentries : st.entries = m.store.entries) (halloc : m.store.allocated ≤ st.allocated)
    (hflights : ∀ e ∈ flights, e ∈ m.flights) : Machine.Sound host policy ⟨st,flights,m.passes++more⟩ := by
  constructor
  · intro k e he
    exact fine_more (h.fine k e (hentries ▸ he)) more halloc
  · intro k k' e e' he he' hs
    exact h.distinct k k' e e' (hentries ▸ he) (hentries ▸ he') hs
  · intro e he
    obtain ⟨a,ha,hrest⟩ := h.flights e (hflights e he)
    exact ⟨a,hentries ▸ ha,hrest⟩

theorem sound_first (h : m.Sound host policy) (st : Store) (key : String) (new : Entry)
    (hnone : m.store.entries key = none)
    (hentries : st.entries = Function.update m.store.entries key (some new))
    (halloc : st.allocated = m.store.allocated+1) (hslot : new.slot = st.allocated)
    (hnew : Fine host policy m.passes st.allocated key new) :
    Machine.Sound host policy ⟨st,m.flights,m.passes⟩ := by
  have hself : st.entries key = some new := by rw [hentries, Function.update_self]
  have hother : ∀ k, k ≠ key → st.entries k = m.store.entries k := by
    intro k hk
    rw [hentries, Function.update_of_ne hk]
  have hfresh : ∀ k e, k ≠ key → st.entries k = some e → e.slot ≠ new.slot := by
    intro k e hk he
    have hle := (h.fine k e ((hother k hk).symm.trans he)).slot
    omega
  constructor
  · intro k e he
    by_cases hk : k = key
    · subst hk
      have heq : new = e := Option.some.inj (hself.symm.trans he)
      rw [← heq]
      exact hnew
    · have hmore := fine_more (h.fine k e ((hother k hk).symm.trans he)) [] (by omega : _ ≤ st.allocated)
      rwa [List.append_nil] at hmore
  · intro k k' e e' he he' hs
    by_cases hk : k = key <;> by_cases hk' : k' = key
    · rw [hk, hk']
    · have heq : new = e := by
        rw [hk] at he
        exact Option.some.inj (hself.symm.trans he)
      exact absurd (heq ▸ hs).symm (hfresh k' e' hk' he')
    · have heq : new = e' := by
        rw [hk'] at he'
        exact Option.some.inj (hself.symm.trans he')
      exact absurd (heq ▸ hs) (hfresh k e hk he)
    · exact h.distinct k k' e e' ((hother k hk).symm.trans he) ((hother k' hk').symm.trans he') hs
  · intro e he
    obtain ⟨a,ha,hrest⟩ := h.flights e he
    have hk : host.digest e.id ≠ key := by
      rintro rfl
      rw [hnone] at ha
      cases ha
    exact ⟨a,(hother _ hk).trans ha,hrest⟩

theorem met_of_progress {cp : Checkpoint} {ps : List Trace} {nextCheckMs : ℕ} (h : Progress policy cp ps)
    (hcomplete : cp.complete = true) (hnext : ∀ d, Kept cp.nextDueMs d → nextCheckMs ≤ d) :
    Met policy policy.tickMs ps nextCheckMs := by
  simp only [Checkpoint.complete, Bool.and_eq_true] at hcomplete
  obtain ⟨⟨hrunnable,harmed⟩,hwakes⟩ := hcomplete
  constructor
  · obtain ⟨walks,hsub,hend,-⟩ := h.runnable
    exact ⟨walks,hsub,hend hrunnable⟩
  · obtain ⟨walks,hsub,hend,-⟩ := h.armed
    exact ⟨walks,hsub,hend harmed⟩
  · obtain ⟨pages,hsub,hpos,hall⟩ := h.wakes
    cases hpos with
    | between _ hopen _ =>
      rw [hwakes] at hopen
      cases hopen
    | inside _ hinside =>
      obtain ⟨front,l,-,hopen,-⟩ := hinside
      rw [hwakes] at hopen
      cases hopen
    | ended hpending _ hlisted =>
      refine ⟨pages,hsub,hlisted,?_⟩
      intro l hl reference href
      rcases hall l hl reference href with hp | ⟨x,hx,hr⟩
      · rw [hpending] at hp
        exact absurd hp List.not_mem_nil
      · obtain ⟨t,ht,hxt⟩ := List.mem_flatMap.mp hx
        exact ⟨t,ht,x,hxt,hr⟩
  · exact fun t ht due hd => hnext due ((h.due t ht).rechecks due hd)
  · exact fun t ht due hd hlt => hnext due ((h.due t ht).armed due hd hlt)
  · intro t ht due hd _
    exact (hnext _ ((h.due t ht).runnable due hd)).trans (le_max_right _ _)
  · exact fun t ht x hx n hs hlt => hnext _ ((h.due t ht).pending x hx n hs hlt)

def Moves (policy : AttentionPolicy) (m m' : Machine) : Prop :=
  ∀ key a, m.store.entries key = some a → ∃ b, m'.store.entries key = some b ∧
    Follows policy m'.passes a b

theorem moves_write (st : Store) (flights : List Entry) (passes : List PassRecord) (key : String)
    (old new : Entry) (hold : m.store.entries key = some old)
    (hentries : st.entries = Function.update m.store.entries key (some new))
    (h : Follows policy passes old new) : Moves policy m ⟨st,flights,passes⟩ := by
  intro k a ha
  by_cases hk : k = key
  · subst hk
    rw [hold] at ha
    cases ha
    exact ⟨new,by show st.entries k = _; rw [hentries, Function.update_self],h⟩
  · refine ⟨a,?_,follows_same policy passes a⟩
    show st.entries k = _
    rw [hentries, Function.update_of_ne hk]
    exact ha

theorem moves_idle (st : Store) (flights : List Entry) (passes : List PassRecord)
    (hentries : st.entries = m.store.entries) : Moves policy m ⟨st,flights,passes⟩ := by
  intro k a ha
  exact ⟨a,by show st.entries k = _; rw [hentries]; exact ha,follows_same policy passes a⟩

theorem register_step (h : m.Sound host policy) (id : String) (native : AttentionConfig)
    (enabled : Bool) (puts : Host.RegisterPuts) : Machine.Sound host policy
    ⟨(host.register m.store id native enabled puts).1,m.flights,m.passes⟩ ∧ Moves policy m
    ⟨(host.register m.store id native enabled puts).1,m.flights,m.passes⟩ := by
  rcases register_cases host m.store id native enabled puts with ⟨hentries,halloc⟩ |
    ⟨old,version,dirty,hentry,-,hversion,hdirty,hentries,hroot⟩ | ⟨hentry,halloc,hentries⟩
  · have hsound := sound_idle h _ m.flights [] hentries halloc fun _ he => he
    rw [List.append_nil] at hsound
    exact ⟨hsound,moves_idle _ _ _ hentries⟩
  · obtain ⟨-,hold,-⟩ := (entry_iff host _ _ _).mp hentry
    have hid := entry_id host _ _ _ hentry
    have hfine := h.fine _ _ hold
    obtain ⟨rfl,-⟩ := next_ok hversion
    obtain ⟨rfl,-⟩ := next_ok hdirty
    have halloc : m.store.allocated = (host.register m.store id native enabled puts).1.allocated := by
      rw [Store.allocated, Store.allocated, hroot]
    have hle : old.reconciled ≤ old.dirty+1 := hfine.order.trans (Nat.le_succ _)
    have hnew : Fine host policy (m.passes++[])
        (host.register m.store id native enabled puts).1.allocated (host.digest id)
        (Host.renewed old native (old.version+1) (old.dirty+1)) :=
      ⟨hfine.home,halloc ▸ hfine.slot,hle,Nat.zero_le _,fun hg => absurd hg.symm (Nat.succ_ne_zero _)⟩
    have hsound := sound_write h _ m.flights [] (host.digest id) old _ hold hentries halloc.le hnew rfl
      rfl (Nat.lt_succ_self _) fun _ he => he
    rw [List.append_nil] at hsound
    exact ⟨hsound,moves_write _ _ _ _ _ _ hold hentries
      ⟨rfl,rfl,.inr (Nat.lt_succ_self _),Nat.le_succ _,le_refl _,fun hne => absurd rfl hne⟩⟩
  have hnone := entry_none host _ _ hentry
  have hsound := sound_first h _ _ _ hnone hentries halloc halloc.symm
    ⟨rfl,halloc.symm.le,Nat.zero_le _,Nat.zero_le _,fun hg => absurd hg (by decide : ¬0 = 1)⟩
  refine ⟨hsound,?_⟩
  intro k a ha
  have hk : k ≠ host.digest id := by
    rintro rfl
    rw [hnone] at ha
    cases ha
  refine ⟨a,?_,follows_same policy _ a⟩
  show (host.register m.store id native enabled puts).1.entries k = _
  rw [hentries, Function.update_of_ne hk]
  exact ha

theorem apply_same {change : Host.Change} {old e : Entry} (h : change.apply old = .ok e) :
    SameEntry old e ∧ e.checkpoint = old.checkpoint := by
  cases change with
  | enable enabled =>
    cases h
    exact ⟨⟨rfl,rfl,rfl,rfl,rfl⟩,rfl⟩
  | schedule recheck =>
    simp only [Host.Change.apply] at h
    split at h
    · cases h
      exact ⟨⟨rfl,rfl,rfl,rfl,rfl⟩,rfl⟩
    split at h
    · cases h
    · cases h
      exact ⟨⟨rfl,rfl,rfl,rfl,rfl⟩,rfl⟩
  | acknowledge key dueAtMs =>
    simp only [Host.Change.apply] at h
    split at h
    · cases h
      exact ⟨⟨rfl,rfl,rfl,rfl,rfl⟩,rfl⟩
    · cases h

theorem edit_step (h : m.Sound host policy) (id : String) (change : Host.Change) (answer : Put) :
    Machine.Sound host policy ⟨(host.edit m.store id change answer).1,m.flights,m.passes⟩ ∧ Moves
    policy m ⟨(host.edit m.store id change answer).1,m.flights,m.passes⟩ := by
  rcases edit_cases host m.store id change answer with hsame |
    ⟨old,e,version,dirty,hentry,happly,hversion,hdirty,hwrite⟩
  · rw [hsame]
    have hsound := sound_idle h m.store m.flights [] rfl (le_refl _) fun _ he => he
    rw [List.append_nil] at hsound
    exact ⟨hsound,moves_idle _ _ _ rfl⟩
  obtain ⟨-,hold,-⟩ := (entry_iff host _ _ _).mp hentry
  have hid := entry_id host _ _ _ hentry
  have hfine := h.fine _ _ hold
  obtain ⟨hs,hcp⟩ := apply_same happly
  obtain ⟨rfl,-⟩ := next_ok hversion
  obtain ⟨rfl,-⟩ := next_ok hdirty
  rw [hs.version, hs.dirty] at hwrite
  rw [hwrite]
  have hbehind := hfine.behind
  have hnewid : (Host.edited e (old.version+1) (old.dirty+1)).id = old.id := hs.id
  have hrec : (Host.edited e (old.version+1) (old.dirty+1)).reconciled = old.reconciled := hs.reconciled
  have hnew : Fine host policy (m.passes++[]) m.store.allocated (host.digest id)
      (Host.edited e (old.version+1) (old.dirty+1)) := by
    refine ⟨by rw [hnewid]; exact hfine.home,hs.slot.le.trans hfine.slot,?_,?_,?_⟩
    · rw [hrec]
      exact hfine.order.trans (Nat.le_succ _)
    · show e.checkpoint.generation ≤ old.dirty+1
      rw [hcp]
      omega
    intro hg
    have hgen : e.checkpoint.generation = old.dirty+1 := hg
    rw [hcp] at hgen
    omega
  have hsound := sound_write h (m.store.setEntry (host.digest id)
    (Host.edited e (old.version+1) (old.dirty+1))) m.flights [] (host.digest id) old _ hold rfl
    (le_refl _) hnew hs.slot hnewid (Nat.lt_succ_self _) fun _ he => he
  rw [List.append_nil] at hsound
  exact ⟨hsound,moves_write _ _ _ _ _ _ hold rfl ⟨hnewid,hs.slot,.inr (Nat.lt_succ_self _),
    Nat.le_succ _,hrec.ge,fun hne => absurd hrec.symm hne⟩⟩

theorem resumed_stands {e : Entry} (h : Stands policy passes e) :
    ∃ ps, ps.Sublist (tracesOf passes e.id e.dirty) ∧ Progress policy (resumed e) ps := by
  unfold resumed
  split
  · exact ⟨[],List.nil_sublist _,progress_fresh policy e.dirty⟩
  · next hgo =>
    push Not at hgo
    exact h hgo.1

structure HandsIn (policy : AttentionPolicy) (passes more : List PassRecord) (e e' : Entry) : Prop where
  same : SameEntry e e'
  behind : e.checkpoint.generation ≤ e.dirty → e'.checkpoint.generation ≤ e.dirty
  stands : Stands policy passes e → Stands policy (passes++more) e'
  complete : Stands policy passes e → e'.lastReport.scanComplete = true →
    ∃ ps, ps.Sublist (tracesOf (passes++more) e.id e.dirty) ∧
      Met policy policy.tickMs ps e'.registration.nextCheckMs

theorem hands_in_scan (adapters : Adapters) (answers : ScanAnswers) (failedMs : ℕ) (e : Entry) :
    HandsIn policy passes [⟨e.id,e.dirty,(scanned policy adapters answers failedMs e).2⟩] e
    (scanned policy adapters answers failedMs e).1 := by
  obtain ⟨hsame,hcase⟩ := scanned_spec policy adapters answers e failedMs
  generalize (scanned policy adapters answers failedMs e).1 = e' at hsame hcase
  generalize (scanned policy adapters answers failedMs e).2 = t at hcase ⊢
  have more : Walked policy e e' t e'.lastReport.scanComplete → Stands policy passes e →
      ∃ ps, ps.Sublist (tracesOf (passes++[⟨e.id,e.dirty,t⟩]) e.id e.dirty) ∧
        Progress policy e'.checkpoint ps := by
    intro hwalked hstands
    obtain ⟨ps,hsub,hps⟩ := resumed_stands hstands
    refine ⟨ps++[t],?_,hwalked.progress ps hps⟩
    rw [traces_snoc]
    exact hsub.append (List.Sublist.refl [t])
  refine ⟨hsame,?_,?_,?_⟩
  · intro hle
    rcases hcase with ⟨hcp,-⟩ | hwalked
    · rw [hcp]
      exact hle
    · exact hwalked.generation.le
  · intro hstands hg
    rw [hsame.dirty] at hg
    rw [hsame.id, hsame.dirty]
    rcases hcase with ⟨hcp,-⟩ | hwalked
    · rw [hcp] at hg ⊢
      obtain ⟨ps,hsub,hps⟩ := hstands hg
      exact ⟨ps,hsub.trans (traces_append passes _ _ _),hps⟩
    · exact more hwalked hstands
  · intro hstands hcomplete
    rcases hcase with ⟨-,hopen⟩ | hwalked
    · rw [hcomplete] at hopen
      cases hopen
    · obtain ⟨ps,hsub,hps⟩ := more hwalked hstands
      obtain ⟨hdone,hnext⟩ := hwalked.finished hcomplete
      exact ⟨ps,hsub,met_of_progress hps hdone hnext⟩

theorem hands_in_unloaded (e : Entry) (nowMs : ℕ) (error : String) :
    HandsIn policy passes [] e (unloaded policy e nowMs error) where
  same := ⟨rfl,rfl,rfl,rfl,rfl⟩
  behind h := h
  stands h := by
    rw [List.append_nil]
    exact h
  complete _ h := absurd h Bool.false_ne_true

theorem finish_step (h : m.Sound host policy) (e e' : Entry) (he : e ∈ m.flights)
    (more : List PassRecord) (flights : List Entry) (hflights : ∀ e ∈ flights, e ∈ m.flights)
    (hin : HandsIn policy m.passes more e e') (answer : Put) : Machine.Sound host policy
    ⟨(host.finish m.store e' answer).1,flights,m.passes++more⟩ ∧ Moves policy m
    ⟨(host.finish m.store e' answer).1,flights,m.passes++more⟩ := by
  rcases finish_cases host m.store e' answer with hsame |
    ⟨old,version,hentry,hv,hd,hversion,hwrite⟩
  · rw [hsame]
    exact ⟨sound_idle h m.store flights more rfl (le_refl _) hflights,moves_idle _ _ _ rfl⟩
  obtain ⟨-,hold,-⟩ := (entry_iff host _ _ _).mp hentry
  obtain ⟨a,ha,-,-,heq⟩ := h.flights e he
  rw [hin.same.id] at hold
  rw [hold] at ha
  cases ha
  have heq := heq (hin.same.version.symm.trans hv.symm)
  subst heq
  have hfine := h.fine _ _ hold
  obtain ⟨rfl,-⟩ := next_ok hversion
  rw [hin.same.version, hin.same.id] at hwrite
  rw [hwrite]
  have hnewrec : (Host.finished e' (e.version+1)).reconciled =
      if e'.lastReport.scanComplete then e.dirty else e.reconciled := by
    show (if e'.lastReport.scanComplete = true then e'.dirty else e'.reconciled) = _
    rw [hin.same.dirty, hin.same.reconciled]
  have hnewid : (Host.finished e' (e.version+1)).id = e.id := hin.same.id
  have hnewdirty : (Host.finished e' (e.version+1)).dirty = e.dirty := hin.same.dirty
  have horder := hfine.order
  have hnew : Fine host policy (m.passes++more) m.store.allocated (host.digest e.id)
      (Host.finished e' (e.version+1)) := by
    refine ⟨by rw [hnewid],hin.same.slot.le.trans hfine.slot,?_,?_,?_⟩
    · rw [hnewrec, hnewdirty]
      split <;> omega
    · rw [hnewdirty]
      exact hin.behind hfine.behind
    intro hg
    rw [hnewid, hnewdirty]
    have hstands := hin.stands hfine.stands (hg.trans (hnewdirty.trans hin.same.dirty.symm))
    rwa [hin.same.id, hin.same.dirty] at hstands
  refine ⟨sound_write h (m.store.setEntry (host.digest e.id) (Host.finished e' (e.version+1))) flights more
    (host.digest e.id) e _ hold rfl (le_refl _) hnew hin.same.slot hnewid (Nat.lt_succ_self _)
    hflights,moves_write _ _ _ _ _ _ hold rfl ⟨hnewid,hin.same.slot,.inr (Nat.lt_succ_self _),
    hnewdirty.ge,?_,?_⟩⟩
  · rw [hnewrec]
    split <;> omega
  intro hne
  rw [hnewrec] at hne
  by_cases hcomplete : e'.lastReport.scanComplete = true
  · rw [Reconciled, hnewid, hnewrec, if_pos hcomplete]
    exact hin.complete hfine.stands hcomplete
  · rw [if_neg hcomplete] at hne
    exact absurd rfl hne

variable (adapters : Adapters)

theorem step_spec (h : m.Sound host policy) (act : Act) : (m.step host policy adapters act).Sound
    host policy ∧ Moves policy m (m.step host policy adapters act) := by
  cases act with
  | register id native enabled puts => exact register_step h id native enabled puts
  | edit id change answer => exact edit_step h id change answer
  | begin id =>
    simp only [Machine.step]
    split
    · next e hentry =>
      obtain ⟨-,hstored,-⟩ := (entry_iff host _ _ _).mp hentry
      have hid := entry_id host _ _ _ hentry
      refine ⟨⟨h.fine,h.distinct,?_⟩,moves_idle _ _ _ rfl⟩
      intro x hx
      rcases List.mem_append.mp hx with hx | hx
      · exact h.flights x hx
      · rw [List.mem_singleton.mp hx, hid]
        exact ⟨e,hstored,hid,le_refl _,fun _ => rfl⟩
    · exact ⟨h,moves_idle _ _ _ rfl⟩
  | scan flight answers failedMs answer =>
    unfold Machine.step
    simp only
    cases hflight : m.flights[flight]? with
    | none => exact ⟨h,moves_idle _ _ _ rfl⟩
    | some e =>
      exact finish_step h e _ (List.mem_of_getElem? hflight) _ _
        (fun x hx => List.mem_of_mem_eraseIdx hx) (hands_in_scan adapters answers failedMs e) answer
  | unloaded flight nowMs error answer =>
    unfold Machine.step
    simp only
    cases hflight : m.flights[flight]? with
    | none => exact ⟨h,moves_idle _ _ _ rfl⟩
    | some e =>
      have hstep := finish_step h e _ (List.mem_of_getElem? hflight) [] (m.flights.eraseIdx flight)
        (fun x hx => List.mem_of_mem_eraseIdx hx) (hands_in_unloaded e nowMs error) answer
      rw [List.append_nil] at hstep
      exact hstep
  | lose flight =>
    exact ⟨⟨h.fine,h.distinct,fun e he => h.flights e (List.mem_of_mem_eraseIdx he)⟩,
      moves_idle _ _ _ rfl⟩

theorem sound_start : Machine.start.Sound host policy := by
  constructor
  · intro key e he
    cases he
  · intro key key' e e' he
    cases he
  · intro e he
    cases he

theorem run_sound (acts : List Act) (h : m.Sound host policy) :
    (m.run host policy adapters acts).Sound host policy := by
  induction acts generalizing m with
  | nil => exact h
  | cons act acts ih => exact ih (step_spec adapters h act).1

end Runs

section Result
variable (host : Host) (policy : AttentionPolicy) (adapters : Adapters)

/-- Reconciliation after any run and over any further step: generations stay in order,
versions grow with every write, slots belong to one Space, and a generation is reconciled
only by passes that met everything under it. -/
structure Reconciling (m m' : Machine) : Prop where
  order : ∀ key b, m'.store.entries key = some b → b.reconciled ≤ b.dirty
  forward : ∀ key a, m.store.entries key = some a → ∃ b, m'.store.entries key = some b ∧
    (b = a ∨ a.version < b.version) ∧ a.reconciled ≤ b.reconciled ∧
    (a.reconciled ≠ b.reconciled → Reconciled policy policy.tickMs m'.passes b)
  apart : ∀ id id' a b, id ≠ id' → host.entry m'.store id = .ok (some a) →
    host.entry m'.store id' = .ok (some b) → a.slot ≠ b.slot

/-- Over every interleaving of registrations, edits and passes, with a stop after any
write, no generation is acknowledged before its work was met. -/
theorem reconciliation_meets_work (acts : List Act) (act : Act) : Reconciling host policy
    (Machine.start.run host policy adapters acts)
    ((Machine.start.run host policy adapters acts).step host policy adapters act) := by
  have hsound : (Machine.start.run host policy adapters acts).Sound host policy :=
    run_sound adapters acts sound_start
  obtain ⟨hnext,hmoves⟩ := step_spec adapters hsound act
  constructor
  · exact fun key b hb => (hnext.fine key b hb).order
  · intro key a ha
    obtain ⟨b,hb,hfollows⟩ := hmoves key a ha
    exact ⟨b,hb,hfollows.version,hfollows.reconciled,hfollows.acknowledged⟩
  intro id id' a b hne ha hb hslot
  obtain ⟨-,hstored,-⟩ := (entry_iff host _ _ _).mp ha
  obtain ⟨-,hstored',-⟩ := (entry_iff host _ _ _).mp hb
  have hkey := hnext.distinct _ _ a b hstored hstored' hslot
  rw [← hkey, hstored] at hstored'
  cases hstored'
  exact hne ((entry_id host _ _ _ ha).symm.trans (entry_id host _ _ _ hb))

end Result

section Instance

def pendingScan : ScanAnswers :=
  { quietScan "first" 1000 with
    list := fun _ => .ok ⟨["wake"],1,none,true⟩
    wake := fun _ =>
      ⟨false,.ok ⟨.pending 2000,1,0⟩,1000,.error "no action",.error "no wake",.ok none,.ok (),.ok ()⟩ }

def pendingActs : List Act := [.register "first" (plainConfig "first") true plainPuts,.begin "first"]

def pendingStart : Machine := Machine.start.run plainHost plainPolicy ⟨none,false⟩ pendingActs

def pendingEnd : Machine :=
  pendingStart.step plainHost plainPolicy ⟨none,false⟩ (.scan 0 pendingScan 1000 .done)

theorem pending_due_first : (pendingEnd.store.entries "first").all (fun b =>
    (tracesOf pendingEnd.passes b.id b.reconciled).all fun t => t.handled.any fun h =>
      h.wake.state == .pending 2000 && decide (h.nowMs < 2000 ∧ 2000 < b.registration.nextCheckMs)) = true := by
  decide +kernel

/-- The next check waits a whole tick: a pending wake that is due before that is met late. -/
theorem pending_wake_waits_a_tick :
    ∃ (acts : List Act) (act : Act) (key : String) (a b : Entry),
      (Machine.start.run plainHost plainPolicy ⟨none,false⟩ acts).store.entries key = some a ∧
      ((Machine.start.run plainHost plainPolicy ⟨none,false⟩ acts).step plainHost plainPolicy
        ⟨none,false⟩ act).store.entries key = some b ∧
      a.reconciled ≠ b.reconciled ∧
      ¬Reconciled plainPolicy 0 ((Machine.start.run plainHost plainPolicy ⟨none,false⟩ acts).step
        plainHost plainPolicy ⟨none,false⟩ act).passes b := by
  have hdue := pending_due_first
  have hchange : ((pendingStart.store.entries "first").map Entry.reconciled,
      (pendingEnd.store.entries "first").map Entry.reconciled) = (some 0,some 1) := by decide +kernel
  obtain ⟨a,ha⟩ : ∃ a, pendingStart.store.entries "first" = some a :=
    Option.isSome_iff_exists.mp (by decide +kernel)
  obtain ⟨b,hb⟩ : ∃ b, pendingEnd.store.entries "first" = some b :=
    Option.isSome_iff_exists.mp (by decide +kernel)
  rw [hb, Option.all_some, List.all_eq_true] at hdue
  simp only [ha, hb, Option.map_some, Prod.mk.injEq, Option.some.injEq] at hchange
  refine ⟨pendingActs,.scan 0 pendingScan 1000 .done,"first",a,b,ha,hb,by omega,?_⟩
  rintro ⟨ps,hsub,hmet⟩
  obtain ⟨walks,hwalks,front,w,rfl,-⟩ := hmet.runnable
  have hw : w ∈ ps.filterMap Trace.runnable := hwalks.subset (List.mem_append_right _ (List.mem_singleton.mpr rfl))
  obtain ⟨t,ht,-⟩ := List.mem_filterMap.mp hw
  obtain ⟨h,hh,hlate⟩ := List.any_eq_true.mp (hdue t (hsub.subset ht))
  simp only [Bool.and_eq_true, beq_iff_eq, decide_eq_true_eq] at hlate
  have hle := hmet.pending t ht h hh 2000 hlate.1 hlate.2.1
  omega

end Instance

end AndaBrain.Attention
