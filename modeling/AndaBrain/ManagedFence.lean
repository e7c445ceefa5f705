import AndaBrain.ManagedChanges

/-!
# The fence of the managed changes

One change is pending at most. Its requests run while it is pending, and it is released once it
is stored as confirmed with every target as it leaves it. What was emptied stays empty.
-/

set_option autoImplicit false

namespace AndaBrain.ManagedChanges
open Foundation Foundation.Throwing
open WorkerMemory (ElementId ElementState Failure fail Target PendingScrub)

def Settled (nexus : Nexus) (change : StoredChange) : Prop :=
  if revises change.kind then
    change.replacementRecord.isSome ∧ ∃ row, nexus.load change.preview.record.id = some row ∧
      row.status = if change.kind = .correct then "superseded" else "active"
  else
    ∀ target ∈ change.preview.targets, ∃ row, nexus.load target.id = some row ∧
      (row.state = .purged ∨ change.kind ≠ .delete ∧ row.state = .archived)

def executionsOf (w : World) (key : String) : List Execution :=
  w.executed.filter fun e => decide (e.key = key)

structure Fenced (w : World) : Prop where
  stored : ∀ key, w.control.pending = some key → (w.changes.lookup key).isSome
  emptied : ∀ key change, w.changes.lookup key = some change → change.state = .discarded →
    change.requests = []
  journal : ∀ e ∈ w.executed, e.control.pending = some e.key ∧
    ∃ change, e.change = some change ∧ change.state ≠ .discarded
  released : ∀ e ∈ w.released, ∃ change, e.change = some change ∧ change.state = .confirmed ∧
    Settled e.nexus change

structure Follows (start w : World) : Prop where
  epoch : start.control.epoch ≤ w.control.epoch
  kept : ∀ key change, start.changes.lookup key = some change →
    ∃ later, w.changes.lookup key = some later ∧ (change.requests = [] → later.requests = [])
  silent : ∀ key change, start.changes.lookup key = some change → change.requests = [] →
    executionsOf w key = executionsOf start key

theorem Follows.refl (w : World) : Follows w w :=
  ⟨le_rfl,fun _ change h => ⟨change,h,id⟩,fun _ _ _ _ => rfl⟩

theorem Follows.trans {a b c : World} (hab : Follows a b) (hbc : Follows b c) : Follows a c := by
  refine ⟨hab.epoch.trans hbc.epoch,fun key change h => ?_,fun key change h hr => ?_⟩
  · obtain ⟨mid,hm,hempty⟩ := hab.kept key change h
    obtain ⟨last,hl,hstill⟩ := hbc.kept key mid hm
    exact ⟨last,hl,hstill ∘ hempty⟩
  · obtain ⟨mid,hm,hempty⟩ := hab.kept key change h
    exact (hbc.silent key mid hm (hempty hr)).trans (hab.silent key change h hr)

structure Reach (u w : World) : Prop where
  fenced : Fenced w
  follows : Follows u w

theorem Reach.refl {w : World} (h : Fenced w) : Reach w w := ⟨h,Follows.refl w⟩

structure Same (w next : World) : Prop where
  control : next.control = w.control
  changes : next.changes = w.changes
  executed : next.executed = w.executed
  released : next.released = w.released

theorem Reach.same {u w next : World} (h : Reach u w) (hs : Same w next) : Reach u next := by
  obtain ⟨hcontrol,hchanges,hexecuted,hreleased⟩ := hs
  refine ⟨⟨?_,?_,?_,?_⟩,?_,?_,?_⟩
  · rw [hcontrol,hchanges]
    exact h.fenced.stored
  · rw [hchanges]
    exact h.fenced.emptied
  · rw [hexecuted]
    exact h.fenced.journal
  · rw [hreleased]
    exact h.fenced.released
  · rw [hcontrol]
    exact h.follows.epoch
  · rw [hchanges]
    exact h.follows.kept
  · intro key change hl hr
    rw [executionsOf,hexecuted]
    exact h.follows.silent key change hl hr

structure Storable (w : World) (key : String) (change : StoredChange) : Prop where
  emptied : change.state = .discarded → change.requests = []
  kept : ∀ old, w.changes.lookup key = some old → old.requests = [] → change.requests = []

theorem Reach.put {u w : World} (h : Reach u w) {key : String} {change : StoredChange}
    (hs : Storable w key change) : Reach u (w.store key change) := by
  refine ⟨⟨?_,?_,h.fenced.journal,h.fenced.released⟩,h.follows.epoch,?_,h.follows.silent⟩
  · intro k hk
    have hstored := h.fenced.stored k hk
    simp only [World.store,SortedMap.lookup_insert]
    split
    · rfl
    · exact hstored
  · intro k c hl
    simp only [World.store,SortedMap.lookup_insert] at hl
    split at hl
    · obtain rfl := Option.some.inj hl
      exact hs.emptied
    · exact h.fenced.emptied k c hl
  intro k c hl
  obtain ⟨later,hlater,hempty⟩ := h.follows.kept k c hl
  simp only [World.store,SortedMap.lookup_insert]
  by_cases hk : k = key
  · rw [if_pos hk]
    exact ⟨change,rfl,fun hr => hs.kept later (hk ▸ hlater) (hempty hr)⟩
  · rw [if_neg hk]
    exact ⟨later,hlater,hempty⟩

def Keeps {α : Type} (m : Action α) : Prop :=
  ∀ u, Triple (Reach u) m (fun _ => Reach u) (Reach u)

theorem triple_call {P : World → Prop}
    (h : ∀ w, P w → P { w with calls := w.calls+1 }) :
    Triple P call (fun _ => P) P := by
  intro w hw
  have hnext := h w hw
  unfold call
  cases w.faults w.calls <;> exact hnext

theorem call_keeps : Keeps call := fun _ => triple_call fun _ h => h.same ⟨rfl,rfl,rfl,rfl⟩

theorem triple_called {P E : World → Prop} {α : Type} {f : Unit → Action α} {Q : α → World → Prop}
    (h : ∀ w, P w → P { w with calls := w.calls+1 }) (he : ∀ w, P w → E w)
    (hf : Triple P (f ()) Q E) : Triple P (call >>= f) Q E :=
  triple_keep (triple_same he (triple_call h)) fun _ => hf

theorem triple_put {P E : World → Prop} {Q : Unit → World → Prop} {key : String}
    {change : StoredChange}
    (hcall : ∀ w, P w → P { w with calls := w.calls+1 })
    (hq : ∀ w, P w → Q () (w.store key change))
    (he : ∀ w, P w → E w) : Triple P (putChange key change) Q E :=
  triple_called hcall he (triple_update hq)

theorem put_keeps {key : String} {change : StoredChange}
    (h : ∀ w, Storable w key change) : Keeps (putChange key change) := fun _ =>
  triple_put (fun _ hw => hw.same ⟨rfl,rfl,rfl,rfl⟩) (fun w hw => hw.put (h w)) fun _ hw => hw

theorem clear_content_storable (w : World) (key : String) (change : StoredChange) :
    Storable w key (clearContent change) := ⟨fun _ => rfl,fun _ _ _ => rfl⟩

theorem of_except_keeps {α : Type} (x : Except Failure α) : Keeps (ofExcept x) := fun _ =>
  triple_of_except (fun _ _ _ h => h) fun _ h => h

theorem expire_keeps (now : ℕ) (key : String) (change : StoredChange) :
    Keeps (expire now key change) := by
  intro u
  refine triple_keep (triple_read fun _ hw => hw) fun w => ?_
  exact triple_ite (fun _ => triple_bind (put_keeps (fun w => clear_content_storable w key _) u)
    fun _ => triple_pure fun _ h => h) fun _ => triple_pure fun _ h => h

@[simp] theorem store_lookup (w : World) (key k : String) (change : StoredChange) :
    (w.store key change).changes.lookup k =
      if k = key then some change else w.changes.lookup k := by
  rw [World.store,SortedMap.lookup_insert]

theorem expire_stored {now : ℕ} {key : String} {change : StoredChange} {R : World → Prop}
    (hcall : ∀ w, R w → R { w with calls := w.calls+1 })
    (hput : ∀ w, R w → w.changes.lookup key = some change →
      R (w.store key (clearContent { change with state := .discarded }))) :
    Triple (fun w => R w ∧ w.changes.lookup key = some change) (expire now key change)
      (fun related w => R w ∧ w.changes.lookup key = some related ∧
        (related = change ∨ change.state = .prepared ∧ change.expiresAt < now ∧
          w.control.pending ≠ some key)) R := by
  refine triple_read_bind fun v => ?_
  refine triple_ite (fun hexpired => ?_) fun _ => triple_pure fun w hw => ⟨hw.2.1,hw.2.2,.inl rfl⟩
  simp only [expired,decide_eq_true_eq] at hexpired
  obtain ⟨hstate,hlate,hfree⟩ := hexpired
  refine triple_bind (R := fun _ w => R w ∧ w.control.pending ≠ some key ∧
    w.changes.lookup key = some (clearContent { change with state := .discarded })) ?_ fun _ =>
      triple_pure fun w hw => ⟨hw.1,hw.2.2,.inr ⟨hstate,hlate,hw.2.1⟩⟩
  refine triple_mono (P := fun w => R w ∧ w.changes.lookup key = some change ∧
      w.control.pending ≠ some key)
    (Q := fun _ w => R w ∧ w.control.pending ≠ some key ∧
      w.changes.lookup key = some (clearContent { change with state := .discarded })) (E := R)
    (triple_put (fun w hw => ⟨hcall w hw.1,hw.2⟩) (fun w hw => ?_) fun w hw => hw.1)
    (fun w hw => ⟨hw.2.1,hw.2.2,?_⟩) (fun _ _ h => h) fun _ h => h
  · exact ⟨hput w hw.1 hw.2.1,hw.2.2,by simp⟩
  · rw [← hw.1]
    exact hfree

/-! ## The scrub -/

structure Frame (but : Option String) (v w : World) : Prop where
  nexus : w.nexus = v.nexus
  control : w.control = v.control
  executed : w.executed = v.executed
  released : w.released = v.released
  since : w.since = v.since
  erasures : w.erasures = v.erasures
  spared : ∀ key, but = some key → w.changes.lookup key = v.changes.lookup key

theorem Frame.refl (but : Option String) (w : World) : Frame but w w :=
  ⟨rfl,rfl,rfl,rfl,rfl,rfl,fun _ _ => rfl⟩

theorem Frame.called {but : Option String} {v w : World} (h : Frame but v w) :
    Frame but v { w with calls := w.calls+1 } :=
  ⟨h.nexus,h.control,h.executed,h.released,h.since,h.erasures,h.spared⟩

theorem Frame.put {but : Option String} {v w : World} (h : Frame but v w) {key : String}
    (hk : but ≠ some key) (change : StoredChange) : Frame but v (w.store key change) := by
  refine ⟨h.nexus,h.control,h.executed,h.released,h.since,h.erasures,fun k hbut => ?_⟩
  rw [store_lookup,if_neg (fun heq : k = key => hk (heq ▸ hbut))]
  exact h.spared k hbut

theorem Reach.called {u w : World} (h : Reach u w) : Reach u { w with calls := w.calls+1 } :=
  h.same ⟨rfl,rfl,rfl,rfl⟩

def Unvisited (rest : List (String × StoredChange)) (w : World) : Prop :=
  ∀ e ∈ rest, w.changes.lookup e.1 = some e.2

theorem scrubbed_storable {w : World} {key : String} {ids : List ElementId} {related : StoredChange}
    (hl : w.changes.lookup key = some related) : Storable w key (scrubbed ids related) := by
  unfold scrubbed
  dsimp only
  generalize hended : (if related.state = .prepared then { related with state := .discarded }
    else related) = ended
  by_cases hclear : (replacementErased ids related || decide (ended.state ≠ .confirmed)) = true
  · rw [if_pos hclear]
    exact clear_content_storable w key ended
  rw [if_neg hclear]
  simp only [Bool.or_eq_true,decide_eq_true_eq,not_or,not_not] at hclear
  have hopen : related.state ≠ .prepared := by
    intro hp
    rw [← hended,if_pos hp] at hclear
    cases hclear.2
  rw [if_neg hopen] at hended
  subst hended
  constructor
  · intro hd
    cases hclear.2.symm.trans hd
  intro old ho hr
  rw [hl] at ho
  obtain rfl := Option.some.inj ho
  exact hr

theorem scrub_one_keeps {u v : World} {now : ℕ} {ids : List ElementId} {but : Option String}
    {entry : String × StoredChange} {rest : List (String × StoredChange)}
    (hbut : but ≠ some entry.1) (hnew : ∀ e ∈ rest, e.1 ≠ entry.1) :
    Triple (fun w => Reach u w ∧ Frame but v w ∧ Unvisited (entry::rest) w)
      (scrubOne now ids entry.1 entry.2)
      (fun _ w => Reach u w ∧ Frame but v w ∧ Unvisited rest w)
      (fun w => Reach u w ∧ Frame but v w) := by
  have hput : ∀ w change, Storable w entry.1 change →
      Reach u w ∧ Frame but v w ∧ Unvisited rest w →
      Reach u (w.store entry.1 change) ∧ Frame but v (w.store entry.1 change) ∧
        Unvisited rest (w.store entry.1 change) := by
    intro w change hs ⟨hreach,hframe,hrest⟩
    refine ⟨hreach.put hs,hframe.put hbut change,fun e he => ?_⟩
    rw [store_lookup,if_neg (hnew e he)]
    exact hrest e he
  unfold scrubOne
  refine triple_bind (triple_mono (expire_stored
    (R := fun w => Reach u w ∧ Frame but v w ∧ Unvisited rest w)
    (fun w hw => ⟨hw.1.called,hw.2.1.called,hw.2.2⟩)
    (fun w hw _ => hput w _ (clear_content_storable w _ _) hw))
    (fun w hw => ⟨⟨hw.1,hw.2.1,fun e he => hw.2.2 e (List.mem_cons_of_mem _ he)⟩,
      hw.2.2 entry List.mem_cons_self⟩) (fun _ _ h => h) fun w hw => ⟨hw.1,hw.2.1⟩) fun related => ?_
  refine triple_ite (fun _ => ?_) fun _ => triple_pure fun w hw => hw.1
  exact triple_put (fun w hw => ⟨⟨hw.1.1.called,hw.1.2.1.called,hw.1.2.2⟩,hw.2⟩)
    (fun w hw => hput w _ (scrubbed_storable hw.2.1) hw.1) fun w hw => ⟨hw.1.1,hw.1.2.1⟩

theorem put_scrub_keeps {u v : World} {but : Option String} (scrub : Option PendingScrub) :
    Triple (fun w => Reach u w ∧ Frame but v w) (putScrub scrub)
      (fun _ w => Reach u w ∧ Frame but v w) (fun w => Reach u w ∧ Frame but v w) :=
  triple_keep (triple_call fun _ hw => ⟨hw.1.called,hw.2.called⟩) fun _ =>
    triple_update fun _ hw => ⟨hw.1.same ⟨rfl,rfl,rfl,rfl⟩,
      ⟨hw.2.nexus,hw.2.control,hw.2.executed,hw.2.released,hw.2.since,hw.2.erasures,hw.2.spared⟩⟩

theorem entries_later {w : World} {entry : String × StoredChange}
    {rest : List (String × StoredChange)} (h : (entry::rest) <:+ w.changes.entries) :
    ∀ e ∈ rest, e.1 ≠ entry.1 := by
  intro e he
  have hsorted := w.changes.sorted.sublist h.sublist
  exact ne_of_gt ((List.pairwise_cons.mp hsorted).1 e he)

theorem scrub_keeps {u : World} (v : World) (now : ℕ) (erased : List ElementId)
    (but : Option String) :
    Triple (fun w => Reach u w ∧ Frame but v w) (scrubChanges now erased but)
      (fun _ w => Reach u w ∧ Frame but v w) (fun w => Reach u w ∧ Frame but v w) := by
  unfold scrubChanges
  refine triple_keep ?_ fun ids => ?_
  · unfold openScrub
    refine triple_keep (triple_call fun w hw => ⟨hw.1.called,hw.2.called⟩) fun _ => ?_
    refine triple_keep (triple_read fun _ hw => hw) fun first => ?_
    exact triple_keep (put_scrub_keeps _) fun _ => triple_pure fun _ h => h
  unfold scrubAll
  refine triple_read_bind fun journal => ?_
  refine triple_bind (R := fun _ w => Reach u w ∧ Frame but v w) ?_ fun _ => put_scrub_keeps none
  refine triple_mono (triple_each_rest
    (J := fun rest w => Reach u w ∧ Frame but v w ∧ Unvisited rest w)
    (E := fun w => Reach u w ∧ Frame but v w) fun entry rest hrest => ?_)
    (fun w hw => ⟨hw.2.1,hw.2.2,fun e he => ?_⟩) (fun _ w hw => ⟨hw.1,hw.2.1⟩) fun _ h => h
  · refine triple_called (fun w hw => ⟨hw.1.called,hw.2.1.called,hw.2.2⟩)
      (fun w hw => ⟨hw.1,hw.2.1⟩) ?_
    refine triple_ite (fun _ => triple_pure fun w hw => ?_) fun hbut => ?_
    · exact ⟨hw.1,hw.2.1,fun e he => hw.2.2 e (List.mem_cons_of_mem _ he)⟩
    · exact scrub_one_keeps hbut (entries_later hrest)
  · rw [← hw.1]
    exact (SortedMap.lookup_iff _ _ _).mpr he

/-! ## The calls that apply nothing -/

section Calls
variable {site : Site} {engine : Engine}

def Shown (v w : World) (now : ℕ) (key : String) : Prop :=
  ∀ stored, v.changes.lookup key = some stored → w.changes.lookup key = some stored ∨
    stored.state = .prepared ∧ stored.expiresAt < now ∧ w.control.pending ≠ some key

theorem find_spec {P : World → Prop} {key reason : String} :
    Triple P (find key reason) (fun stored w => P w ∧ w.changes.lookup key = some stored) P := by
  refine triple_read_bind fun v => ?_
  cases hl : v.changes.lookup key with
  | none => exact triple_throwing fun w hw => hw.2
  | some stored => exact triple_pure fun w hw => ⟨hw.2,hw.1 ▸ hl⟩

variable (site engine) in
theorem show_spec {R : World → Prop} (hcall : ∀ w, R w → R { w with calls := w.calls+1 })
    (hput : ∀ w key change, R w → w.changes.lookup key = some change →
      R (w.store key (clearContent { change with state := .discarded })))
    (v : World) (now : ℕ) (auth : Auth) (operation : String) :
    Triple (fun w => w = v ∧ R w) (showChange site engine now auth operation)
      (fun _ w => R w ∧ w.control = v.control ∧
        ∀ key, keyOf site engine v auth operation = .ok key → Shown v w now key) R := by
  unfold showChange
  refine triple_bind (R := fun v' w => v' = v ∧ w = v ∧ R w)
    (triple_read fun w hw => ⟨hw.1,hw⟩) fun v' => ?_
  refine triple_bind (R := fun key w => keyOf site engine v auth operation = .ok key ∧ w = v ∧
    R w) (triple_of_except (fun key hk w hw => ⟨hw.1 ▸ hk,hw.2⟩) fun w hw => hw.2.2)
    fun key => ?_
  refine triple_bind (triple_err find_spec fun w hw => hw.2.2) fun stored => ?_
  refine triple_bind (R := fun _ w => R w ∧ w.control = v.control ∧
      keyOf site engine v auth operation = .ok key ∧ Shown v w now key)
    (triple_mono (expire_stored (R := fun w => R w ∧ w.control = v.control ∧
      keyOf site engine v auth operation = .ok key ∧ v.changes.lookup key = some stored)
      (fun w hw => ⟨hcall w hw.1,hw.2⟩)
      (fun w hw hl => ⟨hput w key stored hw.1 hl,hw.2⟩))
      (fun w hw => ?_) (fun related w hw => ?_) fun w hw => hw.1) fun related => ?_
  · obtain ⟨⟨hk,rfl,hr⟩,hl⟩ := hw
    exact ⟨⟨hr,rfl,hk,hl⟩,hl⟩
  · obtain ⟨⟨hr,hcontrol,hk,hv⟩,hl,hsame⟩ := hw
    refine ⟨hr,hcontrol,hk,fun old hold => ?_⟩
    rw [hv] at hold
    obtain rfl := Option.some.inj hold
    rcases hsame with rfl | hlate
    · exact .inl hl
    · exact .inr hlate
  · refine triple_keep (triple_read fun _ hw => hw) fun w' => ?_
    refine triple_except_bind (fun _ h => h.1) fun _ _ => ?_
    refine triple_except_bind (fun _ h => h.1) fun _ _ =>
      triple_pure fun w hw => ⟨hw.1,hw.2.1,fun k hk => ?_⟩
    obtain rfl := Except.ok.inj (hk.symm.trans hw.2.2.1)
    exact hw.2.2.2

theorem Reach.expired {u w : World} {key : String} {change : StoredChange} (h : Reach u w) :
    Reach u (w.store key (clearContent { change with state := .discarded })) :=
  h.put (clear_content_storable w key _)

variable (now : ℕ) (auth : Auth) {u : World} {key : String} {base : StoredChange}

theorem show_keeps (operation : String) : Keeps (showChange site engine now auth operation) := by
  intro u w hw
  have hspec := show_spec site engine (R := Reach u) (fun _ h => h.called)
    (fun _ _ _ h _ => h.expired) w now auth operation w ⟨rfl,hw⟩
  generalize showChange site engine now auth operation w = r at hspec ⊢
  obtain ⟨next,answer⟩ := r
  cases answer with
  | ok a => exact hspec.1
  | error e => exact hspec

theorem triple_dry_run {P : World → Prop} {auth : Auth} {request : Request}
    (hcall : ∀ w, P w → P { w with calls := w.calls+1 })
    (hnexus : ∀ w nexus, P w → P { w with nexus }) :
    Triple P (dryRun engine auth request) (fun _ => P) P := by
  unfold dryRun
  refine triple_keep (triple_call hcall) fun _ => ?_
  refine triple_keep (triple_read fun _ h => h) fun w => ?_
  refine triple_keep (triple_update fun w hw => hnexus w _ hw) fun _ => ?_
  exact triple_except_bind (fun _ h => h) fun _ _ => triple_pure fun _ h => h

theorem prepare_keeps (input : ChangeInput) : Keeps (prepare site engine now auth input) := by
  intro u
  unfold prepare
  refine triple_refuse (fun _ h => h) fun _ => triple_refuse (fun _ h => h) fun _ => ?_
  refine triple_read_bind fun v => triple_except_bind (fun _ h => h.2) fun key _ => ?_
  cases hl : v.changes.lookup key with
  | some old =>
    refine triple_pre (P := Reach u) ?_ fun _ h => h.2
    refine triple_keep (expire_keeps now key old u) fun old => ?_
    refine triple_refuse (fun _ h => h) fun _ => ?_
    exact triple_refuse (fun _ h => h) fun _ => show_keeps now auth _ u
  | none =>
    -- the key is free until the change is stored under it
    refine triple_pre (P := fun w => Reach u w ∧ w.changes.lookup key = none) ?_
      fun w hw => ⟨hw.2,hw.1 ▸ hl⟩
    refine triple_except_bind (fun _ h => h.1) fun _ _ => ?_
    refine triple_except_bind (fun _ h => h.1) fun shown _ => ?_
    refine triple_except_bind (fun _ h => h.1) fun asked _ => ?_
    refine triple_keep (triple_same (fun _ h => h.1) (triple_each fun request _ =>
      triple_dry_run (fun w hw => ⟨hw.1.called,hw.2⟩)
        fun w nexus hw => ⟨hw.1.same ⟨rfl,rfl,rfl,rfl⟩,hw.2⟩)) fun _ => ?_
    refine triple_keep (triple_update fun w hw => ⟨hw.1.same ⟨rfl,rfl,rfl,rfl⟩,hw.2⟩) fun _ => ?_
    refine triple_bind (R := fun _ => Reach u) (triple_put
      (P := fun w => Reach u w ∧ w.changes.lookup key = none)
      (fun w hw => ⟨hw.1.called,hw.2⟩) (fun w hw => hw.1.put ⟨fun h => ?_,fun old ho => ?_⟩)
      fun w hw => hw.1) fun _ => triple_pure fun _ h => h
    · cases h
    · rw [hw.2] at ho
      cases ho

theorem discard_keeps (operation : String) : Keeps (discard site engine auth operation) := by
  intro u
  unfold discard
  refine triple_keep (triple_read fun _ h => h) fun v => ?_
  refine triple_keep (of_except_keeps _ u) fun key => ?_
  refine triple_keep (triple_mono find_spec (fun _ h => h) (fun _ _ h => h.1) fun _ h => h)
    fun stored => triple_refuse (fun _ h => h) fun _ => ?_
  exact put_keeps (fun w => clear_content_storable w key _) u

theorem suppress_keeps (keys : Finset String) : Keeps (suppress keys) := fun u =>
  triple_bind (call_keeps u) fun _ => triple_update fun _ hw => hw.same ⟨rfl,rfl,rfl,rfl⟩

theorem Reach.control {u w : World} (h : Reach u w) {control : Control} {released : List Release}
    (hepoch : w.control.epoch ≤ control.epoch)
    (hpending : ∀ key, control.pending = some key → (w.changes.lookup key).isSome)
    (hreleased : ∀ e ∈ released, ∃ change, e.change = some change ∧ change.state = .confirmed ∧
      Settled e.nexus change) : Reach u { w with control, released } :=
  ⟨⟨hpending,h.fenced.emptied,h.fenced.journal,hreleased⟩,
    h.follows.epoch.trans hepoch,h.follows.kept,h.follows.silent⟩

theorem invalidate_keeps : Keeps (invalidate site) := by
  intro u
  unfold invalidate
  refine triple_bind (R := fun v w => v.control = w.control ∧ Reach u w)
    (triple_read fun _ h => ⟨rfl,h⟩) fun v => ?_
  refine triple_except_bind (fun _ h => h.2) fun _ _ => triple_refuse (fun _ h => h.2) fun _ => ?_
  refine triple_bind (R := fun _ => Reach u) (triple_called (fun w hw => ⟨hw.1,hw.2.called⟩)
    (fun _ h => h.2) (triple_update fun w hw => ?_)) fun _ => call_keeps u
  obtain ⟨hcontrol,hreach⟩ := hw
  refine hreach.control (by rw [hcontrol]; exact Nat.le_succ _)
    (fun key hk => hreach.fenced.stored key (hcontrol ▸ hk)) fun e he => ?_
  rcases List.mem_append.mp he with he | he
  · exact hreach.fenced.released e he
  -- the pending change is not released
  simp only [List.mem_map,Option.mem_toList,Option.filter_eq_some_iff,
    decide_eq_true_eq] at he
  obtain ⟨key,⟨hk,hne⟩,-⟩ := he
  exact absurd (hcontrol ▸ hk) hne

/-! ## Carrying a change out -/

/-- The change under the key as the run of `base` finds it while its requests run. -/
structure Held (u : World) (key : String) (base : StoredChange) (w : World) : Prop where
  reach : Reach u w
  pending : w.control.pending = some key
  stored : ∃ change, w.changes.lookup key = some change ∧ change.state = base.state ∧
    change.requests = base.requests

theorem Held.called {u w : World} {key : String} {base : StoredChange} (h : Held u key base w) :
    Held u key base { w with calls := w.calls+1 } := ⟨h.reach.called,h.pending,h.stored⟩

structure Carrying (u : World) (key : String) (base : StoredChange) (d : Draft) : Prop where
  held : Held u key base d.1
  input : d.2.input = base.input
  preview : d.2.preview = base.preview
  state : d.2.state = base.state
  requests : d.2.requests = base.requests

structure Stopped (u : World) (key : String) (d : Draft) : Prop where
  reach : Reach u d.1
  stored : ∃ change, d.1.changes.lookup key = some change ∧
    (change.requests = [] → d.2.requests = [])

theorem Carrying.stopped {d : Draft} (h : Carrying u key base d) : Stopped u key d := by
  obtain ⟨change,hl,-,hr⟩ := h.held.stored
  exact ⟨h.held.reach,change,hl,fun he => h.requests.trans (hr.symm.trans he)⟩

theorem executions_append (w : World) (k : String) (e : Execution) (h : e.key ≠ k) :
    (w.executed++[e]).filter (fun e => decide (e.key = k)) = executionsOf w k := by
  simp [executionsOf,List.filter_append,h]

variable (engine) in
theorem native_held (auth : Auth)
    (request : Request) (idempotencyKey : String) (hopen : base.requests ≠ [])
    (hlive : base.state ≠ .discarded) :
    Triple (Held u key base) (native engine key auth request idempotencyKey)
      (fun _ => Held u key base) (Held u key base) := by
  unfold native
  refine triple_keep (triple_call fun w hw => hw.called) fun _ => ?_
  refine triple_keep (triple_read fun _ h => h) fun v => ?_
  refine triple_keep (triple_update fun w hw => ?_) fun _ =>
    triple_of_except (fun _ _ _ h => h) fun _ h => h
  obtain ⟨hreach,hpending,change,hl,hstate,hrequests⟩ := hw
  refine ⟨⟨⟨hreach.fenced.stored,hreach.fenced.emptied,fun e he => ?_,hreach.fenced.released⟩,
    hreach.follows.epoch,hreach.follows.kept,fun k old hold hr => ?_⟩,hpending,change,hl,hstate,
      hrequests⟩
  · rcases List.mem_append.mp he with he | he
    · exact hreach.fenced.journal e he
    · obtain rfl := List.mem_singleton.mp he
      exact ⟨hpending,change,hl,by rw [hstate]; exact hlive⟩
  · refine (executions_append w k _ ?_).trans (hreach.follows.silent k old hold hr)
    rintro rfl
    obtain ⟨later,hlater,hempty⟩ := hreach.follows.kept _ old hold
    obtain rfl := Option.some.inj (hl.symm.trans hlater)
    exact hopen (hrequests.symm.trans (hempty hr))

theorem put_draft
    (hlive : base.state ≠ .discarded) {stored : StoredChange} :
    Triple (fun d : Draft => d.2 = stored ∧ Carrying u key base d) (onFst (putChange key stored))
      (fun _ => Carrying u key base) (Stopped u key) := by
  refine triple_on_fst fun t => triple_put (fun w hw => ?_) (fun w hw => ?_) fun w hw => hw.2.stopped
  · exact ⟨hw.1,⟨hw.2.held.called,hw.2.input,hw.2.preview,hw.2.state,hw.2.requests⟩⟩
  obtain ⟨rfl,hheld,hinput,hpreview,hstate,hrequests⟩ := hw
  obtain ⟨change,hl,-,hr⟩ := hheld.stored
  refine ⟨⟨hheld.reach.put ⟨fun hd => absurd (hstate.symm.trans hd) hlive,fun old ho he => ?_⟩,
    hheld.pending,t,by simp,hstate,hrequests⟩,hinput,hpreview,hstate,hrequests⟩
  rw [hl] at ho
  obtain rfl := Option.some.inj ho
  exact hrequests.trans (hr.symm.trans he)

theorem Carrying.called {u w : World} {key : String} {base t : StoredChange}
    (h : Carrying u key base (w,t)) : Carrying u key base ({ w with calls := w.calls+1 },t) :=
  ⟨h.held.called,h.input,h.preview,h.state,h.requests⟩

theorem carrying_call :
    Triple (Carrying u key base) (onFst call : Step Unit) (fun _ => Carrying u key base)
      (Stopped u key) :=
  triple_on_fst fun t => triple_err
    (triple_call (P := fun w => Carrying u key base (w,t)) fun _ h => h.called) fun _ h => h.stopped

theorem request_carried
    (hopen : base.requests ≠ []) (hlive : base.state ≠ .discarded) (entry : Request × ℕ) :
    Triple (Carrying u key base) (runRequest engine key entry) (fun _ => Carrying u key base)
      (Stopped u key) := by

  have hnative : ∀ {auth : Auth} {request : Request} {idempotencyKey : String},
      Triple (Carrying u key base) (onFst (native engine key auth request idempotencyKey) : Step Outcome)
        (fun _ => Carrying u key base) (Stopped u key) := by
    intro auth request idempotencyKey
    refine triple_on_fst fun t w hw => ?_
    have hheld := native_held engine auth request idempotencyKey hopen hlive w hw.held
    generalize native engine key auth request idempotencyKey w = r at hheld ⊢
    obtain ⟨next,answer⟩ := r
    have hnext : Held u key base next := by cases answer <;> exact hheld
    have hcarry : Carrying u key base (next,t) :=
      ⟨hnext,hw.input,hw.preview,hw.state,hw.requests⟩
    cases answer with
    | ok outcome => exact hcarry
    | error e => exact hcarry.stopped
  have hstay : Triple (Carrying u key base) (pure () : Step Unit) (fun _ => Carrying u key base)
      (Stopped u key) := triple_pure fun _ h => h
  unfold runRequest
  refine triple_keep (triple_read fun _ h => h) fun v => ?_
  refine triple_except_bind (fun _ h => h.stopped) fun target _ => ?_
  refine triple_ite (fun _ => hstay) fun _ => ?_
  refine triple_keep ?_ fun settled => ?_
  · cases target with
    | correction => exact triple_pure fun _ h => h
    | target id =>
      refine triple_keep carrying_call fun _ => triple_keep (triple_read fun _ h => h) fun v => ?_
      exact triple_except_bind (fun _ h => h.stopped) fun row _ => triple_pure fun _ h => h
  refine triple_keep ?_ fun _ => ?_
  · unfold execute
    refine triple_ite (fun _ => hstay) fun _ => ?_
    refine triple_keep (triple_read fun _ h => h) fun v => triple_keep hnative fun outcome => ?_
    refine triple_refuse (fun _ h => h.stopped) fun _ => triple_ite (fun _ => ?_) fun _ => hstay
    exact triple_update fun d h => ⟨h.held,h.input,h.preview,h.state,h.requests⟩
  refine triple_keep
    (triple_update fun d h => ⟨h.held,h.input,h.preview,h.state,h.requests⟩) fun _ => ?_
  exact triple_read_bind fun v => triple_pre (put_draft hlive) fun d hd => ⟨hd.1 ▸ rfl,hd.2⟩

theorem read_element_loaded {nexus : Nexus} {auth : Auth} {id : ElementId} {row : WorkerMemory.Row}
    (h : WorkerMemory.readElement (nexus.readBy auth) id = .ok row) :
    ∃ e, nexus.load id = some e ∧ e.state = row.state := by
  unfold WorkerMemory.readElement Nexus.readBy at h
  cases hl : nexus.load id with
  | none =>
    simp only [hl,Option.map_none] at h
    cases h
  | some e =>
    simp only [hl,Option.map_some] at h
    split at h
    · cases h
    · rw [← Except.ok.inj h]
      exact ⟨e,rfl,rfl⟩

theorem record_loaded {w : World} {auth : Auth} {id : ElementId} {memory : MemoryRecord}
    (h : record site engine w auth id = .ok memory) :
    ∃ row, w.nexus.load id = some row ∧ row.status = memory.status := by
  unfold record at h
  simp only [bind,Except.bind] at h
  split at h
  · cases h
  split at h
  · cases h
  rename_i read _
  cases hl : w.nexus.load id with
  | none => simp only [hl,fail] at h; cases h
  | some row =>
    cases hp : w.nexus.load read.propositionId with
    | none => simp only [hl,hp,fail] at h; cases h
    | some proposition =>
      simp only [hl,hp,pure,Except.pure,Except.ok.injEq] at h
      exact ⟨row,rfl,by rw [← h]⟩

theorem verify_settles :
    Triple (Carrying u key base) (verify site engine)
      (fun _ d => Carrying u key base d ∧ Settled d.1.nexus d.2) (Stopped u key) := by
  unfold verify
  refine triple_keep carrying_call fun _ => triple_read_bind fun v => ?_
  refine triple_ite (fun hrev => ?_) fun hrev => ?_
  · refine triple_except_bind (fun _ h => h.2.stopped) fun memory hr => ?_
    refine triple_refuse (fun _ h => h.2.stopped) fun hgood => triple_pure fun d h => ?_
    obtain ⟨rfl,hcarry⟩ := h
    simp only [not_or,not_not] at hgood
    obtain ⟨row,hrow,hstatus⟩ := record_loaded hr
    refine ⟨hcarry,?_⟩
    rw [Settled,if_pos hrev]
    exact ⟨Option.isSome_iff_ne_none.mpr hgood.2,row,hrow,hstatus.trans hgood.1⟩
  refine triple_mono (triple_each_rest
    (J := fun rest d => v.1.nexus = d.1.nexus ∧ v.2 = d.2 ∧ Carrying u key base d ∧
      ∀ target ∈ v.2.preview.targets, target ∈ rest ∨ ∃ row, v.1.nexus.load target.id = some row ∧
        (row.state = .purged ∨ v.2.kind ≠ .delete ∧ row.state = .archived))
    (E := Stopped u key) fun target rest hrest => ?_)
    (fun d h => ⟨h.1 ▸ rfl,h.1 ▸ rfl,h.2,fun target ht => .inl ht⟩) (fun _ d h => ?_) fun _ h => h
  · refine triple_keep (triple_on_fst fun t => triple_same (fun _ h => h.2.2.1.stopped)
      (triple_call fun w h => ⟨h.1,h.2.1,h.2.2.1.called,h.2.2.2⟩)) fun _ => ?_
    refine triple_except_bind (fun _ h => h.2.2.1.stopped) fun row hrow => ?_
    refine triple_refuse (fun _ h => h.2.2.1.stopped) fun hgood => triple_pure fun d h => ?_
    obtain ⟨hn,hd,hcarry,hseen⟩ := h
    refine ⟨hn,hd,hcarry,fun other hother => ?_⟩
    rcases hseen other hother with hin | hdone
    · rcases List.mem_cons.mp hin with rfl | hin
      · right
        obtain ⟨e,he,hstate⟩ := read_element_loaded hrow
        refine ⟨e,he,?_⟩
        rw [hstate]
        by_cases hp : row.state = .purged
        · exact .inl hp
        right
        by_cases hk : v.2.kind = .delete
        · simp [hp,hk] at hgood
        · simpa [hp,hk] using hgood
      · exact .inl hin
    · exact .inr hdone
  · obtain ⟨hn,hd,hcarry,hseen⟩ := h
    refine ⟨hcarry,?_⟩
    rw [← hn,← hd,Settled,if_neg hrev]
    intro target ht
    rcases hseen target ht with hin | hdone
    · cases hin
    · exact hdone

structure Ready (u : World) (key : String) (d : Draft) : Prop where
  stopped : Stopped u key d
  pending : d.1.control.pending = some key
  settled : Settled d.1.nexus d.2

theorem scrub_deleted_ready {now : ℕ} :
    Triple (fun d : Draft => Carrying u key base d ∧ Settled d.1.nexus d.2) (scrubDeleted now key)
      (fun _ => Ready u key) (Stopped u key) := by
  unfold scrubDeleted
  refine triple_read_bind fun v => triple_ite (fun _ => ?_) fun _ => triple_pure fun d h =>
    ⟨h.2.1.stopped,h.2.1.held.pending,h.2.2⟩
  refine triple_bind (R := fun _ => Ready u key) (triple_on_fst fun t => ?_) fun _ =>
    triple_update fun d h => ⟨⟨h.stopped.reach,?_⟩,h.pending,h.settled⟩
  · have hkeep : ∀ w, (Carrying u key base (v.1,t) ∧ Settled v.1.nexus t) ∧ Reach u w ∧
        Frame (some key) v.1 w → Ready u key (w,t) := by
      rintro w ⟨⟨hcarry,hsettled⟩,hreach,hframe⟩
      obtain ⟨change,hl,hr⟩ := hcarry.stopped.stored
      exact ⟨⟨hreach,change,(hframe.spared key rfl).trans hl,hr⟩,
        hframe.control ▸ hcarry.held.pending,hframe.nexus ▸ hsettled⟩
    refine triple_mono (triple_fixed (C := Carrying u key base (v.1,t) ∧ Settled v.1.nexus t)
      fun _ => scrub_keeps v.1 now _ (some key)) ?_ (fun _ w h => hkeep w h)
      fun w h => (hkeep w h).stopped
    rintro w ⟨rfl,hcarry,hsettled⟩
    exact ⟨⟨hcarry,hsettled⟩,hcarry.held.reach,Frame.refl _ _⟩
  · obtain ⟨change,hl,-⟩ := h.stopped.stored
    exact ⟨change,hl,fun _ => rfl⟩

structure Confirmed (u : World) (key : String) (d : Draft) : Prop where
  ready : Ready u key d
  state : d.2.state = .confirmed
  stored : d.1.changes.lookup key = some d.2

theorem Confirmed.called {u w : World} {key : String} {t : StoredChange}
    (h : Confirmed u key (w,t)) : Confirmed u key ({ w with calls := w.calls+1 },t) :=
  ⟨⟨⟨h.ready.stopped.reach.called,h.ready.stopped.stored⟩,h.ready.pending,h.ready.settled⟩,
    h.state,h.stored⟩

theorem release_reach {t : StoredChange} (v : World) :
    Triple (fun w => v.control = w.control ∧ Confirmed u key (w,t))
      (putControl { v.control with pending := none }) (fun _ => Reach u)
      (fun w => Stopped u key (w,t)) := by
  refine triple_called (fun w h => ⟨h.1,h.2.called⟩) (fun _ h => h.2.ready.stopped)
    (triple_update fun w h => ?_)
  obtain ⟨hcontrol,hconfirmed⟩ := h
  have hreach : Reach u w := hconfirmed.ready.stopped.reach
  refine hreach.control (le_of_eq (by rw [hcontrol])) (fun k hk => nomatch hk) fun e he => ?_
  rcases List.mem_append.mp he with he | he
  · exact hreach.fenced.released e he
  obtain ⟨k,hk,rfl⟩ := List.mem_map.mp he
  have hkey : k = key := by
    simp only [Option.mem_toList,Option.filter_eq_some_iff] at hk
    exact Option.some.inj (hk.1.symm.trans hconfirmed.ready.pending)
  subst hkey
  exact ⟨t,hconfirmed.stored,hconfirmed.state,hconfirmed.ready.settled⟩

theorem confirm_releases {now : ℕ} :
    Triple (fun d : Draft => Carrying u key base d ∧ Settled d.1.nexus d.2) (confirm now key)
      (fun _ d => Reach u d.1) (Stopped u key) := by
  unfold confirm
  refine triple_bind scrub_deleted_ready fun _ => ?_
  refine triple_bind (R := fun _ d => Ready u key d ∧ d.2.state = .confirmed)
    (triple_update fun d h => ⟨⟨⟨h.stopped.reach,h.stopped.stored⟩,h.pending,h.settled⟩,rfl⟩)
    fun _ => ?_
  refine triple_read_bind fun v => triple_bind (R := fun _ => Confirmed u key) ?_ fun _ => ?_
  · refine triple_on_fst fun t => triple_pre (triple_put
      (P := fun w => v.2 = t ∧ Ready u key (w,t) ∧ t.state = .confirmed)
      (E := fun w => Stopped u key (w,t)) (Q := fun _ w => Confirmed u key (w,t))
      (fun w h => ?_) (fun w h => ?_) fun w h => h.2.1.stopped) fun w h => ⟨by rw [h.1],h.2⟩
    · exact ⟨h.1,⟨⟨h.2.1.stopped.reach.called,h.2.1.stopped.stored⟩,h.2.1.pending,h.2.1.settled⟩,
        h.2.2⟩
    obtain ⟨rfl,⟨⟨hreach,change,hl,hr⟩,hpending,hsettled⟩,hstate⟩ := h
    have hstorable : Storable w key v.2 := by
      refine ⟨fun hd => ?_,fun old ho => ?_⟩
      · cases hstate.symm.trans hd
      · obtain rfl := Option.some.inj (hl.symm.trans ho)
        exact hr
    exact ⟨⟨⟨hreach.put hstorable,v.2,by simp,id⟩,hpending,hsettled⟩,hstate,by simp⟩
  refine triple_keep (triple_on_fst fun t => triple_same (fun _ h => h.ready.stopped)
    (triple_call fun w h => h.called)) fun _ => ?_
  exact triple_read_bind fun v => triple_on_fst fun t =>
    triple_pre (release_reach v.1) fun w h => ⟨by rw [h.1],h.2⟩

variable (site engine) in
theorem carry_out_keeps (now : ℕ)
    (hbase : base.state = .discarded → base.requests = []) :
    Triple (Carrying u key base) (carryOut site engine now key) (fun _ d => Reach u d.1)
      (Stopped u key) := by
  unfold carryOut
  refine triple_keep carrying_call fun _ => triple_read_bind fun v => ?_
  refine triple_except_bind (fun _ h => h.2.stopped) fun _ _ => ?_
  refine triple_bind (R := fun _ => Carrying u key base) ?_ fun _ =>
    triple_bind verify_settles fun _ => confirm_releases
  rintro d ⟨rfl,hcarry⟩
  refine triple_each (I := Carrying u key base) (E := Stopped u key) (fun entry hentry => ?_) v hcarry
  have hopen : base.requests ≠ [] := by
    rw [← hcarry.requests]
    intro hnone
    rw [hnone] at hentry
    cases hentry
  exact request_carried hopen (fun hd => hopen (hbase hd)) entry

theorem wait_keeps {change copy : StoredChange}
    (hr : change.requests = [] → copy.requests = []) :
    Triple (fun w => Reach u w ∧ w.changes.lookup key = some change) (wait key copy)
      (fun _ => Reach u) (Reach u) := by
  refine triple_bind (triple_put (Q := fun _ => Reach u) (fun w h => ⟨h.1.called,h.2⟩)
    (fun w h => h.1.put ⟨fun hd => ?_,fun old ho => ?_⟩) fun w h => h.1) fun _ =>
      triple_pure fun _ h => h
  · cases hd
  · obtain rfl := Option.some.inj (h.2.symm.trans ho)
    exact hr

theorem apply_keeps {now : ℕ} {key : String} :
    Triple (fun w => Reach u w ∧ w.control.pending = some key) (apply site engine now key)
      (fun _ => Reach u) (Reach u) := by
  unfold apply
  refine triple_called (fun w h => ⟨h.1.called,h.2⟩) (fun _ h => h.1) ?_
  refine triple_bind (triple_err find_spec fun _ h => h.1) fun stored => ?_
  rintro w ⟨⟨hreach,hpending⟩,hl⟩
  have hcarry : Carrying u key stored (w,stored) :=
    ⟨⟨hreach,hpending,stored,hl,rfl,rfl⟩,rfl,rfl,rfl,rfl⟩
  have hrun := carry_out_keeps site engine now
    (hreach.fenced.emptied key stored hl) (w,stored) hcarry
  dsimp only
  generalize carryOut site engine now key (w,stored) = r at hrun ⊢
  obtain ⟨⟨next,copy⟩,answer⟩ := r
  cases answer with
  | ok a => exact hrun
  | error e =>
    obtain ⟨hnext,change,hchange,hr⟩ := hrun
    exact wait_keeps hr next ⟨hnext,hchange⟩

structure Committing (u : World) (now : ℕ) (key : String) (stored : StoredChange) (w : World) :
    Prop where
  reach : Reach u w
  shown : w.changes.lookup key = some stored ∨
    stored.state = .prepared ∧ stored.expiresAt < now ∧ w.control.pending ≠ some key

theorem fence_pending {now : ℕ} {auth : Auth} {operation key : String}
    {stored : StoredChange} :
    Triple (fun w => Committing u now key stored w ∧ w.control.pending = none)
      (fence site engine now auth operation key stored)
      (fun _ w => Reach u w ∧ w.control.pending = some key ∧ w.changes.lookup key = some stored)
      (Reach u) := by
  unfold fence
  refine triple_read_bind fun v => triple_refuse (fun w h => h.2.1.reach) fun hlive => ?_
  simp only [not_or,not_not,not_lt] at hlive
  refine triple_pre (P := fun w => v.control = w.control ∧ Reach u w ∧ w.control.pending = none ∧
    w.changes.lookup key = some stored) ?_ fun w h => ?_
  · refine triple_except_bind (fun _ h => h.2.1) fun _ _ => ?_
    refine triple_refuse (fun _ h => h.2.1) fun _ => triple_refuse (fun _ h => h.2.1) fun _ => ?_
    refine triple_keep (triple_called (fun w h => ⟨h.1,h.2.1.called,h.2.2⟩) (fun _ h => h.2.1)
      (triple_update fun w h => ⟨h.1,h.2.1.same ⟨rfl,rfl,rfl,rfl⟩,h.2.2⟩)) fun _ => ?_
    refine triple_called (fun w h => ⟨h.1,h.2.1.called,h.2.2⟩) (fun _ h => h.2.1)
      (triple_update fun w h => ?_)
    obtain ⟨hcontrol,hreach,hnone,hl⟩ := h
    refine ⟨hreach.control ?_ (fun k hk => ?_) fun e he => ?_,rfl,hl⟩
    · rw [hcontrol]
      exact Nat.le_succ _
    · obtain rfl := Option.some.inj hk
      rw [hl]
      rfl
    · rw [hnone] at he
      exact hreach.fenced.released e (by simpa using he)
  · obtain ⟨rfl,hcommitting,hnone⟩ := h
    refine ⟨rfl,hcommitting.reach,hnone,hcommitting.shown.resolve_right fun hlate => ?_⟩
    exact absurd hlate.2.1 (not_lt.mpr hlive.2)

theorem commit_keeps (operation previewDigest : String) :
    Keeps (commit site engine now auth operation previewDigest) := by
  intro u
  unfold commit
  refine triple_read_bind fun v => triple_except_bind (fun _ h => h.2) fun key hk => ?_
  refine triple_bind (triple_err find_spec fun _ h => h.2) fun stored => ?_
  refine triple_bind (R := fun _ => Committing u now key stored) ?_ fun _ => ?_
  · rintro w ⟨⟨rfl,hreach⟩,hl⟩
    refine triple_mono (show_spec site engine (R := Reach u) (fun _ h => h.called)
      (fun _ _ _ h _ => h.expired) v now auth operation) (fun _ h => h)
      (fun _ w' h => ?_) (fun _ h => h) v ⟨rfl,hreach⟩
    exact ⟨h.1,h.2.2 key hk stored hl⟩
  have hreach : ∀ {α : Type} {m : Action α}, Keeps m →
      Triple (Committing u now key stored) m (fun _ => Reach u) (Reach u) :=
    fun h => triple_pre (h u) (fun _ h => h.reach)
  refine triple_refuse (fun _ h => h.reach) fun _ => ?_
  refine triple_bind (R := fun v w => v.control = w.control ∧ Committing u now key stored w)
    (triple_read fun w h => ⟨rfl,h⟩) fun v => ?_
  refine triple_ite (fun _ => triple_pre (hreach (show_keeps now auth operation)) fun _ h => h.2)
    fun _ => ?_
  refine triple_refuse (fun _ h => h.2.reach) fun hother => ?_
  refine triple_refuse (fun _ h => h.2.reach) fun hlive => ?_
  refine triple_bind (R := fun _ w => Reach u w ∧ w.control.pending = some key ∧
    w.changes.lookup key = some stored) ?_ fun _ => ?_
  · unfold fenceFirst
    refine triple_ite (fun hnone => triple_pre fence_pending fun w h => ⟨h.2,h.1 ▸ hnone⟩)
      fun hsome => ?_
    refine triple_pure fun w h => ?_
    obtain ⟨hcontrol,hreach,hshown⟩ := h
    have hpending : w.control.pending = some key := by
      rw [hcontrol] at hsome hother
      cases hp : w.control.pending with
      | none => exact absurd hp hsome
      | some k =>
        simp only [hp,Option.any_some,decide_eq_true_eq,not_not] at hother
        rw [hother]
    exact ⟨hreach,hpending,hshown.resolve_right fun hlate => hlate.2.2 hpending⟩
  · refine triple_bind (R := fun _ w => Reach u w ∧ w.control.pending = some key)
      (triple_put (fun w h => ⟨h.1.called,h.2⟩) (fun w h => ⟨h.1.put ⟨fun hd => ?_,fun old ho => ?_⟩,
        h.2.1⟩) fun _ h => h.1) fun _ => apply_keeps
    · cases hd
    · obtain rfl := Option.some.inj (h.2.2.symm.trans ho)
      exact id

theorem recover_keeps : Keeps (recoverChange site engine now) := by
  intro u
  unfold recoverChange
  refine triple_keep ?_ fun _ => ?_
  · unfold resumeScrub
    refine triple_keep (triple_read fun _ h => h) fun v => ?_
    cases v.scrub with
    | none => exact triple_pure fun _ h => h
    | some scrub =>
      refine triple_rescue (I := Reach u) (fun w hw => ?_) (triple_throwing fun _ h => h)
      exact triple_mono (scrub_keeps w now scrub.ids scrub.except) (fun _ h => h)
        (fun _ _ h => h.1) (fun _ h => h.1) w ⟨hw,Frame.refl _ _⟩
  · refine triple_bind (R := fun v w => v.control = w.control ∧ Reach u w)
      (triple_read fun _ h => ⟨rfl,h⟩) fun v => ?_
    cases hp : v.control.pending with
    | none => exact triple_pure fun _ h => h.2
    | some key =>
      exact triple_bind (triple_pre apply_keeps fun w h => ⟨h.2,h.1 ▸ hp⟩)
        fun _ => triple_pure fun _ h => h

end Calls

/-! ## Runs -/

/-- The calls of the product, each with the clock it reads, and what else moves its store. -/
inductive Call where
  | prepare (now : ℕ) (auth : Auth) (input : ChangeInput)
  | commit (now : ℕ) (auth : Auth) (operation previewDigest : String)
  | discard (auth : Auth) (operation : String)
  | change (now : ℕ) (auth : Auth) (operation : String)
  | invalidate
  | suppress (keys : Finset String)
  | scrubChanges (now : ℕ) (erased : List ElementId) (but : Option String)
  | recover (now : ℕ)
  | bind (sources : String → Option Product.SourceIdentity)
      (evidence : String → ℕ → Option WorkerMemory.StoredBinding)
  | evolve (nexus : Nexus)

section Runs
variable (site : Site) (engine : Engine)

def finish {α : Type} (m : Action α) : Action Unit := do
  let _ ← m
  pure ()

def Call.action : Call → Action Unit
  | .prepare now auth input => finish (ManagedChanges.prepare site engine now auth input)
  | .commit now auth operation previewDigest =>
    finish (ManagedChanges.commit site engine now auth operation previewDigest)
  | .discard auth operation => ManagedChanges.discard site engine auth operation
  | .change now auth operation => finish (showChange site engine now auth operation)
  | .invalidate => ManagedChanges.invalidate site
  | .suppress keys => ManagedChanges.suppress keys
  | .scrubChanges now erased but => ManagedChanges.scrubChanges now erased but
  | .recover now => recoverChange site engine now
  | .bind sources evidence => update fun w => { w with sources, evidence }
  | .evolve nexus => update fun w => { w with nexus }

def World.step (w : World) (faults : ℕ → Bool) (call : Call) : World :=
  (call.action site engine { w with calls := 0, faults }).1

inductive Run (start : World) : World → Prop
  | here : Run start start
  | step {w : World} (rest : Run start w) (faults : ℕ → Bool) (call : Call) :
      Run start (w.step site engine faults call)

def Closed (w : World) : Prop :=
  (∀ epoch, check site w epoch = fail "memory_change_pending") ∧
    ∀ source origin, begin site w source origin = fail "memory_change_pending"

end Runs

structure Fresh (w : World) : Prop where
  pending : w.control.pending = none
  changes : ∀ key, w.changes.lookup key = none
  executed : w.executed = []
  released : w.released = []

section Runs
variable {site : Site} {engine : Engine}

theorem finish_keeps {α : Type} {m : Action α} (h : Keeps m) : Keeps (finish m) := fun u =>
  triple_bind (h u) fun _ => triple_pure fun _ h => h

variable (site engine) in
theorem action_keeps (call : Call) : Keeps (call.action site engine) := by
  cases call with
  | prepare now auth input => exact finish_keeps (prepare_keeps now auth input)
  | commit now auth operation digest => exact finish_keeps (commit_keeps now auth operation digest)
  | discard auth operation => exact discard_keeps auth operation
  | change now auth operation => exact finish_keeps (show_keeps now auth operation)
  | invalidate => exact invalidate_keeps
  | suppress keys => exact suppress_keeps keys
  | scrubChanges now erased but =>
    intro u w hw
    exact triple_mono (scrub_keeps w now erased but) (fun _ h => h) (fun _ _ h => h.1)
      (fun _ h => h.1) w ⟨hw,Frame.refl _ _⟩
  | recover now => exact recover_keeps now
  | bind sources evidence => exact fun u => triple_update fun w hw => hw.same ⟨rfl,rfl,rfl,rfl⟩
  | evolve nexus => exact fun u => triple_update fun w hw => hw.same ⟨rfl,rfl,rfl,rfl⟩

variable (site engine) in
theorem step_reach {w : World} (h : Fenced w) (faults : ℕ → Bool) (call : Call) :
    Reach w (w.step site engine faults call) := by
  have hstart : Reach w { w with calls := 0, faults } := (Reach.refl h).same ⟨rfl,rfl,rfl,rfl⟩
  have hcall := action_keeps site engine call w _ hstart
  unfold World.step
  generalize call.action site engine { w with calls := 0, faults } = r at hcall ⊢
  obtain ⟨next,answer⟩ := r
  cases answer <;> exact hcall

theorem run_reach {start w : World} (h : Fenced start) (hrun : Run site engine start w) :
    Reach start w := by
  induction hrun with
  | here => exact Reach.refl h
  | step rest faults call ih =>
    have hstep := step_reach site engine ih.fenced faults call
    exact ⟨hstep.fenced,ih.follows.trans hstep.follows⟩

theorem fresh_fenced {w : World} (h : Fresh w) : Fenced w := by
  refine ⟨fun key hk => ?_,fun key change hl => ?_,fun e he => ?_,fun e he => ?_⟩
  · rw [h.pending] at hk
    cases hk
  · rw [h.changes] at hl
    cases hl
  · rw [h.executed] at he
    cases he
  · rw [h.released] at he
    cases he

theorem closed_while_pending {w : World}
    (h : w.control.pending.isSome ∨ w.scrub.isSome) : Closed site w := by
  have hshut : ∀ epoch, check site w epoch = fail "memory_change_pending" := by
    intro epoch
    have hc : ((World.product site w).pending.isSome || (World.product site w).scrub.isSome) = true := by
      simpa [World.product] using h
    simp only [check,WorkerMemory.ProductStore.check,hc,if_true]
  refine ⟨hshut,fun source origin => ?_⟩
  have hfirst := hshut w.control.epoch
  unfold check at hfirst
  have hepoch : (World.product site w).epoch = w.control.epoch := rfl
  unfold begin WorkerMemory.ProductStore.begin
  simp only [hepoch,hfirst,bind,Except.bind,fail]

/-- The fence of the managed changes, over every run of their calls. -/
theorem runs_stay_fenced {start w : World} (h : Fresh start) (hrun : Run site engine start w) :
    Fenced w ∧ (w.control.pending.isSome ∨ w.scrub.isSome → Closed site w) ∧ ∀ later, Run site
    engine w later → w.control.epoch ≤ later.control.epoch ∧ ∀ key change, w.changes.lookup key =
    some change → change.state = .discarded → executionsOf later key = executionsOf w key := by
  have hreach := run_reach (fresh_fenced h) hrun
  refine ⟨hreach.fenced,closed_while_pending,fun later hlater => ?_⟩
  have hnext := run_reach hreach.fenced hlater
  exact ⟨hnext.follows.epoch,fun key change hl hd =>
    hnext.follows.silent key change hl (hreach.fenced.emptied key change hl hd)⟩

end Runs

/-! ## A deletion that goes through -/

def owner : Auth := ⟨"owner",""⟩

def ada : ElementId := ⟨.concept,1⟩

def berlin : ElementId := ⟨.concept,2⟩

def livesIn : ElementId := ⟨.proposition,1⟩

def claim : ElementId := ⟨.assertion,1⟩

def cited : ElementId := ⟨.evidence,1⟩

def origin : String := "formation:sha256:"++String.ofList (List.replicate 64 'a')

def blankElement : Element where
  space := "brain"
  state := .active
  version := 1
  readable := true
  legalHold := false
  className := ""
  propositionId := livesIn
  actor := none
  evidenceRefs := []
  endpoints := []
  clientKey := .other ""
  payloadDigest := none
  contentDigest := ""
  observedAt := none
  readers _ := true
  name := ""
  key := ""
  schemaRef := ""
  predicate := ""
  subject := .null
  object := .null
  stance := ""
  status := ""
  assertedAt := none
  validFrom := none
  validUntil := none
  contextRefs := []
  updatedAt := ""

def sampleElements : List (ElementId × Element) :=
  [(ada,{ blankElement with name := "Ada", key := "owner" }),
    (berlin,{ blankElement with name := "Berlin" }),
    (livesIn,{ blankElement with
      predicate := "lives_in", subject := .element ada, object := .element berlin }),
    (claim,{ blankElement with
      actor := some ada, evidenceRefs := [cited], stance := "support", status := "active" }),
    (cited,{ blankElement with
      clientKey := .formation origin 1, payloadDigest := some "digest" })]

def sampleNexus : Nexus where
  space := "brain"
  seq := 1
  load id := sampleElements.lookup id
  referrers id := if id = livesIn ∨ id = cited then [claim] else []
  internal := 0

def Nexus.purge (nexus : Nexus) (ids : List ElementId) : Nexus :=
  { nexus with load := fun i => (nexus.load i).map fun e =>
      if i ∈ ids then { e with state := .purged, name := "" } else e }

def sampleEngine : Engine where
  permits _ _ := true
  mutate nexus _ request key :=
    match request, key with
    | .purge id _, some _ => (nexus.purge [id],.ok ⟨true,none,none,[id]⟩)
    | _, _ => (nexus,.ok ⟨false,none,none,[]⟩)

def sampleSite : Site where
  anonymous := "anonymous"
  previewDigest _ := "preview"
  changeKey caller operation := caller++":"++operation
  statementDigest _ := "statement"
  isoOf _ := "2026-01-01T00:00:00.000Z"
  clip := id
  localName := id
  blank value := value.isEmpty
  endpoint := some
  latest := id

def sampleWorld : World where
  nexus := sampleNexus
  control := ⟨0,none⟩
  sources o := if o = origin then some ⟨"source",[]⟩ else none
  evidence o i := if o = origin ∧ i = 1 then some ⟨"digest",none⟩ else none
  suppressed := ∅
  changes := SortedMap.empty
  scrub := none
  executed := []
  released := []
  erasures := []
  since _ := []
  calls := 0
  faults _ := false

def deletion : ChangeInput := ⟨"erase",claim,1,.delete,none⟩

def noFaults : ℕ → Bool := fun _ => false

def preparedWorld : World :=
  sampleWorld.step sampleSite sampleEngine noFaults (.prepare 0 owner deletion)

def confirmedWorld : World :=
  preparedWorld.step sampleSite sampleEngine noFaults (.commit 0 owner "erase" "preview")

theorem sample_fresh : Fresh sampleWorld := ⟨rfl,fun _ => rfl,rfl,rfl⟩

/-- The deletion of a claim runs three requests under the fence, and is released confirmed. -/
theorem runs_stay_fenced_deletion : Fenced confirmedWorld ∧ confirmedWorld.control = ⟨1,none⟩ ∧
    confirmedWorld.executed.length = 3 ∧ confirmedWorld.released.length = 1 := by
  have hrun : Run sampleSite sampleEngine sampleWorld confirmedWorld :=
    .step (.step .here noFaults (.prepare 0 owner deletion)) noFaults
      (.commit 0 owner "erase" "preview")
  refine ⟨(runs_stay_fenced sample_fresh hrun).1,?_⟩
  decide +kernel

end AndaBrain.ManagedChanges
