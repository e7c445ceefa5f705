import AndaBrain.ProductSteps

/-!
# The managed-change fence and discarded changes

The runs of the product control: operations take the gate one after the other, the process may
stop between any two of their steps, and the next process reads the durable state.
-/

set_option autoImplicit false

namespace AndaBrain.Product
open Foundation.Resumption Foundation.ConditionalStore

abbrev Log := List (Op × Except String Reply)

def Discards (lib : Library) (o : Op) (key : String) : Prop :=
  match o with
  | .discard caller id => operationKey lib caller id = .ok key
  | _ => False

def Attempts (lib : Library) (o : Op) (key : String) : Prop :=
  match o with
  | .prepare caller input => operationKey lib caller input.operationId = .ok key
  | .commit caller id _ => operationKey lib caller id = .ok key
  | _ => False

def DiscardedIn (lib : Library) (log : Log) (key : String) : Prop :=
  ∃ o r, (o,Except.ok r) ∈ log ∧ Discards lib o key

def Refused (lib : Library) (log : Log) : Prop :=
  ∀ key before o r after, log = before++(o,Except.ok r)::after → Attempts lib o key →
    ¬DiscardedIn lib before key

def Inv (lib : Library) (log : Log) (w : World) : Prop :=
  Quiet w ∧ Refused lib log ∧ ∀ key, DiscardedIn lib log key → Retired w key

def Amid (lib : Library) (log : Log) (w : World) : Prop :=
  Mid w ∧ Refused lib log ∧ ∀ key, DiscardedIn lib log key → Retired w key

def Moves (lib : Library) (o : Op) (a b : World) : Prop :=
  Step a b ∧ ∀ key, Discards lib o key → requestsOf a key = []

def Answered (lib : Library) (o : Op) (a b : World) : Prop :=
  ∀ key, (Attempts lib o key → ¬Retired a key) ∧ (Discards lib o key → Retired b key)

theorem op_safe_of {α : Type} (lib : Library) (o : Op) (p : M α) (f : α → Reply) (w : World)
    (ho : ∀ key, ¬Discards lib o key)
    (h : Safe Step (fun _ b => Quiet b ∧ ∀ key, Attempts lib o key → ¬Retired w key) Failed p w) :
    Safe (Moves lib o) (fun _ b => Quiet b ∧ Answered lib o w b) Failed
      (do let a ← p; pure (f a)) w := by
  apply safe_bind
  apply safe_mono _ _ h
  · exact fun _ _ hs => ⟨hs,fun key hd => absurd hd (ho key)⟩
  · exact fun _ _ hq => ⟨hq.1,fun key => ⟨hq.2 key,fun hd => absurd hd (ho key)⟩⟩
  · exact fun _ _ he => he

theorem safe_quiet {α : Type} (lib : Library) (o : Op) (p : M α) (w : World)
    (ho : ∀ key, ¬Attempts lib o key) (h : Safe Step (fun _ b => Quiet b) Failed p w) :
    Safe Step (fun _ b => Quiet b ∧ ∀ key, Attempts lib o key → ¬Retired w key) Failed p w := by
  apply safe_mono _ _ h
  · exact fun _ _ hs => hs
  · exact fun _ _ hq => ⟨hq,fun key ha => absurd ha (ho key)⟩
  · exact fun _ _ he => he

variable (w : World) (lib : Library) (native : Graph) (key : String)

theorem op_safe (o : Op) (w : World) (hw : Quiet w) :
    Safe (Moves lib o) (fun _ b => Quiet b ∧ Answered lib o w b) Failed (prog lib o) w := by
  cases o with
  | prepare caller input => exact op_safe_of lib _ _ _ w (fun _ => id) (prepare_safe _ _ _ w hw)
  | commit caller name previewDigest =>
    exact op_safe_of lib _ _ _ w (fun _ => id) (commit_safe _ _ _ _ w hw)
  | discard caller name =>
    apply safe_bind
    apply safe_mono _ _ (discard_safe lib caller name w hw)
    · exact fun _ _ hs => hs
    · exact fun _ _ hq => ⟨hq.1,fun key => ⟨False.elim,hq.2 key⟩⟩
    · exact fun _ _ he => he
  | recover key =>
    exact op_safe_of lib _ _ _ w (fun _ => id)
      (safe_quiet lib _ _ w (fun _ => id) (recover_safe key w hw))
  | suppressSources keys =>
    exact op_safe_of lib _ _ _ w (fun _ => id)
      (safe_quiet lib _ _ w (fun _ => id) (suppress_safe keys w hw))
  | admitSource source =>
    apply safe_after _ _ _ (silent_query _) fun _ => hw
    intro state
    split
    · exact ⟨hw,fun key => ⟨False.elim,False.elim⟩⟩
    · exact hw
  | check processing =>
    apply safe_after _ _ _ (silent_query _) fun _ => hw
    intro state
    apply safe_after _ _ _ (silent_lift _) fun _ => hw
    intro _
    exact ⟨hw,fun key => ⟨False.elim,False.elim⟩⟩
  | forget erased =>
    exact op_safe_of lib _ _ _ w (fun _ => id)
      (safe_quiet lib _ _ w (fun _ => id) (forget_safe erased w hw))
  | work =>
    apply op_safe_of lib _ _ _ w (fun _ => id)
    apply safe_quiet lib _ _ w (fun _ => id)
    apply safe_atomic
    · exact fun i => Or.inr (work_step w _ hw)
    · exact fun i _ _ => work_quiet w _ hw
    · exact fun i _ _ => work_quiet w _ hw

theorem reboot_quiet (h : Mid w) : Quiet (reboot w) := by
  obtain ⟨state,hs,hc,_,_⟩ := h
  have hp : (reboot w).published = state := by simp [reboot, hs]
  refine ⟨?_,?_,?_⟩
  · rw [hp]
    exact hs
  · intro key hk
    rw [hp] at hk
    simp [reboot, hs, hk]
  intro key ht
  rw [hp]
  apply hc key
  rcases ht with hm | hr
  · simp only [reboot, hs, Option.getD_some, Option.mem_toList] at hm
    exact Or.inl hm
  · exact Or.inr hr

theorem reboot_retired (h : Mid w) (hr : Retired w key) : Retired (reboot w) key := by
  obtain ⟨state,hs,_⟩ := h
  refine ⟨hr.marked,hr.discarded,?_,hr.durable⟩
  rw [show (reboot w).published = state by simp [reboot, hs]]
  exact hr.durable state hs

theorem discarded_in_snoc (log : Log) (o : Op) (a : Except String Reply)
    (key : String) (h : DiscardedIn lib (log++[(o,a)]) key) :
    DiscardedIn lib log key ∨ (Discards lib o key ∧ ∃ r, a = .ok r) := by
  obtain ⟨p,r,hmem,hd⟩ := h
  rcases List.mem_append.mp hmem with hm | hm
  · exact Or.inl ⟨p,r,hm,hd⟩
  · cases List.mem_singleton.mp hm
    exact Or.inr ⟨hd,r,rfl⟩

theorem refused_snoc (log : Log) (o : Op) (a : Except String Reply) (h : Refused lib log)
    (hn : ∀ key, Attempts lib o key → (∃ r, a = .ok r) → ¬DiscardedIn lib log key) : Refused lib
    (log++[(o,a)]) := by
  intro key before p r after heq hat
  rcases List.eq_nil_or_concat after with rfl | ⟨front,z,rfl⟩
  · obtain ⟨hl,hz⟩ := List.append_inj' heq rfl
    cases hz
    subst hl
    exact hn key hat ⟨r,rfl⟩
  · rw [List.concat_eq_append, ← List.cons_append, ← List.append_assoc] at heq
    exact h key before p r front (List.append_inj' heq rfl).1 hat

theorem discipline : Discipline (prog lib) reboot (Inv lib) (Amid lib) (Moves lib) := by
  refine ⟨fun log w h => ⟨quiet_mid w h.1,h.2⟩,?_,?_⟩
  · intro o log w h
    obtain ⟨hq,hr,hd⟩ := h
    have hframe := safe_frame (fun t => ∀ key, DiscardedIn lib log key → Retired t key)
      (fun a b hm hp key hk => (hm.1.retired key (hp key hk)).1) _ w (op_safe lib o w hq) hd
    apply safe_mono _ _ hframe
    · exact fun a b hg => ⟨hg.1,hg.1.1.mid,hr,hg.2⟩
    · intro r b hb
      refine ⟨hb.1.1,?_,?_⟩
      · apply refused_snoc lib log o _ hr
        intro key hat _ hk
        exact (hb.1.2 key).1 hat (hd key hk)
      intro key hk
      rcases discarded_in_snoc lib log o _ key hk with hk | ⟨hk,_⟩
      · exact hb.2 key hk
      · exact (hb.1.2 key).2 hk
    · intro e b hb
      refine ⟨hb.1,?_,?_⟩
      · apply refused_snoc lib log o _ hr
        rintro key _ ⟨r,hr⟩
        cases hr
      intro key hk
      rcases discarded_in_snoc lib log o _ key hk with hk | ⟨_,r,hr⟩
      · exact hb.2 key hk
      · cases hr
  · intro log w h
    exact ⟨reboot_quiet w h.1,h.2.1,fun key hk => reboot_retired w key h.1 (h.2.2 key hk)⟩

abbrev Running := Config Op Reply String Env World

def initial (native : Graph) : Running := ⟨fresh native,none,[]⟩

theorem fresh_quiet : Quiet (fresh native) := by
  refine ⟨value_place _ _ _,?_,?_⟩
  · intro key h
    cases h
  intro key h
  rcases h with h | h
  · cases h
  · exact absurd rfl h

theorem initial_sound : Sound (Inv lib) (Amid lib) (Moves lib) (initial native) := by
  apply sound_idle (discipline lib) _ rfl
  refine ⟨fresh_quiet native,?_,?_⟩
  · intro key before o r after h
    simp [initial] at h
  · rintro key ⟨o,r,h,_⟩
    cases h

def FenceHeld (w : World) : Prop :=
  ∃ state, durable w = some state ∧
    (∀ j k, w.published.pending = some j → state.pending = some k → j = k) ∧
    ∀ key, w.published.pending = some key ∨ state.pending = some key → change w key ≠ none

def FenceMoves (a b : World) : Prop :=
  Follows a a.published b.published ∧
  ∃ old new, durable a = some old ∧ durable b = some new ∧ Follows a old new

theorem mid_held (h : Mid w) : FenceHeld w := by
  obtain ⟨state,hs,hc,hp,hf⟩ := h
  have hstored : ∀ st, Coherent w st → ∀ key, st.pending = some key → change w key ≠ none := by
    intro st hst key hk
    obtain ⟨x,hx,_⟩ := hst key (Or.inl hk)
    rw [hx]
    exact Option.some_ne_none x
  refine ⟨state,hs,?_,?_⟩
  · intro j k hj hk
    rcases hf.cleared j hj with h | ⟨h,_⟩
    · rw [h] at hk
      cases hk
      rfl
    · rw [h] at hk
      cases hk
  · intro key hk
    rcases hk with hk | hk
    · exact hstored _ hp key hk
    · exact hstored _ hc key hk

/-- The managed-change fence, in every state and at every event of every run. -/
theorem managed_change_fence (lib : Library) (native : Graph) (es : List (Event Op Env))
    (e : Event Op Env) : FenceHeld (run (prog lib) reboot (initial native) es).state ∧ FenceMoves
    (run (prog lib) reboot (initial native) es).state
    (advance (prog lib) reboot (run (prog lib) reboot (initial native) es) e).state := by
  have hsound := run_sound (discipline lib) _ es (initial_sound lib native)
  have hnext := advance_sound (discipline lib) _ e hsound
  have hmid : Mid (run (prog lib) reboot (initial native) es).state := hsound.1.1
  obtain ⟨old,ho,_,_,hf⟩ := hmid
  refine ⟨mid_held _ hsound.1.1,?_⟩
  rcases advance_state (prog lib) reboot _ e hsound with hs | ⟨o,p,_,hg⟩ | hb
  · rw [hs]
    exact ⟨follows_refl _ _,old,old,ho,ho,follows_refl _ _⟩
  · obtain ⟨new,hn,_⟩ := hnext.1.1
    exact ⟨hg.1.published,old,new,ho,hn,hg.1.durable old new ho hn⟩
  rw [hb]
  refine ⟨?_,old,old,ho,ho,follows_refl _ _⟩
  rw [show (reboot (run (prog lib) reboot (initial native) es).state).published = old by
    simp [reboot, ho]]
  exact hf

def reach (lib : Library) (native : Graph) (es : List (Event Op Env)) : Running :=
  run (prog lib) reboot (initial native) es

theorem reach_sound (es : List (Event Op Env)) :
    Sound (Inv lib) (Amid lib) (Moves lib) (reach lib native es) :=
  run_sound (discipline lib) _ es (initial_sound lib native)

theorem requests_of_discarded
    (es : List (Event Op Env)) (h : DiscardedIn lib (reach lib native es).log key) :
    requestsOf (reach lib native es).state key = [] := by
  obtain ⟨⟨_,_,_,hcoherent,_⟩,_,hretired⟩ := (reach_sound lib native es).1
  by_contra hr
  exact bound_not_retired _ key (hcoherent key (Or.inr hr)) (hretired key h)

theorem discarded_in_mono (log more : Log) (key : String) (hp : log <+: more)
    (h : DiscardedIn lib log key) : DiscardedIn lib more key := by
  obtain ⟨o,r,hm,hd⟩ := h
  exact ⟨o,r,hp.subset hm,hd⟩

theorem later_attempts_refused (log more : Log)
    (hr : Refused lib (log++more)) (hd : DiscardedIn lib log key) (o : Op) (a : Except String Reply)
    (hm : (o,a) ∈ more) (ho : Attempts lib o key) : ∃ e, a = .error e := by
  cases a with
  | error e => exact ⟨e,rfl⟩
  | ok r =>
    obtain ⟨before,after,rfl⟩ := List.append_of_mem hm
    apply absurd (discarded_in_mono lib log (log++before) key (List.prefix_append _ _) hd)
    apply hr key (log++before) o r after _ ho
    rw [List.append_assoc]

theorem discard_spares_executed (c : Running) (key : String) (o : Op)
    (p : M Reply) (e : Event Op Env) (hs : Sound (Inv lib) (Amid lib) (Moves lib) c)
    (hc : c.running = some (o,p)) (ho : Discards lib o key) (hr : requestsOf c.state key ≠ []) :
    change (advance (prog lib) reboot c e).state key = change c.state key := by
  rcases advance_state (prog lib) reboot c e hs with hsame | ⟨q,r,hq,hg⟩ | hboot
  · rw [hsame]
  · rw [hc] at hq
    cases hq
    exact absurd (hg.2 key ho) hr
  · rw [hboot]
    rfl

/-- Once a discard of the key has returned success, no request of its change is
ever executed and every later prepare or commit under the key is refused; and a
discard leaves a change alone for which any request was executed. -/
theorem discarded_change_never_applies (lib : Library) (native : Graph) (key : String)
    (es fs : List (Event Op Env)) :
    (DiscardedIn lib (reach lib native es).log key →
      requestsOf (reach lib native (es++fs)).state key =
        requestsOf (reach lib native es).state key ∧
      ∀ o a, (o,a) ∈ (reach lib native (es++fs)).log.drop (reach lib native es).log.length →
        Attempts lib o key → ∃ e, a = .error e) ∧
    ∀ o p e, (reach lib native es).running = some (o,p) → Discards lib o key →
      requestsOf (reach lib native es).state key ≠ [] →
      change (advance (prog lib) reboot (reach lib native es) e).state key =
        change (reach lib native es).state key := by
  have hlog : (reach lib native es).log <+: (reach lib native (es++fs)).log := by
    unfold reach
    rw [run_append]
    exact run_log _ _ _ _
  constructor
  · intro hd
    have hlater := discarded_in_mono lib _ _ key hlog hd
    constructor
    · rw [requests_of_discarded lib native key _ hd, requests_of_discarded lib native key _ hlater]
    obtain ⟨more,hmore⟩ := hlog
    have hrefused := (reach_sound lib native (es++fs)).1.2.1
    rw [← hmore] at hrefused ⊢
    rw [List.drop_left]
    intro o a hm ho
    exact later_attempts_refused lib key _ more hrefused hd o a hm ho
  · intro o p e hrun ho hr
    exact discard_spares_executed lib _ key o p e (reach_sound lib native es) hrun ho hr

section Sample

def sampleLibrary : Library where
  operationDigest _ id := .ok ("sha256:"++id)
  inputDigest input := .ok input.recordId
  previewDigest preview := .ok preview.record.id
  timestamp _ := "2026-01-01T00:00:00Z"
  point _ := none

def sampleRecord : MemoryRecord where
  id := "A-1"
  revision := 3
  propositionId := "P-1"
  actorId := some "C-1"
  actorKey := some "alice"
  subject := .null
  predicate := "likes"
  object := .null
  text := "alice · likes · tea"
  subjectLabel := "alice"
  objectLabel := "tea"
  stance := "support"
  status := "active"
  storageState := "active"
  assertedAt := none
  validFrom := none
  validUntil := none
  contextRefs := []
  updatedAt := "2026-01-01T00:00:00Z"
  sources := [⟨"E-1",none,some 7,none,some 0,none⟩]
  sourcesComplete := true

def sampleEnv : Env where
  storage := .up
  now := 5
  productRecord _ := .ok sampleRecord
  addSourceKeys _ keys := .ok (insert "formation:7" keys)
  deletionTargets _ keys := .ok ([⟨"A-1",3,"assertion"⟩],keys)
  conceptSchema _ := .error "not found"
  parseOperations _ := .ok ()
  dryRun _ := true
  execute _ graph := (⟨true,"",none,none⟩,Function.update graph "A-1" (some .purged))
  resetNotes := .ok ()
  currentSeq := .ok 9
  changeKeys := .ok []
  work graph := graph

def sampleGraph : Graph := fun id => if id = "A-1" then some (.live "active") else none

def sampleInput : ChangeInput := ⟨"op","A-1",3,.delete,none⟩

def samplePrepare : List (Event Op Env) :=
  .start (.prepare "alice" sampleInput)::List.replicate 14 (.tick sampleEnv)

def sampleCommit : List (Event Op Env) :=
  .start (.commit "alice" "op" "A-1")::List.replicate 36 (.tick sampleEnv)

def sampleDiscard : List (Event Op Env) :=
  .start (.discard "alice" "op")::List.replicate 9 (.tick sampleEnv)

/-- A prepared deletion commits: it takes the fence, erases its target and
releases the fence. -/
example :
    ((reach sampleLibrary sampleGraph (samplePrepare++sampleCommit)).state.published.epoch,
      (reach sampleLibrary sampleGraph (samplePrepare++sampleCommit)).state.published.pending,
      (reach sampleLibrary sampleGraph (samplePrepare++sampleCommit)).state.native "A-1") =
    (1,none,some .purged) := by decide +kernel

theorem sample_discard_succeeds : DiscardedIn sampleLibrary
    (reach sampleLibrary sampleGraph (samplePrepare++sampleDiscard)).log "op" :=
  ⟨.discard "alice" "op",.done,by decide +kernel,rfl⟩

theorem discarded_change_never_applies_commit : requestsOf
    (reach sampleLibrary sampleGraph ((samplePrepare++sampleDiscard)++sampleCommit)).state "op" =
    requestsOf (reach sampleLibrary sampleGraph (samplePrepare++sampleDiscard)).state "op" :=
  ((discarded_change_never_applies sampleLibrary sampleGraph "op" (samplePrepare++sampleDiscard)
    sampleCommit).1 sample_discard_succeeds).1

end Sample

end AndaBrain.Product
