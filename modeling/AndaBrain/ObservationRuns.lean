import AndaBrain.ObservationSteps

/-!
# Runs of the observation runtime

Over every schedule of operations and stops the index only grows.
-/

set_option autoImplicit false

namespace AndaBrain.Observation
open Foundation.Resumption Foundation.ConditionalStore

section Silence

theorem provenance_silent (observer : String) (input : OutcomeInput) (attempt : AttemptRow) :
    Silent (provenance observer input attempt) := by
  apply silent_bind _ _ (silent_lift _)
  intro _
  apply silent_bind _ _ (silent_query _)
  intro found
  apply silent_bind _ _ (silent_lift _)
  intro tx
  apply silent_bind _ _ (silent_refuse _ _)
  intro _
  apply silent_bind _ _ (silent_lift _)
  intro principal
  exact silent_refuse _ _

theorem corrected_silent (site : Site) (observer : String) (input : OutcomeInput) :
    Silent (correctedOutcome site observer input) := by
  rw [correctedOutcome.eq_def]
  cases input.correctionOf with
  | none => trivial
  | some event =>
    apply silent_bind (findRow _) _ (read_value_silent _)
    intro found
    apply silent_bind _ _ (silent_lift _)
    intro prior
    apply silent_bind _ _ (silent_lift _)
    intro _
    apply silent_bind _ _ (silent_refuse _ _)
    intro _
    cases prior.receipt.outcomeRef with
    | none => trivial
    | some reference => exact silent_bind _ _ (silent_query _) fun _ => trivial

theorem inbox_silent (site : Site) (v : Vetted) (m : Measurement) :
    Silent (inboxCheck site v m) := by
  apply silent_bind _ _ (silent_refuse _ _)
  intro _
  apply silent_bind _ _ (silent_query _)
  intro found
  apply silent_bind _ _ (silent_lift _)
  intro delivery
  exact silent_refuse _ _

end Silence

section Submission
variable {α β : Type} {b : Prop} {w : World} {C : Env → World → Prop}

/-- A fresh closing observation meets the closing receipt of another event that has a command. -/
def Contested (site : Site) (observer : String) (input : OutcomeInput) (w : World) : Prop :=
  input.closes = true ∧ w.row (.receipt site.scope observer input.eventKey) = none ∧
  ∃ (other : RuntimeScope × String × String) (r : StoredReceipt),
    w.row (.receipt other.1 other.2.1 other.2.2) = some r ∧ r.closing input.attemptRef

/-- Where a submission is contested, the dispatch that the native store names for the attempt has
its outcome. -/
def Settled (site : Site) (o : Op) (_ : M Unit) (i : Env) (w : World) : Prop :=
  match o with
  | .submit observer input => Contested site observer input w →
      ∀ row id, i.attempt = .ok row → row.attemptId = some id →
        (w.closed ⟨site.scope,id⟩).isSome = true
  | .consumeLearningSafety _ _ => True

def KeepsIf (b : Prop) (C : Env → World → Prop) (Q : α → World → Prop) (p : M α) (w : World) :
    Prop :=
  SafeIf (fun _ i t => C i t) (fun a t => Grows a t ∧ Sound b t) Q (fun _ t => Sound b t) p w

theorem keeps_if_of_keeps (p : M α) {Q : α → World → Prop} (h : Keeps b Q p w) :
    KeepsIf b C Q p w :=
  safe_if_of_safe _ _ _ h

theorem keeps_if_bind (p : M α) (f : α → M β) {Q : β → World → Prop}
    (h : KeepsIf b C (fun a t => KeepsIf b C Q (f a) t) p w) : KeepsIf b C Q (p >>= f) w :=
  safe_if_seq _ _ p f w (fun _ _ _ hc => hc) h

theorem keeps_if_after (p : M α) (f : α → M β) {Q : β → World → Prop} (hp : Silent p)
    (h : Sound b w) (hf : ∀ a, KeepsIf b C Q (f a) w) : KeepsIf b C Q (p >>= f) w :=
  safe_if_after _ _ _ _ hp (fun _ => h) hf

theorem keeps_if_query (g : Env → World → Except RuntimeError α) (f : α → M β)
    {Q : β → World → Prop} (h : Sound b w)
    (hf : ∀ i a, C i w → g i w = .ok a → KeepsIf b C Q (f a) w) :
    KeepsIf b C Q (query g >>= f) w := by
  intro i hi
  refine ⟨Or.inl rfl,?_⟩
  show KeepsIf b C Q (lift (g i w) >>= f) w
  cases hg : g i w with
  | error e => exact h
  | ok a => exact hf i a hi hg

variable {site : Site} {observer : String} {input : OutcomeInput}

/-- What `vet` makes of the input, and what it knows of the attempt where the answers conform. -/
structure Vouched (b : Prop) (site : Site) (observer : String) (input : OutcomeInput) (w : World)
    (v : Vetted) : Prop where
  carried : v.input = { input with observedAt := v.input.observedAt }
  settled : b → Contested site observer input w → ∀ id, v.attempt.attemptId = some id →
    (w.closed ⟨site.scope,id⟩).isSome = true

theorem vet_keeps_if {Q : Vetted → World → Prop} (h : Sound b w)
    (hC : b → ∀ i t, C i t → Settled site (.submit observer input) (pure ()) i t)
    (hq : ∀ v, Vouched b site observer input w v → Q v w) :
    KeepsIf b C Q (vet observer input) w := by
  apply keeps_if_after _ _ (silent_query _) h
  intro _
  apply keeps_if_after _ _ (silent_query _) h
  intro bytes
  apply keeps_if_after _ _ (silent_refuse _ _) h
  intro _
  apply keeps_if_after _ _ (silent_query _) h
  intro observedAt
  apply keeps_if_after _ _ (silent_query _) h
  intro observed
  apply keeps_if_after _ _ (silent_query _) h
  intro now
  apply keeps_if_after _ _ (silent_refuse _ _) h
  intro _
  -- The answer that names the attempt is the one the condition speaks of.
  apply keeps_if_query _ _ h
  intro i attempt hi hrow
  have hsettled : b → Contested site observer input w → ∀ id, attempt.attemptId = some id →
      (w.closed ⟨site.scope,id⟩).isSome = true :=
    fun hb hc id hid => hC hb i w hi hc attempt id hrow hid
  apply keeps_if_after _ _ (silent_lift _) h
  intro decisionRef
  apply keeps_if_after _ _ (silent_query _) h
  intro decision
  apply keeps_if_after _ _ (silent_refuse _ _) h
  intro _
  apply keeps_if_after _ _ (provenance_silent observer _ attempt) h
  intro _
  apply keeps_if_after _ _ (silent_lift _) h
  intro started
  apply keeps_if_after _ _ (silent_refuse _ _) h
  intro _
  exact hq _ ⟨rfl,hsettled⟩

theorem need_ok {o : Option α} {e : RuntimeError} {a : α} (h : need o e = .ok a) : o = some a := by
  cases o with
  | none => cases h
  | some _ =>
    cases h
    rfl

theorem dispatch_reads (v : Vetted) (reference : DispatchRef) {Q : Option String → World → Prop}
    (h : Sound b w) (hq : Q (w.closed reference) w) :
    Keeps b Q (admittedDispatch v reference) w := by
  apply keeps_bind
  apply safe_query
  · intro i found hfound
    have hclosed : found.2 = w.closed reference := by
      cases hd : i.dispatch with
      | error e => simp [hd, Except.map] at hfound
      | ok row =>
        rw [hd] at hfound
        cases hfound
        rfl
    obtain ⟨row,closed⟩ := found
    subst hclosed
    apply keeps_after _ _ (silent_lift _) h
    intro row
    apply keeps_after _ _ (silent_refuse _ _) h
    intro _
    apply keeps_after _ _ (silent_lift _) h
    intro first
    apply keeps_after _ _ (silent_refuse _ _) h
    intro _
    exact hq
  · intro _ _ _
    exact h

variable (family : String) (v : Vetted) (contract : ObserverContract) (reference : DispatchRef)
  (closed correction : Option String)

theorem fresh_receipt_input :
    (freshReceipt site observer family v contract reference closed correction).input = v.input := by
  rw [freshReceipt]
  split
  · rfl
  split <;> rfl

theorem fresh_receipt_keyed (c : Command)
    (hc : (freshReceipt site observer family v contract reference closed correction).command =
      some c) :
    (freshReceipt site observer family v contract reference closed correction).nativeKey =
      .event site.scope observer v.input.eventKey ∧
    c.input = (freshReceipt site observer family v contract reference closed correction).input := by
  rw [freshReceipt] at hc ⊢
  split at hc
  · cases hc
  split at hc
  · cases hc
  rename_i hlate hclosed
  simp only [if_neg hlate, if_neg hclosed]
  cases hc
  exact ⟨rfl,rfl⟩

/-- The exclusion test: with the outcome of the dispatch in hand, a closing receipt gets no
command. -/
theorem fresh_receipt_excluded (hc : v.input.closes = true) (hd : closed.isSome = true) :
    (freshReceipt site observer family v contract reference closed correction).command = none := by
  rw [freshReceipt]
  split
  · rfl
  rw [if_pos (by rw [hc, hd]; rfl)]
  rfl

theorem fresh_receipt_unrivalled (hv : v.input = { input with observedAt := v.input.observedAt })
    (hnone : w.row (.receipt site.scope observer input.eventKey) = none)
    (hd : Contested site observer input w → closed.isSome = true) (attemptRef : String)
    (other : RuntimeScope × String × String) (r : StoredReceipt)
    (hs : (freshReceipt site observer family v contract reference closed correction).closing
      attemptRef)
    (hr : w.row (.receipt other.1 other.2.1 other.2.2) = some r) (hc : r.closing attemptRef) :
    other = (site.scope,observer,v.input.eventKey) := by
  obtain ⟨hcommand,hcloses,href⟩ := hs
  rw [fresh_receipt_input] at hcloses href
  rw [hv] at href
  have hcontested : Contested site observer input w := by
    refine ⟨?_,hnone,other,r,hr,?_⟩
    · rw [hv] at hcloses
      exact hcloses
    · exact href ▸ hc
  rw [fresh_receipt_excluded family v contract reference closed correction hcloses
    (hd hcontested)] at hcommand
  cases hcommand

theorem submit_fresh_keeps (m : Measurement)
    (hv : v.input = { input with observedAt := v.input.observedAt }) (h : Sound b w)
    (hnone : w.row (.receipt site.scope observer input.eventKey) = none)
    (hd : b → Contested site observer input w → closed.isSome = true) :
    Keeps b (fun _ t => Sound b t) (submitFresh site observer family v m contract reference closed)
      w := by
  apply keeps_after _ _ (corrected_silent site observer v.input) h
  intro correction
  apply keeps_after _ _ (silent_do_if _ _ (inbox_silent site v m)) h
  intro _
  apply admit_keeps _ _ _ _ h
  apply RowWrite.fresh
  · rw [hv]
    exact hnone
  · exact fresh_receipt_keyed family v contract reference closed correction
  · intro hb
    exact fresh_receipt_unrivalled family v contract reference closed correction hv hnone (hd hb)

theorem submit_measured_keeps (hv : Vouched b site observer input w v) (h : Sound b w) :
    Keeps b (fun _ t => Sound b t) (submitMeasured site observer v) w := by
  apply keeps_after _ _ (silent_lift _) h
  intro m
  apply keeps_after _ _ (silent_refuse _ _) h
  intro _
  apply keeps_after _ _ (silent_lift _) h
  intro family
  apply keeps_after _ _ (silent_lift _) h
  intro contract
  apply keeps_after _ _ (silent_refuse _ _) h
  intro _
  apply keeps_bind
  apply safe_lift
  · intro attemptId hid
    apply keeps_bind
    apply dispatch_reads v _ h
    apply keeps_row _ _ h
    cases hr : w.row (.receipt site.scope observer v.input.eventKey) with
    | some old => exact submit_known_keeps site observer v contract old h hr
    | none =>
      have hnone : w.row (.receipt site.scope observer input.eventKey) = none := by
        rw [hv.carried] at hr
        exact hr
      apply submit_fresh_keeps family v contract _ _ m hv.carried h hnone
      intro hb hc
      exact hv.settled hb hc attemptId (need_ok hid)
  · intro _ _
    exact h

theorem submit_keeps_if (h : Sound b w)
    (hC : b → ∀ i t, C i t → Settled site (.submit observer input) (pure ()) i t) :
    KeepsIf b C (fun _ t => Sound b t) (submit site observer input) w := by
  apply keeps_if_bind
  apply vet_keeps_if h hC
  intro v hv
  apply keeps_if_of_keeps
  apply keeps_after _ _ (silent_query _) h
  intro route
  cases route with
  | some route => exact submit_learning_keeps site observer v route h
  | none => exact submit_measured_keeps v hv h

end Submission

section Discipline
variable {b : Prop} {site : Site} {A : Op → M Unit → Env → World → Prop}

theorem observation_discipline (hA : b → ∀ o q i w, A o q i w → Settled site o q i w) :
    DisciplineIf (operate site) id A (fun _ => Sound b) (fun _ => Sound b) fun _ => Grows where
  mid _ _ h := h
  boot _ _ h := h
  op o _ w h := by
    cases o with
    | submit observer input =>
      apply safe_if_seq (A (.submit observer input))
        (fun _ i t => b → Settled site (.submit observer input) (pure ()) i t)
      · intro q i t ha hb
        have hs := hA hb _ _ i t ha
        exact hs
      · exact submit_keeps_if h fun hb i t hs => hs hb
    | consumeLearningSafety principal limit =>
      apply safe_if_of_safe
      apply safe_bind
      exact consume_keeps site principal limit h

end Discipline

theorem empty_sound (b : Prop) : Sound b World.empty := by
  refine ⟨⟨?_,?_,?_⟩,⟨?_,?_,List.nodup_nil⟩,fun _ => ?_⟩
  · intro _
    exact le_refl _
  · intro _ _ _ h
    cases h
  · intro _ _ _ h
    cases h
  · intro _ _ _ _ _ h
    cases h
  · intro _ h
    cases h
  · intro _ _ _ _ _ h
    cases h

theorem reached_sound (site : Site) (events : List (Event Op Env))
    (h : Conforms (operate site) id (Settled site) ⟨World.empty,none,[]⟩ events) :
    Sound True (reached site events) := by
  have hd := observation_discipline fun _ : True => fun o q i w (ha : Settled site o q i w) => ha
  exact (run_sound_if hd _ events h
    (sound_if_idle hd ⟨World.empty,none,[]⟩ rfl (empty_sound True))).1

theorem closing_once (w : World) (h : Sound True w) (attemptRef : String) (x y : Tx)
    (hx : x ∈ w.txs) (hy : y ∈ w.txs) (hxc : x.input.closes = true) (hyc : y.input.closes = true)
    (hxa : x.input.attemptRef = attemptRef) (hya : y.input.attemptRef = attemptRef) :
    x.key = y.key := by
  obtain ⟨s,o,e,r,hk,hr,hc,hi⟩ := h.journalled.recorded x hx
  obtain ⟨s',o',e',r',hk',hr',hc',hi'⟩ := h.journalled.recorded y hy
  have he := h.exclusive trivial attemptRef (s,o,e) (s',o',e') r r' hr hr'
    ⟨hc,hi ▸ hxc,hi ▸ hxa⟩ ⟨hc',hi' ▸ hyc,hi' ▸ hya⟩
  cases he
  rw [hk, hk']

def sampleScope : RuntimeScope := ⟨"space","instance"⟩

def sampleContract (principal : String) : ObserverContract :=
  ⟨principal,"config","domain","family","metric","window",1000⟩

def sampleSite : Site := ⟨sampleScope,[sampleContract "first",sampleContract "second"],false⟩

def sampleInput (event : String) : OutcomeInput :=
  ⟨"instance","attempt","config",event,"1","metric","window",
    .measurement ⟨true,.failure,none,.null⟩,none,none⟩

/-- An environment in which every check passes. The native commit answers with the
given handle, and the dispatch is reconciled or not. -/
def sampleEnv (outcome : String) (reconcile : Reconciled) : Env where
  storage := .up
  authorized := .ok ()
  now := 2
  bytes := 100
  normalized := .ok "1"
  observedMs := .ok 1
  attempt := .ok ⟨some "decision",some "tx",some 0,false,some "family",some "id"⟩
  decision := .ok "act"
  transaction := .ok (some ⟨true,true,["attempt"],some "host"⟩)
  route := .ok none
  dispatch := .ok (some ⟨"attempt",some 0⟩)
  visible _ := .ok ()
  delivery := .ok none
  execute := .done outcome "observation"
  view := .ok "attempt"
  reconcile := reconcile
  measured := .ok ⟨true,.failure⟩
  learning := .late
  observationInstance := .ok "instance"
  safetyEvaluation := .ok "evaluation"
  verification := .ok none

section Calm
variable {site : Site}

/-- Nothing contests the submission in progress, or its dispatch has an outcome. -/
def calm (site : Site) (reference : DispatchRef) (c : Config Op Unit RuntimeError Env World) :
    Bool :=
  match c.running with
  | some (.submit observer input,_) =>
    (c.state.row (.receipt site.scope observer input.eventKey)).isSome ||
      (c.state.closed reference).isSome
  | _ => true

def Calm (site : Site) (reference : DispatchRef) (c : Config Op Unit RuntimeError Env World) :
    List (Event Op Env) → Prop
  | [] => True
  | e::rest => (c.state.row = (fun _ => none) ∨ calm site reference c = true) ∧
    Calm site reference (advance (operate site) id c e) rest

def calmFrom (site : Site) (reference : DispatchRef) (c : Config Op Unit RuntimeError Env World) :
    List (Event Op Env) → Bool
  | [] => true
  | e::rest => calm site reference c && calmFrom site reference (advance (operate site) id c e) rest

theorem calm_from {reference : DispatchRef} (c : Config Op Unit RuntimeError Env World)
    (events : List (Event Op Env)) (h : calmFrom site reference c events = true) :
    Calm site reference c events := by
  induction events generalizing c with
  | nil => trivial
  | cons e rest ih =>
    rw [calmFrom, Bool.and_eq_true] at h
    exact ⟨.inr h.1,ih _ h.2⟩

theorem calm_append {reference : DispatchRef} (c : Config Op Unit RuntimeError Env World)
    (events rest : List (Event Op Env)) (h : Calm site reference c events)
    (hrest : Calm site reference (run (operate site) id c events) rest) :
    Calm site reference c (events++rest) := by
  induction events generalizing c with
  | nil => exact hrest
  | cons e events ih => exact ⟨h.1,ih _ h.2 hrest⟩

/-- Events whose answers name one dispatch. -/
def Naming (site : Site) (reference : DispatchRef) : Event Op Env → Prop
  | .tick i => ∀ row id, i.attempt = .ok row → row.attemptId = some id →
    (⟨site.scope,id⟩ : DispatchRef) = reference
  | _ => True

theorem calm_conforms (reference : DispatchRef) (c : Config Op Unit RuntimeError Env World)
    (events : List (Event Op Env)) (hn : ∀ e ∈ events, Naming site reference e)
    (h : Calm site reference c events) : Conforms (operate site) id (Settled site) c events := by
  induction events generalizing c with
  | nil => trivial
  | cons e rest ih =>
    refine ⟨?_,ih _ (fun e he => hn e (List.mem_cons_of_mem _ he)) h.2⟩
    intro i o q he hr
    subst he
    cases o with
    | consumeLearningSafety principal limit => trivial
    | submit observer input =>
      rintro ⟨-,hnone,other,r,hrow,-⟩ row id hrow' hid
      have hname := hn _ List.mem_cons_self row id hrow' hid
      rcases h.1 with hempty | hcalm
      · rw [hempty] at hrow
        cases hrow
      · rw [calm, hr] at hcalm
        simp only [hnone, Option.isSome_none, Bool.false_or] at hcalm
        rwa [hname]

end Calm

/-- The first observer's submission up to the write of its receipt. -/
def arrival : List (Event Op Env) :=
  .start (.submit "first" (sampleInput "event"))::
    List.replicate 13 (.tick (sampleEnv "first outcome" .done))

/-- Its outcome is committed and its dispatch reconciled; then the second observer reports the
same attempt under an event of its own. -/
def settlement : List (Event Op Env) :=
  List.replicate 60 (.tick (sampleEnv "first outcome" .done))++
  .start (.submit "second" (sampleInput "other event"))::
    List.replicate 40 (.tick (sampleEnv "second outcome" .done))

theorem sample_naming (outcome : String) (reconcile : Reconciled) (n : ℕ) :
    ∀ e ∈ List.replicate n (Event.tick (sampleEnv outcome reconcile) : Event Op Env),
      Naming sampleSite ⟨sampleScope,"id"⟩ e := by
  intro e he
  rw [List.eq_of_mem_replicate he]
  intro row id hrow hid
  cases hrow
  cases hid
  rfl

/-- The first observer's outcome is committed and its dispatch is not reconciled;
then the second observer reports the same attempt under an event of its own. -/
def doubleRun : List (Event Op Env) :=
  .start (.submit "first" (sampleInput "event"))::
    List.replicate 60 (.tick (sampleEnv "first outcome" (.refused (.conflict "version"))))++
  .start (.submit "second" (sampleInput "other event"))::
    List.replicate 60 (.tick (sampleEnv "second outcome" .done))

end AndaBrain.Observation
