import AndaBrain.IntakeSteps

/-!
# Admitting a mutation

The request at the gate creates the receipt, binds the key, starts processing and writes the
receipt again.
-/

set_option autoImplicit false

namespace AndaBrain.Intake
open Foundation.Resumption Foundation.ConditionalStore Foundation.ThreadPool

structure Keeps (a b : IntakeRecord) : Prop where
  receipt : b.receipt = a.receipt
  nameSpace : b.nameSpace = a.nameSpace
  intentDigest : b.intentDigest = a.intentDigest
  sourceDigest : b.sourceDigest = a.sourceDigest
  terminal : ∀ p, b.terminal = some p → p.phase ≠ .recorded

theorem keeps_trans (a b c : IntakeRecord) (hab : Keeps a b) (hbc : Keeps b c) : Keeps a c :=
  ⟨hbc.receipt.trans hab.receipt,hbc.nameSpace.trans hab.nameSpace,
    hbc.intentDigest.trans hab.intentDigest,hbc.sourceDigest.trans hab.sourceDigest,
    hbc.terminal⟩

theorem keeps_owned (site : Site) (a b : IntakeRecord) (ha : Owned site a) (h : Keeps a b) :
    Owned site b := by
  refine ⟨?_,?_,h.nameSpace.trans ha.nameSpace,?_,h.terminal⟩
  · rw [h.receipt]
    exact ha.receiptRef
  · rw [h.receipt]
    exact ha.spaceId
  · rw [h.intentDigest, h.sourceDigest]
    exact ha.meaning

theorem keeps_becomes (a b : IntakeRecord) (ha : ¬Linked a) (h : Keeps a b) : Becomes a b :=
  ⟨h.receipt,h.nameSpace,h.intentDigest,h.sourceDigest,fun hl => absurd hl ha,
    fun ht => absurd (Or.inr ht) ha⟩

theorem keeps_begun (record : IntakeRecord) (intent : Intent) (ht : record.terminal = none) :
    Keeps record (begun record intent) := by
  have hterm : ∀ p, record.terminal = some p → p.phase ≠ .recorded := by
    intro p hp
    rw [ht] at hp
    cases hp
  unfold begun
  split
  · exact ⟨rfl,rfl,rfl,rfl,hterm⟩
  · exact ⟨rfl,rfl,rfl,rfl,hterm⟩

theorem begun_terminal (record : IntakeRecord) (intent : Intent) :
    (begun record intent).terminal = record.terminal := by
  unfold begun
  split
  · rfl
  · rfl

theorem keeps_outcome (record : IntakeRecord) (outcome : Except KipError IntakeRecord)
    (h : ∀ r, outcome = .ok r → Keeps record r) : Keeps record (startOutcome record outcome) := by
  cases outcome with
  | ok r => exact h r rfl
  | error e =>
    refine ⟨rfl,rfl,rfl,rfl,?_⟩
    intro p hp
    rw [← Option.some.inj hp]
    exact Phase.noConfusion

structure Bound (site : Site) (record : IntakeRecord) (w : World) : Prop where
  inv : Inv site w
  unlinked : ¬Linked record
  key : ∃ k, w.key = some k
  receipt : ∃ c, w.receipt = some c ∧ c.value = record

theorem bound_quiet (site : Site) (record : IntakeRecord) (a b : World)
    (h : Bound site record a) (hq : Quiet site a b) : Bound site record b := by
  refine ⟨hq.later.1 h.inv,h.unlinked,?_,?_⟩
  · rw [hq.key]
    exact h.key
  · obtain ⟨c,hc,rfl⟩ := h.receipt
    exact ⟨c,hq.unlinked c hc h.unlinked,rfl⟩

def Ready (site : Site) (record : IntakeRecord) (w : World) : Prop :=
  Bound site record w ∧ w.started = []

theorem ready_quiet (site : Site) (record : IntakeRecord) (a b : World)
    (h : Ready site record a) (hq : Quiet site a b) : Ready site record b :=
  ⟨bound_quiet site record a b h.1 hq,hq.started.trans h.2⟩

section Start
variable (site : Site) (first : IntakeRecord)

def Begins (record : IntakeRecord) (p : M IntakeRecord) : Prop :=
  ∀ s, Ready site first s →
    SafeUnder (Quiet site) (Admits site) (fun r t => Keeps record r ∧ Bound site first t)
      (fun _ t => Bound site first t) p s

theorem begins_after {α : Type} (record : IntakeRecord) (p : M α) (f : α → M IntakeRecord)
    (hp : Silent p) (hf : ∀ a, Begins site first record (f a)) :
    Begins site first record (p >>= f) := by
  intro s hs
  apply under_after (quiet_refl site) (quiet_trans site) p f s hp
  · exact fun t ht _ => (ready_quiet site first s t hs ht).1
  · exact fun t ht a => hf a t (ready_quiet site first s t hs ht)

variable (record : IntakeRecord)

theorem begins_formation (intent : MemoryIntent)
    (ht : record.terminal = none) : Begins site first record (startFormation record intent) := by
  intro s hs
  apply under_bind (quiet_refl site)
  have hafter : ∀ t, Quiet site s t → ∀ i : Env,
      Bound site first { t with started := t.started++i.ingested.toList } := by
    intro t hst i
    have hr := ready_quiet site first s t hs hst
    obtain ⟨k,hk⟩ := hr.1.key
    have hinv := inv_admits site t _ hr.1.inv (Admits.start k i.ingested hk hr.2)
    exact ⟨hinv,hr.1.unlinked,hr.1.key,hr.1.receipt⟩
  apply under_atomic
  · intro t hst i
    have hr := ready_quiet site first s t hs hst
    obtain ⟨k,hk⟩ := hr.1.key
    exact Or.inr (Admits.start k i.ingested hk hr.2)
  · intro t hst i a _ u hu v hv
    have hb := bound_quiet site first _ v (hafter t hst i) (quiet_trans site _ _ _ hu hv)
    refine ⟨⟨rfl,rfl,rfl,rfl,?_⟩,hb⟩
    intro p hp
    have : record.terminal = some p := hp
    rw [ht] at this
    cases this
  · intro t hst i e _ u hu
    exact bound_quiet site first _ u (hafter t hst i) hu

theorem capture_messages_silent (n : ℕ) (captured : Captured) :
    Silent (captureMessages n captured) := by
  induction n generalizing captured with
  | zero => trivial
  | succ n ih =>
    apply silent_bind _ _ (silent_query _)
    intro a
    exact ih _

theorem begins_evidence (source : ResolvedSource) (purpose : String) :
    Begins site first record (captureEvidence record source purpose) := by
  apply begins_after site first record _ _ (silent_query _)
  intro _
  apply begins_after site first record _ _ (capture_messages_silent _ _)
  intro captured s hs t ht
  refine ⟨⟨rfl,rfl,rfl,rfl,?_⟩,(ready_quiet site first s t hs ht).1⟩
  intro p hp
  rw [← Option.some.inj hp]
  exact Phase.noConfusion

theorem check_references_silent (refs : List String) : Silent (checkReferences refs) := by
  induction refs with
  | nil => trivial
  | cons r rest ih => exact silent_bind _ _ (silent_query _) fun _ => ih

theorem check_predecessors_silent (refs : List String) : Silent (checkPredecessors refs) := by
  induction refs with
  | nil => trivial
  | cons r rest ih => exact silent_bind _ _ (silent_query _) fun _ => ih

theorem begins_revision (source : ResolvedSource) (changeKind : Option ChangeKind)
    (targetRef : Option String) (predecessors : List String) (ht : record.terminal = none) : Begins
    site first record (startRevision record source changeKind targetRef predecessors) := by
  cases targetRef with
  | some target =>
    apply begins_after site first record _ _ (silent_query _)
    intro a
    apply begins_after site first record _ _ (silent_lift _)
    intro intent
    exact begins_formation site first record intent ht
  | none =>
    intro s hs
    apply under_ite
    · exact fun _ => begins_evidence site first record source _ s hs
    · exact fun _ => begins_formation site first record _ ht s hs

theorem begins_intent (source : ResolvedSource)
    (predecessors : List String) (intent : Intent) (ht : record.terminal = none) :
    Begins site first record (startIntent record source predecessors intent) := by
  cases intent with
  | observe => exact begins_formation site first record _ ht
  | revise changeKind targetRef =>
    exact begins_revision site first record source changeKind targetRef predecessors ht
  | feedback decisionRef attemptRef =>
    apply begins_after site first record _ _ (check_references_silent _)
    intro _
    exact begins_evidence site first record source _

end Start

def Rest (w : World) : Prop := ∀ c, w.receipt = some c → ∃ k, w.key = some k

variable (site : Site) (request : Request)

theorem rest_quiet (a b : World) (hq : Quiet site a b) (h : Rest a) : Rest b := by
  intro c hc
  rw [hq.key]
  cases ha : a.receipt with
  | none =>
    rw [hq.absent ha] at hc
    cases hc
  | some d => exact h d ha

theorem rest_of_key (w : World) (k : Versioned KeyRecord) (h : w.key = some k) : Rest w :=
  fun _ _ => ⟨k,h⟩

theorem finish_intake_under (first record : IntakeRecord)
    (outcome : Except KipError IntakeRecord) (s : World) (hb : Bound site first s)
    (hk : Keeps first (startOutcome record outcome)) :
    SafeUnder (Quiet site) (Admits site) (fun _ t => Rest t) (fun _ t => Rest t)
      (finishIntake record outcome) s := by
  apply under_bind (quiet_refl site)
  apply under_read serves_up
  intro t ht u hu
  have hbt := bound_quiet site first s t hb ht
  obtain ⟨c,hc,hcv⟩ := hbt.receipt
  have hcell : (Holds.store t).cells Path.receipt = some c := hc
  rw [hcell]
  have hunlinked : ¬Linked c.value := by
    rw [hcv]
    exact hb.unlinked
  apply under_rely (quiet_trans site) _ t u _ hu
  apply under_bind (quiet_refl site)
  have hgo : ∀ v, Quiet site t v → Admits site v
      (written v Path.receipt (startOutcome record outcome)) := by
    intro v hv
    have hbv := bound_quiet site first t v hbt hv
    have hcv' := hv.unlinked c hc hunlinked
    obtain ⟨k,hkey⟩ := hbv.key
    have hfirst : Owned site first := by
      rw [← hcv]
      exact hbt.inv.owned c hc
    refine Admits.finish k c _ hkey hcv' hunlinked ?_ (keeps_owned site first _ hfirst hk)
    rw [hcv]
    exact keeps_becomes first _ hb.unlinked hk
  apply under_confirmed_put (quiet_refl site) (quiet_trans site) serves_up
  · exact fun v hv _ => hgo v hv
  · intro v hv _ w hw
    have hkeyed : ∀ x, Quiet site (written v Path.receipt (startOutcome record outcome)) x →
        Rest x := by
      intro x hx
      obtain ⟨k,hkey⟩ := (bound_quiet site first t v hbt hv).key
      apply rest_of_key x k
      rw [hx.key, key_written_receipt]
      exact hkey
    refine ⟨fun _ x hx => ?_,fun _ e x hx => hkeyed x (quiet_trans site _ _ _ hw hx)⟩
    have hvx := quiet_trans site _ _ _ hw hx
    cases outcome with
    | error e => exact fun y hy => hkeyed y (quiet_trans site _ _ _ hvx hy)
    | ok started =>
      have hcov : Covers started x := by
        intro hl
        obtain ⟨d,hd,hbd,_⟩ := hvx.later.2.receipt _ (receipt_written v started)
        exact ⟨d,hd,hbd⟩
      apply hold_under site (fun _ _ h => h.later) (fun _ r h => Admits.hold r h) x _ hcov
      intro y hy z hz
      exact rest_quiet site _ z hz (hkeyed y (quiet_trans site _ _ _ hvx hy))
  · intro v hv ha
    have hsame := hv.unlinked c hc hunlinked
    exact absurd (admits_update v.journal Path.receipt c hsame) ha

structure Placed (site : Site) (record : IntakeRecord) (w : World) : Prop where
  inv : Inv site w
  unlinked : ¬Linked record
  key : w.key = none
  receipt : ∃ c, w.receipt = some c ∧ c.value = record

theorem placed_quiet (record : IntakeRecord) (a b : World)
    (h : Placed site record a) (hq : Quiet site a b) : Placed site record b := by
  refine ⟨hq.later.1 h.inv,h.unlinked,hq.key.trans h.key,?_⟩
  obtain ⟨c,hc,rfl⟩ := h.receipt
  exact ⟨c,hq.unlinked c hc h.unlinked,rfl⟩

theorem create_receipt_under (record : IntakeRecord) (s : World)
    (hi : Inv site s) (hk : s.key = none) (ho : Owned site record) (hl : ¬Linked record) :
    SafeUnder (Quiet site) (Admits site) (fun _ t => Placed site record t)
      (fun _ t => Rest s → Rest t) (confirmedPut Path.receipt record .create : M Unit) s := by
  have hnone : ∀ t : World, t.receipt = none ↔
      admits .create ((Holds.store t).cells Path.receipt) = true :=
    fun t => Option.isNone_iff_eq_none.symm
  apply under_confirmed_put (quiet_refl site) (quiet_trans site) serves_up
  · intro t ht ha
    exact Admits.create record ((hnone t).mpr ha) (ht.key.trans hk) ho hl
  · intro t ht ha u hu
    have hadm := Admits.create record ((hnone t).mpr ha) (ht.key.trans hk) ho hl
    have hplaced : Placed site record (written t Path.receipt record) := by
      refine ⟨inv_admits site t _ (ht.later.1 hi) hadm,hl,?_,_,receipt_written t record,rfl⟩
      rw [key_written_receipt]
      exact ht.key.trans hk
    have hu' := placed_quiet site record _ u hplaced hu
    refine ⟨fun _ w hw => placed_quiet site record u w hu' hw,fun hne => ?_⟩
    obtain ⟨c,hc,hcv⟩ := hu'.receipt
    have hval : value u.journal Path.receipt = some record := by
      rw [← hcv]
      exact value_cell _ _ _ hc
    exact absurd hval hne
  intro t ht ha u hu
  have htu := quiet_trans site _ _ _ ht hu
  refine ⟨fun hv w hw => ?_,fun _ e w hw hrest => ?_⟩
  · have hu' : Placed site record u :=
      ⟨htu.later.1 hi,hl,htu.key.trans hk,value_some _ _ _ hv⟩
    exact placed_quiet site record u w hu' hw
  have hs : s.receipt = none := by
    cases hr : s.receipt with
    | none => rfl
    | some c =>
      obtain ⟨k,hkey⟩ := hrest c hr
      rw [hk] at hkey
      cases hkey
  exact absurd ((hnone t).mp (ht.absent hs)) ha

theorem bind_key_under (record : IntakeRecord) (k : KeyRecord) (s : World)
    (hp : Placed site record s) :
    SafeUnder (Quiet site) (Admits site) (fun _ t => Ready site record t) (fun _ _ => False)
      (confirmedPut Path.key k .create : M Unit) s := by
  have hadm : ∀ t, Quiet site s t → Admits site t (written t Path.key k) := by
    intro t ht
    have hpt := placed_quiet site record s t hp ht
    obtain ⟨c,hc,_⟩ := hpt.receipt
    exact Admits.bind k c hpt.key hc
  apply under_confirmed_put (quiet_refl site) (quiet_trans site) serves_up
  · exact fun t ht _ => hadm t ht
  · intro t ht _ u hu
    have hpt := placed_quiet site record s t hp ht
    have hready : Ready site record (written t Path.key k) := by
      refine ⟨⟨inv_admits site t _ hpt.inv (hadm t ht),hp.unlinked,⟨_,key_written t k⟩,?_⟩,
        (hpt.inv.unbound hpt.key).1⟩
      rw [receipt_written_key]
      exact hpt.receipt
    refine ⟨fun _ w hw => ?_,fun hne => ?_⟩
    · exact ready_quiet site record _ w hready (quiet_trans site _ _ _ hu hw)
    · have hkey : u.key = some ⟨k,t.journal.next⟩ := hu.key.trans (key_written t k)
      exact absurd (value_cell _ _ _ hkey) hne
  · intro t ht ha
    have hkey := (placed_quiet site record s t hp ht).key
    exact absurd (admits_create t.journal Path.key hkey) ha

theorem owned_first (source : ResolvedSource) (scope : ResolvedScope) (seq now : ℕ) : Owned site
    (firstRecord site request source scope seq now) := by
  refine ⟨rfl,rfl,rfl,rfl,?_⟩
  intro p hp
  cases hp

theorem unlinked_first (source : ResolvedSource) (scope : ResolvedScope) (seq now : ℕ) : ¬Linked
    (firstRecord site request source scope seq now) := by
  intro h
  rcases h with h | h
  · cases h
  · cases h

/-- What an admission leaves is what the next request may find: a stored
receipt with its key, provided it was so before. -/
theorem admit_mutation_under (source : ResolvedSource)
    (s : World) (hi : Inv site s) (hk : s.key = none) :
    SafeUnder (Quiet site) (Admits site) (fun _ t => Rest s → Rest t)
      (fun _ t => Rest s → Rest t) (admitMutation site request source) s := by
  have hrest : ∀ t, Quiet site s t → KipError → Rest s → Rest t :=
    fun t ht _ => rest_quiet site s t ht
  apply under_after (quiet_refl site) (quiet_trans site) _ _ s (silent_query _) hrest
  intro t1 h1 scope
  apply under_after (quiet_refl site) (quiet_trans site) _ _ t1 (check_predecessors_silent _)
    fun t ht => hrest t (quiet_trans site _ _ _ h1 ht)
  intro t2 h2 _
  have hs2 := quiet_trans site _ _ _ h1 h2
  apply under_after (quiet_refl site) (quiet_trans site) _ _ t2 (silent_query _)
    fun t ht => hrest t (quiet_trans site _ _ _ hs2 ht)
  intro t3 h3 seq
  have hs3 := quiet_trans site _ _ _ hs2 h3
  apply under_after (quiet_refl site) (quiet_trans site) _ _ t3 (silent_query _)
    fun t ht => hrest t (quiet_trans site _ _ _ hs3 ht)
  intro t4 h4 now
  have hs4 := quiet_trans site _ _ _ hs3 h4
  have hl := unlinked_first site request source scope seq now
  apply under_bind (quiet_refl site)
  apply under_mono _ _ (create_receipt_under site _ t4 (hs4.later.1 hi) (hs4.key.trans hk)
    (owned_first site request source scope seq now) hl)
  · intro _ t5 hplaced
    apply under_bind (quiet_refl site)
    apply under_mono _ _ (bind_key_under site _ _ t5 hplaced)
    · intro _ t6 hready
      apply under_bind (quiet_refl site)
      apply under_attempt
      have hterm : (begun (firstRecord site request source scope seq now)
          request.intent).terminal = none := begun_terminal _ _
      have hstart := begins_intent site (firstRecord site request source scope seq now) _ source
        source.predecessorReceipts request.intent hterm t6 hready
      have hbegun := keeps_begun (firstRecord site request source scope seq now)
        request.intent rfl
      have hend : ∀ outcome t7, Bound site (firstRecord site request source scope seq now) t7 →
          (∀ r, outcome = .ok r → Keeps (begun (firstRecord site request source scope seq now)
            request.intent) r) →
          SafeUnder (Quiet site) (Admits site) (fun _ t => Rest s → Rest t)
            (fun _ t => Rest s → Rest t)
            (finishIntake (begun (firstRecord site request source scope seq now)
              request.intent) outcome) t7 := by
        intro outcome t7 hb hkeep
        have hk' := keeps_trans _ _ _ hbegun (keeps_outcome _ outcome hkeep)
        apply under_mono _ _ (finish_intake_under site _ _ outcome t7 hb hk')
        · exact fun _ _ h _ => h
        · exact fun _ _ h _ => h
      apply under_mono _ _ hstart
      · intro r t7 hr
        apply hend (.ok r) t7 hr.2
        intro r' hr'
        rw [← Except.ok.inj hr']
        exact hr.1
      · intro e t7 hb
        apply hend (.error e) t7 hb
        intro r' hr'
        cases hr'
    · exact fun _ _ hf => hf.elim
  · exact fun _ t h hr => h (rest_quiet site s t4 hs4 hr)

def Admitted (site : Site) (request : Request) (source : Except KipError ResolvedSource)
    (s : World) (found : Except KipError IntakeRecord) (t : World) : Prop :=
  (∀ k c, s.key = some k → s.receipt = some c → Replayed site request source c.value found) ∧
  (Rest s → Rest t)

theorem memory_intake_under
    (source : Except KipError ResolvedSource) (s : World) (hi : Inv site s) :
    SafeUnder (Quiet site) (Admits site)
      (fun r => Admitted site request source s (.ok r))
      (fun e => Admitted site request source s (.error e))
      (memoryIntake site request source) s := by
  apply under_bind (quiet_refl site)
  apply under_read serves_up
  intro t ht u hu
  have hsu := quiet_trans site _ _ _ ht hu
  cases hk : t.key with
  | some k =>
    have hcell : (Holds.store t).cells Path.key = some k := hk
    rw [hcell]
    have hks : s.key = some k := ht.key.symm.trans hk
    obtain ⟨c,hc⟩ := hi.bound k hks
    apply under_rely (quiet_trans site) _ s u _ hsu
    have hframe := under_frame (fun w => w.key = some k)
      (fun a b hab ha => hab.later.2.key k ha)
      (fun a b hab ha => (admits_grows site a b hab).key k ha) _ s
      (replay_under site request source s c hi hc) hks
    apply under_mono _ _ hframe
    · intro r v hv
      refine ⟨fun _ c' _ hc' => ?_,fun _ => rest_of_key v k hv.2⟩
      rw [← Option.some.inj (hc.symm.trans hc')]
      exact hv.1
    · intro e v hv
      refine ⟨fun _ c' _ hc' => ?_,fun _ => rest_of_key v k hv.2⟩
      rw [← Option.some.inj (hc.symm.trans hc')]
      exact hv.1
  | none =>
    have hcell : (Holds.store t).cells Path.key = none := hk
    rw [hcell]
    have hks : s.key = none := ht.key.symm.trans hk
    have hfree : ∀ found v, (Rest s → Rest v) →
        Admitted site request source s found v := by
      intro found v hrest
      refine ⟨fun k _ hk' => ?_,hrest⟩
      rw [hks] at hk'
      cases hk'
    cases source with
    | error e => exact fun v hv => hfree _ v (rest_quiet site s v (quiet_trans site _ _ _ hsu hv))
    | ok source =>
      apply under_rely (quiet_trans site) _ s u _ hsu
      apply under_mono _ _ (admit_mutation_under site request source s hi hks)
      · exact fun r v hv => hfree _ v hv
      · exact fun e v hv => hfree _ v hv

end AndaBrain.Intake
