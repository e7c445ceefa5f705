import AndaBrain.IntakeSafety

/-!
# The requests on one receipt, one by one

Each operation of the receipt keeps to what `IntakeSafety` promises, whatever
the others do between its steps, and answers what is stated here.
-/

set_option autoImplicit false

namespace AndaBrain.Intake
open Foundation.Resumption Foundation.ConditionalStore Foundation.ThreadPool

theorem serves_up (i : Env) : (Serves.service i : Service KipError) = .up := rfl

/-- The stored receipt carries its terminal progress and is `r`. -/
def Settled (r : IntakeRecord) (w : World) : Prop :=
  r.terminal.isSome = true ∧ ∃ c, w.receipt = some c ∧ c.value = r

theorem settled_grows (r : IntakeRecord) (a b : World) (h : Settled r a) (hg : Grows a b) :
    Settled r b := by
  obtain ⟨ht,c,hc,rfl⟩ := h
  obtain ⟨c',hc',hb,_⟩ := hg.receipt c hc
  exact ⟨ht,c',hc',hb.fixed ht⟩

theorem settled_unique (r r' : IntakeRecord) (w : World) (h : Settled r w)
    (h' : Settled r' w) : r' = r := by
  obtain ⟨_,c,hc,rfl⟩ := h
  obtain ⟨_,c',hc',rfl⟩ := h'
  rw [Option.some.inj (hc.symm.trans hc')]

theorem unmoved (site : Site) (s t : World) (c : Versioned IntakeRecord) (hi : Inv site s)
    (hc : s.receipt = some c) (hg : Grows s t)
    (ha : admits (.update c.version) t.receipt = true) : t.receipt = some c := by
  obtain ⟨c',hc',_,hnew⟩ := hg.receipt c hc
  rw [hc'] at ha ⊢
  have hv : c'.version = c.version := by simpa [admits] using ha
  rcases hnew with rfl | ⟨hle,_⟩
  · rfl
  · have hlt := hi.version c hc
    omega

theorem moved (s t : World) (c : Versioned IntakeRecord) (hc : s.receipt = some c)
    (hl : Linked c.value) (hg : Grows s t)
    (ha : admits (.update c.version) t.receipt ≠ true) : ∃ r, Settled r t := by
  obtain ⟨c',hc',_,hnew⟩ := hg.receipt c hc
  rcases hnew with rfl | ⟨_,hset⟩
  · rw [hc'] at ha
    simp [admits] at ha
  · exact ⟨c'.value,hset hl,c',hc',rfl⟩

theorem settled_of_value (w : World) (r : IntakeRecord) (ht : r.terminal.isSome = true)
    (h : value w.journal Path.receipt = some r) : Settled r w := by
  obtain ⟨c,hc,hr⟩ := value_some _ _ _ h
  exact ⟨ht,c,hc,hr⟩

theorem value_of_settled (w : World) (r : IntakeRecord) (h : Settled r w) :
    value w.journal Path.receipt = some r := by
  obtain ⟨_,c,hc,rfl⟩ := h
  exact value_cell _ _ _ hc

section Readers
variable (site : Site) (p : Progress) (result : Option FormationResult) (warnings : List String)

theorem settle_settled (n : ℕ) (last : Option KipError) (s : World) (r : IntakeRecord)
    (h : Settled r s) :
    SafeUnder (Later site) Reads Settled (fun _ _ => False)
      (settleRecord p result warnings (n + 1) last) s := by
  apply under_bind (later_refl site)
  apply under_read serves_up
  intro t ht u hu
  have hu' := settled_grows r s u h (grows_trans _ _ _ ht.2 hu.2)
  obtain ⟨hr,c,hc,rfl⟩ := settled_grows r s t h ht.2
  have hcell : (Holds.store t).cells Path.receipt = some c := hc
  rw [hcell]
  show SafeUnder (Later site) Reads Settled (fun _ _ => False)
    (if c.value.terminal.isSome then pure c.value else _) u
  rw [if_pos hr]
  exact fun w hw => settled_grows _ _ _ hu' hw.2

theorem put_settle (s : World) (c : Versioned IntakeRecord) (hi : Inv site s)
    (hc : s.receipt = some c) (hl : Linked c.value) (ht : c.value.terminal = none)
    (hp : p.phase ≠ .recorded) :
    SafeUnder (Later site) Reads
      (fun _ t => Settled (c.value.settle p result warnings) t)
      (fun _ t => ∃ r, Settled r t)
      (confirmedPut Path.receipt (c.value.settle p result warnings) (.update c.version) : M Unit) s := by
  apply under_confirmed_put (later_refl site) (later_trans site) serves_up
  · intro t hst ha
    have hct := unmoved site s t c hi hc hst.2 ha
    exact Reads.settle c p result warnings hct hl ht hp
  · intro t hst ha u hu
    have hw : Settled (c.value.settle p result warnings)
        (written t Path.receipt (c.value.settle p result warnings)) :=
      ⟨rfl,_,receipt_written t _,rfl⟩
    have hu' := settled_grows _ _ _ hw hu.2
    refine ⟨fun _ w hw => settled_grows _ _ _ hu' hw.2,fun hv => ?_⟩
    exact absurd (value_of_settled u _ hu') hv
  · intro t hst ha u hu
    refine ⟨fun hv w hw => ?_,fun _ e w hw => ?_⟩
    · exact settled_grows _ _ _ (settled_of_value u _ rfl hv) hw.2
    · obtain ⟨r,hr⟩ := moved s t c hc hl hst.2 ha
      exact ⟨r,settled_grows r _ _ hr (grows_trans _ _ _ hu.2 hw.2)⟩

theorem settle_linked (n : ℕ) (last : Option KipError) (s : World)
    (c : Versioned IntakeRecord) (hi : Inv site s) (hc : s.receipt = some c)
    (hl : Linked c.value) (hp : p.phase ≠ .recorded) :
    SafeUnder (Later site) Reads Settled (fun _ _ => False)
      (settleRecord p result warnings (n + 2) last) s := by
  apply under_bind (later_refl site)
  apply under_read serves_up
  intro t ht u hu
  obtain ⟨d,hd,hb,_⟩ := ht.2.receipt c hc
  have hcell : (Holds.store t).cells Path.receipt = some d := hd
  rw [hcell]
  show SafeUnder (Later site) Reads Settled (fun _ _ => False)
    (if d.value.terminal.isSome then pure d.value else
      attempt (confirmedPut Path.receipt (d.value.settle p result warnings) (.update d.version)) >>= _) u
  apply under_ite
  · intro hterm
    have hs : Settled d.value t := ⟨hterm,d,hd,rfl⟩
    exact fun w hw => settled_grows _ _ _ hs (grows_trans _ _ _ hu.2 hw.2)
  intro hterm
  have hnone : d.value.terminal = none := by simpa using hterm
  apply under_rely (later_trans site) _ t u _ hu
  apply under_bind (later_refl site)
  apply under_attempt
  have hput := put_settle site p result warnings t d (ht.1 hi) hd (hb.linked hl) hnone hp
  apply under_mono _ _ hput
  · intro _ w hw v hv
    exact settled_grows _ _ _ hw hv.2
  · intro e w hw
    obtain ⟨r,hr⟩ := hw
    exact settle_settled site p result warnings n (some e) w r hr

end Readers

theorem attempts_enough : journalUpdateAttempts = 6 + 2 := rfl

section Finish
variable (site : Site) (s : World) (c : Versioned IntakeRecord)

theorem settle_formed_linked (record : IntakeRecord) (refs : List String)
    (disposition : Disposition) (resolved : ℕ) (warnings : List String) (hi : Inv site s)
    (hc : s.receipt = some c) (hl : Linked c.value) :
    SafeUnder (Later site) Reads Settled (fun _ _ => False)
      (settleFormed record refs disposition resolved warnings) s := by
  rw [settleFormed, attempts_enough]
  exact settle_linked site _ _ _ 6 none s c hi hc hl Phase.noConfusion

theorem finish_formation_linked (record : IntakeRecord) (conversation : Conversation)
    (hi : Inv site s) (hc : s.receipt = some c) (hl : Linked c.value) :
    SafeUnder (Later site) Reads Settled (fun _ _ => False)
      (finishFormation record conversation) s := by
  rw [finishFormation]
  cases hr : record.intent with
  | none => exact settle_formed_linked site s c record _ _ _ _ hi hc hl
  | some intent =>
    apply under_ite
    · intro _
      apply under_bind (later_refl site)
      apply under_query
      · intro t ht i a _ u hu
        have hsu := later_trans site _ _ _ ht hu
        obtain ⟨d,hd,hb,_⟩ := hsu.2.receipt c hc
        have hld := hb.linked hl
        cases a with
        | ok r => exact settle_formed_linked site u d record _ _ _ _ (hsu.1 hi) hd hld
        | error e =>
          show SafeUnder (Later site) Reads Settled (fun _ _ => False) (settleRecord _ _ _ _ _) u
          rw [attempts_enough]
          exact settle_linked site _ _ _ 6 none u d (hsu.1 hi) hd hld (by simp [failedProgress])
      · intro _ _ _ _ he
        cases he
    · intro _
      exact settle_formed_linked site s c record _ _ _ _ hi hc hl

end Finish

def Conversation.ended (conversation : Conversation) : Bool :=
  conversation.status == .completed || conversation.status == .cancelled

/-- A read that can see a terminal progress: its copy carries one, or names a
conversation that is at its end. -/
def informed (copy : IntakeRecord) (answer : Option Conversation) : Bool :=
  copy.terminal.isSome || (copy.conversation.isSome && answer.any Conversation.ended)

def Read (seen : Bool) (found : Progress × IntakeRecord) (w : World) : Prop :=
  if seen then Settled found.2 w ∧ found.2.terminal = some found.1
  else found.1.phase = .recorded

theorem read_settled (r : IntakeRecord) (d : Progress) (a b : World) (h : Settled r a)
    (hg : Grows a b) : Read true (r.terminal.getD d,r) b := by
  refine ⟨settled_grows r a b h hg,?_⟩
  obtain ⟨q,hq⟩ := Option.isSome_iff_exists.mp h.1
  rw [hq]
  rfl

theorem progress_from_under (site : Site) (s : World) (c : Versioned IntakeRecord)
    (record : IntakeRecord) (conversation : Conversation) (hi : Inv site s)
    (hc : s.receipt = some c) (hl : Linked c.value) :
    SafeUnder (Later site) Reads (Read conversation.ended) (fun _ _ => False)
      (progressFrom record conversation) s := by
  rw [progressFrom, Conversation.ended]
  cases conversation.status with
  | completed =>
    apply under_bind (later_refl site)
    apply under_mono _ _ (finish_formation_linked site s c record conversation hi hc hl)
    · exact fun r v hv w hw => read_settled r _ v w hv hw.2
    · exact fun _ _ hf => hf
  | cancelled =>
    apply under_bind (later_refl site)
    rw [attempts_enough]
    apply under_mono _ _ (settle_linked site _ _ _ 6 none s c hi hc hl Phase.noConfusion)
    · exact fun r v hv w hw => read_settled r _ v w hv hw.2
    · exact fun _ _ hf => hf
  | failed => exact fun _ _ => rfl
  | working => exact fun _ _ => rfl
  | submitted => exact fun _ _ => rfl

theorem settled_under (site : Site) (s : World) (copy : IntakeRecord)
    (answer : Option Conversation) (hi : Inv site s) (hcov : Covers copy s) :
    SafeUnder (Later site) Reads (Read (informed copy answer))
      (fun e _ => e = unavailable ∧ informed copy answer = false) (settled copy answer) s := by
  rw [settled, informed]
  cases ht : copy.terminal with
  | some progress =>
    intro t hst
    have hterm : copy.terminal.isSome = true := by
      rw [ht]
      rfl
    obtain ⟨c,hc,hb⟩ := covers_grows copy s t hcov hst.2 (Or.inr hterm)
    exact ⟨⟨hterm,c,hc,hb.fixed hterm⟩,ht⟩
  | none =>
    cases hconv : copy.conversation with
    | none => exact fun _ _ => rfl
    | some id =>
      have hl : Linked copy := by
        rw [Linked, hconv]
        exact Or.inl rfl
      apply under_bind (later_refl site)
      apply under_query
      · intro t hst i a ha u htu
        have hsu := later_trans site _ _ _ hst htu
        obtain ⟨c,hc,hb⟩ := covers_grows copy s u hcov hsu.2 hl
        cases ha
        cases answer with
        | none => exact fun _ _ => ⟨rfl,rfl⟩
        | some conversation =>
          apply under_mono _ _ (progress_from_under site u c copy conversation (hsu.1 hi) hc
            (hb.linked hl))
          · intro found w hr
            simpa using hr
          · exact fun _ _ hf => hf.elim
      · intro _ _ _ _ he
        cases he

section Copies
variable (site : Site) {R G : World → World → Prop} (hrefl : ∀ a, R a a)
  (htrans : ∀ a b c, R a b → R b c → R a c) (hlater : ∀ a b, R a b → Later site a b)
  {Q : IntakeRecord → World → Prop} {E : KipError → World → Prop}
include hlater

theorem hold_under (hhold : ∀ a r, Covers r a → G a { a with copies := a.copies++[r] })
    (s : World) (r : IntakeRecord) (hcov : Covers r s)
    (hq : ∀ t, R s t → ∀ u, R { t with copies := t.copies++[r] } u → Q r u) :
    SafeUnder R G Q E (hold r) s := by
  apply under_atomic
  · intro t ht _
    exact Or.inr (hhold t r (covers_grows r s t hcov (hlater s t ht).2))
  · intro t ht i a ha
    cases ha
    exact hq t ht
  · intro t ht i e he
    cases he

include hrefl htrans in
theorem intake_record_under (s : World) (hi : Inv site s)
    (hq : ∀ t, R s t → ∀ c, t.receipt = some c → ∀ u, R t u → Q c.value u)
    (he : ∀ t, R s t → t.receipt = none → ∀ u, R t u → E receiptNotFound u) :
    SafeUnder R G Q E (intakeRecord site) s := by
  apply under_bind hrefl
  apply under_read serves_up
  intro t ht u hu
  cases hc : t.receipt with
  | none =>
    have hcell : (Holds.store t).cells Path.receipt = none := hc
    rw [hcell]
    exact fun v hv => he t ht hc v (htrans _ _ _ hu hv)
  | some c =>
    have hcell : (Holds.store t).cells Path.receipt = some c := hc
    rw [hcell]
    have ho := ((hlater s t ht).1 hi).owned c hc
    apply under_bind hrefl
    apply under_refuse
    · intro hbad
      rcases hbad with h | h
      · exact absurd ho.nameSpace h
      · exact absurd ho.spaceId h
    · intro _ v hv w hw
      exact hq t ht c hc w (htrans _ _ _ hu (htrans _ _ _ hv hw))

end Copies

theorem take_under (site : Site) (s : World) (hi : Inv site s) :
    SafeUnder (Later site) Reads (fun _ _ => True) (fun _ _ => True) (take site) s := by
  apply under_bind (later_refl site)
  apply intake_record_under site (later_refl site) (later_trans site) (fun _ _ h => h) s hi
  · intro t _ c hc u hu
    have hcov : Covers c.value t := fun _ => ⟨c,hc,becomes_refl _⟩
    apply hold_under site (fun _ _ h => h) (fun _ r h => Reads.hold r h) u
    · exact covers_grows _ _ _ hcov hu.2
    · exact fun _ _ _ _ => trivial
  · exact fun _ _ _ _ _ => trivial

def Polled (n : ℕ) (answer : Option Conversation) (s : World)
    (found : Except KipError (Progress × IntakeRecord)) : Prop :=
  (∀ e, found = .error e → e = receiptNotFound ∨ e = unavailable) ∧
  ∀ copy, s.copies[n]? = some copy → ∀ r p, Settled r s → r.terminal = some p →
    ((∃ r', found = .ok (p,r')) ↔ informed copy answer = true)

theorem polled_read (site : Site) (n : ℕ) (answer : Option Conversation) (s t : World)
    (copy : IntakeRecord) (found : Progress × IntakeRecord) (hi : Inv site t)
    (hg : Grows s t) (hcopy : ∀ c, s.copies[n]? = some c → c = copy)
    (hr : Read (informed copy answer) found t) : Polled n answer s (.ok found) := by
  refine ⟨fun e he => (by cases he),?_⟩
  intro c hc r p hset hp
  rw [hcopy c hc]
  have ht := settled_grows r s t hset hg
  by_cases hinf : informed copy answer = true
  · rw [Read, if_pos hinf] at hr
    have heq := settled_unique r found.2 t ht hr.1
    have hfound : found.1 = p := by
      have h2 := hr.2
      rw [heq, hp] at h2
      exact (Option.some.inj h2).symm
    refine ⟨fun _ => hinf,fun _ => ⟨found.2,?_⟩⟩
    rw [← hfound]
  · rw [Read, if_neg hinf] at hr
    refine ⟨fun h => ?_,fun h => absurd h hinf⟩
    obtain ⟨r',hr'⟩ := h
    rw [Except.ok.inj hr'] at hr
    obtain ⟨_,d,hd,rfl⟩ := ht
    exact absurd hr ((hi.owned d hd).terminal p hp)

theorem copy_stays (a b : World) (n : ℕ) (c : IntakeRecord) (hg : Grows a b)
    (hc : a.copies[n]? = some c) : b.copies[n]? = some c := by
  obtain ⟨rest,hrest⟩ := hg.copies
  have hlt : n < a.copies.length := (List.getElem?_eq_some_iff.mp hc).1
  rw [← hrest, List.getElem?_append_left hlt]
  exact hc

theorem poll_under (site : Site) (n : ℕ) (answer : Option Conversation) (s : World)
    (hi : Inv site s) :
    SafeUnder (Later site) Reads (fun found _ => Polled n answer s (.ok found))
      (fun e _ => Polled n answer s (.error e)) (poll n answer) s := by
  apply under_bind (later_refl site)
  apply under_query
  · intro t hst i copy hcopy u htu
    have hsu := later_trans site _ _ _ hst htu
    have hmem : t.copies[n]? = some copy := by
      cases hn : t.copies[n]? with
      | none => simp [hn] at hcopy
      | some r =>
        simp only [hn, Except.ok.injEq] at hcopy
        rw [hcopy]
    have hsame : ∀ c, s.copies[n]? = some c → c = copy := by
      intro c hc
      exact Option.some.inj ((copy_stays s t n c hst.2 hc).symm.trans hmem)
    have hcov : Covers copy u :=
      covers_grows copy t u ((hst.1 hi).copies copy (List.mem_of_getElem? hmem)) htu.2
    have hframe := under_frame (Later site s) (fun a b hab hs => later_trans site _ _ _ hs hab)
      (fun a b hab hs => later_trans site _ _ _ hs (reads_later site a b hab)) _ u
      (settled_under site u copy answer (hsu.1 hi) hcov) hsu
    apply under_mono _ _ hframe
    · intro found v hv
      exact polled_read site n answer s v copy found (hv.2.1 hi) hv.2.2 hsame hv.1
    intro e v hv
    refine ⟨fun e' he => ?_,?_⟩
    · rw [← Except.error.inj he]
      exact Or.inr hv.1.1
    · intro c hc r p _ _
      rw [hsame c hc, hv.1.2]
      simp
  · intro t hst i e he u htu
    cases hn : t.copies[n]? with
    | some r => simp [hn] at he
    | none =>
      simp only [hn, Except.error.injEq] at he
      refine ⟨fun e' he' => ?_,?_⟩
      · rw [← Except.error.inj he', ← he]
        exact Or.inl rfl
      · intro c hc
        rw [copy_stays s t n c hst.2 hc] at hn
        cases hn

/-- The meaning of a request, with the source digest it resolved, or the
recorded one when its source is gone. -/
def requestMeaning (site : Site) (request : Request) (source : Except KipError ResolvedSource)
    (r : IntakeRecord) : Meaning :=
  meaning site request (match source with
    | .ok source => some source.digest
    | .error _ => r.sourceDigest)

def Replayed (site : Site) (request : Request) (source : Except KipError ResolvedSource)
    (r : IntakeRecord) (found : Except KipError IntakeRecord) : Prop :=
  (requestMeaning site request source r = r.intentDigest.content →
    ∃ r', found = .ok r' ∧ Becomes r r') ∧
  (requestMeaning site request source r ≠ r.intentDigest.content →
    found = .error idempotencyConflict)

theorem replay_refused_iff (site : Site) (request : Request)
    (source : Except KipError ResolvedSource) (r : IntakeRecord)
    (hd : r.intentDigest.content.sourceDigest = r.sourceDigest) :
    (digest (meaning site request r.sourceDigest) ≠ r.intentDigest ∨
      source.toOption.any (fun source => some source.digest != r.sourceDigest) = true) ↔
    requestMeaning site request source r ≠ r.intentDigest.content := by
  have hinj : digest (meaning site request r.sourceDigest) = r.intentDigest ↔
      meaning site request r.sourceDigest = r.intentDigest.content := by
    constructor
    · intro h
      rw [← h]
      rfl
    · intro h
      rw [h]
      rfl
  cases source with
  | error e => simp [requestMeaning, Except.toOption, hinj]
  | ok source =>
    by_cases hs : some source.digest = r.sourceDigest
    · simp [requestMeaning, Except.toOption, hs, hinj]
    have hne : requestMeaning site request (.ok source) r ≠ r.intentDigest.content := by
      intro h
      apply hs
      rw [← hd, ← h]
      rfl
    simp [Except.toOption, hs, hne]

theorem replay_under (site : Site) (request : Request) (source : Except KipError ResolvedSource)
    (s : World) (c : Versioned IntakeRecord) (hi : Inv site s) (hc : s.receipt = some c) :
    SafeUnder (Quiet site) (Admits site)
      (fun r _ => Replayed site request source c.value (.ok r))
      (fun e _ => Replayed site request source c.value (.error e))
      (replay site request source) s := by
  have hd := (hi.owned c hc).meaning
  apply under_bind (quiet_refl site)
  apply intake_record_under site (quiet_refl site) (quiet_trans site) (fun _ _ h => h.later) s hi
  · intro t ht d hdt u hu
    obtain ⟨d',hd',hb,_⟩ := ht.later.2.receipt c hc
    have hdd : d' = d := Option.some.inj (hd'.symm.trans hdt)
    subst hdd
    have hsame : requestMeaning site request source d'.value =
        requestMeaning site request source c.value := by
      simp only [requestMeaning, hb.sourceDigest]
    have hiff := replay_refused_iff site request source d'.value
      ((ht.later.1 hi).owned d' hdt).meaning
    rw [hsame, hb.intentDigest] at hiff
    apply under_bind (quiet_refl site)
    apply under_refuse
    · intro hbad v _
      rw [hb.intentDigest] at hbad
      exact ⟨fun h => absurd h (hiff.mp hbad),fun _ => rfl⟩
    intro hok v hv
    rw [hb.intentDigest] at hok
    have hcov : Covers d'.value t := fun _ => ⟨d',hdt,becomes_refl _⟩
    apply hold_under site (fun _ _ h => h.later) (fun _ r h => Admits.hold r h) v
    · exact covers_grows _ _ _ hcov (grows_trans _ _ _ hu.later.2 hv.later.2)
    · intro _ _ _ _
      exact ⟨fun _ => ⟨_,rfl,hb⟩,fun h => absurd (hiff.mpr h) hok⟩
  · intro t ht hn
    obtain ⟨d,hdt,_⟩ := ht.later.2.receipt c hc
    rw [hn] at hdt
    cases hdt

end AndaBrain.Intake
