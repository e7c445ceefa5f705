import AndaBrain.IntakeAdmission

/-!
# Receipts over every interleaving

Any number of requests work on the receipt of one key; they interleave at every journal call and
are dropped anywhere.
-/

set_option autoImplicit false

namespace AndaBrain.Intake
open Foundation.ConditionalStore Foundation.ThreadPool

def rely (site : Site) : Op → World → World → Prop
  | .intake _ _ => Quiet site
  | _ => Later site

def guarantee (site : Site) : Op → World → World → Prop
  | .intake _ _ => Admits site
  | _ => Reads

def Answers (site : Site) (o : Op) (s : World) (answer : Except KipError Answer)
    (t : World) : Prop :=
  match o with
  | .intake request source =>
    ∃ found, answer = found.map Answer.receipt ∧ Admitted site request source s found t
  | .take => True
  | .poll n conversation =>
    ∃ found, answer = found.map (fun x => Answer.progress x.1 x.2) ∧
      Polled n conversation s found

variable (site : Site)

theorem guarantee_later (o : Op) (a b : World) (h : guarantee site o a b) : Later site a b := by
  cases o with
  | intake request source => exact admits_later site a b h
  | take => exact reads_later site a b h
  | poll n answer => exact reads_later site a b h

theorem operate_under (o : Op) (s : World) (hi : Inv site s) :
    SafeUnder (rely site o) (guarantee site o) (fun r => Answers site o s (.ok r))
      (fun e => Answers site o s (.error e)) (operate site o) s := by
  cases o with
  | intake request source =>
    apply under_bind (quiet_refl site)
    apply under_mono _ _ (memory_intake_under site request source s hi)
    · intro r t ht u hu
      exact ⟨.ok r,rfl,ht.1,fun hs => rest_quiet site t u hu (ht.2 hs)⟩
    · exact fun e _ h => ⟨.error e,rfl,h⟩
  | take =>
    apply under_bind (later_refl site)
    apply under_mono _ _ (take_under site s hi)
    · exact fun _ _ _ _ _ => trivial
    · exact fun _ _ _ => trivial
  | poll n answer =>
    apply under_bind (later_refl site)
    apply under_mono _ _ (poll_under site n answer s hi)
    · exact fun found _ h _ _ => ⟨.ok found,rfl,h⟩
    · exact fun e _ h => ⟨.error e,rfl,h⟩

/-- The requests keep their promises, whatever is asked of the states in which
the gate is left, as long as readers and complete mutations keep it. -/
theorem protocol (P : World → Prop) (hreads : ∀ a b, Reads a b → P a → P b)
    (hleaves : ∀ s t, (Rest s → Rest t) → P s → P t) :
    Protocol (operate site) atGate (Inv site) P (rely site) (guarantee site)
      (Answers site) where
  refl o s := by
    cases o with
    | intake request source => exact quiet_refl site s
    | take => exact later_refl site s
    | poll n answer => exact later_refl site s
  trans o a b c hab hbc := by
    cases o with
    | intake request source => exact quiet_trans site a b c hab hbc
    | take => exact later_trans site a b c hab hbc
    | poll n answer => exact later_trans site a b c hab hbc
  keeps o a b ha hg := (guarantee_later site o a b hg).1 ha
  compat o o' a b hgate _ hg := by
    have hl := guarantee_later site o a b hg
    cases o' with
    | intake request' source' =>
      cases o with
      | intake request source => cases hgate
      | take => exact reads_quiet site a b hg
      | poll n answer => exact reads_quiet site a b hg
    | take => exact hl
    | poll n answer => exact hl
  free o a b hgate _ hg := by
    cases o with
    | intake request source => cases hgate
    | take => exact hreads a b hg
    | poll n answer => exact hreads a b hg
  leaves o s r t hgate hpost := by
    cases o with
    | intake request source =>
      obtain ⟨found,_,h⟩ := hpost
      exact hleaves s t h.2
    | take => cases hgate
    | poll n answer => cases hgate
  op o s hi := operate_under site o s hi

theorem protocol_any :
    Protocol (operate site) atGate (Inv site) (fun _ => True) (rely site) (guarantee site)
      (Answers site) :=
  protocol site _ (fun _ _ _ h => h) fun _ _ _ h => h

theorem protocol_rest : Protocol (operate site) atGate (Inv site) Rest (rely site)
    (guarantee site) (Answers site) :=
  protocol site _ (fun a b h => rest_quiet site a b (reads_quiet site a b h)) fun _ _ h => h

def reach (site : Site) (es : List (Event Op Env)) : Pool Op Answer KipError Env World :=
  run (operate site) atGate (idle World.empty) es

theorem reach_sound (es : List (Event Op Env)) :
    Sound atGate (Inv site) (fun _ => True) (rely site) (guarantee site) (Answers site)
      (reach site es) :=
  run_sound (protocol_any site) _ es (sound_idle _ (inv_empty site) trivial) (orderly_true _ es)

theorem rest_empty : Rest World.empty := by
  intro c hc
  cases hc

def WholeBindings (site : Site) (es : List (Event Op Env)) : Prop :=
  Orderly (operate site) atGate Rest (idle World.empty) es

theorem reach_rest_sound (es : List (Event Op Env)) (h : WholeBindings site es) :
    Sound atGate (Inv site) Rest (rely site) (guarantee site) (Answers site) (reach site es) :=
  run_sound (protocol_rest site) _ es (sound_idle _ (inv_empty site) rest_empty) h

def AnsweredFromReceipt (site : Site) (f : Finished Op Answer KipError World) : Prop :=
  ∀ request source c, f.op = .intake request source → f.start.receipt = some c →
    ∃ found, f.answer = found.map Answer.receipt ∧
      Replayed site request source c.value found

/-- In every run at most one conversation is started for the key and no progress
read fails for a conflict in the journal; when no mutation was stopped between
receipt and key, every request that finds the receipt is answered from it. -/
theorem bound_key_answers (site : Site) (es : List (Event Op Env)) :
    (reach site es).state.started.length ≤ 1 ∧
    (∀ f ∈ (reach site es).log, ∀ n conversation e, f.op = .poll n conversation →
      f.answer = .error e → e.code ≠ .internalError) ∧
    (WholeBindings site es → ∀ f ∈ (reach site es).log, AnsweredFromReceipt site f) := by
  have hs := reach_sound site es
  refine ⟨hs.inv.once,?_,?_⟩
  · intro f hf n conversation e ho he
    obtain ⟨⟨t,ht⟩,_⟩ := hs.answers f hf
    rw [ho] at ht
    obtain ⟨found,hfound,hp⟩ := ht
    rw [he] at hfound
    cases found with
    | ok x => cases hfound
    | error e' =>
      cases hfound
      rcases hp.1 e rfl with rfl | rfl
      · exact KipErrorCode.noConfusion
      · exact KipErrorCode.noConfusion
  · intro hwhole f hf request source c ho hc
    obtain ⟨⟨t,ht⟩,hrest⟩ := (reach_rest_sound site es hwhole).answers f hf
    rw [ho] at ht hrest
    obtain ⟨found,hfound,ha⟩ := ht
    obtain ⟨k,hk⟩ := hrest rfl c hc
    exact ⟨found,hfound,ha.1 k c hk hc⟩

/-- Once the stored receipt carries a terminal progress, receipt, terminal and
result stay; and a progress read that begins then returns that progress exactly
when its copy carries a terminal, or names a conversation that is at its end. -/
theorem terminal_progress_is_final (site : Site) (es fs : List (Event Op Env)) (r : IntakeRecord)
    (p : Progress) (hr : Settled r (reach site es).state) (hp : r.terminal = some p) : Settled r
    (reach site (es++fs)).state ∧ ∀ f ∈ (reach site (es++fs)).log, ∀ n conversation copy, f.op =
    .poll n conversation → f.start.copies[n]? = some copy → Settled r f.start →
    ((∃ r', f.answer = .ok (.progress p r')) ↔ informed copy conversation = true) := by
  have hs := reach_sound site (es++fs)
  refine ⟨?_,?_⟩
  · rw [reach, run_append]
    apply run_stable (protocol_any site) (Settled r) _ _ fs (reach_sound site es)
      (orderly_true _ fs) hr
    exact fun o a b _ hg h => settled_grows r a b h (guarantee_later site o a b hg).2
  intro f hf n conversation copy ho hcopy hset
  obtain ⟨⟨t,ht⟩,_⟩ := hs.answers f hf
  rw [ho] at ht
  obtain ⟨found,hfound,hpolled⟩ := ht
  rw [← hpolled.2 copy hcopy r p hset hp, hfound]
  cases found with
  | error e => simp [Except.map]
  | ok x =>
    obtain ⟨q,r'⟩ := x
    simp [Except.map]

section Sample

def sampleSite : Site := ⟨"alice","space",.feedback,"1"⟩

def sampleRequest : Request := ⟨⟨none,[]⟩,.null,"src-1",.feedback none none⟩

def sampleSource : ResolvedSource := ⟨"src-1","sha256:1",1,[]⟩

def sampleEnv (now : ℕ) : Env where
  scope := .ok ⟨⟨none,[]⟩,none,[]⟩
  predecessor _ := none
  seq := .ok 7
  now := now
  reference _ := none
  target := .ok .other
  ingested := none
  ingest := .ok none
  originalClass := none
  capture := .ok (some "E-1",some 8)
  repair := .error conflictError

def ticks (n count now : ℕ) : List (Event Op Env) := List.replicate count (.tick n (sampleEnv now))

def sampleIntake : Op := .intake sampleRequest (.ok sampleSource)

def strandedRun : List (Event Op Env) :=
  .spawn 0 sampleIntake::ticks 0 5 100++[.crash,.spawn 0 sampleIntake]++ticks 0 7 200

/-- The mutation stops when its receipt is stored and its key is not; the same
request, made again, meets a receipt with another time of acceptance. -/
theorem stranded_receipt_is_not_answered : ∃ f ∈ (reach sampleSite strandedRun).log, ∃ c, f.op =
    sampleIntake ∧ f.start.receipt = some c ∧ requestMeaning sampleSite sampleRequest
    (.ok sampleSource) c.value = c.value.intentDigest.content ∧ f.answer = .error
    ⟨.internalError,"precondition failed"⟩ := by
  refine ⟨_,List.Mem.head _,_,rfl,rfl,rfl,?_⟩
  rfl

/-- A reader takes its copy while the mutation is between receipt and key; the
mutation then finishes with a terminal progress. -/
def earlyCopy : List (Event Op Env) :=
  .spawn 0 sampleIntake::ticks 0 6 100++.spawn 1 .take::ticks 1 3 100++ticks 0 10 100

def readCopy (n : ℕ) : List (Event Op Env) := .spawn 2 (.poll n none)::ticks 2 2 100

/-- A wait asks about the copy it was given, which never shows the terminal. -/
theorem early_copy_stays_recorded : ∃ f ∈ (reach sampleSite (earlyCopy++readCopy 0)).log, ∃ r p q
    r', f.op = .poll 0 none ∧ Settled r f.start ∧ r.terminal = some p ∧ f.answer = .ok
    (.progress q r') ∧ q.phase = .recorded ∧ p.phase = .available := by
  refine ⟨_,List.Mem.tail _ (List.Mem.tail _ (List.Mem.head _)),_,_,_,_,rfl,⟨?_,_,rfl,rfl⟩,
    rfl,rfl,rfl,rfl⟩
  rfl

theorem terminal_progress_is_final_feedback : ∃ r p, Settled r (reach sampleSite earlyCopy).state ∧
    r.terminal = some p ∧ Settled r (reach sampleSite (earlyCopy++readCopy 1)).state := by
  have h : ∃ r p, Settled r (reach sampleSite earlyCopy).state ∧ r.terminal = some p :=
    ⟨_,_,⟨rfl,_,rfl,rfl⟩,rfl⟩
  obtain ⟨r,p,hr,hp⟩ := h
  exact ⟨r,p,hr,hp,(terminal_progress_is_final sampleSite earlyCopy (readCopy 1) r p hr hp).1⟩

end Sample

end AndaBrain.Intake
