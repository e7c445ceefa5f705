import AndaBrain.SemanticLedger
import AndaBrain.AttentionSteps

/-!
# Runs of the semantic runtime

Each step of a pass or of a retry keeps the guarantee of the jobs and the cursor, so it holds
wherever a run stops.
-/

set_option autoImplicit false

namespace AndaBrain.Semantic
open Foundation Foundation.Resumption Foundation.ConditionalStore
open Attention (RuntimePin next)

variable (site : Site)

structure Turn (watch : String) (a b : World) : Prop where
  sound : Sound site b
  others : ∀ v, v ≠ watch → b.job v = a.job v
  known : ∀ v version generation, Known a v version generation → Known b v version generation

structure Open (watch : String) (w : World) (job : Job) : Prop where
  sound : Sound site w
  pending : w.pending = some watch
  fits : Fits w watch job

structure AtHand (watch : String) (w : World) (job : Job) (ticket : String) : Prop extends
    Open site watch w job where
  stored : w.job watch = some job
  ticket : job.ticket = some ticket

structure Closed (watch : String) (w : World) : Prop where
  sound : Sound site w
  pending : w.pending = some watch
  free : ∀ job, w.job watch = some job → job.evaluation = none

def Stopped (watch : String) (stop : Stop) (w : World) : Prop :=
  Open site watch w stop.job ∧ stop.failure ≠ unrecovered

section Rules
variable {site} {watch : String} {w : World} {job : Job}

theorem turn_changed (changes : List Change) (h : Sound site w) :
    Turn site watch w (w.changed changes) :=
  ⟨sound_changed changes h,fun _ _ => rfl,fun _ _ _ hk => known_changed changes hk⟩

theorem open_changed (changes : List Change) (h : Open site watch w job) :
    Open site watch (w.changed changes) job :=
  ⟨sound_changed changes h.sound,h.pending,fits_changed changes h.fits⟩

theorem at_hand_changed {ticket : String} (changes : List Change) (h : AtHand site watch w job ticket) :
    AtHand site watch (w.changed changes) job ticket :=
  ⟨open_changed changes h.toOpen,h.stored,h.ticket⟩

variable {α : Type} {Q : α → World → Prop} {E : Failure → World → Prop}

theorem safe_look (f : Env → World → Except Failure α) (h : Sound site w)
    (hq : ∀ i a, f i (w.changed i.changes) = .ok a → Q a (w.changed i.changes))
    (he : ∀ i e, f i (w.changed i.changes) = .error e → E e (w.changed i.changes)) :
    Safe (Turn site watch) Q E (look f) w := by
  intro i
  exact ⟨.inr (turn_changed i.changes h),safe_lift _ _ (hq i) (he i)⟩

theorem safe_ask (f : Env → World → Except Failure α) (h : Sound site w)
    (hq : ∀ i a, f i (w.changed i.changes) = .ok a → Q a (w.changed i.changes))
    (he : ∀ i e, f i (w.changed i.changes) = .error e → E e (w.changed i.changes))
    (hn : ∀ (i : Env) e, E (.native e) (w.changed i.changes)) : Safe (Turn site watch) Q E (ask f) w := by
  refine safe_look _ h ?_ ?_
  · intro i a ha
    cases hi : i.native with
    | some e => simp [hi] at ha
    | none =>
      simp only [hi, Option.elim_none] at ha
      exact hq i a ha
  intro i e he'
  cases hi : i.native with
  | some e =>
    simp only [hi, Option.elim_some, Except.error.injEq] at he'
    rw [← he']
    exact hn i e
  | none =>
    simp only [hi, Option.elim_none] at he'
    exact he i e he'

theorem safe_fetch (k : Key) {Q : Option (Entry k) → World → Prop} (hq : Q (value w.directory k) w)
    (he : ∀ e, E (.store e) w) : Safe (Turn site watch) Q E (fetch k) w := by
  apply safe_map_fail
  apply safe_bind
  exact safe_read k w hq he

theorem safe_holding (pass : SemanticPass) (p : M α) {E : Stop → World → Prop}
    (h : Safe (Turn site watch) Q (fun e w => E ⟨e,job,pass⟩ w) p w) :
    Safe (Turn site watch) Q E (holding job pass p) w :=
  safe_map_fail _ p w h

theorem safe_outside (act : Env → World → World) (f : Env → World → Except Failure α)
    (hturn : ∀ i, Turn site watch w (act i (w.changed i.changes)))
    (hq : ∀ i a, f i (w.changed i.changes) = .ok a → Q a (act i (w.changed i.changes)))
    (he : ∀ i e, f i (w.changed i.changes) = .error e → E e (act i (w.changed i.changes))) :
    Safe (Turn site watch) Q E (outside act f) w := by
  intro i
  exact ⟨.inr (hturn i),safe_lift _ _ (hq i) (he i)⟩

structure Saved (watch : String) (job : Job) (w w' : World) : Prop where
  stored : w'.job watch = some job
  trail : w'.trail = w.trail
  artifacts : w'.artifacts = w.artifacts
  pending : w'.pending = w.pending

theorem turn_job (h : Sound site (written w (.job watch) job)) :
    Turn site watch w (written w (.job watch) job) := by
  refine ⟨h,?_,fun _ _ _ hk => hk⟩
  intro v hv
  rw [job_written, Function.update_of_ne hv]

theorem safe_save_job (h : Sound site w) (hfits : Fits w watch job) (hholding : Holding site w watch job)
    (hsettled : job.accepted = true → job.evaluation = none)
    (hpending : job.evaluation.isSome = true → w.pending = some watch) {Q : Unit → World → Prop}
    (hq : ∀ w', Sound site w' → Fits w' watch job → Saved watch job w w' → Q () w')
    (he : ∀ w' e, Sound site w' → Fits w' watch job → w'.pending = w.pending → E (.store e) w') :
    Safe (Turn site watch) Q E (save (.job watch) job) w := by
  have hsound := sound_job h hfits hholding hsettled hpending
  have hfits' : Fits (written w (.job watch) job) watch job :=
    ⟨hfits.named,hfits.version,hfits.counted,hfits.newest⟩
  have hpend := pending_written w watch job
  apply safe_map_fail
  apply safe_confirmed_save
  · exact turn_job hsound
  · refine hq _ hsound hfits' ⟨?_,rfl,rfl,hpend⟩
    rw [job_written, Function.update_self]
  · intro hv
    exact hq w h hfits ⟨hv,rfl,rfl,rfl⟩
  · intro e
    exact he w e h hfits rfl
  · intro e
    exact he _ e hsound hfits' hpend

theorem safe_save_own (h : Sound site w) (hfits : Fits w watch job) (hholding : Holding site w watch job)
    (hsettled : job.accepted = true → job.evaluation = none)
    (hpending : job.evaluation.isSome = true → w.pending = some watch) {Q : Unit → World → Prop}
    (hq : ∀ w', Sound site w' → Fits w' watch job → Saved watch job w w' → Q () w')
    (he : ∀ w' e, Sound site w' → Fits w' watch job → w'.pending = w.pending → E (.store e) w') :
    Safe (Turn site watch) Q E (save (.job job.watch) job) w := by
  obtain rfl := hfits.named
  exact safe_save_job h hfits hholding hsettled hpending hq he

theorem safe_save_cursor (cursor : Cursor) (h : Sound site w)
    (hpending : ∀ v job, w.job v = some job → job.evaluation.isSome = true → cursor.pending = some v)
    {Q : Unit → World → Prop}
    (hq : ∀ w', Sound site w' → w'.pending = cursor.pending → w'.job = w.job → Q () w')
    (he : ∀ w' e, Sound site w' → E (.store e) w') :
    Safe (Turn site watch) Q E (saveCursor cursor) w := by
  have hsound := sound_cursor cursor h hpending
  have hjob := job_cursor w cursor
  apply safe_map_fail
  apply safe_confirmed_save
  · refine ⟨hsound,?_,fun _ _ _ hk => hk⟩
    intro v _
    rw [hjob]
  · exact hq _ hsound (pending_cursor w cursor) hjob
  · intro hv
    refine hq w h ?_ rfl
    unfold World.pending
    exact congrArg (fun found : Option Cursor => found.bind Cursor.pending) hv
  · intro e
    exact he w e h
  · intro e
    exact he _ e hsound

end Rules

theorem native_error {α : Type} (x : Except NativeError α) {e : Failure}
    (h : x.mapError Failure.native = .error e) : e ≠ unrecovered := by
  cases x with
  | ok a => cases h
  | error n =>
    cases h
    simp [unrecovered]

section Evaluate
variable {site} {watch : String} {w : World} {job : Job} {ticket : String}

theorem closed_saved {w' : World} (h : Open site watch w job) (hnone : job.evaluation = none)
    (hsound : Sound site w') (hsaved : Saved watch job w w') : Closed site watch w' := by
  refine ⟨hsound,hsaved.pending.trans h.pending,fun j hj => ?_⟩
  cases hsaved.stored.symm.trans hj
  exact hnone

variable (pass : SemanticPass)

theorem stopped_of_open {e : Failure} (h : Open site watch w job)
    (he : e ≠ unrecovered) : Stopped site watch ⟨e,job,pass⟩ w := ⟨h,he⟩

theorem safe_save_open (h : Open site watch w job) (hnone : job.evaluation = none)
    {Q : Unit → World → Prop}
    (hq : ∀ w', Open site watch w' job → Saved watch job w w' → Q () w') :
    Safe (Turn site watch) Q (Stopped site watch) (holding job pass (save (.job job.watch) job)) w := by
  apply safe_holding
  apply safe_save_own h.sound h.fits (fun pin hp => by rw [hnone] at hp; cases hp)
    (fun _ => hnone) (fun hs => by rw [hnone] at hs; cases hs)
  · intro w' hsound hfits hsaved
    exact hq w' ⟨hsound,hsaved.pending.trans h.pending,hfits⟩ hsaved
  · intro w' e hsound hfits hpending
    exact ⟨⟨hsound,hpending.trans h.pending,hfits⟩,by simp [unrecovered]⟩

theorem prepared_safe (h : Open site watch w job) (hstored : w.job watch = some job)
    (haccepted : job.accepted = false) :
    Safe (Turn site watch) (fun r w' => AtHand site watch w' r.1 r.2 ∧ r.1.accepted = false ∧
        r.1.attempts = job.attempts ∧ r.1.evaluation = job.evaluation)
      (Stopped site watch) (prepared site job pass) w := by
  unfold prepared
  cases hticket : job.ticket with
  | some ticket => exact ⟨⟨h,hstored,hticket⟩,haccepted,rfl,rfl⟩
  | none =>
    have hnone : job.evaluation = none := by
      cases hev : job.evaluation with
      | none => rfl
      | some pin =>
        obtain ⟨t,-,ht,-⟩ := h.sound.holding watch job hstored pin hev
        rw [hticket] at ht
        cases ht
    apply safe_bind
    apply safe_holding
    apply safe_bind
    apply safe_lift
    · intro _ _
      apply safe_ask _ h.sound
      · intro i t _
        have hopen := open_changed i.changes h
        apply safe_bind
        have hticketed : Open site watch (w.changed i.changes) { job with
            ticket := some t, progress := { job.progress with ticketRef := some t } } :=
          ⟨hopen.sound,hopen.pending,⟨hopen.fits.named,hopen.fits.version,hopen.fits.counted,
            hopen.fits.newest⟩⟩
        refine safe_save_open pass hticketed hnone ?_
        intro w' hopen' hsaved
        exact ⟨⟨hopen',hsaved.stored,rfl⟩,haccepted,rfl,rfl⟩
      · intro i e he
        refine stopped_of_open pass (open_changed i.changes h) ?_
        cases hi : i.ticket with
        | some t => simp [hi] at he
        | none =>
          simp only [hi, Option.elim_none, Except.error.injEq] at he
          rw [← he]
          decide
      · exact fun i e => stopped_of_open pass (open_changed i.changes h) (by simp [unrecovered])
    · intro e he
      exact stopped_of_open pass h (native_error _ he)

theorem read_page_safe (h : AtHand site watch w job ticket) :
    Safe (Turn site watch) (fun page w' => AtHand site watch w' job ticket ∧
        page = site.page ticket ∧ page.watchRef = watch)
      (Stopped site watch) (holding job pass (readPage site job ticket)) w := by
  apply safe_holding
  apply safe_bind
  apply safe_ask _ h.sound
  · intro i page hpage
    cases hpage
    have hat := at_hand_changed i.changes h
    apply safe_bind
    apply safe_refuse
    · exact fun _ => stopped_of_open pass hat.toOpen (by decide)
    · intro hsame
      push Not at hsame
      exact ⟨hat,rfl,hsame.2.1.trans hat.fits.named⟩
  · intro i e he
    cases he
  · exact fun i e => stopped_of_open pass (open_changed i.changes h.toOpen) (by simp [unrecovered])

/-- Judgments in hand, and no commit for the ticket since its last call. -/
structure Judged (site : Site) (watch ticket : String) (rows : List WatchJudgment) (job : Job)
    (w : World) : Prop extends Open site watch w job where
  unevaluated : job.evaluation = none
  ticketed : job.ticket = some ticket
  unaccepted : job.accepted = false
  covers : Covers (site.page ticket) rows
  first : (site.page ticket).candidates ≠ [] → since ticket w.trail = []

theorem judged_changed {rows : List WatchJudgment} (changes : List Change)
    (h : Judged site watch ticket rows job w) :
    Judged site watch ticket rows job (w.changed changes) :=
  ⟨open_changed changes h.toOpen,h.unevaluated,h.ticketed,h.unaccepted,h.covers,h.first⟩

theorem judged_safe (tokens : ℕ) (h : AtHand site watch w job ticket)
    (hnone : job.evaluation = none) (haccepted : job.accepted = false)
    (hspent : calls w.trail watch job.version job.generation job.epoch < job.attempts)
    (hlimit : job.attempts ≤ site.limits.attemptsPerPage) :
    Safe (Turn site watch) (fun r => Judged site watch ticket r.1 r.2.1) (Stopped site watch)
      (judged site job pass ticket (site.page ticket) tokens) w := by
  unfold judged
  by_cases hempty : (site.page ticket).candidates.isEmpty = true
  · rw [if_pos hempty]
    have hnil : (site.page ticket).candidates = [] := by simpa using hempty
    refine ⟨h.toOpen,hnone,h.ticket,haccepted,?_,fun hne => absurd hnil hne⟩
    rw [Covers, hnil]
    exact List.Perm.refl _
  rw [if_neg hempty]
  have hne : (site.page ticket).candidates ≠ [] := by simpa using hempty
  obtain rfl := h.fits.named
  have hcalled : ∀ i : Env, Sound site ((w.changed i.changes).record
      (.called ticket job.watch job.version job.generation job.epoch)) := fun i =>
    sound_called ticket (sound_changed i.changes h.sound) h.stored hspent hlimit hne
  apply safe_bind
  apply safe_holding
  refine safe_outside _ _ (fun i => ⟨hcalled i,fun _ _ => rfl,fun _ _ _ hk =>
    known_changed i.changes hk⟩) ?_ fun i e he => by cases he
  intro i answer _
  have hfits : Fits ((w.changed i.changes).record
      (.called ticket job.watch job.version job.generation job.epoch)) job.watch job :=
    (hcalled i).fits job.watch job h.stored
  have hfirst : since ticket ((w.changed i.changes).record
      (.called ticket job.watch job.version job.generation job.epoch)).trail = [] := if_pos rfl
  simp only
  cases hread : readProvider site (site.page ticket) answer with
  | ok rows =>
    exact ⟨⟨hcalled i,h.pending,hfits⟩,hnone,h.ticket,haccepted,
      provider_covers site _ answer rows hread,fun _ => hfirst⟩
  | error reason =>
    exact ⟨⟨hcalled i,h.pending,⟨hfits.named,hfits.version,hfits.counted,hfits.newest⟩⟩,hnone,
      h.ticket,haccepted,unknown_covers _ reason,fun _ => hfirst⟩

structure Evaluated (site : Site) (watch ticket : String) (found : WatchEvaluation) (job : Job)
    (w : World) : Prop extends AtHand site watch w job ticket where
  recoverable : ∃ pin artifact, job.evaluation = some pin ∧ w.artifacts pin = some artifact ∧
    artifact.body = found

theorem put_artifact_safe (artifact : Artifact)
    (h : Judged site watch ticket artifact.body.judgments job w) :
    Safe (Turn site watch) (fun pin w' => Judged site watch ticket artifact.body.judgments job w' ∧
        ∃ a, w'.artifacts pin = some a ∧ a.body = artifact.body)
      (Stopped site watch) (holding job pass (putArtifact artifact)) w := by
  apply safe_holding
  unfold putArtifact
  have free : ∀ (i : Env), ((w.changed i.changes).artifacts i.pin).all
      (fun a => decide (a.body = artifact.body)) = true →
      Judged site watch ticket artifact.body.judgments job
        ((w.changed i.changes).putArtifact i.pin artifact) := by
    intro i hfree
    have hj := judged_changed i.changes h
    have hsound := sound_artifact i.pin artifact hj.sound (by
      intro a ha
      rw [ha] at hfree
      simpa using hfree)
    exact ⟨⟨hsound,hj.pending,⟨hj.fits.named,hj.fits.version,hj.fits.counted,hj.fits.newest⟩⟩,
      hj.unevaluated,hj.ticketed,hj.unaccepted,hj.covers,hj.first⟩
  have after : ∀ i : Env, Judged site watch ticket artifact.body.judgments job
      (if ((w.changed i.changes).artifacts i.pin).all (fun a => decide (a.body = artifact.body)) = true ∧
          (i.native.isNone = true ∨ i.stored = true)
        then (w.changed i.changes).putArtifact i.pin artifact else w.changed i.changes) := by
    intro i
    split
    · next hcond => exact free i hcond.1
    · exact judged_changed i.changes h
  refine safe_outside _ _ ?_ ?_ ?_
  · intro i
    refine ⟨(after i).sound,?_,?_⟩
    · intro v _
      split <;> rfl
    · intro v n g hk
      split <;> exact known_changed i.changes hk
  · intro i pin hpin
    refine ⟨after i,?_⟩
    cases hnative : i.native with
    | some e =>
      simp only [hnative] at hpin
      cases hpin
    | none =>
      simp only [hnative] at hpin
      split at hpin
      · next hfree =>
        cases hpin
        rw [if_pos ⟨hfree,.inl rfl⟩]
        exact ⟨artifact,Function.update_self ..,rfl⟩
      · cases hpin
  intro i e he
  refine ⟨(after i).toOpen,?_⟩
  cases hnative : i.native with
  | some x =>
    simp only [hnative] at he
    cases he
    simp [unrecovered]
  | none =>
    simp only [hnative] at he
    split at he
    · cases he
    · cases he
      simp [unrecovered]

theorem attempted_safe (tokens : ℕ) (h : AtHand site watch w job ticket)
    (hpage : (site.page ticket).watchRef = watch) (hnone : job.evaluation = none)
    (haccepted : job.accepted = false) (hlimit : job.attempts < site.limits.attemptsPerPage) :
    Safe (Turn site watch) (fun r => Evaluated site watch ticket r.1 r.2.1) (Stopped site watch)
      (attempted site job pass ticket (site.page ticket) tokens) w := by
  unfold attempted
  apply safe_bind
  have hreserved : Open site watch w { job with
      attempts := job.attempts+1, progress := { job.progress with reason := none } } :=
    ⟨h.sound,h.pending,⟨h.fits.named,h.fits.version,h.fits.counted.trans (Nat.le_succ _),
      h.fits.newest⟩⟩
  refine safe_save_open pass hreserved hnone ?_
  intro w₁ hopen hsaved
  apply safe_bind
  have hcounted := h.fits.counted
  rw [← hsaved.trail] at hcounted
  refine safe_mono _ w₁ (judged_safe pass tokens ⟨hopen,hsaved.stored,h.ticket⟩ hnone haccepted
    (Nat.lt_succ_of_le hcounted) hlimit) (fun _ _ hg => hg) ?_ fun _ _ he => he
  intro r w₂ hjudged
  obtain ⟨rows,job₂,pass₂⟩ := r
  simp only at hjudged ⊢
  apply safe_bind
  apply safe_holding
  apply safe_lift
  · intro key _
    apply safe_bind
    refine safe_mono _ w₂ (put_artifact_safe pass₂
      ⟨⟨key,some site.pin,rows⟩,job₂.watch::(site.page ticket).candidates.filterMap Candidate.changeId⟩
      hjudged) (fun _ _ hg => hg) ?_ fun _ _ he => he
    intro pin w₃ hput
    obtain ⟨hjudged,a,ha,hbody⟩ := hput
    apply safe_bind
    apply safe_holding
    have hfits : Fits w₃ watch { job₂ with evaluation := some pin } :=
      ⟨hjudged.fits.named,hjudged.fits.version,hjudged.fits.counted,hjudged.fits.newest⟩
    apply safe_save_own hjudged.sound hfits
    · intro p hp
      cases hp
      refine ⟨ticket,a,hjudged.ticketed,hpage,ha,?_,?_⟩
      · rw [hbody]
        exact hjudged.covers
      · intro hne e he
        rw [hjudged.first hne] at he
        cases he
    · intro hacc
      exact absurd (hjudged.unaccepted.symm.trans hacc) Bool.false_ne_true
    · exact fun _ => hjudged.pending
    · intro w₄ hsound hfits' hsaved'
      refine ⟨⟨⟨hsound,hsaved'.pending.trans hjudged.pending,hfits'⟩,hsaved'.stored,hjudged.ticketed⟩,
        pin,a,rfl,?_,hbody⟩
      rw [hsaved'.artifacts]
      exact ha
    · intro w₄ e hsound hfits' hpending
      exact ⟨⟨hsound,hpending.trans hjudged.pending,hfits'⟩,by simp [unrecovered]⟩
  · intro e he
    exact stopped_of_open pass₂ hjudged.toOpen (native_error _ he)

/-- What an evaluation leaves: the stored one in hand, or nothing to recover. -/
def Answered (site : Site) (watch ticket : String) (job : Job) (w : World) :
    Option WatchEvaluation → Prop
  | none => Closed site watch w
  | some found => Evaluated site watch ticket found job w

theorem evaluation_safe (h : AtHand site watch w job ticket)
    (hpage : (site.page ticket).watchRef = watch) (haccepted : job.accepted = false)
    (hlimit : job.evaluation = none → job.attempts < site.limits.attemptsPerPage) :
    Safe (Turn site watch) (fun r w' => Answered site watch ticket r.2.1 w' r.1) (Stopped site watch)
      (evaluation site job pass ticket (site.page ticket)) w := by
  unfold evaluation
  cases hev : job.evaluation with
  | some pin =>
    simp only
    apply safe_bind
    apply safe_holding
    apply safe_ask _ h.sound
    · intro i found hfound
      cases ha : (w.changed i.changes).artifacts pin with
      | none =>
        rw [ha] at hfound
        cases hfound
      | some a =>
        rw [ha] at hfound
        cases hfound
        exact ⟨at_hand_changed i.changes h,pin,a,hev,ha,rfl⟩
    · intro i e he
      refine stopped_of_open pass (open_changed i.changes h.toOpen) ?_
      cases ha : (w.changed i.changes).artifacts pin with
      | none =>
        rw [ha] at he
        cases he
        simp [unrecovered]
      | some a =>
        rw [ha] at he
        cases he
    · exact fun i e => stopped_of_open pass (open_changed i.changes h.toOpen) (by simp [unrecovered])
  | none =>
    have hlimit' := hlimit hev
    simp only
    apply safe_bind
    apply safe_holding
    apply safe_look _ h.sound
    · intro i _ _
      have h₁ := at_hand_changed i.changes h
      generalize w.changed i.changes = w₁ at h₁
      apply safe_ite
      · intro _
        apply safe_bind
        have hopen : Open site watch w₁ { job with
            progress := { job.progress with reason := some "semantic_page_budget_exceeded" }
            attempts := site.limits.attemptsPerPage
            evaluation := none } :=
          ⟨h₁.sound,h₁.pending,⟨h₁.fits.named,h₁.fits.version,h₁.fits.counted.trans hlimit'.le,
            h₁.fits.newest⟩⟩
        refine safe_save_open pass hopen rfl ?_
        intro w₂ hopen' hsaved
        exact closed_saved hopen rfl hopen'.sound hsaved
      intro _
      apply safe_bind
      apply safe_holding
      apply safe_lift
      · intro tokens _
        apply safe_bind
        apply safe_holding
        apply safe_look _ h₁.sound
        · intro i late _
          have h₂ := at_hand_changed i.changes h₁
          generalize w₁.changed i.changes = w₂ at h₂
          apply safe_ite
          · intro _
            apply safe_bind
            have hopen : Open site watch w₂ { job with
                progress := { job.progress with
                  reason := some "semantic_input_or_pass_budget_exhausted" }
                evaluation := none } :=
              ⟨h₂.sound,h₂.pending,⟨h₂.fits.named,h₂.fits.version,h₂.fits.counted,h₂.fits.newest⟩⟩
            refine safe_save_open pass hopen rfl ?_
            intro w₃ hopen' hsaved
            exact closed_saved hopen rfl hopen'.sound hsaved
          · intro _
            apply safe_bind
            refine safe_mono _ w₂ (attempted_safe pass tokens h₂ hpage hev haccepted hlimit')
              (fun _ _ hg => hg) ?_ fun _ _ he => he
            intro r w₃ hr
            exact hr
        · intro i e he
          cases he
      · intro e he
        exact stopped_of_open pass h₁.toOpen (native_error _ he)
    · intro i e he
      refine stopped_of_open pass (open_changed i.changes h.toOpen) ?_
      split at he
      · cases he
      · cases he
        simp [unrecovered]

theorem conclude_safe (found : WatchEvaluation)
    (h : Evaluated site watch ticket found job w) :
    Safe (Turn site watch) (fun _ => Closed site watch) (Stopped site watch)
      (conclude site job pass ticket found) w := by
  unfold conclude
  apply safe_bind
  apply safe_holding
  apply safe_look _ h.sound
  · intro i same _
    have h₁ := at_hand_changed i.changes h.toAtHand
    have hrec : ∃ pin artifact, job.evaluation = some pin ∧
        (w.changed i.changes).artifacts pin = some artifact ∧ artifact.body = found := h.recoverable
    generalize w.changed i.changes = w₁ at h₁ hrec
    obtain ⟨pin,artifact,hpin,hartifact,rfl⟩ := hrec
    apply safe_bind
    apply safe_refuse
    · exact fun _ => stopped_of_open pass h₁.toOpen (by decide)
    intro _
    have hcommitted : ∀ i : Env, Sound site ((w₁.changed i.changes).record
        (.committed ticket artifact.body)) := fun i =>
      sound_committed ticket pin artifact (sound_changed i.changes h₁.sound) h₁.stored hpin h₁.ticket
        hartifact
    have hopen : ∀ i : Env, Open site watch ((w₁.changed i.changes).record
        (.committed ticket artifact.body)) job := fun i =>
      ⟨hcommitted i,h₁.pending,(hcommitted i).fits watch job h₁.stored⟩
    apply safe_bind
    apply safe_holding
    refine safe_outside _ _ (fun i => ⟨hcommitted i,fun _ _ => rfl,fun _ _ _ hk =>
      known_changed i.changes hk⟩) ?_ ?_
    · intro i result _
      have h₂ := hopen i
      generalize (w₁.changed i.changes).record _ = w₂ at h₂
      apply safe_bind
      apply safe_holding
      apply safe_look _ h₂.sound
      · intro i now _
        have h₃ := open_changed i.changes h₂
        generalize w₂.changed i.changes = w₃ at h₃
        apply safe_bind
        have hfits : ∀ (accepted : Bool) (progress : SemanticProgress) (retryAtMs : ℕ),
            Open site watch w₃ { job with
              accepted := accepted, progress := progress, evaluation := none
              retryAtMs := retryAtMs } := fun _ _ _ =>
          ⟨h₃.sound,h₃.pending,⟨h₃.fits.named,h₃.fits.version,h₃.fits.counted,h₃.fits.newest⟩⟩
        refine safe_save_open pass (hfits _ _ _) rfl ?_
        intro w₄ hopen' hsaved
        exact closed_saved (hfits _ _ _) rfl hopen'.sound hsaved
      · intro i e he
        cases he
    · intro i e he
      refine stopped_of_open pass (hopen i) ?_
      cases hn : i.native with
      | none =>
        simp only [hn] at he
        cases he
      | some x =>
        simp only [hn, Option.elim_some] at he
        cases he
        simp [unrecovered]
  · intro i e he
    refine stopped_of_open pass (open_changed i.changes h.toOpen) ?_
    cases hc : i.context with
    | ok u =>
      rw [hc] at he
      cases he
    | error x =>
      rw [hc] at he
      cases he
      simp [unrecovered]

theorem evaluate_safe (h : Open site watch w job)
    (hstored : w.job watch = some job) :
    Safe (Turn site watch) (fun _ => Closed site watch) (Stopped site watch) (evaluate site job pass) w := by
  have hclosed : ∀ w', Open site watch w' job → w'.job watch = some job → job.evaluation = none →
      Closed site watch w' := by
    intro w' hopen hstored hnone
    refine ⟨hopen.sound,hopen.pending,fun j hj => ?_⟩
    cases hstored.symm.trans hj
    exact hnone
  unfold evaluate
  cases haccepted : job.accepted with
  | true => exact hclosed w h hstored (h.sound.settled watch job hstored haccepted)
  | false =>
    simp only [Bool.false_eq_true, if_false]
    apply safe_bind
    apply safe_holding
    apply safe_look _ h.sound
    · intro i now _
      have h₁ := open_changed i.changes h
      have hstored₁ : (w.changed i.changes).job watch = some job := hstored
      generalize w.changed i.changes = w₁ at h₁ hstored₁
      apply safe_ite
      · intro hstop
        exact hclosed w₁ h₁ hstored₁ (Option.isNone_iff_eq_none.mp hstop.1)
      intro hgo
      apply safe_bind
      refine safe_mono _ w₁ (prepared_safe pass h₁ hstored₁ haccepted) (fun _ _ hg => hg) ?_
        fun _ _ he => he
      rintro ⟨job₂,ticket⟩ w₂ ⟨hat,haccepted₂,hattempts,hevaluation⟩
      simp only at hat haccepted₂ hattempts hevaluation ⊢
      apply safe_bind
      refine safe_mono _ w₂ (read_page_safe pass hat) (fun _ _ hg => hg) ?_ fun _ _ he => he
      rintro page w₃ ⟨hat₃,rfl,href⟩
      apply safe_bind
      refine safe_mono _ w₃ (evaluation_safe pass hat₃ href haccepted₂ ?_) (fun _ _ hg => hg) ?_
        fun _ _ he => he
      · intro hnone
        rw [hevaluation] at hnone
        rw [hattempts]
        simp only [hnone, Option.isNone_none, true_and, not_or, not_le] at hgo
        exact hgo.2
      · rintro ⟨found,job₄,pass₄⟩ w₄ hr
        cases found with
        | none => exact hr
        | some found => exact conclude_safe pass₄ found hr
    · intro i e he
      cases he

end Evaluate

section Passes
variable {site} {watch : String} {w : World}

def Failed (site : Site) (e : Failure) (w : World) : Prop := Sound site w ∧ e ≠ unrecovered

theorem process_safe (pass : SemanticPass) (h : Sound site w) (hpending : w.pending = some watch) :
    Safe (Turn site watch) (fun _ => Closed site watch) (Failed site) (process site watch pass) w := by
  unfold process
  apply safe_bind
  refine safe_fetch _ ?_ fun e => ⟨h,by simp [unrecovered]⟩
  apply safe_bind
  apply safe_lift
  · intro job hjob
    have hstored : w.job watch = some job := by
      unfold World.job
      cases hv : value w.directory (.job watch) with
      | none =>
        rw [hv] at hjob
        cases hjob
      | some found =>
        rw [hv] at hjob
        cases hjob
        rfl
    apply safe_bind
    apply safe_map_fail
    apply safe_attempt
    refine safe_mono _ w (evaluate_safe _ ⟨h,hpending,h.fits watch job hstored⟩ hstored)
      (fun _ _ hg => hg) ?_ ?_
    · rintro ⟨job₁,pass₁⟩ w₁ hclosed
      exact hclosed
    rintro ⟨failure,job₁,pass₁⟩ w₁ ⟨hopen,hne⟩
    simp only at hopen hne ⊢
    apply safe_ite
    · intro _
      apply safe_bind
      have hfits : Fits w₁ watch { job₁ with
          evaluation := none
          attempts := site.limits.attemptsPerPage
          progress := { job₁.progress with
            reason := some "semantic_native_basis_or_material_unavailable" } } :=
        ⟨hopen.fits.named,hopen.fits.version,hopen.sound.paid _ _ _ _,hopen.fits.newest⟩
      refine safe_save_job hopen.sound hfits (fun pin hp => nomatch hp) (fun _ => rfl)
        (fun hs => nomatch hs) ?_ ?_
      · intro w₂ hsound hfits' hsaved
        exact closed_saved ⟨hopen.sound,hopen.pending,hfits⟩ rfl hsound hsaved
      · intro w₂ e hsound _ _
        exact ⟨hsound,by simp [unrecovered]⟩
    · intro _
      exact ⟨hopen.sound,hne⟩
  · intro e he
    refine ⟨h,?_⟩
    cases hv : value w.directory (.job watch) with
    | none =>
      rw [hv] at he
      cases he
      decide
    | some found =>
      rw [hv] at he
      cases he

theorem settle_safe (cursor : Cursor) (pass : SemanticPass) (h : Sound site w)
    (hpending : w.pending = some watch) :
    Safe (Turn site watch) (fun _ w' => Sound site w' ∧ w'.pending = none) (Failed site)
      (settle site watch cursor pass) w := by
  unfold settle
  apply safe_bind
  refine safe_mono _ w (process_safe pass h hpending) (fun _ _ hg => hg) ?_ fun _ _ he => he
  intro pass₁ w₁ hclosed
  apply safe_bind
  apply safe_save_cursor _ hclosed.sound
  · intro v job hjob hsome
    have hv := hclosed.sound.recoverable v job hjob hsome
    cases hclosed.pending.symm.trans hv
    rw [hclosed.free job hjob] at hsome
    cases hsome
  · intro w₂ hsound hpend _
    exact ⟨hsound,hpend⟩
  · intro w₂ e hsound
    exact ⟨hsound,by simp [unrecovered]⟩

def Fresh (w : World) (row : Row) : Prop :=
  Known w row.id row.version row.generation ∧ ∀ job, w.job row.id = some job →
    job.version ≤ row.version ∧ (job.version = row.version → job.generation = row.generation)

theorem fresh_turn (rows : List Row) (a b : World) (h : Turn site watch a b)
    (hother : ∀ row ∈ rows, row.id ≠ watch) (hfresh : ∀ row ∈ rows, Fresh a row) :
    ∀ row ∈ rows, Fresh b row := by
  intro row hrow
  obtain ⟨hknown,hjob⟩ := hfresh row hrow
  refine ⟨h.known _ _ _ hknown,?_⟩
  rw [h.others row.id (hother row hrow)]
  exact hjob

theorem open_job_safe (row : Row) (h : Sound site w) (hpending : w.pending = none) (hfresh : Fresh w row) :
    Safe (Turn site row.id) (fun _ w' => Sound site w' ∧ w'.pending = none) (Failed site)
      (openJob row) w := by
  have hfree : ∀ job, w.job row.id = some job → job.evaluation = none := by
    intro job hjob
    cases hev : job.evaluation with
    | none => rfl
    | some pin =>
      have := h.recoverable row.id job hjob (by rw [hev]; rfl)
      rw [hpending] at this
      cases this
  unfold openJob
  apply safe_bind
  refine safe_fetch _ ?_ fun e => ⟨h,by simp [unrecovered]⟩
  change Safe _ _ _ (doIf ((w.job row.id).all (fun job => decide (job.version ≠ row.version ∨
    job.generation ≠ row.generation)) = true) _) w
  apply safe_do_if
  · intro hreplaced
    apply safe_bind
    apply safe_refuse
    · intro hev
      cases hjob : w.job row.id with
      | none =>
        change (w.job row.id).any _ = true at hev
        rw [hjob] at hev
        cases hev
      | some job =>
        change (w.job row.id).any _ = true at hev
        rw [hjob] at hev
        simp [hfree job hjob] at hev
    intro _
    -- No call was made for this version: every job before was for an earlier one.
    have hnone : ∀ v g e, 0 < calls w.trail row.id v g e → v < row.version := by
      intro v g e hpos
      cases hjob : w.job row.id with
      | none =>
        rw [h.silent row.id hjob] at hpos
        omega
      | some job =>
        rw [hjob] at hreplaced
        simp only [Option.all_some, decide_eq_true_eq] at hreplaced
        obtain ⟨hle,hgen⟩ := hfresh.2 job hjob
        have hlt : job.version < row.version := by
          rcases hle.lt_or_eq with hlt | heq
          · exact hlt
          · rcases hreplaced with hne | hne
            · exact absurd heq hne
            · exact absurd (hgen heq) hne
        rcases (h.fits row.id job hjob).newest v g e hpos with hv | ⟨hv,-⟩ <;> omega
    have hfits : Fits w row.id (newJob row) := by
      refine ⟨rfl,hfresh.1,?_,fun v g e hpos => .inl (hnone v g e hpos)⟩
      by_contra hpos
      exact absurd (hnone row.version row.generation 0 (Nat.lt_of_not_le hpos)) (lt_irrefl _)
    refine safe_save_job h hfits (fun pin hp => nomatch hp) (fun hs => nomatch hs)
      (fun hs => nomatch hs) ?_ ?_
    · intro w' hsound _ hsaved
      exact ⟨hsound,hsaved.pending.trans hpending⟩
    · intro w' e hsound _ _
      exact ⟨hsound,by simp [unrecovered]⟩
  · exact fun _ => ⟨h,hpending⟩

def Kept (site : Site) (_ b : World) : Prop := Sound site b

theorem safe_kept (v : String) {α : Type} {Q : α → World → Prop} {E : Failure → World → Prop} (p : M α)
    (h : Safe (Turn site v) Q E p w) : Safe (Kept site) Q E p w :=
  safe_mono p w h (fun _ _ hg => hg.sound) (fun _ _ hq => hq) fun _ _ he => he

theorem pass_rows_safe (rows : List Row) (cursor : Cursor) (pass : SemanticPass) (h : Sound site w)
    (hpending : w.pending = none) (hnodup : (rows.map Row.id).Nodup) (hfresh : ∀ row ∈ rows, Fresh w row) :
    Safe (Kept site) (fun _ w' => Sound site w' ∧ w'.pending = none) (Failed site)
      (passRows site rows cursor pass) w := by
  induction rows generalizing w cursor pass with
  | nil => exact ⟨h,hpending⟩
  | cons row rows ih =>
    rw [List.map_cons, List.nodup_cons] at hnodup
    have hother : ∀ r ∈ rows, r.id ≠ row.id := fun r hr heq =>
      hnodup.1 (List.mem_map.mpr ⟨r,hr,heq⟩)
    have frame := fun {α : Type} {Q : α → World → Prop} (p : M α) (a : World)
        (hp : Safe (Turn site row.id) Q (Failed site) p a) (hf : ∀ r ∈ rows, Fresh a r) =>
      safe_mono p a (safe_frame (fun b => ∀ r ∈ rows, Fresh b r)
        (fun a b hg => fresh_turn rows a b hg hother) p a hp hf)
        (fun _ _ hg => hg.1.sound) (fun _ _ hq => hq) (fun _ _ he => he.1)
    unfold passRows
    apply safe_bind
    refine safe_kept row.id deadline (safe_look _ h ?_ fun i e he => by cases he)
    intro i late _
    have h₁ := sound_changed i.changes h
    have hpending₁ : (w.changed i.changes).pending = none := hpending
    have hfresh₁ : ∀ r ∈ row::rows, Fresh (w.changed i.changes) r := fun r hr =>
      ⟨known_changed i.changes (hfresh r hr).1,(hfresh r hr).2⟩
    generalize w.changed i.changes = w₁ at h₁ hpending₁ hfresh₁
    apply safe_ite
    · exact fun _ => ⟨h₁,hpending₁⟩
    intro _
    apply safe_bind
    refine safe_mono _ w₁ (frame (openJob row) w₁
      (open_job_safe row h₁ hpending₁ (hfresh₁ row (List.mem_cons_self ..)))
      fun r hr => hfresh₁ r (List.mem_cons_of_mem _ hr)) (fun _ _ hg => hg) ?_ fun _ _ he => he
    rintro - w₂ ⟨⟨h₂,hpending₂⟩,hfresh₂⟩
    apply safe_bind
    refine safe_mono _ w₂ (frame (Q := fun _ w' => Sound site w' ∧ w'.pending = some row.id)
      (saveCursor { cursor with pending := some row.id }) w₂ ?_ hfresh₂) (fun _ _ hg => hg) ?_
      fun _ _ he => he
    · apply safe_save_cursor _ h₂
      · intro v job hjob hsome
        have := h₂.recoverable v job hjob hsome
        rw [hpending₂] at this
        cases this
      · exact fun w' hsound hpend _ => ⟨hsound,hpend⟩
      · exact fun w' e hsound => ⟨hsound,by simp [unrecovered]⟩
    · rintro - w₃ ⟨⟨h₃,hpending₃⟩,hfresh₃⟩
      apply safe_bind
      refine safe_mono _ w₃ (frame (settle site row.id { cursor with pending := some row.id } pass) w₃
        (settle_safe _ pass h₃ hpending₃) hfresh₃) (fun _ _ hg => hg) ?_ fun _ _ he => he
      rintro ⟨cursor₄,pass₄⟩ w₄ ⟨⟨h₄,hpending₄⟩,hfresh₄⟩
      exact ih cursor₄ pass₄ h₄ hpending₄ hnodup.2 hfresh₄

theorem rows_of_entries (after : String) (w : World) (limit : ℕ) :
    (((w.watches.entries.filterMap (rowOf after)).take limit).map Row.id).Nodup := by
  have hsub : ((w.watches.entries.filterMap (rowOf after)).map Row.id).Sublist
      (w.watches.entries.map Prod.fst) := by
    induction w.watches.entries with
    | nil => exact List.Sublist.refl _
    | cons e entries ih =>
      cases hrow : rowOf after e with
      | none =>
        rw [List.filterMap_cons_none hrow, List.map_cons]
        exact ih.cons _
      | some row =>
        have hid : row.id = e.1 := by
          unfold rowOf at hrow
          split at hrow
          · obtain ⟨g,-,rfl⟩ := Option.map_eq_some_iff.mp hrow
            rfl
          · cases hrow
        rw [List.filterMap_cons_some hrow, List.map_cons, List.map_cons, hid]
        exact ih.cons_cons _
  have hnodup : (w.watches.entries.map Prod.fst).Nodup := by
    rw [List.Nodup, List.pairwise_map]
    exact w.watches.sorted.imp fun hlt => ne_of_lt hlt
  exact hnodup.sublist (((List.take_sublist _ _).map _).trans hsub)

theorem row_fresh (after : String) (h : Sound site w) (row : Row)
    (hrow : row ∈ w.watches.entries.filterMap (rowOf after)) : Fresh w row := by
  obtain ⟨⟨id,n⟩,he,hrowof⟩ := List.mem_filterMap.mp hrow
  unfold rowOf at hrowof
  split at hrowof
  · obtain ⟨g,hg,rfl⟩ := Option.map_eq_some_iff.mp hrowof
    have hlookup := (SortedMap.lookup_iff w.watches id n).mpr he
    refine ⟨⟨n,hlookup,le_refl _,fun _ => hg⟩,fun job hjob => ?_⟩
    obtain ⟨m,hm,hle,hgen⟩ := (h.fits id job hjob).version
    cases hlookup.symm.trans hm
    exact ⟨hle,fun heq => Option.some.inj ((hgen heq).symm.trans hg)⟩
  · cases hrowof

theorem pass_safe (h : Sound site w) :
    Safe (Kept site) (fun _ => Sound site) (Failed site) (pass site) w := by
  unfold pass
  apply safe_bind
  refine safe_kept "" context (safe_look _ h ?_ ?_)
  · intro i _ _
    have h₁ := sound_changed i.changes h
    generalize w.changed i.changes = w₁ at h₁
    apply safe_bind
    refine safe_kept "" (fetch .cursor) (safe_fetch _ ?_ fun e => ⟨h₁,by simp [unrecovered]⟩)
    have hcursor : ((value w₁.directory .cursor : Option Cursor).getD .start).pending = w₁.pending := by
      unfold World.pending
      cases (value w₁.directory .cursor : Option Cursor) <;> rfl
    change Safe _ _ _ (recover site ((value w₁.directory .cursor : Option Cursor).getD .start) >>= _) w₁
    generalize (value w₁.directory .cursor : Option Cursor).getD .start = cursor at hcursor
    apply safe_bind
    have hrecover : Safe (Kept site) (fun _ w' => Sound site w' ∧ w'.pending = none) (Failed site)
        (recover site cursor) w₁ := by
      unfold recover
      cases hp : cursor.pending with
      | none => exact ⟨h₁,hcursor.symm.trans hp⟩
      | some watch => exact safe_kept watch _ (settle_safe cursor .empty h₁ (hcursor.symm.trans hp))
    refine safe_mono _ w₁ hrecover (fun _ _ hg => hg) ?_ fun _ _ he => he
    rintro ⟨cursor₂,pass₂⟩ w₂ ⟨h₂,hpending₂⟩
    simp only
    apply safe_bind
    refine safe_kept "" (discover site cursor₂.after) (safe_look _ h₂ ?_ ?_)
    · intro i rows hrows
      have h₃ := sound_changed i.changes h₂
      have hpending₃ : (w₂.changed i.changes).pending = none := hpending₂
      generalize w₂.changed i.changes = w₃ at h₃ hpending₃ hrows
      split at hrows
      · cases hrows
      cases hrows
      apply safe_bind
      refine safe_mono _ w₃ (pass_rows_safe _ cursor₂ pass₂ h₃ hpending₃
        (rows_of_entries cursor₂.after w₃ site.limits.watchesPerPass)
        fun row hrow => row_fresh cursor₂.after h₃ row (List.mem_of_mem_take hrow))
        (fun _ _ hg => hg) ?_ fun _ _ he => he
      rintro ⟨cursor₄,pass₄,complete⟩ w₄ ⟨h₄,hpending₄⟩
      simp only
      apply safe_bind
      refine safe_kept "" (saveCursor _) (safe_save_cursor _ h₄ ?_ ?_ ?_)
      · intro v job hjob hsome
        have := h₄.recoverable v job hjob hsome
        rw [hpending₄] at this
        cases this
      · exact fun w' hsound _ _ => hsound
      · exact fun w' e hsound => ⟨hsound,by simp [unrecovered]⟩
    · intro i e he
      refine ⟨sound_changed i.changes h₂,?_⟩
      split at he
      · cases he
        decide
      · cases he
  · intro i e he
    exact ⟨sound_changed i.changes h,native_error _ he⟩

theorem retry_safe (h : Sound site w) :
    Safe (Kept site) (fun _ => Sound site) (Failed site) (retry watch) w := by
  apply safe_kept watch
  unfold retry
  apply safe_bind
  refine safe_look _ h ?_ fun i e he => ⟨sound_changed i.changes h,native_error _ he⟩
  intro i _ _
  have h₁ := sound_changed i.changes h
  generalize w.changed i.changes = w₁ at h₁
  apply safe_bind
  apply safe_refuse
  · exact fun _ => ⟨h₁,by decide⟩
  intro _
  apply safe_bind
  refine safe_fetch _ ?_ fun e => ⟨h₁,by simp [unrecovered]⟩
  change Safe _ _ _ (lift ((w₁.job watch).elim _ _) >>= _) w₁
  apply safe_bind
  apply safe_lift
  · intro job hjob
    have hstored : w₁.job watch = some job := by
      cases hv : w₁.job watch with
      | none =>
        rw [hv] at hjob
        cases hjob
      | some found =>
        rw [hv] at hjob
        cases hjob
        rfl
    have hfits := h₁.fits watch job hstored
    apply safe_bind
    apply safe_refuse
    · exact fun _ => ⟨h₁,by decide⟩
    intro hfree
    simp only [not_or, Bool.not_eq_true] at hfree
    have hnone : job.evaluation = none := Option.isSome_eq_false_iff.mp hfree.1 |> Option.isNone_iff_eq_none.mp
    apply safe_bind
    apply safe_lift
    · intro epoch hepoch
      have hnext : epoch = job.epoch+1 := by
        cases hn : next job.epoch with
        | error e =>
          rw [hn] at hepoch
          cases hepoch
        | ok n =>
          rw [hn] at hepoch
          cases hepoch
          exact (AndaBrain.Attention.next_ok hn).1
      have hfits' : Fits w₁ watch { job with
          epoch := epoch, attempts := 0, retryAtMs := 0
          progress := { job.progress with reason := none } } := by
        refine ⟨hfits.named,hfits.version,?_,?_⟩
        · by_contra hpos
          rcases hfits.newest _ _ _ (Nat.lt_of_not_le hpos) with hlt | ⟨-,hle⟩
          · exact absurd hlt (lt_irrefl _)
          · simp only at hle
            omega
        · intro v g e hpos
          rcases hfits.newest v g e hpos with hlt | ⟨heq,hle⟩
          · exact .inl hlt
          · exact .inr ⟨heq,by simp only; omega⟩
      refine safe_save_job h₁ hfits' (fun pin hp => ?_) (fun _ => hnone) (fun hs => ?_) ?_ ?_
      · rw [hnone] at hp
        cases hp
      · rw [hnone] at hs
        cases hs
      · exact fun w' hsound _ _ => hsound
      · exact fun w' e hsound _ _ => ⟨hsound,by simp [unrecovered]⟩
    · intro e he
      refine ⟨h₁,?_⟩
      unfold next at he
      split at he
      · cases he
      · cases he
        decide
  · intro e he
    refine ⟨h₁,?_⟩
    cases hv : w₁.job watch with
    | none =>
      rw [hv] at he
      cases he
      decide
    | some found =>
      rw [hv] at he
      cases he

end Passes

section Runs

/-- Before the first pass: nothing is stored, whatever the native store holds. -/
def World.start (watches : SortedMap String Watch) (artifacts : ArtifactPin → Option Artifact) : World :=
  ⟨⟨fun _ => none,0⟩,watches,artifacts,[]⟩

theorem start_sound (watches : SortedMap String Watch) (artifacts : ArtifactPin → Option Artifact) :
    Sound site (World.start watches artifacts) where
  fits _ _ h := nomatch h
  holding _ _ h := nomatch h
  settled _ _ h := nomatch h
  recoverable _ _ h := nomatch h
  silent _ _ _ _ _ := rfl
  paid _ _ _ _ := Nat.zero_le _
  replayed _ _ _ later _ _ heq := by
    cases later <;> cases heq
  covered _ _ h := nomatch h
  asked _ h := by
    obtain ⟨x,hx,-⟩ := h
    cases hx

def Clean (log : List (Op × Except Failure (Option SemanticPass))) (w : World) : Prop :=
  Sound site w ∧ ∀ x ∈ log, x.2 ≠ .error unrecovered

theorem clean_more (log : List (Op × Except Failure (Option SemanticPass))) (o : Op)
    (r : Except Failure (Option SemanticPass)) {w w' : World} (h : Clean site log w) (hs : Sound site w')
    (hr : r ≠ .error unrecovered) : Clean site (log++[(o,r)]) w' := by
  refine ⟨hs,fun x hx => ?_⟩
  rcases List.mem_append.mp hx with hx | hx
  · exact h.2 x hx
  · rw [List.mem_singleton.mp hx]
    exact hr

theorem operate_safe (o : Op) {w : World} (h : Sound site w) :
    Safe (Kept site) (fun _ => Sound site) (Failed site) (operate site o) w := by
  cases o with
  | pass =>
    apply safe_bind
    exact safe_mono _ w (pass_safe h) (fun _ _ hg => hg) (fun _ _ hq => hq) fun _ _ he => he
  | retry watch =>
    apply safe_bind
    exact safe_mono _ w (retry_safe h) (fun _ _ hg => hg) (fun _ _ hq => hq) fun _ _ he => he

theorem semantic_discipline : Discipline (operate site) id (Clean site) (Clean site)
    (fun _ _ _ => True) where
  mid _ _ h := h
  boot _ _ h := h
  op o log w h := by
    refine safe_mono _ w (operate_safe site o h.1) (fun _ b hg => ⟨trivial,hg,h.2⟩) ?_ ?_
    · exact fun r w' hs => clean_more site log o _ h hs (fun heq => nomatch heq)
    · intro e w' he
      exact clean_more site log o _ h he.1 (fun heq => he.2 (Except.error.inj heq))

/-- Over every run of passes and retries, with a stop or a failure of the store after any
write and with changes of the Watches between any two steps: an evaluation that a job holds
is named by the cursor, and no pass meets a replaced Watch with one; the evaluator is called
no more often than the limit for each version, generation and epoch of a Watch; the commits
of a ticket after a call and before the next one carry the same evaluation; and what is
committed judges each candidate of its page once. -/
theorem judgments_replayed (watches : SortedMap String Watch) (artifacts : ArtifactPin → Option Artifact)
    (events : List (Event Op Env)) :
    ((∀ watch job, (run (operate site) id ⟨World.start watches artifacts,none,[]⟩ events).state.job watch =
          some job → job.evaluation.isSome = true →
        (run (operate site) id ⟨World.start watches artifacts,none,[]⟩ events).state.pending =
          some watch) ∧
      ∀ x ∈ (run (operate site) id ⟨World.start watches artifacts,none,[]⟩ events).log,
        x.2 ≠ .error unrecovered) ∧
    (∀ watch version generation epoch,
      calls (run (operate site) id ⟨World.start watches artifacts,none,[]⟩ events).state.trail
        watch version generation epoch ≤ site.limits.attemptsPerPage) ∧
    Replayed (run (operate site) id ⟨World.start watches artifacts,none,[]⟩ events).state.trail ∧
    ∀ ticket e, .committed ticket e ∈
        (run (operate site) id ⟨World.start watches artifacts,none,[]⟩ events).state.trail →
      Covers (site.page ticket) e.judgments := by
  have hclean : Clean site [] (World.start watches artifacts) :=
    ⟨start_sound site watches artifacts,fun x hx => nomatch hx⟩
  have h := (run_sound (semantic_discipline site) _ events
    (sound_idle (semantic_discipline site) ⟨World.start watches artifacts,none,[]⟩ rfl hclean)).1
  exact ⟨⟨h.1.recoverable,h.2⟩,h.1.paid,h.1.replayed,h.1.covered⟩

end Runs

end AndaBrain.Semantic
