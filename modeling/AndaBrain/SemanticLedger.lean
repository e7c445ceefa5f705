import AndaBrain.SemanticWatch
import Mathlib.Data.List.Perm.Subperm

/-!
# What the jobs and the cursor guarantee

A job that holds an evaluation is the one that the cursor names, its evaluation is the one
that was committed since the evaluator was last called, and the evaluator was called no more
often than the job has counted.
-/

set_option autoImplicit false

namespace AndaBrain.Semantic
open Foundation Foundation.Resumption Foundation.ConditionalStore
open Attention (RuntimePin next)

section Judgments

def Covers (page : PreparedWatchPage) (js : List WatchJudgment) : Prop :=
  (js.map WatchJudgment.candidateId).Perm (page.candidates.map Candidate.id)

theorem covers_subperm (remaining : List String) (js : List WatchJudgment)
    (h : covers remaining js = true) : (js.map WatchJudgment.candidateId).Subperm remaining := by
  induction js generalizing remaining with
  | nil => exact List.nil_subperm
  | cons j js ih =>
    simp only [covers, Bool.and_eq_true, List.contains_iff_mem] at h
    obtain ⟨⟨⟨hmem,-⟩,-⟩,hrest⟩ := h
    have hperm := List.perm_cons_erase hmem
    exact ((List.subperm_cons j.candidateId).mpr (ih _ hrest)).trans hperm.symm.subperm

theorem covers_perm (page : PreparedWatchPage) (js : List WatchJudgment)
    (hlen : js.length = page.candidates.length)
    (h : covers (page.candidates.map Candidate.id).dedup js = true) : Covers page js := by
  have hsub := covers_subperm _ js h
  have hdedup := List.dedup_sublist (page.candidates.map Candidate.id)
  have hle : (page.candidates.map Candidate.id).length ≤ (js.map WatchJudgment.candidateId).length := by
    simp [hlen]
  exact (hsub.trans hdedup.subperm).perm_of_length_le hle

variable (site : Site)

theorem check_reply_covers (page : PreparedWatchPage) (reply : Reply) (rows : List WatchJudgment)
    (h : checkReply site page reply = .ok rows) : Covers page rows := by
  unfold checkReply at h
  simp only at h
  split at h
  · cases h
  split at h
  · cases h
  split at h
  · cases h
  next hmatch =>
  split at h
  · next hcovers =>
    cases h
    push Not at hmatch
    exact covers_perm page _ hmatch.2.2 hcovers
  · cases h

theorem judgments_cover (raw : String) (page : PreparedWatchPage) (limit : ℕ)
    (rows : List WatchJudgment) (h : judgments site raw page limit = .ok rows) : Covers page rows := by
  unfold judgments at h
  split at h
  · cases h
  obtain ⟨tokens,-,h⟩ := except_bind_ok _ _ _ h
  split at h
  · cases h
  · obtain ⟨reply,-,h⟩ := except_bind_ok _ _ _ h
    exact check_reply_covers site page reply rows h

theorem unknown_covers (page : PreparedWatchPage) (reason : String) :
    Covers page (unknown page reason) := by
  simp [Covers, unknown, Function.comp_def]

theorem provider_covers (page : PreparedWatchPage) (answer : Provider) (rows : List WatchJudgment)
    (h : readProvider site page answer = .ok rows) : Covers page rows := by
  cases answer with
  | raw text =>
    simp only [readProvider] at h
    cases hj : judgments site text page site.limits.outputTokens with
    | error e =>
      rw [hj] at h
      cases h
    | ok found =>
      rw [hj] at h
      cases h
      exact judgments_cover site text page _ _ hj
  | unavailable => cases h
  | panicked => cases h
  | timedOut => cases h

end Judgments

section Trail

/-- The record is of a call for this Watch, version, generation and epoch. -/
def Happening.pays (watch : String) (version generation epoch : ℕ) : Happening → Bool
  | .called _ w v g e => w == watch && v == version && g == generation && e == epoch
  | .committed _ _ => false

/-- How often the evaluator was called for a version, generation and epoch of a Watch. -/
def calls (trail : List Happening) (watch : String) (version generation epoch : ℕ) : ℕ :=
  trail.countP (Happening.pays watch version generation epoch)

def Happening.asks (ticket : String) : Happening → Bool
  | .called t _ _ _ _ => t == ticket
  | .committed _ _ => false

/-- The evaluations that were committed for a ticket since its last call. -/
def since (ticket : String) : List Happening → List WatchEvaluation
  | [] => []
  | .called t _ _ _ _::trail => if t = ticket then [] else since ticket trail
  | .committed t e::trail => if t = ticket then e::since ticket trail else since ticket trail

def Replayed (trail : List Happening) : Prop :=
  ∀ ticket e e' later between earlier,
    trail = later++.committed ticket e'::between++.committed ticket e::earlier →
    (∀ h ∈ between, h.asks ticket = false) → (∃ h ∈ earlier, h.asks ticket = true) → e = e'

theorem mem_since (ticket : String) (e : WatchEvaluation) (between earlier : List Happening)
    (h : ∀ x ∈ between, x.asks ticket = false) :
    e ∈ since ticket (between++.committed ticket e::earlier) := by
  induction between with
  | nil => simp [since]
  | cons x between ih =>
    have hrest := ih fun y hy => h y (List.mem_cons_of_mem _ hy)
    have hx := h x (List.mem_cons_self ..)
    cases x with
    | called t w v g n =>
      have hne : t ≠ ticket := by simpa [Happening.asks] using hx
      simpa [since, hne] using hrest
    | committed t e' =>
      by_cases ht : t = ticket
      · simp [since, ht, hrest]
      · simpa [since, ht] using hrest

theorem replayed_called (trail : List Happening) (ticket watch : String)
    (version generation epoch : ℕ) (h : Replayed trail) :
    Replayed (.called ticket watch version generation epoch::trail) := by
  intro t e e' later between earlier heq hbetween hearlier
  cases later with
  | nil => cases heq
  | cons x later =>
    rw [List.cons_append, List.cons_append] at heq
    exact h t e e' later between earlier (List.cons.inj heq).2 hbetween hearlier

theorem replayed_committed (trail : List Happening) (ticket : String) (e : WatchEvaluation)
    (h : Replayed trail)
    (hsame : (∃ x ∈ trail, x.asks ticket = true) → ∀ e' ∈ since ticket trail, e' = e) :
    Replayed (.committed ticket e::trail) := by
  intro t e₁ e₂ later between earlier heq hbetween hearlier
  cases later with
  | nil =>
    cases heq
    obtain ⟨x,hx,hasks⟩ := hearlier
    exact hsame ⟨x,by simp [hx],hasks⟩ e₁ (mem_since ticket e₁ between earlier hbetween)
  | cons x later =>
    rw [List.cons_append, List.cons_append] at heq
    exact h t e₁ e₂ later between earlier (List.cons.inj heq).2 hbetween hearlier

end Trail

section Invariant

def World.job (w : World) (watch : String) : Option Job := value w.directory (.job watch)

def World.pending (w : World) : Option String :=
  (show Option Cursor from value w.directory .cursor).bind Cursor.pending

def Known (w : World) (watch : String) (version generation : ℕ) : Prop :=
  ∃ n, w.watches.lookup watch = some n ∧ version ≤ n.version ∧
    (version = n.version → n.generation = some generation)

structure Fits (w : World) (watch : String) (job : Job) : Prop where
  named : job.watch = watch
  version : Known w watch job.version job.generation
  counted : calls w.trail watch job.version job.generation job.epoch ≤ job.attempts
  newest : ∀ v g e, 0 < calls w.trail watch v g e → v < job.version ∨ v = job.version ∧ e ≤ job.epoch

variable (site : Site)

def Holding (w : World) (watch : String) (job : Job) : Prop :=
  ∀ pin, job.evaluation = some pin → ∃ ticket artifact, job.ticket = some ticket ∧
    (site.page ticket).watchRef = watch ∧ w.artifacts pin = some artifact ∧
    Covers (site.page ticket) artifact.body.judgments ∧
    ((site.page ticket).candidates ≠ [] → ∀ e ∈ since ticket w.trail, e = artifact.body)

structure Sound (w : World) : Prop where
  fits : ∀ watch job, w.job watch = some job → Fits w watch job
  holding : ∀ watch job, w.job watch = some job → Holding site w watch job
  settled : ∀ watch job, w.job watch = some job → job.accepted = true → job.evaluation = none
  recoverable : ∀ watch job, w.job watch = some job → job.evaluation.isSome = true →
    w.pending = some watch
  silent : ∀ watch, w.job watch = none → ∀ v g e, calls w.trail watch v g e = 0
  paid : ∀ watch v g e, calls w.trail watch v g e ≤ site.limits.attemptsPerPage
  replayed : Replayed w.trail
  covered : ∀ ticket e, .committed ticket e ∈ w.trail → Covers (site.page ticket) e.judgments
  asked : ∀ ticket, (∃ h ∈ w.trail, h.asks ticket = true) → (site.page ticket).candidates ≠ []

end Invariant

section Writes
variable (w : World)

theorem job_written (watch : String) (job : Job) :
    (written w (.job watch) job).job = Function.update w.job watch (some job) := by
  funext j
  by_cases hj : j = watch
  · subst hj
    rw [Function.update_self]
    exact value_place w.directory (.job j) job
  · rw [Function.update_of_ne hj]
    exact value_place_of_ne w.directory (.job watch) (.job j) job (by simpa using hj)

theorem pending_written (watch : String) (job : Job) :
    (written w (.job watch) job).pending = w.pending :=
  congrArg (fun found : Option Cursor => found.bind Cursor.pending)
    (value_place_of_ne w.directory (.job watch) .cursor job (by simp))

theorem job_cursor (cursor : Cursor) : (written w .cursor cursor).job = w.job := by
  funext j
  exact value_place_of_ne w.directory .cursor (.job j) cursor (by simp)

theorem pending_cursor (cursor : Cursor) : (written w .cursor cursor).pending = cursor.pending :=
  congrArg (fun found : Option Cursor => found.bind Cursor.pending)
    (value_place w.directory .cursor cursor)

end Writes

section Steps
variable {site : Site} {w : World} {watch : String} {job : Job}

theorem change_lookup (watches : SortedMap String Watch) (c : Change) (n : Watch) (id : String)
    (h : watches.lookup id = some n) :
    ∃ n', (changeWatch watches c).lookup id = some n' ∧ (n' = n ∨ n.version < n'.version) := by
  by_cases hid : id = c.id
  · subst hid
    unfold changeWatch
    rw [h]
    simp only
    split
    · next hlt => exact ⟨c.watch,by rw [SortedMap.lookup_insert, if_pos rfl],.inr hlt⟩
    · exact ⟨n,h,.inl rfl⟩
  · refine ⟨n,?_,.inl rfl⟩
    unfold changeWatch
    split
    · split
      · rw [SortedMap.lookup_insert, if_neg hid]
        exact h
      · exact h
    · rw [SortedMap.lookup_insert, if_neg hid]
      exact h

variable (changes : List Change)

theorem changed_lookup (n : Watch) (id : String) (h : w.watches.lookup id = some n) : ∃ n',
    (w.changed changes).watches.lookup id = some n' ∧ (n' = n ∨ n.version < n'.version) := by
  unfold World.changed
  simp only
  generalize w.watches = watches at h ⊢
  induction changes generalizing watches n with
  | nil => exact ⟨n,h,.inl rfl⟩
  | cons c changes ih =>
    obtain ⟨n₁,h₁,hle₁⟩ := change_lookup watches c n id h
    obtain ⟨n₂,h₂,hle₂⟩ := ih n₁ _ h₁
    refine ⟨n₂,h₂,?_⟩
    rcases hle₁ with rfl | hlt₁
    · exact hle₂
    · rcases hle₂ with rfl | hlt₂
      · exact .inr hlt₁
      · exact .inr (hlt₁.trans hlt₂)

theorem known_changed {version generation : ℕ}
    (h : Known w watch version generation) : Known (w.changed changes) watch version generation := by
  obtain ⟨n,hn,hle,hgen⟩ := h
  obtain ⟨n',hn',hcase⟩ := changed_lookup changes n watch hn
  rcases hcase with rfl | hlt
  · exact ⟨n',hn',hle,hgen⟩
  · exact ⟨n',hn',by omega,fun h => by omega⟩

theorem fits_changed (h : Fits w watch job) :
    Fits (w.changed changes) watch job where
  named := h.named
  version := known_changed changes h.version
  counted := h.counted
  newest := h.newest

theorem sound_changed (h : Sound site w) : Sound site (w.changed changes) where
  fits watch job hj := fits_changed changes (h.fits watch job hj)
  holding := h.holding
  settled := h.settled
  recoverable := h.recoverable
  silent := h.silent
  paid := h.paid
  replayed := h.replayed
  covered := h.covered
  asked := h.asked

theorem sound_job (h : Sound site w) (hfits : Fits w watch job) (hholding : Holding site w watch job)
    (hsettled : job.accepted = true → job.evaluation = none)
    (hpending : job.evaluation.isSome = true → w.pending = some watch) :
    Sound site (written w (.job watch) job) := by
  have hjob := job_written w watch job
  have split : ∀ P : String → Job → Prop, P watch job → (∀ v j, w.job v = some j → P v j) →
      ∀ v j, (written w (.job watch) job).job v = some j → P v j := by
    intro P hself hother v j hj
    rw [hjob] at hj
    by_cases hv : v = watch
    · subst hv
      rw [Function.update_self] at hj
      cases hj
      exact hself
    · rw [Function.update_of_ne hv] at hj
      exact hother v j hj
  have hpend := pending_written w watch job
  constructor
  · exact split _ ⟨hfits.named,hfits.version,hfits.counted,hfits.newest⟩ fun v j hj =>
      ⟨(h.fits v j hj).named,(h.fits v j hj).version,(h.fits v j hj).counted,(h.fits v j hj).newest⟩
  · exact split _ hholding h.holding
  · exact split (fun _ j => j.accepted = true → j.evaluation = none) hsettled h.settled
  · rw [hpend]
    exact split (fun v j => j.evaluation.isSome = true → w.pending = some v) hpending h.recoverable
  · intro v hv
    rw [hjob] at hv
    by_cases hv' : v = watch
    · subst hv'
      rw [Function.update_self] at hv
      cases hv
    · rw [Function.update_of_ne hv'] at hv
      exact h.silent v hv
  · exact h.paid
  · exact h.replayed
  · exact h.covered
  · exact h.asked

theorem sound_cursor (cursor : Cursor) (h : Sound site w)
    (hpending : ∀ watch job, w.job watch = some job → job.evaluation.isSome = true →
      cursor.pending = some watch) : Sound site (written w .cursor cursor) := by
  have hjob := job_cursor w cursor
  constructor
  · intro v j hj
    rw [hjob] at hj
    exact ⟨(h.fits v j hj).named,(h.fits v j hj).version,(h.fits v j hj).counted,
      (h.fits v j hj).newest⟩
  · intro v j hj
    rw [hjob] at hj
    exact h.holding v j hj
  · intro v j hj
    rw [hjob] at hj
    exact h.settled v j hj
  · intro v j hj
    rw [hjob] at hj
    rw [pending_cursor]
    exact hpending v j hj
  · intro v hv
    rw [hjob] at hv
    exact h.silent v hv
  · exact h.paid
  · exact h.replayed
  · exact h.covered
  · exact h.asked

theorem sound_artifact (pin : ArtifactPin) (artifact : Artifact) (h : Sound site w)
    (hfree : ∀ a, w.artifacts pin = some a → a.body = artifact.body) :
    Sound site (w.putArtifact pin artifact) where
  fits watch job hj :=
    ⟨(h.fits watch job hj).named,(h.fits watch job hj).version,(h.fits watch job hj).counted,
      (h.fits watch job hj).newest⟩
  holding watch job hj p hp := by
    obtain ⟨ticket,a,hticket,href,ha,hcovers,hsame⟩ := h.holding watch job hj p hp
    by_cases hpin : p = pin
    · subst hpin
      have hbody := hfree a ha
      refine ⟨ticket,artifact,hticket,href,Function.update_self ..,?_,?_⟩
      · rw [← hbody]
        exact hcovers
      · rw [← hbody]
        exact hsame
    · exact ⟨ticket,a,hticket,href,(Function.update_of_ne hpin ..).trans ha,hcovers,hsame⟩
  settled := h.settled
  recoverable := h.recoverable
  silent := h.silent
  paid := h.paid
  replayed := h.replayed
  covered := h.covered
  asked := h.asked

theorem calls_called (trail : List Happening) (ticket w : String) (v g e : ℕ) (watch : String)
    (version generation epoch : ℕ) :
    calls (.called ticket w v g e::trail) watch version generation epoch =
      calls trail watch version generation epoch+
        if w = watch ∧ v = version ∧ g = generation ∧ e = epoch then 1 else 0 := by
  unfold calls
  rw [List.countP_cons]
  congr 1
  simp [Happening.pays, and_assoc]

theorem sound_called (ticket : String) (h : Sound site w) (hjob : w.job watch = some job)
    (hspent : calls w.trail watch job.version job.generation job.epoch < job.attempts)
    (hlimit : job.attempts ≤ site.limits.attemptsPerPage)
    (hcandidates : (site.page ticket).candidates ≠ []) :
    Sound site (w.record (.called ticket watch job.version job.generation job.epoch)) := by
  have hcalls := calls_called w.trail ticket watch job.version job.generation job.epoch
  constructor
  · intro v j hj
    have hold := h.fits v j hj
    refine ⟨hold.named,hold.version,?_,?_⟩
    · show calls (.called _ _ _ _ _::w.trail) _ _ _ _ ≤ _
      rw [hcalls]
      split
      · next hsame =>
        obtain ⟨rfl,hv,hg,he⟩ := hsame
        cases hjob.symm.trans hj
        omega
      · exact hold.counted
    · intro v' g' e' hpos
      change 0 < calls (.called _ _ _ _ _::w.trail) _ _ _ _ at hpos
      rw [hcalls] at hpos
      split at hpos
      · next hsame =>
        obtain ⟨rfl,rfl,rfl,rfl⟩ := hsame
        cases hjob.symm.trans hj
        exact .inr ⟨rfl,le_refl _⟩
      · exact hold.newest v' g' e' hpos
  · intro v j hj pin hpin
    obtain ⟨t,a,ht,href,ha,hcovers,hsame⟩ := h.holding v j hj pin hpin
    refine ⟨t,a,ht,href,ha,hcovers,fun hc e he => ?_⟩
    change e ∈ since t (.called _ _ _ _ _::w.trail) at he
    rw [since] at he
    split at he
    · cases he
    · exact hsame hc e he
  · exact h.settled
  · exact h.recoverable
  · intro v hv v' g' e'
    show calls (.called _ _ _ _ _::w.trail) _ _ _ _ = 0
    rw [hcalls, h.silent v hv]
    split
    · next hsame =>
      rw [← hsame.1] at hv
      cases hjob.symm.trans hv
    · rfl
  · intro v v' g' e'
    show calls (.called _ _ _ _ _::w.trail) _ _ _ _ ≤ _
    rw [hcalls]
    split
    · next hsame =>
      obtain ⟨rfl,rfl,rfl,rfl⟩ := hsame
      omega
    · exact h.paid v v' g' e'
  · exact replayed_called w.trail ticket watch _ _ _ h.replayed
  · intro t e hmem
    rcases List.mem_cons.mp hmem with heq | hmem
    · cases heq
    · exact h.covered t e hmem
  · rintro t ⟨x,hx,hasks⟩
    rcases List.mem_cons.mp hx with rfl | hx
    · have ht : ticket = t := by simpa [Happening.asks] using hasks
      exact ht ▸ hcandidates
    · exact h.asked t ⟨x,hx,hasks⟩

theorem sound_committed (ticket : String) (pin : ArtifactPin) (artifact : Artifact) (h : Sound site w)
    (hjob : w.job watch = some job) (hevaluation : job.evaluation = some pin)
    (hticket : job.ticket = some ticket) (hartifact : w.artifacts pin = some artifact) :
    Sound site (w.record (.committed ticket artifact.body)) := by
  have hpays : ∀ v g e n, calls (.committed ticket artifact.body::w.trail) v g e n =
      calls w.trail v g e n := fun v g e n => List.countP_cons_of_neg (by simp [Happening.pays])
  obtain ⟨t,a,ht,href,ha,hcovers,hsame⟩ := h.holding watch job hjob pin hevaluation
  cases hticket.symm.trans ht
  cases hartifact.symm.trans ha
  constructor
  · intro v j hj
    have hold := h.fits v j hj
    refine ⟨hold.named,hold.version,(hpays _ _ _ _).trans_le hold.counted,?_⟩
    intro v' g' e' hpos
    change 0 < calls (.committed _ _::w.trail) _ _ _ _ at hpos
    rw [hpays] at hpos
    exact hold.newest v' g' e' hpos
  · intro v j hj p hp
    -- Only the Watch of the pending slot holds an evaluation.
    have hv : watch = v := by
      have h1 := h.recoverable watch job hjob (by rw [hevaluation]; rfl)
      have h2 := h.recoverable v j hj (by rw [hp]; rfl)
      exact Option.some.inj (h1.symm.trans h2)
    subst hv
    cases hjob.symm.trans hj
    cases hevaluation.symm.trans hp
    refine ⟨ticket,artifact,hticket,href,hartifact,hcovers,fun hc e he => ?_⟩
    change e ∈ since ticket (.committed _ _::w.trail) at he
    rw [since, if_pos rfl] at he
    rcases List.mem_cons.mp he with rfl | he
    · rfl
    · exact hsame hc e he
  · exact h.settled
  · exact h.recoverable
  · intro v hv v' g' e'
    exact (hpays _ _ _ _).trans (h.silent v hv v' g' e')
  · intro v v' g' e'
    exact (hpays _ _ _ _).trans_le (h.paid v v' g' e')
  · exact replayed_committed w.trail ticket artifact.body h.replayed fun hasked =>
      hsame (h.asked ticket hasked)
  · intro t e hmem
    rcases List.mem_cons.mp hmem with heq | hmem
    · cases heq
      exact hcovers
    · exact h.covered t e hmem
  · rintro t ⟨x,hx,hasks⟩
    rcases List.mem_cons.mp hx with rfl | hx
    · cases hasks
    · exact h.asked t ⟨x,hx,hasks⟩

end Steps

end AndaBrain.Semantic
