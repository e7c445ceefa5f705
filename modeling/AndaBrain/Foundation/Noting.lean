import AndaBrain.Foundation.Resumption

/-!
# Runs with notes

Beside the state of a run stand notes of the answers its operations got. The condition on a run and
the invariant may speak of them; the programs never see them.
-/

set_option autoImplicit false

namespace Foundation.Resumption
variable {op ρ ε ι σ α β γ : Type}

section Programs
variable {A : γ → ι → σ → Prop} {note : γ → ι → σ → γ} {I : γ → σ → Prop}
  {Q : α → γ → σ → Prop} {E : ε → γ → σ → Prop}

/-- Every step keeps the invariant of the notes and the state, as long as it receives an answer
that the notes allow. -/
def SafeNoting (A : γ → ι → σ → Prop) (note : γ → ι → σ → γ) (I : γ → σ → Prop)
    (Q : α → γ → σ → Prop) (E : ε → γ → σ → Prop) : Prog ε ι σ α → γ → σ → Prop
  | .ret a, g, s => Q a g s
  | .fail e, g, s => E e g s
  | .step act next, g, s => ∀ i, A g i s →
      I (note g i s) (act i s) ∧ SafeNoting A note I Q E (next i s) (note g i s) (act i s)

theorem safe_noting_bind (p : Prog ε ι σ β) (f : β → Prog ε ι σ α) (g : γ) (s : σ)
    (h : SafeNoting A note I (fun b g s => SafeNoting A note I Q E (f b) g s) E p g s) :
    SafeNoting A note I Q E (p >>= f) g s := by
  induction p generalizing g s with
  | ret a => exact h
  | fail e => exact h
  | step act next ih =>
    intro i hi
    obtain ⟨hI,hn⟩ := h i hi
    exact ⟨hI,ih i s _ _ hn⟩

theorem safe_noting_query (f : ι → σ → Except ε α) (g : γ) (s : σ)
    (hI : ∀ i, A g i s → I (note g i s) s)
    (hq : ∀ i a, A g i s → f i s = .ok a → Q a (note g i s) s)
    (he : ∀ i e, A g i s → f i s = .error e → E e (note g i s) s) :
    SafeNoting A note I Q E (query f) g s := by
  intro i hA
  refine ⟨hI i hA,?_⟩
  show SafeNoting A note I Q E (lift (f i s)) (note g i s) s
  cases hf : f i s with
  | ok a => exact hq i a hA hf
  | error e => exact he i e hA hf

theorem safe_noting_attempt {Q' : Except ε α → γ → σ → Prop} (p : Prog ε ι σ α) (g : γ) (s : σ)
    (h : SafeNoting A note I (fun a => Q' (.ok a)) (fun e => Q' (.error e)) p g s) :
    SafeNoting A note I Q' E (attempt p) g s := by
  induction p generalizing g s with
  | ret a => exact h
  | fail e => exact h
  | step act next ih =>
    intro i hA
    obtain ⟨hI,hn⟩ := h i hA
    exact ⟨hI,ih i s _ _ hn⟩

/-- A program that is safe whatever the answers, where the notes keep a property of their own in the
states it passes through. -/
theorem safe_noting_of_safe (P : γ → Prop) (K : σ → Prop) {Q' : α → σ → Prop} {E' : ε → σ → Prop}
    (p : Prog ε ι σ α) (g : γ) (s : σ) (h : Safe (fun _ t => K t) Q' E' p s)
    (hg : P g) (hs : K s) (hnote : ∀ g i s, K s → A g i s → P g → P (note g i s))
    (hI : ∀ g s, P g → K s → I g s) (hq : ∀ a g s, P g → Q' a s → Q a g s)
    (he : ∀ e g s, P g → E' e s → E e g s) : SafeNoting A note I Q E p g s := by
  induction p generalizing g s with
  | ret a => exact hq a g s hg h
  | fail e => exact he e g s hg h
  | step act next ih =>
    intro i hA
    obtain ⟨hstep,hn⟩ := h i
    have hg' := hnote g i s hs hA hg
    have hk : K (act i s) := by
      rcases hstep with hsame | hmoved
      · rw [hsame]
        exact hs
      · exact hmoved
    exact ⟨hI _ _ hg' hk,ih i s _ _ hn hg' hk⟩

/-- Where noting the first answer again changes nothing, it may as well be noted beforehand. -/
theorem safe_noting_first (p : Prog ε ι σ α) (g : γ) (s : σ)
    (hagain : ∀ i, A g i s → A (note g i s) i s ∧ note (note g i s) i s = note g i s)
    (hend : ∀ g, I g s → (∀ a, Q a g s) ∧ ∀ e, E e g s) (hI : I g s)
    (h : ∀ i, A g i s → SafeNoting A note I Q E p (note g i s) s) :
    SafeNoting A note I Q E p g s := by
  cases p with
  | ret a => exact (hend g hI).1 a
  | fail e => exact (hend g hI).2 e
  | step act next =>
    intro i hi
    obtain ⟨ha,hn⟩ := hagain i hi
    have hstep := h i hi i ha
    rwa [hn] at hstep

end Programs

section Runs
variable (prog : op → Prog ε ι σ ρ) (reboot : σ → σ) (renew : γ → γ)
variable (note : op → γ → ι → σ → γ) (A : op → γ → ι → σ → Prop)

/-- The notes after an event: renewed when an operation starts, and taken at each of its steps. -/
def noted (c : Config op ρ ε ι σ) (g : γ) : Event op ι → γ
  | .start _ => if c.running.isNone then renew g else g
  | .tick i =>
    match c.running with
    | some (o,.step _ _) => note o g i c.state
    | _ => g
  | .crash => g

def Heeded (c : Config op ρ ε ι σ) (g : γ) : Event op ι → Prop
  | .tick i =>
    match c.running with
    | some (o,.step _ _) => A o g i c.state
    | _ => True
  | _ => True

/-- At every step of the run the answer is one that the notes of what came before allow. -/
def Heeds (c : Config op ρ ε ι σ) (g : γ) : List (Event op ι) → Prop
  | [] => True
  | e::rest => Heeded A c g e ∧ Heeds (advance prog reboot c e) (noted renew note c g e) rest

variable {A} in
theorem heeds_mono {B : op → γ → ι → σ → Prop} (h : ∀ o g i s, A o g i s → B o g i s)
    (c : Config op ρ ε ι σ) (g : γ) (es : List (Event op ι))
    (hA : Heeds prog reboot renew note A c g es) : Heeds prog reboot renew note B c g es := by
  induction es generalizing c g with
  | nil => trivial
  | cons e es ih =>
    refine ⟨?_,ih _ _ hA.2⟩
    have hfirst := hA.1
    obtain ⟨s,running,log⟩ := c
    match e, running, hfirst with
    | .start _, _, _ => trivial
    | .crash, _, _ => trivial
    | .tick _, none, _ => trivial
    | .tick _, some (_,.ret _), _ => trivial
    | .tick _, some (_,.fail _), _ => trivial
    | .tick i, some (o,.step _ _), hfirst => exact h o g i s hfirst

theorem heeds_always (h : ∀ o g i s, A o g i s) (c : Config op ρ ε ι σ) (g : γ)
    (es : List (Event op ι)) : Heeds prog reboot renew note A c g es := by
  have hall : Heeds prog reboot renew note (fun _ _ _ _ => True) c g es := by
    induction es generalizing c g with
    | nil => trivial
    | cons e es ih =>
      refine ⟨?_,ih _ _⟩
      rw [Heeded.eq_def]
      split
      · split <;> trivial
      · trivial
  exact heeds_mono prog reboot renew note (fun o g i s _ => h o g i s) c g es hall

instance (c : Config op ρ ε ι σ) (g : γ) (e : Event op ι)
    [h : ∀ o g i s, Decidable (A o g i s)] : Decidable (Heeded A c g e) :=
  match e, c with
  | .start _, _ => .isTrue trivial
  | .crash, _ => .isTrue trivial
  | .tick _, ⟨_,none,_⟩ => .isTrue trivial
  | .tick _, ⟨_,some (_,.ret _),_⟩ => .isTrue trivial
  | .tick _, ⟨_,some (_,.fail _),_⟩ => .isTrue trivial
  | .tick i, ⟨s,some (o,.step _ _),_⟩ => h o g i s

instance decidableHeeds [h : ∀ o g i s, Decidable (A o g i s)] (c : Config op ρ ε ι σ) (g : γ) :
    (es : List (Event op ι)) → Decidable (Heeds prog reboot renew note A c g es)
  | [] => .isTrue trivial
  | e::rest =>
    match (inferInstance : Decidable (Heeded A c g e)),
      decidableHeeds (advance prog reboot c e) (noted renew note c g e) rest with
    | .isTrue hfirst, .isTrue hrest => .isTrue ⟨hfirst,hrest⟩
    | .isFalse hfirst, _ => .isFalse fun h => hfirst h.1
    | _, .isFalse hrest => .isFalse fun h => hrest h.2

structure DisciplineNoting (I : γ → σ → Prop) : Prop where
  op : ∀ o g s, I g s →
    SafeNoting (A o) (note o) I (fun _ => I) (fun _ => I) (prog o) (renew g) s
  renew : ∀ g s, I g s → I (renew g) s
  boot : ∀ g s, I g s → I g (reboot s)

def Followed (I : γ → σ → Prop) (c : Config op ρ ε ι σ) (g : γ) : Prop :=
  I g c.state ∧
  match c.running with
  | none => True
  | some (o,p) => SafeNoting (A o) (note o) I (fun _ => I) (fun _ => I) p g c.state

variable {prog reboot renew note A} {I : γ → σ → Prop}

theorem advance_followed (d : DisciplineNoting prog reboot renew note A I)
    (c : Config op ρ ε ι σ) (g : γ) (e : Event op ι) (hA : Heeded A c g e)
    (h : Followed note A I c g) :
    Followed note A I (advance prog reboot c e) (noted renew note c g e) := by
  obtain ⟨s,running,log⟩ := c
  cases e with
  | start o =>
    cases running with
    | none => exact ⟨d.renew g s h.1,d.op o g s h.1⟩
    | some _ => exact h
  | crash => exact ⟨d.boot g s h.1,trivial⟩
  | tick i =>
    match running, h, hA with
    | none, h, _ => exact h
    | some (o,.ret r), h, _ => exact ⟨h.1,trivial⟩
    | some (o,.fail e), h, _ => exact ⟨h.1,trivial⟩
    | some (o,.step act next), h, hA => exact h.2 i hA

theorem run_followed (d : DisciplineNoting prog reboot renew note A I) (c : Config op ρ ε ι σ)
    (g : γ) (es : List (Event op ι)) (hA : Heeds prog reboot renew note A c g es)
    (h : Followed note A I c g) : ∃ g', I g' (run prog reboot c es).state := by
  induction es generalizing c g with
  | nil => exact ⟨g,h.1⟩
  | cons e es ih => exact ih _ _ hA.2 (advance_followed d c g e hA.1 h)

end Runs

end Foundation.Resumption
