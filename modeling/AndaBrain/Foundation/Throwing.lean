import Mathlib.Tactic.Common

/-!
# Computations that throw

A computation whose state outlives the exception it throws: what was written before a throw
stays written. A triple gives the states a computation ends in, returned or thrown.
-/

set_option autoImplicit false

namespace Foundation

def Throwing (σ ε α : Type) : Type := σ → σ × Except ε α

namespace Throwing
variable {σ τ ε α β : Type}

instance : Monad (Throwing σ ε) where
  pure a := fun s => (s,.ok a)
  bind m f := fun s =>
    match m s with
    | (s,.ok a) => f a s
    | (s,.error e) => (s,.error e)

def read : Throwing σ ε σ := fun s => (s,.ok s)

def update (f : σ → σ) : Throwing σ ε Unit := fun s => (f s,.ok ())

def throwing (e : ε) : Throwing σ ε α := fun s => (s,.error e)

def ofExcept : Except ε α → Throwing σ ε α
  | .ok a => pure a
  | .error e => throwing e

/-- `try m catch handler`. -/
def rescue (m : Throwing σ ε α) (handler : Throwing σ ε α) : Throwing σ ε α := fun s =>
  match m s with
  | (s,.ok a) => (s,.ok a)
  | (s,.error _) => handler s

/-- `try m catch e`: the answer of a computation, or what it threw. -/
def attempt (m : Throwing σ ε α) : Throwing σ ε (Except ε α) := fun s =>
  match m s with
  | (s,answer) => (s,.ok answer)

def each (f : β → Throwing σ ε Unit) : List β → Throwing σ ε Unit
  | [] => pure ()
  | x::rest => do
    f x
    each f rest

def onFst (m : Throwing σ ε α) : Throwing (σ × τ) ε α := fun s =>
  match m s.1 with
  | (next,answer) => ((next,s.2),answer)

/-- From a state of `P`, the computation returns in `Q` or throws in `E`. -/
def Triple (P : σ → Prop) (m : Throwing σ ε α) (Q : α → σ → Prop) (E : σ → Prop) : Prop :=
  ∀ s, P s → match m s with
    | (s,.ok a) => Q a s
    | (s,.error _) => E s

section
variable {P P' I E E' : σ → Prop} {Q Q' : α → σ → Prop} {R : β → σ → Prop}

theorem triple_mono {m : Throwing σ ε α} (h : Triple P m Q E) (hp : ∀ s, P' s → P s)
    (hq : ∀ a s, Q a s → Q' a s) (he : ∀ s, E s → E' s) : Triple P' m Q' E' := by
  intro s hs
  have hm := h s (hp s hs)
  generalize m s = r at hm ⊢
  obtain ⟨next,answer⟩ := r
  cases answer with
  | ok a => exact hq a next hm
  | error e => exact he next hm

theorem triple_fixed {C : Prop} {m : Throwing σ ε α} (h : C → Triple P m Q E) :
    Triple (fun s => C ∧ P s) m (fun a s => C ∧ Q a s) (fun s => C ∧ E s) := by
  rintro s ⟨hc,hs⟩
  have hm := h hc s hs
  generalize m s = r at hm ⊢
  obtain ⟨next,answer⟩ := r
  cases answer <;> exact ⟨hc,hm⟩

theorem triple_pure {a : α} (h : ∀ s, P s → Q a s) : Triple P (pure a : Throwing σ ε α) Q E := h

theorem triple_bind {m : Throwing σ ε β} {f : β → Throwing σ ε α} (hm : Triple P m R E)
    (hf : ∀ b, Triple (R b) (f b) Q E) : Triple P (m >>= f) Q E := by
  intro s hs
  have hfirst := hm s hs
  show match (match m s with
    | (s,.ok a) => f a s
    | (s,.error e) => (s,.error e)) with
    | (s,.ok a) => Q a s
    | (s,.error _) => E s
  generalize m s = r at hfirst ⊢
  obtain ⟨next,answer⟩ := r
  cases answer with
  | ok b => exact hf b next hfirst
  | error e => exact hfirst

theorem triple_read {Q : σ → σ → Prop} (h : ∀ s, P s → Q s s) :
    Triple P (read : Throwing σ ε σ) Q E := h

theorem triple_update {f : σ → σ} {Q : Unit → σ → Prop} (h : ∀ s, P s → Q () (f s)) :
    Triple P (update f : Throwing σ ε Unit) Q E := h

theorem triple_throwing {e : ε} (h : ∀ s, P s → E s) :
    Triple P (throwing e : Throwing σ ε α) Q E := h

theorem triple_of_except {x : Except ε α} (hok : ∀ a, x = .ok a → ∀ s, P s → Q a s)
    (herror : ∀ s, P s → E s) : Triple P (ofExcept x : Throwing σ ε α) Q E := by
  cases x with
  | ok a => exact hok a rfl
  | error e => exact herror

theorem triple_rescue {m handler : Throwing σ ε α} (hm : Triple P m Q I)
    (hh : Triple I handler Q E) : Triple P (rescue m handler) Q E := by
  intro s hs
  have hfirst := hm s hs
  unfold rescue
  generalize m s = r at hfirst ⊢
  obtain ⟨next,answer⟩ := r
  cases answer with
  | ok a => exact hfirst
  | error e => exact hh next hfirst

theorem triple_attempt {m : Throwing σ ε α} {Q : Except ε α → σ → Prop}
    (hm : Triple P m (fun a => Q (.ok a)) fun s => ∀ e, Q (.error e) s) :
    Triple P (attempt m) Q E := by
  intro s hs
  have hfirst := hm s hs
  unfold attempt
  generalize m s = r at hfirst ⊢
  obtain ⟨next,answer⟩ := r
  cases answer with
  | ok a => exact hfirst
  | error e => exact hfirst e

theorem triple_each {f : β → Throwing σ ε Unit} {xs : List β}
    (h : ∀ x ∈ xs, Triple I (f x) (fun _ => I) E) : Triple I (each f xs) (fun _ => I) E := by
  induction xs with
  | nil => exact triple_pure fun _ hs => hs
  | cons x rest ih =>
    exact triple_bind (h x List.mem_cons_self) fun _ =>
      ih fun y hy => h y (List.mem_cons_of_mem _ hy)

theorem triple_each_rest {f : β → Throwing σ ε Unit} {J : List β → σ → Prop} {xs : List β}
    (h : ∀ x rest, (x::rest) <:+ xs → Triple (J (x::rest)) (f x) (fun _ => J rest) E) :
    Triple (J xs) (each f xs) (fun _ => J []) E := by
  induction xs with
  | nil => exact triple_pure fun _ hs => hs
  | cons x rest ih =>
    refine triple_bind (h x rest (List.suffix_refl _)) fun _ => ih fun y more hs => ?_
    exact h y more (hs.trans (List.suffix_cons x rest))

theorem triple_ite {c : Prop} [Decidable c] {m n : Throwing σ ε α}
    (hm : c → Triple P m Q E) (hn : ¬c → Triple P n Q E) :
    Triple P (if c then m else n) Q E := by
  by_cases hc : c
  · rw [if_pos hc]
    exact hm hc
  · rw [if_neg hc]
    exact hn hc

theorem triple_pre {m : Throwing σ ε α} (h : Triple P m Q E) (hp : ∀ s, P' s → P s) :
    Triple P' m Q E := triple_mono h hp (fun _ _ hq => hq) fun _ he => he

theorem triple_err {m : Throwing σ ε α} (h : Triple P m Q E) (he : ∀ s, E s → E' s) :
    Triple P m Q E' := triple_mono h (fun _ hp => hp) (fun _ _ hq => hq) he

theorem triple_same {m : Throwing σ ε α} : (∀ s, P s → E s) → Triple P m (fun _ => P) P →
    Triple P m (fun _ => P) E := fun he h => triple_err h he

theorem triple_refuse {c : Prop} [Decidable c] {e : ε} {m : Throwing σ ε α} (he : ∀ s, P s → E s)
    (h : ¬c → Triple P m Q E) : Triple P (if c then throwing e else m) Q E :=
  triple_ite (fun _ => triple_throwing he) h

theorem triple_read_bind {f : σ → Throwing σ ε α}
    (h : ∀ v, Triple (fun s => v = s ∧ P s) (f v) Q E) : Triple P (read >>= f) Q E :=
  triple_bind (triple_read fun _ hs => ⟨rfl,hs⟩) h

theorem triple_except_bind {x : Except ε β} {f : β → Throwing σ ε α} (he : ∀ s, P s → E s)
    (h : ∀ b, x = .ok b → Triple P (f b) Q E) : Triple P (ofExcept x >>= f) Q E := by
  cases x with
  | ok b => exact h b rfl
  | error e => exact he

/-- A computation that keeps what it starts from. -/
theorem triple_keep {m : Throwing σ ε β} {f : β → Throwing σ ε α} (hm : Triple P m (fun _ => P) E)
    (hf : ∀ b, Triple P (f b) Q E) : Triple P (m >>= f) Q E := triple_bind hm hf

end

theorem triple_on_fst {m : Throwing σ ε α} {P E : σ × τ → Prop} {Q : α → σ × τ → Prop}
    (h : ∀ t, Triple (fun s => P (s,t)) m (fun a s => Q a (s,t)) (fun s => E (s,t))) :
    Triple P (onFst m : Throwing (σ × τ) ε α) Q E := by
  rintro ⟨s,t⟩ hs
  have hm := h t s hs
  unfold onFst
  dsimp only
  generalize m s = r at hm ⊢
  obtain ⟨next,answer⟩ := r
  cases answer <;> exact hm

end Throwing

end Foundation
