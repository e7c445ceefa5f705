import Mathlib.Data.List.Basic

/-!
# Programs that can stop between any two of their steps

A program is a tree of atomic steps.
-/

set_option autoImplicit false

namespace Foundation.Resumption

inductive Prog (ε ι σ α : Type) : Type
  | ret (a : α)
  | fail (e : ε)
  | step (act : ι → σ → σ) (next : ι → σ → Prog ε ι σ α)

variable {ε ι σ α β : Type}

def Prog.bind (p : Prog ε ι σ α) (f : α → Prog ε ι σ β) : Prog ε ι σ β :=
  match p with
  | .ret a => f a
  | .fail e => .fail e
  | .step act next => .step act fun i s => (next i s).bind f

instance : Monad (Prog ε ι σ) where
  pure := .ret
  bind := .bind

/-- Continue with a value that is already there, or stop with its error. -/
def lift : Except ε α → Prog ε ι σ α
  | .ok a => .ret a
  | .error e => .fail e

/-- One step that looks at the state and may fail, without changing it. -/
def query (f : ι → σ → Except ε α) : Prog ε ι σ α :=
  .step (fun _ s => s) fun i s => lift (f i s)

def atomic (act : ι → σ → σ) (f : ι → σ → Except ε α) : Prog ε ι σ α :=
  .step act fun i s => lift (f i s)

def refuseIf (c : Prop) [Decidable c] (e : ε) : Prog ε ι σ Unit :=
  if c then .fail e else .ret ()

def doIf (c : Prop) [Decidable c] (p : Prog ε ι σ Unit) : Prog ε ι σ Unit :=
  if c then p else .ret ()

/-- Turns an error of `p` into a value. -/
def attempt : Prog ε ι σ α → Prog ε ι σ (Except ε α)
  | .ret a => .ret (.ok a)
  | .fail e => .ret (.error e)
  | .step act next => .step act fun i s => attempt (next i s)

/-- Gives every error of `p` another form. -/
def mapFail {δ : Type} (f : ε → δ) : Prog ε ι σ α → Prog δ ι σ α
  | .ret a => .ret a
  | .fail e => .fail (f e)
  | .step act next => .step act fun i s => mapFail f (next i s)

theorem bind_ret (p : Prog ε ι σ α) : p >>= Prog.ret = p := by
  induction p with
  | ret a => rfl
  | fail e => rfl
  | step act next ih =>
    show Prog.step act _ = Prog.step act _
    congr 1
    funext i s
    exact ih i s

theorem except_bind_ok (x : Except ε α) (f : α → Except ε β) (b : β) (h : (x >>= f) = .ok b) :
    ∃ a, x = .ok a ∧ f a = .ok b := by
  cases x with
  | error e => cases h
  | ok a => exact ⟨a,rfl,h⟩

section Outcome

/-- Where a program ends when its steps receive the given answers in turn: its
result, the state, and the answers it did not use. -/
def outcome : Prog ε ι σ α → (ℕ → ι) → σ → Except ε α × σ × (ℕ → ι)
  | .ret a, env, s => (.ok a,s,env)
  | .fail e, env, s => (.error e,s,env)
  | .step act next, env, s =>
    outcome (next (env 0) s) (fun n => env (n+1)) (act (env 0) s)

theorem outcome_bind (p : Prog ε ι σ α) (f : α → Prog ε ι σ β) (env : ℕ → ι) (s : σ) :
    outcome (p >>= f) env s = match outcome p env s with
      | (.ok a,t,rest) => outcome (f a) rest t
      | (.error e,t,rest) => (.error e,t,rest) := by
  induction p generalizing env s with
  | ret a => rfl
  | fail e => rfl
  | step act next ih => exact ih _ _ _ _

variable (f : ι → ι) (p : Prog ε ι σ α)

theorem outcome_query (f : ι → σ → Except ε α) (env : ℕ → ι) (s : σ) :
    outcome (query f) env s = (f (env 0) s,s,fun n => env (n+1)) := by
  rw [query, outcome]
  cases f (env 0) s <;> rfl

theorem outcome_atomic (act : ι → σ → σ) (f : ι → σ → Except ε α) (env : ℕ → ι) (s : σ) :
    outcome (atomic act f) env s = (f (env 0) s,act (env 0) s,fun n => env (n+1)) := by
  rw [atomic, outcome]
  cases f (env 0) s <;> rfl

theorem outcome_map (f : α → β) (env : ℕ → ι) (s : σ) :
    (outcome (p >>= fun a => pure (f a)) env s).1 = (outcome p env s).1.map f := by
  rw [outcome_bind]
  match outcome p env s with
  | (.ok a,t,rest) => rfl
  | (.error e,t,rest) => rfl

theorem outcome_rest (env : ℕ → ι) (s : σ) :
    ∃ k, (outcome p env s).2.2 = fun n => env (n+k) := by
  induction p generalizing env s with
  | ret a => exact ⟨0,rfl⟩
  | fail e => exact ⟨0,rfl⟩
  | step act next ih =>
    obtain ⟨k,hk⟩ := ih (env 0) s (fun n => env (n+1)) (act (env 0) s)
    refine ⟨k+1,?_⟩
    rw [outcome, hk]
    funext n
    rw [Nat.add_assoc]

/-- A program no step of which sees the part of an answer that `f` changes. -/
def Blind (f : ι → ι) : Prog ε ι σ α → Prop
  | .ret _ => True
  | .fail _ => True
  | .step act next => ∀ i s,
      act (f i) s = act i s ∧ next (f i) s = next i s ∧ Blind f (next i s)

theorem blind_bind (g : α → Prog ε ι σ β) (hp : Blind f p)
    (hg : ∀ a, Blind f (g a)) : Blind f (p >>= g) := by
  induction p with
  | ret a => exact hg a
  | fail e => trivial
  | step act next ih =>
    intro i s
    obtain ⟨ha,hn,hb⟩ := hp i s
    exact ⟨ha,congrArg (fun q => Prog.bind q g) hn,ih i s hb⟩

theorem blind_lift (r : Except ε α) : Blind f (lift r : Prog ε ι σ α) := by
  cases r <;> trivial

theorem blind_query (g : ι → σ → Except ε α) (h : ∀ i s, g (f i) s = g i s) : Blind f (query g) :=
  fun i s => ⟨rfl,congrArg lift (h i s),blind_lift f _⟩

theorem outcome_blind (h : Blind f p) (env : ℕ → ι) (s : σ) :
    (outcome p (fun n => f (env n)) s).1 = (outcome p env s).1 := by
  induction p generalizing env s with
  | ret a => rfl
  | fail e => rfl
  | step act next ih =>
    obtain ⟨ha,hn,hb⟩ := h (env 0) s
    simp only [outcome]
    rw [ha, hn]
    exact ih (env 0) s hb (fun n => env (n+1)) _

section Constant
variable {i : ι} {p : Prog ε ι σ α} {f : α → Prog ε ι σ β} {s t u : σ}

def Yields (i : ι) (p : Prog ε ι σ α) (s : σ) (r : Except ε α) (t : σ) : Prop :=
  outcome p (fun _ => i) s = (r,t,fun _ => i)

theorem yields_total (i : ι) (p : Prog ε ι σ α) (s : σ) : ∃ r t, Yields i p s r t := by
  obtain ⟨k,hk⟩ := outcome_rest p (fun _ => i) s
  exact ⟨_,_,Prod.ext rfl (Prod.ext rfl hk)⟩

theorem yields_unique {r r' : Except ε α} (h : Yields i p s r t) (h' : Yields i p s r' u) :
    r = r' ∧ t = u := by
  have heq := h.symm.trans h'
  simpa using heq

theorem yields_ret (a : α) : Yields i (.ret a : Prog ε ι σ α) s (.ok a) s := rfl

theorem yields_fail (e : ε) : Yields i (.fail e : Prog ε ι σ α) s (.error e) s := rfl

theorem yields_lift (r : Except ε α) : Yields i (lift r : Prog ε ι σ α) s r s := by
  cases r <;> rfl

theorem yields_lift_eq {x r : Except ε α} (h : x = r) : Yields i (lift x : Prog ε ι σ α) s r s := by
  rw [h]
  exact yields_lift r

theorem yields_query (f : ι → σ → Except ε α) : Yields i (query f) s (f i s) s :=
  outcome_query f _ s

theorem yields_atomic (act : ι → σ → σ) (f : ι → σ → Except ε α) :
    Yields i (atomic act f) s (f i s) (act i s) :=
  outcome_atomic act f _ s

theorem yields_bind {a : α} {r : Except ε β} (h : Yields i p s (.ok a) t)
    (hf : Yields i (f a) t r u) : Yields i (p >>= f) s r u := by
  rw [Yields, outcome_bind, h]
  exact hf

theorem yields_bind_error {e : ε} (h : Yields i p s (.error e) t) :
    Yields i (p >>= f) s (.error e) t := by
  rw [Yields, outcome_bind, h]

theorem yields_attempt {r : Except ε α} (h : Yields i p s r t) :
    Yields i (attempt p) s (.ok r) t := by
  induction p generalizing s with
  | ret a =>
    cases h
    rfl
  | fail e =>
    cases h
    rfl
  | step act next ih => exact ih i s h

end Constant

section Twins
variable {α' β' : Type} {a b : σ} {Q : α → α' → Prop} {R : β → β' → Prop}

inductive Match (Q : α → α' → Prop) : Except ε α → Except ε α' → Prop
  | ok (x : α) (y : α') (h : Q x y) : Match Q (.ok x) (.ok y)
  | error (e : ε) : Match Q (.error e) (.error e)

def Twins (Q : α → α' → Prop) (p : Prog ε ι σ α) (a : σ) (q : Prog ε ι σ α') (b : σ) : Prop :=
  ∀ env, ∃ r r' rest, outcome p env a = (r,a,rest) ∧ outcome q env b = (r',b,rest) ∧ Match Q r r'

theorem twins_ret (x : α) (y : α') (h : Q x y) : Twins Q (.ret x : Prog ε ι σ α) a (.ret y) b :=
  fun env => ⟨_,_,env,rfl,rfl,.ok x y h⟩

theorem twins_fail (e : ε) : Twins Q (.fail e : Prog ε ι σ α) a (.fail e) b :=
  fun env => ⟨_,_,env,rfl,rfl,.error e⟩

theorem twins_query (f : ι → σ → Except ε α) (g : ι → σ → Except ε α')
    (h : ∀ i, Match Q (f i a) (g i b)) : Twins Q (query f) a (query g) b :=
  fun env => ⟨_,_,fun n => env (n+1),outcome_query f env a,outcome_query g env b,h _⟩

theorem twins_bind (p : Prog ε ι σ α) (q : Prog ε ι σ α') (f : α → Prog ε ι σ β)
    (g : α' → Prog ε ι σ β') (h : Twins Q p a q b)
    (hf : ∀ x y, Q x y → Twins R (f x) a (g y) b) : Twins R (p >>= f) a (q >>= g) b := by
  intro env
  obtain ⟨r,r',rest,ha,hb,hm⟩ := h env
  rw [outcome_bind, outcome_bind, ha, hb]
  cases hm with
  | error e => exact ⟨_,_,rest,rfl,rfl,.error e⟩
  | ok x y hxy => exact hf x y hxy rest

theorem outcome_attempt (p : Prog ε ι σ α) (env : ℕ → ι) (s : σ) : outcome (attempt p) env s =
    (.ok (outcome p env s).1,(outcome p env s).2.1,(outcome p env s).2.2) := by
  induction p generalizing env s with
  | ret x => rfl
  | fail e => rfl
  | step act next ih => exact ih _ _ _ _

theorem twins_attempt (p : Prog ε ι σ α) (q : Prog ε ι σ α') (h : Twins Q p a q b) :
    Twins (Match Q) (attempt p) a (attempt q) b := by
  intro env
  obtain ⟨r,r',rest,ha,hb,hm⟩ := h env
  exact ⟨_,_,rest,by rw [outcome_attempt, ha],by rw [outcome_attempt, hb],.ok r r' hm⟩

theorem twins_result (p : Prog ε ι σ α) (q : Prog ε ι σ α') (f : α → Prog ε ι σ β)
    (g : α' → Prog ε ι σ β) (h : Twins Q p a q b)
    (hf : ∀ x y, Q x y → ∀ env, (outcome (f x) env a).1 = (outcome (g y) env b).1)
    (env : ℕ → ι) : (outcome (p >>= f) env a).1 = (outcome (q >>= g) env b).1 := by
  obtain ⟨r,r',rest,ha,hb,hm⟩ := h env
  rw [outcome_bind, outcome_bind, ha, hb]
  cases hm with
  | error e => rfl
  | ok x y hxy => exact hf x y hxy rest

end Twins

end Outcome

section Safety
variable {G H : σ → σ → Prop} {Q R : α → σ → Prop} {E F : ε → σ → Prop}

/-- Every step either leaves the state alone or keeps the guarantee `G`, a
value is returned in a state of `Q`, an error in a state of `E`. -/
def Safe (G : σ → σ → Prop) (Q : α → σ → Prop) (E : ε → σ → Prop) :
    Prog ε ι σ α → σ → Prop
  | .ret a, s => Q a s
  | .fail e, s => E e s
  | .step act next, s => ∀ i,
      (act i s = s ∨ G s (act i s)) ∧ Safe G Q E (next i s) (act i s)

variable (c : Prop) (p : Prog ε ι σ α) (f : α → Prog ε ι σ β) (s : σ) {Q' : β → σ → Prop}

theorem safe_mono (h : Safe G Q E p s) (hg : ∀ a b, G a b → H a b)
    (hq : ∀ a b, Q a b → R a b) (he : ∀ a b, E a b → F a b) : Safe H R F p s := by
  induction p generalizing s with
  | ret a => exact hq a s h
  | fail e => exact he e s h
  | step act next ih =>
    intro i
    have hi := h i
    exact ⟨hi.1.imp id (hg _ _),ih i s _ hi.2⟩

theorem safe_bind (h : Safe G (fun a s => Safe G Q' E (f a) s) E p s) :
    Safe G Q' E (p >>= f) s := by
  induction p generalizing s with
  | ret a => exact h
  | fail e => exact h
  | step act next ih =>
    intro i
    exact ⟨(h i).1,ih i s _ (h i).2⟩

theorem safe_lift (r : Except ε α) (s : σ) (hq : ∀ a, r = .ok a → Q a s)
    (he : ∀ e, r = .error e → E e s) : Safe G Q E (lift r : Prog ε ι σ α) s := by
  cases r with
  | ok a => exact hq a rfl
  | error e => exact he e rfl

theorem safe_query (f : ι → σ → Except ε α) (s : σ) (hq : ∀ i a, f i s = .ok a → Q a s)
    (he : ∀ i e, f i s = .error e → E e s) : Safe G Q E (query f) s := by
  intro i
  exact ⟨Or.inl rfl,safe_lift _ _ (hq i) (he i)⟩

theorem safe_atomic (act : ι → σ → σ) (f : ι → σ → Except ε α) (s : σ)
    (hg : ∀ i, act i s = s ∨ G s (act i s)) (hq : ∀ i a, f i s = .ok a → Q a (act i s))
    (he : ∀ i e, f i s = .error e → E e (act i s)) : Safe G Q E (atomic act f) s := by
  intro i
  exact ⟨hg i,safe_lift _ _ (hq i) (he i)⟩

theorem safe_attempt {Q' : Except ε α → σ → Prop}
    {E' : ε → σ → Prop} (h : Safe G (fun a => Q' (.ok a)) (fun e => Q' (.error e)) p s) :
    Safe G Q' E' (attempt p) s := by
  induction p generalizing s with
  | ret a => exact h
  | fail e => exact h
  | step act next ih =>
    intro i
    exact ⟨(h i).1,ih i s _ (h i).2⟩

theorem safe_outcome (h : Safe G Q E p s) (env : ℕ → ι) (a : α)
    (ha : (outcome p env s).1 = .ok a) : Q a (outcome p env s).2.1 := by
  induction p generalizing s env with
  | ret b =>
    cases ha
    exact h
  | fail e => cases ha
  | step act next ih => exact ih (env 0) s _ (h (env 0)).2 _ ha

theorem safe_outcome_end (P : σ → Prop) (p : Prog ε ι σ α) (s : σ)
    (h : Safe G (fun _ => P) (fun _ => P) p s) (env : ℕ → ι) : P (outcome p env s).2.1 := by
  induction p generalizing s env with
  | ret a => exact h
  | fail e => exact h
  | step act next ih => exact ih (env 0) s _ (h (env 0)).2 _

theorem safe_related (hrefl : ∀ s, H s s) (htrans : ∀ a b c, H a b → H b c → H a c)
    (hstep : ∀ a b, G a b → H a b) (h : Safe G Q E p s) (env : ℕ → ι) :
    H s (outcome p env s).2.1 := by
  induction p generalizing s env with
  | ret a => exact hrefl s
  | fail e => exact hrefl s
  | step act next ih =>
    obtain ⟨hg,hn⟩ := h (env 0)
    have hrest := ih (env 0) s (act (env 0) s) hn fun n => env (n+1)
    rcases hg with he | hg
    · rw [he] at hrest
      rw [outcome, he]
      exact hrest
    · exact htrans _ _ _ (hstep _ _ hg) hrest

theorem safe_yields (h : Safe G Q E p s) {i : ι} {a : α} {t : σ}
    (hy : Yields i p s (.ok a) t) : Q a t := by
  have hq := safe_outcome p s h (fun _ => i) a (by rw [hy])
  rw [hy] at hq
  exact hq

def Silent : Prog ε ι σ α → Prop
  | .ret _ => True
  | .fail _ => True
  | .step act next => ∀ i s, act i s = s ∧ Silent (next i s)

theorem safe_map_fail {δ : Type} (f : ε → δ) (p : Prog ε ι σ α) (s : σ) {E' : δ → σ → Prop}
    (h : Safe G Q (fun e => E' (f e)) p s) : Safe G Q E' (mapFail f p) s := by
  induction p generalizing s with
  | ret a => exact h
  | fail e => exact h
  | step act next ih =>
    intro i
    exact ⟨(h i).1,ih i s _ (h i).2⟩

theorem silent_attempt (h : Silent p) : Silent (attempt p) := by
  induction p with
  | ret a => trivial
  | fail e => trivial
  | step act next ih =>
    intro i s
    exact ⟨(h i s).1,ih i s (h i s).2⟩

theorem safe_and {Q' : α → σ → Prop} {E' : ε → σ → Prop} (p : Prog ε ι σ α) (s : σ)
    (h : Safe G Q E p s) (h' : Safe H Q' E' p s) : Safe (fun a b => G a b ∧ H a b)
    (fun a t => Q a t ∧ Q' a t) (fun e t => E e t ∧ E' e t) p s := by
  induction p generalizing s with
  | ret a => exact ⟨h,h'⟩
  | fail e => exact ⟨h,h'⟩
  | step act next ih =>
    intro i
    obtain ⟨hg,hn⟩ := h i
    obtain ⟨hg',hn'⟩ := h' i
    refine ⟨?_,ih i s _ hn hn'⟩
    rcases hg with hsame | hg
    · exact Or.inl hsame
    · exact hg'.imp_right fun hg' => ⟨hg,hg'⟩

theorem safe_frame (P : σ → Prop) (hp : ∀ a b, G a b → P a → P b) (p : Prog ε ι σ α) (s : σ)
    (h : Safe G Q E p s) (hs : P s) :
    Safe (fun a b => G a b ∧ P b) (fun a t => Q a t ∧ P t) (fun e t => E e t ∧ P t) p s := by
  induction p generalizing s with
  | ret a => exact ⟨h,hs⟩
  | fail e => exact ⟨h,hs⟩
  | step act next ih =>
    intro i
    have hi := h i
    have hn : P (act i s) := by
      rcases hi.1 with he | hg
      · rw [he]
        exact hs
      · exact hp _ _ hg hs
    exact ⟨hi.1.imp id fun hg => ⟨hg,hn⟩,ih i s _ hi.2 hn⟩

theorem safe_ite [Decidable c] (p q : Prog ε ι σ α) (s : σ)
    (hp : c → Safe G Q E p s) (hq : ¬c → Safe G Q E q s) :
    Safe G Q E (if c then p else q) s := by
  by_cases h : c
  · rw [if_pos h]
    exact hp h
  · rw [if_neg h]
    exact hq h

theorem safe_refuse [Decidable c] (e : ε) (s : σ) {Q' : Unit → σ → Prop} (he : c → E e s)
    (hq : ¬c → Q' () s) : Safe G Q' E (refuseIf c e : Prog ε ι σ Unit) s :=
  safe_ite c _ _ s he hq

theorem safe_do_if [Decidable c] (p : Prog ε ι σ Unit) (s : σ) {Q' : Unit → σ → Prop}
    (hp : c → Safe G Q' E p s) (hq : ¬c → Q' () s) : Safe G Q' E (doIf c p) s :=
  safe_ite c _ _ s hp hq

theorem silent_bind (hp : Silent p) (hf : ∀ a, Silent (f a)) : Silent (p >>= f) := by
  induction p with
  | ret a => exact hf a
  | fail e => trivial
  | step act next ih =>
    intro i s
    exact ⟨(hp i s).1,ih i s (hp i s).2⟩

theorem silent_lift (r : Except ε α) : Silent (lift r : Prog ε ι σ α) := by
  cases r <;> trivial

theorem silent_query (f : ι → σ → Except ε α) : Silent (query f) :=
  fun _ _ => ⟨rfl,silent_lift _⟩

theorem silent_ite [Decidable c] (p q : Prog ε ι σ α) (hp : Silent p)
    (hq : Silent q) : Silent (if c then p else q) := by
  by_cases h : c
  · rw [if_pos h]
    exact hp
  · rw [if_neg h]
    exact hq

theorem silent_refuse [Decidable c] (e : ε) : Silent (refuseIf c e : Prog ε ι σ Unit) :=
  silent_ite c _ _ trivial trivial

theorem silent_do_if [Decidable c] (p : Prog ε ι σ Unit) (hp : Silent p) : Silent (doIf c p) :=
  silent_ite c _ _ hp trivial

theorem safe_silent (h : Silent p) (hq : ∀ a, Q a s) (he : ∀ e, E e s) : Safe G Q E p s := by
  induction p with
  | ret a => exact hq a
  | fail e => exact he e
  | step act next ih =>
    intro i
    obtain ⟨hs,hn⟩ := h i s
    rw [hs]
    exact ⟨Or.inl rfl,ih i s hn⟩

theorem safe_after
    (hp : Silent p) (he : ∀ e, E e s) (hf : ∀ a, Safe G Q' E (f a) s) : Safe G Q' E (p >>= f) s :=
  safe_bind p f s (safe_silent p s hp hf he)

/-- Where nothing is promised of an error, a look at the state changes nothing. -/
theorem safe_look (g : ι → σ → Except ε α) (hf : ∀ a, Safe G Q' (fun _ _ => True) (f a) s) :
    Safe G Q' (fun _ _ => True) (query g >>= f) s :=
  safe_after _ _ _ (silent_query g) (fun _ => trivial) hf

theorem safe_guard [Decidable c] (e : ε) (f : Unit → Prog ε ι σ β)
    (hf : ¬c → Safe G Q' (fun _ _ => True) (f ()) s) :
    Safe G Q' (fun _ _ => True) (refuseIf c e >>= f) s :=
  safe_bind _ _ _ (safe_refuse _ _ _ (fun _ => trivial) hf)

theorem safe_still
    (hp : Safe (fun _ _ => False) Q F p s) (he : ∀ e, F e s → E e s)
    (hf : ∀ a, Q a s → Safe G Q' E (f a) s) : Safe G Q' E (p >>= f) s := by
  induction p with
  | ret a => exact hf a hp
  | fail e => exact he e hp
  | step act next ih =>
    intro i
    have hi := hp i
    have hs : act i s = s := hi.1.resolve_right id
    rw [hs] at hi
    refine ⟨Or.inl hs,?_⟩
    rw [hs]
    exact ih i s hi.2

theorem safe_looks (hp : Safe (fun _ _ => False) Q F p s)
    (hq : ∀ a, Q a s → R a s) (he : ∀ e, F e s → E e s) : Safe G R E p s := by
  induction p with
  | ret a => exact hq a hp
  | fail e => exact he e hp
  | step act next ih =>
    intro i
    have hi := hp i
    have hs : act i s = s := hi.1.resolve_right id
    rw [hs] at hi
    refine ⟨Or.inl hs,?_⟩
    rw [hs]
    exact ih i s hi.2

/-- Like `Safe`, as long as every step receives an answer that `A` allows there. -/
def SafeIf (A : Prog ε ι σ α → ι → σ → Prop) (G : σ → σ → Prop) (Q : α → σ → Prop)
    (E : ε → σ → Prop) : Prog ε ι σ α → σ → Prop
  | .ret a, s => Q a s
  | .fail e, s => E e s
  | .step act next, s => ∀ i, A (.step act next) i s →
      (act i s = s ∨ G s (act i s)) ∧ SafeIf A G Q E (next i s) (act i s)

theorem safe_if_of_safe (A : Prog ε ι σ α → ι → σ → Prop) (p : Prog ε ι σ α) (s : σ)
    (h : Safe G Q E p s) : SafeIf A G Q E p s := by
  induction p generalizing s with
  | ret a => exact h
  | fail e => exact h
  | step act next ih =>
    intro i _
    exact ⟨(h i).1,ih i s _ (h i).2⟩

theorem safe_of_safe_if (A : Prog ε ι σ α → ι → σ → Prop) (hA : ∀ p i s, A p i s)
    (p : Prog ε ι σ α) (s : σ) (h : SafeIf A G Q E p s) : Safe G Q E p s := by
  induction p generalizing s with
  | ret a => exact h
  | fail e => exact h
  | step act next ih =>
    intro i
    exact ⟨(h i (hA _ i s)).1,ih i s _ (h i (hA _ i s)).2⟩

theorem safe_if_bind (A : Prog ε ι σ β → ι → σ → Prop) (p : Prog ε ι σ α)
    (f : α → Prog ε ι σ β) (s : σ) {Q' : β → σ → Prop}
    (h : Safe G (fun a s => SafeIf A G Q' E (f a) s) E p s) : SafeIf A G Q' E (p >>= f) s := by
  induction p generalizing s with
  | ret a => exact h
  | fail e => exact h
  | step act next ih =>
    intro i _
    exact ⟨(h i).1,ih i s _ (h i).2⟩

/-- The parts of a program in turn; the first is followed under the condition that `A` puts on
the answers it gets. -/
theorem safe_if_seq (A : Prog ε ι σ β → ι → σ → Prop) (B : Prog ε ι σ α → ι → σ → Prop)
    (p : Prog ε ι σ α) (f : α → Prog ε ι σ β) (s : σ) {Q' : β → σ → Prop}
    (hA : ∀ q i t, A (q >>= f) i t → B q i t)
    (h : SafeIf B G (fun a t => SafeIf A G Q' E (f a) t) E p s) :
    SafeIf A G Q' E (p >>= f) s := by
  induction p generalizing s with
  | ret a => exact h
  | fail e => exact h
  | step act next ih =>
    intro i hi
    obtain ⟨hg,hn⟩ := h i (hA _ i s hi)
    exact ⟨hg,ih i s _ hn⟩

theorem safe_if_after (A : Prog ε ι σ β → ι → σ → Prop) (p : Prog ε ι σ α)
    (f : α → Prog ε ι σ β) (s : σ) {Q' : β → σ → Prop} (hp : Silent p) (he : ∀ e, E e s)
    (hf : ∀ a, SafeIf A G Q' E (f a) s) : SafeIf A G Q' E (p >>= f) s :=
  safe_if_bind A p f s (safe_silent p s hp hf he)

theorem bind_assoc {γ : Type} (p : Prog ε ι σ α) (f : α → Prog ε ι σ β)
    (g : β → Prog ε ι σ γ) : (p >>= f) >>= g = p >>= fun a => f a >>= g := by
  induction p with
  | ret a => rfl
  | fail e => rfl
  | step act next ih =>
    show Prog.step act _ = Prog.step act _
    congr 1
    funext i s
    exact ih i s

end Safety

section System
variable {op ρ : Type}

inductive Event (op ι : Type) : Type
  | start (o : op)
  | tick (i : ι)
  | crash

structure Config (op ρ ε ι σ : Type) where
  state : σ
  running : Option (op × Prog ε ι σ ρ)
  log : List (op × Except ε ρ)

variable (prog : op → Prog ε ι σ ρ) (reboot : σ → σ)

def advance (c : Config op ρ ε ι σ) : Event op ι → Config op ρ ε ι σ
  | .start o =>
    match c.running with
    | none => { c with running := some (o,prog o) }
    | some _ => c
  | .tick i =>
    match c.running with
    | none => c
    | some (o,.ret r) => { c with running := none, log := c.log++[(o,.ok r)] }
    | some (o,.fail e) => { c with running := none, log := c.log++[(o,.error e)] }
    | some (o,.step act next) =>
      { c with state := act i c.state, running := some (o,next i c.state) }
  | .crash => { c with state := reboot c.state, running := none }

def run (c : Config op ρ ε ι σ) : List (Event op ι) → Config op ρ ε ι σ
  | [] => c
  | e::rest => run (advance prog reboot c e) rest

theorem run_append (c : Config op ρ ε ι σ) (es fs : List (Event op ι)) :
    run prog reboot c (es++fs) = run prog reboot (run prog reboot c es) fs := by
  induction es generalizing c with
  | nil => rfl
  | cons e es ih => exact ih _

theorem run_yields (o : op) (i : ι) (p : Prog ε ι σ ρ) (s t : σ) (r : Except ε ρ)
    (log : List (op × Except ε ρ)) (h : Yields i p s r t) : ∃ n, run prog reboot ⟨s,some (o,p),log⟩
    (List.replicate n (.tick i)) = ⟨t,none,log++[(o,r)]⟩ := by
  induction p generalizing s with
  | ret a =>
    cases h
    exact ⟨1,rfl⟩
  | fail e =>
    cases h
    exact ⟨1,rfl⟩
  | step act next ih =>
    obtain ⟨n,hn⟩ := ih i s (act i s) h
    exact ⟨n+1,hn⟩

theorem advance_log (c : Config op ρ ε ι σ) (e : Event op ι) :
    c.log <+: (advance prog reboot c e).log := by
  obtain ⟨w,running,log⟩ := c
  cases e with
  | start o => cases running <;> exact List.prefix_rfl
  | crash => exact List.prefix_rfl
  | tick i =>
    match running with
    | none => exact List.prefix_rfl
    | some (o,.ret r) => exact List.prefix_append _ _
    | some (o,.fail e) => exact List.prefix_append _ _
    | some (o,.step act next) => exact List.prefix_rfl

theorem run_log (c : Config op ρ ε ι σ) (es : List (Event op ι)) :
    c.log <+: (run prog reboot c es).log := by
  induction es generalizing c with
  | nil => exact List.prefix_rfl
  | cons e es ih => exact (advance_log prog reboot c e).trans (ih _)

/-- What an operation may assume and must keep. `Inv` holds between
operations, `Mid` also in the middle of one, and `G o` bounds what a single
step of `o` does. Both may speak of the answers given so far. -/
structure Discipline (Inv Mid : List (op × Except ε ρ) → σ → Prop)
    (G : op → σ → σ → Prop) : Prop where
  mid : ∀ log s, Inv log s → Mid log s
  op : ∀ o log s, Inv log s →
    Safe (fun a b => G o a b ∧ Mid log b) (fun r => Inv (log++[(o,.ok r)]))
      (fun e => Inv (log++[(o,.error e)])) (prog o) s
  boot : ∀ log s, Mid log s → Inv log (reboot s)

def Sound (Inv Mid : List (op × Except ε ρ) → σ → Prop) (G : op → σ → σ → Prop)
    (c : Config op ρ ε ι σ) : Prop :=
  Mid c.log c.state ∧
  match c.running with
  | none => Inv c.log c.state
  | some (o,p) => Safe (fun a b => G o a b ∧ Mid c.log b)
      (fun r => Inv (c.log++[(o,.ok r)])) (fun e => Inv (c.log++[(o,.error e)])) p c.state

variable {prog reboot} {Inv Mid : List (op × Except ε ρ) → σ → Prop} {G : op → σ → σ → Prop}

theorem sound_idle (d : Discipline prog reboot Inv Mid G) (c : Config op ρ ε ι σ)
    (hr : c.running = none) (h : Inv c.log c.state) : Sound Inv Mid G c := by
  refine ⟨d.mid _ _ h,?_⟩
  rw [hr]
  exact h

theorem advance_sound (d : Discipline prog reboot Inv Mid G) (c : Config op ρ ε ι σ)
    (e : Event op ι) (h : Sound Inv Mid G c) : Sound Inv Mid G (advance prog reboot c e) := by
  obtain ⟨w,running,log⟩ := c
  cases e with
  | start o =>
    cases running with
    | none => exact ⟨h.1,d.op o log w h.2⟩
    | some _ => exact h
  | crash => exact sound_idle d _ rfl (d.boot log w h.1)
  | tick i =>
    match running, h with
    | none, h => exact h
    | some (o,.ret r), h => exact ⟨d.mid _ _ h.2,h.2⟩
    | some (o,.fail e), h => exact ⟨d.mid _ _ h.2,h.2⟩
    | some (o,.step act next), h =>
      have hi := h.2 i
      refine ⟨?_,hi.2⟩
      rcases hi.1 with he | hg
      · show Mid log (act i w)
        rw [he]
        exact h.1
      · exact hg.2

theorem run_sound (d : Discipline prog reboot Inv Mid G) (c : Config op ρ ε ι σ)
    (es : List (Event op ι)) (h : Sound Inv Mid G c) : Sound Inv Mid G (run prog reboot c es) := by
  induction es generalizing c with
  | nil => exact h
  | cons e es ih => exact ih _ (advance_sound d c e h)

variable (prog reboot) in
/-- One event leaves the state alone, is a step of the running operation that
keeps its guarantee, or is a restart. -/
theorem advance_state (c : Config op ρ ε ι σ) (e : Event op ι) (h : Sound Inv Mid G c) :
    (advance prog reboot c e).state = c.state ∨
    (∃ o p, c.running = some (o,p) ∧ G o c.state (advance prog reboot c e).state) ∨
    (advance prog reboot c e).state = reboot c.state := by
  obtain ⟨w,running,log⟩ := c
  cases e with
  | start o =>
    cases running with
    | none => exact Or.inl rfl
    | some _ => exact Or.inl rfl
  | crash => exact Or.inr (Or.inr rfl)
  | tick i =>
    match running, h with
    | none, _ => exact Or.inl rfl
    | some (o,.ret r), _ => exact Or.inl rfl
    | some (o,.fail e), _ => exact Or.inl rfl
    | some (o,.step act next), h =>
      rcases (h.2 i).1 with he | hg
      · exact Or.inl he
      · exact Or.inr (Or.inl ⟨o,_,rfl,hg.1⟩)

section Conditional
variable (prog : op → Prog ε ι σ ρ) (reboot : σ → σ)
variable (A : op → Prog ε ι σ ρ → ι → σ → Prop)

def Conforms (c : Config op ρ ε ι σ) : List (Event op ι) → Prop
  | [] => True
  | e::rest =>
    (∀ i o p, e = .tick i → c.running = some (o,p) → A o p i c.state) ∧
    Conforms (advance prog reboot c e) rest

structure DisciplineIf (Inv Mid : List (op × Except ε ρ) → σ → Prop)
    (G : op → σ → σ → Prop) : Prop where
  mid : ∀ log s, Inv log s → Mid log s
  op : ∀ o log s, Inv log s →
    SafeIf (A o) (fun a b => G o a b ∧ Mid log b) (fun r => Inv (log++[(o,.ok r)]))
      (fun e => Inv (log++[(o,.error e)])) (prog o) s
  boot : ∀ log s, Mid log s → Inv log (reboot s)

def SoundIf (Inv Mid : List (op × Except ε ρ) → σ → Prop) (G : op → σ → σ → Prop)
    (c : Config op ρ ε ι σ) : Prop :=
  Mid c.log c.state ∧
  match c.running with
  | none => Inv c.log c.state
  | some (o,p) => SafeIf (A o) (fun a b => G o a b ∧ Mid c.log b)
      (fun r => Inv (c.log++[(o,.ok r)])) (fun e => Inv (c.log++[(o,.error e)])) p c.state

variable {prog reboot A} {Inv Mid : List (op × Except ε ρ) → σ → Prop} {G : op → σ → σ → Prop}

theorem discipline_of_if (d : DisciplineIf prog reboot A Inv Mid G) (hA : ∀ o p i s, A o p i s) :
    Discipline prog reboot Inv Mid G where
  mid := d.mid
  boot := d.boot
  op o log s h := safe_of_safe_if (A o) (hA o) _ s (d.op o log s h)

theorem sound_if_idle (d : DisciplineIf prog reboot A Inv Mid G) (c : Config op ρ ε ι σ)
    (hr : c.running = none) (h : Inv c.log c.state) : SoundIf A Inv Mid G c := by
  refine ⟨d.mid _ _ h,?_⟩
  rw [hr]
  exact h

theorem advance_sound_if (d : DisciplineIf prog reboot A Inv Mid G) (c : Config op ρ ε ι σ)
    (e : Event op ι) (hA : ∀ i o p, e = .tick i → c.running = some (o,p) → A o p i c.state)
    (h : SoundIf A Inv Mid G c) : SoundIf A Inv Mid G (advance prog reboot c e) := by
  obtain ⟨w,running,log⟩ := c
  cases e with
  | start o =>
    cases running with
    | none => exact ⟨h.1,d.op o log w h.2⟩
    | some _ => exact h
  | crash => exact sound_if_idle d _ rfl (d.boot log w h.1)
  | tick i =>
    match running, h, hA with
    | none, h, _ => exact h
    | some (o,.ret r), h, _ => exact ⟨d.mid _ _ h.2,h.2⟩
    | some (o,.fail e), h, _ => exact ⟨d.mid _ _ h.2,h.2⟩
    | some (o,.step act next), h, hA =>
      have hi := h.2 i (hA i o _ rfl rfl)
      refine ⟨?_,hi.2⟩
      rcases hi.1 with he | hg
      · show Mid log (act i w)
        rw [he]
        exact h.1
      · exact hg.2

theorem run_sound_if (d : DisciplineIf prog reboot A Inv Mid G) (c : Config op ρ ε ι σ)
    (es : List (Event op ι)) (hA : Conforms prog reboot A c es) (h : SoundIf A Inv Mid G c) :
    SoundIf A Inv Mid G (run prog reboot c es) := by
  induction es generalizing c with
  | nil => exact h
  | cons e es ih => exact ih _ hA.2 (advance_sound_if d c e hA.1 h)

end Conditional

section Stepwise
variable (prog : op → Prog ε ι σ ρ) (reboot : σ → σ) (C : op → σ → Prop)

/-- Every operation of a run starts where `C` allows it. -/
def Starts (c : Config op ρ ε ι σ) : List (Event op ι) → Prop
  | [] => True
  | e::rest =>
    (∀ o, e = .start o → c.running = none → C o c.state) ∧ Starts (advance prog reboot c e) rest

/-- An invariant that every single step keeps, so that it holds in the middle of an
operation too. `Post` is what an operation has reached when it returns. -/
structure Stepwise (Inv : σ → Prop) (G : op → σ → σ → Prop) (Post : op → ρ → σ → Prop) : Prop where
  keep : ∀ o a b, Inv a → G o a b → Inv b
  op : ∀ o s, Inv s → C o s → Safe (G o) (Post o) (fun _ _ => True) (prog o) s
  boot : ∀ s, Inv s → Inv (reboot s)

def InStep (Inv : σ → Prop) (G : op → σ → σ → Prop) (Post : op → ρ → σ → Prop)
    (c : Config op ρ ε ι σ) : Prop :=
  Inv c.state ∧ ∀ o p, c.running = some (o,p) → Safe (G o) (Post o) (fun _ _ => True) p c.state

variable {prog reboot C} {Inv : σ → Prop} {G : op → σ → σ → Prop} {Post : op → ρ → σ → Prop}

theorem starts_any (c : Config op ρ ε ι σ) (es : List (Event op ι)) (h : ∀ o s, C o s) :
    Starts prog reboot C c es := by
  induction es generalizing c with
  | nil => trivial
  | cons e es ih => exact ⟨fun o _ _ => h o _,ih _⟩

theorem starts_append {c : Config op ρ ε ι σ} {es fs : List (Event op ι)}
    (h : Starts prog reboot C c es) (hrest : Starts prog reboot C (run prog reboot c es) fs) :
    Starts prog reboot C c (es++fs) := by
  induction es generalizing c with
  | nil => exact hrest
  | cons e es ih => exact ⟨h.1,ih h.2 hrest⟩

theorem advance_in_step (d : Stepwise prog reboot C Inv G Post) (c : Config op ρ ε ι σ)
    (e : Event op ι) (hC : ∀ o, e = .start o → c.running = none → C o c.state)
    (h : InStep Inv G Post c) : InStep Inv G Post (advance prog reboot c e) := by
  obtain ⟨w,running,log⟩ := c
  cases e with
  | start o =>
    cases running with
    | none =>
      refine ⟨h.1,?_⟩
      intro o' p hp
      cases hp
      exact d.op o w h.1 (hC o rfl rfl)
    | some _ => exact h
  | crash => exact ⟨d.boot w h.1,fun _ _ hp => nomatch hp⟩
  | tick i =>
    match running, h with
    | none, h => exact h
    | some (o,.ret r), h => exact ⟨h.1,fun _ _ hp => nomatch hp⟩
    | some (o,.fail e), h => exact ⟨h.1,fun _ _ hp => nomatch hp⟩
    | some (o,.step act next), h =>
      have hi := h.2 o _ rfl i
      constructor
      · rcases hi.1 with he | hg
        · show Inv (act i w)
          rw [he]
          exact h.1
        · exact d.keep o w _ h.1 hg
      · intro o' p hp
        cases hp
        exact hi.2

theorem run_in_step (d : Stepwise prog reboot C Inv G Post) (c : Config op ρ ε ι σ)
    (es : List (Event op ι)) (hC : Starts prog reboot C c es) (h : InStep Inv G Post c) :
    InStep Inv G Post (run prog reboot c es) := by
  induction es generalizing c with
  | nil => exact h
  | cons e es ih => exact ih _ hC.2 (advance_in_step d c e hC.1 h)

variable (prog reboot) in
theorem in_step_cases (c : Config op ρ ε ι σ) (e : Event op ι) (h : InStep Inv G Post c) :
    (advance prog reboot c e).state = c.state ∨
    (∃ o p, c.running = some (o,p) ∧ G o c.state (advance prog reboot c e).state) ∨
    (advance prog reboot c e).state = reboot c.state := by
  obtain ⟨w,running,log⟩ := c
  cases e with
  | start o => cases running <;> exact Or.inl rfl
  | crash => exact Or.inr (Or.inr rfl)
  | tick i =>
    match running, h with
    | none, _ => exact Or.inl rfl
    | some (o,.ret r), _ => exact Or.inl rfl
    | some (o,.fail e), _ => exact Or.inl rfl
    | some (o,.step act next), h =>
      rcases (h.2 o _ rfl i).1 with he | hg
      · exact Or.inl he
      · exact Or.inr (Or.inl ⟨o,_,rfl,hg⟩)

theorem in_step_related (d : Stepwise prog reboot C Inv G Post) (R : σ → σ → Prop)
    (hrefl : ∀ s, R s s) (htrans : ∀ a b c, R a b → R b c → R a c)
    (hstep : ∀ o a b, G o a b → R a b) (hboot : ∀ s, R s (reboot s)) (c : Config op ρ ε ι σ)
    (es : List (Event op ι)) (hC : Starts prog reboot C c es) (h : InStep Inv G Post c) :
    R c.state (run prog reboot c es).state := by
  induction es generalizing c with
  | nil => exact hrefl _
  | cons e es ih =>
    apply htrans _ _ _ _ (ih _ hC.2 (advance_in_step d c e hC.1 h))
    rcases in_step_cases prog reboot c e h with he | ⟨o,p,-,hg⟩ | hr
    · rw [he]
      exact hrefl _
    · exact hstep o _ _ hg
    · rw [hr]
      exact hboot _

end Stepwise

end System

end Foundation.Resumption
