import AndaBrain.Foundation.Resumption
import Mathlib.Logic.Relation

/-!
# Programs that interleave on one state

A pool runs any number of programs; each event lets one of them take a step, starts one, or drops
one. Operations that need the gate run one at a time.
-/

set_option autoImplicit false

namespace Foundation.ThreadPool
open Foundation.Resumption

variable {ε ι σ α β op ρ : Type}

section Interference
variable {R G : σ → σ → Prop} {Q : α → σ → Prop} {E : ε → σ → Prop}

def SafeUnder (R G : σ → σ → Prop) (Q : α → σ → Prop) (E : ε → σ → Prop) :
    Prog ε ι σ α → σ → Prop
  | .ret a, s => ∀ t, R s t → Q a t
  | .fail e, s => ∀ t, R s t → E e t
  | .step act next, s => ∀ t, R s t → ∀ i,
      (act i t = t ∨ G t (act i t)) ∧ SafeUnder R G Q E (next i t) (act i t)

theorem under_rely (htrans : ∀ a b c, R a b → R b c → R a c) (p : Prog ε ι σ α) (s t : σ)
    (h : SafeUnder R G Q E p s) (hr : R s t) : SafeUnder R G Q E p t := by
  cases p with
  | ret a => exact fun u hu => h u (htrans _ _ _ hr hu)
  | fail e => exact fun u hu => h u (htrans _ _ _ hr hu)
  | step act next => exact fun u hu => h u (htrans _ _ _ hr hu)

theorem under_mono (p : Prog ε ι σ α) (s : σ) {Q' : α → σ → Prop} {E' : ε → σ → Prop}
    (h : SafeUnder R G Q E p s) (hq : ∀ a b, Q a b → Q' a b) (he : ∀ a b, E a b → E' a b) :
    SafeUnder R G Q' E' p s := by
  induction p generalizing s with
  | ret a => exact fun t ht => hq a t (h t ht)
  | fail e => exact fun t ht => he e t (h t ht)
  | step act next ih =>
    intro t ht i
    exact ⟨(h t ht i).1,ih i t _ (h t ht i).2⟩

/-- A property that every step of every program keeps may be assumed at the end. -/
theorem under_frame (P : σ → Prop) (hr : ∀ a b, R a b → P a → P b)
    (hg : ∀ a b, G a b → P a → P b) (p : Prog ε ι σ α) (s : σ) (h : SafeUnder R G Q E p s)
    (hs : P s) :
    SafeUnder R G (fun a t => Q a t ∧ P t) (fun e t => E e t ∧ P t) p s := by
  induction p generalizing s with
  | ret a => exact fun t ht => ⟨h t ht,hr _ _ ht hs⟩
  | fail e => exact fun t ht => ⟨h t ht,hr _ _ ht hs⟩
  | step act next ih =>
    intro t ht i
    have hi := h t ht i
    have hpt := hr _ _ ht hs
    have hn : P (act i t) := by
      rcases hi.1 with he | hg'
      · rw [he]
        exact hpt
      · exact hg _ _ hg' hpt
    exact ⟨hi.1,ih i t _ hi.2 hn⟩

theorem under_bind (hrefl : ∀ a, R a a) (p : Prog ε ι σ α) (f : α → Prog ε ι σ β) (s : σ)
    {Q' : β → σ → Prop} (h : SafeUnder R G (fun a s => SafeUnder R G Q' E (f a) s) E p s) :
    SafeUnder R G Q' E (p >>= f) s := by
  induction p generalizing s with
  | ret a => exact h s (hrefl s)
  | fail e => exact h
  | step act next ih =>
    intro t ht i
    exact ⟨(h t ht i).1,ih i t _ (h t ht i).2⟩

theorem under_attempt (p : Prog ε ι σ α) (s : σ) {Q' : Except ε α → σ → Prop}
    {E' : ε → σ → Prop} (h : SafeUnder R G (fun a => Q' (.ok a)) (fun e => Q' (.error e)) p s) :
    SafeUnder R G Q' E' (attempt p) s := by
  induction p generalizing s with
  | ret a => exact h
  | fail e => exact h
  | step act next ih =>
    intro t ht i
    exact ⟨(h t ht i).1,ih i t _ (h t ht i).2⟩

theorem under_lift (r : Except ε α) (s : σ) (hq : ∀ a, r = .ok a → ∀ t, R s t → Q a t)
    (he : ∀ e, r = .error e → ∀ t, R s t → E e t) :
    SafeUnder R G Q E (lift r : Prog ε ι σ α) s := by
  cases r with
  | ok a => exact hq a rfl
  | error e => exact he e rfl

theorem under_query (f : ι → σ → Except ε α) (s : σ)
    (hq : ∀ t, R s t → ∀ i a, f i t = .ok a → ∀ u, R t u → Q a u)
    (he : ∀ t, R s t → ∀ i e, f i t = .error e → ∀ u, R t u → E e u) :
    SafeUnder R G Q E (query f) s := by
  intro t ht i
  exact ⟨Or.inl rfl,under_lift _ _ (hq t ht i) (he t ht i)⟩

theorem under_atomic (act : ι → σ → σ) (f : ι → σ → Except ε α) (s : σ)
    (hg : ∀ t, R s t → ∀ i, act i t = t ∨ G t (act i t))
    (hq : ∀ t, R s t → ∀ i a, f i t = .ok a → ∀ u, R (act i t) u → Q a u)
    (he : ∀ t, R s t → ∀ i e, f i t = .error e → ∀ u, R (act i t) u → E e u) :
    SafeUnder R G Q E (atomic act f) s := by
  intro t ht i
  exact ⟨hg t ht i,under_lift _ _ (hq t ht i) (he t ht i)⟩

theorem under_ite (c : Prop) [Decidable c] (p q : Prog ε ι σ α) (s : σ)
    (hp : c → SafeUnder R G Q E p s) (hq : ¬c → SafeUnder R G Q E q s) :
    SafeUnder R G Q E (if c then p else q) s := by
  by_cases h : c
  · rw [if_pos h]
    exact hp h
  · rw [if_neg h]
    exact hq h

theorem under_refuse (c : Prop) [Decidable c] (e : ε) (s : σ) {Q' : Unit → σ → Prop}
    (he : c → ∀ t, R s t → E e t) (hq : ¬c → ∀ t, R s t → Q' () t) :
    SafeUnder R G Q' E (refuseIf c e : Prog ε ι σ Unit) s :=
  under_ite c _ _ s he hq

theorem under_silent (htrans : ∀ a b c, R a b → R b c → R a c) (p : Prog ε ι σ α) (s : σ)
    (h : Silent p) (hq : ∀ t, R s t → ∀ a, Q a t) (he : ∀ t, R s t → ∀ e, E e t) :
    SafeUnder R G Q E p s := by
  induction p generalizing s with
  | ret a => exact fun t ht => hq t ht a
  | fail e => exact fun t ht => he t ht e
  | step act next ih =>
    intro t ht i
    obtain ⟨hs,hn⟩ := h i t
    rw [hs]
    exact ⟨Or.inl rfl,ih i t t hn (fun u hu => hq u (htrans _ _ _ ht hu))
      fun u hu => he u (htrans _ _ _ ht hu)⟩

theorem under_after (hrefl : ∀ a, R a a) (htrans : ∀ a b c, R a b → R b c → R a c)
    (p : Prog ε ι σ α) (f : α → Prog ε ι σ β) (s : σ) {Q' : β → σ → Prop} (hp : Silent p)
    (he : ∀ t, R s t → ∀ e, E e t) (hf : ∀ t, R s t → ∀ a, SafeUnder R G Q' E (f a) t) :
    SafeUnder R G Q' E (p >>= f) s :=
  under_bind hrefl p f s (under_silent htrans p s hp hf he)

end Interference

structure Thread (op ρ ε ι σ : Type) where
  op : op
  start : σ
  prog : Prog ε ι σ ρ

structure Finished (op ρ ε σ : Type) where
  op : op
  start : σ
  answer : Except ε ρ

structure Pool (op ρ ε ι σ : Type) where
  state : σ
  slots : ℕ → Option (Thread op ρ ε ι σ)
  gate : Option ℕ
  log : List (Finished op ρ ε σ)

inductive Event (op ι : Type) : Type
  | spawn (n : ℕ) (o : op)
  | tick (n : ℕ) (i : ι)
  | drop (n : ℕ)
  | crash

variable (prog : op → Prog ε ι σ ρ) (gated : op → Bool)

def clear (p : Pool op ρ ε ι σ) (n : ℕ) : Pool op ρ ε ι σ :=
  { p with
    slots := Function.update p.slots n none
    gate := if p.gate = some n then none else p.gate }

def advance (p : Pool op ρ ε ι σ) : Event op ι → Pool op ρ ε ι σ
  | .spawn n o =>
    if (p.slots n).isNone && (!gated o || p.gate.isNone) then
      { p with
        slots := Function.update p.slots n (some ⟨o,p.state,prog o⟩)
        gate := if gated o then some n else p.gate }
    else p
  | .drop n => clear p n
  | .crash => { p with slots := fun _ => none, gate := none }
  | .tick n i =>
    match p.slots n with
    | none => p
    | some ⟨o,start,.ret r⟩ => { clear p n with log := p.log++[⟨o,start,.ok r⟩] }
    | some ⟨o,start,.fail e⟩ => { clear p n with log := p.log++[⟨o,start,.error e⟩] }
    | some ⟨o,start,.step act next⟩ =>
      { p with
        state := act i p.state
        slots := Function.update p.slots n (some ⟨o,start,next i p.state⟩) }

def run (p : Pool op ρ ε ι σ) : List (Event op ι) → Pool op ρ ε ι σ
  | [] => p
  | e::es => run (advance prog gated p e) es

theorem run_append (p : Pool op ρ ε ι σ) (es fs : List (Event op ι)) :
    run prog gated p (es++fs) = run prog gated (run prog gated p es) fs := by
  induction es generalizing p with
  | nil => rfl
  | cons e es ih => exact ih _

def idle (s : σ) : Pool op ρ ε ι σ where
  state := s
  slots := fun _ => none
  gate := none
  log := []

/-- A stop of the operation at the gate is allowed only when the state could
have been left to the next one. -/
def Allowed (Rest : σ → Prop) (p : Pool op ρ ε ι σ) : Event op ι → Prop
  | .drop n => p.gate = some n → Rest p.state
  | .crash => p.gate.isSome = true → Rest p.state
  | _ => True

def Orderly (Rest : σ → Prop) : Pool op ρ ε ι σ → List (Event op ι) → Prop
  | _, [] => True
  | p, e::es => Allowed Rest p e ∧ Orderly Rest (advance prog gated p e) es

/-- What the operations promise each other. `Inv` holds at every moment, `Rest`
whenever the gate is free, and `Post o s` relates the state `o` was started in
to its answer and the state at that time. -/
structure Protocol (Inv Rest : σ → Prop) (R G : op → σ → σ → Prop)
    (Post : op → σ → Except ε ρ → σ → Prop) : Prop where
  refl : ∀ o s, R o s s
  trans : ∀ o a b c, R o a b → R o b c → R o a c
  keeps : ∀ o a b, Inv a → G o a b → Inv b
  compat : ∀ o o' a b, (gated o && gated o') = false → Inv a → G o a b → R o' a b
  free : ∀ o a b, gated o = false → Inv a → G o a b → Rest a → Rest b
  leaves : ∀ o s r t, gated o = true → Post o s r t → Rest s → Rest t
  op : ∀ o s, Inv s →
    SafeUnder (R o) (G o) (fun r => Post o s (.ok r)) (fun e => Post o s (.error e)) (prog o) s

section Sound
variable {prog gated} {Inv Rest : σ → Prop} {R G : op → σ → σ → Prop}
  {Post : op → σ → Except ε ρ → σ → Prop}

variable (gated) in
def SoundThread (Rest : σ → Prop) (R G : op → σ → σ → Prop)
    (Post : op → σ → Except ε ρ → σ → Prop) (gate : Option ℕ) (n : ℕ) (s : σ)
    (th : Thread op ρ ε ι σ) : Prop :=
  SafeUnder (R th.op) (G th.op) (fun r => Post th.op th.start (.ok r))
    (fun e => Post th.op th.start (.error e)) th.prog s ∧
  (gated th.op = true → gate = some n ∧ Rest th.start)

variable (gated) in
structure Sound (Inv Rest : σ → Prop) (R G : op → σ → σ → Prop)
    (Post : op → σ → Except ε ρ → σ → Prop) (p : Pool op ρ ε ι σ) : Prop where
  inv : Inv p.state
  rest : p.gate = none → Rest p.state
  threads : ∀ n th, p.slots n = some th →
    SoundThread gated Rest R G Post p.gate n p.state th
  holder : ∀ n, p.gate = some n → ∃ th, p.slots n = some th ∧ gated th.op = true
  answers : ∀ f ∈ p.log, (∃ t, Post f.op f.start f.answer t) ∧
    (gated f.op = true → Rest f.start)

theorem sound_idle (s : σ) (h : Inv s) (hr : Rest s) :
    Sound gated Inv Rest R G Post (idle s : Pool op ρ ε ι σ) := by
  refine ⟨h,fun _ => hr,?_,?_,?_⟩
  · intro n th hn
    cases hn
  · intro n hn
    cases hn
  · intro f hf
    cases hf

theorem sound_thread_gate (g g' : Option ℕ) (n : ℕ) (s : σ) (th : Thread op ρ ε ι σ)
    (h : SoundThread gated Rest R G Post g n s th) (hg : gated th.op = true → g = some n → g' = some n) :
    SoundThread gated Rest R G Post g' n s th :=
  ⟨h.1,fun ht => ⟨hg ht (h.2 ht).1,(h.2 ht).2⟩⟩

theorem sound_thread_rely (d : Protocol prog gated Inv Rest R G Post) (g : Option ℕ) (n : ℕ)
    (s t : σ) (th : Thread op ρ ε ι σ) (h : SoundThread gated Rest R G Post g n s th)
    (hr : R th.op s t) : SoundThread gated Rest R G Post g n t th :=
  ⟨under_rely (d.trans th.op) _ _ _ h.1 hr,h.2⟩

variable (p : Pool op ρ ε ι σ)

theorem holder_gated (n : ℕ) (th : Thread op ρ ε ι σ) (h : Sound gated Inv Rest R G Post p)
    (hg : p.gate = some n) (hn : p.slots n = some th) : gated th.op = true := by
  obtain ⟨th',hs,ho⟩ := h.holder n hg
  rw [hn] at hs
  rw [Option.some.inj hs]
  exact ho

theorem clear_gate (n m : ℕ) (h : p.gate = some m) (hne : m ≠ n) : (clear p n).gate = some m := by
  have hn : p.gate ≠ some n := by
    rw [h]
    intro hm
    exact hne (Option.some.inj hm)
  show (if p.gate = some n then none else p.gate) = some m
  rw [if_neg hn]
  exact h

theorem gate_clear (n m : ℕ) (h : (clear p n).gate = some m) : p.gate = some m ∧ m ≠ n := by
  by_cases hn : p.gate = some n
  · have hc : (clear p n).gate = none := if_pos hn
    rw [hc] at h
    cases h
  have hc : (clear p n).gate = p.gate := if_neg hn
  rw [hc] at h
  refine ⟨h,fun hm => hn ?_⟩
  rw [h, hm]

/-- Taking a thread out leaves a sound pool when the state can be left. -/
theorem clear_sound (n : ℕ) (log : List (Finished op ρ ε σ))
    (h : Sound gated Inv Rest R G Post p) (hrest : p.gate = some n → Rest p.state)
    (hlog : ∀ f ∈ log, (∃ t, Post f.op f.start f.answer t) ∧ (gated f.op = true → Rest f.start)) :
    Sound gated Inv Rest R G Post { clear p n with log := log } := by
  refine ⟨h.inv,?_,?_,?_,hlog⟩
  · intro hg
    by_cases hn : p.gate = some n
    · exact hrest hn
    · have hc : (clear p n).gate = p.gate := if_neg hn
      exact h.rest (hc ▸ hg)
  · intro m th hm
    by_cases hmn : m = n
    · subst hmn
      simp [clear] at hm
    have hs : p.slots m = some th := by
      rw [← hm]
      exact (Function.update_of_ne hmn _ _).symm
    exact sound_thread_gate _ _ _ _ _ (h.threads m th hs) fun _ hg => clear_gate p n m hg hmn
  · intro m hm
    have hg := gate_clear p n m hm
    obtain ⟨th,hs,ho⟩ := h.holder m hg.1
    refine ⟨th,?_,ho⟩
    rw [← hs]
    exact Function.update_of_ne hg.2 _ _

theorem spawn_sound (d : Protocol prog gated Inv Rest R G Post) (p : Pool op ρ ε ι σ) (n : ℕ)
    (o : op) (h : Sound gated Inv Rest R G Post p) :
    Sound gated Inv Rest R G Post (advance prog gated p (.spawn n o)) := by
  by_cases hc : ((p.slots n).isNone && (!gated o || p.gate.isNone)) = true
  swap
  · have he : advance prog gated p (.spawn n o) = p := if_neg hc
    rw [he]
    exact h
  have he : advance prog gated p (.spawn n o) = { p with
      slots := Function.update p.slots n (some ⟨o,p.state,prog o⟩)
      gate := if gated o then some n else p.gate } := if_pos hc
  rw [he]
  rw [Bool.and_eq_true, Bool.or_eq_true] at hc
  have hnone : p.slots n = none := Option.isNone_iff_eq_none.mp hc.1
  have hfree : gated o = true → p.gate = none := by
    intro ho
    rw [ho] at hc
    simpa using hc.2
  refine ⟨h.inv,?_,?_,?_,h.answers⟩
  · intro hg
    by_cases ho : gated o = true
    · simp [ho] at hg
    · simp only [ho] at hg
      exact h.rest hg
  · intro m th hm
    by_cases hmn : m = n
    · subst hmn
      simp only [Function.update_self, Option.some.injEq] at hm
      subst hm
      refine ⟨d.op o p.state h.inv,fun ho => ⟨?_,h.rest (hfree ho)⟩⟩
      exact if_pos ho
    have hs : p.slots m = some th := by
      rw [← hm]
      exact (Function.update_of_ne hmn _ _).symm
    apply sound_thread_gate _ _ _ _ _ (h.threads m th hs)
    intro _ hg
    by_cases ho : gated o = true
    · rw [hfree ho] at hg
      cases hg
    · show (if gated o = true then some n else p.gate) = some m
      rw [if_neg ho]
      exact hg
  intro m hm
  by_cases ho : gated o = true
  · simp only [ho, if_true, Option.some.injEq] at hm
    subst hm
    exact ⟨_,Function.update_self _ _ _,ho⟩
  simp only [ho] at hm
  obtain ⟨th,hs,hgo⟩ := h.holder m hm
  have hmn : m ≠ n := by
    intro hmn
    rw [hmn, hnone] at hs
    cases hs
  refine ⟨th,?_,hgo⟩
  rw [← hs]
  exact Function.update_of_ne hmn _ _

theorem finish_sound (d : Protocol prog gated Inv Rest R G Post) (p : Pool op ρ ε ι σ) (n : ℕ)
    (th : Thread op ρ ε ι σ) (r : Except ε ρ) (h : Sound gated Inv Rest R G Post p)
    (hn : p.slots n = some th) (hp : Post th.op th.start r p.state) :
    Sound gated Inv Rest R G Post { clear p n with log := p.log++[⟨th.op,th.start,r⟩] } := by
  have hg := (h.threads n th hn).2
  apply clear_sound p n _ h
  · intro hgate
    have hgated := holder_gated p n th h hgate hn
    exact d.leaves th.op th.start r p.state hgated hp (hg hgated).2
  intro f hf
  rw [List.mem_append, List.mem_singleton] at hf
  rcases hf with hf | rfl
  · exact h.answers f hf
  · exact ⟨⟨p.state,hp⟩,fun ho => (hg ho).2⟩

theorem step_sound (d : Protocol prog gated Inv Rest R G Post) (p : Pool op ρ ε ι σ) (n : ℕ)
    (o : op) (start : σ) (act : ι → σ → σ) (next : ι → σ → Prog ε ι σ ρ) (i : ι)
    (h : Sound gated Inv Rest R G Post p) (hn : p.slots n = some ⟨o,start,.step act next⟩) :
    Sound gated Inv Rest R G Post { p with
      state := act i p.state
      slots := Function.update p.slots n (some ⟨o,start,next i p.state⟩) } := by
  have hth := h.threads n _ hn
  have hi := hth.1 p.state (d.refl o p.state) i
  refine ⟨?_,?_,?_,?_,h.answers⟩
  · rcases hi.1 with he | hg
    · show Inv (act i p.state)
      rw [he]
      exact h.inv
    · exact d.keeps o _ _ h.inv hg
  · intro hgate
    have hfree : gated o = false := by
      by_cases ho : gated o = true
      · have := (hth.2 ho).1
        rw [hgate] at this
        cases this
      · simpa using ho
    rcases hi.1 with he | hg
    · show Rest (act i p.state)
      rw [he]
      exact h.rest hgate
    · exact d.free o _ _ hfree h.inv hg (h.rest hgate)
  · intro m th hm
    by_cases hmn : m = n
    · subst hmn
      simp only [Function.update_self, Option.some.injEq] at hm
      subst hm
      exact ⟨hi.2,hth.2⟩
    have hs : p.slots m = some th := by
      rw [← hm]
      exact (Function.update_of_ne hmn _ _).symm
    have hm' := h.threads m th hs
    apply sound_thread_rely d _ _ _ _ _ hm'
    rcases hi.1 with he | hg
    · show R th.op p.state (act i p.state)
      rw [he]
      exact d.refl _ _
    apply d.compat o th.op _ _ _ h.inv hg
    by_cases ho : gated o = true
    · by_cases ht : gated th.op = true
      · have h1 := (hth.2 ho).1
        rw [(hm'.2 ht).1] at h1
        exact absurd (Option.some.inj h1) hmn
      · simp [ht]
    · simp [ho]
  · intro m hm
    by_cases hmn : m = n
    · subst hmn
      have hop : gated o = true := holder_gated p m _ h hm hn
      exact ⟨_,Function.update_self _ _ _,hop⟩
    obtain ⟨th,hs,hgo⟩ := h.holder m hm
    refine ⟨th,?_,hgo⟩
    rw [← hs]
    exact Function.update_of_ne hmn _ _

theorem advance_sound (d : Protocol prog gated Inv Rest R G Post) (p : Pool op ρ ε ι σ)
    (e : Event op ι) (h : Sound gated Inv Rest R G Post p) (ha : Allowed Rest p e) :
    Sound gated Inv Rest R G Post (advance prog gated p e) := by
  cases e with
  | spawn n o => exact spawn_sound d p n o h
  | drop n => exact clear_sound p n p.log h ha h.answers
  | crash =>
    refine ⟨h.inv,fun _ => ?_,fun n th hn => (by cases hn),fun n hn => (by cases hn),h.answers⟩
    by_cases hg : p.gate.isSome = true
    · exact ha hg
    · exact h.rest (by simpa using hg)
  | tick n i =>
    show Sound gated Inv Rest R G Post (match p.slots n with
      | none => p
      | some ⟨o,start,.ret r⟩ => { clear p n with log := p.log++[⟨o,start,.ok r⟩] }
      | some ⟨o,start,.fail e⟩ => { clear p n with log := p.log++[⟨o,start,.error e⟩] }
      | some ⟨o,start,.step act next⟩ =>
        { p with
          state := act i p.state
          slots := Function.update p.slots n (some ⟨o,start,next i p.state⟩) })
    match hn : p.slots n with
    | none => exact h
    | some ⟨o,start,.ret r⟩ =>
      exact finish_sound d p n _ (.ok r) h hn
        ((h.threads n _ hn).1 p.state (d.refl o p.state))
    | some ⟨o,start,.fail e⟩ =>
      exact finish_sound d p n _ (.error e) h hn
        ((h.threads n _ hn).1 p.state (d.refl o p.state))
    | some ⟨o,start,.step act next⟩ => exact step_sound d p n o start act next i h hn

theorem run_sound (d : Protocol prog gated Inv Rest R G Post) (p : Pool op ρ ε ι σ)
    (es : List (Event op ι)) (h : Sound gated Inv Rest R G Post p)
    (ho : Orderly prog gated Rest p es) : Sound gated Inv Rest R G Post (run prog gated p es) := by
  induction es generalizing p with
  | nil => exact h
  | cons e es ih => exact ih _ (advance_sound d p e h ho.1) ho.2

/-- Without a condition on stops every run is orderly. -/
theorem orderly_true (es : List (Event op ι)) :
    Orderly prog gated (fun _ => True) p es := by
  induction es generalizing p with
  | nil => trivial
  | cons e es ih =>
    refine ⟨?_,ih _⟩
    cases e <;> simp [Allowed]

variable (prog gated) in
theorem advance_state (e : Event op ι) (h : Sound gated Inv Rest R G Post p)
    (hrefl : ∀ o s, R o s s) : (advance prog gated p e).state = p.state ∨ ∃ o, G o p.state
    (advance prog gated p e).state := by
  cases e with
  | spawn n o =>
    by_cases hc : ((p.slots n).isNone && (!gated o || p.gate.isNone)) = true
    · simp [advance, hc]
    · simp [advance, hc]
  | drop n => exact Or.inl rfl
  | crash => exact Or.inl rfl
  | tick n i =>
    match hn : p.slots n with
    | none => simp [advance, hn]
    | some ⟨o,start,.ret r⟩ => simp [advance, hn, clear]
    | some ⟨o,start,.fail e⟩ => simp [advance, hn, clear]
    | some ⟨o,start,.step act next⟩ =>
      have hs : (advance prog gated p (.tick n i)).state = act i p.state := by
        simp [advance, hn]
      rw [hs]
      exact ((h.threads n _ hn).1 p.state (hrefl o p.state) i).1.imp id fun hg => ⟨o,hg⟩

/-- A property that every step keeps holds to the end of every run. -/
theorem run_stable (d : Protocol prog gated Inv Rest R G Post) (P : σ → Prop)
    (hstep : ∀ o a b, Inv a → G o a b → P a → P b) (p : Pool op ρ ε ι σ) (es : List (Event op ι))
    (h : Sound gated Inv Rest R G Post p) (ho : Orderly prog gated Rest p es) (hp : P p.state) : P
    (run prog gated p es).state := by
  induction es generalizing p with
  | nil => exact hp
  | cons e es ih =>
    apply ih _ (advance_sound d p e h ho.1) ho.2
    rcases advance_state prog gated p e h d.refl with he | hg
    · rw [he]
      exact hp
    · obtain ⟨o,hg⟩ := hg
      exact hstep o _ _ h.inv hg hp

end Sound

end Foundation.ThreadPool
