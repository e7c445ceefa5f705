import Mathlib.Data.Set.Insert
import AndaBrain.Foundation.Resumption

/-!
# A reader beside a running system

A reader takes its steps between the events of a system that goes on.
-/

set_option autoImplicit false

namespace Foundation.Observer
open Foundation.Resumption

variable {ε ι σ α β κ ev : Type}

section Rules
variable {R : σ → σ → Prop} {I : σ → Prop} {Q : α → Set σ → σ → Prop} {E : ε → Set σ → σ → Prop}
  {H : Set σ} {s : σ}

/-- A reader that changes nothing. It looks at states of `I` that the relation `R` leads
to from the last one it saw; `H` are the moments at which it has looked. -/
def Follows (R : σ → σ → Prop) (I : σ → Prop) (Q : α → Set σ → σ → Prop)
    (E : ε → Set σ → σ → Prop) : Prog ε ι σ α → Set σ → σ → Prop
  | .ret a, H, s => Q a H s
  | .fail e, H, s => E e H s
  | .step act next, H, s => ∀ t, R s t → I t → ∀ i,
      act i t = t ∧ Follows R I Q E (next i t) (insert t H) t

theorem follows_mono (p : Prog ε ι σ α) {Q' : α → Set σ → σ → Prop} {E' : ε → Set σ → σ → Prop}
    (h : Follows R I Q E p H s) (hq : ∀ a H s, Q a H s → Q' a H s)
    (he : ∀ e H s, E e H s → E' e H s) : Follows R I Q' E' p H s := by
  induction p generalizing H s with
  | ret a => exact hq a H s h
  | fail e => exact he e H s h
  | step act next ih =>
    intro t hr hi i
    exact ⟨(h t hr hi i).1,ih i t (h t hr hi i).2⟩

theorem follows_bind (p : Prog ε ι σ α) (f : α → Prog ε ι σ β) {Q' : β → Set σ → σ → Prop}
    (h : Follows R I (fun a H s => Follows R I Q' E (f a) H s) E p H s) :
    Follows R I Q' E (p >>= f) H s := by
  induction p generalizing H s with
  | ret a => exact h
  | fail e => exact h
  | step act next ih =>
    intro t hr hi i
    exact ⟨(h t hr hi i).1,ih i t (h t hr hi i).2⟩

theorem follows_lift (r : Except ε α) (h : ∀ a, r = .ok a → Q a H s)
    (he : ∀ e, r = .error e → E e H s) : Follows R I Q E (lift r : Prog ε ι σ α) H s := by
  cases r with
  | error e => exact he e rfl
  | ok a => exact h a rfl

theorem follows_query (f : ι → σ → Except ε α)
    (h : ∀ t, R s t → I t → ∀ i a, f i t = .ok a → Q a (insert t H) t)
    (he : ∀ t, R s t → I t → ∀ i e, f i t = .error e → E e (insert t H) t) :
    Follows R I Q E (query f) H s := by
  intro t hr hi i
  exact ⟨rfl,follows_lift _ (h t hr hi i) (he t hr hi i)⟩

theorem follows_attempt (p : Prog ε ι σ α) {Q' : Except ε α → Set σ → σ → Prop}
    (h : Follows R I (fun a => Q' (.ok a)) (fun e => Q' (.error e)) p H s) :
    Follows R I Q' E (attempt p) H s := by
  induction p generalizing H s with
  | ret a => exact h
  | fail e => exact h
  | step act next ih =>
    intro t hr hi i
    exact ⟨(h t hr hi i).1,ih i t (h t hr hi i).2⟩

theorem follows_refuse (c : Prop) [Decidable c] (e : ε) (f : Unit → Prog ε ι σ α) (he : c → E e H s)
    (h : ¬c → Follows R I Q E (f ()) H s) : Follows R I Q E (refuseIf c e >>= f) H s := by
  by_cases hc : c
  · rw [refuseIf, if_pos hc]
    exact he hc
  · rw [refuseIf, if_neg hc]
    exact h hc

theorem follows_silent (p : Prog ε ι σ α) (K : Set σ → σ → Prop) (hp : Silent p)
    (hmore : ∀ H s t, K H s → R s t → I t → K (insert t H) t) (hk : K H s) :
    Follows R I (fun _ H s => K H s) (fun _ H s => K H s) p H s := by
  induction p generalizing H s with
  | ret a => exact hk
  | fail e => exact hk
  | step act next ih =>
    intro t hr hi i
    exact ⟨(hp i t).1,ih i t (hp i t).2 (hmore H s t hk hr hi)⟩

theorem follows_rely (htrans : ∀ a b c, R a b → R b c → R a c)
    (hq : ∀ a H s t, Q a H s → R s t → Q a H t) (he : ∀ e H s t, E e H s → R s t → E e H t)
    (p : Prog ε ι σ α) (t : σ) (h : Follows R I Q E p H s) (hr : R s t) : Follows R I Q E p H t := by
  cases p with
  | ret a => exact hq a H s t h hr
  | fail e => exact he e H s t h hr
  | step act next => exact fun u hu hi => h u (htrans _ _ _ hr hu) hi

end Rules

def Finishes (P : α → Prop) : Prog ε ι σ α → Prop
  | .ret a => P a
  | .fail _ => True
  | .step _ next => ∀ i s, Finishes P (next i s)

section System
variable (state : κ → σ) (put : κ → σ → κ) (go : κ → ev → κ)

/-- One event: of the system, or a step of the reader with its answer. -/
def advance (x : κ × Prog ε ι σ α) : ev ⊕ ι → κ × Prog ε ι σ α
  | .inl e => (go x.1 e,x.2)
  | .inr i =>
    match x.2 with
    | .step act next => (put x.1 (act i (state x.1)),next i (state x.1))
    | p => (x.1,p)

def run (x : κ × Prog ε ι σ α) : List (ev ⊕ ι) → κ × Prog ε ι σ α
  | [] => x
  | e::es => run (advance state put go x e) es

def moments (x : κ × Prog ε ι σ α) : List (ev ⊕ ι) → Set σ
  | [] => {state x.1}
  | e::es => insert (state x.1) (moments (advance state put go x e) es)

variable {state put go} {Good : κ → Prop} {R : σ → σ → Prop} {I : σ → Prop}
  {Q : β → Set σ → Prop} {f : α → Prog ε ι σ β}

def OnTrack (Good : κ → Prop) (state : κ → σ) (R : σ → σ → Prop) (I : σ → Prop)
    (Q : β → Set σ → Prop) (f : α → Prog ε ι σ β) (H : Set σ) (x : κ × Prog ε ι σ β) : Prop :=
  (Good x.1 ∧ ∃ p, x.2 = p >>= f ∧
    Follows R I (fun a H _ => Finishes (fun b => Q b H) (f a)) (fun _ _ _ => True) p H (state x.1)) ∨
  Finishes (fun b => Q b H) x.2

theorem advance_on_track (htrans : ∀ a b c, R a b → R b c → R a c) (hrefl : ∀ a, R a a)
    (hput : ∀ c, put c (state c) = c) (hgood : ∀ c, Good c → I (state c))
    (hgo : ∀ c e, Good c → Good (go c e) ∧ R (state c) (state (go c e))) (H : Set σ)
    (x : κ × Prog ε ι σ β) (e : ev ⊕ ι) (h : OnTrack Good state R I Q f H x) : OnTrack Good state R
    I Q f (insert (state x.1) H) (advance state put go x e) ∨ OnTrack Good state R I Q f H
    (advance state put go x e) := by
  obtain ⟨c,q⟩ := x
  rcases h with ⟨hc,p,rfl,hp⟩ | hfin
  · cases e with
    | inl e =>
      right
      left
      exact ⟨(hgo c e hc).1,p,rfl,follows_rely htrans (fun _ _ _ _ h _ => h)
        (fun _ _ _ _ h _ => h) p _ hp (hgo c e hc).2⟩
    | inr i =>
      match p, hp with
      | .ret a, hp =>
        right
        right
        have hfin : Finishes (fun b => Q b H) (f a) := hp
        show Finishes _ (advance state put go (c,f a) (.inr i)).2
        cases hf : f a with
        | ret b =>
          rw [hf] at hfin
          exact hfin
        | fail e => trivial
        | step act next =>
          rw [hf] at hfin
          exact hfin i _
      | .fail e, _ =>
        right
        right
        trivial
      | .step act next, hp =>
        left
        left
        obtain ⟨hact,hnext⟩ := hp (state c) (hrefl _) (hgood c hc) i
        have hsame : put c (act i (state c)) = c := by rw [hact, hput]
        refine ⟨?_,next i (state c),rfl,?_⟩
        · show Good (put c (act i (state c)))
          rw [hsame]
          exact hc
        · show Follows _ _ _ _ _ _ (state (put c (act i (state c))))
          rw [hsame]
          exact hnext
  · right
    right
    match q, e, hfin with
    | q, .inl e, hfin => exact hfin
    | .ret b, .inr i, hfin => exact hfin
    | .fail e, .inr i, _ => trivial
    | .step act next, .inr i, hfin => exact hfin i (state c)

theorem run_on_track (htrans : ∀ a b c, R a b → R b c → R a c) (hrefl : ∀ a, R a a)
    (hput : ∀ c, put c (state c) = c) (hgood : ∀ c, Good c → I (state c))
    (hgo : ∀ c e, Good c → Good (go c e) ∧ R (state c) (state (go c e)))
    (hmono : ∀ b (H K : Set σ), H ⊆ K → Q b H → Q b K) (H : Set σ) (x : κ × Prog ε ι σ β)
    (es : List (ev ⊕ ι)) (b : β) (h : OnTrack Good state R I Q f H x)
    (hret : (run state put go x es).2 = .ret b) : Q b (H ∪ moments state put go x es) := by
  induction es generalizing H x with
  | nil =>
    have hx : x.2 = .ret b := hret
    apply hmono b H _ Set.subset_union_left
    rcases h with ⟨-,p,hp,hfollows⟩ | hfin
    · rw [hx] at hp
      cases p with
      | ret a =>
        have hfa : f a = .ret b := hp.symm
        have hfin : Finishes (fun b => Q b H) (f a) := hfollows
        rw [hfa] at hfin
        exact hfin
      | fail e => cases hp
      | step act next => cases hp
    · rw [hx] at hfin
      exact hfin
  | cons e es ih =>
    have hsub : ∀ K : Set σ, K ⊆ insert (state x.1) H →
        K ∪ moments state put go (advance state put go x e) es ⊆
          H ∪ moments state put go x (e::es) := by
      intro K hK t ht
      rcases ht with ht | ht
      · rcases hK ht with rfl | ht
        · exact Or.inr (Set.mem_insert _ _)
        · exact Or.inl ht
      · exact Or.inr (Set.mem_insert_of_mem _ ht)
    rcases advance_on_track htrans hrefl hput hgood hgo H x e h with h | h
    · exact hmono b _ _ (hsub _ (Set.Subset.refl _)) (ih _ _ h hret)
    · exact hmono b _ _ (hsub _ (Set.subset_insert _ _)) (ih _ _ h hret)

theorem now_moment (x : κ × Prog ε ι σ α) (es : List (ev ⊕ ι)) :
    state x.1 ∈ moments state put go x es := by
  cases es with
  | nil => exact Set.mem_singleton _
  | cons e es => exact Set.mem_insert _ _

/-- A reader leaves the system alone: every moment of its call is a state of the system
that leads to the one after the call. -/
theorem moments_lead (htrans : ∀ a b c, R a b → R b c → R a c) (hrefl : ∀ a, R a a)
    (hput : ∀ c, put c (state c) = c) (hgood : ∀ c, Good c → I (state c))
    (hgo : ∀ c e, Good c → Good (go c e) ∧ R (state c) (state (go c e)))
    (H : Set σ) (x : κ × Prog ε ι σ α) (es : List (ev ⊕ ι)) (hx : Good x.1)
    (h : Follows R I (fun _ _ _ => True) (fun _ _ _ => True) x.2 H (state x.1)) :
    Good (run state put go x es).1 ∧
      ∀ t ∈ moments state put go x es, I t ∧ R t (state (run state put go x es).1) := by
  induction es generalizing H x with
  | nil =>
    refine ⟨hx,?_⟩
    intro t ht
    rw [Set.mem_singleton_iff.mp ht]
    exact ⟨hgood _ hx,hrefl _⟩
  | cons e es ih =>
    have hstep : ∃ K, Good (advance state put go x e).1 ∧
        R (state x.1) (state (advance state put go x e).1) ∧
        Follows R I (fun _ _ _ => True) (fun _ _ _ => True) (advance state put go x e).2 K
          (state (advance state put go x e).1) := by
      obtain ⟨c,q⟩ := x
      cases e with
      | inl e =>
        exact ⟨H,(hgo c e hx).1,(hgo c e hx).2,follows_rely htrans (fun _ _ _ _ _ _ => trivial)
          (fun _ _ _ _ _ _ => trivial) q _ h (hgo c e hx).2⟩
      | inr i =>
        cases q with
        | ret a => exact ⟨H,hx,hrefl _,trivial⟩
        | fail e => exact ⟨H,hx,hrefl _,trivial⟩
        | step act next =>
          obtain ⟨hact,hnext⟩ := h (state c) (hrefl _) (hgood c hx) i
          have hsame : put c (act i (state c)) = c := by rw [hact, hput]
          refine ⟨insert (state c) H,?_,?_,?_⟩
          · show Good (put c (act i (state c)))
            rw [hsame]
            exact hx
          · show R (state c) (state (put c (act i (state c))))
            rw [hsame]
            exact hrefl _
          · show Follows _ _ _ _ _ _ (state (put c (act i (state c))))
            rw [hsame]
            exact hnext
    obtain ⟨K,hgood',hlead,hfollows⟩ := hstep
    obtain ⟨hend,hall⟩ := ih K _ hgood' hfollows
    refine ⟨hend,?_⟩
    intro t ht
    rcases ht with rfl | ht
    · exact ⟨hgood _ hx,htrans _ _ _ hlead (hall _ (now_moment _ es)).2⟩
    · exact hall t ht

end System

end Foundation.Observer
