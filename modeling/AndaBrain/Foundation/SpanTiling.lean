import Mathlib.Data.List.Chain

/-!
# Half-open spans that tile an interval

A list of spans tiles an interval when it runs through it without a gap or
an overlap and every span is non-empty. The cut points are required to lie
in an admissible set, so that a tiling of a text carries the statement that
no cut falls inside a character. Every operation that a segmentation pass
performs (append, close, merge two neighbours) is one rule below.
-/

set_option autoImplicit false

namespace Foundation.SpanTiling

abbrev Span := ℕ × ℕ

def Tiles (P : ℕ → Prop) : ℕ → List Span → ℕ → Prop
  | lo, [], hi => lo = hi
  | lo, s::rest, hi => s.1 = lo ∧ lo < s.2 ∧ P s.2 ∧ Tiles P s.2 rest hi

variable {P : ℕ → Prop}

theorem tiles_append (lo mid hi : ℕ) (ss rest : List Span)
    (h : Tiles P lo ss mid) (hr : Tiles P mid rest hi) : Tiles P lo (ss++rest) hi := by
  induction ss generalizing lo with
  | nil =>
    subst h
    exact hr
  | cons s ss ih => exact ⟨h.1,h.2.1,h.2.2.1,ih _ h.2.2.2⟩

variable (lo hi : ℕ) (ss : List Span)

theorem tiles_split (ss rest : List Span) (h : Tiles P lo (ss++rest) hi) :
    ∃ mid, Tiles P lo ss mid ∧ Tiles P mid rest hi := by
  induction ss generalizing lo with
  | nil => exact ⟨lo,rfl,h⟩
  | cons s ss ih =>
    obtain ⟨mid,hs,hr⟩ := ih _ h.2.2.2
    exact ⟨mid,⟨h.1,h.2.1,h.2.2.1,hs⟩,hr⟩

theorem tiles_one (hlt : lo < hi) (hp : P hi) : Tiles P lo [(lo,hi)] hi :=
  ⟨rfl,hlt,hp,rfl⟩

theorem tiles_end (h : Tiles P lo ss hi) (hp : P lo) : P hi := by
  induction ss generalizing lo with
  | nil =>
    subst h
    exact hp
  | cons s ss ih => exact ih _ h.2.2.2 h.2.2.1

/-- Two neighbours may always be replaced by the span that covers both. -/
theorem tiles_merge (a b : Span) (rest : List Span)
    (h : Tiles P lo (a::b::rest) hi) : Tiles P lo ((a.1,b.2)::rest) hi := by
  obtain ⟨ha,hlt,_,hb,hlt',hp,hr⟩ := h
  exact ⟨ha,by simp only at *; omega,hp,hr⟩

theorem tiles_nonempty (h : Tiles P lo ss hi) (hlt : lo < hi) : ss ≠ [] := by
  rintro rfl
  exact absurd h (Nat.ne_of_lt hlt)

theorem tiles_mem (h : Tiles P lo ss hi) (hp : P lo)
    (s : Span) (hs : s ∈ ss) : s.1 < s.2 ∧ P s.1 ∧ P s.2 := by
  induction ss generalizing lo with
  | nil => simp at hs
  | cons t ss ih =>
    obtain ⟨ht,hlt,hq,hr⟩ := h
    rcases List.mem_cons.mp hs with rfl | hs
    · exact ⟨ht ▸ hlt,ht ▸ hp,hq⟩
    · exact ih _ hr hq hs

theorem tiles_head (h : Tiles P lo ss hi) (s : Span) (hs : ss.head? = some s) : s.1 = lo := by
  cases ss with
  | nil => simp at hs
  | cons t ss =>
    obtain rfl : t = s := by simpa using hs
    exact h.1

theorem tiles_last (h : Tiles P lo ss hi) (s : Span) (hs : ss.getLast? = some s) : s.2 = hi := by
  obtain ⟨init,rfl⟩ := List.getLast?_eq_some_iff.mp hs
  obtain ⟨mid,_,hr⟩ := tiles_split lo hi init [s] h
  exact hr.2.2.2

theorem tiles_chain (h : Tiles P lo ss hi) :
    ss.IsChain (fun a b => a.2 = b.1) := by
  induction ss generalizing lo with
  | nil => exact List.IsChain.nil
  | cons s ss ih =>
    have hr := ih _ h.2.2.2
    cases ss with
    | nil => exact List.IsChain.singleton s
    | cons t ss => exact List.IsChain.cons_cons h.2.2.2.1.symm hr

end Foundation.SpanTiling
