import Mathlib.Data.List.Basic

/-!
# Pages behind a cursor

A reader passes on the cursor of each page until a page comes without one.
-/

set_option autoImplicit false

namespace Foundation.CursorPages

variable {ε κ ι ω : Type}

/-- The pages of the calls from the `k`-th one on, up to the first without a next cursor, when
each is good. -/
inductive Follows (serve : ℕ → Option κ → Except ε (List ι × Option κ)) (Good : ℕ → List ι → Prop) :
    ℕ → Option κ → List (List ι) → Prop
  | last (k : ℕ) (c : Option κ) (items : List ι) (h : serve k c = .ok (items,none))
      (hgood : Good k items) : Follows serve Good k c [items]
  | next (k : ℕ) (c : Option κ) (c' : κ) (items : List ι) (pages : List (List ι))
      (h : serve k c = .ok (items,some c')) (hgood : Good k items)
      (hrest : Follows serve Good (k+1) (some c') pages) : Follows serve Good k c (items::pages)

structure Takes (Holds : Option κ → List ω → Prop) (visible : ω → Option ι) (left : List ω)
    (items : List ι) (next : Option κ) (taken rest : List ω) : Prop where
  split : left = taken++rest
  shown : items = taken.filterMap visible
  done : next = none → rest = []
  goes : ∀ c, next = some c → taken ≠ [] ∧ Holds (some c) rest

theorem follows_lossless (serve : ℕ → Option κ → Except ε (List ι × Option κ))
    (Good : ℕ → List ι → Prop) (Holds : ℕ → Option κ → List ω → Prop) (visible : ω → Option ι)
    (hserve : ∀ k c left, Holds k c left → ∃ items next taken rest, serve k c = .ok (items,next) ∧
      Good k items ∧ Takes (Holds (k+1)) visible left items next taken rest)
    (k : ℕ) (c : Option κ) (left : List ω) (h : Holds k c left) :
    ∃ pages, Follows serve Good k c pages ∧ pages.flatten = left.filterMap visible ∧
      pages.length ≤ left.length+1 := by
  induction hn : left.length using Nat.strongRecOn generalizing k c left with
  | ind n ih =>
    subst hn
    obtain ⟨items,next,taken,rest,hpage,hgood,ht⟩ := hserve k c left h
    have hsplit := ht.split
    have hshown := ht.shown
    cases next with
    | none =>
      have hrest := ht.done rfl
      exact ⟨[items],.last k c items hpage hgood,by simp [hsplit, hshown, hrest],by simp⟩
    | some c' =>
      obtain ⟨htaken,hholds⟩ := ht.goes c' rfl
      have hpos := List.length_pos_iff.2 htaken
      have hlen : left.length = taken.length+rest.length := by rw [hsplit, List.length_append]
      obtain ⟨pages,hfollows,hflat,hcount⟩ := ih rest.length (by omega) (k+1) (some c') rest hholds rfl
      refine ⟨items::pages,.next k c c' items pages hpage hgood hfollows,?_,?_⟩
      · rw [List.flatten_cons, hflat, hsplit, hshown, List.filterMap_append]
      · rw [List.length_cons]
        omega

end Foundation.CursorPages
