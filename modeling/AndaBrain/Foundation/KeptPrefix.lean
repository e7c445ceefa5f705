import Mathlib.Data.List.Basic

/-!
# A prefix that must answer for what it leaves out

A ranked list is cut to one of its prefixes; the entries that must stay come first. Something is
told of when the prefix has it, or when an entry that was cut answers for it. That every prefix
tells of it is a fact about one place of the list.
-/

set_option autoImplicit false

namespace Foundation.KeptPrefix

variable {α : Type*} (ranked : List α) (must : α → Bool) (is answers : α → Prop)

def required : ℕ := (ranked.takeWhile must).length

def Told (kept : ℕ) : Prop := (∃ a ∈ ranked.take kept, is a) ∨ ∃ x ∈ ranked.drop kept, answers x

/-- It stands somewhere and must stay there, or something from there on answers for it. -/
def Held : Prop :=
  ∃ (q : ℕ) (a : α), ranked[q]? = some a ∧ is a ∧
    (must a = true ∨ ∃ x ∈ ranked.drop q, answers x)

theorem required_le_length : required ranked must ≤ ranked.length :=
  (List.takeWhile_prefix must).length_le

theorem required_le (q : ℕ) (a : α) (ha : ranked[q]? = some a) (hopt : must a = false) :
    required ranked must ≤ q := by
  induction ranked generalizing q with
  | nil => simp at ha
  | cons b rest ih =>
    by_cases hb : must b = true
    · have hc : required (b::rest) must = required rest must + 1 := by simp [required, hb]
      cases q with
      | zero =>
        rw [List.getElem?_cons_zero, Option.some.injEq] at ha
        rw [ha, hopt] at hb
        cases hb
      | succ q =>
        rw [List.getElem?_cons_succ] at ha
        have hle := ih q ha
        omega
    · have hc : required (b::rest) must = 0 := by simp [required, hb]
      omega

theorem mem_drop_of_le (p q : ℕ) (a : α) (ha : ranked[q]? = some a) (h : p ≤ q) :
    a ∈ ranked.drop p := by
  apply List.mem_of_getElem? (i := q-p)
  rw [List.getElem?_drop, Nat.add_sub_cancel' h]
  exact ha

theorem mem_take_of_lt (p q : ℕ) (a : α) (ha : ranked[q]? = some a) (h : q < p) :
    a ∈ ranked.take p := by
  apply List.mem_of_getElem? (i := q)
  rw [List.getElem?_take_of_lt h]
  exact ha

theorem lt_of_mem_take (p : ℕ) (a : α) (h : a ∈ ranked.take p) :
    ∃ q < p, ranked[q]? = some a := by
  obtain ⟨q,hq⟩ := List.mem_iff_getElem?.mp h
  rw [List.getElem?_take] at hq
  by_cases hlt : q < p
  · rw [if_pos hlt] at hq
    exact ⟨q,hlt,hq⟩
  · rw [if_neg hlt] at hq
    cases hq

theorem told_of_held (hopt : ∀ x ∈ ranked.drop (required ranked must), must x = false)
    (h : Held ranked must is answers) (kept : ℕ) (hlo : required ranked must ≤ kept) :
    Told ranked is answers kept := by
  obtain ⟨q,a,ha,his,hanswer⟩ := h
  by_cases hkept : q < kept
  · exact .inl ⟨a,mem_take_of_lt ranked kept q a ha hkept,his⟩
  have hq : kept ≤ q := Nat.le_of_not_lt hkept
  rcases hanswer with hmust | ⟨x,hx,hans⟩
  · have hno := hopt a (mem_drop_of_le ranked _ q a ha (Nat.le_trans hlo hq))
    rw [hmust] at hno
    cases hno
  · exact .inr ⟨x,(List.drop_sublist_drop_left ranked hq).subset hx,hans⟩

/-- Every admissible prefix tells of it if and only if it is held. -/
theorem told_iff_held (hopt : ∀ x ∈ ranked.drop (required ranked must), must x = false)
    (honce : ranked.Pairwise fun a b => ¬(is a ∧ is b)) :
    (∀ kept, required ranked must ≤ kept → kept ≤ ranked.length → Told ranked is answers kept) ↔
      Held ranked must is answers := by
  refine ⟨fun h => ?_,fun h kept hlo _ => told_of_held ranked must is answers hopt h kept hlo⟩
  -- The whole list has it, at one place. Cutting there leaves it out.
  obtain ⟨a,ha,his⟩ : ∃ a ∈ ranked, is a := by
    have hall := h ranked.length (required_le_length ranked must) (Nat.le_refl _)
    simpa [Told] using hall
  obtain ⟨q,hq⟩ := List.mem_iff_getElem?.mp ha
  refine ⟨q,a,hq,his,?_⟩
  by_cases hmust : must a = true
  · exact .inl hmust
  right
  have hlo := required_le ranked must q a hq (by simpa using hmust)
  have hlen := (List.getElem?_eq_some_iff.mp hq).1
  rcases h q hlo (Nat.le_of_lt hlen) with ⟨b,hb,hisb⟩ | hanswer
  · obtain ⟨p,hlt,hp⟩ := lt_of_mem_take ranked q b hb
    obtain ⟨hplen,hpb⟩ := List.getElem?_eq_some_iff.mp hp
    have hno := List.pairwise_iff_getElem.mp honce p q hplen hlen hlt
    rw [hpb, (List.getElem?_eq_some_iff.mp hq).2] at hno
    exact absurd ⟨hisb,his⟩ hno
  · exact hanswer

end Foundation.KeptPrefix
