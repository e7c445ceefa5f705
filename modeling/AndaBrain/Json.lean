import Mathlib.Algebra.Order.Field.Rat

/-!
# JSON values and floating-point numbers as the program sees them

The program never computes with floats: it tests them for finiteness and compares them. A float is
therefore its place in the order, or no number.
-/

set_option autoImplicit false

namespace AndaBrain

inductive F64 where
  | nan
  | negInf
  | finite (value : ℚ)
  | posInf
  deriving DecidableEq, Repr

def F64.isFinite : F64 → Bool
  | .finite _ => true
  | _ => false

def F64.partialCmp : F64 → F64 → Option Ordering
  | .nan, _ => none
  | _, .nan => none
  | .finite a, .finite b => some (compare a b)
  | .negInf, .negInf => some .eq
  | .posInf, .posInf => some .eq
  | .negInf, _ => some .lt
  | _, .negInf => some .gt
  | .posInf, _ => some .gt
  | _, .posInf => some .lt

inductive Json where
  | null
  | bool (b : Bool)
  | int (n : ℤ)
  | float (x : F64)
  | str (s : String)
  | arr (items : List Json)
  | obj (fields : List (String × Json))
  deriving Repr

namespace Json

def asObject : Json → Option (List (String × Json))
  | .obj fields => some fields
  | _ => none

def get (j : Json) (key : String) : Option Json :=
  j.asObject.bind (fun fields => (fields.find? (fun f => f.1 == key)).map Prod.snd)

def index (j : Json) (key : String) : Json := (j.get key).getD .null

def asStr : Json → Option String
  | .str s => some s
  | _ => none

def asArray : Json → Option (List Json)
  | .arr items => some items
  | _ => none

def asU64 : Json → Option ℕ
  | .int n => if 0 ≤ n then some n.toNat else none
  | _ => none

def isStr (j : Json) (s : String) : Bool := j.asStr == some s

mutual
def same : Json → Json → Bool
  | .null, .null => true
  | .bool a, .bool b => a == b
  | .int a, .int b => a == b
  | .float a, .float b => a == b
  | .str a, .str b => a == b
  | .arr as, .arr bs => sameItems as bs
  | .obj as, .obj bs => sameFields as bs
  | _, _ => false

def sameItems : List Json → List Json → Bool
  | [], [] => true
  | a::as, b::bs => same a b && sameItems as bs
  | _, _ => false

def sameFields : List (String × Json) → List (String × Json) → Bool
  | [], [] => true
  | (k,a)::as, (l,b)::bs => k == l && same a b && sameFields as bs
  | _, _ => false
end

mutual
theorem same_iff (a b : Json) : same a b = true ↔ a = b := by
  cases a with
  | arr as =>
    cases b with
    | arr bs => simp [same, same_items_iff as bs]
    | _ => simp [same]
  | obj as =>
    cases b with
    | obj bs => simp [same, same_fields_iff as bs]
    | _ => simp [same]
  | _ => cases b <;> simp [same]

theorem same_items_iff (as bs : List Json) : sameItems as bs = true ↔ as = bs := by
  cases as with
  | nil => cases bs <;> simp [sameItems]
  | cons a as =>
    cases bs with
    | nil => simp [sameItems]
    | cons b bs => simp [sameItems, same_iff a b, same_items_iff as bs]

theorem same_fields_iff (as bs : List (String × Json)) : sameFields as bs = true ↔ as = bs := by
  cases as with
  | nil => cases bs <;> simp [sameFields]
  | cons a as =>
    obtain ⟨k,a⟩ := a
    cases bs with
    | nil => simp [sameFields]
    | cons b bs =>
      obtain ⟨l,b⟩ := b
      simp [sameFields, same_iff a b, same_fields_iff as bs]
end

instance : DecidableEq Json := fun a b => decidable_of_iff _ (same_iff a b)

end Json

end AndaBrain
