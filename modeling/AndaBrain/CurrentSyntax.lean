import AndaBrain.KipSyntax

/-!
# Patterns of a statement and the member `state`

The `WHERE` clauses, matchers and filter expressions of the grammar, with the places where a
statement can select by `state`.
-/

set_option autoImplicit false

namespace AndaBrain.CurrentMemory
open Kip (Scalar SymbolRef)

/-! ## Patterns -/

inductive Term where
  | variable (name : String)
  | scalar (value : Scalar)
  | array (items : List Term)
  | object (members : List (String × Term))
  | triple (subject : Term) (predicate : String) (target : Term)
  | byId (reference : Scalar)

abbrev ObjectMatcher := List (String × Term)

inductive Expression where
  | path (root : String) (steps : List String)
  | scalar (value : Scalar)
  | array (items : List Expression)
  | object (members : List (String × Expression))
  | call (function : String) (arguments : List Expression)
  | unary (operator : String) (operand : Expression)
  | binary (operator : String) (left right : Expression)

inductive WhereClause where
  | concept (name : String) (matcher : ObjectMatcher)
  | proposition (name : Option String) (tuple : Term)
  | assertion (name : String) (matcher : ObjectMatcher)
  | evidence (name : String) (matcher : ObjectMatcher)
  | activity (name : String) (matcher : ObjectMatcher)
  | structural (name : Option String) (source : Term) (field : SymbolRef) (target : Term)
  | belief (name : String) (operand : Term)
  | beliefSlot (name : String) (subject : Term) (predicate : String)
  | search (name kind : String) (text : Scalar)
  | filter (condition : Expression)
  | not (rows : List WhereClause)
  | optional (rows : List WhereClause)
  | union (rows : List WhereClause)

def WhereClause.block : WhereClause → List WhereClause
  | .not rows | .optional rows | .union rows => rows
  | _ => []

inductive Within (clause : WhereClause) : List WhereClause → Prop where
  | here (rows : List WhereClause) (h : clause ∈ rows) : Within clause rows
  | inside (rows : List WhereClause) (row : WhereClause) (h : row ∈ rows)
      (deep : Within clause row.block) : Within clause rows

/-! ## Where `state` is selected by -/

/-- `state` or a member under it. -/
def isState (key : String) : Bool := key = "state" || "state.".toList.isPrefixOf key.toList

mutual
/-- A pattern inside names `state` of an element; `element` says that the term itself is the
pattern of one. An object below a member of a matcher is a value of that member. -/
def Term.namesState (element : Bool) : Term → Bool
  | .object members => (element && members.any fun m => isState m.1) || membersNameState members
  | .array items => itemsNameState items
  | .triple subject _ target => subject.namesState true || target.namesState true
  | _ => false
def itemsNameState : List Term → Bool
  | [] => false
  | item::rest => item.namesState false || itemsNameState rest
def membersNameState : List (String × Term) → Bool
  | [] => false
  | (_, value)::rest => value.namesState false || membersNameState rest
end

mutual
def Expression.readsState : Expression → Bool
  | .path _ steps => steps.head?.any isState
  | .scalar _ => false
  | .array items => itemsReadState items
  | .object members => membersReadState members
  | .call _ arguments => itemsReadState arguments
  | .unary _ operand => operand.readsState
  | .binary _ left right => left.readsState || right.readsState
def itemsReadState : List Expression → Bool
  | [] => false
  | item::rest => item.readsState || itemsReadState rest
def membersReadState : List (String × Expression) → Bool
  | [] => false
  | (_, value)::rest => value.readsState || membersReadState rest
end

def WhereClause.matcher : WhereClause → ObjectMatcher
  | .concept _ m | .assertion _ m | .evidence _ m | .activity _ m => m
  | _ => []

def WhereClause.hidesState : WhereClause → Bool
  | .concept _ m | .assertion _ m | .evidence _ m | .activity _ m => membersNameState m
  | .proposition _ tuple => tuple.namesState true
  | .structural _ source _ target => source.namesState true || target.namesState true
  | .belief _ operand => operand.namesState true
  | .beliefSlot _ subject _ => subject.namesState true
  | .filter condition => condition.readsState
  | .search .. | .not _ | .optional _ | .union _ => false

def ObjectMatcher.keyed (m : ObjectMatcher) : Bool := m.any fun member => isState member.1

def WhereClause.constrainsState (clause : WhereClause) : Bool :=
  ObjectMatcher.keyed clause.matcher || clause.hidesState

example : isState "state.lifecycle" = true ∧ isState "statement" = false := by decide

end AndaBrain.CurrentMemory
