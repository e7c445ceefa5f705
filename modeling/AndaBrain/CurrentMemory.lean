import AndaBrain.CurrentSyntax

/-!
# Automatic reads after a managed change

`current_request` of `product/control.rs` and `assertCurrentOperations` of `product.ts`: both walk
the clauses of every statement and refuse what names `state`, an earlier sequence, a history
command or an old page.
-/

set_option autoImplicit false

namespace AndaBrain.CurrentMemory
open Kip (Scalar SymbolRef Bindings Operation lookup)

/-! ## Statements -/

structure KqlQuery where
  whereClauses : List WhereClause
  asOf : Option Scalar
  cursor : Option Scalar

structure Search where
  asOfSeq : Option Scalar
  cursor : Option Scalar

inductive DescribeTarget where
  | transaction (reference : Scalar)
  | transactionByIdempotencyKey (key : Scalar)
  | capsule (reference : Scalar)
  | other

/-- What a `VERIFY`, `VALIDATE` or `PREVIEW` is about. -/
inductive Artifact where
  | capsule
  | other
  deriving DecidableEq

inductive MetaCommand where
  | describe (target : DescribeTarget)
  | list (cursor : Option Scalar)
  | search (search : Search)
  | verify (artifact : Artifact)
  | validate (artifact : Artifact)
  | preview (artifact : Artifact)
  | history (cursor : Option Scalar)
  | changes (since : Scalar)
  | exportCapsule (whereClauses : List WhereClause)

/-- `other` creates, ensures, asserts or defines: its grammar has no `WHERE` and no `MATCH`. -/
inductive MutationClause where
  | upsertConcept (matcher : Option ObjectMatcher)
  | update (whereClauses : Option (List WhereClause))
  | transition (whereClauses : Option (List WhereClause))
  | setRetention (whereClauses : Option (List WhereClause))
  | purge (whereClauses : Option (List WhereClause))
  | purgePayload (whereClauses : Option (List WhereClause))
  | mergeConcept (whereClauses : Option (List WhereClause))
  | other

inductive Command where
  | kql (query : KqlQuery)
  | metaCommand (command : MetaCommand)
  | kml (clauses : List MutationClause)

structure Read where
  snapshotToken : Option String
  extensions : Option Json

structure Request where
  read : Option Read
  parameters : Option Bindings
  operations : List Operation

/-- `snapshot` is the sequence a page token is bound to. `continues` says that it is a token of
the query family and of this very traversal. -/
structure Engine where
  parse : String → Except String Command
  snapshot : String → Option ℕ
  continues : String → KqlQuery → Option Bindings → Option Bindings → Bool

def Engine.fromToken (engine : Engine) (token : String) (query : KqlQuery)
    (shared own : Option Bindings) : Except String ℕ :=
  match engine.snapshot token with
  | some seq => if engine.continues token query shared own then .ok seq else .error "CursorMismatch"
  | none => .error "InvalidCursor"

/-! ## The gate of `product/control.rs` -/

mutual
def clauses : List WhereClause → Bool
  | [] => true
  | row::rest => rowActive row && clauses rest
def rowActive : WhereClause → Bool
  | .concept _ matcher | .assertion _ matcher | .evidence _ matcher | .activity _ matcher =>
    !matcher.any fun member => isState member.1
  | .not rows | .optional rows | .union rows => clauses rows
  | _ => true
end

/-- The token a cursor stands for: a binding of the operation before one of the request. -/
def tokenOf (shared own : Option Bindings) : Scalar → Option String
  | .literal (.str token) => some token
  | .literal _ => none
  | .param name =>
    match (lookup own name).or (lookup shared name) with
    | some (.str token) => some token
    | _ => none

def currentCursor (engine : Engine) (query : KqlQuery) (shared own : Option Bindings)
    (readFloor : ℕ) : Except String Bool :=
  match query.cursor with
  | none => .ok true
  | some cursor =>
    match tokenOf shared own cursor with
    | none => .error "invalid memory pagination cursor"
    | some token => (engine.fromToken token query shared own).map fun seq => readFloor ≤ seq

/-- `Option::is_none_or` on the clauses of a mutation. -/
def noneOrActive (rows : Option (List WhereClause)) : Bool := rows.all clauses

def MutationClause.current : MutationClause → Bool
  | .upsertConcept matcher => matcher.all fun m => !m.any fun member => member.1 = "state"
  | .update rows => noneOrActive rows
  | .transition rows => noneOrActive rows
  | .setRetention rows => noneOrActive rows
  | .purge rows => noneOrActive rows
  | .purgePayload rows => noneOrActive rows
  | .mergeConcept rows => noneOrActive rows
  | .other => true

/-- The value of `current` in the loop over the operations. -/
def current (engine : Engine) (shared own : Option Bindings) (readFloor : ℕ) :
    Command → Except String Bool
  | .kql query =>
    if query.asOf.isNone && clauses query.whereClauses then
      currentCursor engine query shared own readFloor
    else .ok false
  | .metaCommand (.search search) => .ok search.asOfSeq.isNone
  | .kml statement => .ok (statement.all MutationClause.current)
  | .metaCommand (.history _) | .metaCommand (.changes _) | .metaCommand (.exportCapsule _)
  | .metaCommand (.describe (.transaction _))
  | .metaCommand (.describe (.transactionByIdempotencyKey _))
  | .metaCommand (.describe (.capsule _)) => .ok false
  | _ => .ok true

def currentOperations (engine : Engine) (shared : Option Bindings) (readFloor : ℕ) :
    List (Command × Operation) → Except String Unit
  | [] => .ok ()
  | (command, operation)::rest => do
    if ← current engine shared operation.parameters readFloor command then
      currentOperations engine shared readFloor rest
    else .error "historical or inactive memory access is disabled after a managed change"

def currentRequest (engine : Engine) (request : Request) (readFloor : ℕ) : Except String Unit :=
  if request.read.any fun read => read.snapshotToken.isSome || read.extensions.isSome then
    .error "historical memory access is disabled after a managed change"
  else do
    let commands ← request.operations.mapM fun operation => engine.parse operation.command
    currentOperations engine request.parameters readFloor (commands.zip request.operations)

/-! ## The gate of `product.ts` -/

def activeMatcher (matcher : Option ObjectMatcher) : Except String Unit :=
  match matcher with
  | some m =>
    if m.any fun member => isState member.1 then .error "inactive_memory_disabled" else .ok ()
  | none => .ok ()

mutual
def activeClauses : List WhereClause → Except String Unit
  | [] => .ok ()
  | clause::rest => do
    activeClause clause
    activeClauses rest
def activeClause : WhereClause → Except String Unit
  | .not rows => activeClauses rows
  | .optional rows => activeClauses rows
  | .union rows => activeClauses rows
  | .concept _ matcher => activeMatcher (some matcher)
  | .assertion _ matcher => activeMatcher (some matcher)
  | .evidence _ matcher => activeMatcher (some matcher)
  | .activity _ matcher => activeMatcher (some matcher)
  | _ => .ok ()
end

/-- `body.where_clauses` of the clause, whichever it is. -/
def MutationClause.whereClauses : MutationClause → Option (List WhereClause)
  | .update rows | .transition rows | .setRetention rows | .purge rows | .purgePayload rows
  | .mergeConcept rows => rows
  | .upsertConcept _ | .other => none

def MutationClause.matcher : MutationClause → Option ObjectMatcher
  | .upsertConcept matcher => matcher
  | _ => none

def assertClause (clause : MutationClause) : Except String Unit := do
  activeMatcher clause.matcher
  match clause.whereClauses with
  | some rows => activeClauses rows
  | none => .ok ()

def assertClauses : List MutationClause → Except String Unit
  | [] => .ok ()
  | clause::rest => do
    assertClause clause
    assertClauses rest

/-- One turn of the loop. A scalar of the parser is an object, so `||` asks whether it is there. -/
def assertCommand : Command → Except String Unit
  | .kql query =>
    if query.asOf.isSome || query.cursor.isSome then .error "historical_memory_disabled"
    else activeClauses query.whereClauses
  | .metaCommand (.search search) =>
    if search.asOfSeq.isSome || search.cursor.isSome then .error "historical_memory_disabled"
    else .ok ()
  | .metaCommand _ => .error "historical_memory_disabled"
  | .kml statement => assertClauses statement

def assertCurrentOperations (engine : Engine) : List Operation → Except String Unit
  | [] => .ok ()
  | operation::rest => do
    let command ← engine.parse operation.command
    assertCommand command
    assertCurrentOperations engine rest

end AndaBrain.CurrentMemory
