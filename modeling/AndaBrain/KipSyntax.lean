import AndaBrain.Json
import Mathlib.Data.List.Basic

/-!
# The statements the model gates read

Commands as the parsers of the two deployments give them, with the members that a gate of `kip.rs`
or `kip.ts` looks at.
-/

set_option autoImplicit false

namespace AndaBrain.Kip

structure Identifier where
  text : String
  named : text ≠ ""
  deriving DecidableEq

abbrev Bindings := String → Option Json

inductive SymbolRef where
  | name (name : String)
  | param (name : Identifier)
  deriving DecidableEq

inductive Scalar where
  | literal (value : Json)
  | param (name : Identifier)
  deriving DecidableEq

/-- `composite` is an array or an object with a parameter in it. -/
inductive BoundValue where
  | value (value : Json)
  | param (name : Identifier)
  | composite
  deriving DecidableEq

/-- `other` is a variable, a field, an array with a parameter in it or a function call. -/
inductive MutationValue where
  | value (value : Json)
  | param (name : Identifier)
  | object (members : List (String × BoundValue))
  | other
  deriving DecidableEq

structure FacetAssignment where
  facet : SymbolRef
  values : List (String × MutationValue)
  deriving DecidableEq

structure FacetRemoval where
  facet : SymbolRef
  deriving DecidableEq

structure StructuralEdge where
  field : SymbolRef
  value : MutationValue
  deriving DecidableEq

/-- `other` sets fields, sets attributes or removes attributes. -/
inductive UpdateAction where
  | setFacet (assignment : FacetAssignment)
  | unsetFacet (removal : FacetRemoval)
  | setStructural (edges : List StructuralEdge)
  | unsetStructural (edges : List StructuralEdge)
  | other
  deriving DecidableEq

structure CreateConcept where
  setFacets : List FacetAssignment
  setStructural : Option (List StructuralEdge)
  deriving DecidableEq

structure UpsertConcept where
  setFacets : List FacetAssignment
  unsetFacets : List FacetRemoval
  setStructural : Option (List StructuralEdge)
  unsetStructural : Option (List StructuralEdge)
  deriving DecidableEq

structure CreateRecord where
  setFields : Option (List (String × MutationValue))
  setFacets : List FacetAssignment
  setStructural : Option (List StructuralEdge)
  deriving DecidableEq

abbrev WhereClause := String

structure Selection where
  whereClauses : Option (List WhereClause)
  limit : Option Scalar
  deriving DecidableEq

structure Transition extends Selection where
  toState : Scalar
  setStructural : Option (List StructuralEdge)
  deriving DecidableEq

structure Update extends Selection where
  actions : List UpdateAction
  deriving DecidableEq

structure SetRetention extends Selection where
  values : List (String × MutationValue)
  deriving DecidableEq

/-- The grammar gives this clause no `LIMIT`. -/
structure MergeConcept where
  whereClauses : Option (List WhereClause)
  deriving DecidableEq

inductive DefineKind where
  | conceptType
  | predicate
  deriving DecidableEq

structure DefineCommand where
  kind : DefineKind
  name : SymbolRef
  definition : List (String × BoundValue)
  deriving DecidableEq

inductive MutationClause where
  | createConcept (c : CreateConcept)
  | upsertConcept (c : UpsertConcept)
  | ensureProposition
  | createEvidence (c : CreateRecord)
  | createAssertion (c : CreateRecord)
  | createActivity (c : CreateRecord)
  | transition (t : Transition)
  | update (c : Update)
  | setRetention (c : SetRetention)
  | purge (c : Selection)
  | purgePayload (c : Selection)
  | mergeConcept (c : MergeConcept)
  | define (d : DefineCommand)
  deriving DecidableEq

structure KmlStatement where
  clauses : List MutationClause
  deriving DecidableEq

inductive Command where
  | kql
  | metaCommand
  | kml (statement : KmlStatement)
  deriving DecidableEq

structure Operation where
  command : String
  parameters : Option Bindings

/-- A request with what the gates read of it: `ingest` lists the keys of the captured Evidence. -/
structure Request where
  operations : List Operation
  parameters : Option Bindings
  ingest : Option (List String)
  requestId : Option String

/-! ## Parameters -/

/-- `parameters.and_then(|p| p.get(name))`. -/
def lookup (parameters : Option Bindings) (name : Identifier) : Option Json :=
  parameters.bind fun p => p name.text

/-- `Map::extend`: a key of the second map replaces the one of the first. -/
def extend (outer inner : Bindings) : Bindings := fun name => (inner name).or (outer name)

def ownParameters (request : Request) (index : ℕ) : Option Bindings :=
  request.operations[index]?.bind (·.parameters)

def operationParameters (request : Request) (index : ℕ) : Option Bindings :=
  match request.parameters, ownParameters request index with
  | none, none => none
  | outer, inner => some (extend (outer.getD fun _ => none) (inner.getD fun _ => none))

inductive Bound (request : Request) (index : ℕ) (name : Identifier) (value : Json) : Prop where
  | operation (inner : Bindings) (own : ownParameters request index = some inner)
      (bound : inner name.text = some value)
  | request (outer : Bindings)
      (free : ∀ inner, ownParameters request index = some inner → inner name.text = none)
      (shared : request.parameters = some outer) (bound : outer name.text = some value)

theorem lookup_iff (request : Request) (index : ℕ) (name : Identifier) (value : Json) : lookup
    (operationParameters request index) name = some value ↔ Bound request index name value := by
  constructor
  · intro h
    cases hi : ownParameters request index with
    | none =>
      cases ho : request.parameters with
      | none => simp [lookup, operationParameters, hi, ho] at h
      | some outer =>
        exact .request outer (by simp [hi]) ho
          (by simpa [lookup, operationParameters, hi, ho, extend] using h)
    | some inner =>
      cases hv : inner name.text with
      | some v =>
        have : v = value := by
          cases ho : request.parameters <;>
            simpa [lookup, operationParameters, hi, ho, extend, hv] using h
        exact .operation inner hi (this ▸ hv)
      | none =>
        cases ho : request.parameters with
        | none => simp [lookup, operationParameters, hi, ho, extend, hv] at h
        | some outer =>
          exact .request outer (by simp [hi, hv]) ho
            (by simpa [lookup, operationParameters, hi, ho, extend, hv] using h)
  · intro h
    cases h with
    | operation inner hi hv =>
      cases ho : request.parameters <;> simp [lookup, operationParameters, hi, ho, extend, hv]
    | request outer hno ho hv =>
      cases hi : ownParameters request index with
      | none => simp [lookup, operationParameters, hi, ho, extend, hv]
      | some inner => simp [lookup, operationParameters, hi, ho, extend, hv, hno inner hi]

inductive SymbolRef.Resolves (request : Request) (index : ℕ) : SymbolRef → String → Prop where
  | name (text : String) : Resolves request index (.name text) text
  | param (name : Identifier) (text : String) (bound : Bound request index name (.str text)) :
      Resolves request index (.param name) text

inductive Scalar.Resolves (request : Request) (index : ℕ) : Scalar → Json → Prop where
  | literal (value : Json) : Resolves request index (.literal value) value
  | param (name : Identifier) (value : Json) (bound : Bound request index name value) :
      Resolves request index (.param name) value

/-! ## Where a clause names facets and structural fields, and where it selects -/

inductive FacetAt : SymbolRef → MutationClause → Prop where
  | created (c : CreateConcept) (f : FacetAssignment) (h : f ∈ c.setFacets) :
      FacetAt f.facet (.createConcept c)
  | upserted (c : UpsertConcept) (f : FacetAssignment) (h : f ∈ c.setFacets) :
      FacetAt f.facet (.upsertConcept c)
  | upsertRemoved (c : UpsertConcept) (f : FacetRemoval) (h : f ∈ c.unsetFacets) :
      FacetAt f.facet (.upsertConcept c)
  | evidence (c : CreateRecord) (f : FacetAssignment) (h : f ∈ c.setFacets) :
      FacetAt f.facet (.createEvidence c)
  | assertion (c : CreateRecord) (f : FacetAssignment) (h : f ∈ c.setFacets) :
      FacetAt f.facet (.createAssertion c)
  | activity (c : CreateRecord) (f : FacetAssignment) (h : f ∈ c.setFacets) :
      FacetAt f.facet (.createActivity c)
  | updated (c : Update) (f : FacetAssignment) (h : .setFacet f ∈ c.actions) :
      FacetAt f.facet (.update c)
  | updateRemoved (c : Update) (f : FacetRemoval) (h : .unsetFacet f ∈ c.actions) :
      FacetAt f.facet (.update c)

inductive StructuralAt : SymbolRef → MutationClause → Prop where
  | created (c : CreateConcept) (edges : List StructuralEdge) (e : StructuralEdge)
      (hs : c.setStructural = some edges) (h : e ∈ edges) : StructuralAt e.field (.createConcept c)
  | upserted (c : UpsertConcept) (edges : List StructuralEdge) (e : StructuralEdge)
      (hs : c.setStructural = some edges) (h : e ∈ edges) : StructuralAt e.field (.upsertConcept c)
  | upsertRemoved (c : UpsertConcept) (edges : List StructuralEdge) (e : StructuralEdge)
      (hs : c.unsetStructural = some edges) (h : e ∈ edges) :
      StructuralAt e.field (.upsertConcept c)
  | evidence (c : CreateRecord) (edges : List StructuralEdge) (e : StructuralEdge)
      (hs : c.setStructural = some edges) (h : e ∈ edges) : StructuralAt e.field (.createEvidence c)
  | assertion (c : CreateRecord) (edges : List StructuralEdge) (e : StructuralEdge)
      (hs : c.setStructural = some edges) (h : e ∈ edges) :
      StructuralAt e.field (.createAssertion c)
  | activity (c : CreateRecord) (edges : List StructuralEdge) (e : StructuralEdge)
      (hs : c.setStructural = some edges) (h : e ∈ edges) : StructuralAt e.field (.createActivity c)
  | moved (t : Transition) (edges : List StructuralEdge) (e : StructuralEdge)
      (hs : t.setStructural = some edges) (h : e ∈ edges) : StructuralAt e.field (.transition t)
  | updated (c : Update) (edges : List StructuralEdge) (e : StructuralEdge)
      (hs : .setStructural edges ∈ c.actions) (h : e ∈ edges) : StructuralAt e.field (.update c)
  | updateRemoved (c : Update) (edges : List StructuralEdge) (e : StructuralEdge)
      (hs : .unsetStructural edges ∈ c.actions) (h : e ∈ edges) : StructuralAt e.field (.update c)

/-- The clause selects with patterns and its grammar has a place for `LIMIT`. -/
inductive Selects : MutationClause → List WhereClause → Option Scalar → Prop where
  | transition (t : Transition) (patterns : List WhereClause) (h : t.whereClauses = some patterns) :
      Selects (.transition t) patterns t.limit
  | update (c : Update) (patterns : List WhereClause) (h : c.whereClauses = some patterns) :
      Selects (.update c) patterns c.limit
  | setRetention (c : SetRetention) (patterns : List WhereClause)
      (h : c.whereClauses = some patterns) : Selects (.setRetention c) patterns c.limit
  | purge (c : Selection) (patterns : List WhereClause) (h : c.whereClauses = some patterns) :
      Selects (.purge c) patterns c.limit
  | purgePayload (c : Selection) (patterns : List WhereClause)
      (h : c.whereClauses = some patterns) : Selects (.purgePayload c) patterns c.limit

def EndsIn (name tail : String) : Prop :=
  name = tail ∨ ∃ head : List Char, name.toList = head++ '/'::tail.toList

end AndaBrain.Kip
