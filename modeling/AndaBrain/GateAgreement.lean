import Mathlib
import AndaBrain.WorkerGate

/-!
# Where the two write policies agree

The gates of the two deployments read one statement alike but for a few shapes: a `LIMIT` of zero
or bound to a number with a point, a strength base on a record, and a handle that no message has.
-/

set_option autoImplicit false

namespace AndaBrain.GateAgreement
open Kip Foundation.Utf8Text

/-- `msg1` to `msg16`, the handles of the messages one pass captures. -/
def capturedHandles : List String := (List.range 16).map fun i => "msg"++toString (i+1)

def badName (guarded : List String) (parameters : Option Bindings) (symbol : SymbolRef) : Bool :=
  match symbol.resolve parameters with
  | none => true
  | some name => guarded.contains (localName name)

def badNames (parameters : Option Bindings) (clause : MutationClause) : Bool :=
  (facetsOf clause).any (badName protectedFacets parameters) ||
    (structuralOf clause).any (badName protectedStructural parameters)

def bareBase (parameters : Option Bindings) (assignment : FacetAssignment) : Bool :=
  isMnemonic parameters assignment && baseWithoutPin assignment

/-- The facets that Evidence, Assertions and Activities are created with. -/
def recordFacets : MutationClause → List FacetAssignment
  | .createEvidence c | .createAssertion c | .createActivity c => c.setFacets
  | _ => []

/-- What stands in a `LIMIT` slot: an integer up to the bound, zero, such an integer written
with a point, or anything else. -/
inductive LimitKind where
  | short
  | zero
  | pointed
  | wide
  deriving DecidableEq

def limitKind : Option Json → LimitKind
  | some (.int n) => if n = 0 then .zero else if 0 < n ∧ n ≤ 20 then .short else .wide
  | some (.float (.finite q)) => if q.den = 1 ∧ 0 < q.num ∧ q.num ≤ 20 then .pointed else .wide
  | _ => .wide

def limitValue (limit : Option Scalar) (parameters : Option Bindings) : Option Json :=
  match limit with
  | none => none
  | some (.literal value) => some value
  | some (.param name) => lookup parameters name

def selecting : MutationClause → Option Selection
  | .transition t => some t.toSelection
  | .update c => some c.toSelection
  | .setRetention c => some c.toSelection
  | .purge c | .purgePayload c => some c
  | _ => none

/-- The clause selects with patterns, and this is what its `LIMIT` holds. -/
def limitIs (kind : LimitKind) (parameters : Option Bindings) (clause : MutationClause) : Bool :=
  (selecting clause).any fun selection => selection.whereClauses.getD [] ≠ [] &&
    limitKind (limitValue selection.limit parameters) == kind

/-- An Assertion that cites a captured handle and is undated. -/
def undatedClaim : MutationClause → Bool
  | .createAssertion r => citesCapture capturedHandles.contains r && undatedBy (firstField r)
  | _ => false

/-- An undated Assertion whose only `msg` handles are ones that no message has. -/
def strayClaim : MutationClause → Bool
  | .createAssertion r => citesCapture Worker.captured r &&
    !citesCapture capturedHandles.contains r && undatedBy (firstField r)
  | _ => false

/-- No Assertion assigns one field twice. -/
def Single (clause : MutationClause) : Prop :=
  ∀ record, clause = .createAssertion record → ((record.setFields.getD []).map (·.1)).Nodup

/-- A clause that is not cognition, whatever its names and its limit. -/
def uncognitive (parameters : Option Bindings) : MutationClause → Bool
  | .createConcept _ | .upsertConcept _ | .ensureProposition | .createEvidence _
  | .createAssertion _ | .createActivity _ => false
  | .transition t => !(transitionStateOf t parameters).any cognitiveTransitions.contains
  | .define d =>
    match d.name with
    | .name name => !(isSymbolName d.kind name && d.definition.all (·.2.isLiteral))
    | .param _ => true
  | _ => true

def uncustodial : MutationClause → Bool
  | .define _ | .purge _ | .purgePayload _ => true
  | .setRetention c => c.values.any (·.1 == "legal_hold")
  | _ => false

/-! ## Names and values -/

theorem local_name_eq (name : String) : Worker.localName name = localName name := by
  have hlast : ∀ text : List Char, text.drop (text.length - text.reverse.findIdx (· = '/')) =
      text.rtakeWhile (· ≠ '/') := by
    intro text
    rw [List.rtakeWhile, List.takeWhile_eq_take_findIdx_not, List.reverse_take]
    simp
  simp [Worker.localName, localName, hlast]

theorem resolve_str (parameters : Option Bindings) (symbol : SymbolRef) :
    symbol.resolve parameters = (Worker.resolve parameters symbol).bind Json.asStr := by
  cases symbol <;> rfl

theorem rust_name (unresolved reason : String) (guarded : List String)
    (parameters : Option Bindings) (symbol : SymbolRef) :
    (nameRefusal unresolved reason guarded parameters symbol).isSome = badName guarded parameters
    symbol := by
  cases h : symbol.resolve parameters with
  | none => simp [nameRefusal, badName, h]
  | some name => by_cases hg : localName name ∈ guarded <;> simp [nameRefusal, badName, h, hg]

theorem worker_name (unresolved reason : String) (guarded : List String)
    (parameters : Option Bindings) (symbol : SymbolRef) :
    (Worker.assertName unresolved reason guarded parameters symbol).isSome = badName guarded
    parameters symbol := by
  cases h : Worker.resolve parameters symbol with
  | none => simp [Worker.assertName, badName, resolve_str, h]
  | some value =>
    cases value with
    | str name =>
      by_cases hg : localName name ∈ guarded <;>
        simp [Worker.assertName, badName, resolve_str, h, Json.asStr, local_name_eq, hg]
    | _ => simp [Worker.assertName, badName, resolve_str, h, Json.asStr]

variable (clause : MutationClause)

theorem facets_eq : Worker.facets (Worker.bodyOf clause) = facetsOf clause := by
  cases clause with
  | update c =>
    simp only [Worker.facets, Worker.bodyOf, Worker.emptyBody, facetsOf, Option.getD_none,
      Option.getD_some, List.map_nil, List.nil_append, List.filterMap_eq_flatMap_toList]
    congr 1
    funext action
    cases action <;> rfl
  | _ => simp [Worker.facets, Worker.bodyOf, Worker.emptyBody, facetsOf]

theorem structural_eq : Worker.structural (Worker.bodyOf clause) = structuralOf clause := by
  cases clause with
  | update c =>
    exact List.nil_append _
  | _ => simp [Worker.structural, Worker.bodyOf, Worker.emptyBody, structuralOf, fieldsOf]

theorem assignments_eq :
    Worker.assignments (Worker.bodyOf clause) = assignmentsOf clause++recordFacets clause := by
  cases clause with
  | update c =>
    simp only [Worker.assignments, Worker.bodyOf, Worker.emptyBody, assignmentsOf, recordFacets,
      Option.getD_none, Option.getD_some, List.nil_append, List.append_nil,
      List.filterMap_eq_flatMap_toList]
    congr 1
    funext action
    cases action <;> rfl
  | _ => simp [Worker.assignments, Worker.bodyOf, Worker.emptyBody, assignmentsOf, recordFacets]

theorem transition_state_eq (t : Transition) (parameters : Option Bindings) :
    Worker.transitionState t.toState parameters = transitionStateOf t parameters := by
  cases h : t.toState with
  | literal value => cases value <;> simp [Worker.transitionState, transitionStateOf, h, Json.asStr]
  | param p =>
    simp only [Worker.transitionState, transitionStateOf, h]
    cases lookup parameters p with
    | none => rfl
    | some value => cases value <;> rfl

/-! ## Symbol names -/

theorem ascii_sizes (c : Char) (h : c.isAlphanum = true ∨ c = '_') :
    c.utf8Size = 1 ∧ c.toNat < 0x10000 := by
  have hsmall : c.toNat < 128 := by
    rcases h with h | rfl
    · simp only [Char.isAlphanum, Char.isAlpha, Char.isUpper, Char.isLower, Char.isDigit,
        Bool.or_eq_true, Bool.and_eq_true, decide_eq_true_eq, UInt32.le_iff_toNat_le, ge_iff_le] at h
      change ((65 ≤ c.toNat ∧ c.toNat ≤ 90) ∨ (97 ≤ c.toNat ∧ c.toNat ≤ 122)) ∨
        (48 ≤ c.toNat ∧ c.toNat ≤ 57) at h
      omega
    · decide
  refine ⟨?_,by omega⟩
  have : c.val ≤ 0x7f := by
    rw [UInt32.le_iff_toNat_le]
    exact Nat.le_of_lt_succ hsmall
  simp [Char.utf8Size, this]

theorem text_sizes (text : List Char) (h : ∀ c ∈ text, c.isAlphanum = true ∨ c = '_') :
    byteLen text = text.length ∧
      (text.map fun c => if c.toNat < 0x10000 then 1 else 2).sum = text.length := by
  induction text with
  | nil => simp [byteLen]
  | cons c rest ih =>
    obtain ⟨h1,h2⟩ := ascii_sizes c (h c (by simp))
    obtain ⟨i1,i2⟩ := ih fun d hd => h d (by simp [hd])
    simp only [byteLen, List.map_cons, List.sum_cons, List.length_cons, h1, i1, i2, if_pos h2]
    omega

theorem measured_eq (name : String) (c : Char) (rest : List Char) (hn : name.toList = c::rest)
    (h : ∀ d ∈ c::rest, d.isAlphanum = true ∨ d = '_') :
    (Worker.textLength name == 0 || decide (maxSymbolChars < Worker.textLength name)) = !decide
    (byteLen name.toList ≤ maxSymbolChars) := by
  obtain ⟨h1,h2⟩ := text_sizes (c::rest) h
  have ht : Worker.textLength name = rest.length+1 := by
    rw [Worker.textLength, hn, h2, List.length_cons]
  rw [ht, hn, h1, List.length_cons, maxSymbolChars]
  by_cases hle : rest.length+1 ≤ 64
  · simp [hle, show ¬ 64 < rest.length+1 by omega]
  · simp [hle, show 64 < rest.length+1 by omega]

theorem symbol_name_eq (kind : DefineKind) (name : String) :
    Worker.isSymbolName kind name = isSymbolName kind name := by
  cases hn : name.toList with
  | nil => cases kind <;> simp [Worker.isSymbolName, isSymbolName, isTypeName, isPredicateName, hn]
  | cons c rest =>
    cases kind with
    | conceptType =>
      by_cases hall : c.isUpper = true ∧ rest.all Char.isAlphanum = true
      · have hc : c.isAlphanum = true := by simp [Char.isAlphanum, Char.isAlpha, hall.1]
        have hm := measured_eq name c rest hn (by
          intro d hd
          rcases List.mem_cons.1 hd with rfl | hd
          · exact .inl hc
          · exact .inl (List.all_eq_true.1 hall.2 d hd))
        simp only [Worker.isSymbolName, hm, isSymbolName, isTypeName, hn, List.head?_cons,
          Option.any_some, List.all_cons, hall.1, hall.2, hc, Bool.true_and, Bool.and_true]
        cases decide (byteLen (c::rest) ≤ maxSymbolChars) <;> simp
      · have hor : c.isUpper = false ∨ rest.all Char.isAlphanum = false := by
          cases h1 : c.isUpper <;> cases h2 : rest.all Char.isAlphanum <;> simp_all
        rcases hor with h | h <;>
          simp [Worker.isSymbolName, isSymbolName, isTypeName, hn, h]
    | predicate =>
      by_cases hall : c.isLower = true ∧
          rest.all (fun c => c.isLower || c.isDigit || c == '_') = true
      · have hplain : ∀ d : Char, (d.isLower || d.isDigit || d == '_') = true →
            d.isAlphanum = true ∨ d = '_' := by
          intro d hd
          simp only [Bool.or_eq_true, beq_iff_eq] at hd
          rcases hd with (hd | hd) | hd
          · exact .inl (by simp [Char.isAlphanum, Char.isAlpha, hd])
          · exact .inl (by simp [Char.isAlphanum, hd])
          · exact .inr hd
        have hm := measured_eq name c rest hn (by
          intro d hd
          rcases List.mem_cons.1 hd with rfl | hd
          · exact hplain _ (by simp [hall.1])
          · exact hplain d (List.all_eq_true.1 hall.2 d hd))
        simp only [Worker.isSymbolName, hm, isSymbolName, isPredicateName, hn, List.head?_cons,
          Option.any_some, List.all_cons, hall.1, hall.2, Bool.true_and, Bool.and_true,
          Bool.true_or]
        cases decide (byteLen (c::rest) ≤ maxSymbolChars) <;> simp
      · have hor : c.isLower = false ∨
            rest.all (fun c => c.isLower || c.isDigit || c == '_') = false := by
          cases h1 : c.isLower <;>
            cases h2 : rest.all (fun c => c.isLower || c.isDigit || c == '_') <;> simp_all
        rcases hor with h | h <;>
          simp only [Worker.isSymbolName, isSymbolName, isPredicateName, hn, List.head?_cons,
            Option.any_some, List.all_cons, h, Bool.false_and, Bool.and_false, ite_self]

/-! ## Limits -/

theorem rust_limit (limit : Option Scalar) (parameters : Option Bindings) :
    selectionLimit limit parameters = (limitValue limit parameters).bind Json.asU64 := by
  cases limit with
  | none => rfl
  | some scalar => cases scalar <;> rfl

theorem worker_limit (limit : Option Scalar) (parameters : Option Bindings) :
    Worker.scalarInteger limit parameters = Worker.integer (limitValue limit parameters) := by
  cases limit with
  | none => rfl
  | some scalar => cases scalar <;> rfl

theorem rust_kind (value : Option Json) : (!(value.bind Json.asU64).any (· ≤ maxGatedSelection)) =
    (limitKind value == .pointed || limitKind value == .wide) := by
  match value with
  | some (.int n) =>
    by_cases h0 : n = 0
    · simp [h0, Json.asU64, limitKind]
    by_cases hs : 0 < n ∧ n ≤ 20
    · have hle : n.toNat ≤ maxGatedSelection := by simp [maxGatedSelection]; omega
      simp [Json.asU64, limitKind, h0, hs, hs.1.le, hle]
    by_cases hp : 0 ≤ n
    · have hle : ¬ n.toNat ≤ maxGatedSelection := by simp [maxGatedSelection]; omega
      simp only [Option.bind_some, Json.asU64, limitKind, h0, hs, hp, if_true, if_false,
        Option.any_some, hle, decide_false]
      rfl
    · simp only [Option.bind_some, Json.asU64, limitKind, h0, hs, hp, if_false]
      rfl
  | some (.float (.finite q)) =>
    by_cases hq : q.den = 1 ∧ 0 < q.num ∧ q.num ≤ 20 <;>
      simp only [Option.bind_some, Json.asU64, limitKind, hq, if_false] <;> rfl
  | some (.float .nan) | some (.float .negInf) | some (.float .posInf) => rfl
  | none | some .null | some (.bool _) | some (.str _) | some (.arr _) | some (.obj _) => rfl

/-- The Worker refuses a slot that holds no positive integer up to the bound. -/
def workerRefuses (value : Option Json) : Bool :=
  match Worker.integer value with
  | some limit => decide (limit > Worker.maxMaintenanceSelection)
  | none => true

theorem worker_kind (value : Option Json) :
    workerRefuses value = (limitKind value == .zero || limitKind value == .wide) := by
  match value with
  | some (.int n) =>
    by_cases h0 : n = 0
    · simp [h0, workerRefuses, Worker.integer, limitKind]
    by_cases hs : 0 < n ∧ n ≤ 20
    · have hle : ¬ n > Worker.maxMaintenanceSelection := by
        simp [Worker.maxMaintenanceSelection]; omega
      simp [workerRefuses, Worker.integer, limitKind, h0, hs, hle]
    by_cases hp : 0 < n
    · have hgt : n > Worker.maxMaintenanceSelection := by
        simp [Worker.maxMaintenanceSelection]; omega
      have hk : limitKind (some (.int n)) = .wide := by simp only [limitKind, h0, if_false, if_neg hs]
      simp only [workerRefuses, Worker.integer, hp, if_true, hgt, decide_true, hk]
      rfl
    · simp only [workerRefuses, Worker.integer, limitKind, h0, hp, if_false]
      rfl
  | some (.float (.finite q)) =>
    by_cases hq : q.den = 1 ∧ 0 < q.num
    · by_cases hle : q.num ≤ 20
      · have : ¬ q.num > Worker.maxMaintenanceSelection := by
          simp [Worker.maxMaintenanceSelection]; omega
        simp [workerRefuses, Worker.integer, limitKind, hq, hle, this]
      · have : q.num > Worker.maxMaintenanceSelection := by
          simp [Worker.maxMaintenanceSelection]; omega
        simp [workerRefuses, Worker.integer, limitKind, hq, hle, this]
    · have : ¬ (q.den = 1 ∧ 0 < q.num ∧ q.num ≤ 20) := fun h => hq ⟨h.1,h.2.1⟩
      simp only [workerRefuses, Worker.integer, limitKind, hq, this, if_false]
      rfl
  | some (.float .nan) | some (.float .negInf) | some (.float .posInf) => rfl
  | none | some .null | some (.bool _) | some (.str _) | some (.arr _) | some (.obj _) => rfl

theorem rust_selection (clause : MutationClause) (parameters : Option Bindings) :
    (unboundedSelection clause parameters).isSome =
    (limitIs .pointed parameters clause || limitIs .wide parameters clause) := by
  have hsel : ∀ (verb : String) (selection : Selection),
      (selection.unbounded verb parameters).isSome =
        (decide (selection.whereClauses.getD [] ≠ []) &&
          (limitKind (limitValue selection.limit parameters) == .pointed ||
            limitKind (limitValue selection.limit parameters) == .wide)) := by
    intro verb selection
    by_cases hw : selection.whereClauses.getD [] = []
    · simp [Selection.unbounded, hw]
    · rw [← rust_kind, ← rust_limit]
      cases hl : (selectionLimit selection.limit parameters).any (· ≤ maxGatedSelection) <;>
        simp [Selection.unbounded, hw, hl]
  cases clause <;> simp [unboundedSelection, limitIs, selecting, hsel, Bool.and_or_distrib_left]

theorem worker_selection (clause : MutationClause) (parameters : Option Bindings) :
    (Worker.assertBoundedSelection clause parameters Worker.maxMaintenanceSelection).isSome =
    (limitIs .zero parameters clause || limitIs .wide parameters clause) := by
  have hsel : ∀ (selection : Selection),
      (decide (selection.whereClauses.getD [] ≠ []) &&
        workerRefuses (limitValue selection.limit parameters)) =
        ((decide (selection.whereClauses.getD [] ≠ []) &&
          limitKind (limitValue selection.limit parameters) == .zero) ||
        (decide (selection.whereClauses.getD [] ≠ []) &&
          limitKind (limitValue selection.limit parameters) == .wide)) := by
    intro selection
    rw [worker_kind, Bool.and_or_distrib_left]
  have hbody : ∀ (selection : Selection) (c : MutationClause),
      (Worker.bodyOf c).whereClauses = selection.whereClauses →
      (Worker.bodyOf c).limit = some selection.limit →
      (Worker.assertBoundedSelection c parameters Worker.maxMaintenanceSelection).isSome =
        (decide (selection.whereClauses.getD [] ≠ []) &&
          workerRefuses (limitValue selection.limit parameters)) := by
    intro selection c hw hl
    rw [workerRefuses, ← worker_limit]
    simp only [Worker.assertBoundedSelection, hw, hl]
    cases selection.whereClauses with
    | none => rfl
    | some patterns =>
      cases patterns with
      | nil => rfl
      | cons first rest =>
        cases Worker.scalarInteger selection.limit parameters with
        | none => rfl
        | some limit =>
          by_cases hgt : limit > (Worker.maxMaintenanceSelection : ℤ) <;> simp [hgt]
  cases clause with
  | transition t => exact (hbody t.toSelection (.transition t) rfl rfl).trans (hsel t.toSelection)
  | update c => exact (hbody c.toSelection (.update c) rfl rfl).trans (hsel c.toSelection)
  | setRetention c => exact (hbody c.toSelection (.setRetention c) rfl rfl).trans (hsel c.toSelection)
  | purge c => exact (hbody c (.purge c) rfl rfl).trans (hsel c)
  | purgePayload c => exact (hbody c (.purgePayload c) rfl rfl).trans (hsel c)
  | mergeConcept c =>
    simp only [Worker.assertBoundedSelection, Worker.bodyOf, Worker.emptyBody, limitIs, selecting]
    cases c.whereClauses with
    | none => rfl
    | some patterns => cases patterns <;> rfl
  | _ => rfl

/-! ## Dated claims and strength bases -/

theorem handles_captured (name : String) (h : capturedHandles.contains name = true) :
    Worker.captured name = true := by
  have hall : ∀ handle ∈ capturedHandles, Worker.captured handle = true := by decide
  exact hall name (by simpa using h)

theorem cites_captured (record : CreateRecord)
    (h : citesCapture capturedHandles.contains record = true) :
    citesCapture Worker.captured record = true := by
  obtain ⟨edge,he,hc⟩ := List.any_eq_true.1 h
  refine List.any_eq_true.2 ⟨edge,he,?_⟩
  split at hc
  · simp only [Bool.and_eq_true] at hc ⊢
    exact ⟨hc.1,handles_captured _ hc.2⟩
  · cases hc

theorem inferred_eq (value : Option MutationValue) :
    decide (Worker.literal value = some (.str "inferred")) = isInferred value := by
  cases value with
  | none => rfl
  | some v =>
    cases v with
    | value j =>
      cases j with
      | str mode => by_cases hm : mode = "inferred" <;> simp [Worker.literal, isInferred, hm]
      | _ => simp [Worker.literal, isInferred]
    | _ => simp [Worker.literal, isInferred]

theorem dated_eq (value : Option MutationValue) :
    (value.isSome && decide (Worker.literal value ≠ some .null)) = isDated value := by
  cases value with
  | none => rfl
  | some v =>
    cases v with
    | value j => cases j <;> simp [Worker.literal, isDated]
    | _ => simp [Worker.literal, isDated]

theorem start_eq (value : Option MutationValue) : Worker.writtenStart value = starts value := by
  cases value with
  | none => rfl
  | some v =>
    cases v with
    | value j =>
      cases j with
      | obj members =>
        cases hf : (Json.obj members).get "from" with
        | none => simp [Worker.writtenStart, Worker.startsObject, starts, hf]
        | some f => cases f <;> simp [Worker.writtenStart, Worker.startsObject, starts, hf]
      | _ => rfl
    | object members =>
      simp only [Worker.writtenStart, starts]
      congr 1
      funext member
      obtain ⟨key,bound⟩ := member
      cases bound with
      | value j => cases j <;> simp
      | _ => simp
    | _ => rfl

theorem find_reverse {α β : Type} [DecidableEq β] (key : α → β) (name : β) (xs : List α)
    (h : (xs.map key).Nodup) :
    xs.reverse.find? (fun x => key x == name) = xs.find? fun x => key x == name := by
  induction xs with
  | nil => rfl
  | cons x rest ih =>
    rw [List.map_cons, List.nodup_cons] at h
    rw [List.reverse_cons, List.find?_append, ih h.2]
    by_cases hx : key x = name
    · have hnone : rest.find? (fun y => key y == name) = none := by
        refine List.find?_eq_none.mpr fun y hy hkey => h.1 ?_
        rw [hx, ← eq_of_beq hkey]
        exact List.mem_map_of_mem hy
      simp [hnone, hx]
    · simp [hx]

theorem last_eq_first (record : CreateRecord) (h : ((record.setFields.getD []).map (·.1)).Nodup) :
    Worker.lastField record = firstField record := by
  funext name
  rw [Worker.lastField, firstField, find_reverse _ name _ h]

theorem rust_dated (clause : MutationClause) :
    (undatedCitation (.kml ⟨[clause]⟩) capturedHandles).isSome = undatedClaim clause := by
  cases clause with
  | createAssertion record =>
    cases hc : citesCapture capturedHandles.contains record <;>
      cases hf : undatedBy (firstField record) <;> simp [undatedCitation, undatedClaim, hc, hf]
  | _ => rfl

theorem worker_dated (clause : MutationClause) (hs : Single clause) :
    (Worker.assertDatedCitation clause).isSome = (undatedClaim clause || strayClaim clause) := by
  cases clause with
  | createAssertion record =>
    have hread : (Worker.assertDatedCitation (.createAssertion record)).isSome =
        (citesCapture Worker.captured record && undatedBy (firstField record)) := by
      rw [← last_eq_first record (hs record rfl), undatedBy, ← inferred_eq, ← dated_eq, ← start_eq]
      simp only [Worker.assertDatedCitation]
      change ((if (!citesCapture Worker.captured record) = true then none else _ :
        Option String)).isSome = _
      cases citesCapture Worker.captured record with
      | false => rfl
      | true =>
        by_cases hi : Worker.literal (Worker.lastField record "mode") = some (.str "inferred")
        · simp [hi]
        · cases hd : ((Worker.lastField record "asserted_at").isSome &&
              decide (Worker.literal (Worker.lastField record "asserted_at") ≠ some .null)) <;>
            cases hs : Worker.writtenStart (Worker.lastField record "valid_time") <;> simp_all
    rw [hread]
    cases hc : citesCapture capturedHandles.contains record with
    | false => simp [undatedClaim, strayClaim, hc]
    | true => simp [undatedClaim, strayClaim, hc, cites_captured record hc]
  | _ => rfl

theorem writes_eq (assignment : FacetAssignment) (member : String) :
    (assignment.values.map (·.1)).contains member = writes assignment member := by
  simp only [writes, List.contains_eq_any_beq, List.any_map, Function.comp_def]
  congr 1
  funext value
  exact Bool.beq_comm

theorem worker_strength (clause : MutationClause) (parameters : Option Bindings) :
    (Worker.assertCompleteStrength clause parameters).isSome =
      ((assignmentsOf clause).any (bareBase parameters) ||
        (recordFacets clause).any (bareBase parameters)) := by
  rw [Worker.assertCompleteStrength, List.isSome_findSome?, assignments_eq, ← List.any_append]
  congr 1
  funext assignment
  rw [bareBase, isMnemonic, resolve_str]
  cases Worker.resolve parameters assignment.facet with
  | none => rfl
  | some value =>
    cases value with
    | str name =>
      by_cases hn : localName name = "MnemonicState"
      · simp only [local_name_eq, hn, ne_eq, not_true, if_false, writes_eq, Option.bind_some,
          Json.asStr, Option.any_some, beq_self_eq_true, Bool.true_and]
        change (if baseWithoutPin assignment = true then some _ else none).isSome = _
        cases baseWithoutPin assignment <;> rfl
      · simp [local_name_eq, Json.asStr, hn]
    | _ => rfl

/-! ## Clauses -/

/-- A clause that both formation gates refuse, whatever the shapes they read differently. -/
def sharedFormation (parameters : Option Bindings) (clause : MutationClause) : Bool :=
  badNames parameters clause || (assignmentsOf clause).any (bareBase parameters) ||
    undatedClaim clause || uncognitive parameters clause || limitIs .wide parameters clause

def workerFormation (parameters : Option Bindings) (clause : MutationClause) : Bool :=
  limitIs .zero parameters clause || (recordFacets clause).any (bareBase parameters) ||
    strayClaim clause

def sharedMaintenance (parameters : Option Bindings) (clause : MutationClause) : Bool :=
  badNames parameters clause || (assignmentsOf clause).any (bareBase parameters) ||
    uncustodial clause || limitIs .wide parameters clause

def workerMaintenance (parameters : Option Bindings) (clause : MutationClause) : Bool :=
  limitIs .zero parameters clause || (recordFacets clause).any (bareBase parameters)

def unsendable (text : String) : Bool :=
  Worker.isBlank text || decide (Worker.maxKipCommandBytes < byteLen text.toList)

theorem any_or {α : Type} (l : List α) (f g : α → Bool) :
    l.any (fun x => f x || g x) = (l.any f || l.any g) := by
  induction l with
  | nil => rfl
  | cons x rest ih =>
    simp only [List.any_cons, ih]
    cases f x <;> cases g x <;> simp

theorem or_some {α : Type} (a b : Option α) : (a.or b).isSome = (a.isSome || b.isSome) := by
  cases a <;> simp

theorem rust_records (statement : KmlStatement) (parameters : Option Bindings) :
    (unsupportedCognitiveWrite (.kml statement) parameters).isSome = statement.clauses.any
    (badNames parameters) := by
  have hf : ∀ symbol, (facetRefusal parameters symbol).isSome =
      badName protectedFacets parameters symbol := rust_name _ _ _ parameters
  have hs : ∀ symbol, (structuralRefusal parameters symbol).isSome =
      badName protectedStructural parameters symbol := rust_name _ _ _ parameters
  simp only [unsupportedCognitiveWrite, or_some, List.isSome_findSome?, List.any_flatMap, hf, hs,
    ← any_or]
  rfl

theorem rust_strength (statement : KmlStatement) (parameters : Option Bindings) :
    (incompleteStrength (.kml statement) parameters).isSome =
      statement.clauses.any fun clause => (assignmentsOf clause).any (bareBase parameters) := by
  simp only [incompleteStrength, List.isSome_findSome?, List.any_flatMap]
  congr 1
  funext clause
  congr 1
  funext assignment
  rw [bareBase]
  cases isMnemonic parameters assignment && baseWithoutPin assignment <;> rfl

theorem rust_citation (statement : KmlStatement) :
    (undatedCitation (.kml statement) capturedHandles).isSome =
      statement.clauses.any undatedClaim := by
  rw [undatedCitation, List.isSome_findSome?]
  congr 1
  funext clause
  rw [← rust_dated, undatedCitation, List.isSome_findSome?, List.any_cons, List.any_nil,
    Bool.or_false]

theorem define_read (d : DefineCommand) (parameters : Option Bindings) :
    (defineRefusal d).isSome = uncognitive parameters (.define d) := by
  cases hn : d.name with
  | param p => simp [defineRefusal, uncognitive, hn]
  | name name =>
    simp only [defineRefusal, uncognitive, hn, Bool.not_and, List.not_all_eq_any_not]
    cases isSymbolName d.kind name with
    | false => rfl
    | true => cases d.definition.any (fun member => !member.2.isLiteral) <;> rfl

theorem worker_define (d : DefineCommand) (parameters : Option Bindings) :
    (Worker.assertLiteralDefine d).isSome = uncognitive parameters (.define d) := by
  cases hn : d.name with
  | param p => simp [Worker.assertLiteralDefine, uncognitive, hn]
  | name name =>
    simp only [Worker.assertLiteralDefine, uncognitive, hn, Bool.not_and, List.not_all_eq_any_not,
      symbol_name_eq]
    cases isSymbolName d.kind name with
    | false => rfl
    | true => cases d.definition.any (fun member => !member.2.isLiteral) <;> rfl

theorem rust_cognition (clause : MutationClause) (parameters : Option Bindings) :
    (clauseCognitionRefusal parameters clause).isSome = (uncognitive parameters clause ||
      (limitIs .pointed parameters clause || limitIs .wide parameters clause)) := by
  rw [← rust_selection]
  cases clause with
  | transition t =>
    cases ht : transitionStateOf t parameters with
    | none => simp [clauseCognitionRefusal, uncognitive, ht]
    | some state =>
      by_cases hc : state ∈ cognitiveTransitions <;>
        simp [clauseCognitionRefusal, uncognitive, ht, hc]
  | define d =>
    rw [← define_read]
    simp [clauseCognitionRefusal, unboundedSelection]
  | _ => simp [clauseCognitionRefusal, uncognitive, unboundedSelection]

theorem rust_maintenance (clause : MutationClause) (parameters : Option Bindings) :
    (clauseMaintenanceRefusal parameters clause).isSome = (uncustodial clause ||
      (limitIs .pointed parameters clause || limitIs .wide parameters clause)) := by
  rw [← rust_selection]
  cases clause with
  | setRetention c =>
    cases hv : c.values.any (·.1 == "legal_hold") <;>
      simp only [clauseMaintenanceRefusal, uncustodial, hv] <;> rfl
  | _ => simp [clauseMaintenanceRefusal, uncustodial, unboundedSelection]

theorem worker_records (parameters : Option Bindings) :
    (Worker.assertCognitiveRecords clause parameters).isSome = badNames parameters clause := by
  have hf : ∀ symbol, (Worker.assertFacet parameters symbol).isSome =
      badName protectedFacets parameters symbol := worker_name _ _ _ parameters
  have hs : ∀ symbol, (Worker.assertField parameters symbol).isSome =
      badName protectedStructural parameters symbol := worker_name _ _ _ parameters
  simp only [Worker.assertCognitiveRecords, or_some, List.isSome_findSome?, facets_eq,
    structural_eq, hf, hs, badNames]

theorem worker_cognition (clause : MutationClause) (parameters : Option Bindings) :
    ((match clause with | .define d => Worker.assertLiteralDefine d | _ => none).isSome ||
      (Worker.assertFormationVerb clause).isSome ||
      (Worker.assertFormationState clause parameters).isSome) = uncognitive parameters clause := by
  cases clause with
  | transition t =>
    rw [show (Worker.assertFormationVerb (.transition t)).isSome = false from rfl]
    simp only [Worker.assertFormationState, transition_state_eq, uncognitive]
    cases transitionStateOf t parameters with
    | none => rfl
    | some state =>
      rw [show Worker.formationTransitions = cognitiveTransitions from rfl]
      by_cases hc : state ∈ cognitiveTransitions <;> simp [hc]
  | define d =>
    rw [← worker_define]
    rw [show (Worker.assertFormationVerb (.define d)).isSome = false from rfl]
    simp [Worker.assertFormationState]
  | _ => rfl

theorem worker_formation (clause : MutationClause) (parameters : Option Bindings)
    (hs : Single clause) : (Worker.formationClause parameters clause).isSome =
    (sharedFormation parameters clause || workerFormation parameters clause) := by
  have hc := worker_cognition clause parameters
  simp only [Worker.formationClause, List.isSome_findSome?, List.any_cons, List.any_nil, id_eq,
    worker_records, worker_strength, worker_dated clause hs, worker_selection, sharedFormation,
    workerFormation, ← hc]
  grind

theorem worker_maintenance (clause : MutationClause) (parameters : Option Bindings) :
    (Worker.maintenanceClause parameters clause).isSome =
    (sharedMaintenance parameters clause || workerMaintenance parameters clause) := by
  simp only [Worker.maintenanceClause, List.isSome_findSome?, List.any_cons, List.any_nil, id_eq,
    worker_records, worker_strength, worker_selection, sharedMaintenance, workerMaintenance]
  cases clause with
  | setRetention c =>
    have hhold : (Worker.assertNoLegalHold (.setRetention c)).isSome =
        c.values.any (·.1 == "legal_hold") := by
      rw [Worker.assertNoLegalHold, List.isSome_findSome?]
      congr 1
      funext value
      by_cases hv : value.1 = "legal_hold" <;> simp [hv]
    simp only [hhold, uncustodial, Option.isSome_none]
    grind
  | _ =>
    simp only [Worker.assertNoLegalHold, uncustodial, Option.isSome_none, Option.isSome_some]
    grind

/-! ## Statements -/

theorem agreement_iff {shared rust worker unsent : Prop} :
    ((shared ∨ rust) ↔ (unsent ∨ shared ∨ worker)) ↔ shared ∨ (rust ↔ unsent ∨ worker) := by
  by_cases h : shared <;> simp [h]

section Statements
variable (parse : String → Except String Command) (text : String) (statement : KmlStatement)
variable (parameters : Option Bindings)

theorem sent_alone (other : String) (check : Option Bindings → MutationClause → Option String)
    (h : parse text = .ok (.kml statement)) :
    (Worker.assertOperations parse other check [⟨text,parameters⟩]).isSome =
      (unsendable text || statement.clauses.any fun clause => (check parameters clause).isSome) := by
  have hbatch : (Worker.assertOperationBatch [⟨text,parameters⟩]).isSome = unsendable text := by
    simp only [Worker.assertOperationBatch, List.length_singleton, List.any_cons, List.any_nil,
      Bool.or_false, List.map_cons, List.map_nil, List.sum_singleton, unsendable]
    cases Worker.isBlank text with
    | true => rfl
    | false =>
      by_cases hb : byteLen text.toList > Worker.maxKipCommandBytes
      · simp [hb, Worker.maxKipOperations]
      · simp [hb, Worker.maxKipOperations]
  rw [Worker.assertOperations, or_some, hbatch, List.isSome_findSome?, List.any_cons, List.any_nil,
    Bool.or_false]
  simp only [h, List.isSome_findSome?]

theorem rust_gate : (cognitionGate capturedHandles (.kml statement) parameters).isSome = true ↔
    (∃ clause ∈ statement.clauses, sharedFormation parameters clause = true) ∨ ∃ clause ∈
    statement.clauses, limitIs .pointed parameters clause = true := by
  have hgate : (cognitionGate capturedHandles (.kml statement) parameters).isSome =
      statement.clauses.any fun clause =>
        sharedFormation parameters clause || limitIs .pointed parameters clause := by
    simp only [cognitionGate, or_some, Option.isSome_map, rust_citation, rust_records,
      rust_strength, cognitionRefusal, List.isSome_findSome?, rust_cognition, ← any_or]
    congr 1
    funext clause
    simp only [sharedFormation]
    grind
  rw [hgate, any_or, Bool.or_eq_true, List.any_eq_true, List.any_eq_true]

theorem rust_maintenance_gate : (maintenanceGate (.kml statement) parameters).isSome = true ↔
    (∃ clause ∈ statement.clauses, sharedMaintenance parameters clause = true) ∨ ∃ clause ∈
    statement.clauses, limitIs .pointed parameters clause = true := by
  have hgate : (maintenanceGate (.kml statement) parameters).isSome =
      statement.clauses.any fun clause =>
        sharedMaintenance parameters clause || limitIs .pointed parameters clause := by
    simp only [maintenanceGate, or_some, Option.isSome_map, rust_records, rust_strength,
      maintenanceRefusal, List.isSome_findSome?, rust_maintenance, ← any_or]
    congr 1
    funext clause
    simp only [sharedMaintenance]
    grind
  rw [hgate, any_or, Bool.or_eq_true, List.any_eq_true, List.any_eq_true]

/-- A statement is judged alike exactly when a reason both gates have decides it, or when both
of the other kinds of reason are there or neither is. -/
theorem write_policies_agree_iff (once : FieldsOnce parse)
    (h : parse text = .ok (.kml statement)) :
    (((cognitionGate capturedHandles (.kml statement) parameters).isSome = true ↔
        (Worker.assertFormationOperations parse [⟨text,parameters⟩]).isSome = true) ↔
      (∃ clause ∈ statement.clauses, sharedFormation parameters clause = true) ∨
        ((∃ clause ∈ statement.clauses, limitIs .pointed parameters clause = true) ↔
          unsendable text = true ∨
            ∃ clause ∈ statement.clauses, workerFormation parameters clause = true)) ∧
    (((maintenanceGate (.kml statement) parameters).isSome = true ↔
        (Worker.assertMaintenanceOperations parse [⟨text,parameters⟩]).isSome = true) ↔
      (∃ clause ∈ statement.clauses, sharedMaintenance parameters clause = true) ∨
        ((∃ clause ∈ statement.clauses, limitIs .pointed parameters clause = true) ↔
          unsendable text = true ∨
            ∃ clause ∈ statement.clauses, workerMaintenance parameters clause = true)) := by
  have hformation : (Worker.assertFormationOperations parse [⟨text,parameters⟩]).isSome = true ↔
      unsendable text = true ∨
        (∃ clause ∈ statement.clauses, sharedFormation parameters clause = true) ∨
          ∃ clause ∈ statement.clauses, workerFormation parameters clause = true := by
    have hsingle : ∀ clause ∈ statement.clauses, Single clause := by
      rintro clause hc record rfl
      exact once text statement record h hc
    have hclauses : (statement.clauses.any fun clause =>
        (Worker.formationClause parameters clause).isSome) = statement.clauses.any fun clause =>
          sharedFormation parameters clause || workerFormation parameters clause := by
      rw [Bool.eq_iff_iff, List.any_eq_true, List.any_eq_true]
      refine exists_congr fun clause => and_congr_right fun hc => ?_
      rw [worker_formation clause parameters (hsingle clause hc)]
    rw [Worker.assertFormationOperations, sent_alone parse text statement parameters _ _ h, hclauses]
    simp only [any_or, Bool.or_eq_true, List.any_eq_true]
  have hmaintenance :
      (Worker.assertMaintenanceOperations parse [⟨text,parameters⟩]).isSome = true ↔
      unsendable text = true ∨
        (∃ clause ∈ statement.clauses, sharedMaintenance parameters clause = true) ∨
          ∃ clause ∈ statement.clauses, workerMaintenance parameters clause = true := by
    rw [Worker.assertMaintenanceOperations, sent_alone parse text statement parameters _ _ h]
    simp only [worker_maintenance, any_or, Bool.or_eq_true, List.any_eq_true]
  constructor
  · rw [rust_gate, hformation]
    exact agreement_iff
  · rw [rust_maintenance_gate, hmaintenance]
    exact agreement_iff

end Statements

/-- `TRANSITION ?e TO "archived" WHERE { ?e CONCEPT {} } LIMIT 0`. -/
def limitZero : KmlStatement :=
  ⟨[.transition ⟨⟨some ["?e CONCEPT \x7b\x7d"],some (.literal (.int 0))⟩,
    .literal (.str "archived"),none⟩]⟩

def limitZeroText : String :=
  "TRANSITION ?e TO \"archived\" WHERE \x7b ?e CONCEPT \x7b\x7d \x7d LIMIT 0"

theorem limit_zero_once : FieldsOnce fun _ => .ok (.kml limitZero) := by
  rintro _ _ record ⟨⟩ hc
  rw [limitZero, List.mem_singleton] at hc
  cases hc

/-- One policy takes a `LIMIT` of zero, the other one does not. -/
theorem limit_zero_divides : ¬ ∀ (parse : String → Except String Command) (text : String)
    (statement : KmlStatement) (parameters : Option Bindings), FieldsOnce parse →
    parse text = .ok (.kml statement) →
      ((maintenanceGate (.kml statement) parameters).isSome = true ↔
        (Worker.assertMaintenanceOperations parse [⟨text,parameters⟩]).isSome = true) := by
  intro h
  have := h (fun _ => .ok (.kml limitZero)) limitZeroText limitZero none limit_zero_once rfl
  revert this
  decide +kernel

theorem write_policies_agree_zero :
    ¬ ((maintenanceGate (.kml limitZero) none).isSome = true ↔
      (Worker.assertMaintenanceOperations (fun _ => .ok (.kml limitZero))
        [⟨limitZeroText,none⟩]).isSome = true) := by
  rw [(write_policies_agree_iff (fun _ => .ok (.kml limitZero)) limitZeroText limitZero none
    limit_zero_once rfl).2]
  decide +kernel

end AndaBrain.GateAgreement
