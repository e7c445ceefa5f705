import Mathlib.Data.Finset.Card
import Mathlib.Data.String.Basic

/-!
# Durable source suppression and write fences

`product/control.rs`: the control state of managed memory changes and the admissions that read it.
-/

set_option autoImplicit false

namespace AndaBrain.Product

def isControl (c : Char) : Bool :=
  decide (c.toNat ≤ 0x1f) || (decide (0x7f ≤ c.toNat) && decide (c.toNat ≤ 0x9f))

structure SourceIdentity where
  key : String
  parents : List String
  deriving DecidableEq

def SourceIdentity.keys (source : SourceIdentity) : Finset String :=
  (source.key::source.parents).toFinset

structure ControlState where
  version : ℕ
  epoch : ℕ
  readFloor : ℕ
  suppressed : Finset String
  pending : Option String
  deriving DecidableEq

def ControlState.default : ControlState := ⟨1,0,0,∅,none⟩

def suppressionCapacity : ℕ := 100000
def epochLimit : ℕ := 2^64 - 1

inductive SourceAdmissionError where
  | suppressed
  | busy
  deriving DecidableEq

def SourceAdmissionError.text : SourceAdmissionError → String
  | .suppressed => "source_suppressed"
  | .busy => "memory_change_pending"

namespace ControlState

def available (state : ControlState) : Bool := state.pending.isNone

def admitSource (state : ControlState) (source : SourceIdentity) :
    Except SourceAdmissionError ℕ :=
  if state.pending.isSome then .error .busy
  else if source.keys ∩ state.suppressed ≠ ∅ then .error .suppressed
  else .ok state.epoch

def check (state : ControlState) (processing : Option ℕ) : Except String Unit :=
  if state.pending.isSome then
    .error "memory change is reconciling; retry after it finishes"
  else if processing.getD 0 ≠ state.epoch then
    .error "memory changed during processing; rebuild context before writing"
  else .ok ()

def fence (state : ControlState) (key : String) (sources : Finset String) :
    Except String ControlState :=
  if state.epoch < epochLimit then
    let suppressed := state.suppressed ∪ sources
    if suppressed.card > suppressionCapacity then
      .error "source suppression capacity exhausted"
    else .ok { state with epoch := state.epoch + 1, pending := some key, suppressed }
  else .error "memory epoch exhausted"

def release (state : ControlState) (seq : ℕ) : ControlState :=
  { state with readFloor := seq, pending := none }

/-- `None` when every key was suppressed already. -/
def suppress (state : ControlState) (keys : Finset String) : Option ControlState :=
  let suppressed := state.suppressed ∪ keys
  if suppressed.card = state.suppressed.card then none
  else some { state with suppressed }

theorem fence_ok (state next : ControlState) (key : String) (sources : Finset String)
    (h : state.fence key sources = .ok next) : next.epoch = state.epoch + 1 ∧ next.pending = some
    key ∧ state.suppressed ⊆ next.suppressed ∧ sources ⊆ next.suppressed := by
  unfold fence at h
  split at h
  · dsimp only at h
    split at h
    · cases h
    · cases h
      exact ⟨rfl,rfl,Finset.subset_union_left,Finset.subset_union_right⟩
  · cases h

theorem suppress_some (state next : ControlState) (keys : Finset String)
    (h : state.suppress keys = some next) : next.epoch = state.epoch ∧ next.pending = state.pending
    ∧ next.suppressed = state.suppressed ∪ keys := by
  unfold suppress at h
  dsimp only at h
  split at h
  · cases h
  · cases h
    exact ⟨rfl,rfl,rfl⟩

end ControlState

end AndaBrain.Product
