import AndaBrain.Utility

/-!
# What the utility journal guarantees

A committed transaction has its units reserved under its calibration key, and until its result is
stored it is the pending intent of its target.
-/

set_option autoImplicit false

namespace AndaBrain.Utility
open Foundation.Resumption Foundation.ConditionalStore

section Views
variable (w : World)

def World.target (id : String) : Option Target := value w.journal (.target id)

def World.unit (id : String) : Option UnitClaim := value w.journal (.unit id)

def World.result (key : CalibrationKey) : Option UtilityResult := value w.journal (.result key)

def World.slot (n : ℕ) : Option String := value w.journal (.slot n)

def World.catalog : Catalog :=
  (show Option Catalog from value w.journal .catalog).getD Catalog.default

def World.pendingAt (id : String) : Option Pending := (w.target id).bind Target.pending

end Views

section Writes
variable (w : World)

theorem value_written (k j : Key) (v : Entry k) (h : j ≠ k) :
    value (written w k v).journal j = value w.journal j :=
  value_place_of_ne w.journal k j v h

theorem value_written_self (k : Key) (v : Entry k) : value (written w k v).journal k = some v :=
  value_place w.journal k v

theorem target_written (id : String) (t : Target) :
    (written w (.target id) t).target = Function.update w.target id (some t) := by
  funext j
  by_cases hj : j = id
  · subst hj
    rw [Function.update_self]
    exact value_written_self w (.target j) t
  · rw [Function.update_of_ne hj]
    exact value_written w (.target id) (.target j) t (by simpa using hj)

theorem unit_written (id : String) (c : UnitClaim) :
    (written w (.unit id) c).unit = Function.update w.unit id (some c) := by
  funext j
  by_cases hj : j = id
  · subst hj
    rw [Function.update_self]
    exact value_written_self w (.unit j) c
  · rw [Function.update_of_ne hj]
    exact value_written w (.unit id) (.unit j) c (by simpa using hj)

theorem result_written (key : CalibrationKey) (r : UtilityResult) :
    (written w (.result key) r).result = Function.update w.result key (some r) := by
  funext j
  by_cases hj : j = key
  · subst hj
    rw [Function.update_self]
    exact value_written_self w (.result j) r
  · rw [Function.update_of_ne hj]
    exact value_written w (.result key) (.result j) r (by simpa using hj)

theorem slot_written (n : ℕ) (id : String) :
    (written w (.slot n) id).slot = Function.update w.slot n (some id) := by
  funext j
  by_cases hj : j = n
  · subst hj
    rw [Function.update_self]
    exact value_written_self w (.slot j) id
  · rw [Function.update_of_ne hj]
    exact value_written w (.slot n) (.slot j) id (by simpa using hj)

theorem catalog_written (c : Catalog) : (written w .catalog c).catalog = c := by
  have h : value (written w .catalog c).journal .catalog = some c := value_written_self w .catalog c
  exact congrArg (fun found : Option Catalog => found.getD Catalog.default) h

variable (k : Key) (v : Entry k)

theorem target_other (h : ∀ id, Key.target id ≠ k) : (written w k v).target = w.target :=
  funext fun id => value_written w k _ v (h id)

theorem unit_other (h : ∀ id, Key.unit id ≠ k) : (written w k v).unit = w.unit :=
  funext fun id => value_written w k _ v (h id)

theorem result_other (h : ∀ key, Key.result key ≠ k) : (written w k v).result = w.result :=
  funext fun key => value_written w k _ v (h key)

theorem slot_other (h : ∀ n, Key.slot n ≠ k) : (written w k v).slot = w.slot :=
  funext fun n => value_written w k _ v (h n)

theorem catalog_other (h : Key.catalog ≠ k) : (written w k v).catalog = w.catalog :=
  congrArg (fun found : Option Catalog => found.getD Catalog.default) (value_written w k _ v h)

end Writes

def Pending.key (p : Pending) : CalibrationKey := p.request.calibrationKey

def Pending.tx (p : Pending) : Tx := ⟨p.request,p.samples⟩

def Tx.key (tx : Tx) : CalibrationKey := tx.request.calibrationKey

structure PendingOk (id : String) (p : Pending) : Prop where
  target : p.key.target = id
  key : p.result.receipt.calibrationKey = p.key
  receipt : p.result.receipt = p.request.receipt

structure Charged (w : World) : Prop where
  ids : ∀ id t, w.target id = some t → t.id = id
  pendings : ∀ id p, w.pendingAt id = some p → PendingOk id p
  reserved : ∀ tx ∈ w.txs, ∀ u ∈ tx.samples,
    ∃ c, w.unit u = some c ∧ c.target = tx.key.target ∧ c.calibrationKey = tx.key
  finished : ∀ tx ∈ w.txs,
    (∃ p, w.pendingAt tx.key.target = some p ∧ p.key = tx.key) ∨ (w.result tx.key).isSome
  current : ∀ id p, w.pendingAt id = some p → ∀ tx ∈ w.txs, tx.key = p.key → tx = p.tx
  resolved : ∀ id p, w.pendingAt id = some p → (w.result p.key).isSome → p.tx ∈ w.txs
  unique : (w.txs.map Tx.key).Nodup
  fresh : ∀ t, w.catalog.pending = some t → t.pending = none

structure Listed (w : World) : Prop where
  filled : ∀ n, 1 ≤ n → n ≤ w.catalog.allocated →
    (n = w.catalog.allocated → w.catalog.pending = none) → (w.slot n).isSome
  named : ∀ n id, w.slot n = some id → 1 ≤ n ∧ n ≤ w.catalog.allocated ∧
    ((w.target id).isSome ∨ ∃ t, w.catalog.pending = some t ∧ n = w.catalog.allocated ∧ id = t.id)
  distinct : ∀ m n id, w.slot m = some id → w.slot n = some id → m = n
  covered : ∀ id, (w.target id).isSome →
    (∃ n, w.slot n = some id) ∨ ∃ t, w.catalog.pending = some t ∧ t.id = id
  slotted : ∀ t, w.catalog.pending = some t → 1 ≤ w.catalog.allocated ∧
    (∀ n, w.slot n = some t.id → n = w.catalog.allocated) ∧
    ∀ id, w.slot w.catalog.allocated = some id → id = t.id

/-- What an evaluation of a target has read: the units it found, and the key that follows. -/
structure Reading where
  units : List String
  key : CalibrationKey

structure Readings where
  kept : Prop
  last : String → Option Reading

def Readings.free : Readings := ⟨False,fun _ => none⟩

/-- The units a target has reserved carry the key of its intent, and the key of what it read last,
if that named them. -/
structure Agreed (last : String → Option Reading) (w : World) : Prop where
  claims : ∀ id p u c, w.pendingAt id = some p → u ∈ p.samples → w.unit u = some c →
    c.target = id → c.calibrationKey = p.key
  reserved : ∀ u c l, w.unit u = some c → c.receipt = none → last c.target = some l →
    u ∈ l.units → c.calibrationKey = l.key
  intents : ∀ id p l, w.pendingAt id = some p → last id = some l → p.key = l.key

/-- The guarantee; the last part only where the readings are kept. -/
structure Sound (r : Readings) (w : World) : Prop where
  charged : Charged w
  listed : Listed w
  agreed : r.kept → Agreed r.last w

theorem charged_once (w : World) (h : Charged w) (a b : Tx) (ha : a ∈ w.txs) (hb : b ∈ w.txs)
    (u : String) (hua : u ∈ a.samples) (hub : u ∈ b.samples) : a = b := by
  obtain ⟨c,hc,-,hka⟩ := h.reserved a ha u hua
  obtain ⟨d,hd,-,hkb⟩ := h.reserved b hb u hub
  rw [hc] at hd
  cases hd
  exact List.inj_on_of_nodup_map h.unique ha hb (hka.symm.trans hkb)

section Frames
variable {w t : World}

theorem charged_same (h : Charged w) (ht : t.target = w.target) (hu : t.unit = w.unit)
    (hr : t.result = w.result) (hx : t.txs = w.txs)
    (hc : ∀ t', t.catalog.pending = some t' → t'.pending = none) : Charged t := by
  have hp : t.pendingAt = w.pendingAt := by
    funext id
    rw [World.pendingAt, ht]
    rfl
  obtain ⟨h1,h2,h3,h4,h5,h6,h7,-⟩ := h
  refine ⟨?_,?_,?_,?_,?_,?_,?_,hc⟩
  · rwa [ht]
  · rwa [hp]
  · rwa [hx, hu]
  · rwa [hx, hp, hr]
  · rwa [hx, hp]
  · rwa [hx, hp, hr]
  · rwa [hx]

theorem listed_same (h : Listed w) (ht : t.target = w.target) (hs : t.slot = w.slot)
    (ha : t.catalog.allocated = w.catalog.allocated)
    (hp : t.catalog.pending = w.catalog.pending) : Listed t := by
  obtain ⟨h1,h2,h3,h4,h5⟩ := h
  constructor
  · rwa [ha, hp, hs]
  · rwa [ha, hp, hs, ht]
  · rwa [hs]
  · rwa [hp, hs, ht]
  · rwa [ha, hp, hs]

theorem agreed_framed {last : String → Option Reading} (h : Agreed last w)
    (hp : t.pendingAt = w.pendingAt) (hu : t.unit = w.unit) : Agreed last t := by
  constructor
  · rw [hp, hu]
    exact h.claims
  · rw [hu]
    exact h.reserved
  · rw [hp]
    exact h.intents

theorem agreed_same {last : String → Option Reading} (h : Agreed last w)
    (ht : t.target = w.target) (hu : t.unit = w.unit) : Agreed last t := by
  apply agreed_framed h _ hu
  funext id
  rw [World.pendingAt, ht]
  rfl

end Frames

section Target
variable {w : World} {r : Readings}

theorem pending_written (w : World) (id : String) (t : Target) :
    (written w (.target id) t).pendingAt = Function.update w.pendingAt id t.pending := by
  funext j
  rw [World.pendingAt, target_written]
  by_cases hj : j = id
  · subst hj
    rw [Function.update_self, Function.update_self]
    rfl
  · rw [Function.update_of_ne hj, Function.update_of_ne hj]
    rfl

theorem pending_other (w : World) (k : Key) (v : Entry k) (h : ∀ id, Key.target id ≠ k) :
    (written w k v).pendingAt = w.pendingAt := by
  funext j
  rw [World.pendingAt, target_other w k v h]
  rfl

structure Storable (w : World) (id : String) (p : Pending) : Prop where
  ok : PendingOk id p
  current : ∀ tx ∈ w.txs, tx.key = p.key → tx = p.tx
  resolved : (w.result p.key).isSome → p.tx ∈ w.txs

variable (id : String) (t : Target)

theorem charged_target (h : Charged w) (hid : t.id = id)
    (hp : ∀ p, t.pending = some p → Storable w id p)
    (hf : ∀ tx ∈ w.txs, tx.key.target = id →
      (∃ p, t.pending = some p ∧ p.key = tx.key) ∨ (w.result tx.key).isSome) :
    Charged (written w (.target id) t) := by
  have hpend := pending_written w id t
  have hunit : (written w (.target id) t).unit = w.unit := unit_other w (.target id) t (fun _ h => nomatch h)
  have hresult : (written w (.target id) t).result = w.result :=
    result_other w (.target id) t (fun _ h => nomatch h)
  have hcat : (written w (.target id) t).catalog = w.catalog :=
    catalog_other w (.target id) t (fun h => nomatch h)
  have hown : ∀ j p, (written w (.target id) t).pendingAt j = some p →
      (j = id ∧ t.pending = some p) ∨ (j ≠ id ∧ w.pendingAt j = some p) := by
    intro j p hj
    rw [hpend] at hj
    by_cases he : j = id
    · subst he
      rw [Function.update_self] at hj
      exact Or.inl ⟨rfl,hj⟩
    · rw [Function.update_of_ne he] at hj
      exact Or.inr ⟨he,hj⟩
  constructor
  · intro j t' hj
    rw [target_written] at hj
    by_cases he : j = id
    · subst he
      rw [Function.update_self] at hj
      cases hj
      exact hid
    · rw [Function.update_of_ne he] at hj
      exact h.ids j t' hj
  · intro j p hj
    rcases hown j p hj with ⟨rfl,hq⟩ | ⟨-,hq⟩
    · exact (hp p hq).ok
    · exact h.pendings j p hq
  · rw [hunit]
    exact h.reserved
  · intro tx htx
    rw [hresult, hpend]
    by_cases he : tx.key.target = id
    · rw [he, Function.update_self]
      exact hf tx htx he
    · rw [Function.update_of_ne he]
      exact h.finished tx htx
  · intro j p hj
    rcases hown j p hj with ⟨rfl,hq⟩ | ⟨-,hq⟩
    · exact (hp p hq).current
    · exact h.current j p hq
  · intro j p hj
    rw [hresult]
    rcases hown j p hj with ⟨rfl,hq⟩ | ⟨-,hq⟩
    · exact (hp p hq).resolved
    · exact h.resolved j p hq
  · exact h.unique
  · rw [hcat]
    exact h.fresh

theorem storable_stored (p : Pending) (h : Charged w)
    (hp : w.pendingAt id = some p) : Storable w id p :=
  ⟨h.pendings id p hp,h.current id p hp,h.resolved id p hp⟩

theorem listed_target (h : Listed w)
    (hk : (w.target id).isSome ∨ ∃ t, w.catalog.pending = some t ∧ t.id = id) :
    Listed (written w (.target id) t) := by
  have hslot : (written w (.target id) t).slot = w.slot := slot_other w (.target id) t (fun _ h => nomatch h)
  have hcat : (written w (.target id) t).catalog = w.catalog :=
    catalog_other w (.target id) t (fun h => nomatch h)
  have hsome : ∀ j, (w.target j).isSome → ((written w (.target id) t).target j).isSome := by
    intro j hj
    rw [target_written]
    by_cases he : j = id
    · subst he
      rw [Function.update_self]
      rfl
    · rw [Function.update_of_ne he]
      exact hj
  constructor
  · rw [hslot, hcat]
    exact h.filled
  · intro n j hn
    rw [hslot] at hn
    rw [hcat]
    obtain ⟨h1,h2,h3⟩ := h.named n j hn
    exact ⟨h1,h2,h3.imp_left (hsome j)⟩
  · rw [hslot]
    exact h.distinct
  · intro j hj
    rw [hslot, hcat]
    by_cases he : j = id
    · subst he
      exact hk.elim (h.covered j) Or.inr
    · rw [target_written, Function.update_of_ne he] at hj
      exact h.covered j hj
  · rw [hslot, hcat]
    exact h.slotted

theorem agreed_target {last : String → Option Reading} (h : Agreed last w)
    (hp : ∀ p u c, t.pending = some p → u ∈ p.samples → w.unit u = some c → c.target = id →
      c.calibrationKey = p.key)
    (hl : ∀ p l, t.pending = some p → last id = some l → p.key = l.key) :
    Agreed last (written w (.target id) t) := by
  have hunit := unit_other w (.target id) t (fun _ h => nomatch h)
  constructor
  · intro j p u c hj hu hc ht
    rw [pending_written] at hj
    rw [hunit] at hc
    by_cases he : j = id
    · subst he
      rw [Function.update_self] at hj
      exact hp p u c hj hu hc ht
    · rw [Function.update_of_ne he] at hj
      exact h.claims j p u c hj hu hc ht
  · rw [hunit]
    exact h.reserved
  · intro j p l hj
    rw [pending_written] at hj
    by_cases he : j = id
    · subst he
      rw [Function.update_self] at hj
      exact hl p l hj
    · rw [Function.update_of_ne he] at hj
      exact h.intents j p l hj

theorem sound_target_same (t old : Target) (h : Sound r w) (hold : w.target id = some old)
    (hid : t.id = id) (hp : t.pending = old.pending) : Sound r (written w (.target id) t) := by
  have hpend : w.pendingAt id = t.pending := by
    rw [World.pendingAt, hold, hp]
    rfl
  refine ⟨charged_target id t h.charged hid ?_ ?_,listed_target id t h.listed ?_,fun hb => ?_⟩
  · intro p hp'
    exact storable_stored id p h.charged (hpend.trans hp')
  · intro tx htx he
    rw [← hpend, ← he]
    exact h.charged.finished tx htx
  · rw [hold]
    exact Or.inl rfl
  · apply agreed_target id t (h.agreed hb)
    · intro p u c hp'
      exact (h.agreed hb).claims id p u c (hpend.trans hp')
    · intro p l hp'
      exact (h.agreed hb).intents id p l (hpend.trans hp')

theorem sound_target_done (t old : Target) (p : Pending) (h : Sound r w)
    (hold : w.target id = some old) (hid : t.id = id) (ht : t.pending = none)
    (hp : old.pending = some p) (hx : p.tx ∈ w.txs → (w.result p.key).isSome) :
    Sound r (written w (.target id) t) := by
  have hpend : w.pendingAt id = some p := by
    rw [World.pendingAt, hold]
    exact hp
  refine ⟨charged_target id t h.charged hid ?_ ?_,listed_target id t h.listed ?_,fun hb => ?_⟩
  · intro q hq
    rw [ht] at hq
    cases hq
  · intro tx htx he
    right
    rcases h.charged.finished tx htx with ⟨q,hq,hk⟩ | hr
    · rw [he, hpend] at hq
      cases hq
      have heq := h.charged.current id p hpend tx htx hk.symm
      rw [← hk]
      exact hx (heq ▸ htx)
    · exact hr
  · rw [hold]
    exact Or.inl rfl
  · apply agreed_target id t (h.agreed hb)
    · intro q u c hq
      rw [ht] at hq
      cases hq
    · intro q l hq
      rw [ht] at hq
      cases hq

theorem sound_target_first (h : Sound r w) (hnone : w.target t.id = none)
    (hp : w.catalog.pending = some t) : Sound r (written w (.target t.id) t) := by
  have ht : t.pending = none := h.charged.fresh t hp
  have hpend : w.pendingAt t.id = none := by
    rw [World.pendingAt, hnone]
    rfl
  refine ⟨charged_target t.id t h.charged rfl ?_ ?_,listed_target t.id t h.listed ?_,fun hb => ?_⟩
  · intro p hp'
    rw [ht] at hp'
    cases hp'
  · intro tx htx he
    rcases h.charged.finished tx htx with ⟨q,hq,-⟩ | hr
    · rw [he, hpend] at hq
      cases hq
    · exact Or.inr hr
  · exact Or.inr ⟨t,hp,rfl⟩
  · apply agreed_target t.id t (h.agreed hb)
    · intro q u c hq
      rw [ht] at hq
      cases hq
    · intro q l hq
      rw [ht] at hq
      cases hq

def Reusable (w : World) (p : Pending) : Prop := ∀ u ∈ p.samples, ∀ c, w.unit u = some c →
  c.target = p.key.target → c.calibrationKey = p.key

theorem sound_target_intent (t old : Target) (p : Pending) (h : Sound r w)
    (hold : w.target id = some old) (hnone : old.pending = none) (hid : t.id = id)
    (ht : t.pending = some p) (hok : PendingOk id p) (hr : w.result p.key = none)
    (hb : r.kept → Reusable w p) (hl : r.kept → ∀ l, r.last id = some l → p.key = l.key) :
    Sound r (written w (.target id) t) := by
  have hpend : w.pendingAt id = none := by
    rw [World.pendingAt, hold]
    exact hnone
  have hfree : ∀ tx ∈ w.txs, tx.key.target = id → (w.result tx.key).isSome := by
    intro tx htx he
    rcases h.charged.finished tx htx with ⟨q,hq,-⟩ | hr'
    · rw [he, hpend] at hq
      cases hq
    · exact hr'
  refine ⟨charged_target id t h.charged hid ?_ ?_,listed_target id t h.listed ?_,fun hb' => ?_⟩
  · intro q hq
    cases ht.symm.trans hq
    refine ⟨hok,?_,?_⟩
    · intro tx htx he
      have hsome := hfree tx htx (by rw [he, hok.target])
      rw [he, hr] at hsome
      cases hsome
    · rw [hr]
      intro hs
      cases hs
  · intro tx htx he
    exact Or.inr (hfree tx htx he)
  · rw [hold]
    exact Or.inl rfl
  · apply agreed_target id t (h.agreed hb')
    · intro q u c hq hu hc hct
      cases ht.symm.trans hq
      exact hb hb' u hu c hc (hct.trans hok.target.symm)
    · intro q l hq
      cases ht.symm.trans hq
      exact hl hb' l

end Target

section Units
variable {w : World} {r : Readings}

theorem sound_unit (u : String) (c : UnitClaim) (h : Sound r w)
    (hx : ∀ tx ∈ w.txs, u ∈ tx.samples → c.target = tx.key.target ∧ c.calibrationKey = tx.key)
    (p : Pending) (hp : w.pendingAt c.target = some p) (hk : c.calibrationKey = p.key) :
    Sound r (written w (.unit u) c) := by
  have hpend := pending_other w (.unit u) c (fun _ h => nomatch h)
  have htarget := target_other w (.unit u) c (fun _ h => nomatch h)
  have hresult := result_other w (.unit u) c (fun _ h => nomatch h)
  have hslot := slot_other w (.unit u) c (fun _ h => nomatch h)
  have hcat := catalog_other w (.unit u) c (fun h => nomatch h)
  refine ⟨⟨?_,?_,?_,?_,?_,?_,h.charged.unique,?_⟩,?_,fun hb => ?_⟩
  · rw [htarget]
    exact h.charged.ids
  · rw [hpend]
    exact h.charged.pendings
  · intro tx htx v hv
    rw [unit_written]
    by_cases he : v = u
    · subst he
      rw [Function.update_self]
      exact ⟨c,rfl,hx tx htx hv⟩
    · rw [Function.update_of_ne he]
      exact h.charged.reserved tx htx v hv
  · rw [hpend, hresult]
    exact h.charged.finished
  · rw [hpend]
    exact h.charged.current
  · rw [hpend, hresult]
    exact h.charged.resolved
  · rw [hcat]
    exact h.charged.fresh
  · exact listed_same h.listed htarget hslot (by rw [hcat]) (by rw [hcat])
  constructor
  · intro id q v d hid hv hd ht
    rw [hpend] at hid
    rw [unit_written] at hd
    by_cases he : v = u
    · subst he
      rw [Function.update_self] at hd
      cases hd
      rw [← ht, hp] at hid
      cases hid
      exact hk
    · rw [Function.update_of_ne he] at hd
      exact (h.agreed hb).claims id q v d hid hv hd ht
  · intro v d l hd ho hl hm
    rw [unit_written] at hd
    by_cases he : v = u
    · subst he
      rw [Function.update_self] at hd
      cases hd
      exact hk.trans ((h.agreed hb).intents _ p l hp hl)
    · rw [Function.update_of_ne he] at hd
      exact (h.agreed hb).reserved v d l hd ho hl hm
  · rw [hpend]
    exact (h.agreed hb).intents

theorem sound_result (key : CalibrationKey) (result : UtilityResult) (h : Sound r w)
    (hp : ∀ id p, w.pendingAt id = some p → p.key = key → p.tx ∈ w.txs) :
    Sound r (written w (.result key) result) := by
  have hpend := pending_other w (.result key) result (fun _ h => nomatch h)
  have htarget := target_other w (.result key) result (fun _ h => nomatch h)
  have hunit := unit_other w (.result key) result (fun _ h => nomatch h)
  have hslot := slot_other w (.result key) result (fun _ h => nomatch h)
  have hcat := catalog_other w (.result key) result (fun h => nomatch h)
  refine ⟨⟨?_,?_,?_,?_,?_,?_,h.charged.unique,?_⟩,?_,fun hb => ?_⟩
  · rw [htarget]
    exact h.charged.ids
  · rw [hpend]
    exact h.charged.pendings
  · rw [hunit]
    exact h.charged.reserved
  · intro tx htx
    rw [hpend, result_written]
    by_cases he : tx.key = key
    · right
      rw [he, Function.update_self]
      rfl
    · rw [Function.update_of_ne he]
      exact h.charged.finished tx htx
  · rw [hpend]
    exact h.charged.current
  · intro id p hid hr
    rw [hpend] at hid
    by_cases he : p.key = key
    · exact hp id p hid he
    · rw [result_written, Function.update_of_ne he] at hr
      exact h.charged.resolved id p hid hr
  · rw [hcat]
    exact h.charged.fresh
  · exact listed_same h.listed htarget hslot (by rw [hcat]) (by rw [hcat])
  · exact agreed_same (h.agreed hb) htarget hunit

theorem sound_executed (id : String) (p : Pending) (h : Sound r w)
    (hp : w.pendingAt id = some p) (hx : ∀ tx ∈ w.txs, tx.key ≠ p.key)
    (hu : ∀ u ∈ p.samples, ∃ c, w.unit u = some c ∧ c.target = id ∧ c.calibrationKey = p.key) :
    Sound r { w with txs := w.txs++[p.tx] } := by
  have hok := h.charged.pendings id p hp
  refine ⟨⟨h.charged.ids,h.charged.pendings,?_,?_,?_,?_,?_,h.charged.fresh⟩,?_,
    fun hb => agreed_framed (h.agreed hb) rfl rfl⟩
  · intro tx htx u hm
    rcases List.mem_append.mp htx with hold | hnew
    · exact h.charged.reserved tx hold u hm
    · rw [List.mem_singleton.mp hnew] at hm ⊢
      obtain ⟨c,hc,ht,hk⟩ := hu u hm
      exact ⟨c,hc,ht.trans hok.target.symm,hk⟩
  · intro tx htx
    rcases List.mem_append.mp htx with hold | hnew
    · exact h.charged.finished tx hold
    rw [List.mem_singleton.mp hnew]
    left
    refine ⟨p,?_,rfl⟩
    show w.pendingAt p.key.target = some p
    rw [hok.target]
    exact hp
  · intro j q hq tx htx he
    rcases List.mem_append.mp htx with hold | hnew
    · exact h.charged.current j q hq tx hold he
    rw [List.mem_singleton.mp hnew] at he ⊢
    have hj : j = id := by
      rw [← (h.charged.pendings j q hq).target, ← hok.target, ← he]
      rfl
    rw [hj] at hq
    cases hp.symm.trans hq
    rfl
  · intro j q hq hr
    exact List.mem_append_left _ (h.charged.resolved j q hq hr)
  · show ((w.txs++[p.tx]).map Tx.key).Nodup
    rw [List.map_append]
    apply List.Nodup.append h.charged.unique (List.nodup_singleton _)
    intro k hk hk'
    obtain ⟨tx,htx,rfl⟩ := List.mem_map.mp hk
    exact hx tx htx (List.mem_singleton.mp hk')
  · exact ⟨h.listed.filled,h.listed.named,h.listed.distinct,h.listed.covered,h.listed.slotted⟩

end Units

section Catalog
variable {w : World} {r : Readings}

theorem sound_cursors (c : Catalog) (h : Sound r w) (ha : c.allocated = w.catalog.allocated)
    (hp : c.pending = w.catalog.pending) : Sound r (written w .catalog c) := by
  have htarget := target_other w .catalog c (fun _ h => nomatch h)
  have hunit := unit_other w .catalog c (fun _ h => nomatch h)
  have hresult := result_other w .catalog c (fun _ h => nomatch h)
  have hslot := slot_other w .catalog c (fun _ h => nomatch h)
  have hcat := catalog_written w c
  refine ⟨charged_same h.charged htarget hunit hresult rfl ?_,
    listed_same h.listed htarget hslot ?_ ?_,fun hb => agreed_same (h.agreed hb) htarget hunit⟩
  · rw [hcat, hp]
    exact h.charged.fresh
  · rw [hcat, ha]
  · rw [hcat, hp]

theorem sound_registration (digest s : String) (h : Sound r w) :
    Sound r (written w (.registration digest) s) := by
  have htarget := target_other w (.registration digest) s (fun _ h => nomatch h)
  have hunit := unit_other w (.registration digest) s (fun _ h => nomatch h)
  have hresult := result_other w (.registration digest) s (fun _ h => nomatch h)
  have hslot := slot_other w (.registration digest) s (fun _ h => nomatch h)
  have hcat := catalog_other w (.registration digest) s (fun h => nomatch h)
  exact ⟨charged_same h.charged htarget hunit hresult rfl (by rw [hcat]; exact h.charged.fresh),
    listed_same h.listed htarget hslot (by rw [hcat]) (by rw [hcat]),
    fun hb => agreed_same (h.agreed hb) htarget hunit⟩

theorem sound_reserve (c : Catalog) (t : Target) (h : Sound r w) (hn : w.catalog.pending = none)
    (ha : c.allocated = w.catalog.allocated+1) (hp : c.pending = some t) (ht : t.pending = none)
    (hnone : w.target t.id = none) : Sound r (written w .catalog c) := by
  have htarget := target_other w .catalog c (fun _ h => nomatch h)
  have hunit := unit_other w .catalog c (fun _ h => nomatch h)
  have hresult := result_other w .catalog c (fun _ h => nomatch h)
  have hslot := slot_other w .catalog c (fun _ h => nomatch h)
  have hcat := catalog_written w c
  have hfree : ∀ n id, w.slot n = some id → n ≤ w.catalog.allocated ∧ (w.target id).isSome := by
    intro n id hs
    obtain ⟨-,hle,hstored | ⟨t',ht',-⟩⟩ := h.listed.named n id hs
    · exact ⟨hle,hstored⟩
    · rw [hn] at ht'
      cases ht'
  refine ⟨charged_same h.charged htarget hunit hresult rfl ?_,⟨?_,?_,?_,?_,?_⟩,
    fun hb => agreed_same (h.agreed hb) htarget hunit⟩
  · intro t' ht'
    rw [hcat, hp] at ht'
    cases ht'
    exact ht
  · intro n h0 hle hlast
    rw [hcat] at hle hlast
    rw [hslot]
    have hlt : n ≠ c.allocated := fun he => by simp [hp] at hlast; exact hlast he
    exact h.listed.filled n h0 (by omega) fun _ => hn
  · intro n id hs
    rw [hslot] at hs
    rw [hcat, htarget]
    obtain ⟨hle,hstored⟩ := hfree n id hs
    exact ⟨(h.listed.named n id hs).1,by omega,Or.inl hstored⟩
  · rw [hslot]
    exact h.listed.distinct
  · intro id hid
    rw [htarget] at hid
    rw [hslot]
    rcases h.listed.covered id hid with hs | ⟨t',ht',-⟩
    · exact Or.inl hs
    · rw [hn] at ht'
      cases ht'
  intro t' ht'
  rw [hcat] at ht' ⊢
  rw [hp] at ht'
  cases ht'
  rw [hslot]
  refine ⟨by omega,?_,?_⟩
  · intro n hs
    have hstored := (hfree n _ hs).2
    rw [hnone] at hstored
    cases hstored
  · intro id hs
    have hle := (hfree _ id hs).1
    omega

theorem sound_slot (t : Target) (n : ℕ) (h : Sound r w) (hp : w.catalog.pending = some t)
    (hn : n = w.catalog.allocated) : Sound r (written w (.slot n) t.id) := by
  have htarget := target_other w (.slot n) t.id (fun _ h => nomatch h)
  have hunit := unit_other w (.slot n) t.id (fun _ h => nomatch h)
  have hresult := result_other w (.slot n) t.id (fun _ h => nomatch h)
  have hcat := catalog_other w (.slot n) t.id (fun h => nomatch h)
  obtain ⟨hpos,honly,-⟩ := h.listed.slotted t hp
  have hown : ∀ m id, (written w (.slot n) t.id).slot m = some id →
      (m = n ∧ id = t.id) ∨ (m ≠ n ∧ w.slot m = some id) := by
    intro m id hm
    rw [slot_written] at hm
    by_cases he : m = n
    · subst he
      rw [Function.update_self] at hm
      cases hm
      exact Or.inl ⟨rfl,rfl⟩
    · rw [Function.update_of_ne he] at hm
      exact Or.inr ⟨he,hm⟩
  refine ⟨charged_same h.charged htarget hunit hresult rfl (by rw [hcat]; exact h.charged.fresh),⟨?_,?_,?_,?_,?_⟩,
    fun hb => agreed_same (h.agreed hb) htarget hunit⟩
  · intro m h0 hle hlast
    rw [hcat] at hle hlast
    rw [slot_written]
    by_cases he : m = n
    · rw [he, Function.update_self]
      rfl
    · rw [Function.update_of_ne he]
      exact h.listed.filled m h0 hle hlast
  · intro m id hm
    rw [hcat, htarget]
    rcases hown m id hm with ⟨rfl,rfl⟩ | ⟨-,hm⟩
    · exact ⟨by omega,by omega,Or.inr ⟨t,hp,hn,rfl⟩⟩
    · exact h.listed.named m id hm
  · intro m m' id hm hm'
    rcases hown m id hm with ⟨rfl,rfl⟩ | ⟨he,hs⟩
    · rcases hown m' _ hm' with ⟨rfl,-⟩ | ⟨he',hs'⟩
      · rfl
      · exact absurd ((honly m' hs').trans hn.symm) he'
    · rcases hown m' id hm' with ⟨rfl,rfl⟩ | ⟨-,hs'⟩
      · exact absurd ((honly m hs).trans hn.symm) he
      · exact h.listed.distinct m m' id hs hs'
  · intro id hid
    rw [htarget] at hid
    rw [hcat]
    rcases h.listed.covered id hid with ⟨m,hm⟩ | hpend
    · by_cases he : m = n
      · subst he
        right
        rw [hn] at hm
        exact ⟨t,hp,((h.listed.slotted t hp).2.2 id hm).symm⟩
      · left
        refine ⟨m,?_⟩
        rw [slot_written, Function.update_of_ne he]
        exact hm
    · exact Or.inr hpend
  intro t' ht'
  rw [hcat] at ht' ⊢
  cases hp.symm.trans ht'
  refine ⟨hpos,?_,?_⟩
  · intro m hm
    rcases hown m _ hm with ⟨rfl,-⟩ | ⟨-,hm⟩
    · exact hn
    · exact honly m hm
  · intro id hm
    rw [← hn] at hm
    rcases hown n id hm with ⟨-,rfl⟩ | ⟨he,-⟩
    · rfl
    · exact absurd rfl he

theorem sound_clear (c : Catalog) (t : Target) (h : Sound r w)
    (hp : w.catalog.pending = some t) (ha : c.allocated = w.catalog.allocated)
    (hc : c.pending = none) (hslot : w.slot c.allocated = some t.id)
    (hstored : (w.target t.id).isSome) : Sound r (written w .catalog c) := by
  have htarget := target_other w .catalog c (fun _ h => nomatch h)
  have hunit := unit_other w .catalog c (fun _ h => nomatch h)
  have hresult := result_other w .catalog c (fun _ h => nomatch h)
  have hslots := slot_other w .catalog c (fun _ h => nomatch h)
  have hcat := catalog_written w c
  refine ⟨charged_same h.charged htarget hunit hresult rfl ?_,⟨?_,?_,?_,?_,?_⟩,
    fun hb => agreed_same (h.agreed hb) htarget hunit⟩
  · intro t' ht'
    rw [hcat, hc] at ht'
    cases ht'
  · intro n h0 hle _
    rw [hcat] at hle
    rw [hslots]
    by_cases he : n = c.allocated
    · rw [he, hslot]
      rfl
    · exact h.listed.filled n h0 (by omega) fun he' => absurd (he'.trans ha.symm) he
  · intro n id hn
    rw [hslots] at hn
    rw [hcat, htarget]
    obtain ⟨h0,hle,hs | ⟨t',ht',-,rfl⟩⟩ := h.listed.named n id hn
    · exact ⟨h0,by omega,Or.inl hs⟩
    · cases hp.symm.trans ht'
      exact ⟨h0,by omega,Or.inl hstored⟩
  · rw [hslots]
    exact h.listed.distinct
  · intro id hid
    rw [htarget] at hid
    rw [hslots]
    rcases h.listed.covered id hid with hs | ⟨t',ht',rfl⟩
    · exact Or.inl hs
    · cases hp.symm.trans ht'
      exact Or.inl ⟨_,hslot⟩
  · intro t' ht'
    rw [hcat, hc] at ht'
    cases ht'

end Catalog

end AndaBrain.Utility
