import AndaBrain.UtilityLedger

/-!
# The utility operations keep the guarantee

Every operation is followed write by write. After each of its writes, whether or
not it is acknowledged, the journal is sound.
-/

set_option autoImplicit false

namespace AndaBrain.Utility
open Foundation.Resumption Foundation.ConditionalStore

section Writing
variable {α : Type} {r : Readings} {w : World}

def Keeps (r : Readings) (Q : α → World → Prop) (p : M α) (w : World) : Prop :=
  Safe (fun _ t => Sound r t) Q (fun _ t => Sound r t) p w

variable {β : Type}

theorem keeps_bind (p : M α) (f : α → M β) {Q : β → World → Prop}
    (h : Keeps r (fun a t => Keeps r Q (f a) t) p w) : Keeps r Q (p >>= f) w :=
  safe_bind p f w h

theorem keeps_mono (p : M α) {Q R : α → World → Prop} (h : Keeps r Q p w)
    (hq : ∀ a t, Q a t → R a t) : Keeps r R p w :=
  safe_mono p w h (fun _ _ hg => hg) hq fun _ _ he => he

theorem keeps_after (p : M α) (f : α → M β) {Q : β → World → Prop} (hp : Silent p)
    (h : Sound r w) (hf : ∀ a, Keeps r Q (f a) w) : Keeps r Q (p >>= f) w :=
  safe_after p f w hp (fun _ => h) hf

theorem keeps_refuse (c : Prop) [Decidable c] (e : String) (f : Unit → M β) {Q : β → World → Prop}
    (h : Sound r w) (hf : ¬c → Keeps r Q (f ()) w) : Keeps r Q (refuseIf c e >>= f) w := by
  apply keeps_bind
  exact safe_refuse c e w (fun _ => h) hf

theorem keeps_save (k : Key) (v : Entry k) {Q : Unit → World → Prop} (h : Sound r w)
    (hw : Sound r (written w k v)) (hq : Q () (written w k v))
    (hsame : value w.journal k = some v → Q () w) : Keeps r Q (confirmedSave k v) w :=
  safe_confirmed_save k v w hw hq hsame (fun _ => h) fun _ => hw

theorem keeps_create (k : Key) (v : Entry k) {Q : Unit → World → Prop} (h : Sound r w)
    (hw : value w.journal k = none → Sound r (written w k v))
    (hq : value w.journal k = none → Q () (written w k v))
    (hsame : value w.journal k = some v → Q () w) : Keeps r Q (confirmedPut k v .create) w := by
  have hnone : admits .create (w.journal.cells k) = true → value w.journal k = none := by
    intro ha
    exact value_none _ _ (Option.isNone_iff_eq_none.mp ha)
  exact safe_confirmed_put k v .create w (fun ha => hw (hnone ha)) (fun ha => hq (hnone ha)) hsame
    (fun _ => h) fun ha _ => hw (hnone ha)

theorem keeps_read (k : Key) (f : Option (Entry k) → M β) {Q : β → World → Prop} (h : Sound r w)
    (hf : Keeps r Q (f (value w.journal k)) w) : Keeps r Q (readValue k >>= f) w := by
  apply keeps_bind
  apply safe_bind
  apply safe_read
  · exact hf
  · intro _
    exact h

theorem keeps_target (id : String) (f : Option Target → M β) {Q : β → World → Prop}
    (h : Sound r w) (hf : Keeps r Q (f (w.target id)) w) : Keeps r Q (findTarget id >>= f) w :=
  keeps_read (.target id) f h hf

theorem keeps_unit (id : String) (f : Option UnitClaim → M β) {Q : β → World → Prop}
    (h : Sound r w) (hf : Keeps r Q (f (w.unit id)) w) : Keeps r Q (findUnit id >>= f) w :=
  keeps_read (.unit id) f h hf

theorem keeps_catalog (f : Option Catalog → M β) {Q : β → World → Prop}
    (h : Sound r w) (hf : ∀ found, found.getD Catalog.default = w.catalog → Keeps r Q (f found) w) :
    Keeps r Q (findCatalog >>= f) w :=
  keeps_read .catalog f h (hf _ rfl)

end Writing

theorem read_value_silent (k : Key) : Silent (readValue k) :=
  silent_bind _ _ (silent_query _) fun _ => trivial

theorem catalog_same (w : World) (c : Catalog)
    (h : value w.journal .catalog = some c) : w.catalog = c :=
  congrArg (fun found : Option Catalog => found.getD Catalog.default) h

section Catalog
variable {r : Readings} {w : World}

def Settled (r : Readings) (w : World) : Prop := Sound r w ∧ w.catalog.pending = none

variable (c : Catalog) (t : Target)

theorem clear_keeps (h : Sound r w) (hc : w.catalog = c)
    (hp : c.pending = some t) (hslot : w.slot c.allocated = some t.id)
    (hstored : (w.target t.id).isSome) :
    Keeps r (fun _ t => Settled r t) (confirmedSave .catalog { c with pending := none }) w := by
  subst hc
  have hw := sound_clear { w.catalog with pending := none } t h hp rfl rfl hslot hstored
  apply keeps_save _ _ h hw
  · refine ⟨hw,?_⟩
    rw [catalog_written]
  · intro hv
    refine ⟨h,?_⟩
    rw [catalog_same w _ hv]

theorem slot_keeps (f : Unit → M Unit) {Q : Unit → World → Prop}
    (h : Sound r w) (hc : w.catalog = c) (hp : c.pending = some t)
    (hf : ∀ v, Sound r v → v.catalog = c → v.slot c.allocated = some t.id →
      v.target = w.target → Keeps r Q (f ()) v) :
    Keeps r Q (confirmedPut (.slot c.allocated) t.id .create >>= f) w := by
  subst hc
  have hw := sound_slot t w.catalog.allocated h hp rfl
  apply keeps_bind
  apply keeps_create _ _ h
  · intro _
    exact hw
  · intro _
    apply hf _ hw
    · exact catalog_other w (.slot w.catalog.allocated) t.id (fun h => nomatch h)
    · rw [slot_written, Function.update_self]
    · exact target_other w (.slot w.catalog.allocated) t.id (fun _ h => nomatch h)
  · intro hv
    exact hf w h rfl hv rfl

theorem repair_keeps (h : Sound r w) (hc : w.catalog = c)
    (hp : c.pending = some t) : Keeps r (fun _ t => Settled r t) (repair c t) w := by
  subst hc
  have tail : ∀ v, Sound r v → v.catalog = w.catalog → (v.target t.id).isSome →
      Keeps r (fun _ t => Settled r t) (do
        confirmedPut (.slot w.catalog.allocated) t.id .create
        confirmedSave .catalog { w.catalog with pending := none }) v := by
    intro v hv hvc hvt
    apply slot_keeps w.catalog t _ hv hvc hp
    intro u hu huc hus hut
    exact clear_keeps w.catalog t hu huc hp hus (by rw [hut]; exact hvt)
  apply keeps_target t.id _ h
  apply keeps_bind
  apply safe_do_if
  · intro hnone
    have hw := sound_target_first t h (Option.isNone_iff_eq_none.mp hnone) hp
    apply keeps_create _ _ h
    · intro _
      exact hw
    · intro _
      apply tail _ hw
      · exact catalog_other w (.target t.id) t (fun h => nomatch h)
      · rw [target_written, Function.update_self]
        rfl
    · intro hv
      apply tail w h rfl
      rw [World.target, hv]
      rfl
  · intro hsome
    apply tail w h rfl
    cases hv : w.target t.id with
    | none =>
      rw [hv] at hsome
      exact absurd rfl hsome
    | some _ => rfl

theorem register_keeps (site : Site) (h : Sound r w) :
    Keeps r (fun _ t => Settled r t) (register site) w := by
  apply keeps_after _ _ (silent_lift _) h
  intro _
  have tail : ∀ v, Sound r v → Keeps r (fun _ t => Settled r t) (do
      let catalog ← findCatalog
      repairPending catalog) v := by
    intro v hv
    apply keeps_catalog _ hv
    intro found hfound
    cases found with
    | none => exact ⟨hv,by rw [← hfound]; rfl⟩
    | some c =>
      have hcat : v.catalog = c := hfound.symm
      rw [repairPending.eq_def]
      cases hp : c.pending with
      | none =>
        simp only [hp]
        exact ⟨hv,by rw [hcat, hp]⟩
      | some t =>
        simp only [hp]
        exact repair_keeps c t hv hcat hp
  apply keeps_bind
  apply keeps_after (findRegistration site.config.digest) _ (read_value_silent _) h
  intro found
  cases found with
  | none =>
    have hw := sound_registration site.config.digest site.config.digest h
    apply keeps_create _ _ h
    · intro _
      exact hw
    · intro _
      exact tail _ hw
    · intro _
      exact tail w h
  | some old =>
    apply safe_refuse
    · intro _
      exact h
    · intro _
      exact tail w h

theorem fill_keeps (h : Sound r w) (hc : w.catalog = c)
    (hp : c.pending = some t) (hnone : w.target t.id = none) :
    Keeps r (fun _ t => Settled r t) (do
      confirmedPut (.slot c.allocated) t.id .create
      confirmedSave (.target t.id) t
      confirmedSave .catalog { c with pending := none }) w := by
  apply slot_keeps c t _ h hc hp
  intro u hu huc hus hut
  have hstored := sound_target_first t hu (by rw [hut]; exact hnone) (by rw [huc]; exact hp)
  apply keeps_bind
  apply keeps_save _ _ hu hstored
  · apply clear_keeps c t hstored _ hp
    · rw [slot_other u (.target t.id) t (fun _ h => nomatch h)]
      exact hus
    · rw [target_written, Function.update_self]
      rfl
    · rw [catalog_other u (.target t.id) t (fun h => nomatch h)]
      exact huc
  · intro hsame
    have hcontra : u.target t.id = some t := hsame
    rw [hut, hnone] at hcontra
    cases hcontra

theorem publish_keeps (h : Settled r w) (ht : t.pending = none)
    (hnone : w.target t.id = none) :
    Keeps r (fun _ t => Settled r t) (publish w.catalog t) w := by
  obtain ⟨h,hn⟩ := h
  apply keeps_refuse _ _ _ h
  intro _
  have reserved : ∀ c : Catalog, c.allocated = w.catalog.allocated+1 → c.pending = some t →
      Keeps r (fun _ t => Settled r t) (do
        confirmedSave .catalog c
        confirmedPut (.slot c.allocated) t.id .create
        confirmedSave (.target t.id) t
        confirmedSave .catalog { c with pending := none }) w := by
    intro c ha hp
    have hw := sound_reserve c t h hn ha hp ht hnone
    apply keeps_bind
    apply keeps_save _ _ h hw
    · apply fill_keeps c t hw (catalog_written w c) hp
      rw [target_other w .catalog c (fun _ h => nomatch h)]
      exact hnone
    · intro hv
      exact fill_keeps c t h (catalog_same w c hv) hp hnone
  exact reserved _ rfl rfl

end Catalog

section Calibration
variable {r : Readings} {w : World} {target : Target} {p : Pending}

structure Working (r : Readings) (target : Target) (p : Pending) (w : World) : Prop where
  sound : Sound r w
  stored : w.target target.id = some target
  pending : target.pending = some p

def Uncommitted (p : Pending) (w : World) : Prop := ∀ tx ∈ w.txs, tx.key ≠ p.key

def Held (p : Pending) (units : List String) (w : World) : Prop :=
  ∀ u ∈ units, ∃ c, w.unit u = some c ∧ c.target = p.key.target ∧ c.calibrationKey = p.key

theorem working_pending (h : Working r target p w) : w.pendingAt target.id = some p := by
  rw [World.pendingAt, h.stored]
  exact h.pending

theorem working_ok (h : Working r target p w) : PendingOk target.id p :=
  h.sound.charged.pendings target.id p (working_pending h)

theorem committed_tx (h : Working r target p w) (hc : (w.committed p).isSome) : p.tx ∈ w.txs := by
  obtain ⟨tx,htx⟩ := Option.isSome_iff_exists.mp hc
  have hm := List.mem_of_find?_eq_some htx
  have hk : tx.key = p.key := by
    have hs := List.find?_some htx
    simp at hs
    exact hs.1
  rw [h.sound.charged.current target.id p (working_pending h) tx hm hk] at hm
  exact hm

/-- With the key of the intent, only the intent itself can have been committed. -/
theorem uncommitted_of_none (h : Working r target p w) (hc : w.committed p = none) :
    Uncommitted p w := by
  intro tx htx hk
  have heq := h.sound.charged.current target.id p (working_pending h) tx htx hk
  have hnone := List.find?_eq_none.mp hc tx htx
  rw [heq] at hnone
  exact hnone (by simp [Pending.tx])

theorem recovered_keeps {α : Type} (f : Option String → M α) {Q : α → World → Prop}
    (h : Working r target p w) (hnone : Uncommitted p w → Keeps r Q (f none) w)
    (hsome : ∀ reference, p.tx ∈ w.txs → Keeps r Q (f (some reference)) w) :
    Keeps r Q (recovered p >>= f) w := by
  apply keeps_bind
  apply safe_query
  · intro i found hf
    cases hd : i.describe with
    | error e => simp [hd] at hf
    | ok reference =>
      simp only [hd] at hf
      cases hc : w.committed p with
      | none =>
        simp only [hc, Except.ok.injEq] at hf
        rw [← hf]
        exact hnone (uncommitted_of_none h hc)
      | some tx =>
        simp only [hc] at hf
        by_cases hr : tx.request.receipt = p.result.receipt
        · rw [if_pos hr] at hf
          cases hf
          exact hsome reference (committed_tx h (by rw [hc]; rfl))
        · rw [if_neg hr] at hf
          cases hf
  · intro _ _ _
    exact h.sound

theorem dropped_sound (h : Working r target p w) (hu : Uncommitted p w) :
    Sound r (written w (.target target.id) target.dropped) :=
  sound_target_done target.id target.dropped target p h.sound h.stored rfl rfl h.pending
    fun hx => absurd rfl (hu p.tx hx)

theorem drop_keeps (h : Working r target p w) (hu : Uncommitted p w) :
    Keeps r (fun _ t => Sound r t) (confirmedSave (.target target.id) target.dropped) w :=
  keeps_save _ _ h.sound (dropped_sound h hu) (dropped_sound h hu) fun _ => h.sound

structure Holding (r : Readings) (target : Target) (p : Pending) (units : List String) (w : World) :
    Prop extends Working r target p w where
  uncommitted : Uncommitted p w
  held : Held p units w

theorem working_other (k : Key) (v : Entry k) (h : Working r target p w)
    (hk : ∀ id, Key.target id ≠ k) (hw : Sound r (written w k v)) :
    Working r target p (written w k v) :=
  ⟨hw,(congrFun (target_other w k v hk) target.id).trans h.stored,h.pending⟩

theorem hold_unit_keeps (u : String) (done : List String) (h : Holding r target p done w) :
    Keeps r (fun _ t => Holding r target p (u::done) t) (holdUnit target p u) w := by
  have hok := working_ok h.toWorking
  have hsame : ∀ c, w.unit u = some c → c.target = target.id →
      c.calibrationKey = p.result.receipt.calibrationKey → Holding r target p (u::done) w := by
    intro c hc ht hk
    refine ⟨h.toWorking,h.uncommitted,?_⟩
    intro v hv
    rcases List.mem_cons.mp hv with rfl | hv
    · exact ⟨c,hc,ht.trans hok.target.symm,hk.trans hok.key⟩
    · exact h.held v hv
  apply keeps_unit u _ h.sound
  cases hc : w.unit u with
  | some c =>
    apply safe_refuse
    · intro _
      exact h.sound
    · intro hn
      rw [not_or, not_not, not_not] at hn
      exact hsame c hc hn.1 hn.2
  | none =>
    have hw : Sound r (written w (.unit u) ⟨target.id,p.result.receipt.calibrationKey,none⟩) := by
      apply sound_unit u _ h.sound _ p (working_pending h.toWorking) hok.key
      intro tx htx hu
      obtain ⟨c,hc',-⟩ := h.sound.charged.reserved tx htx u hu
      rw [hc] at hc'
      cases hc'
    apply keeps_create _ _ h.sound
    · intro _
      exact hw
    · intro _
      refine ⟨working_other _ _ h.toWorking (fun _ h => nomatch h) hw,h.uncommitted,?_⟩
      intro v hv
      rw [unit_written]
      by_cases he : v = u
      · rw [he, Function.update_self]
        exact ⟨_,rfl,hok.target.symm,hok.key⟩
      · rw [Function.update_of_ne he]
        exact h.held v ((List.mem_cons.mp hv).resolve_left he)
    · intro hv
      exact hsame _ hv rfl rfl

theorem hold_units_keeps (units done : List String) (h : Holding r target p done w) :
    Keeps r (fun _ t => Holding r target p (units.reverse++done) t) (holdUnits target p units) w := by
  induction units generalizing w done with
  | nil => exact h
  | cons u rest ih =>
    apply keeps_bind
    apply keeps_mono _ (hold_unit_keeps u done h)
    intro _ t ht
    apply keeps_mono _ (ih (u::done) ht)
    intro _ v hv
    rwa [List.reverse_cons, List.append_assoc]

theorem recheck_keeps (evidence : Entries) (h : Working r target p w) (hu : Uncommitted p w) :
    Keeps r (fun _ t => t = w) (recheck target evidence) w := by
  induction evidence with
  | nil => rfl
  | cons e rest ih =>
    apply keeps_after _ _ (silent_query _) h.sound
    intro current
    apply safe_ite
    · intro _
      exact ih
    · intro _
      apply keeps_bind
      exact keeps_mono _ (drop_keeps h hu) fun _ _ hs => hs

theorem execute_keeps {α : Type} (f : Except (Bool × String) String → M α)
    {Q : α → World → Prop} (h : Holding r target p p.samples w)
    (hok : ∀ reference t, Working r target p t → p.tx ∈ t.txs → Keeps r Q (f (.ok reference)) t)
    (herr : ∀ e t, Working r target p t → Keeps r Q (f (.error e)) t) :
    Keeps r Q (execute p >>= f) w := by
  have hcommit : Working r target p { w with txs := w.txs++[p.tx] } := by
    refine ⟨?_,h.stored,h.pending⟩
    apply sound_executed target.id p h.sound (working_pending h.toWorking) h.uncommitted
    intro u hu
    obtain ⟨c,hc,ht,hk⟩ := h.held u hu
    exact ⟨c,hc,ht.trans (working_ok h.toWorking).target,hk⟩
  have hnone : ¬(w.committed p).isSome = true := by
    intro hc
    exact h.uncommitted p.tx (committed_tx h.toWorking hc) rfl
  have hin : p.tx ∈ w.txs++[p.tx] := List.mem_append_right _ (List.mem_singleton.mpr rfl)
  apply keeps_bind
  intro i
  cases hi : i.execute with
  | refused conflict e =>
    simp only [hi]
    exact ⟨Or.inl trivial,herr _ w h.toWorking⟩
  | lost conflict e =>
    simp only [hi, if_neg hnone]
    exact ⟨Or.inr hcommit.sound,herr _ _ hcommit⟩
  | done reference =>
    simp only [hi, if_neg hnone]
    exact ⟨Or.inr hcommit.sound,hok reference _ hcommit hin⟩

theorem drop_on_conflict_keeps (conflict : Bool) (h : Working r target p w) :
    Keeps r (fun _ t => Sound r t) (dropOnConflict target p conflict) w := by
  apply safe_ite
  · intro _
    apply recovered_keeps _ h
    · intro hu
      exact drop_keeps h hu
    · intro _ _
      exact h.sound
  · intro _
    exact h.sound

theorem execute_new_keeps {α : Type} (f : String → M α) {Q : α → World → Prop}
    (h : Working r target p w) (hu : Uncommitted p w)
    (hf : ∀ reference t, Working r target p t → p.tx ∈ t.txs → Keeps r Q (f reference) t) :
    Keeps r Q (executeNew target p >>= f) w := by
  apply keeps_bind
  apply keeps_bind
  apply keeps_mono _ (hold_units_keeps p.samples [] ⟨h,hu,by intro u hu; cases hu⟩)
  intro _ t ht
  have held : Holding r target p p.samples t := by
    refine ⟨ht.toWorking,ht.uncommitted,?_⟩
    intro u hu
    exact ht.held u (by simpa using hu)
  have tail : ∀ (g : Except (Bool × String) String → M String) (v : World), v = t →
      (∀ reference, g (.ok reference) = pure reference) →
      (∀ conflict e, g (.error (conflict,e)) = do
        dropOnConflict target p conflict
        .fail ("utility native commit unresolved: "++e)) →
      Keeps r (fun a t => Keeps r Q (f a) t) (execute p >>= g) v := by
    intro g v hv hok herror
    subst hv
    apply execute_keeps _ held
    · intro reference u hu' hx
      rw [hok]
      exact hf reference u hu' hx
    · intro e u hu'
      rw [herror]
      apply keeps_bind
      exact keeps_mono _ (drop_on_conflict_keeps e.1 hu') fun _ _ hs => hs
  refine safe_ite _ _ _ _ ?_ ?_
  · intro _
    apply keeps_bind
    exact keeps_mono _ (recheck_keeps p.evidence ht.toWorking ht.uncommitted) fun _ v hv =>
      tail _ v hv (fun _ => rfl) fun _ _ => rfl
  · intro _
    exact tail _ t rfl (fun _ => rfl) fun _ _ => rfl

variable (result : UtilityResult)

theorem consume_units_keeps (units : List String)
    (hr : result.receipt = p.result.receipt) (hs : ∀ u ∈ units, u ∈ p.samples)
    (h : Working r target p w) (hx : p.tx ∈ w.txs) :
    Keeps r (fun _ t => Working r target p t ∧ p.tx ∈ t.txs)
      (consumeUnits target result units) w := by
  induction units generalizing w with
  | nil => exact ⟨h,hx⟩
  | cons u rest ih =>
    have hok := working_ok h
    have hkey : result.receipt.calibrationKey = p.key := by
      rw [hr]
      exact hok.key
    have hw : Sound r (written w (.unit u)
        ⟨target.id,result.receipt.calibrationKey,result.evidenceRef⟩) := by
      apply sound_unit u _ h.sound _ p (working_pending h) hkey
      intro tx htx hu
      have heq := charged_once w h.sound.charged tx p.tx htx hx u hu
        (hs u List.mem_cons_self)
      rw [heq]
      exact ⟨hok.target.symm,hkey⟩
    have hrest : ∀ v ∈ rest, v ∈ p.samples := fun v hv => hs v (List.mem_cons_of_mem u hv)
    apply keeps_bind
    apply keeps_save _ _ h.sound hw
    · exact ih hrest (working_other _ _ h (fun _ h => nomatch h) hw) hx
    · intro _
      exact ih hrest h hx

theorem settled_id : (target.settled p result).id = target.id := by
  rw [Target.settled]
  split <;> rfl

theorem settle_keeps (h : Working r target p w)
    (hr : (w.result p.key).isSome) :
    Keeps r (fun _ t => Sound r t) (do
      confirmedSave (.target target.id) (target.settled p result)
      pure result) w := by
  have hw := sound_target_done target.id (target.settled p result) target p h.sound h.stored
    (settled_id result) rfl h.pending fun _ => hr
  apply keeps_bind
  exact keeps_save _ _ h.sound hw hw fun _ => h.sound

theorem close_keeps (hr : result.receipt = p.result.receipt)
    (h : Working r target p w) (hx : p.tx ∈ w.txs) :
    Keeps r (fun _ t => Sound r t) (do
      consumeUnits target result p.samples
      confirmedPut (.result result.receipt.calibrationKey) result .create
      confirmedSave (.target target.id) (target.settled p result)
      pure result) w := by
  apply keeps_bind
  apply keeps_mono _ (consume_units_keeps result p.samples hr (fun _ hu => hu) h hx)
  intro _ t ht
  obtain ⟨ht,hx⟩ := ht
  have hok := working_ok ht
  have hkey : result.receipt.calibrationKey = p.key := by
    rw [hr]
    exact hok.key
  have hw : Sound r (written t (.result result.receipt.calibrationKey) result) := by
    apply sound_result _ _ ht.sound
    intro id q hq hk
    have he : id = target.id := by
      rw [← (ht.sound.charged.pendings id q hq).target, hk, hkey, hok.target]
    rw [he] at hq
    cases (working_pending ht).symm.trans hq
    exact hx
  apply keeps_bind
  apply keeps_create _ _ ht.sound
  · intro _
    exact hw
  · intro _
    apply settle_keeps result (working_other (.result _) result ht (fun _ h => nomatch h) hw)
    rw [result_written, hkey, Function.update_self]
    rfl
  · intro hv
    apply settle_keeps result ht
    rw [← hkey]
    exact Option.isSome_iff_exists.mpr ⟨_,hv⟩

theorem finish_keeps (reference : String) (h : Working r target p w) (hx : p.tx ∈ w.txs) :
    Keeps r (fun _ t => Sound r t) (finish target p reference) w :=
  close_keeps _ rfl h hx

theorem commit_keeps (h : Working r target p w) :
    Keeps r (fun _ t => Sound r t) (commit target p) w := by
  apply keeps_after _ _ (silent_query _) h.sound
  intro _
  apply recovered_keeps _ h
  · intro hu
    exact execute_new_keeps _ h hu fun reference t ht hx => finish_keeps reference ht hx
  · intro reference hx
    exact finish_keeps reference h hx

end Calibration

end AndaBrain.Utility
