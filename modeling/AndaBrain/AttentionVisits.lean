import AndaBrain.AttentionSteps
import AndaBrain.Foundation.Rotation

/-!
# Every slot is visited

While each visit keeps the failures of its Space to itself, a pass goes through its whole
page and the cursor goes round.
-/

set_option autoImplicit false

namespace AndaBrain.Attention
open Foundation

section Entries
variable {host : Host} {e : Entry} {id : String}

theorem valid_renewed (native : AttentionConfig) {version dirty : ℕ} (h : e.valid id host.shard = true)
    (hversion : next e.version = .ok version) (hdirty : next e.dirty = .ok dirty) :
    (Host.renewed e native version dirty).valid id host.shard = true := by
  obtain ⟨rfl,hv⟩ := next_ok hversion
  obtain ⟨rfl,hd⟩ := next_ok hdirty
  simp only [Entry.valid, Host.renewed, Entry.version, Entry.dirty, Checkpoint.fresh,
    Bool.and_eq_true, decide_eq_true_eq, bne_iff_ne, ne_eq, beq_iff_eq] at h hv hd ⊢
  simp only [List.length_nil]
  grind

theorem valid_edited {version dirty : ℕ} (h : e.valid id host.shard = true)
    (hversion : next e.version = .ok version) (hdirty : next e.dirty = .ok dirty) :
    (Host.edited e version dirty).valid id host.shard = true := by
  obtain ⟨rfl,hv⟩ := next_ok hversion
  obtain ⟨rfl,hd⟩ := next_ok hdirty
  simp only [Entry.valid, Host.edited, Entry.version, Entry.dirty,
    Bool.and_eq_true, decide_eq_true_eq, bne_iff_ne, ne_eq, beq_iff_eq] at h hv hd ⊢
  grind

theorem replace_first_length {α : Type} (p : α → Bool) (new : α) (rows : List α) :
    (Host.replaceFirst p new rows).length = rows.length := by
  induction rows with
  | nil => rfl
  | cons a rows ih =>
    unfold Host.replaceFirst
    split <;> simp [ih]

/-- A recheck finds its place when there is room for it, and then the entry stays valid. -/
theorem schedule_apply (recheck : Recheck) (hroom : e.room recheck = true)
    (h : e.valid id host.shard = true) :
    ∃ e', Host.Change.apply (.schedule { recheck with notified := false }) e = .ok e' ∧
      e'.valid id host.shard = true ∧ e'.registration = e.registration ∧ e'.slot = e.slot := by
  have hrechecks : ∀ rows : List Recheck, rows.length ≤ 128 →
      ({ e with rechecks := rows } : Entry).valid id host.shard = true := by
    intro rows hrows
    simp only [Entry.valid, Bool.and_eq_true, decide_eq_true_eq] at h ⊢
    grind
  have hlen : e.rechecks.length ≤ 128 := by
    simp only [Entry.valid, Bool.and_eq_true, decide_eq_true_eq] at h
    grind
  simp only [Host.Change.apply]
  by_cases hkey : (e.rechecks.any fun r => r.key == recheck.key) = true
  · rw [if_pos hkey]
    exact ⟨_,rfl,hrechecks _ (by rw [replace_first_length]; exact hlen),rfl,rfl⟩
  rw [if_neg hkey]
  have hshort : e.rechecks.length < 128 := by
    simp only [Entry.room, Bool.or_eq_true, decide_eq_true_eq] at hroom
    exact hroom.resolve_left hkey
  rw [if_neg (by omega)]
  refine ⟨_,rfl,hrechecks _ ?_,rfl,rfl⟩
  rw [List.length_append]
  exact hshort

end Entries

section Schedule
variable (host : Host)

def Standing (st : Store) (slot : ℕ) (e : Entry) : Prop := host.readSlot st slot = .ok (some e)

variable {host} {st : Store} {slot : ℕ} {e : Entry}

/-- A new valid entry of the same Space and slot stands where the old one stood. -/
theorem standing_set (h : Standing host st slot e) (e' : Entry)
    (hscope : e'.registration.scope = e.registration.scope) (hslot : e'.slot = e.slot)
    (hvalid : e'.valid e.id host.shard = true) :
    Standing host (st.setEntry (host.digest e.id) e') slot e' := by
  obtain ⟨hindex,hentry,rfl⟩ := (read_slot_iff host st slot e).mp h
  have hid : e'.id = e.id := congrArg RuntimeScope.spaceId hscope
  apply (read_slot_iff host _ _ _).mpr
  refine ⟨?_,?_,hslot⟩
  · rw [set_entry_index, hindex, Host.indexOf, Host.indexOf, hscope]
  · rw [hid]
    exact (entry_iff host _ _ _).mpr
      ⟨((entry_iff host st e.id e).mp hentry).1,set_entry_self ..,hvalid⟩

theorem put_index_same (h : st.index e.slot = some (host.indexOf e)) :
    host.putIndex st e .done = (st,.ok e) := by
  unfold Host.putIndex
  rw [h]
  simp [put_done]

theorem register_inner_ok (h : Standing host st slot e) (a : ScheduleAnswers) (hreg : Registers e a)
    : ∃ e', registerInner host st e.id a = (st.setEntry (host.digest e.id) e',.ok e') ∧ Standing
    host (st.setEntry (host.digest e.id) e') slot e' ∧ e'.id = e.id ∧ e'.rechecks = e.rechecks ∧
    e'.version = e.version+1 ∧ e'.dirty = e.dirty+1 := by
  obtain ⟨hindex,hentry,rfl⟩ := (read_slot_iff host st slot e).mp h
  obtain ⟨native,hnative,hscope⟩ := hreg.native
  have hversion := next_of_le (n := e.version) (by have := hreg.version; omega)
  have hdirty := next_of_le (n := e.dirty) (by have := hreg.dirty; omega)
  have hvalid := valid_renewed native ((entry_iff host st e.id e).mp hentry).2.2 hversion hdirty
  have hstanding := standing_set h (Host.renewed e native (e.version+1) (e.dirty+1)) rfl rfl hvalid
  refine ⟨Host.renewed e native (e.version+1) (e.dirty+1),?_,hstanding,rfl,rfl,rfl,rfl⟩
  have hput := put_index_same (e := Host.renewed e native (e.version+1) (e.dirty+1))
    ((read_slot_iff host _ _ _).mp hstanding).1
  have hregister : host.register st e.id native a.enabled a.puts =
      (st.setEntry (host.digest e.id) (Host.renewed e native (e.version+1) (e.dirty+1)),
        .ok (Host.renewed e native (e.version+1) (e.dirty+1))) := by
    unfold Host.register
    rw [hentry]
    simp only
    rw [if_neg (by simpa using hscope)]
    unfold Host.enroll
    rw [hversion, hdirty]
    simp only
    rw [hreg.puts.1, hreg.puts.2.1, put_done]
    exact hput
  unfold registerInner
  rw [hnative]
  simp only
  rw [hregister]
  simp only
  rw [hreg.configured]
  rfl

theorem edit_ok (h : Standing host st slot e) (recheck : Recheck) (hroom : e.room recheck = true)
    (hv : e.version+1 ≤ maxCounter) (hd : e.dirty+1 ≤ maxCounter) : ∃ e',
    host.edit st e.id (.schedule { recheck with notified := false }) .done =
      (st.setEntry (host.digest e.id) e',.ok ()) ∧
      Standing host (st.setEntry (host.digest e.id) e') slot e' ∧ e'.id = e.id := by
  obtain ⟨hindex,hentry,rfl⟩ := (read_slot_iff host st slot e).mp h
  have hvalid := ((entry_iff host st e.id e).mp hentry).2.2
  obtain ⟨e',happly,hvalid',hreg,hslot⟩ := schedule_apply recheck hroom hvalid
  have hversion : next e'.version = .ok (e.version+1) := by
    rw [Entry.version, hreg]
    exact next_of_le hv
  have hdirty : next e'.dirty = .ok (e.dirty+1) := by
    rw [Entry.dirty, hreg]
    exact next_of_le hd
  have hedited := valid_edited hvalid' hversion hdirty
  have hscope : (Host.edited e' (e.version+1) (e.dirty+1)).registration.scope =
      e.registration.scope := by
    show e'.registration.scope = _
    rw [hreg]
  refine ⟨Host.edited e' (e.version+1) (e.dirty+1),?_,?_,congrArg RuntimeScope.spaceId hscope⟩
  · unfold Host.edit
    rw [hentry]
    simp only
    rw [happly]
    simp only
    rw [hversion, hdirty]
    rfl
  · exact standing_set h _ hscope hslot hedited

theorem schedule_ok (h : Standing host st slot e) (recheck : Recheck) (a : ScheduleAnswers)
    (hs : Schedulable host st e.id recheck a) : ∃ e', (scheduleRecheck host st e.id recheck a).2 =
    .ok () ∧ (scheduleRecheck host st e.id recheck a).1.root = st.root ∧ Standing host
    (scheduleRecheck host st e.id recheck a).1 slot e' ∧ e'.id = e.id := by
  obtain ⟨hindex,hentry,rfl⟩ := (read_slot_iff host st slot e).mp h
  obtain ⟨hbounded,old,hold,hcase⟩ := hs
  rw [hentry] at hold
  cases hold
  unfold scheduleRecheck
  rw [if_neg (by simp [hbounded]), hentry]
  simp only [Option.any_some]
  by_cases hknown : e.knows recheck = true
  · rw [if_pos hknown]
    exact ⟨e,rfl,rfl,h,rfl⟩
  rw [if_neg hknown]
  obtain ⟨hreg,hroom⟩ := hcase.resolve_left hknown
  obtain ⟨e',hinner,hstanding,hid,hrechecks,hv,hd⟩ := register_inner_ok h a hreg
  have hroom' : e'.room recheck = true := by
    rw [Entry.room, hrechecks]
    exact hroom
  have hv' : e'.version+1 ≤ maxCounter := by
    have := hreg.version
    omega
  have hd' : e'.dirty+1 ≤ maxCounter := by
    have := hreg.dirty
    omega
  obtain ⟨e'',hedit,hstanding',hid'⟩ := edit_ok hstanding recheck hroom' hv' hd'
  rw [hinner]
  simp only
  rw [hid] at hedit hid' hstanding'
  rw [hreg.puts.2.2, hedit]
  exact ⟨e'',rfl,rfl,hstanding',hid'⟩

theorem hints_ok (a : VisitAnswers) (hlate : ∀ n, a.hintLate n = false) (hints : List Recheck)
    (n : ℕ) (report : AttentionTick) (h : Standing host st slot e)
    (hs : AllSchedulable host e.id a n hints st) : (scheduleHints host e.id a n hints st report).2 =
    (report,.ok ()) ∧ (scheduleHints host e.id a n hints st report).1.root = st.root := by
  induction hints generalizing n st e with
  | nil => exact ⟨rfl,rfl⟩
  | cons hint hints ih =>
    obtain ⟨hone,hrest⟩ := hs
    obtain ⟨e',hok,hroot,hstanding,hid⟩ := schedule_ok h hint (a.schedule n) hone
    unfold scheduleHints
    rw [hlate n]
    generalize hr : scheduleRecheck host st e.id hint (a.schedule n) = r at hok hroot hstanding hrest ⊢
    obtain ⟨st',outcome⟩ := r
    simp only at hok hroot hstanding hrest
    subst hok
    simp only [Bool.false_eq_true, if_false]
    rw [← hid] at hrest ⊢
    obtain ⟨hrep,hsame⟩ := ih (n+1) hstanding hrest
    exact ⟨hrep,hsame.trans hroot⟩

end Schedule

section Visits
variable (host : Host) (policy : AttentionPolicy) (adapters : Adapters)

variable (id : String) (a : VisitAnswers) (st : Store)

theorem finish_root (e : Entry) (answer : Put) : (host.finish st e answer).1.root = st.root := by
  rcases finish_cases host st e answer with h | ⟨old,version,-,-,-,-,h⟩
  · rw [h]
  · rw [h, set_entry_root]

theorem scan_root (answers : ScanAnswers) (failedMs : ℕ) (answer : Put) (st : Store) (id : String) :
    (scan policy adapters answers host failedMs answer st id).1.root = st.root := by
  unfold scan
  split
  · rfl
  · rfl
  next e _ =>
  have h := finish_root host st (scanned policy adapters answers failedMs e).1 answer
  simp only
  generalize host.finish st (scanned policy adapters answers failedMs e).1 answer = r at h ⊢
  obtain ⟨st',outcome⟩ := r
  cases outcome <;> exact h

theorem scan_loaded_ok (report : AttentionTick) :
    (scanLoaded host policy adapters id a st report).2.2 = .ok () ∧
    (scanLoaded host policy adapters id a st report).1.root = st.root ∧
    (scanLoaded host policy adapters id a st report).2.1.visited = report.visited := by
  have h := scan_root host policy adapters a.scan a.failedMs a.scanPut st id
  unfold scanLoaded
  split
  · next hs =>
    rw [hs] at h
    exact ⟨rfl,h,rfl⟩
  · next hs =>
    rw [hs] at h
    exact ⟨rfl,h,rfl⟩

theorem hints_visited (hints : List Recheck) (n : ℕ) (st : Store) (report : AttentionTick) :
    (scheduleHints host id a n hints st report).2.1.visited = report.visited := by
  induction hints generalizing n st with
  | nil => rfl
  | cons hint hints ih =>
    unfold scheduleHints
    split
    · rfl
    generalize scheduleRecheck host st id hint (a.schedule n) = r
    obtain ⟨st',outcome⟩ := r
    cases outcome with
    | error e => rfl
    | ok u => exact ih (n+1) st'

/-- What the visit of a slot does to the directory does not depend on the counts. -/
theorem hints_store (hints : List Recheck) (n : ℕ) (st : Store) (r r' : AttentionTick) :
    (scheduleHints host id a n hints st r).1 = (scheduleHints host id a n hints st r').1 ∧
    (scheduleHints host id a n hints st r).2.2 = (scheduleHints host id a n hints st r').2.2 := by
  induction hints generalizing n st r r' with
  | nil => exact ⟨rfl,rfl⟩
  | cons hint hints ih =>
    unfold scheduleHints
    split
    · exact ⟨rfl,rfl⟩
    generalize scheduleRecheck host st id hint (a.schedule n) = x
    obtain ⟨st',outcome⟩ := x
    cases outcome with
    | error e => exact ⟨rfl,rfl⟩
    | ok u => exact ih (n+1) st' r r'

theorem loaded_store (r r' : AttentionTick) : (scanLoaded host policy adapters id a st r).1 =
    (scanLoaded host policy adapters id a st r').1 := by
  unfold scanLoaded
  generalize scan policy adapters a.scan host a.failedMs a.scanPut st id = x
  obtain ⟨st',outcome⟩ := x
  cases outcome <;> rfl

theorem visit_store (slot : ℕ) (a : VisitAnswers) (st : Store) (r r' : AttentionTick) :
    (attentionVisit host policy adapters slot a st r).1 =
    (attentionVisit host policy adapters slot a st r').1 := by
  unfold attentionVisit
  split
  · rfl
  · rfl
  next row _ =>
  split
  · rfl
  split
  · next error _ =>
    simp only
    generalize host.finish st (unloaded policy row a.nowMs error) a.finishPut = x
    obtain ⟨st',outcome⟩ := x
    cases outcome <;> rfl
  simp only
  split
  · exact loaded_store ..
  next hints _ =>
  obtain ⟨hst,hout⟩ := hints_store host row.id a hints 0 st
    { r with loaded := r.loaded+1 } { r' with loaded := r'.loaded+1 }
  generalize scheduleHints host row.id a 0 hints st { r with loaded := r.loaded+1 } = x at hst hout ⊢
  generalize scheduleHints host row.id a 0 hints st { r' with loaded := r'.loaded+1 } = y at hst hout ⊢
  obtain ⟨sx,rx,ox⟩ := x
  obtain ⟨sy,ry,oy⟩ := y
  simp only at hst hout
  subst hst hout
  cases ox with
  | error e => rfl
  | ok u => exact loaded_store ..

theorem visit_visited (slot : ℕ) (a : VisitAnswers) (st : Store) (report : AttentionTick) :
    (attentionVisit host policy adapters slot a st report).2.1.visited = report.visited := by
  unfold attentionVisit
  split
  · rfl
  · rfl
  next row _ =>
  split
  · rfl
  split
  · next error _ =>
    simp only
    generalize host.finish st (unloaded policy row a.nowMs error) a.finishPut = x
    obtain ⟨st',outcome⟩ := x
    cases outcome <;> rfl
  simp only
  split
  · exact (scan_loaded_ok ..).2.2
  next hints _ =>
  have h := hints_visited host row.id a hints 0 st { report with loaded := report.loaded+1 }
  generalize scheduleHints host row.id a 0 hints st { report with loaded := report.loaded+1 } = x at h ⊢
  obtain ⟨st',report',outcome⟩ := x
  cases outcome with
  | error e => exact h
  | ok u => exact (scan_loaded_ok ..).2.2.trans h

theorem finish_ok {st : Store} {slot : ℕ} {row : Entry} (h : Standing host st slot row)
    (hv : row.version < maxCounter) (nowMs : ℕ) (error : String) :
    ∃ done, (host.finish st (unloaded policy row nowMs error) .done).2 = .ok done := by
  obtain ⟨-,hentry,-⟩ := (read_slot_iff host st slot row).mp h
  have hversion : next (unloaded policy row nowMs error).version = .ok (row.version+1) := next_of_le hv
  unfold Host.finish
  rw [show (unloaded policy row nowMs error).id = row.id from rfl, hentry]
  simp only
  split
  · exact ⟨false,rfl⟩
  · rw [hversion]
    exact ⟨true,rfl⟩

theorem visit_ok (slot : ℕ) (a : VisitAnswers) (st : Store) (report : AttentionTick)
    (hlate : ∀ n, a.hintLate n = false) (h : Contained host policy slot a st) :
    (attentionVisit host policy adapters slot a st report).2.2 = .ok () ∧
    (attentionVisit host policy adapters slot a st report).1.root = st.root := by
  unfold attentionVisit
  split
  · exact ⟨rfl,rfl⟩
  · exact ⟨rfl,rfl⟩
  next row hread =>
  have hfault : a.fault = none := by
    cases hf : a.fault with
    | none => rfl
    | some e =>
      rw [hf] at hread
      cases hread
  rw [hfault] at hread
  have hstanding : Standing host st slot row := hread
  split
  · exact ⟨rfl,rfl⟩
  next hdue =>
  obtain ⟨hload,hhints⟩ := h row hfault hread (by simpa using hdue)
  split
  · next error herror =>
    obtain ⟨hv,hput⟩ := hload error herror
    obtain ⟨done,hdone⟩ := finish_ok host policy hstanding hv a.nowMs error
    have hroot := finish_root host st (unloaded policy row a.nowMs error) a.finishPut
    rw [hput] at hroot ⊢
    simp only
    generalize host.finish st (unloaded policy row a.nowMs error) .done = x at hdone hroot ⊢
    obtain ⟨st',outcome⟩ := x
    simp only at hdone
    subst hdone
    exact ⟨rfl,hroot⟩
  next hok =>
  simp only
  split
  · exact ⟨(scan_loaded_ok ..).1,(scan_loaded_ok ..).2.1⟩
  next hints hreviews =>
  obtain ⟨hout,hroot⟩ := hints_ok a hlate hints 0 { report with loaded := report.loaded+1 } hstanding
    (hhints hints hok hreviews)
  generalize scheduleHints host row.id a 0 hints st { report with loaded := report.loaded+1 } = x at hout hroot ⊢
  obtain ⟨st',report',outcome⟩ := x
  simp only [Prod.mk.injEq] at hout
  obtain ⟨rfl,rfl⟩ := hout
  exact ⟨(scan_loaded_ok ..).1,(scan_loaded_ok ..).2.1.trans hroot⟩

theorem slots_ok (visit : ℕ → VisitAnswers) (slots : List ℕ) (st : Store) (report : AttentionTick)
    (last : Option ℕ) (hopen : ∀ slot, (visit slot).late = false ∧ ∀ n, (visit slot).hintLate n = false)
    (h : PageContained host policy adapters visit slots st) :
    (visitSlots host policy adapters visit slots st report last).1.root = st.root ∧
      (visitSlots host policy adapters visit slots st report last).2.1.visited =
        report.visited+slots.length ∧
      (visitSlots host policy adapters visit slots st report last).2.2 =
        (if slots = [] then last else slots.getLast?,.ok ()) := by
  induction slots generalizing st report last with
  | nil => exact ⟨rfl,rfl,rfl⟩
  | cons slot slots ih =>
    obtain ⟨hone,hrest⟩ := h
    unfold visitSlots
    rw [(hopen slot).1, if_neg (by simp)]
    obtain ⟨hok,hroot⟩ := visit_ok host policy adapters slot (visit slot) st
      { report with visited := report.visited+1 } (hopen slot).2 hone
    have hcount := visit_visited host policy adapters slot (visit slot) st
      { report with visited := report.visited+1 }
    rw [visit_store host policy adapters slot (visit slot) st .empty { report with visited := report.visited+1 }] at hrest
    generalize attentionVisit host policy adapters slot (visit slot) st
      { report with visited := report.visited+1 } = x at hok hroot hcount hrest ⊢
    obtain ⟨st',report',outcome⟩ := x
    simp only at hok hroot hcount hrest
    subst hok
    obtain ⟨hroot',hcount',hend⟩ := ih st' report' (some slot) hrest
    refine ⟨hroot'.trans hroot,?_,?_⟩
    · simp only
      rw [hcount', hcount, List.length_cons]
      omega
    simp only
    rw [hend, if_neg (List.cons_ne_nil slot slots)]
    cases slots with
    | nil => rfl
    | cons s slots => rw [if_neg (List.cons_ne_nil s slots), List.getLast?_cons_cons]

def Usable (root : Root) : Prop := checkRoot root = .ok root

theorem usable_moved {root : Root} (h : Usable root) (cursor : ℕ) (hle : cursor ≤ root.allocated) :
    Usable { root with cursor := cursor } := by
  have hok := check_root_ok h
  unfold Usable checkRoot at h ⊢
  split at h
  · cases h
  next hform =>
  push Not at hform
  apply if_neg
  rintro (h | h | h)
  · exact h hform.1
  · exact absurd h (not_lt.mpr hform.2.1)
  · exact absurd h (not_lt.mpr hle)

theorem page_rotation {st : Store} {root : Root} (hroot : st.root = some root) (h : Usable root) (k : ℕ) :
    page st k = .ok (List.range' (Rotation.behind root.allocated root.cursor+1)
      (Rotation.stop root.allocated k root.cursor-Rotation.behind root.allocated root.cursor)) := by
  have hstart : (if root.cursor = root.allocated then 1 else root.cursor+1) =
      Rotation.behind root.allocated root.cursor+1 := by
    unfold Rotation.behind
    split <;> rfl
  unfold page
  rw [hroot]
  simp only
  rw [h]
  simp only
  rw [hstart, Rotation.stop, Nat.add_right_comm, Nat.add_sub_cancel, Nat.add_sub_add_right]

theorem spaces_pos (policy : AttentionPolicy) : 0 < policy.spacesPerTick := by
  have h := policy.bounded
  simp only [PolicyFields.valid, Bool.and_eq_true, decide_eq_true_eq] at h
  omega

theorem tick_ok {st : Store} {root : Root} (hroot : st.root = some root) (husable : Usable root)
    (hpos : 0 < root.allocated) (a : TickAnswers) (hopen : a.Open)
    (h : PageContained host policy adapters a.visit ((tickPage policy st a).toOption.getD []) st) :
    (attentionTick host policy adapters st a).1.root =
        some { root with cursor := Rotation.stop root.allocated policy.spacesPerTick root.cursor } ∧
      ∀ s, Rotation.OnPage root.allocated policy.spacesPerTick root.cursor s →
        s ∈ visitedSlots host policy adapters st a := by
  have hk := spaces_pos policy
  have hpage : tickPage policy st a = .ok (List.range' (Rotation.behind root.allocated root.cursor+1)
      (Rotation.stop root.allocated policy.spacesPerTick root.cursor-
        Rotation.behind root.allocated root.cursor)) := by
    rw [tickPage, hopen.readable]
    exact page_rotation hroot husable policy.spacesPerTick
  have hbehind : Rotation.behind root.allocated root.cursor <
      Rotation.stop root.allocated policy.spacesPerTick root.cursor := by
    have hle := (check_root_ok husable).2
    unfold Rotation.stop Rotation.behind
    split <;> omega
  have hstop : Rotation.stop root.allocated policy.spacesPerTick root.cursor ≤ root.allocated :=
    Rotation.stop_le ..
  have hmem : ∀ s, Rotation.OnPage root.allocated policy.spacesPerTick root.cursor s →
      s ∈ List.range' (Rotation.behind root.allocated root.cursor+1)
        (Rotation.stop root.allocated policy.spacesPerTick root.cursor-
          Rotation.behind root.allocated root.cursor) := by
    intro s hs
    have hbounds := hs
    unfold Rotation.OnPage at hbounds
    rw [List.mem_range'_1]
    omega
  rw [hpage] at h
  generalize hb : Rotation.behind root.allocated root.cursor = b at *
  generalize hc : Rotation.stop root.allocated policy.spacesPerTick root.cursor = c at *
  have hne : List.range' (b+1) (c-b) ≠ [] := by
    rw [Ne, List.range'_eq_nil_iff]
    omega
  obtain ⟨hsame,hcount,hend⟩ := slots_ok host policy adapters a.visit (List.range' (b+1) (c-b)) st .empty none
    (fun slot => ⟨hopen.time slot,hopen.hints slot⟩) h
  rw [if_neg hne, List.getLast?_range', if_neg (by omega)] at hend
  have htick : (attentionTick host policy adapters st a).1.root = some { root with cursor := c } ∧
      (attentionTick host policy adapters st a).2.1.visited = c-b := by
    unfold attentionTick
    rw [hpage]
    simp only
    generalize visitSlots host policy adapters a.visit (List.range' (b+1) (c-b)) st .empty none = x
      at hsame hcount hend ⊢
    obtain ⟨st',report,last,outcome⟩ := x
    simp only [Prod.mk.injEq] at hsame hcount hend
    obtain ⟨rfl,rfl⟩ := hend
    simp only
    unfold advanceCursor withRoot
    rw [hsame, hroot]
    simp only
    rw [husable]
    simp only
    rw [if_neg (by omega), hopen.writable.2, put_done]
    refine ⟨?_,?_⟩
    · simp only [Option.some.injEq, Root.mk.injEq, true_and]
      omega
    · rw [hcount, List.length_range']
      exact Nat.zero_add _
  refine ⟨htick.1,?_⟩
  intro s hs
  unfold visitedSlots
  rw [hpage, htick.2]
  show s ∈ (List.range' (b+1) (c-b)).take (c-b)
  rw [List.take_of_length_le (by rw [List.length_range'])]
  exact hmem s hs

end Visits

section Runs
variable (host : Host) (policy : AttentionPolicy) (adapters : Adapters)

theorem run_visits (es : List Event) (st : Store) (root : Root) (hroot : st.root = some root)
    (husable : Usable root) (hpos : 0 < root.allocated)
    (hopen : ∀ a, Event.tick a ∈ es → a.Open)
    (h : RunContained host policy adapters st es) (i : ℕ) (hi : i < es.countP Event.isTick) (s : ℕ)
    (hs : Rotation.OnPage root.allocated policy.spacesPerTick
      ((Rotation.stop root.allocated policy.spacesPerTick)^[i] root.cursor) s) :
    s ∈ visitedIn host policy adapters st es := by
  induction es generalizing st root i with
  | nil => exact absurd hi (Nat.not_lt_zero i)
  | cons e es ih =>
    have hopen' : ∀ a, Event.tick a ∈ es → a.Open := fun a ha => hopen a (List.mem_cons_of_mem _ ha)
    cases e with
    | others entries index =>
      have hcount : (Event.others entries index::es).countP Event.isTick = es.countP Event.isTick :=
        List.countP_cons_of_neg (by simp [Event.isTick])
      rw [hcount] at hi
      exact ih { st with entries := entries, index := index } root hroot husable hpos hopen' h i hi hs
    | tick a =>
      obtain ⟨hpage,hrest⟩ := h
      obtain ⟨hnext,hvisited⟩ := tick_ok host policy adapters hroot husable hpos a (hopen a (List.mem_cons_self ..)) hpage
      cases i with
      | zero => exact List.mem_append_left _ (hvisited s hs)
      | succ i =>
        apply List.mem_append_right
        rw [List.countP_cons_of_pos (by rfl)] at hi
        rw [Function.iterate_succ_apply] at hs
        exact ih _ _ hnext (usable_moved husable _ (Rotation.stop_le ..)) hpos hopen' hrest i
          (by omega) hs

/-- No Space starves another: while the visits keep the failures of their Spaces to
themselves, two rounds of passes visit every slot. -/
theorem every_slot_visited (es : List Event) (st : Store) (root : Root) (hroot : st.root = some root)
    (husable : Usable root) (hopen : ∀ a, Event.tick a ∈ es → a.Open)
    (h : RunContained host policy adapters st es)
    (hpasses : 2*Rotation.pages root.allocated policy.spacesPerTick ≤ es.countP Event.isTick)
    (slot : ℕ) (hpos : 0 < slot) (hslot : slot ≤ root.allocated) :
    slot ∈ visitedIn host policy adapters st es := by
  obtain ⟨i,hi,hon⟩ := Rotation.covers (spaces_pos policy) root.cursor slot (check_root_ok husable).2
    hpos hslot
  exact run_visits host policy adapters es st root hroot husable (by omega) hopen h i (by omega) slot hon

end Runs

section Instances

def dueEntry (slot : ℕ) (id : String) (rechecks : List Recheck) : Entry :=
  { plainHost.firstEntry id (plainConfig id) true slot with rechecks := rechecks }

def twoSpaces (rechecks : List Recheck) : Store where
  root := some ⟨directoryFormat,2,2⟩
  entries := fun key =>
    if key = "first" then some (dueEntry 1 "first" rechecks)
    else if key = "second" then some (dueEntry 2 "second" []) else none
  index := fun slot =>
    if slot = 1 then some (plainHost.indexOf (dueEntry 1 "first" []))
    else if slot = 2 then some (plainHost.indexOf (dueEntry 2 "second" [])) else none

/-- A pass in which the first Space is asked to keep the review of a Skill. -/
def reviewTick : TickAnswers where
  fault := none
  visit := fun slot =>
    let id := if slot = 1 then "first" else "second"
    { late := false
      fault := none
      nowMs := 1000
      load := .ok ()
      reviews := .ok (if slot = 1 then [⟨"skill-review:9",.skillReview,5000,false⟩] else [])
      hintLate := fun _ => false
      schedule := fun _ => ⟨.ok (plainConfig id),true,plainPuts,.ok (),.done⟩
      scan := quietScan id 1000
      failedMs := 1000
      scanPut := .done
      finishPut := .done }
  createPut := .done
  cursorPut := .done

theorem review_open : reviewTick.Open := ⟨rfl,⟨rfl,rfl⟩,fun _ => rfl,fun _ _ => rfl⟩

theorem contained_idle (host : Host) (policy : AttentionPolicy) (slot : ℕ) (a : VisitAnswers) (st : Store)
    (h : (host.readSlot st slot).toOption.join.all (fun row => !due policy row a.nowMs) = true) :
    Contained host policy slot a st := by
  intro row _ hread hdue
  rw [hread] at h
  simp [Except.toOption, hdue] at h

theorem two_spaces_contained :
    RunContained plainHost plainPolicy ⟨none,false⟩ (twoSpaces []) [.tick reviewTick,.tick reviewTick] := by
  have hfirst : Contained plainHost plainPolicy 1 (reviewTick.visit 1) (twoSpaces []) := by
    intro row _ hread hdue
    refine ⟨fun error h => (by cases h),fun hints _ h => ?_⟩
    cases h
    cases hread
    refine ⟨⟨by decide,dueEntry 1 "first" [],rfl,.inr ⟨?_,rfl⟩⟩,trivial⟩
    exact ⟨⟨plainConfig "first",rfl,rfl⟩,rfl,by decide,by decide,⟨rfl,rfl,rfl⟩⟩
  refine ⟨⟨hfirst,?_,trivial⟩,⟨?_,?_,trivial⟩,trivial⟩
  · intro row _ hread hdue
    exact ⟨fun error h => (by cases h),fun hints _ h => (by cases h; trivial)⟩
  · exact contained_idle _ _ _ _ _ (by decide +kernel)
  · exact contained_idle _ _ _ _ _ (by decide +kernel)

theorem every_slot_visited_two_spaces :
    2 ∈ visitedIn plainHost plainPolicy ⟨none,false⟩ (twoSpaces []) [.tick reviewTick,.tick reviewTick] := by
  apply every_slot_visited plainHost plainPolicy ⟨none,false⟩ _ _ ⟨directoryFormat,2,2⟩ rfl rfl ?_
    two_spaces_contained (by decide) 2 (by decide) (by decide)
  intro a ha
  simp only [List.mem_cons, List.not_mem_nil, or_false, Event.tick.injEq, or_self] at ha
  rw [ha]
  exact review_open

def fullQueue : List Recheck :=
  (List.range 128).map fun n => ⟨"obligation:"++Nat.repr n,.defer,9000,false⟩

/-- A Space whose recheck queue is full ends every pass at its slot, and the slot behind it
is never visited. -/
theorem full_queue_starves : ∃ (st : Store) (root : Root) (es : List Event), st.root = some root ∧
    Usable root ∧ (∀ a, Event.tick a ∈ es → a.Open) ∧ 2*Rotation.pages root.allocated
    plainPolicy.spacesPerTick ≤ es.countP Event.isTick ∧ 0 < 2 ∧ 2 ≤ root.allocated ∧ 2 ∉ visitedIn
    plainHost plainPolicy ⟨none,false⟩ st es := by
  refine ⟨twoSpaces fullQueue,⟨directoryFormat,2,2⟩,[.tick reviewTick,.tick reviewTick],rfl,rfl,?_,
    by decide,by decide,by decide,?_⟩
  · intro a ha
    simp only [List.mem_cons, List.not_mem_nil, or_false, Event.tick.injEq, or_self] at ha
    rw [ha]
    exact review_open
  · decide +kernel

end Instances

end AndaBrain.Attention
