import AndaBrain.WorkerHistory

/-!
# A completed forget of a source

What a pass made is recorded by its receipt, cites Evidence that a receipt of the source
records, or is gone, once the receipt has a terminal; a forget that ends as completed found a
terminal on every receipt of its source.
-/

set_option autoImplicit false

namespace AndaBrain.WorkerMemory
open Foundation Product

structure PassKept (source : String) (s : History) (ref : String) (pass : Pass) : Prop where
  bound : ∃ record, s.world.receipts.lookup ref = some record ∧
    record.sourceRef = pass.source ∧
    (pass.ended = false → record.result = none ∧ record.evidence = []) ∧
    (pass.source = some source → record.terminal.isSome → ∀ id ∈ pass.made, Answered s source id)
  listed : ∀ staged, pass.source = some staged → Listed s.world staged ref
  loaded : ∀ id ∈ pass.made, (s.world.nexus.load id).isSome
  captured : pass.ended = false → pass.captured = []

structure Kept (source : String) (s : History) : Prop where
  indexed : s.world.nexus.Indexed
  settled : Settled s.world.managed
  keyed : Keyed s.world
  passes : ∀ ref pass, s.passes ref = some pass → PassKept source s ref pass

structure Follows (source : String) (s next : History) : Prop where
  keeps : s.world.nexus.Keeps next.world.nexus
  recorded : ∀ id, Recorded s source id → Recorded next source id

theorem cites_keeps {nexus next : Nexus} (hk : nexus.Keeps next) {id : ElementId}
    {among more : ElementId → Prop} (h : Cites nexus id among)
    (hmore : ∀ e, e.kind = .evidence → among e → more e) :
    isPurged next id = true ∨ Cites next id more := by
  obtain ⟨hkind,row,hrow,e,he,hevidence,hamong⟩ := h
  obtain ⟨after,ha,-,hsame⟩ := hk.rows id row hrow
  by_cases hp : after.state = .purged
  · exact .inl ((is_purged_iff next id).mpr ⟨after,ha,hp⟩)
  · exact .inr ⟨hkind,after,ha,e,(hsame hp).2 he,hevidence,hmore e hevidence hamong⟩

variable {source : String} {s next : History}

theorem Answered.follows {id : ElementId}
    (h : Answered s source id) (hl : (s.world.nexus.load id).isSome) (hf : Follows source s next) :
    Answered next source id := by
  rcases h with hp | ⟨hkind,hr⟩ | hc | hnot
  · exact .inl (hf.keeps.purged hp)
  · exact .inr (.inl ⟨hkind,hf.recorded id hr⟩)
  · rcases cites_keeps hf.keeps hc fun e _ he => hf.recorded e he with hp | hc
    · exact .inl hp
    · exact .inr (.inr (.inl hc))
  obtain ⟨row,hrow⟩ := Option.isSome_iff_exists.mp hl
  obtain ⟨after,ha,-,hsame⟩ := hf.keeps.rows id row hrow
  by_cases hp : after.state = .purged
  · exact .inl ((is_purged_iff _ id).mpr ⟨after,ha,hp⟩)
  refine .inr (.inr (.inr fun hout => hnot ?_))
  refine hout.imp_right fun h => h.imp_right ?_
  rintro ⟨hkind,found,hfound,hclass⟩
  obtain rfl := Option.some.inj (ha.symm.trans hfound)
  exact ⟨hkind,row,hrow,(hsame hp).1 ▸ hclass⟩

theorem recorded_follows
    (h : ∀ ref pass record, s.passes ref = some pass → s.world.receipts.lookup ref = some record →
      (∃ later kept, next.passes ref = some kept ∧ kept.source = pass.source ∧
        next.world.receipts.lookup ref = some later ∧ memoryRefs record ⊆ memoryRefs later ∧
        record.evidence ⊆ later.evidence) ∨
      (record.result = none ∧ record.evidence = [])) :
    ∀ id, Recorded s source id → Recorded next source id := by
  rintro id ⟨ref,pass,record,hp,hs,hr,hin⟩
  rcases h ref pass record hp hr with ⟨later,kept,hk,hsource,hl,hrefs,hevidence⟩ | ⟨hresult,hempty⟩
  · exact ⟨ref,kept,later,hk,hsource.trans hs,hl,
      hin.imp (fun h => hrefs h) fun h => h.imp_right fun h => hevidence h⟩
  · simp [memoryRefs, hresult, hempty] at hin

theorem same_record_refs {record later : IntakeRecord} (h : SameRecord record later) :
    memoryRefs later = memoryRefs record := by
  simp only [memoryRefs, h.result]

theorem PassKept.carry {ref : String} {pass : Pass}
    (h : PassKept source s ref pass) (hf : Follows source s next)
    (hreceipt : ∀ record, s.world.receipts.lookup ref = some record → ∃ later,
      next.world.receipts.lookup ref = some later ∧ SameRecord record later ∧
      (later.terminal.isSome → record.terminal.isSome ∨
        (pass.source = some source → ∀ id ∈ pass.made, Answered s source id)))
    (hlisted : ∀ staged, Listed s.world staged ref → Listed next.world staged ref) :
    PassKept source next ref pass where
  bound := by
    obtain ⟨record,hr,hs,hblank,hanswered⟩ := h.bound
    obtain ⟨later,hl,hsame,hterm⟩ := hreceipt record hr
    refine ⟨later,hl,hsame.source.trans hs,fun hopen => ?_,fun hsource ht id hid => ?_⟩
    · rw [hsame.result, hsame.evidence]
      exact hblank hopen
    refine Answered.follows ?_ (h.loaded id hid) hf
    rcases hterm ht with hold | hnew
    · exact hanswered hsource hold id hid
    · exact hnew hsource id hid
  listed := fun staged hs => hlisted staged (h.listed staged hs)
  loaded := fun id hid => hf.keeps.loaded (h.loaded id hid)
  captured := h.captured

theorem kept_read (hk : Kept source s)
    (hpasses : next.passes = s.passes) (hkeeps : s.world.nexus.Keeps next.world.nexus)
    (hsettled : Settled next.world.managed) (hkeyed : Keyed next.world)
    (hreceipts : ∀ ref pass record, s.passes ref = some pass →
      s.world.receipts.lookup ref = some record → ∃ later,
      next.world.receipts.lookup ref = some later ∧ SameRecord record later ∧
      (later.terminal.isSome → record.terminal.isSome ∨
        (pass.source = some source → ∀ id ∈ pass.made, Answered s source id)))
    (hlisted : ∀ staged ref, Listed s.world staged ref → Listed next.world staged ref) :
    Kept source next where
  indexed := hkeeps.indexed hk.indexed
  settled := hsettled
  keyed := hkeyed
  passes := by
    intro ref pass hp
    rw [hpasses] at hp
    have hf : Follows source s next := by
      refine ⟨hkeeps,recorded_follows fun ref pass record hp hr => ?_⟩
      obtain ⟨later,hl,hsame,-⟩ := hreceipts ref pass record hp hr
      refine .inl ⟨later,pass,by rw [hpasses, hp],rfl,hl,?_,?_⟩
      · rw [same_record_refs hsame]
        exact List.Subset.refl _
      · rw [hsame.evidence]
        exact List.Subset.refl _
    exact (hk.passes ref pass hp).carry hf (fun record hr => hreceipts ref pass record hp hr)
      fun staged => hlisted staged ref

theorem kept_pass {source ref : String} {s next : History} (hk : Kept source s)
    (hothers : ∀ other, other ≠ ref → next.passes other = s.passes other)
    (helse : Elsewhere ref s.world next.world) (hf : Follows source s next)
    (hsettled : Settled next.world.managed)
    (hpass : ∀ pass, next.passes ref = some pass → PassKept source next ref pass) :
    Kept source next where
  indexed := hf.keeps.indexed hk.indexed
  settled := hsettled
  keyed := fun other staged h => hk.keyed other staged (helse.sources ▸ h)
  passes := by
    intro other pass hp
    by_cases heq : other = ref
    · subst heq
      exact hpass pass hp
    rw [hothers other heq] at hp
    refine (hk.passes other pass hp).carry hf (fun record hr => ?_) fun staged h => ?_
    · exact ⟨record,by rw [helse.receipts other heq, hr],SameRecord.refl record,.inl⟩
    · exact (SameSources.of_eq helse.sources helse.lists).listed h

section
variable (site : Site) {session : Session} {source : String}

theorem settled_moved {w next : World} (hs : Settled w.managed)
    (h : LeavesBy Nexus.Keeps w next) : Settled next.managed := by
  refine settled_of_changes hs h.moved fun key change hc hd => ?_
  rw [show next.managed.product = w.managed.product from h.product] at hc
  exact .inl ⟨change,hc,SameErasure.refl change⟩

theorem set_pass_other (s : History) (ref other : String) (pass : Option Pass) (h : other ≠ ref) :
    (s.setPass ref pass).passes other = s.passes other := by
  simp [History.setPass, h]

theorem set_pass_own (s : History) (ref : String) (pass : Option Pass) :
    (s.setPass ref pass).passes ref = pass := by
  simp [History.setPass]

theorem running_kept {s next : History} (hk : Kept source s) {ref : String} {pass : Pass}
    (hp : s.passes ref = some pass) (after : Pass) (hsource : after.source = pass.source)
    (hnext : ∀ other, other ≠ ref → next.passes other = s.passes other)
    (hown : next.passes ref = some after)
    (helse : Elsewhere ref s.world next.world)
    (hkeeps : s.world.nexus.Keeps next.world.nexus) (hsettled : Settled next.world.managed)
    (hreceipt : ∀ record, s.world.receipts.lookup ref = some record → ∃ later,
      next.world.receipts.lookup ref = some later ∧ later.sourceRef = record.sourceRef ∧
      (record.result = none ∧ record.evidence = [] ∨ memoryRefs record ⊆ memoryRefs later ∧
        record.evidence ⊆ later.evidence) ∧
      (after.ended = false → later.result = none ∧ later.evidence = []) ∧
      (pass.source = some source → later.terminal.isSome → Follows source s next →
        ∀ id ∈ after.made, Answered next source id))
    (hloaded : ∀ id ∈ after.made, (next.world.nexus.load id).isSome)
    (hcaptured : after.ended = false → after.captured = []) : Kept source next := by
  have hf : Follows source s next := by
    refine ⟨hkeeps,recorded_follows fun other found record hother hr => ?_⟩
    by_cases heq : other = ref
    · subst heq
      obtain rfl := Option.some.inj (hp.symm.trans hother)
      obtain ⟨later,hl,-,hkept,-⟩ := hreceipt record hr
      rcases hkept with hblank | ⟨hrefs,hevidence⟩
      · exact .inr hblank
      · exact .inl ⟨later,after,hown,hsource,hl,hrefs,hevidence⟩
    · exact .inl ⟨record,found,by rw [hnext other heq, hother],rfl,
        by rw [helse.receipts other heq, hr],List.Subset.refl _,List.Subset.refl _⟩
  refine kept_pass hk hnext helse hf hsettled fun found hfound => ?_
  obtain rfl := Option.some.inj (hown.symm.trans hfound)
  have hold := hk.passes ref pass hp
  obtain ⟨record,hr,hs,-,-⟩ := hold.bound
  obtain ⟨later,hl,hsame,-,hopen,hanswered⟩ := hreceipt record hr
  exact
    { bound := ⟨later,hl,hsame.trans (hs.trans hsource.symm),hopen,
        fun hsrc ht => hanswered (hsource ▸ hsrc) ht hf⟩
      listed := fun staged hs => (SameSources.of_eq helse.sources helse.lists).listed
        (hold.listed staged (hsource ▸ hs))
      loaded := hloaded
      captured := hcaptured }

theorem created_change (result : OperationResult) (id : ElementId)
    (h : id ∈ (traceOf [result]).created) : ∃ change ∈ result.changes, change.id = some id := by
  simp only [trace_created, List.flatMap_cons, List.flatMap_nil, List.append_nil, createdBy] at h
  split at h
  · obtain ⟨change,hc,hid⟩ := List.mem_filterMap.mp h
    split at hid
    · exact ⟨change,hc,hid⟩
    · cases hid
  · cases h

theorem operation_kept {s : History} (hk : Kept source s) (ref : String)
    (result : OperationResult) (nexus : Nexus) (hp : Possible s (.operation ref result nexus))
    (hm : Accounted site session source s (.operation ref result nexus)) :
    Kept source (historyStep site session s (.operation ref result nexus)) := by
  obtain ⟨⟨pass,hpass,hopen⟩,hkeeps,hloaded⟩ := hp
  have hold := hk.passes ref pass hpass
  have hmade : ∀ id, id ∈ ({ pass with results := pass.results++[result] } : Pass).made →
      id ∈ pass.made ∨ id ∈ (traceOf [result]).created := by
    intro id hid
    simp only [Pass.made, trace_created, List.flatMap_append, List.mem_append] at hid ⊢
    tauto
  have hseen : ∀ id ∈ (traceOf [result]).created, (nexus.load id).isSome := by
    intro id hid
    obtain ⟨change,hc,hchange⟩ := created_change result id hid
    exact hloaded change hc id hchange
  have hown : (historyStep site session s (.operation ref result nexus)).passes ref =
      some { pass with results := pass.results++[result] } := by
    simp [historyStep, set_pass_own, hpass]
  have hothers : ∀ other, other ≠ ref →
      (historyStep site session s (.operation ref result nexus)).passes other = s.passes other :=
    fun other h => set_pass_other _ ref other _ h
  refine running_kept hk hpass { pass with results := pass.results++[result] } rfl
    hothers hown (with_nexus_elsewhere ref s.world nexus) hkeeps
    (nexus_settled hk.settled nexus hkeeps) (fun record hr => ?_) (fun id hid => ?_) hold.captured
  · obtain ⟨found,hfound,hs,hblank,hanswered⟩ := hold.bound
    obtain rfl := Option.some.inj (hr.symm.trans hfound)
    refine ⟨record,hr,rfl,.inr ⟨List.Subset.refl _,List.Subset.refl _⟩,fun _ => hblank hopen,
      fun hsource ht hf id hid => ?_⟩
    rcases hmade id hid with hid | hid
    · exact (hanswered hsource ht id hid).follows (hold.loaded id hid) hf
    refine (hm pass record hpass hsource hr ht id hid).follows (hseen id hid)
      ⟨Nexus.Keeps.refl _,recorded_follows fun other before kept hother hlast => .inl ?_⟩
    by_cases heq : other = ref
    · subst heq
      obtain rfl := Option.some.inj (hpass.symm.trans hother)
      exact ⟨kept,_,hown,rfl,hlast,List.Subset.refl _,List.Subset.refl _⟩
    · exact ⟨kept,before,(hothers other heq).trans hother,rfl,hlast,List.Subset.refl _,
        List.Subset.refl _⟩
  · rcases hmade id hid with hid | hid
    · exact hkeeps.loaded (hold.loaded id hid)
    · exact hseen id hid

theorem finish_kept (hdoc : session.Erases) {s : History} (hk : Kept source s) (ref : String)
    (hp : Possible s (.finish ref)) (hm : Accounted site session source s (.finish ref)) :
    Kept source (historyStep site session s (.finish ref)) := by
  obtain ⟨pass,hpass,hopen⟩ := hp
  have hold := hk.passes ref pass hpass
  have hmoved := finish_moves hdoc.moves s.world ref (traceOf pass.results)
  have hstep : historyStep site session s (.finish ref) =
      History.setPass { s with
        world := (finishFormation session s.world ref (traceOf pass.results)).1 } ref
        (some { pass with ended := true }) := by
    simp [historyStep, hpass]
  have hmade : pass.made = (traceOf pass.results).created := by
    simp [Pass.made, hold.captured hopen]
  rw [hstep]
  refine running_kept hk hpass { pass with ended := true } rfl
    (fun other h => set_pass_other _ ref other _ h) (set_pass_own _ ref _)
    (finish_elsewhere s.world ref (traceOf pass.results)) hmoved.moved
    (settled_moved hk.settled hmoved) (fun record hr => ?_)
    (fun id hid => hmoved.moved.loaded (hold.loaded id hid)) (fun h => nomatch h)
  obtain ⟨found,hfound,hs,hblank,hanswered⟩ := hold.bound
  obtain rfl := Option.some.inj (hr.symm.trans hfound)
  obtain ⟨later,hl,hsame,hevidence,htaken⟩ :=
    finish_stores s.world ref (traceOf pass.results) record hr
  refine ⟨later,hl,hsame,.inl (hblank hopen),fun h => (nomatch h),fun hsource _ hf id hid => ?_⟩
  have hrecorded : ∀ x, x ∈ memoryRefs later ∨ x.kind = .evidence ∧ x ∈ later.evidence →
      Recorded (History.setPass { s with
        world := (finishFormation session s.world ref (traceOf pass.results)).1 } ref
        (some { pass with ended := true })) source x :=
    fun x hx => ⟨ref,_,later,set_pass_own _ ref _,hsource,hl,hx⟩
  have hid : id ∈ (traceOf pass.results).created := hmade ▸ hid
  rcases hm pass record hpass hsource hr id hid with hdone | hkind | hcites | ⟨hkind,htakes,hin⟩
  · exact hdone.follows (hold.loaded id (hmade ▸ hid)) hf
  · refine .inr (.inl ⟨by simp [hkind],hrecorded id (.inr ⟨hkind,hevidence id (.inr ?_)⟩)⟩)
    exact trace_evidence pass.results id hid hkind
  · rcases cites_keeps hf.keeps hcites fun e hkind he =>
      hrecorded e (.inr ⟨hkind,hevidence e (.inr he)⟩) with hpurged | hcited
    · exact .inl hpurged
    · exact .inr (.inr (.inl hcited))
  · exact .inr (.inl ⟨by simp [hkind],hrecorded id (.inl (htaken htakes id hin))⟩)

theorem fault_kept {s : History} (hk : Kept source s) (ref : String) (error : Failure)
    (hp : Possible s (.fault ref error)) (hm : Accounted site session source s (.fault ref error)) :
    Kept source (historyStep site session s (.fault ref error)) := by
  obtain ⟨pass,hpass,hopen⟩ := hp
  have hold := hk.passes ref pass hpass
  have hmanaged := settle_managed s.world ref (failedProgress ref error.message error) none []
  have hkeeps : s.world.nexus.Keeps (failFormation s.world ref error).1.nexus := by
    rw [World.nexus, World.nexus, failFormation, hmanaged]
    exact Nexus.Keeps.refl _
  refine running_kept hk hpass { pass with ended := true } rfl
    (fun other h => set_pass_other _ ref other _ h) ?_
    (settle_elsewhere s.world ref (failedProgress ref error.message error) none []) hkeeps ?_
    (fun record hr => ?_) (fun id hid => hkeeps.loaded (hold.loaded id hid)) (fun h => by cases h)
  · simp [historyStep, set_pass_own, hpass]
  · have hsame : (failFormation s.world ref error).1.managed = s.world.managed := hmanaged
    simp only [historyStep, History.setPass, hsame]
    exact hk.settled
  obtain ⟨found,hfound,hs,hblank,hanswered⟩ := hold.bound
  obtain rfl := Option.some.inj (hr.symm.trans hfound)
  obtain ⟨later,hl,hsame,-,-⟩ := settle_stores s.world ref record
    (failedProgress ref error.message error) none [] hr
  refine ⟨later,hl,hsame,.inl (hblank hopen),fun h => (by cases h),fun hsource ht hf id hid => ?_⟩
  refine Answered.follows ?_ (hold.loaded id hid) hf
  cases hterm : record.terminal with
  | some t => exact hanswered hsource (by simp [hterm]) id hid
  | none => exact hm pass record hpass hsource hr hterm id hid

theorem capture_kept (hdoc : session.Erases) {s : History} (hk : Kept source s) (ref : String)
    (messages : List Message) (observedAt : String) (purpose : Purpose)
    (hp : Possible s (.capture ref messages observedAt purpose))
    (hm : Accounted site session source s (.capture ref messages observedAt purpose)) :
    Kept source (historyStep site session s (.capture ref messages observedAt purpose)) := by
  obtain ⟨pass,hpass,hopen,hresults⟩ := hp
  have hold := hk.passes ref pass hpass
  have hmoved := capture_moves site hdoc.moves s.world ref messages observedAt purpose
  have helse := @capture_elsewhere session site s.world ref messages observedAt purpose
  have hsettled := settled_moved hk.settled hmoved
  obtain ⟨record,hr,hs,hblank,-⟩ := hold.bound
  by_cases hreferences : purpose.references.all (referenceFound site s.world.nexus) = true
  · obtain ⟨hmade,later,hl,hsame,htaken⟩ :=
      capture_stores hdoc site s.world ref messages observedAt purpose record hr hreferences
    have hown : (historyStep site session s (.capture ref messages observedAt purpose)).passes ref =
        some { pass with
          captured := captures site session s.world ref messages observedAt purpose
          ended := true } := by
      simp only [historyStep, hreferences, if_true, set_pass_own, hpass, Option.map_some]
    refine running_kept hk hpass { pass with
        captured := captures site session s.world ref messages observedAt purpose
        ended := true } rfl (fun other h => set_pass_other _ ref other _ h) hown helse hmoved.moved
      hsettled (fun found hfound => ?_) (fun id hid => ?_) (fun h => nomatch h)
    · obtain rfl := Option.some.inj (hr.symm.trans hfound)
      refine ⟨later,hl,hsame,.inl (hblank hopen),fun h => (nomatch h),fun hsource ht _ id hid => ?_⟩
      have hid : id ∈ captures site session s.world ref messages observedAt purpose := by
        simpa [Pass.made, hresults, trace_created] using hid
      cases hterm : record.terminal with
      | some t =>
        rw [hm pass record hpass hsource hr (by simp [hterm])] at hid
        cases hid
      | none =>
        exact .inr (.inl ⟨by simp [(hmade id hid).1],
          ref,_,later,hown,hsource,hl,.inl (htaken hterm ht id hid)⟩)
    · refine (hmade id ?_).2
      simpa [Pass.made, hresults, trace_created] using hid
  -- feedback on an element that is not there drops the receipt, which recorded nothing
  have hothers : ∀ other, other ≠ ref →
      (historyStep site session s (.capture ref messages observedAt purpose)).passes other =
        s.passes other := fun other h => set_pass_other _ ref other _ h
  refine kept_pass hk hothers helse ⟨hmoved.moved,recorded_follows ?_⟩ hsettled
    fun found hfound => ?_
  · intro other before kept hother hlast
    by_cases heq : other = ref
    · subst heq
      obtain rfl := Option.some.inj (hr.symm.trans hlast)
      exact .inr (hblank hopen)
    · exact .inl ⟨kept,before,(hothers other heq).trans hother,rfl,
        (helse.receipts other heq).trans hlast,List.Subset.refl _,List.Subset.refl _⟩
  · simp only [historyStep, hreferences, Bool.false_eq_true, if_false, set_pass_own] at hfound
    cases hfound

theorem open_kept {s : History} (hk : Kept source s) (record : IntakeRecord)
    (hfree : s.passes record.receiptRef = none)
    (hr : s.world.receipts.lookup record.receiptRef = some record) (hresult : record.result = none)
    (hevidence : record.evidence = [])
    (hlisted : ∀ staged, record.sourceRef = some staged → Listed s.world staged record.receiptRef) :
    Kept source (s.setPass record.receiptRef (some ⟨record.sourceRef,[],[],false⟩)) := by
  have hothers : ∀ other, other ≠ record.receiptRef →
      (s.setPass record.receiptRef (some ⟨record.sourceRef,[],[],false⟩)).passes other =
        s.passes other := fun other h => set_pass_other s _ other _ h
  refine kept_pass hk hothers (Elsewhere.refl _ _) ⟨Nexus.Keeps.refl _,recorded_follows ?_⟩
    hk.settled fun pass hpass => ?_
  · intro other before kept hother hlast
    have hne : other ≠ record.receiptRef := by
      rintro rfl
      rw [hfree] at hother
      cases hother
    exact .inl ⟨kept,before,(hothers other hne).trans hother,rfl,hlast,List.Subset.refl _,
      List.Subset.refl _⟩
  · rw [set_pass_own] at hpass
    cases hpass
    exact
      { bound := ⟨record,hr,rfl,fun _ => ⟨hresult,hevidence⟩,fun _ _ _ h => nomatch h⟩
        listed := hlisted
        loaded := fun _ h => nomatch h
        captured := fun _ => rfl }

theorem listed_grown {w next : World} (hs : next.sources = w.sources) (hl : Lists w next)
    {staged ref : String} (h : Listed w staged ref) : Listed next staged ref := by
  intro hstarts
  obtain ⟨hstaged,hin⟩ := h hstarts
  refine ⟨by rw [hs]; exact hstaged,fun listed hlisted => ?_⟩
  obtain ⟨hnone,hsome⟩ := hl staged
  cases hw : w.sourceReceipts.lookup staged with
  | none =>
    rw [hnone hw] at hlisted
    cases hlisted
  | some before =>
    obtain ⟨more,hmore,hsub⟩ := hsome before hw
    obtain rfl := Option.some.inj (hmore.symm.trans hlisted)
    exact hsub (hin before hw)

theorem intake_kept (hdoc : session.Erases) {s : History} (hk : Kept source s) (now : ℕ)
    (ns space : String) (request : MemoryRequest)
    (hm : Accounted site session source s (.intake now ns space request)) :
    Kept source (historyStep site session s (.intake now ns space request)) := by
  have hmoved := intake_moves site hdoc.moves s.world now ns space request
  obtain ⟨hread,hs,hl,haccepted⟩ := @intake_reads site session s.world hk.keyed now ns
    space request
  have hreached : Kept source
      { s with world := (admitRequest site session s.world now ns space request).1 } := by
    refine kept_read hk rfl hmoved.moved (settled_moved hk.settled hmoved)
      (fun ref staged h => hk.keyed ref staged (hs ▸ h)) (fun ref pass record hp hr => ?_)
      fun staged ref h => listed_grown hs hl h
    obtain ⟨later,hlater,hsame,hterm⟩ := hread ref record hr
    refine ⟨later,hlater,hsame,fun ht => (hterm ht).imp_right ?_⟩
    exact fun ⟨hin,habandoned⟩ hsource => hm ref hin pass record hp hsource hr habandoned
  simp only [historyStep]
  generalize admitRequest site session s.world now ns space request = x at hreached haccepted
  obtain ⟨world,answer⟩ := x
  split
  · rename_i next record messages observedAt identity heq
    cases heq
    have hnew := haccepted record messages observedAt identity rfl
    have hfree : s.passes record.receiptRef = none := by
      cases hp : s.passes record.receiptRef with
      | none => rfl
      | some pass =>
        obtain ⟨old,hold,-⟩ := (hk.passes _ pass hp).bound
        rw [hnew.free] at hold
        cases hold
    exact open_kept (s := { s with world }) hreached record hfree hnew.stored hnew.result
      hnew.evidence hnew.listed
  · rename_i next other _ heq
    cases heq
    exact hreached

theorem managed_kept {s : History} (hk : Kept source s) (managed : Managed)
    (hkeeps : s.world.nexus.Keeps managed.nexus) (hsettled : Settled managed) :
    Kept source { s with world := { s.world with managed } } :=
  kept_read hk rfl hkeeps hsettled hk.keyed
    (fun _ _ record _ hr => ⟨record,hr,SameRecord.refl record,.inl⟩) fun _ _ h => h

theorem stage_kept {s : History} (hk : Kept source s) (ref : String) (staged : StagedSource)
    (hp : staged.sourceRef = ref) :
    Kept source (historyStep site session s (.stage ref staged)) := by
  have hsame : (s.world.stage ref staged).managed = s.world.managed ∧
      (s.world.stage ref staged).receipts = s.world.receipts := by
    unfold World.stage
    split <;> exact ⟨rfl,rfl⟩
  refine kept_read hk rfl ?_ ?_ ?_ (fun other pass record _ hr => ?_) fun other listed h => ?_
  · simp only [historyStep, World.nexus, hsame.1]
    exact Nexus.Keeps.refl _
  · simp only [historyStep, hsame.1]
    exact hk.settled
  · intro other found hf
    simp only [historyStep, World.stage] at hf
    split at hf
    · exact hk.keyed other found hf
    simp only [SortedMap.lookup_insert] at hf
    split at hf
    · rename_i heq
      cases hf
      exact hp.trans heq.symm
    · exact hk.keyed other found hf
  · exact ⟨record,by simp [historyStep, hsame.2, hr],SameRecord.refl record,.inl⟩
  · intro hstarts
    obtain ⟨hstaged,hin⟩ := h hstarts
    simp only [historyStep, World.stage]
    split
    · exact ⟨hstaged,hin⟩
    rename_i hfree
    have hne : other ≠ ref := by
      rintro rfl
      exact hfree hstaged
    simp only [SortedMap.lookup_insert, if_neg hne]
    exact ⟨hstaged,hin⟩

/-- What one call keeps, when the passes of the source leave nothing unaccounted. -/
theorem kept_step (hdoc : session.Erases) {s : History} (hk : Kept source s) (call : HistoryCall)
    (hp : Possible s call) (hm : Accounted site session source s call) :
    Kept source (historyStep site session s call) := by
  cases call with
  | stage ref staged => exact stage_kept site hk ref staged hp
  | intake now ns space request => exact intake_kept site hdoc hk now ns space request hm
  | operation ref result nexus => exact operation_kept site hk ref result nexus hp hm
  | finish ref => exact finish_kept site hdoc hk ref hp hm
  | fault ref error => exact fault_kept site hk ref error hp hm
  | capture ref messages observedAt purpose =>
    exact capture_kept site hdoc hk ref messages observedAt purpose hp hm
  | read now ns ref =>
    obtain ⟨hread,hs,hl⟩ := progress_reads s.world now ns ref
    have hsame := SameSources.of_eq hs hl
    have hmanaged := progress_managed s.world now ns ref
    refine kept_read hk rfl ?_ ?_ (hsame.keyed hk.keyed) (fun other pass record hpass hr => ?_)
      fun staged other h => hsame.listed h
    · simp only [historyStep, World.nexus, hmanaged]
      exact Nexus.Keeps.refl _
    · simp only [historyStep, hmanaged]
      exact hk.settled
    obtain ⟨later,hlater,hrecord,hterm⟩ := hread other record hr
    refine ⟨later,hlater,hrecord,fun ht => (hterm ht).imp_right ?_⟩
    rintro ⟨hin,habandoned⟩ hsource
    obtain rfl := List.mem_singleton.mp hin
    exact hm pass record hpass hsource hr habandoned
  | erase now ns space request owner =>
    obtain ⟨hkeeps,hsettled⟩ :=
      forget_settled site hdoc s.world hk.settled hk.indexed now ns space request owner
    obtain ⟨hsame,hreceipts⟩ := forget_sources site session s.world now ns space request owner
    exact kept_read hk rfl hkeeps hsettled (hsame.keyed hk.keyed)
      (fun ref _ record _ hr => ⟨record,hreceipts ref record hr,SameRecord.refl record,.inl⟩)
      fun _ _ h => hsame.listed h
  | prepare now key record revision =>
    obtain ⟨hkeeps,hsettled,-⟩ := prepare_settled site.toDigests hdoc.engine hk.settled hk.indexed
      now key record revision
    exact managed_kept hk _ hkeeps hsettled
  | commit now key digest =>
    obtain ⟨hkeeps,hsettled,-⟩ :=
      commit_settled site.toDigests hdoc.engine hk.settled now key digest hp
    exact managed_kept hk _ hkeeps hsettled
  | resume now =>
    obtain ⟨hkeeps,hsettled⟩ := recover_settled hdoc.engine hk.settled now hp
    exact managed_kept hk _ hkeeps hsettled
  | evolve nexus => exact managed_kept hk _ hp (nexus_settled hk.settled nexus hp)
  | bind product =>
    exact managed_kept hk _ (Nexus.Keeps.refl _) (journal_settled hk.settled product hp)
  | retain delivered =>
    exact kept_read hk rfl (Nexus.Keeps.refl _) hk.settled hk.keyed
      (fun _ _ record _ hr => ⟨record,hr,SameRecord.refl record,.inl⟩) fun _ _ h => h

theorem kept_run (hdoc : session.Erases) {start s : History} (hk : Kept source start)
    (hrun : HistoryRun site session (Accounted site session source) start s) : Kept source s := by
  induction hrun with
  | here => exact hk
  | step rest call hp hm ih => exact kept_step site hdoc ih call hp hm

end

structure History.Fresh (s : History) : Prop where
  passes : ∀ ref, s.passes ref = none
  changes : ∀ key, s.world.product.changes key = none
  indexed : s.world.nexus.Indexed
  keyed : Keyed s.world

theorem fresh_kept {s : History} (h : s.Fresh) (source : String) : Kept source s where
  indexed := h.indexed
  settled := by
    have hnone : ∀ key, s.world.managed.product.changes key = none := h.changes
    refine ⟨fun key change hc => ?_,fun key change hc => ?_⟩ <;> rw [hnone key] at hc <;> cases hc
  keyed := h.keyed
  passes := by
    intro ref pass hp
    rw [h.passes ref] at hp
    cases hp

theorem source_intake_listed (w : World) (source ref : String) (record : IntakeRecord)
    (hr : w.receipts.lookup ref = some record) (hs : record.sourceRef = some source)
    (hl : ∀ listed, w.sourceReceipts.lookup source = some listed → ref ∈ listed) :
    record ∈ sourceIntakes w source := by
  unfold sourceIntakes
  cases hlisted : w.sourceReceipts.lookup source with
  | none =>
    refine List.mem_filter.mpr ⟨List.mem_map.mpr ⟨(ref,record),?_,rfl⟩,by simp [hs]⟩
    exact (SortedMap.lookup_iff w.receipts ref record).mp hr
  | some listed =>
    exact List.mem_filterMap.mpr ⟨ref,hl listed hlisted,by simp [hr, hs]⟩

/-- In any run in which the passes of a staged source leave nothing unaccounted, a semantic
forget of the source that settles as completed has purged every Evidence, Assertion, Event,
Insight, Experience and Commitment those passes made. -/
theorem completed_forget_erases (site : Site) (session : Session) (hdoc : session.Erases)
    (source : String) (start s : History) (next : World) (now : ℕ) (ns space : String)
    (request : ForgetRequest) (owner : Bool) (stored : IntakeRecord) (planRef summary : String)
    (hstart : start.Fresh) (hrun : HistoryRun site session (Accounted site session source) start s)
    (htarget : request.target = .source source) (hmode : request.mode = .semantic)
    (hfresh : s.world.receipts.lookup (forgetRef site ns space request.idempotencyKey) = none)
    (hforget : forget site session s.world now ns space request owner = (next,.ok stored))
    (hcompleted : stored.result = some (.erasure .completed planRef summary)) : ∀ ref pass, s.passes
    ref = some pass → pass.source = some source → ∀ id ∈ pass.made, Output s.world.nexus id →
    isPurged next.nexus id = true := by
  intro ref pass hpass hsource id hid hout
  have hk := kept_run site hdoc (fresh_kept hstart source) hrun
  obtain ⟨_,loc,rfl,hloc,herased⟩ := forget_erases site hdoc s.world next hk.settled hk.indexed now ns
    space request owner stored planRef summary hmode hfresh hforget hcompleted
  have hkeeps := (forget_settled site hdoc s.world hk.settled hk.indexed now ns space request
    owner).1
  rw [hforget] at hkeeps
  set bound := s.world.putReceipt (forgetRef site ns space request.idempotencyKey)
    (forgetReceipt site s.world now ns (forgetRef site ns space request.idempotencyKey) request)
  obtain ⟨hhandle,hholds⟩ := locate_source_holds bound ns source request loc htarget hmode hloc
  have hstarts : startsWith source "src-" = true := by
    simp only [isHandle, Bool.and_eq_true] at hhandle
    exact hhandle.1.1
  -- the receipts of the passes over the source are among those the forget reads
  have hheld : ∀ other found record, s.passes other = some found → found.source = some source →
      s.world.receipts.lookup other = some record → loc.Holds s.world.nexus record := by
    intro other found record hp hs hr
    have hpass := hk.passes other found hp
    obtain ⟨old,hold,hsame,-⟩ := hpass.bound
    obtain rfl := Option.some.inj (hr.symm.trans hold)
    have hne : other ≠ forgetRef site ns space request.idempotencyKey := by
      rintro rfl
      rw [hfresh] at hr
      cases hr
    refine hholds record (source_intake_listed bound source other record ?_ (hsame.trans hs)
      (hpass.listed source hs hstarts).2)
    rw [lookup_put, if_neg hne, hr]
  have hevidence : ∀ e, e.kind = .evidence → Recorded s source e → e ∈ loc.evidenceTargets := by
    rintro e hkind ⟨other,found,record,hp,hs,hr,hin⟩
    have hrecord := hheld other found record hp hs hr
    rcases hin with hin | ⟨-,hin⟩
    · exact hrecord.evidence e hin hkind
    · exact hrecord.noted e hin
  obtain ⟨record,hr,hsame,-,hanswered⟩ := (hk.passes ref pass hpass).bound
  have hended := (hheld ref pass record hpass hsource hr).ended herased.status
  rcases hanswered hsource hended id hid with hp | ⟨hkind,hrecorded⟩ | ⟨hkind,row,hrow,e,he,hek,hrec⟩ |
    hnot
  · exact hkeeps.purged hp
  · rcases hout with hevid | hclaim | howned
    · exact herased.evidence id (hevidence id hevid hrecorded)
    · exact absurd hclaim hkind
    obtain ⟨other,found,record,hp,hs,hr,hin⟩ := hrecorded
    have hrecord := hheld other found record hp hs hr
    refine herased.concepts id (hrecord.concepts id ?_ howned herased.status)
    rcases hin with hin | ⟨hevid,-⟩
    · exact hin
    · rw [howned.1] at hevid
      cases hevid
  · by_cases hlive : row.state = .purged
    · exact hkeeps.purged ((is_purged_iff _ id).mpr ⟨row,hrow,hlive⟩)
    · exact herased.claims e (hevidence e hek hrec) id
        ((hk.indexed id row hrow hkind hlive).2 e he) hkind
  · exact absurd hout hnot

/-! One observation of a staged source: its pass creates an Evidence and an Insight, and then
reports back or fails. -/

/-- A session whose engine purges the stored elements it is asked to. -/
def storeSession : Session :=
  { plainSession with
    purge := fun nexus request =>
      if (nexus.load request.id).isSome then (purgeRow nexus request.id,.ok ⟨true,[request.id]⟩)
      else (nexus,.error (notFound "element")) }

theorem store_erases : storeSession.Erases := by
  have hpurge : ∀ (nexus : Nexus) id, nexus.Keeps (purgeRow nexus id) := by
    intro nexus id
    refine ⟨fun x row hr => ?_,fun h x row hr hkind hlive => ?_⟩
    · by_cases hx : x = id
      · subst hx
        exact ⟨{ row with state := .purged },by simp [purgeRow, hr],fun _ => rfl,
          fun h => absurd rfl h⟩
      · exact ⟨row,by simp [purgeRow, hx, hr],fun h => h,fun _ => ⟨rfl,List.Subset.refl _⟩⟩
    · by_cases hx : x = id
      · obtain ⟨old,-,rfl⟩ := Option.map_eq_some_iff.mp (by simpa [purgeRow, hx] using hr)
        exact absurd rfl hlive
      · exact h x row (by simpa [purgeRow, hx] using hr) hkind hlive
  refine ⟨⟨fun nexus request => ?_,fun nexus _ => Nexus.Keeps.refl nexus,
    fun nexus id outcome h => ?_⟩,fun nexus _ => Nexus.Keeps.refl nexus,
    fun nexus _ => Nexus.Keeps.refl nexus,fun _ _ _ _ h => ?_,
    fun nexus _ => Nexus.Keeps.refl nexus,fun nexus _ => Nexus.Keeps.refl nexus⟩
  · simp only [storeSession]
    split
    · exact hpurge nexus request.id
    · exact Nexus.Keeps.refl nexus
  · simp only [storeSession, cascade] at h ⊢
    split at h
    · rename_i hl
      obtain ⟨row,hrow⟩ := Option.isSome_iff_exists.mp hl
      simp [isPurged, purgeRow, hrow]
    · cases h
  · simp [storeSession, plainSession] at h

def handleSite : Site :=
  { plainSite with
    hexId := fun parts =>
      if "forget" ∈ parts then "1111111111111111111111111111111111111111"
      else "0000000000000000000000000000000000000000" }

def stagedRef : String := "src-0000000000000000000000000000000000000000"

def stagedNote : StagedSource :=
  ⟨stagedRef,"digest","2026-01-01T00:00:00.000Z","api",[],"2026-01-01T00:00:00.000Z",none,false⟩

def blankNexus : Nexus := ⟨"brain",3,fun _ => none,fun _ => [],0⟩

def noteRow : Row := toldRow [] (.other "note")

def notedNexus : Nexus :=
  { blankNexus with
    load := fun id => if id = uncitedId then some noteRow
      else if id = insight then some (insightRow .active) else none }

def notedResult : OperationResult := ⟨true,some 4,[⟨true,some uncitedId⟩,⟨true,some insight⟩]⟩

def stagedHistory : History :=
  ⟨⟨⟨blankNexus,freshProduct⟩,SortedMap.empty.insert stagedRef stagedNote,SortedMap.empty,
    SortedMap.empty.insert stagedRef [],fun _ => []⟩,fun _ => none⟩

def noteRef : String := "rcpt-0000000000000000000000000000000000000000"

def observed : History :=
  historyStep handleSite storeSession stagedHistory
    (.intake 0 "api" "brain" ⟨.observe,"note",⟨none,[]⟩,stagedRef,none,none⟩)

def noted : History :=
  historyStep handleSite storeSession observed (.operation noteRef notedResult notedNexus)

def reported : History := historyStep handleSite storeSession noted (.finish noteRef)

def failed : History :=
  historyStep handleSite storeSession noted (.fault noteRef (memoryError "InternalError" "stopped"))

def forgetNote : ForgetRequest := ⟨"key",.source stagedRef,.semantic⟩

def forgetFrom (s : History) : World × Except Failure IntakeRecord :=
  forget handleSite storeSession s.world 0 "api" "brain" forgetNote true

theorem staged_fresh : stagedHistory.Fresh where
  passes := fun _ => rfl
  changes := fun _ => rfl
  indexed := fun _ _ h => nomatch h
  keyed := by
    intro ref staged h
    simp only [stagedHistory, SortedMap.lookup_insert, SortedMap.lookup_empty] at h
    split at h
    · rename_i heq
      cases h
      exact heq.symm
    · cases h

theorem noted_running : observed.passes noteRef = some ⟨some stagedRef,[],[],false⟩ ∧ ∀ record,
    observed.world.receipts.lookup noteRef = some record → record.terminal = none ∧ record.intent =
    some ⟨.observe,none,none,none,none⟩ := by
  have hlookup : ∃ record, observed.world.receipts.lookup noteRef = some record ∧
      record.terminal = none ∧ record.intent = some ⟨.observe,none,none,none,none⟩ :=
    ⟨_,rfl,rfl,rfl⟩
  obtain ⟨record,hr,hfound⟩ := hlookup
  refine ⟨rfl,fun other h => ?_⟩
  obtain rfl := Option.some.inj (hr.symm.trans h)
  exact hfound

theorem noted_possible : Possible observed (.operation noteRef notedResult notedNexus) := by
  refine ⟨⟨_,noted_running.1,rfl⟩,⟨fun _ _ h => (nomatch h),fun _ id row hr hkind => ?_⟩,?_⟩
  · simp only [notedNexus] at hr
    split at hr
    · rename_i heq
      subst heq
      cases hkind
    split at hr
    · rename_i heq
      subst heq
      cases hkind
    · cases hr
  · intro change hc id hid
    simp only [notedResult, List.mem_cons, List.not_mem_nil, or_false] at hc
    rcases hc with rfl | rfl <;> cases hid <;> rfl

theorem noted_reached (meets : History → HistoryCall → Prop)
    (hm : meets stagedHistory
      (.intake 0 "api" "brain" ⟨.observe,"note",⟨none,[]⟩,stagedRef,none,none⟩))
    (ho : meets observed (.operation noteRef notedResult notedNexus)) :
    HistoryRun handleSite storeSession meets stagedHistory noted :=
  .step (.step .here (.intake 0 "api" "brain" ⟨.observe,"note",⟨none,[]⟩,stagedRef,none,none⟩)
    trivial hm) (.operation noteRef notedResult notedNexus) noted_possible ho

theorem noted_made : noted.passes noteRef = some ⟨some stagedRef,[notedResult],[],false⟩ := by
  rfl

/-- A pass that reports back is forgotten with its source. -/
theorem completed_forget_erases_note : isPurged (forgetFrom reported).1.nexus uncitedId = true ∧
    isPurged (forgetFrom reported).1.nexus insight = true := by
  have hanswer : ∃ stored planRef summary,
      forgetFrom reported = ((forgetFrom reported).1,.ok stored) ∧
      stored.result = some (.erasure .completed planRef summary) := ⟨_,_,_,rfl,rfl⟩
  obtain ⟨stored,planRef,summary,hforget,hcompleted⟩ := hanswer
  have hterminal : ∀ record, noted.world.receipts.lookup noteRef = some record →
      record.terminal = none ∧ record.intent = some ⟨.observe,none,none,none,none⟩ :=
    noted_running.2
  have hrun : HistoryRun handleSite storeSession
      (Accounted handleSite storeSession stagedRef) stagedHistory reported := by
    refine .step (noted_reached _ (fun ref _ pass _ hp => nomatch hp) ?_) (.finish noteRef)
      ⟨_,noted_made,rfl⟩ ?_
    · intro pass record _ _ hr ht
      rw [(noted_running.2 record hr).1] at ht
      cases ht
    intro pass record hp _ hr id hid
    obtain rfl := Option.some.inj (noted_made.symm.trans hp)
    have hin : id = uncitedId ∨ id = insight := by simpa using (show id ∈ [uncitedId,insight] from hid)
    rcases hin with rfl | rfl
    · exact .inr (.inl rfl)
    refine .inr (.inr (.inr ⟨rfl,⟨(hterminal record hr).1,fun intent hi hkind => ?_⟩,by decide⟩))
    rw [(hterminal record hr).2] at hi
    cases hi
    cases hkind
  have herases := completed_forget_erases handleSite storeSession store_erases stagedRef
    stagedHistory reported (forgetFrom reported).1 0 "api" "brain" forgetNote true stored planRef
    summary staged_fresh hrun rfl rfl (by decide +kernel) hforget hcompleted noteRef
    ⟨some stagedRef,[notedResult],[],true⟩ rfl rfl
  exact ⟨herases uncitedId (by decide) (.inl rfl),
    herases insight (by decide) (.inr (.inr ⟨rfl,_,rfl,by decide⟩))⟩

/-- A pass that commits its operation and then fails leaves no trace in its receipt, and the
forget of the source settles as completed beside what the pass created. -/
theorem failed_pass_outlives_forget :
    ¬∀ (site : Site) (session : Session) (_ : session.Erases) (source : String)
      (start s : History) (next : World) (now : ℕ) (ns space : String) (request : ForgetRequest)
      (owner : Bool) (stored : IntakeRecord) (planRef summary : String), start.Fresh →
      HistoryRun site session (fun _ _ => True) start s →
      request.target = .source source → request.mode = .semantic →
      s.world.receipts.lookup (forgetRef site ns space request.idempotencyKey) = none →
      forget site session s.world now ns space request owner = (next,.ok stored) →
      stored.result = some (.erasure .completed planRef summary) →
      ∀ ref pass, s.passes ref = some pass → pass.source = some source →
        ∀ id ∈ pass.made, Output s.world.nexus id → isPurged next.nexus id = true := by
  intro h
  have hanswer : ∃ stored planRef summary,
      forgetFrom failed = ((forgetFrom failed).1,.ok stored) ∧
      stored.result = some (.erasure .completed planRef summary) := ⟨_,_,_,rfl,rfl⟩
  obtain ⟨stored,planRef,summary,hforget,hcompleted⟩ := hanswer
  have hrun : HistoryRun handleSite storeSession (fun _ _ => True) stagedHistory failed :=
    .step (noted_reached _ trivial trivial) (.fault noteRef (memoryError "InternalError" "stopped"))
      ⟨_,noted_made,rfl⟩ trivial
  have hpurged := h handleSite storeSession store_erases stagedRef stagedHistory failed
    (forgetFrom failed).1 0 "api" "brain" forgetNote true stored planRef summary staged_fresh hrun rfl
    rfl (by decide +kernel) hforget hcompleted noteRef ⟨some stagedRef,[notedResult],[],true⟩ rfl rfl
    uncitedId (by decide) (.inl rfl)
  have hkept : isPurged (forgetFrom failed).1.nexus uncitedId = false := by decide +kernel
  rw [hkept] at hpurged
  cases hpurged

end AndaBrain.WorkerMemory
