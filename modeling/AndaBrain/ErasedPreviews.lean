import AndaBrain.ManagedErasure

/-!
# Erased text in the stored previews

A stored change holds no text of a purged element that it names, once it is emptied as far as it
names it.
-/

set_option autoImplicit false

namespace AndaBrain.ManagedChanges
open Foundation Foundation.Throwing
open WorkerMemory (ElementId ElementState Failure fail Target PendingScrub RecordSource)

structure Bare (c : StoredChange) : Prop where
  text : c.preview.record.text = ""
  subjectLabel : c.preview.record.subjectLabel = ""
  objectLabel : c.preview.record.objectLabel = ""
  subject : c.preview.record.subject = .null
  object : c.preview.record.object = .null

structure Emptied (c : StoredChange) : Prop where
  bare : Bare c
  newValue : c.preview.newValue = none
  requests : c.requests = []

def Cites (id : ElementId) (c : StoredChange) : Prop :=
  c.preview.record.id = id ∨ c.preview.record.propositionId = id ∨
    ∃ source ∈ c.preview.record.sources, source.evidenceId = id

def NamesOld (id : ElementId) (c : StoredChange) : Prop :=
  Cites id c ∨ c.preview.record.subject.id? = some id ∨ c.preview.record.object.id? = some id

def NamesReplacement (id : ElementId) (c : StoredChange) : Prop :=
  c.replacementRecord = some id ∨ c.sourceEvidence = some id

structure SealedBy (id : ElementId) (c : StoredChange) : Prop where
  old : NamesOld id c → Bare c ∧ (c.state ≠ .confirmed → Emptied c)
  replacement : NamesReplacement id c → Emptied c

def Firm (id : ElementId) (c : StoredChange) : Prop :=
  NamesOld id c ∨ NamesReplacement id c → Emptied c

structure Covers (ids : List ElementId) (id : ElementId) (c : StoredChange) : Prop where
  old : NamesOld id c → (oldErased ids c || replacementErased ids c) = true
  replacement : NamesReplacement id c → replacementErased ids c = true

instance (c : StoredChange) : Decidable (Bare c) :=
  decidable_of_iff (c.preview.record.text = "" ∧ c.preview.record.subjectLabel = "" ∧
    c.preview.record.objectLabel = "" ∧ c.preview.record.subject = .null ∧
    c.preview.record.object = .null)
    ⟨fun h => ⟨h.1,h.2.1,h.2.2.1,h.2.2.2.1,h.2.2.2.2⟩,fun h =>
      ⟨h.text,h.subjectLabel,h.objectLabel,h.subject,h.object⟩⟩

instance (c : StoredChange) : Decidable (Emptied c) :=
  decidable_of_iff (Bare c ∧ c.preview.newValue = none ∧ c.requests = [])
    ⟨fun h => ⟨h.1,h.2.1,h.2.2⟩,fun h => ⟨h.bare,h.newValue,h.requests⟩⟩

instance (id : ElementId) (c : StoredChange) : Decidable (Cites id c) :=
  inferInstanceAs (Decidable (_ ∨ _))

instance (id : ElementId) (c : StoredChange) : Decidable (NamesOld id c) :=
  inferInstanceAs (Decidable (_ ∨ _))

instance (id : ElementId) (c : StoredChange) : Decidable (NamesReplacement id c) :=
  inferInstanceAs (Decidable (_ ∨ _))

instance (id : ElementId) (c : StoredChange) : Decidable (SealedBy id c) :=
  decidable_of_iff ((NamesOld id c → Bare c ∧ (c.state ≠ .confirmed → Emptied c)) ∧
    (NamesReplacement id c → Emptied c)) ⟨fun h => ⟨h.1,h.2⟩,fun h => ⟨h.old,h.replacement⟩⟩

instance (id : ElementId) (c : StoredChange) : Decidable (Firm id c) :=
  inferInstanceAs (Decidable (_ → _))

instance (ids : List ElementId) (id : ElementId) (c : StoredChange) : Decidable (Covers ids id c) :=
  decidable_of_iff ((NamesOld id c → (oldErased ids c || replacementErased ids c) = true) ∧
    (NamesReplacement id c → replacementErased ids c = true))
    ⟨fun h => ⟨h.1,h.2⟩,fun h => ⟨h.old,h.replacement⟩⟩

variable {w : World} {key : String} {ids : List ElementId} {id : ElementId} {c : StoredChange}

theorem emptied_firm (h : Emptied c) (id : ElementId) : Firm id c := fun _ => h

theorem emptied_sealed (h : Emptied c) (id : ElementId) : SealedBy id c :=
  ⟨fun _ => ⟨h.bare,fun _ => h⟩,fun _ => h⟩

theorem Emptied.alike {c c' : StoredChange} (h : Emptied c) (hpreview : c'.preview = c.preview)
    (hrequests : c'.requests = c.requests) : Emptied c' := by
  obtain ⟨⟨htext,hsubject,hobject,hs,ho⟩,hvalue,hnone⟩ := h
  rw [← hpreview] at htext hsubject hobject hs ho hvalue
  exact ⟨⟨htext,hsubject,hobject,hs,ho⟩,hvalue,hrequests.trans hnone⟩

theorem firm_sealed (h : Firm id c) : SealedBy id c :=
  ⟨fun hold => ⟨(h (.inl hold)).bare,fun _ => h (.inl hold)⟩,fun hnew => h (.inr hnew)⟩

theorem sealed_firm (h : SealedBy id c) (hstate : c.state ≠ .confirmed) : Firm id c := by
  rintro (hold | hnew)
  · exact (h.old hold).2 hstate
  · exact h.replacement hnew

theorem old_erased_iff (ids : List ElementId) (c : StoredChange) :
    oldErased ids c = true ↔ ∃ id ∈ ids, Cites id c := by
  simp only [oldErased,Cites,decide_eq_true_eq]
  constructor
  · rintro (h | h | ⟨source,hs,h⟩)
    · exact ⟨_,h,.inl rfl⟩
    · exact ⟨_,h,.inr (.inl rfl)⟩
    · exact ⟨_,h,.inr (.inr ⟨source,hs,rfl⟩)⟩
  · rintro ⟨id,hid,rfl | rfl | ⟨source,hs,rfl⟩⟩
    · exact .inl hid
    · exact .inr (.inl hid)
    · exact .inr (.inr ⟨source,hs,hid⟩)

theorem replacement_erased_iff (ids : List ElementId) (c : StoredChange) :
    replacementErased ids c = true ↔ ∃ id ∈ ids, NamesReplacement id c := by
  simp only [replacementErased,NamesReplacement,Bool.or_eq_true,Option.any_eq_true,
    decide_eq_true_eq]
  constructor
  · rintro (⟨id,h,hid⟩ | ⟨id,h,hid⟩)
    · exact ⟨id,hid,.inl h⟩
    · exact ⟨id,hid,.inr h⟩
  · rintro ⟨id,hid,h | h⟩
    · exact .inl ⟨id,h,hid⟩
    · exact .inr ⟨id,h,hid⟩

theorem covers_mono {ids more : List ElementId} {id : ElementId} {c : StoredChange}
    (h : Covers ids id c) (hsub : ids ⊆ more) : Covers more id c := by
  have hnew : replacementErased ids c = true → replacementErased more c = true := by
    rw [replacement_erased_iff,replacement_erased_iff]
    rintro ⟨i,hi,hn⟩
    exact ⟨i,hsub hi,hn⟩
  have hold : oldErased ids c = true → oldErased more c = true := by
    rw [old_erased_iff,old_erased_iff]
    rintro ⟨i,hi,hc⟩
    exact ⟨i,hsub hi,hc⟩
  refine ⟨fun hn => ?_,hnew ∘ h.replacement⟩
  have := h.old hn
  simp only [Bool.or_eq_true] at this ⊢
  exact this.imp hold hnew

theorem covers_nil (h : Covers [] id c) : Firm id c := by
  have hnone : (oldErased [] c || replacementErased [] c) = false := by
    simp [oldErased,replacementErased]
  rintro (hold | hnew)
  · have := h.old hold
    rw [hnone] at this
    cases this
  · have := h.replacement hnew
    simp [replacementErased] at this

/-! ## What a scrub leaves -/

theorem clear_record_bare (c : StoredChange) : Bare (clearRecord c) := ⟨rfl,rfl,rfl,rfl,rfl⟩

theorem clear_content_emptied (c : StoredChange) : Emptied (clearContent c) :=
  ⟨⟨rfl,rfl,rfl,rfl,rfl⟩,rfl,rfl⟩

theorem scrubbed_cases (ids : List ElementId) (c : StoredChange) : Emptied (scrubbed ids c) ∨
    c.state = .confirmed ∧ replacementErased ids c = false ∧ scrubbed ids c = clearRecord c := by
  unfold scrubbed
  by_cases hp : c.state = .prepared
  · left
    simp only [hp,if_true]
    rw [if_pos (by simp)]
    exact clear_content_emptied _
  simp only [hp,if_false]
  by_cases hclear : (replacementErased ids c || decide (c.state ≠ .confirmed)) = true
  · left
    rw [if_pos hclear]
    exact clear_content_emptied _
  right
  rw [if_neg hclear]
  simp only [Bool.or_eq_true,decide_eq_true_eq,not_or,not_not,Bool.not_eq_true] at hclear
  exact ⟨hclear.2,hclear.1,rfl⟩

theorem scrubbed_kept (ids : List ElementId) (c : StoredChange) :
    (scrubbed ids c).kind = c.kind ∧ (scrubbed ids c).preview.targets = c.preview.targets := by
  unfold scrubbed
  dsimp only
  split_ifs <;> exact ⟨rfl,rfl⟩

theorem clear_record_names (h : NamesOld id (clearRecord c)) : Cites id c := by
  rcases h with h | h | h
  · exact h
  · cases h
  · cases h

theorem clear_record_emptied (h : Emptied c) : Emptied (clearRecord c) :=
  ⟨clear_record_bare c,h.newValue,h.requests⟩

theorem scrubbed_sealed (h : SealedBy id c) : SealedBy id (scrubbed ids c) := by
  rcases scrubbed_cases ids c with hempty | ⟨hstate,-,heq⟩
  · exact emptied_sealed hempty id
  · rw [heq]
    exact ⟨fun _ => ⟨clear_record_bare c,fun hs => absurd hstate hs⟩,fun hnew =>
      clear_record_emptied (h.replacement hnew)⟩

theorem scrubbed_firm (h : Firm id c) : Firm id (scrubbed ids c) := by
  rcases scrubbed_cases ids c with hempty | ⟨-,-,heq⟩
  · exact emptied_firm hempty id
  rw [heq]
  rintro (hold | hnew)
  · exact clear_record_emptied (h (.inl (.inl (clear_record_names hold))))
  · exact clear_record_emptied (h (.inr hnew))

theorem scrubbed_covered (h : Covers ids id c) : SealedBy id (scrubbed ids c) := by
  rcases scrubbed_cases ids c with hempty | ⟨hstate,hnone,heq⟩
  · exact emptied_sealed hempty id
  rw [heq]
  refine ⟨fun _ => ⟨clear_record_bare c,fun hs => absurd hstate hs⟩,fun hnew => ?_⟩
  have := h.replacement hnew
  rw [hnone] at this
  cases this

theorem unrelated_firm (h : Covers ids id c)
    (hnone : (oldErased ids c || replacementErased ids c) = false) : Firm id c := by
  rintro (hold | hnew)
  · have := h.old hold
    rw [hnone] at this
    cases this
  have := h.replacement hnew
  rw [Bool.or_eq_false_iff] at hnone
  rw [hnone.2] at this
  cases this

theorem covers_scrubbed {ids others : List ElementId} {id : ElementId} {c : StoredChange}
    (h : Covers others id c) : SealedBy id (scrubbed ids c) ∨ Covers others id (scrubbed ids c) := by
  rcases scrubbed_cases ids c with hempty | ⟨-,-,heq⟩
  · exact .inl (emptied_sealed hempty id)
  · right
    rw [heq]
    exact ⟨fun hold => h.old (.inl (clear_record_names hold)),fun hnew => h.replacement hnew⟩

/-! ## What is owed -/

/-- A purge is recognised: a stored change that still holds text of what was purged is known to the
scrub it is given, the pending change holds none unless it is the deletion itself, and nothing that
was purged is handed out as new. -/
structure Recognised (e : Erasure) : Prop where
  covered : ∀ k c, e.changes.lookup k = some c → e.owner ≠ some k → ∀ id ∈ e.purged,
    SealedBy id c ∨ Covers e.scope id c
  fenced : ∀ k c, e.changes.lookup k = some c → e.owner ≠ some k → e.pending = some k →
    ∀ id ∈ e.purged, Firm id c
  fresh : ∀ id ∈ e.created, id ∉ e.earlier++e.purged

instance (e : Erasure) : Decidable (Recognised e) :=
  decidable_of_iff
    ((∀ entry ∈ e.changes.entries, e.owner ≠ some entry.1 → ∀ id ∈ e.purged,
        SealedBy id entry.2 ∨ Covers e.scope id entry.2) ∧
      (∀ entry ∈ e.changes.entries, e.owner ≠ some entry.1 → e.pending = some entry.1 →
        ∀ id ∈ e.purged, Firm id entry.2) ∧ ∀ id ∈ e.created, id ∉ e.earlier++e.purged)
    ⟨fun h => ⟨fun k c hl => h.1 (k,c) ((SortedMap.lookup_iff _ _ _).mp hl),fun k c hl =>
        h.2.1 (k,c) ((SortedMap.lookup_iff _ _ _).mp hl),h.2.2⟩,
      fun h => ⟨fun entry he => h.covered entry.1 entry.2 ((SortedMap.lookup_iff _ _ _).mpr he),
        fun entry he => h.fenced entry.1 entry.2 ((SortedMap.lookup_iff _ _ _).mpr he),h.fresh⟩⟩

def Told (w : World) : Prop := ∀ e ∈ w.erasures, Recognised e

instance (w : World) : Decidable (Told w) := inferInstanceAs (Decidable (∀ _ ∈ _, _))

def Begun (w : World) (key : String) : Prop :=
  ∃ e ∈ w.erasures, e.owner = some key ∧ e.purged ≠ []

def Whole (w : World) : Prop :=
  ∀ key, w.control.pending = some key → ∀ e ∈ w.erasures, e.owner = some key → e.purged = []

def targetIds (c : StoredChange) : List ElementId := c.preview.targets.map Target.id

def ByScrub (w : World) (id : ElementId) (c : StoredChange) : Prop :=
  ∃ s, w.scrub = some s ∧ Covers s.ids id c

def ByDeletion (w : World) (id : ElementId) (c : StoredChange) : Prop :=
  ∃ k d, w.control.pending = some k ∧ w.changes.lookup k = some d ∧ d.kind = .delete ∧
    Begun w k ∧ Covers (targetIds d) id c

abbrev Owe : Type := ElementId → StoredChange → Prop

def Nothing : Owe := fun _ _ => False

/-- Every purged element that a stored change names is gone from it, or is owed; `F` and `G` are
owed beside, of the pending change and of the others. -/
structure Due (F G : Owe) (w : World) : Prop where
  own : ∀ k c, w.control.pending = some k → w.changes.lookup k = some c → ∀ id ∈ w.since k,
    Firm id c ∨ c.kind = .delete ∧ Begun w k ∨ F id c
  others : ∀ k c, w.control.pending ≠ some k → w.changes.lookup k = some c → ∀ id ∈ w.since k,
    SealedBy id c ∨ ByScrub w id c ∨ ByDeletion w id c ∨ G id c
  excepted : ∀ s k, w.scrub = some s → s.except = some k → w.control.pending = some k ∧
    ∃ c, w.changes.lookup k = some c ∧ c.kind = .delete

def Sound (w : World) : Prop := Told w → Due Nothing Nothing w

theorem Due.mono {F F' G G' : Owe} {w : World} (h : Due F G w) (hf : ∀ id c, F id c → F' id c)
    (hg : ∀ id c, G id c → G' id c) : Due F' G' w :=
  ⟨fun k c hp hl id hid => (h.own k c hp hl id hid).imp_right (Or.imp_right (hf id c)),
    fun k c hp hl id hid => (h.others k c hp hl id hid).imp_right
      (Or.imp_right (Or.imp_right (hg id c))),h.excepted⟩

structure Kept (w next : World) : Prop where
  pending : next.control.pending = w.control.pending
  changes : next.changes = w.changes
  erasures : next.erasures = w.erasures
  since : next.since = w.since
  scrub : next.scrub = w.scrub

theorem Due.kept {F G : Owe} {w next : World} (h : Due F G w) (hk : Kept w next) :
    Due F G next := by
  obtain ⟨hpending,hchanges,herasures,hsince,hscrub⟩ := hk
  have hbegun : ∀ k, Begun w k → Begun next k := fun k hb => by
    rw [Begun,herasures]
    exact hb
  refine ⟨fun k c hp hl id hid => ?_,fun k c hp hl id hid => ?_,fun s k hs he => ?_⟩
  · rw [hpending] at hp
    rw [hchanges] at hl
    rw [hsince] at hid
    exact (h.own k c hp hl id hid).imp_right (Or.imp_left fun hd => ⟨hd.1,hbegun k hd.2⟩)
  · rw [hpending] at hp
    rw [hchanges] at hl
    rw [hsince] at hid
    refine (h.others k c hp hl id hid).imp_right (Or.imp ?_ (Or.imp_left ?_))
    · rintro ⟨s,hs,hc⟩
      exact ⟨s,hscrub.trans hs,hc⟩
    · rintro ⟨k',d,hp',hl',hd,hb,hc⟩
      exact ⟨k',d,by rw [hpending]; exact hp',by rw [hchanges]; exact hl',hd,hbegun k' hb,hc⟩
  · rw [hpending,hchanges]
    exact h.excepted s k (hscrub.symm.trans hs) he

theorem Told.kept {w next : World} (h : Told next) (hk : Kept w next) : Told w := by
  rw [Told,← hk.erasures]
  exact h

theorem Sound.kept {w next : World} (h : Sound w) (hk : Kept w next) : Sound next :=
  fun ht => (h (ht.kept hk)).kept hk

theorem Sound.called (h : Sound w) : Sound { w with calls := w.calls+1 } :=
  h.kept ⟨rfl,rfl,rfl,rfl,rfl⟩

def Alike (w : World) (key : String) (c : StoredChange) : Prop :=
  ∃ old, w.changes.lookup key = some old ∧ c.kind = old.kind ∧
    c.preview.targets = old.preview.targets

theorem alike_store (h : Alike w key c) {k : String}
    {d : StoredChange} (hd : w.changes.lookup k = some d) : ∃ d', (w.store key c).changes.lookup k =
    some d' ∧ d'.kind = d.kind ∧ d'.preview.targets = d.preview.targets := by
  rw [store_lookup]
  by_cases hk : k = key
  · obtain ⟨old,ho,hkind,htargets⟩ := h
    subst hk
    obtain rfl := Option.some.inj (ho.symm.trans hd)
    exact ⟨c,if_pos rfl,hkind,htargets⟩
  · exact ⟨d,by rw [if_neg hk,hd],rfl,rfl⟩

theorem ByDeletion.put {c m : StoredChange} {id : ElementId}
    (h : ByDeletion w id m) (halike : Alike w key c) : ByDeletion (w.store key c) id m := by
  obtain ⟨k,d,hp,hl,hd,hb,hc⟩ := h
  obtain ⟨d',hl',hkind,htargets⟩ := alike_store halike hl
  refine ⟨k,d',hp,hl',hkind.trans hd,hb,?_⟩
  rw [targetIds,htargets]
  exact hc

theorem Due.put {F G : Owe} {w : World} {key : String} {c : StoredChange} (h : Due F G w)
    (halike : Alike w key c)
    (hown : w.control.pending = some key → ∀ id ∈ w.since key,
      Firm id c ∨ c.kind = .delete ∧ Begun w key ∨ F id c)
    (hother : w.control.pending ≠ some key → ∀ id ∈ w.since key,
      SealedBy id c ∨ ByScrub w id c ∨ ByDeletion w id c ∨ G id c) :
    Due F G (w.store key c) := by
  refine ⟨fun k m hp hl id hid => ?_,fun k m hp hl id hid => ?_,fun s k hs he => ?_⟩
  · rw [store_lookup] at hl
    split at hl
    · rename_i hk
      subst hk
      obtain rfl := Option.some.inj hl
      exact hown hp id hid
    · exact h.own k m hp hl id hid
  · have hput : (SealedBy id m ∨ ByScrub w id m ∨ ByDeletion w id m ∨ G id m) →
        SealedBy id m ∨ ByScrub (w.store key c) id m ∨ ByDeletion (w.store key c) id m ∨ G id m :=
      Or.imp_right (Or.imp_right (Or.imp_left fun hd => hd.put halike))
    rw [store_lookup] at hl
    split at hl
    · rename_i hk
      subst hk
      obtain rfl := Option.some.inj hl
      exact hput (hother hp id hid)
    · exact hput (h.others k m hp hl id hid)
  · obtain ⟨hp,d,hl,hd⟩ := h.excepted s k hs he
    obtain ⟨d',hl',hkind,-⟩ := alike_store halike hl
    exact ⟨hp,d',hl',hkind.trans hd⟩

theorem Due.put_emptied {F G : Owe} {w : World} {key : String} {c : StoredChange} (h : Due F G w)
    (halike : Alike w key c) (hempty : Emptied c) : Due F G (w.store key c) :=
  h.put halike (fun _ id _ => .inl (emptied_firm hempty id))
    fun _ id _ => .inl (emptied_sealed hempty id)

theorem Sound.put_emptied (h : Sound w)
    (halike : Alike w key c) (hempty : Emptied c) : Sound (w.store key c) :=
  fun ht => (h ht).put_emptied halike hempty

theorem cleared_alike
    (hl : w.changes.lookup key = some c) :
    Alike w key (clearContent { c with state := .discarded }) := ⟨c,hl,rfl,rfl⟩

theorem Sound.expired (h : Sound w)
    (hl : w.changes.lookup key = some c) :
    Sound (w.store key (clearContent { c with state := .discarded })) :=
  h.put_emptied (cleared_alike hl) (clear_content_emptied _)

/-! ## The scrub -/

def Swept (ids : List ElementId) (but : Option String) (w : World) : Prop :=
  ∀ k c, but ≠ some k → w.changes.lookup k = some c → ∀ id, Covers ids id c → SealedBy id c

theorem Frame.trans {but : Option String} {u v w : World} (h : Frame but u v)
    (hnext : Frame but v w) : Frame but u w :=
  ⟨hnext.nexus.trans h.nexus,hnext.control.trans h.control,hnext.executed.trans h.executed,
    hnext.released.trans h.released,hnext.since.trans h.since,hnext.erasures.trans h.erasures,
    fun key hk => (hnext.spared key hk).trans (h.spared key hk)⟩

structure Sweeping (ids : List ElementId) (but : Option String) (v : World)
    (todo rest : List (String × StoredChange)) (w : World) : Prop where
  sound : Sound w
  scrub : w.scrub = some ⟨ids,but⟩
  frame : Frame but v w
  unvisited : Unvisited rest w
  swept : ∀ k c, but ≠ some k → w.changes.lookup k = some c →
    (∃ e ∈ todo, e.1 = k) ∨ ∀ id, Covers ids id c → SealedBy id c

theorem scrubbed_swept (h : Covers ids id (scrubbed ids c)) : SealedBy id (scrubbed ids c) := by
  rcases scrubbed_cases ids c with hempty | ⟨hstate,hnone,heq⟩
  · exact emptied_sealed hempty id
  rw [heq] at h ⊢
  refine ⟨fun _ => ⟨clear_record_bare c,fun hs => absurd hstate hs⟩,fun hnew => ?_⟩
  have := h.replacement hnew
  rw [show replacementErased ids (clearRecord c) = replacementErased ids c from rfl,hnone] at this
  cases this

theorem Sound.scrubbed {ids : List ElementId}
    {but : Option String} (h : Sound w) (hl : w.changes.lookup key = some c)
    (hscrub : w.scrub = some ⟨ids,but⟩) : Sound (w.store key (scrubbed ids c)) := by
  intro ht
  have hdue := h ht
  obtain ⟨hkind,htargets⟩ := scrubbed_kept ids c
  refine hdue.put ⟨c,hl,hkind,htargets⟩ (fun hp id hid => ?_) fun hp id hid => ?_
  · rw [hkind]
    exact (hdue.own key c hp hl id hid).imp_left scrubbed_firm
  rcases hdue.others key c hp hl id hid with hsealed | ⟨s,hs,hc⟩ | ⟨k,d,hp',hl',hd,hb,hc⟩ | hnone
  · exact .inl (scrubbed_sealed hsealed)
  · rw [hscrub] at hs
    obtain rfl := Option.some.inj hs
    exact .inl (scrubbed_covered hc)
  · exact (covers_scrubbed hc).imp_right fun hcov => .inr (.inl ⟨k,d,hp',hl',hd,hb,hcov⟩)
  · exact hnone.elim

section
variable {ids : List ElementId} {but : Option String} {v w : World}
  {todo rest : List (String × StoredChange)} {entry : String × StoredChange}

theorem Sweeping.called (h : Sweeping ids but v todo rest w) :
    Sweeping ids but v todo rest { w with calls := w.calls+1 } :=
  ⟨h.sound.called,h.scrub,h.frame.called,h.unvisited,h.swept⟩

theorem Sweeping.expired {c : StoredChange} (h : Sweeping ids but v (entry::rest) rest w)
    (hbut : but ≠ some entry.1) (hnew : ∀ e ∈ rest, e.1 ≠ entry.1)
    (hl : w.changes.lookup entry.1 = some c) :
    Sweeping ids but v (entry::rest) rest
      (w.store entry.1 (clearContent { c with state := .discarded })) := by
  refine ⟨h.sound.expired hl,h.scrub,h.frame.put hbut _,fun e he => ?_,fun k m hk hm => ?_⟩
  · rw [store_lookup,if_neg (hnew e he)]
    exact h.unvisited e he
  rw [store_lookup] at hm
  split at hm
  · rename_i heq
    exact .inl ⟨entry,List.mem_cons_self,heq.symm⟩
  · exact h.swept k m hk hm

theorem Sweeping.put {c : StoredChange} (h : Sweeping ids but v (entry::rest) rest w)
    (hbut : but ≠ some entry.1) (hnew : ∀ e ∈ rest, e.1 ≠ entry.1)
    (hsound : Sound (w.store entry.1 c)) (hswept : ∀ id, Covers ids id c → SealedBy id c) :
    Sweeping ids but v rest rest (w.store entry.1 c) := by
  refine ⟨hsound,h.scrub,h.frame.put hbut c,fun e he => ?_,fun k m hk hl => ?_⟩
  · rw [store_lookup,if_neg (hnew e he)]
    exact h.unvisited e he
  rw [store_lookup] at hl
  split at hl
  · obtain rfl := Option.some.inj hl
    exact .inr hswept
  rename_i hne
  rcases h.swept k m hk hl with ⟨e,he,rfl⟩ | hdone
  · rcases List.mem_cons.mp he with rfl | he
    · exact absurd rfl hne
    · exact .inl ⟨e,he,rfl⟩
  · exact .inr hdone

theorem Sweeping.pass {c : StoredChange} (h : Sweeping ids but v (entry::rest) rest w)
    (hl : w.changes.lookup entry.1 = some c)
    (hswept : but ≠ some entry.1 → ∀ id, Covers ids id c → SealedBy id c) :
    Sweeping ids but v rest rest w := by
  refine ⟨h.sound,h.scrub,h.frame,h.unvisited,fun k m hk hm => ?_⟩
  rcases h.swept k m hk hm with ⟨e,he,rfl⟩ | hdone
  · rcases List.mem_cons.mp he with rfl | he
    · obtain rfl := Option.some.inj (hl.symm.trans hm)
      exact .inr (hswept hk)
    · exact .inl ⟨e,he,rfl⟩
  · exact .inr hdone

theorem scrub_one_sweeps {now : ℕ} (hbut : but ≠ some entry.1)
    (hnew : ∀ e ∈ rest, e.1 ≠ entry.1) :
    Triple (Sweeping ids but v (entry::rest) (entry::rest)) (scrubOne now ids entry.1 entry.2)
      (fun _ => Sweeping ids but v rest rest) (fun w => Sound w ∧ Frame but v w) := by
  unfold scrubOne
  refine triple_bind (triple_mono (expire_stored (R := Sweeping ids but v (entry::rest) rest)
    (fun _ h => h.called) (fun _ h hl => h.expired hbut hnew hl)) (fun w h => ?_)
    (fun _ _ h => h) fun _ h => ⟨h.sound,h.frame⟩) fun related => ?_
  · exact ⟨⟨h.sound,h.scrub,h.frame,fun e he => h.unvisited e (List.mem_cons_of_mem _ he),h.swept⟩,
      h.unvisited entry List.mem_cons_self⟩
  refine triple_ite (fun _ => ?_) fun hnone => triple_pure fun w h => ?_
  · exact triple_put (fun w h => ⟨h.1.called,h.2⟩)
      (fun w h => h.1.put hbut hnew (h.1.sound.scrubbed h.2.1 h.1.scrub)
        fun _ hc => scrubbed_swept hc) fun w h => ⟨h.1.sound,h.1.frame⟩
  · refine h.1.pass h.2.1 fun _ id hc => firm_sealed (unrelated_firm hc ?_)
    simpa using hnone

end

theorem scrub_all_spec (v : World) (now : ℕ) (ids : List ElementId) (but : Option String) :
    Triple (fun w => w = v ∧ Sound w ∧ w.scrub = some ⟨ids,but⟩) (scrubAll now ids but)
      (fun _ w => Sound w ∧ Frame but v w ∧ w.scrub = none ∧ Swept ids but w)
      (fun w => Sound w ∧ Frame but v w) := by
  unfold scrubAll
  refine triple_bind (R := fun v' w => v' = v ∧ w = v ∧ Sound w ∧ w.scrub = some ⟨ids,but⟩)
    (triple_read fun w h => ⟨h.1,h⟩) fun v' => ?_
  refine triple_bind (R := fun _ => Sweeping ids but v [] []) ?_ fun _ => ?_
  · refine triple_pre (triple_each_rest (J := fun rest => Sweeping ids but v rest rest)
      (E := fun w => Sound w ∧ Frame but v w) fun entry rest hrest => ?_) (fun w h => ?_)
    · refine triple_bind (R := fun _ => Sweeping ids but v (entry::rest) (entry::rest))
        (triple_err (triple_call fun w h => h.called) fun w h => ⟨h.sound,h.frame⟩) fun _ => ?_
      refine triple_ite (fun heq => triple_pure fun w h => ?_) fun hbut =>
        scrub_one_sweeps hbut (entries_later hrest)
      exact Sweeping.pass ⟨h.sound,h.scrub,h.frame,fun e he =>
        h.unvisited e (List.mem_cons_of_mem _ he),h.swept⟩ (h.unvisited entry List.mem_cons_self)
          fun hne => absurd heq hne
    · obtain ⟨rfl,rfl,hsound,hscrub⟩ := h
      have hread : Unvisited w.changes.entries w := fun e he =>
        (SortedMap.lookup_iff _ _ _).mpr he
      exact ⟨hsound,hscrub,Frame.refl _ _,hread,fun k c _ hl =>
        .inl ⟨(k,c),(SortedMap.lookup_iff _ _ _).mp hl,rfl⟩⟩
  unfold putScrub
  refine triple_bind (R := fun _ => Sweeping ids but v [] [])
    (triple_err (triple_call fun w h => h.called) fun w h => ⟨h.sound,h.frame⟩) fun _ => triple_update fun w h => ?_
  have hswept : Swept ids but w := fun k c hk hl =>
    (h.swept k c hk hl).resolve_left fun ⟨_,he,_⟩ => nomatch he
  refine ⟨fun ht => ?_,⟨h.frame.nexus,h.frame.control,h.frame.executed,h.frame.released,
    h.frame.since,h.frame.erasures,h.frame.spared⟩,rfl,hswept⟩
  have hdue := h.sound ht
  refine ⟨hdue.own,fun k c hp hl id hid => ?_,fun s k hs => nomatch hs⟩
  rcases hdue.others k c hp hl id hid with hsealed | ⟨s,hs,hc⟩ | hrest
  · exact .inl hsealed
  · rw [h.scrub] at hs
    obtain rfl := Option.some.inj hs
    have hbut : but ≠ some k := fun heq =>
      hp (hdue.excepted _ k h.scrub heq).1
    exact .inl (hswept k c hbut hl id hc)
  · exact .inr (.inr hrest)

theorem triple_call_at {P E : World → Prop} {Q : Unit → World → Prop}
    (hok : ∀ w, P w → w.faults w.calls = false → Q () { w with calls := w.calls+1 })
    (herror : ∀ w, P w → w.faults w.calls = true → E { w with calls := w.calls+1 }) :
    Triple P call Q E := by
  intro w hw
  unfold call
  cases hf : w.faults w.calls with
  | false => exact hok w hw hf
  | true => exact herror w hw hf

def Exceptable (but : Option String) (w : World) : Prop :=
  ∀ k, but = some k → w.control.pending = some k ∧
    ∃ c, w.changes.lookup k = some c ∧ c.kind = .delete

theorem due_unrecorded {w : World} (h : Due Nothing (Covers []) w) : Due Nothing Nothing w := by
  refine ⟨h.own,fun k c hp hl id hid => ?_,h.excepted⟩
  rcases h.others k c hp hl id hid with hsealed | hscrub | hdeletion | hc
  · exact .inl hsealed
  · exact .inr (.inl hscrub)
  · exact .inr (.inr (.inl hdeletion))
  · exact .inl (firm_sealed (covers_nil hc))

theorem due_recorded {w : World} {erased : List ElementId} {but : Option String}
    (h : Due Nothing (Covers erased) w) (hbut : Exceptable but w) :
    Due Nothing Nothing
      { w with scrub := some ⟨erased++(w.scrub.map PendingScrub.ids).getD [],but⟩ } := by
  refine ⟨h.own,fun k c hp hl id hid => ?_,fun s k hs he => ?_⟩
  · rcases h.others k c hp hl id hid with hsealed | ⟨s,hs,hc⟩ | hdeletion | hc
    · exact .inl hsealed
    · refine .inr (.inl ⟨_,rfl,covers_mono hc fun i hi => ?_⟩)
      simp [hs,hi]
    · exact .inr (.inr (.inl hdeletion))
    · exact .inr (.inl ⟨_,rfl,covers_mono hc fun i hi => List.mem_append_left _ hi⟩)
  · obtain rfl := Option.some.inj hs
    exact hbut k he

theorem open_scrub_spec (v : World) (erased : List ElementId) (but : Option String) :
    Triple (fun w => w = v ∧ (Told w → Due Nothing (Covers (recorded w erased)) w ∧
        Exceptable but w)) (openScrub erased but)
      (fun ids w => Sound w ∧ Frame but v w ∧ w.scrub = some ⟨ids,but⟩ ∧ erased ⊆ ids)
      (fun w => Sound w ∧ Frame but v w) := by
  have hlost : ∀ w, (v.faults v.calls || v.faults (v.calls+1)) = true → Kept v w →
      (Told v → Due Nothing (Covers (recorded v erased)) v ∧ Exceptable but v) → Sound w := by
    intro w hf hk hdue
    rw [recorded,if_pos hf] at hdue
    exact Sound.kept (fun ht => due_unrecorded (hdue ht).1) hk
  unfold openScrub
  refine triple_bind (R := fun _ w => w = { v with calls := v.calls+1 } ∧
    v.faults v.calls = false ∧ (Told v → Due Nothing (Covers (recorded v erased)) v ∧
      Exceptable but v)) (triple_call_at (fun w h hf => ?_) fun w h hf => ?_) fun _ => ?_
  · obtain ⟨rfl,hdue⟩ := h
    exact ⟨rfl,hf,hdue⟩
  · obtain ⟨rfl,hdue⟩ := h
    exact ⟨hlost _ (by simp [hf]) ⟨rfl,rfl,rfl,rfl,rfl⟩ hdue,(Frame.refl _ _).called⟩
  refine triple_read_bind fun v' => ?_
  refine triple_bind (R := fun _ w => Sound w ∧ Frame but v w ∧
    w.scrub = some ⟨erased++(v'.scrub.map PendingScrub.ids).getD [],but⟩) ?_ fun _ =>
      triple_pure fun w h => ⟨h.1,h.2.1,h.2.2,fun i hi => List.mem_append_left _ hi⟩
  unfold putScrub
  refine triple_bind (R := fun _ w => v'.scrub = v.scrub ∧
    w = { v with calls := v.calls+1+1 } ∧ (Told v → Due Nothing (Covers erased) v ∧
      Exceptable but v)) (triple_call_at (fun w h hf => ?_) fun w h hf => ?_) fun _ =>
        triple_update fun w h => ?_
  · obtain ⟨rfl,rfl,hfirst,hdue⟩ := h
    rw [recorded,if_neg (by simpa [hfirst] using hf)] at hdue
    exact ⟨rfl,rfl,hdue⟩
  · obtain ⟨rfl,rfl,hfirst,hdue⟩ := h
    exact ⟨hlost _ (by simpa [hfirst] using hf) ⟨rfl,rfl,rfl,rfl,rfl⟩ hdue,
      ⟨rfl,rfl,rfl,rfl,rfl,rfl,fun _ _ => rfl⟩⟩
  obtain ⟨hscrub,rfl,hdue⟩ := h
  rw [hscrub]
  refine ⟨fun ht => ?_,⟨rfl,rfl,rfl,rfl,rfl,rfl,fun _ _ => rfl⟩,rfl⟩
  obtain ⟨hd,hbut⟩ := hdue ht
  exact (due_recorded hd hbut).kept ⟨rfl,rfl,rfl,rfl,rfl⟩

theorem scrub_changes_spec (v : World) (now : ℕ) (erased : List ElementId) (but : Option String) :
    Triple (fun w => w = v ∧ (Told w → Due Nothing (Covers (recorded w erased)) w ∧
        Exceptable but w)) (scrubChanges now erased but)
      (fun _ w => Sound w ∧ Frame but v w ∧ w.scrub = none ∧ Swept erased but w)
      (fun w => Sound w ∧ Frame but v w) := by
  unfold scrubChanges
  refine triple_bind (open_scrub_spec v erased but) fun ids w h => ?_
  obtain ⟨hsound,hframe,hscrub,hsub⟩ := h
  refine triple_mono (scrub_all_spec w now ids but) (fun _ h => h) (fun _ w' h => ?_)
    (fun w' h => ?_) w ⟨rfl,hsound,hscrub⟩
  · exact ⟨h.1,hframe.trans h.2.1,h.2.2.1,fun k c hk hl id hc =>
      h.2.2.2 k c hk hl id (covers_mono hc hsub)⟩
  · exact ⟨h.1,hframe.trans h.2⟩

def Owing (purged : List ElementId) (w : World) : Prop :=
  Told w → Due (fun id _ => id ∈ purged) (fun id _ => id ∈ purged) w

theorem owing_nil {w : World} : Owing [] w ↔ Sound w := by
  constructor <;> intro h ht
  · exact (h ht).mono (fun _ _ hid => nomatch hid) fun _ _ hid => nomatch hid
  · exact (h ht).mono (fun _ _ hid => hid.elim) fun _ _ hid => hid.elim

theorem due_noted {v : World} {purged scope : List ElementId} (hdue : Owing purged v)
    (ht : Told { v with
      erasures := v.erasures++[⟨none,purged,scope,[],[],v.control.pending,v.changes⟩] }) :
    Due Nothing (Covers scope) { v with
      erasures := v.erasures++[⟨none,purged,scope,[],[],v.control.pending,v.changes⟩] } := by
  have hnoted := ht ⟨none,purged,scope,[],[],v.control.pending,v.changes⟩
    (List.mem_append_right _ List.mem_cons_self)
  have hd := hdue fun e he => ht e (List.mem_append_left _ he)
  have hbegun : ∀ k, Begun v k → Begun { v with
      erasures := v.erasures++[⟨none,purged,scope,[],[],v.control.pending,v.changes⟩] } k :=
    fun k ⟨e,he,ho,hp⟩ => ⟨e,List.mem_append_left _ he,ho,hp⟩
  refine ⟨fun k c hp hl id hid => ?_,fun k c hp hl id hid => ?_,hd.excepted⟩
  · rcases hd.own k c hp hl id hid with hfirm | ⟨hk,hb⟩ | hin
    · exact .inl hfirm
    · exact .inr (.inl ⟨hk,hbegun k hb⟩)
    · exact .inl (hnoted.fenced k c hl (fun h => nomatch h) hp id hin)
  rcases hd.others k c hp hl id hid with hsealed | hscrub | ⟨k',d,hp',hl',hk,hb,hc⟩ | hin
  · exact .inl hsealed
  · exact .inr (.inl hscrub)
  · exact .inr (.inr (.inl ⟨k',d,hp',hl',hk,hbegun k' hb,hc⟩))
  · exact (hnoted.covered k c hl (fun h => nomatch h) id hin).imp_right fun hc =>
      .inr (.inr hc)

theorem scrub_erased_spec (now : ℕ) (purged : List ElementId) :
    Triple (Owing purged) (scrubErased now purged) (fun _ => Sound) Sound := by
  unfold scrubErased
  refine triple_ite (fun hnone => triple_pure fun w h => ?_) fun _ => ?_
  · rw [hnone] at h
    exact owing_nil.mp h
  refine triple_read_bind fun v => ?_
  refine triple_bind (R := fun _ w => Told w → Due Nothing (Covers (recorded w purged)) w)
    (triple_update fun w h ht => ?_) fun _ w h => ?_
  · obtain ⟨rfl,hdue⟩ := h
    exact due_noted hdue ht
  · exact triple_mono (scrub_changes_spec w now purged none) (fun _ h => h) (fun _ _ h => h.1)
      (fun _ h => h.1) w ⟨rfl,fun ht => ⟨h ht,fun k hk => nomatch hk⟩⟩

theorem note_unscrubbed (purged : List ElementId) :
    Triple (Owing purged) (noteErased purged []) (fun _ => Sound) Sound :=
  triple_update fun _ h ht => due_unrecorded (due_noted h ht)

end AndaBrain.ManagedChanges
