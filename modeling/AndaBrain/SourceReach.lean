import AndaBrain.SourceHistory

/-!
# What stays within reach of a forget

Every event keeps the store and the receipts. The trace of a conversation only shrinks when
the copy that is ahead is dropped, so an output that a forget could find stays where it looks
as long as nothing is dropped that the record left behind does not hold.
-/

set_option autoImplicit false

namespace AndaBrain.SourceForget
open Foundation Forget FormationQueue

variable {ids : ElementIds}

theorem Nexus.Keeps.refl (nexus : Nexus ids) : nexus.Keeps nexus :=
  fun _ row h => ⟨row,h,rfl,rfl,fun h => h,.inr ⟨rfl,List.Subset.refl _⟩⟩

theorem Nexus.Keeps.purged {nexus next : Nexus ids} (h : nexus.Keeps next) {id : String}
    (hp : nexus.Purged id) : next.Purged id := by
  obtain ⟨row,hrow,hs⟩ := hp
  obtain ⟨later,hl,-,-,hstay,-⟩ := h id row hrow
  exact ⟨later,hl,hstay hs⟩

theorem keyed_keeps {nexus next : Nexus ids} (h : nexus.Keeps next) {c : ℕ} {id : String}
    (hk : KeyedBy nexus c id) : KeyedBy next c id := by
  obtain ⟨row,hrow,hkind,i,hi,hkey⟩ := hk
  obtain ⟨later,hl,hsame,hclient,-,-⟩ := h id row hrow
  exact ⟨later,hl,by rw [hsame, hkind],i,hi,by rw [hclient, hkey]⟩

section
variable (s : History ids)

theorem latest_copy (c d : ℕ) (attempt : Attempt) (conversation : Conversation) (saved : Bool) :
    ((s.hold c (some attempt)).save c conversation saved).latest d =
      if d = c then attempt.latest else s.latest d := by
  by_cases hd : d = c
  · subst hd
    cases saved <;> simp [History.latest, History.save, History.hold]
  · cases saved <;> simp [History.latest, History.save, History.hold, hd]

theorem latest_hold (c d : ℕ) (attempt : Attempt) :
    (s.hold c (some attempt)).latest d = if d = c then attempt.latest else s.latest d :=
  latest_copy s c d attempt attempt.conversation false

theorem latest_attempt (c : ℕ) (attempt : Attempt) (h : s.attempts c = some attempt) :
    s.latest c = attempt.latest := by
  simp [History.latest, h]

theorem latest_stored (c : ℕ) (h : s.attempts c = none) : s.latest c = s.stored c := by
  simp [History.latest, h, History.stored]

end

structure Carries (source : String) (s next : History ids) : Prop where
  keeps : s.nexus.Keeps next.nexus
  receipts : ∀ ref record, s.receipts.lookup ref = some record → record.sourceRef = some source →
    ∃ later, next.receipts.lookup ref = some later ∧ later.sourceRef = some source ∧
      (∀ c, record.conversation = some c → later.conversation = some c) ∧
      ∀ refs, record.memoryRefs = some refs → later.memoryRefs = some refs
  evidence : ∀ c, s.origin c = some source → ∀ id ∈ (s.latest c).evidence,
    id ∈ (next.latest c).evidence ∨ KeyedBy next.nexus c id
  formed : ∀ c, s.origin c = some source → ∀ id ∈ s.made c, ∀ row, next.nexus.load id = some row →
    row.state ≠ .purged → row.narrative = true → Held (s.latest c).formed id →
    Held (next.latest c).formed id

structure Sound (source : String) (s : History ids) : Prop where
  outputs : ∀ c, s.origin c = some source → ∀ id ∈ s.made c,
    Named s source c ∧ Answered s source c id
  captured : ∀ ref record, s.receipts.lookup ref = some record → record.sourceRef = some source →
    ∀ id ∈ s.captured ref, Found s source id
  named : ∀ c, Named s source c → s.origin c = some source
  begun : ∀ c, s.conversations c = none → s.origin c = none
  settled : ∀ c conversation attempt, s.conversations c = some conversation →
    conversation.status = .completed → s.attempts c = some attempt →
    attempt.live = none ∧ attempt.conversation = conversation

section
variable {source : String} {s next : History ids}

theorem named_carries (h : Carries source s next) {c : ℕ} (hn : Named s source c) :
    Named next source c := by
  obtain ⟨ref,record,hr,hs,hc⟩ := hn
  obtain ⟨later,hl,hsource,hconversation,-⟩ := h.receipts ref record hr hs
  exact ⟨ref,later,hl,hsource,hconversation c hc⟩

theorem found_carries (h : Carries source s next)
    (hnamed : ∀ c, Named s source c → s.origin c = some source) {id : String}
    (hf : Found s source id) : Found next source id := by
  rcases hf with ⟨c,hn,hid⟩ | ⟨ref,record,refs,hr,hs,hrefs,hin,htext⟩
  · left
    refine ⟨c,named_carries h hn,?_⟩
    rcases hid with hkeyed | htrace
    · exact .inl (keyed_keeps h.keeps hkeyed)
    · exact (h.evidence c (hnamed c hn) id htrace).symm
  · right
    obtain ⟨later,hl,hsource,-,hmemory⟩ := h.receipts ref record hr hs
    exact ⟨ref,later,refs,hl,hsource,hmemory refs hrefs,hin,htext⟩

theorem answered_carries (h : Carries source s next)
    (hnamed : ∀ c, Named s source c → s.origin c = some source) {c : ℕ}
    (hc : s.origin c = some source) {id : String} (hin : id ∈ s.made c)
    (ha : Answered s source c id) : Answered next source c id := by
  obtain ⟨row,hrow,hcase⟩ := ha
  obtain ⟨later,hl,hkind,-,hpurged,hlater⟩ := h.keeps id row hrow
  refine ⟨later,hl,?_⟩
  by_cases hp : later.state = .purged
  · exact .inl hp
  right
  have hreached : Reached s source c id row :=
    hcase.resolve_left fun hs => hp (hpurged hs)
  obtain ⟨hschema,hcites⟩ := hlater.resolve_left hp
  constructor
  · intro he
    exact found_carries h hnamed (hreached.evidence (by rw [← hkind, he]))
  · intro hn
    have hsame : row.narrative = true := by
      rw [← hn]
      simp [ElementRow.narrative, hkind, hschema]
    exact h.formed c hc id hin later hl hp hn (hreached.narrative hsame)
  · intro ha
    obtain ⟨evidence,he,hf⟩ := hreached.assertion (by rw [← hkind, ha])
    exact ⟨evidence,hcites he,found_carries h hnamed hf⟩

theorem carries_same (hn : next.nexus = s.nexus) (hr : next.receipts = s.receipts)
    (ht : ∀ c, s.origin c = some source → (s.latest c).evidence ⊆ (next.latest c).evidence ∧
      ∀ id, Held (s.latest c).formed id → Held (next.latest c).formed id) :
    Carries source s next := by
  constructor
  · rw [hn]
    exact Nexus.Keeps.refl _
  · intro ref record h hs
    exact ⟨record,by rw [hr, h],hs,fun _ h => h,fun _ h => h⟩
  · intro c hc id hid
    exact .inl ((ht c hc).1 hid)
  · intro c hc id _ _ _ _ _ hheld
    exact (ht c hc).2 id hheld

theorem carries_extends (hn : s.nexus.Keeps next.nexus) (hr : next.receipts = s.receipts)
    (ht : ∀ c, s.origin c = some source → Extends (s.latest c) (next.latest c)) :
    Carries source s next := by
  constructor
  · exact hn
  · intro ref record h hs
    exact ⟨record,by rw [hr, h],hs,fun _ h => h,fun _ h => h⟩
  · intro c hc id hid
    exact .inl ((ht c hc).evidence.subset hid)
  · intro c hc id _ _ _ _ _ hheld
    exact held_extends id (ht c hc).formed hheld

theorem carries_covers (hn : next.nexus = s.nexus) (hr : next.receipts = s.receipts)
    (ht : ∀ c, s.origin c = some source → next.latest c = s.latest c ∨ Covers s c (next.latest c)) :
    Carries source s next := by
  constructor
  · rw [hn]
    exact Nexus.Keeps.refl _
  · intro ref record h hs
    exact ⟨record,by rw [hr, h],hs,fun _ h => h,fun _ h => h⟩
  · intro c hc id hid
    rw [hn]
    rcases ht c hc with hsame | hcovers
    · exact .inl (by rw [hsame]; exact hid)
    · exact hcovers.1 id hid
  intro c hc id hin row hrow hp hnarrative hheld
  rcases ht c hc with hsame | hcovers
  · rw [hsame]
    exact hheld
  · rw [hn] at hrow
    exact hcovers.2 id hin row hrow hp hnarrative

theorem sound_carries (hs : Sound source s) (h : Carries source s next)
    (horigin : ∀ c, next.origin c = some source → next.made c ≠ [] → s.origin c = some source)
    (hmade : next.made = s.made) (hcaptured : ∀ ref record, next.receipts.lookup ref = some record →
      record.sourceRef = some source → ∀ id ∈ next.captured ref, id ∈ s.captured ref ∧
        ∃ old, s.receipts.lookup ref = some old ∧ old.sourceRef = some source)
    (hnamed : ∀ c, Named next source c → next.origin c = some source)
    (hbegun : ∀ c, next.conversations c = none → next.origin c = none)
    (hsettled : ∀ c conversation attempt, next.conversations c = some conversation →
      conversation.status = .completed → next.attempts c = some attempt →
      attempt.live = none ∧ attempt.conversation = conversation) : Sound source next := by
  refine ⟨?_,?_,hnamed,hbegun,hsettled⟩
  · intro c hc id hin
    have hold := horigin c hc (List.ne_nil_of_mem hin)
    rw [hmade] at hin
    obtain ⟨hname,hanswered⟩ := hs.outputs c hold id hin
    exact ⟨named_carries h hname,answered_carries h hs.named hold hin hanswered⟩
  · intro ref record hr hsource id hin
    obtain ⟨hin,old,hr,hsource⟩ := hcaptured ref record hr hsource id hin
    exact found_carries h hs.named (hs.captured ref old hr hsource id hin)

def Unsettled (s : History ids) (c : ℕ) : Prop :=
  ∃ attempt, s.attempts c = some attempt ∧
    (attempt.live ≠ none ∨ attempt.conversation.status ≠ .completed)

theorem sound_copy (hs : Sound source s) (c : ℕ) (attempt : Attempt) (saved : Bool)
    (hopen : Unsettled s c)
    (hdone : attempt.conversation.status = .completed → saved = true → attempt.live = none)
    (h : Carries source s ((s.hold c (some attempt)).save c attempt.conversation saved)) : Sound
    source ((s.hold c (some attempt)).save c attempt.conversation saved) := by
  obtain ⟨old,hold,hunsettled⟩ := hopen
  have hclosed : ∀ stored, s.conversations c = some stored → stored.status ≠ .completed := by
    intro stored hstored hcompleted
    obtain ⟨hlive,hsame⟩ := hs.settled c stored old hstored hcompleted hold
    rcases hunsettled with hl | hst
    · exact hl hlive
    · exact hst (by rw [hsame, hcompleted])
  have hreceipts : ((s.hold c (some attempt)).save c attempt.conversation saved).receipts =
      s.receipts := by cases saved <;> rfl
  have horigin : ((s.hold c (some attempt)).save c attempt.conversation saved).origin =
      s.origin := by cases saved <;> rfl
  have hcaptured : ((s.hold c (some attempt)).save c attempt.conversation saved).captured =
      s.captured := by cases saved <;> rfl
  apply sound_carries hs h
  · intro d hd _
    rwa [horigin] at hd
  · cases saved <;> rfl
  · intro ref record hr hsource id hin
    rw [hreceipts] at hr
    rw [hcaptured] at hin
    exact ⟨hin,record,hr,hsource⟩
  · intro d hn
    rw [horigin]
    apply hs.named d
    simpa only [Named, hreceipts] using hn
  · intro d hnone
    rw [horigin]
    apply hs.begun d
    by_cases hd : d = c
    · subst hd
      cases saved
      · exact hnone
      · simp [History.save, History.hold] at hnone
    · cases saved
      · exact hnone
      · simpa [History.save, History.hold, hd] using hnone
  intro d conversation held hconversation hcompleted hheld
  by_cases hd : d = c
  · subst hd
    cases saved
    · exact absurd hcompleted (hclosed conversation hconversation)
    simp only [History.save, History.hold, if_true, Function.update_self,
      Option.some.injEq] at hconversation hheld
    subst hconversation
    subst hheld
    exact ⟨hdone hcompleted rfl,rfl⟩
  · apply hs.settled d conversation held
    · cases saved
      · exact hconversation
      · simpa [History.save, History.hold, hd] using hconversation
    · exact hcompleted
    · cases saved <;> simpa [History.save, History.hold, hd] using hheld

theorem copied_attempt (c : ℕ) (attempt : Attempt) (h : s.attempts c = some attempt) :
    s.copied c = attempt.conversation.trace := by
  simp [History.copied, h]

theorem not_completed (status : ConversationStatus) (h : status.terminal = false) :
    status ≠ .completed := by
  intro hc
  rw [hc] at h
  exact absurd h (by decide)

theorem carries_copy (c : ℕ) (attempt next : Attempt) (saved : Bool)
    (h : s.attempts c = some attempt) (ht : Extends attempt.latest next.latest) :
    Carries source s ((s.hold c (some next)).save c next.conversation saved) := by
  apply carries_extends
  · cases saved <;> exact Nexus.Keeps.refl _
  · cases saved <;> rfl
  intro d _
  rw [latest_copy]
  by_cases hd : d = c
  · subst hd
    rw [if_pos rfl, latest_attempt s d attempt h]
    exact ht
  · rw [if_neg hd]
    exact Extends.refl _

theorem carries_dropped (c : ℕ) (next : Attempt) (saved : Bool)
    (h : s.origin c = some source → Covers s c next.latest) :
    Carries source s ((s.hold c (some next)).save c next.conversation saved) := by
  apply carries_covers
  · cases saved <;> rfl
  · cases saved <;> rfl
  intro d hd
  rw [latest_copy]
  by_cases heq : d = c
  · subst heq
    rw [if_pos rfl]
    exact .inr (h hd)
  · rw [if_neg heq]
    exact .inl rfl

theorem put_named (ref : String) (record : IntakeRecord) (c : ℕ)
    (hn : Named (s.putReceipt ref record) source c) :
    Named s source c ∨ record.sourceRef = some source ∧ record.conversation = some c := by
  obtain ⟨other,found,hr,hsource,hconversation⟩ := hn
  simp only [History.putReceipt, SortedMap.lookup_insert] at hr
  by_cases heq : other = ref
  · rw [if_pos heq] at hr
    cases hr
    exact .inr ⟨hsource,hconversation⟩
  · rw [if_neg heq] at hr
    exact .inl ⟨other,found,hr,hsource,hconversation⟩

theorem carries_put (ref : String) (record : IntakeRecord)
    (h : ∀ old, s.receipts.lookup ref = some old → record.sourceRef = old.sourceRef ∧
      (∀ c, old.conversation = some c → record.conversation = some c) ∧
      ∀ refs, old.memoryRefs = some refs → record.memoryRefs = some refs) :
    Carries source s (s.putReceipt ref record) := by
  refine ⟨Nexus.Keeps.refl _,?_,fun c _ id hid => .inl hid,fun c _ id _ _ _ _ _ h => h⟩
  intro other found hr hsource
  simp only [History.putReceipt, SortedMap.lookup_insert]
  by_cases heq : other = ref
  · subst heq
    obtain ⟨hsame,hconversation,hrefs⟩ := h found hr
    exact ⟨record,by simp,by rw [hsame, hsource],hconversation,hrefs⟩
  · exact ⟨found,by rw [if_neg heq, hr],hsource,fun _ h => h,fun _ h => h⟩

theorem sound_put (hs : Sound source s) (ref : String) (record : IntakeRecord)
    (h : ∀ old, s.receipts.lookup ref = some old → record.sourceRef = old.sourceRef ∧
      (∀ c, old.conversation = some c → record.conversation = some c) ∧
      ∀ refs, old.memoryRefs = some refs → record.memoryRefs = some refs)
    (hnew : s.receipts.lookup ref = none → s.captured ref = [])
    (hname : record.sourceRef = some source → ∀ c, record.conversation = some c →
      s.origin c = some source) : Sound source (s.putReceipt ref record) := by
  apply sound_carries hs (carries_put ref record h)
  · exact fun c hc _ => hc
  · rfl
  · intro other found hr hsource id hin
    refine ⟨hin,?_⟩
    simp only [History.putReceipt, SortedMap.lookup_insert] at hr hin
    by_cases heq : other = ref
    · subst heq
      rw [if_pos rfl] at hr
      cases hr
      cases hold : s.receipts.lookup other with
      | none =>
        rw [hnew hold] at hin
        simp at hin
      | some old => exact ⟨old,rfl,by rw [← (h old hold).1, hsource]⟩
    · rw [if_neg heq] at hr
      exact ⟨found,hr,hsource⟩
  · intro c hn
    rcases put_named ref record c hn with hn | ⟨hsource,hc⟩
    · exact hs.named c hn
    · exact hname hsource c hc
  · exact hs.begun
  · exact hs.settled

theorem sound_queue (hs : Sound source s) (ref : String) (c : ℕ)
    (hp : Possible s (.queue ref c)) : Sound source (s.step (.queue ref c)) := by
  obtain ⟨hnone,hattempt,hmade,-⟩ := hp
  have horigin : s.origin c = none := hs.begun c hnone
  have hother : ∀ d, s.origin d = some source → d ≠ c := by
    intro d hd heq
    rw [heq, horigin] at hd
    cases hd
  have hlatest : ∀ d, d ≠ c → (s.step (.queue ref c)).latest d = s.latest d := by
    intro d hd
    simp [History.step, History.latest, hd]
  have hc : Carries source s (s.step (.queue ref c)) := by
    apply carries_same (by rfl) (by rfl)
    intro d hd
    rw [hlatest d (hother d hd)]
    exact ⟨List.Subset.refl _,fun _ h => h⟩
  apply sound_carries hs hc
  · intro d hd hne
    by_cases heq : d = c
    · subst heq
      exact absurd hmade hne
    · simpa [History.step, heq] using hd
  · rfl
  · exact fun other record hr hsource id hin => ⟨hin,record,hr,hsource⟩
  · intro d hn
    have hd := hs.named d hn
    simpa [History.step, hother d hd] using hd
  · intro d hd
    by_cases heq : d = c
    · subst heq
      simp [History.step] at hd
    · simpa [History.step, heq] using hs.begun d (by simpa [History.step, heq] using hd)
  intro d conversation attempt hconversation hcompleted hheld
  by_cases heq : d = c
  · subst heq
    exact absurd hheld (by simp [History.step, hattempt])
  · exact hs.settled d conversation attempt
      (by simpa [History.step, heq] using hconversation) hcompleted hheld

theorem sound_load (hs : Sound source s) (c : ℕ) (hp : Possible s (.load c)) :
    Sound source (s.step (.load c)) := by
  obtain ⟨hattempt,conversation,hconversation,hopen⟩ := hp
  have hstep : s.step (.load c) = s.hold c (some ⟨conversation,none⟩) := by
    simp [History.step, hconversation]
  rw [hstep]
  have hc : Carries source s (s.hold c (some ⟨conversation,none⟩)) := by
    apply carries_same (by rfl) (by rfl)
    intro d _
    rw [latest_hold]
    by_cases heq : d = c
    · subst heq
      rw [if_pos rfl, latest_stored s d hattempt]
      simp [History.stored, hconversation, Attempt.latest]
    · rw [if_neg heq]
      exact ⟨List.Subset.refl _,fun _ h => h⟩
  apply sound_carries hs hc
  · exact fun d hd _ => hd
  · rfl
  · exact fun other record hr hsource id hin => ⟨hin,record,hr,hsource⟩
  · exact hs.named
  · exact hs.begun
  intro d stored attempt hstored hcompleted hheld
  by_cases heq : d = c
  · subst heq
    obtain rfl : conversation = stored := Option.some.inj (hconversation.symm.trans hstored)
    exact absurd hcompleted (not_completed _ hopen)
  · exact hs.settled d stored attempt hstored hcompleted
      (by simpa [History.hold, heq] using hheld)

theorem sound_dropped (hs : Sound source s) (attempts : ℕ → Option Attempt)
    (hsub : ∀ c, attempts c = none ∨ attempts c = s.attempts c)
    (h : ∀ c, s.origin c = some source → attempts c = none → s.attempts c ≠ none →
      Covers s c (s.stored c)) : Sound source { s with attempts } := by
  have hc : Carries source s { s with attempts } := by
    apply carries_covers (by rfl) (by rfl)
    intro c hc
    rcases hsub c with hnone | hsame
    · have hlatest : History.latest { s with attempts } c = s.stored c := by
        simp [History.latest, hnone, History.stored]
      rw [hlatest]
      by_cases hheld : s.attempts c = none
      · exact .inl (latest_stored s c hheld).symm
      · exact .inr (h c hc hnone hheld)
    · left
      simp [History.latest, hsame]
  apply sound_carries hs hc
  · exact fun d hd _ => hd
  · rfl
  · exact fun other record hr hsource id hin => ⟨hin,record,hr,hsource⟩
  · exact hs.named
  · exact hs.begun
  intro c conversation attempt hconversation hcompleted hheld
  change attempts c = some attempt at hheld
  rcases hsub c with hnone | hsame
  · rw [hnone] at hheld
    cases hheld
  · rw [hsame] at hheld
    exact hs.settled c conversation attempt hconversation hcompleted hheld

theorem sound_evolve (hs : Sound source s) (nexus : Nexus ids) (hk : s.nexus.Keeps nexus) :
    Sound source { s with nexus } := by
  have hc : Carries source s { s with nexus } :=
    carries_extends hk rfl fun c _ => Extends.refl _
  exact sound_carries hs hc (fun c hc _ => hc) rfl
    (fun ref record hr hsource id hin => ⟨hin,record,hr,hsource⟩) hs.named hs.begun hs.settled

theorem answered_frame (hn : next.nexus = s.nexus) (hr : next.receipts = s.receipts)
    (hl : next.latest = s.latest) {c : ℕ} {id : String} (h : Answered s source c id) :
    Answered next source c id := by
  have hfound : ∀ e, Found s source e → Found next source e := by
    intro e he
    simpa only [Found, Named, hn, hr, hl] using he
  obtain ⟨row,hrow,hcase⟩ := h
  refine ⟨row,by rw [hn, hrow],hcase.imp_right fun hreached => ⟨?_,?_,?_⟩⟩
  · exact fun he => hfound id (hreached.evidence he)
  · rw [hl]
    exact hreached.narrative
  · intro ha
    obtain ⟨e,he,hf⟩ := hreached.assertion ha
    exact ⟨e,he,hfound e hf⟩

theorem sound_made (hs : Sound source s) (c : ℕ) (created : List String)
    (h : s.origin c = some source → ∀ id ∈ created, Named s source c ∧ Answered s source c id) :
    Sound source { s with made := Function.update s.made c (s.made c++created) } := by
  refine ⟨?_,hs.captured,hs.named,hs.begun,hs.settled⟩
  intro d hd id hin
  by_cases heq : d = c
  · subst heq
    simp only [Function.update_self, List.mem_append] at hin
    rcases hin with hin | hin
    · obtain ⟨hnamed,ha⟩ := hs.outputs d hd id hin
      exact ⟨hnamed,answered_frame (by rfl) (by rfl) (by rfl) ha⟩
    · obtain ⟨hnamed,ha⟩ := h hd id hin
      exact ⟨hnamed,answered_frame (by rfl) (by rfl) (by rfl) ha⟩
  · simp only [Function.update_of_ne heq] at hin
    obtain ⟨hnamed,ha⟩ := hs.outputs d hd id hin
    exact ⟨hnamed,answered_frame (by rfl) (by rfl) (by rfl) ha⟩

theorem sound_captured (hs : Sound source s) (ref : String) (created : List String)
    (h : ∀ record, s.receipts.lookup ref = some record → record.sourceRef = some source →
      ∀ id ∈ created, Found s source id) :
    Sound source { s with captured := Function.update s.captured ref (s.captured ref++created) } := by
  refine ⟨?_,?_,hs.named,hs.begun,hs.settled⟩
  · intro c hc id hin
    obtain ⟨hnamed,ha⟩ := hs.outputs c hc id hin
    exact ⟨hnamed,answered_frame (by rfl) (by rfl) (by rfl) ha⟩
  intro other record hr hsource id hin
  by_cases heq : other = ref
  · subst heq
    simp only [Function.update_self, List.mem_append] at hin
    rcases hin with hin | hin
    · exact hs.captured other record hr hsource id hin
    · exact h record hr hsource id hin
  · simp only [Function.update_of_ne heq] at hin
    exact hs.captured other record hr hsource id hin

theorem sound_capture (hs : Sound source s) (ref : String) (created : List String)
    (nexus : Nexus ids) (finished : Bool) (hp : Possible s (.capture ref created nexus finished))
    (hm : Accounted source s (.capture ref created nexus finished)) :
    Sound source (s.step (.capture ref created nexus finished)) := by
  obtain ⟨hk,⟨record,hr,hopen⟩,hrows⟩ := hp
  have hs := sound_evolve hs nexus hk
  cases finished with
  | false =>
    have hstep : s.step (.capture ref created nexus false) = { s with
        nexus, captured := Function.update s.captured ref (s.captured ref++created) } := rfl
    rw [hstep]
    apply sound_captured hs ref created
    intro found hf hsource id hin
    rcases hm found hf hsource with h | h
    · cases h
    · rw [h] at hin
      simp at hin
  | true =>
    let put := History.putReceipt { s with nexus } ref { record with memoryRefs := some created }
    have hput : Sound source put := by
      apply sound_put hs
      · intro old hold
        obtain rfl : record = old := Option.some.inj (hr.symm.trans hold)
        exact ⟨rfl,fun _ h => h,fun refs h => absurd h (by simp [hopen])⟩
      · intro hnone
        change s.receipts.lookup ref = none at hnone
        rw [hr] at hnone
        cases hnone
      · intro hsource c hc
        exact hs.named c ⟨ref,record,hr,hsource,hc⟩
    have hstep : s.step (.capture ref created nexus true) = { put with
        captured := Function.update put.captured ref (put.captured ref++created) } := by
      simp only [History.step, hr]
      rfl
    rw [hstep]
    apply sound_captured hput ref created
    intro found hf hsource id hin
    right
    have hlookup : put.receipts.lookup ref = some { record with memoryRefs := some created } := by
      simp [put, History.putReceipt, SortedMap.lookup_insert]
    obtain rfl := Option.some.inj (hlookup.symm.trans hf)
    obtain ⟨row,hrow,hkind⟩ := hrows id hin
    have hparse := nexus.parsed id row hrow
    rw [hkind] at hparse
    exact ⟨ref,_,created,hlookup,hsource,rfl,hin,ids.evidence id hparse⟩

theorem write_latest (c : ℕ) (revisions : ℕ) (reply : Option Response) (created : List String)
    (nexus : Nexus ids) {attempt : Attempt} {live : TraceData} (ha : s.attempts c = some attempt)
    (hl : attempt.live = some live) : s.latest c = live ∧
    (s.step (.write c revisions reply created nexus)).latest c =
      reply.elim live fun response => live.record revisions response := by
  simp [History.step, History.latest, History.hold, ha, hl, Attempt.latest]

theorem write_carries (c : ℕ) (revisions : ℕ) (reply : Option Response) (created : List String)
    (nexus : Nexus ids) (hp : Possible s (.write c revisions reply created nexus)) :
    Carries source s (s.step (.write c revisions reply created nexus)) := by
  obtain ⟨hk,⟨attempt,live,ha,hl⟩,-,-⟩ := hp
  apply carries_extends hk (by rfl)
  intro d _
  by_cases heq : d = c
  · subst heq
    obtain ⟨hbefore,hafter⟩ := write_latest d revisions reply created nexus ha hl
    rw [hbefore, hafter]
    cases reply with
    | none => exact Extends.refl live
    | some response => exact record_extends live revisions response
  · simp [History.step, History.latest, History.hold, heq, Extends.refl]

/-- What a write made is reached: its Evidence and claims by the condition on the write, its
narrative memory because the reply is folded into the trace. -/
theorem written_answered (hs : Sound source s) (c : ℕ) (revisions : ℕ) (reply : Option Response)
    (created : List String) (nexus : Nexus ids)
    (hp : Possible s (.write c revisions reply created nexus))
    (hm : Accounted source s (.write c revisions reply created nexus))
    (hc : s.origin c = some source) (id : String) (hin : id ∈ created) : Named s source c ∧ Answered
    (s.step (.write c revisions reply created nexus)) source c id := by
  have hcarries : Carries source s _ := write_carries c revisions reply created nexus hp
  obtain ⟨hk,⟨attempt,live,ha,hl⟩,hrows,hreports⟩ := hp
  obtain ⟨hnamed,hcreated⟩ := hm hc (List.ne_nil_of_mem hin)
  obtain ⟨hbefore,hafter⟩ := write_latest c revisions reply created nexus ha hl
  have hnoted : ∀ e, KeyedBy nexus c e ∨ Noted s c reply e →
      Found (s.step (.write c revisions reply created nexus)) source e := by
    intro e he
    refine .inl ⟨c,hnamed,he.imp_right ?_⟩
    rintro ⟨response,rfl,hin,hroom⟩
    rw [hafter]
    rw [hbefore] at hroom
    exact record_evidence live revisions response (hreports response rfl).1 hroom hin
  refine ⟨hnamed,?_⟩
  obtain ⟨row,hrow⟩ := Option.isSome_iff_exists.mp (hrows id hin)
  obtain ⟨hevidence,hnarrative,hassertion⟩ := hcreated id hin row hrow
  refine ⟨row,hrow,.inr ⟨fun he => hnoted id (hevidence he),fun hn => ?_,fun hclaim => ?_⟩⟩
  · obtain ⟨response,rfl⟩ := Option.isSome_iff_exists.mp (hnarrative hn)
    obtain ⟨hseqs,hreported⟩ := hreports response rfl
    obtain ⟨result,hresult,hsucceeded,hchange⟩ := hreported id hin row hrow
    have hkind : kindText row.kind ≠ "evidence" := by
      have : row.kind = .concept := by
        simp only [ElementRow.narrative, Bool.and_eq_true, decide_eq_true_eq] at hn
        exact hn.1
      rw [this]
      decide
    rw [hafter]
    exact record_formed live revisions response result id _ hseqs hresult hsucceeded hchange hkind
  · obtain ⟨e,he,hf⟩ := hassertion hclaim
    exact ⟨e,he,hf.elim (found_carries hcarries hs.named) (hnoted e)⟩

theorem sound_write (hs : Sound source s) (c : ℕ) (revisions : ℕ) (reply : Option Response)
    (created : List String) (nexus : Nexus ids)
    (hp : Possible s (.write c revisions reply created nexus))
    (hm : Accounted source s (.write c revisions reply created nexus)) :
    Sound source (s.step (.write c revisions reply created nexus)) := by
  have hanswered := written_answered hs c revisions reply created nexus hp hm
  obtain ⟨hk,⟨⟨conversation,open'⟩,live,ha,rfl⟩,-,-⟩ := hp
  have hs := sound_evolve hs nexus hk
  let noted : TraceData := reply.elim live fun response => live.record revisions response
  have hextends : Extends live noted := by
    cases reply with
    | none => exact Extends.refl live
    | some response => exact record_extends live revisions response
  have hcopy : Sound source (History.hold { s with nexus } c (some ⟨conversation,some noted⟩)) := by
    apply sound_copy hs c ⟨conversation,some noted⟩ false
    · exact ⟨⟨conversation,some live⟩,ha,.inl (by simp)⟩
    · intro _ h
      cases h
    · exact carries_copy c ⟨conversation,some live⟩ ⟨conversation,some noted⟩ false ha hextends
  have hstep : s.step (.write c revisions reply created nexus) =
      { History.hold { s with nexus } c (some ⟨conversation,some noted⟩) with
        made := Function.update s.made c (s.made c++created) } := by
    simp only [History.step, ha, Option.map_some]
    rfl
  rw [hstep] at hanswered ⊢
  apply sound_made hcopy c created
  intro hc id hin
  obtain ⟨hnamed,ha⟩ := hanswered hc id hin
  exact ⟨hnamed,answered_frame (by rfl) (by rfl) (by rfl) ha⟩

theorem sound_step (hs : Sound source s) (event : Event ids) (hp : Possible s event)
    (hm : Accounted source s event) : Sound source (s.step event) := by
  cases event with
  | accept ref accepted =>
    obtain ⟨hnew,hnone⟩ := hp
    apply sound_put hs
    · intro old hold
      rw [hnew] at hold
      cases hold
    · exact fun _ => hnone
    · intro _ c hc
      cases hc
  | queue ref c => exact sound_queue hs ref c hp
  | name ref c =>
    obtain ⟨record,hr,hunnamed,horigin⟩ := hp
    have hstep : s.step (.name ref c) = s.putReceipt ref { record with conversation := some c } := by
      simp [History.step, hr]
    rw [hstep]
    apply sound_put hs
    · intro old hold
      obtain rfl : record = old := Option.some.inj (hr.symm.trans hold)
      exact ⟨rfl,fun d hd => absurd hd (by simp [hunnamed]),fun _ h => h⟩
    · intro hnone
      rw [hr] at hnone
      cases hnone
    intro hsource d hd
    obtain rfl : c = d := Option.some.inj hd
    rw [horigin]
    exact hsource
  | capture ref created nexus finished => exact sound_capture hs ref created nexus finished hp hm
  | settle ref repair =>
    simp only [History.step]
    cases hr : s.receipts.lookup ref with
    | none => exact hs
    | some record =>
      simp only
      split
      · rename_i conversation hconversation hopen
        split
        · apply sound_put hs
          · intro old hold
            obtain rfl : record = old := Option.some.inj (hr.symm.trans hold)
            exact ⟨rfl,fun _ h => h,fun refs h => absurd h (by simp [hopen])⟩
          · intro hnone
            rw [hr] at hnone
            cases hnone
          · intro hsource c hc
            exact hs.named c ⟨ref,record,hr,hsource,hc⟩
        · exact hs
      · exact hs
  | load c => exact sound_load hs c hp
  | mark c status saved =>
    obtain ⟨hstatus,attempt,ha,hlive,hopen⟩ := hp
    have hstep : s.step (.mark c status saved) =
        (s.hold c (some ⟨{ attempt.conversation with status },attempt.live⟩)).save c
          { attempt.conversation with status } saved := by
      simp [History.step, ha]
    rw [hstep]
    apply sound_copy hs c ⟨{ attempt.conversation with status },attempt.live⟩ saved
    · exact ⟨attempt,ha,.inr (not_completed _ hopen)⟩
    · exact fun h => absurd h hstatus
    · apply carries_copy c attempt _ saved ha
      simp only [Attempt.latest, hlive, Option.getD_none]
      exact Extends.refl _
  | begin c =>
    obtain ⟨attempt,ha,hlive,hopen⟩ := hp
    have hstep : s.step (.begin c) =
        s.hold c (some ⟨attempt.conversation,some attempt.conversation.trace⟩) := by
      simp [History.step, ha]
    rw [hstep]
    apply sound_copy hs c ⟨attempt.conversation,some attempt.conversation.trace⟩ false
    · exact ⟨attempt,ha,.inr (not_completed _ hopen)⟩
    · intro _ h
      cases h
    · apply carries_copy c attempt _ false ha
      simp only [Attempt.latest, hlive, Option.getD_none, Option.getD_some]
      exact Extends.refl _
  | write c revisions reply created nexus => exact sound_write hs c revisions reply created nexus hp hm
  | turn c outcome saved =>
    obtain ⟨⟨conversation,open'⟩,live,ha,rfl⟩ := hp
    have hopen : Unsettled s c := ⟨⟨conversation,some live⟩,ha,.inl (by simp)⟩
    simp only [History.step, ha]
    cases outcome with
    | failed =>
      apply sound_copy hs c ⟨{ conversation with status := .failed },none⟩ saved hopen
      · exact fun _ _ => rfl
      apply carries_dropped
      intro hc
      have := hm hc rfl
      rwa [copied_attempt c _ ha] at this
    | working =>
      apply sound_copy hs c ⟨{ conversation.keepTrace live with status := .working },some live⟩ saved
        hopen
      · intro h
        cases h
      · exact carries_copy c ⟨conversation,some live⟩ _ saved ha (Extends.refl live)
    | done =>
      apply sound_copy hs c ⟨{ conversation.keepTrace live with status := .completed },none⟩ saved
        hopen
      · exact fun _ _ => rfl
      · exact carries_copy c ⟨conversation,some live⟩ _ saved ha (keep_trace_extends conversation live)
  | exit c failed saved =>
    obtain ⟨⟨conversation,open'⟩,live,ha,rfl⟩ := hp
    simp only [History.step, ha]
    apply sound_copy hs c
      ⟨if failed then { conversation with status := .failed } else conversation,none⟩ saved
    · exact ⟨⟨conversation,some live⟩,ha,.inl (by simp)⟩
    · exact fun _ _ => rfl
    apply carries_dropped
    intro hc
    have := hm hc
    rw [copied_attempt c _ ha] at this
    cases failed <;> exact this
  | leave c =>
    apply sound_dropped hs
    · intro d
      by_cases heq : d = c
      · exact .inl (by simp [heq])
      · exact .inr (by simp [heq])
    intro d hd hnone hheld
    by_cases heq : d = c
    · subst heq
      exact hm hd
    · simp only [Function.update_of_ne heq] at hnone
      exact absurd hnone hheld
  | crash =>
    apply sound_dropped hs
    · exact fun c => .inl rfl
    · exact fun c hc _ _ => hm c hc
  | evolve nexus => exact sound_evolve hs nexus hp

theorem sound_start (nexus : Nexus ids) : Sound source (History.start nexus) := by
  constructor
  · exact fun c _ id h => by simp [History.start] at h
  · exact fun ref record _ _ id h => by simp [History.start] at h
  · intro c ⟨ref,record,hr,_⟩
    simp [History.start] at hr
  · exact fun c _ => rfl
  · intro c conversation attempt h
    simp [History.start] at h

theorem sound_run (nexus : Nexus ids) (hrun : Run (Accounted source) (History.start nexus) s) :
    Sound source s := by
  induction hrun with
  | here => exact sound_start nexus
  | step _ event hp hm ih => exact sound_step ih event hp hm

end

end AndaBrain.SourceForget
