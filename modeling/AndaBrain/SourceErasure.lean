import AndaBrain.SourceReach
import AndaBrain.ForgetSuppression
import AndaBrain.ProductSafety

/-!
# A completed forget of a staged source

`targets_of_source` reads what a source formed off its receipts, their conversations' traces and
the client keys of the captured Evidence; claims are found as referrers of that Evidence.
-/

set_option autoImplicit false

namespace AndaBrain.SourceForget
open Foundation Foundation.SortBy Forget FormationQueue
open Product (ElementState ControlState)

variable {ids : ElementIds}

/-- The narrative Concepts among the formed references: those the pass created are the source's
own, any other one leaves the result incomplete. -/
def ownedConcepts (nexus : Nexus ids) (trace : TraceData) :
    List String → Except KipError (List String × Bool)
  | [] => .ok ([],false)
  | reference::rest =>
    match ids.parse reference with
    | .error e => .error e
    | .ok _ =>
      match ownedConcepts nexus trace rest with
      | .error e => .error e
      | .ok (owned,missing) =>
        match nexus.load reference with
        | none => .ok (owned,missing)
        | some row =>
          if row.narrative = false then .ok (owned,missing)
          else if reference ∈ trace.created then .ok (reference::owned,missing)
          else .ok (owned,true)

def capturedEvidence (nexus : Nexus ids) (c : ℕ) : List String :=
  (List.range maxIngestedMessages).filterMap fun i => nexus.findByClientKey (captureKey c (i+1))

def noTargets : SourceTargets := ⟨[],[],∅,false⟩

def joinTargets (a b : SourceTargets) : SourceTargets :=
  ⟨a.evidence++b.evidence,a.ownedConcepts++b.ownedConcepts,a.conversations ∪ b.conversations,
    a.incomplete || b.incomplete⟩

/-- What the conversation of a receipt adds. `unread` is what the store answers for a
conversation that it does not hold. -/
def conversationTargets (unread : ℕ → KipError) (s : History ids) (c : ℕ) :
    Except KipError SourceTargets :=
  match s.conversations c with
  | none => .error (unread c)
  | some conversation =>
    let trace := conversation.trace
    match ownedConcepts s.nexus trace trace.formed with
    | .error e => .error e
    | .ok (owned,missing) =>
      .ok ⟨trace.evidence++capturedEvidence s.nexus c,owned,{"formation:"++toString c},
        decide (conversation.status ≠ .completed) || decide (128 ≤ trace.formed.length) || missing⟩

def resultEvidence (record : IntakeRecord) : List String :=
  (record.memoryRefs.getD []).filter fun id => startsWithText id "E-"

def receiptTargets (unread : ℕ → KipError) (s : History ids) (record : IntakeRecord) :
    Except KipError SourceTargets :=
  match record.conversation with
  | none => .ok { noTargets with evidence := resultEvidence record }
  | some c => (conversationTargets unread s c).map fun found =>
      { found with evidence := found.evidence++resultEvidence record }

def collectTargets (unread : ℕ → KipError) (s : History ids) (source : String) :
    List (String × IntakeRecord) → Except KipError SourceTargets
  | [] => .ok noTargets
  | (_,record)::rest =>
    if record.sourceRef = some source then
      match receiptTargets unread s record with
      | .error e => .error e
      | .ok first => (collectTargets unread s source rest).map (joinTargets first)
    else collectTargets unread s source rest

def asSet (list : List String) : List String :=
  dedupAdjacent (sortBy (fun a b => decide (a ≤ b)) list)

/-- Captured Evidence and newly created narrative memory owned by this source. -/
def targetsOfSource (unread : ℕ → KipError) (s : History ids) (source : String) :
    Except KipError SourceTargets :=
  (collectTargets unread s source s.receipts.entries).map fun found =>
    { found with evidence := asSet found.evidence, ownedConcepts := asSet found.ownedConcepts }

theorem mem_as_set (list : List String) (x : String) : x ∈ asSet list ↔ x ∈ list := by
  rw [asSet, mem_dedup_adjacent, (sort_by_perm _ list).mem_iff]

theorem owned_concepts_mem (nexus : Nexus ids) (trace : TraceData) (formed owned : List String)
    (missing : Bool) (h : ownedConcepts nexus trace formed = .ok (owned,missing))
    (hcomplete : missing = false) (id : String) (hin : id ∈ formed) (row : ElementRow)
    (hrow : nexus.load id = some row) (hn : row.narrative = true) : id ∈ owned := by
  induction formed generalizing owned missing with
  | nil => simp at hin
  | cons reference rest ih =>
    unfold ownedConcepts at h
    cases hparse : ids.parse reference with
    | error e => simp [hparse] at h
    | ok kind =>
      cases hrest : ownedConcepts nexus trace rest with
      | error e => simp [hparse, hrest] at h
      | ok found =>
        obtain ⟨others,lacking⟩ := found
        simp only [hparse, hrest] at h
        rcases List.mem_cons.mp hin with rfl | hin
        · simp only [hrow, hn, Bool.true_eq_false, if_false] at h
          split at h
          · cases h
            simp
          · cases h
            cases hcomplete
        cases hload : nexus.load reference with
        | none =>
          simp only [hload] at h
          cases h
          exact ih _ _ hrest hcomplete hin
        | some found =>
          simp only [hload] at h
          split at h
          · cases h
            exact ih _ _ hrest hcomplete hin
          split at h
          · cases h
            exact List.mem_cons_of_mem _ (ih _ _ hrest hcomplete hin)
          · cases h
            cases hcomplete

theorem captured_mem (nexus : Nexus ids) (c : ℕ) (id : String) (h : KeyedBy nexus c id) :
    id ∈ capturedEvidence nexus c := by
  obtain ⟨row,hrow,hkind,i,hi,hkey⟩ := h
  apply List.mem_filterMap.mpr
  exact ⟨i,List.mem_range.mpr hi,nexus.keyed id row _ hrow hkind hkey⟩

structure Collected (s : History ids) (c : ℕ) (found : SourceTargets) : Prop where
  evidence : ∀ id, KeyedBy s.nexus c id ∨ id ∈ (s.stored c).evidence → id ∈ found.evidence
  completed : ∃ conversation, s.conversations c = some conversation ∧
    conversation.status = .completed
  owned : ∀ id row, s.nexus.load id = some row → row.narrative = true →
    Held (s.stored c).formed id → id ∈ found.ownedConcepts

theorem conversation_collected (unread : ℕ → KipError) (s : History ids) (c : ℕ)
    (found : SourceTargets) (h : conversationTargets unread s c = .ok found)
    (hcomplete : found.incomplete = false) : Collected s c found := by
  unfold conversationTargets at h
  cases hc : s.conversations c with
  | none => simp [hc] at h
  | some conversation =>
    simp only [hc] at h
    cases ho : ownedConcepts s.nexus conversation.trace conversation.trace.formed with
    | error e => simp [ho] at h
    | ok result =>
      obtain ⟨owned,missing⟩ := result
      simp only [ho] at h
      cases h
      simp only [Bool.or_eq_false_iff, decide_eq_false_iff_not, not_not, not_le] at hcomplete
      obtain ⟨⟨hstatus,hroom⟩,hmissing⟩ := hcomplete
      have hstored : s.stored c = conversation.trace := by simp [History.stored, hc]
      refine ⟨?_,⟨conversation,hc,hstatus⟩,?_⟩
      · intro id hid
        rw [hstored] at hid
        rcases hid with hkeyed | htrace
        · exact List.mem_append_right _ (captured_mem s.nexus c id hkeyed)
        · exact List.mem_append_left _ htrace
      intro id row hrow hn hheld
      rw [hstored] at hheld
      have hin : id ∈ conversation.trace.formed := by
        rcases hheld with hin | hfull
        · exact hin
        · unfold maxTraceRefs at hfull
          omega
      exact owned_concepts_mem s.nexus _ _ owned missing ho hmissing id hin row hrow hn

theorem collect_receipt (unread : ℕ → KipError) (s : History ids) (source : String)
    (entries : List (String × IntakeRecord)) (found : SourceTargets)
    (h : collectTargets unread s source entries = .ok found) (ref : String) (record : IntakeRecord)
    (hin : (ref,record) ∈ entries) (hsource : record.sourceRef = some source) : ∃ own,
    receiptTargets unread s record = .ok own ∧ own.evidence ⊆ found.evidence ∧ own.ownedConcepts ⊆
    found.ownedConcepts ∧ (found.incomplete = false → own.incomplete = false) := by
  induction entries generalizing found with
  | nil => simp at hin
  | cons entry rest ih =>
    obtain ⟨other,first⟩ := entry
    unfold collectTargets at h
    by_cases hfirst : first.sourceRef = some source
    · rw [if_pos hfirst] at h
      cases hown : receiptTargets unread s first with
      | error e => simp [hown] at h
      | ok own =>
        cases hrest : collectTargets unread s source rest with
        | error e => simp [hown, hrest, Except.map] at h
        | ok others =>
          simp only [hown, hrest, Except.map] at h
          cases h
          rcases List.mem_cons.mp hin with heq | hin
          · cases heq
            exact ⟨own,hown,List.subset_append_left _ _,List.subset_append_left _ _,
              fun h => (Bool.or_eq_false_iff.mp h).1⟩
          obtain ⟨mine,hmine,he,ho,hi⟩ := ih others hrest hin
          exact ⟨mine,hmine,List.subset_append_of_subset_right _ he,
            List.subset_append_of_subset_right _ ho,
            fun h => hi (Bool.or_eq_false_iff.mp h).2⟩
    · rw [if_neg hfirst] at h
      rcases List.mem_cons.mp hin with heq | hin
      · cases heq
        exact absurd hsource hfirst
      · exact ih found h hin

structure Located (s : History ids) (source : String) (found : SourceTargets) : Prop where
  evidence : ∀ id, Found s source id → id ∈ found.evidence
  owned : ∀ c id row, Named s source c → s.nexus.load id = some row → row.narrative = true →
    Held (s.latest c).formed id → id ∈ found.ownedConcepts

theorem targets_located (unread : ℕ → KipError) (s : History ids) (source : String)
    (hs : Sound source s) (found : SourceTargets) (h : targetsOfSource unread s source = .ok found)
    (hcomplete : found.incomplete = false) : Located s source found := by
  unfold targetsOfSource at h
  cases hall : collectTargets unread s source s.receipts.entries with
  | error e => simp [hall, Except.map] at h
  | ok all =>
    simp only [hall, Except.map] at h
    cases h
    have hreceipt : ∀ ref record, s.receipts.lookup ref = some record →
        record.sourceRef = some source → ∃ own, receiptTargets unread s record = .ok own ∧
          own.evidence ⊆ all.evidence ∧ own.ownedConcepts ⊆ all.ownedConcepts ∧
          own.incomplete = false := by
      intro ref record hr hsource
      obtain ⟨own,hown,he,ho,hi⟩ := collect_receipt unread s source _ all hall ref record
        ((SortedMap.lookup_iff _ _ _).mp hr) hsource
      exact ⟨own,hown,he,ho,hi hcomplete⟩
    have hconversation : ∀ c, Named s source c → ∃ own, Collected s c own ∧
        own.evidence ⊆ all.evidence ∧ own.ownedConcepts ⊆ all.ownedConcepts ∧
        s.latest c = s.stored c := by
      rintro c ⟨ref,record,hr,hsource,hc⟩
      obtain ⟨own,hown,he,ho,hi⟩ := hreceipt ref record hr hsource
      unfold receiptTargets at hown
      simp only [hc] at hown
      cases hmine : conversationTargets unread s c with
      | error e => simp [hmine, Except.map] at hown
      | ok mine =>
        simp only [hmine, Except.map] at hown
        cases hown
        have hcollected := conversation_collected unread s c mine hmine hi
        refine ⟨mine,hcollected,List.Subset.trans (List.subset_append_left _ _) he,ho,?_⟩
        obtain ⟨conversation,hstored,hcompleted⟩ := hcollected.completed
        cases ha : s.attempts c with
        | none => exact latest_stored s c ha
        | some attempt =>
          obtain ⟨hlive,hsame⟩ := hs.settled c conversation attempt hstored hcompleted ha
          rw [latest_attempt s c attempt ha]
          simp [Attempt.latest, hlive, hsame, History.stored, hstored]
    constructor
    · intro id hf
      rw [mem_as_set]
      rcases hf with ⟨c,hn,hid⟩ | ⟨ref,record,refs,hr,hsource,hrefs,hin,htext⟩
      · obtain ⟨own,hcollected,he,-,hlatest⟩ := hconversation c hn
        rw [hlatest] at hid
        exact he (hcollected.evidence id hid)
      obtain ⟨own,hown,he,-,-⟩ := hreceipt ref record hr hsource
      have hresult : id ∈ resultEvidence record := by
        simp [resultEvidence, hrefs, hin, htext]
      apply he
      unfold receiptTargets at hown
      cases hc : record.conversation with
      | none =>
        simp only [hc] at hown
        cases hown
        exact hresult
      | some c =>
        simp only [hc] at hown
        cases hmine : conversationTargets unread s c with
        | error e => simp [hmine, Except.map] at hown
        | ok mine =>
          simp only [hmine, Except.map] at hown
          cases hown
          exact List.mem_append_right _ hresult
    · intro c id row hn hrow hnarrative hheld
      rw [mem_as_set]
      obtain ⟨own,hcollected,-,ho,hlatest⟩ := hconversation c hn
      rw [hlatest] at hheld
      exact ho (hcollected.owned id row hrow hnarrative hheld)

variable (host : Host) (i : ℕ)

theorem delete_claims_done (claims : List String) (acc next : Acc)
    (w w' : World) (h : deleteClaims host i claims acc w = (.ok next,w'))
    (hdone : next.incomplete = none)
    (hreported : ∀ j claim targets sources, claims[j]? = some claim →
      (host.deletions (i+j)).result = .ok (targets,sources) → claim ∈ targets.map Prod.fst) :
    acc.incomplete = none ∧ (∀ claim ∈ claims, claim ∈ next.erasedIds) ∧
      acc.erasedIds ⊆ next.erasedIds := by
  induction claims generalizing i acc w with
  | nil =>
    cases h
    exact ⟨hdone,by simp,List.Subset.refl _⟩
  | cons claim rest ih =>
    have hlater : ∀ j other targets sources, rest[j]? = some other →
        (host.deletions (i+1+j)).result = .ok (targets,sources) → other ∈ targets.map Prod.fst := by
      intro j other targets sources hj hr
      exact hreported (j+1) other targets sources (by simpa using hj) (by rwa [show i+(j+1) = i+1+j by omega])
    rw [deleteClaims] at h
    dsimp only at h
    split at h
    · rename_i hin
      obtain ⟨hnone,hall,hsub⟩ := ih (i+1) acc w h hlater
      refine ⟨hnone,?_,hsub⟩
      intro other hother
      rcases List.mem_cons.mp hother with rfl | hother
      · exact hsub hin
      · exact hall other hother
    split at h
    · rename_i targets sources hresult
      obtain ⟨hnone,hall,hsub⟩ := ih (i+1) _ _ h hlater
      refine ⟨hnone,?_,fun x hx => hsub (List.mem_append_left _ hx)⟩
      intro other hother
      rcases List.mem_cons.mp hother with rfl | hother
      · apply hsub
        exact List.mem_append_right _
          (hreported 0 other targets sources (by simp) (by simpa using hresult))
      · exact hall other hother
    · split at h
      · split at h
        · cases h
        · obtain ⟨hnone,-,-⟩ := ih (i+1) _ _ h hlater
          cases hnone
      · cases h

theorem delete_claims_erased (claims : List String) (acc next : Acc)
    (w w' : World) (h : deleteClaims host i claims acc w = (.ok next,w')) (gone : String → Prop)
    (hacc : ∀ id ∈ acc.erasedIds, gone id)
    (hreported : ∀ j claim targets sources, claims[j]? = some claim →
      (host.deletions (i+j)).result = .ok (targets,sources) → ∀ t ∈ targets, gone t.1) :
    ∀ id ∈ next.erasedIds, gone id := by
  induction claims generalizing i acc w with
  | nil =>
    cases h
    exact hacc
  | cons claim rest ih =>
    have hlater : ∀ j other targets sources, rest[j]? = some other →
        (host.deletions (i+1+j)).result = .ok (targets,sources) → ∀ t ∈ targets, gone t.1 := by
      intro j other targets sources hj hr
      exact hreported (j+1) other targets sources (by simpa using hj) (by rwa [show i+(j+1) = i+1+j by omega])
    rw [deleteClaims] at h
    dsimp only at h
    split at h
    · exact ih (i+1) acc w h hacc hlater
    split at h
    · rename_i targets sources hresult
      apply ih (i+1) _ _ h _ hlater
      intro id hid
      rcases List.mem_append.mp hid with hid | hid
      · exact hacc id hid
      · obtain ⟨t,ht,rfl⟩ := List.mem_map.mp hid
        exact hreported 0 claim targets sources (by simp) (by simpa using hresult) t ht
    · split at h
      · split at h
        · cases h
        · exact ih (i+1) _ _ h hacc hlater
      · cases h

theorem learn_incomplete (acc : Acc) (host : Host) (id : String) (answer : Answer) :
    (acc.learn host id answer).incomplete = acc.incomplete := by
  unfold Acc.learn
  split <;> rfl

theorem erased_incomplete (acc : Acc) (owned : List String) (id : String) (purged : List String)
    (h : (acc.erased owned id purged).incomplete = none) : acc.incomplete = none := by
  unfold Acc.erased at h
  dsimp only at h
  split at h
  · cases h
  · exact h

theorem purge_direct_incomplete (owned : List String) (i : ℕ) (targets : List String)
    (acc next : Acc) (w w' : World) (h : purgeDirect host owned i targets acc w = (.ok next,w'))
    (hdone : next.incomplete = none) : acc.incomplete = none := by
  induction targets generalizing i acc w with
  | nil =>
    cases h
    exact hdone
  | cons id rest ih =>
    rw [purgeDirect] at h
    dsimp only at h
    split at h
    · cases h
    · exact ih (i+1) acc w h
    split at h
    · cases h
    split at h
    · have := erased_incomplete _ _ _ _ (ih (i+1) _ _ h)
      rwa [learn_incomplete] at this
    · split at h
      · cases h
      · cases h
    · cases h

theorem semantic_done (input : ForgetInput) (located : Forget.Located) (w w' : World)
    (next : Acc) (h : eraseSemantic host input located w = (.ok next,w'))
    (hdone : next.incomplete = none) : ∃ claims acc mid, claimsOf host input located.evidenceTargets
    = .ok claims ∧ deleteClaims host 0 claims located.acc w = (.ok acc,mid) ∧ acc.incomplete = none
    ∧ ∀ c ∈ calls host 0 (directTargets input located claims acc), (verdict host c).ends = false :=
    by
  unfold eraseSemantic at h
  cases hc : claimsOf host input located.evidenceTargets with
  | error e => simp [hc] at h
  | ok claims =>
    simp only [hc] at h
    cases hd : deleteClaims host 0 claims located.acc w with
    | mk result mid =>
      cases result with
      | error halt => simp [hd] at h
      | ok acc =>
        simp only [hd, purgeAndSave] at h
        have hpurged := purge_direct_purged host located.ownedConcepts 0
          (directTargets input located claims acc) acc mid
        cases hp : purgeDirect host located.ownedConcepts 0 (directTargets input located claims acc)
            acc mid with
        | mk result last =>
          cases result with
          | error halt => simp [hp] at h
          | ok erased =>
            simp only [hp] at h hpurged
            refine ⟨claims,acc,mid,rfl,hd,?_,?_⟩
            · apply purge_direct_incomplete host _ 0 _ acc erased mid last hp
              have hsaved : erased = next := by
                unfold saveSuppressed at h
                split at h
                · exact Except.ok.inj (congrArg Prod.fst h)
                · split at h
                  · cases h
                  · exact Except.ok.inj (congrArg Prod.fst h)
              rw [hsaved]
              exact hdone
            · intro c hin
              by_contra hends
              obtain ⟨halt,herror⟩ := hpurged.ended ⟨c,hin,by simpa using hends⟩
              cases herror

theorem erase_staged_incomplete (refs : List String) (acc next : Acc)
    (h : eraseStagedAll host refs acc = .ok next) : next.incomplete = acc.incomplete := by
  induction refs generalizing acc with
  | nil =>
    cases h
    rfl
  | cons ref rest ih =>
    unfold eraseStagedAll at h
    split at h
    · cases h
    · have hnext := ih _ h
      exact hnext

theorem scrub_incomplete (conversations : List ℕ) (acc next : Acc)
    (h : scrubConversations host conversations acc = .ok next) :
    next.incomplete = acc.incomplete := by
  induction conversations generalizing acc with
  | nil =>
    cases h
    rfl
  | cons c rest ih =>
    unfold scrubConversations at h
    cases hs : host.scrubConversation c with
    | error e => simp [hs, bind, Except.bind] at h
    | ok scrubbed =>
      simp only [hs, bind, Except.bind] at h
      have hnext := ih _ h
      exact hnext

theorem copies_incomplete (staged : Option String) (acc next : Acc)
    (h : eraseCopies host staged acc = .ok next) : next.incomplete = acc.incomplete := by
  unfold eraseCopies at h
  simp only [bind, Except.bind] at h
  split at h
  · cases h
  rename_i first hfirst
  split at h
  · cases h
  rename_i second hsecond
  have hsame : second.incomplete = acc.incomplete := by
    rw [scrub_incomplete host _ first second hsecond, erase_staged_incomplete host _ acc first hfirst]
  split at h
  · cases h
    exact hsame
  split at h
  · cases h
  · cases h
    exact hsame

theorem erase_done (receiptRef target : String) (w w' : World) (summary : String)
    (plan : ErasurePlan)
    (h : erase host receiptRef ⟨target,.semantic⟩ w = (.ok (.completed,summary,plan),w')) : ∃
    located next mid, locate host ⟨target,.semantic⟩ = .ok located ∧ eraseSemantic host
    ⟨target,.semantic⟩ located w = (.ok next,mid) ∧ next.incomplete = none := by
  have hfinish : ∀ acc status text result, status ≠ .completed →
      finishPlan host receiptRef "semantic_forgetting" acc status text ≠ .ok (.completed,result) := by
    intro acc status text result hne hfinish
    unfold finishPlan at hfinish
    simp only [bind, Except.bind] at hfinish
    split at hfinish
    · cases hfinish
    split at hfinish
    · cases hfinish
    · simp only [verifiedStatus, hne, if_false, pure, Except.pure, Except.ok.injEq,
        Prod.mk.injEq, false_and] at hfinish
  unfold erase at h
  cases hl : locate host ⟨target,.semantic⟩ with
  | error e => simp [hl] at h
  | ok located =>
    simp only [hl] at h
    cases he : eraseSemantic host ⟨target,.semantic⟩ located w with
    | mk result mid =>
      cases result with
      | error halt =>
        cases halt with
        | error e => simp [he] at h
        | blocked text acc =>
          simp only [he, ForgetMode.scope] at h
          exact absurd (congrArg Prod.fst h) (hfinish acc .blocked text _ (by decide))
      | ok acc =>
        simp only [he] at h
        cases hc : eraseCopies host located.staged acc with
        | error e => simp [hc] at h
        | ok copied =>
          simp only [hc, ForgetMode.scope] at h
          refine ⟨located,acc,mid,rfl,he,?_⟩
          rw [← copies_incomplete host located.staged acc copied hc]
          cases hi : copied.incomplete with
          | none => rfl
          | some reason =>
            simp only [finalStatus, hi] at h
            exact absurd (congrArg Prod.fst h) (hfinish copied .incomplete reason _ (by decide))

/-- A deletion of a claim as the product control confirms it: the stored change names the claim
among its targets and is verified, and what was purged then is purged after the forget. -/
def DeletedBy (claim : String) (targets : List (String × String)) (sources : Finset String)
    (after : Nexus ids) : Prop :=
  ∃ (w : Product.World) (key : String) (x : Product.StoredChange),
    Product.change w key = some x ∧ x.input.kind = .delete ∧ Product.Verified w key ∧
    targets = x.receipt.preview.targets.map (fun t => (t.id,t.kind)) ∧
    sources = x.receipt.preview.excludedSources ∧ claim ∈ targets.map Prod.fst ∧
    ∀ id, w.native id = some .purged → after.Purged id

/-- The answers a forget of the source is given are true of the store: before it, as the
passes left it, and after it. A PURGE that succeeds purges the element it names. -/
structure Truthful (unread : ℕ → KipError) (s : History ids) (host : Host) (source : String)
    (after : Nexus ids) : Prop where
  parse : ∀ id, host.parseId id = (ids.parse id).toOption
  staged : ∀ staged, host.stagedSource = .ok staged → staged.sourceRef = source
  targets : host.targetsOfSource = targetsOfSource unread s source
  citing : ∀ evidence claims, host.assertionsCiting evidence = .ok claims →
    claims = (s.nexus.referrers evidence).filter fun id => host.parseId id == some .assertion
  later : s.nexus.Keeps after
  deleted : ∀ located claims, locate host ⟨source,.semantic⟩ = .ok located →
    claimsOf host ⟨source,.semantic⟩ located.evidenceTargets = .ok claims →
    ∀ i claim targets sources, claims[i]? = some claim →
      (host.deletions i).result = .ok (targets,sources) → DeletedBy claim targets sources after
  purged : ∀ located claims acc w w', locate host ⟨source,.semantic⟩ = .ok located →
    claimsOf host ⟨source,.semantic⟩ located.evidenceTargets = .ok claims →
    deleteClaims host 0 claims located.acc w = (.ok acc,w') →
    ∀ c ∈ calls host 0 (directTargets ⟨source,.semantic⟩ located claims acc),
      (verdict host c).ends = false → after.Purged c.1

theorem DeletedBy.purged {claim : String} {targets : List (String × String)}
    {sources : Finset String} {after : Nexus ids} (h : DeletedBy claim targets sources after) :
    claim ∈ targets.map Prod.fst ∧ ∀ t ∈ targets, after.Purged t.1 := by
  obtain ⟨w,key,x,hx,hkind,⟨y,hy,-,hdelete,-⟩,rfl,-,hclaim,hnative⟩ := h
  obtain rfl : x = y := Option.some.inj (hx.symm.trans hy)
  refine ⟨hclaim,fun t ht => ?_⟩
  obtain ⟨target,htarget,rfl⟩ := List.mem_map.mp ht
  exact hnative target.id (hdelete hkind target htarget)

theorem mem_calls (targets : List String) (id : String) (h : id ∈ targets) :
    ∃ answer, (id,answer) ∈ calls host i targets := by
  induction targets generalizing i with
  | nil => simp at h
  | cons first rest ih =>
    rcases List.mem_cons.mp h with rfl | h
    · exact ⟨host.answers i,by simp [calls]⟩
    · obtain ⟨answer,hin⟩ := ih (i+1) h
      exact ⟨answer,by simp [calls, hin]⟩

theorem mem_citing (evidence : List String) (claims : List String)
    (h : citing host evidence = .ok claims) (e : String) (he : e ∈ evidence) :
    ∃ found, host.assertionsCiting e = .ok found ∧ found ⊆ claims := by
  induction evidence generalizing claims with
  | nil => simp at he
  | cons first rest ih =>
    unfold citing at h
    cases hfirst : host.assertionsCiting first with
    | error error => simp [hfirst, bind, Except.bind] at h
    | ok found =>
      cases hrest : citing host rest with
      | error error => simp [hfirst, hrest, bind, Except.bind] at h
      | ok others =>
        simp only [hfirst, hrest, bind, Except.bind, pure, Except.pure] at h
        cases h
        rcases List.mem_cons.mp he with rfl | he
        · exact ⟨found,hfirst,List.subset_append_left _ _⟩
        · obtain ⟨mine,hmine,hsub⟩ := ih others hrest he
          exact ⟨mine,hmine,List.subset_append_of_subset_right _ hsub⟩

theorem claims_cite (input : ForgetInput) (evidence claims : List String)
    (h : claimsOf host input evidence = .ok claims) (e : String) (he : e ∈ evidence) :
    ∃ found, host.assertionsCiting e = .ok found ∧ found ⊆ claims := by
  cases hcited : citing host evidence with
  | error error =>
    unfold claimsOf at h
    simp only [hcited, bind, Except.bind, pure, Except.pure] at h
    cases ho : host.assertionsOn with
    | error other =>
      rw [ho] at h
      split_ifs at h
    | ok named =>
      rw [ho] at h
      split_ifs at h
  | ok cited =>
    have hnamed : ∃ named, claims =
        dedupAdjacent (sortBy (fun a b => decide (a ≤ b)) (named++cited)) := by
      unfold claimsOf at h
      by_cases ha : startsWithText input.targetRef "A-" = true
      · simp only [ha, hcited, if_true, bind, Except.bind, pure, Except.pure, Except.ok.injEq] at h
        exact ⟨_,h.symm⟩
      by_cases hp : startsWithText input.targetRef "P-" = true
      · cases ho : host.assertionsOn with
        | error error => simp [ha, hp, ho, bind, Except.bind] at h
        | ok named =>
          simp only [ha, hp, ho, hcited, if_true, if_false, bind, Except.bind, pure, Except.pure,
            Except.ok.injEq, Bool.false_eq_true] at h
          exact ⟨_,h.symm⟩
      · simp only [ha, hp, hcited, if_false, bind, Except.bind, pure, Except.pure,
          Except.ok.injEq, Bool.false_eq_true] at h
        exact ⟨_,h.symm⟩
    obtain ⟨named,rfl⟩ := hnamed
    obtain ⟨found,hfound,hsub⟩ := mem_citing host evidence cited hcited e he
    refine ⟨found,hfound,?_⟩
    intro x hx
    rw [mem_dedup_adjacent, (sort_by_perm _ _).mem_iff]
    exact List.mem_append_right _ (hsub hx)

theorem locate_source (source : String) (hsource : startsWithText source "src-" = true)
    (located : Forget.Located) (h : locate host ⟨source,.semantic⟩ = .ok located)
    (hopen : located.acc.incomplete = none) : ∃ targets, host.targetsOfSource = .ok targets ∧
    located.evidenceTargets = targets.evidence ∧ located.ownedConcepts = targets.ownedConcepts ∧
    targets.incomplete = false ∧ located.acc.erasedIds = [] := by
  unfold locate at h
  simp only [hsource, if_true, bind, Except.bind] at h
  cases hs : host.stagedSource with
  | error e => simp [hs] at h
  | ok staged =>
    cases ht : host.targetsOfSource with
    | error e => simp [hs, ht] at h
    | ok targets =>
      simp only [hs, ht, pure, Except.pure, Except.ok.injEq] at h
      subst h
      refine ⟨targets,rfl,rfl,rfl,?_,rfl⟩
      by_contra hi
      simp [hi] at hopen

def FormedFrom (s : History ids) (source id : String) : Prop :=
  (∃ c, s.origin c = some source ∧ id ∈ s.made c) ∨
  ∃ ref record, s.receipts.lookup ref = some record ∧ record.sourceRef = some source ∧
    id ∈ s.captured ref

def Output (nexus : Nexus ids) (id : String) : Prop :=
  ∃ row, nexus.load id = some row ∧
    (row.kind = .evidence ∨ row.kind = .assertion ∨ row.narrative = true)

/-- A forget of a staged source that settles as completed has purged all the Evidence, claims
and narrative memory formed from it, in every run whose passes lose nothing. -/
theorem completed_forget_erases_source (unread : ℕ → KipError) (nexus after : Nexus ids)
    (s : History ids) (host : Host) (receiptRef source : String) (w w' : World) (summary : String)
    (plan : ErasurePlan) (hrun : Run (Accounted source) (History.start nexus) s)
    (hsource : startsWithText source "src-" = true) (htrue : Truthful unread s host source after)
    (hdone : erase host receiptRef ⟨source,.semantic⟩ w = (.ok (.completed,summary,plan),w')) :
    ∀ id, FormedFrom s source id → Output s.nexus id → after.Purged id := by
  have hs := sound_run nexus hrun
  obtain ⟨located,next,mid,hlocate,hsemantic,hopen⟩ :=
    erase_done host receiptRef source w w' summary plan hdone
  obtain ⟨claims,acc,last,hclaims,hdelete,hnone,hcalls⟩ :=
    semantic_done host _ located w mid next hsemantic hopen
  have hdeleted := htrue.deleted located claims hlocate hclaims
  obtain ⟨hstart,hall,-⟩ := delete_claims_done host 0 claims located.acc acc w last hdelete hnone
    (fun j claim targets sources hj hr => (hdeleted j claim targets sources hj (by simpa using hr)).purged.1)
  obtain ⟨targets,ht,hevidence,howned,hcomplete,hempty⟩ :=
    locate_source host source hsource located hlocate hstart
  have herased := delete_claims_erased host 0 claims located.acc acc w last hdelete after.Purged
    (by simp [hempty])
    (fun j claim targets sources hj hr => (hdeleted j claim targets sources hj (by simpa using hr)).purged.2)
  have hfound := targets_located unread s source hs targets (by rw [← htrue.targets, ht]) hcomplete
  have hdirect : ∀ id, id ∈ targets.evidence ∨ id ∈ targets.ownedConcepts → after.Purged id := by
    intro id hid
    by_cases hin : id ∈ acc.erasedIds
    · exact herased id hin
    have hdirect : id ∈ directTargets ⟨source,.semantic⟩ located claims acc := by
      simp only [directTargets, hevidence, howned, List.mem_append, List.mem_filter]
      rcases hid with hid | hid
      · exact .inl (.inl ⟨hid,by simpa using hin⟩)
      · exact .inl (.inr ⟨hid,by simpa using hin⟩)
    obtain ⟨answer,hcall⟩ := mem_calls host 0 _ id hdirect
    exact htrue.purged located claims acc w last hlocate hclaims hdelete (id,answer) hcall
      (hcalls _ hcall)
  intro id hformed ⟨row,hrow,hkind⟩
  rcases hformed with ⟨c,hc,hin⟩ | ⟨ref,record,hr,hsame,hin⟩
  · obtain ⟨hnamed,found,hload,hcase⟩ := hs.outputs c hc id hin
    obtain rfl : row = found := Option.some.inj (hrow.symm.trans hload)
    rcases hcase with hpurged | hreached
    · exact htrue.later.purged ⟨row,hrow,hpurged⟩
    rcases hkind with hk | hk | hk
    · exact hdirect id (.inl (hfound.evidence id (hreached.evidence hk)))
    · obtain ⟨e,he,hf⟩ := hreached.assertion hk
      obtain ⟨citing,hciting,hsub⟩ := claims_cite host _ _ claims hclaims e
        (by rw [hevidence]; exact hfound.evidence e hf)
      have hparse : host.parseId id = some .assertion := by
        rw [htrue.parse, s.nexus.parsed id row hrow, hk]
        rfl
      have hcites : id ∈ citing := by
        rw [htrue.citing e citing hciting]
        exact List.mem_filter.mpr ⟨s.nexus.cited id row e hrow hk he,by simp [hparse]⟩
      exact herased id (hall id (hsub hcites))
    · exact hdirect id (.inr (hfound.owned c id row hnamed hrow hk (hreached.narrative hk)))
  · exact hdirect id (.inl (hfound.evidence id (hs.captured ref record hr hsame id hin)))

def sampleIds : ElementIds where
  parse id :=
    if startsWithText id "E-" then .ok .evidence
    else if startsWithText id "C-" then .ok .concept
    else .error ⟨.invalidRequestEnvelope,"not an element id"⟩
  evidence id h := by
    split at h
    · assumption
    · split at h <;> cases h

/-- A message of the source, captured as `E-1`, and an Insight formed from it, each of them
purged or not. -/
def sampleNexus (captured insight : ElementState) : Nexus sampleIds where
  load id :=
    if id = "E-1" then some ⟨.evidence,"",captured,some (captureKey 1 1),[]⟩
    else if id = "C-1" then some ⟨.concept,"memory/Insight",insight,none,[]⟩
    else none
  findByClientKey key := if key = captureKey 1 1 then some "E-1" else none
  referrers _ := []
  parsed id row h := by
    split at h
    · cases h
      subst id
      rfl
    split at h
    · cases h
      subst id
      rfl
    · cases h
  keyed id row key h hkind hkey := by
    split at h
    · cases h
      subst id
      simp only [Option.some.injEq] at hkey
      simp [← hkey]
    · split at h
      · cases h
        cases hkind
      · cases h
  cited id row evidence h hkind := by
    split at h
    · cases h
      cases hkind
    split at h
    · cases h
      cases hkind
    · cases h

def emptyNexus : Nexus sampleIds where
  load _ := none
  findByClientKey _ := none
  referrers _ := []
  parsed _ _ h := by cases h
  keyed _ _ _ h := by cases h
  cited _ _ _ h := by cases h

theorem sample_keeps (captured insight later last : ElementState)
    (hc : captured = .purged → later = .purged) (hi : insight = .purged → last = .purged) :
    (sampleNexus captured insight).Keeps (sampleNexus later last) := by
  intro id row h
  simp only [sampleNexus] at h ⊢
  by_cases he : id = "E-1"
  · rw [if_pos he] at h
    cases h
    exact ⟨_,if_pos he,rfl,rfl,hc,.inr ⟨rfl,List.Subset.refl _⟩⟩
  rw [if_neg he] at h
  by_cases hin : id = "C-1"
  · rw [if_pos hin] at h
    cases h
    exact ⟨⟨.concept,"memory/Insight",last,none,[]⟩,by rw [if_neg he, if_pos hin],rfl,rfl,hi,
      .inr ⟨rfl,List.Subset.refl _⟩⟩
  · rw [if_neg hin] at h
    cases h

def active : ElementState := .live "active"

def formedNexus : Nexus sampleIds := sampleNexus active active

def sampleReceipt : CommitReceipt := ⟨true,some 7⟩

def formedResponse : Response :=
  ⟨some sampleReceipt,[⟨true,none,[⟨some "E-1",some "evidence",some "create"⟩,
    ⟨some "C-1",some "concept",some "create"⟩]⟩]⟩

def replayedResponse : Response :=
  ⟨some sampleReceipt,[⟨true,none,[⟨some "E-1",some "evidence",some "noop"⟩,
    ⟨some "C-1",some "concept",some "noop"⟩]⟩]⟩

def admitted : List (Event sampleIds) :=
  [.accept "rcpt-1" "src-1",.queue "rcpt-1" 1,.name "rcpt-1" 1,.load 1,.begin 1,
    .write 1 0 (some formedResponse) ["E-1","C-1"] formedNexus]

def historyAfter (events : List (Event sampleIds)) : History sampleIds :=
  events.foldl History.step (History.start emptyNexus)

def writtenHistory : History sampleIds := historyAfter admitted

def settledHistory : History sampleIds := writtenHistory.step (.turn 1 .done true)

/-- The process stops before a snapshot; the next attempt replays the write. -/
def crashedHistory : History sampleIds :=
  ([.crash,.load 1,.begin 1,.write 1 0 (some replayedResponse) [] formedNexus,
    .turn 1 .done true]).foldl History.step writtenHistory

def sampleHost (targets : SourceTargets) : Host where
  parseId id := (sampleIds.parse id).toOption
  sourceKeys _ := ∅
  stagedSource := .ok ⟨"src-1","sha256:ab"⟩
  targetsOfSource := .ok targets
  targetElement := .error notFound
  assertionsOn := .ok []
  assertionsCiting _ := .ok []
  deletions _ := ⟨.error "not_found",ControlState.default,false⟩
  payloads _ := .ok (.succeeded [])
  answers i := ⟨.ok active,none,none,none,.ok (.succeeded [if i = 0 then "E-1" else "C-1"]),true⟩
  save := none
  eraseStaged _ := none
  scrubConversation _ := .ok true
  scrubRecall := .ok 0
  memorySeq := .ok 9
  deliveredBases := []
  validatePlan := none
  putPlan := none

def ownedTargets : SourceTargets := ⟨["E-1"],["C-1"],{"formation:1"},false⟩

def unownedTargets : SourceTargets := ⟨["E-1"],[],{"formation:1"},false⟩

def unreadConversation : ℕ → KipError := fun _ => ⟨.internalError,"conversation not found"⟩

theorem calls_mem (targets : List String) (c : Call)
    (h : c ∈ calls host i targets) : c.1 ∈ targets := by
  induction targets generalizing i with
  | nil => simp [calls] at h
  | cons id rest ih =>
    rcases List.mem_cons.mp h with rfl | h
    · simp
    · exact List.mem_cons_of_mem _ (ih (i+1) h)

theorem sample_truthful (s : History sampleIds) (targets : SourceTargets)
    (after : Nexus sampleIds) (hnexus : s.nexus = formedNexus)
    (htargets : targetsOfSource unreadConversation s "src-1" = .ok targets)
    (hkeeps : formedNexus.Keeps after)
    (hpurged : ∀ id ∈ targets.evidence++targets.ownedConcepts, after.Purged id) :
    Truthful unreadConversation s (sampleHost targets) "src-1" after := by
  refine ⟨fun _ => rfl,?_,htargets.symm,?_,by rw [hnexus]; exact hkeeps,?_,?_⟩
  · intro staged h
    cases h
    rfl
  · intro evidence claims h
    cases h
    rw [hnexus]
    rfl
  · intro located claims _ _ i claim found sources _ h
    cases h
  intro located claims acc w w' hl _ _ c hc _
  have hin := calls_mem _ _ _ c hc
  have hlocated : located.evidenceTargets = targets.evidence ∧
      located.ownedConcepts = targets.ownedConcepts := by
    unfold locate at hl
    rw [if_pos (by decide)] at hl
    cases hl
    exact ⟨rfl,rfl⟩
  apply hpurged
  simp only [directTargets, hlocated.1, hlocated.2, List.mem_append, List.mem_filter] at hin ⊢
  rcases hin with (hin | hin) | hin
  · exact .inl hin.1
  · exact .inr hin.1
  · simp [show startsWithText "src-1" "src-" = true by decide] at hin

def CopiesErased (acc : Acc) : Prop := acc.hostSurfaces.any (fun c => c.state != "erased") = false

structure Calm (host : Host) : Prop where
  staged : ∀ ref, host.eraseStaged ref = none
  scrub : ∀ id, host.scrubConversation id = .ok true
  «recall» : ∃ n, host.scrubRecall = .ok n
  seq : ∃ n, host.memorySeq = .ok n
  plan : host.validatePlan = none
  put : host.putPlan = none

section
variable {host : Host}

theorem calm_staged (hc : Calm host) (refs : List String) (acc : Acc) (h : CopiesErased acc) : ∃
    next, eraseStagedAll host refs acc = .ok next ∧ CopiesErased next ∧ next.incomplete =
    acc.incomplete := by
  induction refs generalizing acc with
  | nil => exact ⟨acc,rfl,h,rfl⟩
  | cons ref rest ih =>
    simp only [eraseStagedAll, hc.staged]
    apply ih
    simpa [CopiesErased] using h

theorem calm_scrubbed (hc : Calm host) (conversations : List ℕ) (acc : Acc) (h : CopiesErased acc) :
    ∃ next, scrubConversations host conversations acc = .ok next ∧ CopiesErased next ∧
    next.incomplete = acc.incomplete := by
  induction conversations generalizing acc with
  | nil => exact ⟨acc,rfl,h,rfl⟩
  | cons c rest ih =>
    simp only [scrubConversations, hc.scrub]
    apply ih
    simpa [CopiesErased] using h

theorem calm_copies (hc : Calm host) (staged : Option String) (acc : Acc) (h : CopiesErased acc) : ∃
    next, eraseCopies host staged acc = .ok next ∧ CopiesErased next ∧ next.incomplete =
    acc.incomplete := by
  unfold eraseCopies
  obtain ⟨first,hfirst,herased,hsame⟩ := calm_staged hc
    (dedupAdjacent (sortBy (fun a b => decide (a ≤ b))
      (keysNaming "memory-source:" acc.suppressed++staged.toList))) acc h
  obtain ⟨second,hsecond,hscrubbed,hlast⟩ := calm_scrubbed hc
    (dedupAdjacent (sortBy (fun a b => decide (a ≤ b))
      ((keysNaming "formation:" acc.suppressed).filterMap parseU64))) first herased
  obtain ⟨n,hrecall⟩ := hc.recall
  simp only [hfirst, hsecond, hrecall, bind, Except.bind]
  split
  · exact ⟨second,rfl,hscrubbed,by rw [hlast, hsame]⟩
  · refine ⟨_,rfl,?_,by rw [← hsame, ← hlast]⟩
    simpa [CopiesErased] using hscrubbed

theorem calm_finishes (hc : Calm host) (acc : Acc) (receiptRef scope summary : String)
    (h : CopiesErased acc) : ∃ plan, finishPlan host receiptRef scope acc .completed summary = .ok
    (.completed,summary,plan) := by
  have hverified : verifiedStatus host acc .completed summary = (.completed,summary) := by
    unfold CopiesErased at h
    simp [verifiedStatus, hc.plan, h]
  obtain ⟨n,hseq⟩ := hc.seq
  simp only [finishPlan, hverified, hseq, hc.put, bind, Except.bind]
  exact ⟨_,rfl⟩

theorem calm_completes (hc : Calm host) {input : ForgetInput} {located : Forget.Located} {acc : Acc}
    {w w' : World} (receiptRef : String) (hl : locate host input = .ok located)
    (hran : (match input.mode with
      | .semantic => eraseSemantic host input located w
      | .payloadOnly => (erasePayloads host located,w)) = (.ok acc,w'))
    (hcopies : CopiesErased acc) (hopen : acc.incomplete = none) :
    ∃ summary plan, erase host receiptRef input w = (.ok (.completed,summary,plan),w') := by
  obtain ⟨copied,hcopied,herased,hsame⟩ := calm_copies hc located.staged acc hcopies
  obtain ⟨summary,hfinal⟩ : ∃ summary, finalStatus copied = (.completed,summary) :=
    ⟨_,by simp only [finalStatus, hsame.trans hopen]; rfl⟩
  obtain ⟨plan,hplan⟩ := calm_finishes hc copied receiptRef input.mode.scope summary herased
  refine ⟨summary,plan,?_⟩
  unfold erase
  cases hm : input.mode with
  | semantic =>
    simp only [hm] at hran hplan
    simp only [hl, hran, hcopied, hfinal, hplan]
  | payloadOnly =>
    simp only [hm] at hran hplan
    simp only [hl, hran, hcopied, hfinal, hplan]

end

theorem sample_calm (targets : SourceTargets) : Calm (sampleHost targets) :=
  ⟨fun _ => rfl,fun _ => rfl,⟨0,rfl⟩,⟨9,rfl⟩,rfl,rfl⟩

def semanticClean (targets : SourceTargets) : Bool :=
  match locate (sampleHost targets) ⟨"src-1",.semantic⟩ with
  | .error _ => false
  | .ok located =>
    match (eraseSemantic (sampleHost targets) ⟨"src-1",.semantic⟩ located
      ⟨ControlState.default,[]⟩).1 with
    | .ok acc => acc.incomplete.isNone && acc.hostSurfaces.isEmpty
    | .error _ => false

theorem sample_completes (targets : SourceTargets) (h : semanticClean targets = true) : ∃ summary
    plan w', erase (sampleHost targets) "rcpt-9" ⟨"src-1",.semantic⟩ ⟨ControlState.default,[]⟩ =
    (.ok (.completed,summary,plan),w') := by
  unfold semanticClean at h
  cases hl : locate (sampleHost targets) ⟨"src-1",.semantic⟩ with
  | error e => simp [hl] at h
  | ok located =>
    simp only [hl] at h
    cases he : eraseSemantic (sampleHost targets) ⟨"src-1",.semantic⟩ located
        ⟨ControlState.default,[]⟩ with
    | mk result w' =>
      cases result with
      | error halt => simp [he] at h
      | ok acc =>
        simp only [he, Bool.and_eq_true, Option.isNone_iff_eq_none, List.isEmpty_iff] at h
        obtain ⟨summary,plan,hdone⟩ := calm_completes (sample_calm targets) "rcpt-9" hl he
          (by simp [CopiesErased, h.2]) h.1
        exact ⟨summary,plan,w',hdone⟩

theorem sample_reports (response : Response) (created : List String)
    (hseqs : response.seqs ≠ [])
    (h : ∀ id ∈ created, ∃ result ∈ response.results, result.succeeded = true ∧
      ⟨some id,some (if id = "E-1" then "evidence" else "concept"),some "create"⟩ ∈ result.changes) :
    Reports response created formedNexus := by
  refine ⟨hseqs,fun id hin row hrow => ?_⟩
  obtain ⟨result,hresult,hsucceeded,hchange⟩ := h id hin
  refine ⟨result,hresult,hsucceeded,?_⟩
  simp only [formedNexus, sampleNexus] at hrow
  by_cases he : id = "E-1"
  · rw [if_pos he] at hrow hchange
    cases hrow
    exact hchange
  rw [if_neg he] at hrow hchange
  split at hrow
  · cases hrow
    exact hchange
  · cases hrow

theorem run_mono {meets weaker : History ids → Event ids → Prop}
    (h : ∀ s event, meets s event → weaker s event) {start s : History ids}
    (hrun : Run meets start s) : Run weaker start s := by
  induction hrun with
  | here => exact .here
  | step _ event hp hm ih => exact .step ih event hp (h _ event hm)

theorem formed_reports : Reports formedResponse ["E-1","C-1"] formedNexus := by
  apply sample_reports
  · decide
  intro id hin
  refine ⟨_,List.mem_singleton.mpr rfl,rfl,?_⟩
  rcases List.mem_cons.mp hin with rfl | hin
  · simp
  · rcases List.mem_cons.mp hin with rfl | hin
    · simp
    · simp at hin

theorem replay_reports : Reports replayedResponse [] formedNexus :=
  sample_reports _ _ (by decide) (by simp)

theorem empty_keeps (next : Nexus sampleIds) : emptyNexus.Keeps next := by
  intro id row h
  cases h

theorem formed_rows (id : String) (row : ElementRow) (h : formedNexus.load id = some row) :
    (row.kind = .evidence → KeyedBy formedNexus 1 id) ∧ row.kind ≠ .assertion := by
  simp only [formedNexus, sampleNexus] at h
  by_cases he : id = "E-1"
  · rw [if_pos he] at h
    cases h
    subst he
    exact ⟨fun _ => ⟨_,rfl,rfl,0,by decide,rfl⟩,by decide⟩
  · rw [if_neg he] at h
    split at h
    · cases h
      exact ⟨fun h => (nomatch h),by decide⟩
    · cases h

def Follows (meets : History ids → Event ids → Prop) : History ids → List (Event ids) → Prop
  | _, [] => True
  | s, event::rest => Possible s event ∧ meets s event ∧ Follows meets (s.step event) rest

theorem run_follows {meets : History ids → Event ids → Prop} {start : History ids}
    (events : List (Event ids)) (s : History ids) (hrun : Run meets start s)
    (h : Follows meets s events) : Run meets start (events.foldl History.step s) := by
  induction events generalizing s with
  | nil => exact hrun
  | cons event rest ih =>
    obtain ⟨hp,hm,hrest⟩ := h
    exact ih _ (.step hrun event hp hm) hrest

theorem written_run : Run (Accounted "src-1") (History.start emptyNexus) writtenHistory := by
  apply run_follows admitted _ .here
  have hinsert : ∀ (m : SortedMap String IntakeRecord) (record : IntakeRecord),
      (m.insert "rcpt-1" record).lookup "rcpt-1" = some record := by
    intro m record
    rw [SortedMap.lookup_insert, if_pos rfl]
  have hloads : (formedNexus.load "E-1").isSome ∧ (formedNexus.load "C-1").isSome := ⟨rfl,rfl⟩
  simp [admitted, Follows, Possible, History.step, History.start, History.putReceipt, History.hold,
    hinsert, ConversationStatus.terminal, empty_keeps, formed_reports, Accounted, hloads]
  refine ⟨⟨_,_,hinsert _ _,rfl,rfl⟩,fun row hrow => ?_,fun row hrow => ?_⟩
  · obtain ⟨hkeyed,hassertion⟩ := formed_rows "E-1" row hrow
    exact ⟨fun he => .inl (hkeyed he),fun ha => absurd ha hassertion⟩
  · obtain ⟨hkeyed,hassertion⟩ := formed_rows "C-1" row hrow
    exact ⟨fun he => .inl (hkeyed he),fun ha => absurd ha hassertion⟩

theorem written_attempt : ∃ live, writtenHistory.attempts 1 = some
    ⟨⟨.submitted,TraceData.default⟩,some live⟩ ∧ writtenHistory.conversations 1 = some
    ⟨.submitted,TraceData.default⟩ ∧ writtenHistory.nexus = formedNexus := by
  refine ⟨_,rfl,rfl,rfl⟩

theorem settled_run : Run (Accounted "src-1") (History.start emptyNexus) settledHistory := by
  obtain ⟨live,hattempt,-,-⟩ := written_attempt
  exact .step written_run _ ⟨_,live,hattempt,rfl⟩ (fun _ h => (nomatch h))

theorem crashed_run : Run (fun _ _ => True) (History.start emptyNexus) crashedHistory := by
  apply run_follows _ _ (run_mono (fun _ _ _ => trivial) written_run)
  obtain ⟨live,-,hconversation,hnexus⟩ := written_attempt
  have hkeeps := Nexus.Keeps.refl formedNexus
  simp [Follows, Possible, History.step, History.hold, hconversation, hnexus,
    ConversationStatus.terminal, replay_reports, hkeeps]

deriving instance DecidableEq for SourceTargets

theorem settled_targets :
    targetsOfSource unreadConversation settledHistory "src-1" = .ok ownedTargets := by
  decide +kernel

theorem crashed_targets :
    targetsOfSource unreadConversation crashedHistory "src-1" = .ok unownedTargets := by
  decide +kernel

theorem settled_nexus : settledHistory.nexus = formedNexus ∧ crashedHistory.nexus = formedNexus :=
  ⟨rfl,rfl⟩

theorem sample_purged (insight : ElementState) : (sampleNexus .purged insight).Purged "E-1" :=
  ⟨_,rfl,rfl⟩

theorem insight_purged : (sampleNexus .purged .purged).Purged "C-1" := ⟨_,rfl,rfl⟩

/-- A pass that ends with its snapshot: the forget completes, and the Insight is gone. -/
theorem completed_forget_erases_source_settled : ∃ summary plan w', erase (sampleHost ownedTargets)
    "rcpt-9" ⟨"src-1",.semantic⟩ ⟨ControlState.default,[]⟩ = (.ok (.completed,summary,plan),w') ∧
    (sampleNexus .purged .purged).Purged "C-1" := by
  obtain ⟨summary,plan,w',hdone⟩ := sample_completes ownedTargets (by decide +kernel)
  have htrue : Truthful unreadConversation settledHistory (sampleHost ownedTargets) "src-1"
      (sampleNexus .purged .purged) := by
    apply sample_truthful settledHistory ownedTargets _ settled_nexus.1 settled_targets
    · exact sample_keeps active active .purged .purged (fun _ => rfl) (fun _ => rfl)
    intro id hin
    rcases List.mem_cons.mp hin with rfl | hin
    · exact sample_purged _
    · rcases List.mem_cons.mp hin with rfl | hin
      · exact insight_purged
      · cases hin
  exact ⟨summary,plan,w',hdone,completed_forget_erases_source unreadConversation emptyNexus _
    settledHistory (sampleHost ownedTargets) "rcpt-9" "src-1" _ w' summary plan settled_run
    (by decide) htrue hdone "C-1" (.inl ⟨1,rfl,by decide⟩) ⟨_,rfl,.inr (.inr (by decide))⟩⟩

/-- A pass that was stopped before its snapshot: the forget completes, and the Insight is left. -/
theorem crashed_pass_outlives_forget :
    ¬∀ (ids : ElementIds) (unread : ℕ → KipError) (nexus after : Nexus ids) (s : History ids)
        (host : Host) (receiptRef source : String) (w w' : World) (summary : String)
        (plan : ErasurePlan),
      Run (fun _ _ => True) (History.start nexus) s → startsWithText source "src-" = true →
      Truthful unread s host source after →
      erase host receiptRef ⟨source,.semantic⟩ w = (.ok (.completed,summary,plan),w') →
      ∀ id, FormedFrom s source id → Output s.nexus id → after.Purged id := by
  intro h
  obtain ⟨summary,plan,w',hdone⟩ := sample_completes unownedTargets (by decide +kernel)
  have htrue : Truthful unreadConversation crashedHistory (sampleHost unownedTargets) "src-1"
      (sampleNexus .purged active) := by
    apply sample_truthful crashedHistory unownedTargets _ settled_nexus.2 crashed_targets
    · exact sample_keeps active active .purged active (fun _ => rfl) (fun h => h)
    intro id hin
    rcases List.mem_cons.mp hin with rfl | hin
    · exact sample_purged _
    · cases hin
  obtain ⟨row,hrow,hpurged⟩ := h sampleIds unreadConversation emptyNexus _ crashedHistory
    (sampleHost unownedTargets) "rcpt-9" "src-1" _ w' summary plan crashed_run (by decide) htrue hdone
    "C-1" (.inl ⟨1,rfl,by decide⟩) ⟨_,rfl,.inr (.inr (by decide))⟩
  cases hrow
  cases hpurged

end AndaBrain.SourceForget
