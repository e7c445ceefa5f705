import AndaBrain.Forget

/-!
# What a forget erases and what it suppresses

The keys of erased Evidence are collected while the purges run and saved once,
after the last one. A target that ends the loop early therefore leaves the
Evidence purged before it, and itself where its PURGE took effect, outside the
suppressed set.
-/

set_option autoImplicit false

namespace AndaBrain.Forget
open Product

abbrev Call := String × Answer

def calls (host : Host) : ℕ → List String → List Call
  | _, [] => []
  | i, id::rest => (id,host.answers i)::calls host (i + 1) rest

/-- How the loop takes one target. It may end there with the PURGE applied. -/
inductive Verdict where
  | skipped
  | erased
  | ended (applied : Bool)
  deriving DecidableEq

def verdict (host : Host) (c : Call) : Verdict :=
  match c.2.state with
  | .error _ => .ended false
  | .ok .purged => .skipped
  | .ok _ =>
    if isEvidence host c.1 && c.2.row.isNone && c.2.source.isSome then .ended false
    else
      match c.2.reply with
      | .ok (.succeeded _) => .erased
      | _ => .ended c.2.applied

def Verdict.applies : Verdict → Bool
  | .skipped => false
  | .erased => true
  | .ended applied => applied

def Verdict.ends : Verdict → Bool
  | .ended _ => true
  | _ => false

def taken (host : Host) : List Call → List Call
  | [] => []
  | c::rest => if (verdict host c).ends then [c] else c::taken host rest

def keysRead (host : Host) (c : Call) : Finset String :=
  if verdict host c = .erased && isEvidence host c.1 && c.2.row.isNone && c.2.keys.isNone then
    host.sourceKeys c.1
  else ∅

def allKeysRead (host : Host) : List Call → Finset String
  | [] => ∅
  | c::rest => keysRead host c ∪ allKeysRead host rest

def saves (host : Host) (control : ControlState) (keys : Finset String) : Bool :=
  match control.suppress keys with
  | none => true
  | some next => decide (next.suppressed.card ≤ suppressionCapacity) && host.save.isNone

/-- Every Evidence whose PURGE takes effect has its keys suppressed before the
purges start; or no target ends the loop, the save is accepted, and the keys
were read. -/
def Covered (host : Host) (control : ControlState) (start : Finset String)
    (cs : List Call) : Prop :=
  ∀ c ∈ taken host cs, (verdict host c).applies = true → isEvidence host c.1 = true →
    host.sourceKeys c.1 ⊆ control.suppressed ∨
    ((∀ d ∈ cs, (verdict host d).ends = false) ∧
      saves host control (start ∪ allKeysRead host cs) = true ∧
      host.sourceKeys c.1 ⊆ control.suppressed ∪ (start ∪ allKeysRead host cs))

/-- What the product deletions of the claims answer, up to one that ends the forget: the elements
erased, the source keys excluded and the control state left. -/
def deletionAnswers (host : Host) : ℕ → List String → List String → ControlState →
    Option (List String × Finset String × ControlState)
  | _, [], erased, control => some (erased,∅,control)
  | i, claim::rest, erased, control =>
    if claim ∈ erased then deletionAnswers host (i + 1) rest erased control
    else
      let deletion := host.deletions i
      match deletion.result with
      | .ok (targets,sources) =>
        (deletionAnswers host (i + 1) rest (erased++targets.map Prod.fst) deletion.control).map
          fun r => (r.1,sources ∪ r.2.1,r.2.2)
      | .error e =>
        if containsText e "unsupported_scope" && !deletion.held then
          deletionAnswers host (i + 1) rest erased deletion.control
        else none

def CoveredForget (host : Host) (input : ForgetInput) (control : ControlState) : Prop :=
  ∀ located claims erased keys left, locate host input = .ok located →
    claimsOf host input located.evidenceTargets = .ok claims →
    deletionAnswers host 0 claims [] control = some (erased,keys,left) →
    Covered host left (located.acc.suppressed ∪ keys)
      (calls host 0 (directTargets input located claims { Acc.empty with erasedIds := erased }))

theorem verdict_live (host : Host) (c : Call) (state : ElementState)
    (hs : c.2.state = .ok state) (hne : state ≠ .purged) :
    verdict host c =
      if isEvidence host c.1 && c.2.row.isNone && c.2.source.isSome then .ended false
      else
        match c.2.reply with
        | .ok (.succeeded _) => .erased
        | _ => .ended c.2.applied := by
  unfold verdict
  rw [hs]
  cases state with
  | purged => exact absurd rfl hne
  | archived => rfl
  | live name => rfl

variable (host : Host) (acc : Acc)

theorem learn_suppressed (id : String) (answer : Answer) :
    (acc.learn host id answer).suppressed = acc.suppressed ∪
      (if isEvidence host id && answer.row.isNone && answer.keys.isNone then host.sourceKeys id
        else ∅) := by
  unfold Acc.learn
  by_cases h : (isEvidence host id && answer.row.isNone) = true
  · by_cases hk : answer.keys.isNone = true
    · simp [h, hk]
    · simp [h, hk]
  · simp [h]

theorem erased_suppressed (owned : List String) (id : String)
    (purged : List String) : (acc.erased owned id purged).suppressed = acc.suppressed := by
  unfold Acc.erased
  dsimp only
  split <;> rfl

def appliedIds (host : Host) (cs : List Call) : List String :=
  ((taken host cs).filter fun c => (verdict host c).applies).map Prod.fst

structure Purged (host : Host) (acc : Acc) (w : World) (cs : List Call)
    (r : Except Halt Acc × World) : Prop where
  control : r.2.control = w.control
  purged : r.2.purged = w.purged++appliedIds host cs
  through : (∀ d ∈ cs, (verdict host d).ends = false) →
    ∃ next, r.1 = .ok next ∧ next.suppressed = acc.suppressed ∪ allKeysRead host cs
  ended : (∃ d ∈ cs, (verdict host d).ends = true) → ∃ halt, r.1 = .error halt

theorem purged_end (w w' : World) (c : Call) (rest : List Call)
    (halt : Halt) (applied : Bool) (hv : verdict host c = .ended applied)
    (hw : w' = if applied then w.record c.1 else w) :
    Purged host acc w (c::rest) (.error halt,w') := by
  have ht : taken host (c::rest) = [c] := by simp [taken, hv, Verdict.ends]
  refine ⟨?_,?_,?_,fun _ => ⟨halt,rfl⟩⟩
  · cases applied <;> simp [hw, World.record]
  · rw [appliedIds, ht]
    cases applied <;> simp [hw, World.record, hv, Verdict.applies]
  intro h
  have := h c (List.mem_cons_self ..)
  rw [hv] at this
  cases this

theorem purged_next (acc next : Acc) (w w' : World) (c : Call)
    (rest : List Call) (r : Except Halt Acc × World) (hv : (verdict host c).ends = false)
    (hacc : next.suppressed = acc.suppressed ∪ keysRead host c)
    (hw : w'.control = w.control ∧
      w'.purged = w.purged++if (verdict host c).applies then [c.1] else [])
    (hr : Purged host next w' rest r) : Purged host acc w (c::rest) r := by
  have ht : taken host (c::rest) = c::taken host rest := by simp [taken, hv]
  refine ⟨hr.control.trans hw.1,?_,?_,?_⟩
  · rw [hr.purged, hw.2, List.append_assoc, appliedIds, appliedIds, ht]
    by_cases ha : (verdict host c).applies = true
    · simp [ha]
    · simp [ha]
  · intro h
    obtain ⟨last,hl,hs⟩ := hr.through fun d hd => h d (List.mem_cons_of_mem c hd)
    refine ⟨last,hl,?_⟩
    rw [hs, hacc, allKeysRead, Finset.union_assoc]
  · rintro ⟨d,hd,he⟩
    rcases List.mem_cons.mp hd with rfl | hm
    · rw [hv] at he
      cases he
    · exact hr.ended ⟨d,hm,he⟩

theorem purge_direct_purged (owned : List String) (i : ℕ) (ids : List String) (acc : Acc)
    (w : World) : Purged host acc w (calls host i ids) (purgeDirect host owned i ids acc w) := by
  induction ids generalizing i acc w with
  | nil => exact ⟨rfl,by simp [calls, appliedIds, taken, purgeDirect],
      fun _ => ⟨acc,rfl,by simp [calls, allKeysRead]⟩,by simp [calls]⟩
  | cons id rest ih =>
    rw [purgeDirect, calls]
    set answer := host.answers i with hanswer
    split
    · rename_i e hs
      apply purged_end host acc w w _ _ _ false _ rfl
      simp [verdict, hs]
    · rename_i hs
      have hv : verdict host (id,answer) = .skipped := by simp [verdict, hs]
      apply purged_next host acc acc w w _ _ _ (by rw [hv]; rfl) _ _ (ih (i + 1) acc w)
      · simp [keysRead, hv]
      · simp [hv, Verdict.applies]
    rename_i state hne hs
    have hlive := verdict_live host (id,answer) state hs hne
    split
    · rename_i e he
      by_cases hrow : (isEvidence host id && answer.row.isNone) = true
      · rw [if_pos hrow] at he
        apply purged_end host acc w w _ _ _ false _ rfl
        rw [hlive]
        simp [hrow, he]
      · rw [if_neg hrow] at he
        cases he
    rename_i hsource
    have hread : (isEvidence host id && answer.row.isNone && answer.source.isSome) = false := by
      by_cases hrow : (isEvidence host id && answer.row.isNone) = true
      · rw [if_pos hrow] at hsource
        simp [hsource]
      · simp [hrow]
    dsimp only
    split
    · rename_i purged hreply
      have hv : verdict host (id,answer) = .erased := by
        rw [hlive]
        simp [hread, hreply]
      apply purged_next host acc _ w (w.record id) _ _ _ (by rw [hv]; rfl) _ _
        (ih (i + 1) _ _)
      · rw [erased_suppressed, learn_suppressed, keysRead, hv]
        simp
      · simp [hv, Verdict.applies, World.record]
    · rename_i message hreply
      have hv : verdict host (id,answer) = .ended answer.applied := by
        rw [hlive]
        simp [hread, hreply]
      split
      · exact purged_end host acc w _ _ _ _ answer.applied hv rfl
      · exact purged_end host acc w _ _ _ _ answer.applied hv rfl
    · rename_i e hreply
      have hv : verdict host (id,answer) = .ended answer.applied := by
        rw [hlive]
        simp [hread, hreply]
      exact purged_end host acc w _ _ _ _ answer.applied hv rfl

theorem delete_claims_purged (i : ℕ) (claims : List String) (acc : Acc)
    (w : World) : (deleteClaims host i claims acc w).2.purged = w.purged := by
  induction claims generalizing i acc w with
  | nil => rfl
  | cons claim rest ih =>
    rw [deleteClaims]
    dsimp only
    split
    · exact ih _ _ _
    split
    · exact ih _ _ _
    split
    · split
      · rfl
      · exact ih _ _ _
    · rfl

/-- The deletions leave behind what they answer. -/
theorem delete_claims_answers (i : ℕ) (claims : List String) (acc : Acc) (w : World) :
    match deleteClaims host i claims acc w with
    | (.ok next,w') => ∃ keys, deletionAnswers host i claims acc.erasedIds w.control =
        some (next.erasedIds,keys,w'.control) ∧ next.suppressed = acc.suppressed ∪ keys
    | (.error _,_) => deletionAnswers host i claims acc.erasedIds w.control = none := by
  induction claims generalizing i acc w with
  | nil => exact ⟨∅,rfl,by simp⟩
  | cons claim rest ih =>
    rw [deleteClaims, deletionAnswers]
    split_ifs with hin
    · exact ih _ _ _
    dsimp only
    cases hr : (host.deletions i).result with
    | ok pair =>
      obtain ⟨targets,sources⟩ := pair
      have hrest := ih (i+1) (acc.deleted targets sources)
        { w with control := (host.deletions i).control }
      dsimp only
      generalize deleteClaims host (i+1) rest (acc.deleted targets sources)
        { w with control := (host.deletions i).control } = x at hrest ⊢
      obtain ⟨o,w'⟩ := x
      cases o with
      | error halt =>
        simp only [Acc.deleted] at hrest
        simp only [hrest, Option.map_none]
      | ok next =>
        obtain ⟨keys,hkeys,hnext⟩ := hrest
        simp only [Acc.deleted] at hkeys
        refine ⟨sources ∪ keys,by simp only [hkeys, Option.map_some],?_⟩
        rw [hnext, Acc.deleted, Finset.union_assoc]
    | error e =>
      dsimp only
      by_cases hscope : containsText e "unsupported_scope" = true
      · by_cases hheld : (host.deletions i).held = true
        · simp [hscope, hheld]
        · simp only [hscope, hheld, if_true, Bool.not_false, Bool.and_true, Bool.false_eq_true,
            if_false]
          exact ih _ _ _
      · simp [hscope]

theorem suppress_sources_spec (keys : Finset String) (w : World) :
    (suppressSources host keys w).2.purged = w.purged ∧
    (saves host w.control keys = true →
      (suppressSources host keys w).2.control.suppressed = w.control.suppressed ∪ keys) ∧
    (saves host w.control keys = false → (suppressSources host keys w).2 = w) := by
  unfold suppressSources saves
  cases hs : w.control.suppress keys with
  | none =>
    refine ⟨rfl,?_,by simp⟩
    intro _
    unfold ControlState.suppress at hs
    dsimp only at hs
    split at hs
    · rename_i hcard
      exact Finset.eq_of_subset_of_card_le Finset.subset_union_left (le_of_eq hcard)
    · cases hs
  | some next =>
    dsimp only
    by_cases hcap : next.suppressed.card > suppressionCapacity
    · simp [hcap, Nat.not_le.mpr hcap]
    cases hsave : host.save with
    | some e => simp [hcap]
    | none =>
      simp only [if_neg hcap]
      refine ⟨trivial,fun _ => (ControlState.suppress_some _ _ _ hs).2.2,?_⟩
      simp [Nat.le_of_not_lt hcap]

def Suppressed (host : Host) (w : World) : Prop :=
  ∀ id ∈ w.purged, isEvidence host id = true → host.sourceKeys id ⊆ w.control.suppressed

theorem mem_applied_ids (cs : List Call) (id : String) :
    id ∈ appliedIds host cs ↔ ∃ c ∈ taken host cs, (verdict host c).applies = true ∧ c.1 = id := by
  simp [appliedIds, and_assoc]

theorem suppressed_iff (w : World) (cs : List Call) (hp : w.purged = appliedIds host cs) :
    Suppressed host w ↔ ∀ c ∈ taken host cs, (verdict host c).applies = true → isEvidence host c.1 =
    true → host.sourceKeys c.1 ⊆ w.control.suppressed := by
  unfold Suppressed
  rw [hp]
  constructor
  · intro h c hc ha he
    exact h c.1 ((mem_applied_ids host cs c.1).mpr ⟨c,hc,ha,rfl⟩) he
  · intro h id hid he
    obtain ⟨c,hc,ha,rfl⟩ := (mem_applied_ids host cs id).mp hid
    exact h c hc ha he

theorem saved_world (w : World) :
    (saveSuppressed host acc w).2.purged = w.purged ∧
    (saves host w.control acc.suppressed = true →
      (saveSuppressed host acc w).2.control.suppressed = w.control.suppressed ∪ acc.suppressed) ∧
    (saves host w.control acc.suppressed = false → (saveSuppressed host acc w).2 = w) := by
  have hspec := suppress_sources_spec host acc.suppressed w
  unfold saveSuppressed
  by_cases h : acc.suppressed = ∅
  · rw [if_pos h]
    exact ⟨rfl,fun _ => by simp [h],fun _ => rfl⟩
  rw [if_neg h]
  rcases hs : suppressSources host acc.suppressed w with ⟨o,w'⟩
  rw [hs] at hspec
  cases o with
  | error e => exact hspec
  | ok u => exact hspec

theorem purge_and_save_suppressed (owned ids : List String) (acc : Acc)
    (control : ControlState) : Suppressed host (purgeAndSave host owned ids acc ⟨control,[]⟩).2 ↔
    Covered host control acc.suppressed (calls host 0 ids) := by
  have hp := purge_direct_purged host owned 0 ids acc ⟨control,[]⟩
  unfold purgeAndSave
  by_cases hthrough : ∀ d ∈ calls host 0 ids, (verdict host d).ends = false
  · obtain ⟨next,hok,hnext⟩ := hp.through hthrough
    rcases hd : purgeDirect host owned 0 ids acc ⟨control,[]⟩ with ⟨o,w⟩
    rw [hd] at hp hok
    cases hok
    have hcontrol : w.control = control := hp.control
    have hsaved := saved_world host next w
    dsimp only
    rw [suppressed_iff host _ (calls host 0 ids) (hsaved.1.trans hp.purged)]
    rw [hcontrol, hnext] at hsaved
    by_cases hs : saves host control (acc.suppressed ∪ allKeysRead host (calls host 0 ids)) = true
    · rw [hsaved.2.1 hs]
      constructor
      · intro h c hc ha he
        exact Or.inr ⟨hthrough,hs,h c hc ha he⟩
      intro h c hc ha he
      rcases h c hc ha he with hold | ⟨_,_,hnew⟩
      · exact hold.trans Finset.subset_union_left
      · exact hnew
    · rw [hsaved.2.2 (by simpa using hs), hcontrol]
      constructor
      · intro h c hc ha he
        exact Or.inl (h c hc ha he)
      intro h c hc ha he
      rcases h c hc ha he with hold | ⟨_,hs',_⟩
      · exact hold
      · exact absurd hs' hs
  push Not at hthrough
  obtain ⟨d,hd,he⟩ := hthrough
  obtain ⟨halt,herr⟩ := hp.ended ⟨d,hd,by simpa using he⟩
  rcases hw : purgeDirect host owned 0 ids acc ⟨control,[]⟩ with ⟨o,w⟩
  rw [hw] at hp herr
  cases herr
  have hcontrol : w.control = control := hp.control
  dsimp only
  rw [suppressed_iff host w (calls host 0 ids) hp.purged, hcontrol]
  constructor
  · intro h c hc ha hev
    exact Or.inl (h c hc ha hev)
  intro h c hc ha hev
  rcases h c hc ha hev with hold | ⟨hall,_⟩
  · exact hold
  · exact absurd (hall d hd) he

theorem erase_world (host : Host) (receiptRef target : String) (w : World) :
    (erase host receiptRef ⟨target,.semantic⟩ w).2 =
      match locate host ⟨target,.semantic⟩ with
      | .error _ => w
      | .ok located => (eraseSemantic host ⟨target,.semantic⟩ located w).2 := by
  unfold erase
  cases locate host ⟨target,.semantic⟩ with
  | error e => rfl
  | ok located =>
    dsimp only
    rcases eraseSemantic host ⟨target,.semantic⟩ located w with ⟨o,w'⟩
    cases o with
    | error halt => cases halt <;> rfl
    | ok acc =>
      dsimp only
      cases eraseCopies host located.staged acc <;> rfl

theorem erase_semantic_suppressed (input : ForgetInput) (located : Located)
    (hempty : located.acc.erasedIds = []) (control : ControlState) :
    Suppressed host (eraseSemantic host input located ⟨control,[]⟩).2 ↔ ∀ claims erased keys left,
    claimsOf host input located.evidenceTargets = .ok claims →
    deletionAnswers host 0 claims [] control = some (erased,keys,left) →
    Covered host left (located.acc.suppressed ∪ keys)
      (calls host 0 (directTargets input located claims { Acc.empty with erasedIds := erased })) := by
  unfold eraseSemantic
  have hnone : ∀ c : ControlState, Suppressed host ⟨c,[]⟩ := fun c id hid => by cases hid
  cases hc : claimsOf host input located.evidenceTargets with
  | error e =>
    refine ⟨fun _ claims erased keys left h => ?_,fun _ => hnone control⟩
    cases h
  | ok claims =>
    dsimp only
    have hpurged := delete_claims_purged host 0 claims located.acc ⟨control,[]⟩
    have hanswers := delete_claims_answers host 0 claims located.acc ⟨control,[]⟩
    rw [hempty] at hanswers
    rcases hd : deleteClaims host 0 claims located.acc ⟨control,[]⟩ with ⟨o,w⟩
    rw [hd] at hpurged hanswers
    obtain ⟨c',purged⟩ := w
    cases hpurged
    cases o with
    | error halt =>
      refine ⟨fun _ cl erased keys left h h' => ?_,fun _ => hnone c'⟩
      cases h
      cases hanswers.symm.trans h'
    | ok acc =>
      obtain ⟨keys,hkeys,hsuppressed⟩ := hanswers
      have hmain := purge_and_save_suppressed host located.ownedConcepts
        (directTargets input located claims acc) acc c'
      rw [hsuppressed] at hmain
      dsimp only
      rw [hmain]
      constructor
      · intro h cl erased keys' left hcl hdl
        cases hcl
        cases hkeys.symm.trans hdl
        exact h
      · intro h
        exact h claims acc.erasedIds keys c' rfl hkeys

theorem locate_empty (input : ForgetInput) (located : Located)
    (h : locate host input = .ok located) : located.acc.erasedIds = [] := by
  unfold locate at h
  split at h
  · cases hs : host.stagedSource with
    | error e => simp [hs, bind, Except.bind] at h
    | ok source =>
      cases ht : host.targetsOfSource with
      | error e => simp [hs, ht, bind, Except.bind] at h
      | ok targets =>
        simp only [hs, ht, bind, Except.bind, pure, Except.pure] at h
        split at h <;> cases h <;> rfl
  · split at h
    · cases h
    split at h
    · cases h
    · cases h
      rfl
    · cases h

/-- A semantic forget has the source keys of every Evidence it purged directly
in the suppressed set exactly when its purges are covered. -/
theorem forget_suppresses_iff (host : Host) (receiptRef target : String) (control : ControlState) :
    Suppressed host (erase host receiptRef ⟨target,.semantic⟩ ⟨control,[]⟩).2 ↔ CoveredForget host
    ⟨target,.semantic⟩ control := by
  rw [erase_world]
  unfold CoveredForget
  cases hl : locate host ⟨target,.semantic⟩ with
  | error e =>
    refine ⟨fun _ located claims erased keys left h => ?_,fun _ id hid => ?_⟩
    · cases h
    · cases hid
  | ok located =>
    dsimp only
    rw [erase_semantic_suppressed host _ located (locate_empty host _ located hl)]
    constructor
    · intro h loc claims erased keys left hloc
      cases hloc
      exact h claims erased keys left
    · intro h claims erased keys left
      exact h located claims erased keys left rfl

/-- A staged source with two captured Evidence elements that no claim cites; the
second one is on legal hold. -/
def heldHost : Host where
  parseId id := if startsWithText id "E-" then some .evidence else none
  sourceKeys id := if id = "E-1" then {"formation:7"} else ∅
  stagedSource := .ok ⟨"src-1","sha256:ab"⟩
  targetsOfSource := .ok ⟨["E-1","E-2"],[],{"formation:7"},false⟩
  targetElement := .error notFound
  assertionsOn := .ok []
  assertionsCiting _ := .ok []
  deletions _ := ⟨.error "not_found",ControlState.default,false⟩
  payloads _ := .ok (.succeeded [])
  answers i := if i = 0 then ⟨.ok (.live "active"),none,none,none,.ok (.succeeded ["E-1"]),true⟩
    else ⟨.ok (.live "active"),none,none,none,.ok (.failed "LegalHoldConflict: retained"),false⟩
  save := none
  eraseStaged _ := none
  scrubConversation _ := .ok true
  scrubRecall := .ok 0
  memorySeq := .ok 4
  deliveredBases := []
  validatePlan := none
  putPlan := none

theorem held_second_evidence_leaves_first_unsuppressed : ¬Suppressed heldHost
    (erase heldHost "rcpt-1" ⟨"src-1",.semantic⟩ ⟨ControlState.default,[]⟩).2 := by
  unfold Suppressed
  decide +kernel

end AndaBrain.Forget
