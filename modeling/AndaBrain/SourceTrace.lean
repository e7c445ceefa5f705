import AndaBrain.FormationQueue

/-!
# The trace of a Formation pass

`memory_interface/intake.rs`: what a pass committed, folded from the responses to its writes.
-/

set_option autoImplicit false

namespace AndaBrain.SourceForget
open FormationQueue (ConversationStatus)

def maxTraceRefs : ℕ := 128

structure TraceData where
  maxSeq : Option ℕ
  formed : List String
  created : List String
  evidence : List String
  assertions : List String
  revisions : ℕ
  deriving DecidableEq

def TraceData.default : TraceData := ⟨none,[],[],[],[],0⟩

def pushRef (list : List String) (id : String) : List String :=
  if list.length < maxTraceRefs ∧ id ∉ list then list++[id] else list

structure CommitReceipt where
  committed : Bool
  spaceSeq : Option ℕ

def CommitReceipt.seq (receipt : CommitReceipt) : Option ℕ :=
  if receipt.committed then receipt.spaceSeq else none

structure Change where
  id : Option String
  kind : Option String
  op : Option String

structure OperationResult where
  succeeded : Bool
  receipt : Option CommitReceipt
  changes : List Change

structure Response where
  receipt : Option CommitReceipt
  results : List OperationResult

def Response.seqs (response : Response) : List ℕ :=
  (response.receipt.toList++response.results.filterMap OperationResult.receipt).filterMap
    CommitReceipt.seq

def TraceData.noteCreated (trace : TraceData) (op id : String) : TraceData :=
  if op = "create" then { trace with created := pushRef trace.created id } else trace

def TraceData.noteChange (trace : TraceData) (change : Change) : TraceData :=
  match change.id, change.kind, change.op with
  | some id, some kind, some op =>
    if op = "noop" then trace
    else
      let trace := trace.noteCreated op id
      if kind = "evidence" then { trace with evidence := pushRef trace.evidence id }
      else if kind = "assertion" ∧ op = "create" then
        { trace with
          assertions := pushRef trace.assertions id
          formed := pushRef trace.formed id }
      else { trace with formed := pushRef trace.formed id }
  | _, _, _ => trace

/-- The Evidence that a change names. -/
def Change.evidence? (change : Change) : Option String :=
  match change.id, change.kind, change.op with
  | some id, some kind, some op => if kind = "evidence" ∧ op ≠ "noop" then some id else none
  | _, _, _ => none

/-- The Evidence that the successful operations of a response report. -/
def Response.evidence (response : Response) : List String :=
  (response.results.filter OperationResult.succeeded).flatMap fun result =>
    result.changes.filterMap Change.evidence?

def TraceData.noteResult (trace : TraceData) (result : OperationResult) : TraceData :=
  if result.succeeded then result.changes.foldl TraceData.noteChange trace else trace

def TraceData.reach (trace : TraceData) (seqs : List ℕ) : TraceData :=
  { trace with maxSeq := seqs.foldl (fun newest seq => some (newest.elim seq (max · seq))) trace.maxSeq }

/-- Folds one successful write response into the trace. `revisions` counts the lifecycle moves
that the request writes on existing claims. -/
def TraceData.record (trace : TraceData) (revisions : ℕ) (response : Response) : TraceData :=
  if response.seqs = [] then trace
  else
    let trace := trace.reach response.seqs
    let trace := response.results.foldl TraceData.noteResult trace
    { trace with revisions := trace.revisions+revisions }

/-- A conversation: its status, and the trace its `extra` carries. -/
structure Conversation where
  status : ConversationStatus
  trace : TraceData

/-- Copies the trace into the conversation, so it persists with the snapshot that completes it. -/
def Conversation.keepTrace (conversation : Conversation) (trace : TraceData) : Conversation :=
  if trace = TraceData.default then conversation else { conversation with trace }

structure Extends (trace next : TraceData) : Prop where
  formed : trace.formed <+: next.formed
  created : trace.created <+: next.created
  evidence : trace.evidence <+: next.evidence

variable (trace : TraceData)

theorem Extends.refl : Extends trace trace :=
  ⟨List.prefix_refl _,List.prefix_refl _,List.prefix_refl _⟩

theorem Extends.trans {a b c : TraceData} (hab : Extends a b) (hbc : Extends b c) : Extends a c :=
  ⟨hab.formed.trans hbc.formed,hab.created.trans hbc.created,hab.evidence.trans hbc.evidence⟩

theorem push_extends (list : List String) (id : String) : list <+: pushRef list id := by
  unfold pushRef
  by_cases h : list.length < maxTraceRefs ∧ id ∉ list
  · simp [h]
  · simp [h]

def Held (list : List String) (id : String) : Prop := id ∈ list ∨ maxTraceRefs ≤ list.length

theorem push_held (list : List String) (id : String) : Held (pushRef list id) id := by
  unfold pushRef Held
  by_cases hroom : list.length < maxTraceRefs
  · by_cases hin : id ∈ list
    · simp [hin]
    · simp [hroom, hin]
  · right
    simp [hroom]
    omega

theorem held_extends {list next : List String} (id : String) (h : list <+: next)
    (hheld : Held list id) : Held next id := by
  rcases hheld with hin | hfull
  · exact .inl (h.subset hin)
  · right
    have := h.length_le
    omega

theorem note_created_extends (op id : String) : Extends trace
    (trace.noteCreated op id) ∧ (trace.noteCreated op id).formed = trace.formed ∧
    (trace.noteCreated op id).evidence = trace.evidence := by
  unfold TraceData.noteCreated
  by_cases h : op = "create"
  · simp only [h, if_true, and_self, and_true]
    exact ⟨List.prefix_refl _,push_extends _ _,List.prefix_refl _⟩
  · simp only [h, if_false, and_self, and_true]
    exact Extends.refl trace

theorem note_change_extends (change : Change) : Extends trace (trace.noteChange change) := by
  unfold TraceData.noteChange
  split
  · rename_i id kind op _ _ _
    obtain ⟨h,hformed,hevidence⟩ := note_created_extends trace op id
    split
    · exact Extends.refl trace
    dsimp only
    split
    · exact ⟨h.formed,h.created,h.evidence.trans (push_extends _ _)⟩
    · split
      · exact ⟨h.formed.trans (push_extends _ _),h.created,h.evidence⟩
      · exact ⟨h.formed.trans (push_extends _ _),h.created,h.evidence⟩
  · exact Extends.refl trace

theorem note_change_formed (id kind op : String) (hop : op ≠ "noop") (hkind : kind ≠ "evidence") :
    Held (trace.noteChange ⟨some id,some kind,some op⟩).formed id := by
  simp only [TraceData.noteChange, hop, hkind, if_false]
  by_cases ha : kind = "assertion" ∧ op = "create"
  · simp only [ha, and_self, if_true]
    exact push_held _ _
  · simp only [ha, if_false]
    exact push_held _ _

theorem fold_changes_extends (changes : List Change) (trace : TraceData) :
    Extends trace (changes.foldl TraceData.noteChange trace) := by
  induction changes generalizing trace with
  | nil => exact Extends.refl trace
  | cons change rest ih => exact (note_change_extends trace change).trans (ih _)

theorem fold_changes_formed (changes : List Change) (trace : TraceData) (id kind op : String)
    (hin : ⟨some id,some kind,some op⟩ ∈ changes) (hop : op ≠ "noop") (hkind : kind ≠ "evidence") :
    Held (changes.foldl TraceData.noteChange trace).formed id := by
  induction changes generalizing trace with
  | nil => simp at hin
  | cons change rest ih =>
    rcases List.mem_cons.mp hin with rfl | hin
    · exact held_extends id (fold_changes_extends rest _).formed
        (note_change_formed trace id kind op hop hkind)
    · exact ih _ hin

theorem note_result_extends (result : OperationResult) :
    Extends trace (trace.noteResult result) := by
  unfold TraceData.noteResult
  by_cases h : result.succeeded = true
  · simp only [h, if_true]
    exact fold_changes_extends _ _
  · simp only [h]
    exact Extends.refl trace

theorem fold_results_extends (results : List OperationResult) (trace : TraceData) :
    Extends trace (results.foldl TraceData.noteResult trace) := by
  induction results generalizing trace with
  | nil => exact Extends.refl trace
  | cons result rest ih => exact (note_result_extends trace result).trans (ih _)

theorem fold_results_formed (results : List OperationResult) (trace : TraceData)
    (result : OperationResult) (id kind op : String) (hr : result ∈ results)
    (hs : result.succeeded = true) (hin : ⟨some id,some kind,some op⟩ ∈ result.changes)
    (hop : op ≠ "noop") (hkind : kind ≠ "evidence") :
    Held (results.foldl TraceData.noteResult trace).formed id := by
  induction results generalizing trace with
  | nil => simp at hr
  | cons first rest ih =>
    rcases List.mem_cons.mp hr with rfl | hr
    · apply held_extends id (fold_results_extends rest _).formed
      simp only [TraceData.noteResult, hs, if_true]
      exact fold_changes_formed _ _ id kind op hin hop hkind
    · exact ih _ hr

theorem record_extends (revisions : ℕ) (response : Response) :
    Extends trace (trace.record revisions response) := by
  unfold TraceData.record
  by_cases h : response.seqs = []
  · simp only [h, if_true]
    exact Extends.refl trace
  · simp only [h, if_false]
    have hfold := fold_results_extends response.results (trace.reach response.seqs)
    exact ⟨hfold.formed,hfold.created,hfold.evidence⟩

theorem record_formed (revisions : ℕ) (response : Response) (result : OperationResult)
    (id kind : String) (hseq : response.seqs ≠ []) (hr : result ∈ response.results)
    (hs : result.succeeded = true) (hin : ⟨some id,some kind,some "create"⟩ ∈ result.changes)
    (hkind : kind ≠ "evidence") : Held (trace.record revisions response).formed id := by
  simp only [TraceData.record, hseq, if_false]
  exact fold_results_formed _ _ result id kind "create" hr hs hin (by decide) hkind

theorem note_change_evidence (change : Change) : (trace.noteChange change).evidence =
    change.evidence?.elim trace.evidence (pushRef trace.evidence) := by
  unfold TraceData.noteChange Change.evidence?
  split
  · rename_i id kind op _ _ _
    obtain ⟨-,-,hevidence⟩ := note_created_extends trace op id
    by_cases hop : op = "noop"
    · simp [hop]
    by_cases hkind : kind = "evidence"
    · simp [hop, hkind, hevidence]
    · by_cases ha : kind = "assertion" ∧ op = "create"
      · obtain ⟨rfl,rfl⟩ := ha
        simpa using hevidence
      · simp [hop, hkind, ha, hevidence]
  · rfl

theorem fold_changes_evidence (changes : List Change) (trace : TraceData) :
    (changes.foldl TraceData.noteChange trace).evidence =
      (changes.filterMap Change.evidence?).foldl pushRef trace.evidence := by
  induction changes generalizing trace with
  | nil => rfl
  | cons change rest ih =>
    rw [List.foldl_cons, ih, note_change_evidence, List.filterMap_cons]
    cases change.evidence? <;> rfl

theorem fold_results_evidence (results : List OperationResult) (trace : TraceData) :
    (results.foldl TraceData.noteResult trace).evidence =
      ((results.filter OperationResult.succeeded).flatMap fun result =>
        result.changes.filterMap Change.evidence?).foldl pushRef trace.evidence := by
  induction results generalizing trace with
  | nil => rfl
  | cons result rest ih =>
    rw [List.foldl_cons, ih, TraceData.noteResult]
    cases hs : result.succeeded
    · simp [hs]
    · simp [hs, fold_changes_evidence]

theorem push_all_mem (ids list : List String) (h : list.length+ids.length ≤ maxTraceRefs) :
    list ⊆ ids.foldl pushRef list ∧ ids ⊆ ids.foldl pushRef list := by
  induction ids generalizing list with
  | nil => exact ⟨List.Subset.refl _,List.nil_subset _⟩
  | cons id rest ih =>
    rw [List.length_cons] at h
    have hlen : (pushRef list id).length ≤ list.length+1 := by
      unfold pushRef
      split <;> simp
    have hroom : id ∈ pushRef list id := by
      by_cases hin : id ∈ list
      · exact (push_extends list id).subset hin
      · simp [pushRef, hin, show list.length < maxTraceRefs by omega]
    obtain ⟨hlist,hids⟩ := ih (pushRef list id) (by omega)
    rw [List.foldl_cons]
    refine ⟨fun x hx => hlist ((push_extends list id).subset hx),fun x hx => ?_⟩
    rcases List.mem_cons.mp hx with rfl | hx
    · exact hlist hroom
    · exact hids hx

/-- Evidence that a response reports is in the trace after it when all of it finds room. -/
theorem record_evidence (revisions : ℕ) (response : Response) (hseq : response.seqs ≠ [])
    (hroom : trace.evidence.length+response.evidence.length ≤ maxTraceRefs) :
    response.evidence ⊆ (trace.record revisions response).evidence := by
  simp only [TraceData.record, hseq, if_false, fold_results_evidence]
  exact (push_all_mem response.evidence trace.evidence hroom).2

theorem keep_trace_extends (conversation : Conversation) (trace : TraceData) :
    Extends trace (conversation.keepTrace trace).trace := by
  unfold Conversation.keepTrace
  by_cases h : trace = TraceData.default
  · simp only [h, if_true]
    exact ⟨List.nil_prefix,List.nil_prefix,List.nil_prefix⟩
  · simp only [h, if_false]
    exact Extends.refl trace

end AndaBrain.SourceForget
