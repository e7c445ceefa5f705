import AndaBrain.Json
import AndaBrain.Foundation.Windows
import Mathlib.Data.String.Basic

/-!
# Due Commitments on their way to attention

`raise_due_commitments` of `settlement/mod.rs` reads the first due Commitments that no Watch
watches and creates one `commitment_review` Activity for each.
-/

set_option autoImplicit false

namespace AndaBrain.CommitmentReview
open Foundation.Windows

def commitmentReviewLimit : ℕ := 50

structure Clock where
  timestamp : ℕ → String
  timeMs : String → Option ℕ

/-- A Commitment as the query reads it. Element ids are a letter, a dash and digits. -/
structure Commitment where
  id : String
  status : String
  dueAt : Option String
  watched : Bool
  plain : ':' ∉ id.toList
  deriving DecidableEq

/-- `pending` or `blocked`, with a due time, and watched by no Watch. -/
def awaiting (c : Commitment) : Bool :=
  (c.status == "pending" || c.status == "blocked") && c.dueAt.isSome && !c.watched

def dueKey (c : Commitment) : String := c.dueAt.getD ""

/-- The rows of `DUE_COMMITMENTS`: due times are compared as texts. -/
def dueCommitments (rows : List Commitment) (now : String) : List Commitment :=
  rows.filter fun c => awaiting c && decide (dueKey c ≤ now)

structure Activity where
  clientKey : String
  activityClass : String
  status : String
  startedAt : String
  endedAt : String
  inputs : List String
  deriving DecidableEq

structure CommitmentSettlement where
  due : ℕ
  raised : ℕ
  error : Option String
  deriving DecidableEq

/-- How a creation ends: answered, carried out while its answer is lost, or refused. -/
inductive Write where
  | answered
  | lost (error : String)
  | refused (error : String)
  deriving DecidableEq

/-- What one call meets: its time, the error of its query, and the end of each write. -/
structure Call where
  nowMs : ℕ
  failure : Option String
  write : String → Write

def reviewKey (id dueAt : String) : String := "commitment_review:"++id++":"++dueAt

def review (id dueAt now : String) : Activity where
  clientKey := reviewKey id dueAt
  activityClass := "commitment_review"
  status := "completed"
  startedAt := now
  endedAt := now
  inputs := [id]

def create (activities : List Activity) (a : Activity) : List Activity × Bool :=
  if a.clientKey ∈ activities.map Activity.clientKey then (activities,false)
  else (activities++[a],true)

def readRow (row : Json) : Option (String × String) := do
  let columns ← row.asArray
  let id ← columns[0]? >>= Json.asStr
  let dueAt ← columns[1]? >>= Json.asStr
  pure (id,dueAt)

def raiseRow (clock : Clock) (call : Call) (acc : List Activity × CommitmentSettlement)
    (row : Json) : List Activity × CommitmentSettlement :=
  match readRow row with
  | none => acc
  | some (id,dueAt) =>
    if (clock.timeMs dueAt).all fun due => decide (call.nowMs < due) then acc
    else
      let report := { acc.2 with due := acc.2.due+1 }
      let (activities,created) := create acc.1 (review id dueAt (clock.timestamp call.nowMs))
      match call.write (reviewKey id dueAt) with
      | .answered => (activities,if created then { report with raised := report.raised+1 } else report)
      | .lost error => (activities,{ report with error := some error })
      | .refused error => (acc.1,{ report with error := some error })

def raiseDueCommitments (clock : Clock) (call : Call) (reply : Except String (Option Json))
    (activities : List Activity) : List Activity × CommitmentSettlement :=
  match reply with
  | .error error => (activities,⟨0,0,some error⟩)
  | .ok result =>
    ((result.bind Json.asArray).getD []).foldl (raiseRow clock call) (activities,⟨0,0,none⟩)

structure Backlog where
  rows : List Commitment
  distinct : (rows.map Commitment.id).Nodup

def renderRow (c : Commitment) : Json := .arr [.str c.id,c.dueAt.elim .null .str]

def reply (call : Call) (answer : List Commitment) : Except String (Option Json) :=
  match call.failure with
  | some error => .error error
  | none => .ok (some (.arr ((answer.take commitmentReviewLimit).map renderRow)))

def reviews (clock : Clock) (calls : ℕ → Call) (answers : ℕ → List Commitment) :
    ℕ → List Activity
  | 0 => []
  | n+1 => (raiseDueCommitments clock (calls n) (reply (calls n) (answers n))
      (reviews clock calls answers n)).1

def Answered (clock : Clock) (backlog : Backlog) (calls : ℕ → Call)
    (answers : ℕ → List Commitment) : Prop :=
  ∀ n, Arranges dueKey (dueCommitments backlog.rows (clock.timestamp (calls n).nowMs)) (answers n)

structure Due (clock : Clock) (backlog : Backlog) (calls : ℕ → Call) (c : Commitment)
    (dueAt : String) : Prop where
  mem : c ∈ backlog.rows
  status : awaiting c = true
  dated : c.dueAt = some dueAt
  passed : ∃ due, clock.timeMs dueAt = some due ∧ ∀ n, due ≤ (calls n).nowMs

def reviewsOf (c : Commitment) (dueAt : String) (activities : List Activity) : ℕ :=
  activities.countP fun a => a.clientKey == reviewKey c.id dueAt &&
    a.activityClass == "commitment_review" && a.inputs == [c.id]

def Raised (clock : Clock) (calls : ℕ → Call) (answers : ℕ → List Commitment)
    (c : Commitment) (dueAt : String) : Prop :=
  ∃ N, ∀ n, N ≤ n → reviewsOf c dueAt (reviews clock calls answers n) = 1

structure Reached (clock : Clock) (backlog : Backlog) (calls : ℕ → Call) (c : Commitment)
    (dueAt : String) : Prop where
  few : (upTo dueKey (backlog.rows.filter awaiting) dueAt).length ≤ commitmentReviewLimit
  read : ∃ n, (calls n).failure = none ∧ dueAt ≤ clock.timestamp (calls n).nowMs ∧
    ∀ error, (calls n).write (reviewKey c.id dueAt) ≠ .refused error

section Keys

theorem colon_split (a b d e : List Char) (ha : ':' ∉ a) (hb : ':' ∉ b)
    (h : a++ ':'::d = b++ ':'::e) : a = b ∧ d = e := by
  induction a generalizing b with
  | nil =>
    cases b with
    | nil => exact ⟨rfl,(List.cons.inj h).2⟩
    | cons x b =>
      have hx : ':' = x := (List.cons.inj h).1
      exact absurd (hx ▸ List.mem_cons_self ..) hb
  | cons x a ih =>
    cases b with
    | nil =>
      have hx : x = ':' := (List.cons.inj h).1
      exact absurd (hx ▸ List.mem_cons_self ..) ha
    | cons y b =>
      obtain ⟨hxy,hrest⟩ := List.cons.inj h
      have := ih b (by simp_all) (by simp_all) hrest
      simp [hxy, this]

theorem key_shape (id dueAt : String) : (reviewKey id dueAt).toList =
    "commitment_review:".toList++(id.toList++ ':'::dueAt.toList) := by
  have hcolon : ":".toList = [':'] := by decide
  delta reviewKey
  rw [String.toList_append, String.toList_append, String.toList_append, List.append_assoc,
    List.append_assoc, hcolon]
  rfl

theorem review_key_injective (a b : Commitment) (d e : String)
    (h : reviewKey a.id d = reviewKey b.id e) : a.id = b.id ∧ d = e := by
  have hl := congrArg String.toList h
  rw [key_shape, key_shape] at hl
  generalize "commitment_review:".toList = front at hl
  have hsplit := colon_split a.id.toList b.id.toList d.toList e.toList a.plain b.plain
    (List.append_cancel_left hl)
  exact ⟨String.toList_injective hsplit.1,String.toList_injective hsplit.2⟩

theorem same_commitment (backlog : Backlog) (a b : Commitment) (ha : a ∈ backlog.rows)
    (hb : b ∈ backlog.rows) (h : a.id = b.id) : a = b :=
  List.inj_on_of_nodup_map backlog.distinct ha hb h

end Keys

section Writes
variable {clock : Clock} {call : Call} {s : Commitment → Prop}

structure Sound (s : Commitment → Prop) (activities : List Activity) : Prop where
  keys : (activities.map Activity.clientKey).Nodup
  origin : ∀ a ∈ activities, ∃ c dueAt now, s c ∧ c.dueAt = some dueAt ∧ a = review c.id dueAt now

theorem create_sound (activities : List Activity) (c : Commitment) (dueAt now : String)
    (h : Sound s activities) (hc : s c) (hd : c.dueAt = some dueAt) :
    Sound s (create activities (review c.id dueAt now)).1 := by
  rw [create]
  by_cases hkey : (review c.id dueAt now).clientKey ∈ activities.map Activity.clientKey
  · simp only [hkey, if_true]
    exact h
  simp only [hkey, if_false]
  constructor
  · rw [List.map_append, List.nodup_append]
    refine ⟨h.keys,List.nodup_singleton _,?_⟩
    intro k hk k' hk' heq
    rw [heq, List.mem_singleton.mp hk'] at hk
    exact hkey hk
  · intro a ha
    rcases List.mem_append.mp ha with ha | ha
    · exact h.origin a ha
    · exact ⟨c,dueAt,now,hc,hd,List.mem_singleton.mp ha⟩

theorem create_key (activities : List Activity) (a : Activity) :
    a.clientKey ∈ (create activities a).1.map Activity.clientKey := by
  rw [create]
  by_cases hkey : a.clientKey ∈ activities.map Activity.clientKey <;> simp [hkey]

theorem create_grows (activities : List Activity) (a : Activity) :
    activities <+: (create activities a).1 := by
  rw [create]
  by_cases hkey : a.clientKey ∈ activities.map Activity.clientKey <;> simp [hkey]

theorem read_render (c : Commitment) (dueAt : String) (hd : c.dueAt = some dueAt) :
    readRow (renderRow c) = some (c.id,dueAt) := by
  simp [readRow, renderRow, hd, Json.asArray, Json.asStr]

variable (clock call) in
theorem raise_row_cases (acc : List Activity × CommitmentSettlement) (c : Commitment)
    (dueAt : String) (hd : c.dueAt = some dueAt) :
    (raiseRow clock call acc (renderRow c)).1 = acc.1 ∨
    ((∀ error, call.write (reviewKey c.id dueAt) ≠ .refused error) ∧
      (raiseRow clock call acc (renderRow c)).1 =
        (create acc.1 (review c.id dueAt (clock.timestamp call.nowMs))).1) := by
  simp only [raiseRow, read_render c dueAt hd]
  by_cases hlate : (clock.timeMs dueAt).all fun due => decide (call.nowMs < due)
  · simp [hlate]
  simp only [hlate, Bool.false_eq_true, if_false]
  cases hw : call.write (reviewKey c.id dueAt) with
  | answered => exact .inr ⟨fun error => by simp,rfl⟩
  | lost error => exact .inr ⟨fun error => by simp,rfl⟩
  | refused error => exact .inl rfl

variable (clock call) in
theorem raise_row_due (acc : List Activity × CommitmentSettlement) (c : Commitment)
    (dueAt : String) (due : ℕ) (hd : c.dueAt = some dueAt) (htime : clock.timeMs dueAt = some due)
    (hdue : due ≤ call.nowMs) (hw : ∀ error, call.write (reviewKey c.id dueAt) ≠ .refused error) :
    reviewKey c.id dueAt ∈ (raiseRow clock call acc (renderRow c)).1.map Activity.clientKey := by
  have hlate : (clock.timeMs dueAt).all (fun due => decide (call.nowMs < due)) = false := by
    simp [htime, hdue]
  simp only [raiseRow, read_render c dueAt hd, hlate, Bool.false_eq_true, if_false]
  cases hcase : call.write (reviewKey c.id dueAt) with
  | answered => exact create_key acc.1 (review c.id dueAt (clock.timestamp call.nowMs))
  | lost error => exact create_key acc.1 (review c.id dueAt (clock.timestamp call.nowMs))
  | refused error => exact absurd hcase (hw error)

theorem raise_rows_grow (rows : List Commitment) (hd : ∀ c ∈ rows, c.dueAt.isSome)
    (acc : List Activity × CommitmentSettlement) :
    acc.1 <+: ((rows.map renderRow).foldl (raiseRow clock call) acc).1 := by
  induction rows generalizing acc with
  | nil => exact List.prefix_refl _
  | cons c rows ih =>
    obtain ⟨dueAt,hdue⟩ := Option.isSome_iff_exists.mp (hd c (by simp))
    have hrest := ih (fun c hc => hd c (by simp [hc])) (raiseRow clock call acc (renderRow c))
    have hfirst : acc.1 <+: (raiseRow clock call acc (renderRow c)).1 := by
      rcases raise_row_cases clock call acc c dueAt hdue with h | ⟨-,h⟩
      · exact ⟨[],by rw [h, List.append_nil]⟩
      · rw [h]
        exact create_grows _ _
    exact hfirst.trans hrest

theorem raise_rows_sound (rows : List Commitment) (hd : ∀ c ∈ rows, c.dueAt.isSome)
    (hs : ∀ c ∈ rows, s c ∨ ∃ dueAt error, c.dueAt = some dueAt ∧
      call.write (reviewKey c.id dueAt) = .refused error)
    (acc : List Activity × CommitmentSettlement) (h : Sound s acc.1) :
    Sound s ((rows.map renderRow).foldl (raiseRow clock call) acc).1 := by
  induction rows generalizing acc with
  | nil => exact h
  | cons c rows ih =>
    apply ih (fun c hc => hd c (by simp [hc])) (fun c hc => hs c (by simp [hc]))
    obtain ⟨dueAt,hdue⟩ := Option.isSome_iff_exists.mp (hd c (by simp))
    rcases raise_row_cases clock call acc c dueAt hdue with hcase | ⟨hw,hcase⟩
    · rwa [hcase]
    rw [hcase]
    rcases hs c (by simp) with hc | ⟨dueAt',error,hdue',hw'⟩
    · exact create_sound acc.1 c dueAt _ h hc hdue
    · rw [hdue] at hdue'
      cases hdue'
      exact absurd hw' (hw error)

theorem raise_rows_due (rows : List Commitment) (hd : ∀ c ∈ rows, c.dueAt.isSome)
    (acc : List Activity × CommitmentSettlement) (c : Commitment) (hc : c ∈ rows) (dueAt : String)
    (due : ℕ) (hdue : c.dueAt = some dueAt) (htime : clock.timeMs dueAt = some due)
    (hpast : due ≤ call.nowMs) (hw : ∀ error, call.write (reviewKey c.id dueAt) ≠ .refused error) :
    reviewKey c.id dueAt ∈ ((rows.map renderRow).foldl (raiseRow clock call) acc).1.map
    Activity.clientKey := by
  induction rows generalizing acc with
  | nil => cases hc
  | cons first rows ih =>
    have hrest : ∀ c ∈ rows, c.dueAt.isSome := fun c hc => hd c (by simp [hc])
    rcases List.mem_cons.mp hc with rfl | hc
    · have hkey := raise_row_due clock call acc c dueAt due hdue htime hpast hw
      exact ((raise_rows_grow rows hrest _).map Activity.clientKey).subset hkey
    · exact ih hrest _ hc

end Writes

section Calls
variable {clock : Clock} {backlog : Backlog} {calls : ℕ → Call} {answers : ℕ → List Commitment}

def rowsAt (calls : ℕ → Call) (answers : ℕ → List Commitment) (n : ℕ) : List Commitment :=
  if (calls n).failure = none then (answers n).take commitmentReviewLimit else []

theorem reviews_succ (n : ℕ) : reviews clock calls answers (n+1) =
    (((rowsAt calls answers n).map renderRow).foldl (raiseRow clock (calls n))
      (reviews clock calls answers n,⟨0,0,(calls n).failure⟩)).1 := by
  rw [reviews, reply, rowsAt]
  cases hf : (calls n).failure with
  | some error => rfl
  | none => rfl

theorem rows_at_mem (h : Answered clock backlog calls answers) (n : ℕ) (c : Commitment)
    (hc : c ∈ rowsAt calls answers n) : c ∈ backlog.rows ∧ awaiting c = true ∧ dueKey c ≤
    clock.timestamp (calls n).nowMs := by
  rw [rowsAt] at hc
  by_cases hf : (calls n).failure = none
  · rw [if_pos hf] at hc
    have hmem := ((h n).perm.mem_iff).mp (List.mem_of_mem_take hc)
    simpa [dueCommitments] using hmem
  · rw [if_neg hf] at hc
    cases hc

theorem awaiting_due (c : Commitment) (h : awaiting c = true) : c.dueAt.isSome := by
  simp only [awaiting, Bool.and_eq_true] at h
  exact h.1.2

theorem rows_at_due (h : Answered clock backlog calls answers) (n : ℕ) :
    ∀ c ∈ rowsAt calls answers n, c.dueAt.isSome :=
  fun c hc => awaiting_due c (rows_at_mem h n c hc).2.1

theorem reviews_grow (h : Answered clock backlog calls answers) (m n : ℕ) (hmn : m ≤ n) :
    reviews clock calls answers m <+: reviews clock calls answers n := by
  induction n, hmn using Nat.le_induction with
  | base => exact List.prefix_refl _
  | succ n _ ih =>
    rw [reviews_succ]
    exact ih.trans (raise_rows_grow _ (rows_at_due h n)
      (reviews clock calls answers n,⟨0,0,(calls n).failure⟩))

theorem reviews_sound (s : Commitment → Prop) (h : Answered clock backlog calls answers)
    (hs : ∀ n, ∀ c ∈ rowsAt calls answers n, s c ∨ ∃ dueAt error, c.dueAt = some dueAt ∧
      (calls n).write (reviewKey c.id dueAt) = .refused error) (n : ℕ) :
    Sound s (reviews clock calls answers n) := by
  induction n with
  | zero =>
    refine ⟨List.nodup_nil,?_⟩
    intro a ha
    cases ha
  | succ n ih =>
    rw [reviews_succ]
    exact raise_rows_sound _ (rows_at_due h n) (hs n) _ ih

theorem reviews_in_backlog (h : Answered clock backlog calls answers) (n : ℕ) :
    Sound (fun c => c ∈ backlog.rows) (reviews clock calls answers n) :=
  reviews_sound _ h (fun n c hc => .inl (rows_at_mem h n c hc).1) n

theorem reviews_of_key (activities : List Activity) (c : Commitment) (dueAt : String)
    (hs : Sound (fun c => c ∈ backlog.rows) activities) :
    reviewsOf c dueAt activities = (activities.map Activity.clientKey).count (reviewKey c.id dueAt) := by
  rw [reviewsOf, List.count, List.countP_map]
  apply List.countP_congr
  intro a ha
  obtain ⟨other,due,now,hother,hdue,rfl⟩ := hs.origin a ha
  simp only [review, beq_self_eq_true, Bool.and_true, Function.comp_apply, Bool.and_eq_true,
    beq_iff_eq, and_iff_left_iff_imp]
  intro hkey
  rw [(review_key_injective other c due dueAt hkey).1]

theorem raised_once (h : Answered clock backlog calls answers) (n : ℕ) (c : Commitment)
    (dueAt : String)
    (hkey : reviewKey c.id dueAt ∈ (reviews clock calls answers n).map Activity.clientKey) :
    reviewsOf c dueAt (reviews clock calls answers n) = 1 := by
  have hs := reviews_in_backlog h n
  rw [reviews_of_key _ c dueAt hs]
  exact List.count_eq_one_of_mem hs.keys hkey

theorem up_to_due (dueAt now : String) (hle : dueAt ≤ now) : upTo dueKey
    (dueCommitments backlog.rows now) dueAt = upTo dueKey (backlog.rows.filter awaiting) dueAt := by
  rw [upTo, upTo, dueCommitments, List.filter_filter, List.filter_filter]
  apply List.filter_congr
  intro other _
  by_cases hother : dueKey other ≤ dueAt
  · simp [hother, hother.trans hle]
  · simp [hother]

theorem reached_raised (h : Answered clock backlog calls answers) (c : Commitment)
    (dueAt : String) (due : Due clock backlog calls c dueAt)
    (reached : Reached clock backlog calls c dueAt) : Raised clock calls answers c dueAt := by
  obtain ⟨n,hf,hle,hw⟩ := reached.read
  obtain ⟨t,htime,hpast⟩ := due.passed
  have hkey : dueKey c = dueAt := by simp [dueKey, due.dated]
  have hmem : c ∈ dueCommitments backlog.rows (clock.timestamp (calls n).nowMs) := by
    simp [dueCommitments, due.mem, due.status, hkey, hle]
  have hrow : c ∈ rowsAt calls answers n := by
    rw [rowsAt, if_pos hf]
    apply in_window dueKey _ _ c commitmentReviewLimit (h n) hmem
    rw [hkey, up_to_due dueAt _ hle]
    exact reached.few
  refine ⟨n+1,?_⟩
  intro m hm
  apply raised_once h m c dueAt
  apply ((reviews_grow h (n+1) m hm).map Activity.clientKey).subset
  rw [reviews_succ]
  exact raise_rows_due _ (rows_at_due h n) _ c hrow dueAt t due.dated htime (hpast n) hw

theorem kept_out (h : Answered clock backlog calls answers) (c : Commitment) (dueAt : String)
    (due : Due clock backlog calls c dueAt)
    (hout : ∀ n, c ∈ rowsAt calls answers n →
      ∃ error, (calls n).write (reviewKey c.id dueAt) = .refused error) (n : ℕ) :
    reviewsOf c dueAt (reviews clock calls answers n) = 0 := by
  have hs := reviews_sound (fun other => other ∈ backlog.rows ∧ other ≠ c) h (by
    intro n other hother
    by_cases heq : other = c
    · obtain ⟨error,hw⟩ := hout n (heq ▸ hother)
      exact .inr ⟨dueAt,error,heq ▸ due.dated,heq ▸ hw⟩
    · exact .inl ⟨(rows_at_mem h n other hother).1,heq⟩) n
  rw [reviews_of_key _ c dueAt (reviews_in_backlog h n), List.count_eq_zero]
  intro hkey
  obtain ⟨a,ha,hak⟩ := List.mem_map.mp hkey
  obtain ⟨other,due',now,⟨hother,hne⟩,-,rfl⟩ := hs.origin a ha
  exact hne (same_commitment backlog other c hother due.mem
    (review_key_injective other c due' dueAt hak).1)

theorem rows_nodup (backlog : Backlog) (now : String) : (dueCommitments backlog.rows now).Nodup :=
  (List.Nodup.of_map _ backlog.distinct).filter _

def lastAnswers (clock : Clock) (backlog : Backlog) (calls : ℕ → Call) (c : Commitment) (n : ℕ) :
    List Commitment :=
  let rows := dueCommitments backlog.rows (clock.timestamp (calls n).nowMs)
  if c ∈ rows then latest dueKey rows c else rows.insertionSort fun a b => dueKey a ≤ dueKey b

variable (clock backlog calls) in
theorem last_answered (c : Commitment) :
    Answered clock backlog calls (lastAnswers clock backlog calls c) := by
  intro n
  rw [lastAnswers]
  by_cases hc : c ∈ dueCommitments backlog.rows (clock.timestamp (calls n).nowMs)
  · simp only [hc, if_true]
    exact latest_arranges dueKey _ c (rows_nodup backlog _) hc
  · simp only [hc, if_false]
    exact ⟨List.perm_insertionSort _ _,sorted_by dueKey _⟩

theorem last_starves (c : Commitment) (dueAt : String) (due : Due clock backlog calls c dueAt)
    (many : commitmentReviewLimit < (upTo dueKey (backlog.rows.filter awaiting) dueAt).length)
    (n : ℕ) : reviewsOf c dueAt (reviews clock calls (lastAnswers clock backlog calls c) n) = 0 :=
    by
  apply kept_out (last_answered clock backlog calls c) c dueAt due
  intro n hrow
  exfalso
  have hmem := rows_at_mem (last_answered clock backlog calls c) n c hrow
  have hkey : dueKey c = dueAt := by simp [dueKey, due.dated]
  have hc : c ∈ dueCommitments backlog.rows (clock.timestamp (calls n).nowMs) := by
    simpa [dueCommitments] using hmem
  rw [rowsAt] at hrow
  by_cases hf : (calls n).failure = none
  · rw [if_pos hf, lastAnswers] at hrow
    simp only [hc, if_true] at hrow
    apply beyond_window dueKey _ c commitmentReviewLimit (rows_nodup backlog _) hc _ hrow
    rw [hkey, up_to_due dueAt _ (hkey ▸ hmem.2.2)]
    exact many
  · rw [if_neg hf] at hrow
    cases hrow

end Calls

/-- Every due Commitment is raised exactly once, however rows of one due time are
arranged, if and only if each of them stands among the first fifty by its due time and
some call reads it as due and carries its write out. -/
theorem due_commitments_raised_iff (clock : Clock) (backlog : Backlog) (calls : ℕ → Call) :
    (∀ answers, Answered clock backlog calls answers → ∀ c dueAt,
      Due clock backlog calls c dueAt → Raised clock calls answers c dueAt) ↔
    (∀ c dueAt, Due clock backlog calls c dueAt → Reached clock backlog calls c dueAt) := by
  constructor
  · intro h c dueAt due
    have hlast := last_answered clock backlog calls c
    obtain ⟨N,hN⟩ := h _ hlast c dueAt due
    constructor
    · by_contra hmany
      have := last_starves c dueAt due (not_le.mp hmany) N
      rw [hN N le_rfl] at this
      cases this
    by_contra hread
    have hzero := kept_out hlast c dueAt due (by
      intro n hrow
      by_contra hw
      apply hread
      have hkey : dueKey c = dueAt := by simp [dueKey, due.dated]
      refine ⟨n,?_,hkey ▸ (rows_at_mem hlast n c hrow).2.2,fun error he => hw ⟨error,he⟩⟩
      by_contra hf
      rw [rowsAt, if_neg hf] at hrow
      cases hrow) N
    rw [hN N le_rfl] at hzero
    cases hzero
  · intro h answers hanswered c dueAt due
    exact reached_raised hanswered c dueAt due (h c dueAt due)

section Starved

def overdue (n : ℕ) : Option Commitment :=
  if h : ':' ∉ ("C-"++toString n).toList then
    some ⟨"C-"++toString n,"pending",
      some (if n < 50 then "2025-01-01T00:00:00.000Z" else "2025-01-02T00:00:00.000Z"),false,h⟩
  else none

def longBacklog : Backlog where
  rows := (List.range 51).filterMap overdue
  distinct := by decide +kernel

def newYear : Clock where
  timestamp _ := "2026-01-01T00:00:00.000Z"
  timeMs text := if text = "2025-01-01T00:00:00.000Z" then some 1735689600000 else
    if text = "2025-01-02T00:00:00.000Z" then some 1735776000000 else none

def nextDay : Commitment :=
  ⟨"C-50","pending",some "2025-01-02T00:00:00.000Z",false,by decide⟩

def calm : Call := ⟨1767225600000,none,fun _ => .answered⟩

/-- The last Commitment stays behind the fifty others in every answer. -/
theorem late_commitment_starves : ¬∀ answers, Answered newYear longBacklog (fun _ => calm) answers →
    ∀ c dueAt, Due newYear longBacklog (fun _ => calm) c dueAt →
      Raised newYear (fun _ => calm) answers c dueAt := by
  intro h
  have hmany : commitmentReviewLimit < (upTo dueKey (longBacklog.rows.filter awaiting)
      "2025-01-02T00:00:00.000Z").length := by decide +kernel
  have hdue : Due newYear longBacklog (fun _ => calm)
      nextDay "2025-01-02T00:00:00.000Z" :=
    ⟨by decide +kernel,by decide,rfl,1735776000000,by decide,fun _ => by decide⟩
  obtain ⟨N,hN⟩ := h _ (last_answered _ _ _ _) _ _ hdue
  have hzero := last_starves _ _ hdue hmany N
  rw [hN N le_rfl] at hzero
  cases hzero

end Starved

end AndaBrain.CommitmentReview
