import AndaBrain.Foundation.Rotation
import AndaBrain.WikiStore

/-!
# The scan over pending documents

`run_pending` of `wiki/digest.rs` attempts one cyclic page of the documents whose digest is
pending and moves its cursor with every attempt.
-/

set_option autoImplicit false

namespace AndaBrain.WikiPending
open Foundation Foundation.Rotation WikiStore

def maxVersionsPerRun : ℕ := 20

structure DigestState where
  wiki : World
  docCursor : ℕ

def pending (doc : WikiDoc) : Bool := doc.digestPending && decide (0 < doc.currentVersion)

def pendingIds (w : World) : List ℕ := w.docs.select fun _ doc => pending doc

/-- One filtered search: the first `limit` rows in the order of their ids. -/
def pendingDocumentsIn (w : World) (idRange : ℕ → Bool) (limit : ℕ) : List (ℕ × WikiDoc) :=
  if limit = 0 then [] else (w.docs.rows.filter fun r => idRange r.1 && pending r.2).take limit

def pendingDocuments (s : DigestState) : List (ℕ × WikiDoc) :=
  let docs := pendingDocumentsIn s.wiki (s.docCursor < ·) maxVersionsPerRun
  let remaining := maxVersionsPerRun-docs.length
  if 0 < remaining then docs++pendingDocumentsIn s.wiki (· ≤ s.docCursor) remaining else docs

abbrev Digest := ℕ × WikiDoc → World → World

def attempt (digest : Digest) (s : DigestState) (doc : ℕ × WikiDoc) : DigestState :=
  ⟨digest doc s.wiki,doc.1⟩

/-- One call: the ids that it attempts, in their order, and what it leaves. -/
def runPending (digest : Digest) (s : DigestState) : List ℕ × DigestState :=
  let docs := pendingDocuments s
  (docs.map Prod.fst,docs.foldl (attempt digest) s)

def runs : List Digest → DigestState → List (List ℕ)
  | [], _ => []
  | digest::calls, s => (runPending digest s).1::runs calls (runPending digest s).2

def KeepsPending (digest : Digest) : Prop := ∀ doc w, pendingIds (digest doc w) = pendingIds w

theorem pending_in_ids (w : World) (p : ℕ → Bool) (limit : ℕ) :
    (pendingDocumentsIn w p limit).map Prod.fst = ((pendingIds w).filter p).take limit := by
  have hrows : (w.docs.rows.filter fun r => p r.1 && pending r.2).map Prod.fst =
      (pendingIds w).filter p := by
    rw [pendingIds, Table.select, List.filter_map, List.filter_filter]
    rfl
  unfold pendingDocumentsIn
  by_cases h : limit = 0
  · simp [h]
  · rw [if_neg h, List.map_take, hrows]

theorem pending_window (s : DigestState) :
    (pendingDocuments s).map Prod.fst = window maxVersionsPerRun (pendingIds s.wiki) s.docCursor := by
  have hfirst := pending_in_ids s.wiki (s.docCursor < ·) maxVersionsPerRun
  have hlen := congrArg List.length hfirst
  rw [List.length_map, List.length_take] at hlen
  rw [window, around, List.take_append, ← hfirst]
  unfold pendingDocuments
  by_cases h : 0 < maxVersionsPerRun-(pendingDocumentsIn s.wiki (s.docCursor < ·) maxVersionsPerRun).length
  · rw [if_pos h, List.map_append, pending_in_ids s.wiki (· ≤ s.docCursor)]
    congr 2
    omega
  · rw [if_neg h, show maxVersionsPerRun-((pendingIds s.wiki).filter (s.docCursor < ·)).length = 0 by
      omega, List.take_zero, List.append_nil]

theorem attempts_keep (digest : Digest) (h : KeepsPending digest) (docs : List (ℕ × WikiDoc))
    (s : DigestState) : pendingIds (docs.foldl (attempt digest) s).wiki = pendingIds s.wiki ∧
    (docs.foldl (attempt digest) s).docCursor = (docs.map Prod.fst).getLast?.getD s.docCursor := by
  induction docs generalizing s with
  | nil => exact ⟨rfl,rfl⟩
  | cons doc docs ih =>
    obtain ⟨hids,hcursor⟩ := ih (attempt digest s doc)
    rw [List.map_cons, List.getLast?_cons]
    exact ⟨hids.trans (h doc s.wiki),hcursor⟩

theorem run_turns (digest : Digest) (h : KeepsPending digest) (s : DigestState) :
    (runPending digest s).1 = window maxVersionsPerRun (pendingIds s.wiki) s.docCursor ∧
    pendingIds (runPending digest s).2.wiki = pendingIds s.wiki ∧
    (runPending digest s).2.docCursor = turned maxVersionsPerRun (pendingIds s.wiki) s.docCursor := by
  obtain ⟨hids,hcursor⟩ := attempts_keep digest h (pendingDocuments s) s
  rw [pending_window] at hcursor
  exact ⟨pending_window s,hids,hcursor⟩

theorem runs_turn (calls : List Digest) (h : ∀ digest ∈ calls, KeepsPending digest)
    (s : DigestState) : runs calls s = (List.range calls.length).map fun i =>
      window maxVersionsPerRun (pendingIds s.wiki)
        ((turned maxVersionsPerRun (pendingIds s.wiki))^[i] s.docCursor) := by
  induction calls generalizing s with
  | nil => rfl
  | cons digest calls ih =>
    obtain ⟨hdigest,hrest⟩ := List.forall_mem_cons.mp h
    obtain ⟨htried,hids,hcursor⟩ := run_turns digest hdigest s
    rw [runs, ih hrest, htried, hids, hcursor, List.length_cons, List.range_succ_eq_map,
      List.map_cons, List.map_map]
    rfl

theorem pending_sorted (w : World) : (pendingIds w).Pairwise (· < ·) :=
  List.pairwise_map.mpr (w.docs.sorted.filter _)

/-- No document starves: while the same documents stay pending, whatever becomes of the attempts,
as many consecutive calls as their pages need attempt each of them, and none of them twice in
one call. -/
theorem pending_scan_visits (calls : List Digest) (s : DigestState)
    (h : ∀ digest ∈ calls, KeepsPending digest)
    (hlen : calls.length = ((pendingIds s.wiki).length+maxVersionsPerRun-1)/maxVersionsPerRun) :
    (∀ id ∈ pendingIds s.wiki, ∃ tried ∈ runs calls s, id ∈ tried) ∧
    ∀ tried ∈ runs calls s, tried.Nodup := by
  have hsorted := pending_sorted s.wiki
  rw [runs_turn calls h s]
  constructor
  · intro id hid
    have hall : (pendingIds s.wiki).length ≤ calls.length*maxVersionsPerRun := by
      rw [hlen]
      exact le_pages (by decide)
    have hperm := around_perm (pendingIds s.wiki) s.docCursor
    obtain ⟨i,hi,hin⟩ := windows_cover (k := maxVersionsPerRun) hsorted calls.length s.docCursor id (by
      rw [List.take_of_length_le (by rwa [hperm.length_eq])]
      exact hperm.mem_iff.mpr hid)
    exact ⟨_,List.mem_map.mpr ⟨i,List.mem_range.mpr hi,rfl⟩,hin⟩
  · intro tried htried
    obtain ⟨i,hi,rfl⟩ := List.mem_map.mp htried
    exact window_nodup _ _ (hsorted.imp ne_of_lt)

def pendingDoc : WikiDoc :=
  ⟨[],[],[],.active,1,1,true,[],[],[],none,∅,[],[],0,0⟩

def twoPending : DigestState := ⟨{ World.empty with docs := (Table.empty.add pendingDoc).add pendingDoc },1⟩

theorem pending_scan_visits_two :
    (∀ id ∈ [1,2], ∃ tried ∈ [[2,1]], id ∈ tried) ∧ ∀ tried ∈ [[2,1]], tried.Nodup :=
  pending_scan_visits [fun _ w => w] twoPending
    (fun _ h doc w => by
      obtain rfl := List.mem_singleton.mp h
      rfl) rfl

end AndaBrain.WikiPending
