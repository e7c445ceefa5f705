import Mathlib
import AndaBrain.Foundation.CursorPages
import AndaBrain.WorkerFence

/-!
# The record pages of the Worker

`records` of `product.ts` reads a page of claims. Each element it loads may lower the limit
that governs the page, also in the reads of a record that then fails.
-/

set_option autoImplicit false

namespace AndaBrain.WorkerRecords
open Foundation.CursorPages WorkerMemory

/-- The reads of a page, over the `governedResultLimit`. A failed read keeps what it lowered. -/
abbrev Reading := ExceptT Failure (StateM (Option ℕ))

/-- What a reader is allowed: `maxResults` is the limit of the space or of an element. The ids
of claims are those SQL selects, below the safe integer that stands for "from the start". -/
structure Catalog where
  nexus : Nexus
  product : ProductStore
  spaceLimit : Option ℕ
  maxResults : ElementId → Option ℕ
  assertions : List ℕ
  descending : assertions.Pairwise (· > ·)
  positive : ∀ id ∈ assertions, 1 ≤ id
  safe : ∀ id ∈ assertions, id < maxSafeInteger

structure RecordPage where
  records : List MemoryRecord
  nextCursor : Option ℕ
  complete : Bool

namespace Catalog
variable (c : Catalog)

def load (id : ElementId) : Reading Row := do
  let row ← ExceptT.mk (pure (readElement c.nexus id))
  if c.spaceLimit = some 0 ∨ c.maxResults id = some 0 then throw ⟨none,"not_found"⟩
  else
    modify fun limit => limit.merge min (c.maxResults id)
    pure row

def source (id : ElementId) : Reading RecordSource := do
  let row ← c.load id
  if id.kind ≠ .evidence then throw ⟨none,"invalid_evidence"⟩ else pure (sourceOf id row)

def record (id : ElementId) : Reading MemoryRecord := do
  let row ← c.load id
  if id.kind ≠ .assertion ∨ row.state = .purged then throw ⟨none,"not_found"⟩
  else
    let proposition ← c.load row.propositionId
    if row.propositionId.kind ≠ .proposition ∨ proposition.state = .purged then
      throw ⟨none,"not_found"⟩
    else
      let _ ← row.actor.toList.mapM c.load
      let sources ← row.evidenceRefs.mapM c.source
      let _ ← proposition.endpoints.mapM c.load
      pure
        { id
          revision := row.version
          propositionId := row.propositionId
          actor := row.actor
          endpoints := proposition.endpoints
          sources
          sourcesComplete := !sources.isEmpty && sources.all (completeSource c.product) }

def full (limit : Option ℕ) (records : List MemoryRecord) : Bool := limit.any (· ≤ records.length)

/-- The loop of `records`: the records, `complete` and `lastConsumed`. -/
def collect : List ℕ → List MemoryRecord → Bool → Option ℕ → Option ℕ →
    List MemoryRecord × Bool × Option ℕ
  | [], records, complete, last, _ => (records,complete,last)
  | id::ids, records, complete, last, limit =>
    match c.record ⟨.assertion,id⟩ limit with
    | (.ok record,limit) =>
      if full limit records then (records,false,last)
      else if full limit (records++[record]) then (records++[record],false,some id)
      else collect ids (records++[record]) complete (some id) limit
    | (.error _,limit) =>
      if full limit records then (records,false,some id)
      else collect ids records false (some id) limit

def records (before limit : ℕ) : Except Failure RecordPage :=
  if maxSafeInteger < before ∨ before < 1 ∨ limit < 1 ∨ 50 < limit then fail "invalid_request"
  else if c.spaceLimit = some 0 then .ok ⟨[],none,false⟩
  else
    let ids := (c.assertions.filter (· < before)).take limit
    let (records,complete,last) := c.collect ids [] (decide (ids.length < limit)) none c.spaceLimit
    .ok ⟨records,if complete then none else last,complete⟩

def readable (id : ℕ) : Option MemoryRecord := (c.record ⟨.assertion,id⟩ none).1.toOption

/-- The smallest `max_results` of the elements that are read for a claim. -/
def readLimit (id : ElementId) : Option ℕ := (c.record id none).2

end Catalog

section Reads
variable {α β : Type} {c : Catalog}

def Steady (p : Reading α) : Prop :=
  ∃ answer bound, bound ≠ some 0 ∧ ∀ limit, p limit = (answer,limit.merge min bound)

theorem steady_answer (r : Except Failure α) : Steady (ExceptT.mk (pure r)) :=
  ⟨r,none,nofun,fun limit => by simp [ExceptT.mk, pure, StateT.pure]⟩

theorem merge_positive {a b : Option ℕ} (ha : a ≠ some 0) (hb : b ≠ some 0) :
    a.merge min b ≠ some 0 := by
  cases a <;> cases b <;> simp_all

theorem bind_run (p : Reading α) (f : α → Reading β) (limit : Option ℕ) : (p >>= f) limit =
    match p limit with
    | (.ok a,limit) => f a limit
    | (.error e,limit) => (.error e,limit) := by
  simp only [bind, ExceptT.bind, ExceptT.mk, StateT.bind]
  rcases p limit with ⟨_ | a,_⟩ <;> rfl

theorem steady_bind {p : Reading α} {f : α → Reading β} (h : Steady p) (hf : ∀ a, Steady (f a)) :
    Steady (p >>= f) := by
  obtain ⟨answer,bound,hbound,hp⟩ := h
  cases answer with
  | error e => exact ⟨.error e,bound,hbound,fun limit => by rw [bind_run, hp]⟩
  | ok a =>
    obtain ⟨answer,more,hmore,hrun⟩ := hf a
    refine ⟨answer,bound.merge min more,merge_positive hbound hmore,fun limit => ?_⟩
    rw [bind_run, hp]
    show f a _ = _
    rw [hrun]
    cases limit <;> cases bound <;> cases more <;> simp [min_assoc]

theorem steady_mapM {f : α → Reading β} (h : ∀ a, Steady (f a)) (as : List α) :
    Steady (as.mapM f) := by
  induction as with
  | nil => exact steady_answer (.ok [])
  | cons a as ih =>
    rw [List.mapM_cons]
    exact steady_bind (h a) fun b => steady_bind ih fun bs => steady_answer (.ok (b::bs))

theorem steady_load (id : ElementId) : Steady (c.load id) := by
  refine steady_bind (steady_answer _) fun row => ?_
  split
  · exact steady_answer (.error _)
  · rename_i hpositive
    exact ⟨.ok row,c.maxResults id,fun h => hpositive (Or.inr h),fun _ => rfl⟩

theorem steady_record (id : ElementId) : Steady (c.record id) := by
  refine steady_bind (steady_load id) fun row => ?_
  split
  · exact steady_answer (.error _)
  refine steady_bind (steady_load _) fun proposition => ?_
  split
  · exact steady_answer (.error _)
  refine steady_bind (steady_mapM steady_load _) fun _ => steady_bind (steady_mapM ?_ _) fun sources =>
    steady_bind (steady_mapM steady_load _) fun _ => steady_answer (.ok _)
  intro id
  refine steady_bind (steady_load id) fun row => ?_
  split
  · exact steady_answer (.error _)
  · exact steady_answer (.ok _)

theorem record_run (id : ElementId) : c.readLimit id ≠ some 0 ∧
    ∀ limit, c.record id limit = ((c.record id none).1,limit.merge min (c.readLimit id)) := by
  obtain ⟨answer,bound,hbound,hrun⟩ := steady_record (c := c) id
  simp only [Catalog.readLimit, hrun none, Option.merge_none_left]
  exact ⟨hbound,hrun⟩

theorem record_id (id : ElementId) (r : MemoryRecord) (h : (c.record id none).1 = .ok r) :
    r.id = id := by
  -- only the last step of a read answers
  have hbind : ∀ {α : Type} (p : Reading α) (f : α → Reading MemoryRecord) (limit : Option ℕ),
      ((p >>= f) limit).1 = .ok r → ∃ a limit, (f a limit).1 = .ok r := by
    intro α p f limit hrun
    rw [bind_run] at hrun
    rcases hp : p limit with ⟨e | a,l⟩
    · rw [hp] at hrun
      cases hrun
    · rw [hp] at hrun
      exact ⟨a,l,hrun⟩
  obtain ⟨row,l,h⟩ := hbind _ _ _ h
  split at h
  · cases h
  obtain ⟨proposition,l,h⟩ := hbind _ _ _ h
  split at h
  · cases h
  obtain ⟨_,l,h⟩ := hbind _ _ _ h
  obtain ⟨sources,l,h⟩ := hbind _ _ _ h
  obtain ⟨_,l,h⟩ := hbind _ _ _ h
  cases h
  rfl

end Reads

section Pages
variable (c : Catalog)

theorem full_merge (limit bound : Option ℕ) (records : List MemoryRecord) :
    Catalog.full (limit.merge min bound) records =
      (Catalog.full limit records || Catalog.full bound records) := by
  cases limit <;> cases bound <;> simp [Catalog.full]

def Within (records : List MemoryRecord) (limit : Option ℕ) : Prop :=
  ∀ r ∈ records, ∀ m, c.readLimit r.id = some m → records.length ≤ m ∧
    ∀ more, Catalog.full limit more = false → more.length < m

theorem within_push {records : List MemoryRecord} {limit : Option ℕ} {r : MemoryRecord}
    (h : Within c records limit)
    (hfull : Catalog.full (limit.merge min (c.readLimit r.id)) records = false) :
    Within c (records++[r]) (limit.merge min (c.readLimit r.id)) := by
  intro x hx m hm
  have hlow : ∀ more, Catalog.full (limit.merge min (c.readLimit r.id)) more = false →
      more.length < m := by
    intro more hmore
    rw [full_merge, Bool.or_eq_false_iff] at hmore
    rcases List.mem_append.mp hx with hx | hx
    · exact (h x hx m hm).2 more hmore.1
    · rw [List.mem_singleton.mp hx] at hm
      simpa [Catalog.full, hm] using hmore.2
  refine ⟨?_,hlow⟩
  rw [List.length_append]
  exact hlow records hfull

theorem within_merge {records : List MemoryRecord} {limit : Option ℕ} (bound : Option ℕ)
    (h : Within c records limit) : Within c records (limit.merge min bound) := by
  intro r hr m hm
  refine ⟨(h r hr m hm).1,fun more hmore => (h r hr m hm).2 more ?_⟩
  rw [full_merge, Bool.or_eq_false_iff] at hmore
  exact hmore.1

theorem collect_takes (ids : List ℕ) (records : List MemoryRecord) (complete : Bool)
    (last limit : Option ℕ) (hwithin : Within c records limit)
    (hstart : records = [] → limit ≠ some 0) :
    ∃ taken rest, ids = taken++rest ∧
      (c.collect ids records complete last limit).1 = records++taken.filterMap c.readable ∧
      ((c.collect ids records complete last limit).2.1 = true → complete = true ∧ rest = []) ∧
      (c.collect ids records complete last limit).2.2 = taken.getLast?.or last ∧
      (ids ≠ [] → records = [] → taken ≠ []) ∧
      ∃ governed, Within c (c.collect ids records complete last limit).1 governed := by
  induction ids generalizing records complete last limit with
  | nil => exact ⟨[],[],rfl,by simp [Catalog.collect],fun h => ⟨h,rfl⟩,rfl,by simp,limit,hwithin⟩
  | cons id ids ih =>
    obtain ⟨hbound,hrun⟩ := record_run (c := c) ⟨.assertion,id⟩
    have hmerged := within_merge c (c.readLimit ⟨.assertion,id⟩) hwithin
    have hpositive : records = [] → limit.merge min (c.readLimit ⟨.assertion,id⟩) ≠ some 0 :=
      fun hnil => merge_positive (hstart hnil) hbound
    simp only [Catalog.collect, hrun limit]
    cases hr : (c.record ⟨.assertion,id⟩ none).1 with
    | error e =>
      have hnone : c.readable id = none := by rw [Catalog.readable, hr]; rfl
      by_cases hfull : Catalog.full (limit.merge min (c.readLimit ⟨.assertion,id⟩)) records = true
      · refine ⟨[id],ids,rfl,?_⟩
        simp only [if_pos hfull]
        exact ⟨by simp [hnone],nofun,rfl,nofun,_,hmerged⟩
      obtain ⟨taken,rest,rfl,hitems,hdone,hlast,-,hin⟩ := ih records false (some id) _ hmerged hpositive
      refine ⟨id::taken,rest,rfl,?_⟩
      simp only [if_neg hfull]
      refine ⟨by rw [hitems]; simp [hnone],?_,?_,nofun,hin⟩
      · intro h
        exact nomatch (hdone h).1
      · rw [hlast, List.getLast?_cons]
        cases taken.getLast? <;> rfl
    | ok r =>
      have hsome : c.readable id = some r := by rw [Catalog.readable, hr]; rfl
      have hid := record_id (c := c) _ r hr
      by_cases hfull : Catalog.full (limit.merge min (c.readLimit ⟨.assertion,id⟩)) records = true
      · refine ⟨[],id::ids,rfl,?_⟩
        simp only [if_pos hfull]
        refine ⟨by simp,nofun,rfl,?_,_,hmerged⟩
        rintro - rfl
        obtain ⟨m,hm,hle⟩ := Option.any_eq_true _ _ |>.mp hfull
        have hzero : m = 0 := by simpa using hle
        exact absurd (by rw [hm, hzero]) (hpositive rfl)
      have hpush := within_push c (r := r) hwithin (by rw [hid]; simpa using hfull)
      rw [hid] at hpush
      by_cases hfilled : Catalog.full (limit.merge min (c.readLimit ⟨.assertion,id⟩)) (records++[r]) = true
      · refine ⟨[id],ids,rfl,?_⟩
        simp only [if_neg hfull, if_pos hfilled]
        exact ⟨by simp [hsome],nofun,rfl,nofun,_,hpush⟩
      obtain ⟨taken,rest,rfl,hitems,hdone,hlast,-,hin⟩ :=
        ih (records++[r]) complete (some id) _ hpush (by simp)
      refine ⟨id::taken,rest,rfl,?_⟩
      simp only [if_neg hfull, if_neg hfilled]
      refine ⟨by rw [hitems]; simp [hsome],hdone,?_,nofun,hin⟩
      rw [hlast, List.getLast?_cons]
      cases taken.getLast? <;> rfl

def serve (limits : ℕ → ℕ) (k : ℕ) (before : Option ℕ) :
    Except Failure (List MemoryRecord × Option ℕ) :=
  (c.records (before.getD maxSafeInteger) (limits k)).map fun page => (page.records,page.nextCursor)

def Remain (before : Option ℕ) (left : List ℕ) : Prop :=
  (1 ≤ before.getD maxSafeInteger ∧ before.getD maxSafeInteger ≤ maxSafeInteger) ∧
  left = c.assertions.filter (· < before.getD maxSafeInteger)

def Held (limits : ℕ → ℕ) (k : ℕ) (records : List MemoryRecord) : Prop :=
  records.length ≤ limits k ∧ ∀ r ∈ records, ∀ m, c.readLimit r.id = some m → records.length ≤ m

theorem nothing_readable (h : c.spaceLimit = some 0) (id : ℕ) : c.readable id = none := by
  have hload : ∃ e, c.load ⟨.assertion,id⟩ none = (.error e,none) := by
    rw [Catalog.load, bind_run]
    cases hrow : readElement c.nexus ⟨.assertion,id⟩ with
    | error e => exact ⟨e,rfl⟩
    | ok row => exact ⟨_,by simp only [ExceptT.mk, h, true_or, if_true]; rfl⟩
  obtain ⟨e,he⟩ := hload
  rw [Catalog.readable, Catalog.record, bind_run, he]
  rfl

theorem page_takes (limits : ℕ → ℕ) (k : ℕ) (before : Option ℕ) (left : List ℕ)
    (hlimit : 1 ≤ limits k ∧ limits k ≤ 50) (h : Remain c before left) :
    ∃ items next taken rest, serve c limits k before = .ok (items,next) ∧ Held c limits k items ∧
      Takes (Remain c) c.readable left items next taken rest := by
  obtain ⟨⟨hlow,hhigh⟩,rfl⟩ := h
  have hvalid : ¬(maxSafeInteger < before.getD maxSafeInteger ∨ before.getD maxSafeInteger < 1 ∨
      limits k < 1 ∨ 50 < limits k) := by omega
  unfold serve Catalog.records
  rw [if_neg hvalid]
  by_cases hzero : c.spaceLimit = some 0
  · rw [if_pos hzero]
    refine ⟨_,_,_,[],rfl,⟨Nat.zero_le _,nofun⟩,(List.append_nil _).symm,?_,fun _ => rfl,nofun⟩
    symm
    exact List.filterMap_eq_nil_iff.mpr fun id _ => nothing_readable c hzero id
  rw [if_neg hzero]
  generalize hleft : c.assertions.filter (· < before.getD maxSafeInteger) = left
  simp only
  generalize hids : left.take (limits k) = ids
  obtain ⟨taken,rest,rfl,hitems,hdone,hlast,htaken,governed,hwithin⟩ := collect_takes c ids []
    (decide (ids.length < limits k)) none c.spaceLimit nofun fun _ => hzero
  rcases hcollect : c.collect (taken++rest) [] (decide ((taken++rest).length < limits k)) none
    c.spaceLimit with ⟨items,complete,last⟩
  simp only [hcollect, List.nil_append, Option.or_none] at hitems hdone hlast hwithin
  have hsplit : left = taken++(rest++left.drop (limits k)) := by
    rw [← List.append_assoc, ← hids, List.take_append_drop]
  have hlength := congrArg List.length hids
  rw [List.length_take] at hlength
  refine ⟨items,_,taken,rest++left.drop (limits k),rfl,⟨?_,fun r hr m hm => (hwithin r hr m hm).1⟩,
    hsplit,hitems,?_,?_⟩
  · have := List.length_filterMap_le c.readable taken
    rw [List.length_append] at hlength
    rw [hitems]
    omega
  · intro hnext
    cases complete with
    | true =>
      obtain ⟨hfew,rfl⟩ := hdone rfl
      have := of_decide_eq_true hfew
      rw [List.drop_eq_nil_of_le (by omega)]
      rfl
    | false =>
      rw [if_neg Bool.false_ne_true, hlast, List.getLast?_eq_none_iff] at hnext
      by_cases hnil : taken++rest = []
      · rw [hnil] at hcollect
        simp [Catalog.collect] at hcollect
        omega
      · exact absurd hnext (htaken hnil rfl)
  intro next hnext
  cases complete with
  | true => cases hnext
  | false =>
  rw [if_neg Bool.false_ne_true, hlast] at hnext
  obtain ⟨front,rfl⟩ := List.getLast?_eq_some_iff.mp hnext
  have hmem : next ∈ left := by rw [hsplit]; simp
  rw [← hleft, List.mem_filter] at hmem
  have hlt := of_decide_eq_true hmem.2
  refine ⟨by simp,⟨c.positive next hmem.1,by simp; omega⟩,?_⟩
  have hdesc : left.Pairwise (· > ·) := hleft ▸ c.descending.filter _
  have hbelow : c.assertions.filter (· < next) = left.filter (· < next) := by
    rw [← hleft, List.filter_filter]
    apply List.filter_congr
    intro x _
    simp
    omega
  show _ = c.assertions.filter (· < next)
  rw [hbelow]
  generalize rest++left.drop (limits k) = tail at hsplit
  subst hsplit
  rw [List.pairwise_append] at hdesc
  rw [List.filter_append, List.filter_eq_nil_iff.mpr, List.filter_eq_self.mpr]
  · rfl
  · intro x hx
    exact decide_eq_true (hdesc.2.2 next (by simp) x hx)
  intro x hx
  rcases List.mem_append.mp hx with hx | hx
  · have := (List.pairwise_append.mp hdesc.1).2.2 x hx next (by simp)
    simp
    omega
  · rw [List.mem_singleton.mp hx]
    simp

/-- Record pages. Whatever the limits of a reader's calls, following the cursors of the
pages to their end gives every record the reader may read once, the newest first, and each
page holds no more than its own limit and than the limit of each element it was read from. -/
theorem records_lossless (limits : ℕ → ℕ) (h : ∀ k, 1 ≤ limits k ∧ limits k ≤ 50) :
    ∃ pages, Follows (serve c limits) (Held c limits) 0 none pages ∧
      pages.flatten = c.assertions.filterMap c.readable ∧ pages.length ≤ c.assertions.length+1 := by
  apply follows_lossless (serve c limits) (Held c limits) (fun _ => Remain c) c.readable
    fun k before left hleft => page_takes c limits k before left (h k) hleft
  refine ⟨⟨by decide,Nat.le_refl _⟩,(List.filter_eq_self.mpr fun id hid => ?_).symm⟩
  exact decide_eq_true (c.safe id hid)

end Pages

/-- Claim 2 cannot be loaded; the evidence of claim 1 is shown one at a time. -/
def toldCatalog : Catalog where
  nexus := toldNexus
  product := capturedProduct
  spaceLimit := none
  maxResults := fun id => if id = citedId then some 1 else none
  assertions := [2,1]
  descending := by decide
  positive := by decide
  safe := by decide

theorem records_lossless_told : ∃ pages,
    Follows (serve toldCatalog fun _ => 2) (Held toldCatalog fun _ => 2) 0 none pages ∧
    pages.flatten.map MemoryRecord.id = [claimId] := by
  obtain ⟨pages,hfollows,hflat,-⟩ := records_lossless toldCatalog (fun _ => 2)
    fun _ => ⟨by decide,by decide⟩
  refine ⟨pages,hfollows,?_⟩
  rw [hflat]
  rfl

end AndaBrain.WorkerRecords
