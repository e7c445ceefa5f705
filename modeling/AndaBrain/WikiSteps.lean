import AndaBrain.WikiLedger

/-!
# The wiki operations, write by write

Every operation of the store reads and writes rows one at a time. Each of its writes is
a `Change`, whatever the database answers, so a crash leaves a state of the ledger.
-/

set_option autoImplicit false

namespace AndaBrain.WikiSteps
open Foundation Foundation.Resumption Foundation.Utf8Text
open WikiChunk WikiText WikiStore WikiLedger

section Rules
variable {α β : Type} {svc : WikiService} {P : Table WikiDoc → Text → Text → Option ℕ → Prop}
  {A : ℕ → ℕ → Prop} {w : World}

def Reads (Q : α → Prop) (p : M α) (w : World) : Prop :=
  Safe (fun _ _ => False) (fun a _ => Q a) (fun _ _ => True) p w

def Keeps (svc : WikiService) (P : Table WikiDoc → Text → Text → Option ℕ → Prop)
    (A : ℕ → ℕ → Prop) (Q : α → World → Prop) (p : M α) (w : World) : Prop :=
  Safe (Change svc P A) Q (fun _ _ => True) p w

theorem reads_ask (f : World → Except WikiError α) {Q : α → Prop}
    (h : ∀ a, f w = .ok a → Q a) : Reads Q (ask f) w := by
  apply safe_query
  · intro fault a ha
    cases fault with
    | none => exact h a ha
    | failed applied message => cases ha
  · intro _ _ _
    trivial

theorem reads_ok (f : World → α) :
    Reads (fun a => a = f w) (ask fun w => .ok (f w)) w := by
  apply reads_ask
  intro a h
  exact (Except.ok.inj h).symm

theorem reads_peek (f : World → α) {Q : α → Prop} (h : Q (f w)) : Reads Q (peek f) w := by
  apply safe_query
  · intro _ a ha
    cases ha
    exact h
  · intro _ _ _
    trivial

theorem reads_bind (p : M α) (f : α → M β) {R : α → Prop} {Q : β → Prop} (hp : Reads R p w)
    (hf : ∀ a, R a → Reads Q (f a) w) : Reads Q (p >>= f) w :=
  safe_still p f w hp (fun _ _ => trivial) hf

theorem reads_refuse (c : Prop) [Decidable c] (e : WikiError) (f : Unit → M α) {Q : α → Prop}
    (h : ¬c → Reads Q (f ()) w) : Reads Q (refuseIf c e >>= f) w := by
  apply reads_bind _ _ (R := fun _ => ¬c)
  · exact safe_refuse c e w (fun _ => trivial) id
  · intro _ hc
    exact h hc

theorem reads_mono (p : M α) {R Q : α → Prop} (h : Reads R p w) (hq : ∀ a, R a → Q a) :
    Reads Q p w :=
  safe_mono p w h (fun _ _ hg => hg) (fun a _ => hq a) fun _ _ he => he

theorem keeps_read (p : M α) (f : α → M β) {R : α → Prop} {Q : β → World → Prop}
    (hp : Reads R p w) (hf : ∀ a, R a → Keeps svc P A Q (f a) w) : Keeps svc P A Q (p >>= f) w :=
  safe_still p f w hp (fun _ _ => trivial) hf

theorem keeps_looks (p : M α) {R : α → Prop} {Q : α → World → Prop} (hp : Reads R p w)
    (hq : ∀ a, R a → Q a w) : Keeps svc P A Q p w :=
  safe_looks p w hp hq fun _ _ => trivial

theorem keeps_bind (p : M α) (f : α → M β) {Q : β → World → Prop}
    (h : Keeps svc P A (fun a t => Keeps svc P A Q (f a) t) p w) : Keeps svc P A Q (p >>= f) w :=
  safe_bind p f w h

theorem keeps_mono (p : M α) {Q R : α → World → Prop} (h : Keeps svc P A Q p w)
    (hq : ∀ a t, Q a t → R a t) : Keeps svc P A R p w :=
  safe_mono p w h (fun _ _ hg => hg) hq fun _ _ he => he

theorem keeps_refuse (c : Prop) [Decidable c] (e : WikiError) (f : Unit → M β)
    {Q : β → World → Prop} (hf : ¬c → Keeps svc P A Q (f ()) w) :
    Keeps svc P A Q (refuseIf c e >>= f) w := by
  apply keeps_bind
  exact safe_refuse c e w (fun _ => trivial) hf

theorem keeps_ok (p : M α) {Q : α → World → Prop} (hok : Ok svc w) (h : Keeps svc P A Q p w) :
    Keeps svc P A (fun a t => Q a t ∧ Ok svc t ∧ Evolves w t) p w := by
  have hframe := safe_frame (fun t => Ok svc t ∧ Evolves w t) (fun a b hchange ha =>
    ⟨change_ok ha.1 hchange,evolves_trans w a b ha.2 (change_evolves hchange)⟩) p w h
    ⟨hok,evolves_refl w⟩
  exact safe_mono p w hframe (fun _ _ hg => hg.1) (fun _ _ hq => hq) fun _ _ _ => trivial

theorem keeps_write (f : World → World) (answer : World → Except WikiError α)
    {Q : α → World → Prop} (hf : Change svc P A w (f w))
    (hq : ∀ a, answer w = .ok a → Q a (f w)) : Keeps svc P A Q (write f answer) w := by
  apply safe_atomic
  · intro fault
    cases fault with
    | none => exact Or.inr hf
    | failed applied message =>
      cases applied
      · exact Or.inl rfl
      · exact Or.inr hf
  · intro fault a ha
    cases fault with
    | none => exact hq a ha
    | failed applied message => cases ha
  · intro _ _ _
    trivial

end Rules

section Readers
variable {svc : WikiService} {w : World}

theorem reads_row {α : Type} (c : Collection) (table : World → Table α) (id : ℕ) :
    Reads (fun row => (table w).get id = some row) (getRow svc c table id) w := by
  apply reads_ask
  intro row h
  cases hget : (table w).get id with
  | none => simp [hget] at h
  | some found =>
    simp only [hget, Except.ok.injEq] at h
    rw [h]

theorem reads_doc (docId : ℕ) :
    Reads (fun doc => w.docs.get docId = some doc ∧ doc.currentVersion ≠ 0)
      (docRecord svc docId) w := by
  apply reads_bind _ _ (reads_row .docs World.docs docId)
  intro doc hdoc
  apply reads_refuse
  intro hne
  exact ⟨hdoc,hne⟩

theorem reads_version (id : ℕ) :
    Reads (fun v => w.versions.get id = some v) (versionRecord svc id) w :=
  reads_row .versions World.versions id

theorem reads_chain_version (docId id : ℕ) :
    Reads (fun v => w.versions.get id = some v ∧ v.docId = docId ∧
      ∀ p, v.parentVersion = some p → p < id) (chainVersion svc docId id) w := by
  apply reads_bind _ _ (reads_version id)
  intro v hv
  apply reads_refuse
  intro hbad
  simp only [not_or, not_not] at hbad
  refine ⟨hv,hbad.1,?_⟩
  intro p hp
  have h := hbad.2
  rw [hp] at h
  simp at h
  omega

theorem reads_published_from (docId : ℕ) (fuel : ℕ) (ids : List ℕ) (id : ℕ)
    (hchain : Chain w.versions docId ids) (hhead : ids.head? = some id) (hfuel : id < fuel) :
    Reads (fun found => found = ids) (publishedIdsFrom svc docId fuel (some id)) w := by
  induction fuel generalizing ids id with
  | zero => omega
  | succ fuel ih =>
    apply reads_bind _ _ (reads_chain_version docId id)
    intro v hv
    obtain ⟨hget,-,-⟩ := hv
    match ids, hchain, hhead with
    | [first], hchain, hhead =>
      have hfirst : first = id := by simpa using hhead
      subst hfirst
      obtain ⟨u,hu,-,hp⟩ := hchain
      rw [hget] at hu
      cases hu
      rw [hp]
      cases fuel <;> exact rfl
    | first::parent::rest, hchain, hhead =>
      have hfirst : first = id := by simpa using hhead
      subst hfirst
      obtain ⟨⟨u,hu,-,hp⟩,hlt,hrest⟩ := hchain
      rw [hget] at hu
      cases hu
      rw [hp]
      apply reads_bind _ _ (ih (parent::rest) parent hrest rfl (by omega))
      intro found hfound
      rw [hfound]
      exact rfl

theorem reads_published (docId : ℕ) (doc : WikiDoc) (ids : List ℕ)
    (hchain : Chain w.versions docId ids) (hhead : ids.head? = some doc.currentVersion) :
    Reads (fun found => found = ids) (publishedVersionIds svc docId doc) w :=
  reads_published_from docId _ ids _ hchain hhead (Nat.lt_succ_self _)

theorem mem_last_ids (ids : List ℕ) (limit first id : ℕ) (h : ids.Pairwise (· < ·))
    (hfirst : (lastIds ids limit).head? = some first) :
    id ∈ lastIds ids limit ↔ id ∈ ids ∧ first ≤ id := by
  unfold lastIds at *
  set k := ids.length-limit with hk
  have hsplit := List.take_append_drop k ids
  rw [← hsplit] at h
  obtain ⟨-,hlater,hcross⟩ := List.pairwise_append.mp h
  have hmem := List.mem_of_mem_head? hfirst
  constructor
  · intro hid
    refine ⟨List.mem_of_mem_drop hid,?_⟩
    cases hd : ids.drop k with
    | nil => simp [hd] at hid
    | cons x xs =>
      rw [hd] at hfirst hlater hid
      have hx : x = first := by simpa using hfirst
      rcases List.mem_cons.mp hid with hid | hid
      · omega
      · have := (List.pairwise_cons.mp hlater).1 id hid
        omega
  · rintro ⟨hid,hle⟩
    rw [← hsplit] at hid
    rcases List.mem_append.mp hid with hid | hid
    · have := hcross id hid first hmem
      omega
    · exact hid

theorem last_ids_all (ids : List ℕ) (limit : ℕ) (h : (lastIds ids limit).length < limit) :
    lastIds ids limit = ids := by
  unfold lastIds at *
  rw [List.length_drop] at h
  have hk : ids.length-limit = 0 := by omega
  rw [hk, List.drop_zero]

theorem last_ids_none (ids : List ℕ) (limit : ℕ) (hl : 0 < limit)
    (h : (lastIds ids limit).head? = none) : ids = [] := by
  rw [List.head?_eq_none_iff] at h
  have := last_ids_all ids limit (by rw [h]; exact hl)
  rw [← this, h]

theorem limit_positive : 0 < svc.searchLimit :=
  Nat.lt_of_lt_of_le (by decide) svc.searchLimit_ok

theorem reads_scan_from (ids : World → List ℕ) (fuel cursor : ℕ)
    (hsorted : (ids w).Pairwise (· < ·)) (hfuel : cursor ≤ fuel) :
    Reads (fun found => ∀ id, id ∈ found ↔ id ∈ ids w ∧ id < cursor)
      (scanFrom svc ids fuel cursor) w := by
  induction fuel generalizing cursor with
  | zero =>
    intro id
    simp
    omega
  | succ fuel ih =>
    apply reads_bind _ _ (reads_ok fun w => lastIds ((ids w).filter (· < cursor)) svc.searchLimit)
    rintro page rfl
    have hbelow : ((ids w).filter (· < cursor)).Pairwise (· < ·) := hsorted.filter _
    split
    · rename_i hnone
      have hempty := last_ids_none _ _ limit_positive hnone
      intro id
      have hid : id ∉ (ids w).filter (· < cursor) := by
        rw [hempty]
        exact List.not_mem_nil
      simp only [List.mem_filter, decide_eq_true_eq] at hid
      simpa using hid
    rename_i first hfirst
    have hpage := fun id => mem_last_ids _ _ first id hbelow hfirst
    apply safe_ite
    · intro hshort id
      rw [last_ids_all _ _ hshort]
      simp
    intro _
    have hin := (hpage first).mp (List.mem_of_mem_head? hfirst)
    have hlt : first < cursor := by simpa using (List.mem_filter.mp hin.1).2
    apply reads_bind _ _ (ih first (by omega))
    intro rest hrest id
    rw [List.mem_append, hpage, hrest, List.mem_filter]
    simp only [decide_eq_true_eq]
    constructor
    · rintro (⟨⟨hid,hc⟩,-⟩ | ⟨hid,hc⟩)
      · exact ⟨hid,hc⟩
      · exact ⟨hid,by omega⟩
    rintro ⟨hid,hc⟩
    by_cases hf : first ≤ id
    · exact Or.inl ⟨⟨hid,hc⟩,hf⟩
    · exact Or.inr ⟨hid,by omega⟩

theorem reads_scan {α : Type} (table : World → Table α) (p : ℕ → α → Bool) :
    Reads (fun found => ∀ id, id ∈ found ↔ ∃ row, (table w).get id = some row ∧ p id row = true)
      (scanIds svc table p) w := by
  apply reads_bind _ _ (reads_peek _ (Q := fun cursor => cursor = (table w).last+1) rfl)
  rintro cursor rfl
  apply reads_mono _ (reads_scan_from _ _ _ ((table w).select_sorted p) (Nat.le_refl _))
  intro found hfound id
  rw [hfound, Table.mem_select]
  constructor
  · rintro ⟨h,-⟩
    exact h
  · rintro ⟨row,hrow,hp⟩
    exact ⟨⟨row,hrow,hp⟩,Nat.lt_succ_of_le ((table w).get_bound id row hrow).2⟩

theorem reads_chunk_ids (docId versionId : ℕ) :
    Reads (fun found => found = (w.chunks.select fun _ row =>
      row.docId == docId && row.versionId == versionId).take svc.searchLimit)
      (chunkIdsOf svc docId versionId) w :=
  reads_ok fun w => (w.chunks.select fun _ row =>
    row.docId == docId && row.versionId == versionId).take svc.searchLimit

theorem mem_chunk_ids (docId versionId id : ℕ) (h : id ∈ (w.chunks.select fun _ row =>
    row.docId == docId && row.versionId == versionId).take svc.searchLimit) :
    ∃ row, w.chunks.get id = some row ∧ row.docId = docId ∧ row.versionId = versionId := by
  obtain ⟨row,hrow,hp⟩ := (Table.mem_select _ _ _).mp (List.mem_of_mem_take h)
  simp only [Bool.and_eq_true, beq_iff_eq] at hp
  exact ⟨row,hrow,hp⟩

end Readers

section Slugs
variable {svc : WikiService} {w : World}

def slugOwner (docs : Table WikiDoc) (ns slug : Text) : Option ℕ :=
  (docs.select fun _ doc => doc.ns == ns && doc.slug == slug).head?

def Blocked (docs : Table WikiDoc) (ns : Text) (exclude : Option ℕ) (slug : Text) : Prop :=
  reserved slug = true ∨ ∃ id, slugOwner docs ns slug = some id ∧ some id ≠ exclude

/-- The slug that `unique_slug` returns for a base. -/
def Selected (docs : Table WikiDoc) (ns base : Text) (exclude : Option ℕ) (now : ℕ)
    (slug : Text) : Prop :=
  (∃ attempt < 100, ¬Blocked docs ns exclude (slugCandidate base attempt) ∧
    (∀ i < attempt, Blocked docs ns exclude (slugCandidate base i)) ∧
    slug = slugCandidate base attempt) ∨
  ((∀ i < 100, Blocked docs ns exclude (slugCandidate base i)) ∧ slug = base++ '-'::decimal now)

theorem reads_owner (ns slug : Text) :
    Reads (fun found => found = slugOwner w.docs ns slug) (findDocIdBySlug ns slug) w :=
  reads_ok fun w => slugOwner w.docs ns slug

def Probed (docs : Table WikiDoc) (ns base : Text) (exclude : Option ℕ) (attempts : List ℕ)
    (found : Option Text) : Prop :=
  (found = none ∧ ∀ i ∈ attempts, Blocked docs ns exclude (slugCandidate base i)) ∨
  ∃ before i after, attempts = before++i::after ∧
    (∀ j ∈ before, Blocked docs ns exclude (slugCandidate base j)) ∧
    ¬Blocked docs ns exclude (slugCandidate base i) ∧ found = some (slugCandidate base i)

theorem probed_skip (docs : Table WikiDoc) (ns base : Text) (exclude : Option ℕ) (attempt : ℕ)
    (rest : List ℕ) (found : Option Text) (h : Blocked docs ns exclude (slugCandidate base attempt))
    (hrest : Probed docs ns base exclude rest found) : Probed docs ns base exclude (attempt::rest)
    found := by
  rcases hrest with ⟨rfl,hall⟩ | ⟨before,i,after,rfl,hbefore,hfree,rfl⟩
  · exact Or.inl ⟨rfl,by simpa [h] using hall⟩
  · exact Or.inr ⟨attempt::before,i,after,rfl,by simpa [h] using hbefore,hfree,rfl⟩

theorem probed_stop (docs : Table WikiDoc) (ns base : Text) (exclude : Option ℕ) (attempt : ℕ)
    (rest : List ℕ) (h : ¬Blocked docs ns exclude (slugCandidate base attempt)) :
    Probed docs ns base exclude (attempt::rest) (some (slugCandidate base attempt)) :=
  Or.inr ⟨[],attempt,rest,rfl,fun _ h => (nomatch h),h,rfl⟩

theorem reads_probe (ns base : Text) (exclude : Option ℕ) (attempts : List ℕ) :
    Reads (Probed w.docs ns base exclude attempts) (probeSlugs ns base exclude attempts) w := by
  induction attempts with
  | nil => exact Or.inl ⟨rfl,fun _ h => nomatch h⟩
  | cons attempt rest ih =>
    apply safe_ite
    · intro hr
      exact reads_mono _ ih fun found => probed_skip _ _ _ _ _ _ found (Or.inl hr)
    intro hr
    apply reads_bind _ _ (reads_owner ns _)
    rintro found rfl
    split
    · rename_i hnone
      apply probed_stop
      rintro (h | ⟨id,hid,-⟩)
      · exact hr h
      · rw [hnone] at hid
        cases hid
    rename_i id hsome
    apply safe_ite
    · intro heq
      apply probed_stop
      rintro (h | ⟨other,hother,hne⟩)
      · exact hr h
      · rw [hsome] at hother
        cases hother
        exact hne heq
    · intro hne
      exact reads_mono _ ih fun found =>
        probed_skip _ _ _ _ _ _ found (Or.inr ⟨id,hsome,hne⟩)

theorem reads_unique_slug (ns base : Text) (exclude : Option ℕ) (now : ℕ) : Reads
    (Selected w.docs ns (slugifyPath svc.toLibrary base) exclude now)
    (uniqueSlug svc ns base exclude now) w := by
  apply reads_bind _ _ (reads_probe ns _ exclude _)
  rintro found (⟨rfl,hall⟩ | ⟨before,i,after,hsplit,hbefore,hfree,rfl⟩)
  · exact Or.inr ⟨fun i hi => hall i (List.mem_range.mpr hi),rfl⟩
  have hsorted := List.pairwise_lt_range (n := 100)
  have hmem : i ∈ List.range 100 := by simp [hsplit]
  refine Or.inl ⟨i,List.mem_range.mp hmem,hfree,?_,rfl⟩
  intro j hj
  apply hbefore
  have hin : j ∈ List.range 100 := List.mem_range.mpr (hj.trans (List.mem_range.mp hmem))
  rw [hsplit] at hin hsorted
  have hafter := (List.pairwise_cons.mp (List.pairwise_append.mp hsorted).2.1).1
  rcases List.mem_append.mp hin with h | h
  · exact h
  rcases List.mem_cons.mp h with h | h
  · omega
  · have := hafter j h
    omega

end Slugs

section Loops
variable {svc : WikiService} {P : Table WikiDoc → Text → Text → Option ℕ → Prop}
  {A : ℕ → ℕ → Prop} {w : World}

def dropAll {α : Type} (t : Table α) (ids : List ℕ) : Table α := ids.foldl Table.remove t

def markAll (current : Bool) (t : Table ChunkRow) (ids : List ℕ) : Table ChunkRow :=
  ids.foldl (fun t id => t.update id (ChunkRow.mark current)) t

def addAll (t : Table ChunkRow) (rows : List ChunkRow) : Table ChunkRow := rows.foldl Table.add t

theorem get_drop_all {α : Type} (t : Table α) (ids : List ℕ) (i : ℕ) :
    (dropAll t ids).get i = if i ∈ ids then none else t.get i := by
  induction ids generalizing t with
  | nil => simp [dropAll]
  | cons id ids ih =>
    have h := ih (t.remove id)
    rw [Table.get_remove] at h
    by_cases hi : i = id <;> by_cases hm : i ∈ ids <;> simp [dropAll, hi, hm] at h ⊢ <;> exact h

theorem mark_mark (current : Bool) :
    ChunkRow.mark current ∘ ChunkRow.mark current = ChunkRow.mark current := rfl

theorem get_mark_all (current : Bool) (t : Table ChunkRow) (ids : List ℕ) (i : ℕ) :
    (markAll current t ids).get i =
      if i ∈ ids then (t.get i).map (ChunkRow.mark current) else t.get i := by
  induction ids generalizing t with
  | nil => simp [markAll]
  | cons id ids ih =>
    have h := ih (t.update id (ChunkRow.mark current))
    rw [Table.get_update] at h
    have hcons : markAll current t (id::ids) =
        markAll current (t.update id (ChunkRow.mark current)) ids := rfl
    rw [hcons, h]
    by_cases hi : i = id <;> by_cases hm : i ∈ ids <;> simp [hi, hm, mark_mark]

def Loose (w : World) (id : ℕ) : Prop :=
  ∀ row doc, w.chunks.get id = some row → w.docs.get row.docId = some doc →
    doc.currentVersion ≠ 0 → doc.currentVersion ≠ row.versionId

def Unpublished (w : World) (id : ℕ) : Prop := ∀ docId ids, Published w docId ids → id ∉ ids

theorem loose_removed (id i : ℕ) (h : Loose w i) :
    Loose { w with chunks := w.chunks.remove id } i := by
  intro row doc hrow hdoc
  rw [Table.get_remove] at hrow
  split at hrow
  · cases hrow
  · exact h row doc hrow hdoc

theorem published_removed (id docId : ℕ) (ids : List ℕ)
    (h : Published { w with versions := w.versions.remove id } docId ids) :
    Published w docId ids := by
  obtain ⟨doc,hdoc,hhead,hchain⟩ := h
  refine ⟨doc,hdoc,hhead,chain_kept w.versions ids hchain ?_⟩
  intro i hi
  obtain ⟨v,hv,-⟩ := chain_row ids hchain i hi
  rw [Table.get_remove] at hv ⊢
  split at hv
  · cases hv
  · rename_i hne
    rw [if_neg hne]

theorem keeps_drop_chunks (ids : List ℕ) (h : ∀ id ∈ ids, Loose w id) :
    Keeps svc P A (fun _ t => t = { w with chunks := dropAll w.chunks ids })
      (each removeChunk ids) w := by
  induction ids generalizing w with
  | nil => exact rfl
  | cons id ids ih =>
    apply keeps_bind
    apply keeps_write _ _ (.dropChunk w id (h id (by simp)))
    intro _ _
    exact ih (w := { w with chunks := w.chunks.remove id }) fun i hi =>
      loose_removed id i (h i (by simp [hi]))

theorem keeps_drop_versions (ids : List ℕ) (h : ∀ id ∈ ids, Unpublished w id) :
    Keeps svc P A (fun _ t => t = { w with versions := dropAll w.versions ids })
      (each removeVersion ids) w := by
  induction ids generalizing w with
  | nil => exact rfl
  | cons id ids ih =>
    apply keeps_bind
    apply keeps_write _ _ (.dropVersion w id (h id (by simp)))
    intro _ _
    exact ih (w := { w with versions := w.versions.remove id }) fun i hi docId chain hchain =>
      h i (by simp [hi]) docId chain (published_removed id docId chain hchain)

theorem keeps_mark (current : Bool) (ids : List ℕ) :
    Keeps svc P A (fun _ t => t = { w with chunks := markAll current w.chunks ids })
      (each (setCurrent svc current) ids) w := by
  induction ids generalizing w with
  | nil => exact rfl
  | cons id ids ih =>
    apply keeps_bind
    apply keeps_write _ _ (.mark w id current)
    intro _ _
    exact ih (w := { w with chunks := w.chunks.update id (ChunkRow.mark current) })

def Addable (svc : WikiService) (w : World) (row : ChunkRow) : Prop :=
  (∃ v, w.versions.get row.versionId = some v ∧ v.docId = row.docId ∧
    ∃ rows, RowsOf svc v rows ∧ core row ∈ rows) ∧
  ∀ doc, w.docs.get row.docId = some doc → doc.currentVersion ≠ row.versionId

theorem keeps_add_chunks (rows : List ChunkRow) (h : ∀ row ∈ rows, Addable svc w row) :
    Keeps svc P A (fun _ t => t = { w with chunks := addAll w.chunks rows })
      (addChunks rows) w := by
  induction rows generalizing w with
  | nil => exact rfl
  | cons row rows ih =>
    obtain ⟨⟨v,hget,hdoc,hrow⟩,hnot⟩ := h row (by simp)
    apply keeps_bind
    apply keeps_write _ _ (.chunk w row v hget hdoc hrow hnot)
    intro id _
    apply keeps_bind
    apply keeps_mono _ (ih (w := { w with chunks := w.chunks.add row })
      fun other hother => h other (by simp [hother]))
    intro ids t ht
    exact ht

theorem stored_add_all (rows : List ChunkRow) (docId versionId : ℕ)
    (h : ∀ row ∈ rows, row.docId = docId ∧ row.versionId = versionId) :
    storedRows { w with chunks := addAll w.chunks rows } docId versionId =
      storedRows w docId versionId++rows := by
  induction rows generalizing w with
  | nil => simp [addAll]
  | cons row rows ih =>
    have hrest := ih (w := { w with chunks := w.chunks.add row }) fun r hr => h r (by simp [hr])
    rw [stored_add, if_pos (h row (by simp)), List.append_assoc] at hrest
    exact hrest

end Loops

section Commit
variable {svc : WikiService} {P : Table WikiDoc → Text → Text → Option ℕ → Prop}
  {A : ℕ → ℕ → Prop} {w : World}

/-- What `prepare_commit` guarantees of a content and its rows. -/
structure PreparedOk (svc : WikiService) (p : Prepared) : Prop where
  checksum : p.checksum = checksumFor svc.toLibrary [p.content]
  normal : ∃ raw, p.content = normalizeContent svc.toLibrary raw
  nonempty : p.content ≠ []
  bound : byteLen p.content ≤ maxDocBytes
  rows : ∃ title plan, chunkMarkdown svc.tables p.content = some plan ∧
    chunkRows svc title p.content p.checksum plan = some p.chunks

theorem prepare_ok (raw : CommitInput) (p : Prepared) (h : prepareCommit svc raw = .ok p) :
    PreparedOk svc p ∧ p.input = raw.normalize ∧ p.content = normalizeContent svc.toLibrary
    raw.content := by
  simp only [prepareCommit, bind, Except.bind] at h
  split at h
  · cases h
  split at h
  · cases h
  split at h
  · cases h
  rename_i hne
  split at h
  · cases h
  rename_i hbound
  split at h
  · cases h
  rename_i plan hplan
  split at h
  · cases h
  rename_i rows hrows
  cases h
  exact ⟨⟨rfl,⟨_,rfl⟩,by simpa using hne,by simpa using hbound,_,plan,hplan,hrows⟩,rfl,rfl⟩

variable (svc) in
theorem prepare_total (raw : CommitInput) (htitle : raw.normalize.title ≠ [])
    (hvalid : raw.normalize.validate svc = .ok ())
    (hne : normalizeContent svc.toLibrary raw.content ≠ [])
    (hsize : byteLen (normalizeContent svc.toLibrary raw.content) ≤ maxDocBytes) :
    ∃ p, prepareCommit svc raw = .ok p := by
  obtain ⟨plan,rows,hplan,hrows⟩ := chunk_rows_total svc raw.normalize.title
    (normalizeContent svc.toLibrary raw.content)
    (checksumFor svc.toLibrary [normalizeContent svc.toLibrary raw.content]) hne
  have htitle' : raw.normalize.title.isEmpty = false := by simpa using htitle
  have hne' : (normalizeContent svc.toLibrary raw.content).isEmpty = false := by simpa using hne
  have hcontent : raw.normalize.content = raw.content := rfl
  refine ⟨⟨raw.normalize,normalizeContent svc.toLibrary raw.content,
    checksumFor svc.toLibrary [normalizeContent svc.toLibrary raw.content],
    plan.forcedSplits,plan.capped,rows⟩,?_⟩
  simp only [prepareCommit, bind, Except.bind, htitle', hvalid, hcontent, hne',
    Nat.not_lt.mpr hsize, hplan, hrows]
  rfl

variable (input : CommitInput) (p : Prepared) (target : Target) (actor : Text) (doc : WikiDoc)

theorem prepared_version (now : ℕ)
    (h : PreparedOk svc p) : VersionOk svc (versionRow p target actor now) :=
  ⟨h.checksum,rfl,h.normal,h.nonempty,h.bound⟩

/-- The document an update names: active, and at the version the update was based on. -/
def Existing (w : World) (input : CommitInput) : Option (ℕ × WikiDoc) → Prop
  | none => input.docId = none
  | some (id,doc) => input.docId = some id ∧ w.docs.get id = some doc ∧ doc.currentVersion ≠ 0 ∧
      doc.status ≠ .archived ∧ input.parentVersion = some doc.currentVersion

theorem reads_existing : Reads (Existing w input) (existingDoc svc input) w := by
  unfold existingDoc
  split
  · assumption
  rename_i id hid
  apply reads_bind _ _ (reads_doc id)
  rintro doc ⟨hdoc,hne⟩
  apply reads_refuse
  intro hstatus
  split
  · trivial
  rename_i parent hparent
  apply reads_refuse
  intro hcur
  exact ⟨hid,hdoc,hne,hstatus,by rw [hparent, not_not.mp hcur]⟩

def MovedTo (svc : WikiService) (docs : Table WikiDoc) (input : CommitInput) (now id : ℕ)
    (doc : WikiDoc) (slug : Text) : Prop :=
  if input.slug.getD doc.slug ≠ doc.slug ∨ input.ns.getD doc.ns ≠ doc.ns then
    Selected docs (input.ns.getD doc.ns) (slugifyPath svc.toLibrary (input.slug.getD doc.slug))
      (some id) now slug
  else slug = doc.slug

def CreatedAs (svc : WikiService) (docs : Table WikiDoc) (input : CommitInput) (now : ℕ)
    (slug : Text) : Prop :=
  Selected docs (input.ns.getD defaultNamespace)
    (slugifyPath svc.toLibrary (input.slug.getD (slugify svc.tables input.title))) none now slug

def SlugKnown (svc : WikiService) (P : Table WikiDoc → Text → Text → Option ℕ → Prop)
    (docs : Table WikiDoc) (input : CommitInput) (now : ℕ) : Option (ℕ × WikiDoc) → Prop
  | none => ∀ slug, CreatedAs svc docs input now slug →
      P docs (input.ns.getD defaultNamespace) slug none
  | some (id,doc) => ∀ slug, MovedTo svc docs input now id doc slug →
      (input.ns.getD doc.ns = doc.ns ∧ slug = doc.slug) ∨
        P docs (input.ns.getD doc.ns) slug (some id)

theorem reads_moved (id : ℕ) (doc : WikiDoc) (now : ℕ) :
    Reads (MovedTo svc w.docs input now id doc) (movedSlug svc input id doc now) w := by
  apply safe_ite
  · intro hmoved
    apply reads_mono _ (reads_unique_slug _ _ _ _)
    intro slug hsel
    rw [MovedTo, if_pos hmoved]
    exact hsel
  · intro hstays
    show MovedTo svc w.docs input now id doc doc.slug
    rw [MovedTo, if_neg hstays]

/-- Where a commit goes: the document it updates, or the one it has just created. -/
def Resolution (svc : WikiService) (w : World) (input : CommitInput) (tags : List Text)
    (aclLabel actor : Text) (now : ℕ) (target : Target) (t : World) :
    Option (ℕ × WikiDoc) → Prop
  | none => CreatedAs svc w.docs input now target.slug ∧
      target.docId = w.docs.last+1 ∧ target.created = true ∧
      target.ns = input.ns.getD defaultNamespace ∧ target.prevVersion = 0 ∧
      t = { w with docs := w.docs.add (sentinelDoc input target.ns target.slug tags aclLabel
        actor now) }
  | some (id,doc) => MovedTo svc w.docs input now id doc target.slug ∧
      target.docId = id ∧ target.created = false ∧
      target.ns = input.ns.getD doc.ns ∧ target.prevVersion = doc.currentVersion ∧ t = w

theorem keeps_resolve (tags : List Text) (aclLabel actor : Text) (now : ℕ)
    (existing : Option (ℕ × WikiDoc))
    (hslug : SlugKnown svc P w.docs input now existing) :
    Keeps svc P A (fun target t => Resolution svc w input tags aclLabel actor now target t existing)
      (resolveTarget svc input tags aclLabel actor now existing) w := by
  match existing with
  | some (id,doc) =>
    apply keeps_read _ _ (reads_moved input id doc now)
    intro slug hmoved
    exact ⟨hmoved,rfl,rfl,rfl,rfl,rfl⟩
  | none =>
    apply keeps_read _ _ (reads_unique_slug _ _ _ _)
    intro slug hsel
    apply keeps_bind
    apply keeps_write
    · exact .sentinel w _ rfl (hslug slug hsel)
    · intro id hid
      cases hid
      exact ⟨hsel,rfl,rfl,rfl,rfl,rfl⟩

structure Ready (svc : WikiService) (P : Table WikiDoc → Text → Text → Option ℕ → Prop)
    (A : ℕ → ℕ → Prop) (w : World) (target : Target) (doc : WikiDoc) : Prop where
  ok : Ok svc w
  row : w.docs.get target.docId = some doc
  current : doc.currentVersion = target.prevVersion
  created : target.created = decide (target.prevVersion = 0)
  slug : (target.ns = doc.ns ∧ target.slug = doc.slug) ∨
    P w.docs target.ns target.slug (some target.docId)
  auth : A target.docId target.prevVersion

theorem resolution_ready (tags : List Text) (aclLabel actor : Text) (now : ℕ)
    (existing : Option (ℕ × WikiDoc)) (target : Target) (t : World) (hok : Ok svc w)
    (hex : Existing w input existing) (hslug : SlugKnown svc P w.docs input now existing)
    (hauth : ∀ id doc, existing = some (id,doc) → A id doc.currentVersion)
    (hnew : existing = none → ∀ id, A id 0)
    (h : Resolution svc w input tags aclLabel actor now target t existing) :
    ∃ doc, Ready svc P A t target doc := by
  match existing with
  | some (id,doc) =>
    obtain ⟨hmoved,rfl,hcreated,hns,hprev,rfl⟩ := h
    obtain ⟨-,hdoc,hne,-,-⟩ := hex
    refine ⟨doc,hok,hdoc,hprev.symm,?_,?_,?_⟩
    · rw [hcreated, hprev]
      simpa using hne
    · rw [hns]
      exact hslug _ hmoved
    · rw [hprev]
      exact hauth _ doc rfl
  | none =>
    obtain ⟨hsel,hid,hcreated,hns,hprev,rfl⟩ := h
    have hfree : P w.docs target.ns target.slug none := by
      rw [hns]
      exact hslug _ hsel
    have hchange : Change svc P A w { w with docs := w.docs.add (sentinelDoc input target.ns
      target.slug tags aclLabel actor now) } := .sentinel w _ rfl hfree
    refine ⟨sentinelDoc input target.ns target.slug tags aclLabel actor now,
      change_ok hok hchange,?_,hprev.symm,?_,Or.inl ⟨rfl,rfl⟩,?_⟩
    · rw [hid]
      exact Table.get_add_new _ _
    · rw [hcreated, hprev]
      rfl
    · rw [hprev]
      exact hnew rfl _

theorem current_le_last (hok : Ok svc w) (docId : ℕ) (doc : WikiDoc)
    (h : w.docs.get docId = some doc) : doc.currentVersion ≤ w.versions.last := by
  by_cases hzero : doc.currentVersion = 0
  · omega
  · obtain ⟨v,hv,-⟩ := hok.tiled docId doc h hzero
    exact (Table.get_bound _ _ _ hv).2

theorem patched_core (versionId : ℕ) (aclLabel : Text)
    (h : PreparedOk svc p) : (patched p target versionId aclLabel).map core = p.chunks := by
  obtain ⟨title,plan,-,hrows⟩ := h.rows
  rw [patched, List.map_map]
  conv_rhs => rw [← List.map_id p.chunks]
  apply List.map_congr_left
  intro row hrow
  have hcore := chunk_rows_core title _ _ plan _ hrows row hrow
  conv_rhs => rw [id, ← hcore]
  rfl

theorem version_rows (now : ℕ)
    (h : PreparedOk svc p) : RowsOf svc (versionRow p target actor now) p.chunks :=
  h.rows

theorem patched_addable (aclLabel actor : Text)
    (now : ℕ) (hp : PreparedOk svc p) (r : Ready svc P A w target doc) (row : ChunkRow)
    (hrow : row ∈ patched p target (w.versions.last+1) aclLabel) :
    Addable svc { w with versions := w.versions.add (versionRow p target actor now) } row := by
  have hcore : core row ∈ p.chunks := by
    rw [← patched_core p target (w.versions.last+1) aclLabel hp]
    exact List.mem_map_of_mem hrow
  obtain ⟨bare,-,rfl⟩ := List.mem_map.mp hrow
  refine ⟨⟨versionRow p target actor now,Table.get_add_new _ _,rfl,p.chunks,
    version_rows p target actor now hp,hcore⟩,?_⟩
  intro other hother
  have hle := current_le_last r.ok target.docId other hother
  show other.currentVersion ≠ w.versions.last+1
  omega

theorem patched_tiled (target : Target) (aclLabel actor : Text) (now : ℕ)
    (hp : PreparedOk svc p) (hok : Ok svc w) :
    Tiled svc { w with
      versions := w.versions.add (versionRow p target actor now)
      chunks := addAll w.chunks (patched p target (w.versions.last+1) aclLabel) }
      target.docId (w.versions.last+1) := by
  refine ⟨versionRow p target actor now,Table.get_add_new _ _,?_⟩
  have hempty : storedRows { w with versions := w.versions.add (versionRow p target actor now) }
      target.docId (w.versions.last+1) = [] := by
    unfold storedRows
    rw [List.map_eq_nil_iff, List.filter_eq_nil_iff]
    intro r hr
    have hgiven := hok.given r.1 r.2 ((Table.mem_rows _ _ _).mp hr)
    have hne : r.2.versionId ≠ w.versions.last+1 := by omega
    simp [hne]
  have hstored := stored_add_all
    (w := { w with versions := w.versions.add (versionRow p target actor now) })
    (patched p target (w.versions.last+1) aclLabel) target.docId (w.versions.last+1)
    (by
      intro row hrow
      obtain ⟨bare,-,rfl⟩ := List.mem_map.mp hrow
      exact ⟨rfl,rfl⟩)
  rw [hempty, List.nil_append] at hstored
  rw [hstored, patched_core p target _ aclLabel hp]
  exact version_rows p target actor now hp

theorem activation (tags : List Text)
    (aclLabel actor : Text) (now generation : ℕ) (hp : PreparedOk svc p)
    (r : Ready svc P A w target doc) (t : World)
    (ht : t = { w with
      versions := w.versions.add (versionRow p target actor now)
      chunks := addAll w.chunks (patched p target (w.versions.last+1) aclLabel) }) :
    Change svc P A t { t with docs := t.docs.update target.docId (publishedDoc p target tags
      aclLabel actor now (w.versions.last+1) generation) } := by
  subst ht
  apply Change.flip _ target.docId doc _ (versionRow p target actor now)
  · exact r.row
  · exact Table.get_add_new _ _
  · rfl
  · have hcreated := r.created
    show (if target.created then none else some target.prevVersion) = _
    rw [hcreated, r.current]
    simp
  · have hle := current_le_last r.ok target.docId doc r.row
    exact Nat.lt_succ_of_le hle
  · exact patched_tiled p target aclLabel actor now hp r.ok
  · exact r.slug
  · rw [r.current]
    exact r.auth

structure Activated (w : World) (p : Prepared) (target : Target) (tags : List Text)
    (aclLabel actor : Text) (now generation : ℕ) (out : CommitOutput) (t : World) : Prop where
  docs : t.docs = w.docs.update target.docId
    (publishedDoc p target tags aclLabel actor now (w.versions.last+1) generation)
  versions : t.versions = w.versions.add (versionRow p target actor now)
  created : out.created = target.created
  fresh : out.idempotent = false

theorem superseded_loose (docId versionId : ℕ) (doc : WikiDoc) (hdoc : w.docs.get docId = some doc)
    (hcur : doc.currentVersion ≠ versionId) (id : ℕ) (h : id ∈ (w.chunks.select fun _ row =>
      row.docId == docId && row.versionId == versionId).take svc.searchLimit) : Loose w id := by
  obtain ⟨row,hrow,hd,hv⟩ := mem_chunk_ids docId versionId id h
  intro other found hother hfound _
  rw [hrow] at hother
  cases hother
  rw [hd, hdoc] at hfound
  cases hfound
  rw [hv]
  exact hcur

theorem keeps_activate (tags : List Text) (aclLabel actor : Text) (now generation : ℕ)
    (hp : PreparedOk svc p) (r : Ready svc P A w target doc) : Keeps svc P A
    (Activated w p target tags aclLabel actor now generation)
    (activate svc actor p now generation tags aclLabel target) w := by
  apply keeps_bind
  apply keeps_write _ _ (.version w _ (prepared_version p target actor now hp))
  intro versionId hid
  cases hid
  apply keeps_bind
  apply keeps_mono _ (keeps_add_chunks _ (patched_addable p target doc aclLabel actor now hp r))
  intro chunkIds t ht
  apply keeps_bind
  apply keeps_write _ _ (activation p target doc tags aclLabel actor now _ hp r t ht)
  intro _ _
  apply keeps_bind
  apply keeps_mono _ (keeps_mark true chunkIds)
  intro _ marked hmarked
  have hrow : marked.docs.get target.docId = some (publishedDoc p target tags aclLabel actor now
      (w.versions.last+1) generation doc) := by
    rw [hmarked, ht]
    show (w.docs.update target.docId _).get target.docId = _
    rw [Table.get_update_self, r.row]
    rfl
  have hdocs : marked.docs = w.docs.update target.docId (publishedDoc p target tags aclLabel actor
      now (w.versions.last+1) generation) := by
    rw [hmarked, ht]
  have hversions : marked.versions = w.versions.add (versionRow p target actor now) := by
    rw [hmarked, ht]
  apply keeps_bind
  apply keeps_mono (Q := fun _ t => t.docs = marked.docs ∧ t.versions = marked.versions)
  · apply safe_do_if
    · intro _
      apply keeps_read _ _ (reads_chunk_ids _ _)
      rintro ids rfl
      apply keeps_mono _ (keeps_drop_chunks _ (superseded_loose _ _ _ hrow ?_))
      · rintro _ t rfl
        exact ⟨rfl,rfl⟩
      have hle := current_le_last r.ok target.docId doc r.row
      show w.versions.last+1 ≠ target.prevVersion
      rw [← r.current]
      omega
    · intro _
      exact ⟨rfl,rfl⟩
  rintro _ t ⟨hd,hv⟩
  apply keeps_bind
  apply keeps_write _ _ (.log t _)
  intro _ _
  apply keeps_read _ _ (reads_doc _)
  intro _ _
  apply keeps_read _ _ (reads_version _)
  intro _ _
  exact ⟨hd.trans hdocs,hv.trans hversions,rfl,rfl⟩

def Committed (svc : WikiService) (w : World) (actor : Text) (p : Prepared) (now : ℕ)
    (existing : Option (ℕ × WikiDoc)) (out : CommitOutput) (t : World) : Prop :=
  ∃ aclLabel target middle, (∀ given, p.input.aclLabel = some given → aclLabel = trim given) ∧
    Resolution svc w p.input (commitTags p.input existing) aclLabel actor now target middle existing ∧
    Activated middle p target (commitTags p.input existing) aclLabel actor now
      (existing.elim 1 (fun e => e.2.generation+1)) out t

theorem reads_label (existing : Option (ℕ × WikiDoc)) :
    Reads (fun label => ∀ given, input.aclLabel = some given → label = trim given)
      (commitLabel input existing) w := by
  unfold commitLabel
  split
  · rename_i label _ hlabel
    intro given hgiven
    rw [hlabel] at hgiven
    cases hgiven
    rfl
  · rename_i hnone
    intro given hgiven
    rw [hnone] at hgiven
    cases hgiven
  · rename_i hnone
    apply reads_peek
    intro given hgiven
    rw [hnone] at hgiven
    cases hgiven

theorem keeps_publish (p : Prepared) (now : ℕ) (existing : Option (ℕ × WikiDoc))
    (hp : PreparedOk svc p) (hok : Ok svc w) (hex : Existing w p.input existing)
    (hslug : SlugKnown svc P w.docs p.input now existing)
    (hauth : ∀ id doc, existing = some (id,doc) → A id doc.currentVersion)
    (hnew : existing = none → ∀ id, A id 0) :
    Keeps svc P A (Committed svc w actor p now existing) (publish svc actor p now existing) w := by
  apply keeps_read _ _ (reads_label p.input existing)
  intro aclLabel hlabel
  apply keeps_bind
  apply keeps_mono _ (keeps_resolve p.input _ aclLabel actor now existing hslug)
  intro target middle hres
  obtain ⟨doc,r⟩ := resolution_ready p.input _ aclLabel actor now existing target middle hok hex
    hslug hauth hnew hres
  apply keeps_mono _ (keeps_activate p target doc _ aclLabel actor now _ hp r)
  intro out t hact
  exact ⟨aclLabel,target,middle,hlabel,hres,hact⟩

theorem reads_replay (id : ℕ) (doc : WikiDoc) :
    Reads (fun out => out.idempotent = true ∧ out.created = false) (replay svc id doc) w := by
  apply reads_bind _ _ (reads_version _)
  intro v _
  apply reads_bind _ _ (reads_chunk_ids _ _)
  intro ids _
  exact ⟨rfl,rfl⟩

def Parent (input : CommitInput) (docId version : ℕ) : Prop :=
  (input.docId = none ∧ version = 0) ∨
  (input.docId = some docId ∧ input.parentVersion = some version ∧ version ≠ 0)

def CommitPost (svc : WikiService) (w : World) (actor : Text) (p : Prepared) (now : ℕ)
    (out : CommitOutput) (t : World) : Prop :=
  (∃ id doc, Existing w p.input (some (id,doc)) ∧ unchanged svc p.input p.checksum doc = true ∧
    out.idempotent = true ∧ out.created = false ∧ t = w) ∨
  ∃ existing, Existing w p.input existing ∧
    (∀ id doc, existing = some (id,doc) → unchanged svc p.input p.checksum doc = false) ∧
    Committed svc w actor p now existing out t

theorem keeps_commit (p : Prepared) (now : ℕ) (hp : PreparedOk svc p) (hok : Ok svc w)
    (hslug : ∀ existing, Existing w p.input existing → SlugKnown svc P w.docs p.input now existing)
    (hauth : ∀ docId version, Parent p.input docId version → A docId version) : Keeps svc P A
    (CommitPost svc w actor p now) (commitPrepared svc actor p now) w := by
  apply keeps_read _ _ (reads_existing p.input)
  intro existing hex
  match existing, hex with
  | none, hex =>
    apply keeps_mono _ (keeps_publish actor p now none hp hok hex (hslug none hex)
      (fun _ _ h => nomatch h) fun _ id => hauth id 0 (Or.inl ⟨hex,rfl⟩))
    intro out t h
    exact Or.inr ⟨none,hex,fun _ _ h => (nomatch h),h⟩
  | some (id,doc), hex =>
    apply safe_ite
    · intro hsame
      apply keeps_looks _ (reads_replay id doc)
      rintro out ⟨hidem,hcreated⟩
      exact Or.inl ⟨id,doc,hex,hsame,hidem,hcreated,rfl⟩
    intro hchanged
    apply keeps_mono _ (keeps_publish actor p now (some (id,doc)) hp hok hex (hslug _ hex) ?_
      (fun h => nomatch h))
    · intro out t h
      refine Or.inr ⟨some (id,doc),hex,?_,h⟩
      intro _ _ heq
      cases heq
      simpa using hchanged
    · intro _ _ heq
      cases heq
      exact hauth _ _ (Or.inr ⟨hex.1,hex.2.2.2.2,hex.2.2.1⟩)

end Commit

section Turn
variable {svc : WikiService} {P : Table WikiDoc → Text → Text → Option ℕ → Prop}
  {A : ℕ → ℕ → Prop} {w : World}

theorem keeps_turn (status : DocStatus) (refusal : String) (kind : EventKind) (actor : Text)
    (docId now : ℕ) :
    Keeps svc P A (fun _ _ => True) (turn svc status refusal kind actor docId now) w := by
  apply keeps_read _ _ (reads_doc docId)
  intro doc _
  apply keeps_refuse
  intro _
  apply keeps_bind
  apply keeps_write _ _ (.turn w docId (turnedDoc status doc.generation actor now)
    fun _ => ⟨rfl,rfl,rfl⟩)
  intro _ _
  apply keeps_bind
  apply keeps_read _ _ (reads_chunk_ids _ _)
  intro ids _
  apply keeps_mono _ (keeps_mark _ ids)
  intro _ t _
  apply keeps_bind
  apply keeps_write _ _ (.log t _)
  intro _ _
  apply keeps_read _ _ (reads_doc docId)
  intro _ _
  trivial

theorem keeps_labels (defaults : List (Text × Text)) :
    Keeps svc P A (fun _ _ => True) (setAclDefaults defaults) w :=
  keeps_write _ _ (.labels w _) fun _ _ => trivial

end Turn

end AndaBrain.WikiSteps
