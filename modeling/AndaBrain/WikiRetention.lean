import AndaBrain.WikiStore

/-!
# Event retention

`prune_events` of `wiki/mod.rs` removes the oldest events beyond a cap. The newest
`DigestExtracted` event of a document is the ledger that the next digest reads, and stays.
-/

set_option autoImplicit false

namespace AndaBrain.WikiRetention
open Foundation WikiStore

structure LoggedEvent where
  kind : String
  docId : Option ℕ

def eventDigestExtracted : String := "DigestExtracted"
def eventEventsPruned : String := "EventsPruned"

abbrev Events := Table LoggedEvent

abbrev Newest := List (ℕ × ℕ)

section Prune
variable (svc : WikiService) (events : Events)

def digestRows : List (ℕ × LoggedEvent) :=
  events.rows.filter fun r => r.2.kind == eventDigestExtracted

/-- `or_insert` and then the larger id. -/
def entryOf (old : Option (ℕ × ℕ)) (id : ℕ) : ℕ :=
  match old with
  | none => id
  | some old => max old.2 id

def note (newest : Newest) (row : ℕ × LoggedEvent) : Newest :=
  match row.2.docId with
  | none => newest
  | some docId =>
    (docId,entryOf (newest.find? (·.1 == docId)) row.1)::newest.filter (·.1 != docId)

def lastRows (cursor : ℕ) : List (ℕ × LoggedEvent) :=
  let rows := (digestRows events).filter (·.1 < cursor)
  rows.drop (rows.length-svc.searchLimit)

/-- Pages below a falling cursor, as in `scanFrom`. -/
def headsFrom : ℕ → ℕ → Newest → Newest
  | 0, _, newest => newest
  | fuel+1, cursor, newest =>
    let page := lastRows svc events cursor
    match page.head? with
    | none => newest
    | some first =>
      if page.length < svc.searchLimit then page.foldl note newest
      else headsFrom fuel first.1 (page.foldl note newest)

def digestLedgerHeads : List ℕ :=
  (headsFrom svc events (events.last+1) (events.last+1) []).map Prod.snd

structure PruneState where
  events : Events
  cursor : ℕ
  keptLedger : ℕ
  removed : ℕ

def pruneOne (heads : List ℕ) (s : PruneState) (id : ℕ) : PruneState :=
  if id ∈ heads then { s with cursor := max s.cursor id, keptLedger := s.keptLedger+1 }
  else { s with cursor := max s.cursor id, events := s.events.remove id, removed := s.removed+1 }

def idsAfter (t : Events) (cursor : ℕ) : List ℕ := t.select fun id _ => decide (cursor < id)

/-- The loop. It fails when it is not done after `fuel` pages. -/
def pruneFrom (maxKeep : ℕ) (heads : List ℕ) : ℕ → PruneState → Option PruneState
  | 0, _ => none
  | fuel+1, s =>
    let total := s.events.rows.length
    if total ≤ maxKeep+s.keptLedger then some s
    else
      let excess := min (total-maxKeep-s.keptLedger) svc.searchLimit
      let ids := (idsAfter s.events s.cursor).take excess
      if ids = [] then some s else pruneFrom maxKeep heads fuel (ids.foldl (pruneOne heads) s)

def pruneEvents (maxKeep : ℕ) : Option (ℕ × Events) :=
  (pruneFrom svc maxKeep (digestLedgerHeads svc events) (events.rows.length+1)
    ⟨events,0,0,0⟩).map fun s =>
      (s.removed,if 0 < s.removed then s.events.add ⟨eventEventsPruned,none⟩ else s.events)

end Prune

section Heads

def NewestOf (rows : Set (ℕ × LoggedEvent)) (docId id : ℕ) : Prop :=
  (∃ e, (id,e) ∈ rows ∧ e.docId = some docId) ∧ ∀ r ∈ rows, r.2.docId = some docId → r.1 ≤ id

structure Noted (rows : Set (ℕ × LoggedEvent)) (newest : Newest) : Prop where
  newestOf : ∀ docId id, (docId,id) ∈ newest → NewestOf rows docId id
  noted : ∀ r ∈ rows, ∀ docId, r.2.docId = some docId → ∃ id, (docId,id) ∈ newest

def LedgerHead (events : Events) (id : ℕ) : Prop :=
  ∃ docId, NewestOf {r | r ∈ digestRows events} docId id

variable {rows : Set (ℕ × LoggedEvent)} {newest : Newest}

theorem newest_insert_other (row : ℕ × LoggedEvent) (docId id : ℕ) (hrow : row.2.docId ≠ some docId)
    (h : NewestOf rows docId id) : NewestOf (insert row rows) docId id := by
  obtain ⟨⟨e,he,hdoc⟩,hmax⟩ := h
  refine ⟨⟨e,Set.mem_insert_of_mem _ he,hdoc⟩,fun r hr hr' => ?_⟩
  rcases Set.mem_insert_iff.mp hr with rfl | hr
  · exact absurd hr' hrow
  · exact hmax r hr hr'

theorem newest_insert_same (row : ℕ × LoggedEvent) (docId : ℕ) (old : Option (ℕ × ℕ))
    (hrow : row.2.docId = some docId) (hsome : ∀ e, old = some e → NewestOf rows docId e.2)
    (hnone : old = none → ∀ r ∈ rows, r.2.docId ≠ some docId) :
    NewestOf (insert row rows) docId (entryOf old row.1) := by
  cases old with
  | none =>
    refine ⟨⟨row.2,Set.mem_insert _ _,hrow⟩,fun r hr hr' => ?_⟩
    rcases Set.mem_insert_iff.mp hr with rfl | hr
    · exact le_refl _
    · exact absurd hr' (hnone rfl r hr)
  | some e =>
    obtain ⟨⟨f,hf,hfdoc⟩,hmax⟩ := hsome e rfl
    refine ⟨?_,fun r hr hr' => ?_⟩
    · have hentry : entryOf (some e) row.1 = max e.2 row.1 := rfl
      by_cases hle : row.1 ≤ e.2
      · rw [hentry, max_eq_left hle]
        exact ⟨f,Set.mem_insert_of_mem _ hf,hfdoc⟩
      · rw [hentry, max_eq_right (le_of_not_ge hle)]
        exact ⟨row.2,Set.mem_insert _ _,hrow⟩
    · rcases Set.mem_insert_iff.mp hr with rfl | hr
      · exact le_max_right _ _
      · exact le_max_of_le_left (hmax r hr hr')

theorem note_noted (row : ℕ × LoggedEvent) (h : Noted rows newest) :
    Noted (insert row rows) (note newest row) := by
  unfold note
  cases hdoc : row.2.docId with
  | none =>
    refine ⟨fun d i hi => newest_insert_other row d i (by simp [hdoc]) (h.newestOf d i hi),?_⟩
    intro r hr d hd
    rcases Set.mem_insert_iff.mp hr with rfl | hr
    · simp [hdoc] at hd
    · exact h.noted r hr d hd
  | some docId =>
    refine ⟨fun d i hi => ?_,fun r hr d hd => ?_⟩
    · rcases List.mem_cons.mp hi with heq | hi
      · obtain ⟨rfl,rfl⟩ := Prod.mk.inj heq
        refine newest_insert_same row d _ hdoc (fun e he => ?_) (fun hf r hr hr' => ?_)
        · have hkey : e.1 = d := by simpa using List.find?_some he
          exact h.newestOf d e.2 (hkey ▸ List.mem_of_find?_eq_some he)
        · obtain ⟨i,hi⟩ := h.noted r hr d hr'
          simpa using List.find?_eq_none.mp hf _ hi
      · obtain ⟨hi,hne⟩ := List.mem_filter.mp hi
        have hd : d ≠ docId := by simpa using hne
        exact newest_insert_other row d i (by simpa [hdoc] using Ne.symm hd) (h.newestOf d i hi)
    · by_cases heq : d = docId
      · exact ⟨_,by rw [heq]; exact List.mem_cons_self⟩
      obtain ⟨i,hi⟩ : ∃ i, (d,i) ∈ newest := by
        rcases Set.mem_insert_iff.mp hr with rfl | hr
        · exact absurd (Option.some.inj (hd.symm.trans hdoc)) heq
        · exact h.noted r hr d hd
      exact ⟨i,List.mem_cons_of_mem _ (List.mem_filter.mpr ⟨hi,by simpa using heq⟩)⟩

theorem notes_noted (page : List (ℕ × LoggedEvent)) (h : Noted rows newest) :
    Noted ({r | r ∈ page} ∪ rows) (page.foldl note newest) := by
  induction page generalizing rows newest with
  | nil => simpa using h
  | cons row page ih =>
    have hset : {r | r ∈ row::page} ∪ rows = {r | r ∈ page} ∪ insert row rows := by
      ext r
      simp only [Set.mem_union, Set.mem_ofPred_eq, List.mem_cons, Set.mem_insert_iff]
      tauto
    rw [hset]
    exact ih (note_noted row h)

variable (svc : WikiService) (events : Events)

theorem last_rows (cursor : ℕ) : ∃ front, (digestRows events).filter (·.1 < cursor) =
    front++lastRows svc events cursor ∧ (front ≠ [] → (lastRows svc events cursor).length = svc.searchLimit) := by
  unfold lastRows
  extract_lets rows
  refine ⟨rows.take (rows.length-svc.searchLimit),(List.take_append_drop _ _).symm,fun hne => ?_⟩
  have hpos : 0 < (rows.take (rows.length-svc.searchLimit)).length := List.length_pos_iff.mpr hne
  rw [List.length_take] at hpos
  rw [List.length_drop]
  omega

theorem heads_noted (fuel cursor : ℕ) (hfuel : cursor ≤ fuel)
    (h : Noted {r | r ∈ digestRows events ∧ cursor ≤ r.1} newest) :
    Noted {r | r ∈ digestRows events} (headsFrom svc events fuel cursor newest) := by
  induction fuel generalizing cursor newest with
  | zero =>
    obtain rfl := Nat.le_zero.mp hfuel
    simpa [headsFrom] using h
  | succ fuel ih =>
    obtain ⟨front,hpage,hfull⟩ := last_rows svc events cursor
    have hbelow (r : ℕ × LoggedEvent) : (r ∈ digestRows events ∧ r.1 < cursor) ↔
        r ∈ front ∨ r ∈ lastRows svc events cursor := by
      rw [← List.mem_append, ← hpage, List.mem_filter, decide_eq_true_iff]
    have hsorted := (events.sorted.filter fun r => r.2.kind == eventDigestExtracted).filter
      fun r => decide (r.1 < cursor)
    rw [show (events.rows.filter _).filter _ = _ from hpage] at hsorted
    have hall := notes_noted (lastRows svc events cursor) h
    unfold headsFrom
    have hlimit : 0 < svc.searchLimit := lt_of_lt_of_le (by decide) svc.searchLimit_ok
    have hdone (hshort : (lastRows svc events cursor).length < svc.searchLimit) :
        {r | r ∈ lastRows svc events cursor} ∪ {r | r ∈ digestRows events ∧ cursor ≤ r.1} =
          {r | r ∈ digestRows events} := by
      have hfront : front = [] := by
        by_contra hne
        exact absurd (hfull hne) hshort.ne
      ext r
      have hr := hbelow r
      simp only [hfront, List.not_mem_nil, false_or] at hr
      simp only [Set.mem_union, Set.mem_ofPred_eq, ← hr]
      grind
    cases hp : lastRows svc events cursor with
    | nil =>
      rw [hp] at hdone
      rw [← hdone hlimit]
      simpa using h
    | cons first rest =>
      rw [← hp]
      by_cases hshort : (lastRows svc events cursor).length < svc.searchLimit
      · rw [hp] at hshort hdone hall ⊢
        simp only [List.head?_cons, if_pos hshort]
        rwa [hdone hshort] at hall
      simp only [hp, List.head?_cons]
      rw [hp] at hshort hall hsorted hbelow
      rw [if_neg hshort]
      have hfirst := ((hbelow first).mpr (.inr List.mem_cons_self)).2
      refine ih first.1 (by omega) ?_
      have hset : {r | r ∈ first::rest} ∪ {r | r ∈ digestRows events ∧ cursor ≤ r.1} =
          {r | r ∈ digestRows events ∧ first.1 ≤ r.1} := by
        obtain ⟨-,hpage,hcross⟩ := List.pairwise_append.mp hsorted
        have hleast : ∀ r ∈ first::rest, first.1 ≤ r.1 := by
          intro r hr
          rcases List.mem_cons.mp hr with rfl | hr
          · exact le_refl _
          · exact ((List.pairwise_cons.mp hpage).1 r hr).le
        ext r
        simp only [Set.mem_union, Set.mem_ofPred_eq]
        constructor
        · rintro (hr | ⟨hr,hle⟩)
          · exact ⟨((hbelow r).mpr (.inr hr)).1,hleast r hr⟩
          · exact ⟨hr,by omega⟩
        rintro ⟨hr,hle⟩
        by_cases hc : r.1 < cursor
        · rcases (hbelow r).mp ⟨hr,hc⟩ with hin | hin
          · have := hcross r hin first List.mem_cons_self
            omega
          · exact .inl hin
        · exact .inr ⟨hr,by omega⟩
      rwa [hset] at hall

theorem mem_ledger_heads (id : ℕ) : id ∈ digestLedgerHeads svc events ↔ LedgerHead events id := by
  have hnone : Noted {r | r ∈ digestRows events ∧ events.last+1 ≤ r.1} [] := by
    refine ⟨by simp,fun r hr => ?_⟩
    have hb := (events.bound r (List.mem_filter.mp hr.1).1).2
    have hc : events.last+1 ≤ r.1 := hr.2
    omega
  have hn := heads_noted svc events (events.last+1) (events.last+1) (le_refl _) hnone
  constructor
  · intro h
    obtain ⟨p,hp,rfl⟩ := List.mem_map.mp h
    exact ⟨p.1,hn.newestOf p.1 p.2 hp⟩
  rintro ⟨docId,hid⟩
  obtain ⟨⟨e,he,hdoc⟩,hmax⟩ := hid
  obtain ⟨i,hi⟩ := hn.noted (id,e) he docId hdoc
  obtain ⟨⟨f,hf,hfdoc⟩,htop⟩ := hn.newestOf docId i hi
  obtain rfl : id = i := le_antisymm (htop (id,e) he hdoc) (hmax (i,f) hf hfdoc)
  exact List.mem_map.mpr ⟨(docId,id),hi,rfl⟩

end Heads

section Pruning
variable (svc : WikiService) (events : Events)

def allIds : List ℕ := events.select fun _ _ => true

/-- The events of `seen` have been visited, and those among them that are no ledger removed. -/
structure Visited (heads seen rest : List ℕ) (s : PruneState) : Prop where
  split : allIds events = seen++rest
  passed : ∀ id ∈ seen, id ≤ s.cursor
  ahead : ∀ id ∈ rest, s.cursor < id
  rows : s.events.rows = events.rows.filter fun r => decide (r.1 ∈ seen → r.1 ∈ heads)
  last : s.events.last = events.last
  kept : s.keptLedger = (seen.filter (· ∈ heads)).length

variable {events} {heads seen rest : List ℕ} {s : PruneState}

theorem visited_ids (h : Visited events heads seen rest s) :
    s.events.rows.map Prod.fst = seen.filter (· ∈ heads)++rest := by
  have hids : allIds events = events.rows.map Prod.fst := by
    rw [allIds, Table.select, List.filter_true]
  have hout : ∀ id ∈ rest, id ∉ seen := by
    intro id hid hs
    have := h.passed id hs
    have := h.ahead id hid
    omega
  have hkeep : rest.filter (fun id => decide (id ∈ seen → id ∈ heads)) = rest := by
    simpa using fun id hid => .inl (hout id hid)
  have hseen : seen.filter (fun id => decide (id ∈ seen → id ∈ heads)) = seen.filter (· ∈ heads) := by
    refine List.filter_congr fun id hid => ?_
    simp [hid]
  calc s.events.rows.map Prod.fst
      = (events.rows.map Prod.fst).filter fun id => decide (id ∈ seen → id ∈ heads) := by
        rw [h.rows, List.filter_map]
        rfl
    _ = seen.filter (· ∈ heads)++rest := by
        rw [← hids, h.split, List.filter_append, hseen, hkeep]

theorem visited_length (h : Visited events heads seen rest s) :
    s.events.rows.length = s.keptLedger+rest.length := by
  rw [← List.length_map Prod.fst, visited_ids h, List.length_append, h.kept]

theorem visited_after (h : Visited events heads seen rest s) : idsAfter s.events s.cursor = rest := by
  have hlow : (seen.filter (· ∈ heads)).filter (s.cursor < ·) = [] := by
    simpa using fun id hid hlt => absurd (h.passed id hid) (not_le.mpr hlt)
  have hhigh : rest.filter (s.cursor < ·) = rest := by simpa using h.ahead
  have hids := congrArg (List.filter fun id => decide (s.cursor < id)) (visited_ids h)
  rw [List.filter_append, hlow, hhigh, List.nil_append, List.filter_map] at hids
  exact hids

theorem prune_one_visited (id : ℕ) (h : Visited events heads seen (id::rest) s) :
    Visited events heads (seen++[id]) rest (pruneOne heads s id) := by
  have hnew := h.ahead id List.mem_cons_self
  have hsplit : allIds events = (seen++[id])++rest := by
    rw [h.split, List.append_assoc]
    rfl
  have hnext : ∀ i ∈ rest, id < i := by
    have hsorted := events.select_sorted fun _ _ => true
    rw [show events.select _ = _ from h.split, List.pairwise_append, List.pairwise_cons] at hsorted
    exact hsorted.2.1.1
  have hcursor : max s.cursor id = id := max_eq_right hnew.le
  have hpassed : ∀ i ∈ seen++[id], i ≤ id := by
    intro i hi
    rcases List.mem_append.mp hi with hi | hi
    · exact (h.passed i hi).trans hnew.le
    · exact (List.mem_singleton.mp hi).le
  unfold pruneOne
  by_cases hhead : id ∈ heads
  · rw [if_pos hhead, hcursor]
    refine ⟨hsplit,hpassed,hnext,?_,h.last,?_⟩
    · show s.events.rows = _
      rw [h.rows]
      refine List.filter_congr fun r _ => ?_
      simp only [List.mem_append, List.mem_singleton, decide_eq_decide]
      grind
    · show s.keptLedger+1 = _
      simp [h.kept, List.filter_append, hhead]
  · rw [if_neg hhead, hcursor]
    refine ⟨hsplit,hpassed,hnext,?_,h.last,?_⟩
    · show s.events.rows.filter _ = _
      rw [h.rows, List.filter_filter]
      refine List.filter_congr fun r _ => ?_
      simp only [List.mem_append, List.mem_singleton]
      grind
    · show s.keptLedger = _
      simp [h.kept, List.filter_append, hhead]

theorem page_visited (page : List ℕ) (h : Visited events heads seen (page++rest) s) :
    Visited events heads (seen++page) rest (page.foldl (pruneOne heads) s) := by
  induction page generalizing seen s with
  | nil => simpa using h
  | cons id page ih =>
    have hnext := ih (prune_one_visited id h)
    rwa [List.append_assoc] at hnext

theorem prune_stops (maxKeep fuel : ℕ) (h : Visited events heads seen rest s)
    (hfuel : rest.length < fuel) (hmin : seen = [] ∨ maxKeep ≤ rest.length) : ∃ s' seen' rest',
    pruneFrom svc maxKeep heads fuel s = some s' ∧ Visited events heads seen' rest' s' ∧
    rest'.length ≤ maxKeep ∧ (seen' = [] ∨ maxKeep ≤ rest'.length) := by
  induction fuel generalizing seen rest s with
  | zero => omega
  | succ fuel ih =>
    have hlen := visited_length h
    have hlimit : 0 < svc.searchLimit := lt_of_lt_of_le (by decide) svc.searchLimit_ok
    unfold pruneFrom
    by_cases hstop : s.events.rows.length ≤ maxKeep+s.keptLedger
    · exact ⟨s,seen,rest,if_pos hstop,h,by omega,hmin⟩
    simp only [if_neg hstop, visited_after h]
    generalize hexcess : min (s.events.rows.length-maxKeep-s.keptLedger) svc.searchLimit = excess
    have hpage : (rest.take excess).length = excess := by
      rw [List.length_take]
      omega
    have hsome : rest.take excess ≠ [] := by
      intro hnil
      rw [hnil, List.length_nil] at hpage
      omega
    rw [if_neg hsome]
    rw [← List.take_append_drop excess rest] at h
    have hvisited := page_visited (rest.take excess) h
    have hdrop := List.length_drop (i := excess) (l := rest)
    exact ih hvisited (by omega) (.inr (by omega))

end Pruning

/-- Retention is exact. Pruning ends, and of the events that were there it leaves those among the
`maxKeep` newest and the newest digest event of each document, and no others. -/
theorem prune_exact (svc : WikiService) (events : Events) (maxKeep : ℕ) : ∃ removed left,
    pruneEvents svc events maxKeep = some (removed,left) ∧ ∀ id e, left.get id = some e ∧ id ≤
    events.last ↔ events.get id = some e ∧
    (id ∈ lastIds (allIds events) maxKeep ∨ LedgerHead events id) := by
  have hids : (allIds events).length = events.rows.length := by
    rw [allIds, Table.select, List.filter_true, List.length_map]
  have hstart : Visited events (digestLedgerHeads svc events) [] (allIds events) ⟨events,0,0,0⟩ :=
    ⟨rfl,by simp,fun id hid => by
      obtain ⟨e,he,-⟩ := (events.mem_select _ id).mp hid
      exact (events.get_bound id e he).1,by simp,rfl,rfl⟩
  obtain ⟨s,seen,rest,hs,hv,hmax,hmin⟩ := prune_stops svc maxKeep (events.rows.length+1) hstart
    (by omega) (.inl rfl)
  refine ⟨_,_,by rw [pruneEvents, hs]; rfl,fun id e => ?_⟩
  have hrest : lastIds (allIds events) maxKeep = rest := by
    rw [lastIds, hv.split, List.length_append]
    rcases hmin with rfl | hmin
    · rw [List.nil_append, List.length_nil, show 0+rest.length-maxKeep = 0 by omega, List.drop_zero]
    · rw [show seen.length+rest.length-maxKeep = seen.length by omega, List.drop_left]
  have hleft : s.events.get id = some e ↔ events.get id = some e ∧
      (id ∈ seen → id ∈ digestLedgerHeads svc events) := by
    rw [← Table.mem_rows, ← Table.mem_rows, hv.rows, List.mem_filter, decide_eq_true_iff]
  have hsplit : events.get id = some e → id ∈ seen ∨ id ∈ rest := fun he => by
    rw [← List.mem_append, ← hv.split]
    exact (events.mem_select _ id).mpr ⟨e,he,rfl⟩
  have hout : id ∈ rest → id ∉ seen := fun hr hs' => by
    have := hv.passed id hs'
    have := hv.ahead id hr
    omega
  have hadded : ((if 0 < s.removed then s.events.add ⟨eventEventsPruned,none⟩ else s.events).get id =
      some e ∧ id ≤ events.last) ↔ s.events.get id = some e := by
    have hbound : s.events.get id = some e → id ≤ events.last := fun he =>
      hv.last ▸ (s.events.get_bound id e he).2
    split
    · constructor
      · rintro ⟨he,hle⟩
        rwa [Table.get_add_old _ _ _ (by rw [hv.last]; omega)] at he
      · intro he
        have hle := hbound he
        exact ⟨by rwa [Table.get_add_old _ _ _ (by rw [hv.last]; omega)],hle⟩
    · exact ⟨And.left,fun he => ⟨he,hbound he⟩⟩
  rw [hadded, hleft, hrest, ← mem_ledger_heads svc]
  constructor
  · rintro ⟨he,hkeep⟩
    exact ⟨he,(hsplit he).symm.imp_right hkeep⟩
  · rintro ⟨he,hr | hh⟩
    · exact ⟨he,fun hs' => absurd hs' (hout hr)⟩
    · exact ⟨he,fun _ => hh⟩

end AndaBrain.WikiRetention
