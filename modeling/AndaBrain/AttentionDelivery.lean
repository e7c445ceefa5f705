import AndaBrain.AttentionPages
import AndaBrain.Foundation.KeysetPages

/-!
# The walk of a host through its attention

Between two calls the history grows by whole commits. The items delivered so far are the
keys behind the cursor, so that the pages never repeat and never skip a key.
-/

set_option autoImplicit false

namespace AndaBrain.AttentionRecall
open Foundation.KeysetPages Foundation.Utf8Text

/-- What the program and the engine bound: a coordinate is a 64-bit number, an id is given
once and never empty, and no commit or Activity is larger than one reading. -/
structure Fits (history : List Activity) : Prop extends Readable history where
  commits : Bounded history
  named : ∀ a ∈ history, ∀ i ∈ a.inputs, i.id ≠ ""
  small : ∀ a ∈ history, a.seq < 2^64

section Pages
variable {history : List Activity} {call : Call} {after : Option Position}

theorem carries_raises (a : Activity) (i : Input) (h : carries a.activityClass i = true) :
    raises a = true := by
  simp only [carries, Bool.or_eq_true, decide_eq_true_eq] at h
  rcases h with h | h <;> simp [raises, h.1]

def fresh (history : List Activity) (call : Call) (after : Option Position) : List Key :=
  ((grouped (whole (windowRows history call (startOf after)))).flatMap
    (groupKeys history)).filter (ahead after)

theorem rows_sorted (start : ℕ) :
    (whole (windowRows history call start)).Pairwise (fun a b => a.seq ≤ b.seq) := by
  apply List.Pairwise.sublist (whole_sublist _)
  apply List.pairwise_map.mpr
  exact (call.engine.arranges _).sorted.sublist (List.take_sublist _ _)

theorem row_source (start : ℕ) (row : Row) (h : row ∈ whole (windowRows history call start)) :
    ∃ a ∈ arranged history call start, row = rowOf a := by
  obtain ⟨a,ha,rfl⟩ := List.mem_map.mp ((whole_sublist _).subset h)
  exact ⟨a,List.mem_of_mem_take ha,rfl⟩

theorem group_of_commit (start : ℕ) (group : List Row)
    (hg : group ∈ grouped (whole (windowRows history call start))) :
    ∃ seq, OfCommit history seq group := by
  obtain ⟨hne,hsame⟩ := (grouped_spec _ (rows_sorted start)).1 group hg
  obtain ⟨first,hfirst⟩ := List.exists_mem_of_ne_nil _ hne
  refine ⟨first.seq,?_⟩
  intro row hrow
  have hmem : row ∈ whole (windowRows history call start) := by
    rw [← grouped_flatten (whole (windowRows history call start))]
    exact List.mem_flatten.mpr ⟨group,hg,hrow⟩
  obtain ⟨a,ha,rfl⟩ := row_source start row hmem
  exact ⟨a,((mem_arranged a).mp ha).1,rfl,hsame (rowOf a) hrow first hfirst⟩

theorem mem_fresh (ok : Readable history) (k : Key) : k ∈ fresh history call after ↔ ahead after k =
    true ∧ ∃ a ∈ history, rowOf a ∈ whole (windowRows history call (startOf after)) ∧ ∃ i ∈
    a.inputs, carries a.activityClass i = true ∧ k = toLex (a.seq,i.id) := by
  rw [fresh, List.mem_filter, List.mem_flatMap, and_comm]
  apply and_congr_right
  intro _
  constructor
  · rintro ⟨group,hg,hk⟩
    obtain ⟨row,hrow,hk⟩ := (mem_group_keys group k).mp hk
    obtain ⟨seq,hof⟩ := group_of_commit _ group hg
    obtain ⟨a,ha,rfl,-⟩ := hof row hrow
    refine ⟨a,ha,?_,(mem_row_keys ok a ha k).mp hk⟩
    rw [← grouped_flatten (whole (windowRows history call (startOf after)))]
    exact List.mem_flatten.mpr ⟨group,hg,hrow⟩
  · rintro ⟨a,ha,hrow,hk⟩
    rw [← grouped_flatten (whole (windowRows history call (startOf after)))] at hrow
    obtain ⟨group,hg,hrow⟩ := List.mem_flatten.mp hrow
    exact ⟨group,hg,(mem_group_keys group k).mpr ⟨rowOf a,hrow,(mem_row_keys ok a ha k).mpr hk⟩⟩

theorem key_of_group (ok : Readable history) (start : ℕ) (group : List Row)
    (hg : group ∈ grouped (whole (windowRows history call start))) (k : Key)
    (hk : k ∈ groupKeys history group) : ∃ row ∈ group, (ofLex k).1 = row.seq := by
  obtain ⟨row,hrow,hk⟩ := (mem_group_keys group k).mp hk
  obtain ⟨seq,hof⟩ := group_of_commit _ group hg
  obtain ⟨a,ha,rfl,-⟩ := hof row hrow
  obtain ⟨i,-,-,rfl⟩ := (mem_row_keys ok a ha k).mp hk
  exact ⟨rowOf a,hrow,rfl⟩

theorem fresh_strict (ok : Readable history) : (fresh history call after).Pairwise (· < ·) := by
  apply List.Pairwise.filter
  apply List.pairwise_flatMap.mpr
  refine ⟨fun group _ => group_keys_strict group,?_⟩
  apply List.Pairwise.imp_of_mem _ (grouped_spec _ (rows_sorted (startOf after))).2
  intro g g' hg hg' hlt j hj k hk
  obtain ⟨row,hrow,hjs⟩ := key_of_group ok _ g hg j hj
  obtain ⟨row',hrow',hks⟩ := key_of_group ok _ g' hg' k hk
  rw [show j = toLex (ofLex j) from rfl, show k = toLex (ofLex k) from rfl,
    Prod.Lex.toLex_lt_toLex, hjs, hks]
  exact .inl (hlt row hrow row' hrow')

theorem start_ahead (k : Key) (h : ahead after k = true) : startOf after ≤ (ofLex k).1 := by
  rcases after with _ | ⟨seq,_ | last⟩
  · exact Nat.zero_le _
  · rw [ahead_iff] at h
    rcases h with h | ⟨-,l,hl,-⟩
    · simp only [startOf]
      omega
    · cases hl
  · rw [ahead_iff] at h
    rcases h with h | ⟨h,-⟩
    · exact h.le
    · exact h.ge

theorem whole_ahead (seq : ℕ) (k : Key) : ahead (some ⟨seq,none⟩) k = true ↔ seq < (ofLex k).1 := by
  rw [ahead_iff]
  simp

/-- A position at or behind the start of a window stays behind what its rows precede. -/
theorem ahead_of_start (hafter : ∀ p, after = some p → p.seq < 2^64) (seq : ℕ)
    (hseq : startOf after ≤ seq) (k : Key) (h : seq < (ofLex k).1) : ahead after k = true := by
  rcases after with _ | ⟨s,_ | last⟩
  · rfl
  · have := hafter _ rfl
    rw [whole_ahead]
    simp only [startOf] at hseq this
    omega
  · rw [ahead_iff]
    exact .inl (hseq.trans_lt h)

end Pages

structure PageOk (history : List Activity) (after : Option Position) (page : Page)
    (next : Option Position) : Prop where
  parsed : parseCursor page.attentionCursor = .ok next
  strict : (page.items.map keyOf).Pairwise (· < ·)
  taken : ∀ k, k ∈ page.items.map keyOf ↔
    Raised history k ∧ ahead after k = true ∧ ahead next k = false
  forward : ∀ k, ahead next k = true → ahead after k = true
  standing : next = after ∨ ∃ a ∈ history, next.any fun next => next.seq == a.seq
  complete : page.complete = true → ∀ k, Raised history k → ahead next k = false

section PageSpec
variable {history : List Activity} {call : Call} {after : Option Position}

theorem raised_fresh (fits : Fits history) (k : Key) (hk : Raised history k)
    (hahead : ahead after k = true) (row : Row)
    (hrow : row ∈ whole (windowRows history call (startOf after))) (hle : (ofLex k).1 ≤ row.seq) :
    k ∈ fresh history call after := by
  obtain ⟨a,ha,i,hi,hc,rfl⟩ := hk
  rw [mem_fresh fits.toReadable]
  refine ⟨hahead,a,ha,?_,i,hi,hc,rfl⟩
  exact whole_closed fits.commits a
    ((mem_arranged a).mpr ⟨ha,carries_raises a i hc,start_ahead _ hahead⟩) row hrow hle

theorem fresh_raised (fits : Fits history) (k : Key) (hk : k ∈ fresh history call after) : Raised
    history k ∧ ahead after k = true ∧ ∃ row ∈ whole (windowRows history call (startOf after)),
    (ofLex k).1 = row.seq := by
  obtain ⟨hahead,a,ha,hrow,i,hi,hc,rfl⟩ := (mem_fresh fits.toReadable k).mp hk
  exact ⟨⟨a,ha,i,hi,hc,rfl⟩,hahead,rowOf a,hrow,rfl⟩

theorem cut_page (fits : Fits history) (items : List Item) (limit : ℕ)
    (hlimit : 1 ≤ limit) (hmore : limit < (fresh history call after).length)
    (hitems : items.map keyOf = (fresh history call after).take limit) :
    PageOk history after ⟨items,(items.getLast?.map fun last =>
      renderCursor ⟨last.raisedSeq,some last.reference⟩).getD [],false⟩
      (items.getLast?.map fun last => ⟨last.raisedSeq,some last.reference⟩) := by
  have hlen : items.length = limit := by
    have := congrArg List.length hitems
    rw [List.length_map, List.length_take] at this
    omega
  have hne : items ≠ [] := by
    intro hnil
    rw [hnil, List.length_nil] at hlen
    omega
  have hl := List.getLast?_eq_some_getLast hne
  generalize items.getLast hne = last at hl
  rw [hl]
  have hlastkey : ((fresh history call after).take limit).getLast? = some (keyOf last) := by
    rw [← hitems, List.getLast?_map, hl]
    rfl
  have hstrict : (fresh history call after).Pairwise (· < ·) := fresh_strict fits.toReadable
  have hlastmem : keyOf last ∈ fresh history call after :=
    List.mem_of_mem_take (List.mem_of_getLast? hlastkey)
  obtain ⟨hraised,hahead,row,hrow,hseq⟩ := fresh_raised fits _ hlastmem
  have hupto := filter_upto_last id _ ((fresh history call after).drop limit) (keyOf last)
    (by rw [List.take_append_drop]; exact hstrict) hlastkey
  rw [List.take_append_drop] at hupto
  have hnext : ∀ k, ahead (some ⟨last.raisedSeq,some last.reference⟩) k = false ↔ k ≤ keyOf last := by
    intro k
    rw [← Bool.not_eq_true, ahead_item]
    exact not_lt
  obtain ⟨a,ha,i,hi,hc,hkey⟩ := hraised
  have hparts : last.raisedSeq = a.seq ∧ last.reference = i.id := Prod.mk.inj (toLex.injective hkey)
  refine ⟨?_,?_,?_,?_,?_,fun h => by cases h⟩
  · apply parse_render
    · rw [hparts.1]
      exact fits.small a ha
    · rw [hparts.2, ne_eq, Option.some.injEq]
      exact fits.named a ha i hi
  · rw [hitems]
    exact hstrict.sublist (List.take_sublist _ _)
  · intro k
    rw [hitems, ← hupto, List.mem_filter, decide_eq_true_eq]
    show k ∈ fresh history call after ∧ k ≤ keyOf last ↔ _
    rw [Option.map_some, hnext]
    constructor
    · rintro ⟨hk,hle⟩
      obtain ⟨hr,hah,-⟩ := fresh_raised fits k hk
      exact ⟨hr,hah,hle⟩
    rintro ⟨hr,hah,hle⟩
    refine ⟨raised_fresh fits k hr hah row hrow ?_,hle⟩
    rw [← hseq]
    rw [show k = toLex (ofLex k) from rfl, show keyOf last = toLex (ofLex (keyOf last)) from rfl,
      Prod.Lex.toLex_le_toLex] at hle
    rcases hle with hlt | ⟨heq,-⟩
    · exact hlt.le
    · exact heq.le
  · intro k hk
    rw [Option.map_some, ahead_item] at hk
    exact ahead_up after (keyOf last) k hk.le hahead
  · right
    exact ⟨a,ha,by simp [hparts.1]⟩

theorem whole_page (fits : Fits history) (hafter : ∀ p, after = some p → p.seq < 2^64)
    (items : List Item) (hitems : items.map keyOf = fresh history call after) (bound : Row)
    (hbound : bound ∈ whole (windowRows history call (startOf after)))
    (hmax : ∀ row ∈ whole (windowRows history call (startOf after)), row.seq ≤ bound.seq)
    (complete : Bool) (hcomplete : complete = true →
      (windowRows history call (startOf after)).length < activityWindow) :
    PageOk history after ⟨items,renderCursor ⟨bound.seq,none⟩,complete⟩ (some ⟨bound.seq,none⟩) := by
  obtain ⟨b,hb,rfl⟩ := row_source _ bound hbound
  obtain ⟨hbh,-,hstart⟩ := (mem_arranged b).mp hb
  have hnext : ∀ k, ahead (some ⟨b.seq,none⟩) k = false ↔ (ofLex k).1 ≤ b.seq := by
    intro k
    rw [← Bool.not_eq_true, whole_ahead]
    exact not_lt
  have hforward : ∀ k, ahead (some ⟨b.seq,none⟩) k = true → ahead after k = true := by
    intro k hk
    rw [whole_ahead] at hk
    exact ahead_of_start hafter b.seq hstart k hk
  refine ⟨parse_render _ (fits.small b hbh) (by simp),?_,?_,hforward,
    .inr ⟨b,hbh,by simp [rowOf]⟩,?_⟩
  · rw [hitems]
    exact fresh_strict fits.toReadable
  · intro k
    rw [hitems]
    constructor
    · intro hk
      obtain ⟨hr,hah,row,hrow,hseq⟩ := fresh_raised fits k hk
      exact ⟨hr,hah,(hnext k).mpr (hseq ▸ hmax row hrow)⟩
    · rintro ⟨hr,hah,hle⟩
      exact raised_fresh fits k hr hah (rowOf b) hbound ((hnext k).mp hle)
  · intro hc k hr
    rw [← Bool.not_eq_true]
    intro hk
    obtain ⟨a,ha,i,hi,hcar,rfl⟩ := hr
    have hah := hforward _ hk
    have hin := short_window (hcomplete hc) a
      ((mem_arranged a).mpr ⟨ha,carries_raises a i hcar,start_ahead _ hah⟩)
    rw [whole_ahead] at hk
    exact absurd (hmax _ hin) (not_le.mpr hk)

theorem empty_page (cursor : Option Text) (hcursor : cursor.elim (.ok none) parseCursor = .ok after)
    (hempty : windowRows history call (startOf after) = []) (complete : Bool) :
    PageOk history after ⟨[],cursor.getD cursorStart,complete⟩ after := by
  refine ⟨?_,List.Pairwise.nil,?_,fun _ hk => hk,.inl rfl,?_⟩
  · cases cursor with
    | none => rw [← hcursor]; exact parse_start
    | some text => exact hcursor
  · intro k
    simp only [List.map_nil, List.not_mem_nil, false_iff, not_and, Bool.not_eq_false]
    exact fun _ hk => hk
  intro _ k hr
  rw [← Bool.not_eq_true]
  intro hk
  obtain ⟨a,ha,i,hi,hcar,rfl⟩ := hr
  have hin := short_window (by rw [hempty]; decide) a
    ((mem_arranged a).mpr ⟨ha,carries_raises a i hcar,start_ahead _ hk⟩)
  rw [hempty] at hin
  cases hin

theorem last_group (rows : List Row) (hs : rows.Pairwise (fun a b => a.seq ≤ b.seq))
    (hne : rows ≠ []) : ∃ bound ∈ rows, (∀ row ∈ rows, row.seq ≤ bound.seq) ∧
      ((grouped rows).getLast?.elim none fun group => group.head?.map Row.seq) = some bound.seq := by
  have hflat := grouped_flatten rows
  obtain ⟨heach,hrise⟩ := grouped_spec rows hs
  have hgne : grouped rows ≠ [] := by
    intro hnil
    rw [hnil] at hflat
    exact hne hflat.symm
  have hl := List.getLast?_eq_some_getLast hgne
  generalize (grouped rows).getLast hgne = group at hl
  have hgroup := List.mem_of_getLast? hl
  obtain ⟨bound,rest,hhead⟩ := List.exists_cons_of_ne_nil (heach group hgroup).1
  have hmem : bound ∈ group := by rw [hhead]; exact List.mem_cons_self ..
  refine ⟨bound,?_,?_,?_⟩
  · rw [← hflat]
    exact List.mem_flatten.mpr ⟨group,hgroup,hmem⟩
  · intro row hrow
    rw [← hflat] at hrow
    obtain ⟨g,hg,hrow⟩ := List.mem_flatten.mp hrow
    obtain ⟨init,hinit⟩ := List.getLast?_eq_some_iff.mp hl
    rw [hinit] at hg hrise
    rcases List.mem_append.mp hg with hg | hg
    · exact ((List.pairwise_append.mp hrise).2.2 g hg group (by simp) row hrow bound hmem).le
    · rw [List.mem_singleton.mp hg] at hrow
      exact ((heach group hgroup).2 row hrow bound hmem).le
  · rw [hl, hhead]
    rfl

theorem page_spec (fits : Fits history) (hafter : ∀ p, after = some p → p.seq < 2^64)
    (cursor : Option Text) (hcursor : cursor.elim (.ok none) parseCursor = .ok after) (page : Page)
    (h : recallAttention history cursor call = .ok page) :
    ∃ next, PageOk history after page next := by
  rw [recallAttention, hcursor] at h
  simp only [bind, Except.bind] at h
  by_cases hlimit : 1 ≤ call.limit.getD 20 ∧ call.limit.getD 20 ≤ maxPage
  · simp only [hlimit, and_self, not_true_eq_false, if_false] at h
    rw [readWindow] at h
    cases hf : call.failure with
    | some error =>
      rw [hf] at h
      cases h
    | none =>
      rw [hf] at h
      simp only at h
      rw [read_rows] at h
      have hrows : ((call.engine.activities (history.filter fun a => raises a &&
          decide (startOf after ≤ a.seq))).take activityWindow).map rowOf =
          windowRows history call (startOf after) := rfl
      rw [hrows] at h
      cases hscan : scan (readCommit history call) after (call.limit.getD 20) [] none
          (grouped (whole (windowRows history call (startOf after)))) with
      | error error =>
        rw [hscan] at h
        cases h
      | ok r =>
        rw [hscan] at h
        obtain ⟨hitems,hmore,hthrough⟩ := scan_spec (readCommit history call) after
          (call.limit.getD 20) _ (fun group hg commit hcommit => by
            obtain ⟨seq,hof⟩ := group_of_commit _ group hg
            exact read_commit_spec fits.toReadable seq group hof commit hcommit)
          [] none (Nat.zero_le _) r hscan
        simp only [List.map_nil, List.nil_append, List.length_nil, Nat.sub_zero, Nat.zero_add]
          at hitems hmore
        obtain ⟨items,more,through⟩ := r
        simp only at h hitems hmore hthrough
        cases more with
        | true =>
          cases h
          exact ⟨_,cut_page fits items _ hlimit.1 (hmore.mp rfl) hitems⟩
        | false =>
          have hle : (fresh history call after).length ≤ call.limit.getD 20 :=
            not_lt.mp fun hlt => Bool.false_ne_true (hmore.mpr hlt)
          have hall : items.map keyOf = fresh history call after :=
            hitems.trans (List.take_of_length_le hle)
          have hthrough := hthrough rfl
          by_cases hempty : windowRows history call (startOf after) = []
          · have hnil : items = [] := by
              have hfresh : fresh history call after = [] := by
                rw [fresh, hempty]
                rfl
              rw [hfresh] at hall
              exact List.map_eq_nil_iff.mp hall
            have hnone : through = none := by
              rw [hthrough, hempty]
              rfl
            subst hnil hnone
            cases h
            exact ⟨after,empty_page cursor hcursor hempty _⟩
          · obtain ⟨bound,hbound,hmax,hlast⟩ := last_group _ (rows_sorted (startOf after))
              (whole_nonempty hempty)
            rw [hlast] at hthrough
            subst hthrough
            cases h
            refine ⟨_,whole_page fits hafter items hall bound hbound hmax _ ?_⟩
            intro hc
            simp only [Bool.not_false, Bool.true_and, Bool.not_eq_true', decide_eq_false_iff_not,
              not_le] at hc
            exact hc
  · simp only [hlimit, not_false_eq_true, if_true] at h
    cases h

end PageSpec

section Walks

structure Walk.Ok (w : Walk) : Prop where
  dated : ∀ a ∈ w.history, a.seq ≤ w.seq
  cursor : ∃ pos, w.cursor.elim (.ok none) parseCursor = .ok pos ∧
    (∀ p, pos = some p → p.seq ≤ w.seq ∧ p.seq < 2^64) ∧
    ∀ k, k ∈ w.delivered.map keyOf ↔ Raised w.history k ∧ ahead pos k = false
  strict : (w.delivered.map keyOf).Pairwise (· < ·)
  pages : ∀ page ∈ w.pages, page.1.complete = true →
    ∃ pos, parseCursor page.1.attentionCursor = .ok pos ∧
      ∀ k, Raised page.2 k → ahead pos k = false

theorem start_ok : Walk.start.Ok := by
  refine ⟨?_,⟨none,rfl,?_,?_⟩,List.Pairwise.nil,?_⟩
  · intro a ha
    cases ha
  · intro p hp
    cases hp
  · intro k
    simp [Walk.start, Raised]
  · intro page hpage
    cases hpage

theorem fits_sublist (h h' : List Activity) (hsub : h.Sublist h') (fits : Fits h') : Fits h := by
  constructor
  · constructor
    · exact fits.distinct.sublist (hsub.map _)
    · exact fun a ha => fits.inputs a (hsub.subset ha)
  · intro seq
    exact (hsub.filter _).length_le.trans (fits.commits seq)
  · exact fun a ha => fits.named a (hsub.subset ha)
  · exact fun a ha => fits.small a (hsub.subset ha)

theorem raised_append (h h' : List Activity) (k : Key) :
    Raised (h++h') k ↔ Raised h k ∨ Raised h' k := by
  simp only [Raised, List.mem_append]
  constructor
  · rintro ⟨a,ha | ha,rest⟩
    · exact .inl ⟨a,ha,rest⟩
    · exact .inr ⟨a,ha,rest⟩
  · rintro (⟨a,ha,rest⟩ | ⟨a,ha,rest⟩)
    · exact ⟨a,.inl ha,rest⟩
    · exact ⟨a,.inr ha,rest⟩

theorem commit_ok (w : Walk) (c : Commit) (ok : w.Ok) : (w.step (.commit c)).Ok := by
  obtain ⟨pos,hparse,hseq,hdelivered⟩ := ok.cursor
  have hnew : ∀ a ∈ c.activities.map (fun a => { a with seq := w.seq+1+c.gap }),
      a.seq = w.seq+1+c.gap := by
    intro a ha
    obtain ⟨b,-,rfl⟩ := List.mem_map.mp ha
    rfl
  refine ⟨?_,⟨pos,hparse,?_,?_⟩,ok.strict,ok.pages⟩
  · intro a ha
    show a.seq ≤ w.seq+1+c.gap
    rcases List.mem_append.mp ha with ha | ha
    · have := ok.dated a ha
      omega
    · exact (hnew a ha).le
  · intro p hp
    refine ⟨?_,(hseq p hp).2⟩
    have := (hseq p hp).1
    show p.seq ≤ w.seq+1+c.gap
    omega
  intro k
  show k ∈ w.delivered.map keyOf ↔ Raised (w.history++_) k ∧ _
  rw [hdelivered, raised_append]
  constructor
  · rintro ⟨hr,hpos⟩
    exact ⟨.inl hr,hpos⟩
  rintro ⟨hr | hr,hpos⟩
  · exact ⟨hr,hpos⟩
  exfalso
  obtain ⟨a,ha,i,-,-,rfl⟩ := hr
  have haseq := hnew a ha
  cases pos with
  | none => cases hpos
  | some p =>
    have hle := (hseq p rfl).1
    have hlt : p.seq < a.seq := by omega
    have hahead : ahead (some p) (toLex (a.seq,i.id)) = true :=
      (ahead_iff p.seq p.reference _).mpr (.inl hlt)
    rw [hahead] at hpos
    cases hpos

theorem call_ok (w : Walk) (c : Call) (fits : Fits w.history) (ok : w.Ok) :
    (w.step (.call c)).Ok := by
  obtain ⟨pos,hparse,hseq,hdelivered⟩ := ok.cursor
  rw [Walk.step]
  cases hpage : recallAttention w.history w.cursor c with
  | error error => exact ok
  | ok page =>
    obtain ⟨next,spec⟩ := page_spec fits (fun p hp => (hseq p hp).2) w.cursor hparse page hpage
    refine ⟨ok.dated,⟨next,spec.parsed,?_,?_⟩,?_,?_⟩
    · intro p hp
      rcases spec.standing with heq | ⟨a,ha,hs⟩
      · exact hseq p (heq ▸ hp)
      · rw [hp] at hs
        have hpa : p.seq = a.seq := by simpa using hs
        exact ⟨hpa ▸ ok.dated a ha,hpa ▸ fits.small a ha⟩
    · intro k
      show k ∈ (w.delivered++page.items).map keyOf ↔ _
      rw [List.map_append, List.mem_append, hdelivered, spec.taken]
      constructor
      · rintro (⟨hr,hpos⟩ | ⟨hr,-,hnext⟩)
        · refine ⟨hr,?_⟩
          rw [← Bool.not_eq_true]
          intro hahead
          rw [spec.forward k hahead] at hpos
          cases hpos
        · exact ⟨hr,hnext⟩
      · rintro ⟨hr,hnext⟩
        cases hpos : ahead pos k with
        | false => exact .inl ⟨hr,rfl⟩
        | true => exact .inr ⟨hr,rfl,hnext⟩
    · show ((w.delivered++page.items).map keyOf).Pairwise _
      rw [List.map_append]
      apply List.pairwise_append.mpr
      refine ⟨ok.strict,spec.strict,?_⟩
      intro j hj k hk
      have hjpos := ((hdelivered j).mp hj).2
      have hkpos := ((spec.taken k).mp hk).2.1
      by_contra hle
      rw [ahead_up pos k j (not_lt.mp hle) hkpos] at hjpos
      cases hjpos
    · intro p hp hcomplete
      rcases List.mem_append.mp hp with hp | hp
      · exact ok.pages p hp hcomplete
      · rw [List.mem_singleton.mp hp] at hcomplete ⊢
        exact ⟨next,spec.parsed,spec.complete hcomplete⟩

theorem walk_ok (events : List Event) (fits : Fits (walk events).history) : (walk events).Ok := by
  induction events using List.reverseRecOn with
  | nil => exact start_ok
  | append_singleton events e ih =>
    rw [walk, List.foldl_append] at fits ⊢
    cases e with
    | commit c =>
      have hbefore : Fits (walk events).history :=
        fits_sublist _ _ (List.sublist_append_left _ _) fits
      exact commit_ok _ c (ih hbefore)
    | call c =>
      have hsame : ((walk events).step (.call c)).history = (walk events).history := by
        rw [Walk.step]
        split <;> rfl
      have hbefore : Fits (walk events).history := by
        rw [← hsame]
        exact fits
      exact call_ok _ c hbefore (ih hbefore)

end Walks

/-- Over every growing history whose commits and Activities fit one reading, and every
sequence of calls that pass the cursor on: the delivered items increase strictly, they are
exactly what was raised at or before the cursor, and behind the cursor of a page that is
marked complete nothing had been raised before the call. -/
theorem attention_delivered_once (events : List Event) (fits : Fits (walk events).history) :
    ((walk events).delivered.map keyOf).Pairwise (· < ·) ∧
    (∃ pos, (walk events).cursor.elim (.ok none) parseCursor = .ok pos ∧
      ∀ k, k ∈ (walk events).delivered.map keyOf ↔
        Raised (walk events).history k ∧ ahead pos k = false) ∧
    ∀ page ∈ (walk events).pages, page.1.complete = true →
      ∃ pos, parseCursor page.1.attentionCursor = .ok pos ∧
        ∀ k, Raised page.2 k → ahead pos k = false := by
  have ok := walk_ok events fits
  obtain ⟨pos,hparse,-,hdelivered⟩ := ok.cursor
  exact ⟨ok.strict,⟨pos,hparse,hdelivered⟩,ok.pages⟩

section Reading

def insertionEngine : Engine where
  activities rows := rows.insertionSort fun a b => a.seq ≤ b.seq
  arranges _ := ⟨List.perm_insertionSort _ _,Foundation.Windows.sorted_by Activity.seq _⟩
  inputs rows := rows
  shuffles rows := List.Perm.refl rows

def reading (limit : ℕ) : Call where
  limit := some limit
  engine := insertionEngine
  failure := none
  inputFailure _ := none
  attributes _ := .null
  targets _ := .ok []

def reviewOf (inputs : List Input) : Commit where
  gap := 0
  activities := [⟨"ACT-1",0,"commitment_review",inputs⟩]

def twoPages : List Event :=
  [.commit (reviewOf [⟨"C-2",commitmentSchema⟩,⟨"C-1",commitmentSchema⟩]),.call (reading 1),
    .call (reading 1)]

theorem two_pages_fit : Fits (walk twoPages).history := by
  have hhistory : (walk twoPages).history =
      [⟨"ACT-1",1,"commitment_review",[⟨"C-2",commitmentSchema⟩,⟨"C-1",commitmentSchema⟩]⟩] := by
    decide +kernel
  rw [hhistory]
  refine ⟨⟨by decide,by decide⟩,?_,by decide,by decide⟩
  intro seq
  exact (List.length_filter_le _ _).trans (by decide)

theorem attention_delivered_once_two_pages :
    ((walk twoPages).delivered.map keyOf).Pairwise (· < ·) :=
  (attention_delivered_once twoPages two_pages_fit).1

/-- A review with 128 other Concepts before its Commitment: one more input than a reading
takes. -/
def longReview : List Event :=
  [.commit (reviewOf (((List.range 128).map fun n => ⟨"W-"++toString n,watchSchema⟩)++
    [⟨"C-2",commitmentSchema⟩])),.call (reading 50)]

/-- The cursor passes the Commitment, which is not delivered, on a page marked complete. -/
theorem long_review_skips : ¬∃ pos, (walk longReview).cursor.elim (.ok none) parseCursor = .ok pos ∧
    ∀ k, Raised (walk longReview).history k → ahead pos k = false → k ∈
    (walk longReview).delivered.map keyOf := by
  have hend : (walk longReview).cursor = some (renderCursor ⟨1,none⟩) ∧
      (walk longReview).delivered.map keyOf = [] := by
    decide +kernel
  obtain ⟨hcursor,hnone⟩ := hend
  have hraised : Raised (walk longReview).history (toLex (1,"C-2")) := by
    refine ⟨⟨"ACT-1",1,"commitment_review",_⟩,List.mem_singleton_self _,⟨"C-2",commitmentSchema⟩,
      List.mem_append_right _ (List.mem_singleton_self _),by decide +kernel,rfl⟩
  rintro ⟨pos,hparse,hall⟩
  rw [hcursor] at hparse
  have hpos := (parse_render ⟨1,none⟩ (by decide) (by decide)).symm.trans hparse
  cases hpos
  have hmem := hall _ hraised (by decide)
  rw [hnone] at hmem
  cases hmem

end Reading

end AndaBrain.AttentionRecall
