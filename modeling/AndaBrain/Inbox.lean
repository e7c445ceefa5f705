import Mathlib
import AndaBrain.Foundation.CursorPages

/-!
# The inbox

`inbox_inner` of `runtime_api/inbox.rs` walks the listed wakes from page to page. A cursor holds
the wakes that are listed and not read yet, and where the listing goes on after them.
-/

set_option autoImplicit false

namespace AndaBrain.Inbox
open Foundation.CursorPages

inductive RuntimeError where
  | invalid (s : String)
  | forbidden
  | unavailable (s : String)
  | storage (s : String)
  deriving DecidableEq

/-- `native` and `pageNext` are cursors of the listing. -/
structure Cursor where
  expiresMs : ℕ
  native : Option String
  pending : List String
  pageNext : Option String
  pageComplete : Bool
  deriving DecidableEq

structure WakePage where
  items : List String
  nextCursor : Option String
  complete : Bool

/-- What `read_wake` and `item` make of a wake: it cannot be found, it is not for this caller, it
is shown, or a read fails. -/
inductive Answer (ι : Type) where
  | gone
  | hidden
  | shown (item : ι)
  | failed (e : RuntimeError)

structure Site (ι : Type) where
  audience : Bool
  authorized : Except RuntimeError Unit
  listWakes : Option String → Except RuntimeError WakePage
  answer : String → Answer ι
  size : ι → ℕ

structure Call where
  now : ℕ
  limit : Option ℕ

structure AttentionPage (ι : Type) where
  items : List ι
  nextCursor : Option Cursor
  complete : Bool

section Pages
variable {ι : Type} (site : Site ι)

def decodeCursor (now : ℕ) (c : Cursor) : Except RuntimeError Cursor :=
  if c.expiresMs ≤ now ∨ 50 < c.pending.length then
    .error (.invalid "invalid, expired or foreign attention cursor")
  else .ok c

/-- The loop over the pending wakes: the items, and the wakes that stay pending. -/
def readPending (limit : ℕ) : List String → List ι → ℕ → Except RuntimeError (List ι × List String)
  | [], items, _ => .ok (items,[])
  | reference::rest, items, bytes =>
    match site.answer reference with
    | .failed e => .error e
    | .gone => readPending limit rest items bytes
    | .hidden => if limit ≤ items.length then .ok (items,rest) else readPending limit rest items bytes
    | .shown item =>
      let size := site.size item
      if 131072 < size then .error (.unavailable "attention item exceeds read budget")
      else if items ≠ [] ∧ (limit ≤ items.length ∨ 262144 < bytes+size) then
        .ok (items,reference::rest)
      else if limit ≤ (items++[item]).length then .ok (items++[item],rest)
      else readPending limit rest (items++[item]) (bytes+size)

def refill (c : Cursor) : Except RuntimeError Cursor :=
  if c.pending.isEmpty then
    match site.listWakes c.native with
    | .error e => .error e
    | .ok page => .ok { c with
        pending := page.items, pageNext := page.nextCursor, pageComplete := page.complete }
  else .ok c

def openCursor (call : Call) (token : Option Cursor) : Except RuntimeError Cursor :=
  if !site.audience then .error .forbidden
  else
    match site.authorized with
    | .error e => .error e
    | .ok _ =>
      if call.limit.getD 20 < 1 ∨ 50 < call.limit.getD 20 then
        .error (.invalid "attention limit must be 1..=50")
      else
        match token with
        | some c => decodeCursor call.now c
        | none => .ok ⟨call.now+300000,none,[],none,false⟩

def pageOf (cursor : Cursor) (items : List ι) (pending : List String) : AttentionPage ι :=
  let complete := pending.isEmpty && cursor.pageComplete
  let cursor := if pending.isEmpty then
      { cursor with pending, native := cursor.pageNext, pageNext := none }
    else { cursor with pending }
  ⟨items,if complete then none else some cursor,complete⟩

def inboxInner (call : Call) (token : Option Cursor) : Except RuntimeError (AttentionPage ι) := do
  let cursor ← openCursor site call token
  let cursor ← refill site cursor
  let (items,pending) ← readPending site (call.limit.getD 20) cursor.pending [] 0
  pure (pageOf cursor items pending)

def visible (reference : String) : Option ι :=
  match site.answer reference with
  | .shown item => some item
  | _ => none

def Readable (reference : String) : Prop :=
  (∀ e, site.answer reference ≠ .failed e) ∧
    ∀ item, site.answer reference = .shown item → site.size item ≤ 131072

inductive Lists : Option String → List String → Prop
  | last (c next : Option String) (items : List String)
      (h : site.listWakes c = .ok ⟨items,next,true⟩) (hlen : items.length ≤ 50) : Lists c items
  | more (c : Option String) (next : String) (items rest : List String)
      (h : site.listWakes c = .ok ⟨items,some next,false⟩) (hlen : items.length ≤ 50)
      (hitems : items ≠ []) (hrest : Lists (some next) rest) : Lists c (items++rest)

def Ahead (c : Cursor) (left : List String) : Prop :=
  c.pending.length ≤ 50 ∧ (c.pageComplete = true ∧ left = c.pending ∨
    c.pageComplete = false ∧ ∃ next rest, c.pageNext = some next ∧ left = c.pending++rest ∧
      Lists site (some next) rest)

/-- The wakes that a cursor has left. It is good for all of the calls. -/
def StandsFor (calls : ℕ → Call) : Option Cursor → List String → Prop
  | none, left => Lists site none left
  | some c, left => (∀ k, (calls k).now < c.expiresMs) ∧
    if c.pending = [] then Lists site c.native left else Ahead site c left

def Bounded (limit : ℕ) (items : List ι) : Prop :=
  items.length ≤ limit ∧ (items.map site.size).sum ≤ 262144

def Reads (limit : ℕ) (pending : List String) (items : List ι)
    (result : Except RuntimeError (List ι × List String)) : Prop :=
  ∃ taken rest, result = .ok (items++taken.filterMap (visible site),rest) ∧ pending = taken++rest ∧
    (items = [] → pending ≠ [] → taken ≠ []) ∧
    Bounded site limit (items++taken.filterMap (visible site))

variable {site}

theorem read_splits (limit : ℕ) (hlimit : 1 ≤ limit) (pending : List String) (items : List ι)
    (hread : ∀ r ∈ pending, Readable site r) (hb : Bounded site limit items) :
    Reads site limit pending items
      (readPending site limit pending items (items.map site.size).sum) := by
  induction pending generalizing items with
  | nil => exact ⟨[],[],by simp [readPending],rfl,fun _ h => absurd rfl h,by simpa using hb⟩
  | cons reference pending ih =>
    have htail := fun r hr => hread r (List.mem_cons_of_mem _ hr)
    obtain ⟨hfail,hsize⟩ := hread reference List.mem_cons_self
    have skip (hv : visible site reference = none) : Reads site limit (reference::pending) items
        (readPending site limit pending items (items.map site.size).sum) := by
      obtain ⟨taken,rest,heq,hsplit,-,hbound⟩ := ih items htail hb
      exact ⟨reference::taken,rest,by simp [heq, hv],by simp [hsplit],by simp,by simpa [hv] using hbound⟩
    unfold readPending
    cases hanswer : site.answer reference with
    | failed e => exact absurd hanswer (hfail e)
    | gone => exact skip (by simp [visible, hanswer])
    | hidden =>
      have hv : visible site reference = none := by simp [visible, hanswer]
      by_cases hfull : limit ≤ items.length
      · exact ⟨[reference],pending,by simp [hv, hfull],rfl,by simp,by simpa [hv] using hb⟩
      · simpa only [if_neg hfull] using skip hv
    | shown item =>
      have hv : visible site reference = some item := by simp [visible, hanswer]
      simp only [if_neg (Nat.not_lt.2 (hsize item hanswer))]
      by_cases hstop : items ≠ [] ∧
          (limit ≤ items.length ∨ 262144 < (items.map site.size).sum+site.size item)
      · exact ⟨[],reference::pending,by simp [hstop],rfl,fun h => absurd h hstop.1,by simpa using hb⟩
      rw [if_neg hstop]
      have hsum : ((items++[item]).map site.size).sum = (items.map site.size).sum+site.size item := by
        simp
      have hfits : Bounded site limit (items++[item]) := by
        have hsmall := hsize item hanswer
        unfold Bounded
        rw [hsum, List.length_append, List.length_singleton]
        by_cases hempty : items = []
        · subst hempty
          simp only [List.length_nil, List.map_nil, List.sum_nil]
          omega
        · obtain ⟨hcount,hbytes⟩ := not_or.1 fun h => hstop ⟨hempty,h⟩
          omega
      by_cases hfull : limit ≤ (items++[item]).length
      · rw [if_pos hfull]
        exact ⟨[reference],pending,by simp [hv],rfl,by simp,by simpa [hv] using hfits⟩
      rw [if_neg hfull, ← hsum]
      obtain ⟨taken,rest,heq,hsplit,-,hbound⟩ := ih (items++[item]) htail hfits
      exact ⟨reference::taken,rest,by rw [heq]; simp [hv],by simp [hsplit],by simp,
        by simpa [hv] using hbound⟩

theorem refill_ahead (c : Cursor) (left : List String)
    (h : if c.pending = [] then Lists site c.native left else Ahead site c left) :
    ∃ c', refill site c = .ok c' ∧ c'.expiresMs = c.expiresMs ∧ Ahead site c' left ∧
      (c'.pending = [] → left = [] ∧ c'.pageComplete = true) := by
  unfold refill
  by_cases hpending : c.pending = []
  · rw [if_pos hpending] at h
    rw [if_pos (by rw [hpending]; rfl)]
    generalize hc : c.native = native at h ⊢
    cases h with
    | last _ next _ hlist hlen =>
      rw [hlist]
      exact ⟨_,rfl,rfl,⟨hlen,.inl ⟨rfl,rfl⟩⟩,fun h => ⟨h,rfl⟩⟩
    | more _ next items rest hlist hlen hitems hrest =>
      rw [hlist]
      exact ⟨_,rfl,rfl,⟨hlen,.inr ⟨rfl,next,rest,rfl,rfl,hrest⟩⟩,fun h => absurd h hitems⟩
  · rw [if_neg hpending] at h
    rw [if_neg (by simpa using hpending)]
    exact ⟨c,rfl,rfl,h,fun heq => absurd heq hpending⟩

/-- What a caller passes on still stands for the wakes behind the page. -/
theorem passed_on (calls : ℕ → Call) (c : Cursor) (left taken rest : List String)
    (hclock : ∀ k, (calls k).now < c.expiresMs) (hahead : Ahead site c left)
    (hempty : c.pending = [] → left = [] ∧ c.pageComplete = true)
    (hsplit : c.pending = taken++rest) (htaken : c.pending ≠ [] → taken ≠ []) (items : List ι)
    (hitems : items = taken.filterMap (visible site)) :
    ∃ behind, Takes (StandsFor site calls) (visible site) left (pageOf c items rest).items
      (pageOf c items rest).nextCursor taken behind := by
  unfold pageOf
  obtain ⟨hlen,⟨hcomplete,rfl⟩ | ⟨hcomplete,next,more,hnext,rfl,hmore⟩⟩ := hahead
  · refine ⟨rest,hsplit,hitems,?_,fun next hgoes => ?_⟩
    · cases rest <;> simp [hcomplete]
    cases rest with
    | nil => simp [hcomplete] at hgoes
    | cons reference rest =>
      obtain rfl := Option.some.inj hgoes
      refine ⟨htaken (by simp [hsplit]),hclock,?_⟩
      rw [hsplit, List.length_append] at hlen
      exact ⟨Nat.le_trans (Nat.le_add_left _ _) hlen,.inl ⟨hcomplete,rfl⟩⟩
  have hpending : c.pending ≠ [] := fun heq => by
    simp [(hempty heq).2] at hcomplete
  refine ⟨rest++more,by rw [hsplit, List.append_assoc],hitems,fun hnone => ?_,fun next' hgoes => ?_⟩
  · simp [hcomplete] at hnone
  refine ⟨htaken hpending,?_⟩
  simp only [hcomplete, Bool.and_false, Bool.false_eq_true, if_false, Option.some.injEq] at hgoes
  subst hgoes
  cases rest with
  | nil => exact ⟨hclock,hnext ▸ hmore⟩
  | cons reference rest =>
    rw [hsplit, List.length_append] at hlen
    exact ⟨hclock,Nat.le_trans (Nat.le_add_left _ _) hlen, .inr ⟨rfl,next,more,hnext,rfl,hmore⟩⟩

theorem inbox_step (haudience : site.audience = true) (hauthorized : site.authorized = .ok ())
    (calls : ℕ → Call) (hlimit : ∀ k, 1 ≤ (calls k).limit.getD 20 ∧ (calls k).limit.getD 20 ≤ 50)
    (hclock : ∀ k, (calls k).now < (calls 0).now+300000) (k : ℕ) (token : Option Cursor)
    (left : List String) (hfirst : token = none → k = 0) (h : StandsFor site calls token left)
    (hread : ∀ r ∈ left, Readable site r) :
    ∃ page taken behind, inboxInner site (calls k) token = .ok page ∧
      Takes (StandsFor site calls) (visible site) left page.items page.nextCursor taken behind ∧
      (left ≠ [] → taken ≠ []) ∧ Bounded site ((calls k).limit.getD 20) page.items ∧
      (page.complete = true ↔ page.nextCursor = none) := by
  have hrange : ¬((calls k).limit.getD 20 < 1 ∨ 50 < (calls k).limit.getD 20) := by
    have := hlimit k
    omega
  obtain ⟨c,hopen,hexpires,hleft⟩ : ∃ c, openCursor site (calls k) token = .ok c ∧
      (∀ j, (calls j).now < c.expiresMs) ∧
      if c.pending = [] then Lists site c.native left else Ahead site c left := by
    simp only [openCursor, haudience, hauthorized, if_neg hrange, Bool.not_true, Bool.false_eq_true,
      if_false]
    cases token with
    | none =>
      obtain rfl := hfirst rfl
      exact ⟨_,rfl,hclock,h⟩
    | some c =>
      refine ⟨c,if_neg ?_,h.1,h.2⟩
      have hnow := h.1 k
      have hlen : c.pending.length ≤ 50 := by
        by_cases hpending : c.pending = []
        · simp [hpending]
        · have hahead := h.2
          rw [if_neg hpending] at hahead
          exact hahead.1
      omega
  obtain ⟨c',hrefill,hsame,hahead,hempty⟩ := refill_ahead c left hleft
  have hpending : ∀ r ∈ c'.pending, Readable site r := by
    intro r hr
    refine hread r ?_
    obtain ⟨-,⟨-,heq⟩ | ⟨-,next,more,-,heq,-⟩⟩ := hahead
    · rwa [heq]
    · rw [heq]
      exact List.mem_append_left _ hr
  obtain ⟨taken,rest,hitems,hsplit,htaken,hbound⟩ :=
    read_splits _ (hlimit k).1 c'.pending [] hpending ⟨Nat.zero_le _,Nat.zero_le _⟩
  obtain ⟨behind,htakes⟩ := passed_on calls c' left taken rest (fun j => hsame ▸ hexpires j) hahead
    hempty hsplit (htaken rfl) _ rfl
  refine ⟨_,taken,behind,?_,htakes,fun hne => htaken rfl fun hnil => hne (hempty hnil).1,hbound,?_⟩
  · simp only [List.map_nil, List.sum_nil, List.nil_append] at hitems
    simp [inboxInner, hopen, hrefill, hitems, bind, Except.bind, pure, Except.pure]
  · unfold pageOf
    by_cases hcomplete : (rest.isEmpty && c'.pageComplete) = true <;> simp [hcomplete]

def servePage (site : Site ι) (calls : ℕ → Call) (k : ℕ) (token : Option Cursor) :
    Except RuntimeError (List ι × Option Cursor) :=
  (inboxInner site (calls k) token).map fun page => (page.items,page.nextCursor)

end Pages

/-- With calls of any limits, made before the cursor of the first one expires, the pages of the
inbox hold what the caller may see of the listed wakes, in their order, within the limits. The walk
ends where a page is complete, and each page reads a wake while one is left. -/
theorem inbox_lossless {ι : Type} (site : Site ι) (haudience : site.audience = true)
    (hauthorized : site.authorized = .ok ()) (wakes : List String) (hlists : Lists site none wakes)
    (hread : ∀ r ∈ wakes, Readable site r) (calls : ℕ → Call)
    (hlimit : ∀ k, 1 ≤ (calls k).limit.getD 20 ∧ (calls k).limit.getD 20 ≤ 50)
    (hclock : ∀ k, (calls k).now < (calls 0).now+300000) :
    (∃ pages, Follows (servePage site calls) (fun k => Bounded site ((calls k).limit.getD 20)) 0 none
        pages ∧ pages.flatten = wakes.filterMap (visible site) ∧ pages.length ≤ wakes.length+1) ∧
    ∀ k token left, (token = none → k = 0) → StandsFor site calls token left →
      (∀ r ∈ left, Readable site r) →
      ∃ page taken behind, inboxInner site (calls k) token = .ok page ∧
        Takes (StandsFor site calls) (visible site) left page.items page.nextCursor taken behind ∧
        (left ≠ [] → taken ≠ []) ∧ Bounded site ((calls k).limit.getD 20) page.items ∧
        (page.complete = true ↔ page.nextCursor = none) := by
  have hstep := inbox_step haudience hauthorized calls hlimit hclock
  refine ⟨?_,hstep⟩
  refine follows_lossless (servePage site calls) _ (fun k token left =>
      (token = none → k = 0) ∧ StandsFor site calls token left ∧ ∀ r ∈ left, Readable site r)
    (visible site) (fun k token left h => ?_) 0 none wakes ⟨fun _ => rfl,hlists,hread⟩
  obtain ⟨page,taken,behind,hpage,htakes,-,hbound,-⟩ := hstep k token left h.1 h.2.1 h.2.2
  refine ⟨page.items,page.nextCursor,taken,behind,by simp [servePage, hpage, Except.map],hbound,
    htakes.split,htakes.shown,htakes.done,fun c hc => ?_⟩
  obtain ⟨htaken,hstands⟩ := htakes.goes c hc
  exact ⟨htaken,nofun,hstands,fun r hr => h.2.2 r (htakes.split ▸ List.mem_append_right _ hr)⟩

/-- Three wakes on one page of the listing, the second of which is not for the caller. -/
def sampleInbox : Site String where
  audience := true
  authorized := .ok ()
  listWakes _ := .ok ⟨["w1","w2","w3"],none,true⟩
  answer reference := if reference = "w2" then .hidden else .shown reference
  size _ := 100000

theorem inbox_lossless_one_by_one : ∃ pages, Follows (servePage sampleInbox fun _ => ⟨0,some 1⟩)
    (fun _ => Bounded sampleInbox 1) 0 none pages ∧ pages.flatten = ["w1","w3"] ∧ pages.length ≤ 4 := by
  have hread : ∀ r ∈ ["w1","w2","w3"], Readable sampleInbox r := by
    simp [Readable, sampleInbox]
  exact (inbox_lossless sampleInbox rfl rfl ["w1","w2","w3"] (.last _ none _ rfl (by decide)) hread
    (fun _ => ⟨0,some 1⟩) (fun _ => by decide) fun _ => by decide).1

/-- A second call five minutes after the first one: the cursor has expired by then, and the walk
comes to no complete page. -/
theorem late_call_loses : ¬∃ pages, Follows (servePage sampleInbox fun k => ⟨300000*k,some 1⟩)
    (fun _ => Bounded sampleInbox 1) 0 none pages := by
  rintro ⟨pages,hfollows⟩
  cases hfollows with
  | last _ _ items hfirst => exact nomatch hfirst
  | next _ _ c items pages hfirst _ hrest =>
    have hpage : (["w1"],some (Cursor.mk 300000 none ["w2","w3"] none true)) = (items,some c) :=
      Except.ok.inj hfirst
    cases hpage
    cases hrest with
    | last _ _ items hsecond => exact nomatch hsecond
    | next _ _ c items pages hsecond => exact nomatch hsecond

end AndaBrain.Inbox
