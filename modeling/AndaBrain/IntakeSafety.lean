import AndaBrain.Intake

/-!
# What the requests on one receipt promise each other

Readers hold copies of the receipt and write the first terminal progress into a receipt whose
processing was started.
-/

set_option autoImplicit false

namespace AndaBrain.Intake
open Foundation.ConditionalStore

def Linked (r : IntakeRecord) : Prop := r.conversation.isSome = true ∨ r.terminal.isSome = true

structure Becomes (r r' : IntakeRecord) : Prop where
  receipt : r'.receipt = r.receipt
  nameSpace : r'.nameSpace = r.nameSpace
  intentDigest : r'.intentDigest = r.intentDigest
  sourceDigest : r'.sourceDigest = r.sourceDigest
  linked : Linked r → Linked r'
  fixed : r.terminal.isSome = true → r' = r

variable (w : World) (site : Site) (r : IntakeRecord) (a b : World)

theorem becomes_refl : Becomes r r :=
  ⟨rfl,rfl,rfl,rfl,id,fun _ => rfl⟩

theorem becomes_trans (a b c : IntakeRecord) (hab : Becomes a b) (hbc : Becomes b c) :
    Becomes a c := by
  refine ⟨hbc.receipt.trans hab.receipt,hbc.nameSpace.trans hab.nameSpace,
    hbc.intentDigest.trans hab.intentDigest,hbc.sourceDigest.trans hab.sourceDigest,
    fun h => hbc.linked (hab.linked h),?_⟩
  intro h
  have hb : b = a := hab.fixed h
  subst hb
  exact hbc.fixed h

abbrev World.receipt (w : World) : Option (Versioned IntakeRecord) := w.journal.cells Path.receipt

abbrev World.key (w : World) : Option (Versioned KeyRecord) := w.journal.cells Path.key

def Covers (r : IntakeRecord) (w : World) : Prop :=
  Linked r → ∃ c, w.receipt = some c ∧ Becomes r c.value

structure Grows (a b : World) : Prop where
  next : a.journal.next ≤ b.journal.next
  receipt : ∀ c, a.receipt = some c → ∃ c', b.receipt = some c' ∧ Becomes c.value c'.value ∧
    (c' = c ∨ a.journal.next ≤ c'.version ∧ (Linked c.value → c'.value.terminal.isSome = true))
  key : ∀ k, a.key = some k → b.key = some k
  copies : a.copies <+: b.copies

theorem grows_refl (a : World) : Grows a a :=
  ⟨Nat.le_refl _,fun c hc => ⟨c,hc,becomes_refl _,Or.inl rfl⟩,fun _ hk => hk,List.prefix_rfl⟩

theorem grows_trans (a b c : World) (hab : Grows a b) (hbc : Grows b c) : Grows a c := by
  refine ⟨Nat.le_trans hab.next hbc.next,?_,fun k hk => hbc.key k (hab.key k hk),
    hab.copies.trans hbc.copies⟩
  intro x hx
  obtain ⟨y,hy,hxy,hnew⟩ := hab.receipt x hx
  obtain ⟨z,hz,hyz,hnew'⟩ := hbc.receipt y hy
  refine ⟨z,hz,becomes_trans _ _ _ hxy hyz,?_⟩
  rcases hnew' with rfl | ⟨hv,hl⟩
  · exact hnew
  · exact Or.inr ⟨Nat.le_trans hab.next hv,fun h => hl (hxy.linked h)⟩

theorem covers_grows (h : Covers r a) (hg : Grows a b) : Covers r b := by
  intro hl
  obtain ⟨c,hc,hr⟩ := h hl
  obtain ⟨c',hc',hb,_⟩ := hg.receipt c hc
  exact ⟨c',hc',becomes_trans _ _ _ hr hb⟩

structure Owned (site : Site) (r : IntakeRecord) : Prop where
  receiptRef : r.receipt.receiptRef = site.receiptRef
  spaceId : r.receipt.spaceId = site.spaceId
  nameSpace : r.nameSpace = site.nameSpace
  meaning : r.intentDigest.content.sourceDigest = r.sourceDigest
  terminal : ∀ p, r.terminal = some p → p.phase ≠ .recorded

structure Inv (site : Site) (w : World) : Prop where
  version : ∀ c, w.receipt = some c → c.version < w.journal.next
  owned : ∀ c, w.receipt = some c → Owned site c.value
  unbound : w.key = none → w.started = [] ∧ ∀ c, w.receipt = some c → ¬Linked c.value
  bound : ∀ k, w.key = some k → ∃ c, w.receipt = some c
  once : w.started.length ≤ 1
  copies : ∀ r ∈ w.copies, Covers r w

theorem inv_empty : Inv site World.empty := by
  refine ⟨?_,?_,?_,?_,Nat.zero_le _,?_⟩
  · intro c hc
    cases hc
  · intro c hc
    cases hc
  · intro _
    refine ⟨rfl,fun c hc => ?_⟩
    cases hc
  · intro k hk
    cases hk
  · intro r hr
    cases hr

inductive Reads (a : World) : World → Prop
  | hold (r : IntakeRecord) (h : Covers r a) : Reads a { a with copies := a.copies++[r] }
  | settle (c : Versioned IntakeRecord) (p : Progress) (result : Option FormationResult)
      (warnings : List String) (hc : a.receipt = some c) (hl : Linked c.value)
      (ht : c.value.terminal = none) (hp : p.phase ≠ .recorded) :
      Reads a (written a Path.receipt (c.value.settle p result warnings))

inductive Admits (site : Site) (a : World) : World → Prop
  | hold (r : IntakeRecord) (h : Covers r a) :
      Admits site a { a with copies := a.copies++[r] }
  | create (r : IntakeRecord) (hr : a.receipt = none) (hk : a.key = none) (ho : Owned site r)
      (hl : ¬Linked r) : Admits site a (written a Path.receipt r)
  | bind (k : KeyRecord) (c : Versioned IntakeRecord) (hk : a.key = none)
      (hc : a.receipt = some c) : Admits site a (written a Path.key k)
  | start (k : Versioned KeyRecord) (id : Option ℕ) (hk : a.key = some k)
      (hs : a.started = []) : Admits site a { a with started := a.started++id.toList }
  | finish (k : Versioned KeyRecord) (c : Versioned IntakeRecord) (r : IntakeRecord)
      (hk : a.key = some k) (hc : a.receipt = some c) (hl : ¬Linked c.value)
      (hb : Becomes c.value r) (ho : Owned site r) : Admits site a (written a Path.receipt r)

theorem receipt_written : (written w Path.receipt r).receipt = some ⟨r,w.journal.next⟩ :=
  cells_place w.journal Path.receipt r

theorem key_written_receipt : (written w Path.receipt r).key = w.key :=
  cells_place_of_ne w.journal Path.receipt Path.key r (by decide)

theorem key_written (k : KeyRecord) : (written w Path.key k).key = some ⟨k,w.journal.next⟩ :=
  cells_place w.journal Path.key k

theorem receipt_written_key (k : KeyRecord) : (written w Path.key k).receipt = w.receipt :=
  cells_place_of_ne w.journal Path.key Path.receipt k (by decide)

theorem becomes_settle (p : Progress) (result : Option FormationResult)
    (warnings : List String) (ht : r.terminal = none) : Becomes r (r.settle p result warnings) := by
  refine ⟨rfl,rfl,rfl,rfl,fun _ => Or.inr rfl,?_⟩
  intro h
  rw [ht] at h
  cases h

theorem grows_rewrite (a : World) (c : Versioned IntakeRecord) (r : IntakeRecord)
    (hc : a.receipt = some c) (hb : Becomes c.value r)
    (hl : Linked c.value → r.terminal.isSome = true) : Grows a (written a Path.receipt r) := by
  refine ⟨Nat.le_succ _,?_,?_,List.prefix_rfl⟩
  · intro x hx
    have hxc : c = x := Option.some.inj (hc.symm.trans hx)
    subst hxc
    exact ⟨_,receipt_written a r,hb,Or.inr ⟨Nat.le_refl _,hl⟩⟩
  · intro k hk
    rw [key_written_receipt]
    exact hk

theorem grows_hold (a : World) (r : IntakeRecord) :
    Grows a { a with copies := a.copies++[r] } :=
  ⟨Nat.le_refl _,fun c hc => ⟨c,hc,becomes_refl _,Or.inl rfl⟩,fun _ hk => hk,
    List.prefix_append _ _⟩

theorem reads_grows (h : Reads a b) : Grows a b := by
  cases h with
  | hold r _ => exact grows_hold a r
  | settle c p result warnings hc hl ht hp =>
    exact grows_rewrite a c _ hc (becomes_settle _ _ _ _ ht) fun _ => rfl

theorem admits_grows (h : Admits site a b) : Grows a b := by
  cases h with
  | hold r _ => exact grows_hold a r
  | create r hr hk ho hl =>
    refine ⟨Nat.le_succ _,?_,?_,List.prefix_rfl⟩
    · intro c hc
      rw [hr] at hc
      cases hc
    · intro k hk'
      rw [hk] at hk'
      cases hk'
  | bind k c hk hc =>
    refine ⟨Nat.le_succ _,?_,?_,List.prefix_rfl⟩
    · intro x hx
      rw [receipt_written_key]
      exact ⟨x,hx,becomes_refl _,Or.inl rfl⟩
    · intro k' hk'
      rw [hk] at hk'
      cases hk'
  | start k id hk hs =>
    exact ⟨Nat.le_refl _,fun c hc => ⟨c,hc,becomes_refl _,Or.inl rfl⟩,fun _ hk => hk,
      List.prefix_rfl⟩
  | finish k c r hk hc hl hb ho =>
    exact grows_rewrite a c r hc hb fun h => absurd h hl

theorem copies_grow (h : Inv site a) (hg : Grows a b) : ∀ r ∈ a.copies, Covers r b :=
  fun r hr => covers_grows r a b (h.copies r hr) hg

theorem inv_hold (a : World) (r : IntakeRecord) (h : Inv site a)
    (hr : Covers r a) : Inv site { a with copies := a.copies++[r] } := by
  refine ⟨h.version,h.owned,h.unbound,h.bound,h.once,?_⟩
  intro x hx
  rw [List.mem_append, List.mem_singleton] at hx
  rcases hx with hx | rfl
  · exact h.copies x hx
  · exact hr

theorem inv_rewrite (a : World) (k : Versioned KeyRecord) (c : Versioned IntakeRecord)
    (r : IntakeRecord) (h : Inv site a) (hk : a.key = some k) (hc : a.receipt = some c)
    (hb : Becomes c.value r) (hl : Linked c.value → r.terminal.isSome = true) (ho : Owned site r) :
    Inv site (written a Path.receipt r) := by
  have hr := receipt_written a r
  refine ⟨?_,?_,?_,?_,h.once,?_⟩
  · intro x hx
    rw [← Option.some.inj (hr.symm.trans hx)]
    exact Nat.lt_succ_self _
  · intro x hx
    rw [← Option.some.inj (hr.symm.trans hx)]
    exact ho
  · intro hn
    rw [key_written_receipt, hk] at hn
    cases hn
  · intro _ _
    exact ⟨_,hr⟩
  · exact copies_grow site a _ h (grows_rewrite a c r hc hb hl)

theorem owned_settle (p : Progress) (result : Option FormationResult) (warnings : List String)
    (h : Owned site r) (hp : p.phase ≠ .recorded) : Owned site (r.settle p result warnings) := by
  refine ⟨h.receiptRef,h.spaceId,h.nameSpace,h.meaning,?_⟩
  intro q hq
  have hqp : p = q := Option.some.inj hq
  rw [← hqp]
  exact hp

theorem key_of_linked (a : World) (c : Versioned IntakeRecord) (h : Inv site a)
    (hc : a.receipt = some c) (hl : Linked c.value) : ∃ k, a.key = some k := by
  cases hk : a.key with
  | none => exact absurd hl ((h.unbound hk).2 c hc)
  | some k => exact ⟨k,rfl⟩

theorem inv_reads (h : Inv site a) (hr : Reads a b) : Inv site b := by
  cases hr with
  | hold r hr => exact inv_hold site a r h hr
  | settle c p result warnings hc hl ht hp =>
    obtain ⟨k,hk⟩ := key_of_linked site a c h hc hl
    exact inv_rewrite site a k c _ h hk hc (becomes_settle _ _ _ _ ht) (fun _ => rfl)
      (owned_settle site _ _ _ _ (h.owned c hc) hp)

theorem inv_admits (h : Inv site a) (ha : Admits site a b) : Inv site b := by
  have hg := admits_grows site a b ha
  cases ha with
  | hold r hr => exact inv_hold site a r h hr
  | create r hr hk ho hl =>
    have hw := receipt_written a r
    refine ⟨?_,?_,?_,?_,h.once,copies_grow site a _ h hg⟩
    · intro x hx
      rw [← Option.some.inj (hw.symm.trans hx)]
      exact Nat.lt_succ_self _
    · intro x hx
      rw [← Option.some.inj (hw.symm.trans hx)]
      exact ho
    · intro _
      refine ⟨(h.unbound hk).1,fun x hx => ?_⟩
      rw [← Option.some.inj (hw.symm.trans hx)]
      exact hl
    · intro _ _
      exact ⟨_,hw⟩
  | bind k c hk hc =>
    have hw := receipt_written_key a k
    refine ⟨?_,?_,?_,?_,h.once,copies_grow site a _ h hg⟩
    · intro x hx
      rw [hw] at hx
      exact Nat.lt_succ_of_lt (h.version x hx)
    · intro x hx
      rw [hw] at hx
      exact h.owned x hx
    · intro hn
      rw [key_written] at hn
      cases hn
    · intro _ _
      exact ⟨c,hw.trans hc⟩
  | start k id hk hs =>
    refine ⟨h.version,h.owned,?_,h.bound,?_,h.copies⟩
    · intro hn
      have : a.key = none := hn
      rw [hk] at this
      cases this
    · show (a.started++id.toList).length ≤ 1
      rw [hs]
      cases id <;> simp
  | finish k c r hk hc hl hb ho =>
    exact inv_rewrite site a k c r h hk hc hb (fun hc => absurd hc hl) ho

def Later (site : Site) (a b : World) : Prop := (Inv site a → Inv site b) ∧ Grows a b

theorem later_refl (a : World) : Later site a a := ⟨id,grows_refl a⟩

theorem later_trans (a b c : World) (hab : Later site a b)
    (hbc : Later site b c) : Later site a c :=
  ⟨fun h => hbc.1 (hab.1 h),grows_trans a b c hab.2 hbc.2⟩

structure Quiet (site : Site) (a b : World) : Prop where
  later : Later site a b
  key : b.key = a.key
  started : b.started = a.started
  absent : a.receipt = none → b.receipt = none
  unlinked : ∀ c, a.receipt = some c → ¬Linked c.value → b.receipt = some c

theorem quiet_refl (a : World) : Quiet site a a :=
  ⟨later_refl site a,rfl,rfl,id,fun _ hc _ => hc⟩

theorem quiet_trans (a b c : World) (hab : Quiet site a b)
    (hbc : Quiet site b c) : Quiet site a c :=
  ⟨later_trans site a b c hab.later hbc.later,hbc.key.trans hab.key,
    hbc.started.trans hab.started,fun h => hbc.absent (hab.absent h),
    fun x hx hl => hbc.unlinked x (hab.unlinked x hx hl) hl⟩

theorem reads_later (h : Reads a b) : Later site a b :=
  ⟨fun hi => inv_reads site a b hi h,reads_grows a b h⟩

theorem admits_later (h : Admits site a b) : Later site a b :=
  ⟨fun hi => inv_admits site a b hi h,admits_grows site a b h⟩

theorem reads_quiet (h : Reads a b) : Quiet site a b := by
  have hl := reads_later site a b h
  cases h with
  | hold r hr => exact ⟨hl,rfl,rfl,id,fun _ hc _ => hc⟩
  | settle c p result warnings hc hlinked ht hp =>
    refine ⟨hl,key_written_receipt a _,rfl,?_,?_⟩
    · intro hn
      rw [hc] at hn
      cases hn
    · intro x hx hu
      rw [← Option.some.inj (hc.symm.trans hx)] at hu
      exact absurd hlinked hu

end AndaBrain.Intake
