import AndaBrain.TrustSelection

/-!
# The history of the trust control

Bisecting the sequence numbers finds a version of the trust control, and sixty-four rounds are
enough.
-/

set_option autoImplicit false

namespace AndaBrain.Trust

open Foundation.Resumption

def Ascending (control : List ControlRow) : Prop :=
  control.Pairwise fun newer older => older.seq ≤ newer.seq ∧ older.version ≤ newer.version

def rowAt (control : List ControlRow) (seq : ℕ) : Option ControlRow :=
  control.find? fun row => row.seq ≤ seq

def HoldsAt (control : List ControlRow) (version t : ℕ) : Prop :=
  ∃ row, rowAt control t = some row ∧ row.version = version

theorem row_ascends (control : List ControlRow) (h : Ascending control) (i j : ℕ) (hij : i ≤ j)
    (a : ControlRow) (ha : rowAt control i = some a) :
    ∃ b, rowAt control j = some b ∧ a.version ≤ b.version := by
  induction control with
  | nil => cases ha
  | cons newest control ih =>
    obtain ⟨hnewest,hrest⟩ := List.pairwise_cons.1 h
    simp only [rowAt, List.find?_cons] at ha ⊢
    by_cases hj : newest.seq ≤ j
    · simp only [hj, decide_true]
      refine ⟨newest,rfl,?_⟩
      by_cases hi : newest.seq ≤ i
      · simp only [hi, decide_true, Option.some.injEq] at ha
        rw [ha]
      · simp only [hi, decide_false] at ha
        exact (hnewest a (List.mem_of_find?_eq_some ha)).2
    · have hi : ¬newest.seq ≤ i := by omega
      simp only [hi, hj, decide_false] at ha ⊢
      exact ih hrest ha

theorem row_lt (control : List ControlRow) (h : Ascending control) (i j : ℕ) (a b : ControlRow)
    (ha : rowAt control i = some a) (hb : rowAt control j = some b) (hlt : a.version < b.version) :
    i < j := by
  by_contra hle
  obtain ⟨a',ha',hab⟩ := row_ascends control h j i (Nat.le_of_not_lt hle) b hb
  obtain rfl := Option.some.inj (ha.symm.trans ha')
  omega

section Search
variable (i : Env) (w : World) (hquiet : i.outside = []) (served : i.control = .ok ())
  (h : Ascending w.control) (version : ℕ)

include hquiet served in
theorem read_yields (moment : Option ℕ) : Yields i (readControl moment) w
    (.ok (moment.elim w.control.head? (rowAt w.control))) w := by
  have hw : w.meanwhile i = w := by simp [World.meanwhile, hquiet]
  have hread : ∀ (f : Env → World → Except TrustError (Option ControlRow)) (row : Option ControlRow),
      f i w = .ok row → Yields i (native f) w (.ok row) w := by
    intro f row hf
    have hat := yields_atomic (i := i) (s := w) (fun i w => w.meanwhile i)
      fun i w => f i (w.meanwhile i)
    rw [hw, hf] at hat
    exact hat
  apply hread
  rw [served]
  cases moment <;> rfl

structure Between (t rounds lo hi : ℕ) : Prop where
  low : lo ≤ t
  high : t ≤ hi
  near : hi+1-lo < 2^rounds ∨ t < hi ∧ hi-lo < 2^rounds

include hquiet served h in
theorem search_finds (t rounds lo hi : ℕ) (ht : HoldsAt w.control version t)
    (hb : Between t rounds lo hi) :
    ∃ row, Yields i (search version rounds lo hi) w (.ok (some row)) w ∧ row.version = version := by
  induction rounds generalizing lo hi with
  | zero =>
    obtain ⟨hlow,hhigh,hnear⟩ := hb
    omega
  | succ rounds ih =>
    obtain ⟨hlow,hhigh,hnear⟩ := hb
    obtain ⟨row,hrow,hversion⟩ := ht
    rw [Nat.pow_succ] at hnear
    unfold search
    rw [if_neg (by omega)]
    generalize hmid : lo+(hi-lo)/2 = mid
    have hup (hlt : mid < t) := ih (mid+1) hi ⟨by omega,hhigh,by omega⟩
    have hread := read_yields i w hquiet served (some mid)
    cases hat : rowAt w.control mid with
    | none =>
      have hlt : mid < t := Nat.lt_of_not_le fun hle => by
        obtain ⟨b,hb,-⟩ := row_ascends _ h t mid hle row hrow
        rw [hat] at hb
        cases hb
      obtain ⟨found,hfound,heq⟩ := hup hlt
      rw [Option.elim_some, hat] at hread
      exact ⟨found,yields_bind hread hfound,heq⟩
    | some a =>
      rw [Option.elim_some, hat] at hread
      by_cases heq : a.version = version
      · refine ⟨a,yields_bind hread ?_,heq⟩
        simp only [if_pos heq]
        exact yields_ret _
      by_cases hlt : version < a.version
      · have hbelow : t < mid := row_lt _ h t mid row a hrow hat (hversion ▸ hlt)
        have hzero : mid ≠ 0 := by omega
        have hsize : mid-1+1-lo < 2^rounds := by omega
        obtain ⟨found,hfound,hv⟩ := ih lo (mid-1) ⟨hlow,by omega,.inl hsize⟩
        refine ⟨found,yields_bind hread ?_,hv⟩
        simp only [if_neg heq, if_pos hlt, if_neg hzero]
        exact hfound
      · have habove : mid < t := row_lt _ h mid t a row hat hrow (by omega)
        obtain ⟨found,hfound,hv⟩ := hup habove
        refine ⟨found,yields_bind hread ?_,hv⟩
        simp only [if_neg heq, if_neg hlt]
        exact hfound

theorem search_exact (rounds lo hi : ℕ) : Safe (fun _ _ => True)
    (fun r _ => ∃ row, r = some row ∧ row.version = version) (fun _ _ => True)
    (search version rounds lo hi) w := by
  induction rounds generalizing lo hi w with
  | zero => trivial
  | succ rounds ih =>
    unfold search
    split
    · trivial
    refine safe_bind _ _ _ (safe_atomic _ _ _ (fun _ => .inr trivial) (fun _ r _ => ?_)
      fun _ _ _ => trivial)
    cases r with
    | none => exact ih _ _ _
    | some row =>
      by_cases heq : row.version = version
      · simpa only [if_pos heq] using ⟨row,rfl,heq⟩
      simp only [if_neg heq]
      split
      · split
        · trivial
        · exact ih _ _ _
      · exact ih _ _ _

theorem search_ends (rounds more lo hi : ℕ) (hsize : hi+1-lo < 2^rounds) :
    search version (rounds+more) lo hi = search version rounds lo hi := by
  induction rounds generalizing lo hi with
  | zero =>
    have hlt : hi < lo := by omega
    cases more <;> simp [search, hlt]
  | succ rounds ih =>
    rw [Nat.pow_succ] at hsize
    rw [Nat.add_right_comm]
    unfold search
    split
    · rfl
    by_cases hzero : lo+(hi-lo)/2 = 0
    · simp only [ih (lo+(hi-lo)/2+1) hi (by omega), if_pos hzero]
    · have hbelow : lo+(hi-lo)/2-1+1-lo < 2^rounds := by omega
      simp only [ih (lo+(hi-lo)/2+1) hi (by omega), ih lo _ hbelow]

end Search

/-- With a current row, the row of a version that the history holds is found, no row is returned
exactly for a version that is still to come, and below sequence number 2^63 the search ends within
its rounds. -/
theorem control_version_found (i : Env) (w : World) (hquiet : i.outside = [])
    (served : i.control = .ok ()) (h : Ascending w.control) (hcurrent : w.control ≠ [])
    (hsize : w.seq < 2^64) (version : ℕ) :
    ((∃ t ≤ w.seq, HoldsAt w.control version t) → version ≤ w.version →
      ∃ row, Yields i (controlVersion version) w (.ok (some row)) w ∧ row.version = version) ∧
    ((∃ t, Yields i (controlVersion version) w (.ok none) t) ↔ w.version < version) ∧
    (w.seq < 2^63 → ∀ more, search version (64+more) 0 w.seq = search version 64 0 w.seq) := by
  cases hw : w.control with
  | nil => exact absurd hw hcurrent
  | cons current control =>
    have hread := read_yields i w hquiet served none
    rw [Option.elim_none, hw] at hread
    have hv : w.version = current.version := by simp [World.version, hw]
    have hs : w.seq = current.seq := by simp [World.seq, hw]
    have run {r t} (hr : Yields i (if current.version < version then pure none
        else if current.version = version then pure (some current)
        else search version 64 0 current.seq) w r t) : Yields i (controlVersion version) w r t :=
      yields_bind hread (yields_bind (yields_lift (.ok current)) hr)
    rw [hv, hs]
    refine ⟨fun ⟨t,ht,hholds⟩ hle => ?_,⟨fun ⟨t,hnone⟩ => ?_,fun hlt => ⟨w,run ?_⟩⟩,fun hseq more => ?_⟩
    · rw [if_neg (Nat.not_lt.2 hle)] at run
      by_cases heq : current.version = version
      · rw [if_pos heq] at run
        exact ⟨current,run (yields_ret _),heq⟩
      rw [if_neg heq] at run
      have hne : t ≠ current.seq := by
        rintro rfl
        obtain ⟨row,hrow,hversion⟩ := hholds
        simp only [rowAt, List.find?_cons, Nat.le_refl, decide_true, Option.some.injEq] at hrow
        exact heq (hrow ▸ hversion)
      obtain ⟨row,hfound,hversion⟩ := search_finds i w hquiet served h version t 64 0 current.seq
        (hw ▸ hholds) ⟨Nat.zero_le _,ht,.inr ⟨by omega,by omega⟩⟩
      exact ⟨row,run hfound,hversion⟩
    · by_contra hlt
      rw [if_neg hlt] at run
      split at run
      · cases (yields_unique hnone (run (yields_ret _))).1
      obtain ⟨r,u,hr⟩ := yields_total i (search version 64 0 current.seq) w
      obtain ⟨rfl,-⟩ := yields_unique hnone (run hr)
      obtain ⟨row,hrow,-⟩ := safe_yields _ _ (search_exact w version 64 0 current.seq) hr
      cases hrow
    · rw [if_pos hlt]
      exact yields_ret _
    · exact search_ends _ 64 more _ _ (by omega)

def threeVersions : World := { World.empty with
  control := [(3,6),(2,3),(1,2)].map fun (version,seq) =>
    ⟨version,seq,⟨[],.nan,[]⟩,none,"","" ⟩ }

theorem control_version_found_second : ∃ row,
    Yields quiet (controlVersion 2) threeVersions (.ok (some row)) threeVersions ∧ row.version = 2 :=
  (control_version_found quiet threeVersions rfl rfl (by simp [Ascending, threeVersions])
    (by simp [threeVersions]) (by decide) 2).1 ⟨4,by decide,_,rfl,rfl⟩ (by decide)

end AndaBrain.Trust
