import AndaBrain.Foundation.SpanTiling

/-!
# Text with byte offsets

A string is its list of Unicode scalar values. A byte offset counts the
UTF-8 width of the characters before it, and slicing by byte offsets is
defined exactly at character boundaries: elsewhere the slice is `none`, which
is where the indexing operator of the modelled language panics.
-/

set_option autoImplicit false

namespace Foundation.Utf8Text
open Foundation.SpanTiling

abbrev Text := List Char

def byteLen : Text → ℕ
  | [] => 0
  | c::cs => c.utf8Size+byteLen cs

def splitBytes : Text → ℕ → Option (Text × Text)
  | [], n => if n = 0 then some ([],[]) else none
  | c::cs, n => if n = 0 then some ([],c::cs)
      else if c.utf8Size ≤ n then
        (splitBytes cs (n-c.utf8Size)).map (fun ps => (c::ps.1,ps.2))
      else none

def isCharBoundary (text : Text) (pos : ℕ) : Bool := (splitBytes text pos).isSome

def slice (text : Text) (start stop : ℕ) : Option Text :=
  if start ≤ stop then do
    let rest ← splitBytes text start
    let mid ← splitBytes rest.2 (stop-start)
    some mid.1
  else none

def floorFrom (text : Text) : ℕ → ℕ
  | 0 => 0
  | n+1 => if isCharBoundary text (n+1) then n+1 else floorFrom text n

def floorCharBoundary (text : Text) (pos : ℕ) : ℕ := floorFrom text (min pos (byteLen text))

def splitInclusive (sep : Char) : Text → List Text
  | [] => []
  | c::cs =>
    if c = sep then [c]::splitInclusive sep cs
    else match splitInclusive sep cs with
      | [] => [[c]]
      | line::lines => (c::line)::lines

/-- The Unicode `White_Space` property. -/
def isWhitespace (c : Char) : Bool :=
  let n := c.toNat
  (0x9 ≤ n && n ≤ 0xd) || n == 0x20 || n == 0x85 || n == 0xa0 || n == 0x1680 ||
    (0x2000 ≤ n && n ≤ 0x200a) || n == 0x2028 || n == 0x2029 || n == 0x202f ||
    n == 0x205f || n == 0x3000

def trimEndMatches (p : Char → Bool) (text : Text) : Text :=
  (text.reverse.dropWhile p).reverse

def trimStart (text : Text) : Text := text.dropWhile isWhitespace

def trimEnd (text : Text) : Text := trimEndMatches isWhitespace text

def trim (text : Text) : Text := trimEnd (trimStart text)

theorem byte_len_append (a b : Text) : byteLen (a++b) = byteLen a+byteLen b := by
  induction a with
  | nil => simp [byteLen]
  | cons c a ih =>
    simp only [List.cons_append, byteLen, ih]
    omega

theorem byte_len_pos (a : Text) (h : a ≠ []) : 0 < byteLen a := by
  cases a with
  | nil => exact absurd rfl h
  | cons c a =>
    have := c.utf8Size_pos
    simp only [byteLen]
    omega

theorem split_bytes_append (p s : Text) : splitBytes (p++s) (byteLen p) = some (p,s) := by
  induction p with
  | nil => cases s <;> simp [splitBytes, byteLen]
  | cons c p ih =>
    have hc := c.utf8Size_pos
    have hs : c.utf8Size+byteLen p-c.utf8Size = byteLen p := by omega
    simp only [List.cons_append, splitBytes, byteLen, hs, ih]
    rw [if_neg (by omega), if_pos (by omega)]
    rfl

theorem split_bytes_sound (text p s : Text) (n : ℕ) (h : splitBytes text n = some (p,s)) :
    text = p++s ∧ byteLen p = n := by
  induction text generalizing n p s with
  | nil =>
    simp only [splitBytes] at h
    split at h
    · next hn =>
      simp only [Option.some.injEq, Prod.mk.injEq] at h
      obtain ⟨rfl,rfl⟩ := h
      exact ⟨rfl,hn.symm⟩
    · simp at h
  | cons c cs ih =>
    simp only [splitBytes] at h
    split at h
    · next hn =>
      simp only [Option.some.injEq, Prod.mk.injEq] at h
      obtain ⟨rfl,rfl⟩ := h
      exact ⟨rfl,hn.symm⟩
    split at h
    · next hc =>
      obtain ⟨⟨q,t⟩,hq,heq⟩ := Option.map_eq_some_iff.mp h
      simp only [Prod.mk.injEq] at heq
      obtain ⟨rfl,rfl⟩ := heq
      obtain ⟨hcs,hlen⟩ := ih _ _ _ hq
      refine ⟨by simp [hcs],?_⟩
      simp only [byteLen]
      omega
    · simp at h

variable (text : Text) (n : ℕ)

/-- A byte offset is a boundary exactly when some prefix has that length. -/
theorem boundary_iff : isCharBoundary text n = true ↔ ∃ p s, text = p++s ∧ byteLen p = n := by
  constructor
  · intro h
    obtain ⟨⟨p,s⟩,hs⟩ := Option.isSome_iff_exists.mp h
    exact ⟨p,s,split_bytes_sound text p s n hs⟩
  · rintro ⟨p,s,rfl,rfl⟩
    simp [isCharBoundary, split_bytes_append]

def Boundary (text : Text) (n : ℕ) : Prop := isCharBoundary text n = true

theorem boundary_zero : Boundary text 0 :=
  (boundary_iff text 0).mpr ⟨[],text,rfl,rfl⟩

theorem boundary_append (p s : Text) : Boundary (p++s) (byteLen p) :=
  (boundary_iff _ _).mpr ⟨p,s,rfl,rfl⟩

theorem slice_parts (p m s : Text) :
    slice (p++(m++s)) (byteLen p) (byteLen p+byteLen m) = some m := by
  have hsub : byteLen p+byteLen m-byteLen p = byteLen m := by omega
  simp [slice, split_bytes_append, hsub]

theorem slice_bound (text found : Text) (start stop : ℕ) (h : slice text start stop = some found) :
    start ≤ stop ∧ stop ≤ byteLen text := by
  unfold slice at h
  split at h
  · rename_i hle
    obtain ⟨⟨p,rest⟩,hp,h⟩ := Option.bind_eq_some_iff.mp h
    obtain ⟨⟨m,back⟩,hm,-⟩ := Option.bind_eq_some_iff.mp h
    obtain ⟨rfl,hplen⟩ := split_bytes_sound _ _ _ _ hp
    obtain ⟨hrest,hmlen⟩ := split_bytes_sound _ _ _ _ hm
    have hlen : byteLen rest = byteLen m+byteLen back := by
      rw [← byte_len_append, ← hrest]
    refine ⟨hle,?_⟩
    rw [byte_len_append]
    omega
  · cases h

theorem slice_cut (text found : Text) (start stop : ℕ) (h : slice text start stop = some found) :
    ∃ p s, text = p++(found++s) ∧ byteLen p = start ∧ start+byteLen found = stop := by
  have hle := (slice_bound text found start stop h).1
  simp only [slice, if_pos hle] at h
  obtain ⟨⟨p,rest⟩,hp,h⟩ := Option.bind_eq_some_iff.mp h
  obtain ⟨⟨m,s⟩,hm,heq⟩ := Option.bind_eq_some_iff.mp h
  obtain ⟨rfl,hplen⟩ := split_bytes_sound _ _ _ _ hp
  obtain ⟨hrest,hmlen⟩ := split_bytes_sound _ _ _ _ hm
  rw [Option.some.injEq] at heq
  subst heq
  have hrest' : rest = m++s := hrest
  have hmlen' : byteLen m = stop-start := hmlen
  refine ⟨p,s,by rw [hrest'],hplen,?_⟩
  simp only
  omega

theorem slice_all : slice text 0 (byteLen text) = some text := by
  simpa [byteLen] using slice_parts [] text []

/-- Two boundaries in order cut the text into three parts. -/
theorem boundaries_cut (a b : ℕ) (ha : Boundary text a) (hb : Boundary text b)
    (hab : a ≤ b) : ∃ p m s, text = p++(m++s) ∧ byteLen p = a ∧ byteLen p+byteLen m = b := by
  obtain ⟨p,t,rfl,hp⟩ := (boundary_iff _ _).mp ha
  obtain ⟨q,s,heq,hq⟩ := (boundary_iff _ _).mp hb
  rcases List.append_eq_append_iff.mp heq with ⟨m,hq',ht⟩ | ⟨m,hp',hs⟩
  · refine ⟨p,m,s,by rw [ht],hp,?_⟩
    rw [← byte_len_append, ← hq', hq]
  have hm : byteLen m = 0 := by
    rw [hp', byte_len_append] at hp
    omega
  have hnil : m = [] := by
    by_contra hne
    have := byte_len_pos m hne
    omega
  refine ⟨p,[],t,by simp,hp,?_⟩
  rw [hnil] at hp'
  simp only [List.append_nil] at hp'
  simp only [byteLen]
  rw [hp', hq]
  omega

theorem floor_from_le : floorFrom text n ≤ n := by
  induction n with
  | zero => exact le_refl _
  | succ n ih =>
    simp only [floorFrom]
    split
    · exact le_refl _
    · exact ih.trans (Nat.le_succ n)

theorem floor_from_boundary : Boundary text (floorFrom text n) := by
  induction n with
  | zero => exact boundary_zero text
  | succ n ih =>
    simp only [floorFrom]
    split
    · assumption
    · exact ih

theorem floor_le (pos : ℕ) : floorCharBoundary text pos ≤ pos :=
  (floor_from_le text _).trans (Nat.min_le_left _ _)

theorem floor_boundary (pos : ℕ) : Boundary text (floorCharBoundary text pos) :=
  floor_from_boundary text _

theorem floor_from_ge (m n : ℕ) (h : Boundary text m) (hle : m ≤ n) : m ≤ floorFrom text n := by
  induction n with
  | zero => exact hle
  | succ n ih =>
    simp only [floorFrom]
    by_cases hb : isCharBoundary text (n+1) = true
    · rwa [if_pos hb]
    rw [if_neg hb]
    apply ih
    rcases hle.lt_or_eq with hlt | rfl
    · omega
    · exact absurd h hb

/-- A character has at most four bytes, so the floor of a longer step moves on. -/
theorem floor_progress (pos step : ℕ) (h : Boundary text pos) (hstep : 4 ≤ step)
    (hlt : pos < byteLen text) : pos < floorCharBoundary text (pos+step) := by
  obtain ⟨p,s,rfl,rfl⟩ := (boundary_iff text pos).mp h
  cases s with
  | nil => simp at hlt
  | cons c s =>
    have hpos := c.utf8Size_pos
    have hsize := c.utf8Size_le_four
    have hlen : byteLen (p++[c]) = byteLen p+c.utf8Size := by
      simp [byte_len_append, byteLen]
    have hb : Boundary (p++c::s) (byteLen p+c.utf8Size) := by
      have := boundary_append (p++[c]) s
      rwa [hlen, List.append_assoc, List.singleton_append] at this
    have hmin : byteLen p+c.utf8Size ≤ min (byteLen p+step) (byteLen (p++c::s)) := by
      simp only [byte_len_append, byteLen]
      omega
    have := floor_from_ge _ _ _ hb hmin
    rw [floorCharBoundary]
    omega

theorem split_inclusive_flatten (sep : Char) (text : Text) :
    (splitInclusive sep text).flatten = text := by
  induction text with
  | nil => rfl
  | cons c cs ih =>
    simp only [splitInclusive]
    split
    · simp [ih]
    split
    · next h =>
      rw [h] at ih
      simp [← ih]
    · next line lines h =>
      rw [h] at ih
      simp [← ih]

theorem split_inclusive_ne_nil (sep : Char) (text : Text) :
    ∀ line ∈ splitInclusive sep text, line ≠ [] := by
  induction text with
  | nil => simp [splitInclusive]
  | cons c cs ih =>
    simp only [splitInclusive]
    split
    · simpa using ih
    split
    · simp
    next line lines h =>
    rw [h] at ih
    intro l hl
    rcases List.mem_cons.mp hl with rfl | hl
    · simp
    · exact ih l (List.mem_cons_of_mem _ hl)

/-- A tiling of a suffix by boundaries cuts it into pieces that concatenate
to that suffix, and every piece is the slice the indexing operator returns. -/
theorem tiles_concat (p rest : Text) (spans : List Span)
    (h : Tiles (Boundary (p++rest)) (byteLen p) spans (byteLen (p++rest))) :
    ∃ pieces, spans.mapM (fun s => slice (p++rest) s.1 s.2) = some pieces ∧
      pieces.flatten = rest := by
  induction spans generalizing p rest with
  | nil =>
    have hlen : byteLen rest = 0 := by
      have heq : byteLen p = byteLen (p++rest) := h
      rw [byte_len_append] at heq
      omega
    have hnil : rest = [] := by
      by_contra hne
      have := byte_len_pos rest hne
      omega
    exact ⟨[],rfl,by simp [hnil]⟩
  | cons s spans ih =>
    obtain ⟨hs,hlt,hb,ht⟩ := h
    obtain ⟨p',m,t,heq,hp,hm⟩ := boundaries_cut _ _ _ (boundary_append p rest) hb (le_of_lt hlt)
    obtain ⟨rfl,rfl⟩ : p' = p ∧ m++t = rest := by
      have h1 := split_bytes_append p rest
      rw [heq, ← hp, split_bytes_append] at h1
      simpa using h1
    have hpm : p'++(m++t) = (p'++m)++t := by simp
    have hlen : byteLen (p'++m) = s.2 := by rw [byte_len_append, hm]
    rw [hpm, ← hlen] at ht
    obtain ⟨pieces,hmap,hflat⟩ := ih (p'++m) t ht
    refine ⟨m::pieces,?_,by simp [hflat]⟩
    have hslice : slice (p'++(m++t)) s.1 s.2 = some m := by
      rw [hs, ← hm]
      exact slice_parts p' m t
    rw [← hpm] at hmap
    simp [List.mapM_cons, hslice, hmap]

end Foundation.Utf8Text
