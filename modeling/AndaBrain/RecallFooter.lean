import Mathlib.Data.List.DropRight
import AndaBrain.Foundation.Utf8Text

/-!
# The footer of a recall

`split_recall_meta` of `assess.rs` takes the block between the last closing tag and the nearest
opening tag before it off an answer. What follows the block may mention the tags as well.
-/

set_option autoImplicit false

namespace AndaBrain.RecallFooter
open Foundation.Utf8Text

def openTag : Text := "<memory_meta>".toList

def closeTag : Text := "</memory_meta>".toList

structure RecallMeta (υ : Type) where
  found : Option Bool
  uncertainty : Option υ

/-- The JSON reader of a self-report, and what is asked of its floats. -/
structure Reader (υ : Type) where
  fromStr : Text → Option (RecallMeta υ)
  isFinite : υ → Bool
  clamp : υ → υ

/-- `rfind`: what stands before and after the last occurrence of a tag. -/
def rsplitOnce (tag : Text) : Text → Option (Text × Text)
  | [] => none
  | c::rest =>
    match rsplitOnce tag rest with
    | some (before,after) => some (c::before,after)
    | none => if tag.isPrefixOf (c::rest) then some ([],(c::rest).drop tag.length) else none

section Split
variable {υ : Type} (reader : Reader υ)

def parseJsonPayload (text : Text) : Option (RecallMeta υ) := do
  let start ← text.idxOf? '\x7b'
  let behind ← text.reverse.idxOf? '\x7d'
  let stop := text.length-1-behind
  if stop < start then none else reader.fromStr ((text.take (stop+1)).drop start)

def footerMeta (payload : Text) : Option (RecallMeta υ) :=
  (parseJsonPayload reader payload).map fun found =>
    { found with uncertainty := (found.uncertainty.filter reader.isFinite).map reader.clamp }

def joinAnswer (before after : Text) : Text :=
  match before.isEmpty,after.isEmpty with
  | false,false => before++ '\n'::after
  | false,true => before
  | true,_ => after

def splitRecallMeta (content : Text) : Text × Option (RecallMeta υ) :=
  match rsplitOnce closeTag content with
  | none => (trimEnd content,none)
  | some (head,after) =>
    match rsplitOnce openTag head with
    | none => (trimEnd content,none)
    | some (before,payload) => (joinAnswer (trim before) (trim after),footerMeta reader payload)

end Split

section Tags
variable {tag body : Text}

theorem rsplit_none {text : Text} (h : ¬tag <:+: text) : rsplitOnce tag text = none := by
  induction text with
  | nil => rfl
  | cons c rest ih =>
    rw [List.infix_cons_iff, not_or] at h
    rw [rsplitOnce, ih h.2]
    simp [h.1]

theorem rsplit_append {text before after : Text} (front : Text)
    (h : rsplitOnce tag text = some (before,after)) :
    rsplitOnce tag (front++text) = some (front++before,after) := by
  induction front with
  | nil => exact h
  | cons c front ih =>
    rw [List.cons_append, rsplitOnce, ih]
    rfl

theorem rsplit_some {text : Text} (hne : tag ≠ []) (h : tag <:+: text) :
    ∃ before after, rsplitOnce tag text = some (before,after) := by
  induction text with
  | nil => exact absurd (List.infix_nil.mp h) hne
  | cons c rest ih =>
    rw [rsplitOnce]
    cases hrest : rsplitOnce tag rest with
    | some found => exact ⟨_,_,rfl⟩
    | none =>
      rcases List.infix_cons_iff.mp h with hpre | hin
      · exact ⟨_,_,if_pos (List.isPrefixOf_iff_prefix.mpr hpre)⟩
      · obtain ⟨_,_,hsome⟩ := ih hin
        rw [hsome] at hrest
        cases hrest

theorem rsplit_sound {text before after : Text} (hne : tag ≠ [])
    (h : rsplitOnce tag text = some (before,after)) :
    text = before++(tag++after) ∧ ¬tag <:+: after := by
  induction text generalizing before with
  | nil => cases h
  | cons c rest ih =>
    rw [rsplitOnce] at h
    cases hrest : rsplitOnce tag rest with
    | some found =>
      rw [hrest] at h
      cases h
      obtain ⟨hsplit,hlast⟩ := ih hrest
      exact ⟨by rw [List.cons_append, ← hsplit],hlast⟩
    | none =>
      simp only [hrest] at h
      split at h
      · rename_i hpre
        obtain ⟨tail,htail⟩ := List.isPrefixOf_iff_prefix.mp hpre
        cases h
        rw [← htail, List.drop_left, List.nil_append]
        refine ⟨rfl,fun hin => ?_⟩
        obtain ⟨d,body,rfl⟩ := List.exists_cons_of_ne_nil hne
        have hrest' : body++tail = rest := List.tail_eq_of_cons_eq htail
        obtain ⟨_,_,hsome⟩ := rsplit_some hne (hrest' ▸ hin.trans (List.suffix_append body tail).isInfix)
        rw [hsome] at hrest
        cases hrest
      · cases h

/-- No tag begins inside of one. -/
theorem infix_body (front rest : Text) (hfront : '<' ∉ front) (h : '<'::body <:+: front++rest) :
    '<'::body <:+: rest := by
  induction front with
  | nil => exact h
  | cons c front ih =>
    rw [List.mem_cons, not_or] at hfront
    rcases List.infix_cons_iff.mp h with hpre | hin
    · exact absurd (List.cons_prefix_cons.mp hpre).1 hfront.1
    · exact ih hfront.2 hin

theorem infix_split (front rest : Text) (hbody : '<' ∉ body) (h : '<'::body <:+: front++ '<'::rest) :
    '<'::body <:+: front ∨ '<'::body <:+: '<'::rest := by
  induction front with
  | nil => exact Or.inr h
  | cons c front ih =>
    rcases List.infix_cons_iff.mp h with hpre | hin
    · left
      rcases List.prefix_or_prefix_of_prefix hpre (List.prefix_append (c::front) ('<'::rest)) with
        hin | ⟨more,hmore⟩
      · exact hin.isInfix
      rw [← hmore] at hpre ⊢
      replace hpre := (List.prefix_append_right_inj (c::front)).mp hpre
      cases more with
      | nil => exact ⟨[],[],by simp⟩
      | cons d more =>
        obtain ⟨rfl,-⟩ := List.cons_prefix_cons.mp hpre
        injection hmore with _ htail
        exact absurd (by rw [← htail]; simp) hbody
    · exact (ih hin).imp_left fun hin => List.infix_cons hin

theorem rsplit_last (front rest : Text) (hbody : '<' ∉ body) (h : ¬ '<'::body <:+: rest) :
    rsplitOnce ('<'::body) (front++('<'::body++rest)) = some (front,rest) := by
  have hhere : rsplitOnce ('<'::body) ('<'::body++rest) = some ([],rest) := by
    rw [List.cons_append, rsplitOnce, rsplit_none fun hin => h (infix_body body rest hbody hin)]
    simp
  simpa using rsplit_append front hhere

end Tags

section Answer
variable {υ : Type} (reader : Reader υ)

def solid (text : Text) : Text := text.filter (!isWhitespace ·)

theorem solid_drop (text : Text) : solid (text.dropWhile isWhitespace) = solid text := by
  induction text with
  | nil => rfl
  | cons c rest ih => by_cases hc : isWhitespace c = true <;> simp_all [solid]

theorem solid_trim (text : Text) : solid (trim text) = solid text := by
  have hend : ∀ t : Text, solid (trimEnd t) = solid t := by
    intro t
    have hreverse := solid_drop t.reverse
    rw [solid, solid, List.filter_reverse] at hreverse
    rw [solid, trimEnd, trimEndMatches, List.filter_reverse, hreverse, List.reverse_reverse]
    rfl
  rw [trim, hend]
  exact solid_drop text

theorem solid_join (before after : Text) :
    solid (joinAnswer before after) = solid before++solid after := by
  have hline : isWhitespace '\n' = true := by decide
  cases before <;> cases after <;> simp [joinAnswer, solid, List.filter_cons, hline]
  split <;> simp

def Keeps (a p b : Text) : Prop :=
  (solid (a++b)).Sublist (splitRecallMeta reader (a++openTag++p++closeTag++b)).1 ∧
  (splitRecallMeta reader (a++openTag++p++closeTag++b)).2 = footerMeta reader p

theorem open_eq : openTag = '<'::"memory_meta>".toList := by decide

theorem close_eq : closeTag = '<'::"/memory_meta>".toList := by decide

theorem open_clear (p b : Text) (hp : ¬openTag <:+: p) (hb : ¬openTag <:+: b) :
    ¬openTag <:+: p++(closeTag++b) := by
  rw [open_eq] at hp hb ⊢
  rw [close_eq]
  intro h
  rcases infix_split p ("/memory_meta>".toList++b) (by decide) h with h | h
  · exact hp h
  rcases List.infix_cons_iff.mp h with hpre | h
  · exact absurd (List.cons_prefix_cons.mp (List.cons_prefix_cons.mp hpre).2).1 (by decide)
  · exact hb (infix_body _ b (by decide) h)

theorem split_last (a p b : Text) (hp : ¬openTag <:+: p) (hb : ¬closeTag <:+: b) :
    splitRecallMeta reader (a++openTag++p++closeTag++b) =
      (joinAnswer (trim a) (trim b),footerMeta reader p) := by
  rw [close_eq] at hb
  rw [open_eq] at hp
  have hclose := rsplit_last (a++openTag++p) b (by decide) hb
  have hopen := rsplit_last a p (by decide) hp
  rw [← close_eq, ← List.append_assoc] at hclose
  rw [← open_eq, ← List.append_assoc] at hopen
  simp only [splitRecallMeta, hclose, hopen]

/-- What follows a block up to a closing tag that it mentions is lost with the block. -/
theorem split_loses (a p b : Text) (hp : ¬openTag <:+: p)
    (hb : ∀ x y z, b ≠ x++openTag++y++closeTag++z) (hin : closeTag <:+: b) : ¬Keeps reader a p b := by
  intro hkeeps
  have hne : closeTag ≠ [] := by
    rw [close_eq]
    exact List.cons_ne_nil _ _
  obtain ⟨front,rest,hsplit⟩ := rsplit_some hne hin
  obtain ⟨rfl,hlast⟩ := rsplit_sound hne hsplit
  have hfront : ¬openTag <:+: front := by
    rintro ⟨x,y,rfl⟩
    exact hb x y rest (by simp)
  have hcut := split_last reader a (p++(closeTag++front)) rest (open_clear p front hp hfront) hlast
  have hsub := hkeeps.1.filter (!isWhitespace ·)
  rw [show a++openTag++p++closeTag++(front++(closeTag++rest)) =
    a++openTag++(p++(closeTag++front))++closeTag++rest by simp, hcut] at hsub
  have hlen := hsub.length_le
  change (solid (solid _)).length ≤ (solid _).length at hlen
  rw [solid_join, solid_trim, solid_trim] at hlen
  have htag : (solid closeTag).length = 14 := by decide
  simp only [solid, List.filter_filter, Bool.and_self, List.filter_append, List.length_append] at hlen htag
  omega

/-- The footer of a recall. When the text after a block opens no further one, the answer
keeps every character around the block, and the report is the block's, if and only if that
text does not mention the closing tag. -/
theorem split_keeps_iff (a p b : Text) (hp : ¬openTag <:+: p)
    (hb : ∀ x y z, b ≠ x++openTag++y++closeTag++z) : Keeps reader a p b ↔ ¬closeTag <:+: b := by
  refine ⟨fun hkeeps hin => split_loses reader a p b hp hb hin hkeeps,fun hin => ?_⟩
  rw [Keeps, split_last reader a p b hp hin]
  refine ⟨?_,rfl⟩
  have hanswer := solid_join (trim a) (trim b)
  rw [solid_trim, solid_trim] at hanswer
  rw [solid, List.filter_append]
  exact hanswer ▸ List.filter_sublist

end Answer

def unitReader : Reader Unit := ⟨fun _ => some ⟨none,none⟩,fun _ => true,id⟩

theorem no_tag {text : Text} (h : '<' ∉ text) : ¬openTag <:+: text ∧ ¬closeTag <:+: text := by
  rw [open_eq, close_eq]
  exact ⟨fun hin => h (hin.subset (by simp)),fun hin => h (hin.subset (by simp))⟩

/-- An answer that mentions the tags on both sides of its block. -/
theorem split_keeps_iff_tail : Keeps unitReader "No </memory_meta>, see <memory_meta>".toList
    "{}".toList "\nor <memory_meta> again".toList := by
  have htail : ¬closeTag <:+: "\nor <memory_meta> again".toList := by decide +kernel
  refine (split_keeps_iff unitReader _ _ _ (no_tag (by decide)).1 ?_).mpr htail
  intro x y z h
  exact htail ⟨x++openTag++y,z,h.symm⟩

theorem split_loses_text : ¬∀ a p b : Text, ¬openTag <:+: p → ¬closeTag <:+: p →
    (∀ x y z, a ≠ x++openTag++y++closeTag++z) → (∀ x y z, b ≠ x++openTag++y++closeTag++z) →
    Keeps unitReader a p b := by
  intro h
  have hp := no_tag (by decide : '<' ∉ "{}".toList)
  have hclear := open_clear "The ".toList " tag".toList (no_tag (by decide)).1 (no_tag (by decide)).1
  have hb : ∀ x y z, "The ".toList++(closeTag++" tag".toList) ≠ x++openTag++y++closeTag++z :=
    fun x y z heq => hclear ⟨x,y++closeTag++z,by rw [heq]; simp⟩
  exact split_loses unitReader [] _ _ hp.1 hb ⟨"The ".toList," tag".toList,by simp⟩
    (h [] _ _ hp.1 hp.2 (fun x y z heq => by simp [open_eq] at heq) hb)

end AndaBrain.RecallFooter
