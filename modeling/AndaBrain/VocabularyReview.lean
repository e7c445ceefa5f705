import AndaBrain.Vocabulary

/-!
# Reviews of draft symbols across broken and repeated calls

No path of either deployment queues a review for a name that already resolves. A draft keeps
its review over any run whose calls commit the review with the definition, and one broken
call leaves a draft that every later call answers as done.
-/

set_option autoImplicit false

namespace AndaBrain.Vocabulary
open Kip

/-- A `review_schema` task of exactly this symbol. -/
def Reviews (element : Element) (kind : DefineKind) (reference : String) : Prop :=
  element.clientKey = reviewKey kind reference ∧
    ∃ task, element.task = some task ∧ task.symbolKind = kindLabel kind ∧
      task.symbolRef = reference

def Reviewed (e : Engine) (s : Space) (kind : DefineKind) (name : String) : Prop :=
  ∃ element ∈ s.elements, Reviews element kind (e.refOf kind name)

def Clear (e : Engine) (element : Element) : Prop :=
  ∀ kind name, element.clientKey = reviewKey kind (e.refOf kind name) →
    Reviews element kind (e.refOf kind name)

structure Sound (e : Engine) (s : Space) : Prop where
  reviewed : ∀ kind name, ⟨kind,name,.draft⟩ ∈ s.symbols → Reviewed e s kind name
  clear : ∀ element ∈ s.elements, Clear e element

/-- What a run of calls has to answer: the cap, and a review for every draft a successful
call names. -/
def Meets (d : Deployment) (e : Engine) : Space → List Turn → Prop
  | _, [] => True
  | s, t::ts =>
    owned (turn d e s t).1.symbols ≤ maxSymbols ∧
      ((turn d e s t).2 = .success → ∀ symbol ∈ t.call.symbols,
        ⟨symbol.1,symbol.2,.draft⟩ ∈ (turn d e s t).1.symbols →
          Reviewed e (turn d e s t).1 symbol.1 symbol.2) ∧
      Meets d e (turn d e s t).1 ts

/-! ## One engine call -/

@[simp] theorem issue_space (fate : Fate) (s : Space) (c : Space × Reply) :
    (issue fate s c).1 = if fate.commits then c.1 else s := by
  cases fate <;> rfl

theorem issue_done (s : Space) (c : Space × Reply) : issue .done s c = c := rfl

theorem issue_stopped {fate : Fate} {s : Space} {c : Space × Reply} (hc : c.2 ≠ .stopped) :
    (issue fate s c).2 = .stopped ↔ fate.stops = true := by
  cases fate <;> simp [issue,Fate.stops,hc]

variable {e : Engine} {s : Space} {kind : DefineKind} {name : String}

theorem has_iff : s.has kind name = true ↔ ∃ origin, ⟨kind,name,origin⟩ ∈ s.symbols := by
  simp only [Space.has,List.any_eq_true,Bool.and_eq_true,beq_iff_eq]
  constructor
  · rintro ⟨⟨_,_,origin⟩,hx,rfl,rfl⟩
    exact ⟨origin,hx⟩
  · rintro ⟨origin,hx⟩
    exact ⟨_,hx,rfl,rfl⟩

theorem not_has : s.has kind name = false ↔ ∀ origin, ⟨kind,name,origin⟩ ∉ s.symbols := by
  rw [← Bool.not_eq_true,has_iff,not_exists]

theorem defined_known (h : s.has kind name = true) : defined e s kind name = (s,.conflict) := by
  simp [defined,h]

theorem defined_fresh (h : s.has kind name = false) : (defined e s kind name).1.symbols =
    s.symbols++[Symbol.mk kind name .draft] ∧ (defined e s kind name).1.elements = s.elements ∧
    (defined e s kind name).2 = .ref (e.refOf kind name) := by
  simp [defined,h]

theorem defined_running : (defined e s kind name).2 ≠ .stopped := by
  cases h : s.has kind name <;> simp [defined,h]

theorem owned_fresh (symbols : List Symbol) (kind : DefineKind) (name : String) :
    owned (symbols++[⟨kind,name,.draft⟩]) = owned symbols+1 := by
  simp [owned,List.countP_append]

@[simp] theorem created_symbols (s : Space) (element : Element) :
    (created s element).1.symbols = s.symbols := by
  unfold created
  split <;> rfl

@[simp] theorem created_reply (s : Space) (element : Element) : (created s element).2 = .done := by
  unfold created
  split <;> rfl

theorem created_elements {element x : Element} :
    x ∈ (created s element).1.elements → x ∈ s.elements ∨ x = element := by
  unfold created
  split <;> simp +contextual

theorem created_keeps {element x : Element} (hx : x ∈ s.elements) :
    x ∈ (created s element).1.elements := by
  unfold created
  split <;> simp [hx]

theorem review_reviews (kind : DefineKind) (reference description : String) :
    Reviews (reviewElement kind reference description) kind reference :=
  ⟨rfl,_,rfl,rfl,rfl⟩

theorem created_reviewed {name description : String}
    (clear : ∀ element ∈ s.elements, Clear e element) :
    Reviewed e (created s (reviewElement kind (e.refOf kind name) description)).1 kind name := by
  unfold created
  by_cases h : s.elements.any
      (·.clientKey == (reviewElement kind (e.refOf kind name) description).clientKey) = true
  · rw [if_pos h]
    simp only [List.any_eq_true,beq_iff_eq] at h
    obtain ⟨x,hx,hk⟩ := h
    exact ⟨x,hx,clear x hx kind name hk⟩
  · rw [if_neg h]
    exact ⟨_,by simp,review_reviews kind _ description⟩

theorem reviewKey_inj {kind kind' : DefineKind} {r r' : String}
    (h : reviewKey kind r = reviewKey kind' r') : kind = kind' ∧ r = r' := by
  have hl : ("review_schema:".toList++(kindLabel kind).toList++":".toList)++r.toList =
      ("review_schema:".toList++(kindLabel kind').toList++":".toList)++r'.toList := by
    simpa [reviewKey,String.toList_append] using congrArg String.toList h
  cases kind <;> cases kind' <;> simp [kindLabel] at hl
  · exact ⟨rfl,String.toList_inj.mp hl⟩
  · exact ⟨rfl,String.toList_inj.mp hl⟩

theorem review_clear (e : Engine) (kind : DefineKind) (reference description : String) :
    Clear e (reviewElement kind reference description) := by
  intro kind' name hk
  obtain ⟨rfl,rfl⟩ := reviewKey_inj (show reviewKey kind reference = _ from hk)
  exact review_reviews kind _ description

/-! ## A definition with its review -/

theorem sound_created {element : Element} (h : Sound e s)
    (hc : Clear e element) : Sound e (created s element).1 := by
  constructor
  · intro kind name hm
    rw [created_symbols] at hm
    obtain ⟨x,hx,hr⟩ := h.reviewed kind name hm
    exact ⟨x,created_keeps hx,hr⟩
  · intro x hx
    rcases created_elements hx with hx | rfl
    · exact h.clear x hx
    · exact hc

def Followed (define review : Fate) : Prop :=
  define.commits = true → define = .done ∧ review.commits = true

/-- What a DEFINE whose review follows can do: nothing, or the symbol and then the task. -/
theorem define_cases (kind : DefineKind) (name : String)
    {fate review : Fate} (h : Sound e s)
    (hf : s.has kind name = false → Followed fate review) :
    (issue fate s (defined e s kind name)).1 = s ∧
        (s.has kind name = false → fate.commits = false) ∧
        (∀ r, (issue fate s (defined e s kind name)).2 ≠ .ref r) ∨
      (issue fate s (defined e s kind name)).2 = .ref (e.refOf kind name) ∧
        (issue fate s (defined e s kind name)).1.symbols =
          s.symbols++[Symbol.mk kind name .draft] ∧
        ∀ description, Sound e (queueSchemaReview (issue fate s (defined e s kind name)).1 review
          kind (e.refOf kind name) description).1 := by
  cases hk : s.has kind name with
  | true =>
    left
    rw [defined_known hk]
    cases fate <;> simp [issue]
  | false =>
    cases hc : fate.commits with
    | false =>
      left
      refine ⟨by simp [hc],fun _ => rfl,?_⟩
      cases fate <;> simp [Fate.commits,issue] at hc ⊢
    | true =>
      right
      obtain ⟨rfl,hr⟩ := hf hk hc
      obtain ⟨hs,he,ha⟩ := defined_fresh (e := e) hk
      rw [issue_done]
      refine ⟨ha,hs,fun description => ?_⟩
      simp only [queueSchemaReview,issue_space,hr,if_true]
      have clear : ∀ x ∈ (defined e s kind name).1.elements, Clear e x := by
        rw [he]
        exact h.clear
      constructor
      · intro kind' name' hm
        rw [created_symbols,hs] at hm
        rcases List.mem_append.mp hm with hm | hm
        · obtain ⟨x,hx,hrv⟩ := h.reviewed kind' name' hm
          exact ⟨x,created_keeps (he ▸ hx),hrv⟩
        · simp only [List.mem_singleton,Symbol.mk.injEq,and_true] at hm
          obtain ⟨rfl,rfl⟩ := hm
          exact created_reviewed clear
      · intro x hx
        rcases created_elements hx with hx | rfl
        · exact clear x hx
        · exact review_clear e kind _ description

@[simp] theorem queue_symbols (s : Space) (fate : Fate) (kind : DefineKind)
    (reference description : String) :
    (queueSchemaReview s fate kind reference description).1.symbols = s.symbols := by
  simp only [queueSchemaReview,issue_space]
  split <;> simp

/-! ## Names declared bare -/

section Names
variable {e : Engine} {isSymbolName : DefineKind → String → Bool}
  (hostDescription : DefineKind → String → String) {vocabulary : List Symbol}
  {fate : Step → Fate}

structure Kept (e : Engine) (d : Draft) : Prop where
  sound : Sound e d.space
  sized : owned d.space.symbols ≤ d.size
  capped : owned d.space.symbols ≤ maxSymbols

theorem draftName_kept {d : Draft} {kind : DefineKind} {name : String} (h : Kept e d)
    (hf : (vocabulary.any fun x => x.kind == kind && x.name == name) = false →
      isSymbolName kind name = true → Followed (fate (.define kind name))
        (fate (.reviewOf kind name))) :
    Kept e (draftName e isSymbolName hostDescription vocabulary fate d (kind,name)).1 := by
  unfold draftName
  simp only
  split_ifs with hseen hknown hroom
  · exact h
  · exact ⟨h.sound,h.sized,h.capped⟩
  · exact ⟨h.sound,h.sized,h.capped⟩
  simp only [Bool.or_eq_true,Bool.not_eq_true',decide_eq_true_eq,not_or,
    Bool.not_eq_false,Nat.not_le] at hroom
  have hcase := define_cases kind name h.sound (fun _ => hf (by simpa using hknown) hroom.1)
  generalize hd : issue (fate (.define kind name)) d.space
    (defined e d.space kind name) = reply at hcase
  obtain ⟨s,answer⟩ := reply
  rcases hcase with ⟨rfl,-,hr⟩ | ⟨ha,ho,hsound⟩
  · cases answer with
    | ref r => exact absurd rfl (hr r)
    | conflict => exact ⟨h.sound,h.sized,h.capped⟩
    | done => exact ⟨h.sound,h.sized,h.capped⟩
    | failed => exact ⟨h.sound,h.sized,h.capped⟩
    | stopped => exact ⟨h.sound,h.sized,h.capped⟩
  simp only at ha ho hsound
  subst ha
  have hq := queue_symbols s (fate (.reviewOf kind name)) kind (e.refOf kind name)
    (hostDescription kind name)
  have hs := hsound (hostDescription kind name)
  simp only
  generalize queueSchemaReview s (fate (.reviewOf kind name)) kind (e.refOf kind name)
    (hostDescription kind name) = queued at hq hs ⊢
  obtain ⟨t,answer⟩ := queued
  have hsize : owned t.symbols ≤ d.size+1 := by
    simp only at hq
    rw [hq,ho,owned_fresh]
    exact Nat.succ_le_succ h.sized
  have hcap : owned t.symbols ≤ maxSymbols := by
    simp only at hq
    rw [hq,ho,owned_fresh]
    have := h.sized
    omega
  cases answer with
  | ref r => exact ⟨hs,hsize,hcap⟩
  | conflict => exact ⟨hs,hsize,hcap⟩
  | done => exact ⟨hs,hsize,hcap⟩
  | failed => exact ⟨hs,hsize,hcap⟩
  | stopped => exact ⟨hs,hsize,hcap⟩

theorem draftLoop_kept {symbols : List (DefineKind × String)} {d : Draft} (h : Kept e d)
    (hf : ∀ symbol ∈ symbols,
      (vocabulary.any fun x => x.kind == symbol.1 && x.name == symbol.2) = false →
        isSymbolName symbol.1 symbol.2 = true →
          Followed (fate (.define symbol.1 symbol.2)) (fate (.reviewOf symbol.1 symbol.2))) :
    Kept e (draftLoop e isSymbolName hostDescription vocabulary fate d symbols).1 := by
  induction symbols generalizing d with
  | nil => exact h
  | cons symbol rest ih =>
    obtain ⟨kind,name⟩ := symbol
    have hstep : Kept e (draftName e isSymbolName hostDescription vocabulary fate d
        (kind,name)).1 := draftName_kept hostDescription h (hf (kind,name) List.mem_cons_self)
    unfold draftLoop
    split
    · rename_i d' ending hd
      rw [hd] at hstep
      exact hstep
    · rename_i d' hd
      rw [hd] at hstep
      exact ih hstep fun x hx => hf x (List.mem_cons_of_mem _ hx)

end Names

/-! ## The DEFINEs of a plan -/

def Fresh (fate : Step → Fate) (s : Space) (operations : List (Operation × ℕ))
    (position : ℕ) (kind : DefineKind) (name : String) : Prop :=
  s.has kind name = false ∧ (fate (.operation position)).commits = true ∧
    (∃ description, (.define kind name description,position) ∈ operations) ∧
    ∀ earlier description, (.define kind name description,earlier) ∈ operations →
      earlier < position → (fate (.operation earlier)).commits = false

def Reviewing (fate : Step → Fate) (s : Space) (operations : List (Operation × ℕ)) : Prop :=
  ∀ position kind name, Fresh fate s operations position kind name →
    fate (.operation position) = .done ∧ (fate (.reviewAt position)).commits = true

def Uninterrupted (fate : Step → Fate) (s : Space) (operations : List (Operation × ℕ)) : Prop :=
  ∀ position kind name, Fresh fate s operations position kind name →
    (∀ operation later, (operation,later) ∈ operations → position < later →
      (fate (.operation later)).stops = false) ∧
    ∀ earlier kind' name', Fresh fate s operations earlier kind' name' → earlier < position →
      (fate (.reviewAt earlier)).stops = false

def InOrder (operations : List (Operation × ℕ)) : Prop :=
  operations.Pairwise fun x y => x.2 < y.2

section Plans
variable {e : Engine} {fate : Step → Fate} {s : Space}

theorem has_append {symbols : List Symbol} {t : Space} {kind kind' : DefineKind}
    {name name' : String} (h : t.symbols = symbols++[Symbol.mk kind name .draft]) :
    t.has kind' name' = (symbols.any (fun x => x.kind == kind' && x.name == name') ||
      kind == kind' && name == name') := by
  simp [Space.has,h,List.any_append]

theorem fresh_of_rest {t : Space} {x : Operation × ℕ} {rest : List (Operation × ℕ)}
    {position : ℕ} {kind : DefineKind} {name : String}
    (hkeep : t.has kind name = false → s.has kind name = false)
    (hhead : ∀ description, x.1 = .define kind name description → t.has kind name = false →
      (fate (.operation x.2)).commits = false)
    (h : Fresh fate t rest position kind name) : Fresh fate s (x::rest) position kind name := by
  obtain ⟨hn,hc,⟨description,hm⟩,hfirst⟩ := h
  refine ⟨hkeep hn,hc,⟨description,List.mem_cons_of_mem _ hm⟩,?_⟩
  intro earlier description' hm' hlt
  rcases List.mem_cons.mp hm' with rfl | hm'
  · exact hhead description' rfl hn
  · exact hfirst earlier description' hm' hlt

theorem fresh_head {rest : List (Operation × ℕ)} {position : ℕ} {kind : DefineKind}
    {name description : String} (ho : InOrder ((.define kind name description,position)::rest))
    (hn : s.has kind name = false) (hc : (fate (.operation position)).commits = true) :
    Fresh fate s ((.define kind name description,position)::rest) position kind name := by
  refine ⟨hn,hc,⟨description,List.mem_cons_self⟩,?_⟩
  intro earlier description' hm hlt
  rcases List.mem_cons.mp hm with hx | hm
  · simp only [Prod.mk.injEq] at hx
    omega
  · have := (List.pairwise_cons.mp ho).1 _ hm
    simp only at this
    omega

namespace Worker

theorem executeDefines_sound {operations : List (Operation × ℕ)} (ho : InOrder operations)
    (h : Sound e s) (hr : Reviewing fate s operations) : Sound e
    (executeDefines e fate s operations).1 ∧ owned (executeDefines e fate s operations).1.symbols ≤
    owned s.symbols+operations.length := by
  induction operations generalizing s with
  | nil => exact ⟨h,le_rfl⟩
  | cons x rest ih =>
    have horest := (List.pairwise_cons.mp ho).2
    obtain ⟨operation,position⟩ := x
    match operation with
    | .create element =>
      have hrest : Reviewing fate s rest := fun p kind name hp =>
        hr p kind name (fresh_of_rest id (by simp) hp)
      obtain ⟨hs,hw⟩ := ih horest h hrest
      exact ⟨hs,hw.trans (by simp)⟩
    | .other =>
      have hrest : Reviewing fate s rest := fun p kind name hp =>
        hr p kind name (fresh_of_rest id (by simp) hp)
      obtain ⟨hs,hw⟩ := ih horest h hrest
      exact ⟨hs,hw.trans (by simp)⟩
    | .define kind name description =>
      have hcase := define_cases kind name h fun hn hc => hr position kind name
        (fresh_head ho hn hc) |>.imp_right id
      unfold executeDefines
      generalize hd : issue (fate (.operation position)) s (defined e s kind name) = reply
        at hcase ⊢
      obtain ⟨t,answer⟩ := reply
      rcases hcase with ⟨rfl,hlost,hnr⟩ | ⟨ha,hsym,hsound⟩
      · simp only at hlost hnr
        have hrest : Reviewing fate t rest := fun p kind' name' hp =>
          hr p kind' name' (fresh_of_rest id (by
            rintro description' hx hn
            simp only [Operation.define.injEq] at hx
            obtain ⟨rfl,rfl,-⟩ := hx
            exact hlost hn) hp)
        cases answer with
        | ref r => exact absurd rfl (hnr r)
        | conflict =>
          obtain ⟨hs,hw⟩ := ih horest h hrest
          exact ⟨hs,hw.trans (by simp)⟩
        | done => exact ⟨h,by simp⟩
        | failed => exact ⟨h,by simp⟩
        | stopped => exact ⟨h,by simp⟩
      simp only at ha hsym hsound
      subst ha
      have hq := queue_symbols t (fate (.reviewAt position)) kind (e.refOf kind name) description
      have hs := hsound description
      simp only
      generalize queueSchemaReview t (fate (.reviewAt position)) kind (e.refOf kind name)
        description = queued at hq hs ⊢
      obtain ⟨u,answer⟩ := queued
      simp only at hq hs
      rw [hsym] at hq
      have hw : owned u.symbols = owned s.symbols+1 := by rw [hq,owned_fresh]
      have hrest : Reviewing fate u rest := fun p kind' name' hp =>
        hr p kind' name' (fresh_of_rest (by
          intro hn
          rw [has_append hq,Bool.or_eq_false_iff] at hn
          exact hn.1) (by
          rintro description' hx hn
          simp only [Operation.define.injEq] at hx
          obtain ⟨rfl,rfl,-⟩ := hx
          simp [has_append hq] at hn) hp)
      cases answer with
      | done =>
        obtain ⟨hs',hw'⟩ := ih horest hs hrest
        refine ⟨hs',hw'.trans ?_⟩
        simp only [List.length_cons,hw]
        omega
      | ref r => exact ⟨hs,by simp [hw]⟩
      | conflict => exact ⟨hs,by simp [hw]⟩
      | failed => exact ⟨hs,by simp [hw]⟩
      | stopped => exact ⟨hs,by simp [hw]⟩

theorem executeWrites_sound (fate : Step → Fate) (operations : List (Operation × ℕ))
    (hd : ∀ x ∈ operations, x.1.isDefine = false)
    (hclear : ∀ element position, (.create element,position) ∈ operations → Clear e element)
    (h : Sound e s) : Sound e (executeWrites e fate s operations).1 ∧
    (executeWrites e fate s operations).1.symbols = s.symbols := by
  induction operations generalizing s with
  | nil => exact ⟨h,rfl⟩
  | cons x rest ih =>
    obtain ⟨operation,position⟩ := x
    have hstep : Sound e (issue (fate (.operation position)) s (perform e s operation)).1 ∧
        (issue (fate (.operation position)) s (perform e s operation)).1.symbols = s.symbols := by
      rw [issue_space]
      split
      · match operation with
        | .define kind name description => simpa [Operation.isDefine] using hd _ List.mem_cons_self
        | .create element =>
          exact ⟨sound_created h (hclear element position List.mem_cons_self),
            created_symbols s element⟩
        | .other => exact ⟨h,rfl⟩
      · exact ⟨h,rfl⟩
    unfold executeWrites
    split
    · rename_i t hi
      rw [hi] at hstep
      exact hstep
    rename_i t reply hne hi
    rw [hi] at hstep
    simp only at hstep
    split
    · obtain ⟨hs,hsym⟩ := ih (fun x hx => hd x (List.mem_cons_of_mem _ hx))
        (fun el p hp => hclear el p (List.mem_cons_of_mem _ hp)) hstep.1
      exact ⟨hs,hsym.trans hstep.2⟩
    · exact hstep

end Worker

namespace Rust

/-- Every symbol after one operation was there, or the operation is the committed DEFINE of
a name the Space did not have. -/
theorem performed_symbols {fate : Fate} {operation : Operation} {x : Symbol} : x ∈
    (issue fate s (perform e s operation)).1.symbols ↔ x ∈ s.symbols ∨ fate.commits = true ∧ ∃ kind
    name description, operation = .define kind name description ∧ s.has kind name = false ∧ x =
    ⟨kind,name,.draft⟩ := by
  rw [issue_space]
  cases hc : fate.commits with
  | false => simp
  | true =>
    match operation with
    | .create element => simp [perform]
    | .other => simp [perform]
    | .define kind name description =>
      cases hk : s.has kind name with
      | true => simp [perform,defined_known hk,hk]
      | false => simp [perform,(defined_fresh (e := e) hk).1,hk]

theorem performed_elements (fate : Fate) {operation : Operation}
    (hclear : ∀ element, operation = .create element → Clear e element)
    (h : ∀ x ∈ s.elements, Clear e x) :
    (∀ x ∈ s.elements, x ∈ (issue fate s (perform e s operation)).1.elements) ∧ ∀ x ∈
    (issue fate s (perform e s operation)).1.elements, Clear e x := by
  rw [issue_space]
  split
  · match operation with
    | .create element =>
      refine ⟨fun x hx => created_keeps hx,fun x hx => ?_⟩
      rcases created_elements hx with hx | rfl
      · exact h x hx
      · exact hclear _ rfl
    | .other => exact ⟨fun x hx => hx,h⟩
    | .define kind name description =>
      cases hk : s.has kind name with
      | true => simpa [perform,defined_known hk] using h
      | false => simpa [perform,(defined_fresh (e := e) hk).2.1] using h
  · exact ⟨fun x hx => hx,h⟩

theorem performed_owned (e : Engine) (s : Space) (fate : Fate) (operation : Operation) :
    owned (issue fate s (perform e s operation)).1.symbols ≤
      owned s.symbols+if operation.isDefine then 1 else 0 := by
  rw [issue_space]
  split
  · match operation with
    | .create element => simp [perform]
    | .other => simp [perform]
    | .define kind name description =>
      cases hk : s.has kind name with
      | true => simp [perform,defined_known hk]
      | false => simp [perform,(defined_fresh (e := e) hk).1,owned_fresh,Operation.isDefine]
  · exact Nat.le_add_right _ _

theorem performed_absent {fate : Fate} {operation : Operation} {kind : DefineKind}
    {name : String} (h : (issue fate s (perform e s operation)).1.has kind name = false) :
    s.has kind name = false :=
  not_has.mpr fun origin hm => not_has.mp h origin (performed_symbols.mpr (.inl hm))

variable {operation : Operation} {operations : List (Operation × ℕ)}

theorem fresh_later {position : ℕ} {rest : List (Operation × ℕ)}
    {p : ℕ} {kind : DefineKind} {name : String}
    (h : Fresh fate (issue (fate (.operation position)) s (perform e s operation)).1 rest p
      kind name) : Fresh fate s ((operation,position)::rest) p kind name := by
  refine fresh_of_rest performed_absent ?_ h
  rintro description rfl hn
  by_contra hc
  have hnew := performed_symbols (e := e).mpr (.inr ⟨Bool.eq_true_of_not_eq_false hc,kind,name,
    description,rfl,performed_absent hn,rfl⟩)
  exact not_has.mp hn _ hnew

theorem execute_next {position : ℕ} {rest : List (Operation × ℕ)} {t : Space} {reply : Reply}
    (hi : issue (fate (.operation position)) s (perform e s operation) = (t,reply))
    (hne : reply ≠ .stopped) : execute e fate s ((operation,position)::rest) =
    ((execute e fate t rest).1,reply::(execute e fate t rest).2) := by
  rw [execute,hi]
  cases reply with
  | stopped => exact absurd rfl hne
  | ref r => rfl
  | done => rfl
  | conflict => rfl
  | failed => rfl

theorem execute_halt {position : ℕ} {rest : List (Operation × ℕ)}
    {t : Space} (hi : issue (fate (.operation position)) s (perform e s operation) = (t,.stopped)) :
    execute e fate s ((operation,position)::rest) = (t,[.stopped]) := by
  rw [execute,hi]

theorem execute_elements (e : Engine) (fate : Step → Fate) {operations : List (Operation × ℕ)}
    (hclear : ∀ element position, (.create element,position) ∈ operations → Clear e element)
    (h : ∀ x ∈ s.elements, Clear e x) :
    (∀ x ∈ s.elements, x ∈ (execute e fate s operations).1.elements) ∧ ∀ x ∈
    (execute e fate s operations).1.elements, Clear e x := by
  induction operations generalizing s with
  | nil => exact ⟨fun x hx => hx,h⟩
  | cons y rest ih =>
    obtain ⟨operation,position⟩ := y
    obtain ⟨hk,hc⟩ := performed_elements (fate (.operation position))
      (fun element ho => hclear element position (ho ▸ List.mem_cons_self)) h
    rcases hi : issue (fate (.operation position)) s (perform e s operation) with ⟨t,reply⟩
    rw [hi] at hk hc
    by_cases hne : reply = .stopped
    · rw [execute_halt (hne ▸ hi)]
      exact ⟨hk,hc⟩
    · obtain ⟨hk',hc'⟩ := ih (fun el p hp => hclear el p (List.mem_cons_of_mem _ hp)) hc
      rw [execute_next hi hne]
      exact ⟨fun x hx => hk' x (hk x hx),hc'⟩

theorem execute_owned (e : Engine) (fate : Step → Fate) (s : Space)
    (operations : List (Operation × ℕ)) : owned (execute e fate s operations).1.symbols ≤ owned
    s.symbols+(operations.filter (·.1.isDefine)).length := by
  induction operations generalizing s with
  | nil => exact le_rfl
  | cons y rest ih =>
    obtain ⟨operation,position⟩ := y
    have hw := performed_owned e s (fate (.operation position)) operation
    have hl : (((operation,position)::rest).filter (·.1.isDefine)).length =
        (rest.filter (·.1.isDefine)).length+if operation.isDefine then 1 else 0 := by
      rw [List.filter_cons]
      split <;> simp_all
    rcases hi : issue (fate (.operation position)) s (perform e s operation) with ⟨t,reply⟩
    rw [hi] at hw
    by_cases hne : reply = .stopped
    · rw [execute_halt (hne ▸ hi)]
      simp only at hw ⊢
      omega
    have := ih t
    rw [execute_next hi hne]
    simp only at hw ⊢
    omega

/-- A draft of the executed request was there before, or is a new definition the request
reached. -/
theorem execute_drafts (ho : InOrder operations) {kind : DefineKind} {name : String}
    (h : ⟨kind,name,.draft⟩ ∈ (execute e fate s operations).1.symbols) : ⟨kind,name,.draft⟩ ∈
    s.symbols ∨ ∃ position description reply, Fresh fate s operations position kind name ∧
    ((Operation.define kind name description,position),reply) ∈ operations.zip
    (execute e fate s operations).2 ∧
    (fate (.operation position) = .done → reply = .ref (e.refOf kind name)) := by
  induction operations generalizing s with
  | nil => exact .inl h
  | cons y rest ih =>
    obtain ⟨operation,position⟩ := y
    rcases hi : issue (fate (.operation position)) s (perform e s operation) with ⟨t,reply⟩
    -- a draft of the space after the head is old, or the head defined it
    have hhead : (⟨kind,name,.draft⟩ : Symbol) ∈ t.symbols →
        ⟨kind,name,.draft⟩ ∈ s.symbols ∨ ∃ description, operation = .define kind name description ∧
          Fresh fate s ((operation,position)::rest) position kind name ∧
          (fate (.operation position) = .done → reply = .ref (e.refOf kind name)) := by
      intro hm
      have hm' : (⟨kind,name,.draft⟩ : Symbol) ∈
          (issue (fate (.operation position)) s (perform e s operation)).1.symbols := by
        rw [hi]
        exact hm
      rcases performed_symbols.mp hm' with hm | ⟨hc,kind',name',description,rfl,hn,hx⟩
      · exact .inl hm
      simp only [Symbol.mk.injEq,and_true] at hx
      obtain ⟨rfl,rfl⟩ := hx
      refine .inr ⟨description,rfl,fresh_head ho hn hc,fun hd => ?_⟩
      rw [hd,issue_done] at hi
      exact (congrArg Prod.snd hi).symm.trans (defined_fresh hn).2.2
    by_cases hne : reply = .stopped
    · rw [execute_halt (hne ▸ hi)] at h ⊢
      rcases hhead h with hm | ⟨description,rfl,hf,hr⟩
      · exact .inl hm
      · exact .inr ⟨position,description,.stopped,hf,by simp,hne ▸ hr⟩
    rw [execute_next hi hne] at h ⊢
    rcases ih (List.pairwise_cons.mp ho).2 h with hm | ⟨p,description,answer,hf,hz,hr⟩
    · rcases hhead hm with hm | ⟨description,rfl,hf,hr⟩
      · exact .inl hm
      · exact .inr ⟨position,description,reply,hf,by simp,hr⟩
    · exact .inr ⟨p,description,answer,fresh_later (by rw [hi]; exact hf),
        List.mem_cons_of_mem _ hz,hr⟩

theorem execute_refs (ho : InOrder operations)
    {position : ℕ} {kind : DefineKind} {name description r : String}
    (h : ((Operation.define kind name description,position),Reply.ref r) ∈
      operations.zip (execute e fate s operations).2) :
    Fresh fate s operations position kind name ∧ r = e.refOf kind name := by
  induction operations generalizing s with
  | nil => simp at h
  | cons y rest ih =>
    obtain ⟨operation,p⟩ := y
    rcases hi : issue (fate (.operation p)) s (perform e s operation) with ⟨t,reply⟩
    by_cases hne : reply = .stopped
    · simp [execute_halt (hne ▸ hi)] at h
    rw [execute_next hi hne] at h
    simp only [List.zip_cons_cons,List.mem_cons,Prod.mk.injEq] at h
    rcases h with ⟨⟨rfl,rfl⟩,rfl⟩ | h
    · have hdone : fate (.operation position) = .done := by
        have := congrArg Prod.snd hi
        revert this
        cases fate (.operation position) <;> simp [issue]
      rw [hdone,issue_done,perform] at hi
      cases hn : s.has kind name with
      | true => simp [defined_known hn] at hi
      | false =>
        refine ⟨fresh_head ho hn (by rw [hdone]; rfl),?_⟩
        have := (defined_fresh (e := e) hn).2.2
        rw [hi] at this
        exact Reply.ref.inj this
    · obtain ⟨hf,hr⟩ := ih (List.pairwise_cons.mp ho).2 h
      exact ⟨fresh_later (by rw [hi]; exact hf),hr⟩

theorem perform_running (s : Space) (operation : Operation) :
    (perform e s operation).2 ≠ .stopped := by
  match operation with
  | .define kind name description => exact defined_running
  | .create element => simp [perform]
  | .other => simp [perform]

theorem execute_stop (ho : InOrder operations) (h : Reply.stopped ∈ (execute e fate s operations).2)
    : ∃ operation p, (operation,p) ∈ operations ∧ (fate (.operation p)).stops = true ∧ ∀ pair ∈
    operations.zip (execute e fate s operations).2, pair.1.2 ≤ p := by
  induction operations generalizing s with
  | nil => simp [execute] at h
  | cons y rest ih =>
    obtain ⟨operation,position⟩ := y
    rcases hi : issue (fate (.operation position)) s (perform e s operation) with ⟨t,reply⟩
    by_cases hne : reply = .stopped
    · have hs := (issue_stopped (perform_running s operation)).mp
        ((congrArg Prod.snd hi).trans hne)
      rw [execute_halt (hne ▸ hi)]
      exact ⟨operation,position,List.mem_cons_self,hs,by simp⟩
    rw [execute_next hi hne] at h ⊢
    have hr : Reply.stopped ∈ (execute e fate t rest).2 := by
      rcases List.mem_cons.mp h with h | h
      · exact absurd h.symm hne
      · exact h
    obtain ⟨op,p,hm,hs,hle⟩ := ih (List.pairwise_cons.mp ho).2 hr
    have hlt : position < p := (List.pairwise_cons.mp ho).1 _ hm
    refine ⟨op,p,List.mem_cons_of_mem _ hm,hs,?_⟩
    simp only [List.zip_cons_cons,List.forall_mem_cons]
    exact ⟨hlt.le,hle⟩

theorem queue_elements (fate : Fate) (kind : DefineKind) (reference description : String)
    (h : ∀ x ∈ s.elements, Clear e x) :
    (∀ x ∈ s.elements, x ∈ (queueSchemaReview s fate kind reference description).1.elements) ∧ ∀ x ∈
    (queueSchemaReview s fate kind reference description).1.elements, Clear e x := by
  simp only [queueSchemaReview,issue_space]
  split
  · refine ⟨fun x hx => created_keeps hx,fun x hx => ?_⟩
    rcases created_elements hx with hx | rfl
    · exact h x hx
    · exact review_clear e kind reference description
  · exact ⟨fun x hx => hx,h⟩

theorem reviewModelDefines_keeps (fate : Step → Fate) (pairs : List ((Operation × ℕ) × Reply))
    (h : ∀ x ∈ s.elements, Clear e x) : (reviewModelDefines fate s pairs).1.symbols = s.symbols ∧
    (∀ x ∈ s.elements, x ∈ (reviewModelDefines fate s pairs).1.elements) ∧ ∀ x ∈
    (reviewModelDefines fate s pairs).1.elements, Clear e x := by
  fun_induction reviewModelDefines fate s pairs with
  | case1 s => exact ⟨rfl,fun x hx => hx,h⟩
  | case2 s kind name description position reference rest t hq =>
    have hsym := queue_symbols s (fate (.reviewAt position)) kind reference description
    have hel := queue_elements (fate (.reviewAt position)) kind reference description h
    rw [hq] at hsym hel
    exact ⟨hsym,hel⟩
  | case3 s kind name description position reference rest t reply hne hq ih =>
    have hsym := queue_symbols s (fate (.reviewAt position)) kind reference description
    have hel := queue_elements (fate (.reviewAt position)) kind reference description h
    rw [hq] at hsym hel
    obtain ⟨hs,hk,hc⟩ := ih hel.2
    exact ⟨hs.trans hsym,fun x hx => hk x (hel.1 x hx),hc⟩
  | case4 s x rest hne ih => exact ih h

theorem review_committed {fate : Fate} {kind : DefineKind} {name description : String} {t : Space}
    (hc : fate.commits = true) (h : ∀ x ∈ s.elements, Clear e x)
    (ht : (queueSchemaReview s fate kind (e.refOf kind name) description).1 = t) :
    Reviewed e t kind name := by
  rw [← ht,queueSchemaReview,issue_space,if_pos hc]
  exact created_reviewed h

theorem review_reached {pairs : List ((Operation × ℕ) × Reply)}
    (ho : pairs.Pairwise fun x y => x.1.2 < y.1.2) (h : ∀ x ∈ s.elements, Clear e x)
    {position : ℕ} {kind : DefineKind} {name description : String}
    (hm : ((Operation.define kind name description,position),Reply.ref (e.refOf kind name)) ∈ pairs)
    (hc : (fate (.reviewAt position)).commits = true)
    (hs : ∀ earlier kind' name' description' r,
      ((Operation.define kind' name' description',earlier),Reply.ref r) ∈ pairs →
        earlier < position → (fate (.reviewAt earlier)).stops = false) :
    Reviewed e (reviewModelDefines fate s pairs).1 kind name := by
  fun_induction reviewModelDefines fate s pairs with
  | case1 s => simp at hm
  | case2 s kind' name' description' p reference rest t hq =>
    rcases List.mem_cons.mp hm with hx | hm'
    · simp only [Prod.mk.injEq,Operation.define.injEq,Reply.ref.injEq] at hx
      obtain ⟨⟨⟨rfl,rfl,rfl⟩,rfl⟩,rfl⟩ := hx
      exact review_committed hc h (congrArg Prod.fst hq)
    have hlt := (List.pairwise_cons.mp ho).1 _ hm'
    have hstop := hs p kind' name' description' reference List.mem_cons_self hlt
    have := (issue_stopped (by simp)).mp (congrArg Prod.snd hq)
    rw [hstop] at this
    exact absurd this Bool.false_ne_true
  | case3 s kind' name' description' p reference rest t reply hne hq ih =>
    have hel := queue_elements (fate (.reviewAt p)) kind' reference description' h
    rw [hq] at hel
    rcases List.mem_cons.mp hm with hx | hm'
    · simp only [Prod.mk.injEq,Operation.define.injEq,Reply.ref.injEq] at hx
      obtain ⟨⟨⟨rfl,rfl,rfl⟩,rfl⟩,rfl⟩ := hx
      obtain ⟨x,hx,hr⟩ := review_committed hc h (congrArg Prod.fst hq)
      exact ⟨x,(reviewModelDefines_keeps fate rest hel.2).2.1 x hx,hr⟩
    · exact ih (List.pairwise_cons.mp ho).2 hel.2 hm' fun earlier k n d r hp =>
        hs earlier k n d r (List.mem_cons_of_mem _ hp)
  | case4 s x rest hne ih =>
    have hm' : ((Operation.define kind name description,position),
        Reply.ref (e.refOf kind name)) ∈ rest := by
      rcases List.mem_cons.mp hm with rfl | hm'
      · exact (hne kind name description position _ rfl).elim
      · exact hm'
    exact ih (List.pairwise_cons.mp ho).2 h hm' fun earlier k n d r hp =>
      hs earlier k n d r (List.mem_cons_of_mem _ hp)

theorem zip_inOrder (ho : InOrder operations)
    (replies : List Reply) :
    (operations.zip replies).Pairwise fun x y => x.1.2 < y.1.2 := by
  induction operations generalizing replies with
  | nil => simp
  | cons x rest ih =>
    cases replies with
    | nil => simp
    | cons reply replies =>
      obtain ⟨hx,hrest⟩ := List.pairwise_cons.mp ho
      rw [List.zip_cons_cons]
      exact List.pairwise_cons.mpr ⟨fun y hy => hx _ (List.of_mem_zip hy).1,ih hrest replies⟩

theorem drafts_reviewed (ho : InOrder operations)
    (h : Sound e s)
    (hclear : ∀ element position, (.create element,position) ∈ operations → Clear e element)
    (hr : Reviewing fate s operations) (hu : Uninterrupted fate s operations) :
    Sound e (reviewModelDefines fate (execute e fate s operations).1
      (operations.zip (execute e fate s operations).2)).1 := by
  obtain ⟨hkeep,hexec⟩ := execute_elements e fate hclear h.clear
  obtain ⟨hsym,hkept,hc⟩ := reviewModelDefines_keeps fate
    (operations.zip (execute e fate s operations).2) hexec
  constructor
  · intro kind name hm
    rw [hsym] at hm
    rcases execute_drafts ho hm with hm | ⟨position,description,reply,hf,hz,hd⟩
    · obtain ⟨x,hx,hrv⟩ := h.reviewed kind name hm
      exact ⟨x,hkept x (hkeep x hx),hrv⟩
    obtain ⟨hdone,hcommit⟩ := hr position kind name hf
    rw [hd hdone] at hz
    apply review_reached (zip_inOrder ho _) hexec hz hcommit
    intro earlier kind' name' description' r hm' hlt
    exact (hu position kind name hf).2 earlier kind' name' (execute_refs ho hm').1 hlt
  · exact hc

theorem stopped_defines_nothing (ho : InOrder operations) (h : Sound e s)
    (hclear : ∀ element position, (.create element,position) ∈ operations → Clear e element)
    (hr : Reviewing fate s operations) (hu : Uninterrupted fate s operations)
    (hs : Reply.stopped ∈ (execute e fate s operations).2) : Sound e (execute e fate s operations).1
    := by
  obtain ⟨hkeep,hexec⟩ := execute_elements e fate hclear h.clear
  obtain ⟨operation,p,hp,hstop,hle⟩ := execute_stop ho hs
  refine ⟨fun kind name hm => ?_,hexec⟩
  rcases execute_drafts ho hm with hm | ⟨position,description,reply,hf,hz,hd⟩
  · obtain ⟨x,hx,hrv⟩ := h.reviewed kind name hm
    exact ⟨x,hkeep x hx,hrv⟩
  rcases (hle _ hz).lt_or_eq with hlt | heq
  · have := (hu position kind name hf).1 operation p hp hlt
    rw [hstop] at this
    exact absurd this.symm Bool.false_ne_true
  · simp only at heq
    rw [← heq,(hr position kind name hf).1] at hstop
    exact absurd hstop Bool.false_ne_true

end Rust

end Plans

/-! ## Runs -/

def symbolName : Deployment → DefineKind → String → Bool
  | .rust => Kip.isSymbolName
  | .worker => AndaBrain.Worker.isSymbolName

/-- No engine call fails, loses its answer or ends the run between a definition and its
review, and no command of the model takes the review's client key. A listing of the Rust
deployment is whole. -/
structure Unbroken (d : Deployment) (e : Engine) (s : Space) (t : Turn) : Prop where
  listed : d = .rust → ∀ kind, (s.symbols.filter (·.kind == kind)).length ≤ listLimit
  clear : ∀ operations, t.call = .plan operations →
    ∀ element, .create element ∈ operations → Clear e element
  plan : ∀ operations, t.call = .plan operations → Reviewing t.fate s operations.zipIdx
  uninterrupted : d = .rust → ∀ operations, t.call = .plan operations →
    Uninterrupted t.fate s operations.zipIdx
  names : ∀ types predicates, t.call = .names types predicates →
    ∀ symbol ∈ declared types predicates, s.has symbol.1 symbol.2 = false →
      symbolName d symbol.1 symbol.2 = true →
        Followed (t.fate (.define symbol.1 symbol.2)) (t.fate (.reviewOf symbol.1 symbol.2))

def Steady (d : Deployment) (e : Engine) : Space → List Turn → Prop
  | _, [] => True
  | s, t::ts => Unbroken d e s t ∧ Steady d e (turn d e s t).1 ts

theorem load_perm {e : Engine} {s : Space}
    (h : ∀ kind, (s.symbols.filter (·.kind == kind)).length ≤ listLimit) :
    (Rust.load e s).Perm s.symbols := by
  have hl (kind : DefineKind) : Rust.list e s kind = e.order (s.symbols.filter (·.kind == kind)) := by
    apply List.take_of_length_le
    rw [(e.orders _).length_eq]
    exact h kind
  have hp : (fun x : Symbol => x.kind == .predicate) = fun x => !(x.kind == .conceptType) := by
    funext x
    cases x.kind <;> rfl
  rw [Rust.load,hl,hl]
  refine ((e.orders _).append (e.orders _)).trans ?_
  rw [hp]
  exact List.filter_append_perm _ _

theorem load_whole {s : Space} {vocabulary : List Symbol}
    (h : vocabulary.Perm s.symbols) : owned vocabulary = owned s.symbols ∧
      ∀ kind name, (vocabulary.any fun x => x.kind == kind && x.name == name) = s.has kind name := by
  refine ⟨h.countP_eq _,fun kind name => ?_⟩
  rw [Bool.eq_iff_iff,has_iff]
  simp only [List.any_eq_true,Bool.and_eq_true,beq_iff_eq]
  constructor
  · rintro ⟨⟨_,_,origin⟩,hx,rfl,rfl⟩
    exact ⟨origin,h.mem_iff.mp hx⟩
  · rintro ⟨origin,hx⟩
    exact ⟨_,h.mem_iff.mpr hx,rfl,rfl⟩

theorem zipIdx_inOrder (operations : List Operation) : InOrder operations.zipIdx := by
  have h : (operations.zipIdx.map Prod.snd).Pairwise (· < ·) := by
    rw [List.zipIdx_map_snd]
    exact List.pairwise_lt_range'
  exact List.pairwise_map.mp h

theorem define_count (operations : List Operation) :
    (operations.zipIdx.filter (·.1.isDefine)).length = (operations.filter Operation.isDefine).length
    := by
  conv_rhs => rw [← List.zipIdx_map_fst 0 operations,List.filter_map,List.length_map]
  rfl

theorem zipIdx_mem {operations : List Operation} {operation : Operation} {position : ℕ}
    (h : (operation,position) ∈ operations.zipIdx) : operation ∈ operations :=
  List.zipIdx_map_fst 0 operations ▸ List.mem_map_of_mem h

section Turns
open Rust
variable {e : Engine} {s : Space} {t : Turn}

theorem room {α : Type} {defines : List α} {vocabulary : List Symbol}
    (hv : owned vocabulary = owned s.symbols) (hcap : owned s.symbols ≤ maxSymbols)
    (h : ¬(!defines.isEmpty && decide (maxSymbols < owned vocabulary+defines.length)) = true) :
    owned s.symbols+defines.length ≤ maxSymbols := by
  cases defines with
  | nil => simpa using hcap
  | cons x rest =>
    simp only [List.isEmpty_cons,Bool.not_false,Bool.true_and,decide_eq_true_eq,Nat.not_lt] at h
    omega

theorem rust_plan_sound {operations : List Operation} (h : Sound e s)
    (hcap : owned s.symbols ≤ maxSymbols) (hb : Unbroken .rust e s t)
    (ht : t.call = .plan operations) : Sound e (Rust.executeFormationPlan e s operations t.fate).1 ∧
    owned (Rust.executeFormationPlan e s operations t.fate).1.symbols ≤ maxSymbols := by
  have hclear : ∀ element position, (.create element,position) ∈ operations.zipIdx →
      Clear e element := fun element position hm =>
    hb.clear operations ht element (zipIdx_mem hm)
  have ho := zipIdx_inOrder operations
  have hr := hb.plan operations ht
  have hu := hb.uninterrupted rfl operations ht
  have hv : owned (Rust.load e s) = owned s.symbols :=
    (load_whole (load_perm (hb.listed rfl))).1
  have hw := execute_owned e t.fate s operations.zipIdx
  rw [define_count] at hw
  unfold Rust.executeFormationPlan
  simp only
  split
  · exact ⟨h,hcap⟩
  by_cases hroom : (!(operations.filter Operation.isDefine).isEmpty && decide (maxSymbols <
      owned (Rust.load e s)+(operations.filter Operation.isDefine).length)) = true
  · rw [if_pos hroom]
    exact ⟨h,hcap⟩
  have hcap' := hw.trans (room hv hcap hroom)
  rw [if_neg hroom]
  by_cases hgate : (!operations.all (Operation.drafted Kip.isSymbolName)) = true
  · rw [if_pos hgate]
    exact ⟨h,hcap⟩
  rw [if_neg hgate]
  by_cases hstop : (execute e t.fate s operations.zipIdx).2.contains .stopped = true
  · rw [if_pos hstop]
    exact ⟨stopped_defines_nothing ho h hclear hr hu (by simpa using hstop),hcap'⟩
  rw [if_neg hstop]
  have hs := drafts_reviewed ho h hclear hr hu
  have hsym := (reviewModelDefines_keeps t.fate
    (operations.zipIdx.zip (execute e t.fate s operations.zipIdx).2)
    (execute_elements e t.fate hclear h.clear).2).1
  rw [← hsym] at hcap'
  split
  · rename_i u hq
    rw [hq] at hs hcap'
    exact ⟨hs,hcap'⟩
  · rename_i u hq
    rw [hq] at hs hcap'
    exact ⟨hs,hcap'⟩

theorem worker_plan_sound {operations : List Operation} (h : Sound e s)
    (hcap : owned s.symbols ≤ maxSymbols) (hb : Unbroken .worker e s t)
    (ht : t.call = .plan operations) : Sound e (Worker.executeFormationPlan e s operations t.fate).1
    ∧ owned (Worker.executeFormationPlan e s operations t.fate).1.symbols ≤ maxSymbols := by
  have hdef : InOrder (operations.zipIdx.filter (·.1.isDefine)) :=
    (zipIdx_inOrder operations).filter _
  have hr : Reviewing t.fate s (operations.zipIdx.filter (·.1.isDefine)) := by
    rintro position kind name ⟨hn,hc,⟨description,hm⟩,hfirst⟩
    refine hb.plan operations ht position kind name ⟨hn,hc,⟨description,List.mem_of_mem_filter hm⟩,?_⟩
    intro earlier description' hm' hlt
    exact hfirst earlier description' (List.mem_filter.mpr ⟨hm',rfl⟩) hlt
  obtain ⟨hs,hw⟩ := Worker.executeDefines_sound hdef h hr
  unfold Worker.executeFormationPlan
  by_cases hgate : (!operations.all (Operation.drafted AndaBrain.Worker.isSymbolName)) = true
  · rw [if_pos hgate]
    exact ⟨h,hcap⟩
  rw [if_neg hgate]
  simp only
  split
  · exact ⟨h,hcap⟩
  by_cases hroom : (!(operations.zipIdx.filter (·.1.isDefine)).isEmpty && decide (maxSymbols <
      owned (Worker.load e s)+(operations.zipIdx.filter (·.1.isDefine)).length)) = true
  · rw [if_pos hroom]
    exact ⟨h,hcap⟩
  rw [if_neg hroom]
  have hcap' := hw.trans (room rfl hcap hroom)
  split
  · rename_i u ending hq
    rw [hq] at hs hcap'
    exact ⟨hs,hcap'⟩
  rename_i u hq
  rw [hq] at hs hcap'
  have hwrites := Worker.executeWrites_sound t.fate
    (operations.zipIdx.filter (!·.1.isDefine)) (by simp) (by
      intro element position hm
      exact hb.clear operations ht element (zipIdx_mem (List.mem_of_mem_filter hm))) hs
  exact ⟨hwrites.1,hwrites.2 ▸ hcap'⟩

theorem opened_kept {vocabulary : List Symbol} (h : Sound e s) (hcap : owned s.symbols ≤ maxSymbols)
    (hv : owned vocabulary = owned s.symbols) : Kept e (opened s vocabulary) :=
  ⟨h,hv.ge,hcap⟩

theorem rust_names_sound {types predicates : List String} (h : Sound e s)
    (hcap : owned s.symbols ≤ maxSymbols) (hb : Unbroken .rust e s t)
    (ht : t.call = .names types predicates) : Sound e
    (Rust.draftSymbols e s types predicates t.fate).1.space ∧ owned
    (Rust.draftSymbols e s types predicates t.fate).1.space.symbols ≤ maxSymbols := by
  obtain ⟨hv,hk⟩ := load_whole (load_perm (e := e) (hb.listed rfl))
  unfold Rust.draftSymbols
  split
  · exact ⟨h,hcap⟩
  · have hkept := draftLoop_kept Rust.hostDescription (opened_kept h hcap hv) fun symbol hm hn hname =>
      hb.names types predicates ht symbol hm (hk symbol.1 symbol.2 ▸ hn) hname
    exact ⟨hkept.sound,hkept.capped⟩

theorem worker_names_sound {types predicates : List String} (h : Sound e s)
    (hcap : owned s.symbols ≤ maxSymbols) (hb : Unbroken .worker e s t)
    (ht : t.call = .names types predicates) : Sound e
    (Worker.declareSymbols e s types predicates t.fate).1.space ∧ owned
    (Worker.declareSymbols e s types predicates t.fate).1.space.symbols ≤ maxSymbols := by
  have hdraft : Sound e (Worker.draftSymbols e s types predicates t.fate).1.space ∧
      owned (Worker.draftSymbols e s types predicates t.fate).1.space.symbols ≤ maxSymbols := by
    unfold Worker.draftSymbols
    split
    · exact ⟨h,hcap⟩
    · have hkept := draftLoop_kept Worker.hostDescription (opened_kept h hcap rfl) fun symbol hm hn hname =>
        hb.names types predicates ht symbol hm hn hname
      exact ⟨hkept.sound,hkept.capped⟩
  unfold Worker.declareSymbols
  split
  · rename_i d hq
    rw [hq] at hdraft
    split <;> exact hdraft
  · exact hdraft

theorem turn_sound {d : Deployment} (h : Sound e s) (hcap : owned s.symbols ≤ maxSymbols)
    (hb : Unbroken d e s t) :
    Sound e (turn d e s t).1 ∧ owned (turn d e s t).1.symbols ≤ maxSymbols := by
  cases hc : t.call with
  | plan operations =>
    cases d with
    | rust => simpa only [turn,hc] using rust_plan_sound h hcap hb hc
    | worker => simpa only [turn,hc] using worker_plan_sound h hcap hb hc
  | names types predicates =>
    cases d with
    | rust => simpa only [turn,hc] using rust_names_sound h hcap hb hc
    | worker => simpa only [turn,hc] using worker_names_sound h hcap hb hc

end Turns

/-- Over any run of unbroken calls, a call that names a draft and succeeds finds its review,
and the Space owns at most `MAX_SYMBOLS` symbols. -/
theorem unbroken_runs_review (d : Deployment) (e : Engine) (s : Space) (ts : List Turn)
    (h : Sound e s) (hcap : owned s.symbols ≤ maxSymbols) (hs : Steady d e s ts) :
    Meets d e s ts := by
  induction ts generalizing s with
  | nil => trivial
  | cons t ts ih =>
    obtain ⟨hsound,hcap'⟩ := turn_sound h hcap hs.1
    exact ⟨hcap',fun _ symbol _ hm => hsound.reviewed symbol.1 symbol.2 hm, ih _ hsound hcap' hs.2⟩

def emptySpace : Space := ⟨[],[],List.nodup_nil⟩

def plainEngine : Engine := ⟨fun _ name => "kip://draft@1.0.0/"++name,id,fun _ => .refl _⟩

def projectPlan : Call := .plan [.define .conceptType "Project" "A project."]

def projectNames : Call := .names ["Project"] []

def unreviewed : Step → Fate
  | .reviewAt _ | .reviewOf _ _ => .failed
  | _ => .done

theorem empty_sound : Sound plainEngine emptySpace :=
  ⟨by simp [emptySpace],by simp [emptySpace]⟩

theorem answered_unbroken {d : Deployment} {e : Engine} {s : Space} {call : Call}
    (hlisted : ∀ kind, (s.symbols.filter (·.kind == kind)).length ≤ listLimit)
    (hclear : ∀ operations, call = .plan operations →
      ∀ element, .create element ∈ operations → Clear e element) :
    Unbroken d e s ⟨call,fun _ => .done⟩ where
  listed _ := hlisted
  clear := hclear
  plan _ _ _ _ _ _ := ⟨rfl,rfl⟩
  uninterrupted _ _ _ _ _ _ _ := ⟨fun _ _ _ _ => rfl,fun _ _ _ _ _ => rfl⟩
  names _ _ _ _ _ _ _ _ := ⟨rfl,rfl⟩

/-- A plan and a name over an empty Space, drafted and named again. -/
theorem unbroken_runs_review_project : Meets .rust plainEngine emptySpace
    [⟨projectPlan,fun _ => .done⟩,⟨projectNames,fun _ => .done⟩] :=
  unbroken_runs_review .rust plainEngine emptySpace _ empty_sound (by decide)
    ⟨answered_unbroken (by rintro (_ | _) <;> decide) (by
        rintro operations ho element hm
        cases ho
        simp at hm),
      answered_unbroken (by rintro (_ | _) <;> decide) (by
        rintro operations ho
        cases ho),
      trivial⟩

theorem unqueued {e : Engine} {s : Space} {kind : DefineKind} {name : String}
    (h : s.elements = []) : ¬Reviewed e s kind name := by
  rintro ⟨x,hx,-⟩
  simp [h] at hx

/-- A refused review is never queued again: the same names, or the same plan, then succeed.
The Rust plan succeeds at once. -/
theorem lost_review_is_success :
    ¬Meets .rust plainEngine emptySpace
        [⟨projectNames,unreviewed⟩,⟨projectNames,fun _ => .done⟩] ∧
      ¬Meets .rust plainEngine emptySpace [⟨projectPlan,unreviewed⟩] ∧
      ¬Meets .worker plainEngine emptySpace
        [⟨projectNames,unreviewed⟩,⟨projectNames,fun _ => .done⟩] ∧
      ¬Meets .worker plainEngine emptySpace
        [⟨projectPlan,unreviewed⟩,⟨projectPlan,fun _ => .done⟩] := by
  refine ⟨fun h => ?_,fun h => ?_,fun h => ?_,fun h => ?_⟩
  · exact unqueued (by decide) (h.2.2.2.1 (by decide) (.conceptType,"Project") (by decide)
      (by decide))
  · exact unqueued (by decide) (h.2.1 (by decide) (.conceptType,"Project") (by decide)
      (by decide))
  · exact unqueued (by decide) (h.2.2.2.1 (by decide) (.conceptType,"Project") (by decide)
      (by decide))
  · exact unqueued (by decide) (h.2.2.2.1 (by decide) (.conceptType,"Project") (by decide)
      (by decide))

end AndaBrain.Vocabulary
