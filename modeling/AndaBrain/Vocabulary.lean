import AndaBrain.WorkerGate

/-!
# Draft symbols and their reviews

A DEFINE commits a draft symbol, a second request queues its review. Both deployments do so for
the DEFINEs of a Formation plan and for names declared bare.
-/

set_option autoImplicit false

namespace AndaBrain.Vocabulary
open Kip

def maxSymbols : ℕ := 512

/-- `LIST TYPES LIMIT 1000`. -/
def listLimit : ℕ := 1000

/-- Which package declares a symbol: the draft package, the legacy host package or another
active one. -/
inductive Origin where
  | draft
  | legacy
  | borrowed
  deriving DecidableEq

structure Symbol where
  kind : DefineKind
  name : String
  origin : Origin
  deriving DecidableEq

structure ReviewTask where
  name : String
  summary : String
  symbolKind : String
  symbolRef : String
  deriving DecidableEq

structure Element where
  clientKey : String
  task : Option ReviewTask
  deriving DecidableEq

structure Space where
  symbols : List Symbol
  elements : List Element
  once : symbols.Nodup

def Space.has (s : Space) (kind : DefineKind) (name : String) : Bool :=
  s.symbols.any fun x => x.kind == kind && x.name == name

/-- `MemoryVocabulary::len`, of the symbols a listing returned. -/
def owned (symbols : List Symbol) : ℕ := symbols.countP fun x => x.origin != .borrowed

theorem Space.fresh {s : Space} {kind : DefineKind} {name : String}
    (h : s.has kind name = false) : (s.symbols++[Symbol.mk kind name .draft]).Nodup := by
  have hn : (⟨kind,name,.draft⟩ : Symbol) ∉ s.symbols := by
    intro hm
    have := List.any_eq_false.mp h _ hm
    simp at this
  rw [List.nodup_append]
  exact ⟨s.once,by simp,fun x hx y hy hxy => hn (List.mem_singleton.mp hy ▸ hxy ▸ hx)⟩

/-! ## The engine -/

/-- How one engine call goes: answered, refused, committed with its answer lost, or the last
call of the run, before or after its commit. -/
inductive Fate where
  | done
  | failed
  | lost
  | stopsBefore
  | stopsAfter
  deriving DecidableEq

def Fate.commits : Fate → Bool
  | .done | .lost | .stopsAfter => true
  | .failed | .stopsBefore => false

def Fate.stops : Fate → Bool
  | .stopsBefore | .stopsAfter => true
  | _ => false

inductive Reply where
  | ref (reference : String)
  | done
  | conflict
  | failed
  | stopped
  deriving DecidableEq

/-- `refOf` is the exact reference a committed DEFINE answers with, `order` the order of a
listing. -/
structure Engine where
  refOf : DefineKind → String → String
  order : List Symbol → List Symbol
  orders : ∀ symbols, (order symbols).Perm symbols

def issue (fate : Fate) (s : Space) (committed : Space × Reply) : Space × Reply :=
  match fate with
  | .done => committed
  | .failed => (s,.failed)
  | .lost => (committed.1,.failed)
  | .stopsBefore => (s,.stopped)
  | .stopsAfter => (committed.1,.stopped)

/-- A DEFINE of a name the Space resolves answers `SchemaSymbolConflict`. -/
def defined (e : Engine) (s : Space) (kind : DefineKind) (name : String) : Space × Reply :=
  if h : s.has kind name = false then
    ({ s with symbols := s.symbols++[Symbol.mk kind name .draft], once := Space.fresh h },
      .ref (e.refOf kind name))
  else (s,.conflict)

def created (s : Space) (element : Element) : Space × Reply :=
  if s.elements.any (·.clientKey == element.clientKey) then (s,.done)
  else ({ s with elements := s.elements++[element] },.done)

/-! ## Queueing a review -/

def kindLabel : DefineKind → String
  | .conceptType => "ConceptType"
  | .predicate => "PredicateType"

def reviewKey (kind : DefineKind) (reference : String) : String :=
  "review_schema:"++kindLabel kind++":"++reference

def reviewElement (kind : DefineKind) (reference description : String) : Element :=
  let label := kindLabel kind
  let name := localName reference
  let summary := "Review the draft "++label++" `"++name++"`: "++description
  ⟨reviewKey kind reference,
    some ⟨"Review draft "++label++" "++name,String.ofList (summary.toList.take 1024),label,
      reference⟩⟩

/-- `queue_schema_review` and `queueSchemaReview` send the same CREATE. -/
def queueSchemaReview (s : Space) (fate : Fate) (kind : DefineKind)
    (reference description : String) : Space × Reply :=
  issue fate s (created s (reviewElement kind reference description))

/-! ## The vocabulary as it is loaded -/

namespace Rust

def list (e : Engine) (s : Space) (kind : DefineKind) : List Symbol :=
  (e.order (s.symbols.filter (·.kind == kind))).take listLimit

def load (e : Engine) (s : Space) : List Symbol :=
  list e s .conceptType++list e s .predicate

def hostDescription : DefineKind → String → String
  | .conceptType, name => "Entity type `"++name++"`, met while forming this Space's memory. "++
      "It means whatever the sources it came from meant by it; nothing here verifies that."
  | .predicate, name => "Relation `"++name++"`, met while forming this Space's memory. "++
      "A claim under it is somebody's statement, never a verified fact."

end Rust

namespace Worker

/-- `MemoryVocabulary.load` walks the packages of the lock. -/
def load (_ : Engine) (s : Space) : List Symbol := s.symbols

def hostDescription : DefineKind → String → String
  | .conceptType, name => "Entity type `"++name++"`, met while forming this Space's memory. "++
      "It means whatever the sources it came from meant by it; nothing here verifies that."
  | .predicate, name => "Relation `"++name++"`, met while forming this Space's memory. "++
      "A claim under it is somebody’s statement, never a verified fact."

end Worker

/-! ## Calls -/

inductive Operation where
  | define (kind : DefineKind) (name description : String)
  /-- A command that creates a Concept under a client key of its own. -/
  | create (element : Element)
  | other
  deriving DecidableEq

def Operation.isDefine : Operation → Bool
  | .define .. => true
  | _ => false

def Operation.drafted (isSymbolName : DefineKind → String → Bool) : Operation → Bool
  | .define kind name _ => isSymbolName kind name
  | _ => true

inductive Call where
  | plan (operations : List Operation)
  | names (types predicates : List String)

def declared (types predicates : List String) : List (DefineKind × String) :=
  types.map (fun name => (.conceptType,name))++predicates.map (fun name => (.predicate,name))

def Call.symbols : Call → List (DefineKind × String)
  | .plan operations => operations.filterMap fun
    | .define kind name _ => some (kind,name)
    | _ => none
  | .names types predicates => declared types predicates

inductive Step where
  | load
  | reload
  | operation (position : ℕ)
  | reviewAt (position : ℕ)
  | define (kind : DefineKind) (name : String)
  | reviewOf (kind : DefineKind) (name : String)
  deriving DecidableEq

inductive Ending where
  | success
  | error
  | stopped
  deriving DecidableEq

def Fate.ending : Fate → Option Ending
  | .done => none
  | .failed | .lost => some .error
  | .stopsBefore | .stopsAfter => some .stopped

/-! ## Names declared bare -/

structure Draft where
  space : Space
  size : ℕ
  seen : List (DefineKind × String)
  defined : List String
  rejected : List String

/-- One name of `draft_symbols` and `draftSymbols`; `new Set(names)` is the `seen` of the
Worker. An ending is where the loop leaves the function. -/
def draftName (e : Engine) (isSymbolName : DefineKind → String → Bool)
    (hostDescription : DefineKind → String → String) (vocabulary : List Symbol)
    (fate : Step → Fate) (d : Draft) (symbol : DefineKind × String) : Draft × Option Ending :=
  let (kind,name) := symbol
  if d.seen.contains symbol then (d,none)
  else
    let d := { d with seen := symbol::d.seen }
    if vocabulary.any fun x => x.kind == kind && x.name == name then (d,none)
    else if !isSymbolName kind name || decide (maxSymbols ≤ d.size) then
      ({ d with rejected := d.rejected++[name] },none)
    else
      let description := hostDescription kind name
      match issue (fate (.define kind name)) d.space (Vocabulary.defined e d.space kind name) with
      | (s,.conflict) => ({ d with space := s },none)
      | (s,.ref reference) =>
        match queueSchemaReview s (fate (.reviewOf kind name)) kind reference description with
        | (s,.done) =>
          ({ d with space := s, size := d.size+1, defined := d.defined++[reference] },none)
        | (s,.stopped) => ({ d with space := s, size := d.size+1 },some .stopped)
        | (s,_) => ({ d with space := s, size := d.size+1 },some .error)
      | (s,.stopped) => ({ d with space := s },some .stopped)
      | (s,_) => ({ d with space := s },some .error)

def draftLoop (e : Engine) (isSymbolName : DefineKind → String → Bool)
    (hostDescription : DefineKind → String → String) (vocabulary : List Symbol)
    (fate : Step → Fate) : Draft → List (DefineKind × String) → Draft × Ending
  | d, [] => (d,.success)
  | d, symbol::rest =>
    match draftName e isSymbolName hostDescription vocabulary fate d symbol with
    | (d,some ending) => (d,ending)
    | (d,none) => draftLoop e isSymbolName hostDescription vocabulary fate d rest

def opened (s : Space) (vocabulary : List Symbol) : Draft := ⟨s,owned vocabulary,[],[],[]⟩

namespace Rust

def draftSymbols (e : Engine) (s : Space) (types predicates : List String)
    (fate : Step → Fate) : Draft × Ending :=
  let vocabulary := load e s
  match (fate .load).ending with
  | some ending => (opened s [],ending)
  | none => draftLoop e Kip.isSymbolName hostDescription vocabulary fate (opened s vocabulary)
      (declared types predicates)

end Rust

namespace Worker

def draftSymbols (e : Engine) (s : Space) (types predicates : List String)
    (fate : Step → Fate) : Draft × Ending :=
  let vocabulary := load e s
  match (fate .load).ending with
  | some ending => (opened s [],ending)
  | none => draftLoop e AndaBrain.Worker.isSymbolName hostDescription vocabulary fate
      (opened s vocabulary) (declared types predicates)

def declareSymbols (e : Engine) (s : Space) (types predicates : List String)
    (fate : Step → Fate) : Draft × Ending :=
  match draftSymbols e s types predicates fate with
  | (d,.success) =>
    match (fate .reload).ending with
    | some ending => (d,ending)
    | none => (d,.success)
  | broken => broken

end Worker

/-! ## Formation plans -/

def perform (e : Engine) (s : Space) : Operation → Space × Reply
  | .define kind name _ => defined e s kind name
  | .create element => created s element
  | .other => (s,.done)

namespace Rust

/-- The operations of a request under `Independent`: one failure does not keep the next one
from running. -/
def execute (e : Engine) (fate : Step → Fate) :
    Space → List (Operation × ℕ) → Space × List Reply
  | s, [] => (s,[])
  | s, (operation,position)::rest =>
    match issue (fate (.operation position)) s (perform e s operation) with
    | (s,.stopped) => (s,[.stopped])
    | (s,reply) =>
      let (s,replies) := execute e fate s rest
      (s,reply::replies)

def reviewModelDefines (fate : Step → Fate) :
    Space → List ((Operation × ℕ) × Reply) → Space × Bool
  | s, [] => (s,false)
  | s, ((.define kind _ description,position),.ref reference)::rest =>
    match queueSchemaReview s (fate (.reviewAt position)) kind reference description with
    | (s,.stopped) => (s,true)
    | (s,_) => reviewModelDefines fate s rest
  | s, _::rest => reviewModelDefines fate s rest

def answered : Reply → Bool
  | .ref _ | .done => true
  | _ => false

/-- The Formation tool under the vocabulary gate: the budget, the request, the reviews. A
plan without a DEFINE keeps its own execution mode; commands that mode stops or rolls back
are commands that fail. -/
def executeFormationPlan (e : Engine) (s : Space) (operations : List Operation)
    (fate : Step → Fate) : Space × Ending :=
  let defines := operations.filter Operation.isDefine
  let ending := if defines.isEmpty then none else (fate .load).ending
  match ending with
  | some ending => (s,ending)
  | none =>
    if !defines.isEmpty && decide (maxSymbols < owned (load e s)+defines.length) then (s,.error)
    else if !operations.all (Operation.drafted Kip.isSymbolName) then (s,.error)
    else
      let (ran,replies) := execute e fate s operations.zipIdx
      if replies.contains .stopped then (ran,.stopped)
      else
        match reviewModelDefines fate ran (operations.zipIdx.zip replies) with
        | (s,true) => (s,.stopped)
        | (s,false) => (s,if replies.all answered then .success else .error)

end Rust

namespace Worker

def executeDefines (e : Engine) (fate : Step → Fate) :
    Space → List (Operation × ℕ) → Space × Option Ending
  | s, [] => (s,none)
  | s, (.define kind name description,position)::rest =>
    match issue (fate (.operation position)) s (defined e s kind name) with
    | (s,.conflict) => executeDefines e fate s rest
    | (s,.ref reference) =>
      match queueSchemaReview s (fate (.reviewAt position)) kind reference description with
      | (s,.done) => executeDefines e fate s rest
      | (s,.stopped) => (s,some .stopped)
      | (s,_) => (s,some .error)
    | (s,.stopped) => (s,some .stopped)
    | (s,_) => (s,some .error)
  | s, _::rest => executeDefines e fate s rest

def executeWrites (e : Engine) (fate : Step → Fate) :
    Space → List (Operation × ℕ) → Space × Ending
  | s, [] => (s,.success)
  | s, (operation,position)::rest =>
    match issue (fate (.operation position)) s (perform e s operation) with
    | (s,.stopped) => (s,.stopped)
    | (s,reply) => if Rust.answered reply then executeWrites e fate s rest else (s,.error)

def executeFormationPlan (e : Engine) (s : Space) (operations : List Operation)
    (fate : Step → Fate) : Space × Ending :=
  if !operations.all (Operation.drafted AndaBrain.Worker.isSymbolName) then (s,.error)
  else
    let defines := operations.zipIdx.filter (·.1.isDefine)
    let writes := operations.zipIdx.filter (!·.1.isDefine)
    let ending := if defines.isEmpty then none else (fate .load).ending
    match ending with
    | some ending => (s,ending)
    | none =>
      if !defines.isEmpty && decide (maxSymbols < owned (load e s)+defines.length) then
        (s,.error)
      else
        match executeDefines e fate s defines with
        | (s,some ending) => (s,ending)
        | (s,none) => executeWrites e fate s writes

end Worker

/-! ## Runs -/

inductive Deployment where
  | rust
  | worker
  deriving DecidableEq

structure Turn where
  call : Call
  fate : Step → Fate

def turn (d : Deployment) (e : Engine) (s : Space) (t : Turn) : Space × Ending :=
  match d, t.call with
  | .rust, .plan operations => Rust.executeFormationPlan e s operations t.fate
  | .worker, .plan operations => Worker.executeFormationPlan e s operations t.fate
  | .rust, .names types predicates =>
    let (d,ending) := Rust.draftSymbols e s types predicates t.fate
    (d.space,ending)
  | .worker, .names types predicates =>
    let (d,ending) := Worker.declareSymbols e s types predicates t.fate
    (d.space,ending)

end AndaBrain.Vocabulary
