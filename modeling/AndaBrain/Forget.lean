import AndaBrain.KipError
import AndaBrain.ProductChanges
import AndaBrain.Foundation.SortBy
import Mathlib.Data.Finset.Sort

/-!
# Forgetting a target

`memory_interface/forget.rs`, the run of an ErasurePlan.
-/

set_option autoImplicit false

namespace AndaBrain.Forget
open Product Foundation.SortBy

inductive ForgetMode where
  | payloadOnly
  | semantic
  deriving DecidableEq

inductive ForgetStatus where
  | completed
  | incomplete
  | blocked
  | pending
  deriving DecidableEq

structure ForgetInput where
  targetRef : String
  mode : ForgetMode
  deriving DecidableEq

inductive ElementKind where
  | concept
  | proposition
  | assertion
  | evidence
  | activity
  deriving DecidableEq

structure StagedSource where
  sourceRef : String
  sourceDigest : String
  deriving DecidableEq

structure SourceTargets where
  evidence : List String
  ownedConcepts : List String
  conversations : Finset String
  incomplete : Bool

structure ErasedTarget where
  reference : String
  surface : String
  state : String
  deriving DecidableEq

inductive PurgeReply where
  | succeeded (purged : List String)
  | failed (message : String)

/-- The answers to the calls that a direct purge of one target makes. -/
structure Answer where
  state : Except KipError ElementState
  row : Option KipError
  source : Option KipError
  keys : Option KipError
  reply : Except KipError PurgeReply
  applied : Bool

structure Deletion where
  result : Except String (List (String × String) × Finset String)
  control : ControlState
  held : Bool

structure Host where
  parseId : String → Option ElementKind
  sourceKeys : String → Finset String
  stagedSource : Except KipError StagedSource
  targetsOfSource : Except KipError SourceTargets
  targetElement : Except KipError (Bool × ElementState)
  assertionsOn : Except KipError (List String)
  assertionsCiting : String → Except KipError (List String)
  deletions : ℕ → Deletion
  payloads : ℕ → Except KipError PurgeReply
  answers : ℕ → Answer
  save : Option KipError
  eraseStaged : String → Option KipError
  scrubConversation : ℕ → Except KipError Bool
  scrubRecall : Except KipError ℕ
  memorySeq : Except KipError ℕ
  deliveredBases : List String
  validatePlan : Option String
  putPlan : Option KipError

/-- What a run leaves behind: the control state and the elements that a direct
PURGE erased, in order. -/
structure World where
  control : ControlState
  purged : List String

structure Acc where
  nexusTargets : List ErasedTarget
  hostSurfaces : List ErasedTarget
  sourceRoots : List String
  erasedIds : List String
  suppressed : Finset String
  incomplete : Option String

def Acc.empty : Acc := ⟨[],[],[],[],∅,none⟩

inductive Halt where
  | error (e : KipError)
  | blocked (summary : String) (acc : Acc)

def notFound : KipError := ⟨.notFoundOrNotVisible,"forget target not found"⟩

structure Located where
  staged : Option String
  evidenceTargets : List String
  ownedConcepts : List String
  acc : Acc

def stagedKeys (source : StagedSource) : Finset String :=
  {"memory-source:"++source.sourceRef,"memory-source-digest:"++source.sourceDigest}

/-- The staged source a target names and the Evidence captured from it, or the
element it names. -/
def locate (host : Host) (input : ForgetInput) : Except KipError Located :=
  if startsWithText input.targetRef "src-" then do
    let source ← host.stagedSource
    let targets ← host.targetsOfSource
    let acc := { Acc.empty with suppressed := stagedKeys source }
    match input.mode with
    | .payloadOnly => pure ⟨some source.sourceRef,targets.evidence,[],acc⟩
    | .semantic =>
      pure ⟨some source.sourceRef,targets.evidence,targets.ownedConcepts,
        { acc with
          suppressed := acc.suppressed ∪ targets.conversations
          incomplete := if targets.incomplete then
              some "some source outputs have no complete ownership trace or are still processing"
            else none }⟩
  else
    match host.parseId input.targetRef with
    | none => .error notFound
    | some kind =>
      match host.targetElement with
      | .ok (true,.purged) => .error notFound
      | .ok (true,_) =>
        .ok ⟨none,if kind = .evidence then [input.targetRef] else [],[],Acc.empty⟩
      | _ => .error notFound

def holdMessage (message : String) : Bool :=
  containsText message "LegalHold" || containsText message "legal hold"

def purgePayloads (host : Host) : ℕ → List String → Acc → Except Halt Acc
  | _, [], acc => .ok acc
  | i, evidence::rest, acc =>
    match host.payloads i with
    | .error e => .error (.error e)
    | .ok (.failed message) =>
      if holdMessage message then
        .error (.blocked ("a legal hold retains "++evidence) acc)
      else .error (.error ⟨.internalError,message⟩)
    | .ok (.succeeded _) =>
      purgePayloads host (i + 1) rest
        { acc with nexusTargets := acc.nexusTargets++[⟨evidence,"payload","erased"⟩] }

def erasePayloads (host : Host) (located : Located) : Except Halt Acc :=
  if located.evidenceTargets.isEmpty && located.staged.isNone then
    .error (.error ⟨.constraintViolation,
      "payload_only forgets an Evidence payload or a staged source"⟩)
  else purgePayloads host 0 located.evidenceTargets located.acc

def citing (host : Host) : List String → Except KipError (List String)
  | [] => .ok []
  | evidence::rest => do
    let first ← host.assertionsCiting evidence
    let others ← citing host rest
    pure (first++others)

/-- A claim goes through product deletion; so does any Evidence a claim cites. -/
def claimsOf (host : Host) (input : ForgetInput) (evidenceTargets : List String) :
    Except KipError (List String) := do
  let named ←
    if startsWithText input.targetRef "A-" then pure [input.targetRef]
    else if startsWithText input.targetRef "P-" then host.assertionsOn
    else pure []
  let cited ← citing host evidenceTargets
  pure (dedupAdjacent (sortBy (fun a b => decide (a ≤ b)) (named++cited)))

def Acc.deleted (acc : Acc) (targets : List (String × String)) (sources : Finset String) : Acc :=
  { acc with
    sourceRoots := acc.sourceRoots++(targets.filter fun t => t.2 == "evidence").map Prod.fst
    nexusTargets := acc.nexusTargets++targets.map fun t => ⟨t.1,"element","erased"⟩
    erasedIds := acc.erasedIds++targets.map Prod.fst
    suppressed := acc.suppressed ∪ sources }

def deleteClaims (host : Host) : ℕ → List String → Acc → World → Except Halt Acc × World
  | _, [], acc, w => (.ok acc,w)
  | i, claim::rest, acc, w =>
    if claim ∈ acc.erasedIds then deleteClaims host (i + 1) rest acc w
    else
      let deletion := host.deletions i
      let w := { w with control := deletion.control }
      match deletion.result with
      | .ok (targets,sources) => deleteClaims host (i + 1) rest (acc.deleted targets sources) w
      | .error e =>
        if containsText e "unsupported_scope" then
          if deletion.held then
            (.error (.blocked ("a legal hold retains "++claim++" or its closure") acc),w)
          else
            deleteClaims host (i + 1) rest
              { acc with
                incomplete := some
                  (claim++"'s sources cannot be verified, so it was not erased")
                nexusTargets := acc.nexusTargets++[⟨claim,"element","pending"⟩] } w
        else (.error (.error (kipError e)),w)

/-- Anything the product deletion did not reach: the target itself, uncited
Evidence, or narrative memory the source owns. -/
def directTargets (input : ForgetInput) (located : Located) (claims : List String)
    (acc : Acc) : List String :=
  (located.evidenceTargets.filter fun id => decide (id ∉ acc.erasedIds))++
  (located.ownedConcepts.filter fun id => decide (id ∉ acc.erasedIds))++
  (if !startsWithText input.targetRef "src-" && decide (input.targetRef ∉ acc.erasedIds) &&
      decide (input.targetRef ∉ claims) then [input.targetRef] else [])

def isEvidence (host : Host) (id : String) : Bool := host.parseId id == some .evidence

def Acc.learn (acc : Acc) (host : Host) (id : String) (answer : Answer) : Acc :=
  if isEvidence host id && answer.row.isNone then
    { acc with
      suppressed := if answer.keys.isNone then acc.suppressed ∪ host.sourceKeys id
        else acc.suppressed
      sourceRoots := acc.sourceRoots++[id] }
  else acc

def unverifiedCopies : String :=
  " was purged, but the sources it was formed from were not enumerated, so erasure of their copies is not verified"

def Acc.erased (acc : Acc) (owned : List String) (id : String) (purged : List String) : Acc :=
  let acc := { acc with
    nexusTargets := acc.nexusTargets++purged.map fun p => ⟨p,"element","erased"⟩
    erasedIds := acc.erasedIds++purged }
  if !startsWithText id "E-" && decide (id ∉ owned) && acc.sourceRoots.isEmpty &&
      acc.incomplete.isNone then
    { acc with incomplete := some (id++unverifiedCopies) }
  else acc

def World.record (w : World) (id : String) : World := { w with purged := w.purged++[id] }

def purgeDirect (host : Host) (owned : List String) :
    ℕ → List String → Acc → World → Except Halt Acc × World
  | _, [], acc, w => (.ok acc,w)
  | i, id::rest, acc, w =>
    let answer := host.answers i
    match answer.state with
    | .error e => (.error (.error e),w)
    | .ok .purged => purgeDirect host owned (i + 1) rest acc w
    | .ok _ =>
      match (if isEvidence host id && answer.row.isNone then answer.source else none) with
      | some e => (.error (.error e),w)
      | none =>
        let acc := acc.learn host id answer
        match answer.reply with
        | .ok (.succeeded purged) =>
          purgeDirect host owned (i + 1) rest (acc.erased owned id purged) (w.record id)
        | .ok (.failed message) =>
          let w := if answer.applied then w.record id else w
          if holdMessage message then
            (.error (.blocked ("a legal hold retains "++id) acc),w)
          else (.error (.error ⟨.internalError,message⟩),w)
        | .error e =>
          (.error (.error e),if answer.applied then w.record id else w)

def suppressSources (host : Host) (keys : Finset String) (w : World) :
    Except KipError Unit × World :=
  match w.control.suppress keys with
  | none => (.ok (),w)
  | some control =>
    if control.suppressed.card > suppressionCapacity then
      (.error ⟨.resultLimitExceeded,"source suppression capacity exhausted"⟩,w)
    else
      match host.save with
      | some e => (.error e,w)
      | none => (.ok (),{ w with control })

def saveSuppressed (host : Host) (acc : Acc) (w : World) : Except Halt Acc × World :=
  if acc.suppressed = ∅ then (.ok acc,w)
  else
    match suppressSources host acc.suppressed w with
    | (.error e,w) => (.error (.error e),w)
    | (.ok _,w) => (.ok acc,w)

def purgeAndSave (host : Host) (owned ids : List String) (acc : Acc) (w : World) :
    Except Halt Acc × World :=
  match purgeDirect host owned 0 ids acc w with
  | (.error halt,w) => (.error halt,w)
  | (.ok acc,w) => saveSuppressed host acc w

def eraseSemantic (host : Host) (input : ForgetInput) (located : Located) (w : World) :
    Except Halt Acc × World :=
  match claimsOf host input located.evidenceTargets with
  | .error e => (.error (.error e),w)
  | .ok claims =>
    match deleteClaims host 0 claims located.acc w with
    | (.error halt,w) => (.error halt,w)
    | (.ok acc,w) =>
      purgeAndSave host located.ownedConcepts (directTargets input located claims acc) acc w

structure ErasurePlan where
  scope : String
  basisSeq : ℕ
  sourceEventRefs : List String
  targets : List ErasedTarget
  externalExports : List String
  status : ForgetStatus
  receipts : List String

/-- `completed` is claimed only when the engine accepts the plan and every host
copy is erased. -/
def verifiedStatus (host : Host) (acc : Acc) (status : ForgetStatus) (summary : String) :
    ForgetStatus × String :=
  if status = .completed then
    match host.validatePlan with
    | some e => (.incomplete,"the erasure could not be verified complete: "++e)
    | none =>
      if acc.hostSurfaces.any fun s => s.state != "erased" then
        (.incomplete,"some host copies could not be verified erased")
      else (status,summary)
  else (status,summary)

def finishPlan (host : Host) (receiptRef scope : String) (acc : Acc) (status : ForgetStatus)
    (summary : String) : Except KipError (ForgetStatus × String × ErasurePlan) := do
  let seq ← host.memorySeq
  let roots := dedupAdjacent (sortBy (fun a b => decide (a ≤ b)) acc.sourceRoots)
  let (status,summary) := verifiedStatus host acc status summary
  match host.putPlan with
  | some e => .error e
  | none => pure (status,summary,⟨scope,seq,roots,acc.nexusTargets,host.deliveredBases,status,[receiptRef]⟩)

def eraseStagedAll (host : Host) : List String → Acc → Except KipError Acc
  | [], acc => .ok acc
  | ref::rest, acc =>
    match host.eraseStaged ref with
    | some e => .error e
    | none =>
      eraseStagedAll host rest
        { acc with hostSurfaces := acc.hostSurfaces++[⟨ref,"blob","erased"⟩] }

def scrubConversations (host : Host) : List ℕ → Acc → Except KipError Acc
  | [], acc => .ok acc
  | id::rest, acc => do
    let done ← host.scrubConversation id
    let state := if done then "erased" else "unavailable"
    scrubConversations host rest
      { acc with hostSurfaces :=
          acc.hostSurfaces++[⟨"formation:"++toString id,"replay",state⟩] }

def keysNaming (sort : String) (suppressed : Finset String) : List String :=
  ((suppressed.sort (· ≤ ·)).filter fun key => startsWithText key sort).map fun key =>
    String.ofList (key.toList.drop sort.length)

def parseU64 (text : String) : Option ℕ :=
  let digits := if startsWithText text "+" then text.toList.drop 1 else text.toList
  if digits.isEmpty || digits.any fun c => !c.isDigit then none
  else
    let n := digits.foldl (fun n c => 10*n + (c.toNat - 48)) 0
    if n < 2^64 then some n else none

def eraseCopies (host : Host) (staged : Option String) (acc : Acc) : Except KipError Acc := do
  let stagedRefs := dedupAdjacent (sortBy (fun a b => decide (a ≤ b))
    (keysNaming "memory-source:" acc.suppressed++staged.toList))
  let conversations := dedupAdjacent (sortBy (fun a b => decide (a ≤ b))
    ((keysNaming "formation:" acc.suppressed).filterMap parseU64))
  let acc ← eraseStagedAll host stagedRefs acc
  let acc ← scrubConversations host conversations acc
  if acc.erasedIds.isEmpty then pure acc
  else
    let scrubbed ← host.scrubRecall
    pure { acc with hostSurfaces := acc.hostSurfaces++
      [⟨"recall-transcripts:"++toString scrubbed,"summary","erased"⟩,
       ⟨"usage-ledger","cache","erased"⟩] }

def ForgetMode.scope : ForgetMode → String
  | .payloadOnly => "payload_only"
  | .semantic => "semantic_forgetting"

def finalStatus (acc : Acc) : ForgetStatus × String :=
  match acc.incomplete with
  | some reason => (.incomplete,reason)
  | none => (.completed,"Erased "++toString acc.nexusTargets.length++
      " element(s) or payload(s) and "++toString acc.hostSurfaces.length++
      " host copy surface(s).")

def erase (host : Host) (receiptRef : String) (input : ForgetInput) (w : World) :
    Except KipError (ForgetStatus × String × ErasurePlan) × World :=
  match locate host input with
  | .error e => (.error e,w)
  | .ok located =>
    match (match input.mode with
      | .semantic => eraseSemantic host input located w
      | .payloadOnly => (erasePayloads host located,w)) with
    | (.error (.error e),w) => (.error e,w)
    | (.error (.blocked summary acc),w) =>
      (finishPlan host receiptRef input.mode.scope acc .blocked summary,w)
    | (.ok acc,w) =>
      match eraseCopies host located.staged acc with
      | .error e => (.error e,w)
      | .ok acc =>
        let (status,summary) := finalStatus acc
        (finishPlan host receiptRef input.mode.scope acc status summary,w)

end AndaBrain.Forget
