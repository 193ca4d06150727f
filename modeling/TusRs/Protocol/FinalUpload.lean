import TusRs.Protocol.Receive
import TusRs.Protocol.UploadId

/-!
# Final uploads

`tus-protocol/src/lifecycle/final_upload.rs`: a final upload is planned over partial
uploads, created, and materialised by concatenation when all of them are complete, at
creation or by a later read.
-/

namespace TusRs

open Interaction

namespace Protocol

variable {O : Sig} {α : Type}

/-- `FinalUploadStatus`. -/
structure FinalUploadStatus where
  totalLength : Option Nat
  currentOffset : Nat
  allComplete : Bool
deriving DecidableEq

namespace FinalUploadStatus

def expectedOffset (s : FinalUploadStatus) : Nat :=
  if s.allComplete then s.totalLength.getD s.currentOffset else s.currentOffset

def readyToMaterialize (s : FinalUploadStatus) : Bool := s.allComplete && s.totalLength.isSome

end FinalUploadStatus

/-- `FinalUploadPlan`. -/
structure FinalUploadPlan where
  partIds : List String
  parts : List UploadState
  status : FinalUploadStatus

/-! ## Parts -/

/-- The running values of `summarize_final_parts`. -/
structure PartsSummary where
  totalLength : Nat
  currentOffset : Nat
  allComplete : Bool
  lengthKnown : Bool

/-- One part of `summarize_final_parts`. -/
def PartsSummary.add (s : PartsSummary) (part : UploadState) : PartsSummary where
  totalLength := match part.length with
    | some length => satAdd s.totalLength length
    | none => s.totalLength
  currentOffset := satAdd s.currentOffset part.offset
  allComplete := s.allComplete && part.length.isSome && part.isComplete
  lengthKnown := s.lengthKnown && part.length.isSome

def PartsSummary.status (s : PartsSummary) : FinalUploadStatus where
  totalLength := if s.lengthKnown then some s.totalLength else none
  currentOffset := s.currentOffset
  allComplete := s.allComplete && s.lengthKnown

/-- `summarize_final_parts` from the running values; every part is checked for expiration
again. -/
def summarizeFrom : PartsSummary → List UploadState → HostM O FinalUploadStatus
  | summary, [] => pure summary.status
  | summary, part :: parts => do
    let expired ← isExpired part
    if expired then throw (.expired part.id) else summarizeFrom (summary.add part) parts

def summarizeFinalParts (parts : List UploadState) : HostM O FinalUploadStatus :=
  summarizeFrom ⟨0, 0, true, true⟩ parts

/-- The path of a URL: what follows the authority of an absolute one. -/
def urlPath (url : List Char) : Option (List Char) :=
  match splitOnce url with
  | some rest => if rest.contains '/' then some (rest.dropWhile (· ≠ '/')) else none
  | none => some url
where
  /-- `split_once("://")`: what follows the first separator. -/
  splitOnce : List Char → Option (List Char)
    | [] => none
    | c :: cs => if "://".toList.isPrefixOf (c :: cs) then some (cs.drop 2) else splitOnce cs

/-- `extract_partial_id`. -/
def extractPartialId (url basePath : String) : Option String := do
  let path ← urlPath url.toList
  let path := path.takeWhile fun c => c ≠ '?' && c ≠ '#'
  let base := basePath.toList
  let start := if base.getLast? = some '/' then base else base ++ ['/']
  if start.isPrefixOf path then
    let id := path.drop start.length
    if id.isEmpty || id.contains '/' then none
    else (UploadId.parse (String.ofList id)).toOption
  else none

/-- One part of `load_final_upload_plan`. -/
def loadPart (config : Config) (url : String) : HostM O UploadState :=
  match extractPartialId url config.basePath with
  | none =>
    let basePath := config.basePath
    throw (.invalidHeader "Upload-Concat" s!"partial URL not under base path {basePath}: {url}")
  | some id =>
    Prog.step (.stateGet id) fun (r : Except Error (Option UploadState)) =>
      match r with
      | .error e => .done (.error e)
      | .ok none => .done (.error (.invalidHeader "Upload-Concat" s!"partial upload not found: {id}"))
      | .ok (some part) =>
        if !part.isPartial then .done (.error (.notPartialUpload id))
        else if !part.isComplete && !config.hasExtension .concatenationUnfinished then
          .done (.error (.incompleteUpload id))
        else .step .now fun (now : Nat) =>
          if part.expiresBefore now then .done (.error (.expired id)) else .done (.ok part)

def loadParts (config : Config) : List String → HostM O (List UploadState)
  | [] => pure []
  | url :: urls => do
    let part ← loadPart config url
    let parts ← loadParts config urls
    pure (part :: parts)

/-- `load_final_upload_plan`: the ids are those of the URLs. -/
def loadFinalUploadPlan (config : Config) (partUrls : List String) : HostM O FinalUploadPlan := do
  let parts ← loadParts config partUrls
  let status ← summarizeFinalParts parts
  pure ⟨partUrls.filterMap fun url => extractPartialId url config.basePath, parts, status⟩

/-- The parts of a persisted final upload; a missing or expired one expires it. -/
def loadStatusParts (id : String) : List String → HostM O (List UploadState)
  | [] => pure []
  | partId :: partIds =>
    Prog.step (.stateGet partId) fun (r : Except Error (Option UploadState)) =>
      match r with
      | .error e => .done (.error e)
      | .ok none => .done (.error (.expired id))
      | .ok (some part) => .step .now fun (now : Nat) =>
        if part.expiresBefore now then .done (.error (.expired id))
        else Prog.bind (loadStatusParts id partIds) fun
          | .error e => .done (.error e)
          | .ok parts => .done (.ok (part :: parts))

/-- `load_final_upload_status`. -/
def loadFinalUploadStatus (state : UploadState) : HostM O (Option FinalUploadPlan) :=
  match state.parts with
  | none => pure none
  | some partIds => do
    let parts ← loadStatusParts state.id partIds
    Prog.bind (summarizeFinalParts parts) fun
      | .ok status => .done (.ok (some ⟨partIds, parts, status⟩))
      | .error (.expired _) => .done (.error (.expired state.id))
      | .error e => .done (.error e)

/-! ## Locks of the parts -/

def unlockAll : List String → Prog (Host O) Unit
  | [] => .done ()
  | id :: ids => .step (.unlock id) fun _ => unlockAll ids

/-- `lock_parts` over the sorted ids, then `body`; the guards in `held` are dropped on every
path. -/
def lockPartsThen (body : HostM O α) : List String → List String → HostM O α
  | held, [] => Prog.bind body fun result => Prog.bind (unlockAll held) fun _ => .done result
  | held, id :: ids => Prog.step (.tryLock id) fun (r : Except Error Bool) =>
    match r with
    | .error e => Prog.bind (unlockAll held) fun _ => .done (.error e)
    | .ok false => Prog.bind (unlockAll held) fun _ => .done (.error (.locked id))
    | .ok true => lockPartsThen body (id :: held) ids

/-- `lock_parts`: the ids sorted, without repetition. -/
def withPartLocks (partIds : List String) (body : HostM O α) : HostM O α :=
  lockPartsThen body [] (partIds.mergeSort fun a b => decide (a ≤ b)).dedup

/-! ## Materialisation -/

/-- `storage_size`. -/
def storageSize (storage : Storage O) (state : UploadState) : HostM O Nat :=
  match state.handle with
  | some handle => do
    let stored ← storage.size handle
    pure (stored.getD 0)
  | none => pure 0

/-- `materialize_final_upload`. -/
def materializeFinalUpload (storage : Storage O) (state : UploadState)
    (parts : List UploadState) : HostM O UploadState := do
  let target ← Attempt.lift state.requireStorageHandle
  let sources ← Attempt.lift (parts.mapM UploadState.requireStorageHandle)
  let handle ← storage.concat target sources
  pure (state.setStorageHandle handle)

/-- `enforce_final_upload_size`: only on the creation path, and only when the total is
known. -/
def enforceFinalUploadSize (config : Config) (status : FinalUploadStatus) : Except Error Unit :=
  match status.totalLength with
  | some total => enforce config.maxSize total
  | none => .ok ()

/-- `apply_final_upload_plan`. -/
def applyFinalUploadPlan (state : UploadState) (partIds : List String)
    (status : FinalUploadStatus) : UploadState :=
  let state := state.markFinal partIds
  let state := match status.totalLength with
    | some total => state.setLength total
    | none => state
  state.setOffset status.expectedOffset

/-- `cap_planned_final_upload_expiration`. -/
def capPlannedFinalUploadExpiration (state : UploadState) (parts : List UploadState) :
    UploadState :=
  if state.isComplete then state
  else match (parts.filterMap UploadState.expiresAt).min? with
    | none => state
    | some earliest =>
      if state.expiresAt.all fun t => decide (earliest < t) then state.setExpiration earliest
      else state

/-- `create_final_upload` from the plan on. -/
def createPlanned (server : Server O) (state : UploadState) (plan : FinalUploadPlan) :
    HostM O (UploadState × FinalUploadStatus × List (String × String)) := do
  Attempt.lift (enforceFinalUploadSize server.config plan.status)
  let state := applyFinalUploadPlan state plan.partIds plan.status
  let state := capPlannedFinalUploadExpiration state plan.parts
  let (state, responseHeaders) ← PreHookGate.create.run state
  if plan.status.allComplete then finishGate state else pure ()
  let handle ← server.storage.create state.id
  let state := state.setStorageHandle handle
  let materialized ←
    if plan.status.readyToMaterialize then
      Attempt.outcome (materializeFinalUpload server.storage state plan.parts)
    else pure (.ok state)
  match materialized with
  | .error e => failAfter (rollbackStorage server.storage state) e
  | .ok state =>
    match ← Attempt.outcome (setState state .createNew) with
    | .error e => failAfter (rollbackStorage server.storage state) e
    | .ok _ =>
      runPostEvent .postCreate state
      if plan.status.allComplete then afterCommit state else pure ()
      pure (state, plan.status, responseHeaders)

/-- `create_final_upload`: the parts are loaded again under their locks. -/
def createFinalUpload (server : Server O) (state : UploadState) (partUrls : List String) :
    HostM O (UploadState × FinalUploadStatus × List (String × String)) := do
  let plan ← loadFinalUploadPlan server.config partUrls
  if plan.status.readyToMaterialize then
    withPartLocks plan.partIds do
      let plan ← loadFinalUploadPlan server.config partUrls
      createPlanned server state plan
  else createPlanned server state plan

/-- `PlannedFinalUploadRefresh`: the plan and the size of the final object, when it is due. -/
structure PlannedFinalUploadRefresh where
  parts : List UploadState
  status : FinalUploadStatus
  actualSize : Option Nat

namespace PlannedFinalUploadRefresh

def inspect (storage : Storage O) (state : UploadState) (parts : List UploadState)
    (status : FinalUploadStatus) : HostM O PlannedFinalUploadRefresh :=
  if status.readyToMaterialize then do
    let size ← storageSize storage state
    pure ⟨parts, status, some size⟩
  else pure ⟨parts, status, none⟩

def needsMaterialization (r : PlannedFinalUploadRefresh) : Bool :=
  match r.actualSize, r.status.totalLength with
  | some actual, some total => decide (actual ≠ total)
  | _, _ => false

def willComplete (r : PlannedFinalUploadRefresh) (state : UploadState) : Bool :=
  r.status.readyToMaterialize && (!state.isComplete || r.needsMaterialization)

/-- `completed_state`; only used when the total length is known. -/
def completedState (r : PlannedFinalUploadRefresh) (state : UploadState) : UploadState :=
  match r.status.totalLength with
  | some total => (state.setLength total).setOffset total
  | none => state

def refreshLength (r : PlannedFinalUploadRefresh) (state : UploadState) : UploadState × Bool :=
  match r.status.totalLength with
  | none => (state, false)
  | some total => if state.length = some total then (state, false) else (state.setLength total, true)

def refreshOffset (r : PlannedFinalUploadRefresh) (state : UploadState) : UploadState × Bool :=
  if state.offset = r.status.expectedOffset then (state, false)
  else (state.setOffset r.status.expectedOffset, true)

end PlannedFinalUploadRefresh

/-- `repair_final_upload` from the plan on. -/
def repairPlanned (storage : Storage O) (state : UploadState) (plan : FinalUploadPlan) :
    HostM O UploadState := do
  let refresh ← PlannedFinalUploadRefresh.inspect storage state plan.parts plan.status
  let (state, lengthChanged) := refresh.refreshLength state
  let willComplete := refresh.willComplete state
  if willComplete then finishGate (refresh.completedState state) else pure ()
  let state ←
    if refresh.needsMaterialization then materializeFinalUpload storage state refresh.parts
    else pure state
  let (state, offsetChanged) := refresh.refreshOffset state
  if lengthChanged || refresh.needsMaterialization || offsetChanged then setState state .update
  else pure ()
  if willComplete then afterCommit state else pure ()
  pure state

/-- `repair_final_upload`. -/
def repairFinalUpload (storage : Storage O) (state : UploadState) : HostM O UploadState := do
  match ← loadFinalUploadStatus state with
  | none => pure state
  | some plan =>
    if plan.status.readyToMaterialize then
      withPartLocks plan.partIds do
        match ← loadFinalUploadStatus state with
        | none => pure state
        | some plan => repairPlanned storage state plan
    else repairPlanned storage state plan

/-- `recover_materialized_final_upload`: the state and whether it was materialised. -/
def recoverMaterializedFinalUpload (storage : Storage O) (state : UploadState) :
    HostM O (UploadState × Bool) :=
  match state.length, state.handle with
  | some length, some handle => do
    let stored ← storage.size handle
    if stored.getD 0 ≠ length then pure (state, false)
    else if state.offset ≠ length then do
      setState (state.setOffset length) .update
      pure (state.setOffset length, true)
    else pure (state, true)
  | _, _ => pure (state, false)

/-- `FinalUploadMaterializer::prepare_read`. -/
def prepareRead (storage : Storage O) (state : UploadState) : HostM O UploadState :=
  if !state.isFinal then pure state
  else do
    let (state, materialized) ← recoverMaterializedFinalUpload storage state
    if materialized then pure state
    else do
      ensureActive state
      repairFinalUpload storage state

/-- `prepare_upload_read_access`. -/
def prepareUploadReadAccess (storage : Storage O) (state : UploadState) :
    HostM O UploadState :=
  if state.isFinal then do
    let state ← prepareRead storage state
    ensureActive state
    pure state
  else prepareRegularUploadAccess storage state

end Protocol

end TusRs
