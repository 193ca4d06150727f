import TusRs.Protocol.Host

/-!
# Receiving bytes

`tus-protocol/src/lifecycle/recovery.rs`, `receive.rs` and `termination.rs`: reconciling the
record of an upload with its stored bytes, the PATCH and Creation-With-Upload bodies, and
termination. A `&mut UploadState` is passed in and returned.
-/

namespace TusRs

open Interaction

namespace Protocol

variable {O : Sig}

/-! ## Recovery -/

/-- `detect_stored_completion`: the length, when the stored bytes have reached it. -/
def detectStoredCompletion (storage : Storage O) (state : UploadState) : HostM O (Option Nat) :=
  if state.isComplete || state.isPartial then pure none
  else match state.length, state.handle with
    | some length, some handle => do
      let stored ← storage.size handle
      let actualOffset := stored.getD 0
      if actualOffset > length then
        throw (.internal s!"storage size {actualOffset} exceeds declared length {length} for upload {state.id}")
      else if actualOffset ≠ length then pure none
      else pure (some length)
    | _, _ => pure none

/-- `reconcile_stored_completion`. -/
def reconcileStoredCompletion (storage : Storage O) (state : UploadState) :
    HostM O UploadState := do
  match ← detectStoredCompletion storage state with
  | none => pure state
  | some length =>
    let completed := state.setOffset length
    finishGate completed
    setState completed .update
    afterCommit completed
    pure completed

/-- `reconcile_storage_offset`. -/
def reconcileStorageOffset (storage : Storage O) (state : UploadState) :
    HostM O UploadState := do
  let stored ← match state.handle with
    | some handle => storage.size handle
    | none => pure none
  let actualOffset := stored.getD 0
  if actualOffset = state.offset then pure state
  else match state.length with
    | some length =>
      if actualOffset > length then
        throw (.internal s!"storage size {actualOffset} exceeds declared length {length} for upload {state.id}")
      else do
        setState (state.setOffset actualOffset) .update
        pure (state.setOffset actualOffset)
    | none => do
      setState (state.setOffset actualOffset) .update
      pure (state.setOffset actualOffset)

/-- `prepare_regular_upload_access`. -/
def prepareRegularUploadAccess (storage : Storage O) (state : UploadState) :
    HostM O UploadState := do
  let state ← reconcileStoredCompletion storage state
  ensureActive state
  reconcileStorageOffset storage state

/-- `prepare_upload_mutation_access`. -/
def prepareUploadMutationAccess (storage : Storage O) (state : UploadState) :
    HostM O UploadState :=
  if state.isFinal then do
    ensureActive state
    throw (.finalUploadModificationForbidden state.id)
  else prepareRegularUploadAccess storage state

/-! ## Bodies -/

structure ReceiveRequest where
  clientOffset : Nat
  uploadLength : Option Nat

/-- `prepare_receive`: the checks of a PATCH and the length it may declare. -/
def prepareReceive (config : Config) (state : UploadState) (request : ReceiveRequest) :
    HostM O UploadState := do
  ensureActive state
  if state.isFinal then throw (.finalUploadModificationForbidden state.id)
  else if state.isComplete then throw (.completedUploadModificationForbidden state.id)
  else if request.clientOffset ≠ state.offset then
    throw (.offsetMismatch state.offset request.clientOffset)
  else do
    let length ← Attempt.lift (resolveLength config state.length request.uploadLength)
    pure { state with length := length }

/-- `PreparedReceiveBody`. -/
structure PreparedReceiveBody where
  data : ChunkStream
  projection : ReceiveProjection
  responseHeaders : List (String × String)
  deferredError : Option Error

/-- Intake and projection of a body for an upload. -/
def intake (server : Server O) (headers : Headers) (state : UploadState) (body : RequestBody)
    (kind : ReceiveBodyKind) : Except Error (IntakeBody × ReceiveProjection) := do
  let limit := receiveBodyLimit server.config state.length state.offset kind
  let collected ← prepare server.digests server.config headers limit body
  let projection ←
    validateBodyForReceive server.config state.length state.offset collected.size kind
  pure (collected, projection)

/-- `prepare_receive_body`. -/
def prepareReceiveBody (server : Server O) (headers : Headers) (state : UploadState)
    (body : RequestBody) (kind : ReceiveBodyKind) :
    HostM O (UploadState × PreparedReceiveBody) := do
  let (state, responseHeaders) ← PreHookGate.receive.run state
  let (collected, projection) ← Attempt.lift (intake server headers state body kind)
  pure (state, ⟨collected.data, projection, responseHeaders, collected.deferred⟩)

/-- `commit_receive_body`: the state as the caller's variable holds it afterwards, and the
result. A stream error that made the append fail is reported as the validation error it
stands for. -/
def commitReceiveBody (storage : Storage O) (state : UploadState)
    (prepared : PreparedReceiveBody) : Prog (Host O) (UploadState × Except Error Unit) :=
  match state.requireStorageHandle with
  | .error e => .done (state, .error e)
  | .ok handle =>
    Prog.bind (storage.append handle state.offset prepared.data
        prepared.projection.completesUpload) fun
      | .error (.io e) => .done (state, .error (prepared.deferredError.getD (.io e)))
      | .error e => .done (state, .error e)
      | .ok handle =>
        match prepared.deferredError with
        | some e => .done (state, .error e)
        | none =>
          let committed :=
            (state.setStorageHandle handle).setOffset prepared.projection.projectedOffset
          .step (.stateSet committed .update) fun (r : Except Error Unit) => .done (committed, r)

/-- `ByteReceiver::receive_patch`. -/
def receivePatch (server : Server O) (headers : Headers) (state : UploadState)
    (request : ReceiveRequest) (body : RequestBody) :
    HostM O (UploadState × List (String × String)) := do
  let state ← prepareReceive server.config state request
  let (state, prepared) ← prepareReceiveBody server headers state body .patch
  let (state, result) ← Attempt.always (commitReceiveBody server.storage state prepared)
  Attempt.lift result
  runPostEvent .postReceive state
  if prepared.projection.completesUpload then do
    -- the completing bytes are durable: a rejection cannot undo them
    finishGate state
    afterCommit state
    pure (state, prepared.responseHeaders)
  else pure (state, prepared.responseHeaders)

/-- `rollback_storage`: failures are only logged. -/
def rollbackStorage (storage : Storage O) (state : UploadState) : HostM O Unit :=
  match state.handle with
  | some handle => do
    let _ ← Attempt.outcome (storage.delete handle)
    pure ()
  | none => pure ()

/-- `rollback_creation`. -/
def rollbackCreation (storage : Storage O) (state : UploadState) : HostM O Unit := do
  rollbackStorage storage state
  let _ ← Attempt.outcome (deleteState state.id)
  pure ()

/-- Roll back with `undo`, then fail. -/
def failAfter {α : Type} (undo : HostM O Unit) (e : Error) : HostM O α := do
  undo
  throw e

/-- `ByteReceiver::receive_creation_with_upload`. -/
def receiveCreationWithUpload (server : Server O) (headers : Headers) (state : UploadState)
    (body : RequestBody) : HostM O (UploadState × List (String × String)) := do
  let (state, createHeaders) ← PreHookGate.create.run state
  let (state, prepared) ← prepareReceiveBody server headers state body .creationWithUpload
  let handle ← server.storage.create state.id
  let state := state.setStorageHandle handle
  match ← Attempt.outcome (setState state .createNew) with
  | .error e => failAfter (rollbackStorage server.storage state) e
  | .ok _ =>
    let (state, result) ← Attempt.always (commitReceiveBody server.storage state prepared)
    match result with
    | .error e => failAfter (rollbackCreation server.storage state) e
    | .ok _ =>
      match ← Attempt.outcome (if state.isComplete then finishGate state else pure ()) with
      | .error e => failAfter (rollbackCreation server.storage state) e
      | .ok _ =>
        runPostEvent .postCreate state
        runPostEvent .postReceive state
        afterCommitIfComplete state
        pure (state, createHeaders ++ prepared.responseHeaders)

/-! ## Termination -/

/-- `UploadTerminator::terminate`: the bytes go first. -/
def terminate (storage : Storage O) (state : UploadState) : HostM O (List (String × String)) := do
  let (_, responseHeaders) ← PreHookGate.terminate.run state
  match state.handle with
  | some handle => storage.delete handle
  | none => pure ()
  deleteState state.id
  runPostEvent .postTerminate state
  pure responseHeaders

end Protocol

end TusRs
