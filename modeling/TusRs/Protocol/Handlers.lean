import TusRs.Protocol.FinalUpload

/-!
# Request handlers

The handlers of `tus-protocol/src/protocol/` for PATCH, HEAD, GET, DELETE and POST, the
creation rules of `lifecycle/creation.rs` and the scan of `lifecycle/reclamation.rs`. A GET
is modelled without a `Range` header.
-/

namespace TusRs

open Interaction

namespace Protocol

variable {O : Sig}

/-- The texts of response headers that other crates format. -/
structure Texts where
  metadata : UploadMetadata → String
  expires : Nat → String

/-- `expires_header`. -/
def expiresHeader (texts : Texts) (state : UploadState) : Option String :=
  if state.expires then state.expiresAt.map texts.expires else none

/-- `upload-expires`, with the Expiration extension. -/
def Response.withExpires (r : Response) (config : Config) (texts : Texts) (state : UploadState) :
    Response :=
  if config.hasExtension .expiration then
    match expiresHeader texts state with
    | some expires => r.withHeader "upload-expires" expires
    | none => r
  else r

/-- The unlocked check that the upload exists. -/
def checkExists (id : String) : HostM O Unit :=
  Prog.step (.stateGet id) fun (r : Except Error (Option UploadState)) =>
    match r with
    | .error e => .done (.error e)
    | .ok none => .done (.error (.notFound id))
    | .ok (some _) => .done (.ok ())

/-! ## PATCH, HEAD, GET and DELETE -/

/-- The response of a PATCH. -/
def patchResponse (server : Server O) (texts : Texts) (state : UploadState)
    (responseHeaders : List (String × String)) : Response :=
  let offset := toString state.offset
  (((Response.new 204).withHeader "upload-offset" offset).withExpires server.config texts
    state).withHeaders responseHeaders

def patch (server : Server O) (texts : Texts) (headers : Headers) (id : String)
    (body : RequestBody) : HostM O Response := do
  Attempt.lift headers.validatePatchContentType
  match headers.uploadOffset with
  | none => throw (.missingHeader "Upload-Offset")
  | some clientOffset =>
    checkExists id
    withLock id do
      let state ← requireState id
      let state ← prepareUploadMutationAccess server.storage state
      let (state, responseHeaders) ←
        receivePatch server headers state ⟨clientOffset, headers.uploadLength⟩ body
      pure (patchResponse server texts state responseHeaders)

/-- `UploadAccessFacts`. -/
structure UploadAccessFacts where
  offset : Option Nat
  length : Option Nat
  deferLength : Bool

def UploadAccessFacts.of (state : UploadState) : UploadAccessFacts :=
  if state.isFinal then
    ⟨if state.isComplete then some state.offset else none, state.length, false⟩
  else ⟨some state.offset, state.length, state.length.isNone⟩

/-- The `upload-concat` value of HEAD. -/
def concatHeader (config : Config) (state : UploadState) : Option String :=
  if state.isPartial then some "partial"
  else if state.isFinal then
    match state.parts with
    | some (part :: parts) =>
      let urls := (part :: parts).map fun id => config.basePath ++ "/" ++ id
      some ("final;" ++ " ".intercalate urls)
    | _ => some "final"
  else none

/-- The response of a HEAD. -/
def headResponse (server : Server O) (texts : Texts) (state : UploadState) : Response :=
  let facts := UploadAccessFacts.of state
  let r := (Response.new 200).withHeader "cache-control" "no-store"
  let r := match facts.offset with
    | some offset => r.withHeader "upload-offset" (toString offset)
    | none => r
  let r := match facts.length with
    | some length => r.withHeader "upload-length" (toString length)
    | none => if facts.deferLength then r.withHeader "upload-defer-length" "1" else r
  let r := if state.metadata.isEmpty then r
    else r.withHeader "upload-metadata" (texts.metadata state.metadata)
  let r := r.withExpires server.config texts state
  if server.config.hasExtension .concatenation then
    match concatHeader server.config state with
    | some value => r.withHeader "upload-concat" value
    | none => r
  else r

def head (server : Server O) (texts : Texts) (id : String) : HostM O Response := do
  checkExists id
  withLock id do
    let state ← requireState id
    let state ← prepareUploadReadAccess server.storage state
    pure (headResponse server texts state)

/-- `prepare_upload_download_access`. -/
def prepareUploadDownloadAccess (storage : Storage O) (state : UploadState) :
    HostM O UploadState := do
  let state ← prepareUploadReadAccess storage state
  if !state.isComplete then throw (.incompleteUpload state.id) else pure state

/-- The body of a GET: its size and bytes. -/
def download (server : Server O) (id : String) : HostM O (Nat × Bytes) :=
  if server.config.disableDownload then throw (.methodNotAllowed "GET")
  else do
    checkExists id
    withLock id do
      let state ← requireState id
      let state ← prepareUploadDownloadAccess server.storage state
      if state.offset = 0 then pure (0, [])
      else do
        let handle ← Attempt.lift state.requireStorageHandle
        let bytes ← server.storage.stream handle
        pure (state.offset, bytes)

def delete (server : Server O) (id : String) : HostM O Response :=
  if !server.config.hasExtension .termination then throw (.extensionNotSupported "termination")
  else do
    checkExists id
    withLock id do
      let state ← requireState id
      ensureActive state
      let responseHeaders ← terminate server.storage state
      pure ((Response.new 204).withHeaders responseHeaders)

/-! ## POST -/

/-- The checks of `prepare_creation`. -/
def checkCreation (config : Config) (headers : Headers) (hasBody : Bool) : Except Error Unit := do
  let isFinalUpload := match headers.uploadConcat with
    | some (.finalUpload _) => true
    | _ => false
  if !config.hasExtension .creation then throw (.extensionNotSupported "creation")
  if headers.uploadConcat.isSome && !config.hasExtension .concatenation then
    throw (.extensionNotSupported "concatenation")
  if isFinalUpload then
    if headers.uploadLength.isSome || headers.uploadDeferLength then
      throw (.invalidHeader "Upload-Length" "Upload-Length and Upload-Defer-Length must not be set on a final concatenation upload")
    if hasBody then
      throw (.invalidHeader "Upload-Concat" "a final concatenation upload must not include a request body")
  else
    if headers.uploadLength.isNone && !headers.uploadDeferLength then
      throw (.missingHeader "Upload-Length or Upload-Defer-Length")
    if headers.uploadLength.isSome && headers.uploadDeferLength then
      throw (.invalidHeader "Upload-Defer-Length" "Upload-Length and Upload-Defer-Length are mutually exclusive")
    if headers.uploadDeferLength && !config.hasExtension .creationDeferLength then
      throw (.extensionNotSupported "creation-defer-length")
    if headers.uploadDeferLength && !config.allowEmptyCreation && !hasBody then
      throw (.extensionNotSupported "creation-defer-length")
  if hasBody && !config.hasExtension .creationWithUpload then
    throw (.extensionNotSupported "creation-with-upload")
  if !hasBody && !isFinalUpload && !config.allowEmptyCreation then
    throw (.invalidHeader "Upload-Length" "empty creation requests are disabled")
  match headers.uploadLength with
  | some length => enforce config.maxSize length
  | none => pure ()

theorem throwing_ok {α : Type} {c : Prop} [Decidable c] {e : Error}
    {f : PUnit → Except Error α} {a : α}
    (h : (if c then (do let r ← throw e; f r) else f ()) = .ok a) : ¬c ∧ f () = .ok a := by
  by_cases hc : c
  · rw [if_pos hc] at h
    cases h
  · rw [if_neg hc] at h
    exact ⟨hc, h⟩

/-- A declared length is within `max_size`, and a final upload declares none. -/
theorem checkCreation_ok {config : Config} {headers : Headers} {hasBody : Bool}
    (h : checkCreation config headers hasBody = .ok ()) :
    (∀ l m, headers.uploadLength = some l → config.maxSize = some m → l ≤ m) ∧
      ∀ urls, headers.uploadConcat = some (.finalUpload urls) → headers.uploadLength = none := by
  have hbound : (match headers.uploadLength with
      | some length => enforce config.maxSize length
      | none => pure ()) = Except.ok () →
      ∀ l m, headers.uploadLength = some l → config.maxSize = some m → l ≤ m := by
    intro hr l m hl hm
    simp only [hl] at hr
    exact enforce_ok hr m hm
  unfold checkCreation at h
  obtain ⟨_, h⟩ := throwing_ok h
  obtain ⟨_, h⟩ := throwing_ok h
  dsimp only at h
  split at h
  · rw [if_pos rfl] at h
    obtain ⟨hnone, h⟩ := throwing_ok h
    obtain ⟨_, h⟩ := throwing_ok h
    obtain ⟨_, h⟩ := throwing_ok h
    obtain ⟨_, h⟩ := throwing_ok h
    refine ⟨hbound h, ?_⟩
    intro urls _
    cases hl : headers.uploadLength with
    | none => rfl
    | some l => simp [hl] at hnone
  · next hregular =>
    rw [if_neg Bool.false_ne_true] at h
    obtain ⟨_, h⟩ := throwing_ok h
    obtain ⟨_, h⟩ := throwing_ok h
    obtain ⟨_, h⟩ := throwing_ok h
    obtain ⟨_, h⟩ := throwing_ok h
    obtain ⟨_, h⟩ := throwing_ok h
    obtain ⟨_, h⟩ := throwing_ok h
    refine ⟨hbound h, ?_⟩
    intro urls hc
    exact absurd hc (hregular urls)

/-- `CreationTransition`. -/
inductive CreationTransition where
  | upload (state : UploadState)
  | finalUpload (state : UploadState) (partUrls : List String)

/-- What the headers make of a new state. -/
def initialState (headers : Headers) (state : UploadState) : UploadState :=
  let state := match headers.uploadLength with
    | some length => state.setLength length
    | none => state
  match headers.uploadMetadata with
  | some metadata => state.setMetadata metadata
  | none => state

def transition (headers : Headers) (state : UploadState) : CreationTransition :=
  match headers.uploadConcat with
  | some .partialUpload => .upload state.markPartial
  | some (.finalUpload partUrls) => .finalUpload state partUrls
  | none => .upload state

/-- `prepare_creation`. -/
def prepareCreation (config : Config) (headers : Headers) (hasBody : Bool) :
    HostM O CreationTransition := do
  Attempt.lift (checkCreation config headers hasBody)
  Prog.step .newId fun (id : String) => .step .now fun (createdAt : Nat) =>
    let state := initialState headers (.new id createdAt)
    match config.expiration with
    | some expiration => .step .now fun (now : Nat) =>
      .done (.ok (transition headers (state.setExpiration (now + expiration))))
    | none => .done (.ok (transition headers state))

/-- The creation of an upload without bytes. -/
def createUpload (server : Server O) (state : UploadState) :
    HostM O (UploadState × List (String × String)) := do
  let (state, responseHeaders) ← PreHookGate.create.run state
  let handle ← server.storage.create state.id
  let state := state.setStorageHandle handle
  match ← Attempt.outcome (setState state .createNew) with
  | .error e => failAfter (rollbackStorage server.storage state) e
  | .ok _ =>
    -- a zero-length upload is complete at creation
    match ← Attempt.outcome (if state.isComplete then finishGate state else pure ()) with
    | .error e => failAfter (rollbackCreation server.storage state) e
    | .ok _ =>
      runPostEvent .postCreate state
      afterCommitIfComplete state
      pure (state, responseHeaders)

/-- The response to a creation, with the offset when there is one to report. -/
def createdResponse (server : Server O) (texts : Texts) (state : UploadState)
    (offset length : Option Nat) (responseHeaders : List (String × String)) : Response :=
  let r := (Response.new 201).withHeader "location" (server.config.basePath ++ "/" ++ state.id)
  let r := match offset with
    | some offset => r.withHeader "upload-offset" (toString offset)
    | none => r
  let r := match length with
    | some length => r.withHeader "upload-length" (toString length)
    | none => r
  (r.withExpires server.config texts state).withHeaders responseHeaders

/-- The response leaves the server: from now on clients may name the upload. -/
def respond (id : String) (response : Response) : HostM O Response :=
  Prog.step (.respond id) fun _ => .done (.ok response)

def post (server : Server O) (texts : Texts) (headers : Headers) (body : RequestBody) :
    HostM O Response := do
  let hasBody := body.isSupplied
  if hasBody then Attempt.lift headers.validatePatchContentType else pure ()
  match ← prepareCreation server.config headers hasBody with
  | .finalUpload state partUrls =>
    let (state, status, responseHeaders) ← createFinalUpload server state partUrls
    let offset := if status.allComplete then some state.offset else none
    respond state.id (createdResponse server texts state offset state.length responseHeaders)
  | .upload state =>
    -- a supplied body has the content type of a PATCH, and needs the extension
    if hasBody then do
      let (state, responseHeaders) ← receiveCreationWithUpload server headers state body
      respond state.id
        (createdResponse server texts state (some state.offset) none responseHeaders)
    else do
      let (state, responseHeaders) ← createUpload server state
      respond state.id (createdResponse server texts state none none responseHeaders)

/-! ## Reclamation -/

/-- `ExpiredUploadReclamationOutcome`. -/
inductive ReclamationOutcome where
  | removed (id : String)
  | locked (id : String)
  | missingState (id : String)
  | noLongerExpired (id : String)
  | storageDeleteFailed (id : String) (e : Error)
  | stateDeleteFailed (id : String) (e : Error)
  | failed (id : String) (e : Error)

/-- `prepare_upload_reclamation_access`. -/
def prepareUploadReclamationAccess (storage : Storage O) (state : UploadState) :
    HostM O Bool := do
  match ← detectStoredCompletion storage state with
  | some _ => pure false
  | none => isExpired state

/-- `reclaim_expired_upload` under the lock. -/
def reclaimLocked (storage : Storage O) (id : String) : Prog (Host O) ReclamationOutcome :=
  .step (.stateGet id) fun (r : Except Error (Option UploadState)) =>
    match r with
    | .error e => .done (.failed id e)
    | .ok none => .done (.missingState id)
    | .ok (some state) => Prog.bind (prepareUploadReclamationAccess storage state) fun
      | .error e => .done (.failed id e)
      | .ok false => .done (.noLongerExpired id)
      | .ok true =>
        Prog.bind (match state.handle with
          | some handle => storage.delete handle
          | none => pure () : HostM O Unit) fun
        | .error e => .done (.storageDeleteFailed id e)
        | .ok _ => .step (.stateDelete state.id) fun (r : Except Error Unit) =>
          match r with
          | .error e => .done (.stateDeleteFailed id e)
          | .ok _ => .done (.removed id)

/-- `reclaim_expired_upload`. -/
def reclaimExpiredUpload (storage : Storage O) (id : String) :
    Prog (Host O) ReclamationOutcome :=
  .step (.tryLock id) fun (r : Except Error Bool) =>
    match r with
    | .error e => .done (.failed id e)
    | .ok false => .done (.locked id)
    | .ok true => Prog.bind (reclaimLocked storage id) fun outcome =>
      .step (.unlock id) fun _ => .done outcome

def reclaimAll (storage : Storage O) : List String → Prog (Host O) (List ReclamationOutcome)
  | [] => .done []
  | id :: ids => Prog.bind (reclaimExpiredUpload storage id) fun outcome =>
    Prog.bind (reclaimAll storage ids) fun outcomes => .done (outcome :: outcomes)

/-- `reclaim_expired_uploads`. -/
def reclaimExpiredUploads (storage : Storage O) (before : Nat) :
    HostM O (List ReclamationOutcome) :=
  Prog.step (.listExpired before) fun (r : Except Error (List String)) =>
    match r with
    | .error e => .done (.error e)
    | .ok ids => Prog.bind (reclaimAll storage ids) fun outcomes => .done (.ok outcomes)

/-! ## Requests -/

/-- A request as it reaches the server, or a scan for expired uploads. -/
inductive Request where
  | patch (headers : Headers) (id : String) (body : RequestBody)
  | head (id : String)
  | download (id : String)
  | delete (id : String)
  | post (headers : Headers) (body : RequestBody)
  | reclaim (before : Nat)

/-- What a request ends with. -/
inductive Answer where
  | response (r : Response)
  | content (size : Nat) (bytes : Bytes)
  | reclaimed (outcomes : List ReclamationOutcome)
  | failed (e : Error)

/-- The answer of an attempt. -/
def answerWith {α : Type} (f : α → Answer) (p : HostM O α) : Prog (Host O) Answer :=
  Prog.bind p fun
    | .ok a => .done (f a)
    | .error e => .done (.failed e)

def serve (server : Server O) (texts : Texts) : Request → Prog (Host O) Answer
  | .patch headers id body => answerWith .response (Protocol.patch server texts headers id body)
  | .head id => answerWith .response (Protocol.head server texts id)
  | .download id => answerWith (fun r => .content r.1 r.2) (Protocol.download server id)
  | .delete id => answerWith .response (Protocol.delete server id)
  | .post headers body => answerWith .response (Protocol.post server texts headers body)
  | .reclaim before => answerWith .reclaimed (reclaimExpiredUploads server.storage before)

end Protocol

end TusRs
