import Mathlib.Data.List.Infix
import TusRs.Interaction.Discipline
import TusRs.Num

/-!
# The uploading client

`tus-uploader`: creation, the resume loop and the chunk loop of `client/upload.rs` with the
requests of `client/protocol.rs`. A request may be lost on the way, may take effect without
an answer, and may still take effect long after the client gave up waiting for it.

Results:

* `patchSource_spec`: when the chunk loop succeeds the server holds the whole source.
* `client_ok_content`: when the upload or resume loop returns, the server holds the source.
-/

namespace TusRs

open Interaction

namespace Uploader

/-- `tus-uploader/src/error.rs`, with the sources of other crates as texts. -/
inductive Error where
  | io (source : String)
  | url (source : String)
  | missingHeader (header : String)
  | invalidHeader (header value : String)
  | invalidRequestHeader (name value : String)
  | offsetBeyondSource (offset sourceLen : Nat)
  | lengthMismatch (remote localLength : Nat)
  | offsetDesync (expected actual : Nat)
  | source (source : String)
  | unsupportedExtension (extension : String)
  | crossOriginLocation (endpoint location : String)
  | unexpectedResponse (operation : String) (status : Nat) (retryAfter : Option Nat)
  | transport (source : String) (retryable : Bool)
  | headerProvider (source : String) (retryable : Bool)
  | internal (message : String)
deriving DecidableEq, Repr

def Error.isRetryable : Error → Bool
  | .unexpectedResponse _ status _ => status ∈ [500, 502, 503, 504, 408, 409, 429, 460]
  | .transport _ retryable => retryable
  | .headerProvider _ retryable => retryable
  | _ => false

def Error.retryAfter : Error → Option Nat
  | .unexpectedResponse _ _ retryAfter => retryAfter
  | _ => none

/-- The parts of a response the client reads; `retryAfter` is the parsed hint. -/
structure Response where
  status : Nat
  location : Option String
  uploadOffset : Option String
  uploadLength : Option String
  uploadMetadata : Option String
  retryAfter : Option Nat

structure UploadInfo (Meta : Type) where
  url : String
  offset : Nat
  length : Option Nat
  metadata : Meta

/-- The client's configuration. `resolveServerLocation` and `decodeMetadata` rest on the
URL and base64 crates. -/
structure Client (Meta : Type) where
  maxRetries : Nat
  retryDelay : Nat
  maxChunkSize : Nat
  maxInitialUploadSize : Nat
  hasRetryHook : Bool
  resolveServerLocation : String → Except Error String
  decodeMetadata : Option String → Except Error Meta

/-! ## Requests, source reads and waiting -/

/-- What the client asks of the outside: the requests, reads of the source, the retry hook
and timers. `unfinished` stands where a run has not come to the next round of the loop. -/
inductive NetOp where
  | options
  | post (length : Nat) (body : Option Bytes)
  | head (url : String)
  | patch (url : String) (offset : Nat) (body : Bytes)
  | readChunk (offset maxLen : Nat)
  | beforeRetry (attempt : Nat) (error : Error)
  | random (max : Nat)
  | sleep (duration : Nat)
  | onProgress (uploaded total : Nat)
  | unfinished

/-- A failed request gives an error of the transport or of a header that could not be
built; `options` gives the extensions the server advertises. -/
def NetSig : Sig where
  Op := NetOp
  Ans
    | .options => Except Error (List String)
    | .post _ _ => Except Error Response
    | .head _ => Except Error Response
    | .patch _ _ _ => Except Error Response
    | .readChunk _ _ => Except Error Bytes
    | .beforeRetry _ _ => Bool
    | .random _ => Nat
    | .sleep _ => Unit
    | .onProgress _ _ => Unit
    | .unfinished => Empty

abbrev Net := Attempt NetSig Error

/-! ## Helpers -/

def unexpectedResponse (operation : String) (r : Response) : Error :=
  .unexpectedResponse operation r.status r.retryAfter

def optionalHeaderU64 (value : Option String) (label : String) : Except Error (Option Nat) :=
  match value with
  | none => .ok none
  | some v => match parseU64 v with
    | some n => .ok (some n)
    | none => .error (.invalidHeader label v)

def headerU64 (value : Option String) (label : String) : Except Error Nat :=
  match optionalHeaderU64 value label with
  | .ok (some n) => .ok n
  | .ok none => .error (.missingHeader label)
  | .error e => .error e

def headerString (value : Option String) (label : String) : Except Error String :=
  match value with
  | some v => .ok v
  | none => .error (.missingHeader label)

def validateOffsetNotBeyondSource (offset sourceLen : Nat) : Except Error Unit :=
  if offset > sourceLen then .error (.offsetBeyondSource offset sourceLen) else .ok ()

def validateRemoteForResume {Meta : Type} (remote : UploadInfo Meta) (fileLength : Nat) :
    Except Error Unit :=
  match remote.length with
  | some remoteLength =>
    if remoteLength ≠ fileLength then .error (.lengthMismatch remoteLength fileLength)
    else validateOffsetNotBeyondSource remote.offset fileLength
  | none => validateOffsetNotBeyondSource remote.offset fileLength

def validatePatchAdvance (previous next chunkLen sourceLen : Nat) : Except Error Unit :=
  match validateOffsetNotBeyondSource next sourceLen with
  | .error e => .error e
  | .ok _ =>
    if next ≤ previous then .error (.offsetDesync (previous + 1) next)
    else if next > satAdd previous chunkLen then
      .error (.offsetDesync (previous + chunkLen) next)
    else .ok ()

/-- `Duration::MAX` in nanoseconds. -/
def durationMax : Nat := u64Max * 1000000000 + 999999999

def backoffDelay (base attempt : Nat) : Nat := min (base * 2 ^ min attempt 8) durationMax

def maxBackoffDelay (base : Nat) : Nat := backoffDelay base 8

def jitteredBackoffDelay (base attempt : Nat) : Net Nat :=
  let max := backoffDelay base attempt
  let maxNanos := max % 2 ^ 64
  if maxNanos = 0 then pure max
  else Prog.step (.random maxNanos) fun (nanos : Nat) => .done (.ok (min nanos maxNanos))

def nextRetryDelay (retryAfter : Option Nat) (base attempt : Nat) : Net Nat :=
  match retryAfter with
  | some hint => pure (min hint (maxBackoffDelay base))
  | none => jitteredBackoffDelay base attempt

section Loops

variable {Meta : Type} (client : Client Meta)

/-! ## The requests -/

/-- `upload_info_at`. -/
def uploadInfoAt (url : String) : Net (UploadInfo Meta) :=
  Prog.step (.head url) fun (r : Except Error Response) =>
    match r with
    | .error e => .done (.error e)
    | .ok r =>
      if r.status ≠ 200 ∧ r.status ≠ 204 then
        .done (.error (unexpectedResponse "upload info" r))
      else .done do
        let offset ← headerU64 r.uploadOffset "Upload-Offset"
        let length ← optionalHeaderU64 r.uploadLength "Upload-Length"
        let metadata ← client.decodeMetadata r.uploadMetadata
        pure ⟨url, offset, length, metadata⟩

/-- `send_upload_chunk_at`. -/
def sendUploadChunkAt (url : String) (chunk : Bytes) (offset : Nat) (operation : String) :
    Net Nat :=
  Prog.step (.patch url offset chunk) fun (r : Except Error Response) =>
    match r with
    | .error e => .done (.error e)
    | .ok r =>
      if r.status ≠ 204 then .done (.error (unexpectedResponse operation r))
      else .done (headerU64 r.uploadOffset "Upload-Offset")

/-- The offset a creation reports: a server answers one only to a request with a body. -/
def createdOffset (hasBody : Bool) (length : Nat) (r : Response) : Except Error Nat :=
  if hasBody then do
    let offset ← headerU64 r.uploadOffset "Upload-Offset"
    validateOffsetNotBeyondSource offset length
    pure offset
  else pure 0

/-- `create_upload_request`. -/
def createUploadRequest (length : Nat) (body : Option Bytes) (metadata : Meta) :
    Net (UploadInfo Meta) :=
  Prog.step (.post length body) fun (r : Except Error Response) =>
    match r with
    | .error e => .done (.error e)
    | .ok r =>
      if r.status ≠ 201 then
        .done (.error (unexpectedResponse
          (if body.isSome then "create upload with body" else "create upload") r))
      else .done do
        let location ← headerString r.location "Location"
        let url ← client.resolveServerLocation location
        let offset ← createdOffset body.isSome length r
        pure ⟨url, offset, some length, metadata⟩

/-! ## Reading and sending the source -/

/-- The loop of `read_source_exact`; every round that goes on has read at least one byte. -/
def readLoop (sourceLen offset capacity : Nat) : Nat → Bytes → Net Bytes
  | 0, body => pure body
  | n + 1, body =>
    if body.length < capacity then
      Prog.step (.readChunk (offset + body.length) (capacity - body.length))
        fun (chunk : Except Error Bytes) =>
          match chunk with
          | .error e => .done (.error e)
          | .ok chunk =>
            if chunk.isEmpty then
              .done (.error (.offsetBeyondSource (offset + body.length) sourceLen))
            else if chunk.length > capacity - body.length then
              .done (.error (.source s!"source returned {chunk.length} bytes for a {capacity - body.length}-byte read"))
            else readLoop sourceLen offset capacity n (body ++ chunk)
    else pure body

/-- `read_source_exact`. -/
def readSourceExact (sourceLen offset length : Nat) : Net Bytes :=
  readLoop sourceLen offset length length []

/-- The loop of `patch_source`; every round that goes on has advanced the offset. -/
def patchLoop (url : String) (totalLength : Nat) : Nat → Nat → Nat → Net Unit
  | 0, _, _ => pure ()
  | n + 1, sent, remaining =>
    if remaining > 0 then
      let chunkLen := min remaining client.maxChunkSize
      Prog.step (.readChunk sent chunkLen) fun (chunk : Except Error Bytes) =>
        match chunk with
        | .error e => .done (.error e)
        | .ok chunk =>
          if chunk.isEmpty then .done (.error (.offsetBeyondSource sent totalLength))
          else if chunk.length > chunkLen then
            .done (.error (.source s!"source returned {chunk.length} bytes for a {chunkLen}-byte read"))
          else Prog.bind (sendUploadChunkAt url chunk sent "patch upload") fun
            | .error e => .done (.error e)
            | .ok newOffset =>
              match validatePatchAdvance sent newOffset chunk.length totalLength with
              | .error e => .done (.error e)
              | .ok _ => .step (.onProgress newOffset totalLength) fun _ =>
                patchLoop url totalLength n newOffset (totalLength - newOffset)
    else pure ()

/-- `patch_source`. -/
def patchSource (url : String) (offset totalLength : Nat) : Net Unit :=
  patchLoop client url totalLength (totalLength - offset) offset (totalLength - offset)

/-! ## The resume loop -/

/-- `consult_retry_hook`: a vetoed retry returns the original error. -/
def consultRetryHook (attempt : Nat) (error : Error) : Net Unit :=
  if client.hasRetryHook then
    Prog.step (.beforeRetry attempt error) fun (retry : Bool) =>
      if retry then .done (.ok ()) else .done (.error error)
  else pure ()

/-- `sleep_before_retry`. -/
def sleepBeforeRetry (retryAfter : Option Nat) (attempt : Nat) : Net Unit :=
  Prog.bind (nextRetryDelay retryAfter client.retryDelay attempt) fun
    | .ok delay => .step (.sleep delay) fun _ => .done (.ok ())
    | .error e => .done (.error e)

/-- Progress since the last observed offset resets the retry budget. -/
def attemptAfter (observed : Option Nat) (offset attempt : Nat) : Nat :=
  if observed.any fun previous => offset > previous then 0 else attempt

def observedAfter (observed : Option Nat) (offset : Nat) : Nat :=
  observed.elim offset fun previous => max previous offset

/-- The retry budget is used up: one last HEAD tells whether the upload is complete. -/
def lastCheck (url : String) (sourceLength : Nat) (error : Error) : Net (UploadInfo Meta) :=
  Prog.bind (uploadInfoAt client url) fun
  | .error e => .done (.error e)
  | .ok remote => match validateRemoteForResume remote sourceLength with
    | .error e => .done (.error e)
    | .ok _ =>
      if remote.offset = sourceLength then .done (.ok remote) else .done (.error error)

/-- The hook and the delay before the next round of the loop. -/
def beforeNextAttempt (attempt : Nat) (error : Error) : Net Unit := do
  consultRetryHook client (attempt + 1) error
  sleepBeforeRetry client error.retryAfter attempt

/-- The first `n` rounds of the loop of `resume_at_with_progress_from`. `observed` is the
last observed offset, `created` the state a creation has just reported. -/
def resumeLoop (url : String) (sourceLength : Nat) :
    Nat → Nat → Option Nat → Option (UploadInfo Meta) → Net (UploadInfo Meta)
  | 0, _, _, _ => Prog.step .unfinished nofun
  | n + 1, attempt, observed, created =>
    Prog.bind (match created with
      | some created => Prog.done (.ok created)
      | none => uploadInfoAt client url) fun
    | .error error =>
      if !error.isRetryable || attempt == client.maxRetries then .done (.error error)
      else Prog.bind (beforeNextAttempt client attempt error) fun
        | .error e => .done (.error e)
        | .ok _ => resumeLoop url sourceLength n (attempt + 1) observed none
    | .ok remote =>
      match validateRemoteForResume remote sourceLength with
      | .error e => .done (.error e)
      | .ok _ =>
        if remote.offset = sourceLength then .done (.ok remote)
        else Prog.bind (patchSource client url remote.offset sourceLength) fun
          -- every acknowledged offset was checked, so no confirming HEAD is needed
          | .ok _ => .done (.ok ⟨url, sourceLength, remote.length, remote.metadata⟩)
          | .error error =>
            if !error.isRetryable then .done (.error error)
            else if attemptAfter observed remote.offset attempt = client.maxRetries then
              lastCheck client url sourceLength error
            else
              Prog.bind (beforeNextAttempt client
                (attemptAfter observed remote.offset attempt) error) fun
              | .error e => .done (.error e)
              | .ok _ => resumeLoop url sourceLength n
                  (attemptAfter observed remote.offset attempt + 1)
                  (some (observedAfter observed remote.offset)) none

/-- `resume_at`: the genuine resume path, where the server's state is unknown. -/
def resumeAt (rounds : Nat) (url : String) (sourceLength : Nat) : Net (UploadInfo Meta) :=
  resumeLoop client url sourceLength rounds 0 none none

/-- `creation_capabilities`: the extensions of the server, when they matter. -/
def creationCapabilities (length : Nat) : Net (Option (List String)) :=
  if length = 0 ∨ length > client.maxInitialUploadSize then pure none
  else Prog.step .options fun (r : Except Error (List String)) =>
    match r with
    | .ok extensions => .done (.ok (some extensions))
    | .error (.unexpectedResponse operation status retryAfter) =>
      if status = 401 ∨ status = 403 ∨ status = 407 then
        .done (.error (.unexpectedResponse operation status retryAfter))
      else .done (.ok none)
    | .error _ => .done (.ok none)

/-- `has_extension`: names are compared without case. -/
def hasExtension (extensions : List String) (name : String) : Bool :=
  extensions.any fun e => e.toList.map Char.toLower == name.toList.map Char.toLower

def shouldUseCreationWithUpload (length : Nat) (capabilities : Option (List String)) : Bool :=
  decide (length > 0) && decide (length ≤ client.maxInitialUploadSize) &&
    (capabilities.map (hasExtension · "creation-with-upload")).getD false

/-- `upload_from`. -/
def uploadFrom (rounds length : Nat) (metadata : Meta) : Net (UploadInfo Meta) :=
  Prog.bind (creationCapabilities client length) fun
  | .error e => .done (.error e)
  | .ok capabilities =>
    if shouldUseCreationWithUpload client length capabilities then
      Prog.bind (readSourceExact length 0 length) fun
      | .error e => .done (.error e)
      | .ok body => Prog.bind (createUploadRequest client length (some body) metadata) fun
        | .error e => .done (.error e)
        | .ok upload => .step (.onProgress upload.offset length) fun _ =>
          if upload.offset = length then .done (.ok upload)
          else resumeLoop client upload.url length rounds 0 none (some upload)
    else Prog.bind (createUploadRequest client length none metadata) fun
      | .error e => .done (.error e)
      | .ok info => resumeLoop client info.url length rounds 0 none (some info)

end Loops

/-! ## The server and the network -/

/-- A PATCH that was sent and may still take effect. -/
structure Request where
  url : String
  offset : Nat
  body : Bytes

/-- What the server holds, and the requests on their way to it. -/
structure Server where
  content : String → Bytes
  pending : List Request

namespace Server

def send (w : Server) (q : Request) : Server := { w with pending := q :: w.pending }

def append (w : Server) (url : String) (bytes : Bytes) : Server :=
  { w with content := Function.update w.content url (w.content url ++ bytes) }

def create (w : Server) (url : String) (bytes : Bytes) : Server :=
  { w with content := Function.update w.content url bytes }

/-- A request takes effect: the server accepts it only at its current offset and appends
a prefix of the body. -/
def Applies (w : Server) (q : Request) (w' : Server) : Prop :=
  (w.content q.url).length = q.offset ∧ ∃ k, w' = w.append q.url (q.body.take k)

/-- An offset the response reports is not beyond what the server holds. -/
def Truthful (w : Server) (url : String) (r : Response) : Prop :=
  ∀ v n, r.uploadOffset = some v → parseU64 v = some n → n ≤ (w.content url).length

end Server

/-- What the requests and reads of the client may do and answer. A PATCH is on its way
from the moment it is sent; it may take effect before its answer or error arrives. -/
inductive NetExec (source : Bytes) (resolve : String → Except Error String) :
    (o : NetOp) → Server → NetSig.Ans o → Server → Prop
  | options {w : Server} {r : Except Error (List String)} : NetExec source resolve .options w r w
  | created {w : Server} {length k : Nat} {body : Option Bytes} {r : Response}
      {location url : String} : r.location = some location → resolve location = .ok url →
      (w.create url ((body.getD []).take k)).Truthful url r →
      NetExec source resolve (.post length body) w (.ok r) (w.create url ((body.getD []).take k))
  | notCreated {w : Server} {length : Nat} {body : Option Bytes} {r : Response} :
      (r.status ≠ 201 ∨ ∀ location url, r.location = some location → resolve location ≠ .ok url) →
      NetExec source resolve (.post length body) w (.ok r) w
  | postLost {w : Server} {length : Nat} {body : Option Bytes} {e : Error} :
      NetExec source resolve (.post length body) w (.error e) w
  | head {w : Server} {url : String} {r : Response} :
      w.Truthful url r → NetExec source resolve (.head url) w (.ok r) w
  | headLost {w : Server} {url : String} {e : Error} :
      NetExec source resolve (.head url) w (.error e) w
  | patch {w w' : Server} {url : String} {offset : Nat} {body : Bytes} {r : Response} :
      (w' = w.send ⟨url, offset, body⟩ ∨
        (w.send ⟨url, offset, body⟩).Applies ⟨url, offset, body⟩ w') → w'.Truthful url r →
      NetExec source resolve (.patch url offset body) w (.ok r) w'
  | patchLost {w w' : Server} {url : String} {offset : Nat} {body : Bytes} {e : Error} :
      (w' = w.send ⟨url, offset, body⟩ ∨
        (w.send ⟨url, offset, body⟩).Applies ⟨url, offset, body⟩ w') →
      NetExec source resolve (.patch url offset body) w (.error e) w'
  | readChunk {w : Server} {offset maxLen : Nat} {chunk : Bytes} :
      chunk <+: source.drop offset →
      NetExec source resolve (.readChunk offset maxLen) w (.ok chunk) w
  | readFailed {w : Server} {offset maxLen : Nat} {e : Error} :
      NetExec source resolve (.readChunk offset maxLen) w (.error e) w
  | beforeRetry {w : Server} {attempt : Nat} {e : Error} {b : Bool} :
      NetExec source resolve (.beforeRetry attempt e) w b w
  | random {w : Server} {max n : Nat} : n ≤ max → NetExec source resolve (.random max) w n w
  | sleep {w : Server} {d : Nat} : NetExec source resolve (.sleep d) w () w
  | onProgress {w : Server} {n m : Nat} : NetExec source resolve (.onProgress n m) w () w

/-- The network as a machine: a request on its way may take effect at any time. -/
def machine {Meta : Type} (client : Client Meta) (source : Bytes) : Machine NetSig Server where
  exec _ := NetExec source client.resolveServerLocation
  env w w' := ∃ q ∈ w.pending, w.Applies q w'
  halt _ w w' := w' = w

/-! ## Safety -/

/-- The requests on their way carry slices of the source: no other client writes. -/
def Slices (source : Bytes) (w : Server) : Prop :=
  ∀ q ∈ w.pending, q.body <+: source.drop q.offset

/-- An upload that held a prefix of the source holds a longer one. -/
def Grows (source : Bytes) (w w' : Server) : Prop :=
  ∀ url, w.content url <+: source → w.content url <+: w'.content url ∧ w'.content url <+: source

section Safety

variable {source : Bytes} {Meta : Type} {client : Client Meta} {url : String}

theorem grows_refl (w : Server) : Grows source w w := fun _ h => ⟨List.prefix_rfl, h⟩

theorem grows_trans {w₁ w₂ w₃ : Server} (h₁ : Grows source w₁ w₂) (h₂ : Grows source w₂ w₃) :
    Grows source w₁ w₃ := by
  intro url h
  obtain ⟨hgrow, hpre⟩ := h₁ url h
  obtain ⟨hgrow', hpre'⟩ := h₂ url hpre
  exact ⟨hgrow.trans hgrow', hpre'⟩

/-- A slice of the source appended at its own offset extends a prefix of the source. -/
theorem append_initial {content body : Bytes} (hc : content <+: source)
    (hb : body <+: source.drop content.length) : content ++ body <+: source := by
  obtain ⟨rest, rfl⟩ := hc
  rw [List.drop_left] at hb
  exact (List.prefix_append_right_inj content).mpr hb

theorem applies_grows {w w' : Server} {q : Request} (hq : q.body <+: source.drop q.offset)
    (h : w.Applies q w') : Grows source w w' := by
  obtain ⟨hlen, k, rfl⟩ := h
  intro url hpre
  by_cases hurl : url = q.url
  · subst hurl
    have htake : q.body.take k <+: source.drop (w.content q.url).length :=
      hlen ▸ (List.take_prefix k q.body).trans hq
    simp only [Server.append, Function.update_self]
    exact ⟨List.prefix_append _ _, append_initial hpre htake⟩
  · simp only [Server.append, Function.update_of_ne hurl]
    exact ⟨List.prefix_rfl, hpre⟩

theorem applies_pending {w w' : Server} {q : Request} (h : w.Applies q w') :
    w'.pending = w.pending := by
  obtain ⟨-, k, rfl⟩ := h
  rfl

/-- Only the client's own task relies on the uploads it tracks. -/
def Rely (source : Bytes) (t : Nat) (w w' : Server) : Prop := t = 0 → Grows source w w'

theorem client_lawful :
    (Discipline.mutual (Slices source) (Rely source) : Discipline NetSig Server).Lawful
      (machine client source) := by
  refine Discipline.mutual_lawful (fun _ w _ => grows_refl w)
    (fun _ _ _ _ h₁ h₂ h0 => grows_trans (h₁ h0) (h₂ h0)) ?_ ?_
  · rintro w w' hi ⟨q, hq, happ⟩
    refine ⟨?_, fun _ _ => applies_grows (hi q hq) happ⟩
    rw [Slices, applies_pending happ]
    exact hi
  · rintro t w w' hi rfl
    exact ⟨hi, fun _ _ _ => grows_refl w'⟩

abbrev Spec (client : Client Meta) (source : Bytes) {α : Type} (P : Server → Prop)
    (p : Prog NetSig α) (Q : α → Server → Prop) : Prop :=
  Triple (machine client source) (Slices source) (Rely source) 0 P p Q

/-- The upload at `url` holds a prefix of the source, of `n` bytes at least. -/
def Tracked (source : Bytes) (url : String) (n : Nat) (w : Server) : Prop :=
  w.content url <+: source ∧ n ≤ (w.content url).length

theorem tracked_grows {n : Nat} {w w' : Server} (h : Tracked source url n w)
    (hg : Grows source w w') : Tracked source url n w' := by
  obtain ⟨hgrow, hpre⟩ := hg url h.1
  exact ⟨hpre, h.2.trans hgrow.length_le⟩

theorem tracked_stable (n : Nat) : Stable (Rely source) 0 (Tracked source url n) :=
  fun _ _ h hr => tracked_grows h (hr rfl)

/-- An upload that holds as many bytes as the source holds the source. -/
theorem tracked_complete {w : Server} (h : Tracked source url source.length w) :
    w.content url = source :=
  h.1.eq_of_length (Nat.le_antisymm h.1.length_le h.2)

/-- An operation that leaves the server as it is. -/
theorem query_spec {P : Server → Prop} {o : NetOp} {α : Type} {k : NetSig.Ans o → Prog NetSig α}
    {Q : α → Server → Prop} (P' : NetSig.Ans o → Prop) (hP : Stable (Rely source) 0 P)
    (hq : ∀ w a w', NetExec source client.resolveServerLocation o w a w' → w' = w ∧ P' a)
    (hk : ∀ a, P' a → Spec client source P (k a) Q) : Spec client source P (.step o k) Q := by
  refine Triple.step (fun a w => P w ∧ P' a) hP ?_ ?_
  · intro w a w' hi hp he
    obtain ⟨rfl, ha⟩ := hq w a w' he
    exact ⟨⟨hi, fun _ _ _ => grows_refl w'⟩, hp, ha⟩
  · intro a s hs
    exact hk a hs.2 s hs.1

theorem readChunk_spec {P : Server → Prop} {offset maxLen : Nat} {α : Type}
    {k : Except Error Bytes → Prog NetSig α} {Q : α → Server → Prop}
    (hP : Stable (Rely source) 0 P)
    (hok : ∀ chunk, chunk <+: source.drop offset → Spec client source P (k (.ok chunk)) Q)
    (herr : ∀ e, Spec client source P (k (.error e)) Q) :
    Spec client source P (.step (.readChunk offset maxLen) k) Q := by
  refine query_spec (fun a => ∀ chunk, a = .ok chunk → chunk <+: source.drop offset) hP ?_ ?_
  · intro w a w' he
    cases he with
    | readChunk hpre => exact ⟨rfl, fun chunk h => Except.ok.inj h ▸ hpre⟩
    | readFailed => exact ⟨rfl, fun chunk h => nomatch h⟩
  · intro a ha
    cases a with
    | ok chunk => exact hok chunk (ha chunk rfl)
    | error e => exact herr e

theorem headerU64_ok {v : Option String} {label : String} {n : Nat}
    (h : headerU64 v label = .ok n) : ∃ s, v = some s ∧ parseU64 s = some n := by
  unfold headerU64 optionalHeaderU64 at h
  cases v with
  | none => cases h
  | some s =>
    cases hp : parseU64 s with
    | none => simp [hp] at h
    | some m =>
      simp only [hp, Except.ok.injEq] at h
      exact ⟨s, rfl, h ▸ hp⟩

theorem truthful_offset {w : Server} {r : Response} {label : String} {n : Nat}
    (ht : w.Truthful url r) (h : headerU64 r.uploadOffset label = .ok n) :
    n ≤ (w.content url).length := by
  obtain ⟨s, hs, hn⟩ := headerU64_ok h
  exact ht s n hs hn

/-- A HEAD answer that the client accepts reports at most what the server holds. -/
theorem uploadInfoAt_spec {n : Nat} :
    Spec client source (Tracked source url n) (uploadInfoAt client url) (fun
      | .ok info, w => Tracked source url info.offset w ∧ info.url = url
      | .error _, w => Tracked source url n w) := by
  refine Triple.step (fun
    | .ok r, w => Tracked source url n w ∧ w.Truthful url r
    | .error _, w => Tracked source url n w) (tracked_stable n) ?_ ?_
  · intro w a w' hi hp he
    cases he with
    | head ht => exact ⟨⟨hi, fun _ _ _ => grows_refl w⟩, hp, ht⟩
    | headLost => exact ⟨⟨hi, fun _ _ _ => grows_refl w⟩, hp⟩
  · intro r
    cases r with
    | error e => exact Triple.done fun w h => h
    | ok r =>
      dsimp only
      split
      · exact Triple.done fun w h => h.1
      · refine Triple.done fun w h => ?_
        split
        · next info hinfo =>
          obtain ⟨offset, hoff, hinfo⟩ := except_bind_ok hinfo
          obtain ⟨length, -, hinfo⟩ := except_bind_ok hinfo
          obtain ⟨metadata, -, hinfo⟩ := except_bind_ok hinfo
          obtain rfl := Except.ok.inj hinfo
          exact ⟨⟨h.1.1, truthful_offset h.2 hoff⟩, rfl⟩
        · exact h.1

/-- Whatever becomes of a PATCH with a slice of the source, the upload only grows. -/
theorem patch_sent {w w' : Server} {q : Request} (hi : Slices source w)
    (hq : q.body <+: source.drop q.offset)
    (h : w' = w.send q ∨ (w.send q).Applies q w') :
    Slices source w' ∧ Grows source w w' := by
  have hsend : Slices source (w.send q) := by
    intro q' hq'
    rcases List.mem_cons.mp hq' with rfl | hmem
    · exact hq
    · exact hi q' hmem
  rcases h with rfl | happ
  · exact ⟨hsend, grows_refl w⟩
  · have hgrow : Grows source (w.send q) w' := applies_grows hq happ
    refine ⟨?_, hgrow⟩
    rw [Slices, applies_pending happ]
    exact hsend

theorem sendUploadChunkAt_spec {n offset : Nat} {chunk : Bytes} {operation : String}
    (hchunk : chunk <+: source.drop offset) :
    Spec client source (Tracked source url n) (sendUploadChunkAt url chunk offset operation) (fun
      | .ok m, w => Tracked source url n w ∧ m ≤ (w.content url).length
      | .error _, w => Tracked source url n w) := by
  refine Triple.step (fun
    | .ok r, w => Tracked source url n w ∧ w.Truthful url r
    | .error _, w => Tracked source url n w) (tracked_stable n) ?_ ?_
  · intro w a w' hi hp he
    cases he with
    | patch hsent ht =>
      obtain ⟨hi', hg⟩ := patch_sent hi hchunk hsent
      exact ⟨⟨hi', fun _ _ _ => hg⟩, tracked_grows hp hg, ht⟩
    | patchLost hsent =>
      obtain ⟨hi', hg⟩ := patch_sent hi hchunk hsent
      exact ⟨⟨hi', fun _ _ _ => hg⟩, tracked_grows hp hg⟩
  · intro r
    cases r with
    | error e => exact Triple.done fun w h => h
    | ok r =>
      dsimp only
      split
      · exact Triple.done fun w h => h.1
      · refine Triple.done fun w h => ?_
        split
        · next m hm => exact ⟨h.1, truthful_offset h.2 hm⟩
        · exact h.1

theorem validateOffset_ok {offset sourceLen : Nat}
    (h : validateOffsetNotBeyondSource offset sourceLen = .ok ()) : offset ≤ sourceLen := by
  unfold validateOffsetNotBeyondSource at h
  split at h
  · cases h
  · omega

theorem validatePatchAdvance_ok {previous next chunkLen sourceLen : Nat}
    (h : validatePatchAdvance previous next chunkLen sourceLen = .ok ()) :
    previous < next ∧ next ≤ sourceLen := by
  unfold validatePatchAdvance at h
  split at h
  · cases h
  · next hv =>
    split at h
    · cases h
    · exact ⟨by omega, validateOffset_ok hv⟩

/-- The chunk loop sends slices of the source, never goes past what the server holds, and
ends with the whole source stored. -/
theorem patchLoop_spec (fuel sent remaining : Nat) (hrem : remaining = source.length - sent)
    (hfuel : remaining ≤ fuel) :
    Spec client source (Tracked source url sent)
      (patchLoop client url source.length fuel sent remaining) (fun
      | .ok _, w => Tracked source url source.length w
      | .error _, w => Tracked source url 0 w) := by
  have hweak : ∀ {n} w, Tracked source url n w → Tracked source url 0 w :=
    fun _ h => ⟨h.1, Nat.zero_le _⟩
  induction fuel generalizing sent remaining with
  | zero => exact Triple.done fun w h => ⟨h.1, by have := h.2; omega⟩
  | succ n ih =>
    unfold patchLoop
    refine Triple.ite (fun hpos => ?_) fun hdone => ?_
    · refine readChunk_spec (tracked_stable sent) (fun chunk hchunk => ?_) fun e => ?_
      · dsimp only
        split
        · exact Triple.done hweak
        · split
          · exact Triple.done hweak
          · refine Triple.bind _ (sendUploadChunkAt_spec hchunk) fun r => ?_
            cases r with
            | error e => exact Triple.done hweak
            | ok newOffset =>
              dsimp only
              split
              · exact Triple.done fun w h => hweak w h.1
              · next hv =>
                obtain ⟨hadv, hle⟩ := validatePatchAdvance_ok hv
                refine Triple.weaken (P := Tracked source url newOffset) ?_
                  (fun w h => ⟨h.1.1, h.2⟩) fun _ _ h => h
                refine query_spec (fun _ => True) (tracked_stable newOffset) ?_ ?_
                · rintro w a w' ⟨⟩
                  exact ⟨rfl, trivial⟩
                · intro _ _
                  exact ih newOffset _ rfl (by omega)
      · exact Triple.done hweak
    · exact Triple.done fun w h => ⟨h.1, by have := h.2; omega⟩

theorem patchSource_spec (offset : Nat) :
    Spec client source (Tracked source url offset)
      (patchSource client url offset source.length) (fun
      | .ok _, w => Tracked source url source.length w
      | .error _, w => Tracked source url 0 w) :=
  patchLoop_spec _ _ _ rfl le_rfl

theorem nextRetryDelay_spec {P : Server → Prop} (hP : Stable (Rely source) 0 P)
    (retryAfter : Option Nat) (base attempt : Nat) :
    Spec client source P (nextRetryDelay retryAfter base attempt) (fun _ => P) := by
  cases retryAfter with
  | some hint => exact Triple.done fun w h => h
  | none =>
    unfold nextRetryDelay jitteredBackoffDelay
    refine Triple.ite (fun _ => ?_) fun _ => ?_
    · exact Triple.done fun w h => h
    · refine query_spec (fun _ => True) hP ?_ fun _ _ => Triple.done fun w h => h
      rintro w a w' ⟨⟩
      exact ⟨rfl, trivial⟩

/-- Consulting the hook and sleeping leave the server as it is. -/
theorem beforeNextAttempt_spec {P : Server → Prop} (hP : Stable (Rely source) 0 P)
    (attempt : Nat) (error : Error) :
    Spec client source P (beforeNextAttempt client attempt error) (fun _ => P) := by
  refine Triple.bind (fun _ => P) ?_ fun r => ?_
  · unfold consultRetryHook
    refine Triple.ite (fun _ => ?_) fun _ => ?_
    · refine query_spec (fun _ => True) hP ?_ fun retry _ => ?_
      · rintro w a w' ⟨⟩
        exact ⟨rfl, trivial⟩
      · cases retry <;> exact Triple.done fun w h => h
    · exact Triple.done fun w h => h
  · cases r with
    | error e => exact Triple.done fun w h => h
    | ok _ =>
      refine Triple.bind (fun _ => P) (nextRetryDelay_spec hP _ _ _) fun r => ?_
      cases r with
      | error e => exact Triple.done fun w h => h
      | ok delay =>
        refine query_spec (fun _ => True) hP ?_ fun _ _ => Triple.done fun w h => h
        rintro w a w' ⟨⟩
        exact ⟨rfl, trivial⟩

/-- The result of a loop on the upload at `url`. -/
def Outcome (source : Bytes) (url : String) :
    Except Error (UploadInfo Meta) → Server → Prop
  | .ok info, w => info.url = url ∧ Tracked source url source.length w
  | .error _, _ => True

theorem lastCheck_spec {n : Nat} (error : Error) :
    Spec client source (Tracked source url n) (lastCheck client url source.length error)
      (Outcome source url) := by
  refine Triple.bind _ uploadInfoAt_spec fun r => ?_
  cases r with
  | error e => exact Triple.done fun _ _ => trivial
  | ok remote =>
    dsimp only
    split
    · exact Triple.done fun _ _ => trivial
    · split
      · next hoff =>
        refine Triple.done fun w h => ⟨h.2, ?_⟩
        rw [hoff] at h
        exact h.1
      · exact Triple.done fun _ _ => trivial

theorem resumeLoop_spec (rounds attempt : Nat) (observed : Option Nat)
    (created : Option (UploadInfo Meta)) (hurl : ∀ info ∈ created, info.url = url) :
    Spec client source (Tracked source url (created.elim 0 UploadInfo.offset))
      (resumeLoop client url source.length rounds attempt observed created)
      (Outcome source url) := by
  induction rounds generalizing attempt observed created with
  | zero => exact Triple.step (fun a => nomatch a) (tracked_stable _) (fun _ a => nomatch a) nofun
  | succ n ih =>
    have hnext : ∀ attempt' observed' error, Spec client source (Tracked source url 0)
        (Prog.bind (beforeNextAttempt client attempt' error) fun
          | .error e => .done (.error e)
          | .ok _ => resumeLoop client url source.length n (attempt' + 1) observed' none)
        (Outcome source url) := by
      intro attempt' observed' error
      refine Triple.bind _ (beforeNextAttempt_spec (tracked_stable 0) _ _) fun r => ?_
      cases r with
      | error e => exact Triple.done fun _ _ => trivial
      | ok _ => exact ih (attempt' + 1) observed' none nofun
    unfold resumeLoop
    refine Triple.bind (fun
      | .ok info, w => Tracked source url info.offset w ∧ info.url = url
      | .error _, w => Tracked source url 0 w) ?_ fun r => ?_
    · cases created with
      | some info => exact Triple.done fun w h => ⟨h, hurl info rfl⟩
      | none => exact uploadInfoAt_spec
    cases r with
    | error error =>
      dsimp only
      split
      · exact Triple.done fun _ _ => trivial
      · exact hnext attempt observed error
    | ok remote =>
      dsimp only
      split
      · exact Triple.done fun _ _ => trivial
      split
      · next hoff =>
        refine Triple.done fun w h => ⟨h.2, ?_⟩
        rw [hoff] at h
        exact h.1
      refine Triple.bind _
        ((patchSource_spec remote.offset).weaken (fun _ h => h.1) fun _ _ h => h) fun r => ?_
      cases r with
      | ok _ => exact Triple.done fun w h => ⟨rfl, h⟩
      | error error =>
        refine Triple.ite (fun _ => Triple.done fun _ _ => trivial) fun _ => ?_
        exact Triple.ite (fun _ => lastCheck_spec error) fun _ => hnext _ _ error

/-- What is read exactly is the asked slice of the source. -/
theorem readLoop_spec (fuel offset capacity : Nat) (body : Bytes)
    (hbody : body <+: source.drop offset) :
    Spec client source (fun _ => True) (readLoop source.length offset capacity fuel body) (fun
      | .ok bytes, _ => bytes <+: source.drop offset
      | .error _, _ => True) := by
  induction fuel generalizing body with
  | zero => exact Triple.done fun _ _ => hbody
  | succ n ih =>
    unfold readLoop
    refine Triple.ite (fun _ => ?_) fun _ => ?_
    · refine readChunk_spec (fun _ _ _ _ => trivial) (fun chunk hchunk => ?_) fun e => ?_
      · refine Triple.ite (fun _ => Triple.done fun _ _ => trivial) fun _ => ?_
        refine Triple.ite (fun _ => Triple.done fun _ _ => trivial) fun _ => ?_
        refine ih (body ++ chunk) (append_initial hbody ?_)
        rwa [List.drop_drop]
      · exact Triple.done fun _ _ => trivial
    · exact Triple.done fun _ _ => hbody

theorem headerString_ok {v : Option String} {label s : String}
    (h : headerString v label = .ok s) : v = some s := by
  cases v with
  | none => cases h
  | some s' => rw [Except.ok.inj h]

theorem createdOffset_le {w : Server} {r : Response} {hasBody : Bool} {length n : Nat}
    (ht : w.Truthful url r) (h : createdOffset hasBody length r = .ok n) :
    n ≤ (w.content url).length := by
  unfold createdOffset at h
  split at h
  · obtain ⟨m, hm, h⟩ := except_bind_ok h
    obtain ⟨_, -, h⟩ := except_bind_ok h
    exact Except.ok.inj h ▸ truthful_offset ht hm
  · exact Except.ok.inj h ▸ Nat.zero_le _

/-- A creation the client accepts leaves an upload that holds a prefix of the body. -/
theorem createUploadRequest_spec (length : Nat) (body : Option Bytes) (metadata : Meta)
    (hbody : body.getD [] <+: source) :
    Spec client source (fun _ => True) (createUploadRequest client length body metadata) (fun
      | .ok info, w => Tracked source info.url info.offset w
      | .error _, _ => True) := by
  refine Triple.step (fun
    | .ok r, w => r.status = 201 → ∀ location url, r.location = some location →
        client.resolveServerLocation location = .ok url →
        w.content url <+: source ∧ w.Truthful url r
    | .error _, _ => True) (fun _ _ _ _ => trivial) ?_ ?_
  · intro w a w' hi _ he
    cases he with
    | @created _ _ k _ r location url hloc hres ht =>
      refine ⟨⟨hi, fun u hu h0 => absurd h0 hu⟩, fun _ location' url' hloc' hres' => ?_⟩
      obtain rfl : location = location' := Option.some.inj (hloc.symm.trans hloc')
      obtain rfl : url = url' := Except.ok.inj (hres.symm.trans hres')
      refine ⟨?_, ht⟩
      simp only [Server.create, Function.update_self]
      exact (List.take_prefix k _).trans hbody
    | notCreated hnot =>
      refine ⟨⟨hi, fun _ _ _ => grows_refl w⟩, fun hst location url hloc hres => ?_⟩
      rcases hnot with hnot | hnot
      · exact absurd hst hnot
      · exact absurd hres (hnot location url hloc)
    | postLost => exact ⟨⟨hi, fun _ _ _ => grows_refl w⟩, trivial⟩
  · intro r
    cases r with
    | error e => exact Triple.done fun _ _ => trivial
    | ok r =>
      dsimp only
      split
      · exact Triple.done fun _ _ => trivial
      · next hst =>
        refine Triple.done fun w h => ?_
        split
        · next info hinfo =>
          obtain ⟨location, hloc, hinfo⟩ := except_bind_ok hinfo
          obtain ⟨url, hres, hinfo⟩ := except_bind_ok hinfo
          obtain ⟨offset, hoff, hinfo⟩ := except_bind_ok hinfo
          obtain rfl := Except.ok.inj hinfo
          obtain ⟨hpre, ht⟩ := h (not_not.mp hst) location url (headerString_ok hloc) hres
          exact ⟨hpre, createdOffset_le ht hoff⟩
        · trivial

/-- The result of an upload: the source is stored at the URL the client returns. -/
def Stored (source : Bytes) : Except Error (UploadInfo Meta) → Server → Prop
  | .ok info, w => Tracked source info.url source.length w
  | .error _, _ => True

theorem stored_of_outcome (r : Except Error (UploadInfo Meta)) (w : Server)
    (h : Outcome source url r w) : Stored source r w := by
  cases r with
  | error e => trivial
  | ok info =>
    obtain ⟨rfl, ht⟩ := h
    exact ht

theorem creationCapabilities_spec (length : Nat) :
    Spec client source (fun _ => True) (creationCapabilities client length)
      (fun _ _ => True) := by
  refine Triple.ite (fun _ => Triple.done fun _ _ => trivial) fun _ => ?_
  refine query_spec (fun _ => True) (fun _ _ _ _ => trivial) ?_ fun r _ => ?_
  · rintro w a w' ⟨⟩
    exact ⟨rfl, trivial⟩
  · cases r with
    | ok extensions => exact Triple.done fun _ _ => trivial
    | error e =>
      cases e with
      | unexpectedResponse operation status retryAfter =>
        exact Triple.ite (fun _ => Triple.done fun _ _ => trivial)
          fun _ => Triple.done fun _ _ => trivial
      | _ => exact Triple.done fun _ _ => trivial

theorem uploadFrom_spec (rounds : Nat) (metadata : Meta) :
    Spec client source (fun _ => True) (uploadFrom client rounds source.length metadata)
      (Stored source) := by
  have hloop : ∀ info : UploadInfo Meta, Spec client source (Tracked source info.url info.offset)
      (resumeLoop client info.url source.length rounds 0 none (some info)) (Stored source) :=
    fun info => (resumeLoop_spec rounds 0 none (some info) (by rintro _ ⟨⟩; rfl)).weaken
      (fun _ h => h) stored_of_outcome
  refine Triple.bind _ (creationCapabilities_spec _) fun capabilities => ?_
  cases capabilities with
  | error e => exact Triple.done fun _ _ => trivial
  | ok capabilities =>
    refine Triple.ite (fun _ => ?_) fun _ => ?_
    · refine Triple.bind _ (readLoop_spec _ 0 _ [] (List.nil_prefix)) fun body => ?_
      cases body with
      | error e => exact Triple.done fun _ _ => trivial
      | ok body =>
        intro s hbody
        have hbody' : body <+: source := hbody
        refine Triple.bind _ (createUploadRequest_spec _ (some body) metadata hbody') ?_ s trivial
        intro upload
        cases upload with
        | error e => exact Triple.done fun _ _ => trivial
        | ok upload =>
          refine query_spec (fun _ => True) (tracked_stable upload.offset) ?_ fun _ _ => ?_
          · rintro w a w' ⟨⟩
            exact ⟨rfl, trivial⟩
          · refine Triple.ite (fun hoff => ?_) fun _ => hloop upload
            refine Triple.done fun w (h : Tracked source upload.url upload.offset w) => ?_
            rw [hoff] at h
            exact h
    · refine Triple.bind _ (createUploadRequest_spec _ none metadata List.nil_prefix) fun info => ?_
      cases info with
      | error e => exact Triple.done fun _ _ => trivial
      | ok info => exact hloop info

/-- The calls of the client: a resume of an upload that holds a prefix of the source, or a
new upload. -/
inductive Starts (client : Client Meta) (source : Bytes) (w : Server) :
    Net (UploadInfo Meta) → Prop
  | resume (rounds : Nat) (url : String) : w.content url <+: source →
      Starts client source w (resumeAt client rounds url source.length)
  | upload (rounds : Nat) (metadata : Meta) :
      Starts client source w (uploadFrom client rounds source.length metadata)

/-- One client on its own. -/
def alone (w : Server) (p : Net (UploadInfo Meta)) :
    Interaction.Config NetSig Server (Except Error (UploadInfo Meta)) :=
  ⟨⟨w, []⟩, fun t => if t = 0 then some p else none⟩

/-- Once the upload or resume loop has returned successfully, the server holds exactly the
source at the returned URL, whatever was lost, delayed or only partly accepted on the way. -/
theorem client_ok_content (client : Client Meta) (source : Bytes) (w : Server)
    (hw : Slices source w) (p : Net (UploadInfo Meta)) (hp : Starts client source w p)
    (c : Interaction.Config NetSig Server (Except Error (UploadInfo Meta)))
    (hr : Reach (machine client source) (alone w p) c) (info : UploadInfo Meta)
    (hdone : c.pool 0 = some (.done (.ok info))) : c.snap.world.content info.url = source := by
  have hspec : Spec client source (fun w' => w' = w) p (Stored source) := by
    cases hp with
    | resume rounds url hpre =>
      refine (resumeLoop_spec rounds 0 none none nofun).weaken ?_ stored_of_outcome
      rintro _ rfl
      exact ⟨hpre, Nat.zero_le _⟩
    | upload rounds metadata =>
      exact (uploadFrom_spec rounds metadata).weaken (fun _ _ => trivial) fun _ _ h => h
  have hstored : Stored source (.ok info) c.snap.world := by
    refine Triple.result (P := fun _ w' => w' = w)
      (Q := fun t r w => t = 0 → Stored source r w) client_lawful hw ?_ ?_ hr hdone rfl
    · intro t q hq
      simp only [alone] at hq
      split at hq
      · next ht =>
        obtain rfl := Option.some.inj hq
        subst ht
        exact ⟨rfl, hspec.weaken (fun _ h => h) fun _ _ h _ => h⟩
      · cases hq
    · intro t r w₁ w₂ h hrely ht
      cases r with
      | error e => trivial
      | ok info => exact tracked_grows (h ht) (hrely ht)
  exact tracked_complete hstored

/-- A resume over three bytes with one byte per request: the first PATCH takes effect but
its response is lost, the client asks again and sends only the missing byte. -/
theorem client_ok_content_lost_response :
    ∃ c info, Reach (machine ⟨1, 0, 1, 0, false, .ok, fun _ => .ok ()⟩ [1, 2, 3])
        (alone ⟨fun _ => [1], []⟩
          (resumeAt ⟨1, 0, 1, 0, false, .ok, fun _ => .ok ()⟩ 2 "u" 3)) c ∧
      c.pool 0 = some (.done (.ok info)) ∧ c.snap.world.content info.url = [1, 2, 3] := by
  have reply : ∀ (status : Nat) (offset : String) (w : Server) (n : Nat),
      parseU64 offset = some n → n ≤ (w.content "u").length →
      w.Truthful "u" ⟨status, none, some offset, none, none, none⟩ := by
    intro status offset w n hn hle v m hv hm
    obtain rfl := Option.some.inj hv
    exact Option.some.inj (hn.symm.trans hm) ▸ hle
  have h := Reach.run (M := machine ⟨1, 0, 1, 0, false, .ok, fun _ => .ok ()⟩ [1, 2, 3])
    (c := alone ⟨fun _ => [1], []⟩
      (resumeAt ⟨1, 0, 1, 0, false, .ok, fun _ => .ok ()⟩ 2 "u" 3)) .refl
    0 (.head "u") (.ok ⟨200, none, some "1", none, none, none⟩) rfl
    (.head (reply _ _ _ 1 (by decide) (by decide)))
  have h := h.run 0 (.readChunk 1 1) (.ok [2]) rfl (.readChunk ⟨[3], rfl⟩)
  have h := h.run 0 (.patch "u" 1 [2]) (.error (.transport "reset" true)) rfl
    (.patchLost (.inr ⟨rfl, 1, rfl⟩))
  have h := h.run 0 (.sleep 0) () rfl .sleep
  have h := h.run 0 (.head "u") (.ok ⟨200, none, some "2", none, none, none⟩) rfl
    (.head (reply _ _ _ 2 (by decide) (by decide)))
  have h := h.run 0 (.readChunk 2 1) (.ok [3]) rfl (.readChunk ⟨[], rfl⟩)
  have h := h.run 0 (.patch "u" 2 [3]) (.ok ⟨204, none, some "3", none, none, none⟩) rfl
    (.patch (.inr ⟨rfl, 1, rfl⟩) (reply _ _ _ 3 (by decide) (by decide)))
  have h := h.run 0 (.onProgress 3 3) () rfl .onProgress
  refine ⟨_, _, h, rfl, ?_⟩
  exact client_ok_content _ [1, 2, 3] ⟨fun _ => [1], []⟩ (fun _ hq => nomatch hq) _
    (.resume 2 "u" ⟨[2, 3], rfl⟩) _ h _ rfl

end Safety

end Uploader

end TusRs
