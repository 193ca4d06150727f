import TusRs.Protocol.Limits

/-!
# Body intake

`tus-protocol/src/lifecycle/receive/body.rs`: what is checked about a request body before
and while it is read. A body is absent, buffered, or a stream of frames; the digests are
those of other crates and stand here as a parameter.

Results:

* `validatedStream_ok`: a stream that is read to its end has passed the checks at its end.
* `prepare_ok`: a body that is read to its end is the one that was sent, has the size intake
  announced and, with a checksum header of the Checksum extension, that digest.
-/

namespace TusRs

namespace Protocol

/-- The chunks of a body, buffered or as they arrive; a stream may end in an error. -/
inductive ChunkStream where
  | buffered (bytes : Bytes)
  | stream (chunks : List (Except IoError Bytes))

/-- The bytes of a body that arrives without error. -/
def ChunkStream.collect : ChunkStream → Option Bytes
  | .buffered bytes => some bytes
  | .stream chunks => (chunks.mapM Except.toOption).map List.flatten

/-- Parsed `Upload-Checksum` value. -/
structure UploadChecksum where
  algorithm : ChecksumAlgorithm
  digest : Bytes
deriving DecidableEq

/-- `Upload-Concat`. -/
inductive UploadConcat where
  | partialUpload
  | finalUpload (partUrls : List String)
deriving DecidableEq

/-- `Headers`, parsed; the URL headers are left out. Lengths are `u64`. -/
structure Headers where
  uploadOffset : Option Nat
  uploadLength : Option Nat
  uploadDeferLength : Bool
  uploadMetadata : Option (List (String × Bytes))
  uploadChecksum : Option UploadChecksum
  uploadChecksumError : Option Error
  uploadConcat : Option UploadConcat
  contentLength : Option Nat
  contentType : Option String

/-- `validate_patch_content_type`. -/
def Headers.validatePatchContentType (h : Headers) : Except Error Unit :=
  match h.contentType with
  | some ct =>
    if "application/offset+octet-stream".toList.isPrefixOf ct.toList then .ok ()
    else .error (.invalidContentType "application/offset+octet-stream" ct)
  | none => .error (.invalidContentType "application/offset+octet-stream" "missing")

/-- A frame of a streamed body; of trailers only the parsed checksum matters. -/
inductive BodyFrame where
  | data (bytes : Bytes)
  | trailers (checksum : Except Error (Option UploadChecksum))

inductive RequestBody where
  | absent
  | bytes (bytes : Bytes)
  | stream (frames : List (Except IoError BodyFrame))

def RequestBody.isSupplied : RequestBody → Bool
  | .absent => false
  | _ => true

/-- `IntakeBody`; `deferred` is the error that reading the stream to its failure leaves
behind. -/
structure IntakeBody where
  data : ChunkStream
  size : Nat
  supplied : Bool
  deferred : Option Error

/-- The digest of each algorithm and the text of a digest in an error. -/
structure Digests where
  calculate : ChecksumAlgorithm → Bytes → Bytes
  encode : Bytes → String

/-! ## Checks -/

/-- `content_length_mismatch`. -/
def contentLengthMismatch (contentLength actualLen : Nat) : Error :=
  .invalidHeader "Content-Length"
    s!"declared content length {contentLength} does not match body size {actualLen}"

def validateContentLength (headers : Headers) (actualLen : Nat) : Except Error Unit :=
  match headers.contentLength with
  | some contentLength =>
    if contentLength ≠ actualLen then .error (contentLengthMismatch contentLength actualLen)
    else .ok ()
  | none => .ok ()

/-- `enforce_body_limit`. -/
def enforceBodyLimit (currentLen nextLen : Nat) (limit : Option Nat) : Except Error Unit :=
  enforce limit (satAdd currentLen nextLen)

/-- `effective_checksum`. -/
def effectiveChecksum (config : Config) (headers : Headers)
    (trailers : Option (Except Error (Option UploadChecksum))) :
    Except Error (Option UploadChecksum) :=
  if headers.uploadChecksum.isSome then .ok headers.uploadChecksum
  else if !config.hasExtension .checksumTrailer then .ok none
  else trailers.getD (.ok none)

def validateChecksumAlgorithm (config : Config) (algorithm : ChecksumAlgorithm) :
    Except Error Unit :=
  if config.hasExtension .checksum && !config.supportsChecksumAlgorithm algorithm then
    .error (.unsupportedChecksum algorithm.asStr)
  else .ok ()

/-- `verify_checksum`. -/
def verifyChecksum (digests : Digests) (config : Config) (checksum : Option UploadChecksum)
    (bytes : Bytes) : Except Error Unit :=
  match checksum with
  | none => .ok ()
  | some checksum =>
    if !config.hasExtension .checksum then .ok ()
    else do
      validateChecksumAlgorithm config checksum.algorithm
      let calculated := digests.calculate checksum.algorithm bytes
      if calculated ≠ checksum.digest then
        throw (.checksumMismatch (digests.encode checksum.digest) (digests.encode calculated))

/-- `streaming_hashers`: the algorithms hashed while a body is streamed. -/
def streamingHashers (config : Config) (headers : Headers) : List ChecksumAlgorithm :=
  if !config.hasExtension .checksum then []
  else match headers.uploadChecksum with
    | some checksum => [checksum.algorithm]
    | none =>
      if config.hasExtension .checksumTrailer then
        [.sha1, .sha256, .md5, .crc32].filter config.supportsChecksumAlgorithm
      else []

/-- `verify_streamed_checksum`. -/
def verifyStreamedChecksum (digests : Digests) (config : Config)
    (checksum : Option UploadChecksum) (hashers : List ChecksumAlgorithm) (bytes : Bytes) :
    Except Error Unit :=
  match checksum with
  | none => .ok ()
  | some checksum =>
    if !config.hasExtension .checksum then .ok ()
    else do
      validateChecksumAlgorithm config checksum.algorithm
      if checksum.algorithm ∉ hashers then
        let name := checksum.algorithm.asStr
        throw (.internal s!"no streaming digest was computed for checksum algorithm {name}")
      let calculated := digests.calculate checksum.algorithm bytes
      if calculated ≠ checksum.digest then
        throw (.checksumMismatch (digests.encode checksum.digest) (digests.encode calculated))

/-- `validate_before_polling`. -/
def validateBeforePolling (config : Config) (headers : Headers) (bodyLimit : Option Nat) :
    Except Error Unit := do
  if config.hasExtension .checksum then
    match headers.uploadChecksumError with
    | some e => throw e
    | none => pure ()
    match headers.uploadChecksum with
    | some checksum => validateChecksumAlgorithm config checksum.algorithm
    | none => pure ()
  match headers.contentLength with
  | some contentLength => enforce bodyLimit contentLength
  | none => pure ()

/-! ## Reading a body -/

/-- `collect_buffered`. -/
def collectBuffered (digests : Digests) (config : Config) (headers : Headers)
    (bodyLimit : Option Nat) (supplied : Bool) (bytes : Bytes)
    (trailers : Option (Except Error (Option UploadChecksum))) : Except Error IntakeBody := do
  enforceBodyLimit 0 bytes.length bodyLimit
  validateContentLength headers bytes.length
  let checksum ← effectiveChecksum config headers trailers
  verifyChecksum digests config checksum bytes
  pure ⟨.buffered bytes, bytes.length, supplied, none⟩

/-- `collect_frames` from the bytes and trailers read so far. -/
def collectFrames (bodyLimit : Option Nat) :
    Bytes → Option (Except Error (Option UploadChecksum)) → List (Except IoError BodyFrame) →
    Except Error (Bytes × Option (Except Error (Option UploadChecksum)))
  | buffer, trailers, [] => .ok (buffer, trailers)
  | _, _, .error e :: _ => .error (.io e)
  | buffer, trailers, .ok (.data bytes) :: frames => do
    enforceBodyLimit buffer.length bytes.length bodyLimit
    collectFrames bodyLimit (buffer ++ bytes) trailers frames
  | buffer, _, .ok (.trailers checksum) :: frames =>
    collectFrames bodyLimit buffer (some checksum) frames

/-- `StreamingBodyState::accept_data`: the size after the chunk. -/
def acceptData (headers : Headers) (bodyLimit : Option Nat) (seen next : Nat) :
    Except Error Nat := do
  let nextSize := satAdd seen next
  enforce bodyLimit nextSize
  match headers.contentLength with
  | some contentLength =>
    if nextSize > contentLength then throw (contentLengthMismatch contentLength nextSize)
  | none => pure ()
  pure nextSize

/-- `StreamingBodyState::finish`. -/
def finishBody (digests : Digests) (config : Config) (headers : Headers) (seen : Nat)
    (trailers : Option (Except Error (Option UploadChecksum))) (bytes : Bytes) :
    Except Error Unit := do
  validateContentLength headers seen
  let checksum ← effectiveChecksum config headers trailers
  verifyStreamedChecksum digests config checksum (streamingHashers config headers) bytes

/-- The `io::Error` of kind `InvalidData` that carries a validation error. -/
def validationIo (_ : Error) : IoError := .other "InvalidData"

/-- `validated_stream`: the chunks that reading yields, and the error left behind. `read`
are the bytes the hashers have seen. -/
def validatedStream (digests : Digests) (config : Config) (headers : Headers)
    (bodyLimit : Option Nat) : Nat → Option (Except Error (Option UploadChecksum)) → Bytes →
    List (Except IoError BodyFrame) → List (Except IoError Bytes) × Option Error
  | seen, trailers, read, [] =>
    match finishBody digests config headers seen trailers read with
    | .ok _ => ([], none)
    | .error e => ([.error (validationIo e)], some e)
  | _, _, _, .error e :: _ => ([.error e], some (.internal "body stream failed"))
  | seen, _, read, .ok (.trailers checksum) :: frames =>
    validatedStream digests config headers bodyLimit seen (some checksum) read frames
  | seen, trailers, read, .ok (.data bytes) :: frames =>
    match acceptData headers bodyLimit seen bytes.length with
    | .error e => ([.error (validationIo e)], some e)
    | .ok seen =>
      let rest := validatedStream digests config headers bodyLimit seen trailers (read ++ bytes)
        frames
      (.ok bytes :: rest.1, rest.2)

/-- `prepare`. -/
def prepare (digests : Digests) (config : Config) (headers : Headers) (bodyLimit : Option Nat)
    (body : RequestBody) : Except Error IntakeBody := do
  validateBeforePolling config headers bodyLimit
  match body with
  | .absent => collectBuffered digests config headers bodyLimit false [] none
  | .bytes bytes => collectBuffered digests config headers bodyLimit true bytes none
  | .stream frames =>
    match headers.contentLength with
    | some contentLength =>
      let chunks := validatedStream digests config headers bodyLimit 0 none [] frames
      pure ⟨.stream chunks.1, contentLength, true, chunks.2⟩
    | none =>
      match tightest [bodyLimit, config.maxIntakeBuffer] with
      | none => throw .lengthRequired
      | some limit => do
        let (bytes, trailers) ← collectFrames (some limit) [] none frames
        collectBuffered digests config headers (some limit) true bytes trailers

/-! ## What intake guarantees -/

/-- The bytes a body carries. -/
def RequestBody.content : RequestBody → Bytes
  | .absent => []
  | .bytes b => b
  | .stream frames => frames.flatMap fun
    | .ok (.data b) => b
    | _ => []

section Intake

variable {digests : Digests} {config : Config} {headers : Headers} {bodyLimit : Option Nat}

/-- The digest that a checksum in the headers asks for. -/
def Verified (digests : Digests) (config : Config) (headers : Headers) (bytes : Bytes) : Prop :=
  ∀ checksum, config.hasExtension .checksum = true → headers.uploadChecksum = some checksum →
    digests.calculate checksum.algorithm bytes = checksum.digest

theorem validateContentLength_ok {n : Nat} (h : validateContentLength headers n = .ok ()) :
    ∀ l, headers.contentLength = some l → l = n := by
  intro l hl
  simp only [validateContentLength, hl] at h
  by_contra hne
  rw [if_pos hne] at h
  cases h

theorem effectiveChecksum_header {trailers : Option (Except Error (Option UploadChecksum))}
    {checksum : UploadChecksum} (h : headers.uploadChecksum = some checksum) :
    effectiveChecksum config headers trailers = .ok (some checksum) := by
  simp [effectiveChecksum, h]

theorem digest_of_guard {checksum : UploadChecksum} {calculated : Bytes} {e : Error}
    (h : (if calculated ≠ checksum.digest then throw e else pure () : Except Error Unit) = .ok ()) :
    calculated = checksum.digest := by
  by_contra hne
  rw [if_pos hne] at h
  cases h

theorem verifyChecksum_ok {checksum : UploadChecksum} {bytes : Bytes}
    (hx : config.hasExtension .checksum = true)
    (h : verifyChecksum digests config (some checksum) bytes = .ok ()) :
    digests.calculate checksum.algorithm bytes = checksum.digest := by
  simp only [verifyChecksum, hx, Bool.not_true, Bool.false_eq_true, if_false] at h
  obtain ⟨_, _, h⟩ := Interaction.except_bind_ok h
  exact digest_of_guard h

theorem verifyStreamedChecksum_ok {checksum : UploadChecksum} {bytes : Bytes}
    {hashers : List ChecksumAlgorithm} (hx : config.hasExtension .checksum = true)
    (h : verifyStreamedChecksum digests config (some checksum) hashers bytes = .ok ()) :
    digests.calculate checksum.algorithm bytes = checksum.digest := by
  simp only [verifyStreamedChecksum, hx, Bool.not_true, Bool.false_eq_true, if_false] at h
  obtain ⟨_, _, h⟩ := Interaction.except_bind_ok h
  by_cases hmem : checksum.algorithm ∉ hashers
  · rw [if_pos hmem] at h
    cases h
  · rw [if_neg hmem] at h
    exact digest_of_guard h

theorem finishBody_ok {seen : Nat} {trailers : Option (Except Error (Option UploadChecksum))}
    {bytes : Bytes} (h : finishBody digests config headers seen trailers bytes = .ok ()) :
    (∀ l, headers.contentLength = some l → l = seen) ∧
      Verified digests config headers bytes := by
  obtain ⟨_, hlen, h⟩ := Interaction.except_bind_ok h
  refine ⟨validateContentLength_ok hlen, ?_⟩
  intro checksum hx hc
  rw [effectiveChecksum_header hc] at h
  exact verifyStreamedChecksum_ok hx h

/-- A buffered body is passed on as it is, with its size. -/
theorem collectBuffered_ok {supplied : Bool} {bytes : Bytes} {body : IntakeBody}
    {trailers : Option (Except Error (Option UploadChecksum))}
    (h : collectBuffered digests config headers bodyLimit supplied bytes trailers = .ok body) :
    body = ⟨.buffered bytes, bytes.length, supplied, none⟩ ∧
      Verified digests config headers bytes := by
  obtain ⟨_, _, h⟩ := Interaction.except_bind_ok h
  obtain ⟨_, _, h⟩ := Interaction.except_bind_ok h
  obtain ⟨checksum, hc, h⟩ := Interaction.except_bind_ok h
  obtain ⟨_, hv, h⟩ := Interaction.except_bind_ok h
  refine ⟨(Except.ok.inj h).symm, ?_⟩
  intro c hx hh
  rw [effectiveChecksum_header hh] at hc
  cases hc
  exact verifyChecksum_ok hx hv

theorem collectFrames_ok {buffer bytes : Bytes} {frames : List (Except IoError BodyFrame)}
    {trailers trailers' : Option (Except Error (Option UploadChecksum))}
    (h : collectFrames bodyLimit buffer trailers frames = .ok (bytes, trailers')) :
    bytes = buffer ++ (RequestBody.stream frames).content := by
  induction frames generalizing buffer trailers with
  | nil =>
    cases h
    simp [RequestBody.content]
  | cons frame frames ih =>
    match frame with
    | .error e => cases h
    | .ok (.trailers c) => exact ih h
    | .ok (.data d) =>
      obtain ⟨_, _, h⟩ := Interaction.except_bind_ok h
      rw [ih h]
      simp [RequestBody.content]

theorem acceptData_ok {seen next n : Nat}
    (h : acceptData headers bodyLimit seen next = .ok n) : n = satAdd seen next := by
  obtain ⟨_, _, h⟩ := Interaction.except_bind_ok h
  cases hl : headers.contentLength with
  | none =>
    simp only [hl] at h
    exact (Except.ok.inj h).symm
  | some l =>
    simp only [hl] at h
    by_cases hgt : satAdd seen next > l
    · rw [if_pos hgt] at h
      cases h
    · rw [if_neg hgt] at h
      exact (Except.ok.inj h).symm

theorem satAdd_satAdd (a b c : Nat) : satAdd (satAdd a b) c = satAdd a (b + c) := by
  simp only [satAdd]
  omega

/-- Reading a validated stream to its end without an error yields the body's bytes, and the
checks at its end have passed. -/
theorem validatedStream_ok {seen : Nat} {read : Bytes} {chunks : List Bytes}
    {frames : List (Except IoError BodyFrame)}
    {trailers : Option (Except Error (Option UploadChecksum))} (hseen : seen ≤ u64Max)
    (h : (validatedStream digests config headers bodyLimit seen trailers read frames).1.mapM
      Except.toOption = some chunks) :
    (validatedStream digests config headers bodyLimit seen trailers read frames).2 = none ∧
      chunks.flatten = (RequestBody.stream frames).content ∧
      ∃ trailers', finishBody digests config headers (satAdd seen chunks.flatten.length) trailers'
        (read ++ chunks.flatten) = .ok () := by
  induction frames generalizing seen read trailers chunks with
  | nil =>
    unfold validatedStream at h ⊢
    split at h
    · next hf =>
      cases h
      refine ⟨rfl, rfl, trailers, ?_⟩
      rw [List.reverse_nil, List.flatten_nil, List.append_nil, List.length_nil, satAdd_eq (by omega), Nat.add_zero, hf]
    · cases h
  | cons frame frames ih =>
    match frame with
    | .error e => cases h
    | .ok (.trailers c) =>
      obtain ⟨hd, hc, hf⟩ := ih hseen h
      exact ⟨hd, hc, hf⟩
    | .ok (.data d) =>
      unfold validatedStream at h ⊢
      split at h
      · cases h
      · next seen' ha =>
        have hseen' := acceptData_ok ha
        -- the first chunk is `d`, the others are those of the remaining frames
        simp only [List.mapM_cons, Except.toOption, Option.pure_def, Option.bind_eq_bind,
          Option.bind_some] at h
        obtain ⟨rest, hrest, hchunks⟩ := Option.bind_eq_some_iff.mp h
        cases hchunks
        obtain ⟨hd, hc, trailers', hf⟩ := ih (hseen' ▸ satAdd_le_max _ _) hrest
        refine ⟨hd, ?_, trailers', ?_⟩
        · rw [List.flatten_cons, hc]
          simp [RequestBody.content]
        · rw [hseen', satAdd_satAdd, List.append_assoc] at hf
          rw [List.flatten_cons, List.length_append]
          exact hf

/-- What intake hands on is the body's content if it can be read to its end. -/
structure Delivers (body : RequestBody) (intake : IntakeBody) (bytes : Bytes) : Prop where
  content : bytes = body.content
  size : bytes.length ≤ u64Max → bytes.length = intake.size
  deferred : intake.deferred = none

theorem Delivers.buffered {body : RequestBody} {supplied : Bool} {bytes : Bytes}
    (h : bytes = body.content) : Delivers body ⟨.buffered bytes, bytes.length, supplied, none⟩ bytes :=
  ⟨h, fun _ => rfl, rfl⟩

/-- A body that is read to its end without error is delivered, and has the digest its
checksum header asks for. -/
theorem prepare_ok {body : RequestBody} {result : IntakeBody} {bytes : Bytes}
    (h : prepare digests config headers bodyLimit body = .ok result)
    (hc : result.data.collect = some bytes) :
    Delivers body result bytes ∧ Verified digests config headers bytes := by
  obtain ⟨_, _, h⟩ := Interaction.except_bind_ok h
  cases body with
  | absent =>
    obtain ⟨rfl, hv⟩ := collectBuffered_ok h
    cases hc
    exact ⟨.buffered rfl, hv⟩
  | bytes b =>
    obtain ⟨rfl, hv⟩ := collectBuffered_ok h
    cases hc
    exact ⟨.buffered rfl, hv⟩
  | stream frames =>
    dsimp only at h
    split at h
    · next contentLength hl =>
      cases h
      obtain ⟨chunks, hchunks, rfl⟩ := Option.map_eq_some_iff.mp hc
      obtain ⟨hd, hcontent, trailers, hf⟩ := validatedStream_ok (Nat.zero_le _) hchunks
      obtain ⟨hlen, hv⟩ := finishBody_ok hf
      refine ⟨⟨hcontent, ?_, hd⟩, by simpa using hv⟩
      intro hfit
      rw [hlen contentLength hl, satAdd_eq (by omega), Nat.zero_add]
    · split at h
      · cases h
      · obtain ⟨⟨b, trailers⟩, hb, h⟩ := Interaction.except_bind_ok h
        obtain ⟨rfl, hv⟩ := collectBuffered_ok h
        cases hc
        exact ⟨.buffered (by simpa using collectFrames_ok hb), hv⟩

end Intake

end Protocol

end TusRs
