import TusRs.Protocol.Body

/-!
# Streamed and buffered intake

A body with a Content-Length is checked while it streams into storage; one without is
buffered first. Both read the same frames: `readFrames` is what there is to read, and `Checks`
what has to hold of it.

Results:

* `streamed_agrees_with_buffered`: both kinds of intake accept the same bodies with the same
  bytes and size, and the digest a stream is checked against has always been computed.
-/

namespace TusRs

namespace Protocol

variable {digests : Digests} {config : Config} {headers : Headers} {bodyLimit : Option Nat}

/-- The chunks and the last trailers of frames that arrive without error. -/
def readFrames : Option (Except Error (Option UploadChecksum)) →
    List (Except IoError BodyFrame) →
    Option (List Bytes × Option (Except Error (Option UploadChecksum)))
  | trailers, [] => some ([], trailers)
  | _, .error _ :: _ => none
  | _, .ok (.trailers checksum) :: frames => readFrames (some checksum) frames
  | trailers, .ok (.data bytes) :: frames =>
    (readFrames trailers frames).map fun r => (bytes :: r.1, r.2)

theorem readFrames_content {frames : List (Except IoError BodyFrame)} {chunks : List Bytes}
    {trailers trailers' : Option (Except Error (Option UploadChecksum))}
    (h : readFrames trailers frames = some (chunks, trailers')) :
    chunks.flatten = (RequestBody.stream frames).content := by
  induction frames generalizing trailers chunks with
  | nil =>
    cases h
    rfl
  | cons frame frames ih =>
    match frame with
    | .error e => cases h
    | .ok (.trailers c) => exact ih h
    | .ok (.data d) =>
      obtain ⟨⟨rest, t⟩, hrest, heq⟩ := Option.map_eq_some_iff.mp h
      cases heq
      rw [List.flatten_cons, ih hrest]
      simp [RequestBody.content]

/-! ## Checks -/

/-- The checks on a body that has been read. -/
structure Checks (digests : Digests) (config : Config) (headers : Headers) (bodyLimit : Option Nat)
    (bytes : Bytes) (trailers : Option (Except Error (Option UploadChecksum))) : Prop where
  limit : ∀ max, bodyLimit = some max → bytes.length ≤ max
  contentLength : ∀ l, headers.contentLength = some l → l = bytes.length
  digest : ∃ checksum, effectiveChecksum config headers trailers = .ok checksum ∧
    verifyChecksum digests config checksum bytes = .ok ()

theorem validateContentLength_ok_iff {n : Nat} :
    validateContentLength headers n = .ok () ↔ ∀ l, headers.contentLength = some l → l = n := by
  refine ⟨validateContentLength_ok, fun h => ?_⟩
  unfold validateContentLength
  cases hl : headers.contentLength with
  | none => rfl
  | some l => exact if_neg (not_not.mpr (h l hl))

theorem bind_ok_iff {ε α β : Type} {x : Except ε α} {f : α → Except ε β} {b : β} :
    x >>= f = .ok b ↔ ∃ a, x = .ok a ∧ f a = .ok b := by
  refine ⟨Interaction.except_bind_ok, ?_⟩
  rintro ⟨a, rfl, h⟩
  exact h

theorem collectBuffered_ok_iff {supplied : Bool} {bytes : Bytes} {body : IntakeBody}
    {trailers : Option (Except Error (Option UploadChecksum))} (hfit : bytes.length ≤ u64Max) :
    collectBuffered digests config headers bodyLimit supplied bytes trailers = .ok body ↔
      Checks digests config headers bodyLimit bytes trailers ∧
        body = ⟨.buffered bytes, bytes.length, supplied, none⟩ := by
  have hzero : satAdd 0 bytes.length = bytes.length := by rw [satAdd_eq, Nat.zero_add]; omega
  unfold collectBuffered enforceBodyLimit
  rw [hzero]
  constructor
  · intro h
    obtain ⟨_, hlimit, h⟩ := bind_ok_iff.mp h
    obtain ⟨_, hlen, h⟩ := bind_ok_iff.mp h
    obtain ⟨checksum, hc, h⟩ := bind_ok_iff.mp h
    obtain ⟨_, hv, h⟩ := bind_ok_iff.mp h
    exact ⟨⟨enforce_ok hlimit, validateContentLength_ok hlen, checksum, hc, hv⟩,
      (Except.ok.inj h).symm⟩
  · rintro ⟨⟨hlimit, hlen, checksum, hc, hv⟩, rfl⟩
    exact bind_ok_iff.mpr ⟨(), enforce_ok_iff.mpr hlimit, bind_ok_iff.mpr
      ⟨(), validateContentLength_ok_iff.mpr hlen, bind_ok_iff.mpr
      ⟨checksum, hc, bind_ok_iff.mpr ⟨(), hv, rfl⟩⟩⟩⟩

/-- The checksum of a body comes from the headers, or from trailers that the configuration
allows. -/
theorem effectiveChecksum_source {checksum : UploadChecksum}
    {trailers : Option (Except Error (Option UploadChecksum))}
    (h : effectiveChecksum config headers trailers = .ok (some checksum)) :
    headers.uploadChecksum = some checksum ∨
      headers.uploadChecksum = none ∧ config.hasExtension .checksumTrailer = true := by
  unfold effectiveChecksum at h
  cases hc : headers.uploadChecksum with
  | some c =>
    rw [hc] at h
    exact .inl (Except.ok.inj h)
  | none =>
    rw [hc] at h
    cases ht : config.hasExtension .checksumTrailer with
    | true => exact .inr ⟨rfl, rfl⟩
    | false =>
      rw [ht] at h
      cases h

/-- The algorithm of a supported checksum has been hashed along. -/
theorem mem_streamingHashers {checksum : UploadChecksum}
    {trailers : Option (Except Error (Option UploadChecksum))}
    (hx : config.hasExtension .checksum = true)
    (h : effectiveChecksum config headers trailers = .ok (some checksum))
    (hs : validateChecksumAlgorithm config checksum.algorithm = .ok ()) :
    checksum.algorithm ∈ streamingHashers config headers := by
  have hsupported : config.supportsChecksumAlgorithm checksum.algorithm = true := by
    by_contra hno
    simp [validateChecksumAlgorithm, hx, hno] at hs
  unfold streamingHashers
  rw [hx]
  rcases effectiveChecksum_source h with hc | ⟨hc, ht⟩
  · simp [hc]
  · simp only [hc, ht, Bool.not_true, Bool.false_eq_true, if_false, if_true]
    refine List.mem_filter.mpr ⟨?_, hsupported⟩
    cases checksum.algorithm <;> simp

/-- A stream is checked as a buffered body is. -/
theorem verifyStreamedChecksum_eq {checksum : Option UploadChecksum} {bytes : Bytes}
    {trailers : Option (Except Error (Option UploadChecksum))}
    (h : effectiveChecksum config headers trailers = .ok checksum) :
    verifyStreamedChecksum digests config checksum (streamingHashers config headers) bytes =
      verifyChecksum digests config checksum bytes := by
  cases checksum with
  | none => rfl
  | some checksum =>
    unfold verifyStreamedChecksum verifyChecksum
    dsimp only
    cases hx : config.hasExtension .checksum with
    | false => rfl
    | true =>
      cases hs : validateChecksumAlgorithm config checksum.algorithm with
      | error e => rfl
      | ok _ =>
        have hmem := mem_streamingHashers hx h hs
        simp only [hmem, not_true_eq_false, if_false]

theorem finishBody_ok_iff {bytes : Bytes} {seen : Nat}
    {trailers : Option (Except Error (Option UploadChecksum))} :
    finishBody digests config headers seen trailers bytes = .ok () ↔
      (∀ l, headers.contentLength = some l → l = seen) ∧
        ∃ checksum, effectiveChecksum config headers trailers = .ok checksum ∧
          verifyChecksum digests config checksum bytes = .ok () := by
  unfold finishBody
  constructor
  · intro h
    obtain ⟨_, hlen, h⟩ := bind_ok_iff.mp h
    obtain ⟨checksum, hc, h⟩ := bind_ok_iff.mp h
    rw [verifyStreamedChecksum_eq hc] at h
    exact ⟨validateContentLength_ok hlen, checksum, hc, h⟩
  · rintro ⟨hlen, checksum, hc, hv⟩
    refine bind_ok_iff.mpr ⟨(), validateContentLength_ok_iff.mpr hlen, bind_ok_iff.mpr
      ⟨checksum, hc, ?_⟩⟩
    rw [verifyStreamedChecksum_eq hc]
    exact hv

/-! ## Reading -/

/-- Buffering succeeds on frames within the limit. -/
theorem collectFrames_ok_iff {buffer bytes : Bytes} {frames : List (Except IoError BodyFrame)}
    {trailers trailers' : Option (Except Error (Option UploadChecksum))}
    (hfit : buffer.length + (RequestBody.stream frames).content.length ≤ u64Max)
    (hbuffer : ∀ max, bodyLimit = some max → buffer.length ≤ max) :
    collectFrames bodyLimit buffer trailers frames = .ok (bytes, trailers') ↔
      ∃ chunks, readFrames trailers frames = some (chunks, trailers') ∧
        bytes = buffer ++ chunks.flatten ∧ ∀ max, bodyLimit = some max → bytes.length ≤ max := by
  induction frames generalizing buffer trailers with
  | nil =>
    constructor
    · intro h
      cases h
      exact ⟨[], rfl, (List.append_nil _).symm, hbuffer⟩
    · rintro ⟨chunks, h, rfl, _⟩
      cases h
      rw [List.flatten_nil, List.append_nil]
      rfl
  | cons frame frames ih =>
    match frame with
    | .error e => exact ⟨nofun, fun ⟨_, h, _⟩ => nomatch h⟩
    | .ok (.trailers c) => exact ih hfit hbuffer
    | .ok (.data d) =>
      have hcontent : (RequestBody.stream (.ok (.data d) :: frames)).content =
          d ++ (RequestBody.stream frames).content := rfl
      rw [hcontent, List.length_append] at hfit
      have hsum : satAdd buffer.length d.length = (buffer ++ d).length := by
        rw [satAdd_eq, List.length_append]
        omega
      have hfit' : (buffer ++ d).length + (RequestBody.stream frames).content.length ≤ u64Max := by
        rw [List.length_append]
        omega
      unfold collectFrames enforceBodyLimit
      rw [hsum, enforce_bind_ok_iff]
      constructor
      · rintro ⟨hle, h⟩
        obtain ⟨chunks, hread, rfl, hlimit⟩ := (ih hfit' hle).mp h
        refine ⟨d :: chunks, ?_, by simp, hlimit⟩
        unfold readFrames
        rw [hread]
        rfl
      · rintro ⟨chunks, hread, rfl, hlimit⟩
        obtain ⟨⟨rest, t⟩, hrest, heq⟩ := Option.map_eq_some_iff.mp hread
        cases heq
        have hle : ∀ max, bodyLimit = some max → (buffer ++ d).length ≤ max := by
          intro max hmax
          have := hlimit max hmax
          simp only [List.flatten_cons, List.length_append] at this ⊢
          omega
        exact ⟨hle, (ih hfit' hle).mpr ⟨rest, hrest, by simp, hlimit⟩⟩

theorem acceptData_ok_iff {seen next n : Nat} :
    acceptData headers bodyLimit seen next = .ok n ↔
      (∀ max, bodyLimit = some max → satAdd seen next ≤ max) ∧
        (∀ l, headers.contentLength = some l → satAdd seen next ≤ l) ∧ n = satAdd seen next := by
  unfold acceptData
  dsimp only
  rw [enforce_bind_ok_iff]
  refine and_congr_right fun _ => ?_
  cases hl : headers.contentLength with
  | none =>
    refine ⟨fun h => ⟨by simp, (Except.ok.inj h).symm⟩, ?_⟩
    rintro ⟨_, rfl⟩
    rfl
  | some l =>
    dsimp only
    by_cases hgt : satAdd seen next > l
    · rw [if_pos hgt]
      constructor
      · intro h
        cases h
      · rintro ⟨hle, _⟩
        exact absurd (hle l rfl) (Nat.not_le.mpr hgt)
    · rw [if_neg hgt]
      refine ⟨fun h => ⟨?_, (Except.ok.inj h).symm⟩, ?_⟩
      · rintro _ ⟨⟩
        exact Nat.not_lt.mp hgt
      · rintro ⟨_, rfl⟩
        rfl

/-- Draining a stream succeeds on frames within the limit that pass the checks at the end. -/
theorem validatedStream_ok_iff {seen : Nat} {read : Bytes} {chunks : List Bytes}
    {frames : List (Except IoError BodyFrame)}
    {trailers : Option (Except Error (Option UploadChecksum))}
    (hfit : seen + (RequestBody.stream frames).content.length ≤ u64Max)
    (hlimit : ∀ max, bodyLimit = some max → seen ≤ max) :
    (validatedStream digests config headers bodyLimit seen trailers read frames).1.mapM
        Except.toOption = some chunks ↔
      ∃ trailers', readFrames trailers frames = some (chunks, trailers') ∧
        (∀ max, bodyLimit = some max → seen + chunks.flatten.length ≤ max) ∧
        finishBody digests config headers (seen + chunks.flatten.length) trailers'
          (read ++ chunks.flatten) = .ok () := by
  induction frames generalizing seen read trailers chunks with
  | nil =>
    unfold validatedStream readFrames
    cases hf : finishBody digests config headers seen trailers read with
    | ok _ =>
      constructor
      · intro h
        cases h
        exact ⟨trailers, rfl, hlimit, by simpa using hf⟩
      · rintro ⟨_, h, _⟩
        cases h
        rfl
    | error e =>
      constructor
      · intro h
        cases h
      · rintro ⟨_, h, _, hok⟩
        cases h
        simp [hf] at hok
  | cons frame frames ih =>
    cases frame with
    | error e =>
      constructor
      · intro h
        cases h
      · rintro ⟨_, h, _⟩
        cases h
    | ok frame =>
      cases frame with
      | trailers c => exact ih hfit hlimit
      | data d =>
        have hcontent : (RequestBody.stream (.ok (.data d) :: frames)).content =
            d ++ (RequestBody.stream frames).content := rfl
        rw [hcontent, List.length_append] at hfit
        have hsum : satAdd seen d.length = seen + d.length := satAdd_eq (by omega)
        unfold validatedStream
        cases ha : acceptData headers bodyLimit seen d.length with
        | error e =>
          constructor
          · intro h
            cases h
          rintro ⟨_, hread, hle, hfinish⟩
          obtain ⟨⟨rest, t⟩, _, heq⟩ := Option.map_eq_some_iff.mp hread
          cases heq
          -- what is within the limit and ends at the declared length is accepted here
          have hok : acceptData headers bodyLimit seen d.length = .ok (seen + d.length) := by
            refine acceptData_ok_iff.mpr ⟨fun max hmax => ?_, fun l hl => ?_, hsum.symm⟩
            · have := hle max hmax
              simp only [List.flatten_cons, List.length_append] at this
              omega
            · have := (finishBody_ok_iff.mp hfinish).1 l hl
              simp only [List.flatten_cons, List.length_append] at this
              omega
          cases ha.symm.trans hok
        | ok n =>
          obtain ⟨hmax, _, rfl⟩ := acceptData_ok_iff.mp ha
          rw [hsum] at hmax ⊢
          have hfit' : seen + d.length + (RequestBody.stream frames).content.length ≤ u64Max := by
            omega
          simp only [List.mapM_cons, Except.toOption, Option.pure_def, Option.bind_eq_bind,
            Option.bind_some]
          constructor
          · intro h
            obtain ⟨rest, hrest, hchunks⟩ := Option.bind_eq_some_iff.mp h
            cases hchunks
            obtain ⟨t, hread, hle, hfinish⟩ := (ih hfit' hmax).mp hrest
            simp only [List.flatten_cons, List.length_append, ← Nat.add_assoc, ← List.append_assoc]
            exact ⟨t, by rw [readFrames, hread]; rfl, hle, hfinish⟩
          · rintro ⟨t, hread, hle, hfinish⟩
            obtain ⟨⟨rest, t'⟩, hrest, heq⟩ := Option.map_eq_some_iff.mp hread
            cases heq
            simp only [List.flatten_cons, List.length_append, ← Nat.add_assoc,
              ← List.append_assoc] at hle hfinish
            exact Option.bind_eq_some_iff.mpr
              ⟨rest, (ih hfit' hmax).mpr ⟨t', hrest, hle, hfinish⟩, rfl⟩

/-! ## Intake -/

/-- The bytes and the size of a body that is drained to its end. -/
def drained : Except Error IntakeBody → Option (Bytes × Nat)
  | .ok body => body.data.collect.map fun bytes => (bytes, body.size)
  | .error _ => none

/-- Buffer the frames of a stream and check them under the same headers. -/
def bufferStream (digests : Digests) (config : Config) (headers : Headers)
    (bodyLimit : Option Nat) (frames : List (Except IoError BodyFrame)) :
    Except Error IntakeBody := do
  validateBeforePolling config headers bodyLimit
  let (bytes, trailers) ← collectFrames bodyLimit [] none frames
  collectBuffered digests config headers bodyLimit true bytes trailers

/-- What there is to read, and that it passes the checks. -/
def Readable (digests : Digests) (config : Config) (headers : Headers) (bodyLimit : Option Nat)
    (frames : List (Except IoError BodyFrame)) (bytes : Bytes) : Prop :=
  ∃ chunks trailers, readFrames none frames = some (chunks, trailers) ∧ bytes = chunks.flatten ∧
    Checks digests config headers bodyLimit bytes trailers

section Intake

variable {frames : List (Except IoError BodyFrame)} {bytes : Bytes} {size : Nat}

theorem Readable.content (h : Readable digests config headers bodyLimit frames bytes) :
    bytes = (RequestBody.stream frames).content := by
  obtain ⟨chunks, trailers, hread, rfl, _⟩ := h
  exact readFrames_content hread

/-- Buffering and checking what was read. -/
theorem drained_collect_iff (hfit : (RequestBody.stream frames).content.length ≤ u64Max) :
    drained (do
        let (bytes, trailers) ← collectFrames bodyLimit [] none frames
        collectBuffered digests config headers bodyLimit true bytes trailers) =
        some (bytes, size) ↔
      Readable digests config headers bodyLimit frames bytes ∧ size = bytes.length := by
  have hcollect : ∀ b t, collectFrames bodyLimit [] none frames = .ok (b, t) ↔ _ := fun b t =>
    collectFrames_ok_iff (by simpa using hfit) fun _ _ => Nat.zero_le _
  cases hframes : collectFrames bodyLimit [] none frames with
  | error e =>
    refine ⟨nofun, ?_⟩
    rintro ⟨⟨chunks, trailers, hread, rfl, hchecks⟩, _⟩
    cases hframes.symm.trans ((hcollect _ _).mpr ⟨chunks, hread, rfl, hchecks.limit⟩)
  | ok r =>
    obtain ⟨b, t⟩ := r
    obtain ⟨chunks, hread, rfl, hlimit⟩ := (hcollect b t).mp hframes
    rw [List.nil_append] at *
    have hb : chunks.flatten.length ≤ u64Max := by
      rw [readFrames_content hread]
      exact hfit
    show drained (collectBuffered digests config headers bodyLimit true chunks.flatten t) =
      some (bytes, size) ↔ _
    constructor
    · intro h
      cases hbuf : collectBuffered digests config headers bodyLimit true chunks.flatten t with
      | error e =>
        rw [hbuf] at h
        cases h
      | ok body =>
        obtain ⟨hchecks, rfl⟩ := (collectBuffered_ok_iff hb).mp hbuf
        rw [hbuf] at h
        cases h
        exact ⟨⟨chunks, t, hread, rfl, hchecks⟩, rfl⟩
    · rintro ⟨⟨chunks', t', hread', rfl, hchecks⟩, rfl⟩
      cases hread.symm.trans hread'
      rw [(collectBuffered_ok_iff hb).mpr ⟨hchecks, rfl⟩]
      rfl

theorem bufferStream_iff (hfit : (RequestBody.stream frames).content.length ≤ u64Max) :
    drained (bufferStream digests config headers bodyLimit frames) = some (bytes, size) ↔
      validateBeforePolling config headers bodyLimit = .ok () ∧
        Readable digests config headers bodyLimit frames bytes ∧ size = bytes.length := by
  unfold bufferStream
  cases hv : validateBeforePolling config headers bodyLimit with
  | error e => exact ⟨nofun, fun h => nomatch h.1⟩
  | ok _ =>
    refine (drained_collect_iff hfit).trans ?_
    exact ⟨fun h => ⟨rfl, h⟩, And.right⟩

/-- Intake of a body with a Content-Length. -/
theorem prepare_declared_iff {l : Nat} (hl : headers.contentLength = some l)
    (hfit : (RequestBody.stream frames).content.length ≤ u64Max) :
    drained (prepare digests config headers bodyLimit (.stream frames)) = some (bytes, size) ↔
      validateBeforePolling config headers bodyLimit = .ok () ∧
        Readable digests config headers bodyLimit frames bytes ∧ size = bytes.length := by
  cases hv : validateBeforePolling config headers bodyLimit with
  | error e =>
    unfold prepare
    rw [hv]
    exact ⟨nofun, fun h => nomatch h.1⟩
  | ok _ =>
    have hstream : ∀ chunks : List Bytes,
        (validatedStream digests config headers bodyLimit 0 none [] frames).1.mapM
          Except.toOption = some chunks ↔ _ := fun chunks =>
      validatedStream_ok_iff (by simpa using hfit) fun _ _ => Nat.zero_le _
    have hdrained : drained (prepare digests config headers bodyLimit (.stream frames)) =
        ((validatedStream digests config headers bodyLimit 0 none [] frames).1.mapM
          Except.toOption).map fun chunks => (chunks.flatten, l) := by
      unfold prepare
      rw [hv]
      simp only [hl]
      exact Option.map_map _ _ _
    have hunfold : drained (prepare digests config headers bodyLimit (.stream frames)) =
        some (bytes, size) ↔ ∃ chunks trailers, readFrames none frames = some (chunks, trailers) ∧
          (∀ max, bodyLimit = some max → 0 + chunks.flatten.length ≤ max) ∧
          finishBody digests config headers (0 + chunks.flatten.length) trailers
            ([] ++ chunks.flatten) = .ok () ∧ chunks.flatten = bytes ∧ l = size := by
      rw [hdrained, Option.map_eq_some_iff]
      constructor
      · rintro ⟨chunks, hchunks, heq⟩
        obtain ⟨t, hread, hle, hfinish⟩ := (hstream chunks).mp hchunks
        exact ⟨chunks, t, hread, hle, hfinish, (Prod.mk.inj heq).1, (Prod.mk.inj heq).2⟩
      · rintro ⟨chunks, t, hread, hle, hfinish, hbytes, hsize⟩
        exact ⟨chunks, (hstream chunks).mpr ⟨t, hread, hle, hfinish⟩, by rw [hbytes, hsize]⟩
    refine hunfold.trans ?_
    simp only [Nat.zero_add, List.nil_append, finishBody_ok_iff]
    constructor
    · rintro ⟨chunks, t, hread, hle, ⟨hlen, hdigest⟩, rfl, rfl⟩
      exact ⟨trivial, ⟨chunks, t, hread, rfl, hle, hlen, hdigest⟩, hlen l hl⟩
    · rintro ⟨-, ⟨chunks, t, hread, rfl, hchecks⟩, rfl⟩
      exact ⟨chunks, t, hread, hchecks.limit, ⟨hchecks.contentLength, hchecks.digest⟩, rfl,
        hchecks.contentLength l hl⟩

/-- The same headers with another Content-Length. -/
def Headers.setContentLength (headers : Headers) (contentLength : Option Nat) : Headers :=
  { headers with contentLength := contentLength }

theorem declared_ok_iff {declared : Option Nat} :
    (match declared with
      | some contentLength => enforce bodyLimit contentLength
      | none => pure ()) = Except.ok () ↔
      ∀ l, declared = some l → ∀ max, bodyLimit = some max → l ≤ max := by
  cases declared with
  | none => exact ⟨fun _ => by simp, fun _ => rfl⟩
  | some l =>
    refine enforce_ok_iff.trans ⟨?_, fun h => h l rfl⟩
    rintro h _ ⟨⟩
    exact h

theorem validateBeforePolling_ok_iff :
    validateBeforePolling config headers bodyLimit = .ok () ↔
      validateBeforePolling config (headers.setContentLength none) none = .ok () ∧
        ∀ l, headers.contentLength = some l → ∀ max, bodyLimit = some max → l ≤ max := by
  refine Iff.trans ?_ (and_congr_right fun _ => declared_ok_iff)
  unfold validateBeforePolling Headers.setContentLength
  dsimp only
  cases config.hasExtension .checksum with
  | false => exact ⟨fun h => ⟨rfl, h⟩, And.right⟩
  | true =>
    cases headers.uploadChecksumError with
    | some e =>
      constructor
      · intro h
        cases h
      · rintro ⟨h, _⟩
        cases h
    | none =>
      cases headers.uploadChecksum with
      | none => exact ⟨fun h => ⟨rfl, h⟩, And.right⟩
      | some checksum =>
        dsimp only
        cases validateChecksumAlgorithm config checksum.algorithm with
        | error e =>
          constructor
          · intro h
            cases h
          · rintro ⟨h, _⟩
            cases h
        | ok _ => exact ⟨fun h => ⟨rfl, h⟩, And.right⟩

/-- Intake of a body without a Content-Length, when the memory bound allows it. -/
theorem prepare_undeclared_iff {m : Nat} (hl : headers.contentLength = none)
    (hm : config.maxIntakeBuffer = some m) (hle : (RequestBody.stream frames).content.length ≤ m)
    (hfit : (RequestBody.stream frames).content.length ≤ u64Max) :
    drained (prepare digests config headers bodyLimit (.stream frames)) = some (bytes, size) ↔
      validateBeforePolling config headers bodyLimit = .ok () ∧
        Readable digests config headers bodyLimit frames bytes ∧ size = bytes.length := by
  unfold prepare
  cases hv : validateBeforePolling config headers bodyLimit with
  | error e => exact ⟨nofun, fun h => nomatch h.1⟩
  | ok _ =>
    simp only [hl]
    obtain ⟨limit, hlimit, _⟩ := tightest_le [bodyLimit, config.maxIntakeBuffer]
      (show some m ∈ _ by rw [hm]; simp)
    -- the memory bound is met, so the tighter limit asks no more than the body limit
    have hsame : ∀ n ≤ m, (∀ max, some limit = some max → n ≤ max) ↔
        ∀ max, bodyLimit = some max → n ≤ max := by
      intro n hn
      rw [← hlimit, le_tightest_iff]
      simp only [List.mem_cons, List.not_mem_nil, or_false]
      refine ⟨fun h max hmax => h max (.inl hmax.symm), ?_⟩
      rintro h max (hmax | hmax)
      · exact h max hmax.symm
      · cases hm.symm.trans hmax.symm
        exact hn
    rw [hlimit]
    refine (drained_collect_iff hfit).trans ?_
    constructor
    · rintro ⟨⟨chunks, t, hread, rfl, hchecks⟩, rfl⟩
      have hn : chunks.flatten.length ≤ m := by rw [readFrames_content hread]; exact hle
      exact ⟨trivial, ⟨chunks, t, hread, rfl, (hsame _ hn).mp hchecks.limit,
        hchecks.contentLength, hchecks.digest⟩, rfl⟩
    · rintro ⟨-, ⟨chunks, t, hread, rfl, hchecks⟩, rfl⟩
      have hn : chunks.flatten.length ≤ m := by rw [readFrames_content hread]; exact hle
      exact ⟨⟨chunks, t, hread, rfl, (hsame _ hn).mpr hchecks.limit, hchecks.contentLength,
        hchecks.digest⟩, rfl⟩

/-- A Content-Length that is the body's own length changes nothing. -/
theorem readable_setContentLength (hl : headers.contentLength = none) :
    validateBeforePolling config headers bodyLimit = .ok () ∧
        Readable digests config headers bodyLimit frames bytes ↔
      validateBeforePolling config
          (headers.setContentLength (some (RequestBody.stream frames).content.length))
          bodyLimit = .ok () ∧
        Readable digests config
          (headers.setContentLength (some (RequestBody.stream frames).content.length)) bodyLimit
          frames bytes := by
  refine (and_congr_left' validateBeforePolling_ok_iff).trans
    (Iff.trans ?_ (and_congr_left' validateBeforePolling_ok_iff).symm)
  constructor
  · rintro ⟨⟨hv, _⟩, chunks, t, hread, rfl, hchecks⟩
    have hcontent := readFrames_content hread
    refine ⟨⟨hv, ?_⟩, chunks, t, hread, rfl, hchecks.limit, ?_, hchecks.digest⟩
    · rintro _ ⟨⟩
      rw [← hcontent]
      exact hchecks.limit
    · rintro _ ⟨⟩
      rw [hcontent]
  · rintro ⟨⟨hv, _⟩, chunks, t, hread, rfl, hchecks⟩
    refine ⟨⟨hv, ?_⟩, chunks, t, hread, rfl, hchecks.limit, ?_, hchecks.digest⟩
    · intro l h
      rw [hl] at h
      cases h
    · intro l h
      rw [hl] at h
      cases h

theorem bind_error {ε α β : Type} {x : Except ε α} {f : α → Except ε β} {e : ε}
    (h : x >>= f = .error e) : x = .error e ∨ ∃ a, x = .ok a ∧ f a = .error e := by
  cases x with
  | error e' =>
    cases h
    exact .inl rfl
  | ok a => exact .inr ⟨a, rfl, h⟩

theorem verifyChecksum_ne_internal {checksum : Option UploadChecksum} {message : String} :
    verifyChecksum digests config checksum bytes ≠ .error (.internal message) := by
  intro h
  cases checksum with
  | none => cases h
  | some checksum =>
    unfold verifyChecksum at h
    dsimp only at h
    split at h
    · cases h
    · rcases bind_error h with h | ⟨_, _, h⟩
      · unfold validateChecksumAlgorithm at h
        split at h <;> cases h
      · split at h <;> cases h

/-- Both kinds of intake of a body that fits memory accept the same bodies with the same bytes
and size, with or without a Content-Length that is the body's own, and the digest that a
stream is checked against has always been computed. -/
theorem streamed_agrees_with_buffered
    (hfit : (RequestBody.stream frames).content.length ≤ u64Max) :
    (∀ l, headers.contentLength = some l →
      drained (prepare digests config headers bodyLimit (.stream frames)) =
        drained (bufferStream digests config headers bodyLimit frames)) ∧
    (∀ m, headers.contentLength = none → config.maxIntakeBuffer = some m →
      (RequestBody.stream frames).content.length ≤ m →
      drained (prepare digests config headers bodyLimit (.stream frames)) =
        drained (prepare digests config
          (headers.setContentLength (some (RequestBody.stream frames).content.length)) bodyLimit
          (.stream frames))) ∧
    ∀ trailers checksum bytes message,
      effectiveChecksum config headers trailers = .ok checksum →
      verifyStreamedChecksum digests config checksum (streamingHashers config headers) bytes ≠
        .error (.internal message) := by
  refine ⟨fun l hl => ?_, fun m hl hm hle => ?_, fun trailers checksum bytes message hc => ?_⟩
  · refine Option.ext fun ⟨bytes, size⟩ => ?_
    exact (prepare_declared_iff hl hfit).trans (bufferStream_iff hfit).symm
  · refine Option.ext fun ⟨bytes, size⟩ => ?_
    refine (prepare_undeclared_iff hl hm hle hfit).trans ?_
    refine Iff.trans ?_ (prepare_declared_iff rfl hfit).symm
    rw [← and_assoc, ← and_assoc]
    exact and_congr_left fun _ => readable_setContentLength hl
  · rw [verifyStreamedChecksum_eq hc]
    exact verifyChecksum_ne_internal

/-- A request without headers that matter here. -/
def plainHeaders : Headers where
  uploadOffset := some 0
  uploadLength := none
  uploadDeferLength := false
  uploadMetadata := none
  uploadChecksum := none
  uploadChecksumError := none
  uploadConcat := none
  contentLength := none
  contentType := none

/-- Three bytes in two chunks, with and without their Content-Length. -/
theorem streamed_agrees_with_buffered_three :
    drained (prepare ⟨fun _ bytes => bytes, fun _ => ""⟩ .default
        (plainHeaders.setContentLength (some 3)) none
        (.stream [.ok (.data [1, 2]), .ok (.data []), .ok (.data [3])])) =
      drained (bufferStream ⟨fun _ bytes => bytes, fun _ => ""⟩ .default
        (plainHeaders.setContentLength (some 3)) none
        [.ok (.data [1, 2]), .ok (.data []), .ok (.data [3])]) ∧
    drained (prepare ⟨fun _ bytes => bytes, fun _ => ""⟩ .default plainHeaders none
        (.stream [.ok (.data [1, 2]), .ok (.data []), .ok (.data [3])])) =
      drained (prepare ⟨fun _ bytes => bytes, fun _ => ""⟩ .default
        (plainHeaders.setContentLength (some 3)) none
        (.stream [.ok (.data [1, 2]), .ok (.data []), .ok (.data [3])])) := by
  refine ⟨(streamed_agrees_with_buffered ?_).1 3 rfl,
    (streamed_agrees_with_buffered ?_).2.1 Config.defaultMaxIntakeBuffer rfl rfl ?_⟩
  all_goals decide

end Intake

end Protocol

end TusRs
