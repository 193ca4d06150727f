import TusRs.Base64
import TusRs.Text
import TusRs.Protocol.Body

/-!
# Request headers

`protocol/headers.rs`: the typed view of the headers of a request. A value that does not
read as text is not the same as a header that is absent, but most of the parsers go
through `to_str().ok()`, which makes it so.

Results:

* `numeric_iff`: when a number is read as it is written.
* `headers_kept_iff`: when no header of a request is lost.
-/

namespace TusRs

open Interaction

namespace Protocol

/-- The values of a request by lower-case name, in order of arrival. -/
abbrev HeaderMap := List (String × Bytes)

namespace HeaderMap

/-- `HeaderMap::get`: the first value of a name. -/
def get (h : HeaderMap) (name : String) : Option Bytes := h.lookup name

def getAll (h : HeaderMap) (name : String) : List Bytes :=
  (h.filter fun entry => entry.1 = name).map fun entry => entry.2

end HeaderMap

/-- `HeaderValue::to_str`. -/
def toStr (raw : Bytes) : Option String := (Text.read raw).map String.ofList

/-- The text of a `ToStrError`. -/
def toStrError : String := "failed to convert header to a str"

/-- `get(name).and_then(|v| v.to_str().ok())`. -/
def HeaderMap.text (h : HeaderMap) (name : String) : Option String := (h.get name).bind toStr

/-- All of `Headers`: the headers the operations use, and those of the URL. -/
structure RequestHeaders extends Headers where
  transferEncoding : Option String
  hostHeader : Option String
  forwardedHost : Option String
  forwardedProto : Option String

abbrev Metadata := List (String × Bytes)

/-- The bytes of a header value that is made from a string. -/
def headerBytes (value : String) : Bytes := value.toList.flatMap String.utf8EncodeChar

/-! ## The parsers -/

def parseU64Header (h : HeaderMap) (name : String) : Except Error (Option Nat) :=
  match h.text name with
  | some value =>
    match parseU64 value with
    | some n => .ok (some n)
    | none => .error (.invalidHeader name s!"invalid integer: {value}")
  | none => .ok none

/-- `Upload-Defer-Length`. -/
def parseUploadDeferLength (h : HeaderMap) : Except Error Bool :=
  match h.get "upload-defer-length" with
  | some raw =>
    match toStr raw with
    | some value =>
      if value = "1" then .ok true
      else .error (.invalidHeader "Upload-Defer-Length" s!"expected 1, got {value}")
    | none => .error (.invalidHeader "Upload-Defer-Length" toStrError)
  | none => .ok false

/-- `Transfer-Encoding`; values that do not read as text are left out. -/
def parseTransferEncoding (h : HeaderMap) : Option String :=
  match (h.getAll "transfer-encoding").filterMap toStr with
  | [] => none
  | values => some (",".intercalate values)

/-- `is_valid_metadata_key`. -/
def isValidMetadataKey (key : String) : Bool :=
  !key.isEmpty && key.toList.all fun c => 0x21 ≤ c.toNat && c.toNat ≤ 0x7E && c ≠ ','

section Parsers

variable (base64 : Base64.Codec)

/-- One pair of `parse_upload_metadata`, trimmed and not empty. -/
def parsePair (pair : Text.Chars) : Except Error (String × Bytes) :=
  let (key, encoded) :=
    match Text.splitOnce ' ' pair with
    | some (key, encoded) => (String.ofList key, some (String.ofList encoded))
    | none => (String.ofList pair, none)
  if key.isEmpty then .error (.invalidMetadata "empty key")
  else if !isValidMetadataKey key then
    let quoted := key.quote
    .error (.invalidMetadata s!"invalid characters in key {quoted}")
  else
    match encoded with
    | some encoded =>
      match base64.decode encoded with
      | .ok value => .ok (key, value)
      | .error e => .error (.invalidMetadata s!"invalid base64 for key {key}: {e}")
    | none => .ok (key, [])

/-- The loop of `parse_upload_metadata`. -/
def parsePairs : Metadata → List Text.Chars → Except Error Metadata
  | metadata, [] => .ok metadata
  | metadata, pair :: pairs =>
    if (Text.trim pair).isEmpty then parsePairs metadata pairs
    else
      match parsePair base64 (Text.trim pair) with
      | .error e => .error e
      | .ok (key, value) =>
        if (metadata.lookup key).isSome then .error (.invalidMetadata s!"duplicate key: {key}")
        else parsePairs (metadata ++ [(key, value)]) pairs

def parseUploadMetadata (h : HeaderMap) : Except Error (Option Metadata) :=
  match h.text "upload-metadata" with
  | some value =>
    if value.isEmpty then .ok none
    else (parsePairs base64 [] (value.toList.splitOn ',')).map some
  | none => .ok none

/-- `ChecksumAlgorithm::from_str`. -/
def ChecksumAlgorithm.parse (s : String) : Except Error ChecksumAlgorithm :=
  match s.toLower with
  | "sha1" => .ok .sha1
  | "sha256" => .ok .sha256
  | "md5" => .ok .md5
  | "crc32" => .ok .crc32
  | other => .error (.unsupportedChecksum other)

def parseUploadChecksumValue (value : String) : Except Error UploadChecksum :=
  match Text.splitOnce ' ' value.toList with
  | none => .error (.invalidHeader "Upload-Checksum" "expected 'algorithm checksum' format")
  | some (algorithm, digest) =>
    match ChecksumAlgorithm.parse (String.ofList algorithm) with
    | .error e => .error e
    | .ok algorithm =>
      match base64.decode (String.ofList digest) with
      | .ok digest => .ok ⟨algorithm, digest⟩
      | .error e => .error (.invalidHeader "Upload-Checksum" s!"invalid base64: {e}")

def parseUploadChecksum (h : HeaderMap) : Except Error (Option UploadChecksum) :=
  match h.get "upload-checksum" with
  | some raw =>
    match toStr raw with
    | some value => (parseUploadChecksumValue base64 value).map some
    | none => .error (.invalidHeader "Upload-Checksum" "expected a valid UTF-8 value")
  | none => .ok none

end Parsers

/-- `UploadChecksumParseError`: the error it turns back into. The parser reports no other
kinds than these two. -/
def deferredChecksumError : Error → Error
  | .invalidHeader _ message => .invalidHeader "Upload-Checksum" message
  | e => e

def parseUploadConcat (h : HeaderMap) : Except Error (Option UploadConcat) :=
  match h.text "upload-concat" with
  | none => .ok none
  | some value =>
    if value = "partial" then .ok (some .partialUpload)
    else if "final;".toList.isPrefixOf value.toList then
      match Text.words (value.toList.drop 6) with
      | [] =>
        .error (.invalidHeader "Upload-Concat" "final upload requires at least one partial URL")
      | urls => .ok (some (.finalUpload (urls.map String.ofList)))
    else .error (.invalidHeader "Upload-Concat" s!"invalid value: {value}")

/-! ## The request -/

def tusResumable : String := "1.0.0"

/-- The `Tus-Resumable` check. -/
def checkVersion (h : HeaderMap) : Except Error Unit :=
  match h.text "tus-resumable" with
  | some version =>
    if version = tusResumable then .ok () else .error (.unsupportedTusVersion version)
  | none => .error .missingTusResumable

/-- `Headers::from_headers`. -/
def fromHeaders (base64 : Base64.Codec) (h : HeaderMap) : Except Error RequestHeaders := do
  checkVersion h
  let uploadOffset ← parseU64Header h "upload-offset"
  let uploadLength ← parseU64Header h "upload-length"
  let uploadDeferLength ← parseUploadDeferLength h
  let contentLength ← parseU64Header h "content-length"
  let uploadMetadata ← parseUploadMetadata base64 h
  let (uploadChecksum, uploadChecksumError) :=
    match parseUploadChecksum base64 h with
    | .ok checksum => (checksum, none)
    | .error e => (none, some (deferredChecksumError e))
  let uploadConcat ← parseUploadConcat h
  pure {
    uploadOffset, uploadLength, uploadDeferLength, uploadMetadata, uploadChecksum,
    uploadChecksumError, uploadConcat, contentLength,
    contentType := h.text "content-type"
    transferEncoding := parseTransferEncoding h
    hostHeader := h.text "host"
    forwardedHost := h.text "x-forwarded-host"
    forwardedProto := h.text "x-forwarded-proto" }

/-! ## What a request reads as -/

/-- The view of a request, header by header; a checksum that cannot be parsed is kept as its
error. -/
structure ReadsAs (base64 : Base64.Codec) (h : HeaderMap) (r : RequestHeaders) : Prop where
  uploadOffset : parseU64Header h "upload-offset" = .ok r.uploadOffset
  uploadLength : parseU64Header h "upload-length" = .ok r.uploadLength
  uploadDeferLength : parseUploadDeferLength h = .ok r.uploadDeferLength
  contentLength : parseU64Header h "content-length" = .ok r.contentLength
  uploadMetadata : parseUploadMetadata base64 h = .ok r.uploadMetadata
  uploadChecksum : (parseUploadChecksum base64 h = .ok r.uploadChecksum ∧
      r.uploadChecksumError = none) ∨
    ∃ e, parseUploadChecksum base64 h = .error e ∧ r.uploadChecksum = none ∧
      r.uploadChecksumError = some (deferredChecksumError e)
  uploadConcat : parseUploadConcat h = .ok r.uploadConcat

/-- The error of a parser. -/
def Reported (base64 : Base64.Codec) (h : HeaderMap) (e : Error) : Prop :=
  parseU64Header h "upload-offset" = .error e ∨ parseU64Header h "upload-length" = .error e ∨
  parseUploadDeferLength h = .error e ∨ parseU64Header h "content-length" = .error e ∨
  parseUploadMetadata base64 h = .error e ∨ parseUploadConcat h = .error e

def ValidVersion (h : HeaderMap) : Prop := h.text "tus-resumable" = some tusResumable

instance (h : HeaderMap) : Decidable (ValidVersion h) := inferInstanceAs (Decidable (_ = _))

theorem ValidVersion.check {h : HeaderMap} (hv : ValidVersion h) : checkVersion h = .ok () := by
  rw [checkVersion, show h.text "tus-resumable" = some tusResumable from hv]
  exact if_pos rfl

theorem fromHeaders_ok {base64 : Base64.Codec} {h : HeaderMap} {r : RequestHeaders}
    (hr : fromHeaders base64 h = .ok r) : ReadsAs base64 h r := by
  obtain ⟨_, -, hr⟩ := except_bind_ok hr
  obtain ⟨offset, hoffset, hr⟩ := except_bind_ok hr
  obtain ⟨length, hlength, hr⟩ := except_bind_ok hr
  obtain ⟨deferLength, hdefer, hr⟩ := except_bind_ok hr
  obtain ⟨contentLength, hcontent, hr⟩ := except_bind_ok hr
  obtain ⟨metadata, hmetadata, hr⟩ := except_bind_ok hr
  cases hchecksum : parseUploadChecksum base64 h with
  | ok checksum =>
    rw [hchecksum] at hr
    obtain ⟨concat, hconcat, hr⟩ := except_bind_ok hr
    cases hr
    exact ⟨hoffset, hlength, hdefer, hcontent, hmetadata, .inl ⟨hchecksum, rfl⟩, hconcat⟩
  | error e =>
    rw [hchecksum] at hr
    obtain ⟨concat, hconcat, hr⟩ := except_bind_ok hr
    cases hr
    exact ⟨hoffset, hlength, hdefer, hcontent, hmetadata, .inr ⟨e, hchecksum, rfl, rfl⟩, hconcat⟩

theorem fromHeaders_error {base64 : Base64.Codec} {h : HeaderMap} {e : Error}
    (hv : ValidVersion h) (he : fromHeaders base64 h = .error e) : Reported base64 h e := by
  obtain hversion | ⟨_, -, he⟩ := except_bind_error he
  · rw [hv.check] at hversion
    cases hversion
  obtain hoffset | ⟨_, -, he⟩ := except_bind_error he
  · exact .inl hoffset
  obtain hlength | ⟨_, -, he⟩ := except_bind_error he
  · exact .inr (.inl hlength)
  obtain hdefer | ⟨_, -, he⟩ := except_bind_error he
  · exact .inr (.inr (.inl hdefer))
  obtain hcontent | ⟨_, -, he⟩ := except_bind_error he
  · exact .inr (.inr (.inr (.inl hcontent)))
  obtain hmetadata | ⟨_, -, he⟩ := except_bind_error he
  · exact .inr (.inr (.inr (.inr (.inl hmetadata))))
  obtain hconcat | ⟨_, -, he⟩ := except_bind_error he
  · exact .inr (.inr (.inr (.inr (.inr hconcat))))
  · cases he

/-! ## The grammar -/

/-- The headers that hold a number. -/
def numericHeaders : List String := ["upload-offset", "upload-length", "content-length"]

/-- The text of a header value, read byte by byte. -/
def charsOf (raw : Bytes) : Text.Chars := raw.map Text.charOf

/-- No header is taken for absent that is there, and numbers are numerals. The one value that
stands for an absent header is the empty list of metadata pairs. -/
structure Grammar (base64 : Base64.Codec) (h : HeaderMap) : Prop where
  numeric : ∀ name ∈ numericHeaders, ∀ raw, h.get name = some raw →
    parseU64Header h name ≠ .ok none ∧
    ∀ n, parseU64Header h name = .ok (some n) ↔ Numeral (charsOf raw) n
  deferLength : ∀ raw, h.get "upload-defer-length" = some raw → parseUploadDeferLength h ≠ .ok false
  metadata : ∀ raw, h.get "upload-metadata" = some raw → raw ≠ [] →
    parseUploadMetadata base64 h ≠ .ok none
  checksum : ∀ raw, h.get "upload-checksum" = some raw → parseUploadChecksum base64 h ≠ .ok none
  concat : ∀ raw, h.get "upload-concat" = some raw → parseUploadConcat h ≠ .ok none

/-- The view keeps every header of the request. -/
structure Kept (base64 : Base64.Codec) (h : HeaderMap) : Prop where
  reads : ∀ r, fromHeaders base64 h = .ok r → ReadsAs base64 h r
  reported : ∀ e, fromHeaders base64 h = .error e → Reported base64 h e
  grammar : Grammar base64 h

/-- The headers whose parsers go through `to_str().ok()`. -/
def looseHeaders : List String := numericHeaders ++ ["upload-metadata", "upload-concat"]

/-- Those headers read as text, and no number is written with a plus sign. -/
structure Clean (h : HeaderMap) : Prop where
  readable : ∀ name ∈ looseHeaders, ∀ raw, h.get name = some raw → (toStr raw).isSome
  unsigned : ∀ name ∈ numericHeaders, ∀ raw, h.get name = some raw →
    ∀ ds n, charsOf raw = '+' :: ds → ¬Numeral ds n

section Grammar

variable {base64 : Base64.Codec} {h : HeaderMap} {name : String} {raw : Bytes}

theorem toStr_eq_some {value : String} (hs : toStr raw = some value) :
    value.toList = charsOf raw := by
  unfold toStr Text.read at hs
  split at hs
  · cases hs
    exact String.toList_ofList
  · cases hs

theorem text_eq (hraw : h.get name = some raw) : h.text name = toStr raw := by
  rw [HeaderMap.text, hraw, Option.bind_some]

theorem visible_byte {c : Char} (h : 32 ≤ c.toNat ∧ c.toNat < 127) :
    String.utf8EncodeChar c = [c.toUInt8] ∧ Text.visible c.toUInt8 = true ∧
      Text.charOf c.toUInt8 = c := by
  have hbyte : c.toUInt8.toNat = c.toNat := by
    show c.toNat % 256 = c.toNat
    omega
  refine ⟨String.utf8EncodeChar_eq_singleton (Char.utf8Size_eq_one_iff.mpr ?_), ?_, ?_⟩
  · rw [UInt32.le_iff_toNat_le]
    exact Nat.le_of_lt h.2
  · have hlow : (32 : UInt8) ≤ c.toUInt8 := by
      rw [UInt8.le_iff_toNat_le, hbyte]
      exact h.1
    have hhigh : c.toUInt8 < 127 := by
      rw [UInt8.lt_iff_toNat_lt, hbyte]
      exact h.2
    simp [Text.visible, hlow, hhigh]
  · rw [Text.charOf, hbyte, Char.ofNat_toNat]

/-- Visible ASCII survives a header. -/
theorem toStr_headerBytes {value : String} (h : ∀ c ∈ value.toList, 32 ≤ c.toNat ∧ c.toNat < 127) :
    toStr (headerBytes value) = some value := by
  have hbytes : headerBytes value = value.toList.map Char.toUInt8 := by
    rw [headerBytes, List.map_eq_flatMap]
    exact List.flatMap_congr fun c hc => (visible_byte (h c hc)).1
  have hvisible : (value.toList.map Char.toUInt8).all Text.visible = true := by
    rw [List.all_map, List.all_eq_true]
    exact fun c hc => (visible_byte (h c hc)).2.1
  have hback : (value.toList.map Char.toUInt8).map Text.charOf = value.toList := by
    rw [List.map_map]
    exact (List.map_congr_left fun c hc => (visible_byte (h c hc)).2.2).trans (List.map_id _)
  rw [toStr, Text.read, hbytes, if_pos hvisible, hback, Option.map_some, String.ofList_toList]

theorem parseU64Header_unreadable (hraw : h.get name = some raw) (hs : toStr raw = none) :
    parseU64Header h name = .ok none := by
  rw [parseU64Header, text_eq hraw, hs]

theorem parseU64Header_readable {value : String} (hraw : h.get name = some raw)
    (hs : toStr raw = some value) :
    parseU64Header h name ≠ .ok none ∧
    ∀ n, parseU64Header h name = .ok (some n) ↔ parseU64Chars (charsOf raw) = some n := by
  have hchars : parseU64 value = parseU64Chars (charsOf raw) :=
    congrArg parseU64Chars (toStr_eq_some hs)
  rw [parseU64Header, text_eq hraw, hs]
  dsimp only
  rw [hchars]
  cases parseU64Chars (charsOf raw) with
  | none => exact ⟨nofun, fun n => ⟨nofun, nofun⟩⟩
  | some m =>
    refine ⟨nofun, fun n => ?_⟩
    rw [Except.ok.injEq, Option.some.injEq]

/-- A number is read as such exactly if it reads as text and has no plus sign. -/
theorem numeric_iff (hraw : h.get name = some raw) :
    (parseU64Header h name ≠ .ok none ∧
      ∀ n, parseU64Header h name = .ok (some n) ↔ Numeral (charsOf raw) n) ↔
    (toStr raw).isSome ∧ ∀ ds n, charsOf raw = '+' :: ds → ¬Numeral ds n := by
  cases hs : toStr raw with
  | none =>
    rw [parseU64Header_unreadable hraw hs]
    exact ⟨fun h => absurd rfl h.1, fun h => nomatch h.1⟩
  | some value =>
    obtain ⟨hsome, hread⟩ := parseU64Header_readable hraw hs
    constructor
    · rintro ⟨-, hiff⟩
      refine ⟨rfl, fun ds n hplus hn => ?_⟩
      have hnum := (hiff n).mp ((hread n).mpr (parseU64Chars_iff.mpr (.inr ⟨ds, hplus, hn⟩)))
      rw [hplus] at hnum
      exact not_numeral_plus hnum
    · rintro ⟨-, hplus⟩
      refine ⟨hsome, fun n => (hread n).trans (parseU64Chars_iff.trans ?_)⟩
      exact ⟨fun h => h.elim id fun ⟨ds, hds, hn⟩ => absurd hn (hplus ds n hds), .inl⟩

theorem parseUploadDeferLength_kept (hraw : h.get "upload-defer-length" = some raw) :
    parseUploadDeferLength h ≠ .ok false := by
  rw [parseUploadDeferLength, hraw]
  dsimp only
  cases toStr raw with
  | none => exact nofun
  | some value =>
    show (if value = "1" then Except.ok true else _) ≠ _
    split
    · exact nofun
    · exact nofun

theorem parseUploadChecksum_kept (hraw : h.get "upload-checksum" = some raw) :
    parseUploadChecksum base64 h ≠ .ok none := by
  rw [parseUploadChecksum, hraw]
  dsimp only
  cases toStr raw with
  | none => exact nofun
  | some value =>
    show (parseUploadChecksumValue base64 value).map some ≠ _
    cases parseUploadChecksumValue base64 value with
    | error e => exact nofun
    | ok checksum => exact nofun

theorem parseUploadMetadata_kept_iff (hraw : h.get "upload-metadata" = some raw) (hne : raw ≠ []) :
    parseUploadMetadata base64 h ≠ .ok none ↔ (toStr raw).isSome := by
  rw [parseUploadMetadata, text_eq hraw]
  cases hs : toStr raw with
  | none => exact ⟨fun h => absurd rfl h, nofun⟩
  | some value =>
    have hempty : value.isEmpty = false := by
      rw [← Bool.not_eq_true, String.isEmpty_iff, ← String.toList_eq_nil_iff, toStr_eq_some hs]
      exact fun h => hne (List.map_eq_nil_iff.mp h)
    refine ⟨fun _ => rfl, fun _ => ?_⟩
    show (if value.isEmpty then Except.ok none else
      (parsePairs base64 [] (value.toList.splitOn ',')).map some) ≠ _
    rw [hempty]
    cases parsePairs base64 [] (value.toList.splitOn ',') with
    | error e => exact nofun
    | ok metadata => exact nofun

theorem parseUploadConcat_kept_iff (hraw : h.get "upload-concat" = some raw) :
    parseUploadConcat h ≠ .ok none ↔ (toStr raw).isSome := by
  rw [parseUploadConcat, text_eq hraw]
  cases toStr raw with
  | none => exact ⟨fun h => absurd rfl h, nofun⟩
  | some value =>
    refine ⟨fun _ => rfl, fun _ => ?_⟩
    dsimp only
    split
    · exact nofun
    · split
      · split
        · exact nofun
        · exact nofun
      · exact nofun

end Grammar

theorem grammar_iff {base64 : Base64.Codec} {h : HeaderMap} : Grammar base64 h ↔ Clean h := by
  constructor
  · intro hg
    refine ⟨fun name hname raw hraw => ?_, fun name hname raw hraw =>
      (numeric_iff hraw).mp (hg.numeric name hname raw hraw) |>.2⟩
    rcases List.mem_append.mp hname with hname | hname
    · exact ((numeric_iff hraw).mp (hg.numeric name hname raw hraw)).1
    simp only [List.mem_cons, List.not_mem_nil, or_false] at hname
    rcases hname with rfl | rfl
    · by_cases hne : raw = []
      · rw [hne]
        rfl
      · exact (parseUploadMetadata_kept_iff hraw hne).mp (hg.metadata raw hraw hne)
    · exact (parseUploadConcat_kept_iff hraw).mp (hg.concat raw hraw)
  · intro hc
    refine ⟨fun name hname raw hraw => ?_, fun raw => parseUploadDeferLength_kept,
      fun raw hraw hne => ?_, fun raw => parseUploadChecksum_kept, fun raw hraw => ?_⟩
    · exact (numeric_iff hraw).mpr ⟨hc.readable name (List.mem_append_left _ hname) raw hraw,
        hc.unsigned name hname raw hraw⟩
    · exact (parseUploadMetadata_kept_iff hraw hne).mpr (hc.readable _ (by decide) raw hraw)
    · exact (parseUploadConcat_kept_iff hraw).mpr (hc.readable _ (by decide) raw hraw)

/-- The view keeps every header exactly if the loose ones read as text and no number is
written with a plus sign. -/
theorem headers_kept_iff {base64 : Base64.Codec} {h : HeaderMap} (hv : ValidVersion h) :
    Kept base64 h ↔ Clean h := by
  constructor
  · exact fun hk => grammar_iff.mp hk.grammar
  · exact fun hc => ⟨fun r => fromHeaders_ok, fun e => fromHeaders_error hv, grammar_iff.mpr hc⟩

/-- A request with one header besides its version. -/
def request (name : String) (raw : Bytes) : HeaderMap :=
  [("tus-resumable", tusResumable.toList.map Char.toUInt8), (name, raw)]

theorem get_request {name other : String} {raw raw' : Bytes} (hne : other ≠ "tus-resumable")
    (h : (request name raw).get other = some raw') : raw' = raw := by
  rw [HeaderMap.get, request, List.lookup_cons, List.lookup_cons, List.lookup_nil,
    beq_false_of_ne hne] at h
  cases hname : other == name with
  | true =>
    rw [hname] at h
    exact (Option.some.inj h).symm
  | false =>
    rw [hname] at h
    cases h

theorem headers_kept_five : Kept Base64.standard (request "upload-length" [53]) := by
  have hloose : ∀ name ∈ looseHeaders, name ≠ "tus-resumable" := by decide
  refine (headers_kept_iff (by decide)).mpr ⟨fun name hname raw hraw => ?_,
    fun name hname raw hraw ds n hplus => ?_⟩
  · rw [get_request (hloose name hname) hraw]
    rfl
  · rw [get_request (hloose name (List.mem_append_left _ hname)) hraw] at hplus
    exact absurd (List.cons.inj hplus).1 (by decide)

/-- A length that is not ASCII is ignored, so the request reads as one without a length. -/
theorem unreadable_length_ignored :
    ValidVersion (request "upload-length" [233]) ∧
    (∃ r, fromHeaders Base64.standard (request "upload-length" [233]) = .ok r ∧
      r.uploadLength = none) ∧
    ¬Kept Base64.standard (request "upload-length" [233]) := by
  refine ⟨by decide, ⟨_, rfl, rfl⟩, fun hk => ?_⟩
  have hread := (hk.grammar.numeric "upload-length" (by decide) [233] rfl).1
  exact hread rfl

end Protocol

end TusRs
