import TusRs.Protocol.Host
import TusRs.Protocol.Range
import TusRs.Storage.Memory

/-!
# Downloads of a byte range

What `Protocol::download` does once it has access to an upload, over the two storages that
can be read: the bounds of the range, the headers, and the bytes that are streamed. The
range is inclusive in the header and half-open in the storages.

Results:

* `respond_range`: the response to a range that is served.
* `range_download_iff`: the values for which the response is right.
-/

namespace TusRs

open Interaction Protocol

/-! ## Storages that can be read -/

/-- A streamed body when it has been read: its bytes, or the error that ends it. -/
abbrev Streamed := Except IoError Bytes

namespace MemoryStorage

def stream (data : Data) (handle : StorageHandle) : Except Error Streamed :=
  (entry data handle).map .ok

/-- `MemoryStorage::stream_range`: `start..stop`, both clamped. -/
def streamRange (data : Data) (handle : StorageHandle) (start : Nat) (stop : Option Nat) :
    Except Error Streamed := do
  let content ← entry data handle
  let len := content.length
  let start := min start len
  let stop := min (stop.getD len) len
  pure (.ok (if start ≤ stop then (content.drop start).take (stop - start) else []))

end MemoryStorage

namespace FileStorage

/-- The failures of the calls of one read; `read` ends the stream. -/
structure ReadFaults where
  metadata : Option IoError
  openFile : Option IoError
  seek : Option IoError
  read : Option IoError

/-- A call on a file that must exist. -/
def fileCall (fault : Option IoError) (files : Files) (path : String) : Except Error Bytes :=
  match fault, files path with
  | some e, _ => .error (.io e)
  | none, some content => .ok content
  | none, none => .error (.io .notFound)

def ReadFaults.body (faults : ReadFaults) (bytes : Bytes) : Streamed :=
  match faults.read with
  | some e => .error e
  | none => .ok bytes

def stream (faults : ReadFaults) (files : Files) (handle : StorageHandle) :
    Except Error Streamed := do
  let path ← pathForHandle handle
  let content ← fileCall faults.openFile files path
  pure (faults.body content)

/-- `FileStorage::stream_range`. -/
def streamRange (faults : ReadFaults) (files : Files) (handle : StorageHandle) (start : Nat)
    (stop : Option Nat) : Except Error Streamed := do
  let path ← pathForHandle handle
  let content ← fileCall faults.metadata files path
  let size := content.length
  let start := min start size
  let stop := min (stop.getD size) size
  if stop ≤ start then pure (.ok [])
  else do
    let content ← fileCall faults.openFile files path
    match faults.seek with
    | some e => throw (.io e)
    | none => pure (faults.body ((content.drop start).take (stop - start)))

end FileStorage

/-- A `StorageReader`. -/
inductive Reader where
  | memory (data : MemoryStorage.Data)
  | file (faults : FileStorage.ReadFaults) (files : FileStorage.Files)

namespace Reader

def stream : Reader → StorageHandle → Except Error Streamed
  | memory data => MemoryStorage.stream data
  | file faults files => FileStorage.stream faults files

def streamRange : Reader → StorageHandle → Nat → Option Nat → Except Error Streamed
  | memory data => MemoryStorage.streamRange data
  | file faults files => FileStorage.streamRange faults files

/-- The object of a handle is `content`. -/
def Holds : Reader → StorageHandle → Bytes → Prop
  | memory data, handle, content => data handle.key = some content
  | file _ files, handle, content =>
    FileStorage.isGeneratedKey handle.key = true ∧ files handle.key = some content

/-- The calls before a body is streamed do not fail. -/
def Opens : Reader → Prop
  | memory _ => True
  | file faults _ => faults.metadata = none ∧ faults.openFile = none ∧ faults.seek = none

/-- No call of a read fails. -/
def Healthy : Reader → Prop
  | memory _ => True
  | file faults _ =>
    faults.metadata = none ∧ faults.openFile = none ∧ faults.seek = none ∧ faults.read = none

end Reader

/-! ## The response -/

structure DownloadResponse where
  status : Nat
  headers : List (String × String)
  body : Streamed

/-- `HeaderMap::insert`. -/
def setHeader (headers : List (String × String)) (name value : String) : List (String × String) :=
  (name, value) :: headers.filter fun h => h.1 ≠ name

/-- `insert_header`. -/
def insertHeader (headers : List (String × String)) (name value : String) :
    Except Stop (List (String × String)) :=
  if validHeaderValue value then .ok (setHeader headers name value)
  else .error (.failed (.internal
    "failed to build download response: failed to parse header value"))

/-- `MetadataValue::as_str`. -/
def MetadataValue.asStr (value : Bytes) : Option String := String.fromUTF8? ⟨value.toArray⟩

/-- `content_type`. -/
def contentType (state : UploadState) : String :=
  let value := (state.metadata.lookup "content-type").or (state.metadata.lookup "mimetype")
  ((value.bind MetadataValue.asStr).filter validHeaderValue).getD "application/octet-stream"

/-- `download_headers`. -/
def downloadHeaders (state : UploadState) : Except Stop (List (String × String)) :=
  insertHeader [("tus-resumable", "1.0.0"), ("cache-control", "no-store"),
    ("accept-ranges", "bytes")] "content-type" (contentType state)

/-- A call of `download` that may fail but not overflow. -/
def call {α : Type} : Except Error α → Except Stop α
  | .ok a => .ok a
  | .error e => .error (.failed e)

/-- The part of `download` for a range. -/
def respondRange (reader : Reader) (state : UploadState) (headers : List (String × String))
    (start stop : Nat) : Except Stop DownloadResponse := do
  let handle ← call state.requireStorageHandle
  let span ← checkedSub stop start
  let length ← checkedAdd span 1
  let headers ← insertHeader headers "content-length" (toString length)
  let size := state.offset
  let headers ← insertHeader headers "content-range" s!"bytes {start}-{stop}/{size}"
  let past ← checkedAdd stop 1
  let body ← call (reader.streamRange handle start (some past))
  pure ⟨206, headers, body⟩

/-- The part of `download` for a whole upload. -/
def respondWhole (reader : Reader) (state : UploadState) (headers : List (String × String)) :
    Except Stop DownloadResponse := do
  let size := state.offset
  if size = 0 then
    let headers ← insertHeader headers "content-length" "0"
    pure ⟨200, headers, .ok []⟩
  else
    let handle ← call state.requireStorageHandle
    let headers ← insertHeader headers "content-length" (toString size)
    let body ← call (reader.stream handle)
    pure ⟨200, headers, body⟩

/-- `Protocol::download` on an upload it has access to. -/
def respond (reader : Reader) (state : UploadState) (range : Option String) :
    Except Stop DownloadResponse := do
  let range ← parseRange range state.offset
  let headers ← downloadHeaders state
  match range with
  | some (start, stop) => respondRange reader state headers start stop
  | none => respondWhole reader state headers

/-! ## Uploads that can be downloaded -/

/-- A complete upload with its content in the storage. -/
structure Stored (reader : Reader) (state : UploadState) (content : Bytes) : Prop where
  complete : state.isComplete = true
  offset : state.offset = content.length
  fits : content.length ≤ u64Max
  held : ∃ handle, state.handle = some handle ∧ reader.Holds handle content

/-- The bytes `start..=stop`. -/
def slice (content : Bytes) (start stop : Nat) : Bytes :=
  (content.drop start).take (stop - start + 1)

/-- A range request is answered with the bytes its value selects or fails, without an
overflow, and it does not fail if nothing else does. -/
structure RangeCorrect (reader : Reader) (state : UploadState) (content : Bytes)
    (value : String) : Prop where
  noOverflow : respond reader state (some value) ≠ .error .overflow
  answer : ∀ r, respond reader state (some value) = .ok r →
    ∃ start stop, Selects Numeral content.length value.toList start stop ∧ start ≤ stop ∧
      stop < content.length ∧ r.status = 206 ∧
      r.headers.lookup "content-length" = some (toString (stop - start + 1)) ∧
      r.headers.lookup "content-range" = some s!"bytes {start}-{stop}/{content.length}" ∧
      ∀ bytes, r.body = .ok bytes → bytes = slice content start stop
  served : reader.Healthy → ∀ start stop,
    Selects Numeral content.length value.toList start stop →
    ∃ r, respond reader state (some value) = .ok r ∧ r.body = .ok (slice content start stop)

/-! ## The storages -/

section Storages

variable {reader : Reader} {handle : StorageHandle} {content : Bytes} {start stop : Nat}

theorem pathForHandle_generated (h : FileStorage.isGeneratedKey handle.key = true) :
    FileStorage.pathForHandle handle = .ok handle.key := if_pos h

theorem fileCall_ok {files : FileStorage.Files} {path : String} (h : files path = some content) :
    FileStorage.fileCall none files path = .ok content := by
  simp [FileStorage.fileCall, h]

theorem slice_eq (hle : start ≤ stop) :
    (content.drop start).take (stop + 1 - start) = slice content start stop := by
  rw [slice, Nat.sub_add_comm hle]

/-- A range inside the content is streamed as it is asked for. -/
theorem streamRange_spec (hheld : reader.Holds handle content) (hle : start ≤ stop)
    (hlt : stop < content.length) (hopen : reader.Opens) :
    ∃ body, reader.streamRange handle start (some (stop + 1)) = .ok body ∧
      (∀ bytes, body = .ok bytes → bytes = slice content start stop) ∧
      (reader.Healthy → body = .ok (slice content start stop)) := by
  have hstart : min start content.length = start := by omega
  have hstop : min (stop + 1) content.length = stop + 1 := by omega
  have hwide : ¬stop + 1 ≤ start := by omega
  cases reader with
  | memory data =>
    have hentry : MemoryStorage.entry data handle = .ok content := by
      rw [MemoryStorage.entry, show data handle.key = some content from hheld]
    refine ⟨.ok (slice content start stop), ?_, fun bytes hb => (Except.ok.inj hb).symm,
      fun _ => rfl⟩
    simp [Reader.streamRange, MemoryStorage.streamRange, hentry, hstart, hstop,
      Nat.le_succ_of_le hle, slice_eq hle, bind, Except.bind, pure, Except.pure]
  | file faults files =>
    obtain ⟨hkey, hfile⟩ := hheld
    obtain ⟨hmetadata, hopenFile, hseek⟩ := hopen
    have hstream : FileStorage.streamRange faults files handle start (some (stop + 1)) =
        .ok (faults.body (slice content start stop)) := by
      simp [FileStorage.streamRange, pathForHandle_generated hkey, hmetadata, hopenFile, hseek,
        fileCall_ok hfile, hstart, hstop, hwide, slice_eq hle, bind, Except.bind,
        pure, Except.pure]
    refine ⟨faults.body (slice content start stop), hstream, fun bytes hb => ?_, fun hh => ?_⟩
    · unfold FileStorage.ReadFaults.body at hb
      split at hb
      · cases hb
      · exact (Except.ok.inj hb).symm
    · rw [FileStorage.ReadFaults.body, hh.2.2.2]

/-- A storage that cannot be opened streams nothing. -/
theorem streamRange_error (hheld : reader.Holds handle content) (hle : start ≤ stop)
    (hlt : stop < content.length) (hopen : ¬reader.Opens) :
    ∃ e, reader.streamRange handle start (some (stop + 1)) = .error e := by
  have hstart : min start content.length = start := by omega
  have hstop : min (stop + 1) content.length = stop + 1 := by omega
  have hwide : ¬stop + 1 ≤ start := by omega
  cases reader with
  | memory data => exact absurd trivial hopen
  | file faults files =>
    obtain ⟨hkey, hfile⟩ := hheld
    have hfail : ∀ e path, FileStorage.fileCall (some e) files path = .error (.io e) :=
      fun _ _ => rfl
    cases hmetadata : faults.metadata with
    | some e =>
      refine ⟨.io e, ?_⟩
      simp [Reader.streamRange, FileStorage.streamRange, pathForHandle_generated hkey, hmetadata,
        hfail, bind, Except.bind]
    | none =>
      cases hopenFile : faults.openFile with
      | some e =>
        refine ⟨.io e, ?_⟩
        simp [Reader.streamRange, FileStorage.streamRange, pathForHandle_generated hkey, hmetadata,
          hopenFile, hfail, fileCall_ok hfile, hstart, hstop, hwide, bind,
          Except.bind]
      | none =>
        cases hseek : faults.seek with
        | some e =>
          refine ⟨.io e, ?_⟩
          simp [Reader.streamRange, FileStorage.streamRange, pathForHandle_generated hkey,
            hmetadata, hopenFile, hseek, fileCall_ok hfile, hstart, hstop, hwide,
            bind, Except.bind, throw, throwThe, MonadExceptOf.throw]
        | none => exact absurd ⟨hmetadata, hopenFile, hseek⟩ hopen

end Storages

/-! ## The answer to a range -/

section Answer

variable {reader : Reader} {state : UploadState} {handle : StorageHandle} {content : Bytes}
  {start stop : Nat} {headers : List (String × String)} {value : String}

theorem validHeaderValue_append {a b : String} (ha : validHeaderValue a = true)
    (hb : validHeaderValue b = true) : validHeaderValue (a ++ b) = true := by
  unfold validHeaderValue at *
  rw [String.toList_append, List.all_append, ha, hb]
  rfl

theorem validHeaderValue_toString (n : Nat) : validHeaderValue (toString n) = true := by
  rw [validHeaderValue, List.all_eq_true]
  intro c hc
  have hdigit : c.isDigit := by
    refine Nat.isDigit_of_mem_toDigits (b := 10) (n := n) (by decide) (by decide) ?_
    rwa [← Nat.toList_repr]
  have hb := isDigit_bounds hdigit
  simp at hb ⊢
  omega

/-- `Content-Range`. -/
def contentRange (start stop size : Nat) : String := s!"bytes {start}-{stop}/{size}"

theorem validHeaderValue_contentRange (start stop size : Nat) :
    validHeaderValue (contentRange start stop size) = true := by
  unfold contentRange
  refine validHeaderValue_append (validHeaderValue_append (validHeaderValue_append
    (validHeaderValue_append (validHeaderValue_append ?_ ?_) ?_) ?_) ?_) ?_
  · decide
  · exact validHeaderValue_toString start
  · decide
  · exact validHeaderValue_toString stop
  · decide
  · exact validHeaderValue_toString size

theorem insertHeader_ok (h : validHeaderValue value = true) (name : String) :
    insertHeader headers name value = .ok (setHeader headers name value) := if_pos h

theorem contentType_valid (state : UploadState) : validHeaderValue (contentType state) = true := by
  unfold contentType
  dsimp only
  generalize ((state.metadata.lookup "content-type").or (state.metadata.lookup "mimetype")).bind
    MetadataValue.asStr = text
  cases hfilter : text.filter validHeaderValue with
  | none => decide
  | some value => exact (Option.filter_eq_some_iff.mp hfilter).2

/-- The headers of a range. -/
def rangeHeaders (state : UploadState) (start stop : Nat) : List (String × String) :=
  setHeader (setHeader (setHeader [("tus-resumable", "1.0.0"), ("cache-control", "no-store"),
    ("accept-ranges", "bytes")] "content-type" (contentType state))
    "content-length" (toString (stop - start + 1)))
    "content-range" (contentRange start stop state.offset)

theorem respond_range (hrange : parseRange (some value) state.offset = .ok (some (start, stop)))
    (hhandle : state.handle = some handle) (hle : start ≤ stop) (hlt : stop < u64Max) :
    respond reader state (some value) =
      (call (reader.streamRange handle start (some (stop + 1)))).map fun body =>
        ⟨206, rangeHeaders state start stop, body⟩ := by
  have hheaders : downloadHeaders state = .ok _ := insertHeader_ok (contentType_valid state) _
  have hcall : call state.requireStorageHandle = .ok handle := by
    rw [UploadState.requireStorageHandle, hhandle]
    rfl
  have hspan : checkedSub stop start = .ok (stop - start) := if_pos hle
  have hlength : checkedAdd (stop - start) 1 = .ok (stop - start + 1) := if_pos (by omega)
  have hpast : checkedAdd stop 1 = .ok (stop + 1) := if_pos hlt
  have hdigits (hs : List (String × String)) :
      insertHeader hs "content-length" (toString (stop - start + 1)) = _ :=
    insertHeader_ok (validHeaderValue_toString _) "content-length"
  have hbounds (hs : List (String × String)) : insertHeader hs "content-range"
      s!"bytes {start}-{stop}/{state.offset}" = _ :=
    insertHeader_ok (validHeaderValue_contentRange start stop state.offset) "content-range"
  simp only [respond, hrange, hheaders, respondRange, hcall, hspan, hlength, hpast, hdigits, hbounds,
    bind, Except.bind]
  cases reader.streamRange handle start (some (stop + 1)) with
  | error e => rfl
  | ok body => rfl

/-- A value that selects a range is answered with its bytes as long as the storage opens. -/
theorem respond_selects (hstored : Stored reader state content)
    (hsel : Selects Lenient content.length value.toList start stop) (hopen : reader.Opens) :
    ∃ r, respond reader state (some value) = .ok r ∧ r.status = 206 ∧
      r.headers = rangeHeaders state start stop ∧
      (∀ bytes, r.body = .ok bytes → bytes = slice content start stop) ∧
      (reader.Healthy → r.body = .ok (slice content start stop)) := by
  obtain ⟨handle, hhandle, hheld⟩ := hstored.held
  obtain ⟨hle, hlt⟩ := hsel.bounds
  obtain ⟨body, hbody, hbytes, hhealthy⟩ := streamRange_spec hheld hle hlt hopen
  have hrange := parseRange_ok_iff.mpr hsel
  rw [← hstored.offset] at hrange
  refine ⟨⟨206, rangeHeaders state start stop, body⟩, ?_, rfl, rfl, hbytes, hhealthy⟩
  rw [respond_range hrange hhandle hle (hlt.trans_le hstored.fits), hbody]
  rfl

/-- Whatever is answered was selected, and nothing overflows. -/
theorem respond_cases (hstored : Stored reader state content) (value : String) :
    (∃ e, respond reader state (some value) = .error (.failed e)) ∨
    ∃ start stop, Selects Lenient content.length value.toList start stop ∧ reader.Opens := by
  obtain ⟨start, stop, hrange⟩ | ⟨e, he⟩ := parseRange_some value state.offset
  · have hsel := parseRange_ok_iff.mp hrange
    rw [hstored.offset] at hsel
    by_cases hopen : reader.Opens
    · exact .inr ⟨start, stop, hsel, hopen⟩
    · obtain ⟨handle, hhandle, hheld⟩ := hstored.held
      obtain ⟨hle, hlt⟩ := hsel.bounds
      obtain ⟨e, he⟩ := streamRange_error hheld hle hlt hopen
      refine .inl ⟨e, ?_⟩
      rw [respond_range hrange hhandle hle (hlt.trans_le hstored.fits), he]
      rfl
  · refine .inl ⟨e, ?_⟩
    rw [respond, he]
    rfl

theorem lookup_contentLength (state : UploadState) (start stop : Nat) :
    (rangeHeaders state start stop).lookup "content-length" = some (toString (stop - start + 1)) :=
  rfl

theorem lookup_contentRange (state : UploadState) (start stop : Nat) :
    (rangeHeaders state start stop).lookup "content-range" =
      some (contentRange start stop state.offset) := rfl

/-- A download of a range is right exactly if its value is no range that is written with a plus
sign, or the storage fails to open. -/
theorem range_download_iff (hstored : Stored reader state content) (value : String) :
    RangeCorrect reader state content value ↔
      ¬(reader.Opens ∧ '+' ∈ value.toList ∧
        ∃ start stop, Selects Lenient content.length value.toList start stop) := by
  constructor
  · rintro hc ⟨hopen, hplus, start, stop, hsel⟩
    obtain ⟨r, hr, -⟩ := respond_selects hstored hsel hopen
    obtain ⟨_, _, hnum, -⟩ := hc.answer r hr
    exact (selects_numeral_iff.mp hnum).2 hplus
  · intro hno
    refine ⟨fun h => ?_, fun r hr => ?_, fun hh start stop hsel => ?_⟩
    · obtain ⟨e, he⟩ | ⟨start, stop, hsel, hopen⟩ := respond_cases hstored value
      · rw [he] at h
        cases h
      · obtain ⟨r, hr, -⟩ := respond_selects hstored hsel hopen
        rw [hr] at h
        cases h
    · obtain ⟨e, he⟩ | ⟨start, stop, hsel, hopen⟩ := respond_cases hstored value
      · rw [he] at hr
        cases hr
      · obtain ⟨r', hr', hstatus, hheaders, hbytes, -⟩ := respond_selects hstored hsel hopen
        obtain rfl : r' = r := by
          rw [hr] at hr'
          exact (Except.ok.inj hr').symm
        have hplus : '+' ∉ value.toList := fun hp => hno ⟨hopen, hp, start, stop, hsel⟩
        refine ⟨start, stop, selects_numeral_iff.mpr ⟨hsel, hplus⟩, hsel.bounds.1, hsel.bounds.2,
          hstatus, ?_, ?_, hbytes⟩
        · rw [hheaders, lookup_contentLength]
        · rw [hheaders, lookup_contentRange, hstored.offset]
          rfl
    · have hopen : reader.Opens := by
        cases reader with
        | memory data => trivial
        | file faults files => exact ⟨hh.1, hh.2.1, hh.2.2.1⟩
      obtain ⟨r, hr, -, -, -, hbody⟩ :=
        respond_selects hstored (selects_numeral_iff.mp hsel).1 hopen
      exact ⟨r, hr, hbody hh⟩

end Answer

/-- Three bytes in memory. -/
def threeBytes : Reader := .memory fun key => if key = "memory://a" then some [1, 2, 3] else none

def threeByteUpload : UploadState :=
  { UploadState.new "a" 0 with offset := 3, length := some 3, handle := some ⟨"memory://a", []⟩ }

theorem threeBytes_stored : Stored threeBytes threeByteUpload [1, 2, 3] :=
  ⟨rfl, rfl, by decide, _, rfl, rfl⟩

theorem range_download_suffix :
    RangeCorrect threeBytes threeByteUpload [1, 2, 3] "bytes=-2" ∧
    ∃ headers, respond threeBytes threeByteUpload (some "bytes=-2") = .ok ⟨206, headers, .ok [2, 3]⟩ :=
  ⟨(range_download_iff threeBytes_stored "bytes=-2").mpr fun h => absurd h.2.1 (by decide), _, rfl⟩

/-- A signed position is served. -/
theorem signed_range_served :
    Stored threeBytes threeByteUpload [1, 2, 3] ∧
    (∃ headers, respond threeBytes threeByteUpload (some "bytes=+0-0") =
      .ok ⟨206, headers, .ok [1]⟩) ∧
    ¬RangeCorrect threeBytes threeByteUpload [1, 2, 3] "bytes=+0-0" := by
  refine ⟨threeBytes_stored, ⟨_, rfl⟩, fun hc => ?_⟩
  obtain ⟨_, _, hnum, -⟩ := hc.answer _ rfl
  exact absurd (selects_numeral_iff.mp hnum).2 (by decide)

end TusRs
