import Mathlib.Data.Char
import Mathlib.Data.List.Lex
import TusRs.Opendal.Store
import TusRs.Protocol.Body

/-!
# Staging of uploads in part objects

`tus-storage-opendal/src/staging.rs` and the storage operations of `lib.rs`: every append
is a part object of its own; the append that completes the upload first writes a marker
with its part number, promotes its part from a temporary object, then writes all parts
into the main object and removes them. A read repairs a finalisation that was cut off.
-/

namespace TusRs

open Interaction Protocol

namespace Opendal

abbrev StoreM := Attempt StoreSig Error

/-- `Error::storage`. -/
def storageError : ObjError → Error
  | .notFound => .storage "NotFound"
  | .other m => .storage m

/-- Perform an operation whose failure is a storage error. -/
def orStorage {α : Type} : Except ObjError α → Prog StoreSig (Except Error α)
  | .ok a => .done (.ok a)
  | .error e => .done (.error (storageError e))

/-- `UploadObjects`: the upload's key and the capabilities of the operator that decide how
an object is promoted. -/
structure UploadObjects where
  key : String
  rename : Bool
  copy : Bool

/-- A staged part object as observed in a listing. -/
structure PartObject where
  key : Key
  size : Option Nat

/-- Where the next body goes and how many bytes precede it. -/
structure AppendPosition where
  partNumber : Nat
  stagedSize : Nat
  offset : Nat

def initializeHandle : Handle := ⟨some 1, some 0⟩

def nextPart (handle : Handle) : Nat := handle.nextPart.getD 1

def stagedSizeFact (handle : Handle) : Option Nat := handle.stagedSize

/-! ## Listing and measuring -/

/-- `parts.sort_by(|a, b| a.key.cmp(&b.key))`. -/
def sortByName (parts : List PartObject) : List PartObject :=
  parts.mergeSort fun a b => decide (a.key.name ≤ b.key.name)

/-- A zero length is indistinguishable from a listing that omits sizes. -/
def PartObject.ofEntry (e : Entry) : PartObject :=
  ⟨e.key, if e.contentLength = 0 then none else some e.contentLength⟩

def listParts : StoreM (List PartObject) :=
  Prog.step (.list .parts) fun (r : Except ObjError (List Entry)) =>
    match r with
    | .ok entries =>
      .done (.ok (sortByName ((entries.filter Entry.isFile).map PartObject.ofEntry)))
    | .error .notFound => .done (.ok [])
    | .error e => .done (.error (storageError e))

def listTempObjects : StoreM (List Key) :=
  Prog.step (.list .tmp) fun (r : Except ObjError (List Entry)) =>
    match r with
    | .ok entries => .done (.ok ((entries.filter Entry.isFile).map Entry.key))
    | .error .notFound => .done (.ok [])
    | .error e => .done (.error (storageError e))

/-- `sum_part_sizes` with the running total. -/
def sumPartSizes : Nat → List PartObject → StoreM Nat
  | total, [] => pure total
  | total, part :: parts =>
    match part.size with
    | some size => sumPartSizes (satAdd total size) parts
    | none => Prog.step (.stat part.key) fun (r : Except ObjError Nat) =>
      match r with
      | .ok size => sumPartSizes (satAdd total size) parts
      | .error e => .done (.error (storageError e))

def stagedSize : StoreM (Option Nat) := do
  let parts ← listParts
  if parts.isEmpty then pure none
  else do
    let total ← sumPartSizes 0 parts
    pure (some total)

/-- `stored_size`: the larger of the staged bytes and the main object. -/
def storedSize : StoreM (Option Nat) := do
  let staged ← stagedSize
  Prog.step (.stat .main) fun (r : Except ObjError Nat) =>
    match r with
    | .ok size => .done (.ok (some (staged.elim size fun staged => max staged size)))
    | .error .notFound => .done (.ok staged)
    | .error e => .done (.error (storageError e))

/-! ## The append position -/

def recoveredPosition (candidate : Nat) : StoreM AppendPosition := do
  let parts ← listParts
  let nextExisting := satAdd ((parts.filterMap fun part => partNumber part.key).foldl max 0) 1
  let staged ← sumPartSizes 0 parts
  Prog.step (.stat .main) fun (r : Except ObjError Nat) =>
    match r with
    | .ok size => .done (.ok ⟨max candidate nextExisting, staged, max staged size⟩)
    | .error .notFound => .done (.ok ⟨max candidate nextExisting, staged, staged⟩)
    | .error e => .done (.error (storageError e))

/-- `append_position`: the cursor of the handle is trusted as long as its part does not
exist. -/
def appendPosition (handle : Handle) : StoreM AppendPosition :=
  Prog.step (.stat (.part (nextPart handle))) fun (r : Except ObjError Nat) =>
    match r with
    | .ok _ => recoveredPosition (nextPart handle)
    | .error .notFound =>
      match stagedSizeFact handle with
      | some staged => .done (.ok ⟨nextPart handle, staged, staged⟩)
      | none => recoveredPosition (nextPart handle)
    | .error e => .done (.error (storageError e))

/-! ## Writing a part -/

/-- `discard_partial_part`. -/
def discardPartialPart (key : Key) : StoreM Unit :=
  Prog.step (.writerAbort key) fun (r : Except ObjError Unit) =>
    match r with
    | .ok _ => .done (.ok ())
    | .error _ => .step (.delete key) fun _ => .done (.ok ())

/-- The loop of `write_part` over a stream; `buffer` holds what was written so far. -/
def writeStream (key : Key) : Bytes → Nat → List (Except IoError Bytes) → StoreM Nat
  | buffer, written, [] =>
    Prog.step (.writerClose key buffer) fun (r : Except ObjError Unit) =>
      match r with
      | .ok _ => .done (.ok written)
      | .error e => Prog.bind (discardPartialPart key) fun _ => .done (.error (storageError e))
  | _, _, .error e :: _ =>
    Prog.bind (discardPartialPart key) fun _ => .done (.error (.io e))
  | buffer, written, .ok chunk :: chunks =>
    Prog.step (.writerWrite key chunk) fun (r : Except ObjError Unit) =>
      match r with
      | .ok _ => writeStream key (buffer ++ chunk) (satAdd written chunk.length) chunks
      | .error e => Prog.bind (discardPartialPart key) fun _ => .done (.error (storageError e))

/-- `write_part`: a buffered body is a single atomic write. -/
def writePart (key : Key) : ChunkStream → StoreM Nat
  | .buffered bytes => Prog.step (.write key bytes) fun (r : Except ObjError Unit) =>
    match r with
    | .ok _ => .done (.ok bytes.length)
    | .error e => .done (.error (storageError e))
  | .stream chunks => Prog.step (.writer key) fun (r : Except ObjError Unit) =>
    match r with
    | .ok _ => writeStream key [] 0 chunks
    | .error e => .done (.error (storageError e))

/-- `promote_object`: rename, or copy and delete. -/
def promoteObject (u : UploadObjects) (source target : Key) : StoreM Unit :=
  if u.rename then Prog.step (.rename source target) orStorage
  else if u.copy then Prog.step (.copy source target) fun (r : Except ObjError Unit) =>
    match r with
    | .ok _ => .step (.delete source) fun _ => .done (.ok ())
    | .error e => .done (.error (storageError e))
  else throw (.storage "OpenDAL service must support rename or copy to promote materialized uploads")

/-- `temp_key`. -/
def tempKey (purpose : String) : StoreM Key :=
  Prog.step .uuid fun (uuid : Nat) => .done (.ok (.temp purpose uuid))

/-- `stage_final_part`: the completing part appears at its key in full or not at all. -/
def stageFinalPart (u : UploadObjects) (key : Key) (data : ChunkStream) : StoreM Nat := do
  let temp ← tempKey "part"
  Prog.bind (writePart temp data) fun
    | .error e => .step (.delete temp) fun _ => .done (.error e)
    | .ok written => Prog.bind (promoteObject u temp key) fun
      | .error e => .done (.error e)
      | .ok _ => .done (.ok written)

/-- The completion marker holds the decimal text of a part number. -/
def markerBytes (number : Nat) : Bytes := (Nat.toDigits 10 number).map fun c => c.toUInt8

def writeCompletionMarker (number : Nat) : StoreM Unit :=
  Prog.step (.write .complete (markerBytes number)) orStorage

/-- `str::trim` on ASCII text. -/
def trim (cs : List Char) : List Char :=
  ((cs.dropWhile Char.isWhitespace).reverse.dropWhile Char.isWhitespace).reverse

/-- `read_completion_marker`: an unparseable marker is ignored. -/
def readCompletionMarker : StoreM (Option Nat) :=
  Prog.step (.read .complete) fun (r : Except ObjError Bytes) =>
    match r with
    | .ok bytes =>
      .done (.ok (parseU64Chars (trim (bytes.map fun b => Char.ofNat b.toNat))))
    | .error .notFound => .done (.ok none)
    | .error e => .done (.error (storageError e))

/-- The body of `append_part` once its position is known. -/
def stageAt (u : UploadObjects) (position : AppendPosition) (data : ChunkStream)
    (completesUpload : Bool) : StoreM Nat :=
  if completesUpload then
    Prog.bind (writeCompletionMarker position.partNumber) fun
    | .error e => .done (.error e)
    | .ok _ => Prog.bind (stageFinalPart u (.part position.partNumber) data) fun
      | .ok written => .done (.ok written)
      -- the completing body was not staged: the marker must not outlive it
      | .error e => .step (.delete .complete) fun _ => .done (.error e)
  else writePart (.part position.partNumber) data

def appendPart (u : UploadObjects) (handle : Handle) (expectedOffset : Nat) (data : ChunkStream)
    (completesUpload : Bool) : StoreM Handle := do
  let position ← appendPosition handle
  if position.offset ≠ expectedOffset then
    throw (.internal s!"opendal storage staged size {position.offset} does not match expected offset {expectedOffset} for key {u.key}")
  else do
    let written ← stageAt u position data completesUpload
    pure ⟨some (position.partNumber + 1), some (satAdd position.stagedSize written)⟩

/-! ## Materialisation -/

/-- `delete_object`: a missing object is a success. -/
def deleteObject (key : Key) : StoreM Unit :=
  Prog.step (.delete key) fun (r : Except ObjError Unit) =>
    match r with
    | .ok _ => .done (.ok ())
    | .error .notFound => .done (.ok ())
    | .error e => .done (.error (storageError e))

def deletePrefix (pre : Prefix) : StoreM Unit :=
  Prog.step (.deletePrefix pre) fun (r : Except ObjError Unit) =>
    match r with
    | .ok _ => .done (.ok ())
    | .error .notFound => .done (.ok ())
    | .error e => .done (.error (storageError e))

def deleteObjects : List Key → StoreM Unit
  | [] => pure ()
  | key :: keys => do
    deleteObject key
    deleteObjects keys

def deleteStagedParts : StoreM Unit := do
  let parts ← listParts
  deleteObjects (parts.map PartObject.key)
  deletePrefix .parts

def deleteTempObjects : StoreM Unit := do
  let keys ← listTempObjects
  deleteObjects keys
  deletePrefix .tmp

/-- The loop of `write_objects_to_key`; `buffer` holds what was written so far. -/
def copyObjects (target : Key) : Bytes → List Key → StoreM Unit
  | buffer, [] => Prog.step (.writerClose target buffer) orStorage
  | buffer, source :: sources => Prog.step (.read source) fun (r : Except ObjError Bytes) =>
    match r with
    | .error e => .done (.error (storageError e))
    | .ok bytes => .step (.writerWrite target bytes) fun (r : Except ObjError Unit) =>
      match r with
      | .error e => .done (.error (storageError e))
      | .ok _ => copyObjects target (buffer ++ bytes) sources

def writeObjectsToKey (target : Key) (sources : List Key) : StoreM Unit :=
  Prog.step (.writer target) fun (r : Except ObjError Unit) =>
    match r with
    | .ok _ => copyObjects target [] sources
    | .error e => .done (.error (storageError e))

/-- Run `p`; on an error the temporary object is deleted first. -/
def orDiscard (temp : Key) (p : StoreM Unit) : StoreM Unit :=
  Prog.bind p fun
    | .ok _ => .done (.ok ())
    | .error e => .step (.delete temp) fun _ => .done (.error e)

def materialize (u : UploadObjects) (purpose : String) (sources : List Key) : StoreM Unit := do
  let temp ← tempKey purpose
  orDiscard temp (writeObjectsToKey temp sources)
  orDiscard temp (promoteObject u temp .main)

/-- Cleanup whose failure is only logged. -/
def bestEffort (p : StoreM Unit) : StoreM Unit := Prog.bind p fun _ => .done (.ok ())

def finalize (u : UploadObjects) : StoreM Unit := do
  let parts ← listParts
  materialize u "finalize" (parts.map PartObject.key)
  bestEffort deleteStagedParts
  bestEffort deleteTempObjects
  bestEffort (deleteObject .complete)

/-- `delete_all`: the marker first, then the main object, then what is staged. -/
def deleteAll : StoreM Unit := do
  deleteObject .complete
  deleteObject .main
  deleteStagedParts
  deleteTempObjects
  deletePrefix .container

def finalizeRetries : Nat := 2

/-- `finalize_with_retry`: the first attempt and `n` more. -/
def finalizeWithRetry (u : UploadObjects) : Nat → StoreM Unit
  | 0 => finalize u
  | n + 1 => Prog.bind (finalize u) fun
    | .ok _ => .done (.ok ())
    | .error _ => finalizeWithRetry u n

/-- The numbers of the parts that a repair materialises, `1..=completing_part`. -/
def repairNumbers (completing : Nat) : List Nat := List.range' 1 completing

/-- `ensure_materialized`. -/
def ensureMaterialized (u : UploadObjects) : StoreM Bool :=
  Prog.step (.stat .main) fun (r : Except ObjError Nat) =>
    match r with
    | .ok _ => .done (.ok true)
    | .error (.other m) => .done (.error (.storage m))
    | .error .notFound => Prog.bind readCompletionMarker fun
      | .error e => .done (.error e)
      | .ok none => .done (.ok false)
      | .ok (some completing) =>
        .step (.stat (.part completing)) fun (r : Except ObjError Nat) =>
          match r with
          | .error .notFound => .done (.ok false)
          | .error e => .done (.error (storageError e))
          | .ok _ => Prog.bind listParts fun
            | .error e => .done (.error e)
            | .ok parts =>
              let staged := parts.filterMap fun part => partNumber part.key
              -- a gapped sequence would be promoted as truncated content
              if completing = 0 ∨ ∃ n ∈ repairNumbers completing, n ∉ staged then
                .done (.ok false)
              else
                Prog.bind (materialize u "repair" ((repairNumbers completing).map Key.part)) fun
                | .ok _ => .done (.ok true)
                | .error e => .step (.stat .main) fun (r : Except ObjError Nat) =>
                  match r with
                  | .ok _ => .done (.ok true)
                  | .error _ => .done (.error e)

/-! ## The storage operations -/

/-- `Storage::append`. -/
def append (u : UploadObjects) (handle : Handle) (expectedOffset : Nat) (data : ChunkStream)
    (completesUpload : Bool) : StoreM Handle := do
  let handle ← appendPart u handle expectedOffset data completesUpload
  if completesUpload then do
    finalizeWithRetry u finalizeRetries
    pure handle
  else pure handle

/-- `Storage::size`. -/
def size : StoreM (Option Nat) := storedSize

/-- `StorageReader::stream`, read to its end. -/
def stream (u : UploadObjects) : StoreM Bytes := do
  let materialized ← ensureMaterialized u
  if materialized then Prog.step (.read .main) orStorage
  else throw (.notFound u.key)

/-! ## The protocol's use of the storage -/

/-- A body whose size was declared: intake turns every divergence into an error of the
stream. -/
structure SizedBody where
  data : ChunkStream
  size : Nat
  exact : ∀ bytes, data.collect = some bytes → bytes.length = size

/-- A PATCH, or the body of a creation. A length is declared in a header, as a `u64`. -/
structure ReceiveRequest where
  config : Config
  declared : Option Nat
  declared_fits : ∀ l, declared = some l → l ≤ u64Max
  kind : ReceiveBodyKind
  body : SizedBody

/-- The checks before an append: the length it works with and whether the body completes
the upload. -/
def checkReceive (q : ReceiveRequest) (length : Option Nat) (offset : Nat) :
    Except Error (Option Nat × Bool) := do
  let length ← resolveLength q.config length q.declared
  enforce (receiveBodyLimit q.config length offset q.kind) q.body.size
  let projection ← validateBodyForReceive q.config length offset q.body.size q.kind
  pure (length, projection.completesUpload)

/-- One PATCH as the storage sees it: the offset is what `size` reports, a complete upload
is refused, and the handle is persisted with the length only after the append. The body of
a creation is received in the same way. -/
def receive (u : UploadObjects) (id : String) (q : ReceiveRequest) : StoreM Unit :=
  Prog.step .load fun (record : Handle × Option Nat) =>
    Prog.bind size fun
    | .error e => .done (.error e)
    | .ok stored =>
      if stored.isSome ∧ stored = record.2 then
        .done (.error (.completedUploadModificationForbidden id))
      else match checkReceive q record.2 (stored.getD 0) with
        | .error e => .done (.error e)
        | .ok (length, completes) =>
          Prog.bind (append u record.1 (stored.getD 0) q.body.data completes) fun
          | .error e => .done (.error e)
          | .ok handle => .step (.save handle length) .done

/-- One GET as the storage sees it: an incomplete upload is refused, an empty one is
answered without the storage. -/
def download (u : UploadObjects) (id : String) : StoreM Bytes :=
  Prog.step .load fun (record : Handle × Option Nat) =>
    Prog.bind size fun
    | .error e => .done (.error e)
    | .ok stored =>
      if record.2 ≠ some (stored.getD 0) then .done (.error (.incompleteUpload id))
      else if stored.getD 0 = 0 then .done (.ok [])
      else stream u

end Opendal

end TusRs
