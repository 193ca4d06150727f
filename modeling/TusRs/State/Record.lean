import TusRs.Base64
import TusRs.Json
import TusRs.Protocol.State
import TusRs.Storage.Download

/-!
# The persisted record

How `state.rs` writes an upload state as a JSON value and reads it back: the derived code of
`UploadState` and `UploadMetadata`, and the two shapes of a `MetadataValue`. The maps are written
in whatever order they iterate. The text of a time is a parameter.

Results:

* `MetadataValue.round_trip`: no byte string is read in the shape of another one.
* `deserialize_serialize`: a record that is read back is the one that was written.
-/

namespace TusRs

namespace Persisted

open Json (Value Map Entries Fields RoundTrips)

/-! ## Records -/

structure StorageHandle where
  key : String
  internal : Map String

/-- Every field that is written; `Time` is the type of its dates. -/
structure UploadState (Time : Type) where
  schemaVersion : UInt32
  id : String
  offset : UInt64
  length : Option UInt64
  storageKey : Option String
  createdAt : Time
  expiresAt : Option Time
  isPartial : Bool
  isFinal : Bool
  parts : Option (List String)
  metadata : Map Bytes
  internal : Map String

/-- The text of a date, as `chrono` writes and reads it. -/
structure TimeText (Time : Type) where
  write : Time → String
  read : String → Option Time

def TimeText.Lawful {Time : Type} (time : TimeText Time) : Prop :=
  ∀ t, time.read (time.write t) = some t

namespace UploadState

variable {Time : Type}

def storageHandle (state : UploadState Time) : Option StorageHandle :=
  state.storageKey.map fun key => { key := key, internal := state.internal }

/-- The handle's facts replace all of the earlier ones. -/
def setStorageHandle (state : UploadState Time) (handle : StorageHandle) : UploadState Time :=
  { state with storageKey := some handle.key, internal := handle.internal }

@[simp] theorem storageHandle_setStorageHandle (state : UploadState Time) (handle : StorageHandle) :
    (state.setStorageHandle handle).storageHandle = some handle := rfl

end UploadState

/-! ## Metadata values -/

namespace MetadataValue

variable (base64 : Base64.Codec)

/-- Text is written as a string, anything else as an object with its encoding. -/
def serialize (value : Bytes) : Value :=
  match TusRs.MetadataValue.asStr value with
  | some text => .string text
  | none => .object [("base64", .string (base64.encode value))]

/-- The untagged variants, tried in order: `Text`, then `Binary`. -/
def deserialize (v : Value) : Option Bytes :=
  match Json.readString v with
  | some text => some text.toByteArray.data.toList
  | none => do
    let fields ← Json.readFields ["base64"] 1 v
    let text ← fields.required "base64" Json.readString
    (base64.decode text).toOption

/-- A text is read back as the bytes that were found to be UTF-8. -/
theorem asStr_toUTF8 {value : Bytes} {text : String}
    (h : TusRs.MetadataValue.asStr value = some text) : text.toByteArray.data.toList = value := by
  unfold TusRs.MetadataValue.asStr String.fromUTF8? at h
  split at h
  · cases h
    rfl
  · cases h

variable {base64}

theorem round_trip (hb : base64.Lawful) : RoundTrips (serialize base64) (deserialize base64) := by
  intro value
  unfold serialize
  split
  · next text htext =>
    rw [deserialize, Json.readString_string]
    exact congrArg some (asStr_toUTF8 htext)
  · obtain ⟨fields, hfields, hfield⟩ := Json.readFields_object ["base64"] 1
      (show ([("base64", Value.string (base64.encode value))].map Prod.fst).Nodup from
        List.nodup_singleton _)
    simp [deserialize, Json.readString, hfields, Fields.required_of (hfield 0 _ _ rfl),
      hb.decode_encode value, Except.toOption]

end MetadataValue

/-! ## Upload states -/

namespace UploadState

variable {Time : Type} (base64 : Base64.Codec) (time : TimeText Time)

def writeTime (t : Time) : Value := .string (time.write t)

def readTime (v : Value) : Option Time := (Json.readString v).bind time.read

/-- The fields in their order; those after the eleventh may be missing from an array. -/
def fieldNames : List String :=
  ["schema_version", "id", "offset", "length", "storage_key", "created_at", "expires_at",
    "is_partial", "is_final", "parts", "metadata", "internal"]

def defaultSchemaVersion : UInt32 := 1

/-- What the derived `Serialize` writes, with the orders in which the two maps iterate. -/
def entries (state : UploadState Time) (metadata : Entries Bytes) (internal : Entries String) :
    List (String × Value) :=
  [("schema_version", Json.writeU32 state.schemaVersion),
   ("id", .string state.id),
   ("offset", Json.writeU64 state.offset),
   ("length", Json.writeOption Json.writeU64 state.length),
   ("storage_key", Json.writeOption .string state.storageKey),
   ("created_at", writeTime time state.createdAt),
   ("expires_at", Json.writeOption (writeTime time) state.expiresAt),
   ("is_partial", .bool state.isPartial),
   ("is_final", .bool state.isFinal),
   ("parts", Json.writeOption (Json.writeList .string) state.parts),
   ("metadata", Json.writeMap (MetadataValue.serialize base64) metadata),
   ("internal", Json.writeMap .string internal)]

def serialize (state : UploadState Time) (metadata : Entries Bytes) (internal : Entries String) :
    Value :=
  .object (entries base64 time state metadata internal)

/-- The derived `Deserialize`. -/
def deserialize (v : Value) : Option (UploadState Time) := do
  let fields ← Json.readFields fieldNames 11 v
  let schemaVersion ← fields.defaulted "schema_version" defaultSchemaVersion Json.readU32
  let id ← fields.required "id" Json.readString
  let offset ← fields.required "offset" Json.readU64
  let length ← fields.optional "length" Json.readU64
  let storageKey ← fields.optional "storage_key" Json.readString
  let createdAt ← fields.required "created_at" (readTime time)
  let expiresAt ← fields.optional "expires_at" (readTime time)
  let isPartial ← fields.required "is_partial" Json.readBool
  let isFinal ← fields.required "is_final" Json.readBool
  let parts ← fields.optional "parts" (Json.readList Json.readString)
  let metadata ← fields.required "metadata" (Json.readMap (MetadataValue.deserialize base64))
  let internal ← fields.defaulted "internal" ∅ (Json.readMap Json.readString)
  pure { schemaVersion, id, offset, length, storageKey, createdAt, expiresAt, isPartial, isFinal,
         parts, metadata, internal }

variable {base64 : Base64.Codec} {time : TimeText Time}

theorem readTime_writeTime (ht : time.Lawful) : RoundTrips (writeTime time) (readTime time) := by
  intro t
  rw [readTime, writeTime, Json.readString_string, Option.bind_some, ht t]

theorem readString_string : RoundTrips .string Json.readString := Json.readString_string

/-- Written in any order of its maps, a state is read back as it was. -/
theorem deserialize_eq (hb : base64.Lawful) (ht : time.Lawful) (state : UploadState Time)
    {metadata : Entries Bytes} {internal : Entries String}
    (hmetadata : metadata.toFinmap = state.metadata)
    (hinternal : internal.toFinmap = state.internal) :
    deserialize base64 time (serialize base64 time state metadata internal) = some state := by
  obtain ⟨fields, hfields, hfield⟩ := Json.readFields_object fieldNames 11
    (show ((entries base64 time state metadata internal).map Prod.fst).Nodup from
      show fieldNames.Nodup by decide)
  have hlength := Json.readOption_writeOption Json.readU64_writeU64 (fun _ => Value.noConfusion)
    state.length
  have hkey := Json.readOption_writeOption readString_string (fun _ => Value.noConfusion)
    state.storageKey
  have hexpires := Json.readOption_writeOption (readTime_writeTime ht) (fun _ => Value.noConfusion)
    state.expiresAt
  have hparts := Json.readOption_writeOption (Json.readList_writeList readString_string)
    (fun _ => Value.noConfusion) state.parts
  have hmeta := Json.readMap_writeMap (MetadataValue.round_trip hb) metadata
  have hint := Json.readMap_writeMap readString_string internal
  rw [hmetadata] at hmeta
  rw [hinternal] at hint
  simp only [deserialize, serialize, hfields, Option.bind_eq_bind, Option.bind_some,
    Fields.defaulted_of (hfield 0 _ _ rfl), Fields.required_of (hfield 1 _ _ rfl),
    Fields.required_of (hfield 2 _ _ rfl), Fields.optional_of (hfield 3 _ _ rfl),
    Fields.optional_of (hfield 4 _ _ rfl), Fields.required_of (hfield 5 _ _ rfl),
    Fields.optional_of (hfield 6 _ _ rfl), Fields.required_of (hfield 7 _ _ rfl),
    Fields.required_of (hfield 8 _ _ rfl), Fields.optional_of (hfield 9 _ _ rfl),
    Fields.required_of (hfield 10 _ _ rfl), Fields.defaulted_of (hfield 11 _ _ rfl),
    Json.readU32_writeU32, Json.readString_string, Json.readU64_writeU64, Json.readBool_bool,
    hlength, hkey, readTime_writeTime ht state.createdAt, hexpires, hparts, hmeta, hint,
    Option.pure_def]

/-- Whatever the metadata and the handle of a state, the state that is read back has them. -/
theorem persisted_round_trip (hb : base64.Lawful) (ht : time.Lawful) (state : UploadState Time)
    {metadata : Entries Bytes} (hmetadata : metadata.toFinmap = state.metadata) :
    (∀ internal : Entries String, internal.toFinmap = state.internal →
      deserialize base64 time (serialize base64 time state metadata internal) = some state) ∧
    ∀ (handle : StorageHandle) (internal : Entries String), internal.toFinmap = handle.internal →
      ∃ read, deserialize base64 time
          (serialize base64 time (state.setStorageHandle handle) metadata internal) = some read ∧
        read = state.setStorageHandle handle ∧ read.storageHandle = some handle := by
  refine ⟨fun internal hinternal => deserialize_eq hb ht state hmetadata hinternal, ?_⟩
  intro handle internal hinternal
  have hread := deserialize_eq hb ht (state.setStorageHandle handle) hmetadata hinternal
  exact ⟨_, hread, rfl, storageHandle_setStorageHandle state handle⟩

end UploadState

/-! ## The protocol's view of a record -/

/-- What the protocol keeps of a handle. -/
def StorageHandle.Of (handle : StorageHandle) (h : Protocol.StorageHandle) : Prop :=
  handle.key = h.key ∧ ∀ name, handle.internal.lookup name = h.internal.lookup name

/-- A record and the state that the handlers compute with. -/
structure UploadState.Of (record : UploadState Nat) (state : Protocol.UploadState) : Prop where
  id : record.id = state.id
  offset : record.offset.toNat = state.offset
  length : record.length.map UInt64.toNat = state.length
  handle : Option.Rel StorageHandle.Of record.storageHandle state.handle
  createdAt : record.createdAt = state.createdAt
  expiresAt : record.expiresAt = state.expiresAt
  isPartial : record.isPartial = state.isPartial
  isFinal : record.isFinal = state.isFinal
  parts : record.parts = state.parts
  metadata : ∀ name, record.metadata.lookup name = state.metadata.lookup name

theorem UploadState.Of.setStorageHandle {record : UploadState Nat} {state : Protocol.UploadState}
    (h : record.Of state) {handle : StorageHandle} {given : Protocol.StorageHandle}
    (hhandle : handle.Of given) :
    (record.setStorageHandle handle).Of (state.setStorageHandle given) :=
  { h with handle := Option.Rel.some hhandle }

/-- A state written by the protocol is the state it reads. -/
theorem UploadState.Of.read_back {base64 : Base64.Codec} {time : TimeText Nat} (hb : base64.Lawful)
    (ht : time.Lawful) {record : UploadState Nat} {state : Protocol.UploadState}
    (h : record.Of state) {metadata : Entries Bytes} {internal : Entries String}
    (hmetadata : metadata.toFinmap = record.metadata)
    (hinternal : internal.toFinmap = record.internal) :
    ∃ read, UploadState.deserialize base64 time
      (UploadState.serialize base64 time record metadata internal) = some read ∧ read.Of state :=
  ⟨record, UploadState.deserialize_eq hb ht record hmetadata hinternal, h⟩

/-! ## A sample

A text, its look-alike in the shape of the other variant, and bytes that are no text.
-/

def sampleMetadata : Entries Bytes :=
  ((∅ : Entries Bytes).insert "name" [0x66, 0x6F]).insert "raw" [0xFF]
    |>.insert "twin" "\x7b\"base64\":\"/w==\"\x7d".toByteArray.data.toList

def sampleInternal : Entries String := (∅ : Entries String).insert "parts" "[1]"

def sample : UploadState Nat where
  schemaVersion := 1
  id := "a"
  offset := 0
  length := none
  storageKey := none
  createdAt := 0
  expiresAt := none
  isPartial := false
  isFinal := true
  parts := some ["b", "c"]
  metadata := sampleMetadata.toFinmap
  internal := ∅

/-- The start of time as `chrono` writes it, any other second in unary. -/
def sampleTime : TimeText Nat where
  write t := if t = 0 then "1970-01-01T00:00:00Z" else String.ofList (List.replicate t '1')
  read text := if text = "1970-01-01T00:00:00Z" then some 0 else some text.toList.length

theorem sampleTime_lawful : sampleTime.Lawful := by
  intro t
  by_cases ht : t = 0
  · simp [sampleTime, ht]
  · have hne : String.ofList (List.replicate t '1') ≠ "1970-01-01T00:00:00Z" := by
      intro heq
      have hmem : 'Z' ∈ (String.ofList (List.replicate t '1')).toList := by
        rw [heq]
        decide +kernel
      rw [String.toList_ofList] at hmem
      exact absurd (List.eq_of_mem_replicate hmem) (by decide)
    simp [sampleTime, ht, hne]

def sampleHandle : StorageHandle := { key := "a/object", internal := sampleInternal.toFinmap }

theorem persisted_round_trip_sample :
    UploadState.deserialize Base64.standard sampleTime
      (UploadState.serialize Base64.standard sampleTime sample sampleMetadata ∅) = some sample ∧
    ∃ read, UploadState.deserialize Base64.standard sampleTime
        (UploadState.serialize Base64.standard sampleTime (sample.setStorageHandle sampleHandle)
          sampleMetadata sampleInternal) = some read ∧
      read = sample.setStorageHandle sampleHandle ∧ read.storageHandle = some sampleHandle := by
  have h := UploadState.persisted_round_trip Base64.standard_lawful sampleTime_lawful sample
    (show sampleMetadata.toFinmap = sample.metadata from rfl)
  exact ⟨h.1 ∅ rfl, h.2 sampleHandle sampleInternal rfl⟩

end Persisted

end TusRs
