import TusRs.Error
import TusRs.Num
import TusRs.Protocol.Config

/-!
# Upload state

`tus-protocol/src/state.rs` and `expiration.rs`: the persisted record of an upload. The
storage key and the backend's internal facts are kept together as the storage handle; the
schema version, which no handler reads, is left out.
-/

namespace TusRs

namespace Protocol

/-- Opaque storage addressing and backend-specific persisted facts. -/
structure StorageHandle where
  key : String
  internal : List (String × String)
deriving DecidableEq

abbrev UploadMetadata := List (String × Bytes)

structure UploadState where
  id : String
  offset : Nat
  length : Option Nat
  handle : Option StorageHandle
  createdAt : Nat
  expiresAt : Option Nat
  isPartial : Bool
  isFinal : Bool
  parts : Option (List String)
  metadata : UploadMetadata
deriving DecidableEq

/-- How a `StateStore::set` reconciles with an existing record. -/
inductive WriteMode where
  | createNew
  | update
deriving DecidableEq

namespace UploadState

/-- `UploadState::new`, with the time it reads. -/
def new (id : String) (createdAt : Nat) : UploadState where
  id := id
  offset := 0
  length := none
  handle := none
  createdAt := createdAt
  expiresAt := none
  isPartial := false
  isFinal := false
  parts := none
  metadata := []

/-- A deferred length is never complete until it is set. -/
def isComplete (s : UploadState) : Bool :=
  match s.length with
  | some length => decide (length ≤ s.offset)
  | none => false

/-- `ProtocolExpiration::is_eligible`: complete uploads that are not parts are content. -/
def expires (s : UploadState) : Bool := !s.isComplete || s.isPartial

/-- `expires_before`. -/
def expiresBefore (s : UploadState) (before : Nat) : Bool :=
  s.expires && s.expiresAt.any fun t => decide (t < before)

/-- `require_storage_handle`. -/
def requireStorageHandle (s : UploadState) : Except Error StorageHandle :=
  match s.handle with
  | some h => .ok h
  | none => .error .storageKeyMissing

def setOffset (s : UploadState) (offset : Nat) : UploadState := { s with offset := offset }

def setLength (s : UploadState) (length : Nat) : UploadState := { s with length := some length }

def setStorageHandle (s : UploadState) (h : StorageHandle) : UploadState :=
  { s with handle := some h }

def setMetadata (s : UploadState) (m : UploadMetadata) : UploadState := { s with metadata := m }

def setExpiration (s : UploadState) (t : Nat) : UploadState := { s with expiresAt := some t }

def markPartial (s : UploadState) : UploadState := { s with isPartial := true }

def markFinal (s : UploadState) (parts : List String) : UploadState :=
  { s with isFinal := true, parts := some parts }

theorem isComplete_iff (s : UploadState) :
    s.isComplete = true ↔ ∃ l, s.length = some l ∧ l ≤ s.offset := by
  unfold isComplete
  cases s.length with
  | none => simp
  | some l => simp

end UploadState

end Protocol

end TusRs
