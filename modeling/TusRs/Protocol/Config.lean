import Mathlib.Data.Finset.Insert

/-!
# Configuration

`tus-protocol/src/config.rs`, as far as the handlers read it. The base URL and the forwarded
headers, which only shape the `Location` header, and the lock timeout are left out.
-/

namespace TusRs

/-- TUS protocol extensions. -/
inductive Extension where
  | creation
  | creationWithUpload
  | creationDeferLength
  | termination
  | expiration
  | concatenation
  | concatenationUnfinished
  | checksum
  | checksumTrailer
deriving DecidableEq, Repr

/-- Checksum algorithms supported by the checksum extension. -/
inductive ChecksumAlgorithm where
  | sha1
  | sha256
  | md5
  | crc32
deriving DecidableEq, Repr

def ChecksumAlgorithm.asStr : ChecksumAlgorithm → String
  | .sha1 => "sha1"
  | .sha256 => "sha256"
  | .md5 => "md5"
  | .crc32 => "crc32"

/-- `expiration` is a duration in the unit of the clock. -/
structure Config where
  maxSize : Option Nat
  extensions : Finset Extension
  checksumAlgorithms : Finset ChecksumAlgorithm
  expiration : Option Nat
  basePath : String
  maxChunkSize : Option Nat
  maxIntakeBuffer : Option Nat
  disableDownload : Bool
  allowEmptyCreation : Bool

namespace Config

/-- `DEFAULT_MAX_INTAKE_BUFFER`. -/
def defaultMaxIntakeBuffer : Nat := 8 * 1024 * 1024

/-- `Config::default`. -/
def default : Config where
  maxSize := none
  extensions := {.creation, .termination, .creationDeferLength}
  checksumAlgorithms := ∅
  expiration := none
  basePath := "/files"
  maxChunkSize := none
  maxIntakeBuffer := some defaultMaxIntakeBuffer
  disableDownload := false
  allowEmptyCreation := true

def hasExtension (c : Config) (ext : Extension) : Bool := decide (ext ∈ c.extensions)

def supportsChecksumAlgorithm (c : Config) (a : ChecksumAlgorithm) : Bool :=
  decide (a ∈ c.checksumAlgorithms)

end Config

end TusRs
