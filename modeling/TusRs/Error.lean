import Mathlib.Logic.Basic

/-!
# Error types

The errors of `tus-protocol/src/error.rs`. A boxed source of another crate is kept as
its text.
-/

namespace TusRs

/-- The kinds of `std::io::Error` the code tells apart. -/
inductive IoError where
  | notFound
  | alreadyExists
  | wouldBlock
  | other (message : String)
deriving DecidableEq, Repr

/-- Errors that can occur during TUS protocol operations. -/
inductive Error where
  | notFound (id : String)
  | alreadyExists (id : String)
  | offsetMismatch (expected actual : Nat)
  | sizeExceeded (size max : Nat)
  | invalidContentType (expected actual : String)
  | missingHeader (header : String)
  | missingTusResumable
  | unsupportedTusVersion (version : String)
  | invalidHeader (header message : String)
  | locked (id : String)
  | lockTimeout (id : String)
  | expired (id : String)
  | checksumMismatch (expected actual : String)
  | unsupportedChecksum (algorithm : String)
  | extensionNotSupported (extension : String)
  | invalidMetadata (message : String)
  | concatenationError (message : String)
  | notPartialUpload (id : String)
  | incompleteUpload (id : String)
  | rangeNotSatisfiable (size : Nat)
  | storageKeyMissing
  | storage (source : String)
  | stateStore (source : String)
  | hook (source : String)
  | hookRejected (statusCode : Nat) (message : String)
  | lengthRequired
  | io (source : IoError)
  | internal (message : String)
  | methodNotAllowed (method : String)
  | finalUploadModificationForbidden (id : String)
  | completedUploadModificationForbidden (id : String)
  | invalidUploadId (message : String)
deriving DecidableEq, Repr

end TusRs
