import TusRs.Error

/-!
# Upload-id shape validation

`protocol/upload_id.rs`: an id is a non-empty string of at most 256 bytes without path
separators and control characters.
-/

namespace TusRs

/-- `char::is_control`: the Unicode category Cc. -/
def isControl (c : Char) : Bool :=
  c.val < 0x20 || (0x7f ≤ c.val && c.val ≤ 0x9f)

namespace UploadId

def maxUploadIdLen : Nat := 256

/-- The first character of an id that is not allowed decides the error. -/
def checkChars : List Char → Except Error Unit
  | [] => .ok ()
  | c :: cs =>
    if c = '/' ∨ c = '\\' then
      .error (.invalidUploadId "id contains a path separator")
    else if isControl c then
      .error (.invalidUploadId "id contains a control character")
    else checkChars cs

/-- `UploadId::from_str`; the parsed id is the string itself. -/
def parse (id : String) : Except Error String :=
  if id.isEmpty then
    .error (.invalidUploadId "id is empty")
  else if id.utf8ByteSize > maxUploadIdLen then
    .error (.invalidUploadId s!"id is {id.utf8ByteSize} bytes; max {maxUploadIdLen}")
  else
    match checkChars id.toList with
    | .ok _ => .ok id
    | .error e => .error e

end UploadId

end TusRs
