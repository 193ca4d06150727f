import Mathlib.Data.List.AList
import TusRs.Error
import TusRs.Interaction.Discipline
import TusRs.Num

/-!
# The object store under the OpenDAL backend

The objects of one upload, the operations `tus-storage-opendal` performs on them and what
they do: a single-object operation is atomic and has no effect when it fails. The record
the protocol persists for the upload, its storage handle and its length, is written by an
operation of its own.
-/

namespace TusRs

open Interaction

namespace Opendal

/-! ## Names -/

/-- The object keys of one upload, without the upload's own `{key}/` prefix: `data`,
`complete`, `parts/{:010}` and `tmp/{purpose}-{uuid}`. -/
inductive Key where
  | main
  | complete
  | part (number : Nat)
  | temp (purpose : String) (uuid : Nat)
deriving DecidableEq

/-- `{:010}`: decimal, padded with zeros to ten digits. -/
def padded (n : Nat) : List Char :=
  List.replicate (10 - (Nat.toDigits 10 n).length) '0' ++ Nat.toDigits 10 n

/-- The name of an object under the upload's prefix. -/
def Key.name : Key → List Char
  | .main => "data".toList
  | .complete => "complete".toList
  | .part n => "parts/".toList ++ padded n
  | .temp purpose uuid => "tmp/".toList ++ purpose.toList ++ '-' :: uuidSimple uuid

theorem padded_digits {n : Nat} : ∀ c ∈ padded n, c.isDigit := by
  intro c hc
  rcases List.mem_append.mp hc with h | h
  · rw [List.eq_of_mem_replicate h]
    rfl
  · exact Nat.isDigit_of_mem_toDigits (by decide) (by decide) h

theorem padded_value (n : Nat) : Nat.ofDigitChars 10 (padded n) 0 = n := by
  rw [padded, Nat.ofDigitChars_append, Nat.ofDigitChars_replicate_zero, Nat.mul_zero,
    Nat.ofDigitChars_ten_toDigits]

theorem padded_length {n : Nat} (h : n < 10 ^ 10) : (padded n).length = 10 := by
  have hlen : (Nat.toDigits 10 n).length ≤ 10 :=
    (Nat.length_toDigits_le_iff (by decide) (by decide)).mpr h
  rw [padded, List.length_append, List.length_replicate]
  omega

/-- Below `10 ^ 10` the names of parts are ordered as their numbers. -/
theorem part_name_lt {a b : Nat} (hab : a < b) (hb : b < 10 ^ 10) :
    (Key.part a).name < (Key.part b).name := by
  have hlt : padded a < padded b := by
    refine digits_lt padded_digits padded_digits ?_ ?_
    · rw [padded_length (Nat.lt_trans hab hb), padded_length hb]
    · rw [padded_value, padded_value]
      exact hab
  exact List.append_left_lt hlt

/-- `part_number`: the last segment of a part's key is its number. -/
def partNumber : Key → Option Nat
  | .part n => some n
  | _ => none

/-- The prefixes the backend lists or deletes: `parts/`, `tmp/` and the upload's own. -/
inductive Prefix where
  | parts
  | tmp
  | container
deriving DecidableEq

/-- The name of a prefix under the upload's own. -/
def Prefix.name : Prefix → List Char
  | .parts => "parts/".toList
  | .tmp => "tmp/".toList
  | .container => []

def Prefix.has : Prefix → Key → Prop
  | .parts, .part _ => True
  | .tmp, .temp _ _ => True
  | .container, _ => True
  | _, _ => False

instance (p : Prefix) (k : Key) : Decidable (p.has k) := by
  cases p <;> cases k <;> unfold Prefix.has <;> infer_instance

/-! ## Operations -/

/-- The errors of an object operation that the code tells apart. -/
inductive ObjError where
  | notFound
  | other (message : String)
deriving DecidableEq

/-- An entry of a listing; a listing may omit sizes, which reads as zero. -/
structure Entry where
  key : Key
  isFile : Bool
  contentLength : Nat

/-- The internals that the backend keeps in the upload's storage handle. -/
structure Handle where
  nextPart : Option Nat
  stagedSize : Option Nat
deriving DecidableEq

/-- `load` and `save` are the protocol's read and write of the persisted handle and
length. -/
inductive StoreOp where
  | stat (key : Key)
  | list (pre : Prefix)
  | write (key : Key) (bytes : Bytes)
  | writer (key : Key)
  | writerWrite (key : Key) (chunk : Bytes)
  | writerClose (key : Key) (bytes : Bytes)
  | writerAbort (key : Key)
  | read (key : Key)
  | rename (source target : Key)
  | copy (source target : Key)
  | delete (key : Key)
  | deletePrefix (pre : Prefix)
  | uuid
  | load
  | save (handle : Handle) (length : Option Nat)

def StoreSig : Sig where
  Op := StoreOp
  Ans
    | .stat _ => Except ObjError Nat
    | .list _ => Except ObjError (List Entry)
    | .write _ _ => Except ObjError Unit
    | .writer _ => Except ObjError Unit
    | .writerWrite _ _ => Except ObjError Unit
    | .writerClose _ _ => Except ObjError Unit
    | .writerAbort _ => Except ObjError Unit
    | .read _ => Except ObjError Bytes
    | .rename _ _ => Except ObjError Unit
    | .copy _ _ => Except ObjError Unit
    | .delete _ => Except ObjError Unit
    | .deletePrefix _ => Except ObjError Unit
    | .uuid => Nat
    | .load => Handle × Option Nat
    | .save _ _ => Except Error Unit

abbrev Objects := AList fun _ : Key => Bytes

/-- The objects of the upload and its persisted record. No program sees the last two:
`log` is the history of the part bodies that were durably written, in order, and `created`
the length given at creation. -/
structure World where
  objects : Objects
  handle : Handle
  length : Option Nat
  log : List Bytes
  created : Option Nat

namespace World

/-- The object at `k` now holds `bytes`; a part written is a part body staged. -/
def put (w : World) (k : Key) (bytes : Bytes) : World :=
  { w with
    objects := w.objects.insert k bytes
    log := if (partNumber k).isSome then w.log ++ [bytes] else w.log }

def erase (w : World) (k : Key) : World := { w with objects := w.objects.erase k }

def saved (w : World) (handle : Handle) (length : Option Nat) : World :=
  { w with handle := handle, length := length }

end World

/-- A listing names each object under the prefix once; it may also name directories. -/
structure Lists (objects : Objects) (pre : Prefix) (entries : List Entry) : Prop where
  sound : ∀ e ∈ entries, e.isFile → pre.has e.key ∧
    ∃ b, objects.lookup e.key = some b ∧ (e.contentLength = b.length ∨ e.contentLength = 0)
  complete : ∀ k b, pre.has k → objects.lookup k = some b → ∃ e ∈ entries, e.isFile ∧ e.key = k
  nodup : ((entries.filter Entry.isFile).map Entry.key).Nodup

/-- What an operation may answer and do. With `faults` every operation may fail, without
effect; without, the store is healthy. An abort need not be supported. -/
inductive StoreExec (faults : Prop) : (o : StoreOp) → World → StoreSig.Ans o → World → Prop
  | stat {w : World} {k : Key} {b : Bytes} : w.objects.lookup k = some b →
      StoreExec faults (.stat k) w (.ok b.length) w
  | statMissing {w : World} {k : Key} : w.objects.lookup k = none →
      StoreExec faults (.stat k) w (.error .notFound) w
  | statFailed {w : World} {k : Key} {m : String} : faults →
      StoreExec faults (.stat k) w (.error (.other m)) w
  | list {w : World} {pre : Prefix} {es : List Entry} : Lists w.objects pre es →
      StoreExec faults (.list pre) w (.ok es) w
  | listMissing {w : World} {pre : Prefix} : (∀ k, pre.has k → w.objects.lookup k = none) →
      StoreExec faults (.list pre) w (.error .notFound) w
  | listFailed {w : World} {pre : Prefix} {m : String} : faults →
      StoreExec faults (.list pre) w (.error (.other m)) w
  | write {w : World} {k : Key} {b : Bytes} :
      StoreExec faults (.write k b) w (.ok ()) (w.put k b)
  | writeFailed {w : World} {k : Key} {b : Bytes} {e : ObjError} : faults →
      StoreExec faults (.write k b) w (.error e) w
  | writer {w : World} {k : Key} : StoreExec faults (.writer k) w (.ok ()) w
  | writerFailed {w : World} {k : Key} {e : ObjError} : faults →
      StoreExec faults (.writer k) w (.error e) w
  | writerWrite {w : World} {k : Key} {b : Bytes} :
      StoreExec faults (.writerWrite k b) w (.ok ()) w
  | writerWriteFailed {w : World} {k : Key} {b : Bytes} {e : ObjError} : faults →
      StoreExec faults (.writerWrite k b) w (.error e) w
  | writerClose {w : World} {k : Key} {b : Bytes} :
      StoreExec faults (.writerClose k b) w (.ok ()) (w.put k b)
  | writerCloseFailed {w : World} {k : Key} {b : Bytes} {e : ObjError} : faults →
      StoreExec faults (.writerClose k b) w (.error e) w
  | writerAbort {w : World} {k : Key} {r : Except ObjError Unit} :
      StoreExec faults (.writerAbort k) w r w
  | read {w : World} {k : Key} {b : Bytes} : w.objects.lookup k = some b →
      StoreExec faults (.read k) w (.ok b) w
  | readMissing {w : World} {k : Key} : w.objects.lookup k = none →
      StoreExec faults (.read k) w (.error .notFound) w
  | readFailed {w : World} {k : Key} {m : String} : faults →
      StoreExec faults (.read k) w (.error (.other m)) w
  | rename {w : World} {k k' : Key} {b : Bytes} : w.objects.lookup k = some b →
      StoreExec faults (.rename k k') w (.ok ()) ((w.erase k).put k' b)
  | renameMissing {w : World} {k k' : Key} : w.objects.lookup k = none →
      StoreExec faults (.rename k k') w (.error .notFound) w
  | renameFailed {w : World} {k k' : Key} {e : ObjError} : faults →
      StoreExec faults (.rename k k') w (.error e) w
  | copy {w : World} {k k' : Key} {b : Bytes} : w.objects.lookup k = some b →
      StoreExec faults (.copy k k') w (.ok ()) (w.put k' b)
  | copyMissing {w : World} {k k' : Key} : w.objects.lookup k = none →
      StoreExec faults (.copy k k') w (.error .notFound) w
  | copyFailed {w : World} {k k' : Key} {e : ObjError} : faults →
      StoreExec faults (.copy k k') w (.error e) w
  | delete {w : World} {k : Key} : StoreExec faults (.delete k) w (.ok ()) (w.erase k)
  | deleteMissing {w : World} {k : Key} : w.objects.lookup k = none →
      StoreExec faults (.delete k) w (.error .notFound) w
  | deleteFailed {w : World} {k : Key} {m : String} : faults →
      StoreExec faults (.delete k) w (.error (.other m)) w
  | deletePrefix {w : World} {pre : Prefix} :
      StoreExec faults (.deletePrefix pre) w (.ok ()) w
  | deletePrefixFailed {w : World} {pre : Prefix} {e : ObjError} : faults →
      StoreExec faults (.deletePrefix pre) w (.error e) w
  | uuid {w : World} {n : Nat} : StoreExec faults .uuid w n w
  | load {w : World} : StoreExec faults .load w (w.handle, w.length) w
  | save {w : World} {h : Handle} {l : Option Nat} :
      StoreExec faults (.save h l) w (.ok ()) (w.saved h l)
  | saveFailed {w : World} {h : Handle} {l : Option Nat} {e : Error} : faults →
      StoreExec faults (.save h l) w (.error e) w

/-- The store as a machine for one request after the other. -/
def store (faults : Prop) : Machine StoreSig World where
  exec _ := StoreExec faults
  env _ _ := False
  halt _ _ _ := False

end Opendal

end TusRs
