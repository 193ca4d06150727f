import Mathlib.Data.Finmap
import Mathlib.Data.String.Basic

/-!
# JSON values

The values of a self-describing format, and the ways derived code writes and reads them: scalars,
optional values, sequences, maps whose entries come in any order, and records. A reader fails
without a reason; a record may be read from an object or from an array of its fields.
-/

namespace Json

inductive Number where
  | posInt (n : UInt64)
  | negInt (n : Int64)
  | float (text : String)
deriving DecidableEq

inductive Value where
  | null
  | bool (b : Bool)
  | number (n : Number)
  | string (s : String)
  | array (elements : List Value)
  | object (entries : List (String × Value))

/-- A reader gives back what the writer was given. -/
def RoundTrips {α : Type} (write : α → Value) (read : Value → Option α) : Prop :=
  ∀ a, read (write a) = some a

/-! ## Scalars -/

def readString : Value → Option String
  | .string s => some s
  | _ => none

def readBool : Value → Option Bool
  | .bool b => some b
  | _ => none

def writeU64 (n : UInt64) : Value := .number (.posInt n)

/-- A negative number or a float is no unsigned integer. -/
def readU64 : Value → Option UInt64
  | .number (.posInt n) => some n
  | _ => none

def writeU32 (n : UInt32) : Value := writeU64 n.toUInt64

def readU32 (v : Value) : Option UInt32 :=
  (readU64 v).bind fun n => if n.toNat < 2 ^ 32 then some n.toUInt32 else none

@[simp] theorem readString_string (s : String) : readString (.string s) = some s := rfl

@[simp] theorem readBool_bool (b : Bool) : readBool (.bool b) = some b := rfl

@[simp] theorem readU64_writeU64 (n : UInt64) : readU64 (writeU64 n) = some n := rfl

@[simp] theorem readU32_writeU32 (n : UInt32) : readU32 (writeU32 n) = some n := by
  have hlt : n.toUInt64.toNat < 2 ^ 32 := by
    rw [UInt32.toNat_toUInt64]
    exact n.toNat_lt
  rw [readU32, writeU32, readU64_writeU64, Option.bind_some, if_pos hlt, UInt32.toUInt32_toUInt64]

/-! ## Optional values and sequences -/

section Compound

variable {α : Type} {write : α → Value} {read : Value → Option α}

def writeOption (write : α → Value) : Option α → Value
  | none => .null
  | some a => write a

def readOption (read : Value → Option α) : Value → Option (Option α)
  | .null => some none
  | v => (read v).map some

def writeList (write : α → Value) (as : List α) : Value := .array (as.map write)

def readList (read : Value → Option α) : Value → Option (List α)
  | .array elements => elements.mapM read
  | _ => none

/-- A value is told from an absent one when its writer never writes `null`. -/
theorem readOption_writeOption (h : RoundTrips write read) (hnull : ∀ a, write a ≠ .null)
    (o : Option α) : readOption read (writeOption write o) = some o := by
  cases o with
  | none => rfl
  | some a =>
    have hread : readOption read (write a) = (read (write a)).map some := by
      unfold readOption
      split
      · next heq => exact absurd heq (hnull a)
      · rfl
    rw [writeOption, hread, h a, Option.map_some]

theorem readList_writeList (h : RoundTrips write read) (as : List α) :
    readList read (writeList write as) = some as := by
  show (as.map write).mapM read = some as
  induction as with
  | nil => rfl
  | cons a as ih => simp [List.mapM_cons, h a, ih]

end Compound

/-! ## Maps -/

/-- A map, which is the same whatever the order of its entries. -/
abbrev Map (α : Type) := Finmap fun _ : String => α

/-- The entries of a map, in the order in which it is iterated. -/
abbrev Entries (α : Type) := AList fun _ : String => α

section Maps

variable {α : Type} {write : α → Value} {read : Value → Option α}

def writeMap (write : α → Value) (entries : Entries α) : Value :=
  .object (entries.entries.map fun e => (e.1, write e.2))

/-- The entries are inserted one after the other: the last one of a repeated key stays. -/
def readEntries (read : Value → Option α) : Map α → List (String × Value) → Option (Map α)
  | m, [] => some m
  | m, e :: es => (read e.2).bind fun a => readEntries read (m.insert e.1 a) es

def readMap (read : Value → Option α) : Value → Option (Map α)
  | .object entries => readEntries read ∅ entries
  | _ => none

theorem readEntries_write (h : RoundTrips write read) (l : List (Sigma fun _ : String => α)) :
    l.NodupKeys → ∀ m : Map α, ∃ m',
      readEntries read m (l.map fun e => (e.1, write e.2)) = some m' ∧
      ∀ k, m'.lookup k = (l.dlookup k).or (m.lookup k) := by
  induction l with
  | nil => exact fun _ m => ⟨m, rfl, fun k => rfl⟩
  | cons e l ih =>
    intro hl m
    obtain ⟨key, a⟩ := e
    obtain ⟨hfresh, hrest⟩ := List.nodupKeys_cons.mp hl
    obtain ⟨m', hread, hlookup⟩ := ih hrest (m.insert key a)
    refine ⟨m', ?_, fun k => ?_⟩
    · rw [List.map_cons, readEntries, h a, Option.bind_some, hread]
    · rw [hlookup k]
      by_cases hk : k = key
      · subst hk
        rw [List.dlookup_eq_none.mpr hfresh, Finmap.lookup_insert, List.dlookup_cons_eq]
        rfl
      · rw [Finmap.lookup_insert_of_ne _ hk, List.dlookup_cons_ne l _ hk]

theorem readMap_writeMap (h : RoundTrips write read) (entries : Entries α) :
    readMap read (writeMap write entries) = some entries.toFinmap := by
  obtain ⟨m, hread, hlookup⟩ := readEntries_write h entries.entries entries.nodupKeys ∅
  have hm : m = entries.toFinmap := by
    refine Finmap.ext_lookup fun k => ?_
    rw [hlookup k, Finmap.lookup_empty, Option.or_none, Finmap.lookup_toFinmap]
    rfl
  exact hread.trans (congrArg some hm)

end Maps

/-! ## Records -/

/-- What is found under the name of a field. -/
abbrev Fields := String → Option Value

/-- A known field may not come twice and unknown ones are ignored. In an array the fields come
by position, and only those after the first `needed` ones may be missing. -/
def readFields (names : List String) (needed : Nat) : Value → Option Fields
  | .object entries =>
    if ∀ name ∈ names, (entries.map Prod.fst).count name ≤ 1 then some fun name => entries.lookup name
    else none
  | .array elements =>
    if needed ≤ elements.length ∧ elements.length ≤ names.length then
      some fun name => (names.zip elements).lookup name
    else none
  | _ => none

namespace Fields

variable {α : Type}

def required (fields : Fields) (name : String) (read : Value → Option α) : Option α :=
  (fields name).bind read

/-- A missing field is read like `null`. -/
def optional (fields : Fields) (name : String) (read : Value → Option α) : Option (Option α) :=
  match fields name with
  | none => some none
  | some v => readOption read v

def defaulted (fields : Fields) (name : String) (default : α) (read : Value → Option α) :
    Option α :=
  match fields name with
  | none => some default
  | some v => read v

variable {fields : Fields} {name : String} {v : Value} {read : Value → Option α}

theorem required_of (h : fields name = some v) : fields.required name read = read v := by
  rw [required, h, Option.bind_some]

theorem optional_of (h : fields name = some v) :
    fields.optional name read = readOption read v := by
  rw [optional, h]

theorem defaulted_of {default : α} (h : fields name = some v) :
    fields.defaulted name default read = read v := by
  rw [defaulted, h]

end Fields

/-- A record is written with each of its fields once, and each is found where it stands. -/
theorem readFields_object {entries : List (String × Value)} (names : List String) (needed : Nat)
    (h : (entries.map Prod.fst).Nodup) : ∃ fields : Fields,
      readFields names needed (.object entries) = some fields ∧
      ∀ (i : Nat) name v, entries[i]? = some (name, v) → fields name = some v := by
  refine ⟨fun name => entries.lookup name, if_pos fun _ _ => List.nodup_iff_count_le_one.mp h _,
    fun i name v hentry => ?_⟩
  have hmem : (name, v) ∈ entries := List.mem_of_getElem? hentry
  clear hentry
  induction entries with
  | nil => exact absurd hmem List.not_mem_nil
  | cons e entries ih =>
    obtain ⟨hfresh, hrest⟩ := List.nodup_cons.mp h
    rcases List.mem_cons.mp hmem with rfl | hmem
    · exact List.lookup_cons_self
    · have hne : name ≠ e.1 := by
        intro heq
        exact hfresh (heq ▸ List.mem_map_of_mem hmem)
      show List.lookup name (e :: entries) = some v
      rw [List.lookup_cons, beq_false_of_ne hne]
      exact ih hrest hmem

end Json
