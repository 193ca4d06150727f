import Mathlib.Data.List.AList
import TusRs.Browser.Queue
import TusRs.Num

/-!
# Persisted upload URLs

`dioxus-tus/src/persistence.rs`: the entries of `localStorage` from which an upload can be
resumed, one per match key of endpoint and file. Times and a file's modification time are
whole milliseconds.
-/

namespace TusRs

namespace Browser

/-! ## Match keys -/

def fnvOffset : UInt64 := 0xcbf29ce484222325

def fnvPrime : UInt64 := 0x00000100000001b3

def updateHash (hash : UInt64) (bytes : List UInt8) : UInt64 :=
  bytes.foldl (fun hash byte => (hash ^^^ byte.toUInt64) * fnvPrime) hash

/-- The `n` low bytes of a number, the lowest first. -/
def leBytes : Nat → Nat → List UInt8
  | 0, _ => []
  | n + 1, x => UInt8.ofNat (x % 256) :: leBytes n (x / 256)

/-- A component is preceded by its length, a `usize` of 32 bits. -/
def feedComponent (hash : UInt64) (bytes : List UInt8) : UInt64 :=
  updateHash (updateHash hash (leBytes 4 bytes.length)) bytes

def rotateLeft5 (x : UInt64) : UInt64 := (x <<< 5) ||| (x >>> 59)

/-- Sixteen hexadecimal digits. -/
def hex16 (x : UInt64) : String :=
  let digits := Nat.toDigits 16 x.toNat
  String.ofList (List.replicate (16 - digits.length) '0' ++ digits)

/-- `match_key`. -/
def matchKey (endpoint : String) (file : File) : String :=
  let components := [endpoint.toUTF8.toList, file.name.toUTF8.toList, leBytes 8 file.size,
    leBytes 8 (file.lastModified % 2 ^ 64).toNat]
  let a := components.foldl feedComponent fnvOffset
  let b := components.foldl (fun b bytes => feedComponent (rotateLeft5 b) bytes)
    (fnvOffset ^^^ 0x9e3779b97f4a7c15)
  "v2-" ++ hex16 a ++ hex16 b

/-! ## Origins -/

/-- The text before `://` and the one after it. -/
def splitScheme : List Char → List Char → Option (List Char × List Char)
  | scheme, ':' :: '/' :: '/' :: rest => some (scheme, rest)
  | scheme, c :: cs => splitScheme (scheme ++ [c]) cs
  | _, [] => none

/-- What follows the last `c`, or everything. -/
def afterLast (c : Char) (cs : List Char) : List Char := (cs.reverse.takeWhile (· ≠ c)).reverse

/-- What precedes the last `c`. -/
def beforeLast (c : Char) (cs : List Char) : List Char := (cs.reverse.dropWhile (· ≠ c)).tail.reverse

/-- The port of a scheme when none is given. -/
def defaultPort (scheme : List Char) : Option Nat :=
  if scheme = "http".toList ∨ scheme = "ws".toList then some 80
  else if scheme = "https".toList ∨ scheme = "wss".toList then some 443
  else none

/-- `parse_origin`: scheme, host and port. -/
def parseOrigin (s : String) : Option (List Char × List Char × Nat) := do
  let (scheme, rest) ← splitScheme [] s.toList
  let scheme := scheme.map Char.toLower
  let authority := rest.takeWhile fun c => c ≠ '/' && c ≠ '?' && c ≠ '#'
  let hostPort := afterLast '@' authority
  if hostPort.isEmpty then none
  else
    -- the last colon separates a port only if one follows
    let explicitPort := if ':' ∈ hostPort then
      (parseU64Chars (afterLast ':' hostPort)).filter fun p => p ≤ 65535 else none
    let host := if explicitPort.isSome then beforeLast ':' hostPort else hostPort
    let port ← explicitPort.or (defaultPort scheme)
    some (scheme, host.map Char.toLower, port)

/-- `origin_matches`. -/
def originMatches (endpoint uploadUrl : String) : Bool :=
  match parseOrigin endpoint, parseOrigin uploadUrl with
  | some a, some b => a = b
  | _, _ => false

/-! ## Entries -/

structure ResumableEntry where
  matchKey : String
  endpoint : String
  filename : String
  fileSize : Nat
  lastModified : Int
  uploadUrl : String
  bytesUploaded : Nat
  storedAt : Int
deriving DecidableEq

/-- The entries by the match key in their storage key. -/
abbrev Storage := AList fun _ : String => ResumableEntry

def storageTtl : Int := 24 * 60 * 60 * 1000

/-- The entry is neither stale nor dated in the future. -/
def ResumableEntry.isFresh (entry : ResumableEntry) (now : Int) : Bool :=
  0 ≤ now - entry.storedAt && now - entry.storedAt ≤ storageTtl

/-- `entry_is_resumable_for_file`. -/
def entryIsResumableForFile (endpoint : String) (entry : ResumableEntry) (file : File) (now : Int) :
    Bool :=
  entry.isFresh now && entry.endpoint = endpoint && originMatches endpoint entry.uploadUrl &&
    entry.matchKey = Browser.matchKey endpoint file

namespace Storage

/-- `get`: the entry for a match key if present, fresh and of the same origin. -/
def get (storage : Storage) (endpoint key : String) (now : Int) : Option ResumableEntry :=
  (storage.lookup key).filter fun entry =>
    entry.matchKey = key && entry.isFresh now && entry.endpoint = endpoint &&
      originMatches endpoint entry.uploadUrl

/-- `evict_stale_entries`. -/
def evictStaleEntries (storage : Storage) (now : Int) : Storage :=
  storage.keys.foldl (fun storage' key =>
    if (storage.lookup key).any fun entry => entry.isFresh now then storage'
    else storage'.erase key) storage

/-- `scan`: the entries it lists, and the storage without those it drops. -/
def scan (storage : Storage) (endpoint : String) (now : Int) : List ResumableEntry × Storage :=
  let own := storage.entries.filter fun e => e.2.matchKey = e.1
  (((own.map Sigma.snd).filter fun entry =>
      entry.isFresh now && entry.endpoint = endpoint && originMatches endpoint entry.uploadUrl),
    own.foldl (fun storage' e => if e.2.isFresh now then storage' else storage'.erase e.1) storage)

/-- How a write goes: `localStorage` may be missing or full, and a full one is swept. -/
inductive Put where
  | stored
  | storedAfterSweep
  | failed
  | failedAfterSweep
deriving DecidableEq

/-- `put`. -/
def put (storage : Storage) (entry : ResumableEntry) (now : Int) : Put → Storage
  | .stored => storage.insert entry.matchKey entry
  | .storedAfterSweep => (storage.evictStaleEntries now).insert entry.matchKey entry
  | .failed => storage
  | .failedAfterSweep => storage.evictStaleEntries now

/-- `remove`. -/
def remove (storage : Storage) (key : String) : Storage := storage.erase key

/-! A removal or a sweep only takes entries away. -/

theorem lookup_of_lookup_erase {storage : Storage} {key key' : String} {entry : ResumableEntry}
    (h : (storage.erase key').lookup key = some entry) : storage.lookup key = some entry := by
  by_cases hk : key = key'
  · rw [hk, AList.lookup_erase] at h
    cases h
  · rwa [AList.lookup_erase_ne hk] at h

/-- Erasing some of a list of keys. -/
theorem lookup_of_lookup_foldl {α : Type} {keep : α → Bool} {key : α → String} {l : List α}
    {storage : Storage} {k : String} {entry : ResumableEntry}
    (h : (l.foldl (fun s a => if keep a then s else s.erase (key a)) storage).lookup k = some entry) :
    storage.lookup k = some entry := by
  induction l generalizing storage with
  | nil => exact h
  | cons a l ih =>
    have hrest := ih h
    dsimp only at hrest
    split at hrest
    · exact hrest
    · exact lookup_of_lookup_erase hrest

theorem lookup_of_evict {storage : Storage} {now : Int} {key : String} {entry : ResumableEntry}
    (h : (storage.evictStaleEntries now).lookup key = some entry) :
    storage.lookup key = some entry :=
  lookup_of_lookup_foldl h

/-- What is there after a write was there before or has been written. -/
theorem lookup_put {storage : Storage} {entry entry' : ResumableEntry} {now : Int} {put : Put}
    {key : String} (h : (storage.put entry now put).lookup key = some entry') :
    storage.lookup key = some entry' ∨ key = entry.matchKey ∧ entry' = entry := by
  have hinsert : ∀ {s : Storage}, (s.insert entry.matchKey entry).lookup key = some entry' →
      s.lookup key = some entry' ∨ key = entry.matchKey ∧ entry' = entry := by
    intro s hs
    by_cases hk : key = entry.matchKey
    · rw [hk, AList.lookup_insert] at hs
      exact .inr ⟨hk, (Option.some.inj hs).symm⟩
    · rw [AList.lookup_insert_ne hk] at hs
      exact .inl hs
  cases put with
  | stored => exact hinsert h
  | storedAfterSweep => exact (hinsert h).imp_left lookup_of_evict
  | failed => exact .inl h
  | failedAfterSweep => exact .inl (lookup_of_evict h)

theorem lookup_of_get {storage : Storage} {endpoint key : String} {now : Int}
    {entry : ResumableEntry} (h : storage.get endpoint key now = some entry) :
    storage.lookup key = some entry :=
  (Option.filter_eq_some_iff.mp h).1

/-- What a scan lists is there, and what it leaves was there. -/
theorem lookup_of_mem_scan {storage : Storage} {endpoint : String} {now : Int}
    {entry : ResumableEntry} (h : entry ∈ (storage.scan endpoint now).1) :
    storage.lookup entry.matchKey = some entry := by
  obtain ⟨hmem, -⟩ := List.mem_filter.mp h
  obtain ⟨⟨key, e⟩, he, rfl⟩ := List.mem_map.mp hmem
  obtain ⟨he, hkey⟩ := List.mem_filter.mp he
  have hkey : e.matchKey = key := of_decide_eq_true hkey
  subst hkey
  exact AList.mem_lookup_iff.mpr he

theorem lookup_of_scan {storage : Storage} {endpoint : String} {now : Int} {key : String}
    {entry : ResumableEntry} (h : (storage.scan endpoint now).2.lookup key = some entry) :
    storage.lookup key = some entry :=
  lookup_of_lookup_foldl h

end Storage

end Browser

end TusRs
