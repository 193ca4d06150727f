import Mathlib.Data.List.AList
import Mathlib.Data.String.Basic
import Mathlib.Logic.Equiv.List
import Mathlib.Tactic.DeriveEncodable
import TusRs.Interaction.Discipline
import TusRs.Num
import TusRs.Protocol.State
import TusRs.Protocol.UploadId

/-!
# The state stores

`state/memory.rs` keeps the records in a map, `state/file.rs` one JSON file per record in a
directory: a record is written to a temporary file, which is then linked or renamed to the
name of the record.

Results:

* `file_refines_memory`: over ids that leave room for the name of the temporary file, the
  file store answers like the map, and a crash leaves the record before or the one after.
-/

namespace TusRs

open Interaction Protocol

namespace StateStore

/-- The operations of `StateStore` and `UploadInventory`. -/
inductive Call where
  | get (id : String)
  | set (state : UploadState) (mode : WriteMode)
  | delete (id : String)
  | listExpired (before : Nat)
  | listUploadIds (limit offset : Nat)

inductive Reply where
  | state (found : Option UploadState)
  | written
  | ids (ids : List String)

/-- `ids.sort()`. -/
def sortIds (ids : List String) : List String := ids.mergeSort fun a b => decide (a ≤ b)

/-! ## The memory store -/

namespace Memory

abbrev States := AList fun _ : String => UploadState

def validateUploadId (id : String) : Except Error Unit := do
  let _ ← UploadId.parse id
  pure ()

def set (states : States) (state : UploadState) (mode : WriteMode) : Except Error States := do
  validateUploadId state.id
  if mode = .createNew ∧ state.id ∈ states then throw (.alreadyExists state.id)
  else pure (states.insert state.id state)

def get (states : States) (id : String) : Except Error (Option UploadState) := do
  validateUploadId id
  pure (states.lookup id)

def delete (states : States) (id : String) : Except Error States := do
  validateUploadId id
  pure (states.erase id)

def listExpired (states : States) (before : Nat) : List String :=
  ((states.entries.map Sigma.snd).filter fun s => s.expiresBefore before).map UploadState.id

def listUploadIds (states : States) (limit offset : Nat) : List String :=
  ((sortIds states.keys).drop offset).take limit

/-- A call on the map: its answer, and the map after it. -/
def perform (states : States) : Call → Except Error Reply × States
  | .get id => ((get states id).map .state, states)
  | .set state mode => match set states state mode with
    | .ok states' => (.ok .written, states')
    | .error e => (.error e, states)
  | .delete id => match delete states id with
    | .ok states' => (.ok .written, states')
    | .error e => (.error e, states)
  | .listExpired before => (.ok (.ids (listExpired states before)), states)
  | .listUploadIds limit offset => (.ok (.ids (listUploadIds states limit offset)), states)

end Memory

/-! ## The file store -/

namespace File

/-- The operations on the directory of the store. -/
inductive FsOp where
  | openNew (name : String)
  | writeAll (name content : String)
  | syncAll (name : String)
  | hardLink (source target : String)
  | rename (source target : String)
  | removeFile (name : String)
  | readToString (name : String)
  | readDir
  | syncDir

def FsSig : Sig where
  Op := FsOp
  Ans
    | .openNew _ => Except IoError Unit
    | .writeAll _ _ => Except IoError Unit
    | .syncAll _ => Except IoError Unit
    | .hardLink _ _ => Except IoError Unit
    | .rename _ _ => Except IoError Unit
    | .removeFile _ => Except IoError Unit
    | .readToString _ => Except IoError String
    | .readDir => Except IoError (List String)
    | .syncDir => Unit

/-- The directory: the files and what they hold. -/
abbrev Dir := AList fun _ : String => String

/-- A name has at most 255 bytes. -/
def Fits (name : String) : Prop := name.utf8ByteSize ≤ 255

instance (name : String) : Decidable (Fits name) := inferInstanceAs (Decidable (_ ≤ _))

def tooLong : IoError := .other "File name too long (os error 36)"

/-- A healthy file system. A directory is read in any order. -/
inductive FsExec : (o : FsOp) → Dir → FsSig.Ans o → Dir → Prop
  | openNew {d : Dir} {n : String} : Fits n → n ∉ d →
      FsExec (.openNew n) d (.ok ()) (d.insert n "")
  | openExists {d : Dir} {n : String} : Fits n → n ∈ d →
      FsExec (.openNew n) d (.error .alreadyExists) d
  | openTooLong {d : Dir} {n : String} : ¬Fits n → FsExec (.openNew n) d (.error tooLong) d
  | writeAll {d : Dir} {n c : String} : FsExec (.writeAll n c) d (.ok ()) (d.insert n c)
  | syncAll {d : Dir} {n : String} : FsExec (.syncAll n) d (.ok ()) d
  | hardLink {d : Dir} {n n' c : String} : d.lookup n = some c → Fits n' → n' ∉ d →
      FsExec (.hardLink n n') d (.ok ()) (d.insert n' c)
  | linkMissing {d : Dir} {n n' : String} : n ∉ d →
      FsExec (.hardLink n n') d (.error .notFound) d
  | linkExists {d : Dir} {n n' : String} : n ∈ d → Fits n' → n' ∈ d →
      FsExec (.hardLink n n') d (.error .alreadyExists) d
  | linkTooLong {d : Dir} {n n' : String} : n ∈ d → ¬Fits n' →
      FsExec (.hardLink n n') d (.error tooLong) d
  | rename {d : Dir} {n n' c : String} : d.lookup n = some c → Fits n' →
      FsExec (.rename n n') d (.ok ()) ((d.erase n).insert n' c)
  | renameMissing {d : Dir} {n n' : String} : n ∉ d →
      FsExec (.rename n n') d (.error .notFound) d
  | renameTooLong {d : Dir} {n n' : String} : n ∈ d → ¬Fits n' →
      FsExec (.rename n n') d (.error tooLong) d
  | removeFile {d : Dir} {n : String} : n ∈ d → FsExec (.removeFile n) d (.ok ()) (d.erase n)
  | removeMissing {d : Dir} {n : String} : Fits n → n ∉ d →
      FsExec (.removeFile n) d (.error .notFound) d
  | removeTooLong {d : Dir} {n : String} : ¬Fits n → n ∉ d →
      FsExec (.removeFile n) d (.error tooLong) d
  | read {d : Dir} {n c : String} : d.lookup n = some c → FsExec (.readToString n) d (.ok c) d
  | readMissing {d : Dir} {n : String} : Fits n → n ∉ d →
      FsExec (.readToString n) d (.error .notFound) d
  | readTooLong {d : Dir} {n : String} : ¬Fits n → n ∉ d →
      FsExec (.readToString n) d (.error tooLong) d
  | readDir {d : Dir} {ns : List String} : ns.Perm d.keys → FsExec .readDir d (.ok ns) d
  | syncDir {d : Dir} : FsExec .syncDir d () d

def fileSystem : Machine FsSig Dir where
  exec _ := FsExec
  env _ _ := False
  halt _ _ _ := False

/-- What `serde_json` makes of a state and back. -/
structure Codec where
  toStringPretty : UploadState → Except String String
  fromStr : String → Except String UploadState
  roundTrip : ∀ s, ∃ text, toStringPretty s = .ok text ∧ fromStr text = .ok s

/-! ### Names -/

def maxStateFileNameLen : Nat := 255

def validateUploadId (id : String) : Except Error Unit := do
  let _ ← UploadId.parse id
  let size := id.utf8ByteSize + ".json".utf8ByteSize
  if size > maxStateFileNameLen then
    throw (.invalidUploadId s!"id plus .json suffix is {size} bytes; max {maxStateFileNameLen}")
  else pure ()

def stateName (id : String) : String := id ++ ".json"

/-- `state_path`, within the directory. -/
def statePath (id : String) : Except Error String := do
  validateUploadId id
  pure (stateName id)

/-- `unique_temp_path`. -/
def uniqueTempPath (name : String) (uuid : Nat) : String :=
  name ++ "." ++ String.ofList (uuidSimple uuid) ++ ".tmp"

/-- The text before the last dot and the one after it. -/
def rsplitDot : List Char → Option (List Char × List Char)
  | [] => none
  | c :: cs => match rsplitDot cs with
    | some (before, after) => some (c :: before, after)
    | none => if c = '.' then some ([], cs) else none

/-- `Path::extension`: a name that only starts with a dot has none. -/
def extension (name : String) : Option String :=
  if name = ".." then none
  else match rsplitDot name.toList with
    | some (before, after) => if before.isEmpty then none else some (String.ofList after)
    | none => none

/-- `Path::file_stem`. -/
def fileStem (name : String) : String :=
  if name = ".." then name
  else match rsplitDot name.toList with
    | some (before, _) => if before.isEmpty then name else String.ofList before
    | none => name

/-! ### Operations -/

variable (codec : Codec)

abbrev FsM := Attempt FsSig Error

def readState (name : String) : FsM (Option UploadState) :=
  Prog.step (.readToString name) fun (r : Except IoError String) =>
    match r with
    | .ok content => match codec.fromStr content with
      | .ok state => .done (.ok (some state))
      | .error e => .done (.error (.stateStore e))
    | .error .notFound => .done (.ok none)
    | .error e => .done (.error (.io e))

/-- The end of `write_state`: the temporary file becomes the record. -/
def publish (temp name id : String) (create : Bool) : FsM Unit :=
  if create then
    Prog.step (.hardLink temp name) fun (r : Except IoError Unit) =>
      match r with
      | .ok _ => .step (.removeFile temp) fun _ => .step .syncDir fun _ => .done (.ok ())
      | .error .alreadyExists =>
        .step (.removeFile temp) fun _ => .done (.error (.alreadyExists id))
      | .error e => .step (.removeFile temp) fun _ => .done (.error (.io e))
  else
    Prog.step (.rename temp name) fun (r : Except IoError Unit) =>
      match r with
      | .ok _ => .step .syncDir fun _ => .done (.ok ())
      | .error e => .done (.error (.io e))

/-- `write_state`; `uuid` is the one it draws. -/
def writeState (uuid : Nat) (name : String) (state : UploadState) (create : Bool) : FsM Unit :=
  match codec.toStringPretty state with
  | .error e => throw (.stateStore e)
  | .ok content =>
    let temp := uniqueTempPath name uuid
    Prog.step (.openNew temp) fun (r : Except IoError Unit) =>
      match r with
      | .error e => .done (.error (.io e))
      | .ok _ => .step (.writeAll temp content) fun (r : Except IoError Unit) =>
        match r with
        | .error e => .done (.error (.io e))
        | .ok _ => .step (.syncAll temp) fun (r : Except IoError Unit) =>
          match r with
          | .error e => .done (.error (.io e))
          | .ok _ => publish temp name state.id create

def set (uuid : Nat) (state : UploadState) (mode : WriteMode) : FsM Unit := do
  let name ← Attempt.lift (statePath state.id)
  writeState codec uuid name state (mode = .createNew)

def get (id : String) : FsM (Option UploadState) := do
  let name ← Attempt.lift (statePath id)
  readState codec name

/-- `delete` once the path is known: a missing file is a success. -/
def removeState (name : String) : FsM Unit :=
  Prog.step (.removeFile name) fun (r : Except IoError Unit) =>
    match r with
    | .ok _ => .done (.ok ())
    | .error .notFound => .done (.ok ())
    | .error e => .done (.error (.io e))

def delete (id : String) : FsM Unit := do
  let name ← Attempt.lift (statePath id)
  removeState name

/-- The loop of `list_expired`: what cannot be read is skipped. -/
def collectExpired (before : Nat) : List String → List String → FsM (List String)
  | expired, [] => .done (.ok expired)
  | expired, name :: names =>
    if extension name ≠ some "json" then collectExpired before expired names
    else Prog.bind (readState codec name) fun
      | .ok (some state) =>
        if state.expiresBefore before then collectExpired before (expired ++ [state.id]) names
        else collectExpired before expired names
      | .ok none => collectExpired before expired names
      | .error _ => collectExpired before expired names

def listExpired (before : Nat) : FsM (List String) :=
  Prog.step .readDir fun (r : Except IoError (List String)) =>
    match r with
    | .ok names => collectExpired codec before [] names
    | .error e => .done (.error (.io e))

/-- The entries that `list_upload_ids` surfaces. -/
def surfaced (name : String) : Option String :=
  if extension name = some "json" ∧ (UploadId.parse (fileStem name)).isOk then some (fileStem name)
  else none

def listUploadIds (limit offset : Nat) : FsM (List String) :=
  Prog.step .readDir fun (r : Except IoError (List String)) =>
    match r with
    | .ok names => .done (.ok (((sortIds (names.filterMap surfaced)).drop offset).take limit))
    | .error e => .done (.error (.io e))

/-- A call on the file store. -/
def perform (uuid : Nat) : Call → FsM Reply
  | .get id => do return .state (← get codec id)
  | .set state mode => do
    set codec uuid state mode
    return .written
  | .delete id => do
    delete id
    return .written
  | .listExpired before => do return .ids (← listExpired codec before)
  | .listUploadIds limit offset => do return .ids (← listUploadIds limit offset)

/-! ### Facts about names -/

section Names

variable {id id' name : String}

theorem rsplitDot_append {before after : List Char} (h : '.' ∉ after) :
    rsplitDot (before ++ '.' :: after) = some (before, after) := by
  induction before with
  | nil =>
    have hnone : ∀ cs : List Char, '.' ∉ cs → rsplitDot cs = none := by
      intro cs
      induction cs with
      | nil => exact fun _ => rfl
      | cons c cs ih =>
        intro hc
        rw [rsplitDot, ih fun hcs => hc (List.mem_cons_of_mem c hcs)]
        refine if_neg ?_
        rintro rfl
        exact hc List.mem_cons_self
    rw [List.nil_append, rsplitDot, hnone after h]
    rfl
  | cons c cs ih => rw [List.cons_append, rsplitDot, ih]

theorem eq_of_rsplitDot {cs before after : List Char} (h : rsplitDot cs = some (before, after)) :
    cs = before ++ '.' :: after := by
  induction cs generalizing before with
  | nil => cases h
  | cons c cs ih =>
    rw [rsplitDot] at h
    split at h
    · next hs =>
      cases h
      rw [ih hs, List.cons_append]
    · split at h
      · next hc =>
        cases h
        rw [hc, List.nil_append]
      · cases h

theorem stateName_inj (h : stateName id = stateName id') : id = id' := by
  have htext := congrArg String.toList h
  rw [stateName, stateName, String.toList_append, String.toList_append] at htext
  exact String.toList_inj.mp (List.append_cancel_right htext)

/-- The names of temporary files. -/
def IsTemp (name : String) : Prop := ∃ base, name = base ++ ".tmp"

theorem isTemp_uniqueTempPath (name : String) (uuid : Nat) : IsTemp (uniqueTempPath name uuid) :=
  ⟨_, rfl⟩

theorem toList_stateName (id : String) : (stateName id).toList = id.toList ++ '.' :: "json".toList := by
  rw [stateName, String.toList_append]
  rfl

theorem stateName_not_temp (id : String) : ¬IsTemp (stateName id) := by
  rintro ⟨base, h⟩
  have hlast := congrArg (fun n : String => n.toList.getLast?) h
  simp only [toList_stateName, String.toList_append] at hlast
  rw [List.getLast?_append_of_ne_nil _ (by decide), List.getLast?_append_of_ne_nil _ (by decide)]
    at hlast
  exact absurd hlast (by decide)

theorem ne_dotdot_of_last (h : name.toList.getLast? ≠ some '.') : name ≠ ".." := by
  rintro rfl
  exact h (by decide)

theorem stateName_ne_dotdot (id : String) : stateName id ≠ ".." := by
  refine ne_dotdot_of_last ?_
  rw [toList_stateName, List.getLast?_append_of_ne_nil _ (by decide)]
  decide

theorem extension_stateName (h : id ≠ "") : extension (stateName id) = some "json" := by
  have hne : id.toList.isEmpty = false := by
    rw [List.isEmpty_eq_false_iff]
    exact fun hnil => h (String.toList_eq_nil_iff.mp hnil)
  unfold extension
  rw [if_neg (stateName_ne_dotdot id), toList_stateName, rsplitDot_append (by decide)]
  simp [hne]

theorem fileStem_stateName (h : id ≠ "") : fileStem (stateName id) = id := by
  have hne : id.toList.isEmpty = false := by
    rw [List.isEmpty_eq_false_iff]
    exact fun hnil => h (String.toList_eq_nil_iff.mp hnil)
  unfold fileStem
  rw [if_neg (stateName_ne_dotdot id), toList_stateName, rsplitDot_append (by decide)]
  simp [hne]

/-- A name with the extension of a record is made of its stem. -/
theorem eq_stateName_of_extension (h : extension name = some "json") :
    name = stateName (fileStem name) := by
  unfold extension at h
  unfold fileStem
  split at h
  · cases h
  · next hne =>
    rw [if_neg hne]
    split at h
    · next before after hsplit =>
      split at h
      · cases h
      · next hb =>
        have hafter : after = "json".toList := by
          rw [← Option.some.inj h, String.toList_ofList]
        simp only [hb, Bool.false_eq_true, if_false]
        rw [← String.toList_inj, toList_stateName, eq_of_rsplitDot hsplit, hafter]
        simp only [String.toList_ofList]
    · cases h

theorem extension_temp (h : IsTemp name) : extension name ≠ some "json" := by
  intro hext
  rw [eq_stateName_of_extension hext] at h
  exact stateName_not_temp _ h

end Names

/-! ### The directory and the map -/

/-- The directory holds the records of the map, and otherwise only temporary files. -/
structure Matches (d : Dir) (m : Memory.States) : Prop where
  record : ∀ id s, m.lookup id = some s → validateUploadId id = .ok () ∧ s.id = id ∧
    ∃ text, d.lookup (stateName id) = some text ∧ codec.fromStr text = .ok s
  absent : ∀ id, m.lookup id = none → d.lookup (stateName id) = none
  names : ∀ name ∈ d, (∃ id ∈ m, name = stateName id) ∨ IsTemp name

section Matches

variable {codec} {d : Dir} {m : Memory.States} {name text id : String} {s : UploadState}

theorem matches_empty : Matches codec ∅ ∅ where
  record _ _ h := by rw [AList.lookup_empty] at h; cases h
  absent _ _ := AList.lookup_empty _
  names _ h := absurd h (AList.notMem_empty _)

/-- A temporary file is nobody's record. -/
theorem Matches.insert_temp (h : Matches codec d m) (ht : IsTemp name) :
    Matches codec (d.insert name text) m where
  record id s hs := by
    obtain ⟨hid, hsid, c, hc, hdec⟩ := h.record id s hs
    have hne : stateName id ≠ name := fun heq => stateName_not_temp id (heq ▸ ht)
    exact ⟨hid, hsid, c, (AList.lookup_insert_ne hne).trans hc, hdec⟩
  absent id hid := by
    have hne : stateName id ≠ name := fun heq => stateName_not_temp id (heq ▸ ht)
    exact (AList.lookup_insert_ne hne).trans (h.absent id hid)
  names n hn := by
    rcases (AList.mem_insert d).mp hn with rfl | hn
    · exact .inr ht
    · exact h.names n hn

theorem Matches.erase_temp (h : Matches codec d m) (ht : IsTemp name) :
    Matches codec (d.erase name) m where
  record id s hs := by
    obtain ⟨hid, hsid, c, hc, hdec⟩ := h.record id s hs
    have hne : stateName id ≠ name := fun heq => stateName_not_temp id (heq ▸ ht)
    exact ⟨hid, hsid, c, (AList.lookup_erase_ne hne).trans hc, hdec⟩
  absent id hid := by
    have hne : stateName id ≠ name := fun heq => stateName_not_temp id (heq ▸ ht)
    exact (AList.lookup_erase_ne hne).trans (h.absent id hid)
  names n hn := h.names n (AList.mem_erase.mp hn).2

theorem Matches.insert (h : Matches codec d m) (hid : validateUploadId s.id = .ok ())
    (hdec : codec.fromStr text = .ok s) :
    Matches codec (d.insert (stateName s.id) text) (m.insert s.id s) where
  record id s' hs := by
    by_cases heq : id = s.id
    · subst heq
      rw [AList.lookup_insert] at hs
      cases hs
      exact ⟨hid, rfl, text, AList.lookup_insert d, hdec⟩
    · rw [AList.lookup_insert_ne heq] at hs
      obtain ⟨hid', hsid, c, hc, hdec'⟩ := h.record id s' hs
      exact ⟨hid', hsid, c, (AList.lookup_insert_ne (mt stateName_inj heq)).trans hc, hdec'⟩
  absent id hnone := by
    by_cases heq : id = s.id
    · subst heq
      rw [AList.lookup_insert] at hnone
      cases hnone
    · rw [AList.lookup_insert_ne heq] at hnone
      exact (AList.lookup_insert_ne (mt stateName_inj heq)).trans (h.absent id hnone)
  names n hn := by
    rcases (AList.mem_insert d).mp hn with rfl | hn
    · exact .inl ⟨s.id, (AList.mem_insert m).mpr (.inl rfl), rfl⟩
    · rcases h.names n hn with ⟨id, hmem, rfl⟩ | ht
      · exact .inl ⟨id, (AList.mem_insert m).mpr (.inr hmem), rfl⟩
      · exact .inr ht

theorem Matches.erase (h : Matches codec d m) (id : String) :
    Matches codec (d.erase (stateName id)) (m.erase id) where
  record id' s' hs := by
    by_cases heq : id' = id
    · subst heq
      rw [AList.lookup_erase] at hs
      cases hs
    · rw [AList.lookup_erase_ne heq] at hs
      obtain ⟨hid', hsid, c, hc, hdec'⟩ := h.record id' s' hs
      exact ⟨hid', hsid, c, (AList.lookup_erase_ne (mt stateName_inj heq)).trans hc, hdec'⟩
  absent id' hnone := by
    by_cases heq : id' = id
    · subst heq
      exact AList.lookup_erase _ _
    · rw [AList.lookup_erase_ne heq] at hnone
      exact (AList.lookup_erase_ne (mt stateName_inj heq)).trans (h.absent id' hnone)
  names n hn := by
    obtain ⟨hne, hn⟩ := AList.mem_erase.mp hn
    rcases h.names n hn with ⟨id', hmem, rfl⟩ | ht
    · exact .inl ⟨id', AList.mem_erase.mpr ⟨fun heq => hne (congrArg _ heq), hmem⟩, rfl⟩
    · exact .inr ht

theorem Matches.mem_iff (h : Matches codec d m) : stateName id ∈ d ↔ id ∈ m := by
  constructor
  · intro hd
    by_contra hm
    exact AList.lookup_eq_none.mp (h.absent id (AList.lookup_eq_none.mpr hm)) hd
  · intro hm
    obtain ⟨s, hs⟩ := Option.isSome_iff_exists.mp (AList.lookup_isSome.mpr hm)
    obtain ⟨-, -, c, hc, -⟩ := h.record id s hs
    exact AList.lookup_isSome.mp (Option.isSome_iff_exists.mpr ⟨c, hc⟩)

end Matches

/-! ### What the operations do -/

section Specs

variable {codec} {α : Type} {I : Dir → Prop} {d : Dir} {m : Memory.States} {id : String}

abbrev Spec (I : Dir → Prop) (P : Dir → Prop) (p : Prog FsSig α) (Q : α → Dir → Prop) : Prop :=
  Triple fileSystem I Alone 0 P p Q

/-- One operation from the directory `d`. -/
theorem op_spec {o : FsOp} {k : FsSig.Ans o → Prog FsSig α} {Q : α → Dir → Prop}
    (h : ∀ a d', FsExec o d a d' → I d' ∧ Spec I (· = d') (k a) Q) :
    Spec I (· = d) (.step o k) Q := by
  refine Triple.step (fun a d' => FsExec o d a d') (stable_alone _) ?_ ?_
  · rintro _ a d' - rfl he
    exact ⟨safe_alone (h a d' he).1, he⟩
  · intro a s hs
    exact (h a s.world hs).2 s rfl

theorem fits_stateName (h : validateUploadId id = .ok ()) : Fits (stateName id) := by
  unfold validateUploadId at h
  obtain ⟨_, -, h⟩ := except_bind_ok h
  dsimp only at h
  split at h
  · cases h
  · next hle =>
    show (id ++ ".json").utf8ByteSize ≤ 255
    rw [String.utf8ByteSize_append]
    exact Nat.not_lt.mp hle

theorem parse_of_validate (h : validateUploadId id = .ok ()) : UploadId.parse id = .ok id := by
  unfold validateUploadId at h
  obtain ⟨id', hparse, -⟩ := except_bind_ok h
  have hsame : id' = id := by
    unfold UploadId.parse at hparse
    split at hparse
    · cases hparse
    · split at hparse
      · cases hparse
      · split at hparse
        · exact (Except.ok.inj hparse).symm
        · cases hparse
  rw [hparse, hsame]

theorem ne_empty_of_validate (h : validateUploadId id = .ok ()) : id ≠ "" := by
  rintro rfl
  have hparse := parse_of_validate h
  cases hparse

theorem memory_validate (h : validateUploadId id = .ok ()) : Memory.validateUploadId id = .ok () := by
  rw [Memory.validateUploadId, parse_of_validate h]
  rfl

theorem readState_spec (hI : I d) (hm : Matches codec d m) (hid : validateUploadId id = .ok ()) :
    Spec I (· = d) (readState codec (stateName id)) (fun r d' => d' = d ∧ r = .ok (m.lookup id)) := by
  refine op_spec fun a d' he => ?_
  cases he with
  | read hc =>
    refine ⟨hI, ?_⟩
    cases hs : m.lookup id with
    | none => rw [hm.absent id hs] at hc; cases hc
    | some s =>
      obtain ⟨-, -, c, hc', hdec⟩ := hm.record id s hs
      cases hc.symm.trans hc'
      dsimp only
      rw [hdec]
      exact Triple.done fun _ h => ⟨h, rfl⟩
  | readMissing _ hn =>
    have hnone : m.lookup id = none := AList.lookup_eq_none.mpr (mt hm.mem_iff.mpr hn)
    refine ⟨hI, ?_⟩
    rw [hnone]
    exact Triple.done fun _ h => ⟨h, rfl⟩
  | readTooLong hf _ => exact absurd (fits_stateName hid) hf

theorem lift_statePath {β : Type} (hid : validateUploadId id = .ok ()) (f : String → FsM β) :
    (Attempt.lift (statePath id) >>= f : FsM β) = f (stateName id) := by
  unfold statePath
  rw [hid]
  rfl

theorem get_spec (hI : I d) (hm : Matches codec d m) (hid : validateUploadId id = .ok ()) :
    Spec I (· = d) (get codec id) (fun r d' => d' = d ∧ r = .ok (m.lookup id)) := by
  unfold get
  rw [lift_statePath hid]
  exact readState_spec hI hm hid

theorem delete_spec (hI : ∀ d', Matches codec d' m ∨ Matches codec d' (m.erase id) → I d')
    (hm : Matches codec d m) (hid : validateUploadId id = .ok ()) :
    Spec I (· = d) (delete id) (fun r d' => Matches codec d' (m.erase id) ∧ r = .ok ()) := by
  unfold delete
  rw [lift_statePath hid]
  refine op_spec fun a d' he => ?_
  cases he with
  | removeFile hin =>
    have hgone := hm.erase id
    exact ⟨hI _ (.inr hgone), Triple.done fun _ h => ⟨h ▸ hgone, rfl⟩⟩
  | removeMissing _ hn =>
    have hnot : id ∉ m := mt hm.mem_iff.mpr hn
    have hsame : m.erase id = m := AList.ext (List.kerase_of_notMem_keys hnot)
    refine ⟨hI _ (.inl hm), Triple.done fun _ h => ⟨?_, rfl⟩⟩
    rw [hsame, h]
    exact hm
  | removeTooLong hf _ => exact absurd (fits_stateName hid) hf

theorem utf8ByteSize_ofList {l : List Char} (h : ∀ c ∈ l, c.utf8Size = 1) :
    (String.ofList l).utf8ByteSize = l.length := by
  induction l with
  | nil => rfl
  | cons c cs ih =>
    have hcons : String.ofList (c :: cs) = String.singleton c ++ String.ofList cs := by
      rw [← String.toList_inj]
      simp
    rw [hcons, String.utf8ByteSize_append, String.utf8ByteSize_singleton,
      h c List.mem_cons_self, ih fun d hd => h d (List.mem_cons_of_mem c hd), List.length_cons,
      Nat.add_comm]

/-- The names of the temporary files of a record fit when its id has at most 213 bytes. -/
theorem utf8ByteSize_uniqueTempPath {uuid : Nat} (hu : uuid < 2 ^ 128) :
    (uniqueTempPath (stateName id) uuid).utf8ByteSize = id.utf8ByteSize + 42 := by
  have hdigit : ∀ d < 16, (Nat.digitChar d).utf8Size = 1 := by decide
  have huuid : (String.ofList (uuidSimple uuid)).utf8ByteSize = 32 := by
    rw [utf8ByteSize_ofList fun c hc => ?_, length_uuidSimple hu]
    obtain ⟨d, hd, rfl⟩ := mem_uuidSimple hc
    exact hdigit d hd
  unfold uniqueTempPath stateName
  simp only [String.utf8ByteSize_append, huuid]
  rfl

/-- `publish` from a directory whose temporary file holds the record. -/
theorem publish_spec {temp text : String} {state : UploadState} {create : Bool}
    (hI : ∀ d', Matches codec d' m ∨
      (create = true → state.id ∉ m) ∧ Matches codec d' (m.insert state.id state) → I d')
    (hm : Matches codec d m) (hid : validateUploadId state.id = .ok ()) (ht : IsTemp temp)
    (htext : d.lookup temp = some text) (hdec : codec.fromStr text = .ok state) :
    Spec I (· = d) (publish temp (stateName state.id) state.id create) (fun r d' =>
      if create = true ∧ state.id ∈ m then r = .error (.alreadyExists state.id) ∧ Matches codec d' m
      else r = .ok () ∧ Matches codec d' (m.insert state.id state)) := by
  have htemp : temp ∈ d := AList.lookup_isSome.mp (Option.isSome_iff_exists.mpr ⟨text, htext⟩)
  have hnew := hm.insert hid hdec
  unfold publish
  refine Triple.ite (fun hcreate => ?_) fun hcreate => ?_
  · refine op_spec fun a d' he => ?_
    cases he with
    | hardLink hc _ hn =>
      cases htext.symm.trans hc
      have hfree : state.id ∉ m := mt hm.mem_iff.mpr hn
      have hdone : ∀ d', Matches codec d' (m.insert state.id state) → I d' := fun d' h =>
        hI d' (.inr ⟨fun _ => hfree, h⟩)
      refine ⟨hdone _ hnew, ?_⟩
      refine op_spec fun a d'' he => ?_
      have hkept : Matches codec d'' (m.insert state.id state) := by
        cases he with
        | removeFile _ => exact hnew.erase_temp ht
        | removeMissing _ _ => exact hnew
        | removeTooLong _ _ => exact hnew
      refine ⟨hdone _ hkept, op_spec fun a d₃ he => ?_⟩
      cases he
      refine ⟨hdone _ hkept, Triple.done fun _ h => ?_⟩
      rw [if_neg fun hbad => hfree hbad.2]
      exact ⟨rfl, h ▸ hkept⟩
    | linkMissing hn => exact absurd htemp hn
    | linkExists _ _ hin =>
      have hold : state.id ∈ m := hm.mem_iff.mp hin
      refine ⟨hI _ (.inl hm), ?_⟩
      refine op_spec fun a d'' he => ?_
      have hkept : Matches codec d'' m := by
        cases he with
        | removeFile _ => exact hm.erase_temp ht
        | removeMissing _ _ => exact hm
        | removeTooLong _ _ => exact hm
      refine ⟨hI _ (.inl hkept), Triple.done fun _ h => ?_⟩
      rw [if_pos ⟨hcreate, hold⟩]
      exact ⟨rfl, h ▸ hkept⟩
    | linkTooLong _ hf => exact absurd (fits_stateName hid) hf
  · refine op_spec fun a d' he => ?_
    cases he with
    | rename hc _ =>
      cases htext.symm.trans hc
      have hkept : Matches codec ((d.erase temp).insert (stateName state.id) text)
          (m.insert state.id state) := (hm.erase_temp ht).insert hid hdec
      have hdone : ∀ d', Matches codec d' (m.insert state.id state) → I d' := fun d' h =>
        hI d' (.inr ⟨fun hc => absurd hc hcreate, h⟩)
      refine ⟨hdone _ hkept, op_spec fun a d'' he => ?_⟩
      cases he
      refine ⟨hdone _ hkept, Triple.done fun _ h => ?_⟩
      rw [if_neg fun hbad => hcreate hbad.1]
      exact ⟨rfl, h ▸ hkept⟩
    | renameMissing hn => exact absurd htemp hn
    | renameTooLong _ hf => exact absurd (fits_stateName hid) hf

theorem set_spec {uuid : Nat} {state : UploadState} {mode : WriteMode}
    (hI : ∀ d', Matches codec d' m ∨
      (mode = .createNew → state.id ∉ m) ∧ Matches codec d' (m.insert state.id state) → I d')
    (hm : Matches codec d m) (hid : validateUploadId state.id = .ok ())
    (hfits : Fits (uniqueTempPath (stateName state.id) uuid))
    (hfresh : uniqueTempPath (stateName state.id) uuid ∉ d) :
    Spec I (· = d) (set codec uuid state mode) (fun r d' =>
      if mode = .createNew ∧ state.id ∈ m then
        r = .error (.alreadyExists state.id) ∧ Matches codec d' m
      else r = .ok () ∧ Matches codec d' (m.insert state.id state)) := by
  obtain ⟨text, htext, hdec⟩ := codec.roundTrip state
  have ht := isTemp_uniqueTempPath (stateName state.id) uuid
  unfold set
  rw [lift_statePath hid]
  unfold writeState
  rw [htext]
  refine op_spec fun a d' he => ?_
  cases he with
  | openExists _ hin => exact absurd hin hfresh
  | openTooLong hf => exact absurd hfits hf
  | openNew _ _ =>
    have hopen : Matches codec (d.insert _ "") m := hm.insert_temp ht
    refine ⟨hI _ (.inl hopen), op_spec fun a d'' he => ?_⟩
    cases he
    have hwritten : Matches codec ((d.insert _ "").insert _ text) m := hopen.insert_temp ht
    refine ⟨hI _ (.inl hwritten), op_spec fun a d₃ he => ?_⟩
    cases he
    refine ⟨hI _ (.inl hwritten), ?_⟩
    have hcut : ∀ d', Matches codec d' m ∨ (decide (mode = .createNew) = true → state.id ∉ m) ∧
        Matches codec d' (m.insert state.id state) → I d' := fun d' h =>
      hI d' (h.imp_right fun h => ⟨fun hc => h.1 (decide_eq_true hc), h.2⟩)
    refine (publish_spec hcut hwritten hid ht (AList.lookup_insert _) hdec).weaken
      (fun _ h => h) fun r d₄ h => ?_
    simpa only [decide_eq_true_eq] using h

/-- What `list_expired` finds at a name. -/
def expiredAt (codec : Codec) (d : Dir) (before : Nat) (name : String) : Option String :=
  if extension name = some "json" then
    match (d.lookup name).map codec.fromStr with
    | some (.ok state) => if state.expiresBefore before then some state.id else none
    | _ => none
  else none

theorem collectExpired_spec (hI : I d) (before : Nat) (expired names : List String)
    (hin : ∀ name ∈ names, name ∈ d) :
    Spec I (· = d) (collectExpired codec before expired names) (fun r d' =>
      d' = d ∧ r = .ok (expired ++ names.filterMap (expiredAt codec d before))) := by
  induction names generalizing expired with
  | nil =>
    rw [List.filterMap_nil, List.append_nil]
    exact Triple.done fun _ h => ⟨h, rfl⟩
  | cons name names ih =>
    have hrest : ∀ n ∈ names, n ∈ d := fun n hn => hin n (List.mem_cons_of_mem _ hn)
    unfold collectExpired
    refine Triple.ite (fun hext => ?_) fun hext => ?_
    · have hskip : expiredAt codec d before name = none := if_neg hext
      rw [List.filterMap_cons_none hskip]
      exact ih expired hrest
    · have hjson : extension name = some "json" := Classical.not_not.mp hext
      obtain ⟨text, htext⟩ := Option.isSome_iff_exists.mp
        (AList.lookup_isSome.mpr (hin name List.mem_cons_self))
      have hat : expiredAt codec d before name = match codec.fromStr text with
          | .ok state => if state.expiresBefore before then some state.id else none
          | .error _ => none := by
        unfold expiredAt
        rw [if_pos hjson, htext, Option.map_some]
        cases codec.fromStr text <;> rfl
      unfold readState
      refine op_spec fun a d' he => ?_
      cases he with
      | readMissing _ hn => exact absurd (hin name List.mem_cons_self) hn
      | readTooLong _ hn => exact absurd (hin name List.mem_cons_self) hn
      | read hc =>
        cases htext.symm.trans hc
        refine ⟨hI, ?_⟩
        cases hdec : codec.fromStr text with
        | error e =>
          rw [hdec] at hat
          rw [List.filterMap_cons_none hat]
          simp only [hdec]
          exact ih expired hrest
        | ok state =>
          rw [hdec] at hat
          simp only [hdec]
          refine Triple.ite (fun hexp => ?_) fun hexp => ?_
          · have htail := ih (expired ++ [state.id]) hrest
            simp only [List.append_assoc, List.singleton_append] at htail
            rw [List.filterMap_cons_some (hat.trans (if_pos hexp))]
            exact htail
          · rw [List.filterMap_cons_none (hat.trans (if_neg hexp))]
            exact ih expired hrest

/-- The names of a directory and the ids that it holds. -/
theorem Matches.surfaced_iff (hm : Matches codec d m) {name : String} (hin : name ∈ d) :
    surfaced name = some id ↔ id ∈ m ∧ name = stateName id := by
  unfold surfaced
  constructor
  · intro h
    split at h
    · next hjson =>
      have hname := eq_stateName_of_extension hjson.1
      rw [Option.some.inj h] at hname
      exact ⟨hm.mem_iff.mp (hname ▸ hin), hname⟩
    · cases h
  · rintro ⟨hmem, rfl⟩
    obtain ⟨s, hs⟩ := Option.isSome_iff_exists.mp (AList.lookup_isSome.mpr hmem)
    have hid := (hm.record id s hs).1
    have hne := ne_empty_of_validate hid
    have hok : (UploadId.parse id).isOk = true := by
      rw [parse_of_validate hid]
      rfl
    rw [fileStem_stateName hne, if_pos ⟨extension_stateName hne, hok⟩]

theorem Matches.surfaced_perm (hm : Matches codec d m) {names : List String}
    (hp : names.Perm d.keys) : (names.filterMap surfaced).Perm m.keys := by
  have hin : ∀ name ∈ names, name ∈ d := fun name hn => AList.mem_keys.mpr (hp.mem_iff.mp hn)
  have hnodup : (names.filterMap surfaced).Nodup := by
    refine List.Nodup.filterMap (fun a b c ha hb => ?_) (hp.nodup_iff.mpr d.keys_nodup)
    have hname : ∀ n, c ∈ surfaced n → n = stateName c := by
      intro n hn
      have hn : surfaced n = some c := hn
      unfold surfaced at hn
      split at hn
      · next hjson =>
        rw [← Option.some.inj hn]
        exact eq_stateName_of_extension hjson.1
      · cases hn
    rw [hname a ha, hname b hb]
  refine (List.perm_ext_iff_of_nodup hnodup m.keys_nodup).mpr fun id => ?_
  rw [List.mem_filterMap]
  constructor
  · rintro ⟨name, hn, hs⟩
    exact ((hm.surfaced_iff (hin name hn)).mp hs).1
  · intro hid
    have hd : stateName id ∈ d := hm.mem_iff.mpr hid
    exact ⟨stateName id, hp.mem_iff.mpr (AList.mem_keys.mp hd),
      (hm.surfaced_iff hd).mpr ⟨hid, rfl⟩⟩

theorem sortIds_eq {a b : List String} (h : a.Perm b) : sortIds a = sortIds b := by
  have hsorted : ∀ l : List String, (sortIds l).Pairwise (· ≤ ·) := by
    intro l
    refine List.Pairwise.imp (R := fun a b => decide (a ≤ b) = true)
      (fun hab => of_decide_eq_true hab) (List.pairwise_mergeSort ?_ ?_ l)
    · intro x y z hxy hyz
      rw [decide_eq_true_eq] at *
      exact le_trans hxy hyz
    · intro x y
      rw [Bool.or_eq_true, decide_eq_true_eq, decide_eq_true_eq]
      exact le_total x y
  refine List.Perm.eq_of_pairwise (fun _ _ _ _ hab hba => le_antisymm hab hba) (hsorted a)
    (hsorted b) ?_
  exact (List.mergeSort_perm a _).trans (h.trans (List.mergeSort_perm b _).symm)

/-- The expired records of the directory are those of the map. -/
theorem Matches.mem_expired (hm : Matches codec d m) {names : List String}
    (hp : names.Perm d.keys) (before : Nat) :
    id ∈ names.filterMap (expiredAt codec d before) ↔ id ∈ Memory.listExpired m before := by
  have hmemory : id ∈ Memory.listExpired m before ↔
      ∃ s, m.lookup id = some s ∧ s.expiresBefore before = true := by
    simp only [Memory.listExpired, List.mem_map, List.mem_filter]
    constructor
    · rintro ⟨s, ⟨⟨⟨key, s'⟩, he, rfl⟩, hexp⟩, rfl⟩
      have hs : m.lookup key = some s' := AList.mem_lookup_iff.mpr he
      rw [(hm.record key s' hs).2.1]
      exact ⟨s', hs, hexp⟩
    · rintro ⟨s, hs, hexp⟩
      refine ⟨s, ⟨⟨⟨id, s⟩, AList.mem_lookup_iff.mp hs, rfl⟩, hexp⟩, (hm.record id s hs).2.1⟩
  rw [hmemory, List.mem_filterMap]
  constructor
  · rintro ⟨name, hn, hat⟩
    have hin : name ∈ d := AList.mem_keys.mpr (hp.mem_iff.mp hn)
    unfold expiredAt at hat
    split at hat
    · next hjson =>
      rcases hm.names name hin with ⟨id', hmem, rfl⟩ | ht
      · obtain ⟨s, hs⟩ := Option.isSome_iff_exists.mp (AList.lookup_isSome.mpr hmem)
        obtain ⟨-, hsid, text, htext, hdec⟩ := hm.record id' s hs
        rw [htext, Option.map_some, hdec] at hat
        dsimp only at hat
        split at hat
        · next hexp =>
          obtain rfl := hsid.symm.trans (Option.some.inj hat)
          exact ⟨s, hs, hexp⟩
        · cases hat
      · exact absurd hjson (extension_temp ht)
    · cases hat
  · rintro ⟨s, hs, hexp⟩
    obtain ⟨hid, hsid, text, htext, hdec⟩ := hm.record id s hs
    have hin : stateName id ∈ d := AList.lookup_isSome.mp (Option.isSome_iff_exists.mpr ⟨text, htext⟩)
    refine ⟨stateName id, hp.mem_iff.mpr (AList.mem_keys.mp hin), ?_⟩
    unfold expiredAt
    rw [if_pos (extension_stateName (ne_empty_of_validate hid)), htext, Option.map_some, hdec]
    exact (if_pos hexp).trans (congrArg some hsid)

end Specs

/-! ### Refinement -/

/-- A call on the file store that ends with an answer, or with `none` where the process
crashed between two operations. -/
def Performs (uuid : Nat) (call : Call) (d : Dir) (r : Option (Except Error Reply)) (d' : Dir) :
    Prop :=
  ∃ hist hist', Exec fileSystem 0 (perform codec uuid call) ⟨d, hist⟩ r ⟨d', hist'⟩

/-- The ids that the store accepts; a UUID drawn for a temporary file is new. -/
def Admitted (d : Dir) (uuid : Nat) : Call → Prop
  | .get id => validateUploadId id = .ok ()
  | .set state _ => validateUploadId state.id = .ok () ∧ uuid < 2 ^ 128 ∧
    uniqueTempPath (stateName state.id) uuid ∉ d
  | .delete id => validateUploadId id = .ok ()
  | .listExpired _ => True
  | .listUploadIds _ _ => True

/-- The id leaves room for the suffix of the temporary file: 37 bytes after `.json`. -/
def LeavesRoom : Call → Prop
  | .set state _ => state.id.utf8ByteSize ≤ 213
  | _ => True

/-- The file store with the contents of a map after the same calls, crashes included: what
a crash leaves is what is read after it. -/
inductive Lockstep (allowed : Call → Prop) : Dir → Memory.States → Prop
  | start : Lockstep allowed ∅ ∅
  | call {d d' : Dir} {m : Memory.States} {uuid : Nat} {call : Call} {r : Except Error Reply} :
      Lockstep allowed d m → Admitted d uuid call → allowed call →
      Performs codec uuid call d (some r) d' → Lockstep allowed d' (Memory.perform m call).2
  | crash {d d' : Dir} {m m' : Memory.States} {uuid : Nat} {call : Call} :
      Lockstep allowed d m → Admitted d uuid call → allowed call →
      Performs codec uuid call d none d' → (m' = m ∨ m' = (Memory.perform m call).2) →
      (∀ id, validateUploadId id = .ok () →
        ∃ d'', Performs codec 0 (.get id) d' (some (.ok (.state (m'.lookup id)))) d'') →
      Lockstep allowed d' m'

/-- The same outcome, listings as sets. -/
def SameOutcome : Except Error Reply → Except Error Reply → Prop
  | .ok (.ids ids), .ok (.ids ids') => ∀ id, id ∈ ids ↔ id ∈ ids'
  | r, r' => r = r'

section Refinement

variable {codec} {d d' : Dir} {m : Memory.States} {uuid : Nat} {call : Call}

theorem fs_enabled (o : FsOp) (d : Dir) : ∃ a d', FsExec o d a d' := by
  have hcontent : ∀ {n : String}, n ∈ d → ∃ c, d.lookup n = some c := fun hn =>
    Option.isSome_iff_exists.mp (AList.lookup_isSome.mpr hn)
  cases o with
  | openNew n =>
    by_cases hf : Fits n
    · by_cases hn : n ∈ d
      · exact ⟨_, _, .openExists hf hn⟩
      · exact ⟨_, _, .openNew hf hn⟩
    · exact ⟨_, _, .openTooLong hf⟩
  | writeAll n c => exact ⟨_, _, .writeAll⟩
  | syncAll n => exact ⟨_, _, .syncAll⟩
  | hardLink n n' =>
    by_cases hn : n ∈ d
    · by_cases hf : Fits n'
      · by_cases hn' : n' ∈ d
        · exact ⟨_, _, .linkExists hn hf hn'⟩
        · obtain ⟨c, hc⟩ := hcontent hn
          exact ⟨_, _, .hardLink hc hf hn'⟩
      · exact ⟨_, _, .linkTooLong hn hf⟩
    · exact ⟨_, _, .linkMissing hn⟩
  | rename n n' =>
    by_cases hn : n ∈ d
    · by_cases hf : Fits n'
      · obtain ⟨c, hc⟩ := hcontent hn
        exact ⟨_, _, .rename hc hf⟩
      · exact ⟨_, _, .renameTooLong hn hf⟩
    · exact ⟨_, _, .renameMissing hn⟩
  | removeFile n =>
    by_cases hn : n ∈ d
    · exact ⟨_, _, .removeFile hn⟩
    · by_cases hf : Fits n
      · exact ⟨_, _, .removeMissing hf hn⟩
      · exact ⟨_, _, .removeTooLong hf hn⟩
  | readToString n =>
    by_cases hn : n ∈ d
    · obtain ⟨c, hc⟩ := hcontent hn
      exact ⟨_, _, .read hc⟩
    · by_cases hf : Fits n
      · exact ⟨_, _, .readMissing hf hn⟩
      · exact ⟨_, _, .readTooLong hf hn⟩
  | readDir => exact ⟨_, _, .readDir (List.Perm.refl _)⟩
  | syncDir => exact ⟨(), _, .syncDir⟩

theorem performs_exists (uuid : Nat) (call : Call) (d : Dir) :
    ∃ r d', Performs codec uuid call d (some r) d' := by
  obtain ⟨r, s', he⟩ := Exec.exists_done (M := fileSystem) fs_enabled (perform codec uuid call) ⟨d, []⟩
  exact ⟨r, s'.world, [], s'.hist, he⟩

/-- An operation whose value becomes the reply of a call. -/
theorem reply_spec {α : Type} {I : Dir → Prop} {p : FsM α} {f : α → Reply}
    {P : Except Error α → Dir → Prop} {Q : Except Error Reply → Dir → Prop}
    (hp : Spec I (· = d) p P) (hok : ∀ a d', P (.ok a) d' → Q (.ok (f a)) d')
    (herr : ∀ e d', P (.error e) d' → Q (.error e) d') :
    Spec I (· = d) (p >>= fun a => pure (f a) : FsM Reply) Q :=
  Triple.andThen P hp (fun a => Triple.done (hok a)) herr

theorem memory_set {state : UploadState} {mode : WriteMode}
    (hid : validateUploadId state.id = .ok ()) :
    Memory.perform m (.set state mode) =
      if mode = .createNew ∧ state.id ∈ m then (.error (.alreadyExists state.id), m)
      else (.ok .written, m.insert state.id state) := by
  simp only [Memory.perform, Memory.set, memory_validate hid]
  by_cases hold : mode = .createNew ∧ state.id ∈ m
  · simp [hold, bind, Except.bind, throw, throwThe, MonadExceptOf.throw]
  · simp [hold, bind, Except.bind, pure, Except.pure]

theorem memory_delete {id : String} (hid : validateUploadId id = .ok ()) :
    Memory.perform m (.delete id) = (.ok .written, m.erase id) := by
  simp only [Memory.perform, Memory.delete, memory_validate hid]
  rfl

theorem memory_get {id : String} (hid : validateUploadId id = .ok ()) :
    Memory.perform m (.get id) = (.ok (.state (m.lookup id)), m) := by
  simp only [Memory.perform, Memory.get, memory_validate hid]
  rfl

/-- What a call leaves behind where it was cut off, and what it answers. -/
theorem perform_spec (hm : Matches codec d m) (ha : Admitted d uuid call) (hl : LeavesRoom call) :
    Spec (fun d' => Matches codec d' m ∨ Matches codec d' (Memory.perform m call).2) (· = d)
      (perform codec uuid call)
      (fun r d' => Matches codec d' (Memory.perform m call).2 ∧
        SameOutcome r (Memory.perform m call).1) := by
  cases call with
  | get id =>
    rw [memory_get ha]
    refine reply_spec (get_spec (.inl hm) hm ha) ?_ ?_
    · rintro found _ ⟨rfl, hr⟩
      cases hr
      exact ⟨hm, rfl⟩
    · rintro e _ ⟨-, hr⟩
      cases hr
  | set state mode =>
    obtain ⟨hid, huuid, hfresh⟩ := ha
    have hfits : Fits (uniqueTempPath (stateName state.id) uuid) := by
      show _ ≤ 255
      rw [utf8ByteSize_uniqueTempPath huuid]
      exact Nat.add_le_add_right hl 42
    rw [memory_set hid]
    have hI : ∀ d', Matches codec d' m ∨ (mode = .createNew → state.id ∉ m) ∧
        Matches codec d' (m.insert state.id state) → Matches codec d' m ∨
        Matches codec d' (if mode = .createNew ∧ state.id ∈ m then
          ((.error (.alreadyExists state.id) : Except Error Reply), m)
          else (.ok .written, m.insert state.id state)).2 := by
      rintro d' (h | ⟨hfree, h⟩)
      · exact .inl h
      · rw [if_neg fun hbad => hfree hbad.1 hbad.2]
        exact .inr h
    refine reply_spec (set_spec hI hm hid hfits hfresh) ?_ ?_
    · intro _ d' h
      split at h
      · cases h.1
      · next hnew =>
        rw [if_neg hnew]
        exact ⟨h.2, rfl⟩
    · intro e d' h
      split at h
      · next hold =>
        rw [if_pos hold, Except.error.inj h.1]
        exact ⟨h.2, rfl⟩
      · cases h.1
  | delete id =>
    rw [memory_delete ha]
    refine reply_spec (delete_spec (fun _ h => h) hm ha) ?_ ?_
    · rintro _ d' ⟨h, -⟩
      exact ⟨h, rfl⟩
    · rintro e _ ⟨-, hr⟩
      cases hr
  | listExpired before =>
    refine reply_spec (P := fun r d' => d' = d ∧ ∃ ids, r = .ok ids ∧
      ∀ id, id ∈ ids ↔ id ∈ Memory.listExpired m before) ?_ ?_ ?_
    · refine op_spec fun a d' he => ?_
      cases he with
      | readDir hp =>
        have hin : ∀ name ∈ _, name ∈ d := fun name hn => AList.mem_keys.mpr (hp.mem_iff.mp hn)
        refine ⟨.inl hm, (collectExpired_spec (.inl hm) before [] _ hin).weaken (fun _ h => h) ?_⟩
        rintro r d' ⟨rfl, rfl⟩
        exact ⟨rfl, _, rfl, fun id => hm.mem_expired hp before⟩
    · rintro ids _ ⟨rfl, _, hr, hids⟩
      cases hr
      exact ⟨hm, hids⟩
    · rintro e _ ⟨-, _, hr, -⟩
      cases hr
  | listUploadIds limit offset =>
    refine reply_spec (P := fun r d' => d' = d ∧ r = .ok (Memory.listUploadIds m limit offset))
      ?_ ?_ ?_
    · refine op_spec fun a d' he => ?_
      cases he with
      | readDir hp =>
        refine ⟨.inl hm, Triple.done fun _ h => ⟨h, ?_⟩⟩
        rw [Memory.listUploadIds, sortIds_eq (hm.surfaced_perm hp)]
    · rintro ids _ ⟨rfl, hr⟩
      cases hr
      exact ⟨hm, fun _ => Iff.rfl⟩
    · rintro e _ ⟨-, hr⟩
      cases hr

theorem Performs.result {r : Option (Except Error Reply)} (h : Performs codec uuid call d r d')
    (hm : Matches codec d m) (ha : Admitted d uuid call) (hl : LeavesRoom call) :
    (Matches codec d' m ∨ Matches codec d' (Memory.perform m call).2) ∧
    ∀ a, r = some a → Matches codec d' (Memory.perform m call).2 ∧
      SameOutcome a (Memory.perform m call).1 := by
  obtain ⟨hist, hist', he⟩ := h
  exact (perform_spec hm ha hl).exec (.inl hm) rfl he

/-- What a directory that matches a map answers to `get`. -/
theorem Matches.get_answer (hm : Matches codec d m) {id : String}
    (hid : validateUploadId id = .ok ()) {r : Except Error Reply}
    (h : Performs codec uuid (.get id) d (some r) d') : r = .ok (.state (m.lookup id)) := by
  have hres := ((h.result hm hid trivial).2 r rfl).2
  rw [memory_get hid] at hres
  cases r with
  | error e => exact hres
  | ok reply => cases reply <;> exact hres

/-- A map that the directory answers like is the one it matches. -/
theorem Matches.of_answers {m' : Memory.States} (hm : Matches codec d m)
    (hvalid : ∀ id s, m'.lookup id = some s → validateUploadId id = .ok ())
    (h : ∀ id, validateUploadId id = .ok () →
      ∃ d', Performs codec 0 (.get id) d (some (.ok (.state (m'.lookup id)))) d') :
    Matches codec d m' := by
  have hlookup : ∀ id, m'.lookup id = m.lookup id := by
    intro id
    by_cases hid : validateUploadId id = .ok ()
    · obtain ⟨d', hp⟩ := h id hid
      have hsame := hm.get_answer hid hp
      simp only [Except.ok.injEq, Reply.state.injEq] at hsame
      exact hsame
    · have hnone : m'.lookup id = none := Option.eq_none_iff_forall_ne_some.mpr fun s hs =>
        hid (hvalid id s hs)
      have hnone' : m.lookup id = none := Option.eq_none_iff_forall_ne_some.mpr fun s hs =>
        hid (hm.record id s hs).1
      rw [hnone, hnone']
  refine ⟨fun id s hs => ?_, fun id hnone => ?_, fun name hn => ?_⟩
  · rw [hlookup] at hs
    exact hm.record id s hs
  · rw [hlookup] at hnone
    exact hm.absent id hnone
  · rcases hm.names name hn with ⟨id, hid, rfl⟩ | ht
    · refine .inl ⟨id, ?_, rfl⟩
      rw [← AList.lookup_isSome, hlookup, AList.lookup_isSome]
      exact hid
    · exact .inr ht

theorem Lockstep.matches (h : Lockstep codec LeavesRoom d m) : Matches codec d m := by
  induction h with
  | start => exact matches_empty
  | call _ ha hl hp ih => exact ((hp.result ih ha hl).2 _ rfl).1
  | @crash d d' m m' uuid call _ ha hl hp hm' hget ih =>
    have hvalid : ∀ id s, m'.lookup id = some s → validateUploadId id = .ok () := by
      intro id s hs
      rcases hm' with rfl | rfl
      · exact (ih.record id s hs).1
      · obtain ⟨r, d₁, hrun⟩ : ∃ r d₁, Performs codec uuid call d (some r) d₁ :=
          performs_exists uuid call d
        exact (((hrun.result ih ha hl).2 r rfl).1.record id s hs).1
    rcases (hp.result ih ha hl).1 with h | h
    · exact h.of_answers hvalid hget
    · exact h.of_answers hvalid hget

/-- After any calls and crashes the file store answers every call on an id that leaves room
for the temporary file as the map does, and a crash inside it leaves for every later `get`
the records from before the call or those from after it. -/
theorem file_refines_memory (h : Lockstep codec LeavesRoom d m) (ha : Admitted d uuid call)
    (hl : LeavesRoom call) :
    (∃ r d', Performs codec uuid call d (some r) d') ∧
    (∀ r d', Performs codec uuid call d (some r) d' → SameOutcome r (Memory.perform m call).1) ∧
    ∀ d', Performs codec uuid call d none d' →
      ∃ m', (m' = m ∨ m' = (Memory.perform m call).2) ∧ ∀ id, validateUploadId id = .ok () →
        ∀ r d'', Performs codec 0 (.get id) d' (some r) d'' → r = .ok (.state (m'.lookup id)) := by
  have hm := h.matches
  refine ⟨performs_exists uuid call d, fun r d' hp => ((hp.result hm ha hl).2 r rfl).2,
    fun d' hp => ?_⟩
  rcases (hp.result hm ha hl).1 with hold | hnew
  · exact ⟨m, .inl rfl, fun id hid r d'' hg => hold.get_answer hid hg⟩
  · exact ⟨_, .inr rfl, fun id hid r d'' hg => hnew.get_answer hid hg⟩

/-- Without room for the temporary file no record is written. -/
theorem set_refused {state : UploadState} {mode : WriteMode}
    (hid : validateUploadId state.id = .ok ()) (hu : uuid < 2 ^ 128)
    (hlong : 213 < state.id.utf8ByteSize) :
    Performs codec uuid (.set state mode) d (some (.error (.io tooLong))) d := by
  have hfits : ¬Fits (uniqueTempPath (stateName state.id) uuid) := by
    show ¬_ ≤ 255
    rw [utf8ByteSize_uniqueTempPath hu]
    omega
  obtain ⟨text, htext, -⟩ := codec.roundTrip state
  have hset : set codec uuid state mode = writeState codec uuid (stateName state.id) state
      (mode = .createNew) := lift_statePath hid _
  have hrun : Exec fileSystem 0 (set codec uuid state mode) ⟨d, []⟩ (some (.error (.io tooLong)))
      (Snap.push ⟨d, []⟩ 0 (.openNew (uniqueTempPath (stateName state.id) uuid)) (.error tooLong) d) := by
    rw [hset]
    unfold writeState
    rw [htext]
    exact Exec.step (FsExec.openTooLong hfits) (.done _ _)
  exact ⟨[], _, Exec.bind hrun (.done _ _)⟩

end Refinement

/-! ### An encoding -/

instance encodableUInt8 : Encodable UInt8 :=
  Encodable.ofLeftInjection UInt8.toNat (fun n => some (UInt8.ofNat n)) fun n => by simp

instance encodableString : Encodable String :=
  Encodable.ofLeftInjection (fun s => s.toList.map Char.toNat)
    (fun ns => some (String.ofList (ns.map Char.ofNat))) fun s => by simp [Function.comp_def]

deriving instance Encodable for StorageHandle
deriving instance Encodable for UploadState

/-- `UploadState::new("a")` at the beginning of time. -/
def sample : UploadState := UploadState.new "a" 0

def sampleJson : String :=
  "\x7b\n  \"schema_version\": 1,\n  \"id\": \"a\",\n  \"offset\": 0,\n  \"length\": null,\n  \"storage_key\": null,\n  \"created_at\": \"1970-01-01T00:00:00Z\",\n  \"expires_at\": null,\n  \"is_partial\": false,\n  \"is_final\": false,\n  \"parts\": null,\n  \"metadata\": \x7b\x7d,\n  \"internal\": \x7b\x7d\n\x7d"

/-- The text of a state other than the sample: its code in unary. -/
def unary (s : UploadState) : String := String.ofList (List.replicate (Encodable.encode s) '1')

/-- An encoding that writes the sample as `serde_json` does. -/
def sampleCodec : Codec where
  toStringPretty s := .ok (if s = sample then sampleJson else unary s)
  fromStr text :=
    if text = sampleJson then .ok sample
    else match Encodable.decode text.toList.length with
      | some s => .ok s
      | none => .error "expected value"
  roundTrip s := by
    refine ⟨_, rfl, ?_⟩
    by_cases hs : s = sample
    · rw [if_pos hs, if_pos rfl, hs]
    · have hne : unary s ≠ sampleJson := by
        intro heq
        have hall : ∀ c ∈ (unary s).toList, c = '1' := by
          intro c hc
          rw [unary, String.toList_ofList] at hc
          exact List.eq_of_mem_replicate hc
        rw [heq] at hall
        exact absurd (hall '\n' (by decide +kernel)) (by decide)
      rw [if_neg hs, if_neg hne, unary, String.toList_ofList, List.length_replicate,
        Encodable.encodek]

theorem file_refines_memory_sample :
    (∃ r d', Performs sampleCodec 0 (.set sample .createNew) ∅ (some r) d') ∧
    ∀ r d', Performs sampleCodec 0 (.set sample .createNew) ∅ (some r) d' → r = .ok .written := by
  have hstart : Lockstep sampleCodec LeavesRoom ∅ ∅ := .start
  have hadmitted : Admitted ∅ 0 (.set sample .createNew) :=
    ⟨rfl, by decide, AList.notMem_empty _⟩
  have h := file_refines_memory hstart hadmitted (show _ ≤ 213 by decide)
  refine ⟨h.1, fun r d' hp => ?_⟩
  have hsame := h.2.1 r d' hp
  cases r with
  | error e => cases hsame
  | ok reply => cases reply <;> first | rfl | cases hsame

/-- An id of `n` letters. -/
def letters (n : Nat) : String := String.ofList (List.replicate n 'a')

theorem utf8ByteSize_letters (n : Nat) : (letters n).utf8ByteSize = n := by
  rw [letters, utf8ByteSize_ofList fun c hc => ?_, List.length_replicate]
  rw [List.eq_of_mem_replicate hc]
  rfl

theorem validate_letters {n : Nat} (hpos : 0 < n) (hle : n ≤ 250) :
    validateUploadId (letters n) = .ok () := by
  have hchars : ∀ k, UploadId.checkChars (List.replicate k 'a') = .ok () := by
    intro k
    induction k with
    | zero => rfl
    | succ k ih =>
      rw [List.replicate_succ, UploadId.checkChars, if_neg (by decide), ih]
      rfl
  have hne : (letters n).isEmpty = false := by
    rw [String.isEmpty_eq_false_iff]
    rintro heq
    have hsize := utf8ByteSize_letters n
    rw [heq] at hsize
    exact absurd hsize (Nat.ne_of_lt hpos)
  have hparse : UploadId.parse (letters n) = .ok (letters n) := by
    unfold UploadId.parse
    rw [hne, utf8ByteSize_letters, if_neg (by decide), if_neg (by show ¬n > 256; omega), letters,
      String.toList_ofList, hchars]
  unfold validateUploadId
  rw [hparse]
  simp only [utf8ByteSize_letters, bind, Except.bind]
  exact if_neg (by show ¬n + 5 > 255; omega)

/-- An id of 250 bytes is accepted, and the name of its temporary file is too long: what the
map stores, the file store refuses with an I/O error. -/
theorem file_refuses_long_id :
    ¬∀ (codec : Codec) (d : Dir) (m : Memory.States) (uuid : Nat) (call : Call),
      Lockstep codec (fun _ => True) d m → Admitted d uuid call →
      ∀ r d', Performs codec uuid call d (some r) d' → SameOutcome r (Memory.perform m call).1 := by
  intro hclaim
  obtain ⟨id, hid, hlong⟩ : ∃ id, validateUploadId id = .ok () ∧ 213 < id.utf8ByteSize :=
    ⟨letters 250, validate_letters (by decide) (by decide), by
      rw [utf8ByteSize_letters]
      decide⟩
  have hadmitted : Admitted ∅ 0 (.set (UploadState.new id 0) .createNew) :=
    ⟨hid, by decide, AList.notMem_empty _⟩
  have hsame := hclaim sampleCodec ∅ ∅ 0 _ .start hadmitted _ _
    (set_refused hid (by decide) hlong)
  rw [memory_set hid, if_neg fun hbad => AList.notMem_empty _ hbad.2] at hsame
  cases hsame

end File

end StateStore

end TusRs
