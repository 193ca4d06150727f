import TusRs.Opendal.Creation
import TusRs.Storage.Download
import TusRs.System.World

/-!
# The provided storage backends

`MemoryStorage`, `FileStorage` and the OpenDAL storage as implementations of the methods of
`Storage`: what a call may answer and do to the stored data. The calls of a method are not
interrupted.

Results:

* `Handed.key`: what the handles that a backend hands out for an id have in common.
* `file_spares`: a creation in `FileStorage`, taken back, leaves the files of others alone.
* `memory_wipes`, `opendal_wipes`: in the other two, which derive the key from the id, nothing
  is left under the key.
* `opendal_empty`, `opendal_left`: where nothing was stored before, a concatenation that cannot
  be deleted again is what is left.
-/

namespace TusRs

open Interaction Protocol

/-! ## The remaining methods -/

namespace MemoryStorage

def delete (data : Data) (handle : StorageHandle) : Data :=
  Function.update data handle.key none

theorem concat_handle (data : Data) (request : FileStorage.ConcatRequest) {t : StorageHandle}
    (h : (concat data request).2 = .ok t) : t = request.target := by
  unfold concat at h
  split at h
  · cases h
  · exact (Except.ok.inj h).symm

theorem append_handle (data : Data) (request : FileStorage.AppendRequest) {t : StorageHandle}
    (h : (append data request).2 = .ok t) : t = request.handle := by
  unfold append at h
  split at h
  · cases h
  · split at h
    · cases h
    · split at h
      · cases h
      · exact (Except.ok.inj h).symm

end MemoryStorage

namespace FileStorage

/-- The failures of the calls of one creation. Syncing the directory decides nothing. -/
structure CreateFaults where
  openNew : Option IoError
  sync : Option IoError

/-- `new_key`. -/
def newKey (uuid : Nat) : String := String.ofList (uuidSimple uuid) ++ ".upload"

/-- `FileStorage::create`: the file must not exist. -/
def create (faults : CreateFaults) (uuid : Nat) (files : Files) :
    Files × Except Error StorageHandle :=
  let handle : StorageHandle := ⟨newKey uuid, []⟩
  match pathForHandle handle with
  | .error e => (files, .error e)
  | .ok path => match faults.openNew, files path with
    | some e, _ => (files, .error (.io e))
    | none, some _ => (files, .error (.io .alreadyExists))
    | none, none => match faults.sync with
      | some e => (files.write path [], .error (.io e))
      | none => (files.write path [], .ok handle)

/-- `FileStorage::delete`: a missing file is a success. -/
def delete (fault : Option IoError) (files : Files) (handle : StorageHandle) :
    Files × Except Error Unit :=
  match pathForHandle handle with
  | .error e => (files, .error e)
  | .ok path => match fault with
    | some .notFound => (files, .ok ())
    | some e => (files, .error (.io e))
    | none => (files.remove path, .ok ())

/-- `FileStorage::size`. -/
def size (fault : Option IoError) (files : Files) (handle : StorageHandle) :
    Except Error (Option Nat) := do
  let path ← pathForHandle handle
  match fault with
  | some .notFound => .ok none
  | some e => .error (.io e)
  | none => .ok ((files path).map List.length)

/-! ### Other files -/

section Others

variable {files : Files} {name : String}

/-- A creation opens a file that does not exist yet. -/
theorem create_other (faults : CreateFaults) (uuid : Nat)
    (h : name = newKey uuid → files name ≠ none) :
    (create faults uuid files).1 name = files name ∧
      ∀ t, (create faults uuid files).2 = .ok t → t.key ≠ name := by
  unfold create pathForHandle
  dsimp only
  split
  case h_1 => exact ⟨rfl, nofun⟩
  case h_2 path hpath =>
    split at hpath
    case isFalse => cases hpath
    obtain rfl := Except.ok.inj hpath
    split
    case h_1 => exact ⟨rfl, nofun⟩
    case h_2 => exact ⟨rfl, nofun⟩
    case h_3 _ hnone =>
      have hne : name ≠ newKey uuid := by
        rintro rfl
        exact h rfl hnone
      have hkept : files.write (newKey uuid) [] name = files name := Function.update_of_ne hne _ _
      split
      · exact ⟨hkept, nofun⟩
      · refine ⟨hkept, fun t ht => ?_⟩
        obtain rfl := Except.ok.inj ht
        exact hne.symm

theorem create_generated (faults : CreateFaults) (uuid : Nat) {t : StorageHandle}
    (h : (create faults uuid files).2 = .ok t) : isGeneratedKey t.key = true := by
  unfold create pathForHandle at h
  dsimp only at h
  split at h
  case h_1 => cases h
  case h_2 path hpath =>
    split at hpath
    case isFalse => cases hpath
    case isTrue hgenerated =>
      split at h
      case h_1 => cases h
      case h_2 => cases h
      case h_3 =>
        split at h
        · cases h
        · obtain rfl := Except.ok.inj h
          exact hgenerated

theorem delete_other (fault : Option IoError) {handle : StorageHandle} (hne : name ≠ handle.key) :
    (delete fault files handle).1 name = files name := by
  unfold delete pathForHandle
  split
  · rfl
  · next path hpath =>
    split at hpath
    · obtain rfl := Except.ok.inj hpath
      split
      · rfl
      · rfl
      · exact Function.update_of_ne hne _ _
    · cases hpath

theorem rename_other {source target : String} (hs : name ≠ source) (ht : name ≠ target) :
    files.rename source target name = files name :=
  (Function.update_of_ne hs _ _).trans (Function.update_of_ne ht _ _)

theorem replaceFile_other (faults : ConcatFaults) {source target : String} (hs : name ≠ source)
    (ht : name ≠ target) : (replaceFile faults files source target).1 name = files name := by
  have hagain : ∀ files : Files,
      (replaceFile.renameAgain faults source target files).1 name = files name := by
    intro files
    unfold replaceFile.renameAgain
    split
    · rfl
    · exact rename_other hs ht
  unfold replaceFile
  split
  · exact rename_other hs ht
  · split
    · split
      · split
        · exact hagain files
        · rfl
      · exact (hagain _).trans (Function.update_of_ne ht _ _)
    · rfl

theorem concatInto_other (faults : ConcatFaults) (files : Files) (request : ConcatRequest)
    {temp target : String} (htemp : name ≠ temp) (htarget : name ≠ target) :
    (concatInto faults files request temp target).1 name = files name := by
  have hwrite : ∀ content, files.write temp content name = files name :=
    fun _ => Function.update_of_ne htemp _ _
  unfold concatInto
  obtain ⟨written, result⟩ := copyParts faults files 0 [] request.parts
  cases result with
  | error e => exact hwrite written
  | ok _ =>
    cases faults.sync with
    | some e => exact hwrite written
    | none => exact (replaceFile_other faults htemp htarget).trans (hwrite written)

/-- A concatenation touches its target and a temporary file that is no upload. -/
theorem concat_other (faults : ConcatFaults) (uuid : String) (files : Files)
    (request : ConcatRequest) (hname : isGeneratedKey name = true)
    (hne : name ≠ request.target.key) : (concat faults uuid files request).1 name = files name := by
  by_cases hkey : isGeneratedKey request.target.key = true
  · have htemp : name ≠ uniqueConcatTempPath request.target.key uuid := temp_ne hname hkey
    rw [concat, pathForHandle_ok hkey]
    cases faults.create with
    | some e => rfl
    | none =>
      refine (concatInto_other faults _ request htemp hne).trans ?_
      exact Function.update_of_ne htemp _ _
  · obtain ⟨e, he⟩ := pathForHandle_error hkey
    rw [concat, he]

theorem concatInto_handle (faults : ConcatFaults) (files : Files) (request : ConcatRequest)
    (temp target : String) :
    ∀ t, (concatInto faults files request temp target).2 = .ok t → t = request.target := by
  unfold concatInto
  obtain ⟨written, result⟩ := copyParts faults files 0 [] request.parts
  cases result with
  | error e => exact nofun
  | ok _ =>
    cases faults.sync with
    | some e => exact nofun
    | none =>
      intro t ht
      dsimp only at ht
      cases hres : (replaceFile faults (files.write temp written) temp target).2 with
      | error e =>
        rw [hres] at ht
        cases ht
      | ok _ =>
        rw [hres] at ht
        exact (Except.ok.inj ht).symm

theorem concat_handle (faults : ConcatFaults) (uuid : String) (request : ConcatRequest)
    {t : StorageHandle} (h : (concat faults uuid files request).2 = .ok t) : t = request.target := by
  unfold concat at h
  split at h
  · cases h
  · split at h
    · cases h
    · exact concatInto_handle faults _ request _ _ t h

/-- An append hands back the handle it was given. -/
theorem append_handle (faults : Faults) (request : AppendRequest) {t : StorageHandle}
    (h : (append faults files request).2 = .ok t) : t = request.handle := by
  unfold append at h
  split at h
  · cases h
  · split at h
    · cases h
    · cases h
    · split at h
      · cases h
      · split at h
        · cases h
        · cases h
        · next content _ _ =>
          change (appendOpened faults content request).2 = .ok t at h
          unfold appendOpened at h
          split at h
          · cases hsync : call faults.sync with
            | error e =>
              rw [hsync] at h
              cases h
            | ok _ =>
              rw [hsync] at h
              exact (Except.ok.inj h).symm
          · dsimp only at h
            split at h <;> cases h

end Others

end FileStorage

namespace System

/-! ## Backends -/

/-- The storages the repository provides; that of OpenDAL with the capabilities of its operator
and its key prefix. -/
inductive Backend where
  | memory
  | file
  | opendal (op : Opendal.Operator) (pre : String)

/-- The outcome of a read that is streamed. -/
def streamed : Except Error Streamed → Except Error Bytes
  | .ok (.ok bytes) => .ok bytes
  | .ok (.error e) => .error (.io e)
  | .error e => .error e

inductive MemoryCall : (o : ObjectOp) → MemoryStorage.Data → ObjectSig.Ans o →
    MemoryStorage.Data → Prop
  | create {data : MemoryStorage.Data} {id : String} :
      MemoryCall (.create id) data (.ok (MemoryStorage.create data id).2)
        (MemoryStorage.create data id).1
  | append {data : MemoryStorage.Data} {handle : StorageHandle} {offset : Nat}
      {body : ChunkStream} {completes : Bool} :
      MemoryCall (.append handle offset body completes) data
        (MemoryStorage.append data ⟨handle, offset, body⟩).2
        (MemoryStorage.append data ⟨handle, offset, body⟩).1
  | concat {data : MemoryStorage.Data} {target : StorageHandle} {sources : List StorageHandle} :
      MemoryCall (.concat target sources) data (MemoryStorage.concat data ⟨target, sources⟩).2
        (MemoryStorage.concat data ⟨target, sources⟩).1
  | delete {data : MemoryStorage.Data} {handle : StorageHandle} :
      MemoryCall (.delete handle) data (.ok ()) (MemoryStorage.delete data handle)
  | size {data : MemoryStorage.Data} {handle : StorageHandle} :
      MemoryCall (.size handle) data (.ok (MemoryStorage.size data handle)) data
  | stream {data : MemoryStorage.Data} {handle : StorageHandle} :
      MemoryCall (.stream handle) data (streamed (MemoryStorage.stream data handle)) data

/-- Any call on the file system may fail. The names in `used` were handed out before: `Uuid::new_v4`
gives one of them again only while its file is there. -/
inductive FileCall (used : String → Prop) : (o : ObjectOp) → FileStorage.Files → ObjectSig.Ans o →
    FileStorage.Files → Prop
  | create {files : FileStorage.Files} {id : String} {faults : FileStorage.CreateFaults}
      {uuid : Nat} :
      (used (FileStorage.newKey uuid) → files (FileStorage.newKey uuid) ≠ none) →
      FileCall used (.create id) files (FileStorage.create faults uuid files).2
        (FileStorage.create faults uuid files).1
  | append {files : FileStorage.Files} {handle : StorageHandle} {offset : Nat}
      {body : ChunkStream} {completes : Bool} {faults : FileStorage.Faults} :
      FileCall used (.append handle offset body completes) files
        (FileStorage.append faults files ⟨handle, offset, body⟩).2
        (FileStorage.append faults files ⟨handle, offset, body⟩).1
  | concat {files : FileStorage.Files} {target : StorageHandle} {sources : List StorageHandle}
      {faults : FileStorage.ConcatFaults} {uuid : Nat} :
      FileCall used (.concat target sources) files
        (FileStorage.concat faults (String.ofList (uuidSimple uuid)) files ⟨target, sources⟩).2
        (FileStorage.concat faults (String.ofList (uuidSimple uuid)) files ⟨target, sources⟩).1
  | delete {files : FileStorage.Files} {handle : StorageHandle} {fault : Option IoError} :
      FileCall used (.delete handle) files (FileStorage.delete fault files handle).2
        (FileStorage.delete fault files handle).1
  | size {files : FileStorage.Files} {handle : StorageHandle} {fault : Option IoError} :
      FileCall used (.size handle) files (FileStorage.size fault files handle) files
  | stream {files : FileStorage.Files} {handle : StorageHandle}
      {faults : FileStorage.ReadFaults} :
      FileCall used (.stream handle) files (streamed (FileStorage.stream faults files handle)) files

/-- The method of the OpenDAL storage as a program. -/
def opendalMethod (op : Opendal.Operator) (pre : String) :
    (o : ObjectOp) → Prog Opendal.UploadsSig (ObjectSig.Ans o)
  | .create id => Opendal.create pre id
  | .append handle offset body completes => Opendal.appendTo op handle offset body completes
  | .concat target sources => Opendal.concat op ⟨target, sources⟩
  | .delete handle => Opendal.within handle.key Opendal.deleteAll
  | .size handle => Opendal.within handle.key Opendal.size
  | .stream handle => Opendal.within handle.key (Opendal.stream (op.upload handle.key))

namespace Backend

def Data : Backend → Type
  | .memory => MemoryStorage.Data
  | .file => FileStorage.Files
  | .opendal _ _ => Opendal.Uploads

/-- What a call may answer and do; `faults` lets the calls of an OpenDAL store fail. -/
def Call (faults : Prop) (used : String → Prop) :
    (b : Backend) → (o : ObjectOp) → b.Data → ObjectSig.Ans o → b.Data → Prop
  | .memory => MemoryCall
  | .file => FileCall used
  | .opendal op pre => fun o ws r ws' =>
    ∃ hist, Exec ((Opendal.store faults).each String) 0 (opendalMethod op pre o) ⟨ws, []⟩ (some r)
      ⟨ws', hist⟩

/-- The stored bytes of an upload: an object that the backend holds under the upload's key, and
its content. Only the OpenDAL storage has objects besides the main one, the staged parts. -/
def Held : (b : Backend) → b.Data → String → Opendal.Key → Bytes → Prop
  | .memory, data, key, k, bytes => k = .main ∧ data key = some bytes
  | .file, files, key, k, bytes => k = .main ∧ files key = some bytes
  | .opendal _ _, ws, key, k, bytes => Opendal.Stored k ∧ (ws key).objects.lookup k = some bytes

/-- Something is stored under the key. -/
def HasBytes (b : Backend) (d : b.Data) (key : String) : Prop := ∃ k bytes, b.Held d key k bytes

/-- What is stored under the key is the same. -/
def SameBytes (b : Backend) (d d' : b.Data) (key : String) : Prop :=
  ∀ k bytes, b.Held d' key k bytes ↔ b.Held d key k bytes

section Bytes

variable {b : Backend} {d d' : b.Data} {key : String}

theorem SameBytes.refl (d : b.Data) (key : String) : b.SameBytes d d key := fun _ _ => Iff.rfl

/-- Where nothing is stored before and after, the same is stored. -/
theorem SameBytes.of_empty (h : ¬b.HasBytes d key) (h' : ¬b.HasBytes d' key) :
    b.SameBytes d d' key :=
  fun k bytes => ⟨fun hheld => absurd ⟨k, bytes, hheld⟩ h', fun hheld => absurd ⟨k, bytes, hheld⟩ h⟩

theorem SameBytes.hasBytes (h : b.SameBytes d d' key) : b.HasBytes d' key ↔ b.HasBytes d key :=
  ⟨fun ⟨k, bytes, hheld⟩ => ⟨k, bytes, (h k bytes).1 hheld⟩,
    fun ⟨k, bytes, hheld⟩ => ⟨k, bytes, (h k bytes).2 hheld⟩⟩

theorem file_same {files files' : FileStorage.Files} (h : files' key = files key) :
    Backend.file.SameBytes files files' key := by
  intro k bytes
  show k = .main ∧ files' key = some bytes ↔ k = .main ∧ files key = some bytes
  rw [h]

theorem memory_empty {data : MemoryStorage.Data} (h : data key = none) :
    ¬Backend.memory.HasBytes data key := by
  rintro ⟨k, bytes, -, hheld⟩
  cases h.symm.trans hheld

theorem opendal_hasBytes {op : Opendal.Operator} {pre : String} {ws : Opendal.Uploads} :
    (Backend.opendal op pre).HasBytes ws key ↔ Opendal.HasBytes (ws key) :=
  exists_congr fun _ => exists_and_left.trans (and_congr_right fun _ => Option.ne_none_iff_exists'.symm)

end Bytes

/-! ## The handles of an upload -/

/-- The handle of an upload with this id: one that the backend made for the id, and handed back
after appends to it and concatenations into it. -/
inductive Handed (used : String → Prop) (b : Backend) (id : String) : StorageHandle → Prop
  | created {faults : Prop} {used' : String → Prop} {d d' : b.Data} {h : StorageHandle} :
      b.Call faults used' (.create id) d (.ok h) d' → used h.key → Handed used b id h
  | appended {faults : Prop} {used' : String → Prop} {d d' : b.Data} {h h' : StorageHandle}
      {offset : Nat} {body : ChunkStream} {completes : Bool} : Handed used b id h →
      b.Call faults used' (.append h offset body completes) d (.ok h') d' → Handed used b id h'
  | joined {faults : Prop} {used' : String → Prop} {d d' : b.Data} {h h' : StorageHandle}
      {sources : List StorageHandle} : Handed used b id h →
      b.Call faults used' (.concat h sources) d (.ok h') d' → Handed used b id h'

/-- The key of an upload: it is derived from the id, or a name that was handed out. -/
def KeyFor (used : String → Prop) : Backend → String → String → Prop
  | .memory, id, key => key = "memory://" ++ id
  | .file, _, key => FileStorage.isGeneratedKey key = true ∧ used key
  | .opendal _ pre, id, key => key = Opendal.uploadKey pre id

section Handles

variable {faults : Prop} {used used' : String → Prop} {b : Backend} {id : String}
  {op : Opendal.Operator} {pre : String}

/-- What a specification says of the complete runs of a method. -/
theorem opendal_call {o : ObjectOp} {ws ws' : Opendal.Uploads} {r : ObjectSig.Ans o}
    {P : Opendal.Uploads → Prop} {Q : ObjectSig.Ans o → Opendal.Uploads → Prop}
    (hcall : (Backend.opendal op pre).Call faults used o ws r ws')
    (hspec : Triple ((Opendal.store faults).each String) (fun _ => True) Alone 0 P
      (opendalMethod op pre o) Q) (hP : P ws) : Q r ws' := by
  obtain ⟨hist, he⟩ := hcall
  exact (hspec.exec trivial hP he).2 r rfl

/-- What holds of the result of a method whatever the store answers. -/
theorem opendal_yields {o : ObjectOp} {ws ws' : Opendal.Uploads} {r : ObjectSig.Ans o}
    {A : ObjectSig.Ans o → Prop} (hcall : (Backend.opendal op pre).Call faults used o ws r ws')
    (hA : (opendalMethod op pre o).Yields A) : A r := by
  have hany : Triple ((Opendal.store faults).each String) (fun _ => True) Alone 0 (fun _ => True)
      (opendalMethod op pre o) fun _ _ => True :=
    Triple.keep (stable_alone _) (fun _ _ _ _ _ _ _ _ => ⟨safe_alone trivial, trivial⟩)
      (Prog.ops_trivial _ fun _ => trivial)
  exact (opendal_call hcall (hany.yields hA) trivial).2

theorem opendal_concat_handle (request : FileStorage.ConcatRequest) :
    (Opendal.concat op request).Returns fun t => t = request.target :=
  Attempt.Returns.bind (.trivial _) fun _ _ => Attempt.Returns.bind (.trivial _) fun _ _ =>
    .pure rfl

/-- Every method that hands back a handle keeps the key. -/
theorem append_key {h h' : StorageHandle} {offset : Nat} {body : ChunkStream} {completes : Bool}
    {d d' : b.Data} (hcall : b.Call faults used (.append h offset body completes) d (.ok h') d') :
    h'.key = h.key := by
  generalize hr : Except.ok h' = r at hcall
  cases b with
  | memory =>
    cases hcall with
    | append => rw [MemoryStorage.append_handle _ _ hr.symm]
  | file =>
    cases hcall with
    | append => rw [FileStorage.append_handle _ _ hr.symm]
  | opendal op pre =>
    subst hr
    have hkey : (Opendal.appendTo op h offset body completes).Returns fun t => t.key = h.key :=
      Attempt.Returns.bind (.trivial _) fun facts _ => .pure (Opendal.write_key facts h)
    exact opendal_yields hcall hkey h' rfl

theorem concat_handle {h h' : StorageHandle} {sources : List StorageHandle} {d d' : b.Data}
    (hcall : b.Call faults used (.concat h sources) d (.ok h') d') : h' = h := by
  generalize hr : Except.ok h' = r at hcall
  cases b with
  | memory =>
    cases hcall with
    | concat => exact MemoryStorage.concat_handle _ _ hr.symm
  | file =>
    cases hcall with
    | concat => exact FileStorage.concat_handle _ _ _ hr.symm
  | opendal op pre =>
    subst hr
    exact opendal_yields hcall (opendal_concat_handle ⟨h, sources⟩) h' rfl

theorem create_key {h : StorageHandle} {d d' : b.Data}
    (hcall : b.Call faults used' (.create id) d (.ok h) d') (hused : used h.key) :
    b.KeyFor used id h.key := by
  generalize hr : Except.ok h = r at hcall
  cases b with
  | memory =>
    cases hcall with
    | create =>
      obtain rfl := Except.ok.inj hr
      rfl
  | file =>
    cases hcall with
    | create => exact ⟨FileStorage.create_generated _ _ hr.symm, hused⟩
  | opendal op pre =>
    subst hr
    exact opendal_yields hcall (Opendal.create_key pre id) h rfl

theorem Handed.key {h : StorageHandle} (hhanded : b.Handed used id h) :
    b.KeyFor used id h.key := by
  induction hhanded with
  | created hcall hused => exact create_key hcall hused
  | appended _ hcall ih => rwa [append_key hcall]
  | joined _ hcall ih => rwa [concat_handle hcall]

end Handles

/-! ## A creation that is taken back -/

/-- What the calls of a storage may answer and do. -/
abbrev Calls (D : Type) := (o : ObjectOp) → D → ObjectSig.Ans o → D → Prop

/-- The storage calls of a creation that fails, over any storage: `T` holds with the object of
the new upload, `J` once its parts are put together in it, and `E` or `F` after the object was
deleted again. -/
structure Passage {D : Type} (call : Calls D) (id : String) (d₀ : D)
    (T J : StorageHandle → D → Prop) (E F : D → Prop) : Prop where
  created : ∀ t d, call (.create id) d₀ (.ok t) d → T t d
  refused : ∀ e d, call (.create id) d₀ (.error e) d → E d
  joined : ∀ t sources d t' d', T t d → call (.concat t sources) d (.ok t') d' → J t' d'
  cut : ∀ t sources d e d', T t d → call (.concat t sources) d (.error e) d' → T t d'
  deleted : ∀ t d r d', T t d → call (.delete t) d r d' → E d'
  removed : ∀ t d r d', J t d → call (.delete t) d r d' → F d'

/-- Nothing is said of the data. -/
theorem anyway {D : Type} (call : Calls D) (id : String) (d₀ : D) :
    Passage call id d₀ (fun _ _ => True) (fun _ _ => True) (fun _ => True) fun _ => True :=
  ⟨fun _ _ _ => trivial, fun _ _ _ => trivial, fun _ _ _ _ _ _ _ => trivial,
    fun _ _ _ _ _ _ _ => trivial, fun _ _ _ _ _ _ => trivial, fun _ _ _ _ _ _ => trivial⟩

section Passages

variable {faults : Prop} {used : String → Prop} {id key : String} {op : Opendal.Operator}
  {pre : String}

/-- The new upload has another file. -/
theorem file_spares {files : FileStorage.Files} (hkey : Backend.file.KeyFor used id key) :
    Passage (Backend.file.Call faults used) id files
      (fun t files' => t.key ≠ key ∧ files' key = files key)
      (fun t files' => t.key ≠ key ∧ files' key = files key)
      (fun files' => files' key = files key) (fun files' => files' key = files key) where
  created t d hcall := by
    generalize hr : Except.ok t = r at hcall
    cases hcall with
    | @create _ _ faults uuid hnew =>
      have hfresh : key = FileStorage.newKey uuid → files key ≠ none := by
        rintro rfl
        exact hnew hkey.2
      obtain ⟨hkept, hne⟩ := FileStorage.create_other faults uuid hfresh
      exact ⟨hne t hr.symm, hkept⟩
  refused e d hcall := by
    generalize hr : Except.error e = r at hcall
    cases hcall with
    | @create _ _ faults uuid hnew =>
      refine (FileStorage.create_other faults uuid ?_).1
      rintro rfl
      exact hnew hkey.2
  joined t sources d t' d' hT hcall := by
    obtain rfl := concat_handle (b := .file) hcall
    generalize Except.ok t' = r at hcall
    cases hcall with
    | concat =>
      exact ⟨hT.1, (FileStorage.concat_other _ _ d ⟨t', sources⟩ hkey.1 hT.1.symm).trans hT.2⟩
  cut t sources d e d' hT hcall := by
    generalize Except.error e = r at hcall
    cases hcall with
    | concat =>
      exact ⟨hT.1, (FileStorage.concat_other _ _ d ⟨t, sources⟩ hkey.1 hT.1.symm).trans hT.2⟩
  deleted t d r d' hT hcall := by
    cases hcall with
    | delete => exact (FileStorage.delete_other _ hT.1.symm).trans hT.2
  removed t d r d' hT hcall := by
    cases hcall with
    | delete => exact (FileStorage.delete_other _ hT.1.symm).trans hT.2

/-- The new upload has the same key, and its entry is removed. -/
theorem memory_wipes {data : MemoryStorage.Data} (hkey : Backend.memory.KeyFor used id key) :
    Passage (Backend.memory.Call faults used) id data (fun t _ => t.key = key)
      (fun t _ => t.key = key) (fun data' => ¬Backend.memory.HasBytes data' key)
      (fun data' => ¬Backend.memory.HasBytes data' key) where
  created t d hcall := by
    generalize hr : Except.ok t = r at hcall
    cases hcall with
    | create =>
      obtain rfl := Except.ok.inj hr
      exact hkey.symm
  refused e d hcall := by cases hcall
  joined t sources d t' d' hT hcall := by
    obtain rfl := concat_handle (b := .memory) hcall
    exact hT
  cut t sources d e d' hT _ := hT
  deleted t d r d' hT hcall := by
    cases hcall with
    | delete => exact memory_empty (hT ▸ Function.update_self _ _ _)
  removed t d r d' hT hcall := by
    cases hcall with
    | delete => exact memory_empty (hT ▸ Function.update_self _ _ _)

/-- Without failures nothing is left under the key of the new upload. -/
theorem opendal_wipes {ws : Opendal.Uploads} (hkey : (Backend.opendal op pre).KeyFor used id key) :
    Passage ((Backend.opendal op pre).Call False used) id ws (fun t _ => t.key = key)
      (fun t _ => t.key = key) (fun ws' => ¬(Backend.opendal op pre).HasBytes ws' key)
      (fun ws' => ¬(Backend.opendal op pre).HasBytes ws' key) := by
  have hdelete : ∀ t d r d', t.key = key →
      (Backend.opendal op pre).Call False used (.delete t) d r d' →
      ¬(Backend.opendal op pre).HasBytes d' key := by
    rintro t d r d' rfl hcall
    have hspec := Triple.each Opendal.deleteAll_healthy t.key d
    obtain ⟨-, -, hgone⟩ := opendal_call hcall hspec ⟨⟨trivial, fun _ _ => rfl⟩, trivial⟩
    rintro ⟨k, bytes, hk, hheld⟩
    cases (hgone k hk).symm.trans hheld
  refine ⟨fun t d hcall => ?_, fun e d hcall => ?_, fun t sources d t' d' hT hcall => ?_,
    fun _ _ _ _ _ hT _ => hT, hdelete, hdelete⟩
  · exact (opendal_yields hcall (Opendal.create_key pre id) t rfl).trans hkey.symm
  · obtain ⟨_, ht, -⟩ := opendal_call hcall (Opendal.create_healthy pre id) trivial
    cases ht
  · obtain rfl := concat_handle (b := .opendal op pre) hcall
    exact hT

/-- Only a concatenation stores bytes under a key that had none. -/
theorem opendal_empty {ws : Opendal.Uploads} (h : ¬Opendal.HasBytes (ws key)) :
    Passage ((Backend.opendal op pre).Call faults used) id ws
      (fun _ ws' => ¬Opendal.HasBytes (ws' key)) (fun _ _ => True)
      (fun ws' => ¬Opendal.HasBytes (ws' key)) (fun _ => True) where
  created _ _ hcall := opendal_call hcall (Opendal.create_empty pre id) h
  refused _ _ hcall := opendal_call hcall (Opendal.create_empty pre id) h
  joined _ _ _ _ _ _ _ := trivial
  cut t sources d e d' hT hcall :=
    opendal_call hcall (Opendal.concat_empty op ⟨t, sources⟩) hT ⟨e, rfl⟩
  deleted t d r d' hT hcall := opendal_call hcall (Opendal.delete_empty t.key) hT
  removed _ _ _ _ _ _ := trivial

/-- The calls of a storage in which nothing is deleted. -/
def Undeleting {D : Type} (call : Calls D) (o : ObjectOp) (d : D) (r : ObjectSig.Ans o)
    (d' : D) : Prop :=
  call o d r d' ∧ ((∃ t, o = .delete t) → d' = d)

/-- What is put together under the key stays there when it cannot be deleted. -/
theorem opendal_left {ws : Opendal.Uploads} (hkey : (Backend.opendal op pre).KeyFor used id key) :
    Passage (Undeleting ((Backend.opendal op pre).Call faults used)) id ws (fun t _ => t.key = key)
      (fun _ ws' => Opendal.HasBytes (ws' key)) (fun _ => True)
      (fun ws' => Opendal.HasBytes (ws' key)) where
  created t d hcall := (opendal_yields hcall.1 (Opendal.create_key pre id) t rfl).trans hkey.symm
  refused _ _ _ := trivial
  joined t sources d t' d' hT hcall :=
    hT ▸ opendal_call hcall.1 (Opendal.concat_stores op ⟨t, sources⟩) trivial ⟨t', rfl⟩
  cut _ _ _ _ _ hT _ := hT
  deleted _ _ _ _ _ _ := trivial
  removed t d r d' hJ hcall := by
    obtain rfl := hcall.2 ⟨t, rfl⟩
    exact hJ

end Passages

/-! ## Calls that can be made -/

section Enabled

variable {faults : Prop} {used : String → Prop}

/-- Without failures every call of the two storages whose keys are derived from ids can be
made. -/
theorem call_enabled {b : Backend} (hb : b ≠ .file) (o : ObjectOp) (d : b.Data) :
    ∃ r d', b.Call False used o d r d' := by
  cases b with
  | memory =>
    cases o with
    | create id => exact ⟨_, _, MemoryCall.create⟩
    | append _ _ _ _ => exact ⟨_, _, MemoryCall.append⟩
    | concat _ _ => exact ⟨_, _, MemoryCall.concat⟩
    | delete _ => exact ⟨_, _, MemoryCall.delete⟩
    | size _ => exact ⟨_, _, MemoryCall.size⟩
    | stream _ => exact ⟨_, _, MemoryCall.stream⟩
  | file => exact absurd rfl hb
  | opendal op pre =>
    obtain ⟨r, s', he⟩ := Exec.exists_done (M := (Opendal.store False).each String)
      (Machine.each_enabled Opendal.healthy_enabled) (opendalMethod op pre o) ⟨d, []⟩
    exact ⟨r, s'.world, s'.hist, he⟩

/-- What can be done without failures can be done. -/
theorem Call.mono {b : Backend} {o : ObjectOp} {d d' : b.Data} {r : ObjectSig.Ans o}
    (h : b.Call False used o d r d') : b.Call faults used o d r d' := by
  cases b with
  | memory => exact h
  | file => exact h
  | opendal op pre =>
    obtain ⟨hist, he⟩ := h
    have hsim : ∀ o ws a ws' vs, ws = vs → ((Opendal.store False).each String).exec 0 o ws a ws' →
        ∃ vs', ((Opendal.store faults).each String).exec 0 o vs a vs' ∧ ws' = vs' := by
      rintro o ws a _ _ rfl ⟨v, hv, rfl⟩
      exact ⟨_, ⟨v, Opendal.StoreExec.mono hv, rfl⟩, rfl⟩
    obtain ⟨⟨ws', hist'⟩, hx, hw⟩ := he.simulate hsim (x := ⟨d, []⟩) rfl
    obtain rfl : d' = ws' := hw
    exact ⟨hist', hx⟩

/-- A store that may fail need not delete anything. -/
theorem undeleting_enabled {op : Opendal.Operator} {pre : String} (hf : faults) (o : ObjectOp)
    (ws : Opendal.Uploads) :
    ∃ r ws', Undeleting ((Backend.opendal op pre).Call faults used) o ws r ws' := by
  by_cases ho : ∃ t, o = .delete t
  · obtain ⟨t, rfl⟩ := ho
    -- the first delete of the store is refused
    have hfail : ((Opendal.store faults).each String).exec 0 (t.key, .delete .complete) ws
        (.error (.other "")) ws :=
      ⟨ws t.key, .deleteFailed hf, (Function.update_eq_self _ _).symm⟩
    exact ⟨_, _, ⟨_, .step hfail (.done _ _)⟩, fun _ => rfl⟩
  · have hb : Backend.opendal op pre ≠ .file := nofun
    obtain ⟨r, ws', hcall⟩ : ∃ r ws', (Backend.opendal op pre).Call False used o ws r ws' :=
      call_enabled hb o ws
    exact ⟨r, ws', hcall.mono, fun h => absurd h ho⟩

end Enabled

end Backend

end System

end TusRs
