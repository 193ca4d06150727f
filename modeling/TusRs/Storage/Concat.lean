import TusRs.Storage.File

/-!
# Concatenating files

`FileStorage::concat` of `tus-protocol/src/storage/file.rs`: the parts are copied into a
temporary file, which is renamed over the target. `ConcatFaults` says which calls of one
concatenation fail. Nothing removes the temporary file when a later call fails.

Result:

* `concat_all_or_nothing_iff`: a concatenation leaves the directory as it was or replaces
  exactly the target, unless a call fails after the temporary file was created.
-/

namespace TusRs

open Protocol

namespace FileStorage

/-- The failures of the calls of one concatenation. `copy i` is that of the copy of the
`i`-th part, with the number of bytes that still reach the temporary file; `remove` and
`renameAgain` are the calls of `replace_file` after a first rename that failed. -/
structure ConcatFaults where
  create : Option IoError
  openPart : Nat → Option IoError
  copy : Nat → Option (Nat × IoError)
  sync : Option IoError
  rename : Option IoError
  remove : Option IoError
  renameAgain : Option IoError

/-- The error of kind `PermissionDenied`. -/
def permissionDenied : IoError := .other "permission denied"

/-- `unique_concat_temp_path`. -/
def uniqueConcatTempPath (target uuid : String) : String := target ++ "." ++ uuid ++ ".concat.tmp"

namespace Files

/-- `File::create`, and writing to the file it opened. -/
def write (files : Files) (name : String) (content : Bytes) : Files :=
  Function.update files name (some content)

/-- `fs::remove_file`. -/
def remove (files : Files) (name : String) : Files := Function.update files name none

/-- `fs::rename` replaces the target. -/
def rename (files : Files) (source target : String) : Files :=
  Files.remove (Function.update files target (files source)) source

end Files

/-- The loop over the parts, from the `i`-th on: what the temporary file then holds, and the
result. -/
def copyParts (faults : ConcatFaults) (files : Files) :
    Nat → Bytes → List StorageHandle → Bytes × Except Error Unit
  | _, written, [] => (written, .ok ())
  | i, written, part :: parts =>
    match pathForHandle part with
    | .error e => (written, .error e)
    | .ok path => match faults.openPart i, files path with
      | some e, _ => (written, .error (.io e))
      | none, none => (written, .error (.io .notFound))
      | none, some content => match faults.copy i with
        | some (n, e) => (written ++ content.take n, .error (.io e))
        | none => copyParts faults files (i + 1) (written ++ content) parts

/-- `replace_file`. -/
def replaceFile (faults : ConcatFaults) (files : Files) (source target : String) :
    Files × Except Error Unit :=
  match faults.rename with
  | none => (files.rename source target, .ok ())
  | some e =>
    if e = .alreadyExists ∨ e = permissionDenied then
      match faults.remove with
      | some e =>
        if e = .notFound then renameAgain files else (files, .error (.io e))
      | none => renameAgain (files.remove target)
    else (files, .error (.io e))
where
  renameAgain (files : Files) : Files × Except Error Unit :=
    match faults.renameAgain with
    | some e => (files, .error (.io e))
    | none => (files.rename source target, .ok ())

/-- `ConcatRequest`. -/
structure ConcatRequest where
  target : StorageHandle
  parts : List StorageHandle

/-- The calls of `FileStorage::concat` after the temporary file was created. -/
def concatInto (faults : ConcatFaults) (files : Files) (request : ConcatRequest)
    (temp target : String) : Files × Except Error StorageHandle :=
  match copyParts faults files 0 [] request.parts with
  | (written, .error e) => (files.write temp written, .error e)
  | (written, .ok _) => match faults.sync with
    | some e => (files.write temp written, .error (.io e))
    | none =>
      let (files, result) := replaceFile faults (files.write temp written) temp target
      (files, result.map fun _ => request.target)

/-- `FileStorage::concat` with a fresh `uuid`. Syncing the directory decides nothing. -/
def concat (faults : ConcatFaults) (uuid : String) (files : Files) (request : ConcatRequest) :
    Files × Except Error StorageHandle :=
  match pathForHandle request.target with
  | .error e => (files, .error e)
  | .ok target => match faults.create with
    | some e => (files, .error (.io e))
    | none =>
      let temp := uniqueConcatTempPath target uuid
      concatInto faults (files.write temp []) request temp target

/-! ## All or nothing -/

/-- What a concatenation should do: nothing when it fails; otherwise the target holds the
parts in order and every other file, the parts among them, is as it was. -/
structure AllOrNothing (files : Files) (request : ConcatRequest)
    (outcome : Files × Except Error StorageHandle) : Prop where
  error : ∀ e, outcome.2 = .error e → outcome.1 = files
  success : ∀ h, outcome.2 = .ok h → ∃ contents : List Bytes,
    request.parts.mapM (fun part => files part.key) = some contents ∧
    outcome.1 = Function.update files request.target.key (some contents.flatten)

/-- From the `i`-th part on every part is there and is copied. -/
def ConcatFaults.Copies (faults : ConcatFaults) (files : Files) : Nat → List StorageHandle → Prop
  | _, [] => True
  | i, part :: parts => isGeneratedKey part.key = true ∧ faults.openPart i = none ∧
    files part.key ≠ none ∧ faults.copy i = none ∧ faults.Copies files (i + 1) parts

/-- One of the two renames goes through. -/
def ConcatFaults.Replaces (faults : ConcatFaults) : Prop :=
  faults.rename = none ∨
    (faults.rename = some .alreadyExists ∨ faults.rename = some permissionDenied) ∧
      (faults.remove = none ∨ faults.remove = some .notFound) ∧ faults.renameAgain = none

/-- The temporary file is created and a later call fails. -/
structure FailsLate (faults : ConcatFaults) (files : Files) (request : ConcatRequest) : Prop where
  key : isGeneratedKey request.target.key = true
  create : faults.create = none
  later : ¬(faults.Copies files 0 request.parts ∧ faults.sync = none ∧ faults.Replaces)

section Contract

variable {faults : ConcatFaults} {files : Files} {request : ConcatRequest} {temp target : String}

theorem length_of_generatedKey {key : String} (h : isGeneratedKey key = true) :
    key.toList.length = 39 := by
  unfold isGeneratedKey at h
  simp only [Bool.and_eq_true, decide_eq_true_eq] at h
  have hdrop := congrArg List.length h.2
  rw [List.length_drop] at hdrop
  have htake := h.1.1
  rw [List.length_take] at htake
  have hsuffix : (".upload".toList).length = 7 := rfl
  omega

/-- The temporary file is no upload. -/
theorem temp_ne {key target uuid : String} (hkey : isGeneratedKey key = true)
    (htarget : isGeneratedKey target = true) : key ≠ uniqueConcatTempPath target uuid := by
  intro h
  have hlen := congrArg (fun s => s.toList.length) h
  simp only [uniqueConcatTempPath, String.toList_append, List.length_append,
    length_of_generatedKey hkey, length_of_generatedKey htarget] at hlen
  have hsuffix : (".concat.tmp".toList).length = 11 := rfl
  omega

theorem pathForHandle_ok {handle : StorageHandle} (h : isGeneratedKey handle.key = true) :
    pathForHandle handle = .ok handle.key := if_pos h

theorem pathForHandle_error {handle : StorageHandle} (h : ¬isGeneratedKey handle.key = true) :
    ∃ e, pathForHandle handle = .error e := ⟨_, if_neg h⟩

/-- The loop succeeds when every part is there and is copied. -/
theorem copyParts_ok_iff (i : Nat) (written : Bytes) (parts : List StorageHandle) :
    (copyParts faults files i written parts).2 = .ok () ↔ faults.Copies files i parts := by
  induction parts generalizing i written with
  | nil => exact ⟨fun _ => trivial, fun _ => rfl⟩
  | cons part parts ih =>
    unfold copyParts
    by_cases hkey : isGeneratedKey part.key = true
    case neg =>
      obtain ⟨e, he⟩ := pathForHandle_error hkey
      rw [he]
      exact ⟨nofun, fun h => absurd h.1 hkey⟩
    rw [pathForHandle_ok hkey]
    dsimp only
    split
    · next e _ he => exact ⟨nofun, fun h => nomatch he.symm.trans h.2.1⟩
    · next hnone => exact ⟨nofun, fun h => absurd hnone h.2.2.1⟩
    · next content hopen hcontent =>
      split
      · next n e hcopy => exact ⟨nofun, fun h => nomatch hcopy.symm.trans h.2.2.2.1⟩
      · next hcopy =>
        refine (ih _ _).trans ⟨fun h => ⟨hkey, hopen, ?_, hcopy, h⟩, fun h => h.2.2.2.2⟩
        rw [hcontent]
        exact Option.some_ne_none _

theorem copyParts_content {i : Nat} (written : Bytes) {parts : List StorageHandle}
    (h : faults.Copies files i parts) :
    ∃ contents : List Bytes, parts.mapM (fun part => files part.key) = some contents ∧
      (copyParts faults files i written parts).1 = written ++ contents.flatten := by
  induction parts generalizing i written with
  | nil => exact ⟨[], rfl, (List.append_nil written).symm⟩
  | cons part parts ih =>
    obtain ⟨hkey, hopen, hthere, hcopy, hrest⟩ := h
    obtain ⟨content, hcontent⟩ := Option.ne_none_iff_exists'.mp hthere
    obtain ⟨contents, hcontents, hwritten⟩ := ih (written ++ content) hrest
    refine ⟨content :: contents, ?_, ?_⟩
    · simp [hcontent, hcontents]
    · unfold copyParts
      rw [pathForHandle_ok hkey]
      dsimp only
      rw [hopen, hcontent]
      dsimp only
      rw [hcopy]
      dsimp only
      rw [hwritten, List.flatten_cons, List.append_assoc]

theorem copies_write {uuid : String} (htarget : isGeneratedKey target = true) (content : Bytes)
    (i : Nat) (parts : List StorageHandle) :
    faults.Copies (files.write (uniqueConcatTempPath target uuid) content) i parts ↔
      faults.Copies files i parts := by
  induction parts generalizing i with
  | nil => exact Iff.rfl
  | cons part parts ih =>
    refine and_congr_right fun hkey => and_congr_right fun _ => ?_
    have hsame : files.write (uniqueConcatTempPath target uuid) content part.key = files part.key :=
      Function.update_of_ne (temp_ne hkey htarget) _ _
    rw [hsame, ih]

theorem mapM_write {uuid : String} (htarget : isGeneratedKey target = true) (content : Bytes)
    {i : Nat} {parts : List StorageHandle} (h : faults.Copies files i parts) :
    parts.mapM (fun part => files.write (uniqueConcatTempPath target uuid) content part.key) =
      parts.mapM fun part => files part.key := by
  induction parts generalizing i with
  | nil => rfl
  | cons part parts ih =>
    obtain ⟨hkey, -, -, -, hrest⟩ := h
    have hsame : files.write (uniqueConcatTempPath target uuid) content part.key = files part.key :=
      Function.update_of_ne (temp_ne hkey htarget) _ _
    rw [List.mapM_cons, List.mapM_cons, hsame, ih hrest]

theorem replaceFile_ok_iff :
    (replaceFile faults files temp target).2 = .ok () ↔ faults.Replaces := by
  have hagain : ∀ files, (replaceFile.renameAgain faults temp target files).2 = .ok () ↔
      faults.renameAgain = none := by
    intro files
    unfold replaceFile.renameAgain
    cases faults.renameAgain <;> simp
  unfold replaceFile ConcatFaults.Replaces
  cases faults.rename with
  | none => simp
  | some e =>
    simp only [reduceCtorEq, Option.some.injEq, false_or]
    split
    · next hkind =>
      cases faults.remove with
      | none => simp [hagain, hkind]
      | some e' =>
        dsimp only
        split
        · next hgone => simp [hagain, hkind, hgone]
        · next hgone => simp [hkind, hgone]
    · next hkind => simp [hkind]

/-- A replacement that succeeds is a rename. -/
theorem replaceFile_ok (hne : temp ≠ target)
    (h : (replaceFile faults files temp target).2 = .ok ()) :
    (replaceFile faults files temp target).1 = files.rename temp target := by
  have hagain : ∀ files : Files,
      (replaceFile.renameAgain faults temp target files).2 = .ok () →
      (replaceFile.renameAgain faults temp target files).1 = files.rename temp target := by
    intro files h
    unfold replaceFile.renameAgain at h ⊢
    cases hr : faults.renameAgain with
    | none => rfl
    | some e => rw [hr] at h; cases h
  have hremoved : (files.remove target).rename temp target = files.rename temp target := by
    unfold Files.rename Files.remove
    rw [Function.update_idem, Function.update_of_ne hne]
  unfold replaceFile at h ⊢
  cases hr : faults.rename with
  | none => rfl
  | some e =>
    simp only [hr] at h ⊢
    split
    · next hkind =>
      rw [if_pos hkind] at h
      cases hd : faults.remove with
      | none =>
        simp only [hd] at h ⊢
        rw [hagain _ h, hremoved]
      | some e' =>
        simp only [hd] at h ⊢
        split
        · next hgone =>
          rw [if_pos hgone] at h
          exact hagain _ h
        · next hgone => rw [if_neg hgone] at h; cases h
    · next hkind => rw [if_neg hkind] at h; cases h

/-- A replacement that fails leaves the temporary file. -/
theorem replaceFile_error (hne : temp ≠ target) {e : Error}
    (h : (replaceFile faults files temp target).2 = .error e) :
    (replaceFile faults files temp target).1 temp = files temp := by
  have hagain : ∀ files : Files, (replaceFile.renameAgain faults temp target files).2 = .error e →
      (replaceFile.renameAgain faults temp target files).1 = files := by
    intro files h
    unfold replaceFile.renameAgain at h ⊢
    cases hr : faults.renameAgain with
    | none => rw [hr] at h; cases h
    | some e => rfl
  unfold replaceFile at h ⊢
  cases hr : faults.rename with
  | none => rw [hr] at h; cases h
  | some e' =>
    simp only [hr] at h ⊢
    split
    · next hkind =>
      rw [if_pos hkind] at h
      cases hd : faults.remove with
      | none =>
        simp only [hd] at h ⊢
        rw [hagain _ h]
        exact Function.update_of_ne hne _ _
      | some e'' =>
        simp only [hd] at h ⊢
        split
        · next hgone =>
          rw [if_pos hgone] at h
          rw [hagain _ h]
        · rfl
    · rfl

/-- A late failure leaves the temporary file. -/
theorem concatInto_error (hne : temp ≠ target) {e : Error}
    (h : (concatInto faults files request temp target).2 = .error e) :
    (concatInto faults files request temp target).1 temp ≠ none := by
  have hwritten : ∀ content, files.write temp content temp ≠ none := by
    intro content
    rw [Files.write, Function.update_self]
    exact Option.some_ne_none _
  unfold concatInto at h ⊢
  cases hcopy : copyParts faults files 0 [] request.parts with
  | mk written result =>
    cases result with
    | error e => exact hwritten written
    | ok _ =>
      simp only [hcopy] at h ⊢
      cases hsync : faults.sync with
      | some e => exact hwritten written
      | none =>
        simp only [hsync] at h ⊢
        cases hreplace : (replaceFile faults (files.write temp written) temp target).2 with
        | ok _ => rw [hreplace] at h; cases h
        | error e =>
          rw [replaceFile_error hne hreplace]
          exact hwritten written

theorem concatInto_ok_iff :
    (concatInto faults files request temp target).2 = .ok request.target ↔
      faults.Copies files 0 request.parts ∧ faults.sync = none ∧ faults.Replaces := by
  have hcopies : (copyParts faults files 0 [] request.parts).2 = .ok () ↔ _ :=
    copyParts_ok_iff 0 [] request.parts
  rw [← hcopies]
  unfold concatInto
  cases hcopy : copyParts faults files 0 [] request.parts with
  | mk written result =>
    cases result with
    | error e => simp
    | ok _ =>
      cases hsync : faults.sync with
      | some e => simp
      | none =>
        have hreplaces : (replaceFile faults (files.write temp written) temp target).2 = .ok () ↔ _ :=
          replaceFile_ok_iff
        rw [← hreplaces]
        simp only [true_and]
        cases (replaceFile faults (files.write temp written) temp target).2 with
        | error e => simp [Except.map]
        | ok _ => simp [Except.map]

theorem concatInto_cases (faults : ConcatFaults) (files : Files) (request : ConcatRequest)
    (temp target : String) :
    (concatInto faults files request temp target).2 = .ok request.target ∨
      ∃ e, (concatInto faults files request temp target).2 = .error e := by
  unfold concatInto
  cases copyParts faults files 0 [] request.parts with
  | mk written result =>
    cases result with
    | error e => exact .inr ⟨e, rfl⟩
    | ok _ =>
      cases faults.sync with
      | some e => exact .inr ⟨_, rfl⟩
      | none =>
        dsimp only
        cases (replaceFile faults (files.write temp written) temp target).2 with
        | error e => exact .inr ⟨e, rfl⟩
        | ok _ => exact .inl rfl

/-- A concatenation that succeeds replaces the target and leaves no temporary file. -/
theorem concatInto_ok (hne : temp ≠ target)
    (h : (concatInto faults files request temp target).2 = .ok request.target) :
    ∃ contents : List Bytes, request.parts.mapM (fun part => files part.key) = some contents ∧
      (concatInto faults files request temp target).1 =
        Files.remove (Function.update files target (some contents.flatten)) temp := by
  obtain ⟨hcopies, hsync, hreplaces⟩ := concatInto_ok_iff.mp h
  obtain ⟨contents, hcontents, hwritten⟩ := copyParts_content [] hcopies
  refine ⟨contents, hcontents, ?_⟩
  have hok : (copyParts faults files 0 [] request.parts).2 = .ok () :=
    (copyParts_ok_iff 0 [] request.parts).mpr hcopies
  unfold concatInto
  cases hcopy : copyParts faults files 0 [] request.parts with
  | mk written result =>
    rw [hcopy] at hok hwritten
    obtain rfl : result = .ok () := hok
    obtain rfl : written = contents.flatten := hwritten
    simp only [hsync]
    rw [replaceFile_ok hne (replaceFile_ok_iff.mpr hreplaces)]
    unfold Files.rename Files.remove Files.write
    rw [Function.update_self, Function.update_comm hne, Function.update_idem]

/-- Once the temporary file is created, the concatenation is all or nothing only if it
succeeds. -/
theorem concatInto_contract_iff {uuid : String} (hkey : isGeneratedKey request.target.key = true)
    (htemp : temp = uniqueConcatTempPath request.target.key uuid) (hfresh : files temp = none) :
    AllOrNothing files request
        (concatInto faults (files.write temp []) request temp request.target.key) ↔
      faults.Copies files 0 request.parts ∧ faults.sync = none ∧ faults.Replaces := by
  have hne : temp ≠ request.target.key := htemp ▸ (temp_ne hkey hkey).symm
  have hcopies : faults.Copies (files.write temp []) 0 request.parts ↔
      faults.Copies files 0 request.parts := htemp ▸ copies_write hkey [] 0 request.parts
  have hok : (concatInto faults (files.write temp []) request temp request.target.key).2 =
      .ok request.target ↔ _ := concatInto_ok_iff
  rw [hcopies] at hok
  rw [← hok]
  refine ⟨fun h => ?_, fun h => ⟨fun e he => ?_, fun _ _ => ?_⟩⟩
  · -- a failure would have left the temporary file
    obtain hsucceeds | ⟨e, he⟩ :=
      concatInto_cases faults (files.write temp []) request temp request.target.key
    · exact hsucceeds
    · have hleft := concatInto_error hne he
      rw [h.error e he] at hleft
      exact absurd hfresh hleft
  · cases he.symm.trans h
  · obtain ⟨contents, hcontents, hfiles⟩ := concatInto_ok hne h
    have hparts : request.parts.mapM (fun part => files part.key) = some contents := by
      rw [← hcontents, htemp]
      exact (mapM_write hkey [] (hok.mp h).1).symm
    refine ⟨contents, hparts, ?_⟩
    rw [hfiles]
    unfold Files.remove Files.write
    rw [Function.update_comm hne.symm, Function.update_idem, ← hfresh, Function.update_eq_self]

/-- Unless a call fails after the temporary file was created, a concatenation is all or
nothing; every such failure leaves the temporary file behind. -/
theorem concat_all_or_nothing_iff (faults : ConcatFaults) (uuid : String) (files : Files)
    (request : ConcatRequest)
    (hfresh : files (uniqueConcatTempPath request.target.key uuid) = none) :
    AllOrNothing files request (concat faults uuid files request) ↔
      ¬FailsLate faults files request := by
  unfold concat
  by_cases hkey : isGeneratedKey request.target.key = true
  case neg =>
    obtain ⟨e, he⟩ := pathForHandle_error hkey
    rw [he]
    exact ⟨fun _ h => hkey h.key, fun _ => ⟨fun _ _ => rfl, nofun⟩⟩
  rw [pathForHandle_ok hkey]
  dsimp only
  cases hcreate : faults.create with
  | some e =>
    exact ⟨fun _ h => (nomatch hcreate.symm.trans h.create), fun _ => ⟨fun _ _ => rfl, nofun⟩⟩
  | none =>
    refine (concatInto_contract_iff hkey rfl hfresh).trans ⟨fun h hlate => hlate.later h, ?_⟩
    intro h
    by_contra hno
    exact h ⟨hkey, hcreate, hno⟩

end Contract

/-- All calls succeed. -/
def noFaults : ConcatFaults where
  create := none
  openPart _ := none
  copy _ := none
  sync := none
  rename := none
  remove := none
  renameAgain := none

def uploadKey (digit : Char) : StorageHandle :=
  ⟨String.ofList (List.replicate 32 digit) ++ ".upload", []⟩

/-- Two parts of one byte, the second one listed twice. -/
def twoParts (name : String) : Option Bytes :=
  if name = (uploadKey '1').key then some [1]
  else if name = (uploadKey '2').key then some [2]
  else if name = (uploadKey '0').key then some []
  else none

theorem concat_all_or_nothing_parts :
    AllOrNothing twoParts ⟨uploadKey '0', [uploadKey '1', uploadKey '2', uploadKey '2']⟩
      (concat noFaults "f" twoParts
        ⟨uploadKey '0', [uploadKey '1', uploadKey '2', uploadKey '2']⟩) := by
  refine (concat_all_or_nothing_iff _ _ _ _ (by decide)).mpr fun h => h.later ?_
  exact ⟨by simp [ConcatFaults.Copies]; decide, rfl, .inl rfl⟩

/-- A part is missing: the temporary file, with the bytes of the first part, stays. -/
theorem missing_part_leaves_temp :
    let request : ConcatRequest := ⟨uploadKey '0', [uploadKey '1', uploadKey '3']⟩
    let outcome := concat noFaults "f" twoParts request
    outcome.2 = .error (.io .notFound) ∧
      outcome.1 (uniqueConcatTempPath (uploadKey '0').key "f") = some [1] ∧
      ¬AllOrNothing twoParts request outcome := by
  have htemp : (concat noFaults "f" twoParts ⟨uploadKey '0', [uploadKey '1', uploadKey '3']⟩).1
      (uniqueConcatTempPath (uploadKey '0').key "f") = some [1] := by decide
  refine ⟨rfl, htemp, fun h => ?_⟩
  have hfiles := h.error (.io .notFound) rfl
  rw [hfiles] at htemp
  cases htemp

end FileStorage

end TusRs
