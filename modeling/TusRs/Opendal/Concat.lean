import TusRs.Interaction.Component
import TusRs.Opendal.Runs
import TusRs.Storage.Memory

/-!
# Concatenation of uploads

`OpendalStorage::concat` over the objects of several uploads: the parts are repaired where
their finalisation was interrupted, then their main objects are copied, in order, into a
temporary object of the target, which is promoted to its main object. The objects of
different uploads are apart, so that an operation on one leaves the others as they are.

Results:

* `materialize_within`: for one upload this is the materialisation of a finalisation.
* `concat_spec`: what a concatenation of complete uploads ends in.
* `concat_agrees_iff`: when it agrees with the concatenation in memory.
-/

namespace TusRs

open Interaction Protocol

namespace Opendal

/-- The operations on the objects of the uploads, each under the upload's storage key. -/
abbrev UploadsSig : Sig := StoreSig.each String

abbrev Uploads := String → World

abbrev UploadsM := Attempt UploadsSig Error

/-- The capabilities of the operator. -/
structure Operator where
  rename : Bool
  copy : Bool

/-- `UploadObjects::new`. -/
def Operator.upload (op : Operator) (key : String) : UploadObjects := ⟨key, op.rename, op.copy⟩

/-- A program on the objects of one upload. -/
def within {α : Type} (key : String) (p : StoreM α) : UploadsM α :=
  p.into (StoreSig.at key)

/-! ## Concatenating -/

/-- The repair loop of `concat`; whether a part could be repaired is not looked at. -/
def ensureParts (op : Operator) : List String → UploadsM Unit
  | [] => pure ()
  | key :: keys => do
    let _ ← within key (ensureMaterialized (op.upload key))
    ensureParts op keys

/-- The loop of `write_objects_to_key`; an object is read under the key of its upload. -/
def copyFrom (target : String) (temp : Key) : Bytes → List (String × Key) → UploadsM Unit
  | buffer, [] => .step (target, .writerClose temp buffer) fun (r : Except ObjError Unit) =>
    match r with
    | .ok _ => .done (.ok ())
    | .error e => .done (.error (storageError e))
  | buffer, source :: sources =>
    .step (source.1, .read source.2) fun (r : Except ObjError Bytes) =>
    match r with
    | .error e => .done (.error (storageError e))
    | .ok bytes => .step (target, .writerWrite temp bytes) fun (r : Except ObjError Unit) =>
      match r with
      | .error e => .done (.error (storageError e))
      | .ok _ => copyFrom target temp (buffer ++ bytes) sources

def writeFrom (target : String) (temp : Key) (sources : List (String × Key)) : UploadsM Unit :=
  .step (target, .writer temp) fun (r : Except ObjError Unit) =>
    match r with
    | .ok _ => copyFrom target temp [] sources
    | .error e => .done (.error (storageError e))

/-- Run `p`; on an error the temporary object of the target is deleted first. -/
def orDiscardAt (target : String) (temp : Key) (p : UploadsM Unit) : UploadsM Unit :=
  Prog.bind p fun
    | .ok _ => .done (.ok ())
    | .error e => .step (target, .delete temp) fun _ => .done (.error e)

/-- `materialize` from objects of any uploads. -/
def materializeFrom (op : Operator) (target : String) (purpose : String)
    (sources : List (String × Key)) : UploadsM Unit := do
  let temp ← within target (tempKey purpose)
  orDiscardAt target temp (writeFrom target temp sources)
  orDiscardAt target temp (within target (promoteObject (op.upload target) temp .main))

/-- `Storage::concat`. -/
def concat (op : Operator) (request : FileStorage.ConcatRequest) : UploadsM StorageHandle := do
  ensureParts op (request.parts.map StorageHandle.key)
  materializeFrom op request.target.key "concat"
    (request.parts.map fun part => (part.key, Key.main))
  pure request.target

theorem copyObjects_within (key : String) (temp : Key) (buffer : Bytes) (sources : List Key) :
    within key (copyObjects temp buffer sources) =
      copyFrom key temp buffer (sources.map fun source => (key, source)) := by
  induction sources generalizing buffer with
  | nil =>
    refine congrArg (Prog.step _) (funext fun r => ?_)
    cases r <;> rfl
  | cons source sources ih =>
    refine congrArg (Prog.step _) (funext fun r => ?_)
    cases r with
    | error e => rfl
    | ok bytes =>
      refine congrArg (Prog.step _) (funext fun r => ?_)
      cases r with
      | error e => rfl
      | ok _ => exact ih (buffer ++ bytes)

theorem orDiscard_within (key : String) (temp : Key) (p : StoreM Unit) :
    within key (orDiscard temp p) = orDiscardAt key temp (within key p) := by
  refine (Prog.into_bind _ p _).trans (congrArg (Prog.bind _) (funext fun r => ?_))
  cases r <;> rfl

/-- From objects of the target itself, both materialisations are one program. -/
theorem materialize_within (op : Operator) (key purpose : String) (sources : List Key) :
    within key (materialize (op.upload key) purpose sources) =
      materializeFrom op key purpose (sources.map fun source => (key, source)) := by
  have hwrite : ∀ temp, within key (writeObjectsToKey temp sources) =
      writeFrom key temp (sources.map fun source => (key, source)) := fun temp => by
    refine congrArg (Prog.step _) (funext fun r => ?_)
    cases r with
    | error e => rfl
    | ok _ => exact copyObjects_within key temp [] sources
  refine (Prog.into_bind _ (tempKey purpose) _).trans (congrArg (Prog.bind _) (funext fun r => ?_))
  cases r with
  | error e => rfl
  | ok temp =>
    refine (Prog.into_bind _ (orDiscard temp (writeObjectsToKey temp sources)) _).trans ?_
    refine congrArg₂ Prog.bind ?_ (funext fun r => ?_)
    · exact (orDiscard_within key temp _).trans (congrArg _ (hwrite temp))
    · cases r with
      | error e => rfl
      | ok _ => exact orDiscard_within key temp _

/-! ## Specifications on a healthy store -/

section Specs

variable {α : Type} {op : Operator} {ws : Uploads} {key target : String}

/-- From `P` the program ends in `Q`, on a healthy store. -/
abbrev SpecAll (P : Uploads → Prop) (p : Prog UploadsSig α) (Q : α → Uploads → Prop) : Prop :=
  Triple ((store False).each String) (fun _ => True) Alone 0 P p Q

/-- One operation on one upload. -/
theorem opAt_spec {o : StoreOp} {k : StoreSig.Ans o → Prog UploadsSig α}
    {Q : α → Uploads → Prop} (P' : StoreSig.Ans o → Uploads → Prop)
    (h : ∀ a w', StoreExec False o (ws key) a w' → P' a (Function.update ws key w'))
    (hk : ∀ a, SpecAll (P' a) (k a) Q) :
    SpecAll (· = ws) (.step ((key, o) : UploadsSig.Op) k) Q := by
  refine Triple.alone P' ?_ hk
  rintro _ a _ rfl ⟨w', he, rfl⟩
  exact h a w' he

/-- What holds of a program on one upload holds of it next to the others. -/
theorem within_spec {I : World → Prop} {p : StoreM α} {Q : Except Error α → World → Prop}
    (hw : I (ws key)) (h : SpecIn I False (· = ws key) p Q) :
    SpecAll (· = ws) (within key p)
      (fun r ws' => ∃ w', ws' = Function.update ws key w' ∧ I w' ∧ Q r w') := by
  refine Triple.weaken (Triple.each h key ws) ?_ ?_
  · rintro _ rfl
    exact ⟨⟨hw, fun _ _ => rfl⟩, rfl⟩
  · rintro r ws' ⟨⟨hI, hrest⟩, hQ⟩
    exact ⟨ws' key, Function.eq_update_iff.mpr ⟨rfl, hrest⟩, hI, hQ⟩

/-- A specification from each world that a condition allows. -/
theorem spec_of_all {P : Uploads → Prop} {p : Prog UploadsSig α} {Q : α → Uploads → Prop}
    (h : ∀ ws, P ws → SpecAll (· = ws) p Q) : SpecAll P p Q :=
  fun s hs => h s.world hs s rfl

/-! ## Repairing the parts -/

/-- The upload has every byte of its length, in fewer than `10 ^ 10` parts. -/
structure Full (w : World) : Prop where
  layout : Layout w
  length : w.length = some (total w.log)
  few : w.log.length < 10 ^ 10

theorem Full.main_of_empty {w : World} (h : Full w) (hempty : w.log = []) :
    w.objects.lookup .main = none := by
  rcases h.layout.shape with hs | hp
  · exact hs.main
  · exact absurd hempty hp.nonempty

/-- A repair keeps what is there. -/
structure Repaired (w w' : World) : Prop where
  log : w'.log = w.log
  full : Full w → Full w'
  promoted : Promoted w → Promoted w'

theorem Repaired.refl (w : World) : Repaired w w := ⟨rfl, id, id⟩

theorem Repaired.trans {w w' w'' : World} (h : Repaired w w') (h' : Repaired w' w'') :
    Repaired w w'' :=
  ⟨h'.log.trans h.log, h'.full ∘ h.full, h'.promoted ∘ h.promoted⟩

theorem Finalized.repaired {w w' : World} (h : Finalized w w') : Repaired w w' where
  log := h.log
  full hf := ⟨h.layout hf.layout, by rw [h.log, h.record.length, hf.length], h.log ▸ hf.few⟩
  promoted _ := h.promoted

/-- An upload without a single body has nothing that could be repaired. -/
theorem ensureMaterialized_empty {u : UploadObjects} {w : World} (hw : Full w)
    (hempty : w.log = []) :
    SpecIn Layout False (· = w) (ensureMaterialized u) (fun r w' => r = .ok false ∧ w' = w) := by
  have hpart : ∀ i, w.objects.lookup (.part i) = none := fun i => by
    rcases hw.layout.shape with hs | hp
    · rw [hs.parts, hempty]
      exact body_eq_none (by simp; omega)
    · exact absurd hempty hp.nonempty
  refine stat_spec (fun b hb => ?_) (fun _ => ?_) fun m hf => hf.elim
  · rw [hw.main_of_empty hempty] at hb
    cases hb
  · have hmarker : SpecIn Layout False (· = w) readCompletionMarker
        (Reads False w fun _ => True) :=
      readObject_spec (fun b _ => reads_done trivial) (fun _ => reads_done trivial)
        fun m hf => hf.elim
    refine reads_bind hmarker (fun marker _ => ?_) fun e hf => hf.elim
    cases marker with
    | none => exact Triple.done fun _ h => ⟨rfl, h⟩
    | some completing =>
      -- a marker without its part is left over from a body that was not staged
      refine stat_spec (fun b hb => ?_) (fun _ => Triple.done fun _ h => ⟨rfl, h⟩)
        fun m hf => hf.elim
      rw [hpart] at hb
      cases hb

/-- The repair of one part. -/
theorem ensurePart_spec (hp : (op.upload key).Promotes) (hfull : Full (ws key)) :
    SpecAll (· = ws) (within key (ensureMaterialized (op.upload key))) (fun r ws' =>
      (∃ b, r = .ok b) ∧ (∀ k, Repaired (ws k) (ws' k)) ∧
        ((ws key).log ≠ [] → Promoted (ws' key))) := by
  have hrest : ∀ {w'}, Repaired (ws key) w' → ∀ k, Repaired (ws k) (Function.update ws key w' k) :=
    fun {w'} h k => by
      rcases eq_or_ne k key with rfl | hk
      · rwa [Function.update_self]
      · rw [Function.update_of_ne hk]
        exact .refl _
  by_cases hempty : (ws key).log = []
  · refine Triple.weaken (within_spec hfull.layout (ensureMaterialized_empty hfull hempty))
      (fun _ h => h) ?_
    rintro r _ ⟨_, rfl, -, rfl, rfl⟩
    exact ⟨⟨_, rfl⟩, hrest (.refl _), fun hne => absurd hempty hne⟩
  · refine Triple.weaken (within_spec hfull.layout
      (ensureMaterialized_spec hfull.layout ⟨hempty, hfull.length⟩ hfull.few)) (fun _ h => h) ?_
    rintro r _ ⟨w', rfl, -, hres⟩
    cases r with
    | error e => exact (hres hp).elim
    | ok b =>
      refine ⟨⟨b, rfl⟩, hrest hres.2.repaired, fun _ => ?_⟩
      rw [Function.update_self]
      exact hres.2.promoted

/-- What the repair loop leaves of the uploads `keys`: those with a body are materialised. -/
structure RepairedAll (keys : List String) (ws ws' : Uploads) : Prop where
  each : ∀ k, Repaired (ws k) (ws' k)
  promoted : ∀ key ∈ keys, (ws key).log ≠ [] → Promoted (ws' key)

theorem ensureParts_spec (hp : op.rename = true ∨ op.copy = true) {keys : List String}
    (hfull : ∀ key ∈ keys, Full (ws key)) :
    SpecAll (· = ws) (ensureParts op keys)
      (fun r ws' => r = .ok () ∧ RepairedAll keys ws ws') := by
  induction keys generalizing ws with
  | nil =>
    refine Triple.done ?_
    rintro _ rfl
    exact ⟨rfl, fun _ => .refl _, nofun⟩
  | cons key keys ih =>
    refine Triple.bind _ (ensurePart_spec hp (hfull key List.mem_cons_self)) fun r => ?_
    refine spec_of_all ?_
    rintro ws₁ ⟨⟨b, rfl⟩, heach, hpromoted⟩
    have hfull₁ : ∀ k ∈ keys, Full (ws₁ k) := fun k hk =>
      (heach k).full (hfull k (List.mem_cons_of_mem key hk))
    refine Triple.weaken (ih hfull₁) (fun _ h => h) ?_
    rintro r ws' ⟨rfl, hall⟩
    refine ⟨rfl, fun k => (heach k).trans (hall.each k), fun k hk hne => ?_⟩
    rcases List.mem_cons.mp hk with rfl | hk
    · exact (hall.each k).promoted (hpromoted hne)
    · exact hall.promoted k hk ((heach k).log ▸ hne)

/-! ## Copying the parts -/

/-- The bytes of objects of any uploads, one after the other. -/
def contentsFrom (ws : Uploads) (sources : List (String × Key)) : Bytes :=
  sources.flatMap fun source => bytesAt (ws source.1) source.2

/-- Some source does not exist. -/
def Missing (ws : Uploads) (sources : List (String × Key)) : Prop :=
  ∃ source ∈ sources, (ws source.1).objects.lookup source.2 = none

/-- An operation on one upload that only reads. -/
theorem readAt_spec {o : StoreOp} {k : StoreSig.Ans o → Prog UploadsSig α}
    {Q : α → Uploads → Prop} (R : StoreSig.Ans o → Prop)
    (h : ∀ a w', StoreExec False o (ws key) a w' → w' = ws key ∧ R a)
    (hk : ∀ a, R a → SpecAll (· = ws) (k a) Q) :
    SpecAll (· = ws) (.step ((key, o) : UploadsSig.Op) k) Q := by
  refine opAt_spec (fun a ws' => ws' = ws ∧ R a) (fun a w' he => ?_) fun a => ?_
  · obtain ⟨rfl, ha⟩ := h a w' he
    exact ⟨Function.update_eq_self key ws, ha⟩
  · exact fun s hs => hk a hs.2 s hs.1

/-- The sources are all there and `temp` holds them, or one of them is missing. -/
def Copied (ws : Uploads) (target : String) (temp : Key) (content : Bytes)
    (sources : List (String × Key)) : Except Error Unit → Uploads → Prop
  | .ok _, ws' => ¬Missing ws sources ∧
      ws' = Function.update ws target ((ws target).put temp content)
  | .error _, _ => Missing ws sources

theorem copyFrom_spec {temp : Key} (buffer : Bytes) (sources : List (String × Key)) :
    SpecAll (· = ws) (copyFrom target temp buffer sources)
      (Copied ws target temp (buffer ++ contentsFrom ws sources) sources) := by
  induction sources generalizing buffer with
  | nil =>
    refine opAt_spec (fun r ws' => r = .ok () ∧
      ws' = Function.update ws target ((ws target).put temp buffer)) (fun a w' he => ?_) fun r => ?_
    · cases he with
      | writerClose => exact ⟨rfl, rfl⟩
      | writerCloseFailed hf => exact hf.elim
    · refine spec_of_all ?_
      rintro ws' ⟨rfl, hws'⟩
      refine Triple.done ?_
      rintro _ rfl
      exact ⟨by simp [Missing], by simpa [contentsFrom] using hws'⟩
  | cons source sources ih =>
    refine readAt_spec (fun r => (∃ b, (ws source.1).objects.lookup source.2 = some b ∧ r = .ok b) ∨
      (ws source.1).objects.lookup source.2 = none ∧ r = .error .notFound) (fun a w' he => ?_) ?_
    · cases he with
      | read hb => exact ⟨rfl, .inl ⟨_, hb, rfl⟩⟩
      | readMissing hn => exact ⟨rfl, .inr ⟨hn, rfl⟩⟩
      | readFailed hf => exact hf.elim
    · rintro r (⟨b, hb, rfl⟩ | ⟨hn, rfl⟩)
      · have hcons : buffer ++ contentsFrom ws (source :: sources) =
            buffer ++ b ++ contentsFrom ws sources := by
          simp [contentsFrom, bytesAt, hb]
        have hmissing : Missing ws (source :: sources) ↔ Missing ws sources := by
          simp [Missing, hb]
        refine readAt_spec (· = .ok ()) (fun a w' he => ?_) ?_
        · cases he with
          | writerWrite => exact ⟨rfl, rfl⟩
          | writerWriteFailed hf => exact hf.elim
        · rintro r rfl
          refine Triple.weaken (ih (buffer ++ b)) (fun _ h => h) fun r ws' h => ?_
          rw [hcons]
          cases r with
          | ok _ => exact ⟨hmissing.not.mpr h.1, h.2⟩
          | error e => exact hmissing.mpr h
      · exact Triple.done fun _ _ => ⟨source, List.mem_cons_self, hn⟩

theorem writeFrom_spec (temp : Key) (sources : List (String × Key)) :
    SpecAll (· = ws) (writeFrom target temp sources)
      (Copied ws target temp (contentsFrom ws sources) sources) := by
  refine readAt_spec (· = .ok ()) (fun a w' he => ?_) ?_
  · cases he with
    | writer => exact ⟨rfl, rfl⟩
    | writerFailed hf => exact hf.elim
  · rintro r rfl
    exact copyFrom_spec [] sources

/-- Discarding the temporary object does not change how `p` ends. -/
theorem orDiscardAt_spec {temp : Key} {p : UploadsM Unit} {P : Uploads → Prop}
    {Q : Unit → Uploads → Prop} {E : Prop}
    (h : SpecAll P p (fun
      | .ok a, ws' => Q a ws'
      | .error _, _ => E)) :
    SpecAll P (orDiscardAt target temp p) (fun
      | .ok a, ws' => Q a ws'
      | .error _, _ => E) := by
  refine Triple.bind _ h fun r => ?_
  cases r with
  | ok _ => exact Triple.done fun _ hQ => hQ
  | error e =>
    refine spec_of_all fun ws' hE => ?_
    exact opAt_spec (fun _ _ => True) (fun _ _ _ => trivial) fun _ => Triple.done fun _ _ => hE

theorem tempAt_spec {purpose : String} {f : Key → UploadsM α} {Q : Except Error α → Uploads → Prop}
    (h : ∀ uuid, SpecAll (· = ws) (f (.temp purpose uuid)) Q) :
    SpecAll (· = ws) (within target (tempKey purpose) >>= f : UploadsM α) Q := by
  refine readAt_spec (fun _ => True) (fun a w' he => ?_) fun uuid _ => h uuid
  cases he
  exact ⟨rfl, trivial⟩

/-- The target's main object holds the sources, which are all there, or one is missing. -/
theorem materializeFrom_spec (hp : (op.upload target).Promotes) (purpose : String)
    (sources : List (String × Key)) :
    SpecAll (· = ws) (materializeFrom op target purpose sources) (fun
      | .ok _, ws' => ¬Missing ws sources ∧
          (ws' target).objects.lookup .main = some (contentsFrom ws sources)
      | .error _, _ => Missing ws sources) := by
  refine tempAt_spec fun uuid => ?_
  refine Triple.bind _ (orDiscardAt_spec (writeFrom_spec (.temp purpose uuid) sources)) fun r => ?_
  cases r with
  | error e => exact Triple.done fun _ hmissing => hmissing
  | ok _ =>
    refine spec_of_all ?_
    rintro ws₁ ⟨hall, hws₁⟩
    have htemp : (ws₁ target).objects.lookup (.temp purpose uuid) =
        some (contentsFrom ws sources) := by
      rw [hws₁, Function.update_self]
      exact lookup_put_self
    have hpromote : SpecIn (fun _ => True) False (· = ws₁ target)
        (promoteObject (op.upload target) (.temp purpose uuid) .main)
        (Moved False (op.upload target) (ws₁ target) .main (contentsFrom ws sources)) :=
      promoteObject_spec (fun _ _ _ _ => trivial) htemp trivial
    refine orDiscardAt_spec (Triple.weaken (within_spec trivial hpromote) (fun _ h => h) ?_)
    rintro r _ ⟨w', rfl, -, hmoved⟩
    cases r with
    | ok _ =>
      refine ⟨hall, ?_⟩
      rw [Function.update_self, hmoved.main]
      exact lookup_put_self
    | error e => exact (hmoved.2 hp).elim

/-! ## The concatenation of complete uploads -/

theorem contentsFrom_main {ws' : Uploads} {parts : List StorageHandle}
    (hfull : ∀ part ∈ parts, Full (ws part.key))
    (hall : RepairedAll (parts.map StorageHandle.key) ws ws')
    (hne : ∀ part ∈ parts, (ws part.key).log ≠ []) :
    contentsFrom ws' (parts.map fun part => (part.key, Key.main)) =
      parts.flatMap fun part => (ws part.key).log.flatten := by
  rw [contentsFrom, List.flatMap_map]
  refine List.flatMap_congr fun part hpart => ?_
  have hprom := hall.promoted _ (List.mem_map_of_mem hpart) (hne part hpart)
  rw [bytesAt, hprom.main, (hall.each part.key).log]
  exact material_eq (hfull part hpart).few

theorem missing_iff_empty {ws' : Uploads} {parts : List StorageHandle}
    (hfull : ∀ part ∈ parts, Full (ws part.key))
    (hall : RepairedAll (parts.map StorageHandle.key) ws ws') :
    Missing ws' (parts.map fun part => (part.key, Key.main)) ↔
      ∃ part ∈ parts, (ws part.key).log = [] := by
  simp only [Missing, List.mem_map, exists_exists_and_eq_and]
  refine exists_congr fun part => and_congr_right fun hpart => ⟨fun hmissing => ?_, fun hempty => ?_⟩
  · by_contra hne
    have hprom := hall.promoted _ (List.mem_map_of_mem hpart) hne
    rw [hprom.main] at hmissing
    cases hmissing
  · have hrepaired := hall.each part.key
    exact (hrepaired.full (hfull part hpart)).main_of_empty (hrepaired.log.trans hempty)

/-- The target holds the parts in order, or the concatenation failed because no body was
ever staged for one of them. -/
def Concatenated (request : FileStorage.ConcatRequest) (ws : Uploads) :
    Except Error StorageHandle → Uploads → Prop
  | .ok handle, ws' => handle = request.target ∧
      (∀ part ∈ request.parts, (ws part.key).log ≠ []) ∧
      (ws' request.target.key).objects.lookup .main =
        some (request.parts.flatMap fun part => (ws part.key).log.flatten)
  | .error _, _ => ∃ part ∈ request.parts, (ws part.key).log = []

theorem concat_spec {request : FileStorage.ConcatRequest}
    (hp : op.rename = true ∨ op.copy = true)
    (hfull : ∀ part ∈ request.parts, Full (ws part.key)) :
    SpecAll (· = ws) (concat op request) (Concatenated request ws) := by
  have hkeys : ∀ key ∈ request.parts.map StorageHandle.key, Full (ws key) :=
    List.forall_mem_map.mpr hfull
  refine Triple.bind _ (ensureParts_spec hp hkeys) fun r => spec_of_all ?_
  rintro ws₁ ⟨rfl, hall⟩
  refine Triple.bind _ (materializeFrom_spec hp "concat" _) fun r => ?_
  cases r with
  | error e => exact Triple.done fun _ hmissing => (missing_iff_empty hfull hall).mp hmissing
  | ok _ =>
    refine Triple.done ?_
    rintro ws' ⟨hpresent, hmain⟩
    have hne : ∀ part ∈ request.parts, (ws part.key).log ≠ [] := fun part hpart hempty =>
      hpresent ((missing_iff_empty hfull hall).mpr ⟨part, hpart, hempty⟩)
    exact ⟨rfl, hne, hmain.trans (congrArg some (contentsFrom_main hfull hall hne))⟩

end Specs

/-! ## Agreement with memory -/

section Agreement

variable {op : Operator} {ws : Uploads} {data : MemoryStorage.Data}

/-- An upload and its handles in the two storages. -/
structure UploadHandles where
  opendal : StorageHandle
  memory : StorageHandle

/-- Requests have built the upload, and `size` reports its length. -/
structure CompleteUpload (u : UploadObjects) (allowed : Request → World → Prop) (w : World) :
    Prop where
  built : ∃ id created, (∀ l, created = some l → l ≤ u64Max) ∧ Run u id allowed (fresh created) w
  complete : ∃ stored w', Outcome True size w (some (.ok stored)) w' ∧
    w.length = some (stored.getD 0)

theorem CompleteUpload.full {u : UploadObjects} {w : World} (h : CompleteUpload u Unbroken w)
    (hfew : w.log.length < 10 ^ 10) : Full w := by
  obtain ⟨id, created, hcreated, hrun⟩ := h.built
  have hw := run_layout (fresh_layout hcreated) hrun hfew
  obtain ⟨stored, w', hsize, hlength⟩ := h.complete
  obtain ⟨-, rfl⟩ := (hsize.spec (storedSize_spec hw) hw rfl).2 _ rfl
  exact ⟨hw, by rw [hlength, reported_getD], hfew⟩

/-- How a concatenation can end on a healthy store. -/
def Concludes (op : Operator) (request : FileStorage.ConcatRequest) (ws : Uploads)
    (r : Except Error StorageHandle) (ws' : Uploads) : Prop :=
  ∃ hist hist', Exec ((store False).each String) 0 (concat op request) ⟨ws, hist⟩ (some r)
    ⟨ws', hist'⟩

theorem concludes_exists (request : FileStorage.ConcatRequest) :
    ∃ r ws', Concludes op request ws r ws' := by
  obtain ⟨r, s', he⟩ := Exec.exists_done (M := (store False).each String)
    (Machine.each_enabled healthy_enabled) (concat op request) ⟨ws, []⟩
  exact ⟨r, s'.world, [], s'.hist, he⟩

theorem Concludes.concatenated {request : FileStorage.ConcatRequest}
    {r : Except Error StorageHandle} {ws' : Uploads} (h : Concludes op request ws r ws')
    (hp : op.rename = true ∨ op.copy = true)
    (hfull : ∀ part ∈ request.parts, Full (ws part.key)) : Concatenated request ws r ws' := by
  obtain ⟨hist, hist', he⟩ := h
  exact ((concat_spec hp hfull).exec trivial rfl he).2 r rfl

/-- A healthy concatenation succeeds, and its target holds what the concatenation in memory
holds: the contents of the parts, in order. -/
def ConcatAgrees (op : Operator) (ws : Uploads) (data : MemoryStorage.Data)
    (target : UploadHandles) (parts : List UploadHandles) : Prop :=
  ∃ bytes data',
    bytes = (parts.flatMap fun part => (ws part.opendal.key).log.flatten) ∧
    MemoryStorage.concat data ⟨target.memory, parts.map UploadHandles.memory⟩ =
      (data', .ok target.memory) ∧
    data' target.memory.key = some bytes ∧
    (∃ r ws', Concludes op ⟨target.opendal, parts.map UploadHandles.opendal⟩ ws r ws') ∧
    ∀ r ws', Concludes op ⟨target.opendal, parts.map UploadHandles.opendal⟩ ws r ws' →
      r = .ok target.opendal ∧ (ws' target.opendal.key).objects.lookup .main = some bytes

/-- For complete uploads, built by requests that never start on a finalised upload without a
length, the two storages agree exactly if at least one body, if only an empty one, was
staged for each part. -/
theorem concat_agrees_iff (hp : op.rename = true ∨ op.copy = true) (target : UploadHandles)
    {parts : List UploadHandles}
    (hparts : ∀ part ∈ parts,
      CompleteUpload (op.upload part.opendal.key) Unbroken (ws part.opendal.key))
    (hfew : ∀ part ∈ parts, (ws part.opendal.key).log.length < 10 ^ 10)
    (hsame : ∀ part ∈ parts,
      MemoryStorage.Received data part.memory (ws part.opendal.key).log) :
    ConcatAgrees op ws data target parts ↔ ∀ part ∈ parts, (ws part.opendal.key).log ≠ [] := by
  have hfull : ∀ part ∈ parts.map UploadHandles.opendal, Full (ws part.key) :=
    List.forall_mem_map.mpr fun part hpart => (hparts part hpart).full (hfew part hpart)
  constructor
  · rintro ⟨bytes, data', -, -, -, ⟨r, ws', ho⟩, hall⟩ part hpart
    obtain ⟨rfl, -⟩ := hall r ws' ho
    exact (ho.concatenated hp hfull).2.1 _ (List.mem_map_of_mem hpart)
  · intro hne
    refine ⟨_, _, rfl, MemoryStorage.concat_received target.memory hsame,
      Function.update_self .., concludes_exists _, fun r ws' ho => ?_⟩
    have hres := ho.concatenated hp hfull
    cases r with
    | error e =>
      obtain ⟨part, hmem, hempty⟩ := hres
      obtain ⟨upload, hupload, rfl⟩ := List.mem_map.mp hmem
      exact absurd hempty (hne upload hupload)
    | ok handle =>
      obtain ⟨rfl, -, hmain⟩ := hres
      rw [hmain, List.flatMap_map]
      exact ⟨rfl, rfl⟩

end Agreement

/-- An operator that can rename and copy. -/
def fsOperator : Operator := ⟨true, true⟩

/-- The handles of the upload `id`. -/
def handlesOf (id : String) : UploadHandles := ⟨⟨id, []⟩, ⟨"memory://" ++ id, []⟩⟩

/-- A storage in memory that received one upload. -/
theorem received_alone (id : String) (bodies : List Bytes) :
    ∃ data, MemoryStorage.Received data (handlesOf id).memory bodies := by
  have hcreated : (MemoryStorage.create (fun _ => none) id).1 (handlesOf id).memory.key = some [] := by
    simp [MemoryStorage.create, handlesOf]
  obtain ⟨data, hdata⟩ := MemoryStorage.appendAll_exists hcreated bodies
  exact ⟨data, _, id, data, rfl, hdata, rfl⟩

/-- A part of two bytes, twice. -/
theorem concat_agrees_repeated_part :
    ∃ ws data, ConcatAgrees fsOperator ws data (handlesOf "final")
      [handlesOf "part", handlesOf "part"] := by
  obtain ⟨w, hrun, hw, -, hlog⟩ := zerosAndOne_run (fsOperator.upload "part") "part" (.inl rfl)
    (L := 2) (by decide) (by decide)
  obtain ⟨data, hdata⟩ := received_alone "part" w.log
  have hfew : w.log.length < 10 ^ 10 := by
    rw [hlog]
    decide
  have hlength : w.length = some 2 := hw.known 2 hrun.extends.created
  have hcomplete : CompleteUpload (fsOperator.upload "part") Unbroken w := by
    refine ⟨⟨"part", some 2, fun l hl => Option.some.inj hl ▸ (by decide),
      unbroken_of_known (by decide) hrun hfew⟩, ?_⟩
    obtain ⟨r, w', ho⟩ := outcome_exists size w
    have hr := (ho.spec (storedSize_spec hw) hw rfl).2 r rfl
    cases r with
    | error e => exact hr.2.elim
    | ok stored =>
      obtain ⟨-, rfl⟩ := hr
      refine ⟨_, w', ho.mono, ?_⟩
      rw [hlength, hlog]
      rfl
  have hboth : ∀ {P : UploadHandles → Prop}, P (handlesOf "part") →
      ∀ part ∈ [handlesOf "part", handlesOf "part"], P part := by
    intro P h part hpart
    obtain rfl : part = handlesOf "part" := by simpa using hpart
    exact h
  refine ⟨fun _ => w, data, ?_⟩
  refine (concat_agrees_iff (.inl rfl) _ (hboth hcomplete) (hboth hfew) (hboth hdata)).mpr ?_
  exact hboth (hlog ▸ zerosAndOne_ne_nil 2)

/-- An empty upload is complete without a body; the backend has nothing of it to read. -/
theorem concat_refuses_empty_part :
    ¬∀ (op : Operator) (ws : Uploads) (data : MemoryStorage.Data) (target : UploadHandles)
      (parts : List UploadHandles), (op.rename = true ∨ op.copy = true) → parts ≠ [] →
      (∀ part ∈ parts, CompleteUpload (op.upload part.opendal.key) (fun _ _ => True)
        (ws part.opendal.key)) →
      (∀ part ∈ parts, MemoryStorage.Received data part.memory (ws part.opendal.key).log) →
      ConcatAgrees op ws data target parts := by
  intro hclaim
  have hw : Layout (fresh (some 0)) := fresh_layout fun l hl => Option.some.inj hl ▸ Nat.zero_le _
  have hcomplete : CompleteUpload (fsOperator.upload "part") (fun _ _ => True) (fresh (some 0)) := by
    refine ⟨⟨"part", some 0, hw.length_fits, .refl⟩, ?_⟩
    obtain ⟨r, w', ho⟩ := outcome_exists size (fresh (some 0))
    have hr := (ho.spec (storedSize_spec hw) hw rfl).2 r rfl
    cases r with
    | error e => exact hr.2.elim
    | ok stored =>
      obtain ⟨-, rfl⟩ := hr
      exact ⟨_, w', ho.mono, rfl⟩
  obtain ⟨data, hdata⟩ := received_alone "part" []
  obtain ⟨bytes, data', -, -, -, ⟨r, ws', ho⟩, hall⟩ := hclaim fsOperator (fun _ => fresh (some 0))
    data (handlesOf "final") [handlesOf "part"] (.inl rfl) (List.cons_ne_nil _ _)
    (List.forall_mem_singleton.mpr hcomplete) (List.forall_mem_singleton.mpr hdata)
  have hres := ho.concatenated (.inl rfl)
    (List.forall_mem_singleton.mpr ⟨hw, rfl, by decide⟩)
  obtain ⟨rfl, -⟩ := hall r ws' ho
  exact hres.2.1 _ List.mem_cons_self rfl

end Opendal

end TusRs
