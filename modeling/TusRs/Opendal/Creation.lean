import TusRs.Opendal.Concat
import TusRs.Opendal.Deletion
import TusRs.Opendal.Keys

/-!
# Creating an upload

`OpendalStorage::create`: the objects that an earlier upload left under the key are removed
before the key is used again. The other methods are given here for the handles of the protocol,
which keep the backend's facts as texts.

Results:

* `create_empty`, `delete_empty`, `concat_empty`: of the methods on an upload without bytes only a
  concatenation that succeeds stores some.
* `concat_stores`: that one leaves the main object of its target.
* `create_healthy`, `deleteAll_healthy`: without failures a creation succeeds, and nothing is
  stored after a removal.
-/

namespace TusRs

open Interaction Protocol

namespace Opendal

/-! ## Handles -/

/-- `StorageHandle::internal`, read as a number. -/
def internalNumber (handle : StorageHandle) (name : String) : Option Nat :=
  (handle.internal.lookup name).bind parseU64

/-- `StorageHandle::set_internal`. -/
def setInternal (handle : StorageHandle) (name value : String) : StorageHandle :=
  { handle with internal := (name, value) :: handle.internal.filter fun entry => entry.1 ≠ name }

/-- `next_part` and `staged_size_fact`. -/
def Handle.read (handle : StorageHandle) : Handle where
  nextPart := internalNumber handle "opendal_next_part"
  stagedSize := internalNumber handle "opendal_staged_size"

/-- The facts are written into the handle. -/
def Handle.write (facts : Handle) (handle : StorageHandle) : StorageHandle :=
  let handle := match facts.nextPart with
    | some n => setInternal handle "opendal_next_part" (toString n)
    | none => handle
  match facts.stagedSize with
  | some n => setInternal handle "opendal_staged_size" (toString n)
  | none => handle

theorem write_key (facts : Handle) (handle : StorageHandle) :
    (facts.write handle).key = handle.key := by
  unfold Handle.write
  cases facts.nextPart <;> cases facts.stagedSize <;> rfl

/-! ## Creation -/

/-- `object_exists`. -/
def objectExists (key : Key) : StoreM Bool :=
  Prog.step (.stat key) fun (r : Except ObjError Nat) =>
    match r with
    | .ok _ => .done (.ok true)
    | .error .notFound => .done (.ok false)
    | .error e => .done (.error (storageError e))

/-- `has_stale_state`. -/
def hasStaleState : StoreM Bool := do
  let marker ← objectExists .complete
  if marker then pure true
  else do
    let main ← objectExists .main
    if main then pure true
    else do
      let parts ← listParts
      pure (!parts.isEmpty)

/-- `prepare_for_new_upload`. -/
def prepareForNewUpload : StoreM Unit := do
  let stale ← hasStaleState
  if stale then do
    deleteObject .complete
    deleteObject .main
    deleteStagedParts
    deleteTempObjects
    deletePrefix .container
  else pure ()

/-- The storage key of an upload, under the prefix of the storage. -/
def uploadKey (pre id : String) : String := String.ofList (makeKey pre.toList id.toList)

/-- `Storage::create`. -/
def create (pre id : String) : UploadsM StorageHandle := do
  within (uploadKey pre id) prepareForNewUpload
  pure (initializeHandle.write ⟨uploadKey pre id, []⟩)

/-- `Storage::append` for a handle of the protocol. -/
def appendTo (op : Operator) (handle : StorageHandle) (expectedOffset : Nat) (data : ChunkStream)
    (completesUpload : Bool) : UploadsM StorageHandle := do
  let facts ← within handle.key
    (append (op.upload handle.key) (Handle.read handle) expectedOffset data completesUpload)
  pure (facts.write handle)

/-! ## Uploads without bytes -/

section Empty

variable {α : Type} {faults : Prop} {key : String} {op : Operator}

/-- The objects that hold bytes of an upload. -/
def Stored (k : Key) : Prop := k = .main ∨ (partNumber k).isSome = true

/-- There are bytes of the upload. -/
def HasBytes (w : World) : Prop := ∃ k, Stored k ∧ w.objects.lookup k ≠ none

theorem main_of_empty {w : World} (h : ¬HasBytes w) : w.objects.lookup .main = none := by
  by_contra hne
  exact h ⟨.main, .inl rfl, hne⟩

theorem part_of_empty {w : World} (h : ¬HasBytes w) (n : Nat) :
    w.objects.lookup (.part n) = none := by
  by_contra hne
  exact h ⟨.part n, .inr rfl, hne⟩

/-- The operation stores no bytes of an upload. -/
def Barren : StoreOp → Prop
  | .write k _ => ¬Stored k
  | .writerClose k _ => ¬Stored k
  | .rename _ target => ¬Stored target
  | .copy _ target => ¬Stored target
  | _ => True

theorem not_stored_temp {purpose : String} {uuid : Nat} : ¬Stored (.temp purpose uuid) := by
  rintro (h | h) <;> cases h

theorem empty_put {w : World} {k : Key} {b : Bytes} (h : ¬HasBytes w) (hk : ¬Stored k) :
    ¬HasBytes (w.put k b) := by
  rintro ⟨k', hk', hne⟩
  have hdiff : k' ≠ k := fun he => hk (he ▸ hk')
  rw [lookup_put_ne hdiff] at hne
  exact h ⟨k', hk', hne⟩

theorem empty_erase {w : World} {k : Key} (h : ¬HasBytes w) : ¬HasBytes (w.erase k) := by
  rintro ⟨k', hk', hne⟩
  by_cases heq : k' = k
  · rw [heq, lookup_erase_self] at hne
    exact hne rfl
  · rw [lookup_erase_ne heq] at hne
    exact h ⟨k', hk', hne⟩

theorem empty_of_barren {o : StoreOp} {w w' : World} {a : StoreSig.Ans o} (h : ¬HasBytes w)
    (ho : Barren o) (he : StoreExec faults o w a w') : ¬HasBytes w' := by
  cases he with
  | write => exact empty_put h ho
  | writerClose => exact empty_put h ho
  | rename _ => exact empty_put (empty_erase h) ho
  | copy _ => exact empty_put h ho
  | delete => exact empty_erase h
  | stat _ | statMissing _ | statFailed _ | list _ | listMissing _ | listFailed _
  | writeFailed _ | writer | writerFailed _ | writerWrite | writerWriteFailed _
  | writerCloseFailed _ | writerAbort | read _ | readMissing _ | readFailed _
  | renameMissing _ | renameFailed _ | copyMissing _ | copyFailed _
  | deleteMissing _ | deleteFailed _ | deletePrefix | deletePrefixFailed _ | uuid | load
  | save | saveFailed _ => exact h

/-- The operation stores no bytes of the upload `key`. -/
def BarrenAt (key : String) (o : String × StoreOp) : Prop := o.1 ≠ key ∨ Barren o.2

/-- From an upload without bytes the program ends in `Q`. -/
abbrev FromEmpty (faults : Prop) (key : String) (p : Prog UploadsSig α)
    (Q : α → Uploads → Prop) : Prop :=
  Triple ((store faults).each String) (fun _ => True) Alone 0 (fun ws => ¬HasBytes (ws key)) p Q

theorem empty_at_of_barren {o : UploadsSig.Op} {ws ws' : Uploads} {a : UploadsSig.Ans o} {t : Nat}
    (h : ¬HasBytes (ws key)) (ho : BarrenAt key o)
    (he : ((store faults).each String).exec t o ws a ws') : ¬HasBytes (ws' key) := by
  obtain ⟨w', he, rfl⟩ := he
  by_cases hkey : o.1 = key
  · subst hkey
    rw [Function.update_self]
    exact empty_of_barren h (ho.resolve_left fun hne => hne rfl) he
  · rwa [Function.update_of_ne (Ne.symm hkey)]

theorem empty_of_ops {p : Prog UploadsSig α} (hp : p.Ops (BarrenAt key)) :
    FromEmpty faults key p fun _ ws => ¬HasBytes (ws key) :=
  Triple.keep (stable_alone _)
    (fun _ _ _ _ ho _ hws he => ⟨safe_alone trivial, empty_at_of_barren hws ho he⟩) hp

theorem within_ops {key' : String} {p : StoreM α} (h : key' ≠ key ∨ p.Ops Barren) :
    (within key' p).Ops (BarrenAt key) := by
  cases h with
  | inl hne =>
    exact Prog.Ops.into (A := fun _ => True) (StoreSig.at key') (p.ops_trivial fun _ => trivial)
      fun _ _ => .inl hne
  | inr hp => exact Prog.Ops.into (StoreSig.at key') hp fun _ ho => .inr ho

/-! ### Creation and removal -/

theorem deleteObject_ops (k : Key) : (deleteObject k).Ops Barren := by
  refine ⟨trivial, fun (r : Except ObjError Unit) => ?_⟩
  rcases r with (_ | _) | _ <;> trivial

theorem deletePrefix_ops (pre : Prefix) : (deletePrefix pre).Ops Barren := by
  refine ⟨trivial, fun (r : Except ObjError Unit) => ?_⟩
  rcases r with (_ | _) | _ <;> trivial

theorem ops_then {β : Type} {p : StoreM α} {f : α → StoreM β}
    (hp : Prog.Ops Barren (p : Prog StoreSig (Except Error α)))
    (hf : ∀ a, Prog.Ops Barren (f a : Prog StoreSig (Except Error β))) :
    Prog.Ops Barren (p >>= f : StoreM β) := by
  refine Prog.Ops.bind hp fun r => ?_
  cases r with
  | error e => trivial
  | ok a => exact hf a

theorem deleteObjects_ops (keys : List Key) : (deleteObjects keys).Ops Barren := by
  induction keys with
  | nil => trivial
  | cons k keys ih => exact ops_then (deleteObject_ops k) fun _ => ih

theorem listParts_ops : listParts.Ops Barren := by
  refine ⟨trivial, fun (r : Except ObjError (List Entry)) => ?_⟩
  rcases r with (_ | _) | _ <;> trivial

theorem listTempObjects_ops : listTempObjects.Ops Barren := by
  refine ⟨trivial, fun (r : Except ObjError (List Entry)) => ?_⟩
  rcases r with (_ | _) | _ <;> trivial

theorem deleteAll_ops : deleteAll.Ops Barren := by
  refine ops_then (deleteObject_ops _) fun _ => ops_then (deleteObject_ops _) fun _ => ?_
  refine ops_then (ops_then listParts_ops fun _ => ops_then (deleteObjects_ops _) fun _ =>
    deletePrefix_ops _) fun _ => ?_
  exact ops_then (ops_then listTempObjects_ops fun _ => ops_then (deleteObjects_ops _) fun _ =>
    deletePrefix_ops _) fun _ => deletePrefix_ops _

theorem objectExists_ops (k : Key) : (objectExists k).Ops Barren := by
  refine ⟨trivial, fun (r : Except ObjError Nat) => ?_⟩
  rcases r with (_ | _) | _ <;> trivial

theorem prepareForNewUpload_ops : prepareForNewUpload.Ops Barren := by
  have hstale : hasStaleState.Ops Barren := by
    refine ops_then (objectExists_ops _) fun marker => Prog.Ops.ite trivial ?_
    refine ops_then (objectExists_ops _) fun main => Prog.Ops.ite trivial ?_
    exact ops_then listParts_ops fun _ => trivial
  exact ops_then hstale fun _ => Prog.Ops.ite deleteAll_ops trivial

/-- The handle of a new upload has the key made from its id. -/
theorem create_key (pre id : String) :
    (create pre id).Returns fun handle => handle.key = uploadKey pre id :=
  Attempt.Returns.bind (.trivial _) fun _ _ => .pure rfl

/-- A creation stores no bytes. -/
theorem create_empty (pre id : String) :
    FromEmpty faults key (create pre id) fun _ ws => ¬HasBytes (ws key) :=
  Triple.andThen _ (empty_of_ops (within_ops (.inr prepareForNewUpload_ops)))
    (fun _ => Triple.done fun _ h => h) fun _ _ h => h

theorem delete_empty (key' : String) :
    FromEmpty faults key (within key' deleteAll) fun _ ws => ¬HasBytes (ws key) :=
  empty_of_ops (within_ops (.inr deleteAll_ops))

/-! ### Concatenation -/

/-- Without a part there is nothing to repair. -/
theorem ensureMaterialized_unstored (u : UploadObjects) {w : World} (h : ¬HasBytes w) :
    SpecIn (fun _ => True) faults (· = w) (ensureMaterialized u) fun _ w' => w' = w := by
  refine stat_spec (fun b hb => ?_) (fun _ => ?_) fun m _ => Triple.done fun _ hw => hw
  · cases (main_of_empty h).symm.trans hb
  · have hmarker : SpecIn (fun _ => True) faults (· = w) readCompletionMarker
        (Reads faults w fun _ => True) :=
      readObject_spec (fun b _ => reads_done trivial) (fun _ => reads_done trivial)
        fun m hf => reads_error hf
    refine reads_bind hmarker (fun marker _ => ?_) fun e _ => Triple.done fun _ hw => hw
    cases marker with
    | none => exact Triple.done fun _ hw => hw
    | some completing =>
      refine stat_spec (fun b hb => ?_) (fun _ => Triple.done fun _ hw => hw)
        fun m _ => Triple.done fun _ hw => hw
      cases (part_of_empty h completing).symm.trans hb

/-- What holds of a program on one upload, next to the others. -/
theorem within_at {p : StoreM α} {P : World → Prop} {Q : Except Error α → World → Prop}
    (h : SpecIn (fun _ => True) faults P p Q) :
    Triple ((store faults).each String) (fun _ => True) Alone 0 (fun ws => P (ws key))
      (within key p) fun r ws => Q r (ws key) := by
  intro s hs
  have hspec : Triple ((store faults).each String) (fun _ => True) Alone 0
      (fun ws => ws = s.world ∧ P (ws key)) (within key p) fun r ws => Q r (ws key) := by
    refine (Triple.each h key s.world).weaken ?_ fun _ _ h => h.2
    rintro _ ⟨rfl, hP⟩
    exact ⟨⟨trivial, fun _ _ => rfl⟩, hP⟩
  exact hspec s ⟨rfl, hs⟩

theorem ensureMaterialized_empty_at (u : UploadObjects) (key' : String) :
    FromEmpty faults key (within key' (ensureMaterialized u)) fun _ ws => ¬HasBytes (ws key) := by
  by_cases hkey : key' = key
  · subst hkey
    refine within_at (P := fun w => ¬HasBytes w) (Q := fun _ w => ¬HasBytes w)
      (spec_of_eq fun w hw => ?_)
    exact (ensureMaterialized_unstored u hw).weaken (fun _ h => h) fun _ _ h => h ▸ hw
  · exact empty_of_ops (within_ops (.inl hkey))

theorem ensureParts_empty (op : Operator) (keys : List String) :
    FromEmpty faults key (ensureParts op keys) fun _ ws => ¬HasBytes (ws key) := by
  induction keys with
  | nil => exact Triple.done fun _ h => h
  | cons key' keys ih =>
    exact Triple.andThen _ (ensureMaterialized_empty_at _ key') (fun _ => ih) fun _ _ h => h

theorem writeFrom_ops (target : String) (purpose : String) (uuid : Nat)
    (sources : List (String × Key)) :
    (writeFrom target (.temp purpose uuid) sources).Ops (BarrenAt key) := by
  have hcopy : ∀ buffer,
      (copyFrom target (.temp purpose uuid) buffer sources).Ops (BarrenAt key) := by
    induction sources with
    | nil =>
      refine fun buffer => ⟨.inr not_stored_temp, fun (r : Except ObjError Unit) => ?_⟩
      cases r <;> trivial
    | cons source sources ih =>
      refine fun buffer => ⟨.inr trivial, fun (r : Except ObjError Bytes) => ?_⟩
      cases r with
      | error e => trivial
      | ok bytes =>
        refine ⟨.inr trivial, fun (r : Except ObjError Unit) => ?_⟩
        cases r with
        | error e => trivial
        | ok _ => exact ih _
  refine ⟨.inr trivial, fun (r : Except ObjError Unit) => ?_⟩
  cases r with
  | error e => trivial
  | ok _ => exact hcopy []

/-- The program ends without bytes when it fails. -/
abbrev FailsEmpty (faults : Prop) (key : String) (p : Prog UploadsSig (Except Error α)) : Prop :=
  FromEmpty faults key p fun r ws => (∃ e, r = .error e) → ¬HasBytes (ws key)

/-- What is discarded after an error holds no bytes of an upload. -/
theorem orDiscardAt_empty (target : String) (temp : Key) {p : UploadsM Unit} {Q : Uploads → Prop}
    (hp : FromEmpty faults key p fun r ws => (r = .ok () → Q ws) ∧
      ((∃ e, r = .error e) → ¬HasBytes (ws key))) :
    FromEmpty faults key (orDiscardAt target temp p) fun r ws => (r = .ok () → Q ws) ∧
      ((∃ e, r = .error e) → ¬HasBytes (ws key)) := by
  refine Triple.bind _ hp fun r => ?_
  cases r with
  | ok _ => exact Triple.done fun _ h => h
  | error e =>
    refine Triple.alone (fun _ ws => ¬HasBytes (ws key)) ?_
      fun _ => Triple.done fun _ h => ⟨nofun, fun _ => h⟩
    intro ws a ws' hws he
    exact empty_at_of_barren (o := (target, .delete temp)) (hws.2 ⟨e, rfl⟩) (.inr trivial) he

/-- A promotion that fails has no effect. -/
theorem promoteObject_refused (u : UploadObjects) (source : Key) {w : World} :
    SpecIn (fun _ => True) faults (· = w) (promoteObject u source .main)
      fun r w' => ∀ e, r = .error e → w' = w := by
  refine Triple.ite (fun _ => ?_) fun _ => Triple.ite (fun _ => ?_) fun _ =>
    Triple.done fun _ hw _ _ => hw
  · refine op_spec (fun (r : Except ObjError Unit) w' => ∀ e, r = .error e → w' = w) ?_ fun r => ?_
    · intro r w' _ he
      refine ⟨trivial, ?_⟩
      rintro e rfl
      cases he <;> rfl
    · cases r with
      | ok _ => exact Triple.done fun _ _ => nofun
      | error e => exact Triple.done fun _ hw _ _ => hw e rfl
  · refine op_spec (fun (r : Except ObjError Unit) w' => ∀ e, r = .error e → w' = w) ?_ fun r => ?_
    · intro r w' _ he
      refine ⟨trivial, ?_⟩
      rintro e rfl
      cases he <;> rfl
    · cases r with
      | error e => exact Triple.done fun _ hw _ _ => hw e rfl
      | ok _ =>
        exact Triple.alone (fun _ _ => True) (fun _ _ _ _ _ => trivial)
          fun _ => Triple.done fun _ _ => nofun

theorem promote_empty (op : Operator) (target : String) (source : Key) :
    FailsEmpty faults key (within target (promoteObject (op.upload target) source .main)) := by
  by_cases hkey : target = key
  · subst hkey
    refine within_at (P := fun w => ¬HasBytes w)
      (Q := fun r w => (∃ e, r = .error e) → ¬HasBytes w) (spec_of_eq fun w hw => ?_)
    refine (promoteObject_refused _ source).weaken (fun _ h => h) ?_
    rintro r w' h ⟨e, he⟩
    rwa [h e he]
  · exact (empty_of_ops (within_ops (.inl hkey))).weaken (fun _ h => h) fun _ _ h _ => h

/-- A concatenation that fails stores no bytes. -/
theorem concat_empty (op : Operator) (request : FileStorage.ConcatRequest) :
    FailsEmpty faults key (concat op request) := by
  refine Triple.andThen _ (ensureParts_empty op _) (fun _ => ?_) fun _ _ hws _ => hws
  refine Triple.andThen (fun r ws => (∃ e, r = .error e) → ¬HasBytes (ws key)) ?_
    (fun _ => Triple.done fun _ _ => nofun) fun e _ hws _ => hws ⟨e, rfl⟩
  have hwrite : ∀ uuid, FromEmpty faults key (orDiscardAt request.target.key (.temp "concat" uuid)
      (writeFrom request.target.key (.temp "concat" uuid)
        (request.parts.map fun part => (part.key, Key.main)))) fun r ws =>
      (r = .ok () → ¬HasBytes (ws key)) ∧ ((∃ e, r = .error e) → ¬HasBytes (ws key)) := by
    refine fun uuid => orDiscardAt_empty request.target.key _
      ((empty_of_ops (writeFrom_ops _ _ uuid _)).weaken (fun _ h => h) ?_)
    exact fun _ _ h => ⟨fun _ => h, fun _ => h⟩
  have hpromote : ∀ uuid, FromEmpty faults key (orDiscardAt request.target.key
      (.temp "concat" uuid) (within request.target.key (promoteObject
        (op.upload request.target.key) (.temp "concat" uuid) .main))) fun r ws =>
      (r = .ok () → True) ∧ ((∃ e, r = .error e) → ¬HasBytes (ws key)) := by
    refine fun uuid => orDiscardAt_empty request.target.key _ ?_
    exact (promote_empty op _ _).weaken (fun _ h => h) fun _ _ h => ⟨fun _ => trivial, h⟩
  refine Triple.andThen (fun (r : Except Error Key) ws => ¬HasBytes (ws key) ∧
    ∃ uuid, r = .ok (.temp "concat" uuid)) ?_ (fun temp => ?_) fun _ _ h => nomatch h.2
  · refine Triple.alone (fun _ ws => ¬HasBytes (ws key)) ?_
      fun (uuid : Nat) => Triple.done fun _ h => ⟨h, uuid, rfl⟩
    intro ws a ws' hws he
    exact empty_at_of_barren (o := (request.target.key, .uuid)) hws (.inr trivial) he
  · rintro s ⟨hs, uuid, htemp⟩
    obtain rfl := Except.ok.inj htemp
    refine Triple.andThen (Q := fun r ws => (∃ e, r = .error e) → ¬HasBytes (ws key)) _
      (hwrite uuid) (fun _ => ?_) (fun e _ h _ => h.2 ⟨e, rfl⟩) s hs
    exact (hpromote uuid).weaken (fun _ h => h.1 rfl) fun _ _ h => h.2

/-- A promotion that succeeds leaves the main object. -/
theorem promoteObject_main (u : UploadObjects) (purpose : String) (uuid : Nat) :
    SpecIn (fun _ => True) faults (fun _ => True) (promoteObject u (.temp purpose uuid) .main)
      fun r w' => r = .ok () → w'.objects.lookup .main ≠ none := by
  have hput : ∀ (w : World) (b : Bytes), (w.put .main b).objects.lookup .main ≠ none := by
    intro w b
    rw [lookup_put_self]
    exact nofun
  refine spec_of_eq fun w _ => ?_
  refine Triple.ite (fun _ => ?_) fun _ => Triple.ite (fun _ => ?_) fun _ =>
    Triple.done fun _ _ => nofun
  · refine op_spec (fun (r : Except ObjError Unit) w' => r = .ok () →
      w'.objects.lookup .main ≠ none) ?_ fun r => ?_
    · intro r w' _ he
      refine ⟨trivial, ?_⟩
      rintro rfl
      cases he
      exact hput _ _
    · cases r with
      | ok _ => exact Triple.done fun _ hw _ => hw rfl
      | error e => exact Triple.done fun _ _ => nofun
  · refine op_spec (fun (r : Except ObjError Unit) w' => r = .ok () →
      w'.objects.lookup .main ≠ none) ?_ fun r => ?_
    · intro r w' _ he
      refine ⟨trivial, ?_⟩
      rintro rfl
      cases he
      exact hput _ _
    · cases r with
      | error e => exact Triple.done fun _ _ => nofun
      | ok _ =>
        refine Triple.alone (fun _ w' => w'.objects.lookup .main ≠ none) ?_
          fun _ => Triple.done fun _ hw _ => hw
        intro w₁ a w' hw he
        cases he with
        | delete =>
          have hne : Key.main ≠ .temp purpose uuid := nofun
          rw [lookup_erase_ne hne]
          exact hw rfl
        | deleteMissing _ | deleteFailed _ => exact hw rfl

/-- A concatenation that succeeds leaves the main object of its target. -/
theorem concat_stores (op : Operator) (request : FileStorage.ConcatRequest) :
    Triple ((store faults).each String) (fun _ => True) Alone 0 (fun _ => True)
      (concat op request) fun r ws => (∃ t, r = .ok t) → HasBytes (ws request.target.key) := by
  have hany : ∀ {β : Type} (p : Prog UploadsSig β), Triple ((store faults).each String)
      (fun _ => True) Alone 0 (fun _ => True) p fun _ _ => True := fun p =>
    Triple.keep (stable_alone _) (fun _ _ _ _ _ _ _ _ => ⟨safe_alone trivial, trivial⟩)
      (p.ops_trivial fun _ => trivial)
  have hpromote : ∀ uuid, Triple ((store faults).each String) (fun _ => True) Alone 0
      (fun _ => True) (within request.target.key (promoteObject (op.upload request.target.key)
        (.temp "concat" uuid) .main)) fun r ws => r = .ok () →
          (ws request.target.key).objects.lookup .main ≠ none :=
    fun uuid => within_at (P := fun _ => True) (promoteObject_main _ "concat" uuid)
  refine Triple.andThen _ (hany _) (fun _ => ?_) fun _ _ _ => nofun
  refine Triple.andThen (fun r ws => r = .ok () →
    (ws request.target.key).objects.lookup .main ≠ none) ?_
    (fun _ => Triple.done fun _ h _ => ⟨.main, .inl rfl, h rfl⟩) fun _ _ _ => nofun
  refine Triple.andThen (fun (r : Except Error Key) _ => ∃ uuid, r = .ok (.temp "concat" uuid)) ?_
    (fun temp => ?_) fun _ _ h => nomatch h
  · exact Triple.alone (fun _ _ => True) (fun _ _ _ _ _ => trivial)
      fun (uuid : Nat) => Triple.done fun _ _ => ⟨uuid, rfl⟩
  · rintro s ⟨uuid, htemp⟩
    obtain rfl := Except.ok.inj htemp
    refine Triple.andThen (Q := fun r ws => r = .ok () →
      (ws request.target.key).objects.lookup .main ≠ none) _ (hany _) (fun _ => ?_)
      (fun e _ _ => nofun) s trivial
    refine Triple.bind _ (hpromote uuid) fun r => ?_
    cases r with
    | ok _ => exact Triple.done fun _ h => h
    | error e =>
      exact Triple.alone (fun _ _ => True) (fun _ _ _ _ _ => trivial)
        fun _ => Triple.done fun _ _ => nofun

end Empty

/-! ## Without failures -/

section Healthy

variable {I : World → Prop} {w : World} {S : Key → Prop}

/-- None of these objects is there. -/
def Absent (S : Key → Prop) (w : World) : Prop := ∀ k, S k → w.objects.lookup k = none

theorem Absent.erase (h : Absent S w) (k : Key) : Absent (fun k' => k' = k ∨ S k') (w.erase k) := by
  intro k' hk'
  by_cases hkey : k' = k
  · rw [hkey, lookup_erase_self]
  · rw [lookup_erase_ne hkey]
    exact h k' (hk'.resolve_left hkey)

abbrev Succeeds (P : World → Prop) (p : StoreM Unit) (Q : World → Prop) : Prop :=
  SpecIn (fun _ => True) False P p fun r w => r = .ok () ∧ Q w

theorem Succeeds.andThen {P P' Q : World → Prop} {p q : StoreM Unit} (hp : Succeeds P p P')
    (hq : Succeeds P' q Q) : Succeeds P (p >>= fun _ => q) Q := by
  refine Triple.andThen _ hp (fun _ => hq.weaken (fun _ h => h.2) fun _ _ h => h) ?_
  exact fun _ _ h => nomatch h.1

theorem deleteObject_healthy (S : Key → Prop) (k : Key) :
    Succeeds (Absent S) (deleteObject k) (Absent fun k' => k' = k ∨ S k') := by
  refine Triple.alone (fun (r : Except ObjError Unit) w =>
    (r = .ok () ∨ r = .error .notFound) ∧ Absent (fun k' => k' = k ∨ S k') w) ?_ fun r => ?_
  · intro w a w' hw he
    cases he with
    | delete => exact ⟨.inl rfl, hw.erase k⟩
    | deleteMissing hn =>
      refine ⟨.inr rfl, fun k' hk' => ?_⟩
      cases hk' with
      | inl heq => rw [heq, hn]
      | inr hS => exact hw k' hS
    | deleteFailed hf => exact hf.elim
  · rcases r with (_ | _) | _
    · exact Triple.done fun _ h => ⟨rfl, h.2⟩
    · exact fun _ h => nomatch h.1
    · exact Triple.done fun _ h => ⟨rfl, h.2⟩

theorem deletePrefix_healthy (P : World → Prop) (pre : Prefix) :
    Succeeds P (deletePrefix pre) P := by
  refine Triple.alone (fun (r : Except ObjError Unit) w => r = .ok () ∧ P w) ?_ fun r => ?_
  · intro w a w' hw he
    cases he with
    | deletePrefix => exact ⟨rfl, hw⟩
    | deletePrefixFailed hf => exact hf.elim
  · rcases r with (_ | _) | _
    · exact fun _ h => nomatch h.1
    · exact fun _ h => nomatch h.1
    · exact Triple.done fun _ h => ⟨rfl, h.2⟩

theorem deleteObjects_healthy (S : Key → Prop) (keys : List Key) :
    Succeeds (Absent S) (deleteObjects keys) (Absent fun k => k ∈ keys ∨ S k) := by
  induction keys generalizing S with
  | nil =>
    exact Triple.done fun w h => ⟨rfl, fun k hk => h k (hk.resolve_left List.not_mem_nil)⟩
  | cons key keys ih =>
    refine Succeeds.andThen (deleteObject_healthy S key) ((ih _).weaken (fun _ h => h) ?_)
    rintro r w ⟨hr, hw⟩
    refine ⟨hr, fun k hk => hw k ?_⟩
    rcases hk with hk | hS
    · cases List.mem_cons.1 hk with
      | inl heq => exact .inr (.inl heq)
      | inr hm => exact .inl hm
    · exact .inr (.inr hS)

/-- The listing names every part, so that none is left. -/
theorem deleteStagedParts_healthy (S : Key → Prop) :
    Succeeds (Absent S) deleteStagedParts
      (Absent fun k => (partNumber k).isSome = true ∨ S k) := by
  refine spec_of_eq fun w hw => ?_
  refine reads_bind listParts_spec (fun parts hlisted => ?_) fun _ hf => hf.elim
  obtain ⟨ns, hparts⟩ := hlisted
  have hstart : Absent (fun k => (partNumber k).isSome = true ∧ k ∉ parts.map PartObject.key ∨ S k)
      w := by
    intro k hk
    rcases hk with ⟨hpart, hk⟩ | hS
    · cases k with
      | part i =>
        by_contra hne
        obtain ⟨b, hb⟩ := Option.ne_none_iff_exists'.mp hne
        rw [hparts.keys] at hk
        exact hk (List.mem_map_of_mem ((hparts.mem i).mpr ⟨b, hb⟩))
      | main | complete | temp _ _ => cases hpart
    · exact hw k hS
  refine Triple.weaken (P := Absent _) ?_ (fun _ h => h ▸ hstart) fun _ _ h => h
  refine Succeeds.andThen (deleteObjects_healthy _ _) ((deletePrefix_healthy _ .parts).weaken
    (fun _ h => h) ?_)
  rintro r w' ⟨hr, hw'⟩
  refine ⟨hr, fun k hk => hw' k ?_⟩
  rcases hk with hpart | hS
  · by_cases hm : k ∈ parts.map PartObject.key
    · exact .inl hm
    · exact .inr (.inl ⟨hpart, hm⟩)
  · exact .inr (.inr hS)

theorem deleteTempObjects_healthy (S : Key → Prop) :
    Succeeds (Absent S) deleteTempObjects (Absent S) := by
  refine spec_of_eq fun w hw => ?_
  refine reads_bind listTempObjects_spec (fun keys _ => ?_) fun _ hf => hf.elim
  refine Triple.weaken (P := Absent S) ?_ (fun _ h => h ▸ hw) fun _ _ h => h
  refine Succeeds.andThen (deleteObjects_healthy S keys) ((deletePrefix_healthy _ .tmp).weaken
    (fun _ h => h) ?_)
  exact fun _ _ h => ⟨h.1, fun k hS => h.2 k (.inr hS)⟩

/-- Nothing that counts as the bytes of the upload is left. -/
theorem deleteAll_healthy :
    Succeeds (fun _ => True) deleteAll
      (Absent fun k => k = .main ∨ (partNumber k).isSome = true) := by
  have hbegin : ∀ w : World, True → Absent (fun _ => False) w := fun _ _ _ h => h.elim
  refine Triple.weaken (P := Absent _) ?_ hbegin fun _ _ h => h
  refine Succeeds.andThen (deleteObject_healthy _ .complete) ?_
  refine Succeeds.andThen (deleteObject_healthy _ .main) ?_
  refine Succeeds.andThen (deleteStagedParts_healthy _) ?_
  refine Succeeds.andThen (deleteTempObjects_healthy _) ?_
  refine (deletePrefix_healthy _ .container).weaken (fun _ h => h) ?_
  rintro r w ⟨hr, hw⟩
  refine ⟨hr, fun k hk => hw k ?_⟩
  rcases hk with hmain | hpart
  · exact .inr (.inl hmain)
  · exact .inl hpart

theorem objectExists_reads (faults : Prop) (k : Key) :
    SpecIn I faults (· = w) (objectExists k) (Reads faults w fun _ => True) :=
  stat_spec (fun _ _ => reads_done trivial) (fun _ => reads_done trivial) fun _ hf => reads_error hf

theorem hasStaleState_reads (faults : Prop) :
    SpecIn I faults (· = w) hasStaleState (Reads faults w fun _ => True) := by
  refine reads_bind (objectExists_reads faults .complete) (fun marker _ => ?_)
    fun _ hf => reads_error hf
  refine Triple.ite (fun _ => reads_done trivial) fun _ => ?_
  refine reads_bind (objectExists_reads faults .main) (fun main _ => ?_) fun _ hf => reads_error hf
  refine Triple.ite (fun _ => reads_done trivial) fun _ => ?_
  exact reads_bind listParts_spec (fun _ _ => reads_done trivial) fun _ hf => reads_error hf

theorem prepareForNewUpload_healthy :
    Succeeds (fun _ => True) prepareForNewUpload fun _ => True := by
  refine spec_of_eq fun w _ => ?_
  refine reads_bind (hasStaleState_reads False) (fun stale _ => ?_) fun _ hf => hf.elim
  refine Triple.ite (fun _ => ?_) fun _ => Triple.done fun _ _ => ⟨rfl, trivial⟩
  exact deleteAll_healthy.weaken (fun _ _ => trivial) fun _ _ h => ⟨h.1, trivial⟩

/-- Without failures a creation succeeds. -/
theorem create_healthy (pre id : String) :
    SpecAll (fun _ => True) (create pre id)
      fun r _ => ∃ handle, r = .ok handle ∧ handle.key = uploadKey pre id := by
  refine spec_of_all fun ws _ => ?_
  refine Triple.andThen (fun r _ => r = .ok ()) ?_ (fun _ => ?_) fun _ _ h => nomatch h
  · refine (within_spec trivial (prepareForNewUpload_healthy.weaken (fun _ _ => trivial)
      fun _ _ h => h)).weaken (fun _ h => h) ?_
    rintro r _ ⟨_, _, _, hr, _⟩
    exact hr
  · exact Triple.done fun _ _ => ⟨_, rfl, rfl⟩

end Healthy

end Opendal

end TusRs
