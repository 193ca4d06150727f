import TusRs.System.Access

/-!
# Creation and removal

What `lifecycle/creation.rs`, Creation-With-Upload, the rollbacks and `termination.rs` do. A
thread that creates an upload has it to itself until the response leaves.

Results:

* `createUpload_spec`, `receiveCreationWithUpload_spec`: the first record of an upload counts
  no bytes, and a body is counted as that of a PATCH is.
* `terminate_spec`: a termination touches nothing but its upload.
* `reclaimExpiredUpload_spec`: a reclamation removes only what it found expired and
  unfinished under the lock.
-/

namespace TusRs

open Interaction

open Protocol

namespace System

variable {hooks : HookEvent → UploadState → Except Error PreHookResult → Prop}
  {config : Config} {requests : Nat → Option Request} {t : Nat} {α : Type}
  {F : Snap (Host ObjectSig) World → Prop} {id : String} {h : StorageHandle}

/-! ## Operations -/

/-- The thread creates the upload, which has no record yet. -/
def Fresh (F : Snap (Host ObjectSig) World → Prop) (t : Nat) (id : String)
    (s : Snap (Host ObjectSig) World) : Prop :=
  F s ∧ s.world.hidden id = some t ∧ s.world.states id = none

theorem lasting_fresh (hF : Frame t id F) : Lasting t (Fresh F t id) := by
  intro s s' hs hr hh
  obtain ⟨hs, hhid, hst⟩ := hs
  exact ⟨hF.lasting s s' hs hr hh, hr.hidden id hhid, (hr.states id (.inr hhid)).trans hst⟩

theorem create_spec {id' : String} (hF : Frame t id F) (hid : id' = id) :
    HostSpec hooks config requests t (Fresh F t id) (contract.create id')
      (outcomes F fun h s => Holding F t id none h (some []) s) := by
  subst hid
  refine perform (o := .storage (.create id')) (fun (r : Except Error StorageHandle) s =>
      outcomes F (fun h s => Holding F t id' none h (some []) s) r s)
    (lasting_fresh hF) (fun s _ hs => hs.2.1) ?_ fun r => Spec.done fun _ h => h
  intro s a w' _ hs he hl
  obtain ⟨hs, hhid, hst⟩ := hs
  cases he with
  | create hk =>
    exact ⟨hF.push hs (createObject_within hk), .inr hhid, hst, Function.update_self _ _ _,
      Function.update_self _ _ _⟩
  | createFailed => exact hF.lasting.push hs

/-- The first record. -/
theorem createNew_spec {o : Option Bytes} (state : UploadState) (hF : Frame t state.id F)
    (hG : ∀ s, WellFormed s.world → Holding F t state.id none h o s →
      CreateGuard config t state h o s) :
    HostSpec hooks config requests t (Holding F t state.id none h o) (setState state .createNew)
      (outcomes (Holding F t state.id none h o) fun _ => Holding F t state.id (some state) h o) := by
  refine perform (o := .stateSet state .createNew) (fun (r : Except Error Unit) s =>
      outcomes (Holding F t state.id none h o)
        (fun _ => Holding F t state.id (some state) h o) r s)
    (lasting_holding hF) (fun s hw hs => ⟨h, o, hG s hw hs⟩) ?_ fun r => Spec.done fun _ h => h
  intro s a w' _ hs he hl
  cases he with
  | stateCreate _ => exact ⟨hF.push hs.1 (.setState hl), own_setState hs.2⟩
  | stateSetFailed => exact (lasting_holding hF).push hs

theorem own_erase {k : String} {x : Option UploadState} {o : Option Bytes} {w : World}
    (hown : Own t id x k o w) : Own t id x k none (w.erase k) where
  holds := hown.holds
  state := hown.state
  owner := hown.owner
  object := Function.update_self _ _ _

theorem own_dropState {k : String} {x : Option UploadState} {o : Option Bytes} {w : World}
    (hown : Own t id x k o w) : Own t id none k o (w.dropState id) where
  holds := hown.holds
  state := Function.update_self _ _ _
  owner := hown.owner
  object := hown.object

/-- The removal of an object. -/
theorem delete_spec (hF : Frame t id F) {x : Option UploadState} {o : Option Bytes}
    {h' : StorageHandle} (hkey : h'.key = h.key)
    (hG : ∀ s, Holding F t id x h o s → DeleteGuard requests t h' id x o s) :
    HostSpec hooks config requests t (Holding F t id x h o) (contract.delete h')
      (outcomes (Holding F t id x h o) fun _ => Holding F t id x h none) := by
  refine perform (o := .storage (.delete h')) (fun (r : Except Error Unit) s =>
      outcomes (Holding F t id x h o) (fun _ => Holding F t id x h none) r s)
    (lasting_holding hF) (fun s _ hs => ⟨id, x, o, hG s hs⟩) ?_ fun r => Spec.done fun _ h => h
  intro s a w' _ hs he hl
  cases he with
  | delete =>
    rw [hkey]
    exact ⟨hF.push hs.1 (.objects_update hs.2.owner), own_erase hs.2⟩
  | deleteFailed => exact (lasting_holding hF).push hs

/-- The removal of a record. -/
theorem stateDelete_spec (hF : Frame t id F) {x : Option UploadState} {o : Option Bytes}
    (hG : ∀ s, WellFormed s.world → Holding F t id x h o s → StateDeleteGuard requests t id s) :
    HostSpec hooks config requests t (Holding F t id x h o) (deleteState id)
      (outcomes (Holding F t id x h o) fun _ => Holding F t id none h o) := by
  refine perform (o := .stateDelete id) (fun (r : Except Error Unit) s =>
      outcomes (Holding F t id x h o) (fun _ => Holding F t id none h o) r s)
    (lasting_holding hF) (fun s hw hs => hG s hw hs) ?_ fun r => Spec.done fun _ h => h
  intro s a w' _ hs he hl
  cases he with
  | stateDelete => exact ⟨hF.push hs.1 .dropState, own_dropState hs.2⟩
  | stateDeleteFailed => exact (lasting_holding hF).push hs

/-! ## Rollback -/

/-- Some record and some object of the upload. -/
def HoldingAny (F : Snap (Host ObjectSig) World → Prop) (t : Nat) (id : String) (h : StorageHandle)
    (s : Snap (Host ObjectSig) World) : Prop :=
  ∃ x o, Holding F t id x h o s

theorem rollbackStorage_spec (hF : Frame t id F) {state : UploadState}
    (hreq : ∀ before, requests t ≠ some (.reclaim before))
    (hhid : ∀ s, F s → s.world.hidden id = some t) (hbel : Belongs id h state) :
    HostSpec hooks config requests t (HoldingAny F t id h) (rollbackStorage contract state)
      (outcomes F fun _ => HoldingAny F t id h) := by
  obtain ⟨_, h', hh, hkey⟩ := hbel
  unfold rollbackStorage
  simp only [hh]
  refine assumeExists fun x => assumeExists fun o => ?_
  refine andThen (A := fun _ => HoldingAny F t id h) ?_ fun _ => pure_spec fun _ h => h
  refine (outcome_spec (delete_spec hF (h := h) (x := x) (o := o) hkey ?_)).weaken (fun _ h => h)
    (Q := outcomes F _) ?_
  · intro s hs
    refine ⟨by rw [hkey]; exact hs.2, fun _ state _ => .inl (hhid s hs.1), ?_⟩
    intro before hb
    exact absurd hb (hreq before)
  · rintro (e | r) s hs
    · exact hs
    · cases r with
      | ok _ => exact ⟨x, none, hs⟩
      | error e => exact ⟨x, o, hs⟩

theorem rollbackCreation_spec (hF : Frame t id F) {state : UploadState}
    (hreq : ∀ before, requests t ≠ some (.reclaim before))
    (hhid : ∀ s, F s → s.world.hidden id = some t) (hbel : Belongs id h state) :
    HostSpec hooks config requests t (HoldingAny F t id h) (rollbackCreation contract state)
      (outcomes F fun _ => F) := by
  refine andThen (rollbackStorage_spec hF hreq hhid hbel) fun _ => ?_
  refine assumeExists fun x => assumeExists fun o => ?_
  refine andThen (A := fun _ => F) ?_ fun _ => pure_spec fun _ h => h
  rw [hbel.1]
  refine (outcome_spec (stateDelete_spec hF (h := h) (x := x) (o := o) ?_)).weaken (fun _ h => h)
    (Q := outcomes F _) ?_
  · intro s _ hs
    refine ⟨hs.2.holds, fun _ state _ => .inl (hhid s hs.1), ?_⟩
    intro before hb
    exact absurd hb (hreq before)
  · rintro (e | r) s hs
    · exact hs
    · cases r <;> exact hs.1

theorem failAfter_spec {P E : Snap (Host ObjectSig) World → Prop}
    {A : α → Snap (Host ObjectSig) World → Prop} {undo : HostM ObjectSig Unit} {e : Error}
    (h : HostSpec hooks config requests t P undo (outcomes E fun _ => E)) :
    HostSpec hooks config requests t P (failAfter undo e) (outcomes E A) :=
  andThen h fun _ => throw_spec fun _ h => h

section Undo

variable {P : Snap (Host ObjectSig) World → Prop} {A : α → Snap (Host ObjectSig) World → Prop}
  {state : UploadState} {e : Error}

/-- Give up a creation whose record could not be written. -/
theorem undoStorage_spec (hF : Frame t id F)
    (hreq : ∀ before, requests t ≠ some (.reclaim before))
    (hhid : ∀ s, F s → s.world.hidden id = some t) (hbel : Belongs id h state)
    (hP : ∀ s, P s → HoldingAny F t id h s) :
    HostSpec hooks config requests t P (failAfter (rollbackStorage contract state) e)
      (outcomes F A) := by
  refine failAfter_spec ((rollbackStorage_spec hF hreq hhid hbel).weaken hP ?_)
  rintro (e | _) s hs
  · exact hs
  · obtain ⟨_, _, hs⟩ := hs
    exact hs.1

/-- Give up a creation whose record was written. -/
theorem undoCreation_spec (hF : Frame t id F)
    (hreq : ∀ before, requests t ≠ some (.reclaim before))
    (hhid : ∀ s, F s → s.world.hidden id = some t) (hbel : Belongs id h state)
    (hP : ∀ s, P s → HoldingAny F t id h s) :
    HostSpec hooks config requests t P (failAfter (rollbackCreation contract state) e)
      (outcomes F A) :=
  failAfter_spec ((rollbackCreation_spec hF hreq hhid hbel).weaken hP fun _ _ h => h)

end Undo

/-! ## Creation -/

/-- A new upload without bytes, within `max_size`. -/
structure Newborn (config : Config) (id : String) (state : UploadState) : Prop where
  id_eq : state.id = id
  offset : state.offset = 0
  regular : state.isFinal = false
  bounded : ∀ l m, state.length = some l → config.maxSize = some m → l ≤ m

theorem Newborn.draft {old cur : UploadState} (hn : Newborn config id old)
    (hd : Draft config old cur) : Newborn config id cur where
  id_eq := hd.id_eq.trans hn.id_eq
  offset := hd.offset.trans hn.offset
  regular := hd.isFinal.trans hn.regular
  bounded l m hl hm := by
    rcases hd.bounded l hl with hold | hmax
    · exact hn.bounded l m hold hm
    · exact hmax m hm

theorem Newborn.guard {state : UploadState} {s : Snap (Host ObjectSig) World}
    (hn : Newborn config id state) (hhid : ∀ s, F s → s.world.hidden id = some t)
    (hs : Holding F t id none h (some []) s) :
    CreateGuard config t (state.setStorageHandle h) h (some []) s where
  handle := rfl
  own := hn.id_eq.symm ▸ hs.2
  hidden := (show (state.setStorageHandle h).id = id from hn.id_eq).symm ▸ hhid s hs.1
  role _ := hn.regular
  bounded := hn.bounded
  regular _ := ⟨hn.offset, rfl⟩
  final hf := absurd (hf.symm.trans hn.regular) (by decide)

/-- The first record of an upload that is not final, over an empty object. -/
theorem createRecord_spec (hF : Frame t id F) {state : UploadState} (hn : Newborn config id state)
    (hhid : ∀ s, F s → s.world.hidden id = some t) :
    HostSpec hooks config requests t (Holding F t id none h (some []))
      (Attempt.outcome (setState (state.setStorageHandle h) .createNew))
      (outcomes F fun r s => outcomes (Holding F t id none h (some []))
        (fun _ => Holding F t id (some (state.setStorageHandle h)) h (some [])) r s) := by
  have hid : (state.setStorageHandle h).id = id := hn.id_eq
  rw [← hid] at hF ⊢
  refine outcome_spec (createNew_spec (state.setStorageHandle h) hF ?_)
  intro s _ hs
  rw [hid] at hs
  exact hn.guard hhid hs

/-- The finish hook of an upload that is complete at creation. -/
theorem finishIfComplete_spec {P E : Snap (Host ObjectSig) World → Prop} {state : UploadState}
    (hP : Lasting t P) :
    HostSpec hooks config requests t P
      (Attempt.outcome (if state.isComplete then finishGate state else pure ()))
      (outcomes E fun _ => P) := by
  refine (outcome_spec (X := E) (when_spec (finishGate_spec hP fun _ h => h))).weaken
    (fun _ h => h) ?_
  · rintro (e | r) s hs
    · exact hs
    · cases r <;> exact hs

theorem afterCommitIfComplete_spec {P E : Snap (Host ObjectSig) World → Prop}
    {state : UploadState} (hP : Lasting t P) :
    HostSpec hooks config requests t P (afterCommitIfComplete state) (outcomes E fun _ => P) :=
  when_spec (afterCommit_spec hP)

theorem createUpload_spec (hF : Frame t id F) {digests : Digests} {state : UploadState}
    (hreq : ∀ before, requests t ≠ some (.reclaim before)) (hn : Newborn config id state)
    (hhid : ∀ s, F s → s.world.hidden id = some t) :
    HostSpec hooks config requests t (Fresh F t id)
      (createUpload ⟨config, digests, contract⟩ state)
      (outcomes F fun r s => F s ∧ r.1.id = id) := by
  refine andThen (gate_draft (Draft.refl state) (lasting_fresh hF) fun s hs => hs.1) fun a =>
    assume fun ha => ?_
  obtain ⟨cur, responseHeaders⟩ := a
  have hn' := hn.draft ha.1
  refine andThen (create_spec hF hn'.id_eq) fun h => ?_
  have hbel : Belongs id h (cur.setStorageHandle h) := ⟨hn'.id_eq, h, rfl, rfl⟩
  refine andThen (createRecord_spec hF hn' hhid) fun r => ?_
  cases r with
  | error e => exact undoStorage_spec hF hreq hhid hbel fun s hs => ⟨_, _, hs⟩
  | ok _ =>
    have hP : Lasting t (Holding F t id (some (cur.setStorageHandle h)) h (some [])) :=
      lasting_holding hF
    refine andThen (finishIfComplete_spec hP) fun r => ?_
    cases r with
    | error e => exact undoCreation_spec hF hreq hhid hbel fun s hs => ⟨_, _, hs⟩
    | ok _ =>
      refine andThen (runPostEvent_spec hP) fun _ => ?_
      refine andThen (afterCommitIfComplete_spec hP) fun _ => ?_
      exact pure_spec fun s hs => ⟨hs.1, hn'.id_eq⟩

theorem receiveCreationWithUpload_spec (hF : Frame t id F) {digests : Digests} {headers : Headers}
    {body : RequestBody} {state : UploadState} (hreq : requests t = some (.post headers body))
    (hn : Newborn config id state) (hhid : ∀ s, F s → s.world.hidden id = some t) :
    HostSpec hooks config requests t (Fresh F t id)
      (receiveCreationWithUpload ⟨config, digests, contract⟩ headers state body)
      (outcomes F fun r s => F s ∧ r.1.id = id) := by
  have hreq' : ∀ before, requests t ≠ some (.reclaim before) := by
    intro before hb
    rw [hreq] at hb
    cases hb
  have hE : ∀ s, Fresh F t id s → F s := fun s hs => hs.1
  refine andThen (gate_draft (Draft.refl state) (lasting_fresh hF) hE) fun a =>
    assume fun ha => ?_
  obtain ⟨created, createHeaders⟩ := a
  refine andThen (prepareReceiveBody_spec rfl (lasting_fresh hF) hE ha.1) fun a =>
    assume fun ha => ?_
  obtain ⟨cur, prepared⟩ := a
  obtain ⟨hd, hadm, _⟩ := ha
  have hn' := hn.draft hd
  refine andThen (create_spec hF hn'.id_eq) fun h => ?_
  have hbel : Belongs id h (cur.setStorageHandle h) := ⟨hn'.id_eq, h, rfl, rfl⟩
  refine andThen (createRecord_spec hF hn' hhid) fun r => ?_
  cases r with
  | error e => exact undoStorage_spec hF hreq' hhid hbel fun s hs => ⟨_, _, hs⟩
  | ok _ =>
    have hadm' : Admits config body (cur.setStorageHandle h) prepared :=
      ⟨hadm.content, hadm.projected, hadm.within_max, hadm.within_length⟩
    refine andThen (always_spec (commitReceiveBody_spec hF (fun s hs => .inl (hhid s hs))
      (Draft.refl (cur.setStorageHandle h)) hadm' hn'.id_eq rfl hn'.regular
      (show (cur.setStorageHandle h).offset = sizeOfObject (some []) from hn'.offset)
      fun hcontent => .creation hreq hn'.offset hcontent)) fun r => assume fun hbel' => ?_
    obtain ⟨committed, result⟩ := r
    have hany : ∀ s, (∃ x o', Holding F t id x h o' s ∧
        (x = some (cur.setStorageHandle h) ∨ x = some committed) ∧
        (result = .ok () → x = some committed ∧
          Committed (cur.setStorageHandle h) committed h o')) → HoldingAny F t id h s := by
      rintro s ⟨x, o', hx, _⟩
      exact ⟨x, o', hx⟩
    cases result with
    | error e => exact undoCreation_spec hF hreq' hhid hbel' hany
    | ok _ =>
      refine assumeExists fun x => assumeExists fun o' => ?_
      refine Spec.weaken (P := Holding F t id x h o') ?_ (fun s hs => hs.1) fun _ _ h => h
      have hP : Lasting t (Holding F t id x h o') := lasting_holding hF
      refine andThen (finishIfComplete_spec hP) fun r => ?_
      cases r with
      | error e => exact undoCreation_spec hF hreq' hhid hbel' fun s hs => ⟨_, _, hs⟩
      | ok _ =>
        refine andThen (runPostEvent_spec hP) fun _ => ?_
        refine andThen (runPostEvent_spec hP) fun _ => ?_
        refine andThen (afterCommitIfComplete_spec hP) fun _ => ?_
        exact pure_spec fun s hs => ⟨hs.1, hbel'.1⟩

/-- What the headers make of a new upload. -/
inductive Born (config : Config) (headers : Headers) (id : String) : CreationTransition → Prop
  | upload {state : UploadState} : Newborn config id state → Born config headers id (.upload state)
  | finalUpload {state : UploadState} {partUrls : List String} : state.id = id →
      state.isPartial = false → state.length = none →
      headers.uploadConcat = some (.finalUpload partUrls) →
      Born config headers id (.finalUpload state partUrls)

theorem transition_born {headers : Headers} {hasBody : Bool} {state : UploadState}
    (hc : checkCreation config headers hasBody = .ok ()) (hid : state.id = id)
    (hoff : state.offset = 0) (hp : state.isPartial = false) (hf : state.isFinal = false)
    (hl : state.length = headers.uploadLength) :
    Born config headers id (transition headers state) := by
  obtain ⟨hbound, hfinal⟩ := checkCreation_ok hc
  unfold transition
  split
  · exact .upload ⟨hid, hoff, hf, fun l m h => hbound l m (hl.symm.trans h)⟩
  · next urls hcat => exact .finalUpload hid hp (hl.trans (hfinal urls hcat)) hcat
  · exact .upload ⟨hid, hoff, hf, fun l m h => hbound l m (hl.symm.trans h)⟩

theorem initialState_facts (headers : Headers) (id : String) (createdAt : Nat) :
    let state := initialState headers (.new id createdAt)
    state.id = id ∧ state.offset = 0 ∧ state.isPartial = false ∧ state.isFinal = false ∧
      state.length = headers.uploadLength := by
  unfold initialState
  cases headers.uploadLength <;> cases headers.uploadMetadata <;> exact ⟨rfl, rfl, rfl, rfl, rfl⟩

theorem prepareCreation_spec (hF : ∀ id, Frame t id F) {headers : Headers} {hasBody : Bool} :
    HostSpec hooks config requests t F (prepareCreation config headers hasBody)
      (outcomes F fun r s => ∃ id, Fresh F t id s ∧ Born config headers id r) := by
  refine andThen (A := fun _ s => F s ∧ checkCreation config headers hasBody = .ok ())
    (lift_spec (fun _ h => h) fun _ s hc hs => ⟨hs, hc⟩) fun _ => assume fun hc => ?_
  refine perform (o := .newId) (fun (id : String) s => Fresh F t id s) (hF "").lasting
    (fun _ _ _ => trivial) ?_ fun id => ?_
  · intro s a w' hw hs he _
    cases he with
    | newId hid hl =>
      refine ⟨(hF a).lasting s _ hs (rely_issue hw hid) (List.suffix_cons _ _),
        Function.update_self _ _ _, ?_⟩
      -- a record would have been issued before
      cases hst : s.world.states a with
      | none => exact hst
      | some st => exact absurd (hw.records a st hst).issued hid
  · refine now_spec (lasting_fresh (hF id)) fun createdAt => ?_
    obtain ⟨hid, hoff, hp, hf, hl⟩ := initialState_facts headers id createdAt
    cases config.expiration with
    | none => exact Spec.done fun s hs => ⟨id, hs, transition_born hc hid hoff hp hf hl⟩
    | some expiration =>
      refine now_spec (lasting_fresh (hF id)) fun n => ?_
      exact Spec.done fun s hs => ⟨id, hs, transition_born hc hid hoff hp hf hl⟩

/-! ## Termination -/

theorem terminate_spec (hF : Frame t id F) {state : UploadState} {o : Option Bytes}
    (hreq : ∀ before, requests t ≠ some (.reclaim before)) (hread : Read id h state)
    (hlive : ∀ s, F s → Live t s.world id state) :
    HostSpec hooks config requests t (Holding F t id (some state) h o) (terminate contract state)
      (outcomes F fun _ => F) := by
  have hE : ∀ o s, Holding F t id (some state) h o s → F s := fun o s hs => hs.1
  refine andThen (gate_spec (lasting_holding hF) (hE o)) fun a => assume fun _ => ?_
  dsimp only
  simp only [hread.handle]
  have hdelete : HostSpec hooks config requests t (Holding F t id (some state) h o)
      (contract.delete h) (outcomes F fun _ => Holding F t id (some state) h none) := by
    refine (delete_spec hF rfl ?_).weaken (fun _ h => h) ?_
    · intro s hs
      refine ⟨hs.2, ?_, fun before hb => absurd hb (hreq before)⟩
      rintro _ state' hst
      cases hst
      exact hlive s hs.1
    · rintro (e | _) s hs
      · exact hs.1
      · exact hs
  refine andThen hdelete fun _ => ?_
  have hdrop : HostSpec hooks config requests t (Holding F t id (some state) h none)
      (deleteState state.id) (outcomes F fun _ => F) := by
    rw [hread.id_eq]
    refine (stateDelete_spec hF ?_).weaken (fun _ h => h) ?_
    · intro s _ hs
      refine ⟨hs.2.holds, ?_, fun before hb => absurd hb (hreq before)⟩
      rintro _ state' hst
      cases hs.2.state.symm.trans hst
      exact hlive s hs.1
    · rintro (e | _) s hs
      · exact hs.1
      · exact hs.1
  refine andThen hdrop fun _ => ?_
  exact andThen (runPostEvent_spec hF.lasting) fun _ => pure_spec fun _ h => h

/-! ## Reclamation -/

/-- The thread has read a time past the expiration under the lock. -/
def SawExpired (t : Nat) (id : String) (state : UploadState)
    (s : Snap (Host ObjectSig) World) : Prop :=
  ∃ e ∈ s.hist, e.tid = t ∧ e.op = .now ∧ e.before.locks id = some t ∧
    e.before.states id = some state ∧ state.expiresBefore e.before.clock = true

theorem frame_sawExpired {id' : String} {state : UploadState} : Frame t id' (SawExpired t id state) where
  lasting s s' hs _ hh := by
    obtain ⟨e, he, hrest⟩ := hs
    exact ⟨e, hh.subset he, hrest⟩
  keeps s s' hs _ hh := by
    obtain ⟨e, he, hrest⟩ := hs
    exact ⟨e, hh.subset he, hrest⟩

theorem isExpired_saw (hF : Frame t id F) {state : UploadState} {o : Option Bytes}
    {E : Snap (Host ObjectSig) World → Prop} (hlock : ∀ s, F s → s.world.locks id = some t) :
    HostSpec hooks config requests t (Holding F t id (some state) h o) (isExpired state)
      (outcomes E fun r s => Holding F t id (some state) h o s ∧
        (r = true → SawExpired t id state s)) := by
  refine perform (o := .now) (fun (n : Nat) s => Holding F t id (some state) h o s ∧
      (state.expiresBefore n = true → SawExpired t id state s))
    (lasting_holding hF) (fun _ _ _ => trivial) ?_ fun n => Spec.done fun s hs => hs
  intro s a w' _ hs he hl
  cases he with
  | now =>
    refine ⟨(lasting_holding hF).push hs, fun hexp => ?_⟩
    exact ⟨_, List.mem_cons_self, rfl, rfl, hlock s hs.1, hs.2.state, hexp⟩

/-- The thread has removed the object under the lock, with this record in place. -/
def RemovedObject (t : Nat) (id : String) (state : UploadState) (h : StorageHandle)
    (s : Snap (Host ObjectSig) World) : Prop :=
  ∃ e ∈ s.hist, e.tid = t ∧ e.op = .storage (.delete h) ∧ e.before.locks id = some t ∧
    e.before.states id = some state

theorem frame_removedObject {id' : String} {state : UploadState} :
    Frame t id' (RemovedObject t id state h) where
  lasting s s' hs _ hh := by
    obtain ⟨e, he, hrest⟩ := hs
    exact ⟨e, hh.subset he, hrest⟩
  keeps s s' hs _ hh := by
    obtain ⟨e, he, hrest⟩ := hs
    exact ⟨e, hh.subset he, hrest⟩

theorem deleteLocked_spec (hF : Frame t id F) {state : UploadState} {o : Option Bytes}
    (hlock : ∀ s, F s → s.world.locks id = some t)
    (hG : ∀ s, Holding F t id (some state) h o s → DeleteGuard requests t h id (some state) o s) :
    HostSpec hooks config requests t (Holding F t id (some state) h o) (contract.delete h)
      (outcomes F fun _ => Holding (fun s => F s ∧ RemovedObject t id state h s) t id (some state)
        h none) := by
  refine perform (o := .storage (.delete h)) (fun (r : Except Error Unit) s =>
      outcomes F (fun _ => Holding (fun s => F s ∧ RemovedObject t id state h s) t id (some state)
        h none) r s)
    (lasting_holding hF) (fun s _ hs => ⟨id, _, o, hG s hs⟩) ?_ fun r => Spec.done fun _ h => h
  intro s a w' _ hs he hl
  cases he with
  | delete =>
    refine ⟨⟨hF.push hs.1 (.objects_update hs.2.owner), ?_⟩, own_erase hs.2⟩
    exact ⟨_, List.mem_cons_self, rfl, rfl, hlock s hs.1, hs.2.state⟩
  | deleteFailed => exact hF.lasting.push hs.1

theorem not_complete_of_expired {state : UploadState} {n : Nat}
    (h : state.expiresBefore n = true) (hp : state.isPartial = false) :
    state.isComplete = false := by
  unfold UploadState.expiresBefore UploadState.expires at h
  simp [hp] at h
  exact h.1

theorem reclaimLocked_spec (hF : Frame t id F) {before : Nat}
    (hreq : requests t = some (.reclaim before))
    (hlock : ∀ s, F s → s.world.locks id = some t) :
    HostSpec hooks config requests t F (reclaimLocked contract id) fun _ => F := by
  unfold reclaimLocked
  refine get_step hF hlock (fun e => Spec.done fun _ h => h) (Spec.done fun _ h => h) ?_
  intro state h o hread
  refine Spec.weaken (P := Holding F t id (some state) h o) ?_ (fun s hs => ⟨hs.1.1, hs.2⟩)
    fun _ _ h => h
  have hP : Lasting t (Holding F t id (some state) h o) := lasting_holding hF
  refine Spec.bind (outcomes F fun r s => Holding F t id (some state) h o s ∧
    (r = true → SawExpired t id state s ∧ (state.isPartial = false →
      ∀ l, state.length = some l → sizeOfObject o ≠ l))) ?_ fun r => ?_
  · refine andThen (detectStoredCompletion_spec hP (fun s hs => hs.1) (fun s hs => hs.2)
      hread.handle) fun r => assume fun hr => ?_
    cases r with
    | some l => exact pure_spec fun s hs => ⟨hs, fun h => nomatch h⟩
    | none =>
      refine (isExpired_saw hF (E := F) hlock).weaken (fun _ h => h) ?_
      rintro (e | r) s hs
      · exact hs
      · refine ⟨hs.1, fun hr' => ⟨hs.2 hr', fun hp => ?_⟩⟩
        obtain ⟨e, _, _, _, _, _, hexp⟩ := hs.2 hr'
        exact hr.missed rfl (not_complete_of_expired hexp hp) hp
  · match r with
    | .error e => exact Spec.done fun _ h => h
    | .ok false => exact Spec.done fun s hs => hs.1.1
    | .ok true =>
      simp only [hread.handle]
      -- from here on the thread keeps what it has seen
      have hF' : Frame t id fun s => F s ∧ SawExpired t id state s := hF.and frame_sawExpired
      refine Spec.weaken (P := fun s => Holding (fun s => F s ∧ SawExpired t id state s) t id
        (some state) h o s ∧ (state.isPartial = false →
          ∀ l, state.length = some l → sizeOfObject o ≠ l)) ?_ ?_ fun _ _ h => h
      · refine assume fun hunf => ?_
        refine Spec.bind _ (deleteLocked_spec hF' (fun s hs => hlock s hs.1) ?_) fun r => ?_
        · intro s hs
          refine ⟨hs.2, fun hno => absurd hreq (hno before), fun b _ => ⟨state, rfl, hread.handle, ?_⟩⟩
          exact ⟨hlock s hs.1.1, hs.1.2, hunf⟩
        · cases r with
          | error e => exact Spec.done fun s hs => hs.1
          | ok _ =>
            rw [hread.id_eq]
            refine Spec.bind _ (stateDelete_spec (hF'.and frame_removedObject) ?_) fun r => ?_
            · intro s _ hs
              refine ⟨hs.2.holds, fun hno => absurd hreq (hno before), fun b _ => ?_⟩
              exact ⟨state, h, hlock s hs.1.1.1, hs.2.state, hread.handle, hs.2.object, hs.1.2⟩
            · cases r with
              | error e => exact Spec.done fun s hs => hs.1.1.1
              | ok _ => exact Spec.done fun s hs => hs.1.1.1
      · intro s hs
        exact ⟨⟨⟨hs.1.1, (hs.2 rfl).1⟩, hs.1.2⟩, (hs.2 rfl).2⟩

end System

end TusRs
