import TusRs.System.Alone

/-!
# What failed requests leave behind

Requests that run alone, the clock moving between their operations.

* `patch_error_atomic`: a PATCH that fails before its append succeeds leaves the stores as
  its access reconciliation left them.
* `creation_rolled_back`: a creation that fails leaves the stores as they were, unless an
  operation of its rollback failed.
-/

namespace TusRs

open Interaction

open Protocol

namespace System

variable {hooks : HookEvent → UploadState → Except Error PreHookResult → Prop} {t : Nat}
  {α β : Type} {s₀ : Snap (Host ObjectSig) World}

/-! ## PATCH -/

section Patch

variable {server : Server ObjectSig} {headers : Headers} {body : RequestBody}

/-- The append succeeded, of all bytes of a body that passed every check. -/
def StoresBody (server : Server ObjectSig) (headers : Headers) (body : RequestBody)
    (ev : Event (Host ObjectSig) World) : Prop :=
  ∃ (u : Nat) (h h' : StorageHandle) (offset : Nat) (completes : Bool) (w : World)
    (state : UploadState) (collected : IntakeBody) (projection : ReceiveProjection),
    ev = ⟨u, .storage (.append h offset collected.data completes), .ok h', w⟩ ∧
    intake server headers state body .patch = .ok (collected, projection) ∧
    collected.data.collect = some body.content ∧ collected.deferred = none ∧
    Verified server.digests server.config headers body.content

/-- The body is one that intake let through. -/
def TakenIn (server : Server ObjectSig) (headers : Headers) (body : RequestBody)
    (prepared : PreparedReceiveBody) : Prop :=
  ∃ state collected, intake server headers state body .patch = .ok (collected, prepared.projection) ∧
    prepared.data = collected.data ∧ prepared.deferredError = collected.deferred

/-- A body that is read to its end was accepted as a whole. -/
theorem TakenIn.accepted {prepared : PreparedReceiveBody} {bytes : Bytes}
    (h : TakenIn server headers body prepared) (hc : prepared.data.collect = some bytes) :
    ∃ state collected, intake server headers state body .patch = .ok (collected, prepared.projection) ∧
      prepared.data = collected.data ∧ collected.data.collect = some body.content ∧
      collected.deferred = none ∧ Verified server.digests server.config headers body.content := by
  obtain ⟨state, collected, hin, hdata, _⟩ := h
  rw [hdata] at hc
  obtain ⟨collected', hprepare, hrest⟩ := except_bind_ok hin
  obtain ⟨_, _, hpair⟩ := except_bind_ok hrest
  cases hpair
  obtain ⟨hdelivers, hverified⟩ := prepare_ok hprepare hc
  rw [hdelivers.content] at hc hverified
  exact ⟨state, collected, hin, hdata, hc, hdelivers.deferred, hverified⟩

theorem prepareReceive_untouched (config : Config) (state : UploadState) (request : ReceiveRequest) :
    AloneSpec hooks t (Untouched s₀) (prepareReceive config state request)
      fun _ => Untouched s₀ := by
  refine Spec.andThen (fun _ => Untouched s₀) (ensureActive_quiet aboutStores_untouched state) (fun _ => ?_)
    fun _ _ hs => hs
  refine Spec.ite (fun _ => Spec.done fun _ hs => hs) fun _ => ?_
  refine Spec.ite (fun _ => Spec.done fun _ hs => hs) fun _ => ?_
  refine Spec.ite (fun _ => Spec.done fun _ hs => hs) fun _ => ?_
  refine Spec.andThen (fun _ => Untouched s₀) (Spec.done fun _ hs => hs) (fun _ => ?_)
    fun _ _ hs => hs
  exact Spec.done fun _ hs => hs

theorem prepareReceiveBody_untouched (state : UploadState) :
    AloneSpec hooks t (Untouched s₀) (prepareReceiveBody server headers state body .patch)
      fun r s => Untouched s₀ s ∧ ∀ a, r = .ok a → TakenIn server headers body a.2 := by
  refine Spec.andThen (fun _ => Untouched s₀) (Spec.weaken
    (gate_quiet aboutStores_untouched _ state) (fun _ hs => hs) fun _ _ hs => hs.1) ?_ ?_
  · rintro ⟨state', responseHeaders⟩
    refine Spec.andThen (fun r s => Untouched s₀ s ∧ r = intake server headers state' body .patch)
      (Spec.done fun _ hs => ⟨hs, rfl⟩) ?_ ?_
    · rintro ⟨collected, projection⟩
      refine Spec.done ?_
      rintro s ⟨hs, hin⟩
      refine ⟨hs, ?_⟩
      rintro _ ha
      cases ha
      exact ⟨state', collected, hin.symm, rfl, rfl⟩
    · rintro e s ⟨hs, _⟩
      exact ⟨hs, fun _ ha => nomatch ha⟩
  · intro e s hs
    exact ⟨hs, fun _ ha => nomatch ha⟩

/-- The event of a successful append. -/
def Appends (h : StorageHandle) (offset : Nat) (data : ChunkStream) (completes : Bool)
    (h' : StorageHandle) (ev : Event (Host ObjectSig) World) : Prop :=
  ∃ u w, ev = ⟨u, .storage (.append h offset data completes), .ok h', w⟩

/-- What an append leaves for its answer. -/
def AfterAppend (s₀ : Snap (Host ObjectSig) World) (h : StorageHandle) (offset : Nat)
    (data : ChunkStream) (completes : Bool) :
    Except Error StorageHandle → Snap (Host ObjectSig) World → Prop
  | .error _, s => Untouched s₀ s
  | .ok h', s => (∃ bytes, data.collect = some bytes) ∧
      Since s₀.hist (Appends h offset data completes h') s

/-- An append that fails writes nothing; one that succeeds has read the body to its end. -/
theorem append_untouched (h : StorageHandle) (offset : Nat) (data : ChunkStream)
    (completes : Bool) :
    AloneSpec hooks t (Untouched s₀) (contract.append h offset data completes)
      (AfterAppend s₀ h offset data completes) := by
  refine alone_step (o := .storage (.append h offset data completes))
    (AfterAppend s₀ h offset data completes) aboutStores_untouched.undrifted ?_
    fun r => Spec.done fun _ hs => hs
  intro s a w' hs he
  cases he with
  | append _ hc _ => exact ⟨⟨_, hc⟩, .now hs.hist ⟨_, _, rfl⟩⟩
  | appendFailed => exact hs.later ⟨rfl, rfl, rfl⟩ (List.suffix_cons _ _)

/-- Without a successful append the commit fails and writes nothing. -/
theorem commitReceiveBody_untouched {state : UploadState} {prepared : PreparedReceiveBody}
    (ht : TakenIn server headers body prepared) :
    AloneSpec hooks t (Untouched s₀) (commitReceiveBody contract state prepared) fun r s =>
      (Untouched s₀ s ∧ ∃ e, r.2 = .error e) ∨
        Since s₀.hist (StoresBody server headers body) s := by
  unfold commitReceiveBody
  cases state.requireStorageHandle with
  | error e => exact Spec.done fun s hs => .inl ⟨hs, e, rfl⟩
  | ok h =>
    refine Spec.bind _ (append_untouched h state.offset prepared.data _) fun r => ?_
    cases r with
    | error e =>
      cases e
      all_goals exact Spec.done fun s hs => .inl ⟨hs, _, rfl⟩
    | ok h' =>
      refine Spec.weaken (P := Since s₀.hist (StoresBody server headers body))
        (Q := fun _ => Since s₀.hist (StoresBody server headers body)) (Since.forever _) ?_
        fun _ s hs => .inr hs
      rintro s ⟨⟨bytes, hc⟩, ev, rest, hrest, hev, u, w, rfl⟩
      obtain ⟨st, collected, hin, hdata, hwhole, hdef, hver⟩ := ht.accepted hc
      refine ⟨_, rest, hrest, hev, ?_⟩
      rw [hdata]
      exact ⟨u, h, h', _, _, w, st, collected, _, rfl, hin, hwhole, hdef, hver⟩

/-- A PATCH body writes to the stores only by a successful append and after it. -/
theorem receivePatch_untouched {config : Config} {digests : Digests} (state : UploadState)
    (request : ReceiveRequest) :
    AloneSpec hooks t (Untouched s₀)
      (receivePatch ⟨config, digests, contract⟩ headers state request body) fun _ s =>
        Untouched s₀ s ∨ Since s₀.hist (StoresBody ⟨config, digests, contract⟩ headers body) s := by
  refine Spec.andThen (fun _ => Untouched s₀) (prepareReceive_untouched config state request) ?_
    fun _ _ hs => .inl hs
  intro state'
  refine Spec.andThen _ (prepareReceiveBody_untouched state') ?_ fun _ _ hs => .inl hs.1
  rintro ⟨received, prepared⟩
  refine Spec.assume fun ht => ?_
  refine Spec.andThen (fun r s => ∃ a, r = .ok a ∧ ((Untouched s₀ s ∧ ∃ e, a.2 = .error e) ∨
      Since s₀.hist (StoresBody ⟨config, digests, contract⟩ headers body) s)) ?_ ?_ ?_
  · exact Spec.bind _ (commitReceiveBody_untouched (ht _ rfl)) fun a => Spec.done fun _ hs => ⟨a, rfl, hs⟩
  · rintro ⟨committed, result⟩
    cases result with
    | error e =>
      refine Spec.done ?_
      rintro s ⟨_, ha, hs⟩
      cases ha
      exact hs.imp And.left id
    | ok _ =>
      refine Spec.weaken (Since.forever _) ?_ fun _ s hs => .inr hs
      rintro s ⟨_, ha, hs⟩
      cases ha
      obtain ⟨_, _, he⟩ | hs := hs
      · cases he
      · exact hs
  · rintro e s ⟨_, ha, _⟩
    cases ha

/-- A PATCH cut down to its access reconciliation. -/
def patchAccess {O : Sig} (server : Server O) (headers : Headers) (id : String) :
    HostM O UploadState := do
  Attempt.lift headers.validatePatchContentType
  match headers.uploadOffset with
  | none => throw (.missingHeader "Upload-Offset")
  | some _ =>
    checkExists id
    withLock id do
      let state ← requireState id
      prepareUploadMutationAccess server.storage state

/-- A PATCH whose headers are in order is its access and the receipt of its body, under the
lock. -/
theorem patch_parts {server : Server ObjectSig} {texts : Texts} {id : String} {offset : Nat}
    {u : Unit} (hct : headers.validatePatchContentType = .ok u)
    (hoff : headers.uploadOffset = some offset) :
    Protocol.patch server texts headers id body =
      (checkExists id >>= fun _ =>
        withLock id ((requireState id >>= prepareUploadMutationAccess server.storage) >>= fun state =>
          receivePatch server headers state ⟨offset, headers.uploadLength⟩ body >>= fun r =>
            pure (patchResponse server texts r.1 r.2)) : HostM ObjectSig Response) := by
  rw [Attempt.bind_assoc]
  unfold Protocol.patch
  rw [hct, hoff]
  rfl

/-- Whatever goes wrong before the append has succeeded, the stores are as the access
reconciliation of the same request left them: nothing that the request declares and nothing
that its hooks replace is persisted. A successful append is of the whole body, with all its
checks passed. -/
theorem patch_error_atomic {config : Config} {digests : Digests} {texts : Texts} {id : String}
    {s s' : Snap (Host ObjectSig) World} {e : Error}
    (h : Lone (host hooks) t (Protocol.patch ⟨config, digests, contract⟩ texts headers id body) s
      (.error e) s') :
    ∃ r s₁, Lone (host hooks) t (patchAccess ⟨config, digests, contract⟩ headers id) s r s₁ ∧
      s₁.hist.tail <:+ s'.hist ∧
      (s'.world.states = s₁.world.states ∧ s'.world.objects = s₁.world.objects ∨
        Since s.hist (StoresBody ⟨config, digests, contract⟩ headers body) s') := by
  unfold patchAccess
  cases hct : headers.validatePatchContentType with
  | error e' =>
    rw [Protocol.patch, hct] at h
    obtain ⟨_, rfl⟩ := Lone.done_inv h
    exact ⟨.error e', s', .done _ _, List.tail_suffix _, .inl ⟨rfl, rfl⟩⟩
  | ok _ =>
    cases hoff : headers.uploadOffset with
    | none =>
      rw [Protocol.patch, hct, hoff] at h
      obtain ⟨_, rfl⟩ := Lone.done_inv h
      exact ⟨_, s', .done _ _, List.tail_suffix _, .inl ⟨rfl, rfl⟩⟩
    | some offset =>
      rw [patch_parts hct hoff] at h
      obtain ⟨found, s₁, hexists, hlocked⟩ := Lone.bind_inv h
      cases found with
      | error e' =>
        obtain ⟨_, rfl⟩ := hlocked.done_inv
        exact ⟨.error e', s', hexists.bind (.done _ _), List.tail_suffix _, .inl ⟨rfl, rfl⟩⟩
      | ok _ =>
        obtain ⟨e', haccess⟩ | ⟨state, s₂, s₃, haccess, hsince, hreceive, hs⟩ :=
          withLock_lone hlocked
        · exact ⟨.error e', s', hexists.bind haccess, List.tail_suffix _, .inl ⟨rfl, rfl⟩⟩
        · refine ⟨.ok state, _, hexists.bind haccess, hreceive.hist.trans hs.hist, ?_⟩
          have hspec : AloneSpec hooks t (Untouched s₂)
              (receivePatch ⟨config, digests, contract⟩ headers state
                ⟨offset, headers.uploadLength⟩ body >>= fun r =>
                  pure (patchResponse ⟨config, digests, contract⟩ texts r.1 r.2) :
                HostM ObjectSig Response)
              (fun _ s => Untouched s₂ s ∨
                Since s₂.hist (StoresBody ⟨config, digests, contract⟩ headers body) s) :=
            Spec.andThen _ (receivePatch_untouched state _) (fun _ => Spec.done fun _ hs => hs)
              fun _ _ hs => hs
          obtain hquiet | hstored := hspec.lone (.refl s₂) hreceive
          · exact .inl ⟨hs.states.trans hquiet.states, hs.objects.trans hquiet.objects⟩
          · exact .inr (hstored.extend (hexists.hist.trans hsince) hs.hist)

/-- An upload of deferred length and its empty object, both named "u". -/
def deferredUpload : UploadState := (UploadState.new "u" 0).setStorageHandle ⟨"u", []⟩

def deferredWorld : World where
  states := fun id => if id = "u" then some deferredUpload else none
  objects := fun key => if key = "u" then some [] else none
  locks := fun _ => none
  clock := 0
  since := fun _ => 0
  owner := fun key => if key = "u" then some "u" else none
  issued := fun id => id = "u"
  hidden := fun _ => none

/-- The headers of a PATCH that declares the length. -/
def declaring : Headers where
  uploadOffset := some 0
  uploadLength := some 3
  uploadDeferLength := false
  uploadMetadata := none
  uploadChecksum := none
  uploadChecksumError := none
  uploadConcat := none
  contentLength := some 3
  contentType := some "application/offset+octet-stream"

/-- Hooks that replace the metadata and accept. -/
def replacing (_ : HookEvent) (_ : UploadState) (r : Except Error PreHookResult) : Prop :=
  r = .ok ⟨true, some [("name", [1])], none, none, []⟩

/-- The PATCH declares a length, the hook replaces the metadata, and the append fails. -/
theorem failed_append_run : ∃ s', Lone (host replacing) 0
    (Protocol.patch ⟨.default, ⟨fun _ bytes => bytes, fun _ => ""⟩, contract⟩
      ⟨fun _ => "", fun _ => ""⟩ declaring "u" (.bytes [1, 2, 3]))
    ⟨deferredWorld, []⟩ (.error (.storage "full")) s' := by
  exact ⟨_, .step .refl (.stateGet rfl) <| .step .refl (.lock rfl rfl) <|
    .step .refl (.stateGet rfl) <| .step .refl .now <| .step .refl .size <| .step .refl .now <|
    .step .refl (.hookPre rfl) <| .step .refl (.appendFailed (e := .storage "full")) <|
    .step .refl .unlock <| .done _ _⟩

/-- The stores after that PATCH are those of its access. -/
theorem patch_error_atomic_append : ∃ s' r s₁,
    Lone (host replacing) 0 (patchAccess ⟨.default, ⟨fun _ bytes => bytes, fun _ => ""⟩, contract⟩
      declaring "u") ⟨deferredWorld, []⟩ r s₁ ∧
    s₁.hist.tail <:+ s'.hist ∧
    (s'.world.states = s₁.world.states ∧ s'.world.objects = s₁.world.objects ∨
      Since [] (StoresBody ⟨.default, ⟨fun _ bytes => bytes, fun _ => ""⟩, contract⟩ declaring
        (.bytes [1, 2, 3])) s') := by
  obtain ⟨s', h⟩ := failed_append_run
  exact ⟨s', patch_error_atomic h⟩

end Patch

/-! ## Creation -/

section Creation

/-- A rollback operation that failed. -/
def RollbackFailed : Event (Host ObjectSig) World → Prop
  | ⟨_, .storage (.delete _), (r : Except Error Unit), _⟩ => ∃ e, r = .error e
  | ⟨_, .stateDelete _, (r : Except Error Unit), _⟩ => ∃ e, r = .error e
  | _ => False

/-- The record `x` of `id` and the object `o` under `key` are all that is new since `s₀`,
which had neither. -/
structure Made (s₀ : Snap (Host ObjectSig) World) (id key : String) (x : Option UploadState)
    (o : Option Bytes) (s : Snap (Host ObjectSig) World) : Prop where
  states : s.world.states = Function.update s₀.world.states id x
  objects : s.world.objects = Function.update s₀.world.objects key o
  noState : s₀.world.states id = none
  noObject : s₀.world.objects key = none
  hist : s₀.hist <:+ s.hist

theorem aboutStores_made {id key : String} {x : Option UploadState} {o : Option Bytes} :
    AboutStores (Made s₀ id key x o) :=
  fun _ _ hs hw hh => ⟨hw.states.trans hs.states, hw.objects.trans hs.objects, hs.noState,
    hs.noObject, hs.hist.trans hh⟩

/-- Nothing is left, or the rollback failed. -/
def Undone (s₀ s : Snap (Host ObjectSig) World) : Prop :=
  (s.world.states = s₀.world.states ∧ s.world.objects = s₀.world.objects) ∨
    Since s₀.hist RollbackFailed s

theorem Untouched.undone {s : Snap (Host ObjectSig) World} (h : Untouched s₀ s) : Undone s₀ s :=
  .inl ⟨h.states, h.objects⟩

/-- An error leaves nothing. -/
def Undoes (s₀ : Snap (Host ObjectSig) World) (r : Except Error α)
    (s : Snap (Host ObjectSig) World) : Prop :=
  ∀ e, r = .error e → Undone s₀ s

variable {id key : String} {x : Option UploadState} {o : Option Bytes}

theorem Made.undone {s : Snap (Host ObjectSig) World} (h : Made s₀ id key none none s) :
    Undone s₀ s := by
  refine .inl ⟨?_, ?_⟩
  · rw [h.states, ← h.noState, Function.update_eq_self]
  · rw [h.objects, ← h.noObject, Function.update_eq_self]

/-- The object is deleted, or its deletion has failed. -/
theorem delete_made {h : StorageHandle} (hk : h.key = key) :
    AloneSpec hooks t (Made s₀ id key x o) (contract.delete h) fun _ s =>
      Made s₀ id key x none s ∨ Since s₀.hist RollbackFailed s := by
  refine alone_step (o := .storage (.delete h))
    (fun _ s => Made s₀ id key x none s ∨ Since s₀.hist RollbackFailed s)
    aboutStores_made.undrifted ?_ fun _ => Spec.done fun _ hs => hs
  intro s a w' hs he
  cases he with
  | delete =>
    have hobjects : (s.world.erase h.key).objects = Function.update s₀.world.objects key none := by
      rw [World.erase_objects, hs.objects, hk, Function.update_idem]
    exact .inl ⟨hs.states, hobjects, hs.noState, hs.noObject, hs.hist.trans (List.suffix_cons _ _)⟩
  | deleteFailed => exact .inr (.now hs.hist ⟨_, rfl⟩)

theorem outcome_alone {P : Snap (Host ObjectSig) World → Prop} {p : HostM ObjectSig α}
    {Q : Except Error α → Snap (Host ObjectSig) World → Prop} (h : AloneSpec hooks t P p Q) :
    AloneSpec hooks t P (Attempt.outcome p : HostM ObjectSig (Except Error α)) fun r s =>
      ∃ a, r = .ok a ∧ Q a s :=
  Spec.bind _ h fun a => Spec.done fun _ hs => ⟨a, rfl, hs⟩

/-- The deletions of a rollback are best effort: only their outcome is kept. -/
theorem bestEffort {P : Snap (Host ObjectSig) World → Prop} {p : HostM ObjectSig α}
    {Q : Snap (Host ObjectSig) World → Prop} (h : AloneSpec hooks t P p fun _ => Q) :
    AloneSpec hooks t P (Attempt.outcome p >>= fun _ => pure () : HostM ObjectSig Unit)
      fun r s => r = .ok () ∧ Q s := by
  refine Spec.andThen _ (outcome_alone h) (fun _ => Spec.done ?_) ?_
  · rintro s ⟨_, _, hs⟩
    exact ⟨rfl, hs⟩
  · rintro e s ⟨_, he, _⟩
    cases he

theorem rollbackStorage_made {state : UploadState} {h : StorageHandle}
    (hh : state.handle = some h) (hk : h.key = key) :
    AloneSpec hooks t (Made s₀ id key x o) (rollbackStorage contract state) fun r s =>
      r = .ok () ∧ (Made s₀ id key x none s ∨ Since s₀.hist RollbackFailed s) := by
  unfold rollbackStorage
  rw [hh]
  exact bestEffort (delete_made hk)

/-- The record is deleted, or its deletion has failed. -/
theorem deleteState_made :
    AloneSpec hooks t (Made s₀ id key x o) (deleteState id) fun _ s =>
      Made s₀ id key none o s ∨ Since s₀.hist RollbackFailed s := by
  refine alone_step (o := .stateDelete id)
    (fun _ s => Made s₀ id key none o s ∨ Since s₀.hist RollbackFailed s)
    aboutStores_made.undrifted ?_ fun _ => Spec.done fun _ hs => hs
  intro s a w' hs he
  cases he with
  | stateDelete =>
    have hstates : (s.world.dropState id).states = Function.update s₀.world.states id none := by
      rw [World.dropState_states, hs.states, Function.update_idem]
    exact .inl ⟨hstates, hs.objects, hs.noState, hs.noObject, hs.hist.trans (List.suffix_cons _ _)⟩
  | stateDeleteFailed => exact .inr (.now hs.hist ⟨_, rfl⟩)

/-- What is done already is not lost when an earlier step of the rollback has failed. -/
theorem orFailed {P : Snap (Host ObjectSig) World → Prop} {p : Prog (Host ObjectSig) α}
    {Q : α → Snap (Host ObjectSig) World → Prop}
    (h : AloneSpec hooks t P p fun r s => Q r s ∨ Since s₀.hist RollbackFailed s) :
    AloneSpec hooks t (fun s => P s ∨ Since s₀.hist RollbackFailed s) p fun r s =>
      Q r s ∨ Since s₀.hist RollbackFailed s := by
  rintro s (hs | hs)
  · exact h s hs
  · exact wp_mono (Since.forever p s hs) fun _ _ hs => .inr hs

theorem rollbackCreation_made {state : UploadState} {h : StorageHandle} (hid : state.id = id)
    (hh : state.handle = some h) (hk : h.key = key) :
    AloneSpec hooks t (Made s₀ id key x o) (rollbackCreation contract state) fun r s =>
      r = .ok () ∧ Undone s₀ s := by
  unfold rollbackCreation
  rw [hid]
  refine Spec.andThen _ (rollbackStorage_made hh hk) (fun _ => ?_) ?_
  · refine Spec.weaken (bestEffort (orFailed deleteState_made)) (fun s hs => hs.2) ?_
    rintro r s ⟨hr, hs⟩
    exact ⟨hr, hs.elim Made.undone .inr⟩
  · rintro e s ⟨he, _⟩
    cases he

/-- A failure after a rollback. -/
theorem failAfter_alone {P : Snap (Host ObjectSig) World → Prop} {undo : HostM ObjectSig Unit}
    {e : Error} (h : AloneSpec hooks t P undo fun r s => r = .ok () ∧ Undone s₀ s) :
    AloneSpec hooks t P (failAfter undo e : HostM ObjectSig α) (Undoes s₀) :=
  Spec.andThen _ h (fun _ => Spec.done fun _ hs _ _ => hs.2) fun _ _ hs _ _ => hs.2

theorem failAfter_storage {state : UploadState} {h : StorageHandle} {e : Error}
    (hh : state.handle = some h) (hk : h.key = key) :
    AloneSpec hooks t (Made s₀ id key none o)
      (failAfter (rollbackStorage contract state) e : HostM ObjectSig α) (Undoes s₀) :=
  failAfter_alone (Spec.weaken (rollbackStorage_made hh hk) (fun _ hs => hs)
    fun _ _ hs => ⟨hs.1, hs.2.elim Made.undone .inr⟩)

theorem failAfter_creation {state : UploadState} {h : StorageHandle} {e : Error}
    (hid : state.id = id) (hh : state.handle = some h) (hk : h.key = key) :
    AloneSpec hooks t (Made s₀ id key x o)
      (failAfter (rollbackCreation contract state) e : HostM ObjectSig α) (Undoes s₀) :=
  failAfter_alone (rollbackCreation_made hid hh hk)

/-- Some record and some object of the new upload. -/
def Partway (s₀ : Snap (Host ObjectSig) World) (id key : String)
    (s : Snap (Host ObjectSig) World) : Prop :=
  ∃ x o, Made s₀ id key x o s

theorem aboutStores_partway : AboutStores (Partway s₀ id key) := by
  rintro s s' ⟨x, o, hs⟩ hw hh
  exact ⟨x, o, aboutStores_made s s' hs hw hh⟩

/-- The state is of the new upload and its object. -/
def IsNew (id key : String) (state : UploadState) : Prop :=
  state.id = id ∧ ∃ h, state.handle = some h ∧ h.key = key

theorem failAfter_partway {state : UploadState} {e : Error} (hn : IsNew id key state) :
    AloneSpec hooks t (Partway s₀ id key)
      (failAfter (rollbackCreation contract state) e : HostM ObjectSig α) (Undoes s₀) := by
  obtain ⟨hid, h, hh, hk⟩ := hn
  rintro s ⟨x, o, hs⟩
  exact failAfter_creation hid hh hk s hs

/-- The world has no record and no object of its own for what has not been created. -/
structure Unused (w : World) : Prop where
  states : ∀ id, ¬w.issued id → w.states id = none
  objects : ∀ key, w.owner key = none → w.objects key = none

theorem WellFormed.unused {w : World} (hw : WellFormed w) : Unused w where
  states id hid := by
    cases h : w.states id with
    | none => rfl
    | some state => exact absurd (hw.records id state h).issued hid
  objects key hkey := by
    cases h : w.objects key with
    | none => rfl
    | some o =>
      have hsome := (hw.objects key o h).1
      rw [hkey] at hsome
      cases hsome

/-- A new object is the only change, or there is none. -/
theorem create_made (hu : Unused s₀.world) (hid : s₀.world.states id = none) :
    AloneSpec hooks t (Untouched s₀) (contract.create id) fun (r : Except Error StorageHandle) s =>
      match r with
      | .error _ => Untouched s₀ s
      | .ok h => Made s₀ id h.key none (some []) s := by
  refine alone_step (o := .storage (.create id)) (fun (r : Except Error StorageHandle) s =>
      match r with
      | .error _ => Untouched s₀ s
      | .ok h => Made s₀ id h.key none (some []) s)
    aboutStores_untouched.undrifted ?_ fun _ => Spec.done fun _ hs => hs
  intro s a w' hs he
  cases he with
  | @create _ _ key _ hk =>
    rw [hs.owner] at hk
    have hstates : s.world.states = Function.update s₀.world.states id none := by
      rw [hs.states, ← hid, Function.update_eq_self]
    have hobjects : (s.world.createObject id key).objects =
        Function.update s₀.world.objects key (some []) := by
      rw [World.createObject_objects, hs.objects]
    exact ⟨hstates, hobjects, hid, hu.objects key hk, hs.hist.trans (List.suffix_cons _ _)⟩
  | createFailed => exact hs.later ⟨rfl, rfl, rfl⟩ (List.suffix_cons _ _)

theorem setNew_made {state : UploadState} (hid : state.id = id) :
    AloneSpec hooks t (Made s₀ id key none o) (setState state .createNew)
      fun (r : Except Error Unit) s =>
        match r with
        | .error _ => Made s₀ id key none o s
        | .ok _ => Partway s₀ id key s := by
  refine alone_step (o := .stateSet state .createNew) (fun (r : Except Error Unit) s =>
      match r with
      | .error _ => Made s₀ id key none o s
      | .ok _ => Partway s₀ id key s)
    aboutStores_made.undrifted ?_ fun _ => Spec.done fun _ hs => hs
  intro s a w' hs he
  cases he with
  | stateCreate =>
    have hstates : (s.world.setState state).states =
        Function.update s₀.world.states id (some state) := by
      rw [World.setState_states, hs.states, hid, Function.update_idem]
    exact ⟨_, _, hstates, hs.objects, hs.noState, hs.noObject, hs.hist.trans (List.suffix_cons _ _)⟩
  | stateSetFailed => exact aboutStores_made s _ hs ⟨rfl, rfl, rfl⟩ (List.suffix_cons _ _)

theorem update_partway {state : UploadState} (hid : state.id = id)
    {k : Except Error Unit → Prog (Host ObjectSig) α}
    {Q : α → Snap (Host ObjectSig) World → Prop}
    (hk : ∀ r, AloneSpec hooks t (Partway s₀ id key) (k r) Q) :
    AloneSpec hooks t (Partway s₀ id key) (.step (.stateSet state .update) k) Q := by
  refine alone_step (o := .stateSet state .update) (fun _ => Partway s₀ id key)
    aboutStores_partway.undrifted ?_ hk
  rintro s a w' ⟨x, o, hs⟩ he
  cases he with
  | stateUpdate =>
    have hstates : (s.world.setState state).states =
        Function.update s₀.world.states id (some state) := by
      rw [World.setState_states, hs.states, hid, Function.update_idem]
    exact ⟨_, _, hstates, hs.objects, hs.noState, hs.noObject, hs.hist.trans (List.suffix_cons _ _)⟩
  | stateSetFailed =>
    exact aboutStores_partway s _ ⟨x, o, hs⟩ ⟨rfl, rfl, rfl⟩ (List.suffix_cons _ _)

/-- An append to the new object, whatever it answers. -/
theorem append_partway {h : StorageHandle} {offset : Nat} {data : ChunkStream} {completes : Bool}
    (hk : h.key = key) :
    AloneSpec hooks t (Partway s₀ id key) (contract.append h offset data completes)
      fun (r : Except Error StorageHandle) s => Partway s₀ id key s ∧ ∀ h', r = .ok h' → h'.key = key := by
  refine alone_step (o := .storage (.append h offset data completes))
    (fun (r : Except Error StorageHandle) s => Partway s₀ id key s ∧ ∀ h', r = .ok h' → h'.key = key)
    aboutStores_partway.undrifted ?_ fun _ => Spec.done fun _ hs => hs
  rintro s a w' ⟨x, o, hs⟩ he
  cases he with
  | @append _ _ _ _ old bytes _ _ _ _ =>
    have hobjects : (s.world.put h.key (old ++ bytes)).objects =
        Function.update s₀.world.objects key (some (old ++ bytes)) := by
      rw [World.put_objects, hs.objects, hk, Function.update_idem]
    refine ⟨⟨x, _, hs.states, hobjects, hs.noState, hs.noObject,
      hs.hist.trans (List.suffix_cons _ _)⟩, ?_⟩
    rintro h' hh
    cases hh
    exact hk
  | appendFailed =>
    exact ⟨aboutStores_partway s _ ⟨x, o, hs⟩ ⟨rfl, rfl, rfl⟩ (List.suffix_cons _ _),
      fun _ hh => nomatch hh⟩

theorem commitReceiveBody_partway {state : UploadState} {prepared : PreparedReceiveBody}
    (hn : IsNew id key state) :
    AloneSpec hooks t (Partway s₀ id key) (commitReceiveBody contract state prepared)
      fun r s => Partway s₀ id key s ∧ IsNew id key r.1 := by
  obtain ⟨hid, h, hh, hk⟩ := hn
  have hn : IsNew id key state := ⟨hid, h, hh, hk⟩
  unfold commitReceiveBody UploadState.requireStorageHandle
  rw [hh]
  refine Spec.bind _ (append_partway hk) fun r => Spec.assume fun hkey => ?_
  cases r with
  | error e =>
    cases e
    all_goals exact Spec.done fun s hs => ⟨hs, hn⟩
  | ok h' =>
    dsimp only
    split
    · exact Spec.done fun s hs => ⟨hs, hn⟩
    · refine update_partway ?_ fun r => Spec.done fun s hs => ⟨hs, hid, h', rfl, hkey h' rfl⟩
      exact hid

/-- The program does not fail. -/
def Succeeds (hooks : HookEvent → UploadState → Except Error PreHookResult → Prop) (t : Nat)
    (p : HostM ObjectSig α) : Prop :=
  AloneSpec hooks t (fun _ => True) p fun r _ => ∃ a, r = .ok a

theorem Succeeds.pure (a : α) : Succeeds hooks t (pure a : HostM ObjectSig α) :=
  Spec.done fun _ _ => ⟨a, rfl⟩

theorem Succeeds.bind {p : HostM ObjectSig α} {f : α → HostM ObjectSig β}
    (hp : Succeeds hooks t p) (hf : ∀ a, Succeeds hooks t (f a)) :
    Succeeds hooks t (p >>= f : HostM ObjectSig β) := by
  refine Spec.andThen _ hp (fun a s _ => hf a s trivial) ?_
  rintro e s ⟨a, ha⟩
  cases ha

theorem runPostEvent_succeeds (event : HookEvent) (state : UploadState) :
    Succeeds hooks t (runPostEvent event state) :=
  alone_step (fun _ _ => True) (fun _ _ _ _ => trivial) (fun _ _ _ _ _ => trivial)
    fun _ => Spec.done fun _ _ => ⟨(), rfl⟩

theorem afterCommitIfComplete_succeeds (state : UploadState) :
    Succeeds hooks t (afterCommitIfComplete state) :=
  Spec.ite (fun _ => runPostEvent_succeeds _ _) fun _ => Succeeds.pure ()

theorem Succeeds.undoes {P : Snap (Host ObjectSig) World → Prop} {p : HostM ObjectSig α}
    (hp : Succeeds hooks t p) : AloneSpec hooks t P p (Undoes s₀) := by
  refine Spec.weaken hp (fun _ _ => trivial) ?_
  rintro r s ⟨a, rfl⟩ e he
  cases he

/-- An error of a part that writes nothing. -/
theorem andThen_untouched {p : HostM ObjectSig α} {f : α → HostM ObjectSig β} {A : α → Prop}
    (hp : AloneSpec hooks t (Untouched s₀) p fun r s => Untouched s₀ s ∧ ∀ a, r = .ok a → A a)
    (hf : ∀ a, A a → AloneSpec hooks t (Untouched s₀) (f a) (Undoes s₀)) :
    AloneSpec hooks t (Untouched s₀) (p >>= f : HostM ObjectSig β) (Undoes s₀) :=
  Spec.andThen _ hp (fun a => Spec.assume fun ha => hf a (ha a rfl)) fun _ _ hs _ _ => hs.1.undone

/-- The finish gate of a complete upload leaves the new upload as it is. -/
theorem finish_partway (state : UploadState) :
    AloneSpec hooks t (Partway s₀ id key)
      (if state.isComplete then finishGate state else pure () : HostM ObjectSig Unit)
      fun _ => Partway s₀ id key := by
  refine Spec.ite (fun _ => ?_) fun _ => Spec.done fun _ hs => hs
  exact Spec.andThen _ (gate_quiet aboutStores_partway .finish state)
    (fun _ => Spec.done fun _ hs => hs.1) fun _ _ hs => hs.1

/-- The first record of the new upload, with a rollback of the object where it fails. -/
theorem record_undoes {state : UploadState} {f : HostM ObjectSig α} (hn : IsNew id key state)
    (hf : AloneSpec hooks t (Partway s₀ id key) f (Undoes s₀)) :
    AloneSpec hooks t (Made s₀ id key none o)
      (Attempt.outcome (setState state .createNew) >>= fun r =>
        match r with
        | .error e => failAfter (rollbackStorage contract state) e
        | .ok _ => f : HostM ObjectSig α) (Undoes s₀) := by
  obtain ⟨hid, h, hh, hk⟩ := hn
  refine Spec.andThen _ (outcome_alone (setNew_made hid)) ?_ ?_
  · intro r
    cases r with
    | error e =>
      rintro s ⟨_, ha, hs⟩
      cases ha
      exact failAfter_storage hh hk s hs
    | ok _ =>
      rintro s ⟨_, ha, hs⟩
      cases ha
      exact hf s hs
  · rintro e s ⟨_, ha, _⟩
    cases ha

/-- The finish gate of the new upload, with a rollback where it rejects. -/
theorem finish_undoes {state : UploadState} {f : HostM ObjectSig α} (hn : IsNew id key state)
    (hf : Succeeds hooks t f) :
    AloneSpec hooks t (Partway s₀ id key)
      (Attempt.outcome (if state.isComplete then finishGate state else pure ()) >>= fun r =>
        match r with
        | .error e => failAfter (rollbackCreation contract state) e
        | .ok _ => f : HostM ObjectSig α) (Undoes s₀) := by
  refine Spec.andThen _ (outcome_alone (finish_partway state)) ?_ ?_
  · intro r
    cases r with
    | error e =>
      rintro s ⟨_, _, hs⟩
      exact failAfter_partway hn s hs
    | ok _ => exact hf.undoes
  · rintro e s ⟨_, ha, _⟩
    cases ha

/-- The object of the new upload, and what is done with it. -/
theorem create_undoes {f : StorageHandle → HostM ObjectSig α} (hu : Unused s₀.world)
    (hid : s₀.world.states id = none)
    (hf : ∀ h : StorageHandle, AloneSpec hooks t (Made s₀ id h.key none (some [])) (f h) (Undoes s₀)) :
    AloneSpec hooks t (Untouched s₀) (contract.create id >>= f : HostM ObjectSig α) (Undoes s₀) :=
  Spec.andThen _ (create_made hu hid) hf fun _ _ hs _ _ => Untouched.undone hs

theorem createUpload_undoes {config : Config} {digests : Digests} {state : UploadState}
    (hu : Unused s₀.world) (hnone : s₀.world.states state.id = none) :
    AloneSpec hooks t (Untouched s₀) (createUpload ⟨config, digests, contract⟩ state)
      (Undoes s₀) := by
  refine andThen_untouched (gate_quiet aboutStores_untouched .create state) ?_
  rintro ⟨created, responseHeaders⟩ hid
  dsimp only at hid
  rw [← hid] at hnone
  refine create_undoes hu hnone fun h => ?_
  have hn : IsNew created.id h.key (created.setStorageHandle h) := ⟨rfl, h, rfl, rfl⟩
  refine record_undoes hn (finish_undoes hn ?_)
  exact (runPostEvent_succeeds _ _).bind fun _ =>
    (afterCommitIfComplete_succeeds _).bind fun _ => Succeeds.pure _

/-- Intake asks the hooks and keeps the id. -/
theorem prepareReceiveBody_quiet {server : Server ObjectSig} {headers : Headers}
    {body : RequestBody} {kind : ReceiveBodyKind} (state : UploadState) :
    AloneSpec hooks t (Untouched s₀) (prepareReceiveBody server headers state body kind)
      fun r s => Untouched s₀ s ∧ ∀ a, r = .ok a → a.1.id = state.id := by
  refine Spec.andThen _ (gate_quiet aboutStores_untouched .receive state) ?_
    fun _ _ hs => ⟨hs.1, fun _ h => nomatch h⟩
  rintro ⟨received, responseHeaders⟩
  refine Spec.assume fun hid => ?_
  refine Spec.andThen (fun _ => Untouched s₀) (Spec.done fun _ hs => hs)
    (fun collected => Spec.done fun _ hs => ⟨hs, ?_⟩) fun _ _ hs => ⟨hs, fun _ h => nomatch h⟩
  rintro _ ha
  cases ha
  exact hid _ rfl

theorem always_partway {state : UploadState} {prepared : PreparedReceiveBody}
    (hn : IsNew id key state) :
    AloneSpec hooks t (Partway s₀ id key)
      (Attempt.always (commitReceiveBody contract state prepared) :
        HostM ObjectSig (UploadState × Except Error Unit))
      fun r s => ∃ a, r = .ok a ∧ Partway s₀ id key s ∧ IsNew id key a.1 :=
  Spec.bind _ (commitReceiveBody_partway hn) fun a => Spec.done fun _ hs => ⟨a, rfl, hs⟩

theorem receiveCreationWithUpload_undoes {config : Config} {digests : Digests} {headers : Headers}
    {state : UploadState} {body : RequestBody} (hu : Unused s₀.world)
    (hnone : s₀.world.states state.id = none) :
    AloneSpec hooks t (Untouched s₀)
      (receiveCreationWithUpload ⟨config, digests, contract⟩ headers state body) (Undoes s₀) := by
  refine andThen_untouched (gate_quiet aboutStores_untouched .create state) ?_
  rintro ⟨accepted, createHeaders⟩ haccepted
  refine andThen_untouched (prepareReceiveBody_quiet accepted) ?_
  rintro ⟨received, prepared⟩ hreceived
  dsimp only at haccepted hreceived
  rw [← haccepted, ← hreceived] at hnone
  refine create_undoes hu hnone fun h => ?_
  have hn : IsNew received.id h.key (received.setStorageHandle h) := ⟨rfl, h, rfl, rfl⟩
  refine record_undoes hn (Spec.andThen _ (always_partway hn) ?_ ?_)
  · rintro ⟨committed, result⟩ s ⟨_, ha, hs, hn'⟩
    cases ha
    cases result with
    | error e => exact failAfter_partway hn' s hs
    | ok _ =>
      refine finish_undoes hn' ?_ s hs
      exact (runPostEvent_succeeds _ _).bind fun _ => (runPostEvent_succeeds _ _).bind fun _ =>
        (afterCommitIfComplete_succeeds _).bind fun _ => Succeeds.pure _
  · rintro e s ⟨_, ha, _⟩
    cases ha

/-! ### Final uploads -/

theorem aboutStores_undoes (r : Except Error α) : AboutStores (Undoes s₀ r) := by
  intro s s' hs hw hh e he
  obtain ⟨hstates, hobjects⟩ | hfailed := hs e he
  · exact .inl ⟨hw.states.trans hstates, hw.objects.trans hobjects⟩
  · exact .inr (hfailed.extend (List.suffix_refl _) hh)

/-- The locks of the parts do not matter to the stores. -/
theorem lockPartsThen_undoes {body : HostM ObjectSig α}
    (hbody : AloneSpec hooks t (Untouched s₀) body (Undoes s₀)) (held ids : List String) :
    AloneSpec hooks t (Untouched s₀) (lockPartsThen body held ids) (Undoes s₀) := by
  have hfail : ∀ (e : Error) (held : List String), AloneSpec hooks t (Untouched s₀)
      (Prog.bind (unlockAll held) fun _ => .done (.error e)) (Undoes s₀ (α := α)) := fun e held =>
    Spec.bind _ (unlockAll_quiet aboutStores_untouched held) fun _ =>
      Spec.done fun _ hs _ _ => hs.undone
  induction ids generalizing held with
  | nil =>
    refine Spec.bind _ hbody fun r => ?_
    exact Spec.bind _ (unlockAll_quiet (aboutStores_undoes r) held) fun _ => Spec.done fun _ hs => hs
  | cons id ids ih =>
    refine quiet_spec aboutStores_untouched quiet_tryLock fun r => ?_
    match r with
    | .error e => exact hfail e held
    | .ok false => exact hfail (.locked id) held
    | .ok true => exact ih (id :: held)

/-- A concatenation into the new object, whatever it answers. -/
theorem concat_made {target : StorageHandle} {sources : List StorageHandle}
    (hk : target.key = key) :
    AloneSpec hooks t (Made s₀ id key none o) (contract.concat target sources)
      fun (r : Except Error StorageHandle) s =>
        (∃ o, Made s₀ id key none o s) ∧ ∀ h, r = .ok h → h.key = key := by
  refine alone_step (o := .storage (.concat target sources))
    (fun (r : Except Error StorageHandle) s =>
      (∃ o, Made s₀ id key none o s) ∧ ∀ h, r = .ok h → h.key = key)
    aboutStores_made.undrifted ?_ fun _ => Spec.done fun _ hs => hs
  intro s a w' hs he
  cases he with
  | @concat _ _ _ contents _ _ _ =>
    have hobjects : (s.world.put target.key contents.flatten).objects =
        Function.update s₀.world.objects key (some contents.flatten) := by
      rw [World.put_objects, hs.objects, hk, Function.update_idem]
    refine ⟨⟨_, hs.states, hobjects, hs.noState, hs.noObject,
      hs.hist.trans (List.suffix_cons _ _)⟩, ?_⟩
    rintro h hh
    cases hh
    exact hk
  | concatFailed =>
    exact ⟨⟨o, aboutStores_made s _ hs ⟨rfl, rfl, rfl⟩ (List.suffix_cons _ _)⟩,
      fun _ hh => nomatch hh⟩

theorem materializeFinalUpload_made {state : UploadState} {parts : List UploadState}
    (hn : IsNew id key state) :
    AloneSpec hooks t (Made s₀ id key none o) (materializeFinalUpload contract state parts)
      fun r s => (∃ o, Made s₀ id key none o s) ∧ ∀ a, r = .ok a → IsNew id key a := by
  obtain ⟨hid, h, hh, hk⟩ := hn
  unfold materializeFinalUpload UploadState.requireStorageHandle
  rw [hh]
  refine Spec.andThen (fun r s => Made s₀ id key none o s ∧ r = .ok h)
    (Spec.done fun _ hs => ⟨hs, rfl⟩) (fun target => Spec.assume fun ht => ?_) fun _ _ hs => nomatch hs.2
  cases ht
  refine Spec.andThen (fun _ => Made s₀ id key none o) (Spec.done fun _ hs => hs) (fun sources => ?_)
    fun _ _ hs => ⟨⟨o, hs⟩, fun _ ha => nomatch ha⟩
  refine Spec.andThen _ (concat_made hk) (fun h' => Spec.assume fun hk' => Spec.done fun _ hs => ⟨hs, ?_⟩)
    fun _ _ hs => ⟨hs.1, fun _ ha => nomatch ha⟩
  rintro _ ha
  cases ha
  exact ⟨hid, h', rfl, hk' h' rfl⟩

theorem applyFinalUploadPlan_id (state : UploadState) (partIds : List String)
    (status : FinalUploadStatus) : (applyFinalUploadPlan state partIds status).id = state.id := by
  unfold applyFinalUploadPlan
  cases status.totalLength <;> rfl

theorem cap_id (state : UploadState) (parts : List UploadState) :
    (capPlannedFinalUploadExpiration state parts).id = state.id := by
  obtain h | ⟨e, h⟩ := cap_cases state parts
  · rw [h]
  · rw [h]
    rfl

/-- From the object of the new final upload on. -/
theorem createWithObject_undoes {state : UploadState} {parts : List UploadState}
    {status : FinalUploadStatus} {responseHeaders : List (String × String)}
    (hu : Unused s₀.world) (hnone : s₀.world.states state.id = none) :
    AloneSpec hooks t (Untouched s₀)
      (do
        let handle ← contract.create state.id
        let materialized ←
          if status.readyToMaterialize then
            Attempt.outcome (materializeFinalUpload contract (state.setStorageHandle handle) parts)
          else pure (.ok (state.setStorageHandle handle))
        match materialized with
        | .error e => failAfter (rollbackStorage contract (state.setStorageHandle handle)) e
        | .ok state =>
          match ← Attempt.outcome (setState state .createNew) with
          | .error e => failAfter (rollbackStorage contract state) e
          | .ok _ =>
            runPostEvent .postCreate state
            if status.allComplete then afterCommit state else pure ()
            pure (state, status, responseHeaders) :
        HostM ObjectSig (UploadState × FinalUploadStatus × List (String × String)))
      (Undoes s₀) := by
  refine create_undoes hu hnone fun h => ?_
  have hn : IsNew state.id h.key (state.setStorageHandle h) := ⟨rfl, h, rfl, rfl⟩
  have hevents : ∀ created : UploadState, Succeeds hooks t (do
      runPostEvent .postCreate created
      if status.allComplete then afterCommit created else pure ()
      pure (created, status, responseHeaders) :
        HostM ObjectSig (UploadState × FinalUploadStatus × List (String × String))) :=
    fun created => (runPostEvent_succeeds _ _).bind fun _ =>
      Spec.ite (fun _ => (runPostEvent_succeeds _ _).bind fun _ => Succeeds.pure _)
        fun _ => Succeeds.pure _
  refine Spec.ite (fun _ => ?_) fun _ => record_undoes hn (hevents _).undoes
  refine Spec.andThen _ (outcome_alone (materializeFinalUpload_made hn)) ?_ ?_
  · rintro r s ⟨_, ha, ⟨o, hs⟩, hn'⟩
    cases ha
    cases r with
    | error e => exact failAfter_storage rfl rfl s hs
    | ok created => exact record_undoes (hn' created rfl) (hevents _).undoes s hs
  · rintro e s ⟨_, ha, _⟩
    cases ha

theorem createPlanned_undoes {config : Config} {digests : Digests} {state : UploadState}
    {plan : FinalUploadPlan} (hu : Unused s₀.world) (hnone : s₀.world.states state.id = none) :
    AloneSpec hooks t (Untouched s₀) (createPlanned ⟨config, digests, contract⟩ state plan)
      (Undoes s₀) := by
  refine Spec.andThen (fun _ => Untouched s₀) (Spec.done fun _ hs => hs) (fun _ => ?_)
    fun _ _ hs _ _ => hs.undone
  refine andThen_untouched (gate_quiet aboutStores_untouched .create _) ?_
  rintro ⟨accepted, responseHeaders⟩ haccepted
  dsimp only at haccepted
  rw [cap_id, applyFinalUploadPlan_id] at haccepted
  rw [← haccepted] at hnone
  refine Spec.ite (fun _ => ?_) fun _ => createWithObject_undoes hu hnone
  refine andThen_untouched (A := fun _ => True) ?_ fun _ _ => createWithObject_undoes hu hnone
  exact Spec.andThen _ (gate_quiet aboutStores_untouched .finish _)
    (fun _ => Spec.done fun _ hs => ⟨hs.1, fun _ _ => trivial⟩) fun _ _ hs => ⟨hs.1, fun _ _ => trivial⟩

theorem createFinalUpload_undoes {config : Config} {digests : Digests} {state : UploadState}
    {partUrls : List String} (hu : Unused s₀.world) (hnone : s₀.world.states state.id = none) :
    AloneSpec hooks t (Untouched s₀) (createFinalUpload ⟨config, digests, contract⟩ state partUrls)
      (Undoes s₀) := by
  have hload : ∀ f : FinalUploadPlan → HostM ObjectSig _,
      (∀ plan, AloneSpec hooks t (Untouched s₀) (f plan) (Undoes s₀)) →
      AloneSpec hooks t (Untouched s₀) (loadFinalUploadPlan config partUrls >>= f :
        HostM ObjectSig (UploadState × FinalUploadStatus × List (String × String))) (Undoes s₀) :=
    fun f hf => Spec.andThen _ (loadFinalUploadPlan_quiet aboutStores_untouched partUrls) hf
      fun _ _ hs _ _ => hs.undone
  refine hload _ fun plan => Spec.ite (fun _ => ?_) fun _ => createPlanned_undoes hu hnone
  exact lockPartsThen_undoes (hload _ fun plan => createPlanned_undoes hu hnone) _ _

/-! ### Requests -/

/-- The state a creation starts from. -/
def CreationTransition.state : CreationTransition → UploadState
  | .upload state => state
  | .finalUpload state _ => state

theorem initialState_id (headers : Headers) (state : UploadState) :
    (initialState headers state).id = state.id := by
  unfold initialState
  cases headers.uploadLength <;> cases headers.uploadMetadata <;> rfl

theorem transition_id (headers : Headers) (state : UploadState) :
    (CreationTransition.state (transition headers state)).id = state.id := by
  unfold transition
  split <;> rfl

/-- A creation gets an id that has no record. -/
theorem prepareCreation_fresh {config : Config} {headers : Headers} {hasBody : Bool}
    (hu : Unused s₀.world) :
    AloneSpec hooks t (fun s => Untouched s₀ s ∧ s.world.issued = s₀.world.issued)
      (prepareCreation config headers hasBody) fun r s => Untouched s₀ s ∧
        ∀ a, r = .ok a → s₀.world.states (CreationTransition.state a).id = none := by
  refine Spec.andThen (fun _ s => Untouched s₀ s ∧ s.world.issued = s₀.world.issued)
    (Spec.done fun _ hs => hs) (fun _ => ?_) fun _ _ hs => ⟨hs.1, fun _ h => nomatch h⟩
  refine alone_step (fun (id : String) s => Untouched s₀ s ∧ s₀.world.states id = none) ?_ ?_
    fun id => Spec.assume fun hnone => ?_
  · rintro s _ hs ⟨n, _, rfl⟩
    exact ⟨hs.1.later ⟨rfl, rfl, rfl⟩ (List.suffix_refl _), hs.2⟩
  · intro s a w' hs he
    cases he with
    | newId hissued _ =>
      rw [hs.2] at hissued
      exact ⟨hs.1.later ⟨rfl, rfl, rfl⟩ (List.suffix_cons _ _), hu.states _ hissued⟩
  · refine quiet_spec aboutStores_untouched quiet_now fun createdAt => ?_
    have hid : ∀ state : UploadState, state.id = id →
        s₀.world.states (CreationTransition.state (transition headers state)).id = none := by
      intro state h
      rw [transition_id, h, hnone]
    have hstate : (initialState headers (.new id createdAt)).id = id := initialState_id _ _
    cases config.expiration with
    | none =>
      refine Spec.done fun s hs => ⟨hs, ?_⟩
      rintro _ ha
      cases ha
      exact hid _ hstate
    | some expiration =>
      refine quiet_spec aboutStores_untouched quiet_now fun now => ?_
      refine Spec.done fun s hs => ⟨hs, ?_⟩
      rintro _ ha
      cases ha
      exact hid _ hstate

theorem respond_succeeds (id : String) (response : Response) :
    Succeeds hooks t (respond id response) :=
  alone_step (fun _ _ => True) (fun _ _ _ _ => trivial) (fun _ _ _ _ _ => trivial)
    fun _ => Spec.done fun _ _ => ⟨response, rfl⟩

theorem created_undoes {p : HostM ObjectSig α} {f : α → HostM ObjectSig β}
    (hp : AloneSpec hooks t (Untouched s₀) p (Undoes s₀)) (hf : ∀ a, Succeeds hooks t (f a)) :
    AloneSpec hooks t (Untouched s₀) (p >>= f : HostM ObjectSig β) (Undoes s₀) :=
  Spec.andThen _ hp (fun a => (hf a).undoes) fun e _ hs _ _ => hs e rfl

/-- From the choice of an id on. -/
theorem createAnswered_undoes {server : Server ObjectSig} (hserver : server.storage = contract)
    {texts : Texts} {headers : Headers} {body : RequestBody} {hasBody : Bool}
    (hu : Unused s₀.world) :
    AloneSpec hooks t (fun s => Untouched s₀ s ∧ s.world.issued = s₀.world.issued)
      (do
        match ← prepareCreation server.config headers hasBody with
        | .finalUpload state partUrls =>
          let (state, status, responseHeaders) ← createFinalUpload server state partUrls
          let offset := if status.allComplete then some state.offset else none
          respond state.id (createdResponse server texts state offset state.length responseHeaders)
        | .upload state =>
          if hasBody then do
            let (state, responseHeaders) ← receiveCreationWithUpload server headers state body
            respond state.id
              (createdResponse server texts state (some state.offset) none responseHeaders)
          else do
            let (state, responseHeaders) ← createUpload server state
            respond state.id (createdResponse server texts state none none responseHeaders) :
        HostM ObjectSig Response)
      (Undoes s₀) := by
  obtain ⟨config, digests, storage⟩ := server
  dsimp only at hserver
  subst hserver
  refine Spec.andThen _ (prepareCreation_fresh hu) (fun a => Spec.assume fun ha => ?_)
    fun _ _ hs _ _ => hs.1.undone
  have hnone := ha a rfl
  match a, hnone with
  | .finalUpload state partUrls, hnone =>
    exact created_undoes (createFinalUpload_undoes hu hnone) fun _ => respond_succeeds _ _
  | .upload state, hnone =>
    refine Spec.ite (fun _ => ?_) fun _ => ?_
    · exact created_undoes (receiveCreationWithUpload_undoes hu hnone) fun _ => respond_succeeds _ _
    · exact created_undoes (createUpload_undoes hu hnone) fun _ => respond_succeeds _ _

theorem post_undoes {config : Config} {digests : Digests} {texts : Texts} {headers : Headers}
    {body : RequestBody} (hu : Unused s₀.world) :
    AloneSpec hooks t (fun s => Untouched s₀ s ∧ s.world.issued = s₀.world.issued)
      (Protocol.post ⟨config, digests, contract⟩ texts headers body) (Undoes s₀) := by
  refine Spec.ite (fun _ => ?_) fun _ => createAnswered_undoes rfl hu
  exact Spec.andThen (fun _ s => Untouched s₀ s ∧ s.world.issued = s₀.world.issued)
    (Spec.done fun _ hs => hs) (fun _ => createAnswered_undoes rfl hu) fun _ _ hs _ _ => hs.1.undone

/-- A creation that answers an error and whose rollback did not fail has changed neither
store. -/
theorem creation_rolled_back {config : Config} {digests : Digests} {texts : Texts}
    {headers : Headers} {body : RequestBody} {s s' : Snap (Host ObjectSig) World} {e : Error}
    (hu : Unused s.world)
    (h : Lone (host hooks) t (Protocol.post ⟨config, digests, contract⟩ texts headers body) s
      (.error e) s') (hrollback : ¬Since s.hist RollbackFailed s') :
    s'.world.states = s.world.states ∧ s'.world.objects = s.world.objects :=
  ((post_undoes hu).lone ⟨.refl s, rfl⟩ h e rfl).resolve_right hrollback

/-- Stores without an upload. -/
def emptyWorld : World where
  states := fun _ => none
  objects := fun _ => none
  locks := fun _ => none
  clock := 0
  since := fun _ => 0
  owner := fun _ => none
  issued := fun _ => False
  hidden := fun _ => none

/-- The headers of a creation of no bytes. -/
def zeroLength : Headers where
  uploadOffset := none
  uploadLength := some 0
  uploadDeferLength := false
  uploadMetadata := none
  uploadChecksum := none
  uploadChecksumError := none
  uploadConcat := none
  contentLength := none
  contentType := none

/-- Hooks that accept everything but the end of an upload. -/
def refusing (event : HookEvent) (_ : UploadState) (r : Except Error PreHookResult) : Prop :=
  r = .ok ⟨event != .preFinish, none, none, none, []⟩

open Lone in
/-- The finish hook rejects an upload of no bytes, and the rollback succeeds. -/
theorem rejected_creation_run : ∃ s', Lone (host refusing) 0
    (Protocol.post ⟨.default, ⟨fun _ bytes => bytes, fun _ => ""⟩, contract⟩
      ⟨fun _ => "", fun _ => ""⟩ zeroLength .absent)
    ⟨emptyWorld, []⟩ (.error (.hookRejected 400 "")) s' ∧
    Without RollbackFailed ⟨emptyWorld, []⟩ s' :=
  step_without (@HostExec.newId _ _ emptyWorld "u" id rfl) id <| step_without .now id <|
    step_without (.hookPre rfl) id <|
    step_without (@HostExec.create _ _ _ _ "u" [] rfl) id <|
    step_without (.stateCreate rfl) id <| step_without (.hookPre rfl) id <|
    step_without .delete nofun <| step_without .stateDelete nofun <|
    ⟨_, .done _ _, .refl _⟩

/-- Nothing is left of that creation. -/
theorem creation_rolled_back_zero : ∃ s', Lone (host refusing) 0
    (Protocol.post ⟨.default, ⟨fun _ bytes => bytes, fun _ => ""⟩, contract⟩
      ⟨fun _ => "", fun _ => ""⟩ zeroLength .absent)
    ⟨emptyWorld, []⟩ (.error (.hookRejected 400 "")) s' ∧
    s'.world.states = emptyWorld.states ∧ s'.world.objects = emptyWorld.objects := by
  obtain ⟨s', hrun, hwithout⟩ := rejected_creation_run
  exact ⟨s', hrun, creation_rolled_back ⟨fun _ _ => rfl, fun _ _ => rfl⟩ hrun hwithout.not_since⟩

end Creation

end System

end TusRs
