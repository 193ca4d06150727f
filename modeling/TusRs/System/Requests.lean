import TusRs.System.Logs

/-!
# Requests perform what they have earned

Every function of the handlers keeps to `Earned`, whatever the answers of the operations are.

Results:

* `serve_keeps`: a request performs only what it has earned, and ends without a lock.
-/

namespace TusRs

open Interaction

open Protocol

namespace System.Requests

variable {E : HostOp ObjectSig → Prop} {P K : Log → Prop}

/-! ## Access -/

section Access

variable {request : Request} {state : UploadState} {id : String}

/-- The working copy of a record that was read. -/
structure Same (old cur : UploadState) : Prop where
  id_eq : cur.id = old.id
  handle : cur.handle = old.handle
  isFinal : cur.isFinal = old.isFinal

theorem Same.refl (state : UploadState) : Same state state := ⟨rfl, rfl, rfl⟩

theorem Same.trans {s₁ s₂ s₃ : UploadState} (h : Same s₁ s₂) (h' : Same s₂ s₃) : Same s₁ s₃ :=
  ⟨h'.id_eq.trans h.id_eq, h'.handle.trans h.handle, h'.isFinal.trans h.isFinal⟩

theorem same_setOffset (state : UploadState) (n : Nat) : Same state (state.setOffset n) :=
  ⟨rfl, rfl, rfl⟩

theorem checkExists_does (hP : Steady E P) (hE : ¬E (.stateGet id)) :
    Does request P (checkExists id) fun _ _ => True := by
  refine .perform hP hE (fun _ _ => trivial) fun (r : Except Error (Option UploadState)) => ?_
  match r with
  | .error e => exact .error e
  | .ok none => exact .error _
  | .ok (some _) => exact .pure fun _ _ => trivial

theorem requireState_does (hP : Steady E P) (hE : ¬E (.stateGet id)) :
    Does request P (requireState id) fun state φ => got id state ∈ φ := by
  refine .perform hP hE (fun _ _ => trivial) fun (r : Except Error (Option UploadState)) => ?_
  match r with
  | .error e => exact .error e
  | .ok none => exact .error _
  | .ok (some state) => exact .pure fun _ h => h.2

theorem isExpired_does (hP : Steady OnFinish P) :
    Does request P (isExpired state) fun _ _ => True :=
  .perform hP id (fun _ _ => trivial) fun _ => .pure fun _ _ => trivial

theorem ensureActive_does (hP : Steady OnFinish P) :
    Does request P (ensureActive state) fun _ _ => True := by
  refine .perform hP id (fun _ _ => trivial) fun (now : Nat) => ?_
  exact .ite (fun _ => .error _) fun _ => .pure fun _ _ => trivial

/-- An accepted hook leaves the state but for its metadata. -/
theorem outcome_eq (gate : PreHookGate) (state : UploadState) (result : PreHookResult) :
    ∃ metadata, (gate.outcome state result).1 = { state with metadata := metadata } := by
  unfold PreHookGate.outcome
  dsimp only
  split
  · split
    · exact ⟨_, rfl⟩
    · exact ⟨state.metadata, rfl⟩
  · exact ⟨state.metadata, rfl⟩

theorem gate_does {gate : PreHookGate} (hP : Steady E P) (hE : ¬E (.hookPre gate.event state)) :
    Does request P (gate.run state) fun r φ =>
      (∃ metadata, r.1 = { state with metadata := metadata }) ∧ Accepted gate.event state φ := by
  refine .perform hP hE (fun _ _ => trivial) fun (r : Except Error PreHookResult) => ?_
  cases r with
  | error e => exact .error e
  | ok result =>
    refine .ite (fun hproceed => .pure fun _ h => ?_) fun _ => .error _
    exact ⟨outcome_eq gate state result, result, hproceed, h.2⟩

/-- After the finish gate the completion is pending. -/
theorem finishGate_keeps
    (hP : ∀ φ r, P φ → P (⟨.hookPre .preFinish state, r⟩ :: φ)) :
    Does request P (finishGate state) fun _ φ => pending φ = some state.id := by
  have hrun : Keeps request P (PreHookGate.finish.run state) fun r φ =>
      P φ ∧ ∀ a, r = .ok a → pending φ = some state.id := by
    refine .step (fun a φ => P φ ∧ ∀ result : PreHookResult, a = .ok result →
      result.proceed = true → pending φ = some state.id) (fun _ _ => trivial) ?_ ?_
    · rintro φ (e | result) h
      · exact ⟨hP φ _ h, nofun⟩
      · refine ⟨hP φ _ h, fun _ ha hproceed => ?_⟩
        cases ha
        exact if_pos hproceed
    · intro (r : Except Error PreHookResult)
      cases r with
      | error e => exact .done fun _ h => ⟨h.1, nofun⟩
      | ok result =>
        exact .ite (fun hproceed => .done fun _ h => ⟨h.1, fun _ _ => h.2 _ rfl hproceed⟩)
          fun _ => .done fun _ h => ⟨h.1, nofun⟩
  exact .andThen _ hrun (fun a => .done fun _ h => ⟨h.1, fun _ _ => h.2 a rfl⟩)
    fun _ _ h => ⟨h.1, nofun⟩

theorem finishGate_does (hP : Steady OnLock P) :
    Does request P (finishGate state) fun _ φ => pending φ = some state.id :=
  finishGate_keeps fun φ _ h => hP φ _ id h

theorem runPostEvent_does {event : HookEvent} (hP : Steady E P) (hE : ¬E (.hookPost event state))
    (hevent : ∀ φ, P φ → Announced state φ event) :
    Does request P (runPostEvent event state) fun _ _ => True :=
  .perform hP hE hevent fun _ => .pure fun _ _ => trivial

/-- The announcement of a completion uses up its acceptance. -/
theorem afterCommit_uses (hP : Steady OnLock P)
    (hK : ∀ φ, P φ → K φ → Announced state φ .postFinish) :
    Uses request P K (afterCommit state) fun _ _ => True :=
  .step (fun _ => P) (fun φ h => hK φ h.1 h.2) (fun φ _ h => hP φ _ id h.1)
    fun _ => .done fun _ h => ⟨h, fun _ _ => trivial⟩

theorem afterCommitIfComplete_uses (hP : Steady OnLock P)
    (hK : ∀ φ, P φ → K φ → state.isComplete = true → Announced state φ .postFinish) :
    Uses request P K (afterCommitIfComplete state) fun _ _ => True :=
  .ite (fun hcomplete => afterCommit_uses hP fun φ h hφ => hK φ h hφ hcomplete)
    fun _ => .of_does (.pure fun _ _ => trivial)

/-- The finish gate of a record that is complete. -/
theorem finishIfComplete_does {c : Bool} (hP : Steady OnLock P) :
    Does request P (if c then finishGate state else pure ()) fun _ φ =>
      c = true → pending φ = some state.id := by
  refine .ite (fun _ => (finishGate_does hP).weaken fun _ _ _ h _ => h) fun hc => ?_
  exact .pure fun _ _ h => absurd h hc

theorem steady_pendingIf (c : Prop) (r : Option String) :
    Steady OnFinish fun φ => c → pending φ = r :=
  fun φ call hcall h hc => steady_pending r φ call hcall (h hc)

theorem setState_does {mode : WriteMode} (hP : Steady E P) (hE : ¬E (.stateSet state mode))
    (hearned : ∀ φ, P φ → Earned request φ (.stateSet state mode)) :
    Does request P (setState state mode) fun _ φ => wrote mode state ∈ φ := by
  refine .perform hP hE hearned fun (r : Except Error Unit) => ?_
  cases r with
  | error e => exact .error e
  | ok _ => exact .pure fun _ h => h.2

/-- An update of a record that is not final is always earned. -/
theorem update_does (hP : Steady E P) (hE : ¬E (.stateSet state .update))
    (hregular : state.isFinal = false) :
    Does request P (setState state .update) fun _ φ => wrote .update state ∈ φ :=
  setState_does hP hE fun _ _ hfinal => absurd (hfinal.symm.trans hregular) (by decide)

theorem size_does {h : StorageHandle} (hP : Steady OnFinish P) :
    Does request P (contract.size h) fun n φ => (⟨.storage (.size h), .ok n⟩ : Call (Host ObjectSig)) ∈ φ := by
  refine .perform hP id (fun _ _ => trivial) fun (r : Except Error (Option Nat)) => ?_
  cases r with
  | error e => exact .error e
  | ok n => exact .pure fun _ h => h.2

theorem detectStoredCompletion_does (hP : Steady OnFinish P) :
    Does request P (detectStoredCompletion contract state) fun r _ =>
      ∀ l, r = some l → state.length = some l := by
  refine .ite (fun _ => .pure fun _ _ _ h => nomatch h) fun _ => ?_
  cases hlen : state.length with
  | none => exact .pure fun _ _ _ h => nomatch h
  | some length =>
    cases state.handle with
    | none => exact .pure fun _ _ _ h => nomatch h
    | some handle =>
      refine .seq (size_does hP) fun stored => .ite (fun _ => .error _) fun _ => ?_
      exact .ite (fun _ => .pure fun _ _ _ h => nomatch h) fun _ => .pure fun _ _ _ h => h

/-- Bytes that complete the record complete the upload, with both hooks. -/
theorem reconcileStoredCompletion_does (hP : Steady OnLock P) (hregular : state.isFinal = false) :
    Does request P (reconcileStoredCompletion contract state) fun r _ =>
      ∃ n, r = state.setOffset n := by
  refine .seq (detectStoredCompletion_does hP.finish) fun r => ?_
  cases r with
  | none => exact .pure fun _ _ => ⟨state.offset, rfl⟩
  | some length =>
    refine .assume fun hlen => ?_
    have hcomplete : (state.setOffset length).isComplete = true :=
      (UploadState.isComplete_iff _).mpr ⟨length, hlen length rfl, Nat.le_refl _⟩
    refine Uses.intro (finishGate_does hP) fun _ => Uses.seq (A := fun _ φ =>
      wrote .update (state.setOffset length) ∈ φ) ?_ fun _ => ?_
    · exact update_does (hP.finish.and (steady_pending _)) id hregular
    refine Uses.after (afterCommit_uses hP fun φ _ h => ⟨h.1, hcomplete, _, h.2⟩) fun _ => ?_
    exact .pure fun _ _ => ⟨length, rfl⟩

theorem reconcileStorageOffset_does (hP : Steady OnFinish P) (hregular : state.isFinal = false) :
    Does request P (reconcileStorageOffset contract state) fun r _ =>
      ∃ n, r = state.setOffset n := by
  have hwrite : ∀ n, Does request P (do
      setState (O := ObjectSig) (state.setOffset n) .update
      Pure.pure (state.setOffset n)) fun r _ => ∃ n, r = state.setOffset n :=
    fun n => .seq (update_does hP id hregular) fun _ => .pure fun _ _ => ⟨n, rfl⟩
  unfold reconcileStorageOffset
  extract_lets rest
  have hrest : ∀ stored, Does request P (rest stored) fun r _ => ∃ n, r = state.setOffset n := by
    intro stored
    refine .ite (fun _ => .pure fun _ _ => ⟨state.offset, rfl⟩) fun _ => ?_
    split
    · exact .ite (fun _ => .error _) fun _ => hwrite _
    · exact hwrite _
  cases state.handle with
  | none => exact hrest none
  | some handle =>
    refine .seq ((size_does hP).weaken fun _ _ _ _ => trivial) fun stored => ?_
    exact .assume fun _ => hrest stored

/-- The record of an upload that is not final changes by its offset at most. -/
theorem prepareRegularUploadAccess_does (hP : Steady OnLock P) (hregular : state.isFinal = false) :
    Does request P (prepareRegularUploadAccess contract state) fun r _ => Same state r := by
  refine .seq (reconcileStoredCompletion_does hP hregular) fun cur => .assume fun hcur => ?_
  obtain ⟨n, rfl⟩ := hcur
  refine .seq (ensureActive_does hP.finish) fun _ => .assume fun _ => ?_
  have hoffset : Does request P (reconcileStorageOffset contract (state.setOffset n)) fun r _ =>
      ∃ m, r = (state.setOffset n).setOffset m := reconcileStorageOffset_does hP.finish hregular
  refine hoffset.weaken fun r _ _ hr => ?_
  obtain ⟨m, rfl⟩ := hr
  exact same_setOffset state m

theorem prepareUploadMutationAccess_does (hP : Steady OnLock P) :
    Does request P (prepareUploadMutationAccess contract state) fun r _ =>
      Same state r ∧ r.isFinal = false := by
  refine .ite (fun _ => ?_) fun hfinal => ?_
  · exact .seq (ensureActive_does hP.finish) fun _ => .error _
  · have hregular : state.isFinal = false := Bool.eq_false_iff.mpr hfinal
    exact (prepareRegularUploadAccess_does hP hregular).weaken fun r _ _ hr =>
      ⟨hr, hr.isFinal.trans hregular⟩

end Access

/-! ## Bodies -/

section Bodies

variable {request : Request} {state : UploadState} {config : Config} {digests : Digests}
  {headers : Headers} {body : RequestBody}

theorem prepareReceive_does {receive : ReceiveRequest} (hP : Steady OnFinish P) :
    Does request P (prepareReceive config state receive) fun r _ => Same state r := by
  refine .seq (ensureActive_does hP) fun _ => .assume fun _ => ?_
  refine .ite (fun _ => .error _) fun _ => .ite (fun _ => .error _) fun _ => ?_
  refine .ite (fun _ => .error _) fun _ => ?_
  exact .seq (A := fun _ _ => True) (.lift fun _ _ _ _ => trivial) fun _ =>
    .pure fun _ _ => ⟨rfl, rfl, rfl⟩

/-- What intake and projection have established. -/
structure Prepared (cur : UploadState) (prepared : PreparedReceiveBody) : Prop where
  completes : prepared.projection.completesUpload = true →
    cur.length = some prepared.projection.projectedOffset

theorem prepareReceiveBody_does {kind : ReceiveBodyKind} (hP : Steady OnFinish P) :
    Does request P (prepareReceiveBody ⟨config, digests, contract⟩ headers state body kind)
      fun r φ => (Same state r.1 ∧ Prepared r.1 r.2) ∧ Accepted .preReceive state φ := by
  refine .seq (gate_does hP id) fun ⟨cur, responseHeaders⟩ => ?_
  refine .seq (A := fun (r : IntakeBody × ReceiveProjection) _ => Prepared cur
      ⟨r.1.data, r.2, responseHeaders, r.1.deferred⟩) ?_ fun ⟨collected, projection⟩ => ?_
  · refine .lift fun r _ hr _ => ⟨?_⟩
    obtain ⟨_, _, hr⟩ := except_bind_ok hr
    obtain ⟨projection, hval, hr⟩ := except_bind_ok hr
    cases hr
    exact (validateBodyForReceive_ok hval).completes_iff.mp
  · refine .pure fun φ h => ⟨⟨?_, h.2⟩, h.1.2.2⟩
    obtain ⟨metadata, hcur⟩ := h.1.2.1
    cases hcur
    exact ⟨rfl, rfl, rfl⟩

/-- An append to the object of `state` answered a handle. -/
def Appended (state : UploadState) (φ : Log) : Prop :=
  ∃ h offset data completes h', (⟨.storage (.append h offset data completes), .ok h'⟩ :
    Call (Host ObjectSig)) ∈ φ ∧ state.handle = some h'

/-- What a commit leaves: a working copy that a success has written. -/
structure CommitLeaves (cur : UploadState) (prepared : PreparedReceiveBody)
    (r : UploadState × Except Error Unit) (φ : Log) : Prop where
  id_eq : r.1.id = cur.id
  isFinal : r.1.isFinal = cur.isFinal
  length : r.1.length = cur.length
  handle : r.1.handle = cur.handle ∨ Appended r.1 φ
  written : r.2 = .ok () → wrote .update r.1 ∈ φ ∧ Appended r.1 φ ∧
    r.1.offset = prepared.projection.projectedOffset

theorem settled_appended (state : UploadState) : Settled (Appended state) :=
  settled_exists fun _ => settled_exists fun _ => settled_exists fun _ => settled_exists fun _ =>
    settled_exists fun _ => (settled_mem _).and (settled_const _)

theorem commitReceiveBody_does {prepared : PreparedReceiveBody} (hP : Steady OnFinish P)
    (hregular : state.isFinal = false)
    (hearned : ∀ φ, P φ → ∃ s, Accepted .preReceive s φ ∧
      ∀ h, state.handle = some h → HandleOf request s.id h φ) :
    Does request P (Attempt.always (commitReceiveBody contract state prepared))
      (CommitLeaves state prepared) := by
  suffices hcommit : Keeps request P (commitReceiveBody contract state prepared)
      fun r φ => P φ ∧ CommitLeaves state prepared r φ from
    Watch.Habit.bind _ hcommit fun r => .done fun φ h => ⟨h.1, fun _ ha => Except.ok.inj ha ▸ h.2⟩
  have hfailed : ∀ (e : Error) φ, CommitLeaves state prepared (state, .error e) φ :=
    fun e φ => ⟨rfl, rfl, rfl, .inl rfl, nofun⟩
  unfold commitReceiveBody UploadState.requireStorageHandle
  cases hh : state.handle with
  | none => exact .done fun φ h => ⟨h, hfailed _ φ⟩
  | some handle =>
    refine .perform hP id (fun φ h => ?_) fun (r : Except Error StorageHandle) => ?_
    · obtain ⟨s, haccepted, hof⟩ := hearned φ h
      exact ⟨s, haccepted, hof handle hh⟩
    cases r with
    | error e => cases e <;> exact .done fun φ h => ⟨h.1, hfailed _ φ⟩
    | ok handle' =>
      have happended : ∀ φ, (⟨.storage (.append handle state.offset prepared.data
          prepared.projection.completesUpload), .ok handle'⟩ : Call (Host ObjectSig)) ∈ φ →
          Appended ((state.setStorageHandle handle').setOffset
            prepared.projection.projectedOffset) φ :=
        fun φ h => ⟨_, _, _, _, handle', h, rfl⟩
      dsimp only
      cases prepared.deferredError with
      | some e => exact .done fun φ h => ⟨h.1, hfailed _ φ⟩
      | none =>
        refine .perform (hP.and_settled (settled_mem _)) id (fun φ _ hfinal => ?_)
          fun (r : Except Error Unit) => .done fun φ h => ⟨h.1.1, rfl, rfl, rfl,
            .inr (happended φ h.1.2), fun hok => ⟨?_, happended φ h.1.2, rfl⟩⟩
        · exact absurd (hfinal.symm.trans hregular) (by decide)
        · cases hok
          exact h.2

theorem settled_commitLeaves (cur : UploadState) (prepared : PreparedReceiveBody)
    (r : UploadState × Except Error Unit) : Settled (CommitLeaves cur prepared r) :=
  fun φ c h => ⟨h.id_eq, h.isFinal, h.length, h.handle.imp_right (settled_appended _ φ c),
    fun hok => ⟨List.mem_cons_of_mem _ (h.written hok).1,
      settled_appended _ φ c (h.written hok).2.1, (h.written hok).2.2⟩⟩

/-- A commit that projected the length completes the record. -/
theorem CommitLeaves.isComplete {cur : UploadState} {prepared : PreparedReceiveBody}
    {committed : UploadState} {φ : Log} (h : CommitLeaves cur prepared (committed, .ok ()) φ)
    (hp : Prepared cur prepared) (hc : prepared.projection.completesUpload = true) :
    committed.isComplete = true :=
  (UploadState.isComplete_iff _).mpr ⟨_, h.length.trans (hp.completes hc),
    Nat.le_of_eq (h.written rfl).2.2.symm⟩

theorem receivePatch_does {receive : ReceiveRequest} (hP : Steady OnLock P)
    (hpatch : ∃ headers target body, request = .patch headers target body)
    (hregular : state.isFinal = false)
    (hread : ∀ φ, P φ → ∃ key old, got key old ∈ φ ∧ Same old state) :
    Does request P (receivePatch ⟨config, digests, contract⟩ headers state receive body)
      fun _ _ => True := by
  refine .seq (prepareReceive_does hP.finish) fun cur => .assume fun hcur => ?_
  refine .seq (prepareReceiveBody_does hP.finish) fun ⟨cur', prepared⟩ => .given fun hprepared => ?_
  obtain ⟨hcur', hprojected⟩ := hprepared
  have hP₁ := hP.and_settled (settled_accepted .preReceive cur)
  have hregular' : cur'.isFinal = false := (hcur.trans hcur').isFinal.trans hregular
  refine .seq (commitReceiveBody_does hP₁.finish hregular' fun φ h => ⟨cur, h.2, ?_⟩)
    fun ⟨committed, result⟩ => ?_
  · intro h' hh'
    obtain ⟨key, old, hgot, hold⟩ := hread φ h.1
    exact .inl ⟨hpatch, key, old, hgot, (hold.trans hcur).id_eq.symm,
      (((hold.trans hcur).trans hcur').handle.symm.trans hh')⟩
  have hP₂ := hP₁.and_settled (settled_commitLeaves cur' prepared (committed, result))
  refine .seq (A := fun _ _ => result = .ok ()) (.lift fun _ _ hr _ => hr) fun _ => .assume fun hok => ?_
  subst hok
  refine .seq (runPostEvent_does hP₂.finish id fun φ h => ⟨(h.2.written rfl).1, (h.2.written rfl).2.1⟩)
    fun _ => .assume fun _ => ?_
  refine .ite (fun hcompletes => ?_) fun _ => .pure fun _ _ => trivial
  refine Uses.intro (finishGate_does hP₂) fun _ => ?_
  refine Uses.after (afterCommit_uses hP₂ fun φ h hp => ⟨hp, ?_, _, (h.2.written rfl).1⟩)
    fun _ => .pure fun _ _ => trivial
  exact h.2.isComplete hprojected hcompletes

/-! ### Rollback -/

/-- The handle of the record is one that storage gave out in this request. -/
def Owned (state : UploadState) (φ : Log) : Prop :=
  ∀ h, state.handle = some h → ∃ id h', made id h' ∈ φ ∧ ∃ c ∈ φ, GivenOut h c

theorem rollbackStorage_does (hP : Steady OnFinish P) (howned : ∀ φ, P φ → Owned state φ) :
    Does request P (rollbackStorage contract state) fun _ _ => True := by
  unfold rollbackStorage
  cases hh : state.handle with
  | none => exact .pure fun _ _ => trivial
  | some h =>
    have hdelete : Does request P (contract.delete h) fun _ _ => True := by
      refine .perform hP id (fun φ hφ => .inl (howned φ hφ h hh)) fun (r : Except Error Unit) => ?_
      cases r with
      | error e => exact .error e
      | ok _ => exact .pure fun _ _ => trivial
    exact .seq hdelete.outcome fun _ => .pure fun _ _ => trivial

theorem rollbackCreation_does (hP : Steady OnFinish P) (howned : ∀ φ, P φ → Owned state φ)
    (hbegan : ∀ φ, P φ → Began state.id φ ∧ Unannounced φ) :
    Does request P (rollbackCreation contract state) fun _ _ => True := by
  have hdelete : Does request P (deleteState state.id) fun _ _ => True := by
    refine .perform hP id (fun φ hφ => .inl (hbegan φ hφ)) fun (r : Except Error Unit) => ?_
    cases r with
    | error e => exact .error e
    | ok _ => exact .pure fun _ _ => trivial
  refine .seq (rollbackStorage_does hP howned) fun _ => .assume fun _ => ?_
  exact .seq hdelete.outcome fun _ => .pure fun _ _ => trivial

theorem failAfter_does {α : Type} {undo : HostM ObjectSig Unit} {e : Error} {A : α → Log → Prop}
    (h : Does request P undo fun _ _ => True) : Does request P (failAfter undo e) A :=
  .seq h fun _ => .error e

/-! ### Creation with a body -/

theorem create_does {id : String} (hP : Steady OnFinish P)
    (hearned : ∀ φ, P φ → ∃ s, s.id = id ∧ Accepted .preCreate s φ) :
    Does request P (contract.create id) fun h φ => made id h ∈ φ := by
  refine .perform hP (fun h => h) hearned fun (r : Except Error StorageHandle) => ?_
  cases r with
  | error e => exact .error e
  | ok h => exact .pure fun _ h => h.2

theorem Accepted.same {event : HookEvent} {φ : Log} {cur : UploadState}
    (h : Accepted event state φ) (hid : cur.id = state.id) :
    ∃ s, s.id = cur.id ∧ Accepted event s φ :=
  ⟨state, hid.symm, h⟩

theorem made_owned {cur : UploadState} {id : String} {h : StorageHandle} {φ : Log}
    (hmade : made id h ∈ φ) (hcur : cur.handle = some h ∨ Appended cur φ) : Owned cur φ := by
  intro h' hh'
  refine ⟨id, h, hmade, ?_⟩
  rcases hcur with hcur | ⟨_, _, _, _, h'', hcall, hcur⟩
  · cases hcur.symm.trans hh'
    exact ⟨_, hmade, rfl⟩
  · cases hcur.symm.trans hh'
    exact ⟨_, hcall, rfl⟩

theorem receiveCreationWithUpload_does (hP : Steady OnLock P) (hregular : state.isFinal = false)
    (hun : ∀ φ, P φ → Unannounced φ) :
    Does request P (receiveCreationWithUpload ⟨config, digests, contract⟩ headers state body)
      fun r φ => Began r.1.id φ := by
  refine .seq (gate_does hP id) fun ⟨cur, createHeaders⟩ => .given fun hcur => ?_
  obtain ⟨metadata, rfl : cur = _⟩ := hcur
  have hP₁ := hP.and_settled (settled_accepted .preCreate state)
  refine .seq (prepareReceiveBody_does hP₁.finish) fun ⟨cur, prepared⟩ => .given fun hprepared => ?_
  obtain ⟨hsame, hprojected⟩ := hprepared
  have hP₂ := hP₁.and_settled (settled_accepted .preReceive { state with metadata := metadata })
  refine .seq (create_does hP₂.finish fun φ h => h.1.2.same hsame.id_eq) fun handle => ?_
  have hP₃ := hP₂.and_settled (settled_mem (made cur.id handle))
  have hregular' : (cur.setStorageHandle handle).isFinal = false := hsame.isFinal.trans hregular
  refine .tried (setState_does hP₃.finish id fun φ h => ⟨h.1.1.2.same hsame.id_eq, ⟨handle, h.2⟩,
    fun hfinal => absurd (hfinal.symm.trans hregular') (by decide)⟩) (fun _ => ?_) fun e => ?_
  · have hP₄ := hP₃.and_settled (settled_mem (wrote .createNew (cur.setStorageHandle handle)))
    refine .seq (commitReceiveBody_does hP₄.finish hregular' fun φ h =>
      ⟨{ state with metadata := metadata }, h.1.1.2, fun h' hh' => .inr ?_⟩) fun ⟨committed, result⟩ => ?_
    · cases hh'
      have hid : cur.id = state.id := hsame.id_eq
      exact ⟨hid ▸ h.1.2, hun φ h.1.1.1.1⟩
    have hP₅ := hP₄.and_settled
      (settled_commitLeaves (cur.setStorageHandle handle) prepared (committed, result))
    -- the object and the record are of this request, whatever happens next
    have hundo : ∀ e, Does request (fun φ => ((((P φ ∧ Accepted .preCreate state φ) ∧
        Accepted .preReceive { state with metadata := metadata } φ) ∧ made cur.id handle ∈ φ) ∧
        wrote .createNew (cur.setStorageHandle handle) ∈ φ) ∧
        CommitLeaves (cur.setStorageHandle handle) prepared (committed, result) φ)
        (failAfter (rollbackCreation contract committed) e :
          HostM ObjectSig (UploadState × List (String × String)))
        fun r φ => Began r.1.id φ := fun e =>
      failAfter_does (rollbackCreation_does hP₅.finish (fun φ h => made_owned h.1.1.2 h.2.handle)
        fun φ h => ⟨⟨_, h.2.id_eq.symm, h.1.2⟩, hun φ h.1.1.1.1.1⟩)
    cases result with
    | error e => exact hundo e
    | ok _ =>
      refine Uses.tried (finishIfComplete_does hP₅) (fun _ => ?_) hundo
      have hK := steady_pendingIf (committed.isComplete = true) (some committed.id)
      refine Uses.seq (runPostEvent_does (hP₅.finish.and hK) id fun φ h =>
        ⟨_, h.1.2.id_eq.symm, h.1.1.2⟩) fun _ => ?_
      refine Uses.seq (runPostEvent_does (hP₅.finish.and (hK.and_settled (settled_const True))) id
        fun φ h => ⟨(h.1.2.written rfl).1, (h.1.2.written rfl).2.1⟩) fun _ => ?_
      refine Uses.after (afterCommitIfComplete_uses hP₅ fun φ h hp hc =>
        ⟨hp.1.1 hc, hc, _, (h.2.written rfl).1⟩) fun _ => .pure fun φ h => ?_
      exact ⟨_, h.1.2.id_eq.symm, h.1.1.2⟩
  · exact failAfter_does (rollbackStorage_does hP₃.finish fun φ h => made_owned h.2 (.inl rfl))

theorem createUpload_does (hP : Steady OnLock P) (hregular : state.isFinal = false)
    (hun : ∀ φ, P φ → Unannounced φ) :
    Does request P (createUpload ⟨config, digests, contract⟩ state) fun r φ => Began r.1.id φ := by
  refine .seq (gate_does hP id) fun ⟨cur, responseHeaders⟩ => .given fun hcur => ?_
  obtain ⟨metadata, rfl : cur = _⟩ := hcur
  have hP₁ := hP.and_settled (settled_accepted .preCreate state)
  refine .seq (create_does hP₁.finish fun φ h => ⟨state, rfl, h.2⟩) fun handle => ?_
  have hP₂ := hP₁.and_settled (settled_mem (made state.id handle))
  refine .tried (setState_does hP₂.finish id fun φ h => ⟨⟨state, rfl, h.1.2⟩, ⟨handle, h.2⟩,
    fun hfinal => absurd (hfinal.symm.trans hregular) (by decide)⟩) (fun _ => ?_) fun e => ?_
  · have hP₃ := hP₂.and_settled (settled_mem (wrote .createNew
      ({ state with metadata := metadata }.setStorageHandle handle)))
    refine Uses.tried (finishIfComplete_does hP₃) (fun _ => ?_) fun e => ?_
    · refine Uses.seq (runPostEvent_does (hP₃.finish.and (steady_pendingIf _ _)) id fun φ h =>
        ⟨_, rfl, h.1.2⟩) fun _ => ?_
      refine Uses.after (afterCommitIfComplete_uses hP₃ fun φ h hp hc => ⟨hp.1 hc, hc, _, h.2⟩)
        fun _ => .pure fun φ h => ⟨_, rfl, h.1.2⟩
    · exact failAfter_does (rollbackCreation_does hP₃.finish
        (fun φ h => made_owned h.1.2 (.inl rfl)) fun φ h => ⟨⟨_, rfl, h.2⟩, hun φ h.1.1.1⟩)
  · exact failAfter_does (rollbackStorage_does hP₂.finish fun φ h => made_owned h.2 (.inl rfl))

/-! ### Termination -/

/-- The bytes of an upload go right before its record. -/
theorem eraseThenDrop_does {α : Type} {f : HostM ObjectSig α} {A : α → Log → Prop}
    (hP : Steady OnFinish P)
    (hread : ∀ φ, P φ → (∃ key, got key state ∈ φ) ∧ MayRemove request state φ)
    (hf : Does request (fun φ => P φ ∧ (⟨.stateDelete state.id, .ok ()⟩ : Call (Host ObjectSig)) ∈ φ)
      f A) :
    Does request P (do
      match state.handle with
      | some handle => contract.delete handle
      | none => pure ()
      deleteState state.id
      f) A := by
  have hdrop : Uses request P (JustErased state) (do deleteState state.id; f) A := by
    refine Uses.after (A := fun _ φ => (⟨.stateDelete state.id, .ok ()⟩ : Call (Host ObjectSig)) ∈ φ)
      ?_ fun _ => hf
    refine Uses.perform hP id (fun φ h hj => ?_) fun (r : Except Error Unit) => ?_
    · obtain ⟨⟨key, hgot⟩, hmay⟩ := hread φ h
      exact .inr ⟨key, state, hgot, rfl, hj, hmay⟩
    · cases r with
      | error e => exact .error e
      | ok _ => exact .pure fun _ h => h.2
  cases hh : state.handle with
  | none =>
    have hnone : ∀ φ, JustErased state φ := fun φ h hh' => nomatch hh.symm.trans hh'
    exact Watch.Habit.weaken hdrop (fun φ h => ⟨h, hnone φ⟩) fun _ _ h => h
  | some h =>
    refine Uses.intro (A := fun _ φ => JustErased state φ) ?_ fun _ => hdrop
    refine .step (fun (r : Except Error Unit) φ => P φ ∧ (r = .ok () → JustErased state φ)) ?_ ?_ ?_
    · intro φ hφ
      obtain ⟨⟨key, hgot⟩, hmay⟩ := hread φ hφ
      exact .inr ⟨key, state, hgot, hh, hmay⟩
    · refine fun φ r hφ => ⟨hP φ _ id hφ, ?_⟩
      rintro rfl h' hh'
      cases hh.symm.trans hh'
      exact ⟨φ, rfl⟩
    · exact fun r => .done fun φ h => ⟨h.1, fun _ hr => h.2 hr⟩

theorem terminate_does (hP : Steady OnLock P) (hread : ∀ φ, P φ → ∃ key, got key state ∈ φ) :
    Does request P (terminate contract state) fun _ _ => True := by
  refine .seq (gate_does hP id) fun ⟨_, responseHeaders⟩ => .given fun _ => ?_
  have hP₁ := hP.and_settled (settled_accepted .preTerminate state)
  refine eraseThenDrop_does hP₁.finish (fun φ h => ⟨hread φ h.1, .inr h.2⟩) ?_
  have hP₂ := hP₁.and_settled (settled_mem ⟨.stateDelete state.id, .ok ()⟩)
  exact .seq (runPostEvent_does hP₂.finish id fun φ h => ⟨h.1.2, h.2⟩) fun _ => .pure fun _ _ => trivial

end Bodies

/-! ## Final uploads -/

section Finals

variable {request : Request} {state : UploadState} {config : Config} {digests : Digests}
  {parts : List UploadState} {ids : List String}

theorem summarizeFinalParts_does (hP : Steady OnFinish P) :
    Does request P (summarizeFinalParts parts) fun status _ => status = statusOf parts := by
  suffices h : ∀ summary, Does request P (summarizeFrom summary parts) fun status _ =>
      status = (parts.foldl PartsSummary.add summary).status from h _
  induction parts with
  | nil => exact fun summary => .pure fun _ _ => rfl
  | cons part parts ih =>
    refine fun summary => .seq (isExpired_does hP) fun expired => .assume fun _ => ?_
    exact .ite (fun _ => .error _) fun _ => ih (summary.add part)

/-- The parts of a plan were read. -/
structure PlanRead (plan : FinalUploadPlan) (φ : Log) : Prop where
  status : plan.status = statusOf plan.parts
  read : List.Forall₂ (fun id part => got id part ∈ φ) plan.partIds plan.parts
  isPartial : ∀ part ∈ plan.parts, part.isPartial = true

theorem settled_planRead (plan : FinalUploadPlan) : Settled (PlanRead plan) :=
  fun φ c h => ⟨h.status, settled_forall₂ (fun _ _ => settled_mem _) _ _ φ c h.read, h.isPartial⟩

theorem loadPart_does {url : String} (hP : Steady OnFinish P) :
    Does request P (loadPart config url) fun part φ => ∃ id,
      extractPartialId url config.basePath = some id ∧ got id part ∈ φ ∧ part.isPartial = true := by
  unfold loadPart
  cases hid : extractPartialId url config.basePath with
  | none => exact .error _
  | some id =>
    refine .perform hP (fun h => h) (fun _ _ => trivial)
      fun (r : Except Error (Option UploadState)) => ?_
    match r with
    | .error e => exact .error e
    | .ok none => exact .error _
    | .ok (some part) =>
      refine .ite (fun _ => .error _) fun hparts => .ite (fun _ => .error _) fun _ => ?_
      refine .perform (hP.and_settled (settled_mem _)) (fun h => h) (fun _ _ => trivial)
        fun (now : Nat) => .ite (fun _ => .error _) fun _ => .pure fun φ h => ?_
      exact ⟨id, rfl, h.1.2, by simpa using hparts⟩

theorem loadParts_does {urls : List String} (hP : Steady OnFinish P) :
    Does request P (loadParts config urls) fun parts φ =>
      List.Forall₂ (fun id part => got id part ∈ φ)
        (urls.filterMap fun url => extractPartialId url config.basePath) parts ∧
      ∀ part ∈ parts, part.isPartial = true := by
  induction urls generalizing P with
  | nil => exact .pure fun _ _ => ⟨.nil, nofun⟩
  | cons url urls ih =>
    refine .seq (loadPart_does hP) fun part => ?_
    have hpart : Settled fun φ => ∃ id, extractPartialId url config.basePath = some id ∧
        got id part ∈ φ ∧ part.isPartial = true :=
      settled_exists fun _ => (settled_const _).and ((settled_mem _).and (settled_const _))
    refine .seq (ih (hP.and_settled hpart)) fun parts => .pure fun φ h => ?_
    obtain ⟨id, hid, hgot, hparts⟩ := h.1.2
    have hids : (url :: urls).filterMap (fun url => extractPartialId url config.basePath) =
        id :: urls.filterMap fun url => extractPartialId url config.basePath :=
      List.filterMap_cons_some hid
    exact ⟨hids ▸ .cons hgot h.2.1, List.forall_mem_cons.mpr ⟨hparts, h.2.2⟩⟩

theorem loadFinalUploadPlan_does {partUrls : List String} (hP : Steady OnFinish P) :
    Does request P (loadFinalUploadPlan config partUrls) fun plan φ => PlanRead plan φ := by
  refine .seq (loadParts_does hP) fun parts => ?_
  have hP₁ := hP.and_settled (K := fun φ => List.Forall₂ (fun id part => got id part ∈ φ)
      (partUrls.filterMap fun url => extractPartialId url config.basePath) parts ∧
      ∀ part ∈ parts, part.isPartial = true)
    ((settled_forall₂ (fun _ _ => settled_mem _) _ _).and (settled_const _))
  refine .seq (summarizeFinalParts_does hP₁) fun status => .pure fun φ h => ?_
  exact ⟨h.2, h.1.2.1, h.1.2.2⟩

/-! ### Materialisation -/

theorem handle_of_require {h : StorageHandle} (hr : state.requireStorageHandle = .ok h) :
    state.handle = some h := by
  unfold UploadState.requireStorageHandle at hr
  cases hh : state.handle with
  | none => simp [hh] at hr
  | some h =>
    rw [hh] at hr
    exact congrArg some (Except.ok.inj hr)

/-- The handles of parts that were read. -/
theorem sources_read {sources : List StorageHandle} {φ : Log}
    (hread : List.Forall₂ (fun id part => got id part ∈ φ) ids parts)
    (hsources : parts.mapM UploadState.requireStorageHandle = .ok sources) :
    SourcesRead ids sources φ := by
  induction hread generalizing sources with
  | nil =>
    cases hsources
    exact .nil
  | @cons id part ids parts hgot _ ih =>
    rw [List.mapM_cons] at hsources
    obtain ⟨source, hsource, hsources⟩ := except_bind_ok hsources
    obtain ⟨rest, hrest, hsources⟩ := except_bind_ok hsources
    cases hsources
    exact .cons ⟨part, hgot, handle_of_require hsource⟩ (ih hrest)

/-- The object of the working copy is that of the record that was read. -/
def Carries (old cur : UploadState) (φ : Log) : Prop :=
  ∀ h, cur.handle = some h → HandleFrom old h φ

theorem settled_carries (old cur : UploadState) : Settled (Carries old cur) :=
  fun _ _ h handle hh => (h handle hh).imp_right fun ⟨target, sources, ht, hmem⟩ =>
    ⟨target, sources, ht, List.mem_cons_of_mem _ hmem⟩

theorem carries_of_eq {old cur : UploadState} {φ : Log} (h : cur.handle = old.handle) :
    Carries old cur φ :=
  fun _ hh => .inl (h.symm.trans hh)

/-- The working copy with the handle of the joined object. -/
def Joins (state : UploadState) (ids : List String) (r : UploadState) (φ : Log) : Prop :=
  (∃ h, r = state.setStorageHandle h ∧ ∃ c ∈ φ, GivenOut h c) ∧ JustJoined r ids φ ∧
    Carries state r φ

theorem materializeFinalUpload_uses (id : String) (ids : List String) {K : Log → Prop} (hP : Steady OnFinish P)
    (hpending : ∀ φ, P φ → pending φ = some id)
    (hof : ∀ φ h, P φ → state.handle = some h → TargetOf id ids h φ)
    (hread : ∀ φ, P φ → List.Forall₂ (fun id part => got id part ∈ φ) ids parts) :
    Uses request P K (materializeFinalUpload contract state parts) (Joins state ids) := by
  refine .of_does (.seq (A := fun h _ => state.requireStorageHandle = .ok h)
    (.lift fun _ _ h _ => h) fun target => .assume fun htarget => ?_)
  refine .seq (A := fun s _ => parts.mapM UploadState.requireStorageHandle = .ok s)
    (.lift fun _ _ h _ => h) fun sources => .assume fun hsources => ?_
  have hhandle : state.handle = some target := handle_of_require htarget
  refine Uses.intro (A := fun h φ => ∃ earlier, P earlier ∧
    φ = ⟨.storage (.concat target sources), .ok h⟩ :: earlier) ?_ fun h => ?_
  · refine .step (fun (r : Except Error StorageHandle) φ => P φ ∧ ∃ earlier, P earlier ∧
      φ = ⟨.storage (.concat target sources), r⟩ :: earlier) ?_ ?_ fun r => .done ?_
    · exact fun φ hφ => ⟨id, ids, hpending φ hφ, hof φ target hφ hhandle,
        sources_read (hread φ hφ) hsources⟩
    · exact fun φ r hφ => ⟨hP φ _ (fun h => h) hφ, φ, hφ, rfl⟩
    · rintro φ ⟨hφ, earlier, hearlier, rfl⟩
      exact ⟨hφ, fun h hh => ⟨earlier, hearlier, by rw [hh]⟩⟩
  · refine .done fun φ hφ => ⟨hφ.1, fun r hr => ?_⟩
    obtain ⟨earlier, hearlier, rfl⟩ := hφ.2
    cases hr
    refine ⟨⟨h, rfl, _, List.mem_cons_self .., rfl⟩, ⟨target, sources, h, earlier, rfl, rfl,
      sources_read (hread earlier hearlier) hsources⟩, fun h' hh' => ?_⟩
    cases hh'
    exact .inr ⟨target, sources, hhandle, List.mem_cons_self ..⟩

/-! ### Creation -/

/-- Parts that are all complete have a total length, and the plan is complete. -/
theorem newFinal_isComplete {id : String} (hn : NewFinal config id ids parts state)
    (hall : (statusOf parts).allComplete = true) : state.isComplete = true := by
  obtain ⟨ns, hns⟩ := lengths_of_complete (statusOf_allComplete.symm.trans hall)
  have htotal := statusOf_known hns
  refine (UploadState.isComplete_iff state).mpr ⟨_, hn.length.trans htotal, Nat.le_of_eq ?_⟩
  rw [hn.offset, FinalUploadStatus.expectedOffset, if_pos hall, htotal, Option.getD_some]

theorem newFinal_handle {id : String} (hn : NewFinal config id ids parts state)
    (h : StorageHandle) : NewFinal config id ids parts (state.setStorageHandle h) :=
  ⟨hn.id_eq, hn.isPartial, hn.isFinal, hn.ids_eq, hn.length, hn.offset, hn.bounded, hn.capped⟩

/-- From the record of a new final upload on. -/
theorem createFinalRecord_uses {status : FinalUploadStatus}
    {responseHeaders : List (String × String)} (hP : Steady OnLock P)
    (hcreate : ∀ φ, P φ → (∃ s, s.id = state.id ∧ Accepted .preCreate s φ) ∧
      ∃ h, made state.id h ∈ φ)
    (howned : ∀ φ, P φ → Owned state φ)
    (hcomplete : status.allComplete = true → state.isComplete = true) :
    Uses request P
      (fun φ => (status.allComplete = true → pending φ = some state.id) ∧ FinalBegins state φ)
      (do
        match ← Attempt.outcome (setState state .createNew) with
        | .error e => failAfter (rollbackStorage contract state) e
        | .ok _ =>
          runPostEvent .postCreate state
          if status.allComplete then afterCommit state else pure ()
          pure (state, status, responseHeaders) :
        HostM ObjectSig (UploadState × FinalUploadStatus × List (String × String)))
      fun r φ => Began r.1.id φ := by
  have hL := steady_pendingIf (status.allComplete = true) (some state.id)
  refine Uses.attempt (A := fun _ φ => wrote .createNew state ∈ φ)
    (Uses.perform (hP.finish.and hL) id
      (fun φ h hbegins => ⟨(hcreate φ h.1).1, (hcreate φ h.1).2, fun _ => hbegins⟩) ?_)
    (fun _ => ?_) fun e => failAfter_does (rollbackStorage_does hP.finish howned)
  · intro (r : Except Error Unit)
    cases r with
    | error e => exact .error e
    | ok _ => exact .pure fun _ h => h.2
  have hK := hL.and_settled (settled_mem (wrote .createNew state))
  refine Uses.seq (runPostEvent_does (hP.finish.and hK) id fun φ h => ⟨state, rfl, h.2.2⟩)
    fun _ => ?_
  have hdone : ∀ K : Log → Prop, Uses request (fun φ => P φ ∧ wrote .createNew state ∈ φ) K
      (pure (state, status, responseHeaders)) fun r φ => Began r.1.id φ :=
    fun K => .of_does (.pure fun φ h => ⟨state, rfl, h.2⟩)
  refine Uses.keep (R := fun φ => P φ ∧ wrote .createNew state ∈ φ)
    (L := fun φ => status.allComplete = true → pending φ = some state.id)
    (.ite (fun hall => ?_) fun _ => hdone _) (fun φ h hK => ⟨⟨h, hK.1.2⟩, hK.1.1⟩) fun φ h => h.1
  refine Uses.after (afterCommit_uses (hP.and_settled (settled_mem _)) fun φ h hp =>
    ⟨hp hall, hcomplete hall, _, h.2⟩) fun _ => .pure fun φ h => ⟨state, rfl, h.1.2⟩

theorem createLast_does {id : String} (hP : Steady OnFinish P)
    (hearned : ∀ φ, P φ → ∃ s, s.id = id ∧ Accepted .preCreate s φ) :
    Does request P (contract.create id) fun h φ => ∃ earlier, φ = made id h :: earlier := by
  refine .step (fun (r : Except Error StorageHandle) φ => P φ ∧ ∃ earlier,
    φ = ⟨.storage (.create id), r⟩ :: earlier) hearned
    (fun φ r h => ⟨hP φ _ (fun h => h) h, φ, rfl⟩) fun r => .done ?_
  rintro φ ⟨hφ, earlier, rfl⟩
  exact ⟨hφ, fun h hh => ⟨earlier, by rw [hh]; rfl⟩⟩

/-- From the object of a new final upload on. -/
theorem createWithObject_uses {responseHeaders : List (String × String)} (hP : Steady OnLock P)
    (hn : NewFinal config state.id ids parts state)
    (hcreate : ∀ φ, P φ → ∃ s, s.id = state.id ∧ Accepted .preCreate s φ)
    (hread : ∀ φ, P φ → List.Forall₂ (fun id part => got id part ∈ φ) ids parts)
    (hparts : ∀ part ∈ parts, part.isPartial = true) (hun : ∀ φ, P φ → Unannounced φ) :
    Uses request P (fun φ => (statusOf parts).allComplete = true → pending φ = some state.id)
      (do
        let handle ← contract.create state.id
        let materialized ←
          if (statusOf parts).readyToMaterialize then
            Attempt.outcome (materializeFinalUpload contract (state.setStorageHandle handle) parts)
          else pure (.ok (state.setStorageHandle handle))
        match materialized with
        | .error e => failAfter (rollbackStorage contract (state.setStorageHandle handle)) e
        | .ok state =>
          match ← Attempt.outcome (setState state .createNew) with
          | .error e => failAfter (rollbackStorage contract state) e
          | .ok _ =>
            runPostEvent .postCreate state
            if (statusOf parts).allComplete then afterCommit state else pure ()
            pure (state, statusOf parts, responseHeaders) :
        HostM ObjectSig (UploadState × FinalUploadStatus × List (String × String)))
      fun r φ => Began r.1.id φ := by
  have hL := steady_pendingIf ((statusOf parts).allComplete = true) (some state.id)
  refine Uses.seq (createLast_does (hP.finish.and hL) fun φ h => hcreate φ h.1) fun handle => ?_
  have hP₁ := hP.and_settled (settled_mem (made state.id handle))
  refine Uses.keep (R := fun φ => P φ ∧ made state.id handle ∈ φ)
    (L := fun φ => ((statusOf parts).allComplete = true → pending φ = some state.id) ∧
      JustMade (state.setStorageHandle handle) φ) ?_ (fun φ h hK => ⟨⟨h, ?_⟩, hK.1, ?_⟩) fun φ h => h.1
  · refine .ite (fun hready => ?_) fun hunready => ?_
    · have hall : (statusOf parts).allComplete = true := (Bool.and_eq_true_iff.mp hready).1
      refine Uses.attempt (materializeFinalUpload_uses state.id ids
        (hP₁.finish.and hL) (fun φ h => h.2 hall) (fun φ _ h hh => .inl ⟨?_, hun φ h.1.1⟩)
        fun φ h => hread φ h.1.1) (fun joined => ?_) fun e => ?_
      · cases hh
        exact h.1.2
      · refine Uses.assume (c := ∃ h, joined = (state.setStorageHandle handle).setStorageHandle h)
          (fun φ _ hK => hK.2.1.imp fun _ hh => hh.1) fun hj => ?_
        obtain ⟨h, rfl⟩ := hj
        have hgiven : Settled fun φ => ∃ c ∈ φ, GivenOut h c :=
          settled_exists fun _ => (settled_mem _).and (settled_const _)
        have hP₂ := hP₁.and_settled hgiven
        refine Uses.keep (createFinalRecord_uses hP₂ (fun φ hφ => ⟨hcreate φ hφ.1.1, handle, hφ.1.2⟩)
          (fun φ hφ h' hh' => ?_) fun _ =>
          newFinal_isComplete (newFinal_handle (newFinal_handle hn handle) h) hall) (fun φ hφ hK => ⟨⟨hφ, ?_⟩, hK.1, ?_⟩)
          fun φ hφ => hφ.1
        · cases hh'
          exact ⟨_, _, hφ.1.2, hφ.2⟩
        · obtain ⟨h', heq, hc⟩ := hK.2.1
          cases Option.some.inj (congrArg UploadState.handle heq)
          exact hc
        · exact ⟨ids, hn.ids_eq, .inl hK.2.2.1⟩
      · exact failAfter_does (rollbackStorage_does hP₁.finish fun φ h => made_owned h.2 (.inl rfl))
    · refine Uses.keep (createFinalRecord_uses hP₁ (fun φ h => ⟨hcreate φ h.1, handle, h.2⟩)
        (fun φ h => made_owned h.2 (.inl rfl)) 
        (newFinal_isComplete (newFinal_handle hn handle))) (fun φ h hK => ⟨h, hK.1, ?_⟩)
        fun φ h => h
      exact ⟨ids, hn.ids_eq, .inr ⟨hK.2, parts, hread φ h.1, hparts,
        ⟨Bool.eq_false_iff.mpr hunready, hn.offset, fun l hl => hn.length.trans hl⟩,
        fun hnone => hn.length.trans hnone⟩⟩
  · obtain ⟨earlier, rfl⟩ := hK.2
    exact List.mem_cons_self ..
  · obtain ⟨earlier, rfl⟩ := hK.2
    exact ⟨handle, earlier, rfl, rfl⟩

theorem createPlanned_does {plan : FinalUploadPlan} (hP : Steady OnLock P)
    (hplan : ∀ φ, P φ → PlanRead plan φ) (hun : ∀ φ, P φ → Unannounced φ)
    (hp : state.isPartial = false) (hl : state.length = none) :
    Does request P (createPlanned ⟨config, digests, contract⟩ state plan)
      fun r φ => Began r.1.id φ := by
  obtain ⟨ids, parts, status⟩ := plan
  refine .knowing (fun φ h => And.intro (hplan φ h).status (hplan φ h).isPartial) fun hpure => ?_
  obtain ⟨hstatus, hparts⟩ := hpure
  dsimp only at hstatus hparts
  subst hstatus
  refine .seq (A := fun _ _ => enforceFinalUploadSize config (statusOf parts) = .ok ())
    (.lift fun _ _ h _ => h) fun _ => .assume fun henforce => ?_
  have hnew : NewFinal config state.id ids parts _ := newFinal_plan rfl hp hl henforce
  refine .seq (gate_does hP id) fun ⟨cur, responseHeaders⟩ => .given fun hcur => ?_
  obtain ⟨metadata, rfl : cur = _⟩ := hcur
  have hid := hnew.id_eq
  dsimp only
  generalize capPlannedFinalUploadExpiration
    (applyFinalUploadPlan state ids (statusOf parts)) parts = planned at hnew hid hP ⊢
  have hn : NewFinal config { planned with metadata := metadata }.id ids parts
      { planned with metadata := metadata } :=
    ⟨rfl, hnew.isPartial, hnew.isFinal, hnew.ids_eq, hnew.length, hnew.offset, hnew.bounded,
      hnew.capped⟩
  have hP₁ := hP.and_settled (settled_accepted .preCreate planned)
  have hcreate : ∀ φ, P φ ∧ Accepted .preCreate planned φ →
      ∃ s, s.id = planned.id ∧ Accepted .preCreate s φ := fun φ h => ⟨planned, rfl, h.2⟩
  refine .ite (fun _ => Uses.intro (finishGate_does hP₁) fun _ => ?_) fun hnot => ?_
  · exact (createWithObject_uses hP₁ hn hcreate (fun φ h => (hplan φ h.1).read) hparts
      fun φ h => hun φ h.1).weaken fun φ _ h _ => h
  · exact (createWithObject_uses hP₁ hn hcreate (fun φ h => (hplan φ h.1).read) hparts
      fun φ h => hun φ h.1).does fun φ _ hall => absurd hall hnot

end Finals

/-! ## Locks -/

section Locks

variable {request : Request} {α : Type} {A : α → Log → Prop} {F : Log → Prop} {L : List String}

/-- The assertion on logs at which the locks `L` are held. -/
def Under (F : Log → Prop) (L : List String) (φ : Log) : Prop :=
  F φ ∧ held φ = L ∧ Unannounced φ

theorem steady_under (hF : Settled F) : Steady OnLock (Under F L) :=
  hF.steady.and ((steady_held L).and steady_unannounced)

/-- After one more call of which the locks are known. -/
theorem Under.cons {c : Call (Host ObjectSig)} {φ : Log} {ids : List String} (h : Under F L φ)
    (hF : Settled F) (hc : ∀ id, c.op ≠ .respond id) (hheld : holdAfter L c = ids) :
    Under F ids (c :: φ) := by
  refine ⟨hF φ c h.1, ?_, fun id hmem => ?_⟩
  · show holdAfter (held φ) c = ids
    rw [h.2.1, hheld]
  · cases List.mem_cons.mp hmem with
    | inl heq => exact hc id (heq ▸ rfl)
    | inr hmem => exact h.2.2 id hmem

theorem unlock_keeps {β : Type} {id : String} {p : Prog (Host ObjectSig) β} {Q : β → Log → Prop}
    (hF : Settled F) (hp : Keeps request (Under F L) p Q) :
    Keeps request (Under F (id :: L)) (.step (.unlock id) fun _ => p) Q := by
  refine .step (fun _ => Under F L) (fun φ h => ?_) (fun φ a h => ?_) fun _ => hp
  · show id ∈ held φ
    rw [h.2.1]
    exact List.mem_cons_self ..
  · exact h.cons hF nofun (List.erase_cons_head ..)

theorem unlockAll_keeps {ids : List String} (hF : Settled F) :
    Keeps request (Under F (ids ++ L)) (unlockAll ids) fun _ => Under F L := by
  induction ids with
  | nil => exact .done fun _ h => h
  | cons id ids ih => exact unlock_keeps hF ih

/-- A result survives the release of the locks. -/
theorem releasing (ids : List String) {r : Except Error α} (hF : Settled F)
    (hA : ∀ a, Settled (A a)) :
    Keeps request (fun φ => Under F (ids ++ L) φ ∧ ∀ a, r = .ok a → A a φ)
      (Prog.bind (unlockAll ids) fun _ => .done r)
      fun r φ => Under F L φ ∧ ∀ a, r = .ok a → A a φ := by
  have hF' : Settled fun φ => F φ ∧ ∀ a, r = .ok a → A a φ :=
    hF.and fun φ c h a ha => hA a φ c (h a ha)
  refine .bind (fun _ => Under (fun φ => F φ ∧ ∀ a, r = .ok a → A a φ) L)
    (Watch.Habit.weaken (unlockAll_keeps hF') (fun φ h => ⟨⟨h.1.1, h.2⟩, h.1.2⟩) fun _ _ h => h)
    fun _ => .done fun φ h => ⟨⟨h.1.1, h.2⟩, h.1.2⟩

/-- The locks of the parts are given back on every path. -/
theorem lockPartsThen_does {body : HostM ObjectSig α} (holding ids : List String) (hF : Settled F)
    (hA : ∀ a, Settled (A a)) (hbody : ∀ more, Does request (Under F (more ++ L)) body A) :
    Keeps request (Under F (holding ++ L)) (lockPartsThen body holding ids)
      fun r φ => Under F L φ ∧ ∀ a, r = .ok a → A a φ := by
  have hfail : ∀ (e : Error) more, Keeps request (Under F (more ++ L))
      (Prog.bind (unlockAll more) fun _ => .done (Except.error e))
      fun r φ => Under F L φ ∧ ∀ a, r = Except.ok a → A a φ := fun e more =>
    Watch.Habit.weaken (releasing more hF hA) (fun φ h => ⟨h, nofun⟩) fun _ _ h => h
  induction ids generalizing holding with
  | nil => exact .bind _ (hbody holding) fun r => releasing holding hF hA
  | cons id ids ih =>
    refine .step (fun (r : Except Error Bool) φ =>
      Under F (if r = .ok true then id :: holding ++ L else holding ++ L) φ) (fun _ _ => trivial) ?_ ?_
    · intro φ (r : Except Error Bool) h
      refine h.cons hF nofun ?_
      match r with
      | .error e => rfl
      | .ok false => rfl
      | .ok true => rfl
    · intro (r : Except Error Bool)
      match r with
      | .error e => exact hfail e holding
      | .ok false => exact hfail _ holding
      | .ok true => exact ih (id :: holding)

theorem withPartLocks_does {body : HostM ObjectSig α} {partIds : List String} (hF : Settled F)
    (hA : ∀ a, Settled (A a)) (hbody : ∀ more, Does request (Under F (more ++ L)) body A) :
    Does request (Under F L) (withPartLocks partIds body) A :=
  lockPartsThen_does [] _ hF hA hbody

/-- A lock is waited for with empty hands, and given back. -/
theorem withLock_does {id : String} {body : HostM ObjectSig α} (hF : Settled F)
    (hA : ∀ a, Settled (A a)) (hbody : Does request (Under F [id]) body A) :
    Does request (Under F []) (withLock id body) A := by
  refine .step (fun (r : Except Error Unit) φ => Under F (holdAfter [] ⟨.lock id, r⟩) φ)
    (fun φ h => h.2.1) ?_ ?_
  · exact fun φ r h => h.cons hF nofun rfl
  · intro (r : Except Error Unit)
    cases r with
    | error e => exact .done fun φ h => ⟨h, nofun⟩
    | ok _ =>
      have hunlock : ∀ r : Except Error α, Keeps request (fun φ => Under F [id] φ ∧ ∀ a, r = .ok a → A a φ)
          (.step (.unlock id) fun _ => .done r) fun r φ => Under F [] φ ∧ ∀ a, r = .ok a → A a φ :=
        fun r => releasing [id] hF hA
      exact .bind _ hbody hunlock

end Locks

/-! ## Reads of final uploads -/

section Reads

variable {request : Request} {state : UploadState} {config : Config} {digests : Digests}
  {F : Log → Prop} {L : List String} {key : String} {old : UploadState}

/-- The request has seen the part after the record of the final upload, and then that it had
not expired. -/
def SeenLive (key : String) (old : UploadState) (id : String) (part : UploadState) (φ : Log) :
    Prop :=
  After (got key old) (got id part) φ ∧
    ∃ now : Nat, After (got id part) ⟨.now, now⟩ φ ∧ part.expiresBefore now = false

theorem settled_seenLive (id : String) (part : UploadState) : Settled (SeenLive key old id part) :=
  (settled_after _ _).and (settled_exists fun _ => (settled_after _ _).and (settled_const _))

def PartsSeen (key : String) (old : UploadState) (ids : List String) (parts : List UploadState)
    (φ : Log) : Prop :=
  List.Forall₂ (fun id part => SeenLive key old id part φ) ids parts

theorem settled_partsSeen (ids : List String) (parts : List UploadState) :
    Settled (PartsSeen key old ids parts) :=
  settled_forall₂ (fun _ _ => settled_seenLive _ _) ids parts

/-- One more call that the request sees after what it has seen. -/
theorem after_cons {c₀ c : Call (Host ObjectSig)} {φ : Log} (h : c₀ ∈ φ) : After c₀ c (c :: φ) :=
  ⟨[], φ, rfl, h⟩

theorem loadStatusParts_does {id : String} {ids : List String} (hP : Steady OnFinish P)
    (hread : ∀ φ, P φ → got key old ∈ φ) :
    Does request P (loadStatusParts id ids) fun parts φ => PartsSeen key old ids parts φ := by
  induction ids generalizing P with
  | nil => exact .pure fun _ _ => .nil
  | cons partId ids ih =>
    refine .step (fun (r : Except Error (Option UploadState)) φ => P φ ∧
      ∀ part, r = .ok (some part) → After (got key old) (got partId part) φ) (fun _ _ => trivial) ?_ ?_
    · rintro φ r h
      refine ⟨hP φ _ (fun h => h) h, ?_⟩
      rintro part rfl
      exact after_cons (hread φ h)
    intro (r : Except Error (Option UploadState))
    match r with
    | .error e => exact .done fun _ h => ⟨h.1, nofun⟩
    | .ok none => exact .done fun _ h => ⟨h.1, nofun⟩
    | .ok (some part) =>
      have hP₁ := hP.and_settled (settled_after (got key old) (got partId part))
      refine .step (fun (now : Nat) φ => (P φ ∧ After (got key old) (got partId part) φ) ∧
        After (got partId part) ⟨.now, now⟩ φ) (fun _ _ => trivial) (fun φ now h => ?_)
        fun (now : Nat) => ?_
      · have hseen := h.2 part rfl
        exact ⟨hP₁ φ _ (fun h => h) ⟨h.1, hseen⟩, after_cons hseen.mem⟩
      refine Watch.Habit.ite (fun _ => .done fun _ h => ⟨h.1.1, nofun⟩) fun hlive => ?_
      have hP₂ := hP₁.and_settled (settled_after (got partId part) ⟨.now, now⟩)
      refine Watch.Habit.bind _ (ih hP₂ fun φ h => hread φ h.1.1) fun r => ?_
      cases r with
      | error e => exact .done fun _ h => ⟨h.1.1.1, nofun⟩
      | ok parts =>
        refine .done fun φ h => ⟨h.1.1.1, fun _ ha => ?_⟩
        cases ha
        exact .cons ⟨h.1.1.2, now, h.1.2, Bool.eq_false_iff.mpr hlive⟩ (h.2 parts rfl)

/-- The plan of a persisted final upload, made of parts seen after its record. -/
structure StatusRead (key : String) (old : UploadState) (plan : FinalUploadPlan) (φ : Log) :
    Prop where
  status : plan.status = statusOf plan.parts
  ids : old.parts = some plan.partIds
  seen : PartsSeen key old plan.partIds plan.parts φ

theorem settled_statusRead (plan : FinalUploadPlan) : Settled (StatusRead key old plan) :=
  fun φ c h => ⟨h.status, h.ids, settled_partsSeen _ _ φ c h.seen⟩

/-- What `load_final_upload_status` has found. -/
def StatusFound (key : String) (old : UploadState) : Option FinalUploadPlan → Log → Prop
  | none, _ => old.parts = none
  | some plan, φ => StatusRead key old plan φ

theorem loadFinalUploadStatus_does (hP : Steady OnFinish P)
    (hread : ∀ φ, P φ → got key old ∈ φ) :
    Does request P (loadFinalUploadStatus old) (StatusFound key old) := by
  unfold loadFinalUploadStatus
  cases hids : old.parts with
  | none => exact .pure fun _ _ => hids
  | some ids =>
    refine .seq (loadStatusParts_does hP hread) fun parts => ?_
    have hP₁ : Steady OnFinish fun φ => P φ ∧ PartsSeen key old ids parts φ :=
      hP.and_settled (settled_partsSeen ids parts)
    refine Watch.Habit.bind _ (summarizeFinalParts_does hP₁) fun r => ?_
    cases r with
    | error e => cases e <;> exact .done fun _ h => ⟨h.1, nofun⟩
    | ok status =>
      refine .done fun φ h => ⟨h.1, fun _ ha => ?_⟩
      cases ha
      exact ⟨h.2 status rfl, hids, h.1.2⟩

/-! ### Repair -/

/-- Storage reported `n` as the size of the record's object; only hooks ran since. -/
def Sized (state : UploadState) (n : Nat) (φ : Log) : Prop :=
  state.handle = none ∨ ∃ recent h earlier, ∃ stored : Option Nat,
    φ = recent ++ ⟨.storage (.size h), .ok stored⟩ :: earlier ∧
      (∀ c ∈ recent, ∃ event s, c.op = .hookPre event s) ∧ state.handle = some h ∧
      n = stored.getD 0

theorem Sized.hook {n : Nat} {φ : Log} (h : Sized state n φ) (event : HookEvent) (s : UploadState)
    (r : Except Error PreHookResult) : Sized state n (⟨.hookPre event s, r⟩ :: φ) := by
  refine h.imp_right ?_
  rintro ⟨recent, target, earlier, stored, rfl, hhooks, hh, hn⟩
  exact ⟨⟨.hookPre event s, r⟩ :: recent, target, earlier, stored, rfl,
    List.forall_mem_cons.mpr ⟨⟨event, s, rfl⟩, hhooks⟩, hh, hn⟩

theorem sizeLast_does {h : StorageHandle} (hP : Steady OnFinish P) :
    Does request P (contract.size h) fun stored φ =>
      ∃ earlier, φ = ⟨.storage (.size h), .ok stored⟩ :: earlier := by
  refine .step (fun (r : Except Error (Option Nat)) φ => P φ ∧ ∃ earlier,
    φ = ⟨.storage (.size h), r⟩ :: earlier) (fun _ _ => trivial)
    (fun φ r hφ => ⟨hP φ _ (fun h => h) hφ, φ, rfl⟩) fun r => .done ?_
  rintro φ ⟨hφ, earlier, rfl⟩
  exact ⟨hφ, fun stored hs => ⟨earlier, by rw [hs]⟩⟩

theorem storageSize_does (hP : Steady OnFinish P) :
    Does request P (storageSize contract state) fun n φ => Sized state n φ := by
  unfold storageSize
  cases hh : state.handle with
  | none => exact .pure fun _ _ => .inl hh
  | some h =>
    refine Uses.intro (sizeLast_does hP) fun stored => Uses.pure fun φ _ hlast => ?_
    obtain ⟨earlier, rfl⟩ := hlast
    exact .inr ⟨[], h, earlier, stored, rfl, List.forall_mem_nil _, hh, rfl⟩

/-- What an inspection has found. -/
structure Inspected (state : UploadState) (plan : FinalUploadPlan)
    (refresh : PlannedFinalUploadRefresh) (φ : Log) : Prop where
  parts : refresh.parts = plan.parts
  status : refresh.status = plan.status
  ready : plan.status.readyToMaterialize = true → ∃ n, refresh.actualSize = some n ∧ Sized state n φ
  unready : plan.status.readyToMaterialize = false → refresh.actualSize = none

theorem inspect_does {plan : FinalUploadPlan} (hP : Steady OnFinish P) :
    Does request P (PlannedFinalUploadRefresh.inspect contract state plan.parts plan.status)
      fun refresh φ => Inspected state plan refresh φ := by
  refine .ite (fun hready => ?_) fun hready => .pure fun _ _ => ⟨rfl, rfl, fun h => absurd h hready, fun _ => rfl⟩
  refine Uses.intro (storageSize_does hP) fun n => Uses.pure fun φ _ hsized => ?_
  exact ⟨rfl, rfl, fun _ => ⟨n, rfl, hsized⟩, fun h => absurd (h.symm.trans hready) (by decide)⟩

/-- A working copy on the way to the record that counts `parts`. -/
structure Follows (state : UploadState) (parts : List UploadState) (cur : UploadState) : Prop where
  id_eq : cur.id = state.id
  isFinal : cur.isFinal = state.isFinal
  known : ∀ l, (statusOf parts).totalLength = some l → cur.length = some l
  unknown : (statusOf parts).totalLength = none → cur.length = state.length

theorem refreshLength_follows (state : UploadState) {refresh : PlannedFinalUploadRefresh}
    (hs : refresh.status = statusOf parts) :
    Follows state parts (refresh.refreshLength state).1 ∧
      (refresh.refreshLength state).1.handle = state.handle := by
  unfold PlannedFinalUploadRefresh.refreshLength
  rw [hs]
  cases htotal : (statusOf parts).totalLength with
  | none => exact ⟨⟨rfl, rfl, fun l h => (nomatch htotal.symm.trans h), fun _ => rfl⟩, rfl⟩
  | some total =>
    have hknown : ∀ cur : UploadState, cur.length = some total →
        ∀ l, (statusOf parts).totalLength = some l → cur.length = some l :=
      fun cur hcur l hl => hcur.trans (htotal.symm.trans hl)
    dsimp only
    split
    · next hlen => exact ⟨⟨rfl, rfl, hknown _ hlen, fun h => (nomatch htotal.symm.trans h)⟩, rfl⟩
    · exact ⟨⟨rfl, rfl, hknown _ rfl, fun h => (nomatch htotal.symm.trans h)⟩, rfl⟩

theorem refreshOffset_follows {refresh : PlannedFinalUploadRefresh} {cur : UploadState}
    (hs : refresh.status = statusOf parts) (hc : Follows state parts cur) :
    Follows state parts (refresh.refreshOffset cur).1 ∧
      (refresh.refreshOffset cur).1.handle = cur.handle ∧
      (refresh.refreshOffset cur).1.offset = (statusOf parts).expectedOffset ∧
      ((refresh.refreshOffset cur).2 = false → cur.offset = (statusOf parts).expectedOffset) := by
  unfold PlannedFinalUploadRefresh.refreshOffset
  rw [hs]
  split
  · next hoff => exact ⟨hc, rfl, hoff, fun _ => hoff⟩
  · exact ⟨⟨hc.id_eq, hc.isFinal, hc.known, hc.unknown⟩, rfl, rfl, nofun⟩

/-- From the record of a repaired final upload on. -/
theorem recordRepaired_uses {cur : UploadState} {due completes : Bool} (hP : Steady OnLock P)
    (hcomplete : completes = true → due = true ∧ cur.isComplete = true) :
    Uses request P (fun φ => (completes = true → pending φ = some cur.id) ∧ FinalContinues cur φ)
      (do
        if due then setState cur .update else pure ()
        if completes then afterCommit cur else pure ()
        pure cur : HostM ObjectSig UploadState) fun r _ => r = cur := by
  have hL := steady_pendingIf (completes = true) (some cur.id)
  have hafter : ∀ K : Log → Prop, (∀ φ, K φ → completes = true →
      pending φ = some cur.id ∧ wrote .update cur ∈ φ) → Uses request P K (do
        if completes then afterCommit cur else pure ()
        pure cur : HostM ObjectSig UploadState) fun r _ => r = cur := by
    intro K hK
    refine .ite (fun hc => ?_) fun _ => Uses.pure fun _ _ _ => rfl
    refine Uses.after (afterCommit_uses hP fun φ _ h => ?_) fun _ => .pure fun _ _ => rfl
    exact ⟨(hK φ h hc).1, (hcomplete hc).2, _, (hK φ h hc).2⟩
  refine .ite (fun _ => ?_) fun hdue => ?_
  · refine Uses.chain (A := fun _ φ => wrote .update cur ∈ φ)
      (Uses.perform (hP.finish.and hL) id (fun φ _ h _ => h) fun (r : Except Error Unit) => ?_)
      fun _ => hafter _ fun φ h hc => ⟨h.1 hc, h.2⟩
    cases r with
    | error e => exact .error e
    | ok _ => exact .pure fun _ h => h.2
  · exact hafter _ fun φ _ hc => absurd (hcomplete hc).1 hdue

/-- The parts of a plan that was read are in the log. -/
theorem StatusRead.read {plan : FinalUploadPlan} {φ : Log} (h : StatusRead key old plan φ) :
    List.Forall₂ (fun id part => got id part ∈ φ) plan.partIds plan.parts :=
  h.seen.imp fun _ _ hseen => hseen.1.mem

/-- A record that counts complete parts is complete. -/
theorem Follows.isComplete {cur : UploadState} (h : Follows state parts cur)
    (hoff : cur.offset = (statusOf parts).expectedOffset)
    (hready : (statusOf parts).readyToMaterialize = true) : cur.isComplete = true := by
  obtain ⟨hall, hsome⟩ := Bool.and_eq_true_iff.mp hready
  obtain ⟨l, hl⟩ := Option.isSome_iff_exists.mp hsome
  refine (UploadState.isComplete_iff cur).mpr ⟨l, h.known l hl, Nat.le_of_eq ?_⟩
  rw [hoff, FinalUploadStatus.expectedOffset, if_pos hall, hl, Option.getD_some]

theorem Inspected.needs_ready {plan : FinalUploadPlan} {refresh : PlannedFinalUploadRefresh}
    {φ : Log} (h : Inspected state plan refresh φ) (hn : refresh.needsMaterialization = true) :
    plan.status.readyToMaterialize = true := by
  by_contra hunready
  rw [PlannedFinalUploadRefresh.needsMaterialization,
    h.unready (Bool.eq_false_iff.mpr hunready)] at hn
  cases hn

/-- What precedes the record when the object needs no materialisation. -/
theorem Inspected.continues {plan : FinalUploadPlan} {refresh : PlannedFinalUploadRefresh}
    {cur : UploadState} {φ : Log} (h : Inspected old plan refresh φ) (hread : StatusRead key old plan φ)
    (hfinal : old.isFinal = true) (hc : Follows old plan.parts cur) (hh : cur.handle = old.handle)
    (hoff : cur.offset = (statusOf plan.parts).expectedOffset)
    (hn : refresh.needsMaterialization = false) : FinalContinues cur φ := by
  cases hready : plan.status.readyToMaterialize with
  | false =>
    rw [hread.status] at hready
    exact .inr (.inr (.inr ⟨key, old, plan.partIds, plan.parts, hc.id_eq, hfinal, hread.ids,
      hread.seen.imp fun _ _ hseen => hseen.1, ⟨hready, hoff, hc.known⟩, hc.unknown⟩))
  | true =>
    obtain ⟨n, hsize, hsized⟩ := h.ready hready
    obtain ⟨l, hl⟩ := Option.isSome_iff_exists.mp (Bool.and_eq_true_iff.mp hready).2
    have hln : n = l := by
      rw [PlannedFinalUploadRefresh.needsMaterialization, hsize, h.status, hl] at hn
      simpa using hn
    rcases hsized with hnone | ⟨recent, target, earlier, stored, hφ, hhooks, htarget, rfl⟩
    · exact .inl (hh.trans hnone)
    · refine .inr (.inl ⟨recent, target, earlier, stored, hφ, hhooks, hh.trans htarget, ?_⟩)
      rw [hln]
      exact hc.known l (by rw [← hread.status, hl])

theorem repairPlanned_does {plan : FinalUploadPlan} (hP : Steady OnLock P)
    (hgot : ∀ φ, P φ → got key old ∈ φ) (hfinal : old.isFinal = true)
    (hplan : ∀ φ, P φ → StatusRead key old plan φ) :
    Does request P (repairPlanned contract old plan) fun r φ => Carries old r φ := by
  refine .knowing (fun φ h => (hplan φ h).status) fun hstatus => ?_
  refine Uses.intro (inspect_does hP.finish) fun refresh => ?_
  refine Uses.assume (c := refresh.parts = plan.parts ∧ refresh.status = statusOf plan.parts)
    (fun φ _ h => ⟨h.parts, h.status.trans hstatus⟩) fun hrefresh => ?_
  obtain ⟨hparts, hs⟩ := hrefresh
  obtain ⟨hfollows, hhandle⟩ := refreshLength_follows old hs
  dsimp only
  generalize refresh.refreshLength old = r₁ at hfollows hhandle ⊢
  obtain ⟨cur, lengthChanged⟩ := r₁
  dsimp only at hfollows hhandle ⊢
  have hwill : refresh.willComplete cur = true →
      (statusOf plan.parts).readyToMaterialize = true ∧
        (refresh.needsMaterialization = false → cur.isComplete = false) := by
    intro h
    obtain ⟨hr, hc⟩ := Bool.and_eq_true_iff.mp h
    rw [hs] at hr
    exact ⟨hr, fun hn => by simpa [hn] using hc⟩
  have hL := steady_pendingIf (refresh.willComplete cur = true) (some cur.id)
  -- once the completion is accepted, if there is one
  have hrest : Uses request P
      (fun φ => (refresh.willComplete cur = true → pending φ = some cur.id) ∧
        Inspected old plan refresh φ)
      (do
        let state ←
          if refresh.needsMaterialization then materializeFinalUpload contract cur refresh.parts
          else pure cur
        if lengthChanged || refresh.needsMaterialization || (refresh.refreshOffset state).2 then
          setState (refresh.refreshOffset state).1 .update
        else pure ()
        if refresh.willComplete cur then afterCommit (refresh.refreshOffset state).1 else pure ()
        pure (refresh.refreshOffset state).1 : HostM ObjectSig UploadState)
      fun r φ => Carries old r φ := by
    refine .ite (fun hn => ?_) fun hn => ?_
    · refine Uses.assume (c := plan.status.readyToMaterialize = true)
        (fun φ _ h => h.2.needs_ready hn) fun hready => ?_
      have hready' : (statusOf plan.parts).readyToMaterialize = true := hstatus ▸ hready
      have hcompletes : refresh.willComplete cur = true := by
        rw [PlannedFinalUploadRefresh.willComplete, hs, hready', hn, Bool.or_true, Bool.and_self]
      refine Uses.chain (materializeFinalUpload_uses cur.id plan.partIds (hP.finish.and hL)
        (fun φ h => h.2 hcompletes) (fun φ h hφ hh => .inr ⟨key, old, hgot φ hφ.1,
          hfollows.id_eq.symm, hhandle.symm.trans hh, (hplan φ hφ.1).ids⟩)
        fun φ h => hparts ▸ (hplan φ h.1).read)
        fun joined => ?_
      refine Uses.assume (c := ∃ h, joined = cur.setStorageHandle h)
        (fun φ _ hK => hK.2.1.imp fun _ hh => hh.1) fun hj => ?_
      obtain ⟨h, rfl⟩ := hj
      have hjoined : Follows old plan.parts (cur.setStorageHandle h) :=
        ⟨hfollows.id_eq, hfollows.isFinal, hfollows.known, hfollows.unknown⟩
      obtain ⟨hfol, hhand, hoff, -⟩ := refreshOffset_follows hs hjoined
      refine Uses.keep ((recordRepaired_uses
          (hP.and_settled (settled_carries old (cur.setStorageHandle h)))
          fun hc => ⟨by simp [hn], hfol.isComplete hoff hready'⟩).gives fun r φ hφ hr => ?_)
        (fun φ hφ hK => ⟨⟨hφ, ?_⟩, fun hc => ?_, .inr (.inr (.inl ⟨plan.partIds, ?_⟩))⟩) fun φ hφ => hφ.1
      · exact fun h' hh' => hφ.2 h' (hhand.symm.trans (hr ▸ hh'))
      · exact fun h' hh' => (hK.2.2.2 h' hh').imp (hhandle ▸ ·) fun ⟨target, sources, ht, hmem⟩ =>
          ⟨target, sources, hhandle ▸ ht, hmem⟩
      · rw [hfol.id_eq, ← hfollows.id_eq]
        exact hK.1 hc
      · obtain ⟨target, sources, h', earlier, hφ, hh', hsources⟩ := hK.2.2.1
        exact ⟨target, sources, h', earlier, hφ, hhand.trans hh', hsources⟩
    · have hn' := Bool.eq_false_iff.mpr hn
      obtain ⟨hfol, hhand, hoff, hsame⟩ := refreshOffset_follows hs hfollows
      refine Uses.keep ((recordRepaired_uses hP fun hc =>
        ⟨?_, hfol.isComplete hoff (hwill hc).1⟩).gives fun r φ _ hr => ?_)
        (fun φ hφ hK => ⟨hφ, fun hc => ?_, ?_⟩) fun φ h => h
      · -- an incomplete record does not count complete parts yet
        by_contra hdue
        have hchanged : (refresh.refreshOffset cur).2 = false := by
          simp only [Bool.or_eq_true, not_or] at hdue
          exact Bool.eq_false_iff.mpr hdue.2
        have hcomplete := hfollows.isComplete (hsame hchanged) (hwill hc).1
        rw [(hwill hc).2 hn'] at hcomplete
        cases hcomplete
      · exact carries_of_eq (hr ▸ hhand.trans hhandle)
      · rw [hfol.id_eq, ← hfollows.id_eq]
        exact hK.1 hc
      · exact hK.2.continues (hplan φ hφ) hfinal hfol (hhand.trans hhandle) hoff hn'
  refine .ite (fun _ => ?_) fun hnot => ?_
  · have hcompleted : (refresh.completedState cur).id = cur.id := by
      unfold PlannedFinalUploadRefresh.completedState
      split <;> rfl
    refine Uses.seq (A := fun _ φ => pending φ = some cur.id) (hcompleted ▸ finishGate_keeps ?_)
      fun _ => hrest.weaken fun φ _ h => ⟨fun _ => h.2, h.1⟩
    exact fun φ r h => ⟨hP φ _ id h.1, h.2.parts, h.2.status,
      fun hr => (h.2.ready hr).imp fun n hn => ⟨hn.1, hn.2.hook _ _ _⟩, h.2.unready⟩
  · exact hrest.weaken fun φ _ h => ⟨fun hc => absurd hc hnot, h⟩

/-- A read of a final upload had storage report the recorded length, or saw all its parts. -/
def Backed (key : String) (old : UploadState) (φ : Log) : Prop :=
  (∃ h, ∃ stored : Option Nat, (⟨.storage (.size h), .ok stored⟩ : Call (Host ObjectSig)) ∈ φ ∧
    old.handle = some h ∧ old.length = some (stored.getD 0)) ∨
  old.parts = none ∨ ∃ ids parts, old.parts = some ids ∧ PartsSeen key old ids parts φ

theorem settled_backed : Settled (Backed key old) := by
  rintro φ c (⟨h, stored, hsize, hh⟩ | hnone | ⟨ids, parts, hids, hseen⟩)
  · exact .inl ⟨h, stored, List.mem_cons_of_mem _ hsize, hh⟩
  · exact .inr (.inl hnone)
  · exact .inr (.inr ⟨ids, parts, hids, settled_partsSeen ids parts φ c hseen⟩)

theorem StatusRead.backed {plan : FinalUploadPlan} {φ : Log} (h : StatusRead key old plan φ) :
    Backed key old φ :=
  .inr (.inr ⟨_, _, h.ids, h.seen⟩)

/-- A repair by a plan of which nothing else is to be kept. -/
theorem repairBy_does {plan : FinalUploadPlan} (hF : Settled F) (hgot : ∀ φ, F φ → got key old ∈ φ)
    (hfinal : old.isFinal = true) :
    Does request (fun φ => Under F L φ ∧ StatusFound key old (some plan) φ)
      (repairPlanned contract old plan) fun r φ => Backed key old φ ∧ Carries old r φ :=
  (repairPlanned_does ((steady_under hF).and_settled (settled_statusRead plan))
    (fun _ h => hgot _ h.1.1) hfinal fun _ h => h.2).weaken fun _ _ h hc => ⟨h.2.backed, hc⟩

theorem repairFinalUpload_does (hF : Settled F) (hgot : ∀ φ, F φ → got key old ∈ φ)
    (hfinal : old.isFinal = true) :
    Does request (Under F L) (repairFinalUpload contract old) fun r φ =>
      Backed key old φ ∧ Carries old r φ := by
  have hload : ∀ (F : Log → Prop) L, Settled F → (∀ φ, F φ → got key old ∈ φ) →
      Does request (Under F L) (loadFinalUploadStatus old) (StatusFound key old) :=
    fun F L hF hgot => loadFinalUploadStatus_does (steady_under hF).finish fun φ h => hgot φ h.1
  refine .seq (hload F L hF hgot) fun r => ?_
  cases r with
  | none => exact .pure fun _ h => ⟨.inr (.inl h.2), carries_of_eq rfl⟩
  | some plan =>
    refine .ite (fun _ => ?_) fun _ => repairBy_does hF hgot hfinal
    have hF₁ : Settled fun φ => F φ ∧ StatusRead key old plan φ := hF.and (settled_statusRead plan)
    refine .reframe (withPartLocks_does hF₁
        (fun cur => settled_backed.and (settled_carries old cur)) fun more => ?_)
      (fun φ h => ⟨⟨h.1.1, h.2⟩, h.1.2⟩) fun φ h => ⟨⟨h.1.1, h.2⟩, h.1.2⟩
    refine .seq (hload _ (more ++ L) hF₁ fun φ h => hgot φ h.1) fun r => ?_
    cases r with
    | none => exact .pure fun _ h => ⟨.inr (.inl h.2), carries_of_eq rfl⟩
    | some plan => exact repairBy_does hF₁ (fun φ h => hgot φ h.1) hfinal

/-- What was stored is found, and the record completed, or the upload is left as it was. -/
theorem recoverMaterializedFinalUpload_does (key : String) (hP : Steady OnFinish P) :
    Does request P (recoverMaterializedFinalUpload contract old) fun r φ =>
      (r.2 = true → Backed key old φ) ∧ (r.2 = false → r.1 = old) ∧ r.1.handle = old.handle := by
  unfold recoverMaterializedFinalUpload
  cases hlen : old.length with
  | none => exact .pure fun _ _ => ⟨nofun, fun _ => rfl, rfl⟩
  | some length =>
    cases hh : old.handle with
    | none => exact .pure fun _ _ => ⟨nofun, fun _ => rfl, hh⟩
    | some h =>
      refine Uses.intro (sizeLast_does hP) fun stored => ?_
      refine .ite (fun _ => Uses.pure fun _ _ _ => ⟨nofun, fun _ => rfl, hh⟩) fun hsize => ?_
      have hstored : stored.getD 0 = length := not_not.mp hsize
      have hbacked : ∀ earlier c,
          (⟨.storage (.size h), .ok stored⟩ : Call (Host ObjectSig)) ∈ c :: earlier →
          Backed key old (c :: earlier) :=
        fun _ _ hmem => .inl ⟨h, stored, hmem, hh, by rw [hlen, hstored]⟩
      refine .ite (fun _ => ?_) fun _ => Uses.pure fun φ _ hlast => ⟨fun _ => ?_, nofun, hh⟩
      · have hwrite : Uses request P
            (fun φ => ∃ earlier, φ = ⟨.storage (.size h), .ok stored⟩ :: earlier)
            (setState (old.setOffset length) .update) fun _ φ => Backed key old φ := by
          refine .step (fun _ φ => P φ ∧ Backed key old φ) ?_ ?_ fun r => .done fun _ h => ⟨h.1, fun _ _ => h.2⟩
          · rintro φ ⟨_, earlier, rfl⟩ _
            exact .inr (.inl ⟨[], h, earlier, stored, rfl, List.forall_mem_nil _, hh,
              by rw [hstored]; exact hlen⟩)
          · rintro φ a ⟨hφ, earlier, rfl⟩
            exact ⟨hP _ _ (fun h => h) hφ,
              hbacked _ _ (List.mem_cons_of_mem _ (List.mem_cons_self ..))⟩
        exact Uses.after hwrite fun _ => .pure fun _ h => ⟨fun _ => h.2, nofun, hh⟩
      · obtain ⟨earlier, rfl⟩ := hlast
        exact hbacked _ _ (List.mem_cons_self ..)

theorem prepareUploadReadAccess_does (hF : Settled F) (hgot : ∀ φ, F φ → got key old ∈ φ) :
    Does request (Under F L) (prepareUploadReadAccess contract old) fun r φ =>
      (old.isFinal = true → Backed key old φ) ∧ Carries old r φ := by
  have hactive : ∀ state : UploadState, Does request (Under F L) (ensureActive state) fun _ _ => True :=
    fun _ => ensureActive_does (steady_under hF).finish
  refine .ite (fun hfinal => ?_) fun hfinal => ?_
  · have hread : Does request (Under F L) (prepareRead contract old) fun r φ =>
        Backed key old φ ∧ Carries old r φ := by
      refine .ite (fun h => absurd hfinal (by simpa using h)) fun _ => ?_
      refine .seq (recoverMaterializedFinalUpload_does key (steady_under hF).finish) fun ⟨cur, found⟩ => ?_
      cases found with
      | true => exact .pure fun _ h => ⟨h.2.1 rfl, carries_of_eq h.2.2.2⟩
      | false =>
        refine .knowing (fun φ h => h.2.2.1 rfl) fun hcur => ?_
        obtain rfl : cur = old := hcur
        refine .reframe (R := Under F L) ?_ (fun _ h => h.1) fun _ h => ⟨h, nofun, fun _ => rfl, rfl⟩
        refine .seq (hactive cur) fun _ => .assume fun _ => ?_
        exact repairFinalUpload_does hF hgot hfinal
    refine .seq hread fun cur => ?_
    have hP : Steady OnLock fun φ => Under F L φ ∧ Backed key old φ ∧ Carries old cur φ :=
      (steady_under hF).and_settled (settled_backed.and (settled_carries old cur))
    exact .seq (ensureActive_does hP.finish) fun _ => .pure fun _ h => ⟨fun _ => h.1.2.1, h.1.2.2⟩
  · have hregular : old.isFinal = false := Bool.eq_false_iff.mpr hfinal
    exact (prepareRegularUploadAccess_does (steady_under hF) hregular).weaken
      fun _ _ _ hr => ⟨fun h => absurd h hfinal, carries_of_eq hr.handle⟩

/-- The bytes were streamed from the object of the record, after it was read. -/
def StreamedFrom (id : String) (old : UploadState) (bytes : Bytes) (φ : Log) : Prop :=
  ∃ h recent earlier, φ = recent ++ ⟨.storage (.stream h), .ok bytes⟩ :: earlier ∧
    got id old ∈ earlier ∧ HandleFrom old h earlier

theorem settled_streamedFrom (id : String) (old : UploadState) (bytes : Bytes) :
    Settled (StreamedFrom id old bytes) := by
  rintro φ c ⟨h, recent, earlier, rfl, hgot, hfrom⟩
  exact ⟨h, c :: recent, earlier, rfl, hgot, hfrom⟩

end Reads

/-! ## Handlers -/

section Handlers

variable {request : Request} {config : Config} {digests : Digests} {texts : Texts}
  {headers : Headers} {body : RequestBody} {F : Log → Prop} {L : List String} {id : String}

/-- Nothing has been assumed and no lock is held. -/
abbrev Free : Log → Prop := Under (fun _ => True) []

theorem settled_true : Settled fun _ => True := settled_const True

theorem patch_does (hpatch : ∃ headers target body, request = .patch headers target body) :
    Does request Free (Protocol.patch ⟨config, digests, contract⟩ texts headers id body)
      fun _ _ => True := by
  refine .seq (A := fun _ _ => True) (.lift fun _ _ _ _ => trivial) fun _ => .assume fun _ => ?_
  cases headers.uploadOffset with
  | none => exact .error _
  | some clientOffset =>
    refine .seq (checkExists_does (steady_under settled_true) nofun) fun _ => .assume fun _ => ?_
    refine withLock_does settled_true (fun _ => settled_true) ?_
    refine .seq (requireState_does (steady_under settled_true) nofun) fun old => ?_
    have hP : Steady OnLock fun φ => Under (fun _ => True) [id] φ ∧ got id old ∈ φ :=
      (steady_under settled_true).and_settled (settled_mem _)
    refine .seq (prepareUploadMutationAccess_does hP) fun state => .assume fun hstate => ?_
    refine .seq (receivePatch_does hP hpatch hstate.2 fun φ h => ⟨id, old, h.2, hstate.1⟩) fun _ => ?_
    exact .pure fun _ _ => trivial

/-- A read of the upload found its record, and what stands behind a final one. -/
def ReadBacked (id : String) (φ : Log) : Prop :=
  ∃ old, got id old ∈ φ ∧ (old.isFinal = true → Backed id old φ)

theorem settled_backedIf (id : String) (old : UploadState) :
    Settled fun φ => old.isFinal = true → Backed id old φ :=
  fun φ c h hf => settled_backed φ c (h hf)

theorem head_does :
    Does request Free (Protocol.head ⟨config, digests, contract⟩ texts id) fun _ => ReadBacked id := by
  refine .seq (checkExists_does (steady_under settled_true) nofun) fun _ => .assume fun _ => ?_
  have hbacked : Settled (ReadBacked id) :=
    settled_exists fun old => (settled_mem _).and (settled_backedIf id old)
  refine withLock_does settled_true (fun _ => hbacked) ?_
  refine .seq (requireState_does (steady_under settled_true) nofun) fun old => ?_
  refine .reframe (R := Under (fun φ => got id old ∈ φ) [id]) ?_ (fun φ h => ⟨h.2, h.1.2⟩)
    fun φ h => ⟨⟨trivial, h.2⟩, h.1⟩
  refine .seq (prepareUploadReadAccess_does (settled_mem _) fun φ h => h) fun _ => ?_
  exact .pure fun φ h => ⟨old, h.1.1, h.2.1⟩

/-- A GET found the record and streamed its object, unless it is empty. -/
def ContentBacked (id : String) (bytes : Bytes) (φ : Log) : Prop :=
  ∃ old, got id old ∈ φ ∧ (old.isFinal = true → Backed id old φ) ∧
    (bytes = [] ∨ StreamedFrom id old bytes φ)

theorem download_does :
    Does request Free (Protocol.download ⟨config, digests, contract⟩ id) fun r φ =>
      ContentBacked id r.2 φ := by
  refine .ite (fun _ => .error _) fun _ => ?_
  refine .seq (checkExists_does (steady_under settled_true) nofun) fun _ => .assume fun _ => ?_
  have hbacked : ∀ bytes, Settled (ContentBacked id bytes) := fun bytes =>
    settled_exists fun old => (settled_mem _).and ((settled_backedIf id old).and
      fun φ c h => h.imp_right (settled_streamedFrom id old bytes φ c))
  refine withLock_does settled_true (fun r => hbacked r.2) ?_
  refine .seq (requireState_does (steady_under settled_true) nofun) fun old => ?_
  refine .reframe (R := Under (fun φ => got id old ∈ φ) [id]) ?_ (fun φ h => ⟨h.2, h.1.2⟩)
    fun φ h => ⟨⟨trivial, h.2⟩, h.1⟩
  have haccess : Does request (Under (fun φ => got id old ∈ φ) [id])
      (prepareUploadDownloadAccess contract old) fun r φ =>
        (old.isFinal = true → Backed id old φ) ∧ Carries old r φ := by
    refine .seq (prepareUploadReadAccess_does (settled_mem _) fun φ h => h) fun _ => ?_
    exact .ite (fun _ => .error _) fun _ => .pure fun _ h => h.2
  refine .seq haccess fun state => ?_
  have hP : Steady OnLock fun φ => Under (fun φ => got id old ∈ φ) [id] φ ∧
      (old.isFinal = true → Backed id old φ) ∧ Carries old state φ :=
    (steady_under (settled_mem _)).and_settled ((settled_backedIf id old).and (settled_carries old state))
  refine .ite (fun _ => .pure fun φ h => ⟨old, h.1.1, h.2.1, .inl rfl⟩) fun _ => ?_
  refine .seq (A := fun handle _ => state.requireStorageHandle = .ok handle)
    (.lift fun _ _ h _ => h) fun handle => .assume fun hhandle => ?_
  refine .seq (A := fun bytes φ => StreamedFrom id old bytes φ) ?_ fun bytes =>
    .pure fun φ h => ⟨old, h.1.1.1, h.1.2.1, .inr h.2⟩
  refine .step (fun (r : Except Error Bytes) φ => (Under (fun φ => got id old ∈ φ) [id] φ ∧
    (old.isFinal = true → Backed id old φ) ∧ Carries old state φ) ∧
    ∀ bytes, r = .ok bytes → StreamedFrom id old bytes φ) (fun _ _ => trivial)
    (fun φ r h => ⟨hP φ _ nofun h, ?_⟩) fun r => .done fun φ h => h
  rintro bytes rfl
  exact ⟨handle, [], φ, rfl, h.1.1, h.2.2 handle (handle_of_require hhandle)⟩

theorem delete_does :
    Does request Free (Protocol.delete ⟨config, digests, contract⟩ id) fun _ _ => True := by
  refine .ite (fun _ => .error _) fun _ => ?_
  refine .seq (checkExists_does (steady_under settled_true) nofun) fun _ => .assume fun _ => ?_
  refine withLock_does settled_true (fun _ => settled_true) ?_
  refine .seq (requireState_does (steady_under settled_true) nofun) fun state => ?_
  have hP : Steady OnLock fun φ => Under (fun _ => True) [id] φ ∧ got id state ∈ φ :=
    (steady_under settled_true).and_settled (settled_mem _)
  refine .seq (ensureActive_does hP.finish) fun _ => .assume fun _ => ?_
  exact .seq (terminate_does hP fun φ h => ⟨id, h.2⟩) fun _ => .pure fun _ _ => trivial

/-! ### POST -/

theorem createFinalUpload_does {state : UploadState} {partUrls : List String} (hF : Settled F)
    (hp : state.isPartial = false) (hl : state.length = none) :
    Does request (Under F L) (createFinalUpload ⟨config, digests, contract⟩ state partUrls)
      fun r φ => Began r.1.id φ := by
  refine .seq (loadFinalUploadPlan_does (steady_under hF).finish) fun plan => ?_
  refine .ite (fun _ => ?_) fun _ => ?_
  · have hF₁ : Settled fun φ => F φ ∧ PlanRead plan φ := hF.and (settled_planRead plan)
    refine .reframe (withPartLocks_does hF₁ (fun _ => settled_began _) fun more => ?_)
      (fun φ h => ⟨⟨h.1.1, h.2⟩, h.1.2⟩) fun φ h => ⟨⟨h.1.1, h.2⟩, h.1.2⟩
    refine .seq (loadFinalUploadPlan_does (steady_under hF₁).finish) fun plan => ?_
    exact createPlanned_does ((steady_under hF₁).and_settled (settled_planRead plan))
      (fun φ h => h.2) (fun φ h => h.1.2.2) hp hl
  · exact createPlanned_does ((steady_under hF).and_settled (settled_planRead plan))
      (fun φ h => h.2) (fun φ h => h.1.2.2) hp hl

theorem prepareCreation_does {hasBody : Bool} (hP : Steady OnFinish P) :
    Does request P (prepareCreation config headers hasBody) fun r _ =>
      ∃ id, Born config headers id r := by
  refine .seq (A := fun _ _ => checkCreation config headers hasBody = .ok ()) (.lift fun _ _ h _ => h)
    fun _ => .assume fun hc => ?_
  refine .perform hP (fun h => h) (fun _ _ => trivial) fun (id : String) => ?_
  have hP₁ := hP.and_settled (settled_mem ⟨.newId, id⟩)
  refine .perform hP₁ (fun h => h) (fun _ _ => trivial) fun (createdAt : Nat) => ?_
  have hP₂ := hP₁.and_settled (settled_mem ⟨.now, createdAt⟩)
  obtain ⟨hid, hoff, hp, hf, hl⟩ := initialState_facts headers id createdAt
  cases config.expiration with
  | none => exact .pure fun _ _ => ⟨id, transition_born hc hid hoff hp hf hl⟩
  | some expiration =>
    refine .perform hP₂ (fun h => h) (fun _ _ => trivial) fun (now : Nat) => ?_
    exact .pure fun _ _ => ⟨id, transition_born hc hid hoff hp hf hl⟩

/-- The response to a creation is the last thing its request does. -/
theorem respond_keeps {response : Response} :
    Keeps request (fun φ => Free φ ∧ Began id φ) (respond id response) fun _ φ => held φ = [] :=
  .step (fun _ φ => held φ = []) (fun _ h => h.2) (fun _ _ h => h.1.2.1) fun _ => .done fun _ h => h

theorem andThen_free {α β : Type} {A : α → Log → Prop} {p : HostM ObjectSig α}
    {f : α → HostM ObjectSig β} (hp : Does request Free p A)
    (hf : ∀ a, Keeps request (fun φ => Free φ ∧ A a φ) (f a) fun _ φ => held φ = []) :
    Keeps request Free (p >>= f : HostM ObjectSig β) fun _ φ => held φ = [] :=
  .andThen _ hp (fun a => Watch.Habit.weaken (hf a) (fun _ h => ⟨h.1, h.2 a rfl⟩) fun _ _ h => h)
    fun _ _ h => h.1.2.1

theorem createAnswered_keeps {hasBody : Bool} :
    Keeps request Free
      (do
        match ← prepareCreation config headers hasBody with
        | .finalUpload state partUrls =>
          let (state, status, responseHeaders) ←
            createFinalUpload ⟨config, digests, contract⟩ state partUrls
          let offset := if status.allComplete then some state.offset else none
          respond state.id (createdResponse (O := ObjectSig) ⟨config, digests, contract⟩ texts state
            offset state.length responseHeaders)
        | .upload state =>
          if hasBody then do
            let (state, responseHeaders) ←
              receiveCreationWithUpload ⟨config, digests, contract⟩ headers state body
            respond state.id (createdResponse (O := ObjectSig) ⟨config, digests, contract⟩ texts state
              (some state.offset) none responseHeaders)
          else do
            let (state, responseHeaders) ← createUpload ⟨config, digests, contract⟩ state
            respond state.id (createdResponse (O := ObjectSig) ⟨config, digests, contract⟩ texts state
              none none responseHeaders) :
        HostM ObjectSig Response) fun _ φ => held φ = [] := by
  have hfree : Steady OnLock Free := steady_under settled_true
  refine andThen_free (prepareCreation_does hfree.finish) fun r φ hr => ?_
  obtain ⟨hφ, id, hborn⟩ := hr
  cases hborn with
  | upload hn =>
    refine Watch.Habit.ite (fun _ => ?_) (fun _ => ?_) φ hφ
    · exact andThen_free (receiveCreationWithUpload_does hfree hn.regular fun _ h => h.2.2) fun r =>
        respond_keeps
    · exact andThen_free (createUpload_does hfree hn.regular fun _ h => h.2.2) fun r => respond_keeps
  | finalUpload hid hp hl hc =>
    exact andThen_free (createFinalUpload_does settled_true hp hl) (fun r => respond_keeps) φ hφ

theorem post_keeps :
    Keeps request Free (Protocol.post ⟨config, digests, contract⟩ texts headers body)
      fun _ φ => held φ = [] := by
  refine .ite (fun _ => ?_) fun _ => createAnswered_keeps
  refine andThen_free (A := fun _ _ => True) (.lift fun _ _ _ _ => trivial) fun _ => ?_
  exact Watch.Habit.weaken createAnswered_keeps (fun _ h => h.1) fun _ _ h => h

/-! ### Reclamation -/

theorem reclaimLocked_keeps {before : Nat} (hP : Steady OnLock P)
    (hreq : request = .reclaim before) :
    Keeps request P (reclaimLocked contract id) fun _ => P := by
  refine .perform hP nofun (fun _ _ => trivial) fun (r : Except Error (Option UploadState)) => ?_
  match r with
  | .error e => exact .done fun _ h => h.1
  | .ok none => exact .done fun _ h => h.1
  | .ok (some state) =>
    have hP₁ : Steady OnFinish fun φ => P φ ∧ got id state ∈ φ := hP.finish.and_settled (settled_mem _)
    have haccess : Does request (fun φ => P φ ∧ got id state ∈ φ)
        (prepareUploadReclamationAccess contract state) fun _ _ => True := by
      refine .seq (detectStoredCompletion_does hP₁) fun r => .assume fun _ => ?_
      cases r with
      | some _ => exact .pure fun _ _ => trivial
      | none => exact isExpired_does hP₁
    have hmay : ∀ φ, MayRemove request state φ := fun _ => .inl ⟨before, hreq⟩
    have hdrop : Keeps request (fun φ => (P φ ∧ got id state ∈ φ) ∧ JustErased state φ)
        (.step (.stateDelete state.id) fun (r : Except Error Unit) =>
          match r with
          | .error e => .done (ReclamationOutcome.stateDeleteFailed id e)
          | .ok _ => .done (ReclamationOutcome.removed id)) fun _ => P := by
      refine .step (fun _ => P) (fun φ h => .inr ⟨id, state, h.1.2, rfl, h.2, hmay φ⟩)
        (fun φ _ h => hP φ _ nofun h.1.1) fun (r : Except Error Unit) => ?_
      cases r <;> exact .done fun _ h => h
    refine Watch.Habit.bind _ haccess fun r => ?_
    match r with
    | .error e => exact .done fun _ h => h.1.1
    | .ok false => exact .done fun _ h => h.1.1
    | .ok true =>
      cases hh : state.handle with
      | none =>
        have hnone : ∀ φ, JustErased state φ := fun φ h hh' => nomatch hh.symm.trans hh'
        exact Watch.Habit.weaken hdrop (fun φ h => ⟨h.1, hnone φ⟩) fun _ _ h => h
      | some h =>
        refine .step (fun (r : Except Error Unit) φ => (P φ ∧ got id state ∈ φ) ∧
          (r = .ok () → JustErased state φ)) (fun φ hφ => .inr ⟨id, state, hφ.1.2, hh, hmay φ⟩) ?_
          fun (r : Except Error Unit) => ?_
        · refine fun φ r hφ => ⟨hP₁ φ _ (fun h => h) hφ.1, ?_⟩
          rintro rfl h' hh'
          cases hh.symm.trans hh'
          exact ⟨φ, rfl⟩
        · cases r with
          | error e => exact .done fun _ h => h.1.1
          | ok _ => exact Watch.Habit.weaken hdrop (fun _ h => ⟨h.1, h.2 rfl⟩) fun _ _ h => h

theorem reclaimExpiredUpload_keeps {before : Nat} (hreq : request = .reclaim before) :
    Keeps request Free (reclaimExpiredUpload contract id) fun _ => Free := by
  refine .step (fun (r : Except Error Bool) φ =>
    Under (fun _ => True) (if r = .ok true then [id] else []) φ) (fun _ _ => trivial) ?_ ?_
  · intro φ (r : Except Error Bool) h
    refine h.cons settled_true nofun ?_
    match r with
    | .error e => rfl
    | .ok false => rfl
    | .ok true => rfl
  · intro (r : Except Error Bool)
    match r with
    | .error e => exact .done fun _ h => h
    | .ok false => exact .done fun _ h => h
    | .ok true =>
      exact Watch.Habit.bind _ (reclaimLocked_keeps (steady_under settled_true) hreq) fun outcome =>
        unlock_keeps settled_true (.done fun _ h => h)

theorem reclaimAll_keeps {before : Nat} (hreq : request = .reclaim before) (ids : List String) :
    Keeps request Free (reclaimAll contract ids) fun _ => Free := by
  induction ids with
  | nil => exact .done fun _ h => h
  | cons id ids ih =>
    refine Watch.Habit.bind _ (reclaimExpiredUpload_keeps hreq) fun outcome => ?_
    exact Watch.Habit.bind _ ih fun outcomes => .done fun _ h => h

theorem reclaimExpiredUploads_does {before : Nat} (hreq : request = .reclaim before) :
    Does request Free (reclaimExpiredUploads contract before) fun _ _ => True := by
  refine .step (fun _ => Free) (fun _ _ => trivial) (fun φ _ h => h.cons settled_true nofun rfl)
    fun (r : Except Error (List String)) => ?_
  cases r with
  | error e => exact Does.error e
  | ok ids =>
    exact Watch.Habit.bind _ (reclaimAll_keeps hreq ids) fun outcomes =>
      .done fun _ h => ⟨h, fun _ _ => trivial⟩

/-! ## The server -/

/-- What a request has done when it answers. -/
def Concludes : Request → Answer → Log → Prop
  | .head id, .response _, φ => held φ = [] ∧ ReadBacked id φ
  | .download id, .content _ bytes, φ => held φ = [] ∧ ContentBacked id bytes φ
  | _, _, φ => held φ = []

theorem Concludes.free {answer : Answer} {φ : Log} (h : Concludes request answer φ) :
    held φ = [] := by
  unfold Concludes at h
  split at h
  · exact h.1
  · exact h.1
  · exact h

theorem answerWith_keeps {α : Type} {f : α → Answer} {p : HostM ObjectSig α}
    {A : α → Log → Prop} {Q : Answer → Log → Prop} (hp : Does request Free p A)
    (hA : ∀ a φ, held φ = [] → A a φ → Q (f a) φ)
    (hE : ∀ e φ, held φ = [] → Q (.failed e) φ) : Keeps request Free (answerWith f p) Q := by
  refine Watch.Habit.bind _ hp fun r => ?_
  cases r with
  | ok a => exact .done fun φ h => hA a φ h.1.2.1 (h.2 a rfl)
  | error e => exact .done fun φ h => hE e φ h.1.2.1

/-- A request performs only what it has earned, and holds no lock when it answers. -/
theorem serve_keeps (request : Request) :
    Keeps request Free (serve ⟨config, digests, contract⟩ texts request) (Concludes request) := by
  cases request with
  | patch headers id body =>
    exact answerWith_keeps (patch_does ⟨headers, id, body, rfl⟩) (fun _ _ h _ => h) fun _ _ h => h
  | head id => exact answerWith_keeps head_does (fun _ _ h hb => ⟨h, hb⟩) fun _ _ h => h
  | download id => exact answerWith_keeps download_does (fun _ _ h hb => ⟨h, hb⟩) fun _ _ h => h
  | delete id => exact answerWith_keeps delete_does (fun _ _ h _ => h) fun _ _ h => h
  | post headers body =>
    refine Watch.Habit.bind _ post_keeps fun r => ?_
    cases r with
    | ok a => exact .done fun _ h => h
    | error e => exact .done fun _ h => h
  | reclaim before =>
    exact answerWith_keeps (reclaimExpiredUploads_does rfl) (fun _ _ h _ => h) fun _ _ h => h

end Handlers

end System.Requests

end TusRs
