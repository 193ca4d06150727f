import TusRs.System.FinalReads

/-!
# Every request keeps the discipline

The specifications of the handlers put together: whatever requests a server is given and
however they interleave, every operation meets its guard, so every reachable world is well
formed.

* `prepareUploadReadAccess_spec`, `prepareUploadMutationAccess_spec`: access to an upload.
* `withLock_spec`: what a body leaves holds when the lock is given back.
* `serve_spec`: one request.
* `reach_served`: what every guarded operation preserves holds in every run of the server.
-/

namespace TusRs

open Interaction

open Protocol

namespace System

variable {hooks : HookEvent → UploadState → Except Error PreHookResult → Prop}
  {config : Config} {requests : Nat → Option Request} {t : Nat} {α β : Type}
  {F : Snap (Host ObjectSig) World → Prop} {id : String}

/-- The record of an upload counts its stored bytes. -/
structure Counted (id : String) (state : UploadState) (w : World) : Prop where
  state_eq : w.states id = some state
  owner : ∃ h, state.handle = some h ∧ w.owner h.key = some id
  stored : state.offset = (w.content state).length

theorem Holding.counted {state : UploadState} {h h' : StorageHandle} {o : Option Bytes}
    {s : Snap (Host ObjectSig) World} (hs : Holding F t id (some state) h o s)
    (hh : state.handle = some h') (hkey : h'.key = h.key) (hoff : state.offset = sizeOfObject o) :
    Counted id state s.world where
  state_eq := hs.2.state
  owner := ⟨h', hh, hkey ▸ hs.2.owner⟩
  stored := by
    rw [hoff, sizeOfObject_getD, World.content, hh]
    exact congrArg (fun o : Option Bytes => (o.getD []).length) (hkey ▸ hs.2.object).symm

/-! ## Access -/

/-- The stored record of a regular upload that a request was admitted to. -/
theorem prepareUploadMutationAccess_spec {state : UploadState} {h : StorageHandle}
    {o : Option Bytes} (hF : Frame t state.id F) (hh : state.handle = some h)
    (hlock : ∀ s, F s → s.world.locks state.id = some t) :
    HostSpec hooks config requests t (Holding F t state.id (some state) h o)
      (prepareUploadMutationAccess contract state)
      (outcomes F fun state' s => Holding F t state.id (some state') h o s ∧
        state' = state.setOffset (sizeOfObject o)) := by
  refine Spec.ite (fun _ => ?_) fun hf => ?_
  · exact andThen (ensureActive_spec (lasting_holding hF) fun s hs => hs.1) fun _ =>
      throw_spec fun s hs => hs.1
  · exact prepareRegularUploadAccess_spec hF hh (by simpa using hf) hlock

/-! ### The role of a returned record -/

section Roles

variable {O : Sig} (storage : Storage O)

theorem materializeFinalUpload_role (state : UploadState) (parts : List UploadState) :
    Attempt.Returns (fun r : UploadState => r.isFinal = state.isFinal)
      (materializeFinalUpload storage state parts) :=
  Attempt.Returns.bind (.trivial _) fun _ _ => Attempt.Returns.bind (.trivial _) fun _ _ =>
    Attempt.Returns.bind (.trivial _) fun _ _ => .pure rfl

theorem refreshLength_role (r : PlannedFinalUploadRefresh) (state : UploadState) :
    (r.refreshLength state).1.isFinal = state.isFinal := by
  unfold PlannedFinalUploadRefresh.refreshLength
  split
  · rfl
  · split <;> rfl

theorem refreshOffset_role (r : PlannedFinalUploadRefresh) (state : UploadState) :
    (r.refreshOffset state).1.isFinal = state.isFinal := by
  unfold PlannedFinalUploadRefresh.refreshOffset
  split <;> rfl

theorem repairPlanned_role (state : UploadState) (plan : FinalUploadPlan) :
    Attempt.Returns (fun r : UploadState => r.isFinal = state.isFinal)
      (repairPlanned storage state plan) := by
  refine Attempt.Returns.bind (.trivial _) fun refresh _ => ?_
  have hlength := refreshLength_role refresh state
  generalize refresh.refreshLength state = refreshed at hlength ⊢
  obtain ⟨cur, changed⟩ := refreshed
  have hrecord : ∀ cur : UploadState, cur.isFinal = state.isFinal →
      (refresh.refreshOffset cur).1.isFinal = state.isFinal :=
    fun cur h => (refreshOffset_role refresh cur).trans h
  -- the record is the one read, or the one with the new handle, and then counts the parts
  have hend : ∀ cur : UploadState, cur.isFinal = state.isFinal → ∀ due written : Bool,
      Attempt.Returns (fun r : UploadState => r.isFinal = state.isFinal) (do
        if written || (refresh.refreshOffset cur).2 then
          setState (O := O) (refresh.refreshOffset cur).1 .update
        else pure ()
        if due then afterCommit (refresh.refreshOffset cur).1 else pure ()
        pure (refresh.refreshOffset cur).1) := by
    intro cur hcur due written
    have hnext := hrecord cur hcur
    generalize refresh.refreshOffset cur = next at hnext ⊢
    have hpure := Attempt.Returns.pure (S := Host O) (ε := Error)
      (A := fun r : UploadState => r.isFinal = state.isFinal) hnext
    have hafter : Attempt.Returns (fun r : UploadState => r.isFinal = state.isFinal) (do
        if due then afterCommit (O := O) next.1 else pure ()
        pure next.1) :=
      .ite (fun _ => .bind (.trivial _) fun _ _ => hpure) fun _ => hpure
    exact .ite (fun _ => .bind (.trivial _) fun _ _ => hafter) fun _ => hafter
  have hmaterialize : Attempt.Returns (fun r : UploadState => r.isFinal = state.isFinal) (do
      let state ←
        if refresh.needsMaterialization then materializeFinalUpload storage cur refresh.parts
        else pure cur
      let refreshed := refresh.refreshOffset state
      if changed || refresh.needsMaterialization || refreshed.2 then setState refreshed.1 .update
      else pure ()
      if refresh.willComplete cur then afterCommit refreshed.1 else pure ()
      pure refreshed.1) := by
    refine .ite (fun _ => ?_) fun _ => hend cur hlength _ _
    exact .bind (materializeFinalUpload_role storage cur _) fun a ha => hend a (ha.trans hlength) _ _
  exact .ite (fun _ => .bind (.trivial _) fun _ _ => hmaterialize) fun _ => hmaterialize

theorem lockPartsThen_returns {A : α → Prop} {body : HostM O α} (hbody : Attempt.Returns A body)
    (held ids : List String) : Attempt.Returns A (lockPartsThen body held ids) := by
  have hfail : ∀ (e : Error) (held : List String), Attempt.Returns A
      (Prog.bind (unlockAll held) fun _ => .done (.error e) : HostM O α) := fun e held =>
    Prog.Yields.bind (.trivial _) fun _ _ _ h => nomatch h
  induction ids generalizing held with
  | nil =>
    refine Prog.Yields.bind hbody fun r hr => ?_
    exact Prog.Yields.bind (.trivial _) fun _ _ => hr
  | cons id ids ih =>
    intro (r : Except Error Bool)
    match r with
    | .error e => exact hfail e held
    | .ok false => exact hfail (.locked id) held
    | .ok true => exact ih (id :: held)

theorem repairFinalUpload_role (state : UploadState) :
    Attempt.Returns (fun r : UploadState => r.isFinal = state.isFinal)
      (repairFinalUpload storage state) := by
  refine .bind (.trivial _) fun plan _ => ?_
  cases plan with
  | none => exact .pure rfl
  | some plan =>
    refine .ite (fun _ => lockPartsThen_returns (.bind (.trivial _) fun plan _ => ?_) _ _)
      fun _ => repairPlanned_role storage state plan
    cases plan with
    | none => exact .pure rfl
    | some plan => exact repairPlanned_role storage state plan

theorem recoverMaterializedFinalUpload_role (state : UploadState) :
    Attempt.Returns (fun r : UploadState × Bool => r.1.isFinal = state.isFinal)
      (recoverMaterializedFinalUpload storage state) := by
  unfold recoverMaterializedFinalUpload
  split
  · refine .bind (.trivial _) fun stored _ => .ite (fun _ => .pure rfl) fun _ => ?_
    exact .ite (fun _ => .bind (.trivial _) fun _ _ => .pure rfl) fun _ => .pure rfl
  · exact .pure rfl

theorem prepareRead_role (state : UploadState) :
    Attempt.Returns (fun r : UploadState => r.isFinal = state.isFinal)
      (prepareRead storage state) := by
  refine .ite (fun _ => .pure rfl) fun _ => ?_
  refine .bind (recoverMaterializedFinalUpload_role storage state) ?_
  rintro ⟨cur, materialized⟩ hcur
  refine .ite (fun _ => .pure hcur) fun _ => .bind (.trivial _) fun _ _ => ?_
  exact (repairFinalUpload_role storage cur).mono fun r hr a ha => (hr a ha).trans hcur

end Roles

/-- What a read of an upload leaves: the record of a regular one counts the stored bytes. -/
theorem prepareUploadReadAccess_spec {state : UploadState} {h : StorageHandle}
    {o : Option Bytes} (hF : Frame t state.id F) (hU : ∀ p, p ≠ state.id → Unlocks t p F)
    (hlock : ∀ s, F s → s.world.locks state.id = some t) (hread : Read state.id h state) :
    HostSpec hooks config requests t
      (Holding (fun s => F s ∧ Planning state s) t state.id (some state) h o)
      (prepareUploadReadAccess contract state)
      (outcomes F fun state' s => F s ∧
        (state'.isFinal = false → Counted state.id state' s.world)) := by
  refine Spec.ite (fun hf => ?_) fun hf => ?_
  · have hp : state.isPartial = false := by
      cases hp : state.isPartial with
      | false => rfl
      | true => exact absurd (hread.role hp) (by simp [hf])
    refine andThen (A := fun state' s => F s ∧ state'.isFinal = true) ?_ fun state' =>
      assume fun hf' => ?_
    · refine ((prepareRead_spec hF hU hlock hread.handle hp hf).yields
        (prepareRead_role contract state)).weaken (fun _ h => h) ?_
      rintro (e | r) s hs
      · exact hs.1
      · exact ⟨hs.1, (hs.2 r rfl).trans hf⟩
    refine andThen (ensureActive_spec hF.lasting fun s hs => hs) fun _ => pure_spec fun s hs => ?_
    exact ⟨hs, fun h => absurd (h.symm.trans hf') (by decide)⟩
  · have hf : state.isFinal = false := by simpa using hf
    refine (prepareRegularUploadAccess_spec hF hread.handle hf hlock).weaken
      (fun s hs => ⟨hs.1.1, hs.2⟩) ?_
    rintro (e | r) s hs
    · exact hs
    · obtain ⟨hs, rfl⟩ := hs
      exact ⟨hs.1, fun _ => hs.counted hread.handle rfl rfl⟩

/-! ## Locks -/

/-- The thread holds the lock of the upload. -/
def Locked (t : Nat) (id : String) (s : Snap (Host ObjectSig) World) : Prop :=
  s.world.locks id = some t

theorem frame_lock {id' : String} : Frame t id' (Locked t id) := frame_locked

theorem lasting_locked : Lasting t (Locked t id) :=
  fun _ _ hs hr _ => hr.locks id hs

theorem unlocks_locked {p : String} (hp : p ≠ id) : Unlocks t p (Locked t id) :=
  fun _ hs _ => (Function.update_of_ne hp.symm _ _).trans hs

/-- `A` held when the thread gave the lock back, just now. -/
def Released (t : Nat) (id : String) (A : Snap (Host ObjectSig) World → Prop)
    (s : Snap (Host ObjectSig) World) : Prop :=
  ∃ e rest, s.hist = e :: rest ∧ e.tid = t ∧ e.op = .unlock id ∧ e.before.locks id = some t ∧
    A ⟨e.before, rest⟩

/-- The body runs under the lock, and what it leaves holds when the lock is given back. -/
theorem withLock_spec {body : HostM ObjectSig α} {A : α → Snap (Host ObjectSig) World → Prop}
    (hA : ∀ a, Lasting t fun s => Locked t id s ∧ A a s)
    (hbody : HostSpec hooks config requests t (Locked t id) body
      (outcomes (Locked t id) fun a s => Locked t id s ∧ A a s)) :
    HostSpec hooks config requests t (fun _ => True) (withLock id body)
      (outcomes (fun _ => True) fun a => Released t id (A a)) := by
  refine perform (o := .lock id) (fun (r : Except Error Unit) s => r = .ok () → Locked t id s)
    (fun _ _ _ _ _ => trivial) (fun _ _ _ => trivial) ?_ fun r => ?_
  · intro s a w' _ _ he _
    cases he with
    | lock _ _ => exact fun _ => Function.update_self _ _ _
    | lockFailed => exact fun h => nomatch h
  · cases r with
    | error e => exact Spec.done fun _ _ => trivial
    | ok u =>
      refine Spec.weaken (P := Locked t id) ?_ (fun s hs => hs rfl) fun _ _ h => h
      refine Spec.bind _ hbody fun r => ?_
      have hlast : Lasting t fun s => outcomes (Locked t id) (fun a s => Locked t id s ∧ A a s) r s := by
        cases r with
        | error e => exact lasting_locked
        | ok a => exact hA a
      have hlocked : ∀ s, outcomes (Locked t id) (fun a s => Locked t id s ∧ A a s) r s →
          Locked t id s := by
        intro s hs
        cases r with
        | error e => exact hs
        | ok a => exact hs.1
      refine perform (o := .unlock id) (fun _ s => ∀ a, r = .ok a → Released t id (A a) s) hlast
        (fun s _ hs => hlocked s hs) ?_ fun _ => Spec.done fun s hs => ?_
      · intro s _ w' _ hs he _
        cases he
        rintro a rfl
        exact ⟨_, _, rfl, rfl, rfl, hs.1, hs.2⟩
      · cases r with
        | error e => trivial
        | ok a => exact hs a rfl

/-! ## Requests -/

theorem checkExists_spec :
    HostSpec hooks config requests t (fun _ => True) (checkExists id)
      (outcomes (fun _ => True) fun _ _ => True) := by
  refine query (o := .stateGet id) (fun _ => True) (fun _ _ _ _ _ => trivial) (fun _ => trivial) ?_ ?_
  · intro s a w' _ _ he
    cases he <;> exact ⟨rfl, trivial⟩
  · intro r _
    match r with
    | .error e => exact Spec.done fun _ _ => trivial
    | .ok none => exact Spec.done fun _ _ => trivial
    | .ok (some _) => exact Spec.done fun _ _ => trivial

/-- The record read under the lock. -/
theorem requireState_spec :
    HostSpec hooks config requests t (Locked t id) (requireState id)
      (outcomes (Locked t id) fun state s => ∃ h o,
        Holding (fun s => Locked t id s ∧ Planning state s) t id (some state) h o s ∧
          Read id h state) := by
  refine get_step frame_lock (fun s hs => hs) (fun e => Spec.done fun _ h => h)
    (Spec.done fun _ h => h) fun state h o hread => Spec.done fun s hs => ⟨h, o, hs, hread⟩

variable {digests : Digests} {texts : Texts}

/-- What a response says about the upload when the lock is given back. -/
def Answered (hooks : HookEvent → UploadState → Except Error PreHookResult → Prop)
    (server : Server ObjectSig) (texts : Texts) (t : Nat) :
    Request → Answer → Snap (Host ObjectSig) World → Prop
  | .patch _ id _, .response r, s => Released t id (fun s => ∃ state responseHeaders,
      r = patchResponse server texts state responseHeaders ∧ FromHooks hooks responseHeaders ∧
        Counted id state s.world) s
  | .head id, .response r, s => Released t id (fun s => ∃ state,
      r = headResponse server texts state ∧ (state.isFinal = false → Counted id state s.world)) s
  | _, _, _ => True

theorem lasting_counted {state : UploadState} :
    Lasting t fun s => Locked t id s ∧ Counted id state s.world := by
  rintro s s' ⟨hl, hc⟩ hr _
  obtain ⟨h, hh, howner⟩ := hc.owner
  have hobject : s'.world.objects h.key = s.world.objects h.key :=
    hr.objects id h.key (.inl hl) howner
  refine ⟨hr.locks id hl, (hr.states id (.inl hl)).trans hc.state_eq,
    ⟨h, hh, hr.later.owner h.key id howner⟩, ?_⟩
  rw [hc.stored]
  unfold World.content
  simp only [hh, Option.bind_some, hobject]

theorem patchLocked_spec {headers : Headers} {offset : Nat} {body : RequestBody}
    (hreq : requests t = some (.patch headers id body)) (hoff : headers.uploadOffset = some offset) :
    HostSpec hooks config requests t (Locked t id)
      (do
        let state ← requireState id
        let state ← prepareUploadMutationAccess contract state
        let (state, responseHeaders) ← receivePatch ⟨config, digests, contract⟩ headers state
          ⟨offset, headers.uploadLength⟩ body
        pure (patchResponse ⟨config, digests, contract⟩ texts state responseHeaders) :
        HostM ObjectSig Response)
      (outcomes (Locked t id) fun r s => Locked t id s ∧ ∃ state responseHeaders,
        r = patchResponse ⟨config, digests, contract⟩ texts state responseHeaders ∧
          FromHooks hooks responseHeaders ∧ Counted id state s.world) := by
  refine andThen requireState_spec fun state => ?_
  refine assumeExists fun h => assumeExists fun o => assume fun hread => ?_
  obtain rfl := hread.id_eq
  refine andThen ((prepareUploadMutationAccess_spec (F := Locked t state.id) frame_lock hread.handle
    fun _ hs => hs).weaken (fun s hs => ⟨hs.1.1, hs.2⟩) fun _ _ h => h) fun cur => assume fun hcur => ?_
  subst hcur
  have hh : (state.setOffset (sizeOfObject o)).handle = some h := hread.handle
  have hreq : requests t = some (.patch headers (state.setOffset (sizeOfObject o)).id body) := hreq
  refine andThen (receivePatch_spec frame_lock (fun _ hs => hs) hh rfl hreq hoff) fun r => ?_
  refine pure_spec fun s hs => ?_
  obtain ⟨⟨o', hs, hcom⟩, ⟨_, h', hh', hkey⟩, hfrom⟩ := hs
  exact ⟨hs.1, r.1, r.2, rfl, hfrom, hs.counted hh' hkey hcom.offset⟩

theorem patch_spec {headers : Headers} {body : RequestBody}
    (hreq : requests t = some (.patch headers id body)) :
    HostSpec hooks config requests t (fun _ => True)
      (Protocol.patch ⟨config, digests, contract⟩ texts headers id body)
      (outcomes (fun _ => True) fun r => Released t id fun s => ∃ state responseHeaders,
        r = patchResponse ⟨config, digests, contract⟩ texts state responseHeaders ∧
          FromHooks hooks responseHeaders ∧ Counted id state s.world) := by
  unfold Protocol.patch
  refine andThen (A := fun _ _ => True) (lift_spec (fun _ _ => trivial) fun _ _ _ _ => trivial)
    fun _ => ?_
  split
  · exact throw_spec fun _ _ => trivial
  · next offset hoff =>
    refine andThen checkExists_spec fun _ => withLock_spec ?_ (patchLocked_spec hreq hoff)
    rintro r s s' ⟨hl, state, responseHeaders, hr, hfrom, hc⟩ hrely hh
    obtain ⟨hl', hc'⟩ := lasting_counted s s' ⟨hl, hc⟩ hrely hh
    exact ⟨hl', state, responseHeaders, hr, hfrom, hc'⟩

/-- The record a read is answered with. -/
def Shown (id : String) (state : UploadState) (s : Snap (Host ObjectSig) World) : Prop :=
  state.isFinal = false → Counted id state s.world

theorem lasting_shown {state : UploadState} :
    Lasting t fun s => Locked t id s ∧ Shown id state s := fun s s' hs hr hh =>
  ⟨hr.locks id hs.1, fun hf => (lasting_counted s s' ⟨hs.1, hs.2 hf⟩ hr hh).2⟩

/-- A read under the lock, and what is made of the record. -/
theorem readLocked_spec {f : UploadState → HostM ObjectSig α}
    {A : α → Snap (Host ObjectSig) World → Prop}
    (hf : ∀ state, HostSpec hooks config requests t (fun s => Locked t id s ∧ Shown id state s)
      (f state) (outcomes (Locked t id) A)) :
    HostSpec hooks config requests t (Locked t id)
      (requireState id >>= fun state => prepareUploadReadAccess contract state >>= f :
        HostM ObjectSig α)
      (outcomes (Locked t id) A) := by
  refine andThen requireState_spec fun state => ?_
  refine assumeExists fun h => assumeExists fun o => assume fun hread => ?_
  obtain rfl := hread.id_eq
  exact andThen (prepareUploadReadAccess_spec frame_lock (fun p hp => unlocks_locked hp)
    (fun _ hs => hs) hread) hf

theorem head_spec :
    HostSpec hooks config requests t (fun _ => True)
      (Protocol.head ⟨config, digests, contract⟩ texts id)
      (outcomes (fun _ => True) fun r => Released t id fun s => ∃ state,
        r = headResponse ⟨config, digests, contract⟩ texts state ∧ Shown id state s) := by
  refine andThen checkExists_spec fun _ => withLock_spec ?_ (readLocked_spec fun state => ?_)
  · rintro r s s' ⟨hl, state, hr, hshown⟩ hrely hh
    obtain ⟨hl', hshown'⟩ := lasting_shown s s' ⟨hl, hshown⟩ hrely hh
    exact ⟨hl', state, hr, hshown'⟩
  · exact pure_spec fun s hs => ⟨hs.1, state, rfl, hs.2⟩

/-- A body of which nothing is kept but the lock. -/
theorem withLock_plain {body : HostM ObjectSig α}
    (hbody : HostSpec hooks config requests t (Locked t id) body
      (outcomes (Locked t id) fun _ => Locked t id)) :
    HostSpec hooks config requests t (fun _ => True) (withLock id body)
      (outcomes (fun _ => True) fun _ _ => True) := by
  refine (withLock_spec (A := fun _ _ => True) ?_ (hbody.weaken (fun _ h => h) ?_)).weaken
    (fun _ h => h) ?_
  · exact fun _ s s' hs hr _ => ⟨hr.locks id hs.1, trivial⟩
  · rintro (e | a) s hs
    · exact hs
    · exact ⟨hs, trivial⟩
  · rintro (e | a) s _
    · trivial
    · trivial

theorem stream_step {h : StorageHandle} :
    HostSpec hooks config requests t (Locked t id) (contract.stream h)
      (outcomes (Locked t id) fun _ => Locked t id) := by
  refine query (o := .storage (.stream h)) (fun _ => True) lasting_locked
    (fun _ => trivial) ?_ fun r _ => Spec.done fun s hs => ?_
  · intro s a w' _ _ he
    cases he <;> exact ⟨rfl, trivial⟩
  · match r with
    | .error e => exact hs
    | .ok bytes => exact hs

theorem download_spec :
    HostSpec hooks config requests t (fun _ => True)
      (Protocol.download ⟨config, digests, contract⟩ id)
      (outcomes (fun _ => True) fun _ _ => True) := by
  refine Spec.ite (fun _ => throw_spec fun _ _ => trivial) fun _ => ?_
  refine andThen checkExists_spec fun _ => withLock_plain ?_
  refine andThen requireState_spec fun state => ?_
  refine assumeExists fun h => assumeExists fun o => assume fun hread => ?_
  obtain rfl := hread.id_eq
  have hlast : Lasting t (Locked t state.id) := lasting_locked
  refine andThen (A := fun _ => Locked t state.id) ?_ fun cur => ?_
  · refine andThen (prepareUploadReadAccess_spec frame_lock (fun p hp => unlocks_locked hp)
      (fun _ hs => hs) hread) fun cur => ?_
    exact Spec.ite (fun _ => throw_spec fun s hs => hs.1) fun _ => pure_spec fun s hs => hs.1
  · refine Spec.ite (fun _ => pure_spec fun _ hs => hs) fun _ => ?_
    refine andThen (A := fun _ => Locked t state.id) (lift_spec (fun _ hs => hs) fun _ _ _ hs => hs)
      fun handle => ?_
    exact andThen stream_step fun bytes => pure_spec fun _ hs => hs

theorem terminated_spec (hreq : ∀ before, requests t ≠ some (.reclaim before)) :
    HostSpec hooks config requests t (fun _ => True)
      (Protocol.delete ⟨config, digests, contract⟩ id)
      (outcomes (fun _ => True) fun _ _ => True) := by
  refine Spec.ite (fun _ => throw_spec fun _ _ => trivial) fun _ => ?_
  refine andThen checkExists_spec fun _ => withLock_plain ?_
  refine andThen requireState_spec fun state => ?_
  refine assumeExists fun h => assumeExists fun o => assume fun hread => ?_
  obtain rfl := hread.id_eq
  refine Spec.weaken (P := Holding (Locked t state.id) t state.id (some state) h o) ?_
    (fun s hs => ⟨hs.1.1, hs.2⟩) fun _ _ h => h
  refine andThen (ensureActive_live (lasting_holding frame_lock) (fun s hs => hs.1)
    fun s hs => hs.1) fun _ => ?_
  have hframe : Frame t state.id fun s => Locked t state.id s ∧ Live t s.world state.id state :=
    frame_lock.and frame_live
  refine andThen ((terminate_spec hframe hreq hread fun s hs => hs.2).weaken
    (fun s hs => ⟨⟨hs.1.1, hs.2⟩, hs.1.2⟩) ?_) fun _ => pure_spec fun s hs => hs
  rintro (e | a) s hs
  · exact hs.1
  · exact hs.1

/-! ### Creation -/

theorem frame_hiding {id' : String} : Frame t id' fun s => s.world.hidden id = some t :=
  frame_hidden

theorem lasting_hidden : Lasting t fun s => s.world.hidden id = some t :=
  fun _ _ hs hr _ => hr.hidden id hs

theorem unlocks_hidden {p : String} : Unlocks t p fun s => s.world.hidden id = some t :=
  fun _ hs _ => hs

theorem respond_spec {response : Response} :
    HostSpec hooks config requests t (fun s => s.world.hidden id = some t) (respond id response)
      (outcomes (fun _ => True) fun _ _ => True) :=
  perform (o := .respond id) (fun _ _ => True) lasting_hidden (fun _ _ hs => hs)
    (fun _ _ _ _ _ _ _ => trivial) fun _ => Spec.done fun _ _ => trivial

/-- The response to a creation lets clients name the upload. -/
theorem created_spec {p : HostM ObjectSig α} {f : α → HostM ObjectSig Response}
    (named : α → UploadState)
    (hp : HostSpec hooks config requests t (Fresh (fun s => s.world.hidden id = some t) t id) p
      (outcomes (fun s => s.world.hidden id = some t) fun r s =>
        s.world.hidden id = some t ∧ (named r).id = id))
    (hf : ∀ a, ∃ response, f a = respond (named a).id response) :
    HostSpec hooks config requests t (Fresh (fun _ => True) t id) (p >>= f : HostM ObjectSig Response)
      (outcomes (fun _ => True) fun _ _ => True) := by
  refine andThen (A := fun r s => s.world.hidden id = some t ∧ (named r).id = id)
    (hp.weaken (fun s hs => ⟨hs.2.1, hs.2⟩) ?_) fun a => assume fun hid => ?_
  · rintro (e | a) s hs
    · trivial
    · exact hs
  · obtain ⟨response, hresponse⟩ := hf a
    rw [hresponse, hid]
    exact respond_spec

theorem createAnswered_spec {headers : Headers} {body : RequestBody} {hasBody : Bool}
    (hreq : requests t = some (.post headers body)) :
    HostSpec hooks config requests t (fun _ => True)
      (do
        match ← prepareCreation config headers hasBody with
        | .finalUpload state partUrls =>
          let (state, status, responseHeaders) ←
            createFinalUpload ⟨config, digests, contract⟩ state partUrls
          let offset := if status.allComplete then some state.offset else none
          respond state.id (createdResponse (O := ObjectSig) ⟨config, digests, contract⟩ texts state
            offset state.length responseHeaders)
        | .upload state =>
          if hasBody then do
            let (state, responseHeaders) ←
              receiveCreationWithUpload ⟨config, digests, contract⟩ headers state body
            respond state.id (createdResponse (O := ObjectSig) ⟨config, digests, contract⟩ texts state
              (some state.offset) none responseHeaders)
          else do
            let (state, responseHeaders) ← createUpload ⟨config, digests, contract⟩ state
            respond state.id (createdResponse (O := ObjectSig) ⟨config, digests, contract⟩ texts state
              none none responseHeaders) :
        HostM ObjectSig Response)
      (outcomes (fun _ => True) fun _ _ => True) := by
  have hreq' : ∀ before, requests t ≠ some (.reclaim before) := by
    intro before h
    rw [hreq] at h
    cases h
  refine andThen (prepareCreation_spec fun _ => frame_true) fun a => ?_
  refine assumeExists fun id => assume fun hborn => ?_
  cases hborn with
  | upload hn =>
    refine Spec.ite (fun _ => ?_) fun _ => ?_
    · exact created_spec Prod.fst
        (receiveCreationWithUpload_spec frame_hiding hreq hn fun _ hs => hs) fun _ => ⟨_, rfl⟩
    · exact created_spec Prod.fst (createUpload_spec frame_hiding hreq' hn fun _ hs => hs)
        fun _ => ⟨_, rfl⟩
  | finalUpload hid hp hl hc =>
    exact created_spec Prod.fst (createFinalUpload_spec frame_hiding (fun _ _ => unlocks_hidden) hreq'
      (fun _ hs => hs) hid hp hl) fun _ => ⟨_, rfl⟩

theorem post_spec {headers : Headers} {body : RequestBody}
    (hreq : requests t = some (.post headers body)) :
    HostSpec hooks config requests t (fun _ => True)
      (Protocol.post ⟨config, digests, contract⟩ texts headers body)
      (outcomes (fun _ => True) fun _ _ => True) := by
  refine Spec.ite (fun _ => ?_) fun _ => createAnswered_spec hreq
  exact andThen (A := fun _ _ => True) (lift_spec (fun _ _ => trivial) fun _ _ _ _ => trivial)
    fun _ => createAnswered_spec hreq

/-! ### Reclamation -/

theorem reclaimExpiredUpload_spec {before : Nat} (hreq : requests t = some (.reclaim before)) :
    HostSpec hooks config requests t (fun _ => True) (reclaimExpiredUpload contract id)
      fun _ _ => True := by
  refine perform (o := .tryLock id) (fun (r : Except Error Bool) s => r = .ok true → Locked t id s)
    (fun _ _ _ _ _ => trivial) (fun _ _ _ => trivial) ?_ fun r => ?_
  · intro s a w' _ _ he _
    cases he with
    | tryLock _ _ => exact fun _ => Function.update_self _ _ _
    | tryLockBusy => exact fun h => nomatch h
    | tryLockFailed => exact fun h => nomatch h
  · match r with
    | .error e => exact Spec.done fun _ _ => trivial
    | .ok false => exact Spec.done fun _ _ => trivial
    | .ok true =>
      refine Spec.weaken (P := Locked t id) ?_ (fun s hs => hs rfl) fun _ _ h => h
      refine Spec.bind _ (reclaimLocked_spec frame_lock hreq fun _ hs => hs) fun outcome => ?_
      exact perform (o := .unlock id) (fun _ _ => True) lasting_locked
        (fun _ _ hs => hs) (fun _ _ _ _ _ _ _ => trivial) fun _ => Spec.done fun _ _ => trivial

theorem reclaimAll_spec {before : Nat} (hreq : requests t = some (.reclaim before))
    (ids : List String) :
    HostSpec hooks config requests t (fun _ => True) (reclaimAll contract ids) fun _ _ => True := by
  induction ids with
  | nil => exact Spec.done fun _ _ => trivial
  | cons id ids ih =>
    refine Spec.bind _ (reclaimExpiredUpload_spec hreq) fun outcome => ?_
    exact Spec.bind _ ih fun outcomes => Spec.done fun _ _ => trivial

theorem reclaimExpiredUploads_spec {before : Nat} (hreq : requests t = some (.reclaim before)) :
    HostSpec hooks config requests t (fun _ => True) (reclaimExpiredUploads contract before)
      (outcomes (fun _ => True) fun _ _ => True) := by
  refine query (o := .listExpired before) (fun _ => True) (fun _ _ _ _ _ => trivial)
    (fun _ => trivial) ?_ fun r _ => ?_
  · intro s a w' _ _ he
    cases he <;> exact ⟨rfl, trivial⟩
  · match r with
    | .error e => exact Spec.done fun _ _ => trivial
    | .ok ids =>
      exact Spec.bind _ (reclaimAll_spec hreq ids) fun outcomes => Spec.done fun _ _ => trivial

/-! ## The server -/

theorem answerWith_spec {f : α → Answer} {p : HostM ObjectSig α}
    {A : α → Snap (Host ObjectSig) World → Prop} {Q : Answer → Snap (Host ObjectSig) World → Prop}
    (hp : HostSpec hooks config requests t (fun _ => True) p (outcomes (fun _ => True) A))
    (hA : ∀ a s, A a s → Q (f a) s) (hE : ∀ e s, Q (.failed e) s) :
    HostSpec hooks config requests t (fun _ => True) (answerWith f p) Q := by
  refine Spec.bind _ hp fun r => ?_
  cases r with
  | ok a => exact Spec.done (hA a)
  | error e => exact Spec.done fun s _ => hE e s

/-- Every request keeps to the guards, and answers with the record it leaves. -/
theorem serve_spec {request : Request} (hreq : requests t = some request) :
    HostSpec hooks config requests t (fun _ => True)
      (serve ⟨config, digests, contract⟩ texts request)
      (Answered hooks ⟨config, digests, contract⟩ texts t request) := by
  cases request with
  | patch headers id body =>
    exact answerWith_spec (patch_spec hreq) (fun _ _ h => h) fun _ _ => trivial
  | head id => exact answerWith_spec head_spec (fun _ _ h => h) fun _ _ => trivial
  | download id => exact answerWith_spec download_spec (fun _ _ _ => trivial) fun _ _ => trivial
  | delete id =>
    refine answerWith_spec (terminated_spec ?_) (fun _ _ _ => trivial) fun _ _ => trivial
    intro before h
    rw [hreq] at h
    cases h
  | post headers body =>
    exact answerWith_spec (post_spec hreq) (fun _ _ _ => trivial) fun _ _ => trivial
  | reclaim before =>
    exact answerWith_spec (reclaimExpiredUploads_spec hreq) (fun _ _ _ => trivial)
      fun _ _ => trivial

/-- A server with the requests it is about to serve, one thread each. -/
def start (server : Server ObjectSig) (texts : Texts) (requests : Nat → Option Request) (w : World) :
    Interaction.Config (Host ObjectSig) World Answer :=
  ⟨⟨w, []⟩, fun t => (requests t).map (serve server texts)⟩

theorem good_start {w : World} :
    Good (host hooks) (discipline hooks config requests)
      (fun t a s => ∀ request, requests t = some request →
        Answered hooks ⟨config, digests, contract⟩ texts t request a s)
      (start ⟨config, digests, contract⟩ texts requests w) := by
  refine good_of_wp fun t p hp => ?_
  obtain ⟨request, hreq, rfl⟩ := Option.map_eq_some_iff.mp hp
  refine wp_mono (serve_spec hreq _ trivial) ?_
  rintro a s hs request' hreq'
  rw [hreq] at hreq'
  cases hreq'
  exact hs

/-- What the guarded operations and the clock preserve holds in every run of the server. -/
theorem reach_served {w : World} (hw : WellFormed w) (J : Snap (Host ObjectSig) World → Prop)
    (hJ : J ⟨w, []⟩)
    (hexec : ∀ t o s a w', WellFormed s.world → J s → HostExec hooks t o s.world a w' →
      Guard config requests t o s → J (s.push t o a w'))
    (hclock : ∀ s n, WellFormed s.world → J s → s.world.clock ≤ n → J (s.drift (s.world.setClock n)))
    {c : Interaction.Config (Host ObjectSig) World Answer}
    (hr : Reach (host hooks) (start ⟨config, digests, contract⟩ texts requests w) c) : J c.snap := by
  refine reach_guarded discipline_lawful J hw good_start hJ
    (fun t o s a w' hs hj he hg => hexec t o s a w' hs hj he hg) ?_ ?_ hr
  · rintro s _ hs hj ⟨n, hn, rfl⟩
    exact hclock s n hs hj hn
  · exact fun _ _ _ _ _ hf => hf.elim

/-- Every reachable world is well formed. -/
theorem reach_wellFormed {w : World} (hw : WellFormed w)
    {c : Interaction.Config (Host ObjectSig) World Answer}
    (hr : Reach (host hooks) (start ⟨config, digests, contract⟩ texts requests w) c) :
    WellFormed c.snap.world :=
  reach_served hw (fun s => WellFormed s.world) hw
    (fun _ _ _ _ _ hs _ he hg => (exec_sound hs he hg).1) (fun _ _ _ hs hn => hs.setClock hn) hr

end System

end TusRs
