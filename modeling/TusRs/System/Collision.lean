import TusRs.System.Backends
import TusRs.System.Failures

/-!
# Creations whose id is taken

The three flows of a creation draw an id, create the storage object first and learn from the
state store that the id is in use only afterwards; then they delete the object again. The
request runs alone over one of the provided storage backends. The store of the records and the
hooks may answer anything that their contracts allow; the id that is drawn is given.

Results:

* `post_fails`: a request that draws the id of a record fails, whatever happens, and the records
  stay as they are.
* `collision_unharmed_iff`: when the stored bytes stay as they are as well. `FileStorage` names
  its files independently of the ids; the other two derive the key from the id, so that the
  request works on the objects of the other upload until its record is refused.
-/

namespace TusRs

open Interaction Protocol

namespace System

namespace Collision

/-! ## One request over a backend -/

/-- What the pre-event hooks may answer. -/
structure Hooks where
  answers : HookEvent → UploadState → Except Error PreHookResult → Prop
  total : ∀ event state, ∃ r, answers event state r

/-- The records and the stored data. -/
structure Stores (D : Type) where
  states : String → Option UploadState
  data : D

variable {D : Type}

/-- What an operation may answer and do; `id` is what `Uuid::new_v4` gives. Every operation of
the state store may fail without effect, and a lock may be held by another request. -/
inductive CollisionExec (call : Backend.Calls D) (hooks : Hooks) (id : String) :
    (o : HostOp ObjectSig) → Stores D → (Host ObjectSig).Ans o → Stores D → Prop
  | stateGet {w : Stores D} {id' : String} :
      CollisionExec call hooks id (.stateGet id') w (.ok (w.states id')) w
  | stateGetFailed {w : Stores D} {id' : String} {e : Error} :
      CollisionExec call hooks id (.stateGet id') w (.error e) w
  | stateCreate {w : Stores D} {state : UploadState} : w.states state.id = none →
      CollisionExec call hooks id (.stateSet state .createNew) w (.ok ())
        { w with states := Function.update w.states state.id (some state) }
  | stateUpdate {w : Stores D} {state : UploadState} :
      CollisionExec call hooks id (.stateSet state .update) w (.ok ())
        { w with states := Function.update w.states state.id (some state) }
  | stateSetFailed {w : Stores D} {state : UploadState} {mode : WriteMode} {e : Error} :
      CollisionExec call hooks id (.stateSet state mode) w (.error e) w
  | stateDelete {w : Stores D} {id' : String} :
      CollisionExec call hooks id (.stateDelete id') w (.ok ())
        { w with states := Function.update w.states id' none }
  | stateDeleteFailed {w : Stores D} {id' : String} {e : Error} :
      CollisionExec call hooks id (.stateDelete id') w (.error e) w
  | listExpired {w : Stores D} {before : Nat} {r : Except Error (List String)} :
      CollisionExec call hooks id (.listExpired before) w r w
  | lock {w : Stores D} {id' : String} {r : Except Error Unit} :
      CollisionExec call hooks id (.lock id') w r w
  | tryLock {w : Stores D} {id' : String} {r : Except Error Bool} :
      CollisionExec call hooks id (.tryLock id') w r w
  | unlock {w : Stores D} {id' : String} : CollisionExec call hooks id (.unlock id') w () w
  | hookPre {w : Stores D} {event : HookEvent} {state : UploadState}
      {r : Except Error PreHookResult} : hooks.answers event state r →
      CollisionExec call hooks id (.hookPre event state) w r w
  | hookPost {w : Stores D} {event : HookEvent} {state : UploadState} :
      CollisionExec call hooks id (.hookPost event state) w () w
  | now {w : Stores D} {n : Nat} : CollisionExec call hooks id .now w n w
  | newId {w : Stores D} : CollisionExec call hooks id .newId w id w
  | respond {w : Stores D} {id' : String} : CollisionExec call hooks id (.respond id') w () w
  | storage {w : Stores D} {o : ObjectOp} {r : ObjectSig.Ans o} {data : D} :
      call o w.data r data →
      CollisionExec call hooks id (.storage o) w r { w with data := data }

def machine (call : Backend.Calls D) (hooks : Hooks) (id : String) :
    Machine (Host ObjectSig) (Stores D) where
  exec _ := CollisionExec call hooks id
  env _ _ := False
  halt _ _ _ := False

/-- A creation request. -/
structure Creation where
  config : Config
  digests : Digests
  texts : Texts
  headers : Headers
  body : RequestBody

/-- What the handler does with it; the backend is one that the machine performs. -/
def Creation.program (c : Creation) : HostM ObjectSig Response :=
  post ⟨c.config, c.digests, contract⟩ c.texts c.headers c.body

def IsStorage (o : HostOp ObjectSig) : Prop := ∃ call, o = .storage call

/-! ## Before the storage is reached -/

variable {call : Backend.Calls D} {hooks : Hooks} {id : String} {w : Stores D} {α β : Type}

/-- Nothing has changed, and the storage has not been called. -/
def Before (w : Stores D) (s : Snap (Host ObjectSig) (Stores D)) : Prop :=
  s.world = w ∧ ∀ ev ∈ s.hist, ¬IsStorage ev.op

/-- Operations that leave the records and the stored data alone. -/
def Reads : HostOp ObjectSig → Prop
  | .stateSet _ _ | .stateDelete _ | .storage _ => False
  | _ => True

theorem eq_of_reads {o : HostOp ObjectSig} {w w' : Stores D} {a : (Host ObjectSig).Ans o}
    (ho : Reads o) (he : CollisionExec call hooks id o w a w') : w' = w := by
  cases he with
  | stateCreate _ | stateUpdate | stateSetFailed | stateDelete | stateDeleteFailed | storage _ =>
    exact ho.elim
  | stateGet | stateGetFailed | listExpired | lock | tryLock | unlock | hookPre _ | hookPost
  | now | newId | respond => rfl

theorem Before.push {s : Snap (Host ObjectSig) (Stores D)} {t : Nat} {o : HostOp ObjectSig}
    {a : (Host ObjectSig).Ans o} {w' : Stores D} (h : Before w s) (ho : Reads o)
    (he : CollisionExec call hooks id o s.world a w') : Before w (s.push t o a w') := by
  refine ⟨(eq_of_reads ho he).trans h.1, List.forall_mem_cons.2 ⟨?_, h.2⟩⟩
  rintro ⟨call, rfl⟩
  exact ho

abbrev SpecC (call : Backend.Calls D) (hooks : Hooks) (id : String) (P : Snap (Host ObjectSig) (Stores D) → Prop)
    (p : Prog (Host ObjectSig) α) (Q : α → Snap (Host ObjectSig) (Stores D) → Prop) : Prop :=
  Spec (machine call hooks id) (.lone (machine call hooks id)) 0 P p Q

theorem undrifted (P : Snap (Host ObjectSig) (Stores D) → Prop) :
    Undrifted (machine call hooks id) P := fun _ _ _ he => he.elim

/-- A part of the request that comes before the storage; its value is in `A`. -/
abbrev Prelude (call : Backend.Calls D) (hooks : Hooks) (id : String) (w : Stores D) (p : HostM ObjectSig α)
    (A : α → Prop) : Prop :=
  SpecC call hooks id (Before w) p fun r s => Before w s ∧ ∀ a, r = .ok a → A a

theorem prelude_of {p : HostM ObjectSig α} {A : α → Prop}
    (hops : Prog.Ops Reads (p : Prog (Host ObjectSig) (Except Error α)))
    (hret : Attempt.Returns A p) : Prelude call hooks id w p A :=
  (Spec.ops (undrifted _) (fun _ _ _ _ ho hs he => hs.push ho he) hops).yields hret

/-! ### The parts of the request before the storage -/

theorem run_prelude (gate : PreHookGate) (state : UploadState) :
    Prelude call hooks id w (gate.run state) fun r => r.1.id = state.id := by
  have hid : ∀ result, (gate.outcome state result).1.id = state.id := by
    intro result
    unfold PreHookGate.outcome
    split
    · split <;> rfl
    · rfl
  refine prelude_of ⟨trivial, fun (r : Except Error PreHookResult) => ?_⟩
    fun (r : Except Error PreHookResult) => ?_
  · cases r with
    | error e => trivial
    | ok result => exact Prog.Ops.ite trivial trivial
  · cases r with
    | error e => exact Attempt.Returns.error e
    | ok result => exact Attempt.Returns.ite (fun _ => .pure (hid result)) fun _ => .error _

theorem prelude_bind {p : HostM ObjectSig α} {f : α → HostM ObjectSig β} {A : α → Prop}
    {B : β → Prop} (hp : Prelude call hooks id w p A)
    (hf : ∀ a, A a → Prelude call hooks id w (f a) B) :
    Prelude call hooks id w (p >>= f) B :=
  Spec.andThen _ hp (fun a s hs => hf a (hs.2 a rfl) s hs.1) fun _ _ hs => ⟨hs.1, nofun⟩

theorem prelude_lift {x : Except Error α} {A : α → Prop} (h : ∀ a, x = .ok a → A a) :
    Prelude call hooks id w (Attempt.lift x) A :=
  Spec.done fun _ hs => ⟨hs, h⟩

theorem prelude_pure {a : α} {A : α → Prop} (h : A a) :
    Prelude call hooks id w (pure a) A :=
  Spec.done fun _ hs => ⟨hs, fun _ ha => Except.ok.inj ha ▸ h⟩

theorem finishGate_prelude (state : UploadState) :
    Prelude call hooks id w (finishGate state) fun _ => True :=
  prelude_bind (run_prelude .finish state) fun _ _ => prelude_pure trivial

theorem prepareReceiveBody_prelude (server : Server ObjectSig) (headers : Headers)
    (state : UploadState) (body : RequestBody) (kind : ReceiveBodyKind) :
    Prelude call hooks id w (prepareReceiveBody server headers state body kind)
      fun r => r.1.id = state.id :=
  prelude_bind (run_prelude .receive state) fun _ hid =>
    prelude_bind (prelude_lift (A := fun _ => True) fun _ _ => trivial) fun _ _ => prelude_pure hid

theorem loadPart_ops (config : Config) (url : String) :
    Prog.Ops Reads (loadPart config url : Prog (Host ObjectSig) (Except Error UploadState)) := by
  unfold loadPart
  split
  · trivial
  · refine ⟨trivial, fun (r : Except Error (Option UploadState)) => ?_⟩
    rcases r with e | (_ | part)
    · trivial
    · trivial
    · refine Prog.Ops.ite trivial (Prog.Ops.ite trivial ⟨trivial, fun (now : Nat) => ?_⟩)
      exact Prog.Ops.ite trivial trivial

theorem loadParts_ops (config : Config) (urls : List String) :
    Prog.Ops Reads (loadParts config urls : Prog (Host ObjectSig) (Except Error (List UploadState))) := by
  induction urls with
  | nil => trivial
  | cons url urls ih =>
    refine Prog.Ops.bind (loadPart_ops config url) fun r => ?_
    cases r with
    | error e => trivial
    | ok part =>
      refine Prog.Ops.bind ih fun r => ?_
      cases r <;> trivial

theorem summarizeFrom_ops (summary : PartsSummary) (parts : List UploadState) :
    Prog.Ops Reads (summarizeFrom summary parts :
      Prog (Host ObjectSig) (Except Error FinalUploadStatus)) := by
  induction parts generalizing summary with
  | nil => trivial
  | cons part parts ih =>
    refine ⟨trivial, fun (now : Nat) => ?_⟩
    show Prog.Ops Reads (if part.expiresBefore now then Prog.done (.error (.expired part.id))
      else summarizeFrom (summary.add part) parts)
    exact Prog.Ops.ite trivial (ih (summary.add part))

theorem loadFinalUploadPlan_prelude (config : Config) (urls : List String) :
    Prelude call hooks id w (loadFinalUploadPlan config urls) fun _ => True := by
  refine prelude_bind (prelude_of (loadParts_ops config urls) (.trivial _)) fun parts _ => ?_
  exact prelude_bind (prelude_of (summarizeFrom_ops _ parts) (.trivial _))
    fun _ _ => prelude_pure trivial

/-! ## From the storage on -/

/-- The parts of a final upload were put together in its object. -/
inductive IsJoin : Event (Host ObjectSig) (Stores D) → Prop
  | intro {t : Nat} {target handle : StorageHandle} {sources : List StorageHandle} {w : Stores D} :
      IsJoin ⟨t, .storage (.concat target sources), .ok handle, w⟩

/-- An object is to be deleted. -/
def IsDeletion (ev : Event (Host ObjectSig) (Stores D)) : Prop := ∃ t, ev.op = .storage (.delete t)

theorem not_join {t : Nat} {o : HostOp ObjectSig} {a : (Host ObjectSig).Ans o} {w : Stores D}
    (h : ∀ target sources, o ≠ .storage (.concat target sources)) : ¬IsJoin ⟨t, o, a, w⟩ := by
  intro hjoin
  cases hjoin
  exact h _ _ rfl

variable {T J : StorageHandle → D → Prop} {E F : D → Prop}

/-- The object of the new upload is there, and the records are as they were. -/
structure Taken (w : Stores D) (T : StorageHandle → D → Prop) (t : StorageHandle)
    (s : Snap (Host ObjectSig) (Stores D)) : Prop where
  states : s.world.states = w.states
  data : T t s.world.data
  fresh : ∀ ev ∈ s.hist, ¬IsJoin ev ∧ ¬IsDeletion ev

/-- As `Taken`, after the parts were put together in the object. -/
structure Whole (w : Stores D) (J : StorageHandle → D → Prop) (t : StorageHandle)
    (s : Snap (Host ObjectSig) (Stores D)) : Prop where
  states : s.world.states = w.states
  data : J t s.world.data
  joined : First [] IsDeletion IsJoin s

/-- The new upload has its object. -/
def Placed (w : Stores D) (T J : StorageHandle → D → Prop) (t : StorageHandle)
    (s : Snap (Host ObjectSig) (Stores D)) : Prop := Taken w T t s ∨ Whole w J t s

/-- The records are as they were, and the storage was not called or has come to an end. -/
def Ended (w : Stores D) (E F : D → Prop) (s : Snap (Host ObjectSig) (Stores D)) : Prop :=
  s.world.states = w.states ∧
    (Before w s ∨ (E s.world.data ∧ ∀ ev ∈ s.hist, ¬IsJoin ev) ∨
      (F s.world.data ∧ First [] IsDeletion IsJoin s))

theorem Placed.states {t : StorageHandle} {s : Snap (Host ObjectSig) (Stores D)}
    (h : Placed w T J t s) : s.world.states = w.states := h.elim Taken.states Whole.states

/-- The state store does not come near the object. -/
theorem Placed.push {t : StorageHandle} {s : Snap (Host ObjectSig) (Stores D)} {u : Nat}
    {o : HostOp ObjectSig} {a : (Host ObjectSig).Ans o} (h : Placed w T J t s) (ho : ¬IsStorage o) :
    Placed w T J t (s.push u o a s.world) := by
  refine h.imp (fun h => ⟨h.states, h.data, List.forall_mem_cons.2 ⟨⟨?_, ?_⟩, h.fresh⟩⟩)
    fun h => ⟨h.states, h.data, h.joined.push⟩
  · exact not_join fun target sources he => ho ⟨_, he⟩
  · rintro ⟨_, he⟩
    exact ho ⟨_, he⟩

theorem Before.ended {s : Snap (Host ObjectSig) (Stores D)} (h : Before w s) : Ended w E F s :=
  ⟨congrArg Stores.states h.1, .inl h⟩

theorem Ended.push {s : Snap (Host ObjectSig) (Stores D)} {t : Nat} {o : HostOp ObjectSig}
    {a : (Host ObjectSig).Ans o} {w' : Stores D} (h : Ended w E F s) (ho : Reads o)
    (he : CollisionExec call hooks id o s.world a w') : Ended w E F (s.push t o a w') := by
  obtain rfl : w' = s.world := eq_of_reads ho he
  refine ⟨h.1, h.2.imp (fun hb => hb.push ho he) (Or.imp (fun hE => ⟨hE.1, ?_⟩)
    fun hF => ⟨hF.1, hF.2.push⟩)⟩
  refine List.forall_mem_cons.2 ⟨not_join ?_, hE.2⟩
  rintro target sources rfl
  exact ho

/-- The program ends with an error. -/
abbrev Fails (call : Backend.Calls D) (hooks : Hooks) (id : String) (w : Stores D) (E F : D → Prop)
    (P : Snap (Host ObjectSig) (Stores D) → Prop) (p : HostM ObjectSig α) : Prop :=
  SpecC call hooks id P p fun r s => (∃ e, r = .error e) ∧ Ended w E F s

theorem fails_bind {p : HostM ObjectSig α} {f : α → HostM ObjectSig β} {A : α → Prop}
    (hp : Prelude call hooks id w p A)
    (hf : ∀ a, A a → Fails call hooks id w E F (Before w) (f a)) :
    Fails call hooks id w E F (Before w) (p >>= f) :=
  Spec.andThen _ hp (fun a s hs => hf a (hs.2 a rfl) s hs.1) fun e _ hs => ⟨⟨e, rfl⟩, hs.1.ended⟩

/-- Nothing follows a failure. -/
theorem fails_then {P : Snap (Host ObjectSig) (Stores D) → Prop} {p : HostM ObjectSig α}
    {f : α → HostM ObjectSig β} (hp : Fails call hooks id w E F P p) :
    Fails call hooks id w E F P (p >>= f) :=
  Spec.andThen _ hp (fun _ _ hs => nomatch hs.1) fun e _ hs => ⟨⟨e, rfl⟩, hs.2⟩

/-- The first call of the storage. -/
theorem fails_create (hpass : Backend.Passage call id w.data T J E F)
    {f : StorageHandle → HostM ObjectSig α}
    (hf : ∀ t, Fails call hooks id w E F (Taken w T t) (f t)) :
    Fails call hooks id w E F (Before w) (contract.create id >>= f) := by
  refine Spec.andThen (fun (r : Except Error StorageHandle) s =>
    (∀ t, r = .ok t → Taken w T t s) ∧ ∀ e, r = .error e → Ended w E F s) ?_
    (fun t s hs => hf t s (hs.1 t rfl)) fun e _ hs => ⟨⟨e, rfl⟩, hs.2 e rfl⟩
  refine Spec.alone (fun (r : Except Error StorageHandle) s =>
    (∀ t, r = .ok t → Taken w T t s) ∧ ∀ e, r = .error e → Ended w E F s) (undrifted _) ?_
    fun r => Spec.done fun _ hs => hs
  rintro s a w' ⟨hw, hno⟩ he
  have hfresh : ∀ ev ∈ s.hist, ¬IsJoin ev ∧ ¬IsDeletion ev := by
    refine fun ev hev => ⟨not_join fun _ _ h => hno ev hev ⟨_, h⟩, ?_⟩
    rintro ⟨t, ht⟩
    exact hno ev hev ⟨_, ht⟩
  cases he with
  | storage hcall =>
    rw [hw] at hcall ⊢
    refine ⟨?_, ?_⟩
    · rintro t rfl
      refine ⟨rfl, hpass.created t _ hcall, ?_⟩
      exact List.forall_mem_cons.2 ⟨⟨not_join nofun, nofun⟩, hfresh⟩
    · rintro e rfl
      refine ⟨rfl, .inr (.inl ⟨hpass.refused e _ hcall, ?_⟩)⟩
      exact List.forall_mem_cons.2 ⟨not_join nofun, fun ev hev => (hfresh ev hev).1⟩

/-- The record of the new upload is refused: the id has one. -/
theorem refused_spec {state : UploadState} {t : StorageHandle} (hid : state.id = id)
    (hw : w.states id ≠ none) :
    SpecC call hooks id (Placed w T J t)
      (Attempt.outcome (setState state .createNew) : HostM ObjectSig (Except Error Unit))
      fun r s => (∃ e, r = .ok (.error e)) ∧ Placed w T J t s := by
  refine Spec.alone (fun (r : Except Error Unit) s => (∃ e, r = .error e) ∧ Placed w T J t s)
    (undrifted _) ?_ fun r => Spec.done ?_
  · intro s a w' hs he
    cases he with
    | stateCreate hnone =>
      rw [hs.states, hid] at hnone
      exact absurd hnone hw
    | @stateSetFailed _ _ _ e => exact ⟨⟨e, rfl⟩, hs.push nofun⟩
  · rintro s ⟨⟨e, rfl⟩, hs⟩
    exact ⟨⟨e, rfl⟩, hs⟩

/-- The object is deleted again, as far as this succeeds. -/
theorem rollback_fails (hpass : Backend.Passage call id w.data T J E F) {state : UploadState}
    {t : StorageHandle} (ht : state.handle = some t) (e : Error) :
    Fails call hooks id w E F (Placed w T J t)
      (failAfter (rollbackStorage contract state) e : HostM ObjectSig α) := by
  have hdelete : SpecC call hooks id (Placed w T J t) (rollbackStorage contract state)
      fun r s => r = .ok () ∧ Ended w E F s := by
    unfold rollbackStorage
    rw [ht]
    refine Spec.alone (fun (_ : Except Error Unit) s => Ended w E F s) (undrifted _) ?_
      fun r => Spec.done fun _ hs => ⟨rfl, hs⟩
    intro s a w' hs he
    cases he with
    | storage hcall =>
      refine ⟨hs.states, .inr (hs.imp (fun hs => ?_) fun hs => ?_)⟩
      · refine ⟨hpass.deleted t _ _ _ hs.data hcall, List.forall_mem_cons.2 ⟨not_join nofun, ?_⟩⟩
        exact fun ev hev => (hs.fresh ev hev).1
      · exact ⟨hpass.removed t _ _ _ hs.data hcall, hs.joined.push⟩
  refine Spec.andThen _ hdelete (fun _ => Spec.done fun _ hs => ⟨⟨e, rfl⟩, hs.2⟩) ?_
  exact fun _ _ hs => nomatch hs.1

theorem unlockAll_ops (held : List String) :
    Prog.Ops Reads (unlockAll held : Prog (Host ObjectSig) Unit) := by
  induction held with
  | nil => trivial
  | cons id ids ih => exact ⟨trivial, fun _ => ih⟩

/-- Locks that are given back. -/
theorem release_spec {P : Snap (Host ObjectSig) (Stores D) → Prop}
    (hP : ∀ s, P s → Ended w E F s) (held : List String) {r : Except Error α}
    (hr : ∃ e, r = .error e) :
    SpecC call hooks id P (Prog.bind (unlockAll held) fun _ => .done r)
      fun r s => (∃ e, r = .error e) ∧ Ended w E F s := by
  refine Spec.bind (fun _ => Ended w E F) ?_ fun _ => Spec.done fun _ hs => ⟨hr, hs⟩
  exact (Spec.ops (undrifted _) (fun _ _ _ _ ho hs he => hs.push ho he)
    (unlockAll_ops held)).weaken hP fun _ _ hs => hs

theorem lockPartsThen_fails {body : HostM ObjectSig α}
    (hbody : Fails call hooks id w E F (Before w) body) (held ids : List String) :
    Fails call hooks id w E F (Before w) (lockPartsThen body held ids) := by
  induction ids generalizing held with
  | nil =>
    refine Spec.bind _ hbody fun r s hs => ?_
    exact release_spec (fun _ h => h) held hs.1 s hs.2
  | cons lockId ids ih =>
    refine Spec.alone (fun (_ : Except Error Bool) => Before w) (undrifted _)
      (fun s a w' hs he => hs.push trivial he) fun (r : Except Error Bool) => ?_
    rcases r with e | (_ | _)
    · exact release_spec (fun _ hs => hs.ended) held ⟨e, rfl⟩
    · exact release_spec (fun _ hs => hs.ended) held ⟨_, rfl⟩
    · exact ih (lockId :: held)

/-! ## The three flows -/

section Flows

variable (hpass : Backend.Passage call id w.data T J E F) (hw : w.states id ≠ none)
include hpass hw

/-- The record is refused, and the object deleted. -/
theorem record_fails {state : UploadState} {t : StorageHandle} (hid : state.id = id)
    (ht : state.handle = some t) (f : Unit → HostM ObjectSig α) :
    Fails call hooks id w E F (Placed w T J t) (do
      match ← (Attempt.outcome (setState state .createNew) : HostM ObjectSig (Except Error Unit)) with
      | .error e => failAfter (rollbackStorage contract state) e
      | .ok u => f u) := by
  refine Spec.andThen _ (refused_spec hid hw) (fun r => ?_) fun _ _ hs => nomatch hs.1
  cases r with
  | error e => exact fun s hs => rollback_fails hpass ht e s hs.2
  | ok u =>
    rintro s ⟨⟨_, he⟩, -⟩
    cases he

theorem createUpload_fails {config : Config} {digests : Digests} {state : UploadState}
    (hid : state.id = id) :
    Fails call hooks id w E F (Before w) (createUpload ⟨config, digests, contract⟩ state) := by
  refine fails_bind (run_prelude .create state) fun r hr => ?_
  obtain ⟨state', responseHeaders⟩ := r
  have hid' : state'.id = id := hr.trans hid
  show Fails call hooks id w E F (Before w) (contract.create state'.id >>= _)
  rw [hid']
  refine fails_create hpass fun t s hs => ?_
  have hid'' : (state'.setStorageHandle t).id = id := hid'
  exact record_fails hpass hw hid'' rfl _ s (.inl hs)

theorem receiveCreationWithUpload_fails {config : Config} {digests : Digests} (headers : Headers)
    {state : UploadState} (hid : state.id = id) (body : RequestBody) :
    Fails call hooks id w E F (Before w)
      (receiveCreationWithUpload ⟨config, digests, contract⟩ headers state body) := by
  refine fails_bind (run_prelude .create state) fun r hr => ?_
  obtain ⟨state', createHeaders⟩ := r
  refine fails_bind (prepareReceiveBody_prelude _ headers state' body .creationWithUpload)
    fun r hr' => ?_
  obtain ⟨state'', prepared⟩ := r
  have hid' : state''.id = id := hr'.trans (hr.trans hid)
  show Fails call hooks id w E F (Before w) (contract.create state''.id >>= _)
  rw [hid']
  refine fails_create hpass fun t s hs => ?_
  have hid'' : (state''.setStorageHandle t).id = id := hid'
  exact record_fails hpass hw hid'' rfl _ s (.inl hs)

omit hw in
/-- The parts are put together in the new object; its handle may change. -/
theorem materialize_spec {state : UploadState} {t : StorageHandle} (ht : state.handle = some t)
    (parts : List UploadState) :
    SpecC call hooks id (Taken w T t) (materializeFinalUpload contract state parts) fun r s =>
      (∀ e, r = .error e → Taken w T t s) ∧ ∀ state', r = .ok state' → state'.id = state.id ∧
        ∃ t', state'.handle = some t' ∧ Whole w J t' s := by
  unfold materializeFinalUpload UploadState.requireStorageHandle
  rw [ht]
  refine Spec.andThen (fun r s => Taken w T t s ∧ r = .ok t) (Spec.done fun _ hs => ⟨hs, rfl⟩)
    (fun target => Spec.assume fun htarget => ?_) fun _ _ hs => nomatch hs.2
  obtain rfl := Except.ok.inj htarget
  refine Spec.andThen (fun _ => Taken w T target) (Spec.done fun _ hs => hs) (fun sources => ?_)
    fun _ _ hs => ⟨fun _ _ => hs, nofun⟩
  refine Spec.andThen (fun (r : Except Error StorageHandle) s =>
    (∀ e, r = .error e → Taken w T target s) ∧ ∀ t', r = .ok t' → Whole w J t' s) ?_
    (fun t' => Spec.done fun _ hs => ⟨nofun, fun state' he => ?_⟩)
    fun e _ hs => ⟨fun _ _ => hs.1 e rfl, nofun⟩
  · refine Spec.alone (fun (r : Except Error StorageHandle) s =>
      (∀ e, r = .error e → Taken w T target s) ∧ ∀ t', r = .ok t' → Whole w J t' s)
      (undrifted _) ?_ fun r => Spec.done fun _ hs => hs
    intro s a w' hs he
    cases he with
    | storage hcall =>
      refine ⟨?_, ?_⟩
      · rintro e rfl
        refine ⟨hs.states, hpass.cut target sources _ e _ hs.data hcall, ?_⟩
        exact List.forall_mem_cons.2 ⟨⟨nofun, nofun⟩, hs.fresh⟩
      · rintro t' rfl
        exact ⟨hs.states, hpass.joined target sources _ t' _ hs.data hcall,
          .now (fun ev hev => (hs.fresh ev hev).2) .intro⟩
  · obtain rfl := Except.ok.inj he
    exact ⟨rfl, t', rfl, hs.2 t' rfl⟩

/-- A final upload from its object on. -/
theorem object_fails {state : UploadState} {t : StorageHandle} (hid : state.id = id)
    (ht : state.handle = some t) (status : FinalUploadStatus) (parts : List UploadState)
    (f : UploadState → Unit → HostM ObjectSig α) :
    Fails call hooks id w E F (Taken w T t) (do
      let materialized ←
        if status.readyToMaterialize then
          (Attempt.outcome (materializeFinalUpload contract state parts) :
            HostM ObjectSig (Except Error UploadState))
        else pure (.ok state)
      match materialized with
      | .error e => failAfter (rollbackStorage contract state) e
      | .ok state' =>
        match ← (Attempt.outcome (setState state' .createNew) : HostM ObjectSig (Except Error Unit)) with
        | .error e => failAfter (rollbackStorage contract state') e
        | .ok u => f state' u) := by
  refine Spec.ite (fun _ => ?_) fun _ s hs => record_fails hpass hw hid ht (f state) s (.inl hs)
  refine Spec.andThen (fun r s => ∃ result, r = .ok result ∧
    (∀ e, result = .error e → Taken w T t s) ∧ ∀ state', result = .ok state' →
      state'.id = state.id ∧ ∃ t', state'.handle = some t' ∧ Whole w J t' s) ?_
    (fun result => ?_) ?_
  · refine Spec.bind _ (materialize_spec hpass ht parts) fun result => ?_
    exact Spec.done fun _ hs => ⟨result, rfl, hs⟩
  · cases result with
    | error e =>
      rintro s ⟨_, he, hs⟩
      obtain rfl := Except.ok.inj he
      exact rollback_fails hpass ht e s (.inl (hs.1 e rfl))
    | ok state' =>
      rintro s ⟨_, he, hs⟩
      obtain rfl := Except.ok.inj he
      obtain ⟨hid', t', ht', hs⟩ := hs.2 state' rfl
      exact record_fails hpass hw (hid'.trans hid) ht' (f state') s (.inr hs)
  · rintro e s ⟨_, he, -⟩
    cases he

theorem createPlanned_fails {config : Config} {digests : Digests} {state : UploadState}
    (hid : state.id = id) (plan : FinalUploadPlan) :
    Fails call hooks id w E F (Before w) (createPlanned ⟨config, digests, contract⟩ state plan) := by
  refine fails_bind (prelude_lift (A := fun _ => True) fun _ _ => trivial) fun _ _ => ?_
  refine fails_bind (run_prelude .create _) fun r hr => ?_
  obtain ⟨state', responseHeaders⟩ := r
  have hid' : state'.id = id := by
    rw [show state'.id = _ from hr, cap_id, applyFinalUploadPlan_id, hid]
  have hcreate : Fails call hooks id w E F (Before w) (contract.create state'.id >>= fun handle => do
      let state := state'.setStorageHandle handle
      let materialized ←
        if plan.status.readyToMaterialize then
          Attempt.outcome (materializeFinalUpload contract state plan.parts)
        else pure (.ok state)
      match materialized with
      | .error e => failAfter (rollbackStorage contract state) e
      | .ok state =>
        match ← Attempt.outcome (setState state .createNew) with
        | .error e => failAfter (rollbackStorage contract state) e
        | .ok _ =>
          runPostEvent .postCreate state
          if plan.status.allComplete then afterCommit state else pure ()
          pure (state, plan.status, responseHeaders) : HostM ObjectSig _) := by
    rw [hid']
    refine fails_create hpass fun t => ?_
    have hid'' : (state'.setStorageHandle t).id = id := hid'
    exact object_fails hpass hw hid'' rfl _ _ _
  exact Spec.ite (fun _ => fails_bind (finishGate_prelude state') fun _ _ => hcreate) fun _ => hcreate

theorem createFinalUpload_fails {config : Config} {digests : Digests} {state : UploadState}
    (hid : state.id = id) (partUrls : List String) :
    Fails call hooks id w E F (Before w)
      (createFinalUpload ⟨config, digests, contract⟩ state partUrls) := by
  refine fails_bind (loadFinalUploadPlan_prelude config partUrls) fun plan _ => ?_
  refine Spec.ite (fun _ => ?_) fun _ => createPlanned_fails hpass hw hid plan
  refine lockPartsThen_fails ?_ _ _
  exact fails_bind (loadFinalUploadPlan_prelude config partUrls) fun plan _ =>
    createPlanned_fails hpass hw hid plan

omit hpass hw in
/-- The new upload has the id that is drawn. -/
theorem prepareCreation_prelude (config : Config) (headers : Headers) (hasBody : Bool) :
    Prelude call hooks id w (prepareCreation config headers hasBody)
      fun r => (CreationTransition.state r).id = id := by
  refine prelude_bind (prelude_lift (A := fun _ => True) fun _ _ => trivial) fun _ _ => ?_
  refine Spec.alone (fun (drawn : String) s => Before w s ∧ drawn = id) (undrifted _) ?_
    fun (drawn : String) => Spec.assume fun hdrawn => ?_
  · intro s a w' hs he
    refine ⟨hs.push trivial he, ?_⟩
    cases he
    rfl
  · subst hdrawn
    have hstate : ∀ (state : UploadState), state.id = drawn →
        (CreationTransition.state (transition headers state)).id = drawn :=
      fun state h => (transition_id headers state).trans h
    refine Spec.alone (fun (_ : Nat) => Before w) (undrifted _)
      (fun s a w' hs he => hs.push trivial he) fun (createdAt : Nat) => ?_
    cases config.expiration with
    | none => exact prelude_pure (hstate _ (initialState_id headers _))
    | some expiration =>
      refine Spec.alone (fun (_ : Nat) => Before w) (undrifted _)
        (fun s a w' hs he => hs.push trivial he) fun (now : Nat) => ?_
      exact prelude_pure (hstate _ (initialState_id headers _))

/-- The flow that the headers choose, whatever is made of its result. -/
theorem flow_fails (c : Creation)
    (final : UploadState × FinalUploadStatus × List (String × String) → HostM ObjectSig Response)
    (received created : UploadState × List (String × String) → HostM ObjectSig Response) :
    Fails call hooks id w E F (Before w)
      (prepareCreation c.config c.headers c.body.isSupplied >>= fun
        | .finalUpload state partUrls =>
          createFinalUpload ⟨c.config, c.digests, contract⟩ state partUrls >>= final
        | .upload state =>
          if c.body.isSupplied then
            receiveCreationWithUpload ⟨c.config, c.digests, contract⟩ c.headers state c.body >>=
              received
          else createUpload ⟨c.config, c.digests, contract⟩ state >>= created) := by
  refine fails_bind (prepareCreation_prelude c.config c.headers _) fun r hr => ?_
  cases r with
  | finalUpload state partUrls =>
    exact fails_then (createFinalUpload_fails hpass hw hr partUrls)
  | upload state =>
    refine Spec.ite (fun _ => ?_) fun _ => ?_
    · exact fails_then (receiveCreationWithUpload_fails hpass hw c.headers hr c.body)
    · exact fails_then (createUpload_fails hpass hw hr)

/-- Every creation that draws the id of a record fails. -/
theorem post_fails (c : Creation) : Fails call hooks id w E F (Before w) c.program :=
  Spec.ite
    (fun _ => fails_bind (A := fun _ => True) (prelude_lift fun _ _ => trivial) fun _ _ =>
      flow_fails hpass hw c _ _ _)
    fun _ => flow_fails hpass hw c _ _ _

end Flows

/-! ## When the upload is unharmed -/

/-- A request that touches the storage. -/
theorem untouched (c : Creation) {r : Except Error Response} {s : Snap (Host ObjectSig) (Stores D)}
    (hrun : Lone (machine call hooks id) 0 c.program ⟨w, []⟩ r s)
    (hno : ¬Since [] (fun ev => IsStorage ev.op) s) : s.world.data = w.data := by
  have hspec : SpecC call hooks id (fun s => s.world.data = w.data ∨
      Since [] (fun ev => IsStorage ev.op) s) c.program fun _ s =>
      s.world.data = w.data ∨ Since [] (fun ev => IsStorage ev.op) s := by
    refine Spec.ops (A := fun _ => True) (undrifted _) ?_ (Prog.ops_trivial _ fun _ => trivial)
    intro s o a w' _ hs he
    by_cases ho : IsStorage o
    · exact .inr (.now (List.nil_suffix) ho)
    · refine hs.imp (fun hs => ?_) Since.push
      refine Eq.trans ?_ hs
      cases he with
      | storage _ => exact absurd ⟨_, rfl⟩ ho
      | _ => rfl
  exact (hspec.lone (.inl rfl) hrun).resolve_right hno

/-- Where the hooks and the storage always answer, every operation can be performed. -/
theorem machine_enabled (hcall : ∀ o d, ∃ r d', call o d r d') (o : HostOp ObjectSig)
    (w : Stores D) : ∃ a w', (machine call hooks id).exec 0 o w a w' := by
  cases o with
  | stateGet id' => exact ⟨_, _, .stateGet⟩
  | stateSet state mode => exact ⟨_, _, .stateSetFailed (e := .internal "")⟩
  | stateDelete id' => exact ⟨_, _, .stateDelete⟩
  | listExpired before => exact ⟨_, _, .listExpired (r := .ok [])⟩
  | lock id' => exact ⟨_, _, .lock (r := .ok ())⟩
  | tryLock id' => exact ⟨_, _, .tryLock (r := .ok true)⟩
  | unlock id' => exact ⟨_, _, .unlock⟩
  | hookPre event state =>
    obtain ⟨r, hr⟩ := hooks.total event state
    exact ⟨_, _, .hookPre hr⟩
  | hookPost event state => exact ⟨_, _, .hookPost⟩
  | now => exact ⟨_, _, .now (n := 0)⟩
  | newId => exact ⟨_, _, .newId⟩
  | respond id' => exact ⟨_, _, .respond⟩
  | storage o =>
    obtain ⟨r, d', hd⟩ := hcall o w.data
    exact ⟨_, _, .storage hd⟩

/-- A storage that can do as much in a call. -/
theorem machine_mono {call' : Backend.Calls D} {t : Nat} {o : HostOp ObjectSig} {w w' : Stores D}
    {a : (Host ObjectSig).Ans o}
    (h : ∀ o' r d', o = .storage o' → call o' w.data r d' → call' o' w.data r d')
    (he : (machine call hooks id).exec t o w a w') : (machine call' hooks id).exec t o w a w' := by
  cases he with
  | stateGet => exact .stateGet
  | stateGetFailed => exact .stateGetFailed
  | stateCreate hnone => exact .stateCreate hnone
  | stateUpdate => exact .stateUpdate
  | stateSetFailed => exact .stateSetFailed
  | stateDelete => exact .stateDelete
  | stateDeleteFailed => exact .stateDeleteFailed
  | listExpired => exact .listExpired
  | lock => exact .lock
  | tryLock => exact .tryLock
  | unlock => exact .unlock
  | hookPre hr => exact .hookPre hr
  | hookPost => exact .hookPost
  | now => exact .now
  | newId => exact .newId
  | respond => exact .respond
  | storage hd => exact .storage (h _ _ _ rfl hd)

/-- Some run of the request comes to an event in `A`. -/
def Reaches (call : Backend.Calls D) (hooks : Hooks) (id : String) (c : Creation) (w : Stores D)
    (A : Event (Host ObjectSig) (Stores D) → Prop) : Prop :=
  ∃ r s, Lone (machine call hooks id) 0 c.program ⟨w, []⟩ r s ∧ Since [] A s

section Backends

variable {faults : Prop} {used : String → Prop} {b : Backend} {h : StorageHandle}

/-- An upload: its record, with the handle of its object. -/
structure Existing (used : String → Prop) (b : Backend) (w : Stores b.Data) (id : String)
    (h : StorageHandle) : Prop where
  record : ∃ state, w.states id = some state ∧ state.handle = some h
  handed : b.Handed used id h

/-- The request fails, and the record and the bytes of the upload are as they were. -/
structure Unharmed (b : Backend) (id key : String) (w : Stores b.Data) (r : Except Error Response)
    (w' : Stores b.Data) : Prop where
  refused : ∃ e, r = .error e
  record : w'.states id = w.states id
  bytes : b.SameBytes w.data w'.data key

/-- The request can damage the upload: the backend derives its key from the id, and either there
are bytes and the request gets as far as the storage, or the storage is one that may fail to
delete what the request has put together there. -/
def Endangered (faults : Prop) (used : String → Prop) (b : Backend) (hooks : Hooks) (id key : String)
    (c : Creation) (w : Stores b.Data) : Prop :=
  match b with
  | .file => False
  | .memory => Backend.memory.HasBytes w.data key ∧
      Reaches (Backend.memory.Call faults used) hooks id c w fun ev => IsStorage ev.op
  | .opendal op pre => (Backend.opendal op pre).HasBytes w.data key ∧
      Reaches ((Backend.opendal op pre).Call faults used) hooks id c w (fun ev => IsStorage ev.op) ∨
    faults ∧ Reaches ((Backend.opendal op pre).Call faults used) hooks id c w IsJoin

/-! ### What a run shows -/

theorem not_since_of_before {w : Stores D} {s : Snap (Host ObjectSig) (Stores D)} (hs : Before w s) :
    ¬Since [] (fun ev => IsStorage ev.op) s := by
  rintro ⟨ev, rest, -, hev, ho⟩
  exact hs.2 ev (hev.subset List.mem_cons_self) ho

theorem join_of_since {s : Snap (Host ObjectSig) (Stores D)} (hs : Since [] IsJoin s) :
    ∃ ev ∈ s.hist, IsJoin ev := by
  obtain ⟨ev, rest, -, hev, hjoin⟩ := hs
  exact ⟨ev, hev.subset List.mem_cons_self, hjoin⟩

theorem storage_of_join {ev : Event (Host ObjectSig) (Stores D)} (h : IsJoin ev) :
    IsStorage ev.op := by
  cases h
  exact ⟨_, rfl⟩

/-- A request that has put the parts together has ended after that. -/
theorem Ended.joined {w : Stores D} {s : Snap (Host ObjectSig) (Stores D)} (h : Ended w E F s)
    (hs : Since [] IsJoin s) : F s.world.data ∧ First [] IsDeletion IsJoin s := by
  obtain ⟨ev, hev, hjoin⟩ := join_of_since hs
  rcases h.2 with hbefore | ⟨-, hno⟩ | hF
  · exact absurd (storage_of_join hjoin) (hbefore.2 ev hev)
  · exact absurd hjoin (hno ev hev)
  · exact hF

/-- Without failures the object is deleted, and what was stored with it. -/
theorem overwritten {w : Stores b.Data} {key : String} (hb : b ≠ .file)
    (hpass : Backend.Passage (b.Call False used) id w.data (fun t _ => t.key = key)
      (fun t _ => t.key = key) (fun d => ¬b.HasBytes d key) fun d => ¬b.HasBytes d key)
    (hw : w.states id ≠ none) {c : Creation}
    (hreach : Reaches (b.Call faults used) hooks id c w fun ev => IsStorage ev.op) :
    ∃ r s, Lone (machine (b.Call faults used) hooks id) 0 c.program ⟨w, []⟩ r s ∧
      ¬b.HasBytes s.world.data key := by
  obtain ⟨_, _, hrun, hstorage⟩ := hreach
  have henabled : ∀ o w, ∃ a w', (machine (b.Call False used) hooks id).exec 0 o w a w' :=
    machine_enabled (Backend.call_enabled hb)
  have hsame : ∀ o w a w', ¬IsStorage o → (machine (b.Call faults used) hooks id).exec 0 o w a w' →
      (machine (b.Call False used) hooks id).exec 0 o w a w' :=
    fun o w a w' ho he => machine_mono (fun o' _ _ heq _ => absurd ⟨o', heq⟩ ho) he
  have hless : ∀ o w a w', (machine (b.Call False used) hooks id).exec 0 o w a w' →
      (machine (b.Call faults used) hooks id).exec 0 o w a w' :=
    fun o w a w' he => machine_mono (fun _ _ _ _ hcall => Backend.Call.mono hcall) he
  have hfollow : ∀ o w (a : (Host ObjectSig).Ans o) w', IsStorage o →
      (machine (b.Call faults used) hooks id).exec 0 o w a w' →
      ∃ a' w'', (machine (b.Call False used) hooks id).exec 0 o w a' w'' ∧ IsStorage o :=
    fun o w _ _ ho _ => (henabled o w).imp fun _ ⟨w'', he⟩ => ⟨w'', he, ho⟩
  obtain ⟨r, s, hrun', hstorage'⟩ := Lone.detour (M := machine (b.Call faults used) hooks id)
    (E := fun ev => IsStorage ev.op) (F := fun ev => IsStorage ev.op) hsame hfollow
    (fun _ _ he => he) henabled hrun hstorage.first
  refine ⟨r, s, hrun'.mono hless fun _ _ he => he, ?_⟩
  obtain ⟨-, -, hended⟩ := (post_fails hpass hw c).lone ⟨rfl, List.forall_mem_nil _⟩ hrun'
  rcases hended with hbefore | ⟨hgone, -⟩ | ⟨hgone, -⟩
  · exact absurd hstorage' (not_since_of_before hbefore)
  · exact hgone
  · exact hgone

/-- What was put together stays when the store refuses to delete it. -/
theorem left_behind {op : Opendal.Operator} {pre : String} {w : Stores Opendal.Uploads}
    {key : String} (hf : faults) (hkey : (Backend.opendal op pre).KeyFor used id key)
    (hw : w.states id ≠ none) {c : Creation}
    (hreach : Reaches ((Backend.opendal op pre).Call faults used) hooks id c w IsJoin) :
    ∃ r s, Lone (machine ((Backend.opendal op pre).Call faults used) hooks id) 0 c.program
      ⟨w, []⟩ r s ∧ Opendal.HasBytes (s.world.data key) := by
  obtain ⟨_, _, hrun, hjoin⟩ := hreach
  obtain ⟨-, hended⟩ := (post_fails (Backend.anyway _ id w.data) hw c).lone
    ⟨rfl, List.forall_mem_nil _⟩ hrun
  have hsame : ∀ o w (a : (Host ObjectSig).Ans o) w', ¬(∃ t, o = .storage (.delete t)) →
      (machine ((Backend.opendal op pre).Call faults used) hooks id).exec 0 o w a w' →
      (machine (Backend.Undeleting ((Backend.opendal op pre).Call faults used)) hooks id).exec 0 o w
        a w' := by
    refine fun o w a w' ho he => machine_mono (fun o' _ _ heq hcall => ⟨hcall, ?_⟩) he
    rintro ⟨t, rfl⟩
    exact absurd ⟨t, heq⟩ ho
  have hfollow : ∀ o w (a : (Host ObjectSig).Ans o) w', IsJoin ⟨0, o, a, w⟩ →
      (machine ((Backend.opendal op pre).Call faults used) hooks id).exec 0 o w a w' →
      ∃ a' w'', (machine (Backend.Undeleting ((Backend.opendal op pre).Call faults used)) hooks
        id).exec 0 o w a' w'' ∧ IsJoin ⟨0, o, a', w⟩ := by
    refine fun o w a w' ho he => ⟨a, w', hsame o w a w' ?_ he, ho⟩
    rintro ⟨t, rfl⟩
    cases ho
  have hless : ∀ o w a w',
      (machine (Backend.Undeleting ((Backend.opendal op pre).Call faults used)) hooks id).exec 0 o w
        a w' → (machine ((Backend.opendal op pre).Call faults used) hooks id).exec 0 o w a w' :=
    fun o w a w' he => machine_mono (fun _ _ _ _ hcall => hcall.1) he
  obtain ⟨r, s, hrun', hjoin'⟩ := hrun.detour hsame hfollow (fun _ _ he => he)
    (machine_enabled (Backend.undeleting_enabled hf)) (hended.joined hjoin).2
  refine ⟨r, s, hrun'.mono hless fun _ _ he => he, ?_⟩
  obtain ⟨-, hended'⟩ := (post_fails (Backend.opendal_left hkey) hw c).lone
    ⟨rfl, List.forall_mem_nil _⟩ hrun'
  exact (hended'.joined hjoin').1

/-- A colliding id leaves an existing upload unharmed in every run of the request just when the
request cannot damage it. -/
theorem collision_unharmed_iff {w : Stores b.Data} (hup : Existing used b w id h) (c : Creation) :
    (∀ r s, Lone (machine (b.Call faults used) hooks id) 0 c.program ⟨w, []⟩ r s →
      Unharmed b id h.key w r s.world) ↔ ¬Endangered faults used b hooks id h.key c w := by
  obtain ⟨state, hstate, -⟩ := hup.record
  have hw : w.states id ≠ none := hstate ▸ nofun
  have hkey : b.KeyFor used id h.key := hup.handed.key
  have hunharmed : ∀ r s, Lone (machine (b.Call faults used) hooks id) 0 c.program ⟨w, []⟩ r s →
      b.SameBytes w.data s.world.data h.key → Unharmed b id h.key w r s.world := by
    intro r s hrun hsame
    obtain ⟨herror, hended⟩ := (post_fails (Backend.anyway _ id w.data) hw c).lone
      ⟨rfl, List.forall_mem_nil _⟩ hrun
    exact ⟨herror, congrFun hended.1 id, hsame⟩
  constructor
  · intro hall hdanger
    cases b with
    | file => exact hdanger
    | memory =>
      obtain ⟨hbytes, hreach⟩ := hdanger
      obtain ⟨r, s, hrun, hgone⟩ := overwritten (b := .memory) nofun (Backend.memory_wipes hkey) hw hreach
      exact hgone ((hall r s hrun).bytes.hasBytes.2 hbytes)
    | opendal op pre =>
      by_cases hbytes : (Backend.opendal op pre).HasBytes w.data h.key
      · have hreach : Reaches ((Backend.opendal op pre).Call faults used) hooks id c w
            fun ev => IsStorage ev.op := by
          rcases hdanger with ⟨-, hreach⟩ | ⟨-, r, s, hrun, hjoin⟩
          · exact hreach
          · exact ⟨r, s, hrun, hjoin.mono fun _ => storage_of_join⟩
        obtain ⟨r, s, hrun, hgone⟩ := overwritten (b := .opendal op pre) nofun
          (Backend.opendal_wipes hkey) hw hreach
        exact hgone ((hall r s hrun).bytes.hasBytes.2 hbytes)
      · obtain ⟨hf, hreach⟩ := hdanger.resolve_left fun hd => hbytes hd.1
        obtain ⟨r, s, hrun, hleft⟩ := left_behind hf hkey hw hreach
        exact hbytes ((hall r s hrun).bytes.hasBytes.1 (Backend.opendal_hasBytes.2 hleft))
  · intro hsafe r s hrun
    refine hunharmed r s hrun ?_
    have hended : ∀ {T J : StorageHandle → b.Data → Prop} {E F : b.Data → Prop},
        Backend.Passage (b.Call faults used) id w.data T J E F → Ended w E F s :=
      fun hpass => ((post_fails hpass hw c).lone ⟨rfl, List.forall_mem_nil _⟩ hrun).2
    have hbefore : Before w s → b.SameBytes w.data s.world.data h.key :=
      fun hs => hs.1 ▸ .refl _ _
    have huntouched : ¬Reaches (b.Call faults used) hooks id c w (fun ev => IsStorage ev.op) →
        b.SameBytes w.data s.world.data h.key := fun hno => by
      rw [untouched c hrun fun hs => hno ⟨r, s, hrun, hs⟩]
      exact .refl _ _
    cases b with
    | file =>
      rcases (hended (Backend.file_spares hkey)).2 with hs | ⟨hkept, -⟩ | ⟨hkept, -⟩
      · exact hbefore hs
      · exact Backend.file_same hkept
      · exact Backend.file_same hkept
    | memory =>
      by_cases hbytes : Backend.memory.HasBytes w.data h.key
      · exact huntouched fun hreach => hsafe ⟨hbytes, hreach⟩
      · rcases (hended (Backend.memory_wipes hkey)).2 with hs | ⟨hgone, -⟩ | ⟨hgone, -⟩
        · exact hbefore hs
        · exact .of_empty hbytes hgone
        · exact .of_empty hbytes hgone
    | opendal op pre =>
      by_cases hbytes : (Backend.opendal op pre).HasBytes w.data h.key
      · exact huntouched fun hreach => hsafe (.inl ⟨hbytes, hreach⟩)
      · by_cases hf : faults
        · have hnone := fun he => hbytes (Backend.opendal_hasBytes.2 he)
          rcases (hended (Backend.opendal_empty hnone)).2 with hs | ⟨hgone, -⟩ | ⟨-, hjoin⟩
          · exact hbefore hs
          · exact .of_empty hbytes fun he => hgone (Backend.opendal_hasBytes.1 he)
          · exact absurd (.inr ⟨hf, r, s, hrun, hjoin.since⟩) hsafe
        · obtain rfl := eq_false hf
          rcases (hended (Backend.opendal_wipes hkey)).2 with hs | ⟨hgone, -⟩ | ⟨hgone, -⟩
          · exact hbefore hs
          · exact .of_empty hbytes hgone
          · exact .of_empty hbytes hgone

/-! ### Two uploads -/

/-- No hooks. -/
def unhooked : Hooks where
  answers _ _ r := r = .ok ⟨true, none, none, none, []⟩
  total _ _ := ⟨_, rfl⟩

/-- A creation of no bytes, without a body. -/
def plainCreation : Creation where
  config := .default
  digests := ⟨fun _ bytes => bytes, fun _ => ""⟩
  texts := ⟨fun _ => "", fun _ => ""⟩
  headers := zeroLength
  body := .absent

/-- The record of an upload of one byte with this object. -/
def recordOf (handle : StorageHandle) : UploadState where
  id := "a"
  offset := 1
  length := some 1
  handle := some handle
  createdAt := 0
  expiresAt := none
  isPartial := false
  isFinal := false
  parts := none
  metadata := []

/-- The upload `"a"` with its record and the byte `7` under the key of its object. -/
def oneUpload (handle : StorageHandle) : Stores (String → Option Bytes) where
  states := Function.update (fun _ => none) "a" (some (recordOf handle))
  data := Function.update (fun _ => none) handle.key (some [7])

theorem oneUpload_record (handle : StorageHandle) :
    (oneUpload handle).states "a" = some (recordOf handle) := by simp [oneUpload]

theorem oneUpload_bytes (handle : StorageHandle) :
    (oneUpload handle).data handle.key = some [7] := by simp [oneUpload]

def fileHandle : StorageHandle := ⟨FileStorage.newKey 0, []⟩

theorem file_upload_exists :
    Existing (fun name => name = fileHandle.key) .file (oneUpload fileHandle) "a" fileHandle := by
  refine ⟨⟨_, oneUpload_record _, rfl⟩, ?_⟩
  have hcreate : (FileStorage.create ⟨none, none⟩ 0 fun _ => none).2 = .ok fileHandle := by
    decide +kernel
  have hcall : Backend.file.Call False (fun _ => False) (.create "a") (fun _ => none)
      (FileStorage.create ⟨none, none⟩ 0 fun _ => none).2
      (FileStorage.create ⟨none, none⟩ 0 fun _ => none).1 := .create nofun
  rw [hcreate] at hcall
  exact .created hcall rfl

theorem file_upload_kept :
    Existing (fun name => name = fileHandle.key) .file (oneUpload fileHandle) "a" fileHandle ∧
      ∀ r s, Lone (machine (Backend.file.Call True fun name => name = fileHandle.key) unhooked "a") 0
        plainCreation.program ⟨oneUpload fileHandle, []⟩ r s →
        Unharmed .file "a" fileHandle.key (oneUpload fileHandle) r s.world :=
  ⟨file_upload_exists, (collision_unharmed_iff file_upload_exists plainCreation).2 id⟩

def memoryHandle : StorageHandle := (MemoryStorage.create (fun _ => none) "a").2

/-- A plain creation that draws the id of an upload in memory takes its bytes away. -/
theorem memory_upload_lost :
    Existing (fun _ => True) .memory (oneUpload memoryHandle) "a" memoryHandle ∧
      ¬∀ r s, Lone (machine (Backend.memory.Call False fun _ => True) unhooked "a") 0
        plainCreation.program ⟨oneUpload memoryHandle, []⟩ r s →
        Unharmed .memory "a" memoryHandle.key (oneUpload memoryHandle) r s.world := by
  have hcreate : Backend.memory.Call False (fun _ => True) (.create "a") (fun _ => none)
      (.ok memoryHandle) (MemoryStorage.create (fun _ => none) "a").1 := .create
  refine ⟨⟨⟨_, oneUpload_record _, rfl⟩, .created hcreate trivial⟩,
    fun hall => ?_⟩
  have hrun : ∃ r s, Lone (machine (Backend.memory.Call False fun _ => True) unhooked "a") 0
      plainCreation.program ⟨oneUpload memoryHandle, []⟩ r s ∧
      s.world.data = MemoryStorage.delete
        (MemoryStorage.create (oneUpload memoryHandle).data "a").1 memoryHandle :=
    ⟨_, _, .step .refl .newId <| .step .refl (.now (n := 0)) <| .step .refl (.hookPre rfl) <|
      .step .refl (.storage .create) <|
      .step .refl (.stateSetFailed (e := .alreadyExists "a")) <|
      .step .refl (.storage .delete) <| .done _ _, rfl⟩
  obtain ⟨r, s, hrun, hdata⟩ := hrun
  have hgone : s.world.data memoryHandle.key = none := hdata ▸ Function.update_self ..
  have hheld : Backend.memory.HasBytes (oneUpload memoryHandle).data memoryHandle.key :=
    ⟨.main, [7], rfl, oneUpload_bytes _⟩
  exact Backend.memory_empty hgone ((hall r s hrun).bytes.hasBytes.2 hheld)

end Backends

end Collision

end System

end TusRs
