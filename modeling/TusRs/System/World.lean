import TusRs.Interaction.Discipline
import TusRs.Protocol.Handlers
import TusRs.Protocol.Plan

/-!
# The server and its stores

The machine the handlers run on when state store, locker and storage keep their contracts.
Every operation of a storage backend is one step: `append` adds exactly the body after the
existing content or fails without effect, `concat` replaces the target by the sources in
order or fails without effect; a missing object is empty content to both. Every operation of a store may fail without effect at any
time. A lock is given to one thread at a time.

An id from `newId` is known to nobody else until the response that names it has left, which
`hidden` records: no operation of another thread names it before. The clock never goes back.
-/

namespace TusRs

open Interaction

open Protocol

namespace System

/-- The methods of `Storage` and `StorageReader` as operations. -/
inductive ObjectOp where
  | create (id : String)
  | append (handle : StorageHandle) (expectedOffset : Nat) (data : ChunkStream)
      (completesUpload : Bool)
  | concat (target : StorageHandle) (sources : List StorageHandle)
  | delete (handle : StorageHandle)
  | size (handle : StorageHandle)
  | stream (handle : StorageHandle)

def ObjectSig : Sig where
  Op := ObjectOp
  Ans
    | .create _ => Except Error StorageHandle
    | .append _ _ _ _ => Except Error StorageHandle
    | .concat _ _ => Except Error StorageHandle
    | .delete _ => Except Error Unit
    | .size _ => Except Error (Option Nat)
    | .stream _ => Except Error Bytes

/-- A backend known by its contract. -/
def contract : Storage ObjectSig where
  create id := Prog.step (.storage (.create id)) .done
  append handle offset data completes :=
    Prog.step (.storage (.append handle offset data completes)) .done
  concat target sources := Prog.step (.storage (.concat target sources)) .done
  delete handle := Prog.step (.storage (.delete handle)) .done
  size handle := Prog.step (.storage (.size handle)) .done
  stream handle := Prog.step (.storage (.stream handle)) .done

/-- The stores, the locks and the clock. No handler sees the last four: `since` is the time
at which a lock was last taken, `owner` the upload a storage key was created for, `issued`
the ids given out so far, and `hidden` the thread whose response has not left for an id. -/
structure World where
  states : String → Option UploadState
  objects : String → Option Bytes
  locks : String → Option Nat
  clock : Nat
  since : String → Nat
  owner : String → Option String
  issued : String → Prop
  hidden : String → Option Nat

namespace World

def setState (w : World) (state : UploadState) : World :=
  { w with states := Function.update w.states state.id (some state) }

def dropState (w : World) (id : String) : World :=
  { w with states := Function.update w.states id none }

def lockBy (w : World) (id : String) (t : Nat) : World :=
  { w with
    locks := Function.update w.locks id (some t)
    since := Function.update w.since id w.clock }

def unlock (w : World) (id : String) : World :=
  { w with locks := Function.update w.locks id none }

def issue (w : World) (id : String) (t : Nat) : World :=
  { w with
    issued := fun id' => id' = id ∨ w.issued id'
    hidden := Function.update w.hidden id (some t) }

def reveal (w : World) (id : String) : World :=
  { w with hidden := Function.update w.hidden id none }

/-- A new object for the upload `id`. -/
def createObject (w : World) (id key : String) : World :=
  { w with
    objects := Function.update w.objects key (some [])
    owner := Function.update w.owner key (some id) }

def put (w : World) (key : String) (bytes : Bytes) : World :=
  { w with objects := Function.update w.objects key (some bytes) }

def erase (w : World) (key : String) : World :=
  { w with objects := Function.update w.objects key none }

def setClock (w : World) (n : Nat) : World := { w with clock := n }

section Fields

variable (w : World) (state : UploadState) (id key : String) (bytes : Bytes)

@[simp] theorem setState_states :
    (w.setState state).states = Function.update w.states state.id (some state) := rfl

@[simp] theorem setState_objects : (w.setState state).objects = w.objects := rfl

@[simp] theorem dropState_states :
    (w.dropState id).states = Function.update w.states id none := rfl

@[simp] theorem put_objects :
    (w.put key bytes).objects = Function.update w.objects key (some bytes) := rfl

@[simp] theorem put_states : (w.put key bytes).states = w.states := rfl

@[simp] theorem erase_objects :
    (w.erase key).objects = Function.update w.objects key none := rfl

@[simp] theorem createObject_objects :
    (w.createObject id key).objects = Function.update w.objects key (some []) := rfl

@[simp] theorem createObject_owner :
    (w.createObject id key).owner = Function.update w.owner key (some id) := rfl

@[simp] theorem createObject_states : (w.createObject id key).states = w.states := rfl

end Fields

end World

/-- What an operation of thread `t` may answer and do; `hooks` are the answers the
pre-event hooks may give. The candidates of a reclamation are any ids. -/
inductive HostExec (hooks : HookEvent → UploadState → Except Error PreHookResult → Prop)
    (t : Nat) : (o : HostOp ObjectSig) → World → (Host ObjectSig).Ans o → World → Prop
  | stateGet {w : World} {id : String} : w.hidden id = none →
      HostExec hooks t (.stateGet id) w (.ok (w.states id)) w
  | stateGetFailed {w : World} {id : String} {e : Error} :
      HostExec hooks t (.stateGet id) w (.error e) w
  | stateCreate {w : World} {state : UploadState} : w.states state.id = none →
      HostExec hooks t (.stateSet state .createNew) w (.ok ()) (w.setState state)
  | stateUpdate {w : World} {state : UploadState} :
      HostExec hooks t (.stateSet state .update) w (.ok ()) (w.setState state)
  | stateSetFailed {w : World} {state : UploadState} {mode : WriteMode} {e : Error} :
      HostExec hooks t (.stateSet state mode) w (.error e) w
  | stateDelete {w : World} {id : String} :
      HostExec hooks t (.stateDelete id) w (.ok ()) (w.dropState id)
  | stateDeleteFailed {w : World} {id : String} {e : Error} :
      HostExec hooks t (.stateDelete id) w (.error e) w
  | listExpired {w : World} {before : Nat} {ids : List String} :
      HostExec hooks t (.listExpired before) w (.ok ids) w
  | listExpiredFailed {w : World} {before : Nat} {e : Error} :
      HostExec hooks t (.listExpired before) w (.error e) w
  | lock {w : World} {id : String} : w.hidden id = none → w.locks id = none →
      HostExec hooks t (.lock id) w (.ok ()) (w.lockBy id t)
  | lockFailed {w : World} {id : String} {e : Error} :
      HostExec hooks t (.lock id) w (.error e) w
  | tryLock {w : World} {id : String} : w.hidden id = none → w.locks id = none →
      HostExec hooks t (.tryLock id) w (.ok true) (w.lockBy id t)
  | tryLockBusy {w : World} {id : String} : HostExec hooks t (.tryLock id) w (.ok false) w
  | tryLockFailed {w : World} {id : String} {e : Error} :
      HostExec hooks t (.tryLock id) w (.error e) w
  | unlock {w : World} {id : String} : HostExec hooks t (.unlock id) w () (w.unlock id)
  | hookPre {w : World} {event : HookEvent} {state : UploadState}
      {r : Except Error PreHookResult} : hooks event state r →
      HostExec hooks t (.hookPre event state) w r w
  | hookPost {w : World} {event : HookEvent} {state : UploadState} :
      HostExec hooks t (.hookPost event state) w () w
  | now {w : World} : HostExec hooks t .now w w.clock w
  | newId {w : World} {id : String} : ¬w.issued id → w.locks id = none →
      HostExec hooks t .newId w id (w.issue id t)
  | respond {w : World} {id : String} : HostExec hooks t (.respond id) w () (w.reveal id)
  | create {w : World} {id key : String} {internal : List (String × String)} :
      w.owner key = none →
      HostExec hooks t (.storage (.create id)) w (.ok ⟨key, internal⟩) (w.createObject id key)
  | createFailed {w : World} {id : String} {e : Error} :
      HostExec hooks t (.storage (.create id)) w (.error e) w
  | append {w : World} {h : StorageHandle} {data : ChunkStream} {completes : Bool}
      {old bytes : Bytes} {internal : List (String × String)} :
      (w.objects h.key).getD [] = old → data.collect = some bytes →
      old.length + bytes.length ≤ u64Max →
      HostExec hooks t (.storage (.append h old.length data completes)) w (.ok ⟨h.key, internal⟩)
        (w.put h.key (old ++ bytes))
  | appendFailed {w : World} {h : StorageHandle} {offset : Nat} {data : ChunkStream}
      {completes : Bool} {e : Error} :
      HostExec hooks t (.storage (.append h offset data completes)) w (.error e) w
  | concat {w : World} {target : StorageHandle} {sources : List StorageHandle}
      {contents : List Bytes} {internal : List (String × String)} :
      List.Forall₂ (fun (h : StorageHandle) b => w.objects h.key = some b) sources contents →
      contents.flatten.length ≤ u64Max →
      HostExec hooks t (.storage (.concat target sources)) w (.ok ⟨target.key, internal⟩)
        (w.put target.key contents.flatten)
  | concatFailed {w : World} {target : StorageHandle} {sources : List StorageHandle}
      {e : Error} : HostExec hooks t (.storage (.concat target sources)) w (.error e) w
  | delete {w : World} {h : StorageHandle} :
      HostExec hooks t (.storage (.delete h)) w (.ok ()) (w.erase h.key)
  | deleteFailed {w : World} {h : StorageHandle} {e : Error} :
      HostExec hooks t (.storage (.delete h)) w (.error e) w
  | size {w : World} {h : StorageHandle} :
      HostExec hooks t (.storage (.size h)) w (.ok ((w.objects h.key).map List.length)) w
  | sizeFailed {w : World} {h : StorageHandle} {e : Error} :
      HostExec hooks t (.storage (.size h)) w (.error e) w
  | stream {w : World} {h : StorageHandle} {bytes : Bytes} : w.objects h.key = some bytes →
      HostExec hooks t (.storage (.stream h)) w (.ok bytes) w
  | streamFailed {w : World} {h : StorageHandle} {e : Error} :
      HostExec hooks t (.storage (.stream h)) w (.error e) w

/-- The server and its stores as a machine; the clock moves by itself. -/
def host (hooks : HookEvent → UploadState → Except Error PreHookResult → Prop) :
    Machine (Host ObjectSig) World where
  exec := HostExec hooks
  env w w' := ∃ n, w.clock ≤ n ∧ w' = w.setClock n
  halt _ _ _ := False

/-- What happened and the present: the worlds of a run at its operations. -/
def moments (s : Snap (Host ObjectSig) World) : List World :=
  s.world :: s.hist.map Event.before

/-- The bytes stored for an upload; a missing object counts as empty. -/
def World.content (w : World) (state : UploadState) : Bytes :=
  (state.handle.bind fun h => w.objects h.key).getD []

end System

end TusRs
