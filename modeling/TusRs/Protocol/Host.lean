import TusRs.Interaction.Prog
import TusRs.Protocol.Body
import TusRs.Protocol.State

/-!
# What the handlers run on

The operations of a handler on the state store, the locker, the hooks, the clock and a
storage backend. A storage backend is a set of programs over operations of its own, so that
the same handlers run over a backend given by its contract and over one modelled operation
by operation.
-/

namespace TusRs

open Interaction

namespace Protocol

/-- `HookEvent`. -/
inductive HookEvent where
  | preCreate
  | postCreate
  | preReceive
  | postReceive
  | preFinish
  | postFinish
  | preTerminate
  | postTerminate
deriving DecidableEq

/-- `PreHookResult`. -/
structure PreHookResult where
  proceed : Bool
  metadata : Option UploadMetadata
  rejectStatus : Option Nat
  rejectMessage : Option String
  responseHeaders : List (String × String)

/-- `newId` is `Uuid::new_v4`; `respond` is the moment a response that names a new upload
leaves the server. -/
inductive HostOp (O : Sig) where
  | stateGet (id : String)
  | stateSet (state : UploadState) (mode : WriteMode)
  | stateDelete (id : String)
  | listExpired (before : Nat)
  | lock (id : String)
  | tryLock (id : String)
  | unlock (id : String)
  | hookPre (event : HookEvent) (state : UploadState)
  | hookPost (event : HookEvent) (state : UploadState)
  | now
  | newId
  | respond (id : String)
  | storage (o : O.Op)

def Host (O : Sig) : Sig where
  Op := HostOp O
  Ans
    | .stateGet _ => Except Error (Option UploadState)
    | .stateSet _ _ => Except Error Unit
    | .stateDelete _ => Except Error Unit
    | .listExpired _ => Except Error (List String)
    | .lock _ => Except Error Unit
    | .tryLock _ => Except Error Bool
    | .unlock _ => Unit
    | .hookPre _ _ => Except Error PreHookResult
    | .hookPost _ _ => Unit
    | .now => Nat
    | .newId => String
    | .respond _ => Unit
    | .storage o => O.Ans o

variable {O : Sig} {α : Type}

abbrev HostM (O : Sig) := Attempt (Host O) Error

/-- `Storage` and `StorageReader`. -/
structure Storage (O : Sig) where
  create : String → HostM O StorageHandle
  append : StorageHandle → Nat → ChunkStream → Bool → HostM O StorageHandle
  concat : StorageHandle → List StorageHandle → HostM O StorageHandle
  delete : StorageHandle → HostM O Unit
  size : StorageHandle → HostM O (Option Nat)
  stream : StorageHandle → HostM O Bytes

/-- `Protocol`: what every handler is given. -/
structure Server (O : Sig) where
  config : Config
  digests : Digests
  storage : Storage O

/-! ## Operations as programs -/

def getState (id : String) : HostM O (Option UploadState) := Prog.step (.stateGet id) .done

def setState (state : UploadState) (mode : WriteMode) : HostM O Unit :=
  Prog.step (.stateSet state mode) .done

def deleteState (id : String) : HostM O Unit := Prog.step (.stateDelete id) .done

/-- `state_store.get(id).await?.ok_or(NotFound)`. -/
def requireState (id : String) : HostM O UploadState :=
  Prog.step (.stateGet id) fun (r : Except Error (Option UploadState)) =>
    match r with
    | .error e => .done (.error e)
    | .ok none => .done (.error (.notFound id))
    | .ok (some state) => .done (.ok state)

/-- Run `body` under the lock of `id`; the guard is dropped on every path. -/
def withLock (id : String) (body : HostM O α) : HostM O α :=
  Prog.step (.lock id) fun (r : Except Error Unit) =>
    match r with
    | .error e => .done (.error e)
    | .ok _ => Prog.bind body fun result => .step (.unlock id) fun _ => .done result

/-- `UploadState::is_expired` reads the clock. -/
def isExpired (state : UploadState) : HostM O Bool :=
  Prog.step .now fun (now : Nat) => .done (.ok (state.expiresBefore now))

/-- `ensure_active`. -/
def ensureActive (state : UploadState) : HostM O Unit :=
  Prog.step .now fun (now : Nat) =>
    if state.expiresBefore now then .done (.error (.expired state.id)) else .done (.ok ())

/-! ## Hooks -/

/-- `PreHookGate`. -/
inductive PreHookGate where
  | create
  | receive
  | finish
  | terminate
deriving DecidableEq

namespace PreHookGate

def event : PreHookGate → HookEvent
  | .create => .preCreate
  | .receive => .preReceive
  | .finish => .preFinish
  | .terminate => .preTerminate

def replaceMetadata : PreHookGate → Bool
  | .create | .receive => true
  | .finish | .terminate => false

def propagateResponseHeaders : PreHookGate → Bool
  | .finish => false
  | _ => true

/-- `rejection_error`. -/
def rejectionError (result : PreHookResult) : Error :=
  .hookRejected (result.rejectStatus.getD 400) (result.rejectMessage.getD "")

/-- What an accepting hook makes of the state and the response headers. -/
def outcome (gate : PreHookGate) (state : UploadState) (result : PreHookResult) :
    UploadState × List (String × String) :=
  (if gate.replaceMetadata then
      match result.metadata with
      | some metadata => state.setMetadata metadata
      | none => state
    else state,
   if gate.propagateResponseHeaders then result.responseHeaders else [])

/-- `PreHookGate::run`. -/
def run (gate : PreHookGate) (state : UploadState) :
    HostM O (UploadState × List (String × String)) :=
  Prog.step (.hookPre gate.event state) fun (r : Except Error PreHookResult) =>
    match r with
    | .error e => .done (.error e)
    | .ok result =>
      if result.proceed then .done (.ok (gate.outcome state result))
      else .done (.error (rejectionError result))

end PreHookGate

/-- `execute_post_best_effort`. -/
def runPostEvent (event : HookEvent) (state : UploadState) : HostM O Unit :=
  Prog.step (.hookPost event state) fun _ => .done (.ok ())

/-- `UploadCompletion::finish_gate`. -/
def finishGate (state : UploadState) : HostM O Unit := do
  let _ ← PreHookGate.finish.run state
  pure ()

/-- `UploadCompletion::after_commit`. -/
def afterCommit (state : UploadState) : HostM O Unit := runPostEvent .postFinish state

/-- `UploadCompletion::after_commit_if_complete`. -/
def afterCommitIfComplete (state : UploadState) : HostM O Unit :=
  if state.isComplete then afterCommit state else pure ()

/-! ## Responses -/

/-- `Response`; the body is empty. -/
structure Response where
  status : Nat
  headers : List (String × String)

/-- A token character of a header name. -/
def isTokenChar (c : Char) : Bool :=
  c.isAlphanum || "!#$%&'*+-.^_`|~".toList.contains c

/-- `HeaderName::try_from` accepts the name. -/
def validHeaderName (name : String) : Bool := !name.isEmpty && name.toList.all isTokenChar

/-- `HeaderValue::from_str` accepts the value. -/
def validHeaderValue (value : String) : Bool :=
  value.toList.all fun c => c = '\t' || (32 ≤ c.toNat && c.toNat < 127)

/-- Header names are compared without case. -/
def sameHeader (a b : String) : Bool := a.toLower == b.toLower

/-- `with_header`: replaces an existing value, drops an invalid one. -/
def Response.withHeader (r : Response) (name value : String) : Response :=
  if validHeaderName name && validHeaderValue value then
    { r with headers := (name, value) :: r.headers.filter fun h => !sameHeader h.1 name }
  else r

def Response.new (status : Nat) : Response := ⟨status, [("tus-resumable", "1.0.0")]⟩

def Response.withHeaders (r : Response) (hs : List (String × String)) : Response :=
  hs.foldl (fun r h => r.withHeader h.1 h.2) r

def Response.header (r : Response) (name : String) : Option String :=
  (r.headers.find? fun h => sameHeader h.1 name).map Prod.snd

end Protocol

end TusRs
