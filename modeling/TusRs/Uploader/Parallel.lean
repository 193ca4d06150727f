import TusRs.Uploader.Operations

/-!
# Parallel uploads

`upload_parallel` of `client/upload.rs` with `concatenate_uploads` and `terminate_upload_at`
of `client/protocol.rs`: the source is cut into parts, each part is uploaded by a task of
its own, and the parts are concatenated in the end. The task of `upload_parallel` is thread
`0`, the task of part `i` is thread `i + 1`; which of them runs next is open at every
operation.
-/

namespace TusRs

open Interaction

namespace Uploader

/-- `ParallelUpload`; both values are clamped to at least 1. The progress callback decides
nothing and is left out. -/
structure ParallelUpload where
  partSize : Nat
  maxConcurrency : Nat
  partSize_pos : 0 < partSize
  maxConcurrency_pos : 0 < maxConcurrency

namespace ParallelUpload

def new (partSize : Nat) : ParallelUpload where
  partSize := max partSize 1
  maxConcurrency := 4
  partSize_pos := lt_of_lt_of_le Nat.one_pos (le_max_right _ _)
  maxConcurrency_pos := Nat.succ_pos 3

def withPartSize (options : ParallelUpload) (partSize : Nat) : ParallelUpload :=
  { options with
    partSize := max partSize 1
    partSize_pos := lt_of_lt_of_le Nat.one_pos (le_max_right _ _) }

def withMaxConcurrency (options : ParallelUpload) (maxConcurrency : Nat) : ParallelUpload :=
  { options with
    maxConcurrency := max maxConcurrency 1
    maxConcurrency_pos := lt_of_lt_of_le Nat.one_pos (le_max_right _ _) }

end ParallelUpload

/-- The client of a parallel upload, with the functions of the URL crate it calls. -/
structure ParallelClient (Meta : Type) extends Client Meta where
  resolveUploadLocation : String → Except Error String
  parseUrl : String → Option String

/-- What is relied on of the URL crate: a resolved location is an absolute URL, which
resolves and parses to itself again and has its spaces encoded. -/
structure ParallelClient.Lawful {Meta : Type} (client : ParallelClient Meta) : Prop where
  resolve : ∀ location url, client.resolveServerLocation location = .ok url →
    client.resolveUploadLocation url = .ok url
  parse : ∀ location url, client.resolveServerLocation location = .ok url →
    client.parseUrl url = some url
  noSpace : ∀ location url, client.resolveServerLocation location = .ok url → ' ' ∉ url.toList

/-- `PartOutcome`. -/
structure PartOutcome where
  index : Nat
  createdUrl : Option String
  result : Except Error String

/-- Why a parallel upload fails. The error for a part without a recorded URL is kept apart
from those that may come from outside. -/
inductive Failure where
  | upload (error : Error)
  | unrecorded

def Failure.error : Failure → Error
  | .upload error => error
  | .unrecorded => .internal "parallel part completed without recording its upload URL"

/-! ## Operations -/

/-- The requests, reads and timers of the client, where the creations of a part are marked
as partial, and the operations of the set of tasks; `start` and `finish` stand at the two
ends of a task. `headers` asks the header provider for the headers of a DELETE. -/
inductive ParOp where
  | net (isPart : Bool) (o : NetOp)
  | spawn (index : Nat) (capabilities : List String) (bytes : Bytes)
  | start
  | finish (outcome : PartOutcome)
  | join (joinSet : List Nat)
  | abortAll (joinSet : List Nat)
  | concat (uploadConcat : String)
  | headers
  | delete (url : String)

/-- A joined task gives its index and its outcome, or the text of a join error. -/
def ParSig : Sig where
  Op := ParOp
  Ans
    | .net _ o => NetSig.Ans o
    | .spawn _ _ _ => Unit
    | .start => List String × Bytes
    | .finish _ => Unit
    | .join _ => Nat × Except String PartOutcome
    | .abortAll _ => Unit
    | .concat _ => Except Error Response
    | .headers => Except Error Unit
    | .delete _ => Except Error Response

abbrev Par := Prog ParSig

/-- The client's operations outside and inside the tasks of the parts. -/
def asNet (isPart : Bool) : NetSig.Into ParSig where
  op := .net isPart
  ans _ a := a

/-! ## One part -/

/-- The range of the source that `read_parallel_part` reads: its start and length, in
64-bit arithmetic. -/
def partRange (sourceLength partSize index : Nat) : Nat × Nat :=
  let start := index * partSize % 2 ^ 64
  (start, min ((sourceLength + 2 ^ 64 - start) % 2 ^ 64) partSize)

/-- `read_parallel_part`. -/
def readParallelPart (sourceLength partSize index : Nat) : Net Bytes :=
  let range := partRange sourceLength partSize index
  readSourceExact sourceLength range.1 range.2

section Parts

variable {Meta : Type} (client : ParallelClient Meta) (rounds : Nat)

/-- `upload_partial_with_capabilities`; the first value is what `created_url` is set to. -/
def uploadPartialWithCapabilities (bytes : Bytes) (metadata : Meta)
    (capabilities : Option (List String)) :
    Prog NetSig (Option String × Except Error (UploadInfo Meta)) :=
  let length := bytes.length
  let resume (upload : UploadInfo Meta) :=
    Prog.bind (resumeLoop client.toClient upload.url length rounds 0 none (some upload))
      fun result => .done (some upload.url, result)
  if shouldUseCreationWithUpload client.toClient length capabilities then
    Prog.bind (readSourceExact length 0 length) fun
    | .error e => .done (none, .error e)
    | .ok body => Prog.bind (createUploadRequest client.toClient length (some body) metadata) fun
      | .error e => .done (none, .error e)
      | .ok upload => .step (.onProgress upload.offset length) fun _ =>
        if upload.offset = length then .done (some upload.url, .ok upload) else resume upload
  else Prog.bind (createUploadRequest client.toClient length none metadata) fun
    | .error e => .done (none, .error e)
    | .ok upload => resume upload

/-- `upload_parallel_part`; `metadata` is the empty metadata of a part. -/
def uploadParallelPart (metadata : Meta) (index : Nat) (bytes : Bytes)
    (capabilities : Option (List String)) : Prog NetSig PartOutcome :=
  Prog.bind (uploadPartialWithCapabilities client rounds bytes metadata capabilities)
    fun r => .done ⟨index, r.1, r.2.map UploadInfo.url⟩

/-- The task of a part, from its start to its outcome. -/
def partTask (metadata : Meta) (index : Nat) : Par Unit :=
  Prog.step .start fun (a : List String × Bytes) =>
    Prog.bind ((uploadParallelPart client rounds metadata index a.2 (some a.1)).into (asNet true))
      fun outcome => .step (.finish outcome) fun _ => .done ()

end Parts

/-! ## The parallel upload -/

/-- The variables of `upload_parallel`: the next part to spawn, the tasks that are not
joined, and the URLs of the parts. -/
structure Parts where
  nextIndex : Nat
  joinSet : List Nat
  partUrls : List (Option String)
  createdUrls : List (Option String)

namespace Parts

def init (partCount : Nat) : Parts :=
  ⟨0, [], List.replicate partCount none, List.replicate partCount none⟩

def spawned (v : Parts) : Parts :=
  { v with nextIndex := v.nextIndex + 1, joinSet := v.joinSet ++ [v.nextIndex] }

/-- A joined task leaves the set; a URL it created is recorded. -/
def joined (v : Parts) : Nat × Except String PartOutcome → Parts
  | (index, .ok outcome) => { v with
      joinSet := v.joinSet.erase index
      createdUrls := match outcome.createdUrl with
        | some url => v.createdUrls.set outcome.index (some url)
        | none => v.createdUrls }
  | (index, .error _) => { v with joinSet := v.joinSet.erase index }

def completed (v : Parts) (index : Nat) (url : String) : Parts :=
  { v with partUrls := v.partUrls.set index (some url) }

end Parts

/-- `u64::div_ceil`. -/
def divCeil (n d : Nat) : Nat := if n % d > 0 then n / d + 1 else n / d

section Parallel

variable {Meta : Type} (client : ParallelClient Meta) (options : ParallelUpload) (rounds : Nat)
  (sourceLength : Nat) (capabilities : List String)

def partCount : Nat := divCeil sourceLength options.partSize

def taskLimit : Nat := max (min options.maxConcurrency (partCount options sourceLength)) 1

/-- Reads the next part and spawns its task. -/
def spawnNext (v : Parts) : Par (Parts × Option Error) :=
  Prog.bind ((readParallelPart sourceLength options.partSize v.nextIndex).into (asNet false)) fun
  | .error error => .done (v, some error)
  | .ok bytes => .step (.spawn v.nextIndex capabilities bytes) fun _ => .done (v.spawned, none)

/-- The loop that spawns the first tasks; each round spawns one. -/
def spawnLoop : Nat → Parts → Par (Parts × Option Error)
  | 0, v => .done (v, none)
  | n + 1, v =>
    if v.nextIndex < partCount options sourceLength ∧
        v.joinSet.length < taskLimit options sourceLength then
      Prog.bind (spawnNext options sourceLength capabilities v) fun
      | (v, none) => spawnLoop n v
      | (v, some error) => .done (v, some error)
    else .done (v, none)

/-- The loop over `join_next`; each round joins one task, and there are no more rounds than
tasks to join and parts to spawn. -/
def joinLoop : Nat → Parts → Par (Parts × Option Error)
  | 0, v => .done (v, none)
  | n + 1, v =>
    if v.joinSet = [] then .done (v, none)
    else Prog.step (.join v.joinSet) fun (a : Nat × Except String PartOutcome) =>
      match a.2 with
      | .error joinError =>
        .done (v.joined a, some (.internal s!"parallel upload task failed: {joinError}"))
      | .ok outcome => match outcome.result with
        | .error error => .done (v.joined a, some error)
        | .ok url =>
          let v := (v.joined a).completed outcome.index url
          if v.nextIndex < partCount options sourceLength then
            Prog.bind (spawnNext options sourceLength capabilities v) fun
            | (v, none) => joinLoop n v
            | (v, some error) => .done (v, some error)
          else joinLoop n v

/-- The loop that joins what is left of the aborted tasks. -/
def drainLoop : Nat → Parts → Par Parts
  | 0, v => .done v
  | n + 1, v =>
    if v.joinSet = [] then .done v
    else Prog.step (.join v.joinSet) fun (a : Nat × Except String PartOutcome) =>
      drainLoop n (v.joined a)

/-- `cleanup_partial_uploads`; what `terminate_upload_at` answers is ignored. -/
def cleanupPartialUploads : List (Option String) → Par Unit
  | [] => .done ()
  | none :: urls => cleanupPartialUploads urls
  | some url :: urls => match client.parseUrl url with
    | none => cleanupPartialUploads urls
    | some url => Prog.step .headers fun (headers : Except Error Unit) =>
      match headers with
      | .error _ => cleanupPartialUploads urls
      | .ok _ => .step (.delete url) fun _ => cleanupPartialUploads urls

/-- The response to a concatenation: where the final upload is. -/
def concatenatedUrl (r : Response) : Except Error String :=
  if r.status ≠ 201 then .error (unexpectedResponse "concatenate uploads" r)
  else do
    let location ← headerString r.location "Location"
    client.resolveServerLocation location

/-- The request of `concatenate_uploads` and the state of the final upload. -/
def sendConcatenation (urls : List String) : Par (Except Error (UploadInfo Meta)) :=
  Prog.step (.concat ("final;" ++ " ".intercalate urls)) fun (r : Except Error Response) =>
    match r with
    | .error e => .done (.error e)
    | .ok r => match concatenatedUrl client r with
      | .error e => .done (.error e)
      | .ok url => (uploadInfoAt client.toClient url).into (asNet false)

/-- `concatenate_uploads`. -/
def concatenateUploads (partUrls : List String) : Par (Except Error (UploadInfo Meta)) :=
  match partUrls.mapM client.resolveUploadLocation with
  | .error e => .done (.error e)
  | .ok urls => sendConcatenation client urls

/-- The URLs of all parts, `none` when one is missing. -/
def collectUrls (partUrls : List (Option String)) : Option (List String) := partUrls.mapM id

/-- What `upload_parallel` does with the outcome of its parts. -/
def concludeParts : Parts × Option Error → Par (Except Failure (UploadInfo Meta))
  | (v, some error) =>
    .step (.abortAll v.joinSet) fun _ => Prog.bind (drainLoop v.joinSet.length v) fun v =>
      Prog.bind (cleanupPartialUploads client v.createdUrls) fun _ =>
        .done (.error (.upload error))
  | (v, none) => match collectUrls v.partUrls with
    | none => .done (.error .unrecorded)
    | some urls => Prog.bind (concatenateUploads client urls) fun r =>
      .done (r.mapError .upload)

/-- The parts of a source that is not empty. -/
def uploadParts : Par (Except Failure (UploadInfo Meta)) :=
  let count := partCount options sourceLength
  Prog.bind (spawnLoop options sourceLength capabilities count (Parts.init count)) fun
  | (v, some error) => concludeParts client (v, some error)
  | (v, none) => Prog.bind (joinLoop options sourceLength capabilities
      (v.joinSet.length + (count - v.nextIndex)) v) (concludeParts client)

/-- `upload_parallel`. -/
def uploadParallel (metadata : Meta) : Par (Except Failure (UploadInfo Meta)) :=
  if sourceLength = 0 then
    Prog.bind ((uploadFrom client.toClient rounds sourceLength metadata).into (asNet false))
      fun r => .done (r.mapError .upload)
  else Prog.step (.net false .options) fun (r : Except Error (List String)) =>
    match r with
    | .error e => .done (.error (.upload e))
    | .ok capabilities =>
      if hasExtension capabilities "concatenation" then
        uploadParts client options sourceLength capabilities
      else .done (.error (.upload (.unsupportedExtension "concatenation")))

end Parallel

/-! ## The tasks, the server and the network -/

/-- The state of a task in the join set. -/
inductive Task where
  | idle
  | running (capabilities : List String) (bytes : Bytes)
  | finished (outcome : PartOutcome)
  | panicked
  | joined

/-- What the threads share: the server, which thread created the upload at a URL, the tasks,
and what happened so far: the parts handed to tasks, the `Upload-Concat` headers sent, the
partial uploads whose creation was answered to their thread, and what DELETE was sent for. -/
structure ParWorld where
  server : Server
  owner : String → Option Nat
  tasks : Nat → Task
  aborted : Bool
  parts : List (Nat × Bytes)
  concats : List String
  received : List (Nat × String)
  deleted : List String

namespace ParWorld

/-- Before the upload: no task, and no request on its way. -/
def start (content : String → Bytes) : ParWorld :=
  ⟨⟨content, []⟩, fun _ => none, fun _ => .idle, false, [], [], [], []⟩

def setServer (w : ParWorld) (server : Server) : ParWorld := { w with server := server }

def setTask (w : ParWorld) (i : Nat) (task : Task) : ParWorld :=
  { w with tasks := Function.update w.tasks i task }

/-- A new upload of thread `t`. -/
def create (w : ParWorld) (t : Nat) (url : String) (bytes : Bytes) : ParWorld :=
  { w with
    server := w.server.create url bytes
    owner := Function.update w.owner url (some t) }

/-- The response to the creation of a part reaches its thread. -/
def receive (w : ParWorld) (isPart : Bool) (t : Nat) (url : String) (r : Response) : ParWorld :=
  { w with received := if isPart ∧ r.status = 201 then (t, url) :: w.received else w.received }

/-- The thread can run, and `bytes` is the source it reads from. -/
def Reads (w : ParWorld) (source : Bytes) (t : Nat) (bytes : Bytes) : Prop :=
  (t = 0 ∧ bytes = source) ∨ ∃ i capabilities, t = i + 1 ∧ w.tasks i = .running capabilities bytes

/-- The partial uploads a server reads from an `Upload-Concat` header. -/
def listed (uploadConcat : String) : List String :=
  ((uploadConcat.toList.drop 6).splitOn ' ').map String.ofList

end ParWorld

/-- The response does not point to another upload than the one at `url`. -/
def PointsTo (resolve : String → Except Error String) (r : Response) (url : String) : Prop :=
  ∀ location u, r.location = some location → resolve location = .ok u → u = url

def NetOp.isPost : NetOp → Bool
  | .post _ _ => true
  | _ => false

/-- What the threads may do and be answered. The server gives each upload a URL of its own,
answers 201 to nothing but a creation and stores under a final upload what it lists. An
aborted task may still run until it is joined. -/
inductive ParExec (source : Bytes) (resolve : String → Except Error String) :
    (t : Nat) → (o : ParOp) → ParWorld → ParSig.Ans o → ParWorld → Prop
  | net {w : ParWorld} {t : Nat} {bytes : Bytes} {isPart : Bool} {o : NetOp} {a : NetSig.Ans o}
      {server : Server} : w.Reads source t bytes → o.isPost = false →
      NetExec bytes resolve o w.server a server →
      ParExec source resolve t (.net isPart o) w a (w.setServer server)
  | created {w : ParWorld} {t : Nat} {bytes : Bytes} {isPart : Bool} {length k : Nat}
      {body : Option Bytes} {r : Response} {url : String} : w.Reads source t bytes →
      w.owner url = none → PointsTo resolve r url →
      (w.server.create url ((body.getD []).take k)).Truthful url r →
      ParExec source resolve t (.net isPart (.post length body)) w (.ok r)
        ((w.create t url ((body.getD []).take k)).receive isPart t url r)
  | notCreated {w : ParWorld} {t : Nat} {bytes : Bytes} {isPart : Bool} {length : Nat}
      {body : Option Bytes} {r : Response} : w.Reads source t bytes → r.status ≠ 201 →
      ParExec source resolve t (.net isPart (.post length body)) w (.ok r) w
  | postLost {w : ParWorld} {t : Nat} {bytes : Bytes} {isPart : Bool} {length : Nat}
      {body : Option Bytes} {e : Error} : w.Reads source t bytes →
      ParExec source resolve t (.net isPart (.post length body)) w (.error e) w
  | spawn {w : ParWorld} {i : Nat} {capabilities : List String} {bytes : Bytes} :
      w.tasks i = .idle →
      ParExec source resolve 0 (.spawn i capabilities bytes) w ()
        { w.setTask i (.running capabilities bytes) with parts := w.parts ++ [(i, bytes)] }
  | start {w : ParWorld} {i : Nat} {capabilities : List String} {bytes : Bytes} :
      w.tasks i = .running capabilities bytes →
      ParExec source resolve (i + 1) .start w (capabilities, bytes) w
  | finish {w : ParWorld} {i : Nat} {capabilities : List String} {bytes : Bytes}
      {outcome : PartOutcome} : w.tasks i = .running capabilities bytes →
      ParExec source resolve (i + 1) (.finish outcome) w () (w.setTask i (.finished outcome))
  | joined {w : ParWorld} {joinSet : List Nat} {i : Nat} {outcome : PartOutcome} :
      i ∈ joinSet → w.tasks i = .finished outcome →
      ParExec source resolve 0 (.join joinSet) w (i, .ok outcome) (w.setTask i .joined)
  | joinFailed {w : ParWorld} {joinSet : List Nat} {i : Nat} {message : String} :
      i ∈ joinSet →
      (w.tasks i = .panicked ∨
        w.aborted = true ∧ ∃ capabilities bytes, w.tasks i = .running capabilities bytes) →
      ParExec source resolve 0 (.join joinSet) w (i, .error message) (w.setTask i .joined)
  | abortAll {w : ParWorld} {joinSet : List Nat} :
      ParExec source resolve 0 (.abortAll joinSet) w () { w with aborted := true }
  | concatenated {w : ParWorld} {uploadConcat url : String} {r : Response} :
      w.owner url = none → PointsTo resolve r url →
      ParExec source resolve 0 (.concat uploadConcat) w (.ok r)
        { w.create 0 url ((ParWorld.listed uploadConcat).map w.server.content).flatten with
          concats := w.concats ++ [uploadConcat] }
  | notConcatenated {w : ParWorld} {uploadConcat : String} {r : Response} :
      r.status ≠ 201 →
      ParExec source resolve 0 (.concat uploadConcat) w (.ok r)
        { w with concats := w.concats ++ [uploadConcat] }
  | concatLost {w : ParWorld} {uploadConcat : String} {e : Error} :
      ParExec source resolve 0 (.concat uploadConcat) w (.error e)
        { w with concats := w.concats ++ [uploadConcat] }
  | headers {w : ParWorld} {a : Except Error Unit} : ParExec source resolve 0 .headers w a w
  | deleted {w : ParWorld} {url : String} {a : Except Error Response} :
      ParExec source resolve 0 (.delete url) w a { w with deleted := url :: w.deleted }

/-- A PATCH on its way may take effect at any time, and a task that is stopped where it
stands has panicked. -/
def parMachine {Meta : Type} (client : ParallelClient Meta) (source : Bytes) :
    Machine ParSig ParWorld where
  exec := ParExec source client.resolveServerLocation
  env w w' := ∃ q ∈ w.server.pending, ∃ server, w.server.Applies q server ∧ w' = w.setServer server
  halt t w w' := (t = 0 ∧ w' = w) ∨
    ∃ i capabilities bytes, t = i + 1 ∧ w.tasks i = .running capabilities bytes ∧
      w' = w.setTask i .panicked

/-- The call of `upload_parallel`, with the tasks of the parts waiting to be spawned. -/
def callParallel {Meta : Type} (client : ParallelClient Meta) (options : ParallelUpload)
    (rounds : Nat) (source : Bytes) (metadata partMetadata : Meta) (content : String → Bytes) :
    Interaction.Config ParSig ParWorld (Option (Except Failure (UploadInfo Meta))) where
  snap := ⟨.start content, []⟩
  pool
    | 0 => some (Prog.bind (uploadParallel client options rounds source.length metadata)
        fun r => .done (some r))
    | i + 1 => some (Prog.bind (partTask client rounds partMetadata i) fun _ => .done none)

/-! ## Where the loops of the client act -/

/-- The operation creates nothing and acts on no other uploads than those at `urls`. -/
def NetOp.At (urls : List String) : NetOp → Prop
  | .options => False
  | .post _ _ => False
  | .head url => url ∈ urls
  | .patch url _ _ => url ∈ urls
  | _ => True

theorem NetOp.At.not_post {urls : List String} {o : NetOp} (h : o.At urls) :
    o.isPost = false := by
  cases o with
  | post length body => exact h.elim
  | _ => rfl

/-- The operation asks for something and changes nothing. -/
def NetOp.Asks : NetOp → Prop
  | .post _ _ => False
  | .patch _ _ _ => False
  | _ => True

theorem NetOp.Asks.not_post {o : NetOp} (h : o.Asks) : o.isPost = false := by
  cases o with
  | post length body => exact h.elim
  | _ => rfl

theorem NetOp.At.asks {o : NetOp} (h : o.At []) : o.Asks := by
  cases o with
  | post length body => exact h
  | patch url offset body => exact nomatch h
  | _ => trivial

section Targets

variable {Meta : Type} {client : Client Meta} {url : String} {urls : List String}

theorem NetOp.Waits.at {o : NetOp} (h : o.Waits) : o.At urls := by
  cases o with
  | beforeRetry attempt error => trivial
  | random max => trivial
  | sleep duration => trivial
  | _ => exact h.elim

/-- The resume loop acts on its own upload alone. -/
theorem resumeLoop_at (sourceLength rounds attempt : Nat) (observed : Option Nat)
    (created : Option (UploadInfo Meta)) :
    (resumeLoop client url sourceLength rounds attempt observed created).Ops (NetOp.At [url]) :=
  resumeLoop_ops trivial (List.mem_singleton_self url) (fun _ _ => trivial)
    (fun _ _ => List.mem_singleton_self url) (fun _ _ => trivial) (fun _ => NetOp.Waits.at) _ _ _ _

theorem readLoop_at (sourceLen offset capacity fuel : Nat) (body : Bytes) :
    Prog.Ops (NetOp.At urls) (readLoop sourceLen offset capacity fuel body) :=
  readLoop_ops (fun _ _ => trivial) _ _ _ _ _

/-- What is read exactly has the asked length. -/
theorem readLoop_length (sourceLen offset capacity fuel : Nat) (body : Bytes)
    (hle : body.length ≤ capacity) (hfuel : capacity ≤ body.length + fuel) :
    Attempt.Returns (fun bytes => bytes.length = capacity)
      (readLoop sourceLen offset capacity fuel body) := by
  induction fuel generalizing body with
  | zero => exact .pure (Nat.le_antisymm hle hfuel)
  | succ n ih =>
    refine .ite (fun _ chunk => ?_) fun hge => .pure (Nat.le_antisymm hle (Nat.not_lt.mp hge))
    cases chunk with
    | error e => exact Attempt.Returns.error e
    | ok chunk =>
      refine Attempt.Returns.ite (fun _ => .error _) fun hne => ?_
      refine Attempt.Returns.ite (fun _ => .error _) fun hfit => ?_
      have hpos : 0 < chunk.length :=
        List.length_pos_iff.mpr fun h => hne (List.isEmpty_iff.mpr h)
      refine ih _ ?_ ?_ <;> rw [List.length_append] <;> omega

theorem uploadInfoAt_asks : (uploadInfoAt client url).Ops NetOp.Asks := uploadInfoAt_ops trivial

theorem readLoop_asks (sourceLen offset capacity fuel : Nat) (body : Bytes) :
    Prog.Ops NetOp.Asks (readLoop sourceLen offset capacity fuel body) :=
  (readLoop_at sourceLen offset capacity fuel body).mono fun _ => NetOp.At.asks

theorem uploadInfoAt_url :
    Attempt.Returns (fun info => info.url = url) (uploadInfoAt client url) := by
  intro r
  cases r with
  | error e => exact Attempt.Returns.error e
  | ok r =>
    refine Attempt.Returns.ite (fun _ => .error _) fun _ info hinfo => ?_
    obtain ⟨offset, -, hinfo⟩ := except_bind_ok hinfo
    obtain ⟨length, -, hinfo⟩ := except_bind_ok hinfo
    obtain ⟨metadata, -, hinfo⟩ := except_bind_ok hinfo
    exact Except.ok.inj hinfo ▸ rfl

theorem lastCheck_url (sourceLength : Nat) (error : Error) :
    Attempt.Returns (fun info => info.url = url) (lastCheck client url sourceLength error) := by
  refine Prog.Yields.bind uploadInfoAt_url fun r hr => ?_
  cases r with
  | error e => exact Attempt.Returns.error e
  | ok remote =>
    dsimp only
    split
    · exact Attempt.Returns.error _
    · exact Attempt.Returns.ite (fun _ => .pure (hr remote rfl)) fun _ => .error _

/-- The resume loop returns the state of its own upload. -/
theorem resumeLoop_url (sourceLength rounds attempt : Nat) (observed : Option Nat)
    (created : Option (UploadInfo Meta)) (hcreated : ∀ info ∈ created, info.url = url) :
    Attempt.Returns (fun info => info.url = url)
      (resumeLoop client url sourceLength rounds attempt observed created) := by
  induction rounds generalizing attempt observed created with
  | zero => exact fun a => nomatch a
  | succ n ih =>
    have hnext : ∀ attempt' observed' error, Attempt.Returns (fun info => info.url = url)
        (Prog.bind (beforeNextAttempt client attempt' error) fun
          | .error e => .done (.error e)
          | .ok _ => resumeLoop client url sourceLength n (attempt' + 1) observed' none) := by
      intro attempt' observed' error
      refine Prog.Yields.bind (Prog.Yields.trivial _) fun r _ => ?_
      cases r with
      | error e => exact Attempt.Returns.error e
      | ok _ => exact ih _ _ none nofun
    unfold resumeLoop
    refine Prog.Yields.bind (A := fun r => ∀ info, r = .ok info → info.url = url) ?_ fun r hr => ?_
    · cases created with
      | some info => exact Attempt.Returns.pure (hcreated info rfl)
      | none => exact uploadInfoAt_url
    cases r with
    | error error => exact Attempt.Returns.ite (fun _ => .error _) fun _ => hnext _ _ _
    | ok remote =>
      dsimp only
      split
      · exact Attempt.Returns.error _
      refine Attempt.Returns.ite (fun _ => .pure (hr remote rfl)) fun _ => ?_
      refine Prog.Yields.bind (Prog.Yields.trivial _) fun r _ => ?_
      cases r with
      | ok _ => exact Attempt.Returns.pure rfl
      | error error =>
        refine Attempt.Returns.ite (fun _ => .error _) fun _ => ?_
        exact Attempt.Returns.ite (fun _ => lastCheck_url _ _) fun _ => hnext _ _ _

end Targets

end Uploader

end TusRs
