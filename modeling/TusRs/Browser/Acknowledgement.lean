import TusRs.Browser.Worker
import TusRs.Uploader.Operations

/-!
# Acknowledgements the engine accepts

How `run_upload` of `dioxus-tus/src/hook.rs` reacts to the responses it awaits, against
`patch_source` of the native client: both send a chunk through `send_upload_chunk_at`, and
each validates the acknowledged offset with a helper of its own. `Receipts` collects, for the
upload under way, the acknowledged bodies and the offsets the server reported.

Results:

* `agrees_iff`: the responses to which both clients react alike.
* `step_sound`: what one step of the engine preserves.
* `acknowledgements_sound`: while no acknowledgement goes beyond the bytes just sent, an
  upload that completes was sent or reported as a whole.
-/

namespace TusRs

open Interaction

namespace Uploader

variable {Meta : Type} (client : Client Meta)

/-! ## Responses -/

theorem readAck_ok_iff {operation : String} {r : Except Error Response} {n : Nat} :
    readAck operation r = .ok n ↔ ∃ response, r = .ok response ∧ response.status = 204 ∧
      headerU64 response.uploadOffset "Upload-Offset" = .ok n := by
  cases r with
  | error e => simp [readAck]
  | ok r => by_cases h : r.status = 204 <;> simp [readAck, h]

/-- The operation is named in errors only. -/
theorem readAck_ok_congr (operation operation' : String) {r : Except Error Response} {n : Nat} :
    readAck operation r = .ok n ↔ readAck operation' r = .ok n := by
  rw [readAck_ok_iff, readAck_ok_iff]

theorem readAck_le {operation : String} {r : Except Error Response} {n : Nat}
    (h : readAck operation r = .ok n) : n ≤ u64Max := by
  obtain ⟨response, -, -, hn⟩ := readAck_ok_iff.mp h
  obtain ⟨v, -, hv⟩ := headerU64_ok hn
  exact parseU64_le hv

/-! ## The native client -/

theorem validatePatchAdvance_iff {previous next chunkLen sourceLen : Nat} (hfits : next ≤ u64Max) :
    validatePatchAdvance previous next chunkLen sourceLen = .ok () ↔
      previous < next ∧ next ≤ previous + chunkLen ∧ next ≤ sourceLen := by
  unfold validatePatchAdvance validateOffsetNotBeyondSource satAdd
  by_cases hsource : sourceLen < next
  · simp [hsource]
  by_cases hprevious : next ≤ previous
  · simp [hsource, hprevious, Nat.not_lt.mpr hprevious]
  have hmin : min (previous + chunkLen) u64Max < next ↔ previous + chunkLen < next := by omega
  by_cases hsent : previous + chunkLen < next
  · simp [hsource, hprevious, hmin, hsent]
  · simp [hsource, hprevious, hmin, hsent, Nat.lt_of_not_le hprevious, Nat.le_of_not_lt hsource,
      Nat.le_of_not_lt hsent]

/-- `patch_source` at `sent`, with `body` read from the source, goes on from `next` when it
receives the response. -/
def PatchAccepts (url : String) (total sent : Nat) (body : Bytes) (r : Except Error Response)
    (next : Nat) : Prop :=
  ∃ p q q' : Net Unit,
    (patchSource client url sent total).Asks
      (.readChunk sent (min (total - sent) client.maxChunkSize)) (.ok body) p ∧
    p.Asks (.patch url sent body) r q ∧ q.Asks (.onProgress next total) () q'

/-- What `patch_source` does with the response to a chunk. -/
def afterPatch (url : String) (total sent rounds : Nat) (body : Bytes) : Except Error Nat → Net Unit
  | .error e => .done (.error e)
  | .ok next => match validatePatchAdvance sent next body.length total with
    | .error e => .done (.error e)
    | .ok _ => .step (.onProgress next total) fun _ =>
      patchLoop client url total rounds next (total - next)

/-- One round of `patch_source`: a chunk is read and sent. -/
theorem patchSource_reads (url : String) {total sent : Nat} {body : Bytes} (hsent : sent < total)
    (hpos : body ≠ []) (hlen : body.length ≤ min (total - sent) client.maxChunkSize) :
    ∃ k, patchSource client url sent total =
        (Prog.step (.readChunk sent (min (total - sent) client.maxChunkSize)) k : Net Unit) ∧
      k (.ok body) = (Prog.step (.patch url sent body) fun (r : Except Error Response) =>
        afterPatch client url total sent (total - sent - 1) body (readAck "patch upload" r) :
          Net Unit) := by
  have hempty : body.isEmpty = false := by simpa using hpos
  obtain ⟨n, hn⟩ : ∃ n, total - sent = n + 1 := ⟨total - sent - 1, by omega⟩
  unfold patchSource
  rw [hn] at hlen ⊢
  refine ⟨_, if_pos (Nat.succ_pos n), ?_⟩
  refine (if_neg (by simp [hempty])).trans ((if_neg (Nat.not_lt.mpr hlen)).trans ?_)
  rw [sendUploadChunkAt_eq]
  rfl

theorem afterPatch_goes_iff (url : String) (rounds : Nat) {total sent next : Nat} {body : Bytes}
    {offset : Except Error Nat} :
    (∃ q, (afterPatch client url total sent rounds body offset).Asks (.onProgress next total) () q) ↔
      offset = .ok next ∧ validatePatchAdvance sent next body.length total = .ok () := by
  constructor
  · rintro ⟨q, k, hk, -⟩
    cases offset with
    | error e => cases hk
    | ok offset =>
      dsimp only [afterPatch] at hk
      split at hk
      · cases hk
      · next hvalid =>
        cases hk
        exact ⟨rfl, hvalid⟩
  · rintro ⟨rfl, hvalid⟩
    refine ⟨_, fun _ => patchLoop client url total rounds next (total - next), ?_, rfl⟩
    dsimp only [afterPatch]
    rw [hvalid]

theorem patchAccepts_iff {url : String} {total sent next : Nat} {body : Bytes}
    {r : Except Error Response} (hsent : sent < total) (hpos : body ≠ [])
    (hlen : body.length ≤ min (total - sent) client.maxChunkSize) :
    PatchAccepts client url total sent body r next ↔
      readAck "patch upload" r = .ok next ∧
        validatePatchAdvance sent next body.length total = .ok () := by
  obtain ⟨k, hread, hk⟩ := patchSource_reads client url hsent hpos hlen
  rw [← afterPatch_goes_iff client url (total - sent - 1)]
  constructor
  · rintro ⟨p, q, q', hp, hq, hq'⟩
    obtain rfl := Prog.asks_step.mp (hread ▸ hp)
    obtain rfl := Prog.asks_step.mp (hk ▸ hq)
    exact ⟨q', hq'⟩
  · rintro ⟨q', hq'⟩
    exact ⟨_, _, q', ⟨k, hread, rfl⟩, ⟨_, hk, rfl⟩, hq'⟩

end Uploader

namespace Browser

/-! ## The engine -/

def validateServerOffset (offset fileSize : Nat) : Except TusError Unit :=
  if offset > fileSize then
    .error (.transport s!"server offset {offset} exceeds local file size {fileSize}")
  else .ok ()

def validateResumeInfo {Meta : Type} (info : Uploader.UploadInfo Meta) (fileSize : Nat) :
    Except TusError Unit :=
  match info.length with
  | some remote =>
    if remote ≠ fileSize then
      .error (.transport s!"server length {remote} does not match local file size {fileSize}")
    else validateServerOffset info.offset fileSize
  | none => validateServerOffset info.offset fileSize

def validatePatchOffset (previous next fileSize : Nat) : Except TusError Unit := do
  validateServerOffset next fileSize
  if next ≤ previous then
    throw (.transport s!"server offset {next} did not advance beyond previous offset {previous}")

theorem validatePatchOffset_iff {previous next fileSize : Nat} :
    validatePatchOffset previous next fileSize = .ok () ↔ previous < next ∧ next ≤ fileSize := by
  unfold validatePatchOffset validateServerOffset
  by_cases hsize : fileSize < next
  · simp [hsize, bind, Except.bind]
  · by_cases hprevious : next ≤ previous
    · simp [hsize, hprevious, bind, Except.bind, throw, throwThe, MonadExceptOf.throw,
        Nat.not_lt.mpr hprevious]
    · simp [hsize, hprevious, bind, Except.bind, pure, Except.pure, Nat.lt_of_not_le hprevious,
        Nat.le_of_not_lt hsize]

def isRetryableStatus (status : Nat) : Bool :=
  500 ≤ status || status == 408 || status == 409 || status == 429

def isRetryableError : Uploader.Error → Bool
  | .unexpectedResponse _ status _ => isRetryableStatus status
  | .transport _ retryable => retryable
  | _ => false

/-- What the engine of a worker is set up with. `fromClient` is `TusError::from`, which only
decides how an error is shown. -/
structure Setup (Meta : Type) where
  config : TusConfig
  chunkSize : Nat
  client : Uploader.Client Meta
  fromClient : Uploader.Error → TusError

/-- What the engine awaits: the requests before the chunk loop, with the flag of a resource
that is gone, and the responses to a PATCH and to the HEAD after a failed one. -/
inductive Answer where
  | opened (result : Except (TusError × Bool) (String × Nat)) (now : Int) (put : Storage.Put)
  | patch (response : Except Uploader.Error Uploader.Response) (now : Int)
      (put : Option Storage.Put)
  | head (response : Except Uploader.Error Uploader.Response) (now : Int)
      (put : Option Storage.Put)

/-- What happens around an engine: calls of the handle, and what the engine awaits. A chunk
that cannot be read from the file ends the upload. -/
inductive Action where
  | send (cmd : UploadCommand)
  | start (u : Upload)
  | take
  | elapsed
  | blobFailed (e : TusError)
  | answer (a : Answer)

section Engine

variable {Meta : Type} (s : Setup Meta)

/-- A chunk is one byte at least. -/
def Setup.chunkEnd (t : Transfer) : Nat :=
  min (t.offset + max s.chunkSize 1) t.upload.file.size

/-- The response to a PATCH in the retry loop. -/
def Setup.afterPatch (t : Transfer) (attempt : Nat)
    (response : Except Uploader.Error Uploader.Response) (now : Int)
    (put : Option Storage.Put) : Worker.Move :=
  match Uploader.readAck "upload chunk" response with
  | .ok offset => match validatePatchOffset t.offset offset t.upload.file.size with
    | .ok _ => .patched offset now put
    | .error e => .failed e
  | .error e =>
    if attempt < s.config.maxRetries ∧ isRetryableError e then .patchLost
    else .failed (s.fromClient e)

/-- The response to a HEAD in the retry loop. -/
def Setup.afterHead (t : Transfer) (attempt : Nat)
    (response : Except Uploader.Error Uploader.Response) (now : Int)
    (put : Option Storage.Put) : Worker.Move :=
  match Uploader.readInfo s.client t.url response with
  | .ok remote => match validateResumeInfo remote t.upload.file.size with
    | .ok _ =>
      if remote.offset < t.offset then
        let offset := remote.offset
        let previous := t.offset
        .failed (.transport s!"server offset {offset} is below local retry offset {previous}")
      else .recovered remote.offset now put
    | .error e => .failed e
  | .error e =>
    if isRetryableError e = false ∨ s.config.maxRetries ≤ attempt then .failed (s.fromClient e)
    else .recoverLost

/-- The move an action makes of the engine, where it waits for it. -/
def Setup.move? (engine : Engine) : Action → Option Worker.Move
  | .send _ => none
  | .start _ => none
  | .take => some .take
  | .elapsed => some .elapsed
  | .blobFailed e => some (.failed e)
  | .answer (.opened (.error (e, gone)) _ _) => some (.createFailed e gone)
  | .answer (.opened (.ok (url, offset)) now put) => match engine with
    | .creating u _ => match validateServerOffset offset u.file.size with
      | .ok _ => some (.created url offset now put)
      | .error e => some (.createFailed e false)
    | _ => none
  | .answer (.patch response now put) => match engine with
    | .patching t attempt => some (s.afterPatch t attempt response now put)
    | _ => none
  | .answer (.head response now put) => match engine with
    | .recovering t attempt => some (s.afterHead t attempt response now put)
    | _ => none

/-! ## Acknowledgements -/

/-- The engine goes on from `next` when it receives the response. -/
def Setup.Accepts (t : Transfer) (attempt : Nat)
    (response : Except Uploader.Error Uploader.Response) (next : Nat) : Prop :=
  ∃ now put now' put', s.afterPatch t attempt response now put = .patched next now' put'

/-- The native client with chunks of the same size. -/
def Setup.native : Uploader.Client Meta := { s.client with maxChunkSize := max s.chunkSize 1 }

/-- Having sent the same chunk, both clients go on from the same offsets. -/
def Setup.Agrees (t : Transfer) (attempt : Nat)
    (response : Except Uploader.Error Uploader.Response) : Prop :=
  ∀ (body : Bytes) (next : Nat), body.length = s.chunkEnd t - t.offset →
    (s.Accepts t attempt response next ↔
      Uploader.PatchAccepts s.native t.url t.upload.file.size t.offset body response next)

/-- The response does not acknowledge bytes of the file beyond the chunk just sent. -/
def Setup.Within (t : Transfer) (response : Except Uploader.Error Uploader.Response) : Prop :=
  ∀ offset, Uploader.readAck "upload chunk" response = .ok offset →
    offset ≤ s.chunkEnd t ∨ t.upload.file.size < offset

variable {s} {t : Transfer} {attempt : Nat}
  {response : Except Uploader.Error Uploader.Response}

theorem accepts_iff {next : Nat} : s.Accepts t attempt response next ↔
    Uploader.readAck "upload chunk" response = .ok next ∧
      t.offset < next ∧ next ≤ t.upload.file.size := by
  unfold Setup.Accepts Setup.afterPatch
  cases hack : Uploader.readAck "upload chunk" response with
  | error e =>
    constructor
    · rintro ⟨now, put, now', put', h⟩
      dsimp only at h
      split at h <;> cases h
    · rintro ⟨h, -⟩
      cases h
  | ok offset =>
    constructor
    · rintro ⟨now, put, now', put', h⟩
      dsimp only at h
      split at h
      · next hvalid =>
        cases h
        exact ⟨rfl, validatePatchOffset_iff.mp hvalid⟩
      · cases h
    · rintro ⟨h, hnext⟩
      obtain rfl := Except.ok.inj h
      refine ⟨0, none, 0, none, ?_⟩
      dsimp only
      rw [validatePatchOffset_iff.mpr hnext]

theorem chunk_bounds (hlt : t.offset < t.upload.file.size) :
    t.offset < s.chunkEnd t ∧ s.chunkEnd t ≤ t.upload.file.size := by
  unfold Setup.chunkEnd
  omega

theorem native_accepts_iff {body : Bytes} {next : Nat} (hlt : t.offset < t.upload.file.size)
    (hbody : body.length = s.chunkEnd t - t.offset) :
    Uploader.PatchAccepts s.native t.url t.upload.file.size t.offset body response next ↔
      Uploader.readAck "upload chunk" response = .ok next ∧
        t.offset < next ∧ next ≤ s.chunkEnd t := by
  have hend := chunk_bounds (s := s) hlt
  have hpos : body ≠ [] := List.ne_nil_of_length_pos (by omega)
  have hlen : body.length ≤ min (t.upload.file.size - t.offset) s.native.maxChunkSize := by
    have hchunk : s.native.maxChunkSize = max s.chunkSize 1 := rfl
    rw [hbody, hchunk, Setup.chunkEnd]
    omega
  rw [Uploader.patchAccepts_iff _ hlt hpos hlen,
    Uploader.readAck_ok_congr "patch upload" "upload chunk"]
  refine and_congr_right fun hack => ?_
  rw [Uploader.validatePatchAdvance_iff (Uploader.readAck_le hack), hbody]
  omega

/-- The engine checks that an acknowledgement advances and stays inside the file, but not
that it stays inside what was sent. -/
theorem agrees_iff (hlt : t.offset < t.upload.file.size) :
    s.Agrees t attempt response ↔ s.Within t response := by
  have hend := chunk_bounds (s := s) hlt
  constructor
  · intro h offset hack
    by_contra hbeyond
    obtain ⟨hsent, hsize⟩ := not_or.mp hbeyond
    have haccepts : s.Accepts t attempt response offset := accepts_iff.mpr ⟨hack, by omega, by omega⟩
    have hbody : (List.replicate (s.chunkEnd t - t.offset) 0 : Bytes).length =
        s.chunkEnd t - t.offset := List.length_replicate
    obtain ⟨-, -, hle⟩ := (native_accepts_iff hlt hbody).mp ((h _ offset hbody).mp haccepts)
    exact hsent hle
  · intro h body next hbody
    rw [accepts_iff, native_accepts_iff hlt hbody]
    refine and_congr_right fun hack => ?_
    have hwithin := h next hack
    omega

/-! ## What was sent and reported -/

variable (s)

/-- The bodies that were acknowledged, with the acknowledged offset, and the offsets the
server reported to a HEAD or a creation. -/
structure Receipts where
  bodies : List (Nat × Nat × Nat)
  reported : List Nat

/-- The byte was part of an acknowledged body, before the acknowledged offset, or lies before
a reported offset. -/
def Receipts.Covers (c : Receipts) (i : Nat) : Prop :=
  (∃ b ∈ c.bodies, b.1 ≤ i ∧ i < b.2.1 ∧ i < b.2.2) ∨ ∃ offset ∈ c.reported, i < offset

def Receipts.none : Receipts := ⟨[], []⟩

/-- A new upload begins with nothing but the offset it was opened at. -/
def Setup.receive (c : Receipts) (engine : Engine) (m : Worker.Move) : Receipts :=
  match engine, m with
  | .creating _ _, .created _ offset _ _ => ⟨[], [offset]⟩
  | .patching t _, .patched offset _ _ =>
    { c with bodies := (t.offset, s.chunkEnd t, offset) :: c.bodies }
  | .recovering _ _, .recovered offset _ _ => { c with reported := offset :: c.reported }
  | _, _ => c

/-- A worker and what its server has received. -/
structure Traced where
  storage : Storage
  worker : Worker
  receipts : Receipts

inductive Traced.Step : Traced → Action → Traced → Option Report → Prop
  | send {x : Traced} {cmd : UploadCommand} :
      Step x (.send cmd) { x with worker := x.worker.send cmd } none
  | start {x : Traced} {u : Upload} :
      Step x (.start u) { x with worker := x.worker.start u } none
  | move {x : Traced} {a : Action} {m : Worker.Move} {storage' : Storage} {w' : Worker}
      {report : Option Report} : s.move? x.worker.engine a = some m →
      x.worker.step s.config x.storage m = some (storage', w', report) →
      Step x a ⟨storage', w', s.receive x.receipts x.worker.engine m⟩ report

/-- The runs of a new worker; `allowed` restricts what happens around it. -/
inductive Traced.Run (allowed : Engine → Action → Prop) : Traced → Prop
  | new (storage : Storage) : Run allowed ⟨storage, .new, .none⟩
  | step {x y : Traced} {a : Action} {report : Option Report} : Run allowed x →
      allowed x.worker.engine a → Traced.Step s x a y report → Run allowed y

/-- No PATCH is answered by an offset inside the file and beyond the chunk just sent. -/
def Setup.Modest (engine : Engine) (a : Action) : Prop :=
  ∀ t attempt response now put, engine = .patching t attempt →
    a = .answer (.patch response now put) → s.Within t response

/-! ## What a step preserves -/

/-- The transfer of the chunk loop. -/
def Engine.transfer? : Engine → Option Transfer
  | .idle => none
  | .creating _ _ => none
  | .patching t _ => some t
  | .recovering t _ => some t
  | .backingOff t _ _ => some t
  | .parked t => some t

def Receipts.CoversTo (c : Receipts) (n : Nat) : Prop := ∀ i, i < n → c.Covers i

/-- The chunk loop is short of the end of the file, and everything before its offset was
sent or reported. -/
def Sound (w : Worker) (c : Receipts) : Prop :=
  ∀ t, w.engine.transfer? = some t → t.offset < t.upload.file.size ∧ c.CoversTo t.offset

/-- The outcome of a step from `engine` is sound, and an upload that it completes was sent or
reported as a whole. -/
def Outcome (engine : Engine) (c : Receipts) (e : Effect) : Prop :=
  Sound e.2.1 c ∧ ∀ id, e.2.2 = some (.completed id) → ∃ ρ, engine.run? = some ρ ∧
    ρ.upload.itemId = id ∧ c.CoversTo ρ.upload.file.size

variable {s} {c : Receipts} {w : Worker} {storage : Storage} {engine : Engine}

theorem sound_of_transfer (h : w.engine.transfer? = none) : Sound w c := by
  intro t ht
  rw [h] at ht
  cases ht

theorem outcome_quiet {storage' : Storage} {w' : Worker} (h : Sound w' c) :
    Outcome engine c (storage', w', none) :=
  ⟨h, fun _ hid => nomatch hid⟩

theorem outcome_failed {u : Upload} {e : TusError} :
    Outcome engine c (w.failed u e storage) :=
  ⟨sound_of_transfer rfl, fun _ hid => nomatch hid⟩

theorem sound_same {t' : Transfer} (ht : t'.offset < t'.upload.file.size) (hc : c.CoversTo t'.offset)
    (hw : w.engine.transfer? = some t') : Sound w c := by
  intro t h
  obtain rfl := Option.some.inj (hw.symm.trans h)
  exact ⟨ht, hc⟩

/-- The top of the chunk loop, for an upload whose bytes before its offset are covered. -/
theorem chunkTop_outcome {config : TusConfig} {paused : Bool} {ρ : Run}
    (hrun : engine.run? = some ρ) (hup : t.upload = ρ.upload) (hc : c.CoversTo t.offset) :
    Outcome engine c (w.chunkTop config t paused storage) := by
  unfold Worker.chunkTop
  split
  · next hend =>
    refine ⟨sound_of_transfer rfl, fun id hid => ?_⟩
    cases hid
    exact ⟨ρ, hrun, by rw [hup], fun i hi => hc i (hi.trans_le (hup ▸ hend))⟩
  · next hend =>
    have hlt := Nat.lt_of_not_le hend
    split
    · refine outcome_quiet (sound_same hlt hc ?_)
      cases paused <;> rfl
    · exact outcome_quiet (sound_same hlt hc rfl)
    · exact outcome_quiet (sound_same hlt hc rfl)
    · exact outcome_quiet (sound_of_transfer rfl)
    · exact outcome_quiet (sound_of_transfer rfl)

/-- A command taken in the chunk loop. -/
theorem takeTransfer_outcome {config : TusConfig} {onPause onResume : Effect} {cmd : UploadCommand}
    (hpause : Outcome engine c onPause) (hresume : Outcome engine c onResume) :
    Outcome engine c (w.takeTransfer config t storage onPause onResume cmd) := by
  cases cmd with
  | abort => exact outcome_quiet (sound_of_transfer rfl)
  | start u => exact outcome_quiet (sound_of_transfer rfl)
  | pause => exact hpause
  | resume => exact hresume

theorem take_outcome {config : TusConfig} {e : Effect} (hs : Sound w c)
    (h : w.take config storage = some e) : Outcome w.engine c e := by
  unfold Worker.take at h
  split at h
  · cases h
  · next cmd rest _ =>
    dsimp only at h
    split at h
    · next hidle =>
      cases h
      cases cmd with
      | abort => exact outcome_quiet (sound_of_transfer (by rw [hidle]; rfl))
      | start u => exact outcome_quiet (sound_of_transfer rfl)
      | pause =>
        refine outcome_quiet (sound_of_transfer ?_)
        split <;> simp [Worker.setStatus, hidle, Engine.transfer?]
      | resume =>
        refine outcome_quiet (sound_of_transfer ?_)
        split <;> simp [Worker.setStatus, hidle, Engine.transfer?]
    · cases h
      cases cmd <;> exact outcome_quiet (sound_of_transfer rfl)
    · cases h
    · next t attempt hengine =>
      cases h
      have hrun : w.engine.run? = some ⟨t.upload, some t.url⟩ := by rw [hengine]; rfl
      have hc := (hs t (by rw [hengine]; rfl)).2
      exact takeTransfer_outcome (chunkTop_outcome hrun rfl hc) (outcome_quiet hs)
    · next t attempt head hengine =>
      cases h
      have hrun : w.engine.run? = some ⟨t.upload, some t.url⟩ := by rw [hengine]; rfl
      obtain ⟨hlt, hc⟩ := hs t (by rw [hengine]; rfl)
      refine takeTransfer_outcome (chunkTop_outcome hrun rfl hc) (outcome_quiet ?_)
      refine sound_same hlt hc ?_
      cases head <;> rfl
    · next t hengine =>
      cases h
      have hrun : w.engine.run? = some ⟨t.upload, some t.url⟩ := by rw [hengine]; rfl
      have hc := (hs t (by rw [hengine]; rfl)).2
      exact takeTransfer_outcome (chunkTop_outcome hrun rfl hc) (chunkTop_outcome hrun rfl hc)

/-- What a step of the engine preserves, if an acknowledgement that it accepts is not beyond
the chunk that was sent. -/
theorem step_sound {m : Worker.Move} {e : Effect} (hs : Sound w c)
    (hack : ∀ t attempt offset now put, w.engine = .patching t attempt →
      m = .patched offset now put → offset ≤ s.chunkEnd t)
    (h : w.step s.config storage m = some e) :
    Outcome w.engine (s.receive c w.engine m) e := by
  cases m with
  | take =>
    have hsame : s.receive c w.engine .take = c := by cases w.engine <;> rfl
    rw [hsame]
    exact take_outcome hs h
  | created url offset now put =>
    simp only [Worker.step] at h
    split at h
    · next u paused hengine =>
      split at h
      · cases h
        rw [hengine]
        exact chunkTop_outcome rfl rfl fun i hi => .inr ⟨offset, List.mem_cons_self, hi⟩
      · cases h
    · cases h
  | createFailed e gone =>
    simp only [Worker.step] at h
    split at h
    · cases h
      exact outcome_failed
    · cases h
  | patched offset now put =>
    simp only [Worker.step] at h
    split at h
    · next t attempt hengine =>
      split at h
      · cases h
        have hc := (hs t (by rw [hengine]; rfl)).2
        have hend := hack t attempt offset now put hengine rfl
        rw [hengine]
        refine chunkTop_outcome rfl rfl fun i hi => ?_
        rcases Nat.lt_or_ge i t.offset with hold | hnew
        · exact (hc i hold).imp_left (Exists.imp fun b hb => hb.imp_left (List.mem_cons_of_mem _))
        · exact .inl ⟨_, List.mem_cons_self, hnew, Nat.lt_of_lt_of_le hi hend, hi⟩
      · cases h
    · cases h
  | patchLost =>
    simp only [Worker.step] at h
    split at h
    · next t attempt hengine =>
      split at h
      · cases h
        rw [hengine]
        obtain ⟨hlt, hc⟩ := hs t (by rw [hengine]; rfl)
        exact outcome_quiet (sound_same hlt hc rfl)
      · cases h
    · cases h
  | recovered offset now put =>
    simp only [Worker.step] at h
    split at h
    · next t attempt hengine =>
      obtain ⟨hlt, hc⟩ := hs t (by rw [hengine]; rfl)
      have hc' : Receipts.CoversTo { c with reported := offset :: c.reported } t.offset :=
        fun i hi => (hc i hi).imp_right (Exists.imp fun o ho => ho.imp_left (List.mem_cons_of_mem _))
      rw [hengine]
      split at h
      · cases h
      · split at h
        · cases h
          exact chunkTop_outcome rfl rfl fun i hi => .inr ⟨offset, List.mem_cons_self, hi⟩
        · cases h
          exact outcome_quiet (sound_same hlt hc' rfl)
    · cases h
  | recoverLost =>
    simp only [Worker.step] at h
    split at h
    · next t attempt hengine =>
      split at h
      · cases h
        rw [hengine]
        obtain ⟨hlt, hc⟩ := hs t (by rw [hengine]; rfl)
        exact outcome_quiet (sound_same hlt hc rfl)
      · cases h
    · cases h
  | elapsed =>
    simp only [Worker.step] at h
    split at h
    · next t attempt head hengine =>
      cases h
      rw [hengine]
      obtain ⟨hlt, hc⟩ := hs t (by rw [hengine]; rfl)
      refine outcome_quiet (sound_same hlt hc ?_)
      cases head <;> rfl
    · cases h
  | failed e =>
    simp only [Worker.step] at h
    split at h
    · cases h
      exact outcome_failed
    · cases h
      exact outcome_failed
    · cases h

/-- Only a response to a PATCH that the engine accepts makes it go on from an acknowledged
offset. -/
theorem move_patched {a : Action} {offset : Nat} {now : Int} {put : Option Storage.Put}
    (h : s.move? (.patching t attempt) a = some (.patched offset now put)) :
    ∃ response now' put', a = .answer (.patch response now' put') ∧
      s.Accepts t attempt response offset := by
  cases a with
  | answer a =>
    cases a with
    | opened result now' put' => cases result <;> cases h
    | patch response now' put' =>
      exact ⟨response, now', put', rfl, now', put', now, put, Option.some.inj h⟩
    | head response now' put' => cases h
  | _ => cases h

theorem traced_step {x y : Traced} {a : Action} {report : Option Report}
    (hs : Sound x.worker x.receipts) (hmodest : s.Modest x.worker.engine a)
    (h : Traced.Step s x a y report) :
    Outcome x.worker.engine y.receipts (y.storage, y.worker, report) := by
  cases h with
  | send => exact outcome_quiet hs
  | start => exact outcome_quiet hs
  | move hmove hstep =>
    refine step_sound hs ?_ hstep
    rintro t attempt offset now put hengine rfl
    rw [hengine] at hmove
    obtain ⟨response, now', put', rfl, haccepts⟩ := move_patched hmove
    obtain ⟨hack, -, hsize⟩ := accepts_iff.mp haccepts
    exact (hmodest t attempt response now' put' hengine rfl offset hack).resolve_right
      (Nat.not_lt.mpr hsize)

theorem traced_run {x : Traced} (h : Traced.Run s s.Modest x) : Sound x.worker x.receipts := by
  induction h with
  | new storage => exact sound_of_transfer rfl
  | step _ hmodest hstep ih => exact (traced_step ih hmodest hstep).1

/-- In every run in which no PATCH is answered by an offset inside the file and beyond the
chunk just sent: both clients react alike exactly to the responses that keep to this, and an
upload that completes on such a step was sent in acknowledged bodies or reported by the
server, every byte of it. -/
theorem acknowledgements_sound {x : Traced} (hrun : Traced.Run s s.Modest x) :
    (∀ t attempt response, x.worker.engine = .patching t attempt →
      (s.Agrees t attempt response ↔ s.Within t response)) ∧
    ∀ a y id, s.Modest x.worker.engine a → Traced.Step s x a y (some (.completed id)) →
      ∃ ρ, x.worker.engine.run? = some ρ ∧ ρ.upload.itemId = id ∧
        y.receipts.CoversTo ρ.upload.file.size := by
  have hs := traced_run hrun
  refine ⟨fun t attempt response hengine => ?_, fun a y id hmodest hstep => ?_⟩
  · exact agrees_iff (hs t (by rw [hengine]; rfl)).1
  · exact (traced_step hs hmodest hstep).2 id rfl

end Engine

/-- Chunks of one byte and no retries. -/
def byteSetup : Setup Unit where
  config := ⟨"https://tus.example/files", 0⟩
  chunkSize := 1
  client := ⟨0, 0, 1, 0, false, .ok, fun _ => .ok ()⟩
  fromClient _ := .cors

/-- A new upload of `size` bytes. -/
def newUpload (size : Nat) : Upload := ⟨1, ⟨"file", size, 0⟩, ⟨none⟩⟩

/-- The response to a PATCH that acknowledges `offset`. -/
def patchResponse (offset : String) : Action :=
  .answer (.patch (.ok ⟨204, none, some offset, none, none, none⟩) 0 none)

/-- The first chunk of an upload is under way. -/
def uploading (size : Nat) (storedAt : Int) : Traced where
  storage := ∅
  worker := ⟨⟨.uploading, 0, some size, some "u", none⟩, [],
    .patching ⟨newUpload size, "u", 0, storedAt⟩ 0⟩
  receipts := ⟨[], [0]⟩

theorem uploading_run {allowed : Engine → Action → Prop} (n : Nat)
    (hallowed : ∀ engine a, (∀ t attempt, engine ≠ .patching t attempt) → allowed engine a) :
    ∃ storedAt, Traced.Run byteSetup allowed (uploading (n + 1) storedAt) := by
  have hstart := Traced.Run.step (.new ∅) (hallowed _ _ nofun)
    (Traced.Step.start (s := byteSetup) (u := newUpload (n + 1)))
  have htaken := hstart.step (a := .take) (hallowed _ _ nofun) (.move rfl rfl)
  have hopened := htaken.step (a := .answer (.opened (.ok ("u", 0)) 0 .failed))
    (hallowed _ _ nofun) (.move (m := .created "u" 0 0 .failed) rfl rfl)
  exact ⟨_, hopened⟩

/-- The whole file is acknowledged after its first byte was sent. -/
theorem skipped_bytes_complete :
    ¬∀ (Meta : Type) (s : Setup Meta) (x : Traced), Traced.Run s (fun _ _ => True) x →
      (∀ t attempt response, x.worker.engine = .patching t attempt → s.Agrees t attempt response) ∧
      ∀ a y id, Traced.Step s x a y (some (.completed id)) →
        ∃ ρ, x.worker.engine.run? = some ρ ∧ ρ.upload.itemId = id ∧
          y.receipts.CoversTo ρ.upload.file.size := by
  intro hclaim
  obtain ⟨storedAt, hrun⟩ := uploading_run 2 fun _ _ _ => trivial
  have hstep : Traced.Step byteSetup (uploading 3 storedAt) (patchResponse "3") _
      (some (.completed 1)) := .move (m := .patched 3 0 none) rfl rfl
  obtain ⟨ρ, hρ, -, hcovers⟩ := (hclaim Unit byteSetup _ hrun).2 _ _ _ hstep
  obtain rfl := Option.some.inj hρ
  rcases hcovers 1 (show 1 < 3 by decide) with ⟨b, hb, hin⟩ | ⟨offset, hoffset, hin⟩
  · obtain rfl := List.mem_singleton.mp hb
    exact absurd hin.2.1 (Nat.lt_irrefl 1)
  · obtain rfl := List.mem_singleton.mp hoffset
    exact absurd hin (Nat.not_lt_zero 1)

/-- A file of one byte, acknowledged after it was sent. -/
theorem acknowledgements_sound_one_byte :
    ∃ x y, Traced.Run byteSetup byteSetup.Modest x ∧
      Traced.Step byteSetup x (patchResponse "1") y (some (.completed 1)) ∧
      y.receipts.CoversTo 1 := by
  have hquiet : ∀ engine a, (∀ t attempt, engine ≠ .patching t attempt) → byteSetup.Modest engine a :=
    fun engine a h t attempt response now put hengine => absurd hengine (h t attempt)
  obtain ⟨storedAt, hrun⟩ := uploading_run 0 hquiet
  have hstep : Traced.Step byteSetup (uploading 1 storedAt) (patchResponse "1") _
      (some (.completed 1)) := .move (m := .patched 1 0 none) rfl rfl
  have hmodest : byteSetup.Modest (uploading 1 storedAt).worker.engine (patchResponse "1") := by
    rintro t attempt response now put hengine haction offset hack
    cases hengine
    cases haction
    have hone : Uploader.readAck "upload chunk"
        (.ok ⟨204, none, some "1", none, none, none⟩) = .ok 1 := rfl
    obtain rfl := Except.ok.inj (hone.symm.trans hack)
    exact .inl (Nat.le_refl 1)
  obtain ⟨ρ, hρ, -, hcovers⟩ := (acknowledgements_sound hrun).2 _ _ _ hmodest hstep
  obtain rfl := Option.some.inj hρ
  exact ⟨_, _, hrun, hstep, hcovers⟩

end Browser

end TusRs
