import TusRs.Browser.Persistence

/-!
# The upload engine of a worker

`dioxus-tus/src/hook.rs`: a worker takes commands from its channel one at a time. Between
two uploads every command is taken; during one, commands are taken while a request or a
backoff is awaited and at the top of the chunk loop, but not while a PATCH is under way.

What the network and the clock do is given by a move. A closed channel, which ends the
worker with its component, is left out.
-/

namespace TusRs

namespace Browser

/-- What the engine reads of the configuration. -/
structure TusConfig where
  endpoint : String
  maxRetries : Nat

/-- What a `Start` carries. No code sees `itemId`, the item it was sent for. -/
structure Upload where
  itemId : Nat
  file : File
  options : TusStartOptions
deriving DecidableEq

def Upload.key (config : TusConfig) (u : Upload) : String := matchKey config.endpoint u.file

inductive UploadCommand where
  | start (u : Upload)
  | pause
  | resume
  | abort
deriving DecidableEq

/-- The locals of the chunk loop. -/
structure Transfer where
  upload : Upload
  url : String
  offset : Nat
  storedAt : Int
deriving DecidableEq

/-- Where the engine is: between uploads, in the request before the chunk loop, in a PATCH,
in the HEAD after a failed one, in a backoff before the next of these, or paused. -/
inductive Engine where
  | idle
  | creating (u : Upload) (paused : Bool)
  | patching (t : Transfer) (attempt : Nat)
  | recovering (t : Transfer) (attempt : Nat)
  | backingOff (t : Transfer) (attempt : Nat) (head : Bool)
  | parked (t : Transfer)
deriving DecidableEq

structure Worker where
  state : TusUploadState
  channel : List UploadCommand
  engine : Engine

/-- How an upload that ran to its end ended. -/
inductive Report where
  | completed (itemId : Nat)
  | failed (itemId : Nat)
deriving DecidableEq

/-- The outcome of a step: the storage, the worker and an upload that came to its end. -/
abbrev Effect := Storage × Worker × Option Report

def TusUploadState.default : TusUploadState := ⟨.idle, 0, none, none, none⟩

/-- The state after an abort inside an upload. -/
def TusUploadState.cleared (state : TusUploadState) : TusUploadState :=
  { state with status := .idle, bytesUploaded := 0, uploadUrl := none, bytesTotal := none }

namespace Worker

def new : Worker := ⟨.default, [], .idle⟩

def send (w : Worker) (cmd : UploadCommand) : Worker := { w with channel := w.channel ++ [cmd] }

/-- `TusUploadHandle::start`: the state is stamped before the command is taken. -/
def start (w : Worker) (u : Upload) : Worker :=
  { w with state := ⟨.uploading, 0, none, none, none⟩ }.send (.start u)

def setStatus (w : Worker) (status : UploadStatus) : Worker :=
  { w with state := { w.state with status := status } }

variable (config : TusConfig)

/-- An upload that was left for an abort. -/
def aborted (w : Worker) : Worker := { w with state := w.state.cleared, engine := .idle }

/-- An upload that was left for another one. -/
def restarted (w : Worker) (u : Upload) : Worker :=
  { w with state := w.state.cleared, engine := .creating u false }

/-- An upload that failed. -/
def failed (w : Worker) (u : Upload) (e : TusError) (storage : Storage) : Effect :=
  (storage, { w with state := { w.state with status := .error, error := some e }, engine := .idle },
    some (.failed u.itemId))

/-- The end of `run_upload`. -/
def completed (w : Worker) (t : Transfer) (storage : Storage) : Effect :=
  let state := { w.state with status := .complete, bytesUploaded := t.upload.file.size }
  (storage.remove (Upload.key config t.upload), { w with state := state, engine := .idle },
    some (.completed t.upload.itemId))

/-- The top of the chunk loop: at most one command is taken, without waiting for it. -/
def chunkTop (w : Worker) (t : Transfer) (paused : Bool) (storage : Storage) : Effect :=
  if t.upload.file.size ≤ t.offset then completed config w t storage
  else match w.channel with
    | [] => (storage, { w with engine := if paused then .parked t else .patching t 0 }, none)
    | .pause :: rest =>
      (storage, { w.setStatus .paused with channel := rest, engine := .parked t }, none)
    | .resume :: rest =>
      (storage, { w.setStatus .uploading with channel := rest, engine := .patching t 0 }, none)
    | .abort :: rest =>
      (storage.remove (Upload.key config t.upload), { w with channel := rest }.aborted, none)
    | .start u :: rest =>
      (storage.remove (Upload.key config t.upload), { w with channel := rest }.restarted u, none)

/-- The outer command loop. -/
def takeIdle (w : Worker) (storage : Storage) : UploadCommand → Effect
  | .abort => (storage, { w with state := { w.state.cleared with error := none } }, none)
  | .pause => (storage, if w.state.status = .uploading then w.setStatus .paused else w, none)
  | .resume => (storage, if w.state.status = .paused then w.setStatus .uploading else w, none)
  | .start u => (storage, { w with engine := .creating u false }, none)

/-- `race_pre_loop_request`: an upload that is being resumed gives up its entry. -/
def takeCreating (w : Worker) (u : Upload) (storage : Storage) : UploadCommand → Effect
  | .abort => (if u.options.existingUrl.isSome then storage.remove (Upload.key config u) else storage,
      w.aborted, none)
  | .start v => (if u.options.existingUrl.isSome then storage.remove (Upload.key config u) else storage,
      w.restarted v, none)
  | .pause => (storage, { w with engine := .creating u true }, none)
  | .resume => (storage, { w with engine := .creating u false }, none)

/-- A command during the chunk loop; `onPause` and `onResume` say what the place it is taken
at makes of these. -/
def takeTransfer (w : Worker) (t : Transfer) (storage : Storage) (onPause onResume : Effect) :
    UploadCommand → Effect
  | .abort => (storage.remove (Upload.key config t.upload), w.aborted, none)
  | .start u => (storage.remove (Upload.key config t.upload), w.restarted u, none)
  | .pause => onPause
  | .resume => onResume

/-- What a backoff leads to. -/
def afterBackoff (w : Worker) (t : Transfer) (attempt : Nat) (head : Bool) : Worker :=
  { w with engine := if head then .recovering t attempt else .patching t attempt }

/-- The next command is taken where one is waited for. -/
def take (w : Worker) (storage : Storage) : Option Effect :=
  match w.channel with
  | [] => none
  | cmd :: rest =>
    let w := { w with channel := rest }
    match w.engine with
    | .idle => some (takeIdle w storage cmd)
    | .creating u _ => some (takeCreating config w u storage cmd)
    | .patching _ _ => none
    | .recovering t _ =>
      some (takeTransfer config w t storage (chunkTop config (w.setStatus .paused) t true storage)
        (storage, w, none) cmd)
    | .backingOff t attempt head =>
      some (takeTransfer config w t storage (chunkTop config (w.setStatus .paused) t true storage)
        (storage, w.afterBackoff t attempt head, none) cmd)
    | .parked t =>
      some (takeTransfer config w t storage (chunkTop config w t true storage)
        (chunkTop config (w.setStatus .uploading) t false storage) cmd)

/-- The entry that an upload persists. -/
def entry (t : Transfer) : ResumableEntry where
  matchKey := Upload.key config t.upload
  endpoint := config.endpoint
  filename := t.upload.file.name
  fileSize := t.upload.file.size
  lastModified := t.upload.file.lastModified
  uploadUrl := t.url
  bytesUploaded := t.offset
  storedAt := t.storedAt

/-- The chunk loop goes on from a new offset. Whether the entry is due to be rewritten
depends on the time and on what was last written; `put` is `none` when it is not. -/
def advanced (w : Worker) (t : Transfer) (offset : Nat) (now : Int) (put : Option Storage.Put)
    (storage : Storage) : Effect :=
  let t := { t with offset := offset }
  let storage := match put with
    | some put => storage.put (entry config t) now put
    | none => storage
  chunkTop config { w with state := { w.state with bytesUploaded := offset } } t false storage

/-- What the network, the clock and the channel can do to a worker. -/
inductive Move where
  | take
  | created (url : String) (offset : Nat) (now : Int) (put : Storage.Put)
  | createFailed (e : TusError) (gone : Bool)
  | patched (offset : Nat) (now : Int) (put : Option Storage.Put)
  | patchLost
  | recovered (offset : Nat) (now : Int) (put : Option Storage.Put)
  | recoverLost
  | elapsed
  | failed (e : TusError)

/-- The chunk loop is entered. An upload that is resumed keeps its URL, and the entry the
time it was first stored. -/
def begun (w : Worker) (u : Upload) (paused : Bool) (url : String) (offset : Nat) (now : Int)
    (put : Storage.Put) (storage : Storage) : Effect :=
  let t : Transfer := {
    upload := u
    url := u.options.existingUrl.getD url
    offset := offset
    storedAt := ((storage.get config.endpoint (Upload.key config u) now).map
      ResumableEntry.storedAt).getD now }
  let state : TusUploadState := {
    status := if paused then .paused else .uploading
    bytesUploaded := offset
    bytesTotal := some u.file.size
    uploadUrl := some t.url
    error := none }
  chunkTop config { w with state := state } t paused (storage.put (entry config t) now put)

def step (w : Worker) (storage : Storage) : Move → Option Effect
  | .take => take config w storage
  | .created url offset now put => match w.engine with
    | .creating u paused =>
      if offset ≤ u.file.size then some (begun config w u paused url offset now put storage) else none
    | _ => none
  | .createFailed e gone => match w.engine with
    | .creating u _ =>
      -- 400, 404 and 410 tell that the resource is gone
      some (w.failed u e (if gone ∧ u.options.existingUrl.isSome then
        storage.remove (Upload.key config u) else storage))
    | _ => none
  | .patched offset now put => match w.engine with
    | .patching t _ =>
      if t.offset < offset ∧ offset ≤ t.upload.file.size then
        some (advanced config w t offset now put storage)
      else none
    | _ => none
  | .patchLost => match w.engine with
    | .patching t attempt =>
      if attempt < config.maxRetries then
        some (storage, { w with engine := .recovering t attempt }, none)
      else none
    | _ => none
  | .recovered offset now put => match w.engine with
    | .recovering t attempt =>
      if t.upload.file.size < offset ∨ offset < t.offset then none
      else if t.offset < offset then some (advanced config w t offset now put storage)
      else some (storage, { w with engine := .backingOff t (attempt + 1) false }, none)
    | _ => none
  | .recoverLost => match w.engine with
    | .recovering t attempt =>
      if attempt < config.maxRetries then
        some (storage, { w with engine := .backingOff t (attempt + 1) true }, none)
      else none
    | _ => none
  | .elapsed => match w.engine with
    | .backingOff t attempt head => some (storage, w.afterBackoff t attempt head, none)
    | _ => none
  | .failed e => match w.engine with
    | .patching t _ => some (w.failed t.upload e storage)
    | .recovering t _ => some (w.failed t.upload e storage)
    | _ => none

end Worker

/-! ## What a step can do -/

/-- An upload under way and the URL it is bound to; a new upload has none before the server
has answered. -/
structure Run where
  upload : Upload
  url : Option String

def Engine.run? : Engine → Option Run
  | .idle => none
  | .creating u _ => some ⟨u, u.options.existingUrl⟩
  | .patching t _ => some ⟨t.upload, some t.url⟩
  | .recovering t _ => some ⟨t.upload, some t.url⟩
  | .backingOff t _ _ => some ⟨t.upload, some t.url⟩
  | .parked t => some ⟨t.upload, some t.url⟩

def UploadStatus.isActive : UploadStatus → Bool
  | .uploading | .paused => true
  | _ => false

/-- Commands that neither begin nor end an upload. -/
def UploadCommand.isToggle : UploadCommand → Bool
  | .pause | .resume => true
  | _ => false

/-- Entries are only taken away. -/
def Storage.Shrinks (storage storage' : Storage) : Prop :=
  ∀ key entry, storage'.lookup key = some entry → storage.lookup key = some entry

/-- At most the entry under `key` is written, with the URL the upload is bound to. -/
def Storage.Writes (storage storage' : Storage) (key : String) (url : Option String) : Prop :=
  ∀ k entry, storage'.lookup k = some entry → storage.lookup k = some entry ∨
    k = key ∧ entry.matchKey = key ∧ some entry.uploadUrl = url

namespace Worker

variable (config : TusConfig)

/-- The URL of an upload after a move: it is bound once, when the server has answered. -/
def Binds (m : Move) (ρ : Run) (url : Option String) : Prop :=
  url = ρ.url ∨ ρ.url = ρ.upload.options.existingUrl ∧
    ∃ new offset now put, m = .created new offset now put ∧
      url = some (ρ.upload.options.existingUrl.getD new)

/-- Everything a step of a worker can do. -/
inductive Transition (storage : Storage) (w : Worker) (m : Move) : Effect → Prop
  | command {cmd : UploadCommand} {w' : Worker} : w.engine = .idle →
      w.channel = cmd :: w'.channel → (∀ u, cmd ≠ .start u) → w'.engine = .idle →
      (cmd = .abort → w'.state.status = .idle ∧ w'.state.uploadUrl = none) →
      (cmd ≠ .abort → w'.state.uploadUrl = w.state.uploadUrl ∧
        (w'.state.status = w.state.status ∨
          w.state.status.isActive = true ∧ w'.state.status.isActive = true)) →
      Transition storage w m (storage, w', none)
  | begins {u : Upload} {w' : Worker} : w.engine = .idle → w.channel = .start u :: w'.channel →
      w'.engine = .creating u false → w'.state = w.state →
      Transition storage w m (storage, w', none)
  | continues {ρ : Run} {url : Option String} {toggles : List UploadCommand} {w' : Worker}
      {storage' : Storage} : w.engine.run? = some ρ → w.channel = toggles ++ w'.channel →
      (∀ cmd ∈ toggles, cmd.isToggle = true) → w'.engine.run? = some ⟨ρ.upload, url⟩ →
      Binds m ρ url → (w'.state.status = w.state.status ∨ w'.state.status.isActive = true) →
      (w'.state.uploadUrl = w.state.uploadUrl ∨ w'.state.uploadUrl = url) →
      storage.Writes storage' (ρ.upload.key config) url →
      Transition storage w m (storage', w', none)
  | aborts {ρ : Run} {toggles : List UploadCommand} {w' : Worker} {storage' : Storage} :
      w.engine.run? = some ρ → w.channel = toggles ++ .abort :: w'.channel →
      (∀ cmd ∈ toggles, cmd.isToggle = true) → w'.engine = .idle → w'.state.status = .idle →
      w'.state.uploadUrl = none → storage.Shrinks storage' →
      Transition storage w m (storage', w', none)
  | restarts {ρ : Run} {u : Upload} {toggles : List UploadCommand} {w' : Worker}
      {storage' : Storage} : w.engine.run? = some ρ → w.channel = toggles ++ .start u :: w'.channel →
      (∀ cmd ∈ toggles, cmd.isToggle = true) → w'.engine = .creating u false →
      w'.state.status = .idle → w'.state.uploadUrl = none → storage.Shrinks storage' →
      Transition storage w m (storage', w', none)
  | completes {ρ : Run} {url : Option String} {w' : Worker} {toggles : List UploadCommand}
      {storage' : Storage} : w.engine.run? = some ρ → w.channel = toggles ++ w'.channel →
      (∀ cmd ∈ toggles, cmd.isToggle = true) → w'.engine = .idle → w'.state.status = .complete →
      Binds m ρ url → (w'.state.uploadUrl = w.state.uploadUrl ∨ w'.state.uploadUrl = url) →
      storage.Shrinks storage' →
      Transition storage w m (storage', w', some (.completed ρ.upload.itemId))
  | fails {ρ : Run} {w' : Worker} {storage' : Storage} : w.engine.run? = some ρ →
      w'.channel = w.channel → w'.engine = .idle → w'.state.status = .error →
      w'.state.uploadUrl = w.state.uploadUrl → storage.Shrinks storage' →
      Transition storage w m (storage', w', some (.failed ρ.upload.itemId))

variable {config} {storage : Storage} {w : Worker} {m : Move}

theorem shrinks_refl (storage : Storage) : storage.Shrinks storage := fun _ _ h => h

theorem shrinks_remove (key : String) : storage.Shrinks (storage.remove key) :=
  fun _ _ h => Storage.lookup_of_lookup_erase h

/-- What an upload has written goes with its entry. -/
theorem shrinks_of_writes {storage' : Storage} {key : String} {url : Option String}
    (h : storage.Writes storage' key url) : storage.Shrinks (storage'.remove key) := by
  intro k entry hk
  by_cases heq : k = key
  · rw [heq] at hk
    cases (AList.lookup_erase key storage').symm.trans hk
  · rw [show (storage'.remove key).lookup k = storage'.lookup k from AList.lookup_erase_ne heq] at hk
    exact (h k entry hk).resolve_right fun hbad => heq hbad.1

/-- The top of the chunk loop, for an upload that got there from `w`. -/
theorem chunkTop_cases {w₀ : Worker} {ρ : Run} {t : Transfer} {paused : Bool} {storage₀ : Storage}
    {toggles : List UploadCommand} (hrun : w.engine.run? = some ρ) (hup : t.upload = ρ.upload)
    (hurl : Binds m ρ (some t.url)) (hchan : w.channel = toggles ++ w₀.channel)
    (htog : ∀ cmd ∈ toggles, cmd.isToggle = true)
    (hstat : w₀.state.status = w.state.status ∨ w₀.state.status.isActive = true)
    (hmirror : w₀.state.uploadUrl = w.state.uploadUrl ∨ w₀.state.uploadUrl = some t.url)
    (hw : storage.Writes storage₀ (ρ.upload.key config) (some t.url)) :
    Transition config storage w m (chunkTop config w₀ t paused storage₀) := by
  have hgone : storage.Shrinks (storage₀.remove (t.upload.key config)) := by
    rw [hup]
    exact shrinks_of_writes hw
  have htog' : ∀ c : UploadCommand, c.isToggle = true → ∀ cmd ∈ toggles ++ [c], cmd.isToggle = true := by
    intro c hc cmd hm
    rcases List.mem_append.mp hm with hm | hm
    · exact htog cmd hm
    · rw [List.mem_singleton.mp hm]
      exact hc
  unfold chunkTop
  split
  · unfold completed
    rw [hup] at hgone ⊢
    exact .completes hrun hchan htog rfl rfl hurl hmirror hgone
  · split
    · next hnil =>
      have hchan' : w.channel = toggles ++ w₀.channel := hchan
      cases paused with
      | true => exact .continues hrun hchan' htog (by rw [← hup]; rfl) hurl hstat hmirror hw
      | false => exact .continues hrun hchan' htog (by rw [← hup]; rfl) hurl hstat hmirror hw
    · next rest hrest =>
      rw [hrest, List.append_cons] at hchan
      exact .continues hrun hchan (htog' _ rfl) (by rw [← hup]; rfl) hurl (.inr rfl) hmirror hw
    · next rest hrest =>
      rw [hrest, List.append_cons] at hchan
      exact .continues hrun hchan (htog' _ rfl) (by rw [← hup]; rfl) hurl (.inr rfl) hmirror hw
    · next rest hrest =>
      rw [hrest] at hchan
      exact .aborts hrun hchan htog rfl rfl rfl hgone
    · next u rest hrest =>
      rw [hrest] at hchan
      exact .restarts hrun hchan htog rfl rfl rfl hgone

theorem writes_refl (storage : Storage) (key : String) (url : Option String) :
    storage.Writes storage key url := fun _ _ h => .inl h

theorem writes_put (t : Transfer) (now : Int) (put : Storage.Put) :
    storage.Writes (storage.put (entry config t) now put) (t.upload.key config) (some t.url) := by
  intro k e hk
  rcases Storage.lookup_put hk with h | ⟨hkey, rfl⟩
  · exact .inl h
  · exact .inr ⟨hkey, rfl, rfl⟩

/-- A command taken in the chunk loop, for a place that takes no other command for it. -/
theorem takeTransfer_cases {cmd : UploadCommand} {rest : List UploadCommand} {t : Transfer}
    {onPause onResume : Effect} (hchan : w.channel = cmd :: rest)
    (hrun : w.engine.run? = some ⟨t.upload, some t.url⟩)
    (hpause : cmd = .pause → Transition config storage w m onPause)
    (hresume : cmd = .resume → Transition config storage w m onResume) :
    Transition config storage w m
      (takeTransfer config { w with channel := rest } t storage onPause onResume cmd) := by
  have hnone : ∀ cmd ∈ ([] : List UploadCommand), cmd.isToggle = true := fun _ h => nomatch h
  cases cmd with
  | abort => exact .aborts hrun hchan hnone rfl rfl rfl (shrinks_remove _)
  | start u => exact .restarts hrun hchan hnone rfl rfl rfl (shrinks_remove _)
  | pause => exact hpause rfl
  | resume => exact hresume rfl

theorem take_cases {e : Effect} (h : take config w storage = some e) :
    Transition config storage w .take e := by
  have hone : ∀ {c : UploadCommand}, c.isToggle = true → ∀ cmd ∈ [c], cmd.isToggle = true := by
    intro c hc cmd hm
    rw [List.mem_singleton.mp hm]
    exact hc
  have hnone : ∀ cmd ∈ ([] : List UploadCommand), cmd.isToggle = true := fun _ h => nomatch h
  unfold take at h
  split at h
  · cases h
  · next cmd rest hchan =>
    dsimp only at h
    split at h
    · next hidle =>
      cases h
      cases cmd with
      | abort => exact .command hidle hchan nofun hidle (fun _ => ⟨rfl, rfl⟩) (fun hne => absurd rfl hne)
      | start u => exact .begins hidle hchan rfl rfl
      | pause =>
        simp only [takeIdle]
        split
        · next hup => exact .command hidle hchan nofun hidle nofun fun _ => ⟨rfl, .inr ⟨by rw [hup]; rfl, rfl⟩⟩
        · exact .command hidle hchan nofun hidle nofun fun _ => ⟨rfl, .inl rfl⟩
      | resume =>
        simp only [takeIdle]
        split
        · next hup => exact .command hidle hchan nofun hidle nofun fun _ => ⟨rfl, .inr ⟨by rw [hup]; rfl, rfl⟩⟩
        · exact .command hidle hchan nofun hidle nofun fun _ => ⟨rfl, .inl rfl⟩
    · next u paused heng =>
      cases h
      have hrun : w.engine.run? = some ⟨u, u.options.existingUrl⟩ := by rw [heng]; rfl
      have hgone : storage.Shrinks
          (if u.options.existingUrl.isSome then storage.remove (u.key config) else storage) := by
        split
        · exact shrinks_remove _
        · exact shrinks_refl _
      cases cmd with
      | abort => exact .aborts hrun hchan hnone rfl rfl rfl hgone
      | start v => exact .restarts hrun hchan hnone rfl rfl rfl hgone
      | pause => exact .continues hrun hchan (hone rfl) rfl (.inl rfl) (.inl rfl) (.inl rfl) (writes_refl _ _ _)
      | resume => exact .continues hrun hchan (hone rfl) rfl (.inl rfl) (.inl rfl) (.inl rfl) (writes_refl _ _ _)
    · cases h
    · next t attempt heng =>
      cases h
      have hrun : w.engine.run? = some ⟨t.upload, some t.url⟩ := by rw [heng]; rfl
      refine takeTransfer_cases hchan hrun ?_ ?_
      · rintro rfl
        exact chunkTop_cases hrun rfl (.inl rfl) hchan (hone rfl) (.inr rfl) (.inl rfl) (writes_refl _ _ _)
      · rintro rfl
        exact .continues hrun hchan (hone rfl) hrun (.inl rfl) (.inl rfl) (.inl rfl) (writes_refl _ _ _)
    · next t attempt head heng =>
      cases h
      have hrun : w.engine.run? = some ⟨t.upload, some t.url⟩ := by rw [heng]; rfl
      refine takeTransfer_cases hchan hrun ?_ ?_
      · rintro rfl
        exact chunkTop_cases hrun rfl (.inl rfl) hchan (hone rfl) (.inr rfl) (.inl rfl) (writes_refl _ _ _)
      · rintro rfl
        refine .continues hrun hchan (hone rfl) ?_ (.inl rfl) (.inl rfl) (.inl rfl) (writes_refl _ _ _)
        cases head <;> rfl
    · next t heng =>
      cases h
      have hrun : w.engine.run? = some ⟨t.upload, some t.url⟩ := by rw [heng]; rfl
      refine takeTransfer_cases hchan hrun ?_ ?_
      · rintro rfl
        exact chunkTop_cases hrun rfl (.inl rfl) hchan (hone rfl) (.inl rfl) (.inl rfl) (writes_refl _ _ _)
      · rintro rfl
        exact chunkTop_cases hrun rfl (.inl rfl) hchan (hone rfl) (.inr rfl) (.inl rfl) (writes_refl _ _ _)

theorem advanced_cases {t : Transfer} {offset : Nat} {now : Int} {put : Option Storage.Put}
    (hrun : w.engine.run? = some ⟨t.upload, some t.url⟩) :
    Transition config storage w m (advanced config w t offset now put storage) := by
  have hchan : w.channel = [] ++ w.channel := rfl
  refine chunkTop_cases hrun rfl (.inl rfl) hchan (fun _ h => nomatch h) (.inl rfl) (.inl rfl) ?_
  cases put with
  | none => exact writes_refl _ _ _
  | some put => exact writes_put { t with offset := offset } now put

/-- Every step is one of these transitions. -/
theorem step_cases {e : Effect} (h : step config w storage m = some e) :
    Transition config storage w m e := by
  have hnone : ∀ cmd ∈ ([] : List UploadCommand), cmd.isToggle = true := fun _ h => nomatch h
  have hchan : w.channel = [] ++ w.channel := rfl
  cases m with
  | take => exact take_cases h
  | created url offset now put =>
    simp only [step] at h
    split at h
    · next u paused heng =>
      split at h
      · cases h
        have hrun : w.engine.run? = some ⟨u, u.options.existingUrl⟩ := by rw [heng]; rfl
        refine chunkTop_cases hrun rfl ?_ hchan hnone (.inr ?_) (.inr rfl) ?_
        · exact .inr ⟨rfl, url, offset, now, put, rfl, rfl⟩
        · cases paused <;> rfl
        · exact writes_put _ now put
      · cases h
    · cases h
  | createFailed e gone =>
    simp only [step] at h
    split at h
    · next u paused heng =>
      cases h
      have hrun : w.engine.run? = some ⟨u, u.options.existingUrl⟩ := by rw [heng]; rfl
      refine .fails hrun rfl rfl rfl rfl ?_
      split
      · exact shrinks_remove _
      · exact shrinks_refl _
    · cases h
  | patched offset now put =>
    simp only [step] at h
    split at h
    · next t attempt heng =>
      split at h
      · cases h
        exact advanced_cases (by rw [heng]; rfl)
      · cases h
    · cases h
  | patchLost =>
    simp only [step] at h
    split at h
    · next t attempt heng =>
      split at h
      · cases h
        have hrun : w.engine.run? = some ⟨t.upload, some t.url⟩ := by rw [heng]; rfl
        exact .continues hrun hchan hnone rfl (.inl rfl) (.inl rfl) (.inl rfl)
          (writes_refl _ _ _)
      · cases h
    · cases h
  | recovered offset now put =>
    simp only [step] at h
    split at h
    · next t attempt heng =>
      have hrun : w.engine.run? = some ⟨t.upload, some t.url⟩ := by rw [heng]; rfl
      split at h
      · cases h
      · split at h
        · cases h
          exact advanced_cases hrun
        · cases h
          exact .continues hrun hchan hnone rfl (.inl rfl) (.inl rfl) (.inl rfl)
            (writes_refl _ _ _)
    · cases h
  | recoverLost =>
    simp only [step] at h
    split at h
    · next t attempt heng =>
      split at h
      · cases h
        have hrun : w.engine.run? = some ⟨t.upload, some t.url⟩ := by rw [heng]; rfl
        exact .continues hrun hchan hnone rfl (.inl rfl) (.inl rfl) (.inl rfl)
          (writes_refl _ _ _)
      · cases h
    · cases h
  | elapsed =>
    simp only [step] at h
    split at h
    · next t attempt head heng =>
      cases h
      have hrun : w.engine.run? = some ⟨t.upload, some t.url⟩ := by rw [heng]; rfl
      refine .continues hrun hchan hnone ?_ (.inl rfl) (.inl rfl) (.inl rfl)
        (writes_refl _ _ _)
      cases head <;> rfl
    · cases h
  | failed e =>
    simp only [step] at h
    split at h
    · next t attempt heng =>
      cases h
      have hrun : w.engine.run? = some ⟨t.upload, some t.url⟩ := by rw [heng]; rfl
      exact .fails hrun rfl rfl rfl rfl (shrinks_refl _)
    · next t attempt heng =>
      cases h
      have hrun : w.engine.run? = some ⟨t.upload, some t.url⟩ := by rw [heng]; rfl
      exact .fails hrun rfl rfl rfl rfl (shrinks_refl _)
    · cases h

theorem run_ne_of_idle {w : Worker} (h : w.engine = .idle) {ρ : Run} :
    w.engine.run? ≠ some ρ := by
  rw [h]
  exact nofun

/-- The channel only loses commands. -/
theorem mem_channel_of_step {storage' : Storage} {w' : Worker} {r : Option Report}
    (ht : w.Transition config storage m (storage', w', r)) {cmd : UploadCommand} (hm : cmd ∈ w'.channel) : cmd ∈ w.channel := by
  cases ht with
  | command _ hchan _ _ _ _ => exact hchan ▸ List.mem_cons_of_mem _ hm
  | begins _ hchan _ _ => exact hchan ▸ List.mem_cons_of_mem _ hm
  | continues _ hchan _ _ _ _ _ _ => exact hchan ▸ List.mem_append_right _ hm
  | aborts _ hchan _ _ _ _ _ =>
    exact hchan ▸ List.mem_append_right _ (List.mem_cons_of_mem _ hm)
  | restarts _ hchan _ _ _ _ _ =>
    exact hchan ▸ List.mem_append_right _ (List.mem_cons_of_mem _ hm)
  | completes _ hchan _ _ _ _ _ _ => exact hchan ▸ List.mem_append_right _ hm
  | fails _ hchan _ _ _ _ => exact hchan ▸ hm

end Worker

end Browser

end TusRs
