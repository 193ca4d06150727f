import TusRs.Browser.Session

/-!
# One upload per URL

An upload URL goes from the server to a worker, from there into the persisted entry of the
file's match key and onto the item of the worker's slot, and from the entry to the item that is
next added for the file. `has_active_file_match` looks only at the items that are on the
queue: an item that has been removed is not seen although its worker may still run.

Results:

* `urls_exclusive`: in runs in which no upload is resumed that a worker is still engaged in,
  and no item is handed to a worker with work left, no URL is bound twice.
* `removed_item_shares_url`: an entry that is resumed after its item was removed is
  uploaded by two workers.
-/

namespace TusRs

namespace Browser

/-! ## Tasks -/

/-- The worker executes the upload, bound to the URL, or has yet to take it up. -/
def Worker.Task (w : Worker) (v : Upload) (url : Option String) : Prop :=
  w.engine.run? = some ⟨v, url⟩ ∨ UploadCommand.start v ∈ w.channel ∧ url = v.options.existingUrl

/-- What a step of a worker does to URLs: `new` is the upload to which it binds a URL that the
server has just given out. -/
structure Worker.Follows (config : TusConfig) (w : Worker) (storage : Storage)
    (new : Option (Upload × String)) (w' : Worker) (storage' : Storage) : Prop where
  origin : ∀ v u, new = some (v, u) → w.Task v none
  tasks : ∀ v url, w'.Task v url → w.Task v url ∨ ∃ u, url = some u ∧ new = some (v, u)
  shown : ∀ u, w'.state.uploadUrl = some u → w.state.uploadUrl = some u ∨
    ∃ v, w.Task v (some u) ∨ new = some (v, u)
  stored : ∀ k entry, storage'.lookup k = some entry → storage.lookup k = some entry ∨
    ∃ v, k = v.key config ∧ entry.matchKey = k ∧
      (w.Task v (some entry.uploadUrl) ∨ new = some (v, entry.uploadUrl))

section Follows

variable {config : TusConfig} {storage storage' : Storage} {w w' : Worker} {m : Worker.Move}
  {r : Option Report} {new : Option (Upload × String)}

/-- Only a creation has no URL yet. -/
theorem creating_of_unbound {v : Upload} (h : w.engine.run? = some ⟨v, none⟩) :
    ∃ paused, w.engine = .creating v paused := by
  cases heng : w.engine with
  | creating u paused =>
    rw [heng] at h
    obtain ⟨rfl, -⟩ := Run.mk.inj (Option.some.inj h)
    exact ⟨paused, rfl⟩
  | idle => rw [heng] at h; cases h
  | patching t n => rw [heng] at h; cases h
  | recovering t n => rw [heng] at h; cases h
  | backingOff t n head => rw [heng] at h; cases h
  | parked t => rw [heng] at h; cases h

/-- Where an upload that is bound to no URL gets one, the server has given it out. -/
theorem issued_of_binds {v : Upload} {url url' : Option String}
    (hrun : w.engine.run? = some ⟨v, url⟩) (hb : Worker.Binds m ⟨v, url⟩ url') :
    url' = url ∨ url = none ∧ ∃ u, url' = some u ∧ w.issued? m = some u := by
  rcases hb with h | ⟨hex, u, offset, now, put, rfl, rfl⟩
  · exact .inl h
  · dsimp only at hex ⊢
    cases hurl : v.options.existingUrl with
    | some e =>
      rw [hex, hurl]
      exact .inl rfl
    | none =>
      rw [hex, hurl]
      rw [hex, hurl] at hrun
      obtain ⟨paused, heng⟩ := creating_of_unbound hrun
      refine .inr ⟨rfl, u, rfl, ?_⟩
      unfold Worker.issued?
      rw [heng]
      dsimp only
      rw [hurl]
      rfl

/-- A worker without an upload, or with one it has just taken up. -/
theorem Worker.Follows.of_channel (hchan : ∀ cmd ∈ w'.channel, cmd ∈ w.channel)
    (hrun : ∀ ρ, w'.engine.run? = some ρ → w.Task ρ.upload ρ.url)
    (hshown : w'.state.uploadUrl = w.state.uploadUrl ∨ w'.state.uploadUrl = none)
    (hstored : storage.Shrinks storage') : w.Follows config storage none w' storage' where
  origin := nofun
  tasks v url ht := by
    rcases ht with ht | ⟨ht, rfl⟩
    · exact .inl (hrun _ ht)
    · exact .inl (.inr ⟨hchan _ ht, rfl⟩)
  shown u hu := by
    rcases hshown with he | he
    · exact .inl (he ▸ hu)
    · rw [he] at hu
      cases hu
  stored k entry hk := .inl (hstored k entry hk)

/-- A worker whose upload goes on, or ends, with the URL that the move binds it to. -/
theorem follows_of_run {v : Upload} {url url' : Option String}
    (hrun : w.engine.run? = some ⟨v, url⟩)
    (hbound : url' = url ∨ url = none ∧ ∃ u, url' = some u ∧ w.issued? m = some u)
    (hchan : ∀ cmd ∈ w'.channel, cmd ∈ w.channel)
    (hrun' : ∀ ρ, w'.engine.run? = some ρ → ρ = ⟨v, url'⟩)
    (hshown : w'.state.uploadUrl = w.state.uploadUrl ∨ w'.state.uploadUrl = url')
    (hstored : storage.Writes storage' (v.key config) url') :
    ∃ new, (∀ x, new = some x → w.issued? m = some x.2) ∧
      w.Follows config storage new w' storage' := by
  rcases hbound with rfl | ⟨rfl, u, rfl, hissued⟩
  · refine ⟨none, nofun, nofun, ?_, ?_, ?_⟩
    · rintro v' url (ht | ⟨ht, rfl⟩)
      · obtain ⟨rfl, rfl⟩ := Run.mk.inj (hrun' _ ht)
        exact .inl (.inl hrun)
      · exact .inl (.inr ⟨hchan _ ht, rfl⟩)
    · intro u hu
      rcases hshown with he | he
      · exact .inl (he ▸ hu)
      · rw [he] at hu
        exact .inr ⟨v, .inl (.inl (hu ▸ hrun))⟩
    · intro k entry hk
      rcases hstored k entry hk with h | ⟨rfl, hm, hurl⟩
      · exact .inl h
      · exact .inr ⟨v, rfl, hm, .inl (.inl (hurl ▸ hrun))⟩
  · refine ⟨some (v, u), ?_, ?_, ?_, ?_, ?_⟩
    · rintro x hx
      rw [← Option.some.inj hx]
      exact hissued
    · rintro v' u' hv
      obtain ⟨rfl, -⟩ := Prod.mk.inj (Option.some.inj hv)
      exact .inl hrun
    · rintro v' url (ht | ⟨ht, rfl⟩)
      · obtain ⟨rfl, rfl⟩ := Run.mk.inj (hrun' _ ht)
        exact .inr ⟨u, rfl, rfl⟩
      · exact .inl (.inr ⟨hchan _ ht, rfl⟩)
    · intro u' hu
      rcases hshown with he | he
      · exact .inl (he ▸ hu)
      · rw [he] at hu
        exact .inr ⟨v, .inr (by rw [Option.some.inj hu])⟩
    · intro k entry hk
      rcases hstored k entry hk with h | ⟨rfl, hm, hurl⟩
      · exact .inl h
      · exact .inr ⟨v, rfl, hm, .inr (by rw [Option.some.inj hurl])⟩

theorem writes_of_shrinks {key : String} {url : Option String} (h : storage.Shrinks storage') :
    storage.Writes storage' key url := fun k entry hk => .inl (h k entry hk)

theorem not_some_of_idle {ρ : Run} (h : w'.engine = .idle) : w'.engine.run? ≠ some ρ := by
  rw [h]
  exact nofun

theorem run_of_creating {u : Upload} {paused : Bool} {ρ : Run} (h : w'.engine = .creating u paused)
    (hρ : w'.engine.run? = some ρ) : ρ = ⟨u, u.options.existingUrl⟩ := by
  rw [h] at hρ
  exact (Option.some.inj hρ).symm

/-- What every step does to URLs. -/
theorem step_follows (h : w.step config storage m = some (storage', w', r)) :
    ∃ new, (∀ x, new = some x → w.issued? m = some x.2) ∧
      w.Follows config storage new w' storage' := by
  have ht := Worker.step_cases h
  have hchan : ∀ cmd ∈ w'.channel, cmd ∈ w.channel := fun _ => Worker.mem_channel_of_step ht
  cases ht with
  | @command cmd _ _ _ _ hidle habort hother =>
    refine ⟨none, nofun, .of_channel hchan (fun ρ hρ => absurd hρ (not_some_of_idle hidle)) ?_
      (Worker.shrinks_refl _)⟩
    by_cases hc : cmd = .abort
    · exact .inr (habort hc).2
    · exact .inl (hother hc).1
  | @begins u _ _ hstart heng hstate =>
    refine ⟨none, nofun, .of_channel hchan ?_ (.inl (congrArg _ hstate)) (Worker.shrinks_refl _)⟩
    intro ρ hρ
    rw [run_of_creating heng hρ]
    exact .inr ⟨hstart ▸ List.mem_cons_self, rfl⟩
  | continues hrun _ _ hrun' hb _ hshown hw =>
    refine follows_of_run hrun (issued_of_binds hrun hb) hchan ?_ hshown hw
    exact fun ρ hρ => Option.some.inj (hρ.symm.trans hrun')
  | aborts _ _ _ hidle _ hurl hs =>
    exact ⟨none, nofun,
      .of_channel hchan (fun ρ hρ => absurd hρ (not_some_of_idle hidle)) (.inr hurl) hs⟩
  | @restarts _ u _ _ _ _ hstart _ heng _ hurl hs =>
    refine ⟨none, nofun, .of_channel hchan ?_ (.inr hurl) hs⟩
    intro ρ hρ
    rw [run_of_creating heng hρ]
    exact .inr ⟨hstart ▸ List.mem_append_right _ List.mem_cons_self, rfl⟩
  | completes hrun _ _ hidle _ hb hshown hs =>
    exact follows_of_run hrun (issued_of_binds hrun hb) hchan
      (fun ρ hρ => absurd hρ (not_some_of_idle hidle)) hshown (writes_of_shrinks hs)
  | fails _ _ hidle _ hurl hs =>
    exact ⟨none, nofun,
      .of_channel hchan (fun ρ hρ => absurd hρ (not_some_of_idle hidle)) (.inl hurl) hs⟩

end Follows

/-! ## What is bound to a URL -/

/-- The item shows the URL or resumes it. -/
def TusQueueItem.Bound (item : TusQueueItem) (u : String) : Prop :=
  item.uploadUrl = some u ∨ item.options.existingUrl = some u

/-- The item that something which is bound to the URL belongs to: an item that has not ended,
what a worker has to do, and what the worker of an item's slot shows. -/
inductive Session.Claims (s : Session) (u : String) : Nat → Prop
  | item {item : TusQueueItem} : item ∈ s.queue.items → item.status.isTerminal = false →
      item.Bound u → Claims s u item.id
  | task {k : Nat} {w : Worker} {v : Upload} : s.workers[k]? = some w → w.Task v (some u) →
      Claims s u v.itemId
  | shown {k id : Nat} {w : Worker} : s.queue.slots[k]? = some (some id) →
      s.workers[k]? = some w → w.state.uploadUrl = some u → s.onQueue id = true → Claims s u id

/-- The URL has been given out for a file with this match key. -/
def Issued (s : Session) (key : String → String) (u k : String) : Prop := key u = k ∧ u ∈ s.issued

/-- `key` gives the match key that a URL belongs to. -/
structure Exclusive (config : TusConfig) (key : String → String) (s : Session) : Prop where
  valid : s.Valid
  files : ∀ item ∈ s.queue.items, item.fileName = item.file.name ∧ item.fileSize = item.file.size
  stored : ∀ k entry, s.storage.lookup k = some entry →
    entry.matchKey = k ∧ Issued s key entry.uploadUrl k
  scanned : ∀ entry ∈ s.scanned, Issued s key entry.uploadUrl entry.matchKey
  items : ∀ item ∈ s.queue.items, ∀ u, item.Bound u → Issued s key u (item.upload.key config)
  tasks : ∀ w ∈ s.workers, ∀ v u, w.Task v (some u) → Issued s key u (v.key config)
  shown : ∀ (k : Nat) w u, ∀ item ∈ s.queue.items, s.queue.slots[k]? = some (some item.id) →
    s.workers[k]? = some w → w.state.uploadUrl = some u → Issued s key u (item.upload.key config)
  /-- A worker of a slot has nothing to do for another item. -/
  owned : ∀ (k : Nat) id w v url, s.queue.slots[k]? = some (some id) → s.workers[k]? = some w →
    w.Task v url → v.itemId = id
  /-- What a worker has to do was sent for an item. -/
  sent : ∀ w ∈ s.workers, ∀ v url, w.Task v url → v.itemId < s.queue.nextId ∧
    ∀ item ∈ s.queue.items, item.id = v.itemId → item.file = v.file
  one : ∀ u i j, s.Claims u i → s.Claims u j → i = j
  apart : ∀ (i j : Nat) w w' v v' u, s.workers[i]? = some w → s.workers[j]? = some w' →
    w.Task v (some u) → w'.Task v' (some u) → i = j
  waiting : ∀ item ∈ s.queue.items, item.status = .queued → ∀ u, item.Bound u →
    ∀ w ∈ s.workers, ∀ v, ¬w.Task v (some u)

section Step

variable {config : TusConfig} {key : String → String} {s s' : Session} {m : Session.Move}
  {now : Int}

theorem mounted_exclusive (workerCount : Nat) {storage : Storage} {issued : List String}
    (hstored : ∀ k entry, storage.lookup k = some entry →
      entry.matchKey = k ∧ key entry.uploadUrl = k ∧ entry.uploadUrl ∈ issued) :
    Exclusive config key (Session.mounted workerCount storage issued) := by
  have hitems : ∀ item, item ∉ (Session.mounted workerCount storage issued).queue.items :=
    fun item => List.not_mem_nil
  have hnew : ∀ w ∈ (Session.mounted workerCount storage issued).workers,
      (∀ v url, ¬w.Task v url) ∧ w.state.uploadUrl = none := by
    intro w hw
    obtain rfl : w = Worker.new := List.eq_of_mem_replicate hw
    refine ⟨?_, rfl⟩
    rintro v url (h | ⟨h, -⟩)
    · cases h
    · cases h
  have hclaims : ∀ {u i}, ¬(Session.mounted workerCount storage issued).Claims u i := by
    intro u i hc
    cases hc with
    | item hi _ _ => exact hitems _ hi
    | task hw ht => exact (hnew _ (List.mem_of_getElem? hw)).1 _ _ ht
    | shown _ hw hu _ =>
      rw [(hnew _ (List.mem_of_getElem? hw)).2] at hu
      cases hu
  exact {
    valid := Session.mounted_valid workerCount storage issued
    files := fun item hi => absurd hi (hitems item)
    stored := fun k entry hk => ⟨(hstored k entry hk).1, (hstored k entry hk).2⟩
    scanned := fun entry hm => nomatch hm
    items := fun item hi => absurd hi (hitems item)
    tasks := fun w hw v u ht => absurd ht ((hnew w hw).1 v _)
    shown := fun k w u item hi => absurd hi (hitems item)
    owned := fun k id w v url _ hw ht => absurd ht ((hnew w (List.mem_of_getElem? hw)).1 v url)
    sent := fun w hw v url ht => absurd ht ((hnew w hw).1 v url)
    one := fun u i j hi => absurd hi hclaims
    apart := fun i j w w' v v' u hw _ ht =>
      absurd ht ((hnew w (List.mem_of_getElem? hw)).1 v _)
    waiting := fun item hi => absurd hi (hitems item) }

/-- An item after a call: it may have ended or been reset, and is bound to nothing new. -/
structure Lessened (a b : TusQueueItem) : Prop where
  id : b.id = a.id
  file : b.file = a.file ∧ b.fileName = a.fileName ∧ b.fileSize = a.fileSize
  bound : ∀ u, b.Bound u → a.Bound u ∧
    (b.status.isTerminal = false → a.status.isTerminal = false) ∧
    (b.status = .queued → a.status = .queued)

theorem Lessened.refl (a : TusQueueItem) : Lessened a a :=
  ⟨rfl, ⟨rfl, rfl, rfl⟩, fun _ h => ⟨h, fun h => h, fun h => h⟩⟩

theorem Lessened.upload_key {a b : TusQueueItem} (h : Lessened a b) :
    b.upload.key config = a.upload.key config :=
  congrArg (matchKey config.endpoint) h.file.1

theorem task_send {w : Worker} {cmd : UploadCommand} {v : Upload} {url : Option String}
    (hc : ∀ u, cmd ≠ .start u) (h : (w.send cmd).Task v url) : w.Task v url := by
  rcases h with h | ⟨h, rfl⟩
  · exact .inl h
  · rcases List.mem_append.mp h with h | h
    · exact .inr ⟨h, rfl⟩
    · exact absurd (List.mem_singleton.mp h).symm (hc v)

/-- A call: items are lessened or dropped, commands are sent, entries are taken away. -/
theorem Exclusive.call (h : Exclusive config key s) (hv : s'.Valid)
    (hslots : s'.queue.slots = s.queue.slots) (hnext : s'.queue.nextId = s.queue.nextId)
    (hissued : s'.issued = s.issued)
    (hitems : ∀ b ∈ s'.queue.items, ∃ a ∈ s.queue.items, Lessened a b)
    (hworkers : ∀ (k : Nat) w', s'.workers[k]? = some w' → ∃ w, s.workers[k]? = some w ∧
      (w' = w ∨ ∃ cmd, w' = w.send cmd ∧ ∀ u, cmd ≠ .start u))
    (hstored : s.storage.Shrinks s'.storage)
    (hscanned : ∀ entry ∈ s'.scanned, entry ∈ s.scanned ∨
      s.storage.lookup entry.matchKey = some entry) : Exclusive config key s' := by
  -- what a worker shows and has to do was so before
  have hwork : ∀ {k : Nat} {w'}, s'.workers[k]? = some w' → ∃ w, s.workers[k]? = some w ∧
      w'.state = w.state ∧ ∀ v url, w'.Task v url → w.Task v url := by
    intro k w' hw'
    obtain ⟨w, hw, rfl | ⟨cmd, rfl, hc⟩⟩ := hworkers k w' hw'
    · exact ⟨_, hw, rfl, fun _ _ ht => ht⟩
    · exact ⟨w, hw, rfl, fun _ _ ht => task_send hc ht⟩
  have hmem : ∀ {w'}, w' ∈ s'.workers → ∃ w ∈ s.workers, ∀ v url, w'.Task v url → w.Task v url := by
    intro w' hw'
    obtain ⟨k, hk⟩ := List.mem_iff_getElem?.mp hw'
    obtain ⟨w, hw, -, ht⟩ := hwork hk
    exact ⟨w, List.mem_of_getElem? hw, ht⟩
  have hkeep : ∀ {u k}, Issued s key u k → Issued s' key u k := fun hi => ⟨hi.1, hissued ▸ hi.2⟩
  have hclaims : ∀ {u i}, s'.Claims u i → s.Claims u i := by
    intro u i hc
    cases hc with
    | item hi hn hb =>
      obtain ⟨a, ha, hless⟩ := hitems _ hi
      obtain ⟨hba, hna, -⟩ := hless.bound u hb
      rw [hless.id]
      exact .item ha (hna hn) hba
    | task hw ht =>
      obtain ⟨w, hw, -, htask⟩ := hwork hw
      exact .task hw (htask _ _ ht)
    | shown hs hw hu hon =>
      obtain ⟨w, hw, hst, -⟩ := hwork hw
      obtain ⟨b, hb, rfl⟩ := onQueue_iff.mp hon
      obtain ⟨a, ha, hless⟩ := hitems b hb
      exact .shown (hslots ▸ hs) hw (hst ▸ hu) (onQueue_iff.mpr ⟨a, ha, hless.id.symm⟩)
  exact {
    valid := hv
    files := by
      intro b hb
      obtain ⟨a, ha, hless⟩ := hitems b hb
      rw [hless.file.1, hless.file.2.1, hless.file.2.2]
      exact h.files a ha
    stored := fun k entry hk =>
      (h.stored k entry (hstored k entry hk)).imp_right hkeep
    scanned := by
      intro entry he
      rcases hscanned entry he with he | he
      · exact hkeep (h.scanned entry he)
      · exact hkeep (h.stored _ entry he).2
    items := by
      intro b hb u hu
      obtain ⟨a, ha, hless⟩ := hitems b hb
      rw [hless.upload_key]
      exact hkeep (h.items a ha u (hless.bound u hu).1)
    tasks := by
      intro w' hw' v u ht
      obtain ⟨w, hw, htask⟩ := hmem hw'
      exact hkeep (h.tasks w hw v u (htask v _ ht))
    shown := by
      intro k w' u b hb hs hw' hu
      obtain ⟨a, ha, hless⟩ := hitems b hb
      obtain ⟨w, hw, hst, -⟩ := hwork hw'
      rw [hless.upload_key]
      rw [hslots, hless.id] at hs
      exact hkeep (h.shown k w u a ha hs hw (hst ▸ hu))
    owned := by
      intro k id w' v url hs hw' ht
      obtain ⟨w, hw, -, htask⟩ := hwork hw'
      exact h.owned k id w v url (hslots ▸ hs) hw (htask v url ht)
    sent := by
      intro w' hw' v url ht
      obtain ⟨w, hw, htask⟩ := hmem hw'
      obtain ⟨hlt, hfile⟩ := h.sent w hw v url (htask v url ht)
      refine ⟨hnext ▸ hlt, ?_⟩
      intro b hb he
      obtain ⟨a, ha, hless⟩ := hitems b hb
      rw [hless.file.1]
      exact hfile a ha (hless.id.symm.trans he)
    one := fun u i j hi hj => h.one u i j (hclaims hi) (hclaims hj)
    apart := by
      intro i j w₁ w₂ v v' u hi hj ht ht'
      obtain ⟨w, hw, -, htask⟩ := hwork hi
      obtain ⟨w', hw', -, htask'⟩ := hwork hj
      exact h.apart i j w w' v v' u hw hw' (htask v _ ht) (htask' v' _ ht')
    waiting := by
      intro b hb hq u hu w' hw' v ht
      obtain ⟨a, ha, hless⟩ := hitems b hb
      obtain ⟨w, hw, htask⟩ := hmem hw'
      obtain ⟨hba, -, hqa⟩ := hless.bound u hu
      exact h.waiting a ha (hqa hq) u hba w hw v (htask v _ ht) }

/-- An item is added, bound to nothing or to a URL that nothing claims. -/
theorem Exclusive.enqueue (h : Exclusive config key s) (hlt : s.queue.nextId + 1 < 2 ^ 64)
    {file : File} {options : TusStartOptions}
    (hurl : ∀ u, options.existingUrl = some u →
      Issued s key u (matchKey config.endpoint file) ∧ ∀ i, ¬s.Claims u i) :
    Exclusive config key (s.enqueue file options) := by
  have hbound : ∀ {item : TusQueueItem} {u}, item.uploadUrl = options.existingUrl →
      item.options = options → item.Bound u → options.existingUrl = some u := by
    intro item u hu ho hb
    rcases hb with hb | hb
    · exact hu.symm.trans hb
    · exact ho ▸ hb
  have hslot : ∀ {k : Nat} {id}, s.queue.slots[k]? = some (some id) → id < s.queue.nextId :=
    fun hs => (h.valid.queue.slots _ (List.mem_of_getElem? hs)).1
  -- a claim is an earlier one or that of the new item
  have hclaims : ∀ {u i}, (s.enqueue file options).Claims u i →
      s.Claims u i ∨ options.existingUrl = some u ∧ i = s.queue.nextId := by
    intro u i hc
    cases hc with
    | item hi hn hb =>
      rcases List.mem_append.mp hi with hi | hi
      · exact .inl (.item hi hn hb)
      · obtain rfl := List.mem_singleton.mp hi
        exact .inr ⟨hbound rfl rfl hb, rfl⟩
    | task hw ht => exact .inl (.task hw ht)
    | shown hs hw hu hon =>
      obtain ⟨b, hb, rfl⟩ := onQueue_iff.mp hon
      rcases List.mem_append.mp hb with hb | hb
      · exact .inl (.shown hs hw hu (onQueue_iff.mpr ⟨b, hb, rfl⟩))
      · rw [List.mem_singleton.mp hb] at hs
        exact absurd (hslot hs) (Nat.lt_irrefl _)
  exact {
    valid := h.valid.enqueue hlt file options
    files := by
      intro b hb
      rcases List.mem_append.mp hb with hb | hb
      · exact h.files b hb
      · rw [List.mem_singleton.mp hb]
        exact ⟨rfl, rfl⟩
    stored := h.stored
    scanned := h.scanned
    items := by
      intro b hb u hu
      rcases List.mem_append.mp hb with hb | hb
      · exact h.items b hb u hu
      · obtain rfl := List.mem_singleton.mp hb
        exact (hurl u (hbound rfl rfl hu)).1
    tasks := h.tasks
    shown := by
      intro k w u b hb hs hw hu
      rcases List.mem_append.mp hb with hb | hb
      · exact h.shown k w u b hb hs hw hu
      · rw [List.mem_singleton.mp hb] at hs
        exact absurd (hslot hs) (Nat.lt_irrefl _)
    owned := h.owned
    sent := by
      intro w hw v url ht
      obtain ⟨hltv, hfile⟩ := h.sent w hw v url ht
      refine ⟨?_, ?_⟩
      · show v.itemId < (s.queue.nextId + 1) % 2 ^ 64
        rw [Nat.mod_eq_of_lt hlt]
        exact Nat.lt_succ_of_lt hltv
      · intro b hb he
        rcases List.mem_append.mp hb with hb | hb
        · exact hfile b hb he
        · rw [List.mem_singleton.mp hb] at he
          exact absurd he (Nat.ne_of_gt hltv)
    one := by
      intro u i j hi hj
      rcases hclaims hi with hi | ⟨hu, rfl⟩
      · rcases hclaims hj with hj | ⟨hu, rfl⟩
        · exact h.one u i j hi hj
        · exact absurd hi ((hurl u hu).2 i)
      · rcases hclaims hj with hj | ⟨-, rfl⟩
        · exact absurd hj ((hurl u hu).2 j)
        · rfl
    apart := h.apart
    waiting := by
      intro b hb hq u hu w hw v ht
      rcases List.mem_append.mp hb with hb | hb
      · exact h.waiting b hb hq u hu w hw v ht
      · obtain rfl := List.mem_singleton.mp hb
        obtain ⟨k, hk⟩ := List.mem_iff_getElem?.mp hw
        exact (hurl u (hbound rfl rfl hu)).2 _ (.task hk ht) }

/-- An id is in one slot. -/
theorem slot_unique {slots : List (Option Nat)} {id k k' : Nat}
    (h : ∀ id, slots.count (some id) ≤ 1) (hk : slots[k]? = some (some id))
    (hk' : slots[k']? = some (some id)) : k = k' := by
  induction slots generalizing k k' with
  | nil => cases hk
  | cons slot slots ih =>
    have hrest : ∀ id, slots.count (some id) ≤ 1 :=
      fun id => Nat.le_trans List.count_le_count_cons (h id)
    cases k with
    | zero =>
      cases k' with
      | zero => rfl
      | succ k' =>
        have hmem : some id ∈ slots := List.mem_of_getElem? (i := k') hk'
        exact absurd hmem (not_mem_of_once h (Option.some.inj hk))
    | succ k =>
      cases k' with
      | zero =>
        have hmem : some id ∈ slots := List.mem_of_getElem? (i := k) hk
        exact absurd hmem (not_mem_of_once h (Option.some.inj hk'))
      | succ k' => exact congrArg Nat.succ (ih hrest hk hk')

theorem reconcileItem_file (ws : TusUploadState) (now : Int) (a : TusQueueItem) :
    (reconcileItem ws now a).upload = a.upload ∧ (reconcileItem ws now a).fileName = a.fileName ∧
      (reconcileItem ws now a).fileSize = a.fileSize ∧
      (reconcileItem ws now a).uploadUrl = if ws.uploadUrl.isSome then ws.uploadUrl else a.uploadUrl := by
  unfold reconcileItem unpaused
  dsimp only
  split
  · split
    · split <;> exact ⟨rfl, rfl, rfl, rfl⟩
    · exact ⟨rfl, rfl, rfl, rfl⟩
  · exact ⟨rfl, rfl, rfl, rfl⟩
  · exact ⟨rfl, rfl, rfl, rfl⟩
  · exact ⟨rfl, rfl, rfl, rfl⟩
  · split <;> exact ⟨rfl, rfl, rfl, rfl⟩

/-- What an item is bound to after a look at its worker. -/
theorem bound_reconcile {ws : TusUploadState} {a : TusQueueItem} {u : String}
    (h : (reconcileItem ws now a).Bound u) : a.Bound u ∨ ws.uploadUrl = some u := by
  obtain ⟨hup, -, -, hurl⟩ := reconcileItem_file ws now a
  rcases h with h | h
  · rw [hurl] at h
    split at h
    · exact .inr h
    · exact .inl (.inl h)
  · have hopt : (reconcileItem ws now a).options = a.options := congrArg Upload.options hup
    rw [hopt] at h
    exact .inl (.inr h)

/-- An item before a tick, and what has become of it. -/
theorem tick_item (h : Exclusive config key s) (ht : s.tick now = some s') {b : TusQueueItem}
    (hb : b ∈ s'.queue.items) : ∃ a ∈ s.queue.items, b.upload = a.upload ∧
      b.fileName = a.fileName ∧ b.fileSize = a.fileSize ∧
      (b.status = .queued → a.status = .queued) ∧
      ∀ u, b.Bound u → Issued s key u (a.upload.key config) ∧
        (b.status.isTerminal = false → s.Claims u a.id) ∧ (b.status = .queued → a.Bound u) := by
  have hslotted := h.valid.queue.slotted
  obtain ⟨a, ha, rfl | ⟨k, w, hs, hw, rfl⟩ | ⟨hq, rfl⟩⟩ := Session.tick_items hslotted ht hb
  · exact ⟨_, ha, rfl, rfl, rfl, fun h => h,
      fun u hu => ⟨h.items _ ha u hu, fun hn => .item ha hn hu, fun _ => hu⟩⟩
  · obtain ⟨hup, hname, hsize, -⟩ := reconcileItem_file w.state now a
    have hnot : ∀ {p : Prop}, (reconcileItem w.state now a).status = .queued → p :=
      fun hq => absurd hq (reconcileItem_not_queued a)
    refine ⟨a, ha, hup, hname, hsize, hnot, fun u hu => ⟨?_, fun _ => ?_, hnot⟩⟩
    · rcases bound_reconcile hu with hu | hu
      · exact h.items a ha u hu
      · exact h.shown k w u a ha hs hw hu
    · -- an item in a slot has not ended
      have hactive := (hslotted.active a ha).mpr (List.mem_of_getElem? hs)
      have hterm : a.status.isTerminal = false := by
        revert hactive
        cases a.status <;> decide
      rcases bound_reconcile hu with hu | hu
      · exact .item ha hterm hu
      · exact .shown hs hw hu (onQueue_iff.mpr ⟨a, ha, rfl⟩)
  · refine ⟨a, ha, rfl, rfl, rfl, fun _ => hq, fun u hu => ⟨h.items a ha u hu, fun _ => ?_, nofun⟩⟩
    exact .item ha (by rw [hq]; rfl) hu

/-- A worker that has nothing to do is started. -/
theorem task_start {w : Worker} {v v' : Upload} {url : Option String} (hidle : w.engine = .idle)
    (hno : ∀ u, UploadCommand.start u ∉ w.channel) (h : (w.start v').Task v url) :
    v = v' ∧ url = v'.options.existingUrl := by
  rcases h with h | ⟨h, rfl⟩
  · rw [show (w.start v').engine = .idle from hidle] at h
    cases h
  · rcases List.mem_append.mp h with h | h
    · exact absurd h (hno v)
    · obtain rfl := UploadCommand.start.inj (List.mem_singleton.mp h)
      exact ⟨rfl, rfl⟩

theorem Exclusive.tick (h : Exclusive config key s) (ht : s.tick now = some s')
    (hok : ∀ k ∈ s.filled, ∀ w, s.workers[k]? = some w →
      w.engine = .idle ∧ ∀ u, UploadCommand.start u ∉ w.channel) : Exclusive config key s' := by
  have hv := h.valid.tick ht
  obtain ⟨starts, -, hq, -, hstorage, -, hscanned, hissued⟩ := Session.tick_eq ht
  have hkeep : ∀ {u k}, Issued s key u k → Issued s' key u k := fun hi => ⟨hi.1, hissued ▸ hi.2⟩
  -- what a worker has to do it had to do before, or it is the upload of a queued item
  have htask : ∀ {k : Nat} {w'}, s'.workers[k]? = some w' → ∀ {v url}, w'.Task v url →
      (∃ w, s.workers[k]? = some w ∧ w.Task v url) ∨ ∃ item ∈ s.queue.items, item.status = .queued ∧
        s'.queue.slots[k]? = some (some item.id) ∧ v = item.upload ∧
        url = item.options.existingUrl := by
    intro k w' hw' v url hv
    obtain ⟨slot, w, hs, hw, hcase⟩ := h.valid.tick_worker ht hw'
    rcases hcase with ⟨-, rfl⟩ | ⟨-, hk, item, hi, hqd, hs₁, rfl⟩
    · exact .inl ⟨_, hw, hv⟩
    · obtain ⟨hidle, hno⟩ := hok k hk w hw
      obtain ⟨rfl, rfl⟩ := task_start hidle hno hv
      exact .inr ⟨item, hi, hqd, hs₁, rfl, rfl⟩
  -- what the worker of a slot shows it showed before
  have hshown : ∀ {k id : Nat} {w' u}, s'.queue.slots[k]? = some (some id) →
      s'.workers[k]? = some w' → w'.state.uploadUrl = some u →
      s.queue.slots[k]? = some (some id) ∧ s.workers[k]? = some w' := by
    intro k id w' u hs' hw' hu
    obtain ⟨slot, w, hs, hw, hcase⟩ := h.valid.tick_worker ht hw'
    rcases hcase with ⟨hs₁, rfl⟩ | ⟨-, -, item, -, -, -, rfl⟩
    · obtain rfl := Session.freed_eq_some (Option.some.inj (hs₁.symm.trans hs'))
      exact ⟨hs, hw⟩
    · cases hu
  have hclaims : ∀ {u i}, s'.Claims u i → s.Claims u i := by
    intro u i hc
    cases hc with
    | @item b hi hn hb =>
      obtain ⟨a, -, hup, -, -, -, hbound⟩ := tick_item h ht hi
      rw [show b.id = a.id from congrArg Upload.itemId hup]
      exact (hbound u hb).2.1 hn
    | task hw hv =>
      rcases htask hw hv with ⟨w, hw, hv⟩ | ⟨item, hi, hqd, -, rfl, hu⟩
      · exact .task hw hv
      · exact .item hi (by rw [hqd]; rfl) (.inr hu.symm)
    | shown hs hw hu hon =>
      obtain ⟨hs, hw⟩ := hshown hs hw hu
      rw [Session.onQueue_tick ht] at hon
      exact .shown hs hw hu hon
  -- an upload that is handed out now is bound to nothing that a worker has
  have hfresh : ∀ {item : TusQueueItem} {k : Nat} {w v u}, item ∈ s.queue.items →
      item.status = .queued → some u = item.options.existingUrl → s.workers[k]? = some w →
      ¬w.Task v (some u) := by
    intro item k w v u hi hqd hu hw
    exact h.waiting item hi hqd u (.inr hu.symm) w (List.mem_of_getElem? hw) v
  exact {
    valid := hv
    files := by
      intro b hb
      obtain ⟨a, ha, hup, hname, hsize, -⟩ := tick_item h ht hb
      rw [hname, hsize, show b.file = a.file from congrArg Upload.file hup]
      exact h.files a ha
    stored := fun k entry hk => (h.stored k entry (hstorage ▸ hk)).imp_right hkeep
    scanned := fun entry he => hkeep (h.scanned entry (hscanned ▸ he))
    items := by
      intro b hb u hu
      obtain ⟨a, -, hup, -, -, -, hbound⟩ := tick_item h ht hb
      rw [hup]
      exact hkeep (hbound u hu).1
    tasks := by
      intro w' hw' v u hv
      obtain ⟨k, hk⟩ := List.mem_iff_getElem?.mp hw'
      rcases htask hk hv with ⟨w, hw, hv⟩ | ⟨item, hi, -, -, rfl, hu⟩
      · exact hkeep (h.tasks w (List.mem_of_getElem? hw) v u hv)
      · exact hkeep (h.items item hi u (.inr hu.symm))
    shown := by
      intro k w' u b hb hs' hw' hu
      obtain ⟨a, ha, hup, -⟩ := tick_item h ht hb
      obtain ⟨hs, hw⟩ := hshown hs' hw' hu
      rw [show b.id = a.id from congrArg Upload.itemId hup] at hs
      rw [hup]
      exact hkeep (h.shown k w' u a ha hs hw hu)
    owned := by
      intro k id w' v url hs' hw' hv
      obtain ⟨slot, w, hs, hw, hcase⟩ := h.valid.tick_worker ht hw'
      rcases hcase with ⟨hs₁, rfl⟩ | ⟨-, hk, item, hi, hqd, hs₁, rfl⟩
      · obtain rfl := Session.freed_eq_some (Option.some.inj (hs₁.symm.trans hs'))
        exact h.owned k id _ v url hs hw hv
      · obtain ⟨hidle, hno⟩ := hok k hk w hw
        obtain ⟨rfl, -⟩ := task_start hidle hno hv
        exact Option.some.inj (Option.some.inj (hs₁.symm.trans hs'))
    sent := by
      intro w' hw' v url hv'
      obtain ⟨k, hk⟩ := List.mem_iff_getElem?.mp hw'
      have hnext : s'.queue.nextId = s.queue.nextId := Session.nextId_tick ht
      rcases htask hk hv' with ⟨w, hw, hv'⟩ | ⟨item, hi, -, -, rfl, -⟩
      · obtain ⟨hlt, hfile⟩ := h.sent w (List.mem_of_getElem? hw) v url hv'
        refine ⟨hnext ▸ hlt, ?_⟩
        intro b hb he
        obtain ⟨a, ha, hup, -⟩ := tick_item h ht hb
        rw [show b.file = a.file from congrArg Upload.file hup]
        exact hfile a ha ((congrArg Upload.itemId hup).symm.trans he)
      · refine ⟨hnext ▸ h.valid.queue.items item hi, ?_⟩
        intro b hb he
        obtain ⟨a, ha, hup, -⟩ := tick_item h ht hb
        have haid : a.id = item.id := (congrArg Upload.itemId hup).symm.trans he
        obtain rfl := eq_of_id h.valid.queue.slotted.distinct ha hi haid
        exact congrArg Upload.file hup
    one := fun u i j hi hj => h.one u i j (hclaims hi) (hclaims hj)
    apart := by
      intro i j w₁ w₂ v v' u hw₁ hw₂ hv₁ hv₂
      rcases htask hw₁ hv₁ with ⟨w, hw, hv₁⟩ | ⟨item, hi, hqd, hs, rfl, hu⟩
      · rcases htask hw₂ hv₂ with ⟨w', hw', hv₂⟩ | ⟨item, hi, hqd, -, rfl, hu⟩
        · exact h.apart i j w w' v v' u hw hw' hv₁ hv₂
        · exact absurd hv₁ (hfresh hi hqd hu hw)
      · rcases htask hw₂ hv₂ with ⟨w', hw', hv₂⟩ | ⟨item', hi', hqd', hs', rfl, hu'⟩
        · exact absurd hv₂ (hfresh hi hqd hu hw')
        · -- two items would be bound to the URL
          have hid : item.id = item'.id := h.one u _ _ (.item hi (by rw [hqd]; rfl) (.inr hu.symm))
            (.item hi' (by rw [hqd']; rfl) (.inr hu'.symm))
          rw [← hid] at hs'
          exact slot_unique hv.queue.slotted.once hs hs'
    waiting := by
      intro b hb hqb u hu w' hw' v hv'
      obtain ⟨k, hk⟩ := List.mem_iff_getElem?.mp hw'
      obtain ⟨a, ha, hup, -, -, hqa, hbound⟩ := tick_item h ht hb
      have hba := (hbound u hu).2.2 hqb
      rcases htask hk hv' with ⟨w, hw, hv'⟩ | ⟨item, hi, hqd, hs, rfl, hu'⟩
      · exact h.waiting a ha (hqa hqb) u hba w (List.mem_of_getElem? hw) v hv'
      · -- the item that is handed out would still be queued
        have hid : a.id = item.id := h.one u _ _ (.item ha (by rw [hqa hqb]; rfl) hba)
          (.item hi (by rw [hqd]; rfl) (.inr hu'.symm))
        rw [← hid, ← show b.id = a.id from congrArg Upload.itemId hup] at hs
        have hactive := (hv.queue.slotted.active b hb).mpr (List.mem_of_getElem? hs)
        rw [hqb] at hactive
        cases hactive }

theorem Exclusive.issued_of_claims (h : Exclusive config key s) {u : String} {i : Nat}
    (hc : s.Claims u i) : u ∈ s.issued := by
  cases hc with
  | item hi _ hb => exact (h.items _ hi u hb).2
  | task hw hv => exact (h.tasks _ (List.mem_of_getElem? hw) _ u hv).2
  | shown hs hw hu hon =>
    obtain ⟨item, hi, rfl⟩ := onQueue_iff.mp hon
    exact (h.shown _ _ u item hi hs hw hu).2

/-- The match keys once the server has given out a URL for an upload. -/
def rekeyed (config : TusConfig) (key : String → String) :
    Option (Upload × String) → String → String
  | none => key
  | some (v, u) => Function.update key u (v.key config)

theorem Exclusive.work (h : Exclusive config key s) {slot : Nat} {wm : Worker.Move}
    (hw : s.work config slot wm = some s')
    (hnew : ∀ w, s.workers[slot]? = some w → ∀ u, w.issued? wm = some u → u ∉ s.issued) :
    ∃ key', Exclusive config key' s' := by
  obtain ⟨w, hworker, hw⟩ := Option.bind_eq_some_iff.mp hw
  obtain ⟨⟨storage', w', r⟩, hstep, rfl⟩ := Option.map_eq_some_iff.mp hw
  obtain ⟨new, hissued, hf⟩ := step_follows hstep
  refine ⟨rekeyed config key new, ?_⟩
  have hmem : w ∈ s.workers := List.mem_of_getElem? hworker
  -- a URL that was given out before is not given out now
  have hne : ∀ {v u u'}, new = some (v, u) → u' ∈ s.issued → u' ≠ u := by
    rintro v u u' hv hu' rfl
    exact hnew w hworker u' (hissued (v, u') hv) hu'
  have hkeep : ∀ {u k}, Issued s key u k →
      rekeyed config key new u = k ∧ u ∈ (w.issued? wm).toList ++ s.issued := by
    intro u k hi
    refine ⟨?_, List.mem_append_right _ hi.2⟩
    cases hn : new with
    | none => exact hi.1
    | some x =>
      rw [rekeyed, Function.update_of_ne (hne hn hi.2)]
      exact hi.1
  have hgiven : ∀ {v u}, new = some (v, u) →
      rekeyed config key new u = v.key config ∧ u ∈ (w.issued? wm).toList ++ s.issued := by
    intro v u hn
    refine ⟨?_, List.mem_append_left _ ?_⟩
    · rw [hn, rekeyed, Function.update_self]
    · rw [hissued (v, u) hn]
      exact List.mem_singleton_self u
  have htask : ∀ {k : Nat} {x v url}, (s.workers.set slot w')[k]? = some x → x.Task v url →
      (∃ y, s.workers[k]? = some y ∧ y.Task v url) ∨
        k = slot ∧ ∃ u, url = some u ∧ new = some (v, u) := by
    intro k x v url hx hv
    rcases Session.getElem?_set_cases hx with ⟨rfl, rfl⟩ | hx
    · exact (hf.tasks v url hv).imp (fun hv => ⟨w, hworker, hv⟩) fun hn => ⟨rfl, hn⟩
    · exact .inl ⟨x, hx, hv⟩
  -- everything that is bound to an upload belongs to a task that the worker has
  have htask' : ∀ {k : Nat} {x v url}, (s.workers.set slot w')[k]? = some x → x.Task v url →
      ∃ y url', s.workers[k]? = some y ∧ y.Task v url' := by
    intro k x v url hx hv
    rcases htask hx hv with ⟨y, hy, hv⟩ | ⟨rfl, u, -, hn⟩
    · exact ⟨y, url, hy, hv⟩
    · exact ⟨w, none, hworker, hf.origin v u hn⟩
  have hclaims : ∀ {u i}, Session.Claims { s with
        storage := storage', workers := s.workers.set slot w', marks := Session.reported s.marks r,
        issued := (w.issued? wm).toList ++ s.issued } u i →
      s.Claims u i ∨ ∃ v, new = some (v, u) ∧ i = v.itemId := by
    intro u i hc
    cases hc with
    | item hi hn hb => exact .inl (.item hi hn hb)
    | task hx hv =>
      rcases htask hx hv with ⟨y, hy, hv⟩ | ⟨-, u', hu', hn⟩
      · exact .inl (.task hy hv)
      · cases hu'
        exact .inr ⟨_, hn, rfl⟩
    | shown hs hx hu hon =>
      rcases Session.getElem?_set_cases hx with ⟨rfl, rfl⟩ | hx
      · rcases hf.shown u hu with hu | ⟨v, hv | hn⟩
        · exact .inl (.shown hs hworker hu hon)
        · rw [← h.owned _ _ w v _ hs hworker hv]
          exact .inl (.task hworker hv)
        · exact .inr ⟨v, hn, (h.owned _ _ w v _ hs hworker (hf.origin v u hn)).symm⟩
      · exact .inl (.shown hs hx hu hon)
  have hclaimed : ∀ {v u i}, new = some (v, u) → ¬s.Claims u i :=
    fun hn hc => hne hn (h.issued_of_claims hc) rfl
  -- the upload of a task and the item it was sent for have one file
  have hkey : ∀ {v url} {item : TusQueueItem}, item ∈ s.queue.items → w.Task v url →
      v.itemId = item.id → v.key config = item.upload.key config := by
    intro v url item hi hv he
    exact congrArg (matchKey config.endpoint) ((h.sent w hmem v url hv).2 item hi he.symm).symm
  exact {
    valid := ⟨h.valid.queue, List.length_set.trans h.valid.workers⟩
    files := h.files
    stored := by
      intro k entry hk
      rcases hf.stored k entry hk with hk | ⟨v, rfl, hm, hv | hn⟩
      · exact (h.stored k entry hk).imp_right hkeep
      · exact ⟨hm, hkeep (h.tasks w hmem v _ hv)⟩
      · exact ⟨hm, hgiven hn⟩
    scanned := fun entry he => hkeep (h.scanned entry he)
    items := fun item hi u hu => hkeep (h.items item hi u hu)
    tasks := by
      intro x hx v u hv
      obtain ⟨k, hk⟩ := List.mem_iff_getElem?.mp hx
      rcases htask hk hv with ⟨y, hy, hv⟩ | ⟨-, u', hu', hn⟩
      · exact hkeep (h.tasks y (List.mem_of_getElem? hy) v u hv)
      · cases hu'
        exact hgiven hn
    shown := by
      intro k x u item hi hs hx hu
      rcases Session.getElem?_set_cases hx with ⟨rfl, rfl⟩ | hx
      · rcases hf.shown u hu with hu | ⟨v, hv | hn⟩
        · exact hkeep (h.shown _ w u item hi hs hworker hu)
        · rw [← hkey hi hv (h.owned _ _ w v _ hs hworker hv)]
          exact hkeep (h.tasks w hmem v u hv)
        · have hv := hf.origin v u hn
          rw [← hkey hi hv (h.owned _ _ w v _ hs hworker hv)]
          exact hgiven hn
      · exact hkeep (h.shown k x u item hi hs hx hu)
    owned := by
      intro k id x v url hs hx hv
      obtain ⟨y, url', hy, hv⟩ := htask' hx hv
      exact h.owned k id y v url' hs hy hv
    sent := by
      intro x hx v url hv
      obtain ⟨k, hk⟩ := List.mem_iff_getElem?.mp hx
      obtain ⟨y, url', hy, hv⟩ := htask' hk hv
      exact h.sent y (List.mem_of_getElem? hy) v url' hv
    one := by
      intro u i j hi hj
      rcases hclaims hi with hi | ⟨v, hn, rfl⟩
      · rcases hclaims hj with hj | ⟨v, hn, rfl⟩
        · exact h.one u i j hi hj
        · exact absurd hi (hclaimed hn)
      · rcases hclaims hj with hj | ⟨v', hn', rfl⟩
        · exact absurd hj (hclaimed hn)
        · rw [hn] at hn'
          cases hn'
          rfl
    apart := by
      intro i j x x' v v' u hx hx' hv hv'
      rcases htask hx hv with ⟨y, hy, hv⟩ | ⟨rfl, u', hu', hn⟩
      · rcases htask hx' hv' with ⟨y', hy', hv'⟩ | ⟨rfl, u', hu', hn⟩
        · exact h.apart i j y y' v v' u hy hy' hv hv'
        · cases hu'
          exact absurd (.task hy hv) (hclaimed hn)
      · cases hu'
        rcases htask hx' hv' with ⟨y', hy', hv'⟩ | ⟨rfl, -⟩
        · exact absurd (.task hy' hv') (hclaimed hn)
        · rfl
    waiting := by
      intro item hi hq u hu x hx v hv
      obtain ⟨k, hk⟩ := List.mem_iff_getElem?.mp hx
      rcases htask hk hv with ⟨y, hy, hv⟩ | ⟨-, u', hu', hn⟩
      · exact h.waiting item hi hq u hu y (List.mem_of_getElem? hy) v hv
      · cases hu'
        exact hne hn (h.items item hi u hu).2 rfl }

/-! ## Calls -/

theorem shrinks_dropPersisted (s : Session) (items : List TusQueueItem) :
    s.storage.Shrinks (s.dropPersisted config items).storage := by
  unfold Session.dropPersisted
  dsimp only
  generalize s.storage = storage
  induction items generalizing storage with
  | nil => exact Worker.shrinks_refl _
  | cons item items ih => exact fun k entry hk => Storage.lookup_of_lookup_erase (ih _ k entry hk)

theorem lessened_abortQueued (a : TusQueueItem) : Lessened a (Queue.abortQueued a) := by
  unfold Queue.abortQueued
  split
  · exact ⟨rfl, ⟨rfl, rfl, rfl⟩, fun u hu => ⟨hu, nofun, nofun⟩⟩
  · exact .refl a

theorem lessened_retryFinished (a : TusQueueItem) : Lessened a (Queue.retryFinished a) := by
  unfold Queue.retryFinished
  split
  · refine ⟨rfl, ⟨rfl, rfl, rfl⟩, ?_⟩
    rintro u (hu | hu)
    · cases hu
    · cases hu
  · exact .refl a

theorem lessened_updateItem {f : TusQueueItem → TusQueueItem} (hf : ∀ a, Lessened a (f a)) {id : Nat}
    {items : List TusQueueItem} {b : TusQueueItem} (hb : b ∈ updateItem id f items) :
    ∃ a ∈ items, Lessened a b := by
  rcases mem_updateFirst hb with hb | ⟨a, ha, -, rfl⟩
  · exact ⟨b, hb, .refl b⟩
  · exact ⟨a, ha, hf a⟩

/-- The items after `abort_item` and `retry_item`. -/
theorem lessened_abortItem {q : Queue} {id : Nat} {b : TusQueueItem}
    (hb : b ∈ (q.abortItem id).items) : ∃ a ∈ q.items, Lessened a b := by
  unfold Queue.abortItem at hb
  split at hb
  · exact ⟨b, hb, .refl b⟩
  · exact lessened_updateItem lessened_abortQueued hb

theorem lessened_retryItem {q : Queue} {id : Nat} {b : TusQueueItem}
    (hb : b ∈ (q.applyRetryItem id).items) : ∃ a ∈ q.items, Lessened a b := by
  unfold Queue.applyRetryItem at hb
  split at hb
  · exact ⟨b, hb, .refl b⟩
  · exact lessened_updateItem lessened_retryFinished hb

/-- A command that is sent to some workers and starts nothing. -/
theorem sent_command (cmd : UploadCommand) (hc : ∀ u, cmd ≠ .start u)
    (h : ∀ (k : Nat) w', s'.workers[k]? = some w' →
      ∃ w, s.workers[k]? = some w ∧ (w' = w ∨ w' = w.send cmd)) (k : Nat) (w' : Worker)
    (hw' : s'.workers[k]? = some w') :
    ∃ w, s.workers[k]? = some w ∧ (w' = w ∨ ∃ cmd, w' = w.send cmd ∧ ∀ u, cmd ≠ .start u) := by
  obtain ⟨w, hw, hcase⟩ := h k w' hw'
  exact ⟨w, hw, hcase.imp_right fun he => ⟨cmd, he, hc⟩⟩

/-- Commands are sent, and nothing else that matters here changes. -/
theorem Exclusive.send (h : Exclusive config key s) (hv : s'.Valid)
    (hrest : { s' with workers := s.workers, marks := s.marks } = s)
    (hw : ∀ (k : Nat) w', s'.workers[k]? = some w' → ∃ w, s.workers[k]? = some w ∧
      (w' = w ∨ ∃ cmd, w' = w.send cmd ∧ ∀ u, cmd ≠ .start u)) : Exclusive config key s' := by
  have hq := congrArg Session.queue hrest
  have hst := congrArg Session.storage hrest
  have hsc := congrArg Session.scanned hrest
  have his := congrArg Session.issued hrest
  dsimp only at hq hst hsc his
  refine h.call hv (congrArg _ hq) (congrArg _ hq) his ?_ hw ?_ ?_
  · intro b hb
    rw [hq] at hb
    exact ⟨b, hb, .refl b⟩
  · rw [hst]
    exact Worker.shrinks_refl _
  · intro entry he
    rw [hsc] at he
    exact .inl he

theorem Exclusive.sendItem (h : Exclusive config key s) (id : Nat) {cmd : UploadCommand}
    (hc : ∀ u, cmd ≠ .start u) : Exclusive config key (s.sendItem id cmd) := by
  refine h.send (h.valid.sendItem id cmd) ?_ (sent_command cmd hc fun k w' hw' =>
    (Session.sendItem_workers hw').imp fun _ hw => hw.imp_right (Or.imp_right And.left))
  have hrest := s.sendItem_rest id cmd
  rw [← Session.marks_sendItem s id cmd]
  exact hrest

/-- Nothing claims a URL that belongs to a file of no active item and that no worker has to
do with. -/
theorem Exclusive.unclaimed (h : Exclusive config key s) {file : File} {u : String}
    (hmatch : ¬hasActiveFileMatch s.queue.items config.endpoint file = true)
    (hissued : Issued s key u (matchKey config.endpoint file))
    (hlive : ∀ w ∈ s.workers, ∀ v, ¬w.Task v (some u)) (i : Nat) : ¬s.Claims u i := by
  -- an item that has not ended would have been found
  have hitem : ∀ {item : TusQueueItem}, item ∈ s.queue.items → item.status.isTerminal = false →
      ¬Issued s key u (item.upload.key config) := by
    intro item hi hn hiss
    have hfile : (⟨item.fileName, item.fileSize, item.file.lastModified⟩ : File) = item.file := by
      obtain ⟨hname, hsize⟩ := h.files item hi
      rw [hname, hsize]
    have hkey : matchKey config.endpoint item.file = matchKey config.endpoint file :=
      hiss.1.symm.trans hissued.1
    refine hmatch (List.any_eq_true.mpr ⟨item, hi, ?_⟩)
    rw [hfile, hkey, hn, decide_eq_true rfl]
    rfl
  intro hc
  cases hc with
  | item hi hn hb => exact hitem hi hn (h.items _ hi u hb)
  | task hw hv => exact hlive _ (List.mem_of_getElem? hw) _ hv
  | shown hs hw hu hon =>
    obtain ⟨item, hi, rfl⟩ := onQueue_iff.mp hon
    have hactive := (h.valid.queue.slotted.active item hi).mpr (List.mem_of_getElem? hs)
    have hterm : item.status.isTerminal = false := by
      revert hactive
      cases item.status <;> decide
    exact hitem hi hterm (h.shown _ _ u item hi hs hw hu)

end Step

/-- Callers supply no URLs but those of listed entries, and the server gives out new ones. -/
def Fair (s : Session) : Session.Move → Prop
  | .add _ options _ => options.existingUrl = none
  | .resumeEntry entry _ _ _ => entry ∈ s.scanned
  | .work slot m => ∀ w ∈ s.workers[slot]?, ∀ u ∈ w.issued? m, u ∉ s.issued
  | _ => True

/-- The URL that a call puts on a new item. -/
def Session.attaches (config : TusConfig) (s : Session) : Session.Move → Option String
  | .add file options now => s.resumeUrl config file options now
  | .resumeEntry entry file options now =>
    if hasActiveFileMatch s.queue.items config.endpoint file then none
    else (resumeOptionsForEntry config.endpoint entry file options now).bind
      TusStartOptions.existingUrl
  | _ => none

/-- No item is handed to a worker that executes an upload or has yet to take one up, no item
gets a URL that a worker executes an upload for or has yet to, and the counter of ids does not
overflow. -/
def NoLiveResume (config : TusConfig) (s : Session) : Session.Move → Prop
  | .tick _ => ∀ k ∈ s.filled, ∀ w, s.workers[k]? = some w →
    w.engine = .idle ∧ ∀ u, UploadCommand.start u ∉ w.channel
  | m => (m.isAdd = true → s.queue.nextId + 1 < 2 ^ 64) ∧
    ∀ u, s.attaches config m = some u → ∀ w ∈ s.workers, ∀ v, ¬w.Task v (some u)

section Run

variable {config : TusConfig} {key : String → String} {s s' : Session} {m : Session.Move}

theorem Exclusive.add (h : Exclusive config key s) (hlt : s.queue.nextId + 1 < 2 ^ 64) {file : File}
    {options : TusStartOptions} {now : Int}
    (hurl : ∀ u, s.resumeUrl config file options now = some u →
      ¬hasActiveFileMatch s.queue.items config.endpoint file = true ∧
      Issued s key u (matchKey config.endpoint file) ∧ ∀ w ∈ s.workers, ∀ v, ¬w.Task v (some u)) :
    Exclusive config key (s.add config file options now) := by
  refine h.enqueue hlt fun u hu => ?_
  obtain ⟨hmatch, hissued, hlive⟩ := hurl u hu
  exact ⟨hissued, h.unclaimed hmatch hissued hlive⟩

theorem step_exclusive (h : Exclusive config key s) (hfair : Fair s m) (hok : NoLiveResume config s m)
    (hs : s.step config m = some s') : ∃ key', Exclusive config key' s' := by
  have hlt : m.isAdd = true → s.queue.nextId + 1 < 2 ^ 64 := by
    intro ha
    cases m with
    | tick now => cases ha
    | add file options now => exact hok.1 rfl
    | resumeEntry entry file options now => exact hok.1 rfl
    | _ => cases ha
  have hv := Session.step_valid h.valid hlt hs
  cases m with
  | add file options now =>
    cases hs
    refine ⟨key, h.add (hlt rfl) fun u hu => ?_⟩
    have hlive := hok.2 u hu
    unfold Session.resumeUrl at hu
    rw [show options.existingUrl = none from hfair, if_neg (by decide)] at hu
    split at hu
    · cases hu
    · next hmatch =>
      obtain ⟨entry, hget, rfl⟩ := Option.map_eq_some_iff.mp hu
      exact ⟨hmatch, (h.stored _ entry (Storage.lookup_of_get hget)).2, hlive⟩
  | resumeEntry entry file options now =>
    cases hs
    refine ⟨key, ?_⟩
    have hlive := hok.2
    simp only [Session.attaches] at hlive
    unfold Session.resumeEntry
    split
    · exact h
    · next hmatch =>
      rw [if_neg hmatch] at hlive
      split
      · next options' hopt =>
        refine h.add (hlt rfl) fun u hu => ⟨hmatch, ?_⟩
        unfold resumeOptionsForEntry at hopt hlive
        split at hopt
        · next hres =>
          obtain rfl := Option.some.inj hopt
          obtain rfl : entry.uploadUrl = u := Option.some.inj hu
          rw [if_pos hres] at hlive
          -- the entry is one of the file
          have hkey : entry.matchKey = matchKey config.endpoint file := by
            unfold entryIsResumableForFile at hres
            exact of_decide_eq_true (Bool.and_eq_true_iff.mp hres).2
          exact ⟨hkey ▸ h.scanned entry hfair, hlive _ rfl⟩
        · cases hopt
      · exact h
  | scanResumable now =>
    cases hs
    have hshrinks : s.storage.Shrinks (s.storage.scan config.endpoint now).2 :=
      fun k entry hk => Storage.lookup_of_scan hk
    refine ⟨key, h.call hv rfl rfl rfl (fun b hb => ⟨b, hb, .refl b⟩)
      (fun k w' hw' => ⟨w', hw', .inl rfl⟩) hshrinks ?_⟩
    intro entry he
    exact (List.mem_append.mp he).imp_right Storage.lookup_of_mem_scan
  | pauseAll =>
    cases hs
    exact ⟨key, h.send hv rfl (sent_command .pause nofun fun k w' hw' =>
      (Session.sendAll_workers hw').imp fun _ hw => hw.imp_right .inr)⟩
  | resumeAll =>
    cases hs
    exact ⟨key, h.send hv rfl (sent_command .resume nofun fun k w' hw' =>
      (Session.sendAll_workers hw').imp fun _ hw => hw.imp_right .inr)⟩
  | abortAll =>
    cases hs
    refine ⟨key, h.call hv rfl rfl rfl ?_ (sent_command .abort nofun fun k w' hw' =>
      (Session.sendAll_workers hw').imp fun _ hw => hw.imp_right .inr)
      (shrinks_dropPersisted _ _) fun _ he => .inl he⟩
    intro b hb
    obtain ⟨a, ha, rfl⟩ := List.mem_map.mp hb
    exact ⟨a, ha, lessened_abortQueued a⟩
  | pauseItem id => cases hs; exact ⟨key, h.sendItem id nofun⟩
  | resumeItem id => cases hs; exact ⟨key, h.sendItem id nofun⟩
  | abortItem id =>
    cases hs
    have hmarked : Exclusive config key (s.markAborted fun id' => id' = id) :=
      h.send ⟨h.valid.queue, h.valid.workers⟩ rfl fun k w' hw' => ⟨w', hw', .inl rfl⟩
    unfold Session.abortItem at hv ⊢
    dsimp only at hv ⊢
    split
    · exact ⟨key, hmarked.sendItem id nofun⟩
    · next hslot =>
      rw [hslot] at hv
      exact ⟨key, hmarked.call hv (Session.slots_abortItem _ id).1 (Session.slots_abortItem _ id).2 rfl
        (fun b hb => lessened_abortItem hb) (fun k w' hw' => ⟨w', hw', .inl rfl⟩)
        (shrinks_dropPersisted _ _) fun _ he => .inl he⟩
  | removeItem id =>
    cases hs
    have hmarked : Exclusive config key (s.markAborted fun id' => id' = id) :=
      h.send ⟨h.valid.queue, h.valid.workers⟩ rfl fun k w' hw' => ⟨w', hw', .inl rfl⟩
    have hsent : Exclusive config key ((s.markAborted fun id' => id' = id).sendItem id .abort) :=
      hmarked.sendItem id nofun
    exact ⟨key, hsent.call hv rfl rfl rfl
      (fun b hb => ⟨b, List.mem_of_mem_filter hb, .refl b⟩) (fun k w' hw' => ⟨w', hw', .inl rfl⟩)
      (shrinks_dropPersisted _ _) fun _ he => .inl he⟩
  | clearComplete =>
    cases hs
    exact ⟨key, h.call hv rfl rfl rfl (fun b hb => ⟨b, List.mem_of_mem_filter hb, .refl b⟩)
      (fun k w' hw' => ⟨w', hw', .inl rfl⟩) (Worker.shrinks_refl _) fun _ he => .inl he⟩
  | clearFinished =>
    cases hs
    exact ⟨key, h.call hv rfl rfl rfl (fun b hb => ⟨b, List.mem_of_mem_filter hb, .refl b⟩)
      (fun k w' hw' => ⟨w', hw', .inl rfl⟩) (shrinks_dropPersisted _ _) fun _ he => .inl he⟩
  | retryItem id =>
    cases hs
    exact ⟨key, h.call hv (Session.slots_retryItem _ id).1 (Session.slots_retryItem _ id).2 rfl
      (fun b hb => lessened_retryItem hb) (fun k w' hw' => ⟨w', hw', .inl rfl⟩)
      (Worker.shrinks_refl _) fun _ he => .inl he⟩
  | tick now => exact ⟨key, h.tick hs hok⟩
  | work slot wm => exact h.work hs fun w hw u hu => hfair w hw u hu
  | reload => cases hs; exact ⟨key, mounted_exclusive _ fun k entry hk => h.stored k entry hk⟩

theorem run_exclusive (h : Exclusive config key s)
    (hr : Session.Reaches config (fun s m => Fair s m ∧ NoLiveResume config s m) s s') :
    ∃ key', Exclusive config key' s' := by
  induction hr with
  | refl => exact ⟨key, h⟩
  | step _ hok hs ih =>
    obtain ⟨key', h'⟩ := ih
    exact step_exclusive h' hok.1 hok.2 hs

end Run

/-- No two workers execute uploads of one URL, and no two items that have not ended are bound
to one URL. -/
structure UrlsExclusive (s : Session) : Prop where
  workers : ∀ (i j : Nat) w w' ρ ρ' u, s.workers[i]? = some w → s.workers[j]? = some w' →
    w.engine.run? = some ρ → w'.engine.run? = some ρ' → ρ.url = some u → ρ'.url = some u → i = j
  items : ∀ a ∈ s.queue.items, ∀ b ∈ s.queue.items, a.status.isTerminal = false →
    b.status.isTerminal = false → ∀ u, a.Bound u → b.Bound u → a = b

/-- In every run in which callers supply no URLs of their own, the server gives out new ones, no
item is handed to a worker with work left, and none gets a URL that a worker still has to do
with, no URL is bound twice. -/
theorem urls_exclusive (config : TusConfig) (workerCount : Nat) (s : Session)
    (hr : Session.Reaches config (fun s m => Fair s m ∧ NoLiveResume config s m)
      (Session.new workerCount) s) : UrlsExclusive s := by
  have hnew : Exclusive config id (Session.new workerCount) :=
    mounted_exclusive workerCount fun k entry hk => nomatch hk
  obtain ⟨key, h⟩ := run_exclusive hnew hr
  refine ⟨?_, ?_⟩
  · rintro i j w w' ⟨v, url⟩ ⟨v', url'⟩ u hw hw' hrun hrun' rfl rfl
    exact h.apart i j w w' v v' u hw hw' (.inl hrun) (.inl hrun')
  · intro a ha b hb hna hnb u hua hub
    exact eq_of_id h.valid.queue.slotted.distinct ha hb
      (h.one u _ _ (.item ha hna hua) (.item hb hnb hub))

/-- An item is handed to a worker and gets a URL. -/
theorem urls_exclusive_created :
    ∃ s, Session.Reaches ⟨"https://h/f", 0⟩
        (fun s m => Fair s m ∧ NoLiveResume ⟨"https://h/f", 0⟩ s m) (Session.new 2) s ∧
      (s.workers.map fun w => w.engine.run?.bind Run.url) = [some "https://h/f/1", none] ∧
      UrlsExclusive s := by
  have h₁ : Session.Reaches ⟨"https://h/f", 0⟩
      (fun s m => Fair s m ∧ NoLiveResume ⟨"https://h/f", 0⟩ s m) (Session.new 2) _ :=
    .step (m := .add ⟨"a", 1, 0⟩ ⟨none⟩ 0) .refl
      ⟨rfl, fun _ => show 0 + 1 < 2 ^ 64 by decide, nofun⟩ rfl
  have htick : ∀ (s : Session) (now : Int), (∀ w ∈ s.workers, w = Worker.new) →
      Fair s (.tick now) ∧ NoLiveResume ⟨"https://h/f", 0⟩ s (.tick now) := by
    intro s now hall
    refine ⟨trivial, fun k _ w hw => ?_⟩
    rw [hall w (List.mem_of_getElem? hw)]
    exact ⟨rfl, fun _ => List.not_mem_nil⟩
  have h₂ := Session.Reaches.step (m := .tick 0) h₁
    (htick _ 0 fun w hw => List.eq_of_mem_replicate hw) rfl
  have h₃ := Session.Reaches.step (m := .work 0 .take) h₂
    ⟨fun _ _ _ _ => List.not_mem_nil, nofun, nofun⟩ rfl
  have h₄ := Session.Reaches.step (m := .work 0 (.created "https://h/f/1" 0 0 .stored)) h₃
    ⟨fun _ _ _ _ => List.not_mem_nil, nofun, nofun⟩ rfl
  exact ⟨_, h₄, rfl, urls_exclusive _ 2 _ h₄⟩

instance : ∀ (s : Session) (m : Session.Move), Decidable (Fair s m)
  | _, .add _ options _ => inferInstanceAs (Decidable (options.existingUrl = none))
  | s, .resumeEntry entry _ _ _ => inferInstanceAs (Decidable (entry ∈ s.scanned))
  | s, .work slot m => inferInstanceAs
      (Decidable (∀ w ∈ s.workers[slot]?, ∀ u ∈ w.issued? m, u ∉ s.issued))
  | _, .scanResumable _ | _, .pauseAll | _, .resumeAll | _, .abortAll | _, .pauseItem _
  | _, .resumeItem _ | _, .abortItem _ | _, .removeItem _ | _, .clearComplete | _, .clearFinished
  | _, .retryItem _ | _, .tick _ | _, .reload => isTrue trivial

/-- The file's upload is created and its entry is listed; the item is removed, and the file is
resumed from the entry while the first worker has not yet come to its abort. -/
def sharedUrl : List Session.Move :=
  let config : TusConfig := ⟨"https://h/f", 0⟩
  let file : File := ⟨"a", 1, 0⟩
  let t : Transfer := ⟨⟨0, file, ⟨none⟩⟩, "https://h/f/1", 0, 0⟩
  [.add file ⟨none⟩ 0, .tick 0, .work 0 .take, .work 0 (.created "https://h/f/1" 0 0 .stored),
    .scanResumable 0, .removeItem 0, .resumeEntry (Worker.entry config t) file ⟨none⟩ 0, .tick 0,
    .work 1 .take]

theorem removed_item_shares_url :
    ¬∀ s, Session.Reaches ⟨"https://h/f", 0⟩ Fair (Session.new 2) s → UrlsExclusive s := by
  have hrun : (((Session.new 2).run ⟨"https://h/f", 0⟩ Fair sharedUrl).map fun s =>
      s.workers.map fun w => w.engine.run?.bind Run.url) =
        some [some "https://h/f/1", some "https://h/f/1"] := by
    decide +kernel
  obtain ⟨s, hs, hurls⟩ := Option.map_eq_some_iff.mp hrun
  -- the two workers are bound to one URL
  have hbound : ∀ k : Nat, (s.workers.map fun w => w.engine.run?.bind Run.url)[k]? =
      some (some "https://h/f/1") →
      ∃ w ρ, s.workers[k]? = some w ∧ w.engine.run? = some ρ ∧ ρ.url = some "https://h/f/1" := by
    intro k hk
    rw [List.getElem?_map] at hk
    obtain ⟨w, hw, hurl⟩ := Option.map_eq_some_iff.mp hk
    obtain ⟨ρ, hρ, hurl⟩ := Option.bind_eq_some_iff.mp hurl
    exact ⟨w, ρ, hw, hρ, hurl⟩
  obtain ⟨w, ρ, hw, hρ, hu⟩ := hbound 0 (by rw [hurls]; rfl)
  obtain ⟨w', ρ', hw', hρ', hu'⟩ := hbound 1 (by rw [hurls]; rfl)
  intro hall
  have hsame := (hall s (Session.reaches_of_run hs)).workers 0 1 w w' ρ ρ' _ hw hw' hρ hρ' hu hu'
  cases hsame

end Browser

end TusRs
