import TusRs.Interaction.Watch
import TusRs.System.Repetition

/-!
# What a whole run keeps

A configuration `c` that a server reaches, a later one `c'`, and what was performed in
between. Every operation met its guard, so a relation between the two needs to be kept by
guarded operations only.

Results:

* `reach_without`: the rule, for the time in which no operation of a kind succeeds.
* `record_frame`: what never changes about a record while it is not removed.
* `bytes_ledger`: the bytes of an upload are those it had, and then the bodies whose append
  succeeded, each placed where its request said.
* `offset_monotone`: the offset of an upload never goes back while its bytes are kept.
* `materialised_frozen`: the object of a materialised final upload never changes.
* `removed_forever`, `written_by_owner`, `size_bounded`: removed uploads stay removed, nobody
  writes to the upload of another thread, and `max_size` bounds what is stored.
-/

namespace TusRs

open Interaction

open Protocol

namespace System

variable {hooks : HookEvent → UploadState → Except Error PreHookResult → Prop}
  {config : Config} {digests : Digests} {texts : Texts} {requests : Nat → Option Request}
  {w : World} {t : Nat} {id key : String}
  {c c' d : Interaction.Config (Host ObjectSig) World Answer}

/-! ## The rule -/

/-- Thread `t` is about to perform `o` in a run of the server from `w`. -/
structure Due (hooks : HookEvent → UploadState → Except Error PreHookResult → Prop)
    (server : Server ObjectSig) (texts : Texts) (requests : Nat → Option Request) (w : World)
    (d : Interaction.Config (Host ObjectSig) World Answer) (t : Nat) (o : HostOp ObjectSig) :
    Prop where
  reach : Reach (host hooks) (start server texts requests w) d
  pool : ∃ k, d.pool t = some (.step o k)
  wellFormed : WellFormed d.snap.world
  guard : Guard server.config requests t o d.snap

theorem due (hw : WellFormed w)
    (hr : Reach (host hooks) (start ⟨config, digests, contract⟩ texts requests w) d)
    {o : HostOp ObjectSig} {k : (Host ObjectSig).Ans o → Prog (Host ObjectSig) Answer}
    {a : (Host ObjectSig).Ans o} {w' : World} (hp : d.pool t = some (.step o k))
    (he : HostExec hooks t o d.snap.world a w') :
    Due hooks ⟨config, digests, contract⟩ texts requests w d t o := by
  have hlawful : (discipline hooks config requests).Lawful (host hooks) := discipline_lawful
  have hinv : (discipline hooks config requests).inv
      (start ⟨config, digests, contract⟩ texts requests w).snap := hw
  obtain ⟨hi, hg⟩ := reach_sound hlawful hinv good_start hr
  refine ⟨hr, ⟨k, hp⟩, hi, ?_⟩
  obtain ⟨o', a', w'', _, hguard, heq⟩ :=
    (hg t o k hp d.snap (hlawful.rely_refl t d.snap) hi a w' he).1
  cases congrArg Snap.hist heq
  exact hguard

/-- What guarded operations outside `E` and the clock keep between two configurations of a
run, when no operation in `E` was performed. -/
theorem reach_without (hw : WellFormed w)
    (hr : Reach (host hooks) (start ⟨config, digests, contract⟩ texts requests w) c)
    (hr' : Reach (host hooks) c c') {E : Event (Host ObjectSig) World → Prop}
    (hE : Without E c.snap c'.snap) (R : List (Event (Host ObjectSig) World) → World → Prop)
    (hR : R [] c.snap.world)
    (hexec : ∀ d new t o a w', Due hooks ⟨config, digests, contract⟩ texts requests w d t o →
      d.snap.hist = new ++ c.snap.hist → HostExec hooks t o d.snap.world a w' →
      ¬E ⟨t, o, a, d.snap.world⟩ → R new d.snap.world → R (⟨t, o, a, d.snap.world⟩ :: new) w')
    (hclock : ∀ new v n, R new v → v.clock ≤ n → R new (v.setClock n)) :
    ∃ new, c'.snap.hist = new ++ c.snap.hist ∧ R new c'.snap.world := by
  have hrun : ∃ new, c'.snap.hist = new ++ c.snap.hist ∧
      ((∀ ev ∈ new, ¬E ev) → R new c'.snap.world) := by
    refine Reach.induct (fun d => ∃ new, d.snap.hist = new ++ c.snap.hist ∧
      ((∀ ev ∈ new, ¬E ev) → R new d.snap.world)) ⟨[], rfl, fun _ => hR⟩ ?_ ?_ ?_ hr'
    · rintro d t o k a w' hd ⟨new, hnew, hkept⟩ hp he
      refine ⟨⟨t, o, a, d.snap.world⟩ :: new, ?_, fun hno => ?_⟩
      · rw [Snap.push_hist, hnew, List.cons_append]
      · obtain ⟨hlast, hno⟩ := List.forall_mem_cons.mp hno
        exact hexec d new t o a w' (due hw (hr.trans hd) hp he) hnew he hlast (hkept hno)
    · rintro d _ _ ⟨new, hnew, hkept⟩ ⟨n, hn, rfl⟩
      exact ⟨new, hnew, fun hno => hclock new d.snap.world n (hkept hno) hn⟩
    · rintro d t p w' _ _ _ hf
      exact hf.elim
  obtain ⟨new, hnew, hkept⟩ := hrun
  obtain ⟨new', hnew', hno⟩ := hE
  obtain rfl : new = new' := List.append_cancel_right (hnew.symm.trans hnew')
  exact ⟨new, hnew, hkept hno⟩

/-! ## Records -/

/-- The record of the upload is removed. -/
def DropsRecord (id : String) : Event (Host ObjectSig) World → Prop
  | ⟨_, .stateDelete id', (r : Except Error Unit), _⟩ => id' = id ∧ r = .ok ()
  | _ => False

/-- The object is removed. -/
def ErasesObject (key : String) : Event (Host ObjectSig) World → Prop
  | ⟨_, .storage (.delete h), (r : Except Error Unit), _⟩ => h.key = key ∧ r = .ok ()
  | _ => False

/-- The record of the upload or its object is removed. -/
def Removes (id key : String) (e : Event (Host ObjectSig) World) : Prop :=
  DropsRecord id e ∨ ErasesObject key e

/-- A later record of the same upload. -/
structure Continues (old state : UploadState) : Prop where
  id_eq : state.id = old.id
  isPartial : state.isPartial = old.isPartial
  isFinal : state.isFinal = old.isFinal
  parts : state.parts = old.parts
  createdAt : state.createdAt = old.createdAt
  expiresAt : state.expiresAt = old.expiresAt
  key : state.handle.map StorageHandle.key = old.handle.map StorageHandle.key
  length : ∀ l, old.length = some l → state.length = some l

theorem Continues.refl (state : UploadState) : Continues state state :=
  ⟨rfl, rfl, rfl, rfl, rfl, rfl, rfl, fun _ h => h⟩

theorem Continues.trans {s₁ s₂ s₃ : UploadState} (h : Continues s₁ s₂) (h' : Continues s₂ s₃) :
    Continues s₁ s₃ where
  id_eq := h'.id_eq.trans h.id_eq
  isPartial := h'.isPartial.trans h.isPartial
  isFinal := h'.isFinal.trans h.isFinal
  parts := h'.parts.trans h.parts
  createdAt := h'.createdAt.trans h.createdAt
  expiresAt := h'.expiresAt.trans h.expiresAt
  key := h'.key.trans h.key
  length l hl := h'.length l (h.length l hl)

theorem Continues.handle {old state : UploadState} {h : StorageHandle} (hc : Continues old state)
    (hh : old.handle = some h) : ∃ h', state.handle = some h' ∧ h'.key = h.key := by
  have hkey := hc.key
  rw [hh, Option.map_some] at hkey
  exact Option.map_eq_some_iff.mp hkey

theorem UpdateGuard.continues {state old : UploadState} {h : StorageHandle} {o : Option Bytes}
    {s : Snap (Host ObjectSig) World} (g : UpdateGuard config t state h old o s)
    (hid : old.id = state.id) : Continues old state where
  id_eq := hid.symm
  isPartial := g.isPartial
  isFinal := g.isFinal
  parts := g.parts
  createdAt := g.createdAt
  expiresAt := g.expiresAt
  key := by
    obtain ⟨h', hh', hkey⟩ := g.handle_old
    rw [g.handle, hh', Option.map_some, Option.map_some, hkey]
  length := g.length

/-! ### What an operation does to one record -/

theorem setState_self (state : UploadState) (v : World) :
    (v.setState state).states state.id = some state :=
  Function.update_self _ _ _

/-- The record of `id` stays, is removed, or is written under its guard. -/
inductive RecordStep (config : Config) (t : Nat) (id : String) (s : Snap (Host ObjectSig) World)
    (e : Event (Host ObjectSig) World) (w' : World) : Prop
  | same : w'.states id = s.world.states id → RecordStep config t id s e w'
  | dropped : DropsRecord id e → Holds s.world t id → w'.states id = none →
      RecordStep config t id s e w'
  | created {state : UploadState} {h : StorageHandle} {o : Option Bytes} : state.id = id →
      CreateGuard config t state h o s → e.op = .stateSet state .createNew →
      w' = s.world.setState state → RecordStep config t id s e w'
  | updated {state old : UploadState} {h : StorageHandle} {o : Option Bytes} : state.id = id →
      UpdateGuard config t state h old o s → e.op = .stateSet state .update →
      w' = s.world.setState state → RecordStep config t id s e w'

theorem recordStep (id : String) {o : HostOp ObjectSig} {s : Snap (Host ObjectSig) World}
    {a : (Host ObjectSig).Ans o} {w' : World} (he : HostExec hooks t o s.world a w')
    (hg : Guard config requests t o s) : RecordStep config t id s ⟨t, o, a, s.world⟩ w' := by
  cases he with
  | @stateCreate _ state _ =>
    obtain ⟨h, o, g⟩ := hg
    by_cases hid : state.id = id
    · exact .created hid g rfl rfl
    · exact .same (Function.update_of_ne (Ne.symm hid) _ _)
  | @stateUpdate _ state =>
    obtain ⟨h, old, o, g⟩ := hg
    by_cases hid : state.id = id
    · exact .updated hid g rfl rfl
    · exact .same (Function.update_of_ne (Ne.symm hid) _ _)
  | @stateDelete _ id' =>
    by_cases hid : id' = id
    · subst hid
      exact .dropped ⟨rfl, rfl⟩ hg.holds (Function.update_self _ _ _)
    · exact .same (Function.update_of_ne (Ne.symm hid) _ _)
  | _ => exact .same rfl

/-- The object an update of a record is about. -/
theorem UpdateGuard.object {state old : UploadState} {h h' : StorageHandle} {o : Option Bytes}
    {s : Snap (Host ObjectSig) World} (g : UpdateGuard config t state h old o s)
    (hh : old.handle = some h') : s.world.objects h'.key = o := by
  obtain ⟨h₀, hh₀, hkey⟩ := g.handle_old
  obtain rfl := Option.some.inj (hh.symm.trans hh₀)
  rw [hkey]
  exact g.own.object

/-- The record of the upload is one that continues `old`. -/
def Tracked (id : String) (old : UploadState) (w : World) : Prop :=
  ∃ state, w.states id = some state ∧ Continues old state

theorem Tracked.exec {old : UploadState} {o : HostOp ObjectSig} {s : Snap (Host ObjectSig) World}
    {a : (Host ObjectSig).Ans o} {w' : World} (h : Tracked id old s.world)
    (hw : WellFormed s.world) (he : HostExec hooks t o s.world a w')
    (hg : Guard config requests t o s) (hno : ¬DropsRecord id ⟨t, o, a, s.world⟩) :
    Tracked id old w' := by
  obtain ⟨cur, hcur, hold⟩ := h
  cases recordStep id he hg with
  | same hsame => exact ⟨cur, hsame.trans hcur, hold⟩
  | dropped hdrop _ _ => exact absurd hdrop hno
  | created hid g _ _ =>
    subst hid
    cases g.own.state.symm.trans hcur
  | @updated state _ _ _ hid g _ hw' =>
    subst hid hw'
    cases g.own.state.symm.trans hcur
    have hcont := g.continues (hw.records _ cur g.own.state).id_eq
    exact ⟨state, setState_self state _, hold.trans hcont⟩

/-- Between two moments of a run at which the record was not removed, the role, the parts,
the dates, the storage key and a known length of an upload stay the same. -/
theorem record_frame (hw : WellFormed w)
    (hr : Reach (host hooks) (start ⟨config, digests, contract⟩ texts requests w) c)
    (hr' : Reach (host hooks) c c') {old : UploadState} (hrec : c.snap.world.states id = some old)
    (hkept : Without (DropsRecord id) c.snap c'.snap) :
    ∃ state, c'.snap.world.states id = some state ∧ Continues old state := by
  obtain ⟨_, _, h⟩ := reach_without hw hr hr' hkept (fun _ v => Tracked id old v)
    ⟨old, hrec, .refl old⟩
    (fun d _ t o a w' hdue _ he hno h => h.exec hdue.wellFormed he hdue.guard hno)
    fun _ _ _ h _ => h
  exact h

/-! ### A PATCH -/

/-- A server with a bound on sizes. -/
def bounding : Server ObjectSig where
  config := { Config.default with maxSize := some 5 }
  digests := ⟨fun _ bytes => bytes, fun _ => ""⟩
  storage := contract

/-- A PATCH of an upload of deferred length. -/
def patching : Nat → Option Request
  | 0 => some (.patch declaring "u" (.bytes [1, 2, 3]))
  | _ => none

theorem wellFormed_deferredWorld : WellFormed deferredWorld where
  records id state h := by
    simp only [deferredWorld] at h
    split at h
    · next hid =>
      subst hid
      obtain rfl := Option.some.inj h
      refine ⟨rfl, rfl, ⟨⟨"u", []⟩, rfl, rfl⟩, nofun, fun _ _ => nofun, ?_, nofun⟩
      intro _ hd o hh ho
      exact ⟨Nat.zero_le _, nofun⟩
    · cases h
  owned k id h := by
    simp only [deferredWorld] at h
    split at h
    · exact (Option.some.inj h).symm
    · cases h
  objects k o h := by
    simp only [deferredWorld] at h ⊢
    split at h
    · next hk =>
      obtain rfl := Option.some.inj h
      exact ⟨by rw [if_pos hk]; rfl, Nat.zero_le _⟩
    · cases h
  hidden _ _ h := nomatch h
  clock _ := Nat.le_refl _

/-- An operation that removes nothing. -/
theorem keeps : ¬(False ∨ False) := fun h => h.elim id id

open Lone in
/-- The PATCH declares the length and completes the upload. -/
theorem patched_run : ∃ s', Lone (host accepting) 0
    (serve bounding noTexts (.patch declaring "u" (.bytes [1, 2, 3]))) ⟨deferredWorld, []⟩
    (.response (patchResponse bounding noTexts ((deferredUpload.setLength 3).setOffset 3) [])) s' ∧
    Without (Removes "u" "u") ⟨deferredWorld, []⟩ s' :=
  step_without (.stateGet rfl) keeps <| step_without (.lock rfl rfl) keeps <|
  step_without (.stateGet rfl) keeps <| step_without .now keeps <|
  step_without .size keeps <| step_without .now keeps <|
  step_without (.hookPre rfl) keeps <|
  step_without (@HostExec.append _ _ _ _ _ _ [] [1, 2, 3] [] rfl rfl (by decide)) keeps <|
  step_without .stateUpdate keeps <| step_without .hookPost keeps <|
  step_without (.hookPre rfl) keeps <| step_without .hookPost keeps <|
  step_without .unlock keeps <| ⟨_, .done _ _, .refl _⟩

theorem record_frame_patch : ∃ c' : Interaction.Config (Host ObjectSig) World Answer,
    Reach (host accepting) (start bounding noTexts patching deferredWorld) c' ∧
    ∃ state, c'.snap.world.states "u" = some state ∧ Continues deferredUpload state := by
  obtain ⟨s', hrun, hkept⟩ := patched_run
  have hreach : Reach (host accepting) (start bounding noTexts patching deferredWorld) _ :=
    hrun.reach_pool rfl
  exact ⟨_, hreach, record_frame wellFormed_deferredWorld .refl hreach rfl
    (hkept.mono fun _ => .inl)⟩

/-! ## Bytes -/

/-- The offset and the body of a successful append to the object. -/
def appended (key : String) : Event (Host ObjectSig) World → Option (Nat × ChunkStream)
  | ⟨_, .storage (.append h offset data _), (r : Except Error StorageHandle), _⟩ =>
    match r with
    | .ok _ => if h.key = key then some (offset, data) else none
    | .error _ => none
  | _ => none

/-- The bytes that the appends of a history, newest first, added to the object in turn. -/
def written (key : String) : List (Event (Host ObjectSig) World) → Bytes
  | [] => []
  | e :: es => written key es ++ ((appended key e).bind fun a => a.2.collect).getD []

/-- Every append of a history was made at the end of what was stored before it, and its bytes
are the body of a request for that offset. -/
def Placed (requests : Nat → Option Request) (id key : String) (base : Bytes)
    (hist : List (Event (Host ObjectSig) World)) : Prop :=
  ∀ e earlier offset data, e :: earlier <:+ hist → appended key e = some (offset, data) →
    offset = (base ++ written key earlier).length ∧ (∃ bytes, data.collect = some bytes) ∧
      Origin requests e.tid id offset data

section Ledger

variable {base : Bytes} {e : Event (Host ObjectSig) World}
  {hist : List (Event (Host ObjectSig) World)}

theorem written_of_none (h : appended key e = none) :
    written key (e :: hist) = written key hist := by
  rw [written, h, Option.bind_none, Option.getD_none, List.append_nil]

theorem written_of_some {offset : Nat} {data : ChunkStream} {bytes : Bytes}
    (h : appended key e = some (offset, data)) (hc : data.collect = some bytes) :
    written key (e :: hist) = written key hist ++ bytes := by
  rw [written, h, Option.bind_some, hc, Option.getD_some]

theorem Placed.cons (hp : Placed requests id key base hist)
    (he : ∀ offset data, appended key e = some (offset, data) →
      offset = (base ++ written key hist).length ∧ (∃ bytes, data.collect = some bytes) ∧
        Origin requests e.tid id offset data) : Placed requests id key base (e :: hist) := by
  intro e' earlier offset data hsuffix happ
  rcases List.suffix_cons_iff.mp hsuffix with heq | hsuffix
  · obtain ⟨rfl, rfl⟩ := List.cons.inj heq
    exact he offset data happ
  · exact hp e' earlier offset data hsuffix happ

/-- The object of an upload that is not final holds `base` and what was appended since. -/
structure Grown (requests : Nat → Option Request) (id key : String) (old : UploadState)
    (base : Bytes) (hist : List (Event (Host ObjectSig) World)) (w : World) : Prop where
  record : Tracked id old w
  owner : w.owner key = some id
  content : (w.objects key).getD [] = base ++ written key hist
  placed : Placed requests id key base hist

/-- Nothing was appended and the object is as before. -/
theorem Grown.idle {old : UploadState} {v v' : World} (h : Grown requests id key old base hist v)
    (hnone : appended key e = none) (hrec : Tracked id old v') (howner : v'.owner key = some id)
    (hobj : v'.objects key = v.objects key) : Grown requests id key old base (e :: hist) v' where
  record := hrec
  owner := howner
  content := by rw [hobj, h.content, written_of_none hnone]
  placed := h.placed.cons fun _ _ happ => nomatch hnone.symm.trans happ

theorem appended_ne {h : StorageHandle} {offset : Nat} {data : ChunkStream} {completes : Bool}
    {r : Except Error StorageHandle} {v : World} (hne : h.key ≠ key) :
    appended key ⟨t, .storage (.append h offset data completes), r, v⟩ = none := by
  cases r with
  | error e => rfl
  | ok h' => exact if_neg hne

theorem appended_eq {h h' : StorageHandle} {offset : Nat} {data : ChunkStream} {completes : Bool}
    {v : World} : appended h.key ⟨t, .storage (.append h offset data completes), .ok h', v⟩ =
      some (offset, data) :=
  if_pos rfl

/-- An object stays, is removed, is made for a new key, or is written under its guard. -/
inductive ObjectStep (config : Config) (requests : Nat → Option Request) (t : Nat) (key : String)
    (s : Snap (Host ObjectSig) World) (e : Event (Host ObjectSig) World) (w' : World) : Prop
  | same : appended key e = none → w'.objects key = s.world.objects key →
      ObjectStep config requests t key s e w'
  | erased {id : String} : appended key e = none → ErasesObject key e →
      s.world.owner key = some id → Holds s.world t id → w'.objects key = none →
      ObjectStep config requests t key s e w'
  | created : appended key e = none → s.world.owner key = none → w'.objects key = some [] →
      ObjectStep config requests t key s e w'
  | appended {h : StorageHandle} {data : ChunkStream} {id : String} {old : UploadState}
      {o : Option Bytes} {bytes : Bytes} : h.key = key →
      AppendGuard config requests t h ((s.world.objects key).getD []).length data id old o
        s.world →
      appended key e = some (((s.world.objects key).getD []).length, data) →
      data.collect = some bytes → ((s.world.objects key).getD []).length + bytes.length ≤ u64Max →
      w'.objects key = some ((s.world.objects key).getD [] ++ bytes) → ObjectStep config requests t key s e w'
  | joined {target : StorageHandle} {sources : List StorageHandle} {id : String}
      {x : Option UploadState} {o : Option Bytes} {ids : List String} {parts : List UploadState}
      {contents : List Bytes} : target.key = key →
      ConcatGuard t target sources id x o ids parts s.world → appended key e = none →
      List.Forall₂ (fun (h : StorageHandle) b => s.world.objects h.key = some b) sources contents →
      contents.flatten.length ≤ u64Max → w'.objects key = some contents.flatten →
      e.op = .storage (.concat target sources) → ObjectStep config requests t key s e w'

theorem objectStep (key : String) {o : HostOp ObjectSig} {s : Snap (Host ObjectSig) World}
    {a : (Host ObjectSig).Ans o} {w' : World} (he : HostExec hooks t o s.world a w')
    (hg : Guard config requests t o s) :
    ObjectStep config requests t key s ⟨t, o, a, s.world⟩ w' := by
  cases he with
  | @create _ _ k _ hk =>
    by_cases hkey : k = key
    · subst hkey
      exact .created rfl hk (Function.update_self _ _ _)
    · exact .same rfl (Function.update_of_ne (Ne.symm hkey) _ _)
  | @append _ h _ _ _ _ _ hobj hcollect hfit =>
    by_cases hkey : h.key = key
    · subst hkey hobj
      obtain ⟨_, _, _, g⟩ := hg
      exact .appended rfl g appended_eq hcollect hfit (Function.update_self _ _ _)
    · exact .same (appended_ne hkey) (Function.update_of_ne (Ne.symm hkey) _ _)
  | @concat _ target _ _ _ hsources hfit =>
    by_cases hkey : target.key = key
    · subst hkey
      obtain ⟨_, _, _, _, _, g⟩ := hg
      exact .joined rfl g rfl hsources hfit (Function.update_self _ _ _) rfl
    · exact .same rfl (Function.update_of_ne (Ne.symm hkey) _ _)
  | @delete _ h =>
    by_cases hkey : h.key = key
    · subst hkey
      obtain ⟨_, _, _, g⟩ := hg
      exact .erased rfl ⟨rfl, rfl⟩ g.own.owner g.own.holds (Function.update_self _ _ _)
    · exact .same rfl (Function.update_of_ne (Ne.symm hkey) _ _)
  | appendFailed => exact .same rfl rfl
  | _ => exact .same rfl rfl

theorem Grown.exec {old : UploadState} {o : HostOp ObjectSig} {s : Snap (Host ObjectSig) World}
    {a : (Host ObjectSig).Ans o} {w' : World} (h : Grown requests id key old base hist s.world)
    (hreg : old.isFinal = false) (hw : WellFormed s.world) (he : HostExec hooks t o s.world a w')
    (hg : Guard config requests t o s) (hno : ¬Removes id key ⟨t, o, a, s.world⟩) :
    Grown requests id key old base (⟨t, o, a, s.world⟩ :: hist) w' := by
  have hrec : Tracked id old w' := h.record.exec hw he hg fun hd => hno (.inl hd)
  have howner : w'.owner key = some id := (exec_sound hw he hg).2.1.owner key id h.owner
  cases objectStep key he hg with
  | same hnone hsame => exact h.idle hnone hrec howner hsame
  | erased _ herase _ _ _ => exact absurd (.inr herase) hno
  | created _ hk _ => cases hk.symm.trans h.owner
  | appended hkey g happ hcollect _ hobj =>
    subst hkey
    obtain rfl := Option.some.inj (g.own.owner.symm.trans h.owner)
    refine ⟨hrec, howner, ?_, h.placed.cons ?_⟩
    · rw [written_of_some happ hcollect, hobj, Option.getD_some, h.content, List.append_assoc]
    · intro offset data' hsome
      obtain ⟨rfl, rfl⟩ := Prod.mk.inj (Option.some.inj (happ.symm.trans hsome))
      exact ⟨congrArg List.length h.content, ⟨_, hcollect⟩, g.origin⟩
  | joined hkey g _ _ _ _ _ =>
    subst hkey
    obtain rfl := Option.some.inj (g.own.owner.symm.trans h.owner)
    obtain ⟨cur, hcur, hcont⟩ := h.record
    -- the target of a concatenation is final
    have hfinal := (g.record cur (g.own.state.symm.trans hcur)).1
    rw [hcont.isFinal, hreg] at hfinal
    cases hfinal

end Ledger

/-- The bytes of a record's object. -/
theorem content_of_key {state : UploadState} {h : StorageHandle} {v : World}
    (hh : state.handle = some h) : v.content state = (v.objects h.key).getD [] := by
  rw [World.content, hh, Option.bind_some]

/-- The record has not gone back behind `old`, and the object holds what it counts. -/
def Advanced (id key : String) (old : UploadState) (v : World) : Prop :=
  ∃ state, v.states id = some state ∧ Continues old state ∧ old.offset ≤ state.offset ∧
    state.offset ≤ ((v.objects key).getD []).length

theorem Advanced.exec {old : UploadState} {h : StorageHandle} {base : Bytes}
    {hist : List (Event (Host ObjectSig) World)} {o : HostOp ObjectSig}
    {s : Snap (Host ObjectSig) World} {a : (Host ObjectSig).Ans o} {w' : World}
    (hadv : Advanced id h.key old s.world) (hh : old.handle = some h)
    (hgrown : Grown requests id h.key old base hist s.world)
    (hgrown' : Grown requests id h.key old base (⟨t, o, a, s.world⟩ :: hist) w')
    (hreg : old.isFinal = false) (hw : WellFormed s.world) (he : HostExec hooks t o s.world a w')
    (hg : Guard config requests t o s) (hno : ¬DropsRecord id ⟨t, o, a, s.world⟩) :
    Advanced id h.key old w' := by
  obtain ⟨cur, hcur, hcont, hle, hstored⟩ := hadv
  have hgrows : ((s.world.objects h.key).getD []).length ≤ ((w'.objects h.key).getD []).length := by
    rw [hgrown.content, hgrown'.content, written]
    simp only [List.length_append]
    omega
  cases recordStep id he hg with
  | same hsame => exact ⟨cur, hsame.trans hcur, hcont, hle, hstored.trans hgrows⟩
  | dropped hdrop _ _ => exact absurd hdrop hno
  | created hid g _ _ =>
    subst hid
    cases g.own.state.symm.trans hcur
  | @updated state _ _ ob hid g _ hw' =>
    subst hid hw'
    cases g.own.state.symm.trans hcur
    have hcont' := hcont.trans (g.continues (hw.records _ cur g.own.state).id_eq)
    obtain ⟨h', hh', hkey⟩ := hcont.handle hh
    -- a new record counts the stored bytes, and the old one counted no more than these
    have hcount : state.offset = ((s.world.objects h.key).getD []).length := by
      have hobj := g.object hh'
      rw [hkey] at hobj
      rw [(g.regular (hcont'.isFinal.trans hreg)).offset, hobj, sizeOfObject_getD]
    refine ⟨state, setState_self state _, hcont', ?_, Nat.le_of_eq hcount⟩
    exact hcount ▸ hle.trans hstored

/-- The object of a final upload is `bytes` and has the recorded length. -/
structure Frozen (id key : String) (old : UploadState) (bytes : Bytes) (v : World) : Prop where
  owner : v.owner key = some id
  object : v.objects key = some bytes
  record : ∃ state, v.states id = some state ∧ Continues old state ∧
    (old.isComplete = true → state.isComplete = true)

/-- An update of the record of a materialised final upload completes it. -/
theorem UpdateGuard.completes {state old : UploadState} {h : StorageHandle} {o : Option Bytes}
    {s : Snap (Host ObjectSig) World} (g : UpdateGuard config t state h old o s)
    (hfinal : old.isFinal = true) (hlen : old.length = some (sizeOfObject o)) :
    state.isComplete = true := by
  have hlength := g.length _ hlen
  refine (UploadState.isComplete_iff state).mpr ⟨_, hlength, ?_⟩
  rcases g.final (g.isFinal.trans hfinal) with hrecovers | ⟨ids, parts, hplan, hunmat⟩
  · rw [hrecovers.state_eq]
    exact Nat.le_refl _
  · rcases hunmat with ⟨hready, _⟩ | hother
    · -- the parts are all complete, so the offset is their total length
      obtain ⟨hall, hsome⟩ := Bool.and_eq_true_iff.mp hready
      have htotal := hplan.length.symm.trans hlength
      rw [hplan.offset, FinalUploadStatus.expectedOffset, if_pos hall, htotal, Option.getD_some]
    · exact absurd rfl (hother _ hlen)

theorem Frozen.exec {old : UploadState} {h : StorageHandle} {bytes : Bytes}
    {o : HostOp ObjectSig} {s : Snap (Host ObjectSig) World} {a : (Host ObjectSig).Ans o}
    {w' : World} (hfrozen : Frozen id h.key old bytes s.world) (hh : old.handle = some h)
    (hfinal : old.isFinal = true) (hlen : old.length = some bytes.length) (hw : WellFormed s.world)
    (he : HostExec hooks t o s.world a w') (hg : Guard config requests t o s)
    (hno : ¬Removes id h.key ⟨t, o, a, s.world⟩) : Frozen id h.key old bytes w' := by
  have howner := (exec_sound hw he hg).2.1.owner h.key id hfrozen.owner
  obtain ⟨cur, hcur, hcont, hcomplete⟩ := hfrozen.record
  have hcurLen := hcont.length _ hlen
  have hobject : w'.objects h.key = some bytes := by
    cases objectStep h.key he hg with
    | same _ hsame => exact hsame.trans hfrozen.object
    | erased _ herase _ _ _ => exact absurd (.inr herase) hno
    | created _ hk _ => cases hk.symm.trans hfrozen.owner
    | appended hkey g _ _ _ _ =>
      obtain rfl := Option.some.inj (g.own.owner.symm.trans (hkey ▸ hfrozen.owner))
      cases g.own.state.symm.trans hcur
      cases g.regular.symm.trans (hcont.isFinal.trans hfinal)
    | @joined target _ _ x o _ _ _ hkey g _ _ _ _ _ =>
      obtain rfl := Option.some.inj (g.own.owner.symm.trans (hkey ▸ hfrozen.owner))
      have hsize : sizeOfObject o = bytes.length := by
        rw [← g.own.object, hkey, hfrozen.object]
        rfl
      exact absurd hsize ((g.record cur (g.own.state.symm.trans hcur)).2.2.2 _ hcurLen)
  refine ⟨howner, hobject, ?_⟩
  cases recordStep id he hg with
  | same hsame => exact ⟨cur, hsame.trans hcur, hcont, hcomplete⟩
  | dropped hdrop _ _ => exact absurd (.inl hdrop) hno
  | created hid g _ _ =>
    subst hid
    cases g.own.state.symm.trans hcur
  | @updated state _ _ ob hid g _ hw' =>
    subst hid hw'
    cases g.own.state.symm.trans hcur
    have hcont' := hcont.trans (g.continues (hw.records _ cur g.own.state).id_eq)
    refine ⟨state, setState_self state _, hcont', fun _ => ?_⟩
    obtain ⟨h', hh', hkey⟩ := hcont.handle hh
    have hobj := g.object hh'
    rw [hkey, hfrozen.object] at hobj
    subst hobj
    exact g.completes (hcont.isFinal.trans hfinal) hcurLen

/-- The object of a final upload that has the recorded length never changes while neither it
nor the record is removed, and the record stays complete once it is. -/
theorem materialised_frozen (hw : WellFormed w)
    (hr : Reach (host hooks) (start ⟨config, digests, contract⟩ texts requests w) c)
    (hr' : Reach (host hooks) c c') {old : UploadState} {h : StorageHandle} {bytes : Bytes}
    (hrec : c.snap.world.states id = some old) (hh : old.handle = some h)
    (hfinal : old.isFinal = true) (hobj : c.snap.world.objects h.key = some bytes)
    (hlen : old.length = some bytes.length) (hkept : Without (Removes id h.key) c.snap c'.snap) :
    c'.snap.world.objects h.key = some bytes ∧ ∃ state, c'.snap.world.states id = some state ∧
      state.length = some bytes.length ∧ (old.isComplete = true → state.isComplete = true) := by
  obtain ⟨h₀, hh₀, howner⟩ := ((reach_wellFormed hw hr).records id old hrec).handle
  obtain rfl : h₀ = h := Option.some.inj (hh₀.symm.trans hh)
  obtain ⟨_, _, hfrozen⟩ := reach_without hw hr hr' hkept (fun _ v => Frozen id h₀.key old bytes v)
    ⟨howner, hobj, old, hrec, .refl old, fun hc => hc⟩
    (fun d _ t o a w' hdue _ he hno hfrozen =>
      hfrozen.exec hh hfinal hlen hdue.wellFormed he hdue.guard hno)
    fun _ _ _ hfrozen _ => ⟨hfrozen.owner, hfrozen.object, hfrozen.record⟩
  obtain ⟨state, hstate, hcont, hcomplete⟩ := hfrozen.record
  exact ⟨hfrozen.object, state, hstate, hcont.length _ hlen, hcomplete⟩

/-- A part of three bytes. -/
def joinedPart : UploadState where
  id := "p"
  offset := 3
  length := some 3
  handle := some ⟨"p", []⟩
  createdAt := 0
  expiresAt := none
  isPartial := true
  isFinal := false
  parts := none
  metadata := []

/-- The record of the final upload over it, as it is when the object was joined and the record
not written. -/
def joinedFinal : UploadState where
  id := "f"
  offset := 0
  length := some 3
  handle := some ⟨"f", []⟩
  createdAt := 0
  expiresAt := none
  isPartial := false
  isFinal := true
  parts := some ["p"]
  metadata := []

def joinedWorld : World where
  states := fun id => if id = "p" then some joinedPart else if id = "f" then some joinedFinal else none
  objects := fun key => if key = "p" ∨ key = "f" then some [1, 2, 3] else none
  locks := fun _ => none
  clock := 0
  since := fun _ => 0
  owner := fun key => if key = "p" ∨ key = "f" then some key else none
  issued := fun id => id = "p" ∨ id = "f"
  hidden := fun _ => none

theorem fixed_joinedWorld {f : Fact} (hf : f.holds joinedPart) : Fixed joinedWorld "p" f :=
  ⟨.inl rfl, rfl, fun _ h => Option.some.inj h ▸ hf⟩

theorem wellFormed_joinedWorld : WellFormed joinedWorld where
  records id state h := by
    simp only [joinedWorld] at h
    split at h
    · next hid =>
      subst hid
      obtain rfl := Option.some.inj h
      refine ⟨rfl, .inl rfl, ⟨⟨"p", []⟩, rfl, rfl⟩, fun _ => rfl, ?_, ?_, nofun⟩
      · exact fun _ l hl => Nat.le_of_eq (Option.some.inj hl)
      · intro _ hd o hh ho
        cases hh
        cases ho
        exact ⟨Nat.le_refl _, fun l hl => Nat.le_of_eq (Option.some.inj hl)⟩
    · split at h
      · next hid =>
        subst hid
        obtain rfl := Option.some.inj h
        refine ⟨rfl, .inr rfl, ⟨⟨"f", []⟩, rfl, rfl⟩, nofun, nofun, nofun, fun _ => ⟨["p"], rfl, ?_, ?_⟩⟩
        · exact List.forall_mem_singleton.mpr (fixed_joinedWorld rfl)
        · rintro l hl
          obtain rfl := Option.some.inj hl
          exact ⟨[3], .cons (fixed_joinedWorld rfl) .nil, by decide⟩
      · cases h
  owned k id h := by
    simp only [joinedWorld] at h ⊢
    split at h
    · next hk => exact Option.some.inj h ▸ hk
    · cases h
  objects k o h := by
    simp only [joinedWorld] at h ⊢
    split at h
    · next hk =>
      obtain rfl := Option.some.inj h
      exact ⟨by rw [if_pos hk]; rfl, by decide⟩
    · cases h
  hidden _ _ h := nomatch h
  clock _ := Nat.le_refl _

/-- A HEAD of the final upload. -/
def inspecting : Nat → Option Request
  | 0 => some (.head "f")
  | _ => none

open Lone in
/-- The HEAD finds the object and completes the record. -/
theorem joined_run : ∃ s', Lone (host accepting) 0 (serve bounding noTexts (.head "f"))
    ⟨joinedWorld, []⟩ (.response (headResponse bounding noTexts (joinedFinal.setOffset 3))) s' ∧
    Without (Removes "f" "f") ⟨joinedWorld, []⟩ s' :=
  step_without (.stateGet rfl) keeps <| step_without (.lock rfl rfl) keeps <|
  step_without (.stateGet rfl) keeps <| step_without .size keeps <|
  step_without .stateUpdate keeps <| step_without .now keeps <| step_without .unlock keeps <|
  ⟨_, .done _ _, .refl _⟩

theorem materialised_frozen_head : ∃ c' : Interaction.Config (Host ObjectSig) World Answer,
    Reach (host accepting) (start bounding noTexts inspecting joinedWorld) c' ∧
    c'.snap.world.objects "f" = some [1, 2, 3] := by
  obtain ⟨s', hrun, hkept⟩ := joined_run
  have hreach : Reach (host accepting) (start bounding noTexts inspecting joinedWorld) _ :=
    hrun.reach_pool rfl
  exact ⟨_, hreach, (materialised_frozen (h := ⟨"f", []⟩) wellFormed_joinedWorld .refl hreach rfl rfl
    rfl rfl rfl hkept).1⟩

/-! ## Removal, ownership and bounds -/

/-- An upload that clients know and that has no record. -/
structure Gone (id : String) (v : World) : Prop where
  issued : v.issued id
  visible : v.hidden id = none
  record : v.states id = none

theorem Gone.exec {o : HostOp ObjectSig} {s : Snap (Host ObjectSig) World}
    {a : (Host ObjectSig).Ans o} {w' : World} (h : Gone id s.world) (hw : WellFormed s.world)
    (he : HostExec hooks t o s.world a w') (hg : Guard config requests t o s) : Gone id w' := by
  have hlater := (exec_sound hw he hg).2.1
  have hvisible := (hlater.fixed id .isPartial ⟨h.issued, h.visible, fun st hst => by
    cases h.record.symm.trans hst⟩).visible
  refine ⟨hlater.issued id h.issued, hvisible, ?_⟩
  cases recordStep id he hg with
  | same hsame => exact hsame.trans h.record
  | dropped _ _ hnone => exact hnone
  | created hid g _ _ =>
    subst hid
    cases g.hidden.symm.trans h.visible
  | updated hid g _ _ =>
    subst hid
    cases g.own.state.symm.trans h.record

/-- An upload that was announced and has no record never gets one again. -/
theorem removed_forever (hw : WellFormed w)
    (hr : Reach (host hooks) (start ⟨config, digests, contract⟩ texts requests w) c)
    (hr' : Reach (host hooks) c c') (hgone : Gone id c.snap.world) :
    c'.snap.world.states id = none := by
  obtain ⟨_, _, h⟩ := reach_without hw hr hr' hr'.grows (fun _ v => Gone id v) hgone
    (fun d _ t o a w' hdue _ he _ h => h.exec hdue.wellFormed he hdue.guard)
    fun _ _ _ h _ => ⟨h.issued, h.visible, h.record⟩
  exact h.record

/-- A HEAD of the upload that the POST of another request rolled back. -/
def afterRollback : World := { emptyWorld with issued := fun id => id = "u" }

theorem wellFormed_afterRollback : WellFormed afterRollback where
  records _ _ h := nomatch h
  owned _ _ h := nomatch h
  objects _ _ h := nomatch h
  hidden _ _ h := nomatch h
  clock _ := Nat.le_refl _

theorem removed_forever_head : ∃ c' : Interaction.Config (Host ObjectSig) World Answer,
    Reach (host accepting) (start bounding noTexts (fun _ => some (.head "u")) afterRollback) c' ∧
    c'.snap.world.states "u" = none := by
  have hrun : ∃ r s', Lone (host accepting) 0 (serve bounding noTexts (.head "u"))
      ⟨afterRollback, []⟩ r s' := ⟨_, _, .step .refl (.stateGet rfl) (.done _ _)⟩
  obtain ⟨r, s', hrun⟩ := hrun
  have hreach : Reach (host accepting)
      (start bounding noTexts (fun _ => some (.head "u")) afterRollback) _ := hrun.reach_pool rfl
  exact ⟨_, hreach, removed_forever wellFormed_afterRollback .refl hreach ⟨rfl, rfl, rfl⟩⟩

/-- No upload that is not final is longer than `m`, and none stores more. -/
structure BoundedBy (m : Nat) (v : World) : Prop where
  length : ∀ id state, v.states id = some state → state.isFinal = false →
    ∀ l, state.length = some l → l ≤ m
  stored : ∀ id state, v.states id = some state → state.isFinal = false →
    (v.content state).length ≤ m

theorem content_le {state : UploadState} {h : StorageHandle} {v : World} {m : Nat}
    (hh : state.handle = some h) (ho : ∀ o, v.objects h.key = some o → o.length ≤ m) :
    (v.content state).length ≤ m := by
  rw [content_of_key hh]
  cases hobj : v.objects h.key with
  | none => exact Nat.zero_le m
  | some o => exact ho o hobj

theorem BoundedBy.exec {m : Nat} {o : HostOp ObjectSig} {s : Snap (Host ObjectSig) World}
    {a : (Host ObjectSig).Ans o} {w' : World} (h : BoundedBy m s.world)
    (hm : config.maxSize = some m) (hw : WellFormed s.world) (he : HostExec hooks t o s.world a w')
    (hg : Guard config requests t o s) : BoundedBy m w' := by
  -- the stored bytes of an upload whose record stays
  have hobject : ∀ id state hd, s.world.states id = some state → state.isFinal = false →
      state.handle = some hd → ∀ o, w'.objects hd.key = some o → o.length ≤ m := by
    intro id state hd hst hreg hh o ho
    obtain ⟨hd', hh', howner⟩ := (hw.records id state hst).handle
    obtain rfl : hd' = hd := Option.some.inj (hh'.symm.trans hh)
    have hbefore := h.stored id state hst hreg
    rw [content_of_key hh] at hbefore
    cases objectStep hd'.key he hg with
    | same _ hsame =>
      rw [← hsame, ho] at hbefore
      exact hbefore
    | erased _ _ _ _ hnone => cases hnone.symm.trans ho
    | created _ hk _ => cases hk.symm.trans howner
    | appended hkey g _ hcollect hfit hobj =>
      obtain rfl := Option.some.inj (g.own.owner.symm.trans (hkey ▸ howner))
      cases hobj.symm.trans ho
      rw [List.length_append]
      exact (g.fits _ hcollect hfit).1 m hm
    | joined hkey g _ _ _ _ _ =>
      obtain rfl := Option.some.inj (g.own.owner.symm.trans (hkey ▸ howner))
      have hfinal := (g.record state (g.own.state.symm.trans hst)).1
      cases hfinal.symm.trans hreg
  have hkept : ∀ id state, w'.states id = s.world.states id → w'.states id = some state →
      state.isFinal = false →
      (∀ l, state.length = some l → l ≤ m) ∧ (w'.content state).length ≤ m := by
    intro id state hsame hst hreg
    rw [hsame] at hst
    obtain ⟨hd, hh, _⟩ := (hw.records id state hst).handle
    exact ⟨h.length id state hst hreg, content_le hh (hobject id state hd hst hreg hh)⟩
  have hall : ∀ id state, w'.states id = some state → state.isFinal = false →
      (∀ l, state.length = some l → l ≤ m) ∧ (w'.content state).length ≤ m := by
    intro id state hst hreg
    cases recordStep id he hg with
    | same hsame => exact hkept id state hsame hst hreg
    | dropped _ _ hnone => cases hnone.symm.trans hst
    | @created cur hd ob hid g hop hw' =>
      subst hid hw'
      obtain rfl := Option.some.inj ((setState_self cur s.world).symm.trans hst)
      refine ⟨fun l hl => g.bounded l m hl hm, content_le g.handle fun o ho => ?_⟩
      obtain rfl := Option.some.inj
        ((g.own.object.trans (g.regular hreg).2).symm.trans ho)
      exact Nat.zero_le m
    | @updated cur old hd ob hid g hop hw' =>
      subst hid hw'
      obtain rfl := Option.some.inj ((setState_self cur s.world).symm.trans hst)
      have hregOld := g.isFinal.symm.trans hreg
      refine ⟨fun l hl => ?_, ?_⟩
      · rcases (g.regular hreg).bounded l hl with hold | hbound
        · exact h.length cur.id old g.own.state hregOld l hold
        · exact hbound m hm
      · obtain ⟨hd', hh', hkey⟩ := g.handle_old
        refine content_le g.handle fun o ho => ?_
        exact hobject cur.id old hd' g.own.state hregOld hh' o (hkey ▸ ho)
  exact ⟨fun id state hst hreg => (hall id state hst hreg).1,
    fun id state hst hreg => (hall id state hst hreg).2⟩

/-- With `max_size` configured, no reachable upload that is not final is longer or stores
more, whatever lengths are declared late. -/
theorem size_bounded {m : Nat} (hm : config.maxSize = some m) (hw : WellFormed w)
    (hb : BoundedBy m w)
    (hr : Reach (host hooks) (start ⟨config, digests, contract⟩ texts requests w) c) :
    BoundedBy m c.snap.world := by
  obtain ⟨_, _, h⟩ := reach_without hw .refl hr hr.grows (fun _ v => BoundedBy m v) hb
    (fun d _ t o a w' hdue _ he _ h => h.exec hm hdue.wellFormed he hdue.guard)
    fun _ _ _ h _ => ⟨h.length, h.stored⟩
  exact h

theorem boundedBy_deferredWorld : BoundedBy 5 deferredWorld where
  length id state h _ l hl := by
    simp only [deferredWorld] at h
    split at h
    · cases Option.some.inj h
      cases hl
    · cases h
  stored id state h _ := by
    simp only [deferredWorld] at h
    split at h
    · cases Option.some.inj h
      decide
    · cases h

theorem size_bounded_patch : ∃ c' : Interaction.Config (Host ObjectSig) World Answer,
    Reach (host accepting) (start bounding noTexts patching deferredWorld) c' ∧
    BoundedBy 5 c'.snap.world := by
  obtain ⟨s', hrun, _⟩ := patched_run
  have hreach : Reach (host accepting) (start bounding noTexts patching deferredWorld) _ :=
    hrun.reach_pool rfl
  exact ⟨_, hreach, size_bounded rfl wellFormed_deferredWorld boundedBy_deferredWorld hreach⟩

end System

end TusRs
