import TusRs.System.Observation

/-!
# Observing twice

A HEAD or GET that follows another one, with only the clock moving in between, should find
nothing left to repair.

* `observation_idempotent_iff`: the second observation repeats the first unless the first
  found one of two kinds of records.
-/

namespace TusRs

open Interaction

open Protocol

namespace System

variable {hooks : HookEvent → UploadState → Except Error PreHookResult → Prop} {t : Nat} {α : Type}

/-- A finish hook is run. -/
def FinishHook : Event (Host ObjectSig) World → Prop
  | ⟨_, .hookPre .preFinish _, _, _⟩ => True
  | ⟨_, .hookPost .postFinish _, _, _⟩ => True
  | _ => False

/-- The upload, or a part of a final upload, expires between the times `m` and `n`. -/
def ExpiresBetween (w : World) (id : String) (m n : Nat) : Prop :=
  ∃ x, w.states id = some x ∧
    ∃ y, (y = x ∨ x.isFinal = true ∧ ∃ ids, x.parts = some ids ∧ ∃ p ∈ ids, w.states p = some y) ∧
      y.expiresBefore m = false ∧ y.expiresBefore n = true

/-- The second of two observations, from `s₁` to `s₂`, changes nothing, runs no finish hook and
tells what the first, begun in `s₀`, has told. It may only fail when one of its operations
failed, when something has expired since `s₀`, or when there is no download to be had. -/
structure Repeats (server : Server ObjectSig) (texts : Texts) (id : String) (second : Observation)
    (s₀ s₁ s₂ : Snap (Host ObjectSig) World) (a₁ a₂ : Answer) : Prop where
  states : s₂.world.states = s₁.world.states
  objects : s₂.world.objects = s₁.world.objects
  silent : ¬Since s₁.hist FinishHook s₂
  answers : ∃ x, s₁.world.states id = some x ∧
    Tells server texts x (s₁.world.content x) a₁ ∧
    (Tells server texts x (s₁.world.content x) a₂ ∨ (∃ e, a₂ = .failed e) ∧
      (Since s₁.hist OpFailed s₂ ∨ ExpiresBetween s₁.world id s₀.world.clock s₂.world.clock ∨
        Unavailable server.config x second))

/-- The object of the final upload `x` has the known total size of its parts, but the record does
not have this length yet, and not all of the parts are complete. -/
structure Misjudges (w : World) (x : UploadState) (h : StorageHandle) (ids : List String)
    (parts : List UploadState) : Prop where
  isFinal : x.isFinal = true
  handle : x.handle = some h
  ids_eq : x.parts = some ids
  records : List.Forall₂ (fun id p => w.states id = some p) ids parts
  total : (statusOf parts).totalLength = some (sizeOfObject (w.objects h.key))
  recorded : x.length ≠ some (sizeOfObject (w.objects h.key))
  offset : (statusOf parts).expectedOffset ≠ sizeOfObject (w.objects h.key)

def Misjudged (w : World) (id : String) : Prop :=
  ∃ x h ids parts, w.states id = some x ∧ Misjudges w x h ids parts

/-- The upload is active only because its record counts more bytes than are stored. -/
def Lapsed (w : World) (id : String) : Prop :=
  ∃ x, w.states id = some x ∧ x.isFinal = false ∧ x.expiresBefore w.clock = false ∧
    (x.setOffset (w.content x).length).expiresBefore w.clock = true

theorem content_length {w : World} {x : UploadState} {h : StorageHandle} (hh : x.handle = some h) :
    (w.content x).length = sizeOfObject (w.objects h.key) := by
  unfold World.content sizeOfObject
  rw [hh, Option.bind_some]
  cases w.objects h.key <;> rfl

/-- No part of a final upload is the upload itself. -/
theorem parts_ne {w : World} {id : String} {x : UploadState} {ids : List String} (hw : WellFormed w)
    (hx : w.states id = some x) (hf : x.isFinal = true) (hids : x.parts = some ids) :
    ∀ p ∈ ids, p ≠ id := by
  rintro p hp rfl
  have hrec := hw.records p x hx
  obtain ⟨ids', hplan⟩ := hrec.planned hf
  obtain rfl : ids = ids' := Option.some.inj (hids.symm.trans hplan.ids_eq)
  have hpartial : x.isPartial = true := (hplan.isPartial p hp).holds x hx
  exact Bool.false_ne_true ((hrec.role hpartial).symm.trans hf)

section Between

variable {s₀ : Snap (Host ObjectSig) World} {id : String} {x x₁ : UploadState} {h : StorageHandle}
  {o₁ : Option Bytes}

theorem records_update {w : World} {ids : List String} {parts : List UploadState} (hne : ∀ p ∈ ids, p ≠ id)
    (hp : List.Forall₂ (fun id p => w.states id = some p) ids parts) :
    List.Forall₂ (fun p y => Function.update w.states id (some x₁) p = some y) ids parts := by
  induction hp with
  | nil => exact .nil
  | cons hrec _ ih =>
    obtain ⟨hhead, htail⟩ := List.forall_mem_cons.mp hne
    exact .cons (by rw [Function.update_of_ne hhead, hrec]) (ih htail)

/-- What a successful observation leaves needs no repair, unless it found a misjudged record. -/
theorem After.steady (hw : WellFormed s₀.world) (hx : s₀.world.states id = some x)
    (hh : x.handle = some h)
    (ha : After s₀ s₀.world.states x h (s₀.world.objects h.key) x₁ o₁)
    (hm : ¬Misjudged s₀.world id) :
    Steady (Function.update s₀.world.states id (some x₁)) x₁ o₁ := by
  match ha.settled with
  | .recounted hf ho hx₁ _ =>
    subst ho hx₁
    exact ⟨fun _ => rfl, fun hfin => absurd (hf.symm.trans hfin) Bool.false_ne_true,
      fun hfin => absurd (hf.symm.trans hfin) Bool.false_ne_true⟩
  | .materialized _ hf hlen hoff _ =>
    exact ⟨fun hreg => absurd (hreg.symm.trans hf) Bool.false_ne_true, fun _ _ => hoff,
      fun _ hne => absurd hlen hne⟩
  | .waiting ids parts hf ho hids hg hfol hoff hun hmissed =>
    subst ho
    have hf₁ := hfol.isFinal.trans hf
    refine ⟨fun hreg => absurd (hreg.symm.trans hf₁) Bool.false_ne_true, fun _ hlen => ?_,
      fun _ _ => ⟨ids, parts, hfol.parts_eq.trans hids, ?_, hun, ?_, hoff⟩⟩
    · by_contra hne
      refine hm ⟨x, h, ids, parts, hx, hf, hh, hids, hg.records, hfol.length.symm.trans hlen, ?_, ?_⟩
      · exact fun hrec => hmissed _ hrec rfl
      · exact hoff ▸ hne
    · exact records_update (parts_ne hw hx hf hids) hg.records
    · exact fun n hn => hfol.length.trans hn

/-- The records that decide whether it is active have not expired. -/
theorem After.alive (hw : WellFormed s₀.world) (hx : s₀.world.states id = some x)
    (hh : x.handle = some h)
    (ha : After s₀ s₀.world.states x h (s₀.world.objects h.key) x₁ o₁)
    (hl : ¬Lapsed s₀.world id) {y : UploadState}
    (hy : Concerns (Function.update s₀.world.states id (some x₁)) x₁ o₁ y) :
    y.expiresBefore s₀.world.clock = false := by
  match ha.settled with
  | .recounted hf ho hx₁ hact =>
    subst ho hx₁
    obtain rfl | ⟨hfin, _⟩ := hy
    · obtain hact | hexp := hact
      · by_contra hlapsed
        refine hl ⟨x, hx, hf, hact, ?_⟩
        rw [content_length hh]
        simpa using hlapsed
      · simp only [UploadState.expiresBefore, hexp, Bool.false_and]
    · exact absurd (hf.symm.trans hfin) Bool.false_ne_true
  | .materialized hf _ hlen _ _ =>
    obtain rfl | ⟨_, hne, _⟩ := hy
    · exact ha.active hf
    · exact absurd hlen hne
  | .waiting ids parts hf ho hids hg hfol _ _ _ =>
    obtain rfl | ⟨_, _, ids', hids', p, hp, hrec⟩ := hy
    · exact ha.active hf
    · obtain rfl : ids = ids' := Option.some.inj (hids.symm.trans (hfol.parts_eq.symm.trans hids'))
      rw [Function.update_of_ne (parts_ne hw hx hf hids p hp)] at hrec
      obtain ⟨q, hq, hqrec⟩ := exists_of_forall₂ hg.records.flip p hp
      obtain rfl : y = q := Option.some.inj (hrec.symm.trans hqrec)
      exact hg.active y hq

/-- What is not a look. -/
def Touches (ev : Event (Host ObjectSig) World) : Prop := ¬Looks ev.op

theorem overlooks_touches : Overlooks Touches := fun _ h ht => ht h

theorem touches_finishHook {ev : Event (Host ObjectSig) World} (h : FinishHook ev) : Touches ev := by
  obtain ⟨_, o, _, _⟩ := ev
  cases o with
  | hookPre event state => exact fun hl => hl
  | hookPost event state => exact fun hl => hl
  | _ => exact h.elim

variable {config : Config} {digests : Digests} {texts : Texts} {s₁ s₂ : Snap (Host ObjectSig) World}
  {a₁ a₂ : Answer}

theorem Found.repeats (hw : WellFormed s₀.world)
    (hfound : Found s₀ id (Tells ⟨config, digests, contract⟩ texts) a₁ s₁)
    (hm : ¬Misjudged s₀.world id) (hl : ¬Lapsed s₀.world id) {second : Observation}
    (h : Lone (host hooks) t (serve ⟨config, digests, contract⟩ texts (second.request id)) s₁ a₂ s₂) :
    Repeats ⟨config, digests, contract⟩ texts id second s₀ s₁ s₂ a₁ a₂ := by
  obtain ⟨x, h, x₁, o₁, hs₁, hx, hid, hh, hafter, htells⟩ := hfound
  obtain ⟨h₁, hh₁, hkey⟩ := hafter.handle
  have hrec : s₁.world.states id = some x₁ := by rw [hs₁.states, Function.update_self]
  have hobj : s₁.world.objects h₁.key = o₁ := by rw [hs₁.objects, hkey, Function.update_self]
  have hcontent : s₁.world.content x₁ = o₁.getD [] := by
    rw [World.content, hh₁, Option.bind_some, hobj]
  have hsteady : Steady s₁.world.states x₁ (s₁.world.objects h₁.key) := by
    rw [hs₁.states, hobj]
    exact hafter.steady hw hx hh hm
  obtain ⟨hs₂, hanswer⟩ := (observe_reads overlooks_touches hrec hh₁ hsteady second).lone
    (Seen.refl s₁) ‹_›
  rw [hobj] at hanswer
  rw [← hcontent] at htells
  refine ⟨hs₂.states, hs₂.objects, (hs₂.calm.mono fun _ => touches_finishHook).not_since,
    x₁, hrec, htells, ?_⟩
  rw [hcontent]
  refine hanswer.imp_right fun hfar => ⟨hfar.1, ?_⟩
  have hblame := hfar.2
  obtain hop | ⟨y, hy, hexp⟩ | hun := hblame
  · exact .inl hop
  · have hactive : y.expiresBefore s₀.world.clock = false := by
      refine hafter.alive hw hx hh hl ?_
      rw [← hs₁.states]
      exact hy
    refine .inr (.inl ⟨x₁, hrec, y, ?_, hactive, hexp⟩)
    exact hy.imp_right fun hy => ⟨hy.1, hy.2.2⟩
  · exact .inr (.inr hun)

/-! ### The observations that differ -/

/-- What HEAD makes of its access. -/
def headAnswer (server : Server ObjectSig) (texts : Texts) : Except Error UploadState → Answer
  | .ok x => .response (headResponse server texts x)
  | .error e => .failed e

theorem withLock_run {body : HostM ObjectSig α} {s s' : Snap (Host ObjectSig) World}
    {r : Except Error α} (hhid : s.world.hidden id = none) (hlock : s.world.locks id = none)
    (h : Lone (host hooks) t body (s.push t (.lock id) (.ok ()) (s.world.lockBy id t)) r s') :
    Lone (host hooks) t (withLock id body) s r (s'.push t (.unlock id) () (s'.world.unlock id)) :=
  .step .refl (.lock hhid hlock) (h.bind (.step .refl .unlock (.done _ _)))

/-- A HEAD in which nothing fails but perhaps the access. -/
theorem head_run (config : Config) (digests : Digests) (texts : Texts)
    (hhid : s₁.world.hidden id = none) (hlock : s₁.world.locks id = none)
    (hx : s₁.world.states id = some x) {r : Except Error UploadState} {P : World → Prop}
    (haccess : ∀ s, s.world = s₁.world.lockBy id t →
      ∃ s', Lone (host hooks) t (prepareUploadReadAccess contract x) s r s' ∧
        Without OpFailed s s' ∧ P s'.world) :
    ∃ s₂, Lone (host hooks) t (serve ⟨config, digests, contract⟩ texts (.head id)) s₁
        (headAnswer ⟨config, digests, contract⟩ texts r) s₂ ∧
      Without OpFailed s₁ s₂ ∧ ∃ w, P w ∧ s₂.world = w.unlock id := by
  have hget : HostExec hooks t (.stateGet id) s₁.world (.ok (some x)) s₁.world := hx ▸ .stateGet hhid
  have hget' : HostExec hooks t (.stateGet id) (s₁.world.lockBy id t) (.ok (some x))
      (s₁.world.lockBy id t) :=
    (show (s₁.world.lockBy id t).states id = some x from hx) ▸ .stateGet hhid
  obtain ⟨s', hrun, hwithout, hP⟩ := haccess (((s₁.push t (.stateGet id) (.ok (some x)) s₁.world).push t
    (.lock id) (.ok ()) (s₁.world.lockBy id t)).push t (.stateGet id) (.ok (some x))
    (s₁.world.lockBy id t)) rfl
  have hbody : Lone (host hooks) t
      (do
        let state ← requireState id
        let state ← prepareUploadReadAccess contract state
        pure (headResponse ⟨config, digests, contract⟩ texts state) : HostM ObjectSig Response)
      ((s₁.push t (.stateGet id) (.ok (some x)) s₁.world).push t (.lock id) (.ok ())
        (s₁.world.lockBy id t))
      (r.map (headResponse ⟨config, digests, contract⟩ texts)) s' := by
    refine .step .refl hget' (Lone.bind (p := prepareUploadReadAccess contract x) hrun ?_)
    cases r with
    | ok y => exact .done _ _
    | error e => exact .done _ _
  refine ⟨s'.push t (.unlock id) () (s'.world.unlock id),
    .step .refl hget (Lone.bind (withLock_run hhid hlock hbody) ?_), ?_, s'.world, hP, rfl⟩
  · cases r with
    | ok y => exact .done _ _
    | error e => exact .done _ _
  · refine (((Without.push ?_).trans (.push ?_)).trans (.push ?_)).trans (hwithout.trans (.push ?_))
    · exact fun ⟨_, h⟩ => nomatch h
    · exact fun ⟨_, h⟩ => nomatch h
    · exact fun ⟨_, h⟩ => nomatch h
    · exact fun h => h

/-- Nothing is to be completed where the record counts the stored bytes. -/
theorem detected_run (hh : x.handle = some h) {s : Snap (Host ObjectSig) World}
    (hoff : x.offset = sizeOfObject (s.world.objects h.key)) :
    ∃ s', Lone (host hooks) t (detectStoredCompletion contract x) s (.ok none) s' ∧
      Without OpFailed s s' ∧ s'.world = s.world := by
  unfold detectStoredCompletion
  by_cases hdone : (x.isComplete || x.isPartial) = true
  · rw [if_pos hdone]
    exact ⟨s, .done _ _, .refl s, rfl⟩
  rw [if_neg hdone]
  cases hlen : x.length with
  | none => exact ⟨s, .done _ _, .refl s, rfl⟩
  | some length =>
    have hlt : x.offset < length := by
      simp only [UploadState.isComplete, hlen, Bool.or_eq_true, decide_eq_true_eq, not_or,
        Nat.not_le] at hdone
      exact hdone.1
    simp only [hh]
    refine ⟨s.push t (.storage (.size h)) (.ok ((s.world.objects h.key).map List.length)) s.world,
      .step .refl .size (.of_neg ?_ (.of_pos ?_ (.done _ _))), .push (by rintro ⟨_, ⟨⟩⟩), rfl⟩
    · exact Nat.not_lt.mpr (hoff ▸ hlt.le : sizeOfObject (s.world.objects h.key) ≤ length)
    · exact (hoff ▸ hlt.ne : sizeOfObject (s.world.objects h.key) ≠ length)

/-- A record of an upload that is not final counts its stored bytes and has expired. -/
theorem expired_run (hf : x.isFinal = false) (hh : x.handle = some h) {s : Snap (Host ObjectSig) World}
    (hoff : x.offset = sizeOfObject (s.world.objects h.key))
    (hexp : x.expiresBefore s.world.clock = true) :
    ∃ s', Lone (host hooks) t (prepareUploadReadAccess contract x) s (.error (.expired x.id)) s' ∧
      Without OpFailed s s' ∧ s'.world.clock = s.world.clock := by
  obtain ⟨s', hrun, hwithout, hworld⟩ : ∃ s', Lone (host hooks) t
      (detectStoredCompletion contract x) s (.ok none) s' ∧ Without OpFailed s s' ∧
        s'.world = s.world := detected_run hh hoff
  have hnow : HostExec hooks t .now s'.world s'.world.clock s'.world := .now
  have hactive : Lone (host hooks) t (ensureActive x : HostM ObjectSig Unit) s' (.error (.expired x.id))
      (s'.push t .now s'.world.clock s'.world) :=
    .step .refl hnow (.of_pos (hworld ▸ hexp) (.done _ _))
  refine ⟨s'.push t .now s'.world.clock s'.world, ?_, hwithout.trans (.push fun h => h),
    congrArg World.clock hworld⟩
  refine Lone.of_neg (by simp [hf]) ?_
  exact Lone.bind (Lone.bind (p := detectStoredCompletion contract x) hrun (.done _ _))
    (Lone.bind hactive (.done _ _))

/-- A final upload whose object has the recorded length becomes complete. -/
theorem completed_run {n : Nat} (hf : x.isFinal = true) (hp : x.isPartial = false)
    (hh : x.handle = some h) {s : Snap (Host ObjectSig) World}
    (hn : sizeOfObject (s.world.objects h.key) = n) (hlen : x.length = some n) (hoff : x.offset ≠ n) :
    ∃ s', Lone (host hooks) t (prepareUploadReadAccess contract x) s (.ok (x.setOffset n)) s' ∧
      Without OpFailed s s' ∧ s'.world.states x.id = some (x.setOffset n) := by
  have hset : HostExec hooks t (.stateSet (x.setOffset n) .update) s.world (.ok ())
      (s.world.setState (x.setOffset n)) := .stateUpdate
  obtain ⟨s', hrecover, hwithout, hworld⟩ : ∃ s', Lone (host hooks) t
      (recoverMaterializedFinalUpload contract x) s (.ok (x.setOffset n, true)) s' ∧
        Without OpFailed s s' ∧ s'.world = s.world.setState (x.setOffset n) := by
    unfold recoverMaterializedFinalUpload
    simp only [hlen, hh]
    refine ⟨_, .step .refl .size (.of_neg (not_not.mpr hn) (.of_pos hoff (.step .refl hset (.done _ _)))),
      (Without.push fun ⟨_, h⟩ => nomatch h).trans (.push fun h => h), rfl⟩
  have hactive : (x.setOffset n).expiresBefore s'.world.clock = false := by
    simp [UploadState.expiresBefore, UploadState.expires, UploadState.isComplete,
      UploadState.setOffset, hlen, hp]
  have hnow : HostExec hooks t .now s'.world s'.world.clock s'.world := .now
  have hread : Lone (host hooks) t (prepareRead contract x) s (.ok (x.setOffset n)) s' :=
    .of_neg (by simp [hf]) (hrecover.bind (.done _ _))
  have hensure : Lone (host hooks) t (ensureActive (x.setOffset n) : HostM ObjectSig Unit) s' (.ok ())
      (s'.push t .now s'.world.clock s'.world) :=
    .step .refl hnow (.of_neg (by simp [hactive]) (.done _ _))
  refine ⟨s'.push t .now s'.world.clock s'.world, .of_pos hf (hread.bind (hensure.bind (.done _ _))),
    hwithout.trans (.push fun h => h), ?_⟩
  exact (congrArg (fun w : World => w.states x.id) hworld).trans (Function.update_self _ _ _)

theorem records_unique {st : String → Option UploadState} {ids : List String}
    {parts parts' : List UploadState} (h : List.Forall₂ (fun id p => st id = some p) ids parts)
    (h' : List.Forall₂ (fun id p => st id = some p) ids parts') : parts = parts' := by
  have hunique : Relator.RightUnique fun id p => st id = some p :=
    fun _ _ _ hp hq => Option.some.inj (hp.symm.trans hq)
  exact hunique.forall₂ h h'

/-- The record of a misjudged upload has its length, but not its offset. -/
theorem After.misjudged {ids : List String} {parts : List UploadState}
    (ha : After s₀ s₀.world.states x h (s₀.world.objects h.key) x₁ o₁)
    (hm : Misjudges s₀.world x h ids parts) :
    x₁.isFinal = true ∧ x₁.isPartial = x.isPartial ∧ x₁.length = some (sizeOfObject o₁) ∧
      x₁.offset ≠ sizeOfObject o₁ := by
  have hparts : ∀ ids' parts', x.parts = some ids' → Gathered s₀ s₀.world.states ids' parts' →
      parts' = parts := by
    intro ids' parts' hids' hg
    obtain rfl : ids = ids' := Option.some.inj (hm.ids_eq.symm.trans hids')
    exact records_unique hg.records hm.records
  match ha.settled with
  | .recounted hf _ _ _ => exact absurd (hf.symm.trans hm.isFinal) Bool.false_ne_true
  | .materialized _ _ _ _ (.inl hrec) => exact absurd hrec hm.recorded
  | .materialized _ _ _ _ (.inr ⟨ids', parts', hids', hg, hready⟩) =>
    obtain rfl := hparts ids' parts' hids' hg
    exact absurd (expectedOffset_of_ready hready hm.total) hm.offset
  | .waiting ids' parts' _ ho hids' hg hfol hoff _ _ =>
    subst ho
    obtain rfl := hparts ids' parts' hids' hg
    exact ⟨hfol.isFinal.trans hm.isFinal, hfol.isPartial, hfol.length.trans hm.total, hoff ▸ hm.offset⟩

/-- A record that is not at rest after an observation. -/
theorem Found.idle (hw : WellFormed s₀.world)
    (hfound : Found s₀ id (Tells ⟨config, digests, contract⟩ texts) a₁ s₁)
    (hlock : s₁.world.locks id = none) (hhid : s₀.world.hidden id = none)
    (hrepeats : ∀ a₂ s₂, Lone (host hooks) t (serve ⟨config, digests, contract⟩ texts (.head id)) s₁ a₂ s₂ →
      Repeats ⟨config, digests, contract⟩ texts id .head s₀ s₁ s₂ a₁ a₂) :
    ¬Misjudged s₀.world id ∧ ¬Lapsed s₀.world id := by
  obtain ⟨x, h, x₁, o₁, hs₁, hx, hid, hh, hafter, htells⟩ := hfound
  obtain ⟨h₁, hh₁, hkey⟩ := hafter.handle
  have hrec : s₁.world.states id = some x₁ := by rw [hs₁.states, Function.update_self]
  have hobj : s₁.world.objects h₁.key = o₁ := by rw [hs₁.objects, hkey, Function.update_self]
  have hhid₁ : s₁.world.hidden id = none := by rw [hs₁.hidden, hhid]
  constructor
  · rintro ⟨y, k, ids, parts, hy, hm⟩
    obtain rfl : x = y := Option.some.inj (hx.symm.trans hy)
    obtain rfl : h = k := Option.some.inj (hh.symm.trans hm.handle)
    obtain ⟨hf₁, hp₁, hlen, hoff⟩ := hafter.misjudged hm
    have hpart : x₁.isPartial = false := by
      cases hp : x₁.isPartial with
      | false => rfl
      | true =>
        have hrole := (hw.records id x hx).role (hp₁.symm.trans hp)
        exact absurd (hrole.symm.trans hm.isFinal) Bool.false_ne_true
    have haccess : ∀ s, s.world = s₁.world.lockBy id t → ∃ s', Lone (host hooks) t
        (prepareUploadReadAccess contract x₁) s (.ok (x₁.setOffset (sizeOfObject o₁))) s' ∧
        Without OpFailed s s' ∧ s'.world.states id = some (x₁.setOffset (sizeOfObject o₁)) := by
      intro s hs
      have hn : sizeOfObject (s.world.objects h₁.key) = sizeOfObject o₁ := by
        rw [hs]
        exact congrArg sizeOfObject hobj
      obtain ⟨s', hrun, hwithout, hset⟩ := completed_run hf₁ hpart hh₁ hn hlen hoff
      exact ⟨s', hrun, hwithout, (hafter.id_eq.trans hid) ▸ hset⟩
    obtain ⟨s₂, hrun, _, w, hwrote, hw₂⟩ := head_run (P := fun w => w.states id =
      some (x₁.setOffset (sizeOfObject o₁))) config digests texts hhid₁ hlock hrec haccess
    have hsame := congrFun (hrepeats _ s₂ hrun).states id
    rw [hw₂, hrec] at hsame
    have heq : x₁.setOffset (sizeOfObject o₁) = x₁ := Option.some.inj (hwrote.symm.trans hsame)
    exact hoff (congrArg UploadState.offset heq).symm
  · rintro ⟨y, hy, hf, hact, hexp⟩
    obtain rfl : x = y := Option.some.inj (hx.symm.trans hy)
    rw [content_length hh] at hexp
    have hrecounted : x₁.isFinal = false ∧ x₁.offset = sizeOfObject o₁ ∧
        x₁.expiresBefore s₀.world.clock = true := by
      match hafter.settled with
      | .recounted _ ho hx₁ _ =>
        subst ho hx₁
        exact ⟨hf, rfl, hexp⟩
      | .materialized hfin _ _ _ _ => exact absurd (hf.symm.trans hfin) Bool.false_ne_true
      | .waiting _ _ hfin _ _ _ _ _ _ _ => exact absurd (hf.symm.trans hfin) Bool.false_ne_true
    obtain ⟨hf₁, hoff, hexp₁⟩ := hrecounted
    have haccess : ∀ s, s.world = s₁.world.lockBy id t → ∃ s', Lone (host hooks) t
        (prepareUploadReadAccess contract x₁) s (.error (.expired x₁.id)) s' ∧
        Without OpFailed s s' ∧ s'.world.clock = s₁.world.clock := by
      intro s hs
      have hclock : s.world.clock = s₁.world.clock := by
        rw [hs]
        rfl
      have hsize : x₁.offset = sizeOfObject (s.world.objects h₁.key) := by
        rw [hs, hoff]
        exact congrArg sizeOfObject hobj.symm
      have hlate : x₁.expiresBefore s.world.clock = true :=
        expired_later (hclock.symm ▸ hs₁.clock) hexp₁
      obtain ⟨s', hrun, hwithout, hkept⟩ := expired_run hf₁ hh₁ hsize hlate
      exact ⟨s', hrun, hwithout, hkept.trans hclock⟩
    obtain ⟨s₂, hrun, hwithout, w, hclock, hw₂⟩ := head_run (P := fun w => w.clock = s₁.world.clock)
      config digests texts hhid₁ hlock hrec haccess
    obtain ⟨z, hz, _, htold | ⟨_, hblame⟩⟩ := (hrepeats _ s₂ hrun).answers
    · exact htold
    obtain hfailed | hexpires | hun := hblame
    · exact hwithout.not_since hfailed
    · obtain ⟨y, hy, z, rfl | ⟨hfin, _⟩, hbefore, _⟩ := hexpires
      · obtain rfl := Option.some.inj (hrec.symm.trans hy)
        exact Bool.false_ne_true (hbefore.symm.trans hexp₁)
      · obtain rfl := Option.some.inj (hrec.symm.trans hy)
        exact Bool.false_ne_true (hf₁.symm.trans hfin)
    · exact hun

end Between

/-- After a successful observation a further one repeats it, whatever state the run of the server
has left behind, unless the first found a misjudged final upload or one that only its recorded
offset kept from having expired. -/
theorem observation_idempotent_iff {config : Config} {digests : Digests} {texts : Texts}
    {requests : Nat → Option Request} {w : World} (hw : WellFormed w)
    {c : Interaction.Config (Host ObjectSig) World Answer}
    (hr : Reach (host hooks) (start ⟨config, digests, contract⟩ texts requests w) c) {id : String}
    {first : Observation} {a₁ : Answer} {s₁ : Snap (Host ObjectSig) World}
    (hfirst : Lone (host hooks) t (serve ⟨config, digests, contract⟩ texts (first.request id)) c.snap
      a₁ s₁) (hok : ∀ e, a₁ ≠ .failed e) :
    (∀ u second a₂ s₂, Lone (host hooks) u
        (serve ⟨config, digests, contract⟩ texts (Observation.request id second)) s₁ a₂ s₂ →
      Repeats ⟨config, digests, contract⟩ texts id second c.snap s₁ s₂ a₁ a₂) ↔
    ¬Misjudged c.snap.world id ∧ ¬Lapsed c.snap.world id := by
  have hwf := reach_wellFormed hw hr
  obtain ⟨hfound, hlock, hhid⟩ := (observe_first hwf first).lone (Seen.refl _) hfirst hok
  constructor
  · intro hrepeats
    exact hfound.idle hwf hlock hhid fun a₂ s₂ hrun => hrepeats t .head a₂ s₂ hrun
  · rintro ⟨hm, hl⟩ u second a₂ s₂ hrun
    exact hfound.repeats hwf hm hl hrun

/-! ### An upload that has lost its bytes -/

/-- A server that lets uploads expire ten units after their creation. -/
def expiring : Server ObjectSig where
  config := { Config.default with
    extensions := {.creation, .creationWithUpload, .termination}
    expiration := some 10 }
  digests := ⟨fun _ bytes => bytes, fun _ => ""⟩
  storage := contract

def noTexts : Texts := ⟨fun _ => "", fun _ => ""⟩

/-- The headers of a creation with a byte. -/
def oneByte : Headers where
  uploadOffset := none
  uploadLength := some 1
  uploadDeferLength := false
  uploadMetadata := none
  uploadChecksum := none
  uploadChecksumError := none
  uploadConcat := none
  contentLength := some 1
  contentType := some "application/offset+octet-stream"

/-- Hooks that accept everything. -/
def accepting (_ : HookEvent) (_ : UploadState) (r : Except Error PreHookResult) : Prop :=
  r = .ok ⟨true, none, none, none, []⟩

/-- The record of an upload of one byte. -/
def oneByteUpload (offset : Nat) : UploadState where
  id := "u"
  offset := offset
  length := some 1
  handle := some ⟨"u", []⟩
  createdAt := 0
  expiresAt := some 10
  isPartial := false
  isFinal := false
  parts := none
  metadata := []

/-- After the creation. -/
def storedWorld : World :=
  (((((emptyWorld.issue "u" 0).createObject "u" "u").setState (oneByteUpload 0)).put "u" [7]).setState
    (oneByteUpload 1)).reveal "u"

/-- After a DELETE that could not delete the record, and past the expiration. -/
def lostWorld : World :=
  ((((storedWorld.lockBy "u" 1).erase "u").unlock "u").setClock 20)

theorem stored_run : ∃ r s', Lone (host accepting) 0 (serve expiring noTexts (.post oneByte (.bytes [7])))
    ⟨emptyWorld, []⟩ r s' ∧ s'.world = storedWorld :=
  ⟨_, _, .step .refl (@HostExec.newId _ _ emptyWorld "u" id rfl) <| .step .refl .now <|
    .step .refl .now <| .step .refl (.hookPre rfl) <| .step .refl (.hookPre rfl) <|
    .step .refl (@HostExec.create _ _ _ _ "u" [] rfl) <| .step .refl (.stateCreate rfl) <|
    .step .refl (@HostExec.append _ _ _ _ _ _ [] [7] [] rfl rfl (by decide)) <|
    .step .refl .stateUpdate <| .step .refl (.hookPre rfl) <| .step .refl .hookPost <|
    .step .refl .hookPost <| .step .refl .hookPost <| .step .refl .respond <| .done _ _, rfl⟩

theorem lost_run (hist : List (Event (Host ObjectSig) World)) :
    ∃ r s', Lone (host accepting) 1 (serve expiring noTexts (.delete "u")) ⟨storedWorld, hist⟩ r s' ∧
      s'.world = ((storedWorld.lockBy "u" 1).erase "u").unlock "u" :=
  ⟨_, _, .step .refl (.stateGet rfl) <| .step .refl (.lock rfl rfl) <| .step .refl (.stateGet rfl) <|
    .step .refl .now <| .step .refl (.hookPre rfl) <| .step .refl .delete <|
    .step .refl (.stateDeleteFailed (e := .storage "down")) <| .step .refl .unlock <| .done _ _, rfl⟩

/-- The creation and the DELETE, one thread each. -/
def lossy : Nat → Option Request
  | 0 => some (.post oneByte (.bytes [7]))
  | 1 => some (.delete "u")
  | _ => none

/-- A HEAD past the expiration finds a complete record, and no bytes. -/
theorem recounting_run (hist : List (Event (Host ObjectSig) World)) :
    ∃ r s', Lone (host accepting) 2 (serve expiring noTexts (.head "u")) ⟨lostWorld, hist⟩
      (.response r) s' :=
  ⟨_, _, .step .refl (.stateGet rfl) <| .step .refl (.lock rfl rfl) <| .step .refl (.stateGet rfl) <|
    .step .refl .now <| .step .refl .size <| .step .refl .stateUpdate <| .step .refl .unlock <|
    .done _ _⟩

theorem lapsed_lostWorld : Lapsed lostWorld "u" :=
  ⟨oneByteUpload 1, rfl, rfl, rfl, rfl⟩

theorem wellFormed_emptyWorld : WellFormed emptyWorld where
  records _ _ h := nomatch h
  owned _ _ h := nomatch h
  objects _ _ h := nomatch h
  hidden _ _ h := nomatch h
  clock _ := Nat.le_refl _

theorem lapsed_reach : ∃ (c : Interaction.Config (Host ObjectSig) World Answer) (r : Response)
    (s₁ : Snap (Host ObjectSig) World),
    Reach (host accepting) (start expiring noTexts lossy emptyWorld) c ∧
    Lone (host accepting) 2 (serve expiring noTexts (.head "u")) c.snap (.response r) s₁ ∧
    Lapsed c.snap.world "u" := by
  obtain ⟨r₀, ⟨w₀, hist₀⟩, hstored, hw₀⟩ := stored_run
  dsimp only at hw₀
  subst hw₀
  obtain ⟨r₁, ⟨w₁, hist₁⟩, hlost, hw₁⟩ := lost_run hist₀
  dsimp only at hw₁
  subst hw₁
  obtain ⟨r, s₁, hhead⟩ := recounting_run hist₁
  have hcreated : Reach (host accepting) (start expiring noTexts lossy emptyWorld) _ :=
    hstored.reach_pool rfl
  have hdeleted := hcreated.trans (hlost.reach_pool rfl)
  exact ⟨⟨⟨lostWorld, hist₁⟩, _⟩, r, s₁, hdeleted.tail (.env ⟨20, Nat.zero_le _, rfl⟩), hhead,
    lapsed_lostWorld⟩

/-- The second HEAD answers that the upload has expired, which it had not for the first. -/
theorem observation_not_idempotent : ∃ (c : Interaction.Config (Host ObjectSig) World Answer)
    (r : Response) (s₁ : Snap (Host ObjectSig) World),
    Reach (host accepting) (start expiring noTexts lossy emptyWorld) c ∧
    Lone (host accepting) 2 (serve expiring noTexts (.head "u")) c.snap (.response r) s₁ ∧
    ¬∀ a₂ s₂, Lone (host accepting) 3 (serve expiring noTexts (.head "u")) s₁ a₂ s₂ →
      Repeats expiring noTexts "u" .head c.snap s₁ s₂ (.response r) a₂ := by
  obtain ⟨c, r, s₁, hr, hhead, hlapsed⟩ := lapsed_reach
  refine ⟨c, r, s₁, hr, hhead, fun hrepeats => ?_⟩
  have hwf := reach_wellFormed wellFormed_emptyWorld hr
  obtain ⟨hfound, hlock, hhid⟩ := (observe_first hwf .head).lone (Seen.refl _) hhead (fun _ => nofun)
  exact (hfound.idle hwf hlock hhid hrepeats).2 hlapsed

/-- The two HEADs after the lost DELETE. -/
theorem observation_idempotent_iff_lost : ∃ (c : Interaction.Config (Host ObjectSig) World Answer)
    (r : Response) (s₁ : Snap (Host ObjectSig) World),
    (∀ u second a₂ s₂, Lone (host accepting) u
        (serve expiring noTexts (Observation.request "u" second)) s₁ a₂ s₂ →
      Repeats expiring noTexts "u" second c.snap s₁ s₂ (.response r) a₂) ↔
    ¬Misjudged c.snap.world "u" ∧ ¬Lapsed c.snap.world "u" := by
  obtain ⟨c, r, s₁, hr, hhead, _⟩ := lapsed_reach
  have hfirst : Lone (host accepting) 2 (serve expiring noTexts (Observation.head.request "u")) c.snap
      (.response r) s₁ := hhead
  exact ⟨c, r, s₁, observation_idempotent_iff wellFormed_emptyWorld hr hfirst fun _ => nofun⟩

end System

end TusRs
