import TusRs.System.Removal

/-!
# Contents of final uploads

Whatever is stored for a final upload was joined, at one moment at which the joining request
held the locks of all its parts, from the contents that they had at that moment, in the order
of its record; and what a GET answers is what was stored.

Results:

* `final_contents`: the object of a final upload is empty or was joined from all its parts.
* `final_download`: a GET of a final upload answers with such a join.
-/

namespace TusRs

open Interaction

open Protocol

namespace System

open Requests

variable {hooks : HookEvent → UploadState → Except Error PreHookResult → Prop}
  {config : Config} {digests : Digests} {texts : Texts} {requests : Nat → Option Request}
  {w : World} {t : Nat} {id : String} {c d : Interaction.Config (Host ObjectSig) World Answer}

/-! ## Joins -/

/-- At this moment one request holds the locks of the parts `ids`, which are partial uploads
and complete, and `bytes` are their contents in order. -/
def JoinedAt (ids : List String) (bytes : Bytes) (v : World) : Prop :=
  ∃ t parts, PartsLocked t v ids parts ∧
    (∀ part ∈ parts, part.isPartial = true ∧ part.isComplete = true) ∧
    bytes = (parts.map v.content).flatten

/-- The parts were joined at a moment of the past. -/
def JoinedIn (hist : List (Event (Host ObjectSig) World)) (ids : List String) (bytes : Bytes) :
    Prop :=
  ∃ e ∈ hist, JoinedAt ids bytes e.before

theorem JoinedIn.mono {hist hist' : List (Event (Host ObjectSig) World)} {ids : List String}
    {bytes : Bytes} (h : JoinedIn hist ids bytes) (hsub : hist ⊆ hist') :
    JoinedIn hist' ids bytes := by
  obtain ⟨e, hmem, hjoined⟩ := h
  exact ⟨e, hsub hmem, hjoined⟩

theorem ConcatGuard.joinedAt {target : StorageHandle} {sources : List StorageHandle}
    {x : Option UploadState} {o : Option Bytes} {ids : List String} {parts : List UploadState}
    {contents : List Bytes} {v : World} (g : ConcatGuard t target sources id x o ids parts v)
    (hcontents : List.Forall₂ (fun (h : StorageHandle) b => v.objects h.key = some b) sources
      contents) : JoinedAt ids contents.flatten v := by
  refine ⟨t, parts, g.locked, fun part hpart => ⟨g.sound part hpart, ?_⟩, ?_⟩
  · have hall := (Bool.and_eq_true_iff.mp g.ready).1
    rw [statusOf_allComplete, List.all_eq_true] at hall
    exact hall part hpart
  · rw [contents_of_sources g.sources_eq hcontents]

/-! ## Whose objects are joined -/

/-- The record is that of the upload, or was read at some time. -/
def Known (id : String) (state : UploadState) (s : Snap (Host ObjectSig) World) : Prop :=
  s.world.states id = some state ∨
    ∃ e ∈ s.hist, (⟨e.op, e.ans⟩ : Call (Host ObjectSig)) = got id state

/-- What is known of an upload its record continues. -/
theorem reach_known (hw : WellFormed w)
    (hr : Reach (host hooks) (start ⟨config, digests, contract⟩ texts requests w) c)
    {state : UploadState} (hknown : Known id state c.snap) {cur : UploadState}
    (hcur : c.snap.world.states id = some cur) : Continues state cur := by
  rcases hknown with hstate | ⟨e, he, hgot⟩
  · obtain rfl := Option.some.inj (hstate.symm.trans hcur)
    exact .refl state
  · exact (reach_remembered hw hr he hgot).record cur hcur

/-- The handle of a known record belongs to its upload. -/
theorem reach_known_owner (hw : WellFormed w)
    (hr : Reach (host hooks) (start ⟨config, digests, contract⟩ texts requests w) c)
    {state : UploadState} (hknown : Known id state c.snap) {h : StorageHandle}
    (hh : state.handle = some h) : c.snap.world.owner h.key = some id := by
  rcases hknown with hstate | ⟨⟨u, o, a, v⟩, he, hgot⟩
  · obtain ⟨h', hh', howner⟩ := ((reach_wellFormed hw hr).records id state hstate).handle
    obtain rfl := Option.some.inj (hh'.symm.trans hh)
    exact howner
  · obtain ⟨after, hpast⟩ := reach_past hw hr _ he
    cases hgot
    obtain ⟨_, hstate⟩ := (stateGet_inv hpast.exec).2 _ rfl
    obtain ⟨h', hh', howner⟩ := (hpast.wellFormed.records id state hstate).handle
    obtain rfl := Option.some.inj (hh'.symm.trans hh)
    exact hpast.now.owner _ _ (hpast.later.owner _ _ howner)

theorem known_of_got {state : UploadState} {s : Snap (Host ObjectSig) World}
    (hgot : got id state ∈ calls t s.hist) : Known id state s := by
  obtain ⟨e, before, hsuffix, _, hcall, _⟩ := calls_mem hgot
  exact .inr ⟨e, hsuffix.subset (List.mem_cons_self ..), hcall⟩

/-- How a record came to be known. -/
inductive Learns (config : Config) (t : Nat) (id : String) (state : UploadState)
    (s : Snap (Host ObjectSig) World) (op : HostOp ObjectSig) (w' : World) : Prop
  | known : Known id state s → Learns config t id state s op w'
  | created {h : StorageHandle} {o : Option Bytes} : state.id = id →
      CreateGuard config t state h o s → op = .stateSet state .createNew →
      w' = s.world.setState state → Learns config t id state s op w'
  | updated {old : UploadState} {h : StorageHandle} {o : Option Bytes} : state.id = id →
      UpdateGuard config t state h old o s → op = .stateSet state .update →
      w' = s.world.setState state → Learns config t id state s op w'

theorem learns {o : (Host ObjectSig).Op} {s : Snap (Host ObjectSig) World}
    {a : (Host ObjectSig).Ans o} {w' : World} (he : HostExec hooks t o s.world a w')
    (hg : Guard config requests t o s) {state : UploadState}
    (h : Known id state (s.push t o a w')) : Learns config t id state s o w' := by
  rcases h with hstate | ⟨e, hmem, hgot⟩
  · rw [Snap.push_world] at hstate
    cases recordStep id he hg with
    | same hsame => exact .known (.inl (hsame.symm.trans hstate))
    | dropped _ _ hnone => cases hnone.symm.trans hstate
    | created hid g hop hw' =>
      subst hid hw'
      obtain rfl := Option.some.inj ((setState_self _ _).symm.trans hstate)
      exact .created rfl g hop rfl
    | updated hid g hop hw' =>
      subst hid hw'
      obtain rfl := Option.some.inj ((setState_self _ _).symm.trans hstate)
      exact .updated rfl g hop rfl
  · cases List.mem_cons.mp hmem with
    | inl heq =>
      subst heq
      cases hgot
      exact .known (.inl ((stateGet_inv he).2 _ rfl).2)
    | inr hmem => exact .known (.inr ⟨e, hmem, hgot⟩)

/-- Nothing is known of an upload whose first record is written. -/
theorem CreateGuard.unknown (hw : WellFormed w)
    (hr : Reach (host hooks) (start ⟨config, digests, contract⟩ texts requests w) c)
    {state old : UploadState} {h : StorageHandle} {o : Option Bytes}
    (g : CreateGuard config t state h o c.snap) : ¬Known state.id old c.snap := by
  rintro (hstate | ⟨e, he, hgot⟩)
  · cases g.own.state.symm.trans hstate
  · cases g.hidden.symm.trans (reach_remembered hw hr he hgot).visible

/-- All that is known of an upload names the same parts. -/
theorem reach_known_parts (hw : WellFormed w)
    (hr : Reach (host hooks) (start ⟨config, digests, contract⟩ texts requests w) c)
    {state state' : UploadState} (hknown : Known id state c.snap)
    (hknown' : Known id state' c.snap) : state.parts = state'.parts := by
  refine Reach.induct (fun d => ∀ state state', Known id state d.snap → Known id state' d.snap →
    state.parts = state'.parts) ?_ ?_ ?_ ?_ hr state state' hknown hknown'
  · rintro state state' (h | ⟨_, h, _⟩) (h' | ⟨_, h', _⟩)
    · exact congrArg UploadState.parts (Option.some.inj (h.symm.trans h'))
    · exact absurd h' List.not_mem_nil
    · exact absurd h List.not_mem_nil
    · exact absurd h List.not_mem_nil
  · intro d u o k a w' hd ih hp hx state state' hknown hknown'
    have hdue := due hw hd hp hx
    cases learns hx hdue.guard hknown with
    | known hk =>
      cases learns hx hdue.guard hknown' with
      | known hk' => exact ih state state' hk hk'
      | created hid g _ _ => exact absurd (hid ▸ hk) (g.unknown hw hd)
      | @updated old _ _ hid g _ _ =>
        exact (ih state old hk (.inl (hid ▸ g.own.state))).trans g.parts.symm
    | created hid g hop _ =>
      cases learns hx hdue.guard hknown' with
      | known hk' => exact absurd (hid ▸ hk') (g.unknown hw hd)
      | created _ _ hop' _ =>
        cases hop.symm.trans hop'
        rfl
      | updated _ _ hop' _ => cases hop.symm.trans hop'
    | @updated old _ _ hid g hop _ =>
      have hold : Known id old d.snap := .inl (hid ▸ g.own.state)
      cases learns hx hdue.guard hknown' with
      | known hk' => exact g.parts.trans (ih old state' hold hk')
      | created _ _ hop' _ => cases hop.symm.trans hop'
      | updated _ _ hop' _ =>
        cases hop.symm.trans hop'
        rfl
  · rintro d _ _ ih ⟨n, _, rfl⟩
    exact ih
  · rintro d u p w' _ _ _ hf
    exact hf.elim

/-- Handles that were read for `ids` are those of locked parts only if these are `ids`. -/
theorem SourcesRead.ids_eq (hw : WellFormed w)
    (hr : Reach (host hooks) (start ⟨config, digests, contract⟩ texts requests w) c)
    {ids ids' : List String} {sources : List StorageHandle} {parts : List UploadState} {v : World}
    (hread : SourcesRead ids sources (calls t c.snap.hist)) (hv : WellFormed v)
    (hlater : Later v c.snap.world) {u : Nat} (hlocked : PartsLocked u v ids' parts)
    (hsources : List.Forall₂ (fun (p : UploadState) h => p.handle = some h) parts sources) :
    ids' = ids := by
  induction hread generalizing ids' parts with
  | nil =>
    cases hsources
    cases hlocked
    rfl
  | @cons id source ids sources hpart _ ih =>
    cases hsources with
    | @cons part _ parts _ hh hsources =>
      cases hlocked with
      | @cons id' _ ids' _ hpart' hlocked =>
        obtain ⟨state, hgot, hstate⟩ := hpart
        have howner := reach_known_owner hw hr (known_of_got hgot) hstate
        obtain ⟨h', hh', howner'⟩ := (hv.records id' part hpart'.2).handle
        obtain rfl := Option.some.inj (hh'.symm.trans hh)
        obtain rfl := Option.some.inj ((hlater.owner _ _ howner').symm.trans howner)
        rw [ih hlocked hsources]

theorem create_inv {h : StorageHandle} {w' : World}
    (he : HostExec hooks t (.storage (.create id)) w (.ok h) w') : w' = w.createObject id h.key := by
  cases he with
  | create => rfl

/-- The object that a request has made belongs to its upload. -/
theorem reach_made_owner (hw : WellFormed w)
    (hr : Reach (host hooks) (start ⟨config, digests, contract⟩ texts requests w) c)
    {h : StorageHandle} (hmade : made id h ∈ calls t c.snap.hist) :
    c.snap.world.owner h.key = some id := by
  obtain ⟨⟨u, o, a, v⟩, before, hsuffix, rfl, hcall, _⟩ := calls_mem hmade
  obtain ⟨after, hpast⟩ := reach_past hw hr _ (hsuffix.subset (List.mem_cons_self ..))
  cases hcall
  obtain rfl := create_inv hpast.exec
  exact hpast.now.owner _ _ (Function.update_self _ _ _)

/-! ## Traced objects -/

/-- The bytes are empty, or those of the object at the start, or were joined from the parts of
the record. -/
def Traced (w : World) (hist : List (Event (Host ObjectSig) World)) (state : UploadState)
    (key : String) (bytes : Bytes) : Prop :=
  bytes = [] ∨ w.objects key = some bytes ∨
    ∃ ids, state.parts = some ids ∧ JoinedIn hist ids bytes

theorem Traced.mono {hist hist' : List (Event (Host ObjectSig) World)} {state state' : UploadState}
    {key : String} {bytes : Bytes} (h : Traced w hist state key bytes) (hsub : hist ⊆ hist')
    (hparts : state'.parts = state.parts) : Traced w hist' state' key bytes := by
  rcases h with hempty | hstart | ⟨ids, hids, hjoined⟩
  · exact .inl hempty
  · exact .inr (.inl hstart)
  · exact .inr (.inr ⟨ids, hparts.trans hids, hjoined.mono hsub⟩)

/-- The objects of final uploads of which something is known were joined. -/
def FinalsJoined (w : World) (s : Snap (Host ObjectSig) World) : Prop :=
  ∀ id state h bytes, Known id state s → state.isFinal = true → state.handle = some h →
    s.world.objects h.key = some bytes → Traced w s.hist state h.key bytes

/-- The parts of a concatenation are those of all that is known of its target. -/
theorem joined_parts (hw : WellFormed w)
    (hr : Reach (host hooks) (start ⟨config, digests, contract⟩ texts requests w) c)
    {target : StorageHandle} {sources : List StorageHandle} {x : Option UploadState}
    {o : Option Bytes} {ids : List String} {parts : List UploadState}
    (g : ConcatGuard t target sources id x o ids parts c.snap.world)
    (hearned : ∃ id' ids', TargetOf id' ids' target (calls t c.snap.hist) ∧
      SourcesRead ids' sources (calls t c.snap.hist))
    {state : UploadState} (hknown : Known id state c.snap) : state.parts = some ids := by
  cases x with
  | some cur =>
    obtain ⟨_, hparts, _⟩ := g.record cur rfl
    rw [← (reach_known hw hr hknown g.own.state).parts, hparts]
  | none =>
    obtain ⟨id', ids', htarget, hsources⟩ := hearned
    have hids := SourcesRead.ids_eq hw hr hsources (reach_wellFormed hw hr) (.refl _) g.locked
      g.sources_eq
    rcases htarget with ⟨hmade, hun⟩ | ⟨key, old, hgot, _, hh, hparts⟩
    · -- nobody but the request knows the uploads it has begun
      have hmine := reach_made_owner hw hr hmade
      obtain rfl := Option.some.inj (hmine.symm.trans g.own.owner)
      have hhidden := reach_newborn hw hr (.inl ⟨target, hmade⟩) hun
      rcases hknown with hstate | ⟨e, he, hgot⟩
      · cases g.own.state.symm.trans hstate
      · cases hhidden.symm.trans (reach_remembered hw hr he hgot).visible
    · have howner := reach_known_owner hw hr (known_of_got hgot) hh
      obtain rfl := Option.some.inj (howner.symm.trans g.own.owner)
      rw [reach_known_parts hw hr hknown (known_of_got hgot), hparts, hids]

theorem concat_inv {target h : StorageHandle} {sources : List StorageHandle} {w' : World}
    (he : HostExec hooks t (.storage (.concat target sources)) w (.ok h) w') :
    h.key = target.key ∧ ∃ contents, List.Forall₂ (fun (h : StorageHandle) b =>
      w.objects h.key = some b) sources contents ∧ w' = w.put target.key contents.flatten := by
  cases he with
  | concat hcontents _ => exact ⟨rfl, _, hcontents, rfl⟩

/-- What the last call of a request joined is still stored. -/
theorem reach_justJoined (hw : WellFormed w)
    (hr : Reach (host hooks) (start ⟨config, digests, contract⟩ texts requests w) c)
    {state : UploadState} {ids : List String} (hjust : JustJoined state ids (calls t c.snap.hist))
    {h : StorageHandle} (hh : state.handle = some h) {bytes : Bytes}
    (hobj : c.snap.world.objects h.key = some bytes) : JoinedIn c.snap.hist ids bytes := by
  obtain ⟨target, sources, h', earlier, hcalls, hh', hsources⟩ := hjust
  obtain rfl := Option.some.inj (hh'.symm.trans hh)
  obtain ⟨before, after, hlast⟩ := reach_since hw hr (List.forall_mem_nil _)
    (hcalls.trans (List.nil_append _).symm)
  obtain ⟨id, x, o, ids', parts, g⟩ := hlast.guard
  obtain ⟨hkey, contents, hcontents, rfl⟩ := concat_inv hlast.exec
  have hlater := (exec_sound hlast.inv hlast.exec hlast.guard).2.1.trans hlast.rely.later
  have hread : SourcesRead ids sources (calls t c.snap.hist) := by
    rw [hcalls]
    exact hsources.imp fun _ _ ⟨part, hgot, hpart⟩ => ⟨part, List.mem_cons_of_mem _ hgot, hpart⟩
  obtain rfl := SourcesRead.ids_eq hw hr hread hlast.inv hlater g.locked g.sources_eq
  -- nobody else has replaced the object since
  have hholds : Holds (before.world.put target.key contents.flatten) t id := g.own.holds
  rw [hkey, hlast.rely.objects id target.key hholds g.own.owner, World.put_objects,
    Function.update_self] at hobj
  obtain rfl := Option.some.inj hobj
  exact ⟨_, hlast.hist.subset (List.mem_cons_self ..), g.joinedAt hcontents⟩

/-- What the last call of a request made is still empty. -/
theorem reach_justMade (hw : WellFormed w)
    (hr : Reach (host hooks) (start ⟨config, digests, contract⟩ texts requests w) c)
    {state : UploadState} (hjust : JustMade state (calls t c.snap.hist)) {h : StorageHandle}
    (hh : state.handle = some h) : c.snap.world.objects h.key = some [] := by
  obtain ⟨h', earlier, hcalls, hh'⟩ := hjust
  obtain rfl := Option.some.inj (hh'.symm.trans hh)
  obtain ⟨before, after, hlast⟩ := reach_since hw hr (List.forall_mem_nil _)
    (hcalls.trans (List.nil_append _).symm)
  obtain rfl := create_inv hlast.exec
  have hholds : Holds (before.world.createObject state.id h'.key) t state.id := .inr hlast.guard
  rw [hlast.rely.objects state.id h'.key hholds (Function.update_self _ _ _)]
  exact Function.update_self _ _ _

theorem reach_finalsJoined (hw : WellFormed w)
    (hr : Reach (host hooks) (start ⟨config, digests, contract⟩ texts requests w) c) :
    FinalsJoined w c.snap := by
  refine Reach.induct (fun d => FinalsJoined w d.snap) ?_ ?_ ?_ ?_ hr
  · intro _ _ _ _ _ _ _ hobj
    exact .inr (.inl hobj)
  · intro d u o k a w' hd ih hp hx id state h bytes hknown hfinal hh hobj
    have hdue := due hw hd hp hx
    obtain ⟨request, _, hearned⟩ := (reach_kept_start hd).allows hp
    rw [watching, phase_log] at hearned
    have hsub := List.subset_cons_self (⟨u, o, a, d.snap.world⟩ : Event (Host ObjectSig) World)
      d.snap.hist
    cases learns hx hdue.guard hknown with
    | known hk =>
      cases objectStep h.key hx hdue.guard with
      | same _ hsame =>
        exact (ih id state h bytes hk hfinal hh (hsame.symm.trans hobj)).mono hsub rfl
      | erased _ _ _ _ hnone => cases hnone.symm.trans hobj
      | created _ hfree _ => cases hfree.symm.trans (reach_known_owner hw hd hk hh)
      | appended hkey g _ _ _ _ =>
        -- bytes are appended to uploads that are not final
        obtain rfl := Option.some.inj ((hkey ▸ g.own.owner).symm.trans
          (reach_known_owner hw hd hk hh))
        cases ((reach_known hw hd hk g.own.state).isFinal.trans hfinal).symm.trans g.regular
      | joined hkey g _ hcontents _ hnew hop =>
        obtain rfl := Option.some.inj ((hkey ▸ g.own.owner).symm.trans
          (reach_known_owner hw hd hk hh))
        obtain rfl := Option.some.inj (hnew.symm.trans hobj)
        cases hop
        obtain ⟨id', ids', _, htarget, hsources⟩ := hearned
        exact .inr (.inr ⟨_, joined_parts hw hd g ⟨id', ids', htarget, hsources⟩ hk,
          _, List.mem_cons_self .., g.joinedAt hcontents⟩)
    | created hid g hop hw' =>
      subst hid hop hw'
      obtain ⟨ids, hids, hjust | ⟨hmade, _⟩⟩ := hearned.2.2 hfinal
      · exact .inr (.inr ⟨ids, hids, (reach_justJoined hw hd hjust hh hobj).mono hsub⟩)
      · exact .inl (Option.some.inj (hobj.symm.trans (reach_justMade hw hd hmade hh)))
    | updated hid g hop hw' =>
      subst hid hw'
      obtain ⟨h', hh', hkey⟩ := g.handle_old
      obtain rfl := Option.some.inj (g.handle.symm.trans hh)
      rw [← hkey] at hobj ⊢
      exact (ih state.id _ h' bytes (.inl g.own.state) (g.isFinal.symm.trans hfinal) hh' hobj).mono
        hsub g.parts
  · rintro d _ _ ih ⟨n, _, rfl⟩
    exact ih
  · rintro d u p w' _ _ _ hf
    exact hf.elim

/-- Whatever is stored for a final upload is empty, or was there at the start, or was joined at
one moment of the run: the request that joined it held the locks of all the parts of the
record, all of them complete partial uploads, and these are their contents in order. -/
theorem final_contents (hw : WellFormed w)
    (hr : Reach (host hooks) (start ⟨config, digests, contract⟩ texts requests w) c)
    {state : UploadState} {h : StorageHandle} {bytes : Bytes}
    (hstate : c.snap.world.states id = some state) (hfinal : state.isFinal = true)
    (hh : state.handle = some h) (hobj : c.snap.world.objects h.key = some bytes) :
    Traced w c.snap.hist state h.key bytes :=
  reach_finalsJoined hw hr id state h bytes (.inl hstate) hfinal hh hobj

theorem withPartLocks_singleton {α : Type} (partId : String) (body : HostM ObjectSig α) :
    withPartLocks [partId] body = lockPartsThen body [] [partId] := by
  unfold withPartLocks
  rw [List.mergeSort_singleton]
  rfl

/-- The final upload over the part of three bytes, while its object is empty. -/
def plannedWorld : World := joinedWorld.put "f" []

theorem wellFormed_plannedWorld : WellFormed plannedWorld := by
  have howner : joinedWorld.owner "f" = some "f" := rfl
  refine wellFormed_joinedWorld.put howner (Nat.zero_le _) fun state hstate hreg => ?_
  cases hstate
  cases hreg

/-- A GET of it. -/
def fetching : Nat → Option Request
  | 0 => some (.download "f")
  | _ => none

/-- What its record plans. -/
def joinedPlan : FinalUploadPlan := ⟨["p"], [joinedPart], statusOf [joinedPart]⟩

theorem loaded_run {s : Snap (Host ObjectSig) World} (hstate : s.world.states "p" = some joinedPart)
    (hvisible : s.world.hidden "p" = none) :
    ∃ hist, Lone (host accepting) 0 (loadFinalUploadStatus joinedFinal) s (.ok (some joinedPlan))
      ⟨s.world, hist⟩ := by
  have hget : HostExec accepting 0 (.stateGet "p") s.world (.ok (some joinedPart)) s.world :=
    hstate ▸ .stateGet hvisible
  have hrun : Lone (host accepting) 0 (loadFinalUploadStatus joinedFinal) s _ _ :=
    .step .refl hget <| .step .refl HostExec.now <| .step .refl HostExec.now <| .done _ _
  exact ⟨_, hrun⟩

/-- The parts were joined and the record completed. -/
def Fetched (s : Snap (Host ObjectSig) World) : Prop :=
  s.world.objects "f" = some [1, 2, 3] ∧ s.world.states "f" = some (joinedFinal.setOffset 3)

/-- The repair plans, locks the part, plans again and joins. -/
theorem repaired_run (hist : List (Event (Host ObjectSig) World)) :
    ∃ s', Lone (host accepting) 0 (repairFinalUpload contract joinedFinal)
      ⟨plannedWorld.lockBy "f" 0, hist⟩ (.ok (joinedFinal.setOffset 3)) s' ∧ Fetched s' := by
  obtain ⟨h₁, hload⟩ := loaded_run (s := ⟨plannedWorld.lockBy "f" 0, hist⟩) rfl rfl
  obtain ⟨h₂, hagain⟩ := loaded_run (s := ⟨(plannedWorld.lockBy "f" 0).lockBy "p" 0,
    ⟨0, .tryLock "p", .ok true, plannedWorld.lockBy "f" 0⟩ :: h₁⟩) rfl rfl
  have hlocked : ∃ s', Lone (host accepting) 0
      (Prog.bind (repairPlanned contract joinedFinal joinedPlan) fun r =>
        Prog.bind (unlockAll ["p"]) fun _ => .done r)
      ⟨(plannedWorld.lockBy "f" 0).lockBy "p" 0, h₂⟩ (.ok (joinedFinal.setOffset 3)) s' ∧
        Fetched s' :=
    ⟨_, .step .refl HostExec.size <| .step .refl (HostExec.hookPre rfl) <|
      .step .refl (@HostExec.concat _ _ _ _ _ [[1, 2, 3]] [] (.cons rfl .nil) (by decide)) <|
      .step .refl HostExec.stateUpdate <| .step .refl HostExec.hookPost <|
      .step .refl HostExec.unlock <| .done _ _, rfl, rfl⟩
  obtain ⟨s', hrun, hfetched⟩ := hlocked
  obtain ⟨r, s, hrepair, hunlock⟩ := Lone.bind_inv hrun
  refine ⟨s', hload.bind ?_, hfetched⟩
  change Lone (host accepting) 0 (withPartLocks ["p"] _) _ _ _
  rw [withPartLocks_singleton]
  exact .step .refl (HostExec.tryLock rfl rfl) (.bind (hagain.bind hrepair) hunlock)

theorem fetched_run : ∃ s', Lone (host accepting) 0 (serve bounding noTexts (.download "f"))
    ⟨plannedWorld, []⟩ (.content 3 [1, 2, 3]) s' ∧ Fetched s' := by
  have haccess : ∀ hist, ∃ s', Lone (host accepting) 0
      (prepareUploadDownloadAccess contract joinedFinal) ⟨plannedWorld.lockBy "f" 0, hist⟩
      (.ok (joinedFinal.setOffset 3)) s' ∧ Fetched s' := by
    intro hist
    obtain ⟨s', hrepair, hfetched⟩ := repaired_run _
    have hprepare : Lone (host accepting) 0 (prepareRead contract joinedFinal)
        ⟨plannedWorld.lockBy "f" 0, hist⟩ _ _ :=
      .step .refl HostExec.size <| .step .refl HostExec.now hrepair
    have hread : Lone (host accepting) 0 (prepareUploadReadAccess contract joinedFinal) _ _ _ :=
      hprepare.bind (.step .refl HostExec.now (.done _ _))
    exact ⟨_, hread.bind (.done _ _), hfetched⟩
  obtain ⟨s', hget, hobj, hstate⟩ := haccess _
  have hdownload : Lone (host accepting) 0 (Protocol.download bounding "f") ⟨plannedWorld, []⟩
      (.ok (3, [1, 2, 3])) _ :=
    .step .refl (HostExec.stateGet rfl) <| .step .refl (HostExec.lock rfl rfl) <|
    .bind (.bind (.step .refl (HostExec.stateGet rfl) <| .done _ _) <| .bind hget <|
      .step .refl (HostExec.stream hobj) <| .done _ _) <|
    .step .refl HostExec.unlock (.done _ _)
  exact ⟨_, hdownload.bind (.done _ _), hobj, hstate⟩

/-- A GET has joined the part. -/
theorem final_contents_get : ∃ c' : Interaction.Config (Host ObjectSig) World Answer,
    Reach (host accepting) (start bounding noTexts fetching plannedWorld) c' ∧
    Traced plannedWorld c'.snap.hist (joinedFinal.setOffset 3) "f" [1, 2, 3] := by
  obtain ⟨s', hrun, hobj, hstate⟩ := fetched_run
  have hreach : Reach (host accepting) (start bounding noTexts fetching plannedWorld) _ :=
    hrun.reach_pool rfl
  exact ⟨_, hreach, final_contents (h := ⟨"f", []⟩) wellFormed_plannedWorld hreach hstate rfl rfl
    hobj⟩

/-! ## Downloads -/

theorem HandleFrom.key {old : UploadState} {h : StorageHandle} (hw : WellFormed w)
    (hr : Reach (host hooks) (start ⟨config, digests, contract⟩ texts requests w) c)
    (hfrom : HandleFrom old h (calls t c.snap.hist)) :
    ∃ h', old.handle = some h' ∧ h'.key = h.key := by
  rcases hfrom with hh | ⟨target, sources, hh, hjoin⟩
  · exact ⟨h, hh, rfl⟩
  · obtain ⟨⟨u, o, a, v⟩, before, hsuffix, _, hcall, _⟩ := calls_mem hjoin
    obtain ⟨after, hpast⟩ := reach_past hw hr _ (hsuffix.subset (List.mem_cons_self ..))
    cases hcall
    exact ⟨target, hh, (concat_inv hpast.exec).1.symm⟩

theorem stream_inv {h : StorageHandle} {bytes : Bytes} {w' : World}
    (he : HostExec hooks t (.storage (.stream h)) w (.ok bytes) w') :
    w.objects h.key = some bytes := by
  cases he with
  | stream hobj => exact hobj

/-- What was streamed for a final upload was joined. -/
theorem reach_streamed (hw : WellFormed w)
    (hr : Reach (host hooks) (start ⟨config, digests, contract⟩ texts requests w) c)
    {old : UploadState} {bytes : Bytes} (hfinal : old.isFinal = true)
    (hstreamed : StreamedFrom id old bytes (calls t c.snap.hist)) :
    ∃ h, old.handle = some h ∧ Traced w c.snap.hist old h.key bytes := by
  obtain ⟨h, recent, earlier, hcalls, hgot, hfrom⟩ := hstreamed
  obtain ⟨e, before, hsuffix, rfl, hcall, rfl⟩ := calls_split hcalls
  obtain ⟨d, k, w', hd, hsnap, _, hx⟩ := hr.event rfl hsuffix
  have hhist : d.snap.hist = before := congrArg Snap.hist hsnap
  have hworld : d.snap.world = e.before := congrArg Snap.world hsnap
  rw [← hhist] at hgot hfrom
  rw [← hworld] at hx
  obtain ⟨u, o, a, v⟩ := e
  cases hcall
  obtain ⟨h', hh', hkey⟩ := HandleFrom.key hw hd hfrom
  have hobj : d.snap.world.objects h'.key = some bytes := hkey ▸ stream_inv hx
  refine ⟨h', hh', (reach_finalsJoined hw hd id old h' bytes (known_of_got hgot) hfinal hh'
    hobj).mono ?_ rfl⟩
  rw [hhist]
  exact ((List.suffix_cons _ _).trans hsuffix).subset

/-- A GET of an upload whose record was final answers with nothing or with bytes that were
stored at the start or joined from the parts of that record. -/
theorem final_download (hw : WellFormed w)
    (hr : Reach (host hooks) (start ⟨config, digests, contract⟩ texts requests w) c) {n : Nat}
    {bytes : Bytes} (hreq : requests t = some (.download id))
    (hdone : c.pool t = some (.done (.content n bytes))) :
    ∃ old, got id old ∈ calls t c.snap.hist ∧ (old.isFinal = true →
      bytes = [] ∨ ∃ h, old.handle = some h ∧ Traced w c.snap.hist old h.key bytes) := by
  obtain ⟨request, hreq', hconcludes⟩ := (reach_kept_start hr).result hdone
  obtain rfl := Option.some.inj (hreq'.symm.trans hreq)
  rw [watching, phase_log] at hconcludes
  obtain ⟨_, old, hgot, _, hbytes⟩ := hconcludes
  exact ⟨old, hgot, fun hfinal => hbytes.imp_right (reach_streamed hw hr hfinal)⟩

theorem final_download_get : ∃ c' : Interaction.Config (Host ObjectSig) World Answer,
    Reach (host accepting) (start bounding noTexts fetching plannedWorld) c' ∧
    ∃ old, got "f" old ∈ calls 0 c'.snap.hist ∧ (old.isFinal = true → ([1, 2, 3] : Bytes) = [] ∨
      ∃ h, old.handle = some h ∧ Traced plannedWorld c'.snap.hist old h.key [1, 2, 3]) := by
  obtain ⟨s', hrun, _⟩ := fetched_run
  have hreach : Reach (host accepting) (start bounding noTexts fetching plannedWorld) _ :=
    hrun.reach_pool rfl
  exact ⟨_, hreach, final_download (n := 3) wellFormed_plannedWorld hreach rfl rfl⟩

end System

end TusRs
