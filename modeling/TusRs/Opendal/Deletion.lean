import TusRs.Opendal.Runs

/-!
# Deleting an upload

A DELETE removes the objects of an upload one after the other and may stop after any of
them; as long as the record is there, the upload goes on with what is left. `size` counts
the parts that are left, so a DELETE that stops between the first and the last part leaves
an upload that begins in the middle of its bytes.

Results:

* `deleteAll_spec`: a DELETE only removes objects, the marker before the main object.
* `receive_remnant`, `download_remnant`: the requests on an upload whose parts do not start
  at one.
* `content_after_delete`: the content after a DELETE, in every state of a run in which no
  DELETE stops among the parts.
* `torn_delete_leaves_suffix`: what a DELETE that does leaves.
-/

namespace TusRs

open Interaction Protocol

namespace Opendal

/-! ## Removing objects -/

section Removing

variable {faults : Prop} {I J : World → Prop} {k : Key}

/-- Removing `k` keeps what every removal of `k` keeps. -/
theorem deleteObject_keeps (hJ : ∀ w, J w → I w) (herase : ∀ w, J w → J (w.erase k)) :
    SpecIn I faults J (deleteObject k) fun _ => J := by
  refine spec_of_eq fun w hw => op_spec (fun _ => J) ?_ fun r => ?_
  · intro a w' _ he
    have hw' : J w' := by
      cases he with
      | delete => exact herase w hw
      | deleteMissing _ => exact hw
      | deleteFailed _ => exact hw
    exact ⟨hJ w' hw', hw'⟩
  · rcases r with (_ | _) | _ <;> exact Triple.done fun _ h => h

theorem deletePrefix_keeps (pre : Prefix) : SpecIn I faults J (deletePrefix pre) fun _ => J := by
  refine spec_of_eq fun w hw => read_spec (fun _ => True) ?_ fun r _ => ?_
  · intro a w' he
    cases he <;> exact ⟨rfl, trivial⟩
  · rcases r with (_ | _) | _ <;> exact Triple.done fun _ h => h ▸ hw

/-- Cleanup in passing. -/
theorem bestEffort_keeps {p : StoreM Unit} (hp : SpecIn I faults J p fun _ => J) :
    SpecIn I faults J (bestEffort p) (fun
      | .ok _, w => J w
      | .error _, _ => False) :=
  Triple.bind _ hp fun _ => Triple.done fun _ h => h

variable (hJ : ∀ w, J w → I w) (herase : ∀ w k, k ≠ .main → J w → J (w.erase k))
include hJ herase

theorem deleteObjects_keeps (keys : List Key) (hkeys : ∀ k ∈ keys, k ≠ .main) :
    SpecIn I faults J (deleteObjects keys) fun _ => J := by
  induction keys with
  | nil => exact Triple.done fun _ h => h
  | cons k ks ih =>
    refine Triple.andThen (fun _ => J) ?_ (fun _ => ?_) fun _ _ h => h
    · exact deleteObject_keeps hJ fun w => herase w k (hkeys k List.mem_cons_self)
    · exact ih fun k' hk' => hkeys k' (List.mem_cons_of_mem k hk')

theorem deleteStagedParts_keeps : SpecIn I faults J deleteStagedParts fun _ => J := by
  refine spec_of_eq fun w hw => ?_
  refine reads_bind listParts_spec (fun parts hlisted => ?_) fun _ _ => Triple.done ?_
  · obtain ⟨ns, hparts⟩ := hlisted
    have hkeys : ∀ k ∈ parts.map PartObject.key, k ≠ .main := by
      rw [hparts.keys]
      intro k hk
      obtain ⟨i, -, rfl⟩ := List.mem_map.mp hk
      exact nofun
    refine Triple.andThen (fun _ => J) ?_ (fun _ => deletePrefix_keeps .parts) fun _ _ h => h
    exact (deleteObjects_keeps hJ herase _ hkeys).weaken (fun _ h => h ▸ hw) fun _ _ h => h
  · exact fun _ h => h ▸ hw

theorem deleteTempObjects_keeps : SpecIn I faults J deleteTempObjects fun _ => J := by
  refine spec_of_eq fun w hw => ?_
  refine reads_bind listTempObjects_spec (fun keys hkeys => ?_) fun _ _ => Triple.done ?_
  · refine Triple.andThen (fun _ => J) ?_ (fun _ => deletePrefix_keeps .tmp) fun _ _ h => h
    exact (deleteObjects_keeps hJ herase _ hkeys).weaken (fun _ h => h ▸ hw) fun _ _ h => h
  · exact fun _ h => h ▸ hw

end Removing

/-- What a DELETE of the upload in `w₀` leaves at any moment. -/
structure Torn (w₀ w : World) : Prop where
  log : w.log = w₀.log
  record : SameRecord w₀ w
  left : ∀ k b, w.objects.lookup k = some b → w₀.objects.lookup k = some b
  order : w.objects.lookup .main = w₀.objects.lookup .main ∨ w.objects.lookup .complete = none

section Tearing

variable {faults : Prop} {w₀ w : World}

theorem Torn.refl (w : World) : Torn w w := ⟨rfl, ⟨rfl, rfl, rfl⟩, fun _ _ h => h, .inl rfl⟩

theorem lookup_of_erase {k k' : Key} {b : Bytes} (h : (w.erase k).objects.lookup k' = some b) :
    w.objects.lookup k' = some b := by
  by_cases hk : k' = k
  · rw [hk, lookup_erase_self] at h
    cases h
  · rwa [lookup_erase_ne hk] at h

/-- The marker is gone, and with it the reason to keep the main object. -/
structure Unmarked (w₀ w : World) : Prop extends Torn w₀ w where
  marker : w.objects.lookup .complete = none

theorem Unmarked.erase (h : Unmarked w₀ w) (k : Key) : Unmarked w₀ (w.erase k) := by
  have hmarker : (w.erase k).objects.lookup .complete = none := by
    cases hlook : (w.erase k).objects.lookup .complete with
    | none => rfl
    | some b => exact (lookup_of_erase hlook).symm.trans h.marker
  exact ⟨⟨h.log, h.record.trans (.erase k), fun k' b hb => h.left k' b (lookup_of_erase hb),
    .inr hmarker⟩, hmarker⟩

theorem deleteAll_spec : SpecIn (Torn w₀) faults (· = w₀) deleteAll fun _ _ => True := by
  have hJ : ∀ w, Unmarked w₀ w → Torn w₀ w := fun _ h => h.toTorn
  refine Triple.andThen (fun
    | .ok _, w => Unmarked w₀ w
    | .error _, _ => True) ?_ (fun _ => ?_) fun _ _ _ => trivial
  · refine op_spec (fun
      | .error (.other _), _ => True
      | _, w => Unmarked w₀ w) ?_ fun r => ?_
    · intro a w' hi he
      cases he with
      | delete =>
        have hgone : (w₀.erase .complete).objects.lookup .complete = none := lookup_erase_self
        have hleft : Unmarked w₀ (w₀.erase .complete) :=
          ⟨⟨rfl, .erase _, fun k b hb => lookup_of_erase hb, .inr hgone⟩, hgone⟩
        exact ⟨hleft.toTorn, hleft⟩
      | deleteMissing hn => exact ⟨hi, hi, hn⟩
      | deleteFailed _ => exact ⟨hi, trivial⟩
    · rcases r with (_ | _) | _ <;> exact Triple.done fun _ h => h
  · refine Triple.weaken (Q := fun _ => Unmarked w₀) ?_ (fun _ h => h) fun _ _ _ => trivial
    refine Triple.andThen (fun _ => Unmarked w₀)
      (deleteObject_keeps hJ fun w h => h.erase .main) (fun _ => ?_) fun _ _ h => h
    refine Triple.andThen (fun _ => Unmarked w₀)
      (deleteStagedParts_keeps hJ fun w k _ h => h.erase k) (fun _ => ?_) fun _ _ h => h
    refine Triple.andThen (fun _ => Unmarked w₀)
      (deleteTempObjects_keeps hJ fun w k _ h => h.erase k) (fun _ => ?_) fun _ _ h => h
    exact deletePrefix_keeps .container

end Tearing

/-! ## What is left of an upload -/

/-- The upload lies in the parts after `base`. A marker, where there is one, names the last
part of a complete upload. -/
structure InParts (base : Nat) (w : World) : Prop extends Spread w.log base w where
  marker : w.length = some (total w.log) → w.log ≠ [] → ∀ m,
    w.objects.lookup .complete = some m → m = markerBytes (base + w.log.length)

/-- The upload lies in the main object. -/
structure InMain (base : Nat) (w : World) : Prop where
  main : w.objects.lookup .main = some w.log.flatten
  parts : ∀ i b, w.objects.lookup (.part i) = some b → body w.log (i - base) = some b
  nonempty : w.log ≠ []
  full : ∀ l, w.length = some l → l = total w.log

/-- The invariant of an upload that deletions may have emptied: its parts go on from the
cursor that the record kept. -/
structure Remnant (base : Nat) (w : World) : Prop where
  few : base + w.log.length < 10 ^ 10
  fits : total w.log ≤ u64Max
  length_fits : ∀ l, w.length = some l → l ≤ u64Max
  cursor_lt : base < nextPart w.handle
  cursor_le : nextPart w.handle ≤ base + w.log.length + 1
  shape : InParts base w ∨ InMain base w

section Remnants

variable {base : Nat} {w w' : World}

theorem InMain.gathered (h : InMain base w) : Gathered w.log base w :=
  ⟨⟨_, h.main, rfl⟩, h.parts, h.nonempty⟩

theorem Remnant.shapes (h : Remnant base w) : Spread w.log base w ∨ Gathered w.log base w :=
  h.shape.imp InParts.toSpread InMain.gathered

theorem Remnant.inMain (h : Remnant base w) (hmain : w.objects.lookup .main ≠ none) :
    InMain base w := by
  rcases h.shape with hs | hs
  · exact absurd hs.main hmain
  · exact hs

theorem Remnant.inParts (h : Remnant base w) (hmain : w.objects.lookup .main = none) :
    InParts base w := by
  rcases h.shape with hs | hs
  · exact hs
  · rw [hs.main] at hmain
    cases hmain

theorem InParts.of_same (h : Same w w') (hs : InParts base w) : InParts base w' where
  main := h.main.trans hs.main
  parts i := by rw [h.part, hs.parts, h.log]
  marker := by rw [h.length, h.log, h.complete]; exact hs.marker

theorem InMain.of_same (h : Same w w') (hs : InMain base w) : InMain base w' where
  main := by rw [h.main, h.log]; exact hs.main
  parts i b := by rw [h.part, h.log]; exact hs.parts i b
  nonempty := by rw [h.log]; exact hs.nonempty
  full := by rw [h.length, h.log]; exact hs.full

theorem Remnant.of_shape (h : Remnant base w) (hlog : w'.log = w.log) (hrec : SameRecord w w')
    (hs : InParts base w' ∨ InMain base w') : Remnant base w' where
  few := by rw [hlog]; exact h.few
  fits := by rw [hlog]; exact h.fits
  length_fits := by rw [hrec.length]; exact h.length_fits
  cursor_lt := by rw [hrec.handle]; exact h.cursor_lt
  cursor_le := by rw [hrec.handle, hlog]; exact h.cursor_le
  shape := hs

theorem remnant_closed : Closed (Remnant base) := fun _ _ h hw =>
  hw.of_shape h.log h.record (hw.shape.imp (.of_same h) (.of_same h))

theorem fresh_remnant {length : Option Nat} (h : ∀ l, length = some l → l ≤ u64Max) :
    Remnant 0 (fresh length) where
  few := show 0 + 0 < 10 ^ 10 by decide
  fits := Nat.zero_le _
  length_fits := h
  cursor_lt := Nat.one_pos
  cursor_le := Nat.le_refl 1
  shape := .inl ⟨⟨rfl, fun i => by cases i <;> rfl⟩, fun _ hne => absurd rfl hne⟩

end Remnants

/-! ## The content of a remnant -/

section Contents

variable {base : Nat} {w : World}

theorem Remnant.size_spec {I : World → Prop} {faults : Prop} (h : Remnant base w) :
    SpecIn I faults (· = w) size (Reads faults w fun n => n = reported w.log) :=
  storedSize_reads h.fits h.shapes

theorem Remnant.content_eq (h : Remnant base w) : content w = w.log.flatten := by
  rcases h.shape with hs | hm
  · unfold content
    rw [hs.main, hs.numbers]
    exact hs.flatMap_parts
  · have hle : ((partNumbers w).flatMap fun i => bytesAt w (.part i)).length ≤
        w.log.flatten.length := by
      rw [List.length_flatMap]
      exact hm.gathered.leftover_le (partNumbers_nodup w) fun i hi => mem_partNumbers.mp hi
    unfold content
    rw [hm.main]
    simp only [hle, if_true]

end Contents

/-! ## Appending to a remnant -/

section Appending

variable {base : Nat} {w w' : World} {u : UploadObjects} {data : ChunkStream} {completes : Bool}

theorem InParts.put_next (hs : InParts base w) {b : Bytes}
    (hmark : w.length = some (total w.log + b.length) → ∀ m,
      w.objects.lookup .complete = some m → m = markerBytes (base + w.log.length + 1)) :
    InParts base (w.put (.part (base + w.log.length + 1)) b) where
  main := by rw [lookup_put_ne (by simp)]; exact hs.main
  parts i := by
    rw [put_part_log, body_append]
    by_cases hi : i = base + w.log.length + 1
    · rw [hi, lookup_put_self, if_pos (by omega)]
    · rw [lookup_put_ne (by simpa using hi), hs.parts, if_neg (by omega)]
  marker := by
    intro hlen _ m hm
    rw [put_part_log, put_length, total_append] at hlen
    rw [lookup_put_ne (by simp)] at hm
    rw [put_part_log, List.length_append, List.length_singleton, ← Nat.add_assoc]
    exact hmark hlen m hm

theorem InParts.marked (hs : InParts base w) (hfresh : w.length = some (total w.log) → w.log = [])
    (number : Nat) : InParts base (marked w number completes) := by
  unfold Opendal.marked
  split
  · refine ⟨⟨?_, fun i => ?_⟩, ?_⟩
    · rw [lookup_put_ne (by simp)]
      exact hs.main
    · rw [lookup_put_ne (by simp), put_log rfl]
      exact hs.parts i
    · rw [put_log rfl, put_length]
      exact fun hlen hne => absurd (hfresh hlen) hne
  · exact hs

theorem InParts.erase_marker (hs : InParts base w)
    (hfresh : w.length = some (total w.log) → w.log = []) : InParts base (w.erase .complete) where
  main := by rw [lookup_erase_ne (by simp)]; exact hs.main
  parts i := by rw [lookup_erase_ne (by simp)]; exact hs.parts i
  marker hlen hne := absurd (hfresh hlen) hne

theorem Remnant.put_next (hw : Remnant base w) (hroom : base + w.log.length + 1 < 10 ^ 10)
    {b : Bytes} (hfits : total w.log + b.length ≤ u64Max)
    (hs : InParts base (w.put (.part (base + w.log.length + 1)) b)) :
    Remnant base (w.put (.part (base + w.log.length + 1)) b) where
  few := by
    rw [put_part_log, List.length_append]
    exact hroom
  fits := by
    rw [put_part_log, total_append]
    exact hfits
  length_fits := hw.length_fits
  cursor_lt := hw.cursor_lt
  cursor_le := by
    rw [put_part_log, List.length_append]
    exact hw.cursor_le.trans (by omega)
  shape := .inl hs

/-- A body staged in a remnant is its next part. -/
theorem stageAt_remnant (hw : Remnant base w) (hs : InParts base w)
    (hroom : base + w.log.length + 1 < 10 ^ 10) (ha : Accepts w data.collect completes)
    {position : AppendPosition} (hposition : position.partNumber = base + w.log.length + 1) :
    SpecIn (Remnant base) True (· = w) (stageAt u position data completes) (fun
      | .ok _, w' => ∃ bytes, data.collect = some bytes ∧ InParts base w' ∧
          w'.log = w.log ++ [bytes] ∧ SameRecord w w'
      | .error _, _ => True) := by
  have habsent : w.objects.lookup (.part position.partNumber) = none := by
    rw [hs.parts, hposition]
    exact body_eq_none (.inr (by omega))
  set number := position.partNumber
  set wm := marked w number completes with hwm
  have hlog : wm.log = w.log := marked_log _ _
  have hrec : SameRecord w wm := marked_record _ _
  have hsm : InParts base wm := hs.marked ha.fresh number
  have hfresh : wm.length = some (total wm.log) → wm.log = [] := by
    rw [hrec.length, hlog]
    exact ha.fresh
  have hwm' : Remnant base wm := hw.of_shape hlog hrec (.inl hsm)
  have hwe : Remnant base (wm.erase .complete) :=
    hw.of_shape hlog (hrec.trans (.erase _)) (.inl (hsm.erase_marker hfresh))
  have hnext : ∀ bytes, data.collect = some bytes →
      InParts base (wm.put (.part number) bytes) ∧ Remnant base (wm.put (.part number) bytes) := by
    intro bytes hbytes
    have hnumber : number = base + wm.log.length + 1 := by rw [hlog, hposition]
    have hput : InParts base (wm.put (.part number) bytes) := by
      rw [hnumber]
      refine hsm.put_next fun hlen m hm => ?_
      -- a body that reaches the length completes the upload, and its marker was written
      rw [hrec.length, hlog] at hlen
      rw [hwm, marked, if_pos (ha.completing bytes hbytes hlen), lookup_put_self] at hm
      rw [← Option.some.inj hm, hnumber]
    refine ⟨hput, ?_⟩
    rw [hnumber] at hput ⊢
    exact hwm'.put_next (by rw [hlog]; exact hroom) (by rw [hlog]; exact ha.fits bytes hbytes) hput
  refine (stageAt_writes remnant_closed hw habsent (fun _ => ⟨hwm', hwe⟩)
    fun bytes hb => (hnext bytes hb).2).weaken (fun _ h => h) fun r w' h => ?_
  cases r with
  | error e => trivial
  | ok n =>
    obtain ⟨bytes, hbytes, hsame, -⟩ := h
    refine ⟨bytes, hbytes, .of_same hsame (hnext bytes hbytes).1, ?_,
      (hrec.trans (.put _ _)).trans hsame.record⟩
    rw [hsame.log]
    exact congrArg (· ++ [bytes]) hlog

theorem appendPart_remnant (hw : Remnant base w) (hs : InParts base w)
    (hroom : base + w.log.length + 1 < 10 ^ 10) (ha : Accepts w data.collect completes) :
    SpecIn (Remnant base) True (· = w) (appendPart u w.handle (total w.log) data completes) (fun
      | .ok h, w' => h.nextPart = some (base + w.log.length + 2) ∧
          ∃ bytes, data.collect = some bytes ∧ InParts base w' ∧ w'.log = w.log ++ [bytes] ∧
            SameRecord w w'
      | .error _, _ => True) := by
  have hcount : base + w.log.length < u64Max := hw.few.trans (by decide)
  refine reads_bind (appendPosition_reads hw.fits hs.toSpread hcount hw.cursor_lt hw.cursor_le)
    (fun position hpos => ?_) fun _ _ => Triple.done fun _ _ => trivial
  refine Triple.ite (fun _ => Triple.done fun _ _ => trivial) fun _ => ?_
  refine Triple.andThen _ (stageAt_remnant hw hs hroom ha hpos.1)
    (fun _ => Triple.done fun w' h => ⟨?_, h⟩) fun _ _ _ => trivial
  rw [hpos.1]

end Appending

/-! ## Materialising a remnant -/

section Materialising

variable {base : Nat} {w w' : World} {u : UploadObjects}

theorem InParts.put_main (hs : InParts base w) (hne : w.log ≠ [])
    (hfull : ∀ l, w.length = some l → l = total w.log) :
    InMain base (w.put .main w.log.flatten) where
  main := by rw [lookup_put_self, put_log rfl]
  parts i b hb := by
    rw [lookup_put_ne (by simp), hs.parts] at hb
    rw [put_log rfl]
    exact hb
  nonempty := by rw [put_log rfl]; exact hne
  full := by rw [put_log rfl]; exact hfull

theorem InMain.erase (hm : InMain base w) {k : Key} (hk : k ≠ .main) :
    InMain base (w.erase k) where
  main := by rw [lookup_erase_ne hk.symm]; exact hm.main
  parts i b hb := hm.parts i b (lookup_of_erase hb)
  nonempty := hm.nonempty
  full := hm.full

/-- The upload in parts in `w` is in the main object in `w'`. -/
structure Moves (base : Nat) (w w' : World) : Prop where
  inMain : InMain base w'
  log : w'.log = w.log
  record : SameRecord w w'

theorem Moves.erase (h : Moves base w w') {k : Key} (hk : k ≠ .main) :
    Moves base w (w'.erase k) :=
  ⟨h.inMain.erase hk, h.log, h.record.trans (.erase k)⟩

theorem Moves.remnant (h : Moves base w w') (hw : Remnant base w) : Remnant base w' :=
  hw.of_shape h.log h.record (.inr h.inMain)

theorem InParts.moves (hs : InParts base w) (hne : w.log ≠ [])
    (hfull : ∀ l, w.length = some l → l = total w.log)
    (h : Same (w.put .main w.log.flatten) w') : Moves base w w' :=
  ⟨.of_same h (hs.put_main hne hfull), h.log.trans (put_log rfl),
    (SameRecord.put _ _).trans h.record⟩

/-- The parts in the order of a listing are the upload. -/
theorem PartsOf.contents_spread {ns : List Nat} {parts : List PartObject} {log : List Bytes}
    (h : PartsOf w ns parts) (hs : Spread log base w) (hfew : base + log.length < 10 ^ 10) :
    contents w (parts.map PartObject.key) = log.flatten := by
  have hns : ns = List.range' (base + 1) log.length :=
    byName_unique (h.perm hs) h.byName (byName_range' hfew)
  rw [contents, h.keys, hns, List.flatMap_map]
  exact hs.flatMap_parts

theorem finalize_remnant (hw : Remnant base w) (hs : InParts base w) (hne : w.log ≠ [])
    (hfull : ∀ l, w.length = some l → l = total w.log) :
    SpecIn (Remnant base) True (· = w) (finalize u) (fun
      | .ok _, w' => Moves base w w'
      | .error _, w' => Same w w') := by
  have hmoved : ∀ w', Same (w.put .main w.log.flatten) w' → Moves base w w' :=
    fun _ => hs.moves hne hfull
  have hlayout : Remnant base (w.put .main w.log.flatten) := (hmoved _ (Same.refl _)).remnant hw
  refine reads_bind listParts_spec (fun parts hlisted => ?_)
    fun _ _ => Triple.done fun _ h => h ▸ Same.refl w
  obtain ⟨ns, hparts⟩ := hlisted
  have hcontents := hparts.contents_spread hs.toSpread hw.few
  have hfound : ∀ k ∈ parts.map PartObject.key, ∃ b, w.objects.lookup k = some b := by
    intro k hk
    obtain ⟨p, hp, rfl⟩ := List.mem_map.mp hk
    exact hparts.found p hp
  refine Triple.andThen _ (materialize_spec remnant_closed hw "finalize" _ hfound
    (hcontents ▸ hlayout)) (fun _ => ?_) fun _ _ h => h.1
  -- from here on only leftovers are removed
  have hJ : ∀ w', Moves base w w' → Remnant base w' := fun _ h => h.remnant hw
  have herase : ∀ w' k, k ≠ .main → Moves base w w' → Moves base w (w'.erase k) :=
    fun _ _ hk h => h.erase hk
  refine Triple.weaken (P := Moves base w) (Q := fun
    | .ok _, w' => Moves base w w'
    | .error _, _ => False) ?_ (fun w' h => ?_) ?_
  · refine Triple.andThen _ (bestEffort_keeps (deleteStagedParts_keeps hJ herase))
      (fun _ => ?_) fun _ _ h => h
    refine Triple.andThen _ (bestEffort_keeps (deleteTempObjects_keeps hJ herase))
      (fun _ => ?_) fun _ _ h => h
    exact bestEffort_keeps (deleteObject_keeps hJ fun w' h => h.erase nofun)
  · rw [Materialized, hcontents] at h
    exact hmoved w' h
  · rintro (_ | _) w' h
    · exact h.elim
    · exact h

theorem finalizeWithRetry_remnant (n : Nat) (hw : Remnant base w) (hs : InParts base w)
    (hne : w.log ≠ []) (hfull : ∀ l, w.length = some l → l = total w.log) :
    SpecIn (Remnant base) True (· = w) (finalizeWithRetry u n) (fun
      | .ok _, w' => Moves base w w'
      | .error _, w' => Same w w') := by
  induction n generalizing w with
  | zero => exact finalize_remnant hw hs hne hfull
  | succ n ih =>
    refine Triple.bind _ (finalize_remnant hw hs hne hfull) fun r => ?_
    cases r with
    | ok _ => exact Triple.done fun _ h => h
    | error e =>
      refine spec_of_eq fun w₁ hsame => ?_
      refine (ih (remnant_closed hsame hw) (.of_same hsame hs) (by rw [hsame.log]; exact hne)
        (by rw [hsame.log, hsame.length]; exact hfull)).weaken (fun _ h => h) fun r w' h => ?_
      cases r with
      | ok _ => exact ⟨h.inMain, h.log.trans hsame.log, hsame.record.trans h.record⟩
      | error e => exact hsame.trans h

end Materialising

/-! ## Requests on a remnant -/

section Requests

variable {base : Nat} {w w' : World} {u : UploadObjects} {id : String} {q : ReceiveRequest}
  {data : ChunkStream} {length : Option Nat} {completes : Bool}

/-- The result of an append to a remnant. -/
def Grown (base : Nat) (w : World) (data : Option Bytes) (completes : Bool) :
    Except Error Handle → World → Prop
  | .ok h, w' => h.nextPart = some (base + w.log.length + 2) ∧
      ∃ bytes, data = some bytes ∧ w'.log = w.log ++ [bytes] ∧ SameRecord w w' ∧
        if completes then InMain base w' else InParts base w'
  | .error _, _ => True

theorem append_remnant (hw : Remnant base w) (hs : InParts base w)
    (hroom : base + w.log.length + 1 < 10 ^ 10) (ha : Accepts w data.collect completes) :
    SpecIn (Remnant base) True (· = w) (append u w.handle (total w.log) data completes)
      (Grown base w data.collect completes) := by
  refine Triple.andThen _ (appendPart_remnant hw hs hroom ha) (fun h => ?_) fun _ _ _ => trivial
  refine Triple.ite (fun hcomp => ?_) fun hcomp => ?_
  · refine spec_of_eq fun w₁ h₁ => ?_
    obtain ⟨hnext, bytes, hbytes, hs₁, hlog, hrec⟩ := h₁
    have htotal : total w₁.log = total w.log + bytes.length := by rw [hlog, total_append]
    have hfull : ∀ l, w₁.length = some l → l = total w₁.log := by
      intro l hl
      rw [hrec.length] at hl
      rw [htotal]
      exact ha.full hcomp bytes l hbytes hl
    have hw₁ : Remnant base w₁ := by
      refine ⟨?_, ?_, ?_, ?_, ?_, .inl hs₁⟩
      · rw [hlog, List.length_append]
        exact hroom
      · rw [htotal]
        exact ha.fits bytes hbytes
      · rw [hrec.length]
        exact hw.length_fits
      · rw [hrec.handle]
        exact hw.cursor_lt
      · rw [hrec.handle, hlog, List.length_append]
        exact hw.cursor_le.trans (by omega)
    refine Triple.andThen _ (finalizeWithRetry_remnant finalizeRetries hw₁ hs₁ (by simp [hlog])
      hfull) (fun _ => Triple.done fun w' h' => ?_) fun _ _ _ => trivial
    refine ⟨hnext, bytes, hbytes, h'.log.trans hlog, hrec.trans h'.record, ?_⟩
    rw [if_pos hcomp]
    exact h'.inMain
  · refine Triple.done ?_
    rintro w' ⟨hnext, bytes, hbytes, hs', hlog, hrec⟩
    refine ⟨hnext, bytes, hbytes, hlog, hrec, ?_⟩
    rw [if_neg hcomp]
    exact hs'

/-- Saving the handle of an append with the length it worked with. -/
theorem Admitted.remnant_saved (h : Admitted w q length completes)
    (hroom : base + w.log.length + 1 < 10 ^ 10) {handle : Handle} {bytes : Bytes}
    (hnext : handle.nextPart = some (base + w.log.length + 2))
    (hbytes : q.body.data.collect = some bytes) (hlog : w'.log = w.log ++ [bytes])
    (hshape : if completes then InMain base w' else InParts base w') :
    Remnant base (w'.saved handle length) := by
  have htotal : total w'.log = total w.log + q.body.size := by
    rw [hlog, total_append, q.body.exact bytes hbytes]
  have hcursor : nextPart handle = base + w.log.length + 2 := by rw [nextPart, hnext]; rfl
  have hlen : w'.log.length = w.log.length + 1 := by rw [hlog, List.length_append]; rfl
  refine ⟨?_, ?_, fun l hl => (h.within l hl).2, ?_, ?_, ?_⟩
  · show base + w'.log.length < 10 ^ 10
    omega
  · show total w'.log ≤ u64Max
    rw [htotal]
    exact h.fits
  · show base < nextPart handle
    omega
  · show nextPart handle ≤ base + w'.log.length + 1
    omega
  · split at hshape
    · next hc =>
      refine .inr ⟨hshape.main, hshape.parts, hshape.nonempty, fun l hl => ?_⟩
      show l = total w'.log
      rw [htotal]
      exact Option.some.inj (hl.symm.trans (h.completes_iff.mp hc))
    · next hc =>
      refine .inl ⟨⟨hshape.main, hshape.parts⟩, fun hl _ => ?_⟩
      -- a body that reaches the length completes the upload
      refine absurd (h.completes_iff.mpr ?_) hc
      rw [← htotal]
      exact hl

theorem receive_remnant (hw : Remnant base w) (hr : Resumable w)
    (hroom : base + w.log.length + 1 < 10 ^ 10) (hfits : Fits w q) :
    SpecIn (Remnant base) True (· = w) (receive u id q) (fun _ _ => True) := by
  refine load_spec (reads_bind hw.size_spec (fun stored hstored => ?_)
    fun _ _ => Triple.done fun _ _ => trivial)
  subst hstored
  refine Triple.ite (fun _ => Triple.done fun _ _ => trivial) fun hopen => ?_
  rw [reported_getD]
  have hfresh : w.length = some (total w.log) → w.log = [] := by
    intro hl
    by_contra hne
    refine hopen ?_
    simp [reported, hne, hl]
  have hs : InParts base w := by
    rcases hw.shape with hs | hm
    · exact hs
    · -- an upload in its main object has its length, and was refused
      obtain ⟨l, hl⟩ := Option.ne_none_iff_exists'.mp (hr (by rw [hm.main]; simp))
      exact absurd (hfresh (hl.trans (congrArg some (hm.full l hl)))) hm.nonempty
  cases hcheck : checkReceive q w.length (total w.log) with
  | error e => exact Triple.done fun _ _ => trivial
  | ok admitted =>
    obtain ⟨length, completes⟩ := admitted
    have had := checkReceive_ok hw.fits hw.length_fits hfits hcheck
    have hcount : w.log.length < u64Max :=
      ((Nat.le_add_left _ _).trans_lt hw.few).trans (by decide)
    refine Triple.bind _ (append_remnant hw hs hroom (had.accepts hcount hfresh)) fun r => ?_
    cases r with
    | error e => exact Triple.done fun _ _ => trivial
    | ok h =>
      refine spec_of_eq ?_
      rintro w₁ ⟨hnext, bytes, hbytes, hlog, -, hshape⟩
      refine op_spec (fun _ _ => True) ?_ fun r => Triple.done fun _ _ => trivial
      intro a w' hi he
      cases he with
      | save => exact ⟨had.remnant_saved hroom hnext hbytes hlog hshape, trivial⟩
      | saveFailed _ => exact ⟨hi, trivial⟩

/-- A repair needs every part from one on: it does not touch an upload that starts later. -/
theorem ensureMaterialized_remnant (hw : Remnant base w) (hc : Complete w) :
    SpecIn (Remnant base) True (· = w) (ensureMaterialized u) (fun
      | .ok true, w' => Moves base w w'
      | _, _ => True) := by
  refine stat_spec (fun b hb => ?_) (fun hn => ?_) fun m _ => Triple.done fun _ _ => trivial
  · refine Triple.done ?_
    rintro _ rfl
    exact ⟨hw.inMain (by rw [hb]; simp), rfl, rfl, rfl, rfl⟩
  · have hs : InParts base w := hw.inParts hn
    have hfull : ∀ l, w.length = some l → l = total w.log := fun l hl =>
      Option.some.inj (hl.symm.trans hc.2)
    cases hmark : w.objects.lookup .complete with
    | none =>
      refine readObject_spec (fun b hb => ?_) (fun _ => Triple.done fun _ _ => trivial)
        fun _ _ => Triple.done fun _ _ => trivial
      rw [hmark] at hb
      cases hb
    | some m =>
      have hnumber := hs.marker hc.2 hc.1 m hmark
      subst hnumber
      refine reads_bind (readCompletionMarker_spec (hw.few.le.trans (by decide)) hmark)
        (fun completing hcompleting => ?_) fun _ _ => Triple.done fun _ _ => trivial
      subst hcompleting
      refine stat_spec (fun b _ => ?_) (fun _ => Triple.done fun _ _ => trivial)
        fun _ _ => Triple.done fun _ _ => trivial
      refine reads_bind listParts_spec (fun parts hlisted => ?_)
        fun _ _ => Triple.done fun _ _ => trivial
      obtain ⟨ns, hparts⟩ := hlisted
      refine Triple.ite (fun _ => Triple.done fun _ _ => trivial) fun hgap => ?_
      -- part one is there, so the parts start with it
      have hbase : base = 0 := by
        have hone : 1 ∈ parts.filterMap fun part => partNumber part.key := by
          by_contra hnot
          refine hgap (.inr ⟨1, List.mem_range'_1.mpr ⟨Nat.le_refl 1, ?_⟩, hnot⟩)
          have := List.length_pos_iff.mpr hc.1
          omega
        rw [hparts.numbers, (hparts.perm hs.toSpread).mem_iff, List.mem_range'_1] at hone
        omega
      subst hbase
      have hcontents : contents w ((repairNumbers (0 + w.log.length)).map Key.part) =
          w.log.flatten := by
        rw [contents, repairNumbers, List.flatMap_map, Nat.zero_add]
        exact hs.flatMap_parts
      have hfound : ∀ k ∈ (repairNumbers (0 + w.log.length)).map Key.part,
          ∃ b, w.objects.lookup k = some b := by
        intro k hk
        obtain ⟨i, hi, rfl⟩ := List.mem_map.mp hk
        rw [repairNumbers, Nat.zero_add] at hi
        rw [hs.parts]
        exact body_sub_isSome.mpr hi
      have hmoved : ∀ w', Same (w.put .main w.log.flatten) w' → Moves 0 w w' :=
        fun _ => hs.moves hc.1 hfull
      refine Triple.bind _ (materialize_spec remnant_closed hw "repair" _ hfound
        (hcontents ▸ (hmoved _ (Same.refl _)).remnant hw)) fun r => ?_
      cases r with
      | ok _ =>
        refine Triple.done fun w' h => ?_
        rw [Materialized, hcontents] at h
        exact hmoved w' h
      | error e =>
        refine spec_of_eq fun w₁ h₁ => ?_
        refine stat_spec (fun b hb => ?_) (fun _ => Triple.done fun _ _ => trivial)
          fun _ _ => Triple.done fun _ _ => trivial
        rw [h₁.1.main, hs.main] at hb
        cases hb

theorem stream_remnant (hw : Remnant base w) (hc : Complete w) :
    SpecIn (Remnant base) True (· = w) (stream u) (fun
      | .ok bytes, _ => bytes = w.log.flatten
      | .error _, _ => True) := by
  refine Triple.andThen _ (ensureMaterialized_remnant hw hc) (fun materialized => ?_)
    fun _ _ _ => trivial
  cases materialized with
  | false => exact Triple.done fun _ _ => trivial
  | true =>
    refine spec_of_eq fun w₁ hmoves => ?_
    refine readObject_spec (fun b hb => ?_) (fun _ => Triple.done fun _ _ => trivial)
      fun _ _ => Triple.done fun _ _ => trivial
    refine Triple.done fun _ _ => ?_
    rw [hmoves.inMain.main, hmoves.log, Option.some.injEq] at hb
    exact hb.symm

theorem download_remnant (hw : Remnant base w) :
    SpecIn (Remnant base) True (· = w) (download u id) (fun
      | .ok bytes, _ => bytes = w.log.flatten
      | .error _, _ => True) := by
  refine load_spec (reads_bind hw.size_spec (fun stored hstored => ?_)
    fun _ _ => Triple.done fun _ _ => trivial)
  subst hstored
  dsimp only
  rw [reported_getD]
  refine Triple.ite (fun _ => Triple.done fun _ _ => trivial) fun hlen => ?_
  refine Triple.ite (fun hzero => Triple.done fun _ _ => ?_) fun hne => ?_
  · exact (List.length_eq_zero_iff.mp hzero).symm
  · refine stream_remnant hw ⟨fun hnil => hne ?_, not_not.mp hlen⟩
    rw [hnil]
    rfl

end Requests

/-! ## Where a DELETE stops -/

/-- All of the upload is there: the main object, or every part of it. -/
def Whole (w : World) : Prop :=
  w.objects.lookup .main ≠ none ∨ (partNumbers w).length = w.log.length

/-- Nothing of the upload is there. -/
def Gone (w : World) : Prop := w.objects.lookup .main = none ∧ partNumbers w = []

section Stopping

variable {base : Nat} {w₀ w : World}

theorem Torn.parts_left (hw : Remnant base w₀) (h : Torn w₀ w) {i : Nat} {b : Bytes}
    (hb : w.objects.lookup (.part i) = some b) : body w.log (i - base) = some b := by
  have hb₀ := h.left _ _ hb
  rw [h.log]
  rcases hw.shape with hs | hm
  · rw [← hs.parts]
    exact hb₀
  · exact hm.parts i b hb₀

theorem Torn.remnant_of_whole (hw : Remnant base w₀) (h : Torn w₀ w) (hwhole : Whole w) :
    Remnant base w := by
  refine hw.of_shape h.log h.record ?_
  cases hmain : w.objects.lookup .main with
  | some m =>
    have hmain₀ := h.left _ _ hmain
    have hm := hw.inMain (by rw [hmain₀]; simp)
    refine .inr ⟨?_, fun i b => h.parts_left hw, ?_, ?_⟩
    · rw [hmain, ← hmain₀, hm.main, h.log]
    · rw [h.log]
      exact hm.nonempty
    · rw [h.log, h.record.length]
      exact hm.full
  | none =>
    have hcount : (partNumbers w).length = w.log.length :=
      hwhole.resolve_left fun hne => hne hmain
    -- as many parts as bodies, so none is missing
    have hperm : (partNumbers w).Perm (List.range' (base + 1) w.log.length) := by
      refine List.Subperm.perm_of_length_le (List.subperm_of_subset (partNumbers_nodup w) ?_) ?_
      · intro i hi
        obtain ⟨b, hb⟩ := mem_partNumbers.mp hi
        exact body_sub_isSome.mp ⟨b, h.parts_left hw hb⟩
      · rw [List.length_range', hcount]
    refine .inl ⟨⟨hmain, fun i => ?_⟩, fun hlen hne m hm => ?_⟩
    · cases hb : w.objects.lookup (.part i) with
      | some b => exact (h.parts_left hw hb).symm
      | none =>
        cases hbody : body w.log (i - base) with
        | none => rfl
        | some b =>
          have hi := hperm.mem_iff.mpr (body_sub_isSome.mp ⟨b, hbody⟩)
          obtain ⟨b', hb'⟩ := mem_partNumbers.mp hi
          rw [hb] at hb'
          cases hb'
    · rcases h.order with hsame | hgone
      · -- the main object was never there
        have hs := hw.inParts (hsame.symm.trans hmain)
        rw [h.log]
        rw [h.log, h.record.length] at hlen
        exact hs.marker hlen (h.log ▸ hne) m (h.left _ _ hm)
      · rw [hgone] at hm
        cases hm

end Stopping

/-! ## Forgetting removed bodies -/

/-- The upload without the first `n` bodies of its history. -/
def World.since (w : World) (n : Nat) : World := { w with log := w.log.drop n }

section Since

variable {faults : Prop} {α : Type} {n base : Nat} {w w' : World}

theorem put_since (h : n ≤ w.log.length) (k : Key) (b : Bytes) :
    (w.put k b).since n = (w.since n).put k b := by
  simp only [World.since, World.put]
  split
  · rw [List.drop_append_of_le_length h]
  · rfl

/-- No operation looks at the history. -/
theorem StoreExec.since {o : StoreOp} {a : StoreSig.Ans o} (h : StoreExec faults o w a w')
    (hn : n ≤ w.log.length) : StoreExec faults o (w.since n) a (w'.since n) := by
  cases h with
  | write => exact put_since hn _ _ ▸ .write
  | writerClose => exact put_since hn _ _ ▸ .writerClose
  | copy hb => exact put_since hn _ _ ▸ .copy hb
  | @rename _ k k' b hb =>
    have hrenamed : ((w.erase k).put k' b).since n = ((w.since n).erase k).put k' b :=
      put_since (w := w.erase k) hn k' b
    exact hrenamed ▸ .rename hb
  | _ => constructor <;> assumption

theorem Outcome.since {p : Prog StoreSig α} {r : Option α} (h : Outcome faults p w r w')
    (hn : n ≤ w.log.length) : Outcome faults p (w.since n) r (w'.since n) := by
  obtain ⟨hist, hist', he⟩ := h
  have hsim : ∀ o w₁ a w₂ v, v = w₁.since n ∧ n ≤ w₁.log.length →
      (store faults).exec 0 o w₁ a w₂ →
      ∃ v', (store faults).exec 0 o v a v' ∧ v' = w₂.since n ∧ n ≤ w₂.log.length := by
    rintro o w₁ a w₂ _ ⟨rfl, hle⟩ he
    exact ⟨_, StoreExec.since he hle, rfl, hle.trans (StoreExec.extends he).log.length_le⟩
  obtain ⟨⟨v, events⟩, hx, hworld, -⟩ := he.simulate hsim (x := ⟨w.since n, []⟩) ⟨rfl, hn⟩
  obtain rfl : v = w'.since n := hworld
  exact ⟨_, _, hx⟩

/-- An emptied upload starts again at the cursor that the record kept. -/
theorem Torn.remnant_of_gone {w₀ : World} (hw : Remnant base w₀) (h : Torn w₀ w) (hgone : Gone w) :
    Remnant (nextPart w.handle - 1) (w.since w.log.length) := by
  have hnil : (w.since w.log.length).log = [] := List.drop_length
  have hlt := hw.cursor_lt
  have hle := hw.cursor_le
  have hfew := hw.few
  have hcursor : nextPart (w.since w.log.length).handle = nextPart w₀.handle :=
    congrArg nextPart h.record.handle
  have hcursor' : nextPart w.handle = nextPart w₀.handle := congrArg nextPart h.record.handle
  have hparts : ∀ i, w.objects.lookup (.part i) = none := by
    intro i
    cases hb : w.objects.lookup (.part i) with
    | none => rfl
    | some b =>
      have hi := mem_partNumbers.mpr ⟨b, hb⟩
      rw [hgone.2] at hi
      cases hi
  refine ⟨?_, ?_, ?_, ?_, ?_, .inl ⟨⟨hgone.1, fun i => ?_⟩, fun _ hne => absurd hnil hne⟩⟩
  · rw [hnil, List.length_nil]
    omega
  · rw [hnil]
    exact Nat.zero_le _
  · show ∀ l, w.length = some l → l ≤ u64Max
    rw [h.record.length]
    exact hw.length_fits
  · omega
  · rw [hnil, List.length_nil]
    omega
  · rw [hnil]
    refine (hparts i).trans (body_eq_none ?_).symm
    rw [List.length_nil]
    omega

end Since

/-! ## Runs with deletions -/

/-- An upload, and how many bodies of its history were staged before a DELETE last emptied
it. -/
structure Life where
  world : World
  lost : Nat

/-- The upload without the bodies that a DELETE removed. -/
def Life.current (x : Life) : World := x.world.since x.lost

/-- A DELETE of an upload that had lost `lost` bodies stops in `w` and leaves all or nothing
of it; `n` bodies are lost then. -/
def Stops (lost : Nat) (w : World) (n : Nat) : Prop :=
  Whole (w.since lost) ∧ n = lost ∨ Gone w ∧ n = w.log.length

/-- The states that PATCHes, GETs and DELETEs reach, each of which may fail or be cut off
anywhere; but no DELETE stops where it left some of the upload. -/
inductive Lives (u : UploadObjects) (id : String) (x : Life) : Life → Prop
  | refl : Lives u id x x
  | request {y : Life} {q : Request} {r : Option Unit} {w : World} : Lives u id x y →
      Unbroken q y.current → Outcome True (q.prog u id) y.world r w → Lives u id x ⟨w, y.lost⟩
  | delete {y : Life} {r : Option (Except Error Unit)} {w : World} {n : Nat} : Lives u id x y →
      Outcome True deleteAll y.world r w → Stops y.lost w n → Lives u id x ⟨w, n⟩

/-- The invariant of such a run. -/
structure Held (base : Nat) (x : Life) : Prop where
  lost_le : x.lost ≤ x.world.log.length
  base_le : base ≤ x.lost
  remnant : Remnant base x.current

section Lives

variable {u : UploadObjects} {id : String} {base : Nat} {x y : Life}

theorem Lives.trans {z : Life} (h : Lives u id x y) (h' : Lives u id y z) : Lives u id x z := by
  induction h' with
  | refl => exact h
  | request _ hq ho ih => exact .request ih hq ho
  | delete _ ho hstop ih => exact .delete ih ho hstop

theorem Lives.extends (h : Lives u id x y) : Extends x.world y.world := by
  induction h with
  | refl => exact .refl _
  | request _ _ ho ih => exact ih.trans ho.extends
  | delete _ ho _ ih => exact ih.trans ho.extends

theorem request_remnant {w w' : World} (hw : Remnant base w)
    (hroom : base + w.log.length + 1 < 10 ^ 10) (q : Request) {r : Option Unit}
    (hq : Unbroken q w) (ho : Outcome True (q.prog u id) w r w') : Remnant base w' := by
  have hspec : SpecIn (Remnant base) True (· = w) (q.prog u id) (fun _ _ => True) := by
    cases q with
    | receive q =>
      exact Triple.bind _ (receive_remnant hw hq.1 hroom hq.2) fun _ =>
        Triple.done fun _ _ => trivial
    | download =>
      exact Triple.bind _ (download_remnant hw) fun _ => Triple.done fun _ _ => trivial
  exact (ho.spec hspec hw rfl).1

theorem Held.request (h : Held base x) (hfew : x.world.log.length + 1 < 10 ^ 10) {q : Request}
    {r : Option Unit} {w : World} (hq : Unbroken q x.current)
    (ho : Outcome True (q.prog u id) x.world r w) : Held base ⟨w, x.lost⟩ where
  lost_le := h.lost_le.trans ho.extends.log.length_le
  base_le := h.base_le
  remnant := by
    refine request_remnant h.remnant ?_ q hq (ho.since h.lost_le)
    have hlen : x.current.log.length = x.world.log.length - x.lost := List.length_drop
    have hlost := h.lost_le
    have hbase := h.base_le
    omega

theorem Held.delete (h : Held base x) {r : Option (Except Error Unit)} {w : World} {n : Nat}
    (ho : Outcome True deleteAll x.world r w) (hstop : Stops x.lost w n) :
    ∃ base', Held base' ⟨w, n⟩ := by
  have htorn : Torn x.current (w.since x.lost) :=
    ((ho.since h.lost_le).spec deleteAll_spec (Torn.refl _) rfl).1
  rcases hstop with ⟨hwhole, rfl⟩ | ⟨hgone, rfl⟩
  · exact ⟨base, h.lost_le.trans ho.extends.log.length_le, h.base_le,
      htorn.remnant_of_whole h.remnant hwhole⟩
  · refine ⟨nextPart w.handle - 1, Nat.le_refl _, ?_, ?_⟩
    · have hcursor := h.remnant.cursor_le
      have hhandle : nextPart w.handle = nextPart x.current.handle :=
        congrArg nextPart htorn.record.handle
      have hlen : x.current.log.length = x.world.log.length - x.lost := List.length_drop
      have hgrow := ho.extends.log.length_le
      have hlost := h.lost_le
      have hbase := h.base_le
      show nextPart w.handle - 1 ≤ w.log.length
      omega
    · have hremnant := htorn.remnant_of_gone h.remnant hgone
      have hsince : (w.since x.lost).since (w.since x.lost).log.length = w.since w.log.length := by
        simp only [World.since, List.drop_length]
      rw [hsince] at hremnant
      exact hremnant

theorem lives_held (h : Held base x) (hrun : Lives u id x y)
    (hfew : y.world.log.length + 1 < 10 ^ 10) : ∃ base', Held base' y := by
  induction hrun with
  | refl => exact ⟨base, h⟩
  | request _ hq ho ih =>
    have hfew₁ := (Nat.succ_le_succ ho.extends.log.length_le).trans_lt hfew
    obtain ⟨base', hy⟩ := ih hfew₁
    exact ⟨base', hy.request hfew₁ hq ho⟩
  | delete _ ho hstop ih =>
    obtain ⟨base', hy⟩ := ih ((Nat.succ_le_succ ho.extends.log.length_le).trans_lt hfew)
    exact hy.delete ho hstop

theorem Held.content_eq (h : Held base x) :
    content x.world = (x.world.log.drop x.lost).flatten :=
  h.remnant.content_eq

/-- From a moment on, an upload loses all of what it had or nothing. -/
theorem Lives.lost {n lost₀ : Nat} (hn : n ≤ x.world.log.length) (h : Lives u id x y)
    (hx : x.lost = lost₀ ∨ n ≤ x.lost) : y.lost = lost₀ ∨ n ≤ y.lost := by
  induction h with
  | refl => exact hx
  | request _ _ _ ih => exact ih
  | delete hrun ho hstop ih =>
    rcases hstop with ⟨-, rfl⟩ | ⟨-, rfl⟩
    · exact ih
    · exact .inr (hn.trans (hrun.extends.log.trans ho.extends.log).length_le)

end Lives

/-! ## The content after a DELETE -/

section Content

variable {u : UploadObjects} {id : String} {base : Nat}

theorem fresh_held {created : Option Nat} (h : ∀ l, created = some l → l ≤ u64Max) :
    Held 0 ⟨fresh created, 0⟩ :=
  ⟨Nat.le_refl 0, Nat.le_refl 0, fresh_remnant h⟩

/-- What the storage reports and returns is the content of the upload. -/
structure Exposed (u : UploadObjects) (id : String) (w : World) : Prop where
  size : ∀ stored w', Outcome True size w (some (.ok stored)) w' →
    stored.getD 0 = (content w).length
  stream : w.length = some (content w).length → content w ≠ [] →
    ∀ bytes w', Outcome True (stream u) w (some (.ok bytes)) w' → bytes = content w
  download : ∀ bytes w', Outcome True (download u id) w (some (.ok bytes)) w' → bytes = content w

theorem Held.exposed {x : Life} (h : Held base x) : Exposed u id x.world where
  size stored w' ho := by
    have hres := ((ho.since h.lost_le).spec h.remnant.size_spec h.remnant rfl).2 _ rfl
    rw [hres.2, reported_getD, h.content_eq]
    rfl
  stream hlen hne bytes w' ho := by
    rw [h.content_eq] at hlen hne ⊢
    have hc : Complete x.current := by
      refine ⟨fun hnil => hne ?_, hlen⟩
      exact congrArg List.flatten hnil
    exact ((ho.since h.lost_le).spec (stream_remnant h.remnant hc) h.remnant rfl).2 _ rfl
  download bytes w' ho := by
    rw [h.content_eq]
    exact ((ho.since h.lost_le).spec (download_remnant h.remnant) h.remnant rfl).2 _ rfl

/-- In every state of a run after a DELETE, when no DELETE of the run stops where it left
some of the upload: the content is a prefix of the content before the DELETE followed by
bodies staged after it, and it is what `size`, `stream` and a GET tell. -/
theorem content_after_delete {created : Option Nat}
    (hcreated : ∀ l, created = some l → l ≤ u64Max) {x₀ x : Life}
    {r : Option (Except Error Unit)} {w₁ : World} {n : Nat}
    (hrun₀ : Lives u id ⟨fresh created, 0⟩ x₀) (hdelete : Outcome True deleteAll x₀.world r w₁)
    (hstop : Stops x₀.lost w₁ n) (hrun : Lives u id ⟨w₁, n⟩ x)
    (hfew : x.world.log.length + 1 < 10 ^ 10) :
    (∃ kept later, kept <+: content x₀.world ∧
      later <:+ x.world.log.drop x₀.world.log.length ∧
      content x.world = kept ++ later.flatten) ∧
    Exposed u id x.world := by
  have hgrow : Extends x₀.world x.world := hdelete.extends.trans hrun.extends
  have hfew₀ := (Nat.succ_le_succ hgrow.log.length_le).trans_lt hfew
  obtain ⟨base₀, h₀⟩ := lives_held (fresh_held hcreated) hrun₀ hfew₀
  obtain ⟨base₁, h₁⟩ := h₀.delete hdelete hstop
  obtain ⟨base, h⟩ := lives_held h₁ hrun hfew
  refine ⟨?_, h.exposed⟩
  have hlost : x.lost = x₀.lost ∨ x₀.world.log.length ≤ x.lost := by
    refine Lives.lost hdelete.extends.log.length_le hrun ?_
    rcases hstop with ⟨-, rfl⟩ | ⟨-, rfl⟩
    · exact .inl rfl
    · exact .inr hdelete.extends.log.length_le
  rw [h.content_eq, h₀.content_eq]
  rcases hlost with hsame | hmore
  · -- nothing was removed since
    obtain ⟨rest, hrest⟩ := hgrow.log
    refine ⟨_, rest, List.prefix_rfl, ?_, ?_⟩
    · rw [← hrest, List.drop_left]
    · rw [hsame, ← hrest, List.drop_append_of_le_length h₀.lost_le, List.flatten_append]
  · refine ⟨[], x.world.log.drop x.lost, List.nil_prefix, ?_, rfl⟩
    rw [← Nat.add_sub_cancel' hmore, ← List.drop_drop]
    exact List.drop_suffix _ _

end Content

/-! ## A DELETE that stops among the parts -/

section Torn

variable {u : UploadObjects} {id : String} {w : World}

/-- A DELETE that stops after it removed the first part. -/
theorem deleteAll_cut (hs : Staged w) (hne : w.log ≠ []) (hfew : w.log.length < 10 ^ 10) :
    Outcome False deleteAll w none (((w.erase .complete).erase .main).erase (.part 1)) := by
  set w₁ := (w.erase .complete).erase .main
  have hspread : Spread w.log 0 w₁ := by
    refine ⟨lookup_erase_self, fun i => ?_⟩
    have hmain : w₁.objects.lookup (.part i) = (w.erase .complete).objects.lookup (.part i) :=
      lookup_erase_ne (by simp)
    rw [hmain, lookup_erase_ne (by simp)]
    exact hs.parts i
  obtain ⟨ns, hparts⟩ := partsOf_listing (lists_listing w₁.objects .parts)
  have hns : ns = List.range' 1 w.log.length := by
    refine byName_unique (hparts.perm hspread) hparts.byName ?_
    simpa using byName_range' (show 0 + w.log.length < 10 ^ 10 by omega)
  obtain ⟨b, rest, hlog⟩ := List.exists_cons_of_ne_nil hne
  rw [hlog, List.length_cons, List.range'_succ] at hns
  refine Outcome.step (o := .delete .complete) .delete ?_
  refine Outcome.step (o := .delete .main) .delete ?_
  refine Outcome.step (o := .list .parts) (.list (lists_listing w₁.objects .parts)) ?_
  simp only [Prog.done_bind, Attempt.andThen_ok]
  rw [hparts.keys, hns]
  exact Outcome.step (o := .delete (.part 1)) .delete (.cut _ _)

theorem lookup_cut_part {i : Nat} (hi : i ≠ 1) :
    (((w.erase .complete).erase .main).erase (.part 1)).objects.lookup (.part i) =
      w.objects.lookup (.part i) := by
  rw [lookup_erase_ne (by simpa using hi), lookup_erase_ne (by simp), lookup_erase_ne (by simp)]

theorem lookup_cut_main :
    (((w.erase .complete).erase .main).erase (.part 1)).objects.lookup .main = none := by
  rw [lookup_erase_ne (by simp), lookup_erase_self]

end Torn

/-- Two bytes are staged in two requests, and a DELETE stops after it removed the first of
the two parts: the upload begins with its second byte then. -/
theorem torn_delete_leaves_suffix :
    ¬∀ (u : UploadObjects) (id : String) (created : Option Nat) (w₀ w₁ : World)
      (r : Option (Except Error Unit)), u.Promotes → (∀ l, created = some l → l ≤ u64Max) →
      Run u id (fun _ _ => True) (fresh created) w₀ → Outcome True deleteAll w₀ r w₁ →
      ∃ kept later, kept <+: content w₀ ∧ later <:+ w₁.log.drop w₀.log.length ∧
        content w₁ = kept ++ later.flatten := by
  intro hclaim
  have hcreated : ∀ l, some 3 = some l → l ≤ u64Max := fun l hl => Option.some.inj hl ▸ (by decide)
  obtain ⟨w, hrun, hw, hlen, hlog⟩ := zeros_run fsObjects "upload" fsObjects_promotes
    (L := 3) (by decide) 1 (by decide)
  obtain ⟨w₀, ho, hw₀, hlog₀, hlen₀, -⟩ := nextByte_known fsObjects "upload" fsObjects_promotes hw
    hlen (by rw [hlog]; decide) (by rw [hlog]; decide) 1
  rw [hlog] at hlog₀
  have hs : Staged w₀ := by
    rcases hw₀.shape with hs | hp
    · exact hs
    · have hfull := hp.full 3 hlen₀
      rw [hlog₀] at hfull
      cases hfull
  have hfew : w₀.log.length < 10 ^ 10 := by rw [hlog₀]; decide
  have hcut := deleteAll_cut hs (by rw [hlog₀]; decide) hfew
  obtain ⟨kept, later, hkept, hlater, hcontent⟩ := hclaim fsObjects "upload" (some 3) w₀ _ none
    fsObjects_promotes hcreated (.tail hrun trivial ho.mono) hcut.mono
  set w₁ := ((w₀.erase .complete).erase .main).erase (.part 1)
  rw [content_eq hw₀ hfew, hlog₀] at hkept
  have hspread : Spread [[1]] 1 w₁ := by
    refine ⟨lookup_cut_main, fun i => ?_⟩
    by_cases hi : i = 1
    · rw [hi]
      exact lookup_erase_self
    · refine (lookup_cut_part hi).trans ?_
      rw [hs.parts, hlog₀]
      rcases i with _ | _ | i
      · rfl
      · exact absurd rfl hi
      · rfl
  have hrest : content w₁ = [1] := by
    unfold content
    rw [hspread.main, hspread.numbers]
    exact hspread.flatMap_parts
  -- nothing was staged since, so the rest would have to be a prefix of the two bytes
  have hnone : later = [] := by
    have hlog₁ : w₁.log.drop w₀.log.length = [] := List.drop_length
    rw [hlog₁] at hlater
    exact List.eq_nil_of_suffix_nil hlater
  rw [hrest, hnone] at hcontent
  rw [List.flatten_nil, List.append_nil] at hcontent
  rw [← hcontent] at hkept
  exact absurd hkept (by decide)

/-- One byte is staged, and a DELETE stops after it removed the part. -/
theorem content_after_delete_of_one_byte :
    ∃ x₀ w₁ n, Lives fsObjects "upload" ⟨fresh none, 0⟩ x₀ ∧ content x₀.world = [1] ∧
      Outcome True deleteAll x₀.world none w₁ ∧ Stops x₀.lost w₁ n ∧
      (∃ kept later, kept <+: content x₀.world ∧
        later <:+ w₁.log.drop x₀.world.log.length ∧ content w₁ = kept ++ later.flatten) ∧
      Exposed fsObjects "upload" w₁ := by
  obtain ⟨w, ho, hw, hs, hlog, hlen, -⟩ :=
    first_byte_run fsObjects "upload" fsObjects_promotes 1
  have hrun : Lives fsObjects "upload" ⟨fresh none, 0⟩ ⟨w, 0⟩ :=
    .request .refl (first_byte_unbroken 1) ho.mono
  have hfew : w.log.length < 10 ^ 10 := by rw [hlog]; decide
  have hcontent : content w = [1] := by
    rw [content_eq hw hfew, hlog]
    rfl
  have hcut := deleteAll_cut hs (by rw [hlog]; decide) hfew
  have hgone : Gone (((w.erase .complete).erase .main).erase (.part 1)) := by
    refine ⟨lookup_cut_main, List.eq_nil_iff_forall_not_mem.mpr fun i hi => ?_⟩
    obtain ⟨b, hb⟩ := mem_partNumbers.mp hi
    by_cases hone : i = 1
    · rw [hone, lookup_erase_self] at hb
      cases hb
    · rw [lookup_cut_part hone, hs.parts, hlog] at hb
      rcases i with _ | _ | i
      · cases hb
      · exact hone rfl
      · cases hb
  have hunknown : ∀ l, none = some l → l ≤ u64Max := by simp
  refine ⟨⟨w, 0⟩, _, _, hrun, hcontent, hcut.mono, .inr ⟨hgone, rfl⟩, ?_⟩
  exact content_after_delete hunknown hrun hcut.mono (.inr ⟨hgone, rfl⟩) .refl
    (by show w.log.length + 1 < 10 ^ 10; rw [hlog]; decide)

end Opendal

end TusRs
