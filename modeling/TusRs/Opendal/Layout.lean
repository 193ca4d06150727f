import Mathlib.Data.List.Sort
import Mathlib.Algebra.BigOperators.Group.List.Basic
import Mathlib.Algebra.Order.BigOperators.Group.List
import Mathlib.Algebra.Order.Group.Nat
import TusRs.Opendal.Staging

/-!
# The layout of the objects of an upload

Between any two object operations the objects of an upload are in one of two shapes: the
staged bodies are the parts `1, …, n`, or the main object holds them and some of the parts
are already gone. Everything the backend reads off the objects is a function of the
history of staged bodies.

Results:

* `material_eq`: below `10 ^ 10` parts, materialisation keeps the order of staging.
* `listParts_spec`, `storedSize_spec`, `appendPosition_spec`: what is read off a layout.
-/

namespace TusRs

open Interaction

namespace Opendal

/-- The body staged as part `i`. -/
def body (log : List Bytes) : Nat → Option Bytes
  | 0 => none
  | i + 1 => log[i]?

/-- The order in which `finalize` copies the parts `1, …, n`: by name. -/
def materialOrder (n : Nat) : List Nat :=
  (List.range' 1 n).mergeSort fun a b => decide ((Key.part a).name ≤ (Key.part b).name)

/-- What `finalize` makes of the staged bodies. -/
def material (log : List Bytes) : Bytes :=
  (materialOrder log.length).flatMap fun i => (body log i).getD []

/-- The bytes staged so far. -/
def total (log : List Bytes) : Nat := log.flatten.length

/-- The upload is staged: its parts are the bodies of the log, the cursor of the persisted
handle is not ahead of them, and a completed upload carries its marker. -/
structure Staged (w : World) : Prop where
  main : w.objects.lookup .main = none
  parts : ∀ i, w.objects.lookup (.part i) = body w.log i
  cursor_pos : 1 ≤ nextPart w.handle
  cursor_le : nextPart w.handle ≤ w.log.length + 1
  counted : nextPart w.handle = w.log.length + 1 →
    ∀ n, stagedSizeFact w.handle = some n → n = total w.log
  marker : w.length = some (total w.log) → w.log ≠ [] →
    w.objects.lookup .complete = some (markerBytes w.log.length)

/-- The upload was materialised; what is left of its parts is still as staged. -/
structure Promoted (w : World) : Prop where
  main : w.objects.lookup .main = some (material w.log)
  parts : ∀ i b, w.objects.lookup (.part i) = some b → body w.log i = some b
  nonempty : w.log ≠ []
  full : ∀ l, w.length = some l → l = total w.log

/-- The invariant of every moment of every request. -/
structure Layout (w : World) : Prop where
  count : w.log.length ≤ u64Max
  fits : total w.log ≤ u64Max
  bounded : ∀ l, w.length = some l → total w.log ≤ l
  length_fits : ∀ l, w.length = some l → l ≤ u64Max
  known : ∀ l, w.created = some l → w.length = some l
  shape : Staged w ∨ Promoted w

/-! ## Facts about bodies and names -/

section Bodies

variable {log : List Bytes}

theorem body_eq_none {i : Nat} (h : i = 0 ∨ log.length < i) : body log i = none := by
  cases i with
  | zero => rfl
  | succ i =>
    simp only [body, List.getElem?_eq_none_iff]
    omega

theorem body_isSome {i : Nat} : (∃ b, body log i = some b) ↔ 1 ≤ i ∧ i ≤ log.length := by
  cases i with
  | zero => simp [body]
  | succ i =>
    simp only [body, ← Option.isSome_iff_exists, isSome_getElem?]
    omega

theorem body_append (b : Bytes) (i : Nat) :
    body (log ++ [b]) i = if i = log.length + 1 then some b else body log i := by
  cases i with
  | zero => simp [body]
  | succ i =>
    simp only [body, Nat.add_right_cancel_iff]
    split
    · next h => simp [h]
    · next h =>
      rcases Nat.lt_or_gt_of_ne h with hlt | hgt
      · rw [List.getElem?_append_left hlt]
      · rw [List.getElem?_eq_none (by simp; omega), List.getElem?_eq_none (by omega)]

theorem map_body_from (base : Nat) (log : List Bytes) :
    (List.range' (base + 1) log.length).map (fun i => (body log (i - base)).getD []) = log := by
  refine List.ext_getElem (by simp) fun i h₁ h₂ => ?_
  have hsub : base + 1 + i - base = i + 1 := by omega
  simp [hsub, body, h₂]

theorem map_body (log : List Bytes) :
    (List.range' 1 log.length).map (fun i => (body log i).getD []) = log := by
  simpa using map_body_from 0 log

theorem total_append (b : Bytes) : total (log ++ [b]) = total log + b.length := by
  simp [total]

/-- Names tell part numbers apart. -/
theorem part_name_inj {a b : Nat} (h : (Key.part a).name = (Key.part b).name) : a = b := by
  have hpad : padded a = padded b := List.append_cancel_left h
  rw [← padded_value a, hpad, padded_value]

/-- Numbers in the order of their names. -/
abbrev ByName (ns : List Nat) : Prop :=
  ns.Pairwise fun a b => (Key.part a).name ≤ (Key.part b).name

theorem byName_unique {ns ms : List Nat} (h : ns.Perm ms) (hn : ByName ns) (hm : ByName ms) :
    ns = ms :=
  h.eq_of_pairwise (fun _ _ _ _ hab hba => part_name_inj (le_antisymm hab hba)) hn hm

/-- Sorting by name puts names in order. -/
theorem pairwise_sortByName {α : Type} (name : α → List Char) (l : List α) :
    (l.mergeSort fun a b => decide (name a ≤ name b)).Pairwise fun a b => name a ≤ name b := by
  refine List.Pairwise.imp (R := fun a b => decide (name a ≤ name b) = true)
    (fun hab => of_decide_eq_true hab) (List.pairwise_mergeSort ?_ ?_ l)
  · intro a b c hab hbc
    rw [decide_eq_true_eq] at *
    exact le_trans hab hbc
  · intro a b
    rw [Bool.or_eq_true, decide_eq_true_eq, decide_eq_true_eq]
    exact le_total _ _

theorem materialOrder_byName (n : Nat) : ByName (materialOrder n) :=
  pairwise_sortByName (fun a => (Key.part a).name) _

theorem materialOrder_perm (n : Nat) : (materialOrder n).Perm (List.range' 1 n) :=
  List.mergeSort_perm _ _

theorem byName_range' {base n : Nat} (h : base + n < 10 ^ 10) :
    ByName (List.range' (base + 1) n) := by
  have hlt : (List.range' (base + 1) n).Pairwise (· < ·) := List.pairwise_lt_range'
  refine hlt.imp_of_mem fun ha hb hab => ?_
  have hb' := (List.mem_range'_1.mp hb).2
  exact le_of_lt (part_name_lt hab (by omega))

/-- Below `10 ^ 10` parts the order of names is the order of staging. -/
theorem materialOrder_eq {n : Nat} (h : n < 10 ^ 10) : materialOrder n = List.range' 1 n := by
  refine byName_unique (materialOrder_perm n) (materialOrder_byName n) ?_
  simpa using byName_range' (show 0 + n < 10 ^ 10 by omega)

theorem material_eq (h : log.length < 10 ^ 10) : material log = log.flatten := by
  rw [material, materialOrder_eq h, List.flatMap_def, map_body]

theorem material_length : (material log).length = total log := by
  have hperm := (materialOrder_perm log.length).flatMap_right fun i => (body log i).getD []
  rw [material, hperm.length_eq, List.flatMap_def, map_body, total]

end Bodies

/-! ## Reading the layout -/

section Reading

variable {faults : Prop} {I : World → Prop} {α : Type} {w : World}

abbrev Spec (faults : Prop) (P : World → Prop) (p : Prog StoreSig α)
    (Q : α → World → Prop) : Prop :=
  Triple (store faults) Layout Alone 0 P p Q

/-- As `Spec`, with an invariant of its own. -/
abbrev SpecIn (I : World → Prop) (faults : Prop) (P : World → Prop) (p : Prog StoreSig α)
    (Q : α → World → Prop) : Prop :=
  Triple (store faults) I Alone 0 P p Q

/-- One operation from the world `w`. -/
theorem op_spec {o : StoreOp} {k : StoreSig.Ans o → Prog StoreSig α} {Q : α → World → Prop}
    (P' : StoreSig.Ans o → World → Prop)
    (h : ∀ a w', I w → StoreExec faults o w a w' → I w' ∧ P' a w')
    (hk : ∀ a, SpecIn I faults (P' a) (k a) Q) : SpecIn I faults (· = w) (.step o k) Q := by
  refine Triple.step P' (stable_alone _) ?_ hk
  rintro _ a w' hi rfl he
  exact ⟨safe_alone (h a w' hi he).1, (h a w' hi he).2⟩

/-- An operation that only reads `w`; `R` is what its answer says. -/
theorem read_spec {o : StoreOp} {k : StoreSig.Ans o → Prog StoreSig α} {Q : α → World → Prop}
    (R : StoreSig.Ans o → Prop) (h : ∀ a w', StoreExec faults o w a w' → w' = w ∧ R a)
    (hk : ∀ a, R a → SpecIn I faults (· = w) (k a) Q) : SpecIn I faults (· = w) (.step o k) Q := by
  refine op_spec (fun a w' => w' = w ∧ R a) ?_ fun a s hs => hk a hs.2 s hs.1
  intro a w' hi he
  obtain ⟨rfl, ha⟩ := h a w' he
  exact ⟨hi, rfl, ha⟩

theorem stat_spec {key : Key} {k : Except ObjError Nat → Prog StoreSig α} {Q : α → World → Prop}
    (hfound : ∀ b, w.objects.lookup key = some b → SpecIn I faults (· = w) (k (.ok b.length)) Q)
    (hmissing : w.objects.lookup key = none → SpecIn I faults (· = w) (k (.error .notFound)) Q)
    (hfail : ∀ m, faults → SpecIn I faults (· = w) (k (.error (.other m))) Q) :
    SpecIn I faults (· = w) (.step (.stat key) k) Q := by
  refine read_spec (fun a => (∃ b, w.objects.lookup key = some b ∧ a = .ok b.length) ∨
    (w.objects.lookup key = none ∧ a = .error .notFound) ∨
    faults ∧ ∃ m, a = .error (.other m)) ?_ ?_
  · intro a w' he
    cases he with
    | stat hb => exact ⟨rfl, .inl ⟨_, hb, rfl⟩⟩
    | statMissing hn => exact ⟨rfl, .inr (.inl ⟨hn, rfl⟩)⟩
    | statFailed hf => exact ⟨rfl, .inr (.inr ⟨hf, _, rfl⟩)⟩
  · rintro a (⟨b, hb, rfl⟩ | ⟨hn, rfl⟩ | ⟨hf, m, rfl⟩)
    · exact hfound b hb
    · exact hmissing hn
    · exact hfail m hf

theorem readObject_spec {key : Key} {k : Except ObjError Bytes → Prog StoreSig α}
    {Q : α → World → Prop}
    (hfound : ∀ b, w.objects.lookup key = some b → SpecIn I faults (· = w) (k (.ok b)) Q)
    (hmissing : w.objects.lookup key = none → SpecIn I faults (· = w) (k (.error .notFound)) Q)
    (hfail : ∀ m, faults → SpecIn I faults (· = w) (k (.error (.other m))) Q) :
    SpecIn I faults (· = w) (.step (.read key) k) Q := by
  refine read_spec (fun a => (∃ b, w.objects.lookup key = some b ∧ a = .ok b) ∨
    (w.objects.lookup key = none ∧ a = .error .notFound) ∨
    faults ∧ ∃ m, a = .error (.other m)) ?_ ?_
  · intro a w' he
    cases he with
    | read hb => exact ⟨rfl, .inl ⟨_, hb, rfl⟩⟩
    | readMissing hn => exact ⟨rfl, .inr (.inl ⟨hn, rfl⟩)⟩
    | readFailed hf => exact ⟨rfl, .inr (.inr ⟨hf, _, rfl⟩)⟩
  · rintro a (⟨b, hb, rfl⟩ | ⟨hn, rfl⟩ | ⟨hf, m, rfl⟩)
    · exact hfound b hb
    · exact hmissing hn
    · exact hfail m hf

/-- The result of a program that only reads `w`: on success `φ`, an error only with
faults. -/
def Reads (faults : Prop) (w : World) (φ : α → Prop) : Except Error α → World → Prop
  | .ok a, w' => w' = w ∧ φ a
  | .error _, w' => w' = w ∧ faults

theorem reads_done {φ : α → Prop} {a : α} (h : φ a) :
    SpecIn I faults (· = w) (.done (.ok a)) (Reads faults w φ) :=
  Triple.done fun _ hw => ⟨hw, h⟩

theorem reads_error {φ : α → Prop} {e : Error} (hf : faults) :
    SpecIn I faults (· = w) (.done (.error e)) (Reads faults w φ) :=
  Triple.done fun _ hw => ⟨hw, hf⟩

/-- Go on after a reading program. -/
theorem reads_bind {β : Type} {p : StoreM α} {f : Except Error α → Prog StoreSig β}
    {φ : α → Prop} {Q : β → World → Prop}
    (hp : SpecIn I faults (· = w) p (Reads faults w φ))
    (hok : ∀ a, φ a → SpecIn I faults (· = w) (f (.ok a)) Q)
    (herr : ∀ e, faults → SpecIn I faults (· = w) (f (.error e)) Q) :
    SpecIn I faults (· = w) (Prog.bind p f) Q := by
  refine Triple.bind _ hp fun r => ?_
  cases r with
  | ok a => exact fun s hs => hok a hs.2 s hs.1
  | error e => exact fun s hs => herr e hs.2 s hs.1

/-- The bytes at a key. -/
def bytesAt (w : World) (k : Key) : Bytes := (w.objects.lookup k).getD []

/-- What a listing of the parts tells: their numbers by name, and sizes that are right
where they are given. -/
structure PartsOf (w : World) (ns : List Nat) (parts : List PartObject) : Prop where
  keys : parts.map PartObject.key = ns.map Key.part
  byName : ByName ns
  nodup : ns.Nodup
  mem : ∀ i, i ∈ ns ↔ ∃ b, w.objects.lookup (.part i) = some b
  sizes : ∀ p ∈ parts, ∀ n, p.size = some n → n = (bytesAt w p.key).length

theorem partsOf_listing {entries : List Entry} (h : Lists w.objects .parts entries) :
    ∃ ns, PartsOf w ns
      (sortByName ((entries.filter Entry.isFile).map PartObject.ofEntry)) := by
  have hkey : ∀ e ∈ entries.filter Entry.isFile, ∃ i b, e.key = .part i ∧
      w.objects.lookup (.part i) = some b ∧
      (e.contentLength = b.length ∨ e.contentLength = 0) := by
    intro e he
    obtain ⟨hmem, hfile⟩ := List.mem_filter.mp he
    obtain ⟨hpre, b, hb, hlen⟩ := h.sound e hmem hfile
    cases hk : e.key with
    | part i => exact ⟨i, b, rfl, hk ▸ hb, hlen⟩
    | main | complete | temp _ _ => rw [hk] at hpre; exact hpre.elim
  set raw := (entries.filter Entry.isFile).map PartObject.ofEntry with hraw
  have hperm : (sortByName raw).Perm raw := List.mergeSort_perm _ _
  have hpart : ∀ p ∈ sortByName raw, ∃ i b, p.key = .part i ∧
      w.objects.lookup (.part i) = some b ∧ ∀ n, p.size = some n → n = b.length := by
    intro p hp
    obtain ⟨e, he, rfl⟩ := List.mem_map.mp (hperm.mem_iff.mp hp)
    obtain ⟨i, b, hk, hb, hlen⟩ := hkey e he
    refine ⟨i, b, hk, hb, fun n hn => ?_⟩
    simp only [PartObject.ofEntry] at hn
    split at hn
    · cases hn
    · rcases hlen with hlen | hlen
      · exact (Option.some.inj hn).symm.trans hlen
      · contradiction
  refine ⟨(sortByName raw).filterMap fun p => partNumber p.key, ?_⟩
  set ns := (sortByName raw).filterMap fun p => partNumber p.key with hns
  have hkeys : (sortByName raw).map PartObject.key = ns.map Key.part := by
    rw [hns]
    clear hns hperm
    generalize sortByName raw = parts at hpart
    clear ns
    induction parts with
    | nil => rfl
    | cons p ps ih =>
      obtain ⟨i, b, hk, -⟩ := hpart p List.mem_cons_self
      have ih := ih fun q hq => hpart q (List.mem_cons_of_mem p hq)
      simp [hk, partNumber, ih]
  have hnodup : (ns.map Key.part).Nodup := by
    rw [← hkeys, (hperm.map PartObject.key).nodup_iff, hraw, List.map_map]
    exact h.nodup
  refine ⟨hkeys, ?_, hnodup.of_map _, fun i => ?_, fun p hp n hn => ?_⟩
  · have hmap : ((sortByName raw).map PartObject.key).Pairwise (fun a b => a.name ≤ b.name) := by
      rw [List.pairwise_map]
      exact pairwise_sortByName (fun p => p.key.name) raw
    rw [hkeys, List.pairwise_map] at hmap
    exact hmap
  · constructor
    · intro hi
      obtain ⟨p, hp, hk⟩ : ∃ p ∈ sortByName raw, p.key = .part i := by
        have : Key.part i ∈ (sortByName raw).map PartObject.key := by
          rw [hkeys]
          exact List.mem_map_of_mem hi
        exact List.mem_map.mp this
      obtain ⟨j, b, hk', hb, -⟩ := hpart p hp
      rw [hk'] at hk
      cases hk
      exact ⟨b, hb⟩
    · rintro ⟨b, hb⟩
      obtain ⟨e, he, hfile, hk⟩ := h.complete (.part i) b trivial hb
      have hmem : Key.part i ∈ ns.map Key.part := by
        rw [← hkeys, (hperm.map PartObject.key).mem_iff, hraw, List.map_map]
        exact List.mem_map.mpr ⟨e, List.mem_filter.mpr ⟨he, hfile⟩, hk⟩
      obtain ⟨j, hj, hji⟩ := List.mem_map.mp hmem
      cases hji
      exact hj
  · obtain ⟨i, b, hk, hb, hsize⟩ := hpart p hp
    rw [hsize n hn, bytesAt, hk, hb]
    rfl

theorem listParts_spec :
    SpecIn I faults (· = w) listParts (Reads faults w fun parts => ∃ ns, PartsOf w ns parts) := by
  refine read_spec (fun a => (∃ es, Lists w.objects .parts es ∧ a = .ok es) ∨
    ((∀ i, w.objects.lookup (.part i) = none) ∧ a = .error .notFound) ∨
    faults ∧ ∃ m, a = .error (.other m)) ?_ ?_
  · intro a w' he
    cases he with
    | list hl => exact ⟨rfl, .inl ⟨_, hl, rfl⟩⟩
    | listMissing hn => exact ⟨rfl, .inr (.inl ⟨fun i => hn (.part i) trivial, rfl⟩)⟩
    | listFailed hf => exact ⟨rfl, .inr (.inr ⟨hf, _, rfl⟩)⟩
  · rintro a (⟨es, hl, rfl⟩ | ⟨hn, rfl⟩ | ⟨hf, m, rfl⟩)
    · exact reads_done (partsOf_listing hl)
    · exact reads_done
        ⟨[], rfl, List.Pairwise.nil, List.nodup_nil, by simp [hn], fun p hp => nomatch hp⟩
    · exact reads_error hf

/-- The number of bytes of the listed parts. -/
def listedBytes (w : World) (parts : List PartObject) : Nat :=
  (parts.map fun p => (bytesAt w p.key).length).sum

theorem satAdd_min (a b : Nat) : satAdd (min a u64Max) b = min (a + b) u64Max := by
  simp only [satAdd]
  omega

theorem sumPartSizes_spec (n : Nat) (parts : List PartObject)
    (hsize : ∀ p ∈ parts, ∀ m, p.size = some m → m = (bytesAt w p.key).length)
    (hfound : ∀ p ∈ parts, ∃ b, w.objects.lookup p.key = some b) :
    SpecIn I faults (· = w) (sumPartSizes (min n u64Max) parts)
      (Reads faults w fun m => m = min (n + listedBytes w parts) u64Max) := by
  induction parts generalizing n with
  | nil => exact reads_done (by simp [listedBytes])
  | cons p ps ih =>
    have hrest := fun m => ih m (fun q hq => hsize q (List.mem_cons_of_mem p hq))
      fun q hq => hfound q (List.mem_cons_of_mem p hq)
    have hsum : n + listedBytes w (p :: ps) =
        n + (bytesAt w p.key).length + listedBytes w ps := by
      simp [listedBytes, Nat.add_assoc]
    unfold sumPartSizes
    cases hp : p.size with
    | some m =>
      dsimp only
      rw [satAdd_min, hsize p List.mem_cons_self m hp, hsum]
      exact hrest _
    | none =>
      refine stat_spec (fun b hb => ?_) (fun hn => ?_) fun m hf => ?_
      · have hlen : b.length = (bytesAt w p.key).length := by rw [bytesAt, hb]; rfl
        dsimp only
        rw [satAdd_min, hlen, hsum]
        exact hrest _
      · obtain ⟨b, hb⟩ := hfound p List.mem_cons_self
        rw [hn] at hb
        cases hb
      · exact reads_error hf

/-- The bodies of `log` are the parts `base + 1, base + 2, …`. -/
structure Spread (log : List Bytes) (base : Nat) (w : World) : Prop where
  main : w.objects.lookup .main = none
  parts : ∀ i, w.objects.lookup (.part i) = body log (i - base)

/-- The main object holds `log`, and what is left of its parts is still as staged. -/
structure Gathered (log : List Bytes) (base : Nat) (w : World) : Prop where
  main : ∃ bytes, w.objects.lookup .main = some bytes ∧ bytes.length = total log
  parts : ∀ i b, w.objects.lookup (.part i) = some b → body log (i - base) = some b
  nonempty : log ≠ []

theorem Staged.spread (hs : Staged w) : Spread w.log 0 w := ⟨hs.main, hs.parts⟩

theorem Promoted.gathered (hp : Promoted w) : Gathered w.log 0 w :=
  ⟨⟨_, hp.main, material_length⟩, hp.parts, hp.nonempty⟩

section Shapes

variable {log : List Bytes} {base : Nat}

theorem body_sub_isSome {i : Nat} :
    (∃ b, body log (i - base) = some b) ↔ i ∈ List.range' (base + 1) log.length := by
  rw [body_isSome, List.mem_range'_1]
  omega

/-- What is left of the parts of a materialised upload is not more than the upload. -/
theorem Gathered.leftover_le (hp : Gathered log base w) {ns : List Nat} (hnodup : ns.Nodup)
    (hfound : ∀ i ∈ ns, ∃ b, w.objects.lookup (.part i) = some b) :
    (ns.map fun i => (bytesAt w (.part i)).length).sum ≤ total log := by
  obtain ⟨kept, hperm, hsub⟩ : ns.Subperm (List.range' (base + 1) log.length) := by
    refine List.subperm_of_subset hnodup fun i hi => ?_
    obtain ⟨b, hb⟩ := hfound i hi
    exact body_sub_isSome.mp ⟨b, hp.parts i b hb⟩
  have hbytes : ∀ i ∈ ns,
      (bytesAt w (.part i)).length = ((body log (i - base)).getD []).length := by
    intro i hi
    obtain ⟨b, hb⟩ := hfound i hi
    rw [bytesAt, hb, hp.parts i b hb]
  rw [List.map_congr_left hbytes]
  calc (ns.map fun i => ((body log (i - base)).getD []).length).sum
      = (kept.map fun i => ((body log (i - base)).getD []).length).sum :=
        (hperm.map _).sum_eq.symm
    _ ≤ ((List.range' (base + 1) log.length).map fun i =>
          ((body log (i - base)).getD []).length).sum :=
        (hsub.map _).sum_le_sum fun _ _ => Nat.zero_le _
    _ = (((List.range' (base + 1) log.length).map fun i =>
          (body log (i - base)).getD []).map List.length).sum := by
        rw [List.map_map]
        rfl
    _ = total log := by rw [map_body_from, total, List.length_flatten]

end Shapes

namespace PartsOf

variable {ns : List Nat} {parts : List PartObject}

theorem found (h : PartsOf w ns parts) : ∀ p ∈ parts, ∃ b, w.objects.lookup p.key = some b := by
  intro p hp
  have hmem : p.key ∈ ns.map Key.part := h.keys ▸ List.mem_map_of_mem hp
  obtain ⟨i, hi, hk⟩ := List.mem_map.mp hmem
  rw [← hk]
  exact (h.mem i).mp hi

theorem listedBytes_eq (h : PartsOf w ns parts) :
    listedBytes w parts = (ns.map fun i => (bytesAt w (.part i)).length).sum := by
  have hmap : parts.map (fun p => (bytesAt w p.key).length) =
      (parts.map PartObject.key).map fun k => (bytesAt w k).length := by
    rw [List.map_map]
    rfl
  rw [listedBytes, hmap, h.keys, List.map_map]
  rfl

/-- The listed numbers of an upload in parts. -/
theorem perm {log : List Bytes} {base : Nat} (h : PartsOf w ns parts) (hs : Spread log base w) :
    ns.Perm (List.range' (base + 1) log.length) := by
  refine (List.perm_ext_iff_of_nodup h.nodup List.nodup_range').mpr fun i => ?_
  rw [h.mem i, hs.parts i, body_sub_isSome]

/-- The listed numbers of a staged upload are the parts in the order of their names. -/
theorem order (h : PartsOf w ns parts) (hs : Staged w) : ns = materialOrder w.log.length := by
  refine byName_unique ?_ h.byName (materialOrder_byName _)
  simpa using (h.perm hs.spread).trans (materialOrder_perm _).symm

theorem sum_spread {log : List Bytes} {base : Nat} (h : PartsOf w ns parts)
    (hs : Spread log base w) : listedBytes w parts = total log := by
  have hbytes : ∀ i, bytesAt w (.part i) = (body log (i - base)).getD [] := fun i => by
    rw [bytesAt, hs.parts i]
  rw [h.listedBytes_eq, ((h.perm hs).map _).sum_eq]
  calc ((List.range' (base + 1) log.length).map fun i => (bytesAt w (.part i)).length).sum
      = (((List.range' (base + 1) log.length).map fun i =>
          (body log (i - base)).getD []).map List.length).sum := by
        simp only [hbytes, List.map_map]
        rfl
    _ = total log := by rw [map_body_from, total, List.length_flatten]

theorem sum_gathered {log : List Bytes} {base : Nat} (h : PartsOf w ns parts)
    (hp : Gathered log base w) : listedBytes w parts ≤ total log := by
  rw [h.listedBytes_eq]
  exact hp.leftover_le h.nodup fun i hi => (h.mem i).mp hi

end PartsOf

/-- What `size` reports. -/
def reported (log : List Bytes) : Option Nat := if log = [] then none else some (total log)

theorem reported_getD (log : List Bytes) : (reported log).getD 0 = total log := by
  unfold reported
  split
  · next h => simp [h, total]
  · rfl

theorem materialOrder_eq_nil {n : Nat} : materialOrder n = [] ↔ n = 0 := by
  rw [← List.length_eq_zero_iff, (materialOrder_perm n).length_eq, List.length_range']

section Sizes

variable {log : List Bytes} {base : Nat}

/-- `stagedSize` on either shape; `none` when no part is listed. -/
theorem stagedSize_spec (hfits : total log ≤ u64Max)
    (hshape : Spread log base w ∨ Gathered log base w) :
    SpecIn I faults (· = w) stagedSize (Reads faults w fun n =>
      (Spread log base w → n = reported log) ∧ ∀ m, n = some m → m ≤ total log) := by
  refine reads_bind listParts_spec (fun parts hlisted => ?_) fun _ hf => reads_error hf
  obtain ⟨ns, hparts⟩ := hlisted
  have hcount : Spread log base w → (parts = [] ↔ log = []) := by
    intro hst
    have hlen : parts.length = log.length := by
      simpa [(hparts.perm hst).length_eq] using congrArg List.length hparts.keys
    rw [← List.length_eq_zero_iff, hlen, List.length_eq_zero_iff]
  have hle : listedBytes w parts ≤ total log := by
    rcases hshape with hst | hpr
    · exact (hparts.sum_spread hst).le
    · exact hparts.sum_gathered hpr
  refine Triple.ite (fun hemp => ?_) fun hne => ?_
  · refine reads_done ⟨fun hst => ?_, nofun⟩
    rw [reported, if_pos ((hcount hst).mp (List.isEmpty_iff.mp hemp))]
  · refine reads_bind (sumPartSizes_spec 0 parts hparts.sizes hparts.found) (fun n hn => ?_)
      fun _ hf => reads_error hf
    rw [Nat.zero_add] at hn
    refine reads_done ⟨fun hst => ?_, ?_⟩
    · have hlog : log ≠ [] := fun h => hne (List.isEmpty_iff.mpr ((hcount hst).mpr h))
      rw [reported, if_neg hlog, hn, hparts.sum_spread hst, Nat.min_eq_left hfits]
    · rintro m ⟨⟩
      rw [hn]
      exact (Nat.min_le_left _ _).trans hle

/-- `size` reports the staged bytes, in both shapes. -/
theorem storedSize_reads (hfits : total log ≤ u64Max)
    (hshape : Spread log base w ∨ Gathered log base w) :
    SpecIn I faults (· = w) storedSize (Reads faults w fun n => n = reported log) := by
  refine reads_bind (stagedSize_spec hfits hshape) (fun staged hstaged => ?_)
    fun _ hf => reads_error hf
  obtain ⟨hst, hle⟩ := hstaged
  refine stat_spec (fun b hb => ?_) (fun hn => ?_) fun m hf => reads_error hf
  · -- the main object exists only after promotion, and holds every staged byte
    have hpr : Gathered log base w := by
      rcases hshape with h | h
      · rw [h.main] at hb
        cases hb
      · exact h
    obtain ⟨bytes, hbytes, hlen⟩ := hpr.main
    obtain rfl := Option.some.inj (hb.symm.trans hbytes)
    refine reads_done ?_
    rw [reported, if_neg hpr.nonempty, hlen]
    cases staged with
    | none => rfl
    | some n => exact congrArg some (Nat.max_eq_right (hle n rfl))
  · refine reads_done (hst ?_)
    rcases hshape with h | h
    · exact h
    · obtain ⟨bytes, hbytes, -⟩ := h.main
      rw [hbytes] at hn
      cases hn

end Sizes

theorem Layout.shapes (hw : Layout w) : Spread w.log 0 w ∨ Gathered w.log 0 w :=
  hw.shape.imp Staged.spread Promoted.gathered

theorem storedSize_spec (hw : Layout w) :
    Spec faults (· = w) storedSize (Reads faults w fun n => n = reported w.log) :=
  storedSize_reads hw.fits hw.shapes

section Position

variable {log : List Bytes} {base : Nat}

theorem foldl_max_perm {l m : List Nat} (h : l.Perm m) : l.foldl max 0 = m.foldl max 0 :=
  h.foldl_eq 0

theorem foldl_max_range' (base n : Nat) :
    (List.range' (base + 1) n).foldl max 0 = if n = 0 then 0 else base + n := by
  induction n with
  | zero => rfl
  | succ n ih =>
    rw [List.range'_concat, List.foldl_append, ih]
    simp
    split <;> omega

/-- The part numbers of a listing, as the code extracts them. -/
theorem PartsOf.numbers {ns : List Nat} {parts : List PartObject} (h : PartsOf w ns parts) :
    (parts.filterMap fun p => partNumber p.key) = ns := by
  have hmap : (parts.filterMap fun p => partNumber p.key) =
      (parts.map PartObject.key).filterMap partNumber := by
    rw [List.filterMap_map]
    rfl
  rw [hmap, h.keys, List.filterMap_map]
  exact List.filterMap_some

/-- The next part and the offset of an upload in parts. -/
def positionAfter (log : List Bytes) (base : Nat) : AppendPosition :=
  ⟨base + log.length + 1, total log, total log⟩

theorem recoveredPosition_spec (hfits : total log ≤ u64Max) (hs : Spread log base w)
    (hcount : base + log.length < u64Max) {candidate : Nat} (hlt : base < candidate)
    (hc : candidate ≤ base + log.length + 1) :
    SpecIn I faults (· = w) (recoveredPosition candidate)
      (Reads faults w fun p => p = positionAfter log base) := by
  refine reads_bind listParts_spec (fun parts hlisted => ?_) fun _ hf => reads_error hf
  obtain ⟨ns, hparts⟩ := hlisted
  refine reads_bind (sumPartSizes_spec 0 parts hparts.sizes hparts.found)
    (fun staged hsum => ?_) fun _ hf => reads_error hf
  have hnext : max candidate (satAdd ((parts.filterMap fun p => partNumber p.key).foldl max 0) 1) =
      base + log.length + 1 := by
    rw [hparts.numbers, foldl_max_perm (hparts.perm hs), foldl_max_range']
    split
    · rw [satAdd_eq (by decide)]
      omega
    · rw [satAdd_eq (by omega)]
      omega
  have hstaged : staged = total log := by
    rw [hsum, hparts.sum_spread hs, Nat.zero_add, Nat.min_eq_left hfits]
  refine stat_spec (fun b hb => ?_) (fun hn => ?_) fun m hf => reads_error hf
  · rw [hs.main] at hb
    cases hb
  · refine reads_done ?_
    rw [hnext, hstaged]
    rfl

/-- Whatever the cursor of the handle is, the next body becomes the part after the last
one; its offset is right when the handle counted right. -/
theorem appendPosition_reads (hfits : total log ≤ u64Max) (hs : Spread log base w)
    (hcount : base + log.length < u64Max) {handle : Handle} (hlt : base < nextPart handle)
    (hle : nextPart handle ≤ base + log.length + 1) :
    SpecIn I faults (· = w) (appendPosition handle) (Reads faults w fun p =>
      p.partNumber = base + log.length + 1 ∧ p.stagedSize = p.offset ∧
      ((nextPart handle = base + log.length + 1 →
        ∀ n, stagedSizeFact handle = some n → n = total log) → p.offset = total log)) := by
  have hrecovered : SpecIn I faults (· = w) (recoveredPosition (nextPart handle))
      (Reads faults w fun p => p.partNumber = base + log.length + 1 ∧ p.stagedSize = p.offset ∧
        ((nextPart handle = base + log.length + 1 →
          ∀ n, stagedSizeFact handle = some n → n = total log) → p.offset = total log)) := by
    refine (recoveredPosition_spec hfits hs hcount hlt hle).weaken (fun _ h => h) fun r w' h => ?_
    cases r with
    | error e => exact h
    | ok p =>
      obtain ⟨hw', rfl⟩ := h
      exact ⟨hw', rfl, rfl, fun _ => rfl⟩
  refine stat_spec (fun b hb => hrecovered) (fun hn => ?_) fun m hf => reads_error hf
  -- the cursor's part does not exist, so the cursor is up to date
  have hcursor : nextPart handle = base + log.length + 1 := by
    rw [hs.parts] at hn
    have hnot : ¬nextPart handle ∈ List.range' (base + 1) log.length := by
      rw [← body_sub_isSome, hn]
      simp
    rw [List.mem_range'_1] at hnot
    omega
  dsimp only
  cases hsize : stagedSizeFact handle with
  | none =>
    rw [hsize] at hrecovered
    exact hrecovered
  | some n => exact reads_done ⟨hcursor, rfl, fun h => h hcursor n rfl⟩

end Position

/-- The next part and the offset of a staged upload. -/
def nextPosition (log : List Bytes) : AppendPosition := ⟨log.length + 1, total log, total log⟩

theorem appendPosition_spec (hw : Layout w) (hs : Staged w) (hcount : w.log.length < u64Max) :
    Spec faults (· = w) (appendPosition w.handle)
      (Reads faults w fun p => p = nextPosition w.log) := by
  have hle : nextPart w.handle ≤ 0 + w.log.length + 1 := by
    rw [Nat.zero_add]
    exact hs.cursor_le
  refine (appendPosition_reads hw.fits hs.spread (by omega) hs.cursor_pos hle).weaken
    (fun _ h => h) fun r w' h => ?_
  cases r with
  | error e => exact h
  | ok p =>
    obtain ⟨hw', hnumber, hsize, hoffset⟩ := h
    rw [Nat.zero_add] at hnumber hoffset
    have hoffset := hoffset hs.counted
    refine ⟨hw', ?_⟩
    cases p
    simp_all [nextPosition]

end Reading

end Opendal

end TusRs
