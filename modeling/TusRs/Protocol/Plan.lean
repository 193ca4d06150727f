import TusRs.Protocol.FinalUpload

/-!
# The plan of a final upload

What `summarize_final_parts`, `enforce_final_upload_size` and `apply_final_upload_plan` make of
a list of parts: the running sums in closed form, and when they are the exact ones.

Results:

* `plan_exact_iff`: the plan is exact unless the lengths of the parts are all known, add up to
  more than a `u64` holds and no smaller `max_size` is set.
-/

namespace TusRs

namespace Protocol

/-- A sum as `saturating_add` makes it. -/
def satSum (ns : List Nat) : Nat := ns.foldl satAdd 0

/-- The summary of `summarize_final_parts` once no part has expired. -/
def statusOf (parts : List UploadState) : FinalUploadStatus :=
  (parts.foldl PartsSummary.add ⟨0, 0, true, true⟩).status

theorem foldl_satAdd {ns : List Nat} {a : Nat} (ha : a ≤ u64Max) :
    ns.foldl satAdd a = min (a + ns.sum) u64Max := by
  induction ns generalizing a with
  | nil =>
    rw [List.foldl_nil, List.sum_nil]
    exact (Nat.min_eq_left ha).symm
  | cons n ns ih =>
    rw [List.foldl_cons, ih (satAdd_le_max a n), List.sum_cons]
    simp only [satAdd]
    omega

theorem satSum_eq (ns : List Nat) : satSum ns = min ns.sum u64Max := by
  rw [satSum, foldl_satAdd (Nat.zero_le _), Nat.zero_add]

/-! ## Parts of known length -/

section Known

variable {parts : List UploadState} {ns : List Nat}

/-- The total of parts whose lengths are known. -/
theorem foldl_add_known (summary : PartsSummary)
    (h : parts.map UploadState.length = ns.map some) :
    (parts.foldl PartsSummary.add summary).totalLength = ns.foldl satAdd summary.totalLength ∧
      (parts.foldl PartsSummary.add summary).lengthKnown = summary.lengthKnown := by
  induction parts generalizing ns summary with
  | nil =>
    cases ns with
    | nil => exact ⟨rfl, rfl⟩
    | cons n ns => cases h
  | cons part parts ih =>
    cases ns with
    | nil => cases h
    | cons n ns =>
      obtain ⟨hlen, hrest⟩ := List.cons.inj h
      obtain ⟨htotal, hknown⟩ := ih (summary.add part) hrest
      refine ⟨htotal.trans ?_, hknown.trans ?_⟩
      · simp [PartsSummary.add, hlen]
      · simp [PartsSummary.add, hlen]

theorem statusOf_known (h : parts.map UploadState.length = ns.map some) :
    (statusOf parts).totalLength = some (satSum ns) := by
  obtain ⟨htotal, hknown⟩ := foldl_add_known ⟨0, 0, true, true⟩ h
  unfold statusOf PartsSummary.status
  rw [hknown, htotal]
  rfl

/-- A known total comes from known lengths. -/
theorem foldl_add_lengths {summary : PartsSummary}
    (h : (parts.foldl PartsSummary.add summary).lengthKnown = true) :
    ∃ ns : List Nat, parts.map UploadState.length = ns.map some := by
  induction parts generalizing summary with
  | nil => exact ⟨[], rfl⟩
  | cons part parts ih =>
    obtain ⟨ns, hns⟩ := ih h
    obtain ⟨n, hn⟩ : ∃ n, part.length = some n := by
      have hknown : ∀ (ps : List UploadState) (su : PartsSummary), su.lengthKnown = false →
          (ps.foldl PartsSummary.add su).lengthKnown = false := by
        intro ps
        induction ps with
        | nil => exact fun _ h => h
        | cons q qs ihq => exact fun su hsu => ihq _ (by simp [PartsSummary.add, hsu])
      cases hlen : part.length with
      | some n => exact ⟨n, rfl⟩
      | none =>
        rw [List.foldl_cons, hknown parts _ (by simp [PartsSummary.add, hlen])] at h
        cases h
    exact ⟨n :: ns, by rw [List.map_cons, List.map_cons, hn, hns]⟩

theorem statusOf_lengths {l : Nat} (h : (statusOf parts).totalLength = some l) :
    ∃ ns : List Nat, parts.map UploadState.length = ns.map some ∧ l = satSum ns := by
  unfold statusOf PartsSummary.status at h
  dsimp only at h
  split at h
  · next hknown =>
    obtain ⟨ns, hns⟩ := foldl_add_lengths hknown
    refine ⟨ns, hns, ?_⟩
    rw [(foldl_add_known _ hns).1] at h
    exact (Option.some.inj h).symm
  · cases h

end Known

/-! ## The other running values -/

section Running

variable {parts : List UploadState}

theorem foldl_add_currentOffset (summary : PartsSummary) :
    (parts.foldl PartsSummary.add summary).currentOffset =
      (parts.map UploadState.offset).foldl satAdd summary.currentOffset := by
  induction parts generalizing summary with
  | nil => rfl
  | cons part parts ih => exact ih (summary.add part)

theorem foldl_add_allComplete (summary : PartsSummary) :
    (parts.foldl PartsSummary.add summary).allComplete =
      (summary.allComplete && parts.all UploadState.isComplete) := by
  induction parts generalizing summary with
  | nil => simp
  | cons part parts ih =>
    have hadd : (summary.add part).allComplete = (summary.allComplete && part.isComplete) := by
      cases hlen : part.length with
      | none => simp [PartsSummary.add, UploadState.isComplete, hlen]
      | some l => simp [PartsSummary.add, hlen]
    rw [List.foldl_cons, ih, hadd, List.all_cons, Bool.and_assoc]

/-- The total of all lengths, when all are known. -/
def exactLength (parts : List UploadState) : Option Nat :=
  (parts.mapM UploadState.length).map List.sum

theorem mapM_length_iff {ns : List Nat} :
    parts.mapM UploadState.length = some ns ↔ parts.map UploadState.length = ns.map some := by
  induction parts generalizing ns with
  | nil =>
    cases ns with
    | nil => simp
    | cons n ns => simp
  | cons part parts ih =>
    cases ns with
    | nil => simp [List.mapM_cons, Option.bind_eq_some_iff]
    | cons n ns => simp [List.mapM_cons, Option.bind_eq_some_iff, ih]

theorem exactLength_some {n : Nat} :
    exactLength parts = some n ↔
      ∃ ns : List Nat, parts.map UploadState.length = ns.map some ∧ n = ns.sum := by
  unfold exactLength
  rw [Option.map_eq_some_iff]
  exact exists_congr fun ns => and_congr mapM_length_iff eq_comm

/-- The recorded total saturates. -/
theorem statusOf_totalLength :
    (statusOf parts).totalLength = (exactLength parts).map fun n => min n u64Max := by
  cases hexact : exactLength parts with
  | some n =>
    obtain ⟨ns, hns, rfl⟩ := exactLength_some.mp hexact
    rw [statusOf_known hns, satSum_eq]
    rfl
  | none =>
    cases htotal : (statusOf parts).totalLength with
    | none => rfl
    | some l =>
      obtain ⟨ns, hns, _⟩ := statusOf_lengths htotal
      cases hexact.symm.trans (exactLength_some.mpr ⟨ns, hns, rfl⟩)

theorem statusOf_currentOffset :
    (statusOf parts).currentOffset = min (parts.map UploadState.offset).sum u64Max := by
  rw [← satSum_eq]
  exact foldl_add_currentOffset _

theorem lengths_of_complete (h : parts.all UploadState.isComplete = true) :
    ∃ ns : List Nat, parts.map UploadState.length = ns.map some := by
  induction parts with
  | nil => exact ⟨[], rfl⟩
  | cons part parts ih =>
    rw [List.all_cons, Bool.and_eq_true] at h
    obtain ⟨l, hl, _⟩ := part.isComplete_iff.mp h.1
    obtain ⟨ns, hns⟩ := ih h.2
    exact ⟨l :: ns, by rw [List.map_cons, List.map_cons, hl, hns]⟩

theorem statusOf_allComplete :
    (statusOf parts).allComplete = parts.all UploadState.isComplete := by
  unfold statusOf PartsSummary.status
  dsimp only
  rw [foldl_add_allComplete, Bool.true_and]
  cases hall : parts.all UploadState.isComplete with
  | false => rfl
  | true =>
    obtain ⟨ns, hns⟩ := lengths_of_complete hall
    rw [(foldl_add_known _ hns).2, Bool.true_and]

end Running

/-! ## Exactness -/

section Exact

variable {config : Config} {parts : List UploadState} {state : UploadState} {partIds : List String}

/-- The record that `create_final_upload` makes of loaded parts. -/
def planFinalUpload (config : Config) (state : UploadState) (partIds : List String)
    (parts : List UploadState) : Except Error UploadState := do
  enforceFinalUploadSize config (statusOf parts)
  pure (applyFinalUploadPlan state partIds (statusOf parts))

/-- What the record of a final upload should say about its parts. -/
structure ExactRecord (parts : List UploadState) (record : UploadState) : Prop where
  complete : record.isComplete = true ↔ ∀ p ∈ parts, p.isComplete = true
  length : record.length = exactLength parts
  offset : ∀ l, record.length = some l → record.offset ≤ l

/-- A total that no record can hold or that is not allowed. -/
def TooLong (config : Config) (n : Nat) : Prop :=
  u64Max < n ∨ ∃ m, config.maxSize = some m ∧ m < n

/-- An exact plan, or none where the total is too long. -/
structure ExactPlan (config : Config) (parts : List UploadState) (plan : Except Error UploadState) :
    Prop where
  recorded : ∀ record, plan = .ok record → ExactRecord parts record
  rejected : ∀ n, exactLength parts = some n → TooLong config n → ∃ e, plan = .error e

/-- A smaller `max_size` rejects what does not fit. -/
def Guarded (config : Config) (parts : List UploadState) : Prop :=
  ∀ n, exactLength parts = some n → u64Max < n → ∃ m, config.maxSize = some m ∧ m < u64Max

theorem planFinalUpload_ok {record : UploadState}
    (h : planFinalUpload config state partIds parts = .ok record) :
    (∀ n m, exactLength parts = some n → config.maxSize = some m → min n u64Max ≤ m) ∧
      record = applyFinalUploadPlan state partIds (statusOf parts) := by
  obtain ⟨_, hsize, h⟩ := Interaction.except_bind_ok h
  refine ⟨fun n m hn hm => ?_, (Except.ok.inj h).symm⟩
  unfold enforceFinalUploadSize at hsize
  rw [statusOf_totalLength, hn] at hsize
  exact enforce_ok hsize m hm

theorem applyFinalUploadPlan_length (hstate : state.length = none) :
    (applyFinalUploadPlan state partIds (statusOf parts)).length =
      (exactLength parts).map fun n => min n u64Max := by
  unfold applyFinalUploadPlan
  rw [statusOf_totalLength]
  cases exactLength parts with
  | none => exact hstate
  | some n => rfl

theorem applyFinalUploadPlan_offset :
    (applyFinalUploadPlan state partIds (statusOf parts)).offset =
      (statusOf parts).expectedOffset := by
  unfold applyFinalUploadPlan
  cases (statusOf parts).totalLength <;> rfl

/-- Parts that count no more than their lengths count no more than the total. -/
theorem sum_offset_le {ns : List Nat} (hns : parts.map UploadState.length = ns.map some)
    (hparts : ∀ p ∈ parts, ∀ l, p.length = some l → p.offset ≤ l) :
    (parts.map UploadState.offset).sum ≤ ns.sum ∧
      ((parts.map UploadState.offset).sum = ns.sum → ∀ p ∈ parts, p.isComplete = true) := by
  induction parts generalizing ns with
  | nil =>
    cases ns with
    | nil => exact ⟨Nat.le_refl _, fun _ => nofun⟩
    | cons n ns => cases hns
  | cons part parts ih =>
    cases ns with
    | nil => cases hns
    | cons n ns =>
      obtain ⟨hlen, hrest⟩ := List.cons.inj hns
      obtain ⟨hle, heq⟩ := ih hrest fun p hp => hparts p (List.mem_cons_of_mem _ hp)
      have hpart := hparts part List.mem_cons_self n hlen
      simp only [List.map_cons, List.sum_cons]
      refine ⟨Nat.add_le_add hpart hle, fun hsum => ?_⟩
      have hn : n ≤ part.offset := by omega
      rw [List.forall_mem_cons]
      exact ⟨part.isComplete_iff.mpr ⟨n, hlen, hn⟩, heq (by omega)⟩

/-- The offset of a plan whose total fits. -/
theorem expectedOffset_le {n : Nat} (hn : exactLength parts = some n) (hfit : n ≤ u64Max)
    (hparts : ∀ p ∈ parts, ∀ l, p.length = some l → p.offset ≤ l) :
    (statusOf parts).expectedOffset ≤ n ∧
      (n ≤ (statusOf parts).expectedOffset ↔ ∀ p ∈ parts, p.isComplete = true) := by
  obtain ⟨ns, hns, rfl⟩ := exactLength_some.mp hn
  obtain ⟨hle, heq⟩ := sum_offset_le hns hparts
  unfold FinalUploadStatus.expectedOffset
  rw [statusOf_allComplete, statusOf_totalLength, statusOf_currentOffset, hn]
  by_cases hall : parts.all UploadState.isComplete = true
  · rw [if_pos hall]
    simp only [Option.map_some, Option.getD_some, Nat.min_eq_left hfit]
    exact ⟨Nat.le_refl _, fun _ => List.all_eq_true.mp hall, fun _ => Nat.le_refl _⟩
  · rw [if_neg hall, Nat.min_eq_left (hle.trans hfit)]
    exact ⟨hle, fun h => heq (Nat.le_antisymm hle h), fun h => absurd (List.all_eq_true.mpr h) hall⟩

theorem exactRecord_of_known {n : Nat} (hn : exactLength parts = some n) (hfit : n ≤ u64Max)
    (hstate : state.length = none)
    (hparts : ∀ p ∈ parts, ∀ l, p.length = some l → p.offset ≤ l) :
    ExactRecord parts (applyFinalUploadPlan state partIds (statusOf parts)) := by
  have hlength : (applyFinalUploadPlan state partIds (statusOf parts)).length = some n := by
    rw [applyFinalUploadPlan_length hstate, hn, Option.map_some, Nat.min_eq_left hfit]
  obtain ⟨hle, hiff⟩ := expectedOffset_le hn hfit hparts
  refine ⟨?_, hlength.trans hn.symm, fun l hl => ?_⟩
  · rw [UploadState.isComplete_iff, applyFinalUploadPlan_offset, hlength, ← hiff]
    simp
  · rw [applyFinalUploadPlan_offset]
    cases hlength.symm.trans hl
    exact hle

theorem exactRecord_of_unknown (hn : exactLength parts = none) (hstate : state.length = none) :
    ExactRecord parts (applyFinalUploadPlan state partIds (statusOf parts)) := by
  have hlength : (applyFinalUploadPlan state partIds (statusOf parts)).length = none := by
    rw [applyFinalUploadPlan_length hstate, hn]
    rfl
  refine ⟨?_, hlength.trans hn.symm, fun l hl => nomatch hlength.symm.trans hl⟩
  rw [UploadState.isComplete_iff, hlength]
  refine ⟨fun ⟨_, hl, _⟩ => (nomatch hl), fun hall => ?_⟩
  obtain ⟨ns, hns⟩ := lengths_of_complete (List.all_eq_true.mpr hall)
  cases hn.symm.trans (exactLength_some.mpr ⟨ns, hns, rfl⟩)

theorem planFinalUpload_error_iff :
    (∃ e, planFinalUpload config state partIds parts = .error e) ↔
      ∃ n m, exactLength parts = some n ∧ config.maxSize = some m ∧ m < min n u64Max := by
  unfold planFinalUpload enforceFinalUploadSize
  rw [statusOf_totalLength]
  cases exactLength parts with
  | none =>
    constructor
    · rintro ⟨e, h⟩
      cases h
    · rintro ⟨n, m, h, _⟩
      cases h
  | some n =>
    dsimp only [Option.map_some]
    cases hm : config.maxSize with
    | none =>
      constructor
      · rintro ⟨e, h⟩
        cases h
      · rintro ⟨_, m, _, h, _⟩
        cases h
    | some m =>
      by_cases hgt : min n u64Max > m
      · refine ⟨fun _ => ⟨n, m, rfl, rfl, hgt⟩, fun _ => ⟨.sizeExceeded (min n u64Max) m, ?_⟩⟩
        simp only [enforce, if_pos hgt]
        rfl
      · simp only [enforce, if_neg hgt]
        constructor
        · rintro ⟨e, h⟩
          cases h
        · rintro ⟨_, _, hn, hm, h⟩
          cases hn
          cases hm
          exact absurd h hgt

/-- The plan is exact unless the lengths of the parts add up to more than a `u64` holds with no
smaller `max_size` set. -/
theorem plan_exact_iff (hstate : state.length = none)
    (hparts : ∀ p ∈ parts, ∀ l, p.length = some l → p.offset ≤ l) :
    ExactPlan config parts (planFinalUpload config state partIds parts) ↔ Guarded config parts := by
  constructor
  · rintro ⟨-, hrejected⟩ n hn hgt
    obtain ⟨n', m, hn', hm, hlt⟩ := planFinalUpload_error_iff.mp (hrejected n hn (.inl hgt))
    exact ⟨m, hm, hlt.trans_le (Nat.min_le_right _ _)⟩
  · intro hguard
    refine ⟨fun record hrecord => ?_, fun n hn hlong => planFinalUpload_error_iff.mpr ?_⟩
    · obtain ⟨hsize, rfl⟩ := planFinalUpload_ok hrecord
      cases hn : exactLength parts with
      | none => exact exactRecord_of_unknown hn hstate
      | some n =>
        refine exactRecord_of_known hn (Nat.not_lt.mp fun hgt => ?_) hstate hparts
        obtain ⟨m, hm, hlt⟩ := hguard n hn hgt
        have hle := hsize n m hn hm
        rw [Nat.min_eq_right hgt.le] at hle
        exact absurd hlt (Nat.not_lt.mpr hle)
    · by_cases hgt : u64Max < n
      · obtain ⟨m, hm, hlt⟩ := hguard n hn hgt
        exact ⟨n, m, hn, hm, lt_min (hlt.trans hgt) hlt⟩
      · obtain ⟨m, hm, hlt⟩ := hlong.resolve_left hgt
        exact ⟨n, m, hn, hm, lt_min hlt (hlt.trans_le (Nat.not_lt.mp hgt))⟩

/-- A creation goes no further than its plan. -/
theorem createPlanned_error {O : Interaction.Sig} {server : Server O} {e : Error}
    (h : planFinalUpload server.config state partIds parts = .error e) :
    createPlanned server state ⟨partIds, parts, statusOf parts⟩ = Interaction.Prog.done (.error e) := by
  unfold planFinalUpload at h
  cases hsize : enforceFinalUploadSize server.config (statusOf parts) with
  | ok _ =>
    rw [hsize] at h
    cases h
  | error e' =>
    rw [hsize] at h
    cases h
    unfold createPlanned
    simp only [hsize]
    rfl

/-- A part of the given length without bytes. -/
def emptyPart (id : String) (length : Nat) : UploadState :=
  ((UploadState.new id 0).markPartial).setLength length

theorem plan_exact_iff_two :
    ExactPlan .default [emptyPart "a" 2, emptyPart "b" 3]
        (planFinalUpload .default (.new "c" 0) ["a", "b"] [emptyPart "a" 2, emptyPart "b" 3]) ↔
      Guarded .default [emptyPart "a" 2, emptyPart "b" 3] := by
  refine plan_exact_iff rfl fun p hp l _ => ?_
  rcases List.mem_pair.mp hp with rfl | rfl
  · exact Nat.zero_le l
  · exact Nat.zero_le l

/-- Two parts whose total is one more than a `u64` holds are recorded with a shorter length. -/
theorem plan_of_two_pow :
    ¬ExactPlan .default [emptyPart "a" u64Max, emptyPart "b" 1]
      (planFinalUpload .default (.new "c" 0) ["a", "b"] [emptyPart "a" u64Max, emptyPart "b" 1]) := by
  rintro ⟨-, hrejected⟩
  obtain ⟨e, he⟩ := hrejected (u64Max + 1) rfl (.inl (Nat.lt_succ_self _))
  cases he

end Exact

end Protocol

end TusRs
