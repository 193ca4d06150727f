import TusRs.Num
import TusRs.Text
import TusRs.Error
import TusRs.Interaction.Prog

/-!
# The Range header

`parse_range` of `protocol/download.rs`. Positions are `u64`; an addition or subtraction
that leaves the type is an outcome of its own.

Results:

* `parseRange_ok_iff`: the ranges that are served, in the grammar of the integer parser.
* `parseRange_some`: no arithmetic overflows.
* `selects_numeral_iff`: what that grammar has beyond digits.
-/

namespace TusRs

open Interaction

namespace Protocol

/-- Why a function does not return: an error, or an arithmetic overflow. -/
inductive Stop where
  | failed (e : Error)
  | overflow
deriving DecidableEq

def checkedAdd (a b : Nat) : Except Stop Nat :=
  if a + b ≤ u64Max then .ok (a + b) else .error .overflow

def checkedSub (a b : Nat) : Except Stop Nat :=
  if b ≤ a then .ok (a - b) else .error .overflow

def invalidRange {α : Type} (message : String) : Except Stop α :=
  .error (.failed (.invalidHeader "Range" message))

/-- `parse::<u64>` of a bound. -/
def parseBound (cs : Text.Chars) (message : String) : Except Stop Nat :=
  match parseU64Chars cs with
  | some n => .ok n
  | none => invalidRange message

/-- `-suffix`: the last bytes. -/
def parseSuffix (last : Text.Chars) (size : Nat) : Except Stop (Nat × Nat) := do
  let suffixLen ← parseBound last "invalid suffix byte count"
  if suffixLen = 0 then .error (.failed (.rangeNotSatisfiable size))
  else do
    let stop ← checkedSub size 1
    pure (size - min suffixLen size, stop)

/-- The last position of `first-` and `first-last`. -/
def parseLast (last : Text.Chars) (size : Nat) : Except Stop Nat :=
  if last.isEmpty then checkedSub size 1
  else do
    let parsed ← parseBound last "invalid range end"
    let top ← checkedSub size 1
    pure (min parsed top)

/-- `first-` and `first-last`. -/
def parseFirst (first last : Text.Chars) (size : Nat) : Except Stop (Nat × Nat) := do
  let start ← parseBound first "invalid range start"
  if size ≤ start then .error (.failed (.rangeNotSatisfiable size))
  else do
    let stop ← parseLast last size
    if stop < start then invalidRange "range start must be less than or equal to range end"
    else pure (start, stop)

/-- The bounds on both sides of the dash. -/
def parseBounds (first last : Text.Chars) (size : Nat) : Except Stop (Nat × Nat) :=
  if first.isEmpty then parseSuffix last size else parseFirst first last size

/-- `parse_range`. -/
def parseRange (value : Option String) (size : Nat) : Except Stop (Option (Nat × Nat)) :=
  match value with
  | none => .ok none
  | some value =>
    if !"bytes=".toList.isPrefixOf value.toList then invalidRange "only bytes ranges are supported"
    else
      let spec := value.toList.drop 6
      if spec.contains ',' then invalidRange "multiple ranges are not supported"
      else if size = 0 then .error (.failed (.rangeNotSatisfiable size))
      else
        match Text.splitOnce '-' spec with
        | none => invalidRange "range must be in the form bytes=start-end"
        | some (first, last) => (parseBounds first last size).map some

/-! ## The ranges that are served -/

/-- `value` asks for the bytes `start..=stop` of `size`, with numbers written as `num` has
them. -/
inductive Selects (num : Text.Chars → Nat → Prop) (size : Nat) : Text.Chars → Nat → Nat → Prop
  | bounded {first last : Text.Chars} {a b : Nat} (hfirst : num first a) (hlast : num last b)
      (hle : a ≤ b) (hsize : a < size) :
      Selects num size ("bytes=".toList ++ (first ++ '-' :: last)) a (min b (size - 1))
  | openEnded {first : Text.Chars} {a : Nat} (hfirst : num first a) (hsize : a < size) :
      Selects num size ("bytes=".toList ++ (first ++ ['-'])) a (size - 1)
  | suffix {last : Text.Chars} {n : Nat} (hlast : num last n) (hn : 0 < n) (hsize : 0 < size) :
      Selects num size ("bytes=".toList ++ '-' :: last) (size - min n size) (size - 1)

/-- The numbers of the integer parser. -/
def Lenient (cs : Text.Chars) (n : Nat) : Prop := parseU64Chars cs = some n

section Selects

variable {num : Text.Chars → Nat → Prop} {size start stop n : Nat} {value cs : Text.Chars}

/-- What is selected lies in the content and is not empty. -/
theorem Selects.bounds (h : Selects num size value start stop) : start ≤ stop ∧ stop < size := by
  cases h <;> omega

theorem Lenient.mem (h : Lenient cs n) : ∀ c ∈ cs, c = '+' ∨ c.isDigit := by
  rcases parseU64Chars_iff.mp h with hn | ⟨ds, rfl, hn⟩
  · exact fun c hc => .inr (hn.isDigit c hc)
  · intro c hc
    rcases List.mem_cons.mp hc with rfl | hc
    · exact .inl rfl
    · exact .inr (hn.isDigit c hc)

theorem Lenient.not_mem {c : Char} (h : Lenient cs n) (hplus : c ≠ '+') (hdigit : ¬c.isDigit) :
    c ∉ cs := fun hc => (h.mem c hc).elim hplus hdigit

theorem Lenient.ne_nil (h : Lenient cs n) : cs ≠ [] := by
  rcases parseU64Chars_iff.mp h with hn | ⟨ds, rfl, hn⟩
  · exact hn.1
  · exact List.cons_ne_nil _ _

theorem Lenient.le (h : Lenient cs n) : n ≤ u64Max := by
  rcases parseU64Chars_iff.mp h with hn | ⟨ds, rfl, hn⟩
  · exact hn.2.2.2
  · exact hn.2.2.2

end Selects

/-! ## The parser -/

section Parser

variable {size start stop n : Nat} {first last cs : Text.Chars} {message : String}

theorem checkedSub_one (h : 0 < size) : checkedSub size 1 = .ok (size - 1) := if_pos h

theorem parseBound_ok_iff : parseBound cs message = .ok n ↔ Lenient cs n := by
  unfold parseBound Lenient
  cases parseU64Chars cs with
  | none => exact ⟨nofun, nofun⟩
  | some m => rw [Except.ok.injEq, Option.some.injEq]

theorem parseBound_error {e : Stop} (h : parseBound cs message = .error e) : e ≠ .overflow := by
  unfold parseBound at h
  split at h
  · cases h
  · cases h
    nofun

theorem parseSuffix_ok_iff (hsize : 0 < size) :
    parseSuffix last size = .ok (start, stop) ↔
      ∃ n, Lenient last n ∧ 0 < n ∧ start = size - min n size ∧ stop = size - 1 := by
  constructor
  · intro h
    obtain ⟨n, hn, h⟩ := except_bind_ok h
    by_cases hzero : n = 0
    · simp [hzero] at h
    · rw [if_neg hzero, checkedSub_one hsize] at h
      cases h
      exact ⟨n, parseBound_ok_iff.mp hn, Nat.pos_of_ne_zero hzero, rfl, rfl⟩
  · rintro ⟨n, hn, hpos, rfl, rfl⟩
    rw [parseSuffix, parseBound_ok_iff.mpr hn]
    show (if n = 0 then _ else _) = _
    rw [if_neg hpos.ne', checkedSub_one hsize]
    rfl

theorem parseLast_ok_iff (hsize : 0 < size) :
    parseLast last size = .ok stop ↔
      last = [] ∧ stop = size - 1 ∨ ∃ b, Lenient last b ∧ stop = min b (size - 1) := by
  unfold parseLast
  rw [checkedSub_one hsize]
  cases last with
  | nil =>
    rw [List.isEmpty_nil, if_pos rfl, Except.ok.injEq]
    constructor
    · exact fun h => .inl ⟨rfl, h.symm⟩
    · rintro (⟨-, rfl⟩ | ⟨b, hb, -⟩)
      · rfl
      · exact absurd rfl hb.ne_nil
  | cons c cs =>
    rw [List.isEmpty_cons, if_neg Bool.false_ne_true]
    constructor
    · intro h
      obtain ⟨b, hb, h⟩ := except_bind_ok h
      cases h
      exact .inr ⟨b, parseBound_ok_iff.mp hb, rfl⟩
    · rintro (⟨h, -⟩ | ⟨b, hb, rfl⟩)
      · cases h
      · rw [parseBound_ok_iff.mpr hb]
        rfl

theorem parseFirst_ok_iff :
    parseFirst first last size = .ok (start, stop) ↔
      Lenient first start ∧ start < size ∧ parseLast last size = .ok stop ∧ start ≤ stop := by
  constructor
  · intro h
    obtain ⟨a, ha, h⟩ := except_bind_ok h
    by_cases hbeyond : size ≤ a
    · simp [hbeyond] at h
    rw [if_neg hbeyond] at h
    obtain ⟨top, htop, h⟩ := except_bind_ok h
    by_cases horder : top < a
    · simp [horder, invalidRange] at h
    rw [if_neg horder] at h
    cases h
    exact ⟨parseBound_ok_iff.mp ha, Nat.lt_of_not_le hbeyond, htop, Nat.le_of_not_lt horder⟩
  · rintro ⟨ha, hlt, hstop, hle⟩
    rw [parseFirst, parseBound_ok_iff.mpr ha]
    show (if size ≤ start then _ else _) = _
    rw [if_neg (Nat.not_le_of_lt hlt), hstop]
    exact if_neg (Nat.not_lt_of_le hle)

theorem parseSuffix_error {e : Stop} (hsize : 0 < size) (h : parseSuffix last size = .error e) :
    e ≠ .overflow := by
  obtain h | ⟨n, -, h⟩ := except_bind_error h
  · exact parseBound_error h
  split at h
  · cases h
    nofun
  · rw [checkedSub_one hsize] at h
    cases h

theorem parseLast_error {e : Stop} (hsize : 0 < size) (h : parseLast last size = .error e) :
    e ≠ .overflow := by
  unfold parseLast at h
  rw [checkedSub_one hsize] at h
  split at h
  · cases h
  · obtain h | ⟨b, -, h⟩ := except_bind_error h
    · exact parseBound_error h
    · cases h

theorem parseFirst_error {e : Stop} (hsize : 0 < size) (h : parseFirst first last size = .error e) :
    e ≠ .overflow := by
  obtain h | ⟨a, -, h⟩ := except_bind_error h
  · exact parseBound_error h
  split at h
  · cases h
    nofun
  obtain h | ⟨top, -, h⟩ := except_bind_error h
  · exact parseLast_error hsize h
  · split at h
    · cases h
      nofun
    · cases h

end Parser

/-- How the parser proceeds with a range of a content that is not empty. -/
theorem parseRange_cons {size : Nat} {first last : Text.Chars} {value : String}
    (hvalue : value.toList = "bytes=".toList ++ (first ++ '-' :: last)) (hsize : 0 < size)
    (hdash : '-' ∉ first) (hcomma : ',' ∉ first ∧ ',' ∉ last) :
    parseRange (some value) size = (parseBounds first last size).map some := by
  have hstarts : "bytes=".toList.isPrefixOf value.toList = true := by
    rw [List.isPrefixOf_iff_prefix, hvalue]
    exact List.prefix_append _ _
  have hspec : value.toList.drop 6 = first ++ '-' :: last := by
    rw [hvalue]
    rfl
  have hsingle : (first ++ '-' :: last).contains ',' = false := by
    rw [← Bool.not_eq_true, List.contains_iff_mem]
    simp [hcomma]
  simp only [parseRange, hstarts, hspec, hsingle, hsize.ne', Text.splitOnce_append last hdash]
  rfl

/-- A value that is no single range of bytes, or a range of nothing, is refused. -/
theorem parseRange_shape (value : String) (size : Nat) :
    (∃ e, parseRange (some value) size = .error (.failed e)) ∨
    ∃ first last, value.toList = "bytes=".toList ++ (first ++ '-' :: last) ∧ 0 < size ∧
      '-' ∉ first ∧ ',' ∉ first ∧ ',' ∉ last := by
  rw [parseRange]
  by_cases hstarts : "bytes=".toList.isPrefixOf value.toList = true
  · obtain ⟨spec, hspec⟩ := List.isPrefixOf_iff_prefix.mp hstarts
    have hdrop : value.toList.drop 6 = spec := by
      rw [← hspec]
      rfl
    simp only [hstarts, hdrop, Bool.not_true, Bool.false_eq_true, if_false]
    by_cases hcomma : spec.contains ',' = true
    · exact .inl ⟨_, if_pos hcomma⟩
    rw [if_neg hcomma]
    by_cases hsize : size = 0
    · exact .inl ⟨_, if_pos hsize⟩
    rw [if_neg hsize]
    cases hsplit : Text.splitOnce '-' spec with
    | none => exact .inl ⟨_, rfl⟩
    | some cut =>
      obtain ⟨first, last⟩ := cut
      obtain ⟨rfl, hdash⟩ := Text.splitOnce_eq_some hsplit
      simp only [List.contains_iff_mem, List.mem_append, List.mem_cons, not_or] at hcomma
      exact .inr ⟨first, last, hspec.symm, Nat.pos_of_ne_zero hsize, hdash, hcomma.1, hcomma.2.2⟩
  · rw [Bool.eq_false_iff.mpr hstarts]
    exact .inl ⟨_, rfl⟩

theorem map_some_ok_iff {α : Type} {x : Except Stop α} {a : α} :
    x.map some = .ok (some a) ↔ x = .ok a := by
  cases x with
  | error e => exact ⟨nofun, nofun⟩
  | ok b => simp [Except.map]

theorem parseBounds_ok {size start stop : Nat} {first last : Text.Chars} (hsize : 0 < size)
    (h : parseBounds first last size = .ok (start, stop)) :
    Selects Lenient size ("bytes=".toList ++ (first ++ '-' :: last)) start stop := by
  cases first with
  | nil =>
    obtain ⟨n, hn, hpos, rfl, rfl⟩ := (parseSuffix_ok_iff hsize).mp h
    exact .suffix hn hpos hsize
  | cons c cs =>
    obtain ⟨hstart, hlt, hlast, hle⟩ := parseFirst_ok_iff.mp h
    obtain ⟨rfl, rfl⟩ | ⟨b, hb, rfl⟩ := (parseLast_ok_iff hsize).mp hlast
    · exact .openEnded hstart hlt
    · exact .bounded hstart hb (hle.trans (Nat.min_le_left _ _)) hlt

theorem parseBounds_first {size n : Nat} {first : Text.Chars} (h : Lenient first n)
    (last : Text.Chars) : parseBounds first last size = parseFirst first last size :=
  if_neg fun hnil => h.ne_nil (List.isEmpty_iff.mp hnil)

/-- The parser serves a range exactly if the value selects one. -/
theorem parseRange_ok_iff {size start stop : Nat} {value : String} :
    parseRange (some value) size = .ok (some (start, stop)) ↔
      Selects Lenient size value.toList start stop := by
  have hcomma {cs : Text.Chars} {n : Nat} (hn : Lenient cs n) : ',' ∉ cs :=
    hn.not_mem (by decide) (by decide)
  have hdash {cs : Text.Chars} {n : Nat} (hn : Lenient cs n) : '-' ∉ cs :=
    hn.not_mem (by decide) (by decide)
  constructor
  · intro h
    obtain ⟨e, he⟩ | ⟨first, last, hvalue, hsize, hfirst, hcommas⟩ := parseRange_shape value size
    · rw [he] at h
      cases h
    rw [parseRange_cons hvalue hsize hfirst hcommas, map_some_ok_iff] at h
    rw [hvalue]
    exact parseBounds_ok hsize h
  · generalize hvalue : value.toList = cs
    intro h
    cases h with
    | @bounded first last a b hfirst hlast hle hlt =>
      have hsize : 0 < size := Nat.zero_lt_of_lt hlt
      have htop : parseLast last size = .ok (min b (size - 1)) :=
        (parseLast_ok_iff hsize).mpr (.inr ⟨b, hlast, rfl⟩)
      rw [parseRange_cons hvalue hsize (hdash hfirst) ⟨hcomma hfirst, hcomma hlast⟩,
        map_some_ok_iff, parseBounds_first hfirst]
      exact parseFirst_ok_iff.mpr ⟨hfirst, hlt, htop, Nat.le_min.mpr ⟨hle, Nat.le_pred_of_lt hlt⟩⟩
    | @openEnded first a hfirst hlt =>
      have hsize : 0 < size := Nat.zero_lt_of_lt hlt
      have htop : parseLast [] size = .ok (size - 1) :=
        (parseLast_ok_iff hsize).mpr (.inl ⟨rfl, rfl⟩)
      rw [parseRange_cons hvalue hsize (hdash hfirst) ⟨hcomma hfirst, List.not_mem_nil⟩,
        map_some_ok_iff, parseBounds_first hfirst]
      exact parseFirst_ok_iff.mpr ⟨hfirst, hlt, htop, Nat.le_pred_of_lt hlt⟩
    | @suffix last n hlast hpos hsize =>
      have hnil : value.toList = "bytes=".toList ++ ([] ++ '-' :: last) := hvalue
      rw [parseRange_cons hnil hsize List.not_mem_nil ⟨List.not_mem_nil, hcomma hlast⟩,
        map_some_ok_iff]
      exact (parseSuffix_ok_iff hsize).mpr ⟨n, hlast, hpos, rfl, rfl⟩

theorem parseBounds_error {size : Nat} {first last : Text.Chars} {e : Stop} (hsize : 0 < size)
    (h : parseBounds first last size = .error e) : e ≠ .overflow := by
  unfold parseBounds at h
  split at h
  · exact parseSuffix_error hsize h
  · exact parseFirst_error hsize h

/-- With a header there is a range or an error, and the error is no overflow. -/
theorem parseRange_some (value : String) (size : Nat) :
    (∃ start stop, parseRange (some value) size = .ok (some (start, stop))) ∨
    ∃ e, parseRange (some value) size = .error (.failed e) := by
  obtain hfail | ⟨first, last, hvalue, hsize, hfirst, hcommas⟩ := parseRange_shape value size
  · exact .inr hfail
  rw [parseRange_cons hvalue hsize hfirst hcommas]
  cases hr : parseBounds first last size with
  | ok range => exact .inl ⟨range.1, range.2, rfl⟩
  | error e =>
    cases e with
    | failed e => exact .inr ⟨e, rfl⟩
    | overflow => exact absurd rfl (parseBounds_error hsize hr)

/-! ## Plus signs -/

theorem lenient_of_numeral {cs : Text.Chars} {n : Nat} (h : Numeral cs n) : Lenient cs n :=
  parseU64Chars_iff.mpr (.inl h)

theorem Lenient.numeral {cs : Text.Chars} {n : Nat} (h : Lenient cs n) (hplus : '+' ∉ cs) :
    Numeral cs n := by
  rcases parseU64Chars_iff.mp h with hn | ⟨ds, rfl, -⟩
  · exact hn
  · exact absurd List.mem_cons_self hplus

/-- What digits select is what the integer parser selects from a value without a plus sign. -/
theorem selects_numeral_iff {size start stop : Nat} {value : Text.Chars} :
    Selects Numeral size value start stop ↔ Selects Lenient size value start stop ∧ '+' ∉ value := by
  have hdigits {cs : Text.Chars} {n : Nat} (hn : Numeral cs n) : '+' ∉ cs := fun h =>
    absurd (hn.isDigit '+' h) (by decide)
  constructor
  · intro h
    cases h with
    | bounded hfirst hlast hle hlt =>
      refine ⟨.bounded (lenient_of_numeral hfirst) (lenient_of_numeral hlast) hle hlt, ?_⟩
      simp [hdigits hfirst, hdigits hlast]
    | openEnded hfirst hlt =>
      refine ⟨.openEnded (lenient_of_numeral hfirst) hlt, ?_⟩
      simp [hdigits hfirst]
    | suffix hlast hpos hsize =>
      refine ⟨.suffix (lenient_of_numeral hlast) hpos hsize, ?_⟩
      simp [hdigits hlast]
  · rintro ⟨h, hplus⟩
    cases h with
    | bounded hfirst hlast hle hlt =>
      simp only [List.mem_append, List.mem_cons, not_or] at hplus
      exact .bounded (hfirst.numeral hplus.2.1) (hlast.numeral hplus.2.2.2) hle hlt
    | openEnded hfirst hlt =>
      simp only [List.mem_append, not_or] at hplus
      exact .openEnded (hfirst.numeral hplus.2.1) hlt
    | suffix hlast hpos hsize =>
      simp only [List.mem_append, List.mem_cons, not_or] at hplus
      exact .suffix (hlast.numeral hplus.2.2) hpos hsize

end Protocol

end TusRs
