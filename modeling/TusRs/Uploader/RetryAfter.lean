import Mathlib.Data.List.Infix
import TusRs.Calendar
import TusRs.Opendal.Keys

/-!
# The Retry-After hint

`tus-uploader/src/helpers.rs`: `parse_retry_after` on native targets, with the civil-date
arithmetic in `i64`. A date is split at its separators and its numbers are read by the integer
parser, which takes a sign and any number of digits.

Results:

* `daysFromCivil_eq`: the arithmetic counts the days of the calendar.
* `retryAfter_exact_iff`: the header values that are read exactly.
-/

namespace TusRs

open Calendar (Moment dayNumber marchDay)

namespace Uploader

open Text (Chars)

namespace RetryAfter

/-! ## Signed integers -/

/-- An operation on `i64` leaves the range: a panic, or a wrapped number in a release build. -/
inductive Overflow where
  | overflow
deriving DecidableEq

/-- The result of an operation on `i64`, where it has one. -/
def i64 (n : Int) : Except Overflow Int :=
  if -2 ^ 63 ≤ n ∧ n ≤ 2 ^ 63 - 1 then .ok n else .error .overflow

def add (a b : Int) : Except Overflow Int := i64 (a + b)

def sub (a b : Int) : Except Overflow Int := i64 (a - b)

def mul (a b : Int) : Except Overflow Int := i64 (a * b)

/-- One or more digits. -/
def parseDigits (ds : Chars) : Option Nat :=
  if ds ≠ [] ∧ ds.all Char.isDigit then some (Nat.ofDigitChars 10 ds 0) else none

/-- `str::parse::<i64>`: an optional sign and at least one digit, in range. -/
def parseI64Chars : Chars → Option Int
  | '-' :: ds => ((parseDigits ds).filter fun n => n ≤ 2 ^ 63).map fun n : Nat => -(n : Int)
  | '+' :: ds => ((parseDigits ds).filter fun n => n < 2 ^ 63).map Int.ofNat
  | ds => ((parseDigits ds).filter fun n => n < 2 ^ 63).map Int.ofNat

/-! ## Dates -/

/-- The numbers of a date as they are read. -/
structure Civil where
  year : Int
  month : Int
  day : Int
  hour : Int
  minute : Int
  second : Int
deriving DecidableEq

/-- `days_from_civil`. -/
def daysFromCivil (year month day : Int) : Except Overflow Int := do
  let year ← (if month ≤ 2 then sub year 1 else pure year)
  let era := (← (if year ≥ 0 then pure year else sub year 399)).tdiv 400
  let yoe ← sub year (← mul era 400)
  let mp ← (if month > 2 then sub month 3 else add month 9)
  let doy ← sub (← add ((← add (← mul 153 mp) 2).tdiv 5) day) 1
  let doe ← add (← sub (← add (← mul yoe 365) (yoe.tdiv 4)) (yoe.tdiv 100)) doy
  sub (← add (← mul era 146097) doe) 719468

/-- The last line of `parse_imf_fixdate_unix`. -/
def unixSeconds (c : Civil) : Except Overflow Int := do
  let days ← daysFromCivil c.year c.month c.day
  add (← add (← add (← mul days 86400) (← mul c.hour 3600)) (← mul c.minute 60)) c.second

/-- The texts between the separators of a date. -/
structure Parts where
  weekday : Chars
  day : Chars
  month : Chars
  year : Chars
  hour : Chars
  minute : Chars
  second : Chars

def monthNames : List String :=
  ["Jan", "Feb", "Mar", "Apr", "May", "Jun", "Jul", "Aug", "Sep", "Oct", "Nov", "Dec"]

def monthOf (name : Chars) : Option Int :=
  (monthNames.idxOf? (String.ofList name)).map fun i => Int.ofNat (i + 1)

/-- `strip_suffix`, `split_once` and the two `split`s. -/
def Parts.split (value : Chars) : Option Parts := do
  let value ← value.dropSuffix? " GMT".toList
  let (weekday, rest) ← value.dropInfix? ", ".toList
  match rest.splitOn ' ' with
  | [day, month, year, time] =>
    match time.splitOn ':' with
    | [hour, minute, second] => some { weekday, day, month, year, hour, minute, second }
    | _ => none
  | _ => none

/-- What is checked of the numbers. -/
def Civil.Checked (c : Civil) : Prop :=
  1 ≤ c.day ∧ c.day ≤ 31 ∧ c.hour ≤ 23 ∧ c.minute ≤ 59 ∧ c.second ≤ 60

instance (c : Civil) : Decidable c.Checked := inferInstanceAs (Decidable (_ ∧ _))

/-- The weekday is not looked at. -/
def Parts.read (p : Parts) : Option Civil := do
  let day ← parseI64Chars p.day
  let month ← monthOf p.month
  let year ← parseI64Chars p.year
  let hour ← parseI64Chars p.hour
  let minute ← parseI64Chars p.minute
  let second ← parseI64Chars p.second
  let c : Civil := { year, month, day, hour, minute, second }
  if c.Checked then some c else none

def parseImfFixdateUnix (value : Chars) : Except Overflow (Option Int) :=
  match (Parts.split value).bind Parts.read with
  | none => .ok none
  | some c => (unixSeconds c).map some

/-! ## The hint -/

/-- A reading of the clock: seconds from the Unix epoch, as the system keeps them. -/
structure SystemTime where
  secs : Int
  range : -2 ^ 63 ≤ secs ∧ secs ≤ 2 ^ 63 - 1

/-- `duration_since(UNIX_EPOCH)` in seconds, which fails before the epoch. -/
def SystemTime.sinceEpoch (clock : SystemTime) : Option Int :=
  if 0 ≤ clock.secs then some clock.secs else none

/-- `i64::saturating_sub`. -/
def saturatingSub (a b : Int) : Int := max (-2 ^ 63) (min (a - b) (2 ^ 63 - 1))

def parseRetryAfterDate (clock : SystemTime) (value : Chars) : Except Overflow (Option Nat) := do
  match ← parseImfFixdateUnix value with
  | none => pure none
  | some target =>
    pure (clock.sinceEpoch.map fun now => (max (saturatingSub target now) 0).toNat)

/-- `str::trim`. -/
def trim (value : Chars) : Chars :=
  (value.dropWhile Opendal.isWhiteSpace).rdropWhile Opendal.isWhiteSpace

def parseRetryAfter (clock : SystemTime) (value : Chars) : Except Overflow (Option Nat) :=
  let value := trim value
  if value = [] then .ok none
  else match parseU64Chars value with
    | some seconds => .ok (some seconds)
    | none => parseRetryAfterDate clock value

/-! ## The civil-date arithmetic -/

section Arithmetic

theorem i64_ok {n : Int} (hlow : -2 ^ 63 ≤ n) (hhigh : n ≤ 2 ^ 63 - 1) : i64 n = .ok n :=
  if_pos ⟨hlow, hhigh⟩

theorem ok_bind {α β : Type} (a : α) (f : α → Except Overflow β) :
    (Except.ok a >>= f) = f a := rfl

theorem add_ok {a b n : Int} (h : a + b = n) (hlow : -2 ^ 63 ≤ n) (hhigh : n ≤ 2 ^ 63 - 1) :
    add a b = .ok n := by
  rw [add, h, i64_ok hlow hhigh]

theorem sub_ok {a b n : Int} (h : a - b = n) (hlow : -2 ^ 63 ≤ n) (hhigh : n ≤ 2 ^ 63 - 1) :
    sub a b = .ok n := by
  rw [sub, h, i64_ok hlow hhigh]

theorem mul_ok {a b n : Int} (h : a * b = n) (hlow : -2 ^ 63 ≤ n) (hhigh : n ≤ 2 ^ 63 - 1) :
    mul a b = .ok n := by
  rw [mul, h, i64_ok hlow hhigh]

/-- Only before the March of year zero is the year a negative one. -/
theorem daysFromCivil_zero {m d : Nat} (hm : 1 ≤ m ∧ m ≤ 2) (hd : 1 ≤ d ∧ d ≤ 31) :
    daysFromCivil 0 m d = .ok ((dayNumber 0 m d : Int) - (719528 : Nat)) := by
  obtain ⟨hlow, hhigh⟩ := hm
  obtain ⟨hfirst, hlast⟩ := hd
  interval_cases m <;> interval_cases d <;> decide +kernel

/-- A year of four digits is far from the ends of the range. -/
theorem daysFromCivil_eq {y m d : Nat} (hy : y ≤ 9999) (hm : 1 ≤ m ∧ m ≤ 12)
    (hd : 1 ≤ d ∧ d ≤ 31) :
    daysFromCivil y m d = .ok ((dayNumber y m d : Int) - dayNumber 1970 1 1) := by
  rw [Calendar.dayNumber_epoch]
  by_cases hzero : y = 0 ∧ m ≤ 2
  · obtain ⟨rfl, hearly⟩ := hzero
    exact daysFromCivil_zero ⟨hm.1, hearly⟩ hd
  obtain ⟨y', hy'⟩ : ∃ y' : Nat, y' = if m ≤ 2 then y - 1 else y := ⟨_, rfl⟩
  obtain ⟨mp, hmp⟩ : ∃ mp : Nat, mp = if m > 2 then m - 3 else m + 9 := ⟨_, rfl⟩
  have hnumber := Calendar.dayNumber_eq hm hd.1 (by omega) hy'
  have hmarch : marchDay m = (153 * mp + 2) / 5 := by rw [marchDay, hmp]
  have hyear : m ≤ 2 ∧ y' + 1 = y ∨ ¬m ≤ 2 ∧ y' = y := by split at hy' <;> omega
  have hmonth : m > 2 ∧ mp + 3 = m ∨ ¬m > 2 ∧ mp = m + 9 := by split at hmp <;> omega
  clear hy' hmp
  have step₁ : (if (m : Int) ≤ 2 then sub (y : Int) 1 else pure (y : Int)) = .ok (y' : Int) := by
    split
    · exact sub_ok (by omega) (by omega) (by omega)
    · exact congrArg Except.ok (by omega)
  have step₂ : (if (y' : Int) ≥ 0 then pure (y' : Int) else sub (y' : Int) 399) =
      .ok (y' : Int) := if_pos (by omega)
  have step₃ : mul ((y' : Int).tdiv 400) 400 = .ok ((y' / 400 * 400 : Nat) : Int) :=
    mul_ok (show ((y' / 400 : Nat) : Int) * 400 = _ by omega) (by omega) (by omega)
  have step₄ : sub (y' : Int) ((y' / 400 * 400 : Nat) : Int) = .ok ((y' % 400 : Nat) : Int) :=
    sub_ok (by omega) (by omega) (by omega)
  have step₅ : (if (m : Int) > 2 then sub (m : Int) 3 else add (m : Int) 9) = .ok (mp : Int) := by
    split
    · exact sub_ok (by omega) (by omega) (by omega)
    · exact add_ok (by omega) (by omega) (by omega)
  have step₆ : mul 153 (mp : Int) = .ok ((153 * mp : Nat) : Int) :=
    mul_ok (by omega) (by omega) (by omega)
  have step₇ : add ((153 * mp : Nat) : Int) 2 = .ok ((153 * mp + 2 : Nat) : Int) :=
    add_ok (by omega) (by omega) (by omega)
  have step₈ : add (((153 * mp + 2 : Nat) : Int).tdiv 5) d = .ok ((marchDay m + d : Nat) : Int) :=
    add_ok (show (((153 * mp + 2) / 5 : Nat) : Int) + d = _ by omega) (by omega) (by omega)
  have step₉ : sub ((marchDay m + d : Nat) : Int) 1 = .ok ((marchDay m + d - 1 : Nat) : Int) :=
    sub_ok (by omega) (by omega) (by omega)
  have hfour : y' / 4 = 100 * (y' / 400) + y' % 400 / 4 := by omega
  have hcentury : y' / 100 = 4 * (y' / 400) + y' % 400 / 100 := by omega
  generalize hyoe : y' % 400 = yoe at step₄ hfour hcentury
  have step₁₀ : mul (yoe : Int) 365 = .ok ((yoe * 365 : Nat) : Int) :=
    mul_ok (by omega) (by omega) (by omega)
  have step₁₁ : add ((yoe * 365 : Nat) : Int) ((yoe : Int).tdiv 4) =
      .ok ((yoe * 365 + yoe / 4 : Nat) : Int) :=
    add_ok (show _ + ((yoe / 4 : Nat) : Int) = _ by omega) (by omega) (by omega)
  have step₁₂ : sub ((yoe * 365 + yoe / 4 : Nat) : Int) ((yoe : Int).tdiv 100) =
      .ok ((yoe * 365 + yoe / 4 - yoe / 100 : Nat) : Int) :=
    sub_ok (show _ - ((yoe / 100 : Nat) : Int) = _ by omega) (by omega) (by omega)
  have step₁₃ : add ((yoe * 365 + yoe / 4 - yoe / 100 : Nat) : Int) ((marchDay m + d - 1 : Nat) : Int) =
      .ok ((yoe * 365 + yoe / 4 - yoe / 100 + (marchDay m + d - 1) : Nat) : Int) :=
    add_ok (by omega) (by omega) (by omega)
  have step₁₄ : mul ((y' : Int).tdiv 400) 146097 = .ok ((y' / 400 * 146097 : Nat) : Int) :=
    mul_ok (show ((y' / 400 : Nat) : Int) * 146097 = _ by omega) (by omega) (by omega)
  have step₁₅ : add ((y' / 400 * 146097 : Nat) : Int)
      ((yoe * 365 + yoe / 4 - yoe / 100 + (marchDay m + d - 1) : Nat) : Int) =
      .ok ((dayNumber y m d - 60 : Nat) : Int) :=
    add_ok (by omega) (by omega) (by omega)
  have step₁₆ : sub ((dayNumber y m d - 60 : Nat) : Int) 719468 =
      .ok ((dayNumber y m d : Int) - (719528 : Nat)) :=
    sub_ok (by omega) (by omega) (by omega)
  rw [daysFromCivil, step₁, ok_bind, step₂, ok_bind]
  dsimp only
  rw [step₃, ok_bind, step₄, ok_bind, step₅, ok_bind, step₆, ok_bind, step₇, ok_bind, step₈,
    ok_bind, step₉, ok_bind, step₁₀, ok_bind, step₁₁, ok_bind, step₁₂, ok_bind, step₁₃, ok_bind,
    step₁₄, ok_bind, step₁₅, ok_bind]
  exact step₁₆

/-- The numbers of a moment. -/
def civilOf (t : Moment) : Civil where
  year := t.year
  month := t.month
  day := t.day
  hour := t.hour
  minute := t.minute
  second := t.second

theorem unixSeconds_eq (t : Moment) (hy : t.year ≤ 9999) :
    unixSeconds (civilOf t) = .ok t.unix := by
  have hd : 1 ≤ t.day ∧ t.day ≤ 31 :=
    ⟨t.day_mem.1, t.day_mem.2.trans (Calendar.daysInMonth_le t.year t.month)⟩
  have hdays := daysFromCivil_eq hy t.month_mem hd
  have hbound : -719528 ≤ (dayNumber t.year t.month t.day : Int) - dayNumber 1970 1 1 ∧
      (dayNumber t.year t.month t.day : Int) - dayNumber 1970 1 1 < 4000000 := by
    have hlt := Calendar.dayNumber_lt hy t.month_mem hd.2
    rw [Calendar.dayNumber_epoch]
    omega
  obtain ⟨hhour, hminute, hsecond⟩ := t.time_le
  show (do
    let days ← daysFromCivil t.year t.month t.day
    add (← add (← add (← mul days 86400) (← mul t.hour 3600)) (← mul t.minute 60)) t.second) = _
  rw [hdays, Moment.unix]
  generalize (dayNumber t.year t.month t.day : Int) - dayNumber 1970 1 1 = days at *
  have step₁ : mul days 86400 = .ok (days * 86400) := mul_ok rfl (by omega) (by omega)
  have step₂ : mul (t.hour : Int) 3600 = .ok (t.hour * 3600) := mul_ok rfl (by omega) (by omega)
  have step₃ : add (days * 86400) (t.hour * 3600) = .ok (days * 86400 + t.hour * 3600) :=
    add_ok rfl (by omega) (by omega)
  have step₄ : mul (t.minute : Int) 60 = .ok (t.minute * 60) := mul_ok rfl (by omega) (by omega)
  have step₅ : add (days * 86400 + t.hour * 3600) (t.minute * 60) =
      .ok (days * 86400 + t.hour * 3600 + t.minute * 60) := add_ok rfl (by omega) (by omega)
  rw [ok_bind, step₁, ok_bind, step₂, ok_bind, step₃, ok_bind, step₄, ok_bind, step₅, ok_bind]
  exact add_ok rfl (by omega) (by omega)

end Arithmetic

/-! ## Numbers and names -/

/-- A number written with a fixed number of digits. -/
def Fixed (width : Nat) (cs : Chars) (n : Nat) : Prop :=
  cs.length = width ∧ cs.all Char.isDigit = true ∧ Nat.ofDigitChars 10 cs 0 = n

theorem Fixed.parse {width n : Nat} {cs : Chars} (h : Fixed width cs n) (hpos : 0 < width)
    (hwidth : width ≤ 18) : parseI64Chars cs = some n := by
  obtain ⟨hlen, hall, hn⟩ := h
  have hne : cs ≠ [] := by
    intro hnil
    rw [hnil] at hlen
    exact absurd hlen (Nat.ne_of_lt hpos)
  have hdigit := List.all_eq_true.mp hall
  have hlt := ofDigitChars_lt hdigit
  have hpow : 10 ^ cs.length ≤ 10 ^ 18 := Nat.pow_le_pow_right (by decide) (by omega)
  have hsmall : Nat.ofDigitChars 10 cs 0 < 9223372036854775808 := by omega
  rw [parseI64Chars.eq_3]
  · rw [hn] at hsmall
    simp [parseDigits, hne, hall, hn, hsmall]
  · rintro ds rfl
    exact absurd (hdigit '-' List.mem_cons_self) (by decide)
  · rintro ds rfl
    exact absurd (hdigit '+' List.mem_cons_self) (by decide)

theorem parseDigits_mem {ds : Chars} {n : Nat} (h : parseDigits ds = some n) :
    ∀ c ∈ ds, c.isDigit := by
  unfold parseDigits at h
  split at h
  · next hds => exact List.all_eq_true.mp hds.2
  · cases h

/-- A number that is read has no separators in it. -/
theorem parseI64Chars_mem {cs : Chars} {n : Int} (h : parseI64Chars cs = some n) :
    ∀ c ∈ cs, c = '-' ∨ c = '+' ∨ c.isDigit := by
  have hfiltered {ds : Chars} {bound : Nat → Bool} {f : Nat → Int}
      (hd : ((parseDigits ds).filter bound).map f = some n) : ∀ c ∈ ds, c.isDigit := by
    obtain ⟨k, hk, -⟩ := Option.map_eq_some_iff.mp hd
    exact parseDigits_mem (Option.filter_eq_some_iff.mp hk).1
  unfold parseI64Chars at h
  split at h
  · intro c hc
    exact (List.mem_cons.mp hc).imp_right fun hc => .inr (hfiltered h c hc)
  · intro c hc
    exact .inr ((List.mem_cons.mp hc).imp_right fun hc => hfiltered h c hc)
  · exact fun c hc => .inr (.inr (hfiltered h c hc))

theorem not_mem_of_parse {cs : Chars} {n : Int} {c : Char} (h : parseI64Chars cs = some n)
    (hc : c = ' ' ∨ c = ':') : c ∉ cs := by
  intro hmem
  rcases hc with rfl | rfl <;>
    rcases parseI64Chars_mem h _ hmem with hm | hm | hm <;> exact absurd hm (by decide)

theorem monthOf_spec {name : Chars} {m : Int} (h : monthOf name = some m) :
    name ∈ monthNames.map String.toList ∧ 1 ≤ m ∧ m ≤ 12 := by
  obtain ⟨i, hi, rfl⟩ := Option.map_eq_some_iff.mp h
  obtain ⟨hlt, hname, -⟩ := List.idxOf?_eq_some_iff.mp hi
  have hlength : i < 12 := hlt
  refine ⟨?_, by show (1 : Int) ≤ ((i + 1 : Nat) : Int); omega,
    by show ((i + 1 : Nat) : Int) ≤ 12; omega⟩
  refine List.mem_map.mpr ⟨String.ofList name, ?_, String.toList_ofList⟩
  exact hname ▸ List.getElem_mem hlt

/-! ## The texts of dates -/

namespace Parts

def time (p : Parts) : Chars := [':'].intercalate [p.hour, p.minute, p.second]

/-- A date without its zone. -/
def body (p : Parts) : Chars :=
  p.weekday ++ ", ".toList ++ [' '].intercalate [p.day, p.month, p.year, p.time]

def text (p : Parts) : Chars := p.body ++ " GMT".toList

/-- A date in any spelling: the weekday is what stands before the first comma and space, and
the numbers may have a sign and any number of digits. -/
structure Loose (p : Parts) (c : Civil) : Prop where
  weekday : ∀ before after, p.body = before ++ ", ".toList ++ after →
    p.weekday.length ≤ before.length
  day : parseI64Chars p.day = some c.day
  month : monthOf p.month = some c.month
  year : parseI64Chars p.year = some c.year
  hour : parseI64Chars p.hour = some c.hour
  minute : parseI64Chars p.minute = some c.minute
  second : parseI64Chars p.second = some c.second
  checked : c.Checked

theorem read_eq_some {p : Parts} {c : Civil} (h : p.read = some c) :
    parseI64Chars p.day = some c.day ∧ monthOf p.month = some c.month ∧
      parseI64Chars p.year = some c.year ∧ parseI64Chars p.hour = some c.hour ∧
      parseI64Chars p.minute = some c.minute ∧ parseI64Chars p.second = some c.second ∧
      c.Checked := by
  simp only [read, Option.bind_eq_bind, Option.bind_eq_some_iff] at h
  obtain ⟨day, hday, month, hmonth, year, hyear, hour, hhour, minute, hminute, second, hsecond,
    hite⟩ := h
  obtain ⟨hchecked, heq⟩ := Option.ite_none_right_eq_some.mp hite
  cases heq
  exact ⟨hday, hmonth, hyear, hhour, hminute, hsecond, hchecked⟩

variable {p : Parts} {c : Civil} {value : Chars}

theorem Loose.read (h : p.Loose c) : p.read = some c := by
  simp [Parts.read, h.day, h.month, h.year, h.hour, h.minute, h.second, h.checked]

theorem Loose.time_splitOn (h : p.Loose c) : p.time.splitOn ':' = [p.hour, p.minute, p.second] := by
  refine List.splitOn_intercalate ':' ?_ (List.cons_ne_nil _ _)
  simp [not_mem_of_parse h.hour (.inr rfl), not_mem_of_parse h.minute (.inr rfl),
    not_mem_of_parse h.second (.inr rfl)]

theorem Loose.not_mem_time (h : p.Loose c) : ' ' ∉ p.time := by
  intro hc
  rcases Text.mem_intercalate hc with hc | ⟨piece, hpiece, hc⟩
  · exact absurd hc (by decide)
  · simp only [List.mem_cons, List.not_mem_nil, or_false] at hpiece
    rcases hpiece with rfl | rfl | rfl
    · exact not_mem_of_parse h.hour (.inl rfl) hc
    · exact not_mem_of_parse h.minute (.inl rfl) hc
    · exact not_mem_of_parse h.second (.inl rfl) hc

theorem not_mem_month {name : Chars} {m : Int} (h : monthOf name = some m) : ' ' ∉ name := by
  have hall : ∀ name ∈ monthNames.map String.toList, ' ' ∉ name := by decide
  exact hall name (monthOf_spec h).1

theorem Loose.rest_splitOn (h : p.Loose c) :
    ([' '].intercalate [p.day, p.month, p.year, p.time]).splitOn ' ' =
      [p.day, p.month, p.year, p.time] := by
  refine List.splitOn_intercalate ' ' ?_ (List.cons_ne_nil _ _)
  simp [not_mem_of_parse h.day (.inl rfl), not_mem_month h.month,
    not_mem_of_parse h.year (.inl rfl), h.not_mem_time]

/-- The parser finds the parts of a date it accepts. -/
theorem Loose.split (h : p.Loose c) : Parts.split p.text = some p := by
  have hzone : p.text.dropSuffix? " GMT".toList = some p.body :=
    List.dropSuffix?_eq_some_iff.mpr ⟨_, rfl, beq_self_eq_true _⟩
  have hday : p.body.dropInfix? ", ".toList =
      some (p.weekday, [' '].intercalate [p.day, p.month, p.year, p.time]) := by
    refine List.dropInfix?_eq_some_iff.mpr ⟨⟨_, rfl, beq_self_eq_true _⟩, ?_⟩
    intro before sep after heq hsep
    rw [beq_iff_eq] at hsep
    exact h.weekday before after (hsep ▸ heq)
  simp only [Parts.split, hzone, hday, Option.bind_eq_bind, Option.bind_some, h.rest_splitOn,
    h.time_splitOn]

/-- What it finds are the parts of the text. -/
theorem text_of_split (h : Parts.split value = some p) : value = p.text ∧
    ∀ before after, p.body = before ++ ", ".toList ++ after →
      p.weekday.length ≤ before.length := by
  simp only [Parts.split, Option.bind_eq_bind, Option.bind_eq_some_iff] at h
  obtain ⟨body, hzone, ⟨weekday, rest⟩, hday, h⟩ := h
  obtain ⟨zone, rfl, hgmt⟩ := List.dropSuffix?_eq_some_iff.mp hzone
  obtain ⟨⟨sep, rfl, hsep⟩, hfirst⟩ := List.dropInfix?_eq_some_iff.mp hday
  rw [beq_iff_eq] at hgmt hsep
  subst hgmt hsep
  have hrest : [' '].intercalate (rest.splitOn ' ') = rest := List.intercalate_splitOn ' '
  dsimp only at h
  split at h
  · next day month year time heq =>
    rw [heq] at hrest
    have htime : [':'].intercalate (time.splitOn ':') = time := List.intercalate_splitOn ':'
    split at h
    · next hour minute second heq' =>
      rw [heq'] at htime
      cases h
      subst htime hrest
      refine ⟨rfl, fun before after hbody => ?_⟩
      exact hfirst before _ after hbody (beq_self_eq_true _)
    · cases h
  · cases h

/-- A date is accepted if and only if it is one in some spelling. -/
theorem parse_eq_some_iff :
    (Parts.split value).bind Parts.read = some c ↔ ∃ p : Parts, value = p.text ∧ p.Loose c := by
  constructor
  · intro h
    obtain ⟨p, hsplit, hread⟩ := Option.bind_eq_some_iff.mp h
    obtain ⟨htext, hfirst⟩ := text_of_split hsplit
    obtain ⟨hday, hmonth, hyear, hhour, hminute, hsecond, hchecked⟩ := read_eq_some hread
    exact ⟨p, htext, hfirst, hday, hmonth, hyear, hhour, hminute, hsecond, hchecked⟩
  · rintro ⟨p, rfl, h⟩
    rw [h.split, Option.bind_some, h.read]

def dayNames : List String := ["Mon", "Tue", "Wed", "Thu", "Fri", "Sat", "Sun"]

/-- The fixed-width form of a moment. -/
structure Strict (p : Parts) (t : Moment) : Prop where
  weekday : p.weekday ∈ dayNames.map String.toList
  day : Fixed 2 p.day t.day
  month : monthOf p.month = some (t.month : Int)
  year : Fixed 4 p.year t.year
  hour : Fixed 2 p.hour t.hour
  minute : Fixed 2 p.minute t.minute
  second : Fixed 2 p.second t.second

/-- A spelling in fixed width, with the name of a day, of a day that exists. -/
structure Careful (p : Parts) (c : Civil) : Prop where
  weekday : p.weekday ∈ dayNames.map String.toList
  day : p.day.length = 2 ∧ p.day.all Char.isDigit = true
  year : p.year.length = 4 ∧ p.year.all Char.isDigit = true
  hour : p.hour.length = 2 ∧ p.hour.all Char.isDigit = true
  minute : p.minute.length = 2 ∧ p.minute.all Char.isDigit = true
  second : p.second.length = 2 ∧ p.second.all Char.isDigit = true
  exists_day : c.day ≤ Calendar.daysInMonth c.year.toNat c.month.toNat

/-- No name of a day has a comma. -/
theorem first_comma {weekday rest before after : Chars} (h : ',' ∉ weekday)
    (heq : weekday ++ ", ".toList ++ rest = before ++ ", ".toList ++ after) :
    weekday.length ≤ before.length := by
  rw [List.append_assoc, List.append_assoc, List.append_eq_append_iff] at heq
  rcases heq with ⟨as, rfl, -⟩ | ⟨cs, rfl, hcs⟩
  · simp
  · cases cs with
    | nil => simp
    | cons c cs =>
      obtain rfl : ',' = c := (List.cons.inj hcs).1
      exact absurd (List.mem_append_right before List.mem_cons_self) h

variable {t : Moment}

theorem Strict.loose (h : p.Strict t) : p.Loose (civilOf t) where
  weekday before after heq := by
    have hall : ∀ name ∈ dayNames.map String.toList, ',' ∉ name := by decide
    exact first_comma (hall _ h.weekday) heq
  day := h.day.parse (by decide) (by decide)
  month := h.month
  year := h.year.parse (by decide) (by decide)
  hour := h.hour.parse (by decide) (by decide)
  minute := h.minute.parse (by decide) (by decide)
  second := h.second.parse (by decide) (by decide)
  checked := by
    have hday := t.day_mem.2.trans (Calendar.daysInMonth_le t.year t.month)
    have hpos := t.day_mem.1
    obtain ⟨hhour, hminute, hsecond⟩ := t.time_le
    show 1 ≤ (t.day : Int) ∧ (t.day : Int) ≤ 31 ∧ (t.hour : Int) ≤ 23 ∧ (t.minute : Int) ≤ 59 ∧
      (t.second : Int) ≤ 60
    omega

/-- A number of fixed width is read as what it stands for. -/
theorem fixed_of_parse {width : Nat} {cs : Chars} {n : Int} (h : parseI64Chars cs = some n)
    (hfixed : cs.length = width ∧ cs.all Char.isDigit = true) (hpos : 0 < width)
    (hwidth : width ≤ 18) : ∃ k : Nat, n = k ∧ Fixed width cs k := by
  have hk : Fixed width cs (Nat.ofDigitChars 10 cs 0) := ⟨hfixed.1, hfixed.2, rfl⟩
  have hparse := hk.parse hpos hwidth
  rw [h] at hparse
  exact ⟨_, Option.some.inj hparse, hk⟩

theorem Loose.strict (h : p.Loose c) (hc : p.Careful c) : ∃ t, c = civilOf t ∧ p.Strict t := by
  obtain ⟨day, hday, hday'⟩ := fixed_of_parse h.day hc.day (by decide) (by decide)
  obtain ⟨year, hyear, hyear'⟩ := fixed_of_parse h.year hc.year (by decide) (by decide)
  obtain ⟨hour, hhour, hhour'⟩ := fixed_of_parse h.hour hc.hour (by decide) (by decide)
  obtain ⟨minute, hminute, hminute'⟩ := fixed_of_parse h.minute hc.minute (by decide) (by decide)
  obtain ⟨second, hsecond, hsecond'⟩ := fixed_of_parse h.second hc.second (by decide) (by decide)
  obtain ⟨-, hlow, hhigh⟩ := monthOf_spec h.month
  obtain ⟨month, hmonth⟩ : ∃ month : Nat, c.month = month := ⟨c.month.toNat, by omega⟩
  obtain ⟨hfirst, -, htime⟩ := h.checked
  have hexists := hc.exists_day
  rw [hday, hyear, hmonth] at hexists
  have hmonth' := h.month
  obtain ⟨cy, cm, cd, ch, cmin, cs⟩ := c
  dsimp only at *
  subst hday hyear hhour hminute hsecond hmonth
  let t : Moment :=
    { year := year, month := month, day := day, hour := hour, minute := minute, second := second,
      month_mem := by omega,
      day_mem := by
        refine ⟨by omega, ?_⟩
        have hle : (day : Int) ≤ Calendar.daysInMonth year month := hexists
        omega,
      time_le := by omega }
  exact ⟨t, rfl, hc.weekday, hday', hmonth', hyear', hhour', hminute', hsecond'⟩

theorem Strict.careful (h : p.Strict t) : p.Careful (civilOf t) where
  weekday := h.weekday
  day := ⟨h.day.1, h.day.2.1⟩
  year := ⟨h.year.1, h.year.2.1⟩
  hour := ⟨h.hour.1, h.hour.2.1⟩
  minute := ⟨h.minute.1, h.minute.2.1⟩
  second := ⟨h.second.1, h.second.2.1⟩
  exists_day := Int.ofNat_le.mpr t.day_mem.2

theorem Strict.year_le (h : p.Strict t) : t.year ≤ 9999 := by
  obtain ⟨hlen, hall, hyear⟩ := h.year
  have hlt := ofDigitChars_lt (List.all_eq_true.mp hall)
  rw [hlen, hyear] at hlt
  omega

/-- Fixed-width dates have one length. -/
theorem Strict.length (h : p.Strict t) : p.text.length = 29 := by
  have hnames : ∀ name ∈ dayNames.map String.toList, name.length = 3 := by decide
  have hmonths : ∀ name ∈ monthNames.map String.toList, name.length = 3 := by decide
  have hweekday := hnames _ h.weekday
  have hmonth := hmonths _ (monthOf_spec h.month).1
  have hcomma : (", ".toList).length = 2 := rfl
  have hzone : (" GMT".toList).length = 4 := rfl
  simp only [text, body, time, List.length_append, List.intercalate_cons_cons,
    List.intercalate_singleton, List.length_cons, List.length_nil, hweekday, hmonth, h.day.1,
    h.year.1, h.hour.1, h.minute.1, h.second.1, hcomma, hzone]

theorem comma_mem_text (p : Parts) : ',' ∈ p.text := by
  simp [text, body]

/-- A date is no number. -/
theorem parseU64Chars_text (p : Parts) : parseU64Chars p.text = none := by
  cases h : parseU64Chars p.text with
  | none => rfl
  | some n =>
    rcases parseU64Chars_iff.mp h with hn | ⟨ds, hds, hn⟩
    · exact absurd (hn.isDigit ',' p.comma_mem_text) (by decide)
    · have hmem := p.comma_mem_text
      rw [hds] at hmem
      rcases List.mem_cons.mp hmem with hplus | hmem
      · exact absurd hplus (by decide)
      · exact absurd (hn.isDigit ',' hmem) (by decide)

end Parts

/-! ## What is read exactly -/

/-- An IMF-fixdate, of a day that exists. -/
def IsFixdate (text : Chars) (t : Moment) : Prop := ∃ p : Parts, text = p.text ∧ p.Strict t

/-- What parsing a value should be: nothing overflows, only numbers and fixed-width dates are
hints, and a date is a hint for the time that is left until then. -/
structure Exact (value : Chars) : Prop where
  no_overflow : ∀ clock, parseRetryAfter clock value ≠ .error .overflow
  accepts : ∀ clock delay, parseRetryAfter clock value = .ok (some delay) →
    (∃ n, Numeral (trim value) n) ∨ ∃ t, IsFixdate (trim value) t
  seconds : ∀ clock n, Numeral (trim value) n → parseRetryAfter clock value = .ok (some n)
  date : ∀ t, IsFixdate (trim value) t → 1970 ≤ t.year →
    parseImfFixdateUnix (trim value) = .ok (some t.unix) ∧
    ∀ clock now, SystemTime.sinceEpoch clock = some now →
      parseRetryAfter clock value = .ok (some (t.unix - now).toNat)

/-- A value in none of the looser spellings that are read as well. -/
structure Plain (value : Chars) : Prop where
  unsigned : ∀ ds n, trim value = '+' :: ds → ¬Numeral ds n
  careful : ∀ (p : Parts) c, trim value = p.text → p.Loose c → p.Careful c

variable {value : Chars} (clock : SystemTime)

theorem parseRetryAfter_number {n : Nat} (h : parseU64Chars (trim value) = some n) :
    parseRetryAfter clock value = .ok (some n) := by
  have hne : trim value ≠ [] := by
    intro hnil
    rw [hnil] at h
    cases h
  simp only [parseRetryAfter, if_neg hne, h]

theorem parseRetryAfter_date (h : parseU64Chars (trim value) = none) :
    parseRetryAfter clock value = parseRetryAfterDate clock (trim value) := by
  simp only [parseRetryAfter, h]
  split
  · next hnil =>
    rw [hnil]
    rfl
  · rfl

variable {clock}

theorem parseImfFixdateUnix_text {p : Parts} {c : Civil} (h : p.Loose c) :
    parseImfFixdateUnix p.text = (unixSeconds c).map some := by
  rw [parseImfFixdateUnix, Parts.parse_eq_some_iff.mpr ⟨p, rfl, h⟩]

theorem parseImfFixdateUnix_fixdate {p : Parts} {t : Moment} (h : p.Strict t) :
    parseImfFixdateUnix p.text = .ok (some t.unix) := by
  rw [parseImfFixdateUnix_text h.loose, unixSeconds_eq t h.year_le]
  rfl

theorem parseRetryAfterDate_some {target now : Int} {text : Chars}
    (h : parseImfFixdateUnix text = .ok (some target)) (hnow : clock.sinceEpoch = some now) :
    parseRetryAfterDate clock text = .ok (some (max (saturatingSub target now) 0).toNat) := by
  rw [parseRetryAfterDate, h, ok_bind]
  show Except.ok (clock.sinceEpoch.map _) = _
  rw [hnow]
  rfl

theorem sinceEpoch_bounds {now : Int} (h : clock.sinceEpoch = some now) :
    0 ≤ now ∧ now ≤ 2 ^ 63 - 1 := by
  obtain ⟨hpos, heq⟩ := Option.ite_none_right_eq_some.mp h
  cases heq
  exact ⟨hpos, clock.range.2⟩

/-- The hint of a date from the start of 1970 on does not saturate. -/
theorem toNat_saturatingSub {target now : Int} (htarget : 0 ≤ target ∧ target ≤ 2 ^ 62)
    (hnow : 0 ≤ now ∧ now ≤ 2 ^ 63 - 1) :
    (max (saturatingSub target now) 0).toNat = (target - now).toNat := by
  unfold saturatingSub
  omega

theorem unix_bounds {t : Moment} (h : 1970 ≤ t.year) (hy : t.year ≤ 9999) :
    0 ≤ t.unix ∧ t.unix ≤ 2 ^ 62 := by
  have hd := t.day_mem.2.trans (Calendar.daysInMonth_le t.year t.month)
  have hlt := Calendar.dayNumber_lt hy t.month_mem hd
  have hepoch := Calendar.dayNumber_epoch
  have hle := Calendar.dayNumber_first_le h t.month t.day
  obtain ⟨hhour, hminute, hsecond⟩ := t.time_le
  rw [Moment.unix, hepoch]
  omega

/-- The clock of a witness. -/
def epoch : SystemTime := { secs := 0, range := by decide }

theorem Exact.plain (h : Exact value) : Plain value := by
  refine ⟨fun ds n hds hn => ?_, fun p c htext hloose => ?_⟩
  · have hparse : parseU64Chars (trim value) = some n := parseU64Chars_iff.mpr (.inr ⟨ds, hds, hn⟩)
    rcases h.accepts epoch n (parseRetryAfter_number epoch hparse) with ⟨k, hk⟩ | ⟨t, p, htext, -⟩
    · exact not_numeral_plus (hds ▸ hk)
    · rw [htext, p.parseU64Chars_text] at hparse
      cases hparse
  · have hnone : parseU64Chars (trim value) = none := by rw [htext, p.parseU64Chars_text]
    have hunix := parseImfFixdateUnix_text hloose
    rw [← htext] at hunix
    have hdate := parseRetryAfter_date epoch hnone
    cases hseconds : unixSeconds c with
    | error e =>
      -- the arithmetic overflows
      rw [hseconds] at hunix
      refine absurd ?_ (h.no_overflow epoch)
      rw [hdate, parseRetryAfterDate, hunix]
      rfl
    | ok target =>
      -- the value is accepted, so that it is a fixed-width date, whose parts are the same
      rw [hseconds] at hunix
      have hnow : epoch.sinceEpoch = some 0 := rfl
      have haccept := hdate.trans (parseRetryAfterDate_some hunix hnow)
      rcases h.accepts epoch _ haccept with ⟨k, hk⟩ | ⟨t, p', htext', hstrict⟩
      · rw [parseU64Chars_iff.mpr (.inl hk)] at hnone
        cases hnone
      · have hsplit := hstrict.loose.split
        rw [← htext', htext, hloose.split] at hsplit
        obtain rfl : p = p' := Option.some.inj hsplit
        have hread := hstrict.loose.read
        rw [hloose.read] at hread
        exact Option.some.inj hread ▸ hstrict.careful

theorem Plain.exact (h : Plain value) : Exact value := by
  have hstrict (p : Parts) (c : Civil) (htext : trim value = p.text) (hloose : p.Loose c) :
      ∃ t, c = civilOf t ∧ p.Strict t := hloose.strict (h.careful p c htext hloose)
  -- a value that is no number is either a fixed-width date or refused
  have hdate (hnone : parseU64Chars (trim value) = none) :
      parseImfFixdateUnix (trim value) = .ok none ∨
      ∃ t, IsFixdate (trim value) t ∧ parseImfFixdateUnix (trim value) = .ok (some t.unix) := by
    cases hparse : (Parts.split (trim value)).bind Parts.read with
    | none =>
      rw [parseImfFixdateUnix, hparse]
      exact .inl rfl
    | some c =>
      obtain ⟨p, htext, hloose⟩ := Parts.parse_eq_some_iff.mp hparse
      obtain ⟨t, rfl, ht⟩ := hstrict p c htext hloose
      exact .inr ⟨t, ⟨p, htext, ht⟩, htext ▸ parseImfFixdateUnix_fixdate ht⟩
  constructor
  · intro clock hoverflow
    cases hnumber : parseU64Chars (trim value) with
    | some n =>
      rw [parseRetryAfter_number clock hnumber] at hoverflow
      cases hoverflow
    | none =>
      rw [parseRetryAfter_date clock hnumber, parseRetryAfterDate] at hoverflow
      rcases hdate hnumber with hunix | ⟨t, -, hunix⟩ <;> rw [hunix] at hoverflow <;>
        cases hoverflow
  · intro clock delay haccept
    cases hnumber : parseU64Chars (trim value) with
    | some n =>
      rcases parseU64Chars_iff.mp hnumber with hn | ⟨ds, hds, hn⟩
      · exact .inl ⟨n, hn⟩
      · exact absurd hn (h.unsigned ds n hds)
    | none =>
      rw [parseRetryAfter_date clock hnumber, parseRetryAfterDate] at haccept
      rcases hdate hnumber with hunix | ⟨t, ht, -⟩
      · rw [hunix] at haccept
        cases haccept
      · exact .inr ⟨t, ht⟩
  · exact fun clock n hn => parseRetryAfter_number clock (parseU64Chars_iff.mpr (.inl hn))
  · rintro t ⟨p, htext, ht⟩ hyear
    have hunix := parseImfFixdateUnix_fixdate ht
    rw [← htext] at hunix
    refine ⟨hunix, fun clock now hnow => ?_⟩
    have hnone : parseU64Chars (trim value) = none := by rw [htext, p.parseU64Chars_text]
    rw [parseRetryAfter_date clock hnone, parseRetryAfterDate_some hunix hnow,
      toNat_saturatingSub (unix_bounds hyear ht.year_le) (sinceEpoch_bounds hnow)]

/-- A value is read exactly if and only if it is in none of the looser spellings. -/
theorem retryAfter_exact_iff (value : Chars) : Exact value ↔ Plain value :=
  ⟨Exact.plain, Plain.exact⟩

/-- A date with one digit for its day and its hour. -/
def looseDate : Chars := "Sun, 6 Nov 1994 8:49:37 GMT".toList

/-- The shorter spelling of a date is read, and so not every value is read exactly. -/
theorem retryAfter_not_exact : ¬∀ value, Exact value := by
  intro hall
  have haccept : parseRetryAfter epoch looseDate = .ok (some 784111777) := by decide +kernel
  rcases (hall looseDate).accepts epoch _ haccept with ⟨n, hn⟩ | ⟨t, p, htext, ht⟩
  · have hcomma : ',' ∈ trim looseDate := by decide +kernel
    exact absurd (hn.isDigit ',' hcomma) (by decide)
  · have hlength := ht.length
    rw [← htext] at hlength
    exact absurd hlength (by decide +kernel)

end RetryAfter

end Uploader

end TusRs
