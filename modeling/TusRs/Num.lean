import Mathlib.Algebra.Ring.Int.Defs
import Mathlib.Algebra.Ring.Nat
import Mathlib.Data.List.Basic

/-!
# Bytes and 64-bit counters

Sizes and offsets of the program are `u64`. They are modelled as natural numbers with the
saturating and wrapping operations the code uses written out.
-/

namespace TusRs

abbrev Bytes := List UInt8

/-- `u64::MAX`. -/
def u64Max : Nat := 2 ^ 64 - 1

/-- `u64::saturating_add`. -/
def satAdd (a b : Nat) : Nat := min (a + b) u64Max

/-- `str::parse::<u64>` on the characters of a string: an optional plus sign and at least
one digit, in range. -/
def parseU64Chars (cs : List Char) : Option Nat :=
  let digits := match cs with
    | '+' :: ds => ds
    | ds => ds
  if digits ≠ [] ∧ digits.all Char.isDigit then
    (some (Nat.ofDigitChars 10 digits 0)).filter fun n => n ≤ u64Max
  else none

def parseU64 (s : String) : Option Nat := parseU64Chars s.toList

/-- `Uuid::simple`: 32 hexadecimal digits. -/
def uuidSimple (n : Nat) : List Char :=
  List.replicate (32 - (Nat.toDigits 16 n).length) '0' ++ Nat.toDigits 16 n

theorem satAdd_eq {a b : Nat} (h : a + b ≤ u64Max) : satAdd a b = a + b :=
  Nat.min_eq_left h

theorem satAdd_le_max (a b : Nat) : satAdd a b ≤ u64Max := Nat.min_le_right _ _

/-- A decimal numeral: one or more ASCII digits, for a number in range. -/
def Numeral (cs : List Char) (n : Nat) : Prop :=
  cs ≠ [] ∧ cs.all Char.isDigit = true ∧ Nat.ofDigitChars 10 cs 0 = n ∧ n ≤ u64Max

instance (cs : List Char) (n : Nat) : Decidable (Numeral cs n) :=
  inferInstanceAs (Decidable (_ ∧ _ ∧ _ ∧ _))

theorem Numeral.unique {cs : List Char} {n m : Nat} (hn : Numeral cs n) (hm : Numeral cs m) :
    n = m :=
  hn.2.2.1.symm.trans hm.2.2.1

theorem Numeral.isDigit {cs : List Char} {n : Nat} (h : Numeral cs n) : ∀ c ∈ cs, c.isDigit :=
  List.all_eq_true.mp h.2.1

/-- A sign is no digit. -/
theorem not_numeral_plus {ds : List Char} {n : Nat} : ¬Numeral ('+' :: ds) n := fun h =>
  absurd (h.isDigit '+' List.mem_cons_self) (by decide)

/-- The integer parser reads numerals, and numerals behind a plus sign. -/
theorem parseU64Chars_iff {cs : List Char} {n : Nat} :
    parseU64Chars cs = some n ↔ Numeral cs n ∨ ∃ ds, cs = '+' :: ds ∧ Numeral ds n := by
  have hdigits (ds : List Char) : (if ds ≠ [] ∧ ds.all Char.isDigit then
      (some (Nat.ofDigitChars 10 ds 0)).filter (fun n => n ≤ u64Max) else none) = some n ↔
      Numeral ds n := by
    rw [Option.ite_none_right_eq_some, Option.filter_eq_some_iff, Option.some.injEq,
      decide_eq_true_eq]
    constructor
    · rintro ⟨⟨hne, hall⟩, hn, hle⟩
      exact ⟨hne, hall, hn, hle⟩
    · rintro ⟨hne, hall, hn, hle⟩
      exact ⟨⟨hne, hall⟩, hn, hle⟩
  by_cases hplus : ∃ ds, cs = '+' :: ds
  · obtain ⟨ds, rfl⟩ := hplus
    refine (hdigits ds).trans ⟨fun h => .inr ⟨ds, rfl, h⟩, ?_⟩
    rintro (h | ⟨ds', hds, h⟩)
    · exact absurd h not_numeral_plus
    · exact (List.cons.inj hds).2 ▸ h
  · rw [parseU64Chars, hdigits]
    · exact ⟨.inl, fun h => h.elim id fun ⟨ds, hds, _⟩ => absurd ⟨ds, hds⟩ hplus⟩
    · exact fun ds hds => hplus ⟨ds, hds⟩

/-- The decimal text of a number in range is read back as that number. -/
theorem parseU64_le {s : String} {n : Nat} (h : parseU64 s = some n) : n ≤ u64Max := by
  rcases parseU64Chars_iff.mp h with h | ⟨ds, -, h⟩
  · exact h.2.2.2
  · exact h.2.2.2

theorem parseU64Chars_toDigits {n : Nat} (h : n ≤ u64Max) :
    parseU64Chars (Nat.toDigits 10 n) = some n := by
  have hdigit : ∀ c ∈ Nat.toDigits 10 n, c.isDigit := fun c hc =>
    Nat.isDigit_of_mem_toDigits (by decide) (by decide) hc
  have hplus : (match Nat.toDigits 10 n with
      | '+' :: ds => ds
      | ds => ds) = Nat.toDigits 10 n := by
    split
    · next ds hds =>
      have hc := hdigit '+' (by simp [hds])
      exact absurd hc (by decide)
    · rfl
  have hall : (Nat.toDigits 10 n).all Char.isDigit = true := List.all_eq_true.mpr hdigit
  simp only [parseU64Chars, hplus, hall, Nat.toDigits_ne_nil, ne_eq, not_false_eq_true,
    and_self, if_true, Nat.ofDigitChars_ten_toDigits]
  simp [h]

/-- What a number is written with. -/
theorem mem_toDigits {b n : Nat} {c : Char} (hb : 1 < b) (h : c ∈ Nat.toDigits b n) :
    ∃ d < b, c = d.digitChar := by
  induction n using Nat.strongRecOn with
  | _ n ih =>
    rw [Nat.toDigits_eq_if hb] at h
    split at h
    · next hn => exact ⟨n, hn, List.mem_singleton.mp h⟩
    · next hn =>
      rcases List.mem_append.mp h with h | h
      · exact ih _ (Nat.div_lt_self (by omega) hb) h
      · exact ⟨n % b, Nat.mod_lt n (by omega), List.mem_singleton.mp h⟩

theorem length_uuidSimple {n : Nat} (h : n < 2 ^ 128) : (uuidSimple n).length = 32 := by
  have hlen : (Nat.toDigits 16 n).length ≤ 32 :=
    (Nat.length_toDigits_le_iff (by decide) (by decide)).mpr h
  rw [uuidSimple, List.length_append, List.length_replicate]
  omega

theorem mem_uuidSimple {n : Nat} {c : Char} (h : c ∈ uuidSimple n) : ∃ d < 16, c = d.digitChar := by
  rcases List.mem_append.mp h with h | h
  · exact ⟨0, by decide, List.eq_of_mem_replicate h⟩
  · exact mem_toDigits (by decide) h

theorem isDigit_bounds {c : Char} (h : c.isDigit) : '0'.toNat ≤ c.toNat ∧ c.toNat < '0'.toNat + 10 := by
  simp only [Char.isDigit, ge_iff_le, Bool.and_eq_true, decide_eq_true_eq,
    UInt32.le_iff_toNat_le] at h
  exact ⟨h.1, Nat.lt_succ_of_le h.2⟩

/-- A digit string stands for a number below the power of its length. -/
theorem ofDigitChars_lt {l : List Char} (hl : ∀ c ∈ l, c.isDigit) :
    Nat.ofDigitChars 10 l 0 < 10 ^ l.length := by
  induction l with
  | nil => simp
  | cons c cs ih =>
    have hc := isDigit_bounds (hl c List.mem_cons_self)
    have hcs := ih fun d hd => hl d (List.mem_cons_of_mem c hd)
    have hpow : 10 ^ cs.length * (c.toNat - '0'.toNat) ≤ 10 ^ cs.length * 9 :=
      Nat.mul_le_mul_left _ (by omega)
    rw [Nat.ofDigitChars_cons, Nat.ofDigitChars_eq_ofDigitChars_zero, List.length_cons, Nat.pow_succ,
      Nat.mul_zero, Nat.zero_add]
    omega

/-- Digit strings of one length are ordered as the numbers they stand for. -/
theorem digits_lt {l m : List Char} (hl : ∀ c ∈ l, c.isDigit) (hm : ∀ c ∈ m, c.isDigit)
    (hlen : l.length = m.length)
    (h : Nat.ofDigitChars 10 l 0 < Nat.ofDigitChars 10 m 0) : l < m := by
  induction l generalizing m with
  | nil =>
    cases m with
    | nil => simp at h
    | cons d ds => simp at hlen
  | cons c cs ih =>
    cases m with
    | nil => simp at hlen
    | cons d ds =>
      have hlen' : cs.length = ds.length := by simpa using hlen
      have hc := isDigit_bounds (hl c List.mem_cons_self)
      have hd := isDigit_bounds (hm d List.mem_cons_self)
      have hcs := fun x hx => hl x (List.mem_cons_of_mem c hx)
      have hds := fun x hx => hm x (List.mem_cons_of_mem d hx)
      rw [Nat.ofDigitChars_cons, Nat.ofDigitChars_cons, Nat.ofDigitChars_eq_ofDigitChars_zero,
        Nat.ofDigitChars_eq_ofDigitChars_zero (l := ds), ← hlen'] at h
      rw [List.cons_lt_cons_iff]
      -- the first digits decide unless they are equal
      rcases Nat.lt_trichotomy c.toNat d.toNat with hlt | heq | hgt
      · exact .inl hlt
      · have hcd : c = d := Char.toNat_inj.mp heq
        subst hcd
        exact .inr ⟨rfl, ih hcs hds hlen' (by omega)⟩
      · have hbound := ofDigitChars_lt hds
        rw [← hlen'] at hbound
        have hstep : 10 ^ cs.length * (d.toNat - '0'.toNat) + 10 ^ cs.length ≤
            10 ^ cs.length * (c.toNat - '0'.toNat) := by
          rw [← Nat.mul_succ]
          exact Nat.mul_le_mul_left _ (by omega)
        simp only [Nat.mul_zero, Nat.zero_add] at h
        omega

end TusRs
