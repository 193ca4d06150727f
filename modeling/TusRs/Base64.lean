import Mathlib.Data.List.Basic

/-!
# Base64

Byte strings as text in the standard alphabet, in groups of four characters for three
bytes, the last group padded. A codec is a parameter of what uses one; `standard` is one
that satisfies the laws.
-/

namespace Base64

/-- An encoder and a decoder; a refused text comes with a reason. -/
structure Codec where
  encode : List UInt8 → String
  decode : String → Except String (List UInt8)

def alphabet : List Char :=
  "ABCDEFGHIJKLMNOPQRSTUVWXYZabcdefghijklmnopqrstuvwxyz0123456789+/".toList

/-- What is relied on: decoding inverts encoding, no bytes are written as no text, and the
text holds nothing but the alphabet and padding. -/
structure Codec.Lawful (codec : Codec) : Prop where
  decode_encode : ∀ bytes, codec.decode (codec.encode bytes) = .ok bytes
  encode_nil : codec.encode [] = ""
  mem_encode : ∀ bytes, ∀ c ∈ (codec.encode bytes).toList, c ∈ alphabet ∨ c = '='

theorem Codec.Lawful.eq_nil {codec : Codec} (h : codec.Lawful) {bytes : List UInt8}
    (he : codec.encode bytes = "") : bytes = [] := by
  have hb := h.decode_encode bytes
  rw [he, ← h.encode_nil, h.decode_encode] at hb
  exact (Except.ok.inj hb).symm

/-! ## The standard codec -/

def digit (n : Nat) : Char := alphabet.getD n 'A'

def value (c : Char) : Option Nat := alphabet.idxOf? c

def encodeChars : List UInt8 → List Char
  | [] => []
  | [a] => [digit (a.toNat / 4), digit (a.toNat % 4 * 16), '=', '=']
  | [a, b] =>
    [digit (a.toNat / 4), digit (a.toNat % 4 * 16 + b.toNat / 16), digit (b.toNat % 16 * 4), '=']
  | a :: b :: c :: rest =>
    digit (a.toNat / 4) :: digit (a.toNat % 4 * 16 + b.toNat / 16) ::
      digit (b.toNat % 16 * 4 + c.toNat / 64) :: digit (c.toNat % 64) :: encodeChars rest

/-- The bytes of a padded group; bits that are left over must be zero. -/
def decodePadded (c₀ c₁ c₂ : Char) : Option (List UInt8) := do
  let x ← value c₀
  let y ← value c₁
  if c₂ = '=' then
    if y % 16 = 0 then some [UInt8.ofNat (x * 4 + y / 16)] else none
  else
    let z ← value c₂
    if z % 4 = 0 then
      some [UInt8.ofNat (x * 4 + y / 16), UInt8.ofNat (y % 16 * 16 + z / 4)]
    else none

def decodeChars : List Char → Option (List UInt8)
  | [] => some []
  | c₀ :: c₁ :: c₂ :: c₃ :: rest =>
    if c₃ = '=' ∧ rest = [] then decodePadded c₀ c₁ c₂
    else do
      let x ← value c₀
      let y ← value c₁
      let z ← value c₂
      let w ← value c₃
      let bytes ← decodeChars rest
      some (UInt8.ofNat (x * 4 + y / 16) :: UInt8.ofNat (y % 16 * 16 + z / 4) ::
        UInt8.ofNat (z % 4 * 64 + w) :: bytes)
  | _ => none

def standard : Codec where
  encode bytes := String.ofList (encodeChars bytes)
  decode text :=
    match decodeChars text.toList with
    | some bytes => .ok bytes
    | none => .error "not a standard encoding"

/-! ## Laws -/

theorem digit_spec {n : Nat} (h : n < 64) :
    value (digit n) = some n ∧ digit n ≠ '=' ∧ digit n ∈ alphabet := by
  have hall : ∀ k : Fin 64, value (digit k) = some k.val ∧ digit k ≠ '=' ∧ digit k ∈ alphabet := by
    decide +kernel
  exact hall ⟨n, h⟩

theorem decodePadded_two {x y : Nat} (hx : x < 64) (hy : y < 64) (hz : y % 16 = 0) :
    decodePadded (digit x) (digit y) '=' = some [UInt8.ofNat (x * 4 + y / 16)] := by
  rw [decodePadded, (digit_spec hx).1, (digit_spec hy).1, Option.bind_eq_bind, Option.bind_some,
    Option.bind_some, if_pos rfl]
  exact if_pos hz

theorem decodePadded_three {x y z : Nat} (hx : x < 64) (hy : y < 64) (hz : z < 64)
    (hlow : z % 4 = 0) :
    decodePadded (digit x) (digit y) (digit z) =
      some [UInt8.ofNat (x * 4 + y / 16), UInt8.ofNat (y % 16 * 16 + z / 4)] := by
  rw [decodePadded, (digit_spec hx).1, (digit_spec hy).1, Option.bind_eq_bind, Option.bind_some,
    Option.bind_some, if_neg (digit_spec hz).2.1, (digit_spec hz).1]
  exact if_pos hlow

theorem decodeChars_four {x y z w : Nat} {rest : List Char} {bytes : List UInt8}
    (hx : x < 64) (hy : y < 64) (hz : z < 64) (hw : w < 64) (hr : decodeChars rest = some bytes) :
    decodeChars (digit x :: digit y :: digit z :: digit w :: rest) =
      some (UInt8.ofNat (x * 4 + y / 16) :: UInt8.ofNat (y % 16 * 16 + z / 4) ::
        UInt8.ofNat (z % 4 * 64 + w) :: bytes) := by
  have hpad : ¬(digit w = '=' ∧ rest = []) := fun h => (digit_spec hw).2.1 h.1
  rw [decodeChars, if_neg hpad, (digit_spec hx).1, (digit_spec hy).1, (digit_spec hz).1,
    (digit_spec hw).1, hr]
  rfl

theorem ofNat_eq {a : UInt8} {n : Nat} (h : n = a.toNat) : UInt8.ofNat n = a := by
  rw [h, UInt8.ofNat_toNat]

theorem decodeChars_encodeChars (bytes : List UInt8) :
    decodeChars (encodeChars bytes) = some bytes := by
  fun_induction encodeChars bytes with
  | case1 => rfl
  | case2 a =>
    have ha := a.toNat_lt
    rw [decodeChars, if_pos ⟨rfl, rfl⟩, decodePadded_two (by omega) (by omega) (by omega)]
    rw [ofNat_eq (a := a) (by omega)]
  | case3 a b =>
    have ha := a.toNat_lt
    have hb := b.toNat_lt
    rw [decodeChars, if_pos ⟨rfl, rfl⟩,
      decodePadded_three (by omega) (by omega) (by omega) (by omega)]
    rw [ofNat_eq (a := a) (by omega), ofNat_eq (a := b) (by omega)]
  | case4 a b c rest ih =>
    have ha := a.toNat_lt
    have hb := b.toNat_lt
    have hc := c.toNat_lt
    rw [decodeChars_four (by omega) (by omega) (by omega) (by omega) ih]
    rw [ofNat_eq (a := a) (by omega), ofNat_eq (a := b) (by omega), ofNat_eq (a := c) (by omega)]

theorem mem_encodeChars {bytes : List UInt8} {c : Char} (h : c ∈ encodeChars bytes) :
    c ∈ alphabet ∨ c = '=' := by
  fun_induction encodeChars bytes with
  | case1 => cases h
  | case2 a =>
    have ha := a.toNat_lt
    simp only [List.mem_cons, List.not_mem_nil, or_false, or_self] at h
    rcases h with rfl | rfl | rfl
    · exact .inl (digit_spec (by omega)).2.2
    · exact .inl (digit_spec (by omega)).2.2
    · exact .inr rfl
  | case3 a b =>
    have ha := a.toNat_lt
    have hb := b.toNat_lt
    simp only [List.mem_cons, List.not_mem_nil, or_false] at h
    rcases h with rfl | rfl | rfl | rfl
    · exact .inl (digit_spec (by omega)).2.2
    · exact .inl (digit_spec (by omega)).2.2
    · exact .inl (digit_spec (by omega)).2.2
    · exact .inr rfl
  | case4 a b d rest ih =>
    have ha := a.toNat_lt
    have hb := b.toNat_lt
    have hd := d.toNat_lt
    simp only [List.mem_cons] at h
    rcases h with rfl | rfl | rfl | rfl | h
    · exact .inl (digit_spec (by omega)).2.2
    · exact .inl (digit_spec (by omega)).2.2
    · exact .inl (digit_spec (by omega)).2.2
    · exact .inl (digit_spec (by omega)).2.2
    · exact ih h

theorem standard_lawful : standard.Lawful where
  decode_encode bytes := by
    show (match decodeChars (String.ofList (encodeChars bytes)).toList with
      | some bytes => Except.ok bytes
      | none => Except.error "not a standard encoding") = Except.ok bytes
    rw [String.toList_ofList, decodeChars_encodeChars]
  encode_nil := rfl
  mem_encode bytes c hc := by
    rw [standard, String.toList_ofList] at hc
    exact mem_encodeChars hc

end Base64
