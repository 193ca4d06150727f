import Mathlib.Data.List.Basic

/-!
# Percent-encoding

Text in which some characters are written as the escaped bytes of their UTF-8 encoding. A
codec is a parameter of what uses one; `standard` is one that satisfies the laws.
-/

namespace Percent

/-- An encoder, with the ASCII characters it escapes, and a decoder to UTF-8 text. -/
structure Codec where
  encode : (Char → Bool) → String → String
  decode : String → Option String

/-- A character that is written as it is. -/
def Kept (escape : Char → Bool) (c : Char) : Prop := c.toNat < 128 ∧ escape c = false

instance (escape : Char → Bool) (c : Char) : Decidable (Kept escape c) :=
  inferInstanceAs (Decidable (_ ∧ _))

/-- The upper-case hexadecimal digits. -/
def hexDigits : List Char := "0123456789ABCDEF".toList

/-- What is relied on: decoding inverts an encoding that escapes the percent sign, the encoding
consists of kept characters and escapes, and changes exactly the texts with other characters. -/
structure Codec.Lawful (codec : Codec) : Prop where
  decode_encode : ∀ escape s, escape '%' = true → codec.decode (codec.encode escape s) = some s
  mem_encode : ∀ escape s, ∀ c ∈ (codec.encode escape s).toList,
    c = '%' ∨ c ∈ hexDigits ∨ Kept escape c
  encode_eq_self : ∀ escape s, codec.encode escape s = s ↔ ∀ c ∈ s.toList, Kept escape c

/-! ## The standard codec -/

def hexDigit (n : Nat) : Char := hexDigits.getD n '0'

def hexValue (c : Char) : Option Nat := hexDigits.idxOf? c.toUpper

def escapeByte (b : UInt8) : List Char :=
  ['%', hexDigit (b.toNat / 16), hexDigit (b.toNat % 16)]

def encodeChar (escape : Char → Bool) (c : Char) : List Char :=
  if Kept escape c then [c] else (String.utf8EncodeChar c).flatMap escapeByte

/-- The bytes of an encoded text; a percent sign that starts no escape stands for itself. -/
def decodeBytes : List Char → List UInt8
  | [] => []
  | [c] => String.utf8EncodeChar c
  | [c, d] => String.utf8EncodeChar c ++ String.utf8EncodeChar d
  | c :: high :: low :: rest =>
    match (if c = '%' then hexValue high else none), hexValue low with
    | some h, some l => UInt8.ofNat (h * 16 + l) :: decodeBytes rest
    | _, _ => String.utf8EncodeChar c ++ decodeBytes (high :: low :: rest)

def standard : Codec where
  encode escape s := String.ofList (s.toList.flatMap (encodeChar escape))
  decode s := String.fromUTF8? (decodeBytes s.toList).toByteArray

/-! ## Laws -/

theorem hexDigit_spec {n : Nat} (h : n < 16) :
    hexValue (hexDigit n) = some n ∧ hexDigit n ∈ hexDigits := by
  have hall : ∀ k : Fin 16, hexValue (hexDigit k) = some k.val ∧ hexDigit k ∈ hexDigits := by
    decide +kernel
  exact hall ⟨n, h⟩

theorem decodeBytes_escapeByte (b : UInt8) (rest : List Char) :
    decodeBytes (escapeByte b ++ rest) = b :: decodeBytes rest := by
  have hb := b.toNat_lt
  have hbyte : UInt8.ofNat (b.toNat / 16 * 16 + b.toNat % 16) = b := by
    rw [Nat.div_add_mod', UInt8.ofNat_toNat]
  show decodeBytes ('%' :: hexDigit (b.toNat / 16) :: hexDigit (b.toNat % 16) :: rest) = _
  rw [decodeBytes, if_pos rfl, (hexDigit_spec (by omega)).1, (hexDigit_spec (by omega)).1]
  dsimp only
  rw [hbyte]

theorem decodeBytes_escapeBytes (bytes : List UInt8) (rest : List Char) :
    decodeBytes (bytes.flatMap escapeByte ++ rest) = bytes ++ decodeBytes rest := by
  induction bytes with
  | nil => rfl
  | cons b bytes ih =>
    rw [List.flatMap_cons, List.append_assoc, decodeBytes_escapeByte, ih, List.cons_append]

/-- A character other than the percent sign is read as itself. -/
theorem decodeBytes_cons {c : Char} (hc : c ≠ '%') (rest : List Char) :
    decodeBytes (c :: rest) = String.utf8EncodeChar c ++ decodeBytes rest := by
  match rest with
  | [] => rw [decodeBytes, decodeBytes, List.append_nil]
  | [d] => rw [decodeBytes, decodeBytes]
  | high :: low :: rest => rw [decodeBytes, if_neg hc]

theorem decodeBytes_encodeChar {escape : Char → Bool} (hpercent : escape '%' = true) (c : Char)
    (rest : List Char) :
    decodeBytes (encodeChar escape c ++ rest) = String.utf8EncodeChar c ++ decodeBytes rest := by
  unfold encodeChar
  split
  · next hkept =>
    refine decodeBytes_cons ?_ rest
    rintro rfl
    rw [hkept.2] at hpercent
    cases hpercent
  · exact decodeBytes_escapeBytes _ rest

theorem decodeBytes_encode {escape : Char → Bool} (hpercent : escape '%' = true) (cs : List Char) :
    decodeBytes (cs.flatMap (encodeChar escape)) = cs.flatMap String.utf8EncodeChar := by
  induction cs with
  | nil => rfl
  | cons c cs ih => rw [List.flatMap_cons, decodeBytes_encodeChar hpercent, ih, List.flatMap_cons]

theorem fromUTF8?_encode (s : String) :
    String.fromUTF8? (s.toList.flatMap String.utf8EncodeChar).toByteArray = some s := by
  have hbytes : (s.toList.flatMap String.utf8EncodeChar).toByteArray = s.toByteArray := by
    rw [← List.utf8Encode, String.utf8Encode_toList]
  rw [hbytes, String.fromUTF8?, dif_pos s.isValidUTF8]
  exact congrArg some (String.toByteArray_inj.mp rfl)

theorem mem_encodeChar {escape : Char → Bool} {c d : Char} (h : d ∈ encodeChar escape c) :
    d = '%' ∨ d ∈ hexDigits ∨ Kept escape d := by
  unfold encodeChar at h
  split at h
  · next hkept =>
    rw [List.mem_singleton] at h
    exact .inr (.inr (h ▸ hkept))
  · obtain ⟨b, -, hd⟩ := List.mem_flatMap.mp h
    have hb := b.toNat_lt
    simp only [escapeByte, List.mem_cons, List.not_mem_nil, or_false] at hd
    rcases hd with rfl | rfl | rfl
    · exact .inl rfl
    · exact .inr (.inl (hexDigit_spec (by omega)).2)
    · exact .inr (.inl (hexDigit_spec (by omega)).2)

theorem length_encodeChar (escape : Char → Bool) (c : Char) :
    1 ≤ (encodeChar escape c).length ∧
      ((encodeChar escape c).length = 1 → Kept escape c) := by
  unfold encodeChar
  split
  · next hkept => exact ⟨Nat.le_refl 1, fun _ => hkept⟩
  · obtain ⟨b, bytes, hbytes⟩ := List.exists_cons_of_ne_nil (String.utf8EncodeChar_ne_nil (c := c))
    rw [hbytes, List.flatMap_cons, List.length_append]
    have hlen : (escapeByte b).length = 3 := rfl
    omega

theorem encode_length {escape : Char → Bool} (cs : List Char) :
    cs.length ≤ (cs.flatMap (encodeChar escape)).length ∧
      ((cs.flatMap (encodeChar escape)).length = cs.length → ∀ c ∈ cs, Kept escape c) := by
  induction cs with
  | nil => exact ⟨Nat.le_refl 0, fun _ c hc => nomatch hc⟩
  | cons c cs ih =>
    obtain ⟨hone, hkept⟩ := length_encodeChar escape c
    rw [List.flatMap_cons, List.length_append, List.length_cons]
    refine ⟨by omega, fun hlen d hd => ?_⟩
    rcases List.mem_cons.mp hd with rfl | hd
    · exact hkept (by omega)
    · exact ih.2 (by omega) d hd

theorem encode_eq_self {escape : Char → Bool} {cs : List Char} :
    cs.flatMap (encodeChar escape) = cs ↔ ∀ c ∈ cs, Kept escape c := by
  constructor
  · exact fun h => (encode_length cs).2 (congrArg List.length h)
  · intro h
    have hkept : cs.flatMap (encodeChar escape) = cs.flatMap fun c => [c] :=
      List.flatMap_congr fun c hc => if_pos (h c hc)
    rw [hkept, List.flatMap_singleton']

theorem standard_encode (escape : Char → Bool) (s : String) :
    (standard.encode escape s).toList = s.toList.flatMap (encodeChar escape) :=
  String.toList_ofList

theorem standard_decode (s : String) :
    standard.decode s = String.fromUTF8? (decodeBytes s.toList).toByteArray := rfl

theorem standard_lawful : standard.Lawful where
  decode_encode escape s hpercent := by
    rw [standard_decode, standard_encode, decodeBytes_encode hpercent, fromUTF8?_encode]
  mem_encode escape s c hc := by
    rw [standard_encode] at hc
    obtain ⟨d, -, hd⟩ := List.mem_flatMap.mp hc
    exact mem_encodeChar hd
  encode_eq_self escape s := by
    rw [← encode_eq_self, ← String.toList_inj, standard_encode]

end Percent
