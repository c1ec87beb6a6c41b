import Silent.Utf8Text

/-! Percent-encoding of texts over their UTF-8 bytes, and decoding that leaves a percent
sign without two hexadecimal digits as it is. -/
namespace Silent.PercentCoding
open ByteText

def isAlphanumeric (b : UInt8) : Bool := 48 ≤ b && b ≤ 57 || 65 ≤ b && b ≤ 90 || 97 ≤ b && b ≤ 122

def unreserved (b : UInt8) : Bool := isAlphanumeric b || b = 45 || b = 46 || b = 95 || b = 126

def hexDigit (n : Nat) : Char := Char.ofNat (if n < 10 then 48 + n else 55 + n)

def encodeByte (b : UInt8) : Text :=
  if unreserved b then [Char.ofNat b.toNat] else ['%', hexDigit (b.toNat / 16), hexDigit (b.toNat % 16)]

def encode (text : Text) : Text := (Utf8Text.encode text).flatMap encodeByte

def fromHexDigit (b : UInt8) : Option Nat :=
  if 48 ≤ b && b ≤ 57 then some (b.toNat - 48)
  else if 65 ≤ b && b ≤ 70 then some (b.toNat - 55)
  else if 97 ≤ b && b ≤ 102 then some (b.toNat - 87)
  else none

def escaped : List UInt8 → Option UInt8
  | first :: second :: _ => do
      let high ← fromHexDigit first
      let low ← fromHexDigit second
      some (UInt8.ofNat (16 * high + low))
  | _ => none

-- `skip` counts the digits of an escape that was already read.
def decodeBytes : Nat → List UInt8 → List UInt8
  | _, [] => []
  | skip + 1, _ :: rest => decodeBytes skip rest
  | 0, b :: rest =>
      match if b = 37 then escaped rest else none with
      | some value => value :: decodeBytes 2 rest
      | none => b :: decodeBytes 0 rest

def decode (text : Text) : Option Text := Utf8Text.decode (decodeBytes 0 (Utf8Text.encode text))

theorem byteForms : ∀ n : Fin 256, Utf8Text.encode (encodeByte (UInt8.ofNat n.val)) =
    if unreserved (UInt8.ofNat n.val) then [UInt8.ofNat n.val]
    else [37, UInt8.ofNat (hexDigit (n.val / 16)).toNat, UInt8.ofNat (hexDigit (n.val % 16)).toNat] := by
  decide +kernel

theorem hexForms : ∀ n : Fin 16, fromHexDigit (UInt8.ofNat (hexDigit n.val).toNat) = some n.val := by decide +kernel

theorem encodedByte (b : UInt8) (rest : List UInt8) :
    decodeBytes 0 (Utf8Text.encode (encodeByte b) ++ rest) = b :: decodeBytes 0 rest := by
  have form := byteForms ⟨b.toNat, b.toNat_lt⟩
  simp only [UInt8.ofNat_toNat] at form
  rw [form]
  split
  · rename_i plain
    have other : b ≠ 37 := fun same => by subst same; cases plain
    simp [decodeBytes, other]
  · have small := b.toNat_lt
    have high := hexForms ⟨b.toNat / 16, by omega⟩
    have low := hexForms ⟨b.toNat % 16, by omega⟩
    have value : 16 * (b.toNat / 16) + b.toNat % 16 = b.toNat := Nat.div_add_mod ..
    simp only at high low
    simp only [List.cons_append, List.nil_append, decodeBytes, escaped, if_pos, high, low,
      Option.bind_eq_bind, Option.bind_some, value, UInt8.ofNat_toNat]

theorem decodeEncoded (bytes rest : List UInt8) :
    decodeBytes 0 (Utf8Text.encode (bytes.flatMap encodeByte) ++ rest) = bytes ++ decodeBytes 0 rest := by
  induction bytes with
  | nil => rfl
  | cons b bytes ih => rw [List.flatMap_cons, Utf8Text.encodeAppend, List.append_assoc, encodedByte, ih]; rfl

theorem decodeEncode (text : Text) : decode (encode text) = some text := by
  have read := decodeEncoded (Utf8Text.encode text) []
  rw [List.append_nil] at read
  rw [decode, encode, read, decodeBytes, List.append_nil, Utf8Text.decodeEncode]

def plain (c : Char) : Bool := c.isAlphanum || c = '-' || c = '.' || c = '_' || c = '~' || c = '%'

theorem byteChars : ∀ n : Fin 256, (encodeByte (UInt8.ofNat n.val)).all plain = true := by decide +kernel

theorem encodePlain (text : Text) : ∀ c ∈ encode text, plain c = true := by
  intro c among
  obtain ⟨b, _, there⟩ := List.mem_flatMap.mp among
  have chars := byteChars ⟨b.toNat, b.toNat_lt⟩
  simp only [UInt8.ofNat_toNat] at chars
  exact List.all_eq_true.mp chars c there

theorem escapedAround (x y : List UInt8) : escaped (x ++ 47 :: y) = escaped x := by
  have digitless : fromHexDigit 47 = none := rfl
  match x with
  | first :: second :: x => rfl
  | [first] => cases read : fromHexDigit first <;> simp [escaped, read, digitless]
  | [] => cases y <;> simp [escaped, digitless]

theorem escapedLength {x : List UInt8} {value : UInt8} (read : escaped x = some value) : 2 ≤ x.length := by
  match x with
  | first :: second :: x => simp
  | [first] => cases read
  | [] => cases read

theorem decodeBytesAround (skip : Nat) {x : List UInt8} (within : skip ≤ x.length) (y : List UInt8) :
    decodeBytes skip (x ++ 47 :: y) = decodeBytes skip x ++ 47 :: decodeBytes 0 y := by
  induction x generalizing skip with
  | nil =>
    cases Nat.le_zero.mp within
    rfl
  | cons b x ih =>
    cases skip with
    | succ skip => exact ih skip (Nat.le_of_succ_le_succ within)
    | zero =>
      have reaches : (if b = 37 then escaped (x ++ 47 :: y) else none) = if b = 37 then escaped x else none := by
        rw [escapedAround]
      rw [List.cons_append, decodeBytes, decodeBytes, reaches]
      cases read : if b = 37 then escaped x else none with
      | none => exact congrArg (b :: ·) (ih 0 (Nat.zero_le _))
      | some value =>
        have long : 2 ≤ x.length := by
          split at read
          · exact escapedLength read
          · cases read
        exact congrArg (value :: ·) (ih 2 long)

theorem decodeSlash (s t : Text) : decode (s ++ '/' :: t) = (decode s).bind fun a => (decode t).map fun b => a ++ '/' :: b := by
  have bytes : Utf8Text.encode (s ++ '/' :: t) = Utf8Text.encode s ++ 47 :: Utf8Text.encode t := by
    rw [Utf8Text.encodeAppend, Utf8Text.encodeCons]
    rfl
  rw [decode, bytes, decodeBytesAround 0 (Nat.zero_le _), Utf8Text.decodeAround]
  rfl

end Silent.PercentCoding
