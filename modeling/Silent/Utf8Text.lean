import Silent.ByteText

/-! Texts as UTF-8 bytes, and bytes read as text: strictly, or with U+FFFD in place of what
is broken. -/
namespace Silent.Utf8Text
open ByteText

def encode (text : Text) : List UInt8 := text.flatMap String.utf8EncodeChar

def decodeFront (bytes : List UInt8) : Option Char := bytes.toByteArray.utf8DecodeChar? 0

def continues (b : UInt8) : Bool := 0x80 ≤ b && b ≤ 0xBF

def secondFits (first second : UInt8) : Bool :=
  if first = 0xE0 then 0xA0 ≤ second && second ≤ 0xBF
  else if first = 0xED then 0x80 ≤ second && second ≤ 0x9F
  else if first = 0xF0 then 0x90 ≤ second && second ≤ 0xBF
  else if first = 0xF4 then 0x80 ≤ second && second ≤ 0x8F
  else continues second

-- The bytes one U+FFFD stands for: the longest start of a character, or one byte.
def brokenLength : List UInt8 → Nat
  | first :: second :: rest =>
      if 0xE0 ≤ first && first ≤ 0xF4 && secondFits first second then
        if 0xF0 ≤ first && rest.head?.any continues then 3 else 2
      else 1
  | _ => 1

def decodeWith : Nat → List UInt8 → Option Text
  | _, [] => some []
  | 0, _ :: _ => none
  | fuel + 1, b :: bytes => do
      let c ← decodeFront (b :: bytes)
      let text ← decodeWith fuel ((b :: bytes).drop c.utf8Size)
      some (c :: text)

def decode (bytes : List UInt8) : Option Text := decodeWith bytes.length bytes

def lossyWith : Nat → List UInt8 → Text
  | _, [] => []
  | 0, _ :: _ => []
  | fuel + 1, b :: bytes =>
      match decodeFront (b :: bytes) with
      | some c => c :: lossyWith fuel ((b :: bytes).drop c.utf8Size)
      | none => '\uFFFD' :: lossyWith fuel ((b :: bytes).drop (brokenLength (b :: bytes)))

def lossy (bytes : List UInt8) : Text := lossyWith bytes.length bytes

@[simp] theorem encodeNil : encode [] = [] := rfl

@[simp] theorem encodeCons (c : Char) (text : Text) : encode (c :: text) = String.utf8EncodeChar c ++ encode text :=
  List.flatMap_cons

@[simp] theorem encodeAppend (s t : Text) : encode (s ++ t) = encode s ++ encode t := List.flatMap_append

theorem decodeFrontChar (c : Char) (rest : List UInt8) : decodeFront (String.utf8EncodeChar c ++ rest) = some c := by
  rw [decodeFront, List.toByteArray_append]
  exact ByteArray.utf8DecodeChar?_utf8EncodeChar_append

theorem dropChar (c : Char) (rest : List UInt8) : (String.utf8EncodeChar c ++ rest).drop c.utf8Size = rest :=
  List.drop_left' (String.length_utf8EncodeChar c)

theorem charBytes (c : Char) : ∃ b bytes, String.utf8EncodeChar c = b :: bytes :=
  List.exists_cons_of_ne_nil (List.ne_nil_of_length_pos (String.length_utf8EncodeChar c ▸ c.utf8Size_pos))

theorem encodeLength (text : Text) : text.length ≤ (encode text).length := by
  induction text with
  | nil => exact Nat.le_refl 0
  | cons c text ih =>
    have positive := c.utf8Size_pos
    rw [encodeCons, List.length_append, List.length_cons, String.length_utf8EncodeChar]
    omega

theorem decodeWithEncode {fuel : Nat} {text : Text} (enough : text.length ≤ fuel) : decodeWith fuel (encode text) = some text := by
  induction text generalizing fuel with
  | nil => cases fuel <;> rfl
  | cons c text ih =>
    obtain ⟨b, bytes, first⟩ := charBytes c
    cases fuel with
    | zero => simp at enough
    | succ fuel =>
      have front := decodeFrontChar c (encode text)
      have behind := dropChar c (encode text)
      rw [first, List.cons_append] at front behind
      rw [encodeCons, first, List.cons_append, decodeWith, front]
      simp only [Option.bind_eq_bind, Option.bind_some, behind]
      rw [ih (Nat.le_of_succ_le_succ enough)]
      rfl

theorem decodeEncode (text : Text) : decode (encode text) = some text := decodeWithEncode (encodeLength text)

theorem lossyWithEncode {fuel : Nat} {text : Text} (enough : text.length ≤ fuel) : lossyWith fuel (encode text) = text := by
  induction text generalizing fuel with
  | nil => cases fuel <;> rfl
  | cons c text ih =>
    obtain ⟨b, bytes, first⟩ := charBytes c
    cases fuel with
    | zero => simp at enough
    | succ fuel =>
      have front := decodeFrontChar c (encode text)
      have behind := dropChar c (encode text)
      rw [first, List.cons_append] at front behind
      rw [encodeCons, first, List.cons_append, lossyWith, front]
      simp only [behind]
      rw [ih (Nat.le_of_succ_le_succ enough)]

theorem lossyEncode (text : Text) : lossy (encode text) = text := lossyWithEncode (encodeLength text)

theorem encodeInj {s t : Text} (same : encode s = encode t) : s = t := by
  have read := decodeEncode s
  rw [same, decodeEncode t] at read
  exact (Option.some.inj read).symm

theorem frontBytes {bytes : List UInt8} {c : Char} (front : decodeFront bytes = some c) :
    bytes = String.utf8EncodeChar c ++ bytes.drop c.utf8Size := by
  obtain ⟨rest, whole⟩ := ByteArray.exists_of_utf8DecodeChar?_eq_some front
  have kept : rest.data.toList.toByteArray = rest := ByteArray.ext (by rw [List.data_toByteArray])
  have same : bytes = String.utf8EncodeChar c ++ rest.data.toList := by
    apply List.toByteArray_inj.mp
    rw [whole, List.toByteArray_append, kept]
  rw [same, dropChar]

theorem decodeWithBytes {fuel : Nat} {bytes : List UInt8} {text : Text} (decoded : decodeWith fuel bytes = some text) :
    encode text = bytes := by
  induction fuel generalizing bytes text with
  | zero =>
    cases bytes with
    | nil =>
      cases decoded
      rfl
    | cons b bytes => cases decoded
  | succ fuel ih =>
    cases bytes with
    | nil =>
      cases decoded
      rfl
    | cons b bytes =>
      obtain ⟨c, front, more⟩ := Option.bind_eq_some_iff.mp decoded
      obtain ⟨text, later, same⟩ := Option.bind_eq_some_iff.mp more
      cases same
      rw [encodeCons, ih later]
      exact (frontBytes front).symm

theorem encodeDecoded {bytes : List UInt8} {text : Text} (decoded : decode bytes = some text) : encode text = bytes :=
  decodeWithBytes decoded

theorem decodeIff {bytes : List UInt8} {text : Text} : decode bytes = some text ↔ encode text = bytes :=
  ⟨encodeDecoded, fun same => same ▸ decodeEncode text⟩

theorem slashChar {c : Char} (among : (47 : UInt8) ∈ String.utf8EncodeChar c) : c = '/' := by
  have high {n : Nat} (above : 128 ≤ n) (below : n < 256) : (47 : UInt8) ≠ UInt8.ofNat n := fun same => by
    have values := congrArg UInt8.toNat same
    rw [UInt8.toNat_ofNat_of_lt' below] at values
    exact absurd above (by rw [← values]; decide)
  unfold String.utf8EncodeChar at among
  dsimp only at among
  split at among
  · rename_i small
    have values := congrArg UInt8.toNat (List.mem_singleton.mp among)
    rw [UInt8.toNat_ofNat_of_lt' (Nat.lt_of_le_of_lt small (by decide))] at values
    exact Char.ext (UInt32.toNat_inj.mp values.symm)
  · exfalso
    split at among
    · simp only [List.mem_cons, List.not_mem_nil, or_false] at among
      rcases among with same | same <;> exact high (by omega) (by omega) same
    · split at among
      · simp only [List.mem_cons, List.not_mem_nil, or_false] at among
        rcases among with same | same | same <;> exact high (by omega) (by omega) same
      · simp only [List.mem_cons, List.not_mem_nil, or_false] at among
        rcases among with same | same | same | same <;> exact high (by omega) (by omega) same

theorem encodeAround {text : Text} {x y : List UInt8} (whole : encode text = x ++ 47 :: y) :
    ∃ s t, text = s ++ '/' :: t ∧ encode s = x ∧ encode t = y := by
  induction text generalizing x with
  | nil => simp at whole
  | cons c text ih =>
    rw [encodeCons, List.append_eq_append_iff] at whole
    rcases whole with ⟨x', rfl, later⟩ | ⟨z, first, rest⟩
    · obtain ⟨s, t, rfl, left, right⟩ := ih later
      exact ⟨c :: s, t, rfl, by rw [encodeCons, left], right⟩
    · cases z with
      | nil =>
        rw [List.append_nil] at first
        obtain ⟨s, t, rfl, left, right⟩ := ih (x := []) rest.symm
        exact ⟨c :: s, t, rfl, by rw [encodeCons, left, first, List.append_nil], right⟩
      | cons b z =>
        obtain ⟨rfl, same⟩ := List.cons.inj rest
        have slash := slashChar (c := c) (by rw [first]; simp)
        subst slash
        have shape : String.utf8EncodeChar '/' = [47] := rfl
        rw [shape] at first
        cases x with
        | nil =>
          cases (List.cons.inj first).2
          exact ⟨[], text, rfl, rfl, same.symm⟩
        | cons a x => simp at first

theorem decodeAround (x y : List UInt8) :
    decode (x ++ 47 :: y) = (decode x).bind fun s => (decode y).map fun t => s ++ '/' :: t := by
  apply Option.ext
  intro text
  simp only [decodeIff, Option.bind_eq_some_iff, Option.map_eq_some_iff]
  constructor
  · intro whole
    obtain ⟨s, t, rfl, left, right⟩ := encodeAround whole
    exact ⟨s, left, t, right, rfl⟩
  · rintro ⟨s, rfl, t, rfl, rfl⟩
    rw [encodeAppend, encodeCons]
    rfl

end Silent.Utf8Text
