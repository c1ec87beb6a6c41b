import Mathlib.Data.List.DropRight
import Silent.PathSegment

/-! What the standard library does with the text of a header field: `str::trim`, and
`str::parse::<f32>`. A parsed number is kept as the exact decimal that was written; of
the rounding only the answer to `== 0.0` is read. -/
namespace Silent.HeaderText
open ByteText PathSegment

def isWhitespace (c : Char) : Bool :=
  (9 ≤ c.toNat && c.toNat ≤ 13) || c.toNat = 32 || c.toNat = 0x85 || c.toNat = 0xA0 || c.toNat = 0x1680 ||
    (0x2000 ≤ c.toNat && c.toNat ≤ 0x200A) || c.toNat = 0x2028 || c.toNat = 0x2029 || c.toNat = 0x202F ||
    c.toNat = 0x205F || c.toNat = 0x3000

def trim (s : Text) : Text := (s.dropWhile isWhitespace).rdropWhile isWhitespace

def Tight (s : Text) : Prop := (∀ c ∈ s.head?, isWhitespace c = false) ∧ ∀ c ∈ s.getLast?, isWhitespace c = false

theorem tightOf {s : Text} (solid : ∀ c ∈ s, isWhitespace c = false) : Tight s :=
  ⟨fun c first => solid c (List.mem_of_mem_head? first), fun c last => solid c (List.mem_of_mem_getLast? last)⟩

theorem tightAppend {s t : Text} (front : s ≠ []) (back : t ≠ []) (left : Tight s) (right : Tight t) : Tight (s ++ t) := by
  refine ⟨fun c first => left.1 c ?_, fun c last => right.2 c ?_⟩
  · rwa [List.head?_append_of_ne_nil s front] at first
  · rwa [List.getLast?_append_of_ne_nil s back] at last

theorem dropTight {s : Text} (tight : Tight s) : s.dropWhile isWhitespace = s := by
  cases s with
  | nil => rfl
  | cons c s => rw [List.dropWhile_cons_of_neg (by simp [tight.1 c rfl])]

theorem rdropTight {s : Text} (tight : Tight s) : s.rdropWhile isWhitespace = s := by
  refine List.rdropWhile_eq_self_iff.mpr fun some_ => ?_
  simp [tight.2 _ (List.getLast?_eq_some_getLast some_)]

theorem rdropBlank (s : Text) {after : Text} (blank : ∀ c ∈ after, isWhitespace c = true) :
    (s ++ after).rdropWhile isWhitespace = s.rdropWhile isWhitespace := by
  induction after using List.reverseRecOn with
  | nil => rw [List.append_nil]
  | append_singleton after c ih =>
    rw [← List.append_assoc, List.rdropWhile_concat_pos _ _ _ (blank c (by simp))]
    exact ih fun d mem => blank d (List.mem_append_left _ mem)

theorem trimPadded {before s after : Text} (lead : ∀ c ∈ before, isWhitespace c = true)
    (tail : ∀ c ∈ after, isWhitespace c = true) (tight : Tight s) : trim (before ++ (s ++ after)) = s := by
  rw [trim, List.dropWhile_append_of_pos lead]
  cases s with
  | nil => rw [List.nil_append, List.dropWhile_eq_nil_iff.mpr tail, List.rdropWhile_nil]
  | cons c s =>
    have solid : isWhitespace c = false := tight.1 c rfl
    rw [List.cons_append, List.dropWhile_cons_of_neg (by simp [solid]), ← List.cons_append, rdropBlank _ tail,
      rdropTight tight]

theorem trimTight {s : Text} (tight : Tight s) : trim s = s := by
  rw [trim, dropTight tight, rdropTight tight]

-- `f32::from_str`; the sign is read and left out, since `-0.0 == 0.0`.

inductive Decimal where
  | nan
  | infinite
  | finite (digits : Nat) (exponent : Int)
  deriving DecidableEq, Repr

def isDigit (c : Char) : Bool := (digitValue c).isSome

def dropSign (s : Text) : Text :=
  match s with
  | '+' :: rest => rest
  | '-' :: rest => rest
  | _ => s

def parseExponent (s : Text) : Option Int :=
  if dropSign s = [] then none
  else (parseDigits 0 (dropSign s)).map (fun n => if s.head? = some '-' then -(n : Int) else n)

def parseNumber (s : Text) : Option Decimal := do
  let whole := s.takeWhile isDigit
  let rest := s.dropWhile isDigit
  let fraction := if rest.head? = some '.' then rest.tail.takeWhile isDigit else []
  let rest := if rest.head? = some '.' then rest.tail.dropWhile isDigit else rest
  if whole ++ fraction = [] then none
  else
    let digits ← parseDigits 0 (whole ++ fraction)
    let exponent ← match rest with
      | [] => some 0
      | c :: rest => if c.toLower = 'e' then parseExponent rest else none
    some (.finite digits (exponent - fraction.length))

def parseInfNan (s : Text) : Option Decimal :=
  if s.map Char.toLower = "nan".toList then some .nan
  else if s.map Char.toLower = "inf".toList ∨ s.map Char.toLower = "infinity".toList then some .infinite
  else none

def parseFloat (s : Text) : Option Decimal :=
  if dropSign s = [] then none else (parseNumber (dropSign s)).or (parseInfNan (dropSign s))

/- `== 0.0`: half of the smallest subnormal, 2^-150, and all below it round to zero. -/
def Decimal.isZero : Decimal → Bool
  | .finite digits exponent =>
      if 0 ≤ exponent then digits = 0 else digits * Nat.pow 2 150 ≤ Nat.pow 10 (-exponent).toNat
  | _ => false

theorem finiteIsZero (digits : Nat) {places : Nat} (short : places ≤ 40) :
    (Decimal.finite digits (0 - places)).isZero = decide (digits = 0) := by
  simp only [Decimal.isZero]
  split
  · rfl
  · have power : (-(0 - (places : Int))).toNat = places := by omega
    have below : Nat.pow 10 places < Nat.pow 2 150 :=
      Nat.lt_of_le_of_lt (Nat.pow_le_pow_right (by decide) short) (by decide)
    rw [power, decide_eq_decide]
    constructor
    · intro fits
      by_contra positive
      have more : 1 * Nat.pow 2 150 ≤ digits * Nat.pow 2 150 := Nat.mul_le_mul_right _ (Nat.pos_of_ne_zero positive)
      omega
    · intro zero
      rw [zero, Nat.zero_mul]
      exact Nat.zero_le _

end Silent.HeaderText
