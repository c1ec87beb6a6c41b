import Silent.ByteText
import Silent.Numerals

/-! Internet addresses as text, as the standard library prints and reads them: numbers, the
four octets, the eight groups with the longest run of zeros left out, and sockets. Whatever
is printed is read back as it was. -/
namespace Silent.NetText
open ByteText Numerals

def toDigit (radix : Nat) (c : Char) : Option Nat :=
  let value :=
    if '0' ≤ c ∧ c ≤ '9' then some (c.toNat - 48)
    else if 'a' ≤ c ∧ c ≤ 'z' then some (c.toNat - 87)
    else if 'A' ≤ c ∧ c ≤ 'Z' then some (c.toNat - 55)
    else none
  value.filter (· < radix)

def isDigit (radix : Nat) (c : Char) : Bool := (toDigit radix c).isSome

def numberOf (radix : Nat) (digits : Text) : Nat := digits.foldl (fun value c => value * radix + (toDigit radix c).getD 0) 0

-- `Parser::read_number`; all digits are taken, and too many of them are an error.
def readNumber (radix : Nat) (maxDigits : Option Nat) (zeroPrefix : Bool) (bound : Nat) (s : Text) : Option (Fin bound × Text) :=
  let digits := s.takeWhile (isDigit radix)
  if digits = [] then none
  else if maxDigits.any (· < digits.length) then none
  else if zeroPrefix = false ∧ digits.head? = some '0' ∧ 1 < digits.length then none
  else if small : numberOf radix digits < bound then some (⟨numberOf radix digits, small⟩, s.dropWhile (isDigit radix))
  else none

def readChar (c : Char) : Text → Option Text
  | [] => none
  | x :: s => if x = c then some s else none

structure Ipv4Addr where
  a : Fin 256
  b : Fin 256
  c : Fin 256
  d : Fin 256
  deriving DecidableEq

@[ext]
structure Ipv6Addr where
  segments : List (Fin 65536)
  eight : segments.length = 8
  deriving DecidableEq

def readOctet : Text → Option (Fin 256 × Text) := readNumber 10 (some 3) false 256

def readIpv4Addr (s : Text) : Option (Ipv4Addr × Text) := do
  let (a, s) ← readOctet s
  let s ← readChar '.' s
  let (b, s) ← readOctet s
  let s ← readChar '.' s
  let (c, s) ← readOctet s
  let s ← readChar '.' s
  let (d, s) ← readOctet s
  some (⟨a, b, c, d⟩, s)

def Ipv4Addr.high (ip : Ipv4Addr) : Fin 65536 := ⟨ip.a * 256 + ip.b, by omega⟩
def Ipv4Addr.low (ip : Ipv4Addr) : Fin 65536 := ⟨ip.c * 256 + ip.d, by omega⟩

def readSeparated {X : Type} (first : Bool) (read : Text → Option (X × Text)) (s : Text) : Option (X × Text) :=
  if first then read s else (readChar ':' s).bind read

def readGroup : Text → Option (Fin 65536 × Text) := readNumber 16 (some 4) true 65536

structure Groups where
  segments : List (Fin 65536)
  embedded : Bool
  rest : Text

def readGroups : Nat → Bool → Text → Groups
  | 0, _, s => ⟨[], false, s⟩
  | left + 1, first, s =>
      match if 1 ≤ left then readSeparated first readIpv4Addr s else none with
      | some (ip, rest) => ⟨[ip.high, ip.low], true, rest⟩
      | none =>
          match readSeparated first readGroup s with
          | some (group, rest) =>
              let later := readGroups left false rest
              ⟨group :: later.segments, later.embedded, later.rest⟩
          | none => ⟨[], false, s⟩

theorem readGroupsLength (left : Nat) (first : Bool) (s : Text) : (readGroups left first s).segments.length ≤ left := by
  induction left generalizing first s with
  | zero => exact Nat.le_refl 0
  | succ left ih =>
    unfold readGroups
    split
    · rename_i ip rest read
      split at read
      · exact Nat.succ_le_succ ‹_›
      · cases read
    · split
      · exact Nat.succ_le_succ (ih _ _)
      · exact Nat.zero_le _

def Ipv6Addr.around (front back : List (Fin 65536)) (fits : front.length + back.length ≤ 8) : Ipv6Addr :=
  ⟨front ++ (List.replicate (8 - front.length - back.length) 0 ++ back), by simp; omega⟩

theorem tailFits {text s : Text} (short : (readGroups 8 true text).segments.length ≠ 8) :
    (readGroups 8 true text).segments.length +
      (readGroups (8 - ((readGroups 8 true text).segments.length + 1)) true s).segments.length ≤ 8 := by
  have front := Nat.lt_of_le_of_ne (readGroupsLength 8 true text) short
  have back := readGroupsLength (8 - ((readGroups 8 true text).segments.length + 1)) true s
  omega

def readIpv6Addr (text : Text) : Option (Ipv6Addr × Text) :=
  let head := readGroups 8 true text
  if whole : head.segments.length = 8 then some (⟨head.segments, whole⟩, head.rest)
  else if head.embedded then none
  else do
    let s ← readChar ':' head.rest
    let s ← readChar ':' s
    let tail := readGroups (8 - (head.segments.length + 1)) true s
    some (.around head.segments tail.segments (tailFits whole), tail.rest)

def complete {X : Type} : Option (X × Text) → Option X
  | some (x, []) => some x
  | _ => none

def parseIpv4Addr (s : Text) : Option Ipv4Addr := if 15 < s.length then none else complete (readIpv4Addr s)

def parseIpv6Addr (s : Text) : Option Ipv6Addr := complete (readIpv6Addr s)

structure SocketAddrV4 where
  ip : Ipv4Addr
  port : Fin 65536
  deriving DecidableEq

structure SocketAddrV6 where
  ip : Ipv6Addr
  port : Fin 65536
  flowinfo : Fin 4294967296
  scopeId : Fin 4294967296
  deriving DecidableEq

inductive SocketAddr where
  | v4 (addr : SocketAddrV4)
  | v6 (addr : SocketAddrV6)
  deriving DecidableEq

def readPort (s : Text) : Option (Fin 65536 × Text) := do
  let s ← readChar ':' s
  readNumber 10 none true 65536 s

def readScopeId (s : Text) : Option (Fin 4294967296 × Text) := do
  let s ← readChar '%' s
  readNumber 10 none true 4294967296 s

def readSocketAddrV4 (s : Text) : Option (SocketAddrV4 × Text) := do
  let (ip, s) ← readIpv4Addr s
  let (port, s) ← readPort s
  some (⟨ip, port⟩, s)

def readSocketAddrV6 (s : Text) : Option (SocketAddrV6 × Text) := do
  let s ← readChar '[' s
  let (ip, s) ← readIpv6Addr s
  let (scopeId, s) := (readScopeId s).getD (0, s)
  let s ← readChar ']' s
  let (port, s) ← readPort s
  some (⟨ip, port, 0, scopeId⟩, s)

def readSocketAddr (s : Text) : Option (SocketAddr × Text) :=
  match readSocketAddrV4 s with
  | some (addr, rest) => some (.v4 addr, rest)
  | none => (readSocketAddrV6 s).map fun (addr, rest) => (.v6 addr, rest)

def parseSocketAddr (s : Text) : Option SocketAddr := complete (readSocketAddr s)

def decimal (n : Nat) : Text := Nat.toDigits 10 n
def hexadecimal (n : Nat) : Text := Nat.toDigits 16 n

def showIpv4 (ip : Ipv4Addr) : Text :=
  decimal ip.a ++ '.' :: (decimal ip.b ++ '.' :: (decimal ip.c ++ '.' :: decimal ip.d))

def laterGroups (groups : List (Fin 65536)) : Text := groups.flatMap fun group : Fin 65536 => ':' :: hexadecimal group

def showGroups : List (Fin 65536) → Text
  | [] => []
  | first :: tail => hexadecimal first ++ laterGroups tail

structure Span where
  start : Nat
  len : Nat

def longestFrom (longest current : Span) : Nat → List (Fin 65536) → Span
  | _, [] => longest
  | i, segment :: rest =>
      if segment = 0 then
        let current := ⟨if current.len = 0 then i else current.start, current.len + 1⟩
        longestFrom (if longest.len < current.len then current else longest) current (i + 1) rest
      else longestFrom longest ⟨0, 0⟩ (i + 1) rest

def zeroes (segments : List (Fin 65536)) : Span := longestFrom ⟨0, 0⟩ ⟨0, 0⟩ 0 segments

def octets (segment : Fin 65536) : Fin 256 × Fin 256 := (⟨segment / 256, by omega⟩, ⟨segment % 256, by omega⟩)

def Ipv6Addr.toIpv4Mapped (ip : Ipv6Addr) : Option Ipv4Addr :=
  if ip.segments.take 6 = [0, 0, 0, 0, 0, 65535] then
    match ip.segments.drop 6 with
    | [high, low] => some ⟨(octets high).1, (octets high).2, (octets low).1, (octets low).2⟩
    | _ => none
  else none

def showIpv6 (ip : Ipv6Addr) : Text :=
  match ip.toIpv4Mapped with
  | some mapped => "::ffff:".toList ++ showIpv4 mapped
  | none =>
      let run := zeroes ip.segments
      if 1 < run.len then showGroups (ip.segments.take run.start) ++ "::".toList ++ showGroups (ip.segments.drop (run.start + run.len))
      else showGroups ip.segments

def showSocketAddr : SocketAddr → Text
  | .v4 addr => showIpv4 addr.ip ++ ':' :: decimal addr.port
  | .v6 addr =>
      '[' :: (showIpv6 addr.ip ++ ((if addr.scopeId = 0 then [] else '%' :: decimal addr.scopeId) ++ ']' :: ':' :: decimal addr.port))

theorem toDigitShown {radix d : Nat} (small : d < radix) (narrow : radix ≤ 16) : toDigit radix d.digitChar = some d := by
  have value : ∀ d < 16, (if '0' ≤ d.digitChar ∧ d.digitChar ≤ '9' then some (d.digitChar.toNat - 48)
      else if 'a' ≤ d.digitChar ∧ d.digitChar ≤ 'z' then some (d.digitChar.toNat - 87)
      else if 'A' ≤ d.digitChar ∧ d.digitChar ≤ 'Z' then some (d.digitChar.toNat - 55) else none) = some d := by decide
  unfold toDigit
  simp only [value d (Nat.lt_of_lt_of_le small narrow), Option.filter_some, small, decide_true, if_true]

theorem shownDigits {radix : Nat} (wide : 1 < radix) (narrow : radix ≤ 16) (n : Nat) :
    ∀ c ∈ Nat.toDigits radix n, isDigit radix c = true := by
  induction n using Nat.strongRecOn with
  | ind n ih =>
    intro c among
    rw [Nat.toDigits_eq_if wide] at among
    split at among
    · rw [List.mem_singleton] at among
      rw [among, isDigit, toDigitShown ‹_› narrow]
      rfl
    · rcases List.mem_append.mp among with front | last
      · exact ih _ (Nat.div_lt_self (by omega) wide) c front
      · rw [List.mem_singleton] at last
        rw [last, isDigit, toDigitShown (Nat.mod_lt n (by omega)) narrow]
        rfl

theorem numberShown {radix : Nat} (wide : 1 < radix) (narrow : radix ≤ 16) (n : Nat) :
    numberOf radix (Nat.toDigits radix n) = n := by
  induction n using Nat.strongRecOn with
  | ind n ih =>
    rw [Nat.toDigits_eq_if wide]
    split
    · simp [numberOf, toDigitShown ‹_› narrow]
    · have front := ih _ (Nat.div_lt_self (by omega : 0 < n) wide)
      unfold numberOf at front ⊢
      rw [List.foldl_append, front, List.foldl_cons, List.foldl_nil, toDigitShown (Nat.mod_lt n (by omega)) narrow,
        Option.getD_some, Nat.mul_comm, Nat.div_add_mod]

def Undigited (radix : Nat) (s : Text) : Prop := ∀ c ∈ s.head?, isDigit radix c = false

theorem takeDigits {radix : Nat} {digits rest : Text} (all : ∀ c ∈ digits, isDigit radix c = true) (stops : Undigited radix rest) :
    (digits ++ rest).takeWhile (isDigit radix) = digits ∧ (digits ++ rest).dropWhile (isDigit radix) = rest := by
  rw [List.takeWhile_append_of_pos all, List.dropWhile_append_of_pos all]
  cases rest with
  | nil => simp
  | cons c rest =>
    have stop : isDigit radix c = false := stops c rfl
    simp [stop]

theorem readNumberShown {radix : Nat} (wide : 1 < radix) (narrow : radix ≤ 16) {maxDigits : Option Nat} {zeroPrefix : Bool}
    {bound : Nat} (n : Fin bound) {rest : Text} (fits : ∀ most ∈ maxDigits, 0 < most ∧ n < radix ^ most)
    (stops : Undigited radix rest) :
    readNumber radix maxDigits zeroPrefix bound (Nat.toDigits radix n ++ rest) = some (n, rest) := by
  obtain ⟨taken, left⟩ := takeDigits (shownDigits wide narrow n) stops
  have few : maxDigits.any (fun most => decide (most < (Nat.toDigits radix n).length)) = false := by
    cases maxDigits with
    | none => rfl
    | some most =>
      obtain ⟨positive, small⟩ := fits most rfl
      simpa using (Nat.length_toDigits_le_iff wide positive).mpr small
  have lead : ¬(zeroPrefix = false ∧ (Nat.toDigits radix n).head? = some '0' ∧ 1 < (Nat.toDigits radix n).length) := by
    rintro ⟨_, zero, long⟩
    rcases Nat.eq_zero_or_pos n.val with none_ | positive
    · rw [none_, Nat.toDigits_zero] at long
      exact absurd long (by decide)
    · exact noLeadingZero wide n positive zero
  unfold readNumber
  simp only [taken, left, Nat.toDigits_ne_nil, if_false, few, Bool.false_eq_true, lead, numberShown wide narrow, n.isLt, dite_true]

theorem undigitedNil {radix : Nat} : Undigited radix [] := fun c never => by cases never

theorem readCountShown {bound : Nat} (n : Fin bound) {rest : Text} (stops : Undigited 10 rest) :
    readNumber 10 none true bound (decimal n ++ rest) = some (n, rest) :=
  readNumberShown (by decide) (by decide) n (fun most never => by cases never) stops

@[simp] theorem readCharSame (c : Char) (s : Text) : readChar c (c :: s) = some s := if_pos rfl

theorem readCharOther {c : Char} {s : Text} (other : s.head? ≠ some c) : readChar c s = none := by
  cases s with
  | nil => rfl
  | cons x s => exact if_neg fun same => other (congrArg some same)

theorem undigitedCons {radix : Nat} {c : Char} (stop : isDigit radix c = false) (s : Text) : Undigited radix (c :: s) := by
  intro d first
  cases first
  exact stop

theorem readOctetShown (n : Fin 256) {rest : Text} (stops : Undigited 10 rest) :
    readOctet (decimal n ++ rest) = some (n, rest) := by
  refine readNumberShown (by decide) (by decide) n (fun most three => ?_) stops
  cases three
  exact ⟨by decide, by have := n.isLt; omega⟩

theorem readIpv4Shown (ip : Ipv4Addr) {rest : Text} (stops : Undigited 10 rest) :
    readIpv4Addr (showIpv4 ip ++ rest) = some (ip, rest) := by
  have dot : ∀ s : Text, Undigited 10 ('.' :: s) := undigitedCons (by decide)
  unfold readIpv4Addr showIpv4
  simp only [List.append_assoc, List.cons_append, readOctetShown _ (dot _), readOctetShown _ stops, readCharSame, bind,
    Option.bind_some]

theorem readOctetRest {s : Text} {n : Fin 256} {rest : Text} (read : readOctet s = some (n, rest)) :
    rest = s.dropWhile (isDigit 10) := by
  unfold readOctet readNumber at read
  dsimp only at read
  split at read
  · cases read
  · split at read
    · cases read
    · split at read
      · cases read
      · split at read
        · cases read
          rfl
        · cases read

theorem readIpv4Undotted {s : Text} (undotted : (s.dropWhile (isDigit 10)).head? ≠ some '.') : readIpv4Addr s = none := by
  unfold readIpv4Addr
  cases read : readOctet s with
  | none => rfl
  | some first =>
    obtain ⟨a, rest⟩ := first
    rw [← readOctetRest read] at undotted
    simp only [bind, Option.bind_some, readCharOther undotted, Option.bind_none]

theorem dropDigitsHead {radix : Nat} {s : Text} {c : Char} (next : (s.dropWhile (isDigit radix)).head? = some c) : c ∈ s :=
  (List.dropWhile_suffix _).subset (List.mem_of_mem_head? next)

theorem readGroupShown (g : Fin 65536) {rest : Text} (stops : Undigited 16 rest) :
    readGroup (hexadecimal g ++ rest) = some (g, rest) := by
  refine readNumberShown (by decide) (by decide) g (fun most four => ?_) stops
  cases four
  exact ⟨by decide, by have := g.isLt; omega⟩

theorem readGroupUndigited {s : Text} (stops : Undigited 16 s) : readGroup s = none := by
  have taken : s.takeWhile (isDigit 16) = [] := by
    cases s with
    | nil => rfl
    | cons c s => rw [List.takeWhile_cons_of_neg (by simp [stops c rfl])]
  unfold readGroup readNumber
  simp only [taken, if_true]

theorem decimalDigit {c : Char} (digit : isDigit 10 c = true) : isDigit 16 c = true := by
  unfold isDigit toDigit at digit ⊢
  generalize (if '0' ≤ c ∧ c ≤ '9' then some (c.toNat - 48) else _) = value at digit ⊢
  cases value with
  | none => exact digit
  | some v =>
    simp only [Option.isSome_filter, Option.any_some, decide_eq_true_eq] at digit ⊢
    omega

theorem undigitedDecimal {s : Text} (stops : Undigited 16 s) : Undigited 10 s := fun c first =>
  Bool.eq_false_iff.mpr fun digit => Bool.eq_false_iff.mp (stops c first) (decimalDigit digit)

/-- The text ends the groups before it: no digit follows, no dot, and a colon only before another. -/
structure Closes (s : Text) : Prop where
  undigited : Undigited 16 s
  undotted : s.head? ≠ some '.'
  colon : ∀ rest, s = ':' :: rest → rest.head? = some ':'

theorem undottedGroup (g : Fin 65536) {rest : Text} (stops : Undigited 16 rest) (undotted : rest.head? ≠ some '.') :
    readIpv4Addr (hexadecimal g ++ rest) = none := by
  have all : ∀ c ∈ hexadecimal g, isDigit 16 c = true := shownDigits (by decide) (by decide) g
  apply readIpv4Undotted
  intro dot
  rw [List.dropWhile_append] at dot
  split at dot
  · cases rest with
    | nil => cases dot
    | cons c rest =>
      have stop : isDigit 10 c = false := undigitedDecimal stops c rfl
      rw [List.dropWhile_cons_of_neg (by simp [stop])] at dot
      exact undotted dot
  · rename_i some_
    have inside : ((hexadecimal g).dropWhile (isDigit 10)).head? = some '.' := by
      rwa [List.head?_append_of_ne_nil _ (by simpa using some_)] at dot
    exact absurd (all '.' (dropDigitsHead inside)) (by decide)

theorem undigitedIpv4 {s : Text} (stops : Undigited 10 s) (undotted : s.head? ≠ some '.') : readIpv4Addr s = none := by
  apply readIpv4Undotted
  cases s with
  | nil => exact undotted
  | cons c s =>
    rw [List.dropWhile_cons_of_neg (by simp [stops c rfl])]
    exact undotted

def separated (first : Bool) (s : Text) : Text := if first then s else ':' :: s

theorem readSeparatedShown {X : Type} (first : Bool) (read : Text → Option (X × Text)) (s : Text) :
    readSeparated first read (separated first s) = read s := by
  cases first <;> rfl

theorem readGroupsStep (left : Nat) (first : Bool) (g : Fin 65536) {rest : Text} (stops : Undigited 16 rest)
    (undotted : rest.head? ≠ some '.') :
    readGroups (left + 1) first (separated first (hexadecimal g ++ rest)) =
      ⟨g :: (readGroups left false rest).segments, (readGroups left false rest).embedded, (readGroups left false rest).rest⟩ := by
  rw [readGroups]
  simp only [readSeparatedShown, undottedGroup g stops undotted, readGroupShown g stops, ite_self]

theorem readGroupsStop (left : Nat) (first : Bool) {rest : Text} (closes : Closes rest) :
    readGroups left first rest = ⟨[], false, rest⟩ := by
  cases left with
  | zero => rfl
  | succ left =>
    have none_ : readSeparated first readIpv4Addr rest = none ∧ readSeparated first readGroup rest = none := by
      cases first with
      | true => exact ⟨undigitedIpv4 (undigitedDecimal closes.undigited) closes.undotted, readGroupUndigited closes.undigited⟩
      | false =>
        by_cases colon : rest.head? = some ':'
        · obtain ⟨later, rfl⟩ : ∃ later, rest = ':' :: later := by
            cases rest with
            | nil => cases colon
            | cons c later => exact ⟨later, by rw [Option.some.inj colon]⟩
          have next : later.head? = some ':' := closes.colon later rfl
          have stop : Undigited 16 later := fun c found => by
            cases next.symm.trans found
            decide
          have undotted : later.head? ≠ some '.' := by simp [next]
          exact ⟨undigitedIpv4 (undigitedDecimal stop) undotted, readGroupUndigited stop⟩
        · exact ⟨by simp [readSeparated, readCharOther colon], by simp [readSeparated, readCharOther colon]⟩
    rw [readGroups]
    simp only [none_.1, none_.2, ite_self]

theorem laterGroupsOpens (groups : List (Fin 65536)) {rest : Text} (closes : Closes rest) :
    Undigited 16 (laterGroups groups ++ rest) ∧ (laterGroups groups ++ rest).head? ≠ some '.' := by
  cases groups with
  | nil => exact ⟨closes.undigited, closes.undotted⟩
  | cons g groups => exact ⟨undigitedCons (by decide) _, by simp [laterGroups]⟩

theorem readLaterGroups {left : Nat} {groups : List (Fin 65536)} (room : groups.length ≤ left) {rest : Text} (closes : Closes rest) :
    readGroups left false (laterGroups groups ++ rest) = ⟨groups, false, rest⟩ := by
  induction groups generalizing left with
  | nil => exact readGroupsStop left false closes
  | cons g groups ih =>
    obtain ⟨left, rfl⟩ := Nat.exists_eq_succ_of_ne_zero (Nat.ne_of_gt (Nat.lt_of_lt_of_le (Nat.succ_pos _) room))
    obtain ⟨stops, undotted⟩ := laterGroupsOpens groups closes
    have step := readGroupsStep left false g stops undotted
    rw [ih (Nat.le_of_succ_le_succ room)] at step
    rw [laterGroups, List.flatMap_cons, List.append_assoc]
    exact step

theorem readShownGroups {left : Nat} {groups : List (Fin 65536)} (room : groups.length ≤ left) {rest : Text} (closes : Closes rest) :
    readGroups left true (showGroups groups ++ rest) = ⟨groups, false, rest⟩ := by
  cases groups with
  | nil => exact readGroupsStop left true closes
  | cons g groups =>
    obtain ⟨left, rfl⟩ := Nat.exists_eq_succ_of_ne_zero (Nat.ne_of_gt (Nat.lt_of_lt_of_le (Nat.succ_pos _) room))
    obtain ⟨stops, undotted⟩ := laterGroupsOpens groups closes
    have step := readGroupsStep left true g stops undotted
    rw [readLaterGroups (Nat.le_of_succ_le_succ room) closes] at step
    rw [showGroups, List.append_assoc]
    exact step

theorem readEmbedded (left : Nat) (ip : Ipv4Addr) {rest : Text} (stops : Undigited 10 rest) :
    readGroups (left + 2) false (':' :: (showIpv4 ip ++ rest)) = ⟨[ip.high, ip.low], true, rest⟩ := by
  rw [readGroups]
  simp only [readSeparated, Bool.false_eq_true, if_false, readCharSame, Option.bind_some, readIpv4Shown ip stops,
    Nat.le_add_left, if_true]

def IsRun (segments : List (Fin 65536)) (run : Span) : Prop :=
  ∃ front back, segments = front ++ (List.replicate run.len 0 ++ back) ∧ (run.len ≠ 0 → front.length = run.start)

theorem longestFromRun (front : List (Fin 65536)) {rest : List (Fin 65536)} {longest current : Span} (found : IsRun (front ++ rest) longest)
    (open_ : ∃ before, front = before ++ List.replicate current.len 0 ∧ (current.len ≠ 0 → before.length = current.start)) :
    IsRun (front ++ rest) (longestFrom longest current front.length rest) := by
  induction rest generalizing front longest current with
  | nil => exact found
  | cons segment rest ih =>
    have whole : front ++ segment :: rest = (front ++ [segment]) ++ rest := by simp
    have length : front.length + 1 = (front ++ [segment]).length := by simp
    rw [longestFrom]
    split
    · rename_i zero
      subst zero
      obtain ⟨before, rfl, starts⟩ := open_
      let next : Span := ⟨if current.len = 0 then (before ++ List.replicate current.len 0).length else current.start, current.len + 1⟩
      have started : before.length = next.start := by
        by_cases empty : current.len = 0
        · simp [next, empty]
        · simp [next, empty, starts empty]
      have grown : (before ++ List.replicate current.len 0) ++ [0] = before ++ List.replicate next.len (0 : Fin 65536) := by
        rw [List.append_assoc, ← List.replicate_succ']
      rw [whole] at found ⊢
      have better : IsRun (((before ++ List.replicate current.len 0) ++ [0]) ++ rest) (if longest.len < next.len then next else longest) := by
        by_cases longer : longest.len < next.len
        · rw [if_pos longer]
          exact ⟨before, rest, by rw [grown, List.append_assoc], fun _ => started⟩
        · rw [if_neg longer]
          exact found
      rw [length]
      exact ih _ better ⟨before, grown, fun _ => started⟩
    · rw [whole] at found ⊢
      rw [length]
      exact ih _ found ⟨front ++ [segment], by simp, fun never => absurd rfl never⟩

theorem zeroesRun (segments : List (Fin 65536)) : IsRun segments (zeroes segments) :=
  longestFromRun [] ⟨[], segments, rfl, fun never => absurd rfl never⟩ ⟨[], rfl, fun never => absurd rfl never⟩

theorem zeroesSplit {segments : List (Fin 65536)} (long : 1 < (zeroes segments).len) :
    segments = segments.take (zeroes segments).start ++ (List.replicate (zeroes segments).len 0 ++
      segments.drop ((zeroes segments).start + (zeroes segments).len)) := by
  obtain ⟨front, back, same, starts⟩ := zeroesRun segments
  have start := starts (by omega)
  generalize zeroes segments = run at long same start
  subst same
  rw [← start, List.take_left' rfl, ← List.append_assoc front, List.drop_left' (by simp), List.append_assoc]

def Ends (s : Text) : Prop := s = [] ∨ ∃ rest, s = ']' :: rest ∨ s = '%' :: rest

theorem endsCloses {s : Text} (ends : Ends s) : Closes s := by
  rcases ends with rfl | ⟨rest, rfl | rfl⟩
  · exact ⟨(fun c never => by cases never), (fun never => by cases never), fun _ never => (by cases never)⟩
  · exact ⟨undigitedCons (by decide) _, by simp, fun _ never => by cases never⟩
  · exact ⟨undigitedCons (by decide) _, by simp, fun _ never => by cases never⟩

theorem mappedSegments {ip : Ipv6Addr} {mapped : Ipv4Addr} (same : ip.toIpv4Mapped = some mapped) :
    ip.segments = [0, 0, 0, 0, 0] ++ [65535, mapped.high, mapped.low] := by
  unfold Ipv6Addr.toIpv4Mapped at same
  split at same
  · rename_i prefix_
    split at same
    · rename_i high low rest
      cases same
      rw [← List.take_append_drop 6 ip.segments, prefix_, rest]
      have joined : ∀ segment : Fin 65536, (⟨(octets segment).1 * 256 + (octets segment).2, by omega⟩ : Fin 65536) = segment :=
        fun segment => Fin.ext (Nat.div_add_mod' segment.val 256)
      simp only [Ipv4Addr.high, Ipv4Addr.low, joined]
      rfl
    · cases same
  · cases same

theorem readAround {text after rest : Text} {front back : List (Fin 65536)} {embedded : Bool} (ip : Ipv6Addr) (run : Nat)
    (long : 1 < run) (segments : ip.segments = front ++ (List.replicate run 0 ++ back))
    (head : readGroups 8 true text = ⟨front, false, ':' :: ':' :: after⟩)
    (tail : readGroups (8 - (front.length + 1)) true after = ⟨back, embedded, rest⟩) :
    readIpv6Addr text = some (ip, rest) := by
  have eight := ip.eight
  rw [segments, List.length_append, List.length_append, List.length_replicate] at eight
  have short : ¬front.length = 8 := by omega
  have zeros : 8 - front.length - back.length = run := by omega
  unfold readIpv6Addr
  simp only [head, short, dite_false, Bool.false_eq_true, if_false, readCharSame, tail, bind, Option.bind_some]
  have same : Ipv6Addr.around front back (by omega) = ip := by
    ext1
    change front ++ (List.replicate (8 - front.length - back.length) 0 ++ back) = ip.segments
    rw [segments, zeros]
  rw [same]

theorem readIpv6Shown (ip : Ipv6Addr) {rest : Text} (ends : Ends rest) : readIpv6Addr (showIpv6 ip ++ rest) = some (ip, rest) := by
  have closes := endsCloses ends
  have colons : ∀ s : Text, Closes (':' :: ':' :: s) := fun s =>
    ⟨undigitedCons (by decide) _, by simp, fun later same => by cases same; rfl⟩
  unfold showIpv6
  cases same : ip.toIpv4Mapped with
  | some mapped =>
    have colon : Undigited 16 (':' :: (showIpv4 mapped ++ rest)) := undigitedCons (by decide) _
    have step := readGroupsStep 6 true 65535 colon (by simp)
    rw [readEmbedded 4 mapped (undigitedDecimal closes.undigited)] at step
    exact readAround ip 5 (by decide) (mappedSegments same) (readGroupsStop 8 true (colons _)) step
  | none =>
    dsimp only
    split
    · rename_i long
      have split_ := zeroesSplit long
      have eight := congrArg List.length split_
      rw [ip.eight, List.length_append, List.length_append, List.length_replicate] at eight
      rw [List.append_assoc, List.append_assoc]
      refine readAround ip _ long split_ (readShownGroups (by omega) (colons _)) (readShownGroups (by omega) closes)
    · have all := readShownGroups (Nat.le_of_eq ip.eight) closes
      unfold readIpv6Addr
      simp only [all, ip.eight, dite_true]

def ipChar (c : Char) : Bool := isDigit 16 c || c = ':' || c = '.'

theorem decimalChars (n : Nat) : ∀ c ∈ decimal n, ipChar c = true := by
  intro c among
  rw [ipChar, decimalDigit (shownDigits (by decide) (by decide) n c among)]
  rfl

theorem hexadecimalChars (n : Nat) : ∀ c ∈ hexadecimal n, isDigit 16 c = true ∨ c = ':' := fun c among =>
  .inl (shownDigits (by decide) (by decide) n c among)

theorem ipv4Chars (ip : Ipv4Addr) : ∀ c ∈ showIpv4 ip, ipChar c = true := by
  have dot : ipChar '.' = true := by decide
  simp only [showIpv4, List.forall_mem_append, List.forall_mem_cons]
  exact ⟨decimalChars _, dot, decimalChars _, dot, decimalChars _, dot, decimalChars _⟩

theorem groupsChars (groups : List (Fin 65536)) : ∀ c ∈ showGroups groups, isDigit 16 c = true ∨ c = ':' := by
  have later : ∀ groups : List (Fin 65536), ∀ c ∈ laterGroups groups, isDigit 16 c = true ∨ c = ':' := by
    intro groups c among
    obtain ⟨group, _, inside⟩ := List.mem_flatMap.mp among
    rcases List.mem_cons.mp inside with rfl | inside
    · exact .inr rfl
    · exact hexadecimalChars _ c inside
  cases groups with
  | nil => exact List.forall_mem_nil _
  | cons group groups => exact List.forall_mem_append.mpr ⟨hexadecimalChars _, later groups⟩

theorem ipv6Groups {ip : Ipv6Addr} (unmapped : ip.toIpv4Mapped = none) : ∀ c ∈ showIpv6 ip, isDigit 16 c = true ∨ c = ':' := by
  unfold showIpv6
  rw [unmapped]
  dsimp only
  split
  · refine List.forall_mem_append.mpr ⟨List.forall_mem_append.mpr ⟨groupsChars _, ?_⟩, groupsChars _⟩
    intro c among
    exact .inr (by simpa using among)
  · exact groupsChars _

theorem ipv6Chars (ip : Ipv6Addr) : ∀ c ∈ showIpv6 ip, ipChar c = true := by
  cases same : ip.toIpv4Mapped with
  | some mapped =>
    unfold showIpv6
    rw [same]
    exact List.forall_mem_append.mpr ⟨List.all_eq_true.mp (by decide), ipv4Chars mapped⟩
  | none =>
    intro c among
    rcases ipv6Groups same c among with digit | rfl
    · rw [ipChar, digit]
      rfl
    · decide

theorem socketChars (addr : SocketAddr) : ∀ c ∈ showSocketAddr addr, ipChar c = true ∨ c = '[' ∨ c = '%' ∨ c = ']' := by
  have plain : ∀ {s : Text}, (∀ c ∈ s, ipChar c = true) → ∀ c ∈ s, ipChar c = true ∨ c = '[' ∨ c = '%' ∨ c = ']' :=
    fun chars c among => .inl (chars c among)
  have colon : ipChar ':' = true := by decide
  cases addr with
  | v4 addr => exact List.forall_mem_append.mpr ⟨plain (ipv4Chars addr.ip), List.forall_mem_cons.mpr ⟨.inl colon, plain (decimalChars _)⟩⟩
  | v6 addr =>
    have port : ∀ c ∈ ']' :: ':' :: decimal addr.port, ipChar c = true ∨ c = '[' ∨ c = '%' ∨ c = ']' :=
      List.forall_mem_cons.mpr ⟨.inr (.inr (.inr rfl)), List.forall_mem_cons.mpr ⟨.inl colon, plain (decimalChars _)⟩⟩
    unfold showSocketAddr
    refine List.forall_mem_cons.mpr ⟨.inr (.inl rfl), List.forall_mem_append.mpr ⟨plain (ipv6Chars addr.ip),
      List.forall_mem_append.mpr ⟨?_, port⟩⟩⟩
    split
    · exact List.forall_mem_nil _
    · exact List.forall_mem_cons.mpr ⟨.inr (.inr (.inl rfl)), plain (decimalChars _)⟩

theorem digitVisible {radix : Nat} {c : Char} (digit : isDigit radix c = true) : ' ' ≤ c ∧ c ≤ '~' := by
  unfold isDigit toDigit at digit
  dsimp only at digit
  split at digit
  · rename_i decimal
    exact ⟨Char.le_trans (by decide) decimal.1, Char.le_trans decimal.2 (by decide)⟩
  · split at digit
    · rename_i lower
      exact ⟨Char.le_trans (by decide) lower.1, Char.le_trans lower.2 (by decide)⟩
    · split at digit
      · rename_i upper
        exact ⟨Char.le_trans (by decide) upper.1, Char.le_trans upper.2 (by decide)⟩
      · cases digit

theorem ipCharVisible {c : Char} (char : ipChar c = true) : ' ' ≤ c ∧ c ≤ '~' := by
  simp only [ipChar, Bool.or_eq_true, decide_eq_true_eq] at char
  rcases char with (digit | rfl) | rfl
  · exact digitVisible digit
  · decide
  · decide

theorem socketVisible (addr : SocketAddr) : ∀ c ∈ showSocketAddr addr, ' ' ≤ c ∧ c ≤ '~' := by
  intro c among
  rcases socketChars addr c among with char | rfl | rfl | rfl
  · exact ipCharVisible char
  all_goals decide

-- No other kind of address is read first.

theorem ipv6NotIpv4 (ip : Ipv6Addr) : readIpv4Addr (showIpv6 ip) = none := by
  apply readIpv4Undotted
  cases same : ip.toIpv4Mapped with
  | some mapped =>
    unfold showIpv6
    rw [same]
    change ((':' :: _ : Text).dropWhile (isDigit 10)).head? ≠ some '.'
    rw [List.dropWhile_cons_of_neg (by decide)]
    simp
  | none =>
    intro dot
    rcases ipv6Groups same '.' (dropDigitsHead dot) with digit | colon
    · exact absurd digit (by decide)
    · exact absurd colon (by decide)

theorem bracketless {s : Text} (chars : ∀ c ∈ s, ipChar c = true) : readSocketAddrV6 s = none := by
  have other : s.head? ≠ some '[' := fun first => absurd (chars '[' (List.mem_of_mem_head? first)) (by decide)
  simp only [readSocketAddrV6, readCharOther other, bind, Option.bind_none]

theorem ipv4NotSocket (ip : Ipv4Addr) : parseSocketAddr (showIpv4 ip) = none := by
  have read := @readIpv4Shown ip [] undigitedNil
  rw [List.append_nil] at read
  have v4 : readSocketAddrV4 (showIpv4 ip) = none := by
    simp only [readSocketAddrV4, read, bind, Option.bind_some, readPort, readChar, Option.bind_none]
  unfold parseSocketAddr readSocketAddr
  rw [v4, bracketless (ipv4Chars ip)]
  rfl

theorem ipv6NotSocket (ip : Ipv6Addr) : parseSocketAddr (showIpv6 ip) = none := by
  have v4 : readSocketAddrV4 (showIpv6 ip) = none := by
    simp only [readSocketAddrV4, ipv6NotIpv4, bind, Option.bind_none]
  unfold parseSocketAddr readSocketAddr
  rw [v4, bracketless (ipv6Chars ip)]
  rfl

theorem ipv6NotParsedIpv4 (ip : Ipv6Addr) : parseIpv4Addr (showIpv6 ip) = none := by
  rw [parseIpv4Addr, ipv6NotIpv4]
  exact ite_self _

theorem parseIpv4Shown (ip : Ipv4Addr) : parseIpv4Addr (showIpv4 ip) = some ip := by
  have short : ∀ n : Fin 256, (decimal n).length ≤ 3 := fun n =>
    (Nat.length_toDigits_le_iff (by decide) (by decide)).mpr (Nat.lt_trans n.isLt (by decide))
  have length : ¬15 < (showIpv4 ip).length := by
    have a := short ip.a
    have b := short ip.b
    have c := short ip.c
    have d := short ip.d
    simp only [showIpv4, List.length_append, List.length_cons]
    omega
  have read := @readIpv4Shown ip [] undigitedNil
  rw [List.append_nil] at read
  rw [parseIpv4Addr, if_neg length, read]
  rfl

theorem parseIpv6Shown (ip : Ipv6Addr) : parseIpv6Addr (showIpv6 ip) = some ip := by
  have read := readIpv6Shown ip (.inl rfl)
  rw [List.append_nil] at read
  rw [parseIpv6Addr, read]
  rfl

def SocketAddr.shown : SocketAddr → SocketAddr
  | .v4 addr => .v4 addr
  | .v6 addr => .v6 {addr with flowinfo := 0}

theorem parseSocketShown (addr : SocketAddr) : parseSocketAddr (showSocketAddr addr) = some addr.shown := by
  have port : ∀ n : Fin 65536, readPort (':' :: decimal n) = some (n, []) := by
    intro n
    have read := readCountShown n undigitedNil
    rw [List.append_nil] at read
    simp only [readPort, readCharSame, bind, Option.bind_some, read]
  cases addr with
  | v4 addr =>
    have ip := readIpv4Shown addr.ip (undigitedCons (by decide : isDigit 10 ':' = false) (decimal addr.port))
    have read : readSocketAddrV4 (showSocketAddr (.v4 addr)) = some (addr, []) := by
      simp only [readSocketAddrV4, showSocketAddr, ip, bind, Option.bind_some, port]
    rw [parseSocketAddr, readSocketAddr, read]
    rfl
  | v6 addr =>
    have v4 : readSocketAddrV4 (showSocketAddr (.v6 addr)) = none := by
      have bracket : ∀ s : Text, readIpv4Addr ('[' :: s) = none := fun s =>
        undigitedIpv4 (undigitedCons (by decide) s) (by simp)
      simp only [readSocketAddrV4, showSocketAddr, bracket, bind, Option.bind_none]
    have read : readSocketAddrV6 (showSocketAddr (.v6 addr)) = some ({addr with flowinfo := 0}, []) := by
      by_cases unscoped : addr.scopeId = 0
      · have ip := readIpv6Shown addr.ip (.inr ⟨':' :: decimal addr.port, .inl rfl⟩)
        have scope : readScopeId (']' :: ':' :: decimal addr.port) = none := rfl
        simp only [readSocketAddrV6, showSocketAddr, unscoped, if_true, List.nil_append, readCharSame, ip, scope, bind,
          Option.bind_some, Option.getD_none, port]
      · have ip := readIpv6Shown addr.ip (.inr ⟨decimal addr.scopeId ++ ']' :: ':' :: decimal addr.port, .inr rfl⟩)
        have scope : readScopeId ('%' :: (decimal addr.scopeId ++ ']' :: ':' :: decimal addr.port)) =
            some (addr.scopeId, ']' :: ':' :: decimal addr.port) := by
          have count := readCountShown addr.scopeId (undigitedCons (by decide : isDigit 10 ']' = false) (':' :: decimal addr.port))
          simp only [readScopeId, readCharSame, bind, Option.bind_some, count]
        simp only [readSocketAddrV6, showSocketAddr, unscoped, if_false, List.cons_append, readCharSame, ip, scope, bind,
          Option.bind_some, Option.getD_some, port]
    rw [parseSocketAddr, readSocketAddr, v4, read]
    rfl

end Silent.NetText
