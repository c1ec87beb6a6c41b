import Silent.AcceptEncoding

/-! `Accept-Encoding` fields by their grammar, and which codings a field refuses. Each
reader takes the entries one by one and forgets the weights it has skipped, so a refusal
is honoured exactly when no other entry, or none it misreads, grants the coding. -/
namespace Silent.EncodingRefusals
open ByteText PathSegment HeaderText AcceptEncoding

abbrev Ows := {s : Text // ∀ c ∈ s, c = ' ' ∨ c = '\t'}

def isTchar (c : Char) : Bool := c.isAlphanum || "!#$%&'*+-.^_`|~".toList.contains c

abbrev Token := {s : Text // s ≠ [] ∧ ∀ c ∈ s, isTchar c = true}

/- `qvalue`: up to three places, which are zeros after a 1. -/
structure QValue where
  one : Bool
  places : Option (List (Fin 10))
  short : ∀ ds ∈ places, ds.length ≤ 3
  capped : one = true → ∀ ds ∈ places, ∀ d ∈ ds, d = 0

structure Weight where
  before : Ows
  after : Ows
  upper : Bool
  value : QValue

structure Member where
  coding : Token
  weight : Option Weight

inductive Element where
  | blank (space : Ows)
  | entry (before : Ows) (member : Member) (after : Ows)

abbrev Field := List Element

def digitOf (d : Fin 10) : Char := Nat.digitChar d

def QValue.whole (value : QValue) : Fin 10 := if value.one then 1 else 0

def QValue.text (value : QValue) : Text :=
  digitOf value.whole :: (value.places.map (fun ds => '.' :: ds.map digitOf)).getD []

def QValue.isZero (value : QValue) : Bool := (value.whole :: value.places.getD []).all (· = 0)

def Weight.text (weight : Weight) : Text :=
  weight.before.1 ++ ';' :: (weight.after.1 ++ (if weight.upper then 'Q' else 'q') :: '=' :: weight.value.text)

def Member.text (member : Member) : Text := member.coding.1 ++ (member.weight.map Weight.text).getD []

def Element.text : Element → Text
  | .blank space => space.1
  | .entry before member after => before.1 ++ (member.text ++ after.1)

def Field.text (field : Field) : Text := [','].intercalate (field.map Element.text)

def Element.members : Element → List Member
  | .blank _ => []
  | .entry _ member _ => [member]

def Field.members (field : Field) : List Member := field.flatMap Element.members

theorem digitRead : ∀ d : Fin 10, digitValue (digitOf d) = some d.val := by decide

theorem digitIs (d : Fin 10) : isDigit (digitOf d) = true := by rw [isDigit, digitRead]; rfl

theorem digitsRead (ds : List (Fin 10)) (value : Nat) :
    ∃ n, parseDigits value (ds.map digitOf) = some n ∧ (n = 0 ↔ value = 0 ∧ ds.all (· = 0) = true) := by
  induction ds generalizing value with
  | nil => exact ⟨value, rfl, by simp⟩
  | cons d ds ih =>
    obtain ⟨n, parsed, zero⟩ := ih (value * 10 + d.val)
    refine ⟨n, by simpa [parseDigits, digitRead] using parsed, ?_⟩
    rw [zero, List.all_cons, Bool.and_eq_true, decide_eq_true_iff, Fin.ext_iff, Fin.val_zero]
    constructor
    · rintro ⟨sum, rest⟩
      exact ⟨by omega, by omega, rest⟩
    · rintro ⟨first, second, rest⟩
      exact ⟨by omega, rest⟩

theorem takeDigits (ds : List (Fin 10)) : (ds.map digitOf).takeWhile isDigit = ds.map digitOf :=
  List.takeWhile_eq_self_iff.mpr fun c mem => by
    obtain ⟨d, _, rfl⟩ := List.mem_map.mp mem
    exact digitIs d

theorem dropDigits (ds : List (Fin 10)) : (ds.map digitOf).dropWhile isDigit = [] :=
  List.dropWhile_eq_nil_iff.mpr fun c mem => by
    obtain ⟨d, _, rfl⟩ := List.mem_map.mp mem
    exact digitIs d

theorem signless (d : Fin 10) (rest : Text) : dropSign (digitOf d :: rest) = digitOf d :: rest := by
  have plain : ∀ d : Fin 10, digitOf d ≠ '+' ∧ digitOf d ≠ '-' := by decide
  unfold dropSign
  split
  · exact absurd (List.cons.inj ‹_›).1 (plain d).1
  · exact absurd (List.cons.inj ‹_›).1 (plain d).2
  · rfl

theorem numberRead (d : Fin 10) (places : Option (List (Fin 10))) {n : Nat}
    (digits : parseDigits 0 ((d :: places.getD []).map digitOf) = some n) :
    parseNumber (digitOf d :: (places.map (fun ds => '.' :: ds.map digitOf)).getD []) =
      some (.finite n (0 - (places.getD []).length)) := by
  have point : isDigit '.' = false := rfl
  cases places with
  | none =>
    have digits' : parseDigits 0 [digitOf d] = some n := digits
    simp [parseNumber, digitIs, digits']
  | some ds =>
    have digits' : parseDigits 0 (digitOf d :: ds.map digitOf) = some n := digits
    simp [parseNumber, digitIs, point, takeDigits, dropDigits, digits']

theorem qvalueRead (value : QValue) :
    ∃ parsed, parseFloat value.text = some parsed ∧ parsed.isZero = value.isZero := by
  obtain ⟨n, digits, zero⟩ := digitsRead (value.whole :: value.places.getD []) 0
  refine ⟨.finite n (0 - (value.places.getD []).length), ?_, ?_⟩
  · rw [QValue.text, parseFloat, signless, if_neg (List.cons_ne_nil _ _), numberRead _ _ digits, Option.some_or]
  · rw [finiteIsZero n]
    · rw [QValue.isZero, Bool.eq_iff_iff, decide_eq_true_iff, zero]
      simp
    · cases places : value.places with
      | none => simp
      | some ds =>
        have few := value.short ds places
        simp only [Option.getD_some]
        omega

theorem owsBlank (space : Ows) : ∀ c ∈ space.1, isWhitespace c = true := by
  intro c mem
  rcases space.2 c mem with rfl | rfl <;> rfl

theorem owsPlain (space : Ows) : ';' ∉ space.1 ∧ ',' ∉ space.1 ∧ '=' ∉ space.1 :=
  ⟨fun mem => by simpa using space.2 _ mem, fun mem => by simpa using space.2 _ mem,
    fun mem => by simpa using space.2 _ mem⟩

theorem tokenPlain (token : Token) : ';' ∉ token.1 ∧ ',' ∉ token.1 :=
  ⟨fun mem => absurd (token.2.2 _ mem) (by decide), fun mem => absurd (token.2.2 _ mem) (by decide)⟩

theorem tcharSolid {c : Char} (tchar : isTchar c = true) : isWhitespace c = false := by
  have printable : 33 ≤ c.toNat ∧ c.toNat ≤ 126 := by
    rcases Bool.or_eq_true_iff.mp tchar with alphanum | sign
    · change ((decide (c.val ≥ 'A'.val ∧ c.val ≤ 'Z'.val) || (decide (c.val ≥ 'a'.val) && decide (c.val ≤ 'z'.val))) ||
        (decide (c.val ≥ '0'.val) && decide (c.val ≤ '9'.val))) = true at alphanum
      simp only [Bool.or_eq_true, Bool.and_eq_true, decide_eq_true_eq, ge_iff_le, UInt32.le_iff_toNat_le] at alphanum
      change ((65 ≤ c.toNat ∧ c.toNat ≤ 90) ∨ (97 ≤ c.toNat ∧ c.toNat ≤ 122)) ∨ (48 ≤ c.toNat ∧ c.toNat ≤ 57) at alphanum
      omega
    · have listed : "!#$%&'*+-.^_`|~".toList.all (fun d => 33 ≤ d.toNat ∧ d.toNat ≤ 126) = true := by decide
      exact of_decide_eq_true (List.all_eq_true.mp listed c (List.contains_iff_mem.mp sign))
  simp only [isWhitespace, Bool.or_eq_false_iff, Bool.and_eq_false_iff, decide_eq_false_iff_not]
  omega

theorem digitSolid : ∀ d : Fin 10, isWhitespace (digitOf d) = false ∧ digitOf d ≠ ';' ∧ digitOf d ≠ ',' := by decide

theorem qvalueChars (value : QValue) {c : Char} (mem : c ∈ value.text) : c = '.' ∨ ∃ d : Fin 10, c = digitOf d := by
  rcases List.mem_cons.mp mem with first | rest
  · exact .inr ⟨_, first⟩
  · cases places : value.places with
    | none => simp [places] at rest
    | some ds =>
      rw [places, Option.map_some, Option.getD_some] at rest
      rcases List.mem_cons.mp rest with point | digit
      · exact .inl point
      · obtain ⟨d, _, same⟩ := List.mem_map.mp digit
        exact .inr ⟨d, same.symm⟩

theorem qvalueSolid (value : QValue) {c : Char} (mem : c ∈ value.text) :
    isWhitespace c = false ∧ c ≠ ';' ∧ c ≠ ',' := by
  rcases qvalueChars value mem with rfl | ⟨d, rfl⟩
  · decide
  · exact digitSolid d

theorem tokenTight (token : Token) : Tight token.1 := tightOf fun c mem => tcharSolid (token.2.2 c mem)

theorem qvalueTight (value : QValue) : Tight value.text := tightOf fun _ mem => (qvalueSolid value mem).1

def letter (weight : Weight) : Char := if weight.upper then 'Q' else 'q'

theorem letterSolid (weight : Weight) : isWhitespace (letter weight) = false ∧ letter weight ≠ ';' ∧
    letter weight ≠ ',' ∧ letter weight ≠ '=' := by
  unfold letter
  cases weight.upper <;> decide

def param (weight : Weight) : Text := weight.after.1 ++ letter weight :: '=' :: weight.value.text

theorem paramRead (weight : Weight) :
    ∃ quality, readParam fullQuality (param weight) = quality ∧
      quality.isZero = (!weight.upper && weight.value.isZero) := by
  have plain : '=' ∉ weight.after.1 ++ [letter weight] := by
    simp only [List.mem_append, List.mem_singleton, not_or]
    exact ⟨(owsPlain weight.after).2.2, Ne.symm (letterSolid weight).2.2.2⟩
  have shape : param weight = (weight.after.1 ++ [letter weight]) ++ '=' :: weight.value.text := by simp [param]
  have name : trim (weight.after.1 ++ [letter weight]) = [letter weight] := by
    have tight : Tight [letter weight] := tightOf fun c mem => by
      rw [List.mem_singleton.mp mem]
      exact (letterSolid weight).1
    have padded := trimPadded (owsBlank weight.after) (show ∀ c ∈ ([] : Text), isWhitespace c = true by simp) tight
    rwa [List.append_nil] at padded
  obtain ⟨parsed, value, zero⟩ := qvalueRead weight.value
  refine ⟨_, rfl, ?_⟩
  rw [readParam, shape, splitFirstAppend plain]
  simp only [name, trimTight (qvalueTight weight.value), value]
  cases upper : weight.upper with
  | true =>
    rw [if_neg (by simp [letter, upper])]
    rfl
  | false =>
    rw [if_pos ⟨by simp [letter, upper], by simp⟩]
    simpa using zero

theorem memberTight (member : Member) : Tight member.text := by
  unfold Member.text
  cases member.weight with
  | none =>
    rw [Option.map_none, Option.getD_none, List.append_nil]
    exact tokenTight member.coding
  | some weight =>
    have named := member.coding.2.1
    have ends : Tight (member.coding.1 ++ weight.value.text) :=
      tightAppend named (by simp [QValue.text]) (tokenTight member.coding) (qvalueTight weight.value)
    refine ⟨?_, ?_⟩
    · intro c first
      rw [List.head?_append_of_ne_nil _ named] at first
      exact (tokenTight member.coding).1 c first
    · intro c last
      have back : (member.coding.1 ++ weight.text).getLast? = weight.value.text.getLast? := by
        have shape : member.coding.1 ++ weight.text =
            (member.coding.1 ++ (weight.before.1 ++ ';' :: (weight.after.1 ++ [letter weight, '=']))) ++
              weight.value.text := by simp [Weight.text, letter]
        rw [shape, List.getLast?_append_of_ne_nil _ (by simp [QValue.text])]
      exact (qvalueTight weight.value).2 c (by rw [← back]; exact last)

theorem memberRead (before after : Ows) (member : Member) :
    ∃ quality, readItem (before.1 ++ (member.text ++ after.1)) = (member.coding.1, quality) ∧
      quality.isZero = member.weight.any (fun weight => !weight.upper && weight.value.isZero) := by
  have trimmed : trim (before.1 ++ (member.text ++ after.1)) = member.text :=
    trimPadded (owsBlank before) (owsBlank after) (memberTight member)
  obtain ⟨plain, _⟩ := tokenPlain member.coding
  unfold readItem
  rw [trimmed, Member.text]
  cases member.weight with
  | none =>
    refine ⟨fullQuality, ?_, rfl⟩
    rw [Option.map_none, Option.getD_none, List.append_nil, List.splitOn_eq_singleton plain]
    simp only [List.headD_cons, trimTight (tokenTight member.coding), List.tail_cons, List.foldl_nil]
  | some weight =>
    obtain ⟨quality, read, zero⟩ := paramRead weight
    refine ⟨quality, ?_, zero⟩
    have shape : member.coding.1 ++ weight.text = (member.coding.1 ++ weight.before.1) ++ ';' :: param weight := by
      simp [Weight.text, param, letter]
    have front : ';' ∉ member.coding.1 ++ weight.before.1 := by
      simp [plain, (owsPlain weight.before).1]
    have back : ';' ∉ param weight := by
      simp only [param, List.mem_append, List.mem_cons, not_or]
      exact ⟨(owsPlain weight.after).1, Ne.symm (letterSolid weight).2.1, by decide,
        fun mem => (qvalueSolid weight.value mem).2.1 rfl⟩
    have coding : trim (member.coding.1 ++ weight.before.1) = member.coding.1 := by
      have padded := trimPadded (show ∀ c ∈ ([] : Text), isWhitespace c = true by simp) (owsBlank weight.before)
        (tokenTight member.coding)
      rwa [List.nil_append] at padded
    rw [Option.map_some, Option.getD_some, shape, List.splitOn_append_cons_self_of_not_mem front,
      List.splitOn_eq_singleton back]
    simp only [List.headD_cons, coding, List.tail_cons, List.foldl_cons, List.foldl_nil, read]

def names (algorithm : Algorithm) (member : Member) : Bool :=
  match algorithm with
  | .brotli => lower member.coding.1 = brotliName
  | .gzip => lower member.coding.1 = gzipName || lower member.coding.1 = xGzipName

def isStar (member : Member) : Bool := member.coding.1 = star

def zeroWeight (member : Member) : Bool := member.weight.any (·.value.isZero)

/-- Listed with weight 0, or not listed while `*` is absent or has weight 0. -/
def Refuses (field : Field) (algorithm : Algorithm) : Prop :=
  (∃ member ∈ field.members, names algorithm member = true ∧ zeroWeight member = true) ∨
    (∀ member ∈ field.members, names algorithm member = false) ∧
      ((∀ member ∈ field.members, isStar member = false) ∨
        ∃ member ∈ field.members, isStar member = true ∧ zeroWeight member = true)

def Honoured (reader : Text → Option Algorithm) (field : Field) : Prop :=
  ∀ algorithm, reader field.text = some algorithm → ¬ Refuses field algorithm

/- An entry that refuses the coding: by its name, or by `*` where the name is not listed. -/
def Against (field : Field) (algorithm : Algorithm) (member : Member) : Prop :=
  zeroWeight member = true ∧ (names algorithm member = true ∨
    isStar member = true ∧ ∀ other ∈ field.members, names algorithm other = false)

/- An entry the reader takes for the coding: spelt as it compares them, and of a weight
that is not 0 or whose name is in upper case. -/
def For (grants : Grants) (algorithm : Algorithm) (member : Member) : Prop :=
  grants algorithm member.coding.1 = true ∧ member.weight.any (fun weight => !weight.upper && weight.value.isZero) = false

def Clash (grants : Grants) (field : Field) (algorithm : Algorithm) : Prop :=
  (∃ member ∈ field.members, Against field algorithm member) ∧ ∃ member ∈ field.members, For grants algorithm member

theorem elementPlain (element : Element) : ',' ∉ element.text := by
  cases element with
  | blank space => exact (owsPlain space).2.1
  | entry before member after =>
    have inner : ',' ∉ member.text := by
      unfold Member.text
      cases member.weight with
      | none => simpa using (tokenPlain member.coding).2
      | some weight =>
        simp only [Option.map_some, Option.getD_some, Weight.text, List.mem_append, List.mem_cons, not_or]
        exact ⟨(tokenPlain member.coding).2, (owsPlain weight.before).2.1, by decide, (owsPlain weight.after).2.1,
          Ne.symm (letterSolid weight).2.2.1, by decide, fun mem => (qvalueSolid weight.value mem).2.2 rfl⟩
    simp only [Element.text, List.mem_append, not_or]
    exact ⟨(owsPlain before).2.1, inner, (owsPlain after).2.1⟩

theorem blankRead (space : Ows) : readItem space.1 = ([], fullQuality) := by
  have nothing : trim space.1 = [] := by
    have padded := trimPadded (owsBlank space) (show ∀ c ∈ ([] : Text), isWhitespace c = true by simp)
      (tightOf (s := []) (by simp))
    rwa [List.append_nil, List.append_nil] at padded
  rw [readItem, nothing]
  rfl

structure Fair (grants : Grants) : Prop where
  blank : ∀ algorithm, grants algorithm [] = false
  sound : ∀ algorithm (member : Member), grants algorithm member.coding.1 = true →
    names algorithm member = true ∨ isStar member = true

section
variable {grants : Grants} (fair : Fair grants)
include fair

theorem elementGrants (element : Element) (algorithm : Algorithm) :
    itemGrants grants algorithm element.text = true ↔ ∃ member ∈ element.members, For grants algorithm member := by
  cases element with
  | blank space => simp [itemGrants, Element.text, blankRead, fair.blank, Element.members]
  | entry before member after =>
    obtain ⟨quality, read, zero⟩ := memberRead before after member
    rw [itemGrants, Element.text, read, zero]
    simp [Element.members, For, and_comm]

theorem offeredIff (field : Field) (algorithm : Algorithm) :
    offered grants field.text algorithm = true ↔ ∃ member ∈ field.members, For grants algorithm member := by
  cases field with
  | nil =>
    have empty : readItem [] = ([], fullQuality) := blankRead ⟨[], by simp⟩
    simp [offered, Field.text, itemGrants, empty, fair.blank, Field.members]
  | cons first rest =>
    have parts : (Field.text (first :: rest)).splitOn ',' = (first :: rest).map Element.text :=
      List.splitOn_intercalate ',' (fun item mem => by
        obtain ⟨element, _, rfl⟩ := List.mem_map.mp mem
        exact elementPlain element) (by simp)
    rw [offered, parts, List.any_map, List.any_eq_true]
    simp only [Function.comp_apply, elementGrants fair, Field.members, List.mem_flatMap]
    constructor
    · rintro ⟨element, listed, member, own, for_⟩
      exact ⟨member, ⟨element, listed, own⟩, for_⟩
    · rintro ⟨member, ⟨element, listed, own⟩, for_⟩
      exact ⟨element, listed, member, own, for_⟩

theorem refusesIff {field : Field} {algorithm : Algorithm}
    (granted : ∃ member ∈ field.members, For grants algorithm member) :
    Refuses field algorithm ↔ ∃ member ∈ field.members, Against field algorithm member := by
  constructor
  · rintro (⟨member, listed, named, zero⟩ | ⟨unlisted, absent | ⟨member, listed, wild, zero⟩⟩)
    · exact ⟨member, listed, zero, .inl named⟩
    · obtain ⟨member, listed, taken, _⟩ := granted
      rcases fair.sound algorithm member taken with named | wild
      · simp [unlisted member listed] at named
      · simp [absent member listed] at wild
    · exact ⟨member, listed, zero, .inr ⟨wild, unlisted⟩⟩
  · rintro ⟨member, listed, zero, named | ⟨wild, unlisted⟩⟩
    · exact .inl ⟨member, listed, named, zero⟩
    · exact .inr ⟨unlisted, .inr ⟨member, listed, wild, zero⟩⟩

theorem honouredIff {reader : Text → Option Algorithm} (selects : ∀ text, reader text = select grants text)
    (field : Field) :
    Honoured reader field ↔ ¬ Clash grants field .brotli ∧
      (Clash grants field .gzip → ∃ member ∈ field.members, For grants .brotli member) := by
  unfold Honoured Clash
  by_cases brotli : ∃ member ∈ field.members, For grants .brotli member
  · have selected : reader field.text = some .brotli := by
      rw [selects, select, if_pos ((offeredIff fair field .brotli).mpr brotli)]
    simp only [selected, Option.some.injEq, forall_eq', refusesIff fair brotli, brotli, and_true, implies_true]
  have missed : ¬ offered grants field.text .brotli = true := fun taken => brotli ((offeredIff fair field .brotli).mp taken)
  simp only [brotli, and_false, not_false_eq_true, true_and, imp_false]
  by_cases gzip : ∃ member ∈ field.members, For grants .gzip member
  · have selected : reader field.text = some .gzip := by
      rw [selects, select, if_neg missed, if_pos ((offeredIff fair field .gzip).mpr gzip)]
    simp only [selected, Option.some.injEq, forall_eq', refusesIff fair gzip, gzip, and_true]
  · have selected : reader field.text = none := by
      rw [selects, select, if_neg missed, if_neg fun taken => gzip ((offeredIff fair field .gzip).mp taken)]
    simp [selected, gzip]

end

theorem namesLower : lower brotliName = brotliName ∧ lower gzipName = gzipName ∧ lower xGzipName = xGzipName := by decide

theorem namesBlank : ([] : Text) ≠ brotliName ∧ [] ≠ gzipName ∧ [] ≠ xGzipName ∧ [] ≠ star := by decide

theorem compressionFair (self : Compression) : Fair self.grants where
  blank algorithm := by
    obtain ⟨brotli, gzip, xGzip, wild⟩ := namesBlank
    cases algorithm <;> simp [Compression.grants, brotli, gzip, xGzip, wild]
  sound algorithm member taken := by
    obtain ⟨brotli, gzip, xGzip⟩ := namesLower
    cases algorithm with
    | brotli =>
      simp only [Compression.grants, Bool.and_eq_true, Bool.or_eq_true, decide_eq_true_eq] at taken
      rcases taken.2 with named | wild
      · exact .inl (by simp [names, named, brotli])
      · exact .inr (by simp [isStar, wild])
    | gzip =>
      simp only [Compression.grants, Bool.and_eq_true, Bool.or_eq_true, decide_eq_true_eq] at taken
      rcases taken.2 with (named | named) | ⟨wild, _⟩
      · exact .inl (by simp [names, named, gzip])
      · exact .inl (by simp [names, named, xGzip])
      · exact .inr (by simp [isStar, wild])

theorem staticFair : Fair staticGrants where
  blank algorithm := by
    obtain ⟨brotli, gzip, xGzip, wild⟩ := namesBlank
    cases algorithm <;> simp [staticGrants, brotli, gzip, xGzip, wild]
  sound algorithm member taken := by
    obtain ⟨brotli, gzip, xGzip⟩ := namesLower
    cases algorithm with
    | brotli =>
      simp only [staticGrants, decide_eq_true_eq] at taken
      exact .inl (by simp [names, taken, brotli])
    | gzip =>
      simp only [staticGrants, Bool.or_eq_true, decide_eq_true_eq] at taken
      rcases taken with (named | named) | wild
      · exact .inl (by simp [names, named, gzip])
      · exact .inl (by simp [names, named, xGzip])
      · exact .inr (by simp [isStar, wild])

theorem refusalsHonouredUnlessClash (field : Field) :
    (∀ self : Compression, Honoured self.negotiate field ↔ ¬ Clash self.grants field .brotli ∧
      (Clash self.grants field .gzip → ∃ member ∈ field.members, For self.grants .brotli member)) ∧
    (Honoured parseAcceptEncoding field ↔ ¬ Clash staticGrants field .brotli ∧
      (Clash staticGrants field .gzip → ∃ member ∈ field.members, For staticGrants .brotli member)) :=
  ⟨fun self => honouredIff (compressionFair self) (negotiateSelects self) field,
    honouredIff staticFair parseSelects field⟩

def noSpace : Ows := ⟨[], by simp⟩
def oneSpace : Ows := ⟨[' '], by simp⟩
def zeroQuality : QValue := ⟨false, none, by simp, by simp⟩

def refusedGzip : Field :=
  [.entry noSpace ⟨⟨gzipName, by decide, List.all_eq_true.mp (by decide)⟩, some ⟨noSpace, noSpace, false, zeroQuality⟩⟩ noSpace,
    .entry oneSpace ⟨⟨star, by decide, List.all_eq_true.mp (by decide)⟩, none⟩ noSpace]

theorem starGrantsRefused :
    refusedGzip.text = "gzip;q=0, *".toList ∧ ¬ Honoured Compression.gzipOnly.negotiate refusedGzip ∧
      ¬ Honoured parseAcceptEncoding refusedGzip := by
  have refused : Refuses refusedGzip .gzip := .inl ⟨_, List.mem_cons_self, by decide, by decide⟩
  have text : refusedGzip.text = "gzip;q=0, *".toList := by decide
  refine ⟨text, fun honoured => honoured .gzip ?_ refused, fun honoured => honoured .gzip ?_ refused⟩
  · rw [text]
    decide
  · rw [text]
    decide

end Silent.EncodingRefusals
