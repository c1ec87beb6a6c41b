import Silent.PathCaptures
import Silent.RouteRegistration

/-! Integer path parameters: which texts a segment `<k:T>` takes, what its capture is, and
what reading the parameter back as the Rust type gives. -/
namespace Silent.TypedParams
open ByteText PathSegment HttpRequest RouteBuilder RouteShape RouteTable Dispatch SegmentSpec RouterSearch RouterRefinement
open RouteChains RouterCompleteness RouteRegistration MiddlewareOnion PathCaptures

inductive IntType where
  | int | i32 | i64 | u32 | u64
  deriving DecidableEq

namespace IntType

def name : IntType → Text
  | .int => "int".toList
  | .i32 => "i32".toList
  | .i64 => "i64".toList
  | .u32 => "u32".toList
  | .u64 => "u64".toList

def low : IntType → Int
  | .int | .i32 => -2147483648
  | .i64 => -9223372036854775808
  | .u32 | .u64 => 0

def high : IntType → Int
  | .int | .i32 => 2147483648
  | .i64 => 9223372036854775808
  | .u32 => 4294967296
  | .u64 => 18446744073709551616

abbrev Value (T : IntType) := Ranged T.low T.high

def signed : IntType → Bool
  | .int | .i32 | .i64 => true
  | .u32 | .u64 => false

def parse (T : IntType) : Text → Option T.Value := parseInteger T.signed T.low T.high

def special : IntType → Text → SpecialSeg
  | .int => .int
  | .i32 => .i32
  | .i64 => .i64
  | .u32 => .u32
  | .u64 => .u64

end IntType

def typedSegment (key : Text) (T : IntType) : Text := '<' :: (key ++ ':' :: (T.name ++ ['>']))

def i32TryFrom : PathParam → SilentResult I32
  | .int v => .ok v
  | .int32 v => .ok v
  | _ => .error .paramsNotFound

def i32AsI64 (v : I32) : I64 := ⟨v.val, by have := v.property; omega⟩

def i64TryFrom : PathParam → SilentResult I64
  | .int64 v => .ok v
  | .int v => .ok (i32AsI64 v)
  | .int32 v => .ok (i32AsI64 v)
  | _ => .error .paramsNotFound

def u64TryFrom : PathParam → SilentResult U64
  | .uInt64 v => .ok v
  | _ => .error .paramsNotFound

def u32TryFrom : PathParam → SilentResult U32
  | .uInt32 v => .ok v
  | _ => .error .paramsNotFound

def IntType.tryFrom : (T : IntType) → PathParam → SilentResult T.Value
  | .int, param | .i32, param => i32TryFrom param
  | .i64, param => i64TryFrom param
  | .u32, param => u32TryFrom param
  | .u64, param => u64TryFrom param

def getPathParams {V : Type} (T : IntType) (req : Request V) (key : Text) : SilentResult T.Value :=
  match req.pathParams.lookup key with
  | some value => T.tryFrom value
  | none => .error .paramsNotFound

/- Decimal numerals and the numbers they stand for. -/
inductive Numeral (signed : Bool) : Text → Int → Prop
  | plain {digits} (some_ : digits ≠ []) (digital : ∀ c ∈ digits, c.isDigit = true) :
      Numeral signed digits (Nat.ofDigitChars 10 digits 0)
  | plus {digits} (some_ : digits ≠ []) (digital : ∀ c ∈ digits, c.isDigit = true) :
      Numeral signed ('+' :: digits) (Nat.ofDigitChars 10 digits 0)
  | minus {digits} (sign : signed = true) (some_ : digits ≠ []) (digital : ∀ c ∈ digits, c.isDigit = true) :
      Numeral signed ('-' :: digits) (-(Nat.ofDigitChars 10 digits 0 : Int))

def denoted : Text → Int
  | '+' :: digits => Nat.ofDigitChars 10 digits 0
  | '-' :: digits => -(Nat.ofDigitChars 10 digits 0 : Int)
  | digits => Nat.ofDigitChars 10 digits 0

theorem numeralDenoted {signed : Bool} {s : Text} {n : Int} (numeral : Numeral signed s n) : n = denoted s := by
  cases numeral with
  | plus some_ digital => rfl
  | minus sign some_ digital => rfl
  | plain some_ digital =>
    unfold denoted
    split
    · exact absurd (digital '+' List.mem_cons_self) (by decide)
    · exact absurd (digital '-' List.mem_cons_self) (by decide)
    · rfl

theorem digitValueIs (c : Char) : digitValue c = if c.isDigit = true then some (c.toNat - '0'.toNat) else none := by
  have same : c.isDigit = true ↔ '0'.toNat ≤ c.toNat ∧ c.toNat ≤ '9'.toNat := by
    change (decide (c.val ≥ '0'.val) && decide (c.val ≤ '9'.val)) = true ↔ _
    rw [Bool.and_eq_true, decide_eq_true_eq, decide_eq_true_eq]
    exact Iff.rfl
  unfold digitValue
  simp only [same]

theorem parseDigitsIff (value : Nat) (s : Text) (n : Nat) :
    parseDigits value s = some n ↔ (∀ c ∈ s, c.isDigit = true) ∧ n = Nat.ofDigitChars 10 s value := by
  induction s generalizing value with
  | nil =>
    rw [parseDigits, Nat.ofDigitChars_nil, Option.some.injEq]
    exact ⟨fun same => ⟨List.forall_mem_nil _, same.symm⟩, fun same => same.2.symm⟩
  | cons c cs ih =>
    rw [parseDigits, digitValueIs, Nat.ofDigitChars_cons, List.forall_mem_cons, Nat.mul_comm 10 value]
    by_cases digit : c.isDigit = true
    · rw [if_pos digit]
      exact (ih _).trans (by rw [and_iff_right digit])
    · rw [if_neg digit]
      exact ⟨fun found => (by cases found), fun both => absurd both.1.1 digit⟩

theorem toRangedIff {lo hi n : Int} {v : Ranged lo hi} : toRanged lo hi n = some v ↔ n = v.val := by
  unfold toRanged
  constructor
  · intro found
    split at found
    · cases found
      rfl
    · cases found
  · intro same
    subst same
    rw [dif_pos v.property]

theorem parseReads {signed : Bool} {lo hi : Int} {s : Text} {v : Ranged lo hi}
    (parsed : parseInteger signed lo hi s = some v) : Numeral signed s v.val := by
  have digitsOf : ∀ (sign : Int → Int) {value : Text},
      ((parseDigits 0 value).bind fun n => toRanged lo hi (sign n)) = some v →
      (∀ c ∈ value, c.isDigit = true) ∧ v.val = sign (Nat.ofDigitChars 10 value 0) := by
    intro sign value found
    obtain ⟨n, digits, ranged⟩ := Option.bind_eq_some_iff.mp found
    obtain ⟨digital, rfl⟩ := (parseDigitsIff 0 value n).mp digits
    exact ⟨digital, (toRangedIff.mp ranged).symm⟩
  unfold parseInteger at parsed
  split at parsed
  · cases parsed
  · cases parsed
  · cases parsed
  · rename_i c rest plus minus
    have more : ∀ sign, c = sign → (sign = '+' ∨ sign = '-') → rest ≠ [] := by
      intro sign same which empty
      subst same empty
      rcases which with rfl | rfl
      · exact plus rfl rfl
      · exact minus rfl rfl
    split at parsed
    · rename_i isPlus
      obtain ⟨digital, same⟩ := digitsOf id parsed
      rw [same, isPlus]
      exact .plus (more '+' isPlus (.inl rfl)) digital
    · split at parsed
      · rename_i isMinus
        obtain ⟨digital, same⟩ := digitsOf (fun n => -n) parsed
        rw [same, isMinus.1]
        exact .minus isMinus.2 (more '-' isMinus.1 (.inr rfl)) digital
      · obtain ⟨digital, same⟩ := digitsOf id parsed
        rw [same]
        exact .plain (List.cons_ne_nil _ _) digital

theorem numeralParses {signed : Bool} {lo hi : Int} {s : Text} {v : Ranged lo hi} (numeral : Numeral signed s v.val) :
    parseInteger signed lo hi s = some v := by
  generalize denoted : v.val = n at numeral
  have digitsParse : ∀ {digits : Text} (sign : Int → Int), (∀ c ∈ digits, c.isDigit = true) →
      v.val = sign (Nat.ofDigitChars 10 digits 0) →
      ((parseDigits 0 digits).bind fun n => toRanged lo hi (sign n)) = some v := by
    intro digits sign digital same
    rw [(parseDigitsIff 0 digits _).mpr ⟨digital, rfl⟩]
    exact toRangedIff.mpr same.symm
  cases numeral with
  | @plain digits some_ digital =>
    obtain ⟨c, rest, rfl⟩ := List.exists_cons_of_ne_nil some_
    have head := digital c List.mem_cons_self
    have notPlus : c ≠ '+' := fun same => absurd (same ▸ head) (by decide)
    have notMinus : c ≠ '-' := fun same => absurd (same ▸ head) (by decide)
    unfold parseInteger
    split
    · rename_i empty
      cases empty
    · rename_i plus
      exact absurd (List.cons.inj plus).1 notPlus
    · rename_i minus
      exact absurd (List.cons.inj minus).1 notMinus
    · rename_i c' rest' _ _ whole
      cases whole
      rw [if_neg notPlus, if_neg fun both => notMinus both.1]
      exact digitsParse id digital denoted
  | @plus digits some_ digital =>
    obtain ⟨c, rest, rfl⟩ := List.exists_cons_of_ne_nil some_
    exact digitsParse id digital denoted
  | @minus digits sign some_ digital =>
    obtain ⟨c, rest, rfl⟩ := List.exists_cons_of_ne_nil some_
    subst sign
    exact digitsParse (fun n => -n) digital denoted

theorem parseIff (T : IntType) (s : Text) (v : T.Value) : T.parse s = some v ↔ Numeral T.signed s v.val :=
  ⟨parseReads, numeralParses⟩

def numeral (v : Int) : Text := if v < 0 then '-' :: Nat.toDigits 10 v.natAbs else Nat.toDigits 10 v.natAbs

theorem numeralDenotes {signed : Bool} {v : Int} (sign : v < 0 → signed = true) : Numeral signed (numeral v) v := by
  have digital : ∀ c ∈ Nat.toDigits 10 v.natAbs, c.isDigit = true := fun c among =>
    Nat.isDigit_of_mem_toDigits (by decide) (by decide) among
  have value : Nat.ofDigitChars 10 (Nat.toDigits 10 v.natAbs) 0 = v.natAbs := Nat.ofDigitChars_ten_toDigits
  unfold numeral
  split
  · rename_i negative
    have read := Numeral.minus (sign negative) Nat.toDigits_ne_nil digital
    rwa [value, Int.ofNat_natAbs_of_nonpos (Int.le_of_lt negative), Int.neg_neg] at read
  · rename_i positive
    have read : Numeral signed _ _ := .plain Nat.toDigits_ne_nil digital
    rwa [value, Int.natAbs_of_nonneg (Int.not_lt.mp positive)] at read

theorem typedNumeral (T : IntType) (v : T.Value) : Numeral T.signed (numeral v.val) v.val := by
  refine numeralDenotes fun negative => ?_
  have least := v.property.1
  cases T with
  | int | i32 | i64 => rfl
  | u32 | u64 => exact absurd least (Int.not_le.mpr negative)

theorem typedSpecial (T : IntType) {key : Text} (plain : ':' ∉ key) : parseSpecialSeg (typedSegment key T) = T.special key := by
  have shape : typedSegment key T = ('<' :: (key ++ ':' :: T.name)) ++ ['>'] := by simp [typedSegment]
  have filled : typedSegment key T ≠ [] := List.cons_ne_nil _ _
  have inner : ((typedSegment key T).drop 1).dropLast = key ++ ':' :: T.name := by
    rw [shape, List.cons_append, List.drop_succ_cons, List.drop_zero, List.dropLast_concat]
  have special : isSpecial (typedSegment key T) = true := by
    rw [isSpecial, shape, List.getLast?_concat]
    rfl
  rw [parseSpecialSeg, if_neg filled, if_pos special, specialPath]
  simp only [inner, splitFirstAppend plain]
  cases T <;> rfl

def IntType.reading : (T : IntType) → T.Value → Reading
  | .int => .int
  | .i32 => .int
  | .i64 => .int64
  | .u32 => .uInt32
  | .u64 => .uInt64

theorem valueOfSpecial (plat : Platform) (T : IntType) (key rest : Text) :
    valueOf plat (T.special key) rest = (T.parse (firstSegment rest)).map T.reading := by
  cases T <;> rfl

theorem keyOfSpecial (T : IntType) (key : Text) : keyOf (T.special key) = some key := by cases T <;> rfl

theorem i32Read {param : PathParam} {v : I32} (read : reading param = some (.int v)) : i32TryFrom param = .ok v := by
  cases param with
  | int w | int32 w =>
    cases read
    rfl
  | str w | path w =>
    obtain ⟨text, _, other⟩ := Option.map_eq_some_iff.mp read
    cases other
  | int64 w | uInt64 w | uInt32 w | uuid w => cases read

theorem tryFromRead (T : IntType) {param : PathParam} {v : T.Value} (read : reading param = some (T.reading v)) :
    T.tryFrom param = .ok v := by
  cases T with
  | int | i32 => exact i32Read read
  | i64 | u32 | u64 =>
    cases param with
    | str w | path w =>
      obtain ⟨text, _, other⟩ := Option.map_eq_some_iff.mp read
      cases other
    | _ => cases read <;> rfl

theorem matchTyped (plat : Platform) (full path : Slice) (childless : Bool) (T : IntType) (key : Text) :
    (matchSegment plat (T.special key) childless path full).isSome ↔
      ∃ v : T.Value, Numeral T.signed (firstSegment path.text) v.val := by
  have first := (stripOneSegmentText plat path).1
  have taken : ∀ (capture : T.Value → PathMatchCapture), (matchParsed plat T.parse capture path).isSome ↔
      ∃ v : T.Value, Numeral T.signed (firstSegment path.text) v.val := by
    intro capture
    simp only [matchParsed, first, ← parseIff, ← Option.isSome_iff_exists]
    split
    · rename_i empty
      rw [empty]
      cases T <;> exact ⟨fun none_ => (by cases none_), fun none_ => (by cases none_)⟩
    · cases parsed : T.parse (firstSegment path.text) <;> simp
  cases T <;> exact taken _

variable {H M V R : Type}

theorem capturedRead {plat : Platform} {full : Slice} {chain : List (Step H M V)} {req : Request V} {key : Text}
    {step : Step H M V} {T : IntType} (tracked : Tracks plat full chain req.pathParams) (last : deepest chain key = some step)
    (typed : segmentOf step.1 = T.special key) :
    ∃ v : T.Value, Numeral T.signed (firstSegment step.2) v.val ∧ getPathParams T req key = .ok v := by
  have own := tracked key
  rw [last] at own
  obtain ⟨param, value, found, valued, reads⟩ := own
  have clear : ¬Misread plat full (segmentOf step.1) step.2 := by
    rw [typed]
    intro misread
    have never := misread.1
    cases T <;> cases never
  rw [if_neg clear] at reads
  rw [typed, valueOfSpecial] at valued
  obtain ⟨v, parsed, rfl⟩ := Option.map_eq_some_iff.mp valued
  refine ⟨v, (parseIff T _ v).mp parsed, ?_⟩
  rw [getPathParams, found]
  exact tryFromRead T reads

theorem deepestAt {before after : List (Step H M V)} {step : Step H M V} {key : Text} (hit : binds key step = true)
    (none_ : ∀ later ∈ after, binds key later = false) : deepest (before ++ step :: after) key = some step := by
  have missed : after.reverse.find? (binds key) = none :=
    List.find?_eq_none.mpr fun later among => by simp [none_ later (List.mem_reverse.mp among)]
  rw [deepest, List.reverse_append, List.reverse_cons, List.append_assoc, List.find?_append, missed, Option.none_or,
    List.singleton_append, List.find?_cons_of_pos hit]

/- Of every typed segment of the chain whose name no later one takes, the parameter reads
as the number its piece stands for. -/
def Reads (chain : List (Step H M V)) (req : Request V) : Prop :=
  ∀ before step after key T, chain = before ++ step :: after → ':' ∉ key → step.1.path = typedSegment key T →
    (∀ later ∈ after, binds key later = false) →
    ∃ v : T.Value, Numeral T.signed (firstSegment step.2) v.val ∧ getPathParams T req key = .ok v

theorem trackedReads {plat : Platform} {full : Slice} {chain : List (Step H M V)} {req : Request V}
    (tracked : Tracks plat full chain req.pathParams) : Reads chain req := by
  intro before step after key T whole plain path none_
  have typed : segmentOf step.1 = T.special key := by rw [segmentOf, path, typedSpecial T plain]
  have hit : binds key step = true := by rw [binds, typed, keyOfSpecial, decide_eq_true_eq]
  exact capturedRead tracked (whole ▸ deepestAt hit none_) typed

theorem servedReads {env : Env H M V R (Traced (Event H M V))} (observes : Observes env) {plat : Platform}
    {buffer : Nat} {r : Route H M V} {req seen : Request V} {map : HashMap Method H} (fresh : req.pathParams = ∅)
    (called : .served map seen ∈ events (answerRoot env plat buffer r req)) :
    ∃ chain last, Spells plat r req.uriPath chain ∧ chain.getLast? = some last ∧ map = last.1.handler ∧
      served last.1 = true ∧ Reads chain seen := by
  obtain ⟨hits, first, handles, same, tracked⟩ := callObserved observes fresh called
  obtain ⟨found, matched, matches_⟩ := rootStopsMatch (List.mem_of_head? first)
  obtain ⟨rest, last⟩ := chainLast r ⟨buffer, req.uriPath⟩ hits
  exact ⟨chainOf r ⟨buffer, req.uriPath⟩ hits, _, matchesSpells matches_ (matchSegmentTakes matched), last, same, handles,
    trackedReads tracked⟩

inductive Pieced (plat : Platform) : List Text → List Text → Text → Prop
  | last {seg piece} (fits : Fits plat (parseSpecialSeg seg) piece) : Pieced plat [seg] [piece] piece
  | open_ {seg piece} (fits : Fits plat (parseSpecialSeg seg) piece) (full : (parseSpecialSeg seg).isFullPath = true)
      (after : Text) : Pieced plat [seg] [piece] (piece ++ '/' :: after)
  | step {seg segs piece pieces rest} (fits : Fits plat (parseSpecialSeg seg) piece) (later : Pieced plat segs pieces rest) :
      Pieced plat (seg :: segs) (piece :: pieces) (piece ++ '/' :: rest)

theorem numeralFits {plat : Platform} {T : IntType} {key s : Text} (plain : ':' ∉ key) {v : T.Value}
    (numeral : Numeral T.signed s v.val) : Fits plat (parseSpecialSeg (typedSegment key T)) s := by
  have slashless : ∀ {digits : Text}, (∀ c ∈ digits, c.isDigit = true) → '/' ∉ digits := fun digital inside =>
    absurd (digital '/' inside) (by decide)
  have parsed : (T.parse s).isSome := Option.isSome_iff_exists.mpr ⟨v, (parseIff T s v).mpr numeral⟩
  have occupied : s ≠ [] := by
    intro empty
    subst empty
    cases T <;> cases parsed
  rw [typedSpecial T plain]
  refine ⟨occupied, ?_, by cases T <;> exact parsed⟩
  generalize v.val = n at numeral
  cases numeral with
  | plain some_ digital => exact slashless digital
  | plus some_ digital => exact fun inside => slashless digital ((List.mem_cons.mp inside).resolve_left (by decide))
  | minus sign some_ digital => exact fun inside => slashless digital ((List.mem_cons.mp inside).resolve_left (by decide))

theorem piecedWritten {plat : Platform} {segs pieces : List Text} {text : Text} (pieced : Pieced plat segs pieces text) :
    Written plat segs text := by
  induction pieced with
  | last fits => exact .last fits
  | open_ fits full after => exact .open_ fits full after
  | step fits later ih => exact .step fits ih

theorem pieceBefore {plat : Platform} {segment : SpecialSeg} {piece : Text} (fits : Fits plat segment piece) {rest more : Text}
    (starts : trimSlash rest = piece ∨ trimSlash rest = piece ++ '/' :: more) : firstSegment rest = piece := by
  rw [firstSegment]
  rcases starts with whole | more
  · rw [whole, splitFirstAbsent fits.2.1]
  · rw [more, splitFirstAppend fits.2.1]

theorem framedAfter {rest piece after more : Text} (some_ : piece ≠ []) (plain : '/' ∉ piece)
    (framed : Framed rest piece after) (starts : trimSlash rest = piece ++ '/' :: more) : after = more := by
  obtain ⟨lead, tail, whole, front, back⟩ := framed
  have trimmed : trimSlash rest = piece ++ (tail ++ after) := by
    rcases front with rfl | rfl
    · obtain ⟨c, cs, rfl⟩ := List.exists_cons_of_ne_nil some_
      have other : c ≠ '/' := fun same => plain (by simp [same])
      rw [whole, List.nil_append, List.cons_append]
      unfold trimSlash
      split
      · rename_i begins
        exact absurd (List.cons.inj begins).1 other
      · rfl
    · rw [whole]
      rfl
  have ends := List.append_cancel_left (trimmed.symm.trans starts)
  rcases back with ⟨rfl, rfl⟩ | rfl
  · cases ends
  · exact (List.cons.inj ends).2

theorem takesAfter {plat : Platform} {segment : SpecialSeg} {piece rest after more : Text} (fits : Fits plat segment piece)
    (starts : trimSlash rest = piece ++ '/' :: more) (taken : Takes plat segment rest after) : after = more := by
  have first := pieceBefore fits (.inr starts)
  obtain ⟨some_, plain, kind⟩ := fits
  refine framedAfter some_ plain ?_ starts
  cases segment with
  | root => exact kind.elim
  | static value =>
    subst kind
    rcases taken with ⟨empty, _⟩ | ⟨_, framed⟩
    · exact absurd empty some_
    · exact framed
  | path key | fullPath key => exact first ▸ taken
  | string key | int key | i32 key | i64 key | u64 key | u32 key | uuid key => exact first ▸ taken.2.2

theorem lineSpells {plat : Platform} {segs : List Text} {map : HashMap Method H} {r : Route H M V} (line : Line segs map r)
    {pieces : List Text} {text rest : Text} {chain : List (Step H M V)} {last : Step H M V}
    (pieced : Pieced plat segs pieces text) (starts : trimSlash rest = text) (spells : Spells plat r rest chain)
    (ends : chain.getLast? = some last) (handles : served last.1 = true) :
    chain.map (fun step => (step.1.path, firstSegment step.2)) = segs.zip pieces := by
  induction line generalizing pieces text rest chain with
  | @leaf seg map r plain path created childless handler =>
    subst path
    cases spells with
    | child taken mem below => simp [childless] at mem
    | last taken stop =>
      cases pieced with
      | last fits =>
        have alone : trimSlash rest = text ∨ trimSlash rest = text ++ '/' :: [] := .inl starts
        simp [pieceBefore fits alone]
      | open_ fits full after =>
        have first := pieceBefore fits (.inr starts)
        simp [first]
      | step fits later => cases later
  | @step seg segs map r c plain path created children idle below ih =>
    subst path
    cases spells with
    | last taken stop =>
      cases Option.some.inj ends
      change (!r.handler.entries.isEmpty) = true at handles
      rw [idle] at handles
      cases handles
    | @child _ c' _ after below' taken mem spells =>
      rw [children, List.mem_singleton] at mem
      subst mem
      cases pieced with
      | last fits | open_ fits full after => cases below
      | @step _ _ piece pieces rest' fits later =>
        have next := takesAfter fits starts taken
        subst next
        have first := pieceBefore fits (.inr starts)
        have nonempty : below' ≠ [] := by cases spells <;> exact List.cons_ne_nil _ _
        have tail := ih later (writtenPlain (piecedWritten later)) spells
          (by rwa [List.getLast?_cons_of_ne_nil nonempty] at ends)
        rw [List.map_cons, tail, first]
        rfl

theorem recordingObserves : Observes (recording : Env H M V R (Traced (Event H M V))) where
  handlers _ _ := rfl
  middlewares _ req _ _ _ called := ⟨req, rfl, called⟩

theorem lineReads (R : Type) {plat : Platform} (order : RouteTree.HashOrder) (buffer : Nat) {segs pieces : List Text}
    {map : HashMap Method H} {r : Route H M V} (line : Line segs map r) (occupied : map.entries ≠ []) {req : Request V}
    (fresh : req.pathParams = ∅) {text : Text} (path : req.uriPath = '/' :: text) (pieced : Pieced plat segs pieces text) :
    ∃ bound : Request V, (∀ (m : Type → Type) [Monad m] (env : Env H M V R m), PassThrough env →
        RouteTree.call env plat (RouteTree.candidateIndices plat order) buffer (RouteTree.convertToRouteTree r) req =
          env.callHandlers map bound) ∧
      ∃ chain : List (Step H M V), chain.map (fun step => (step.1.path, firstSegment step.2)) = segs.zip pieces ∧ Reads chain bound := by
  have written : WrittenPath plat segs req.uriPath := .inr ⟨text, path, piecedWritten pieced⟩
  obtain ⟨bound, reached⟩ := lineServes (R := R) order buffer line occupied written
  refine ⟨bound, reached, ?_⟩
  have recorded := reached _ recording recordingPasses
  simp only [callConverted] at recorded
  have called : .served map bound ∈ events (answerRoot (R := R) recording plat buffer r req) := by
    rw [recorded]
    exact List.mem_singleton_self _
  obtain ⟨chain, last, spells, ends, _, handles, reads⟩ := servedReads recordingObserves fresh called
  have starts : trimSlash req.uriPath = text := by rw [path]; rfl
  exact ⟨chain, lineSpells line pieced starts spells ends handles, reads⟩

def RoundTrips (H M V R : Type) (plat : Platform) (order : RouteTree.HashOrder) (buffer : Nat) (path : Text)
    (before : List Text) (key : Text) (T : IntType) : Prop :=
  ∀ (method : Method) (handler : H), ∃ r, (Route.new path : Route H M V).onMethod method handler = some r ∧
    ∀ (v : T.Value) (front back : List Text) (text : Text) (req : Request V), front.length = before.length →
      Pieced plat (nodeKey path) (front ++ numeral v.val :: back) text → req.pathParams = ∅ → req.uriPath = '/' :: text →
      ∃ (map : HashMap Method H) (bound : Request V), map.lookup method = some handler ∧
        (∀ (m : Type → Type) [Monad m] (env : Env H M V R m), PassThrough env →
          RouteTree.call env plat (RouteTree.candidateIndices plat order) buffer (RouteTree.convertToRouteTree r) req =
            env.callHandlers map bound) ∧
        getPathParams T bound key = .ok v

theorem zipSplit {α β : Type} {before after : List α} {front back : List β} {a : α} {b : β}
    (same : front.length = before.length) :
    (before ++ a :: after).zip (front ++ b :: back) = before.zip front ++ (a, b) :: after.zip back := by
  rw [List.zip_append same.symm, List.zip_cons_cons]

theorem typedRoundTrip (H M V R : Type) (plat : Platform) (order : RouteTree.HashOrder) (buffer : Nat) {path : Text} (tidy : Tidy path)
    {before after : List Text} {key : Text} {T : IntType} (segs : nodeKey path = before ++ typedSegment key T :: after)
    (plain : ':' ∉ key) (later : ∀ seg ∈ after, keyOf (parseSpecialSeg seg) ≠ some key) :
    RoundTrips H M V R plat order buffer path before key T := by
  intro method handler
  obtain ⟨r, registered, line, _⟩ := lineHandler (tidyLine tidy : Line (nodeKey path) ∅ (Route.new path : Route H M V))
    (·.insert method handler)
  refine ⟨r, registered, fun v front back text req same pieced fresh uri => ?_⟩
  obtain ⟨bound, reached, chain, shape, reads⟩ := lineReads R order buffer line (by simp) fresh uri pieced
  refine ⟨_, bound, AList.lookup_insert _, reached, ?_⟩
  rw [segs, zipSplit same] at shape
  obtain ⟨first, rest, rfl, _, restShape⟩ := List.map_eq_append_iff.mp shape
  obtain ⟨step, last, rfl, stepShape, lastShape⟩ := List.map_eq_cons_iff.mp restShape
  obtain ⟨stepPath, stepPiece⟩ := Prod.mk.inj stepShape
  have clear : ∀ other ∈ last, binds key other = false := by
    intro other among
    have inside : other.1.path ∈ after := by
      have paired : (other.1.path, firstSegment other.2) ∈ after.zip back := lastShape ▸ List.mem_map_of_mem among
      exact (List.of_mem_zip paired).1
    rw [binds, decide_eq_false_iff_not]
    exact later _ inside
  obtain ⟨w, denoted, read⟩ := reads first step last key T rfl plain stepPath clear
  rw [stepPiece] at denoted
  have equal : w = v := by
    have one := (parseIff T _ w).mpr denoted
    have other := (parseIff T _ v).mpr (typedNumeral T v)
    exact Option.some.inj (one.symm.trans other)
  exact equal ▸ read

/- Which pieces a segment `<key:T>` takes, what the handler reads of it in any tree, and
that on a route of its own every value comes back from its numeral. -/
theorem typedParamsRoundTrip (H M V R : Type) (plat : Platform) (order : RouteTree.HashOrder) (buffer : Nat) (key : Text)
    (plain : ':' ∉ key) (T : IntType) :
    (∀ (c : Route H M V) (full : Slice) (rest : Text), c.path = typedSegment key T →
      ((matchAt plat full c rest).isSome ↔ ∃ v : T.Value, Numeral T.signed (firstSegment rest) v.val)) ∧
    (∀ v : T.Value, Numeral T.signed (numeral v.val) v.val ∧ ∀ n, Numeral T.signed (numeral v.val) n → n = v.val) ∧
    (∀ (r : Route H M V) (req : Request V), req.pathParams = ∅ → ∀ env : Env H M V R (Traced (Event H M V)), Observes env →
      ∀ map seen, .served map seen ∈ events (RouteTree.call env plat (RouteTree.candidateIndices plat order) buffer
        (RouteTree.convertToRouteTree r) req) →
      ∃ chain last, Spells plat r req.uriPath chain ∧ chain.getLast? = some last ∧ map = last.1.handler ∧ Reads chain seen) ∧
    ∀ path before after, Tidy path → nodeKey path = before ++ typedSegment key T :: after →
      (∀ seg ∈ after, keyOf (parseSpecialSeg seg) ≠ some key) → RoundTrips H M V R plat order buffer path before key T := by
  refine ⟨fun c full rest path => ?_, fun v => ⟨typedNumeral T v, fun n numeral => ?_⟩, ?_, ?_⟩
  · have typed : segmentOf c = T.special key := by rw [segmentOf, path, typedSpecial T plain]
    rw [matchAt, typed]
    exact matchTyped plat full (suffixSlice full rest) c.children.isEmpty T key
  · rw [numeralDenoted numeral]
    exact (numeralDenoted (typedNumeral T v)).symm
  · intro r req fresh env observes map seen called
    rw [callConverted] at called
    obtain ⟨chain, last, spells, ends, same, _, reads⟩ := servedReads observes fresh called
    exact ⟨chain, last, spells, ends, same, reads⟩
  · exact fun path before after tidy segs later => typedRoundTrip H M V R plat order buffer tidy segs plain later

def userPath : Text := "users/<id:i64>".toList

theorem userRoundTrips :
    RoundTrips Unit Unit Unit Unit literalAbove entryOrder 64 userPath ["users".toList] "id".toList .i64 := by
  have all := typedParamsRoundTrip Unit Unit Unit Unit literalAbove entryOrder 64 "id".toList (by decide) .i64
  exact all.2.2.2 userPath ["users".toList] [] (by decide) (by decide) (List.forall_mem_nil _)

theorem otherTypeMissed {req : Request V} {key : Text} {v : U64} (read : getPathParams .u64 req key = .ok v) :
    getPathParams .i64 req key = .error .paramsNotFound := by
  unfold getPathParams at read ⊢
  cases found : req.pathParams.lookup key with
  | none => rfl
  | some param =>
    rw [found] at read
    cases param with
    | uInt64 w => rfl
    | str | int | int64 | int32 | uInt32 | uuid | path => cases read

def twiceNamed : Text := "<id:i64>/<id:u64>".toList

theorem laterNameTakes : ∃ (r : Route Unit Unit Unit) (map : HashMap Method Unit) (bound : Request Unit),
    (Route.new twiceNamed).onMethod .get () = some r ∧
    (∀ (m : Type → Type) [Monad m] (env : Env Unit Unit Unit Unit m), PassThrough env →
      RouteTree.call env literalAbove (RouteTree.candidateIndices literalAbove entryOrder) 64
        (RouteTree.convertToRouteTree r) (Request.fromParts .get "/5/7".toList) = env.callHandlers map bound) ∧
    getPathParams .i64 bound "id".toList = .error .paramsNotFound := by
  have segs : nodeKey twiceNamed = [typedSegment "id".toList .i64] ++ typedSegment "id".toList .u64 :: [] := by decide
  obtain ⟨r, registered, trips⟩ := typedRoundTrip Unit Unit Unit Unit literalAbove entryOrder 64
    (show Tidy twiceNamed by decide) segs (by decide) (List.forall_mem_nil _) .get ()
  have first := typedNumeral .i64 ⟨5, by decide⟩
  have second := typedNumeral .u64 ⟨7, by decide⟩
  have pieced : Pieced literalAbove (nodeKey twiceNamed) (["5".toList] ++ numeral 7 :: []) "5/7".toList :=
    segs ▸ .step (numeralFits (by decide) first) (.last (numeralFits (by decide) second))
  obtain ⟨map, bound, _, reached, read⟩ := trips ⟨7, by decide⟩ ["5".toList] [] "5/7".toList
    (Request.fromParts .get "/5/7".toList) rfl pieced rfl rfl
  exact ⟨r, map, bound, registered, reached, otherTypeMissed read⟩

end Silent.TypedParams
