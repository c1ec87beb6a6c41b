import Silent.TypedParams
import Silent.RecordVisitor

/-! The extractor `Path<T>`: the captures of a request turned back into strings and read as
the fields of a struct, or, where there is only one, as the whole of `T`. What the standard
library makes of floats, and what it says of a text it refuses, is given from outside. -/
namespace Silent.PathExtractor
open ByteText PathSegment HttpRequest TypedParams RecordVisitor

structure Std where
  F32 : Type
  F64 : Type
  parseF32 : Text → Option F32
  parseF64 : Text → Option F64
  complaint : Text → Text → Text

inductive IntKind where
  | u8 | u16 | u32 | u64 | u128 | usize
  | i8 | i16 | i32 | i64 | i128 | isize
  deriving DecidableEq

namespace IntKind

def name : IntKind → Text
  | .u8 => "u8".toList
  | .u16 => "u16".toList
  | .u32 => "u32".toList
  | .u64 => "u64".toList
  | .u128 => "u128".toList
  | .usize => "usize".toList
  | .i8 => "i8".toList
  | .i16 => "i16".toList
  | .i32 => "i32".toList
  | .i64 => "i64".toList
  | .i128 => "i128".toList
  | .isize => "isize".toList

def low : IntKind → Int
  | .u8 | .u16 | .u32 | .u64 | .u128 | .usize => 0
  | .i8 => -128
  | .i16 => -32768
  | .i32 => -2147483648
  | .i64 | .isize => -9223372036854775808
  | .i128 => -170141183460469231731687303715884105728

def high : IntKind → Int
  | .u8 => 256
  | .u16 => 65536
  | .u32 => 4294967296
  | .u64 | .usize => 18446744073709551616
  | .u128 => 340282366920938463463374607431768211456
  | .i8 => 128
  | .i16 => 32768
  | .i32 => 2147483648
  | .i64 | .isize => 9223372036854775808
  | .i128 => 170141183460469231731687303715884105728

def signed : IntKind → Bool
  | .u8 | .u16 | .u32 | .u64 | .u128 | .usize => false
  | .i8 | .i16 | .i32 | .i64 | .i128 | .isize => true

def parse (K : IntKind) : Text → Option (Ranged K.low K.high) := parseInteger K.signed K.low K.high

-- `CowValue` has no `deserialize_i128` or `deserialize_u128` of its own.
def forwarded : IntKind → Bool
  | .u128 | .i128 => false
  | _ => true

end IntKind

inductive Scalar where
  | bool
  | int (kind : IntKind)
  | f32 | f64
  | char
  | string
  | option (inner : Scalar)
  | newtype (name : Text) (inner : Scalar)
  | unitEnum (name : Text) (variants : List Text)

section
variable (std : Std)

def Scalar.Val : Scalar → Type
  | .bool => Bool
  | .int kind => Ranged kind.low kind.high
  | .f32 => std.F32
  | .f64 => std.F64
  | .char => Char
  | .string => Text
  | .option inner => Option inner.Val
  | .newtype _ inner => inner.Val
  | .unitEnum _ variants => {variant : Text // variant ∈ variants}

def parseBool (text : Text) : Option Bool :=
  if text = "true".toList then some true else if text = "false".toList then some false else none

def parseChar : Text → Option Char
  | [c] => some c
  | _ => none

def parseVariant (variants : List Text) (text : Text) : Option {variant : Text // variant ∈ variants} :=
  if among : variants.contains text = true then some ⟨text, List.contains_iff_mem.mp among⟩ else none

def Scalar.fromStr : (S : Scalar) → Text → Option (S.Val std)
  | .bool => parseBool
  | .int kind => kind.parse
  | .f32 => std.parseF32
  | .f64 => std.parseF64
  | .char => parseChar
  | .string => some
  | .option inner => fun text => (inner.fromStr text).map some
  | .newtype _ inner => inner.fromStr
  | .unitEnum _ variants => parseVariant variants

inductive ValError where
  | custom (message : Text)
  | invalidStr (text : Text) (expected : Text)
  | invalidChar (text : Text) (expected : Text)
  | invalidMap (expected : Text)
  | unknownVariant (text : Text) (expected : List Text)
  | missingField (field : Text)
  | duplicateField (field : Text)

structure StructType where
  name : Text
  arity : Nat
  field : Fin arity → Text
  type : Fin arity → Scalar
  distinct : Function.Injective field

inductive Target where
  | scalar (S : Scalar)
  | struct (T : StructType)

abbrev StructType.Val (T : StructType) : Type := (i : Fin T.arity) → (T.type i).Val std

def Target.Val : Target → Type
  | .scalar S => S.Val std
  | .struct T => T.Val std

def parsed {V : Type} (name text : Text) : Option V → Except ValError V
  | some value => .ok value
  | none => .error (.custom (std.complaint name text))

def Scalar.deserialize : (S : Scalar) → Text → Except ValError (S.Val std)
  | .bool, text => parsed std "bool".toList text (parseBool text)
  | .int kind, text =>
      if kind.forwarded then parsed std kind.name text (kind.parse text)
      else .error (.custom (kind.name ++ " is not supported".toList))
  | .f32, text => parsed std "f32".toList text (std.parseF32 text)
  | .f64, text => parsed std "f64".toList text (std.parseF64 text)
  | .char, text =>
      match parseChar text with
      | some c => .ok c
      | none => .error (.invalidChar text "a character".toList)
  | .string, text => .ok text
  | .option inner, text => (inner.deserialize text).map some
  | .newtype _ inner, text => inner.deserialize text
  | .unitEnum _ variants, text =>
      match parseVariant variants text with
      | some variant => .ok variant
      | none => .error (.unknownVariant text variants)

def Scalar.expecting : Scalar → Text
  | .bool => "a boolean".toList
  | .int kind => kind.name
  | .f32 => "f32".toList
  | .f64 => "f64".toList
  | .char => "a character".toList
  | .string => "a string".toList
  | .option _ => "option".toList
  | .newtype name _ => "tuple struct ".toList ++ name
  | .unitEnum name _ => "enum ".toList ++ name

def Scalar.missing (field : Text) : (S : Scalar) → Except ValError (S.Val std)
  | .option _ => .ok none
  | _ => .error (.missingField field)

inductive Failure where
  | panicked
  | de (err : ValError)
  | rejected (err : SilentError)

def fromStrVal : (T : Target) → Text → Except ValError (T.Val std)
  | .scalar S, text => S.deserialize std text
  | .struct T, text => .error (.invalidStr text ("struct ".toList ++ T.name))

def StructType.index (T : StructType) (key : Text) : Option (Fin T.arity) :=
  (List.finRange T.arity).find? fun i => T.field i = key

def StructType.schema (T : StructType) : Schema Text Text Failure fun i => (T.type i).Val std where
  index := T.index
  decode i text := ((T.type i).deserialize std text).mapError .de
  duplicate i := .de (.duplicateField (T.field i))
  missing i := ((T.type i).missing std (T.field i)).mapError .de

def fromStrMap : (T : Target) → List (Text × Except Failure Text) → Except Failure (T.Val std)
  | .scalar S, _ => .error (.de (.invalidMap S.expecting))
  | .struct T, entries => build (T.schema std) entries

def uuidText (uuid : Uuid) : Text :=
  let digits := Nat.toDigits 16 uuid.toNat
  let padded := List.replicate (32 - digits.length) '0' ++ digits
  padded.take 8 ++ '-' :: ((padded.drop 8).take 4 ++ '-' :: ((padded.drop 12).take 4 ++
    '-' :: ((padded.drop 16).take 4 ++ '-' :: padded.drop 20)))

def pathParamToString : PathParam → Option Text
  | .str s | .path s => s.asStr
  | .int v => some (numeral v.val)
  | .int32 v => some (numeral v.val)
  | .int64 v => some (numeral v.val)
  | .uInt32 v => some (numeral v.val)
  | .uInt64 v => some (numeral v.val)
  | .uuid u => some (uuidText u)

def orPanic : Option Text → Except Failure Text
  | some text => .ok text
  | none => .error .panicked

variable {V : Type}

/- The entries of the map are visited in an order of their own; here it is the order they are
listed in. -/
def fromRequest (T : Target) (req : Request V) : Except Failure (T.Val std) :=
  match req.pathParams.entries with
  | [] => .error (.rejected .paramsEmpty)
  | [⟨_, value⟩] => do
      let single ← orPanic (pathParamToString value)
      (fromStrVal std T single).mapError .de
  | entries => fromStrMap std T (entries.map fun entry => (entry.1, orPanic (pathParamToString entry.2)))

def Scalar.Forwarded : Scalar → Prop
  | .int kind => kind.forwarded = true
  | .option inner => inner.Forwarded
  | .newtype _ inner => inner.Forwarded
  | _ => True

theorem parsedOk {V : Type} {name text : Text} {read : Option V} {value : V} :
    parsed std name text read = .ok value ↔ read = some value := by
  cases read with
  | none => exact ⟨(fun same => by cases same), fun same => (by cases same)⟩
  | some other => exact ⟨fun same => congrArg some (Except.ok.inj same), fun same => congrArg Except.ok (Option.some.inj same)⟩

theorem deserializeOk {S : Scalar} (forwarded : S.Forwarded) {text : Text} {value : S.Val std} :
    S.deserialize std text = .ok value ↔ S.fromStr std text = some value := by
  induction S with
  | bool | f32 | f64 => exact parsedOk std
  | int kind =>
    cases kind with
    | u128 | i128 => cases forwarded
    | _ => exact parsedOk std
  | string => exact ⟨fun same => congrArg some (Except.ok.inj same), fun same => congrArg Except.ok (Option.some.inj same)⟩
  | char =>
    simp only [Scalar.deserialize, Scalar.fromStr]
    cases parseChar text with
    | none => exact ⟨(fun same => by cases same), fun same => (by cases same)⟩
    | some c => exact ⟨fun same => congrArg some (Except.ok.inj same), fun same => congrArg Except.ok (Option.some.inj same)⟩
  | unitEnum name variants =>
    simp only [Scalar.deserialize, Scalar.fromStr]
    cases parseVariant variants text with
    | none => exact ⟨(fun same => by cases same), fun same => (by cases same)⟩
    | some c => exact ⟨fun same => congrArg some (Except.ok.inj same), fun same => congrArg Except.ok (Option.some.inj same)⟩
  | newtype name inner ih => exact ih forwarded
  | option inner ih =>
    simp only [Scalar.deserialize, Scalar.fromStr]
    constructor
    · intro same
      cases read : inner.deserialize std text with
      | error err =>
        rw [read] at same
        cases same
      | ok v =>
        rw [read] at same
        cases same
        rw [(ih forwarded).mp read]
        rfl
    · intro same
      obtain ⟨v, read, rfl⟩ := Option.map_eq_some_iff.mp same
      rw [(ih forwarded).mpr read]
      rfl

def Reads (params : HashMap Text PathParam) (name : Text) (S : Scalar) (value : S.Val std) : Prop :=
  ∃ param text, params.lookup name = some param ∧ pathParamToString param = some text ∧ S.fromStr std text = some value

def Named (T : StructType) (params : HashMap Text PathParam) : Prop := ∀ name, name ∈ params ↔ ∃ i, T.field i = name

theorem indexIs (T : StructType) (key : Text) (i : Fin T.arity) : T.index key = some i ↔ T.field i = key :=
  indexOfSome T.distinct key i

theorem mapErrorOk {E E' X : Type} {f : E → E'} {read : Except E X} {value : X} :
    read.mapError f = .ok value ↔ read = .ok value := by
  cases read with
  | error err => exact ⟨(fun same => by cases same), fun same => (by cases same)⟩
  | ok other => exact ⟨fun same => congrArg Except.ok (Except.ok.inj same), fun same => congrArg Except.ok (Except.ok.inj same)⟩

theorem orPanicOk {text : Option Text} {shown : Text} : orPanic text = .ok shown ↔ text = some shown := by
  cases text with
  | none => exact ⟨(fun same => by cases same), fun same => (by cases same)⟩
  | some other => exact ⟨fun same => congrArg some (Except.ok.inj same), fun same => congrArg Except.ok (Option.some.inj same)⟩

theorem lookupIs {params : HashMap Text PathParam} {name : Text} {param : PathParam} :
    params.lookup name = some param ↔ ⟨name, param⟩ ∈ params.entries := AList.mem_lookup_iff

def texts (params : HashMap Text PathParam) : List (Text × Except Failure Text) :=
  params.entries.map fun entry => (entry.1, orPanic (pathParamToString entry.2))

theorem textsApart (T : StructType) (params : HashMap Text PathParam) :
    (texts params).Pairwise fun e e' => ∀ i, T.index e.1 = some i → T.index e'.1 ≠ some i := by
  have distinct := List.pairwise_map.mp params.nodupKeys
  refine List.pairwise_map.mpr (distinct.imp fun {a b} apart i first second => apart ?_)
  exact ((indexIs T _ i).mp first).symm.trans ((indexIs T _ i).mp second)

theorem mapOk {T : StructType} {params : HashMap Text PathParam} (named : Named T params)
    (forwarded : ∀ i, (T.type i).Forwarded) (record : T.Val std) :
    fromStrMap std (.struct T) (texts params) = .ok record ↔ ∀ i, Reads std params (T.field i) (T.type i) (record i) := by
  have known : ∀ entry ∈ texts params, ∃ i, T.index entry.1 = some i := by
    intro entry among
    obtain ⟨⟨name, param⟩, listed, rfl⟩ := List.mem_map.mp among
    obtain ⟨i, same⟩ := (named name).mp (AList.lookup_isSome.mp (by rw [lookupIs.mpr listed]; rfl))
    exact ⟨i, (indexIs T name i).mpr same⟩
  have held : ∀ i, ∃ param, params.lookup (T.field i) = some param := fun i =>
    Option.isSome_iff_exists.mp (AList.lookup_isSome.mpr ((named (T.field i)).mpr ⟨i, rfl⟩))
  have covered : ∀ i, ∃ entry ∈ texts params, T.index entry.1 = some i := by
    intro i
    obtain ⟨param, found⟩ := held i
    exact ⟨_, List.mem_map_of_mem (lookupIs.mp found), (indexIs T _ i).mpr rfl⟩
  refine (buildOk (T.schema std) (textsApart T params) known covered).trans ⟨fun decodes i => ?_, fun reads entry among i index => ?_⟩
  · obtain ⟨param, found⟩ := held i
    obtain ⟨raw, read, decoded⟩ := decodes _ (List.mem_map_of_mem (lookupIs.mp found)) i ((indexIs T _ i).mpr rfl)
    exact ⟨param, raw, found, orPanicOk.mp read, (deserializeOk std (forwarded i)).mp (mapErrorOk.mp decoded)⟩
  · obtain ⟨⟨name, param⟩, listed, rfl⟩ := List.mem_map.mp among
    obtain rfl := (indexIs T name i).mp index
    obtain ⟨param', text, found, shown, parses⟩ := reads i
    cases found.symm.trans (lookupIs.mpr listed)
    exact ⟨text, orPanicOk.mpr shown, mapErrorOk.mpr ((deserializeOk std (forwarded i)).mpr parses)⟩

theorem arityIs {T : StructType} {params : HashMap Text PathParam} (named : Named T params) :
    T.arity = params.entries.length := by
  have fields : ((List.finRange T.arity).map T.field).Nodup := (List.nodup_finRange _).map T.distinct
  have same : ((List.finRange T.arity).map T.field).Perm params.keys := by
    refine (List.perm_ext_iff_of_nodup fields params.nodupKeys).mpr fun name => ?_
    change _ ↔ name ∈ params
    rw [named name]
    simp
  have lengths := same.length_eq
  rwa [List.length_map, List.length_finRange, AList.keys, List.keys, List.length_map] at lengths

theorem fromRequestMany {req : Request V} (many : 2 ≤ req.pathParams.entries.length) (T : Target) :
    fromRequest std T req = fromStrMap std T (texts req.pathParams) := by
  unfold fromRequest texts
  split
  · rename_i none_
    rw [none_] at many
    exact absurd many (by decide)
  · rename_i one
    rw [one] at many
    exact absurd many (by simp)
  · rfl

theorem fromRequestOne {req : Request V} {name : Text} {param : PathParam} (one : req.pathParams.entries = [⟨name, param⟩])
    (T : Target) :
    fromRequest std T req = (orPanic (pathParamToString param)).bind fun single => (fromStrVal std T single).mapError .de := by
  unfold fromRequest
  rw [one]
  rfl

def Uniform (T : StructType) (req : Request V) : Prop :=
  (∀ record, fromRequest std (.struct T) req = .ok record ↔ ∀ i, Reads std req.pathParams (T.field i) (T.type i) (record i)) ∧
    ((∃ record, fromRequest std (.struct T) req = .ok record) ↔
      ∀ i, ∃ value, Reads std req.pathParams (T.field i) (T.type i) value)

/- Two or more parameters fill a struct; one alone is read as a scalar, and never as a struct. -/
theorem pathFillsStructs (req : Request V) :
    (∀ T : StructType, Named T req.pathParams → 2 ≤ T.arity → (∀ i, (T.type i).Forwarded) → Uniform std T req) ∧
    (∀ T : StructType, Named T req.pathParams → T.arity = 1 → ∀ record, fromRequest std (.struct T) req ≠ .ok record) ∧
    ∀ name param, req.pathParams.entries = [⟨name, param⟩] → ∀ S : Scalar, S.Forwarded → ∀ value,
      fromRequest std (.scalar S) req = .ok value ↔ Reads std req.pathParams name S value := by
  refine ⟨fun T named several forwarded => ?_, fun T named single record filled => ?_, fun name param one S forwarded value => ?_⟩
  · rw [arityIs named] at several
    have fills : ∀ record, fromRequest std (.struct T) req = .ok record ↔
        ∀ i, Reads std req.pathParams (T.field i) (T.type i) (record i) := by
      intro record
      rw [fromRequestMany std several]
      exact mapOk std named forwarded record
    refine ⟨fills, fun ⟨record, filled⟩ i => ⟨record i, (fills record).mp filled i⟩, fun each => ?_⟩
    choose record reads using each
    exact ⟨record, (fills record).mpr reads⟩
  · rw [arityIs named] at single
    obtain ⟨⟨name, param⟩, one⟩ := List.length_eq_one_iff.mp single
    rw [fromRequestOne std one] at filled
    cases text : pathParamToString param with
    | none =>
      rw [text] at filled
      cases filled
    | some text' =>
      rw [text] at filled
      cases filled
  · have held : req.pathParams.lookup name = some param := lookupIs.mpr (by rw [one]; exact List.mem_cons_self)
    rw [fromRequestOne std one]
    constructor
    · intro read
      cases text : pathParamToString param with
      | none =>
        rw [text] at read
        cases read
      | some text' =>
        rw [text] at read
        exact ⟨param, text', held, text, (deserializeOk std forwarded).mp (mapErrorOk.mp read)⟩
    · rintro ⟨param', text, found, shown, parses⟩
      cases held.symm.trans found
      rw [shown]
      exact mapErrorOk.mpr ((deserializeOk std forwarded).mpr parses)

end

theorem captureReads (std : Std) {params : HashMap Text PathParam} {name : Text} {v : I64}
    (held : params.lookup name = some (.int64 v)) : Reads std params name (.int .i64) v :=
  ⟨_, _, held, rfl, numeralParses (typedNumeral .i64 v)⟩

def integral : Std := ⟨Empty, Empty, fun _ => none, fun _ => none, fun _ _ => []⟩

def seven : I64 := ⟨7, by decide⟩

def idPath : StructType := ⟨"IdPath".toList, 1, fun _ => "id".toList, fun _ => .int .i64, fun i j _ => Subsingleton.elim i j⟩

def idRequest : Request Unit := (Request.fromParts .get "/7".toList).setPathParams "id".toList (.int64 seven)

def pairRequest : Request Unit := idRequest.setPathParams "name".toList (.int64 seven)

def pairField : Fin 2 → Text
  | 0 => "id".toList
  | 1 => "name".toList

def pairType (second : Scalar) : Fin 2 → Scalar
  | 0 => .int .i64
  | 1 => second

theorem pairDistinct : Function.Injective pairField := by
  have apart : ∀ i j, pairField i = pairField j → i = j := by decide
  exact fun i j => apart i j

def pairPath (second : Scalar) : StructType := ⟨"UserPath".toList, 2, pairField, pairType second, pairDistinct⟩

theorem idNamed : Named idPath idRequest.pathParams := by
  intro name
  change name ∈ AList.insert _ _ ∅ ↔ _
  rw [AList.mem_insert]
  constructor
  · rintro (rfl | never)
    · exact ⟨(0 : Fin 1), rfl⟩
    · exact absurd never (AList.notMem_empty _)
  · rintro ⟨i, rfl⟩
    exact .inl rfl

theorem pairNamed (second : Scalar) : Named (pairPath second) pairRequest.pathParams := by
  intro name
  change name ∈ AList.insert _ _ idRequest.pathParams ↔ ∃ i : Fin 2, pairField i = name
  rw [AList.mem_insert, idNamed, Fin.exists_fin_two]
  constructor
  · rintro (rfl | ⟨i, rfl⟩)
    · exact .inr rfl
    · exact .inl rfl
  · rintro (rfl | rfl)
    · exact .inr ⟨(0 : Fin 1), rfl⟩
    · exact .inl rfl

theorem pairFills : Uniform integral (pairPath .string) pairRequest :=
  (pathFillsStructs integral pairRequest).1 (pairPath .string) (pairNamed .string) (Nat.le_refl 2)
    (Fin.forall_fin_two.mpr ⟨rfl, trivial⟩)

theorem structsRefused : Named idPath idRequest.pathParams ∧ ¬ Uniform integral idPath idRequest ∧
    Named (pairPath (.int .i128)) pairRequest.pathParams ∧ ¬ Uniform integral (pairPath (.int .i128)) pairRequest := by
  refine ⟨idNamed, fun uniform => ?_, pairNamed _, fun uniform => ?_⟩
  · have reads : ∀ i, Reads integral idRequest.pathParams (idPath.field i) (idPath.type i) seven := fun i =>
      captureReads integral (AList.lookup_insert _)
    have filled := (uniform.1 fun _ => seven).mpr reads
    cases filled
  · have first : Reads integral pairRequest.pathParams "id".toList (.int .i64) seven := captureReads integral (by decide)
    have parses : IntKind.i128.parse (numeral 7) = some ⟨7, by decide⟩ := numeralParses (numeralDenotes fun _ => rfl)
    have second : Reads integral pairRequest.pathParams "name".toList (.int .i128) ⟨7, by decide⟩ :=
      ⟨.int64 seven, numeral seven.val, by decide, rfl, parses⟩
    obtain ⟨record, filled⟩ := uniform.2.mpr (Fin.forall_fin_two.mpr ⟨⟨_, first⟩, ⟨_, second⟩⟩)
    cases filled

end Silent.PathExtractor
