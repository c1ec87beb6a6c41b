import Mathlib.Data.List.Forall2
import Silent.MultipartRead
import Silent.PathExtractor

/-! `Request::form_field`: the texts of one name in a multipart form, read as a value, a list
of values or a tuple by the deserializer `VecValue`. -/
namespace Silent.FormValues
open ByteText HttpRequest BodyParsing MultipartRead StdPath UploadedFile UploadOwners
open PathExtractor hiding Target

inductive FieldType where
  | scalar (S : Scalar)
  | vec (S : Scalar)
  | tuple (arity : Nat) (types : Fin arity → Scalar)
  | option (inner : FieldType)
  | newtype (name : Text) (inner : FieldType)

inductive MultiError where
  | val (err : ValError)
  | invalidLength (length : Nat) (expected : Text)

section
variable (std : Std)

def FieldType.Val : FieldType → Type
  | .scalar S => S.Val std
  | .vec S => List (S.Val std)
  | .tuple _ types => (i : _) → (types i).Val std
  | .option inner => Option inner.Val
  | .newtype _ inner => inner.Val

def item : List Text → Except ValError Text
  | item :: _ => .ok item
  | [] => .error (.custom "expected vec not empty".toList)

-- The type's `Deserialize` on a `VecValue`, for the types that read one item.
def one : (S : Scalar) → List Text → Except ValError (S.Val std)
  | .bool, values => do parsed std "bool".toList (← item values) (parseBool (← item values))
  | .int kind, values =>
      if kind.forwarded then do parsed std kind.name (← item values) (kind.parse (← item values))
      else .error (.custom (kind.name ++ " is not supported".toList))
  | .f32, values => do parsed std "f32".toList (← item values) (std.parseF32 (← item values))
  | .f64, values => do parsed std "f64".toList (← item values) (std.parseF64 (← item values))
  | .char, values => do Scalar.char.deserialize std (← item values)
  | .string, values => do Scalar.string.deserialize std (← item values)
  | .option inner, values => (one inner values).map some
  | .newtype _ inner, values => one inner values
  | .unitEnum name variants, values => do (Scalar.unitEnum name variants).deserialize std (← item values)

def allOf (S : Scalar) : List Text → Except ValError (List (S.Val std))
  | [] => .ok []
  | item :: rest => do
      let value ← S.deserialize std item
      let values ← allOf S rest
      .ok (value :: values)

def nth (arity : Nat) (types : Fin arity → Scalar) (values : List Text) (i : Fin arity) : Except MultiError ((types i).Val std) :=
  match values[i.val]? with
  | some item => ((types i).deserialize std item).mapError .val
  | none => .error (.invalidLength i.val ("a tuple of size ".toList ++ Nat.toDigits 10 arity))

def fromStrMultiVal : (T : FieldType) → List Text → Except MultiError (T.Val std)
  | .scalar S, values => (one std S values).mapError .val
  | .vec S, values => (allOf std S values).mapError .val
  | .tuple arity types, values => RecordVisitor.sequence (nth std arity types values)
  | .option inner, values => (fromStrMultiVal inner values).map some
  | .newtype _ inner, values => fromStrMultiVal inner values

/-- The value is what the texts say, each by its `FromStr`. -/
def FieldType.Reads : (T : FieldType) → List Text → T.Val std → Prop
  | .scalar S, values, value => ∃ text rest, values = text :: rest ∧ S.fromStr std text = some value
  | .vec S, values, value => List.Forall₂ (fun text one => S.fromStr std text = some one) values value
  | .tuple arity types, values, value => ∀ i : Fin arity, ∃ text, values[i.val]? = some text ∧ (types i).fromStr std text = some (value i)
  | .option inner, values, value => ∃ held, value = some held ∧ inner.Reads values held
  | .newtype _ inner, values, value => inner.Reads values value

def FieldType.Forwarded : FieldType → Prop
  | .scalar S => S.Forwarded
  | .vec S => S.Forwarded
  | .tuple _ types => ∀ i, (types i).Forwarded
  | .option inner => inner.Forwarded
  | .newtype _ inner => inner.Forwarded

theorem oneFirst (S : Scalar) (text : Text) (rest : List Text) : one std S (text :: rest) = S.deserialize std text := by
  induction S with
  | bool | f32 | f64 | char | string | unitEnum _ _ => rfl
  | int kind => rfl
  | option inner ih => exact congrArg (Except.map some) ih
  | newtype name inner ih => exact ih

theorem oneEmpty (S : Scalar) (value : S.Val std) : one std S [] ≠ .ok value := by
  induction S with
  | bool | f32 | f64 | char | string | unitEnum _ _ => exact fun same => by cases same
  | int kind =>
    unfold one
    split <;> exact fun same => by cases same
  | option inner ih =>
    intro same
    unfold one at same
    cases read : one std inner [] with
    | error err =>
      rw [read] at same
      cases same
    | ok held => exact ih held read
  | newtype name inner ih => exact ih value

variable {std}

theorem oneReads {S : Scalar} (forwarded : S.Forwarded) (values : List Text) (value : S.Val std) :
    one std S values = .ok value ↔ (FieldType.scalar S).Reads std values value := by
  cases values with
  | nil =>
    refine ⟨fun same => absurd same (oneEmpty std S value), fun reads => ?_⟩
    obtain ⟨text, rest, same, -⟩ := reads
    cases same
  | cons text rest =>
    rw [oneFirst, deserializeOk std forwarded]
    constructor
    · exact fun parses => ⟨text, rest, rfl, parses⟩
    · rintro ⟨_, _, same, parses⟩
      cases same
      exact parses

theorem allReads {S : Scalar} (forwarded : S.Forwarded) (values : List Text) (value : List (S.Val std)) :
    allOf std S values = .ok value ↔ (FieldType.vec S).Reads std values value := by
  induction values generalizing value with
  | nil => exact ⟨fun same => by cases same; exact .nil, fun reads => by cases reads; rfl⟩
  | cons text rest ih =>
    unfold allOf
    constructor
    · intro same
      cases first : S.deserialize std text with
      | error err =>
        rw [first] at same
        cases same
      | ok head =>
        cases others : allOf std S rest with
        | error err =>
          rw [first, others] at same
          cases same
        | ok tail =>
          rw [first, others] at same
          cases same
          exact .cons ((deserializeOk std forwarded).mp first) ((ih tail).mp others)
    · intro reads
      cases reads with
      | cons parses others =>
        rw [(deserializeOk std forwarded).mpr parses, (ih _).mpr others]
        rfl

theorem nthReads {arity : Nat} {types : Fin arity → Scalar} (forwarded : ∀ i, (types i).Forwarded) (values : List Text)
    (i : Fin arity) (value : (types i).Val std) :
    nth std arity types values i = .ok value ↔ ∃ text, values[i.val]? = some text ∧ (types i).fromStr std text = some value := by
  unfold nth
  cases held : values[i.val]? with
  | none => simp
  | some text =>
    rw [mapErrorOk, deserializeOk std (forwarded i)]
    simp

theorem multiReads {T : FieldType} (forwarded : T.Forwarded) (values : List Text) (value : T.Val std) :
    fromStrMultiVal std T values = .ok value ↔ T.Reads std values value := by
  induction T with
  | scalar S => exact mapErrorOk.trans (oneReads forwarded values value)
  | vec S => exact mapErrorOk.trans (allReads forwarded values value)
  | tuple arity types =>
    exact RecordVisitor.sequenceOk.trans (forall_congr' fun i => nthReads forwarded values i (value i))
  | newtype name inner ih => exact ih forwarded value
  | option inner ih =>
    unfold fromStrMultiVal FieldType.Reads
    constructor
    · intro same
      cases read : fromStrMultiVal std inner values with
      | error err =>
        rw [read] at same
        cases same
      | ok held =>
        rw [read] at same
        cases same
        exact ⟨held, rfl, (ih forwarded held).mp read⟩
    · rintro ⟨held, rfl, reads⟩
      rw [(ih forwarded held).mpr reads]
      rfl

end

def Filled {X : Type} (map : HashMap Text (List X)) : Prop := ∀ name, map.lookup name ≠ some []

theorem filledInsert {X : Type} {map : HashMap Text (List X)} (filled : Filled map) (key : Text) (value : X) :
    Filled (insertMulti map key value) := by
  intro name
  by_cases same : name = key
  · subst same
    simp [insertMulti]
  · rw [insertMulti, AList.lookup_insert_ne same]
    exact filled name

theorem fieldsFilled {F : Type} {fields : List (NextField F)} {start form : FormData F} (filled : Filled start.fields)
    (read : readFields start fields = .ok form) : Filled form.fields := by
  induction fields generalizing start with
  | nil =>
    cases read
    exact filled
  | cons field rest ih =>
    match field with
    | .failed err => cases read
    | .field none _ _ _ => exact ih filled read
    | .field (some name) true _ (.error err) => cases read
    | .field (some name) true _ (.ok file) => exact @ih {start with files := insertMulti start.files name file} filled read
    | .field (some name) false (.error err) _ => cases read
    | .field (some name) false (.ok text) _ => exact ih (filledInsert filled name text) read

section
variable {J B P : Type} {lib : Libraries J B FilePart} {rules : Rules P} {decode : Bytes → Text} {header : Option Text}
  {body : ReqBody B} {deliveries : List Delivery} {fs : Fs} {std : Std}

/- The body is a multipart form, and multer finds these parts in it. -/
structure Delivers (lib : Libraries J B FilePart) (rules : Rules P) (decode : Bytes → Text) (header : Option Text) (body : ReqBody B)
    (deliveries : List Delivery) (fs : Fs) : Prop where
  type : header.bind lib.parseMime = some .formData
  parts : ∃ boundary, header.bind lib.parseBoundary = some boundary ∧
    lib.nextFields boundary body = nextFields rules decode deliveries fs

def FieldType.target (T : FieldType) (complaint : MultiError → Text) (fromValue : J → Except Text (T.Val std))
    (fromBytes : Bytes → Except Text (T.Val std)) : Target J (T.Val std) :=
  ⟨fromValue, fromBytes, fun values => (fromStrMultiVal std T values).mapError complaint⟩

theorem readsParts (delivers : Delivers lib rules decode header body deliveries fs) :
    FormData.read lib header body = (read rules decode deliveries fs).1.mapError Failure.err := by
  obtain ⟨boundary, found, parts⟩ := delivers.parts
  unfold FormData.read
  rw [found]
  exact (congrArg (readFields ⟨∅, ∅⟩) parts).trans (readPartsFields rules decode ⟨∅, ∅⟩ deliveries fs)

theorem readFormParts (delivers : Delivers lib rules decode header body deliveries fs) :
    ((fromParts header body : Request J B FilePart).readForm lib).1 =
      ((read rules decode deliveries fs).1.mapError Failure.err).mapError (formFailure lib) := by
  have form : (fromParts header body : Request J B FilePart).contentType lib = some .formData := delivers.type
  rw [readFormCell lib _ form]
  refine (congrArg Prod.fst (ReadOnce.getUnread .empty (loadForm lib header) body)).trans ?_
  exact congrArg (Except.mapError (formFailure lib)) (readsParts delivers)

theorem toOptionMapError {E E' X : Type} {f : E → E'} {read : Except E X} : (read.mapError f).toOption = read.toOption := by
  cases read <;> rfl

theorem lookupTexts (delivers : Delivers lib rules decode header body deliveries fs) {form : FormData FilePart} {left : Fs}
    (formed : read rules decode deliveries fs = (.ok form, left)) (key : Text) :
    form.fields.lookup key =
      if named (!typed ·) key deliveries = [] then none else some ((named (!typed ·) key deliveries).map (decode ·.1.bytes)) := by
  have outcome : MultipartRead.Outcome decode fs [] deliveries (read rules decode deliveries fs) :=
    readPartsOutcome deliveries (holdsNothing decode fs)
  rw [formed] at outcome
  obtain ⟨-, made, holds⟩ := outcome
  have texts := holds.texts key
  obtain ⟨boundary, found, parts⟩ := delivers.parts
  have readBack := (readPartsFields rules decode ⟨∅, ∅⟩ deliveries fs).trans
    (congrArg (fun answered => answered.1.mapError Failure.err) formed)
  have filled : Filled form.fields := fieldsFilled (fun name => by simp) readBack
  rw [List.nil_append] at texts
  unfold listed at texts
  cases held : form.fields.lookup key with
  | none =>
    rw [held] at texts
    rw [if_pos (List.map_eq_nil_iff.mp texts.symm)]
  | some values =>
    rw [held, Option.getD_some] at texts
    rw [if_neg, texts]
    intro nothing
    rw [nothing, List.map_nil] at texts
    rw [texts] at held
    exact filled key held

/- A field is found if and only if no part failed and there is one of its name, and then it is
what the texts of that name, in the order sent, are read as. -/
theorem formFieldReads (delivers : Delivers lib rules decode header body deliveries fs) {T : FieldType} (forwarded : T.Forwarded)
    (complaint : MultiError → Text) (fromValue : J → Except Text (T.Val std)) (fromBytes : Bytes → Except Text (T.Val std))
    (key : Text) (value : T.Val std) :
    ((fromParts header body : Request J B FilePart).formField lib key (T.target complaint fromValue fromBytes)).1 = some value ↔
      (∀ delivery ∈ deliveries, Passes delivery) ∧ named (!typed ·) key deliveries ≠ [] ∧
        T.Reads std ((named (!typed ·) key deliveries).map (decode ·.1.bytes)) value := by
  have outcome : MultipartRead.Outcome decode fs [] deliveries (read rules decode deliveries fs) :=
    readPartsOutcome deliveries (holdsNothing decode fs)
  rw [formFieldMap, Prod.map_fst, readFormParts delivers, toOptionMapError, toOptionMapError]
  rcases formed : read rules decode deliveries fs with ⟨failure | form, left⟩
  · rw [formed] at outcome
    exact ⟨(fun same => by cases same), fun all => absurd all.1 outcome.1⟩
  · rw [formed] at outcome
    simp only [Except.toOption, Option.bind_some, lookupTexts delivers formed key]
    split
    · rename_i nothing
      exact ⟨(fun same => by cases same), fun all => absurd nothing all.2.1⟩
    · rename_i some_
      have reads : fromStrMultiVal std T ((named (!typed ·) key deliveries).map (decode ·.1.bytes)) = .ok value ↔ _ :=
        multiReads forwarded _ value
      simp only [Option.bind_some, FieldType.target]
      rw [← reads]
      cases fromStrMultiVal std T ((named (!typed ·) key deliveries).map (decode ·.1.bytes)) with
      | error err => exact ⟨fun same => (by cases same), fun all => (by cases all.2.2)⟩
      | ok held =>
        exact ⟨fun same => ⟨outcome.1, some_, congrArg Except.ok (Option.some.inj same)⟩,
          fun all => congrArg some (Except.ok.inj all.2.2)⟩

end

def twoTexts : List Delivery :=
  [.part (partOf none []) healthy, .part {partOf none [] with name := none} healthy, .part (partOf none []) healthy]

def twoTextsLib : Libraries Unit Bytes FilePart where
  parseMime _ := some .formData
  collect raw := .ok raw
  fromSlice _ := .error []
  get _ _ := none
  toValue _ := .error []
  parseBoundary _ := some "x".toList
  nextFields _ _ := nextFields unix Utf8Text.lossy twoTexts .empty
  reason _ := none

theorem twoTextsDelivered :
    Delivers twoTextsLib unix Utf8Text.lossy (some "multipart/form-data; boundary=x".toList) (.other []) twoTexts .empty :=
  ⟨rfl, "x".toList, rfl, rfl⟩

theorem twoTextsPass : ∀ delivery ∈ twoTexts, Passes delivery :=
  List.forall_mem_cons.mpr ⟨.inr (.inr ⟨rfl, rfl⟩),
    List.forall_mem_cons.mpr ⟨.inl rfl, List.forall_mem_singleton.mpr (.inr (.inr ⟨rfl, rfl⟩))⟩⟩

theorem twoTextsNamed : (named (!typed ·) "doc".toList twoTexts).map (Utf8Text.lossy ·.1.bytes) = ["hi".toList, "hi".toList] := by
  decide

theorem formFieldReadsTwice :
    ((fromParts (some "multipart/form-data; boundary=x".toList) (.other []) : Request Unit Bytes FilePart).formField twoTextsLib
      "doc".toList
      (FieldType.target (.vec .string) (fun _ => []) (fun _ => .error []) fun _ => .error [] : Target Unit (FieldType.Val integral _))).1 =
        some ["hi".toList, "hi".toList] := by
  refine (formFieldReads twoTextsDelivered (T := .vec .string) trivial _ _ _ "doc".toList _).mpr ⟨twoTextsPass, fun none => ?_, ?_⟩
  · have texts := twoTextsNamed
    rw [none] at texts
    cases texts
  · rw [twoTextsNamed]
    exact .cons rfl (.cons rfl .nil)

end Silent.FormValues
