import Mathlib.Data.List.Induction
import Silent.BodyParsing
import Silent.RecordVisitor

/-! `form_parse` on the two encodings of one list of fields. A multipart body goes through
the multi-map and a JSON value, where every name has an array, an urlencoded one straight to
the struct. The fields of the struct are strings, options of strings and lists of strings. -/
namespace Silent.FormEncodings
open ByteText HttpRequest ReadOnce BodyParsing RecordVisitor

inductive Json where
  | null
  | bool (value : Bool)
  | number (text : Text)
  | string (text : Text)
  | array (items : List Json)
  | object (entries : List (Text × Json))

inductive FieldType where
  | string | option | list
  deriving DecidableEq

abbrev FieldType.Value : FieldType → Type
  | .string => Text
  | .option => Option Text
  | .list => List Text

-- What serde puts in the place of a field that is not there.
def FieldType.missing : (type : FieldType) → Option type.Value
  | .option => some none
  | .string | .list => none

structure StructType where
  arity : Nat
  field : Fin arity → Text
  distinct : Function.Injective field
  type : Fin arity → FieldType
  default : (i : Fin arity) → Option (type i).Value

abbrev StructType.Val (T : StructType) : Type := (i : Fin T.arity) → (T.type i).Value

/- The derived `Deserialize`, but for the texts of its errors. `readAs` is what the format
makes of the value under a name. -/
def StructType.schema {X : Type} (T : StructType) (readAs : (type : FieldType) → X → Option type.Value) :
    Schema Text X Unit fun i => (T.type i).Value where
  index := indexOf T.field
  decode i raw := (readAs (T.type i) raw).elim (.error ()) .ok
  duplicate _ := ()
  missing i := ((T.default i).or (T.type i).missing).elim (.error ()) .ok

def deserialize {X : Type} (T : StructType) (readAs : (type : FieldType) → X → Option type.Value) (entries : List (Text × X)) :
    Option T.Val :=
  (build (T.schema readAs) (entries.map fun e => (e.1, .ok e.2))).toOption

def Json.text : Json → Option Text
  | .string text => some text
  | _ => none

def Json.readAs : (type : FieldType) → Json → Option type.Value
  | .string, .string text => some text
  | .option, .null => some none
  | .option, .string text => some (some text)
  | .list, .array items => items.mapM Json.text
  | _, _ => none

/- `serde_html_form`: how bytes are cut into pairs, and what an option makes of the one text
under its name. -/
structure HtmlForm where
  decode : Bytes → List (Text × Text)
  optional : Text → Option Text
  nothing : decode [] = []

def HtmlForm.readAs (html : HtmlForm) : (type : FieldType) → List Text → Option type.Value
  | .string, [text] => some text
  | .option, [text] => some (html.optional text)
  | .list, texts => some texts
  | _, _ => none

def valuesOf (fields : List (Text × Text)) (name : Text) : List Text := (fields.filter (·.1 = name)).map (·.2)

def held : List Text → Option (List Text)
  | [] => none
  | text :: texts => some (text :: texts)

def grouped (fields : List (Text × Text)) (name : Text) : Option (List Text) := held (valuesOf fields name)

def asArray (texts : List Text) : Json := .array (texts.map .string)

section
variable {F B : Type} (lib : Libraries Json B F) (html : HtmlForm)

def WritesArrays : Prop :=
  ∀ map : HashMap Text (List Text), ∃ entries,
    lib.toValue map = .ok (.object entries) ∧ Lists entries fun name => (map.lookup name).map asArray

structure Derives (T : StructType) (target : Target Json T.Val) : Prop where
  fromValue : ∀ entries, (target.fromValue (.object entries)).toOption = deserialize T Json.readAs entries
  fromBytes : ∀ bytes, ∃ entries, Lists entries (grouped (html.decode bytes)) ∧
    (target.fromBytes bytes).toOption = deserialize T html.readAs entries

def IsText (pair : Text × Text) : NextField F → Prop
  | .field (some name) false (.ok text) _ => (name, text) = pair
  | _ => False

structure CarriesParts (fields : List (Text × Text)) (header : Text) (body : ReqBody B) : Prop where
  subtype : lib.parseMime header = some .formData
  parts : ∃ boundary, lib.parseBoundary header = some boundary ∧ List.Forall₂ IsText fields (lib.nextFields boundary body)

structure CarriesPairs (fields : List (Text × Text)) (header : Text) (body : ReqBody B) : Prop where
  subtype : lib.parseMime header = some .wwwFormUrlencoded
  pairs : ∃ raw bytes, body = .other raw ∧ lib.collect raw = .ok bytes ∧ html.decode bytes = fields

end

def StructType.Fits (T : StructType) (i : Fin T.arity) : List Text → Prop
  | [] => (T.default i).isSome = true ∨ T.type i = .option
  | [_] => True
  | _ => T.type i = .list

theorem valuesSnoc (fields : List (Text × Text)) (pair : Text × Text) (name : Text) :
    valuesOf (fields ++ [pair]) name = if name = pair.1 then valuesOf fields name ++ [pair.2] else valuesOf fields name := by
  unfold valuesOf
  by_cases same : name = pair.1
  · simp [same]
  · simp [same, Ne.symm same]

theorem groupedSnoc (fields : List (Text × Text)) (pair : Text × Text) (name : Text) :
    grouped (fields ++ [pair]) name =
      if name = pair.1 then some ((grouped fields name).getD [] ++ [pair.2]) else grouped fields name := by
  unfold grouped
  rw [valuesSnoc]
  by_cases same : name = pair.1
  · rw [if_pos same, if_pos same]
    cases valuesOf fields name <;> rfl
  · rw [if_neg same, if_neg same]

theorem insertGrouped {map : HashMap Text (List Text)} {seen : List (Text × Text)} (holds : ∀ name, map.lookup name = grouped seen name)
    (key value name : Text) : (insertMulti map key value).lookup name = grouped (seen ++ [(key, value)]) name := by
  rw [groupedSnoc, insertMulti]
  by_cases same : name = key
  · subst same
    rw [AList.lookup_insert, if_pos rfl, holds]
  · rw [AList.lookup_insert_ne same, if_neg same, holds]

section
variable {F B : Type} {lib : Libraries Json B F} {html : HtmlForm} {fields : List (Text × Text)} {header : Text} {body : ReqBody B}

theorem readTexts {parts : List (NextField F)} (texts : List.Forall₂ IsText fields parts) {seen : List (Text × Text)}
    {form : FormData F} (holds : ∀ name, form.fields.lookup name = grouped seen name) :
    ∃ whole, readFields form parts = .ok whole ∧ ∀ name, whole.fields.lookup name = grouped (seen ++ fields) name := by
  induction texts generalizing seen form with
  | nil => exact ⟨form, rfl, by simpa using holds⟩
  | @cons pair part fields parts text _ ih =>
    unfold IsText at text
    split at text
    next name value file =>
      subst text
      obtain ⟨whole, read, after⟩ := @ih _ {form with fields := insertMulti form.fields name value} (insertGrouped holds name value)
      refine ⟨whole, by simpa [readFields, bind, Except.bind, Except.mapError] using read, ?_⟩
      simpa using after
    next => exact text.elim

theorem mapErrorOption {E E' X : Type} (f : E → E') (read : Except E X) : (read.mapError f).toOption = read.toOption := by
  cases read <;> rfl

theorem multipartResult {T : Type} (target : Target Json T) (subtype : lib.parseMime header = some .formData) :
    ((fromParts (some header) body : Request Json B F).formParse lib target).1 =
      (loadForm lib (some header) body).bind fun form => ((lib.toValue form.fields).bind target.fromValue).mapError .serdeJsonError := by
  have known : (fromParts (some header) body : Request Json B F).contentType lib = some .formData := subtype
  have read : ((fromParts (some header) body : Request Json B F).readForm lib).1 = loadForm lib (some header) body := by
    rw [readFormCell lib _ known]
    exact congrArg Prod.fst (getUnread .empty (loadForm lib (some header)) body)
  simp only [Request.formParse, known, multipartFormParseMap, Prod.map_fst, read]

theorem urlencodedResult {T : Type} (target : Target Json T) (subtype : lib.parseMime header = some .wwwFormUrlencoded) :
    ((fromParts (some header) body : Request Json B F).formParse lib target).1 =
      (loadBytes lib body).bind fun bytes => (target.fromBytes bytes).mapError .serdeDeError := by
  have known : (fromParts (some header) body : Request Json B F).contentType lib = some .wwwFormUrlencoded := subtype
  have read : ((fromParts (some header) body : Request Json B F).urlencodedBytes lib).1 = loadBytes lib body := by
    rw [urlencodedBytesCell]
    exact congrArg Prod.fst (getUnread .empty (loadBytes lib) body)
  simp only [Request.formParse, known, urlencodedFormParseMap, Prod.map_fst, read]

variable {T : StructType} {target : Target Json T.Val}

theorem multipartReads (writes : WritesArrays lib) (derives : Derives html T target) (carries : CarriesParts lib fields header body) :
    ∃ entries, Lists entries (fun name => (grouped fields name).map asArray) ∧
      ((fromParts (some header) body : Request Json B F).formParse lib target).1.toOption = deserialize T Json.readAs entries := by
  obtain ⟨boundary, found, texts⟩ := carries.parts
  have nothing : ∀ name, (⟨∅, ∅⟩ : FormData F).fields.lookup name = grouped [] name := fun _ => rfl
  obtain ⟨form, read, holds⟩ := readTexts texts nothing
  obtain ⟨entries, written, lists⟩ := writes form.fields
  have formed : loadForm lib (some header) body = .ok form := by
    simp only [loadForm, FormData.read, Option.bind_some, found, read, Except.mapError]
  refine ⟨entries, by simpa only [holds, List.nil_append] using lists, ?_⟩
  rw [multipartResult target carries.subtype, formed, ← derives.fromValue, Except.bind, written]
  exact mapErrorOption _ _

theorem urlencodedReads (derives : Derives html T target) (carries : CarriesPairs lib html fields header body) (some_ : fields ≠ []) :
    ∃ entries, Lists entries (grouped fields) ∧
      ((fromParts (some header) body : Request Json B F).formParse lib target).1.toOption = deserialize T html.readAs entries := by
  obtain ⟨raw, bytes, rfl, collected, rfl⟩ := carries.pairs
  have kept : bytes ≠ [] := by
    rintro rfl
    exact some_ html.nothing
  have loaded : loadBytes lib (.other raw) = .ok bytes := by
    simp only [loadBytes, collected, kept, if_false]
  obtain ⟨entries, lists, read⟩ := derives.fromBytes bytes
  refine ⟨entries, lists, ?_⟩
  rw [urlencodedResult target carries.subtype, loaded, ← read]
  exact mapErrorOption _ _

end

section
variable {T : StructType} {html : HtmlForm}

theorem elimOk {X : Type} {read : Option X} : (∃ value, read.elim (.error ()) .ok = (.ok value : Except Unit X)) ↔ read.isSome = true := by
  cases read with
  | none => exact iff_of_false (fun found => by cases found.choose_spec) Bool.false_ne_true
  | some value => exact iff_of_true ⟨value, rfl⟩ rfl

theorem missingSome (i : Fin T.arity) :
    ((T.default i).or (T.type i).missing).isSome = true ↔ (T.default i).isSome = true ∨ T.type i = .option := by
  have kinds : ∀ type : FieldType, type.missing.isSome = true ↔ type = .option := by
    intro type
    cases type <;> simp [FieldType.missing]
  rw [Option.isSome_or, Bool.or_eq_true, kinds]

theorem textsBack (texts : List Text) : (texts.map Json.string).mapM Json.text = some texts := by
  induction texts with
  | nil => rfl
  | cons text texts ih => simp [Json.text, ih]

theorem arrayReadAs (html : HtmlForm) (type : FieldType) (texts : List Text) :
    Json.readAs type (asArray texts) = if type = .list then html.readAs type texts else none := by
  cases type with
  | string | option => rfl
  | list => exact textsBack texts

theorem singleRead (type : FieldType) (text : Text) : (html.readAs type [text]).isSome = true := by
  cases type <;> rfl

theorem severalRead (type : FieldType) (first second : Text) (texts : List Text) :
    (html.readAs type (first :: second :: texts)).isSome = true ↔ type = .list := by
  cases type <;> simp [HtmlForm.readAs]

theorem pairsField (i : Fin T.arity) (texts : List Text) :
    (∃ value, (T.schema html.readAs).field (held texts) i = .ok value) ↔ T.Fits i texts := by
  rcases texts with _ | ⟨first, _ | ⟨second, texts⟩⟩
  · exact elimOk.trans (missingSome i)
  · exact elimOk.trans (iff_of_true (singleRead _ first) trivial)
  · exact elimOk.trans (severalRead _ first second texts)

theorem arrayField (html : HtmlForm) (i : Fin T.arity) (texts : List Text) :
    (∃ value, (T.schema Json.readAs).field ((held texts).map asArray) i = .ok value) ↔
      T.Fits i texts ∧ (texts ≠ [] → T.type i = .list) := by
  cases texts with
  | nil => exact (@pairsField T html i []).trans (by simp)
  | cons text texts =>
    rw [← @pairsField T html]
    by_cases list : T.type i = .list <;> simp [held, Schema.field, StructType.schema, arrayReadAs html, list]

theorem arrayRefines (i : Fin T.arity) (texts : List Text) (value : (T.type i).Value)
    (found : (T.schema Json.readAs).field ((held texts).map asArray) i = .ok value) :
    (T.schema html.readAs).field (held texts) i = .ok value := by
  cases texts with
  | nil => exact found
  | cons text texts =>
    simp only [held, Option.map_some, Schema.field, StructType.schema, arrayReadAs html] at found ⊢
    split at found
    · exact found
    · cases found

theorem deserializeOk {X : Type} {readAs : (type : FieldType) → X → Option type.Value} {entries : List (Text × X)}
    {entry : Text → Option X} (lists : Lists entries entry) (record : T.Val) :
    build (T.schema readAs) (entries.map fun e => (e.1, .ok e.2)) = .ok record ↔
      ∀ i, (T.schema readAs).field (entry (T.field i)) i = .ok (record i) :=
  buildLists (T.schema readAs) (indexOfSome T.distinct) lists

theorem deserializedAgree {fields : List (Text × Text)} {arrays : List (Text × Json)} {lists : List (Text × List Text)}
    (written : Lists arrays fun name => (grouped fields name).map asArray) (collected : Lists lists (grouped fields)) :
    deserialize T Json.readAs arrays = deserialize T html.readAs lists ↔
      ((∀ i, T.Fits i (valuesOf fields (T.field i))) → ∀ i, valuesOf fields (T.field i) ≠ [] → T.type i = .list) := by
  refine (recordsAgree (deserializeOk written) (deserializeOk collected) fun i => arrayRefines i _).trans ?_
  simp only [grouped, pairsField, arrayField html]
  exact ⟨fun keeps all i => (keeps all i).2, fun keeps all i => ⟨all i, keeps all i⟩⟩

end

theorem encodingsAgreeIff {F B : Type} {lib : Libraries Json B F} {html : HtmlForm} {T : StructType} {target : Target Json T.Val}
    (writes : WritesArrays lib) (derives : Derives html T target) {fields : List (Text × Text)} (some_ : fields ≠ [])
    {multipart urlencoded : Text} {body body' : ReqBody B} (parts : CarriesParts lib fields multipart body)
    (pairs : CarriesPairs lib html fields urlencoded body') :
    ((fromParts (some multipart) body : Request Json B F).formParse lib target).1.toOption =
        ((fromParts (some urlencoded) body' : Request Json B F).formParse lib target).1.toOption ↔
      ((∀ i, T.Fits i (valuesOf fields (T.field i))) → ∀ i, valuesOf fields (T.field i) ≠ [] → T.type i = .list) := by
  obtain ⟨arrays, written, first⟩ := multipartReads writes derives parts
  obtain ⟨lists, collected, second⟩ := urlencodedReads derives pairs some_
  rw [first, second]
  exact deserializedAgree written collected

inductive Sent where
  | parts (fields : List (Text × Text))
  | bytes (bytes : Bytes)

def plainPair (piece : Bytes) : Text × Text :=
  let text := piece.map fun byte => Char.ofNat byte.toNat
  (text.takeWhile (· ≠ '='), (text.dropWhile (· ≠ '=')).tail)

def plain : HtmlForm where
  decode bytes := ((bytes.splitOn 38).filter (· ≠ [])).map plainPair
  optional text := some text
  nothing := by decide

def entriesOf {X Y : Type} (f : X → Y) (map : HashMap Text X) : List (Text × Y) := map.entries.map fun entry => (entry.1, f entry.2)

theorem entriesList {X Y : Type} (f : X → Y) (map : HashMap Text X) :
    Lists (entriesOf f map) fun name => (map.lookup name).map f where
  distinct := by
    rw [entriesOf, List.map_map]
    exact map.nodupKeys
  holds name value := by
    rw [entriesOf, List.mem_map, Option.map_eq_some_iff]
    constructor
    · rintro ⟨⟨name, held⟩, among, same⟩
      cases same
      exact ⟨held, AList.mem_lookup_iff.mpr among, rfl⟩
    · rintro ⟨held, found, rfl⟩
      exact ⟨⟨name, held⟩, AList.mem_lookup_iff.mp found, rfl⟩

def groupPairs (pairs : List (Text × Text)) : HashMap Text (List Text) :=
  pairs.foldl (fun map pair => insertMulti map pair.1 pair.2) ∅

theorem groupPairsLookup (pairs : List (Text × Text)) (name : Text) : (groupPairs pairs).lookup name = grouped pairs name := by
  induction pairs using List.reverseRecOn generalizing name with
  | nil => rfl
  | append_singleton pairs pair ih =>
    rw [groupPairs, List.foldl_append]
    exact insertGrouped ih pair.1 pair.2 name

def formLibraries : Libraries Json Sent Empty where
  parseMime text :=
    if text = "multipart/form-data; boundary=x".toList then some .formData
    else if text = "application/x-www-form-urlencoded".toList then some .wwwFormUrlencoded
    else none
  collect
    | .parts _ => .ok []
    | .bytes bytes => .ok bytes
  fromSlice _ := .ok .null
  get _ _ := none
  toValue map := .ok (.object (entriesOf asArray map))
  parseBoundary text := if text = "multipart/form-data; boundary=x".toList then some "x".toList else none
  nextFields _
    | .other (.parts fields) => fields.map fun pair => .field (some pair.1) false (.ok pair.2) (.error (.fileEmpty []))
    | _ => []
  reason _ := none

theorem librariesWrite : WritesArrays formLibraries := fun map => ⟨entriesOf asArray map, rfl, entriesList asArray map⟩

def derived (html : HtmlForm) (T : StructType) : Target Json T.Val where
  fromValue
    | .object entries => (deserialize T Json.readAs entries).elim (.error []) .ok
    | _ => .error []
  fromBytes bytes := (deserialize T html.readAs (entriesOf id (groupPairs (html.decode bytes)))).elim (.error []) .ok
  fromStrMultiVal _ := .error []

theorem derivedDerives (html : HtmlForm) (T : StructType) : Derives html T (derived html T) where
  fromValue entries := by
    dsimp only [derived]
    cases deserialize T Json.readAs entries <;> rfl
  fromBytes bytes := by
    refine ⟨entriesOf id (groupPairs (html.decode bytes)), ?_, ?_⟩
    · simpa [groupPairsLookup] using entriesList id (groupPairs (html.decode bytes))
    · dsimp only [derived]
      cases deserialize T html.readAs (entriesOf id (groupPairs (html.decode bytes))) <;> rfl

def input : StructType where
  arity := 2
  field i := if i = 0 then "name".toList else "email".toList
  distinct := by unfold Function.Injective; decide
  type _ := .string
  default _ := none

def article : StructType where
  arity := 2
  field i := if i = 0 then "tag".toList else "note".toList
  distinct := by unfold Function.Injective; decide
  type i := if i = 0 then .list else .option
  default _ := none

def parsedParts (T : StructType) (fields : List (Text × Text)) : Option T.Val :=
  ((fromParts (some "multipart/form-data; boundary=x".toList) (.other (.parts fields)) : Request Json Sent Empty).formParse
    formLibraries (derived plain T)).1.toOption

def parsedPairs (T : StructType) (bytes : Bytes) : Option T.Val :=
  ((fromParts (some "application/x-www-form-urlencoded".toList) (.other (.bytes bytes)) : Request Json Sent Empty).formParse
    formLibraries (derived plain T)).1.toOption

theorem partsCarry (fields : List (Text × Text)) :
    CarriesParts formLibraries fields "multipart/form-data; boundary=x".toList (.other (.parts fields)) where
  subtype := rfl
  parts := by
    refine ⟨"x".toList, rfl, ?_⟩
    exact List.forall₂_map_right_iff.mpr (List.forall₂_same.mpr fun _ _ => rfl)

theorem pairsCarry (bytes : Bytes) :
    CarriesPairs formLibraries plain (plain.decode bytes) "application/x-www-form-urlencoded".toList (.other (.bytes bytes)) where
  subtype := by decide
  pairs := ⟨_, bytes, rfl, rfl, rfl⟩

def twoTags : Bytes := [116, 97, 103, 61, 97, 38, 116, 97, 103, 61, 98]

theorem tagsAgree : parsedParts article (plain.decode twoTags) = parsedPairs article twoTags :=
  (encodingsAgreeIff librariesWrite (derivedDerives plain article) (by decide) (partsCarry _) (pairsCarry twoTags)).mpr fun _ => by
    decide

def nameAndEmail : Bytes := [110, 97, 109, 101, 61, 97, 38, 101, 109, 97, 105, 108, 61, 98]

theorem stringsFailAsParts :
    plain.decode nameAndEmail = [("name".toList, "a".toList), ("email".toList, "b".toList)] ∧
      parsedParts input [("name".toList, "a".toList), ("email".toList, "b".toList)] ≠ parsedPairs input nameAndEmail := by
  constructor
  · decide
  · intro same
    have both := congrArg Option.isSome same
    revert both
    decide

end Silent.FormEncodings
