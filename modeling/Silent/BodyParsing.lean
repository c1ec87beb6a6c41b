import Silent.HttpRequest
import Silent.ReadOnce

/-! Reading the body of a request as JSON or as a form. Every way takes the body off the
request and keeps what it made of it in a cache of its own. What serde, mime, multer and
http-body make of their inputs is given from outside. -/
namespace Silent.BodyParsing
open ByteText HttpRequest ReadOnce

abbrev Bytes := List UInt8

inductive ReqBody (B : Type) where
  | empty
  | other (body : B)

inductive MimeSubtype where
  | json | formData | wwwFormUrlencoded
  | other (name : Text)
  deriving DecidableEq

-- `multer`: what the next field of a body comes to.
inductive NextField (F : Type) where
  | failed (err : Text)
  | field (name : Option Text) (contentType : Bool) (text : Except Text Text) (file : Except SilentError F)

structure FormData (F : Type) where
  fields : HashMap Text (List Text)
  files : HashMap Text (List F)

/- `J` is the type of JSON values, `B` of bodies that are not empty, `F` of uploaded files. -/
structure Libraries (J B F : Type) where
  parseMime : Text → Option MimeSubtype
  collect : B → Except Text Bytes
  fromSlice : Bytes → Except Text J
  get : J → Text → Option J
  toValue : HashMap Text (List Text) → Except Text J
  parseBoundary : Text → Option Text
  nextFields : Text → ReqBody B → List (NextField F)
  reason : Nat → Option Text

structure Target (J T : Type) where
  fromValue : J → Except Text T
  fromBytes : Bytes → Except Text T
  fromStrMultiVal : List Text → Except Text T

-- Of the headers only the text of `Content-Type` is read.
structure Request (J B F : Type) where
  contentTypeHeader : Option Text
  body : ReqBody B
  formData : Option (FormData F)
  jsonData : Option J
  formBodyCache : Option Bytes

def fromParts {J B F : Type} (contentTypeHeader : Option Text) (body : ReqBody B) : Request J B F :=
  ⟨contentTypeHeader, body, none, none, none⟩

section
variable {J B F T : Type} (lib : Libraries J B F)

def Request.contentType (self : Request J B F) : Option MimeSubtype := self.contentTypeHeader.bind lib.parseMime

def insertMulti {X : Type} (map : HashMap Text (List X)) (key : Text) (value : X) : HashMap Text (List X) :=
  map.insert key ((map.lookup key).getD [] ++ [value])

def readFields (form : FormData F) : List (NextField F) → SilentResult (FormData F)
  | [] => .ok form
  | .failed err :: _ => .error (.fileEmpty err)
  | .field none _ _ _ :: rest => readFields form rest
  | .field (some name) true _ file :: rest => do
      let file ← file
      readFields {form with files := insertMulti form.files name file} rest
  | .field (some name) false text _ :: rest => do
      let text ← text.mapError .fileEmpty
      readFields {form with fields := insertMulti form.fields name text} rest

def FormData.read (contentTypeHeader : Option Text) (body : ReqBody B) : SilentResult (FormData F) :=
  match contentTypeHeader.bind lib.parseBoundary with
  | none => .ok ⟨∅, ∅⟩
  | some boundary => readFields ⟨∅, ∅⟩ (lib.nextFields boundary body)

def formFailure (err : SilentError) : SilentError :=
  .businessError 400 ("Failed to read form data: ".toList ++ err.display lib.reason)

def Request.readForm (self : Request J B F) : SilentResult (FormData F) × Request J B F :=
  match self.contentType lib with
  | none => (.error .contentTypeMissingError, self)
  | some subtype =>
      if subtype ≠ .formData then (.error .contentTypeError, self)
      else
        match self.formData with
        | some form => (.ok form, self)
        | none =>
            match FormData.read lib self.contentTypeHeader self.body with
            | .error err => (.error (formFailure lib err), {self with body := .empty})
            | .ok form => (.ok form, {self with body := .empty, formData := some form})

def Request.multipartFormParse (self : Request J B F) (target : Target J T) : SilentResult T × Request J B F :=
  match self.readForm lib with
  | (.error err, later) => (.error err, later)
  | (.ok form, later) =>
      (((lib.toValue form.fields).bind target.fromValue).mapError .serdeJsonError, later)

def Request.urlencodedBytes (self : Request J B F) : SilentResult Bytes × Request J B F :=
  match self.formBodyCache with
  | some cached => (.ok cached, self)
  | none =>
      let later := {self with body := .empty}
      match self.body with
      | .empty => (.error .bodyEmpty, later)
      | .other body =>
          match lib.collect body with
          | .error _ => (.error .bodyEmpty, later)
          | .ok bytes => if bytes = [] then (.error .bodyEmpty, later) else (.ok bytes, {later with formBodyCache := some bytes})

def Request.urlencodedFormParse (self : Request J B F) (target : Target J T) : SilentResult T × Request J B F :=
  match self.urlencodedBytes lib with
  | (.error err, later) => (.error err, later)
  | (.ok bytes, later) => ((target.fromBytes bytes).mapError .serdeDeError, later)

def Request.formParse (self : Request J B F) (target : Target J T) : SilentResult T × Request J B F :=
  match self.contentType lib with
  | none => (.error .contentTypeMissingError, self)
  | some .formData => self.multipartFormParse lib target
  | some .wwwFormUrlencoded => self.urlencodedFormParse lib target
  | some _ => (.error .contentTypeError, self)

def Request.formField (self : Request J B F) (key : Text) (target : Target J T) : Option T × Request J B F :=
  match self.readForm lib with
  | (.error _, later) => (none, later)
  | (.ok form, later) => ((form.fields.lookup key).bind fun values => (target.fromStrMultiVal values).toOption, later)

def Request.jsonValue (self : Request J B F) : SilentResult J × Request J B F :=
  match self.jsonData with
  | some cached => (.ok cached, self)
  | none =>
      match self.contentType lib with
      | none => (.error .contentTypeMissingError, self)
      | some subtype =>
          if subtype ≠ .json then (.error .contentTypeError, self)
          else
            let later := {self with body := .empty}
            match self.body with
            | .empty => (.error .jsonEmpty, later)
            | .other body =>
                match lib.collect body with
                | .error _ => (.error .jsonEmpty, later)
                | .ok bytes =>
                    if bytes = [] then (.error .jsonEmpty, later)
                    else
                      match lib.fromSlice bytes with
                      | .error err => (.error (.serdeJsonError err), later)
                      | .ok value => (.ok value, {later with jsonData := some value})

def Request.jsonParse (self : Request J B F) (fromValue : J → Except Text T) : SilentResult T × Request J B F :=
  match self.jsonValue lib with
  | (.error err, later) => (.error err, later)
  | (.ok value, later) => ((fromValue value).mapError .serdeJsonError, later)

def Request.jsonField (self : Request J B F) (key : Text) (target : Target J T) : SilentResult T × Request J B F :=
  match self.jsonParse lib .ok with
  | (.error err, later) => (.error err, later)
  | (.ok value, later) =>
      (match lib.get value key with
        | none => .error .paramsNotFound
        | some field => (target.fromValue field).mapError .serdeJsonError, later)

inductive Call (J : Type) where
  | jsonParse {T : Type} (target : Target J T)
  | jsonField {T : Type} (key : Text) (target : Target J T)
  | formParse {T : Type} (target : Target J T)
  | formData
  | formField {T : Type} (key : Text) (target : Target J T)

inductive Outcome (F : Type) where
  | parsed {T : Type} (result : SilentResult T)
  | form (result : SilentResult (FormData F))
  | field {T : Type} (result : Option T)

def Call.run (self : Request J B F) : Call J → Outcome F × Request J B F
  | .jsonParse target => (self.jsonParse lib target.fromValue).map .parsed id
  | .jsonField key target => (self.jsonField lib key target).map .parsed id
  | .formParse target => (self.formParse lib target).map .parsed id
  | .formData => (self.readForm lib).map .form id
  | .formField key target => (self.formField lib key target).map .field id

def runCalls (self : Request J B F) : List (Call J) → List (Outcome F)
  | [] => []
  | call :: rest => (call.run lib self).1 :: runCalls (call.run lib self).2 rest

def loadJson : ReqBody B → SilentResult J
  | .empty => .error .jsonEmpty
  | .other body =>
      match lib.collect body with
      | .error _ => .error .jsonEmpty
      | .ok bytes => if bytes = [] then .error .jsonEmpty else (lib.fromSlice bytes).mapError .serdeJsonError

def loadBytes : ReqBody B → SilentResult Bytes
  | .empty => .error .bodyEmpty
  | .other body =>
      match lib.collect body with
      | .error _ => .error .bodyEmpty
      | .ok bytes => if bytes = [] then .error .bodyEmpty else .ok bytes

def loadForm (contentTypeHeader : Option Text) (body : ReqBody B) : SilentResult (FormData F) :=
  (FormData.read lib contentTypeHeader body).mapError (formFailure lib)

def Request.withJson (self : Request J B F) (cell : Cell (ReqBody B) J) : Request J B F :=
  {self with body := cell.source, jsonData := cell.cache}

def Request.withBytes (self : Request J B F) (cell : Cell (ReqBody B) Bytes) : Request J B F :=
  {self with body := cell.source, formBodyCache := cell.cache}

def Request.withForm (self : Request J B F) (cell : Cell (ReqBody B) (FormData F)) : Request J B F :=
  {self with body := cell.source, formData := cell.cache}

theorem jsonValueCell (self : Request J B F) (json : self.contentType lib = some .json) :
    self.jsonValue lib = (ReadOnce.get .empty (loadJson lib) ⟨self.body, self.jsonData⟩).map id self.withJson := by
  unfold Request.jsonValue ReadOnce.get
  cases cached : self.jsonData with
  | some value =>
    obtain ⟨header, body, form, data, bytes⟩ := self
    cases cached
    rfl
  | none =>
    simp only [json, ne_eq, not_true, if_false]
    cases body : self.body with
    | empty => rfl
    | other raw =>
      simp only [loadJson]
      cases lib.collect raw with
      | error err => rfl
      | ok bytes =>
        dsimp only
        split
        · rfl
        · cases lib.fromSlice bytes <;> rfl

theorem urlencodedBytesCell (self : Request J B F) :
    self.urlencodedBytes lib = (ReadOnce.get .empty (loadBytes lib) ⟨self.body, self.formBodyCache⟩).map id self.withBytes := by
  unfold Request.urlencodedBytes ReadOnce.get
  cases cached : self.formBodyCache with
  | some value =>
    obtain ⟨header, body, form, data, bytes⟩ := self
    cases cached
    rfl
  | none =>
    cases body : self.body with
    | empty => rfl
    | other raw =>
      simp only [loadBytes]
      cases lib.collect raw with
      | error err => rfl
      | ok bytes =>
        dsimp only
        split <;> rfl

theorem readFormCell (self : Request J B F) (form : self.contentType lib = some .formData) :
    self.readForm lib =
      (ReadOnce.get .empty (loadForm lib self.contentTypeHeader) ⟨self.body, self.formData⟩).map id self.withForm := by
  unfold Request.readForm ReadOnce.get
  simp only [form, ne_eq, not_true, if_false]
  cases cached : self.formData with
  | some value =>
    obtain ⟨header, body, form, data, bytes⟩ := self
    cases cached
    rfl
  | none =>
    simp only [loadForm]
    cases FormData.read lib self.contentTypeHeader self.body <;> rfl

def refusal : Option MimeSubtype → SilentError
  | none => .contentTypeMissingError
  | some _ => .contentTypeError

theorem jsonValueRefused {self : Request J B F} (uncached : self.jsonData = none) (other : self.contentType lib ≠ some .json) :
    self.jsonValue lib = (.error (refusal (self.contentType lib)), self) := by
  unfold Request.jsonValue
  rw [uncached]
  cases subtype : self.contentType lib with
  | none => rfl
  | some name =>
    rw [subtype] at other
    simp only [refusal]
    exact if_pos fun same => other (congrArg some same)

theorem readFormRefused {self : Request J B F} (other : self.contentType lib ≠ some .formData) :
    self.readForm lib = (.error (refusal (self.contentType lib)), self) := by
  unfold Request.readForm
  cases subtype : self.contentType lib with
  | none => rfl
  | some name =>
    rw [subtype] at other
    simp only [refusal]
    exact if_pos fun same => other (congrArg some same)

def Request.settle (fresh : Request J B F) : Request J B F :=
  match fresh.contentType lib with
  | some .json => fresh.withJson (settled .empty (loadJson lib) fresh.body)
  | some .wwwFormUrlencoded => fresh.withBytes (settled .empty (loadBytes lib) fresh.body)
  | some .formData => fresh.withForm (settled .empty (loadForm lib fresh.contentTypeHeader) fresh.body)
  | _ => fresh

@[simp] theorem settleHeader (fresh : Request J B F) : (fresh.settle lib).contentTypeHeader = fresh.contentTypeHeader := by
  unfold Request.settle
  split <;> rfl

@[simp] theorem settleContentType (fresh : Request J B F) : (fresh.settle lib).contentType lib = fresh.contentType lib := by
  simp only [Request.contentType, settleHeader]

theorem settleJsonData {fresh : Request J B F} (other : fresh.contentType lib ≠ some .json) :
    (fresh.settle lib).jsonData = fresh.jsonData := by
  unfold Request.settle
  split
  · exact absurd ‹_› other
  all_goals rfl

def Repeatable (fresh : Request J B F) : Prop :=
  (fresh.contentType lib = some .json → Repeats .empty (loadJson lib) fresh.body) ∧
    (fresh.contentType lib = some .formData → Repeats .empty (loadForm lib fresh.contentTypeHeader) fresh.body)

def Seen (fresh self : Request J B F) : Prop := self = fresh ∨ self = fresh.settle lib

def Steady {A : Type*} (fresh : Request J B F) (read : Request J B F → A × Request J B F) : Prop :=
  ∀ self, Seen lib fresh self → (read self).1 = (read fresh).1 ∧ Seen lib fresh (read self).2

theorem steadyMap {A A' : Type*} {fresh : Request J B F} {read : Request J B F → A × Request J B F}
    (steady : Steady lib fresh read) (f : A → A') : Steady lib fresh fun self => (read self).map f id :=
  fun self seen => ⟨congrArg f (steady self seen).1, (steady self seen).2⟩

theorem steadyConstant {A : Type*} {fresh : Request J B F} {read : Request J B F → A × Request J B F} (answer : A)
    (constant : ∀ self, Seen lib fresh self → read self = (answer, self)) : Steady lib fresh read := by
  intro self seen
  rw [constant self seen, constant fresh (.inl rfl)]
  exact ⟨rfl, seen⟩

theorem steadyRead {A : Type*} {fresh : Request J B F} {read : Request J B F → A × Request J B F} (answer : A)
    (first : read fresh = (answer, fresh.settle lib)) (later : read (fresh.settle lib) = (answer, fresh.settle lib)) :
    Steady lib fresh read := by
  rintro self (rfl | rfl)
  · rw [first]
    exact ⟨rfl, .inr rfl⟩
  · rw [first, later]
    exact ⟨rfl, .inr rfl⟩

section
variable {header : Option Text} {body : ReqBody B} (fine : Repeatable lib (fromParts header body : Request J B F))
include fine

theorem steadyJsonValue : Steady lib (fromParts header body : Request J B F) (·.jsonValue lib) := by
  by_cases json : (fromParts header body : Request J B F).contentType lib = some .json
  · have settles : (fromParts header body : Request J B F).settle lib =
        (fromParts header body).withJson (settled .empty (loadJson lib) body) := by
      unfold Request.settle
      rw [json]
      rfl
    apply steadyRead lib (loadJson lib body)
    · rw [jsonValueCell lib _ json, settles]
      exact congrArg (Prod.map id _) (getUnread .empty (loadJson lib) body)
    · rw [jsonValueCell lib _ ((settleContentType lib _).trans json), settles]
      exact congrArg (Prod.map id _) (getSettled .empty (loadJson lib) (fine.1 json))
  · apply steadyConstant lib (.error (refusal ((fromParts header body : Request J B F).contentType lib)))
    rintro self (rfl | rfl)
    · exact jsonValueRefused lib rfl json
    · have refused := jsonValueRefused lib (settleJsonData lib json) (by rwa [settleContentType])
      rwa [settleContentType] at refused

theorem steadyReadForm : Steady lib (fromParts header body : Request J B F) (·.readForm lib) := by
  by_cases form : (fromParts header body : Request J B F).contentType lib = some .formData
  · have settles : (fromParts header body : Request J B F).settle lib =
        (fromParts header body).withForm (settled .empty (loadForm lib header) body) := by
      unfold Request.settle
      rw [form]
      rfl
    apply steadyRead lib (loadForm lib header body)
    · rw [readFormCell lib _ form, settles]
      exact congrArg (Prod.map id _) (getUnread .empty (loadForm lib header) body)
    · rw [readFormCell lib _ ((settleContentType lib _).trans form), settles]
      exact congrArg (Prod.map id _) (getSettled .empty (loadForm lib header) (fine.2 form))
  · apply steadyConstant lib (.error (refusal ((fromParts header body : Request J B F).contentType lib)))
    rintro self (rfl | rfl)
    · exact readFormRefused lib form
    · have other : ((fromParts header body : Request J B F).settle lib).contentType lib ≠ some .formData := by
        rwa [settleContentType]
      have refused := readFormRefused lib other
      rwa [settleContentType] at refused

end

theorem loadBytesRepeats (body : ReqBody B) : Repeats .empty (loadBytes lib) body := by
  cases body with
  | empty => exact .inr rfl
  | other raw =>
    cases read : lib.collect raw with
    | error err => exact .inr (by simp only [loadBytes, read])
    | ok bytes =>
      by_cases empty : bytes = []
      · exact .inr (by simp only [loadBytes, read, empty, if_true])
      · exact .inl ⟨bytes, by simp only [loadBytes, read, empty, if_false]⟩

theorem steadyUrlencodedBytes {header : Option Text} {body : ReqBody B}
    (form : (fromParts header body : Request J B F).contentType lib = some .wwwFormUrlencoded) :
    Steady lib (fromParts header body : Request J B F) (·.urlencodedBytes lib) := by
  have settles : (fromParts header body : Request J B F).settle lib =
      (fromParts header body).withBytes (settled .empty (loadBytes lib) body) := by
    unfold Request.settle
    rw [form]
    rfl
  apply steadyRead lib (loadBytes lib body)
  · rw [urlencodedBytesCell, settles]
    exact congrArg (Prod.map id _) (getUnread .empty (loadBytes lib) body)
  · rw [urlencodedBytesCell, settles]
    exact congrArg (Prod.map id _) (getSettled .empty (loadBytes lib) (loadBytesRepeats lib body))

theorem jsonParseMap (self : Request J B F) (fromValue : J → Except Text T) :
    self.jsonParse lib fromValue =
      (self.jsonValue lib).map (fun result => result.bind fun value => (fromValue value).mapError .serdeJsonError) id := by
  unfold Request.jsonParse
  rcases self.jsonValue lib with ⟨_ | _, later⟩ <;> rfl

theorem jsonFieldMap (self : Request J B F) (key : Text) (target : Target J T) :
    self.jsonField lib key target = (self.jsonParse lib .ok).map
      (fun result => result.bind fun value =>
        match lib.get value key with
        | none => .error .paramsNotFound
        | some field => (target.fromValue field).mapError .serdeJsonError) id := by
  unfold Request.jsonField
  rcases self.jsonParse lib .ok with ⟨_ | _, later⟩ <;> rfl

theorem multipartFormParseMap (self : Request J B F) (target : Target J T) :
    self.multipartFormParse lib target = (self.readForm lib).map
      (fun result => result.bind fun form =>
        ((lib.toValue form.fields).bind target.fromValue).mapError .serdeJsonError) id := by
  unfold Request.multipartFormParse
  rcases self.readForm lib with ⟨_ | _, later⟩ <;> rfl

theorem urlencodedFormParseMap (self : Request J B F) (target : Target J T) :
    self.urlencodedFormParse lib target =
      (self.urlencodedBytes lib).map
        (fun result => result.bind fun bytes => (target.fromBytes bytes).mapError .serdeDeError) id := by
  unfold Request.urlencodedFormParse
  rcases self.urlencodedBytes lib with ⟨_ | _, later⟩ <;> rfl

theorem formFieldMap (self : Request J B F) (key : Text) (target : Target J T) :
    self.formField lib key target = (self.readForm lib).map
      (fun result => result.toOption.bind fun form =>
        (form.fields.lookup key).bind fun values => (target.fromStrMultiVal values).toOption) id := by
  unfold Request.formField
  rcases self.readForm lib with ⟨_ | _, later⟩ <;> rfl

section
variable {header : Option Text} {body : ReqBody B} (fine : Repeatable lib (fromParts header body : Request J B F))
include fine

theorem steadyFormParse (target : Target J T) :
    Steady lib (fromParts header body : Request J B F) (·.formParse lib target) := by
  have seenType : ∀ self, Seen lib (fromParts header body : Request J B F) self →
      self.contentType lib = (fromParts header body : Request J B F).contentType lib := by
    rintro self (rfl | rfl)
    · rfl
    · exact settleContentType lib _
  cases subtype : (fromParts header body : Request J B F).contentType lib with
  | none =>
    apply steadyConstant lib (.error .contentTypeMissingError)
    intro self seen
    simp only [Request.formParse, seenType self seen, subtype]
  | some name =>
    cases name with
    | formData =>
      have steady := steadyMap lib (steadyReadForm lib fine) fun result =>
        result.bind fun form => ((lib.toValue form.fields).bind target.fromValue).mapError .serdeJsonError
      intro self seen
      simp only [Request.formParse, seenType self seen, subtype, multipartFormParseMap]
      exact steady self seen
    | wwwFormUrlencoded =>
      have steady := steadyMap lib (steadyUrlencodedBytes lib subtype) fun result =>
        result.bind fun bytes => (target.fromBytes bytes).mapError .serdeDeError
      intro self seen
      simp only [Request.formParse, seenType self seen, subtype, urlencodedFormParseMap]
      exact steady self seen
    | json | other _ =>
      apply steadyConstant lib (.error .contentTypeError)
      intro self seen
      simp only [Request.formParse, seenType self seen, subtype]

theorem steadyJsonParse (fromValue : J → Except Text T) :
    Steady lib (fromParts header body : Request J B F) (·.jsonParse lib fromValue) := by
  simp only [jsonParseMap]
  exact steadyMap lib (steadyJsonValue lib fine) _

theorem steadyCall (call : Call J) : Steady lib (fromParts header body : Request J B F) (call.run lib) := by
  cases call with
  | jsonParse target => exact steadyMap lib (steadyJsonParse lib fine target.fromValue) _
  | jsonField key target =>
    simp only [Call.run, jsonFieldMap]
    exact steadyMap lib (steadyMap lib (steadyJsonParse lib fine .ok) _) _
  | formParse target => exact steadyMap lib (steadyFormParse lib fine target) _
  | formData => exact steadyMap lib (steadyReadForm lib fine) _
  | formField key target =>
    simp only [Call.run, formFieldMap]
    exact steadyMap lib (steadyMap lib (steadyReadForm lib fine) _) _

theorem runSteady (calls : List (Call J)) {self : Request J B F} (seen : Seen lib (fromParts header body) self) :
    runCalls lib self calls = calls.map fun call => (call.run lib (fromParts header body : Request J B F)).1 := by
  induction calls generalizing self with
  | nil => rfl
  | cons call rest ih =>
    have step := steadyCall lib fine call self seen
    rw [runCalls, List.map_cons, step.1, ih step.2]

end

def NextField.failure : NextField F → Option SilentError
  | .failed err => some (.fileEmpty err)
  | .field none _ _ _ => none
  | .field (some _) true _ (.error err) => some err
  | .field (some _) false (.error err) _ => some (.fileEmpty err)
  | _ => none

def partFailure (boundary : Text) (body : ReqBody B) : Option Text :=
  ((lib.nextFields boundary body).findSome? NextField.failure).map (·.display lib.reason)

theorem readFieldsFails (form : FormData F) (fields : List (NextField F)) (err : SilentError) :
    readFields form fields = .error err ↔ fields.findSome? NextField.failure = some err := by
  induction fields generalizing form with
  | nil => exact ⟨(fun fails => by cases fails), (fun fails => by cases fails)⟩
  | cons field rest ih =>
    rw [List.findSome?_cons]
    rcases field with failed | ⟨_ | name, _ | _, _ | text, _ | file⟩ <;>
      simp [readFields, NextField.failure, ih, Except.mapError, bind, Except.bind]

/-- A body whose first reading fails in a way that the next one, of the body already taken, does not. -/
def Spoils (header : Option Text) (body : ReqBody B) : Prop :=
  match header.bind lib.parseMime with
  | some .json => ∃ raw bytes err, body = .other raw ∧ lib.collect raw = .ok bytes ∧ bytes ≠ [] ∧ lib.fromSlice bytes = .error err
  | some .formData =>
      ∃ boundary text, header.bind lib.parseBoundary = some boundary ∧ partFailure lib boundary body = some text ∧
        partFailure lib boundary .empty ≠ some text
  | _ => False

theorem jsonRepeats (body : ReqBody B) :
    Repeats .empty (loadJson lib) body ↔
      ¬ ∃ raw bytes err, body = .other raw ∧ lib.collect raw = .ok bytes ∧ bytes ≠ [] ∧ lib.fromSlice bytes = .error err := by
  constructor
  · rintro repeats ⟨raw, bytes, err, rfl, read, some, fails⟩
    have first : loadJson lib (.other raw) = .error (.serdeJsonError err) := by
      simp only [loadJson, read, some, if_false, fails, Except.mapError]
    rcases repeats with ⟨value, ok⟩ | same
    · rw [first] at ok
      cases ok
    · rw [first] at same
      cases same
  · intro fine
    cases body with
    | empty => exact .inr rfl
    | other raw =>
      cases read : lib.collect raw with
      | error err => exact .inr (by simp only [loadJson, read])
      | ok bytes =>
        by_cases empty : bytes = []
        · exact .inr (by simp only [loadJson, read, empty, if_true])
        · cases parsed : lib.fromSlice bytes with
          | ok value => exact .inl ⟨value, by simp only [loadJson, read, empty, if_false, parsed, Except.mapError]⟩
          | error err => exact absurd ⟨raw, bytes, err, rfl, read, empty, parsed⟩ fine

theorem loadFormFails {header : Option Text} {boundary : Text} (found : header.bind lib.parseBoundary = some boundary)
    (body : ReqBody B) (err : SilentError) :
    loadForm lib header body = .error err ↔
      ∃ text, partFailure lib boundary body = some text ∧
        err = .businessError 400 ("Failed to read form data: ".toList ++ text) := by
  have fails := readFieldsFails ⟨∅, ∅⟩ (lib.nextFields boundary body)
  have load : loadForm lib header body =
      (readFields ⟨∅, ∅⟩ (lib.nextFields boundary body)).mapError (formFailure lib) := by
    unfold loadForm FormData.read
    rw [found]
  rw [load, partFailure]
  cases read : readFields ⟨∅, ∅⟩ (lib.nextFields boundary body) with
  | ok form =>
    cases failure : (lib.nextFields boundary body).findSome? NextField.failure with
    | none => simp [Except.mapError]
    | some first =>
      have wrong := (fails first).mpr failure
      rw [read] at wrong
      cases wrong
  | error first =>
    rw [(fails first).mp read]
    constructor
    · intro same
      cases same
      exact ⟨_, rfl, rfl⟩
    · rintro ⟨text, same, rfl⟩
      cases same
      rfl

theorem formRepeats (header : Option Text) (body : ReqBody B) :
    Repeats .empty (loadForm lib header) body ↔
      ¬ ∃ boundary text, header.bind lib.parseBoundary = some boundary ∧ partFailure lib boundary body = some text ∧
        partFailure lib boundary .empty ≠ some text := by
  constructor
  · rintro repeats ⟨boundary, text, found, fails, other⟩
    have first := (loadFormFails lib found body _).mpr ⟨text, fails, rfl⟩
    rcases repeats with ⟨form, ok⟩ | same
    · rw [first] at ok
      cases ok
    · obtain ⟨text', again, same⟩ := (loadFormFails lib found .empty _).mp (same.trans first)
      injection same with _ same
      rw [List.append_cancel_left same] at other
      exact other again
  · intro fine
    cases read : loadForm lib header body with
    | ok form => exact .inl ⟨form, read⟩
    | error err =>
      right
      cases found : header.bind lib.parseBoundary with
      | none =>
        unfold loadForm FormData.read at read
        rw [found] at read
        cases read
      | some boundary =>
        obtain ⟨text, fails, rfl⟩ := (loadFormFails lib found body err).mp read
        by_contra other
        refine fine ⟨boundary, text, found, fails, fun again => other ?_⟩
        rw [read]
        exact (loadFormFails lib found .empty _).mpr ⟨text, again, rfl⟩

theorem repeatableUnlessSpoils (header : Option Text) (body : ReqBody B) :
    Repeatable lib (fromParts header body : Request J B F) ↔ ¬ Spoils lib header body := by
  have subtype : (fromParts header body : Request J B F).contentType lib = header.bind lib.parseMime := rfl
  unfold Repeatable Spoils
  rw [subtype]
  constructor
  · rintro ⟨json, form⟩ spoils
    split at spoils
    next found => exact (jsonRepeats lib body).mp (json found) spoils
    next found => exact (formRepeats lib header body).mp (form found) spoils
    next => exact spoils
  · intro fine
    constructor
    · intro found
      rw [found] at fine
      exact (jsonRepeats lib body).mpr fine
    · intro found
      rw [found] at fine
      exact (formRepeats lib header body).mpr fine

theorem jsonValueTwice {header : Option Text} (body : ReqBody B)
    (json : (fromParts header body : Request J B F).contentType lib = some .json) :
    (((fromParts header body : Request J B F).jsonValue lib).2.jsonValue lib).1 =
      (ReadOnce.get .empty (loadJson lib) (ReadOnce.get .empty (loadJson lib) (unread body)).2).1 := by
  rw [jsonValueCell lib _ json]
  exact congrArg Prod.fst (jsonValueCell lib ((fromParts header body).withJson _) json)

theorem readFormTwice {header : Option Text} (body : ReqBody B)
    (form : (fromParts header body : Request J B F).contentType lib = some .formData) :
    (((fromParts header body : Request J B F).readForm lib).2.readForm lib).1 =
      (ReadOnce.get .empty (loadForm lib header) (ReadOnce.get .empty (loadForm lib header) (unread body)).2).1 := by
  rw [readFormCell lib _ form]
  exact congrArg Prod.fst (readFormCell lib ((fromParts header body).withForm _) form)

def Target.keep : Target J J := ⟨.ok, fun _ => .error [], fun _ => .error []⟩

theorem jsonParseKeep (self : Request J B F) : (self.jsonParse lib .ok).1 = (self.jsonValue lib).1 ∧
    (self.jsonParse lib .ok).2 = (self.jsonValue lib).2 := by
  unfold Request.jsonParse
  rcases self.jsonValue lib with ⟨_ | _, later⟩ <;> exact ⟨rfl, rfl⟩

theorem bodyAnswersRepeat (header : Option Text) (body : ReqBody B) :
    (∀ calls : List (Call J), runCalls lib (fromParts header body : Request J B F) calls =
        calls.map fun call => (call.run lib (fromParts header body : Request J B F)).1) ↔
      ¬ Spoils lib header body := by
  rw [← repeatableUnlessSpoils (J := J) (F := F) lib header body]
  constructor
  · intro answers
    constructor
    · intro json
      have twice := answers [.jsonParse .keep, .jsonParse .keep]
      injection twice with _ twice
      injection twice with second _
      injection second with _ second
      change (((fromParts header body : Request J B F).jsonParse lib .ok).2.jsonParse lib .ok).1 =
        ((fromParts header body : Request J B F).jsonParse lib .ok).1 at second
      rw [(jsonParseKeep lib _).1, (jsonParseKeep lib _).1, (jsonParseKeep lib _).2, jsonValueTwice lib body json] at second
      apply (getTwice .empty (loadJson lib) body).mp
      rw [second, jsonValueCell lib _ json]
      exact congrArg Prod.fst (getUnread .empty (loadJson lib) body)
    · intro form
      have twice := answers [.formData, .formData]
      injection twice with _ twice
      injection twice with second _
      injection second with second
      change (((fromParts header body : Request J B F).readForm lib).2.readForm lib).1 =
        ((fromParts header body : Request J B F).readForm lib).1 at second
      rw [readFormTwice lib body form] at second
      apply (getTwice .empty (loadForm lib header) body).mp
      rw [second, readFormCell lib _ form]
      exact congrArg Prod.fst (getUnread .empty (loadForm lib header) body)
  · exact fun fine calls => runSteady lib fine calls (.inl rfl)

end

def Outcome.failure {F : Type} : Outcome F → Option SilentError
  | .parsed (.error err) => some err
  | .form (.error err) => some err
  | _ => none

def nullJson : Libraries Unit Bytes Empty where
  parseMime text := if text = "application/json".toList then some .json else none
  collect raw := .ok raw
  fromSlice bytes :=
    if bytes = [110, 117, 108, 108] then .ok () else .error "EOF while parsing an object at line 1 column 1".toList
  get _ _ := none
  toValue _ := .error []
  parseBoundary _ := none
  nextFields _ _ := []
  reason _ := none

example : (runCalls nullJson (fromParts (some "application/json".toList) (.other [123]) : Request Unit Bytes Empty)
    [.jsonParse .keep, .jsonParse .keep]).map Outcome.failure =
    [some (.serdeJsonError "EOF while parsing an object at line 1 column 1".toList), some .jsonEmpty] := by decide

theorem secondFindsEmpty : ¬ ∀ (header : Option Text) (body : ReqBody Bytes) (calls : List (Call Unit)),
    runCalls nullJson (fromParts header body : Request Unit Bytes Empty) calls =
      calls.map fun call => (call.run nullJson (fromParts header body : Request Unit Bytes Empty)).1 := by
  intro all
  have same := congrArg (List.map Outcome.failure)
    (all (some "application/json".toList) (.other [123]) [.jsonParse .keep, .jsonParse .keep])
  revert same
  decide

end Silent.BodyParsing
