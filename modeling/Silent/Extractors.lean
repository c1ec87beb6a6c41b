import Silent.BodyParsing
import Silent.ClientAddress
import Silent.PathExtractor
import Silent.Responses

/-! Extractors: what a handler asks of a request, alone, in tuples, as an option or as a
result. Those that read the body take it off the request, and the next one finds what they
left. What the crates around them make of a text is given from outside. -/
namespace Silent.Extractors
open ByteText TowerCompat
open HttpRequest (Method SilentError SilentResult TypeId State PathParam)
open RemoteAddress (HeaderValues Unix RemoteAddr)

/- `complaint` is what `serde::de::value::Error` displays, `isJson` what `serde_json` reads as a value. -/
structure Runtime (J B F : Type) where
  lib : BodyParsing.Libraries J B F
  std : PathExtractor.Std
  http : HeaderValues
  platform : Option Unix
  complaint : PathExtractor.ValError → Text
  isJson : Text → Bool

structure Head (http : HeaderValues) (T : Payload) where
  method : Method
  uri : Uri
  version : Version
  headers : List (Text × http.Value)
  extensions : HashMap TypeId T.extension
  pathParams : HashMap Text PathParam
  pathSource : Option PathSegment.Slice
  state : State T.value

namespace Head
variable {http : HeaderValues} {T : Payload} (head : Head http T)

def getAll (name : Text) : List http.Value := head.headers.filterMap fun entry => if entry.1 = name then some entry.2 else none

def get (name : Text) : Option http.Value := (head.getAll name).head?

def contentType : Option Text := (head.get "content-type".toList).bind http.toStr

def addresses : RemoteAddress.Headers http := ⟨head.get "x-real-ip".toList, head.get "x-forwarded-for".toList⟩

def routed : HttpRequest.Request T.value := ⟨head.method, head.uri.path, head.pathParams, head.pathSource, head.state⟩

end Head

structure Request {J B F : Type} (rt : Runtime J B F) (T : Payload) where
  head : Head rt.http T
  content : BodyParsing.Request J B F

section
variable {J B F : Type} (rt : Runtime J B F) (T : Payload)

def fromParts (head : Head rt.http T) (body : BodyParsing.ReqBody B) : Request rt T :=
  ⟨head, BodyParsing.fromParts head.contentType body⟩

inductive Rejection where
  | error (err : SilentError)
  | response (res : Response T)

inductive Extractor : Type → Type 1 where
  | path (target : PathExtractor.Target) : Extractor (target.Val rt.std)
  | query {A : Type} (fromStr : Text → Except Text A) : Extractor A
  | json {A : Type} (fromValue : J → Except Text A) : Extractor A
  | form {A : Type} (target : BodyParsing.Target J A) : Extractor A
  | state (type : TypeId) : Extractor T.value
  | configs (type : TypeId) : Extractor T.value
  | extension (type : TypeId) : Extractor T.extension
  | typedHeader {A : Type} (name : Text) (decode : List rt.http.Value → Option A) : Extractor A
  | method : Extractor Method
  | uri : Extractor Uri
  | version : Extractor Version
  | remoteAddr : Extractor RemoteAddr
  | custom {A : Type} (read : Head rt.http T → Except (Rejection T) A) : Extractor A
  | single {A : Type} (a : Extractor A) : Extractor A
  | pair {A A' : Type} (a : Extractor A) (b : Extractor A') : Extractor (A × A')
  | triple {A A' A'' : Type} (a : Extractor A) (b : Extractor A') (c : Extractor A'') : Extractor (A × A' × A'')
  | quadruple {A A' A'' A''' : Type} (a : Extractor A) (b : Extractor A') (c : Extractor A'') (d : Extractor A''') :
      Extractor (A × A' × A'' × A''')
  | option {A : Type} (a : Extractor A) : Extractor (Option A)
  | result {A : Type} (a : Extractor A) : Extractor (Except (Response T) A)

variable {T}

def Rejection.into : Rejection T → Response T
  | .error err => Responses.fromError rt.lib.reason rt.isJson err
  | .response res => res

-- `none` is a panic.
abbrev Answer (T : Payload) (A : Type) := Option (Except (Rejection T) A)

def getState (head : Head rt.http T) (type : TypeId) : SilentResult T.value :=
  match head.state.lookup type with
  | some value => .ok value
  | none => .error .configNotFound

def typedGet {A : Type} (values : List rt.http.Value) (decode : List rt.http.Value → Option A) : Option A :=
  if values.isEmpty then none else decode values

def orNotFound {A : Type} : Option A → SilentResult A
  | some value => .ok value
  | none => .error .paramsNotFound

def readPath (head : Head rt.http T) (target : PathExtractor.Target) : Answer T (target.Val rt.std) :=
  match PathExtractor.fromRequest rt.std target head.routed with
  | .ok value => some (.ok value)
  | .error .panicked => none
  | .error (.de err) => some (.error (.error (.serdeDeError (rt.complaint err))))
  | .error (.rejected err) => some (.error (.error err))

def reply {A : Type} (result : SilentResult A) : Answer T A := some (result.mapError .error)

def component {A A' : Type} (answered : Answer T A × Request rt T) (next : A → Request rt T → Answer T A' × Request rt T) :
    Answer T A' × Request rt T :=
  match answered with
  | (some (.ok value), later) => next value later
  | (some (.error rejection), later) => (some (.error (.response (rejection.into rt))), later)
  | (none, later) => (none, later)

def optional {A : Type} : Answer T A → Answer T (Option A) :=
  Option.map fun
    | .ok value => .ok (some value)
    | .error _ => .ok none

def reported {A : Type} : Answer T A → Answer T (Except (Response T) A) :=
  Option.map fun
    | .ok value => .ok (.ok value)
    | .error rejection => .ok (.error (rejection.into rt))

def Extractor.fromRequest {A : Type} : Extractor rt T A → Request rt T → Answer T A × Request rt T
  | .path target, req => (readPath rt req.head target, req)
  | .query fromStr, req => (reply ((fromStr (req.head.uri.query.getD [])).mapError .serdeDeError), req)
  | .json fromValue, req =>
      ((req.content.jsonParse rt.lib fromValue).map reply fun later => {req with content := later})
  | .form target, req =>
      ((req.content.formParse rt.lib target).map reply fun later => {req with content := later})
  | .state type, req => (reply (getState rt req.head type), req)
  | .configs type, req => (reply (getState rt req.head type), req)
  | .extension type, req => (reply (orNotFound (req.head.extensions.lookup type)), req)
  | .typedHeader name decode, req => (reply (orNotFound (typedGet rt (req.head.getAll name) decode)), req)
  | .method, req => (some (.ok req.head.method), req)
  | .uri, req => (some (.ok req.head.uri), req)
  | .version, req => (some (.ok req.head.version), req)
  | .remoteAddr, req => ((RemoteAddress.remote rt.platform req.head.addresses).map .ok, req)
  | .custom read, req => (some (read req.head), req)
  | .single a, req => component rt (a.fromRequest req) fun x req => (some (.ok x), req)
  | .pair a b, req =>
      component rt (a.fromRequest req) fun x req =>
        component rt (b.fromRequest req) fun y req => (some (.ok (x, y)), req)
  | .triple a b c, req =>
      component rt (a.fromRequest req) fun x req =>
        component rt (b.fromRequest req) fun y req =>
          component rt (c.fromRequest req) fun z req => (some (.ok (x, y, z)), req)
  | .quadruple a b c d, req =>
      component rt (a.fromRequest req) fun x req =>
        component rt (b.fromRequest req) fun y req =>
          component rt (c.fromRequest req) fun z req =>
            component rt (d.fromRequest req) fun w req => (some (.ok (x, y, z, w)), req)
  | .option a, req => (a.fromRequest req).map optional id
  | .result a, req => (a.fromRequest req).map (reported rt) id

def handlerFromExtractor {m : Type → Type} [Monad m] {A : Type} (args : Extractor rt T A) (f : A → m (SilentResult (Response T)))
    (req : Request rt T) : m (Option (SilentResult (Response T))) :=
  match (args.fromRequest rt req).1 with
  | some (.ok value) => some <$> f value
  | some (.error rejection) => pure (some (.ok (rejection.into rt)))
  | none => pure none

def handlerFromExtractorWithRequest {m : Type → Type} [Monad m] {A : Type} (args : Extractor rt T A)
    (f : Request rt T → A → m (SilentResult (Response T))) (req : Request rt T) : m (Option (SilentResult (Response T))) :=
  match args.fromRequest rt req with
  | (some (.ok value), later) => some <$> f later value
  | (some (.error rejection), _) => pure (some (.ok (rejection.into rt)))
  | (none, _) => pure none

def extractAll (req : Request rt T) : List ((A : Type) × Extractor rt T A) → Option (List ((A : Type) × Except (Rejection T) A))
  | [] => some []
  | ⟨A, e⟩ :: rest =>
      match e.fromRequest rt req with
      | (none, _) => none
      | (some answer, later) => (extractAll later rest).map (⟨A, answer⟩ :: ·)

-- A panic, or the response of a refusal, ends a handler; else it goes on with the value.
def settle {m : Type → Type} [Monad m] {A : Type} : Answer T A → (A → m (Option (SilentResult (Response T)))) →
    m (Option (SilentResult (Response T)))
  | some (.ok value), next => next value
  | some (.error rejection), _ => pure (some (.ok (rejection.into rt)))
  | none, _ => pure none

def whole {A A' : Type} : Answer T A → (A → Answer T A') → Answer T A'
  | some (.ok value), next => next value
  | some (.error rejection), _ => some (.error (.response (rejection.into rt)))
  | none, _ => none

theorem wholeOk {A A' : Type} {answer : Answer T A} {next : A → Answer T A'} {value : A'} :
    whole rt answer next = some (.ok value) ↔ ∃ x, answer = some (.ok x) ∧ next x = some (.ok value) := by
  match answer with
  | none => simp [whole]
  | some (.error rejection) => simp [whole]
  | some (.ok x) => simp [whole]

def alone (head : Head rt.http T) (body : BodyParsing.ReqBody B) {A : Type} (e : Extractor rt T A) : Answer T A :=
  (e.fromRequest rt (fromParts rt T head body)).1

def Seen (head : Head rt.http T) (body : BodyParsing.ReqBody B) (self : Request rt T) : Prop :=
  self.head = head ∧ BodyParsing.Seen rt.lib (BodyParsing.fromParts head.contentType body) self.content

def Gives (head : Head rt.http T) (body : BodyParsing.ReqBody B) {A : Type} (value : Answer T A)
    (answered : Answer T A × Request rt T) : Prop :=
  answered.1 = value ∧ Seen rt head body answered.2

section
variable {rt} {head : Head rt.http T} {body : BodyParsing.ReqBody B}

theorem givesComponent {A A' : Type} {value : Answer T A} {answered : Answer T A × Request rt T}
    {rest : A → Answer T A'} {next : A → Request rt T → Answer T A' × Request rt T} (first : Gives rt head body value answered)
    (others : ∀ x later, Seen rt head body later → Gives rt head body (rest x) (next x later)) :
    Gives rt head body (whole rt value rest) (component rt answered next) := by
  obtain ⟨answer, later⟩ := answered
  obtain ⟨rfl, seen⟩ := first
  match answer with
  | none => exact ⟨rfl, seen⟩
  | some (.error rejection) => exact ⟨rfl, seen⟩
  | some (.ok x) => exact others x later seen

theorem givesMap {A A' : Type} {value : Answer T A} {answered : Answer T A × Request rt T} (first : Gives rt head body value answered)
    (f : Answer T A → Answer T A') : Gives rt head body (f value) (answered.map f id) :=
  ⟨congrArg f first.1, first.2⟩

theorem givesBody {A : Type} {read : BodyParsing.Request J B F → SilentResult A × BodyParsing.Request J B F}
    (steady : BodyParsing.Steady rt.lib (BodyParsing.fromParts head.contentType body) read) {self : Request rt T}
    (seen : Seen rt head body self) :
    Gives rt head body (reply (read (BodyParsing.fromParts head.contentType body)).1)
      ((read self.content).map reply fun later => {self with content := later}) := by
  obtain ⟨same, left⟩ := steady self.content seen.2
  exact ⟨congrArg reply same, seen.1, left⟩

theorem seenFresh : Seen rt head body (fromParts rt T head body) := ⟨rfl, .inl rfl⟩

def Steady {A : Type} (head : Head rt.http T) (body : BodyParsing.ReqBody B) (e : Extractor rt T A) : Prop :=
  ∀ self, Seen rt head body self → Gives rt head body (alone rt head body e) (e.fromRequest rt self)

theorem steadyHead {A : Type} {e : Extractor rt T A} (read : Head rt.http T → Answer T A)
    (reads : ∀ req : Request rt T, e.fromRequest rt req = (read req.head, req)) : Steady head body e := by
  intro self seen
  rw [Gives, alone, reads, reads]
  exact ⟨congrArg read seen.1, seen⟩

theorem steadyWith {A : Type} {e : Extractor rt T A} {value : Answer T A}
    (gives : ∀ self, Seen rt head body self → Gives rt head body value (e.fromRequest rt self)) : Steady head body e := by
  intro self seen
  rw [alone, (gives _ seenFresh).1]
  exact gives self seen

section
variable {A A' A'' A''' : Type} {a : Extractor rt T A} {b : Extractor rt T A'} {c : Extractor rt T A''} {d : Extractor rt T A'''}

theorem givesSingle (first : Steady head body a) {self : Request rt T} (seen : Seen rt head body self) :
    Gives rt head body (whole rt (alone rt head body a) fun x => some (.ok x)) ((Extractor.single a).fromRequest rt self) :=
  givesComponent (first self seen) fun _ _ seen => ⟨rfl, seen⟩

theorem givesPair (first : Steady head body a) (second : Steady head body b) {self : Request rt T} (seen : Seen rt head body self) :
    Gives rt head body
      (whole rt (alone rt head body a) fun x => whole rt (alone rt head body b) fun y => some (.ok (x, y)))
      ((Extractor.pair a b).fromRequest rt self) :=
  givesComponent (first self seen) fun _ later seen =>
    givesComponent (second later seen) fun _ _ seen => ⟨rfl, seen⟩

theorem givesTriple (first : Steady head body a) (second : Steady head body b) (third : Steady head body c)
    {self : Request rt T} (seen : Seen rt head body self) :
    Gives rt head body
      (whole rt (alone rt head body a) fun x =>
        whole rt (alone rt head body b) fun y => whole rt (alone rt head body c) fun z => some (.ok (x, y, z)))
      ((Extractor.triple a b c).fromRequest rt self) :=
  givesComponent (first self seen) fun _ later seen =>
    givesComponent (second later seen) fun _ later seen =>
      givesComponent (third later seen) fun _ _ seen => ⟨rfl, seen⟩

theorem givesQuadruple (first : Steady head body a) (second : Steady head body b) (third : Steady head body c)
    (fourth : Steady head body d) {self : Request rt T} (seen : Seen rt head body self) :
    Gives rt head body
      (whole rt (alone rt head body a) fun x =>
        whole rt (alone rt head body b) fun y =>
          whole rt (alone rt head body c) fun z => whole rt (alone rt head body d) fun w => some (.ok (x, y, z, w)))
      ((Extractor.quadruple a b c d).fromRequest rt self) :=
  givesComponent (first self seen) fun _ later seen =>
    givesComponent (second later seen) fun _ later seen =>
      givesComponent (third later seen) fun _ later seen =>
        givesComponent (fourth later seen) fun _ _ seen => ⟨rfl, seen⟩

end

theorem steadyExtractor (fine : BodyParsing.Repeatable rt.lib (BodyParsing.fromParts head.contentType body : BodyParsing.Request J B F))
    {A : Type} (e : Extractor rt T A) : Steady head body e := by
  induction e with
  | path target => exact steadyHead (fun head => readPath rt head target) fun _ => rfl
  | query fromStr => exact steadyHead (fun head => reply ((fromStr (head.uri.query.getD [])).mapError .serdeDeError)) fun _ => rfl
  | json fromValue => exact steadyWith fun _ seen => givesBody (BodyParsing.steadyJsonParse rt.lib fine fromValue) seen
  | form target => exact steadyWith fun _ seen => givesBody (BodyParsing.steadyFormParse rt.lib fine target) seen
  | state type => exact steadyHead (fun head => reply (getState rt head type)) fun _ => rfl
  | configs type => exact steadyHead (fun head => reply (getState rt head type)) fun _ => rfl
  | extension type => exact steadyHead (fun head => reply (orNotFound (head.extensions.lookup type))) fun _ => rfl
  | typedHeader name decode =>
    exact steadyHead (fun head => reply (orNotFound (typedGet rt (head.getAll name) decode))) fun _ => rfl
  | method => exact steadyHead (fun head => some (.ok head.method)) fun _ => rfl
  | uri => exact steadyHead (fun head => some (.ok head.uri)) fun _ => rfl
  | version => exact steadyHead (fun head => some (.ok head.version)) fun _ => rfl
  | remoteAddr => exact steadyHead (fun head => (RemoteAddress.remote rt.platform head.addresses).map .ok) fun _ => rfl
  | custom read => exact steadyHead (fun head => some (read head)) fun _ => rfl
  | single a first => exact steadyWith fun _ seen => givesSingle first seen
  | pair a b first second => exact steadyWith fun _ seen => givesPair first second seen
  | triple a b c first second third => exact steadyWith fun _ seen => givesTriple first second third seen
  | quadruple a b c d first second third fourth => exact steadyWith fun _ seen => givesQuadruple first second third fourth seen
  | option a first => exact steadyWith fun self seen => givesMap (first self seen) optional
  | result a first => exact steadyWith fun self seen => givesMap (first self seen) (reported rt)

theorem extractAllSeen (fine : BodyParsing.Repeatable rt.lib (BodyParsing.fromParts head.contentType body : BodyParsing.Request J B F))
    (es : List ((A : Type) × Extractor rt T A)) {self : Request rt T} (seen : Seen rt head body self) :
    extractAll rt self es = es.mapM fun e => (alone rt head body e.2).map (Sigma.mk e.1) := by
  induction es generalizing self with
  | nil => rfl
  | cons e rest ih =>
    obtain ⟨A, e⟩ := e
    obtain ⟨same, left⟩ := steadyExtractor fine e self seen
    rw [extractAll, List.mapM_cons, ← same]
    match answered : e.fromRequest rt self with
    | (none, later) => rfl
    | (some answer, later) =>
      rw [answered] at left
      simp only [ih left, Option.map_some, Option.bind_eq_bind, Option.bind_some]
      cases rest.mapM fun e => (alone rt head body e.2).map (Sigma.mk e.1) <;> rfl

theorem replyInjective {A : Type} {result result' : SilentResult A}
    (same : (reply result : Answer T A) = reply result') : result = result' := by
  match result, result', Option.some.inj same with
  | .ok _, .ok _, same => rw [Except.ok.inj same]
  | .error _, .error _, same => rw [Rejection.error.inj (Except.error.inj same)]

def keepValue : Extractor rt T J := .json .ok

def keepForm : Extractor rt T J := .form .keep

theorem keepValueReads (req : Request rt T) : (keepValue.fromRequest rt req).1 = reply (req.content.jsonValue rt.lib).1 ∧
    (keepValue.fromRequest rt req).2.content = (req.content.jsonValue rt.lib).2 := by
  obtain ⟨value, later⟩ := BodyParsing.jsonParseKeep rt.lib req.content
  exact ⟨congrArg reply value, later⟩

def formValue (lib : BodyParsing.Libraries J B F) (result : SilentResult (BodyParsing.FormData F)) : SilentResult J :=
  result.bind fun form => ((lib.toValue form.fields).bind .ok).mapError .serdeJsonError

theorem keepFormReads (req : Request rt T) (form : req.content.contentType rt.lib = some .formData) :
    (keepForm.fromRequest rt req).1 = reply (formValue rt.lib (req.content.readForm rt.lib).1) ∧
      (keepForm.fromRequest rt req).2.content = (req.content.readForm rt.lib).2 := by
  have parse : req.content.formParse rt.lib .keep = (req.content.readForm rt.lib).map (formValue rt.lib) id := by
    simp only [BodyParsing.Request.formParse, form]
    exact BodyParsing.multipartFormParseMap rt.lib req.content .keep
  have reads : keepForm.fromRequest rt req =
      (req.content.formParse rt.lib .keep).map reply fun later => {req with content := later} := rfl
  rw [reads, parse]
  exact ⟨rfl, rfl⟩

theorem loadFormBusiness {err : SilentError} (load : BodyParsing.loadForm rt.lib head.contentType body = .error err) :
    ∃ text, err = .businessError 400 text := by
  unfold BodyParsing.loadForm at load
  cases read : BodyParsing.FormData.read rt.lib head.contentType body with
  | ok form =>
    rw [read] at load
    cases load
  | error other =>
    rw [read] at load
    cases load
    exact ⟨_, rfl⟩

theorem formValueFails {result : SilentResult (BodyParsing.FormData F)} {err : SilentError}
    (business : ∃ text, err = .businessError 400 text) (fails : formValue rt.lib result = .error err) : result = .error err := by
  obtain ⟨text, rfl⟩ := business
  cases result with
  | error other => exact congrArg Except.error (Except.error.inj fails)
  | ok form =>
    change Except.mapError SilentError.serdeJsonError _ = _ at fails
    cases value : (rt.lib.toValue form.fields).bind .ok with
    | error message =>
      rw [value] at fails
      cases fails
    | ok value' =>
      rw [value] at fails
      cases fails

theorem twiceSame {A : Type} {e : Extractor rt T A} {answer : Except (Rejection T) A}
    (answers : (e.fromRequest rt (fromParts rt T head body)).1 = some answer)
    (all : ∀ es : List ((A : Type) × Extractor rt T A),
      extractAll rt (fromParts rt T head body) es = es.mapM fun e => (alone rt head body e.2).map (Sigma.mk e.1)) :
    (e.fromRequest rt (e.fromRequest rt (fromParts rt T head body)).2).1 = some answer := by
  have twice := all [⟨A, e⟩, ⟨A, e⟩]
  match first : e.fromRequest rt (fromParts rt T head body) with
  | (none, later) =>
    rw [first] at answers
    cases answers
  | (some shown, later) =>
    rw [first] at answers
    cases Option.some.inj answers
    match second : e.fromRequest rt later with
    | (none, last) => simp [extractAll, alone, first, second] at twice
    | (some shown', last) =>
      simp [extractAll, alone, first, second] at twice
      rw [twice]

theorem repeatableIfAlone (all : ∀ es : List ((A : Type) × Extractor rt T A),
      extractAll rt (fromParts rt T head body) es = es.mapM fun e => (alone rt head body e.2).map (Sigma.mk e.1)) :
    BodyParsing.Repeatable rt.lib (BodyParsing.fromParts head.contentType body : BodyParsing.Request J B F) := by
  constructor
  · intro json
    have first := (keepValueReads (fromParts rt T head body)).1
    have second := twiceSame first all
    rw [(keepValueReads _).1, (keepValueReads _).2] at second
    have same := replyInjective (second.trans rfl)
    apply (ReadOnce.getTwice .empty (BodyParsing.loadJson rt.lib) body).mp
    rw [← BodyParsing.jsonValueTwice rt.lib body json]
    refine same.trans ?_
    rw [show (fromParts rt T head body).content = BodyParsing.fromParts head.contentType body from rfl,
      BodyParsing.jsonValueCell rt.lib _ json]
    exact congrArg Prod.fst (ReadOnce.getUnread .empty (BodyParsing.loadJson rt.lib) body)
  · intro form
    have fresh : ((BodyParsing.fromParts head.contentType body : BodyParsing.Request J B F).readForm rt.lib).1 =
        BodyParsing.loadForm rt.lib head.contentType body := by
      rw [BodyParsing.readFormCell rt.lib _ form]
      exact congrArg Prod.fst (ReadOnce.getUnread .empty (BodyParsing.loadForm rt.lib head.contentType) body)
    have later : ((BodyParsing.fromParts head.contentType body : BodyParsing.Request J B F).readForm rt.lib).2.contentType rt.lib =
        some .formData := by
      rw [BodyParsing.readFormCell rt.lib _ form]
      exact form
    have first := (keepFormReads (fromParts rt T head body) form).1
    have second := twiceSame first all
    have again := keepFormReads (keepForm.fromRequest rt (fromParts rt T head body)).2 (by rwa [(keepFormReads _ form).2])
    rw [again.1, (keepFormReads _ form).2] at second
    have same := replyInjective (second.trans rfl)
    change formValue rt.lib (((BodyParsing.fromParts head.contentType body).readForm rt.lib).2.readForm rt.lib).1 =
      formValue rt.lib ((BodyParsing.fromParts head.contentType body).readForm rt.lib).1 at same
    rw [BodyParsing.readFormTwice rt.lib body form, fresh] at same
    cases load : BodyParsing.loadForm rt.lib head.contentType body with
    | ok value => exact .inl ⟨value, load⟩
    | error err =>
      right
      rw [ReadOnce.getUnread, load] at same
      have drained : (ReadOnce.get .empty (BodyParsing.loadForm rt.lib head.contentType)
          (ReadOnce.settled .empty (BodyParsing.loadForm rt.lib head.contentType) body)).1 =
          BodyParsing.loadForm rt.lib head.contentType .empty := by
        simp only [ReadOnce.settled, load, Except.toOption, ReadOnce.get]
        cases BodyParsing.loadForm rt.lib head.contentType .empty <;> rfl
      rw [drained] at same
      exact (formValueFails (loadFormBusiness load) same).trans load.symm

/- A tuple is extracted exactly if each of its components would have been alone. -/
structure Tuples (head : Head rt.http T) (body : BodyParsing.ReqBody B) {A A' A'' A''' : Type} (a : Extractor rt T A)
    (b : Extractor rt T A') (c : Extractor rt T A'') (d : Extractor rt T A''') : Prop where
  single : ∀ x, alone rt head body (.single a) = some (.ok x) ↔ alone rt head body a = some (.ok x)
  pair : ∀ x y, alone rt head body (.pair a b) = some (.ok (x, y)) ↔
    alone rt head body a = some (.ok x) ∧ alone rt head body b = some (.ok y)
  triple : ∀ x y z, alone rt head body (.triple a b c) = some (.ok (x, y, z)) ↔
    alone rt head body a = some (.ok x) ∧ alone rt head body b = some (.ok y) ∧ alone rt head body c = some (.ok z)
  quadruple : ∀ x y z w, alone rt head body (.quadruple a b c d) = some (.ok (x, y, z, w)) ↔
    alone rt head body a = some (.ok x) ∧ alone rt head body b = some (.ok y) ∧ alone rt head body c = some (.ok z) ∧
      alone rt head body d = some (.ok w)

theorem tuplesAlone {head : Head rt.http T} {body : BodyParsing.ReqBody B} (steady : ∀ {A : Type} (e : Extractor rt T A), Steady head body e)
    {A A' A'' A''' : Type} (a : Extractor rt T A) (b : Extractor rt T A') (c : Extractor rt T A'') (d : Extractor rt T A''') :
    Tuples head body a b c d := by
  refine ⟨fun x => ?_, fun x y => ?_, fun x y z => ?_, fun x y z w => ?_⟩
  · rw [alone, (givesSingle (steady a) seenFresh).1]
    simp [wholeOk]
  · rw [alone, (givesPair (steady a) (steady b) seenFresh).1]
    simp only [wholeOk, Option.some.injEq, Except.ok.injEq, Prod.mk.injEq]
    constructor
    · rintro ⟨x', first, y', second, rfl, rfl⟩
      exact ⟨first, second⟩
    · rintro ⟨first, second⟩
      exact ⟨x, first, y, second, rfl, rfl⟩
  · rw [alone, (givesTriple (steady a) (steady b) (steady c) seenFresh).1]
    simp only [wholeOk, Option.some.injEq, Except.ok.injEq, Prod.mk.injEq]
    constructor
    · rintro ⟨x', first, y', second, z', third, rfl, rfl, rfl⟩
      exact ⟨first, second, third⟩
    · rintro ⟨first, second, third⟩
      exact ⟨x, first, y, second, z, third, rfl, rfl, rfl⟩
  · rw [alone, (givesQuadruple (steady a) (steady b) (steady c) (steady d) seenFresh).1]
    simp only [wholeOk, Option.some.injEq, Except.ok.injEq, Prod.mk.injEq]
    constructor
    · rintro ⟨x', first, y', second, z', third, w', fourth, rfl, rfl, rfl, rfl⟩
      exact ⟨first, second, third, fourth⟩
    · rintro ⟨first, second, third, fourth⟩
      exact ⟨x, first, y, second, z, third, w, fourth, rfl, rfl, rfl, rfl⟩

/- Every extraction of a run, in whatever order, is the one it would have been alone, and so is
every component of a tuple, if and only if the body can be read twice. -/
theorem extractionsIndependent (head : Head rt.http T) (body : BodyParsing.ReqBody B) :
    ((∀ es : List ((A : Type) × Extractor rt T A),
        extractAll rt (fromParts rt T head body) es = es.mapM fun e => (alone rt head body e.2).map (Sigma.mk e.1)) ↔
      ¬ BodyParsing.Spoils rt.lib head.contentType body) ∧
    (¬ BodyParsing.Spoils rt.lib head.contentType body → ∀ {A A' A'' A''' : Type} (a : Extractor rt T A) (b : Extractor rt T A')
        (c : Extractor rt T A'') (d : Extractor rt T A'''), Tuples head body a b c d) := by
  have repeatable := BodyParsing.repeatableUnlessSpoils (J := J) (F := F) rt.lib head.contentType body
  refine ⟨⟨fun all => repeatable.mp (repeatableIfAlone all), fun fine es => extractAllSeen (repeatable.mpr fine) es seenFresh⟩, ?_⟩
  exact fun fine {A A' A'' A'''} a b c d => tuplesAlone (fun e => steadyExtractor (repeatable.mpr fine) e) a b c d

theorem settleWhole {m : Type → Type} [Monad m] {A A' : Type} (answer : Answer T A) (next : A → Answer T A')
    (k : A' → m (Option (SilentResult (Response T)))) :
    settle rt (whole rt answer next) k = settle rt answer fun x => settle rt (next x) k := by
  match answer with
  | none => rfl
  | some (.error rejection) => rfl
  | some (.ok x) => rfl

theorem handlerSettles {m : Type → Type} [Monad m] {A : Type} (args : Extractor rt T A) (f : A → m (SilentResult (Response T)))
    (req : Request rt T) : handlerFromExtractor rt args f req = settle rt (args.fromRequest rt req).1 fun x => some <$> f x := by
  unfold handlerFromExtractor
  match (args.fromRequest rt req).1 with
  | none => rfl
  | some (.error rejection) => rfl
  | some (.ok x) => rfl

theorem handlerWithRequestSettles {m : Type → Type} [Monad m] {A : Type} (args : Extractor rt T A)
    (f : Request rt T → A → m (SilentResult (Response T))) (req : Request rt T) :
    handlerFromExtractorWithRequest rt args f req =
      settle rt (args.fromRequest rt req).1 fun x => some <$> f (args.fromRequest rt req).2 x := by
  unfold handlerFromExtractorWithRequest
  match args.fromRequest rt req with
  | (none, later) => rfl
  | (some (.error rejection), later) => rfl
  | (some (.ok x), later) => rfl

/- A handler of these arguments goes on with what `extracted` hands it; and the request handed
on to it still answers every extraction. -/
structure Answers (head : Head rt.http T) (body : BodyParsing.ReqBody B) {m : Type → Type} [Monad m] {A : Type} (args : Extractor rt T A)
    (extracted : (A → m (Option (SilentResult (Response T)))) → m (Option (SilentResult (Response T)))) : Prop where
  plain : ∀ f, handlerFromExtractor rt args f (fromParts rt T head body) = extracted fun x => some <$> f x
  request : ∃ later, (∀ es, extractAll rt later es = es.mapM fun e => (alone rt head body e.2).map (Sigma.mk e.1)) ∧
    ∀ g, handlerFromExtractorWithRequest rt args g (fromParts rt T head body) = extracted fun x => some <$> g later x

theorem answersGiven {head : Head rt.http T} {body : BodyParsing.ReqBody B}
    (fine : BodyParsing.Repeatable rt.lib (BodyParsing.fromParts head.contentType body : BodyParsing.Request J B F)) {m : Type → Type}
    [Monad m] {A : Type} {args : Extractor rt T A} {value : Answer T A}
    {extracted : (A → m (Option (SilentResult (Response T)))) → m (Option (SilentResult (Response T)))}
    (gives : Gives rt head body value (args.fromRequest rt (fromParts rt T head body))) (settles : ∀ k, settle rt value k = extracted k) :
    Answers head body args extracted := by
  refine ⟨fun f => ?_, _, fun es => extractAllSeen fine es gives.2, fun g => ?_⟩
  · rw [handlerSettles, gives.1, settles]
  · rw [handlerWithRequestSettles, gives.1, settles]

/- Whatever the size of the tuple, the handler is called once, with what each extractor would
have given alone, or the first refusal is the response. -/
theorem handlerAnswers (head : Head rt.http T) (body : BodyParsing.ReqBody B)
    (fine : ¬ BodyParsing.Spoils rt.lib head.contentType body) {m : Type → Type} [Monad m] {A A' A'' A''' : Type}
    (a : Extractor rt T A) (b : Extractor rt T A') (c : Extractor rt T A'') (d : Extractor rt T A''') :
    Answers head body (m := m) (.single a) (fun k => settle rt (alone rt head body a) k) ∧
    Answers head body (m := m) (.pair a b)
      (fun k => settle rt (alone rt head body a) fun x => settle rt (alone rt head body b) fun y => k (x, y)) ∧
    Answers head body (m := m) (.triple a b c)
      (fun k => settle rt (alone rt head body a) fun x => settle rt (alone rt head body b) fun y =>
        settle rt (alone rt head body c) fun z => k (x, y, z)) ∧
    Answers head body (m := m) (.quadruple a b c d)
      (fun k => settle rt (alone rt head body a) fun x => settle rt (alone rt head body b) fun y =>
        settle rt (alone rt head body c) fun z => settle rt (alone rt head body d) fun w => k (x, y, z, w)) := by
  have repeatable := (BodyParsing.repeatableUnlessSpoils (J := J) (F := F) rt.lib head.contentType body).mpr fine
  have steady {A : Type} (e : Extractor rt T A) : Steady head body e := steadyExtractor repeatable e
  refine ⟨answersGiven repeatable (givesSingle (steady a) seenFresh) fun k => ?_,
    answersGiven repeatable (givesPair (steady a) (steady b) seenFresh) fun k => ?_,
    answersGiven repeatable (givesTriple (steady a) (steady b) (steady c) seenFresh) fun k => ?_,
    answersGiven repeatable (givesQuadruple (steady a) (steady b) (steady c) (steady d) seenFresh) fun k => ?_⟩ <;>
  · simp only [settleWhole]
    rfl

end

end

def nullRuntime : Runtime Unit BodyParsing.Bytes Empty :=
  ⟨BodyParsing.nullJson, PathExtractor.integral, ClientAddress.textValues, none, fun _ => [], fun _ => false⟩

def jsonHead : Head nullRuntime.http TowerCompat.plainPayload :=
  ⟨.post, ⟨none, none, "/".toList, none⟩, .http11, [("content-type".toList, "application/json".toList)], ∅, ∅, none, ∅⟩

theorem nullReads : ¬ BodyParsing.Spoils nullRuntime.lib jsonHead.contentType (.other [110, 117, 108, 108]) := by
  have type : jsonHead.contentType = some "application/json".toList := by decide
  rintro spoils
  rw [type] at spoils
  obtain ⟨raw, bytes, err, body, read, some, fails⟩ := spoils
  cases body
  cases read
  cases fails

def created (_ : Unit × Method × Option Unit × Version) : Id (SilentResult (Response TowerCompat.plainPayload)) :=
  pure (.ok {Response.empty with status := 201})

theorem handlerAnswersCreated :
    handlerFromExtractor nullRuntime (.quadruple (.json .ok) .method (.option (.json .ok)) .version) created
      (fromParts nullRuntime TowerCompat.plainPayload jsonHead (.other [110, 117, 108, 108])) =
        pure (some (.ok {Response.empty with status := 201})) :=
  (handlerAnswers jsonHead (.other [110, 117, 108, 108]) nullReads _ _ _ _).2.2.2.plain created

end Silent.Extractors
