import Silent.Sessions

/-! The adapter that hooks a Tower layer into a Silent middleware chain. Request and
response are taken apart into their `http` counterparts and built again; `SilentExtras`
carries what `http::Request` has no place for. -/
namespace Silent.TowerCompat
open ByteText PathSegment
open HttpRequest (Method SilentError SilentResult TypeId State PathParam)

structure Payload where
  value : Type
  session : Type
  extension : Type
  body : Type
  form : Type
  json : Type

inductive Version where
  | http09 | http10 | http11 | h2 | h3
  deriving DecidableEq

structure Uri where
  scheme : Option Text
  authority : Option Text
  path : Text
  query : Option Text
  deriving DecidableEq

structure SilentExtras (T : Payload) where
  state : State T.value
  pathParams : HashMap Text PathParam

-- `SilentExtras` is private to the adapter, so `shared` is all that other code can reach.
structure Extensions (T : Payload) where
  shared : Sessions.Extensions T.session (HashMap TypeId T.extension)
  extras : Option (SilentExtras T)

def Extensions.default (T : Payload) : Extensions T := ⟨⟨none, none, ∅⟩, none⟩

structure Parts (T : Payload) where
  method : Method
  uri : Uri
  version : Version
  headers : List (Text × Text)
  extensions : Extensions T

structure Request (T : Payload) where
  parts : Parts T
  pathParams : HashMap Text PathParam
  params : HashMap Text Text
  body : T.body
  pathSource : Option Slice
  formData : Option T.form
  jsonData : Option T.json
  formBodyCache : Option (List UInt8)
  state : State T.value

structure BaseRequest (T : Payload) where
  parts : Parts T
  body : T.body

/- A body of another crate, as far as `http_body::Body` shows it. -/
structure Reading where
  frames : List (Except Text (List UInt8))
  isEndStream : Bool
  lower : Nat
  upper : Option Nat
  deriving DecidableEq

inductive ResBody where
  | none
  | once (bytes : List UInt8)
  | chunks (parts : List (List UInt8))
  | incoming (body : Reading)
  | stream (items : List (Except Text (List UInt8)))
  | foreign (body : Reading)
  | boxed (inner : ResBody)

def ResBody.read : ResBody → Reading
  | .none => ⟨[], true, 0, some 0⟩
  | .once bytes => ⟨if bytes.isEmpty then [] else [.ok bytes], bytes.isEmpty, bytes.length, some bytes.length⟩
  | .chunks parts =>
      let size := parts.foldr (fun part size => part.length + size) 0
      ⟨parts.map .ok, parts.isEmpty, size, some size⟩
  | .incoming body => body
  | .stream items => ⟨items, false, 0, Option.none⟩
  | .foreign body => body
  | .boxed inner => inner.read

structure Response (T : Payload) where
  status : Nat
  version : Version
  headers : List (Text × Text)
  body : ResBody
  extensions : Extensions T
  state : State T.value

structure HttpResponse (T : Payload) where
  status : Nat
  version : Version
  headers : List (Text × Text)
  extensions : Extensions T
  body : ResBody

variable {T : Payload}

def Response.empty : Response T := ⟨200, .http11, [], .none, .default T, ∅⟩

namespace Request

def fromParts (parts : Parts T) (body : T.body) : Request T :=
  ⟨parts, ∅, ∅, body, none, none, none, none, ∅⟩

def intoHttp (self : Request T) : BaseRequest T := ⟨self.parts, self.body⟩

def setPathParams (self : Request T) (key : Text) (value : PathParam) : Request T :=
  {self with pathParams := self.pathParams.insert key value}

def queryParams (parse : Text → HashMap Text Text) (self : Request T) : HashMap Text Text :=
  match self.parts.uri.query with
  | some query => parse query
  | none => self.params

end Request

def intoHttpRequest (req : Request T) : BaseRequest T :=
  let http := req.intoHttp
  {http with parts := {http.parts with
    extensions := {http.parts.extensions with extras := some ⟨req.state, req.pathParams⟩}}}

def restore (req : Request T) (extras : SilentExtras T) : Request T :=
  extras.pathParams.entries.foldl (fun req entry => req.setPathParams entry.1 entry.2) {req with state := extras.state}

def fromHttpRequest (req : BaseRequest T) : Request T :=
  let parts := {req.parts with extensions := {req.parts.extensions with extras := none}}
  let silent := Request.fromParts parts req.body
  match req.parts.extensions.extras with
  | some extras => restore silent extras
  | none => silent

def intoHttpResponse (res : Response T) : HttpResponse T :=
  ⟨res.status, res.version, res.headers, .default T, res.body⟩

def HttpResponse.intoSilentResponse (self : HttpResponse T) : Response T :=
  {Response.empty with
    status := self.status
    version := self.version
    headers := self.headers
    body := .boxed self.body}

inductive BoxedError where
  | silent (error : SilentError)
  | other (message : Text)

def BoxedError.toText (reason : Nat → Option Text) : BoxedError → Text
  | .silent error => error.display reason
  | .other message => message

abbrev Outcome (T : Payload) := SilentResult (Response T)

abbrev Service (m : Type → Type) (T : Payload) := BaseRequest T → m (Except BoxedError (HttpResponse T))

section
variable {m : Type → Type} [Monad m]

def NextServicePublic.call (next : Request T → m (Outcome T)) : Service m T := fun req => do
  match ← next (fromHttpRequest req) with
  | .ok res => pure (.ok (intoHttpResponse res))
  | .error e => pure (.error (.silent e))

def TowerLayerAdapter.handle (reason : Nat → Option Text) (layer : Service m T → Service m T) (req : Request T)
    (next : Request T → m (Outcome T)) : m (Outcome T) := do
  let svc := layer (NextServicePublic.call next)
  match ← svc (intoHttpRequest req) with
  | .ok res => pure (.ok res.intoSilentResponse)
  | .error err => pure (.error (.businessError 500 (err.toText reason)))

end

def handed (req : Request T) : Request T := fromHttpRequest (intoHttpRequest req)

def outward (reason : Nat → Option Text) : Outcome T → Outcome T
  | .ok res => .ok (intoHttpResponse res).intoSilentResponse
  | .error e => .error (.businessError 500 (e.display reason))

theorem handleIdentity {m : Type → Type} [Monad m] [LawfulMonad m] (reason : Nat → Option Text) (req : Request T)
    (next : Request T → m (Outcome T)) :
    TowerLayerAdapter.handle reason id req next = outward reason <$> next (handed req) := by
  unfold TowerLayerAdapter.handle NextServicePublic.call
  simp only [id, bind_assoc, map_eq_pure_bind]
  refine bind_congr fun out => ?_
  cases out <;> simp [outward, BoxedError.toText]

/- All that code outside the adapter can learn of a request. `path_source` is read by
nobody, and a map only through its lookups. -/
structure Seen (T : Payload) where
  method : Method
  uri : Uri
  version : Version
  headers : List (Text × Text)
  extensions : Sessions.Extensions T.session (HashMap TypeId T.extension)
  state : State T.value
  pathParams : Text → Option PathParam
  params : Text → Option Text
  body : T.body
  formData : Option T.form
  jsonData : Option T.json
  formBodyCache : Option (List UInt8)

structure Answer (T : Payload) where
  status : Nat
  version : Version
  headers : List (Text × Text)
  body : Reading
  extensions : Sessions.Extensions T.session (HashMap TypeId T.extension)
  state : TypeId → Option T.value

def answerSeen : Outcome T → Except Nat (Answer T)
  | .ok res => .ok ⟨res.status, res.version, res.headers, res.body.read, res.extensions.shared, res.state.lookup⟩
  | .error e => .error e.status

/-- No body was parsed, and no query parameters are left over from a URI since replaced. -/
structure Unparsed (req : Request T) : Prop where
  formData : req.formData = none
  jsonData : req.jsonData = none
  formBodyCache : req.formBodyCache = none
  params : req.parts.uri.query.isSome ∨ req.params = ∅

def Survives : Outcome T → Prop
  | .ok res => res.extensions.shared = (Extensions.default T).shared ∧ res.state = ∅
  | .error e => e.status = 500

theorem lookupsNone {K V : Type} [DecidableEq K] (map : HashMap K V) :
    (∅ : HashMap K V).lookup = map.lookup ↔ map = ∅ := by
  refine ⟨fun same => AList.ext (List.eq_nil_iff_forall_not_mem.mpr fun entry among => ?_), fun empty => by rw [empty]⟩
  have found : map.lookup entry.1 = some entry.2 := AList.mem_lookup_iff.mpr among
  exact Option.some_ne_none _ (found.symm.trans (congrFun same entry.1).symm)

theorem outwardSeen (reason : Nat → Option Text) (out : Outcome T) :
    answerSeen (outward reason out) = answerSeen out ↔ Survives out := by
  cases out with
  | ok res => simp [outward, answerSeen, Survives, intoHttpResponse, HttpResponse.intoSilentResponse, Response.empty,
      ResBody.read, ← lookupsNone, eq_comm]
  | error e => simp [outward, answerSeen, Survives, SilentError.status, eq_comm]

theorem restorePathParams (req : Request T) (extras : SilentExtras T) :
    restore req extras =
      {req with state := extras.state, pathParams := HashMap.overwriteAll req.pathParams extras.pathParams} := by
  have fold : ∀ (entries : List (Sigma fun _ : Text => PathParam)) (req : Request T),
      entries.foldl (fun req entry => req.setPathParams entry.1 entry.2) req =
        {req with pathParams := entries.foldl (fun map entry => map.insert entry.1 entry.2) req.pathParams} := by
    intro entries
    induction entries with
    | nil => intro req; rfl
    | cons entry entries ih => intro req; exact ih (req.setPathParams entry.1 entry.2)
  exact fold extras.pathParams.entries {req with state := extras.state}

section
variable (parse : Text → HashMap Text Text)

def Request.seen (self : Request T) : Seen T :=
  { method := self.parts.method
    uri := self.parts.uri
    version := self.parts.version
    headers := self.parts.headers
    extensions := self.parts.extensions.shared
    state := self.state
    pathParams := self.pathParams.lookup
    params := (self.queryParams parse).lookup
    body := self.body
    formData := self.formData
    jsonData := self.jsonData
    formBodyCache := self.formBodyCache }

def freshParams (uri : Uri) : Text → Option Text :=
  match uri.query with
  | some query => (parse query).lookup
  | none => fun _ => none

theorem seenHanded (req : Request T) :
    (handed req).seen parse =
      {req.seen parse with
        params := freshParams parse req.parts.uri, formData := none, jsonData := none, formBodyCache := none} := by
  have restored : ∀ key, (HashMap.overwriteAll ∅ req.pathParams).lookup key = req.pathParams.lookup key := by
    intro key
    rw [HashMap.lookupOverwriteAll, AList.lookup_empty, Option.or_none]
  unfold handed fromHttpRequest intoHttpRequest
  simp only [restorePathParams, Request.seen, Request.fromParts, Request.intoHttp, Request.queryParams, freshParams,
    funext restored]
  cases req.parts.uri.query <;> simp

theorem freshParamsSame (req : Request T) :
    freshParams parse req.parts.uri = (req.queryParams parse).lookup ↔ req.parts.uri.query.isSome ∨ req.params = ∅ := by
  unfold freshParams Request.queryParams
  cases req.parts.uri.query with
  | some query => simp
  | none =>
    simp only [Option.isSome_none, Bool.false_eq_true, false_or]
    exact lookupsNone req.params

theorem handedSame (req : Request T) : (handed req).seen parse = req.seen parse ↔ Unparsed req := by
  rw [seenHanded]
  constructor
  · intro same
    exact ⟨(congrArg Seen.formData same).symm, (congrArg Seen.jsonData same).symm, (congrArg Seen.formBodyCache same).symm,
      (freshParamsSame parse req).mp (congrArg Seen.params same)⟩
  · intro unparsed
    rw [(freshParamsSame parse req).mpr unparsed.params, ← unparsed.formData, ← unparsed.jsonData, ← unparsed.formBodyCache]
    rfl

abbrev Job (W : Type) (T : Payload) := StateM W (Outcome T)

def Observes {W : Type} (call : Request T → Job W T) : Prop :=
  ∀ a b, a.seen parse = b.seen parse → call a = call b

structure Endpoint (W : Type) (T : Payload) where
  call : Request T → Job W T
  observes : Observes parse call

structure Middleware (W : Type) (T : Payload) where
  handle : Request T → (Request T → Job W T) → Job W T
  observes : ∀ next, Observes parse next → Observes parse (fun req => handle req next)

variable {W : Type}

theorem identityObserves (reason : Nat → Option Text) (next : Request T → Job W T) (observes : Observes parse next) :
    Observes parse (fun req => TowerLayerAdapter.handle reason id req next) := by
  intro a b same
  have below : (handed a).seen parse = (handed b).seen parse := by
    rw [seenHanded, seenHanded, same, show a.parts.uri = b.parts.uri from congrArg Seen.uri same]
  simp only [handleIdentity, observes _ _ below]

def identityLayer (reason : Nat → Option Text) : Middleware parse W T :=
  ⟨TowerLayerAdapter.handle reason id, identityObserves parse reason⟩

def chain (middlewares : List (Middleware parse W T)) (endpoint : Endpoint parse W T) : Request T → Job W T :=
  middlewares.foldr (fun mw next req => mw.handle req next) endpoint.call

theorem chainObserves (middlewares : List (Middleware parse W T)) (endpoint : Endpoint parse W T) :
    Observes parse (chain parse middlewares endpoint) := by
  induction middlewares with
  | nil => exact endpoint.observes
  | cons mw rest ih => exact mw.observes _ ih

def watch (next : Request T → Job W T) : Request T → Job (List (Seen T) × W) T := fun req s =>
  ((next req s.2).1, (s.1 ++ [req.seen parse], (next req s.2).2))

def Transparent (reason : Nat → Option Text) (next : Request T → Job W T) (req : Request T) (w : W) : Prop :=
  let hooked := (identityLayer parse reason).handle req (watch parse next) ([], w)
  let plain := watch parse next req ([], w)
  hooked.2 = plain.2 ∧ answerSeen hooked.1 = answerSeen plain.1

theorem transparentOnlyThere (reason : Nat → Option Text) (inner : List (Middleware parse W T))
    (endpoint : Endpoint parse W T) (req : Request T) (w : W) :
    Transparent parse reason (chain parse inner endpoint) req w ↔
      Unparsed req ∧ Survives (chain parse inner endpoint req w).1 := by
  unfold Transparent
  have ran : (identityLayer parse reason).handle req (watch parse (chain parse inner endpoint)) ([], w) =
      (outward reason (chain parse inner endpoint (handed req) w).1,
        ([(handed req).seen parse], (chain parse inner endpoint (handed req) w).2)) :=
    congrFun (handleIdentity (m := StateM (List (Seen T) × W)) reason req (watch parse (chain parse inner endpoint))) ([], w)
  have plain : watch parse (chain parse inner endpoint) req ([], w) =
      ((chain parse inner endpoint req w).1, ([req.seen parse], (chain parse inner endpoint req w).2)) := rfl
  rw [ran, plain, ← handedSame parse req]
  constructor
  · rintro ⟨effects, answers⟩
    have same : (handed req).seen parse = req.seen parse := List.head_eq_of_cons_eq (congrArg Prod.fst effects)
    rw [chainObserves parse inner endpoint _ _ same] at answers
    exact ⟨same, (outwardSeen reason _).mp answers⟩
  · rintro ⟨same, survives⟩
    rw [chainObserves parse inner endpoint _ _ same, same]
    exact ⟨rfl, (outwardSeen reason _).mpr survives⟩

end

section
def plainPayload : Payload := ⟨Unit, Unit, Unit, Unit, Unit, Unit⟩

def bareRequest : Request plainPayload :=
  .fromParts ⟨.get, ⟨none, none, ['/'], none⟩, .http11, [], .default _⟩ ()

def missing (parse : Text → HashMap Text Text) : Endpoint parse Unit plainPayload :=
  ⟨fun _ w => (.error .notFound, w), fun _ _ _ => rfl⟩

theorem notFoundBecomesInternal :
    ¬ ∀ (T : Payload) (W : Type) (parse : Text → HashMap Text Text) (reason : Nat → Option Text)
      (inner : List (Middleware parse W T)) (endpoint : Endpoint parse W T) (req : Request T) (w : W),
      Transparent parse reason (chain parse inner endpoint) req w := by
  intro always
  have same := (always plainPayload Unit (fun _ => ∅) (fun _ => none) [] (missing _) bareRequest ()).2
  cases same

end

end Silent.TowerCompat
