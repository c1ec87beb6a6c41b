import Silent.MountedHandlers
import Silent.Responses

/-! gRPC services behind a route: `service` and `register`, the handler and the merge of its
answer into the response, below `HyperServiceHandler::call`, which keeps hyper's upgrade for
itself. The cookie, session and scheduler features are off. A tonic service is any state
machine; its mutex has it answer one request at a time. -/
namespace Silent.GrpcMounts
open ByteText PathSegment HttpRequest RouteBuilder RouteShape Dispatch RouterSearch RouterRefinement RouterCompleteness
open RouteChains RouteRegistration MountedHandlers
open TowerCompat (Payload BaseRequest HttpResponse Response Extensions)

variable {T : Payload} {S M : Type}

/- `setRemote` is what it makes of the headers, `withLimit` the body under the configured limit. -/
structure Server (T : Payload) where
  onUpgrade : TypeId
  asyncUpgradeRx : TypeId
  distinct : onUpgrade ≠ asyncUpgradeRx
  receiver : T.extension
  setRemote : List (Text × Text) → List (Text × Text)
  withLimit : T.body → T.body
  reason : Nat → Option Text
  isJson : Text → Bool

abbrev TonicService (S : Type) (T : Payload) := BaseRequest T → StateM S (Except Text (HttpResponse T))

structure World (S : Type) where
  service : S
  upgrades : Nat

def onService {A : Type} (x : StateM S A) : StateM (World S) A := fun w => ((x.run w.service).1, {w with service := (x.run w.service).2})

def mergeGrpcResponse (res : Response T) (grpcRes : HttpResponse T) : Response T :=
  {res with
    status := grpcRes.status
    version := grpcRes.version
    headers := Responses.extend res.headers grpcRes.headers
    extensions := Responses.extendExtensions res.extensions grpcRes.extensions
    body := .boxed grpcRes.body}

def switching : Response T := {Response.empty with status := 101, headers := [("upgrade".toList, "h2c".toList)]}

def callFailed (message : Text) : SilentError := .businessError 500 ("grpc call failed: ".toList ++ message)

section
variable (server : Server T)

def GrpcHandler.call (service : TonicService S T) (req : BaseRequest T) : StateM (World S) (SilentResult (Response T)) :=
  match req.parts.extensions.shared.others.lookup server.onUpgrade with
  | some _ => fun w => (.ok switching, {w with upgrades := w.upgrades + 1})
  | none => do
      match ← onService (service req) with
      | .error message => pure (.error (callFailed message))
      | .ok grpcRes => pure (.ok (mergeGrpcResponse Response.empty grpcRes))

def service (name : Text) (handler : TonicService S T) : Option (Route (TonicService S T) M T.value) :=
  (Route.new name).append (((Route.new starPath).insertHandler .post handler).insertHandler .get handler)

def register (handler : TonicService S T) (name : Text) (route : Route (TonicService S T) M T.value) :
    Option (Route (TonicService S T) M T.value) := do
  let below ← service name handler
  route.push below

-- The rest of the request goes past the router. There are no middlewares.
abbrev Job (S : Type) (T : Payload) := ReaderT (BaseRequest T) (StateM (World S))

def fill (state : State T.value) (res : Response T) : Response T :=
  Responses.copyFromResponse {Response.empty with state := state} res

def clearBody (res : Response T) : Response T := {res with body := .none}

def env : Env (TonicService S T) M T.value (Response T) (Job S T) where
  callHandlers := handlerMapCall fill clearBody fun service _ carried => GrpcHandler.call server service carried
  middleware _ req next := next req
  panicked := pure (.error .notFound)

def keepUpgrade (others : HashMap TypeId T.extension) : HashMap TypeId T.extension :=
  match others.lookup server.onUpgrade with
  | some _ => (others.erase server.onUpgrade).insert server.asyncUpgradeRx server.receiver
  | none => others.erase server.onUpgrade

def received (message : BaseRequest T) : BaseRequest T :=
  let extensions := message.parts.extensions
  {parts := {message.parts with
      headers := server.setRemote message.parts.headers
      extensions := {extensions with shared := {extensions.shared with others := keepUpgrade server extensions.shared.others}}}
   body := server.withLimit message.body}

def fromInternal (res : Response T) : HttpResponse T :=
  ⟨res.status, res.version, Responses.extend [] res.headers, Responses.extendExtensions (.default T) res.extensions, res.body⟩

def reply (answer : SilentResult (Response T)) : HttpResponse T :=
  fromInternal (match answer with
    | .ok res => res
    | .error err => Responses.fromError server.reason server.isJson err)

def respond (plat : Platform) (order : RouteTree.HashOrder) (buffer : Nat) (site : Route (TonicService S T) M T.value)
    (message : BaseRequest T) : StateM (World S) (HttpResponse T) := do
  let answer ← (RouteTree.call (env server) plat (RouteTree.candidateIndices plat order) buffer (RouteTree.convertToRouteTree site)
    (Request.fromParts message.parts.method message.parts.uri.path)).run (received server message)
  pure (reply server answer)

end

def grpcMap {H : Type} (handler : H) : HashMap Method H := ((∅ : HashMap Method H).insert .post handler).insert .get handler

theorem starPair {H M V : Type} (handler : H) :
    Shaft (grpcMap handler) [] (((Route.new starPath : Route H M V).insertHandler .post handler).insertHandler .get handler) := by
  have shape : (Route.new starPath : Route H M V) = Route.single starPath starPath := by
    rw [Route.new]
    rfl
  rw [shape]
  exact .leaf rfl rfl rfl

/- A service on its own, or registered at an empty root. -/
inductive Mounted (name : Text) (handler : TonicService S T) : Route (TonicService S T) M T.value → Prop
  | own {site} (built : service name handler = some site) : Mounted name handler site
  | registered {site} (built : register handler name (Route.new []) = some site) : Mounted name handler site

theorem mountedShaft {name : Text} {handler : TonicService S T} {site : Route (TonicService S T) M T.value}
    (mounted : Mounted name handler site) :
    Shaft (grpcMap handler) (nodeKey name) site ∨ Shaft (grpcMap handler) ([] :: nodeKey name) site := by
  cases mounted with
  | own built =>
    have shaft := appendShaft built (starPair handler)
    rw [List.append_nil] at shaft
    exact .inl shaft
  | registered built =>
    obtain ⟨below, inner, outer⟩ := Option.bind_eq_some_iff.mp built
    have shaft : Shaft _ ([] :: (nodeKey name ++ [])) site := appendShaft outer (appendShaft inner (starPair handler))
    rw [List.append_nil] at shaft
    exact .inr shaft

section
variable (server : Server T)

theorem receivedNoUpgrade (message : BaseRequest T) :
    (received server message).parts.extensions.shared.others.lookup server.onUpgrade = none := by
  change (keepUpgrade server message.parts.extensions.shared.others).lookup server.onUpgrade = none
  unfold keepUpgrade
  split
  · rw [AList.lookup_insert_ne server.distinct]
    exact AList.lookup_erase _ _
  · exact AList.lookup_erase _ _

def answered : Except Text (HttpResponse T) → SilentResult (Response T)
  | .error message => .error (callFailed message)
  | .ok grpcRes => .ok (mergeGrpcResponse Response.empty grpcRes)

theorem callServes (handler : TonicService S T) (message : BaseRequest T) (w : World S) :
    (GrpcHandler.call server handler (received server message)).run w =
      (answered ((handler (received server message)).run w.service).1,
        {w with service := ((handler (received server message)).run w.service).2}) := by
  unfold GrpcHandler.call
  rw [receivedNoUpgrade]
  change StateT.run (onService (handler (received server message)) >>= _) w = _
  rw [StateT.run_bind]
  cases called : ((handler (received server message)).run w.service).1 with
  | error text =>
    have ran : (onService (handler (received server message))).run w =
        (.error text, {w with service := ((handler (received server message)).run w.service).2}) :=
      Prod.ext called rfl
    rw [ran]
    rfl
  | ok grpcRes =>
    have ran : (onService (handler (received server message))).run w =
        (.ok grpcRes, {w with service := ((handler (received server message)).run w.service).2}) :=
      Prod.ext called rfl
    rw [ran]
    rfl

def grpcReply (head : Bool) : Except Text (HttpResponse T) → HttpResponse T
  | .error message => reply server (.error (callFailed message))
  | .ok grpcRes =>
      {grpcRes with
        version := .http11
        extensions := (List.replicate 3 (Extensions.default T)).foldr Responses.extendExtensions grpcRes.extensions
        body := if head then .none else .boxed grpcRes.body}

theorem filledReply (state : State T.value) (head : Bool) (answer : Except Text (HttpResponse T)) :
    reply server ((answered answer).map fun res => if head then clearBody (fill state res) else fill state res) =
      grpcReply server head answer := by
  cases answer with
  | error message => rfl
  | ok grpcRes => cases head <;> rfl

def asked (method : Method) : Bool := method = .post ∨ method = .get ∨ method = .head

theorem mapServes (handler : TonicService S T) (message : BaseRequest T) (bound : HttpRequest.Request T.value) (w : World S) :
    (((env (M := M) server).callHandlers (grpcMap handler) bound).run (received server message)).run w =
      if asked bound.method then
        ((answered ((handler (received server message)).run w.service).1).map fun res =>
            if bound.method = .head then clearBody (fill bound.state res) else fill bound.state res,
          {w with service := ((handler (received server message)).run w.service).2})
      else (.error (.businessError 405 "method not allowed".toList), w) := by
  have serves := callServes server handler message w
  by_cases get : bound.method = .get
  · have found : (grpcMap handler).lookup bound.method = some handler := by
      rw [get]
      exact AList.lookup_insert _
    simp only [env, handlerMapCall, found, asked, get]
    exact congrArg (fun out : SilentResult (Response T) × World S => (out.1.map (fill bound.state), out.2)) serves
  · by_cases post : bound.method = .post
    · have found : (grpcMap handler).lookup bound.method = some handler := by
        rw [grpcMap, AList.lookup_insert_ne get, post]
        exact AList.lookup_insert _
      simp only [env, handlerMapCall, found, asked, post]
      exact congrArg (fun out : SilentResult (Response T) × World S => (out.1.map (fill bound.state), out.2)) serves
    · have missed : (grpcMap handler).lookup bound.method = none := by
        rw [grpcMap, AList.lookup_insert_ne get, AList.lookup_insert_ne post]
        rfl
      by_cases head : bound.method = .head
      · have found : (grpcMap handler).lookup .get = some handler := AList.lookup_insert _
        simp only [env, handlerMapCall, missed, asked, head, found, if_true]
        exact congrArg (fun out : SilentResult (Response T) × World S =>
          (out.1.map fun res => clearBody (fill bound.state res), out.2)) serves
      · simp only [env, handlerMapCall, missed, asked, head, get, post, if_false]
        rfl

/- What a tonic service behind the server is asked, and what of its answer goes out: below its
name, and for its methods, it is called once, with hyper's upgrade taken out of the request;
no connection is ever switched to HTTP/2. -/
theorem grpcAnswers {name : Text} {handler : TonicService S T} {site : Route (TonicService S T) M T.value}
    (mounted : Mounted name handler site) (plat : Platform) (order : RouteTree.HashOrder) (buffer : Nat) (message : BaseRequest T)
    (w : World S) :
    (respond server plat order buffer site message).run w =
      if captured plat (segments name) message.parts.uri.path = none then (reply server (.error .notFound), w)
      else if asked message.parts.method then
        (grpcReply server (message.parts.method = .head) ((handler (received server message)).run w.service).1,
          {w with service := ((handler (received server message)).run w.service).2})
      else (reply server (.error (.businessError 405 "method not allowed".toList)), w) := by
  have pass : PassThrough (env (S := S) (M := M) server) := fun _ _ _ => rfl
  have used : (grpcMap handler).entries.isEmpty = false := rfl
  have along : ∀ mount, Shaft (grpcMap handler) mount site → captured plat mount message.parts.uri.path =
      captured plat (nodeKey name) message.parts.uri.path → _ := fun mount shaft same => same ▸
    shaftServes plat order buffer used shaft message.parts.method message.parts.uri.path (env server) pass
  have reached := (mountedShaft mounted).elim (along _ · rfl) (along _ · rfl)
  rw [capturedKey] at reached
  cases left : captured plat (segments name) message.parts.uri.path with
  | none =>
    rw [left] at reached
    dsimp only at reached
    unfold respond
    rw [reached]
    rfl
  | some value =>
    rw [left] at reached
    obtain ⟨bound, method, _, called⟩ := reached
    have mapped := mapServes (M := M) server handler message bound w
    rw [← called, method] at mapped
    have out : (respond server plat order buffer site message).run w =
        (fun out : SilentResult (Response T) × World S => (reply server out.1, out.2))
          (((RouteTree.call (env server) plat (RouteTree.candidateIndices plat order) buffer (RouteTree.convertToRouteTree site)
            (Request.fromParts message.parts.method message.parts.uri.path)).run (received server message)).run w) := rfl
    have under : ¬ some value = none := Option.some_ne_none value
    rw [if_neg under, out, mapped]
    split
    · have filled := filledReply server bound.state (message.parts.method = .head) ((handler (received server message)).run w.service).1
      simp only [decide_eq_true_eq] at filled
      exact Prod.ext filled rfl
    · rfl

end

def counting : TonicService Nat TowerCompat.plainPayload := fun _ n => (.ok ⟨200, .h2, [], .default _, .none⟩, n + 1)

def greeter : Text := "greeter".toList

def plainServer : Server TowerCompat.plainPayload :=
  ⟨0, 1, by decide, (), id, id, fun _ => none, fun _ => false⟩

def helloCall : BaseRequest TowerCompat.plainPayload :=
  ⟨⟨.post, ⟨none, none, "/greeter/hello".toList, none⟩, .h2, [], ⟨⟨none, none, (∅ : HashMap TypeId Unit).insert 0 ()⟩, none⟩⟩, ()⟩

theorem countingMounted : ∃ site, Mounted (M := Unit) greeter counting site := by
  have tidy : Tidy greeter := by decide
  obtain ⟨site, built, _⟩ := RouteGraft.appendGrafts
    (RouteTable.lineSpine (tidyLine (H := TonicService Nat TowerCompat.plainPayload) (M := Unit) (V := Unit) tidy))
    (((Route.new starPath).insertHandler .post counting).insertHandler .get counting)
  exact ⟨site, .own built⟩

theorem grpcAnswersHello : ∃ site : Route (TonicService Nat TowerCompat.plainPayload) Unit Unit, ∀ plat order,
    ((respond plainServer plat order 0 site helloCall).run ⟨0, 0⟩).2 = ⟨1, 0⟩ := by
  obtain ⟨site, mounted⟩ := countingMounted
  refine ⟨site, fun plat order => ?_⟩
  have left : captured plat (segments greeter) helloCall.parts.uri.path = some "hello".toList := rfl
  rw [grpcAnswers plainServer mounted plat order 0 helloCall ⟨0, 0⟩, left]
  rfl

end Silent.GrpcMounts
