import Silent.GrpcMounts
import Silent.WebSocketSession
import Silent.WebSocketUpgrade

/-! WebSocket routes on a server: the handshake that a request must bring, the task its handler
spawns, and the connections of a server, each with the exchange of its upgrade and in the end a
session. There are no middlewares, and the cookie, session and scheduler features are off. -/
namespace Silent.WebSocketMounts
open ByteText PathSegment HttpRequest RouteBuilder Dispatch RouterCompleteness RouteChains PathCaptures StepSystem
open CompressionFrame (HeaderMap)
open GrpcMounts (Server received fill clearBody reply)
open TowerCompat (Payload BaseRequest HttpResponse Response Extensions)
open WebSocketSession (WebSocketHandler Session Socket Incoming)
open WebSocketUpgrade (Exchange Wired)

variable {T : Payload} {S M Io : Type}

structure Crates where
  secWebsocketKey : List Text → Option Text
  secWebsocketAccept : Text → Text
  queryParams : Text → HashMap Text Text

def upgrade : Text := "upgrade".toList
def secWebsocketKey : Text := "sec-websocket-key".toList

def badRequest (msg : String) : SilentError := .businessError 400 msg.toList

def switching (crates : Crates) (key : Text) : HeaderMap :=
  HeaderMap.insert (HeaderMap.insert (HeaderMap.insert [] "connection".toList upgrade) upgrade "websocket".toList)
    "sec-websocket-accept".toList (crates.secWebsocketAccept key)

def isWebSocket (value : Text) : Bool := decide (lower value = "websocket".toList)

def asksWebSocket (headers : HeaderMap) : Bool := (((HeaderMap.get headers upgrade).bind Sessions.toStr).map isWebSocket).getD false

def websocketHandler (crates : Crates) (headers : HeaderMap) : SilentResult (Response T) :=
  if !HeaderMap.containsKey headers upgrade then .error (badRequest "bad request: not upgrade")
  else if !asksWebSocket headers then .error (badRequest "bad request: not websocket")
  else
    match crates.secWebsocketKey (HeaderMap.getAll headers secWebsocketKey) with
    | none => .error (badRequest "bad request: sec_websocket_key is not exist in request headers")
    | some key => .ok {Response.empty with status := 101, headers := switching crates key}

structure WebSocketParts (T : Payload) where
  pathParams : HashMap Text PathParam
  params : HashMap Text Text
  headers : HeaderMap
  extensions : Extensions T

structure Spawned (T : Payload) where
  handler : WebSocketHandler
  parts : WebSocketParts T

structure World (S : Type) (T : Payload) where
  app : S
  spawned : List (Spawned T)

/- What a route can have under a method. Other handlers are any programs over a shared state. -/
inductive Handler (S : Type) (T : Payload) where
  | webSocket (handler : WebSocketHandler)
  | other (call : Request T.value → BaseRequest T → StateM S (SilentResult (Response T)))

abbrev Site (S : Type) (T : Payload) (M : Type) := Route (Handler S T) M T.value

def ws (route : Site S T M) (handler : WebSocketHandler) : Option (Site S T M) := route.onMethod .get (.webSocket handler)

section
variable (crates : Crates) (server : Server T)

def partsOf (bound : Request T.value) (req : BaseRequest T) : WebSocketParts T :=
  let extensions := req.parts.extensions
  {pathParams := bound.pathParams
   params := (req.parts.uri.query.map crates.queryParams).getD ∅
   headers := req.parts.headers
   extensions := {extensions with
     shared := {extensions.shared with others := extensions.shared.others.erase server.asyncUpgradeRx}}}

def Handler.call (handler : Handler S T) (bound : Request T.value) (req : BaseRequest T) :
    StateM (World S T) (SilentResult (Response T)) :=
  match handler with
  | .webSocket handler =>
      match websocketHandler crates req.parts.headers with
      | .error err => pure (.error err)
      | .ok res => fun w => (.ok res, {w with spawned := w.spawned ++ [⟨handler, partsOf crates server bound req⟩]})
  | .other call => fun w => (((call bound req).run w.app).1, {w with app := ((call bound req).run w.app).2})

abbrev Job (S : Type) (T : Payload) := ReaderT (BaseRequest T) (StateM (World S T))

def env : Env (Handler S T) M T.value (Response T) (Job S T) where
  callHandlers := handlerMapCall fill clearBody fun handler bound req => Handler.call crates server handler bound req
  middleware _ req next := next req
  panicked := pure (.error .notFound)

def handled (plat : Platform) (order : RouteTree.HashOrder) (buffer : Nat) (site : Site S T M) (message : BaseRequest T) :
    StateM (World S T) (SilentResult (Response T)) :=
  (RouteTree.call (env crates server) plat (RouteTree.candidateIndices plat order) buffer (RouteTree.convertToRouteTree site)
    (Request.fromParts message.parts.method message.parts.uri.path)).run (received server message)

end

inductive Progress (Io : Type) where
  | spawned
  | waiting (call : Nat)
  | session (io : Io) (session : Session)
  | failed (error : Text)

structure Connection (T : Payload) (Io : Type) where
  message : BaseRequest T
  buffer : Nat
  exchange : Exchange Io
  answer : Option (HttpResponse T)
  tasks : List (Spawned T × Progress Io)

structure Running (S : Type) (T : Payload) (Io : Type) where
  app : S
  connections : List (Connection T Io)

/- `serve` is what the server and hyper do with an exchange, `elsewhere` what other handlers do
with the copies of the receiver they have taken. -/
inductive Move (Io : Type) where
  | handle
  | serve (act : WebSocketUpgrade.Act Io)
  | poll (task : Nat)
  | session (task : Nat) (act : WebSocketSession.Act)
  | elsewhere (act : WebSocketUpgrade.Act Io)

inductive Event (T : Payload) (Io : Type) where
  | arrive (message : BaseRequest T) (buffer : Nat)
  | on (connection : Nat) (move : Move Io)

structure Wire (Io : Type) where
  incoming : Io → List Incoming
  socket : Io → Socket

def upgradable (server : Server T) (message : BaseRequest T) : Bool :=
  (message.parts.extensions.shared.others.lookup server.onUpgrade).isSome

def serving : WebSocketUpgrade.Act Io → Bool
  | .respond | .resolve _ | .forward | .abandon => true
  | _ => false

def arrived (server : Server T) (message : BaseRequest T) (buffer : Nat) : Connection T Io :=
  ⟨message, buffer, WebSocketUpgrade.called (upgradable server message), none, []⟩

def onExchange (c : Connection T Io) (act : WebSocketUpgrade.Act Io) : Option (Connection T Io) :=
  (WebSocketUpgrade.step c.exchange act).map fun exchange => {c with exchange}

def progressOf (wire : Wire Io) (exchange : Exchange Io) (call : Nat) : Progress Io :=
  match exchange.calls[call]? with
  | some (.upgraded io) => .session io (WebSocketSession.start (wire.incoming io))
  | some (.failed error) => .failed error
  | _ => .waiting call

section
variable (crates : Crates) (server : Server T) (wire : Wire Io)

def pollTask (c : Connection T Io) (task : Nat) : Option (Connection T Io) := do
  let (spawned, progress) ← c.tasks[task]?
  match progress with
  | .spawned =>
      let exchange ← WebSocketUpgrade.step c.exchange (.on (upgradable server c.message))
      some {c with exchange, tasks := c.tasks.set task (spawned, progressOf wire exchange c.exchange.calls.length)}
  | .waiting call =>
      let exchange ← WebSocketUpgrade.step c.exchange (.poll call)
      some {c with exchange, tasks := c.tasks.set task (spawned, progressOf wire exchange call)}
  | .session _ _ | .failed _ => none

def stepSession (c : Connection T Io) (task : Nat) (act : WebSocketSession.Act) : Option (Connection T Io) := do
  let (spawned, progress) ← c.tasks[task]?
  match progress with
  | .session io session =>
      let session ← WebSocketSession.step spawned.handler (wire.socket io) session act
      some {c with tasks := c.tasks.set task (spawned, .session io session)}
  | _ => none

variable (plat : Platform) (order : RouteTree.HashOrder) (site : Site S T M)

def advance (app : S) (c : Connection T Io) : Move Io → Option (S × Connection T Io)
  | .handle =>
      if c.answer.isSome then none
      else
        let out := (handled crates server plat order c.buffer site c.message).run ⟨app, []⟩
        some (out.2.app, {c with answer := some (reply server out.1), tasks := out.2.spawned.map (·, .spawned)})
  | .serve act => if c.answer.isSome ∧ serving act = true then (onExchange c act).map (app, ·) else none
  | .poll task => (pollTask server wire c task).map (app, ·)
  | .session task act => (stepSession wire c task act).map (app, ·)
  | .elsewhere act => if c.answer.isSome ∧ c.tasks.isEmpty then (onExchange c act).map (app, ·) else none

def step (s : Running S T Io) : Event T Io → Option (Running S T Io)
  | .arrive message buffer => some {s with connections := s.connections ++ [arrived server message buffer]}
  | .on connection move => do
      let c ← s.connections[connection]?
      let (app, c) ← advance crates server wire plat order site s.app c move
      some ⟨app, s.connections.set connection c⟩

end

def started (app : S) : Running S T Io := ⟨app, []⟩

structure Handshake (crates : Crates) (headers : HeaderMap) (key : Text) : Prop where
  upgrade : ∃ value, HeaderMap.get headers upgrade = some value ∧ value.all Sessions.isVisible = true ∧
    lower value = "websocket".toList
  key : crates.secWebsocketKey (HeaderMap.getAll headers secWebsocketKey) = some key

def accepted (crates : Crates) (key : Text) : Response T := {Response.empty with status := 101, headers := switching crates key}

theorem upgradeAsked (headers : HeaderMap) : asksWebSocket headers = true ↔
    ∃ value, HeaderMap.get headers upgrade = some value ∧ value.all Sessions.isVisible = true ∧
      lower value = "websocket".toList := by
  unfold asksWebSocket
  cases HeaderMap.get headers upgrade with
  | none => exact ⟨fun asked => (by cases asked), fun ⟨_, found, _⟩ => (by cases found)⟩
  | some value =>
    rw [Option.bind_some, Sessions.toStr]
    constructor
    · intro asked
      split at asked
      · rename_i visible
        exact ⟨value, rfl, visible, of_decide_eq_true asked⟩
      · cases asked
    · intro found
      obtain ⟨_, same, visible, named⟩ := found
      cases same
      rw [if_pos visible]
      exact decide_eq_true named

theorem upgradeHeld {headers : HeaderMap} (asked : asksWebSocket headers = true) : HeaderMap.containsKey headers upgrade = true := by
  obtain ⟨value, found, _⟩ := (upgradeAsked headers).mp asked
  obtain ⟨rest, values⟩ := List.head?_eq_some_iff.mp found
  rw [HeaderMap.containsKey, values]
  rfl

theorem handshakeCases (crates : Crates) (headers : HeaderMap) :
    (∃ key, Handshake crates headers key ∧ websocketHandler (T := T) crates headers = .ok (accepted crates key)) ∨
      (∀ key, ¬ Handshake crates headers key) ∧ ∃ err, websocketHandler (T := T) crates headers = .error err := by
  cases asked : asksWebSocket headers with
  | true =>
    cases keyed : crates.secWebsocketKey (HeaderMap.getAll headers secWebsocketKey) with
    | some key =>
      exact .inl ⟨key, ⟨(upgradeAsked headers).mp asked, keyed⟩, by simp [websocketHandler, upgradeHeld asked, asked, keyed, accepted]⟩
    | none =>
      refine .inr ⟨fun key handshake => ?_, _, by rw [websocketHandler, upgradeHeld asked, asked, keyed]; rfl⟩
      rw [handshake.key] at keyed
      cases keyed
  | false =>
    refine .inr ⟨fun key handshake => ?_, ?_⟩
    · rw [(upgradeAsked headers).mpr handshake.upgrade] at asked
      cases asked
    · unfold websocketHandler
      rw [asked]
      split <;> exact ⟨_, rfl⟩

def chosen {H : Type} (map : HashMap Method H) (method : Method) : Option H :=
  (map.lookup method).or (if method = .head then map.lookup .get else none)

section
variable (crates : Crates) (server : Server T)

theorem mapHandled (map : HashMap Method (Handler S T)) (bound : Request T.value) (req : BaseRequest T) (w : World S T) :
    (((env (M := M) crates server).callHandlers map bound).run req).run w =
      match chosen map bound.method with
      | none => (.error (.businessError 405 "method not allowed".toList), w)
      | some handler =>
          (((Handler.call crates server handler bound req).run w).1.map
              (if (map.lookup bound.method).isSome then fill bound.state else fun res => clearBody (fill bound.state res)),
            ((Handler.call crates server handler bound req).run w).2) := by
  unfold chosen
  cases own : map.lookup bound.method with
  | some handler =>
    simp only [env, handlerMapCall, own]
    rfl
  | none =>
    cases fallback : (if bound.method = .head then map.lookup .get else none) with
    | some handler =>
      simp only [env, handlerMapCall, own, fallback]
      rfl
    | none =>
      simp only [env, handlerMapCall, own, fallback]
      rfl

theorem chosenServed {map : HashMap Method (Handler S T)} {method : Method} {handler : Handler S T}
    (found : chosen map method = some handler) : map.entries.isEmpty = false := by
  cases held : map.entries with
  | cons entry rest => rfl
  | nil =>
    have missed : ∀ m, map.lookup m = none := fun m => by rw [AList.lookup, held, List.dlookup_nil]
    rw [chosen, missed, missed, ite_self] at found
    cases found

variable (plat : Platform) (order : RouteTree.HashOrder) (buffer : Nat) (site : Site S T M) (message : BaseRequest T)

structure Leads (hits : List (RouterSearch.Hit (Handler S T) M T.value)) (handler : WebSocketHandler) : Prop where
  stop : (rootStops plat ⟨buffer, message.parts.uri.path⟩ site).head? = some hits
  chosen : chosen (endOf site hits).handler message.parts.method = some (.webSocket handler)

def Opens : Prop :=
  ∃ hits handler key, Leads plat buffer site message hits handler ∧ Handshake crates (received server message).parts.headers key

def granted (key : Text) : HttpResponse T := ⟨101, .http11, switching crates key, .default T, .none⟩

/- What a task rests on, and what its request was answered. -/
structure Opened (spawned : Spawned T) (answer : HttpResponse T) : Prop where
  answer : ∃ key, Handshake crates (received server message).parts.headers key ∧ answer = granted crates key
  parts : ∃ hits bound, Leads plat buffer site message hits spawned.handler ∧
    Tracks plat ⟨buffer, message.parts.uri.path⟩ (chainOf site ⟨buffer, message.parts.uri.path⟩ hits) bound.pathParams ∧
    spawned.parts = partsOf crates server bound (received server message)

theorem grantedReply (state : State T.value) (key : Text) (cleared : Bool) :
    reply server ((.ok (accepted crates key) : SilentResult (Response T)).map
      (if cleared then fill state else fun res => clearBody (fill state res))) = granted crates key := by
  cases cleared <;> rfl

theorem mapOpens (map : HashMap Method (Handler S T)) (bound : Request T.value) (app : S) :
    (∃ handler key, chosen map bound.method = some (.webSocket handler) ∧
      Handshake crates (received server message).parts.headers key ∧
      ∃ answer : SilentResult (Response T), reply server answer = granted crates key ∧
        (((env (M := M) crates server).callHandlers map bound).run (received server message)).run ⟨app, []⟩ =
          (answer, ⟨app, [⟨handler, partsOf crates server bound (received server message)⟩]⟩)) ∨
    (∀ handler key, chosen map bound.method = some (.webSocket handler) →
      ¬ Handshake crates (received server message).parts.headers key) ∧
      ((((env (M := M) crates server).callHandlers map bound).run (received server message)).run ⟨app, []⟩).2.spawned = [] := by
  rw [mapHandled]
  cases chosen map bound.method with
  | none => exact .inr ⟨fun _ _ same => (by cases same), rfl⟩
  | some handler =>
    cases handler with
    | other call => exact .inr ⟨fun _ _ same => (by cases same), rfl⟩
    | webSocket handler =>
      rcases handshakeCases (T := T) crates (received server message).parts.headers with ⟨key, handshake, ok⟩ | ⟨none_, err, failed⟩
      · have called : (Handler.call crates server (.webSocket handler) bound (received server message)).run ⟨app, []⟩ =
            (.ok (accepted crates key), ⟨app, [⟨handler, partsOf crates server bound (received server message)⟩]⟩) := by
          rw [Handler.call, ok]
          rfl
        dsimp only
        rw [called]
        exact .inl ⟨handler, key, rfl, handshake, _, grantedReply crates server _ key _, rfl⟩
      · have called : (Handler.call crates server (.webSocket handler) bound (received server message)).run (⟨app, []⟩ : World S T) =
            (.error err, ⟨app, []⟩) := by
          rw [Handler.call, failed]
          rfl
        dsimp only
        rw [called]
        exact .inr ⟨fun _ key _ => none_ key, rfl⟩

theorem handledOpens (app : S) :
    (∃ spawned, ((handled crates server plat order buffer site message).run ⟨app, []⟩).2.spawned = [spawned] ∧
      Opened crates server plat buffer site message spawned
        (reply server ((handled crates server plat order buffer site message).run ⟨app, []⟩).1)) ∨
    ((handled crates server plat order buffer site message).run ⟨app, []⟩).2.spawned = [] ∧
      ¬ Opens crates server plat buffer site message := by
  have pass : PassThrough (env (S := S) (M := M) crates server) := fun _ _ _ => rfl
  by_cases occupied : ∃ hits ∈ (rootStops plat ⟨buffer, message.parts.uri.path⟩ site).head?, served (endOf site hits) = true
  · obtain ⟨hits, first, occupied⟩ := occupied
    have fresh : (Request.fromParts message.parts.method message.parts.uri.path : Request T.value).pathParams = ∅ := rfl
    obtain ⟨bound, method, tracked, calls⟩ := MountedHandlers.stopServes (R := Response T) plat order buffer fresh first occupied
    change bound.method = message.parts.method at method
    have out : handled crates server plat order buffer site message =
        ((env (M := M) crates server).callHandlers (endOf site hits).handler bound).run (received server message) :=
      congrArg (ReaderT.run · _) (calls _ (env crates server) pass)
    rw [out]
    rcases mapOpens (M := M) crates server message (endOf site hits).handler bound app with
      ⟨handler, key, found, handshake, answer, answers, ran⟩ | ⟨closed, idle⟩
    · rw [method] at found
      rw [ran]
      exact .inl ⟨_, rfl, ⟨key, handshake, answers⟩, hits, bound, ⟨first, found⟩, tracked, rfl⟩
    · refine .inr ⟨idle, fun opens => ?_⟩
      obtain ⟨hits', handler, key, leads, handshake⟩ := opens
      cases Option.some.inj (first.symm.trans leads.stop)
      exact closed handler key (method ▸ leads.chosen) handshake
  · have unserved : ∀ hits ∈ (rootStops plat
        ⟨buffer, (Request.fromParts message.parts.method message.parts.uri.path : Request T.value).uriPath⟩ site).head?,
        served (endOf site hits) = false := fun hits first => Bool.eq_false_iff.mpr fun held => occupied ⟨hits, first, held⟩
    have out : handled crates server plat order buffer site message =
        (RouteTree.notFoundError : Job S T (SilentResult (Response T))).run (received server message) :=
      congrArg (ReaderT.run · _) (MountedHandlers.unservedStop unserved pass)
    rw [out]
    refine .inr ⟨rfl, fun opens => ?_⟩
    obtain ⟨hits, handler, _, leads, _⟩ := opens
    exact occupied ⟨hits, leads.stop, by rw [served, chosenServed leads.chosen]; rfl⟩

end

def Accompanies (wire : Wire Io) (handler : WebSocketHandler) (calls : List (WebSocketUpgrade.Call Io)) : Progress Io → Prop
  | .spawned => calls = []
  | .waiting call => call = 0 ∧ calls = [.waiting]
  | .session io session => calls = [.upgraded io] ∧
      Run (WebSocketSession.step handler (wire.socket io)) (fun _ _ => True) (WebSocketSession.start (wire.incoming io)) session
  | .failed error => calls = [.failed error]

theorem progressAccompanies {wire : Wire Io} {handler : WebSocketHandler} {exchange : Exchange Io} {call : WebSocketUpgrade.Call Io}
    (calls : exchange.calls = [call]) (live : call ≠ .dropped) : Accompanies wire handler exchange.calls (progressOf wire exchange 0) := by
  unfold progressOf
  rw [calls]
  cases call with
  | waiting => exact ⟨rfl, rfl⟩
  | upgraded io => exact ⟨rfl, .done _⟩
  | failed error => exact rfl
  | dropped => exact absurd rfl live

theorem onCalls {exchange next : Exchange Io} {carries : Bool} (taken : WebSocketUpgrade.step exchange (.on carries) = some next) :
    ∃ call, next.calls = exchange.calls ++ [call] ∧ call ≠ .dropped := by
  simp only [WebSocketUpgrade.step, WebSocketUpgrade.on] at taken
  split at taken
  · cases taken
    exact ⟨_, rfl, by simp⟩
  split at taken
  · cases taken
  split at taken <;> cases taken <;> exact ⟨_, rfl, by simp⟩

theorem pollCalls {exchange next : Exchange Io} {call : Nat} (taken : WebSocketUpgrade.step exchange (.poll call) = some next) :
    next = exchange ∨ ∃ outcome, next.calls = exchange.calls.set call outcome ∧ outcome ≠ .dropped := by
  simp only [WebSocketUpgrade.step, WebSocketUpgrade.poll] at taken
  split at taken
  · split at taken
    · cases taken
      exact .inr ⟨_, rfl, by simp⟩
    · split at taken <;> cases taken
      · exact .inr ⟨_, rfl, by simp⟩
      · exact .inl rfl
  · cases taken

theorem servingCalls {exchange next : Exchange Io} {act : WebSocketUpgrade.Act Io} (own : serving act = true)
    (taken : WebSocketUpgrade.step exchange act = some next) :
    next.calls = exchange.calls ∧ next.receiver = exchange.receiver ∧ next.carriers = exchange.carriers := by
  cases act with
  | respond =>
    simp only [WebSocketUpgrade.step, Option.ite_none_right_eq_some, Option.some.injEq] at taken
    obtain ⟨_, rfl⟩ := taken
    exact ⟨rfl, rfl, rfl⟩
  | resolve io =>
    simp only [WebSocketUpgrade.step] at taken
    split at taken <;> cases taken
    exact ⟨rfl, rfl, rfl⟩
  | forward =>
    simp only [WebSocketUpgrade.step, WebSocketUpgrade.forward] at taken
    split at taken
    · split at taken
      · split at taken <;> cases taken <;> exact ⟨rfl, rfl, rfl⟩
      · cases taken
        exact ⟨rfl, rfl, rfl⟩
      · cases taken
    · cases taken
  | abandon =>
    simp only [WebSocketUpgrade.step, Option.ite_none_left_eq_some, Option.some.injEq] at taken
    obtain ⟨_, rfl⟩ := taken
    exact ⟨rfl, rfl, rfl⟩
  | clone | discard | on _ | poll _ | cancel _ => cases own

section
variable (crates : Crates) (server : Server T) (wire : Wire Io) (plat : Platform) (order : RouteTree.HashOrder) (site : Site S T M)

/- What is true of a connection in every state. -/
structure Sound (c : Connection T Io) : Prop where
  wired : Wired c.exchange
  fresh : c.answer = none → c.tasks = [] ∧ c.exchange = WebSocketUpgrade.called (upgradable server c.message)
  answered : ∀ answer, c.answer = some answer →
    (∃ spawned progress, c.tasks = [(spawned, progress)] ∧ Opened crates server plat c.buffer site c.message spawned answer ∧
      Accompanies wire spawned.handler c.exchange.calls progress) ∨
    c.tasks = [] ∧ ¬ Opens crates server plat c.buffer site c.message

theorem arrivedSound (message : BaseRequest T) (buffer : Nat) :
    Sound crates server wire plat site (arrived server message buffer : Connection T Io) :=
  ⟨WebSocketUpgrade.calledWired _, fun _ => ⟨rfl, rfl⟩, nofun⟩

theorem soleTask {c : Connection T Io} {task : Nat} {spawned : Spawned T} {progress : Progress Io}
    (sound : Sound crates server wire plat site c) (there : c.tasks[task]? = some (spawned, progress)) :
    task = 0 ∧ c.tasks = [(spawned, progress)] ∧
      (∃ answer, c.answer = some answer ∧ Opened crates server plat c.buffer site c.message spawned answer) ∧
      Accompanies wire spawned.handler c.exchange.calls progress := by
  obtain ⟨inside, _⟩ := List.getElem?_eq_some_iff.mp there
  cases answered : c.answer with
  | none =>
    rw [(sound.fresh answered).1] at inside
    cases inside
  | some answer =>
    rcases sound.answered answer answered with ⟨spawned', progress', only, opened, calls⟩ | ⟨none_, _⟩
    · rw [only] at there inside
      cases Nat.lt_one_iff.mp inside
      cases Option.some.inj there
      exact ⟨rfl, only, ⟨answer, rfl, opened⟩, calls⟩
    · rw [none_] at inside
      cases inside

inductive Advanced (c : Connection T Io) : Move Io → Connection T Io → Prop
  | handled (app : S) (fresh : c.answer = none) : Advanced c .handle
      {c with
        answer := some (reply server ((handled crates server plat order c.buffer site c.message).run ⟨app, []⟩).1)
        tasks := ((handled crates server plat order c.buffer site c.message).run ⟨app, []⟩).2.spawned.map (·, .spawned)}
  | served {act exchange} (answered : c.answer.isSome) (own : serving act = true)
      (moved : WebSocketUpgrade.step c.exchange act = some exchange) : Advanced c (.serve act) {c with exchange}
  | entered {spawned exchange} (tasks : c.tasks = [(spawned, .spawned)]) (calls : c.exchange.calls = [])
      (moved : WebSocketUpgrade.step c.exchange (.on (upgradable server c.message)) = some exchange) :
      Advanced c (.poll 0) {c with exchange, tasks := [(spawned, progressOf wire exchange 0)]}
  | polled {spawned exchange} (tasks : c.tasks = [(spawned, .waiting 0)]) (calls : c.exchange.calls = [.waiting])
      (moved : WebSocketUpgrade.step c.exchange (.poll 0) = some exchange) :
      Advanced c (.poll 0) {c with exchange, tasks := [(spawned, progressOf wire exchange 0)]}
  | lived {spawned io session next act} (tasks : c.tasks = [(spawned, .session io session)])
      (moved : WebSocketSession.step spawned.handler (wire.socket io) session act = some next) :
      Advanced c (.session 0 act) {c with tasks := [(spawned, .session io next)]}
  | elsewhere {act exchange} (answered : c.answer.isSome) (idle : c.tasks = [])
      (moved : WebSocketUpgrade.step c.exchange act = some exchange) : Advanced c (.elsewhere act) {c with exchange}

theorem pollCases {c c' : Connection T Io} {task : Nat} (sound : Sound crates server wire plat site c)
    (taken : pollTask server wire c task = some c') : Advanced crates server wire plat order site c (.poll task) c' := by
  obtain ⟨⟨spawned, progress⟩, there, taken⟩ := Option.bind_eq_some_iff.mp taken
  obtain ⟨rfl, only, _, calls⟩ := soleTask crates server wire plat site sound there
  cases progress with
  | spawned =>
    obtain ⟨exchange, moved, taken⟩ := Option.bind_eq_some_iff.mp taken
    cases taken
    have before : c.exchange.calls = [] := calls
    rw [before, only, List.set_cons_zero]
    exact .entered only before moved
  | waiting call =>
    obtain ⟨exchange, moved, taken⟩ := Option.bind_eq_some_iff.mp taken
    cases taken
    obtain ⟨rfl, before⟩ := calls
    rw [only, List.set_cons_zero]
    exact .polled only before moved
  | session io session => cases taken
  | failed error => cases taken

theorem sessionCases {c c' : Connection T Io} {task : Nat} {act : WebSocketSession.Act} (sound : Sound crates server wire plat site c)
    (taken : stepSession wire c task act = some c') : Advanced crates server wire plat order site c (.session task act) c' := by
  obtain ⟨⟨spawned, progress⟩, there, taken⟩ := Option.bind_eq_some_iff.mp taken
  obtain ⟨rfl, only, _, _⟩ := soleTask crates server wire plat site sound there
  cases progress with
  | session io session =>
    obtain ⟨next, moved, taken⟩ := Option.bind_eq_some_iff.mp taken
    cases taken
    rw [only, List.set_cons_zero]
    exact .lived only moved
  | spawned | waiting _ | failed _ => cases taken

theorem advanceCases {app app' : S} {c c' : Connection T Io} {move : Move Io} (sound : Sound crates server wire plat site c)
    (taken : advance crates server wire plat order site app c move = some (app', c')) :
    Advanced crates server wire plat order site c move c' := by
  cases move with
  | handle =>
    simp only [advance, Option.ite_none_left_eq_some, Option.some.injEq, Prod.mk.injEq] at taken
    obtain ⟨fresh, _, rfl⟩ := taken
    exact .handled app (by simpa using fresh)
  | serve act =>
    simp only [advance, Option.ite_none_right_eq_some, onExchange, Option.map_map, Option.map_eq_some_iff, Function.comp_apply,
      Prod.mk.injEq] at taken
    obtain ⟨⟨answered, own⟩, exchange, moved, _, rfl⟩ := taken
    exact .served answered own moved
  | poll task =>
    obtain ⟨next, moved, same⟩ := Option.map_eq_some_iff.mp taken
    cases same
    exact pollCases crates server wire plat order site sound moved
  | session task act =>
    obtain ⟨next, moved, same⟩ := Option.map_eq_some_iff.mp taken
    cases same
    exact sessionCases crates server wire plat order site sound moved
  | elsewhere act =>
    simp only [advance, Option.ite_none_right_eq_some, onExchange, Option.map_map, Option.map_eq_some_iff, Function.comp_apply,
      Prod.mk.injEq] at taken
    obtain ⟨⟨answered, idle⟩, exchange, moved, _, rfl⟩ := taken
    exact .elsewhere answered (List.isEmpty_iff.mp idle) moved

theorem movedSound {c : Connection T Io} {spawned : Spawned T} {progress next : Progress Io} {exchange : Exchange Io}
    (sound : Sound crates server wire plat site c) (only : c.tasks = [(spawned, progress)]) (wired : Wired exchange)
    (calls : Accompanies wire spawned.handler exchange.calls next) :
    Sound crates server wire plat site {c with exchange, tasks := [(spawned, next)]} := by
  obtain ⟨_, _, ⟨answer, answered, opened⟩, _⟩ := soleTask crates server wire plat site sound (show c.tasks[0]? = _ by rw [only]; rfl)
  refine ⟨wired, fun none_ => ?_, fun answer' same => .inl ⟨spawned, next, rfl, ?_, calls⟩⟩
  · cases answered.symm.trans none_
  · cases answered.symm.trans same
    exact opened

theorem exchangedSound {c : Connection T Io} {exchange : Exchange Io} (sound : Sound crates server wire plat site c)
    (handled : c.answer.isSome) (wired : Wired exchange) (same : c.tasks ≠ [] → exchange.calls = c.exchange.calls) :
    Sound crates server wire plat site {c with exchange} := by
  refine ⟨wired, fun none_ => ?_, fun answer some_ => ?_⟩
  · rw [none_] at handled
    cases handled
  · rcases sound.answered answer some_ with ⟨spawned, progress, only, opened, calls⟩ | idle
    · exact .inl ⟨spawned, progress, only, opened, same (only ▸ List.cons_ne_nil _ _) ▸ calls⟩
    · exact .inr idle

theorem handleSound {c : Connection T Io} (app : S) (sound : Sound crates server wire plat site c) (fresh : c.answer = none) :
    Sound crates server wire plat site
      {c with
        answer := some (reply server ((handled crates server plat order c.buffer site c.message).run ⟨app, []⟩).1)
        tasks := ((handled crates server plat order c.buffer site c.message).run ⟨app, []⟩).2.spawned.map (·, .spawned)} := by
  obtain ⟨_, exchange⟩ := sound.fresh fresh
  refine ⟨sound.wired, nofun, fun answer same => ?_⟩
  cases same
  rcases handledOpens crates server plat order c.buffer site c.message app with ⟨spawned, only, opened⟩ | ⟨none_, closed⟩
  · refine .inl ⟨spawned, .spawned, by rw [only]; rfl, opened, ?_⟩
    change c.exchange.calls = []
    rw [exchange]
    cases upgradable server c.message <;> rfl
  · exact .inr ⟨by rw [none_]; rfl, closed⟩

theorem advanceSound {c c' : Connection T Io} {move : Move Io} (sound : Sound crates server wire plat site c)
    (advanced : Advanced crates server wire plat order site c move c') : Sound crates server wire plat site c' := by
  cases advanced with
  | handled app fresh => exact handleSound crates server wire plat order site app sound fresh
  | served answered own moved =>
    exact exchangedSound crates server wire plat site sound answered (WebSocketUpgrade.stepWired _ _ _ sound.wired moved)
      fun _ => (servingCalls own moved).1
  | entered tasks calls moved =>
    obtain ⟨call, added, live⟩ := onCalls moved
    rw [calls] at added
    exact movedSound crates server wire plat site sound tasks (WebSocketUpgrade.stepWired _ _ _ sound.wired moved)
      (progressAccompanies added live)
  | polled tasks calls moved =>
    refine movedSound crates server wire plat site sound tasks (WebSocketUpgrade.stepWired _ _ _ sound.wired moved) ?_
    rcases pollCalls moved with rfl | ⟨outcome, set, live⟩
    · exact progressAccompanies calls nofun
    · rw [calls] at set
      exact progressAccompanies set live
  | lived tasks moved =>
    obtain ⟨_, _, _, calls⟩ := soleTask crates server wire plat site sound (show c.tasks[0]? = _ by rw [tasks]; rfl)
    exact movedSound crates server wire plat site sound tasks sound.wired ⟨calls.1, runSnoc calls.2 trivial moved⟩
  | elsewhere answered idle moved =>
    exact exchangedSound crates server wire plat site sound answered (WebSocketUpgrade.stepWired _ _ _ sound.wired moved)
      fun busy => absurd idle busy

theorem stepAt {s t : Running S T Io} {e : Event T Io} (taken : step crates server wire plat order site s e = some t) {i : Nat}
    {c' : Connection T Io} (there : t.connections[i]? = some c') :
    s.connections[i]? = some c' ∨ (∃ message buffer, c' = arrived server message buffer) ∨
      ∃ c move app, s.connections[i]? = some c ∧ e = .on i move ∧
        advance crates server wire plat order site s.app c move = some (app, c') := by
  cases e with
  | arrive message buffer =>
    cases taken
    rw [List.getElem?_append] at there
    split at there
    · exact .inl there
    · obtain ⟨_, same⟩ := List.getElem?_eq_some_iff.mp there
      exact .inr (.inl ⟨message, buffer, by rw [← same, List.getElem_singleton]⟩)
  | on j move =>
    obtain ⟨c, held, taken⟩ := Option.bind_eq_some_iff.mp taken
    obtain ⟨⟨app, next⟩, moved, same⟩ := Option.bind_eq_some_iff.mp taken
    cases same
    rw [List.getElem?_set] at there
    split at there
    · rename_i here
      subst here
      split at there
      · cases there
        exact .inr (.inr ⟨c, move, app, held, rfl, moved⟩)
      · cases there
    · exact .inl there

theorem runSound {app : S} {s : Running S T Io}
    (run : Run (step crates server wire plat order site) (fun _ _ => True) (started app) s) {i : Nat} {c : Connection T Io}
    (there : s.connections[i]? = some c) : Sound crates server wire plat site c := by
  refine runInvariant (P := fun s : Running S T Io => ∀ (i : Nat) c, s.connections[i]? = some c →
    Sound crates server wire plat site c) (fun s e t _ sound taken i c there => ?_) run (fun i c there => ?_) i c there
  · rcases stepAt crates server wire plat order site taken there with before | ⟨message, buffer, rfl⟩ | ⟨c, move, app, before, _, moved⟩
    · exact sound i c before
    · exact arrivedSound crates server wire plat site message buffer
    · exact advanceSound crates server wire plat order site (sound i c before)
        (advanceCases crates server wire plat order site (sound i c before) moved)
  · cases there

structure Served (c : Connection T Io) : Prop where
  opens : c.answer.isSome → (c.tasks ≠ [] ↔ Opens crates server plat c.buffer site c.message)
  single : c.tasks.length ≤ 1
  opened : ∀ task ∈ c.tasks, ∃ answer, c.answer = some answer ∧ Opened crates server plat c.buffer site c.message task.1 answer
  session : ∀ spawned io session, (spawned, .session io session) ∈ c.tasks → c.exchange.given = some io ∧
    Run (WebSocketSession.step spawned.handler (wire.socket io)) (fun _ _ => True) (WebSocketSession.start (wire.incoming io)) session

theorem openedOpens {buffer : Nat} {message : BaseRequest T} {spawned : Spawned T} {answer : HttpResponse T}
    (opened : Opened crates server plat buffer site message spawned answer) : Opens crates server plat buffer site message := by
  obtain ⟨key, handshake, _⟩ := opened.answer
  obtain ⟨hits, _, leads, _⟩ := opened.parts
  exact ⟨hits, spawned.handler, key, leads, handshake⟩

theorem givenConnected {exchange : Exchange Io} {io : Io} (wired : Wired exchange) (calls : exchange.calls = [.upgraded io]) :
    exchange.given = some io := by
  have among : io ∈ exchange.given.toList := wired.whole.mem_iff.mp
    (by simp [WebSocketUpgrade.places, WebSocketUpgrade.connected, calls, WebSocketUpgrade.Call.io])
  exact Option.mem_toList.mp among

/- In every run a request has a task when it asks for a WebSocket where the router leads it to
one, and no more than one; it was then answered 101 with the accept of its key, the task works
on its parameters and headers, and a session runs on the connection that its own request became. -/
theorem sessionsBelong {app : S} {s : Running S T Io}
    (run : Run (step crates server wire plat order site) (fun _ _ => True) (started app) s) {i : Nat} {c : Connection T Io}
    (there : s.connections[i]? = some c) : Served crates server wire plat site c := by
  have sound := runSound crates server wire plat order site run there
  constructor
  · intro answered
    obtain ⟨answer, some_⟩ := Option.isSome_iff_exists.mp answered
    rcases sound.answered answer some_ with ⟨spawned, progress, only, opened, _⟩ | ⟨idle, closed⟩
    · rw [only]
      exact ⟨fun _ => openedOpens crates server plat site opened, fun _ => List.cons_ne_nil _ _⟩
    · exact ⟨fun busy => absurd idle busy, fun opens => absurd opens closed⟩
  · cases answered : c.answer with
    | none =>
      rw [(sound.fresh answered).1]
      exact Nat.zero_le 1
    | some answer =>
      rcases sound.answered answer answered with ⟨spawned, progress, only, _⟩ | ⟨idle, _⟩
      · rw [only]
        exact Nat.le_refl 1
      · rw [idle]
        exact Nat.zero_le 1
  · intro task inside
    obtain ⟨k, held⟩ := List.getElem?_of_mem inside
    exact (soleTask crates server wire plat site sound held).2.2.1
  · intro spawned io session inside
    obtain ⟨k, held⟩ := List.getElem?_of_mem inside
    obtain ⟨_, _, _, calls, ran⟩ := soleTask crates server wire plat site sound held
    exact ⟨givenConnected sound.wired calls, ran⟩

end

structure Held (carries : Bool) (exchange : Exchange Io) (progress : Progress Io) : Prop where
  kept : WebSocketUpgrade.Kept exchange
  carried : progress = .spawned → carries = true → exchange.receiver = .shared ∧ 0 < exchange.carriers
  bare : carries = false → exchange.sender = .gone ∧ exchange.given = none
  failed : ∀ error, progress = .failed error → exchange.sender = .gone ∧ exchange.channel = none

theorem calledHeld (carries : Bool) : Held carries (WebSocketUpgrade.called carries : Exchange Io) .spawned := by
  cases carries
  · exact ⟨⟨rfl, fun _ => rfl⟩, fun _ same => (by cases same), fun _ => ⟨rfl, rfl⟩, nofun⟩
  · exact ⟨⟨rfl, fun gone => (by cases gone)⟩, fun _ _ => ⟨rfl, Nat.one_pos⟩, fun same => (by cases same), nofun⟩

theorem progressMoved (wire : Wire Io) (exchange : Exchange Io) (call : Nat) : progressOf wire exchange call ≠ .spawned := by
  unfold progressOf
  split <;> nofun

theorem onHeld (wire : Wire Io) {carries : Bool} {exchange next : Exchange Io} (wired : Wired exchange)
    (held : Held carries exchange .spawned) (calls : exchange.calls = [])
    (taken : WebSocketUpgrade.step exchange (.on carries) = some next) : Held carries next (progressOf wire next 0) ∧
      next.given = exchange.given := by
  have kept := WebSocketUpgrade.stepKept _ _ _ wired rfl held.kept taken
  cases carries with
  | false =>
    simp only [WebSocketUpgrade.step, WebSocketUpgrade.on] at taken
    cases taken
    have whole := wired.whole
    rw [(held.bare rfl).2, Option.toList_none, List.perm_nil] at whole
    simp only [WebSocketUpgrade.places, List.append_eq_nil_iff, Option.toList_eq_nil_iff] at whole
    exact ⟨⟨kept, fun _ same => (by cases same), held.bare, fun _ _ => ⟨(held.bare rfl).1, whole.1.1.2⟩⟩, rfl⟩
  | true =>
    obtain ⟨shared, some_⟩ := held.carried rfl rfl
    simp only [WebSocketUpgrade.step, WebSocketUpgrade.on, shared, Nat.ne_of_gt some_] at taken
    cases taken
    refine ⟨⟨kept, fun same => absurd same (progressMoved _ _ _), fun same => (by cases same), fun error same => ?_⟩, rfl⟩
    simp [progressOf, calls] at same

theorem pollHeld (wire : Wire Io) {carries : Bool} {exchange next : Exchange Io} (wired : Wired exchange)
    (held : Held carries exchange (.waiting 0)) (calls : exchange.calls = [.waiting])
    (taken : WebSocketUpgrade.step exchange (.poll 0) = some next) : Held carries next (progressOf wire next 0) ∧
      next.given = exchange.given := by
  have kept := WebSocketUpgrade.stepKept _ _ _ wired rfl held.kept taken
  simp only [WebSocketUpgrade.step, WebSocketUpgrade.poll] at taken
  split at taken
  · split at taken
    · cases taken
      refine ⟨⟨kept, fun same => absurd same (progressMoved _ _ _), held.bare, fun error same => ?_⟩, rfl⟩
      simp [progressOf, WebSocketUpgrade.finish, calls] at same
    · split at taken
      · rename_i gone
        cases taken
        exact ⟨⟨kept, fun same => absurd same (progressMoved _ _ _), held.bare, fun _ _ => ⟨gone, rfl⟩⟩, rfl⟩
      · cases taken
        refine ⟨⟨kept, fun same => absurd same (progressMoved _ _ _), held.bare, fun error same => ?_⟩, rfl⟩
        simp [progressOf, calls] at same
  · cases taken

theorem goneIdle {exchange : Exchange Io} (wired : Wired exchange) (gone : exchange.sender = .gone) {act : WebSocketUpgrade.Act Io}
    (own : serving act = true) : WebSocketUpgrade.step exchange act = none := by
  cases act with
  | respond => simp [WebSocketUpgrade.step, gone]
  | resolve io => simp [WebSocketUpgrade.step, wired.sender.mp gone]
  | forward => simp [WebSocketUpgrade.step, WebSocketUpgrade.forward, gone]
  | abandon => simp [WebSocketUpgrade.step, gone]
  | clone | discard | on _ | poll _ | cancel _ => cases own

theorem serveHeld {carries : Bool} {exchange next : Exchange Io} {progress : Progress Io} (wired : Wired exchange)
    (held : Held carries exchange progress) {act : WebSocketUpgrade.Act Io} (own : serving act = true) (stays : act ≠ .abandon)
    (taken : WebSocketUpgrade.step exchange act = some next) : Held carries next progress := by
  have busy (gone : exchange.sender = .gone) : False := by
    rw [goneIdle wired gone own] at taken
    cases taken
  have fine : WebSocketUpgrade.keeps exchange act = true := by
    cases act with
    | respond | resolve _ | forward => rfl
    | abandon => exact absurd rfl stays
    | clone | discard | on _ | poll _ | cancel _ => cases own
  obtain ⟨_, receiver, carriers⟩ := servingCalls own taken
  refine ⟨WebSocketUpgrade.stepKept _ _ _ wired fine held.kept taken, fun fresh carried => ?_, fun bare => ?_, fun error same => ?_⟩
  · rw [receiver, carriers]
    exact held.carried fresh carried
  · exact (busy (held.bare bare).1).elim
  · exact (busy (held.failed error same).1).elim

section
variable (crates : Crates) (server : Server T) (wire : Wire Io) (plat : Platform) (order : RouteTree.HashOrder) (site : Site S T M)

structure Safe (c : Connection T Io) : Prop where
  sound : Sound crates server wire plat site c
  held : ∀ task ∈ c.tasks, Held (upgradable server c.message) c.exchange task.2

theorem advanceSafe {c c' : Connection T Io} {move : Move Io} (safe : Safe crates server wire plat site c)
    (stays : move ≠ .serve .abandon) (advanced : Advanced crates server wire plat order site c move c') :
    Safe crates server wire plat site c' := by
  refine ⟨advanceSound crates server wire plat order site safe.sound advanced, fun task inside => ?_⟩
  cases advanced with
  | handled app fresh =>
    obtain ⟨spawned, _, rfl⟩ := List.mem_map.mp inside
    change Held (upgradable server c.message) c.exchange .spawned
    rw [(safe.sound.fresh fresh).2]
    exact calledHeld _
  | served answered own moved =>
    exact serveHeld safe.sound.wired (safe.held task inside) own (fun same => stays (by rw [same])) moved
  | entered tasks calls moved =>
    cases List.mem_singleton.mp inside
    exact (onHeld wire safe.sound.wired (safe.held _ (tasks ▸ List.mem_singleton_self _)) calls moved).1
  | polled tasks calls moved =>
    cases List.mem_singleton.mp inside
    exact (pollHeld wire safe.sound.wired (safe.held _ (tasks ▸ List.mem_singleton_self _)) calls moved).1
  | @lived spawned io session next act tasks moved =>
    cases List.mem_singleton.mp inside
    have before := safe.held _ (tasks ▸ List.mem_singleton_self _)
    exact ⟨before.kept, nofun, before.bare, nofun⟩
  | elsewhere answered idle moved => exact absurd (idle ▸ inside) List.not_mem_nil

theorem arrivedSafe (message : BaseRequest T) (buffer : Nat) :
    Safe crates server wire plat site (arrived server message buffer : Connection T Io) :=
  ⟨arrivedSound crates server wire plat site message buffer, fun _ inside => absurd inside List.not_mem_nil⟩

theorem runSafe {app : S} {s : Running S T Io} {i : Nat}
    (run : Run (step crates server wire plat order site) (fun _ e => e ≠ .on i (.serve .abandon)) (started app) s)
    {c : Connection T Io} (there : s.connections[i]? = some c) : Safe crates server wire plat site c := by
  refine runInvariant (P := fun s : Running S T Io => ∀ c, s.connections[i]? = some c → Safe crates server wire plat site c)
    (fun s e t stays safe taken c there => ?_) run (fun c there => ?_) c there
  · rcases stepAt crates server wire plat order site taken there with before | ⟨message, buffer, rfl⟩ | ⟨c, move, app, before, rfl, moved⟩
    · exact safe c before
    · exact arrivedSafe crates server wire plat site message buffer
    · exact advanceSafe crates server wire plat order site (safe c before) (fun same => stays (by rw [same]))
        (advanceCases crates server wire plat order site (safe c before).sound moved)
  · cases there

end

theorem keptPlaced {exchange : Exchange Io} {io : Io} (wired : Wired exchange) (kept : WebSocketUpgrade.Kept exchange)
    (given : exchange.given = some io) :
    exchange.onUpgrade.io ++ exchange.channel.toList ++ WebSocketUpgrade.connected exchange = [io] := by
  have whole := wired.whole
  rw [WebSocketUpgrade.places, kept.none, List.append_nil, given] at whole
  exact WebSocketUpgrade.givenAlone whole

def senderRank : WebSocketUpgrade.Sender → Nat
  | .service => 2
  | .task => 1
  | .gone => 0

def progressRank : Progress Io → Nat
  | .spawned => 2
  | .waiting _ => 1
  | .session _ _ | .failed _ => 0

def rank (c : Connection T Io) : Nat :=
  senderRank c.exchange.sender + c.tasks.foldr (fun task total => progressRank task.2 + total) 0

inductive Onward : Move Io → Prop
  | respond : Onward (.serve .respond)
  | forward : Onward (.serve .forward)
  | poll : Onward (.poll 0)

theorem onwardGiven {exchange next : Exchange Io} {act : WebSocketUpgrade.Act Io} (onward : Onward (.serve act))
    (taken : WebSocketUpgrade.step exchange act = some next) : next.given = exchange.given := by
  cases onward with
  | respond =>
    simp only [WebSocketUpgrade.step, Option.ite_none_right_eq_some, Option.some.injEq] at taken
    obtain ⟨_, rfl⟩ := taken
    rfl
  | forward =>
    simp only [WebSocketUpgrade.step, WebSocketUpgrade.forward] at taken
    split at taken
    · split at taken
      · split at taken <;> cases taken <;> rfl
      · cases taken
        rfl
      · cases taken
    · cases taken

section
variable {crates : Crates} {server : Server T} {wire : Wire Io} {plat : Platform} {order : RouteTree.HashOrder} {site : Site S T M}

theorem senderMoves {c : Connection T Io} {io : Io} (safe : Safe crates server wire plat site c) (busy : c.tasks ≠ [])
    (given : c.exchange.given = some io) (holds : c.exchange.sender ≠ .gone) : ∃ act exchange, (act = .respond ∨ act = .forward) ∧
      WebSocketUpgrade.step c.exchange act = some exchange ∧ senderRank exchange.sender < senderRank c.exchange.sender := by
  obtain ⟨task, inside⟩ := List.exists_mem_of_ne_nil _ busy
  have held := safe.held task inside
  cases sender : c.exchange.sender with
  | gone => exact absurd sender holds
  | service => exact ⟨.respond, {c.exchange with sender := .task}, .inl rfl, by simp [WebSocketUpgrade.step, sender], Nat.lt_succ_self 1⟩
  | task =>
    obtain ⟨empty, nobody⟩ := safe.sound.wired.unsent holds
    have placed := keptPlaced safe.sound.wired held.kept given
    rw [empty, nobody, Option.toList_none, List.append_nil, List.append_nil] at placed
    have resolved : c.exchange.onUpgrade = .resolved (some io) := by
      cases upgrade : c.exchange.onUpgrade with
      | pending | gone => simp [upgrade, WebSocketUpgrade.OnUpgrade.io] at placed
      | resolved given => simpa [upgrade, WebSocketUpgrade.OnUpgrade.io, Option.toList_eq_singleton_iff] using placed
    have there : c.exchange.receiver ≠ .gone := fun gone => holds (held.kept.receiver gone)
    exact ⟨.forward, {c.exchange with sender := .gone, onUpgrade := .gone, channel := some io}, .inr rfl,
      by simp [WebSocketUpgrade.step, WebSocketUpgrade.forward, sender, resolved, there], Nat.one_pos⟩

theorem taskMoves {c : Connection T Io} {io : Io} {spawned : Spawned T} {progress : Progress Io}
    (safe : Safe crates server wire plat site c) (only : c.tasks = [(spawned, progress)]) (given : c.exchange.given = some io)
    (gone : c.exchange.sender = .gone) : (∃ session, progress = .session io session) ∨
      ∃ c', pollTask server wire c 0 = some c' ∧ rank c' < rank c := by
  have held := safe.held _ (only ▸ List.mem_singleton_self _)
  obtain ⟨_, _, _, calls⟩ := soleTask crates server wire plat site safe.sound (show c.tasks[0]? = _ by rw [only]; rfl)
  have placed := keptPlaced safe.sound.wired held.kept given
  rw [safe.sound.wired.sender.mp gone] at placed
  change c.exchange.channel.toList ++ WebSocketUpgrade.connected c.exchange = [io] at placed
  cases progress with
  | session io' session =>
    have same : c.exchange.given = some io' := givenConnected safe.sound.wired calls.1
    cases given.symm.trans same
    exact .inl ⟨session, rfl⟩
  | failed error =>
    have single : c.exchange.calls = [.failed error] := calls
    simp [(held.failed error rfl).2, WebSocketUpgrade.connected, single, WebSocketUpgrade.Call.io] at placed
  | spawned =>
    have before : c.exchange.calls = [] := calls
    have carries : upgradable server c.message = true := by
      by_contra bare
      rw [(held.bare (Bool.eq_false_iff.mpr bare)).2] at given
      cases given
    obtain ⟨shared, some_⟩ := held.carried rfl carries
    refine .inr ⟨_, by simp only [pollTask, only, carries, WebSocketUpgrade.step, WebSocketUpgrade.on, shared, Nat.ne_of_gt some_]; rfl, ?_⟩
    simp [rank, progressOf, only, before, gone, senderRank, progressRank]
  | waiting call =>
    obtain ⟨rfl, single⟩ := calls
    have taken : c.exchange.receiver = .taken 0 := (safe.sound.wired.waiting 0).mp (by rw [single]; rfl)
    have sent : c.exchange.channel = some io := by
      cases channel : c.exchange.channel with
      | none => simp [channel, WebSocketUpgrade.connected, single, WebSocketUpgrade.Call.io] at placed
      | some other => simpa [channel, WebSocketUpgrade.connected, single, WebSocketUpgrade.Call.io] using placed
    refine .inr ⟨_, by simp only [pollTask, only, WebSocketUpgrade.step, WebSocketUpgrade.poll, taken, sent]; rfl, ?_⟩
    simp [rank, progressOf, only, single, gone, senderRank, progressRank, WebSocketUpgrade.finish]

end

section
variable (crates : Crates) (server : Server T) (wire : Wire Io) (plat : Platform) (order : RouteTree.HashOrder) (site : Site S T M)

structure Pending (message : BaseRequest T) (io : Io) (c : Connection T Io) : Prop where
  safe : Safe crates server wire plat site c
  answered : c.answer.isSome
  busy : c.tasks ≠ []
  given : c.exchange.given = some io
  message : c.message = message

theorem advancePending {message : BaseRequest T} {io : Io} {c c' : Connection T Io} {move : Move Io}
    (pending : Pending crates server wire plat site message io c) (onward : Onward move)
    (advanced : Advanced crates server wire plat order site c move c') : Pending crates server wire plat site message io c' := by
  have stays : move ≠ .serve .abandon := by cases onward <;> nofun
  have safe := advanceSafe crates server wire plat order site pending.safe stays advanced
  cases advanced with
  | handled app fresh => cases onward
  | served answered own moved =>
    exact ⟨safe, answered, pending.busy, (onwardGiven onward moved).trans pending.given, pending.message⟩
  | entered tasks calls moved =>
    have held := pending.safe.held _ (tasks ▸ List.mem_singleton_self _)
    have given := (onHeld wire pending.safe.sound.wired held calls moved).2
    exact ⟨safe, pending.answered, List.cons_ne_nil _ _, given.trans pending.given, pending.message⟩
  | polled tasks calls moved =>
    have held := pending.safe.held _ (tasks ▸ List.mem_singleton_self _)
    have given := (pollHeld wire pending.safe.sound.wired held calls moved).2
    exact ⟨safe, pending.answered, List.cons_ne_nil _ _, given.trans pending.given, pending.message⟩
  | lived tasks moved => cases onward
  | elsewhere answered idle moved => cases onward

theorem pendingMoves {message : BaseRequest T} {io : Io} {c : Connection T Io}
    (pending : Pending crates server wire plat site message io c) (app : S) :
    (∃ spawned session, c.tasks = [(spawned, .session io session)]) ∨ ∃ move c', Onward move ∧
      advance crates server wire plat order site app c move = some (app, c') ∧ rank c' < rank c := by
  obtain ⟨answer, answered⟩ := Option.isSome_iff_exists.mp pending.answered
  rcases pending.safe.sound.answered answer answered with ⟨spawned, progress, only, _⟩ | ⟨idle, _⟩
  · by_cases gone : c.exchange.sender = .gone
    · rcases taskMoves pending.safe only pending.given gone with ⟨session, rfl⟩ | ⟨c', moved, less⟩
      · exact .inl ⟨spawned, session, only⟩
      · exact .inr ⟨.poll 0, c', .poll, by rw [advance, moved]; rfl, less⟩
    · obtain ⟨act, exchange, among, moved, less⟩ := senderMoves pending.safe pending.busy pending.given gone
      refine .inr ⟨.serve act, {c with exchange}, ?_, ?_, Nat.add_lt_add_right less _⟩
      · rcases among with rfl | rfl
        · exact .respond
        · exact .forward
      · have own : serving act = true := by rcases among with rfl | rfl <;> rfl
        rw [advance, if_pos ⟨pending.answered, own⟩, onExchange, moved]
        rfl
  · exact absurd idle pending.busy

/- A request that was accepted gets its session: once hyper has given its connection, and unless
the connection is abandoned, what is left to do leads to the session on it. -/
theorem acceptedServed {app : S} {s : Running S T Io} {i : Nat}
    (run : Run (step crates server wire plat order site) (fun _ e => e ≠ .on i (.serve .abandon)) (started app) s)
    {c : Connection T Io} (there : s.connections[i]? = some c) (answered : c.answer.isSome)
    (opens : Opens crates server plat c.buffer site c.message) {io : Io} (given : c.exchange.given = some io) :
    ∃ t c' spawned session, Run (step crates server wire plat order site) (fun _ e => ∃ move, e = .on i move ∧ Onward move) s t ∧
      t.connections[i]? = some c' ∧ c'.message = c.message ∧ c'.tasks = [(spawned, .session io session)] := by
  have safe := runSafe crates server wire plat order site run there
  have busy : c.tasks ≠ [] := by
    obtain ⟨answer, some_⟩ := Option.isSome_iff_exists.mp answered
    rcases safe.sound.answered answer some_ with ⟨spawned, progress, only, _⟩ | ⟨_, closed⟩
    · exact only ▸ List.cons_ne_nil _ _
    · exact absurd opens closed
  have finishes : ∃ t, Run (step crates server wire plat order site) (fun _ e => ∃ move, e = .on i move ∧ Onward move) s t ∧
      ∃ c', t.connections[i]? = some c' ∧ c'.message = c.message ∧ ∃ spawned session, c'.tasks = [(spawned, .session io session)] := by
    refine runFinishes (P := fun s => ∃ c', s.connections[i]? = some c' ∧ Pending crates server wire plat site c.message io c')
      (fun s => ((s.connections[i]?).map rank).getD 0) (fun s e t fine pending taken => ?_) (fun s pending unfinished => ?_)
      ⟨c, there, safe, answered, busy, given, rfl⟩
    · obtain ⟨move, rfl, onward⟩ := fine
      obtain ⟨c', here, pending⟩ := pending
      obtain ⟨_, same, taken⟩ := Option.bind_eq_some_iff.mp taken
      obtain ⟨⟨app, next⟩, moved, same'⟩ := Option.bind_eq_some_iff.mp taken
      cases here.symm.trans same
      cases same'
      obtain ⟨inside, _⟩ := List.getElem?_eq_some_iff.mp here
      exact ⟨next, List.getElem?_set_self inside, advancePending crates server wire plat order site pending onward
        (advanceCases crates server wire plat order site pending.safe.sound moved)⟩
    · obtain ⟨c', here, pending⟩ := pending
      rcases pendingMoves crates server wire plat order site pending s.app with ⟨spawned, session, only⟩ | ⟨move, next, onward, moved, less⟩
      · exact absurd ⟨c', here, pending.message, spawned, session, only⟩ unfinished
      · obtain ⟨inside, _⟩ := List.getElem?_eq_some_iff.mp here
        refine ⟨.on i move, ⟨s.app, s.connections.set i next⟩, ⟨move, rfl, onward⟩, ?_, ?_⟩
        · simp only [step, here, Option.bind_eq_bind, Option.bind_some, moved]
        · rw [List.getElem?_set_self inside, here]
          exact less
  obtain ⟨t, later, c', here, message, spawned, session, only⟩ := finishes
  exact ⟨t, c', spawned, session, later, here, message, only⟩

end

def chatHandler : WebSocketHandler := ⟨none, none, none, some ()⟩

def chat : Site Unit TowerCompat.plainPayload Unit :=
  (Route.single "chat".toList "chat".toList).insertHandler .get (.webSocket chatHandler)

theorem chatMounted : ws (Route.new "chat".toList) chatHandler = some chat := by
  rw [Route.new, ws, Route.onMethod, Route.updateHandler]
  rfl

def chatCrates : Crates := ⟨List.head?, id, fun _ => ∅⟩

def chatWire : Wire Nat := ⟨fun _ => [], fun _ _ => .ok ()⟩

def chatRequest : BaseRequest TowerCompat.plainPayload :=
  ⟨⟨.get, ⟨none, none, "/chat".toList, none⟩, .http11, [(upgrade, "WebSocket".toList), (secWebsocketKey, "key".toList)],
    ⟨⟨none, none, (∅ : HashMap TypeId Unit).insert 0 ()⟩, none⟩⟩, ()⟩

theorem chatOpens (plat : Platform) : Opens chatCrates GrpcMounts.plainServer plat 0 chat chatRequest := by
  have line : RouteTable.Line ["chat".toList] ((∅ : HashMap Method _).insert .get (.webSocket chatHandler)) chat :=
    .leaf (by decide) rfl rfl rfl rfl
  have written : RouteRegistration.WrittenPath plat ["chat".toList] (⟨0, "/chat".toList⟩ : Slice).text :=
    .inr ⟨"chat".toList, rfl, .last ⟨by decide, by decide, rfl⟩⟩
  obtain ⟨hits, first, ends⟩ := RouteRegistration.lineRootStop ⟨0, "/chat".toList⟩ line written
  refine ⟨hits, chatHandler, "key".toList, ⟨first, ?_⟩, ⟨"WebSocket".toList, rfl, by decide, by decide⟩, rfl⟩
  rw [ends]
  rfl

abbrev chatStep (plat : Platform) (order : RouteTree.HashOrder) := step chatCrates GrpcMounts.plainServer chatWire plat order chat

def accepting : List (Event TowerCompat.plainPayload Nat) := [.arrive chatRequest 0, .on 0 .handle]

theorem sessionsBelongChat : ws (Route.new "chat".toList) chatHandler = some chat ∧
    ∀ plat order, ∃ s c, exec (chatStep plat order) (started ()) accepting = some s ∧ s.connections[0]? = some c ∧ c.tasks ≠ [] := by
  refine ⟨chatMounted, fun plat order => ?_⟩
  obtain ⟨s, c, ran, there, answered, message, buffer⟩ : ∃ s c, exec (chatStep plat order) (started ()) accepting = some s ∧
      s.connections[0]? = some c ∧ c.answer.isSome ∧ c.message = chatRequest ∧ c.buffer = 0 := ⟨_, _, rfl, rfl, rfl, rfl, rfl⟩
  have served := sessionsBelong chatCrates GrpcMounts.plainServer chatWire plat order chat (execRun accepting ran) there
  have opens := served.opens answered
  rw [message, buffer] at opens
  exact ⟨s, c, ran, there, opens.mpr (chatOpens plat)⟩

def upgrading : List (Event TowerCompat.plainPayload Nat) :=
  accepting ++ [.on 0 (.serve .respond), .on 0 (.serve (.resolve (some 7)))]

theorem acceptedServedChat : ws (Route.new "chat".toList) chatHandler = some chat ∧
    ∀ plat order, ∃ s t c spawned session, exec (chatStep plat order) (started ()) upgrading = some s ∧
      Run (chatStep plat order) (fun _ e => ∃ move, e = .on 0 move ∧ Onward move) s t ∧ t.connections[0]? = some c ∧
      c.tasks = [(spawned, .session 7 session)] := by
  refine ⟨chatMounted, fun plat order => ?_⟩
  obtain ⟨s, c, ran, there, answered, message, buffer, given⟩ : ∃ s c, exec (chatStep plat order) (started ()) upgrading = some s ∧
      s.connections[0]? = some c ∧ c.answer.isSome ∧ c.message = chatRequest ∧ c.buffer = 0 ∧ c.exchange.given = some 7 :=
    ⟨_, _, rfl, rfl, rfl, rfl, rfl, rfl⟩
  have along : Along (chatStep plat order) (fun _ e => e ≠ .on 0 (.serve .abandon)) (started ()) upgrading :=
    ⟨nofun, fun _ _ => ⟨nofun, fun _ _ => ⟨nofun, fun _ _ => ⟨nofun, fun _ _ => trivial⟩⟩⟩⟩
  obtain ⟨t, c', spawned, session, onward, here, _, only⟩ := acceptedServed chatCrates GrpcMounts.plainServer chatWire plat order chat
    (alongRun upgrading ran along) there answered (by rw [message, buffer]; exact chatOpens plat) given
  exact ⟨s, t, c', spawned, session, ran, onward, here, only⟩

end Silent.WebSocketMounts
