import Silent.RouteShape
import Silent.Dispatch
import Silent.Sessions
import Silent.StepSystem

/-! A route served connection by connection. `ConnectionService for Route` builds the
route tree, and with it the default session store, anew for each connection;
`RouteConnectionService` builds both once. A run is any order of new connections and
requests on them. -/
namespace Silent.RouteConnection
open ByteText PathSegment HttpRequest RouteBuilder RouteShape Dispatch Cookies StepSystem
open Sessions (SessionStore SessionMiddleware.handle CookieMiddleware.handle)

abbrev Data := HashMap Text Text

-- `cell` is where the data shared by all copies of a session lives.
structure Session where
  id : Text
  cell : Nat
  cookieValue : Option Text

def Session.clone (self : Session) : Session := {self with cookieValue := none}

abbrev MemoryStore := HashMap Text Session

structure Kinds where
  user : Type
  value : Type
  extension : Type
  body : Type
  reply : Type

structure Shared (T : Kinds) where
  heap : List Data
  user : T.user

structure World (T : Kinds) where
  stores : List MemoryStore
  drawn : Nat
  shared : Shared T

def World.store {T : Kinds} (w : World T) (slot : Nat) : MemoryStore := w.stores.getD slot ∅

structure CookieSource where
  draws : Nat → Text
  ids : Nat → Text
  idOf : Text → Except Text Text
  decodes : ∀ i, idOf (draws i) = .ok (ids i)
  distinct : ∀ i j, ids i = ids j → i = j

section
variable {T : Kinds}

def memoryStore (source : CookieSource) (slot : Nat) : SessionStore (StateM (World T)) Session where
  newSession w := (⟨source.ids w.drawn, w.shared.heap.length, some (source.draws w.drawn)⟩,
    {w with drawn := w.drawn + 1, shared := {w.shared with heap := w.shared.heap ++ [∅]}})
  storeSession session w := (.ok session.cookieValue,
    {w with stores := w.stores.modify slot (·.insert session.id session.clone)})
  loadSession key w :=
    match source.idOf key with
    | .error message => (.error (.anyhowError message), w)
    | .ok id => (.ok ((w.store slot).lookup id), w)

def onShared {A : Type} (x : StateM (Shared T) A) : StateM (World T) A := fun w =>
  ((x.run w.shared).1, {w with shared := (x.run w.shared).2})

def ownStore (store : SessionStore (StateM (Shared T)) Session) : SessionStore (StateM (World T)) Session where
  newSession := onShared store.newSession
  storeSession session := onShared (store.storeSession session)
  loadSession key := onShared (store.loadSession key)

end

abbrev Target (T : Kinds) := HttpRequest.Request T.value

abbrev Carried (T : Kinds) := Sessions.Request Session T.extension T.body

abbrev Reply (T : Kinds) := Sessions.Response Session T.extension T.reply

abbrev Answer (T : Kinds) := SilentResult (Reply T)

abbrev Handler (T : Kinds) := Target T → Carried T → StateM (Shared T) (Answer T)

/- The code of a middleware: it may use the shared state and call what comes after it, any
number of times. -/
inductive Script (U Q R : Type) where
  | done (result : R)
  | access (update : U → U) (resume : U → Script U Q R)
  | forward (req : Q) (resume : R → Script U Q R)

def Script.run {T : Kinds} {Q R : Type} (next : Q → StateM (World T) R) : Script (Shared T) Q R → StateM (World T) R
  | .done result => pure result
  | .access update resume => do
      let seen ← onShared (fun s => (s, update s))
      (resume seen).run next
  | .forward req resume => do
      let result ← next req
      (resume result).run next

inductive Own (T : Kinds) where
  | middleware (code : Target T × Carried T → Script (Shared T) (Target T × Carried T) (Answer T))
  | session (store : SessionStore (StateM (Shared T)) Session)

inductive Hook (T : Kinds) where
  | own (hook : Own T)
  | memorySession (slot : Nat)
  | cookie
  | scheduler

abbrev AppRoute (T : Kinds) := Route (Handler T) (Hook T) T.value

abbrev Tree (T : Kinds) := RouteTree (Handler T) (Hook T) T.value

def OwnHooks {T : Kinds} (r : AppRoute T) : Prop := ∀ hook ∈ r.middlewares, ∃ own, hook = .own own

structure App (T : Kinds) where
  route : AppRoute T
  own : Throughout OwnHooks route

/- `parse` and `encode` are the cookie crate's, `schedule` puts the scheduler into the
extensions, `fill` and `clearBody` are those of `handlerMapCall`, and `ofError` is
`From<SilentError> for Response`. -/
structure Outside (T : Kinds) where
  source : CookieSource
  parse : Text → Option Cookie
  encode : Cookie → Option Text
  schedule : T.extension → T.extension
  fill : State T.value → Reply T → Reply T
  clearBody : Reply T → Reply T
  ofError : SilentError → Reply T
  panicked : Answer T

-- The router passes the rest of the request on without looking at it.
abbrev Job (T : Kinds) := ReaderT (Carried T) (StateM (World T))

section
variable {T : Kinds} (outside : Outside T)

def insertScheduler (carried : Carried T) : Carried T :=
  {carried with extensions := {carried.extensions with others := outside.schedule carried.extensions.others}}

def Hook.handle (target : Target T) (next : Target T → Job T (Answer T)) : Hook T → Job T (Answer T)
  | .own (.middleware code) => fun carried => (code (target, carried)).run (fun q => next q.1 q.2)
  | .own (.session store) => fun carried => SessionMiddleware.handle (ownStore store) carried (next target)
  | .memorySession slot => fun carried => SessionMiddleware.handle (memoryStore outside.source slot) carried (next target)
  | .cookie => fun carried => CookieMiddleware.handle outside.parse carried (next target)
  | .scheduler => fun carried => next target (insertScheduler outside carried)

def env : Env (Handler T) (Hook T) T.value (Reply T) (Job T) where
  callHandlers := handlerMapCall outside.fill outside.clearBody (fun handler target carried => onShared (handler target carried))
  middleware hook target next := hook.handle outside target next
  panicked := pure outside.panicked

end

section
variable {T : Kinds}

-- `SessionMiddleware::default()` makes a store of its own.
def allocate : StateM (World T) Nat := fun w => (w.stores.length, {w with stores := w.stores ++ [∅]})

def setSessionStore (route : AppRoute T) (store : SessionStore (StateM (Shared T)) Session) : AppRoute T :=
  {route.hookFirst (.own (.session store)) with sessionSet := true}

def checkSession (route : AppRoute T) : StateM (World T) (AppRoute T) :=
  if route.sessionSet then pure route
  else do
    let slot ← allocate
    pure (route.hookFirst (.memorySession slot))

def checkCookie (route : AppRoute T) : AppRoute T := route.hookFirst .cookie

def buildRouteTree (scheduler : Bool) (route : AppRoute T) : StateM (World T) (Tree T) := do
  let route ← checkSession route
  let route := checkCookie route
  let route := if scheduler then route.hookFirst .scheduler else route
  pure (RouteTree.convertToRouteTree route)

structure RouteConnectionService (T : Kinds) where
  frozenTree : Tree T

def RouteConnectionService.new (scheduler : Bool) (route : AppRoute T) : StateM (World T) (RouteConnectionService T) := do
  let frozenTree ← buildRouteTree scheduler route
  pure ⟨frozenTree⟩

-- `call` of a `ConnectionService`, as far as it goes before the first request: the tree for this connection.
def RouteConnectionService.call (self : RouteConnectionService T) : StateM (World T) (Tree T) := pure self.frozenTree

def Route.call (scheduler : Bool) (route : AppRoute T) : StateM (World T) (Tree T) := do
  let service ← RouteConnectionService.new scheduler route
  service.call

structure Server (T : Kinds) where
  world : World T
  connections : List (Tree T)
  replies : List (Reply T)

def Server.connected (self : Server T) (out : Tree T × World T) : Server T :=
  {self with world := out.2, connections := self.connections ++ [out.1]}

def Server.replied (self : Server T) (out : Reply T × World T) : Server T :=
  {self with world := out.2, replies := self.replies ++ [out.1]}

inductive Event (T : Kinds) where
  | connect
  | request (connection buffer : Nat) (target : Target T) (carried : Carried T)

variable (outside : Outside T) (plat : Platform)

def intoReply (answer : Answer T) : Reply T :=
  Sessions.fromInternal outside.encode (match answer with
    | .ok res => res
    | .error e => outside.ofError e)

def respond (order : RouteTree.HashOrder) (tree : Tree T) (buffer : Nat) (target : Target T) (carried : Carried T) :
    StateM (World T) (Reply T) := do
  let answer ← RouteTree.call (env outside) plat (RouteTree.candidateIndices plat order) buffer tree target
    (Sessions.intoInternal outside.parse carried)
  pure (intoReply outside answer)

def step (orders : Nat → RouteTree.HashOrder) (service : StateM (World T) (Tree T)) (s : Server T) :
    Event T → Option (Server T)
  | .connect => some (s.connected (service.run s.world))
  | .request connection buffer target carried =>
      s.connections[connection]?.map fun tree =>
        s.replied ((respond outside plat (orders connection) tree buffer target carried).run s.world)

def Nearby (source : CookieSource) (connection : Nat) (key : Text) (w : World T) : Prop :=
  ∀ id, source.idOf key = .ok id → ∀ other, other ≠ connection → (w.store other).lookup id = none

def NamesNearby (connection : Nat) (carried : Carried T) (w : World T) : Prop :=
  ∀ jar cookie, Sessions.readCookies outside.parse 400 carried.headers = .ok jar →
    jar.get Sessions.sessionName = some cookie → Nearby outside.source connection cookie.value w

def Fine (fine : Nat → Carried T → World T → Prop) (s : Server T) : Event T → Prop
  | .connect => True
  | .request connection _ _ carried => fine connection carried s.world

def started (w : World T) : Server T := ⟨w, [], []⟩

def routeReplies (orders : Nat → RouteTree.HashOrder) (scheduler : Bool) (route : AppRoute T) (w : World T) (events : List (Event T)) :
    Option (List (Reply T)) :=
  (exec (step outside plat orders (Route.call scheduler route)) (started w) events).map Server.replies

def sharedReplies (orders : Nat → RouteTree.HashOrder) (scheduler : Bool) (route : AppRoute T) (w : World T) (events : List (Event T)) :
    Option (List (Reply T)) :=
  let made := (RouteConnectionService.new scheduler route).run w
  (exec (step outside plat orders made.1.call) (started made.2) events).map Server.replies

end

end Silent.RouteConnection
