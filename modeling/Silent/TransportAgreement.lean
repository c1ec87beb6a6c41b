import Silent.ConnectionSharing

/-! One service, two transports. `RouteConnectionService::call` gives a QUIC connection to HTTP/3
and any other to hyper, over the same tree. Hyper's side reads the cookies of a request before
the tree does; HTTP/3 leaves that to the cookie middleware, which the tree begins with. -/
namespace Silent.TransportAgreement
open ByteText PathSegment HttpRequest RouteBuilder Dispatch RouterRefinement
open Cookies RouteChains StepSystem RouteConnection ConnectionSharing

inductive Transport where
  | tcp
  | quic
  deriving DecidableEq

/- How HTTP/3 finds a request: whether its `:protocol` is WebTransport, and whether the task
that reads its body ends well. -/
structure Arrival where
  webTransport : Bool
  bodyRead : Bool

inductive Event (T : Kinds) where
  | connect (transport : Transport)
  | request (connection buffer : Nat) (target : Target T) (carried : Carried T) (arrival : Arrival)

structure Server (T : Kinds) where
  routes : RouteConnection.Server T
  transports : List Transport

variable {T : Kinds} (outside : Outside T) (plat : Platform)

def handleHttp3Request (order : RouteTree.HashOrder) (tree : Tree T) (buffer : Nat) (target : Target T) (carried : Carried T)
    (bodyRead : Bool) : StateM (World T) (Option (Reply T)) := do
  let answer ← RouteTree.call (env outside) plat (RouteTree.candidateIndices plat order) buffer tree target carried
  pure (if bodyRead then some (intoReply outside answer) else none)

def handleRequest (order : RouteTree.HashOrder) (tree : Tree T) (buffer : Nat) (target : Target T) (carried : Carried T)
    (arrival : Arrival) : StateM (World T) (Option (Reply T)) :=
  if target.method = .connect ∧ arrival.webTransport = true then pure none
  else handleHttp3Request outside plat order tree buffer target carried arrival.bodyRead

def respondOver (order : RouteTree.HashOrder) (tree : Tree T) (buffer : Nat) (target : Target T) (carried : Carried T)
    (arrival : Arrival) : Transport → StateM (World T) (Option (Reply T))
  | .tcp => some <$> respond outside plat order tree buffer target carried
  | .quic => handleRequest outside plat order tree buffer target carried arrival

def Server.answered (self : Server T) (out : Option (Reply T) × World T) : Server T :=
  {self with routes := match out.1 with
    | some reply => self.routes.replied (reply, out.2)
    | none => {self.routes with world := out.2}}

def step (orders : Nat → RouteTree.HashOrder) (service : StateM (World T) (Tree T)) (s : Server T) : Event T → Option (Server T)
  | .connect transport => some ⟨s.routes.connected (service.run s.routes.world), s.transports ++ [transport]⟩
  | .request connection buffer target carried arrival => do
      let tree ← s.routes.connections[connection]?
      let transport ← s.transports[connection]?
      some (s.answered ((respondOver outside plat (orders connection) tree buffer target carried arrival transport).run
        s.routes.world))

/- What comes over QUIC is for the tree, and its body is read to the end. -/
def Arrives (s : Server T) : Event T → Prop
  | .connect _ => True
  | .request connection _ target _ arrival => s.transports[connection]? = some .quic →
      ¬(target.method = .connect ∧ arrival.webTransport = true) ∧ arrival.bodyRead = true

def started (w : World T) : Server T := ⟨RouteConnection.started w, []⟩

def onTcp : Event T → RouteConnection.Event T
  | .connect _ => .connect
  | .request connection buffer target carried _ => .request connection buffer target carried

structure Hooked (scheduler : Bool) (route : AppRoute T) (service : StateM (World T) (Tree T)) : Prop where
  tree : ∀ w, ∃ slot, (service.run w).1 = treeFor scheduler route slot

section
variable (scheduler : Bool) (route : AppRoute T)

theorem builtHooked (w : World T) : ∃ slot, ((buildRouteTree scheduler route).run w).1 = treeFor scheduler route slot := by
  cases set : route.sessionSet with
  | true =>
    rw [buildOwn scheduler route set]
    exact ⟨none, rfl⟩
  | false =>
    rw [buildMemory scheduler route set]
    exact ⟨some w.stores.length, rfl⟩

theorem routeHooked : Hooked scheduler route (Route.call scheduler route) := ⟨builtHooked scheduler route⟩

theorem serviceHooked (w : World T) : Hooked scheduler route ((RouteConnectionService.new scheduler route).run w).1.call :=
  ⟨fun _ => builtHooked scheduler route w⟩

/- The jar that was there makes no difference: the middleware puts its own over it. -/
theorem cookiesReplaced (carried : Carried T) (jar : CookieJar) (next : Carried T → StateM (World T) (Answer T)) :
    Sessions.CookieMiddleware.handle outside.parse (if scheduler then insertScheduler outside (carried.insertCookies jar)
        else carried.insertCookies jar) next =
      Sessions.CookieMiddleware.handle outside.parse (if scheduler then insertScheduler outside carried else carried) next := by
  cases scheduler <;> rfl

theorem sameAnswer (order : RouteTree.HashOrder) (slot : Option Nat) (buffer : Nat) (target : Target T) (carried : Carried T)
    {arrival : Arrival} (transport : Transport)
    (arrives : transport = .quic → ¬(target.method = .connect ∧ arrival.webTransport = true) ∧ arrival.bodyRead = true) :
    respondOver outside plat order (treeFor scheduler route slot) buffer target carried arrival transport =
      some <$> respond outside plat order (treeFor scheduler route slot) buffer target carried := by
  cases transport with
  | tcp => rfl
  | quic =>
    obtain ⟨plain, read⟩ := arrives rfl
    rw [respondTree]
    unfold respondOver handleRequest handleHttp3Request treeFor
    rw [if_neg plain, read, callConverted]
    have entered : answerRoot (env outside) plat buffer (hooked scheduler route slot) target carried =
        answerRoot (env outside) plat buffer (hooked scheduler route slot) target (Sessions.intoInternal outside.parse carried) := by
      unfold answerRoot
      cases RouterSearch.matchAt plat ⟨buffer, target.uriPath⟩ (hooked scheduler route slot) target.uriPath with
      | none => rfl
      | some found =>
        dsimp only
        cases RouteTree.bindParams (RouterSearch.segmentOf (hooked scheduler route slot))
          (arrive (hooked scheduler route slot) ⟨buffer, target.uriPath⟩ target) found ⟨buffer, target.uriPath⟩ with
        | none => rfl
        | some bound =>
          dsimp only
          rw [hookedEnter, hookedEnter]
          exact (cookiesReplaced outside scheduler carried _ _).symm
    rw [entered]
    rfl

end

structure Alike (scheduler : Bool) (route : AppRoute T) (s : Server T) : Prop where
  length : s.transports.length = s.routes.connections.length
  trees : ∀ tree ∈ s.routes.connections, ∃ slot, tree = treeFor scheduler route slot

section
variable {scheduler : Bool} {route : AppRoute T} {service : StateM (World T) (Tree T)}

theorem stepAlike (orders : Nat → RouteTree.HashOrder) (hooks : Hooked scheduler route service) {s : Server T}
    (alike : Alike scheduler route s) (e : Event T) (arrives : Arrives s e) :
    (step outside plat orders service s e).map Server.routes = RouteConnection.step outside plat orders service s.routes (onTcp e) ∧
      ∀ t, step outside plat orders service s e = some t → Alike scheduler route t := by
  cases e with
  | connect transport =>
    refine ⟨rfl, fun t taken => ?_⟩
    cases taken
    constructor
    · simp [Server.connected, RouteConnection.Server.connected, alike.length]
    · intro tree among
      rcases List.mem_append.mp among with before | new
      · exact alike.trees tree before
      · rw [List.mem_singleton.mp new]
        exact hooks.tree s.routes.world
  | request c buffer target carried arrival =>
    cases there : s.routes.connections[c]? with
    | none =>
      constructor
      · simp [step, onTcp, RouteConnection.step, there]
      · intro t taken
        simp [step, there] at taken
    | some tree =>
      obtain ⟨inside, _⟩ := List.getElem?_eq_some_iff.mp there
      obtain ⟨transport, spoken⟩ : ∃ transport, s.transports[c]? = some transport :=
        ⟨_, List.getElem?_eq_getElem (Nat.lt_of_lt_of_eq inside alike.length.symm)⟩
      obtain ⟨slot, shape⟩ := alike.trees tree (List.mem_of_getElem? there)
      have same : respondOver outside plat (orders c) tree buffer target carried arrival transport =
          some <$> respond outside plat (orders c) tree buffer target carried := by
        rw [shape]
        exact sameAnswer outside plat scheduler route (orders c) slot buffer target carried transport
          fun quic => arrives (quic ▸ spoken)
      constructor
      · simp only [step, onTcp, RouteConnection.step, there, spoken, same, Option.bind_eq_bind, Option.bind_some, Option.map_some]
        rfl
      · intro t taken
        simp only [step, there, spoken, same, Option.bind_eq_bind, Option.bind_some, Option.some.injEq] at taken
        subst taken
        exact ⟨alike.length, alike.trees⟩

theorem runAlike (orders : Nat → RouteTree.HashOrder) (hooks : Hooked scheduler route service) (events : List (Event T)) {s : Server T}
    (alike : Alike scheduler route s) (arrives : Along (step outside plat orders service) Arrives s events) :
    (exec (step outside plat orders service) s events).map Server.routes =
      exec (RouteConnection.step outside plat orders service) s.routes (events.map onTcp) := by
  induction events generalizing s with
  | nil => rfl
  | cons e events ih =>
    obtain ⟨same, kept⟩ := stepAlike outside plat orders hooks alike e arrives.1
    rw [List.map_cons, exec, exec, ← same]
    cases taken : step outside plat orders service s e with
    | none => rfl
    | some t => exact ih (kept t taken) (arrives.2 t taken)

def replies (orders : Nat → RouteTree.HashOrder) (service : StateM (World T) (Tree T)) (w : World T) (events : List (Event T)) :
    Option (List (Reply T)) :=
  (exec (step outside plat orders service) (started w) events).map (·.routes.replies)

theorem repliesOnTcp (orders : Nat → RouteTree.HashOrder) (hooks : Hooked scheduler route service) (w : World T)
    (events : List (Event T)) (arrives : Along (step outside plat orders service) Arrives (started w) events) :
    replies outside plat orders service w events =
      (exec (RouteConnection.step outside plat orders service) (RouteConnection.started w) (events.map onTcp)).map
        RouteConnection.Server.replies := by
  have same := runAlike outside plat orders hooks events (s := started w)
    ⟨rfl, fun tree among => absurd among List.not_mem_nil⟩ arrives
  have folded := congrArg (Option.map RouteConnection.Server.replies) same
  rw [Option.map_map] at folded
  exact folded

end

/- Whichever of its connections come over QUIC, a server answers every request that arrives
there as if all had come over TCP: a session that was opened over one transport is found again
over the other. -/
theorem transportsAgree (orders : Nat → RouteTree.HashOrder) (scheduler : Bool) (route : AppRoute T) (w : World T)
    (events : List (Event T)) :
    (Along (step outside plat orders (Route.call scheduler route)) Arrives (started w) events →
      replies outside plat orders (Route.call scheduler route) w events =
        routeReplies outside plat orders scheduler route w (events.map onTcp)) ∧
      (Along (step outside plat orders ((RouteConnectionService.new scheduler route).run w).1.call) Arrives
          (started ((RouteConnectionService.new scheduler route).run w).2) events →
        replies outside plat orders ((RouteConnectionService.new scheduler route).run w).1.call
            ((RouteConnectionService.new scheduler route).run w).2 events =
          sharedReplies outside plat orders scheduler route w (events.map onTcp)) :=
  ⟨repliesOnTcp outside plat orders (routeHooked scheduler route) w events,
    repliesOnTcp outside plat orders (serviceHooked scheduler route w) _ events⟩

def served : RouteConnectionService plainKinds × World plainKinds :=
  (RouteConnectionService.new false site.route).run ⟨[], 0, ⟨[], ()⟩⟩

def visitOver (connection : Nat) (headers : List (Text × Text)) : Event plainKinds :=
  .request connection 0 (.fromParts .get ['/']) ⟨headers, ⟨none, none, ()⟩, ()⟩ ⟨false, true⟩

theorem sessionOverBoth :
    replies plainOutside literalAbove (fun _ => entryOrder) served.1.call served.2
        [.connect .tcp, .connect .quic, visitOver 0 [], visitOver 1 returning] =
      sharedReplies plainOutside literalAbove (fun _ => entryOrder) false site.route ⟨[], 0, ⟨[], ()⟩⟩
        [.connect, .connect, visit 0 [], visit 1 returning] :=
  (transportsAgree plainOutside literalAbove (fun _ => entryOrder) false site.route ⟨[], 0, ⟨[], ()⟩⟩ _).2
    ⟨trivial, fun _ _ => ⟨trivial, fun _ _ => ⟨fun _ => ⟨by simp, rfl⟩, fun _ _ => ⟨fun _ => ⟨by simp, rfl⟩, fun _ _ => trivial⟩⟩⟩⟩

end Silent.TransportAgreement
