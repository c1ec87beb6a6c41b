import Silent.ListingMarkup
import Silent.MountedHandlers

/-! Static files behind a route. `with_static_options` puts `<path:**>` below a route, and
the handler there is given the part of the request path that the segments above have left. -/
namespace Silent.StaticMounts
open ByteText StdPath PathSegment HttpRequest RouteBuilder RouteShape RouteTable Dispatch RouterCompleteness RouteRegistration
open StaticFiles MountedHandlers

variable {H M V F : Type}

def withStaticOptions (self : Route H M V) (handler : H) : Option (Route H M V) :=
  self.append ((Route.new starPath).insertHandler .get handler)

def withStaticInUrlOptions (self : Route H M V) (url : Text) (handler : H) : Option (Route H M V) := do
  let mounted ← withStaticOptions (Route.new url) handler
  self.append mounted

inductive Site (url : Text) (handler : H) : Route H M V → Prop
  | own {site} (built : withStaticOptions (Route.new url) handler = some site) : Site url handler site
  | below {site} (built : withStaticInUrlOptions (Route.new []) url handler = some site) : Site url handler site

abbrev Outcome (F : Type) := Except StaticFiles.SilentError (Answer Text F) × List (Access Text)

-- The handler's own errors stay in its outcome; there are no middlewares.
def staticEnv (fs : FileSystem Text F) : Env (HandlerWrapperStatic Text) M V (Outcome F) Id where
  callHandlers := handlerMapCall (fun _ outcome => outcome) id fun handler req =>
    .ok (handler.call unix ListingMarkup.urlCodec fs (pathParam req))
  middleware _ req next := next req
  panicked := .error .notFound

def visit (plat : Platform) (order : RouteTree.HashOrder) (buffer : Nat) (fs : FileSystem Text F)
    (site : Route (HandlerWrapperStatic Text) M V) (path : Text) : SilentResult (Outcome F) :=
  RouteTree.call (m := Id) (staticEnv fs) plat (RouteTree.candidateIndices plat order) buffer (RouteTree.convertToRouteTree site)
    (Request.fromParts .get path)

def getMap (handler : H) : HashMap Method H := (∅ : HashMap Method H).insert .get handler

theorem starShaft (handler : H) : Shaft (getMap handler) [] ((Route.new starPath : Route H M V).insertHandler .get handler) := by
  have shape : (Route.new starPath : Route H M V) = Route.single starPath starPath := by
    rw [Route.new]
    rfl
  rw [shape]
  exact .leaf rfl rfl rfl

theorem siteShaft {url : Text} {handler : H} {site : Route H M V} (built : Site url handler site) :
    Shaft (getMap handler) (nodeKey url) site ∨ Shaft (getMap handler) ([] :: nodeKey url) site := by
  cases built with
  | own built =>
    have shaft := appendShaft built (starShaft handler)
    rw [List.append_nil] at shaft
    exact .inl shaft
  | below built =>
    obtain ⟨mounted, inner, outer⟩ := Option.bind_eq_some_iff.mp built
    have shaft := appendShaft outer (appendShaft inner (starShaft handler))
    rw [List.append_nil] at shaft
    exact .inr shaft

theorem staticPasses (fs : FileSystem Text F) : PassThrough (staticEnv (M := M) (V := V) fs) := fun _ _ _ => rfl

def Visited (fs : FileSystem Text F) (handler : HandlerWrapperStatic Text) (answered : SilentResult (Outcome F)) : Option Text → Prop
  | some value => answered = .ok (handler.call unix ListingMarkup.urlCodec fs (some value))
  | none => answered = .error .notFound

theorem shaftVisit (plat : Platform) (order : RouteTree.HashOrder) (buffer : Nat) (fs : FileSystem Text F) {mount : List Text}
    {handler : HandlerWrapperStatic Text} {site : Route (HandlerWrapperStatic Text) M V} (shaft : Shaft (getMap handler) mount site)
    (path : Text) : Visited fs handler (visit plat order buffer fs site path) (captured plat mount path) := by
  have serves := shaftServes plat order buffer rfl shaft .get path (staticEnv fs) (staticPasses fs)
  cases value : captured plat mount path with
  | some value' =>
    rw [value] at serves
    obtain ⟨bound, method, read, calls⟩ := serves
    have stored : (getMap handler).lookup bound.method = some handler := by
      rw [method]
      exact AList.lookup_insert _
    change visit plat order buffer fs site path = _
    rw [visit, calls]
    simp only [staticEnv, handlerMapCall, stored, read]
    rfl
  | none =>
    rw [value] at serves
    exact serves

theorem siteVisit (plat : Platform) (order : RouteTree.HashOrder) (buffer : Nat) (fs : FileSystem Text F) {url : Text}
    {handler : HandlerWrapperStatic Text} {site : Route (HandlerWrapperStatic Text) M V} (built : Site url handler site)
    (path : Text) : Visited fs handler (visit plat order buffer fs site path) (captured plat (segments url) path) := by
  rw [← capturedKey]
  rcases siteShaft built with shaft | shaft
  · exact shaftVisit plat order buffer fs shaft path
  · exact shaftVisit plat order buffer fs shaft path

end Silent.StaticMounts
