import Mathlib.Control.Monad.Writer
import Silent.RouteChains

/-! What can be watched while a request is dispatched: middlewares being entered and
left, and handler maps being called. The dispatcher is the one of the code, run in the
writer monad. With middlewares that call `next` once, the trace is an onion around the
handler: the middlewares of the chain from the root down, and back in reverse. -/
namespace Silent.MiddlewareOnion
open ByteText PathSegment HttpRequest RouteBuilder RouteShape Dispatch SegmentSpec RouterSearch RouterRefinement RouteChains

inductive Event (H M V : Type) where
  | enter (mw : M)
  | exit (mw : M)
  | served (map : HashMap Method H) (req : Request V)

abbrev Traced (E : Type) := Writer (List E)

def events {E α : Type} (run : Traced E α) : List E := run.run.2

section
variable {E α β : Type}

@[simp] theorem eventsPure (a : α) : events (pure a : Traced E α) = [] := rfl

@[simp] theorem eventsBind (run : Traced E α) (next : α → Traced E β) :
    events (run >>= next) = events run ++ events (next run.run.1) := rfl

@[simp] theorem eventsTell (es : List E) : events (tell es : Traced E PUnit) = es := rfl

end

variable {H M V R : Type}

@[simp] theorem eventsNotFound {E : Type} :
    events (RouteTree.notFoundError : Traced E (SilentResult R)) = [] := rfl

/- Every middleware calls `next` exactly once, with a request and a result of its own
making; the handler maps answer by `respond`. -/
def onionEnv (before : M → Request V → Request V) (after : M → Request V → SilentResult R → SilentResult R)
    (respond : HashMap Method H → Request V → SilentResult R) : Env H M V R (Traced (Event H M V)) where
  callHandlers map req := do
    tell [.served map req]
    pure (respond map req)
  middleware mw req next := do
    tell [.enter mw]
    let res ← next (before mw req)
    tell [.exit mw]
    pure (after mw req res)
  panicked := pure (.error .notFound)

def wrapped (mws : List M) (inner : List (Event H M V)) : List (Event H M V) :=
  mws.map .enter ++ (inner ++ (mws.map .exit).reverse)

theorem wrappedAppend (outer inner : List M) (core : List (Event H M V)) :
    wrapped (outer ++ inner) core = wrapped outer (wrapped inner core) := by
  simp [wrapped]

section
variable (before : M → Request V → Request V) (after : M → Request V → SilentResult R → SilentResult R)
  (respond : HashMap Method H → Request V → SilentResult R)

theorem enterEvents (r : Route H M V) (next : Request V → Traced (Event H M V) (SilentResult R)) (req : Request V) :
    events (enter (onionEnv before after respond) r next req) =
      wrapped r.middlewares (events (next (r.middlewares.foldl (fun req mw => before mw req) req))) := by
  unfold enter
  generalize r.middlewares = mws
  induction mws generalizing req with
  | nil => simp [wrapped]
  | cons mw rest ih =>
    have inner := ih (before mw req)
    rw [← List.singleton_append, wrappedAppend, List.foldl_append, List.foldl_cons, List.foldl_nil, ← inner]
    simp [wrapped, onionEnv]

def core (last : Route H M V) (seen : Request V) : List (Event H M V) :=
  if served last then [.served last.handler seen] else []

theorem serveEvents (last : Route H M V) (req : Request V) :
    events (serve (onionEnv before after respond) last req) = core last req := by
  unfold serve core served
  cases last.handler.entries.isEmpty <;> simp [onionEnv]

def middlewaresOf (hits : List (Hit H M V)) : List M := hits.flatMap (·.route.middlewares)

theorem followEvents {plat : Platform} {full : Slice} {r : Route H M V} {rest : Text} {hits : List (Hit H M V)}
    (chain : Matches plat full r rest hits) (req : Request V) :
    ∃ seen, events (follow (onionEnv before after respond) full r hits req) =
      wrapped (middlewaresOf hits) (core (endOf r hits) seen) := by
  induction chain generalizing req with
  | stop ends => exact ⟨req, by simp [follow, serveEvents, middlewaresOf, wrapped, endOf]⟩
  | @child r c rest found hits mem matched below ih =>
    obtain ⟨bound, binding⟩ := bindParamsMatched matched req full
    have binding' : RouteTree.bindParams (segmentOf c) req found full = some bound := binding
    obtain ⟨seen, inner⟩ := ih (c.middlewares.foldl (fun req mw => before mw req) (addState c bound))
    refine ⟨seen, ?_⟩
    simp only [follow, binding', enterEvents, inner, endOf]
    rw [← wrappedAppend]
    rfl

/- The whole trace: nothing if the root does not match, only the middlewares of the
root if no chain below it stops, and else those of the first stop. -/
theorem rootEvents (plat : Platform) (buffer : Nat) (r : Route H M V) (req : Request V) :
    (matchAt plat ⟨buffer, req.uriPath⟩ r req.uriPath = none ∧ (rootStops plat ⟨buffer, req.uriPath⟩ r).head? = none ∧
      events (answerRoot (onionEnv before after respond) plat buffer r req) = []) ∨
    (matchAt plat ⟨buffer, req.uriPath⟩ r req.uriPath ≠ none ∧ (rootStops plat ⟨buffer, req.uriPath⟩ r).head? = none ∧
      events (answerRoot (onionEnv before after respond) plat buffer r req) = wrapped r.middlewares []) ∨
    (∃ hits seen, (rootStops plat ⟨buffer, req.uriPath⟩ r).head? = some hits ∧
      events (answerRoot (onionEnv before after respond) plat buffer r req) =
        wrapped (r.middlewares ++ middlewaresOf hits) (core (endOf r hits) seen)) := by
  unfold answerRoot rootStops
  dsimp only
  cases matched : matchAt plat ⟨buffer, req.uriPath⟩ r req.uriPath with
  | none => exact .inl ⟨rfl, rfl, rfl⟩
  | some found =>
    refine .inr ?_
    obtain ⟨bound, binding⟩ := bindParamsMatched matched (arrive r ⟨buffer, req.uriPath⟩ req) ⟨buffer, req.uriPath⟩
    have binding' : RouteTree.bindParams (segmentOf r) (arrive r ⟨buffer, req.uriPath⟩ req) found ⟨buffer, req.uriPath⟩ =
        some bound := binding
    simp only [binding', enterEvents, answer, firstStopHead]
    cases first : (stops plat ⟨buffer, req.uriPath⟩ r found.remain.text).head? with
    | none => exact .inl ⟨nofun, rfl, rfl⟩
    | some hits =>
      obtain ⟨seen, inner⟩ := followEvents before after respond (stopsMatch (List.mem_of_head? first))
        (r.middlewares.foldl (fun req mw => before mw req) (addState r bound))
      exact .inr ⟨hits, seen, rfl, by rw [wrappedAppend, ← inner]⟩

theorem stopEvents (plat : Platform) (buffer : Nat) {r : Route H M V} {req : Request V} {hits : List (Hit H M V)}
    (first : (rootStops plat ⟨buffer, req.uriPath⟩ r).head? = some hits) :
    ∃ seen, events (answerRoot (onionEnv before after respond) plat buffer r req) =
      wrapped (r.middlewares ++ middlewaresOf hits) (core (endOf r hits) seen) := by
  rcases rootEvents before after respond plat buffer r req with ⟨_, none_, _⟩ | ⟨_, none_, _⟩ | ⟨hits', seen, first', trace⟩
  · rw [first] at none_
    cases none_
  · rw [first] at none_
    cases none_
  · cases Option.some.inj (first.symm.trans first')
    exact ⟨seen, trace⟩

theorem middlewareOnion (plat : Platform) (order : RouteTree.HashOrder) (buffer : Nat) (r : Route H M V)
    (req : Request V) {map : HashMap Method H} {seen : Request V}
    (reached : .served map seen ∈ events (RouteTree.call (onionEnv before after respond) plat
      (RouteTree.candidateIndices plat order) buffer (RouteTree.convertToRouteTree r) req)) :
    (∃ hits, RootMatches plat ⟨buffer, req.uriPath⟩ r hits ∧ map = (endOf r hits).handler ∧
      events (RouteTree.call (onionEnv before after respond) plat (RouteTree.candidateIndices plat order) buffer
        (RouteTree.convertToRouteTree r) req) =
          wrapped (r.middlewares ++ middlewaresOf hits) [.served map seen]) ∧
    ∀ (node : Route H M V) (inherited : List M),
      (frozen node inherited).middlewares.drop (frozen node inherited).middlewareStart = node.middlewares := by
  refine ⟨?_, ownMiddlewares⟩
  rw [callConverted] at reached ⊢
  rcases rootEvents before after respond plat buffer r req with ⟨_, _, trace⟩ | ⟨_, _, trace⟩ | ⟨hits, seen', first, trace⟩
  · simp [trace] at reached
  · simp [trace, wrapped] at reached
  · rw [trace] at reached ⊢
    have inner : .served map seen ∈ core (endOf r hits) seen' := by simpa [wrapped] using reached
    unfold core at inner ⊢
    split at inner
    · rename_i handles
      cases List.mem_singleton.mp inner
      exact ⟨hits, rootStopsMatch (List.mem_of_head? first), rfl, by rw [if_pos handles]⟩
    · simp at inner

end

def isServed : Event H M V → Bool
  | .served _ _ => true
  | _ => false

def layered : Option (Route Nat Nat Unit) := do
  let a ← (((Route.new "a".toList).hook 2).hook 3).get 1
  let x ← ((Route.new "<x>".toList).hook 4).get 2
  let root ← ((Route.new []).hook 1).append x
  root.append a

def layeredTrace (r : Route Nat Nat Unit) : List (Event Nat Nat Unit) :=
  events (RouteTree.call (onionEnv (fun _ req => req) (fun _ _ res => res) (fun _ _ => .ok ())) literalAbove
    (RouteTree.candidateIndices literalAbove entryOrder) 64 (RouteTree.convertToRouteTree r)
    (Request.fromParts .get "/a".toList))

theorem middlewareOnionLayered :
    ∃ (r : Route Nat Nat Unit) (hits : List (Hit Nat Nat Unit)) (map : HashMap Method Nat) (seen : Request Unit),
      layered = some r ∧ layeredTrace r = wrapped (r.middlewares ++ middlewaresOf hits) [.served map seen] := by
  obtain ⟨r, built⟩ := Option.isSome_iff_exists.mp (show layered.isSome by decide +kernel)
  have reached : (layered.map fun r => (layeredTrace r).any isServed) = some true := by decide +kernel
  rw [built, Option.map_some, Option.some.injEq] at reached
  obtain ⟨event, mem, isCall⟩ := List.any_eq_true.mp reached
  cases event with
  | served map seen =>
    obtain ⟨⟨hits, _, _, trace⟩, _⟩ := middlewareOnion _ _ _ _ _ _ r _ mem
    exact ⟨r, hits, map, seen, built, trace⟩
  | enter mw | exit mw => cases isCall

end Silent.MiddlewareOnion
