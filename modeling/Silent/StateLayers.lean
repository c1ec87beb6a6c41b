import Silent.PathCaptures

/-! Typed state along a chain of routes. Each route of the chain lays its container over
the state of the request, so that the deepest one that sets a type decides it. The root
is the exception: `RouteTree::call` puts the container of the root in place of the state
the request came in with. -/
namespace Silent.StateLayers
open ByteText PathSegment HttpRequest RouteBuilder RouteShape Dispatch SegmentSpec RouterSearch RouterRefinement
open RouteChains MiddlewareOnion PathCaptures

variable {H M V R : Type}

def callRoute {m : Type → Type} [Monad m] (env : Env H M V R m) (plat : Platform)
    (candidates : RouteTree.Candidates H M V) (buffer : Nat) (self : Route H M V) (req : Request V) :
    m (SilentResult R) :=
  RouteTree.call env plat candidates buffer (RouteTree.convertToRouteTree self) (addState self req)

def setOn (r : Route H M V) (type : TypeId) : Option V := r.state.bind (·.lookup type)

def setAlong (chain : List (Route H M V)) (type : TypeId) : Option V := chain.reverse.findSome? (setOn · type)

/-- The value of the deepest route that sets the type, or else the one brought along. -/
def layered (chain : List (Route H M V)) (incoming : State V) (type : TypeId) : Option V :=
  (setAlong chain type).or (incoming.lookup type)

def chainRoutes (r : Route H M V) (hits : List (Hit H M V)) : List (Route H M V) := r :: hits.map (·.route)

theorem setAlongCons (r : Route H M V) (chain : List (Route H M V)) (type : TypeId) :
    setAlong (r :: chain) type = (setAlong chain type).or (setOn r type) := by
  rw [setAlong, List.reverse_cons, List.findSome?_append]
  simp [setAlong]

@[simp] theorem addStateLookup (r : Route H M V) (req : Request V) (type : TypeId) :
    (addState r req).state.lookup type = (setOn r type).or (req.state.lookup type) := by
  unfold addState setOn
  split
  · rename_i state found
    rw [found, Option.bind_some]
    exact HashMap.lookupOverwriteAll _ _ _
  · rename_i missing
    rw [missing]
    rfl

theorem addStateUri (r : Route H M V) (req : Request V) : (addState r req).uriPath = req.uriPath := by
  unfold addState
  split <;> rfl

theorem bindParamsState {segment : SpecialSeg} {found : PathMatch} {full : Slice} {req bound : Request V}
    (binding : RouteTree.bindParams segment req found full = some bound) : bound.state = req.state := by
  unfold RouteTree.bindParams at binding
  split at binding
  all_goals first
    | contradiction
    | (cases Option.some.inj binding
       rfl)

/- Handler calls are recorded, and a middleware reaches them through `next` only, with
the state it was given. -/
structure KeepsState (env : Env H M V R (Traced (Event H M V))) : Prop where
  handlers : ∀ map req, events (env.callHandlers map req) = [.served map req]
  middlewares : ∀ mw req next map seen, .served map seen ∈ events (env.middleware mw req next) →
    ∃ passed : Request V, passed.state = req.state ∧ .served map seen ∈ events (next passed)

theorem quietKeepsState : KeepsState (quietEnv : Env H M V R (Traced (Event H M V))) where
  handlers map req := rfl
  middlewares mw req next map seen called := by
    refine ⟨req, rfl, ?_⟩
    simpa [quietEnv, onionEnv] using called

theorem followState {env : Env H M V R (Traced (Event H M V))} (keeps : KeepsState env) {full : Slice}
    {hits : List (Hit H M V)} {r : Route H M V} {req seen : Request V} {map : HashMap Method H}
    (called : .served map seen ∈ events (follow env full r hits req)) (type : TypeId) :
    served (endOf r hits) = true ∧ map = (endOf r hits).handler ∧
      seen.state.lookup type = (setAlong (hits.map (·.route)) type).or (req.state.lookup type) := by
  induction hits generalizing r req with
  | nil =>
    obtain ⟨handles, rfl, rfl⟩ := serveCalled keeps.handlers called
    exact ⟨handles, rfl, rfl⟩
  | cons hit hits ih =>
    simp only [follow] at called
    split at called
    · simp at called
    · rename_i bound binding
      obtain ⟨passed, kept, later⟩ := enterKept keeps.middlewares hit.route called
      obtain ⟨handles, same, value⟩ := ih later
      refine ⟨handles, same, ?_⟩
      rw [value, kept, addStateLookup, bindParamsState binding, List.map_cons, setAlongCons, Option.or_assoc]

def brought (r : Route H M V) (incoming : State V) : State V := if r.state.isSome then ∅ else incoming

theorem arriveState (r : Route H M V) (full : Slice) (req : Request V) (type : TypeId) :
    (addState r (arrive r full req)).state.lookup type = (setOn r type).or ((brought r req.state).lookup type) := by
  rw [addStateLookup]
  unfold arrive setOn brought
  cases r.state with
  | none => rfl
  | some state => cases found : state.lookup type <;> simp [Request.setPathSource, found]

theorem rootState {env : Env H M V R (Traced (Event H M V))} (keeps : KeepsState env) {plat : Platform} {buffer : Nat}
    {r : Route H M V} {req seen : Request V} {map : HashMap Method H}
    (called : .served map seen ∈ events (answerRoot env plat buffer r req)) (type : TypeId) :
    ∃ hits ∈ (rootStops plat ⟨buffer, req.uriPath⟩ r).head?, served (endOf r hits) = true ∧
      map = (endOf r hits).handler ∧
      seen.state.lookup type = layered (chainRoutes r hits) (brought r req.state) type := by
  unfold answerRoot at called
  dsimp only at called
  split at called
  · simp at called
  · rename_i found matched
    split at called
    · simp at called
    · rename_i bound binding
      obtain ⟨passed, kept, later⟩ := enterKept keeps.middlewares r called
      rw [rootStops, matched]
      dsimp only
      unfold answer at later
      rw [firstStopHead] at later
      split at later
      · rename_i hits first
        obtain ⟨handles, same, value⟩ := followState keeps later type
        refine ⟨hits, first, handles, same, ?_⟩
        have rooted := arriveState r ⟨buffer, req.uriPath⟩ req type
        rw [addStateLookup] at rooted
        rw [value, kept, addStateLookup, bindParamsState binding, rooted, layered, chainRoutes, setAlongCons,
          Option.or_assoc]
      · simp at later

/- At one request and one type: whatever the middlewares do that leave the state alone, a
handler that is reached finds the layered value. -/
def SeesLayered (plat : Platform) (buffer : Nat) (r : Route H M V) (req : Request V) (type : TypeId)
    (run : Env H M V R (Traced (Event H M V)) → Traced (Event H M V) (SilentResult R)) : Prop :=
  ∀ env, KeepsState env → ∀ map seen, .served map seen ∈ events (run env) →
    ∃ hits ∈ (rootStops plat ⟨buffer, req.uriPath⟩ r).head?, map = (endOf r hits).handler ∧
      seen.state.lookup type = layered (chainRoutes r hits) req.state type

def NotReplaced (plat : Platform) (buffer : Nat) (r : Route H M V) (req : Request V) (type : TypeId) : Prop :=
  ∀ hits ∈ (rootStops plat ⟨buffer, req.uriPath⟩ r).head?, served (endOf r hits) = true →
    r.state = none ∨ setAlong (chainRoutes r hits) type ≠ none ∨ req.state.lookup type = none

theorem layeredBrought {r : Route H M V} {chain : List (Route H M V)} {incoming : State V} {type : TypeId} :
    layered chain (brought r incoming) type = layered chain incoming type ↔
      r.state = none ∨ setAlong chain type ≠ none ∨ incoming.lookup type = none := by
  unfold layered brought
  cases r.state with
  | none => simp
  | some state =>
    cases setAlong chain type with
    | some value => simp
    | none => simp [eq_comm]

theorem seesLayeredRun (plat : Platform) (buffer : Nat) (r : Route H M V) {req entered : Request V} (type : TypeId)
    (uri : entered.uriPath = req.uriPath) (left : brought r entered.state = brought r req.state) :
    SeesLayered plat buffer r req type (fun env => answerRoot (R := R) env plat buffer r entered) ↔
      NotReplaced plat buffer r req type := by
  unfold SeesLayered NotReplaced
  rw [← uri]
  constructor
  · intro sees hits first handles
    obtain ⟨seen, trace⟩ := stopEvents (fun _ req => req) (fun _ _ res => res)
      (fun _ _ => (.error .notFound : SilentResult R)) plat buffer first
    have called : .served (endOf r hits).handler seen ∈ events (answerRoot (R := R) quietEnv plat buffer r entered) := by
      unfold quietEnv
      rw [trace, core, if_pos handles]
      simp [wrapped]
    obtain ⟨hits', first', _, value⟩ := sees quietEnv quietKeepsState _ _ called
    obtain ⟨hits'', first'', _, _, value'⟩ := rootState quietKeepsState called type
    cases Option.some.inj (first.symm.trans first')
    cases Option.some.inj (first.symm.trans first'')
    rw [left, value] at value'
    exact layeredBrought.mp value'.symm
  · intro kept env keeps map seen called
    obtain ⟨hits, first, handles, same, value⟩ := rootState keeps called type
    rw [left] at value
    exact ⟨hits, first, same, value.trans (layeredBrought.mpr (kept hits first handles))⟩

theorem addStateBrought (r : Route H M V) (req : Request V) :
    brought r (addState r req).state = brought r req.state := by
  unfold brought addState
  cases r.state <;> rfl

theorem stateLayeredUnlessReplaced (plat : Platform) (order : RouteTree.HashOrder) (buffer : Nat) (r : Route H M V)
    (req : Request V) (type : TypeId) :
    (SeesLayered plat buffer r req type (fun env => RouteTree.call (R := R) env plat
        (RouteTree.candidateIndices plat order) buffer (RouteTree.convertToRouteTree r) req) ↔
      NotReplaced plat buffer r req type) ∧
    (SeesLayered plat buffer r req type (fun env => callRoute (R := R) env plat
        (RouteTree.candidateIndices plat order) buffer r req) ↔
      NotReplaced plat buffer r req type) := by
  simp only [callRoute, callConverted]
  exact ⟨seesLayeredRun plat buffer r type rfl rfl,
    seesLayeredRun plat buffer r type (addStateUri r req) (addStateBrought r req)⟩

def rooted : Option (Route Nat Unit Nat) := do
  let a ← (Route.new "a".toList).get 1
  Route.newRoot.append a

def carrying : Request Nat := incoming .get "/a".toList ((∅ : State Nat).insert 7 70)

theorem rootDropsState :
    ∃ r, rooted = some r ∧
      (¬ SeesLayered literalAbove 64 r carrying 7 (fun env => RouteTree.call (R := Unit) env literalAbove
        (RouteTree.candidateIndices literalAbove entryOrder) 64 (RouteTree.convertToRouteTree r) carrying)) ∧
      ¬ SeesLayered literalAbove 64 r carrying 7 (fun env => callRoute (R := Unit) env literalAbove
        (RouteTree.candidateIndices literalAbove entryOrder) 64 r carrying) := by
  obtain ⟨r, built⟩ := Option.isSome_iff_exists.mp (show rooted.isSome by decide +kernel)
  have lost : (rooted.map fun r => (rootStops literalAbove ⟨64, "/a".toList⟩ r).head?.any (fun hits =>
      served (endOf r hits) && r.state.isSome && (setAlong (chainRoutes r hits) 7).isNone)) = some true := by
    decide +kernel
  rw [built, Option.map_some, Option.some.injEq] at lost
  obtain ⟨hits, first, bad⟩ := (Option.any_eq_true _ _).mp lost
  obtain ⟨bad, unset⟩ := Bool.and_eq_true_iff.mp bad
  obtain ⟨handles, state⟩ := Bool.and_eq_true_iff.mp bad
  have replaced : ¬ NotReplaced literalAbove 64 r carrying 7 := by
    intro kept
    rcases kept hits first handles with none_ | sets | absent
    · simp [none_] at state
    · exact sets (Option.isNone_iff_eq_none.mp unset)
    · exact absurd absent (by decide)
  refine ⟨r, built, ?_, ?_⟩
  · simp only [callConverted]
    exact fun sees => replaced ((seesLayeredRun literalAbove 64 r 7 rfl rfl).mp sees)
  · simp only [callRoute, callConverted]
    exact fun sees => replaced ((seesLayeredRun literalAbove 64 r 7 (addStateUri r carrying)
      (addStateBrought r carrying)).mp sees)

end Silent.StateLayers
