import Silent.MiddlewareOnion
import Silent.RouteGraft

/-! The scope of a middleware hooked to a multi-segment route. `hook` puts it on the
node of the first segment, whereas `get` and `append` go to the node of the last one;
after the route is appended to a tree, the middleware runs for every request whose chain
passes the first segment. Requests whose chain does not pass it are not affected. -/
namespace Silent.MiddlewareScope
open ByteText PathSegment HttpRequest RouteBuilder RouteShape RouteTable Dispatch SegmentSpec RouterSearch RouterRefinement
open RouteChains RouteGraft MiddlewareOnion

variable {H M V R : Type}

def mounted (segs : List Text) (mw : M) (handler : H) : Option (Route H M V) :=
  ((Route.new (joinPath segs)).hook mw).get handler

def TreeOf (segs : List Text) (start : Route H M V) : Prop :=
  start = Route.new (joinPath segs) ∧ SegmentList segs ∨ start = Route.newRoot ∧ segs = [[]]

def startsWith (plat : Platform) (full : Slice) : List Text → Text → Bool
  | [], _ => true
  | seg :: segs, rest =>
      match matchSegment plat (parseSpecialSeg seg) false (suffixSlice full rest) full with
      | none => false
      | some found => startsWith plat full segs found.remain.text

def ran (trace : List (Event H M V)) : List M :=
  trace.filterMap (fun event => match event with
    | .enter mw => some mw
    | _ => none)

def reached (trace : List (Event H M V)) : List (HashMap Method H) :=
  trace.filterMap (fun event => match event with
    | .served map _ => some map
    | _ => none)

def trace (plat : Platform) (order : RouteTree.HashOrder) (buffer : Nat) (before : M → Request V → Request V)
    (after : M → Request V → SilentResult R → SilentResult R) (respond : HashMap Method H → Request V → SilentResult R)
    (r : Route H M V) (req : Request V) : List (Event H M V) :=
  events (RouteTree.call (onionEnv before after respond) plat (RouteTree.candidateIndices plat order) buffer
    (RouteTree.convertToRouteTree r) req)

def SameRun (R : Type) (plat : Platform) (order : RouteTree.HashOrder) (buffer : Nat) (r grown : Route H M V)
    (req : Request V) : Prop :=
  ∀ (before : M → Request V → Request V) (after : M → Request V → SilentResult R → SilentResult R) respond,
    ran (trace plat order buffer before after respond grown req) =
        ran (trace plat order buffer before after respond r req) ∧
      reached (trace plat order buffer before after respond grown req) =
        reached (trace plat order buffer before after respond r req)

theorem mountedShape {first second : Text} {others : List Text} (list : SegmentList (first :: second :: others)) (mw : M)
    (handler : H) :
    ∃ route : Route H M V, mounted (first :: second :: others) mw handler = some route ∧ route.path = first ∧
      mw ∈ route.middlewares ∧ Throughout Proper route := by
  have spine : Spine (first :: second :: others) ((Route.new (joinPath (first :: second :: others)) : Route H M V).hook mw) :=
    spineOf (newSpine list) rfl rfl rfl
  obtain ⟨route, done, spine', _⟩ := handlerSpine spine (·.insert .get handler)
  have built : mounted (first :: second :: others) mw handler = some route := by
    unfold mounted Route.get Route.onMethod
    exact done
  refine ⟨route, built, ?_, ?_, growsProper (.onMethod .get handler (.hook mw (.new _)) built)⟩
  · cases spine' with
    | step _ path => exact path
  · have kept : route.middlewares = ((Route.new (joinPath (first :: second :: others)) : Route H M V).hook mw).middlewares := by
      rcases updateHandlerCases done with ⟨_, rfl⟩ | ⟨_, _, _, _, _, _, _, rfl⟩ <;> rfl
    rw [kept]
    exact List.mem_append_right _ (List.mem_singleton_self mw)

theorem mergeChildHolds (cs : List (Route H M V)) (route : Route H M V) {mw : M} (mem : mw ∈ route.middlewares) :
    ∃ target ∈ Route.mergeChild cs route, target.path = route.path ∧ mw ∈ target.middlewares := by
  rcases mergeChildCases cs route with ⟨_, merged⟩ | ⟨left, existing, right, _, same, merged⟩
  · exact ⟨route, by simp [merged], rfl, mem⟩
  · refine ⟨Route.mergeFrom existing route, by simp [merged], ?_, ?_⟩
    · rw [mergeFromPath]
      exact (sameNodePath same).1
    · rw [mergeFromEq]
      exact List.mem_append_right _ mem

theorem passesHolds {plat : Platform} {full : Slice} {route r grown : Route H M V} {segs : List Text}
    (grafted : Grafted route segs r grown) (proper : Throughout Proper r) (named : Throughout Proper route) {mw : M}
    (mem : mw ∈ route.middlewares) {rest : Text} {hits : List (Hit H M V)} (chain : Matches plat full grown rest hits)
    {hit : Hit H M V} (at_ : hits[segs.length - 1]? = some hit) (path : hit.route.path = route.path) :
    mw ∈ hit.route.middlewares := by
  induction grafted generalizing rest hits with
  | @leaf seg r same =>
    cases chain with
    | stop ends => simp at at_
    | child child matched below =>
      cases Option.some.inj at_
      obtain ⟨target, listed, path', holds⟩ := mergeChildHolds r.children route mem
      have list := mergeChildProper (properChildren proper) named (mergeFromProper named)
      rw [List.inj_on_of_nodup_map list.1 child listed (path.trans path'.symm)]
      exact holds
  | @step seg segs r c c' same children below ih =>
    obtain ⟨later, head⟩ := graftedHead below
    cases chain with
    | stop ends => simp at at_
    | @child _ d _ found tail child matched deeper =>
      cases List.mem_singleton.mp child
      refine ih (throughoutBelow proper c (by simp [children])) deeper ?_
      rw [head] at at_ ⊢
      simpa using at_

theorem ranWrapped (mws : List M) (last : Route H M V) (seen : Request V) : ran (wrapped mws (core last seen)) = mws := by
  have enters : ∀ mws : List M, ran (mws.map (Event.enter : M → Event H M V)) = mws := fun mws => by
    simp [ran, List.filterMap_map]
  have exits : ran ((mws.map (Event.exit : M → Event H M V)).reverse) = [] := by
    simp [ran]
  have inner : ran (core last seen) = [] := by
    unfold core
    split <;> rfl
  unfold ran at *
  rw [wrapped, List.filterMap_append, List.filterMap_append, enters, exits, inner]
  simp

theorem ranEmpty (mws : List M) : ran (wrapped mws ([] : List (Event H M V))) = mws := by
  have nothing : core (Route.newRoot : Route H M V) (Request.fromParts .get []) = [] := rfl
  rw [← nothing, ranWrapped]

theorem ranOwn {P : Route H M V → Prop} {plat : Platform} {order : RouteTree.HashOrder} {buffer : Nat}
    {before : M → Request V → Request V} {after : M → Request V → SilentResult R → SilentResult R}
    {respond : HashMap Method H → Request V → SilentResult R} {r : Route H M V} {req : Request V} (all : Throughout P r)
    {mw : M} (entered : mw ∈ ran (trace plat order buffer before after respond r req)) :
    ∃ node, P node ∧ mw ∈ node.middlewares := by
  rw [trace, callConverted] at entered
  rcases rootEvents before after respond plat buffer r req with ⟨_, _, same⟩ | ⟨_, _, same⟩ | ⟨hits, seen, first, same⟩
  · rw [same] at entered
    cases entered
  · rw [same, ranEmpty] at entered
    exact ⟨r, throughoutHere all, entered⟩
  · rw [same, ranWrapped, List.mem_append] at entered
    rcases entered with own | below
    · exact ⟨r, throughoutHere all, own⟩
    · obtain ⟨hit, listed, held⟩ := List.mem_flatMap.mp below
      obtain ⟨_, _, chain⟩ := rootStopsMatch (List.mem_of_head? first)
      exact ⟨hit.route, matchesThroughout all chain hit listed, held⟩

/- The condition under which an append leaves a request alone. -/
def Unaffected (plat : Platform) (buffer : Nat) (segs : List Text) (first : Text) (r grown : Route H M V) (path : Text) :
    Prop :=
  Avoids plat ⟨buffer, path⟩ segs first grown ∧ RootSettled r path

section
variable {plat : Platform} {order : RouteTree.HashOrder} {buffer : Nat} {route r grown : Route H M V}
  {segs : List Text} {req : Request V}

theorem unaffectedSame (grafted : Grafted route segs r grown) (proper : Throughout Proper r)
    (mounted : Throughout Proper route) (named : ∀ seg ∈ segs.tail, seg ≠ [])
    (unaffected : Unaffected plat buffer segs route.path r grown req.uriPath) :
    SameRun R plat order buffer r grown req := by
  intro before after respond
  have same := answerGrafted (onionEnv before after respond) grafted proper mounted named unaffected.1 unaffected.2
  simp only [trace, callConverted, same, and_self]

theorem sameAvoids (grafted : Grafted route segs r grown) (proper : Throughout Proper r)
    (mounted : Throughout Proper route) {mw : M} (mem : mw ∈ route.middlewares)
    (fresh : Throughout (fun node => mw ∉ node.middlewares) r) (same : SameRun R plat order buffer r grown req) :
    Avoids plat ⟨buffer, req.uriPath⟩ segs route.path grown := by
  intro hits first hit at_ path
  obtain ⟨_, _, chain⟩ := rootStopsMatch (List.mem_of_head? first)
  have held := passesHolds grafted proper mounted mem chain at_ path
  obtain ⟨middlewares, _⟩ := same (fun _ req => req) (fun _ _ res => res) (fun _ _ => .error .notFound)
  obtain ⟨seen, onion⟩ := stopEvents (fun _ req => req) (fun _ _ res => res)
    (fun _ _ => (.error .notFound : SilentResult R)) plat buffer first
  have entered : mw ∈ ran (trace plat order buffer (fun _ req => req) (fun _ _ res => res)
      (fun _ _ => (.error .notFound : SilentResult R)) grown req) := by
    rw [trace, callConverted, onion, ranWrapped]
    exact List.mem_append_right _ (List.mem_flatMap.mpr ⟨hit, List.mem_of_getElem? at_, held⟩)
  rw [middlewares] at entered
  obtain ⟨node, absent, held'⟩ := ranOwn fresh entered
  exact absent held'

theorem sameSettled (grafted : Grafted route segs r grown) (same : SameRun R plat order buffer r grown req) :
    RootSettled r req.uriPath := by
  intro childless path
  by_contra open_
  obtain ⟨busy, longer⟩ := not_or.mp open_
  obtain ⟨more, longer⟩ := not_or.mp longer
  obtain ⟨missed, gained⟩ : matchAt plat ⟨buffer, req.uriPath⟩ r req.uriPath = none ∧ _ :=
    gainedRoot grafted childless path more longer
  obtain ⟨middlewares, _⟩ := same (fun _ req => req) (fun _ _ res => res) (fun _ _ => .error .notFound)
  simp only [trace, callConverted] at middlewares
  have before : ran (events (answerRoot (onionEnv (fun _ req => req) (fun _ _ res => res)
      (fun _ _ => (.error .notFound : SilentResult R))) plat buffer r req)) = [] := by
    simp only [answerRoot, missed, eventsNotFound]
    rfl
  rw [before] at middlewares
  rcases rootEvents (fun _ req => req) (fun _ _ res => res) (fun _ _ => (.error .notFound : SilentResult R)) plat buffer
    grown req with ⟨missed', _⟩ | ⟨_, _, onion⟩ | ⟨hits, seen, _, onion⟩
  · rw [gained] at missed'
    cases missed'
  · rw [onion, ranEmpty, (graftedAlike grafted).middlewares] at middlewares
    exact busy middlewares
  · rw [onion, ranWrapped, (graftedAlike grafted).middlewares] at middlewares
    exact busy (List.append_eq_nil_iff.mp middlewares).1

end

/- Scoping at one request: if its path does not start with all segments of the tree and
of the mounted route, the append changes neither the middlewares run nor the handler. -/
def Scoped (R : Type) (plat : Platform) (order : RouteTree.HashOrder) (buffer : Nat) (segs : List Text)
    (r grown : Route H M V) (req : Request V) : Prop :=
  startsWith plat ⟨buffer, req.uriPath⟩ segs req.uriPath = false → SameRun R plat order buffer r grown req

theorem treeSpine {segs : List Text} {start r : Route H M V} (tree : TreeOf segs start) (grown : Grows start r) :
    Spine segs r ∧ ∀ seg ∈ segs.tail, seg ≠ [] := by
  rcases tree with ⟨rfl, list⟩ | ⟨rfl, rfl⟩
  · refine ⟨growsSpine grown (newSpine list), fun seg mem => ?_⟩
    rcases list with rfl | ⟨_, named⟩
    · cases mem
    · exact (named seg (List.mem_of_mem_tail mem)).1
  · exact ⟨growsSpine grown (.leaf List.not_mem_nil rfl rfl), nofun⟩

theorem hookScopedUnlessPassed {segs : List Text} {start r : Route H M V} (tree : TreeOf segs start)
    (built : Grows start r) {first second : Text} {others : List Text} (list : SegmentList (first :: second :: others))
    (mw : M) (handler : H) (plat : Platform) (order : RouteTree.HashOrder) (buffer : Nat) (req : Request V) :
    ∃ route grown, mounted (first :: second :: others) mw handler = some route ∧ r.append route = some grown ∧
      ((startsWith plat ⟨buffer, req.uriPath⟩ (segs ++ first :: second :: others) req.uriPath = false →
          Unaffected plat buffer segs first r grown req.uriPath) →
        Scoped R plat order buffer (segs ++ first :: second :: others) r grown req) ∧
      (Throughout (fun node => mw ∉ node.middlewares) r →
        Scoped R plat order buffer (segs ++ first :: second :: others) r grown req →
        startsWith plat ⟨buffer, req.uriPath⟩ (segs ++ first :: second :: others) req.uriPath = false →
          Unaffected plat buffer segs first r grown req.uriPath) := by
  obtain ⟨spine, named⟩ := treeSpine tree built
  obtain ⟨route, made, path, mem, mountedProper⟩ := mountedShape (V := V) list mw handler
  obtain ⟨grown, appended, grafted⟩ := appendGrafts spine route
  have proper := growsProper built
  refine ⟨route, grown, made, appended, fun unaffected outside => ?_, fun fresh holds outside => ?_⟩
  · exact unaffectedSame grafted proper mountedProper named (path ▸ unaffected outside)
  · rw [← path]
    exact ⟨sameAvoids grafted proper mountedProper mem fresh (holds outside), sameSettled grafted (holds outside)⟩

theorem hookScopedAdmin :
    ∃ route grown : Route Nat Nat Unit, mounted ["api".toList, "admin".toList] 7 2 = some route ∧
      (Route.new [] : Route Nat Nat Unit).append route = some grown ∧
      ((startsWith literalAbove ⟨64, "/other".toList⟩ [[], "api".toList, "admin".toList] "/other".toList = false →
          Unaffected literalAbove 64 [[]] "api".toList (Route.new []) grown "/other".toList) →
        Scoped Unit literalAbove entryOrder 64 [[], "api".toList, "admin".toList] (Route.new []) grown
          (Request.fromParts .get "/other".toList)) := by
  obtain ⟨route, grown, made, appended, scopes, _⟩ := hookScopedUnlessPassed (R := Unit)
    (.inl ⟨rfl, .inl rfl⟩ : TreeOf [[]] (Route.new [])) (.new _)
    (.inr ⟨by decide, by decide⟩ : SegmentList ["api".toList, "admin".toList]) 7 2 literalAbove entryOrder 64
    (Request.fromParts .get "/other".toList)
  exact ⟨route, grown, made, appended, scopes⟩

def publicApi : Option (Route Nat Nat Unit) := do
  let public_ ← (Route.new "api/public".toList).get 1
  (Route.new []).append public_

def withAdmin : Option (Route Nat Nat Unit) := do
  let api ← publicApi
  let admin ← mounted ["api".toList, "admin".toList] 7 2
  api.append admin

def watch (r : Route Nat Nat Unit) : List Nat :=
  ran (trace literalAbove entryOrder 64 (fun _ req => req) (fun _ _ res => res)
    (fun _ _ => (.error .notFound : SilentResult Unit)) r (Request.fromParts .get "/api/public".toList))

theorem publicRunsAdminHook :
    ∃ r grown, publicApi = some r ∧ withAdmin = some grown ∧
      ¬ Scoped Unit literalAbove entryOrder 64 [[], "api".toList, "admin".toList] r grown
        (Request.fromParts .get "/api/public".toList) := by
  obtain ⟨r, built⟩ := Option.isSome_iff_exists.mp (show publicApi.isSome by decide +kernel)
  obtain ⟨grown, appended⟩ := Option.isSome_iff_exists.mp (show withAdmin.isSome by decide +kernel)
  have before : publicApi.map watch = some [] := by decide +kernel
  have after : withAdmin.map watch = some [7] := by decide +kernel
  rw [built, Option.map_some, Option.some.injEq] at before
  rw [appended, Option.map_some, Option.some.injEq] at after
  refine ⟨r, grown, built, appended, fun holds => ?_⟩
  have outside : startsWith literalAbove ⟨64, "/api/public".toList⟩ [[], "api".toList, "admin".toList]
      "/api/public".toList = false := by decide +kernel
  obtain ⟨middlewares, _⟩ := holds outside (fun _ req => req) (fun _ _ res => res) (fun _ _ => .error .notFound)
  have same : watch grown = watch r := middlewares
  rw [before, after] at same
  cases same

end Silent.MiddlewareScope
