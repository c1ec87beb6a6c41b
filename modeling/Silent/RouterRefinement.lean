import Silent.RouterSearch

/-! The dispatcher on a frozen tree follows the chain the search finds: it binds the
parameters of each route on the way, extends the state, enters the middlewares of that
route alone, and ends in the handler map of the last one, if that map has a handler. -/
namespace Silent.RouterRefinement
open ByteText PathSegment HttpRequest RouteBuilder RouteShape Dispatch SegmentSpec RouterSearch

variable {H M V R : Type} {m : Type → Type} [Monad m]

def enter (env : Env H M V R m) (r : Route H M V) (next : Request V → m (SilentResult R)) :
    Request V → m (SilentResult R) :=
  r.middlewares.foldr (fun mw next req => env.middleware mw req next) next

def addState (r : Route H M V) (req : Request V) : Request V :=
  match r.state with
  | some state => {req with state := req.state.extendFrom state}
  | none => req

def serve (env : Env H M V R m) (r : Route H M V) (req : Request V) : m (SilentResult R) :=
  if r.handler.entries.isEmpty then RouteTree.notFoundError else env.callHandlers r.handler req

def follow (env : Env H M V R m) (full : Slice) (r : Route H M V) :
    List (Hit H M V) → Request V → m (SilentResult R)
  | [], req => serve env r req
  | hit :: hits, req =>
      match RouteTree.bindParams (segmentOf hit.route) req hit.found full with
      | none => RouteTree.notFoundError
      | some req => enter env hit.route (follow env full hit.route hits) (addState hit.route req)

def answer (env : Env H M V R m) (plat : Platform) (full : Slice) (r : Route H M V) (rest : Text)
    (req : Request V) : m (SilentResult R) :=
  match firstStop plat full r rest with
  | some hits => follow env full r hits req
  | none => RouteTree.notFoundError

def arrive (r : Route H M V) (full : Slice) (req : Request V) : Request V :=
  (match r.state with
    | some state => {req with state := state}
    | none => req).setPathSource full

def answerRoot (env : Env H M V R m) (plat : Platform) (buffer : Nat) (r : Route H M V) (req : Request V) :
    m (SilentResult R) :=
  let full : Slice := ⟨buffer, req.uriPath⟩
  match matchAt plat full r full.text with
  | none => RouteTree.notFoundError
  | some found =>
      match RouteTree.bindParams (segmentOf r) (arrive r full req) found full with
      | none => RouteTree.notFoundError
      | some req => enter env r (answer env plat full r found.remain.text) (addState r req)

def committed (current : List M) (hits : List (Hit H M V)) : Option (RouteTree H M V × PathMatch) :=
  hits.head?.map (fun hit => (frozen hit.route current, hit.found))

theorem chooseChildCarried {plat : Platform} {full : Slice} {candidates : RouteTree.Candidates H M V}
    {r : Route H M V} (scans : Throughout (Scans plat full candidates) r) {node : RouteTree H M V} {inherited : List M}
    (carries : Carries node r inherited) {rest : Text} (inside : rest <:+ full.text) :
    RouteTree.chooseChild plat candidates node (suffixSlice full rest) full =
      some ((tried r rest).findSome? (fun c => (stopVia plat full rest c).bind (committed (inherited ++ r.middlewares)))) := by
  obtain ⟨here, below⟩ := scans
  apply here carries
  · intro i c found
    simp only [carriedChild carries found, callPathOnlyFrozen, stopVia]
    cases matched : matchAt plat full c rest with
    | none => rfl
    | some candidate =>
      have resolved := pathCanResolveCarried (below c (List.mem_of_getElem? found))
        (frozenCarries c (inherited ++ r.middlewares)) (matchAtSuffix matched inside)
      simp only [remainOffset, resolved, Option.bind_eq_bind, Option.bind_some]
      cases firstStop plat full c candidate.remain.text <;> rfl
  · intro c missed
    simp [stopVia, missed]

theorem stopViaHead {plat : Platform} {full : Slice} {rest : Text} {c : Route H M V} {hits : List (Hit H M V)}
    (stop : stopVia plat full rest c = some hits) :
    ∃ found tail, hits = ⟨c, rest, found⟩ :: tail ∧ matchAt plat full c rest = some found ∧
      firstStop plat full c found.remain.text = some tail := by
  simp only [stopVia, Option.bind_eq_bind, Option.bind_eq_some_iff, Option.some.injEq] at stop
  obtain ⟨found, matched, tail, below, rfl⟩ := stop
  exact ⟨found, tail, rfl, matched, below⟩

/- The candidate the dispatcher commits to is the first hit of the first stop. -/
theorem committedFirst (plat : Platform) (full : Slice) (rest : Text) (current : List M)
    (cs : List (Route H M V)) :
    cs.findSome? (fun c => (stopVia plat full rest c).bind (committed current)) =
      (cs.findSome? (stopVia plat full rest)).bind (committed current) := by
  induction cs with
  | nil => rfl
  | cons c cs ih =>
    rw [List.findSome?_cons, List.findSome?_cons]
    cases stop : stopVia plat full rest c with
    | none => exact ih
    | some hits =>
      obtain ⟨found, tail, rfl, _⟩ := stopViaHead stop
      rfl

theorem ownMiddlewares (r : Route H M V) (inherited : List M) :
    (frozen r inherited).middlewares.drop (frozen r inherited).middlewareStart = r.middlewares := by
  rw [frozenEq]
  simp [arcOf]

theorem callWithPathFrozen {env : Env H M V R m} {plat : Platform} {candidates : RouteTree.Candidates H M V}
    {full : Slice} {r : Route H M V} {inherited : List M} {offset : Nat} {next : Request V → m (SilentResult R)}
    (node : ∀ req, RouteTree.callChildren env plat candidates (frozen r inherited) req offset full = next req)
    (arc : ∀ req, RouteTree.callChildren env plat candidates (arcOf r inherited) req offset full = next req)
    (req : Request V) :
    RouteTree.callWithPath env plat candidates (frozen r inherited) req offset full =
      enter env r next (addState r req) := by
  have start : (frozen r inherited).middlewareStart ≤ (frozen r inherited).middlewares.length := by
    rw [frozenEq]
    simp [arcOf]
  have state : RouteTree.extendState (frozen r inherited) req = addState r req := by
    rw [frozenEq]
    rfl
  have kept : (frozen r inherited).selfArc = some (arcOf r inherited) := by rw [frozenEq]
  rw [RouteTree.callWithPath, if_pos start, state]
  simp only [ownMiddlewares]
  split
  · rename_i none_
    rw [node, enter, List.isEmpty_iff.mp none_]
    rfl
  · split
    · rename_i arc' kept'
      cases Option.some.inj (kept.symm.trans kept')
      rw [Next.callBuild, enter, funext arc]
    · rename_i missing
      rw [kept] at missing
      contradiction

theorem callChildrenCarried (env : Env H M V R m) {plat : Platform} {full : Slice}
    {candidates : RouteTree.Candidates H M V} {r : Route H M V} (scans : Throughout (Scans plat full candidates) r) :
    ∀ {node : RouteTree H M V} {inherited : List M}, Carries node r inherited →
      ∀ {rest : Text}, rest <:+ full.text → ∀ req : Request V,
        RouteTree.callChildren env plat candidates node req (byteLen full.text - byteLen rest) full =
          answer env plat full r rest req := by
  induction scans with
  | @node r here below ih =>
    intro node inherited carries rest inside req
    have chosen := chooseChildCarried (.node here below) carries inside
    rw [committedFirst] at chosen
    rw [RouteTree.callChildrenEq, sliceFromRest inside, answer, firstStopEq]
    simp only [chosen]
    cases deeper : (tried r rest).findSome? (stopVia plat full rest) with
    | none =>
      simp only [Option.bind_none, carries.handler, carries.hasHandler, carries.segment, suffixSliceText, Option.none_or]
      by_cases empty : rest = []
      · simp [empty, follow, serve]
      · cases (segmentOf r).isFullPath <;> simp [empty, follow, serve]
    | some hits =>
      obtain ⟨c, mem, stop⟩ := List.exists_of_findSome?_eq_some deeper
      obtain ⟨found, tail, rfl, matched, deeper⟩ := stopViaHead stop
      have later := matchAtSuffix matched inside
      simp only [Option.bind_some, committed, List.head?_cons, Option.map_some, (frozenCarries c _).segment,
        Option.some_or, follow]
      cases RouteTree.bindParams (segmentOf c) req found full with
      | none => rfl
      | some bound =>
        have goesOn : ∀ req, answer env plat full c found.remain.text req = follow env full c tail req := by
          intro req
          rw [answer, deeper]
        refine callWithPathFrozen (fun req => ?_) (fun req => ?_) bound
        · exact (ih c (triedMem mem) (frozenCarries c _) later req).trans (goesOn req)
        · exact (ih c (triedMem mem) (arcCarries c _) later req).trans (goesOn req)

/- The whole dispatcher: what `RouteTree::call` does on the converted tree, whichever
candidates it scans. -/
theorem callScanned (env : Env H M V R m) {plat : Platform} {candidates : RouteTree.Candidates H M V} {buffer : Nat}
    {r : Route H M V} {req : Request V} (scans : Throughout (Scans plat ⟨buffer, req.uriPath⟩ candidates) r) :
    RouteTree.call env plat candidates buffer (RouteTree.convertToRouteTree r) req = answerRoot env plat buffer r req := by
  have whole : RouteTree.convertToRouteTree r = frozen r [] := rfl
  have state : (frozen r []).state = r.state := by rw [frozenEq]; rfl
  have root : ∀ full : Slice, RouteTree.callPathOnly plat (frozen r []) full full = matchAt plat full r full.text := by
    intro full
    rw [← callPathOnlyFrozen plat full r [] full.text, suffixSliceSelf]
  have shape : RouteTree.call env plat candidates buffer (frozen r []) req =
      match RouteTree.callPathOnly plat (frozen r []) ⟨buffer, req.uriPath⟩ ⟨buffer, req.uriPath⟩ with
      | none => RouteTree.notFoundError
      | some candidate =>
          match RouteTree.bindParams (frozen r []).segment (arrive r ⟨buffer, req.uriPath⟩ req) candidate
            ⟨buffer, req.uriPath⟩ with
          | none => RouteTree.notFoundError
          | some bound => RouteTree.callWithPath env plat candidates (frozen r []) bound
              (remainOffset ⟨buffer, req.uriPath⟩ candidate.remain) ⟨buffer, req.uriPath⟩ := by
    rw [RouteTree.call, state]
    unfold arrive
    cases r.state <;> rfl
  rw [whole, shape, root, (frozenCarries r []).segment, answerRoot]
  dsimp only
  cases found : matchAt plat ⟨buffer, req.uriPath⟩ r req.uriPath with
  | none => rfl
  | some candidate =>
    have later := matchAtSuffix found List.suffix_rfl
    dsimp only
    cases RouteTree.bindParams (segmentOf r) (arrive r ⟨buffer, req.uriPath⟩ req) candidate ⟨buffer, req.uriPath⟩ with
    | none => rfl
    | some bound =>
      refine callWithPathFrozen (fun req => ?_) (fun req => ?_) bound
      · exact callChildrenCarried env scans (frozenCarries r []) later req
      · exact callChildrenCarried env scans (arcCarries r []) later req

theorem indicesScan (plat : Platform) (order : RouteTree.HashOrder) (full : Slice) (r : Route H M V) :
    Throughout (Scans plat full (RouteTree.candidateIndices plat order)) r :=
  throughoutOf (candidateIndicesScan plat order full) r

theorem callConverted (env : Env H M V R m) (plat : Platform) (order : RouteTree.HashOrder) (buffer : Nat)
    (r : Route H M V) (req : Request V) :
    RouteTree.call env plat (RouteTree.candidateIndices plat order) buffer (RouteTree.convertToRouteTree r) req =
      answerRoot env plat buffer r req :=
  callScanned env (indicesScan plat order _ r)

end Silent.RouterRefinement
