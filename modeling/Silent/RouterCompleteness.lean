import Silent.MiddlewareOnion

/-! When the router finds a handler. The dispatcher commits to the first chain at
whose end the path is used up, and only then asks for a handler; so it serves every
path that some chain can serve exactly when that first chain ends in a handler. The
look-ahead agrees with the dispatcher at a node under the same condition. -/
namespace Silent.RouterCompleteness
open ByteText PathSegment HttpRequest RouteBuilder RouteShape Dispatch SegmentSpec RouterSearch RouterRefinement RouteChains
open MiddlewareOnion

variable {H M V R : Type}

/- A part of the dispatcher, for every monad and every behaviour of handlers and
middlewares. -/
abbrev Run (H M V R : Type) := (m : Type → Type) → [Monad m] → Env H M V R m → m (SilentResult R)

def PassThrough {m : Type → Type} (env : Env H M V R m) : Prop :=
  ∀ mw req next, env.middleware mw req next = next req

def recording : Env H M V R (Traced (Event H M V)) where
  callHandlers map req := do
    tell [.served map req]
    pure (.error .notFound)
  middleware _ req next := next req
  panicked := pure (.error .notFound)

theorem recordingPasses : PassThrough (recording : Env H M V R (Traced (Event H M V))) := fun _ _ _ => rfl

def Reaches (run : Run H M V R) (map : HashMap Method H) : Prop :=
  ∃ bound, ∀ (m : Type → Type) [Monad m] (env : Env H M V R m), PassThrough env →
    run m env = env.callHandlers map bound

def Settles (run : Run H M V R) : Option (Route H M V) → Prop
  | some last => ∃ bound, ∀ (m : Type → Type) [Monad m] (env : Env H M V R m), PassThrough env →
      run m env = serve env last bound
  | none => ∀ (m : Type → Type) [Monad m] (env : Env H M V R m), PassThrough env →
      run m env = RouteTree.notFoundError

theorem settledReaches {run : Run H M V R} {last : Route H M V} (settled : Settles run (some last))
    (handles : served last = true) : Reaches run last.handler := by
  obtain ⟨bound, runs⟩ := settled
  refine ⟨bound, fun m _ env pass => ?_⟩
  rw [runs m env pass, serve]
  have occupied : last.handler.entries.isEmpty = false := by simpa [served] using handles
  simp [occupied]

def loud : Env H M V R Id :=
  ⟨fun _ _ => .error .bodyEmpty, fun _ req next => next req, .error .bodyEmpty⟩

theorem reachesSettled {run : Run H M V R} {stop : Option (Route H M V)} (settled : Settles run stop)
    {map : HashMap Method H} (reached : Reaches run map) : ∃ last ∈ stop, served last = true := by
  obtain ⟨bound, runs⟩ := reached
  have pass : PassThrough (loud : Env H M V R Id) := fun _ _ _ => rfl
  have answered := runs Id loud pass
  cases stop with
  | none =>
    rw [settled Id loud pass] at answered
    cases answered
  | some last =>
    refine ⟨last, rfl, ?_⟩
    obtain ⟨seen, ends⟩ := settled
    rw [ends Id loud pass, serve] at answered
    split at answered
    · cases answered
    · rename_i occupied
      simpa [served] using occupied

theorem enterPass {m : Type → Type} {env : Env H M V R m} (pass : PassThrough env) (r : Route H M V)
    (next : Request V → m (SilentResult R)) : enter env r next = next := by
  unfold enter
  induction r.middlewares with
  | nil => rfl
  | cons mw rest ih =>
    rw [List.foldr_cons, ih]
    funext req
    exact pass mw req next

theorem followSettles {plat : Platform} {full : Slice} {r : Route H M V} {rest : Text} {hits : List (Hit H M V)}
    (chain : Matches plat full r rest hits) (req : Request V) :
    Settles (R := R) (fun _ _ env => follow env full r hits req) (some (endOf r hits)) := by
  induction chain generalizing req with
  | stop ends => exact ⟨req, fun m _ env pass => rfl⟩
  | @child r c rest found hits mem matched below ih =>
    obtain ⟨bound, binds⟩ := bindParamsMatched matched req full
    obtain ⟨seen, runs⟩ := ih (addState c bound)
    refine ⟨seen, fun m _ env pass => ?_⟩
    have binds' : RouteTree.bindParams (segmentOf c) req found full = some bound := binds
    simp only [follow, binds', enterPass pass, endOf]
    exact runs m env pass

theorem answerSettles (plat : Platform) (full : Slice) (r : Route H M V) (rest : Text) (req : Request V) :
    Settles (R := R) (fun _ _ env => answer env plat full r rest req)
      ((stops plat full r rest).head?.map (endOf r)) := by
  unfold answer
  rw [firstStopHead]
  cases first : (stops plat full r rest).head? with
  | none => exact fun m _ env pass => rfl
  | some hits => exact followSettles (stopsMatch (List.mem_of_head? first)) req

theorem answerRootSettles (plat : Platform) (buffer : Nat) (r : Route H M V) (req : Request V) :
    Settles (R := R) (fun _ _ env => answerRoot env plat buffer r req)
      ((rootStops plat ⟨buffer, req.uriPath⟩ r).head?.map (endOf r)) := by
  unfold answerRoot rootStops
  dsimp only
  cases matched : matchAt plat ⟨buffer, req.uriPath⟩ r req.uriPath with
  | none => exact fun m _ env pass => rfl
  | some found =>
    obtain ⟨bound, binds⟩ := bindParamsMatched matched (arrive r ⟨buffer, req.uriPath⟩ req) ⟨buffer, req.uriPath⟩
    have binds' : RouteTree.bindParams (segmentOf r) (arrive r ⟨buffer, req.uriPath⟩ req) found ⟨buffer, req.uriPath⟩ =
        some bound := binds
    have below := answerSettles (R := R) plat ⟨buffer, req.uriPath⟩ r found.remain.text (addState r bound)
    simp only [binds']
    cases first : (stops plat ⟨buffer, req.uriPath⟩ r found.remain.text).head? with
    | none =>
      rw [first] at below
      intro m _ env pass
      simp only [enterPass pass]
      exact below m env pass
    | some hits =>
      rw [first] at below
      obtain ⟨seen, runs⟩ := below
      refine ⟨seen, fun m _ env pass => ?_⟩
      simp only [enterPass pass]
      exact runs m env pass

def Servable (plat : Platform) (full : Slice) (r : Route H M V) : Prop :=
  ∃ hits, RootMatches plat full r hits ∧ served (endOf r hits) = true

/- Completeness at one request: a path that some chain can serve reaches the handler
map of such a chain. -/
def Complete (R : Type) (plat : Platform) (order : RouteTree.HashOrder) (buffer : Nat) (r : Route H M V)
    (req : Request V) : Prop :=
  Servable plat ⟨buffer, req.uriPath⟩ r →
    ∃ hits, RootMatches plat ⟨buffer, req.uriPath⟩ r hits ∧ served (endOf r hits) = true ∧
      Reaches (R := R) (fun _ _ env => RouteTree.call env plat (RouteTree.candidateIndices plat order) buffer
        (RouteTree.convertToRouteTree r) req) (endOf r hits).handler

/- The look-ahead from one node and offset says yes exactly when the dispatcher from
there ends in a handler map. -/
def LookAheadExact (R : Type) (plat : Platform) (order : RouteTree.HashOrder) (full : Slice) (offset : Nat)
    (r : Route H M V) (inherited : List M) (req : Request V) : Prop :=
  RouteTree.pathCanResolve plat (RouteTree.candidateIndices plat order) (frozen r inherited) offset full = some true ↔
    ∃ map, Reaches (R := R) (fun _ _ env => RouteTree.callChildren env plat (RouteTree.candidateIndices plat order)
      (frozen r inherited) req offset full) map

theorem completeIff (plat : Platform) (order : RouteTree.HashOrder) (buffer : Nat) (r : Route H M V)
    (req : Request V) :
    Complete R plat order buffer r req ↔
      (Servable plat ⟨buffer, req.uriPath⟩ r →
        ∃ hits ∈ (rootStops plat ⟨buffer, req.uriPath⟩ r).head?, served (endOf r hits) = true) := by
  have settled := answerRootSettles (R := R) plat buffer r req
  unfold Complete
  simp only [callConverted]
  refine forall_congr' fun _ => ⟨?_, ?_⟩
  · rintro ⟨hits, _, _, reached⟩
    obtain ⟨last, ends, handles⟩ := reachesSettled settled reached
    obtain ⟨first, taken, rfl⟩ := Option.map_eq_some_iff.mp ends
    exact ⟨first, taken, handles⟩
  · rintro ⟨hits, first, handles⟩
    rw [first, Option.map_some] at settled
    exact ⟨hits, rootStopsMatch (List.mem_of_head? first), handles, settledReaches settled handles⟩

theorem lookAheadIff (plat : Platform) (order : RouteTree.HashOrder) (ptr : Nat) (before rest : Text)
    (r : Route H M V) (inherited : List M) (req : Request V) :
    LookAheadExact R plat order ⟨ptr, before ++ rest⟩ (byteLen before) r inherited req ↔
      ∀ hits ∈ (stops plat ⟨ptr, before ++ rest⟩ r rest).head?, served (endOf r hits) = true := by
  have inside : rest <:+ (Slice.mk ptr (before ++ rest)).text := List.suffix_append _ _
  have offset : byteLen (Slice.mk ptr (before ++ rest)).text - byteLen rest = byteLen before := suffixOffset rfl
  have scans := indicesScan plat order ⟨ptr, before ++ rest⟩ r
  have resolves := pathCanResolveCarried scans (frozenCarries r inherited) inside
  have settled := answerSettles (R := R) plat ⟨ptr, before ++ rest⟩ r rest req
  have runs : ∀ (m : Type → Type) [Monad m] (env : Env H M V R m),
      RouteTree.callChildren env plat (RouteTree.candidateIndices plat order) (frozen r inherited) req
        (byteLen before) ⟨ptr, before ++ rest⟩ = answer env plat ⟨ptr, before ++ rest⟩ r rest req := by
    intro m _ env
    rw [← offset]
    exact callChildrenCarried env scans (frozenCarries r inherited) inside req
  rw [offset, firstStopHead] at resolves
  unfold LookAheadExact
  simp only [resolves, runs]
  cases first : (stops plat ⟨ptr, before ++ rest⟩ r rest).head? with
  | none =>
    rw [first] at settled
    refine ⟨fun _ => nofun, fun _ => ⟨nofun, ?_⟩⟩
    rintro ⟨map, reached⟩
    obtain ⟨last, ends, _⟩ := reachesSettled settled reached
    cases ends
  | some hits =>
    rw [first, Option.map_some] at settled
    refine ⟨fun exact_ hits' found => ?_, fun handles => ⟨fun _ => ?_, fun _ => rfl⟩⟩
    · cases Option.some.inj found
      obtain ⟨map, reached⟩ := exact_.mp rfl
      obtain ⟨last, ends, handles⟩ := reachesSettled settled reached
      cases Option.some.inj ends
      exact handles
    · exact ⟨_, settledReaches settled (handles hits rfl)⟩

theorem servesWhenFirstStopServes (plat : Platform) (order : RouteTree.HashOrder) (buffer : Nat)
    (r : Route H M V) (req : Request V) :
    (Complete R plat order buffer r req ↔
      (Servable plat ⟨buffer, req.uriPath⟩ r →
        ∃ hits ∈ (rootStops plat ⟨buffer, req.uriPath⟩ r).head?, served (endOf r hits) = true)) ∧
    ∀ (node : Route H M V) (inherited : List M) (ptr : Nat) (before rest : Text) (req : Request V),
      LookAheadExact R plat order ⟨ptr, before ++ rest⟩ (byteLen before) node inherited req ↔
        ∀ hits ∈ (stops plat ⟨ptr, before ++ rest⟩ node rest).head?, served (endOf node hits) = true :=
  ⟨completeIff plat order buffer r req,
    fun node inherited ptr before rest req => lookAheadIff plat order ptr before rest node inherited req⟩

def shadowing : Option (Route Nat Unit Unit) := do
  let deep ← (Route.new "a/b".toList).get 1
  let wild ← (Route.new "<x>".toList).get 2
  let root ← (Route.new []).append deep
  root.append wild

theorem shadowedSiblingNotServed :
    ∃ r, shadowing = some r ∧
      ¬ Complete Unit literalAbove entryOrder 64 r
        (Request.fromParts .get "/a".toList) := by
  obtain ⟨r, built⟩ := Option.isSome_iff_exists.mp (show shadowing.isSome by decide +kernel)
  have wildServes : (shadowing.map fun r =>
      (rootStops literalAbove ⟨64, "/a".toList⟩ r).any (fun hits => served (endOf r hits))) = some true := by
    decide +kernel
  have firstEmpty : (shadowing.map fun r =>
      (rootStops literalAbove ⟨64, "/a".toList⟩ r).head?.all (fun hits => !served (endOf r hits))) =
        some true := by
    decide +kernel
  rw [built, Option.map_some, Option.some.injEq] at wildServes firstEmpty
  obtain ⟨hits, mem, handles⟩ := List.any_eq_true.mp wildServes
  refine ⟨r, built, fun complete => ?_⟩
  obtain ⟨first, taken, handles'⟩ := (completeIff _ _ _ _ _).mp complete ⟨hits, rootStopsMatch mem, handles⟩
  have head : (rootStops literalAbove ⟨64, "/a".toList⟩ r).head? = some first := taken
  rw [head] at firstEmpty
  simp [handles'] at firstEmpty

end Silent.RouterCompleteness
