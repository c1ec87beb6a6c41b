import Silent.TypedParams

/-! Handlers at a wildcard below a mount, and perhaps at nodes above it: which of them the router
comes to, for every method and in whatever monad. -/
namespace Silent.MountedHandlers
open ByteText PathSegment HttpRequest RouteBuilder RouteShape Dispatch SegmentSpec RouterSearch RouterRefinement RouteTable
open RouteChains RouteGraft RouterCompleteness RouteRegistration MiddlewareOnion PathCaptures TypedParams

variable {H M V R : Type}

def starPath : Text := "<path:**>".toList

def pathKey : Text := "path".toList

def asString : PathParam → Option Text
  | .str value | .path value => value.asStr
  | _ => none

def pathParam (req : Request V) : Option Text := (req.pathParams.lookup pathKey).bind asString

def accepts (plat : Platform) : SpecialSeg → Text → Bool
  | .root, _ | .path _, _ | .fullPath _, _ => true
  | .static value, piece => piece = value
  | .string _, piece => piece ≠ []
  | .int _, piece | .i32 _, piece => piece ≠ [] && (parseI32 piece).isSome
  | .i64 _, piece => piece ≠ [] && (parseI64 piece).isSome
  | .u64 _, piece => piece ≠ [] && (parseU64 piece).isSome
  | .u32 _, piece => piece ≠ [] && (parseU32 piece).isSome
  | .uuid _, piece => piece ≠ [] && (plat.parseUuid piece).isSome

/- What the segments of a URL leave of a path, as `**` captures it. -/
def captured (plat : Platform) : List Text → Text → Option Text
  | [], rest => some (trimSlash rest)
  | seg :: mount, rest =>
      if seg = [] then captured plat mount rest
      else if accepts plat (parseSpecialSeg seg) (firstSegment rest) then captured plat mount (afterSegment rest)
      else none

/- Routes one below the other, down to a wildcard with these handlers; those of the nodes above it are `own`. -/
inductive Passage (map : HashMap Method H) (own : HashMap Method H → Prop) : List Text → Route H M V → Prop
  | leaf {r} (path : r.path = starPath) (childless : r.children = []) (handler : r.handler = map) : Passage map own [] r
  | step {seg mount r c} (plain : '/' ∉ seg) (path : r.path = seg) (children : r.children = [c]) (held : own r.handler)
      (below : Passage map own mount c) : Passage map own (seg :: mount) r

abbrev Shaft (map : HashMap Method H) : List Text → Route H M V → Prop := Passage map (· = ∅)

inductive Posts (own : HashMap Method H → Prop) : List Text → Route H M V → Prop
  | leaf {seg r} (plain : '/' ∉ seg) (path : r.path = seg) (childless : r.children = []) (held : own r.handler) : Posts own [seg] r
  | step {seg segs r c} (plain : '/' ∉ seg) (path : r.path = seg) (children : r.children = [c]) (held : own r.handler)
      (below : Posts own segs c) : Posts own (seg :: segs) r

theorem linePosts {own : HashMap Method H → Prop} {segs : List Text} {r : Route H M V} (line : Line segs ∅ r) (idle : own ∅) :
    Posts own segs r := by
  generalize empty : (∅ : HashMap Method H) = map at line
  induction line with
  | leaf plain path created childless handler => exact .leaf plain path childless (by rw [handler, ← empty]; exact idle)
  | step plain path created children none below ih => exact .step plain path children (by rw [none]; exact idle) (ih empty)

theorem headPosts {own : HashMap Method H → Prop} {segs : List Text} {r : Route H M V} (posts : Posts own segs r)
    {handlers : HashMap Method H} (held : own handlers) : Posts own segs {r with handler := handlers} := by
  cases posts with
  | leaf plain path childless _ => exact .leaf plain path childless held
  | step plain path children _ below => exact .step plain path children held below

theorem mergeFirst (route : Route H M V) : Route.mergeChild [] route = [route] := by
  rw [Route.mergeChild]
  rfl

theorem graftedPassage {map : HashMap Method H} {own : HashMap Method H → Prop} {segs mount : List Text} {r route grown : Route H M V}
    (posts : Posts own segs r) (grafted : Grafted route segs r grown) (passage : Passage map own mount route) :
    Passage map own (segs ++ mount) grown := by
  induction posts generalizing grown with
  | @leaf seg r plain path childless held =>
    cases grafted with
    | leaf => exact .step plain path (by rw [childless, mergeFirst]) held passage
    | step _ _ below => cases below
  | @step seg segs r c plain path children held below ih =>
    cases grafted with
    | leaf => cases below
    | @step _ _ _ c' grown _ children' below' =>
      rw [children] at children'
      cases List.singleton_inj.mp children'
      exact .step plain path rfl held (ih below')

theorem starPassage (own : HashMap Method H → Prop) (handlers : HashMap Method H) :
    Passage handlers own [] ({(Route.new starPath : Route H M V) with handler := handlers}) := by
  have shape : (Route.new starPath : Route H M V) = Route.single starPath starPath := by
    rw [Route.new]
    rfl
  rw [shape]
  exact .leaf rfl rfl rfl

theorem graftedShaft {map : HashMap Method H} {segs mount : List Text} {r route grown : Route H M V} (line : Line segs ∅ r)
    (grafted : Grafted route segs r grown) (shaft : Shaft map mount route) : Shaft map (segs ++ mount) grown :=
  graftedPassage (linePosts line rfl) grafted shaft

theorem appendShaft {map : HashMap Method H} {mount : List Text} {url : Text} {route site : Route H M V}
    (built : (Route.new url).append route = some site) (shaft : Shaft map mount route) :
    Shaft map (nodeKey url ++ mount) site := by
  have tidy : Tidy url := by
    by_contra untidy
    rw [Route.append, (untidySearch untidy).2] at built
    cases built
  have line := tidyLine (H := H) (M := M) (V := V) tidy
  obtain ⟨grown, same, grafted⟩ := appendGrafts (lineSpine line) route
  cases Option.some.inj (same.symm.trans built)
  exact graftedShaft line grafted shaft

theorem capturedKey (plat : Platform) (url path : Text) :
    captured plat (nodeKey url) path = captured plat (segments url) path := by
  unfold nodeKey
  split
  · rename_i nothing
    rw [nothing]
    rfl
  · rfl

theorem capturedSlash (plat : Platform) (mount : List Text) : captured plat mount ['/'] = captured plat mount [] := by
  induction mount with
  | nil => rfl
  | cons seg mount ih =>
    rw [captured, captured, ih]
    rfl

theorem firstStatic {trimmed value after : Text} (plain : '/' ∉ value) :
    trimmed = value ∧ after = [] ∨ trimmed = value ++ '/' :: after ↔
      (trimmed = value ∨ '/' ∈ trimmed) ∧ (splitFirst '/' trimmed).1 = value ∧ (splitFirst '/' trimmed).2 = after := by
  constructor
  · rintro (⟨rfl, rfl⟩ | rfl)
    · rw [splitFirstAbsent plain]
      exact ⟨.inl rfl, rfl, rfl⟩
    · rw [splitFirstAppend plain]
      exact ⟨.inr (by simp), rfl, rfl⟩
  · rintro ⟨either, first, rest⟩
    by_cases slash : '/' ∈ trimmed
    · exact .inr (by rw [← first, ← rest]; exact (splitFirstAt slash).1)
    · have same := either.resolve_right slash
      rw [splitFirstAbsent slash] at rest
      exact .inl ⟨same, rest.symm⟩

theorem staticSteps (plat : Platform) {value : Text} (named : value ≠ []) (plain : '/' ∉ value) (path : Slice) :
    (matchStaticSegment plat value path).map Slice.text =
      if firstSegment path.text = value then some (afterSegment path.text) else none := by
  have spec := fun after => (matchStaticText plat named path after).trans (firstStatic plain)
  split
  · rename_i first
    refine (spec _).mpr ⟨?_, first, rfl⟩
    by_cases slash : '/' ∈ trimSlash path.text
    · exact .inr slash
    · rw [firstSegment, splitFirstAbsent slash] at first
      exact .inl first
  · rename_i other
    cases matched : (matchStaticSegment plat value path).map Slice.text with
    | none => rfl
    | some after => exact absurd ((spec after).mp matched).2.1 other

theorem parsedSteps {α : Type} (plat : Platform) (parse : Text → Option α) (capture : α → PathMatchCapture) (path : Slice) :
    (matchParsed plat parse capture path).map (fun found => found.remain.text) =
      if (decide (firstSegment path.text ≠ []) && (parse (firstSegment path.text)).isSome) = true then some (afterSegment path.text)
      else none := by
  obtain ⟨first, after⟩ := stripOneSegmentText plat path
  simp only [matchParsed, first]
  by_cases empty : firstSegment path.text = []
  · simp [empty]
  · cases parsed : parse (firstSegment path.text) <;> simp [empty, after]

theorem matchSteps (plat : Platform) {seg : Text} (named : seg ≠ []) (plain : '/' ∉ seg) (childless : Bool) (path full : Slice) :
    (matchSegment plat (parseSpecialSeg seg) childless path full).map (fun found => found.remain.text) =
      if accepts plat (parseSpecialSeg seg) (firstSegment path.text) then some (afterSegment path.text) else none := by
  obtain ⟨first, after⟩ := stripOneSegmentText plat path
  cases segment : parseSpecialSeg seg with
  | root =>
    unfold parseSpecialSeg at segment
    rw [if_neg named] at segment
    split at segment
    · split at segment <;> cases segment
    · cases segment
  | static value =>
    have same : value = seg := by
      unfold parseSpecialSeg at segment
      rw [if_neg named] at segment
      split at segment
      · split at segment <;> cases segment
      · exact (SpecialSeg.static.inj segment).symm
    subst same
    have steps := staticSteps plat named plain path
    simp only [accepts, decide_eq_true_eq]
    rw [← steps, matchSegment, Option.map_map]
    rfl
  | string key =>
    simp only [matchSegment, first, accepts, decide_not, Bool.not_eq_true', decide_eq_false_iff_not]
    split <;> simp_all
  | path key | fullPath key => simp [matchSegment, accepts, after]
  | int key | i32 key | i64 key | u64 key | u32 key | uuid key =>
    simp only [matchSegment, accepts]
    exact parsedSteps plat _ _ path

theorem starSegment {r : Route H M V} (path : r.path = starPath) : segmentOf r = .fullPath pathKey := by
  rw [segmentOf, path]
  rfl

def Keyed (r : Route H M V) (rest : Text) : Prop :=
  (segmentOf r).asStaticKey = none ∨ (segmentOf r).asStaticKey = some (firstSegment rest)

theorem nodeMatch (plat : Platform) (full : Slice) {seg : Text} {r c : Route H M V} (plain : '/' ∉ seg) (path : r.path = seg)
    (children : r.children = [c]) (mount : List Text) (whole : Text) :
    (captured plat (seg :: mount) whole = none ∧ matchAt plat full r whole = none) ∨
      ∃ found, matchAt plat full r whole = some found ∧ Keyed r whole ∧
        captured plat (seg :: mount) whole = captured plat mount found.remain.text := by
  by_cases named : seg = []
  · right
    have root : segmentOf r = .root := rootSegment (path.trans named)
    have more : r.children.isEmpty = false := by rw [children]; rfl
    have matched : matchAt plat full r whole =
        some ⟨if (suffixSlice full whole).text = ['/'] then plat.literal else suffixSlice full whole, none⟩ := by
      rw [matchAt, root, more]
      simp only [matchSegment, Bool.false_eq_true, and_false, if_false]
    refine ⟨_, matched, .inl (by rw [root]; rfl), ?_⟩
    rw [captured, if_pos named, suffixSliceText]
    split
    · rename_i slash
      rw [slash]
      exact capturedSlash plat mount
    · rfl
  · have steps := matchSteps plat named plain r.children.isEmpty (suffixSlice full whole) full
    rw [suffixSliceText, ← path] at steps
    rw [captured, if_neg named, ← path]
    change (matchAt plat full r whole).map _ = _ at steps
    by_cases taken : accepts plat (parseSpecialSeg r.path) (firstSegment whole) = true
    · rw [if_pos taken] at steps ⊢
      obtain ⟨found, matched, remain⟩ := Option.map_eq_some_iff.mp steps
      refine .inr ⟨found, matched, ?_, by rw [remain]⟩
      unfold Keyed segmentOf
      cases segment : parseSpecialSeg r.path with
      | static value =>
        rw [segment, accepts, decide_eq_true_eq] at taken
        exact .inr (by rw [taken]; rfl)
      | _ => exact .inl rfl
    · rw [if_neg taken] at steps ⊢
      exact .inl ⟨rfl, Option.map_eq_none_iff.mp steps⟩

theorem leafMatch (plat : Platform) (full : Slice) {r : Route H M V} (path : r.path = starPath) (whole : Text) :
    ∃ found, matchAt plat full r whole = some found ∧ Keyed r whole := by
  have segment := starSegment path
  exact ⟨_, by rw [matchAt, segment]; rfl, .inl (by rw [segment]; rfl)⟩

def EndsAt (map : HashMap Method H) (value : Text) (chain : List (Step H M V)) : Prop :=
  ∃ before last, chain = before ++ [last] ∧ last.1.path = starPath ∧ last.1.handler = map ∧ trimSlash last.2 = value

/- Where the rest of the path is captured, the first stop is the wildcard; elsewhere it is a node above it. -/
theorem passageStop (plat : Platform) (full : Slice) {map : HashMap Method H} {own : HashMap Method H → Prop} {mount : List Text}
    {r : Route H M V} (passage : Passage map own mount r) (whole : Text) :
    (∀ value, captured plat mount whole = some value → ∃ found hits, matchAt plat full r whole = some found ∧ Keyed r whole ∧
      firstStop plat full r found.remain.text = some hits ∧ EndsAt map value ((r, whole) :: hits.map stepOf)) ∧
    (captured plat mount whole = none → ∀ found, matchAt plat full r whole = some found → ∀ hits,
      firstStop plat full r found.remain.text = some hits → own (endOf r hits).handler) := by
  induction passage generalizing whole with
  | @leaf r path childless handler =>
    obtain ⟨found, matched, key⟩ := leafMatch plat full path whole
    have stop : firstStop plat full r found.remain.text = some [] :=
      childlessStops plat full childless (.inr (by rw [starSegment path]; rfl))
    exact ⟨fun value same => ⟨found, [], matched, key, stop, [], (r, whole), rfl, path, handler, Option.some.inj same⟩,
      fun none => (by cases none)⟩
  | @step seg mount r c plain path children held below ih =>
    rcases nodeMatch plat full plain path children mount whole with ⟨refused, unmatched⟩ | ⟨found, matched, key, onward⟩
    · rw [refused, unmatched]
      exact ⟨fun _ same => (by cases same), fun _ _ same => (by cases same)⟩
    · obtain ⟨reached, missed⟩ := ih found.remain.text
      rw [onward]
      constructor
      · intro value same
        obtain ⟨found', hits, matched', key', stop, before, last, chain, ends⟩ := reached value same
        refine ⟨found, ⟨c, found.remain.text, found'⟩ :: hits, matched, key, ?_, (r, whole) :: before, last, ?_, ends⟩
        · have asked : (segmentOf c).asStaticKey = none ∨ (segmentOf c).asStaticKey = some (firstSegment found.remain.text) := key'
          rw [onlyStop children, if_pos asked, stopVia, matched']
          simp only [Option.bind_eq_bind, Option.bind_some, stop, Option.some_or]
        · rw [List.map_cons, List.cons_append, ← chain]
          rfl
      · intro nothing other matched' hits stop
        cases Option.some.inj (matched.symm.trans matched')
        rw [onlyStop children, Option.or_eq_some_iff] at stop
        rcases stop with deeper | ⟨_, here⟩
        · split at deeper
          · obtain ⟨found', tail, rfl, matched', stop'⟩ := stopViaHead deeper
            exact missed nothing found' matched' tail stop'
          · cases deeper
        · split at here
          · cases here
            exact held
          · cases here

theorem bindParamsMethod {segment : SpecialSeg} {req bound : Request V} {found : PathMatch} {full : Slice}
    (binding : RouteTree.bindParams segment req found full = some bound) : bound.method = req.method := by
  unfold RouteTree.bindParams at binding
  split at binding <;> cases binding <;> rfl

@[simp] theorem addStateMethod (r : Route H M V) (req : Request V) : (addState r req).method = req.method := by
  unfold addState
  split <;> rfl

@[simp] theorem arriveMethod (r : Route H M V) (full : Slice) (req : Request V) : (arrive r full req).method = req.method := by
  unfold arrive
  split <;> rfl

theorem recordedEnter (r : Route H M V) {next : Request V → Traced (Event H M V) (SilentResult R)} :
    enter (recording : Env H M V R (Traced (Event H M V))) r next = next := enterPass recordingPasses r next

theorem followMethod {full : Slice} {r : Route H M V} {hits : List (Hit H M V)} {req seen : Request V} {map : HashMap Method H}
    (called : .served map seen ∈ events (follow (R := R) recording full r hits req)) : seen.method = req.method := by
  induction hits generalizing r req with
  | nil =>
    obtain ⟨_, _, rfl⟩ := serveObserved recordingObserves called
    rfl
  | cons hit hits ih =>
    simp only [follow] at called
    split at called
    · simp at called
    · rename_i bound binding
      rw [recordedEnter] at called
      rw [ih called, addStateMethod, bindParamsMethod binding]

theorem callMethod {plat : Platform} {buffer : Nat} {r : Route H M V} {req seen : Request V} {map : HashMap Method H}
    (called : .served map seen ∈ events (answerRoot (R := R) recording plat buffer r req)) : seen.method = req.method := by
  unfold answerRoot at called
  dsimp only at called
  split at called
  · simp at called
  · split at called
    · simp at called
    · rename_i bound binding
      rw [recordedEnter] at called
      unfold answer at called
      split at called
      · rw [followMethod called, addStateMethod, bindParamsMethod binding, arriveMethod]
      · simp at called

theorem pathRead {plat : Platform} {full : Slice} {map : HashMap Method H} {value : Text} {chain : List (Step H M V)}
    {req : Request V} (ends : EndsAt map value chain) (tracked : Tracks plat full chain req.pathParams) :
    pathParam req = some value := by
  obtain ⟨before, last, rfl, path, _, same⟩ := ends
  have star := starSegment path
  have hit : binds pathKey last = true := by rw [binds, star, keyOf, decide_eq_true_eq]
  have own := tracked pathKey
  rw [deepestAt hit (List.forall_mem_nil _)] at own
  obtain ⟨param, read, found, valued, reads⟩ := own
  have clear : ¬ Misread plat full (segmentOf last.1) last.2 := by
    rw [star]
    exact fun misread => absurd misread.1 (by decide)
  rw [if_neg clear] at reads
  rw [star] at valued
  cases Option.some.inj valued
  rw [pathParam, found, Option.bind_some]
  rw [same] at reads
  cases param with
  | path slice =>
    obtain ⟨text, shown, again⟩ := Option.map_eq_some_iff.mp reads
    cases again
    exact shown
  | str slice =>
    obtain ⟨text, _, other⟩ := Option.map_eq_some_iff.mp reads
    cases other
  | int _ | int32 _ | int64 _ | uInt64 _ | uInt32 _ | uuid _ => cases reads

theorem stopServes (plat : Platform) (order : RouteTree.HashOrder) (buffer : Nat) {site : Route H M V} {req : Request V}
    (fresh : req.pathParams = ∅) {hits : List (Hit H M V)} (first : (rootStops plat ⟨buffer, req.uriPath⟩ site).head? = some hits)
    (occupied : served (endOf site hits) = true) :
    ∃ bound : Request V, bound.method = req.method ∧
      Tracks plat ⟨buffer, req.uriPath⟩ (chainOf site ⟨buffer, req.uriPath⟩ hits) bound.pathParams ∧
      ∀ (m : Type → Type) [Monad m] (env : Env H M V R m), PassThrough env →
        RouteTree.call env plat (RouteTree.candidateIndices plat order) buffer (RouteTree.convertToRouteTree site) req =
          env.callHandlers (endOf site hits).handler bound := by
  have settled := answerRootSettles (R := R) plat buffer site req
  rw [first, Option.map_some] at settled
  obtain ⟨bound, reached⟩ := settledReaches settled occupied
  dsimp only at reached
  have recorded := reached _ recording recordingPasses
  have called : .served (endOf site hits).handler bound ∈ events (answerRoot (R := R) recording plat buffer site req) := by
    rw [recorded]
    exact List.mem_singleton_self _
  obtain ⟨hits', first', _, _, tracked⟩ := callObserved recordingObserves fresh called
  cases Option.some.inj (first.symm.trans first')
  exact ⟨bound, callMethod called, tracked, fun m _ env pass => (callConverted ..).trans (reached m env pass)⟩

theorem unservedStop {plat : Platform} {order : RouteTree.HashOrder} {buffer : Nat} {site : Route H M V} {req : Request V}
    (unserved : ∀ hits ∈ (rootStops plat ⟨buffer, req.uriPath⟩ site).head?, served (endOf site hits) = false)
    {m : Type → Type} [Monad m] {env : Env H M V R m} (pass : PassThrough env) :
    RouteTree.call env plat (RouteTree.candidateIndices plat order) buffer (RouteTree.convertToRouteTree site) req =
      RouteTree.notFoundError := by
  have settled := answerRootSettles (R := R) plat buffer site req
  rw [callConverted]
  cases first : (rootStops plat ⟨buffer, req.uriPath⟩ site).head? with
  | none =>
    rw [first, Option.map_none] at settled
    exact settled m env pass
  | some hits =>
    have idle := unserved hits first
    rw [first, Option.map_some] at settled
    obtain ⟨bound, runs⟩ := settled
    dsimp only at runs
    have empty : (endOf site hits).handler.entries.isEmpty = true := by simpa [served] using idle
    rw [runs m env pass, serve, if_pos empty]

/- Where the rest of the path is captured the handlers of the wildcard are called, with it as the
parameter; elsewhere those of a node above it, if there are any. -/
theorem passageServes (plat : Platform) (order : RouteTree.HashOrder) (buffer : Nat) {map : HashMap Method H}
    {own : HashMap Method H → Prop} (used : map.entries.isEmpty = false) {mount : List Text} {site : Route H M V}
    (passage : Passage map own mount site) (method : Method) (path : Text) :
    match captured plat mount path with
    | some value => ∃ bound : Request V, bound.method = method ∧ pathParam bound = some value ∧
        ∀ (m : Type → Type) [Monad m] (env : Env H M V R m), PassThrough env →
          RouteTree.call env plat (RouteTree.candidateIndices plat order) buffer (RouteTree.convertToRouteTree site)
            (Request.fromParts method path) = env.callHandlers map bound
    | none =>
        (∀ (m : Type → Type) [Monad m] (env : Env H M V R m), PassThrough env →
          RouteTree.call env plat (RouteTree.candidateIndices plat order) buffer (RouteTree.convertToRouteTree site)
            (Request.fromParts method path) = RouteTree.notFoundError) ∨
        ∃ held, own held ∧ held.entries.isEmpty = false ∧ ∃ bound : Request V, bound.method = method ∧
          ∀ (m : Type → Type) [Monad m] (env : Env H M V R m), PassThrough env →
            RouteTree.call env plat (RouteTree.candidateIndices plat order) buffer (RouteTree.convertToRouteTree site)
              (Request.fromParts method path) = env.callHandlers held bound := by
  obtain ⟨reached, missed⟩ := passageStop plat ⟨buffer, path⟩ passage path
  cases value : captured plat mount path with
  | some value' =>
    obtain ⟨found, hits, matched, _, stop, ends⟩ := reached value' value
    have first : (rootStops plat ⟨buffer, (Request.fromParts method path : Request V).uriPath⟩ site).head? = some hits := by
      rw [firstStopHead] at stop
      change (rootStops plat ⟨buffer, path⟩ site).head? = _
      rw [rootStops, matched]
      exact stop
    have handles : (endOf site hits).handler = map := by
      obtain ⟨rest, last⟩ := chainLast site ⟨buffer, path⟩ hits
      obtain ⟨before, step, whole, _, handler, _⟩ := ends
      rw [chainOf, whole, List.getLast?_concat] at last
      cases Option.some.inj last
      exact handler
    obtain ⟨bound, same, tracked, calls⟩ := stopServes (R := R) plat order buffer rfl first (by rw [served, handles, used]; rfl)
    rw [handles] at calls
    exact ⟨bound, same, pathRead ends tracked, calls⟩
  | none =>
    by_cases occupied : ∃ hits ∈ (rootStops plat ⟨buffer, (Request.fromParts method path : Request V).uriPath⟩ site).head?,
        served (endOf site hits) = true
    · obtain ⟨hits, first, occupied⟩ := occupied
      obtain ⟨bound, same, _, calls⟩ := stopServes (R := R) plat order buffer rfl first occupied
      refine .inr ⟨_, ?_, by simpa [served] using occupied, bound, same, calls⟩
      change hits ∈ (rootStops plat ⟨buffer, path⟩ site).head? at first
      rw [rootStops] at first
      cases matched : matchAt plat ⟨buffer, path⟩ site path with
      | none =>
        rw [matched] at first
        cases first
      | some found =>
        rw [matched] at first
        exact missed value found matched hits (by rw [firstStopHead]; exact first)
    · refine .inl fun m _ env pass => unservedStop (fun hits first => ?_) pass
      exact Bool.eq_false_iff.mpr fun served => occupied ⟨hits, first, served⟩

theorem shaftServes (plat : Platform) (order : RouteTree.HashOrder) (buffer : Nat) {map : HashMap Method H}
    (used : map.entries.isEmpty = false) {mount : List Text} {site : Route H M V} (shaft : Shaft map mount site) (method : Method)
    (path : Text) {m : Type → Type} [Monad m] (env : Env H M V R m) (pass : PassThrough env) :
    match captured plat mount path with
    | some value => ∃ bound : Request V, bound.method = method ∧ pathParam bound = some value ∧
        RouteTree.call env plat (RouteTree.candidateIndices plat order) buffer (RouteTree.convertToRouteTree site)
          (Request.fromParts method path) = env.callHandlers map bound
    | none => RouteTree.call env plat (RouteTree.candidateIndices plat order) buffer (RouteTree.convertToRouteTree site)
          (Request.fromParts method path) = RouteTree.notFoundError := by
  have serves := passageServes (R := R) plat order buffer used shaft method path
  cases value : captured plat mount path with
  | some value' =>
    rw [value] at serves
    obtain ⟨bound, same, read, calls⟩ := serves
    exact ⟨bound, same, read, calls m env pass⟩
  | none =>
    rw [value] at serves
    rcases serves with missed | ⟨held, idle, some_, _⟩
    · exact missed m env pass
    · cases idle
      cases some_

end Silent.MountedHandlers
