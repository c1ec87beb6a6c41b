import Silent.MiddlewareOnion

/-! Path parameters as the handler sees them, against the pieces of the path the
chain has matched. Every capture reads back as its piece, with one exception: a
`<key:path>` segment at the end of the path captures the empty literal, whose address
has nothing to do with the buffer, so that reading the parameter may panic. -/
namespace Silent.PathCaptures
open ByteText PathSegment HttpRequest RouteBuilder RouteShape Dispatch SegmentSpec RouterSearch RouterRefinement RouteChains MiddlewareOnion

variable {H M V R : Type}

inductive Reading where
  | str (value : Text)
  | int (value : I32)
  | int64 (value : I64)
  | uInt64 (value : U64)
  | uInt32 (value : U32)
  | uuid (value : Uuid)
  | path (value : Text)
  deriving DecidableEq

-- `none` is a panic of the slice expression.
def reading : PathParam → Option Reading
  | .str value => value.asStr.map .str
  | .int value | .int32 value => some (.int value)
  | .int64 value => some (.int64 value)
  | .uInt64 value => some (.uInt64 value)
  | .uInt32 value => some (.uInt32 value)
  | .uuid value => some (.uuid value)
  | .path value => value.asStr.map .path

def keyOf : SpecialSeg → Option Text
  | .root | .static _ => none
  | .string key | .int key | .i64 key | .i32 key | .u64 key | .u32 key | .uuid key | .path key
  | .fullPath key => some key

def valueOf (plat : Platform) (segment : SpecialSeg) (rest : Text) : Option Reading :=
  match segment with
  | .root | .static _ => none
  | .string _ => some (.str (firstSegment rest))
  | .int _ | .i32 _ => (parseI32 (firstSegment rest)).map .int
  | .i64 _ => (parseI64 (firstSegment rest)).map .int64
  | .u64 _ => (parseU64 (firstSegment rest)).map .uInt64
  | .u32 _ => (parseU32 (firstSegment rest)).map .uInt32
  | .uuid _ => (plat.parseUuid (firstSegment rest)).map .uuid
  | .path _ => some (.path (firstSegment rest))
  | .fullPath _ => some (.path (trimSlash rest))

def isPath : SpecialSeg → Bool
  | .path _ => true
  | _ => false

/- A `<key:path>` segment with nothing left to read, and the empty literal at an
address that is not, relative to the buffer, the boundary of a character. -/
def Misread (plat : Platform) (full : Slice) (segment : SpecialSeg) (rest : Text) : Prop :=
  isPath segment = true ∧ trimSlash rest = [] ∧ ¬ IsBoundary full.text (plat.emptyLiteral - full.ptr)

instance (plat full segment rest) : Decidable (Misread plat full segment rest) :=
  inferInstanceAs (Decidable (_ ∧ _ ∧ ¬ _))

theorem stripLeadingSlashStart (full : Slice) {before rest : Text} (whole : full.text = before ++ rest) :
    ∃ lead, rest = lead ++ trimSlash rest ∧
      (stripLeadingSlash (suffixSlice full rest)).ptr - full.ptr = byteLen (before ++ lead) := by
  have start : (suffixSlice full rest).ptr = full.ptr + byteLen before := by
    rw [suffixSlice, suffixOffset whole]
  unfold stripLeadingSlash trimSlash
  rw [suffixSliceText]
  split
  · exact ⟨['/'], rfl, by simp [start]; omega⟩
  · exact ⟨[], rfl, by simp [start]⟩

theorem rangeReads {full slice : Slice} {rest tail : Text} (inside : rest <:+ full.text)
    (place : slice.ptr = (stripLeadingSlash (suffixSlice full rest)).ptr)
    (text : trimSlash rest = slice.text ++ tail) :
    (PathSlice.mk full (sliceRange full slice)).asStr = some slice.text := by
  obtain ⟨before, whole⟩ := inside
  obtain ⟨lead, split_, start⟩ := stripLeadingSlashStart full whole.symm
  have parts : full.text = (before ++ lead) ++ (slice.text ++ tail) := by
    rw [← whole, ← text, List.append_assoc, ← split_]
  simp only [PathSlice.asStr, sliceRange, place, start]
  rw [parts]
  exact sliceBytesMiddle _ _ _

theorem segmentRangeReads {plat : Platform} {full : Slice} {rest : Text} (inside : rest <:+ full.text)
    (more : trimSlash rest ≠ []) :
    (PathSlice.mk full (sliceRange full (stripOneSegment plat (suffixSlice full rest)).1)).asStr =
      some (firstSegment rest) := by
  obtain ⟨first, _⟩ := stripOneSegmentText plat (suffixSlice full rest)
  obtain ⟨tail, parts, _⟩ := splitFirstFramed (trimSlash rest)
  rw [suffixSliceText] at first
  have place : (stripOneSegment plat (suffixSlice full rest)).1.ptr = (stripLeadingSlash (suffixSlice full rest)).ptr :=
    stripOneSegmentPtr plat more
  have text : trimSlash rest = (stripOneSegment plat (suffixSlice full rest)).1.text ++ (tail ++ afterSegment rest) := by
    rw [first]
    exact parts
  rw [rangeReads inside place text, first]

theorem emptyRangeReads (plat : Platform) (full : Slice) :
    (PathSlice.mk full (sliceRange full plat.literal)).asStr =
      if IsBoundary full.text (plat.emptyLiteral - full.ptr) then some [] else none := by
  simp only [PathSlice.asStr, sliceRange, Platform.literal, byteLenNil, Nat.add_zero]
  exact sliceBytesEmpty _ _

theorem bindParamsSpec {plat : Platform} {full : Slice} {segment : SpecialSeg} {childless : Bool} {rest : Text}
    {found : PathMatch} (matched : matchSegment plat segment childless (suffixSlice full rest) full = some found)
    (inside : rest <:+ full.text) :
    (keyOf segment = none ∧ ∀ req : Request V, RouteTree.bindParams segment req found full = some req) ∨
      ∃ key param value, keyOf segment = some key ∧
        (∀ req : Request V, RouteTree.bindParams segment req found full = some (req.setPathParams key param)) ∧
        valueOf plat segment rest = some value ∧
        reading param = if Misread plat full segment rest then none else some value := by
  cases segment with
  | root | static value => exact .inl ⟨rfl, fun req => rfl⟩
  | string key =>
    obtain ⟨first, _⟩ := stripOneSegmentText plat (suffixSlice full rest)
    simp only [matchSegment, first, suffixSliceText] at matched
    split at matched
    · contradiction
    · rename_i named
      cases Option.some.inj matched
      have more : trimSlash rest ≠ [] := fun empty => named (by rw [firstSegment, empty]; rfl)
      refine .inr ⟨key, _, _, rfl, fun req => rfl, rfl, ?_⟩
      simp [reading, PathParam.borrowedStr, PathString.asStr, segmentRangeReads inside more, Misread, isPath]
  | path key =>
    simp only [matchSegment, Option.some.injEq] at matched
    subst matched
    refine .inr ⟨key, _, _, rfl, fun req => rfl, rfl, ?_⟩
    by_cases empty : trimSlash rest = []
    · have literal := stripOneSegmentEmpty plat (show trimSlash (suffixSlice full rest).text = [] from empty)
      have nothing : firstSegment rest = [] := by rw [firstSegment, empty]; rfl
      simp only [reading, PathParam.borrowedPath, PathString.asStr, literal, emptyRangeReads, Misread, isPath, empty,
        nothing]
      split <;> simp_all
    · simp [reading, PathParam.borrowedPath, PathString.asStr, segmentRangeReads inside empty, Misread, empty]
  | fullPath key =>
    simp only [matchSegment, Option.some.injEq] at matched
    subst matched
    refine .inr ⟨key, _, _, rfl, fun req => rfl, rfl, ?_⟩
    have reads : (PathSlice.mk full (sliceRange full (stripLeadingSlash (suffixSlice full rest)))).asStr =
        some (stripLeadingSlash (suffixSlice full rest)).text :=
      rangeReads inside rfl (by rw [stripLeadingSlashText, suffixSliceText, List.append_nil])
    rw [stripLeadingSlashText, suffixSliceText] at reads
    simp [reading, PathParam.borrowedPath, PathString.asStr, reads, Misread, isPath]
  | int key | i32 key | i64 key | u64 key | u32 key | uuid key =>
    obtain ⟨_, _, v, parsed, captured⟩ := matchParsedText matched
    rw [suffixSliceText] at parsed
    refine .inr ⟨key, _, _, rfl, fun req => by simp only [RouteTree.bindParams, captured]; rfl,
      by simp only [valueOf, parsed, Option.map_some]; rfl, ?_⟩
    simp [reading, Misread, isPath]

abbrev Step (H M V : Type) := Route H M V × Text

def stepOf (hit : Hit H M V) : Step H M V := (hit.route, hit.rest)

def chainOf (r : Route H M V) (full : Slice) (hits : List (Hit H M V)) : List (Step H M V) :=
  (r, full.text) :: hits.map stepOf

/- The chain spells the path from left to right: each segment takes its part of what
the one before it left, and at the end nothing is left or the last segment is `**`. -/
inductive Spells (plat : Platform) : Route H M V → Text → List (Step H M V) → Prop
  | last {r rest after} (taken : Takes plat (segmentOf r) rest after)
      (ends : after = [] ∨ (segmentOf r).isFullPath = true) : Spells plat r rest [(r, rest)]
  | child {r c : Route H M V} {rest after chain} (taken : Takes plat (segmentOf r) rest after) (mem : c ∈ r.children)
      (below : Spells plat c after chain) : Spells plat r rest ((r, rest) :: chain)

def binds (key : Text) (step : Step H M V) : Bool := keyOf (segmentOf step.1) = some key

def deepest (chain : List (Step H M V)) (key : Text) : Option (Step H M V) :=
  chain.reverse.find? (binds key)

/- The parameters are those of the chain and no others, each with the value of its
piece. -/
def Exact (plat : Platform) (chain : List (Step H M V)) (params : HashMap Text PathParam) : Prop :=
  ∀ key, match deepest chain key with
    | none => params.lookup key = none
    | some step => ∃ param value, params.lookup key = some param ∧
        valueOf plat (segmentOf step.1) step.2 = some value ∧ reading param = some value

theorem deepestSnoc (chain : List (Step H M V)) (step : Step H M V) (key : Text) :
    deepest (chain ++ [step]) key = if binds key step then some step else deepest chain key := by
  simp only [deepest, List.reverse_append, List.reverse_singleton, List.singleton_append, List.find?_cons]
  split <;> simp_all

def TracksFrom (plat : Platform) (full : Slice) (start : HashMap Text PathParam) (chain : List (Step H M V))
    (params : HashMap Text PathParam) : Prop :=
  ∀ key, match deepest chain key with
    | none => params.lookup key = start.lookup key
    | some step => ∃ param value, params.lookup key = some param ∧
        valueOf plat (segmentOf step.1) step.2 = some value ∧
        reading param = if Misread plat full (segmentOf step.1) step.2 then none else some value

def Tracks (plat : Platform) (full : Slice) (chain : List (Step H M V)) (params : HashMap Text PathParam) : Prop :=
  TracksFrom plat full ∅ chain params

theorem tracksFromBind {plat : Platform} {full : Slice} {start : HashMap Text PathParam} {chain : List (Step H M V)}
    {c : Route H M V} {rest : Text} {found : PathMatch} {req bound : Request V}
    (tracked : TracksFrom plat full start chain req.pathParams)
    (matched : matchAt plat full c rest = some found) (inside : rest <:+ full.text)
    (binding : RouteTree.bindParams (segmentOf c) req found full = some bound) :
    TracksFrom plat full start (chain ++ [(c, rest)]) bound.pathParams := by
  intro key
  rw [deepestSnoc]
  rcases bindParamsSpec (V := V) matched inside with ⟨keyless, untouched⟩ | ⟨own, param, value, named, sets, valued, reads⟩
  · have skips : binds key (c, rest) = false := by simp [binds, keyless]
    rw [untouched req] at binding
    cases Option.some.inj binding
    rw [skips]
    exact tracked key
  · rw [sets req] at binding
    cases Option.some.inj binding
    by_cases same : own = key
    · subst same
      have hits : binds own (c, rest) = true := by simp [binds, named]
      rw [hits]
      exact ⟨param, value, AList.lookup_insert _, valued, reads⟩
    · have skips : binds key (c, rest) = false := by simp [binds, named, same]
      have kept : (req.setPathParams own param).pathParams.lookup key = req.pathParams.lookup key :=
        AList.lookup_insert_ne (Ne.symm same)
      rw [skips, kept]
      exact tracked key

/- Handler calls are recorded, and a middleware reaches them through `next` only, with
the path parameters it was given. -/
structure Observes (env : Env H M V R (Traced (Event H M V))) : Prop where
  handlers : ∀ map req, events (env.callHandlers map req) = [.served map req]
  middlewares : ∀ mw req next map seen, .served map seen ∈ events (env.middleware mw req next) →
    ∃ passed : Request V, passed.pathParams = req.pathParams ∧ .served map seen ∈ events (next passed)

theorem enterKept {α : Type} {env : Env H M V R (Traced (Event H M V))} {view : Request V → α}
    (keeps : ∀ mw req next map seen, .served map seen ∈ events (env.middleware mw req next) →
      ∃ passed, view passed = view req ∧ .served map seen ∈ events (next passed))
    (r : Route H M V) {next : Request V → Traced (Event H M V) (SilentResult R)} {req : Request V} {map : HashMap Method H}
    {seen : Request V} (called : .served map seen ∈ events (enter env r next req)) :
    ∃ passed, view passed = view req ∧ .served map seen ∈ events (next passed) := by
  unfold enter at called
  generalize r.middlewares = mws at called
  induction mws generalizing req with
  | nil => exact ⟨req, rfl, called⟩
  | cons mw rest ih =>
    obtain ⟨passed, kept, later⟩ := keeps mw req _ map seen called
    obtain ⟨passed', kept', reached⟩ := ih later
    exact ⟨passed', kept'.trans kept, reached⟩

theorem enterObserved {env : Env H M V R (Traced (Event H M V))} (observes : Observes env) (r : Route H M V)
    {next : Request V → Traced (Event H M V) (SilentResult R)} {req : Request V} {map : HashMap Method H}
    {seen : Request V} (called : .served map seen ∈ events (enter env r next req)) :
    ∃ passed : Request V, passed.pathParams = req.pathParams ∧ .served map seen ∈ events (next passed) :=
  enterKept observes.middlewares r called

@[simp] theorem addStateParams (r : Route H M V) (req : Request V) : (addState r req).pathParams = req.pathParams := by
  unfold addState
  split <;> rfl

@[simp] theorem arriveParams (r : Route H M V) (full : Slice) (req : Request V) :
    (arrive r full req).pathParams = req.pathParams := by
  unfold arrive
  split <;> rfl

theorem serveCalled {env : Env H M V R (Traced (Event H M V))}
    (handlers : ∀ map req, events (env.callHandlers map req) = [.served map req]) {r : Route H M V}
    {req seen : Request V} {map : HashMap Method H} (called : .served map seen ∈ events (serve env r req)) :
    served r = true ∧ map = r.handler ∧ seen = req := by
  unfold serve at called
  split at called
  · simp at called
  · rename_i occupied
    rw [handlers, List.mem_singleton] at called
    cases called
    exact ⟨by simpa [served] using occupied, rfl, rfl⟩

theorem serveObserved {env : Env H M V R (Traced (Event H M V))} (observes : Observes env) {r : Route H M V}
    {req seen : Request V} {map : HashMap Method H} (called : .served map seen ∈ events (serve env r req)) :
    served r = true ∧ map = r.handler ∧ seen = req :=
  serveCalled observes.handlers called

theorem followObserved {env : Env H M V R (Traced (Event H M V))} (observes : Observes env) {plat : Platform}
    {full : Slice} {r : Route H M V} {rest : Text} {hits : List (Hit H M V)} (chain : Matches plat full r rest hits)
    (inside : rest <:+ full.text) {done : List (Step H M V)} {req seen : Request V} {map : HashMap Method H}
    (tracked : Tracks plat full done req.pathParams) (called : .served map seen ∈ events (follow env full r hits req)) :
    served (endOf r hits) = true ∧ map = (endOf r hits).handler ∧
      Tracks plat full (done ++ hits.map stepOf) seen.pathParams := by
  induction chain generalizing done req with
  | stop ends =>
    obtain ⟨handles, rfl, rfl⟩ := serveObserved observes called
    exact ⟨handles, rfl, by simpa using tracked⟩
  | @child r c rest found hits mem matched below ih =>
    simp only [follow] at called
    split at called
    · simp at called
    · rename_i bound binding
      obtain ⟨passed, kept, later⟩ := enterObserved observes c called
      have extended := tracksFromBind tracked matched inside binding
      rw [← addStateParams c bound, ← kept] at extended
      simpa [stepOf, endOf] using ih (matchAtSuffix matched inside) extended later

theorem matchesSpells {plat : Platform} {full : Slice} {r : Route H M V} {rest after : Text} {hits : List (Hit H M V)}
    (chain : Matches plat full r after hits) (taken : Takes plat (segmentOf r) rest after) :
    Spells plat r rest ((r, rest) :: hits.map stepOf) := by
  induction chain generalizing rest with
  | stop ends => exact .last taken ends
  | child mem matched below ih => exact .child taken mem (ih (matchSegmentTakes matched))

theorem callObserved {env : Env H M V R (Traced (Event H M V))} (observes : Observes env) {plat : Platform}
    {buffer : Nat} {r : Route H M V} {req seen : Request V} {map : HashMap Method H} (fresh : req.pathParams = ∅)
    (called : .served map seen ∈ events (answerRoot env plat buffer r req)) :
    ∃ hits ∈ (rootStops plat ⟨buffer, req.uriPath⟩ r).head?, served (endOf r hits) = true ∧
      map = (endOf r hits).handler ∧
      Tracks plat ⟨buffer, req.uriPath⟩ (chainOf r ⟨buffer, req.uriPath⟩ hits) seen.pathParams := by
  unfold answerRoot at called
  dsimp only at called
  split at called
  · simp at called
  · rename_i found matched
    split at called
    · simp at called
    · rename_i bound binding
      have blank : Tracks plat ⟨buffer, req.uriPath⟩ ([] : List (Step H M V)) (arrive r ⟨buffer, req.uriPath⟩ req).pathParams := by
        intro key
        rw [arriveParams, fresh]
        rfl
      have rooted := tracksFromBind blank matched List.suffix_rfl binding
      obtain ⟨passed, kept, later⟩ := enterObserved observes r called
      rw [← addStateParams r bound, ← kept] at rooted
      rw [rootStops, matched]
      dsimp only
      unfold answer at later
      rw [firstStopHead] at later
      split at later
      · rename_i hits first
        have chain := stopsMatch (List.mem_of_head? first)
        obtain ⟨handles, same, tracked⟩ :=
          followObserved observes chain (matchAtSuffix matched List.suffix_rfl) rooted later
        exact ⟨hits, first, handles, same, tracked⟩
      · simp at later

/- Soundness and exact captures at one request, for all middlewares that leave the
parameters alone. -/
def CapturesExact (R : Type) (plat : Platform) (order : RouteTree.HashOrder) (buffer : Nat) (r : Route H M V)
    (req : Request V) : Prop :=
  ∀ env : Env H M V R (Traced (Event H M V)), Observes env → ∀ map seen,
    .served map seen ∈ events (RouteTree.call env plat (RouteTree.candidateIndices plat order) buffer
      (RouteTree.convertToRouteTree r) req) →
    ∃ chain last, Spells plat r req.uriPath chain ∧ chain.getLast? = some last ∧ map = last.1.handler ∧
      Exact plat chain seen.pathParams

theorem chainLast (r : Route H M V) (full : Slice) (hits : List (Hit H M V)) :
    ∃ rest, (chainOf r full hits).getLast? = some (endOf r hits, rest) := by
  have general : ∀ (hits : List (Hit H M V)) (r : Route H M V) (rest : Text),
      ∃ rest', ((r, rest) :: hits.map stepOf).getLast? = some (endOf r hits, rest') := by
    intro hits
    induction hits with
    | nil => exact fun r rest => ⟨rest, rfl⟩
    | cons hit hits ih =>
      intro r rest
      obtain ⟨rest', last⟩ := ih hit.route hit.rest
      exact ⟨rest', by simpa [stepOf, endOf] using last⟩
  exact general hits r full.text

theorem tracksExact {plat : Platform} {full : Slice} {chain : List (Step H M V)} {params : HashMap Text PathParam}
    (tracked : Tracks plat full chain params)
    (read : ∀ key step, deepest chain key = some step → ¬ Misread plat full (segmentOf step.1) step.2) :
    Exact plat chain params := by
  intro key
  have own := tracked key
  cases last : deepest chain key with
  | none => simpa [last] using own
  | some step =>
    rw [last] at own
    simpa [read key step last] using own

theorem exactReads {plat : Platform} {full : Slice} {chain other : List (Step H M V)} {params : HashMap Text PathParam}
    (tracked : Tracks plat full chain params) (exact_ : Exact plat other params) :
    ∀ key step, deepest chain key = some step → ¬ Misread plat full (segmentOf step.1) step.2 := by
  intro key step last misread
  have own := tracked key
  rw [last] at own
  obtain ⟨param, value, found, _, panics⟩ := own
  rw [if_pos misread] at panics
  have other := exact_ key
  split at other
  · rw [found] at other
    cases other
  · obtain ⟨param', value', found', _, reads⟩ := other
    cases Option.some.inj (found.symm.trans found')
    rw [panics] at reads
    cases reads

def quietEnv : Env H M V R (Traced (Event H M V)) :=
  onionEnv (fun _ req => req) (fun _ _ res => res) (fun _ _ => .error .notFound)

theorem quietObserves : Observes (quietEnv : Env H M V R (Traced (Event H M V))) where
  handlers map req := rfl
  middlewares mw req next map seen called := by
    refine ⟨req, rfl, ?_⟩
    simpa [quietEnv, onionEnv] using called

def incoming (method : Method) (path : Text) (state : State V) : Request V :=
  {(Request.fromParts method path : Request V) with state := state}

theorem capturesExactIff (plat : Platform) (order : RouteTree.HashOrder) (buffer : Nat) (r : Route H M V)
    {req : Request V} (fresh : req.pathParams = ∅) :
    CapturesExact R plat order buffer r req ↔
      ∀ hits ∈ (rootStops plat ⟨buffer, req.uriPath⟩ r).head?, served (endOf r hits) = true →
        ∀ key step, deepest (chainOf r ⟨buffer, req.uriPath⟩ hits) key = some step →
          ¬ Misread plat ⟨buffer, req.uriPath⟩ (segmentOf step.1) step.2 := by
  unfold CapturesExact
  simp only [callConverted]
  constructor
  · intro captures hits first handles
    obtain ⟨seen, trace⟩ := stopEvents (fun _ req => req) (fun _ _ res => res)
      (fun _ _ => (.error .notFound : SilentResult R)) plat buffer first
    have called : .served (endOf r hits).handler seen ∈ events (answerRoot (R := R) quietEnv plat buffer r req) := by
      unfold quietEnv
      rw [trace, core, if_pos handles]
      simp [wrapped]
    obtain ⟨hits', first', _, _, tracked⟩ := callObserved quietObserves fresh called
    cases Option.some.inj (first.symm.trans first')
    obtain ⟨other, _, _, _, _, exact_⟩ := captures quietEnv quietObserves _ _ called
    exact exactReads tracked exact_
  · intro read env observes map seen called
    obtain ⟨hits, first, handles, same, tracked⟩ := callObserved observes fresh called
    obtain ⟨found, matched, chain⟩ := rootStopsMatch (List.mem_of_head? first)
    obtain ⟨rest, last⟩ := chainLast r ⟨buffer, req.uriPath⟩ hits
    exact ⟨chainOf r ⟨buffer, req.uriPath⟩ hits, _, matchesSpells chain (matchSegmentTakes matched), last, same,
      tracksExact tracked (read hits first handles)⟩

theorem capturesExactUnlessMisread (plat : Platform) (order : RouteTree.HashOrder) (buffer : Nat) (r : Route H M V)
    (method : Method) (path : Text) (state : State V) :
    CapturesExact R plat order buffer r (incoming method path state) ↔
      ∀ hits ∈ (rootStops plat ⟨buffer, path⟩ r).head?, served (endOf r hits) = true →
        ∀ key step, deepest (chainOf r ⟨buffer, path⟩ hits) key = some step →
          ¬ Misread plat ⟨buffer, path⟩ (segmentOf step.1) step.2 :=
  capturesExactIff plat order buffer r rfl

def trailing : Option (Route Nat Unit Unit) := do
  let k ← (Route.new "<k:path>".toList).get 1
  (Route.new []).append k

theorem trailingPathMisread :
    ∃ r, trailing = some r ∧
      ¬ CapturesExact Unit literalAbove entryOrder 64 r (incoming .get "/".toList ∅) := by
  obtain ⟨r, built⟩ := Option.isSome_iff_exists.mp (show trailing.isSome by decide +kernel)
  have misread : (trailing.map fun r => (rootStops literalAbove ⟨64, "/".toList⟩ r).head?.any (fun hits =>
      served (endOf r hits) && (deepest (chainOf r ⟨64, "/".toList⟩ hits) "k".toList).any (fun step =>
        decide (Misread literalAbove ⟨64, "/".toList⟩ (segmentOf step.1) step.2)))) = some true := by
    decide +kernel
  rw [built, Option.map_some, Option.some.injEq] at misread
  obtain ⟨hits, first, bad⟩ := (Option.any_eq_true _ _).mp misread
  obtain ⟨handles, bad⟩ := Bool.and_eq_true_iff.mp bad
  obtain ⟨step, last, stray⟩ := (Option.any_eq_true _ _).mp bad
  refine ⟨r, built, fun captures => ?_⟩
  exact (capturesExactIff _ _ _ r rfl).mp captures hits first handles _ step last (of_decide_eq_true stray)

end Silent.PathCaptures
