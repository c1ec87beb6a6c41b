import Silent.PathCaptures

/-! Every range `bind_params` puts into a request, not only those a handler finds: the
calls a dispatch makes are listed along the children it commits to, and each range is
compared with the text its segment has matched. -/
namespace Silent.CaptureRanges
open ByteText PathSegment HttpRequest RouteBuilder RouteShape Dispatch SegmentSpec RouterSearch RouterRefinement
open RouteChains MiddlewareOnion PathCaptures

variable {H M V R : Type}

/- A call of `bind_params`: the segment of the node, the part of the path it was matched
with, and the match. -/
structure BindCall where
  segment : SpecialSeg
  path : Slice
  found : PathMatch
  deriving DecidableEq

-- The calls made from `call_children` on, when every middleware goes on to `next`.
def bindCallsBelow (plat : Platform) (candidates : RouteTree.Candidates H M V) (self : RouteTree H M V) (offset : Nat)
    (full : Slice) : List BindCall :=
  match RouteTree.sliceFrom full offset with
  | none => []
  | some remain =>
      match _chosen : RouteTree.chooseChild plat candidates self remain full with
      | some (some (child, candidate)) =>
          ⟨child.segment, remain, candidate⟩ ::
            bindCallsBelow plat candidates child (remainOffset full candidate.remain) full
      | _ => []
termination_by sizeOf self
decreasing_by exact RouteTree.sizeOfChild (RouteTree.chooseChildMem _chosen)

def bindCalls (plat : Platform) (candidates : RouteTree.Candidates H M V) (self : RouteTree H M V) (full : Slice) :
    List BindCall :=
  match RouteTree.callPathOnly plat self full full with
  | none => []
  | some candidate =>
      ⟨self.segment, full, candidate⟩ ::
        bindCallsBelow plat candidates self (remainOffset full candidate.remain) full

def capturedRange : Option PathMatchCapture → Option Range
  | some (.str captured) | some (.path captured) | some (.full captured) => some captured
  | _ => none

def matchedText (call : BindCall) : Text :=
  if call.segment.isFullPath then trimSlash call.path.text else firstSegment call.path.text

structure ValidRange (full : Slice) (range : Range) (piece : Text) : Prop where
  inside : range.stop ≤ byteLen full.text
  startsAt : IsBoundary full.text range.start
  stopsAt : IsBoundary full.text range.stop
  reads : (PathSlice.mk full range).asStr = some piece

def ValidCall (full : Slice) (call : BindCall) : Prop :=
  ∀ range, capturedRange call.found.capture = some range → ValidRange full range (matchedText call)

theorem takeBytesPrefix {s piece : Text} {n : Nat} (taken : takeBytes s n = some piece) :
    ∃ tail, s = piece ++ tail ∧ byteLen piece = n := by
  induction s generalizing n piece with
  | nil =>
    cases n with
    | zero => exact ⟨[], by simpa using taken.symm, by cases taken; rfl⟩
    | succ n => simp [takeBytes] at taken
  | cons c cs ih =>
    cases n with
    | zero =>
      cases taken
      exact ⟨c :: cs, rfl, rfl⟩
    | succ n =>
      rw [takeBytes] at taken
      split at taken
      · rename_i fits
        obtain ⟨rest, below, rfl⟩ := Option.map_eq_some_iff.mp taken
        obtain ⟨tail, rfl, size⟩ := ih below
        exact ⟨tail, rfl, by rw [byteLenCons, size]; omega⟩
      · contradiction

theorem dropBytesSuffix {s rest : Text} {n : Nat} (dropped : dropBytes s n = some rest) :
    ∃ before, s = before ++ rest ∧ byteLen before = n := by
  induction s generalizing n with
  | nil =>
    cases n with
    | zero => exact ⟨[], by simpa using dropped, rfl⟩
    | succ n => simp [dropBytes] at dropped
  | cons c cs ih =>
    cases n with
    | zero => exact ⟨[], by simpa using dropped, rfl⟩
    | succ n =>
      rw [dropBytes] at dropped
      split at dropped
      · rename_i fits
        obtain ⟨before, rfl, size⟩ := ih dropped
        exact ⟨c :: before, rfl, by rw [byteLenCons, size]; omega⟩
      · contradiction

theorem validOfReads {full : Slice} {range : Range} {piece : Text}
    (reads : (PathSlice.mk full range).asStr = some piece) : ValidRange full range piece := by
  have whole := reads
  simp only [PathSlice.asStr, sliceBytes, Option.bind_eq_bind] at whole
  split at whole
  · rename_i ordered
    obtain ⟨rest, dropped, taken⟩ := Option.bind_eq_some_iff.mp whole
    obtain ⟨before, start, startSize⟩ := dropBytesSuffix dropped
    obtain ⟨tail, rfl, size⟩ := takeBytesPrefix taken
    have stop : byteLen (before ++ piece) = range.stop := by
      rw [byteLenAppend]
      omega
    refine ⟨?_, ?_, ?_, reads⟩
    · rw [start, ← List.append_assoc, byteLenAppend, stop]
      exact Nat.le_add_right _ _
    · rw [IsBoundary, dropped]
      rfl
    · rw [IsBoundary, start, ← List.append_assoc, ← stop, dropBytesAppend]
      rfl
  · contradiction

theorem validIff (full : Slice) (range : Range) (piece : Text) :
    ValidRange full range piece ↔ (PathSlice.mk full range).asStr = some piece :=
  ⟨fun valid => valid.reads, validOfReads⟩

theorem validCallIff {plat : Platform} {full : Slice} {segment : SpecialSeg} {childless : Bool} {rest : Text}
    {found : PathMatch} (matched : matchSegment plat segment childless (suffixSlice full rest) full = some found)
    (inside : rest <:+ full.text) :
    ValidCall full ⟨segment, suffixSlice full rest, found⟩ ↔ ¬ Misread plat full segment rest := by
  unfold ValidCall
  simp only [validIff]
  cases segment with
  | root =>
    simp only [matchSegment] at matched
    generalize (if (suffixSlice full rest).text = ['/'] then plat.literal else suffixSlice full rest) = normalized at matched
    split at matched
    · contradiction
    · cases Option.some.inj matched
      simp [capturedRange, Misread, isPath]
  | static value =>
    obtain ⟨remain, _, rfl⟩ := Option.map_eq_some_iff.mp matched
    simp [capturedRange, Misread, isPath]
  | string key =>
    obtain ⟨first, _⟩ := stripOneSegmentText plat (suffixSlice full rest)
    simp only [matchSegment, first, suffixSliceText] at matched
    split at matched
    · contradiction
    · rename_i named
      cases Option.some.inj matched
      have more : trimSlash rest ≠ [] := fun empty => named (by rw [firstSegment, empty]; rfl)
      simp [capturedRange, matchedText, SpecialSeg.isFullPath, segmentRangeReads inside more, Misread, isPath]
  | path key =>
    simp only [matchSegment, Option.some.injEq] at matched
    subst matched
    simp only [capturedRange, matchedText, SpecialSeg.isFullPath, suffixSliceText, Misread, isPath, true_and,
      Option.some.injEq, forall_eq', Bool.false_eq_true, if_false]
    by_cases empty : trimSlash rest = []
    · have literal := stripOneSegmentEmpty plat (show trimSlash (suffixSlice full rest).text = [] from empty)
      have nothing : firstSegment rest = [] := by rw [firstSegment, empty]; rfl
      rw [literal, emptyRangeReads, nothing]
      simp [empty]
    · simp [segmentRangeReads inside empty, empty]
  | fullPath key =>
    simp only [matchSegment, Option.some.injEq] at matched
    subst matched
    have reads : (PathSlice.mk full (sliceRange full (stripLeadingSlash (suffixSlice full rest)))).asStr =
        some (stripLeadingSlash (suffixSlice full rest)).text :=
      rangeReads inside rfl (by rw [stripLeadingSlashText, suffixSliceText, List.append_nil])
    rw [stripLeadingSlashText, suffixSliceText] at reads
    simp [capturedRange, matchedText, SpecialSeg.isFullPath, reads, Misread, isPath]
  | int key | i32 key | i64 key | u64 key | u32 key | uuid key =>
    obtain ⟨_, _, v, _, captured⟩ := matchParsedText matched
    simp [captured, capturedRange, Misread, isPath]

def hitCall (full : Slice) (hit : Hit H M V) : BindCall := ⟨segmentOf hit.route, suffixSlice full hit.rest, hit.found⟩

theorem bindCallsBelowEq (plat : Platform) (candidates : RouteTree.Candidates H M V) (self : RouteTree H M V)
    (offset : Nat) (full : Slice) :
    bindCallsBelow plat candidates self offset full =
      match RouteTree.sliceFrom full offset with
      | none => []
      | some remain =>
          match RouteTree.chooseChild plat candidates self remain full with
          | some (some (child, candidate)) =>
              ⟨child.segment, remain, candidate⟩ ::
                bindCallsBelow plat candidates child (remainOffset full candidate.remain) full
          | _ => [] := by
  rw [bindCallsBelow]
  cases RouteTree.sliceFrom full offset with
  | none => rfl
  | some remain =>
    dsimp only
    split <;> simp_all

theorem bindCallsCarried {plat : Platform} {full : Slice} {candidates : RouteTree.Candidates H M V} {r : Route H M V}
    (scans : Throughout (Scans plat full candidates) r) :
    ∀ {node : RouteTree H M V} {inherited : List M}, Carries node r inherited →
      ∀ {rest : Text}, rest <:+ full.text →
        bindCallsBelow plat candidates node (byteLen full.text - byteLen rest) full =
          ((firstStop plat full r rest).getD []).map (hitCall full) := by
  induction scans with
  | @node r here below ih =>
    intro node inherited carries rest inside
    have chosen := chooseChildCarried (.node here below) carries inside
    rw [committedFirst] at chosen
    rw [bindCallsBelowEq, sliceFromRest inside, firstStopEq]
    simp only [chosen]
    cases deeper : (tried r rest).findSome? (stopVia plat full rest) with
    | none =>
      simp only [Option.bind_none, Option.none_or]
      split <;> rfl
    | some hits =>
      obtain ⟨c, mem, stop⟩ := List.exists_of_findSome?_eq_some deeper
      obtain ⟨found, tail, rfl, matched, deeper⟩ := stopViaHead stop
      have later := ih c (triedMem mem) (frozenCarries c (inherited ++ r.middlewares)) (matchAtSuffix matched inside)
      rw [deeper] at later
      simp only [Option.bind_some, committed, List.head?_cons, Option.map_some, (frozenCarries c _).segment,
        Option.some_or, Option.getD_some, List.map_cons, remainOffset, later]
      rfl

/- The routes whose parameters the dispatcher binds: the root, once it matches, and the
chain it commits to below. -/
def followed (plat : Platform) (full : Slice) (r : Route H M V) : List (Step H M V) :=
  match matchAt plat full r full.text with
  | none => []
  | some found => (r, full.text) :: ((firstStop plat full r found.remain.text).getD []).map stepOf

theorem firstStopHits {plat : Platform} {full : Slice} {r : Route H M V} {rest : Text} (inside : rest <:+ full.text) :
    ∀ hit ∈ (firstStop plat full r rest).getD [], hit.rest <:+ full.text ∧
      matchAt plat full hit.route hit.rest = some hit.found := by
  intro hit listed
  cases first : firstStop plat full r rest with
  | none => simp [first] at listed
  | some hits =>
    rw [first, Option.getD_some] at listed
    rw [firstStopHead] at first
    have chain := stopsMatch (List.mem_of_head? first)
    clear first
    induction chain with
    | stop ends => cases listed
    | child mem matched below ih =>
      rcases List.mem_cons.mp listed with rfl | later
      · exact ⟨inside, matched⟩
      · exact ih (matchAtSuffix matched inside) later

theorem bindCallsConverted (plat : Platform) (order : RouteTree.HashOrder) (full : Slice) (r : Route H M V) :
    bindCalls plat (RouteTree.candidateIndices plat order) (RouteTree.convertToRouteTree r) full =
      match matchAt plat full r full.text with
      | none => []
      | some found =>
          ⟨segmentOf r, full, found⟩ :: ((firstStop plat full r found.remain.text).getD []).map (hitCall full) := by
  have whole : RouteTree.convertToRouteTree r = frozen r [] := rfl
  have root : RouteTree.callPathOnly plat (frozen r []) full full = matchAt plat full r full.text := by
    rw [← callPathOnlyFrozen plat full r [] full.text, suffixSliceSelf]
  rw [whole, bindCalls, root]
  cases matched : matchAt plat full r full.text with
  | none => rfl
  | some found =>
    have calls := bindCallsCarried (indicesScan plat order full r) (frozenCarries r [])
      (matchAtSuffix matched List.suffix_rfl)
    dsimp only
    rw [(frozenCarries r []).segment, remainOffset, calls]

theorem bindCallsValidIff (plat : Platform) (order : RouteTree.HashOrder) (full : Slice) (r : Route H M V) :
    (∀ call ∈ bindCalls plat (RouteTree.candidateIndices plat order) (RouteTree.convertToRouteTree r) full,
        ValidCall full call) ↔
      ∀ step ∈ followed plat full r, ¬ Misread plat full (segmentOf step.1) step.2 := by
  rw [bindCallsConverted, followed]
  cases matched : matchAt plat full r full.text with
  | none => simp
  | some found =>
    have later := matchAtSuffix matched List.suffix_rfl
    have here : ValidCall full ⟨segmentOf r, full, found⟩ ↔ ¬ Misread plat full (segmentOf r) full.text := by
      have own := validCallIff matched List.suffix_rfl
      rwa [suffixSliceSelf] at own
    dsimp only
    rw [List.forall_mem_cons, List.forall_mem_cons, here, List.forall_mem_map, List.forall_mem_map]
    refine and_congr Iff.rfl (forall₂_congr fun hit listed => ?_)
    obtain ⟨inside, at_⟩ := firstStopHits later hit listed
    exact validCallIff at_ inside

def bindAll (full : Slice) (calls : List BindCall) (req : Request V) : Option (Request V) :=
  calls.foldlM (fun req call => RouteTree.bindParams call.segment req call.found full) req

theorem bindParamsAgree {segment : SpecialSeg} {found : PathMatch} {full : Slice} {req other bound : Request V}
    (same : other.pathParams = req.pathParams) (binding : RouteTree.bindParams segment req found full = some bound) :
    ∃ bound', RouteTree.bindParams segment other found full = some bound' ∧ bound'.pathParams = bound.pathParams := by
  unfold RouteTree.bindParams at binding ⊢
  split at binding
  all_goals first
    | contradiction
    | (cases Option.some.inj binding
       exact ⟨_, rfl, by simp only [Request.setPathParams, same]⟩)

theorem followBound {env : Env H M V R (Traced (Event H M V))} (observes : Observes env) {full : Slice}
    {hits : List (Hit H M V)} {r : Route H M V} {req other seen : Request V} {map : HashMap Method H}
    (same : other.pathParams = req.pathParams) (called : .served map seen ∈ events (follow env full r hits req)) :
    ∃ bound, bindAll full (hits.map (hitCall full)) other = some bound ∧ seen.pathParams = bound.pathParams := by
  induction hits generalizing r req other with
  | nil =>
    obtain ⟨_, _, rfl⟩ := serveObserved observes called
    exact ⟨other, rfl, same.symm⟩
  | cons hit hits ih =>
    simp only [follow] at called
    split at called
    · simp at called
    · rename_i bound binding
      obtain ⟨passed, kept, later⟩ := enterObserved observes hit.route called
      obtain ⟨bound', binding', agree⟩ := bindParamsAgree same binding
      obtain ⟨last, rest, params⟩ := ih (agree.trans ((addStateParams hit.route bound).symm.trans kept.symm)) later
      refine ⟨last, ?_, params⟩
      have step : bindAll full ((hit :: hits).map (hitCall full)) other =
          (RouteTree.bindParams (segmentOf hit.route) other hit.found full).bind
            (bindAll full (hits.map (hitCall full))) := List.foldlM_cons
      rw [step, binding', Option.bind_some]
      exact rest

theorem servedBound {env : Env H M V R (Traced (Event H M V))} (observes : Observes env) (plat : Platform)
    (order : RouteTree.HashOrder) (buffer : Nat) (r : Route H M V) {req seen : Request V} {map : HashMap Method H}
    (called : .served map seen ∈ events (RouteTree.call env plat (RouteTree.candidateIndices plat order) buffer
      (RouteTree.convertToRouteTree r) req)) :
    ∃ bound, bindAll ⟨buffer, req.uriPath⟩ (bindCalls plat (RouteTree.candidateIndices plat order)
        (RouteTree.convertToRouteTree r) ⟨buffer, req.uriPath⟩) (arrive r ⟨buffer, req.uriPath⟩ req) = some bound ∧
      seen.pathParams = bound.pathParams := by
  rw [callConverted] at called
  rw [bindCallsConverted]
  unfold answerRoot at called
  dsimp only at called
  split at called
  · simp at called
  · rename_i found matched
    split at called
    · simp at called
    · rename_i bound binding
      obtain ⟨passed, kept, later⟩ := enterObserved observes r called
      unfold answer at later
      split at later
      · rename_i hits first
        obtain ⟨last, rest, params⟩ := followBound observes ((addStateParams r bound).symm.trans kept.symm) later
        refine ⟨last, ?_, params⟩
        simp only [matched, first, Option.getD_some]
        have step : ∀ calls, bindAll ⟨buffer, req.uriPath⟩ (⟨segmentOf r, ⟨buffer, req.uriPath⟩, found⟩ :: calls)
            (arrive r ⟨buffer, req.uriPath⟩ req) = (RouteTree.bindParams (segmentOf r) (arrive r ⟨buffer, req.uriPath⟩ req)
              found ⟨buffer, req.uriPath⟩).bind (bindAll ⟨buffer, req.uriPath⟩ calls) := fun calls => List.foldlM_cons
        rw [step, binding, Option.bind_some]
        exact rest
      · simp at later

/- At one request: every range `bind_params` is given is valid, and whatever middlewares pass
the request on, a handler finds the parameters of these calls and none makes `as_str` panic. -/
def CapturesValid (R : Type) (plat : Platform) (order : RouteTree.HashOrder) (buffer : Nat) (r : Route H M V)
    (req : Request V) : Prop :=
  (∀ call ∈ bindCalls plat (RouteTree.candidateIndices plat order) (RouteTree.convertToRouteTree r) ⟨buffer, req.uriPath⟩,
    ValidCall ⟨buffer, req.uriPath⟩ call) ∧
  ∀ env : Env H M V R (Traced (Event H M V)), Observes env → ∀ map seen,
    .served map seen ∈ events (RouteTree.call env plat (RouteTree.candidateIndices plat order) buffer
      (RouteTree.convertToRouteTree r) req) →
    (∃ bound, bindAll ⟨buffer, req.uriPath⟩ (bindCalls plat (RouteTree.candidateIndices plat order)
        (RouteTree.convertToRouteTree r) ⟨buffer, req.uriPath⟩) (arrive r ⟨buffer, req.uriPath⟩ req) = some bound ∧
      seen.pathParams = bound.pathParams) ∧
    ∀ key param, seen.pathParams.lookup key = some param → (reading param).isSome

theorem tracksReads {plat : Platform} {full : Slice} {chain : List (Step H M V)} {params : HashMap Text PathParam}
    (tracked : Tracks plat full chain params) (read : ∀ step ∈ chain, ¬ Misread plat full (segmentOf step.1) step.2)
    {key : Text} {param : PathParam} (found : params.lookup key = some param) : (reading param).isSome := by
  have own := tracked key
  cases last : deepest chain key with
  | none =>
    rw [last, found] at own
    cases own
  | some step =>
    rw [last] at own
    obtain ⟨param', value, found', _, reads⟩ := own
    have listed : step ∈ chain := List.mem_reverse.mp (List.mem_of_find?_eq_some last)
    cases Option.some.inj (found.symm.trans found')
    rw [reads, if_neg (read step listed)]
    rfl

theorem chainFollowed {plat : Platform} {full : Slice} {r : Route H M V} {hits : List (Hit H M V)}
    (first : hits ∈ (rootStops plat full r).head?) : followed plat full r = chainOf r full hits := by
  unfold rootStops at first
  unfold followed
  cases matched : matchAt plat full r full.text with
  | none =>
    rw [matched] at first
    cases first
  | some found =>
    rw [matched] at first
    dsimp only at first ⊢
    rw [firstStopHead, Option.mem_def.mp first]
    rfl

theorem capturesValidUnlessMisread (plat : Platform) (order : RouteTree.HashOrder) (buffer : Nat) (r : Route H M V)
    (method : Method) (path : Text) (state : State V) :
    CapturesValid R plat order buffer r (incoming method path state) ↔
      ∀ step ∈ followed plat ⟨buffer, path⟩ r, ¬ Misread plat ⟨buffer, path⟩ (segmentOf step.1) step.2 := by
  unfold CapturesValid
  rw [bindCallsValidIff]
  refine ⟨And.left, fun read => ⟨read, fun env observes map seen called =>
    ⟨servedBound observes plat order buffer r called, fun key param found => ?_⟩⟩⟩
  rw [callConverted] at called
  obtain ⟨hits, first, _, _, tracked⟩ := callObserved observes rfl called
  have whole : followed plat ⟨buffer, path⟩ r = chainOf r ⟨buffer, path⟩ hits := chainFollowed first
  rw [whole] at read
  exact tracksReads tracked read found

theorem emptyRestOutside :
    ∃ r, trailing = some r ∧ ¬ CapturesValid Unit literalAbove entryOrder 64 r (incoming .get "/".toList ∅) := by
  obtain ⟨r, built⟩ := Option.isSome_iff_exists.mp (show trailing.isSome by decide +kernel)
  have misread : (trailing.map fun r => (followed literalAbove ⟨64, "/".toList⟩ r).any (fun step =>
      decide (Misread literalAbove ⟨64, "/".toList⟩ (segmentOf step.1) step.2))) = some true := by
    decide +kernel
  rw [built, Option.map_some, Option.some.injEq] at misread
  obtain ⟨step, listed, stray⟩ := List.any_eq_true.mp misread
  refine ⟨r, built, fun valid => ?_⟩
  exact (bindCallsValidIff _ _ _ r).mp valid.1 step listed (of_decide_eq_true stray)

end Silent.CaptureRanges
