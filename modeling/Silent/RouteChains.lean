import Silent.RouterRefinement

/-! Chains of routes that match a path. `Matches` says what a matching chain is,
through any child; `stops` lists those the router can find, in the order in which it
tries them. The search takes the head of that list and nothing else. -/
namespace Silent.RouteChains
open ByteText PathSegment HttpRequest RouteBuilder RouteShape Dispatch SegmentSpec RouterSearch RouterRefinement

variable {H M V R : Type} {m : Type → Type}

/- A platform and an iteration order to evaluate with: the empty literal above the
path buffers, no text that is a uuid, and entries visited as they are stored. -/
def literalAbove : Platform := ⟨4096, fun _ => none⟩

def entryOrder : RouteTree.HashOrder := ⟨fun map => map.entries.map Sigma.snd, fun _ => .refl _⟩

def endOf (r : Route H M V) : List (Hit H M V) → Route H M V
  | [] => r
  | hit :: hits => endOf hit.route hits

def served (r : Route H M V) : Bool := !r.handler.entries.isEmpty

/- Below `r`, with `rest` still to read, the chain `hits` uses up the path: every
segment consumes its part, and at the end nothing is left or the last one is `**`. -/
inductive Matches (plat : Platform) (full : Slice) : Route H M V → Text → List (Hit H M V) → Prop
  | stop {r rest} (ends : rest = [] ∨ (segmentOf r).isFullPath = true) : Matches plat full r rest []
  | child {r c : Route H M V} {rest found hits} (mem : c ∈ r.children)
      (matched : matchAt plat full c rest = some found)
      (below : Matches plat full c found.remain.text hits) :
      Matches plat full r rest (⟨c, rest, found⟩ :: hits)

def RootMatches (plat : Platform) (full : Slice) (r : Route H M V) (hits : List (Hit H M V)) : Prop :=
  ∃ found, matchAt plat full r full.text = some found ∧ Matches plat full r found.remain.text hits

def stops (plat : Platform) (full : Slice) (r : Route H M V) (rest : Text) : List (List (Hit H M V)) :=
  (tried r rest).attach.flatMap (fun c =>
    match matchAt plat full c.1 rest with
    | none => []
    | some found => (stops plat full c.1 found.remain.text).map (⟨c.1, rest, found⟩ :: ·)) ++
  if rest = [] ∨ (segmentOf r).isFullPath then [[]] else []
termination_by sizeOf r
decreasing_by exact Route.sizeOfChild (triedMem c.2)

def rootStops (plat : Platform) (full : Slice) (r : Route H M V) : List (List (Hit H M V)) :=
  match matchAt plat full r full.text with
  | none => []
  | some found => stops plat full r found.remain.text

def stopsVia (plat : Platform) (full : Slice) (rest : Text) (c : Route H M V) : List (List (Hit H M V)) :=
  match matchAt plat full c rest with
  | none => []
  | some found => (stops plat full c found.remain.text).map (⟨c, rest, found⟩ :: ·)

theorem stopsEq (plat : Platform) (full : Slice) (r : Route H M V) (rest : Text) :
    stops plat full r rest = (tried r rest).flatMap (stopsVia plat full rest) ++
      if rest = [] ∨ (segmentOf r).isFullPath then [[]] else [] := by
  have plain : (tried r rest).attach.flatMap (fun c => stopsVia plat full rest c.1) =
      (tried r rest).flatMap (stopsVia plat full rest) := by
    conv_rhs => rw [← List.attach_map_subtype_val (tried r rest), List.flatMap_map]
  rw [stops, ← plain]
  rfl

theorem firstStopHead (plat : Platform) (full : Slice) (r : Route H M V) (rest : Text) :
    firstStop plat full r rest = (stops plat full r rest).head? := by
  induction r using childInduction generalizing rest with
  | step r ih =>
    have via : ∀ c ∈ tried r rest, stopVia plat full rest c = (stopsVia plat full rest c).head? := by
      intro c mem
      unfold stopVia stopsVia
      cases matchAt plat full c rest with
      | none => rfl
      | some found =>
        simp only [Option.bind_eq_bind, Option.bind_some, ih c (triedMem mem), List.head?_map]
        cases (stops plat full c found.remain.text).head? <;> rfl
    rw [firstStopEq, stopsEq, List.head?_append, List.head?_flatMap, findSomeCongr via]
    split <;> rfl

theorem stopsMatch {plat : Platform} {full : Slice} {r : Route H M V} {rest : Text} {hits : List (Hit H M V)}
    (mem : hits ∈ stops plat full r rest) : Matches plat full r rest hits := by
  induction r using childInduction generalizing rest hits with
  | step r ih =>
    rw [stopsEq, List.mem_append] at mem
    rcases mem with deeper | here
    · obtain ⟨c, candidate, through⟩ := List.mem_flatMap.mp deeper
      unfold stopsVia at through
      split at through
      · simp at through
      · rename_i found matched
        obtain ⟨tail, below, rfl⟩ := List.mem_map.mp through
        exact .child (triedMem candidate) matched (ih c (triedMem candidate) below)
    · split at here
      · rename_i ends
        rw [List.mem_singleton.mp here]
        exact .stop ends
      · simp at here

theorem matchesThroughout {P : Route H M V → Prop} {plat : Platform} {full : Slice} {r : Route H M V} {rest : Text}
    {hits : List (Hit H M V)} (all : Throughout P r) (chain : Matches plat full r rest hits) : ∀ hit ∈ hits, P hit.route := by
  induction chain with
  | stop ends =>
    intro hit listed
    cases listed
  | child mem matched below ih =>
    have inner := throughoutBelow all _ mem
    intro hit listed
    rcases List.mem_cons.mp listed with rfl | later
    · exact throughoutHere inner
    · exact ih inner hit later

theorem matchesStop {plat : Platform} {full : Slice} {r : Route H M V} {rest : Text} {hits : List (Hit H M V)}
    (proper : Throughout Proper r) (chain : Matches plat full r rest hits) : hits ∈ stops plat full r rest := by
  induction chain with
  | stop ends =>
    rw [stopsEq, if_pos ends]
    exact List.mem_append_right _ (List.mem_singleton_self _)
  | @child r c rest found hits mem matched below ih =>
    have inner := throughoutBelow proper c mem
    have candidate := triedComplete (throughoutHere proper).distinct mem (throughoutHere inner).plain
      (Option.ne_none_iff_exists'.mpr ⟨found, matched⟩)
    rw [stopsEq]
    refine List.mem_append_left _ (List.mem_flatMap.mpr ⟨c, candidate, ?_⟩)
    simp only [stopsVia, matched]
    exact List.mem_map_of_mem (ih inner)

theorem rootStopsMatch {plat : Platform} {full : Slice} {r : Route H M V} {hits : List (Hit H M V)}
    (mem : hits ∈ rootStops plat full r) : RootMatches plat full r hits := by
  unfold rootStops at mem
  split at mem
  · simp at mem
  · rename_i found matched
    exact ⟨found, matched, stopsMatch mem⟩

theorem bindParamsMatched {plat : Platform} {segment : SpecialSeg} {childless : Bool} {path full : Slice}
    {found : PathMatch} (matched : matchSegment plat segment childless path full = some found)
    (req : Request V) (source : Slice) :
    ∃ bound, RouteTree.bindParams segment req found source = some bound := by
  cases segment with
  | root | static value => exact ⟨req, rfl⟩
  | string key =>
    simp only [matchSegment] at matched
    split at matched
    · contradiction
    · cases Option.some.inj matched
      exact ⟨_, rfl⟩
  | path key | fullPath key =>
    simp only [matchSegment, Option.some.injEq] at matched
    subst matched
    exact ⟨_, rfl⟩
  | int key | i32 key | i64 key | u64 key | u32 key | uuid key =>
    obtain ⟨_, _, v, _, captured⟩ := matchParsedText matched
    exact ⟨_, by simp only [RouteTree.bindParams, captured]; rfl⟩

end Silent.RouteChains
