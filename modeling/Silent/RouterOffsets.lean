import Mathlib.Logic.Relation
import Silent.CaptureRanges

/-! The offsets the dispatcher hands down. A call of `path_can_resolve` or
`call_children` is a frame: a node and where in the path it stands. The frames a frame
calls are a relation; the bodies read nothing else of their recursion, the relation is
well founded, and along it offsets are positions in the path that never decrease. -/
namespace Silent.RouterOffsets
open ByteText PathSegment HttpRequest RouteBuilder RouteShape Dispatch SegmentSpec RouterSearch RouterRefinement CaptureRanges

variable {H M V R : Type} {m : Type → Type}

structure Frame (H M V : Type) where
  node : RouteTree H M V
  offset : Nat

section
variable (plat : Platform) (candidates : RouteTree.Candidates H M V) (full : Slice)

/- The child is called itself, or through the copy its arc keeps. -/
inductive Calls : Frame H M V → Frame H M V → Prop
  | child {frame remain idx child candidate} (sliced : RouteTree.sliceFrom full frame.offset = some remain)
      (among : idx ∈ candidates frame.node remain) (found : frame.node.children[idx]? = some child)
      (matched : RouteTree.callPathOnly plat child remain full = some candidate) :
      Calls frame ⟨child, remainOffset full candidate.remain⟩
  | arc {frame remain idx child candidate arc} (sliced : RouteTree.sliceFrom full frame.offset = some remain)
      (among : idx ∈ candidates frame.node remain) (found : frame.node.children[idx]? = some child)
      (matched : RouteTree.callPathOnly plat child remain full = some candidate) (kept : child.selfArc = some arc) :
      Calls frame ⟨arc, remainOffset full candidate.remain⟩

def Entered (t : RouteTree H M V) (frame : Frame H M V) : Prop :=
  ∃ candidate, RouteTree.callPathOnly plat t full full = some candidate ∧
    frame.offset = remainOffset full candidate.remain ∧ (frame.node = t ∨ t.selfArc = some frame.node)

def resolveBody (answer : Frame H M V → Option Bool) (frame : Frame H M V) : Option Bool :=
  match RouteTree.sliceFrom full frame.offset with
  | none => none
  | some remain =>
      match RouteTree.loopReturn (RouteTree.resolveVia plat (answer ⟨·, ·⟩) frame.node remain full) (candidates frame.node remain) with
      | none => none
      | some (some ()) => some true
      | some none => some (remain.text.isEmpty || frame.node.segment.isFullPath)

def withPathBody (env : Env H M V R m) (answer : Frame H M V → Request V → m (SilentResult R)) (self : RouteTree H M V)
    (req : Request V) (offset : Nat) : m (SilentResult R) :=
  let req := RouteTree.extendState self req
  if self.middlewareStart ≤ self.middlewares.length then
    let middlewareSlice := self.middlewares.drop self.middlewareStart
    if middlewareSlice.isEmpty then answer ⟨self, offset⟩ req
    else
      match self.selfArc with
      | some arc => (Next.build (answer ⟨arc, offset⟩) middlewareSlice).call env req
      | none => (Next.build (answer ⟨self, offset⟩) middlewareSlice).call env req
  else env.panicked

def childrenBody [Monad m] (env : Env H M V R m) (answer : Frame H M V → Request V → m (SilentResult R))
    (frame : Frame H M V) (req : Request V) : m (SilentResult R) :=
  match RouteTree.sliceFrom full frame.offset with
  | none => env.panicked
  | some remain =>
      match RouteTree.chooseChild plat candidates frame.node remain full with
      | none => env.panicked
      | some (some (child, candidate)) =>
          match RouteTree.bindParams child.segment req candidate full with
          | none => RouteTree.notFoundError
          | some req => withPathBody env answer child req (remainOffset full candidate.remain)
      | some none =>
          if remain.text = [] then
            if frame.node.hasHandler then env.callHandlers frame.node.handler req else RouteTree.notFoundError
          else if frame.node.segment.isFullPath && frame.node.hasHandler then env.callHandlers frame.node.handler req
          else RouteTree.notFoundError

def callBody [Monad m] (env : Env H M V R m) (answer : Frame H M V → Request V → m (SilentResult R))
    (t : RouteTree H M V) (req : Request V) : m (SilentResult R) :=
  let req := match t.state with
    | some state => {req with state := state}
    | none => req
  let req := req.setPathSource full
  match RouteTree.callPathOnly plat t full full with
  | none => RouteTree.notFoundError
  | some candidate =>
      match RouteTree.bindParams t.segment req candidate full with
      | none => RouteTree.notFoundError
      | some req => withPathBody env answer t req (remainOffset full candidate.remain)

end

section
variable {plat : Platform} {candidates : RouteTree.Candidates H M V} {full : Slice}

theorem callsSmaller {frame next : Frame H M V} (calls : Calls plat candidates full frame next) :
    sizeOf next.node < sizeOf frame.node := by
  cases calls with
  | child sliced among found matched => exact RouteTree.sizeOfChild (List.mem_of_getElem? found)
  | arc sliced among found matched kept =>
    exact Nat.lt_trans (RouteTree.sizeOfArc kept) (RouteTree.sizeOfChild (List.mem_of_getElem? found))

theorem callsWellFounded (plat : Platform) (candidates : RouteTree.Candidates H M V) (full : Slice) :
    WellFounded (fun next frame : Frame H M V => Calls plat candidates full frame next) :=
  Subrelation.wf (fun calls => callsSmaller calls) (measure (fun frame : Frame H M V => sizeOf frame.node)).wf

theorem slicedSuffix {remain : Slice} {offset : Nat} (sliced : RouteTree.sliceFrom full offset = some remain) :
    remain.text <:+ full.text ∧ remainOffset full remain = offset := by
  obtain ⟨rest, dropped, rfl⟩ := Option.map_eq_some_iff.mp sliced
  obtain ⟨before, whole, size⟩ := dropBytesSuffix dropped
  exact ⟨⟨before, whole.symm⟩, (suffixOffset whole).trans size⟩

theorem remainPlaced {node : RouteTree H M V} {path : Slice} {candidate : PathMatch} (inside : path.text <:+ full.text)
    (matched : RouteTree.callPathOnly plat node path full = some candidate) :
    ∃ before, full.text = before ++ candidate.remain.text ∧ byteLen candidate.remain.text ≤ byteLen full.text ∧
      remainOffset full candidate.remain = byteLen before ∧ IsBoundary full.text (byteLen before) := by
  obtain ⟨before, whole⟩ := (matchSegmentSuffix matched).trans inside
  refine ⟨before, whole.symm, ?_, suffixOffset whole.symm, ?_⟩
  · rw [← whole, byteLenAppend]
    exact Nat.le_add_left _ _
  · rw [IsBoundary, ← whole, dropBytesAppend]
    rfl

theorem loopReturnCongr {ι β : Type} {body other : ι → Option (Option β)} {is : List ι} (same : ∀ i ∈ is, body i = other i) :
    RouteTree.loopReturn body is = RouteTree.loopReturn other is := by
  induction is with
  | nil => rfl
  | cons i rest ih =>
    have later := ih (fun j mem => same j (List.mem_cons_of_mem i mem))
    rw [RouteTree.loopReturn, RouteTree.loopReturn, same i List.mem_cons_self, later]

theorem resolveBodyReads {answer other : Frame H M V → Option Bool} {frame : Frame H M V}
    (same : ∀ next, Calls plat candidates full frame next → answer next = other next) :
    resolveBody plat candidates full answer frame = resolveBody plat candidates full other frame := by
  unfold resolveBody
  cases sliced : RouteTree.sliceFrom full frame.offset with
  | none => rfl
  | some remain =>
    dsimp only
    rw [loopReturnCongr]
    intro idx among
    unfold RouteTree.resolveVia
    cases found : frame.node.children[idx]? with
    | none => rfl
    | some child =>
      dsimp only
      cases matched : RouteTree.callPathOnly plat child remain full with
      | none => rfl
      | some candidate => simp only [same _ (.child sliced among found matched)]

def resolves (plat : Platform) (candidates : RouteTree.Candidates H M V) (full : Slice) (frame : Frame H M V) : Option Bool :=
  RouteTree.pathCanResolve plat candidates frame.node frame.offset full

theorem resolvesBody (frame : Frame H M V) :
    resolves plat candidates full frame = resolveBody plat candidates full (resolves plat candidates full) frame :=
  RouteTree.pathCanResolveEq plat candidates frame.node frame.offset full

theorem resolvesOnly (answer : Frame H M V → Option Bool) :
    (∀ frame, answer frame = resolveBody plat candidates full answer frame) ↔ answer = resolves plat candidates full := by
  constructor
  · intro solves
    funext frame
    induction frame using (callsWellFounded plat candidates full).induction with
    | _ frame ih => rw [solves, resolvesBody, resolveBodyReads ih]
  · rintro rfl
    exact resolvesBody

end

section
variable {env : Env H M V R m} {plat : Platform} {candidates : RouteTree.Candidates H M V} {full : Slice}

theorem withPathReads {answer other : Frame H M V → Request V → m (SilentResult R)} {self : RouteTree H M V} {offset : Nat}
    (node : answer ⟨self, offset⟩ = other ⟨self, offset⟩)
    (arc : ∀ arc, self.selfArc = some arc → answer ⟨arc, offset⟩ = other ⟨arc, offset⟩) (req : Request V) :
    withPathBody env answer self req offset = withPathBody env other self req offset := by
  unfold withPathBody
  rw [node]
  cases kept : self.selfArc with
  | none => rfl
  | some copy => simp only [arc copy kept]

theorem chooseChildSource {node child : RouteTree H M V} {remain : Slice} {candidate : PathMatch}
    (chosen : RouteTree.chooseChild plat candidates node remain full = some (some (child, candidate))) :
    ∃ idx ∈ candidates node remain, node.children[idx]? = some child ∧
      RouteTree.callPathOnly plat child remain full = some candidate := by
  obtain ⟨idx, among, body⟩ := RouteTree.loopReturnSource chosen
  split at body
  · contradiction
  · rename_i found
    split at body
    · cases body
    · rename_i matched
      split at body
      · contradiction
      · cases body
      · cases body
        exact ⟨idx, among, found, matched⟩

theorem childrenBodyReads [Monad m] {answer other : Frame H M V → Request V → m (SilentResult R)} {frame : Frame H M V}
    (same : ∀ next, Calls plat candidates full frame next → answer next = other next) :
    childrenBody plat candidates full env answer frame = childrenBody plat candidates full env other frame := by
  funext req
  unfold childrenBody
  cases sliced : RouteTree.sliceFrom full frame.offset with
  | none => rfl
  | some remain =>
    dsimp only
    cases chosen : RouteTree.chooseChild plat candidates frame.node remain full with
    | none => rfl
    | some choice =>
      cases choice with
      | none => rfl
      | some pair =>
        obtain ⟨child, candidate⟩ := pair
        obtain ⟨idx, among, found, matched⟩ := chooseChildSource chosen
        dsimp only
        cases RouteTree.bindParams child.segment req candidate full with
        | none => rfl
        | some bound =>
          exact withPathReads (same _ (.child sliced among found matched))
            (fun arc kept => same _ (.arc sliced among found matched kept)) bound

def dispatches [Monad m] (env : Env H M V R m) (plat : Platform) (candidates : RouteTree.Candidates H M V) (full : Slice)
    (frame : Frame H M V) (req : Request V) : m (SilentResult R) :=
  RouteTree.callChildren env plat candidates frame.node req frame.offset full

theorem callWithPathBody [Monad m] (self : RouteTree H M V) (req : Request V) (offset : Nat) :
    RouteTree.callWithPath env plat candidates self req offset full =
      withPathBody env (dispatches env plat candidates full) self req offset := by
  rw [RouteTree.callWithPath, withPathBody]
  dsimp only
  split
  · split
    · rfl
    · split <;> rename_i kept <;> rw [kept] <;> rfl
  · rfl

theorem dispatchesBody [Monad m] (frame : Frame H M V) :
    dispatches env plat candidates full frame =
      childrenBody plat candidates full env (dispatches env plat candidates full) frame := by
  funext req
  rw [dispatches, RouteTree.callChildrenEq]
  simp only [callWithPathBody]
  rfl

theorem dispatchesOnly [Monad m] (answer : Frame H M V → Request V → m (SilentResult R)) :
    (∀ frame, answer frame = childrenBody plat candidates full env answer frame) ↔
      answer = dispatches env plat candidates full := by
  constructor
  · intro solves
    funext frame
    induction frame using (callsWellFounded plat candidates full).induction with
    | _ frame ih => rw [solves, dispatchesBody, childrenBodyReads ih]
  · rintro rfl
    exact dispatchesBody

theorem callEnters [Monad m] {t : RouteTree H M V} {req : Request V} {answer : Frame H M V → Request V → m (SilentResult R)}
    (path : full.text = req.uriPath) (same : ∀ frame, Entered plat full t frame → answer frame = dispatches env plat candidates full frame) :
    RouteTree.call env plat candidates full.ptr t req = callBody plat full env answer t req := by
  obtain ⟨buffer, text⟩ := full
  subst path
  unfold RouteTree.call callBody
  cases t.state with
  | none | some state =>
    dsimp only
    cases matched : RouteTree.callPathOnly plat t ⟨buffer, req.uriPath⟩ ⟨buffer, req.uriPath⟩ with
    | none => rfl
    | some candidate =>
      have entered := fun node chosen => same ⟨node, _⟩ ⟨candidate, matched, rfl, chosen⟩
      dsimp only
      generalize RouteTree.bindParams t.segment _ candidate _ = bound
      cases bound with
      | none => rfl
      | some bound =>
        dsimp only
        rw [callWithPathBody]
        exact (withPathReads (entered _ (.inl rfl)) (fun arc kept => entered _ (.inr kept)) _).symm

end

section
variable {plat : Platform} {candidates : RouteTree.Candidates H M V} {full : Slice}

def Placed (full : Slice) (frame : Frame H M V) : Prop :=
  ∃ remain, RouteTree.sliceFrom full frame.offset = some remain ∧ remain.text <:+ full.text

theorem placedAt {rest : Text} (inside : rest <:+ full.text) (node : RouteTree H M V) :
    Placed full ⟨node, byteLen full.text - byteLen rest⟩ :=
  ⟨suffixSlice full rest, sliceFromRest inside, inside⟩

theorem enteredPlaced {t : RouteTree H M V} {frame : Frame H M V} (entered : Entered plat full t frame) : Placed full frame := by
  obtain ⟨candidate, matched, offset, -⟩ := entered
  unfold Placed
  rw [offset]
  exact placedAt (matchSegmentSuffix matched) frame.node

theorem callsMatched {frame next : Frame H M V} (calls : Calls plat candidates full frame next) :
    ∃ (remain : Slice) (child : RouteTree H M V) (candidate : PathMatch), RouteTree.sliceFrom full frame.offset = some remain ∧
      RouteTree.callPathOnly plat child remain full = some candidate ∧ next.offset = remainOffset full candidate.remain := by
  cases calls with
  | child sliced among found matched => exact ⟨_, _, _, sliced, matched, rfl⟩
  | arc sliced among found matched kept => exact ⟨_, _, _, sliced, matched, rfl⟩

theorem callsPlaced {frame next : Frame H M V} (calls : Calls plat candidates full frame next) : Placed full next := by
  obtain ⟨remain, child, candidate, sliced, matched, offset⟩ := callsMatched calls
  unfold Placed
  rw [offset]
  exact placedAt ((matchSegmentSuffix matched).trans (slicedSuffix sliced).1) next.node

theorem callsForward {frame next : Frame H M V} (calls : Calls plat candidates full frame next) : frame.offset ≤ next.offset := by
  obtain ⟨remain, child, candidate, sliced, matched, offset⟩ := callsMatched calls
  obtain ⟨taken, shorter⟩ := matchSegmentSuffix matched
  have less : byteLen candidate.remain.text ≤ byteLen remain.text := by
    rw [← shorter, byteLenAppend]
    exact Nat.le_add_left _ _
  rw [offset, ← (slicedSuffix sliced).2]
  exact Nat.sub_le_sub_left less _

theorem reachedPlaced {t : RouteTree H M V} {start frame : Frame H M V} (entered : Entered plat full t start)
    (reached : Relation.ReflTransGen (Calls plat candidates full) start frame) : Placed full frame := by
  cases reached with
  | refl => exact enteredPlaced entered
  | tail earlier calls => exact callsPlaced calls

end

section
variable {plat : Platform} {full : Slice}

-- A node of a converted tree, or the copy of one in its arc.
def Built (node : RouteTree H M V) : Prop := ∃ r inherited, node = frozen r inherited ∨ node = arcOf r inherited

theorem builtCarries {node : RouteTree H M V} (built : Built node) : ∃ r inherited, Carries node r inherited := by
  obtain ⟨r, inherited, rfl | rfl⟩ := built
  · exact ⟨r, inherited, frozenCarries r inherited⟩
  · exact ⟨r, inherited, arcCarries r inherited⟩

theorem builtArc {node arc : RouteTree H M V} (built : Built node) (kept : node.selfArc = some arc) : Built arc := by
  obtain ⟨r, inherited, rfl | rfl⟩ := built
  · rw [frozenEq] at kept
    cases Option.some.inj kept
    exact ⟨r, inherited, .inr rfl⟩
  · contradiction

theorem builtChild {node child : RouteTree H M V} {idx : Nat} (built : Built node) (found : node.children[idx]? = some child) :
    Built child := by
  obtain ⟨r, inherited, carries⟩ := builtCarries built
  rw [carries.children, List.getElem?_map] at found
  obtain ⟨c, -, rfl⟩ := Option.map_eq_some_iff.mp found
  exact ⟨c, inherited ++ r.middlewares, .inl rfl⟩

theorem callsBuilt {candidates : RouteTree.Candidates H M V} {frame next : Frame H M V} (built : Built frame.node)
    (calls : Calls plat candidates full frame next) : Built next.node := by
  cases calls with
  | child sliced among found matched => exact builtChild built found
  | arc sliced among found matched kept => exact builtArc (builtChild built found) kept

theorem builtResolves (order : RouteTree.HashOrder) {frame : Frame H M V} (built : Built frame.node) (placed : Placed full frame) :
    (resolves plat (RouteTree.candidateIndices plat order) full frame).isSome = true := by
  obtain ⟨r, inherited, carries⟩ := builtCarries built
  obtain ⟨remain, sliced, inside⟩ := placed
  rw [resolves, ← (slicedSuffix sliced).2, remainOffset, pathCanResolveCarried (indicesScan plat order full r) carries inside]
  rfl

theorem reachedBuilt {candidates : RouteTree.Candidates H M V} {r : Route H M V} {start frame : Frame H M V}
    (entered : Entered plat full (RouteTree.convertToRouteTree r) start)
    (reached : Relation.ReflTransGen (Calls plat candidates full) start frame) : Built frame.node := by
  have root : Built (RouteTree.convertToRouteTree r) := ⟨r, [], .inl rfl⟩
  induction reached with
  | refl =>
    obtain ⟨candidate, -, -, same | kept⟩ := entered
    · exact same ▸ root
    · exact builtArc root kept
  | tail earlier calls ih => exact callsBuilt ih calls

theorem callNeverPanics [Monad m] (env : Env H M V R m) (plat : Platform) (order : RouteTree.HashOrder) (buffer : Nat)
    (r : Route H M V) (req : Request V) (panicked : m (SilentResult R)) :
    RouteTree.call {env with panicked := panicked} plat (RouteTree.candidateIndices plat order) buffer (RouteTree.convertToRouteTree r) req =
      RouteTree.call env plat (RouteTree.candidateIndices plat order) buffer (RouteTree.convertToRouteTree r) req := by
  have followed : ∀ full r hits, follow {env with panicked := panicked} full r hits = follow (H := H) (M := M) env full r hits := by
    intro full r hits
    induction hits generalizing r with
    | nil => rfl
    | cons hit hits ih =>
      funext req
      simp only [follow, ih]
      rfl
  have answered : ∀ full rest, answer {env with panicked := panicked} plat full r rest = answer env plat full r rest := by
    intro full rest
    funext req
    simp only [answer, followed]
  rw [callConverted, callConverted, answerRoot, answerRoot]
  simp only [answered]
  rfl

end

theorem offsetsStayValid [Monad m] (env : Env H M V R m) (plat : Platform) (full : Slice) :
    (∀ (node : RouteTree H M V) path candidate, path.text <:+ full.text →
      RouteTree.callPathOnly plat node path full = some candidate →
        ∃ before, full.text = before ++ candidate.remain.text ∧ byteLen candidate.remain.text ≤ byteLen full.text ∧
          remainOffset full candidate.remain = byteLen before ∧ IsBoundary full.text (byteLen before)) ∧
      (∀ (candidates : RouteTree.Candidates H M V) (t : RouteTree H M V),
        (∀ req answer, full.text = req.uriPath →
          (∀ frame, Entered plat full t frame → answer frame = dispatches env plat candidates full frame) →
            RouteTree.call env plat candidates full.ptr t req = callBody plat full env answer t req) ∧
          ∀ start frame, Entered plat full t start → Relation.ReflTransGen (Calls plat candidates full) start frame →
            (∃ remain, RouteTree.sliceFrom full frame.offset = some remain ∧ remain.text <:+ full.text) ∧
              ∀ next, Calls plat candidates full frame next → frame.offset ≤ next.offset) ∧
      (∀ candidates : RouteTree.Candidates H M V,
        WellFounded (fun next frame : Frame H M V => Calls plat candidates full frame next) ∧
          (∀ answer, (∀ frame, answer frame = resolveBody plat candidates full answer frame) ↔
            answer = resolves plat candidates full) ∧
          ∀ answer, (∀ frame, answer frame = childrenBody plat candidates full env answer frame) ↔
            answer = dispatches env plat candidates full) ∧
      ∀ (order : RouteTree.HashOrder) (r : Route H M V),
        (∀ start frame, Entered plat full (RouteTree.convertToRouteTree r) start →
          Relation.ReflTransGen (Calls plat (RouteTree.candidateIndices plat order) full) start frame →
            (RouteTree.pathCanResolve plat (RouteTree.candidateIndices plat order) frame.node frame.offset full).isSome = true) ∧
          ∀ buffer req panicked,
            RouteTree.call {env with panicked := panicked} plat (RouteTree.candidateIndices plat order) buffer
                (RouteTree.convertToRouteTree r) req =
              RouteTree.call env plat (RouteTree.candidateIndices plat order) buffer (RouteTree.convertToRouteTree r) req := by
  refine ⟨fun node path candidate => remainPlaced, fun candidates t => ⟨fun req answer => callEnters, ?_⟩,
    fun candidates => ⟨callsWellFounded plat candidates full, resolvesOnly, dispatchesOnly⟩,
    fun order r => ⟨?_, fun buffer => callNeverPanics env plat order buffer r⟩⟩
  · intro start frame entered reached
    exact ⟨reachedPlaced entered reached, fun next => callsForward⟩
  · intro start frame entered reached
    exact builtResolves order (reachedBuilt entered reached) (reachedPlaced entered reached)

end Silent.RouterOffsets
