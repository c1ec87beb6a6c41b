import Silent.Dispatch

/-! The frozen tree against a plain dispatcher. `freeze` gives every node an arc to a
copy of itself whose children are frozen too, and dispatch hops between a node and that
copy; a node without middlewares skips the `Next` chain. The plain dispatcher knows
neither arcs nor the fast path. Both compute the same, for any tree and any monad. -/
namespace Silent.FrozenTree
open ByteText PathSegment HttpRequest RouteBuilder Dispatch

variable {H M V R : Type} {m : Type → Type}

theorem treeInduction {P : RouteTree H M V → Prop}
    (step : ∀ t, (∀ c ∈ t.children, P c) → P t) (t : RouteTree H M V) : P t :=
  step t (fun c _mem => treeInduction step c)
termination_by sizeOf t
decreasing_by exact RouteTree.sizeOfChild _mem

mutual
def plainWithPath [Monad m] (env : Env H M V R m) (plat : Platform) (candidates : RouteTree.Candidates H M V)
    (self : RouteTree H M V) (req : Request V) (offset : Nat) (path : Slice) : m (SilentResult R) :=
  let req := RouteTree.extendState self req
  if self.middlewareStart ≤ self.middlewares.length then
    (Next.build (fun req => plainChildren env plat candidates self req offset path)
      (self.middlewares.drop self.middlewareStart)).call env req
  else env.panicked
termination_by 2 * sizeOf self + 1

def plainChildren [Monad m] (env : Env H M V R m) (plat : Platform) (candidates : RouteTree.Candidates H M V)
    (self : RouteTree H M V) (req : Request V) (offset : Nat) (path : Slice) : m (SilentResult R) :=
  match RouteTree.sliceFrom path offset with
  | none => env.panicked
  | some remain =>
      match _chosen : RouteTree.chooseChild plat candidates self remain path with
      | none => env.panicked
      | some (some (child, candidate)) =>
          match RouteTree.bindParams child.segment req candidate path with
          | none => RouteTree.notFoundError
          | some req => plainWithPath env plat candidates child req (remainOffset path candidate.remain) path
      | some none =>
          if remain.text = [] then
            if self.hasHandler then env.callHandlers self.handler req else RouteTree.notFoundError
          else if self.segment.isFullPath && self.hasHandler then env.callHandlers self.handler req
          else RouteTree.notFoundError
termination_by 2 * sizeOf self
decreasing_by
  have := RouteTree.sizeOfChild (RouteTree.chooseChildMem _chosen)
  omega
end

theorem plainChildrenEq [Monad m] (env : Env H M V R m) (plat : Platform) (candidates : RouteTree.Candidates H M V)
    (self : RouteTree H M V) (req : Request V) (offset : Nat) (path : Slice) :
    plainChildren env plat candidates self req offset path =
      match RouteTree.sliceFrom path offset with
      | none => env.panicked
      | some remain =>
          match RouteTree.chooseChild plat candidates self remain path with
          | none => env.panicked
          | some (some (child, candidate)) =>
              match RouteTree.bindParams child.segment req candidate path with
              | none => RouteTree.notFoundError
              | some req => plainWithPath env plat candidates child req (remainOffset path candidate.remain) path
          | some none =>
              if remain.text = [] then
                if self.hasHandler then env.callHandlers self.handler req else RouteTree.notFoundError
              else if self.segment.isFullPath && self.hasHandler then env.callHandlers self.handler req
              else RouteTree.notFoundError := by
  rw [plainChildren]
  cases RouteTree.sliceFrom path offset with
  | none => rfl
  | some remain =>
    dsimp only
    split <;> simp_all

def plainCall [Monad m] (env : Env H M V R m) (plat : Platform) (candidates : RouteTree.Candidates H M V) (buffer : Nat)
    (self : RouteTree H M V) (req : Request V) : m (SilentResult R) :=
  let req := match self.state with
    | some state => {req with state := state}
    | none => req
  let full : Slice := ⟨buffer, req.uriPath⟩
  let req := req.setPathSource full
  match RouteTree.callPathOnly plat self full full with
  | none => RouteTree.notFoundError
  | some candidate =>
      match RouteTree.bindParams self.segment req candidate full with
      | none => RouteTree.notFoundError
      | some req => plainWithPath env plat candidates self req (remainOffset full candidate.remain) full

/- `copy` is `t` with frozen children; nothing is said about its arc, so the frozen node
and the copy inside its arc are both instances. -/
structure Copies (copy t : RouteTree H M V) : Prop where
  children : copy.children = t.children.map RouteTree.freeze
  handler : copy.handler = t.handler
  middlewares : copy.middlewares = t.middlewares
  static : copy.staticChildren = t.staticChildren
  dynamic : copy.dynamicChildren = t.dynamicChildren
  start : copy.middlewareStart = t.middlewareStart
  state : copy.state = t.state
  segment : copy.segment = t.segment
  hasHandler : copy.hasHandler = t.hasHandler

def inArc (t : RouteTree H M V) : RouteTree H M V :=
  {t with children := t.children.map RouteTree.freeze, selfArc := none}

theorem freezeEq (t : RouteTree H M V) : t.freeze = {inArc t with selfArc := some (inArc t)} := by
  rw [RouteTree.freeze]
  simp only [List.map_attach_eq_pmap, List.pmap_eq_map]
  rfl

theorem freezeCopies (t : RouteTree H M V) : Copies t.freeze t := by
  rw [freezeEq]
  exact ⟨rfl, rfl, rfl, rfl, rfl, rfl, rfl, rfl, rfl⟩

theorem arcCopies (t : RouteTree H M V) : Copies (inArc t) t := ⟨rfl, rfl, rfl, rfl, rfl, rfl, rfl, rfl, rfl⟩

theorem callPathOnlyCopy {copy t : RouteTree H M V} (copies : Copies copy t) (plat : Platform) (path full : Slice) :
    RouteTree.callPathOnly plat copy path full = RouteTree.callPathOnly plat t path full := by
  rw [RouteTree.callPathOnly, RouteTree.callPathOnly, copies.segment, copies.children, List.isEmpty_map]

theorem candidatesCopy {copy t : RouteTree H M V} (copies : Copies copy t) (plat : Platform)
    (order : RouteTree.HashOrder) (remain : Slice) :
    RouteTree.candidateIndices plat order copy remain = RouteTree.candidateIndices plat order t remain := by
  rw [RouteTree.candidateIndices, RouteTree.candidateIndices, copies.static, copies.dynamic]

theorem loopReturnMap {ι β γ : Type} {body : ι → Option (Option β)} {body' : ι → Option (Option γ)} {f : β → γ}
    (same : ∀ i, body' i = (body i).map (Option.map f)) (is : List ι) :
    RouteTree.loopReturn body' is = (RouteTree.loopReturn body is).map (Option.map f) := by
  induction is with
  | nil => rfl
  | cons i rest ih =>
    rw [RouteTree.loopReturn, RouteTree.loopReturn, same i]
    cases body i with
    | none => rfl
    | some answer =>
      cases answer with
      | none => exact ih
      | some result => rfl

theorem pathCanResolveCopy (plat : Platform) (order : RouteTree.HashOrder) (full : Slice) (t : RouteTree H M V) :
    ∀ {copy : RouteTree H M V}, Copies copy t → ∀ offset,
      RouteTree.pathCanResolve plat (RouteTree.candidateIndices plat order) copy offset full =
        RouteTree.pathCanResolve plat (RouteTree.candidateIndices plat order) t offset full := by
  induction t using treeInduction with
  | step t ih =>
    intro copy copies offset
    have body : ∀ remain,
        RouteTree.resolveVia plat (RouteTree.pathCanResolve plat (RouteTree.candidateIndices plat order) · · full) copy remain full =
        RouteTree.resolveVia plat (RouteTree.pathCanResolve plat (RouteTree.candidateIndices plat order) · · full) t remain full := by
      intro remain
      funext idx
      unfold RouteTree.resolveVia
      rw [copies.children, List.getElem?_map]
      cases found : t.children[idx]? with
      | none => rfl
      | some child =>
        simp only [Option.map_some, callPathOnlyCopy (freezeCopies child),
          ih child (List.mem_of_getElem? found) (freezeCopies child)]
    rw [RouteTree.pathCanResolveEq, RouteTree.pathCanResolveEq plat _ t]
    simp only [body, candidatesCopy copies, copies.segment]

def frozenChoice (choice : RouteTree H M V × PathMatch) : RouteTree H M V × PathMatch := (choice.1.freeze, choice.2)

theorem chooseChildCopy {copy t : RouteTree H M V} (copies : Copies copy t) (plat : Platform)
    (order : RouteTree.HashOrder) (remain full : Slice) :
    RouteTree.chooseChild plat (RouteTree.candidateIndices plat order) copy remain full =
      (RouteTree.chooseChild plat (RouteTree.candidateIndices plat order) t remain full).map (Option.map frozenChoice) := by
  unfold RouteTree.chooseChild
  rw [candidatesCopy copies]
  apply loopReturnMap
  intro idx
  rw [copies.children, List.getElem?_map]
  cases t.children[idx]? with
  | none => rfl
  | some child =>
    simp only [Option.map_some, callPathOnlyCopy (freezeCopies child)]
    cases RouteTree.callPathOnly plat child remain full with
    | none => rfl
    | some candidate =>
      simp only [pathCanResolveCopy plat order full child (freezeCopies child)]
      cases RouteTree.pathCanResolve plat (RouteTree.candidateIndices plat order) child
        (remainOffset full candidate.remain) full with
      | none => rfl
      | some resolves => cases resolves <;> rfl

/- One node: whichever of the two copies goes on, and whether or not a `Next` chain is
built, the continuation is the plain one. -/
theorem callWithPathCopy [Monad m] {env : Env H M V R m} {plat : Platform} {candidates : RouteTree.Candidates H M V}
    {t : RouteTree H M V} {offset : Nat} {full : Slice}
    (node : ∀ req, RouteTree.callChildren env plat candidates t.freeze req offset full =
      plainChildren env plat candidates t req offset full)
    (arc : ∀ req, RouteTree.callChildren env plat candidates (inArc t) req offset full =
      plainChildren env plat candidates t req offset full)
    (req : Request V) :
    RouteTree.callWithPath env plat candidates t.freeze req offset full =
      plainWithPath env plat candidates t req offset full := by
  have copies := freezeCopies t
  have kept : t.freeze.selfArc = some (inArc t) := by rw [freezeEq]
  have state : RouteTree.extendState t.freeze req = RouteTree.extendState t req := by
    rw [RouteTree.extendState, RouteTree.extendState, copies.state]
  rw [RouteTree.callWithPath, plainWithPath, state, copies.start, copies.middlewares]
  by_cases bound : t.middlewareStart ≤ t.middlewares.length
  · rw [if_pos bound, if_pos bound]
    dsimp only
    split
    · rename_i idle
      rw [List.isEmpty_iff.mp idle, Next.callBuild, node]
      rfl
    · split
      · rename_i arc' kept'
        cases Option.some.inj (kept.symm.trans kept')
        rw [funext arc]
      · rename_i missing
        rw [kept] at missing
        contradiction
  · rw [if_neg bound, if_neg bound]

theorem callChildrenCopy [Monad m] (env : Env H M V R m) (plat : Platform) (order : RouteTree.HashOrder) (full : Slice)
    (t : RouteTree H M V) :
    ∀ {copy : RouteTree H M V}, Copies copy t → ∀ (req : Request V) (offset : Nat),
      RouteTree.callChildren env plat (RouteTree.candidateIndices plat order) copy req offset full =
        plainChildren env plat (RouteTree.candidateIndices plat order) t req offset full := by
  induction t using treeInduction with
  | step t ih =>
    intro copy copies req offset
    rw [RouteTree.callChildrenEq, plainChildrenEq]
    cases RouteTree.sliceFrom full offset with
    | none => rfl
    | some remain =>
      simp only [chooseChildCopy copies plat order remain full]
      cases chosen : RouteTree.chooseChild plat (RouteTree.candidateIndices plat order) t remain full with
      | none => rfl
      | some choice =>
        cases choice with
        | none => simp only [Option.map_some, Option.map_none, copies.handler, copies.hasHandler, copies.segment]
        | some choice =>
          obtain ⟨child, candidate⟩ := choice
          have mem := RouteTree.chooseChildMem chosen
          simp only [Option.map_some, frozenChoice, (freezeCopies child).segment]
          cases RouteTree.bindParams child.segment req candidate full with
          | none => rfl
          | some bound =>
            exact callWithPathCopy (fun req => ih child mem (freezeCopies child) req _)
              (fun req => ih child mem (arcCopies child) req _) bound

theorem frozenCallsPlain [Monad m] (env : Env H M V R m) (plat : Platform) (order : RouteTree.HashOrder) (buffer : Nat)
    (r : Route H M V) (inherited : List M) (req : Request V) :
    RouteTree.call env plat (RouteTree.candidateIndices plat order) buffer
        (RouteTree.intoRouteTreeWithChain r inherited).freeze req =
      plainCall env plat (RouteTree.candidateIndices plat order) buffer
        (RouteTree.intoRouteTreeWithChain r inherited) req := by
  generalize RouteTree.intoRouteTreeWithChain r inherited = t
  have copies := freezeCopies t
  have below : ∀ (req : Request V) (offset : Nat) (full : Slice),
      RouteTree.callWithPath env plat (RouteTree.candidateIndices plat order) t.freeze req offset full =
        plainWithPath env plat (RouteTree.candidateIndices plat order) t req offset full :=
    fun req offset full => callWithPathCopy
      (fun req => callChildrenCopy env plat order full t (freezeCopies t) req offset)
      (fun req => callChildrenCopy env plat order full t (arcCopies t) req offset) req
  rw [RouteTree.call, copies.state, copies.segment]
  simp only [callPathOnlyCopy copies, below]
  rfl

end Silent.FrozenTree
