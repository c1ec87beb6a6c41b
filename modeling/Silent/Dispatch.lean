import Silent.RouteBuilder

/-! The route tree and its dispatcher. Effects of handlers and middlewares live in
an arbitrary monad; indexing and slicing that would panic is visible as `panic`. The
candidate list of a node is a parameter, so that the indexed lookup of the code can be
compared with others; the code's own list is `candidateIndices`. -/
namespace Silent.Dispatch
open ByteText PathSegment HttpRequest RouteBuilder

structure RouteTree (H M V : Type) where
  children : List (RouteTree H M V)
  handler : HashMap Method H
  middlewares : List M
  staticChildren : HashMap Text Nat
  dynamicChildren : List Nat
  middlewareStart : Nat
  state : Option (State V)
  segment : SpecialSeg
  hasHandler : Bool
  selfArc : Option (RouteTree H M V)

inductive NextInstance (M E : Type) where
  | middleware (mw : M)
  | endPoint (handler : E)

structure Next (M E : Type) where
  inner : NextInstance M E
  next : Option (Next M E)

def Next.build {M E : Type} (endpoint : E) (middlewares : List M) : Next M E :=
  middlewares.foldr (fun mw next => ⟨.middleware mw, some next⟩) ⟨.endPoint endpoint, none⟩

/- What the router calls and does not define: the handler map of a node, the
middlewares with their continuation, and a panic of the task. -/
structure Env (H M V R : Type) (m : Type → Type) where
  callHandlers : HashMap Method H → Request V → m (SilentResult R)
  middleware : M → Request V → (Request V → m (SilentResult R)) → m (SilentResult R)
  panicked : m (SilentResult R)

theorem Next.sizeOfNext {M E : Type} {next rest : Next M E} (tail : next.next = some rest) :
    sizeOf rest < sizeOf next := by
  cases next
  simp only [Next.mk.sizeOf_spec] at *
  subst tail
  simp
  omega

section
variable {H M V R : Type} {m : Type → Type}

def Next.call (env : Env H M V R m) (next : Next M (Request V → m (SilentResult R)))
    (req : Request V) : m (SilentResult R) :=
  match next.inner with
  | .middleware mw =>
      match _tail : next.next with
      | some rest => env.middleware mw req (fun req => Next.call env rest req)
      | none => env.panicked
  | .endPoint handler => handler req
termination_by sizeOf next
decreasing_by exact Next.sizeOfNext ‹_›

theorem Next.callBuild (env : Env H M V R m) (endpoint : Request V → m (SilentResult R))
    (middlewares : List M) (req : Request V) :
    (Next.build endpoint middlewares).call env req =
      middlewares.foldr (fun mw next req => env.middleware mw req next) endpoint req := by
  induction middlewares generalizing req with
  | nil => rw [Next.build, List.foldr_nil, Next.call]; rfl
  | cons mw rest ih =>
    rw [Next.build, List.foldr_cons, Next.call]
    simp only [List.foldr_cons]
    congr 1
    funext req
    exact ih req

end

/- `Handler for HashMap<Method, _>`. `fill` is `Response::empty()` with the request
state, completed by `copy_from_response`; `clearBody` is `set_body(ResBody::None)`. -/
def handlerMapCall {H V R : Type} {m : Type → Type} [Monad m] (fill : State V → R → R)
    (clearBody : R → R) (handle : H → Request V → m (SilentResult R))
    (map : HashMap Method H) (req : Request V) : m (SilentResult R) :=
  match map.lookup req.method with
  | some handler => do
      let res ← handle handler req
      pure (res.map (fill req.state))
  | none =>
      match if req.method = .head then map.lookup .get else none with
      | some handler => do
          let res ← handle handler req
          pure (res.map (fun r => clearBody (fill req.state r)))
      | none => pure (.error (.businessError 405 "method not allowed".toList))

namespace RouteTree
variable {H M V R : Type} {m : Type → Type}

theorem sizeOfChild {t c : RouteTree H M V} (mem : c ∈ t.children) : sizeOf c < sizeOf t := by
  cases t
  have smaller := List.sizeOf_lt_of_mem mem
  simp only [mk.sizeOf_spec] at *
  omega

theorem sizeOfArc {t arc : RouteTree H M V} (kept : t.selfArc = some arc) : sizeOf arc < sizeOf t := by
  cases t
  simp only [mk.sizeOf_spec] at *
  subst kept
  simp
  omega

def indexChild (index : HashMap Text Nat × List Nat) (entry : SpecialSeg × Nat) :
    HashMap Text Nat × List Nat :=
  match entry.1.asStaticKey with
  | some key => (index.1.insert key entry.2, index.2)
  | none => (index.1, index.2 ++ [entry.2])

def indexChildren (segments : List SpecialSeg) : HashMap Text Nat × List Nat :=
  segments.zipIdx.foldl indexChild (∅, [])

def intoRouteTreeWithChain (self : Route H M V) (inherited : List M) : RouteTree H M V :=
  let current := inherited ++ self.middlewares
  let children := self.children.attach.map (fun child => intoRouteTreeWithChain child.1 current)
  let index := indexChildren (children.map (·.segment))
  { children := children
    handler := self.handler
    middlewares := current
    staticChildren := index.1
    dynamicChildren := index.2
    middlewareStart := inherited.length
    state := self.state
    segment := parseSpecialSeg self.path
    hasHandler := !self.handler.entries.isEmpty
    selfArc := none }
termination_by sizeOf self
decreasing_by exact Route.sizeOfChild child.2

def freeze (self : RouteTree H M V) : RouteTree H M V :=
  let children := self.children.attach.map (fun child => freeze child.1)
  { self with
    children := children
    selfArc := some {self with children := children, selfArc := none} }
termination_by sizeOf self
decreasing_by exact sizeOfChild child.2

def convertToRouteTree (self : Route H M V) : RouteTree H M V :=
  (intoRouteTreeWithChain self []).freeze

def callPathOnly (plat : Platform) (self : RouteTree H M V) (path full : Slice) : Option PathMatch :=
  matchSegment plat self.segment self.children.isEmpty path full

/- `none` is the answer `false`; no arm that answers so has touched the request. -/
def bindParams (segment : SpecialSeg) (req : Request V) (matched : PathMatch) (source : Slice) :
    Option (Request V) :=
  match segment, matched.capture with
  | .root, _ | .static _, _ => some req
  | .string key, some (.str captured) => some (req.setPathParams key (.borrowedStr source captured))
  | .int key, some (.i32 value) | .i32 key, some (.i32 value) => some (req.setPathParams key (.int value))
  | .i64 key, some (.i64 value) => some (req.setPathParams key (.int64 value))
  | .u64 key, some (.u64 value) => some (req.setPathParams key (.uInt64 value))
  | .u32 key, some (.u32 value) => some (req.setPathParams key (.uInt32 value))
  | .uuid key, some (.uuid value) => some (req.setPathParams key (.uuid value))
  | .path key, some (.path captured) => some (req.setPathParams key (.borrowedPath source captured))
  | .fullPath key, some (.full captured) => some (req.setPathParams key (.borrowedPath source captured))
  | _, _ => none

abbrev Candidates (H M V : Type) := RouteTree H M V → Slice → List Nat

/- The iteration order of a `HashMap` is any order of its entries. -/
structure HashOrder where
  values : HashMap Text Nat → List Nat
  perm : ∀ map, (values map).Perm (map.entries.map Sigma.snd)

def candidateIndices (plat : Platform) (order : HashOrder) : Candidates H M V := fun self remain =>
  if remain.text = [] then order.values self.staticChildren ++ self.dynamicChildren
  else
    let segment := (stripOneSegment plat remain).1
    (self.staticChildren.lookup segment.text).toList ++ self.dynamicChildren

-- A loop whose body panics (`none`), goes on (`some none`) or returns.
def loopReturn {ι β : Type} (body : ι → Option (Option β)) : List ι → Option (Option β)
  | [] => some none
  | i :: rest =>
      match body i with
      | none => none
      | some none => loopReturn body rest
      | some (some result) => some (some result)

def sliceFrom (full : Slice) (offset : Nat) : Option Slice :=
  (dropBytes full.text offset).map (⟨full.ptr + offset, ·⟩)

def pathCanResolve (plat : Platform) (candidates : Candidates H M V) (self : RouteTree H M V)
    (offset : Nat) (full : Slice) : Option Bool :=
  match sliceFrom full offset with
  | none => none
  | some remain =>
      let body := fun idx =>
        match _at : self.children[idx]? with
        | none => none
        | some child =>
            match callPathOnly plat child remain full with
            | none => some none
            | some candidate =>
                match pathCanResolve plat candidates child (remainOffset full candidate.remain) full with
                | none => none
                | some true => some (some ())
                | some false => some none
      match loopReturn body (candidates self remain) with
      | none => none
      | some (some ()) => some true
      | some none => some (remain.text.isEmpty || self.segment.isFullPath)
termination_by sizeOf self
decreasing_by exact sizeOfChild (List.mem_of_getElem? ‹_›)

-- The body of the loop, with `answer` in place of the recursive call.
def resolveVia (plat : Platform) (answer : RouteTree H M V → Nat → Option Bool) (self : RouteTree H M V) (remain full : Slice)
    (idx : Nat) : Option (Option Unit) :=
  match self.children[idx]? with
  | none => none
  | some child =>
      match callPathOnly plat child remain full with
      | none => some none
      | some candidate =>
          match answer child (remainOffset full candidate.remain) with
          | none => none
          | some true => some (some ())
          | some false => some none

theorem pathCanResolveEq (plat : Platform) (candidates : Candidates H M V) (self : RouteTree H M V) (offset : Nat)
    (full : Slice) :
    pathCanResolve plat candidates self offset full =
      match sliceFrom full offset with
      | none => none
      | some remain =>
          match loopReturn (resolveVia plat (pathCanResolve plat candidates · · full) self remain full) (candidates self remain) with
          | none => none
          | some (some ()) => some true
          | some none => some (remain.text.isEmpty || self.segment.isFullPath) := by
  rw [pathCanResolve]
  cases sliceFrom full offset with
  | none => rfl
  | some remain =>
    dsimp only
    congr 2
    funext idx
    unfold resolveVia
    split <;> simp_all

def chooseChild (plat : Platform) (candidates : Candidates H M V) (self : RouteTree H M V)
    (remain full : Slice) : Option (Option (RouteTree H M V × PathMatch)) :=
  let body := fun idx =>
    match self.children[idx]? with
    | none => none
    | some child =>
        match callPathOnly plat child remain full with
        | none => some none
        | some candidate =>
            match pathCanResolve plat candidates child (remainOffset full candidate.remain) full with
            | none => none
            | some false => some none
            | some true => some (some (child, candidate))
  loopReturn body (candidates self remain)

theorem loopReturnSource {ι β : Type} {body : ι → Option (Option β)} {is : List ι} {result : β}
    (returned : loopReturn body is = some (some result)) : ∃ i ∈ is, body i = some (some result) := by
  induction is with
  | nil => simp [loopReturn] at returned
  | cons i rest ih =>
    rw [loopReturn] at returned
    split at returned
    · contradiction
    · obtain ⟨j, mem, at_⟩ := ih returned
      exact ⟨j, List.mem_cons_of_mem _ mem, at_⟩
    · rename_i at_
      cases returned
      exact ⟨i, List.mem_cons_self, at_⟩

theorem chooseChildMem {plat : Platform} {candidates : Candidates H M V} {self child : RouteTree H M V}
    {remain full : Slice} {candidate : PathMatch}
    (chosen : chooseChild plat candidates self remain full = some (some (child, candidate))) :
    child ∈ self.children := by
  obtain ⟨idx, _, body⟩ := loopReturnSource chosen
  split at body
  · contradiction
  · rename_i found
    split at body
    · cases body
    · split at body
      · contradiction
      · cases body
      · cases body
        exact List.mem_of_getElem? found

def extendState (self : RouteTree H M V) (req : Request V) : Request V :=
  match self.state with
  | some state => {req with state := req.state.extendFrom state}
  | none => req

def notFoundError [Monad m] : m (SilentResult R) := pure (.error .notFound)

mutual
def callWithPath [Monad m] (env : Env H M V R m) (plat : Platform) (candidates : Candidates H M V)
    (self : RouteTree H M V) (req : Request V) (offset : Nat) (path : Slice) : m (SilentResult R) :=
  let req := extendState self req
  if self.middlewareStart ≤ self.middlewares.length then
    let middlewareSlice := self.middlewares.drop self.middlewareStart
    if middlewareSlice.isEmpty then callChildren env plat candidates self req offset path
    else
      match _arc : self.selfArc with
      | some arc =>
          (Next.build (fun req => callChildren env plat candidates arc req offset path) middlewareSlice).call env req
      | none =>
          (Next.build (fun req => callChildren env plat candidates self req offset path) middlewareSlice).call env req
  else env.panicked
termination_by 2 * sizeOf self + 1
decreasing_by
  · omega
  · have := sizeOfArc _arc; omega
  · omega

def callChildren [Monad m] (env : Env H M V R m) (plat : Platform) (candidates : Candidates H M V)
    (self : RouteTree H M V) (req : Request V) (offset : Nat) (path : Slice) : m (SilentResult R) :=
  match sliceFrom path offset with
  | none => env.panicked
  | some remain =>
      match _chosen : chooseChild plat candidates self remain path with
      | none => env.panicked
      | some (some (child, candidate)) =>
          match bindParams child.segment req candidate path with
          | none => notFoundError
          | some req => callWithPath env plat candidates child req (remainOffset path candidate.remain) path
      | some none =>
          if remain.text = [] then
            if self.hasHandler then env.callHandlers self.handler req else notFoundError
          else if self.segment.isFullPath && self.hasHandler then env.callHandlers self.handler req
          else notFoundError
termination_by 2 * sizeOf self
decreasing_by
  have := sizeOfChild (chooseChildMem _chosen)
  omega
end

theorem callChildrenEq [Monad m] (env : Env H M V R m) (plat : Platform) (candidates : Candidates H M V)
    (self : RouteTree H M V) (req : Request V) (offset : Nat) (path : Slice) :
    callChildren env plat candidates self req offset path =
      match sliceFrom path offset with
      | none => env.panicked
      | some remain =>
          match chooseChild plat candidates self remain path with
          | none => env.panicked
          | some (some (child, candidate)) =>
              match bindParams child.segment req candidate path with
              | none => notFoundError
              | some req => callWithPath env plat candidates child req (remainOffset path candidate.remain) path
          | some none =>
              if remain.text = [] then
                if self.hasHandler then env.callHandlers self.handler req else notFoundError
              else if self.segment.isFullPath && self.hasHandler then env.callHandlers self.handler req
              else notFoundError := by
  rw [callChildren]
  cases sliceFrom path offset with
  | none => rfl
  | some remain =>
    dsimp only
    split <;> simp_all

-- `<RouteTree as Handler>::call`; `buffer` is where `Arc::<str>::from` puts the path.
def call [Monad m] (env : Env H M V R m) (plat : Platform) (candidates : Candidates H M V) (buffer : Nat)
    (self : RouteTree H M V) (req : Request V) : m (SilentResult R) :=
  let req := match self.state with
    | some state => {req with state := state}
    | none => req
  let full : Slice := ⟨buffer, req.uriPath⟩
  let req := req.setPathSource full
  match callPathOnly plat self full full with
  | none => notFoundError
  | some candidate =>
      match bindParams self.segment req candidate full with
      | none => notFoundError
      | some req => callWithPath env plat candidates self req (remainOffset full candidate.remain) full

end RouteTree
end Silent.Dispatch
