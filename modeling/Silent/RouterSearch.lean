import Mathlib.Data.List.Induction
import Silent.Dispatch
import Silent.RouteShape
import Silent.SegmentSpec

/-! The router as a search over the registered routes. `firstStop` is the first
place, in the order in which candidates are tried, where the path can end; it does
not ask for a handler there. The dispatcher on the frozen tree follows exactly that
chain, whatever the monad, the middlewares and the handlers do. -/
namespace Silent.RouterSearch
open ByteText PathSegment HttpRequest RouteBuilder RouteShape Dispatch SegmentSpec

variable {H M V R : Type}

def frozen (r : Route H M V) (inherited : List M) : RouteTree H M V :=
  (RouteTree.intoRouteTreeWithChain r inherited).freeze

def segmentOf (r : Route H M V) : SpecialSeg := parseSpecialSeg r.path

def arcOf (r : Route H M V) (inherited : List M) : RouteTree H M V :=
  { children := r.children.map (fun c => frozen c (inherited ++ r.middlewares))
    handler := r.handler
    middlewares := inherited ++ r.middlewares
    staticChildren := (RouteTree.indexChildren (r.children.map segmentOf)).1
    dynamicChildren := (RouteTree.indexChildren (r.children.map segmentOf)).2
    middlewareStart := inherited.length
    state := r.state
    segment := segmentOf r
    hasHandler := !r.handler.entries.isEmpty
    selfArc := none }

theorem intoRouteTreeSegment (r : Route H M V) (inherited : List M) :
    (RouteTree.intoRouteTreeWithChain r inherited).segment = segmentOf r := by
  rw [RouteTree.intoRouteTreeWithChain, segmentOf]

theorem frozenEq (r : Route H M V) (inherited : List M) :
    frozen r inherited = {arcOf r inherited with selfArc := some (arcOf r inherited)} := by
  have segments : ∀ current : List M,
      (r.children.map fun c => RouteTree.intoRouteTreeWithChain c current).map (·.segment) =
        r.children.map segmentOf := by
    intro current
    simp [Function.comp_def, intoRouteTreeSegment]
  rw [frozen, RouteTree.freeze, RouteTree.intoRouteTreeWithChain]
  simp only [List.map_attach_eq_pmap, List.pmap_eq_map, List.map_map, segments, arcOf]
  simp [Function.comp_def, frozen, segmentOf]

def Points {α : Type} (xs : List α) (idxs : List Nat) (ys : List α) : Prop :=
  idxs.map (xs[·]?) = ys.map some

section Points
variable {α β : Type}

theorem pointsAppend {xs : List α} {is js : List Nat} {ys zs : List α} (left : Points xs is ys)
    (right : Points xs js zs) : Points xs (is ++ js) (ys ++ zs) := by
  simp only [Points, List.map_append] at *
  rw [left, right]

theorem pointsGrow {xs : List α} {is : List Nat} {ys : List α} (points : Points xs is ys) (x : α) :
    Points (xs ++ [x]) is ys := by
  induction is generalizing ys with
  | nil => simpa [Points] using points
  | cons i is ih =>
    cases ys with
    | nil => simp [Points] at points
    | cons y ys =>
      simp only [Points, List.map_cons, List.cons.injEq] at points
      obtain ⟨bound, _⟩ := List.getElem?_eq_some_iff.mp points.1
      simp only [Points, List.map_cons, List.cons.injEq]
      exact ⟨by rw [List.getElem?_append_left bound]; exact points.1, ih points.2⟩

theorem pointsLast (xs : List α) (x : α) : Points (xs ++ [x]) [xs.length] [x] := by
  simp [Points]

theorem pointsAt {xs : List α} {is : List Nat} {ys : List α} (points : Points xs is ys) :
    List.Forall₂ (fun i y => xs[i]? = some y) is ys := by
  induction is generalizing ys with
  | nil =>
    have empty : ys = [] := by simpa [Points] using points.symm
    exact empty ▸ .nil
  | cons i is ih =>
    cases ys with
    | nil => simp [Points] at points
    | cons y ys =>
      simp only [Points, List.map_cons, List.cons.injEq] at points
      exact .cons points.1 (ih points.2)

end Points

def staticChild (children : List (Route H M V)) (name : Text) : Option (Route H M V) :=
  children.reverse.find? (fun c => (segmentOf c).asStaticKey = some name)

def dynamicChildren (children : List (Route H M V)) : List (Route H M V) :=
  children.filter (fun c => (segmentOf c).asStaticKey.isNone)

theorem indexChildrenSnoc (segments : List SpecialSeg) (last : SpecialSeg) :
    RouteTree.indexChildren (segments ++ [last]) =
      RouteTree.indexChild (RouteTree.indexChildren segments) (last, segments.length) := by
  simp [RouteTree.indexChildren, List.zipIdx_append]

theorem indexStatic (children : List (Route H M V)) (name : Text) :
    Points children ((RouteTree.indexChildren (children.map segmentOf)).1.lookup name).toList
      (staticChild children name).toList := by
  induction children using List.reverseRecOn with
  | nil => simp [Points, RouteTree.indexChildren, staticChild]
  | append_singleton children child ih =>
    rw [List.map_append, List.map_singleton, indexChildrenSnoc, List.length_map]
    unfold RouteTree.indexChild
    cases key : (segmentOf child).asStaticKey with
    | none =>
      have skip : staticChild (children ++ [child]) name = staticChild children name := by
        simp [staticChild, key]
      rw [skip]
      simpa [key] using pointsGrow ih child
    | some value =>
      by_cases same : value = name
      · subst same
        have hit : staticChild (children ++ [child]) value = some child := by
          simp [staticChild, key]
        rw [hit]
        simpa [key] using pointsLast children child
      · have skip : staticChild (children ++ [child]) name = staticChild children name := by
          simp [staticChild, key, same]
        rw [skip]
        simpa [key, AList.lookup_insert_ne (Ne.symm same)] using pointsGrow ih child

theorem indexDynamic (children : List (Route H M V)) :
    Points children (RouteTree.indexChildren (children.map segmentOf)).2 (dynamicChildren children) := by
  induction children using List.reverseRecOn with
  | nil => simp [Points, RouteTree.indexChildren, dynamicChildren]
  | append_singleton children child ih =>
    rw [List.map_append, List.map_singleton, indexChildrenSnoc, List.length_map]
    unfold RouteTree.indexChild
    cases key : (segmentOf child).asStaticKey with
    | none =>
      have keep : dynamicChildren (children ++ [child]) = dynamicChildren children ++ [child] := by
        simp [dynamicChildren, key]
      rw [keep]
      simpa [key] using pointsAppend (pointsGrow ih child) (pointsLast children child)
    | some value =>
      have skip : dynamicChildren (children ++ [child]) = dynamicChildren children := by
        simp [dynamicChildren, key]
      rw [skip]
      simpa [key] using pointsGrow ih child

theorem indexStaticEntries (children : List (Route H M V)) :
    ∀ entry ∈ (RouteTree.indexChildren (children.map segmentOf)).1.entries,
      ∃ child, children[entry.2]? = some child ∧ (segmentOf child).asStaticKey = some entry.1 := by
  induction children using List.reverseRecOn with
  | nil => simp [RouteTree.indexChildren]
  | append_singleton children child ih =>
    have grow : ∀ entry ∈ (RouteTree.indexChildren (children.map segmentOf)).1.entries,
        ∃ c, (children ++ [child])[entry.2]? = some c ∧ (segmentOf c).asStaticKey = some entry.1 := by
      intro entry mem
      obtain ⟨c, found, key⟩ := ih entry mem
      obtain ⟨bound, _⟩ := List.getElem?_eq_some_iff.mp found
      exact ⟨c, by rw [List.getElem?_append_left bound]; exact found, key⟩
    intro entry mem
    rw [List.map_append, List.map_singleton, indexChildrenSnoc, List.length_map] at mem
    unfold RouteTree.indexChild at mem
    cases key : (segmentOf child).asStaticKey with
    | none => exact grow entry (by simpa [key] using mem)
    | some value =>
      simp only [key, AList.entries_insert, List.mem_cons] at mem
      rcases mem with rfl | old
      · exact ⟨child, by simp, key⟩
      · exact grow entry ((List.kerase_sublist _ _).subset old)

def tried (r : Route H M V) (rest : Text) : List (Route H M V) :=
  (staticChild r.children (firstSegment rest)).toList ++ dynamicChildren r.children

theorem triedMem {r c : Route H M V} {rest : Text} (mem : c ∈ tried r rest) : c ∈ r.children := by
  rcases List.mem_append.mp mem with static | dynamic
  · have found : staticChild r.children (firstSegment rest) = some c := by simpa using static
    simpa using List.mem_of_find?_eq_some found
  · exact (List.mem_filter.mp dynamic).1

def matchAt (plat : Platform) (full : Slice) (r : Route H M V) (rest : Text) : Option PathMatch :=
  matchSegment plat (segmentOf r) r.children.isEmpty (suffixSlice full rest) full

structure Hit (H M V : Type) where
  route : Route H M V
  rest : Text
  found : PathMatch

def firstStop (plat : Platform) (full : Slice) (r : Route H M V) (rest : Text) : Option (List (Hit H M V)) :=
  let deeper := (tried r rest).attach.findSome? (fun c => do
    let found ← matchAt plat full c.1 rest
    let hits ← firstStop plat full c.1 found.remain.text
    some (⟨c.1, rest, found⟩ :: hits))
  match deeper with
  | some hits => some hits
  | none => if rest = [] ∨ (segmentOf r).isFullPath then some [] else none
termination_by sizeOf r
decreasing_by exact Route.sizeOfChild (triedMem c.2)

def stopVia (plat : Platform) (full : Slice) (rest : Text) (c : Route H M V) : Option (List (Hit H M V)) := do
  let found ← matchAt plat full c rest
  let hits ← firstStop plat full c found.remain.text
  some (⟨c, rest, found⟩ :: hits)

theorem firstStopEq (plat : Platform) (full : Slice) (r : Route H M V) (rest : Text) :
    firstStop plat full r rest =
      ((tried r rest).findSome? (stopVia plat full rest)).or
        (if rest = [] ∨ (segmentOf r).isFullPath then some [] else none) := by
  rw [firstStop]
  have plain : (tried r rest).attach.findSome? (fun c => stopVia plat full rest c.1) =
      (tried r rest).findSome? (stopVia plat full rest) := by
    conv_rhs => rw [← List.attach_map_subtype_val (tried r rest), List.findSome?_map]
    rfl
  change (match (tried r rest).attach.findSome? (fun c => stopVia plat full rest c.1) with
    | some hits => some hits
    | none => _) = _
  rw [plain]
  cases (tried r rest).findSome? (stopVia plat full rest) <;> rfl

theorem findSomeCongr {α β : Type} {cs : List α} {f g : α → Option β} (same : ∀ c ∈ cs, f c = g c) :
    cs.findSome? f = cs.findSome? g := by
  induction cs with
  | nil => rfl
  | cons c cs ih =>
    rw [List.findSome?_cons, List.findSome?_cons, same c (by simp), ih (fun d mem => same d (by simp [mem]))]

theorem loopReturnSearch {β γ : Type} {body : Nat → Option (Option β)} {g : γ → Option β} {idxs : List Nat}
    {cs : List γ} (each : List.Forall₂ (fun i c => body i = some (g c)) idxs cs) :
    RouteTree.loopReturn body idxs = some (cs.findSome? g) := by
  induction each with
  | nil => rfl
  | @cons i c is cs head tail ih =>
    rw [RouteTree.loopReturn, head, List.findSome?_cons]
    cases g c with
    | none => exact ih
    | some result => rfl

theorem loopReturnSkip {β : Type} {body : Nat → Option (Option β)} {skipped : List Nat}
    (passes : ∀ i ∈ skipped, body i = some none) (rest : List Nat) :
    RouteTree.loopReturn body (skipped ++ rest) = RouteTree.loopReturn body rest := by
  induction skipped with
  | nil => rfl
  | cons i is ih =>
    rw [List.cons_append, RouteTree.loopReturn, passes i (by simp)]
    exact ih (fun j mem => passes j (List.mem_cons_of_mem _ mem))

theorem parseStaticSource {raw value : Text} (parsed : parseSpecialSeg raw = .static value) :
    value = raw ∧ raw ≠ [] := by
  unfold parseSpecialSeg at parsed
  split at parsed
  · contradiction
  · rename_i named
    split at parsed
    · split at parsed <;> contradiction
    · cases parsed
      exact ⟨rfl, named⟩

theorem staticSource {c : Route H M V} {name : Text} (key : (segmentOf c).asStaticKey = some name) :
    segmentOf c = .static name ∧ name = c.path ∧ name ≠ [] := by
  cases parsed : segmentOf c with
  | static value =>
    rw [parsed] at key
    cases Option.some.inj key
    obtain ⟨same, named⟩ := parseStaticSource parsed
    exact ⟨rfl, same, same ▸ named⟩
  | _ => rw [parsed] at key; contradiction

theorem staticNeedsText (plat : Platform) (full : Slice) {c : Route H M V} {name : Text}
    (key : (segmentOf c).asStaticKey = some name) : matchAt plat full c [] = none := by
  obtain ⟨segment, _, named⟩ := staticSource key
  rw [matchAt, segment]
  cases found : matchStaticSegment plat name (suffixSlice full []) with
  | none => simp [matchSegment, found]
  | some remain =>
    have texts := (matchStaticText plat named (suffixSlice full []) remain.text).mp (by rw [found]; rfl)
    have empty : trimSlash (suffixSlice full []).text = [] := rfl
    rw [empty] at texts
    rcases texts with ⟨same, _⟩ | same
    · exact absurd same.symm named
    · simp at same

theorem staticMatches {plat : Platform} {full : Slice} {c : Route H M V} {name rest : Text}
    (key : (segmentOf c).asStaticKey = some name) (plain : '/' ∉ name) (matched : matchAt plat full c rest ≠ none) :
    firstSegment rest = name := by
  obtain ⟨segment, _, named⟩ := staticSource key
  obtain ⟨found, matched⟩ := Option.ne_none_iff_exists'.mp matched
  rw [matchAt, segment] at matched
  simp only [matchSegment, Option.map_eq_some_iff] at matched
  obtain ⟨remain, taken, _⟩ := matched
  have texts := (matchStaticText plat named (suffixSlice full rest) remain.text).mp (by rw [taken]; rfl)
  rw [suffixSliceText] at texts
  rw [firstSegment]
  rcases texts with ⟨same, _⟩ | same
  · rw [same, splitFirstAbsent plain]
  · rw [same, splitFirstAppend plain]

theorem triedComplete {plat : Platform} {full : Slice} {r c : Route H M V} {rest : Text} (distinct : DistinctSiblings r)
    (mem : c ∈ r.children) (plain : '/' ∉ c.path) (matched : matchAt plat full c rest ≠ none) : c ∈ tried r rest := by
  cases key : (segmentOf c).asStaticKey with
  | none => exact List.mem_append_right _ (List.mem_filter.mpr ⟨mem, by simp [key]⟩)
  | some name =>
    have path := (staticSource key).2.1
    have first := staticMatches key (path ▸ plain) matched
    apply List.mem_append_left
    rw [first, Option.mem_toList]
    cases found : staticChild r.children name with
    | none =>
      have none_ := List.find?_eq_none.mp found c (List.mem_reverse.mpr mem)
      simp [key] at none_
    | some d =>
      have child : d ∈ r.children := by simpa using List.mem_of_find?_eq_some found
      have same : (segmentOf d).asStaticKey = some name := by simpa using List.find?_some found
      have paths : d.path = c.path := (staticSource same).2.1.symm.trans path
      rw [List.inj_on_of_nodup_map distinct child mem paths]

theorem triedEmpty (r : Route H M V) : tried r [] = dynamicChildren r.children := by
  have nothing : staticChild r.children (firstSegment []) = none := by
    rw [staticChild, List.find?_eq_none]
    intro c _ key
    exact (staticSource (of_decide_eq_true key)).2.2 rfl
  rw [tried, nothing]
  rfl

/- A node that carries what `arcOf r inherited` carries; `self_arc` is left open, so
that the node and the copy inside its arc are both instances. -/
structure Carries (node : RouteTree H M V) (r : Route H M V) (inherited : List M) : Prop where
  children : node.children = r.children.map (fun c => frozen c (inherited ++ r.middlewares))
  handler : node.handler = r.handler
  static : node.staticChildren = (RouteTree.indexChildren (r.children.map segmentOf)).1
  dynamic : node.dynamicChildren = (RouteTree.indexChildren (r.children.map segmentOf)).2
  segment : node.segment = segmentOf r
  hasHandler : node.hasHandler = !r.handler.entries.isEmpty

theorem arcCarries (r : Route H M V) (inherited : List M) : Carries (arcOf r inherited) r inherited :=
  ⟨rfl, rfl, rfl, rfl, rfl, rfl⟩

theorem frozenCarries (r : Route H M V) (inherited : List M) : Carries (frozen r inherited) r inherited := by
  rw [frozenEq]
  exact ⟨rfl, rfl, rfl, rfl, rfl, rfl⟩

theorem carriedChild {node : RouteTree H M V} {r c : Route H M V} {inherited : List M}
    (carries : Carries node r inherited) {i : Nat} (found : r.children[i]? = some c) :
    node.children[i]? = some (frozen c (inherited ++ r.middlewares)) := by
  rw [carries.children, List.getElem?_map, found, Option.map_some]

/- A list of candidates under which the loop of a node is the search over the children
`tried` lists, in that order: children that do not match may be listed or not. -/
def Scans (plat : Platform) (full : Slice) (candidates : RouteTree.Candidates H M V) (r : Route H M V) : Prop :=
  ∀ ⦃node : RouteTree H M V⦄ ⦃inherited : List M⦄, Carries node r inherited →
    ∀ (rest : Text) {β : Type} {body : Nat → Option (Option β)} {g : Route H M V → Option β},
      (∀ i c, r.children[i]? = some c → body i = some (g c)) →
      (∀ c, matchAt plat full c rest = none → g c = none) →
      RouteTree.loopReturn body (candidates node (suffixSlice full rest)) = some ((tried r rest).findSome? g)

-- Static children are listed for an empty rest, in some order, but none of them matches.
theorem candidateIndicesScan (plat : Platform) (order : RouteTree.HashOrder) (full : Slice) (r : Route H M V) :
    Scans plat full (RouteTree.candidateIndices plat order) r := by
  intro node inherited carries rest β body g each quiet
  have run : ∀ {idxs cs}, Points r.children idxs cs → RouteTree.loopReturn body idxs = some (cs.findSome? g) :=
    fun points => loopReturnSearch ((pointsAt points).imp (fun i c found => each i c found))
  unfold RouteTree.candidateIndices
  by_cases empty : rest = []
  · subst empty
    rw [suffixSliceText, if_pos rfl, carries.static, carries.dynamic, triedEmpty, loopReturnSkip]
    · exact run (indexDynamic r.children)
    · intro i mem
      have listed := (order.perm _).mem_iff.mp mem
      obtain ⟨entry, present, rfl⟩ := List.mem_map.mp listed
      obtain ⟨c, found, key⟩ := indexStaticEntries r.children entry present
      rw [each _ c found, quiet c (staticNeedsText plat full key)]
  · rw [suffixSliceText, if_neg empty, carries.static, carries.dynamic]
    have name := (stripOneSegmentText plat (suffixSlice full rest)).1
    have static := indexStatic r.children (firstSegment rest)
    rw [suffixSliceText] at name
    rw [tried]
    refine run (pointsAppend ?_ (indexDynamic r.children))
    rw [← name] at static ⊢
    exact static

theorem callPathOnlyFrozen (plat : Platform) (full : Slice) (r : Route H M V) (inherited : List M) (rest : Text) :
    RouteTree.callPathOnly plat (frozen r inherited) (suffixSlice full rest) full = matchAt plat full r rest := by
  rw [RouteTree.callPathOnly, frozenEq, matchAt]
  simp [arcOf]

theorem matchAtSuffix {plat : Platform} {full : Slice} {r : Route H M V} {rest : Text} {found : PathMatch}
    (matched : matchAt plat full r rest = some found) (inside : rest <:+ full.text) :
    found.remain.text <:+ full.text :=
  (matchSegmentSuffix matched).trans inside

theorem sliceFromRest {full : Slice} {rest : Text} (inside : rest <:+ full.text) :
    RouteTree.sliceFrom full (byteLen full.text - byteLen rest) = some (suffixSlice full rest) :=
  sliceFromSuffix inside

theorem pathCanResolveCarried {plat : Platform} {full : Slice} {candidates : RouteTree.Candidates H M V}
    {r : Route H M V} (scans : Throughout (Scans plat full candidates) r) :
    ∀ {node : RouteTree H M V} {inherited : List M}, Carries node r inherited → ∀ {rest : Text}, rest <:+ full.text →
      RouteTree.pathCanResolve plat candidates node (byteLen full.text - byteLen rest) full =
        some (firstStop plat full r rest).isSome := by
  induction scans with
  | @node r here below ih =>
    intro node inherited carries rest inside
    have loop : RouteTree.loopReturn
        (RouteTree.resolveVia plat (RouteTree.pathCanResolve plat candidates · · full) node (suffixSlice full rest) full)
        (candidates node (suffixSlice full rest)) =
          some (((tried r rest).findSome? (stopVia plat full rest)).map (fun _ => ())) := by
      rw [List.map_findSome?]
      apply here carries
      · intro i c found
        unfold RouteTree.resolveVia
        simp only [carriedChild carries found, callPathOnlyFrozen, Function.comp, stopVia]
        cases matched : matchAt plat full c rest with
        | none => rfl
        | some candidate =>
          have resolved := ih c (List.mem_of_getElem? found) (frozenCarries c (inherited ++ r.middlewares))
            (matchAtSuffix matched inside)
          simp only [remainOffset, resolved, Option.bind_eq_bind, Option.bind_some]
          cases firstStop plat full c candidate.remain.text <;> rfl
      · intro c missed
        simp [stopVia, missed]
    rw [RouteTree.pathCanResolveEq, sliceFromRest inside]
    simp only [loop, firstStopEq, carries.segment, suffixSliceText]
    cases (tried r rest).findSome? (stopVia plat full rest) with
    | some hits => rfl
    | none => by_cases stops : rest = [] ∨ (segmentOf r).isFullPath = true <;> simp_all

end Silent.RouterSearch
