import Silent.RouteChains

/-! The two indexes of a node against a scan of all its children. The hash lookup uses
the text up to the next slash, the match itself compares with the whole name: the two
agree on every rest of a path as long as no static name contains a slash, which
`Route::new` guarantees by splitting at slashes. -/
namespace Silent.IndexedLookup
open ByteText PathSegment HttpRequest RouteBuilder RouteShape Dispatch SegmentSpec RouterSearch RouterRefinement RouteChains

variable {H M V R : Type}

def isStatic (t : RouteTree H M V) : Bool := t.segment.asStaticKey.isSome

def linearIndices : RouteTree.Candidates H M V := fun self _ =>
  (self.children.zipIdx.filter (fun entry => isStatic entry.1)).map Prod.snd ++
    (self.children.zipIdx.filter (fun entry => !isStatic entry.1)).map Prod.snd

def SlashFreeNames (r : Route H M V) : Prop :=
  ∀ c ∈ r.children, ∀ name, segmentOf c = .static name → '/' ∉ name

theorem pointsFilter {α : Type} (xs : List α) (p : α → Bool) :
    Points xs ((xs.zipIdx.filter (fun entry => p entry.1)).map Prod.snd) (xs.filter p) := by
  have sources : (xs.zipIdx.filter (fun entry => p entry.1)).map (fun entry => xs[entry.2]?) =
      (xs.zipIdx.filter (fun entry => p entry.1)).map (fun entry => some entry.1) := by
    apply List.map_congr_left
    intro entry mem
    have listed := List.mem_of_mem_filter mem
    exact (List.mem_zipIdx_iff_getElem?.mp listed)
  have firsts : (xs.zipIdx.filter (fun entry => p entry.1)).map Prod.fst = xs.filter p := by
    conv_rhs => rw [← List.zipIdx_map_fst 0 xs, List.filter_map]
    rfl
  rw [Points, List.map_map]
  refine sources.trans ?_
  rw [← firsts, List.map_map]
  rfl

theorem linearPoints {node : RouteTree H M V} {r : Route H M V} {inherited : List M}
    (carries : Carries node r inherited) (remain : Slice) :
    Points r.children (linearIndices node remain)
      (r.children.filter (fun c => (segmentOf c).asStaticKey.isSome) ++ dynamicChildren r.children) := by
  have static : ∀ c : Route H M V, isStatic (frozen c (inherited ++ r.middlewares)) = (segmentOf c).asStaticKey.isSome :=
    fun c => by rw [isStatic, (frozenCarries c _).segment]
  have dynamic : ∀ c : Route H M V, (!(segmentOf c).asStaticKey.isSome) = (segmentOf c).asStaticKey.isNone :=
    fun c => by cases (segmentOf c).asStaticKey <;> rfl
  rw [linearIndices, carries.children, dynamicChildren]
  simp only [List.zipIdx_map, List.filter_map, List.map_map, Function.comp_def, Prod.map, static, dynamic, id]
  exact pointsAppend (pointsFilter r.children (fun c => (segmentOf c).asStaticKey.isSome))
    (pointsFilter r.children (fun c => (segmentOf c).asStaticKey.isNone))

/- Among the static children only the one the index leads to can contribute to a
search. -/
theorem staticSearch {β : Type} {r : Route H M V} {name : Text} {g : Route H M V → Option β}
    (distinct : DistinctSiblings r)
    (quiet : ∀ c ∈ r.children, (segmentOf c).asStaticKey.isSome = true → (segmentOf c).asStaticKey ≠ some name → g c = none) :
    (r.children.filter (fun c => (segmentOf c).asStaticKey.isSome)).findSome? g =
      (staticChild r.children name).toList.findSome? g := by
  cases found : staticChild r.children name with
  | none =>
    rw [Option.toList_none, List.findSome?_nil, List.findSome?_eq_none_iff]
    intro c mem
    obtain ⟨child, static⟩ := List.mem_filter.mp mem
    refine quiet c child static (fun key => ?_)
    have other := List.find?_eq_none.mp found c (List.mem_reverse.mpr child)
    exact other (decide_eq_true key)
  | some c =>
    have child : c ∈ r.children := by simpa using List.mem_of_find?_eq_some found
    have key : (segmentOf c).asStaticKey = some name := by simpa using List.find?_some found
    have only : ∀ d ∈ r.children, (segmentOf d).asStaticKey.isSome = true → g d ≠ none → d = c := by
      intro d mem static contributes
      have same : (segmentOf d).asStaticKey = some name := by
        by_contra differs
        exact contributes (quiet d mem static differs)
      have paths : d.path = c.path := (staticSource same).2.1.symm.trans (staticSource key).2.1
      exact List.inj_on_of_nodup_map distinct mem child paths
    rw [Option.toList_some, List.findSome?_singleton]
    cases result : (r.children.filter (fun c => (segmentOf c).asStaticKey.isSome)).findSome? g with
    | none =>
      have silent := List.findSome?_eq_none_iff.mp result c (List.mem_filter.mpr ⟨child, by simp [key]⟩)
      exact silent.symm
    | some value =>
      obtain ⟨d, mem, contributes⟩ := List.exists_of_findSome?_eq_some result
      obtain ⟨mem, static⟩ := List.mem_filter.mp mem
      rw [← only d mem static (by simp [contributes]), contributes]

theorem linearIndicesScan {r : Route H M V} (distinct : DistinctSiblings r) (plain : SlashFreeNames r)
    (plat : Platform) (full : Slice) : Scans plat full linearIndices r := by
  intro node inherited carries rest β body g each quiet
  have points := linearPoints carries (suffixSlice full rest)
  rw [loopReturnSearch ((pointsAt points).imp (fun i c found => each i c found)), tried, List.findSome?_append,
    List.findSome?_append, staticSearch distinct]
  intro c mem static differs
  apply quiet
  by_contra matched
  obtain ⟨name, key⟩ := Option.isSome_iff_exists.mp static
  exact differs (key.trans (congrArg some (staticMatches key (plain c mem name (staticSource key).1) matched).symm))

def Partitions (r : Route H M V) : Prop :=
  let index := RouteTree.indexChildren (r.children.map segmentOf)
  (index.1.entries.map Sigma.snd ++ index.2).Perm (List.range r.children.length)

theorem distinctPartitions {r : Route H M V} (distinct : DistinctSiblings r) : Partitions r := by
  unfold DistinctSiblings at distinct
  unfold Partitions
  generalize r.children = children at distinct
  induction children using List.reverseRecOn with
  | nil => exact .refl _
  | append_singleton children child ih =>
    rw [List.map_append, List.nodup_append] at distinct
    obtain ⟨distinct, _, apart⟩ := distinct
    have smaller := ih distinct
    rw [List.map_append, List.map_singleton, indexChildrenSnoc, List.length_map, List.length_append,
      List.length_singleton, List.range_succ]
    unfold RouteTree.indexChild
    dsimp only at *
    cases key : (segmentOf child).asStaticKey with
    | none =>
      rw [← List.append_assoc]
      exact smaller.append_right _
    | some name =>
      have fresh : name ∉ (RouteTree.indexChildren (children.map segmentOf)).1 := by
        intro present
        obtain ⟨value, entry⟩ := AList.mem_keys.mp present |> List.exists_of_mem_keys
        obtain ⟨other, found, same⟩ := indexStaticEntries children _ entry
        have paths : other.path = child.path := (staticSource same).2.1.symm.trans (staticSource key).2.1
        exact apart _ (List.mem_map_of_mem (List.mem_of_getElem? found)) _ (by simp) paths
      simp only [AList.entries_insert, List.kerase_of_notMem_keys fresh, List.map_cons]
      exact (List.Perm.cons _ smaller).trans (List.perm_append_singleton _ _).symm

theorem indexedLookupIsLinearScan {r : Route H M V} (distinct : Throughout DistinctSiblings r)
    (plain : Throughout SlashFreeNames r) :
    (∀ (m : Type → Type) [Monad m] (env : Env H M V R m) (plat : Platform) (order : RouteTree.HashOrder) (buffer : Nat)
      (req : Request V),
      RouteTree.call env plat (RouteTree.candidateIndices plat order) buffer (RouteTree.convertToRouteTree r) req =
        RouteTree.call env plat linearIndices buffer (RouteTree.convertToRouteTree r) req) ∧
    Throughout Partitions r := by
  constructor
  · intro m _ env plat order buffer req
    have scans : Throughout (Scans plat ⟨buffer, req.uriPath⟩ linearIndices) r :=
      throughoutMono (fun _ both => linearIndicesScan both.1 both.2 plat _) (throughoutBoth distinct plain)
    rw [callConverted, callScanned env scans]
  · exact throughoutMono (fun _ => distinctPartitions) distinct

def accept : Env Nat Unit Unit Unit Id :=
  ⟨fun _ _ => .ok (), fun _ req next => next req, .error .notFound⟩

def oneRoute (name : Text) : Route Nat Unit Unit :=
  {(Route.newRoot : Route Nat Unit Unit) with
    children := [{(Route.new "a".toList).insertHandler .get 1 with path := name}]}

theorem newA : (Route.new "a".toList : Route Nat Unit Unit) = Route.single "a".toList "a".toList := by
  rw [Route.new]
  simp [splitFirst]

theorem oneRouteDistinct (name : Text) : Throughout DistinctSiblings (oneRoute name) := by
  refine .node (by simp [DistinctSiblings, oneRoute]) (fun c mem => ?_)
  cases List.mem_singleton.mp mem
  rw [newA]
  exact .node List.nodup_nil nofun

theorem oneRouteSlashFree : Throughout SlashFreeNames (oneRoute "a".toList) := by
  refine .node (fun c mem name static => ?_) (fun c mem => ?_)
  · cases List.mem_singleton.mp mem
    rw [(parseStaticSource static).1]
    decide
  · cases List.mem_singleton.mp mem
    rw [newA]
    exact .node nofun nofun

theorem indexedLookupOneRoute :
    RouteTree.call accept literalAbove (RouteTree.candidateIndices literalAbove entryOrder) 64
        (RouteTree.convertToRouteTree (oneRoute "a".toList)) (Request.fromParts .get "/a".toList) =
      RouteTree.call accept literalAbove linearIndices 64 (RouteTree.convertToRouteTree (oneRoute "a".toList))
        (Request.fromParts .get "/a".toList) ∧
    Throughout Partitions (oneRoute "a".toList) := by
  obtain ⟨same, partitions⟩ := indexedLookupIsLinearScan (R := Unit) (oneRouteDistinct "a".toList) oneRouteSlashFree
  exact ⟨same Id accept literalAbove entryOrder 64 _, partitions⟩

/- The public field `path` of a route can be set to a text that `Route::new` would have
split: the scan finds that child, the index does not. -/
theorem slashedNameNotIndexed :
    Throughout DistinctSiblings (oneRoute "a/b".toList) ∧
      RouteTree.call accept literalAbove (RouteTree.candidateIndices literalAbove entryOrder) 64
          (RouteTree.convertToRouteTree (oneRoute "a/b".toList)) (Request.fromParts .get "/a/b".toList) ≠
        RouteTree.call accept literalAbove linearIndices 64 (RouteTree.convertToRouteTree (oneRoute "a/b".toList))
          (Request.fromParts .get "/a/b".toList) := by
  refine ⟨oneRouteDistinct _, fun same => ?_⟩
  have results := congrArg Except.isOk same
  revert results
  decide +kernel

end Silent.IndexedLookup
