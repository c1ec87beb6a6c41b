import Silent.RouteChains
import Silent.RouteTable

/-! A tree before and after a route is appended to it. The first chain of the grown
tree is the first chain of the old one, node by node, unless it passes the node of the
appended route: merging only adds chains, and what is added stands at one place among
the candidates. -/
namespace Silent.RouteGraft
open ByteText PathSegment HttpRequest RouteBuilder RouteShape RouteTable Dispatch SegmentSpec RouterSearch RouterRefinement
open RouteChains

variable {H M V R : Type}

def Reachable (plat : Platform) (full : Slice) (r : Route H M V) (rest : Text) : Prop :=
  ∃ hits, Matches plat full r rest hits

structure Covers (plat : Platform) (full : Slice) (r grown : Route H M V) : Prop where
  path : grown.path = r.path
  children : grown.children = [] → r.children = []
  reaches : ∀ rest, Reachable plat full r rest → Reachable plat full grown rest

def CoversList (plat : Platform) (full : Slice) (cs grown : List (Route H M V)) : Prop :=
  ∀ c ∈ cs, ∃ c' ∈ grown, Covers plat full c c'

theorem coversRefl (plat : Platform) (full : Slice) (r : Route H M V) : Covers plat full r r :=
  ⟨rfl, id, fun _ => id⟩

theorem coversTrans {plat : Platform} {full : Slice} {r s t : Route H M V} (first : Covers plat full r s)
    (second : Covers plat full s t) : Covers plat full r t :=
  ⟨second.path.trans first.path, fun none_ => first.children (second.children none_),
    fun rest reach => second.reaches rest (first.reaches rest reach)⟩

theorem coversListTrans {plat : Platform} {full : Slice} {cs ds es : List (Route H M V)}
    (first : CoversList plat full cs ds) (second : CoversList plat full ds es) : CoversList plat full cs es := by
  intro c mem
  obtain ⟨d, mem', left⟩ := first c mem
  obtain ⟨e, mem'', right⟩ := second d mem'
  exact ⟨e, mem'', coversTrans left right⟩

theorem matchSegmentGains {plat : Platform} {segment : SpecialSeg} {few many : Bool} {path full : Slice}
    {found : PathMatch} (gains : many = true → few = true)
    (matched : matchSegment plat segment few path full = some found) :
    matchSegment plat segment many path full = some found := by
  cases segment with
  | root =>
    simp only [matchSegment] at matched ⊢
    generalize (if path.text = ['/'] then plat.literal else path) = normalized at matched ⊢
    split at matched
    · contradiction
    · rename_i passes
      rw [if_neg (fun stuck => passes ⟨stuck.1, gains stuck.2⟩)]
      exact matched
  | _ => exact matched

theorem coversMatch {plat : Platform} {full : Slice} {c c' : Route H M V} (covers : Covers plat full c c') {rest : Text}
    {found : PathMatch} (matched : matchAt plat full c rest = some found) : matchAt plat full c' rest = some found := by
  have segments : segmentOf c' = segmentOf c := congrArg parseSpecialSeg covers.path
  rw [matchAt, segments]
  exact matchSegmentGains (by simpa using covers.children) matched

theorem coversOf {plat : Platform} {full : Slice} {r grown : Route H M V} (path : grown.path = r.path)
    (below : CoversList plat full r.children grown.children) : Covers plat full r grown := by
  refine ⟨path, fun none_ => ?_, fun rest reach => ?_⟩
  · by_contra some_
    obtain ⟨c, mem⟩ := List.exists_mem_of_ne_nil _ some_
    obtain ⟨c', mem', _⟩ := below c mem
    simp [none_] at mem'
  · obtain ⟨hits, chain⟩ := reach
    cases chain with
    | stop ends =>
      have segments : segmentOf grown = segmentOf r := congrArg parseSpecialSeg path
      exact ⟨[], .stop (segments ▸ ends)⟩
    | child mem matched deeper =>
      obtain ⟨c', mem', covers⟩ := below _ mem
      obtain ⟨hits', deeper'⟩ := covers.reaches _ ⟨_, deeper⟩
      exact ⟨_, .child mem' (coversMatch covers matched) deeper'⟩

theorem mergeChildCovers {plat : Platform} {full : Slice} {cs : List (Route H M V)} {route : Route H M V}
    (merges : ∀ existing, Covers plat full existing (Route.mergeFrom existing route)) :
    CoversList plat full cs (Route.mergeChild cs route) := by
  intro c mem
  rcases mergeChildCases cs route with ⟨_, merged⟩ | ⟨left, existing, right, rfl, _, merged⟩
  · exact ⟨c, by simp [merged, mem], coversRefl plat full c⟩
  · rw [merged]
    rcases List.mem_append.mp mem with before | after
    · exact ⟨c, by simp [before], coversRefl plat full c⟩
    · rcases List.mem_cons.mp after with rfl | after
      · exact ⟨_, by simp, merges c⟩
      · exact ⟨c, by simp [after], coversRefl plat full c⟩

theorem mergeFromCovers (plat : Platform) (full : Slice) (route : Route H M V) :
    ∀ existing, Covers plat full existing (Route.mergeFrom existing route) := by
  induction route using childInduction with
  | step route ih =>
    have fold : ∀ (routes : List (Route H M V)), (∀ c ∈ routes, c ∈ route.children) → ∀ cs,
        CoversList plat full cs (routes.foldl Route.mergeChild cs) := by
      intro routes
      induction routes with
      | nil => exact fun _ cs c mem => ⟨c, mem, coversRefl plat full c⟩
      | cons c routes more =>
        intro inside cs
        have first : CoversList plat full cs (Route.mergeChild cs c) := mergeChildCovers (ih c (inside c (by simp)))
        exact coversListTrans first (more (fun d mem => inside d (by simp [mem])) _)
    intro existing
    exact coversOf (mergeFromPath _ _) (by rw [mergeFromEq]; exact fold _ (fun _ mem => mem) _)

theorem staticChildAppend (xs ys : List (Route H M V)) (name : Text) :
    staticChild (xs ++ ys) name = (staticChild ys name).or (staticChild xs name) := by
  rw [staticChild, List.reverse_append, List.find?_append]
  rfl

theorem staticChildCons (c : Route H M V) (cs : List (Route H M V)) (name : Text) :
    staticChild (c :: cs) name =
      (staticChild cs name).or (if (segmentOf c).asStaticKey = some name then some c else none) := by
  rw [← List.singleton_append, staticChildAppend]
  by_cases key : (segmentOf c).asStaticKey = some name <;> simp [staticChild, key]

theorem staticChildOther {cs : List (Route H M V)} {c : Route H M V} {name : Text}
    (key : (segmentOf c).asStaticKey = some name) (apart : ∀ d ∈ cs, d.path ≠ c.path) : staticChild cs name = none := by
  rw [staticChild, List.find?_eq_none]
  intro d mem same
  have path := (staticSource (of_decide_eq_true same)).2.1.symm.trans (staticSource key).2.1
  exact apart d (List.mem_reverse.mp mem) path

theorem dynamicChildrenAppend (xs ys : List (Route H M V)) :
    dynamicChildren (xs ++ ys) = dynamicChildren xs ++ dynamicChildren ys := by
  simp [dynamicChildren]

theorem dynamicChildrenCons (c : Route H M V) (cs : List (Route H M V)) :
    dynamicChildren (c :: cs) = if (segmentOf c).asStaticKey.isNone then c :: dynamicChildren cs else dynamicChildren cs :=
  List.filter_cons

/- Either nothing changes, or the new route stands at one place, or it replaces there
the sibling it was merged with. -/
inductive Inserted (old new : List (Route H M V)) (route : Route H M V) : Prop
  | same (unchanged : new = old)
  | fresh (left right : List (Route H M V)) (before : old = left ++ right) (after : new = left ++ route :: right)
  | merged (left right : List (Route H M V)) (existing : Route H M V) (path : existing.path = route.path)
      (before : old = left ++ existing :: right) (after : new = left ++ Route.mergeFrom existing route :: right)

theorem triedAppended (r : Route H M V) (route : Route H M V) (rest : Text)
    (apart : ∀ c ∈ r.children, c.path ≠ route.path) :
    Inserted (tried r rest) (tried {r with children := r.children ++ [route]} rest) route := by
  unfold tried
  dsimp only
  rw [staticChildAppend, dynamicChildrenAppend, staticChildCons, dynamicChildrenCons]
  have nothing : staticChild ([] : List (Route H M V)) (firstSegment rest) = none := rfl
  have noOther : dynamicChildren ([] : List (Route H M V)) = [] := rfl
  rw [nothing, noOther, Option.none_or]
  cases key : (segmentOf route).asStaticKey with
  | none => exact .fresh _ [] (List.append_nil _).symm (by simp)
  | some name =>
    by_cases asked : name = firstSegment rest
    · subst asked
      rw [staticChildOther key apart]
      exact .fresh [] (dynamicChildren r.children) rfl (by simp)
    · exact .same (by simp [asked])

theorem triedReplaced {r existing route : Route H M V} {left right : List (Route H M V)} (rest : Text)
    (distinct : DistinctSiblings r) (parts : r.children = left ++ existing :: right) (path : existing.path = route.path) :
    Inserted (tried r rest) (tried {r with children := left ++ Route.mergeFrom existing route :: right} rest) route := by
  have segments : segmentOf (Route.mergeFrom existing route) = segmentOf existing := by
    rw [segmentOf, segmentOf, mergeFromPath]
  unfold DistinctSiblings at distinct
  unfold tried
  dsimp only
  rw [parts] at distinct ⊢
  simp only [staticChildAppend, dynamicChildrenAppend, staticChildCons, dynamicChildrenCons, segments]
  cases key : (segmentOf existing).asStaticKey with
  | none =>
    exact .merged (((staticChild right (firstSegment rest)).or (staticChild left (firstSegment rest))).toList ++
      dynamicChildren left) (dynamicChildren right) existing path (by simp) (by simp)
  | some name =>
    by_cases asked : name = firstSegment rest
    · subst asked
      have apart : ∀ d ∈ right, d.path ≠ existing.path := by
        simp only [List.map_append, List.map_cons, List.nodup_append, List.nodup_cons] at distinct
        exact fun d mem same => distinct.2.1.1 (List.mem_map.mpr ⟨d, mem, same⟩)
      rw [staticChildOther key apart]
      exact .merged [] (dynamicChildren left ++ dynamicChildren right) existing path (by simp) (by simp)
    · exact .same (by simp [asked])

theorem triedMerged {r route : Route H M V} (proper : Throughout Proper r) (named : Throughout Proper route)
    (rest : Text) :
    Inserted (tried r rest) (tried {r with children := Route.mergeChild r.children route} rest) route := by
  rcases mergeChildCases r.children route with ⟨apart, merged⟩ | ⟨left, existing, right, parts, same, merged⟩
  · rw [merged]
    refine triedAppended r route rest (fun c mem path => ?_)
    have marks : c.specialMatch = route.specialMatch := by
      rw [(throughoutHere (throughoutBelow proper c mem)).marked, (throughoutHere named).marked, path]
    have different := apart c mem
    simp [Route.sameNode, path, marks] at different
  · rw [merged]
    exact triedReplaced rest (throughoutHere proper).distinct parts (sameNodePath same).1

theorem stopViaNone {plat : Platform} {full : Slice} {rest : Text} {c : Route H M V} :
    stopVia plat full rest c = none ↔
      ∀ found, matchAt plat full c rest = some found → firstStop plat full c found.remain.text = none := by
  unfold stopVia
  cases matchAt plat full c rest with
  | none => simp
  | some found => cases stop : firstStop plat full c found.remain.text <;> simp [stop]

theorem stopViaCovered {plat : Platform} {full : Slice} {c c' : Route H M V} (covers : Covers plat full c c')
    (proper : Throughout Proper c') {rest : Text} (none_ : stopVia plat full rest c' = none) :
    stopVia plat full rest c = none := by
  rw [stopViaNone] at none_ ⊢
  intro found matched
  have blocked := none_ found (coversMatch covers matched)
  rw [firstStopHead, List.head?_eq_none_iff] at blocked
  rw [firstStopHead, List.head?_eq_none_iff, List.eq_nil_iff_forall_not_mem]
  intro hits mem
  obtain ⟨hits', chain⟩ := covers.reaches _ ⟨hits, stopsMatch mem⟩
  simpa [blocked] using matchesStop proper chain

theorem leafStops {plat : Platform} {full : Slice} {r route : Route H M V} (proper : Throughout Proper r)
    (named : Throughout Proper route) (rest : Text)
    (avoids : ∀ hits ∈ firstStop plat full {r with children := Route.mergeChild r.children route} rest,
      ∀ hit, hits[0]? = some hit → hit.route.path ≠ route.path) :
    firstStop plat full {r with children := Route.mergeChild r.children route} rest = firstStop plat full r rest := by
  have through : ∀ c left right, c.path = route.path →
      tried {r with children := Route.mergeChild r.children route} rest = left ++ c :: right →
      left.findSome? (stopVia plat full rest) = none → stopVia plat full rest c = none := by
    intro c left right path parts none_
    cases stop : stopVia plat full rest c with
    | none => rfl
    | some hits =>
      obtain ⟨found, tail, rfl, _⟩ := stopViaHead stop
      have first : firstStop plat full {r with children := Route.mergeChild r.children route} rest =
          some (⟨c, rest, found⟩ :: tail) := by
        rw [firstStopEq, parts, List.findSome?_append, none_, List.findSome?_cons, stop]
        rfl
      exact absurd path (avoids _ first _ rfl)
  have candidates : (tried {r with children := Route.mergeChild r.children route} rest).findSome? (stopVia plat full rest) =
      (tried r rest).findSome? (stopVia plat full rest) := by
    rcases triedMerged proper named rest with unchanged | ⟨left, right, before, after⟩ |
      ⟨left, right, existing, path, before, after⟩
    · rw [unchanged]
    · rw [before, after, List.findSome?_append, List.findSome?_append]
      cases earlier : left.findSome? (stopVia plat full rest) with
      | some hits => rfl
      | none => rw [List.findSome?_cons, through route left right rfl after earlier]
    · rw [before, after, List.findSome?_append, List.findSome?_append]
      cases earlier : left.findSome? (stopVia plat full rest) with
      | some hits => rfl
      | none =>
        have blocked := through _ left right ((mergeFromPath existing route).trans path) after earlier
        have listed : existing ∈ tried r rest := by simp [before]
        have standing := throughoutBelow proper existing (triedMem listed)
        have blocked' := stopViaCovered (mergeFromCovers plat full route existing)
          (mergeFromProper named existing standing path) blocked
        rw [List.findSome?_cons, List.findSome?_cons, blocked, blocked']
  rw [firstStopEq, firstStopEq, candidates]
  rfl

structure Alike (r r' : Route H M V) : Prop where
  path : r'.path = r.path
  handler : r'.handler = r.handler
  middlewares : r'.middlewares = r.middlewares
  state : r'.state = r.state

def AlikeHits : List (Hit H M V) → List (Hit H M V) → Prop :=
  List.Forall₂ (fun hit hit' => Alike hit.route hit'.route ∧ hit'.rest = hit.rest ∧ hit'.found = hit.found)

theorem alikeRefl (r : Route H M V) : Alike r r := ⟨rfl, rfl, rfl, rfl⟩

theorem alikeHitsRefl (hits : List (Hit H M V)) : AlikeHits hits hits :=
  List.forall₂_same.mpr (fun hit _ => ⟨alikeRefl hit.route, rfl, rfl⟩)

theorem enterAlike {m : Type → Type} [Monad m] (env : Env H M V R m) {r r' : Route H M V} (alike : Alike r r')
    (next : Request V → m (SilentResult R)) (req : Request V) :
    enter env r' next (addState r' req) = enter env r next (addState r req) := by
  rw [enter, enter, addState, addState, alike.middlewares, alike.state]

theorem followAlike {m : Type → Type} [Monad m] (env : Env H M V R m) (full : Slice) {r r' : Route H M V}
    (alike : Alike r r') {hits hits' : List (Hit H M V)} (chains : AlikeHits hits hits') (req : Request V) :
    follow env full r' hits' req = follow env full r hits req := by
  induction chains generalizing r r' req with
  | nil => rw [follow, follow, serve, serve, alike.handler]
  | @cons hit hit' hits hits' same rest ih =>
    obtain ⟨alikeHit, _, found⟩ := same
    have segments : segmentOf hit'.route = segmentOf hit.route := congrArg parseSpecialSeg alikeHit.path
    simp only [follow, segments, found]
    cases RouteTree.bindParams (segmentOf hit.route) req hit.found full with
    | none => rfl
    | some bound =>
      dsimp only
      rw [enterAlike env alikeHit, funext (ih alikeHit)]

inductive Grafted (route : Route H M V) : List Text → Route H M V → Route H M V → Prop
  | leaf {seg r} (path : r.path = seg) :
      Grafted route [seg] r {r with children := Route.mergeChild r.children route}
  | step {seg segs r c c'} (path : r.path = seg) (children : r.children = [c]) (below : Grafted route segs c c') :
      Grafted route (seg :: segs) r {r with children := [c']}

theorem appendGrafts {segs : List Text} {r : Route H M V} (spine : Spine segs r) (route : Route H M V) :
    ∃ grown, r.append route = some grown ∧ Grafted route segs r grown := by
  unfold Route.append
  induction spine with
  | @leaf seg r plain path created =>
    refine ⟨_, ?_, .leaf path⟩
    rw [Route.updateRealRoute, if_neg (by rw [created]; exact plain)]
  | @step seg segs r c plain path created children below ih =>
    obtain ⟨grown, done, grafted⟩ := ih
    refine ⟨_, ?_, .step path children grafted⟩
    rw [updateRealStep plain created children, done]
    rfl

theorem graftedAlike {route r grown : Route H M V} {segs : List Text} (grafted : Grafted route segs r grown) :
    Alike r grown := by
  cases grafted <;> exact ⟨rfl, rfl, rfl, rfl⟩

theorem graftedHead {route r grown : Route H M V} {segs : List Text} (grafted : Grafted route segs r grown) :
    ∃ rest, segs = r.path :: rest := by
  cases grafted with
  | leaf path => exact ⟨[], by rw [path]⟩
  | step path children below => exact ⟨_, by rw [path]⟩

theorem triedOnly {r c : Route H M V} (children : r.children = [c]) (rest : Text) :
    tried r rest = if (segmentOf c).asStaticKey = none ∨ (segmentOf c).asStaticKey = some (firstSegment rest) then [c]
      else [] := by
  rw [tried, children, staticChildCons, dynamicChildrenCons]
  cases key : (segmentOf c).asStaticKey with
  | none => simp [staticChild, dynamicChildren]
  | some name => by_cases asked : name = firstSegment rest <;> simp [staticChild, dynamicChildren, asked]

theorem onlyStop {plat : Platform} {full : Slice} {r c : Route H M V} (children : r.children = [c]) (rest : Text) :
    firstStop plat full r rest =
      (if (segmentOf c).asStaticKey = none ∨ (segmentOf c).asStaticKey = some (firstSegment rest) then
        stopVia plat full rest c else none).or (if rest = [] ∨ (segmentOf r).isFullPath then some [] else none) := by
  rw [firstStopEq, triedOnly children]
  split
  · rw [List.findSome?_singleton]
  · rfl

theorem matchAtNamed {plat : Platform} {full : Slice} {c c' : Route H M V} (path : c'.path = c.path)
    (named : c.path ≠ []) (rest : Text) : matchAt plat full c' rest = matchAt plat full c rest := by
  have segments : segmentOf c' = segmentOf c := congrArg parseSpecialSeg path
  have notRoot : segmentOf c ≠ .root := by
    unfold segmentOf parseSpecialSeg
    rw [if_neg named]
    split
    · split <;> simp
    · simp
  rw [matchAt, matchAt, segments]
  cases segment : segmentOf c with
  | root => exact absurd segment notRoot
  | _ => rfl

theorem alikeOr {first second : Option (List (Hit H M V))} (related : Option.Rel AlikeHits first second)
    (own : Option (List (Hit H M V))) : Option.Rel AlikeHits (first.or own) (second.or own) := by
  cases related with
  | some same => exact .some same
  | none =>
    cases own with
    | none => exact .none
    | some hits => exact .some (alikeHitsRefl hits)

/- The chain the router follows is the old one, node by node, unless it passes the
appended route. -/
theorem graftedStops {plat : Platform} {full : Slice} {route r grown : Route H M V} {segs : List Text}
    (grafted : Grafted route segs r grown) (proper : Throughout Proper r) (mounted : Throughout Proper route)
    (named : ∀ seg ∈ segs.tail, seg ≠ []) (rest : Text)
    (avoids : ∀ hits ∈ firstStop plat full grown rest, ∀ hit, hits[segs.length - 1]? = some hit →
      hit.route.path ≠ route.path) :
    Option.Rel AlikeHits (firstStop plat full r rest) (firstStop plat full grown rest) := by
  induction grafted generalizing rest with
  | @leaf seg r path =>
    rw [leafStops proper mounted rest avoids]
    cases firstStop plat full r rest with
    | none => exact .none
    | some hits => exact .some (alikeHitsRefl hits)
  | @step seg segs r c c' path children below ih =>
    obtain ⟨later, head⟩ := graftedHead below
    have alike := graftedAlike below
    have inner : Throughout Proper c := throughoutBelow proper c (by simp [children])
    have segments : segmentOf c' = segmentOf c := congrArg parseSpecialSeg alike.path
    have sole : firstStop plat full {r with children := [c']} rest = _ := onlyStop rfl rest
    rw [segments] at sole
    rw [onlyStop children, sole]
    refine alikeOr ?_ _
    split
    · rename_i asked
      have same : matchAt plat full c' rest = matchAt plat full c rest :=
        matchAtNamed alike.path (named c.path (by simp [head])) rest
      unfold stopVia
      rw [same]
      cases matched : matchAt plat full c rest with
      | none => exact .none
      | some found =>
        have below' := ih inner (fun seg mem => named seg (List.mem_of_mem_tail mem)) found.remain.text ?_
        · simp only [Option.bind_eq_bind, Option.bind_some]
          generalize firstStop plat full c found.remain.text = before at below' ⊢
          generalize firstStop plat full c' found.remain.text = after at below' ⊢
          cases below' with
          | none => exact .none
          | some chains => exact .some (.cons ⟨alike, rfl, rfl⟩ chains)
        · intro hits first hit at_
          refine avoids (⟨c', rest, found⟩ :: hits) ?_ hit ?_
          · rw [sole, if_pos asked, stopVia, same, matched]
            simp only [Option.bind_eq_bind, Option.bind_some]
            rw [Option.mem_def.mp first]
            rfl
          · rw [head] at at_ ⊢
            simpa using at_
    · exact .none

def Avoids (plat : Platform) (full : Slice) (segs : List Text) (first : Text) (grown : Route H M V) : Prop :=
  ∀ hits ∈ (rootStops plat full grown).head?, ∀ hit, hits[segs.length - 1]? = some hit → hit.route.path ≠ first

/- A root segment without children does not match a longer path, so a tree that gains its
first child enters the middlewares of its root for paths it did not match before. -/
def RootSettled (r : Route H M V) (path : Text) : Prop :=
  r.children = [] → r.path = [] → r.middlewares = [] ∨ path = [] ∨ path = ['/']

theorem graftedChildren {route r grown : Route H M V} {segs : List Text} (grafted : Grafted route segs r grown) :
    grown.children ≠ [] := by
  cases grafted with
  | leaf path =>
    dsimp only
    rcases mergeChildCases r.children route with ⟨_, merged⟩ | ⟨left, existing, right, _, _, merged⟩ <;> simp [merged]
  | step path children below => simp

theorem childlessStop {plat : Platform} {full : Slice} {r : Route H M V} (childless : r.children = [])
    (root : segmentOf r = .root) {rest : Text} (more : rest ≠ []) : firstStop plat full r rest = none := by
  have nothing : tried r rest = [] := by
    rw [tried, childless]
    rfl
  rw [firstStopEq, nothing, root]
  simp [more, SpecialSeg.isFullPath]

theorem rootSegment {r : Route H M V} (path : r.path = []) : segmentOf r = .root := by
  rw [segmentOf, parseSpecialSeg, if_pos path]

theorem gainedRoot {plat : Platform} {full : Slice} {route r grown : Route H M V} {segs : List Text}
    (grafted : Grafted route segs r grown) (childless : r.children = []) (path : r.path = []) (more : full.text ≠ [])
    (longer : full.text ≠ ['/']) :
    matchAt plat full r full.text = none ∧ matchAt plat full grown full.text = some ⟨full, none⟩ := by
  have gained : grown.children.isEmpty = false := by simpa using graftedChildren grafted
  rw [matchAt, matchAt, rootSegment path, rootSegment ((graftedAlike grafted).path.trans path), gained, childless,
    suffixSliceSelf]
  exact ⟨by simp [matchSegment, longer, more], by simp [matchSegment, longer]⟩

theorem rootMatchCases {plat : Platform} {full : Slice} {route r grown : Route H M V} {segs : List Text}
    (grafted : Grafted route segs r grown) :
    matchAt plat full grown full.text = matchAt plat full r full.text ∨
      (r.children = [] ∧ r.path = [] ∧ full.text ≠ [] ∧ full.text ≠ ['/']) := by
  have alike := graftedAlike grafted
  by_cases named : r.path = []
  · have gained : grown.children.isEmpty = false := by simpa using graftedChildren grafted
    rw [matchAt, matchAt, rootSegment named, rootSegment (alike.path.trans named), gained, suffixSliceSelf]
    cases childless : r.children.isEmpty with
    | false => exact .inl rfl
    | true =>
      by_cases ends : full.text = [] ∨ full.text = ['/']
      · refine .inl ?_
        rcases ends with ends | ends <;> simp [matchSegment, ends, Platform.literal]
      · obtain ⟨more, longer⟩ := not_or.mp ends
        exact .inr ⟨by simpa using childless, named, more, longer⟩
  · exact .inl (matchAtNamed alike.path named _)

section
variable {m : Type → Type} [Monad m] {plat : Platform} {buffer : Nat} {route r grown : Route H M V} {segs : List Text}
  {req : Request V}

theorem graftedFirst (grafted : Grafted route segs r grown) (proper : Throughout Proper r)
    (mounted : Throughout Proper route) (named : ∀ seg ∈ segs.tail, seg ≠ [])
    (avoids : Avoids plat ⟨buffer, req.uriPath⟩ segs route.path grown) {found : PathMatch}
    (matched : matchAt plat ⟨buffer, req.uriPath⟩ grown req.uriPath = some found) :
    Option.Rel AlikeHits (firstStop plat ⟨buffer, req.uriPath⟩ r found.remain.text)
      (firstStop plat ⟨buffer, req.uriPath⟩ grown found.remain.text) := by
  refine graftedStops grafted proper mounted named found.remain.text (fun hits first => avoids hits ?_)
  rw [firstStopHead] at first
  simpa only [rootStops, matched] using first

theorem answerAlike (env : Env H M V R m) {full : Slice} {rest : Text} (alike : Alike r grown)
    (chains : Option.Rel AlikeHits (firstStop plat full r rest) (firstStop plat full grown rest)) :
    answer env plat full grown rest = answer env plat full r rest := by
  funext later
  unfold answer
  generalize firstStop plat full r rest = before at chains ⊢
  generalize firstStop plat full grown rest = after at chains ⊢
  cases chains with
  | none => rfl
  | some chains => exact followAlike env _ alike chains later

theorem answerGrafted (env : Env H M V R m) (grafted : Grafted route segs r grown) (proper : Throughout Proper r)
    (mounted : Throughout Proper route) (named : ∀ seg ∈ segs.tail, seg ≠ [])
    (avoids : Avoids plat ⟨buffer, req.uriPath⟩ segs route.path grown) (settled : RootSettled r req.uriPath) :
    answerRoot env plat buffer grown req = answerRoot env plat buffer r req := by
  have alike := graftedAlike grafted
  have segments : segmentOf grown = segmentOf r := congrArg parseSpecialSeg alike.path
  have arrives : arrive grown ⟨buffer, req.uriPath⟩ req = arrive r ⟨buffer, req.uriPath⟩ req := by
    rw [arrive, arrive, alike.state]
  have cases_ : matchAt plat ⟨buffer, req.uriPath⟩ grown req.uriPath = matchAt plat ⟨buffer, req.uriPath⟩ r req.uriPath ∨ _ :=
    rootMatchCases grafted
  unfold answerRoot
  dsimp only
  rcases cases_ with same | ⟨childless, path, more, longer⟩
  · rw [same, segments, arrives]
    cases matched : matchAt plat ⟨buffer, req.uriPath⟩ r req.uriPath with
    | none => rfl
    | some found =>
      have continues := answerAlike env alike
        (graftedFirst grafted proper mounted named avoids (same.trans matched))
      dsimp only
      cases RouteTree.bindParams (segmentOf r) (arrive r ⟨buffer, req.uriPath⟩ req) found ⟨buffer, req.uriPath⟩ with
      | none => rfl
      | some bound =>
        dsimp only
        rw [enterAlike env alike, continues]
  · obtain ⟨missed, gained⟩ : matchAt plat ⟨buffer, req.uriPath⟩ r req.uriPath = none ∧ _ :=
      gainedRoot grafted childless path more longer
    have root := rootSegment path
    have idle : grown.middlewares = [] := by
      rw [alike.middlewares]
      rcases settled childless path with idle | short | short
      · exact idle
      · exact absurd short more
      · exact absurd short longer
    have chains := graftedFirst grafted proper mounted named avoids gained
    dsimp only at chains
    rw [childlessStop childless root more] at chains
    rw [gained, missed, segments, root]
    have stuck : firstStop plat ⟨buffer, req.uriPath⟩ grown req.uriPath = none := by
      generalize firstStop plat ⟨buffer, req.uriPath⟩ grown req.uriPath = after at chains ⊢
      cases chains
      rfl
    simp only [RouteTree.bindParams, enter, idle, List.foldr_nil, answer, stuck]

end

end Silent.RouteGraft
