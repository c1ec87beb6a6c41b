import Silent.RouteBuilder

/-! The shape of routes under the builder operations. Merging finds a sibling by its
path and its special mark; since the mark of every built route is that of its path,
siblings keep pairwise distinct paths through every operation. -/
namespace Silent.RouteShape
open ByteText PathSegment HttpRequest RouteBuilder

variable {H M V : Type}

theorem childInduction {P : Route H M V → Prop}
    (step : ∀ r, (∀ c ∈ r.children, P c) → P r) (r : Route H M V) : P r :=
  step r (fun c _mem => childInduction step c)
termination_by sizeOf r
decreasing_by exact Route.sizeOfChild _mem

inductive Throughout (P : Route H M V → Prop) : Route H M V → Prop
  | node {r} (here : P r) (below : ∀ c ∈ r.children, Throughout P c) : Throughout P r

theorem throughoutOf {P : Route H M V → Prop} (all : ∀ r, P r) (r : Route H M V) : Throughout P r := by
  induction r using childInduction with
  | step r ih => exact .node (all r) ih

theorem throughoutMono {P Q : Route H M V → Prop} (implies : ∀ r, P r → Q r) {r : Route H M V}
    (all : Throughout P r) : Throughout Q r := by
  induction all with
  | node here below ih => exact .node (implies _ here) ih

theorem throughoutBoth {P Q : Route H M V → Prop} {r : Route H M V} (left : Throughout P r) (right : Throughout Q r) :
    Throughout (fun r => P r ∧ Q r) r := by
  induction left with
  | node here below ih =>
    obtain ⟨here', below'⟩ := right
    exact .node ⟨here, here'⟩ (fun c mem => ih c mem (below' c mem))

def DistinctSiblings (r : Route H M V) : Prop := (r.children.map (·.path)).Nodup

structure Proper (r : Route H M V) : Prop where
  distinct : DistinctSiblings r
  marked : r.specialMatch = isSpecial r.path
  plain : '/' ∉ r.path

def ProperList (cs : List (Route H M V)) : Prop := (cs.map (·.path)).Nodup ∧ ∀ c ∈ cs, Throughout Proper c

theorem throughoutHere {P : Route H M V → Prop} {r : Route H M V} (all : Throughout P r) : P r := by
  cases all with
  | node here below => exact here

theorem throughoutBelow {P : Route H M V → Prop} {r : Route H M V} (all : Throughout P r) :
    ∀ c ∈ r.children, Throughout P c := by
  cases all with
  | node here below => exact below

theorem properChildren {r : Route H M V} (proper : Throughout Proper r) : ProperList r.children :=
  ⟨(throughoutHere proper).distinct, throughoutBelow proper⟩

theorem properOf {r : Route H M V} (marked : r.specialMatch = isSpecial r.path) (plain : '/' ∉ r.path)
    (children : ProperList r.children) : Throughout Proper r :=
  .node ⟨children.1, marked, plain⟩ children.2

theorem mergeFromEq (self other : Route H M V) :
    Route.mergeFrom self other =
      { self with
        handler := HashMap.orInsertAll self.handler other.handler
        middlewares := self.middlewares ++ other.middlewares
        children := other.children.foldl Route.mergeChild self.children
        state := Route.mergeState self.state other.state
        specialMatch := self.specialMatch || other.specialMatch
        sessionSet := self.sessionSet || other.sessionSet } := by
  rw [Route.mergeFrom, List.foldl_attach]

theorem mergeChildCases (cs : List (Route H M V)) (route : Route H M V) :
    ((∀ c ∈ cs, Route.sameNode route c = false) ∧ Route.mergeChild cs route = cs ++ [route]) ∨
      ∃ left existing right, cs = left ++ existing :: right ∧ Route.sameNode route existing = true ∧
        Route.mergeChild cs route = left ++ Route.mergeFrom existing route :: right := by
  rw [Route.mergeChild]
  cases found : cs.findIdx? (Route.sameNode route) with
  | none => exact .inl ⟨List.findIdx?_eq_none_iff.mp found, rfl⟩
  | some idx =>
    obtain ⟨bound, same, _⟩ := List.findIdx?_eq_some_iff_getElem.mp found
    refine .inr ⟨cs.take idx, cs[idx], cs.drop (idx + 1), ?_, same, List.modify_eq_take_cons_drop bound⟩
    rw [← List.drop_eq_getElem_cons bound, List.take_append_drop]

theorem sameNodePath {route child : Route H M V} (same : Route.sameNode route child = true) :
    child.path = route.path ∧ child.specialMatch = route.specialMatch := by
  simpa [Route.sameNode] using same

@[simp] theorem mergeFromPath (self other : Route H M V) : (Route.mergeFrom self other).path = self.path := by
  rw [mergeFromEq]

theorem mergeChildProper {cs : List (Route H M V)} {route : Route H M V} (list : ProperList cs)
    (proper : Throughout Proper route)
    (merges : ∀ existing, Throughout Proper existing → existing.path = route.path →
      Throughout Proper (Route.mergeFrom existing route)) :
    ProperList (Route.mergeChild cs route) := by
  obtain ⟨distinct, below⟩ := list
  rcases mergeChildCases cs route with ⟨apart, merged⟩ | ⟨left, existing, right, rfl, same, merged⟩
  · rw [merged]
    have fresh : route.path ∉ cs.map (·.path) := by
      intro mem
      obtain ⟨c, child, path⟩ := List.mem_map.mp mem
      have marks : c.specialMatch = route.specialMatch := by
        rw [(throughoutHere (below c child)).marked, (throughoutHere proper).marked, path]
      have different := apart c child
      simp [Route.sameNode, path, marks] at different
    refine ⟨?_, ?_⟩
    · rw [List.map_append, List.map_singleton, List.nodup_append]
      exact ⟨distinct, List.nodup_singleton _, fun a mem b last => by
        rw [List.mem_singleton.mp last]; exact ne_of_mem_of_not_mem mem fresh⟩
    · intro c mem
      rcases List.mem_append.mp mem with old | new
      · exact below c old
      · rw [List.mem_singleton.mp new]
        exact proper
  · rw [merged]
    refine ⟨by simpa using distinct, fun c mem => ?_⟩
    rcases List.mem_append.mp mem with before | after
    · exact below c (by simp [before])
    · rcases List.mem_cons.mp after with rfl | after
      · exact merges existing (below existing (by simp)) (sameNodePath same).1
      · exact below c (by simp [after])

theorem foldProper {routes : List (Route H M V)} (each : ∀ route ∈ routes, Throughout Proper route)
    (merges : ∀ route ∈ routes, ∀ existing, Throughout Proper existing → existing.path = route.path →
      Throughout Proper (Route.mergeFrom existing route)) {cs : List (Route H M V)} (list : ProperList cs) :
    ProperList (routes.foldl Route.mergeChild cs) := by
  induction routes generalizing cs with
  | nil => exact list
  | cons route routes ih =>
    have first := mergeChildProper list (each route (by simp)) (merges route (by simp))
    exact ih (fun r mem => each r (by simp [mem])) (fun r mem => merges r (by simp [mem])) first

theorem mergeFromProper {route : Route H M V} (proper : Throughout Proper route) :
    ∀ existing, Throughout Proper existing → existing.path = route.path →
      Throughout Proper (Route.mergeFrom existing route) := by
  induction proper with
  | @node route here below ih =>
    intro existing standing same
    have marks : (existing.specialMatch || route.specialMatch) = isSpecial existing.path := by
      rw [(throughoutHere standing).marked, here.marked, same, Bool.or_self]
    rw [mergeFromEq]
    exact properOf marks (throughoutHere standing).plain (foldProper below ih (properChildren standing))

theorem graftProper {routes cs : List (Route H M V)} (each : ∀ route ∈ routes, Throughout Proper route)
    (list : ProperList cs) : ProperList (routes.foldl Route.mergeChild cs) :=
  foldProper each (fun route mem => mergeFromProper (each route mem)) list

theorem replaceProper {left right : List (Route H M V)} {child updated : Route H M V}
    (list : ProperList (left ++ child :: right)) (proper : Throughout Proper updated) (same : updated.path = child.path) :
    ProperList (left ++ updated :: right) := by
  refine ⟨by simpa [same] using list.1, fun c mem => ?_⟩
  rcases List.mem_append.mp mem with before | after
  · exact list.2 c (by simp [before])
  · rcases List.mem_cons.mp after with rfl | after
    · exact proper
    · exact list.2 c (by simp [after])

theorem findChildCases {p : Route H M V → Bool} {cs : List (Route H M V)} {idx : Nat}
    (found : cs.findIdx? p = some idx) :
    ∃ left child right, cs = left ++ child :: right ∧ cs[idx]? = some child ∧ p child = true ∧
      ∀ updated, cs.set idx updated = left ++ updated :: right := by
  obtain ⟨bound, fits, _⟩ := List.findIdx?_eq_some_iff_getElem.mp found
  refine ⟨cs.take idx, cs[idx], cs.drop (idx + 1), ?_, List.getElem?_eq_getElem bound, fits, fun updated => ?_⟩
  · rw [← List.drop_eq_getElem_cons bound, List.take_append_drop]
  · rw [List.set_eq_take_append_cons_drop, if_pos bound]

theorem updateRealCases {f : Route H M V → Route H M V} {createPath : Text} {r updated : Route H M V}
    (done : Route.updateRealRoute f createPath r = some updated) :
    ('/' ∉ createPath ∧ updated = f r) ∨
      ('/' ∈ createPath ∧ ∃ left child right changed, r.children = left ++ child :: right ∧
        Route.updateRealRoute f (splitFirst '/' createPath).2 child = some changed ∧
        updated = {r with children := left ++ changed :: right}) := by
  rw [Route.updateRealRoute] at done
  split at done
  · rename_i slash
    refine .inr ⟨slash, ?_⟩
    dsimp only at done
    split at done
    · contradiction
    · rename_i idx found
      obtain ⟨left, child, right, parts, at_, _, sets⟩ := findChildCases found
      simp only [at_, Option.bind_eq_bind, Option.bind_some, Option.bind_eq_some_iff, Option.some.injEq] at done
      obtain ⟨changed, inner, rfl⟩ := done
      exact ⟨left, child, right, changed, parts, inner, by rw [sets]⟩
  · rename_i slash
    exact .inl ⟨slash, (Option.some.inj done).symm⟩

theorem updateRealProper {f : Route H M V → Route H M V}
    (keeps : ∀ r, Throughout Proper r → Throughout Proper (f r) ∧ (f r).path = r.path) (createPath : Text) :
    ∀ {r updated : Route H M V}, Route.updateRealRoute f createPath r = some updated → Throughout Proper r →
      Throughout Proper updated ∧ updated.path = r.path := by
  induction createPath using (measure List.length).wf.induction with
  | h createPath ih =>
    intro r updated done proper
    rcases updateRealCases done with ⟨_, rfl⟩ | ⟨slash, left, child, right, changed, parts, inner, rfl⟩
    · exact keeps r proper
    · have list := properChildren proper
      rw [parts] at list
      obtain ⟨below, same⟩ := ih _ (splitFirstShorter slash) inner (list.2 child (by simp))
      exact ⟨properOf (throughoutHere proper).marked (throughoutHere proper).plain (replaceProper list below same), rfl⟩

theorem updateHandlerCases {f : HashMap Method H → HashMap Method H} {r updated : Route H M V}
    (done : Route.updateHandler f r = some updated) :
    (r.path = r.createPath ∧ updated = {r with handler := f r.handler}) ∨
      (r.path ≠ r.createPath ∧ ∃ left child right changed, r.children = left ++ child :: right ∧
        Route.updateHandler f child = some changed ∧ updated = {r with children := left ++ changed :: right}) := by
  rw [Route.updateHandler] at done
  split at done
  · rename_i same
    exact .inl ⟨same, (Option.some.inj done).symm⟩
  · rename_i differs
    refine .inr ⟨differs, ?_⟩
    dsimp only at done
    split at done
    · contradiction
    · rename_i idx found
      obtain ⟨left, child, right, parts, at_, _, sets⟩ := findChildCases found
      split at done
      · contradiction
      · rename_i child' at'
        cases Option.some.inj (at_.symm.trans at')
        simp only [Option.bind_eq_bind, Option.bind_eq_some_iff, Option.some.injEq] at done
        obtain ⟨changed, inner, rfl⟩ := done
        exact ⟨left, child, right, changed, parts, inner, by rw [sets]⟩

theorem updateHandlerProper {f : HashMap Method H → HashMap Method H} {r : Route H M V} (proper : Throughout Proper r) :
    ∀ {updated : Route H M V}, Route.updateHandler f r = some updated →
      Throughout Proper updated ∧ updated.path = r.path := by
  induction proper with
  | @node r here below ih =>
    intro updated done
    rcases updateHandlerCases done with ⟨_, rfl⟩ | ⟨_, left, child, right, changed, parts, inner, rfl⟩
    · exact ⟨properOf here.marked here.plain ⟨here.distinct, below⟩, rfl⟩
    · have list : ProperList (left ++ child :: right) := parts ▸ ⟨here.distinct, below⟩
      obtain ⟨proper, same⟩ := ih child (by rw [parts]; simp) inner
      exact ⟨properOf here.marked here.plain (replaceProper list proper same), rfl⟩

theorem newCases (path : Text) :
    ((splitFirst '/' (path.dropWhile (· = '/'))).2 = [] ∧ (Route.new path : Route H M V) =
        Route.single (path.dropWhile (· = '/')) (splitFirst '/' (path.dropWhile (· = '/'))).1) ∨
      ((splitFirst '/' (path.dropWhile (· = '/'))).2 ≠ [] ∧
        (splitFirst '/' (path.dropWhile (· = '/'))).2.length < path.length ∧ (Route.new path : Route H M V) =
        {(Route.single (path.dropWhile (· = '/')) (splitFirst '/' (path.dropWhile (· = '/'))).1 : Route H M V) with
          children := [Route.new (splitFirst '/' (path.dropWhile (· = '/'))).2]}) := by
  rw [Route.new]
  dsimp only
  split
  · rename_i last
    exact .inl ⟨last, rfl⟩
  · rename_i more
    have slash : '/' ∈ path.dropWhile (· = '/') := by
      by_contra absent
      exact more (congrArg Prod.snd (splitFirstAbsent absent))
    refine .inr ⟨more, Nat.lt_of_lt_of_le (splitFirstShorter slash) (List.dropWhile_suffix _).length_le, ?_⟩
    rw [Route.appendRoute, Route.mergeChild]
    rfl

theorem newProper (path : Text) : Throughout Proper (Route.new path : Route H M V) := by
  induction path using (measure List.length).wf.induction with
  | h path ih =>
    have plain := splitFirstPlain '/' (path.dropWhile (· = '/'))
    rcases newCases (H := H) (M := M) (V := V) path with ⟨_, shape⟩ | ⟨_, shorter, shape⟩
    · rw [shape]
      exact properOf rfl plain ⟨List.nodup_nil, nofun⟩
    · rw [shape]
      refine properOf rfl plain ⟨List.nodup_singleton _, fun c mem => ?_⟩
      rw [List.mem_singleton.mp mem]
      exact ih _ shorter

def graft (routes : List (Route H M V)) (real : Route H M V) : Route H M V :=
  {real with children := routes.foldl Route.mergeChild real.children}

theorem graftKeeps {routes : List (Route H M V)} (each : ∀ route ∈ routes, Throughout Proper route) (r : Route H M V)
    (proper : Throughout Proper r) : Throughout Proper (graft routes r) ∧ (graft routes r).path = r.path :=
  ⟨properOf (throughoutHere proper).marked (throughoutHere proper).plain (graftProper each (properChildren proper)), rfl⟩

/- `r` is made from `start`, which is fresh from a constructor, by calls of the builder;
every route handed to such a call is made in the same way. -/
inductive Grows : Route H M V → Route H M V → Prop
  | new (path) : Grows (Route.new path) (Route.new path)
  | newRoot : Grows Route.newRoot Route.newRoot
  | append {start self start' route r} (grown : Grows start self) (other : Grows start' route)
      (done : self.append route = some r) : Grows start r
  | push {start self start' route r} (grown : Grows start self) (other : Grows start' route)
      (done : self.push route = some r) : Grows start r
  | extend {start self routes r} (starts : Route H M V → Route H M V) (grown : Grows start self)
      (others : ∀ route ∈ routes, Grows (starts route) route) (done : self.extend routes = some r) : Grows start r
  | onMethod {start self r} (method handler) (grown : Grows start self)
      (done : self.onMethod method handler = some r) : Grows start r
  | insertHandler {start self} (method handler) (grown : Grows start self) :
      Grows start (self.insertHandler method handler)
  | hook {start self} (mw) (grown : Grows start self) : Grows start (self.hook mw)
  | hookFirst {start self} (mw) (grown : Grows start self) : Grows start (self.hookFirst mw)
  | withState {start self} (key value) (grown : Grows start self) : Grows start (self.withState key value)
  | setState {start self} (state) (grown : Grows start self) : Grows start (self.setState state)

theorem growsProper {start r : Route H M V} (grown : Grows start r) : Throughout Proper r := by
  have same : ∀ {self other : Route H M V}, Throughout Proper self → other.children = self.children →
      other.specialMatch = self.specialMatch → other.path = self.path → Throughout Proper other := by
    intro self other proper children mark path
    obtain ⟨_, marked, plain⟩ := throughoutHere proper
    exact properOf (by rw [mark, path, marked]) (path ▸ plain) (children ▸ properChildren proper)
  induction grown with
  | new path => exact newProper path
  | newRoot => exact properOf rfl List.not_mem_nil ⟨List.nodup_nil, nofun⟩
  | @append _ _ _ route _ grown other done ih ih' | @push _ _ _ route _ grown other done ih ih' =>
    have each : ∀ given ∈ [route], Throughout Proper given := by simpa using ih'
    exact (updateRealProper (graftKeeps each) _ done ih).1
  | extend starts grown others done ih ih' => exact (updateRealProper (graftKeeps ih') _ done ih).1
  | onMethod method handler grown done ih => exact (updateHandlerProper ih done).1
  | insertHandler method handler grown ih => exact same ih rfl rfl rfl
  | hook mw grown ih | hookFirst mw grown ih => exact same ih rfl rfl rfl
  | withState key value grown ih => exact same ih rfl rfl rfl
  | setState state grown ih => exact same ih rfl rfl rfl

end Silent.RouteShape
