import Silent.RouteShape

/-! The registrations of a route as a finite map from segments and method to handler.
Appending is the left-biased union of two such maps: nothing that was registered is
lost, except a handler for segments and a method that were taken already. -/
namespace Silent.RouteTable
open ByteText PathSegment HttpRequest RouteBuilder RouteShape

variable {H M V : Type}

/-- The handler registered for a method under a list of segments, read from the root. -/
def table : List Text → Method → Route H M V → Option H
  | [], _, _ => none
  | [seg], method, r => if r.path = seg then r.handler.lookup method else none
  | seg :: next :: rest, method, r => if r.path = seg then r.children.findSome? (table (next :: rest) method) else none

def tables (key : List Text) (method : Method) (cs : List (Route H M V)) : Option H := cs.findSome? (table key method)

def under (segs : List Text) (entries : List Text → Option H) (key : List Text) : Option H :=
  if segs <+: key then entries (key.drop segs.length) else none

theorem underCons (seg : Text) (segs : List Text) (entries : List Text → Option H) (key : Text) (rest : List Text) :
    under (seg :: segs) entries (key :: rest) = if seg = key then under segs entries rest else none := by
  by_cases same : seg = key <;> simp [under, same]

theorem underNil (entries : List Text → Option H) (key : List Text) : under [] entries key = entries key := by
  simp [under]

theorem underShort (seg : Text) (segs : List Text) (entries : List Text → Option H) : under (seg :: segs) entries [] = none := by
  simp [under]

theorem tablesNil (method : Method) (cs : List (Route H M V)) : tables [] method cs = none :=
  List.findSome?_eq_none_iff.mpr (fun _ _ => rfl)

theorem tableHead {key : List Text} {method : Method} {r : Route H M V} {handler : H}
    (found : table key method r = some handler) : key.head? = some r.path := by
  match key with
  | [] => simp [table] at found
  | [seg] | seg :: next :: rest =>
    rw [table] at found
    split at found
    · rename_i same
      simp [same]
    · contradiction

theorem tablesAppend (key : List Text) (method : Method) (left right : List (Route H M V)) :
    tables key method (left ++ right) = (tables key method left).or (tables key method right) :=
  List.findSome?_append

theorem tablesCons (key : List Text) (method : Method) (c : Route H M V) (cs : List (Route H M V)) :
    tables key method (c :: cs) = (table key method c).or (tables key method cs) := by
  rw [tables, List.findSome?_cons]
  cases table key method c <;> rfl

theorem tablesApart {key : List Text} {method : Method} {route : Route H M V} {handler : H}
    (found : table key method route = some handler) {cs : List (Route H M V)} (apart : ∀ c ∈ cs, c.path ≠ route.path) :
    tables key method cs = none := by
  rw [tables, List.findSome?_eq_none_iff]
  intro c mem
  cases other : table key method c with
  | none => rfl
  | some value =>
    have same := (tableHead other).symm.trans (tableHead found)
    exact absurd (Option.some.inj same) (apart c mem)

theorem mergeChildTable {cs : List (Route H M V)} {route : Route H M V} (list : ProperList cs)
    (merges : ∀ existing ∈ cs, existing.path = route.path → ∀ key method,
      table key method (Route.mergeFrom existing route) = (table key method existing).or (table key method route))
    (key : List Text) (method : Method) :
    tables key method (Route.mergeChild cs route) = (tables key method cs).or (table key method route) := by
  rcases mergeChildCases cs route with ⟨_, merged⟩ | ⟨left, existing, right, rfl, same, merged⟩
  · rw [merged, tablesAppend, tablesCons]
    simp [tables]
  · have path := (sameNodePath same).1
    rw [merged, tablesAppend, tablesAppend, tablesCons, tablesCons, merges existing (by simp) path key method]
    cases found : table key method route with
    | none => simp
    | some handler =>
      -- the siblings to the right cannot come before the new route: they have other paths
      have apart : ∀ c ∈ right, c.path ≠ route.path := by
        have distinct := list.1
        simp only [List.map_append, List.map_cons, List.nodup_append, List.nodup_cons] at distinct
        intro c mem other
        exact distinct.2.1.1 (List.mem_map.mpr ⟨c, mem, other.trans path.symm⟩)
      rw [tablesApart found apart, Option.or_none, Option.or_none, Option.or_assoc]

theorem foldTable {routes : List (Route H M V)} (each : ∀ route ∈ routes, Throughout Proper route)
    (merges : ∀ route ∈ routes, ∀ existing, Throughout Proper existing → existing.path = route.path → ∀ key method,
      table key method (Route.mergeFrom existing route) = (table key method existing).or (table key method route))
    {cs : List (Route H M V)} (list : ProperList cs) (key : List Text) (method : Method) :
    tables key method (routes.foldl Route.mergeChild cs) = (tables key method cs).or (tables key method routes) := by
  induction routes generalizing cs with
  | nil => simp [tables]
  | cons route routes ih =>
    have one := mergeChildTable list (fun existing mem => merges route (by simp) existing (list.2 existing mem)) key method
    have next := mergeChildProper list (each route (by simp)) (mergeFromProper (each route (by simp)))
    rw [List.foldl_cons, ih (fun r mem => each r (by simp [mem])) (fun r mem => merges r (by simp [mem])) next, one,
      tablesCons, Option.or_assoc]

theorem mergeFromTable {route : Route H M V} (proper : Throughout Proper route) :
    ∀ existing, Throughout Proper existing → existing.path = route.path → ∀ key method,
      table key method (Route.mergeFrom existing route) = (table key method existing).or (table key method route) := by
  induction proper with
  | @node route here below ih =>
    intro existing standing same key method
    rw [mergeFromEq]
    match key with
    | [] => rfl
    | [seg] =>
      simp only [table, same]
      split
      · exact HashMap.lookupOrInsertAll _ _ _
      · rfl
    | seg :: next :: rest =>
      simp only [table, same]
      split
      · exact foldTable below ih (properChildren standing) _ _
      · rfl

theorem graftTable {routes cs : List (Route H M V)} (each : ∀ route ∈ routes, Throughout Proper route)
    (list : ProperList cs) (key : List Text) (method : Method) :
    tables key method (routes.foldl Route.mergeChild cs) = (tables key method cs).or (tables key method routes) :=
  foldTable each (fun route mem => mergeFromTable (each route mem)) list key method

def joinPath : List Text → Text
  | [] => []
  | [seg] => seg
  | seg :: next :: rest => seg ++ '/' :: joinPath (next :: rest)

def SegmentList (segs : List Text) : Prop :=
  segs = [[]] ∨ segs ≠ [] ∧ ∀ seg ∈ segs, seg ≠ [] ∧ '/' ∉ seg

/- One node for each segment, each the only child of the one before; `create_path` is
the rest of the path from that node on. -/
inductive Spine : List Text → Route H M V → Prop
  | leaf {seg r} (plain : '/' ∉ seg) (path : r.path = seg) (created : r.createPath = seg) : Spine [seg] r
  | step {seg segs r c} (plain : '/' ∉ seg) (path : r.path = seg) (created : r.createPath = seg ++ '/' :: c.createPath)
      (children : r.children = [c]) (below : Spine segs c) : Spine (seg :: segs) r

theorem joinPathNamed {segs : List Text} (some_ : segs ≠ []) (named : ∀ seg ∈ segs, seg ≠ [] ∧ '/' ∉ seg) :
    joinPath segs ≠ [] ∧ (joinPath segs).dropWhile (· = '/') = joinPath segs := by
  have start : ∀ (seg t : Text), seg ≠ [] → '/' ∉ seg → seg ++ t ≠ [] ∧ (seg ++ t).dropWhile (· = '/') = seg ++ t := by
    intro seg t occupied plain
    obtain ⟨c, cs, rfl⟩ := List.exists_cons_of_ne_nil occupied
    have other : c ≠ '/' := fun same => plain (by simp [same])
    simp [other]
  match segs with
  | [] => contradiction
  | [seg] =>
    obtain ⟨occupied, plain⟩ := named seg (by simp)
    simpa [joinPath] using start seg [] occupied plain
  | seg :: next :: rest =>
    obtain ⟨occupied, plain⟩ := named seg (by simp)
    exact start seg _ occupied plain

inductive Line : List Text → HashMap Method H → Route H M V → Prop
  | leaf {seg map r} (plain : '/' ∉ seg) (path : r.path = seg) (created : r.createPath = seg) (childless : r.children = [])
      (handler : r.handler = map) : Line [seg] map r
  | step {seg segs map r c} (plain : '/' ∉ seg) (path : r.path = seg) (created : r.createPath = seg ++ '/' :: c.createPath)
      (children : r.children = [c]) (idle : r.handler = ∅) (below : Line segs map c) : Line (seg :: segs) map r

theorem lineSpine {segs : List Text} {map : HashMap Method H} {r : Route H M V} (line : Line segs map r) : Spine segs r := by
  induction line with
  | leaf plain path created childless handler => exact .leaf plain path created
  | step plain path created children idle below ih => exact .step plain path created children ih

theorem newNamedLine {segs : List Text} (some_ : segs ≠ []) (named : ∀ seg ∈ segs, seg ≠ [] ∧ '/' ∉ seg) :
    Line segs ∅ (Route.new (joinPath segs) : Route H M V) ∧
      (Route.new (joinPath segs) : Route H M V).createPath = joinPath segs := by
  induction segs with
  | nil => contradiction
  | cons seg segs ih =>
    obtain ⟨_, plain⟩ := named seg (by simp)
    have trimmed := (joinPathNamed some_ named).2
    have shape := newCases (H := H) (M := M) (V := V) (joinPath (seg :: segs))
    rw [trimmed] at shape
    cases segs with
    | nil =>
      have split_ : splitFirst '/' (joinPath [seg]) = (seg, []) := splitFirstAbsent plain
      rw [split_] at shape
      rcases shape with ⟨_, shape⟩ | ⟨more, _⟩
      · rw [shape]
        exact ⟨.leaf plain rfl rfl rfl rfl, rfl⟩
      · exact absurd rfl more
    | cons next rest =>
      have later : ∀ s ∈ next :: rest, s ≠ [] ∧ '/' ∉ s := fun s mem => named s (by simp [mem])
      obtain ⟨below, created⟩ := ih (by simp) later
      have split_ : splitFirst '/' (joinPath (seg :: next :: rest)) = (seg, joinPath (next :: rest)) :=
        splitFirstAppend plain _
      rw [split_] at shape
      rcases shape with ⟨nothing, _⟩ | ⟨_, _, shape⟩
      · exact absurd nothing (joinPathNamed (by simp) later).1
      · rw [shape]
        exact ⟨.step plain rfl (by rw [created]; rfl) rfl rfl below, rfl⟩

theorem newLine {segs : List Text} (list : SegmentList segs) : Line segs ∅ (Route.new (joinPath segs) : Route H M V) := by
  rcases list with rfl | ⟨some_, named⟩
  · rcases newCases (H := H) (M := M) (V := V) (joinPath [[]]) with ⟨_, shape⟩ | ⟨more, _⟩
    · rw [shape]
      exact .leaf (by simp) rfl rfl rfl rfl
    · exact absurd rfl more
  · exact (newNamedLine some_ named).1

theorem newSpine {segs : List Text} (list : SegmentList segs) : Spine segs (Route.new (joinPath segs) : Route H M V) :=
  lineSpine (newLine list)

theorem spineOf {segs : List Text} {self other : Route H M V} (spine : Spine segs self) (path : other.path = self.path)
    (created : other.createPath = self.createPath) (children : other.children = self.children) : Spine segs other := by
  cases spine with
  | leaf plain path' created' => exact .leaf plain (path.trans path') (created.trans created')
  | step plain path' created' children' below =>
    exact .step plain (path.trans path') (created.trans created') (children.trans children') below

theorem updateRealStep {f : Route H M V → Route H M V} {seg : Text} {r c : Route H M V} (plain : '/' ∉ seg)
    (created : r.createPath = seg ++ '/' :: c.createPath) (children : r.children = [c]) :
    Route.updateRealRoute f r.createPath r =
      (Route.updateRealRoute f c.createPath c).map (fun changed => {r with children := [changed]}) := by
  rw [Route.updateRealRoute, created, if_pos (by simp), splitFirstAppend plain, children]
  simp only [List.findIdx?_cons, decide_true, if_true, List.getElem?_cons_zero, Option.bind_eq_bind, Option.bind_some,
    List.set_cons_zero]
  cases Route.updateRealRoute f c.createPath c <;> rfl

theorem updateHandlerStep {f : HashMap Method H → HashMap Method H} {seg : Text} {r c : Route H M V} (plain : '/' ∉ seg)
    (path : r.path = seg) (created : r.createPath = seg ++ '/' :: c.createPath) (children : r.children = [c]) :
    Route.updateHandler f r = (Route.updateHandler f c).map (fun changed => {r with children := [changed]}) := by
  have differs : r.path ≠ r.createPath := by
    rw [path, created]
    exact fun same => by simpa using congrArg List.length same
  rw [Route.updateHandler, if_neg differs, created, splitFirstAppend plain]
  simp only [children, List.findIdx?_cons, decide_true, if_true]
  split
  · rename_i missing
    rw [children] at missing
    cases missing
  · rename_i child found
    rw [children] at found
    cases Option.some.inj found
    cases Route.updateHandler f c <;> rfl

theorem graftSpine {segs : List Text} {r : Route H M V} (spine : Spine segs r) (proper : Throughout Proper r)
    {routes : List (Route H M V)} (each : ∀ route ∈ routes, Throughout Proper route) :
    ∃ grown, Route.updateRealRoute (graft routes) r.createPath r = some grown ∧ Spine segs grown ∧
      grown.createPath = r.createPath ∧ ∀ key method,
        table key method grown = (table key method r).or (under segs (fun key => tables key method routes) key) := by
  induction spine with
  | @leaf seg r plain path created =>
    refine ⟨graft routes r, ?_, .leaf plain path created, rfl, fun key method => ?_⟩
    · rw [Route.updateRealRoute, if_neg (by rw [created]; exact plain)]
    · cases key with
      | nil => rfl
      | cons last below =>
        cases below with
        | nil =>
          have nothing : under [seg] (fun key => tables key method routes) [last] = none := by
            simp [underCons, underNil, tablesNil]
          rw [nothing, Option.or_none]
          rfl
        | cons next rest =>
          have union := graftTable each (properChildren proper) (next :: rest) method
          have kept : (graft routes r).path = seg := path
          simp only [table, underCons, underNil, path, kept]
          split
          · exact union
          · rfl
  | @step seg segs r c plain path created children below ih =>
    have inner : Throughout Proper c := throughoutBelow proper c (by simp [children])
    obtain ⟨changed, done, spine, kept, union⟩ := ih inner
    refine ⟨{r with children := [changed]}, ?_, .step plain path (by rw [created, kept]) rfl spine, rfl, fun key method => ?_⟩
    · rw [updateRealStep plain created children, done]
      rfl
    · cases key with
      | nil => rfl
      | cons last deeper =>
        cases deeper with
        | nil => cases below <;> simp [table, underCons, underShort]
        | cons next rest =>
          simp only [table, underCons, path, children, List.findSome?_singleton, union]
          split <;> rfl

theorem handlerSpine {segs : List Text} {r : Route H M V} (spine : Spine segs r)
    (f : HashMap Method H → HashMap Method H) :
    ∃ grown, Route.updateHandler f r = some grown ∧ Spine segs grown ∧ grown.createPath = r.createPath := by
  induction spine with
  | @leaf seg r plain path created =>
    refine ⟨{r with handler := f r.handler}, ?_, .leaf plain path created, rfl⟩
    rw [Route.updateHandler, if_pos (path.trans created.symm)]
  | @step seg segs r c plain path created children below ih =>
    obtain ⟨changed, done, spine, kept⟩ := ih
    refine ⟨{r with children := [changed]}, ?_, .step plain path (by rw [created, kept]) rfl spine, rfl⟩
    rw [updateHandlerStep plain path created children, done]
    rfl

theorem growsSpine {segs : List Text} {start r : Route H M V} (grown : Grows start r) (fresh : Spine segs start) :
    Spine segs r := by
  induction grown with
  | new path => exact fresh
  | newRoot => exact fresh
  | @append _ _ _ route _ grown other done ih | @push _ _ _ route _ grown other done ih =>
    have each : ∀ given ∈ [route], Throughout Proper given := by simpa using growsProper other
    obtain ⟨grown', done', spine, _⟩ := graftSpine (ih fresh) (growsProper grown) each
    cases Option.some.inj (done.symm.trans done')
    exact spine
  | extend starts grown others done ih =>
    obtain ⟨grown', done', spine, _⟩ :=
      graftSpine (ih fresh) (growsProper grown) (fun route mem => growsProper (others route mem))
    cases Option.some.inj (done.symm.trans done')
    exact spine
  | onMethod method handler grown done ih =>
    obtain ⟨grown', done', spine, _⟩ := handlerSpine (ih fresh) (·.insert method handler)
    cases Option.some.inj (done.symm.trans done')
    exact spine
  | insertHandler method handler grown ih => exact spineOf (ih fresh) rfl rfl rfl
  | hook mw grown ih | hookFirst mw grown ih => exact spineOf (ih fresh) rfl rfl rfl
  | withState key value grown ih => exact spineOf (ih fresh) rfl rfl rfl
  | setState state grown ih => exact spineOf (ih fresh) rfl rfl rfl

theorem appendIsLeftBiasedUnion {segs : List Text} (list : SegmentList segs) {self start route : Route H M V}
    (grown : Grows (Route.new (joinPath segs)) self) (other : Grows start route) :
    (∃ appended, self.append route = some appended ∧ ∀ key method,
      table key method appended = (table key method self).or (under segs (fun key => table key method route) key)) ∧
    ∀ {start r : Route H M V}, Grows start r → Throughout DistinctSiblings r := by
  refine ⟨?_, fun built => throughoutMono (fun _ proper => proper.distinct) (growsProper built)⟩
  have each : ∀ given ∈ [route], Throughout Proper given := by simpa using growsProper other
  obtain ⟨appended, done, _, _, union⟩ := graftSpine (growsSpine grown (newSpine list)) (growsProper grown) each
  have single : ∀ key method, tables key method [route] = table key method route := fun key method => by
    rw [tables, List.findSome?_singleton]
  simp only [single] at union
  exact ⟨appended, done, union⟩

def nested : Route Nat Unit Unit := Route.new "a/b".toList

def registered : Route Nat Unit Unit := (Route.new "c".toList).insertHandler .get 1

theorem appendUnionNested :
    ∃ appended, nested.append registered = some appended ∧ ∀ key method,
      table key method appended = (table key method nested).or
        (under ["a".toList, "b".toList] (fun key => table key method registered) key) :=
  (appendIsLeftBiasedUnion (.inr ⟨by decide, by decide⟩ : SegmentList ["a".toList, "b".toList]) (.new _)
    (.insertHandler _ _ (.new _))).1

end Silent.RouteTable
