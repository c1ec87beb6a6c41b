import Mathlib.Data.List.DropRight
import Silent.RouteGraft
import Silent.RouterCompleteness

/-! Registration on a fresh route. `Route::new` drops the slashes in front of every
segment, while the two searches for the last node compare `create_path` with the text
behind the first slash as it stands. They agree on paths without empty segments, and on
every other path the search fails. -/
namespace Silent.RouteRegistration
open ByteText PathSegment HttpRequest RouteBuilder RouteShape RouteTable Dispatch SegmentSpec RouterSearch
open RouterRefinement RouteChains RouterCompleteness RouteGraft

variable {H M V R : Type}

def trimmed (path : Text) : Text := path.dropWhile (· = '/')

def segments (path : Text) : List Text := (path.splitOn '/').filter (· ≠ [])

def nodeKey (path : Text) : List Text := if segments path = [] then [[]] else segments path

/- Behind the slashes in front there is nothing, or no empty segment: no slash at the
end and no two slashes in a row. -/
def Tidy (path : Text) : Prop := trimmed path = [] ∨ [] ∉ (trimmed path).splitOn '/'

instance (path : Text) : Decidable (Tidy path) := inferInstanceAs (Decidable (_ ∨ _))

theorem segmentsTrimmed (path : Text) : segments path = segments (trimmed path) := by
  induction path with
  | nil => rfl
  | cons c cs ih =>
    by_cases slash : c = '/'
    · subst slash
      have skips : trimmed ('/' :: cs) = trimmed cs := by simp [trimmed]
      have split_ : ('/' :: cs).splitOn '/' = [] :: cs.splitOn '/' := List.splitOn_append_cons_self [] cs
      rw [skips, ← ih, segments, split_]
      rfl
    · rw [trimmed, List.dropWhile_cons_of_neg (by simpa using slash)]

theorem splitPlain {path seg : Text} (among : seg ∈ path.splitOn '/') : '/' ∉ seg := by
  rw [List.splitOn_eq_splitOnP] at among
  intro slash
  simpa using (splitPart _ _ seg among '/' slash).1

theorem joinSplit (path : Text) : joinPath (path.splitOn '/') = path := by
  induction path using (measure List.length).wf.induction with
  | h path ih =>
    by_cases slash : '/' ∈ path
    · obtain ⟨whole, plain⟩ := splitFirstAt slash
      have later := ih (splitFirst '/' path).2 (splitFirstShorter slash)
      obtain ⟨next, rest, parts⟩ := List.exists_cons_of_ne_nil (List.splitOn_ne_nil '/' (splitFirst '/' path).2)
      conv_lhs => rw [whole]
      rw [List.splitOn_append_cons_self_of_not_mem plain, parts, joinPath, ← parts, later]
      exact whole.symm
    · rw [List.splitOn_eq_singleton slash]
      rfl

theorem tidyKey {path : Text} (tidy : Tidy path) :
    SegmentList (nodeKey path) ∧ joinPath (nodeKey path) = trimmed path := by
  rcases tidy with empty | named
  · have nothing : segments path = [] := by
      rw [segmentsTrimmed, empty]
      rfl
    rw [nodeKey, if_pos nothing, empty]
    exact ⟨.inl rfl, rfl⟩
  · have all : segments path = (trimmed path).splitOn '/' := by
      rw [segmentsTrimmed, segments, List.filter_eq_self]
      intro seg among
      have occupied : seg ≠ [] := fun nothing => named (nothing ▸ among)
      simpa using occupied
    have some_ := List.splitOn_ne_nil '/' (trimmed path)
    rw [nodeKey, all, if_neg some_]
    refine ⟨.inr ⟨some_, fun seg among => ⟨fun nothing => named (nothing ▸ among), splitPlain among⟩⟩, joinSplit _⟩

theorem newTrimmed (path : Text) : (Route.new path : Route H M V) = Route.new (trimmed path) := by
  have twice : (trimmed path).dropWhile (· = '/') = trimmed path := List.dropWhile_idempotent _ _
  rw [Route.new.eq_def path, Route.new.eq_def (trimmed path), twice]
  rfl

theorem newCreatePath (path : Text) : (Route.new path : Route H M V).createPath = trimmed path := by
  rcases newCases (H := H) (M := M) (V := V) path with ⟨_, shape⟩ | ⟨_, _, shape⟩ <;> rw [shape] <;> rfl

theorem tidyLine {path : Text} (tidy : Tidy path) : Line (nodeKey path) ∅ (Route.new path : Route H M V) := by
  obtain ⟨list, joined⟩ := tidyKey tidy
  rw [newTrimmed, ← joined]
  exact newLine list

theorem handlerMissing {f : HashMap Method H → HashMap Method H} {r : Route H M V} {first last : Text}
    (plain : '/' ∉ first) (path : r.path = first) (created : r.createPath = first ++ '/' :: last)
    (stray : ∀ c ∈ r.children, c.createPath ≠ last) : Route.updateHandler f r = none := by
  have differs : r.path ≠ r.createPath := by simp [path, created]
  have missing : r.children.findIdx? (fun c => c.createPath = last) = none :=
    List.findIdx?_eq_none_iff.mpr (fun c mem => by simpa using stray c mem)
  rw [Route.updateHandler, if_neg differs, created, splitFirstAppend plain]
  simp only [missing]

theorem realMissing {f : Route H M V → Route H M V} {r : Route H M V} {first last : Text} (plain : '/' ∉ first)
    (created : r.createPath = first ++ '/' :: last) (stray : ∀ c ∈ r.children, c.createPath ≠ last) :
    Route.updateRealRoute f r.createPath r = none := by
  have missing : r.children.findIdx? (fun c => c.createPath = last) = none :=
    List.findIdx?_eq_none_iff.mpr (fun c mem => by simpa using stray c mem)
  rw [Route.updateRealRoute, created, if_pos (by simp), splitFirstAppend plain]
  simp only [missing]

theorem splitTrimmed (path : Text) : ∀ last, trimmed path ≠ '/' :: last := by
  intro last begins
  have front := List.head?_dropWhile_not (· = '/') path
  rw [show path.dropWhile (· = '/') = '/' :: last from begins] at front
  simp at front

theorem untidyCases {path : Text} (untidy : ¬ Tidy path) :
    ∃ first last, '/' ∉ first ∧ (Route.new path : Route H M V).path = first ∧
      (Route.new path : Route H M V).createPath = first ++ '/' :: last ∧ last.length < path.length ∧
      ((∀ c ∈ (Route.new path : Route H M V).children, c.createPath ≠ last) ∨
        ((Route.new path : Route H M V).children = [Route.new last] ∧ (Route.new last : Route H M V).createPath = last ∧
          ¬ Tidy last)) := by
  obtain ⟨occupied, gap⟩ := not_or.mp untidy
  have slash : '/' ∈ trimmed path := by
    by_contra absent
    rw [List.splitOn_eq_singleton absent, not_not, List.mem_singleton] at gap
    exact occupied gap.symm
  have shorter := Nat.lt_of_lt_of_le (splitFirstShorter slash) (List.dropWhile_suffix (· = '/')).length_le
  have shape := newCases (H := H) (M := M) (V := V) path
  rw [show path.dropWhile (· = '/') = trimmed path from rfl] at shape
  obtain ⟨whole, plain⟩ := splitFirstAt slash
  have created := newCreatePath (H := H) (M := M) (V := V) path
  generalize (splitFirst '/' (trimmed path)).1 = first at whole plain shape
  generalize (splitFirst '/' (trimmed path)).2 = last at whole shorter shape
  rcases shape with ⟨_, shape⟩ | ⟨more, _, shape⟩
  · exact ⟨first, last, plain, by rw [shape]; rfl, created.trans whole, shorter, .inl (by rw [shape]; nofun)⟩
  · refine ⟨first, last, plain, by rw [shape]; rfl, created.trans whole, shorter, ?_⟩
    have children : (Route.new path : Route H M V).children = [Route.new last] := by rw [shape]
    by_cases same : trimmed last = last
    · refine .inr ⟨children, (newCreatePath last).trans same, fun tidy => ?_⟩
      rw [whole, List.splitOn_append_cons_self_of_not_mem plain, not_not] at gap
      rcases List.mem_cons.mp gap with start | later
      · exact splitTrimmed path last (by rw [whole, ← start]; rfl)
      · rcases tidy with empty | named
        · exact more (same.symm.trans empty)
        · exact named (same.symm ▸ later)
    · refine .inl fun c mem => ?_
      rw [children, List.mem_singleton] at mem
      rw [mem, newCreatePath]
      exact same

theorem untidySearch {path : Text} (untidy : ¬ Tidy path) :
    (∀ f, Route.updateHandler f (Route.new path : Route H M V) = none) ∧
      ∀ f : Route H M V → Route H M V, Route.updateRealRoute f (Route.new path : Route H M V).createPath (Route.new path) = none := by
  induction path using (measure List.length).wf.induction with
  | h path ih =>
    obtain ⟨first, last, plain, head, created, shorter, cases_⟩ := untidyCases (H := H) (M := M) (V := V) untidy
    rcases cases_ with stray | ⟨children, kept, later⟩
    · exact ⟨fun f => handlerMissing plain head created stray, fun f => realMissing plain created stray⟩
    · obtain ⟨handlers, routes⟩ := ih last shorter later
      rw [← kept] at created
      refine ⟨fun f => ?_, fun f => ?_⟩
      · rw [updateHandlerStep plain head created children, handlers f]
        rfl
      · rw [updateRealStep plain created children, routes f]
        rfl

theorem lineHandler {segs : List Text} {map : HashMap Method H} {r : Route H M V} (line : Line segs map r)
    (f : HashMap Method H → HashMap Method H) :
    ∃ grown, Route.updateHandler f r = some grown ∧ Line segs (f map) grown ∧ grown.createPath = r.createPath := by
  induction line with
  | @leaf seg map r plain path created childless handler =>
    refine ⟨{r with handler := f r.handler}, ?_, .leaf plain path created childless (congrArg f handler), rfl⟩
    rw [Route.updateHandler, if_pos (path.trans created.symm)]
  | @step seg segs map r c plain path created children idle below ih =>
    obtain ⟨changed, done, line, kept⟩ := ih
    refine ⟨{r with children := [changed]}, ?_, .step plain path (by rw [created, kept]) rfl idle line, rfl⟩
    rw [updateHandlerStep plain path created children, done]
    rfl

theorem lineTable {segs : List Text} {map : HashMap Method H} {r : Route H M V} (line : Line segs map r)
    (key : List Text) (method : Method) : table key method r = if key = segs then map.lookup method else none := by
  induction line generalizing key with
  | @leaf seg map r plain path created childless handler =>
    match key with
    | [] => simp [table]
    | [last] => simp [table, path, handler, eq_comm]
    | last :: next :: rest => simp [table, childless]
  | @step seg segs map r c plain path created children idle below ih =>
    have occupied : segs ≠ [] := by cases below <;> simp
    match key with
    | [] => simp [table]
    | [last] => simp [table, idle, Ne.symm occupied]
    | last :: next :: rest =>
      simp only [table, path, children, List.findSome?_singleton, ih, List.cons.injEq]
      by_cases same : seg = last <;> simp [same, eq_comm]

def Fits (plat : Platform) (segment : SpecialSeg) (piece : Text) : Prop :=
  piece ≠ [] ∧ '/' ∉ piece ∧
    match segment with
    | .root => False
    | .static value => piece = value
    | segment => parses plat segment piece

/- A path, without its first slash, that has one piece for each segment; behind the piece
of a last `**` anything may follow. -/
inductive Written (plat : Platform) : List Text → Text → Prop
  | last {seg piece} (fits : Fits plat (parseSpecialSeg seg) piece) : Written plat [seg] piece
  | open_ {seg piece} (fits : Fits plat (parseSpecialSeg seg) piece) (full : (parseSpecialSeg seg).isFullPath = true)
      (after : Text) : Written plat [seg] (piece ++ '/' :: after)
  | step {seg segs piece rest} (fits : Fits plat (parseSpecialSeg seg) piece) (later : Written plat segs rest) :
      Written plat (seg :: segs) (piece ++ '/' :: rest)

def WrittenPath (plat : Platform) (segs : List Text) (path : Text) : Prop :=
  (segs = [[]] ∧ (path = [] ∨ path = ['/'])) ∨ ∃ rest, path = '/' :: rest ∧ Written plat segs rest

theorem fitsMatches {plat : Platform} (full : Slice) {r : Route H M V} {whole piece after : Text}
    (fits : Fits plat (segmentOf r) piece)
    (starts : trimSlash whole = piece ∧ after = [] ∨ trimSlash whole = piece ++ '/' :: after) :
    (∃ found, matchAt plat full r whole = some found ∧ found.remain.text = after) ∧
      ((segmentOf r).asStaticKey = none ∨ (segmentOf r).asStaticKey = some (firstSegment whole)) := by
  obtain ⟨occupied, plain, kind⟩ := fits
  have split_ : splitFirst '/' (trimSlash whole) = (piece, after) := by
    rcases starts with ⟨same, rfl⟩ | more
    · rw [same, splitFirstAbsent plain]
    · rw [more, splitFirstAppend plain]
  have first : firstSegment whole = piece := by rw [firstSegment, split_]
  have rest : afterSegment whole = after := by rw [afterSegment, split_]
  obtain ⟨head, tail⟩ := stripOneSegmentText plat (suffixSlice full whole)
  rw [suffixSliceText, first] at head
  rw [suffixSliceText, rest] at tail
  unfold matchAt
  cases segment : segmentOf r with
  | root => simp [segment] at kind
  | static value =>
    rw [segment] at kind
    subst kind
    obtain ⟨remain, taken, text⟩ := Option.map_eq_some_iff.mp ((matchStaticText plat occupied (suffixSlice full whole) after).mpr starts)
    exact ⟨⟨⟨remain, none⟩, by simp [matchSegment, taken], text⟩, .inr (by rw [first]; rfl)⟩
  | string key => exact ⟨⟨_, by simp only [matchSegment, head, occupied, if_false]; rfl, tail⟩, .inl rfl⟩
  | path key | fullPath key => exact ⟨⟨_, rfl, tail⟩, .inl rfl⟩
  | int key | i32 key | i64 key | u64 key | u32 key | uuid key =>
    rw [segment] at kind
    obtain ⟨value, parsed⟩ := Option.isSome_iff_exists.mp kind
    exact ⟨⟨_, by simp only [matchSegment, matchParsed, head, occupied, if_false, parsed]; rfl, tail⟩, .inl rfl⟩

theorem writtenPlain {plat : Platform} {segs : List Text} {text : Text} (written : Written plat segs text) :
    trimSlash text = text := by
  have starts : ∀ {segment : SpecialSeg} {piece : Text} (tail : Text), Fits plat segment piece →
      trimSlash (piece ++ tail) = piece ++ tail := by
    intro segment piece tail fits
    obtain ⟨c, cs, rfl⟩ := List.exists_cons_of_ne_nil fits.1
    have other : c ≠ '/' := fun same => fits.2.1 (by simp [same])
    unfold trimSlash
    split
    · rename_i begins
      exact absurd (List.cons.inj begins).1 other
    · rfl
  cases written with
  | last fits => simpa using starts [] fits
  | open_ fits full after => exact starts _ fits
  | step fits later => exact starts _ fits

theorem childlessStops (plat : Platform) (full : Slice) {r : Route H M V} (childless : r.children = []) {rest : Text}
    (ends : rest = [] ∨ (segmentOf r).isFullPath = true) : firstStop plat full r rest = some [] := by
  have nothing : tried r rest = [] := by
    rw [tried, childless]
    rfl
  rw [firstStopEq, nothing, if_pos ends]
  rfl

theorem lineStop {plat : Platform} (full : Slice) {segs : List Text} {map : HashMap Method H} {r : Route H M V}
    (line : Line segs map r) {whole text : Text} (written : Written plat segs text) (starts : trimSlash whole = text) :
    (∃ found hits, matchAt plat full r whole = some found ∧ firstStop plat full r found.remain.text = some hits ∧
        (endOf r hits).handler = map) ∧
      ((segmentOf r).asStaticKey = none ∨ (segmentOf r).asStaticKey = some (firstSegment whole)) := by
  induction line generalizing whole text with
  | @leaf seg map r plain path created childless handler =>
    subst path
    cases written with
    | last fits =>
      obtain ⟨⟨found, matched, remain⟩, key⟩ := fitsMatches full fits (.inl ⟨starts, rfl⟩)
      exact ⟨⟨found, [], matched, childlessStops plat full childless (.inl remain), handler⟩, key⟩
    | open_ fits full_ after =>
      obtain ⟨⟨found, matched, remain⟩, key⟩ := fitsMatches full fits (.inr starts)
      exact ⟨⟨found, [], matched, childlessStops plat full childless (.inr full_), handler⟩, key⟩
    | step fits later => cases later
  | @step seg segs map r c plain path created children idle below ih =>
    subst path
    cases written with
    | last fits | open_ fits full_ after => cases below
    | @step seg segs piece rest fits later =>
      obtain ⟨⟨found, matched, remain⟩, key⟩ := fitsMatches full fits (.inr starts)
      obtain ⟨⟨found', hits, matched', stop, ends⟩, key'⟩ := ih later (writtenPlain later)
      refine ⟨⟨found, ⟨c, rest, found'⟩ :: hits, matched, ?_, ends⟩, key⟩
      rw [remain, onlyStop children, if_pos key', stopVia, matched']
      simp only [Option.bind_eq_bind, Option.bind_some, stop, Option.some_or]

theorem lineRootStop {plat : Platform} (full : Slice) {segs : List Text} {map : HashMap Method H} {r : Route H M V}
    (line : Line segs map r) (written : WrittenPath plat segs full.text) :
    ∃ hits, (rootStops plat full r).head? = some hits ∧ (endOf r hits).handler = map := by
  unfold rootStops
  rcases written with ⟨rfl, short⟩ | ⟨rest, slashed, written⟩
  · cases line with
    | leaf plain path created childless handler =>
      have matched : matchAt plat full r full.text = some ⟨suffixSlice full [], none⟩ ∨
          matchAt plat full r full.text = some ⟨plat.literal, none⟩ := by
        rw [matchAt, rootSegment path]
        rcases short with short | short <;> simp [matchSegment, short, Platform.literal]
      have stop := childlessStops plat full childless (.inl rfl)
      rw [firstStopHead] at stop
      rcases matched with matched | matched <;> exact ⟨[], by rw [matched]; exact stop, handler⟩
    | step plain path created children idle below => cases below
  · have starts : trimSlash full.text = rest := by rw [slashed]; rfl
    obtain ⟨⟨found, hits, matched, stop, ends⟩, _⟩ := lineStop full line written starts
    rw [firstStopHead] at stop
    exact ⟨hits, by rw [matched]; exact stop, ends⟩

theorem lineServes {plat : Platform} (order : RouteTree.HashOrder) (buffer : Nat) {segs : List Text}
    {map : HashMap Method H} {r : Route H M V} (line : Line segs map r) (occupied : map.entries ≠ []) {req : Request V}
    (written : WrittenPath plat segs req.uriPath) :
    Reaches (R := R) (fun _ _ env => RouteTree.call env plat (RouteTree.candidateIndices plat order) buffer
      (RouteTree.convertToRouteTree r) req) map := by
  have settled := answerRootSettles (R := R) plat buffer r req
  obtain ⟨hits, first, ends⟩ := lineRootStop ⟨buffer, req.uriPath⟩ line written
  rw [first, Option.map_some] at settled
  have handles : served (endOf r hits) = true := by simpa [served, ends] using occupied
  simp only [callConverted]
  rw [← ends]
  exact settledReaches settled handles

theorem spineReturns {segs : List Text} {r : Route H M V} (spine : Spine segs r) (f : Route H M V → Route H M V) :
    ∃ grown, Route.updateRealRoute f r.createPath r = some grown := by
  induction spine with
  | @leaf seg r plain path created => exact ⟨f r, by rw [Route.updateRealRoute, if_neg (by rw [created]; exact plain)]⟩
  | @step seg segs r c plain path created children below ih =>
    obtain ⟨grown, done⟩ := ih
    exact ⟨{r with children := [grown]}, by rw [updateRealStep plain created children, done]; rfl⟩

def Mounts (path : Text) (routes : List (Route H M V)) (result : Option (Route H M V)) : Prop :=
  ∃ r, result = some r ∧ ((∀ route ∈ routes, ∃ start, Grows start route) → ∀ key method handler,
    tables key method routes = some handler → table (nodeKey path ++ key) method r = some handler)

theorem tidyMounts {path : Text} (tidy : Tidy path) (routes : List (Route H M V)) :
    Mounts path routes (Route.updateRealRoute (graft routes) (Route.new path : Route H M V).createPath (Route.new path)) := by
  have line := tidyLine (H := H) (M := M) (V := V) tidy
  obtain ⟨grown, done⟩ := spineReturns (lineSpine line) (graft routes)
  refine ⟨grown, done, fun built key method handler registered => ?_⟩
  have each : ∀ route ∈ routes, Throughout Proper route := by
    intro route mem
    obtain ⟨start, grows⟩ := built route mem
    exact growsProper grows
  obtain ⟨grown', done', _, _, union⟩ := graftSpine (lineSpine line) (newProper path) each
  cases Option.some.inj (done.symm.trans done')
  have named : key ≠ [] := by
    rintro rfl
    rw [tablesNil] at registered
    cases registered
  rw [union, lineTable line, if_neg (by simpa using named), Option.none_or, under, if_pos (List.prefix_append _ _),
    List.drop_left]
  exact registered

/- Registration under a written path: every call returns, the handler is at the node of
the path, and the finished tree serves it to every request whose path is of that form. -/
structure Lands (H M V R : Type) (path : Text) : Prop where
  handler : ∀ method (handler : H), ∃ r, (Route.new path : Route H M V).onMethod method handler = some r ∧
    table (nodeKey path) method r = some handler ∧
    ∀ (plat : Platform) (order : RouteTree.HashOrder) (buffer : Nat) (req : Request V),
      WrittenPath plat (nodeKey path) req.uriPath →
      ∃ map, map.lookup method = some handler ∧
        Reaches (R := R) (fun _ _ env => RouteTree.call env plat (RouteTree.candidateIndices plat order) buffer
          (RouteTree.convertToRouteTree r) req) map
  append : ∀ route : Route H M V, Mounts path [route] ((Route.new path).append route)
  push : ∀ route : Route H M V, Mounts path [route] ((Route.new path).push route)
  extend : ∀ routes : List (Route H M V), Mounts path routes ((Route.new path).extend routes)

theorem registrationLands (path : Text) : Lands H M V R path ↔ Tidy path := by
  refine ⟨fun lands => ?_, fun tidy => ?_⟩
  · by_contra untidy
    obtain ⟨r, done, _⟩ := lands.append (Route.new [])
    rw [Route.append, (untidySearch untidy).2] at done
    cases done
  · refine ⟨fun method handler => ?_, fun route => tidyMounts tidy [route], fun route => tidyMounts tidy [route],
      fun routes => tidyMounts tidy routes⟩
    have line := tidyLine (H := H) (M := M) (V := V) tidy
    obtain ⟨grown, done, grownLine, _⟩ := lineHandler line (·.insert method handler)
    have stored : (AList.insert method handler (∅ : HashMap Method H)).lookup method = some handler :=
      AList.lookup_insert _
    refine ⟨grown, done, by rw [lineTable grownLine, if_pos rfl]; exact stored, fun plat order buffer req written => ?_⟩
    exact ⟨_, stored, lineServes order buffer grownLine (by simp) written⟩

theorem trailingSlashPanics :
    (Route.new "a/".toList : Route Nat Unit Unit).get 1 = none ∧ ¬ Lands Nat Unit Unit Unit "a/".toList := by
  have untidy : ¬ Tidy "a/".toList := by decide
  have panics : (Route.new "a/".toList : Route Nat Unit Unit).get 1 = none := (untidySearch untidy).1 _
  refine ⟨panics, fun lands => ?_⟩
  obtain ⟨r, done, _⟩ := lands.handler .get 1
  cases panics.symm.trans done

end Silent.RouteRegistration
