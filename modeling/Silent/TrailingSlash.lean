import Silent.PathCaptures
import Silent.RouterCompleteness

/-! A path and the same path with a slash at its end, dispatched side by side. What is
left of the two at corresponding nodes is both times empty, or differs by that slash
alone; so the look-ahead tries the same children and both commit to the same routes. The
captures agree, up to the slash in a `**` and to where the empty literal lies. -/
namespace Silent.TrailingSlash
open ByteText PathSegment HttpRequest RouteBuilder RouteShape Dispatch SegmentSpec RouterSearch RouterRefinement
open RouteChains RouterCompleteness MiddlewareOnion PathCaptures

variable {H M V R : Type}

def Open (rest : Text) : Prop := rest ≠ [] ∧ rest.getLast? ≠ some '/'

/- What is left of the two paths after the same segments. -/
inductive Twin : Text → Text → Prop
  | ended : Twin [] []
  | more {rest} (opened : Open rest) : Twin rest (rest ++ ['/'])

theorem openTail {c : Char} {rest : Text} (opened : Open (c :: rest)) : rest = [] ∧ c ≠ '/' ∨ Open rest := by
  cases rest with
  | nil => exact .inl ⟨rfl, by simpa [Open] using opened⟩
  | cons d rest =>
    have last := opened.2
    rw [List.getLast?_cons_cons] at last
    exact .inr ⟨List.cons_ne_nil _ _, last⟩

theorem openTrim {rest : Text} (opened : Open rest) : Open (trimSlash rest) := by
  unfold trimSlash
  split
  · rcases openTail opened with ⟨_, slash⟩ | tail
    · exact absurd rfl slash
    · exact tail
  · exact opened

theorem trimSlashed {rest : Text} (opened : Open rest) : trimSlash (rest ++ ['/']) = trimSlash rest ++ ['/'] := by
  cases rest with
  | nil => exact absurd rfl opened.1
  | cons c rest =>
    by_cases slash : c = '/'
    · subst slash
      rfl
    · simp [trimSlash, slash]

theorem openBehind {piece after : Text} (opened : Open (piece ++ '/' :: after)) : Open after := by
  have last := opened.2
  cases after with
  | nil => simp at last
  | cons c after => exact ⟨List.cons_ne_nil _ _, by simpa using last⟩

theorem splitSlashed {rest : Text} (opened : Open rest) :
    (splitFirst '/' (rest ++ ['/'])).1 = (splitFirst '/' rest).1 ∧
      Twin (splitFirst '/' rest).2 (splitFirst '/' (rest ++ ['/'])).2 := by
  by_cases slash : '/' ∈ rest
  · obtain ⟨whole, plain⟩ := splitFirstAt slash
    generalize (splitFirst '/' rest).1 = piece at whole plain ⊢
    generalize (splitFirst '/' rest).2 = after at whole ⊢
    have moved : rest ++ ['/'] = piece ++ '/' :: (after ++ ['/']) := by rw [whole]; simp
    rw [moved, splitFirstAppend plain]
    exact ⟨rfl, .more (openBehind (whole ▸ opened))⟩
  · rw [splitFirstAppend slash, splitFirstAbsent slash]
    exact ⟨rfl, .ended⟩

section Twin
variable {rest slashed : Text}

theorem twinFirst (twin : Twin rest slashed) : firstSegment slashed = firstSegment rest := by
  cases twin with
  | ended => rfl
  | more opened => rw [firstSegment, trimSlashed opened, (splitSlashed (openTrim opened)).1]; rfl

theorem twinAfter (twin : Twin rest slashed) : Twin (afterSegment rest) (afterSegment slashed) := by
  cases twin with
  | ended => exact .ended
  | more opened =>
    rw [afterSegment, afterSegment, trimSlashed opened]
    exact (splitSlashed (openTrim opened)).2

theorem twinEmpty (twin : Twin rest slashed) : slashed = [] ↔ rest = [] := by
  cases twin with
  | ended => rfl
  | more opened => simp [opened.1]

theorem twinTrimEmpty (twin : Twin rest slashed) : trimSlash slashed = [] ↔ trimSlash rest = [] := by
  cases twin with
  | ended => rfl
  | more opened => simp [trimSlashed opened, (openTrim opened).1]

theorem twinRoot (twin : Twin rest slashed) : rest ≠ ['/'] ∧ slashed ≠ ['/'] := by
  cases twin with
  | ended => simp
  | more opened =>
    refine ⟨fun slash => ?_, fun slash => opened.1 (by simpa using slash)⟩
    subst slash
    exact opened.2 rfl

end Twin

def SameRemain (left right : PathMatch) : Prop := Twin left.remain.text right.remain.text

def Leaves (value rest after : Text) : Prop := trimSlash rest = value ∧ after = [] ∨ trimSlash rest = value ++ '/' :: after

theorem leavesSlashed {value rest slashed after : Text} (twin : Twin rest slashed) (named : value ≠ [])
    (leaves : Leaves value rest after) : ∃ after', Twin after after' ∧ Leaves value slashed after' := by
  cases twin with
  | ended =>
    rcases leaves with ⟨same, _⟩ | same
    · exact absurd same.symm named
    · simp [trimSlash] at same
  | more opened =>
    have tail := openTrim opened
    unfold Leaves
    simp only [trimSlashed opened]
    rcases leaves with ⟨same, rfl⟩ | same
    · exact ⟨[], .ended, .inr (by rw [same])⟩
    · rw [same] at tail
      exact ⟨after ++ ['/'], .more (openBehind tail), .inr (by rw [same]; simp)⟩

theorem slashedLeaves {value rest slashed after : Text} (twin : Twin rest slashed) (clear : value ≠ trimSlash rest ++ ['/'])
    (leaves : Leaves value slashed after) : ∃ before, Leaves value rest before := by
  cases twin with
  | ended => exact ⟨after, leaves⟩
  | more opened =>
    unfold Leaves at leaves
    rw [trimSlashed opened] at leaves
    rcases leaves with ⟨same, _⟩ | same
    · exact absurd same.symm clear
    · rcases List.eq_nil_or_concat after with rfl | ⟨before, last, rfl⟩
      · exact ⟨[], .inl ⟨List.append_inj_left' same rfl, rfl⟩⟩
      · rw [List.concat_eq_append, ← List.cons_append, ← List.append_assoc] at same
        exact ⟨before, .inr (List.append_inj_left' same rfl)⟩

theorem staticTwin (plat : Platform) {value rest slashed : Text} (twin : Twin rest slashed)
    (clear : value ≠ trimSlash rest ++ ['/']) (full full' : Slice) :
    Option.Rel (fun left right => Twin left.text right.text) (matchStaticSegment plat value (suffixSlice full rest))
      (matchStaticSegment plat value (suffixSlice full' slashed)) := by
  by_cases named : value = []
  · simp only [matchStaticSegment, if_pos named]
    exact .some twin
  have leftText := fun after => matchStaticText plat named (suffixSlice full rest) after
  have rightText := fun after => matchStaticText plat named (suffixSlice full' slashed) after
  simp only [suffixSliceText] at leftText rightText
  cases left : matchStaticSegment plat value (suffixSlice full rest) with
  | none =>
    cases right : matchStaticSegment plat value (suffixSlice full' slashed) with
    | none => exact .none
    | some remain' =>
      obtain ⟨before, leaves⟩ := slashedLeaves twin clear ((rightText remain'.text).mp (by rw [right]; rfl))
      have found := (leftText before).mpr leaves
      rw [left] at found
      cases found
  | some remain =>
    obtain ⟨after', after, leaves⟩ := leavesSlashed twin named ((leftText remain.text).mp (by rw [left]; rfl))
    obtain ⟨remain', right, rfl⟩ := Option.map_eq_some_iff.mp ((rightText after').mpr leaves)
    rw [right]
    exact .some after

theorem parsedTwin {α : Type} (plat : Platform) (parse : Text → Option α) (capture : α → PathMatchCapture)
    {rest slashed : Text} (twin : Twin rest slashed) (full full' : Slice) :
    Option.Rel SameRemain (matchParsed plat parse capture (suffixSlice full rest))
      (matchParsed plat parse capture (suffixSlice full' slashed)) := by
  obtain ⟨first, after⟩ := stripOneSegmentText plat (suffixSlice full rest)
  obtain ⟨first', after'⟩ := stripOneSegmentText plat (suffixSlice full' slashed)
  have same := twinFirst twin
  simp only [suffixSliceText] at first after first' after'
  simp only [matchParsed, first, first', same]
  split
  · exact .none
  · cases parse (firstSegment rest) with
    | none => exact .none
    | some v =>
      refine .some ?_
      simp only [SameRemain, after, after']
      exact twinAfter twin

theorem matchTwin (plat : Platform) {segment : SpecialSeg} (childless : Bool) {rest slashed : Text}
    (twin : Twin rest slashed) (clear : ∀ value, segment = .static value → value ≠ trimSlash rest ++ ['/'])
    (full full' : Slice) :
    Option.Rel SameRemain (matchSegment plat segment childless (suffixSlice full rest) full)
      (matchSegment plat segment childless (suffixSlice full' slashed) full') := by
  obtain ⟨first, after⟩ := stripOneSegmentText plat (suffixSlice full rest)
  obtain ⟨first', after'⟩ := stripOneSegmentText plat (suffixSlice full' slashed)
  have same := twinFirst twin
  have later := twinAfter twin
  simp only [suffixSliceText] at first after first' after'
  cases segment with
  | root =>
    have plain : (suffixSlice full rest).text ≠ ['/'] := (twinRoot twin).1
    have plain' : (suffixSlice full' slashed).text ≠ ['/'] := (twinRoot twin).2
    have stuck : ((suffixSlice full' slashed).text ≠ [] ∧ childless = true) ↔
        ((suffixSlice full rest).text ≠ [] ∧ childless = true) := and_congr_left' (not_congr (twinEmpty twin))
    simp only [matchSegment, if_neg plain, if_neg plain', stuck]
    split
    · exact .none
    · exact .some twin
  | static value =>
    have taken := staticTwin plat twin (clear value rfl) full full'
    simp only [matchSegment]
    generalize matchStaticSegment plat value (suffixSlice full rest) = left at taken ⊢
    generalize matchStaticSegment plat value (suffixSlice full' slashed) = right at taken ⊢
    cases taken with
    | none => exact .none
    | some both => exact .some both
  | string key =>
    simp only [matchSegment, first, first', same]
    split
    · exact .none
    · exact .some (by simpa only [SameRemain, after, after'] using later)
  | path key | fullPath key =>
    simp only [matchSegment]
    exact .some (by simpa only [SameRemain, after, after'] using later)
  | int key | i32 key | i64 key | u64 key | u32 key | uuid key => exact parsedTwin plat _ _ twin full full'

theorem findSomeRel {α β γ : Type} {S : β → γ → Prop} {cs : List α} {f : α → Option β} {g : α → Option γ}
    (each : ∀ c ∈ cs, Option.Rel S (f c) (g c)) : Option.Rel S (cs.findSome? f) (cs.findSome? g) := by
  induction cs with
  | nil => exact .none
  | cons c cs ih =>
    have here := each c List.mem_cons_self
    rw [List.findSome?_cons, List.findSome?_cons]
    generalize f c = left at here ⊢
    generalize g c = right at here ⊢
    cases here with
    | none => exact ih fun d mem => each d (List.mem_cons_of_mem _ mem)
    | some both => exact .some both

def SameHit (left right : Hit H M V) : Prop := left.route = right.route ∧ Twin left.rest right.rest

abbrev SameStops (left right : List (Hit H M V)) : Prop := List.Forall₂ SameHit left right

theorem sameRoutes {left right : List (Hit H M V)} (same : SameStops left right) :
    left.map (·.route) = right.map (·.route) := by
  induction same with
  | nil => rfl
  | cons head tail ih => rw [List.map_cons, List.map_cons, head.1, ih]

theorem triedPlain {r c : Route H M V} {rest value : Text} (mem : c ∈ tried r rest)
    (static : segmentOf c = .static value) : value = firstSegment rest := by
  rcases List.mem_append.mp mem with listed | listed
  · have found : staticChild r.children (firstSegment rest) = some c := by simpa using listed
    have key : (segmentOf c).asStaticKey = some (firstSegment rest) := by simpa using List.find?_some found
    rw [static] at key
    exact Option.some.inj key
  · have keyless := (List.mem_filter.mp listed).2
    simp [static, SpecialSeg.asStaticKey] at keyless

theorem firstStopTwin (plat : Platform) (full full' : Slice) (r : Route H M V) {rest slashed : Text}
    (twin : Twin rest slashed) :
    Option.Rel SameStops (firstStop plat full r rest) (firstStop plat full' r slashed) := by
  induction r using childInduction generalizing rest slashed with
  | step r ih =>
    have candidates : tried r slashed = tried r rest := by rw [tried, tried, twinFirst twin]
    have via : ∀ c ∈ tried r rest,
        Option.Rel SameStops (stopVia plat full rest c) (stopVia plat full' slashed c) := by
      intro c mem
      have clear : ∀ value, segmentOf c = .static value → value ≠ trimSlash rest ++ ['/'] := by
        intro value static same
        have plain := splitFirstPlain '/' (trimSlash rest)
        rw [← firstSegment, ← triedPlain mem static, same] at plain
        exact plain (by simp)
      have matched := matchTwin plat c.children.isEmpty twin clear full full'
      rw [← matchAt, ← matchAt] at matched
      unfold stopVia
      generalize matchAt plat full c rest = left at matched ⊢
      generalize matchAt plat full' c slashed = right at matched ⊢
      cases matched with
      | none => exact .none
      | @some found found' later =>
        have below := ih c (triedMem mem) later
        simp only [Option.bind_eq_bind, Option.bind_some]
        generalize firstStop plat full c found.remain.text = hits at below ⊢
        generalize firstStop plat full' c found'.remain.text = hits' at below ⊢
        cases below with
        | none => exact .none
        | some tails => exact .some (.cons ⟨rfl, twin⟩ tails)
    have deeper := findSomeRel via
    rw [firstStopEq, firstStopEq, candidates]
    simp only [twinEmpty twin]
    generalize (tried r rest).findSome? (stopVia plat full rest) = left at deeper ⊢
    generalize (tried r rest).findSome? (stopVia plat full' slashed) = right at deeper ⊢
    cases deeper with
    | some both => exact .some both
    | none =>
      simp only [Option.none_or]
      split
      · exact .some .nil
      · exact .none

def rootStop (plat : Platform) (full : Slice) (r : Route H M V) : Option (List (Hit H M V)) :=
  (rootStops plat full r).head?

theorem rootStopEq (plat : Platform) (full : Slice) (r : Route H M V) :
    rootStop plat full r = (matchAt plat full r full.text).bind (fun found => firstStop plat full r found.remain.text) := by
  unfold rootStop rootStops
  cases matchAt plat full r full.text with
  | none => rfl
  | some found => exact (firstStopHead plat full r found.remain.text).symm

theorem rootStopTwin (plat : Platform) (r : Route H M V) {path : Text} (opened : Open path)
    (clear : segmentOf r ≠ .static (trimSlash path ++ ['/'])) (buffer buffer' : Nat) :
    Option.Rel SameStops (rootStop plat ⟨buffer, path⟩ r) (rootStop plat ⟨buffer', path ++ ['/']⟩ r) := by
  have matched := matchTwin plat r.children.isEmpty (.more opened)
    (fun value static same => clear (same ▸ static)) ⟨buffer, path⟩ ⟨buffer', path ++ ['/']⟩
  rw [← matchAt, ← matchAt] at matched
  rw [rootStopEq, rootStopEq]
  dsimp only
  generalize matchAt plat ⟨buffer, path⟩ r path = left at matched ⊢
  generalize matchAt plat ⟨buffer', path ++ ['/']⟩ r (path ++ ['/']) = right at matched ⊢
  cases matched with
  | none => exact .none
  | some later => exact firstStopTwin plat _ _ r later

theorem rootMissed (plat : Platform) {r : Route H M V} {path : Text}
    (slashed : segmentOf r = .static (trimSlash path ++ ['/'])) (buffer : Nat) : rootStop plat ⟨buffer, path⟩ r = none := by
  have missed : matchAt plat ⟨buffer, path⟩ r path = none := by
    rw [matchAt, slashed, matchSegment, Option.map_eq_none_iff]
    cases taken : matchStaticSegment plat (trimSlash path ++ ['/']) (suffixSlice ⟨buffer, path⟩ path) with
    | none => rfl
    | some remain =>
      have named : trimSlash path ++ ['/'] ≠ [] := by simp
      have texts := (matchStaticText plat named _ remain.text).mp (by rw [taken]; rfl)
      rw [suffixSliceText] at texts
      rcases texts with ⟨same, _⟩ | same
      · simp at same
      · have sizes := congrArg List.length same
        simp at sizes
  rw [rootStopEq, missed]
  rfl

theorem endOfSame {r : Route H M V} {left right : List (Hit H M V)} (same : SameStops left right) :
    endOf r left = endOf r right := by
  induction same generalizing r with
  | nil => rfl
  | cons head tail ih => rw [endOf, endOf, head.1, ih]

theorem followServes {plat : Platform} {full : Slice} {start : HashMap Text PathParam} {r : Route H M V} {rest : Text}
    {hits : List (Hit H M V)} (chain : Matches plat full r rest hits) (inside : rest <:+ full.text)
    {before : List (Step H M V)} {req : Request V} (tracked : TracksFrom plat full start before req.pathParams) :
    ∃ seen : Request V, TracksFrom plat full start (before ++ hits.map stepOf) seen.pathParams ∧
      ∀ (m : Type → Type) [Monad m] (env : Env H M V R m), PassThrough env →
        follow env full r hits req = serve env (endOf r hits) seen := by
  induction chain generalizing before req with
  | stop ends => exact ⟨req, by simpa using tracked, fun m _ env pass => rfl⟩
  | @child r c rest found hits mem matched below ih =>
    obtain ⟨bound, binding⟩ := bindParamsMatched matched req full
    have binds : RouteTree.bindParams (segmentOf c) req found full = some bound := binding
    have extended := tracksFromBind tracked matched inside binds
    rw [← addStateParams c bound] at extended
    obtain ⟨seen, params, runs⟩ := ih (matchAtSuffix matched inside) extended
    refine ⟨seen, by simpa [stepOf] using params, fun m _ env pass => ?_⟩
    simp only [follow, binds, enterPass pass, endOf]
    exact runs m env pass

theorem rootServes (plat : Platform) (buffer : Nat) {r : Route H M V} (req : Request V) {hits : List (Hit H M V)}
    (first : rootStop plat ⟨buffer, req.uriPath⟩ r = some hits) :
    ∃ seen : Request V,
      TracksFrom plat ⟨buffer, req.uriPath⟩ req.pathParams (chainOf r ⟨buffer, req.uriPath⟩ hits) seen.pathParams ∧
      ∀ (m : Type → Type) [Monad m] (env : Env H M V R m), PassThrough env →
        answerRoot env plat buffer r req = serve env (endOf r hits) seen := by
  rw [rootStopEq] at first
  obtain ⟨found, matched, below⟩ := Option.bind_eq_some_iff.mp first
  have chain := below
  rw [firstStopHead] at chain
  obtain ⟨bound, binding⟩ := bindParamsMatched matched (arrive r ⟨buffer, req.uriPath⟩ req) ⟨buffer, req.uriPath⟩
  have binds : RouteTree.bindParams (segmentOf r) (arrive r ⟨buffer, req.uriPath⟩ req) found ⟨buffer, req.uriPath⟩ =
      some bound := binding
  have fresh : TracksFrom plat ⟨buffer, req.uriPath⟩ req.pathParams ([] : List (Step H M V))
      (arrive r ⟨buffer, req.uriPath⟩ req).pathParams := by
    rw [arriveParams]
    exact fun key => rfl
  have rooted := tracksFromBind fresh matched List.suffix_rfl binds
  rw [← addStateParams r bound] at rooted
  obtain ⟨seen, params, runs⟩ := followServes (R := R) (stopsMatch (List.mem_of_head? chain))
    (matchAtSuffix matched List.suffix_rfl) rooted
  refine ⟨seen, params, fun m _ env pass => ?_⟩
  have matched' : matchAt plat ⟨buffer, req.uriPath⟩ r req.uriPath = some found := matched
  simp only [answerRoot, matched', binds, enterPass pass, answer, below]
  exact runs m env pass

def SameStep (left right : Step H M V) : Prop := left.1 = right.1 ∧ Twin left.2 right.2

theorem deepestTwin {left right : List (Step H M V)} (same : List.Forall₂ SameStep left right) (key : Text) :
    Option.Rel SameStep (deepest left key) (deepest right key) := by
  have turned := List.rel_reverse same
  unfold deepest
  generalize left.reverse = steps at turned ⊢
  generalize right.reverse = steps' at turned ⊢
  induction turned with
  | nil => exact .none
  | @cons step step' _ _ head tail ih =>
    have both : binds key step' = binds key step := by rw [binds, binds, head.1]
    rw [List.find?_cons, List.find?_cons, both]
    cases binds key step with
    | true => exact .some head
    | false => exact ih

theorem chainTwin {r : Route H M V} {full full' : Slice} {hits hits' : List (Hit H M V)}
    (whole : Twin full.text full'.text) (same : SameStops hits hits') :
    List.Forall₂ SameStep (chainOf r full hits) (chainOf r full' hits') := by
  refine .cons ⟨rfl, whole⟩ ?_
  induction same with
  | nil => exact .nil
  | cons head tail ih => exact .cons head ih

theorem valueTwin (plat : Platform) (segment : SpecialSeg) {rest slashed : Text} (twin : Twin rest slashed) :
    valueOf plat segment slashed = valueOf plat segment rest ∨ segment.isFullPath = true ∧
      ∃ piece, valueOf plat segment rest = some (.path piece) ∧
        valueOf plat segment slashed = some (.path (piece ++ ['/'])) := by
  cases segment with
  | fullPath key =>
    cases twin with
    | ended => exact .inl rfl
    | more opened => exact .inr ⟨rfl, trimSlash rest, rfl, by rw [valueOf, trimSlashed opened]⟩
  | _ => exact .inl (by simp only [valueOf, twinFirst twin])

/- Both handlers find the parameter absent, or read the same of it; a `**` parameter may
read with one more slash in the second. -/
def SameReading (wild : Bool) (left right : Option PathParam) : Prop :=
  left.map reading = right.map reading ∨ wild = true ∧ ∃ param param' piece, left = some param ∧ right = some param' ∧
    reading param = some (.path piece) ∧ reading param' = some (.path (piece ++ ['/']))

def wildAt (chain : List (Step H M V)) (key : Text) : Bool := (deepest chain key).any (fun step => (segmentOf step.1).isFullPath)

def SameEdges (plat : Platform) (full full' : Slice) (chain : List (Step H M V)) : Prop :=
  ∀ key step, deepest chain key = some step → isPath (segmentOf step.1) = true → trimSlash step.2 = [] →
    (IsBoundary full.text (plat.emptyLiteral - full.ptr) ↔ IsBoundary full'.text (plat.emptyLiteral - full'.ptr))

section Readings
variable {plat : Platform} {full full' : Slice} {start params params' : HashMap Text PathParam}
  {chain chain' : List (Step H M V)}

theorem misreadTwin {segment : SpecialSeg} {rest slashed : Text} (twin : Twin rest slashed)
    (edges : isPath segment = true → trimSlash slashed = [] →
      (IsBoundary full.text (plat.emptyLiteral - full.ptr) ↔ IsBoundary full'.text (plat.emptyLiteral - full'.ptr))) :
    Misread plat full segment rest ↔ Misread plat full' segment slashed := by
  unfold Misread
  rw [twinTrimEmpty twin]
  refine and_congr_right fun path => and_congr_right fun empty => not_congr ?_
  exact edges path ((twinTrimEmpty twin).mpr empty)

theorem sameReadings (same : List.Forall₂ SameStep chain chain') (left : TracksFrom plat full start chain params)
    (right : TracksFrom plat full' start chain' params') (edges : SameEdges plat full full' chain') (key : Text) :
    SameReading (wildAt chain key) (params.lookup key) (params'.lookup key) := by
  have steps := deepestTwin same key
  have own := left key
  have own' := right key
  have edge := edges key
  unfold wildAt
  generalize deepest chain key = last at steps own ⊢
  generalize deepest chain' key = last' at steps own' edge
  cases steps with
  | none => exact .inl (by rw [own, own'])
  | @some step step' both =>
    obtain ⟨param, value, found, valued, reads⟩ := own
    obtain ⟨param', value', found', valued', reads'⟩ := own'
    rw [found, found']
    have misread : Misread plat full (segmentOf step'.1) step.2 ↔ Misread plat full' (segmentOf step'.1) step'.2 :=
      misreadTwin both.2 (edge step' rfl)
    rw [← both.1] at misread valued' reads'
    rcases valueTwin plat (segmentOf step.1) both.2 with equal | ⟨wild, piece, valueLeft, valueRight⟩
    · left
      rw [equal, valued] at valued'
      cases Option.some.inj valued'
      rw [Option.map_some, Option.map_some, reads, reads']
      simp only [misread]
    · right
      have path : isPath (segmentOf step.1) = false := by
        cases segment : segmentOf step.1 <;> simp_all [isPath, SpecialSeg.isFullPath]
      have clean : ∀ full rest, ¬ Misread plat full (segmentOf step.1) rest :=
        fun full rest bad => Bool.noConfusion (path.symm.trans bad.1)
      rw [if_neg (clean _ _), ← valued, valueLeft] at reads
      rw [if_neg (clean _ _), ← valued', valueRight] at reads'
      exact ⟨wild, param, param', piece, rfl, rfl, reads, reads'⟩

theorem readingsEdges (same : List.Forall₂ SameStep chain chain') (left : TracksFrom plat full start chain params)
    (right : TracksFrom plat full' start chain' params') {wild : Text → Bool}
    (readings : ∀ key, SameReading (wild key) (params.lookup key) (params'.lookup key)) :
    SameEdges plat full full' chain' := by
  intro key step' last' path empty
  have steps := deepestTwin same key
  have own := left key
  have own' := right key
  have equal := readings key
  generalize deepest chain key = last at steps own
  rw [last'] at steps own'
  cases steps with
  | @some step _ both =>
    obtain ⟨param, value, found, valued, reads⟩ := own
    obtain ⟨param', value', found', valued', reads'⟩ := own'
    rw [found, found'] at equal
    have empty' := (twinTrimEmpty both.2).mp empty
    cases segment : segmentOf step'.1 with
    | path name =>
      rw [both.1, segment] at valued reads
      rw [segment] at valued' reads'
      simp only [valueOf, firstSegment, empty, empty', splitFirst, Option.some.injEq] at valued valued'
      subst valued valued'
      simp only [Misread, isPath, empty, empty', true_and] at reads reads'
      have values : reading param = reading param' := by
        rcases equal with equal | ⟨_, left, right, piece, same, same', _, longer⟩
        · simpa using equal
        · cases Option.some.inj same'
          rw [longer] at reads'
          split at reads' <;> simp at reads'
      rw [reads, reads'] at values
      by_cases edge : IsBoundary full.text (plat.emptyLiteral - full.ptr) <;>
        by_cases edge' : IsBoundary full'.text (plat.emptyLiteral - full'.ptr) <;> simp_all
    | _ => rw [segment] at path; exact Bool.noConfusion path

end Readings

def slashed (req : Request V) : Request V := {req with uriPath := req.uriPath ++ ['/']}

/- Dispatching a request, and the same with a slash added: both answer "not found", or
both call the handler map at the end of the same routes, with the same parameters. -/
def SlashBlind (R : Type) (plat : Platform) (order : RouteTree.HashOrder) (buffer buffer' : Nat) (r : Route H M V)
    (req : Request V) : Prop :=
  (∀ (m : Type → Type) [Monad m] (env : Env H M V R m), PassThrough env →
    RouteTree.call env plat (RouteTree.candidateIndices plat order) buffer (RouteTree.convertToRouteTree r) req =
      RouteTree.notFoundError ∧
    RouteTree.call env plat (RouteTree.candidateIndices plat order) buffer' (RouteTree.convertToRouteTree r)
      (slashed req) = RouteTree.notFoundError) ∨
  ∃ hits hits' seen seen', RootMatches plat ⟨buffer, req.uriPath⟩ r hits ∧
    RootMatches plat ⟨buffer', req.uriPath ++ ['/']⟩ r hits' ∧ hits.map (·.route) = hits'.map (·.route) ∧
    (∀ (m : Type → Type) [Monad m] (env : Env H M V R m), PassThrough env →
      RouteTree.call env plat (RouteTree.candidateIndices plat order) buffer (RouteTree.convertToRouteTree r) req =
        env.callHandlers (endOf r hits).handler seen ∧
      RouteTree.call env plat (RouteTree.candidateIndices plat order) buffer' (RouteTree.convertToRouteTree r)
        (slashed req) = env.callHandlers (endOf r hits).handler seen') ∧
    ∀ key, SameReading (wildAt (chainOf r ⟨buffer, req.uriPath⟩ hits) key) (seen.pathParams.lookup key)
      (seen'.pathParams.lookup key)

theorem recordedSeen {map map' : HashMap Method H} {seen seen' : Request V}
    (same : (recording : Env H M V R (Traced (Event H M V))).callHandlers map seen = recording.callHandlers map' seen') :
    seen = seen' := by
  have traces : [Event.served (M := M) map seen] = [Event.served map' seen'] := congrArg events same
  simp only [List.cons.injEq, Event.served.injEq] at traces
  exact traces.1.2

theorem serveServed {m : Type → Type} [Monad m] {env : Env H M V R m} {last : Route H M V}
    (handles : served last = true) (req : Request V) : serve env last req = env.callHandlers last.handler req := by
  have occupied : last.handler.entries.isEmpty = false := by simpa [served] using handles
  rw [serve, if_neg (by simp [occupied])]

theorem serveUnserved {m : Type → Type} [Monad m] {env : Env H M V R m} {last : Route H M V}
    (empty : ¬ served last = true) (req : Request V) : serve env last req = RouteTree.notFoundError := by
  rw [serve, if_pos (by simpa [served] using empty)]

theorem rootMissing (plat : Platform) (buffer : Nat) {r : Route H M V} (req : Request V)
    (unserved : ∀ hits ∈ rootStop plat ⟨buffer, req.uriPath⟩ r, ¬ served (endOf r hits) = true)
    {m : Type → Type} [Monad m] {env : Env H M V R m} (pass : PassThrough env) :
    answerRoot env plat buffer r req = RouteTree.notFoundError := by
  cases first : rootStop plat ⟨buffer, req.uriPath⟩ r with
  | none =>
    have settled := answerRootSettles (R := R) plat buffer r req
    rw [← rootStop, first] at settled
    exact settled m env pass
  | some hits =>
    obtain ⟨seen, _, runs⟩ := rootServes (R := R) plat buffer req first
    exact (runs m env pass).trans (serveUnserved (unserved hits first) seen)

theorem loudDiffers {map : HashMap Method H} {seen : Request V} :
    (loud : Env H M V R Id).callHandlers map seen ≠ RouteTree.notFoundError := nofun

def StopAgrees (plat : Platform) (buffer buffer' : Nat) (r : Route H M V) (path : Text) : Prop :=
  ∀ hits ∈ rootStop plat ⟨buffer', path ++ ['/']⟩ r, served (endOf r hits) = true →
    segmentOf r ≠ .static (trimSlash path ++ ['/']) ∧
    SameEdges plat ⟨buffer, path⟩ ⟨buffer', path ++ ['/']⟩ (chainOf r ⟨buffer', path ++ ['/']⟩ hits)

section
variable {plat : Platform} {order : RouteTree.HashOrder} {buffer buffer' : Nat} {r : Route H M V} {req : Request V}

theorem blindEdges (opened : Open req.uriPath) (blind : SlashBlind R plat order buffer buffer' r req) :
    StopAgrees plat buffer buffer' r req.uriPath := by
  have whole : Twin req.uriPath (req.uriPath ++ ['/']) := .more opened
  have pass : PassThrough (loud : Env H M V R Id) := fun _ _ _ => rfl
  unfold SlashBlind at blind
  simp only [callConverted] at blind
  intro hits' first' handles
  obtain ⟨seen₂, tracked₂, runs₂⟩ := rootServes (R := R) plat buffer' (slashed req) first'
  rcases blind with missing | ⟨_, _, seen, seen', _, _, _, runs, readings⟩
  · have answered := (missing Id loud pass).2
    rw [runs₂ Id loud pass, serveServed handles] at answered
    exact absurd answered loudDiffers
  · have clear : segmentOf r ≠ .static (trimSlash req.uriPath ++ ['/']) := by
      intro static
      have missed := rootMissing (R := R) plat buffer req
        (by rw [rootMissed plat static buffer]; exact nofun) pass
      rw [(runs Id loud pass).1] at missed
      exact loudDiffers missed
    have stops := rootStopTwin plat r opened clear buffer buffer'
    rw [first'] at stops
    refine ⟨clear, ?_⟩
    generalize first : rootStop plat ⟨buffer, req.uriPath⟩ r = stop at stops
    cases stops with
    | @some hits _ same =>
      obtain ⟨seen₁, tracked₁, runs₁⟩ := rootServes (R := R) plat buffer req first
      have left := (runs _ recording recordingPasses).1
      have right := (runs _ recording recordingPasses).2
      rw [runs₁ _ recording recordingPasses, serveServed (by rw [endOfSame same]; exact handles)] at left
      rw [runs₂ _ recording recordingPasses, serveServed handles] at right
      rw [recordedSeen left] at tracked₁
      rw [recordedSeen right] at tracked₂
      exact readingsEdges (chainTwin whole same) tracked₁ tracked₂ readings

theorem missedBlind (left : ∀ hits, rootStop plat ⟨buffer, req.uriPath⟩ r = some hits → ¬served (endOf r hits) = true)
    (right : ∀ hits, rootStop plat ⟨buffer', (slashed req).uriPath⟩ r = some hits → ¬served (endOf r hits) = true) :
    SlashBlind R plat order buffer buffer' r req := by
  unfold SlashBlind
  simp only [callConverted]
  exact .inl fun m _ env pass => ⟨rootMissing plat buffer req left pass, rootMissing plat buffer' (slashed req) right pass⟩

theorem edgesBlind (opened : Open req.uriPath) (holds : StopAgrees plat buffer buffer' r req.uriPath) :
    SlashBlind R plat order buffer buffer' r req := by
  have whole : Twin req.uriPath (req.uriPath ++ ['/']) := .more opened
  unfold StopAgrees at holds
  by_cases clear : segmentOf r = .static (trimSlash req.uriPath ++ ['/'])
  · refine missedBlind ?_ fun hits first handles => (holds hits first handles).1 clear
    rw [rootMissed plat clear buffer]
    exact nofun
  have stops := rootStopTwin plat r opened clear buffer buffer'
  generalize first : rootStop plat ⟨buffer, req.uriPath⟩ r = stop at stops
  generalize first' : rootStop plat ⟨buffer', req.uriPath ++ ['/']⟩ r = stop' at stops holds
  have slashedStop : rootStop plat ⟨buffer', (slashed req).uriPath⟩ r = stop' := first'
  cases stops with
  | none =>
    apply missedBlind
    · rw [first]
      exact nofun
    · rw [slashedStop]
      exact nofun
  | @some hits hits' same =>
    have ends : endOf r hits = endOf r hits' := endOfSame same
    by_cases handles : served (endOf r hits') = true
    · obtain ⟨seen, tracked, runs⟩ := rootServes (R := R) plat buffer req first
      obtain ⟨seen', tracked', runs'⟩ := rootServes (R := R) plat buffer' (slashed req) slashedStop
      unfold SlashBlind
      simp only [callConverted]
      refine .inr ⟨hits, hits', seen, seen', rootStopsMatch (List.mem_of_head? first),
        rootStopsMatch (List.mem_of_head? first'), sameRoutes same, fun m _ env pass => ⟨?_, ?_⟩, ?_⟩
      · rw [runs m env pass, serveServed (by rw [ends]; exact handles)]
      · rw [runs' m env pass, serveServed handles, ends]
      · exact sameReadings (chainTwin whole same) tracked tracked' (holds hits' rfl handles).2
    · apply missedBlind
      · intro hits₁ first₁
        cases Option.some.inj (first.symm.trans first₁)
        rw [ends]
        exact handles
      · intro hits₁ first₁
        cases Option.some.inj (slashedStop.symm.trans first₁)
        exact handles

end

theorem slashBlindUnlessMisread (plat : Platform) (order : RouteTree.HashOrder) (buffer buffer' : Nat)
    (r : Route H M V) (req : Request V) (named : req.uriPath ≠ []) (opened : req.uriPath.getLast? ≠ some '/') :
    SlashBlind R plat order buffer buffer' r req ↔
      ∀ hits ∈ (rootStops plat ⟨buffer', req.uriPath ++ ['/']⟩ r).head?, served (endOf r hits) = true →
        segmentOf r ≠ .static (trimSlash req.uriPath ++ ['/']) ∧
        SameEdges plat ⟨buffer, req.uriPath⟩ ⟨buffer', req.uriPath ++ ['/']⟩
          (chainOf r ⟨buffer', req.uriPath ++ ['/']⟩ hits) :=
  ⟨blindEdges ⟨named, opened⟩, edgesBlind ⟨named, opened⟩⟩

def literalBelow : Platform := ⟨1, fun _ => none⟩

theorem edgesBelow {plat : Platform} {full full' : Slice} (left : plat.emptyLiteral ≤ full.ptr)
    (right : plat.emptyLiteral ≤ full'.ptr) (chain : List (Step H M V)) : SameEdges plat full full' chain := by
  have starts : ∀ s, IsBoundary s 0 := fun s => by cases s <;> rfl
  intro key step _ _ _
  rw [Nat.sub_eq_zero_of_le left, Nat.sub_eq_zero_of_le right]
  exact iff_of_true (starts _) (starts _)

def nested : Option (Route Nat Unit Unit) := do
  let k ← (Route.new "<k:path>".toList).get 1
  let a ← (Route.new "a".toList).append k
  (Route.new []).append a

theorem nestedSlashBlind :
    ∃ r, nested = some r ∧ "/a".toList ≠ [] ∧
      SlashBlind Unit literalBelow entryOrder 64 8192 r (Request.fromParts .get "/a".toList) := by
  obtain ⟨r, built⟩ := Option.isSome_iff_exists.mp (show nested.isSome by decide +kernel)
  have root : nested.map segmentOf = some .root := by decide +kernel
  rw [built, Option.map_some, Option.some.injEq] at root
  refine ⟨r, built, by decide, ?_⟩
  refine (slashBlindUnlessMisread literalBelow entryOrder 64 8192 r _ (by decide) (by decide)).mpr fun hits _ _ => ?_
  exact ⟨by simp [root], edgesBelow (by decide) (by decide) _⟩

theorem nestedPathDiffers :
    ∃ r, nested = some r ∧
      ¬ SlashBlind Unit literalAbove entryOrder 64 8192 r (Request.fromParts .get "/a".toList) := by
  obtain ⟨r, built⟩ := Option.isSome_iff_exists.mp (show nested.isSome by decide +kernel)
  have misread : (nested.map fun r => (rootStop literalAbove ⟨8192, "/a/".toList⟩ r).any (fun hits =>
      served (endOf r hits) && (deepest (chainOf r ⟨8192, "/a/".toList⟩ hits) "k".toList).any (fun step =>
        isPath (segmentOf step.1) && trimSlash step.2 = []))) = some true := by
    decide +kernel
  rw [built, Option.map_some, Option.some.injEq] at misread
  obtain ⟨hits, first, bad⟩ := (Option.any_eq_true _ _).mp misread
  obtain ⟨handles, bad⟩ := Bool.and_eq_true_iff.mp bad
  obtain ⟨step, last, stray⟩ := (Option.any_eq_true _ _).mp bad
  obtain ⟨path, empty⟩ := Bool.and_eq_true_iff.mp stray
  refine ⟨r, built, fun blind => ?_⟩
  have edges := (blindEdges ⟨by decide, by decide⟩ blind hits first handles).2
  have same := edges "k".toList step last path (of_decide_eq_true empty)
  exact absurd same (by decide)

end Silent.TrailingSlash
