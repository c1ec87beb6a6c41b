import Silent.UrlReference
import Silent.StaticMounts

/-! The links of a directory listing, resolved against the URL of the listing and requested
again: which entry of which directory the handler then looks at. -/
namespace Silent.ListingLinks
open ByteText StdPath PathSegment HttpRequest RouteBuilder RouteTable RouteRegistration SegmentSpec Dispatch StaticFiles ListingMarkup
open MiddlewareOnion UrlReference MountedHandlers StaticMounts
open RouteChains (literalAbove entryOrder)

variable {M V F : Type}

def href (row : Text × Text × Text) : Text := "./".toList ++ row.2.1 ++ row.2.2

def rowOf (name : Text) (isDir : Bool) : Text × Text × Text := (escapeHtml name, PercentCoding.encode name, suffix isDir)

def addressed : SilentResult (Outcome F) → Option Text
  | .ok outcome => outcome.2.head?.map Access.path
  | .error _ => none

def Addresses (answered : SilentResult (Outcome F)) (dir name : Text) : Prop :=
  ∃ target, addressed answered = some target ∧ unixComponents target = unixComponents dir ++ [.normal name]

def skipEmpty : List Text → List Text
  | [] :: seg :: segs => seg :: segs
  | segs => segs

def left (plat : Platform) : List Text → List Text → Option (List Text)
  | [], segs => some (skipEmpty segs)
  | seg :: mount, segs =>
      match skipEmpty segs with
      | [] => none
      | piece :: more =>
          if accepts plat (parseSpecialSeg seg) piece then left plat mount (if more = [] then [[]] else more) else none

/- The mount takes segments that are no dot segments, and a slash ends the last of them. -/
def Settled : List Text → List Text → Prop
  | [], _ => True
  | _ :: mount, segs =>
      match skipEmpty segs with
      | [] => False
      | piece :: more => more ≠ [] ∧ ¬ isDot piece ∧ Settled mount more

def DottedParameter : List Text → List Text → Prop
  | [], _ => False
  | seg :: mount, segs =>
      match skipEmpty segs with
      | [] => False
      | piece :: more => isSpecial seg = true ∧ isDot piece ∨ DottedParameter mount more

def segBody (seg : Text) : List Component := ((PercentCoding.decode seg).map (body isSlash)).getD []

-- Behind the last slash of the path nothing names a component.
def Bare (path : Text) : Prop := normals (segBody ((path.splitOn '/').getLastD [])) = []

instance (path : Text) : Decidable (Bare path) := inferInstanceAs (Decidable (_ = _))

def Closes (mount : List Text) (path : Text) : Prop := Settled mount (path.splitOn '/') ∧ Bare path

section
theorem bodyParts (s : Text) : ∀ c ∈ body isSlash s, c = .parentDir ∨ ∃ seg, c = .normal seg := by
  intro c among
  obtain ⟨part, _, same⟩ := List.mem_filterMap.mp among
  unfold piece at same
  split at same
  · cases same
  · split at same
    · exact .inl (Option.some.inj same).symm
    · exact .inr ⟨part, (Option.some.inj same).symm⟩

theorem trimStartBody (decoded : Text) : body isSlash (trimStart decoded) = body isSlash decoded := by
  unfold trimStart
  induction decoded with
  | nil => rfl
  | cons c cs ih =>
    by_cases slash : c = '/'
    · subst slash
      rw [bodySlash, ← ih]
      simp
    · simp [slash]

theorem trimStartRelative (decoded : Text) : (trimStart decoded).head? ≠ some '/' := by
  intro rooted
  have front := List.head?_dropWhile_not (· = '/') decoded
  rw [show decoded.dropWhile (· = '/') = trimStart decoded from rfl, rooted] at front
  simp at front

theorem acceptedIff (decoded : Text) :
    (unixComponents (trimStart decoded)).all accepted = true ↔ .parentDir ∉ body isSlash decoded := by
  have shape : (unixComponents (trimStart decoded)).all accepted = (body isSlash decoded).all accepted := by
    rw [unixComponents, if_neg (trimStartRelative decoded), relative, ← trimStartBody decoded]
    split <;> rfl
  rw [shape, List.all_eq_true]
  constructor
  · exact fun all among => absurd (all _ among) (by decide)
  · intro free c among
    rcases bodyParts decoded c among with rfl | ⟨seg, rfl⟩
    · exact absurd among free
    · rfl

variable {fs : FileSystem Text F} {self : HandlerWrapperStatic Text}

theorem callTarget {param decoded : Text} (read : PercentCoding.decode param = some decoded) (free : .parentDir ∉ body isSlash decoded) :
    ((self.call unix urlCodec fs (some param)).2.head?.map Access.path) = some (unixPush self.root (sanitizedOf unix decoded)) := by
  have fine : (unix.components (unix.parse (trimStart decoded))).all accepted = true := (acceptedIff decoded).mpr free
  have decoded_ : (some param).bind urlCodec.decode = some decoded := read
  simp only [HandlerWrapperStatic.call, decoded_, sanitizedParam fine]
  split <;> rfl

theorem callRead {param : Text} {access : Access Text} (asked : access ∈ (self.call unix urlCodec fs (some param)).2) :
    ∃ decoded, PercentCoding.decode param = some decoded ∧ .parentDir ∉ body isSlash decoded := by
  by_contra none_
  have refused : Refuses unix urlCodec (some param) := by
    intro decoded read
    have unfit : ¬ (unixComponents (trimStart decoded)).all accepted = true := fun fine =>
      none_ ⟨decoded, read, (acceptedIff decoded).mp fine⟩
    exact Bool.eq_false_iff.mpr unfit
  rw [callRefused refused] at asked
  cases asked

theorem targetComponents (root decoded : Text) :
    unixComponents (unixPush root (sanitizedOf unix decoded)) = unixComponents root ++ (normals (body isSlash decoded)).map .normal := by
  have names : normals (unixComponents (trimStart decoded)) = normals (body isSlash decoded) := by
    rw [trimStartNormals, unixNormals]
  have joined := joinedComponents unixLawful root fun seg (among : seg ∈ normals (unixComponents (trimStart decoded))) => unixNamed among
  have same : normals (unix.components (unix.parse (trimStart decoded))) = normals (body isSlash decoded) := names
  rw [same] at joined
  exact joined

theorem mappedRows {entries : List (Except Text (Text × Except Text Bool))} {rows : List (Text × Text × Text)}
    (listed : entries.mapM (listEntry urlCodec) = .ok rows) {name : Text} {isDir : Bool} (entry : .ok (name, .ok isDir) ∈ entries) :
    rowOf name isDir ∈ rows := by
  induction entries generalizing rows with
  | nil => cases entry
  | cons first entries ih =>
    rw [List.mapM_cons] at listed
    cases row : listEntry urlCodec first with
    | error err =>
      rw [row] at listed
      cases listed
    | ok shown =>
      rw [row] at listed
      cases later : entries.mapM (listEntry urlCodec) with
      | error err =>
        rw [later] at listed
        cases listed
      | ok rest =>
        rw [later] at listed
        cases listed
        rcases List.mem_cons.mp entry with rfl | among
        · cases row
          exact List.mem_cons_self
        · exact List.mem_cons_of_mem _ (ih later among)

theorem listedRow {relativePath target : Text} {page : Page} (rendered : renderDirectoryListing urlCodec fs relativePath target = .ok page)
    {entries : List (Except Text (Text × Except Text Bool))} (read : fs.readDir target = some entries) {name : Text} {isDir : Bool}
    (entry : .ok (name, .ok isDir) ∈ entries) : rowOf name isDir ∈ page.entries := by
  rw [renderDirectoryListing, read] at rendered
  cases rows : entries.mapM (listEntry urlCodec) with
  | error err =>
    simp only [rows] at rendered
    cases rendered
  | ok listed =>
    simp only [rows] at rendered
    cases rendered
    exact List.mem_mergeSort.mpr (mappedRows rows entry)

theorem callListed {param dir : Text} {page : Page}
    (listed : self.call unix urlCodec fs (some param) = (.ok (.listing page), [.metadata dir, .readDir dir])) :
    ∃ decoded, PercentCoding.decode param = some decoded ∧ .parentDir ∉ body isSlash decoded ∧
      dir = unixPush self.root (sanitizedOf unix decoded) ∧
      ∃ relativePath, renderDirectoryListing urlCodec fs relativePath dir = .ok page := by
  have looked : .metadata dir ∈ (self.call unix urlCodec fs (some param)).2 := by
    rw [listed]
    exact List.mem_cons_self
  obtain ⟨decoded, read, free⟩ := callRead looked
  have target := @callTarget _ fs self _ _ read free
  rw [listed] at target
  have same : dir = unixPush self.root (sanitizedOf unix decoded) := Option.some.inj target
  refine ⟨decoded, read, free, same, ?_⟩
  have fine : (unix.components (unix.parse (trimStart decoded))).all accepted = true := (acceptedIff decoded).mpr free
  have decoded_ : (some param).bind urlCodec.decode = some decoded := read
  simp only [HandlerWrapperStatic.call, decoded_, sanitizedParam fine] at listed
  split at listed
  · have answered := congrArg Prod.fst listed
    simp only at answered
    refine ⟨normalizedRequestPath unix (sanitizedOf unix decoded) (decoded.getLast? = some '/' || decoded = []), ?_⟩
    rw [same]
    generalize rendered : renderDirectoryListing urlCodec fs _ _ = outcome at answered
    cases outcome with
    | error err => cases answered
    | ok shown =>
      cases answered
      exact rendered
  · have answered := congrArg Prod.fst listed
    simp only at answered
    split at answered <;> cases answered

end

section
theorem joinCons (seg : Text) {segs : List Text} (some_ : segs ≠ []) : joinPath (seg :: segs) = seg ++ '/' :: joinPath segs := by
  cases segs with
  | nil => exact absurd rfl some_
  | cons next segs => rfl

theorem slashedJoin {segs : List Text} (some_ : segs ≠ []) : slashed segs = joinPath ([] :: segs) := by
  induction segs with
  | nil => exact absurd rfl some_
  | cons seg segs ih =>
    rw [slashedCons, joinCons [] some_, List.nil_append]
    cases segs with
    | nil =>
      rw [slashed, List.flatMap_nil, List.append_nil]
      rfl
    | cons next segs =>
      rw [ih (List.cons_ne_nil _ _), joinCons seg (List.cons_ne_nil _ _)]
      rfl

theorem bodyCons (s t : Text) : body isSlash (s ++ '/' :: t) = body isSlash s ++ body isSlash t := bodyAt rfl s t

theorem decodeJoined {segs : List Text} (some_ : segs ≠ []) (decoded : Text) :
    PercentCoding.decode (joinPath segs) = some decoded →
      (∀ seg ∈ segs, (PercentCoding.decode seg).isSome) ∧ body isSlash decoded = segs.flatMap segBody := by
  induction segs generalizing decoded with
  | nil => exact absurd rfl some_
  | cons seg segs ih =>
    intro read
    cases segs with
    | nil =>
      change PercentCoding.decode seg = some decoded at read
      refine ⟨fun other among => ?_, ?_⟩
      · rw [List.mem_singleton.mp among, read]
        rfl
      · rw [List.flatMap_singleton, segBody, read]
        rfl
    | cons next segs =>
      rw [joinCons seg (List.cons_ne_nil _ _), PercentCoding.decodeSlash] at read
      obtain ⟨first, front, more⟩ := Option.bind_eq_some_iff.mp read
      obtain ⟨rest, later, same⟩ := Option.map_eq_some_iff.mp more
      obtain ⟨all, parts⟩ := ih (List.cons_ne_nil _ _) rest later
      refine ⟨?_, ?_⟩
      · intro other among
        rcases List.mem_cons.mp among with rfl | behind
        · rw [front]
          rfl
        · exact all other behind
      · have head : segBody seg = body isSlash first := by
          rw [segBody, front]
          rfl
        have whole : (seg :: next :: segs).flatMap segBody = segBody seg ++ (next :: segs).flatMap segBody := List.flatMap_cons
        rw [← same, bodyCons, parts, whole, head]

theorem joinedDecodes {segs : List Text} (all : ∀ seg ∈ segs, (PercentCoding.decode seg).isSome) :
    ∃ decoded, PercentCoding.decode (joinPath segs) = some decoded := by
  induction segs with
  | nil => exact ⟨[], rfl⟩
  | cons seg segs ih =>
    obtain ⟨first, front⟩ := Option.isSome_iff_exists.mp (all seg List.mem_cons_self)
    obtain ⟨rest, later⟩ := ih fun other among => all other (List.mem_cons_of_mem _ among)
    cases segs with
    | nil => exact ⟨first, front⟩
    | cons next segs =>
      rw [joinCons seg (List.cons_ne_nil _ _), PercentCoding.decodeSlash, front, later]
      exact ⟨_, rfl⟩

theorem skipParts (segs : List Text) : (skipEmpty segs).flatMap segBody = segs.flatMap segBody := by
  unfold skipEmpty
  split <;> rfl

theorem skipMem {segs : List Text} {seg : Text} (among : seg ∈ skipEmpty segs) : seg ∈ segs := by
  unfold skipEmpty at among
  split at among
  · exact List.mem_cons_of_mem _ among
  · exact among

theorem skipSome {segs : List Text} (some_ : segs ≠ []) : skipEmpty segs ≠ [] := by
  unfold skipEmpty
  split
  · exact List.cons_ne_nil _ _
  · exact some_

theorem trimJoin {segs : List Text} (plain : Slashless segs) : trimSlash (joinPath segs) = joinPath (skipEmpty segs) := by
  have kept {c : Char} {cs : Text} (other : c ≠ '/') : trimSlash (c :: cs) = c :: cs := by
    unfold trimSlash
    split
    · rename_i same
      exact absurd (List.cons.inj same).1 other
    · rfl
  match segs with
  | [] => rfl
  | [[]] => rfl
  | [] :: next :: segs => rfl
  | (c :: cs) :: segs =>
    have other : c ≠ '/' := fun same => plain _ List.mem_cons_self (by simp [same])
    have whole : skipEmpty ((c :: cs) :: segs) = (c :: cs) :: segs := rfl
    rw [whole]
    cases segs with
    | nil => exact kept other
    | cons next segs => exact kept other

theorem firstJoin {segs more : List Text} {piece : Text} (plain : Slashless segs) (front : skipEmpty segs = piece :: more) :
    firstSegment (joinPath segs) = piece ∧ afterSegment (joinPath segs) = joinPath more := by
  have own : '/' ∉ piece := plain _ (skipMem (by rw [front]; exact List.mem_cons_self))
  rw [firstSegment, afterSegment, trimJoin plain, front]
  cases more with
  | nil => exact ⟨congrArg Prod.fst (splitFirstAbsent own), congrArg Prod.snd (splitFirstAbsent own)⟩
  | cons next more =>
    rw [joinCons piece (List.cons_ne_nil _ _), splitFirstAppend own]
    exact ⟨rfl, rfl⟩

theorem capturedLeft (plat : Platform) {mount segs : List Text} (named : ∀ seg ∈ mount, seg ≠ []) (plain : Slashless segs)
    (some_ : segs ≠ []) : captured plat mount (joinPath segs) = (left plat mount segs).map joinPath := by
  induction mount generalizing segs with
  | nil => rw [captured, left, trimJoin plain, Option.map_some]
  | cons seg mount ih =>
    obtain ⟨piece, more, front⟩ := List.exists_cons_of_ne_nil (skipSome some_)
    obtain ⟨first, after⟩ := firstJoin plain front
    have later : ∀ other ∈ mount, other ≠ [] := fun other among => named other (List.mem_cons_of_mem _ among)
    rw [captured, if_neg (named seg List.mem_cons_self), left, front, first, after]
    dsimp only
    split
    · split
      · rename_i none_
        have blank : Slashless [[]] := fun other among => by rw [List.mem_singleton.mp among]; exact List.not_mem_nil
        rw [none_]
        exact ih later blank (List.cons_ne_nil _ _)
      · rename_i more_
        exact ih later (fun other among => plain other (skipMem (by rw [front]; exact List.mem_cons_of_mem _ among))) more_
    · rfl

end

section
variable {plat : Platform}

theorem skipFirst {seg : Text} {z : List Text} (fine : z = [] ∨ seg ≠ []) : skipEmpty (seg :: z) = seg :: z := by
  cases seg with
  | nil =>
    cases fine.resolve_right (fun named => named rfl)
    rfl
  | cons c cs => rfl

theorem skipCases (init : List Text) :
    (∃ lead piece init', init = lead ++ piece :: init' ∧ (∀ seg ∈ lead, ¬ isDot seg) ∧
      ∀ behind, skipEmpty (lead ++ piece :: behind) = piece :: behind) ∨
    (∀ seg ∈ init, ¬ isDot seg) ∧ ∀ seg z, z = [] ∨ seg ≠ [] → skipEmpty (init ++ seg :: z) = seg :: z := by
  have empty : ∀ seg ∈ ([[]] : List Text), ¬ isDot seg := fun seg among => List.mem_singleton.mp among ▸ (by decide)
  match init with
  | [] => exact .inr ⟨List.forall_mem_nil _, fun seg z fine => skipFirst fine⟩
  | [[]] => exact .inr ⟨empty, fun seg z fine => rfl⟩
  | [] :: piece :: init' => exact .inl ⟨[[]], piece, init', rfl, empty, fun behind => rfl⟩
  | (c :: cs) :: init' => exact .inl ⟨[], c :: cs, init', rfl, List.forall_mem_nil _, fun behind => rfl⟩

theorem leadAppend (lead : List Text) (piece : Text) (init z : List Text) :
    lead ++ piece :: init ++ z = lead ++ piece :: (init ++ z) := by simp

theorem leftMore {seg piece : Text} {mount segs more : List Text} (front : skipEmpty segs = piece :: more) (some_ : more ≠ []) :
    left plat (seg :: mount) segs = if accepts plat (parseSpecialSeg seg) piece then left plat mount more else none := by
  rw [left, front]
  dsimp only
  rw [if_neg some_]

theorem settledFront {mount init rest : List Text} {last : Text} (settled : Settled mount (init ++ [last]))
    (taken : left plat mount (init ++ [last]) = some rest) :
    ∃ front back, init = front ++ back ∧ (∀ seg ∈ front, ¬ isDot seg) ∧ ∀ z, z ≠ [] → left plat mount (front ++ z) = some (skipEmpty z) := by
  induction mount generalizing init with
  | nil => exact ⟨[], init, rfl, List.forall_mem_nil _, fun z _ => rfl⟩
  | cons seg mount ih =>
    rcases skipCases init with ⟨lead, piece, init', rfl, plain, skips⟩ | ⟨_, skips⟩
    · rw [leadAppend] at settled taken
      rw [Settled, skips] at settled
      obtain ⟨more, dotless, later⟩ := settled
      rw [leftMore (skips _) more] at taken
      split at taken
      · rename_i fits
        obtain ⟨front, back, rfl, bare, fronts⟩ := ih later taken
        refine ⟨lead ++ piece :: front, back, by simp, ?_, fun z some_ => ?_⟩
        · intro other among
          rcases List.mem_append.mp among with early | behind
          · exact plain other early
          · rcases List.mem_cons.mp behind with rfl | behind
            · exact dotless
            · exact bare other behind
        · rw [leadAppend, leftMore (skips _) (by simp [some_]), if_pos fits, fronts z some_]
      · cases taken
    · rw [Settled, skips last [] (.inl rfl)] at settled
      exact absurd rfl settled.1

theorem leftBlank {mount rest : List Text} (taken : left plat mount [[]] = some rest) : rest = [[]] := by
  induction mount with
  | nil => exact (Option.some.inj taken).symm
  | cons seg mount ih =>
    change (if _ then left plat mount [[]] else none) = some rest at taken
    split at taken
    · exact ih taken
    · cases taken

theorem literalPiece {seg piece : Text} (plain : isSpecial seg = false) (named : seg ≠ [])
    (fits : accepts plat (parseSpecialSeg seg) piece = true) : piece = seg := by
  have static : parseSpecialSeg seg = .static seg := by
    rw [parseSpecialSeg, if_neg named, plain]
    rfl
  rw [static, accepts, decide_eq_true_eq] at fits
  exact fits

theorem unsettledBehind {mount init rest : List Text} {last : Text} (named : ∀ seg ∈ mount, seg ≠ []) (dotless : ∀ seg ∈ mount, ¬ isDot seg)
    (taken : left plat mount (init ++ [last]) = some rest) (literal : ¬ DottedParameter mount (init ++ [last]))
    (open_ : ¬ Settled mount (init ++ [last])) :
    rest = [[]] ∧ (∀ seg ∈ init, ¬ isDot seg) ∧
      ∀ name tail, name ≠ [] → tail = [] ∨ tail = [[]] → ∀ rest', left plat mount (init ++ name :: tail) = some rest' → rest' = [[]] := by
  induction mount generalizing init with
  | nil => exact absurd trivial open_
  | cons seg mount ih =>
    rcases skipCases init with ⟨lead, piece, init', rfl, plain, skips⟩ | ⟨plain, skips⟩
    · have more : init' ++ [last] ≠ [] := by simp
      rw [leadAppend] at taken literal open_
      rw [Settled, skips] at open_
      rw [DottedParameter, skips] at literal
      rw [leftMore (skips _) more] at taken
      dsimp only at open_ literal
      split at taken
      · rename_i fits
        have own : ¬ isDot piece := by
          intro dot
          cases special : isSpecial seg with
          | true => exact literal (.inl ⟨special, dot⟩)
          | false =>
            have same := literalPiece special (named seg List.mem_cons_self) fits
            exact dotless seg List.mem_cons_self (same ▸ dot)
        obtain ⟨blank, bare, behind⟩ := ih (fun other among => named other (List.mem_cons_of_mem _ among))
          (fun other among => dotless other (List.mem_cons_of_mem _ among)) taken (fun dotted => literal (.inr dotted))
          fun settled => open_ ⟨more, own, settled⟩
        refine ⟨blank, ?_, fun name tail some_ short rest' taken' => ?_⟩
        · intro other among
          rcases List.mem_append.mp among with early | later
          · exact plain other early
          · rcases List.mem_cons.mp later with rfl | later
            · exact own
            · exact bare other later
        · rw [leadAppend, leftMore (skips _) (by simp), if_pos fits] at taken'
          exact behind name tail some_ short rest' taken'
      · cases taken
    · rw [left, skips last [] (.inl rfl)] at taken
      dsimp only at taken
      split at taken
      · refine ⟨leftBlank taken, plain, fun name tail some_ short rest' taken' => ?_⟩
        rw [left, skips name tail (.inr some_)] at taken'
        dsimp only at taken'
        split at taken'
        · rcases short with rfl | rfl <;> exact leftBlank taken'
        · cases taken'
      · cases taken

theorem dottedMount {mount segs : List Text} {dot : Text} (among : dot ∈ mount) (dotted : isDot dot) (named : ∀ seg ∈ mount, seg ≠ [])
    (plain : ∀ seg ∈ segs, ¬ isDot seg) : left plat mount segs = none := by
  induction mount generalizing segs with
  | nil => cases among
  | cons seg mount ih =>
    rw [left]
    cases front : skipEmpty segs with
    | nil => rfl
    | cons piece more =>
      have own : ¬ isDot piece := plain _ (skipMem (by rw [front]; exact List.mem_cons_self))
      dsimp only
      split
      · rename_i fits
        rcases List.mem_cons.mp among with rfl | later
        · have literal : isSpecial dot = false := by rcases dotted with rfl | rfl <;> decide
          exact absurd (literalPiece literal (named dot List.mem_cons_self) fits ▸ dotted) own
        · refine ih later (fun other among => named other (List.mem_cons_of_mem _ among)) fun other inside => ?_
          split at inside
          · exact List.mem_singleton.mp inside ▸ (by decide)
          · exact plain other (skipMem (by rw [front]; exact List.mem_cons_of_mem _ inside))
      · rfl

end

section
variable {name : Text}

def tailOf (isDir : Bool) : List Text := if isDir then [[]] else []

theorem tailShort (isDir : Bool) : tailOf isDir = [] ∨ tailOf isDir = [[]] := by cases isDir <;> simp [tailOf]

theorem tailForall {P : Text → Prop} (blank : P []) (isDir : Bool) : ∀ seg ∈ tailOf isDir, P seg := by
  cases isDir with
  | false => exact List.forall_mem_nil P
  | true => exact List.forall_mem_singleton.mpr blank

theorem encodedPlain {c : Char} (among : c ∈ PercentCoding.encode name) : c ≠ '/' ∧ c ≠ '?' ∧ c ≠ '#' := by
  have plain := PercentCoding.encodePlain name c among
  refine ⟨?_, ?_, ?_⟩ <;> rintro rfl <;> exact absurd plain (by decide)

theorem encodedSlashless (name : Text) : '/' ∉ PercentCoding.encode name := fun among => (encodedPlain among).1 rfl

theorem encodedOther {seg : Text} (same : PercentCoding.decode seg = some seg) (other : name ≠ seg) : PercentCoding.encode name ≠ seg := by
  intro equal
  have read := PercentCoding.decodeEncode name
  rw [equal, same] at read
  exact other (Option.some.inj read).symm

theorem encodedNamed (named : Named isSlash name) : PercentCoding.encode name ≠ [] ∧ ¬ isDot (PercentCoding.encode name) :=
  ⟨encodedOther rfl named.full, not_or.mpr ⟨encodedOther (by decide) named.current, encodedOther (by decide) named.parent⟩⟩

theorem nameBody (named : Named isSlash name) : segBody (PercentCoding.encode name) = [.normal name] := by
  have alone : body isSlash name = [.normal name] := by
    simp [body, List.splitOnP_eq_singleton named.whole, pieceOfName named.full named.current named.parent]
  rw [segBody, PercentCoding.decodeEncode, Option.map_some, Option.getD_some, alone]

theorem hrefSpelt (name : Text) (isDir : Bool) :
    href (rowOf name isDir) = spelt (current :: PercentCoding.encode name :: tailOf isDir) := by
  cases isDir <;> simp [href, rowOf, spelt, current, tailOf, suffix, slashed]

theorem hrefPath (name : Text) (isDir : Bool) : referencePath (href (rowOf name isDir)) = href (rowOf name isDir) := by
  rw [referencePath, List.takeWhile_eq_self_iff]
  intro c among
  simp only [href, rowOf, List.mem_append] at among
  rcases among with (dot | encoded) | slash
  · rcases List.mem_pair.mp dot with rfl | rfl <;> rfl
  · obtain ⟨_, query, fragment⟩ := encodedPlain encoded
    simp [query, fragment]
  · cases isDir with
    | false => cases slash
    | true =>
      rw [List.mem_singleton.mp slash]
      decide

theorem linkSlashless {base : List Text} (before : Slashless base) (isDir : Bool) :
    Slashless (base ++ current :: PercentCoding.encode name :: tailOf isDir) := by
  intro seg among
  rcases List.mem_append.mp among with inside | among
  · exact before seg inside
  · rcases List.mem_cons.mp among with rfl | among
    · decide
    · rcases List.mem_cons.mp among with rfl | among
      · exact encodedSlashless name
      · exact tailForall (P := fun seg => '/' ∉ seg) List.not_mem_nil isDir seg among

theorem linkBare (named : Named isSlash name) (isDir : Bool) : ∀ seg ∈ PercentCoding.encode name :: tailOf isDir, ¬ isDot seg := by
  intro seg among
  rcases List.mem_cons.mp among with rfl | tail
  · exact (encodedNamed named).2
  · exact tailForall (P := fun seg => ¬ isDot seg) (by decide) isDir seg tail

theorem linkCleaned (named : Named isSlash name) (isDir : Bool) {base : List Text} (up : parent ∉ base) :
    cleaned [] (base ++ current :: PercentCoding.encode name :: tailOf isDir) =
      base.filter (· ≠ current) ++ PercentCoding.encode name :: tailOf isDir := by
  have here : parent ∉ base ++ [current] := fun among =>
    (List.mem_append.mp among).elim up fun dot => absurd (List.mem_singleton.mp dot) (by decide)
  have shape : base ++ current :: PercentCoding.encode name :: tailOf isDir =
      (base ++ [current]) ++ PercentCoding.encode name :: tailOf isDir := by simp
  rw [shape, cleanedPlain here (linkBare named isDir) (List.cons_ne_nil _ _), List.nil_append, List.filter_append]
  simp

theorem linkResolved {base : List Text} {last : Text} (before : Slashless base) (own : '/' ∉ last) (isDir : Bool) :
    resolve (slashed (base ++ [last])) (href (rowOf name isDir)) =
      slashed (cleaned [] (base ++ current :: PercentCoding.encode name :: tailOf isDir)) := by
  have plain : Slashless (current :: PercentCoding.encode name :: tailOf isDir) := linkSlashless nothingSlashless isDir
  have path := hrefPath name isDir
  rw [hrefSpelt] at path ⊢
  exact resolveSlashed before own plain (by decide) path

end

section
variable {plat : Platform} {fs : FileSystem Text F} {self : HandlerWrapperStatic Text} {name : Text}

theorem segmentsNamed (url : Text) : ∀ seg ∈ segments url, seg ≠ [] := fun seg among => by
  simpa using (List.mem_filter.mp among).2

theorem visitLeft (plat : Platform) (order : RouteTree.HashOrder) (buffer : Nat) (fs : FileSystem Text F) {url : Text}
    {site : Route (HandlerWrapperStatic Text) M V} (built : Site url self site) {segs : List Text} (plain : Slashless segs)
    (some_ : segs ≠ []) :
    Visited fs self (visit plat order buffer fs site (slashed segs)) ((left plat (segments url) ([] :: segs)).map joinPath) := by
  have rooted : Slashless ([] :: segs) := fun seg among =>
    (List.mem_cons.mp among).elim (fun same => same ▸ List.not_mem_nil) (plain seg)
  rw [← capturedLeft plat (segmentsNamed url) rooted (List.cons_ne_nil _ _), ← slashedJoin some_]
  exact siteVisit plat order buffer fs built (slashed segs)

theorem linkVisit (plat : Platform) (order : RouteTree.HashOrder) (buffer : Nat) (fs : FileSystem Text F) {url : Text}
    {site : Route (HandlerWrapperStatic Text) M V} (built : Site url self site) {base : List Text} {last : Text}
    (before : Slashless base) (own : '/' ∉ last) (isDir : Bool) :
    Visited fs self (visit plat order buffer fs site (resolve (slashed (base ++ [last])) (href (rowOf name isDir))))
      ((left plat (segments url) ([] :: cleaned [] (base ++ current :: PercentCoding.encode name :: tailOf isDir))).map joinPath) := by
  rw [linkResolved before own isDir]
  exact visitLeft plat order buffer fs built (cleanedSlashless nothingSlashless (linkSlashless before isDir)) (cleanedSome (by simp))

theorem visitedRefused {answered : SilentResult (Outcome F)} {dir : Text} (visited : Visited fs self answered none) :
    ¬ Addresses answered dir name := by
  intro ⟨target, asked, _⟩
  rw [show answered = .error .notFound from visited] at asked
  cases asked

theorem normalsAppend (s t : List Component) : normals (s ++ t) = normals s ++ normals t := List.filterMap_append

structure Listed (self : HandlerWrapperStatic Text) (rest : List Text) (dir : Text) : Prop where
  decodes : ∀ seg ∈ rest, (PercentCoding.decode seg).isSome
  free : .parentDir ∉ rest.flatMap segBody
  components : unixComponents dir = unixComponents self.root ++ (normals (rest.flatMap segBody)).map .normal

theorem skipDecodes {segs : List Text} (decodes : ∀ seg ∈ skipEmpty segs, (PercentCoding.decode seg).isSome) :
    ∀ seg ∈ segs, (PercentCoding.decode seg).isSome := by
  intro seg among
  unfold skipEmpty at decodes
  split at decodes
  · rcases List.mem_cons.mp among with rfl | later
    · rfl
    · exact decodes seg later
  · exact decodes seg among

theorem listedLeft {segs rest : List Text} {dir : Text} {page : Page} (some_ : rest ≠ [])
    (listed : self.call unix urlCodec fs (some (joinPath rest)) = (.ok (.listing page), [.metadata dir, .readDir dir]))
    (skipped : rest = skipEmpty segs) : Listed self segs dir := by
  obtain ⟨decoded, read, free, rfl, _⟩ := callListed listed
  obtain ⟨decodes, parts⟩ := decodeJoined some_ decoded read
  have same : segs.flatMap segBody = body isSlash decoded := by rw [parts, skipped, skipParts]
  refine ⟨skipDecodes (skipped ▸ decodes), same ▸ free, ?_⟩
  rw [same]
  exact targetComponents self.root decoded

theorem parentBody : segBody parent = [.parentDir] := by decide

theorem currentBody : segBody current = [] := by decide

theorem tailBody (isDir : Bool) : (tailOf isDir).flatMap segBody = [] := by cases isDir <;> decide

theorem undottedBody (segs : List Text) : (segs.filter (· ≠ current)).flatMap segBody = segs.flatMap segBody := by
  induction segs with
  | nil => rfl
  | cons seg segs ih =>
    by_cases dot : seg = current
    · rw [List.filter_cons_of_neg (by simpa using dot), ih, List.flatMap_cons, dot, currentBody, List.nil_append]
    · rw [List.filter_cons_of_pos (by simpa using dot), List.flatMap_cons, List.flatMap_cons, ih]

theorem requestedTarget {segs : List Text} (some_ : segs ≠ []) (decodes : ∀ seg ∈ segs, (PercentCoding.decode seg).isSome)
    (free : .parentDir ∉ segs.flatMap segBody) :
    ∃ target, ((self.call unix urlCodec fs (some (joinPath (skipEmpty segs)))).2.head?.map Access.path) = some target ∧
      unixComponents target = unixComponents self.root ++ (normals (segs.flatMap segBody)).map .normal := by
  obtain ⟨decoded, read⟩ := joinedDecodes fun seg (among : seg ∈ skipEmpty segs) => decodes seg (skipMem among)
  have parts := (decodeJoined (skipSome some_) decoded read).2
  rw [skipParts] at parts
  have target := @callTarget _ fs self _ _ read (parts ▸ free)
  exact ⟨_, target, by rw [targetComponents, parts]⟩

theorem linkBody (named : Named isSlash name) (isDir : Bool) (back : List Text) :
    (back.filter (· ≠ current) ++ PercentCoding.encode name :: tailOf isDir).flatMap segBody = back.flatMap segBody ++ [.normal name] := by
  rw [List.flatMap_append, undottedBody, List.flatMap_cons, nameBody named, tailBody, List.append_nil]

theorem linkTarget (named : Named isSlash name) (isDir : Bool) {back : List Text}
    (decodes : ∀ seg ∈ back, (PercentCoding.decode seg).isSome) (free : .parentDir ∉ back.flatMap segBody) :
    ∃ target, ((self.call unix urlCodec fs (some (joinPath (skipEmpty
        (back.filter (· ≠ current) ++ PercentCoding.encode name :: tailOf isDir))))).2.head?.map Access.path) = some target ∧
      unixComponents target = unixComponents self.root ++ (normals (back.flatMap segBody)).map .normal ++ [.normal name] := by
  have decodes_ : ∀ seg ∈ back.filter (· ≠ current) ++ PercentCoding.encode name :: tailOf isDir, (PercentCoding.decode seg).isSome := by
    intro seg among
    rcases List.mem_append.mp among with inside | among
    · exact decodes seg (List.mem_filter.mp inside).1
    · rcases List.mem_cons.mp among with rfl | tail
      · exact Option.isSome_iff_exists.mpr ⟨name, PercentCoding.decodeEncode name⟩
      · exact tailForall (P := fun seg => (PercentCoding.decode seg).isSome) rfl isDir seg tail
  have free_ : .parentDir ∉ (back.filter (· ≠ current) ++ PercentCoding.encode name :: tailOf isDir).flatMap segBody := by
    rw [linkBody named, List.mem_append, not_or]
    exact ⟨free, by simp⟩
  obtain ⟨target, asked, reached⟩ := @requestedTarget _ fs self _ (by simp) decodes_ free_
  rw [linkBody named, normalsAppend, List.map_append, ← List.append_assoc] at reached
  exact ⟨target, asked, reached⟩

theorem sameFront {α : Type} {front back : List α} {x : α} : front ++ [x] = front ++ back ++ [x] ↔ back = [] := by
  rw [List.append_cancel_right_eq, List.self_eq_append_right]

/- The link of an entry, where the mount is settled: the segments of the directory as they
were, without dot segments, and the name in the place of the last. -/
theorem settledLink (order : RouteTree.HashOrder) (buffer : Nat) {url : Text} {site : Route (HandlerWrapperStatic Text) M V}
    (built : Site url self site) {base rest : List Text} {last dir : Text} {page : Page} (before : Slashless base) (own : '/' ∉ last)
    (settled : Settled (segments url) ([] :: base ++ [last])) (taken : left plat (segments url) ([] :: base ++ [last]) = some rest)
    (listed : self.call unix urlCodec fs (some (joinPath rest)) = (.ok (.listing page), [.metadata dir, .readDir dir]))
    (named : Named isSlash name) (isDir : Bool) :
    Addresses (visit plat order buffer fs site (resolve (slashed (base ++ [last])) (href (rowOf name isDir)))) dir name ↔
      normals (segBody last) = [] := by
  obtain ⟨front, back, whole, bare, fronts⟩ := settledFront settled taken
  have skipped : rest = skipEmpty (back ++ [last]) := by
    rw [whole, List.append_assoc, fronts _ (by simp)] at taken
    exact (Option.some.inj taken).symm
  have some_ : rest ≠ [] := skipped ▸ skipSome (by simp)
  obtain ⟨decodes, free, components⟩ := listedLeft some_ listed skipped
  rw [List.flatMap_append, List.flatMap_singleton] at free components
  rw [List.mem_append, not_or] at free
  have up : parent ∉ base := by
    intro among
    have inWhole : parent ∈ front ++ back := whole ▸ List.mem_cons_of_mem _ among
    rcases List.mem_append.mp inWhole with early | late
    · exact bare parent early (.inr rfl)
    · exact free.1 (List.mem_flatMap.mpr ⟨parent, late, by rw [parentBody]; exact List.mem_singleton_self _⟩)
  have kept : front.filter (· ≠ current) = front :=
    List.filter_eq_self.mpr fun seg among => by simpa using fun same : seg = current => bare seg among (.inl same)
  have filtered : ([] : Text) :: base.filter (· ≠ current) = front ++ back.filter (· ≠ current) := by
    have both := congrArg (List.filter (· ≠ current)) whole
    rwa [List.filter_append, kept, List.filter_cons_of_pos (by decide)] at both
  have visited := @linkVisit _ _ _ self name plat order buffer fs _ _ built _ _ before own isDir
  rw [linkCleaned named isDir up, ← List.cons_append, filtered, List.append_assoc, fronts _ (by simp), Option.map_some] at visited
  obtain ⟨target, asked, reached⟩ := @linkTarget _ fs self name named isDir back
    (fun seg among => decodes seg (List.mem_append_left _ among)) free.1
  rw [normalsAppend, List.map_append, ← List.append_assoc] at components
  change visit plat order buffer fs site _ = _ at visited
  rw [visited, Addresses, addressed, asked, components]
  simp only [Option.some.injEq, exists_eq_left', reached, sameFront, List.map_eq_nil_iff]

theorem unsettledLink (order : RouteTree.HashOrder) (buffer : Nat) {url : Text} {site : Route (HandlerWrapperStatic Text) M V}
    (built : Site url self site) {base rest : List Text} {last dir : Text} {page : Page} (before : Slashless base) (own : '/' ∉ last)
    (open_ : ¬ Settled (segments url) ([] :: base ++ [last])) (literal : ¬ DottedParameter (segments url) ([] :: base ++ [last]))
    (taken : left plat (segments url) ([] :: base ++ [last]) = some rest)
    (listed : self.call unix urlCodec fs (some (joinPath rest)) = (.ok (.listing page), [.metadata dir, .readDir dir]))
    (named : Named isSlash name) (isDir : Bool) :
    ¬ Addresses (visit plat order buffer fs site (resolve (slashed (base ++ [last])) (href (rowOf name isDir)))) dir name := by
  have visited := @linkVisit _ _ _ self name plat order buffer fs _ _ built _ _ before own isDir
  by_cases dotted : ∃ dot ∈ segments url, isDot dot
  · obtain ⟨dot, among, dots⟩ := dotted
    have bare : ∀ seg ∈ [] :: cleaned [] (base ++ current :: PercentCoding.encode name :: tailOf isDir), ¬ isDot seg :=
      List.forall_mem_cons.mpr ⟨by decide, cleanedBare (List.forall_mem_nil _)⟩
    rw [dottedMount among dots (segmentsNamed url) bare] at visited
    exact visitedRefused visited
  · have dotless : ∀ seg ∈ segments url, ¬ isDot seg := fun seg among dots => dotted ⟨seg, among, dots⟩
    obtain ⟨blank, bare, behind⟩ := unsettledBehind (segmentsNamed url) dotless taken literal open_
    have up : parent ∉ base := fun among => bare parent (List.mem_cons_of_mem _ among) (.inr rfl)
    have kept : base.filter (· ≠ current) = base := List.filter_eq_self.mpr fun seg among => by
      simpa using fun same : seg = current => bare seg (List.mem_cons_of_mem _ among) (.inl same)
    rw [linkCleaned named isDir up, kept] at visited
    cases again : left plat (segments url) ([] :: (base ++ PercentCoding.encode name :: tailOf isDir)) with
    | none =>
      rw [again] at visited
      exact visitedRefused visited
    | some rest' =>
      have same := behind _ _ (encodedNamed named).1 (tailShort isDir) rest' again
      rw [again, same, ← blank] at visited
      change visit plat order buffer fs site _ = _ at visited
      rw [visited]
      simp only [listed]
      rintro ⟨target, asked, reached⟩
      cases asked
      simpa [Access.path] using congrArg List.length reached

theorem pathParts (text : Text) : ∃ base last, ('/' :: text).splitOn '/' = [] :: (base ++ [last]) ∧
    '/' :: text = slashed (base ++ [last]) ∧ Slashless (base ++ [last]) := by
  have some_ := List.splitOn_ne_nil '/' text
  have whole : '/' :: text = slashed (text.splitOn '/') := by
    rw [slashedJoin some_, joinCons [] some_, joinSplit]
    rfl
  have plain : Slashless (text.splitOn '/') := fun seg among => splitPlain among
  obtain ⟨base, last, parts⟩ := (List.eq_nil_or_concat' _).resolve_left some_
  have split_ : ('/' :: text).splitOn '/' = [] :: text.splitOn '/' := List.splitOn_append_cons_self [] text
  exact ⟨base, last, parts ▸ split_, parts ▸ whole, parts ▸ plain⟩

/-- The link of an entry leads back to the entry where a slash of the request path ends the
mount's part, no segment of that part is a dot segment, and nothing behind the last slash
names a component; and only there, unless a parameter of the mount's URL is a dot segment. -/
theorem linkReturns (plat : Platform) (order : RouteTree.HashOrder) (buffer : Nat) (fs : FileSystem Text F) {url : Text}
    {self : HandlerWrapperStatic Text} {site : Route (HandlerWrapperStatic Text) M V} (built : Site url self site) {text dir : Text} {page : Page}
    (listed : visit plat order buffer fs site ('/' :: text) = .ok (.ok (.listing page), [.metadata dir, .readDir dir]))
    {entries : List (Except Text (Text × Except Text Bool))} (read : fs.readDir dir = some entries) {name : Text} {isDir : Bool}
    (entry : .ok (name, .ok isDir) ∈ entries) (named : Named isSlash name) :
    rowOf name isDir ∈ page.entries ∧
      (Closes (segments url) ('/' :: text) →
        Addresses (visit plat order buffer fs site (resolve ('/' :: text) (href (rowOf name isDir)))) dir name) ∧
      (Addresses (visit plat order buffer fs site (resolve ('/' :: text) (href (rowOf name isDir)))) dir name →
        Closes (segments url) ('/' :: text) ∨ DottedParameter (segments url) (('/' :: text).splitOn '/')) := by
  obtain ⟨base, last, split_, whole, plain⟩ := pathParts text
  rw [Closes, Bare, split_]
  rw [whole] at listed ⊢
  have before : Slashless base := fun seg among => plain seg (List.mem_append_left _ among)
  have own : '/' ∉ last := plain last (by simp)
  have visited := visitLeft plat order buffer fs built plain (by simp)
  have lastIs : (([] : Text) :: (base ++ [last])).getLastD [] = last := by rw [← List.cons_append, List.getLastD_concat]
  cases taken : left plat (segments url) ([] :: (base ++ [last])) with
  | none =>
    rw [taken] at visited
    change visit plat order buffer fs site _ = _ at visited
    rw [visited] at listed
    cases listed
  | some rest =>
    rw [taken] at visited
    change visit plat order buffer fs site _ = _ at visited
    rw [visited] at listed
    have called := Except.ok.inj listed
    obtain ⟨_, _, _, _, _, rendered⟩ := callListed called
    have link (settled : Settled (segments url) ([] :: (base ++ [last]))) :=
      settledLink order buffer built before own settled taken called named isDir
    rw [lastIs]
    refine ⟨listedRow rendered read entry, fun both => (link both.1).mpr both.2, fun reached => ?_⟩
    by_cases settled : Settled (segments url) ([] :: (base ++ [last]))
    · exact .inl ⟨settled, (link settled).mp reached⟩
    · by_contra neither
      have literal := (not_or.mp neither).2
      exact unsettledLink order buffer built before own settled literal taken called named isDir reached

end

def oneFile : FileSystem Text Unit := ⟨fun _ => some true, fun _ => some [.ok ("b".toList, .ok false)], fun _ => none⟩

def files : HandlerWrapperStatic Text := ⟨"r".toList, ⟨true⟩⟩

theorem rootSite (handler : HandlerWrapperStatic Text) :
    ∃ site : Route (HandlerWrapperStatic Text) Unit Unit, Site [] handler site := by
  have line : Line _ ∅ (Route.new [] : Route (HandlerWrapperStatic Text) Unit Unit) := tidyLine (.inl rfl)
  obtain ⟨site, built, _⟩ := RouteGraft.appendGrafts (lineSpine line) ((Route.new starPath).insertHandler .get handler)
  exact ⟨site, .own built⟩

theorem fileNamed : Named isSlash "b".toList where
  whole := List.forall_mem_singleton.mpr rfl
  full := by decide
  current := by decide
  parent := by decide

theorem slashedReturns : ∃ (site : Route (HandlerWrapperStatic Text) Unit Unit) (page : Page), Site [] files site ∧
    rowOf "b".toList false ∈ page.entries ∧
      Addresses (visit literalAbove entryOrder 64 oneFile site (resolve "/a/".toList (href (rowOf "b".toList false)))) "r/a".toList "b".toList := by
  obtain ⟨site, built⟩ := rootSite files
  have listed : visit literalAbove entryOrder 64 oneFile site "/a/".toList = .ok (files.call unix urlCodec oneFile (some "a/".toList)) :=
    siteVisit literalAbove entryOrder 64 oneFile built "/a/".toList
  have returns := @linkReturns _ _ _ literalAbove entryOrder 64 oneFile _ _ _ built "a/".toList _ _ listed _ rfl _ _
    (List.mem_singleton_self _) fileNamed
  exact ⟨site, _, built, returns.1, returns.2.1 ⟨trivial, by decide⟩⟩

theorem unslashedStrays : ∃ (site : Route (HandlerWrapperStatic Text) Unit Unit) (page : Page), Site [] files site ∧
    visit literalAbove entryOrder 64 oneFile site "/a".toList = .ok (.ok (.listing page), [.metadata "r/a".toList, .readDir "r/a".toList]) ∧
      rowOf "b".toList false ∈ page.entries ∧
      addressed (visit literalAbove entryOrder 64 oneFile site (resolve "/a".toList (href (rowOf "b".toList false)))) = some "r/b".toList ∧
      ¬ Addresses (visit literalAbove entryOrder 64 oneFile site (resolve "/a".toList (href (rowOf "b".toList false)))) "r/a".toList "b".toList := by
  obtain ⟨site, built⟩ := rootSite files
  have listed : visit literalAbove entryOrder 64 oneFile site "/a".toList = .ok (files.call unix urlCodec oneFile (some "a".toList)) :=
    siteVisit literalAbove entryOrder 64 oneFile built "/a".toList
  have link : resolve "/a".toList (href (rowOf "b".toList false)) = "/b".toList := by
    have resolved := @linkResolved "b".toList [] "a".toList nothingSlashless (by decide) false
    exact resolved.trans (by decide)
  have followed : visit literalAbove entryOrder 64 oneFile site "/b".toList = .ok (files.call unix urlCodec oneFile (some "b".toList)) :=
    siteVisit literalAbove entryOrder 64 oneFile built "/b".toList
  have target : addressed (visit literalAbove entryOrder 64 oneFile site "/b".toList) = some "r/b".toList := by rw [followed]; rfl
  rw [link]
  refine ⟨site, _, built, listed, List.mem_mergeSort.mpr (List.mem_singleton_self _), target, ?_⟩
  rintro ⟨asked, same, components⟩
  cases Option.some.inj (target.symm.trans same)
  exact absurd components (by decide)

end Silent.ListingLinks
