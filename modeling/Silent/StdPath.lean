import Mathlib.Data.List.Basic
import Mathlib.Data.List.DropRight
import Silent.ByteText

/-! Paths by the documented rules of `std::path`. On Unix a path is its text; on Windows
what is kept is the prefix, whether a root follows it, and the rest. Only the reading of
a prefix that starts with two separators (UNC, device and verbatim paths) is left open. -/
namespace Silent.StdPath
open ByteText

inductive PathPrefix where
  | disk (letter : Char)
  | long (text : Text) (verbatim : Bool)
  deriving DecidableEq

inductive Component where
  | leading (pathPrefix : PathPrefix)
  | rootDir
  | curDir
  | parentDir
  | normal (seg : Text)
  deriving DecidableEq

structure Rules (P : Type) where
  parse : Text → P
  push : P → P → P
  components : P → List Component

def Component.name : Component → Option Text
  | .normal seg => some seg
  | _ => none

def normals (components : List Component) : List Text := components.filterMap Component.name

def piece (seg : Text) : Option Component :=
  if seg = [] ∨ seg = ['.'] then none else if seg = ['.', '.'] then some .parentDir else some (.normal seg)

def body (isSep : Char → Bool) (s : Text) : List Component := (s.splitOnP isSep).filterMap piece

def relative (isSep : Char → Bool) (s : Text) : List Component :=
  if (s.splitOnP isSep).head? = some ['.'] then .curDir :: body isSep s else body isSep s

def isSlash (c : Char) : Bool := c = '/'

def unixComponents (path : Text) : List Component :=
  if path.head? = some '/' then .rootDir :: body isSlash path else relative isSlash path

def unixPush (buf path : Text) : Text :=
  if path.head? = some '/' then path
  else if buf = [] ∨ buf.getLast? = some '/' then buf ++ path
  else buf ++ '/' :: path

def unix : Rules Text := ⟨id, unixPush, unixComponents⟩

structure WinPath where
  lead : Option PathPrefix
  root : Bool
  rest : List Component
  deriving DecidableEq

def isWinSep (c : Char) : Bool := c = '/' || c = '\\'

def isDriveLetter (c : Char) : Bool := 'a' ≤ c && c ≤ 'z' || 'A' ≤ c && c ≤ 'Z'

def verbatimPiece (seg : Text) : Option Component := if seg = ['.'] then some .curDir else piece seg

def winRest (lead : Option PathPrefix) (s : Text) : WinPath :=
  if (s.head?.any isWinSep) then ⟨lead, true, body isWinSep s⟩ else ⟨lead, false, relative isWinSep s⟩

-- `long` gives the prefix, whether it is verbatim, and what follows it.
def winParse (long : Text → Option (Text × Bool × Text)) (s : Text) : WinPath :=
  match s with
  | a :: b :: rest =>
      if isWinSep a && isWinSep b then
        match long s with
        | some (text, true, rest) => ⟨some (.long text true), true, (rest.splitOnP (· = '\\')).filterMap verbatimPiece⟩
        | some (text, false, rest) => ⟨some (.long text false), true, body isWinSep rest⟩
        | none => winRest none s
      else if isDriveLetter a && b = ':' then winRest (some (.disk a.toUpper)) rest
      else winRest none s
  | s => winRest none s

def winComponents (path : WinPath) : List Component :=
  (path.lead.map Component.leading).toList ++ ((if path.root then [.rootDir] else []) ++ path.rest)

def WinPath.verbatim (path : WinPath) : Bool :=
  match path.lead with
  | some (.long _ verbatim) => verbatim
  | _ => false

def verbatimPush (buf : WinPath) : Component → WinPath
  | .rootDir => {buf with root := true, rest := []}
  | .curDir => buf
  | .parentDir => if ((buf.rest.getLast?.bind Component.name).isSome) then {buf with rest := buf.rest.dropLast} else buf
  | other => {buf with rest := buf.rest ++ [other]}

def winPush (buf path : WinPath) : WinPath :=
  if path.lead.isSome then path
  else if buf.verbatim then (winComponents path).foldl verbatimPush buf
  else if path.root then {buf with root := true, rest := path.rest}
  else if buf.root = false ∧ buf.rest = [] then {buf with rest := path.rest}
  else {buf with rest := buf.rest ++ path.rest.filter (· ≠ .curDir)}

def windows (long : Text → Option (Text × Bool × Text)) : Rules WinPath := ⟨winParse long, winPush, winComponents⟩

def extension {P : Type} (rules : Rules P) (path : P) : Option Text :=
  match (rules.components path).getLast? with
  | some (.normal seg) =>
      let after := seg.rtakeWhile (· ≠ '.')
      if after.length + 1 < seg.length then some after else none
  | _ => none

structure Lawful {P : Type} (rules : Rules P) (Plain : Text → Prop) : Prop where
  start : rules.components (rules.parse []) = []
  one : ∀ seg, Plain seg → rules.components (rules.parse seg) = [.normal seg]
  join : ∀ buf path, (∀ c ∈ rules.components path, ∃ seg, c = .normal seg) →
    rules.components (rules.push buf path) = rules.components buf ++ rules.components path

theorem pushedComponents {P : Type} {rules : Rules P} {Plain : Text → Prop} (lawful : Lawful rules Plain) {segs : List Text}
    (plain : ∀ seg ∈ segs, Plain seg) (buf : P) :
    rules.components (segs.foldl (fun buf seg => rules.push buf (rules.parse seg)) buf) =
      rules.components buf ++ segs.map .normal := by
  induction segs generalizing buf with
  | nil => simp
  | cons seg segs ih =>
    have one := lawful.one seg (plain seg List.mem_cons_self)
    have joined := lawful.join buf (rules.parse seg) (by simp [one])
    rw [List.foldl_cons, ih fun other among => plain other (List.mem_cons_of_mem _ among), joined, one]
    simp

section
variable {isSep : Char → Bool}

theorem pieceNormal {part seg : Text} (found : piece part = some (.normal seg)) :
    part = seg ∧ seg ≠ [] ∧ seg ≠ ['.'] ∧ seg ≠ ['.', '.'] := by
  unfold piece at found
  split at found
  · cases found
  · split at found
    · cases found
    · rename_i blank parent
      cases found
      exact ⟨rfl, fun eq => blank (.inl eq), fun eq => blank (.inr eq), parent⟩

theorem pieceOfName {seg : Text} (full : seg ≠ []) (current : seg ≠ ['.']) (parent : seg ≠ ['.', '.']) :
    piece seg = some (.normal seg) := by
  simp [piece, full, current, parent]

structure Named (isSep : Char → Bool) (seg : Text) : Prop where
  whole : ∀ c ∈ seg, isSep c = false
  full : seg ≠ []
  current : seg ≠ ['.']
  parent : seg ≠ ['.', '.']

theorem bodyNamed {s seg : Text} (found : .normal seg ∈ body isSep s) : Named isSep seg := by
  obtain ⟨part, among, same⟩ := List.mem_filterMap.mp found
  obtain ⟨rfl, full, current, parent⟩ := pieceNormal same
  exact ⟨fun c inside => (splitPart isSep s part among c inside).1, full, current, parent⟩

theorem relativeNamed {s seg : Text} (found : .normal seg ∈ relative isSep s) : Named isSep seg := by
  unfold relative at found
  split at found
  · exact bodyNamed ((List.mem_cons.mp found).resolve_left nofun)
  · exact bodyNamed found

theorem relativeOfName {seg : Text} (named : Named isSep seg) : relative isSep seg = [.normal seg] := by
  simp [relative, body, List.splitOnP_eq_singleton named.whole, pieceOfName named.full named.current named.parent, named.current]

theorem bodyAt {c : Char} (sep : isSep c = true) (s t : Text) : body isSep (s ++ c :: t) = body isSep s ++ body isSep t := by
  rw [body, List.splitOnP_append_cons s t sep, List.filterMap_append]
  rfl

theorem headAt {c : Char} (sep : isSep c = true) (s t : Text) :
    ((s ++ c :: t).splitOnP isSep).head? = (s.splitOnP isSep).head? := by
  obtain ⟨part, parts, split⟩ := List.exists_cons_of_ne_nil (List.splitOnP_ne_nil isSep s)
  rw [List.splitOnP_append_cons s t sep, split]
  rfl

end

section
def unixFront (path : Text) : List Component :=
  if path.head? = some '/' then [.rootDir] else if (path.splitOnP isSlash).head? = some ['.'] then [.curDir] else []

theorem unixFrontBody (path : Text) : unixComponents path = unixFront path ++ body isSlash path := by
  unfold unixComponents unixFront relative
  split
  · rfl
  · split <;> rfl

theorem unixFrontAt (s t t' : Text) : unixFront (s ++ '/' :: t) = unixFront (s ++ '/' :: t') := by
  unfold unixFront
  rw [headAt rfl s t, headAt rfl s t']
  cases s <;> rfl

theorem unixFrontWhole {s : Text} (full : s ≠ []) (t : Text) : unixFront (s ++ '/' :: t) = unixFront s := by
  unfold unixFront
  rw [headAt rfl s t, List.head?_append_of_ne_nil s full]

theorem unixJoin {buf path : Text} (plain : unixFront path = []) :
    unixComponents (unixPush buf path) = unixComponents buf ++ body isSlash path := by
  have relative : path.head? ≠ some '/' := fun rooted => by simp [unixFront, rooted] at plain
  rw [unixPush, if_neg relative]
  by_cases empty : buf = []
  · have blank : unixComponents [] = [] := rfl
    rw [if_pos (.inl empty), empty, List.nil_append, blank, unixFrontBody, plain]
  · by_cases ended : buf.getLast? = some '/'
    · rw [if_pos (.inr ended)]
      obtain ⟨front, rfl⟩ := List.getLast?_eq_some_iff.mp ended
      rw [unixFrontBody, unixFrontBody, List.append_assoc, List.singleton_append, unixFrontAt front path [], bodyAt rfl,
        bodyAt rfl]
      simp [body, piece]
    · rw [if_neg (not_or.mpr ⟨empty, ended⟩), unixFrontBody, unixFrontBody, unixFrontWhole empty, bodyAt rfl, List.append_assoc]

theorem unixNamed {path seg : Text} (found : seg ∈ normals (unixComponents path)) : Named isSlash seg := by
  obtain ⟨c, among, named⟩ := List.mem_filterMap.mp found
  cases c <;> cases named
  unfold unixComponents at among
  split at among
  · exact bodyNamed ((List.mem_cons.mp among).resolve_left nofun)
  · exact relativeNamed among

theorem unixOfName {seg : Text} (named : Named isSlash seg) : unixComponents seg = [.normal seg] := by
  have relative : seg.head? ≠ some '/' := fun rooted => by
    have slash := named.whole '/' (List.mem_of_mem_head? rooted)
    cases slash
  rw [unixComponents, if_neg relative, relativeOfName named]

theorem unixLawful : Lawful unix (Named isSlash) where
  start := rfl
  one _ named := unixOfName named
  join buf path plain := by
    have front : unixFront path = [] := by
      have among : ∀ c ∈ unixFront path, ∃ seg, c = .normal seg := fun c member =>
        plain c (by simp only [unix, unixFrontBody]; exact List.mem_append_left _ member)
      unfold unixFront at among ⊢
      split
      · rename_i rooted
        simp [rooted] at among
      · rename_i free
        split
        · rename_i dotted
          simp [free, dotted] at among
        · rfl
    simp only [unix] at plain ⊢
    rw [unixJoin front, unixFrontBody path, front, List.nil_append]
end

section
variable {long : Text → Option (Text × Bool × Text)}

def driven (seg : Text) : Bool :=
  match seg with
  | a :: b :: _ => isDriveLetter a && b = ':'
  | _ => false

theorem winRestOfNames {lead : Option PathPrefix} {s : Text} (whole : ∀ c ∈ s, isWinSep c = false) :
    winRest lead s = ⟨lead, false, relative isWinSep s⟩ := by
  cases s with
  | nil => rfl
  | cons c cs => simp [winRest, whole c List.mem_cons_self]

theorem winParseOfNames (long : Text → Option (Text × Bool × Text)) {seg : Text} (whole : ∀ c ∈ seg, isWinSep c = false) :
    ∃ lead rest, winParse long seg = ⟨lead, false, rest⟩ ∧ lead.isSome = driven seg ∧
      (driven seg = false → lead = none ∧ rest = relative isWinSep seg) := by
  rcases seg with _ | ⟨a, _ | ⟨b, rest⟩⟩
  · exact ⟨none, _, rfl, rfl, fun _ => ⟨rfl, rfl⟩⟩
  · exact ⟨none, _, winRestOfNames whole, rfl, fun _ => ⟨rfl, rfl⟩⟩
  · have first := whole a List.mem_cons_self
    have tail : ∀ c ∈ rest, isWinSep c = false := fun c among =>
      whole c (List.mem_cons_of_mem _ (List.mem_cons_of_mem _ among))
    by_cases drive : (isDriveLetter a && b = ':') = true
    · refine ⟨some (.disk a.toUpper), relative isWinSep rest, ?_, drive.symm, fun free => absurd (drive.symm.trans free) nofun⟩
      simp only [winParse, first, Bool.false_and, Bool.false_eq_true, if_false, if_pos drive, winRestOfNames tail]
    · refine ⟨none, _, ?_, by simpa [driven] using drive, fun _ => ⟨rfl, rfl⟩⟩
      simp only [winParse, first, Bool.false_and, Bool.false_eq_true, if_false, if_neg drive, winRestOfNames whole]

theorem winPushNames {buf : WinPath} {names : List Component} (plain : ∀ c ∈ names, ∃ seg, c = .normal seg) :
    winPush buf ⟨none, false, names⟩ = {buf with rest := buf.rest ++ names} := by
  have kept : names.filter (· ≠ .curDir) = names := by
    refine List.filter_eq_self.mpr fun c among => ?_
    obtain ⟨seg, rfl⟩ := plain c among
    rfl
  have pushed : names.foldl verbatimPush buf = {buf with rest := buf.rest ++ names} := by
    clear kept
    induction names generalizing buf with
    | nil => simp
    | cons c names ih =>
      obtain ⟨seg, rfl⟩ := plain c List.mem_cons_self
      rw [List.foldl_cons, ih fun other among => plain other (List.mem_cons_of_mem _ among)]
      simp [verbatimPush]
  unfold winPush
  by_cases verbatim : buf.verbatim = true
  · simpa [verbatim, winComponents] using pushed
  · by_cases start : buf.root = false ∧ buf.rest = []
    · simp [verbatim, start]
    · simpa [verbatim, start] using kept

theorem winPlainShape {path : WinPath} (plain : ∀ c ∈ winComponents path, ∃ seg, c = .normal seg) :
    path = ⟨none, false, winComponents path⟩ := by
  obtain ⟨lead, root, rest⟩ := path
  cases lead with
  | some pathPrefix => simp [winComponents] at plain
  | none => cases root <;> simp [winComponents] at plain ⊢

theorem winLawful (long : Text → Option (Text × Bool × Text)) : Lawful (windows long) (fun seg => Named isWinSep seg ∧ driven seg = false) where
  start := rfl
  one seg plain := by
    obtain ⟨lead, rest, parsed, -, shape⟩ := winParseOfNames long plain.1.whole
    obtain ⟨rfl, rfl⟩ := shape plain.2
    simp [windows, parsed, winComponents, relativeOfName plain.1]
  join buf path plain := by
    simp only [windows] at plain ⊢
    have shape := winPlainShape plain
    rw [shape, winPushNames plain]
    simp [winComponents]

theorem winRestLead (lead : Option PathPrefix) (s : Text) : (winRest lead s).lead = lead := by
  unfold winRest
  split <;> rfl

theorem winParseUnled {s : Text} (unled : (winParse long s).lead = none) : winParse long s = winRest none s := by
  generalize parsed : winParse long s = path at unled
  unfold winParse at parsed
  split at parsed
  · split at parsed
    · split at parsed <;> subst parsed
      · cases unled
      · cases unled
      · rfl
    · split at parsed <;> subst parsed
      · rw [winRestLead] at unled
        cases unled
      · rfl
  · exact parsed.symm

theorem winParseRelative {s : Text} (unled : (winParse long s).lead = none) (free : (winParse long s).root = false) :
    (winParse long s).rest = relative isWinSep s := by
  rw [winParseUnled unled, winRest] at free ⊢
  split
  · rename_i rooted
    rw [if_pos rooted] at free
    cases free
  · rfl

theorem winNamed {s seg : Text} (accepted : ∀ c ∈ winComponents (winParse long s), c = .curDir ∨ ∃ name, c = .normal name)
    (found : seg ∈ normals (winComponents (winParse long s))) : Named isWinSep seg := by
  obtain ⟨c, among, named⟩ := List.mem_filterMap.mp found
  cases c <;> cases named
  have unled : (winParse long s).lead = none := by
    cases lead : (winParse long s).lead with
    | none => rfl
    | some pathPrefix => simpa using accepted (.leading pathPrefix) (by simp [winComponents, lead])
  have free : (winParse long s).root = false := by
    cases root : (winParse long s).root with
    | false => rfl
    | true => simpa using accepted .rootDir (by simp [winComponents, root])
  simp only [winComponents, unled, free, winParseRelative unled free] at among
  exact relativeNamed (by simpa using among)
end

end Silent.StdPath
