import Mathlib.Data.List.Induction
import Silent.StdPath

/-! `HandlerWrapperStatic` over any rules for paths and any file system. Percent decoding
and encoding, and Unicode lower case, are whatever functions they are. The response made of
an opened file is left at its target and its content. -/
namespace Silent.StaticFiles
open ByteText StdPath

variable {P F : Type}

structure Codec where
  decode : Text → Option Text
  encode : Text → Text
  toLowercase : Text → Text

structure StaticOptions where
  directoryListing : Bool

structure HandlerWrapperStatic (P : Type) where
  root : P
  options : StaticOptions

-- An entry fails to be read, or its name is there and the question for its type may fail.
structure FileSystem (P F : Type) where
  isDir : P → Option Bool
  readDir : P → Option (List (Except Text (Text × Except Text Bool)))
  openFile : P → Option F

structure Page where
  displayPath : Text
  parentLink : Bool
  entries : List (Text × Text × Text)
  deriving DecidableEq

inductive Answer (P F : Type) where
  | listing (page : Page)
  | file (target : P) (content : F)

structure SilentError where
  code : Nat
  msg : Text
  deriving DecidableEq

inductive Access (P : Type) where
  | metadata (path : P)
  | readDir (path : P)
  | openFile (path : P)

def Access.path : Access P → P
  | .metadata path | .readDir path | .openFile path => path

def Access.opens : Access P → Bool
  | .metadata _ => false
  | .readDir _ | .openFile _ => true

def notFound : SilentError := ⟨404, "Not Found".toList⟩

def escapeHtml (input : Text) : Text :=
  input.flatMap fun c =>
    if c = '&' then "&amp;".toList
    else if c = '<' then "&lt;".toList
    else if c = '>' then "&gt;".toList
    else if c = '"' then "&quot;".toList
    else if c = '\'' then "&#39;".toList
    else [c]

def listEntry (codec : Codec) : Except Text (Text × Except Text Bool) → Except SilentError (Text × Text × Text)
  | .error err => .error ⟨500, "Read dir failed: ".toList ++ err⟩
  | .ok (_, .error err) => .error ⟨500, "Read dir entry failed: ".toList ++ err⟩
  | .ok (name, .ok isDir) => .ok (escapeHtml name, codec.encode name, if isDir then ['/'] else [])

def textLe : Text → Text → Bool
  | [], _ => true
  | _ :: _, [] => false
  | a :: s, b :: t => a.val < b.val || a.val = b.val && textLe s t

def displayPath (relativePath : Text) : Text := if relativePath = [] then ['/'] else '/' :: relativePath

def renderDirectoryListing (codec : Codec) (fs : FileSystem P F) (relativePath : Text) (target : P) : Except SilentError Page :=
  match fs.readDir target with
  | none => .error notFound
  | some dir => do
      let entries ← dir.mapM (listEntry codec)
      .ok ⟨displayPath relativePath, relativePath ≠ [], entries.mergeSort (fun a b => textLe (codec.toLowercase a.1) (codec.toLowercase b.1))⟩

def Page.body (self : Page) : Text :=
  "<!DOCTYPE html><html><head><meta charset=\"utf-8\"><title>Index of ".toList ++ escapeHtml self.displayPath ++
  "</title><style>body\x7bfont-family:monospace;\x7da\x7btext-decoration:none;\x7dul\x7blist-style:none;padding-left:0;\x7d</style></head><body>".toList ++
  "<h1>Index of ".toList ++ escapeHtml self.displayPath ++ "</h1>".toList ++
  "<ul>".toList ++ "<li><a href=\"./\">./</a></li>".toList ++
  (if self.parentLink then "<li><a href=\"../\">../</a></li>".toList else []) ++
  self.entries.flatMap (fun (display, href, suffix) =>
    "<li><a href=\"./".toList ++ href ++ suffix ++ "\">".toList ++ display ++ suffix ++ "</a></li>".toList) ++
  "</ul></body></html>".toList

section
variable (rules : Rules P)

def sanitizeStep (sanitized : P) : Component → Option P
  | .normal seg => some (rules.push sanitized (rules.parse seg))
  | .curDir => some sanitized
  | .parentDir | .rootDir | .leading _ => none

def sanitizePathParam (trimmed : Text) : Option P :=
  (rules.components (rules.parse trimmed)).foldlM (sanitizeStep rules) (rules.parse [])

def normalizedRequestPath (sanitized : P) (endsWithSlash : Bool) : Text :=
  let parts := normals (rules.components sanitized)
  if parts = [] then []
  else ['/'].intercalate parts ++ if endsWithSlash then ['/'] else []

def trimStart (decoded : Text) : Text := decoded.dropWhile (· = '/')

-- Next to the result, what is asked of the file system, in order.
def HandlerWrapperStatic.call (codec : Codec) (fs : FileSystem P F) (self : HandlerWrapperStatic P) (param : Option Text) :
    Except SilentError (Answer P F) × List (Access P) :=
  match param.bind codec.decode with
  | none => (.error notFound, [])
  | some decoded =>
      let endsWithSlash : Bool := decoded.getLast? = some '/' || decoded = []
      match sanitizePathParam rules (trimStart decoded) with
      | none => (.error notFound, [])
      | some sanitized =>
          let normalized := normalizedRequestPath rules sanitized endsWithSlash
          let fsPath := rules.push self.root sanitized
          let isDir := endsWithSlash || (fs.isDir fsPath).getD false
          if self.options.directoryListing && isDir then
            ((renderDirectoryListing codec fs normalized fsPath).map .listing, [.metadata fsPath, .readDir fsPath])
          else
            let targetPath := if isDir then rules.push fsPath (rules.parse "index.html".toList) else fsPath
            (match fs.openFile targetPath with
              | some content => .ok (.file targetPath content)
              | none => .error notFound, [.metadata fsPath, .openFile targetPath])

end

def accepted : Component → Bool
  | .normal _ | .curDir => true
  | .parentDir | .rootDir | .leading _ => false

section
variable {rules : Rules P}

theorem sanitizeFold (components : List Component) (buf : P) :
    components.foldlM (sanitizeStep rules) buf =
      if components.all accepted then some ((normals components).foldl (fun buf seg => rules.push buf (rules.parse seg)) buf)
      else none := by
  induction components generalizing buf with
  | nil => rfl
  | cons c components ih =>
    rw [List.foldlM_cons]
    cases c with
    | normal seg => exact ih (rules.push buf (rules.parse seg))
    | curDir => exact ih buf
    | parentDir => rfl
    | rootDir => rfl
    | leading pathPrefix => rfl

def sanitizedOf (rules : Rules P) (decoded : Text) : P :=
  (normals (rules.components (rules.parse (trimStart decoded)))).foldl (fun buf seg => rules.push buf (rules.parse seg)) (rules.parse [])

def Refuses (rules : Rules P) (codec : Codec) (param : Option Text) : Prop :=
  ∀ decoded, param.bind codec.decode = some decoded → (rules.components (rules.parse (trimStart decoded))).all accepted = false

variable {codec : Codec} {fs : FileSystem P F} {self : HandlerWrapperStatic P} {param : Option Text}

theorem callRefused (refused : Refuses rules codec param) : self.call rules codec fs param = (.error notFound, []) := by
  unfold HandlerWrapperStatic.call
  cases read : param.bind codec.decode with
  | none => rfl
  | some decoded =>
    have unaccepted := refused decoded read
    simp [sanitizePathParam, sanitizeFold, unaccepted]

theorem sanitizedParam {decoded : Text} (fine : (rules.components (rules.parse (trimStart decoded))).all accepted = true) :
    sanitizePathParam rules (trimStart decoded) = some (sanitizedOf rules decoded) := by
  rw [sanitizePathParam, sanitizeFold, if_pos fine, sanitizedOf]

theorem callAccess {decoded : Text} (read : param.bind codec.decode = some decoded)
    (fine : (rules.components (rules.parse (trimStart decoded))).all accepted = true) {access : Access P}
    (asked : access ∈ (self.call rules codec fs param).2) :
    access.path = rules.push self.root (sanitizedOf rules decoded) ∨
      access.path = rules.push (rules.push self.root (sanitizedOf rules decoded)) (rules.parse "index.html".toList) := by
  simp only [HandlerWrapperStatic.call, read, sanitizedParam fine] at asked
  split at asked
  · simp only [List.mem_cons, List.not_mem_nil, or_false] at asked
    rcases asked with rfl | rfl <;> exact .inl rfl
  · simp only [List.mem_cons, List.not_mem_nil, or_false] at asked
    rcases asked with rfl | rfl
    · exact .inl rfl
    · simp only [Access.path]
      split
      · exact .inr rfl
      · exact .inl rfl

theorem renderedPath {relativePath : Text} {target : P} {page : Page}
    (rendered : renderDirectoryListing codec fs relativePath target = .ok page) : page.displayPath = displayPath relativePath := by
  unfold renderDirectoryListing at rendered
  split at rendered
  · cases rendered
  · rename_i dir _
    cases read : dir.mapM (listEntry codec) with
    | error err =>
      simp only [read] at rendered
      cases rendered
    | ok entries =>
      simp only [read] at rendered
      cases rendered
      rfl

theorem callListing {decoded : Text} {page : Page} (read : param.bind codec.decode = some decoded)
    (fine : (rules.components (rules.parse (trimStart decoded))).all accepted = true)
    (listed : (self.call rules codec fs param).1 = .ok (.listing page)) :
    ∃ slash, page.displayPath = displayPath (normalizedRequestPath rules (sanitizedOf rules decoded) slash) := by
  simp only [HandlerWrapperStatic.call, read, sanitizedParam fine] at listed
  split at listed
  · refine ⟨decoded.getLast? = some '/' || decoded = [], ?_⟩
    simp only at listed
    generalize rendered : renderDirectoryListing codec fs _ _ = outcome at listed
    cases outcome with
    | error err => cases listed
    | ok shown =>
      cases listed
      exact renderedPath rendered
  · split at listed <;> cases listed

theorem sanitizedComponents {Plain : Text → Prop} (lawful : Lawful rules Plain) {decoded : Text}
    (plain : ∀ seg ∈ normals (rules.components (rules.parse (trimStart decoded))), Plain seg) :
    rules.components (sanitizedOf rules decoded) =
      (normals (rules.components (rules.parse (trimStart decoded)))).map .normal := by
  rw [sanitizedOf, pushedComponents lawful plain, lawful.start, List.nil_append]

theorem joinedComponents {Plain : Text → Prop} (lawful : Lawful rules Plain) {decoded : Text} (root : P)
    (plain : ∀ seg ∈ normals (rules.components (rules.parse (trimStart decoded))), Plain seg) :
    rules.components (rules.push root (sanitizedOf rules decoded)) =
      rules.components root ++ (normals (rules.components (rules.parse (trimStart decoded)))).map .normal := by
  have inner := sanitizedComponents lawful plain
  rw [lawful.join _ _ (by simp [inner]), inner]

theorem indexComponents {Plain : Text → Prop} (lawful : Lawful rules Plain) (index : Plain "index.html".toList) (path : P) :
    rules.components (rules.push path (rules.parse "index.html".toList)) = rules.components path ++ [.normal "index.html".toList] := by
  have one := lawful.one _ index
  rw [lawful.join _ _ (by rw [one]; simp), one]

end

section
theorem unixNormals (path : Text) : normals (unixComponents path) = normals (body isSlash path) := by
  unfold unixComponents relative
  split
  · rfl
  · split <;> rfl

theorem bodySlash (s : Text) : body isSlash ('/' :: s) = body isSlash s := by
  have apart : body isSlash ([] ++ '/' :: s) = body isSlash [] ++ body isSlash s := bodyAt rfl [] s
  simpa [body, piece] using apart

theorem trimStartNormals (decoded : Text) :
    normals (unixComponents (trimStart decoded)) = normals (unixComponents decoded) := by
  rw [unixNormals, unixNormals]
  unfold trimStart
  induction decoded with
  | nil => rfl
  | cons c cs ih =>
    by_cases slash : c = '/'
    · simpa [slash, bodySlash] using ih
    · simp [slash]

theorem joinedBody {names : List Text} (named : ∀ name ∈ names, Named isSlash name) (full : names ≠ []) :
    body isSlash (['/'].intercalate names) = names.map .normal := by
  induction names with
  | nil => exact absurd rfl full
  | cons name names ih =>
    have first := named name List.mem_cons_self
    have alone : body isSlash name = [.normal name] := by
      simp [body, List.splitOnP_eq_singleton first.whole, pieceOfName first.full first.current first.parent]
    cases names with
    | nil => simpa [List.intercalate] using alone
    | cons next names =>
      have rest := ih (fun other among => named other (List.mem_cons_of_mem _ among)) (List.cons_ne_nil _ _)
      have apart : ['/'].intercalate (name :: next :: names) = name ++ '/' :: ['/'].intercalate (next :: names) := by
        simp [List.intercalate]
      rw [apart, bodyAt rfl, alone, rest]
      rfl

theorem shownComponents {sanitized : Text} {names : List Text} (named : ∀ name ∈ names, Named isSlash name)
    (components : unixComponents sanitized = names.map .normal) (slash : Bool) :
    unixComponents (displayPath (normalizedRequestPath unix sanitized slash)) = .rootDir :: names.map .normal := by
  have parts : normals (unixComponents sanitized) = names := by
    rw [components, normals, List.filterMap_map]
    exact List.filterMap_some
  have rooted (s : Text) : unixComponents ('/' :: s) = .rootDir :: body isSlash s := by simp [unixComponents, bodySlash]
  unfold normalizedRequestPath
  simp only [unix, parts]
  by_cases empty : names = []
  · simp [empty, displayPath, rooted, body, piece]
  · obtain ⟨name, rest, rfl⟩ := List.exists_cons_of_ne_nil empty
    have filled : ['/'].intercalate (name :: rest) ≠ [] := fun nothing => by
      have inner := joinedBody named empty
      simp [nothing, body, piece] at inner
    rw [if_neg empty, displayPath, if_neg (by simp [filled]), rooted]
    cases slash with
    | false => simpa using joinedBody named empty
    | true =>
      rw [if_pos rfl, bodyAt rfl, joinedBody named empty]
      simp [body, piece]

theorem unixStaysUnderRoot (codec : Codec) (fs : FileSystem Text F) (self : HandlerWrapperStatic Text) (param : Option Text) :
    self.call unix codec fs param = (.error notFound, []) ∨
    ∃ decoded, param.bind codec.decode = some decoded ∧
      (∀ name ∈ normals (unixComponents decoded), Named isSlash name) ∧
      (∀ access ∈ (self.call unix codec fs param).2,
        unixComponents access.path = unixComponents self.root ++ (normals (unixComponents decoded)).map .normal ∨
        unixComponents access.path =
          unixComponents self.root ++ (normals (unixComponents decoded) ++ ["index.html".toList]).map .normal) ∧
      ∀ page, (self.call unix codec fs param).1 = .ok (.listing page) →
        unixComponents page.displayPath = .rootDir :: (normals (unixComponents decoded)).map .normal := by
  by_cases refused : Refuses unix codec param
  · exact .inl (callRefused refused)
  · simp only [Refuses, not_forall, Bool.not_eq_false] at refused
    obtain ⟨decoded, read, fine⟩ := refused
    have trimmed : normals (unix.components (unix.parse (trimStart decoded))) = normals (unixComponents decoded) :=
      trimStartNormals decoded
    have named : ∀ name ∈ normals (unixComponents decoded), Named isSlash name := fun name among => unixNamed among
    have plain : ∀ seg ∈ normals (unix.components (unix.parse (trimStart decoded))), Named isSlash seg := trimmed ▸ named
    refine .inr ⟨decoded, read, named, fun access asked => ?_, fun page listed => ?_⟩
    · have joined := joinedComponents unixLawful self.root plain
      rw [trimmed] at joined
      rcases callAccess read fine asked with same | same
      · exact .inl (same ▸ joined)
      · have index : Named isSlash "index.html".toList := ⟨by simp [isSlash], by decide, by decide, by decide⟩
        have last := indexComponents unixLawful index (unix.push self.root (sanitizedOf unix decoded))
        rw [joined] at last
        right
        rw [same, List.map_append, ← List.append_assoc]
        exact last
    · obtain ⟨slash, shown⟩ := callListing read fine listed
      have inner := sanitizedComponents unixLawful plain
      rw [trimmed] at inner
      exact shown ▸ shownComponents named inner slash
end

section
variable (long : Text → Option (Text × Bool × Text))

def redirected (names : List Text) : Option WinPath :=
  names.foldl (fun path name =>
    if driven name then some (winParse long name) else path.map fun path => {path with rest := path.rest ++ [.normal name]}) none

def Confined (codec : Codec) (root : WinPath) (param : Option Text) : Prop :=
  ∀ (fs : FileSystem WinPath F) options,
    ((⟨root, options⟩ : HandlerWrapperStatic WinPath).call (windows long) codec fs param).1 = .error notFound ∨
    ∀ access ∈ ((⟨root, options⟩ : HandlerWrapperStatic WinPath).call (windows long) codec fs param).2, access.opens = true →
      winComponents root <+: winComponents access.path

variable {long}

theorem redirectedSnoc (names : List Text) (name : Text) :
    redirected long (names ++ [name]) =
      if driven name then some (winParse long name)
      else (redirected long names).map fun path => {path with rest := path.rest ++ [.normal name]} := by
  rw [redirected, List.foldl_append]
  rfl

theorem redirectedLead {names : List Text} {path : WinPath} (named : ∀ name ∈ names, Named isWinSep name)
    (found : redirected long names = some path) : path.lead.isSome = true := by
  induction names using List.reverseRecOn generalizing path with
  | nil => cases found
  | append_singleton names name ih =>
    rw [redirectedSnoc] at found
    split at found
    · rename_i drive
      obtain ⟨lead, rest, parsed, some, -⟩ := winParseOfNames long (named name (by simp)).whole
      cases Option.some.inj found
      rw [parsed]
      exact some.trans drive
    · obtain ⟨before, earlier, rfl⟩ := Option.map_eq_some_iff.mp found
      have lead : before.lead.isSome = true := ih (fun other among => named other (List.mem_append_left _ among)) earlier
      exact lead

theorem redirectedNone {names : List Text} (found : redirected long names = none) : ∀ name ∈ names, driven name = false := by
  induction names using List.reverseRecOn with
  | nil => nofun
  | append_singleton names name ih =>
    rw [redirectedSnoc] at found
    split at found
    · cases found
    · rename_i undriven
      intro other among
      rcases List.mem_append.mp among with before | last
      · exact ih (Option.map_eq_none_iff.mp found) other before
      · exact List.mem_singleton.mp last ▸ Bool.eq_false_iff.mpr undriven

theorem pushedRedirected {names : List Text} {path : WinPath} (named : ∀ name ∈ names, Named isWinSep name)
    (found : redirected long names = some path) (buf : WinPath) :
    names.foldl (fun buf seg => winPush buf (winParse long seg)) buf = path := by
  induction names using List.reverseRecOn generalizing path with
  | nil => cases found
  | append_singleton names name ih =>
    obtain ⟨lead, rest, parsed, some, shape⟩ := winParseOfNames long (named name (by simp)).whole
    rw [redirectedSnoc] at found
    rw [List.foldl_append, List.foldl_cons, List.foldl_nil]
    split at found
    · rename_i drive
      cases Option.some.inj found
      rw [winPush, if_pos (by rw [parsed]; exact some.trans drive)]
    · rename_i undriven
      obtain ⟨before, earlier, rfl⟩ := Option.map_eq_some_iff.mp found
      obtain ⟨rfl, rfl⟩ := shape (Bool.eq_false_iff.mpr undriven)
      have single := relativeOfName (named name (by simp))
      rw [ih (fun other among => named other (List.mem_append_left _ among)) earlier, parsed, single,
        winPushNames (by simp)]

theorem acceptedNamed {s : Text} (fine : (winComponents (winParse long s)).all accepted = true) :
    ∀ name ∈ normals (winComponents (winParse long s)), Named isWinSep name := by
  intro name among
  refine winNamed (fun c member => ?_) among
  have kept := List.all_eq_true.mp fine c member
  cases c with
  | normal seg => exact .inr ⟨seg, rfl⟩
  | curDir => exact .inl rfl
  | _ => cases kept

theorem joinedRedirected {decoded : Text} {path : WinPath} (root : WinPath)
    (fine : (winComponents (winParse long (trimStart decoded))).all accepted = true)
    (found : redirected long (normals (winComponents (winParse long (trimStart decoded)))) = some path) :
    winPush root (sanitizedOf (windows long) decoded) = path := by
  have named := acceptedNamed fine
  have pushed : sanitizedOf (windows long) decoded = path := pushedRedirected named found _
  rw [pushed, winPush, if_pos (redirectedLead named found)]

def hollow : FileSystem WinPath F := ⟨fun _ => some true, fun _ => some [], fun _ => none⟩

theorem hollowListing {codec : Codec} (root : WinPath) {param : Option Text} {decoded : Text}
    (read : param.bind codec.decode = some decoded)
    (fine : (winComponents (winParse long (trimStart decoded))).all accepted = true) :
    ∃ page, (⟨root, ⟨true⟩⟩ : HandlerWrapperStatic WinPath).call (windows long) codec (hollow : FileSystem WinPath F) param =
      (.ok (.listing page), [.metadata (winPush root (sanitizedOf (windows long) decoded)),
        .readDir (winPush root (sanitizedOf (windows long) decoded))]) := by
  have sanitized : sanitizePathParam (windows long) (trimStart decoded) = some (sanitizedOf (windows long) decoded) :=
    sanitizedParam fine
  simp only [HandlerWrapperStatic.call, read, sanitized, hollow, Option.getD_some, Bool.or_true, Bool.and_self, if_true]
  exact ⟨_, rfl⟩

theorem confinedExtends {codec : Codec} {root : WinPath} {param : Option Text} (decoded : Text) {path : WinPath}
    (confined : Confined (F := F) long codec root param) (read : param.bind codec.decode = some decoded)
    (fine : (winComponents (winParse long (trimStart decoded))).all accepted = true)
    (found : redirected long (normals (winComponents (winParse long (trimStart decoded)))) = some path) :
    winComponents root <+: winComponents path := by
  obtain ⟨page, outcome⟩ := hollowListing (F := F) root read fine
  have kept := confined hollow ⟨true⟩
  rw [outcome] at kept
  have opened := kept.resolve_left nofun (.readDir (winPush root (sanitizedOf (windows long) decoded))) (by simp) rfl
  simpa only [Access.path, joinedRedirected root fine found] using opened

theorem windowsConfined (codec : Codec) (root : WinPath) (param : Option Text) :
    Confined (F := F) long codec root param ↔
      ∀ decoded path, param.bind codec.decode = some decoded →
        (winComponents (winParse long (trimStart decoded))).all accepted = true →
        redirected long (normals (winComponents (winParse long (trimStart decoded)))) = some path →
          winComponents root <+: winComponents path := by
  constructor
  · exact fun confined _ _ read fine found => confinedExtends _ confined read fine found
  · intro extends_ fs options
    by_cases refused : Refuses (windows long) codec param
    · exact .inl (congrArg Prod.fst (callRefused refused))
    · simp only [Refuses, not_forall, Bool.not_eq_false] at refused
      obtain ⟨decoded, read, fine⟩ := refused
      have base : winComponents root <+: winComponents (winPush root (sanitizedOf (windows long) decoded)) := by
        cases found : redirected long (normals (winComponents (winParse long (trimStart decoded)))) with
        | some path => exact joinedRedirected root fine found ▸ extends_ decoded path read fine found
        | none =>
          have named := acceptedNamed fine
          have plain : ∀ seg ∈ normals ((windows long).components ((windows long).parse (trimStart decoded))),
              Named isWinSep seg ∧ driven seg = false := fun seg among => ⟨named seg among, redirectedNone found seg among⟩
          exact ⟨_, (joinedComponents (winLawful long) root plain).symm⟩
      refine .inr fun access asked _ => ?_
      rcases callAccess read fine asked with same | same
      · exact same ▸ base
      · have index : Named isWinSep "index.html".toList ∧ driven "index.html".toList = false :=
          ⟨⟨by simp [isWinSep], by decide, by decide, by decide⟩, by decide⟩
        have last := indexComponents (winLawful long) index (winPush root (sanitizedOf (windows long) decoded))
        rw [same]
        exact base.trans ⟨_, last.symm⟩

def wwwRoot : WinPath := winParse (fun _ => none) "C:\\www".toList

def plainCodec : Codec := ⟨some, id, id⟩

theorem driveLeavesRoot : ¬Confined (F := Unit) (fun _ => none) plainCodec wwwRoot (some "x/D:secret.txt".toList) := by
  intro confined
  have extended : winComponents wwwRoot <+: winComponents ⟨some (.disk 'D'), false, [.normal "secret.txt".toList]⟩ :=
    confinedExtends "x/D:secret.txt".toList confined rfl (by decide) (by decide)
  exact absurd extended (by decide)
end

end Silent.StaticFiles
