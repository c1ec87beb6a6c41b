import Silent.StaticFiles
import Silent.PercentCoding

/-! The page of a directory listing over directories whose names are bytes: which markup
characters it has, and what its displayed names read as. -/
namespace Silent.ListingMarkup
open ByteText StaticFiles

abbrev OsString := List UInt8

abbrev DirEntry := Except Text (OsString × Except Text Bool)

-- `entry.file_name().to_string_lossy()`
def lossyEntry : DirEntry → Except Text (Text × Except Text Bool)
  | .error err => .error err
  | .ok (name, fileType) => .ok (Utf8Text.lossy name, fileType)

def directory (dir : List DirEntry) : FileSystem Unit Unit := ⟨fun _ => some true, fun _ => some (dir.map lossyEntry), fun _ => none⟩

def listing (codec : Codec) (relativePath : Text) (dir : List DirEntry) : Except SilentError Page :=
  renderDirectoryListing codec (directory dir) relativePath ()

def isMarkup (c : Char) : Bool := c = '<' || c = '>' || c = '"' || c = '\''

def markup (html : Text) : Text := html.filter isMarkup

def unescapeHtml : Text → Text
  | '&' :: 'a' :: 'm' :: 'p' :: ';' :: rest => '&' :: unescapeHtml rest
  | '&' :: 'l' :: 't' :: ';' :: rest => '<' :: unescapeHtml rest
  | '&' :: 'g' :: 't' :: ';' :: rest => '>' :: unescapeHtml rest
  | '&' :: 'q' :: 'u' :: 'o' :: 't' :: ';' :: rest => '"' :: unescapeHtml rest
  | '&' :: '#' :: '3' :: '9' :: ';' :: rest => '\'' :: unescapeHtml rest
  | c :: rest => c :: unescapeHtml rest
  | [] => []

theorem unescapeCons {c : Char} (other : c ≠ '&') (rest : Text) : unescapeHtml (c :: rest) = c :: unescapeHtml rest := by
  conv_lhs => unfold unescapeHtml
  split <;> simp_all

@[simp] theorem markupNil : markup [] = [] := rfl

@[simp] theorem markupAppend (s t : Text) : markup (s ++ t) = markup s ++ markup t := List.filter_append ..

theorem markupCong {s s' t t' : Text} (left : markup s = markup s') (right : markup t = markup t') :
    markup (s ++ t) = markup (s' ++ t') := by
  rw [markupAppend, markupAppend, left, right]

theorem markupNone {s : Text} (safe : ∀ c ∈ s, isMarkup c = false) : markup s = [] :=
  List.filter_eq_nil_iff.mpr fun c among => by rw [safe c among]; exact Bool.false_ne_true

theorem escapeCons (c : Char) (s : Text) : ∃ text, escapeHtml (c :: s) = text ++ escapeHtml s ∧
    markup text = [] ∧ ∀ rest, unescapeHtml (text ++ rest) = c :: unescapeHtml rest := by
  refine ⟨_, List.flatMap_cons, ?_⟩
  split
  · rename_i amp
    exact ⟨rfl, fun rest => by rw [amp]; rfl⟩
  · rename_i other
    split
    · rename_i lt
      exact ⟨rfl, fun rest => by rw [lt]; rfl⟩
    · split
      · rename_i gt
        exact ⟨rfl, fun rest => by rw [gt]; rfl⟩
      · split
        · rename_i quot
          exact ⟨rfl, fun rest => by rw [quot]; rfl⟩
        · split
          · rename_i apos
            exact ⟨rfl, fun rest => by rw [apos]; rfl⟩
          · exact ⟨markupNone (by simp_all [isMarkup]), unescapeCons other⟩

theorem unescapeEscape (s rest : Text) : unescapeHtml (escapeHtml s ++ rest) = s ++ unescapeHtml rest := by
  induction s with
  | nil => rfl
  | cons c s ih =>
    obtain ⟨text, escaped, _, reads⟩ := escapeCons c s
    rw [escaped, List.append_assoc, reads, ih]
    rfl

@[simp] theorem markupEscape (s : Text) : markup (escapeHtml s) = [] := by
  induction s with
  | nil => rfl
  | cons c s ih =>
    obtain ⟨text, escaped, bare, _⟩ := escapeCons c s
    rw [escaped, markupAppend, bare, ih]
    rfl

def suffix (isDir : Bool) : Text := if isDir then ['/'] else []

def shown (codec : Codec) (dir : List DirEntry) : List (Text × Text × Text) :=
  dir.filterMap fun
    | .ok (name, .ok isDir) => some (Utf8Text.lossy name, codec.encode (Utf8Text.lossy name), suffix isDir)
    | _ => none

theorem listEntryOk {codec : Codec} {entry : DirEntry} {row : Text × Text × Text}
    (listed : listEntry codec (lossyEntry entry) = .ok row) :
    ∃ name isDir, entry = .ok (name, .ok isDir) ∧
      row = (escapeHtml (Utf8Text.lossy name), codec.encode (Utf8Text.lossy name), suffix isDir) := by
  match entry with
  | .error err => cases listed
  | .ok (name, .error err) => cases listed
  | .ok (name, .ok isDir) =>
    cases listed
    exact ⟨name, isDir, rfl, rfl⟩

def readBack (row : Text × Text × Text) : Text × Text × Text := (unescapeHtml (row.1 ++ row.2.2), row.2.1, row.2.2)

def withSuffix (row : Text × Text × Text) : Text × Text × Text := (row.1 ++ row.2.2, row.2.1, row.2.2)

theorem rowsListed {codec : Codec} {dir : List DirEntry} {rows : List (Text × Text × Text)}
    (listed : (dir.map lossyEntry).mapM (listEntry codec) = .ok rows) :
    rows.length = dir.length ∧ rows.map readBack = (shown codec dir).map withSuffix ∧
      ∀ row ∈ rows, ∃ name isDir, row = (escapeHtml name, codec.encode name, suffix isDir) := by
  induction dir generalizing rows with
  | nil =>
    cases listed
    exact ⟨rfl, rfl, fun row among => by cases among⟩
  | cons entry dir ih =>
    rw [List.map_cons, List.mapM_cons] at listed
    cases first : listEntry codec (lossyEntry entry) with
    | error err =>
      rw [first] at listed
      cases listed
    | ok row =>
      rw [first] at listed
      cases rest : (dir.map lossyEntry).mapM (listEntry codec) with
      | error err =>
        rw [rest] at listed
        cases listed
      | ok rows =>
        rw [rest] at listed
        cases listed
        obtain ⟨count, names, forms⟩ := ih rest
        obtain ⟨name, isDir, rfl, rfl⟩ := listEntryOk first
        refine ⟨congrArg Nat.succ count, ?_, ?_⟩
        · have back : unescapeHtml (suffix isDir) = suffix isDir := by cases isDir <;> rfl
          rw [List.map_cons, names]
          simp only [readBack, unescapeEscape, back]
          rfl
        · intro row among
          rcases List.mem_cons.mp among with rfl | later
          · exact ⟨Utf8Text.lossy name, isDir, rfl⟩
          · exact forms row later

structure Rendered (codec : Codec) (relativePath : Text) (dir : List DirEntry) (page : Page) : Prop where
  parentLink : page.parentLink = decide (relativePath ≠ [])
  count : page.entries.length = dir.length
  names : (page.entries.map readBack).Perm ((shown codec dir).map withSuffix)
  forms : ∀ row ∈ page.entries, ∃ name isDir, row = (escapeHtml name, codec.encode name, suffix isDir)

theorem listingRendered {codec : Codec} {relativePath : Text} {dir : List DirEntry} {page : Page}
    (rendered : listing codec relativePath dir = .ok page) : Rendered codec relativePath dir page := by
  simp only [listing, renderDirectoryListing, directory] at rendered
  cases read : (dir.map lossyEntry).mapM (listEntry codec) with
  | error err =>
    rw [read] at rendered
    cases rendered
  | ok rows =>
    rw [read] at rendered
    cases rendered
    obtain ⟨count, names, forms⟩ := rowsListed read
    exact ⟨rfl, (List.length_mergeSort _).trans count, names ▸ (List.mergeSort_perm _ _).map _,
      fun row among => forms row (List.mem_mergeSort.mp among)⟩

theorem plainUnmarked {c : Char} (plain : PercentCoding.plain c = true) : isMarkup c = false := by
  by_contra marked
  simp only [isMarkup, Bool.not_eq_false, Bool.or_eq_true, decide_eq_true_eq] at marked
  rcases marked with ((rfl | rfl) | rfl) | rfl <;> exact absurd plain (by decide)

def rowText : Text × Text × Text → Text := fun (display, href, suffix) =>
  "<li><a href=\"./".toList ++ href ++ suffix ++ "\">".toList ++ display ++ suffix ++ "</a></li>".toList

def blankRow : Text × Text × Text := ([], [], [])

theorem rowMarkup {display href suffix : Text} (bare : markup display = []) (link : markup href = []) (slash : markup suffix = []) :
    markup (rowText (display, href, suffix)) = markup (rowText blankRow) :=
  markupCong (markupCong (markupCong (markupCong (markupCong (markupCong rfl link) slash) rfl) bare) slash) rfl

theorem rowsMarkup {codec : Codec} (safe : ∀ s, ∀ c ∈ codec.encode s, PercentCoding.plain c = true)
    {rows : List (Text × Text × Text)}
    (forms : ∀ row ∈ rows, ∃ name isDir, row = (escapeHtml name, codec.encode name, suffix isDir)) :
    markup (rows.flatMap rowText) = markup ((List.replicate rows.length blankRow).flatMap rowText) := by
  induction rows with
  | nil => rfl
  | cons row rows ih =>
    obtain ⟨name, isDir, rfl⟩ := forms row List.mem_cons_self
    have slash : markup (suffix isDir) = [] := by cases isDir <;> rfl
    have link : markup (codec.encode name) = [] := markupNone fun c among => plainUnmarked (safe name c among)
    exact markupCong (rowMarkup (markupEscape name) link slash) (ih fun row among => forms row (List.mem_cons_of_mem _ among))

def blankPage (page : Page) : Page := ⟨[], page.parentLink, List.replicate page.entries.length blankRow⟩

theorem bodyMarkup {codec : Codec} (safe : ∀ s, ∀ c ∈ codec.encode s, PercentCoding.plain c = true) {page : Page}
    (forms : ∀ row ∈ page.entries, ∃ name isDir, row = (escapeHtml name, codec.encode name, suffix isDir)) :
    markup page.body = markup (blankPage page).body := by
  have title : markup (escapeHtml page.displayPath) = markup (escapeHtml []) := (markupEscape _).trans (markupEscape _).symm
  refine markupCong (markupCong (markupCong (markupCong (markupCong (markupCong ?head rfl) rfl) rfl) rfl) (rowsMarkup safe forms)) rfl
  exact markupCong (markupCong (markupCong (markupCong rfl title) rfl) rfl) title

/-- Two listings of directories with as many entries have the same markup, and what each
displays for an entry reads as the name of that entry, as far as that name is UTF-8. -/
theorem listingsAlike (codec : Codec) (safe : ∀ s, ∀ c ∈ codec.encode s, PercentCoding.plain c = true)
    (relativePath otherPath : Text) (dir otherDir : List DirEntry) (page other : Page)
    (rendered : listing codec relativePath dir = .ok page) (otherRendered : listing codec otherPath otherDir = .ok other)
    (count : dir.length = otherDir.length) (both : relativePath = [] ↔ otherPath = []) :
    markup page.body = markup other.body ∧
      (page.entries.map readBack).Perm ((shown codec dir).map withSuffix) ∧
      ∀ name : Text, Utf8Text.lossy (Utf8Text.encode name) = name := by
  have first := listingRendered rendered
  have second := listingRendered otherRendered
  refine ⟨?_, first.names, Utf8Text.lossyEncode⟩
  have shape : blankPage page = blankPage other := by
    rw [blankPage, blankPage, first.count, second.count, first.parentLink, second.parentLink, count]
    simp only [ne_eq, both]
  rw [bodyMarkup safe first.forms, bodyMarkup safe second.forms, shape]

def urlCodec : Codec := ⟨PercentCoding.decode, PercentCoding.encode, fun s => s.map Char.toLower⟩

def scriptFile : DirEntry := .ok (Utf8Text.encode "<b>".toList, .ok false)

def quotedDir : DirEntry := .ok (Utf8Text.encode "'&".toList, .ok true)

theorem scriptListedAlike :
    ∃ page other, listing urlCodec [] [scriptFile] = .ok page ∧ listing urlCodec [] [quotedDir] = .ok other ∧
      markup page.body = markup other.body ∧ (page.entries.map readBack).Perm ((shown urlCodec [scriptFile]).map withSuffix) := by
  have alike := listingsAlike urlCodec PercentCoding.encodePlain [] [] [scriptFile] [quotedDir] _ _ rfl rfl rfl Iff.rfl
  exact ⟨_, _, rfl, rfl, alike.1, alike.2.1⟩

theorem oneListed (codec : Codec) (name : OsString) :
    listing codec [] [.ok (name, .ok false)] =
      .ok ⟨['/'], false, [(escapeHtml (Utf8Text.lossy name), codec.encode (Utf8Text.lossy name), [])]⟩ := by
  change Except.ok (Page.mk _ _ (List.mergeSort [_] _)) = _
  rw [List.mergeSort_singleton]
  rfl

theorem brokenNameLost :
    ∃ page, listing urlCodec [] [.ok ([0xFF], .ok false)] = .ok page ∧
      page.entries.map (fun row => Utf8Text.encode (unescapeHtml row.1)) = [[0xEF, 0xBF, 0xBD]] ∧
      listing urlCodec [] [.ok ([0xFE], .ok false)] = .ok page :=
  ⟨_, oneListed urlCodec [0xFF], by decide, oneListed urlCodec [0xFE]⟩

end Silent.ListingMarkup
