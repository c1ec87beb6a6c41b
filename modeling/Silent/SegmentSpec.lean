import Silent.HttpRequest

/-! What a segment takes from the front of a path, said without addresses: an
optional slash, the piece, and the slash that ends it. The matcher is shown to take
exactly such a piece, to leave a suffix, and to capture the piece as a range of the
buffer, with one exception: the empty literal is not in the buffer. -/
namespace Silent.SegmentSpec
open ByteText PathSegment HttpRequest

/- `rest` is `piece` between an optional leading slash and either the end or a slash
followed by `after`. -/
def Framed (rest piece after : Text) : Prop :=
  ∃ lead tail, rest = lead ++ (piece ++ (tail ++ after)) ∧ (lead = [] ∨ lead = ['/']) ∧
    (tail = [] ∧ after = [] ∨ tail = ['/'])

def suffixSlice (full : Slice) (rest : Text) : Slice :=
  ⟨full.ptr + (byteLen full.text - byteLen rest), rest⟩

@[simp] theorem suffixSliceText (full : Slice) (rest : Text) : (suffixSlice full rest).text = rest := rfl

theorem suffixSliceSelf (full : Slice) : suffixSlice full full.text = full := by
  simp [suffixSlice]

theorem suffixOffset {full : Slice} {before rest : Text} (whole : full.text = before ++ rest) :
    byteLen full.text - byteLen rest = byteLen before := by
  rw [whole, byteLenAppend, Nat.add_sub_cancel]

theorem sliceFromSuffix {full : Slice} {rest : Text} (suffix : rest <:+ full.text) :
    (dropBytes full.text (byteLen full.text - byteLen rest)).map (Slice.mk (full.ptr + (byteLen full.text - byteLen rest))) =
      some (suffixSlice full rest) := by
  obtain ⟨before, whole⟩ := suffix
  rw [suffixOffset whole.symm]
  conv_lhs => rw [← whole, dropBytesAppend]
  simp [suffixSlice, suffixOffset whole.symm]

def trimSlash : Text → Text
  | '/' :: rest => rest
  | rest => rest

def firstSegment (rest : Text) : Text := (splitFirst '/' (trimSlash rest)).1

def afterSegment (rest : Text) : Text := (splitFirst '/' (trimSlash rest)).2

theorem trimSlashLead (rest : Text) :
    ∃ lead, rest = lead ++ trimSlash rest ∧ (lead = [] ∨ lead = ['/']) := by
  unfold trimSlash
  split
  · exact ⟨['/'], rfl, .inr rfl⟩
  · exact ⟨[], rfl, .inl rfl⟩

@[simp] theorem stripLeadingSlashText (path : Slice) :
    (stripLeadingSlash path).text = trimSlash path.text := by
  unfold stripLeadingSlash trimSlash
  split <;> simp_all

theorem splitFirstFramed (s : Text) :
    ∃ tail, s = (splitFirst '/' s).1 ++ (tail ++ (splitFirst '/' s).2) ∧
      (tail = [] ∧ (splitFirst '/' s).2 = [] ∨ tail = ['/']) := by
  by_cases slash : '/' ∈ s
  · exact ⟨['/'], by simpa using (splitFirstAt slash).1, .inr rfl⟩
  · rw [splitFirstAbsent slash]
    exact ⟨[], by simp, .inl ⟨rfl, rfl⟩⟩

theorem segmentFramed (rest : Text) : Framed rest (firstSegment rest) (afterSegment rest) := by
  obtain ⟨lead, whole, slash⟩ := trimSlashLead rest
  obtain ⟨tail, parts, ends⟩ := splitFirstFramed (trimSlash rest)
  refine ⟨lead, tail, ?_, slash, ends⟩
  conv_lhs => rw [whole, parts]
  rfl

theorem stripOneSegmentText (plat : Platform) (path : Slice) :
    (stripOneSegment plat path).1.text = firstSegment path.text ∧
      (stripOneSegment plat path).2.text = afterSegment path.text := by
  simp only [stripOneSegment, firstSegment, afterSegment, stripLeadingSlashText]
  by_cases empty : trimSlash path.text = []
  · simp [empty, splitFirst, Platform.literal]
  · simp only [if_neg empty]
    split
    · rename_i c rest found
      exact ⟨rfl, by simp only [splitFirst, found, List.drop_succ_cons, List.drop_zero]⟩
    · rename_i found
      have whole := List.takeWhile_append_dropWhile (p := (· ≠ '/')) (l := trimSlash path.text)
      rw [found, List.append_nil] at whole
      refine ⟨?_, by simp only [splitFirst, found, List.drop_nil, Platform.literal]⟩
      exact (stripLeadingSlashText path).trans whole.symm

theorem stripOneSegmentPtr (plat : Platform) {path : Slice} (more : trimSlash path.text ≠ []) :
    (stripOneSegment plat path).1.ptr = (stripLeadingSlash path).ptr := by
  simp only [stripOneSegment, stripLeadingSlashText, if_neg more]
  split <;> rfl

theorem stripOneSegmentEmpty (plat : Platform) {path : Slice} (empty : trimSlash path.text = []) :
    (stripOneSegment plat path).1 = plat.literal := by
  simp [stripOneSegment, empty]

theorem matchStaticText (plat : Platform) {value : Text} (named : value ≠ []) (path : Slice) (after : Text) :
    (matchStaticSegment plat value path).map Slice.text = some after ↔
      trimSlash path.text = value ∧ after = [] ∨ trimSlash path.text = value ++ '/' :: after := by
  simp only [matchStaticSegment, if_neg named, stripLeadingSlashText]
  generalize trimSlash path.text = trimmed
  by_cases same : trimmed = value
  · subst same
    simp [Platform.literal, eq_comm]
  · rw [if_neg same]
    simp only [same, false_and, false_or]
    constructor
    · intro matched
      split at matched
      · rename_i starts
        obtain ⟨rest, whole⟩ := List.isPrefixOf_iff_prefix.mp starts.2
        subst whole
        rw [List.drop_left] at matched
        split at matched
        · rename_i tail
          simpa using matched
        · simp at matched
      · simp at matched
    · rintro rfl
      have longer : byteLen value < byteLen (value ++ '/' :: after) := by
        simp only [byteLenAppend, byteLenCons, byteLenSlash]
        omega
      have starts : value.isPrefixOf (value ++ '/' :: after) = true :=
        List.isPrefixOf_iff_prefix.mpr (List.prefix_append _ _)
      simp [longer, starts, -byteLenAppend]

def parses (plat : Platform) (segment : SpecialSeg) (piece : Text) : Prop :=
  match segment with
  | .int _ | .i32 _ => (parseI32 piece).isSome
  | .i64 _ => (parseI64 piece).isSome
  | .u64 _ => (parseU64 piece).isSome
  | .u32 _ => (parseU32 piece).isSome
  | .uuid _ => (plat.parseUuid piece).isSome
  | _ => True

/- From `rest` on, the segment takes `piece` and leaves `after`; nothing but slashes
stands around the piece. A root segment takes nothing, except a last slash. -/
def Takes (plat : Platform) (segment : SpecialSeg) (rest after : Text) : Prop :=
  match segment with
  | .root => after = rest ∨ rest = ['/'] ∧ after = []
  | .static value => value = [] ∧ after = rest ∨ value ≠ [] ∧ Framed rest value after
  | .path _ => Framed rest (firstSegment rest) after
  | .fullPath _ => Framed rest (firstSegment rest) after
  | _ => firstSegment rest ≠ [] ∧ parses plat segment (firstSegment rest) ∧ Framed rest (firstSegment rest) after

theorem matchParsedText {α : Type} {plat : Platform} {parse : Text → Option α}
    {capture : α → PathMatchCapture} {path : Slice} {found : PathMatch}
    (matched : matchParsed plat parse capture path = some found) :
    firstSegment path.text ≠ [] ∧ found.remain.text = afterSegment path.text ∧
      ∃ v, parse (firstSegment path.text) = some v ∧ found.capture = some (capture v) := by
  obtain ⟨first, after⟩ := stripOneSegmentText plat path
  simp only [matchParsed, first] at matched
  split at matched
  · contradiction
  · rename_i named
    split at matched
    · rename_i v parsed
      cases Option.some.inj matched
      exact ⟨named, after, v, parsed, rfl⟩
    · contradiction

theorem matchSegmentTakes {plat : Platform} {segment : SpecialSeg} {childless : Bool} {path full : Slice}
    {found : PathMatch} (matched : matchSegment plat segment childless path full = some found) :
    Takes plat segment path.text found.remain.text := by
  obtain ⟨first, after⟩ := stripOneSegmentText plat path
  have framed := segmentFramed path.text
  cases segment with
  | root =>
    simp only [matchSegment] at matched
    by_cases slash : path.text = ['/']
    · simp only [if_pos slash, Platform.literal, ne_eq, not_true, false_and, if_false, Option.some.injEq] at matched
      subst matched
      exact .inr ⟨slash, rfl⟩
    · simp only [if_neg slash] at matched
      split at matched
      · contradiction
      · cases Option.some.inj matched
        exact .inl rfl
  | static value =>
    simp only [matchSegment, Option.map_eq_some_iff] at matched
    obtain ⟨remain, taken, rfl⟩ := matched
    by_cases named : value = []
    · simp only [matchStaticSegment, if_pos named, Option.some.injEq] at taken
      exact .inl ⟨named, by rw [taken]⟩
    · have texts := (matchStaticText plat named path remain.text).mp (by rw [taken]; rfl)
      obtain ⟨lead, whole, slash⟩ := trimSlashLead path.text
      refine .inr ⟨named, ?_⟩
      rcases texts with ⟨exact_, empty⟩ | more
      · exact ⟨lead, [], by rw [empty, List.append_nil, List.append_nil, ← exact_]; exact whole, slash, .inl ⟨rfl, empty⟩⟩
      · exact ⟨lead, ['/'], by rw [List.singleton_append, ← more]; exact whole, slash, .inr rfl⟩
  | string key =>
    simp only [matchSegment, first] at matched
    split at matched
    · contradiction
    · rename_i named
      cases Option.some.inj matched
      exact ⟨named, trivial, by rw [after]; exact framed⟩
  | path key | fullPath key =>
    simp only [matchSegment, Option.some.injEq] at matched
    subst matched
    simpa only [Takes, after] using framed
  | int key | i32 key | i64 key | u64 key | u32 key | uuid key =>
    obtain ⟨named, remain, v, parsed, _⟩ := matchParsedText matched
    exact ⟨named, by simp [parses, parsed], by rw [remain]; exact framed⟩

theorem matchSegmentSuffix {plat : Platform} {segment : SpecialSeg} {childless : Bool} {path full : Slice}
    {found : PathMatch} (matched : matchSegment plat segment childless path full = some found) :
    found.remain.text <:+ path.text := by
  have framedSuffix : ∀ {rest piece after}, Framed rest piece after → after <:+ rest := by
    rintro rest piece after ⟨lead, tail, whole, _⟩
    exact ⟨lead ++ (piece ++ tail), by simp [whole]⟩
  have taken := matchSegmentTakes matched
  cases segment with
  | root =>
    rcases taken with same | ⟨_, empty⟩
    · exact same ▸ List.suffix_rfl
    · exact empty ▸ List.nil_suffix
  | static value =>
    rcases taken with ⟨_, same⟩ | ⟨_, framed⟩
    · exact same ▸ List.suffix_rfl
    · exact framedSuffix framed
  | path key => exact framedSuffix taken
  | fullPath key => exact framedSuffix taken
  | string key | int key | i32 key | i64 key | u64 key | u32 key | uuid key =>
    exact framedSuffix taken.2.2

end Silent.SegmentSpec
