import Silent.OpenApiWalk

/-! Which keys the document of a route tree has, and which parameters their operations
declare. The router reads a path segment by segment; the two loops of the documentation
read the whole text. They agree as long as what they find between angle brackets are the
special segments and nothing else. -/
namespace Silent.OpenApiPaths
open ByteText PathSegment HttpRequest RouteBuilder RouteShape TextScan OpenApiRoute OpenApiWalk

def inner (seg : Text) : Text := (seg.drop 1).dropLast

def nameOf (seg : Text) : Text := (splitFirst ':' (inner seg)).1

def written (seg : Text) : Text := if isSpecial seg then '{' :: (nameOf seg ++ ['}']) else seg

-- No closing sign after the first opening one, in this text or in the later segments.
def unclosed (opening closing : Char) (text : Text) (later : List Text) : Prop :=
  opening ∈ text → closing ∉ (splitFirst opening text).2 ∧ ∀ seg ∈ later, closing ∉ seg

def Angles : List Text → Prop
  | [] => True
  | seg :: rest => unclosed '<' '>' (written seg) rest ∧ Angles rest

def Braces : List Text → Prop
  | [] => True
  | seg :: rest => (isSpecial seg = false → unclosed '{' '}' seg (rest.map written)) ∧ Braces rest

/- A special segment is not part of another that the loop has still to come to when it
replaces the first one's text; `before` is what stands before. -/
def Apart : List Text → List Text → Prop
  | _, [] => True
  | before, seg :: rest =>
      (isSpecial seg = true → ∀ other ∈ rest, isSpecial other = true → seg <:+: other → other = seg ∨ other ∈ before) ∧
        Apart (seg :: before) rest

instance (opening closing : Char) (text : Text) (later : List Text) : Decidable (unclosed opening closing text later) :=
  inferInstanceAs (Decidable (_ → _ ∧ ∀ seg ∈ later, _))

instance anglesDecidable : (segs : List Text) → Decidable (Angles segs)
  | [] => .isTrue trivial
  | seg :: rest =>
      have := anglesDecidable rest
      inferInstanceAs (Decidable (unclosed '<' '>' (written seg) rest ∧ Angles rest))

instance bracesDecidable : (segs : List Text) → Decidable (Braces segs)
  | [] => .isTrue trivial
  | seg :: rest =>
      have := bracesDecidable rest
      inferInstanceAs (Decidable ((isSpecial seg = false → unclosed '{' '}' seg (rest.map written)) ∧ Braces rest))

instance apartDecidable : (before segs : List Text) → Decidable (Apart before segs)
  | _, [] => .isTrue trivial
  | before, seg :: rest =>
      have := apartDecidable (seg :: before) rest
      inferInstanceAs (Decidable ((_ → ∀ other ∈ rest, _ → _ → _) ∧ Apart (seg :: before) rest))

structure Bracketed (segs : List Text) : Prop where
  closed : ∀ seg ∈ segs, isSpecial seg = true → '>' ∉ inner seg
  angles : Angles segs
  apart : Apart [] segs

structure Documentable (segs : List Text) : Prop where
  bracketed : Bracketed segs
  typed : ∀ seg ∈ segs, isSpecial seg = true → ':' ∈ inner seg
  named : ∀ seg ∈ segs, isSpecial seg = true → nameOf seg ≠ [] ∧ '}' ∉ nameOf seg
  braces : (∃ seg ∈ segs, isSpecial seg = true) → Braces segs

theorem specialShape {seg : Text} (special : isSpecial seg = true) : seg = '<' :: (inner seg ++ ['>']) := by
  simp only [isSpecial, Bool.and_eq_true, decide_eq_true_eq] at special
  obtain ⟨head, last⟩ := special
  cases seg with
  | nil => cases head
  | cons c rest =>
    cases Option.some.inj head
    have more : rest ≠ [] := by
      rintro rfl
      simp at last
    have end_ : rest.getLast? = some '>' := by
      rw [List.getLast?_cons_of_ne_nil more] at last
      exact last
    have parted := List.dropLast_append_getLast? '>' end_
    simp only [inner, List.drop_succ_cons, List.drop_zero]
    rw [parted]

theorem specialParts {seg : Text} (special : isSpecial seg = true) (c : Char) :
    c ∈ seg ↔ c = '<' ∨ c ∈ inner seg ∨ c = '>' := by
  conv_lhs => rw [specialShape special]
  simp

theorem nameInside {seg : Text} {c : Char} (mem : c ∈ nameOf seg) : c ∈ inner seg :=
  (List.takeWhile_sublist _).subset mem

theorem paramNameOf {seg : Text} (special : isSpecial seg = true) (colon : ':' ∈ inner seg) : paramName seg = nameOf seg := by
  obtain ⟨parted, fresh⟩ := splitFirstAt colon
  have cut := splitFirstAppend fresh ((splitFirst ':' (inner seg)).2 ++ ['>'])
  have text : seg.drop 1 = inner seg ++ ['>'] := by
    conv_lhs => rw [specialShape special]
    rfl
  rw [paramName, text]
  conv_lhs => rw [parted]
  rw [List.append_assoc, List.cons_append, cut]
  rfl

theorem splitFirstLater (sep : Char) (before after : Text) : after <:+ (splitFirst sep (before ++ sep :: after)).2 := by
  by_cases mem : sep ∈ before
  · obtain ⟨parted, fresh⟩ := splitFirstAt mem
    have cut := splitFirstAppend fresh ((splitFirst sep before).2 ++ sep :: after)
    have text : before ++ sep :: after =
        (splitFirst sep before).1 ++ sep :: ((splitFirst sep before).2 ++ sep :: after) := by
      conv_lhs => rw [parted]
      simp
    rw [text, cut]
    exact ⟨(splitFirst sep before).2 ++ [sep], by simp⟩
  · rw [splitFirstAppend mem]

theorem firstMatchAt {before body after : Text} (fresh : '<' ∉ before) (absent : '>' ∉ body) :
    firstMatch (before ++ '<' :: (body ++ '>' :: after)) = some ('<' :: (body ++ ['>'])) := by
  unfold firstMatch
  rw [splitFirstAppend fresh, splitFirstAppend absent]
  simp

theorem firstMatchNone {before after : Text} (fresh : '<' ∉ before) (absent : '>' ∉ after) :
    firstMatch (before ++ '<' :: after) = none := by
  unfold firstMatch
  rw [splitFirstAppend fresh, if_neg (fun both => absent both.2)]

theorem firstMatchBare {text : Text} (bare : '<' ∉ text) : firstMatch text = none := by
  unfold firstMatch
  rw [if_neg (fun both => bare both.1)]

theorem writtenPlain {seg : Text} (plain : isSpecial seg = false) : written seg = seg := by
  simp [written, plain]

theorem specialCloses {seg : Text} (special : isSpecial seg = true) : '>' ∈ seg :=
  (specialParts special '>').mpr (.inr (.inr rfl))

theorem writtenUnclosed {segs : List Text} (none_ : ∀ seg ∈ segs, '>' ∉ seg) : segs.map written = segs := by
  refine (List.map_congr_left (fun seg mem => writtenPlain ?_)).trans (List.map_id segs)
  by_contra special
  exact none_ seg mem (specialCloses (by simpa using special))

theorem firstMatchSettled {segs : List Text} (angles : Angles segs) {before : Text} (bare : '<' ∉ before) :
    firstMatch (before ++ delimited '/' (segs.map written)) = none := by
  induction segs generalizing before with
  | nil =>
    rw [List.map_nil, delimitedNil, List.append_nil]
    exact firstMatchBare bare
  | cons seg rest ih =>
    rw [List.map_cons, delimitedCons]
    by_cases opens : '<' ∈ written seg
    · obtain ⟨unclosed, later⟩ := angles.1 opens
      obtain ⟨parted, fresh⟩ := splitFirstAt opens
      have text : before ++ '/' :: (written seg ++ delimited '/' (rest.map written)) =
          (before ++ '/' :: (splitFirst '<' (written seg)).1) ++
            '<' :: ((splitFirst '<' (written seg)).2 ++ delimited '/' (rest.map written)) := by
        conv_lhs => rw [parted]
        simp
      rw [text]
      refine firstMatchNone (by simpa [bare] using fresh) ?_
      rw [writtenUnclosed later, List.mem_append, memDelimited (by decide)]
      rintro (here | ⟨other, mem, inside⟩)
      · exact unclosed here
      · exact later other mem inside
    · have text : before ++ '/' :: (written seg ++ delimited '/' (rest.map written)) =
          (before ++ '/' :: written seg) ++ delimited '/' (rest.map written) := by simp
      rw [text]
      exact ih angles.2 (by simpa [bare] using opens)

theorem anglesBefore {pre post : List Text} {seg later : Text} (angles : Angles (pre ++ later :: post)) (mem : seg ∈ pre)
    (opens : '<' ∈ written seg) : '>' ∉ later := by
  induction pre with
  | nil => cases mem
  | cons first rest ih =>
    rcases List.mem_cons.mp mem with rfl | mem
    · exact (angles.1 opens).2 later (by simp)
    · exact ih angles.2 mem

theorem apartAt {before pre post : List Text} {seg other : Text} (apart : Apart before (pre ++ seg :: post))
    (special : isSpecial seg = true) (mem : other ∈ post) (mark : isSpecial other = true) (within : seg <:+: other) :
    other = seg ∨ other ∈ pre ∨ other ∈ before := by
  induction pre generalizing before with
  | nil => exact (apart.1 special other mem mark within).imp_right .inr
  | cons first rest ih =>
    rcases ih apart.2 with same | earlier | earlier
    · exact .inl same
    · exact .inr (.inl (List.mem_cons_of_mem _ earlier))
    · rcases List.mem_cons.mp earlier with rfl | earlier
      · exact .inr (.inl List.mem_cons_self)
      · exact .inr (.inr earlier)

theorem anglesHere {segs : List Text} {seg : Text} (angles : Angles segs) (mem : seg ∈ segs) (opens : '<' ∈ written seg) :
    '>' ∉ (splitFirst '<' (written seg)).2 := by
  induction segs with
  | nil => cases mem
  | cons first rest ih =>
    rcases List.mem_cons.mp mem with rfl | mem
    · exact (angles.1 opens).1
    · exact ih angles.2 mem

def partly (done : List Text) (seg : Text) : Text := if isSpecial seg && done.contains seg then written seg else seg

theorem partlyOpens {done : List Text} {seg : Text} (settled : isSpecial seg = true → seg ∈ done) : partly done seg = written seg := by
  unfold partly written
  by_cases special : isSpecial seg = true
  · simp [special, settled special]
  · simp [special]

section
variable {segs : List Text} (bracketed : Bracketed segs)
include bracketed

theorem writtenClosed {seg : Text} (mem : seg ∈ segs) (special : isSpecial seg = true) : '>' ∉ written seg := by
  rw [written, if_pos special]
  intro inside
  have name : '>' ∈ nameOf seg := by simpa using inside
  exact bracketed.closed seg mem special (nameInside name)

theorem plainApart {sp seg : Text} (special : isSpecial sp = true) (mem : seg ∈ segs) (mark : ¬ isSpecial seg = true) :
    ¬ sp <:+: seg := by
  rintro ⟨before, after, whole⟩
  have plain : written seg = seg := by simp [written, mark]
  rw [specialShape special] at whole
  have text : seg = before ++ '<' :: (inner sp ++ '>' :: after) := by
    rw [← whole]
    simp
  have unclosed := anglesHere bracketed.angles mem (by rw [plain, text]; simp)
  rw [plain, text] at unclosed
  exact unclosed ((splitFirstLater '<' before _).subset (by simp))

theorem laterApart {done pre post : List Text} {sp seg : Text} (whole : segs = pre ++ sp :: post) (special : isSpecial sp = true)
    (settled : ∀ s ∈ pre, isSpecial s = true → s ∈ done) (mem : seg ∈ segs) (mark : isSpecial seg = true) (left_ : seg ∉ done)
    (other : seg ≠ sp) : ¬ sp <:+: seg := by
  intro found
  have notBefore : seg ∉ pre := fun early => left_ (settled seg early mark)
  have after : seg ∈ post := by
    rw [whole] at mem
    simpa [notBefore, other] using mem
  have apart := bracketed.apart
  rw [whole] at apart
  rcases apartAt apart special after mark found with equal | early | early
  · exact other equal
  · exact notBefore early
  · cases early

theorem formsApart {done pre post : List Text} {sp seg : Text} (whole : segs = pre ++ sp :: post) (special : isSpecial sp = true)
    (fresh : sp ∉ done) (settled : ∀ s ∈ pre, isSpecial s = true → s ∈ done) (mem : seg ∈ segs) :
    (if partly done seg = sp then written sp else partly done seg) = partly (sp :: done) seg ∧
      (partly done seg = sp ∨ ¬ sp <:+: partly done seg) := by
  by_cases mark : isSpecial seg = true
  · by_cases did : seg ∈ done
    · have form : partly done seg = written seg := by simp [partly, mark, did]
      have form' : partly (sp :: done) seg = written seg := by simp [partly, mark, did]
      have closes : '>' ∈ sp := (specialParts special '>').mpr (.inr (.inr rfl))
      have open_ := writtenClosed bracketed mem mark
      have differs : written seg ≠ sp := fun same => open_ (same ▸ closes)
      rw [form, form', if_neg differs]
      exact ⟨rfl, .inr (fun found => open_ (found.subset closes))⟩
    · have form : partly done seg = seg := by simp [partly, did]
      rw [form]
      by_cases same : seg = sp
      · subst same
        simp [partly, mark]
      · have form' : partly (sp :: done) seg = seg := by simp [partly, did, same]
        rw [form', if_neg same]
        exact ⟨rfl, .inr (laterApart bracketed whole special settled mem mark did same)⟩
  · have form : ∀ done, partly done seg = seg := fun done => by simp [partly, mark]
    have differs : seg ≠ sp := by
      rintro rfl
      exact mark special
    rw [form, form, if_neg differs]
    exact ⟨rfl, .inr (plainApart bracketed special mem mark)⟩

theorem firstLeft (done : List Text) : (∀ seg ∈ segs, isSpecial seg = true → seg ∈ done) ∨
    ∃ pre sp post, segs = pre ++ sp :: post ∧ isSpecial sp = true ∧ sp ∉ done ∧
      (∀ seg ∈ pre, isSpecial seg = true → seg ∈ done) ∧ '<' ∉ delimited '/' (pre.map (partly done)) := by
  cases found : segs.find? (fun seg => isSpecial seg && decide (seg ∉ done)) with
  | none =>
    refine .inl (fun seg mem special => ?_)
    simpa [special] using List.find?_eq_none.mp found seg mem
  | some sp =>
    obtain ⟨mark, pre, post, whole, none_⟩ := List.find?_eq_some_iff_append.mp found
    simp only [Bool.and_eq_true, decide_eq_true_eq] at mark
    have settled : ∀ seg ∈ pre, isSpecial seg = true → seg ∈ done := by
      intro seg memPre special
      simpa [special] using none_ seg memPre
    refine .inr ⟨pre, sp, post, whole, mark.1, mark.2, settled, fun inside => ?_⟩
    obtain ⟨form, among, opens⟩ := (memDelimited (by decide)).mp inside
    obtain ⟨seg, memPre, rfl⟩ := List.mem_map.mp among
    rw [partlyOpens (settled seg memPre)] at opens
    have angles := bracketed.angles
    rw [whole] at angles
    exact anglesBefore angles memPre opens ((specialParts mark.1 '>').mpr (.inr (.inr rfl)))

theorem convertOneLeft {done pre post : List Text} {sp : Text} (plain : ∀ seg ∈ segs, '/' ∉ seg)
    (whole : segs = pre ++ sp :: post) (special : isSpecial sp = true) (fresh : sp ∉ done)
    (settled : ∀ seg ∈ pre, isSpecial seg = true → seg ∈ done) (bare : '<' ∉ delimited '/' (pre.map (partly done))) :
    convertOne (delimited '/' (segs.map (partly done))) =
      if ':' ∈ inner sp then some (delimited '/' (segs.map (partly (sp :: done)))) else none := by
  have mem : sp ∈ segs := by
    rw [whole]
    simp
  have form : partly done sp = sp := by simp [partly, fresh]
  have shape := specialShape special
  have text : delimited '/' (segs.map (partly done)) = (delimited '/' (pre.map (partly done)) ++ ['/']) ++
      '<' :: (inner sp ++ '>' :: delimited '/' (post.map (partly done))) := by
    rw [whole, List.map_append, List.map_cons, delimitedAppend, delimitedCons, form]
    conv_lhs => rw [shape]
    simp
  have found : firstMatch (delimited '/' (segs.map (partly done))) = some sp := by
    rw [text, firstMatchAt (by simpa using bare) (bracketed.closed sp mem special), ← shape]
  have colon : ':' ∈ sp ↔ ':' ∈ inner sp := by
    rw [specialParts special]
    simp
  unfold convertOne
  rw [found]
  by_cases typed : ':' ∈ inner sp
  · have replaced : '{' :: (paramName sp ++ ['}']) = written sp := by
      rw [paramNameOf special typed, written, if_pos special]
    have apart : ∀ seg ∈ segs.map (partly done), seg = sp ∨ ¬ sp <:+: seg := by
      intro seg among
      obtain ⟨raw, memRaw, rfl⟩ := List.mem_map.mp among
      exact (formsApart bracketed whole special fresh settled memRaw).2
    have forms : (segs.map (partly done)).map (fun seg => if seg = sp then written sp else seg) =
        segs.map (partly (sp :: done)) := by
      rw [List.map_map]
      exact List.map_congr_left (fun seg memSeg => (formsApart bracketed whole special fresh settled memSeg).1)
    rw [if_pos typed]
    simp only [if_pos (colon.mpr typed)]
    rw [replaced, replaceDelimited (written sp) (by rw [shape]; simp) (plain sp mem) apart, forms]
  · rw [if_neg typed]
    simp only [if_neg (fun found => typed (colon.mp found))]

theorem convertOneDone {done : List Text} (settled : ∀ seg ∈ segs, isSpecial seg = true → seg ∈ done) :
    convertOne (delimited '/' (segs.map (partly done))) = none := by
  have forms : segs.map (partly done) = segs.map written :=
    List.map_congr_left (fun seg mem => partlyOpens (settled seg mem))
  have none_ : firstMatch (delimited '/' (segs.map written)) = none := by
    simpa using firstMatchSettled bracketed.angles (List.not_mem_nil (a := '<'))
  unfold convertOne
  rw [forms, none_]

theorem convertBracketed (plain : ∀ seg ∈ segs, '/' ∉ seg) : ∃ done, (∀ seg ∈ done, ':' ∈ inner seg) ∧
    ((∀ seg ∈ segs, isSpecial seg = true → ':' ∈ inner seg) → ∀ seg ∈ segs, isSpecial seg = true → seg ∈ done) ∧
    convertLoop (delimited '/' segs) = delimited '/' (segs.map (partly done)) := by
  have start : delimited '/' segs = delimited '/' (segs.map (partly [])) := by
    have forms : segs.map (partly []) = segs.map id := List.map_congr_left (fun seg _ => by simp [partly])
    rw [forms, List.map_id]
  have from_ : ∀ done, (∀ seg ∈ done, ':' ∈ inner seg) → ∃ more, (∀ seg ∈ more, ':' ∈ inner seg) ∧
      ((∀ seg ∈ segs, isSpecial seg = true → ':' ∈ inner seg) → ∀ seg ∈ segs, isSpecial seg = true → seg ∈ more) ∧
      convertLoop (delimited '/' (segs.map (partly done))) = delimited '/' (segs.map (partly more)) := by
    intro done
    induction size : (delimited '/' (segs.map (partly done))).count '>' using Nat.strongRecOn generalizing done with
    | ind n ih =>
      intro typed
      rcases firstLeft bracketed done with settled | ⟨pre, sp, post, whole, special, fresh, settled, bare⟩
      · exact ⟨done, typed, fun _ => settled, convertStops (convertOneDone bracketed settled)⟩
      · have round := convertOneLeft bracketed plain whole special fresh settled bare
        by_cases colon : ':' ∈ inner sp
        · rw [if_pos colon] at round
          have shorter := convertOneShorter round
          rw [convertGoes round]
          exact ih _ (size ▸ shorter) (sp :: done) rfl (by simpa using ⟨colon, typed⟩)
        · rw [if_neg colon] at round
          refine ⟨done, typed, fun all => ?_, convertStops round⟩
          exact absurd (all sp (by rw [whole]; simp) special) colon
  rw [start]
  exact from_ [] nofun

end

theorem filterUnclosed {segs : List Text} (none_ : ∀ seg ∈ segs, '>' ∉ seg) : segs.filter isSpecial = [] :=
  List.filter_eq_nil_iff.mpr (fun seg mem special => none_ seg mem (specialCloses special))

theorem betweenAngles {segs : List Text} (angles : Angles segs)
    (closed : ∀ seg ∈ segs, isSpecial seg = true → '>' ∉ inner seg) :
    between '<' '>' (delimited '/' segs) = (segs.filter isSpecial).map inner := by
  induction segs with
  | nil => exact betweenNone List.not_mem_nil
  | cons seg rest ih =>
    have later := ih angles.2 (fun s mem => closed s (List.mem_cons_of_mem _ mem))
    rw [delimitedCons]
    by_cases special : isSpecial seg = true
    · have text : '/' :: (seg ++ delimited '/' rest) = ['/'] ++ '<' :: (inner seg ++ '>' :: delimited '/' rest) := by
        conv_lhs => rw [specialShape special]
        simp
      rw [text, betweenSkip (by decide), betweenPair (closed seg List.mem_cons_self special), later,
        List.filter_cons_of_pos special, List.map_cons]
    · rw [List.filter_cons_of_neg special]
      have plain := writtenPlain (by simpa using special)
      have here := angles.1
      rw [plain] at here
      by_cases opens : '<' ∈ seg
      · obtain ⟨unclosed, after⟩ := here opens
        obtain ⟨parted, fresh⟩ := splitFirstAt opens
        have text : '/' :: (seg ++ delimited '/' rest) = ('/' :: (splitFirst '<' seg).1) ++
            '<' :: ((splitFirst '<' seg).2 ++ delimited '/' rest) := by
          conv_lhs => rw [parted]
          simp
        rw [text, betweenOpen (by simpa using fresh), filterUnclosed after, List.map_nil]
        rw [List.mem_append, memDelimited (by decide)]
        rintro (inside | ⟨other, mem, inside⟩)
        · exact unclosed inside
        · exact after other mem inside
      · have text : '/' :: (seg ++ delimited '/' rest) = ('/' :: seg) ++ delimited '/' rest := rfl
        rw [text, betweenSkip (by simpa using opens), later]

theorem betweenBraces {segs : List Text} (braces : Braces segs)
    (named : ∀ seg ∈ segs, isSpecial seg = true → '}' ∉ nameOf seg) :
    between '{' '}' (delimited '/' (segs.map written)) = (segs.filter isSpecial).map nameOf := by
  induction segs with
  | nil => exact betweenNone List.not_mem_nil
  | cons seg rest ih =>
    have later := ih braces.2 (fun s mem => named s (List.mem_cons_of_mem _ mem))
    rw [List.map_cons, delimitedCons]
    by_cases special : isSpecial seg = true
    · have text : '/' :: (written seg ++ delimited '/' (rest.map written)) =
          ['/'] ++ '{' :: (nameOf seg ++ '}' :: delimited '/' (rest.map written)) := by
        rw [written, if_pos special]
        simp
      rw [text, betweenSkip (by decide), betweenPair (named seg List.mem_cons_self special), later,
        List.filter_cons_of_pos special, List.map_cons]
    · rw [List.filter_cons_of_neg special]
      have static : isSpecial seg = false := by simpa using special
      rw [writtenPlain static]
      by_cases opens : '{' ∈ seg
      · obtain ⟨unclosed, after⟩ := braces.1 static opens
        obtain ⟨parted, fresh⟩ := splitFirstAt opens
        have text : '/' :: (seg ++ delimited '/' (rest.map written)) = ('/' :: (splitFirst '{' seg).1) ++
            '{' :: ((splitFirst '{' seg).2 ++ delimited '/' (rest.map written)) := by
          conv_lhs => rw [parted]
          simp
        have none_ : rest.filter isSpecial = [] := by
          refine List.filter_eq_nil_iff.mpr (fun other mem special' => ?_)
          have closes : '}' ∈ written other := by
            rw [written, if_pos special']
            simp
          exact after _ (List.mem_map_of_mem mem) closes
        rw [text, betweenOpen (by simpa using fresh), none_, List.map_nil]
        rw [List.mem_append, memDelimited (by decide)]
        rintro (inside | ⟨other, mem, inside⟩)
        · exact unclosed inside
        · exact after other mem inside
      · have text : '/' :: (seg ++ delimited '/' (rest.map written)) = ('/' :: seg) ++ delimited '/' (rest.map written) := rfl
        rw [text, betweenSkip (by simpa using opens), later]

def rawPath (segs : List Text) : Text := (delimited '/' (segs.filter (· ≠ []))).drop 1

def keyOf (segs : List Text) : Text :=
  if segs.filter (· ≠ []) = [] then ['/'] else delimited '/' ((segs.filter (· ≠ [])).map written)

def bracedNames (key : Text) : List Text := between '{' '}' key

def pathNames (op : Operation) : List Text := (op.parameters.filter (·.parameterIn = .path)).map (·.name)

theorem delimitedDrop {segs : List Text} (some_ : segs ≠ []) : '/' :: (delimited '/' segs).drop 1 = delimited '/' segs := by
  cases segs with
  | nil => exact absurd rfl some_
  | cons seg rest => simp

theorem convertRaw {segs : List Text} (plain : ∀ seg ∈ segs, '/' ∉ seg) :
    convertPathFormat (rawPath segs) =
      if segs.filter (· ≠ []) = [] then ['/'] else convertLoop (delimited '/' (segs.filter (· ≠ []))) := by
  unfold convertPathFormat rawPath
  cases named : segs.filter (· ≠ []) with
  | nil =>
    have stops : convertOne ['/'] = none := by decide
    simp [convertStops stops]
  | cons seg rest =>
    have mem : seg ∈ segs.filter (· ≠ []) := by
      rw [named]
      exact List.mem_cons_self
    obtain ⟨inside, some_⟩ := List.mem_filter.mp mem
    have text : (delimited '/' (seg :: rest)).drop 1 = seg ++ delimited '/' rest := by simp
    cases seg with
    | nil => simp at some_
    | cons c tail =>
      have other : c ≠ '/' := by
        rintro rfl
        exact plain _ inside List.mem_cons_self
      rw [text]
      simp [other]

theorem documentedKey {segs : List Text} (plain : ∀ seg ∈ segs, '/' ∉ seg) (documentable : Documentable (segs.filter (· ≠ []))) :
    convertPathFormat (rawPath segs) = keyOf segs := by
  rw [convertRaw plain, keyOf]
  obtain ⟨done, _, all, converted⟩ := convertBracketed documentable.bracketed (fun seg mem => plain seg (List.mem_of_mem_filter mem))
  rw [converted, List.map_congr_left (fun seg mem => partlyOpens (all documentable.typed seg mem))]

theorem betweenRaw {opening : Char} (closing : Char) (other : opening ≠ '/') (segs : List Text) :
    between opening closing (rawPath segs) = between opening closing (delimited '/' (segs.filter (· ≠ []))) := by
  unfold rawPath
  by_cases none_ : segs.filter (· ≠ []) = []
  · rw [none_]
    rfl
  · conv_rhs => rw [← delimitedDrop none_]
    have outside : opening ∉ ['/'] := by simpa using other
    exact (betweenSkip outside _).symm

theorem silentNames {segs : List Text} (documentable : Documentable (segs.filter (· ≠ []))) :
    (silentParameters (rawPath segs)).map (·.name) = ((segs.filter (· ≠ [])).filter isSpecial).map nameOf := by
  unfold silentParameters
  rw [betweenRaw '>' (by decide), betweenAngles documentable.bracketed.angles documentable.bracketed.closed]
  have named : ∀ seg ∈ (segs.filter (· ≠ [])).filter isSpecial, nameOf seg ≠ [] := by
    intro seg mem
    obtain ⟨inside, special⟩ := List.mem_filter.mp mem
    exact (documentable.named seg inside special).1
  revert named
  induction (segs.filter (· ≠ [])).filter isSpecial with
  | nil => exact fun _ => rfl
  | cons seg rest ih =>
    intro named
    have first : (splitFirst ':' (inner seg)).1 ≠ [] := named seg List.mem_cons_self
    have later := ih (fun other mem => named other (List.mem_cons_of_mem _ mem))
    simp only [List.map_cons, List.filterMap_cons, if_neg first, later]
    rfl

theorem documentedNames {segs : List Text} (documentable : Documentable (segs.filter (· ≠ []))) :
    (pathParameters (rawPath segs)).map (·.name) = bracedNames (keyOf segs) := by
  have silent := silentNames documentable
  have key : bracedNames (keyOf segs) = between '{' '}' (delimited '/' ((segs.filter (· ≠ [])).map written)) := by
    unfold bracedNames keyOf
    by_cases none_ : segs.filter (· ≠ []) = []
    · rw [if_pos none_, none_]
      exact (betweenNone (by decide)).trans (betweenNone List.not_mem_nil).symm
    · rw [if_neg none_]
  unfold pathParameters
  by_cases some_ : ∃ seg ∈ segs.filter (· ≠ []), isSpecial seg = true
  · have specials : (segs.filter (· ≠ [])).filter isSpecial ≠ [] := by
      obtain ⟨seg, mem, special⟩ := some_
      exact List.ne_nil_of_mem (List.mem_filter.mpr ⟨mem, special⟩)
    have declared : silentParameters (rawPath segs) ≠ [] := by
      intro none_
      rw [none_, List.map_nil] at silent
      exact specials (List.map_eq_nil_iff.mp silent.symm)
    rw [if_neg declared, silent, key,
      betweenBraces (documentable.braces some_) (fun seg mem special => (documentable.named seg mem special).2)]
  · have static : ∀ seg ∈ segs.filter (· ≠ []), isSpecial seg = false := by
      intro seg mem
      by_contra special
      exact some_ ⟨seg, mem, by simpa using special⟩
    have specials : (segs.filter (· ≠ [])).filter isSpecial = [] :=
      List.filter_eq_nil_iff.mpr (fun seg mem => by simp [static seg mem])
    have none_ : silentParameters (rawPath segs) = [] := by
      rw [specials] at silent
      exact List.map_eq_nil_iff.mp silent
    have same : (segs.filter (· ≠ [])).map written = (segs.filter (· ≠ [])).map id :=
      List.map_congr_left (fun seg mem => writtenPlain (static seg mem))
    rw [if_pos none_, key, same, List.map_id, braceParameters, betweenRaw '}' (by decide), List.map_map]
    exact (List.map_congr_left (fun _ _ => rfl)).trans (List.map_id _)

theorem rdropDelimited {segs : List Text} (plain : ∀ seg ∈ segs, seg ≠ [] ∧ '/' ∉ seg) :
    ((delimited '/' segs).drop 1).rdropWhile (· = '/') = (delimited '/' segs).drop 1 := by
  refine List.rdropWhile_eq_self_iff.mpr (fun more => ?_)
  simp only [decide_eq_true_eq]
  intro same
  have last : ((delimited '/' segs).drop 1).getLast? = some '/' := by
    rw [List.getLast?_eq_some_getLast more, same]
  rcases List.eq_nil_or_concat segs with rfl | ⟨front, seg, rfl⟩
  · simp at last
  · obtain ⟨some_, free⟩ := plain seg (by simp)
    have ends : ((delimited '/' (front ++ [seg])).drop 1).getLast? = seg.getLast? := by
      obtain ⟨c, tail, whole⟩ := List.exists_cons_of_ne_nil some_
      have text : (delimited '/' (front ++ [seg])).drop 1 = ((delimited '/' front ++ ['/']).drop 1) ++ seg := by
        rw [delimitedAppend, ← List.drop_append_of_le_length (by simp)]
        simp
      rw [text, List.getLast?_append_of_ne_nil _ some_]
    rw [List.concat_eq_append, ends] at last
    exact free (List.mem_of_getLast? last)

theorem trimFree {seg : Text} (free : '/' ∉ seg) : seg.dropWhile (· = '/') = seg := by
  refine List.dropWhile_eq_self_iff.mpr (fun inside lead => ?_)
  exact free (of_decide_eq_true lead ▸ List.getElem_mem inside)

theorem fullPathEmpty (current : Text) : fullPath current [] = current := by
  unfold fullPath
  split
  · rename_i none_
    exact none_.symm
  · rw [if_pos rfl]

theorem fullPathJoins {segs : List Text} {seg : Text} (plain : ∀ s ∈ segs, s ≠ [] ∧ '/' ∉ s) (some_ : seg ≠ [])
    (free : '/' ∉ seg) : fullPath ((delimited '/' segs).drop 1) seg = (delimited '/' (segs ++ [seg])).drop 1 := by
  unfold fullPath
  cases segs with
  | nil => simp
  | cons first others =>
    have begun : (delimited '/' (first :: others)).drop 1 ≠ [] := by
      have named := (plain first List.mem_cons_self).1
      simp [named]
    rw [if_neg begun, if_neg some_, rdropDelimited plain, trimFree free, delimitedAppend,
      List.drop_append_of_le_length (by simp)]
    simp

theorem foldFullPathFrom {segs before : List Text} (plain : ∀ seg ∈ segs, '/' ∉ seg)
    (past : ∀ seg ∈ before, seg ≠ [] ∧ '/' ∉ seg) :
    segs.foldl fullPath ((delimited '/' before).drop 1) = (delimited '/' (before ++ segs.filter (· ≠ []))).drop 1 := by
  induction segs generalizing before with
  | nil => simp
  | cons seg rest ih =>
    have later : ∀ s ∈ rest, '/' ∉ s := fun s mem => plain s (List.mem_cons_of_mem _ mem)
    rw [List.foldl_cons]
    by_cases empty : seg = []
    · subst empty
      rw [fullPathEmpty, ih later past]
      simp
    · have free := plain seg List.mem_cons_self
      have now : ∀ s ∈ before ++ [seg], s ≠ [] ∧ '/' ∉ s := by
        intro s mem
        rcases List.mem_append.mp mem with old | new
        · exact past s old
        · rw [List.mem_singleton.mp new]
          exact ⟨empty, free⟩
      rw [fullPathJoins past empty free, ih later now, List.filter_cons_of_pos (by simpa using empty), List.append_assoc]
      rfl

theorem foldFullPath {segs : List Text} (plain : ∀ seg ∈ segs, '/' ∉ seg) : segs.foldl fullPath [] = rawPath segs :=
  foldFullPathFrom plain (fun _ (none_ : _ ∈ []) => absurd none_ List.not_mem_nil)

section
variable {H M V : Type}

theorem nodePlain {r : Route H M V} (proper : Throughout Proper r) {segs : List Text} {n : Route H M V}
    (node : (segs, n) ∈ nodes r) : ∀ seg ∈ segs, '/' ∉ seg := by
  induction proper generalizing segs with
  | @node r here below ih =>
    rcases memNodes.mp node with ⟨rfl, _⟩ | ⟨child, inside, rest, under, rfl⟩
    · simpa using here.plain
    · intro seg mem
      rcases List.mem_cons.mp mem with rfl | mem
      · exact here.plain
      · exact ih child inside under seg mem

/- Exactly the operations of the nodes, under the keys their segments spell, with the path
parameters their keys have in braces. -/
structure DocumentMatches (paths : Paths) (r : Route H M V) : Prop where
  carried : ∀ segs n method, (segs, n) ∈ nodes r → standard method = true → method ∈ n.handler →
    ∃ item op, (keyOf segs, item) ∈ paths ∧ at_ item method = some op
  registered : ∀ key item method op, (key, item) ∈ paths → at_ item method = some op →
    ∃ segs n, (segs, n) ∈ nodes r ∧ standard method = true ∧ method ∈ n.handler ∧ keyOf segs = key
  declared : ∀ key item method op, (key, item) ∈ paths → at_ item method = some op → pathNames op = bracedNames key

theorem pathNamesOf (reg : Registry H M) (n : Route H M V) (path : Text) (tags : List Text) (entry : Method × H) :
    pathNames (operationOf reg n path tags entry) = (pathParameters path).map (·.name) := by
  have queries : ∀ given, (queryParameters given).filter (·.parameterIn = .path) = [] := by
    intro given
    refine List.filter_eq_nil_iff.mpr (fun parameter mem => ?_)
    obtain ⟨made, _, found⟩ := List.mem_filterMap.mp mem
    cases made with
    | jsonBody typeName | formBody typeName => cases found
    | queryParams typeName =>
      cases Option.some.inj found
      simp
  have paths : (pathParameters path).filter (·.parameterIn = .path) = pathParameters path := by
    refine List.filter_eq_self.mpr (fun parameter mem => ?_)
    unfold pathParameters at mem
    split at mem
    · obtain ⟨name, _, rfl⟩ := List.mem_map.mp mem
      rfl
    · obtain ⟨made, _, found⟩ := List.mem_filterMap.mp mem
      split at found
      · cases found
      · cases Option.some.inj found
        rfl
  simp only [pathNames, operationOf, createOperationWithDoc, List.filter_append, queries, paths, List.nil_append]

variable (reg : Registry H M) (order : EntryOrder H) {r : Route H M V}

theorem collectedNode (proper : Throughout Proper r) {key : Text} {item : PathItem} {method : Method} {op : Operation}
    (mem : (key, item) ∈ collectOpenapiPaths reg order r []) (found : at_ item method = some op) :
    ∃ segs n, (segs, n) ∈ nodes r ∧ standard method = true ∧ method ∈ n.handler ∧ convertPathFormat (rawPath segs) = key ∧
      pathNames op = (pathParameters (rawPath segs)).map (·.name) := by
  obtain ⟨entry, first, rfl⟩ := Option.map_eq_some_iff.mp ((collectedAt reg order r key method op).mp ⟨item, mem, found⟩)
  have serves := List.find?_some first
  simp only [served, Bool.and_eq_true, decide_eq_true_eq] at serves
  obtain ⟨segs, n, node, path, handled, handler, tags, operation⟩ := entryNode reg order (List.mem_of_find?_eq_some first)
  rw [foldFullPath (nodePlain proper node)] at path
  refine ⟨segs, n, node, serves.1.1, serves.1.2 ▸ handled, path ▸ serves.2, ?_⟩
  rw [operation, pathNamesOf, path]

theorem nodeCollected (proper : Throughout Proper r) {segs : List Text} {n : Route H M V} (node : (segs, n) ∈ nodes r)
    {method : Method} (fits : standard method = true) (handled : method ∈ n.handler) :
    ∃ item op, (convertPathFormat (rawPath segs), item) ∈ collectOpenapiPaths reg order r [] ∧ at_ item method = some op := by
  obtain ⟨entry, among, path, same⟩ := nodeEntry reg order [] [] node handled
  rw [foldFullPath (nodePlain proper node)] at path
  have serves : served (convertPathFormat (rawPath segs)) method entry = true := by simp [served, fits, path, same]
  obtain ⟨first, found⟩ := Option.isSome_iff_exists.mp (List.find?_isSome.mpr ⟨entry, among, serves⟩)
  obtain ⟨item, mem, at'⟩ := (collectedAt reg order r _ method first.operation).mpr (by rw [found]; rfl)
  exact ⟨item, first.operation, mem, at'⟩

theorem writtenMem {seg : Text} {c : Char} (mem : c ∈ written seg) : c ∈ seg ∨ c = '{' ∨ c = '}' := by
  unfold written at mem
  split at mem
  · rename_i special
    rw [List.mem_cons, List.mem_append, List.mem_singleton] at mem
    rcases mem with open_ | name | close
    · exact .inr (.inl open_)
    · exact .inl ((specialParts special c).mpr (.inr (.inl (nameInside name))))
    · exact .inr (.inr close)
  · exact .inl mem

theorem writtenSlashFree {seg : Text} (plain : '/' ∉ seg) : '/' ∉ written seg := by
  intro mem
  rcases writtenMem mem with inside | open_ | close
  · exact plain inside
  · cases open_
  · cases close

theorem writtenStatic (seg : Text) : isSpecial (written seg) = false := by
  by_cases special : isSpecial seg = true
  · rw [written, if_pos special]
    simp [isSpecial]
  · have static : isSpecial seg = false := by simpa using special
    rwa [writtenPlain static]

theorem keyStatic {segs : List Text} (plain : ∀ seg ∈ segs, '/' ∉ seg) :
    ∃ parts, keyOf segs = delimited '/' parts ∧ ∀ part ∈ parts, '/' ∉ part ∧ isSpecial part = false := by
  unfold keyOf
  split
  · exact ⟨[[]], rfl, by simp [isSpecial]⟩
  · refine ⟨_, rfl, fun part mem => ?_⟩
    obtain ⟨seg, among, rfl⟩ := List.mem_map.mp mem
    exact ⟨writtenSlashFree (plain seg (List.mem_of_mem_filter among)), writtenStatic seg⟩

theorem untypedDiffers (proper : Throughout Proper r) {segs : List Text} {n : Route H M V} (node : (segs, n) ∈ nodes r)
    {method : Method} (fits : standard method = true) (handled : method ∈ n.handler)
    (bracketed : Bracketed (segs.filter (· ≠ []))) {seg : Text} (mem : seg ∈ segs) (special : isSpecial seg = true)
    (untyped : ':' ∉ inner seg) : ¬ DocumentMatches (collectOpenapiPaths reg order r []) r := by
  intro agrees
  obtain ⟨item, op, collected, found⟩ := nodeCollected reg order proper node fits handled
  obtain ⟨segs', n', node', _, _, same⟩ := agrees.registered _ item method op collected found
  have plain := nodePlain proper node
  have inside : seg ∈ segs.filter (· ≠ []) := by
    refine List.mem_filter.mpr ⟨mem, ?_⟩
    rw [specialShape special]
    simp
  obtain ⟨done, typed, _, converted⟩ := convertBracketed bracketed (fun s among => plain s (List.mem_of_mem_filter among))
  obtain ⟨parts, key, static⟩ := keyStatic (nodePlain proper node')
  rw [convertRaw plain, if_neg (List.ne_nil_of_mem inside), converted, key] at same
  have parted := delimitedInj (fun part among => (static part among).1) ?_ same
  · have form : partly done seg = seg := by
      have fresh : seg ∉ done := fun did => untyped (typed seg did)
      simp [partly, fresh]
    have part : seg ∈ parts := by
      rw [parted]
      exact List.mem_map.mpr ⟨seg, inside, form⟩
    rw [(static seg part).2] at special
    cases special
  · intro part among
    obtain ⟨s, memS, rfl⟩ := List.mem_map.mp among
    have free := plain s (List.mem_of_mem_filter memS)
    unfold partly
    split
    · exact writtenSlashFree free
    · exact free

theorem documentableMatches (proper : Throughout Proper r)
    (documentable : ∀ segs n method, (segs, n) ∈ nodes r → standard method = true → method ∈ n.handler →
      Documentable (segs.filter (· ≠ []))) : DocumentMatches (collectOpenapiPaths reg order r []) r := by
  refine ⟨fun segs n method node fits handled => ?_, fun key item method op mem found => ?_, fun key item method op mem found => ?_⟩
  · rw [← documentedKey (nodePlain proper node) (documentable segs n method node fits handled)]
    exact nodeCollected reg order proper node fits handled
  · obtain ⟨segs, n, node, fits, handled, key_, _⟩ := collectedNode reg order proper mem found
    rw [documentedKey (nodePlain proper node) (documentable segs n method node fits handled)] at key_
    exact ⟨segs, n, node, fits, handled, key_⟩
  · obtain ⟨segs, n, node, fits, handled, key_, names⟩ := collectedNode reg order proper mem found
    rw [documentedKey (nodePlain proper node) (documentable segs n method node fits handled)] at key_
    rw [names, ← key_]
    exact documentedNames (documentable segs n method node fits handled)

end

def unregistered : Registry Unit Unit := ⟨fun _ => none, fun _ => none, fun _ => none, fun _ => none, fun _ => []⟩

def inOrder : EntryOrder Unit := ⟨fun map => map.entries.map (fun entry => (entry.1, entry.2)), fun _ => .refl _⟩

def lone (seg : Text) : Route Unit Unit Unit := (Route.new seg).insertHandler .get ()

theorem loneGrows (seg : Text) : Grows (Route.new seg) (lone seg) := .insertHandler .get () (.new seg)

theorem loneShape {seg : Text} (plain : '/' ∉ seg) : lone seg = (Route.single seg seg).insertHandler .get () := by
  have trimmed := trimFree plain
  have shape : (Route.new seg : Route Unit Unit Unit) = Route.single seg seg := by
    rcases newCases (H := Unit) (M := Unit) (V := Unit) seg with ⟨_, shape⟩ | ⟨more, _⟩
    · rw [shape, trimmed, splitFirstAbsent plain]
    · rw [trimmed, splitFirstAbsent plain] at more
      exact absurd rfl more
  rw [lone, shape]

theorem loneNodes {seg : Text} (plain : '/' ∉ seg) : nodes (lone seg) = [([seg], lone seg)] := by
  rw [nodes, loneShape plain]
  simp [Route.insertHandler, Route.single]

theorem appendFresh {self route : Route Unit Unit Unit} (here : '/' ∉ self.createPath)
    (fresh : self.children.findIdx? (Route.sameNode route) = none) :
    self.append route = some {self with children := self.children ++ [route]} := by
  rw [Route.append, Route.updateRealRoute, if_neg here, Route.mergeChild, fresh]

def beneath (seg : Text) (route : Route Unit Unit Unit) : Route Unit Unit Unit := {lone seg with children := [route]}

theorem beneathGrows {seg : Text} {start route : Route Unit Unit Unit} (plain : '/' ∉ seg) (other : Grows start route) :
    Grows (Route.new seg) (beneath seg route) := by
  refine .append (loneGrows seg) other ?_
  rw [appendFresh (by rw [loneShape plain]; exact plain) (by rw [loneShape plain]; rfl), beneath, loneShape plain]
  rfl

theorem beneathNodes {seg : Text} {route : Route Unit Unit Unit} (plain : '/' ∉ seg) :
    nodes (beneath seg route) = ([seg], beneath seg route) :: (nodes route).map (fun node => (seg :: node.1, node.2)) := by
  rw [nodes, beneath, loneShape plain]
  simp [Route.insertHandler, Route.single]

def filesRoute : Route Unit Unit Unit := beneath "users".toList (beneath "<id:i64>".toList (lone "<file:**>".toList))

end Silent.OpenApiPaths
