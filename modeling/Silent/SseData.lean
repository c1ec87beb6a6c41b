import Silent.PathSegment
import Silent.SseEvent

/-! Whether the data of an event arrives as it was given. The event writes one `data:`
line for each piece between line feeds; the decoder also ends lines at carriage returns
and drops one space after the colon. What it hears is never longer than the lines of the
data, and as long only if no piece is broken or shortened. -/
namespace Silent.SseData
open ByteText PathSegment EventStream SseEvent

def dataEvent (d : Text) : SSEEvent := ⟨none, some (.text d), none, none, none⟩

def normalise : Text → Text
  | [] => []
  | '\r' :: '\n' :: rest => '\n' :: normalise rest
  | '\r' :: rest => '\n' :: normalise rest
  | c :: rest => c :: normalise rest

def Carried (time : Nat) (d : Text) : Prop :=
  ∃ message, (decode time (dataEvent d).display).dispatched = [message] ∧ message.data = normalise d

/- No carriage return but before a line feed, and no piece that starts with a space. -/
structure Faithful (d : Text) : Prop where
  pieces : ∀ piece ∈ d.splitOnP isLineFeed, '\r' ∉ piece.dropLast ∧ piece.head? ≠ some ' '
  ends : d.getLast? ≠ some '\r'

def ended (lines : List Text) : Text := lines.flatMap (· ++ ['\n'])

theorem endedCons (line : Text) (lines : List Text) :
    (ended (line :: lines)).length = line.length + 1 + (ended lines).length := by
  simp only [ended, List.flatMap_cons, List.length_append, List.length_singleton]

theorem endedAppend (left right : List Text) : ended (left ++ right) = ended left ++ ended right :=
  List.flatMap_append

theorem lastBehind {c : Char} (other : c ≠ '\r') (rest : Text) : (c :: rest).getLast? = some '\r' ↔ rest.getLast? = some '\r' := by
  cases rest with
  | nil => simpa using other
  | cons _ _ => simp

theorem normaliseLines (d current : Text) :
    current ++ (normalise d ++ ['\n']) =
      ended (linesFrom current (d ++ ['\n'])) ++ if d.getLast? = some '\r' then ['\n'] else [] := by
  fun_induction normalise d generalizing current with
  | case1 => simp [linesFrom, ended]
  | case2 rest ih =>
    have below := ih []
    have last : ('\r' :: '\n' :: rest).getLast? = some '\r' ↔ rest.getLast? = some '\r' := by
      rw [List.getLast?_cons_cons]
      exact lastBehind (by decide) rest
    simp only [List.cons_append, linesFrom, ended, List.flatMap_cons, last] at below ⊢
    simp [← below]
  | case3 rest other ih =>
    cases rest with
    | nil => simp [linesFrom, ended, normalise]
    | cons c rest =>
      have apart : c ≠ '\n' := fun same => other rest (by rw [same])
      have below := ih []
      have last : ('\r' :: c :: rest).getLast? = some '\r' ↔ (c :: rest).getLast? = some '\r' := by simp
      simp only [List.cons_append, linesReturn apart, ended, List.flatMap_cons, last, List.append_assoc,
        List.nil_append] at below ⊢
      rw [below]
  | case4 c rest _ carriage ih =>
    by_cases feed : c = '\n'
    · subst feed
      have below := ih []
      have last := lastBehind (by decide : '\n' ≠ '\r') rest
      simp only [List.cons_append, linesFrom, ended, List.flatMap_cons, last, List.append_assoc,
        List.nil_append] at below ⊢
      rw [below]
    · have below := ih (current ++ [c])
      have last := lastBehind carriage rest
      simp only [List.cons_append, linesStep feed carriage, last, List.append_assoc, List.nil_append] at below ⊢
      exact below

theorem pieceInduction {P : Text → Prop} (last : ∀ s, '\n' ∉ s → P s)
    (more : ∀ s t, '\n' ∉ s → P t → P (s ++ '\n' :: t)) (d : Text) : P d := by
  induction size : d.length using Nat.strongRecOn generalizing d with
  | ind n ih =>
    by_cases feed : '\n' ∈ d
    · obtain ⟨whole, plain⟩ := splitFirstAt feed
      have shorter := splitFirstShorter feed
      rw [whole]
      exact more _ _ plain (ih _ (size ▸ shorter) _ rfl)
    · exact last d feed

theorem plainFeed {s : Text} (plain : '\n' ∉ s) : ∀ c ∈ s, isLineFeed c = false := by
  intro c mem
  have other : c ≠ '\n' := fun same => plain (same ▸ mem)
  simp [isLineFeed, other]

theorem splitPlain {s : Text} (plain : '\n' ∉ s) : s.splitOnP isLineFeed = [s] :=
  List.splitOnP_eq_singleton (plainFeed plain)

theorem splitMore {s : Text} (plain : '\n' ∉ s) (t : Text) :
    (s ++ '\n' :: t).splitOnP isLineFeed = s :: t.splitOnP isLineFeed :=
  List.splitOnP_append_cons_of_forall_mem (plainFeed plain) '\n' rfl t

theorem piecePlain {d piece : Text} (among : piece ∈ d.splitOnP isLineFeed) : '\n' ∉ piece := by
  induction d using pieceInduction with
  | last s plain =>
    rw [splitPlain plain, List.mem_singleton] at among
    exact among ▸ plain
  | more s t plain ih =>
    rw [splitMore plain] at among
    rcases List.mem_cons.mp among with same | later
    · exact same ▸ plain
    · exact ih later

theorem linesPieces (d : Text) :
    linesFrom [] (d ++ ['\n']) = (d.splitOnP isLineFeed).flatMap (fun piece => linesFrom [] (piece ++ ['\n'])) := by
  induction d using pieceInduction with
  | last s plain => rw [splitPlain plain, List.flatMap_singleton]
  | more s t plain ih =>
    rw [splitMore plain, List.flatMap_cons, ← ih, List.append_assoc, List.cons_append]
    exact linesAppend [] s (t ++ ['\n'])

theorem displayLines (d : Text) :
    splitLines (dataEvent d).display = (d.splitOnP isLineFeed).flatMap (brokenLines "data".toList) ++ [[]] := by
  have split := splitDisplay (dataEvent d) []
  rw [List.append_nil] at split
  rw [split, SSEEvent.lines]
  simp [SSEEvent.fields, dataEvent, List.flatMap_map, splitLines, linesFrom]

theorem brokenFrom (piece : Text) : brokenLines "data".toList piece = linesFrom "data:".toList (piece ++ ['\n']) := rfl

def weigh (line : Text) : Nat := if isData line then (field line).2.length + 1 else 0

def heard : List Text → Nat
  | [] => 0
  | line :: rest => weigh line + heard rest

theorem heardAppend (left right : List Text) : heard (left ++ right) = heard left + heard right := by
  induction left with
  | nil => simp [heard]
  | cons line left ih => rw [List.cons_append, heard, heard, ih, Nat.add_assoc]

def said (d : Decoder) : Nat := (ended (d.dispatched.map Message.data)).length + d.data.length

theorem saidProcess (d : Decoder) (line : Text) : said (process d line) = said d + weigh line := by
  unfold process
  split
  · rename_i blank
    subst blank
    have silent : weigh [] = 0 := rfl
    rw [silent, dispatch]
    split
    · rfl
    · rename_i held
      have shorter : d.data.dropLast.length + 1 = d.data.length := by
        rw [List.length_dropLast]
        have positive := List.length_pos_iff.mpr held
        omega
      simp [said, ended]
      omega
  · unfold said weigh
    cases isData line <;> simp
    omega

theorem saidFold (lines : List Text) (d : Decoder) : said (lines.foldl process d) = said d + heard lines := by
  induction lines generalizing d with
  | nil => rfl
  | cons line lines ih => rw [List.foldl_cons, ih, saidProcess, heard, Nat.add_assoc]

theorem dropSpaceShorter (value : Text) :
    (dropSpace value).length ≤ value.length ∧ ((dropSpace value).length = value.length → value.head? ≠ some ' ') := by
  unfold dropSpace
  split
  · simp
  · rename_i other
    refine ⟨Nat.le_refl _, fun _ first => ?_⟩
    obtain ⟨rest, same⟩ := List.head?_eq_some_iff.mp first
    exact other rest same

theorem weighData (value : Text) : weigh ("data:".toList ++ value) = (dropSpace value).length + 1 := rfl

theorem weighShort (line : Text) : weigh line < line.length + 1 := by
  unfold weigh
  split
  · rename_i carries
    have name : line.takeWhile (!isColon ·) = "data".toList := of_decide_eq_true carries
    have parts := congrArg List.length (List.takeWhile_append_dropWhile (p := (!isColon ·)) (l := line))
    have value := (dropSpaceShorter ((line.dropWhile (!isColon ·)).drop 1)).1
    rw [List.length_append, name] at parts
    rw [List.length_drop] at value
    simp only [field, String.length_toList] at parts ⊢
    have four : "data".length = 4 := rfl
    omega
  · omega

theorem singleLine {piece line : Text} {current : Text} (single : linesFrom current (piece ++ ['\n']) = [line])
    (plain : '\n' ∉ piece) : '\r' ∉ piece.dropLast := by
  induction piece generalizing current with
  | nil => simp
  | cons c piece ih =>
    simp only [List.mem_cons, not_or] at plain
    cases piece with
    | nil => simp
    | cons d piece =>
      by_cases carriage : c = '\r'
      · subst carriage
        have apart : d ≠ '\n' := fun same => plain.2 (by simp [same])
        obtain ⟨more, rest, shared⟩ := linesShared (d :: piece)
        have after := shared []
        rw [List.cons_append] at after
        rw [List.cons_append, List.cons_append, linesReturn apart, after] at single
        simp at single
      · rw [List.cons_append, linesStep (Ne.symm plain.1) carriage] at single
        have below := ih single plain.2
        simp only [List.dropLast_cons_cons, List.mem_cons, not_or]
        exact ⟨Ne.symm carriage, below⟩

theorem spaceStays {piece more : Text} {rest : List Text} (first : linesFrom [] (piece ++ ['\n']) = more :: rest)
    (space : piece.head? = some ' ') : more.head? = some ' ' := by
  obtain ⟨tail, rfl⟩ := List.head?_eq_some_iff.mp space
  obtain ⟨more', rest', shared⟩ := linesShared tail
  rw [List.cons_append, linesStep (by decide) (by decide), shared] at first
  cases first
  rfl

theorem heardShort (lines : List Text) :
    heard lines ≤ (ended lines).length ∧ (heard lines = (ended lines).length → lines = []) := by
  induction lines with
  | nil => simp [heard, ended]
  | cons line lines ih =>
    have first := weighShort line
    rw [heard, endedCons]
    exact ⟨by omega, fun same => by omega⟩

theorem pieceHeard {piece : Text} (plain : '\n' ∉ piece) :
    heard (brokenLines "data".toList piece) ≤ (ended (linesFrom [] (piece ++ ['\n']))).length ∧
      (heard (brokenLines "data".toList piece) = (ended (linesFrom [] (piece ++ ['\n']))).length →
        '\r' ∉ piece.dropLast ∧ piece.head? ≠ some ' ') := by
  obtain ⟨more, rest, shared⟩ := linesShared piece
  have written := shared "data:".toList
  have lines := shared []
  rw [List.nil_append] at lines
  obtain ⟨shorter, whole⟩ := dropSpaceShorter more
  obtain ⟨less, nothing⟩ := heardShort rest
  rw [brokenFrom, written, lines, heard, weighData, endedCons]
  refine ⟨by omega, fun same => ?_⟩
  have alone : rest = [] := nothing (by omega)
  rw [alone] at lines
  exact ⟨singleLine lines plain, fun space => whole (by omega) (spaceStays lines space)⟩

theorem piecesHeard {pieces : List Text} (plain : ∀ piece ∈ pieces, '\n' ∉ piece) :
    heard (pieces.flatMap (brokenLines "data".toList)) ≤
        (ended (pieces.flatMap (fun piece => linesFrom [] (piece ++ ['\n'])))).length ∧
      (heard (pieces.flatMap (brokenLines "data".toList)) =
          (ended (pieces.flatMap (fun piece => linesFrom [] (piece ++ ['\n'])))).length →
        ∀ piece ∈ pieces, '\r' ∉ piece.dropLast ∧ piece.head? ≠ some ' ') := by
  induction pieces with
  | nil => simp [heard, ended]
  | cons piece pieces ih =>
    obtain ⟨less, each⟩ := ih fun other mem => plain other (List.mem_cons_of_mem _ mem)
    obtain ⟨here, own⟩ := pieceHeard (plain piece List.mem_cons_self)
    simp only [List.flatMap_cons, heardAppend, endedAppend, List.length_append]
    refine ⟨by omega, fun same => ?_⟩
    intro other mem
    rcases List.mem_cons.mp mem with rfl | later
    · exact own (by omega)
    · exact each (by omega) other later

theorem carriedFaithful {time : Nat} {d : Text} (carried : Carried time d) : Faithful d := by
  obtain ⟨message, dispatched, data⟩ := carried
  have plain : ∀ piece ∈ d.splitOnP isLineFeed, '\n' ∉ piece := fun piece => piecePlain
  have total := saidFold (splitLines (dataEvent d).display) (fresh time)
  have decoded : (splitLines (dataEvent d).display).foldl process (fresh time) = decode time (dataEvent d).display := rfl
  have normal := congrArg List.length (normaliseLines d [])
  obtain ⟨less, each⟩ := piecesHeard plain
  rw [← linesPieces] at less each
  have start : said (fresh time) = 0 := rfl
  have silent : heard [[]] = 0 := rfl
  rw [decoded, start, displayLines, heardAppend, silent] at total
  unfold said at total
  rw [dispatched, List.map_singleton, endedCons, data] at total
  simp only [List.nil_append, List.length_append, List.length_singleton] at normal
  constructor
  · exact each (by omega)
  · intro last
    rw [if_pos last] at normal
    simp only [List.length_singleton] at normal
    omega

theorem pieceKept {piece : Text} (plain : '\n' ∉ piece) (carriage : '\r' ∉ piece.dropLast) (space : piece.head? ≠ some ' ') :
    ∃ more : Text, (∀ current, linesFrom current (piece ++ ['\n']) = [current ++ more]) ∧ more.head? ≠ some ' ' := by
  rcases List.eq_nil_or_concat piece with rfl | ⟨init, c, rfl⟩
  · exact ⟨[], fun current => by simp [linesFrom], by simp⟩
  · rw [List.concat_eq_append] at plain carriage space ⊢
    rw [List.dropLast_concat] at carriage
    have feed : '\n' ∉ init := fun inside => plain (List.mem_append_left _ inside)
    by_cases last : c = '\r'
    · subst last
      refine ⟨init, fun current => ?_, fun first => ?_⟩
      · rw [List.append_assoc, linesRun feed carriage]
        rfl
      · obtain ⟨tail, rfl⟩ := List.head?_eq_some_iff.mp first
        exact space rfl
    · have whole : '\r' ∉ init ++ [c] := by
        simp only [List.mem_append, List.mem_singleton, not_or]
        exact ⟨carriage, Ne.symm last⟩
      refine ⟨init ++ [c], fun current => ?_, space⟩
      rw [linesPlain plain whole]
      rfl

theorem piecesKept {pieces : List Text} (plain : ∀ piece ∈ pieces, '\n' ∉ piece)
    (faithful : ∀ piece ∈ pieces, '\r' ∉ piece.dropLast ∧ piece.head? ≠ some ' ') :
    ∃ kept : List Text, pieces.flatMap (fun piece => linesFrom [] (piece ++ ['\n'])) = kept ∧
      pieces.flatMap (brokenLines "data".toList) = kept.map ("data:".toList ++ ·) ∧ ∀ more ∈ kept, more.head? ≠ some ' ' := by
  induction pieces with
  | nil => exact ⟨[], rfl, rfl, by simp⟩
  | cons piece pieces ih =>
    obtain ⟨kept, lines, written, spaceless⟩ := ih (fun other mem => plain other (List.mem_cons_of_mem _ mem))
      (fun other mem => faithful other (List.mem_cons_of_mem _ mem))
    obtain ⟨carriage, space⟩ := faithful piece List.mem_cons_self
    obtain ⟨more, single, first⟩ := pieceKept (plain piece List.mem_cons_self) carriage space
    refine ⟨more :: kept, ?_, ?_, List.forall_mem_cons.mpr ⟨first, spaceless⟩⟩
    · rw [List.flatMap_cons, single, lines]
      rfl
    · rw [List.flatMap_cons, brokenFrom, single, written]
      rfl

theorem processData (d : Decoder) {value : Text} (space : value.head? ≠ some ' ') :
    process d ("data:".toList ++ value) = {d with data := d.data ++ value ++ ['\n']} := by
  have named : ':' ∉ "data".toList := by decide
  have whole : "data:".toList ++ value = line "data".toList value := rfl
  have full : line "data".toList value ≠ [] := by rw [← whole]; exact List.cons_ne_nil _ _
  rw [whole, process, if_neg full, isDataLine named, fieldOfLine named, eventAfterLine named, idAfterLine named,
    retryAfterLine named, dropSpaceWhole space]
  rfl

theorem foldData {kept : List Text} (spaceless : ∀ more ∈ kept, more.head? ≠ some ' ') (d : Decoder) :
    (kept.map ("data:".toList ++ ·)).foldl process d = {d with data := d.data ++ ended kept} := by
  induction kept generalizing d with
  | nil => simp [ended]
  | cons more kept ih =>
    obtain ⟨first, rest⟩ := List.forall_mem_cons.mp spaceless
    rw [List.map_cons, List.foldl_cons, processData d first, ih rest]
    simp [ended]

theorem faithfulCarried (time : Nat) {d : Text} (faithful : Faithful d) : Carried time d := by
  have plain : ∀ piece ∈ d.splitOnP isLineFeed, '\n' ∉ piece := fun piece => piecePlain
  obtain ⟨kept, lines, written, spaceless⟩ := piecesKept plain faithful.pieces
  have normal := normaliseLines d []
  rw [linesPieces, lines, if_neg faithful.ends, List.nil_append, List.append_nil] at normal
  have full : ended kept ≠ [] := by rw [← normal]; simp
  have read : decode time (dataEvent d).display = process {fresh time with data := ended kept} [] := by
    rw [decode, displayLines, written, List.foldl_append, foldData spaceless]
    rfl
  refine ⟨⟨"message".toList, normalise d, []⟩, ?_, rfl⟩
  have sent : (process {fresh time with data := ended kept} []).dispatched = [⟨messageName [], (ended kept).dropLast, []⟩] := by
    simp [process, dispatch, full, fresh]
  rw [read, sent, ← normal, List.dropLast_concat]
  rfl

theorem dataCarriedUnlessBroken (time : Nat) (d : Text) : Carried time d ↔ Faithful d :=
  ⟨carriedFaithful, faithfulCarried time⟩

def indented : Text := " x".toList

theorem leadingSpaceLost : ¬Carried 3000 indented := by
  intro carried
  have spaced : indented ∈ indented.splitOnP isLineFeed := by decide
  exact ((carriedFaithful carried).pieces indented spaced).2 rfl

end Silent.SseData
