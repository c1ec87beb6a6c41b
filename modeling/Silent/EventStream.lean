import Mathlib.Data.List.Basic
import Silent.ByteText

/-! Event streams as an EventSource decodes them: lines ended by LF, CR or CRLF, fields,
and a blank line that dispatches. A byte order mark is not read; a line without an end is
dropped. The second half reads the same lines block by block, a block being what stands
before a blank line. -/
namespace Silent.EventStream
open ByteText

def linesFrom (current : Text) : Text → List Text
  | [] => []
  | '\n' :: rest => current :: linesFrom [] rest
  | '\r' :: '\n' :: rest => current :: linesFrom [] rest
  | '\r' :: rest => current :: linesFrom [] rest
  | c :: rest => linesFrom (current ++ [c]) rest

def splitLines (s : Text) : List Text := linesFrom [] s

def isColon (c : Char) : Bool := c = ':'

def dropSpace : Text → Text
  | ' ' :: value => value
  | value => value

-- A comment has the empty name.
def field (line : Text) : Text × Text :=
  (line.takeWhile (!isColon ·), dropSpace ((line.dropWhile (!isColon ·)).drop 1))

def readInteger (value : Text) : Option Nat :=
  if value ≠ [] ∧ value.all Char.isDigit then some (value.foldl (fun n c => n * 10 + (c.toNat - '0'.toNat)) 0) else none

structure Message where
  name : Text
  data : Text
  lastEventId : Text
  deriving DecidableEq

structure Decoder where
  data : Text
  eventType : Text
  lastEventId : Text
  reconnectionTime : Nat
  dispatched : List Message

def fresh (reconnectionTime : Nat) : Decoder := ⟨[], [], [], reconnectionTime, []⟩

def messageName (eventType : Text) : Text := if eventType = [] then "message".toList else eventType

def idAfter (last : Text) (line : Text) : Text :=
  if (field line).1 = "id".toList ∧ Char.ofNat 0 ∉ (field line).2 then (field line).2 else last

def retryAfter (time : Nat) (line : Text) : Nat :=
  if (field line).1 = "retry".toList then (readInteger (field line).2).getD time else time

def eventAfter (event : Text) (line : Text) : Text := if (field line).1 = "event".toList then (field line).2 else event

def isData (line : Text) : Bool := (field line).1 = "data".toList

def dispatch (d : Decoder) : Decoder :=
  if d.data = [] then {d with eventType := []}
  else {d with
    data := []
    eventType := []
    dispatched := d.dispatched ++ [⟨messageName d.eventType, d.data.dropLast, d.lastEventId⟩]}

def process (d : Decoder) (line : Text) : Decoder :=
  if line = [] then dispatch d
  else {d with
    data := if isData line then d.data ++ (field line).2 ++ ['\n'] else d.data
    eventType := eventAfter d.eventType line
    lastEventId := idAfter d.lastEventId line
    reconnectionTime := retryAfter d.reconnectionTime line}

def decode (reconnectionTime : Nat) (s : Text) : Decoder := (splitLines s).foldl process (fresh reconnectionTime)

def blocksFrom (current : List Text) : List Text → List (List Text)
  | [] => []
  | line :: rest => if line = [] then current :: blocksFrom [] rest else blocksFrom (current ++ [line]) rest

def blocks (lines : List Text) : List (List Text) := blocksFrom [] lines

def speaks (block : List Text) : Bool := block.any isData

def nameOf (block : List Text) : Text := messageName (block.foldl eventAfter [])

def idBlocks (last : Text) (written : List (List Text)) : Text := written.foldl (fun last block => block.foldl idAfter last) last

def retryBlocks (time : Nat) (written : List (List Text)) : Nat := written.foldl (fun time block => block.foldl retryAfter time) time

def readBlocks (last : Text) : List (List Text) → List (Text × Text)
  | [] => []
  | block :: rest =>
      (if speaks block then [(nameOf block, block.foldl idAfter last)] else []) ++ readBlocks (block.foldl idAfter last) rest

def announced (d : Decoder) : List (Text × Text) := d.dispatched.map fun m => (m.name, m.lastEventId)

section
@[simp] theorem linesNil (current : Text) : linesFrom current [] = [] := rfl

@[simp] theorem linesLineFeed (current rest : Text) : linesFrom current ('\n' :: rest) = current :: linesFrom [] rest := rfl

@[simp] theorem linesPair (current rest : Text) : linesFrom current ('\r' :: '\n' :: rest) = current :: linesFrom [] rest := rfl

theorem linesStep {c : Char} (lineFeed : c ≠ '\n') (carriage : c ≠ '\r') (current rest : Text) :
    linesFrom current (c :: rest) = linesFrom (current ++ [c]) rest := by
  rw [linesFrom.eq_5 current c rest lineFeed (fun _ same => absurd same carriage) carriage]

theorem linesReturn {c : Char} (lineFeed : c ≠ '\n') (current rest : Text) :
    linesFrom current ('\r' :: c :: rest) = current :: linesFrom [] (c :: rest) := by
  simp [linesFrom, lineFeed]

theorem linesAppend (current s t : Text) :
    linesFrom current (s ++ '\n' :: t) = linesFrom current (s ++ ['\n']) ++ linesFrom [] t := by
  induction s generalizing current with
  | nil => simp
  | cons c s ih =>
    by_cases feed : c = '\n'
    · simp [feed, ih]
    · by_cases alone : c = '\r'
      · subst alone
        cases s with
        | nil => simp
        | cons d s =>
          by_cases pair : d = '\n'
          · simpa [pair] using ih current
          · simpa [linesReturn pair] using ih []
      · rw [List.cons_append, List.cons_append, linesStep feed alone, linesStep feed alone, ih]

theorem linesRun {s : Text} (lineFeed : '\n' ∉ s) (carriage : '\r' ∉ s) (current t : Text) :
    linesFrom current (s ++ t) = linesFrom (current ++ s) t := by
  induction s generalizing current with
  | nil => rw [List.nil_append, List.append_nil]
  | cons c s ih =>
    simp only [List.mem_cons, not_or] at lineFeed carriage
    rw [List.cons_append, linesStep (Ne.symm lineFeed.1) (Ne.symm carriage.1), ih lineFeed.2 carriage.2,
      List.append_assoc, List.singleton_append]

theorem linesPlain {s : Text} (lineFeed : '\n' ∉ s) (carriage : '\r' ∉ s) (current t : Text) :
    linesFrom current (s ++ '\n' :: t) = (current ++ s) :: linesFrom [] t := by
  rw [linesRun lineFeed carriage, linesLineFeed]

theorem linesShared (s : Text) : ∃ more rest, ∀ current, linesFrom current (s ++ ['\n']) = (current ++ more) :: rest := by
  induction s with
  | nil => exact ⟨[], [], by simp⟩
  | cons c s ih =>
    by_cases feed : c = '\n'
    · exact ⟨[], linesFrom [] (s ++ ['\n']), by simp [feed]⟩
    · by_cases alone : c = '\r'
      · subst alone
        cases s with
        | nil => exact ⟨[], [], by simp⟩
        | cons d s =>
          by_cases pair : d = '\n'
          · exact ⟨[], linesFrom [] (s ++ ['\n']), by simp [pair]⟩
          · exact ⟨[], linesFrom [] (d :: (s ++ ['\n'])), by simp [linesReturn pair]⟩
      · obtain ⟨more, others, found⟩ := ih
        exact ⟨c :: more, others, fun current => by rw [List.cons_append, linesStep feed alone, found]; simp⟩

theorem linesFirst (current s : Text) : ∃ more rest, linesFrom current (s ++ ['\n']) = (current ++ more) :: rest := by
  obtain ⟨more, rest, shared⟩ := linesShared s
  exact ⟨more, rest, shared current⟩

theorem blocksBlank (current : List Text) (rest : List Text) : blocksFrom current ([] :: rest) = current :: blocksFrom [] rest := rfl

theorem blocksNext {line : Text} (full : line ≠ []) (current rest : List Text) :
    blocksFrom current (line :: rest) = blocksFrom (current ++ [line]) rest :=
  if_neg full

theorem blocksLast (current : List Text) : blocksFrom current [[]] = [current] := rfl

theorem blocksPlain {lines : List Text} (full : ∀ line ∈ lines, line ≠ []) (current : List Text) :
    blocksFrom current (lines ++ [[]]) = [current ++ lines] := by
  induction lines generalizing current with
  | nil => rw [List.nil_append, blocksLast, List.append_nil]
  | cons line lines ih =>
    rw [List.cons_append, blocksNext (full line List.mem_cons_self), ih fun other among => full other (List.mem_cons_of_mem _ among),
      List.append_assoc, List.singleton_append]

theorem blocksMember {line : Text} (full : line ≠ []) {lines : List Text} (current : List Text) (among : line ∈ current ++ lines) :
    ∃ block ∈ blocksFrom current (lines ++ [[]]), line ∈ block := by
  induction lines generalizing current with
  | nil => exact ⟨current, by simp [blocksLast], by simpa using among⟩
  | cons first lines ih =>
    by_cases blank : first = []
    · rcases List.mem_append.mp among with before | later
      · exact ⟨current, by simp [blocksBlank, blank], before⟩
      · have below := (List.mem_cons.mp later).resolve_left fun same => full (same.trans blank)
        obtain ⟨block, found, member⟩ := ih [] below
        exact ⟨block, by simp [blocksBlank, blank, found], member⟩
    · obtain ⟨block, found, member⟩ := ih (current ++ [first]) (by simpa using among)
      exact ⟨block, by simpa [blocksNext blank] using found, member⟩

end

section
variable {last : Text}

theorem readNext (block : List Text) (rest : List (List Text)) :
    readBlocks last (block :: rest) =
      (if speaks block then [(nameOf block, block.foldl idAfter last)] else []) ++ readBlocks (block.foldl idAfter last) rest :=
  rfl

theorem readAppend (first rest : List (List Text)) :
    readBlocks last (first ++ rest) = readBlocks last first ++ readBlocks (idBlocks last first) rest := by
  induction first generalizing last with
  | nil => rfl
  | cons block first ih =>
    rw [List.cons_append, readNext, readNext, ih, List.append_assoc]
    rfl

theorem idBlocksAppend (first rest : List (List Text)) : idBlocks last (first ++ rest) = idBlocks (idBlocks last first) rest :=
  List.foldl_append

theorem retryBlocksAppend {time : Nat} (first rest : List (List Text)) :
    retryBlocks time (first ++ rest) = retryBlocks (retryBlocks time first) rest :=
  List.foldl_append

theorem readSilent {written : List (List Text)} : readBlocks last written = [] ↔ ∀ block ∈ written, speaks block = false := by
  induction written generalizing last with
  | nil => exact iff_of_true rfl (by simp)
  | cons block written ih =>
    rw [readNext, List.append_eq_nil_iff, ih]
    cases spoken : speaks block <;> simp [spoken]

theorem readSingle {written : List (List Text)} {said : Text × Text} :
    readBlocks last written = [said] ↔ ∃ before block after, written = before ++ block :: after ∧ speaks block = true ∧
      (∀ other ∈ before ++ after, speaks other = false) ∧ said = (nameOf block, idBlocks last (before ++ [block])) := by
  constructor
  · intro read
    induction written generalizing last with
    | nil => cases read
    | cons block written ih =>
      rw [readNext] at read
      cases spoken : speaks block with
      | true =>
        simp only [spoken, if_true, List.singleton_append, List.cons.injEq] at read
        exact ⟨[], block, written, rfl, spoken, readSilent.mp read.2, read.1.symm⟩
      | false =>
        simp only [spoken, Bool.false_eq_true, if_false, List.nil_append] at read
        obtain ⟨before, other, after, rfl, speaking, silent, same⟩ := ih read
        refine ⟨block :: before, other, after, rfl, speaking, fun quiet among => ?_, same⟩
        rcases List.mem_cons.mp among with here | below
        · exact here ▸ spoken
        · exact silent quiet below
  · rintro ⟨before, block, after, rfl, speaking, silent, rfl⟩
    have quietBefore : readBlocks last before = [] := readSilent.mpr fun other among => silent other (List.mem_append_left _ among)
    have quietAfter (id : Text) : readBlocks id after = [] :=
      readSilent.mpr fun other among => silent other (List.mem_append_right _ among)
    rw [readAppend, quietBefore, readNext, quietAfter, if_pos speaking]
    simp [idBlocks]

end

section
theorem processLine (d : Decoder) {line : Text} (full : line ≠ []) :
    process d line = {d with
      data := if isData line then d.data ++ (field line).2 ++ ['\n'] else d.data
      eventType := eventAfter d.eventType line
      lastEventId := idAfter d.lastEventId line
      reconnectionTime := retryAfter d.reconnectionTime line} := by
  rw [process, if_neg full]

structure Within (d : Decoder) (last : Text) (time : Nat) (current : List Text) : Prop where
  data : d.data = [] ↔ speaks current = false
  event : d.eventType = current.foldl eventAfter []
  identified : d.lastEventId = current.foldl idAfter last
  retried : d.reconnectionTime = current.foldl retryAfter time

theorem withinNext {d : Decoder} {last : Text} {time : Nat} {current : List Text} (within : Within d last time current) {line : Text}
    (full : line ≠ []) : Within (process d line) last time (current ++ [line]) := by
  rw [processLine d full]
  constructor
  · cases carried : isData line with
    | true => simp [speaks, carried]
    | false => simpa [speaks, carried] using within.data
  · simp [within.event]
  · simp [within.identified]
  · simp [within.retried]

theorem withinBlank {d : Decoder} {last : Text} {time : Nat} {current : List Text} (within : Within d last time current) :
    Within (process d []) (current.foldl idAfter last) (current.foldl retryAfter time) [] ∧
    announced (process d []) = announced d ++ if speaks current then [(nameOf current, current.foldl idAfter last)] else [] := by
  have blank : process d [] = dispatch d := rfl
  rw [blank, dispatch]
  cases spoken : speaks current with
  | false =>
    have empty := within.data.mpr spoken
    rw [if_pos empty]
    exact ⟨⟨by simp [empty, speaks], rfl, within.identified, within.retried⟩, by simp [announced]⟩
  | true =>
    have held : d.data ≠ [] := fun empty => by simp [within.data.mp empty] at spoken
    rw [if_neg held]
    refine ⟨⟨by simp [speaks], rfl, within.identified, within.retried⟩, ?_⟩
    simp [announced, within.event, within.identified, nameOf]

theorem feedBlocks (lines : List Text) {d : Decoder} {last : Text} {time : Nat} {current : List Text} (within : Within d last time current) :
    announced ((lines ++ [[]]).foldl process d) = announced d ++ readBlocks last (blocksFrom current (lines ++ [[]])) ∧
    Within ((lines ++ [[]]).foldl process d) (idBlocks last (blocksFrom current (lines ++ [[]])))
      (retryBlocks time (blocksFrom current (lines ++ [[]]))) [] := by
  induction lines generalizing d last time current with
  | nil =>
    obtain ⟨next, said⟩ := withinBlank within
    exact ⟨by simpa [blocksLast, readBlocks] using said, by simpa [blocksLast, idBlocks, retryBlocks] using next⟩
  | cons line lines ih =>
    by_cases blank : line = []
    · subst blank
      obtain ⟨next, said⟩ := withinBlank within
      obtain ⟨later, end_⟩ := ih next
      rw [List.cons_append, List.foldl_cons, blocksBlank, readNext]
      exact ⟨by rw [later, said, List.append_assoc], end_⟩
    · obtain ⟨later, end_⟩ := ih (withinNext within blank)
      rw [List.cons_append, List.foldl_cons, blocksNext blank]
      refine ⟨?_, end_⟩
      rw [later, processLine d blank]
      rfl

end

end Silent.EventStream
