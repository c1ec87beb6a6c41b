import Silent.EventStream
import Silent.Numerals

/-! `SSEEvent` and what an EventSource makes of its `Display` output. Only names and last
event ids of the dispatched messages are compared, as is the reconnection time; whether the
data arrives unchanged is not asked. -/
namespace Silent.SseEvent
open ByteText EventStream Numerals

structure Duration where
  secs : Nat
  nanos : Nat

def Duration.subsecMillis (self : Duration) : Nat := self.nanos / 1000000

inductive DataType where
  | text (data : Text)
  | json (data : Text)

structure SSEEvent where
  id : Option Text
  data : Option DataType
  event : Option Text
  comment : Option Text
  retry : Option Duration

def writeField (name value : Text) : Text := name ++ ':' :: (value ++ ['\n'])

def isLineFeed (c : Char) : Bool := c = '\n'

def digits (n : Nat) : Text := Nat.toDigits 10 n

def retryMillis (duration : Duration) : Text :=
  (if 0 < duration.secs then
    digits duration.secs ++ if duration.subsecMillis < 10 then ['0', '0'] else if duration.subsecMillis < 100 then ['0'] else []
  else []) ++ digits duration.subsecMillis

def SSEEvent.display (self : SSEEvent) : Text :=
  (match self.comment with
    | some comment => writeField [] comment
    | none => []) ++
  (match self.event with
    | some event => writeField "event".toList event
    | none => []) ++
  (match self.data with
    | some (.text data) => (data.splitOnP isLineFeed).flatMap (writeField "data".toList)
    | some (.json data) => writeField "data".toList data
    | none => []) ++
  (match self.id with
    | some id => writeField "id".toList id
    | none => []) ++
  (match self.retry with
    | some duration => writeField "retry".toList (retryMillis duration)
    | none => []) ++ ['\n']

def stream (events : List SSEEvent) : Text := events.flatMap SSEEvent.display

def SSEEvent.name (self : SSEEvent) : Text := messageName (self.event.getD [])

def latestId (last : Text) (events : List SSEEvent) : Text := events.foldl (fun last e => e.id.getD last) last

def expected (last : Text) : List SSEEvent → List (Text × Text)
  | [] => []
  | e :: rest => (if e.data.isSome then [(e.name, e.id.getD last)] else []) ++ expected (e.id.getD last) rest

structure Unbroken (time : Nat) (events : List SSEEvent) : Prop where
  messages : announced (decode time (stream events)) = expected [] events
  reconnection : ∀ before e after, events = before ++ e :: after → e.retry = none →
    (decode time (stream (before ++ [e]))).reconnectionTime = (decode time (stream before)).reconnectionTime

def SSEEvent.fields (self : SSEEvent) : List (Text × Text) :=
  self.comment.toList.map (([], ·)) ++
  self.event.toList.map (("event".toList, ·)) ++
  (match self.data with
    | some (.text data) => data.splitOnP isLineFeed
    | some (.json data) => [data]
    | none => []).map (("data".toList, ·)) ++
  self.id.toList.map (("id".toList, ·)) ++
  (self.retry.toList.map retryMillis).map (("retry".toList, ·))

def brokenLines (name value : Text) : List Text := splitLines (writeField name value)

def SSEEvent.lines (self : SSEEvent) : List Text := self.fields.flatMap (fun f => brokenLines f.1 f.2)

def SSEEvent.blocks (self : SSEEvent) : List (List Text) := EventStream.blocks (self.lines ++ [[]])

def written (events : List SSEEvent) : List (List Text) := events.flatMap SSEEvent.blocks

theorem displayFields (self : SSEEvent) : self.display = self.fields.flatMap (fun f => writeField f.1 f.2) ++ ['\n'] := by
  obtain ⟨id, data, event, comment, retry⟩ := self
  rcases data with _ | ⟨data | data⟩ <;> cases id <;> cases event <;> cases comment <;> cases retry <;>
    simp [SSEEvent.display, SSEEvent.fields, List.flatMap_map]

theorem splitFields (fields : List (Text × Text)) (rest : Text) :
    splitLines (fields.flatMap (fun f => writeField f.1 f.2) ++ rest) =
      fields.flatMap (fun f => brokenLines f.1 f.2) ++ splitLines rest := by
  induction fields with
  | nil => rfl
  | cons f fields ih =>
    have apart := linesAppend [] (f.1 ++ ':' :: f.2) (fields.flatMap (fun f => writeField f.1 f.2) ++ rest)
    simp only [splitLines, List.flatMap_cons, writeField, brokenLines, List.append_assoc, List.cons_append,
      List.nil_append] at apart ih ⊢
    rw [apart, ih]

theorem splitDisplay (self : SSEEvent) (rest : Text) : splitLines (self.display ++ rest) = self.lines ++ [] :: splitLines rest := by
  rw [displayFields, List.append_assoc, splitFields]
  rfl

theorem splitStream (events : List SSEEvent) : splitLines (stream events) = events.flatMap (fun e => e.lines ++ [[]]) := by
  induction events with
  | nil => rfl
  | cons e events ih =>
    have first := splitDisplay e (stream events)
    rw [stream, List.flatMap_cons, ← stream, first, ih]
    simp

theorem feedStream (events : List SSEEvent) {d : Decoder} {last : Text} {time : Nat} (within : Within d last time []) :
    announced ((events.flatMap (fun e => e.lines ++ [[]])).foldl process d) = announced d ++ readBlocks last (written events) ∧
    Within ((events.flatMap (fun e => e.lines ++ [[]])).foldl process d) (idBlocks last (written events))
      (retryBlocks time (written events)) [] := by
  induction events generalizing d last time with
  | nil => exact ⟨by simp [written, readBlocks], within⟩
  | cons e events ih =>
    obtain ⟨said, next⟩ := feedBlocks e.lines within
    obtain ⟨later, end_⟩ := ih next
    rw [List.flatMap_cons, List.foldl_append, written, List.flatMap_cons]
    refine ⟨?_, ?_⟩
    · rw [later, said, readAppend, List.append_assoc]
      rfl
    · rw [idBlocksAppend, retryBlocksAppend]
      exact end_

theorem decodeStream (time : Nat) (events : List SSEEvent) :
    announced (decode time (stream events)) = readBlocks [] (written events) ∧
    (decode time (stream events)).reconnectionTime = retryBlocks time (written events) := by
  have start : Within (fresh time) [] time [] := ⟨by simp [fresh, speaks], rfl, rfl, rfl⟩
  obtain ⟨said, end_⟩ := feedStream events start
  rw [decode, splitStream]
  exact ⟨by simpa [announced, fresh] using said, end_.retried⟩

-- Among the blocks its contents break into, at most the one that carries its data speaks, with its
-- name and the id that stands; and no line changes the reconnection time unasked.
structure Framed (time : Nat) (before : List SSEEvent) (e : SSEEvent) : Prop where
  silent : e.data.isSome = false → ∀ block ∈ e.blocks, speaks block = false
  spoken : e.data.isSome = true → ∃ first block later, e.blocks = first ++ block :: later ∧ speaks block = true ∧
    (∀ other ∈ first ++ later, speaks other = false) ∧ nameOf block = e.name ∧
    idBlocks [] (written before ++ first ++ [block]) = latestId [] (before ++ [e])
  patient : e.retry = none → retryBlocks time (written (before ++ [e])) = retryBlocks time (written before)

def own (last : Text) (e : SSEEvent) : List (Text × Text) := if e.data.isSome then [(e.name, e.id.getD last)] else []

theorem fieldOfData (value : Text) : isData ("data:".toList ++ value) = true := rfl

theorem dataLine {self : SSEEvent} (present : self.data.isSome = true) : ∃ value, "data:".toList ++ value ∈ self.lines := by
  have member : ∃ content, ("data".toList, content) ∈ self.fields := by
    obtain ⟨id, data, event, comment, retry⟩ := self
    cases data with
    | none => cases present
    | some data =>
      cases data with
      | json data => exact ⟨data, by simp [SSEEvent.fields]⟩
      | text data =>
        obtain ⟨first, rest, split⟩ := List.exists_cons_of_ne_nil (List.splitOnP_ne_nil isLineFeed data)
        exact ⟨first, by simp [SSEEvent.fields, split]⟩
  obtain ⟨content, member⟩ := member
  obtain ⟨more, rest, first⟩ := linesFirst "data:".toList content
  refine ⟨more, List.mem_flatMap.mpr ⟨_, member, ?_⟩⟩
  have entered : brokenLines "data".toList content = linesFrom "data:".toList (content ++ ['\n']) := rfl
  simp only [entered, first, List.mem_cons, true_or]

theorem ownShorter (last latest : Text) (e : SSEEvent) : (own latest e).length ≤ (readBlocks last e.blocks).length := by
  unfold own
  cases present : e.data.isSome with
  | false => simp
  | true =>
    obtain ⟨value, among⟩ := dataLine present
    obtain ⟨block, found, member⟩ := blocksMember (List.cons_ne_nil _ _) [] among
    have heard : readBlocks last e.blocks ≠ [] := fun quiet => by
      have speaking : speaks block = true := List.any_eq_true.mpr ⟨_, member, fieldOfData value⟩
      simp [readSilent.mp quiet block found] at speaking
    exact List.length_pos_iff.mpr heard

theorem expectedShorter (last latest : Text) (events : List SSEEvent) :
    (expected latest events).length ≤ (readBlocks last (written events)).length := by
  induction events generalizing last latest with
  | nil => exact Nat.zero_le _
  | cons e events ih =>
    have first := ownShorter last latest e
    have rest := ih (idBlocks last e.blocks) (e.id.getD latest)
    rw [written, List.flatMap_cons, readAppend, expected]
    simp only [List.length_append, own, written] at first rest ⊢
    omega

theorem readOneByOne (last latest : Text) (events : List SSEEvent) :
    readBlocks last (written events) = expected latest events ↔
      ∀ before e after, events = before ++ e :: after →
        readBlocks (idBlocks last (written before)) e.blocks = own (latestId latest before) e := by
  induction events generalizing last latest with
  | nil => simp [written, readBlocks, expected]
  | cons e events ih =>
    have split : readBlocks last (written (e :: events)) =
        readBlocks last e.blocks ++ readBlocks (idBlocks last e.blocks) (written events) := readAppend _ _
    have aim : expected latest (e :: events) = own latest e ++ expected (e.id.getD latest) events := rfl
    rw [split, aim]
    constructor
    · intro same before other after shape
      have first := ownShorter last latest e
      have rest := expectedShorter (idBlocks last e.blocks) (e.id.getD latest) events
      have lengths := congrArg List.length same
      simp only [List.length_append] at lengths
      obtain ⟨here, below⟩ := List.append_inj same (by omega)
      cases before with
      | nil =>
        cases shape
        exact here
      | cons front before =>
        cases shape
        have inner := (ih _ _).mp below before other after rfl
        rw [written, List.flatMap_cons, idBlocksAppend]
        exact inner
    · intro each
      have here : readBlocks last e.blocks = own latest e := each [] e events rfl
      have below := (ih (idBlocks last e.blocks) (e.id.getD latest)).mpr fun before other after shape => by
        have inner := each (e :: before) other after (by rw [shape]; rfl)
        rw [written, List.flatMap_cons, idBlocksAppend] at inner
        exact inner
      rw [here, below]

theorem framedReads (time : Nat) (before : List SSEEvent) (e : SSEEvent) :
    (readBlocks (idBlocks [] (written before)) e.blocks = own (latestId [] before) e ∧
      (e.retry = none → retryBlocks time (written (before ++ [e])) = retryBlocks time (written before))) ↔ Framed time before e := by
  have newest : latestId [] (before ++ [e]) = e.id.getD (latestId [] before) := by rw [latestId, List.foldl_append]; rfl
  unfold own
  cases present : e.data.isSome with
  | false =>
    simp only [Bool.false_eq_true, if_false, readSilent]
    constructor
    · exact fun both => ⟨fun _ => both.1, fun data => absurd (present.symm.trans data) nofun, both.2⟩
    · exact fun framed => ⟨framed.silent present, framed.patient⟩
  | true =>
    simp only [if_true, readSingle, Prod.mk.injEq]
    constructor
    · rintro ⟨⟨first, block, later, shape, speaking, silent, named, identified⟩, patient⟩
      refine ⟨fun data => absurd (present.symm.trans data) nofun, fun _ => ?_, patient⟩
      refine ⟨first, block, later, shape, speaking, silent, named.symm, ?_⟩
      rw [newest, identified, List.append_assoc, idBlocksAppend]
    · intro framed
      obtain ⟨first, block, later, shape, speaking, silent, named, identified⟩ := framed.spoken present
      refine ⟨⟨first, block, later, shape, speaking, silent, named.symm, ?_⟩, framed.patient⟩
      rw [← newest, ← identified, List.append_assoc, idBlocksAppend]

theorem unbrokenReads (time : Nat) (events : List SSEEvent) :
    Unbroken time events ↔ ∀ before e after, events = before ++ e :: after → Framed time before e := by
  have messages : announced (decode time (stream events)) = expected [] events ↔ _ :=
    (decodeStream time events).1 ▸ readOneByOne [] [] events
  constructor
  · intro unbroken before e after shape
    refine (framedReads time before e).mp ⟨messages.mp unbroken.messages before e after shape, fun unset => ?_⟩
    have kept := unbroken.reconnection before e after shape unset
    rwa [(decodeStream time _).2, (decodeStream time _).2] at kept
  · intro framed
    refine ⟨messages.mpr fun before e after shape => ((framedReads time before e).mpr (framed before e after shape)).1, ?_⟩
    intro before e after shape unset
    rw [(decodeStream time _).2, (decodeStream time _).2]
    exact (framed before e after shape).patient unset

def OneLine (s : Text) : Prop := '\n' ∉ s ∧ '\r' ∉ s

structure Plain (e : SSEEvent) : Prop where
  comment : ∀ comment ∈ e.comment, OneLine comment
  event : ∀ event ∈ e.event, OneLine event ∧ event.head? ≠ some ' '
  text : ∀ data, e.data = some (.text data) → '\r' ∉ data
  json : ∀ data, e.data = some (.json data) → OneLine data
  id : ∀ id ∈ e.id, OneLine id ∧ id.head? ≠ some ' ' ∧ Char.ofNat 0 ∉ id

def line (name value : Text) : Text := name ++ ':' :: value

theorem fieldOfLine {name : Text} (named : ':' ∉ name) (value : Text) : field (line name value) = (name, dropSpace value) := by
  have taken : ∀ c ∈ name, (!isColon c) = true := fun c inside => by
    have other : c ≠ ':' := fun same => named (same ▸ inside)
    simp [isColon, other]
  rw [field, line, List.takeWhile_append_of_pos taken, List.dropWhile_append_of_pos taken]
  simp [isColon]

theorem dropSpaceWhole {value : Text} (whole : value.head? ≠ some ' ') : dropSpace value = value := by
  unfold dropSpace
  split
  · exact absurd rfl whole
  · rfl

theorem digitsOneLine {s : Text} (digital : ∀ c ∈ s, c.isDigit = true) : OneLine s :=
  ⟨fun inside => absurd (digital _ inside) (by decide), fun inside => absurd (digital _ inside) (by decide)⟩

theorem retryDigits (duration : Duration) : ∀ c ∈ retryMillis duration, c.isDigit = true := by
  have number (n : Nat) : ∀ c ∈ digits n, c.isDigit = true := fun c inside =>
    Nat.isDigit_of_mem_toDigits (by decide) (by decide) inside
  have padding : ∀ c ∈ (if duration.subsecMillis < 10 then ['0', '0'] else if duration.subsecMillis < 100 then ['0'] else []),
      c.isDigit = true := by
    split
    · simp
    · split <;> simp
  intro c inside
  unfold retryMillis at inside
  rcases List.mem_append.mp inside with front | back
  · split at front
    · rcases List.mem_append.mp front with seconds | pad
      · exact number _ c seconds
      · exact padding c pad
    · cases front
  · exact number _ c back

theorem retryPadding {n : Nat} (small : n < 1000) :
    (if n < 10 then ['0', '0'] else if n < 100 then ['0'] else []) ++ digits n = padded 10 3 n := by
  have width (k : Nat) (some_ : 0 < k) : (digits n).length ≤ k ↔ n < 10 ^ k := Nat.length_toDigits_le_iff (by decide) some_
  have one : (digits n).length ≤ 1 ↔ n < 10 := width 1 (by decide)
  have two : (digits n).length ≤ 2 ↔ n < 100 := width 2 (by decide)
  have three : (digits n).length ≤ 3 := (width 3 (by decide)).mpr small
  have digit : 0 < (digits n).length := Nat.length_toDigits_pos
  change _ = List.replicate (3 - (digits n).length) '0' ++ digits n
  congr 1
  split
  · rw [show (digits n).length = 1 by omega]
    rfl
  · split
    · rw [show (digits n).length = 2 by omega]
      rfl
    · rw [show (digits n).length = 3 by omega]
      rfl

theorem subsecMillisSmall {duration : Duration} (carried : duration.nanos < 1000000000) : duration.subsecMillis < 1000 := by
  unfold Duration.subsecMillis
  omega

/- The retry field is written as one number of milliseconds. -/
theorem retryNumeral (duration : Duration) (carried : duration.nanos < 1000000000) :
    retryMillis duration = digits (duration.secs * 1000 + duration.subsecMillis) ∧
      ((retryMillis duration).head? = some '0' → retryMillis duration = ['0']) ∧
      ∀ e : SSEEvent, e.retry = some duration → ∃ front, e.display =
        front ++ (writeField "retry".toList (digits (duration.secs * 1000 + duration.subsecMillis)) ++ ['\n']) := by
  have small := subsecMillisSmall carried
  have whole : retryMillis duration = digits (duration.secs * 1000 + duration.subsecMillis) := by
    unfold retryMillis
    split
    · rename_i positive
      rw [List.append_assoc, retryPadding small]
      exact (numeralPieces (by decide) (by decide) positive small).symm
    · rename_i none_
      rw [Nat.eq_zero_of_not_pos none_, Nat.zero_mul, Nat.zero_add, List.nil_append]
  refine ⟨whole, fun zero => ?_, fun e set_ => ?_⟩
  · rw [whole] at zero ⊢
    rcases Nat.eq_zero_or_pos (duration.secs * 1000 + duration.subsecMillis) with none_ | positive
    · rw [none_]
      rfl
    · exact absurd zero (noLeadingZero (by decide) _ positive)
  · rw [← whole, SSEEvent.display, set_]
    exact ⟨_, List.append_assoc _ _ _⟩

theorem retryPadded : retryMillis ⟨1, 7000000⟩ = "1007".toList ∧ digits (1 * 1000 + 7) = "1007".toList :=
  ⟨(retryNumeral ⟨1, 7000000⟩ (by decide)).1.trans (by decide), by decide⟩

theorem plainFields {e : SSEEvent} (plain : Plain e) : ∀ f ∈ e.fields, OneLine f.1 ∧ OneLine f.2 := by
  intro f among
  unfold SSEEvent.fields at among
  simp only [List.mem_append, List.mem_map, Option.mem_toList] at among
  rcases among with (((⟨value, found, rfl⟩ | ⟨value, found, rfl⟩) | ⟨value, found, rfl⟩) | ⟨value, found, rfl⟩) |
    ⟨value, ⟨duration, found, rfl⟩, rfl⟩
  · exact ⟨by simp [OneLine], plain.comment value found⟩
  · exact ⟨by simp [OneLine], (plain.event value found).1⟩
  · refine ⟨by simp [OneLine], ?_⟩
    cases data : e.data with
    | none => simp [data] at found
    | some kind =>
      cases kind with
      | json content =>
        simp only [data, List.mem_singleton] at found
        exact found ▸ plain.json content data
      | text content =>
        simp only [data] at found
        have parts := splitPart isLineFeed content value found
        exact ⟨fun feed => absurd (parts _ feed).1 (by decide), fun carriage => plain.text content data (parts _ carriage).2⟩
  · exact ⟨by simp [OneLine], (plain.id value found).1⟩
  · exact ⟨by simp [OneLine], digitsOneLine (retryDigits duration)⟩

theorem plainLines {e : SSEEvent} (plain : Plain e) : e.lines = e.fields.map (fun f => line f.1 f.2) := by
  have each := plainFields plain
  unfold SSEEvent.lines
  generalize e.fields = fields at each
  induction fields with
  | nil => rfl
  | cons f fields ih =>
    obtain ⟨name, value⟩ := each f List.mem_cons_self
    have whole : OneLine (line f.1 f.2) := by
      simp only [OneLine, line, List.mem_append, List.mem_cons, not_or]
      exact ⟨⟨name.1, by decide, value.1⟩, ⟨name.2, by decide, value.2⟩⟩
    have single : brokenLines f.1 f.2 = [line f.1 f.2] := by
      have split := linesPlain whole.1 whole.2 [] []
      simpa [brokenLines, splitLines, writeField, line, linesFrom] using split
    rw [List.flatMap_cons, single, ih fun other among => each other (List.mem_cons_of_mem _ among)]
    rfl

theorem plainBlocks {e : SSEEvent} (plain : Plain e) : e.blocks = [e.fields.map (fun f => line f.1 f.2)] := by
  rw [SSEEvent.blocks, plainLines plain]
  refine blocksPlain (fun written among => ?_) []
  obtain ⟨f, -, rfl⟩ := List.mem_map.mp among
  exact List.append_ne_nil_of_right_ne_nil _ (List.cons_ne_nil _ _)

theorem foldOthers {S : Type} (after : S → Text → S) (name : Text) (quiet : ∀ s value, after s (line name value) = s) (s : S)
    (values : List Text) : ((values.map ((name, ·))).map (fun f => line f.1 f.2)).foldl after s = s := by
  induction values with
  | nil => rfl
  | cons value values ih => simpa [quiet] using ih

theorem eventAfterLine {name : Text} (named : ':' ∉ name) (event value : Text) :
    eventAfter event (line name value) = if name = "event".toList then dropSpace value else event := by
  rw [eventAfter, fieldOfLine named]

theorem idAfterLine {name : Text} (named : ':' ∉ name) (last value : Text) :
    idAfter last (line name value) = if name = "id".toList ∧ Char.ofNat 0 ∉ dropSpace value then dropSpace value else last := by
  rw [idAfter, fieldOfLine named]

theorem retryAfterLine {name : Text} (named : ':' ∉ name) (time : Nat) (value : Text) :
    retryAfter time (line name value) = if name = "retry".toList then (readInteger (dropSpace value)).getD time else time := by
  rw [retryAfter, fieldOfLine named]

theorem isDataLine {name : Text} (named : ':' ∉ name) (value : Text) : isData (line name value) = decide (name = "data".toList) := by
  rw [isData, fieldOfLine named]

theorem plainEvent {e : SSEEvent} (plain : Plain e) :
    (e.fields.map (fun f => line f.1 f.2)).foldl eventAfter [] = e.event.getD [] := by
  unfold SSEEvent.fields
  simp only [List.map_append, List.foldl_append]
  rw [foldOthers eventAfter [] (by simp [eventAfterLine]), foldOthers eventAfter "retry".toList (by simp [eventAfterLine]),
    foldOthers eventAfter "id".toList (by simp [eventAfterLine]), foldOthers eventAfter "data".toList (by simp [eventAfterLine])]
  cases event : e.event with
  | none => rfl
  | some name => simp [eventAfterLine, dropSpaceWhole (plain.event name event).2]

theorem plainId {e : SSEEvent} (plain : Plain e) (last : Text) :
    (e.fields.map (fun f => line f.1 f.2)).foldl idAfter last = e.id.getD last := by
  unfold SSEEvent.fields
  simp only [List.map_append, List.foldl_append]
  rw [foldOthers idAfter [] (by simp [idAfterLine]), foldOthers idAfter "event".toList (by simp [idAfterLine]),
    foldOthers idAfter "data".toList (by simp [idAfterLine]), foldOthers idAfter "retry".toList (by simp [idAfterLine])]
  cases id : e.id with
  | none => rfl
  | some value =>
    have fine := (plain.id value id).2
    simp [idAfterLine, dropSpaceWhole fine.1, fine.2]

theorem plainRetry {e : SSEEvent} (unset : e.retry = none) (time : Nat) :
    (e.fields.map (fun f => line f.1 f.2)).foldl retryAfter time = time := by
  unfold SSEEvent.fields
  simp only [List.map_append, List.foldl_append, unset]
  rw [foldOthers retryAfter [] (by simp [retryAfterLine]), foldOthers retryAfter "event".toList (by simp [retryAfterLine]),
    foldOthers retryAfter "data".toList (by simp [retryAfterLine]), foldOthers retryAfter "id".toList (by simp [retryAfterLine])]
  rfl

theorem plainSpeaks (e : SSEEvent) : speaks (e.fields.map (fun f => line f.1 f.2)) = e.data.isSome := by
  have silent (name : Text) (named : ':' ∉ name) (other : name ≠ "data".toList) (values : List Text) :
      ((values.map ((name, ·))).map (fun f => line f.1 f.2)).any isData = false := by
    simpa [isDataLine named] using fun value (_ : value ∈ values) => other
  unfold SSEEvent.fields speaks
  simp only [List.map_append, List.any_append, silent [] (by simp) (by simp), silent "event".toList (by simp) (by simp),
    silent "id".toList (by simp) (by simp), silent "retry".toList (by simp) (by simp), Bool.false_or, Bool.or_false]
  cases data : e.data with
  | none => rfl
  | some kind =>
    cases kind with
    | json content => simp [isDataLine]
    | text content =>
      obtain ⟨first, rest, split⟩ := List.exists_cons_of_ne_nil (List.splitOnP_ne_nil isLineFeed content)
      simp [split, isDataLine]

theorem plainIds {events : List SSEEvent} (plain : ∀ e ∈ events, Plain e) (last : Text) :
    idBlocks last (written events) = latestId last events := by
  induction events generalizing last with
  | nil => rfl
  | cons e events ih =>
    have single := plainBlocks (plain e List.mem_cons_self)
    have first : idBlocks last [e.fields.map (fun f => line f.1 f.2)] = e.id.getD last := plainId (plain e List.mem_cons_self) last
    rw [written, List.flatMap_cons, idBlocksAppend, single, first]
    exact ih (fun other among => plain other (List.mem_cons_of_mem _ among)) _

theorem plainFramed (time : Nat) {before : List SSEEvent} {e : SSEEvent} (plain : ∀ other ∈ before ++ [e], Plain other) :
    Framed time before e := by
  have here : Plain e := plain e (by simp)
  have single := plainBlocks here
  constructor
  · intro absent block among
    rw [single] at among
    rw [List.mem_singleton.mp among, plainSpeaks, absent]
  · intro present
    refine ⟨[], _, [], single, by rw [plainSpeaks, present], nofun, by rw [nameOf, plainEvent here, SSEEvent.name], ?_⟩
    rw [← plainIds plain []]
    simp [written, single]
  · intro unset
    rw [written, List.flatMap_append, retryBlocksAppend]
    simp [single, retryBlocks, plainRetry unset, written]

theorem framingHolds (time : Nat) (events : List SSEEvent) :
    (Unbroken time events ↔ ∀ before e after, events = before ++ e :: after → Framed time before e) ∧
    ((∀ e ∈ events, Plain e) → Unbroken time events) := by
  refine ⟨unbrokenReads time events, fun plain => (unbrokenReads time events).mpr fun before e after shape => ?_⟩
  refine plainFramed time fun other among => plain other ?_
  rw [shape, List.append_cons]
  exact List.mem_append_left _ among

def injected : SSEEvent := ⟨none, some (.text "hello".toList), some "tick\ndata:forged\n\n".toList, none, none⟩

theorem eventNameForgesMessage : ¬Unbroken 3000 [injected] := by
  intro unbroken
  exact absurd unbroken.messages (by decide)

end Silent.SseEvent
