import Silent.KeepAliveStream
import Silent.Responses
import Silent.SseData

/-! `sse_reply` from the stream of a handler to the messages of the client: keep-alive, the
`Display` of each event as a frame of the body, and the EventSource that decodes what
arrives before the first error. -/
namespace Silent.SseReply
open ByteText HttpRequest EventStream SseEvent SseData KeepAliveStream StepSystem TowerCompat
open CompressionFrame (HeaderMap)
open Responses (cacheControl)

variable {T : Payload} {E A Err : Type}

def frame (reason : Nat → Option Text) : Except SilentError SSEEvent → Except Text (List UInt8)
  | .ok event => .ok (Utf8Text.encode event.display)
  | .error _ => .error (keepError.display reason)

def sseReply (reason : Nat → Option Text) (eventStream : List (Except SilentError SSEEvent)) : Response T :=
  let headers := HeaderMap.insert [] CompressionFrame.contentType "text/event-stream".toList
  {Response.empty with
    body := .stream (eventStream.map (frame reason))
    headers := HeaderMap.insert headers cacheControl "no-cache".toList}

-- What stands before the first error; a body that fails is cut off there.
def before : List (Except Err A) → List A
  | .ok a :: rest => a :: before rest
  | _ => []

def received (body : ResBody) : List UInt8 := (before body.read.frames).flatten

def contentOf : DataType → Text
  | .text data => data
  | .json data => data

def messages (last : Text) : List SSEEvent → List Message
  | [] => []
  | e :: rest =>
      (e.data.map fun data => ⟨e.name, contentOf data, e.id.getD last⟩).toList ++ messages (e.id.getD last) rest

structure Clean (e : SSEEvent) : Prop extends Plain e where
  pieces : ∀ data, e.data = some (.text data) → ∀ piece ∈ data.splitOnP isLineFeed, piece.head? ≠ some ' '
  whole : ∀ data, e.data = some (.json data) → data.head? ≠ some ' '

def dataAfter (data line : Text) : Text := if isData line then data ++ (field line).2 ++ ['\n'] else data

theorem foldLines {lines : List Text} (full : ∀ line ∈ lines, line ≠ []) (d : Decoder) :
    lines.foldl process d = ⟨lines.foldl dataAfter d.data, lines.foldl eventAfter d.eventType,
      lines.foldl idAfter d.lastEventId, lines.foldl retryAfter d.reconnectionTime, d.dispatched⟩ := by
  induction lines generalizing d with
  | nil => rfl
  | cons line rest ih =>
    obtain ⟨first, others⟩ := List.forall_mem_cons.mp full
    rw [List.foldl_cons, processLine d first, ih others]
    rfl

theorem dataAfterLine {name : Text} (named : ':' ∉ name) (data value : Text) :
    dataAfter data (line name value) = if name = "data".toList then data ++ dropSpace value ++ ['\n'] else data := by
  simp only [dataAfter, isDataLine named, fieldOfLine named, decide_eq_true_eq]

theorem endedPieces (d : Text) : ended (d.splitOnP isLineFeed) = d ++ ['\n'] := by
  induction d using pieceInduction with
  | last s plain => rw [splitPlain plain]; simp [ended]
  | more s t plain ih => rw [splitMore plain]; simpa [ended] using ih

theorem dataPieces {pieces : List Text} (spaceless : ∀ piece ∈ pieces, piece.head? ≠ some ' ') (data : Text) :
    ((pieces.map (("data".toList, ·))).map (fun f => line f.1 f.2)).foldl dataAfter data = data ++ ended pieces := by
  induction pieces generalizing data with
  | nil => simp [ended]
  | cons piece rest ih =>
    obtain ⟨first, others⟩ := List.forall_mem_cons.mp spaceless
    rw [List.map_cons, List.map_cons, List.foldl_cons, dataAfterLine (show ':' ∉ "data".toList by decide), if_pos rfl,
      dropSpaceWhole first, ih others]
    simp [ended]

theorem cleanData {e : SSEEvent} (clean : Clean e) :
    (e.fields.map (fun f => line f.1 f.2)).foldl dataAfter [] =
      (e.data.map fun data => contentOf data ++ ['\n']).getD [] := by
  unfold SSEEvent.fields
  simp only [List.map_append, List.foldl_append]
  rw [foldOthers dataAfter [] (by simp [dataAfterLine]), foldOthers dataAfter "event".toList (by simp [dataAfterLine]),
    foldOthers dataAfter "retry".toList (by simp [dataAfterLine]), foldOthers dataAfter "id".toList (by simp [dataAfterLine])]
  cases data : e.data with
  | none => rfl
  | some kind =>
    cases kind with
    | text content => rw [dataPieces (clean.pieces content data), endedPieces]; rfl
    | json content =>
      rw [dataPieces (by simpa using clean.whole content data)]
      simp [ended, contentOf]

structure Rested (d : Decoder) : Prop where
  data : d.data = []
  event : d.eventType = []

theorem cleanEvent {e : SSEEvent} (clean : Clean e) {d : Decoder} (rested : Rested d) :
    Rested ((e.lines ++ [[]]).foldl process d) ∧
      ((e.lines ++ [[]]).foldl process d).lastEventId = e.id.getD d.lastEventId ∧
      ((e.lines ++ [[]]).foldl process d).dispatched =
        d.dispatched ++ (e.data.map fun data => ⟨e.name, contentOf data, e.id.getD d.lastEventId⟩).toList := by
  have full : ∀ written ∈ e.fields.map (fun f => line f.1 f.2), written ≠ [] := by
    intro written among
    obtain ⟨f, -, rfl⟩ := List.mem_map.mp among
    exact List.append_ne_nil_of_right_ne_nil _ (List.cons_ne_nil _ _)
  have blank : ∀ d, process d [] = dispatch d := fun _ => rfl
  rw [plainLines clean.toPlain, List.foldl_append, List.foldl_cons, List.foldl_nil, blank, foldLines full, rested.data,
    rested.event, cleanData clean, plainEvent clean.toPlain, plainId clean.toPlain]
  cases data : e.data with
  | none => exact ⟨⟨rfl, rfl⟩, rfl, by simp [dispatch]⟩
  | some kind => exact ⟨by constructor <;> simp [dispatch], by simp [dispatch], by simp [dispatch, SSEEvent.name]⟩

theorem cleanStream {events : List SSEEvent} (clean : ∀ e ∈ events, Clean e) {d : Decoder} (rested : Rested d) :
    ((events.flatMap (fun e => e.lines ++ [[]])).foldl process d).dispatched = d.dispatched ++ messages d.lastEventId events := by
  induction events generalizing d with
  | nil => simp [messages]
  | cons e rest ih =>
    obtain ⟨first, others⟩ := List.forall_mem_cons.mp clean
    obtain ⟨next, last, sent⟩ := cleanEvent first rested
    rw [List.flatMap_cons, List.foldl_append, ih others next, last, sent, List.append_assoc, messages]

theorem decodeClean {events : List SSEEvent} (clean : ∀ e ∈ events, Clean e) (time : Nat) :
    (decode time (SseEvent.stream events)).dispatched = messages [] events := by
  rw [decode, splitStream]
  exact cleanStream clean ⟨rfl, rfl⟩

theorem commentClean : Clean (comment KeepAlive.new.commentText) where
  comment text held := by
    cases held
    exact ⟨by simp [KeepAlive.new], by simp [KeepAlive.new]⟩
  event _ held := by cases held
  text _ held := by cases held
  json _ held := by cases held
  id _ held := by cases held
  pieces _ held := by cases held
  whole _ held := by cases held

theorem beforeFrames (reason : Nat → Option Text) (items : List (Except SilentError SSEEvent)) :
    before (items.map (frame reason)) = (before items).map fun event => Utf8Text.encode event.display := by
  induction items with
  | nil => rfl
  | cons item rest ih => cases item <;> simp [before, frame, ih]

theorem beforeKept (items : List (Except E SSEEvent)) : before (items.map kept) = before items := by
  induction items with
  | nil => rfl
  | cons item rest ih => cases item <;> simp [before, kept, ih]

theorem encodeStream (events : List SSEEvent) :
    (events.map fun event => Utf8Text.encode event.display).flatten = Utf8Text.encode (SseEvent.stream events) := by
  induction events with
  | nil => rfl
  | cons e rest ih =>
    have more : SseEvent.stream (e :: rest) = e.display ++ SseEvent.stream rest := List.flatMap_cons
    rw [List.map_cons, List.flatten_cons, ih, more, Utf8Text.encodeAppend]

theorem insertedSilent {records : List (Record E)}
    (comments : ∀ record ∈ records, record.inserted = true → record.product = some (.ok (comment KeepAlive.new.commentText)))
    (last : Text) :
    messages last (before (records.filterMap Record.product)) =
        messages last (before ((records.filter (!·.inserted)).filterMap Record.product)) ∧
      ∀ e ∈ before (records.filterMap Record.product),
        e = comment KeepAlive.new.commentText ∨ e ∈ before ((records.filter (!·.inserted)).filterMap Record.product) := by
  induction records generalizing last with
  | nil => exact ⟨rfl, fun e among => .inr among⟩
  | cons record rest ih =>
    obtain ⟨first, others⟩ := List.forall_mem_cons.mp comments
    have later := ih others
    cases inserted : record.inserted with
    | true =>
      rw [List.filterMap_cons_some (first inserted), List.filter_cons_of_neg (by simp [inserted]), before]
      refine ⟨(later last).1, fun e among => ?_⟩
      rcases List.mem_cons.mp among with rfl | among
      · exact .inl rfl
      · exact (later last).2 e among
    | false =>
      rw [List.filter_cons_of_pos (by simp [inserted])]
      cases product : record.product with
      | none =>
        rw [List.filterMap_cons_none product, List.filterMap_cons_none product]
        exact later last
      | some item =>
        rw [List.filterMap_cons_some product, List.filterMap_cons_some product]
        cases item with
        | error error => exact ⟨rfl, fun e among => .inr among⟩
        | ok event =>
          rw [before, before, messages, messages]
          refine ⟨by rw [(later _).1], fun e among => ?_⟩
          rcases List.mem_cons.mp among with rfl | among
          · exact .inr List.mem_cons_self
          · exact ((later last).2 e among).imp_right (List.mem_cons_of_mem _)

def sourceItem : Move E → Option (Except E SSEEvent)
  | .poll _ (.ready item) => item
  | _ => none

def given (moves : List (Move E)) : List (Except E SSEEvent) := moves.filterMap sourceItem

theorem givenItems (records : List (Record E)) : records.filterMap Record.item = given (records.map Record.move) := by
  rw [given, List.filterMap_map]
  refine List.filterMap_congr fun record _ => ?_
  cases record with
  | fired => rfl
  | polled now source output => cases source <;> rfl

/-- Whenever the stream is polled and its timer fires, the client hears the events of the
handler up to its first error, each once and in order, and nothing else. -/
theorem sseReplyDelivers (reason : Nat → Option Text) {latest start : Nat} (time : Nat) {moves : List (Move E)} {s : System E}
    (ran : exec (KeepAliveStream.step latest) (started latest start .new) moves = some s)
    (clean : ∀ e ∈ before (given moves), Clean e) :
    ∃ text, Utf8Text.decode (received (sseReply (T := T) reason (s.trace.filterMap Record.product)).body) = some text ∧
      (decode time text).dispatched = messages [] (before (given moves)) := by
  have law := (runInvariant (fun _ _ _ _ running taken => runningStep running taken) (execRun moves ran)
    (runningStarted latest start .new)).law
  have items := givenItems s.trace
  rw [traceMoves moves ran] at items
  have order : before ((s.trace.filter (!·.inserted)).filterMap Record.product) = before (given moves) := by
    rw [law.inOrder, items]
    exact beforeKept _
  obtain ⟨same, among⟩ := insertedSilent law.comments []
  rw [order] at same among
  refine ⟨SseEvent.stream (before (s.trace.filterMap Record.product)), ?_, ?_⟩
  · have bytes : received (sseReply (T := T) reason (s.trace.filterMap Record.product)).body =
        Utf8Text.encode (SseEvent.stream (before (s.trace.filterMap Record.product))) := by
      rw [← encodeStream, ← beforeFrames reason]
      rfl
    rw [bytes, Utf8Text.decodeEncode]
  · rw [decodeClean (fun e inside => (among e inside).elim (fun comment => comment ▸ commentClean) (clean e)), same]

def pinged : List (Move Unit) :=
  [.fire, .poll 16000000000 .pending, .poll 16000000000 (.ready (some (.ok ping))), .poll 17000000000 (.ready (some (.error ()))),
    .poll 18000000000 (.ready (some (.ok ping)))]

theorem sseReplyDeliversPing : ∃ s : System Unit, exec (KeepAliveStream.step lastInstant) (started lastInstant 0 .new) pinged = some s ∧
    ∃ text, Utf8Text.decode (received (sseReply (T := TowerCompat.plainPayload) (fun _ => none)
        (s.trace.filterMap Record.product)).body) = some text ∧
      (decode 3000 text).dispatched = [⟨"message".toList, "ping".toList, []⟩] := by
  refine ⟨_, rfl, @sseReplyDelivers TowerCompat.plainPayload Unit (fun _ => none) lastInstant 0 3000 pinged _ rfl ?_⟩
  intro e among
  have same : e = ping := List.mem_singleton.mp among
  subst same
  constructor
  · constructor <;> simp [ping]
  · intro data text piece inside
    cases text
    rw [splitPlain (by decide), List.mem_singleton] at inside
    rw [inside]
    decide
  · intro data json
    cases json

end Silent.SseReply
