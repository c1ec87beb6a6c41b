import Silent.HttpRequest
import Silent.StepSystem

/-! One HTTP/3 request: a task that reads the body from the stream into a channel of eight
slots, and the task that runs the handler, waits for the reading task to give the stream
back, and only then sends the response and polls its body. The receiver of the channel is
part of the request, so what becomes of it is up to the handler. -/
namespace Silent.Http3Exchange
open ByteText HttpRequest StepSystem

-- `bytes::Bytes`: an allocation is at most `isize::MAX` bytes long.
structure Bytes where
  data : List UInt8
  fits : data.length < 9223372036854775808
  deriving DecidableEq

def usizeMax : Nat := 18446744073709551615

def saturatingAdd (a b : Nat) : Nat := min (a + b) usizeMax

inductive ErrorKind where
  | timedOut
  | other
  deriving DecidableEq, Repr

structure IoError where
  kind : ErrorKind
  message : Text
  deriving DecidableEq, Repr

abbrev Item := Except IoError Bytes

inductive Received where
  | chunk (bytes : Bytes)
  | finished
  | failed (err : Text)
  | timedOut
  deriving DecidableEq

structure Config where
  maxBodySize : Option Nat
  readTimeout : Bool
  chunkSize : Nat
  deriving DecidableEq, Repr

-- What the reading task does once an item is sent: the next round, or `return Err`.
inductive AfterSend where
  | loop (total : Nat)
  | bail (err : Text)
  deriving DecidableEq

inductive Reader where
  | receiving (total : Nat)
  | sending (item : Item) (after : AfterSend)
  | ended (result : Except Text Unit)
  deriving DecidableEq

def overLimit (cfg : Config) (total : Nat) : Bool :=
  match cfg.maxBodySize with
  | some max => max < total
  | none => false

def tooLarge : Text := "HTTP/3 request body exceeds limit".toList

def readTimeout : Text := "HTTP/3 body read timeout".toList

def received (cfg : Config) (total : Nat) : Received → Option Reader
  | .timedOut =>
      if cfg.readTimeout then some (.sending (.error ⟨.timedOut, readTimeout⟩) (.bail readTimeout)) else none
  | .failed err => some (.sending (.error ⟨.other, "HTTP/3 body read failed: ".toList ++ err⟩) (.bail err))
  | .finished => some (.ended (.ok ()))
  | .chunk bytes =>
      if bytes.data = [] then some (.receiving total)
      else if overLimit cfg (saturatingAdd total bytes.data.length) then
        some (.sending (.error ⟨.other, tooLarge⟩) (.bail tooLarge))
      else some (.sending (.ok bytes) (.loop (saturatingAdd total bytes.data.length)))

def afterSent : AfterSend → Reader
  | .loop total => .receiving total
  | .bail err => .ended (.error err)

-- With the receiver gone, the loop breaks; the result of sending an error is ignored.
def afterRefused : AfterSend → Reader
  | .loop _ => .ended (.ok ())
  | .bail err => .ended (.error err)

/- The handler and the body of its response, as machines of their own. `handOver` gives
the request body to another task; `answer` says whether the response body has it. A
`pause` of the response body is also a frame without data. -/
inductive HandlerAct (S R : Type) where
  | pause (next : S)
  | read (next : Option Item → S)
  | drop (next : S)
  | handOver (next : S)
  | answer (result : SilentResult R) (keeps : Bool) (body : S)

inductive BodyAct (S : Type) where
  | pause (next : S)
  | read (next : Option Item → S)
  | drop (next : S)
  | frame (data : List UInt8) (next : S)
  | fail (err : Text)
  | done

structure Program (S R : Type) where
  handler : S → HandlerAct S R
  body : S → BodyAct S
  fromError : SilentError → R

def Program.response {S R : Type} (prog : Program S R) : SilentResult R → R
  | .ok response => response
  | .error err => prog.fromError err

inductive Holder where
  | main
  | elsewhere
  | dropped
  deriving DecidableEq, Repr

inductive Main (S R : Type) where
  | handling (state : S)
  | waiting (response : R) (body : S)
  | streaming (body : S)
  | sendingData (buf : List UInt8) (body : S)
  | ended (result : Except Text Unit)
  deriving DecidableEq

inductive Sent (R : Type) where
  | response (response : R)
  | data (chunk : List UInt8)
  | finish
  deriving DecidableEq

structure Exchange (S R : Type) where
  script : List Received
  reader : Reader
  queue : List Item
  holder : Holder
  main : Main S R
  log : List (Sent R)
  answered : Option R
  produced : List UInt8
  deriving DecidableEq

def start {S R : Type} (script : List Received) (state : S) : Exchange S R :=
  ⟨script, .receiving 0, [], .main, .handling state, [], none, []⟩

inductive Task where
  | reader
  | main
  | sendFails (err : Text)
  | otherReads
  | otherDrops
  deriving DecidableEq, Repr

def isEnded : Reader → Bool
  | .ended _ => true
  | _ => false

variable {S R : Type}

def readerStep (cfg : Config) (s : Exchange S R) : Option (Exchange S R) :=
  match s.reader with
  | .receiving total =>
      match s.script with
      | [] => none
      | next :: rest => (received cfg total next).map (fun reader => {s with script := rest, reader := reader})
  | .sending item after =>
      if s.holder = .dropped then some {s with reader := afterRefused after}
      else if s.queue.length < 8 then some {s with queue := s.queue ++ [item], reader := afterSent after}
      else none
  | .ended _ => none

/- The next item of the body, for whoever polls it in the main task: it waits while the
channel is empty and the sender is there. -/
def pollBody (s : Exchange S R) (resume : Option Item → Main S R) : Option (Exchange S R) :=
  if s.holder = .main then
    match s.queue with
    | item :: rest => some {s with queue := rest, main := resume (some item)}
    | [] => if isEnded s.reader then some {s with main := resume none} else none
  else some {s with main := resume none}

def release (s : Exchange S R) (holder : Holder) : Exchange S R :=
  if s.holder = .main then {s with holder := holder} else s

def bodyError : Text := "读取响应体失败: ".toList

def mainStep (cfg : Config) (prog : Program S R) (s : Exchange S R) : Option (Exchange S R) :=
  match s.main with
  | .handling state =>
      match prog.handler state with
      | .pause next => some {s with main := .handling next}
      | .read next => pollBody s (fun item => .handling (next item))
      | .drop next => some {release s .dropped with main := .handling next}
      | .handOver next => some {release s .elsewhere with main := .handling next}
      | .answer result keeps body =>
          some {(if keeps then s else release s .dropped) with
            main := .waiting (prog.response result) body
            answered := some (prog.response result)}
  | .waiting response body =>
      match s.reader with
      | .ended (.ok ()) => some {s with main := .streaming body, log := s.log ++ [.response response]}
      | .ended (.error err) => some {s with main := .ended (.error err)}
      | _ => none
  | .streaming body =>
      match prog.body body with
      | .pause next => some {s with main := .streaming next}
      | .read next => pollBody s (fun item => .streaming (next item))
      | .drop next => some {release s .dropped with main := .streaming next}
      | .frame data next =>
          if data = [] then some {s with main := .streaming next}
          else some {s with main := .sendingData data next, produced := s.produced ++ data}
      | .fail err => some {s with main := .ended (.error (bodyError ++ err))}
      | .done => some {s with main := .ended (.ok ()), log := s.log ++ [.finish]}
  | .sendingData buf body =>
      if buf = [] then some {s with main := .streaming body}
      else some {s with
        main := .sendingData (buf.drop (min buf.length cfg.chunkSize)) body
        log := s.log ++ [.data (buf.take (min buf.length cfg.chunkSize))]}
  | .ended _ => none

def aboutToSend (prog : Program S R) (s : Exchange S R) : Bool :=
  match s.main with
  | .waiting _ _ => s.reader = .ended (.ok ())
  | .streaming body =>
      match prog.body body with
      | .done => true
      | _ => false
  | .sendingData buf _ => buf ≠ []
  | _ => false

def step (cfg : Config) (prog : Program S R) (s : Exchange S R) : Task → Option (Exchange S R)
  | .reader => readerStep cfg s
  | .main => mainStep cfg prog s
  -- an operation of the stream fails and `?` leaves the function
  | .sendFails err => if aboutToSend prog s then some {s with main := .ended (.error err)} else none
  | .otherReads =>
      if s.holder = .elsewhere then
        match s.queue with
        | _ :: rest => some {s with queue := rest}
        | [] => none
      else none
  | .otherDrops => if s.holder = .elsewhere then some {s with holder := .dropped} else none

def Stuck (cfg : Config) (prog : Program S R) (s : Exchange S R) : Prop :=
  (∀ task, step cfg prog s task = none) ∧ ∀ result, s.main ≠ .ended result

def closes (cfg : Config) : List Received → Bool
  | [] => false
  | .chunk _ :: rest => closes cfg rest
  | .timedOut :: _ => cfg.readTimeout
  | .finished :: _ | .failed _ :: _ => true

def owedBy : List Received → Nat
  | [] => 0
  | .chunk bytes :: rest => (if bytes.data = [] then 0 else 1) + owedBy rest
  | .finished :: _ => 0
  | .failed _ :: _ | .timedOut :: _ => 1

def owed (s : Exchange S R) : Nat :=
  match s.reader with
  | .receiving _ => owedBy s.script
  | .sending _ (.loop _) => 1 + owedBy s.script
  | .sending _ (.bail _) => 1
  | .ended _ => 0

def keepsBody (prog : Program S R) (s : Exchange S R) : Bool :=
  match s.main with
  | .handling state =>
      match prog.handler state with
      | .answer _ keeps _ => keeps && s.holder = .main
      | _ => false
  | _ => false

def Fits (prog : Program S R) (s : Exchange S R) (task : Task) : Prop :=
  task = .main → keepsBody prog s = true → s.queue.length + owed s ≤ 8

instance (prog : Program S R) (s : Exchange S R) (task : Task) : Decidable (Fits prog s task) :=
  inferInstanceAs (Decidable (_ → _ → _))

inductive ReceivedStep (cfg : Config) (total : Nat) : Received → Reader → Prop
  | skips {bytes} (empty : bytes.data = []) : ReceivedStep cfg total (.chunk bytes) (.receiving total)
  | sends {bytes} (more : bytes.data ≠ []) (within : overLimit cfg (saturatingAdd total bytes.data.length) = false) :
      ReceivedStep cfg total (.chunk bytes) (.sending (.ok bytes) (.loop (saturatingAdd total bytes.data.length)))
  | ends : ReceivedStep cfg total .finished (.ended (.ok ()))
  | gives {next item err} (unfinished : next ≠ .finished)
      (exceeds : ∀ bytes, next = .chunk bytes → bytes.data ≠ [] ∧ overLimit cfg (saturatingAdd total bytes.data.length) = true) :
      ReceivedStep cfg total next (.sending (.error item) (.bail err))

theorem receivedCases {cfg : Config} {total : Nat} {next : Received} {reader : Reader}
    (taken : received cfg total next = some reader) : ReceivedStep cfg total next reader := by
  cases next with
  | chunk bytes =>
    simp only [received] at taken
    split at taken
    · rename_i empty
      cases Option.some.inj taken
      exact .skips empty
    · rename_i more
      split at taken
      · rename_i exceeds
        cases Option.some.inj taken
        refine .gives (by simp) (fun other same => ?_)
        cases same
        exact ⟨more, exceeds⟩
      · rename_i within
        cases Option.some.inj taken
        exact .sends more (by simpa using within)
  | finished =>
    cases Option.some.inj taken
    exact .ends
  | failed err =>
    cases Option.some.inj taken
    exact .gives nofun nofun
  | timedOut =>
    simp only [received] at taken
    split at taken
    · cases Option.some.inj taken
      exact .gives nofun nofun
    · contradiction

inductive ReaderStep (cfg : Config) (s : Exchange S R) : Exchange S R → Prop
  | receives {total next rest reader} (receiving : s.reader = .receiving total) (script : s.script = next :: rest)
      (came : received cfg total next = some reader) : ReaderStep cfg s {s with script := rest, reader := reader}
  | refused {item after} (sending : s.reader = .sending item after) (dropped : s.holder = .dropped) :
      ReaderStep cfg s {s with reader := afterRefused after}
  | sends {item after} (sending : s.reader = .sending item after) (held : s.holder ≠ .dropped) (slot : s.queue.length < 8) :
      ReaderStep cfg s {s with queue := s.queue ++ [item], reader := afterSent after}

theorem readerCases {cfg : Config} {s t : Exchange S R} (taken : readerStep cfg s = some t) : ReaderStep cfg s t := by
  unfold readerStep at taken
  split at taken
  · rename_i total receiving
    split at taken
    · contradiction
    · rename_i next rest script
      obtain ⟨reader, came, rfl⟩ := Option.map_eq_some_iff.mp taken
      exact .receives receiving script came
  · rename_i item after sending
    split at taken
    · rename_i dropped
      cases Option.some.inj taken
      exact .refused sending dropped
    · rename_i held
      split at taken
      · rename_i slot
        cases Option.some.inj taken
        exact .sends sending held slot
      · contradiction
  · contradiction

structure Aside (s t : Exchange S R) : Prop where
  main : t.main = s.main
  log : t.log = s.log
  answered : t.answered = s.answered
  produced : t.produced = s.produced

theorem readerAside {cfg : Config} {s t : Exchange S R} (taken : readerStep cfg s = some t) :
    Aside s t ∧ t.holder = s.holder := by
  cases readerCases taken <;> exact ⟨⟨rfl, rfl, rfl, rfl⟩, rfl⟩

theorem sendFailsCases {cfg : Config} {prog : Program S R} {s t : Exchange S R} {err : Text}
    (taken : step cfg prog s (.sendFails err) = some t) :
    aboutToSend prog s = true ∧ t = {s with main := .ended (.error err)} := by
  simp only [step] at taken
  split at taken
  · rename_i about
    exact ⟨about, (Option.some.inj taken).symm⟩
  · contradiction

theorem otherReadsCases {cfg : Config} {prog : Program S R} {s t : Exchange S R}
    (taken : step cfg prog s .otherReads = some t) :
    s.holder = .elsewhere ∧ ∃ item rest, s.queue = item :: rest ∧ t = {s with queue := rest} := by
  simp only [step] at taken
  split at taken
  · rename_i elsewhere
    split at taken
    · rename_i item rest queue
      exact ⟨elsewhere, item, rest, queue, (Option.some.inj taken).symm⟩
    · contradiction
  · contradiction

theorem otherDropsCases {cfg : Config} {prog : Program S R} {s t : Exchange S R}
    (taken : step cfg prog s .otherDrops = some t) : s.holder = .elsewhere ∧ t = {s with holder := .dropped} := by
  simp only [step] at taken
  split at taken
  · rename_i elsewhere
    exact ⟨elsewhere, (Option.some.inj taken).symm⟩
  · contradiction

structure Frame (s t : Exchange S R) : Prop where
  script : t.script = s.script
  reader : t.reader = s.reader
  queue : t.queue <:+ s.queue

structure Silently (s t : Exchange S R) : Prop extends Frame s t where
  log : t.log = s.log
  answered : t.answered = s.answered
  produced : t.produced = s.produced

theorem silentlyMain (s : Exchange S R) (main : Main S R) : Silently s {s with main := main} :=
  ⟨⟨rfl, rfl, List.suffix_rfl⟩, rfl, rfl, rfl⟩

theorem releaseSilently (s : Exchange S R) (holder : Holder) (main : Main S R) :
    Silently s {release s holder with main := main} := by
  unfold release
  split <;> exact ⟨⟨rfl, rfl, List.suffix_rfl⟩, rfl, rfl, rfl⟩

theorem pollSilently {s t : Exchange S R} {resume : Option Item → Main S R} (polled : pollBody s resume = some t) :
    Silently s t ∧ ∃ item, t.main = resume item := by
  unfold pollBody at polled
  split at polled
  · split at polled
    · rename_i item rest queue
      cases Option.some.inj polled
      exact ⟨⟨⟨rfl, rfl, queue ▸ List.suffix_cons _ _⟩, rfl, rfl, rfl⟩, _, rfl⟩
    · split at polled
      · cases Option.some.inj polled
        exact ⟨silentlyMain s _, _, rfl⟩
      · contradiction
  · cases Option.some.inj polled
    exact ⟨silentlyMain s _, _, rfl⟩

inductive MainStep (cfg : Config) (prog : Program S R) (s : Exchange S R) : Exchange S R → Prop
  | handles {state next t} (before : s.main = .handling state) (after : t.main = .handling next) (silent : Silently s t) :
      MainStep cfg prog s t
  | answers {state result keeps body} (before : s.main = .handling state)
      (act : prog.handler state = .answer result keeps body) :
      MainStep cfg prog s {(if keeps then s else release s .dropped) with
        main := .waiting (prog.response result) body
        answered := some (prog.response result)}
  | responds {response body} (before : s.main = .waiting response body) (read : s.reader = .ended (.ok ())) :
      MainStep cfg prog s {s with main := .streaming body, log := s.log ++ [.response response]}
  | gives {response body err} (before : s.main = .waiting response body) (read : s.reader = .ended (.error err)) :
      MainStep cfg prog s {s with main := .ended (.error err)}
  | streams {body next t} (before : s.main = .streaming body) (after : t.main = .streaming next) (silent : Silently s t) :
      MainStep cfg prog s t
  | frames {body data next} (before : s.main = .streaming body) (some_ : data ≠ []) :
      MainStep cfg prog s {s with main := .sendingData data next, produced := s.produced ++ data}
  | fails {body err} (before : s.main = .streaming body) (act : prog.body body = .fail err) :
      MainStep cfg prog s {s with main := .ended (.error (bodyError ++ err))}
  | finishes {body} (before : s.main = .streaming body) (act : prog.body body = .done) :
      MainStep cfg prog s {s with main := .ended (.ok ()), log := s.log ++ [.finish]}
  | sentAll {body} (before : s.main = .sendingData [] body) : MainStep cfg prog s {s with main := .streaming body}
  | sends {buf body} (before : s.main = .sendingData buf body) (more : buf ≠ []) :
      MainStep cfg prog s {s with
        main := .sendingData (buf.drop (min buf.length cfg.chunkSize)) body
        log := s.log ++ [.data (buf.take (min buf.length cfg.chunkSize))]}

theorem mainCases {cfg : Config} {prog : Program S R} {s t : Exchange S R} (taken : mainStep cfg prog s = some t) :
    MainStep cfg prog s t := by
  unfold mainStep at taken
  split at taken
  · rename_i state before
    split at taken
    · cases Option.some.inj taken
      exact .handles before rfl (silentlyMain s _)
    · obtain ⟨silent, item, after⟩ := pollSilently taken
      exact .handles before after silent
    · cases Option.some.inj taken
      exact .handles before rfl (releaseSilently s _ _)
    · cases Option.some.inj taken
      exact .handles before rfl (releaseSilently s _ _)
    · rename_i result keeps body act
      cases Option.some.inj taken
      exact .answers before act
  · rename_i response body before
    split at taken
    · rename_i read
      cases Option.some.inj taken
      exact .responds before read
    · rename_i err read
      cases Option.some.inj taken
      exact .gives before read
    · contradiction
  · rename_i body before
    split at taken
    · cases Option.some.inj taken
      exact .streams before rfl (silentlyMain s _)
    · obtain ⟨silent, item, after⟩ := pollSilently taken
      exact .streams before after silent
    · cases Option.some.inj taken
      exact .streams before rfl (releaseSilently s _ _)
    · split at taken
      · cases Option.some.inj taken
        exact .streams before rfl (silentlyMain s _)
      · rename_i some_
        cases Option.some.inj taken
        exact .frames before some_
    · rename_i err act
      cases Option.some.inj taken
      exact .fails before act
    · rename_i act
      cases Option.some.inj taken
      exact .finishes before act
  · rename_i buf body before
    split at taken
    · rename_i empty
      cases Option.some.inj taken
      subst empty
      exact .sentAll before
    · rename_i more
      cases Option.some.inj taken
      exact .sends before more
  · contradiction

theorem mainFrame {cfg : Config} {prog : Program S R} {s t : Exchange S R} (taken : MainStep cfg prog s t) : Frame s t := by
  cases taken with
  | handles before after silent | streams before after silent => exact silent.toFrame
  | @answers state result keeps body before act =>
    cases keeps with
    | true => exact ⟨rfl, rfl, List.suffix_rfl⟩
    | false =>
      obtain ⟨frame, _⟩ := releaseSilently s .dropped (.waiting (prog.response result) body)
      exact ⟨frame.script, frame.reader, frame.queue⟩
  | _ => exact ⟨rfl, rfl, List.suffix_rfl⟩

theorem handlingIsOver {cfg : Config} {prog : Program S R} {s t : Exchange S R} (taken : MainStep cfg prog s t)
    (later : ∀ state, s.main ≠ .handling state) : t.answered = s.answered ∧ ∀ state, t.main ≠ .handling state := by
  cases taken with
  | handles before | answers before => exact absurd before (later _)
  | streams before after silent => exact ⟨silent.answered, fun state => by simp [after]⟩
  | _ => exact ⟨rfl, nofun⟩

end Silent.Http3Exchange
