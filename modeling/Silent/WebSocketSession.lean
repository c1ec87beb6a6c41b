import Silent.ByteText
import Silent.StepSystem

/-! `WebSocketHandlerTrait::handle` with the two tasks it spawns. Every callback and every
write to the socket is a step of its own, and between the steps anyone who was handed a
sender may use it. What the callbacks and the socket answer is given by the number of the
call, so a run may see any answers. -/
namespace Silent.WebSocketSession
open ByteText StepSystem

inductive Message where
  | text (content : Text)
  | binary (data : List UInt8)
  | ping (data : List UInt8)
  | pong (data : List UInt8)
  | close (frame : Option (Nat × Text))
  | frame (data : List UInt8)
  deriving DecidableEq, Repr

def Message.isClose : Message → Bool
  | .close _ => true
  | _ => false

abbrev Incoming := Except Text Message

structure WebSocketHandler where
  onConnect : Option (Except Text Unit)
  onSend : Option (Nat → Message → Except Text Message)
  onReceive : Option (Nat → Message → Except Text Unit)
  onClose : Option Unit

def WebSocketHandler.image (handler : WebSocketHandler) (call : Nat) (message : Message) : Except Text Message :=
  match handler.onSend with
  | some onSend => onSend call message
  | none => .ok message

def WebSocketHandler.accept (handler : WebSocketHandler) (call : Nat) (message : Message) : Except Text Unit :=
  match handler.onReceive with
  | some onReceive => onReceive call message
  | none => .ok ()

abbrev Socket := Nat → Except Text Unit

inductive Handle where
  | begin
  | connecting
  | spawnSender
  | spawnReceiver
  | returned (result : Except Text Unit)
  deriving DecidableEq

inductive Sender where
  | notSpawned
  | receiving
  | mapping (message : Message)
  | writing (message : Message)
  | ended
  deriving DecidableEq

inductive Receiver where
  | notSpawned
  | listening
  | delivering (message : Message)
  | closing
  | ended
  deriving DecidableEq

inductive Event where
  | onConnect
  | onSend (message : Message)
  | written (message : Message)
  | onReceive (message : Message)
  | onClose
  deriving DecidableEq

-- `own` is the sender that `handle` keeps, `clones` are those in other hands. `pushed`
-- and `log` are the history of the channel and of the calls.
structure Session where
  main : Handle
  sender : Sender
  receiver : Receiver
  own : Bool
  clones : Nat
  shut : Bool
  queue : List Message
  incoming : List Incoming
  mapped : Nat
  sent : Nat
  delivered : Nat
  pushed : List Message
  log : List Event
  deriving DecidableEq

def start (incoming : List Incoming) : Session :=
  ⟨.begin, .notSpawned, .notSpawned, true, 0, false, [], incoming, 0, 0, 0, [], []⟩

def Session.isClosed (s : Session) : Bool := s.shut || (!s.own && s.clones == 0)

def handle (handler : WebSocketHandler) (s : Session) : Option Session :=
  match s.main with
  | .begin =>
      match handler.onConnect with
      | none => some {s with main := .spawnSender}
      | some _ => some {s with main := .connecting, clones := s.clones + 1, log := s.log ++ [.onConnect]}
  | .connecting =>
      match handler.onConnect with
      | some (.error err) => some {s with main := .returned (.error err), own := false, shut := true}
      | _ => some {s with main := .spawnSender}
  | .spawnSender => some {s with main := .spawnReceiver, sender := .receiving}
  | .spawnReceiver => some {s with main := .returned (.ok ()), receiver := .listening, own := false}
  | .returned _ => none

def sender (handler : WebSocketHandler) (socket : Socket) (s : Session) : Option Session :=
  match s.sender with
  | .receiving =>
      match s.queue with
      | message :: rest =>
          match handler.onSend with
          | some _ => some {s with queue := rest, sender := .mapping message, log := s.log ++ [.onSend message]}
          | none => some {s with queue := rest, mapped := s.mapped + 1, sender := .writing message}
      | [] => if s.isClosed then some {s with sender := .ended, shut := true} else none
  | .mapping message =>
      match handler.image s.mapped message with
      | .ok message => some {s with mapped := s.mapped + 1, sender := .writing message}
      | .error _ => some {s with mapped := s.mapped + 1, sender := .receiving}
  | .writing message =>
      match socket s.sent with
      | .ok _ => some {s with sent := s.sent + 1, sender := .receiving, log := s.log ++ [.written message]}
      | .error _ => some {s with sent := s.sent + 1, sender := .ended, shut := true}
  | .notSpawned | .ended => none

def leave (handler : WebSocketHandler) (s : Session) : Session :=
  match handler.onClose with
  | some _ => {s with receiver := .closing, log := s.log ++ [.onClose]}
  | none => {s with receiver := .ended}

def receiver (handler : WebSocketHandler) (s : Session) : Option Session :=
  match s.receiver with
  | .listening =>
      match s.incoming with
      | [] => some (leave handler s)
      | .error _ :: rest => some {s with incoming := rest}
      | .ok message :: rest =>
          if message.isClose then some (leave handler {s with incoming := rest})
          else
            match handler.onReceive with
            | some _ =>
                some {s with incoming := rest, receiver := .delivering message, log := s.log ++ [.onReceive message]}
            | none => some {s with incoming := rest, delivered := s.delivered + 1}
  | .delivering message =>
      match handler.accept s.delivered message with
      | .error _ => some (leave handler {s with delivered := s.delivered + 1})
      | .ok _ => some {s with delivered := s.delivered + 1, receiver := .listening}
  | .closing => some {s with receiver := .ended}
  | .notSpawned | .ended => none

inductive Act where
  | main
  | sender
  | receiver
  | push (message : Message)
  | clone
  | drop
  | close
  deriving DecidableEq

def step (handler : WebSocketHandler) (socket : Socket) (s : Session) : Act → Option Session
  | .main => handle handler s
  | .sender => sender handler socket s
  | .receiver => receiver handler s
  | .push message =>
      if 0 < s.clones ∧ s.isClosed = false then
        some {s with queue := s.queue ++ [message], pushed := s.pushed ++ [message]}
      else none
  | .clone => if 0 < s.clones then some {s with clones := s.clones + 1} else none
  | .drop => if 0 < s.clones then some {s with clones := s.clones - 1} else none
  | .close => if 0 < s.clones then some {s with shut := true} else none

def images (handler : WebSocketHandler) (socket : Socket) : Nat → Nat → List Message → List Message
  | _, _, [] => []
  | mapped, sent, message :: rest =>
      match handler.image mapped message with
      | .error _ => images handler socket (mapped + 1) sent rest
      | .ok image =>
          match socket sent with
          | .ok _ => image :: images handler socket (mapped + 1) (sent + 1) rest
          | .error _ => []

def deliveries (handler : WebSocketHandler) : Nat → List Incoming → List Message
  | _, [] => []
  | delivered, .error _ :: rest => deliveries handler delivered rest
  | delivered, .ok message :: rest =>
      if message.isClose then []
      else
        match handler.accept delivered message with
        | .ok _ => message :: deliveries handler (delivered + 1) rest
        | .error _ => [message]

def farewell (handler : WebSocketHandler) : List Event := handler.onClose.toList.map (fun _ => .onClose)

def calls (handler : WebSocketHandler) (delivered : Nat) (incoming : List Incoming) : List Event :=
  (if handler.onReceive.isSome then (deliveries handler delivered incoming).map .onReceive else []) ++ farewell handler

def writtenOf : Event → Option Message
  | .written message => some message
  | _ => none

def ofReceiver : Event → Bool
  | .onReceive _ | .onClose => true
  | _ => false

def written (s : Session) : List Message := s.log.filterMap writtenOf

def received (s : Session) : List Event := s.log.filter ofReceiver

-- What is still to be written, with the messages that are pushed later.
def toWrite (handler : WebSocketHandler) (socket : Socket) (s : Session) (more : List Message) : List Message :=
  match s.sender with
  | .notSpawned | .receiving => images handler socket s.mapped s.sent (s.queue ++ more)
  | .mapping message => images handler socket s.mapped s.sent (message :: (s.queue ++ more))
  | .writing message =>
      match socket s.sent with
      | .ok _ => message :: images handler socket s.mapped (s.sent + 1) (s.queue ++ more)
      | .error _ => []
  | .ended => []

def toCall (handler : WebSocketHandler) (s : Session) : List Event :=
  match s.receiver with
  | .notSpawned | .listening => calls handler s.delivered s.incoming
  | .delivering message =>
      match handler.accept s.delivered message with
      | .ok _ => calls handler (s.delivered + 1) s.incoming
      | .error _ => farewell handler
  | .closing | .ended => []

def Writes (handler : WebSocketHandler) (socket : Socket) (s : Session) : Prop :=
  (s.sender = .ended → s.shut = true) ∧
    ∀ more, (s.sender = .ended → more = []) →
      written s ++ toWrite handler socket s more = images handler socket 0 0 (s.pushed ++ more)

def Calls (handler : WebSocketHandler) (incoming : List Incoming) (s : Session) : Prop :=
  received s ++ toCall handler s = calls handler 0 incoming

def connected (handler : WebSocketHandler) : Bool := !(handler.onConnect matches some (.error _))

def Spawned (handler : WebSocketHandler) (s : Session) : Prop :=
  match s.main with
  | .begin => s.sender = .notSpawned ∧ s.receiver = .notSpawned ∧ s.log = []
  | .connecting => s.sender = .notSpawned ∧ s.receiver = .notSpawned ∧ s.log = [.onConnect]
  | .spawnSender => s.sender = .notSpawned ∧ s.receiver = .notSpawned ∧ connected handler = true
  | .spawnReceiver => s.sender ≠ .notSpawned ∧ s.receiver = .notSpawned ∧ connected handler = true
  | .returned (.ok _) => s.sender ≠ .notSpawned ∧ s.receiver ≠ .notSpawned ∧ connected handler = true
  | .returned (.error err) => s.sender = .notSpawned ∧ s.receiver = .notSpawned ∧ s.log = [.onConnect] ∧
      handler.onConnect = some (.error err)

variable {handler : WebSocketHandler} {socket : Socket} {incoming : List Incoming} {s t : Session}

inductive HandleStep (handler : WebSocketHandler) (s : Session) : Session → Prop
  | goesOn (main : s.main = .begin) (none_ : handler.onConnect = none) : HandleStep handler s {s with main := .spawnSender}
  | connects (main : s.main = .begin) :
      HandleStep handler s {s with main := .connecting, clones := s.clones + 1, log := s.log ++ [.onConnect]}
  | refuses {err} (main : s.main = .connecting) (refused : handler.onConnect = some (.error err)) :
      HandleStep handler s {s with main := .returned (.error err), own := false, shut := true}
  | accepts (main : s.main = .connecting) (fine : connected handler = true) :
      HandleStep handler s {s with main := .spawnSender}
  | spawnsSender (main : s.main = .spawnSender) :
      HandleStep handler s {s with main := .spawnReceiver, sender := .receiving}
  | spawnsReceiver (main : s.main = .spawnReceiver) :
      HandleStep handler s {s with main := .returned (.ok ()), receiver := .listening, own := false}

theorem handleCases (taken : handle handler s = some t) : HandleStep handler s t := by
  unfold handle at taken
  split at taken
  · rename_i main
    split at taken <;> cases Option.some.inj taken
    · rename_i none_
      exact .goesOn main none_
    · exact .connects main
  · rename_i main
    split at taken
    · rename_i err refused
      cases Option.some.inj taken
      exact .refuses main refused
    · rename_i fine
      cases Option.some.inj taken
      refine .accepts main ?_
      match connects : handler.onConnect with
      | none | some (.ok _) => simp [connected, connects]
      | some (.error err) => exact absurd connects (fine err)
  · rename_i main
    cases Option.some.inj taken
    exact .spawnsSender main
  · rename_i main
    cases Option.some.inj taken
    exact .spawnsReceiver main
  · contradiction

inductive SenderStep (handler : WebSocketHandler) (socket : Socket) (s : Session) : Session → Prop
  | takes {message rest} (now : s.sender = .receiving) (queue : s.queue = message :: rest) :
      SenderStep handler socket s {s with queue := rest, sender := .mapping message, log := s.log ++ [.onSend message]}
  | passes {message rest} (now : s.sender = .receiving) (queue : s.queue = message :: rest) (plain : handler.onSend = none) :
      SenderStep handler socket s {s with queue := rest, mapped := s.mapped + 1, sender := .writing message}
  | ends (now : s.sender = .receiving) (queue : s.queue = []) :
      SenderStep handler socket s {s with sender := .ended, shut := true}
  | maps {message image} (now : s.sender = .mapping message) (mapped : handler.image s.mapped message = .ok image) :
      SenderStep handler socket s {s with mapped := s.mapped + 1, sender := .writing image}
  | skips {message err} (now : s.sender = .mapping message) (mapped : handler.image s.mapped message = .error err) :
      SenderStep handler socket s {s with mapped := s.mapped + 1, sender := .receiving}
  | writes {message} (now : s.sender = .writing message) (sent : socket s.sent = .ok ()) :
      SenderStep handler socket s {s with sent := s.sent + 1, sender := .receiving, log := s.log ++ [.written message]}
  | fails {message err} (now : s.sender = .writing message) (sent : socket s.sent = .error err) :
      SenderStep handler socket s {s with sent := s.sent + 1, sender := .ended, shut := true}

theorem senderCases (taken : sender handler socket s = some t) : SenderStep handler socket s t := by
  unfold sender at taken
  split at taken
  · rename_i now
    split at taken
    · rename_i message rest queue
      split at taken <;> cases Option.some.inj taken
      · exact .takes now queue
      · rename_i plain
        exact .passes now queue plain
    · rename_i queue
      split at taken
      · cases Option.some.inj taken
        exact .ends now queue
      · contradiction
  · rename_i message now
    split at taken <;> rename_i mapped <;> cases Option.some.inj taken
    · exact .maps now mapped
    · exact .skips now mapped
  · rename_i message now
    split at taken <;> rename_i sent <;> cases Option.some.inj taken
    · exact .writes now sent
    · exact .fails now sent
  · contradiction
  · contradiction

inductive ReceiverStep (handler : WebSocketHandler) (s : Session) : Session → Prop
  | ends (now : s.receiver = .listening) (next : s.incoming = []) : ReceiverStep handler s (leave handler s)
  | skips {err rest} (now : s.receiver = .listening) (next : s.incoming = .error err :: rest) :
      ReceiverStep handler s {s with incoming := rest}
  | closes {message rest} (now : s.receiver = .listening) (next : s.incoming = .ok message :: rest)
      (closing : message.isClose = true) : ReceiverStep handler s (leave handler {s with incoming := rest})
  | calls {message rest onReceive} (now : s.receiver = .listening) (next : s.incoming = .ok message :: rest)
      (open_ : message.isClose = false) (receives : handler.onReceive = some onReceive) :
      ReceiverStep handler s
        {s with incoming := rest, receiver := .delivering message, log := s.log ++ [.onReceive message]}
  | ignores {message rest} (now : s.receiver = .listening) (next : s.incoming = .ok message :: rest)
      (open_ : message.isClose = false) (receives : handler.onReceive = none) :
      ReceiverStep handler s {s with incoming := rest, delivered := s.delivered + 1}
  | refuses {message err} (now : s.receiver = .delivering message)
      (refused : handler.accept s.delivered message = .error err) :
      ReceiverStep handler s (leave handler {s with delivered := s.delivered + 1})
  | accepts {message} (now : s.receiver = .delivering message) (accepted : handler.accept s.delivered message = .ok ()) :
      ReceiverStep handler s {s with delivered := s.delivered + 1, receiver := .listening}
  | finishes (now : s.receiver = .closing) : ReceiverStep handler s {s with receiver := .ended}

theorem receiverCases (taken : receiver handler s = some t) : ReceiverStep handler s t := by
  unfold receiver at taken
  split at taken
  · rename_i now
    split at taken
    · rename_i next
      cases Option.some.inj taken
      exact .ends now next
    · rename_i err rest next
      cases Option.some.inj taken
      exact .skips now next
    · rename_i message rest next
      split at taken
      · rename_i closing
        cases Option.some.inj taken
        exact .closes now next closing
      · rename_i open_
        have open_ : message.isClose = false := by simpa using open_
        split at taken <;> rename_i receives <;> cases Option.some.inj taken
        · exact .calls now next open_ receives
        · exact .ignores now next open_ receives
  · rename_i message now
    split at taken <;> rename_i answer <;> cases Option.some.inj taken
    · exact .refuses now answer
    · exact .accepts now answer
  · rename_i now
    cases Option.some.inj taken
    exact .finishes now
  · contradiction
  · contradiction

inductive Move (handler : WebSocketHandler) (socket : Socket) (s : Session) : Session → Prop
  | main {t : Session} (taken : handle handler s = some t) : Move handler socket s t
  | sender {t : Session} (taken : sender handler socket s = some t) : Move handler socket s t
  | receiver {t : Session} (taken : receiver handler s = some t) : Move handler socket s t
  | push (message : Message) (open_ : s.isClosed = false) :
      Move handler socket s {s with queue := s.queue ++ [message], pushed := s.pushed ++ [message]}
  | count (clones : Nat) : Move handler socket s {s with clones := clones}
  | close : Move handler socket s {s with shut := true}

theorem moveCases {act : Act} (taken : step handler socket s act = some t) : Move handler socket s t := by
  cases act with
  | main => exact .main taken
  | sender => exact .sender taken
  | receiver => exact .receiver taken
  | push message =>
    simp only [step] at taken
    split at taken
    · rename_i allowed
      cases Option.some.inj taken
      exact .push message allowed.2
    · contradiction
  | clone | drop =>
    simp only [step] at taken
    split at taken
    · cases Option.some.inj taken
      exact .count _
    · contradiction
  | close =>
    simp only [step] at taken
    split at taken
    · cases Option.some.inj taken
      exact .close
    · contradiction

theorem leaveCases (handler : WebSocketHandler) (s : Session) :
    (handler.onClose = some () ∧ leave handler s = {s with receiver := .closing, log := s.log ++ [.onClose]}) ∨
      (handler.onClose = none ∧ leave handler s = {s with receiver := .ended}) := by
  unfold leave
  cases closes : handler.onClose with
  | none => exact .inr ⟨rfl, rfl⟩
  | some _ => exact .inl ⟨rfl, rfl⟩

structure SenderOnly (handler : WebSocketHandler) (s t : Session) : Prop where
  main : t.main = s.main
  receiver : t.receiver = s.receiver
  alive : t.sender ≠ .notSpawned
  received : received t = received s
  toCall : toCall handler t = toCall handler s

structure ReceiverOnly (handler : WebSocketHandler) (socket : Socket) (s t : Session) : Prop where
  main : t.main = s.main
  sender : t.sender = s.sender
  alive : t.receiver ≠ .notSpawned
  written : written t = written s
  toWrite : toWrite handler socket t = toWrite handler socket s
  pushed : t.pushed = s.pushed
  shut : t.shut = s.shut

theorem senderOnly (taken : sender handler socket s = some t) : SenderOnly handler s t := by
  cases senderCases taken <;> exact ⟨rfl, rfl, nofun, by simp [received, ofReceiver], rfl⟩

theorem leaveOnly (handler : WebSocketHandler) (socket : Socket) (u : Session) : ReceiverOnly handler socket u (leave handler u) := by
  rcases leaveCases handler u with ⟨_, left⟩ | ⟨_, left⟩ <;> rw [left] <;>
    exact ⟨rfl, rfl, nofun, by simp [written, writtenOf], rfl, rfl, rfl⟩

theorem receiverOnly (socket : Socket) (taken : receiver handler s = some t) : ReceiverOnly handler socket s t := by
  have alive : s.receiver ≠ .notSpawned := by
    intro idle
    simp [receiver, idle] at taken
  cases receiverCases taken with
  | ends now next => exact leaveOnly handler socket s
  | skips now next => exact ⟨rfl, rfl, alive, rfl, rfl, rfl, rfl⟩
  | @closes message rest now next closing =>
    obtain ⟨main, sender, alive, written, toWrite, pushed, shut⟩ := leaveOnly handler socket {s with incoming := rest}
    exact ⟨main, sender, alive, written, toWrite, pushed, shut⟩
  | calls now next open_ receives => exact ⟨rfl, rfl, nofun, by simp [written, writtenOf], rfl, rfl, rfl⟩
  | ignores now next open_ receives => exact ⟨rfl, rfl, alive, rfl, rfl, rfl, rfl⟩
  | refuses now refused =>
    obtain ⟨main, sender, alive, written, toWrite, pushed, shut⟩ :=
      leaveOnly handler socket {s with delivered := s.delivered + 1}
    exact ⟨main, sender, alive, written, toWrite, pushed, shut⟩
  | accepts now accepted => exact ⟨rfl, rfl, nofun, rfl, rfl, rfl, rfl⟩
  | finishes now => exact ⟨rfl, rfl, nofun, rfl, rfl, rfl, rfl⟩

theorem stepSpawned {act : Act} (spawned : Spawned handler s) (taken : step handler socket s act = some t) :
    Spawned handler t := by
  cases moveCases taken with
  | main taken => cases handleCases taken <;> simp_all [Spawned, connected]
  | sender taken =>
    have alive : s.sender ≠ .notSpawned := by
      intro idle
      simp [sender, idle] at taken
    have kept := senderOnly taken
    unfold Spawned at spawned ⊢
    rw [kept.main, kept.receiver]
    cases main : s.main with
    | returned result => cases result <;> simp_all [kept.alive]
    | _ => simp_all [kept.alive]
  | receiver taken =>
    have alive : s.receiver ≠ .notSpawned := by
      intro idle
      simp [receiver, idle] at taken
    have kept := receiverOnly socket taken
    unfold Spawned at spawned ⊢
    rw [kept.main, kept.sender]
    cases main : s.main with
    | returned result => cases result <;> simp_all [kept.alive]
    | _ => simp_all
  | push message open_ => exact spawned
  | count clones => exact spawned
  | close => exact spawned

theorem writesKept (writes : Writes handler socket s) (log : written t = written s)
    (same : ∀ more, toWrite handler socket t more = toWrite handler socket s more) (pushed : t.pushed = s.pushed)
    (ended : t.sender = .ended ↔ s.sender = .ended) (shut : s.shut = true → t.shut = true) : Writes handler socket t := by
  refine ⟨fun gone => shut (writes.1 (ended.mp gone)), fun more none_ => ?_⟩
  rw [log, same, pushed]
  exact writes.2 more (fun gone => none_ (ended.mpr gone))

theorem callsKept (whole : Calls handler incoming s) (log : received t = received s)
    (same : toCall handler t = toCall handler s) : Calls handler incoming t := by
  unfold Calls
  rw [log, same]
  exact whole

theorem senderWrites (writes : Writes handler socket s) (taken : sender handler socket s = some t) :
    Writes handler socket t := by
  obtain ⟨_, whole⟩ := writes
  cases senderCases taken with
  | takes now queue =>
    refine ⟨nofun, fun more _ => ?_⟩
    rw [← whole more (by rw [now]; nofun)]
    simp [written, writtenOf, toWrite, now, queue]
  | passes now queue plain =>
    refine ⟨nofun, fun more _ => ?_⟩
    rw [← whole more (by rw [now]; nofun)]
    simp only [written, toWrite, now, queue, List.cons_append, images, WebSocketHandler.image, plain]
  | ends now queue =>
    refine ⟨fun _ => rfl, fun more none_ => ?_⟩
    rw [none_ rfl, ← whole [] (by rw [now]; nofun)]
    simp [written, toWrite, now, queue, images]
  | maps now mapped | skips now mapped =>
    refine ⟨nofun, fun more _ => ?_⟩
    rw [← whole more (by rw [now]; nofun)]
    simp only [written, toWrite, now, images, mapped]
  | writes now sent =>
    refine ⟨nofun, fun more _ => ?_⟩
    rw [← whole more (by rw [now]; nofun)]
    simp [written, writtenOf, toWrite, now, sent]
  | fails now sent =>
    refine ⟨fun _ => rfl, fun more none_ => ?_⟩
    rw [none_ rfl, ← whole [] (by rw [now]; nofun)]
    simp [written, toWrite, now, sent]

theorem leaveCalls (u : Session) :
    received (leave handler u) ++ toCall handler (leave handler u) = received u ++ farewell handler := by
  rcases leaveCases handler u with ⟨closes, left⟩ | ⟨closes, left⟩ <;>
    simp [left, received, ofReceiver, toCall, farewell, closes]

theorem receiverCalls (whole : Calls handler incoming s) (taken : receiver handler s = some t) :
    Calls handler incoming t := by
  unfold Calls at whole ⊢
  rw [← whole]
  cases receiverCases taken with
  | ends now next =>
    rw [leaveCalls]
    simp [toCall, now, next, calls, deliveries]
  | skips now next => simp [received, toCall, now, next, calls, deliveries]
  | closes now next closing =>
    rw [leaveCalls]
    simp [received, toCall, now, next, calls, deliveries, closing]
  | @calls message rest onReceive now next open_ receives =>
    cases accepted : handler.accept s.delivered message <;>
      simp [received, List.filter, ofReceiver, toCall, now, next, calls, deliveries, open_, receives, accepted]
  | ignores now next open_ receives => simp [received, toCall, now, calls, receives]
  | refuses now refused =>
    rw [leaveCalls]
    simp [received, toCall, now, refused]
  | accepts now accepted => simp [received, toCall, now, accepted]
  | finishes now => simp [received, toCall, now]

theorem stepWrites {act : Act} (spawned : Spawned handler s) (writes : Writes handler socket s)
    (taken : step handler socket s act = some t) : Writes handler socket t := by
  cases moveCases taken with
  | main taken =>
    cases handleCases taken with
    | goesOn main none_ | accepts main fine | spawnsReceiver main => exact writes
    | connects main => exact writesKept writes (by simp [written, writtenOf]) (fun _ => rfl) rfl Iff.rfl id
    | refuses main refused => exact writesKept writes rfl (fun _ => rfl) rfl Iff.rfl (fun _ => rfl)
    | spawnsSender main =>
      have idle : s.sender = .notSpawned := by
        unfold Spawned at spawned
        rw [main] at spawned
        exact spawned.1
      exact writesKept writes rfl (fun _ => by simp [toWrite, idle]) rfl (by simp [idle]) id
  | sender taken => exact senderWrites writes taken
  | receiver taken =>
    have kept := receiverOnly socket taken
    exact writesKept writes kept.written (fun more => congrFun kept.toWrite more) kept.pushed (by rw [kept.sender])
      (fun closed => kept.shut.trans closed)
  | push message open_ =>
    have going : s.sender ≠ .ended := by
      intro gone
      simp [Session.isClosed, writes.1 gone] at open_
    refine ⟨fun gone => absurd gone going, fun more _ => ?_⟩
    have whole := writes.2 (message :: more) (fun gone => absurd gone going)
    simpa [written, toWrite] using whole
  | count clones => exact writes
  | close => exact writesKept writes rfl (fun _ => rfl) rfl Iff.rfl (fun _ => rfl)

theorem stepCalls {act : Act} (spawned : Spawned handler s) (whole : Calls handler incoming s)
    (taken : step handler socket s act = some t) : Calls handler incoming t := by
  cases moveCases taken with
  | main taken =>
    cases handleCases taken with
    | goesOn main none_ | accepts main fine | refuses main refused | spawnsSender main => exact whole
    | connects main => exact callsKept whole (by simp [received, ofReceiver]) rfl
    | spawnsReceiver main =>
      have idle : s.receiver = .notSpawned := by
        unfold Spawned at spawned
        rw [main] at spawned
        exact spawned.2.1
      exact callsKept whole rfl (by simp [toCall, idle])
  | sender taken =>
    have kept := senderOnly taken
    exact callsKept whole kept.received kept.toCall
  | receiver taken => exact receiverCalls whole taken
  | push message open_ => exact whole
  | count clones => exact whole
  | close => exact whole

def leftToCall (s : Session) : Nat :=
  (match s.main with
    | .begin => 4
    | .connecting => 3
    | .spawnSender => 2
    | .spawnReceiver => 1
    | .returned _ => 0) +
  match s.receiver with
    | .notSpawned | .listening => 2 * s.incoming.length + 2
    | .delivering _ => 2 * s.incoming.length + 3
    | .closing => 1
    | .ended => 0

def leftToSend (s : Session) : Nat :=
  match s.sender with
  | .notSpawned | .receiving => 3 * s.queue.length + 1
  | .mapping _ => 3 * s.queue.length + 3
  | .writing _ => 3 * s.queue.length + 2
  | .ended => 0

theorem leaveFalls (handler : WebSocketHandler) (u : Session) (before : u.receiver = .listening ∨ ∃ message, u.receiver = .delivering message) :
    leftToCall (leave handler u) < leftToCall u ∧ leftToSend (leave handler u) = leftToSend u := by
  rcases leaveCases handler u with ⟨_, left⟩ | ⟨_, left⟩ <;> rcases before with now | ⟨message, now⟩ <;>
    simp [left, leftToCall, leftToSend, now]

theorem handleFalls (spawned : Spawned handler s) (taken : handle handler s = some t) :
    leftToCall t < leftToCall s ∧ leftToSend t = leftToSend s := by
  unfold Spawned at spawned
  cases handleCases taken <;> simp_all [leftToCall, leftToSend]

theorem senderFalls (taken : sender handler socket s = some t) : leftToCall t = leftToCall s ∧ leftToSend t < leftToSend s := by
  cases senderCases taken with
  | takes now queue | passes now queue | ends now queue =>
    refine ⟨rfl, ?_⟩
    simp only [leftToSend, now, queue, List.length_cons, List.length_nil]
    omega
  | maps now | skips now | writes now | fails now =>
    refine ⟨rfl, ?_⟩
    simp only [leftToSend, now]
    omega

theorem receiverFalls (taken : receiver handler s = some t) : leftToCall t < leftToCall s ∧ leftToSend t = leftToSend s := by
  cases receiverCases taken with
  | ends now next => exact leaveFalls handler s (.inl now)
  | skips now next | ignores now next =>
    refine ⟨?_, rfl⟩
    simp [leftToCall, now, next]
  | @closes message rest now next closing =>
    have left := leaveFalls handler {s with incoming := rest} (.inl now)
    refine ⟨Nat.lt_trans left.1 ?_, left.2⟩
    simp [leftToCall, now, next]
  | calls now next open_ receives =>
    refine ⟨?_, rfl⟩
    simp only [leftToCall, now, next, List.length_cons]
    omega
  | @refuses message err now refused => exact leaveFalls handler {s with delivered := s.delivered + 1} (.inr ⟨message, now⟩)
  | accepts now | finishes now =>
    refine ⟨?_, rfl⟩
    simp [leftToCall, now]

/- The protocol at a point of a run. What has been written is the beginning of the images of
what has been pushed, and all of it where the sender has nothing to do. The calls of the
receiver are the beginning of one `on_receive` for each message it is to deliver and then one
`on_close`, and all of them where the receiver has nothing to do. Both come there: a step of a
task takes it nearer, and only a push keeps the sender busy. -/
structure Protocol (handler : WebSocketHandler) (socket : Socket) (incoming : List Incoming) (s : Session) : Prop where
  writes : written s <+: images handler socket 0 0 s.pushed
  calls : received s <+: calls handler 0 incoming
  refused : connected handler = false →
    s.sender = .notSpawned ∧ s.receiver = .notSpawned ∧ written s = [] ∧ received s = []
  writesAll : connected handler = true → handle handler s = none → sender handler socket s = none →
    written s = images handler socket 0 0 s.pushed
  callsAll : connected handler = true → handle handler s = none → receiver handler s = none →
    received s = WebSocketSession.calls handler 0 incoming
  nearer : ∀ act t, step handler socket s act = some t → leftToCall t ≤ leftToCall s ∧
    (act = .main ∨ act = .receiver → leftToCall t < leftToCall s) ∧ (act = .sender → leftToSend t < leftToSend s) ∧
    ((∀ message, act ≠ .push message) → leftToSend t ≤ leftToSend s)

theorem refusedIdle (spawned : Spawned handler s) (refused : connected handler = false) :
    s.sender = .notSpawned ∧ s.receiver = .notSpawned ∧ written s = [] ∧ received s = [] := by
  unfold Spawned at spawned
  unfold written received
  cases main : s.main with
  | returned result => cases result <;> simp_all [writtenOf, ofReceiver]
  | _ => simp_all [writtenOf, ofReceiver]

theorem returnedSpawned (spawned : Spawned handler s) (fine : connected handler = true) (returned : handle handler s = none) :
    s.sender ≠ .notSpawned ∧ s.receiver ≠ .notSpawned := by
  unfold Spawned at spawned
  match main : s.main with
  | .begin => cases connects : handler.onConnect <;> simp [handle, main, connects] at returned
  | .connecting =>
    simp only [handle, main] at returned
    split at returned <;> contradiction
  | .spawnSender | .spawnReceiver => simp [handle, main] at returned
  | .returned (.ok _) =>
    rw [main] at spawned
    exact ⟨spawned.1, spawned.2.1⟩
  | .returned (.error err) =>
    rw [main] at spawned
    simp [connected, spawned.2.2.2] at fine

theorem idleWrites (writes : Writes handler socket s) (alive : s.sender ≠ .notSpawned)
    (idle : sender handler socket s = none) : written s = images handler socket 0 0 s.pushed := by
  have whole := writes.2 [] (fun _ => rfl)
  have nothing : toWrite handler socket s [] = [] := by
    unfold sender at idle
    cases now : s.sender with
    | notSpawned => exact absurd now alive
    | receiving =>
      cases queue : s.queue with
      | nil => simp [toWrite, now, queue, images]
      | cons message rest => cases sends : handler.onSend <;> simp [now, queue, sends] at idle
    | mapping message => cases mapped : handler.image s.mapped message <;> simp [now, mapped] at idle
    | writing message => cases sent : socket s.sent <;> simp [now, sent] at idle
    | ended => simp [toWrite, now]
  simpa [nothing] using whole

theorem idleCalls (whole : Calls handler incoming s) (alive : s.receiver ≠ .notSpawned)
    (idle : receiver handler s = none) : received s = calls handler 0 incoming := by
  have nothing : toCall handler s = [] := by
    unfold receiver at idle
    cases now : s.receiver with
    | notSpawned => exact absurd now alive
    | listening =>
      match next : s.incoming with
      | [] | .error err :: rest => simp [now, next] at idle
      | .ok message :: rest =>
        cases closes : message.isClose <;> cases receives : handler.onReceive <;> simp [now, next, closes, receives] at idle
    | delivering message => cases accepted : handler.accept s.delivered message <;> simp [now, accepted] at idle
    | closing => simp [now] at idle
    | ended => simp [toCall, now]
  simpa [Calls, nothing] using whole

theorem stepNearer (spawned : Spawned handler s) {act : Act} (taken : step handler socket s act = some t) :
    leftToCall t ≤ leftToCall s ∧ (act = .main ∨ act = .receiver → leftToCall t < leftToCall s) ∧
      (act = .sender → leftToSend t < leftToSend s) ∧ ((∀ message, act ≠ .push message) → leftToSend t ≤ leftToSend s) := by
  cases act with
  | main =>
    have falls := handleFalls spawned taken
    exact ⟨Nat.le_of_lt falls.1, fun _ => falls.1, nofun, fun _ => Nat.le_of_eq falls.2⟩
  | sender =>
    have falls := senderFalls taken
    exact ⟨Nat.le_of_eq falls.1, nofun, fun _ => falls.2, fun _ => Nat.le_of_lt falls.2⟩
  | receiver =>
    have falls := receiverFalls taken
    exact ⟨Nat.le_of_lt falls.1, fun _ => falls.1, nofun, fun _ => Nat.le_of_eq falls.2⟩
  | push message =>
    simp only [step] at taken
    split at taken
    · cases Option.some.inj taken
      exact ⟨Nat.le_refl _, nofun, nofun, fun no => absurd rfl (no message)⟩
    · contradiction
  | clone | drop | close =>
    simp only [step] at taken
    split at taken
    · cases Option.some.inj taken
      exact ⟨Nat.le_refl _, nofun, nofun, fun _ => Nat.le_refl _⟩
    · contradiction

theorem sessionProtocol (handler : WebSocketHandler) (socket : Socket) (incoming : List Incoming) {s : Session}
    (run : Run (step handler socket) (fun _ _ => True) (start incoming) s) : Protocol handler socket incoming s := by
  obtain ⟨spawned, writes, whole⟩ : Spawned handler s ∧ Writes handler socket s ∧ Calls handler incoming s := by
    refine runInvariant (P := fun s => Spawned handler s ∧ Writes handler socket s ∧ Calls handler incoming s)
      (fun s act t _ inv taken => ?_) run ?_
    · exact ⟨stepSpawned inv.1 taken, stepWrites inv.1 inv.2.1 taken, stepCalls inv.1 inv.2.2 taken⟩
    · exact ⟨⟨rfl, rfl, rfl⟩, ⟨nofun, fun more _ => rfl⟩, rfl⟩
  refine ⟨?_, ⟨_, whole⟩, refusedIdle spawned, fun fine returned idle => ?_, fun fine returned idle => ?_,
    fun act t taken => stepNearer spawned taken⟩
  · have total := writes.2 [] (fun _ => rfl)
    rw [List.append_nil] at total
    exact ⟨_, total⟩
  · exact idleWrites writes (returnedSpawned spawned fine returned).1 idle
  · exact idleCalls whole (returnedSpawned spawned fine returned).2 idle

def chatty : WebSocketHandler where
  onConnect := some (.ok ())
  onSend := some (fun _ message =>
    match message with
    | .text content => .ok (.text content)
    | _ => .error "not a text".toList)
  onReceive := some (fun call _ => if call < 1 then .ok () else .error "enough".toList)
  onClose := some ()

def scripted : List Incoming := [.ok (.ping []), .error "reset".toList, .ok (.binary [1]), .ok (.text "late".toList)]

def busy : List Act :=
  [.main, .push (.binary [2]), .main, .main, .sender, .sender, .push (.text "a".toList), .main, .receiver, .sender, .receiver,
    .sender, .receiver, .receiver, .sender, .receiver, .receiver, .drop, .sender]

theorem sessionProtocolChatty :
    ∃ s, Run (step chatty (fun _ => .ok ())) (fun _ _ => True) (start scripted) s ∧
      written s = [.text "a".toList] ∧ received s = [.onReceive (.ping []), .onReceive (.binary [1]), .onClose] ∧
      Protocol chatty (fun _ => .ok ()) scripted s := by
  have ran : ((exec (step chatty (fun _ => .ok ())) (start scripted) busy).map (fun s => (written s, received s))) =
      some ([.text "a".toList], [.onReceive (.ping []), .onReceive (.binary [1]), .onClose]) := by decide
  obtain ⟨s, reached, same⟩ := Option.map_eq_some_iff.mp ran
  have run := execRun busy reached
  obtain ⟨writes, calls⟩ := Prod.mk.inj same
  exact ⟨s, run, writes, calls, sessionProtocol chatty _ scripted run⟩

end Silent.WebSocketSession
