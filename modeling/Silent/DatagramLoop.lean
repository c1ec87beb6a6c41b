import Silent.StepSystem
import Silent.WebTransport

/-! A consumer that loops `while let Some(d) = recv_datagram()` until the connection ends.
A datagram that is dropped makes `recv_datagram` return `Ok(None)`, which is also what the
end of the connection looks like. -/
namespace Silent.DatagramLoop
open ByteText StepSystem WebTransport

structure Consumer where
  stream : WebTransportStream
  received : List Bytes
  ended : Option (Except Text Unit)
  closed : Bool

def starting (stream : WebTransportStream) : Consumer := ⟨stream, [], none, false⟩

def isClosed : Except ConnectionError Bytes → Bool
  | .error .applicationClosed => true
  | .error .locallyClosed => true
  | _ => false

def turn (checks : Bool) (c : Consumer) (call : Nat × Except ConnectionError Bytes) : Option Consumer :=
  match c.ended with
  | some _ => some c
  | none =>
      (recvDatagram checks call.1 c.stream call.2).map fun (stream, result) =>
        match result with
        | .ok (some d) => {c with stream := stream, received := c.received ++ [d]}
        | .ok none => {c with stream := stream, ended := some (.ok ()), closed := isClosed call.2}
        | .error err => {c with stream := stream, ended := some (.error err), closed := isClosed call.2}

def reads (incoming : List (Nat × Bytes)) (ending : Nat × ConnectionError) : List (Nat × Except ConnectionError Bytes) :=
  incoming.map (fun (now, raw) => (now, .ok raw)) ++ [(ending.1, .error ending.2)]

def accept (self : WebTransportStream) (raw : Bytes) : Option WebTransportStream :=
  if exceeds self.maxDatagramSize raw then none else takeToken self

/- The datagrams within the size limit for which a token is available. -/
def served (checks : Bool) : WebTransportStream → List (Nat × Bytes) → List Bytes
  | _, [] => []
  | self, (now, raw) :: rest =>
      match refill checks now self with
      | none => []
      | some refilled =>
          match accept refilled raw with
          | none => served checks refilled rest
          | some after => raw :: served checks after rest

def Uninterrupted (checks : Bool) (self : WebTransportStream) (incoming : List (Nat × Bytes)) (ending : Nat × ConnectionError) : Prop :=
  ∃ c, exec (turn checks) (starting self) (reads incoming ending) = some c ∧
    c.received = served checks self incoming ∧ (c.ended = some (.ok ()) → c.closed = true)

def AllAccepted (checks : Bool) (ending : Nat) : WebTransportStream → List (Nat × Bytes) → Prop
  | self, [] => ∃ refilled, refill checks ending self = some refilled
  | self, (now, raw) :: rest =>
      ∃ refilled after, refill checks now self = some refilled ∧ accept refilled raw = some after ∧ AllAccepted checks ending after rest

section
variable {checks : Bool} {self refilled after : WebTransportStream} {raw : Bytes} {now : Nat}

theorem acceptSpent (accepted : accept self raw = some after) : Spent self after := by
  unfold accept at accepted
  split at accepted
  · cases accepted
  · exact takenSpent accepted

theorem receiveAccepted (accepted : accept self raw = some after) : receive self (.ok raw) = (after, .ok (some raw)) := by
  unfold accept at accepted
  unfold receive
  dsimp only
  split at accepted
  · cases accepted
  · rename_i small
    rw [if_neg small, accepted]

theorem receiveDropped (recordDrop : self.recordDrop = true) (dropped : accept self raw = none) :
    receive self (.ok raw) = (self, .ok none) := by
  unfold accept at dropped
  unfold receive
  dsimp only
  split at dropped
  · rename_i large
    rw [if_pos large, if_pos recordDrop]
  · rename_i small
    rw [if_neg small, dropped, if_pos recordDrop]

theorem receiveEnding (self : WebTransportStream) (reason : ConnectionError) :
    ∃ result, receive self (.error reason) = (self, result) ∧ (∀ d, result ≠ .ok (some d)) ∧
      (result = .ok none → isClosed (.error reason) = true) := by
  cases reason with
  | applicationClosed => exact ⟨.ok none, rfl, nofun, fun _ => rfl⟩
  | locallyClosed => exact ⟨.ok none, rfl, nofun, fun _ => rfl⟩
  | other err => exact ⟨.error _, rfl, nofun, nofun⟩

theorem recvRefilled (conn : self.conn = true) (filled : refill checks now self = some refilled)
    (read : Except ConnectionError Bytes) : recvDatagram checks now self read = some (receive refilled read) := by
  rw [recvDatagram, if_pos conn, filled]
  rfl

theorem endedStays {c : Consumer} {result : Except Text Unit} (ended : c.ended = some result)
    (calls : List (Nat × Except ConnectionError Bytes)) : exec (turn checks) c calls = some c := by
  induction calls with
  | nil => rfl
  | cons call calls ih =>
    rw [exec, turn, ended]
    exact ih

theorem roundPanics (conn : self.conn = true) (overflow : refill checks now self = none) (got : List Bytes)
    (read : Except ConnectionError Bytes) (calls : List (Nat × Except ConnectionError Bytes)) :
    exec (turn checks) ⟨self, got, none, false⟩ ((now, read) :: calls) = none := by
  simp only [exec, turn, recvDatagram, if_pos conn, overflow, Option.map_none, Option.bind_none]

theorem roundAccepted (conn : self.conn = true) (filled : refill checks now self = some refilled)
    (taken : accept refilled raw = some after) (got : List Bytes) (calls : List (Nat × Except ConnectionError Bytes)) :
    exec (turn checks) ⟨self, got, none, false⟩ ((now, .ok raw) :: calls) =
      exec (turn checks) ⟨after, got ++ [raw], none, false⟩ calls := by
  simp only [exec, turn, recvRefilled conn filled, receiveAccepted taken, Option.map_some, Option.bind_some]

theorem roundDropped (conn : self.conn = true) (filled : refill checks now self = some refilled)
    (recordDrop : refilled.recordDrop = true) (dropped : accept refilled raw = none) (got : List Bytes)
    (calls : List (Nat × Except ConnectionError Bytes)) :
    exec (turn checks) ⟨self, got, none, false⟩ ((now, .ok raw) :: calls) = some ⟨refilled, got, some (.ok ()), false⟩ := by
  simp only [exec, turn, recvRefilled conn filled, receiveDropped recordDrop dropped, Option.map_some, Option.bind_some]
  exact endedStays rfl calls

theorem roundEnds (conn : self.conn = true) (filled : refill checks now self = some refilled) (got : List Bytes)
    (reason : ConnectionError) :
    ∃ c, exec (turn checks) ⟨self, got, none, false⟩ [(now, .error reason)] = some c ∧ c.received = got ∧
      (c.ended = some (.ok ()) → c.closed = true) := by
  obtain ⟨result, answer, nothing, closed⟩ := receiveEnding refilled reason
  simp only [exec, turn, recvRefilled conn filled, answer, Option.map_some, Option.bind_some]
  cases result with
  | error err => exact ⟨_, rfl, rfl, fun ended => by cases ended⟩
  | ok datagram =>
    cases datagram with
    | none => exact ⟨_, rfl, rfl, fun _ => closed rfl⟩
    | some d => exact absurd rfl (nothing d)

theorem acceptedLoop {ending : Nat × ConnectionError} {incoming : List (Nat × Bytes)} (conn : self.conn = true)
    (accepted : AllAccepted checks ending.1 self incoming) (got : List Bytes) :
    ∃ c, exec (turn checks) ⟨self, got, none, false⟩ (reads incoming ending) = some c ∧
      c.received = got ++ served checks self incoming ∧ (c.ended = some (.ok ()) → c.closed = true) := by
  induction incoming generalizing self got with
  | nil =>
    obtain ⟨refilled, filled⟩ := accepted
    rw [served, List.append_nil]
    exact roundEnds conn filled got ending.2
  | cons first rest ih =>
    obtain ⟨now, raw⟩ := first
    obtain ⟨refilled, after, filled, taken, later⟩ := accepted
    have conn' : after.conn = true := (acceptSpent taken).conn.trans ((refillLimits filled).conn.trans conn)
    obtain ⟨c, ran, received, closed⟩ := ih conn' later (got ++ [raw])
    refine ⟨c, (roundAccepted conn filled taken got (reads rest ending)).trans ran, ?_, closed⟩
    rw [received, served, filled]
    simp only [taken, List.append_assoc, List.singleton_append]

theorem loopAccepted {ending : Nat × ConnectionError} {incoming : List (Nat × Bytes)} (conn : self.conn = true)
    (recordDrop : self.recordDrop = true) {got : List Bytes} {c : Consumer}
    (ran : exec (turn checks) ⟨self, got, none, false⟩ (reads incoming ending) = some c)
    (closed : c.ended = some (.ok ()) → c.closed = true) : AllAccepted checks ending.1 self incoming := by
  induction incoming generalizing self got with
  | nil =>
    cases filled : refill checks ending.1 self with
    | some refilled => exact ⟨refilled, filled⟩
    | none => cases (roundPanics conn filled got (.error ending.2) []).symm.trans ran
  | cons first rest ih =>
    obtain ⟨now, raw⟩ := first
    cases filled : refill checks now self with
    | none => cases (roundPanics conn filled got (.ok raw) (reads rest ending)).symm.trans ran
    | some refilled =>
      have same := refillLimits filled
      have recordDrop' : refilled.recordDrop = true := same.recordDrop.trans recordDrop
      cases taken : accept refilled raw with
      | none =>
        cases (roundDropped conn filled recordDrop' taken got (reads rest ending)).symm.trans ran
        cases closed rfl
      | some after =>
        have spent := acceptSpent taken
        have later := (roundAccepted conn filled taken got (reads rest ending)).symm.trans ran
        exact ⟨refilled, after, filled, taken,
          ih (spent.conn.trans (same.conn.trans conn)) (spent.recordDrop.trans recordDrop') later⟩

theorem uninterruptedUnlessDropped (checks : Bool) (start : Nat) (maxFrameSize maxDatagramSize : Option Nat) (datagramPerSec : Option U64)
    (incoming : List (Nat × Bytes)) (ending : Nat × ConnectionError) :
    Uninterrupted checks (.new start maxFrameSize maxDatagramSize datagramPerSec true true) incoming ending ↔
      AllAccepted checks ending.1 (.new start maxFrameSize maxDatagramSize datagramPerSec true true) incoming := by
  constructor
  · rintro ⟨c, ran, -, closed⟩
    exact loopAccepted rfl rfl ran closed
  · intro accepted
    exact acceptedLoop rfl accepted []

end

def oversizeFirst : List (Nat × Bytes) := [(0, [1, 2]), (0, [3])]

theorem dropEndsSession :
    ¬Uninterrupted true (.new 0 none (some 1) none true true) oversizeFirst (0, .applicationClosed) := by
  rintro ⟨c, ran, received, closed⟩
  cases ran
  cases closed rfl

end Silent.DatagramLoop
