import Mathlib.Data.List.Perm.Basic
import Silent.ListenerAccept
import Silent.StepSystem

/-! `NetServer::serve_connection_loop` over the listeners of `listener.rs`. A connection
is taken from the operating system inside the accept future of one listener, and for a
TLS listener that future still holds it during the handshake. The `select!` drops the
future whenever another branch is chosen. Every step keeps the ledger of taken
connections up to what its branch cuts off. -/
namespace Silent.AcceptLoop
open ListenerAccept StepSystem

abbrev Conn := Nat

inductive Security where
  | plain
  | tls
  | reloadableTls
  deriving DecidableEq, Repr

structure Listener where
  socket : Nat
  security : Security
  deriving DecidableEq, Repr

inductive ListenFuture where
  | accepting (listener : Listener)
  | handshaking (conn : Conn)
  deriving DecidableEq, Repr

structure World where
  backlog : Nat → List Conn
  acceptFails : Nat → Bool
  socketFails : Conn → Bool
  storeFails : Bool
  handshakes : Conn → Option Bool
  taken : List Conn

abbrev Accepted := Except (Option Conn) Conn

def pollHandshake (w : World) (conn : Conn) : Polled ListenFuture Accepted :=
  match w.handshakes conn with
  | none => .pending (.handshaking conn)
  | some true => .ready (.ok conn)
  | some false => .ready (.error (some conn))

-- What follows the accept of the socket: `set_nodelay` for TCP or `local_addr` for a Unix
-- socket, the acceptor of the reloadable store, and the handshake.
def pollStream (w : World) (security : Security) (conn : Conn) : Polled ListenFuture Accepted :=
  if w.socketFails conn then .ready (.error (some conn))
  else
    match security with
    | .plain => .ready (.ok conn)
    | .tls => pollHandshake w conn
    | .reloadableTls => if w.storeFails then .ready (.error (some conn)) else pollHandshake w conn

def pollListen (future : ListenFuture) (w : World) : Polled ListenFuture Accepted × World :=
  match future with
  | .handshaking conn => (pollHandshake w conn, w)
  | .accepting listener =>
      if w.acceptFails listener.socket then (.ready (.error none), w)
      else
        match w.backlog listener.socket with
        | [] => (.pending (.accepting listener), w)
        | conn :: rest =>
            (pollStream w listener.security conn,
              {w with backlog := Function.update w.backlog listener.socket rest, taken := w.taken ++ [conn]})

def listenImpl : Listen Listener ListenFuture World Conn (Option Conn) := ⟨.accepting, pollListen⟩

inductive Phase where
  | running
  | draining
  | closed
  deriving DecidableEq, Repr

structure Server where
  listeners : Listeners Listener
  future : AcceptFuture ListenFuture
  world : World
  now : Nat
  phase : Phase
  limited : Bool
  waiting : List Conn
  serving : List Conn
  finished : List Conn
  handed : List Conn
  reported : List Conn

def serve (listeners : List Listener) (limited : Bool) (now : Nat) (w : World) : Server :=
  ⟨listen listeners now, .start, {w with taken := []}, now, .running, limited, [], [], [], [], []⟩

inductive Action where
  | surroundings (w : World)
  | elapse (ms : Nat)
  | wake (signalled : Bool)
  | begin_ (conn : Conn)
  | permitTimeout (conn : Conn)
  | finish (conn : Conn)
  | abortAll

-- The branches of the `select!` behind the shutdown signal: the accept that is ready, else
-- the join of a task that has ended.
def settle (self : Server) : Polled (AcceptFuture ListenFuture) (Option Accepted) → Server
  | .ready none => {self with phase := .draining, future := .start}
  | .ready (some (.ok conn)) => {self with future := .start, waiting := self.waiting ++ [conn]}
  | .ready (some (.error about)) => {self with future := .start, reported := self.reported ++ about.toList}
  | .pending future =>
      match self.finished with
      | [] => {self with future}
      | _ :: finished => {self with finished, future := .start}

def select (self : Server) (signalled : Bool) : Server :=
  if signalled then {self with phase := .draining, future := .start}
  else
    let polled := poll listenImpl self.listeners self.future self.now self.world
    settle {self with listeners := polled.1, world := polled.2.2} polled.2.1

def step (self : Server) : Action → Option Server
  | .surroundings w => some {self with world := {w with taken := self.world.taken}}
  | .elapse ms => some {self with now := self.now + ms}
  | .wake signalled => if self.phase = .running then some (select self signalled) else none
  | .begin_ conn =>
      if self.phase ≠ .closed ∧ conn ∈ self.waiting then
        some {self with waiting := self.waiting.erase conn, serving := self.serving ++ [conn], handed := self.handed ++ [conn]}
      else none
  | .permitTimeout conn =>
      if self.phase ≠ .closed ∧ self.limited = true ∧ conn ∈ self.waiting then
        some {self with waiting := self.waiting.erase conn, finished := self.finished ++ [conn]}
      else none
  | .finish conn =>
      if self.phase ≠ .closed ∧ conn ∈ self.serving then
        some {self with serving := self.serving.erase conn, finished := self.finished ++ [conn]}
      else none
  | .abortAll =>
      if self.phase = .draining then some {self with phase := .closed, waiting := [], serving := [], finished := []}
      else none

def heldBy : ListenFuture → List Conn
  | .accepting _ => []
  | .handshaking conn => [conn]

def held : AcceptFuture ListenFuture → List Conn
  | .awaiting _ inner => heldBy inner
  | _ => []

@[simp] theorem heldStart : held .start = [] := rfl
@[simp] theorem heldSleeping (until_ : Nat) : held (.sleeping until_) = [] := rfl
@[simp] theorem heldAwaiting (idx : Nat) (inner : ListenFuture) : held (.awaiting idx inner) = heldBy inner := rfl

def underway (self : Server) : List Conn :=
  match self.phase with
  | .closed => []
  | _ => held self.future ++ self.waiting

theorem underwayLive {self : Server} (live : self.phase ≠ .closed) : underway self = held self.future ++ self.waiting := by
  unfold underway
  split
  · contradiction
  · rfl

def ledger (self : Server) : List Conn := self.handed ++ self.reported ++ underway self

def NothingLost (self : Server) : Prop := self.world.taken.Perm (ledger self)

def lingers (w : World) (security : Security) (conn : Conn) : Bool :=
  !w.socketFails conn && (w.handshakes conn).isNone &&
    match security with
    | .plain => false
    | .tls => true
    | .reloadableTls => !w.storeFails

def openHandshake (w : World) : ListenFuture → List Conn
  | .handshaking conn => if w.handshakes conn = none then [conn] else []
  | .accepting listener =>
      if w.acceptFails listener.socket then []
      else (w.backlog listener.socket).head?.toList.filter (lingers w listener.security)

/-- The connections that the branch of a step leaves behind, read off the state before it. -/
def cutOff (self : Server) : Action → List Conn
  | .wake true => held self.future
  | .wake false =>
      if self.finished = [] then []
      else ((attended listenImpl self.listeners self.future self.now).map (openHandshake self.world ·.2)).getD []
  | .permitTimeout conn => [conn]
  | .abortAll => underway self
  | _ => []

def carried : Polled ListenFuture Accepted → List Conn
  | .pending inner => heldBy inner
  | .ready (.ok conn) => [conn]
  | .ready (.error about) => about.toList

def stillHeld : Polled ListenFuture Accepted → List Conn
  | .pending inner => heldBy inner
  | .ready _ => []

theorem handshakeCarries (w : World) (conn : Conn) : carried (pollHandshake w conn) = [conn] := by
  unfold pollHandshake
  split <;> rfl

theorem streamCarries (w : World) (security : Security) (conn : Conn) : carried (pollStream w security conn) = [conn] := by
  unfold pollStream
  split
  · rfl
  · cases security with
    | plain => rfl
    | tls => exact handshakeCarries w conn
    | reloadableTls =>
      dsimp only
      split
      · rfl
      · exact handshakeCarries w conn

theorem listenConserves (future : ListenFuture) (w : World) :
    ((pollListen future w).2.taken ++ heldBy future).Perm (w.taken ++ carried (pollListen future w).1) := by
  unfold pollListen
  cases future with
  | handshaking conn => simp [heldBy, handshakeCarries]
  | accepting listener =>
    dsimp only
    split
    · simp [heldBy, carried]
    · cases w.backlog listener.socket with
      | nil => simp [heldBy, carried]
      | cons conn rest => simp [heldBy, streamCarries]

theorem handshakeHeld (w : World) (conn : Conn) :
    stillHeld (pollHandshake w conn) = if w.handshakes conn = none then [conn] else [] := by
  unfold pollHandshake
  split <;> rename_i outcome <;> simp [stillHeld, heldBy, outcome]

theorem streamHeld (w : World) (security : Security) (conn : Conn) :
    stillHeld (pollStream w security conn) = if lingers w security conn then [conn] else [] := by
  unfold pollStream lingers
  cases w.socketFails conn with
  | true => simp [stillHeld]
  | false =>
    cases security with
    | plain => simp [stillHeld]
    | tls => simp [handshakeHeld]
    | reloadableTls =>
      cases w.storeFails with
      | true => simp [stillHeld]
      | false => simp [handshakeHeld]

theorem listenHeld (future : ListenFuture) (w : World) : stillHeld (pollListen future w).1 = openHandshake w future := by
  unfold pollListen openHandshake
  cases future with
  | handshaking conn => exact handshakeHeld w conn
  | accepting listener =>
    dsimp only
    split
    · rfl
    · cases w.backlog listener.socket with
      | nil => rfl
      | cons conn rest =>
        dsimp only
        rw [streamHeld]
        simp [List.filter_cons]

theorem chosenHeld {self : Listeners Listener} {now idx : Nat} {inner : ListenFuture}
    (found : chosen listenImpl self now = some (idx, inner)) : heldBy inner = [] := by
  obtain ⟨-, listener, -, rfl⟩ := chosenSource.mp found
  rfl

theorem attendedHeld {self : Listeners Listener} {future : AcceptFuture ListenFuture} {now idx : Nat} {inner : ListenFuture}
    (attends : attended listenImpl self future now = some (idx, inner)) : held future = heldBy inner := by
  cases future with
  | start => exact (chosenHeld attends).symm
  | awaiting awaited awaitedInner =>
    cases Option.some.inj attends
    rfl
  | sleeping until_ =>
    unfold attended at attends
    dsimp only at attends
    split at attends
    · exact (chosenHeld attends).symm
    · contradiction

theorem unattendedHeld {self : Listeners Listener} {future : AcceptFuture ListenFuture} {now : Nat}
    (nobody : attended listenImpl self future now = none) : held future = [] := by
  cases future with
  | start => rfl
  | awaiting awaited inner => contradiction
  | sleeping until_ => rfl

def outcome : Polled (AcceptFuture ListenFuture) (Option Accepted) → List Conn
  | .pending future => held future
  | .ready none => []
  | .ready (some (.ok conn)) => [conn]
  | .ready (some (.error about)) => about.toList

def pendingHeld : Polled (AcceptFuture ListenFuture) (Option Accepted) → List Conn
  | .pending future => held future
  | .ready _ => []

theorem settleLedger (self : Server) (running : self.phase = .running)
    (polled : Polled (AcceptFuture ListenFuture) (Option Accepted)) :
    (ledger (settle self polled) ++ (if self.finished = [] then [] else pendingHeld polled) ++ held self.future).Perm
      (ledger self ++ outcome polled) := by
  rw [List.perm_iff_count]
  intro conn
  match polled with
  | .ready none => simp [settle, ledger, underway, outcome, pendingHeld, running]; omega
  | .ready (some (.ok taken)) => simp [settle, ledger, underway, outcome, pendingHeld, running, List.count_cons]; omega
  | .ready (some (.error about)) => simp [settle, ledger, underway, outcome, pendingHeld, running]; omega
  | .pending future =>
    cases ended : self.finished with
    | nil => simp [settle, ledger, underway, outcome, running, ended]; omega
    | cons first rest => simp [settle, ledger, underway, outcome, pendingHeld, running, ended]; omega

theorem settleTaken (self : Server) (polled : Polled (AcceptFuture ListenFuture) (Option Accepted)) :
    (settle self polled).world = self.world := by
  unfold settle
  split
  · rfl
  · rfl
  · rfl
  · split <;> rfl

theorem liftedCarries (idx : Nat) (polled : Polled ListenFuture Accepted) :
    outcome (lifted idx polled) = carried polled ∧ pendingHeld (lifted idx polled) = stillHeld polled := by
  match polled with
  | .pending inner => exact ⟨rfl, rfl⟩
  | .ready (.ok conn) => exact ⟨rfl, rfl⟩
  | .ready (.error about) => exact ⟨rfl, rfl⟩

theorem idleCarries {polled : Polled (AcceptFuture ListenFuture) (Option Accepted)} (idle : Idle polled) :
    outcome polled = [] ∧ pendingHeld polled = [] := by
  obtain rfl | ⟨until_, rfl⟩ := idle <;> exact ⟨rfl, rfl⟩

theorem pollConserves (self : Server) :
    ((poll listenImpl self.listeners self.future self.now self.world).2.2.taken ++ held self.future).Perm
        (self.world.taken ++ outcome (poll listenImpl self.listeners self.future self.now self.world).2.1) ∧
      pendingHeld (poll listenImpl self.listeners self.future self.now self.world).2.1 =
        ((attended listenImpl self.listeners self.future self.now).map (openHandshake self.world ·.2)).getD [] := by
  cases attends : attended listenImpl self.listeners self.future self.now with
  | none =>
    obtain ⟨sameWorld, idle⟩ := pollUnattended self.world attends
    obtain ⟨nothing, notPending⟩ := idleCarries idle
    rw [sameWorld, unattendedHeld attends, nothing, notPending]
    exact ⟨.refl _, rfl⟩
  | some pair =>
    obtain ⟨idx, inner⟩ := pair
    obtain ⟨carries, pendings⟩ := liftedCarries idx (listenImpl.poll inner self.world).1
    rw [pollAttended self.world attends, attendedHeld attends]
    dsimp only
    rw [carries, pendings]
    exact ⟨listenConserves inner self.world, listenHeld inner self.world⟩

def Balanced (self next : Server) (lost : List Conn) : Prop :=
  (next.world.taken ++ ledger self).Perm (self.world.taken ++ (ledger next ++ lost))

theorem selectBalanced (self : Server) (running : self.phase = .running) (signalled : Bool) :
    Balanced self (select self signalled) (cutOff self (.wake signalled)) := by
  unfold Balanced
  rw [List.perm_iff_count]
  intro conn
  cases signalled with
  | true => simp [select, cutOff, ledger, underway, running]; omega
  | false =>
    obtain ⟨conserved, pendings⟩ := pollConserves self
    have taken := conserved.count_eq conn
    have settled := (settleLedger {self with
      listeners := (poll listenImpl self.listeners self.future self.now self.world).1
      world := (poll listenImpl self.listeners self.future self.now self.world).2.2} running
      (poll listenImpl self.listeners self.future self.now self.world).2.1).count_eq conn
    have same : ledger {self with
      listeners := (poll listenImpl self.listeners self.future self.now self.world).1
      world := (poll listenImpl self.listeners self.future self.now self.world).2.2} = ledger self := rfl
    rw [same, pendings] at settled
    simp only [select, cutOff, settleTaken, List.count_append, Bool.false_eq_true, if_false] at taken settled ⊢
    omega

theorem erasedCount {conn : Conn} {waiting : List Conn} (present : conn ∈ waiting) (other : Conn) :
    waiting.count other = (waiting.erase conn).count other + if conn == other then 1 else 0 := by
  rw [(List.perm_cons_erase present).count_eq other, List.count_cons]

theorem stepBalanced {self next : Server} {action : Action} (taken : step self action = some next) :
    Balanced self next (cutOff self action) := by
  cases action with
  | surroundings w =>
    cases Option.some.inj taken
    simp [Balanced, cutOff, ledger, underway]
  | elapse ms =>
    cases Option.some.inj taken
    simp [Balanced, cutOff, ledger, underway]
  | wake signalled =>
    simp only [step, Option.ite_none_right_eq_some, Option.some.injEq] at taken
    obtain ⟨running, rfl⟩ := taken
    exact selectBalanced self running signalled
  | begin_ conn =>
    simp only [step, Option.ite_none_right_eq_some, Option.some.injEq] at taken
    obtain ⟨⟨live, present⟩, rfl⟩ := taken
    refine List.perm_iff_count.mpr fun other => ?_
    have moved := erasedCount present other
    simp only [ledger, underwayLive, live, cutOff, ne_eq, not_false_eq_true, List.count_append, List.count_cons, List.count_nil]
    omega
  | permitTimeout conn =>
    simp only [step, Option.ite_none_right_eq_some, Option.some.injEq] at taken
    obtain ⟨⟨live, -, present⟩, rfl⟩ := taken
    refine List.perm_iff_count.mpr fun other => ?_
    have moved := erasedCount present other
    simp only [ledger, underwayLive, live, cutOff, ne_eq, not_false_eq_true, List.count_append, List.count_cons, List.count_nil]
    omega
  | finish conn =>
    simp only [step, Option.ite_none_right_eq_some, Option.some.injEq] at taken
    obtain ⟨-, rfl⟩ := taken
    simp [Balanced, cutOff, ledger, underway]
  | abortAll =>
    simp only [step, Option.ite_none_right_eq_some, Option.some.injEq] at taken
    obtain ⟨draining, rfl⟩ := taken
    simp [Balanced, cutOff, ledger, underway, draining]

def shortfall (self : Server) : Int := self.world.taken.length - (ledger self).length

theorem wholeNoShortfall {self : Server} (whole : NothingLost self) : shortfall self = 0 := by
  have lengths := whole.length_eq
  unfold shortfall
  omega

theorem stepShortfall {self next : Server} {action : Action} (taken : step self action = some next) :
    shortfall next = shortfall self + (cutOff self action).length := by
  have lengths := (stepBalanced taken).length_eq
  simp only [List.length_append] at lengths
  unfold shortfall
  omega

theorem stepKeepsWhole {self next : Server} {action : Action} (kept : cutOff self action = []) (whole : NothingLost self)
    (taken : step self action = some next) : NothingLost next := by
  have balanced := stepBalanced taken
  rw [Balanced, kept, List.append_nil] at balanced
  refine List.perm_iff_count.mpr fun conn => ?_
  have counts := balanced.count_eq conn
  have counted := whole.count_eq conn
  simp only [List.count_append] at counts
  omega

theorem startsWhole (listeners : List Listener) (limited : Bool) (now : Nat) (w : World) :
    NothingLost (serve listeners limited now w) := .refl _

theorem nothingLostIffNoneCutOff {listeners : List Listener} {limited : Bool} {now : Nat} {w : World} {actions : List Action}
    {self : Server} (ran : exec step (serve listeners limited now w) actions = some self) :
    NothingLost self ↔
      Along step (fun state action => cutOff state action = []) (serve listeners limited now w) actions := by
  have starts := startsWhole listeners limited now w
  constructor
  · intro whole
    have flat : shortfall self = shortfall (serve listeners limited now w) := by
      rw [wholeNoShortfall whole, wholeNoShortfall starts]
    refine levelAlong ?_ actions ran (Int.le_of_eq flat)
    intro state action next taken
    have grows := stepShortfall taken
    refine ⟨by omega, fun level => List.eq_nil_of_length_eq_zero ?_⟩
    omega
  · intro along
    exact runInvariant (fun _ _ _ kept whole taken => stepKeepsWhole kept whole taken) (alongRun actions ran along) starts

def slowPeer : World :=
  ⟨fun _ => [1, 2], fun _ => false, fun _ => false, false, fun conn => if conn = 1 then some true else none, []⟩

theorem nothingLostSlowPeer :
    ∃ self, exec step (serve [⟨0, .tls⟩] false 0 slowPeer) [.wake false, .begin_ 1, .wake false] = some self ∧
      self.world.taken = [1, 2] ∧ held self.future = [2] ∧ NothingLost self := by
  refine ⟨_, rfl, rfl, rfl, (@nothingLostIffNoneCutOff [⟨0, .tls⟩] false 0 slowPeer
    [.wake false, .begin_ 1, .wake false] _ rfl).mpr ⟨rfl, fun first taken => ?_⟩⟩
  cases Option.some.inj taken
  refine ⟨rfl, fun second taken => ?_⟩
  cases Option.some.inj taken
  exact ⟨rfl, fun _ _ => trivial⟩

theorem joinDropsHandshake :
    ∃ self, exec step (serve [⟨0, .tls⟩] false 0 slowPeer)
        [.wake false, .begin_ 1, .wake false, .finish 1, .wake false] = some self ∧
      self.world.taken = [1, 2] ∧ self.phase = .running ∧ ledger self = [1] ∧ ¬ NothingLost self := by
  refine ⟨_, rfl, rfl, rfl, rfl, ?_⟩
  intro whole
  have lengths := whole.length_eq
  contradiction

end Silent.AcceptLoop
