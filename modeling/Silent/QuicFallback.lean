import Silent.AcceptLoop

/-! `HybridListener::accept`: HTTP/3 connections of a QUIC endpoint and HTTP ones of a TLS
listener on the same port, by a `select!` over the two accept futures. Whichever answers
first, the future of the other is dropped, and with it a connection in its handshake. -/
namespace Silent.QuicFallback
open ListenerAccept AcceptLoop StepSystem

structure World where
  tcp : AcceptLoop.World
  incoming : List Conn
  closed : Bool
  taken : List Conn

inductive Answer where
  | quic (conn : Conn)
  | quicClosed
  | http (accepted : Accepted)

-- `QuicEndpointListener::accept`, whose future keeps nothing of a connection.
def pollQuic (w : World) : Option Answer × World :=
  match w.incoming with
  | conn :: rest => (some (.quic conn), {w with incoming := rest, taken := w.taken ++ [conn]})
  | [] => (if w.closed then some .quicClosed else none, w)

def pollHttp (future : ListenFuture) (w : World) : Polled ListenFuture Accepted × World :=
  let polled := pollListen future w.tcp
  (polled.1, {w with tcp := polled.2})

structure Selected where
  polled : Polled ListenFuture Answer
  world : World
  dropped : List Conn

def selectHttp (future : ListenFuture) (w : World) : Selected :=
  match pollHttp future w with
  | (.ready accepted, w) => ⟨.ready (.http accepted), w, []⟩
  | (.pending future, w) => ⟨.pending future, w, []⟩

-- The order of the two branches is drawn anew at each poll.
def select (quicFirst : Bool) (future : ListenFuture) (w : World) : Selected :=
  if quicFirst then
    match pollQuic w with
    | (some answer, w) => ⟨.ready answer, w, heldBy future⟩
    | (none, w) => selectHttp future w
  else
    match pollHttp future w with
    | (.ready accepted, w) => ⟨.ready (.http accepted), w, []⟩
    | (.pending future, w) =>
        match pollQuic w with
        | (some answer, w) => ⟨.ready answer, w, heldBy future⟩
        | (none, w) => ⟨.pending future, w, []⟩

structure HybridListener where
  http : Listener
  future : ListenFuture
  world : World
  quicAccepted : List Conn
  httpAccepted : List Conn
  failed : List Conn
  quicRefusals : Nat
  dropped : List Conn

def bind (http : Listener) (w : World) : HybridListener :=
  ⟨http, .accepting http, {w with tcp := {w.tcp with taken := []}, taken := []}, [], [], [], 0, []⟩

inductive Action where
  | surroundings (w : World)
  | poll (quicFirst : Bool)
  | cancel

def settle (self : HybridListener) : Polled ListenFuture Answer → HybridListener
  | .pending future => {self with future := future}
  | .ready answer =>
      let next := {self with future := .accepting self.http}
      match answer with
      | .quic conn => {next with quicAccepted := next.quicAccepted ++ [conn]}
      | .quicClosed => {next with quicRefusals := next.quicRefusals + 1}
      | .http (.ok conn) => {next with httpAccepted := next.httpAccepted ++ [conn]}
      | .http (.error about) => {next with failed := next.failed ++ about.toList}

def step (self : HybridListener) : Action → Option HybridListener
  | .surroundings w => some {self with world := {w with tcp := {w.tcp with taken := self.world.tcp.taken}, taken := self.world.taken}}
  | .poll quicFirst =>
      let selected := select quicFirst self.future self.world
      some (settle {self with world := selected.world, dropped := self.dropped ++ selected.dropped} selected.polled)
  | .cancel => some {self with future := .accepting self.http, dropped := self.dropped ++ heldBy self.future}

def ledger (self : HybridListener) : List Conn := self.httpAccepted ++ self.failed ++ heldBy self.future ++ self.dropped

structure Accounted (s : HybridListener) : Prop where
  http : s.world.tcp.taken.Perm (ledger s)
  quic : s.quicAccepted = s.world.taken

def quicAnswers (w : World) : Bool := !w.incoming.isEmpty || w.closed

/-- The connection whose handshake is open when the endpoint answers first, or the future is
dropped from outside, read off the state before the step. -/
def cutOff (self : HybridListener) : Action → List Conn
  | .surroundings _ => []
  | .poll true => if quicAnswers self.world then heldBy self.future else []
  | .poll false => if quicAnswers self.world then openHandshake self.world.tcp self.future else []
  | .cancel => heldBy self.future

def outcome : Polled ListenFuture Answer → List Conn
  | .pending future => heldBy future
  | .ready (.http (.ok conn)) => [conn]
  | .ready (.http (.error about)) => about.toList
  | .ready _ => []

theorem quicAnswersIff (w : World) : (pollQuic w).1.isSome = quicAnswers w := by
  unfold pollQuic quicAnswers
  split
  · rename_i conn rest waits
    simp [waits]
  · rename_i waits
    cases closed : w.closed <;> simp [waits]

def quicGiven : Polled ListenFuture Answer → List Conn
  | .ready (.quic conn) => [conn]
  | _ => []

theorem quicTakes {w left : World} {answer : Answer} (polled : pollQuic w = (some answer, left)) :
    left.taken = w.taken ++ quicGiven (.ready answer) ∧ left.tcp = w.tcp ∧ outcome (.ready answer) = [] := by
  unfold pollQuic at polled
  split at polled
  · cases polled
    exact ⟨rfl, rfl, rfl⟩
  · split at polled <;> cases polled
    exact ⟨(List.append_nil _).symm, rfl, rfl⟩

theorem quicWaits {w left : World} (polled : pollQuic w = (none, left)) : left = w ∧ quicAnswers w = false := by
  have answers := quicAnswersIff w
  rw [polled] at answers
  refine ⟨?_, answers.symm⟩
  unfold pollQuic at polled
  split at polled
  · cases polled
  · split at polled <;> cases polled
    rfl

theorem selectCases (quicFirst : Bool) (future : ListenFuture) (w : World) :
    (select quicFirst future w = selectHttp future w ∧
      (quicAnswers w = true → quicFirst = false ∧ stillHeld (pollListen future w.tcp).1 = [])) ∨
    (quicAnswers w = true ∧ ∃ before dropped answer left, pollQuic before = (some answer, left) ∧ before.taken = w.taken ∧
      (before.tcp.taken ++ heldBy future).Perm (w.tcp.taken ++ dropped) ∧
      dropped = (if quicFirst then heldBy future else stillHeld (pollListen future w.tcp).1) ∧
      select quicFirst future w = ⟨.ready answer, left, dropped⟩) := by
  have conserves := listenConserves future w.tcp
  cases quicFirst with
  | true =>
    match polled : pollQuic w with
    | (some answer, left) =>
      right
      have answers := quicAnswersIff w
      rw [polled] at answers
      refine ⟨answers.symm, w, heldBy future, answer, left, polled, rfl, .refl _, rfl, ?_⟩
      simp only [select, polled, if_true]
    | (none, left) =>
      left
      obtain ⟨rfl, silent⟩ := quicWaits polled
      refine ⟨?_, fun answers => ?_⟩
      · simp only [select, polled, if_true]
      · rw [silent] at answers
        cases answers
  | false =>
    match http : pollListen future w.tcp with
    | (.ready accepted, tcp) =>
      left
      refine ⟨?_, fun _ => ⟨rfl, rfl⟩⟩
      simp only [select, selectHttp, pollHttp, http, Bool.false_eq_true, if_false]
    | (.pending later, tcp) =>
      rw [http] at conserves
      have same : quicAnswers {w with tcp := tcp} = quicAnswers w := rfl
      match polled : pollQuic {w with tcp := tcp} with
      | (some answer, left) =>
        right
        have answers := quicAnswersIff {w with tcp := tcp}
        rw [polled] at answers
        refine ⟨answers.symm, {w with tcp := tcp}, heldBy later, answer, left, polled, rfl, conserves, rfl, ?_⟩
        simp only [select, pollHttp, http, polled, Bool.false_eq_true, if_false]
      | (none, left) =>
        left
        obtain ⟨rfl, silent⟩ := quicWaits polled
        refine ⟨?_, fun answers => ?_⟩
        · simp only [select, selectHttp, pollHttp, http, polled, Bool.false_eq_true, if_false]
        · rw [← same, silent] at answers
          cases answers

theorem selectHttpKeeps (future : ListenFuture) (w : World) :
    outcome (selectHttp future w).polled = carried (pollListen future w.tcp).1 ∧
      (selectHttp future w).world.tcp = (pollListen future w.tcp).2 ∧ (selectHttp future w).dropped = [] ∧
      quicGiven (selectHttp future w).polled = [] ∧ (selectHttp future w).world.taken = w.taken := by
  unfold selectHttp pollHttp
  rcases pollListen future w.tcp with ⟨later | (about | conn), left⟩ <;> exact ⟨rfl, rfl, rfl, rfl, rfl⟩

theorem selectConserves (quicFirst : Bool) (future : ListenFuture) (w : World) :
    ((select quicFirst future w).world.tcp.taken ++ heldBy future).Perm
        (w.tcp.taken ++ outcome (select quicFirst future w).polled ++ (select quicFirst future w).dropped) ∧
      (select quicFirst future w).world.taken = w.taken ++ quicGiven (select quicFirst future w).polled ∧
      (select quicFirst future w).dropped =
        if quicAnswers w then (if quicFirst then heldBy future else openHandshake w.tcp future) else [] := by
  rw [← listenHeld]
  rcases selectCases quicFirst future w with ⟨same, rests⟩ | ⟨answers, before, dropped, answer, left, polled, taken, conserves, rfl, same⟩
  · obtain ⟨carries, world, dropped, given, taken⟩ := selectHttpKeeps future w
    rw [same, carries, world, dropped, given, taken]
    refine ⟨by simpa using listenConserves future w.tcp, (List.append_nil _).symm, ?_⟩
    split
    · obtain ⟨rfl, nothing⟩ := rests ‹_›
      exact nothing.symm
    · rfl
  · obtain ⟨given, kept, none⟩ := quicTakes polled
    rw [same, kept, none, given, taken, if_pos answers]
    exact ⟨by simpa using conserves, rfl, rfl⟩

theorem settleKeeps (self : HybridListener) (polled : Polled ListenFuture Answer) :
    (settle self polled).world = self.world ∧ (settle self polled).dropped = self.dropped ∧
      (settle self polled).quicAccepted = self.quicAccepted ++ quicGiven polled ∧
      (ledger (settle self polled) ++ heldBy self.future).Perm (ledger self ++ outcome polled) := by
  have counts (xs ys zs held other given : List Conn) :
      (xs ++ given ++ ys ++ held ++ zs ++ other).Perm (xs ++ ys ++ other ++ zs ++ (given ++ held)) := by
    rw [List.perm_iff_count]
    intro conn
    simp only [List.count_append]
    omega
  match polled with
  | .pending future =>
    refine ⟨rfl, rfl, (List.append_nil _).symm, ?_⟩
    simpa [settle, ledger, outcome] using counts self.httpAccepted self.failed self.dropped (heldBy future) (heldBy self.future) []
  | .ready (.quic conn) =>
    refine ⟨rfl, rfl, rfl, ?_⟩
    simpa [settle, ledger, outcome, heldBy] using counts self.httpAccepted self.failed self.dropped [] (heldBy self.future) []
  | .ready .quicClosed =>
    refine ⟨rfl, rfl, (List.append_nil _).symm, ?_⟩
    simpa [settle, ledger, outcome, heldBy] using counts self.httpAccepted self.failed self.dropped [] (heldBy self.future) []
  | .ready (.http (.ok conn)) =>
    refine ⟨rfl, rfl, (List.append_nil _).symm, ?_⟩
    simpa [settle, ledger, outcome, heldBy] using counts self.httpAccepted self.failed self.dropped [] (heldBy self.future) [conn]
  | .ready (.http (.error about)) =>
    refine ⟨rfl, rfl, (List.append_nil _).symm, ?_⟩
    simpa [settle, ledger, outcome, heldBy] using
      counts (self.httpAccepted ++ self.failed) [] self.dropped [] (heldBy self.future) about.toList

theorem stepAccounted {self next : HybridListener} {a : Action} (accounted : Accounted self) (stepped : step self a = some next) :
    Accounted next ∧ next.dropped = self.dropped ++ cutOff self a := by
  cases a with
  | surroundings w =>
    cases stepped
    exact ⟨⟨accounted.http, accounted.quic⟩, (List.append_nil _).symm⟩
  | cancel =>
    cases stepped
    refine ⟨⟨accounted.http.trans ?_, accounted.quic⟩, rfl⟩
    have swapped : (heldBy self.future ++ self.dropped).Perm (self.dropped ++ heldBy self.future) := List.perm_append_comm
    simpa [ledger, heldBy] using swapped.append_left (self.httpAccepted ++ self.failed)
  | poll quicFirst =>
    obtain ⟨taken, given, dropped⟩ := selectConserves quicFirst self.future self.world
    cases stepped
    let selected := select quicFirst self.future self.world
    let polled : HybridListener := {self with world := selected.world, dropped := self.dropped ++ selected.dropped}
    obtain ⟨world, left, accepted, moved⟩ := settleKeeps polled selected.polled
    refine ⟨⟨?_, ?_⟩, ?_⟩
    · have onward : ledger polled = ledger self ++ selected.dropped := (List.append_assoc _ _ _).symm
      rw [world, ← List.perm_append_right_iff (heldBy self.future)]
      have regroup : (self.world.tcp.taken ++ outcome selected.polled ++ selected.dropped).Perm
          (ledger self ++ (selected.dropped ++ outcome selected.polled)) := by
        rw [List.append_assoc]
        exact accounted.http.append List.perm_append_comm
      refine (taken.trans regroup).trans ?_
      rw [← List.append_assoc, ← onward]
      exact moved.symm
    · exact accepted.trans ((congrArg (· ++ _) accounted.quic).trans (given.symm.trans (congrArg World.taken world.symm)))
    · refine left.trans (congrArg (self.dropped ++ ·) (dropped.trans ?_))
      cases quicFirst <;> rfl

theorem bindAccounted (http : Listener) (w : World) : Accounted (bind http w) := ⟨.refl _, rfl⟩

/- In every run each HTTP connection taken from the socket is accepted, failed, in its handshake
or dropped, and each QUIC connection is accepted, in order; and none is dropped if and only if
no step finds a handshake open that the endpoint, or the caller, cuts off. -/
theorem hybridAccounts (http : Listener) (w : World) (steps : List Action) {s : HybridListener}
    (ran : exec step (bind http w) steps = some s) :
    Accounted s ∧ (s.dropped = [] ↔ Along step (fun s a => cutOff s a = []) (bind http w) steps) := by
  suffices all : ∀ start, Accounted start → exec step start steps = some s →
      Accounted s ∧ ∃ lost, s.dropped = start.dropped ++ lost ∧ (lost = [] ↔ Along step (fun s a => cutOff s a = []) start steps) by
    obtain ⟨accounted, lost, dropped, along⟩ := all _ (bindAccounted http w) ran
    rw [dropped]
    exact ⟨accounted, along⟩
  clear ran
  induction steps with
  | nil =>
    intro start accounted ran
    cases Option.some.inj ran
    exact ⟨accounted, [], (List.append_nil _).symm, ⟨fun _ => trivial, fun _ => rfl⟩⟩
  | cons a rest ih =>
    intro start accounted ran
    obtain ⟨next, stepped, later⟩ := Option.bind_eq_some_iff.mp ran
    obtain ⟨accounted', dropped'⟩ := stepAccounted accounted stepped
    obtain ⟨done, lost, dropped, along⟩ := ih next accounted' later
    refine ⟨done, cutOff start a ++ lost, by rw [dropped, dropped', List.append_assoc], ?_⟩
    rw [List.append_eq_nil_iff, along]
    refine and_congr_right fun _ => ⟨fun tail t taken => ?_, fun tail => tail next stepped⟩
    cases Option.some.inj (stepped.symm.trans taken)
    exact tail

def lateHandshake (backlog : List Conn) : AcceptLoop.World := ⟨fun _ => backlog, fun _ => false, fun _ => false, false, fun _ => none, []⟩

def quicMeanwhile : List Action := [.poll true, .surroundings ⟨lateHandshake [], [2], false, []⟩, .poll true]

theorem hybridAccountsCut : ∃ s, exec step (bind ⟨0, .tls⟩ ⟨lateHandshake [1], [], false, []⟩) quicMeanwhile = some s ∧
    s.dropped = [1] ∧ s.quicAccepted = [2] ∧ Accounted s :=
  ⟨_, rfl, rfl, rfl, (hybridAccounts ⟨0, .tls⟩ ⟨lateHandshake [1], [], false, []⟩ quicMeanwhile rfl).1⟩

end Silent.QuicFallback
