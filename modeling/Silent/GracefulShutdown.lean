import Silent.AcceptLoop

/-! The end of `serve_connection_loop`: the shutdown signal and its callback, the graceful
wait for the connection tasks, and `abort_all` with the joins behind it. The loop is the
machine of `AcceptLoop`; this one adds the deadline and what becomes of every task. -/
namespace Silent.GracefulShutdown
open AcceptLoop StepSystem

structure ShutdownConfig where
  gracefulWait : Nat

structure ShutdownHandle where
  shutdownCallback : Bool
  shutdownCfg : ShutdownConfig

inductive End where
  | served
  | dropped
  | cancelled
  deriving DecidableEq, Repr

structure TaskEnd where
  conn : Conn
  how : End
  at_ : Nat
  deriving DecidableEq, Repr

structure Left where
  at_ : Nat
  signalled : Bool
  deriving DecidableEq, Repr

structure Closing where
  server : Server
  left : Option Left
  callbacks : Nat
  aborted : List Conn
  returned : Bool
  accepted : List Conn
  ended : List TaskEnd

inductive Step where
  | server (action : Action)
  | abortAll
  | unwind (conn : Conn) (how : End)
  | return_

def serveConnectionLoop (listeners : List Listener) (limited : Bool) (now : Nat) (w : World) : Closing :=
  ⟨serve listeners limited now w, none, 0, [], false, [], []⟩

def signals : Action → Bool
  | .wake signalled => signalled
  | _ => false

def spawned (before after : Server) : Action → List Conn
  | .wake _ => after.waiting.drop before.waiting.length
  | _ => []

def endings (now : Nat) : Action → List TaskEnd
  | .permitTimeout conn => [⟨conn, .dropped, now⟩]
  | .finish conn => [⟨conn, .served, now⟩]
  | _ => []

-- `signal` runs the callback before the branch that leaves the loop.
def noted (handle : ShutdownHandle) (s : Closing) (action : Action) (server : Server) : Closing :=
  {s with
    server
    left := if s.server.phase = .running ∧ server.phase ≠ .running then some ⟨server.now, signals action⟩ else s.left
    callbacks := s.callbacks + if signals action && handle.shutdownCallback then 1 else 0
    accepted := s.accepted ++ spawned s.server server action
    ended := s.ended ++ endings s.server.now action}

def graceOver (cfg : ShutdownConfig) (s : Closing) : Bool :=
  cfg.gracefulWait = 0 || (s.server.waiting.isEmpty && s.server.serving.isEmpty) ||
    s.left.any fun left => left.at_ + cfg.gracefulWait ≤ s.server.now

-- A task that is polled while it is aborted may still come to its own end.
def step (handle : ShutdownHandle) (s : Closing) : Step → Option Closing
  | .server .abortAll => none
  | .server action => (AcceptLoop.step s.server action).map (noted handle s action)
  | .abortAll =>
      if graceOver handle.shutdownCfg s then
        (AcceptLoop.step s.server .abortAll).map fun server => {s with server, aborted := s.server.waiting ++ s.server.serving}
      else none
  | .unwind conn how =>
      if conn ∈ s.aborted then
        some {s with aborted := s.aborted.erase conn, ended := s.ended ++ [⟨conn, how, s.server.now⟩]}
      else none
  | .return_ =>
      if s.server.phase = .closed ∧ s.aborted = [] ∧ s.returned = false then some {s with returned := true} else none

def unfinished (s : Closing) : List Conn := s.server.waiting ++ s.server.serving ++ s.aborted

structure Moves (before after : Server) (action : Action) : Prop where
  tasks : (before.waiting ++ before.serving ++ spawned before after action).Perm
    (after.waiting ++ after.serving ++ (endings before.now action).map (·.conn))
  later : before.now ≤ after.now
  closed : after.phase = .closed ↔ before.phase = .closed
  running : after.phase = .running → before.phase = .running
  signalled : signals action = true → before.phase = .running ∧ after.phase = .draining
  spawns : spawned before after action ≠ [] → before.phase = .running

theorem settleMoves (self : Server) (polled : ListenerAccept.Polled (ListenerAccept.AcceptFuture ListenFuture) (Option Accepted)) :
    ∃ more, (settle self polled).waiting = self.waiting ++ more ∧ (settle self polled).serving = self.serving ∧
      (settle self polled).now = self.now ∧
      ((settle self polled).phase = self.phase ∨ (settle self polled).phase = .draining) := by
  unfold settle
  split
  · exact ⟨[], by simp⟩
  · rename_i conn
    exact ⟨[conn], by simp⟩
  · exact ⟨[], by simp⟩
  · split <;> exact ⟨[], by simp⟩

theorem selectMoves (self : Server) (signalled : Bool) :
    ∃ more, (select self signalled).waiting = self.waiting ++ more ∧ (select self signalled).serving = self.serving ∧
      (select self signalled).now = self.now ∧
      ((select self signalled).phase = self.phase ∨ (select self signalled).phase = .draining) ∧
      (signalled = true → (select self signalled).phase = .draining) := by
  unfold select
  split
  · exact ⟨[], by simp⟩
  · rename_i quiet
    obtain ⟨more, waiting, serving, now, phase⟩ := settleMoves
      {self with
        listeners := (ListenerAccept.poll listenImpl self.listeners self.future self.now self.world).1
        world := (ListenerAccept.poll listenImpl self.listeners self.future self.now self.world).2.2}
      (ListenerAccept.poll listenImpl self.listeners self.future self.now self.world).2.1
    exact ⟨more, waiting, serving, now, phase, fun on => absurd on quiet⟩

theorem loopMoves {self next : Server} {action : Action} (ongoing : action ≠ .abortAll)
    (taken : AcceptLoop.step self action = some next) : Moves self next action := by
  cases action with
  | surroundings w =>
    cases Option.some.inj taken
    exact ⟨by simp [spawned, endings], Nat.le_refl _, Iff.rfl, id, by simp [signals], by simp [spawned]⟩
  | elapse ms =>
    cases Option.some.inj taken
    exact ⟨by simp [spawned, endings], Nat.le_add_right _ _, Iff.rfl, id, by simp [signals], by simp [spawned]⟩
  | wake signalled =>
    simp only [AcceptLoop.step, Option.ite_none_right_eq_some, Option.some.injEq] at taken
    obtain ⟨running, rfl⟩ := taken
    obtain ⟨more, waiting, serving, now, phase, leaves⟩ := selectMoves self signalled
    refine ⟨?_, Nat.le_of_eq now.symm, ?_, fun _ => running, fun on => ⟨running, leaves on⟩, fun _ => running⟩
    · simp only [spawned, endings, waiting, serving, List.drop_left, List.map_nil, List.append_nil, List.append_assoc]
      exact List.perm_append_comm.append_left _
    · rcases phase with same | draining
      · rw [same]
      · simp [draining, running]
  | begin_ conn =>
    simp only [AcceptLoop.step, Option.ite_none_right_eq_some, Option.some.injEq] at taken
    obtain ⟨⟨live, present⟩, rfl⟩ := taken
    refine ⟨List.perm_iff_count.mpr fun other => ?_, Nat.le_refl _, Iff.rfl, id, by simp [signals], by simp [spawned]⟩
    have moved := erasedCount present other
    simp only [spawned, endings, List.map_nil, List.append_nil, List.count_append, List.count_cons, List.count_nil]
    omega
  | permitTimeout conn =>
    simp only [AcceptLoop.step, Option.ite_none_right_eq_some, Option.some.injEq] at taken
    obtain ⟨⟨live, -, present⟩, rfl⟩ := taken
    refine ⟨List.perm_iff_count.mpr fun other => ?_, Nat.le_refl _, Iff.rfl, id, by simp [signals], by simp [spawned]⟩
    have moved := erasedCount present other
    simp only [spawned, endings, List.map_cons, List.map_nil, List.append_nil, List.count_append, List.count_cons, List.count_nil]
    omega
  | finish conn =>
    simp only [AcceptLoop.step, Option.ite_none_right_eq_some, Option.some.injEq] at taken
    obtain ⟨⟨live, present⟩, rfl⟩ := taken
    refine ⟨List.perm_iff_count.mpr fun other => ?_, Nat.le_refl _, Iff.rfl, id, by simp [signals], by simp [spawned]⟩
    have moved := erasedCount present other
    simp only [spawned, endings, List.map_cons, List.map_nil, List.append_nil, List.count_append, List.count_cons, List.count_nil]
    omega
  | abortAll => contradiction

theorem serverStep {handle : ShutdownHandle} {s t : Closing} {action : Action} (taken : step handle s (.server action) = some t) :
    ∃ server, Moves s.server server action ∧ t = noted handle s action server := by
  have inside : action ≠ .abortAll ∧ ∃ server, AcceptLoop.step s.server action = some server ∧ noted handle s action server = t := by
    cases action with
    | abortAll => cases taken
    | _ => exact ⟨by simp, Option.map_eq_some_iff.mp taken⟩
  obtain ⟨ongoing, server, looped, rfl⟩ := inside
  exact ⟨server, loopMoves ongoing looped, rfl⟩

theorem abortStep {handle : ShutdownHandle} {s t : Closing} (taken : step handle s .abortAll = some t) :
    graceOver handle.shutdownCfg s = true ∧ s.server.phase = .draining ∧
      t = {s with
        server := {s.server with phase := .closed, waiting := [], serving := [], finished := []}
        aborted := s.server.waiting ++ s.server.serving} := by
  simp only [step, AcceptLoop.step, Option.ite_none_right_eq_some, Option.map_eq_some_iff, Option.some.injEq] at taken
  obtain ⟨allowed, server, ⟨draining, rfl⟩, rfl⟩ := taken
  exact ⟨allowed, draining, rfl⟩

def callbacksDue (handle : ShutdownHandle) : Option Left → Nat
  | some ⟨_, true⟩ => if handle.shutdownCallback then 1 else 0
  | _ => 0

def Spent (handle : ShutdownHandle) (s : Closing) (now : Nat) : Prop :=
  ∃ left ∈ s.left, left.at_ + handle.shutdownCfg.gracefulWait ≤ now

structure Sound (handle : ShutdownHandle) (s : Closing) : Prop where
  tasks : s.accepted.Perm (unfinished s ++ s.ended.map (·.conn))
  looping : s.left = none ↔ s.server.phase = .running
  past : ∀ left ∈ s.left, left.at_ ≤ s.server.now
  callbacks : s.callbacks = callbacksDue handle s.left
  live : s.server.phase ≠ .closed → s.aborted = []
  closed : s.server.phase = .closed → s.server.waiting = [] ∧ s.server.serving = []
  spent : s.aborted ≠ [] → Spent handle s s.server.now
  cancelled : ∀ e ∈ s.ended, e.how = .cancelled → Spent handle s e.at_
  returned : s.returned = true → s.server.phase = .closed ∧ s.aborted = []

theorem startsSound (handle : ShutdownHandle) (listeners : List Listener) (limited : Bool) (now : Nat) (w : World) :
    Sound handle (serveConnectionLoop listeners limited now w) := by
  constructor <;> simp [serveConnectionLoop, serve, unfinished, callbacksDue]

theorem endingsHow {now : Nat} {action : Action} {e : TaskEnd} (among : e ∈ endings now action) : e.how ≠ .cancelled := by
  cases action <;> simp [endings] at among <;> simp [among]

theorem serverSound {handle : ShutdownHandle} {s : Closing} {action : Action} {server : Server} (sound : Sound handle s)
    (moves : Moves s.server server action) : Sound handle (noted handle s action server) := by
  have leaves : (noted handle s action server).left = s.left ∨
      s.server.phase = .running ∧ server.phase ≠ .running ∧ (noted handle s action server).left = some ⟨server.now, signals action⟩ := by
    by_cases leaving : s.server.phase = .running ∧ server.phase ≠ .running
    · exact .inr ⟨leaving.1, leaving.2, if_pos leaving⟩
    · exact .inl (if_neg leaving)
  have stays {now : Nat} (before : Spent handle s now) : Spent handle (noted handle s action server) now := by
    obtain ⟨left, gone, past⟩ := before
    rcases leaves with same | ⟨running, -, -⟩
    · exact ⟨left, same ▸ gone, past⟩
    · rw [sound.looping.mpr running] at gone
      cases gone
  constructor
  · refine List.perm_iff_count.mpr fun conn => ?_
    have counted := sound.tasks.count_eq conn
    have moved := moves.tasks.count_eq conn
    simp only [unfinished, noted, List.count_append, List.map_append] at counted moved ⊢
    omega
  · rcases leaves with same | ⟨running, stopped, left⟩
    · rw [same, sound.looping]
      refine ⟨fun running => ?_, moves.running⟩
      by_contra stopped
      have left : (noted handle s action server).left = some ⟨server.now, signals action⟩ := if_pos ⟨running, stopped⟩
      rw [same, sound.looping.mpr running] at left
      cases left
    · exact ⟨fun none => absurd (left.symm.trans none) (Option.some_ne_none _), fun running => absurd running stopped⟩
  · intro left gone
    rcases leaves with same | ⟨running, -, here⟩
    · rw [same] at gone
      exact Nat.le_trans (sound.past left gone) moves.later
    · rw [here] at gone
      cases gone
      exact Nat.le_refl _
  · cases signal : signals action with
    | true =>
      obtain ⟨running, draining⟩ := moves.signalled signal
      have left : (noted handle s action server).left = some ⟨server.now, signals action⟩ :=
        if_pos ⟨running, by rw [draining]; simp⟩
      have quiet := sound.callbacks
      rw [sound.looping.mpr running] at quiet
      rw [left, signal]
      simp only [noted, quiet, signal, callbacksDue, Bool.true_and, Nat.zero_add]
    | false =>
      have same : (noted handle s action server).callbacks = s.callbacks := by simp [noted, signal]
      rcases leaves with stay | ⟨running, -, left⟩
      · rw [same, stay, sound.callbacks]
      · rw [same, left, signal, sound.callbacks, sound.looping.mpr running]
        rfl
  · intro live
    exact sound.live (fun closed => live (moves.closed.mpr closed))
  · intro closed
    have before := moves.closed.mp closed
    have none : spawned s.server server action = [] := by
      by_contra some
      rw [moves.spawns some] at before
      cases before
    have empty := moves.tasks
    rw [none, (sound.closed before).1, (sound.closed before).2] at empty
    have gone := List.append_eq_nil_iff.mp (List.append_eq_nil_iff.mp empty.nil_eq.symm).1
    exact gone
  · intro some
    obtain ⟨left, gone, past⟩ := sound.spent some
    exact stays ⟨left, gone, Nat.le_trans past moves.later⟩
  · intro e among how
    rcases List.mem_append.mp among with before | new
    · exact stays (sound.cancelled e before how)
    · exact absurd how (endingsHow new)
  · intro returned
    obtain ⟨closed, none⟩ := sound.returned returned
    exact ⟨moves.closed.mpr closed, none⟩

theorem abortSound {handle : ShutdownHandle} {s t : Closing} (sound : Sound handle s)
    (taken : step handle s .abortAll = some t) : Sound handle t := by
  obtain ⟨allowed, draining, rfl⟩ := abortStep taken
  have live : s.server.phase ≠ .closed := by rw [draining]; simp
  have gone : s.left ≠ none := fun none => by
    rw [sound.looping.mp none] at draining
    cases draining
  constructor
  · refine List.perm_iff_count.mpr fun conn => ?_
    have counted := sound.tasks.count_eq conn
    have none := sound.live live
    simp only [unfinished, none, List.count_append, List.count_nil] at counted ⊢
    omega
  · exact ⟨fun none => absurd none gone, fun running => by cases running⟩
  · exact sound.past
  · exact sound.callbacks
  · intro closed
    exact absurd rfl closed
  · intro _
    exact ⟨rfl, rfl⟩
  · intro some
    obtain ⟨left, here⟩ := Option.ne_none_iff_exists'.mp gone
    refine ⟨left, here, ?_⟩
    have past := sound.past left here
    have busy : (s.server.waiting.isEmpty && s.server.serving.isEmpty) = false := by
      by_contra idle
      simp only [Bool.not_eq_false, Bool.and_eq_true, List.isEmpty_iff] at idle
      exact some (by simp [idle])
    simp only [graceOver, busy, here, Option.any_some, Bool.or_false, Bool.or_eq_true, decide_eq_true_eq] at allowed
    rcases allowed with zero | late
    · rw [zero]
      exact past
    · exact late
  · exact sound.cancelled
  · intro returned
    exact absurd (sound.returned returned).1 live

theorem stepSound {handle : ShutdownHandle} (s : Closing) (a : Step) (t : Closing) (sound : Sound handle s)
    (taken : step handle s a = some t) : Sound handle t := by
  cases a with
  | server action =>
    obtain ⟨server, moves, rfl⟩ := serverStep taken
    exact serverSound sound moves
  | abortAll => exact abortSound sound taken
  | unwind conn how =>
    simp only [step, Option.ite_none_right_eq_some, Option.some.injEq] at taken
    obtain ⟨present, rfl⟩ := taken
    have some : s.aborted ≠ [] := List.ne_nil_of_mem present
    constructor
    · refine List.perm_iff_count.mpr fun other => ?_
      have counted := sound.tasks.count_eq other
      have moved := erasedCount present other
      simp only [unfinished, List.map_append, List.map_cons, List.map_nil, List.count_append, List.count_cons, List.count_nil]
        at counted ⊢
      omega
    · exact sound.looping
    · exact sound.past
    · exact sound.callbacks
    · intro live
      exact absurd (sound.live live) some
    · exact sound.closed
    · intro _
      exact sound.spent some
    · intro e among cancelled
      rcases List.mem_append.mp among with before | new
      · exact sound.cancelled e before cancelled
      · rw [List.mem_singleton.mp new]
        exact sound.spent some
    · intro returned
      exact absurd (sound.returned returned).2 some
  | return_ =>
    simp only [step, Option.ite_none_right_eq_some, Option.some.injEq] at taken
    obtain ⟨⟨closed, none, -⟩, rfl⟩ := taken
    exact {sound with returned := fun _ => ⟨closed, none⟩}

theorem runSound {handle : ShutdownHandle} {s t : Closing} (run : Run (step handle) (fun _ _ => True) s t) (sound : Sound handle s) :
    Sound handle t :=
  runInvariant (fun s a t _ => stepSound s a t) run sound

theorem stopped {handle : ShutdownHandle} {s : Closing} {left : Left} (sound : Sound handle s) (gone : s.left = some left) :
    s.server.phase ≠ .running := by
  intro running
  rw [sound.looping.mpr running] at gone
  cases gone

theorem stepFrozen {handle : ShutdownHandle} {s t : Closing} {a : Step} {left : Left} (sound : Sound handle s)
    (gone : s.left = some left) (taken : step handle s a = some t) :
    t.accepted = s.accepted ∧ t.left = s.left ∧ t.callbacks = s.callbacks := by
  have away := stopped sound gone
  cases a with
  | server action =>
    obtain ⟨server, moves, rfl⟩ := serverStep taken
    have none : spawned s.server server action = [] := by
      by_contra some
      exact away (moves.spawns some)
    have quiet : signals action = false := by
      by_contra signal
      exact away (moves.signalled (eq_true_of_ne_false signal)).1
    simp [noted, none, quiet, away]
  | abortAll =>
    obtain ⟨-, -, rfl⟩ := abortStep taken
    exact ⟨rfl, rfl, rfl⟩
  | unwind conn how =>
    simp only [step, Option.ite_none_right_eq_some, Option.some.injEq] at taken
    obtain ⟨-, rfl⟩ := taken
    exact ⟨rfl, rfl, rfl⟩
  | return_ =>
    simp only [step, Option.ite_none_right_eq_some, Option.some.injEq] at taken
    obtain ⟨-, rfl⟩ := taken
    exact ⟨rfl, rfl, rfl⟩

theorem runFrozen {handle : ShutdownHandle} {s t : Closing} {left : Left} (sound : Sound handle s) (gone : s.left = some left)
    (run : Run (step handle) (fun _ _ => True) s t) :
    t.accepted = s.accepted ∧ t.left = s.left ∧ t.callbacks = s.callbacks := by
  induction run with
  | done s => exact ⟨rfl, rfl, rfl⟩
  | next fine taken later ih =>
    obtain ⟨accepted, same, callbacks⟩ := stepFrozen sound gone taken
    obtain ⟨acceptedLater, sameLater, callbacksLater⟩ := ih (stepSound _ _ _ sound taken) (same.trans gone)
    exact ⟨acceptedLater.trans accepted, sameLater.trans same, callbacksLater.trans callbacks⟩

theorem everyTaskEndsOnce {handle : ShutdownHandle} {listeners : List Listener} {limited : Bool} {now : Nat} {w : World}
    {s : Closing} (run : Run (step handle) (fun _ _ => True) (serveConnectionLoop listeners limited now w) s) :
    s.accepted.Perm (unfinished s ++ s.ended.map (·.conn)) ∧
      (s.returned = true → unfinished s = []) ∧
      (∀ e ∈ s.ended, e.how = .cancelled → ∃ left ∈ s.left, left.at_ + handle.shutdownCfg.gracefulWait ≤ e.at_) ∧
      s.callbacks = callbacksDue handle s.left ∧
      (s.left ≠ none → ∀ t, Run (step handle) (fun _ _ => True) s t →
        t.accepted = s.accepted ∧ t.left = s.left ∧ t.callbacks = s.callbacks) := by
  have sound := runSound run (startsSound handle listeners limited now w)
  refine ⟨sound.tasks, fun returned => ?_, sound.cancelled, sound.callbacks, fun away t later => ?_⟩
  · obtain ⟨closed, none⟩ := sound.returned returned
    obtain ⟨waiting, serving⟩ := sound.closed closed
    rw [unfinished, waiting, serving, none]
    rfl
  · obtain ⟨left, gone⟩ := Option.ne_none_iff_exists'.mp away
    exact runFrozen sound gone later

def twoClients : World := ⟨fun _ => [1, 2], fun _ => false, fun _ => false, false, fun _ => none, []⟩

def signalledRun : List Step :=
  [.server (.wake false), .server (.begin_ 1), .server (.wake false), .server (.begin_ 2), .server (.wake true),
    .server (.finish 1), .server (.elapse 10)]

def closingRun : List Step := signalledRun ++ [.abortAll, .unwind 2 .cancelled, .return_]

theorem everyTaskEndsOnceDeadline :
    ∃ s, exec (step ⟨true, ⟨10⟩⟩) (serveConnectionLoop [⟨0, .plain⟩] false 0 twoClients) closingRun = some s ∧
      s.ended = [⟨1, .served, 0⟩, ⟨2, .cancelled, 10⟩] ∧ s.returned = true ∧ s.callbacks = 1 ∧
      s.accepted.Perm (unfinished s ++ s.ended.map (·.conn)) :=
  ⟨_, rfl, rfl, rfl, rfl, (@everyTaskEndsOnce ⟨true, ⟨10⟩⟩ [⟨0, .plain⟩] false 0 twoClients _ (execRun closingRun rfl)).1⟩

-- The steps that are not work: time passes, or the world around the server changes.
def idles : Step → Bool
  | .server (.surroundings _) => true
  | .server (.elapse _) => true
  | _ => false

def remaining (s : Closing) : Nat :=
  match s.server.phase, s.returned with
  | .closed, true => 0
  | .closed, false => 1
  | _, _ => 2

def weight (s : Closing) : Nat :=
  3 * s.server.waiting.length + 2 * s.server.serving.length + s.aborted.length + remaining s

def cost (a : Step) : Nat := if idles a then 0 else 1

theorem stepWeight {handle : ShutdownHandle} {s t : Closing} {a : Step} {left : Left} (sound : Sound handle s)
    (gone : s.left = some left) (taken : step handle s a = some t) : cost a + weight t ≤ weight s := by
  have away := stopped sound gone
  cases a with
  | server action =>
    cases action with
    | surroundings w =>
      cases Option.some.inj taken
      simp [cost, idles, weight, remaining, noted]
    | elapse ms =>
      cases Option.some.inj taken
      simp [cost, idles, weight, remaining, noted]
    | wake signalled =>
      simp only [step, AcceptLoop.step, away, if_false, Option.map_none] at taken
      cases taken
    | begin_ conn =>
      simp only [step, AcceptLoop.step, Option.map_eq_some_iff, Option.ite_none_right_eq_some, Option.some.injEq] at taken
      obtain ⟨server, ⟨⟨-, present⟩, rfl⟩, rfl⟩ := taken
      have shorter := List.length_erase_of_mem present
      have some := List.length_pos_of_mem present
      simp only [cost, idles, weight, remaining, noted, List.length_append, List.length_cons, List.length_nil, shorter,
        Bool.false_eq_true, if_false]
      omega
    | permitTimeout conn =>
      simp only [step, AcceptLoop.step, Option.map_eq_some_iff, Option.ite_none_right_eq_some, Option.some.injEq] at taken
      obtain ⟨server, ⟨⟨-, -, present⟩, rfl⟩, rfl⟩ := taken
      have shorter := List.length_erase_of_mem present
      have some := List.length_pos_of_mem present
      simp only [cost, idles, weight, remaining, noted, shorter, Bool.false_eq_true, if_false]
      omega
    | finish conn =>
      simp only [step, AcceptLoop.step, Option.map_eq_some_iff, Option.ite_none_right_eq_some, Option.some.injEq] at taken
      obtain ⟨server, ⟨⟨-, present⟩, rfl⟩, rfl⟩ := taken
      have shorter := List.length_erase_of_mem present
      have some := List.length_pos_of_mem present
      simp only [cost, idles, weight, remaining, noted, shorter, Bool.false_eq_true, if_false]
      omega
    | abortAll => cases taken
  | abortAll =>
    obtain ⟨-, draining, rfl⟩ := abortStep taken
    have live := sound.live (by rw [draining]; simp)
    have unreturned : s.returned = false := by
      by_contra returned
      rw [(sound.returned (eq_true_of_ne_false returned)).1] at draining
      cases draining
    simp only [cost, idles, weight, remaining, draining, live, unreturned, List.length_append, List.length_nil,
      Bool.false_eq_true, if_false]
    omega
  | unwind conn how =>
    simp only [step, Option.ite_none_right_eq_some, Option.some.injEq] at taken
    obtain ⟨present, rfl⟩ := taken
    have shorter := List.length_erase_of_mem present
    have some := List.length_pos_of_mem present
    simp only [cost, idles, weight, remaining, shorter, Bool.false_eq_true, if_false]
    omega
  | return_ =>
    simp only [step, Option.ite_none_right_eq_some, Option.some.injEq] at taken
    obtain ⟨⟨closed, none, unreturned⟩, rfl⟩ := taken
    simp only [cost, idles, weight, remaining, closed, unreturned, Bool.false_eq_true, if_false]
    omega

theorem workBounded {handle : ShutdownHandle} {s t : Closing} {left : Left} (steps : List Step) (sound : Sound handle s)
    (gone : s.left = some left) (ran : exec (step handle) s steps = some t) :
    steps.countP (!idles ·) + weight t ≤ weight s := by
  induction steps generalizing s with
  | nil =>
    cases Option.some.inj ran
    simp
  | cons a rest ih =>
    obtain ⟨u, taken, later⟩ := Option.bind_eq_some_iff.mp ran
    have first := stepWeight sound gone taken
    have others := ih (stepSound _ _ _ sound taken) ((stepFrozen sound gone taken).2.1.trans gone) later
    rw [List.countP_cons]
    cases idle : idles a <;> simp only [cost, idle, Bool.false_eq_true, if_true, if_false, Bool.not_false, Bool.not_true] at first ⊢ <;>
      omega

-- What the server does by itself once it closes, and what `join_next` waits for after `abort_all`.
def ownStep : Step → Bool
  | .abortAll | .return_ => true
  | _ => false

def yields : Step → Bool
  | .unwind _ _ => true
  | _ => false

def Closes (a : Step) : Prop := ownStep a = true ∨ yields a = true

def Ready (handle : ShutdownHandle) (left : Left) (s : Closing) : Prop :=
  left.at_ + handle.shutdownCfg.gracefulWait ≤ s.server.now ∨ s.server.waiting = [] ∧ s.server.serving = []

theorem neverStuck {handle : ShutdownHandle} {s : Closing} {left : Left} (sound : Sound handle s) (gone : s.left = some left)
    (unreturned : s.returned = false) (ready : Ready handle left s) :
    ∃ a t, Closes a ∧ step handle s a = some t := by
  cases phase : s.server.phase with
  | running => exact absurd phase (stopped sound gone)
  | draining =>
    have grace : graceOver handle.shutdownCfg s = true := by
      rcases ready with late | ⟨waiting, serving⟩
      · simp [graceOver, gone, late]
      · simp [graceOver, waiting, serving]
    refine ⟨.abortAll, {s with
      server := {s.server with phase := .closed, waiting := [], serving := [], finished := []}
      aborted := s.server.waiting ++ s.server.serving}, .inl rfl, ?_⟩
    simp only [step, AcceptLoop.step, grace, phase, if_true, Option.map_some]
  | closed =>
    cases open_ : s.aborted with
    | nil => exact ⟨.return_, _, .inl rfl, if_pos ⟨phase, open_, unreturned⟩⟩
    | cons conn rest => exact ⟨.unwind conn .cancelled, _, .inr rfl, if_pos (by rw [open_]; exact List.mem_cons_self)⟩

theorem ownStepReady {handle : ShutdownHandle} {s t : Closing} {a : Step} {left : Left} (own : Closes a)
    (ready : Ready handle left s) (taken : step handle s a = some t) : Ready handle left t := by
  cases a with
  | server action => cases own <;> contradiction
  | abortAll =>
    obtain ⟨-, -, rfl⟩ := abortStep taken
    exact .inr ⟨rfl, rfl⟩
  | unwind conn how =>
    simp only [step, Option.ite_none_right_eq_some, Option.some.injEq] at taken
    obtain ⟨-, rfl⟩ := taken
    exact ready
  | return_ =>
    simp only [step, Option.ite_none_right_eq_some, Option.some.injEq] at taken
    obtain ⟨-, rfl⟩ := taken
    exact ready

theorem reachesReturn {handle : ShutdownHandle} {s : Closing} {left : Left} (sound : Sound handle s) (gone : s.left = some left)
    (ready : Ready handle left s) :
    ∃ t, Run (step handle) (fun _ a => Closes a) s t ∧ t.returned = true := by
  refine runFinishes (P := fun s => Sound handle s ∧ s.left = some left ∧ Ready handle left s) weight ?_ ?_ ⟨sound, gone, ready⟩
  · intro s a t own kept taken
    exact ⟨stepSound s a t kept.1 taken, (stepFrozen kept.1 kept.2.1 taken).2.1.trans kept.2.1, ownStepReady own kept.2.2 taken⟩
  · intro s kept unreturned
    obtain ⟨a, t, own, taken⟩ := neverStuck kept.1 kept.2.1 (eq_false_of_ne_true unreturned) kept.2.2
    have less := stepWeight kept.1 kept.2.1 taken
    have work : cost a = 1 := by
      cases a with
      | server action => cases own <;> contradiction
      | abortAll | unwind conn how | return_ => rfl
    exact ⟨a, t, own, taken, by omega⟩

theorem shutdownReturns {handle : ShutdownHandle} {listeners : List Listener} {limited : Bool} {now : Nat} {w : World}
    {s : Closing} {left : Left} (run : Run (step handle) (fun _ _ => True) (serveConnectionLoop listeners limited now w) s)
    (gone : s.left = some left) :
    (∀ steps t, exec (step handle) s steps = some t → steps.countP (!idles ·) ≤ weight s) ∧
      (Ready handle left s → ∃ t, Run (step handle) (fun _ a => Closes a) s t ∧ t.returned = true) := by
  have sound := runSound run (startsSound handle listeners limited now w)
  exact ⟨fun steps t ran => Nat.le_trans (Nat.le_add_right _ _) (workBounded steps sound gone ran), reachesReturn sound gone⟩

theorem shutdownReturnsDeadline :
    ∃ s, exec (step ⟨true, ⟨10⟩⟩) (serveConnectionLoop [⟨0, .plain⟩] false 0 twoClients) signalledRun = some s ∧
      s.server.serving = [2] ∧ ∃ t, Run (step ⟨true, ⟨10⟩⟩) (fun _ a => Closes a) s t ∧ t.returned = true :=
  ⟨_, rfl, rfl, (@shutdownReturns ⟨true, ⟨10⟩⟩ [⟨0, .plain⟩] false 0 twoClients _ ⟨0, true⟩
    (execRun signalledRun rfl) rfl).2 (.inl (by decide))⟩

end Silent.GracefulShutdown
