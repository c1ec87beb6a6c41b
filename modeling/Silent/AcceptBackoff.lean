import Mathlib.Algebra.Group.Nat.Defs
import Mathlib.Data.List.Rotate
import Silent.ListenerAccept
import Silent.StepSystem

/-! Runs of `Listeners::accept`: calls, polls and dropped futures in any order, with a log
of what each listener answered. The log tells every backoff state, and a sleep ends at the
least deadline. -/
namespace Silent.AcceptBackoff
open ListenerAccept StepSystem

variable {L F W C E : Type}

section
variable (self : Listeners L) (now : Nat)

def deadlines : List Nat := self.backoffStates.map (·.nextReady)

def waits : Option Nat → Choice
  | some nextReady => .earliest nextReady
  | none => .nothing

def deadlineAt (offset : Nat) : Option Nat :=
  (self.backoffStates[(self.nextIndex + offset) % self.listeners.length]?).map (·.nextReady)

theorem scanWaits (offsets : List Nat) (earliestReady : Option Nat)
    (nobody : ∀ offset ∈ offsets, outOfBackoff self now ((self.nextIndex + offset) % self.listeners.length) = false) :
    scan self now offsets earliestReady = waits (earliestReady.toList ++ offsets.filterMap (deadlineAt self)).min? := by
  induction offsets generalizing earliestReady with
  | nil => cases earliestReady <;> rfl
  | cons offset rest ih =>
    have resting := nobody offset List.mem_cons_self
    have others := fun o among => nobody o (List.mem_cons_of_mem offset among)
    unfold scan
    dsimp only
    cases found : self.backoffStates[(self.nextIndex + offset) % self.listeners.length]? with
    | none =>
      have skipped : deadlineAt self offset = none := by simp [deadlineAt, found]
      rw [List.filterMap_cons_none skipped]
      exact ih earliestReady others
    | some state =>
      have seen : deadlineAt self offset = some state.nextReady := by simp [deadlineAt, found]
      have notReady : state.isReady now = false := by simpa [outOfBackoff, found] using resting
      rw [List.filterMap_cons_some seen]
      simp only [notReady, Bool.false_eq_true, if_false]
      cases earliestReady with
      | none => exact ih (some state.nextReady) others
      | some inst => exact ih (some (min inst state.nextReady)) others

theorem deadlineRotated {offset : Nat} (within : offset < self.listeners.length) :
    deadlineAt self offset = ((deadlines self).rotate self.nextIndex)[offset]? := by
  have within' : offset < (deadlines self).length := by simpa [deadlines, self.paired] using within
  rw [List.getElem?_rotate within', deadlineAt, deadlines, List.getElem?_map, List.length_map, self.paired, Nat.add_comm]

theorem visited (due : Nat) : due ∈ (List.range self.listeners.length).filterMap (deadlineAt self) ↔ due ∈ deadlines self := by
  rw [List.mem_filterMap, ← List.mem_rotate (n := self.nextIndex), List.mem_iff_getElem?]
  constructor
  · rintro ⟨offset, within, found⟩
    exact ⟨offset, by rw [← deadlineRotated self (List.mem_range.mp within), found]⟩
  · rintro ⟨offset, found⟩
    have within : offset < self.listeners.length := by
      simpa [deadlines, self.paired] using (List.getElem?_eq_some_iff.mp found).1
    exact ⟨offset, List.mem_range.mpr within, by rw [deadlineRotated self within, found]⟩

theorem minSameMembers {xs ys : List Nat} (same : ∀ n, n ∈ xs ↔ n ∈ ys) : xs.min? = ys.min? := by
  refine Option.ext fun least => ?_
  simp only [List.min?_eq_some_iff, same]

def Resting : Prop := ∀ offset ∈ List.range self.listeners.length,
  outOfBackoff self now ((self.nextIndex + offset) % self.listeners.length) = false

variable {self now}

theorem chooseResting (resting : Resting self now) : choose self now = waits (deadlines self).min? := by
  unfold choose
  rw [scanWaits self now _ none resting, Option.toList_none, List.nil_append, minSameMembers (visited self)]

theorem chooseAwake (awake : ¬ Resting self now) : ∃ idx, choose self now = .selected idx := by
  cases found : (List.range self.listeners.length).find?
      (fun offset => outOfBackoff self now ((self.nextIndex + offset) % self.listeners.length)) with
  | none => exact absurd (fun offset within => by simpa using List.find?_eq_none.mp found offset within) awake
  | some first => exact ⟨_, (scanSelects self now _ _ none).mpr ⟨first, found, rfl⟩⟩

theorem restingDeadlines : Resting self now ↔ ∀ due ∈ deadlines self, now < due := by
  constructor
  · intro resting due among
    obtain ⟨offset, within, found⟩ := List.mem_filterMap.mp ((visited self due).mpr among)
    obtain ⟨state, present, rfl⟩ := Option.map_eq_some_iff.mp found
    simpa [outOfBackoff, present, BackoffState.isReady] using resting offset within
  · intro later offset within
    unfold outOfBackoff
    cases present : self.backoffStates[(self.nextIndex + offset) % self.listeners.length]? with
    | none => rfl
    | some state =>
      have before := later state.nextReady (List.mem_map_of_mem (List.mem_of_getElem? present))
      simp [BackoffState.isReady, before]

theorem choosesEarliest (due : Nat) : choose self now = .earliest due ↔ (deadlines self).min? = some due ∧ now < due := by
  by_cases resting : Resting self now
  · rw [chooseResting resting]
    cases least : (deadlines self).min? with
    | none => simp [waits]
    | some first =>
      have after := restingDeadlines.mp resting first (List.min?_eq_some_iff.mp least).1
      simp only [waits, Choice.earliest.injEq, Option.some.injEq]
      exact ⟨fun same => ⟨same, same ▸ after⟩, fun both => both.1⟩
  · obtain ⟨idx, selected⟩ := chooseAwake resting
    rw [selected]
    constructor
    · intro same
      cases same
    · intro both
      have floor := (List.min?_eq_some_iff.mp both.1).2
      exact absurd (restingDeadlines.mpr fun other among => Nat.lt_of_lt_of_le both.2 (floor other among)) resting

end

section
variable {impl : Listen L F W C E} {self : Listeners L} {now : Nat}

def settle (now : Nat) : Except E C → BackoffState → BackoffState
  | .ok _, state => state.onSuccess now
  | .error _, state => state.onError now

def statesAfter (states : List BackoffState) (idx now : Nat) : Polled F (Except E C) → List BackoffState
  | .pending _ => states
  | .ready result => states.modify idx (settle now result)

theorem pollLoopSleeps (w : W) (due : Nat) :
    (pollLoop impl self now w).2.1 = .pending (.sleeping due) ↔ choose self now = .earliest due := by
  cases attends : chosen impl self now with
  | some pair =>
    obtain ⟨turned, -, reached⟩ := pollLoopReaches w attends
    rw [reached, pollListenerLifts, (chosenSource.mp attends).1]
    cases (impl.poll pair.2 w).1 <;> simp [lifted]
  | none =>
    unfold pollLoop
    unfold chosen at attends
    cases choice : choose self now with
    | selected idx =>
      rw [choice] at attends
      simp [Option.map_eq_none_iff.mp attends]
    | earliest nextReady => simp
    | nothing => simp

def Held (self : Listeners L) (clock : Nat) : AcceptFuture F → Prop
  | .start => True
  | .awaiting idx _ => outOfBackoff self clock idx = true
  | .sleeping until_ => (deadlines self).min? = some until_

theorem outLater {clock idx : Nat} (later : clock ≤ now) (out : outOfBackoff self clock idx = true) :
    outOfBackoff self now idx = true := by
  obtain ⟨state, found, ready⟩ := (Option.any_eq_true _ _).mp out
  have due : state.nextReady ≤ now := Nat.le_trans (of_decide_eq_true ready) later
  exact (Option.any_eq_true _ _).mpr ⟨state, found, decide_eq_true due⟩

theorem chosenOut {idx : Nat} {inner : F} (attends : chosen impl self now = some (idx, inner)) :
    outOfBackoff self now idx = true := by
  obtain ⟨offset, within, same, out, -⟩ := (choosesFirstReady self now idx).mp (chosenSource.mp attends).1
  exact out

theorem attendedOut {future : AcceptFuture F} {clock idx : Nat} {inner : F} (held : Held self clock future) (later : clock ≤ now)
    (attends : attended impl self future now = some (idx, inner)) : outOfBackoff self now idx = true := by
  cases future with
  | start => exact chosenOut attends
  | awaiting awaited awaitedInner =>
    cases Option.some.inj attends
    exact outLater later held
  | sleeping until_ =>
    dsimp only [attended] at attends
    split at attends
    · exact chosenOut attends
    · contradiction

theorem pollSleeps {future : AcceptFuture F} {clock : Nat} (held : Held self clock future) (later : clock ≤ now) (w : W) (due : Nat) :
    (poll impl self future now w).2.1 = .pending (.sleeping due) ↔ (deadlines self).min? = some due ∧ now < due := by
  rw [← choosesEarliest]
  cases future with
  | start =>
    unfold poll
    dsimp only
    split
    · rename_i empty
      simp [chooseEmpty now empty]
    · exact pollLoopSleeps w due
  | awaiting idx inner =>
    have attends : attended impl self (.awaiting idx inner) now = some (idx, inner) := rfl
    rw [pollAttended w attends, choosesEarliest]
    constructor
    · intro sleeping
      cases polled : (impl.poll inner w).1 <;> simp [lifted, polled] at sleeping
    · rintro ⟨least, before⟩
      obtain ⟨state, found, ready⟩ := (Option.any_eq_true _ _).mp (attendedOut held later attends)
      have floor := (List.min?_eq_some_iff.mp least).2 _ (List.mem_map_of_mem (List.mem_of_getElem? found))
      exact absurd (of_decide_eq_true ready : state.nextReady ≤ now) (Nat.not_le_of_lt (Nat.lt_of_lt_of_le before floor))
  | sleeping until_ =>
    unfold poll
    dsimp only
    split
    · exact pollLoopSleeps w due
    · rename_i early
      have least : (deadlines self).min? = some until_ := held
      have before := Nat.lt_of_not_le early
      rw [choosesEarliest, least]
      constructor
      · intro same
        cases same
        exact ⟨rfl, before⟩
      · rintro ⟨same, -⟩
        cases same
        rfl

end

structure Answer where
  listener : Nat
  moment : Nat
  failed : Bool
  deriving DecidableEq, Repr

def failures (answers : List Answer) : Nat := (answers.takeWhile (·.failed)).length

def delay : Nat → Nat
  | 0 => 0
  | n + 1 => min (50 * 2 ^ n) 2000

def dueAfter (created : Nat) (answers : List Answer) : Nat :=
  match answers with
  | [] => created
  | last :: _ => last.moment + delay (failures answers)

structure Paced (created : Nat) (answers : List Answer) (state : BackoffState) : Prop where
  ceiling : state.max = 2000
  atLeast : 50 ≤ state.current
  atMost : state.current ≤ 2000
  doubled : state.current = min (50 * 2 ^ failures answers) 2000
  due : state.nextReady = dueAfter created answers

section
variable {created now idx : Nat} {answers : List Answer} {state : BackoffState}

theorem newPaced (created : Nat) : Paced created [] (.new created) :=
  ⟨rfl, Nat.le_refl 50, by simp [BackoffState.new, BackoffState.BASE], rfl, rfl⟩

theorem failuresFailed : failures (⟨idx, now, true⟩ :: answers) = failures answers + 1 := by simp [failures]

theorem failuresServed : failures (⟨idx, now, false⟩ :: answers) = 0 := by simp [failures]

theorem successPaced (idx now : Nat) (paced : Paced created answers state) :
    Paced created (⟨idx, now, false⟩ :: answers) (state.onSuccess now) where
  ceiling := paced.ceiling
  atLeast := Nat.le_refl 50
  atMost := by simp [BackoffState.onSuccess, BackoffState.BASE]
  doubled := by simp [failuresServed, BackoffState.onSuccess, BackoffState.BASE]
  due := by simp [dueAfter, failuresServed, delay, BackoffState.onSuccess]

theorem errorPaced (idx now : Nat) (paced : Paced created answers state) :
    Paced created (⟨idx, now, true⟩ :: answers) (state.onError now) where
  ceiling := paced.ceiling
  atLeast := by
    have least := paced.atLeast
    simp only [BackoffState.onError, paced.ceiling]
    omega
  atMost := by
    simp only [BackoffState.onError, paced.ceiling]
    omega
  doubled := by
    simp only [BackoffState.onError, failuresFailed, paced.ceiling, paced.doubled, Nat.pow_succ]
    omega
  due := by simp only [dueAfter, failuresFailed, delay, BackoffState.onError, paced.doubled]

def failed : Except E C → Bool
  | .ok _ => false
  | .error _ => true

theorem settlePaced (idx now : Nat) (result : Except E C) (paced : Paced created answers state) :
    Paced created (⟨idx, now, failed result⟩ :: answers) (settle now result state) := by
  cases result with
  | ok conn => exact successPaced idx now paced
  | error e => exact errorPaced idx now paced

end

structure Watch (L F : Type) where
  accepting : Listeners L
  future : Option (AcceptFuture F)
  clock : Nat
  answers : List Answer

inductive Act (W : Type) where
  | call
  | poll (now : Nat) (w : W)
  | drop

def opened (listeners : List L) (created : Nat) : Watch L F := ⟨listen listeners created, none, created, []⟩

def logged (impl : Listen L F W C E) (s : Watch L F) (future : AcceptFuture F) (now : Nat) : Option (Except E C) → List Answer
  | none => s.answers
  | some result =>
      match attended impl s.accepting future now with
      | none => s.answers
      | some (idx, _) => ⟨idx, now, failed result⟩ :: s.answers

def advance (impl : Listen L F W C E) (s : Watch L F) (future : AcceptFuture F) (now : Nat) (w : W) : Watch L F :=
  match poll impl s.accepting future now w with
  | (accepting, .pending future, _) => ⟨accepting, some future, now, s.answers⟩
  | (accepting, .ready result, _) => ⟨accepting, none, now, logged impl s future now result⟩

-- `accept` borrows the listeners mutably, so there is one future at a time; the caller may drop it between polls.
def step (impl : Listen L F W C E) (s : Watch L F) : Act W → Option (Watch L F)
  | .call => if s.future.isNone then some {s with future := some .start} else none
  | .drop => s.future.map (fun _ => {s with future := none})
  | .poll now w => s.future.bind fun future => if s.clock ≤ now then some (advance impl s future now w) else none

structure Kept (created : Nat) (s : Watch L F) : Prop where
  paced : ∀ idx state, s.accepting.backoffStates[idx]? = some state →
    Paced created (s.answers.filter (·.listener = idx)) state
  held : ∀ future, s.future = some future → Held s.accepting s.clock future

section
variable {impl : Listen L F W C E} {created now : Nat} {s t : Watch L F}

theorem openedKept (listeners : List L) (created : Nat) : Kept created (opened (F := F) listeners created) where
  paced idx state found := by
    obtain ⟨listener, -, rfl⟩ := List.getElem?_map ▸ found |> Option.map_eq_some_iff.mp
    exact newPaced created
  held := nofun

theorem advanceIdle {future : AcceptFuture F} (w : W) (nobody : attended impl s.accepting future now = none) :
    (advance impl s future now w).accepting = s.accepting ∧ (advance impl s future now w).answers = s.answers ∧
      ∀ next, (advance impl s future now w).future = some next →
        ∃ due, next = .sleeping due ∧ (poll impl s.accepting future now w).2.1 = .pending (.sleeping due) := by
  obtain ⟨polled, gaveUp | ⟨due, asleep⟩, rested⟩ := pollRests w nobody
  · subst gaveUp
    rw [advance, rested]
    refine ⟨rfl, rfl, fun next waiting => ?_⟩
    cases waiting
  · subst asleep
    rw [advance, rested]
    refine ⟨rfl, rfl, fun next waiting => ?_⟩
    cases Option.some.inj waiting
    exact ⟨due, rfl, rfl⟩

theorem advanceAttended {future : AcceptFuture F} {idx : Nat} {inner : F} (w : W)
    (attends : attended impl s.accepting future now = some (idx, inner)) :
    (advance impl s future now w).accepting.backoffStates =
        statesAfter s.accepting.backoffStates idx now (impl.poll inner w).1 ∧
      (advance impl s future now w).clock = now ∧
      ((advance impl s future now w).future, (advance impl s future now w).answers) =
        match (impl.poll inner w).1 with
        | .pending inner => (some (.awaiting idx inner), s.answers)
        | .ready result => (none, ⟨idx, now, failed result⟩ :: s.answers) := by
  obtain ⟨turned, same, reached⟩ := pollReaches w attends
  rw [← same]
  rcases polled : impl.poll inner w with ⟨inner' | conn | e, w'⟩
  · rw [advance, reached, pollListener, polled]
    exact ⟨rfl, rfl, rfl⟩
  · rw [advance, reached, pollListener, polled]
    exact ⟨rfl, rfl, by simp only [logged, attends]⟩
  · rw [advance, reached, pollListener, polled]
    exact ⟨rfl, rfl, by simp only [logged, attends]⟩

theorem answeredPaced {idx : Nat} {result : Except E C} {states : List BackoffState} {answers : List Answer}
    (paced : ∀ other state, states[other]? = some state → Paced created (answers.filter (·.listener = other)) state)
    {other : Nat} {state : BackoffState} (found : (states.modify idx (settle now result))[other]? = some state) :
    Paced created ((⟨idx, now, failed result⟩ :: answers : List Answer).filter (·.listener = other)) state := by
  rw [List.getElem?_modify] at found
  obtain ⟨before, present, rfl⟩ := Option.map_eq_some_iff.mp found
  by_cases same : idx = other
  · subst same
    simp only [List.filter_cons_of_pos, decide_true, if_true]
    exact settlePaced idx now result (paced idx before present)
  · simp only [List.filter_cons, same, decide_false, if_false, Bool.false_eq_true]
    exact paced other before present

theorem advanceKept {future : AcceptFuture F} (w : W) (kept : Kept created s) (polling : s.future = some future)
    (later : s.clock ≤ now) : Kept created (advance impl s future now w) := by
  have held := kept.held future polling
  cases attends : attended impl s.accepting future now with
  | none =>
    obtain ⟨accepting, quiet, asleep⟩ := advanceIdle w attends
    constructor
    · rw [accepting, quiet]
      exact kept.paced
    · intro next waiting
      obtain ⟨due, rfl, sleeping⟩ := asleep next waiting
      rw [accepting]
      exact ((pollSleeps held later w due).mp sleeping).1
  | some pair =>
    obtain ⟨idx, inner⟩ := pair
    obtain ⟨states, clock, outcome⟩ := advanceAttended w attends
    cases answer : (impl.poll inner w).1 with
    | pending inner' =>
      rw [answer] at states outcome
      obtain ⟨waits, quiet⟩ := Prod.mk.inj outcome
      constructor
      · rw [states, quiet]
        exact kept.paced
      · intro next waiting
        rw [waits] at waiting
        cases Option.some.inj waiting
        rw [clock, Held, outOfBackoff, states]
        exact attendedOut held later attends
    | ready result =>
      rw [answer] at states outcome
      obtain ⟨finished, added⟩ := Prod.mk.inj outcome
      constructor
      · rw [states, added]
        exact fun other state => answeredPaced kept.paced
      · rw [finished]
        intro next waiting
        cases waiting

theorem stepKept (s : Watch L F) (a : Act W) (t : Watch L F) (kept : Kept created s) (taken : step impl s a = some t) :
    Kept created t := by
  cases a with
  | call =>
    unfold step at taken
    dsimp only at taken
    split at taken
    · cases Option.some.inj taken
      exact ⟨kept.paced, fun future same => by cases Option.some.inj same; trivial⟩
    · contradiction
  | poll now w =>
    obtain ⟨future, polling, taken⟩ := Option.bind_eq_some_iff.mp taken
    split at taken
    · rename_i later
      cases Option.some.inj taken
      exact advanceKept w kept polling later
    · contradiction
  | drop =>
    obtain ⟨future, -, rfl⟩ := Option.map_eq_some_iff.mp taken
    exact ⟨kept.paced, nofun⟩

theorem everyRunKeepsPace (impl : Listen L F W C E) (listeners : List L) (created : Nat) (s : Watch L F)
    (run : Run (step impl) (fun _ _ => True) (opened listeners created) s) :
    (∀ idx state, s.accepting.backoffStates[idx]? = some state →
      Paced created (s.answers.filter (·.listener = idx)) state) ∧
      ∀ future now w, s.future = some future → s.clock ≤ now →
        (∀ idx inner, attended impl s.accepting future now = some (idx, inner) → outOfBackoff s.accepting now idx = true) ∧
          ∀ due, (poll impl s.accepting future now w).2.1 = .pending (.sleeping due) ↔
            (s.accepting.backoffStates.map (·.nextReady)).min? = some due ∧ now < due := by
  have kept : Kept created s := runInvariant (fun s a t _ => stepKept s a t) run (openedKept listeners created)
  refine ⟨kept.paced, fun future now w polling later => ?_⟩
  have held := kept.held future polling
  exact ⟨fun idx inner => attendedOut held later, pollSleeps held later w⟩

end

def failing : Listen Nat Nat Unit Nat Unit := ⟨id, fun _ w => (.ready (.error ()), w)⟩

def bothFail : List (Act Unit) := [.call, .poll 0 (), .call, .poll 0 (), .call, .poll 0 ()]

theorem failingPairRests : ∃ s, exec (step failing) (opened [0, 1] 0) bothFail = some s ∧
    s.answers = [⟨1, 0, true⟩, ⟨0, 0, true⟩] ∧
      ∀ due, (poll failing s.accepting (.sleeping 50) 10 ()).2.1 = .pending (.sleeping due) ↔
        (s.accepting.backoffStates.map (·.nextReady)).min? = some due ∧ 10 < due :=
  ⟨_, rfl, rfl, ((everyRunKeepsPace failing [0, 1] 0 _ (execRun bothFail rfl)).2 _ 10 () rfl (by decide)).2⟩

end Silent.AcceptBackoff
