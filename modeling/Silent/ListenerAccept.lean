import Mathlib.Data.List.Basic

/-! `Listeners::accept`, one poll at a time. The future keeps the listener it has chosen
by round robin among those out of backoff and polls no other one until that listener
answers. Listeners are any type `L` whose accept futures are values of `F`, polled in a
world `W`; the clock is in milliseconds and read once at each poll. -/
namespace Silent.ListenerAccept

structure BackoffState where
  current : Nat
  max : Nat
  nextReady : Nat
  deriving DecidableEq, Repr

namespace BackoffState

def BASE : Nat := 50
def MAX : Nat := 2000

def new (now : Nat) : BackoffState := ⟨BASE, MAX, now⟩

def isReady (self : BackoffState) (now : Nat) : Bool := self.nextReady ≤ now

def onSuccess (self : BackoffState) (now : Nat) : BackoffState := {self with current := BASE, nextReady := now}

def onError (self : BackoffState) (now : Nat) : BackoffState :=
  {self with nextReady := now + self.current, current := min (self.current * 2) self.max}

end BackoffState

structure Listeners (L : Type) where
  listeners : List L
  backoffStates : List BackoffState
  nextIndex : Nat
  paired : backoffStates.length = listeners.length

def listen {L : Type} (listeners : List L) (now : Nat) : Listeners L :=
  ⟨listeners, listeners.map (fun _ => .new now), 0, List.length_map _⟩

inductive Polled (F α : Type) where
  | pending (future : F)
  | ready (result : α)

structure Listen (L F W C E : Type) where
  accept : L → F
  poll : F → W → Polled F (Except E C) × W

inductive AcceptFuture (F : Type) where
  | start
  | awaiting (idx : Nat) (inner : F)
  | sleeping (until_ : Nat)

inductive Choice where
  | selected (idx : Nat)
  | earliest (nextReady : Nat)
  | nothing
  deriving DecidableEq, Repr

variable {L F W C E : Type}

def scan (self : Listeners L) (now : Nat) : List Nat → Option Nat → Choice
  | [], some nextReady => .earliest nextReady
  | [], none => .nothing
  | offset :: rest, earliestReady =>
      let idx := (self.nextIndex + offset) % self.listeners.length
      match self.backoffStates[idx]? with
      | none => scan self now rest earliestReady
      | some state =>
          if state.isReady now then .selected idx
          else
            scan self now rest (match earliestReady with
              | some inst => some (min inst state.nextReady)
              | none => some state.nextReady)

def choose (self : Listeners L) (now : Nat) : Choice := scan self now (List.range self.listeners.length) none

def setBackoff (self : Listeners L) (idx : Nat) (f : BackoffState → BackoffState) : Listeners L :=
  {self with backoffStates := self.backoffStates.modify idx f, paired := by rw [List.length_modify, self.paired]}

def pollListener (impl : Listen L F W C E) (self : Listeners L) (idx : Nat) (inner : F) (now : Nat) (w : W) :
    Listeners L × Polled (AcceptFuture F) (Option (Except E C)) × W :=
  match impl.poll inner w with
  | (.pending inner, w) => (self, .pending (.awaiting idx inner), w)
  | (.ready (.ok conn), w) => (setBackoff self idx (·.onSuccess now), .ready (some (.ok conn)), w)
  | (.ready (.error e), w) => (setBackoff self idx (·.onError now), .ready (some (.error e)), w)

def pollLoop (impl : Listen L F W C E) (self : Listeners L) (now : Nat) (w : W) :
    Listeners L × Polled (AcceptFuture F) (Option (Except E C)) × W :=
  match choose self now with
  | .selected idx =>
      match self.listeners[idx]? with
      | none => (self, .ready none, w)
      | some listener =>
          pollListener impl {self with nextIndex := (idx + 1) % self.listeners.length} idx (impl.accept listener) now w
  | .earliest nextReady => (self, .pending (.sleeping nextReady), w)
  | .nothing => (self, .ready none, w)

def poll (impl : Listen L F W C E) (self : Listeners L) (future : AcceptFuture F) (now : Nat) (w : W) :
    Listeners L × Polled (AcceptFuture F) (Option (Except E C)) × W :=
  match future with
  | .start => if self.listeners.isEmpty then (self, .ready none, w) else pollLoop impl self now w
  | .awaiting idx inner => pollListener impl self idx inner now w
  | .sleeping until_ => if until_ ≤ now then pollLoop impl self now w else (self, .pending (.sleeping until_), w)

def chosen (impl : Listen L F W C E) (self : Listeners L) (now : Nat) : Option (Nat × F) :=
  match choose self now with
  | .selected idx => self.listeners[idx]?.map (fun listener => (idx, impl.accept listener))
  | _ => none

def attended (impl : Listen L F W C E) (self : Listeners L) (future : AcceptFuture F) (now : Nat) : Option (Nat × F) :=
  match future with
  | .start => chosen impl self now
  | .awaiting idx inner => some (idx, inner)
  | .sleeping until_ => if until_ ≤ now then chosen impl self now else none

theorem chosenSource {impl : Listen L F W C E} {self : Listeners L} {now idx : Nat} {inner : F} :
    chosen impl self now = some (idx, inner) ↔
      choose self now = .selected idx ∧ ∃ listener, self.listeners[idx]? = some listener ∧ impl.accept listener = inner := by
  unfold chosen
  cases choose self now with
  | selected other =>
    constructor
    · intro found
      obtain ⟨listener, present, same⟩ := Option.map_eq_some_iff.mp found
      cases same
      exact ⟨rfl, listener, present, rfl⟩
    · rintro ⟨same, listener, present, rfl⟩
      cases same
      exact Option.map_eq_some_iff.mpr ⟨listener, present, rfl⟩
  | earliest nextReady => simp
  | nothing => simp

def lifted (idx : Nat) : Polled F (Except E C) → Polled (AcceptFuture F) (Option (Except E C))
  | .pending inner => .pending (.awaiting idx inner)
  | .ready result => .ready (some result)

theorem pollListenerLifts (impl : Listen L F W C E) (self : Listeners L) (idx : Nat) (inner : F) (now : Nat) (w : W) :
    (pollListener impl self idx inner now w).2 = (lifted idx (impl.poll inner w).1, (impl.poll inner w).2) := by
  unfold pollListener
  split <;> rename_i polled <;> rw [polled] <;> rfl

def Idle (polled : Polled (AcceptFuture F) (Option (Except E C))) : Prop :=
  polled = .ready none ∨ ∃ until_, polled = .pending (.sleeping until_)

theorem chooseEmpty {self : Listeners L} (now : Nat) (empty : self.listeners.isEmpty = true) :
    choose self now = .nothing := by
  rw [choose, List.isEmpty_iff.mp empty]
  rfl

section
variable {impl : Listen L F W C E} {self : Listeners L} {future : AcceptFuture F} {now idx : Nat} {inner : F} (w : W)

-- The loop polls a listener on listeners that differ from its own in `next_index` alone.
theorem pollLoopReaches (attends : chosen impl self now = some (idx, inner)) :
    ∃ turned : Listeners L, turned.backoffStates = self.backoffStates ∧ pollLoop impl self now w = pollListener impl turned idx inner now w := by
  obtain ⟨selected, listener, found, rfl⟩ := chosenSource.mp attends
  exact ⟨{self with nextIndex := (idx + 1) % self.listeners.length}, rfl, by simp only [pollLoop, selected, found]⟩

theorem pollLoopRests (nobody : chosen impl self now = none) :
    ∃ polled, Idle polled ∧ pollLoop impl self now w = (self, polled, w) := by
  unfold pollLoop
  unfold chosen at nobody
  cases choice : choose self now with
  | selected idx =>
    rw [choice] at nobody
    simp only [Option.map_eq_none_iff.mp nobody]
    exact ⟨_, Or.inl rfl, rfl⟩
  | earliest nextReady => exact ⟨_, Or.inr ⟨nextReady, rfl⟩, rfl⟩
  | nothing => exact ⟨_, Or.inl rfl, rfl⟩

theorem pollReaches (attends : attended impl self future now = some (idx, inner)) :
    ∃ turned : Listeners L, turned.backoffStates = self.backoffStates ∧ poll impl self future now w = pollListener impl turned idx inner now w := by
  unfold poll
  cases future with
  | start =>
    dsimp only
    split
    · rename_i empty
      simp [attended, chosen, chooseEmpty now empty] at attends
    · exact pollLoopReaches w attends
  | awaiting awaited awaitedInner =>
    cases Option.some.inj attends
    exact ⟨self, rfl, rfl⟩
  | sleeping until_ =>
    dsimp only [attended] at attends
    split at attends
    · rename_i elapsed
      simp only [elapsed, if_true]
      exact pollLoopReaches w attends
    · contradiction

theorem pollRests (nobody : attended impl self future now = none) :
    ∃ polled, Idle polled ∧ poll impl self future now w = (self, polled, w) := by
  unfold poll
  cases future with
  | start =>
    dsimp only
    split
    · exact ⟨_, Or.inl rfl, rfl⟩
    · exact pollLoopRests w nobody
  | awaiting awaited inner => contradiction
  | sleeping until_ =>
    dsimp only [attended] at nobody
    split at nobody
    · rename_i elapsed
      simp only [elapsed, if_true]
      exact pollLoopRests w nobody
    · rename_i early
      simp only [early, if_false]
      exact ⟨_, Or.inr ⟨until_, rfl⟩, rfl⟩

theorem pollAttended (attends : attended impl self future now = some (idx, inner)) :
    (poll impl self future now w).2 = (lifted idx (impl.poll inner w).1, (impl.poll inner w).2) := by
  obtain ⟨turned, -, reached⟩ := pollReaches w attends
  rw [reached]
  exact pollListenerLifts impl turned idx inner now w

theorem pollUnattended (nobody : attended impl self future now = none) :
    (poll impl self future now w).2.2 = w ∧ Idle (poll impl self future now w).2.1 := by
  obtain ⟨polled, idle, rested⟩ := pollRests w nobody
  rw [rested]
  exact ⟨rfl, idle⟩

end

def outOfBackoff (self : Listeners L) (now idx : Nat) : Bool := self.backoffStates[idx]?.any (·.isReady now)

def FirstReady (self : Listeners L) (now idx : Nat) : Prop :=
  ∃ offset, offset < self.listeners.length ∧ idx = (self.nextIndex + offset) % self.listeners.length ∧
    outOfBackoff self now idx = true ∧
    ∀ earlier, earlier < offset → outOfBackoff self now ((self.nextIndex + earlier) % self.listeners.length) = false

-- The accumulator only matters when no listener is out of backoff.
theorem scanSelects (self : Listeners L) (now idx : Nat) (offsets : List Nat) (earliestReady : Option Nat) :
    scan self now offsets earliestReady = .selected idx ↔
      ∃ offset, offsets.find? (fun o => outOfBackoff self now ((self.nextIndex + o) % self.listeners.length)) = some offset ∧
        (self.nextIndex + offset) % self.listeners.length = idx := by
  induction offsets generalizing earliestReady with
  | nil => cases earliestReady <;> simp [scan]
  | cons offset rest ih =>
    unfold scan
    dsimp only
    cases found : self.backoffStates[(self.nextIndex + offset) % self.listeners.length]? with
    | none => simp [ih, outOfBackoff, found]
    | some state =>
      by_cases ready : state.isReady now = true
      · simp [outOfBackoff, found, ready]
      · simp [ih, outOfBackoff, found, ready]

theorem choosesFirstReady (self : Listeners L) (now idx : Nat) :
    choose self now = .selected idx ↔ FirstReady self now idx := by
  unfold choose
  rw [scanSelects]
  constructor
  · rintro ⟨offset, found, rfl⟩
    obtain ⟨ready, within, earlier⟩ := List.find?_range_eq_some.mp found
    exact ⟨offset, List.mem_range.mp within, rfl, ready, fun e before => by simpa using earlier e before⟩
  · rintro ⟨offset, within, rfl, ready, earlier⟩
    refine ⟨offset, List.find?_range_eq_some.mpr ⟨ready, List.mem_range.mpr within, ?_⟩, rfl⟩
    intro e before
    simpa using earlier e before

def offer (impl : Listen L F W C E) (self : Listeners L) (future : AcceptFuture F) (w : W) (idx : Nat) :
    Option (Polled F (Except E C)) :=
  let fresh := self.listeners[idx]?.map (fun listener => (impl.poll (impl.accept listener) w).1)
  match future with
  | .awaiting awaited inner => if awaited = idx then some (impl.poll inner w).1 else fresh
  | _ => fresh

def SomeOffer (impl : Listen L F W C E) (self : Listeners L) (future : AcceptFuture F) (now : Nat) (w : W) : Prop :=
  ∃ idx conn, outOfBackoff self now idx = true ∧ offer impl self future w idx = some (.ready (.ok conn))

def Completes (impl : Listen L F W C E) (self : Listeners L) (future : AcceptFuture F) (now : Nat) (w : W) : Prop :=
  ∃ result, (poll impl self future now w).2.1 = .ready (some result)

-- The listener whose turn it is: the one already awaited, else the first one out of
-- backoff. There is none while the future sleeps.
def Turn (self : Listeners L) (now : Nat) : AcceptFuture F → Nat → Prop
  | .start, idx => FirstReady self now idx
  | .awaiting awaited _, idx => awaited = idx
  | .sleeping until_, idx => until_ ≤ now ∧ FirstReady self now idx

theorem completesIff (impl : Listen L F W C E) (self : Listeners L) (future : AcceptFuture F) (now : Nat) (w : W) :
    Completes impl self future now w ↔
      ∃ idx inner result, attended impl self future now = some (idx, inner) ∧ (impl.poll inner w).1 = .ready result := by
  unfold Completes
  cases attends : attended impl self future now with
  | none =>
    obtain ⟨-, gaveUp | ⟨until_, asleep⟩⟩ := pollUnattended w attends
    · simp [gaveUp]
    · simp [asleep]
  | some pair =>
    obtain ⟨idx, inner⟩ := pair
    rw [pollAttended w attends]
    cases polled : (impl.poll inner w).1 with
    | pending inner => simp [lifted, polled]
    | ready result => simp [lifted, polled]

theorem offerFresh {impl : Listen L F W C E} {self : Listeners L} {future : AcceptFuture F} {w : W} {idx : Nat}
    (notAwaiting : ∀ awaited inner, future ≠ .awaiting awaited inner) :
    offer impl self future w idx = self.listeners[idx]?.map (fun listener => (impl.poll (impl.accept listener) w).1) := by
  unfold offer
  cases future with
  | awaiting awaited inner => exact absurd rfl (notAwaiting awaited inner)
  | start => rfl
  | sleeping until_ => rfl

theorem chosenOffer (impl : Listen L F W C E) (self : Listeners L) (future : AcceptFuture F) (now : Nat) (w : W)
    (notAwaiting : ∀ awaited inner, future ≠ .awaiting awaited inner) :
    (∃ idx inner result, chosen impl self now = some (idx, inner) ∧ (impl.poll inner w).1 = .ready result) ↔
      ∃ idx result, FirstReady self now idx ∧ offer impl self future w idx = some (.ready result) := by
  simp only [offerFresh notAwaiting, ← choosesFirstReady, chosenSource]
  constructor
  · rintro ⟨idx, inner, result, ⟨selected, listener, found, rfl⟩, ready⟩
    exact ⟨idx, result, selected, by simp [found, ready]⟩
  · rintro ⟨idx, result, selected, offered⟩
    obtain ⟨listener, found, ready⟩ := Option.map_eq_some_iff.mp offered
    exact ⟨idx, impl.accept listener, result, ⟨selected, listener, found, rfl⟩, ready⟩

theorem attendsTurn (impl : Listen L F W C E) (self : Listeners L) (future : AcceptFuture F) (now : Nat) (w : W) :
    (∃ idx inner result, attended impl self future now = some (idx, inner) ∧ (impl.poll inner w).1 = .ready result) ↔
      ∃ idx result, Turn self now future idx ∧ offer impl self future w idx = some (.ready result) := by
  cases future with
  | start => exact chosenOffer impl self .start now w nofun
  | awaiting awaited inner => simp [attended, Turn, offer]
  | sleeping until_ =>
    by_cases elapsed : until_ ≤ now
    · simpa [attended, Turn, elapsed] using chosenOffer impl self (.sleeping until_) now w nofun
    · simp [attended, Turn, elapsed]

theorem promptWhenItsTurn (impl : Listen L F W C E) (self : Listeners L) (future : AcceptFuture F) (now : Nat) (w : W) :
    (SomeOffer impl self future now w → Completes impl self future now w) ↔
      (SomeOffer impl self future now w →
        ∃ idx result, Turn self now future idx ∧ offer impl self future w idx = some (.ready result)) := by
  rw [completesIff, attendsTurn]

def byName : Listen Nat Nat (List Nat) Nat Unit :=
  ⟨id, fun name busy => (if name ∈ busy then .ready (.ok name) else .pending name, busy)⟩

theorem idleListenerHidesPending :
    SomeOffer byName (listen [0, 1] 0) .start 0 [1] ∧ ¬ Completes byName (listen [0, 1] 0) .start 0 [1] := by
  refine ⟨⟨1, 1, rfl, rfl⟩, ?_⟩
  rintro ⟨result, ready⟩
  cases ready

end Silent.ListenerAccept
