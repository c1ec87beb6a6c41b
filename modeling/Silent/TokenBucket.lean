import Silent.StepSystem

/-! The connection limiter of the server: a semaphore whose permits are tokens, a
ticker that adds one while fewer than the capacity are free, and connection tasks that
take one each. A permit is given back when the task that holds it ends, and when a waiter
that was given one is dropped before it runs on: two more ways for tokens to come in. -/
namespace Silent.TokenBucket
open StepSystem

/- The semaphore is fair: a permit that is added goes to the first waiter, and only
without waiters it becomes available. `granted` are permits given to waiters that have
not run since. The last three fields count what has happened so far. -/
structure RateLimiter where
  capacity : Nat
  available : Nat
  spawned : Nat
  queued : Nat
  granted : Nat
  active : Nat
  admitted : Nat
  ticks : Nat
  returned : Nat
  deriving DecidableEq, Repr

inductive Step where
  | accept
  | acquire
  | resume
  | timeout
  | withdraw
  | complete
  | tick
  deriving DecidableEq, Repr

def new (capacity : Nat) : RateLimiter := ⟨capacity, capacity, 0, 0, 0, 0, 0, 0, 0⟩

def addPermit (s : RateLimiter) : RateLimiter :=
  if 0 < s.queued then {s with queued := s.queued - 1, granted := s.granted + 1}
  else {s with available := s.available + 1}

def step (s : RateLimiter) : Step → Option RateLimiter
  | .accept => some {s with spawned := s.spawned + 1}
  | .acquire =>
      if s.spawned = 0 then none
      else if 0 < s.available then
        some {s with
          spawned := s.spawned - 1, available := s.available - 1, active := s.active + 1, admitted := s.admitted + 1}
      else some {s with spawned := s.spawned - 1, queued := s.queued + 1}
  | .resume =>
      if s.granted = 0 then none
      else some {s with granted := s.granted - 1, active := s.active + 1, admitted := s.admitted + 1}
  | .timeout => if s.queued = 0 then none else some {s with queued := s.queued - 1}
  /- `timeout` polls `acquire_owned` before the delay, and a permit may come between the two; the task
  may also be aborted. -/
  | .withdraw =>
      if s.granted = 0 then none else some (addPermit {s with granted := s.granted - 1, returned := s.returned + 1})
  | .complete =>
      if s.active = 0 then none else some (addPermit {s with active := s.active - 1, returned := s.returned + 1})
  | .tick =>
      if s.available < s.capacity then some (addPermit {s with ticks := s.ticks + 1})
      else some {s with ticks := s.ticks + 1}

def returns : Step → Bool
  | .withdraw | .complete => true
  | _ => false

structure Conserved (s : RateLimiter) : Prop where
  tokens : s.available + s.granted + s.admitted ≤ s.capacity + s.ticks + s.returned
  bucket : s.available ≤ s.capacity + s.returned

theorem addPermitFields (s : RateLimiter) :
    (addPermit s).capacity = s.capacity ∧ (addPermit s).admitted = s.admitted ∧ (addPermit s).ticks = s.ticks ∧
      (addPermit s).returned = s.returned ∧
      (addPermit s).available + (addPermit s).granted = s.available + s.granted + 1 ∧
      (addPermit s).available ≤ s.available + 1 := by
  unfold addPermit
  split
  · exact ⟨rfl, rfl, rfl, rfl, by simp; omega, by simp⟩
  · exact ⟨rfl, rfl, rfl, rfl, by simp; omega, by simp⟩

structure Effect (s t : RateLimiter) (a : Step) : Prop where
  capacity : t.capacity = s.capacity
  returned : t.returned = s.returned + if returns a then 1 else 0
  tokens : t.available + t.granted + t.admitted + s.ticks + s.returned ≤
    s.available + s.granted + s.admitted + t.ticks + t.returned
  bucket : t.available + s.returned ≤ s.available + t.returned ∨ t.available ≤ s.capacity

theorem stepEffect {s t : RateLimiter} {a : Step} (taken : step s a = some t) : Effect s t a := by
  cases a with
  | accept =>
    cases Option.some.inj taken
    exact ⟨rfl, rfl, Nat.le_refl _, .inl (Nat.le_refl _)⟩
  | acquire =>
    simp only [step] at taken
    split at taken
    · contradiction
    · split at taken <;> cases Option.some.inj taken
      · exact ⟨rfl, rfl, by dsimp only; omega, .inl (by dsimp only; omega)⟩
      · exact ⟨rfl, rfl, Nat.le_refl _, .inl (Nat.le_refl _)⟩
  | resume | timeout =>
    simp only [step] at taken
    split at taken
    · contradiction
    · cases Option.some.inj taken
      exact ⟨rfl, rfl, by dsimp only; omega, .inl (Nat.le_refl _)⟩
  | withdraw =>
    simp only [step] at taken
    split at taken
    · contradiction
    · cases Option.some.inj taken
      obtain ⟨capacity, admitted, ticks, returned, sum, more⟩ :=
        addPermitFields {s with granted := s.granted - 1, returned := s.returned + 1}
      dsimp only at capacity admitted ticks returned sum more
      exact ⟨capacity, returned, by omega, .inl (by omega)⟩
  | complete =>
    simp only [step] at taken
    split at taken
    · contradiction
    · cases Option.some.inj taken
      obtain ⟨capacity, admitted, ticks, returned, sum, more⟩ :=
        addPermitFields {s with active := s.active - 1, returned := s.returned + 1}
      dsimp only at capacity admitted ticks returned sum more
      exact ⟨capacity, returned, by omega, .inl (by omega)⟩
  | tick =>
    simp only [step] at taken
    split at taken <;> cases Option.some.inj taken
    · obtain ⟨capacity, admitted, ticks, returned, sum, more⟩ := addPermitFields {s with ticks := s.ticks + 1}
      dsimp only at capacity admitted ticks returned sum more
      exact ⟨capacity, returned, by omega, .inr (by omega)⟩
    · exact ⟨rfl, rfl, by dsimp only; omega, .inl (Nat.le_refl _)⟩

theorem stepConserved {s t : RateLimiter} {a : Step} (conserved : Conserved s) (taken : step s a = some t) :
    Conserved t := by
  obtain ⟨capacity, returned, tokens, bucket⟩ := stepEffect taken
  have before := conserved.tokens
  have filled := conserved.bucket
  exact ⟨by omega, by omega⟩

theorem runConserved {capacity : Nat} {s : RateLimiter} (run : Run step (fun _ _ => True) (new capacity) s) :
    s.capacity = capacity ∧ Conserved s := by
  have start : Conserved (new capacity) := ⟨by simp [new], by simp [new]⟩
  refine runInvariant (P := fun s => s.capacity = capacity ∧ Conserved s) (fun s a t _ inv taken => ?_) run ⟨rfl, start⟩
  exact ⟨(stepEffect taken).capacity.trans inv.1, stepConserved inv.2 taken⟩

/- As long as no permit comes back, the bucket behaves as documented: it never holds more
than its capacity, and admissions are paid for by the capacity and the ticks. -/
theorem boundedWithoutReturns {capacity : Nat} {s : RateLimiter}
    (run : Run step (fun _ a => returns a = false) (new capacity) s) :
    s.available ≤ capacity ∧ s.admitted ≤ capacity + s.ticks := by
  obtain ⟨same, tokens, bucket⟩ := runConserved (runMono (fun _ _ _ => trivial) run)
  have unreturned : s.returned = 0 := by
    refine runInvariant (P := fun s => s.returned = 0) (fun s a t fine inv taken => ?_) run rfl
    rw [(stepEffect taken).returned, inv, fine]
    rfl
  exact ⟨by omega, by omega⟩

theorem boundedOneAdmission :
    ∃ s, Run step (fun _ a => returns a = false) (new 1) s ∧ s.admitted = 1 ∧ s.available ≤ 1 ∧ s.admitted ≤ 1 + s.ticks := by
  have run : Run step (fun _ a => returns a = false) (new 1) ⟨1, 0, 0, 0, 0, 1, 1, 0, 0⟩ :=
    .next (a := .accept) rfl rfl (.next (a := .acquire) rfl rfl (.done _))
  exact ⟨_, run, rfl, boundedWithoutReturns run⟩

theorem returnedPermitsExceed :
    (∃ s, Run step (fun _ a => a ≠ .withdraw) (new 1) s ∧ ¬ s.available ≤ 1) ∧
      (∃ s, Run step (fun _ a => a ≠ .complete) (new 1) s ∧ ¬ s.available ≤ 1) ∧
      ∃ s, Run step (fun _ a => a ≠ .withdraw) (new 1) s ∧ ¬ s.admitted ≤ 1 + s.ticks := by
  refine ⟨⟨⟨1, 2, 0, 0, 0, 0, 1, 1, 1⟩, alongRun [.accept, .acquire, .tick, .complete] rfl ?_, by decide⟩,
    ⟨⟨1, 2, 0, 0, 0, 1, 1, 2, 1⟩, alongRun [.accept, .acquire, .accept, .acquire, .tick, .tick, .withdraw] rfl ?_, by decide⟩,
    ⟨⟨1, 0, 0, 0, 0, 1, 2, 0, 1⟩, alongRun [.accept, .acquire, .complete, .accept, .acquire] rfl ?_, by decide⟩⟩
  all_goals decide

end Silent.TokenBucket
