import Silent.HttpRequest
import Silent.PolledBody
import Silent.SseEvent
import Silent.StepSystem

/-! `SseKeepAlive` around a stream of events. A poll finds the source pending, with an item
or at its end, and reads the clock; the timer may fire at any moment between two polls.
All of it is chosen from outside, so a run may see any source, schedule and timer. -/
namespace Silent.KeepAliveStream
open ByteText HttpRequest SseEvent StepSystem
open PolledBody (Poll)

variable {E : Type}

abbrev Polled (Err : Type) := Poll (Option (Except Err SSEEvent))

structure Timer where
  due : Option Nat
  fired : Bool

-- Instants and durations in nanoseconds; `latest` is the last instant the platform can represent.
def checkedAdd (latest now duration : Nat) : Option Nat := if now + duration ≤ latest then some (now + duration) else none

def Timer.after (latest now duration : Nat) : Timer := ⟨checkedAdd latest now duration, false⟩

def Timer.atInstant (instant : Nat) : Timer := ⟨some instant, false⟩

def Timer.poll (self : Timer) : Poll Unit := if self.fired then .ready () else .pending

def Timer.fire (self : Timer) : Timer := {self with fired := self.due.isSome}

structure KeepAlive where
  commentText : Text
  maxInterval : Nat

def KeepAlive.new : KeepAlive := ⟨[], 15000000000⟩

def KeepAlive.interval (self : KeepAlive) (time : Nat) : KeepAlive := {self with maxInterval := time}

structure SseKeepAlive where
  commentText : Text
  maxInterval : Nat
  aliveTimer : Timer

def KeepAlive.stream (latest now : Nat) (self : KeepAlive) : SseKeepAlive :=
  ⟨self.commentText, self.maxInterval, .after latest now self.maxInterval⟩

def keepError : SilentError := .businessError 500 "sse::keep error".toList

def comment (commentText : Text) : SSEEvent := ⟨none, none, none, some commentText, none⟩

-- `Instant::now() + max_interval` panics where the sum cannot be represented.
def SseKeepAlive.restart (latest now : Nat) (self : SseKeepAlive) : Option SseKeepAlive :=
  (checkedAdd latest now self.maxInterval).map fun next => {self with aliveTimer := .atInstant next}

def SseKeepAlive.pollNext (latest now : Nat) (self : SseKeepAlive) : Polled E → Option (SseKeepAlive × Polled SilentError)
  | .pending =>
      match self.aliveTimer.poll with
      | .pending => some (self, .pending)
      | .ready _ => (self.restart latest now).map ((·, .ready (some (.ok (comment self.commentText)))))
  | .ready (some (.ok event)) => (self.restart latest now).map ((·, .ready (some (.ok event))))
  | .ready none => some (self, .ready none)
  | .ready (some (.error _)) => some (self, .ready (some (.error keepError)))

inductive Move (E : Type) where
  | fire
  | poll (now : Nat) (source : Polled E)

inductive Record (E : Type) where
  | fired
  | polled (now : Nat) (source : Polled E) (output : Polled SilentError)

structure System (E : Type) where
  stream : SseKeepAlive
  trace : List (Record E)

def started (latest now : Nat) (keep : KeepAlive) : System E := ⟨keep.stream latest now, []⟩

def step (latest : Nat) (s : System E) : Move E → Option (System E)
  | .fire => some ⟨{s.stream with aliveTimer := s.stream.aliveTimer.fire}, s.trace ++ [.fired]⟩
  | .poll now source =>
      (s.stream.pollNext latest now source).map fun (stream, output) => ⟨stream, s.trace ++ [.polled now source output]⟩

def Record.move : Record E → Move E
  | .fired => .fire
  | .polled now source _ => .poll now source

def Record.item : Record E → Option (Except E SSEEvent)
  | .polled _ (.ready item) _ => item
  | _ => none

def Record.product : Record E → Option (Except SilentError SSEEvent)
  | .polled _ _ (.ready product) => product
  | _ => none

def Record.inserted : Record E → Bool
  | .polled _ .pending (.ready _) => true
  | _ => false

def kept : Except E SSEEvent → Except SilentError SSEEvent
  | .ok event => .ok event
  | .error _ => .error keepError

def FiredSince (counts : Except SilentError SSEEvent → Bool) (trace : List (Record E)) : Prop :=
  ∃ early late, trace = early ++ .fired :: late ∧ ∀ record ∈ late, ∀ product ∈ record.product, counts product = false

structure Kept (counts : Except SilentError SSEEvent → Bool) (keep : KeepAlive) (s : System E) : Prop where
  inOrder : (s.trace.filter (!·.inserted)).filterMap Record.product = (s.trace.filterMap Record.item).map kept
  comments : ∀ record ∈ s.trace, record.inserted = true → record.product = some (.ok (comment keep.commentText))
  whenFired : ∀ before record after, s.trace = before ++ record :: after → record.inserted = true → FiredSince counts before
  ends : ∀ now source output, .polled now source output ∈ s.trace → (output = .ready none ↔ source = .ready none)
  armed : ∀ before now source event, s.trace = before ++ [.polled now source (.ready (some (.ok event)))] →
    s.stream.aliveTimer = .atInstant (now + keep.maxInterval)

def anItem (_ : Except SilentError SSEEvent) : Bool := true

def anEvent : Except SilentError SSEEvent → Bool
  | .ok _ => true
  | .error _ => false

inductive Polls (latest now : Nat) (self : SseKeepAlive) : Polled E → SseKeepAlive → Polled SilentError → Prop
  | quiet (unfired : self.aliveTimer.fired = false) : Polls latest now self .pending self .pending
  | commented (fired : self.aliveTimer.fired = true) :
      Polls latest now self .pending {self with aliveTimer := .atInstant (now + self.maxInterval)}
        (.ready (some (.ok (comment self.commentText))))
  | passed (event) :
      Polls latest now self (.ready (some (.ok event))) {self with aliveTimer := .atInstant (now + self.maxInterval)}
        (.ready (some (.ok event)))
  | ended : Polls latest now self (.ready none) self (.ready none)
  | failed (error) : Polls latest now self (.ready (some (.error error))) self (.ready (some (.error keepError)))

theorem restartSome {latest now : Nat} {self after : SseKeepAlive} (restarted : self.restart latest now = some after) :
    after = {self with aliveTimer := .atInstant (now + self.maxInterval)} := by
  obtain ⟨next, fits, rfl⟩ := Option.map_eq_some_iff.mp restarted
  rw [checkedAdd] at fits
  split at fits
  · cases fits
    rfl
  · cases fits

theorem restartNone {latest now : Nat} {self : SseKeepAlive} (panics : self.restart latest now = none) :
    latest < now + self.maxInterval := by
  have refused := Option.map_eq_none_iff.mp panics
  rw [checkedAdd] at refused
  split at refused
  · cases refused
  · omega

theorem pollSome {latest now : Nat} {self after : SseKeepAlive} {source : Polled E} {output : Polled SilentError}
    (polled : self.pollNext latest now source = some (after, output)) : Polls latest now self source after output := by
  match source with
  | .pending =>
    rw [SseKeepAlive.pollNext, Timer.poll] at polled
    cases fired : self.aliveTimer.fired with
    | false =>
      simp only [fired] at polled
      cases polled
      exact .quiet fired
    | true =>
      simp only [fired] at polled
      obtain ⟨next, restarted, same⟩ := Option.map_eq_some_iff.mp polled
      cases same
      rw [restartSome restarted]
      exact .commented fired
  | .ready (some (.ok event)) =>
    obtain ⟨next, restarted, same⟩ := Option.map_eq_some_iff.mp polled
    cases same
    rw [restartSome restarted]
    exact .passed event
  | .ready none =>
    cases polled
    exact .ended
  | .ready (some (.error error)) =>
    cases polled
    exact .failed error

theorem pollNone {latest now : Nat} {self : SseKeepAlive} {source : Polled E} (panics : self.pollNext latest now source = none) :
    latest < now + self.maxInterval := by
  match source with
  | .pending =>
    rw [SseKeepAlive.pollNext] at panics
    split at panics
    · cases panics
    · exact restartNone (Option.map_eq_none_iff.mp panics)
  | .ready (some (.ok _)) => exact restartNone (Option.map_eq_none_iff.mp panics)
  | .ready none => cases panics
  | .ready (some (.error _)) => cases panics

theorem firedNow (counts : Except SilentError SSEEvent → Bool) (trace : List (Record E)) : FiredSince counts (trace ++ [.fired]) :=
  ⟨trace, [], rfl, by simp⟩

theorem firedStill {counts : Except SilentError SSEEvent → Bool} {trace : List (Record E)} (since : FiredSince counts trace)
    {record : Record E} (silent : ∀ product ∈ record.product, counts product = false) : FiredSince counts (trace ++ [record]) := by
  obtain ⟨early, late, rfl, uncounted⟩ := since
  refine ⟨early, late ++ [record], by simp, fun other among => ?_⟩
  rcases List.mem_append.mp among with before | last
  · exact uncounted other before
  · exact List.mem_singleton.mp last ▸ silent

structure RecordKept (counts : Except SilentError SSEEvent → Bool) (keep : KeepAlive) (trace : List (Record E)) (timer : Timer)
    (record : Record E) : Prop where
  passed : record.inserted = false → record.product = record.item.map kept
  inserted : record.inserted = true →
    record.item = none ∧ record.product = some (.ok (comment keep.commentText)) ∧ FiredSince counts trace
  ends : ∀ now source output, record = .polled now source output → (output = .ready none ↔ source = .ready none)
  armed : ∀ now source event, record = .polled now source (.ready (some (.ok event))) → timer = .atInstant (now + keep.maxInterval)

theorem keptMore {counts : Except SilentError SSEEvent → Bool} {keep : KeepAlive} {s : System E} (before : Kept counts keep s)
    {stream : SseKeepAlive} {record : Record E} (last : RecordKept counts keep s.trace stream.aliveTimer record) :
    Kept counts keep ⟨stream, s.trace ++ [record]⟩ := by
  constructor
  · rw [List.filter_append, List.filterMap_append, List.filterMap_append, List.map_append, before.inOrder]
    congr 1
    cases inserted : record.inserted with
    | false =>
      have same := last.passed inserted
      cases item : record.item <;> simp [inserted, same, item]
    | true => simp [inserted, (last.inserted inserted).1]
  · intro other among inserted
    rcases List.mem_append.mp among with earlier | final
    · exact before.comments other earlier inserted
    · cases List.mem_singleton.mp final
      exact (last.inserted inserted).2.1
  · intro early other after split inserted
    rcases List.eq_nil_or_concat after with rfl | ⟨middle, final, rfl⟩
    · obtain ⟨rfl, same⟩ := List.append_inj' split rfl
      cases same
      exact (last.inserted inserted).2.2
    · rw [List.concat_eq_append, ← List.cons_append, ← List.append_assoc] at split
      exact before.whenFired early other middle (List.append_inj' split rfl).1 inserted
  · intro now source output among
    rcases List.mem_append.mp among with earlier | final
    · exact before.ends now source output earlier
    · exact last.ends now source output (List.mem_singleton.mp final).symm
  · intro early now source event split
    obtain ⟨-, same⟩ := List.append_inj' split rfl
    cases same
    exact last.armed now source event rfl

structure Running (keep : KeepAlive) (s : System E) : Prop where
  commentText : s.stream.commentText = keep.commentText
  maxInterval : s.stream.maxInterval = keep.maxInterval
  due : s.stream.aliveTimer.fired = true → FiredSince anEvent s.trace
  law : Kept anEvent keep s

theorem runningStarted (latest now : Nat) (keep : KeepAlive) : Running keep (started latest now keep : System E) := by
  refine ⟨rfl, rfl, fun fired => ?_, ?_⟩
  · cases fired
  · constructor <;> simp [started]

theorem firedKept {keep : KeepAlive} {trace : List (Record E)} {timer : Timer} :
    RecordKept anEvent keep trace timer .fired := by
  constructor <;> simp [Record.inserted, Record.product, Record.item]

theorem pollKept {latest now : Nat} {keep : KeepAlive} {s : System E} (running : Running keep s) {source : Polled E}
    {stream : SseKeepAlive} {output : Polled SilentError} (polls : Polls latest now s.stream source stream output) :
    RecordKept anEvent keep s.trace stream.aliveTimer (.polled now source output) := by
  cases polls with
  | quiet unfired => constructor <;> simp [Record.inserted, Record.product, Record.item]
  | commented fired =>
    have since := running.due fired
    constructor <;> simp [Record.inserted, Record.product, Record.item, running.commentText, running.maxInterval, since]
  | passed event => constructor <;> simp [Record.inserted, Record.product, Record.item, kept, running.maxInterval]
  | ended => constructor <;> simp [Record.inserted, Record.product, Record.item]
  | failed error => constructor <;> simp [Record.inserted, Record.product, Record.item, kept]

theorem runningStep {latest : Nat} {keep : KeepAlive} {s t : System E} {move : Move E} (running : Running keep s)
    (taken : step latest s move = some t) : Running keep t := by
  cases move with
  | fire =>
    cases taken
    exact ⟨running.commentText, running.maxInterval, fun _ => firedNow _ _, keptMore running.law firedKept⟩
  | poll now source =>
    obtain ⟨⟨stream, output⟩, polled, rfl⟩ := Option.map_eq_some_iff.mp taken
    have polls := pollSome polled
    have law := keptMore running.law (pollKept running polls)
    cases polls with
    | quiet unfired =>
      exact ⟨running.commentText, running.maxInterval, fun fired => absurd (unfired.symm.trans fired) (by decide), law⟩
    | commented _ => exact ⟨running.commentText, running.maxInterval, nofun, law⟩
    | passed _ => exact ⟨running.commentText, running.maxInterval, nofun, law⟩
    | ended =>
      exact ⟨running.commentText, running.maxInterval, fun fired => firedStill (running.due fired) (by simp [Record.product]), law⟩
    | failed _ =>
      exact ⟨running.commentText, running.maxInterval,
        fun fired => firedStill (running.due fired) (by simp [Record.product, anEvent]), law⟩

theorem traceMoves {latest : Nat} {s t : System E} (moves : List (Move E)) (ran : exec (step latest) s moves = some t) :
    t.trace.map Record.move = s.trace.map Record.move ++ moves := by
  induction moves generalizing s with
  | nil =>
    cases Option.some.inj ran
    rw [List.append_nil]
  | cons move moves ih =>
    obtain ⟨u, taken, later⟩ := Option.bind_eq_some_iff.mp ran
    have one : u.trace.map Record.move = s.trace.map Record.move ++ [move] := by
      cases move with
      | fire =>
        cases taken
        rw [List.map_append]
        rfl
      | poll now source =>
        obtain ⟨⟨stream, output⟩, -, rfl⟩ := Option.map_eq_some_iff.mp taken
        rw [List.map_append]
        rfl
    rw [ih later, one, List.append_assoc, List.singleton_append]

theorem eventsKept (latest start : Nat) (keep : KeepAlive) (moves : List (Move E)) :
    (∃ s, exec (step latest) (started latest start keep) moves = some s ∧ s.trace.map Record.move = moves ∧ Kept anEvent keep s) ∨
      ∃ now source, .poll now source ∈ moves ∧ latest < now + keep.maxInterval := by
  have always : ∀ s : System E, Run (step latest) (fun _ _ => True) (started latest start keep) s → Running keep s := fun s run =>
    runInvariant (fun _ _ _ _ running taken => runningStep running taken) run (runningStarted latest start keep)
  cases ran : exec (step latest) (started latest start keep) moves with
  | some s => exact .inl ⟨s, rfl, traceMoves moves ran, (always s (execRun moves ran)).law⟩
  | none =>
    obtain ⟨s, move, among, run, refused⟩ := execStuck moves ran
    cases move with
    | fire => cases refused
    | poll now source =>
      have overflow := pollNone (Option.map_eq_none_iff.mp refused)
      rw [(always s run).maxInterval] at overflow
      exact .inr ⟨now, source, among, overflow⟩

def lastInstant : Nat := 9223372036854775807999999999

def longest : Nat := 18446744073709551615999999999

def ping : SSEEvent := ⟨none, some (.text "ping".toList), none, none, none⟩

def firedThenFailed : List (Move Unit) :=
  [.fire, .poll 16000000000 (.ready (some (.error ()))), .poll 16000000000 .pending]

theorem errorLeavesTimerFired :
    exec (step lastInstant) (started lastInstant 0 (KeepAlive.new.interval longest) : System Unit)
        [.poll 0 (.ready (some (.ok ping)))] = none ∧
      ∃ s, exec (step lastInstant) (started lastInstant 0 KeepAlive.new) firedThenFailed = some s ∧
        ¬Kept anItem KeepAlive.new s := by
  refine ⟨rfl, _, rfl, fun law => ?_⟩
  obtain ⟨early, late, split, uncounted⟩ := law.whenFired
    [.fired, .polled 16000000000 (.ready (some (.error ()))) (.ready (some (.error keepError)))] _ [] rfl rfl
  match early with
  | [] =>
    cases split
    have yielded := uncounted _ List.mem_cons_self _ rfl
    cases yielded
  | [_] => cases split
  | _ :: _ :: early =>
    have longer := congrArg List.length split
    simp only [List.length_cons, List.length_append, List.length_nil] at longer
    omega

end Silent.KeepAliveStream
