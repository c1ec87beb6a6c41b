import Silent.ByteText
import Silent.StepSystem

/-! The counters of `serve_connection_loop`. Every accepted connection gets a task, and each
of the four branches of the loop records its own outcomes. A task that panics or is aborted
does not run to its end. Histograms are left out. -/
namespace Silent.ConnectionMetrics
open ByteText StepSystem

-- `fetch_add` wraps.
structure ServerMetrics where
  acceptOk : UInt64
  acceptErr : UInt64
  rateLimiterClosed : UInt64
  rateLimiterTimeout : UInt64
  handlerOk : UInt64
  handlerErr : UInt64
  handlerTimeout : UInt64

def ServerMetrics.recordAcceptOk (self : ServerMetrics) : ServerMetrics := {self with acceptOk := self.acceptOk + 1}

def ServerMetrics.recordAcceptErr (self : ServerMetrics) : ServerMetrics := {self with acceptErr := self.acceptErr + 1}

def ServerMetrics.recordRateLimiterClosed (self : ServerMetrics) : ServerMetrics :=
  {self with rateLimiterClosed := self.rateLimiterClosed + 1}

def ServerMetrics.recordRateLimiterTimeout (self : ServerMetrics) : ServerMetrics :=
  {self with rateLimiterTimeout := self.rateLimiterTimeout + 1}

def ServerMetrics.recordHandlerOk (self : ServerMetrics) : ServerMetrics := {self with handlerOk := self.handlerOk + 1}

def ServerMetrics.recordHandlerErr (self : ServerMetrics) : ServerMetrics := {self with handlerErr := self.handlerErr + 1}

def ServerMetrics.recordHandlerTimeout (self : ServerMetrics) : ServerMetrics :=
  {self with handlerTimeout := self.handlerTimeout + 1}

def serverMetrics : ServerMetrics := ⟨0, 0, 0, 0, 0, 0, 0⟩

structure Config where
  rateLimiter : Bool
  handlerTimeout : Bool

inductive Permit where
  | granted
  | closed
  | timedOut

-- `handler.call`, which can only time out under a timeout.
inductive Served where
  | returned (res : Except Text Unit)
  | timedOut

def connectionTask (cfg : Config) (permit : Permit) (served : Served) (metrics : ServerMetrics) : Option ServerMetrics :=
  if cfg.rateLimiter then
    match permit with
    | .granted =>
        if cfg.handlerTimeout then
          match served with
          | .returned (.error _) => some metrics
          | .returned (.ok ()) => some metrics
          | .timedOut => some metrics.recordHandlerTimeout
        else
          match served with
          | .returned (.error _) => some metrics.recordHandlerErr
          | .returned (.ok ()) => some metrics.recordHandlerOk
          | .timedOut => none
    | .closed => some metrics.recordRateLimiterClosed
    | .timedOut => some metrics.recordRateLimiterTimeout
  else if cfg.handlerTimeout then
    match served with
    | .returned (.error _) => some metrics.recordHandlerErr
    | .returned (.ok ()) => some metrics.recordHandlerOk
    | .timedOut => some metrics.recordHandlerTimeout
  else
    match served with
    | .returned (.error _) => some metrics.recordHandlerErr
    | .returned (.ok ()) => some metrics.recordHandlerOk
    | .timedOut => none

structure System where
  metrics : ServerMetrics
  running : List Config
  cutShort : Nat

def idle : System := ⟨serverMetrics, [], 0⟩

inductive Action where
  | accept (cfg : Config)
  | acceptFails
  | finish (task : Nat) (permit : Permit) (served : Served)
  | cut (task : Nat)

def step (s : System) : Action → Option System
  | .accept cfg => some {s with metrics := s.metrics.recordAcceptOk, running := s.running ++ [cfg]}
  | .acceptFails => some {s with metrics := s.metrics.recordAcceptErr}
  | .finish task permit served => do
      let cfg ← s.running[task]?
      let metrics ← connectionTask cfg permit served s.metrics
      some {s with metrics, running := s.running.eraseIdx task}
  | .cut task =>
      if task < s.running.length then some {s with running := s.running.eraseIdx task, cutShort := s.cutShort + 1} else none

def counted (metrics : ServerMetrics) : UInt64 :=
  metrics.handlerOk + metrics.handlerErr + metrics.handlerTimeout + metrics.rateLimiterTimeout + metrics.rateLimiterClosed

inductive CountedOnce (metrics : ServerMetrics) : ServerMetrics → Prop
  | handlerOk : CountedOnce metrics metrics.recordHandlerOk
  | handlerErr : CountedOnce metrics metrics.recordHandlerErr
  | handlerTimeout : CountedOnce metrics metrics.recordHandlerTimeout
  | rateLimiterTimeout : CountedOnce metrics metrics.recordRateLimiterTimeout
  | rateLimiterClosed : CountedOnce metrics metrics.recordRateLimiterClosed

def CountsOnce (s : System) : Action → Prop
  | .finish task permit served => ∀ t, step s (.finish task permit served) = some t → CountedOnce s.metrics t.metrics
  | _ => True

def Balanced (s : System) : Prop := s.metrics.acceptOk = counted s.metrics + UInt64.ofNat (s.running.length + s.cutShort)

def Conserved (actions : List Action) : Prop :=
  Along step CountsOnce idle actions ∧ ∀ s, exec step idle actions = some s → Balanced s

def Unrecorded (cfg : Config) (permit : Permit) (served : Served) : Prop :=
  cfg.rateLimiter = true ∧ cfg.handlerTimeout = true ∧ permit = .granted ∧ ∃ res, served = .returned res

def Recorded (s : System) : Action → Prop
  | .finish task permit served => ∀ cfg, s.running[task]? = some cfg → ¬Unrecorded cfg permit served
  | _ => True

section
variable {metrics after : ServerMetrics}

theorem countedMore (once : CountedOnce metrics after) : counted after = counted metrics + 1 ∧ after.acceptOk = metrics.acceptOk := by
  cases once <;> refine ⟨?_, rfl⟩ <;> simp only [counted, ServerMetrics.recordHandlerOk, ServerMetrics.recordHandlerErr,
    ServerMetrics.recordHandlerTimeout, ServerMetrics.recordRateLimiterTimeout, ServerMetrics.recordRateLimiterClosed] <;> grind

theorem notCountedSame : ¬CountedOnce metrics metrics := by
  intro once
  have more := (countedMore once).1
  grind

theorem taskUnrecorded {cfg : Config} {permit : Permit} {served : Served} (unrecorded : Unrecorded cfg permit served)
    (metrics : ServerMetrics) : connectionTask cfg permit served metrics = some metrics := by
  obtain ⟨limited, timed, rfl, res, rfl⟩ := unrecorded
  simp only [connectionTask, limited, timed, if_true]
  cases res <;> rfl

theorem taskRecorded {cfg : Config} {permit : Permit} {served : Served} (recorded : ¬Unrecorded cfg permit served)
    (ended : connectionTask cfg permit served metrics = some after) : CountedOnce metrics after := by
  obtain ⟨rateLimiter, handlerTimeout⟩ := cfg
  cases rateLimiter with
  | true =>
    cases permit with
    | granted =>
      cases handlerTimeout with
      | true =>
        cases served with
        | returned res => exact absurd ⟨rfl, rfl, rfl, res, rfl⟩ recorded
        | timedOut =>
          cases ended
          exact .handlerTimeout
      | false =>
        match served with
        | .returned (.error _) =>
          cases ended
          exact .handlerErr
        | .returned (.ok _) =>
          cases ended
          exact .handlerOk
        | .timedOut => cases ended
    | closed =>
      cases ended
      exact .rateLimiterClosed
    | timedOut =>
      cases ended
      exact .rateLimiterTimeout
  | false =>
    match served with
    | .returned (.error _) =>
      cases handlerTimeout <;> cases ended <;> exact .handlerErr
    | .returned (.ok _) =>
      cases handlerTimeout <;> cases ended <;> exact .handlerOk
    | .timedOut =>
      cases handlerTimeout with
      | true =>
        cases ended
        exact .handlerTimeout
      | false => cases ended

theorem finishCases {s t : System} {task : Nat} {permit : Permit} {served : Served}
    (taken : step s (.finish task permit served) = some t) :
    ∃ cfg metrics, s.running[task]? = some cfg ∧ connectionTask cfg permit served s.metrics = some metrics ∧
      t = {s with metrics, running := s.running.eraseIdx task} := by
  simp only [step, Option.bind_eq_bind, Option.bind_eq_some_iff, Option.some.injEq] at taken
  obtain ⟨cfg, found, metrics, ended, rfl⟩ := taken
  exact ⟨cfg, metrics, found, ended, rfl⟩

theorem countsRecorded (s : System) (a : Action) : CountsOnce s a ↔ Recorded s a := by
  cases a with
  | accept cfg => exact Iff.rfl
  | acceptFails => exact Iff.rfl
  | cut task => exact Iff.rfl
  | finish task permit served =>
    constructor
    · intro once cfg found unrecorded
      have ended := taskUnrecorded unrecorded s.metrics
      have taken : step s (.finish task permit served) = some {s with running := s.running.eraseIdx task} := by
        simp only [step, found, ended, Option.bind_eq_bind, Option.bind_some]
      have counts := once _ taken
      exact notCountedSame counts
    · intro recorded t taken
      obtain ⟨cfg, metrics, found, ended, rfl⟩ := finishCases taken
      exact taskRecorded (recorded cfg found) ended

theorem balancedStep (s : System) (a : Action) (t : System) (recorded : Recorded s a) (balanced : Balanced s)
    (taken : step s a = some t) : Balanced t := by
  unfold Balanced at balanced ⊢
  cases a with
  | accept cfg =>
    cases taken
    have one : s.running.length + 1 + s.cutShort = s.running.length + s.cutShort + 1 := by omega
    rw [List.length_append, List.length_singleton, one, UInt64.ofNat_add]
    simp only [ServerMetrics.recordAcceptOk, counted] at balanced ⊢
    grind
  | acceptFails =>
    cases taken
    exact balanced
  | finish task permit served =>
    obtain ⟨cfg, metrics, found, ended, rfl⟩ := finishCases taken
    obtain ⟨more, same⟩ := countedMore (taskRecorded (recorded cfg found) ended)
    have within : task < s.running.length := (List.getElem?_eq_some_iff.mp found).1
    have one : s.running.length + s.cutShort = s.running.length - 1 + s.cutShort + 1 := by omega
    rw [one, UInt64.ofNat_add] at balanced
    rw [List.length_eraseIdx_of_lt within, more, same, balanced]
    grind
  | cut task =>
    rw [step] at taken
    split at taken
    · rename_i within
      cases taken
      have moved : s.running.length - 1 + (s.cutShort + 1) = s.running.length + s.cutShort := by omega
      rw [List.length_eraseIdx_of_lt within, moved]
      exact balanced
    · cases taken

theorem conservedUnlessUnrecorded (actions : List Action) : Conserved actions ↔ Along step Recorded idle actions := by
  have along : Along step CountsOnce idle actions ↔ Along step Recorded idle actions :=
    alongCongr (P := fun _ => True) (fun _ _ _ _ _ => trivial) (fun s a _ => countsRecorded s a) actions trivial
  constructor
  · exact fun conserved => along.mp conserved.1
  · intro recorded
    refine ⟨along.mpr recorded, fun s ran => ?_⟩
    exact runInvariant (P := Balanced) balancedStep (alongRun actions ran recorded) rfl

end

def servedInTime : List Action := [.accept ⟨true, true⟩, .finish 0 .granted (.returned (.ok ()))]

theorem servedNotCounted : ¬Conserved servedInTime := by
  rintro ⟨-, balanced⟩
  exact absurd (balanced _ rfl) (by unfold Balanced; decide)

end Silent.ConnectionMetrics
