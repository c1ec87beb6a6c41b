import Mathlib.Data.List.Basic

/-! Runs of a step function, for machines whose steps are chosen from outside. A step
that is not enabled is `none`. An invariant needs to be kept only by the steps a run is
allowed to take. -/
namespace Silent.StepSystem

variable {S A : Type}

/-- From one state to another by steps that are enabled and allowed where they are taken. -/
inductive Run (step : S → A → Option S) (allowed : S → A → Prop) : S → S → Prop
  | done (s) : Run step allowed s s
  | next {s t u a} (fine : allowed s a) (taken : step s a = some t) (later : Run step allowed t u) :
      Run step allowed s u

section
variable {step : S → A → Option S} {allowed : S → A → Prop}

theorem runInvariant {P : S → Prop} (kept : ∀ s a t, allowed s a → P s → step s a = some t → P t) {s u : S}
    (run : Run step allowed s u) (start : P s) : P u := by
  induction run with
  | done s => exact start
  | next fine taken later ih => exact ih (kept _ _ _ fine start taken)

theorem runSnoc {s t u : S} {a : A} (run : Run step allowed s t) (fine : allowed t a) (taken : step t a = some u) :
    Run step allowed s u := by
  induction run with
  | done s => exact .next fine taken (.done u)
  | next first moved later ih => exact .next first moved (ih fine taken)

theorem runMono {other : S → A → Prop} (weaker : ∀ s a, allowed s a → other s a) {s u : S} (run : Run step allowed s u) :
    Run step other s u := by
  induction run with
  | done s => exact .done s
  | next fine taken later ih => exact .next (weaker _ _ fine) taken ih

/- A measure that falls with a step wherever the goal is not reached. -/
theorem runFinishes {P final : S → Prop} (measure : S → Nat) (kept : ∀ s a t, allowed s a → P s → step s a = some t → P t)
    (moves : ∀ s, P s → ¬ final s → ∃ a t, allowed s a ∧ step s a = some t ∧ measure t < measure s) {s : S} (start : P s) :
    ∃ u, Run step allowed s u ∧ final u := by
  induction size : measure s using Nat.strongRecOn generalizing s with
  | ind n ih =>
    by_cases done : final s
    · exact ⟨s, .done s, done⟩
    · obtain ⟨a, t, fine, taken, less⟩ := moves s start done
      obtain ⟨u, later, reached⟩ := ih (measure t) (size ▸ less) (kept s a t fine start taken) rfl
      exact ⟨u, .next fine taken later, reached⟩

end

def exec (step : S → A → Option S) : S → List A → Option S
  | s, [] => some s
  | s, a :: rest => (step s a).bind (exec step · rest)

theorem execRun {step : S → A → Option S} {s u : S} (steps : List A) (ran : exec step s steps = some u) :
    Run step (fun _ _ => True) s u := by
  induction steps generalizing s with
  | nil =>
    cases Option.some.inj ran
    exact .done _
  | cons a rest ih =>
    obtain ⟨t, taken, later⟩ := Option.bind_eq_some_iff.mp ran
    exact .next trivial taken (ih later)

theorem execStuck {step : S → A → Option S} {s : S} (steps : List A) (stuck : exec step s steps = none) :
    ∃ t, ∃ a ∈ steps, Run step (fun _ _ => True) s t ∧ step t a = none := by
  induction steps generalizing s with
  | nil => cases stuck
  | cons a rest ih =>
    rw [exec] at stuck
    cases taken : step s a with
    | none => exact ⟨s, a, List.mem_cons_self, .done s, taken⟩
    | some t =>
      rw [taken, Option.bind_some] at stuck
      obtain ⟨u, b, among, later, refused⟩ := ih stuck
      exact ⟨u, b, List.mem_cons_of_mem _ among, .next trivial taken later, refused⟩

def Along (step : S → A → Option S) (allowed : S → A → Prop) : S → List A → Prop
  | _, [] => True
  | s, a :: rest => allowed s a ∧ ∀ t, step s a = some t → Along step allowed t rest

theorem alongRun {step : S → A → Option S} {allowed : S → A → Prop} {s u : S} (steps : List A)
    (ran : exec step s steps = some u) (along : Along step allowed s steps) : Run step allowed s u := by
  induction steps generalizing s with
  | nil =>
    cases Option.some.inj ran
    exact .done _
  | cons a rest ih =>
    obtain ⟨t, taken, later⟩ := Option.bind_eq_some_iff.mp ran
    exact .next along.1 taken (ih later (along.2 t taken))

instance decidableAlong (step : S → A → Option S) (allowed : S → A → Prop) [∀ s a, Decidable (allowed s a)] :
    (s : S) → (steps : List A) → Decidable (Along step allowed s steps)
  | _, [] => isTrue trivial
  | s, a :: rest =>
      have : ∀ t, Decidable (Along step allowed t rest) := fun t => decidableAlong step allowed t rest
      inferInstanceAs (Decidable (allowed s a ∧ ∀ t ∈ step s a, Along step allowed t rest))

theorem alongAlways {step : S → A → Option S} {allowed : S → A → Prop} (always : ∀ s a, allowed s a) (s : S) (steps : List A) :
    Along step allowed s steps := by
  induction steps generalizing s with
  | nil => trivial
  | cons a rest ih => exact ⟨always s a, fun t _ => ih t⟩

theorem alongMono {step : S → A → Option S} {allowed other : S → A → Prop} {P : S → Prop}
    (kept : ∀ s a t, allowed s a → P s → step s a = some t → P t) (weaker : ∀ s a, P s → allowed s a → other s a) (steps : List A)
    {s : S} (start : P s) (along : Along step allowed s steps) : Along step other s steps := by
  induction steps generalizing s with
  | nil => trivial
  | cons a rest ih =>
    exact ⟨weaker s a start along.1, fun t taken => ih (kept s a t along.1 start taken) (along.2 t taken)⟩

theorem alongCongr {step : S → A → Option S} {allowed other : S → A → Prop} {P : S → Prop}
    (kept : ∀ s a t, P s → step s a = some t → P t) (same : ∀ s a, P s → (allowed s a ↔ other s a)) (steps : List A) {s : S}
    (start : P s) : Along step allowed s steps ↔ Along step other s steps :=
  ⟨alongMono (fun s a t _ => kept s a t) (fun s a given => (same s a given).mp) steps start,
    alongMono (fun s a t _ => kept s a t) (fun s a given => (same s a given).mpr) steps start⟩

theorem alongBoth {step : S → A → Option S} {allowed other : S → A → Prop} (steps : List A) {s : S}
    (along : Along step allowed s steps) (also : Along step other s steps) :
    Along step (fun s a => allowed s a ∧ other s a) s steps := by
  induction steps generalizing s with
  | nil => trivial
  | cons a rest ih => exact ⟨⟨along.1, also.1⟩, fun t taken => ih (along.2 t taken) (also.2 t taken)⟩

theorem execLockstep {T : Type} {step : S → A → Option S} {other : T → A → Option T} {allowed : S → A → Prop} {R : S → T → Prop}
    (lock : ∀ s t a, allowed s a → R s t → Option.Rel R (step s a) (other t a)) (steps : List A) {s : S} {t : T}
    (along : Along step allowed s steps) (start : R s t) : Option.Rel R (exec step s steps) (exec other t steps) := by
  induction steps generalizing s t with
  | nil => exact .some start
  | cons a rest ih =>
    have first := lock s t a along.1 start
    unfold exec
    cases left : step s a with
    | none =>
      cases right : other t a with
      | none => exact .none
      | some t' =>
        rw [left, right] at first
        cases first
    | some s' =>
      cases right : other t a with
      | none =>
        rw [left, right] at first
        cases first
      | some t' =>
        rw [left, right] at first
        cases first with
        | some joined => exact ih (along.2 s' left) joined

theorem levelAlong {step : S → A → Option S} {allowed : S → A → Prop} {level : S → Int}
    (rises : ∀ s a t, step s a = some t → level s ≤ level t ∧ (level t ≤ level s → allowed s a)) {s u : S}
    (steps : List A) (ran : exec step s steps = some u) (flat : level u ≤ level s) : Along step allowed s steps := by
  induction steps generalizing s with
  | nil => trivial
  | cons a rest ih =>
    obtain ⟨t, taken, later⟩ := Option.bind_eq_some_iff.mp ran
    have tail : level t ≤ level u :=
      runInvariant (P := fun v => level t ≤ level v)
        (fun v b v' _ above moved => Int.le_trans above (rises v b v' moved).1) (execRun rest later) (Int.le_refl _)
    have head := rises s a t taken
    refine ⟨head.2 (Int.le_trans tail flat), fun t' taken' => ?_⟩
    cases Option.some.inj (taken.symm.trans taken')
    exact ih later (Int.le_trans flat head.1)

end Silent.StepSystem
