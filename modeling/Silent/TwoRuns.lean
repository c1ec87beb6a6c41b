import Mathlib.Control.Monad.Basic

/-! Two stateful programs run side by side: from states that a relation joins they give
one result and leave joined states. The rules follow the program's binds, with and
without exceptions. -/
namespace Silent.TwoRuns

variable {W A B E : Type}

def Agrees (pre : W → W → Prop) (x y : StateM W A) (post : A → W → W → Prop) : Prop :=
  ∀ w v, pre w v → (x.run w).1 = (y.run v).1 ∧ post (x.run w).1 (x.run w).2 (y.run v).2

section
variable {pre : W → W → Prop} {x y : StateM W A}

theorem agreesPure {post : A → W → W → Prop} (a : A) (holds : ∀ w v, pre w v → post a w v) :
    Agrees pre (pure a) (pure a) post :=
  fun w v joined => ⟨rfl, holds w v joined⟩

theorem agreesBind {mid : A → W → W → Prop} {post : B → W → W → Prop} {f g : A → StateM W B}
    (first : Agrees pre x y mid) (later : ∀ a, Agrees (mid a) (f a) (g a) post) : Agrees pre (x >>= f) (y >>= g) post := by
  intro w v joined
  obtain ⟨same, joined⟩ := first w v joined
  have next := later (x.run w).1 (x.run w).2 (y.run v).2 joined
  change (((f (x.run w).1).run (x.run w).2).1 = ((g (y.run v).1).run (y.run v).2).1) ∧
    post ((f (x.run w).1).run (x.run w).2).1 ((f (x.run w).1).run (x.run w).2).2 ((g (y.run v).1).run (y.run v).2).2
  rw [← same]
  exact next

theorem agreesWeaken {stronger : W → W → Prop} {post weaker : A → W → W → Prop} (agrees : Agrees pre x y post)
    (before : ∀ w v, stronger w v → pre w v) (after : ∀ a w v, post a w v → weaker a w v) : Agrees stronger x y weaker := by
  intro w v joined
  obtain ⟨same, joined⟩ := agrees w v (before w v joined)
  exact ⟨same, after _ _ _ joined⟩

end

def onOk (ok : A → W → W → Prop) (error : W → W → Prop) : Except E A → W → W → Prop
  | .ok a => ok a
  | .error _ => error

section
variable {pre error : W → W → Prop} {x y : ExceptT E (StateM W) A}

theorem agreesExceptBind {mid : A → W → W → Prop} {post : B → W → W → Prop} {f g : A → ExceptT E (StateM W) B}
    (first : Agrees pre x.run y.run (onOk mid error)) (later : ∀ a, Agrees (mid a) (f a).run (g a).run (onOk post error)) :
    Agrees pre (x >>= f).run (y >>= g).run (onOk post error) := by
  have rest : ∀ result, Agrees (onOk mid error result) (ExceptT.bindCont f result) (ExceptT.bindCont g result) (onOk post error) := by
    intro result
    cases result with
    | ok a => exact later a
    | error e => exact agreesPure _ fun _ _ joined => joined
  exact agreesBind first rest

theorem agreesLift {x y : StateM W A} {post : A → W → W → Prop} (agrees : Agrees pre x y post) :
    Agrees pre (ExceptT.lift x : ExceptT E (StateM W) A).run (ExceptT.lift y : ExceptT E (StateM W) A).run (onOk post error) := by
  intro w v joined
  obtain ⟨same, joined⟩ := agrees w v joined
  exact ⟨congrArg Except.ok same, joined⟩

theorem agreesOnOk {x y : StateM W (Except E A)} : Agrees pre x y (onOk (fun _ => error) error) ↔ Agrees pre x y (fun _ => error) := by
  have same : ∀ result : Except E A, onOk (fun _ => error) error result = error := by
    intro result
    cases result <;> rfl
  unfold Agrees
  simp only [same]

end

end Silent.TwoRuns
