import Mathlib.Control.Monad.Basic

/-! What a stateful program may do to its state, as a relation between the state before and the
state after: doing nothing is in it, and so is one thing after another. -/
namespace Silent.Effects

structure Effect (W : Type) where
  rel : W → W → Prop
  idle : ∀ w, rel w w
  after : ∀ {u v w}, rel u v → rel v w → rel u w

variable {W A B : Type}

def Effect.Covers (self : Effect W) (x : StateM W A) : Prop := ∀ w, self.rel w (x.run w).2

variable {effect : Effect W}

theorem coversPure (a : A) : effect.Covers (pure a : StateM W A) := effect.idle

theorem coversBind {x : StateM W A} {f : A → StateM W B} (first : effect.Covers x) (later : ∀ a, effect.Covers (f a)) :
    effect.Covers (x >>= f) :=
  fun w => effect.after (first w) (later (x.run w).1 (x.run w).2)

theorem coversMap {x : StateM W A} (first : effect.Covers x) (f : A → B) : effect.Covers (x >>= fun a => pure (f a)) :=
  coversBind first fun a => coversPure (f a)

end Silent.Effects
