import Mathlib.Data.List.Basic

/-! Bodies that are polled for frames and, as streams, for items. The contract says what
the four methods of one body owe each other in every state a run of polls comes to. -/
namespace Silent.PolledBody

inductive Poll (α : Type) where
  | pending
  | ready (value : α)
  deriving DecidableEq

structure SizeHint where
  lower : Nat
  upper : Option Nat
  deriving DecidableEq

def SizeHint.new : SizeHint := ⟨0, none⟩

def SizeHint.withExact (value : Nat) : SizeHint := ⟨value, some value⟩

variable {S F B E A : Type}

abbrev Polling (S X E : Type) := S → Poll (Option (Except E X)) × S

/- One type with the methods of a body and of a stream; `A` is what the frames and the
items are made of. -/
structure Source (S F B E A : Type) where
  pollFrame : Polling S F E
  pollNext : Polling S B E
  isEndStream : S → Bool
  sizeHint : S → SizeHint
  frameData : F → List A
  itemData : B → List A

def received {X : Type} (contents : X → List A) : Poll (Option (Except E X)) → List A
  | .ready (some (.ok value)) => contents value
  | _ => []

def after {X : Type} (poll : Polling S X E) : Nat → S → S
  | 0, s => s
  | n + 1, s => after poll n (poll s).2

def read {X : Type} (poll : Polling S X E) (contents : X → List A) : Nat → S → List A
  | 0, _ => []
  | n + 1, s => received contents (poll s).1 ++ read poll contents n (poll s).2

def Delivers {X : Type} (poll : Polling S X E) (contents : X → List A) (s : S) (data : List A) : Prop :=
  ∃ last, ∀ n, last ≤ n → read poll contents n s = data ∧ (poll (after poll n s)).1 = .ready none

theorem deliversUnique {X : Type} {poll : Polling S X E} {contents : X → List A} {s : S} {data other : List A}
    (left : Delivers poll contents s data) (right : Delivers poll contents s other) : data = other := by
  obtain ⟨m, fromM⟩ := left
  obtain ⟨n, fromN⟩ := right
  exact (fromM (max m n) (Nat.le_max_left m n)).1.symm.trans (fromN (max m n) (Nat.le_max_right m n)).1

theorem deliversNext {X : Type} {poll : Polling S X E} {contents : X → List A} {s : S} {data : List A}
    (later : Delivers poll contents (poll s).2 data) : Delivers poll contents s (received contents (poll s).1 ++ data) := by
  obtain ⟨last, fromLast⟩ := later
  refine ⟨last + 1, fun n many => ?_⟩
  cases n with
  | zero => omega
  | succ n =>
    obtain ⟨all, ended⟩ := fromLast n (by omega)
    exact ⟨congrArg (received contents (poll s).1 ++ ·) all, ended⟩

theorem deliversEnded {X : Type} {poll : Polling S X E} {contents : X → List A} {s : S}
    (ended : (poll s).1 = .ready none) (same : (poll s).2 = s) : Delivers poll contents s [] := by
  refine ⟨0, fun n _ => ?_⟩
  induction n with
  | zero => exact ⟨rfl, ended⟩
  | succ n ih =>
    have now : received contents (poll s).1 = [] := by rw [ended]; rfl
    simp only [read, after, now, same]
    exact ih (Nat.zero_le n)

/-- What holds of a body after any number of calls of `poll_frame` on a fresh one. -/
structure Contract (src : Source S F B E A) (content : List A) (fresh : S) : Prop where
  ends : ∀ n, src.isEndStream (after src.pollFrame n fresh) = true →
    (src.pollFrame (after src.pollFrame n fresh)).1 = .ready none
  exact : ∀ n, ∃ rest, Delivers src.pollFrame src.frameData (after src.pollFrame n fresh) rest ∧
    src.sizeHint (after src.pollFrame n fresh) = .withExact rest.length
  delivers : Delivers src.pollFrame src.frameData fresh content
  streams : ∀ n, ∃ rest, Delivers src.pollFrame src.frameData (after src.pollFrame n fresh) rest ∧
    Delivers src.pollNext src.itemData (after src.pollFrame n fresh) rest

/- A body whose content is known in every state: a poll takes the front of it off, or the
body is at its end and stays there. -/
structure Counted (src : Source S F B E A) (kind : S → Prop) (content : S → List A) (left : S → Nat) : Prop where
  kept : ∀ s, kind s → kind (src.pollFrame s).2
  frame : ∀ s, kind s →
    (src.pollFrame s).1 = .ready none ∧ (src.pollFrame s).2 = s ∧ content s = [] ∨
      content s = received src.frameData (src.pollFrame s).1 ++ content (src.pollFrame s).2 ∧ left (src.pollFrame s).2 < left s
  next : ∀ s, kind s → (src.pollNext s).2 = (src.pollFrame s).2 ∧
    received src.itemData (src.pollNext s).1 = received src.frameData (src.pollFrame s).1 ∧
    ((src.pollFrame s).1 = .ready none → (src.pollNext s).1 = .ready none)

section
variable {src : Source S F B E A} {kind : S → Prop} {content : S → List A} {left : S → Nat}

theorem Counted.delivers (counted : Counted src kind content left) {s : S} (held : kind s) :
    Delivers src.pollFrame src.frameData s (content s) ∧ Delivers src.pollNext src.itemData s (content s) := by
  induction size : left s using Nat.strongRecOn generalizing s with
  | ind n ih =>
    obtain ⟨moves, gives, ended⟩ := counted.next s held
    rcases counted.frame s held with ⟨none, same, nothing⟩ | ⟨front, less⟩
    · rw [nothing]
      exact ⟨deliversEnded none same, deliversEnded (ended none) (moves.trans same)⟩
    · obtain ⟨frames, items⟩ := ih _ (size ▸ less) (counted.kept s held) rfl
      rw [front]
      refine ⟨deliversNext frames, ?_⟩
      rw [← gives]
      exact deliversNext (moves ▸ items)

theorem Counted.keptAfter (counted : Counted src kind content left) (n : Nat) {s : S} (held : kind s) :
    kind (after src.pollFrame n s) := by
  induction n generalizing s with
  | zero => exact held
  | succ n ih => exact ih (counted.kept s held)

theorem Counted.restrict (counted : Counted src kind content left) (fine : S → Prop)
    (kept : ∀ s, kind s → fine s → fine (src.pollFrame s).2) :
    Counted src (fun s => kind s ∧ fine s) content left where
  kept s held := ⟨counted.kept s held.1, kept s held.1 held.2⟩
  frame s held := counted.frame s held.1
  next s held := counted.next s held.1

theorem Counted.hintExact (counted : Counted src kind content left) {s : S} (held : kind s) :
    (∃ rest, Delivers src.pollFrame src.frameData s rest ∧ src.sizeHint s = .withExact rest.length) ↔
      src.sizeHint s = .withExact (content s).length := by
  constructor
  · intro ⟨rest, delivers, hint⟩
    rwa [deliversUnique delivers (counted.delivers held).1] at hint
  · exact fun hint => ⟨_, (counted.delivers held).1, hint⟩

theorem Counted.contract (counted : Counted src kind content left)
    (ends : ∀ s, kind s → src.isEndStream s = true → (src.pollFrame s).1 = .ready none)
    (hint : ∀ s, kind s → src.sizeHint s = .withExact (content s).length) {fresh : S} (held : kind fresh) :
    Contract src (content fresh) fresh where
  ends n := ends _ (counted.keptAfter n held)
  exact n := (counted.hintExact (counted.keptAfter n held)).mpr (hint _ (counted.keptAfter n held))
  delivers := (counted.delivers held).1
  streams n := ⟨_, counted.delivers (counted.keptAfter n held)⟩

end

end Silent.PolledBody
