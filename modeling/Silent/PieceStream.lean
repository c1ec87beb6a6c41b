import Mathlib.Data.List.Basic

/-! A stream of pieces that may fail: what reading it to its end comes to, how a reader with a
buffer becomes such a stream, and a body behind a list of codings. -/
namespace Silent.PieceStream

variable {A E C : Type}

def gathered : List (Except E (List A)) → List A × Option E
  | [] => ([], none)
  | .ok piece :: rest => (piece ++ (gathered rest).1, (gathered rest).2)
  | .error err :: _ => ([], some err)

structure Reader (size : Nat) (E A : Type) where
  reads : List (Except E (List A))
  fits : ∀ piece, .ok piece ∈ reads → piece.length ≤ size

-- A read of nothing is the end, and so is a failure.
def toStream : List (Except E (List A)) → List (Except E (List A))
  | [] => []
  | .ok [] :: _ => []
  | .ok (a :: piece) :: rest => .ok (a :: piece) :: toStream rest
  | .error err :: _ => [.error err]

theorem toStreamPieces {reads : List (Except E (List A))} {piece : List A} (among : .ok piece ∈ toStream reads) :
    piece ≠ [] ∧ .ok piece ∈ reads := by
  induction reads with
  | nil => cases among
  | cons read rest ih =>
    match read with
    | .ok [] => cases among
    | .error err =>
      rcases List.mem_singleton.mp among
    | .ok (a :: first) =>
      rcases List.mem_cons.mp among with same | later
      · cases same
        exact ⟨List.cons_ne_nil _ _, List.mem_cons_self⟩
      · exact ⟨(ih later).1, List.mem_cons_of_mem _ (ih later).2⟩

def undone (decode : C → List A → Option (List A)) (codings : List C) (sent : List A) : Option (List A) :=
  codings.foldrM decode sent

/-- A stream carries what another holds, behind these codings: all of it, or it fails too. -/
structure Carries (decode : C → List A → Option (List A)) (codings : List C) (held : List A × Option E)
    (items : List (Except E (List A))) : Prop where
  whole : held.2 = none → (gathered items).2 = none ∧ undone decode codings (gathered items).1 = some held.1
  broken : held.2.isSome → (gathered items).2.isSome

theorem carriesPlain (decode : C → List A → Option (List A)) (items : List (Except E (List A))) :
    Carries decode [] (gathered items) items where
  whole fine := ⟨fine, rfl⟩
  broken failed := failed

structure Undoes (decode : C → List A → Option (List A))
    (encode : C → List (Except E (List A)) → List (Except E (List A))) : Prop where
  whole : ∀ c pieces, (gathered pieces).2 = none →
    (gathered (encode c pieces)).2 = none ∧ decode c (gathered (encode c pieces)).1 = some (gathered pieces).1
  broken : ∀ c pieces, (gathered pieces).2.isSome → (gathered (encode c pieces)).2.isSome

theorem carriesCoded {decode : C → List A → Option (List A)} {encode : C → List (Except E (List A)) → List (Except E (List A))}
    (undoes : Undoes decode encode) {codings : List C} {held : List A × Option E} {items : List (Except E (List A))}
    (carries : Carries decode codings held items) (c : C) : Carries decode (codings ++ [c]) held (encode c items) where
  whole fine := by
    obtain ⟨ended, read⟩ := carries.whole fine
    obtain ⟨codedEnded, decoded⟩ := undoes.whole c items ended
    refine ⟨codedEnded, ?_⟩
    rw [undone, List.foldrM_append]
    simp only [List.foldrM_cons, List.foldrM_nil, Option.pure_def, Option.bind_eq_bind, Option.bind_some]
    rw [decoded]
    exact read
  broken failed := undoes.broken c items (carries.broken failed)

end Silent.PieceStream
