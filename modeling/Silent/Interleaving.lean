import Mathlib.Data.List.Basic

/-! Several parties that each take their own steps in order, and a run in which the steps of all
of them stand in one line. What only the steps of one party change is in the end as if that
party had run alone. -/
namespace Silent.Interleaving

variable {I A S O : Type} [DecidableEq I]

def own (i : I) (run : List (I × A)) : List A := (run.filter (·.1 = i)).map (·.2)

def Merges (steps : I → List A) (run : List (I × A)) : Prop := ∀ i, own i run = steps i

theorem ownCons (i : I) (first : I × A) (run : List (I × A)) :
    own i (first :: run) = if first.1 = i then first.2 :: own i run else own i run := by
  by_cases mine : first.1 = i <;> simp [own, mine]

theorem ownAppend (i : I) (left right : List (I × A)) : own i (left ++ right) = own i left ++ own i right := by
  simp [own]

theorem ownSteps (i j : I) (steps : List A) : own i (steps.map (j, ·)) = if j = i then steps else [] := by
  induction steps with
  | nil => split <;> rfl
  | cons a steps ih =>
    rw [List.map_cons, ownCons, ih]
    split <;> rfl

theorem mergesMem {steps : I → List A} {run : List (I × A)} (merges : Merges steps run) (i : I) (a : A) :
    (i, a) ∈ run ↔ a ∈ steps i := by
  rw [← merges i, own, List.mem_map]
  constructor
  · exact fun among => ⟨(i, a), List.mem_filter.mpr ⟨among, decide_eq_true rfl⟩, rfl⟩
  · intro found
    obtain ⟨⟨j, b⟩, among, same⟩ := found
    obtain ⟨there, mine⟩ := List.mem_filter.mp among
    cases of_decide_eq_true mine
    cases same
    exact there

theorem foldOwn (see : S → O) {step : S → I × A → S} {next : O → A → O} {i : I}
    (mine : ∀ s a, see (step s (i, a)) = next (see s) a) (others : ∀ s j a, j ≠ i → see (step s (j, a)) = see s)
    (run : List (I × A)) (s : S) : see (run.foldl step s) = (own i run).foldl next (see s) := by
  induction run generalizing s with
  | nil => rfl
  | cons first run ih =>
    obtain ⟨j, a⟩ := first
    rw [List.foldl_cons, ih, ownCons]
    by_cases same : j = i
    · subst same
      rw [if_pos rfl, List.foldl_cons, mine]
    · rw [if_neg same, others s j a same]

end Silent.Interleaving
