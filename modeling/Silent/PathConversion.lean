import Silent.OpenApiRoute

/-! The rewriting loop of `convert_path_format`, round by round: every round has fewer `>`
than the one before, and what the loop ends with it leaves as it is. -/
namespace Silent.PathConversion
open ByteText PathSegment TextScan OpenApiRoute

def rooted (silentPath : Text) : Text :=
  if silentPath = [] then ['/'] else if silentPath.head? = some '/' then silentPath else '/' :: silentPath

theorem convertRooted (silentPath : Text) : convertPathFormat silentPath = convertLoop (rooted silentPath) := rfl

def rounds : Nat → Text → Option Text
  | 0, _ => none
  | fuel + 1, result =>
      match convertOne result with
      | none => some result
      | some next => rounds fuel next

theorem roundsEnd {fuel : Nat} {result : Text} (enough : result.count '>' < fuel) : rounds fuel result = some (convertLoop result) := by
  induction fuel generalizing result with
  | zero => cases enough
  | succ fuel ih =>
    rw [rounds, convertLoop]
    cases converted : convertOne result with
    | none => rfl
    | some next =>
      have fewer := convertOneShorter converted
      exact ih (by omega)

theorem convertLoopKeeps {P : Text → Prop} (kept : ∀ result next, P result → convertOne result = some next → P next) {result : Text}
    (start : P result) : P (convertLoop result) ∧ convertOne (convertLoop result) = none := by
  induction result using convertLoop.induct with
  | case1 result settled =>
    rw [convertStops settled]
    exact ⟨start, settled⟩
  | case2 result next converted ih =>
    rw [convertGoes converted]
    exact ih (kept _ _ start converted)

theorem convertOneRooted {result next : Text} (root : result.head? = some '/') (converted : convertOne result = some next) :
    next.head? = some '/' := by
  unfold convertOne at converted
  split at converted
  · cases converted
  · rename_i fullMatch found
    split at converted
    · cases converted
      obtain ⟨_, body, _, _, shape, _⟩ := firstMatchShape found
      obtain ⟨rest, rfl⟩ : ∃ rest, result = '/' :: rest := List.head?_eq_some_iff.mp root
      have elsewhere : ¬ fullMatch <+: '/' :: rest := by
        rw [shape]
        exact fun front => absurd (List.cons_prefix_cons.mp front).1 (by decide)
      rw [replaceSkip _ elsewhere]
      rfl
    · cases converted

theorem rootedHead (silentPath : Text) : (rooted silentPath).head? = some '/' := by
  unfold rooted
  split
  · rfl
  · split
    · assumption
    · rfl

theorem rootedSame {result : Text} (root : result.head? = some '/') : rooted result = result := by
  have some_ : result ≠ [] := fun none_ => by simp [none_] at root
  rw [rooted, if_neg some_, if_pos root]

/- A round leaves fewer `>`, so the loop ends; converting again changes nothing. -/
theorem conversionSettles (silentPath : Text) :
    (∀ result next, convertOne result = some next → next.count '>' < result.count '>') ∧
      rounds ((rooted silentPath).count '>' + 1) (rooted silentPath) = some (convertPathFormat silentPath) ∧
      convertPathFormat (convertPathFormat silentPath) = convertPathFormat silentPath := by
  refine ⟨fun _ _ => convertOneShorter, roundsEnd (Nat.lt_succ_self _), ?_⟩
  obtain ⟨root, settled⟩ := convertLoopKeeps (P := fun result => result.head? = some '/')
    (fun _ _ => convertOneRooted) (rootedHead silentPath)
  rw [convertRooted (convertPathFormat silentPath), convertRooted silentPath, rootedSame root]
  exact convertStops settled

end Silent.PathConversion
