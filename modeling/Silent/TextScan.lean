import Mathlib.Data.List.Basic
import Mathlib.Data.List.Infix
import Mathlib.Data.List.Count

/-! Replacing every occurrence of a pattern, and finding the pieces between an opening
and a closing sign, in a text that is made of segments. A pattern without the separator
lies inside one segment, so both can be read segment by segment. -/
namespace Silent.TextScan

variable {A : Type}

def Cut (sep : A) (text : List A) : Prop := text = [] ∨ text.head? = some sep

theorem prefixCut {sep : A} {pat s text : List A} (plain : sep ∉ pat) (cut : Cut sep text) (found : pat <+: s ++ text) :
    pat <+: s := by
  rcases List.prefix_or_prefix_of_prefix found (List.prefix_append s text) with inside | ⟨more, rfl⟩
  · exact inside
  · have rest : more <+: text := (List.prefix_append_right_inj s).mp found
    cases more with
    | nil => exact ⟨[], by simp⟩
    | cons a tail =>
      obtain ⟨last, rfl⟩ := rest
      rcases cut with empty | starts
      · cases empty
      · have same : a = sep := by simpa using starts
        exact absurd (by simp [same]) plain

def delimited (sep : A) (segs : List (List A)) : List A := segs.flatMap (sep :: ·)

@[simp] theorem delimitedNil (sep : A) : delimited sep [] = [] := rfl

@[simp] theorem delimitedCons (sep : A) (seg : List A) (segs : List (List A)) :
    delimited sep (seg :: segs) = sep :: (seg ++ delimited sep segs) := by
  simp [delimited]

theorem delimitedAppend (sep : A) (left right : List (List A)) :
    delimited sep (left ++ right) = delimited sep left ++ delimited sep right := by
  simp [delimited]

theorem delimitedCut (sep : A) (segs : List (List A)) : Cut sep (delimited sep segs) := by
  cases segs with
  | nil => exact .inl rfl
  | cons seg segs => exact .inr (by simp)

theorem memDelimited {sep c : A} {segs : List (List A)} (other : c ≠ sep) :
    c ∈ delimited sep segs ↔ ∃ seg ∈ segs, c ∈ seg := by
  simp [delimited, other]

theorem delimitedInj {sep : A} {left right : List (List A)} (plain : ∀ seg ∈ left, sep ∉ seg)
    (plain' : ∀ seg ∈ right, sep ∉ seg) (same : delimited sep left = delimited sep right) : left = right := by
  induction left generalizing right with
  | nil =>
    cases right with
    | nil => rfl
    | cons seg rest => simp at same
  | cons seg rest ih =>
    cases right with
    | nil => simp at same
    | cons seg' rest' =>
      rw [delimitedCons, delimitedCons] at same
      have joined := (List.cons.inj same).2
      have front : seg = seg' := by
        have inside : seg <+: seg' :=
          prefixCut (plain seg List.mem_cons_self) (delimitedCut sep rest') (joined ▸ List.prefix_append seg _)
        have inside' : seg' <+: seg :=
          prefixCut (plain' seg' List.mem_cons_self) (delimitedCut sep rest) (joined ▸ List.prefix_append seg' _)
        exact inside.eq_of_length (Nat.le_antisymm inside.length_le inside'.length_le)
      subst front
      rw [ih (fun s mem => plain s (List.mem_cons_of_mem _ mem)) (fun s mem => plain' s (List.mem_cons_of_mem _ mem))
        (List.append_cancel_left joined)]

variable [DecidableEq A]

/- From left to right, without overlaps. An empty pattern is never found. -/
def replaceAll (pat rep : List A) : List A → List A
  | [] => []
  | a :: rest =>
      if pat ≠ [] ∧ pat <+: a :: rest then rep ++ replaceAll pat rep (rest.drop (pat.length - 1))
      else a :: replaceAll pat rep rest
termination_by text => text.length
decreasing_by
  · simp only [List.length_drop, List.length_cons]
    omega
  · simp

theorem replaceSkip {pat : List A} (rep : List A) {a : A} {rest : List A} (here : ¬ pat <+: a :: rest) :
    replaceAll pat rep (a :: rest) = a :: replaceAll pat rep rest := by
  rw [replaceAll, if_neg (fun found => here found.2)]

theorem replaceHere {pat : List A} (rep : List A) (some_ : pat ≠ []) (rest : List A) :
    replaceAll pat rep (pat ++ rest) = rep ++ replaceAll pat rep rest := by
  cases pat with
  | nil => exact absurd rfl some_
  | cons a tail =>
    rw [List.cons_append, replaceAll, if_pos ⟨some_, ⟨rest, rfl⟩⟩]
    simp

theorem replaceAbsent {pat : List A} (rep : List A) {text : List A} (absent : ¬ pat <:+: text) :
    replaceAll pat rep text = text := by
  induction text with
  | nil => rw [replaceAll]
  | cons a rest ih =>
    rw [replaceSkip rep (fun here => absent here.isInfix), ih (fun later => absent (later.trans (List.suffix_cons a rest).isInfix))]

theorem replaceAcross {sep : A} {pat : List A} (rep : List A) (plain : sep ∉ pat) (s : List A) {text : List A}
    (cut : Cut sep text) : replaceAll pat rep (s ++ text) = replaceAll pat rep s ++ replaceAll pat rep text := by
  induction size : s.length using Nat.strongRecOn generalizing s with
  | ind n ih =>
    cases s with
    | nil => rw [replaceAll, List.nil_append, List.nil_append]
    | cons a rest =>
      by_cases here : pat ≠ [] ∧ pat <+: a :: rest
      · obtain ⟨some_, last, whole⟩ := here
        rw [← whole, List.append_assoc, replaceHere rep some_, replaceHere rep some_, ih last.length ?_ last rfl,
          List.append_assoc]
        have counted := congrArg List.length whole
        have positive := List.length_pos_iff.mpr some_
        simp only [List.length_append, List.length_cons] at counted size
        omega
      · by_cases some_ : pat = []
        · subst some_
          rw [List.cons_append, replaceAll, if_neg (fun found => found.1 rfl), ih rest.length (by simp [← size]) rest rfl,
            replaceAll, if_neg (fun found => found.1 rfl), List.cons_append]
        · have nowhere : ¬ pat <+: a :: (rest ++ text) := fun found =>
            here ⟨some_, prefixCut (s := a :: rest) plain cut found⟩
          rw [List.cons_append, replaceSkip rep nowhere, ih rest.length (by simp [← size]) rest rfl,
            replaceSkip rep (fun found => here ⟨some_, found⟩), List.cons_append]

theorem replaceDelimited {sep : A} {pat : List A} (rep : List A) (some_ : pat ≠ []) (plain : sep ∉ pat)
    {segs : List (List A)} (whole : ∀ seg ∈ segs, seg = pat ∨ ¬ pat <:+: seg) :
    replaceAll pat rep (delimited sep segs) = delimited sep (segs.map (fun seg => if seg = pat then rep else seg)) := by
  induction segs with
  | nil => simp [replaceAll]
  | cons seg rest ih =>
    have first : ¬ pat <+: sep :: (seg ++ delimited sep rest) := by
      rintro ⟨last, same⟩
      cases pat with
      | nil => exact some_ rfl
      | cons a tail =>
        have head : a = sep := (List.cons.inj same).1
        exact plain (by simp [head])
    rw [delimitedCons, replaceSkip rep first, replaceAcross rep plain seg (delimitedCut sep rest),
      ih (fun s mem => whole s (List.mem_cons_of_mem _ mem)), List.map_cons, delimitedCons]
    by_cases same : seg = pat
    · subst same
      have alone := replaceHere rep some_ []
      rw [List.append_nil] at alone
      rw [if_pos rfl, alone]
      simp [replaceAll]
    · rw [if_neg same, replaceAbsent rep ((whole seg List.mem_cons_self).resolve_left same)]

theorem replaceCount {pat rep : List A} {c : A} (fewer : rep.count c < pat.count c) (text : List A) :
    (replaceAll pat rep text).count c ≤ text.count c ∧
      (pat <:+: text → (replaceAll pat rep text).count c < text.count c) := by
  have some_ : pat ≠ [] := by
    rintro rfl
    simp at fewer
  induction size : text.length using Nat.strongRecOn generalizing text with
  | ind n ih =>
    cases text with
    | nil =>
      refine ⟨by simp [replaceAll], fun found => absurd (List.infix_nil.mp found) some_⟩
    | cons a rest =>
      by_cases here : pat <+: a :: rest
      · obtain ⟨last, whole⟩ := here
        have counted := congrArg List.length whole
        have positive := List.length_pos_iff.mpr some_
        simp only [List.length_append, List.length_cons] at counted size
        have later := (ih last.length (by omega) last rfl).1
        rw [← whole, replaceHere rep some_]
        simp only [List.count_append]
        exact ⟨by omega, fun _ => by omega⟩
      · have later := ih rest.length (by simp [← size]) rest rfl
        rw [replaceSkip rep here]
        simp only [List.count_cons]
        refine ⟨by omega, fun found => ?_⟩
        rcases List.infix_cons_iff.mp found with first | inside
        · exact absurd first here
        · have := later.2 inside
          omega

def between (opening closing : A) (text : List A) : List (List A) :=
  match _rest : text.dropWhile (· ≠ opening) with
  | [] => []
  | _ :: rest =>
      if closing ∈ rest then
        rest.takeWhile (· ≠ closing) :: between opening closing ((rest.dropWhile (· ≠ closing)).drop 1)
      else []
termination_by text.length
decreasing_by
  have shorter := (List.dropWhile_suffix (· ≠ opening) (l := text)).length_le
  have inner := (List.dropWhile_suffix (· ≠ closing) (l := rest)).length_le
  rw [_rest, List.length_cons] at shorter
  rw [List.length_drop]
  omega

section
variable {opening closing : A}

theorem betweenSkip {x : List A} (absent : opening ∉ x) (text : List A) :
    between opening closing (x ++ text) = between opening closing text := by
  have same : (x ++ text).dropWhile (· ≠ opening) = text.dropWhile (· ≠ opening) := by
    induction x with
    | nil => rfl
    | cons a rest ih =>
      simp only [List.mem_cons, not_or] at absent
      rw [List.cons_append, List.dropWhile_cons_of_pos (by simpa using Ne.symm absent.1)]
      exact ih absent.2
  rw [between, between, same]

theorem betweenPair {body : List A} (absent : closing ∉ body) (text : List A) :
    between opening closing (opening :: (body ++ closing :: text)) = body :: between opening closing text := by
  have kept : (body ++ closing :: text).takeWhile (· ≠ closing) = body ∧
      (body ++ closing :: text).dropWhile (· ≠ closing) = closing :: text := by
    have all : ∀ a ∈ body, decide (a ≠ closing) = true := by
      intro a mem
      simp only [decide_eq_true_eq]
      rintro rfl
      exact absent mem
    rw [List.takeWhile_append_of_pos all, List.dropWhile_append_of_pos all]
    simp
  rw [between, List.dropWhile_cons_of_neg (by simp)]
  simp only [if_pos (List.mem_append_right body List.mem_cons_self), kept.1, kept.2, List.drop_succ_cons, List.drop_zero]

theorem betweenOpen {x text : List A} (absent : opening ∉ x) (unclosed : closing ∉ text) :
    between opening closing (x ++ opening :: text) = [] := by
  rw [betweenSkip absent, between, List.dropWhile_cons_of_neg (by simp)]
  simp only [if_neg unclosed]

theorem betweenNone {x : List A} (absent : opening ∉ x) : between opening closing x = [] := by
  have none_ : between opening closing (x ++ []) = between opening closing [] := betweenSkip absent []
  rw [List.append_nil] at none_
  rw [none_, between]
  rfl

end

end Silent.TextScan
