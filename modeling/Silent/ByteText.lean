import Mathlib.Data.List.Basic

/-! UTF-8 text addressed by byte offsets, as `&str` slicing addresses it. A slice
expression whose bound falls inside a character or past the end panics, so it is
an `Option` here; nothing below depends on a particular text. -/
namespace Silent.ByteText

abbrev Text := List Char

def lower (s : Text) : Text := s.map Char.toLower

def byteLen : Text → Nat
  | [] => 0
  | c :: cs => c.utf8Size + byteLen cs

-- `&s[n..]`
def dropBytes : Text → Nat → Option Text
  | s, 0 => some s
  | [], _ + 1 => none
  | c :: cs, n + 1 => if c.utf8Size ≤ n + 1 then dropBytes cs (n + 1 - c.utf8Size) else none

def takeBytes : Text → Nat → Option Text
  | _, 0 => some []
  | [], _ + 1 => none
  | c :: cs, n + 1 =>
      if c.utf8Size ≤ n + 1 then (takeBytes cs (n + 1 - c.utf8Size)).map (c :: ·) else none

def sliceBytes (s : Text) (start stop : Nat) : Option Text := do
  if start ≤ stop then
    let rest ← dropBytes s start
    takeBytes rest (stop - start)
  else none

def IsBoundary (s : Text) (n : Nat) : Prop := (dropBytes s n).isSome

instance (s : Text) (n : Nat) : Decidable (IsBoundary s n) :=
  inferInstanceAs (Decidable ((dropBytes s n).isSome = true))

@[simp] theorem byteLenNil : byteLen [] = 0 := rfl

@[simp] theorem byteLenCons (c : Char) (cs : Text) : byteLen (c :: cs) = c.utf8Size + byteLen cs := rfl

@[simp] theorem byteLenAppend (s t : Text) : byteLen (s ++ t) = byteLen s + byteLen t := by
  induction s with
  | nil => simp
  | cons c cs ih => simp [ih, Nat.add_assoc]

@[simp] theorem byteLenSlash : '/'.utf8Size = 1 := rfl

theorem dropBytesStep (c : Char) (cs : Text) (n : Nat) :
    dropBytes (c :: cs) (c.utf8Size + n) = dropBytes cs n := by
  have positive := c.utf8Size_pos
  obtain ⟨k, hk⟩ : ∃ k, c.utf8Size + n = k + 1 := ⟨c.utf8Size + n - 1, by omega⟩
  rw [hk, dropBytes, if_pos (by omega)]
  congr 1
  omega

theorem takeBytesStep (c : Char) (cs : Text) (n : Nat) :
    takeBytes (c :: cs) (c.utf8Size + n) = (takeBytes cs n).map (c :: ·) := by
  have positive := c.utf8Size_pos
  obtain ⟨k, hk⟩ : ∃ k, c.utf8Size + n = k + 1 := ⟨c.utf8Size + n - 1, by omega⟩
  rw [hk, takeBytes, if_pos (by omega)]
  congr 2
  omega

@[simp] theorem dropBytesZero (s : Text) : dropBytes s 0 = some s := by cases s <;> rfl

@[simp] theorem takeBytesZero (s : Text) : takeBytes s 0 = some [] := by cases s <;> rfl

theorem dropBytesAppend (s t : Text) : dropBytes (s ++ t) (byteLen s) = some t := by
  induction s with
  | nil => simp
  | cons c cs ih => rw [List.cons_append, byteLenCons, dropBytesStep, ih]

theorem takeBytesAppend (s t : Text) : takeBytes (s ++ t) (byteLen s) = some s := by
  induction s with
  | nil => simp
  | cons c cs ih => rw [List.cons_append, byteLenCons, takeBytesStep, ih]; rfl

theorem sliceBytesMiddle (s t u : Text) :
    sliceBytes (s ++ (t ++ u)) (byteLen s) (byteLen s + byteLen t) = some t := by
  simp only [sliceBytes, Nat.le_add_right, if_true, dropBytesAppend, bind, Option.bind,
    Nat.add_sub_cancel_left, takeBytesAppend]

theorem sliceBytesEmpty (s : Text) (n : Nat) :
    sliceBytes s n n = if IsBoundary s n then some [] else none := by
  simp only [sliceBytes, Nat.le_refl, if_true, Nat.sub_self, bind]
  cases found : dropBytes s n with
  | none => simp [IsBoundary, found]
  | some rest => simp [IsBoundary, found]

theorem splitPart (isSep : Char → Bool) (s : Text) : ∀ part ∈ s.splitOnP isSep, ∀ c ∈ part, isSep c = false ∧ c ∈ s := by
  induction s with
  | nil => simp
  | cons c cs ih =>
    rw [List.splitOnP_cons_eq_if_modifyHead]
    split
    · intro part among d inside
      rcases List.mem_cons.mp among with first | later
      · simp [first] at inside
      · exact ⟨(ih part later d inside).1, List.mem_cons_of_mem _ (ih part later d inside).2⟩
    · rename_i other
      obtain ⟨part, parts, split⟩ := List.exists_cons_of_ne_nil (List.splitOnP_ne_nil isSep cs)
      simp only [split, List.modifyHead_cons, List.mem_cons, forall_eq_or_imp] at ih ⊢
      refine ⟨⟨⟨by simpa using other, .inl trivial⟩, fun d inside => ?_⟩, fun next among d inside => ?_⟩
      · exact ⟨(ih.1 d inside).1, .inr (ih.1 d inside).2⟩
      · exact ⟨(ih.2 next among d inside).1, .inr (ih.2 next among d inside).2⟩

end Silent.ByteText
