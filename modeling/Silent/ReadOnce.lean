/-! A value read from a source that reading uses up, kept for the next time if the reading
succeeded. Every later reading finds the value, or the drained source. -/
namespace Silent.ReadOnce

structure Cell (S V : Type) where
  source : S
  cache : Option V

def unread {S V : Type} (source : S) : Cell S V := ⟨source, none⟩

section
variable {S V E : Type} (drained : S) (load : S → Except E V)

def get (cell : Cell S V) : Except E V × Cell S V :=
  match cell.cache with
  | some value => (.ok value, cell)
  | none =>
      match load cell.source with
      | .ok value => (.ok value, ⟨drained, some value⟩)
      | .error err => (.error err, ⟨drained, none⟩)

/-- Reading again comes to the same. -/
def Repeats (source : S) : Prop := (∃ value, load source = .ok value) ∨ load drained = load source

def settled (source : S) : Cell S V := ⟨drained, (load source).toOption⟩

theorem getUnread (source : S) : get drained load (unread source) = (load source, settled drained load source) := by
  unfold get unread settled
  cases load source <;> rfl

theorem getSettled {source : S} (repeats : Repeats drained load source) :
    get drained load (settled drained load source) = (load source, settled drained load source) := by
  cases read : load source with
  | ok value => simp only [get, settled, read, Except.toOption]
  | error err =>
    have again : load drained = .error err := by
      rcases repeats with ⟨value, ok⟩ | same
      · rw [read] at ok
        cases ok
      · exact same.trans read
    simp only [get, settled, read, Except.toOption, again]

theorem getTwice (source : S) :
    (get drained load (get drained load (unread source)).2).1 = load source ↔ Repeats drained load source := by
  rw [getUnread]
  constructor
  · intro same
    cases read : load source with
    | ok value => exact .inl ⟨value, read⟩
    | error err =>
      right
      rw [read]
      simp only [get, settled, read, Except.toOption] at same
      cases again : load drained with
      | ok value =>
        rw [again] at same
        cases same
      | error other =>
        rw [again] at same
        exact same
  · exact fun repeats => by rw [getSettled drained load repeats]

end

end Silent.ReadOnce
