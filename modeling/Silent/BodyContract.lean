import Silent.RequestBody

/-! `ReqBody` and `ResBody` as bodies and as streams, and when they keep what a body owes its
reader. -/
namespace Silent.BodyContract
open ByteText HttpRequest Http3Exchange PolledBody RequestBody

inductive ResBody where
  | none
  | once (bytes : Bytes)
  | chunks (queue : List Bytes)
  | incoming (body : List Polled)
  | stream (polls : List (Poll (Except Text Bytes)))
  | boxed (body : List (Poll (Except Text Frame)))

def noBytes : Bytes := ⟨[], by decide⟩

def ResBody.pollNext : Polling ResBody Bytes Text
  | .none => (.ready .none, .none)
  | .once bytes => if bytes.data = [] then (.ready .none, .once bytes) else (.ready (some (.ok bytes)), .once noBytes)
  | .chunks [] => (.ready .none, .chunks [])
  | .chunks (bytes :: rest) => (.ready (some (.ok bytes)), .chunks rest)
  | .incoming body => (intoData (mapErr IoError.message (pollIncoming body).1), .incoming (pollIncoming body).2)
  | .stream polls => ((pollScript polls).1, .stream (pollScript polls).2)
  | .boxed body => (intoData (pollScript body).1, .boxed (pollScript body).2)

def ResBody.pollFrame : Polling ResBody Frame Text
  | .none => (.ready .none, .none)
  | .once bytes =>
      if bytes.data = [] then (.ready .none, .once bytes) else (.ready (some (.ok (.data bytes))), .once noBytes)
  | .chunks [] => (.ready .none, .chunks [])
  | .chunks (bytes :: rest) => (.ready (some (.ok (.data bytes))), .chunks rest)
  | .incoming body => (mapErr IoError.message (pollIncoming body).1, .incoming (pollIncoming body).2)
  | .stream polls => (dataFrame (pollScript polls).1, .stream (pollScript polls).2)
  | .boxed body => ((pollScript body).1, .boxed (pollScript body).2)

def ResBody.isEndStream (hyper : Foreign Polled) (boxed : Foreign (Poll (Except Text Frame))) : ResBody → Bool
  | .none => true
  | .once bytes => bytes.data.isEmpty
  | .chunks queue => queue.isEmpty
  | .incoming body => hyper.isEndStream body
  | .boxed body => boxed.isEndStream body
  | .stream _ => false

def ResBody.sizeHint (hyper : Foreign Polled) (boxed : Foreign (Poll (Except Text Frame))) : ResBody → SizeHint
  | .none => .withExact 0
  | .once bytes => .withExact (lengthSum [bytes.data.length])
  | .chunks queue => .withExact (lengthSum (queue.map fun bytes => bytes.data.length))
  | .incoming recv => hyper.sizeHint recv
  | .boxed recv => boxed.sizeHint recv
  | .stream _ => SizeHint.new

def reqSource (hyper : Foreign Polled) : Source ReqBody Frame Bytes IoError UInt8 where
  pollFrame := ReqBody.pollFrame
  pollNext := ReqBody.pollNext
  isEndStream := ReqBody.isEndStream hyper
  sizeHint := ReqBody.sizeHint hyper
  frameData := Frame.dataRef
  itemData := Bytes.data

def resSource (hyper : Foreign Polled) (boxed : Foreign (Poll (Except Text Frame))) :
    Source ResBody Frame Bytes Text UInt8 where
  pollFrame := ResBody.pollFrame
  pollNext := ResBody.pollNext
  isEndStream := ResBody.isEndStream hyper boxed
  sizeHint := ResBody.sizeHint hyper boxed
  frameData := Frame.dataRef
  itemData := Bytes.data

def ResBody.InMemory : ResBody → Prop
  | .none | .once _ | .chunks _ => True
  | .incoming _ | .stream _ | .boxed _ => False

def ResBody.content : ResBody → List UInt8
  | .once bytes => bytes.data
  | .chunks queue => queue.flatMap Bytes.data
  | _ => []

def ResBody.left : ResBody → Nat
  | .once bytes => bytes.data.length
  | .chunks queue => queue.length
  | _ => 0

theorem reqCounted (hyper : Foreign Polled) : Counted (reqSource hyper) ReqBody.InMemory ReqBody.content ReqBody.left where
  kept body held := by
    cases body with
    | empty => trivial
    | once bytes => trivial
    | incoming | limitedIncoming | streaming => exact held.elim
  frame body held := by
    cases body with
    | empty => exact .inl ⟨rfl, rfl, rfl⟩
    | once bytes => exact .inr ⟨(List.append_nil _).symm, Nat.zero_lt_one⟩
    | incoming | limitedIncoming | streaming => exact held.elim
  next body held := by
    cases body with
    | empty => exact ⟨rfl, rfl, fun _ => rfl⟩
    | once bytes => exact ⟨rfl, rfl, fun ended => by cases ended⟩
    | incoming | limitedIncoming | streaming => exact held.elim

theorem resCounted (hyper : Foreign Polled) (boxed : Foreign (Poll (Except Text Frame))) :
    Counted (resSource hyper boxed) ResBody.InMemory ResBody.content ResBody.left where
  kept body held := by
    cases body with
    | none => trivial
    | once bytes =>
      simp only [resSource, ResBody.pollFrame]
      split <;> trivial
    | chunks queue => cases queue <;> trivial
    | incoming | stream | boxed => exact held.elim
  frame body held := by
    cases body with
    | none => exact .inl ⟨rfl, rfl, rfl⟩
    | once bytes =>
      simp only [resSource, ResBody.pollFrame]
      split
      · rename_i nothing
        exact .inl ⟨rfl, rfl, nothing⟩
      · rename_i some
        exact .inr ⟨(List.append_nil _).symm, List.length_pos_iff.mpr some⟩
    | chunks queue =>
      cases queue with
      | nil => exact .inl ⟨rfl, rfl, rfl⟩
      | cons bytes rest => exact .inr ⟨rfl, Nat.lt_succ_self _⟩
    | incoming | stream | boxed => exact held.elim
  next body held := by
    cases body with
    | none => exact ⟨rfl, rfl, fun _ => rfl⟩
    | once bytes =>
      simp only [resSource, ResBody.pollFrame, ResBody.pollNext]
      split
      · exact ⟨rfl, rfl, fun _ => rfl⟩
      · exact ⟨rfl, rfl, fun ended => by cases ended⟩
    | chunks queue =>
      cases queue with
      | nil => exact ⟨rfl, rfl, fun _ => rfl⟩
      | cons bytes rest => exact ⟨rfl, rfl, fun ended => by cases ended⟩
    | incoming | stream | boxed => exact held.elim

theorem lengthSumFits {lengths : List Nat} (fits : lengths.sum < 18446744073709551616) : lengthSum lengths = lengths.sum :=
  Nat.mod_eq_of_lt fits

theorem onceFits (bytes : Bytes) : lengthSum [bytes.data.length] = bytes.data.length := by
  have fits := bytes.fits
  rw [lengthSumFits (by rw [List.sum_singleton]; omega), List.sum_singleton]

theorem reqEnds (hyper : Foreign Polled) (body : ReqBody) (held : body.InMemory ∧ ¬body.EmptyOnce)
    (ended : body.isEndStream hyper = true) : body.pollFrame.1 = .ready none := by
  cases body with
  | empty => rfl
  | once bytes => exact absurd (List.isEmpty_iff.mp ended) held.2
  | incoming | limitedIncoming | streaming => exact held.1.elim

theorem reqHint (hyper : Foreign Polled) (body : ReqBody) (held : body.InMemory) :
    body.sizeHint hyper = .withExact body.content.length := by
  cases body with
  | empty => rfl
  | once bytes => exact congrArg SizeHint.withExact (onceFits bytes)
  | incoming | limitedIncoming | streaming => exact held.elim

theorem reqContract (hyper : Foreign Polled) (body : ReqBody) (held : body.InMemory) :
    Contract (reqSource hyper) body.content body ↔ ¬body.EmptyOnce := by
  constructor
  · intro contract emptyOnce
    cases body with
    | once bytes =>
      have ended := contract.ends 0 (List.isEmpty_iff.mpr emptyOnce)
      cases ended
    | empty | incoming | limitedIncoming | streaming => exact emptyOnce
  · intro fine
    refine ((reqCounted hyper).restrict (fun s => ¬s.EmptyOnce) ?_).contract (reqEnds hyper) (fun s held => reqHint hyper s held.1) ⟨held, fine⟩
    intro s kind _
    cases s with
    | empty | once => exact id
    | incoming | limitedIncoming | streaming => exact kind.elim

theorem resEnds (hyper : Foreign Polled) (boxed : Foreign (Poll (Except Text Frame))) (body : ResBody)
    (held : body.InMemory) (ended : body.isEndStream hyper boxed = true) : body.pollFrame.1 = .ready none := by
  cases body with
  | none => rfl
  | once bytes => simp only [ResBody.pollFrame, if_pos (List.isEmpty_iff.mp ended)]
  | chunks queue => rw [List.isEmpty_iff.mp ended]; rfl
  | incoming | stream | boxed => exact held.elim

theorem chunksLength (queue : List Bytes) :
    (ResBody.chunks queue).content.length = (queue.map fun bytes => bytes.data.length).sum :=
  List.length_flatMap

theorem resHint (hyper : Foreign Polled) (boxed : Foreign (Poll (Except Text Frame))) (body : ResBody) (held : body.InMemory) :
    body.sizeHint hyper boxed = .withExact (body.content.length % 18446744073709551616) := by
  cases body with
  | none => rfl
  | once bytes =>
    refine congrArg SizeHint.withExact ((onceFits bytes).trans (Nat.mod_eq_of_lt ?_).symm)
    exact Nat.lt_trans bytes.fits (by decide)
  | chunks queue => rw [chunksLength]; rfl
  | incoming | stream | boxed => exact held.elim

theorem resContract (hyper : Foreign Polled) (boxed : Foreign (Poll (Except Text Frame))) (body : ResBody)
    (held : body.InMemory) :
    Contract (resSource hyper boxed) body.content body ↔ body.content.length < 18446744073709551616 := by
  have counted := resCounted hyper boxed
  constructor
  · intro contract
    have hint := (counted.hintExact held).mp (contract.exact 0)
    have lower := congrArg SizeHint.lower ((resHint hyper boxed body held).symm.trans hint)
    exact Nat.lt_of_le_of_lt (Nat.le_of_eq lower.symm) (Nat.mod_lt _ (by decide))
  · intro fits
    refine (counted.restrict (fun s => s.content.length < 18446744073709551616) ?_).contract
      (fun s held => resEnds hyper boxed s held.1) ?_ ⟨held, fits⟩
    · intro s kind fits
      rcases counted.frame s kind with ⟨_, same, _⟩ | ⟨front, _⟩
      · rw [same]
        exact fits
      · rw [front, List.length_append] at fits
        exact Nat.lt_of_le_of_lt (Nat.le_add_left _ _) fits
    · intro s held
      exact (resHint hyper boxed s held.1).trans (congrArg SizeHint.withExact (Nat.mod_eq_of_lt held.2))

theorem bodiesKeepContract (hyper : Foreign Polled) (boxed : Foreign (Poll (Except Text Frame))) :
    (∀ body : ReqBody, body.InMemory → (Contract (reqSource hyper) body.content body ↔ ¬body.EmptyOnce)) ∧
      ∀ body : ResBody, body.InMemory →
        (Contract (resSource hyper boxed) body.content body ↔ body.content.length < 18446744073709551616) :=
  ⟨reqContract hyper, resContract hyper boxed⟩

def silentForeign (α : Type) : Foreign α := ⟨List.isEmpty, fun _ => SizeHint.new⟩

theorem helloKeepsContract :
    let hello : Bytes := ⟨[104, 105], by decide⟩
    Contract (reqSource (silentForeign Polled)) [104, 105] (.once hello) ∧
      Contract (resSource (silentForeign Polled) (silentForeign _)) [104, 105, 104, 105] (.chunks [hello, noBytes, hello]) := by
  have keeps := bodiesKeepContract (silentForeign Polled) (silentForeign _)
  exact ⟨(keeps.1 (.once ⟨[104, 105], by decide⟩) trivial).mpr (fun nothing => by cases nothing),
    (keeps.2 (.chunks [⟨[104, 105], by decide⟩, noBytes, ⟨[104, 105], by decide⟩]) trivial).mpr (by decide)⟩

theorem emptyOnceGivesFrame :
    (ReqBody.once noBytes).isEndStream (silentForeign Polled) = true ∧
      (ReqBody.once noBytes).pollFrame.1 = .ready (some (.ok (.data noBytes))) ∧
      ¬Contract (reqSource (silentForeign Polled)) [] (.once noBytes) := by
  refine ⟨rfl, rfl, fun contract => ?_⟩
  have ended := contract.ends 0 rfl
  cases ended

end Silent.BodyContract
