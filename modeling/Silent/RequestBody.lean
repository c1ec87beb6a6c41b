import Mathlib.Algebra.GroupWithZero.Nat
import Silent.Http3Exchange
import Silent.PolledBody

/-! `ReqBody`, polled for frames and, as a stream, for items. Bodies of other crates are what
their polls come to, one after the other. -/
namespace Silent.RequestBody
open ByteText HttpRequest Http3Exchange PolledBody

abbrev Usize := Fin 18446744073709551616

inductive Frame where
  | data (bytes : Bytes)
  | trailers
  deriving DecidableEq

-- The successive polls of hyper's `Incoming`; after them it is at its end.
inductive Polled where
  | pending
  | frame (frame : Frame)
  | failed (err : Text)
  deriving DecidableEq

structure LimitedIncoming where
  inner : List Polled
  seen : Usize
  max : Usize
  deriving DecidableEq

def pollIncoming : Polling (List Polled) Frame IoError
  | [] => (.ready none, [])
  | .pending :: rest => (.pending, rest)
  | .frame frame :: rest => (.ready (some (.ok frame)), rest)
  | .failed err :: rest => (.ready (some (.error ⟨.other, err⟩)), rest)

def sizeExceeds : Text := "request body size exceeds limit".toList

def LimitedIncoming.pollFrame : Polling LimitedIncoming Frame IoError := fun self =>
  match pollIncoming self.inner with
  | (.ready (some (.ok (.data bytes))), inner) =>
      let seen := self.seen + Fin.ofNat 18446744073709551616 bytes.data.length
      if self.max < seen then (.ready (some (.error ⟨.other, sizeExceeds⟩)), {self with inner := inner, seen := seen})
      else (.ready (some (.ok (.data bytes))), {self with inner := inner, seen := seen})
  | (other, inner) => (other, {self with inner := inner})

def Frame.dataRef : Frame → List UInt8
  | .data bytes => bytes.data
  | .trailers => []

/- `frame.into_data().map(Ok).ok()` under the arms of a poll: trailers end the stream. -/
def intoData {E : Type} : Poll (Option (Except E Frame)) → Poll (Option (Except E Bytes))
  | .ready (some (.ok (.data bytes))) => .ready (some (.ok bytes))
  | .ready (some (.ok .trailers)) => .ready none
  | .ready (some (.error err)) => .ready (some (.error err))
  | .ready none => .ready none
  | .pending => .pending

def pollScript {X : Type} : List (Poll X) → Poll (Option X) × List (Poll X)
  | [] => (.ready none, [])
  | .pending :: rest => (.pending, rest)
  | .ready item :: rest => (.ready (some item), rest)

def dataFrame {E : Type} : Poll (Option (Except E Bytes)) → Poll (Option (Except E Frame))
  | .ready (some (.ok bytes)) => .ready (some (.ok (.data bytes)))
  | .ready (some (.error err)) => .ready (some (.error err))
  | .ready none => .ready none
  | .pending => .pending

def mapErr {E G X : Type} (convert : E → G) : Poll (Option (Except E X)) → Poll (Option (Except G X))
  | .ready (some (.ok value)) => .ready (some (.ok value))
  | .ready (some (.error err)) => .ready (some (.error (convert err)))
  | .ready none => .ready none
  | .pending => .pending

inductive ReqBody where
  | empty
  | once (bytes : Bytes)
  | incoming (inner : List Polled)
  | limitedIncoming (body : LimitedIncoming)
  | streaming (stream : List (Poll Item))

def ReqBody.pollFrame : Polling ReqBody Frame IoError
  | .empty => (.ready none, .empty)
  | .once bytes => (.ready (some (.ok (.data bytes))), .empty)
  | .incoming body => ((pollIncoming body).1, .incoming (pollIncoming body).2)
  | .limitedIncoming body => (body.pollFrame.1, .limitedIncoming body.pollFrame.2)
  | .streaming stream => (dataFrame (pollScript stream).1, .streaming (pollScript stream).2)

def ReqBody.withLimit (self : ReqBody) (max : Option Usize) : ReqBody :=
  match self, max with
  | .incoming inner, some max => .limitedIncoming ⟨inner, 0, max⟩
  | other, _ => other

structure Foreign (α : Type) where
  isEndStream : List α → Bool
  sizeHint : List α → SizeHint

def lengthSum (lengths : List Nat) : Nat := lengths.sum % 18446744073709551616

def ReqBody.isEndStream (hyper : Foreign Polled) : ReqBody → Bool
  | .empty => true
  | .once bytes => bytes.data.isEmpty
  | .incoming body => hyper.isEndStream body
  | .limitedIncoming body => hyper.isEndStream body.inner
  | .streaming _ => false

def ReqBody.sizeHint (hyper : Foreign Polled) : ReqBody → SizeHint
  | .empty => .withExact 0
  | .once bytes => .withExact (lengthSum [bytes.data.length])
  | .incoming body => hyper.sizeHint body
  | .limitedIncoming body => hyper.sizeHint body.inner
  | .streaming _ => SizeHint.new

def ReqBody.pollNext : Polling ReqBody Bytes IoError := fun self =>
  (intoData (mapErr (fun err => ⟨.other, err.message⟩) self.pollFrame.1), self.pollFrame.2)

def ReqBody.InMemory : ReqBody → Prop
  | .empty | .once _ => True
  | .incoming _ | .limitedIncoming _ | .streaming _ => False

def ReqBody.EmptyOnce : ReqBody → Prop
  | .once bytes => bytes.data = []
  | _ => False

def ReqBody.content : ReqBody → List UInt8
  | .once bytes => bytes.data
  | _ => []

def ReqBody.left : ReqBody → Nat
  | .empty => 0
  | .once _ => 1
  | .incoming inner => inner.length
  | .limitedIncoming body => body.inner.length
  | .streaming stream => stream.length

theorem pollIncomingShortens (inner : List Polled) :
    inner = [] ∧ (pollIncoming inner).1 = .ready none ∨ (pollIncoming inner).2.length < inner.length := by
  match inner with
  | [] => exact .inl ⟨rfl, rfl⟩
  | .pending :: rest | .frame frame :: rest | .failed err :: rest => exact .inr (Nat.lt_succ_self _)

theorem limitedShortens (body : LimitedIncoming) :
    body.inner = [] ∧ body.pollFrame.1 = .ready none ∨ body.pollFrame.2.inner.length < body.inner.length := by
  rcases pollIncomingShortens body.inner with ⟨empty, ended⟩ | shorter
  · refine .inl ⟨empty, ?_⟩
    simp [LimitedIncoming.pollFrame, pollIncoming, empty]
  · refine .inr ?_
    simp only [LimitedIncoming.pollFrame]
    split
    · rename_i polled
      rw [polled] at shorter
      split <;> exact shorter
    · rename_i polled
      rw [polled] at shorter
      exact shorter

theorem pollShortens (body : ReqBody) : body.left = 0 ∧ body.pollFrame.1 = .ready none ∨ body.pollFrame.2.left < body.left := by
  cases body with
  | empty => exact .inl ⟨rfl, rfl⟩
  | once bytes => exact .inr Nat.zero_lt_one
  | incoming inner => exact (pollIncomingShortens inner).imp_left (.imp_left (congrArg List.length))
  | limitedIncoming body => exact (limitedShortens body).imp_left (.imp_left (congrArg List.length))
  | streaming stream =>
    match stream with
    | [] => exact .inl ⟨rfl, rfl⟩
    | .pending :: rest | .ready item :: rest => exact .inr (Nat.lt_succ_self _)

end Silent.RequestBody
