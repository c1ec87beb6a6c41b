import Silent.ByteText
import Silent.StepSystem

/-! How an upgraded connection travels from the server to `upgrade::on`. For a request that
can be upgraded, `HyperServiceHandler::call` puts the receiver of a oneshot channel into
the extensions; copies of the extensions share it. The sender waits for the response of
the handler, and then for hyper. Handlers, tasks and hyper move in any order. -/
namespace Silent.WebSocketUpgrade
open ByteText StepSystem

inductive OnUpgrade (Io : Type) where
  | pending
  | resolved (io : Option Io)
  | gone
  deriving DecidableEq, Repr

inductive Sender where
  | service
  | task
  | gone
  deriving DecidableEq, Repr

inductive Receiver where
  | shared
  | taken (call : Nat)
  | gone
  deriving DecidableEq, Repr

inductive Call (Io : Type) where
  | waiting
  | upgraded (io : Io)
  | failed (error : Text)
  | dropped
  deriving DecidableEq, Repr

-- `carriers` counts the requests and copies of extensions with the receiver in them.
-- `given` is what hyper resolved to, `lost` the connections that were dropped.
structure Exchange (Io : Type) where
  onUpgrade : OnUpgrade Io
  sender : Sender
  channel : Option Io
  receiver : Receiver
  carriers : Nat
  calls : List (Call Io)
  given : Option Io
  lost : List Io
  deriving DecidableEq, Repr

variable {Io : Type}

def noChannel : Text := "No upgrade channel available".toList
def channelMissing : Text := "Upgrade channel missing".toList
def awaitError : Text := "upgrade await error: oneshot canceled".toList

def called (upgradable : Bool) : Exchange Io :=
  if upgradable then ⟨.pending, .service, none, .shared, 1, [], none, []⟩
  else ⟨.gone, .gone, none, .gone, 0, [], none, []⟩

inductive Act (Io : Type) where
  | clone
  | discard
  | on (carries : Bool)
  | poll (call : Nat)
  | cancel (call : Nat)
  | respond
  | resolve (io : Option Io)
  | forward
  | abandon

def OnUpgrade.io : OnUpgrade Io → List Io
  | .resolved io => io.toList
  | _ => []

def dropReceiver (s : Exchange Io) : Exchange Io :=
  {s with receiver := .gone, channel := none, lost := s.lost ++ s.channel.toList}

def dropCarrier (s : Exchange Io) : Exchange Io :=
  let left := {s with carriers := s.carriers - 1}
  if left.carriers = 0 ∧ s.receiver = .shared then dropReceiver left else left

def on (s : Exchange Io) (carries : Bool) : Option (Exchange Io) :=
  if !carries then some {s with calls := s.calls ++ [.failed noChannel]}
  else if s.carriers = 0 then none
  else if s.receiver = .shared then
    some {s with receiver := .taken s.calls.length, carriers := s.carriers - 1, calls := s.calls ++ [.waiting]}
  else some {s with carriers := s.carriers - 1, calls := s.calls ++ [.failed channelMissing]}

def finish (s : Exchange Io) (call : Nat) (outcome : Call Io) : Exchange Io :=
  {s with receiver := .gone, channel := none, calls := s.calls.set call outcome}

def poll (s : Exchange Io) (call : Nat) : Option (Exchange Io) :=
  if s.receiver = .taken call then
    match s.channel with
    | some io => some (finish s call (.upgraded io))
    | none => if s.sender = .gone then some (finish s call (.failed awaitError)) else some s
  else none

def cancel (s : Exchange Io) (call : Nat) : Option (Exchange Io) :=
  if s.receiver = .taken call then some (dropReceiver {s with calls := s.calls.set call .dropped}) else none

def forward (s : Exchange Io) : Option (Exchange Io) :=
  if s.sender = .task then
    match s.onUpgrade with
    | .resolved (some io) =>
        if s.receiver = .gone then some {s with sender := .gone, onUpgrade := .gone, lost := s.lost ++ [io]}
        else some {s with sender := .gone, onUpgrade := .gone, channel := some io}
    | .resolved none => some {s with sender := .gone, onUpgrade := .gone}
    | _ => none
  else none

def step (s : Exchange Io) : Act Io → Option (Exchange Io)
  | .clone => if s.carriers = 0 then none else some {s with carriers := s.carriers + 1}
  | .discard => if s.carriers = 0 then none else some (dropCarrier s)
  | .on carries => on s carries
  | .poll call => poll s call
  | .cancel call => cancel s call
  | .respond => if s.sender = .service then some {s with sender := .task} else none
  | .resolve io =>
      match s.onUpgrade with
      | .pending => some {s with onUpgrade := .resolved io, given := io}
      | _ => none
  | .forward => forward s
  | .abandon =>
      if s.sender = .gone then none
      else some {s with sender := .gone, onUpgrade := .gone, lost := s.lost ++ s.onUpgrade.io}

def Call.io : Call Io → List Io
  | .upgraded io => [io]
  | _ => []

def connected (s : Exchange Io) : List Io := s.calls.flatMap Call.io

def places (s : Exchange Io) : List Io := s.onUpgrade.io ++ s.channel.toList ++ connected s ++ s.lost

/-- Where the connection, the sender and the receiver are. -/
structure Wired (s : Exchange Io) : Prop where
  whole : (places s).Perm s.given.toList
  unasked : s.onUpgrade = .pending → s.given = none
  sender : s.sender = .gone ↔ s.onUpgrade = .gone
  unsent : s.sender ≠ .gone → s.channel = none ∧ connected s = []
  shared : s.receiver = .shared → 0 < s.carriers
  waiting : ∀ call, s.calls[call]? = some .waiting ↔ s.receiver = .taken call
  awaited : s.channel ≠ none → s.receiver ≠ .gone
  ended : connected s ≠ [] → s.receiver = .gone

theorem calledWired (upgradable : Bool) : Wired (called upgradable : Exchange Io) := by
  cases upgradable <;> constructor <;> simp [called, places, OnUpgrade.io, connected]

theorem connectedAppend {s : Exchange Io} (call : Call Io) (none : call.io = []) :
    (s.calls ++ [call]).flatMap Call.io = connected s := by
  simp [connected, none]

theorem connectedSet {s : Exchange Io} {call : Nat} (held : s.calls[call]? = some .waiting) (outcome : Call Io) :
    ((s.calls.set call outcome).flatMap Call.io).Perm (outcome.io ++ connected s) := by
  obtain ⟨inside, here⟩ := List.getElem?_eq_some_iff.mp held
  have split : s.calls = s.calls.take call ++ .waiting :: s.calls.drop (call + 1) := by
    rw [← here, ← List.drop_eq_getElem_cons, List.take_append_drop]
  have replaced : s.calls.set call outcome = s.calls.take call ++ outcome :: s.calls.drop (call + 1) :=
    List.set_eq_take_append_cons_drop.trans (if_pos inside)
  have before : connected s = (s.calls.take call).flatMap Call.io ++ (s.calls.drop (call + 1)).flatMap Call.io := by
    conv => lhs; rw [connected, split]
    simp [Call.io]
  rw [replaced, before, List.flatMap_append, List.flatMap_cons, ← List.append_assoc, ← List.append_assoc]
  exact List.perm_append_comm.append_right _

theorem waitingAppend {s : Exchange Io} {outcome : Call Io} (wired : Wired s) (settled : outcome ≠ .waiting) (call : Nat) :
    (s.calls ++ [outcome])[call]? = some .waiting ↔ s.receiver = .taken call := by
  rw [← wired.waiting call, List.getElem?_append]
  split
  · rfl
  · rename_i beyond
    rw [List.getElem?_eq_none (Nat.le_of_not_lt beyond), List.getElem?_singleton]
    split <;> simp [settled]

theorem waitingSet {s : Exchange Io} {outcome : Call Io} {mine : Nat} (wired : Wired s) (held : s.receiver = .taken mine)
    (settled : outcome ≠ .waiting) (call : Nat) : (s.calls.set mine outcome)[call]? ≠ some .waiting := by
  rw [List.getElem?_set]
  split
  · split <;> simp [settled]
  · rename_i other
    intro waits
    have same := (wired.waiting call).mp waits
    rw [held] at same
    exact other (by cases same; rfl)

theorem dropCarrierWired {s : Exchange Io} (wired : Wired s) : Wired (dropCarrier s) := by
  unfold dropCarrier
  simp only
  split
  · rename_i last
    obtain ⟨-, shared⟩ := last
    constructor
    · refine List.Perm.trans ?_ wired.whole
      simp only [places, dropReceiver, connected, Option.toList_none, List.append_nil, List.append_assoc]
      refine List.Perm.append_left _ ?_
      rw [← List.append_assoc]
      exact List.perm_append_comm
    · exact wired.unasked
    · exact wired.sender
    · exact fun holds => ⟨rfl, (wired.unsent holds).2⟩
    · intro again
      cases again
    · intro call
      refine (wired.waiting call).trans ⟨fun taken => ?_, fun taken => ?_⟩
      · rw [shared] at taken
        cases taken
      · cases taken
    · exact fun some => absurd rfl some
    · exact fun _ => rfl
  · rename_i more
    exact {wired with
      shared := fun shared => Nat.pos_of_ne_zero fun none => more ⟨none, shared⟩}

theorem onWired {s t : Exchange Io} {carries : Bool} (wired : Wired s) (taken : on s carries = some t) : Wired t := by
  unfold on at taken
  split at taken
  · cases Option.some.inj taken
    exact {wired with
      whole := by simpa only [places, connected, connectedAppend (.failed noChannel) rfl] using wired.whole
      unsent := fun holds => by simpa only [connected, connectedAppend (.failed noChannel) rfl] using wired.unsent holds
      waiting := waitingAppend wired (by simp)
      ended := fun some => wired.ended (by simpa only [connected, connectedAppend (.failed noChannel) rfl] using some)}
  split at taken
  · cases taken
  split at taken
  · rename_i shared
    cases Option.some.inj taken
    constructor
    · simpa only [places, connected, connectedAppend .waiting rfl] using wired.whole
    · exact wired.unasked
    · exact wired.sender
    · exact fun holds => by simpa only [connected, connectedAppend .waiting rfl] using wired.unsent holds
    · intro again
      cases again
    · intro call
      have none : s.calls[call]? ≠ some .waiting := fun waits => by
        rw [(wired.waiting call).mp waits] at shared
        cases shared
      rw [List.getElem?_append]
      split
      · rename_i inside
        simp only [none, Receiver.taken.injEq, false_iff]
        omega
      · rename_i beyond
        rw [List.getElem?_singleton]
        simp only [Option.ite_none_right_eq_some, and_true, Receiver.taken.injEq]
        omega
    · exact fun _ gone => by cases gone
    · intro some
      have gone := wired.ended (by simpa only [connected, connectedAppend .waiting rfl] using some)
      rw [shared] at gone
      cases gone
  · rename_i away
    cases Option.some.inj taken
    exact {wired with
      whole := by simpa only [places, connected, connectedAppend (.failed channelMissing) rfl] using wired.whole
      unsent := fun holds => by simpa only [connected, connectedAppend (.failed channelMissing) rfl] using wired.unsent holds
      shared := fun shared => absurd shared away
      waiting := waitingAppend wired (by simp)
      ended := fun some => wired.ended (by simpa only [connected, connectedAppend (.failed channelMissing) rfl] using some)}

theorem overWaiting {s : Exchange Io} {mine : Nat} {outcome : Call Io} (wired : Wired s) (held : s.receiver = .taken mine)
    (settled : outcome ≠ .waiting) (call : Nat) :
    (s.calls.set mine outcome)[call]? = some .waiting ↔ (Receiver.gone = Receiver.taken call) :=
  ⟨fun waits => absurd waits (waitingSet wired held settled call), fun gone => by cases gone⟩

theorem pollWired {s t : Exchange Io} {mine : Nat} (wired : Wired s) (taken : poll s mine = some t) : Wired t := by
  unfold poll at taken
  split at taken
  · rename_i held
    have waits := (wired.waiting mine).mpr held
    split at taken
    · rename_i io sent
      cases Option.some.inj taken
      have gone : s.sender = .gone := by
        by_contra holds
        rw [(wired.unsent holds).1] at sent
        cases sent
      constructor
      · refine List.Perm.trans ?_ wired.whole
        simp only [places, finish, connected, sent, Option.toList_none, Option.toList_some, List.append_nil, List.append_assoc]
        exact List.Perm.append_left _ (((connectedSet waits (.upgraded io)).append_right _).trans (by simp [Call.io, connected]))
      · exact wired.unasked
      · exact wired.sender
      · exact fun holds => absurd gone holds
      · intro again
        cases again
      · exact overWaiting wired held (by simp)
      · exact fun some => absurd rfl some
      · exact fun _ => rfl
    · rename_i empty
      split at taken
      · rename_i gone
        cases Option.some.inj taken
        have same := connectedSet waits (.failed awaitError)
        constructor
        · refine List.Perm.trans ?_ wired.whole
          simp only [places, finish, connected, empty, Option.toList_none, List.append_nil, List.append_assoc]
          exact List.Perm.append_left _ (same.append_right _)
        · exact wired.unasked
        · exact wired.sender
        · exact fun holds => absurd gone holds
        · intro again
          cases again
        · exact overWaiting wired held (by simp)
        · exact fun some => absurd rfl some
        · exact fun _ => rfl
      · cases Option.some.inj taken
        exact wired
  · cases taken

theorem cancelWired {s t : Exchange Io} {mine : Nat} (wired : Wired s) (taken : cancel s mine = some t) : Wired t := by
  unfold cancel at taken
  split at taken
  · rename_i held
    have waits := (wired.waiting mine).mpr held
    cases Option.some.inj taken
    have same := connectedSet waits .dropped
    constructor
    · refine List.Perm.trans ?_ wired.whole
      simp only [places, dropReceiver, connected, Option.toList_none, List.append_nil, List.append_assoc]
      refine List.Perm.append_left _ ((same.append_right _).trans ?_)
      simp only [Call.io, connected, List.nil_append]
      rw [← List.append_assoc]
      exact List.perm_append_comm
    · exact wired.unasked
    · exact wired.sender
    · intro holds
      exact ⟨rfl, List.perm_nil.mp ((wired.unsent holds).2 ▸ same)⟩
    · intro again
      cases again
    · exact overWaiting wired held (by simp)
    · exact fun some => absurd rfl some
    · exact fun _ => rfl
  · cases taken

theorem forwardWired {s t : Exchange Io} (wired : Wired s) (taken : forward s = some t) : Wired t := by
  unfold forward at taken
  split at taken
  · rename_i task
    have holds : s.sender ≠ .gone := by rw [task]; simp
    obtain ⟨empty, nobody⟩ := wired.unsent holds
    split at taken
    · rename_i io resolved
      split at taken
      · rename_i away
        cases Option.some.inj taken
        exact {wired with
          whole := by
            refine List.Perm.trans ?_ wired.whole
            simp only [places, connected, resolved, OnUpgrade.io, Option.toList_some, List.nil_append, ← List.append_assoc]
            exact List.perm_append_comm
          unasked := fun pending => by cases pending
          sender := ⟨fun _ => rfl, fun _ => rfl⟩
          unsent := fun kept => absurd rfl kept}
      · rename_i there
        cases Option.some.inj taken
        exact {wired with
          whole := by
            refine List.Perm.trans ?_ wired.whole
            simp only [places, connected, resolved, empty, OnUpgrade.io, Option.toList_some, Option.toList_none,
              List.nil_append, List.append_nil]
            exact .refl _
          unasked := fun pending => by cases pending
          sender := ⟨fun _ => rfl, fun _ => rfl⟩
          unsent := fun kept => absurd rfl kept
          awaited := fun _ => there}
    · rename_i resolved
      cases Option.some.inj taken
      exact {wired with
        whole := by
          refine List.Perm.trans ?_ wired.whole
          simp only [places, connected, resolved, OnUpgrade.io, Option.toList_none]
          exact .refl _
        unasked := fun pending => by cases pending
        sender := ⟨fun _ => rfl, fun _ => rfl⟩
        unsent := fun kept => absurd rfl kept}
    · cases taken
  · cases taken

theorem stepWired (s : Exchange Io) (a : Act Io) (t : Exchange Io) (wired : Wired s) (taken : step s a = some t) : Wired t := by
  cases a with
  | clone =>
    simp only [step, Option.ite_none_left_eq_some, Option.some.injEq] at taken
    obtain ⟨-, rfl⟩ := taken
    exact {wired with shared := fun _ => Nat.succ_pos _}
  | discard =>
    simp only [step, Option.ite_none_left_eq_some, Option.some.injEq] at taken
    obtain ⟨-, rfl⟩ := taken
    exact dropCarrierWired wired
  | on carries => exact onWired wired taken
  | poll call => exact pollWired wired taken
  | cancel call => exact cancelWired wired taken
  | respond =>
    simp only [step, Option.ite_none_right_eq_some, Option.some.injEq] at taken
    obtain ⟨service, rfl⟩ := taken
    have holds : s.sender ≠ .gone := by rw [service]; simp
    exact {wired with
      sender := ⟨fun gone => (by cases gone), fun gone => absurd (wired.sender.mpr gone) holds⟩
      unsent := fun _ => wired.unsent holds}
  | resolve io =>
    simp only [step] at taken
    split at taken
    · rename_i pending
      cases Option.some.inj taken
      have holds : s.sender ≠ .gone := fun gone => by
        rw [wired.sender.mp gone] at pending
        cases pending
      have before := wired.whole
      rw [wired.unasked pending, Option.toList_none, List.perm_nil] at before
      simp only [places, pending, OnUpgrade.io, List.nil_append] at before
      exact {wired with
        whole := by
          simp only [places, connected, OnUpgrade.io, List.append_assoc] at before ⊢
          rw [before, List.append_nil]
        unasked := fun again => by cases again
        sender := ⟨fun gone => absurd gone holds, fun gone => (by cases gone)⟩}
    · cases taken
  | forward => exact forwardWired wired taken
  | abandon =>
    simp only [step, Option.ite_none_left_eq_some, Option.some.injEq] at taken
    obtain ⟨-, rfl⟩ := taken
    exact {wired with
      whole := by
        refine List.Perm.trans ?_ wired.whole
        simp only [places, connected, OnUpgrade.io, List.nil_append, ← List.append_assoc]
        refine List.perm_append_comm.trans ?_
        simp only [List.append_assoc]
        exact .refl _
      unasked := fun pending => by cases pending
      sender := ⟨fun _ => rfl, fun _ => rfl⟩
      unsent := fun kept => absurd rfl kept}

theorem runWired {allowed : Exchange Io → Act Io → Prop} {s t : Exchange Io} (run : Run step allowed s t) (wired : Wired s) :
    Wired t :=
  runInvariant (fun s a t _ => stepWired s a t) run wired

def answer (s : Exchange Io) : Call Io :=
  match s.channel with
  | some io => .upgraded io
  | none => .failed awaitError

theorem pollAnswers {s : Exchange Io} {call : Nat} (wired : Wired s) (waits : s.calls[call]? = some .waiting)
    (gone : s.sender = .gone) : step s (.poll call) = some (finish s call (answer s)) := by
  have held := (wired.waiting call).mp waits
  cases sent : s.channel with
  | none => simp only [step, poll, held, sent, gone, answer, if_true]
  | some io => simp only [step, poll, held, sent, answer, if_true]

def responds : Act Io → Bool
  | .respond => true
  | _ => false

structure Unanswered (s : Exchange Io) : Prop where
  sender : s.sender ≠ .task
  channel : s.channel = none
  connected : connected s = []

theorem unansweredStep (s : Exchange Io) (a : Act Io) (t : Exchange Io) (wired : Wired s) (quiet : responds a = false)
    (before : Unanswered s) (taken : step s a = some t) : Unanswered t := by
  cases a with
  | respond => cases quiet
  | clone =>
    simp only [step, Option.ite_none_left_eq_some, Option.some.injEq] at taken
    obtain ⟨-, rfl⟩ := taken
    exact {before with}
  | discard =>
    simp only [step, Option.ite_none_left_eq_some, Option.some.injEq] at taken
    obtain ⟨-, rfl⟩ := taken
    unfold dropCarrier
    simp only
    split
    · exact {before with channel := rfl}
    · exact {before with}
  | on carries =>
    simp only [step, on] at taken
    split at taken
    · cases Option.some.inj taken
      exact {before with connected := (connectedAppend _ rfl).trans before.connected}
    split at taken
    · cases taken
    split at taken
    · cases Option.some.inj taken
      exact {before with connected := (connectedAppend _ rfl).trans before.connected}
    · cases Option.some.inj taken
      exact {before with connected := (connectedAppend _ rfl).trans before.connected}
  | poll call =>
    simp only [step, poll, before.channel] at taken
    split at taken
    · rename_i held
      split at taken
      · cases Option.some.inj taken
        have same := connectedSet ((wired.waiting call).mpr held) (.failed awaitError)
        rw [before.connected] at same
        exact ⟨before.sender, rfl, List.perm_nil.mp same⟩
      · cases Option.some.inj taken
        exact before
    · cases taken
  | cancel call =>
    simp only [step, cancel] at taken
    split at taken
    · rename_i held
      cases Option.some.inj taken
      have same := connectedSet ((wired.waiting call).mpr held) .dropped
      rw [before.connected] at same
      exact ⟨before.sender, rfl, List.perm_nil.mp same⟩
    · cases taken
  | resolve io =>
    simp only [step] at taken
    split at taken
    · cases Option.some.inj taken
      exact {before with}
    · cases taken
  | forward => simp only [step, forward, before.sender, if_false, reduceCtorEq] at taken
  | abandon =>
    simp only [step, Option.ite_none_left_eq_some, Option.some.injEq] at taken
    obtain ⟨-, rfl⟩ := taken
    exact ⟨by simp, before.channel, before.connected⟩

/-- Whatever the interleaving, one call of `on` at most gets the connection, and it is the
one hyper gave for this request. -/
theorem upgradeHandedOnce (upgradable : Bool) (s : Exchange Io) (run : Run step (fun _ _ => True) (called upgradable) s) :
    (places s).Perm s.given.toList ∧ (connected s).length ≤ 1 ∧ (∀ io ∈ connected s, s.given = some io) ∧
      ∀ call, s.calls[call]? = some .waiting → s.sender = .gone → step s (.poll call) = some (finish s call (answer s)) := by
  have wired := runWired run (calledWired upgradable)
  have few : (places s).length ≤ 1 := by
    rw [wired.whole.length_eq]
    cases s.given <;> simp
  refine ⟨wired.whole, ?_, fun io among => ?_, fun call waits gone => pollAnswers wired waits gone⟩
  · simp only [places, List.length_append] at few
    omega
  · have inside : io ∈ places s := by simp [places, among]
    exact Option.mem_toList.mp (wired.whole.mem_iff.mp inside)

def handed : List (Act Nat) := [.clone, .on true, .on true, .respond, .resolve (some 7), .forward]

theorem upgradeHandedOnceTwice : ∃ s : Exchange Nat, exec step (called true) (handed ++ [.poll 0]) = some s ∧
    s.calls = [.upgraded 7, .failed channelMissing] ∧ (connected s).length ≤ 1 :=
  ⟨_, rfl, rfl, (upgradeHandedOnce true _ (execRun (handed ++ [.poll 0]) rfl)).2.1⟩

theorem noUpgradeBeforeResponse (upgradable : Bool) (s : Exchange Io)
    (run : Run step (fun _ a => responds a = false) (called upgradable) s) : connected s = [] := by
  have kept := runInvariant (P := fun s => Wired s ∧ Unanswered s)
    (fun s a t quiet both taken => ⟨stepWired s a t both.1 taken, unansweredStep s a t both.1 quiet both.2 taken⟩) run
    ⟨calledWired upgradable, by cases upgradable <;> exact ⟨by simp [called], rfl, rfl⟩⟩
  exact kept.2.connected

theorem noUpgradeBeforeResponseWaiting : ∃ s : Exchange Nat, exec step (called true) [.on true, .resolve (some 7), .poll 0] = some s ∧
    s.calls = [.waiting] ∧ connected s = [] :=
  ⟨_, rfl, rfl, noUpgradeBeforeResponse true _ (alongRun [.on true, .resolve (some 7), .poll 0] rfl (by decide))⟩

def keeps (s : Exchange Io) : Act Io → Bool
  | .discard => s.receiver ≠ .shared || 1 < s.carriers
  | .cancel _ => false
  | .abandon => false
  | _ => true

structure Kept (s : Exchange Io) : Prop where
  none : s.lost = []
  receiver : s.receiver = .gone → s.sender = .gone

theorem stepKept (s : Exchange Io) (a : Act Io) (t : Exchange Io) (wired : Wired s) (fine : keeps s a = true) (kept : Kept s)
    (taken : step s a = some t) : Kept t := by
  cases a with
  | cancel call => cases fine
  | abandon => cases fine
  | clone =>
    simp only [step, Option.ite_none_left_eq_some, Option.some.injEq] at taken
    obtain ⟨-, rfl⟩ := taken
    exact {kept with}
  | discard =>
    simp only [step, Option.ite_none_left_eq_some, Option.some.injEq] at taken
    obtain ⟨-, rfl⟩ := taken
    have more : ¬ (s.carriers - 1 = 0 ∧ s.receiver = .shared) := by
      rintro ⟨last, shared⟩
      simp only [keeps, shared, ne_eq, not_true_eq_false, decide_false, Bool.false_or, decide_eq_true_eq] at fine
      omega
    simp only [dropCarrier, more, if_false]
    exact {kept with}
  | on carries =>
    simp only [step, on] at taken
    split at taken
    · cases Option.some.inj taken
      exact {kept with}
    split at taken
    · cases taken
    split at taken
    · cases Option.some.inj taken
      exact ⟨kept.none, fun gone => by cases gone⟩
    · cases Option.some.inj taken
      exact {kept with}
  | poll call =>
    simp only [step, poll] at taken
    split at taken
    · split at taken
      · rename_i io sent
        cases Option.some.inj taken
        refine ⟨kept.none, fun _ => ?_⟩
        by_contra holds
        rw [(wired.unsent holds).1] at sent
        cases sent
      · split at taken
        · rename_i gone
          cases Option.some.inj taken
          exact ⟨kept.none, fun _ => gone⟩
        · cases Option.some.inj taken
          exact kept
    · cases taken
  | respond =>
    simp only [step, Option.ite_none_right_eq_some, Option.some.injEq] at taken
    obtain ⟨service, rfl⟩ := taken
    refine ⟨kept.none, fun gone => ?_⟩
    rw [kept.receiver gone] at service
    cases service
  | resolve io =>
    simp only [step] at taken
    split at taken
    · cases Option.some.inj taken
      exact {kept with}
    · cases taken
  | forward =>
    simp only [step, forward] at taken
    split at taken
    · rename_i task
      split at taken
      · split at taken
        · rename_i gone
          rw [kept.receiver gone] at task
          cases task
        · cases Option.some.inj taken
          exact ⟨kept.none, fun _ => rfl⟩
      · cases Option.some.inj taken
        exact ⟨kept.none, fun _ => rfl⟩
      · cases taken
    · cases taken

theorem givenAlone {xs : List Io} {given : Option Io} (same : xs.Perm given.toList) : xs = given.toList := by
  cases given with
  | none => exact List.perm_nil.mp same
  | some io => exact List.perm_singleton.mp same

theorem upgradeNeverLost (upgradable : Bool) (s : Exchange Io) (run : Run step (fun s a => keeps s a = true) (called upgradable) s) :
    s.lost = [] ∧ s.onUpgrade.io ++ s.channel.toList ++ connected s = s.given.toList ∧
      ∀ io call, s.given = some io → s.calls[call]? = some .waiting → s.sender = .gone →
        step s (.poll call) = some (finish s call (.upgraded io)) := by
  have wired := runWired run (calledWired upgradable)
  have kept := runInvariant (P := fun s => Wired s ∧ Kept s)
    (fun s a t fine both taken => ⟨stepWired s a t both.1 taken, stepKept s a t both.1 fine both.2 taken⟩) run
    ⟨calledWired upgradable, by cases upgradable <;> exact ⟨rfl, by simp [called]⟩⟩
  have placed : s.onUpgrade.io ++ s.channel.toList ++ connected s = s.given.toList := by
    have whole := wired.whole
    rw [places, kept.2.none, List.append_nil] at whole
    exact givenAlone whole
  refine ⟨kept.2.none, placed, fun io call given waits gone => ?_⟩
  have held := (wired.waiting call).mp waits
  have nobody : connected s = [] := by
    by_contra some
    rw [wired.ended some] at held
    cases held
  rw [nobody, wired.sender.mp gone, given] at placed
  have sent : s.channel = some io := by
    cases channel : s.channel with
    | none => simp [channel, OnUpgrade.io] at placed
    | some other => simpa [channel, OnUpgrade.io] using placed
  rw [pollAnswers wired waits gone, answer, sent]

theorem upgradeNeverLostHanded : ∃ s : Exchange Nat, exec step (called true) handed = some s ∧ s.lost = [] ∧
    step s (.poll 0) = some (finish s 0 (.upgraded 7)) :=
  have along := upgradeNeverLost true _ (alongRun handed rfl (by decide))
  ⟨_, rfl, along.1, along.2.2 7 0 rfl rfl rfl⟩

end Silent.WebSocketUpgrade
