import Silent.StepSystem
import Silent.WebTransport

/-! The datagram tokens of a stream over any sequence of calls and any readings of the clock.
A refill counts whole seconds since the last one and forgets the rest, so when the bucket is
full again depends on how often it was refilled in between. -/
namespace Silent.DatagramBucket
open ByteText StepSystem WebTransport

-- `recv_datagram` takes its token when the datagram arrives; its future may be dropped before.
inductive Call where
  | recvData (now : Nat) (read : DataRead)
  | trySendDatagram (now : Nat) (data : Bytes) (sent : Except Text Unit)
  | recvDatagram (now arrival : Nat) (read : Except ConnectionError Bytes)
  | abandonedRecv (now : Nat)

def Call.run (checks : Bool) (self : WebTransportStream) : Call → Option WebTransportStream
  | .recvData now read => (WebTransport.recvData checks now self read).map Prod.fst
  | .trySendDatagram now data sent => (WebTransport.trySendDatagram checks now self data sent).map Prod.fst
  | .recvDatagram now _ read => (WebTransport.recvDatagram checks now self read).map Prod.fst
  | .abandonedRecv now => if self.conn then refill checks now self else some self

def Call.refillsAt (self : WebTransportStream) : Call → Option Nat
  | .recvData _ (.failed _) => none
  | .recvData now _ => some now
  | .trySendDatagram now _ _ => some now
  | .recvDatagram now _ _ => if self.conn then some now else none
  | .abandonedRecv now => if self.conn then some now else none

def Call.refilled (checks : Bool) (self : WebTransportStream) (c : Call) : Option WebTransportStream :=
  (c.refillsAt self).bind (refill checks · self)

def Call.takesAt : Call → Nat
  | .recvData now _ => now
  | .trySendDatagram now _ _ => now
  | .recvDatagram _ arrival _ => arrival
  | .abandonedRecv now => now

structure System where
  stream : WebTransportStream
  lastTaken : Nat

def opened (now : Nat) (maxFrameSize maxDatagramSize : Option Nat) (datagramPerSec : Option U64) (recordDrop conn : Bool) : System :=
  ⟨.new now maxFrameSize maxDatagramSize datagramPerSec recordDrop conn, now⟩

def Call.takes (checks : Bool) (self after : WebTransportStream) (c : Call) : Bool :=
  (c.refilled checks self).any (after.datagramTokens < ·.datagramTokens)

def step (checks : Bool) (s : System) (c : Call) : Option System :=
  (c.run checks s.stream).map fun after => ⟨after, if c.takes checks s.stream after then c.takesAt else s.lastTaken⟩

/- What a call has to do: the bucket holds no more than its rate, the sum is a `u64`, and a
refill fills the bucket if no token was taken for a second. -/
structure Lawful (checks : Bool) (s : System) (c : Call) : Prop where
  within : ∃ t, step checks s c = some t ∧ Within t.stream
  sum : ∀ now ∈ c.refillsAt s.stream, ∀ rate ∈ s.stream.datagramPerSec,
    s.stream.datagramTokens + saturatingMul rate.val (asSecs (now - s.stream.lastRefill)) ≤ u64Max
  full : ∀ now ∈ c.refillsAt s.stream, s.lastTaken + second ≤ now → ∃ refilled, refill checks now s.stream = some refilled ∧ Full refilled

structure Timely (s : System) (c : Call) : Prop where
  bounded : ∀ now ∈ c.refillsAt s.stream, ∀ rate ∈ s.stream.datagramPerSec,
    s.stream.datagramTokens = 0 ∨ s.stream.datagramTokens + rate.val * asSecs (now - s.stream.lastRefill) ≤ u64Max
  whole : ∀ now ∈ c.refillsAt s.stream, s.lastTaken + second ≤ now → Full s.stream ∨ s.stream.lastRefill + second ≤ now

section
variable {checks : Bool}

inductive Ran (checks : Bool) (self : WebTransportStream) (c : Call) : WebTransportStream → Prop
  | idle (unfilled : c.refillsAt self = none) : Ran checks self c self
  | refilled {now refilled after} (reading : c.refillsAt self = some now) (filled : refill checks now self = some refilled)
      (spent : Spent refilled after) : Ran checks self c after

section
variable {self after : WebTransportStream} {c : Call}

theorem ran (run : c.run checks self = some after) : Ran checks self c after := by
  cases c with
  | recvData now read =>
    cases read with
    | failed err =>
      cases run
      exact .idle rfl
    | finished =>
      simp only [Call.run, recvData, Option.map_map, Option.map_eq_some_iff] at run
      obtain ⟨refilled, filled, rfl⟩ := run
      exact .refilled rfl filled (spentNothing refilled)
    | data buf =>
      simp only [Call.run, recvData, Option.map_map, Option.map_eq_some_iff] at run
      obtain ⟨refilled, filled, rfl⟩ := run
      exact .refilled rfl filled (spentNothing refilled)
  | trySendDatagram now data sent =>
    simp only [Call.run, trySendDatagram, Option.map_map, Option.map_eq_some_iff] at run
    obtain ⟨refilled, filled, rfl⟩ := run
    exact .refilled rfl filled (sendSpent data sent refilled)
  | recvDatagram now arrival read =>
    rw [Call.run, recvDatagram] at run
    by_cases conn : self.conn = true
    · rw [if_pos conn] at run
      simp only [Option.map_map, Option.map_eq_some_iff] at run
      obtain ⟨refilled, filled, rfl⟩ := run
      exact .refilled (if_pos conn) filled (receiveSpent refilled read)
    · rw [if_neg conn] at run
      cases run
      exact .idle (if_neg conn)
  | abandonedRecv now =>
    rw [Call.run] at run
    by_cases conn : self.conn = true
    · rw [if_pos conn] at run
      exact .refilled (if_pos conn) run (spentNothing after)
    · rw [if_neg conn] at run
      cases run
      exact .idle (if_neg conn)

theorem runSome (able : ∀ now ∈ c.refillsAt self, ∃ refilled, refill checks now self = some refilled) :
    ∃ after, c.run checks self = some after := by
  cases c with
  | recvData now read =>
    cases read with
    | failed err => exact ⟨self, rfl⟩
    | finished =>
      obtain ⟨refilled, filled⟩ := able now rfl
      exact ⟨refilled, by rw [Call.run, recvData, filled]; rfl⟩
    | data buf =>
      obtain ⟨refilled, filled⟩ := able now rfl
      exact ⟨refilled, by rw [Call.run, recvData, filled]; rfl⟩
  | trySendDatagram now data sent =>
    obtain ⟨refilled, filled⟩ := able now rfl
    exact ⟨_, by rw [Call.run, trySendDatagram, filled]; rfl⟩
  | recvDatagram now arrival read =>
    rw [Call.run, recvDatagram]
    by_cases conn : self.conn = true
    · obtain ⟨refilled, filled⟩ := able now (if_pos conn)
      exact ⟨_, by rw [if_pos conn, filled]; rfl⟩
    · exact ⟨self, by rw [if_neg conn]; rfl⟩
  | abandonedRecv now =>
    rw [Call.run]
    by_cases conn : self.conn = true
    · rw [if_pos conn]
      exact able now (if_pos conn)
    · exact ⟨self, if_neg conn⟩

theorem ranWithin (within : Within self) (moved : Ran checks self c after) : Within after := by
  cases moved with
  | idle unfilled => exact within
  | refilled reading filled spent => exact spentWithin (refillWithin filled) spent

end

theorem stepWithin (s : System) (c : Call) (t : System) (within : Within s.stream) (taken : step checks s c = some t) :
    Within t.stream := by
  obtain ⟨after, run, rfl⟩ := Option.map_eq_some_iff.mp taken
  exact ranWithin within (ran run)

theorem lawfulTimely (s : System) (c : Call) (within : Within s.stream) : Lawful checks s c ↔ Timely s c := by
  constructor
  · intro lawful
    constructor
    · exact fun now reading rate limited => sumFits.mp (lawful.sum now reading rate limited)
    · intro now reading quiet
      obtain ⟨refilled, filled, full⟩ := lawful.full now reading quiet
      cases limited : s.stream.datagramPerSec with
      | none => exact .inl fun rate given => by rw [limited] at given; cases given
      | some rate => exact (refillFull limited within (lawful.sum now reading rate limited) filled).mp full
  · intro timely
    have sum : ∀ now ∈ c.refillsAt s.stream, ∀ rate ∈ s.stream.datagramPerSec,
        s.stream.datagramTokens + saturatingMul rate.val (asSecs (now - s.stream.lastRefill)) ≤ u64Max :=
      fun now reading rate limited => sumFits.mpr (timely.bounded now reading rate limited)
    have filled : ∀ now ∈ c.refillsAt s.stream, ∃ refilled, refill checks now s.stream = some refilled :=
      fun now reading => refillSome (sum now reading)
    refine ⟨?_, sum, ?_⟩
    · obtain ⟨after, run⟩ := runSome filled
      exact ⟨_, by rw [step, run]; rfl, ranWithin within (ran run)⟩
    · intro now reading quiet
      obtain ⟨refilled, gained⟩ := filled now reading
      refine ⟨refilled, gained, ?_⟩
      cases limited : s.stream.datagramPerSec with
      | none => exact fun rate given => by rw [(refillLimits gained).datagramPerSec, limited] at given; cases given
      | some rate => exact (refillFull limited within (sum now reading rate limited) gained).mpr (timely.whole now reading quiet)

theorem refilledUnlessSplit (checks : Bool) (start : Nat) (maxFrameSize maxDatagramSize : Option Nat) (datagramPerSec : Option U64)
    (recordDrop conn : Bool) (calls : List Call) :
    Along (step checks) (Lawful checks) (opened start maxFrameSize maxDatagramSize datagramPerSec recordDrop conn) calls ↔
      Along (step checks) Timely (opened start maxFrameSize maxDatagramSize datagramPerSec recordDrop conn) calls :=
  alongCongr (P := fun s => Within s.stream) stepWithin lawfulTimely calls
    (fullWithin (newFull start maxFrameSize maxDatagramSize datagramPerSec recordDrop conn))

/- No part of a second is forgotten: a refill comes with the last one or a second later, or
finds the bucket full. -/
structure Unhurried (s : System) (c : Call) : Prop where
  bounded : ∀ now ∈ c.refillsAt s.stream, ∀ rate ∈ s.stream.datagramPerSec,
    s.stream.datagramTokens = 0 ∨ s.stream.datagramTokens + rate.val * asSecs (now - s.stream.lastRefill) ≤ u64Max
  apart : ∀ now ∈ c.refillsAt s.stream, now = s.stream.lastRefill ∨ s.stream.lastRefill + second ≤ now ∨ Full s.stream
  forward : ∀ now ∈ c.refillsAt s.stream, now ≤ c.takesAt

structure Accounted (s : System) : Prop where
  within : Within s.stream
  since : Full s.stream ∨ s.stream.lastRefill ≤ s.lastTaken

theorem accountedStep (s : System) (c : Call) (t : System) (unhurried : Unhurried s c) (accounted : Accounted s)
    (taken : step checks s c = some t) : Accounted t := by
  refine ⟨stepWithin s c t accounted.within taken, ?_⟩
  obtain ⟨after, run, rfl⟩ := Option.map_eq_some_iff.mp taken
  cases ran run with
  | idle unfilled =>
    have idle : c.takes checks s.stream s.stream = false := by rw [Call.takes, Call.refilled, unfilled]; rfl
    dsimp only
    rw [idle]
    exact accounted.since
  | @refilled now refilled after reading filled spent =>
    have found : c.refilled checks s.stream = some refilled := by rw [Call.refilled, reading]; exact filled
    have takes : c.takes checks s.stream after = decide (after.datagramTokens < refilled.datagramTokens) := by
      rw [Call.takes, found]
      rfl
    dsimp only
    rw [takes]
    cases limited : s.stream.datagramPerSec with
    | none =>
      refine .inl fun rate given => ?_
      rw [spent.datagramPerSec, (refillLimits filled).datagramPerSec, limited] at given
      cases given
    | some rate =>
      have reads : after.lastRefill = now := spent.lastRefill.trans (refillReads limited filled)
      by_cases fewer : after.datagramTokens < refilled.datagramTokens
      · rw [decide_eq_true fewer, reads]
        exact .inr (unhurried.forward now reading)
      · rw [decide_eq_false fewer, reads]
        have alike : Full after ↔ Full refilled := by
          have same := (refillLimits filled).datagramPerSec.trans limited
          have less := spent.less
          rw [fullAt (spent.datagramPerSec.trans same), fullAt same]
          omega
        rw [alike, refillFull limited accounted.within (sumFits.mpr (unhurried.bounded now reading rate limited)) filled]
        rcases unhurried.apart now reading with same | late | full
        · exact accounted.since.imp .inl fun before => same ▸ before
        · exact .inl (.inr late)
        · exact .inl (.inl full)

theorem unhurriedTimely (start : Nat) (maxFrameSize maxDatagramSize : Option Nat) (datagramPerSec : Option U64)
    (recordDrop conn : Bool) (calls : List Call)
    (unhurried : Along (step checks) Unhurried (opened start maxFrameSize maxDatagramSize datagramPerSec recordDrop conn) calls) :
    Along (step checks) Timely (opened start maxFrameSize maxDatagramSize datagramPerSec recordDrop conn) calls := by
  have full := newFull start maxFrameSize maxDatagramSize datagramPerSec recordDrop conn
  refine alongMono accountedStep ?_ calls ⟨fullWithin full, .inl full⟩ unhurried
  intro s c accounted allowed
  refine ⟨allowed.bounded, fun now reading quiet => ?_⟩
  rcases accounted.since with held | before
  · exact .inl held
  · exact .inr (by omega)

end

def one : U64 := ⟨1, by decide⟩

def most : U64 := ⟨u64Max, Nat.le_refl _⟩

def splitSecond : List Call :=
  [.trySendDatagram 0 [] (.ok ()), .recvData 600000000 .finished, .recvData 1200000000 .finished]

theorem fractionsForgotten :
    ¬Along (step true) (Lawful true) (opened 0 none none (some one) false true) splitSecond ∧
      ¬Along (step true) (Lawful true) (opened 0 none none (some most) false true) [.recvData second .finished] := by
  constructor
  · intro along
    have third := ((along.2 _ rfl).2 _ rfl).1
    obtain ⟨refilled, filled, full⟩ := third.full 1200000000 rfl (by decide)
    cases filled
    exact absurd (full one rfl) (by decide)
  · intro along
    exact absurd (along.1.sum second rfl most rfl) (by decide)

end Silent.DatagramBucket
