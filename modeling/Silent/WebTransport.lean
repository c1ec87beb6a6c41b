import Silent.ByteText

/-! The datagram side of `WebTransportStream`. The clock is read by whoever calls, and what
the connection answers is given with the call; the metrics counters are left out. Instants
are nanoseconds. -/
namespace Silent.WebTransport
open ByteText

def u64Max : Nat := 18446744073709551615

structure U64 where
  val : Nat
  fits : val ≤ u64Max

abbrev Bytes := List UInt8

structure WebTransportStream where
  maxFrameSize : Option Nat
  maxDatagramSize : Option Nat
  datagramPerSec : Option U64
  datagramTokens : Nat
  lastRefill : Nat
  recordDrop : Bool
  conn : Bool

def WebTransportStream.new (now : Nat) (maxFrameSize maxDatagramSize : Option Nat) (datagramPerSec : Option U64)
    (recordDrop conn : Bool) : WebTransportStream :=
  ⟨maxFrameSize, maxDatagramSize, datagramPerSec, (datagramPerSec.map U64.val).getD 0, now, recordDrop, conn⟩

-- A sum past `u64::MAX` panics in a build with overflow checks and wraps in one without.
def plainAdd (checks : Bool) (a b : Nat) : Option Nat :=
  if a + b ≤ u64Max then some (a + b) else if checks then none else some ((a + b) % (u64Max + 1))

def saturatingMul (a b : Nat) : Nat := min (a * b) u64Max

def second : Nat := 1000000000

def asSecs (duration : Nat) : Nat := duration / second

-- A subtraction of `Nat` is `saturating_duration_since`.
def refill (checks : Bool) (now : Nat) (self : WebTransportStream) : Option WebTransportStream :=
  match self.datagramPerSec with
  | none => some self
  | some rate =>
      let elapsed := now - self.lastRefill
      let refill := saturatingMul rate.val (asSecs elapsed)
      (plainAdd checks self.datagramTokens refill).map fun sum =>
        {self with datagramTokens := min sum rate.val, lastRefill := now}

def exceeds (limit : Option Nat) (data : Bytes) : Bool :=
  match limit with
  | some max => max < data.length
  | none => false

def takeToken (self : WebTransportStream) : Option WebTransportStream :=
  match self.datagramPerSec with
  | none => some self
  | some _ => if self.datagramTokens = 0 then none else some {self with datagramTokens := self.datagramTokens - 1}

inductive DataRead where
  | data (buf : Bytes)
  | finished
  | failed (err : Text)

def recvData (checks : Bool) (now : Nat) (self : WebTransportStream) :
    DataRead → Option (WebTransportStream × Except Text (Option Bytes))
  | .failed err => some (self, .error err)
  | .finished => (refill checks now self).map ((·, .ok none))
  | .data buf =>
      (refill checks now self).map fun self =>
        (self, if exceeds self.maxFrameSize buf then .error "WebTransport frame exceeds limit".toList else .ok (some buf))

def datagramTooLarge : Text := "Datagram frame exceeds limit".toList

def rateLimited : Text := "Datagram rate limited".toList

def notSupported : Text := "Datagram not supported by connection".toList

def send (data : Bytes) (sent : Except Text Unit) (self : WebTransportStream) : WebTransportStream × Except Text Unit :=
  if exceeds self.maxDatagramSize data then (self, .error datagramTooLarge)
  else
    match takeToken self with
    | none => (self, .error rateLimited)
    | some self =>
        (self,
          if self.conn then
            match sent with
            | .ok () => .ok ()
            | .error err => .error ("Datagram send failed: ".toList ++ err)
          else .error notSupported)

def trySendDatagram (checks : Bool) (now : Nat) (self : WebTransportStream) (data : Bytes) (sent : Except Text Unit) :
    Option (WebTransportStream × Except Text Unit) :=
  (refill checks now self).map (send data sent)

inductive ConnectionError where
  | applicationClosed
  | locallyClosed
  | other (err : Text)

def receive (self : WebTransportStream) : Except ConnectionError Bytes → WebTransportStream × Except Text (Option Bytes)
  | .error .applicationClosed => (self, .ok none)
  | .error .locallyClosed => (self, .ok none)
  | .error (.other err) => (self, .error ("Datagram recv failed: ".toList ++ err))
  | .ok raw =>
      if exceeds self.maxDatagramSize raw then (self, if self.recordDrop then .ok none else .error datagramTooLarge)
      else
        match takeToken self with
        | none => (self, if self.recordDrop then .ok none else .error rateLimited)
        | some self => (self, .ok (some raw))

def recvDatagram (checks : Bool) (now : Nat) (self : WebTransportStream) (read : Except ConnectionError Bytes) :
    Option (WebTransportStream × Except Text (Option Bytes)) :=
  if self.conn then (refill checks now self).map (receive · read) else some (self, .error notSupported)

def Within (self : WebTransportStream) : Prop := ∀ rate ∈ self.datagramPerSec, self.datagramTokens ≤ rate.val

def Full (self : WebTransportStream) : Prop := ∀ rate ∈ self.datagramPerSec, self.datagramTokens = rate.val

structure SameLimits (before after : WebTransportStream) : Prop where
  maxFrameSize : after.maxFrameSize = before.maxFrameSize
  maxDatagramSize : after.maxDatagramSize = before.maxDatagramSize
  datagramPerSec : after.datagramPerSec = before.datagramPerSec
  recordDrop : after.recordDrop = before.recordDrop
  conn : after.conn = before.conn

section
variable {checks : Bool} {now : Nat} {self after : WebTransportStream}

theorem sameLimitsRefl (self : WebTransportStream) : SameLimits self self := ⟨rfl, rfl, rfl, rfl, rfl⟩

theorem refillLimits (refilled : refill checks now self = some after) : SameLimits self after := by
  unfold refill at refilled
  split at refilled
  · cases refilled
    exact sameLimitsRefl self
  · obtain ⟨sum, -, rfl⟩ := Option.map_eq_some_iff.mp refilled
    exact ⟨rfl, rfl, rfl, rfl, rfl⟩

theorem refillReads {rate : U64} (limited : self.datagramPerSec = some rate) (refilled : refill checks now self = some after) :
    after.lastRefill = now := by
  unfold refill at refilled
  rw [limited] at refilled
  obtain ⟨sum, -, rfl⟩ := Option.map_eq_some_iff.mp refilled
  rfl

theorem newFull (now : Nat) (maxFrameSize maxDatagramSize : Option Nat) (datagramPerSec : Option U64) (recordDrop conn : Bool) :
    Full (.new now maxFrameSize maxDatagramSize datagramPerSec recordDrop conn) := by
  intro rate limited
  cases Option.mem_def.mp limited
  rfl

theorem fullWithin (full : Full self) : Within self := fun rate limited => Nat.le_of_eq (full rate limited)

theorem refillWithin (refilled : refill checks now self = some after) : Within after := by
  intro rate limited
  rw [(refillLimits refilled).datagramPerSec] at limited
  unfold refill at refilled
  rw [Option.mem_def.mp limited] at refilled
  obtain ⟨sum, -, rfl⟩ := Option.map_eq_some_iff.mp refilled
  exact Nat.min_le_right _ _

structure Spent (before after : WebTransportStream) : Prop extends SameLimits before after where
  lastRefill : after.lastRefill = before.lastRefill
  less : after.datagramTokens ≤ before.datagramTokens

theorem spentNothing (self : WebTransportStream) : Spent self self := ⟨sameLimitsRefl self, rfl, Nat.le_refl _⟩

theorem takenSpent (taken : takeToken self = some after) : Spent self after := by
  unfold takeToken at taken
  split at taken
  · cases taken
    exact spentNothing self
  · split at taken
    · cases taken
    · cases taken
      exact ⟨⟨rfl, rfl, rfl, rfl, rfl⟩, rfl, Nat.sub_le _ _⟩

theorem sendSpent (data : Bytes) (sent : Except Text Unit) (self : WebTransportStream) : Spent self (send data sent self).1 := by
  unfold send
  split
  · exact spentNothing self
  · split
    · exact spentNothing self
    · rename_i taken
      exact takenSpent taken

theorem receiveSpent (self : WebTransportStream) (read : Except ConnectionError Bytes) : Spent self (receive self read).1 := by
  unfold receive
  split
  · exact spentNothing self
  · exact spentNothing self
  · exact spentNothing self
  · split
    · exact spentNothing self
    · split
      · exact spentNothing self
      · rename_i taken
        exact takenSpent taken

theorem spentWithin (within : Within self) (spent : Spent self after) : Within after := by
  intro rate limited
  rw [spent.datagramPerSec] at limited
  exact Nat.le_trans spent.less (within rate limited)

theorem sumFits {tokens rate secs : Nat} :
    tokens + saturatingMul rate secs ≤ u64Max ↔ tokens = 0 ∨ tokens + rate * secs ≤ u64Max := by
  unfold saturatingMul
  omega

theorem refillSome (fits : ∀ rate ∈ self.datagramPerSec,
    self.datagramTokens + saturatingMul rate.val (asSecs (now - self.lastRefill)) ≤ u64Max) :
    ∃ after, refill checks now self = some after := by
  unfold refill
  split
  · exact ⟨self, rfl⟩
  · rename_i rate limited
    simp only [plainAdd, if_pos (fits rate limited)]
    exact ⟨_, rfl⟩

theorem fullAt {rate : U64} (limited : self.datagramPerSec = some rate) : Full self ↔ self.datagramTokens = rate.val := by
  constructor
  · exact fun full => full rate limited
  · intro same other given
    cases Option.some.inj (limited.symm.trans given)
    exact same

theorem refillTokens {rate : U64} (limited : self.datagramPerSec = some rate)
    (fits : self.datagramTokens + saturatingMul rate.val (asSecs (now - self.lastRefill)) ≤ u64Max)
    (refilled : refill checks now self = some after) :
    after.datagramTokens = min (self.datagramTokens + saturatingMul rate.val (asSecs (now - self.lastRefill))) rate.val := by
  unfold refill at refilled
  rw [limited] at refilled
  simp only [plainAdd, if_pos fits] at refilled
  cases refilled
  rfl

theorem refillFull {rate : U64} (limited : self.datagramPerSec = some rate) (within : Within self)
    (fits : self.datagramTokens + saturatingMul rate.val (asSecs (now - self.lastRefill)) ≤ u64Max)
    (refilled : refill checks now self = some after) : Full after ↔ Full self ∨ self.lastRefill + second ≤ now := by
  have below := within rate limited
  have capped := rate.fits
  have positive : 0 < second := by decide
  rw [fullAt limited, fullAt ((refillLimits refilled).datagramPerSec.trans limited), refillTokens limited fits refilled]
  unfold saturatingMul asSecs
  constructor
  · intro enough
    by_contra neither
    obtain ⟨short, recent⟩ := not_or.mp neither
    have noSecond : (now - self.lastRefill) / second = 0 := Nat.div_eq_of_lt (by omega)
    rw [noSecond, Nat.mul_zero] at enough
    omega
  · rintro (same | late)
    · omega
    · have one : 1 ≤ (now - self.lastRefill) / second := (Nat.one_le_div_iff (by decide)).mpr (by omega)
      have gained : rate.val * 1 ≤ rate.val * ((now - self.lastRefill) / second) := Nat.mul_le_mul_left _ one
      omega

end

end Silent.WebTransport
