import Mathlib.Data.Rat.Floor
import Mathlib.Tactic.Linarith
import Silent.StepSystem

/-! The rate limiter middleware: a bucket of tokens behind a lock, refilled lazily when a
request comes. Floating point numbers are read as rationals. A rejected request takes
the lock a second time to compute its `Retry-After`, and others may come in between. -/
namespace Silent.RequestLimiter
open StepSystem

structure RateLimiter where
  tokens : ℚ
  lastRefill : ℚ
  rate : ℚ
  capacity : ℕ
  deriving DecidableEq, Repr

def new (rate : ℚ) (capacity : ℕ) (now : ℚ) : RateLimiter := ⟨capacity, now, rate, capacity⟩

def refill (self : RateLimiter) (now : ℚ) : RateLimiter :=
  let elapsed := now - self.lastRefill
  if 0 < elapsed then
    {self with tokens := min (self.tokens + elapsed * self.rate) self.capacity, lastRefill := now}
  else self

def tryAcquire (self : RateLimiter) (now : ℚ) : Bool × RateLimiter :=
  let state := refill self now
  if 1 ≤ state.tokens then (true, {state with tokens := state.tokens - 1}) else (false, state)

def u64Max : ℕ := 18446744073709551615

/- The numbers from zero on that an `f64` holds. -/
def F64 (x : ℚ) : Prop := ∃ (m : ℕ) (e : ℤ), m < 2 ^ 53 ∧ -1074 ≤ e ∧ e ≤ 971 ∧ x = m * 2 ^ e

def ceilAsU64 (x : ℚ) : ℕ := min ⌈x⌉₊ u64Max

def retryAfterSecs (self : RateLimiter) : ℕ :=
  let deficit := 1 - self.tokens
  if deficit ≤ 0 then 0
  else if self.rate = 0 then u64Max -- the quotient is infinite
  else ceilAsU64 (deficit / self.rate)

/- Requests in `handle`: `rejected` are those between the two locks. The clock only goes
forward, and it is read under the lock. `admitted` and `answers` record what has happened:
when a request went on to `next`, and which request was answered with which
`Retry-After`. -/
structure System where
  limiter : RateLimiter
  now : ℚ
  rejected : List ℕ
  admitted : List ℚ
  answers : List (ℕ × ℕ)
  deriving DecidableEq

inductive Step where
  | advance (instant : ℚ)
  | acquire (id : ℕ)
  | answer (id : ℕ)
  deriving DecidableEq

def start (rate : ℚ) (capacity : ℕ) (now : ℚ) : System := ⟨new rate capacity now, now, [], [], []⟩

def step (s : System) : Step → Option System
  | .advance instant => if s.now ≤ instant then some {s with now := instant} else none
  | .acquire id =>
      if id ∈ s.rejected then none
      else
        match tryAcquire s.limiter s.now with
        | (true, limiter) => some {s with limiter := limiter, admitted := s.now :: s.admitted}
        | (false, limiter) => some {s with limiter := limiter, rejected := id :: s.rejected}
  | .answer id =>
      if id ∈ s.rejected then
        some {s with
          rejected := s.rejected.erase id
          answers := (id, max (retryAfterSecs s.limiter) 1) :: s.answers}
      else none

def admittedIn (s : System) (a b : ℚ) : ℕ := (s.admitted.filter (fun at_ => a ≤ at_ ∧ at_ ≤ b)).length

structure Bucket (rate : ℚ) (capacity : ℕ) (limiter : RateLimiter) (now : ℚ) : Prop where
  sameRate : limiter.rate = rate
  sameCapacity : limiter.capacity = capacity
  nonneg : 0 ≤ limiter.tokens
  bounded : limiter.tokens ≤ capacity
  past : limiter.lastRefill ≤ now

section
variable {rate : ℚ} {capacity : ℕ} {limiter : RateLimiter} {now : ℚ}

theorem refillBucket (nonneg : 0 ≤ rate) (bucket : Bucket rate capacity limiter now) :
    Bucket rate capacity (refill limiter now) now ∧ (refill limiter now).lastRefill = now ∧
      (refill limiter now).tokens = min (limiter.tokens + (now - limiter.lastRefill) * rate) capacity := by
  obtain ⟨rate_, capacity_, low, high, past⟩ := bucket
  unfold refill
  dsimp only
  split
  · rename_i later
    have gain : 0 ≤ (now - limiter.lastRefill) * rate := mul_nonneg (le_of_lt later) nonneg
    refine ⟨⟨rate_, capacity_, ?_, ?_, le_refl _⟩, rfl, by rw [rate_, capacity_]⟩
    · exact le_min (by rw [rate_]; linarith) (by positivity)
    · exact (min_le_right _ _).trans (by rw [capacity_])
  · rename_i same
    have present : limiter.lastRefill = now := by linarith
    refine ⟨⟨rate_, capacity_, low, high, past⟩, present, ?_⟩
    rw [present, sub_self, zero_mul, add_zero, min_eq_left high]

theorem tryAcquireCases (nonneg : 0 ≤ rate) (bucket : Bucket rate capacity limiter now) :
    ∃ taken : ℚ, Bucket rate capacity (tryAcquire limiter now).2 now ∧ (tryAcquire limiter now).2.lastRefill = now ∧
      (tryAcquire limiter now).2.tokens = min (limiter.tokens + (now - limiter.lastRefill) * rate) capacity - taken ∧
      ((tryAcquire limiter now).1 = true ∧ taken = 1 ∨
        (tryAcquire limiter now).1 = false ∧ taken = 0 ∧
          min (limiter.tokens + (now - limiter.lastRefill) * rate) capacity < 1) := by
  obtain ⟨filled, present, amount⟩ := refillBucket nonneg bucket
  unfold tryAcquire
  dsimp only
  split
  · rename_i enough
    refine ⟨1, ⟨filled.sameRate, filled.sameCapacity, ?_, ?_, filled.past⟩, present, by rw [amount], .inl ⟨rfl, rfl⟩⟩
    · exact sub_nonneg.mpr enough
    · exact (sub_le_self _ zero_le_one).trans filled.bounded
  · rename_i short
    exact ⟨0, filled, present, by rw [amount, sub_zero], .inr ⟨rfl, rfl, by rw [← amount]; exact not_le.mp short⟩⟩

end

def isAcquire : Step → Bool
  | .acquire _ => true
  | _ => false

theorem stepCases {s t : System} {a : Step} (taken : step s a = some t) :
    (isAcquire a = false ∧ t.limiter = s.limiter ∧ s.now ≤ t.now ∧ t.admitted = s.admitted) ∨
      (isAcquire a = true ∧ t.limiter = (tryAcquire s.limiter s.now).2 ∧ t.now = s.now ∧
        t.admitted = if (tryAcquire s.limiter s.now).1 then s.now :: s.admitted else s.admitted) := by
  cases a with
  | advance instant =>
    simp only [step] at taken
    split at taken
    · rename_i later
      cases Option.some.inj taken
      exact .inl ⟨rfl, rfl, later, rfl⟩
    · contradiction
  | acquire id =>
    simp only [step] at taken
    split at taken
    · contradiction
    · split at taken <;> rename_i called <;> cases Option.some.inj taken <;> exact .inr ⟨rfl, by rw [called], rfl, by simp [called]⟩
  | answer id =>
    simp only [step] at taken
    split at taken
    · cases Option.some.inj taken
      exact .inl ⟨rfl, rfl, le_refl _, rfl⟩
    · contradiction

/- The admissions of a window, paid for by the capacity and what has come in since the
window began; what is left in the bucket has been paid for as well. -/
structure Window (rate : ℚ) (capacity : ℕ) (a b : ℚ) (s : System) : Prop where
  before : s.limiter.lastRefill < a → admittedIn s a b = 0
  inside : a ≤ s.limiter.lastRefill → s.limiter.lastRefill ≤ b →
    admittedIn s a b + s.limiter.tokens ≤ capacity + rate * (s.limiter.lastRefill - a)
  after : b < s.limiter.lastRefill → (admittedIn s a b : ℚ) ≤ capacity + rate * (b - a)

section
variable {rate : ℚ} {capacity : ℕ} {s t : System} {step_ : Step}

theorem stepBucket (nonneg : 0 ≤ rate) (bucket : Bucket rate capacity s.limiter s.now) (taken : step s step_ = some t) :
    Bucket rate capacity t.limiter t.now := by
  rcases stepCases taken with ⟨_, limiter, later, _⟩ | ⟨_, limiter, now, _⟩
  · rw [limiter]
    exact ⟨bucket.sameRate, bucket.sameCapacity, bucket.nonneg, bucket.bounded, bucket.past.trans later⟩
  · obtain ⟨_, kept, _⟩ := tryAcquireCases nonneg bucket
    rw [limiter, now]
    exact kept

theorem admittedMore {a b : ℚ} (s : System) (instant : ℚ) :
    admittedIn {s with admitted := instant :: s.admitted} a b =
      admittedIn s a b + if a ≤ instant ∧ instant ≤ b then 1 else 0 := by
  unfold admittedIn
  by_cases within : a ≤ instant ∧ instant ≤ b <;> simp [within]

theorem admittedOnce {a b : ℚ} (taken : step s step_ = some t) (acquires : isAcquire step_ = true) :
    admittedIn t a b = admittedIn s a b +
      if (tryAcquire s.limiter s.now).1 = true ∧ a ≤ s.now ∧ s.now ≤ b then 1 else 0 := by
  rcases stepCases taken with ⟨idle, _⟩ | ⟨_, _, _, admitted⟩
  · rw [idle] at acquires
    cases acquires
  · have more := admittedMore (a := a) (b := b) s s.now
    unfold admittedIn at more ⊢
    rw [admitted]
    cases (tryAcquire s.limiter s.now).1 with
    | false => simp
    | true => simpa using more

theorem stepWindow {a b : ℚ} (nonneg : 0 ≤ rate) (ordered : a ≤ b) (bucket : Bucket rate capacity s.limiter s.now)
    (window : Window rate capacity a b s) (taken : step s step_ = some t) : Window rate capacity a b t := by
  rcases stepCases taken with ⟨_, limiter, _, admitted⟩ | ⟨acquires, limiter, _, _⟩
  · have same : admittedIn t a b = admittedIn s a b := by rw [admittedIn, admittedIn, admitted]
    exact ⟨by rw [limiter, same]; exact window.before, by rw [limiter, same]; exact window.inside,
      by rw [limiter, same]; exact window.after⟩
  · obtain ⟨spent, _, present, left_, outcome⟩ := tryAcquireCases nonneg bucket
    have count := admittedOnce (a := a) (b := b) taken acquires
    have past := bucket.past
    have low := bucket.nonneg
    rw [← limiter] at present left_
    have paid : s.limiter.lastRefill ≤ b → (admittedIn s a b : ℚ) ≤ capacity + rate * (b - a) := by
      intro early
      rcases lt_or_ge s.limiter.lastRefill a with first | first
      · have gain : 0 ≤ rate * (b - a) := mul_nonneg nonneg (by linarith)
        rw [window.before first]
        push_cast
        linarith [Nat.cast_nonneg (α := ℚ) capacity]
      · have gain : 0 ≤ rate * (b - s.limiter.lastRefill) := mul_nonneg nonneg (by linarith)
        have balance := window.inside first early
        linarith
    refine ⟨fun early => ?_, fun from_ until_ => ?_, fun late => ?_⟩
    · rw [present] at early
      rw [count, window.before (by linarith), if_neg (by intro within; linarith [within.2.1])]
    · rw [present] at from_ until_
      have exact_ : (admittedIn t a b : ℚ) = admittedIn s a b + spent := by
        rw [count]
        rcases outcome with ⟨took, rfl⟩ | ⟨refused, rfl, _⟩
        · simp [took, from_, until_]
        · simp [refused]
      rw [exact_, left_, present]
      rcases lt_or_ge s.limiter.lastRefill a with first | first
      · have gain : 0 ≤ rate * (s.now - a) := mul_nonneg nonneg (by linarith)
        have cap := min_le_right (s.limiter.tokens + (s.now - s.limiter.lastRefill) * rate) (capacity : ℚ)
        rw [window.before first]
        push_cast
        linarith
      · have balance := window.inside first (by linarith)
        have cap := min_le_left (s.limiter.tokens + (s.now - s.limiter.lastRefill) * rate) (capacity : ℚ)
        linarith
    · rw [present] at late
      rw [count, if_neg (by intro within; linarith [within.2.2]), Nat.add_zero]
      rcases lt_or_ge b s.limiter.lastRefill with later | early
      · exact window.after later
      · exact paid early

end

theorem runBounds {rate : ℚ} {capacity : ℕ} {began : ℚ} {s : System} (nonneg : 0 ≤ rate)
    (run : Run step (fun _ _ => True) (start rate capacity began) s) :
    Bucket rate capacity s.limiter s.now ∧ ∀ a b, a ≤ b → Window rate capacity a b s := by
  have bucket : Bucket rate capacity (start rate capacity began).limiter (start rate capacity began).now :=
    ⟨rfl, rfl, Nat.cast_nonneg _, le_refl _, le_refl _⟩
  have window : ∀ a b, a ≤ b → Window rate capacity a b (start rate capacity began) := by
    intro a b ordered
    have gain : 0 ≤ rate * (b - a) := mul_nonneg nonneg (by linarith)
    refine ⟨fun _ => rfl, fun from_ _ => ?_, fun _ => ?_⟩
    · have since : 0 ≤ rate * (began - a) := mul_nonneg nonneg (sub_nonneg.mpr from_)
      simpa [admittedIn, start, new] using since
    · have positive : (0 : ℚ) ≤ capacity := Nat.cast_nonneg _
      simpa [admittedIn, start] using add_nonneg positive gain
  refine runInvariant (P := fun s => Bucket rate capacity s.limiter s.now ∧ ∀ a b, a ≤ b → Window rate capacity a b s)
    (fun s step_ t _ inv taken => ?_) run ⟨bucket, window⟩
  exact ⟨stepBucket nonneg inv.1 taken, fun a b ordered => stepWindow nonneg ordered inv.1 (inv.2 a b ordered) taken⟩

theorem windowBound {rate : ℚ} {capacity : ℕ} {a b : ℚ} {s : System} (nonneg : 0 ≤ rate) (ordered : a ≤ b)
    (bucket : Bucket rate capacity s.limiter s.now) (window : Window rate capacity a b s) :
    (admittedIn s a b : ℚ) ≤ capacity + rate * (b - a) := by
  rcases lt_or_ge b s.limiter.lastRefill with late | early
  · exact window.after late
  · rcases lt_or_ge s.limiter.lastRefill a with before | within
    · have gain : 0 ≤ rate * (b - a) := mul_nonneg nonneg (by linarith)
      rw [window.before before]
      push_cast
      linarith [Nat.cast_nonneg (α := ℚ) capacity]
    · have gain : 0 ≤ rate * (b - s.limiter.lastRefill) := mul_nonneg nonneg (by linarith)
      linarith [window.inside within early, bucket.nonneg]

theorem f64Gap {m : ℕ} {e : ℤ} (short : m < 2 ^ 53) (above : (1 : ℚ) < m * 2 ^ e) : (1 : ℚ) + 1 / 2 ^ 52 ≤ m * 2 ^ e := by
  rcases le_or_gt 0 e with large | small
  · obtain ⟨k, rfl⟩ := Int.eq_ofNat_of_zero_le large
    rw [zpow_natCast] at above ⊢
    have two : 2 ≤ m * 2 ^ k := by exact_mod_cast above
    have two' : (2 : ℚ) ≤ m * 2 ^ k := by exact_mod_cast two
    linarith
  · obtain ⟨k, exact_⟩ := Int.eq_ofNat_of_zero_le (show 0 ≤ -e by omega)
    have power : (2 : ℚ) ^ e = 1 / 2 ^ k := by
      rw [show e = -(k : ℤ) by omega, zpow_neg, zpow_natCast, one_div]
    have positive : (0 : ℚ) < 2 ^ k := by positivity
    rw [power, mul_one_div, lt_div_iff₀ positive, one_mul] at above
    have above' : 2 ^ k < m := by exact_mod_cast above
    have shallow : k ≤ 52 := by
      by_contra deep
      have : 2 ^ 53 ≤ 2 ^ k := Nat.pow_le_pow_right (by norm_num) (by omega)
      omega
    have next_ : (2 : ℚ) ^ k + 1 ≤ m := by exact_mod_cast above'
    have unit_ : (2 : ℚ) ^ k / 2 ^ 52 ≤ 1 := (div_le_one (by positivity)).mpr (pow_le_pow_right₀ (by norm_num) shallow)
    rw [power, mul_one_div, le_div_iff₀ positive]
    linarith

theorem f64Fits {rate : ℚ} (held : F64 rate) (positive : 0 < rate) (below : 1 / rate < 2 ^ 64) : 1 / rate ≤ u64Max := by
  obtain ⟨m, e, short, _, _, rfl⟩ := held
  have scale : (m : ℚ) * 2 ^ e * 2 ^ 64 = m * 2 ^ (e + 64) := by
    rw [zpow_add₀ two_ne_zero, mul_assoc]
    norm_cast
  have above : (1 : ℚ) < m * 2 ^ (e + 64) := by
    rw [← scale, mul_comm]
    exact (div_lt_iff₀ positive).mp below
  have room := f64Gap short above
  rw [← scale] at room
  rw [div_le_iff₀ positive]
  norm_num [u64Max]
  norm_num at room
  linarith

theorem retryCovers {rate : ℚ} {capacity : ℕ} {limiter : RateLimiter} {now : ℚ} (positive : 0 < rate)
    (fits : 1 / rate ≤ u64Max) (bucket : Bucket rate capacity limiter now) :
    1 ≤ limiter.tokens + (max (retryAfterSecs limiter) 1 : ℕ) * rate := by
  have low := bucket.nonneg
  by_cases enough : 1 - limiter.tokens ≤ 0
  · have wait : 0 ≤ ((max (retryAfterSecs limiter) 1 : ℕ) : ℚ) * rate := by positivity
    linarith
  · have short : (1 - limiter.tokens) / rate ≤ u64Max := by
      have part : (1 - limiter.tokens) / rate ≤ 1 / rate := by gcongr; linarith
      exact part.trans fits
    have wait : retryAfterSecs limiter = ⌈(1 - limiter.tokens) / rate⌉₊ := by
      rw [retryAfterSecs, if_neg enough, bucket.sameRate, if_neg (ne_of_gt positive), ceilAsU64, min_eq_left (Nat.ceil_le.mpr short)]
    have ceiling : (1 - limiter.tokens) / rate ≤ (max (retryAfterSecs limiter) 1 : ℕ) := by
      rw [wait]
      exact (Nat.le_ceil _).trans (Nat.cast_le.mpr (le_max_left _ _))
    have covered := (div_le_iff₀ positive).mp ceiling
    linarith

theorem quietLimiter {s t : System} (run : Run step (fun _ a => isAcquire a = false) s t) : t.limiter = s.limiter := by
  refine runInvariant (P := fun u => u.limiter = s.limiter) (fun u a v quiet same taken => ?_) run rfl
  rcases stepCases taken with ⟨_, limiter, _⟩ | ⟨acquires, _⟩
  · exact limiter.trans same
  · rw [quiet] at acquires
    cases acquires

theorem acquireAdmits {rate : ℚ} {capacity : ℕ} {u : System} {id : ℕ} (nonneg : 0 ≤ rate)
    (bucket : Bucket rate capacity u.limiter u.now) (roomy : 1 ≤ capacity)
    (enough : 1 ≤ u.limiter.tokens + (u.now - u.limiter.lastRefill) * rate) (free : id ∉ u.rejected) :
    ∃ v, step u (.acquire id) = some v ∧ v.admitted = u.now :: u.admitted := by
  obtain ⟨_, _, _, _, outcome⟩ := tryAcquireCases nonneg bucket
  have filled : 1 ≤ min (u.limiter.tokens + (u.now - u.limiter.lastRefill) * rate) (capacity : ℚ) :=
    le_min enough (by exact_mod_cast roomy)
  rcases outcome with ⟨took, _⟩ | ⟨_, _, short⟩
  · refine ⟨{u with limiter := (tryAcquire u.limiter u.now).2, admitted := u.now :: u.admitted}, ?_, rfl⟩
    simp only [step, if_neg free]
    split
    · rename_i called
      rw [called]
    · rename_i called
      rw [called] at took
      cases took
  · exact absurd filled (not_le.mpr short)

/- In every state of every run, whatever requests overlap. The wait is counted from the
last request before the answer, which is the rejected one itself when no other came in
between. -/
theorem limiterBounds {rate : ℚ} (nonneg : 0 ≤ rate) (capacity : ℕ) (began : ℚ) {s : System}
    (run : Run step (fun _ _ => True) (start rate capacity began) s) :
    (0 ≤ s.limiter.tokens ∧ s.limiter.tokens ≤ capacity ∧ s.limiter.lastRefill ≤ s.now) ∧
    (∀ a b, a ≤ b → (admittedIn s a b : ℚ) ≤ capacity + rate * (b - a)) ∧
    (F64 rate → 0 < rate → 1 / rate < 2 ^ 64 → 1 ≤ capacity → ∀ id t, step s (.answer id) = some t →
      ∃ n, t.answers = (id, n) :: s.answers ∧
        ∀ u, Run step (fun _ a => isAcquire a = false) t u → s.limiter.lastRefill + n ≤ u.now → id ∉ u.rejected →
          ∃ v, step u (.acquire id) = some v ∧ v.admitted = u.now :: u.admitted) := by
  obtain ⟨bucket, windows⟩ := runBounds nonneg run
  refine ⟨⟨bucket.nonneg, bucket.bounded, bucket.past⟩, fun a b ordered => windowBound nonneg ordered bucket (windows a b ordered),
    fun held positive below roomy id t answered => ⟨max (retryAfterSecs s.limiter) 1, ?_, fun u quiet late free => ?_⟩⟩
  · simp only [step] at answered
    split at answered
    · cases Option.some.inj answered
      rfl
    · contradiction
  · have same : u.limiter = s.limiter := by
      rcases stepCases answered with ⟨_, limiter, _⟩ | ⟨acquires, _⟩
      · exact (quietLimiter quiet).trans limiter
      · cases acquires
    have waited := retryCovers positive (f64Fits held positive below) bucket
    have held : Bucket rate capacity u.limiter u.now := by
      rw [same]
      exact ⟨bucket.sameRate, bucket.sameCapacity, bucket.nonneg, bucket.bounded,
        by linarith [Nat.cast_nonneg (α := ℚ) (max (retryAfterSecs s.limiter) 1)]⟩
    refine acquireAdmits nonneg held roomy ?_ free
    have gain : ((max (retryAfterSecs s.limiter) 1 : ℕ) : ℚ) * rate ≤ (u.now - s.limiter.lastRefill) * rate :=
      mul_le_mul_of_nonneg_right (by linarith) nonneg
    rw [same]
    linarith

def oneRejected : System := ⟨⟨0, 0, 1, 1⟩, 0, [1], [0], []⟩

def oneAnswered : System := ⟨⟨0, 0, 1, 1⟩, 0, [], [0], [(1, 1)]⟩

def oneWaited : System := ⟨⟨0, 0, 1, 1⟩, 1, [], [0], [(1, 1)]⟩

theorem limiterBoundsRejected :
    Run step (fun _ _ => True) (start 1 1 0) oneRejected ∧ (admittedIn oneRejected 0 2 : ℚ) ≤ 1 + 1 * (2 - 0) ∧
      step oneRejected (.answer 1) = some oneAnswered ∧
      ∃ v, step oneWaited (.acquire 1) = some v ∧ v.admitted = [1, 0] := by
  have run : Run step (fun _ _ => True) (start 1 1 0) oneRejected := execRun [.acquire 0, .acquire 1] (by decide +kernel)
  have answered : step oneRejected (.answer 1) = some oneAnswered := by decide +kernel
  have waited : Run step (fun _ a => isAcquire a = false) oneAnswered oneWaited :=
    .next (a := .advance 1) rfl (by decide +kernel) (.done _)
  obtain ⟨_, windows, retries⟩ := limiterBounds (by norm_num) 1 0 run
  obtain ⟨n, answers, admits⟩ := retries ⟨1, 0, by norm_num⟩ (by norm_num) (by norm_num) (by norm_num) 1 oneAnswered answered
  have wait : n = 1 := by simpa [oneAnswered, oneRejected] using answers.symm
  subst wait
  have bound : (admittedIn oneRejected 0 2 : ℚ) ≤ 1 + 1 * (2 - 0) := by simpa using windows 0 2 (by norm_num)
  exact ⟨run, bound, answered, admits oneWaited waited (by norm_num [oneRejected, oneWaited]) (by decide)⟩

end Silent.RequestLimiter
