import Silent.Http3Runs
import Silent.RequestBody

/-! The two limiters of the request body: the wrapper around hyper's body that counts the
bytes of each data frame, and the reading task of HTTP/3 with its channel. Both are read
by the same consumer, to the first error or the end, and compared with what a limit on
the total length asks for. -/
namespace Silent.BodyLimits
open ByteText HttpRequest StepSystem Http3Exchange Http3Runs RequestBody

abbrev Outcome := List UInt8 × Option IoError

def readToEnd (body : ReqBody) (got : List UInt8) : Outcome :=
  match _polled : body.pollFrame with
  | (.pending, later) => readToEnd later got
  | (.ready (some (.ok (.data bytes))), later) => readToEnd later (got ++ bytes.data)
  | (.ready (some (.ok .trailers)), later) => readToEnd later got
  | (.ready (some (.error err)), _) => (got, some err)
  | (.ready none, _) => (got, none)
termination_by body.left
decreasing_by
  all_goals
    rcases pollShortens body with ⟨_, ended⟩ | shorter
    · rw [_polled] at ended
      cases ended
    · rw [_polled] at shorter
      exact shorter

theorem readToEndEq (body : ReqBody) (got : List UInt8) :
    readToEnd body got =
      match body.pollFrame with
      | (.pending, later) => readToEnd later got
      | (.ready (some (.ok (.data bytes))), later) => readToEnd later (got ++ bytes.data)
      | (.ready (some (.ok .trailers)), later) => readToEnd later got
      | (.ready (some (.error err)), _) => (got, some err)
      | (.ready none, _) => (got, none) := by
  rw [readToEnd]
  split <;> simp_all

theorem readGrows (body : ReqBody) (got : List UInt8) : got.length ≤ (readToEnd body got).1.length := by
  fun_induction readToEnd body got with
  | case1 body got later polled ih => exact ih
  | case2 body got bytes later polled ih => exact Nat.le_trans (by simp) ih
  | case3 body got later polled ih => exact ih
  | case4 body got err later polled => exact Nat.le_refl _
  | case5 body got later polled => exact Nat.le_refl _

inductive Carries : List Polled → List Bytes → Prop
  | done : Carries [] []
  | pending {polls chunks} (later : Carries polls chunks) : Carries (.pending :: polls) chunks
  | chunk {bytes polls chunks} (later : Carries polls chunks) : Carries (.frame (.data bytes) :: polls) (bytes :: chunks)

def totalLength : List Bytes → Nat
  | [] => 0
  | bytes :: rest => bytes.data.length + totalLength rest

/- What a limit on the total asks for, from a total on: the chunks up to the first one
that goes over it. -/
def allowed (max : Option Usize) (total : Nat) : List Bytes → List UInt8 × Bool
  | [] => ([], false)
  | bytes :: rest =>
      if max.any (fun max => max.val < total + bytes.data.length) then ([], true)
      else (bytes.data ++ (allowed max (total + bytes.data.length) rest).1,
        (allowed max (total + bytes.data.length) rest).2)

def jumpsOver (max : Usize) (total : Nat) : List Bytes → Bool
  | [] => false
  | bytes :: rest =>
      if max.val < total + bytes.data.length then usizeMax < total + bytes.data.length
      else jumpsOver max (total + bytes.data.length) rest

theorem allowedOver (max : Usize) (total : Nat) (chunks : List Bytes) (within : total ≤ max.val) :
    (allowed (some max) total chunks).2 = true ↔ max.val < total + totalLength chunks := by
  induction chunks generalizing total with
  | nil => simp [allowed, totalLength]; omega
  | cons bytes rest ih =>
    simp only [allowed, totalLength, Option.any_some, decide_eq_true_eq]
    split
    · rename_i exceeds
      simp only [true_iff]
      omega
    · rename_i below
      rw [ih _ (by omega)]
      omega

theorem allowedLength (max : Usize) (total : Nat) (chunks : List Bytes) (within : total ≤ max.val) :
    total + (allowed (some max) total chunks).1.length ≤ max.val := by
  induction chunks generalizing total with
  | nil => simpa [allowed] using within
  | cons bytes rest ih =>
    simp only [allowed, Option.any_some, decide_eq_true_eq]
    split
    · simpa using within
    · rename_i below
      have later := ih (total + bytes.data.length) (by omega)
      simp only [List.length_append]
      omega

theorem incomingOutcome {polls : List Polled} {chunks : List Bytes} (carries : Carries polls chunks) (got : List UInt8)
    (total : Nat) : readToEnd (.incoming polls) got = (got ++ (allowed none total chunks).1, none) := by
  induction carries generalizing got total with
  | done => simp [readToEnd, ReqBody.pollFrame, pollIncoming, allowed]
  | pending later ih =>
    rw [readToEnd]
    exact ih got total
  | @chunk bytes polls chunks later ih =>
    rw [readToEnd]
    simp only [ReqBody.pollFrame, pollIncoming]
    rw [ih (got ++ bytes.data) (total + bytes.data.length)]
    simp [allowed]

theorem seenAdds {seen : Usize} {total : Nat} (same : seen.val = total) (bytes : Bytes) :
    (seen + Fin.ofNat 18446744073709551616 bytes.data.length).val =
      (total + bytes.data.length) % 18446744073709551616 := by
  have small := bytes.fits
  rw [Fin.val_add, Fin.val_ofNat, same]
  omega

theorem limitedStep (max seen : Usize) (bytes : Bytes) (polls : List Polled) (got : List UInt8) :
    readToEnd (.limitedIncoming ⟨.frame (.data bytes) :: polls, seen, max⟩) got =
      if max < seen + Fin.ofNat 18446744073709551616 bytes.data.length then (got, some ⟨.other, sizeExceeds⟩)
      else readToEnd (.limitedIncoming ⟨polls, seen + Fin.ofNat 18446744073709551616 bytes.data.length, max⟩)
        (got ++ bytes.data) := by
  rw [readToEndEq]
  by_cases exceeds : max < seen + Fin.ofNat 18446744073709551616 bytes.data.length
  · simp only [ReqBody.pollFrame, LimitedIncoming.pollFrame, pollIncoming, if_pos exceeds]
  · simp only [ReqBody.pollFrame, LimitedIncoming.pollFrame, pollIncoming, if_neg exceeds]

theorem limitedOutcome {polls : List Polled} {chunks : List Bytes} (carries : Carries polls chunks) {max seen : Usize}
    (got : List UInt8) {total : Nat} (same : seen.val = total) (within : total ≤ max.val)
    (steady : jumpsOver max total chunks = false) :
    readToEnd (.limitedIncoming ⟨polls, seen, max⟩) got =
      (got ++ (allowed (some max) total chunks).1,
        if (allowed (some max) total chunks).2 then some ⟨.other, sizeExceeds⟩ else none) := by
  induction carries generalizing got seen total with
  | done => simp [readToEnd, ReqBody.pollFrame, LimitedIncoming.pollFrame, pollIncoming, allowed]
  | pending later ih =>
    rw [readToEnd]
    exact ih got same within steady
  | @chunk bytes polls chunks later ih =>
    have sum := seenAdds same bytes
    have top := max.isLt
    rw [limitedStep]
    simp only [jumpsOver] at steady
    simp only [allowed, Option.any_some, decide_eq_true_eq]
    by_cases exceeds : max.val < total + bytes.data.length
    · rw [if_pos exceeds] at steady
      have fits : total + bytes.data.length ≤ usizeMax := by simpa using steady
      rw [if_pos (by rw [Fin.lt_def, sum]; unfold usizeMax at fits; omega), if_pos exceeds]
      simp
    · rw [if_neg exceeds] at steady
      have exact_ : (seen + Fin.ofNat 18446744073709551616 bytes.data.length).val = total + bytes.data.length := by omega
      rw [if_neg (by rw [Fin.lt_def, exact_]; exact exceeds), if_neg exceeds, ih _ exact_ (by omega) steady]
      simp

theorem limitedJumps {polls : List Polled} {chunks : List Bytes} (carries : Carries polls chunks) {max seen : Usize}
    {got : List UInt8} (same : seen.val = got.length) (within : got.length ≤ max.val)
    (jumps : jumpsOver max got.length chunks = true) :
    max.val < (readToEnd (.limitedIncoming ⟨polls, seen, max⟩) got).1.length := by
  induction carries generalizing got seen with
  | done => cases jumps
  | pending later ih =>
    rw [readToEnd]
    exact ih same within jumps
  | @chunk bytes polls chunks later ih =>
    have sum := seenAdds same bytes
    have top := max.isLt
    have small := bytes.fits
    rw [limitedStep]
    simp only [jumpsOver] at jumps
    by_cases exceeds : max.val < got.length + bytes.data.length
    · rw [if_pos exceeds, decide_eq_true_eq, usizeMax] at jumps
      rw [if_neg (by rw [Fin.lt_def, sum]; omega)]
      have grows := readGrows (.limitedIncoming ⟨polls, seen + Fin.ofNat 18446744073709551616 bytes.data.length, max⟩)
        (got ++ bytes.data)
      rw [List.length_append] at grows
      omega
    · rw [if_neg exceeds] at jumps
      have exact_ : (seen + Fin.ofNat 18446744073709551616 bytes.data.length).val = got.length + bytes.data.length := by omega
      rw [if_neg (by rw [Fin.lt_def, exact_]; exact exceeds)]
      exact ih (by rw [exact_, List.length_append]) (by rw [List.length_append]; omega)
        (by rw [List.length_append]; exact jumps)

def items (cfg : Config) (total : Nat) : List Received → List Item
  | [] | .finished :: _ => []
  | .failed err :: _ => [.error ⟨.other, "HTTP/3 body read failed: ".toList ++ err⟩]
  | .timedOut :: _ => [.error ⟨.timedOut, readTimeout⟩]
  | .chunk bytes :: rest =>
      if bytes.data = [] then items cfg total rest
      else if overLimit cfg (saturatingAdd total bytes.data.length) then [.error ⟨.other, tooLarge⟩]
      else .ok bytes :: items cfg (saturatingAdd total bytes.data.length) rest

def consume (got : List UInt8) : List Item → Outcome
  | [] => (got, none)
  | .ok bytes :: rest => consume (got ++ bytes.data) rest
  | .error err :: _ => (got, some err)

inductive Consumer where
  | reading (got : List UInt8)
  | finished (outcome : Outcome)
  deriving DecidableEq

def consumer : Program Consumer Outcome where
  handler
    | .reading got => .read (fun item =>
        match item with
        | none => .finished (got, none)
        | some (.ok bytes) => .reading (got ++ bytes.data)
        | some (.error err) => .finished (got, some err))
    | .finished outcome => .answer (.ok outcome) false (.finished outcome)
  body _ := .done
  fromError _ := ([], none)

def upcoming (cfg : Config) (s : Exchange Consumer Outcome) : List Item :=
  match s.reader with
  | .receiving total => items cfg total s.script
  | .sending item (.loop total) => item :: items cfg total s.script
  | .sending item (.bail _) => [item]
  | .ended _ => []

/- Nothing is lost or made up on the way: what the consumer has, what is in the channel and
what is still to come make up the outcome. -/
def Conserves (cfg : Config) (outcome : Outcome) (s : Exchange Consumer Outcome) : Prop :=
  match s.main with
  | .handling (.reading got) => s.holder = .main ∧ s.answered = none ∧ consume got (s.queue ++ upcoming cfg s) = outcome
  | .handling (.finished made) => s.answered = none ∧ made = outcome
  | _ => s.answered = some outcome

theorem receivedUpcoming {cfg : Config} {total : Nat} {next : Received} {rest : List Received} {reader : Reader}
    (came : received cfg total next = some reader) (s : Exchange Consumer Outcome) :
    upcoming cfg {s with script := rest, reader := reader} = items cfg total (next :: rest) := by
  cases next with
  | chunk bytes =>
    simp only [received] at came
    split at came
    · rename_i empty
      cases Option.some.inj came
      simp [upcoming, items, empty]
    · rename_i more
      split at came
      · rename_i exceeds
        cases Option.some.inj came
        simp [upcoming, items, more, exceeds]
      · rename_i within
        cases Option.some.inj came
        simp [upcoming, items, more, within]
  | finished | failed err =>
    cases Option.some.inj came
    rfl
  | timedOut =>
    simp only [received] at came
    split at came
    · cases Option.some.inj came
      rfl
    · contradiction

theorem readerConserves {cfg : Config} {outcome : Outcome} {s t : Exchange Consumer Outcome}
    (conserves : Conserves cfg outcome s) (taken : readerStep cfg s = some t) : Conserves cfg outcome t := by
  obtain ⟨aside, holder⟩ := readerAside taken
  unfold Conserves at conserves ⊢
  rw [aside.main, holder, aside.answered]
  split at conserves
  · rename_i got reading
    obtain ⟨owner, unanswered, whole⟩ := conserves
    refine ⟨owner, unanswered, ?_⟩
    cases readerCases taken with
    | receives receiving script came =>
      rw [receivedUpcoming came]
      rw [upcoming, receiving, script] at whole
      exact whole
    | refused sending dropped =>
      rw [dropped] at owner
      cases owner
    | @sends item after sending held slot =>
      cases after with
      | loop total =>
        simp only [upcoming, sending] at whole
        simp only [upcoming, afterSent, List.append_assoc]
        exact whole
      | bail err =>
        simp only [upcoming, sending] at whole
        simp only [upcoming, afterSent, List.append_assoc]
        exact whole
  · exact conserves
  · exact conserves

theorem mainConserves {cfg : Config} {outcome : Outcome} {s t : Exchange Consumer Outcome}
    (conserves : Conserves cfg outcome s) (taken : mainStep cfg consumer s = some t) : Conserves cfg outcome t := by
  unfold Conserves at conserves
  split at conserves
  · rename_i got reading
    obtain ⟨owner, unanswered, whole⟩ := conserves
    simp only [mainStep, reading, consumer, pollBody, owner, if_true] at taken
    split at taken
    · rename_i item rest queue
      cases Option.some.inj taken
      rw [queue] at whole
      cases item with
      | ok bytes => exact ⟨rfl, unanswered, whole⟩
      | error err => exact ⟨unanswered, whole⟩
    · rename_i queue
      split at taken
      · rename_i ended
        cases Option.some.inj taken
        have nothing : upcoming cfg s = [] := by
          unfold upcoming
          cases reader : s.reader <;> simp_all [isEnded]
        rw [queue, nothing] at whole
        exact ⟨unanswered, whole⟩
      · contradiction
  · rename_i made ended
    obtain ⟨_, same⟩ := conserves
    simp only [mainStep, ended, consumer] at taken
    cases Option.some.inj taken
    simp [Conserves, Program.response, same]
  · rename_i notReading notFinished
    have before : ∀ state, s.main ≠ .handling state := by
      intro state
      cases state with
      | reading got => exact notReading got
      | finished made => exact notFinished made
    obtain ⟨answered, later⟩ := handlingIsOver (mainCases taken) before
    unfold Conserves
    split
    · rename_i got reading
      exact absurd reading (later _)
    · rename_i made ended
      exact absurd ended (later _)
    · rw [answered]
      exact conserves

theorem othersConserve {cfg : Config} {outcome : Outcome} {s t : Exchange Consumer Outcome}
    (elsewhere : s.holder = .elsewhere) (aside : Aside s t) (conserves : Conserves cfg outcome s) :
    Conserves cfg outcome t := by
  unfold Conserves at conserves ⊢
  rw [aside.main, aside.answered]
  split at conserves
  · rw [conserves.1] at elsewhere
    cases elsewhere
  · exact conserves
  · exact conserves

theorem stepConserves {cfg : Config} {outcome : Outcome} {s t : Exchange Consumer Outcome} {task : Task}
    (conserves : Conserves cfg outcome s) (taken : step cfg consumer s task = some t) : Conserves cfg outcome t := by
  cases task with
  | reader => exact readerConserves conserves taken
  | main => exact mainConserves conserves taken
  | sendFails err =>
    obtain ⟨about, rfl⟩ := sendFailsCases taken
    unfold Conserves at conserves
    split at conserves
    · rename_i got reading
      simp [aboutToSend, reading] at about
    · rename_i made ended
      simp [aboutToSend, ended] at about
    · exact conserves
  | otherReads =>
    obtain ⟨elsewhere, item, rest, queue, rfl⟩ := otherReadsCases taken
    exact othersConserve elsewhere ⟨rfl, rfl, rfl, rfl⟩ conserves
  | otherDrops =>
    obtain ⟨elsewhere, rfl⟩ := otherDropsCases taken
    exact othersConserve elsewhere ⟨rfl, rfl, rfl, rfl⟩ conserves

theorem startConserves (cfg : Config) (script : List Received) :
    Conserves cfg (consume [] (items cfg 0 script)) (start script (.reading [])) :=
  ⟨rfl, rfl, rfl⟩

theorem consumerOutcome {cfg : Config} {script : List Received} {s : Exchange Consumer Outcome} {outcome : Outcome}
    (run : Run (step cfg consumer) (fun _ _ => True) (start script (.reading [])) s) (answered : s.answered = some outcome) :
    outcome = consume [] (items cfg 0 script) := by
  have conserves : Conserves cfg (consume [] (items cfg 0 script)) s :=
    runInvariant (P := Conserves cfg (consume [] (items cfg 0 script)))
      (fun _ _ _ _ before taken => stepConserves before taken) run (startConserves cfg script)
  unfold Conserves at conserves
  split at conserves
  · rw [answered] at conserves
    cases conserves.2.1
  · rw [answered] at conserves
    cases conserves.1
  · exact Option.some.inj (answered.symm.trans conserves)

def phase : Main Consumer Outcome → Nat
  | .handling (.reading _) => 2
  | .handling (.finished _) => 1
  | _ => 0

theorem consumerMoves {cfg : Config} {outcome : Outcome} {s : Exchange Consumer Outcome} (sound : Sound cfg s)
    (conserves : Conserves cfg outcome s) (unanswered : ¬ s.answered.isSome) :
    ∃ task t, step cfg consumer s task = some t ∧ rank t + phase t.main < rank s + phase s.main := by
  have readerFalls : ∀ t, readerStep cfg s = some t → rank t + phase t.main < rank s + phase s.main := by
    intro t taken
    have less := readerRankFalls taken
    rw [(readerAside taken).1.main]
    omega
  unfold Conserves at conserves
  split at conserves
  · rename_i got reading
    obtain ⟨owner, _, _⟩ := conserves
    cases queue : s.queue with
    | cons item rest =>
      refine ⟨.main, {s with queue := rest, main := .handling (match some item with
        | none => .finished (got, none)
        | some (.ok bytes) => .reading (got ++ bytes.data)
        | some (.error err) => .finished (got, some err))}, ?_, ?_⟩
      · simp only [step, mainStep, reading, consumer, pollBody, owner, queue, if_true]
      · cases item with
        | ok bytes => simp [rank, readerRank, unsent, phase, reading, queue]
        | error err =>
          simp only [rank, readerRank, unsent, phase, reading, queue, List.length_cons]
          omega
    | nil =>
      cases ended : isEnded s.reader with
      | true =>
        refine ⟨.main, {s with main := .handling (.finished (got, none))}, ?_, ?_⟩
        · simp only [step, mainStep, reading, consumer, pollBody, owner, queue, ended, if_true]
        · simp [rank, readerRank, unsent, phase, reading]
      | false =>
        cases moved : readerStep cfg s with
        | some t => exact ⟨.reader, t, moved, readerFalls t moved⟩
        | none =>
          have full := (readerBlocked sound moved ended).1
          simp [queue] at full
  · rename_i made ended
    refine ⟨.main, _, by simp only [step, mainStep, ended, consumer]; rfl, ?_⟩
    by_cases owner : s.holder = .main <;> simp [rank, readerRank, unsent, phase, ended, release, owner]
  · rw [conserves] at unanswered
    exact absurd rfl unanswered

theorem consumerFinishes (cfg : Config) (chunks : List Bytes) :
    ∃ s, Run (step cfg consumer) (fun _ _ => True) (start (body chunks) (.reading [])) s ∧ s.answered.isSome = true := by
  have fits : ∀ (s : Exchange Consumer Outcome) (task : Task), Fits consumer s task := by
    intro s task _ keeps
    unfold keepsBody at keeps
    split at keeps
    · rename_i state main
      cases state <;> simp [consumer] at keeps
    · cases keeps
  refine runFinishes (P := fun s => Sound cfg s ∧ Conserves cfg (consume [] (items cfg 0 (body chunks))) s)
    (fun s => rank s + phase s.main) (fun s task t _ inv taken => ?_) (fun s inv unanswered => ?_)
    ⟨startSound (scriptCloses chunks rfl) _, startConserves cfg _⟩
  · exact ⟨stepSound (fits s task) inv.1 taken, stepConserves inv.2 taken⟩
  · obtain ⟨task, t, taken, less⟩ := consumerMoves inv.1 inv.2 unanswered
    exact ⟨task, t, trivial, taken, less⟩

def h3Config (max : Option Usize) (chunkSize : Nat) : Config := ⟨max.map (·.val), false, chunkSize⟩

theorem unlimitedItems (chunkSize total total' : Nat) (chunks : List Bytes) (got : List UInt8) :
    consume got (items (h3Config none chunkSize) total (body chunks)) = (got ++ (allowed none total' chunks).1, none) := by
  induction chunks generalizing total total' got with
  | nil => simp [body, items, consume, allowed]
  | cons bytes rest ih =>
    have script : body (bytes :: rest) = .chunk bytes :: body rest := rfl
    rw [script, items]
    split
    · rename_i empty
      rw [ih total (total' + bytes.data.length)]
      simp [allowed, empty]
    · simp only [overLimit, h3Config, Option.map_none, Bool.false_eq_true, if_false, consume]
      have later := ih (saturatingAdd total bytes.data.length) (total' + bytes.data.length) (got ++ bytes.data)
      simp only [h3Config, Option.map_none] at later
      rw [later]
      simp [allowed]

theorem limitedItems {max : Usize} (chunkSize : Nat) {total : Nat} (chunks : List Bytes) (got : List UInt8)
    (within : total ≤ max.val) (steady : jumpsOver max total chunks = false) :
    consume got (items (h3Config (some max) chunkSize) total (body chunks)) =
      (got ++ (allowed (some max) total chunks).1,
        if (allowed (some max) total chunks).2 then some ⟨.other, tooLarge⟩ else none) := by
  induction chunks generalizing total got with
  | nil => simp [body, items, consume, allowed]
  | cons bytes rest ih =>
    have script : body (bytes :: rest) = .chunk bytes :: body rest := rfl
    have top := max.isLt
    simp only [jumpsOver] at steady
    rw [script, items]
    simp only [allowed, Option.any_some, decide_eq_true_eq]
    by_cases exceeds : max.val < total + bytes.data.length
    · rw [if_pos exceeds] at steady
      have fits : total + bytes.data.length ≤ usizeMax := by simpa using steady
      have more : bytes.data ≠ [] := by
        rintro empty
        rw [empty, List.length_nil] at exceeds
        omega
      have sum : saturatingAdd total bytes.data.length = total + bytes.data.length := Nat.min_eq_left fits
      simp [if_neg more, overLimit, h3Config, sum, exceeds, consume]
    · rw [if_neg exceeds] at steady
      have sum : saturatingAdd total bytes.data.length = total + bytes.data.length :=
        Nat.min_eq_left (by unfold usizeMax; omega)
      rw [if_neg exceeds]
      split
      · rename_i empty
        have same := ih got within (by simpa [empty] using steady)
        simpa [empty] using same
      · have below : overLimit (h3Config (some max) chunkSize) (saturatingAdd total bytes.data.length) = false := by
          simpa [overLimit, h3Config, sum] using exceeds
        rw [below, sum]
        simp only [Bool.false_eq_true, if_false, consume]
        rw [ih (got ++ bytes.data) (by omega) steady]
        simp

/- One consumer, two limiters: the same bytes and the same verdict in every run, an error
exactly when the total is over the limit, and never more bytes than the limit. -/
structure LimitersAgree (max : Option Usize) (chunks : List Bytes) : Prop where
  agree : ∀ polls, Carries polls chunks → ∀ chunkSize (s : Exchange Consumer Outcome),
    Run (step (h3Config max chunkSize) consumer) (fun _ _ => True) (start (body chunks) (.reading [])) s →
    ∀ outcome, s.answered = some outcome →
      outcome.1 = (readToEnd ((ReqBody.incoming polls).withLimit max) []).1 ∧
      outcome.2.isSome = (readToEnd ((ReqBody.incoming polls).withLimit max) []).2.isSome ∧
      (outcome.2.isSome = true ↔ ∃ limit, max = some limit ∧ limit.val < totalLength chunks) ∧
      ∀ limit, max = some limit → outcome.1.length ≤ limit.val
  finishes : ∀ chunkSize, ∃ s, Run (step (h3Config max chunkSize) consumer) (fun _ _ => True)
    (start (body chunks) (.reading [])) s ∧ s.answered.isSome = true

theorem carriesChunks (chunks : List Bytes) : Carries (chunks.map (fun bytes => .frame (.data bytes))) chunks := by
  induction chunks with
  | nil => exact .done
  | cons bytes rest ih => exact .chunk ih

theorem unlimitedAgree (chunks : List Bytes) : LimitersAgree none chunks := by
  refine ⟨fun polls carries chunkSize s run outcome answered => ?_, fun chunkSize => consumerFinishes _ chunks⟩
  rw [consumerOutcome run answered, unlimitedItems chunkSize 0 0 chunks []]
  have plain : readToEnd ((ReqBody.incoming polls).withLimit none) [] = _ := incomingOutcome carries [] 0
  rw [plain]
  simp

theorem jumpsDisagree {max : Usize} {chunks : List Bytes} (agree : LimitersAgree (some max) chunks) :
    jumpsOver max 0 chunks = false := by
  by_contra jumps
  obtain ⟨s, run, answered⟩ := agree.finishes 1
  obtain ⟨outcome, answered⟩ := Option.isSome_iff_exists.mp answered
  obtain ⟨same, _, _, short⟩ := agree.agree _ (carriesChunks chunks) 1 s run outcome answered
  have long : max.val < (readToEnd (.limitedIncoming ⟨_, 0, max⟩) []).1.length :=
    limitedJumps (carriesChunks chunks) rfl (Nat.zero_le _) (by simpa using jumps)
  have bounded := short max rfl
  rw [same] at bounded
  exact absurd bounded (Nat.not_le.mpr long)

theorem steadyAgree {max : Usize} {chunks : List Bytes} (steady : jumpsOver max 0 chunks = false) :
    LimitersAgree (some max) chunks := by
  refine ⟨fun polls carries chunkSize s run outcome answered => ?_, fun chunkSize => consumerFinishes _ chunks⟩
  rw [consumerOutcome run answered, limitedItems chunkSize chunks [] (Nat.zero_le _) steady]
  have zero : (0 : Usize).val = 0 := rfl
  have limited : readToEnd ((ReqBody.incoming polls).withLimit (some max)) [] = _ :=
    limitedOutcome carries [] zero (Nat.zero_le _) steady
  have exceeding := allowedOver max 0 chunks (Nat.zero_le _)
  have short := allowedLength max 0 chunks (Nat.zero_le _)
  rw [limited]
  rw [Nat.zero_add] at exceeding short
  have verdict : ∀ err : IoError, (if (allowed (some max) 0 chunks).2 then some err else none).isSome =
      (allowed (some max) 0 chunks).2 := by
    intro err
    cases (allowed (some max) 0 chunks).2 <;> rfl
  refine ⟨rfl, (verdict _).trans (verdict _).symm, ?_, fun limit same => ?_⟩
  · rw [verdict, exceeding]
    exact ⟨fun more => ⟨max, rfl, more⟩, fun ⟨limit, same, more⟩ => by cases Option.some.inj same; exact more⟩
  · cases Option.some.inj same
    simpa using short

theorem limitersAgreeUnlessJump (max : Option Usize) (chunks : List Bytes) :
    LimitersAgree max chunks ↔ ∀ limit, max = some limit → jumpsOver limit 0 chunks = false := by
  cases max with
  | none => exact ⟨fun _ => nofun, fun _ => unlimitedAgree chunks⟩
  | some max =>
    refine ⟨fun agree limit same => ?_, fun steady => steadyAgree (steady max rfl)⟩
    cases Option.some.inj same
    exact jumpsDisagree agree

def zeros (count : Nat) (fits : count < 9223372036854775808) : Bytes :=
  ⟨List.replicate count 0, by rw [List.length_replicate]; exact fits⟩

theorem countWrapsAround : ¬ LimitersAgree (some 18446744073709551614)
    [zeros 9223372036854775807 (by decide), zeros 9223372036854775807 (by decide), zeros 3 (by decide)] := by
  intro agree
  have steady := jumpsDisagree agree
  simp only [jumpsOver, zeros, List.length_replicate, usizeMax] at steady
  revert steady
  decide

end Silent.BodyLimits
