import Silent.Http3Exchange

/-! Runs of one HTTP/3 exchange, for every order in which its tasks go on. The reading task
is waited for before the response body is polled; so a response body that keeps the
request body must find the rest of it in the channel. As long as it does, no task waits
for ever, and as long as the reading task meets no error, the response is sent. -/
namespace Silent.Http3Runs
open ByteText HttpRequest StepSystem Http3Exchange

variable {S R : Type} {cfg : Config} {prog : Program S R}

def goesOn : Reader → Bool
  | .receiving _ | .sending _ (.loop _) => true
  | _ => false

def isWaiting : Main S R → Bool
  | .waiting _ _ => true
  | _ => false

def usesStream : Main S R → Bool
  | .streaming _ | .sendingData _ _ => true
  | _ => false

structure Sound (cfg : Config) (s : Exchange S R) : Prop where
  closing : goesOn s.reader = true → closes cfg s.script = true
  room : isWaiting s.main = true → s.holder = .main → s.queue.length + owed s ≤ 8
  back : usesStream s.main = true → isEnded s.reader = true

theorem owedFrame {s t : Exchange S R} (reader : t.reader = s.reader) (script : t.script = s.script) : owed t = owed s := by
  rw [owed, owed, reader, script]

theorem receivedOwed {total : Nat} {next : Received} {rest : List Received} {reader : Reader}
    (came : received cfg total next = some reader) (closing : closes cfg (next :: rest) = true) (s : Exchange S R) :
    (goesOn reader = true → closes cfg rest = true) ∧
      owed {s with script := rest, reader := reader} ≤ owedBy (next :: rest) := by
  cases receivedCases came with
  | skips empty => exact ⟨fun _ => closing, by simp [owed, owedBy]⟩
  | sends more within => exact ⟨fun _ => closing, by simp [owed, owedBy, more]⟩
  | ends => exact ⟨nofun, by simp [owed]⟩
  | gives unfinished exceeds =>
    refine ⟨nofun, ?_⟩
    cases next with
    | chunk bytes => simp [owed, owedBy, (exceeds bytes rfl).1]
    | finished => exact absurd rfl unfinished
    | failed err => simp [owed, owedBy]
    | timedOut => simp [owed, owedBy]

theorem readerSound {s t : Exchange S R} (sound : Sound cfg s) (taken : readerStep cfg s = some t) : Sound cfg t := by
  cases readerCases taken with
  | @receives total next rest reader receiving script came =>
    have closing := sound.closing (by rw [receiving]; rfl)
    rw [script] at closing
    obtain ⟨further, less⟩ := receivedOwed came closing s
    refine ⟨further, fun waiting held => ?_, fun uses => ?_⟩
    · have before := sound.room waiting held
      rw [owed, receiving, script] at before
      exact Nat.le_trans (Nat.add_le_add_left less _) before
    · have ended := sound.back uses
      rw [receiving] at ended
      cases ended
  | @refused item after sending dropped =>
    refine ⟨?_, fun _ held => absurd held (by simp [dropped]), fun _ => ?_⟩ <;> cases after <;>
      simp [afterRefused, goesOn, isEnded]
  | @sends item after sending held slot =>
    refine ⟨fun further => ?_, fun waiting owner => ?_, fun uses => ?_⟩
    · cases after with
      | loop total => exact sound.closing (by rw [sending]; rfl)
      | bail err => cases further
    · have before := sound.room waiting owner
      cases after with
      | loop total =>
        simp only [owed, sending] at before
        simp only [owed, afterSent, List.length_append, List.length_singleton]
        omega
      | bail err =>
        simp only [owed, sending] at before
        simp only [owed, afterSent, List.length_append, List.length_singleton]
        omega
    · have ended := sound.back uses
      rw [sending] at ended
      cases ended

theorem answersHolder {s : Exchange S R} {state : S} {result : SilentResult R} {keeps : Bool} {body : S}
    (before : s.main = .handling state) (act : prog.handler state = .answer result keeps body)
    (owner : (if keeps then s else release s .dropped).holder = .main) : keepsBody prog s = true := by
  cases keeps with
  | true =>
    have own : s.holder = .main := by simpa using owner
    simp [keepsBody, before, act, own]
  | false =>
    simp only [Bool.false_eq_true, if_false, release] at owner
    split at owner
    · cases owner
    · contradiction

theorem mainSound {s t : Exchange S R} (sound : Sound cfg s) (fits : Fits prog s .main) (taken : MainStep cfg prog s t) :
    Sound cfg t := by
  have frame := mainFrame taken
  have closing : goesOn t.reader = true → closes cfg t.script = true := by
    rw [frame.reader, frame.script]
    exact sound.closing
  refine ⟨closing, fun waiting owner => ?_, fun uses => ?_⟩
  · rw [owedFrame frame.reader frame.script]
    have less := frame.queue.length_le
    cases taken with
    | answers before act =>
      have kept := fits rfl (answersHolder before act owner)
      omega
    | handles before after silent | streams before after silent =>
      rw [after] at waiting
      cases waiting
    | _ => cases waiting
  · rw [frame.reader]
    cases taken with
    | responds before read =>
      rw [read]
      rfl
    | streams before after silent => exact sound.back (by rw [before]; rfl)
    | frames before some_ => exact sound.back (by rw [before]; rfl)
    | sentAll before => exact sound.back (by rw [before]; rfl)
    | sends before more => exact sound.back (by rw [before]; rfl)
    | handles before after silent =>
      rw [after] at uses
      cases uses
    | _ => cases uses

theorem stepSound {s t : Exchange S R} {task : Task} (fits : Fits prog s task) (sound : Sound cfg s)
    (taken : step cfg prog s task = some t) : Sound cfg t := by
  cases task with
  | reader => exact readerSound sound taken
  | main => exact mainSound sound fits (mainCases taken)
  | sendFails err =>
    obtain ⟨_, rfl⟩ := sendFailsCases taken
    exact ⟨sound.closing, nofun, nofun⟩
  | otherReads =>
    obtain ⟨elsewhere, item, rest, queue, rfl⟩ := otherReadsCases taken
    exact ⟨sound.closing, fun _ owner => absurd owner (by simp [elsewhere]), sound.back⟩
  | otherDrops =>
    obtain ⟨_, rfl⟩ := otherDropsCases taken
    exact ⟨sound.closing, nofun, sound.back⟩

theorem pollBlocked {s : Exchange S R} {resume : Option Item → Main S R} (blocked : pollBody s resume = none) :
    s.queue = [] ∧ isEnded s.reader = false := by
  unfold pollBody at blocked
  split at blocked
  · split at blocked
    · contradiction
    · rename_i queue
      split at blocked
      · contradiction
      · rename_i running
        exact ⟨queue, by simpa using running⟩
  · contradiction

theorem readerBlocked {s : Exchange S R} (sound : Sound cfg s) (blocked : readerStep cfg s = none)
    (running : isEnded s.reader = false) : 8 ≤ s.queue.length ∧ s.holder ≠ .dropped ∧ 1 ≤ owed s := by
  unfold readerStep at blocked
  split at blocked
  · rename_i total receiving
    have closing := sound.closing (by rw [receiving]; rfl)
    split at blocked
    · rename_i script
      rw [script] at closing
      cases closing
    · rename_i next rest script
      rw [script] at closing
      rw [Option.map_eq_none_iff] at blocked
      cases next with
      | chunk bytes =>
        simp only [received] at blocked
        split at blocked
        · contradiction
        · split at blocked <;> contradiction
      | finished | failed err => contradiction
      | timedOut =>
        have timeout : cfg.readTimeout = true := closing
        simp [received, timeout] at blocked
  · rename_i item after sending
    split at blocked
    · contradiction
    · rename_i held
      split at blocked
      · contradiction
      · rename_i full
        refine ⟨by omega, held, ?_⟩
        cases after <;> simp [owed, sending]
  · rename_i result ended
    rw [ended] at running
    cases running

theorem soundMoves {s : Exchange S R} (sound : Sound cfg s) : ¬ Stuck cfg prog s := by
  rintro ⟨idle, live⟩
  have reads : readerStep cfg s = none := idle .reader
  have acts : mainStep cfg prog s = none := idle .main
  have shared : s.holder ≠ .elsewhere := by
    intro elsewhere
    have drops := idle .otherDrops
    simp [step, elsewhere] at drops
  have blocked : isEnded s.reader = false → 8 ≤ s.queue.length ∧ s.holder ≠ .dropped ∧ 1 ≤ owed s :=
    readerBlocked sound reads
  unfold mainStep at acts
  split at acts
  · split at acts <;> try contradiction
    obtain ⟨empty, running⟩ := pollBlocked acts
    have full := (blocked running).1
    simp [empty] at full
  · rename_i response body waiting
    split at acts <;> try contradiction
    rename_i notOk notError
    have running : isEnded s.reader = false := by
      cases reader : s.reader with
      | ended result =>
        cases result with
        | ok done => exact absurd reader notOk
        | error err => exact absurd reader (notError err)
      | _ => rfl
    obtain ⟨full, held, owing⟩ := blocked running
    have owner : s.holder = .main := by
      cases holder : s.holder with
      | main => rfl
      | elsewhere => exact absurd holder shared
      | dropped => exact absurd holder held
    have room := sound.room (by rw [waiting]; rfl) owner
    omega
  · rename_i body streaming
    have ended := sound.back (by rw [streaming]; rfl)
    split at acts <;> try contradiction
    · have running := (pollBlocked acts).2
      rw [ended] at running
      cases running
    · split at acts <;> contradiction
  · split at acts <;> contradiction
  · rename_i result ended
    exact live result ended

theorem startSound {script : List Received} (closing : closes cfg script = true) (state : S) :
    Sound cfg (start script state : Exchange S R) :=
  ⟨fun _ => closing, nofun, nofun⟩

theorem runSound {script : List Received} (closing : closes cfg script = true) {state : S} {s : Exchange S R}
    (run : Run (step cfg prog) (Fits prog) (start script state) s) : Sound cfg s :=
  runInvariant (fun _ _ _ fits sound taken => stepSound fits sound taken) run (startSound closing state)

theorem scriptCloses (chunks : List Bytes) {ending : Received} (ends : closes cfg [ending] = true) :
    closes cfg (chunks.map .chunk ++ [ending]) = true := by
  induction chunks with
  | nil => exact ends
  | cons bytes chunks ih => exact ih

def body (chunks : List Bytes) : List Received := chunks.map .chunk ++ [.finished]

/- For every body the peer has sent in full, within the limit or not, and every handler. -/
theorem exchangeNeverStuck (chunks : List Bytes) (prog : Program S R) (state : S) {s : Exchange S R}
    (run : Run (step cfg prog) (Fits prog) (start (body chunks) state) s) : ¬ Stuck cfg prog s :=
  soundMoves (runSound (scriptCloses chunks rfl) run)

def oneByte : Bytes := ⟨[0], by decide⟩

def limitless : Config := ⟨none, false, 16384⟩

def echo : Program Bool Nat where
  handler _ := .answer (.ok 200) true false
  body
    | false => .read (fun item => item.isNone)
    | true => .done
  fromError _ := 500

theorem exchangeEightChunks :
    ∃ s, Run (step limitless echo) (Fits echo) (start (body (List.replicate 8 oneByte)) false) s ∧
      s.queue.length = 8 ∧ ¬ Stuck limitless echo s := by
  have ran : (exec (step limitless echo) (start (body (List.replicate 8 oneByte)) false)
      (.main :: List.replicate 16 .reader)).isSome = true := by decide
  obtain ⟨s, reached⟩ := Option.isSome_iff_exists.mp ran
  have filled : (exec (step limitless echo) (start (body (List.replicate 8 oneByte)) false)
      (.main :: List.replicate 16 .reader)).map (·.queue.length) = some 8 := by decide
  have along : Along (step limitless echo) (Fits echo) (start (body (List.replicate 8 oneByte)) false)
      (.main :: List.replicate 16 .reader) := by decide
  have run := alongRun _ reached along
  rw [reached] at filled
  exact ⟨s, run, Option.some.inj filled, exchangeNeverStuck _ echo false run⟩

def jammed : Exchange Bool Nat :=
  ⟨[.finished], .sending (.ok oneByte) (.loop 9), List.replicate 8 (.ok oneByte), .main, .waiting 200 false, [], some 200, []⟩

theorem ninthChunkJams :
    Run (step limitless echo) (fun _ _ => True) (start (body (List.replicate 9 oneByte)) false) jammed ∧
      Stuck limitless echo jammed := by
  refine ⟨execRun (.main :: List.replicate 17 .reader) (by decide), fun task => ?_, nofun⟩
  cases task <;> rfl

/- The next result the reading task takes is an error of the stream or of the timeout, or
a chunk that takes the body over the limit. -/
def meetsError (cfg : Config) (s : Exchange S R) : Bool :=
  match s.reader, s.script with
  | .receiving total, .chunk bytes :: _ => bytes.data ≠ [] && overLimit cfg (saturatingAdd total bytes.data.length)
  | .receiving _, .failed _ :: _ | .receiving _, .timedOut :: _ => true
  | _, _ => false

def isSendFailure : Task → Bool
  | .sendFails _ => true
  | _ => false

structure Untroubled (cfg : Config) (prog : Program S R) (s : Exchange S R) (task : Task) : Prop where
  fits : Fits prog s task
  reads : task = .reader → meetsError cfg s = false
  sends : isSendFailure task = false

instance (cfg : Config) (prog : Program S R) (s : Exchange S R) (task : Task) : Decidable (Untroubled cfg prog s task) :=
  decidable_of_iff (Fits prog s task ∧ (task = .reader → meetsError cfg s = false) ∧ isSendFailure task = false)
    ⟨fun fine => ⟨fine.1, fine.2.1, fine.2.2⟩, fun fine => ⟨fine.fits, fine.reads, fine.sends⟩⟩

def calm : Reader → Bool
  | .receiving _ | .sending _ (.loop _) | .ended (.ok _) => true
  | _ => false

def Wrote (s : Exchange S R) (pieces : List (List UInt8)) (tail : List (Sent R)) : Prop :=
  ∃ response, s.answered = some response ∧ s.log = .response response :: (pieces.map .data ++ tail)

def Delivered (prog : Program S R) (s : Exchange S R) : Prop :=
  match s.main with
  | .handling _ => s.log = [] ∧ s.answered = none ∧ s.produced = []
  | .waiting response _ => s.log = [] ∧ s.answered = some response ∧ s.produced = []
  | .streaming _ => ∃ pieces, Wrote s pieces [] ∧ pieces.flatten = s.produced
  | .sendingData buf _ => ∃ pieces, Wrote s pieces [] ∧ pieces.flatten ++ buf = s.produced
  | .ended (.ok _) => ∃ pieces, Wrote s pieces [.finish] ∧ pieces.flatten = s.produced
  | .ended (.error err) => (∃ pieces, Wrote s pieces [] ∧ pieces.flatten = s.produced) ∧
      ∃ body cause, prog.body body = .fail cause ∧ err = bodyError ++ cause

theorem readerCalm {s t : Exchange S R} (quiet : meetsError cfg s = false) (before : calm s.reader = true)
    (taken : readerStep cfg s = some t) : calm t.reader = true := by
  cases readerCases taken with
  | @receives total next rest reader receiving script came =>
    cases receivedCases came with
    | skips empty | sends more within | ends => rfl
    | gives unfinished exceeds =>
      cases next with
      | chunk bytes => simp [meetsError, receiving, script, exceeds bytes rfl] at quiet
      | finished => exact absurd rfl unfinished
      | failed err => simp [meetsError, receiving, script] at quiet
      | timedOut => simp [meetsError, receiving, script] at quiet
  | @refused item after sending dropped =>
    rw [sending] at before
    cases after with
    | loop total => rfl
    | bail err => cases before
  | @sends item after sending held slot =>
    rw [sending] at before
    cases after with
    | loop total => rfl
    | bail err => cases before

theorem deliveredAside {s t : Exchange S R} (aside : Aside s t) (delivered : Delivered prog s) : Delivered prog t := by
  unfold Delivered Wrote
  rw [aside.main, aside.log, aside.answered, aside.produced]
  exact delivered

theorem mainDelivered {s t : Exchange S R} (read : calm s.reader = true) (delivered : Delivered prog s)
    (taken : MainStep cfg prog s t) : Delivered prog t := by
  unfold Delivered at delivered
  cases taken with
  | handles before after silent =>
    rw [before] at delivered
    unfold Delivered Wrote
    rw [after, silent.log, silent.answered, silent.produced]
    exact delivered
  | @answers state result keeps body before act =>
    rw [before] at delivered
    obtain ⟨log, _, produced⟩ := delivered
    cases keeps with
    | true => exact ⟨log, rfl, produced⟩
    | false =>
      have silent := releaseSilently s .dropped (.waiting (prog.response result) body)
      exact ⟨silent.log.trans log, rfl, silent.produced.trans produced⟩
  | @responds response body before back =>
    rw [before] at delivered
    obtain ⟨log, answered, produced⟩ := delivered
    exact ⟨[], ⟨response, answered, by simp [log]⟩, by simp [produced]⟩
  | gives before back =>
    rw [back] at read
    cases read
  | streams before after silent =>
    rw [before] at delivered
    unfold Delivered Wrote
    rw [after, silent.log, silent.answered, silent.produced]
    exact delivered
  | frames before some_ =>
    rw [before] at delivered
    obtain ⟨pieces, wrote, produced⟩ := delivered
    exact ⟨pieces, wrote, by rw [produced]⟩
  | fails before act =>
    rw [before] at delivered
    exact ⟨delivered, _, _, act, rfl⟩
  | finishes before act =>
    rw [before] at delivered
    obtain ⟨pieces, ⟨response, answered, log⟩, produced⟩ := delivered
    exact ⟨pieces, ⟨response, answered, by simp [log]⟩, produced⟩
  | sentAll before =>
    rw [before] at delivered
    obtain ⟨pieces, wrote, produced⟩ := delivered
    exact ⟨pieces, wrote, by simpa using produced⟩
  | @sends buf body before more =>
    rw [before] at delivered
    obtain ⟨pieces, ⟨response, answered, log⟩, produced⟩ := delivered
    refine ⟨pieces ++ [buf.take (min buf.length cfg.chunkSize)], ⟨response, answered, by simp [log]⟩, ?_⟩
    rw [List.flatten_concat, List.append_assoc, List.take_append_drop]
    exact produced

theorem stepDelivered {s t : Exchange S R} {task : Task} (fine : Untroubled cfg prog s task) (read : calm s.reader = true)
    (delivered : Delivered prog s) (taken : step cfg prog s task = some t) : calm t.reader = true ∧ Delivered prog t := by
  cases task with
  | reader =>
    have aside := (readerAside taken).1
    exact ⟨readerCalm (fine.reads rfl) read taken, deliveredAside aside delivered⟩
  | main =>
    have moved := mainCases taken
    exact ⟨by rw [(mainFrame moved).reader]; exact read, mainDelivered read delivered moved⟩
  | sendFails err => cases fine.sends
  | otherReads =>
    obtain ⟨_, item, rest, queue, rfl⟩ := otherReadsCases taken
    exact ⟨read, deliveredAside ⟨rfl, rfl, rfl, rfl⟩ delivered⟩
  | otherDrops =>
    obtain ⟨_, rfl⟩ := otherDropsCases taken
    exact ⟨read, deliveredAside ⟨rfl, rfl, rfl, rfl⟩ delivered⟩

def isSending : Main S R → Bool
  | .sendingData _ _ => true
  | _ => false

def unsent : Main S R → Nat
  | .sendingData buf _ => buf.length
  | _ => 0

def readerRank (s : Exchange S R) : Nat :=
  2 * s.script.length +
    match s.reader with
    | .receiving _ => 1
    | .sending _ _ => 2
    | .ended _ => 0

def rank (s : Exchange S R) : Nat :=
  2 * readerRank s + s.queue.length + (if s.holder = .elsewhere then 1 else 0) + unsent s.main

def Stays (s t : Exchange S R) : Prop :=
  isWaiting s.main = true ∧ isWaiting t.main = true ∨ isSending s.main = true ∧ isSending t.main = true

theorem readerRankFalls {s t : Exchange S R} (taken : readerStep cfg s = some t) : rank t < rank s := by
  cases readerCases taken with
  | @receives total next rest reader receiving script came =>
    have fewer : readerRank {s with script := rest, reader := reader} + 1 ≤ readerRank s := by
      simp only [readerRank, receiving, script, List.length_cons]
      split <;> omega
    simp only [rank] at fewer ⊢
    omega
  | @refused item after sending dropped =>
    have fewer : readerRank {s with reader := afterRefused after} + 1 ≤ readerRank s := by
      cases after <;> simp [readerRank, sending, afterRefused]
    simp only [rank] at fewer ⊢
    omega
  | @sends item after sending held slot =>
    have fewer : readerRank {s with queue := s.queue ++ [item], reader := afterSent after} + 1 ≤ readerRank s := by
      cases after <;> simp [readerRank, sending, afterSent]
    simp only [rank, List.length_append, List.length_singleton] at fewer ⊢
    omega

theorem rankFalls {s t : Exchange S R} {task : Task} (positive : 0 < cfg.chunkSize)
    (taken : step cfg prog s task = some t) (stays : Stays s t) : rank t < rank s := by
  cases task with
  | reader => exact readerRankFalls taken
  | main =>
    cases mainCases taken with
    | @sends buf body before more =>
      have length : 0 < buf.length := List.length_pos_iff.mpr more
      simp only [rank, readerRank, unsent, before, List.length_drop]
      omega
    | handles before after silent | streams before after silent => simp [Stays, before, isWaiting, isSending] at stays
    | answers before act | responds before read | gives before read | frames before some_ | fails before act
    | finishes before act | sentAll before => simp [Stays, before, isWaiting, isSending] at stays
  | sendFails err =>
    obtain ⟨_, rfl⟩ := sendFailsCases taken
    simp [Stays, isWaiting, isSending] at stays
  | otherReads =>
    obtain ⟨_, item, rest, queue, rfl⟩ := otherReadsCases taken
    simp only [rank, readerRank, queue, List.length_cons]
    omega
  | otherDrops =>
    obtain ⟨elsewhere, rfl⟩ := otherDropsCases taken
    simp [rank, readerRank, elsewhere]

/- As long as the reading task meets no error and the stream takes what is sent: at every
point of every run exactly the response and the bytes of its body so far have been sent,
no task is stuck, and the main task cannot be kept waiting for ever. -/
theorem responseSent (chunks : List Bytes) {ending : Received} (ends : closes cfg [ending] = true)
    (positive : 0 < cfg.chunkSize) (prog : Program S R) (state : S) {s : Exchange S R}
    (run : Run (step cfg prog) (Untroubled cfg prog) (start (chunks.map .chunk ++ [ending]) state) s) :
    Delivered prog s ∧ ¬ Stuck cfg prog s ∧
      ∀ task t, step cfg prog s task = some t → Stays s t → rank t < rank s := by
  have sound := runSound (scriptCloses chunks ends) (runMono (fun _ _ fine => fine.fits) run)
  have sent : calm s.reader = true ∧ Delivered prog s := by
    refine runInvariant (P := fun s => calm s.reader = true ∧ Delivered prog s)
      (fun s task t fine inv taken => stepDelivered fine inv.1 inv.2 taken) run ⟨rfl, rfl, rfl, rfl⟩
  exact ⟨sent.2, soundMoves sound, fun task t taken stays => rankFalls positive taken stays⟩

theorem responseSentEcho :
    ∃ s, Run (step limitless echo) (Untroubled limitless echo) (start ([oneByte].map .chunk ++ [.finished]) false) s ∧
      s.main = .ended (.ok ()) ∧ s.log = [.response 200, .finish] ∧ Delivered echo s := by
  have along : Along (step limitless echo) (Untroubled limitless echo) (start ([oneByte].map .chunk ++ [.finished]) false)
      [.main, .reader, .reader, .reader, .main, .main, .main, .main] := by decide
  have ran : exec (step limitless echo) (start ([oneByte].map .chunk ++ [.finished]) false)
      [.main, .reader, .reader, .reader, .main, .main, .main, .main] =
      some ⟨[], .ended (.ok ()), [], .main, .ended (.ok ()), [.response 200, .finish], some 200, []⟩ := by decide
  have run := alongRun _ ran along
  exact ⟨_, run, rfl, rfl, (responseSent [oneByte] rfl (by decide) echo false run).1⟩

def refusing : Program (Option Nat) Nat where
  handler
    | none => .read (fun item => if item matches some (.error _) then some 413 else some 200)
    | some code => .answer (.ok code) false none
  body _ := .done
  fromError _ := 500

def tight : Config := ⟨some 1, false, 16384⟩

def twoBytes : Bytes := ⟨[0, 0], by decide⟩

def unanswered : Exchange (Option Nat) Nat :=
  ⟨[.finished], .ended (.error tooLarge), [], .dropped, .ended (.error tooLarge), [], some 413, []⟩

theorem tooLargeUnanswered :
    Run (step tight refusing) (fun _ task => isSendFailure task = false) (start (body [twoBytes]) none) unanswered ∧
      unanswered.answered = some 413 ∧ unanswered.main = .ended (.error tooLarge) ∧ unanswered.log = [] := by
  have ran : exec (step tight refusing) (start (body [twoBytes]) none) [.reader, .reader, .main, .main, .main] =
      some unanswered := by decide
  exact ⟨alongRun _ ran (by decide), rfl, rfl, rfl⟩

end Silent.Http3Runs
