import Silent.CronSeconds

/-! When the loop keeps up with the clock. Scans of a task are at least a second apart, so the
`k`-th of them comes no earlier than `k` seconds after the first. The time the loop loses from
scan to scan and the delay of a job add up, and a second is left out as soon as they come to
more than the first scan has left of its own second. -/
namespace Silent.CronPace
open ByteText TaskScheduler SchedulerRuns StepSystem CronSeconds

variable {C A : Type}

def scanInstants (w : Watch C A) (id : Text) (serial : Nat) : List Int :=
  (w.scans.filter fun entry => entry.1.of id serial).map Prod.snd

def pending (w : Watch C A) (id : Text) (serial : Nat) : Nat := w.machine.waiting.countP (Job.of id serial)

def reads (w : Watch C A) (id : Text) (serial : Nat) : Nat := w.readings.countP fun entry => entry.1.of id serial

def isCrontab (task : Task C A) : Bool := task.processTime matches .crontab _

/- When the `k`-th second after that of a crontab task's first scan is over, the task has been
scanned for the `k`-th time, and the job of that scan no longer waits. -/
def Timely (w : Watch C A) : Act C A → Prop
  | .tick later => live w.machine = true → ∀ task ∈ w.machine.scheduler.tasks, isCrontab task = true →
      ∀ first ∈ (scanInstants w task.id (w.machine.registered task.id)).head?,
        second later ≤ second first + (scanInstants w task.id (w.machine.registered task.id)).length ∧
          ∀ job ∈ w.machine.waiting, job.of task.id (w.machine.registered task.id) = true →
            second later < second first + (scanInstants w task.id (w.machine.registered task.id)).length
  | _ => True

instance (w : Watch C A) : (act : Act C A) → Decidable (Timely w act)
  | .tick _ => inferInstanceAs (Decidable (_ → ∀ task ∈ _, _ → ∀ first ∈ _, _ ∧ ∀ job ∈ _, _ → _))
  | .run | .scan | .remove | .wake | .reset | .start _ | .finish _ | .addTask _ | .removeTask _ | .removeTaskSub _ | .stop =>
      isTrue trivial

structure Counts (w : Watch C A) : Prop where
  lone : ∀ id, w.machine.waiting.countP (fun job => job.task.id = id) ≤ 1
  spaced : ∀ id serial, (scanInstants w id serial).Pairwise (fun a b => a + 1000 ≤ b)
  counted : ∀ id serial, reads w id serial + pending w id serial = (scanInstants w id serial).length

structure Rounds (w : Watch C A) : Prop where
  past : ∀ entry ∈ w.scans, entry.2 ≤ w.machine.now
  rested : w.machine.phase.free = true → ∀ entry ∈ w.scans, ∃ ended ∈ w.ends, entry.2 ≤ ended
  unscanned : ∀ left removable, w.machine.phase = .scanning left removable → (left.map Task.id).Nodup ∧
    ∀ task ∈ left, (∀ entry ∈ w.scans, entry.1.task.id = task.id → entry.2 + 1000 ≤ w.machine.now) ∧
      ∀ job ∈ w.machine.waiting, job.task.id ≠ task.id
  counts : Counts w

theorem watchRounds (now : Int) : Rounds (watch now : Watch C A) where
  past _ listed := by cases listed
  rested _ _ listed := by cases listed
  unscanned _ _ scanning := by cases scanning
  counts := ⟨fun _ => Nat.zero_le 1, fun _ _ => List.Pairwise.nil, fun _ _ => rfl⟩

section
variable {covers : C → Int → Bool} {w v : Watch C A}

theorem watchEnds {act : Act C A} (taken : watchStep covers w act = some v) : v.ends = w.ends ++ endedNow w.machine act := by
  obtain ⟨machine, _, rfl⟩ := Option.map_eq_some_iff.mp taken
  rfl

theorem instantsKept (scans : v.scans = w.scans) (id : Text) (serial : Nat) : scanInstants v id serial = scanInstants w id serial := by
  rw [scanInstants, scanInstants, scans]

theorem instantsScanned {task : Task C A} {removable : Bool}
    (scans : v.scans = w.scans ++ [(⟨task, w.machine.registered task.id, removable⟩, w.machine.now)]) (id : Text) (serial : Nat) :
    scanInstants v id serial =
      scanInstants w id serial ++ if task.id = id ∧ w.machine.registered task.id = serial then [w.machine.now] else [] := by
  rw [scanInstants, scanInstants, scans, List.filter_append, List.map_append]
  simp only [List.filter_cons, List.filter_nil, Job.of, Bool.and_eq_true, decide_eq_true_eq]
  split <;> rfl

theorem memInstants {id : Text} {serial : Nat} {instant : Int} :
    instant ∈ scanInstants w id serial ↔ ∃ entry ∈ w.scans, entry.1.of id serial = true ∧ entry.2 = instant := by
  simp only [scanInstants, List.mem_map, List.mem_filter, and_assoc]

theorem countsSame (counts : Counts w) (scans : v.scans = w.scans) (readings : v.readings = w.readings)
    (waiting : v.machine.waiting = w.machine.waiting) : Counts v := by
  refine ⟨fun id => ?_, fun id serial => ?_, fun id serial => ?_⟩
  · rw [waiting]
    exact counts.lone id
  · rw [instantsKept scans]
    exact counts.spaced id serial
  · rw [instantsKept scans, reads, pending, readings, waiting]
    exact counts.counted id serial

structure Aside (w v : Watch C A) : Prop where
  now : v.machine.now = w.machine.now
  waiting : v.machine.waiting = w.machine.waiting
  scans : v.scans = w.scans
  readings : v.readings = w.readings
  ends : v.ends = w.ends
  phase : v.machine.phase = w.machine.phase ∨ v.machine.phase.free = true ∧ w.machine.phase.free = true

theorem asideRounds (aside : Aside w v) (rounds : Rounds w) : Rounds v := by
  refine ⟨?_, fun free => ?_, fun left removable scanning => ?_, countsSame rounds.counts aside.scans aside.readings aside.waiting⟩
  · rw [aside.scans, aside.now]
    exact rounds.past
  · rw [aside.scans, aside.ends]
    refine rounds.rested ?_
    rcases aside.phase with same | ⟨_, before⟩
    · rwa [← same]
    · exact before
  · rw [aside.scans, aside.now, aside.waiting]
    rcases aside.phase with same | ⟨after, _⟩
    · exact rounds.unscanned left removable (same ▸ scanning)
    · rw [scanning] at after
      cases after

theorem lockedPhase {m n : Machine C A} {scheduler : Scheduler C A} (taken : locked m scheduler = some n) : n.phase = m.phase := by
  obtain ⟨_, rfl⟩ := lockedTaken taken
  rfl

theorem addTaskPhase {includes : C → Int → Bool} {m n : Machine C A} {task : Task C A}
    (taken : step includes m (.addTask task) = some n) : n.phase = m.phase := by
  simp only [step] at taken
  split at taken
  · have same := lockedPhase taken
    exact same
  · exact lockedPhase taken

theorem asideStep {act : Act C A} (taken : watchStep covers w act = some v) (quiet : ∀ now, act ≠ .tick now) (begun : act ≠ .run)
    (still : act ≠ .scan) (going : act ≠ .remove) (idle : ∀ index, act ≠ .start index) : Aside w v := by
  obtain ⟨moved, scans, readings⟩ := watchTaken taken
  have ends := watchEnds taken
  have kept := quietStep moved quiet still idle
  cases act with
  | tick now => exact absurd rfl (quiet now)
  | run => exact absurd rfl begun
  | scan => exact absurd rfl still
  | remove => exact absurd rfl going
  | start index => exact absurd rfl (idle index)
  | wake =>
    obtain ⟨sleeping, machine⟩ := wakeMoves moved
    refine ⟨kept.now, kept.waiting, scans.trans (List.append_nil _), readings.trans (List.append_nil _), ends.trans (List.append_nil _),
      .inr ⟨?_, by rw [sleeping]; rfl⟩⟩
    rw [machine]
    dsimp only
    split <;> rfl
  | reset =>
    obtain ⟨stopping, machine⟩ := resetMoves moved
    exact ⟨kept.now, kept.waiting, scans.trans (List.append_nil _), readings.trans (List.append_nil _), ends.trans (List.append_nil _),
      .inr ⟨by rw [machine]; rfl, by rw [stopping]; rfl⟩⟩
  | finish index =>
    obtain ⟨job, _, machine⟩ := finishMoves moved
    exact ⟨kept.now, kept.waiting, scans.trans (List.append_nil _), readings.trans (List.append_nil _), ends.trans (List.append_nil _),
      .inl (by rw [machine])⟩
  | addTask task =>
    exact ⟨kept.now, kept.waiting, scans.trans (List.append_nil _), readings.trans (List.append_nil _), ends.trans (List.append_nil _),
      .inl (addTaskPhase moved)⟩
  | removeTask id | removeTaskSub id | stop =>
    exact ⟨kept.now, kept.waiting, scans.trans (List.append_nil _), readings.trans (List.append_nil _), ends.trans (List.append_nil _),
      .inl (lockedPhase moved)⟩

theorem tickRounds {later : Int} (rounds : Rounds w) (taken : watchStep covers w (.tick later) = some v) : Rounds v := by
  obtain ⟨forward, machine, scans, readings⟩ := tickTaken taken
  have ends : v.ends = w.ends := (watchEnds taken).trans (List.append_nil _)
  refine ⟨?_, ?_, fun left removable scanning => ?_, countsSame rounds.counts scans readings (by rw [machine])⟩
  · rw [scans, machine]
    exact fun entry listed => Int.le_trans (rounds.past entry listed) forward
  · rw [scans, ends, machine]
    exact rounds.rested
  · rw [machine] at scanning ⊢
    rw [scans]
    obtain ⟨distinct, apart⟩ := rounds.unscanned left removable scanning
    exact ⟨distinct, fun task among => ⟨fun entry listed own => Int.le_trans ((apart task among).1 entry listed own) forward,
      (apart task among).2⟩⟩

theorem runRounds (kept : Kept covers w) (rounds : Rounds w) (paced : WellPaced w (.run : Act C A))
    (taken : watchStep covers w .run = some v) : Rounds v := by
  obtain ⟨moved, scans, readings⟩ := watchTaken taken
  have scans' : v.scans = w.scans := scans.trans (List.append_nil _)
  obtain ⟨idle, machine⟩ := runMoves moved
  have free : w.machine.phase.free = true := by
    rw [idle]
    rfl
  have empty : w.machine.waiting = [] := List.isEmpty_iff.mp paced.1
  refine ⟨?_, fun free' => ?_, fun left removable scanning => ?_,
    countsSame rounds.counts scans' (readings.trans (List.append_nil _)) (by rw [machine])⟩
  · rw [scans', machine]
    exact rounds.past
  · rw [machine] at free'
    cases free'
  · rw [machine] at scanning ⊢
    cases scanning
    rw [scans', empty]
    refine ⟨kept.distinct, fun task _ => ⟨fun entry listed _ => ?_, fun job among => absurd among List.not_mem_nil⟩⟩
    obtain ⟨ended, over_, before⟩ := rounds.rested free entry listed
    have rested := paced.2 ended over_
    dsimp only
    omega

theorem removeRounds (rounds : Rounds w) (taken : watchStep covers w .remove = some v) : Rounds v := by
  obtain ⟨moved, scans, readings⟩ := watchTaken taken
  have ends : v.ends = w.ends ++ [w.machine.now] := watchEnds taken
  have scans' : v.scans = w.scans := scans.trans (List.append_nil _)
  obtain ⟨removable, _, machine⟩ := removeMoves moved
  refine ⟨?_, fun _ entry listed => ?_, fun left removable scanning => ?_,
    countsSame rounds.counts scans' (readings.trans (List.append_nil _)) (by rw [machine])⟩
  · rw [scans', machine]
    exact rounds.past
  · rw [scans'] at listed
    rw [ends]
    exact ⟨w.machine.now, List.mem_append_right _ (List.mem_singleton_self _), rounds.past entry listed⟩
  · rw [machine] at scanning
    cases scanning

theorem startRounds {index : Nat} (rounds : Rounds w) (taken : watchStep covers w (.start index) = some v) : Rounds v := by
  obtain ⟨job, found, scans, readings, _, _, now, phase, waiting, _⟩ := startTaken taken
  have ends : v.ends = w.ends := (watchEnds taken).trans (List.append_nil _)
  have perm := takenPerm found
  refine ⟨?_, ?_, ?_, ⟨fun id => ?_, fun id serial => ?_, fun id serial => ?_⟩⟩
  · rw [scans, now]
    exact rounds.past
  · rw [scans, ends, phase]
    exact rounds.rested
  · rw [scans, phase, now, waiting]
    intro left removable scanning
    obtain ⟨distinct, apart⟩ := rounds.unscanned left removable scanning
    exact ⟨distinct, fun task among => ⟨(apart task among).1, fun other waits => (apart task among).2 other (List.mem_of_mem_eraseIdx waits)⟩⟩
  · rw [waiting]
    exact Nat.le_trans (List.eraseIdx_sublist _ _).countP_le (rounds.counts.lone id)
  · rw [instantsKept scans]
    exact rounds.counts.spaced id serial
  · have before := rounds.counts.counted id serial
    rw [pending, perm.countP_eq, List.countP_cons] at before
    rw [instantsKept scans, reads, pending, readings, waiting, List.countP_append, List.countP_singleton]
    rw [reads] at before
    dsimp only
    omega

theorem scanCounts {task : Task C A} {removable : Bool} (counts : Counts w)
    (scans : v.scans = w.scans ++ [(⟨task, w.machine.registered task.id, removable⟩, w.machine.now)]) (readings : v.readings = w.readings)
    (waiting : v.machine.waiting = w.machine.waiting ++ [⟨task, w.machine.registered task.id, removable⟩])
    (rested : ∀ entry ∈ w.scans, entry.1.task.id = task.id → entry.2 + 1000 ≤ w.machine.now)
    (idle : ∀ job ∈ w.machine.waiting, job.task.id ≠ task.id) : Counts v := by
  refine ⟨fun id => ?_, fun id serial => ?_, fun id serial => ?_⟩
  · rw [waiting, List.countP_append, List.countP_singleton]
    by_cases own : task.id = id
    · have none_ : w.machine.waiting.countP (fun job => job.task.id = id) = 0 :=
        List.countP_eq_zero.mpr fun job waits => by simpa [own] using idle job waits
      rw [none_]
      split <;> omega
    · have before := counts.lone id
      simpa [own] using before
  · rw [instantsScanned scans]
    split
    · rename_i own
      refine List.pairwise_append.mpr ⟨counts.spaced id serial, List.pairwise_singleton _ _, fun instant among now new => ?_⟩
      obtain ⟨entry, scanned, same, rfl⟩ := memInstants.mp among
      simp only [Job.of, Bool.and_eq_true, decide_eq_true_eq] at same
      rw [List.mem_singleton.mp new]
      exact rested entry scanned (same.1.trans own.1.symm)
    · rw [List.append_nil]
      exact counts.spaced id serial
  · have before := counts.counted id serial
    rw [instantsScanned scans, reads, pending, readings, waiting, List.countP_append, List.countP_singleton, List.length_append]
    rw [reads, pending] at before
    have mark : Job.of id serial (⟨task, w.machine.registered task.id, removable⟩ : Job C A) =
        decide (task.id = id ∧ w.machine.registered task.id = serial) := by simp [Job.of]
    rw [mark]
    by_cases own : task.id = id ∧ w.machine.registered task.id = serial
    · rw [if_pos own, if_pos (decide_eq_true own), List.length_singleton]
      omega
    · rw [if_neg own, if_neg (by simpa using own), List.length_nil]
      omega

theorem scanRounds (rounds : Rounds w) (taken : watchStep covers w .scan = some v) : Rounds v := by
  obtain ⟨task, left, removable, phase, machine, scans, readings⟩ := scanTaken taken
  obtain ⟨distinct, apart⟩ := rounds.unscanned _ _ phase
  obtain ⟨fresh, distinct'⟩ := List.nodup_cons.mp distinct
  obtain ⟨rested, idle⟩ := apart task List.mem_cons_self
  have other : ∀ later ∈ left, task.id ≠ later.id := fun later among same => fresh (same ▸ List.mem_map_of_mem among)
  refine ⟨?_, fun free => ?_, fun rest removable' scanning => ?_,
    scanCounts rounds.counts scans readings (by rw [machine]) rested idle⟩
  · intro entry listed
    rw [scans] at listed
    rw [machine]
    rcases List.mem_append.mp listed with old | new
    · exact rounds.past entry old
    · exact List.mem_singleton.mp new ▸ Int.le_refl _
  · rw [machine] at free
    cases free
  · rw [machine] at scanning ⊢
    cases scanning
    refine ⟨distinct', fun later among => ⟨fun entry listed own => ?_, fun job waits => ?_⟩⟩
    · rw [scans] at listed
      rcases List.mem_append.mp listed with old | new
      · exact (apart later (List.mem_cons_of_mem _ among)).1 entry old own
      · rw [List.mem_singleton.mp new] at own
        exact absurd own (other later among)
    · rcases List.mem_append.mp waits with old | new
      · exact (apart later (List.mem_cons_of_mem _ among)).2 job old
      · rw [List.mem_singleton.mp new]
        exact other later among

theorem stepRounds {act : Act C A} (kept : Kept covers w) (rounds : Rounds w) (paced : WellPaced w act)
    (taken : watchStep covers w act = some v) : Rounds v := by
  cases act with
  | tick later => exact tickRounds rounds taken
  | run => exact runRounds kept rounds paced taken
  | scan => exact scanRounds rounds taken
  | remove => exact removeRounds rounds taken
  | start index => exact startRounds rounds taken
  | wake | reset | finish index | addTask task | removeTask id | removeTaskSub id | stop =>
    exact asideRounds (asideStep taken nofun nofun nofun nofun nofun) rounds

theorem spacedReaches {first bound : Int} {rest : List Int} (spaced : (first :: rest).Pairwise (fun a b => a + 1000 ≤ b))
    (below : ∀ instant ∈ first :: rest, instant ≤ bound) : first + 1000 * rest.length ≤ bound := by
  induction rest generalizing first with
  | nil => simpa using below first List.mem_cons_self
  | cons next rest ih =>
    obtain ⟨gaps, spaced'⟩ := List.pairwise_cons.mp spaced
    have later := ih spaced' fun instant among => below instant (List.mem_cons_of_mem _ among)
    have gap := gaps next List.mem_cons_self
    rw [List.length_cons]
    push_cast
    omega

structure Ledger (w : Watch C A) (id : Text) (serial : Nat) (first : Int) : Prop where
  read : ∀ s, (∃ entry ∈ w.readings, entry.1.of id serial = true ∧ second entry.2 = s) ↔
    second first ≤ s ∧ s < second first + reads w id serial
  reached : second w.machine.now ≤ second first + reads w id serial

def OnTime (w : Watch C A) : Prop :=
  ∀ task schedule, Watched w.machine task schedule → ∀ first ∈ (scanInstants w task.id (w.machine.registered task.id)).head?,
    Ledger w task.id (w.machine.registered task.id) first

def InTime (w : Watch C A) : Act C A → Prop
  | .tick later => ∀ task schedule, Watched w.machine task schedule →
      ∀ first ∈ (scanInstants w task.id (w.machine.registered task.id)).head?,
        second later ≤ second first + reads w task.id (w.machine.registered task.id)
  | _ => True

theorem crontabWatched (alive : live w.machine = true) {task : Task C A} (among : task ∈ w.machine.scheduler.tasks)
    (crontab : isCrontab task = true) : ∃ schedule, Watched w.machine task schedule := by
  unfold isCrontab at crontab
  split at crontab
  · rename_i schedule process
    exact ⟨schedule, alive, among, process⟩
  · cases crontab

theorem watchedCrontab {task : Task C A} {schedule : C} (watched : Watched w.machine task schedule) : isCrontab task = true := by
  rw [isCrontab, watched.crontab]

theorem pendingLone (counts : Counts w) (id : Text) (serial : Nat) : pending w id serial ≤ 1 := by
  refine Nat.le_trans (List.countP_mono_left fun job _ own => ?_) (counts.lone id)
  simp only [Job.of, Bool.and_eq_true, decide_eq_true_eq] at own
  exact decide_eq_true own.1

theorem timelyInTime (counts : Counts w) (act : Act C A) : Timely w act ↔ InTime w act := by
  cases act with
  | tick later =>
    constructor
    · intro timely task schedule watched first among
      obtain ⟨scanned, started⟩ := timely watched.live task watched.registered (watchedCrontab watched) first among
      have counted := counts.counted task.id (w.machine.registered task.id)
      have lone := pendingLone counts task.id (w.machine.registered task.id)
      by_cases waits : pending w task.id (w.machine.registered task.id) = 0
      · omega
      · obtain ⟨job, here, own⟩ := List.countP_pos_iff.mp (Nat.pos_of_ne_zero waits)
        have early := started job here own
        omega
    · intro inTime alive task among crontab first head
      obtain ⟨schedule, watched⟩ := crontabWatched alive among crontab
      have counted := counts.counted task.id (w.machine.registered task.id)
      have bound := inTime task schedule watched first head
      refine ⟨by omega, fun job here own => ?_⟩
      have waits : 0 < pending w task.id (w.machine.registered task.id) := List.countP_pos_iff.mpr ⟨job, here, own⟩
      omega
  | run | scan | remove | wake | reset | start index | finish index | addTask task | removeTask id | removeTaskSub id | stop =>
    exact Iff.rfl

theorem startSecond (rounds : Rounds w) {id : Text} {serial : Nat} {first : Int} (head : first ∈ (scanInstants w id serial).head?)
    (ledger : Ledger w id serial first) {job : Job C A} (waits : job ∈ w.machine.waiting) (own : job.of id serial = true) :
    second w.machine.now = second first + reads w id serial := by
  have whole := List.eq_cons_of_mem_head? head
  have spaced := rounds.counts.spaced id serial
  have counted := rounds.counts.counted id serial
  have waiting : 0 < pending w id serial := List.countP_pos_iff.mpr ⟨job, waits, own⟩
  have below : ∀ instant ∈ scanInstants w id serial, instant ≤ w.machine.now := by
    intro instant among
    obtain ⟨entry, listed, _, rfl⟩ := memInstants.mp among
    exact rounds.past entry listed
  rw [whole] at spaced counted below
  have reaches := spacedReaches spaced below
  have reached := ledger.reached
  rw [List.length_cons] at counted
  unfold second at reached ⊢
  omega

theorem headEarliest (counts : Counts w) {id : Text} {serial : Nat} {first : Int} (head : first ∈ (scanInstants w id serial).head?)
    {instant : Int} (among : instant ∈ scanInstants w id serial) : first ≤ instant := by
  have spaced := counts.spaced id serial
  rw [List.eq_cons_of_mem_head? head] at spaced among
  rcases List.mem_cons.mp among with rfl | later
  · exact Int.le_refl _
  · have gap := (List.pairwise_cons.mp spaced).1 instant later
    omega

theorem headOf {id : Text} {serial : Nat} {instant : Int} (among : instant ∈ scanInstants w id serial) :
    ∃ first, first ∈ (scanInstants w id serial).head? :=
  ⟨_, List.head_mem_head? (List.ne_nil_of_mem among)⟩

theorem inTimePaced (kept : Kept covers w) (rounds : Rounds w) (onTime : OnTime w) {act : Act C A} (inTime : InTime w act) :
    Paced covers w act := by
  cases act with
  | tick later =>
    intro task schedule watched s _ scanned _ leaves
    obtain ⟨entry, listed, own, early⟩ := scanned
    have among := memInstants.mpr ⟨entry, listed, own, rfl⟩
    obtain ⟨first, head⟩ := headOf among
    have earliest := secondMono (headEarliest rounds.counts head among)
    have bound := inTime task schedule watched first head
    exact ((onTime task schedule watched first head).read s).mpr ⟨by omega, by omega⟩
  | start index =>
    intro job found task schedule watched own _ read
    have waits := List.mem_of_getElem? found
    obtain ⟨scan, scanned, rfl⟩ := kept.waits job waits
    obtain ⟨first, head⟩ := headOf (memInstants.mpr ⟨scan, scanned, own, rfl⟩)
    have ledger := onTime task schedule watched first head
    have next_ := startSecond rounds head ledger waits own
    have earlier := ((ledger.read _).mp read).2
    omega
  | run | scan | remove | wake | reset | finish index | addTask task | removeTask id | removeTaskSub id | stop => trivial

theorem ledgerSame {id : Text} {serial : Nat} {first : Int} (ledger : Ledger w id serial first) (readings : v.readings = w.readings)
    (reached : second v.machine.now ≤ second first + reads w id serial) : Ledger v id serial first := by
  have same : reads v id serial = reads w id serial := by rw [reads, reads, readings]
  exact ⟨by rw [readings, same]; exact ledger.read, by rw [same]; exact reached⟩

theorem quietOnTime (kept : Kept covers w) (onTime : OnTime w) (quiet : Quiet w.machine v.machine) (scans : v.scans = w.scans)
    (readings : v.readings = w.readings) : OnTime v := by
  intro task schedule watched first head
  rw [instantsKept scans] at head
  rcases quiet.tasks task watched.registered with ⟨old, number⟩ | above
  · rw [number] at head ⊢
    have ledger := onTime task schedule ⟨quiet.live watched.live, old, watched.crontab⟩ first head
    exact ledgerSame ledger readings (by rw [quiet.now]; exact ledger.reached)
  · obtain ⟨entry, listed, own, _⟩ := memInstants.mp (List.mem_of_mem_head? head)
    rw [(unscannedIdle kept above 0).2 entry listed] at own
    cases own

theorem tickOnTime {later : Int} (onTime : OnTime w) (inTime : InTime w (.tick later))
    (taken : watchStep covers w (.tick later) = some v) : OnTime v := by
  obtain ⟨_, machine, scans, readings⟩ := tickTaken taken
  intro task schedule watched first head
  rw [machine] at watched head ⊢
  have before : Watched w.machine task schedule := ⟨watched.live, watched.registered, watched.crontab⟩
  have head' : first ∈ (scanInstants w task.id (w.machine.registered task.id)).head? := by
    rwa [instantsKept scans] at head
  exact ledgerSame (onTime task schedule before first head') readings (by rw [machine]; exact inTime task schedule before first head')

theorem unscannedUnread (kept : Kept covers w) {id : Text} {serial : Nat} (unscanned : scanInstants w id serial = []) :
    ∀ entry ∈ w.readings, entry.1.of id serial = false := by
  intro entry among
  obtain ⟨⟨scan, listed, same⟩, _⟩ := kept.wasRead entry among
  by_contra own
  have found := memInstants.mpr ⟨scan, listed, by rw [same]; simpa using own, rfl⟩
  rw [unscanned] at found
  cases found

theorem scanOnTime (kept : Kept covers w) (onTime : OnTime w) (taken : watchStep covers w .scan = some v) : OnTime v := by
  obtain ⟨scanned, left, removable, phase, machine, scans, readings⟩ := scanTaken taken
  intro task schedule watched first head
  have number : v.machine.registered = w.machine.registered := by rw [machine]
  have now : v.machine.now = w.machine.now := by rw [machine]
  rw [machine] at watched
  have before : Watched w.machine task schedule := ⟨by simp [live, phase], watched.registered, watched.crontab⟩
  rw [number] at head ⊢
  rw [instantsScanned scans, List.head?_append] at head
  cases old : (scanInstants w task.id (w.machine.registered task.id)).head? with
  | some other =>
    rw [old] at head
    cases Option.some.inj head
    have ledger := onTime task schedule before first old
    exact ledgerSame ledger readings (by rw [now]; exact ledger.reached)
  | none =>
    have fresh : first = w.machine.now := by
      rw [old, Option.none_or] at head
      split at head
      · exact (Option.some.inj head).symm
      · cases head
    have unread := unscannedUnread kept (List.head?_eq_none_iff.mp old)
    have zero : reads w task.id (w.machine.registered task.id) = 0 :=
      List.countP_eq_zero.mpr fun entry among => by simp [unread entry among]
    refine ledgerSame ⟨fun s => ⟨fun read => ?_, fun bounds => ?_⟩, ?_⟩ readings ?_
    · obtain ⟨entry, among, own, _⟩ := read
      rw [unread entry among] at own
      cases own
    · omega
    · rw [fresh, zero]
      simp
    · rw [now, fresh, zero]
      simp

theorem startOnTime {index : Nat} (rounds : Rounds w) (onTime : OnTime w) (taken : watchStep covers w (.start index) = some v) :
    OnTime v := by
  obtain ⟨job, found, scans, readings, scheduler, registered, now, phase, _, _⟩ := startTaken taken
  intro task schedule watched first head
  have alive : live w.machine = true := by
    have later := watched.live
    unfold live at later ⊢
    rwa [phase] at later
  have head' : first ∈ (scanInstants w task.id (w.machine.registered task.id)).head? := by
    rwa [instantsKept scans, registered] at head
  have ledger := onTime task schedule ⟨alive, scheduler ▸ watched.registered, watched.crontab⟩ first head'
  rw [registered]
  have grown : reads v task.id (w.machine.registered task.id) = reads w task.id (w.machine.registered task.id) +
      if job.of task.id (w.machine.registered task.id) = true then 1 else 0 := by
    rw [reads, reads, readings, List.countP_append, List.countP_singleton]
  by_cases own : job.of task.id (w.machine.registered task.id) = true
  · have here := startSecond rounds head' ledger (List.mem_of_getElem? found) own
    rw [if_pos own] at grown
    refine ⟨fun s => ?_, by rw [now, grown]; push_cast; omega⟩
    rw [grown, readings]
    have reading : (∃ entry ∈ w.readings ++ [(job, w.machine.now)],
        entry.1.of task.id (w.machine.registered task.id) = true ∧ second entry.2 = s) ↔
        (∃ entry ∈ w.readings, entry.1.of task.id (w.machine.registered task.id) = true ∧ second entry.2 = s) ∨
          second w.machine.now = s := by
      simp only [List.mem_append, List.mem_singleton, or_and_right, exists_or, exists_eq_left, own, true_and]
    rw [reading, ledger.read s]
    push_cast
    omega
  · rw [if_neg own] at grown
    refine ⟨fun s => ?_, by rw [now, grown]; exact ledger.reached⟩
    rw [grown, readings, Nat.add_zero, ← ledger.read s]
    simp only [List.mem_append, List.mem_singleton, or_and_right, exists_or, exists_eq_left, own, Bool.false_eq_true, false_and, or_false]

theorem stepOnTime {act : Act C A} (kept : Kept covers w) (rounds : Rounds w) (onTime : OnTime w) (inTime : InTime w act)
    (taken : watchStep covers w act = some v) : OnTime v := by
  cases act with
  | tick later => exact tickOnTime onTime inTime taken
  | scan => exact scanOnTime kept onTime taken
  | start index => exact startOnTime rounds onTime taken
  | run | remove | wake | reset | finish index | addTask task | removeTask id | removeTaskSub id | stop =>
    obtain ⟨moved, scans, readings⟩ := watchTaken taken
    exact quietOnTime kept onTime (quietStep moved nofun nofun nofun) (scans.trans (List.append_nil _))
      (readings.trans (List.append_nil _))

theorem servedInTime (always : ∀ schedule s, covers schedule s = true) (kept : Kept covers w) (onTime : OnTime w)
    {act : Act C A} (served : ServedAfter covers w act) : InTime w act := by
  cases act with
  | tick later =>
    intro task schedule watched first head
    by_contra late
    have ledger := onTime task schedule watched first head
    have reached := ledger.reached
    obtain ⟨entry, listed, own, same⟩ := memInstants.mp (List.mem_of_mem_head? head)
    have read := tickPaced kept served task schedule watched (second first + reads w task.id (w.machine.registered task.id))
      (always _ _) ⟨entry, listed, own, by rw [same]; omega⟩ reached (by omega)
    have before := ((ledger.read _).mp read).2
    omega
  | run | scan | remove | wake | reset | start index | finish index | addTask task | removeTask id | removeTaskSub id | stop => trivial

/- All that the steps of a loop keep that scans no task twice within a second. -/
structure InStep (covers : C → Int → Bool) (w : Watch C A) : Prop where
  kept : Kept covers w
  rounds : Rounds w
  onTime : OnTime w

theorem watchInStep (covers : C → Int → Bool) (now : Int) : InStep covers (watch now : Watch C A) :=
  ⟨watchKept covers now, watchRounds now, fun _ _ watched => absurd watched.registered List.not_mem_nil⟩

theorem stepInStep {act : Act C A} (inStep : InStep covers w) (paced : WellPaced w act) (inTime : InTime w act)
    (taken : watchStep covers w act = some v) : InStep covers v :=
  ⟨stepKept inStep.kept taken, stepRounds inStep.kept inStep.rounds paced taken,
    stepOnTime inStep.kept inStep.rounds inStep.onTime inTime taken⟩

end

/- A run whose scans and jobs are in time serves every crontab task, whatever its schedule; with
a schedule of every second no other run does. -/
theorem timelyServes (covers : C → Int → Bool) (now : Int) (acts : List (Act C A))
    (paced : Along (watchStep covers) WellPaced (watch now) acts) :
    (Along (watchStep covers) Timely (watch now) acts → Along (watchStep covers) (ServedAfter covers) (watch now) acts) ∧
      ((∀ schedule s, covers schedule s = true) → Along (watchStep covers) (ServedAfter covers) (watch now) acts →
        Along (watchStep covers) Timely (watch now) acts) := by
  refine ⟨fun timely => ?_, fun always served => ?_⟩
  · refine (cronServedIff covers now acts).mp (alongMono (P := InStep covers) (fun w act v both inStep taken => ?_)
      (fun w act inStep both => ?_) acts (watchInStep covers now) (alongBoth acts paced timely))
    · exact stepInStep inStep both.1 ((timelyInTime inStep.rounds.counts act).mp both.2) taken
    · exact inTimePaced inStep.kept inStep.rounds inStep.onTime ((timelyInTime inStep.rounds.counts act).mp both.2)
  · refine alongMono (P := InStep covers) (fun w act v both inStep taken => ?_) (fun w act inStep both => ?_) acts
      (watchInStep covers now) (alongBoth acts paced served)
    · exact stepInStep inStep both.1 (servedInTime always inStep.kept inStep.onTime both.2) taken
    · exact (timelyInTime inStep.rounds.counts act).mpr (servedInTime always inStep.kept inStep.onTime both.2)

def steady : List (Act Unit Unit) :=
  [.addTask everySecond, .run, .scan, .remove, .tick 300, .start 0, .tick 1250, .wake, .run, .scan, .remove, .tick 1300, .start 0,
    .tick 2300, .wake, .run, .scan, .remove, .start 0, .tick 3000]

theorem steadyServes : Along (watchStep always) Timely (watch 200) steady ∧
    Along (watchStep always) (ServedAfter always) (watch 200) steady :=
  ⟨by decide, (timelyServes always 200 steady (by decide)).1 (by decide)⟩

end Silent.CronPace
