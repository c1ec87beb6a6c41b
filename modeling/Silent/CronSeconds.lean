import Silent.SchedulerRuns

/-! Crontab tasks against the wall clock. A run of the scheduler is watched: when a task is
scanned, when a job reads the clock, when a scan is over. A task is served in a second if
one of its jobs reads the clock there, and the pace of the loop decides which seconds those are. -/
namespace Silent.CronSeconds
open ByteText TaskScheduler SchedulerRuns StepSystem

variable {C A : Type}

def second (millis : Int) : Int := millis / 1000

-- A schedule looks at the second of an instant only.
def ofSeconds (covers : C → Int → Bool) (schedule : C) (millis : Int) : Bool := covers schedule (second millis)

structure Watch (C A : Type) where
  machine : Machine C A
  scans : List (Job C A × Int)
  readings : List (Job C A × Int)
  ends : List Int

def watch (now : Int) : Watch C A := ⟨launch now, [], [], []⟩

section
variable (covers : C → Int → Bool)

def scannedNow (m : Machine C A) : Act C A → List (Job C A × Int)
  | .scan =>
      match m.phase with
      | .scanning (task :: _) _ => [(⟨task, m.registered task.id, task.isRemovable (ofSeconds covers) m.now⟩, m.now)]
      | _ => []
  | _ => []

def readNow (m : Machine C A) : Act C A → List (Job C A × Int)
  | .start index => (m.waiting[index]?).toList.map fun job => (job, m.now)
  | _ => []

def endedNow (m : Machine C A) : Act C A → List Int
  | .remove => [m.now]
  | _ => []

def watchStep (w : Watch C A) (act : Act C A) : Option (Watch C A) :=
  (step (ofSeconds covers) w.machine act).map fun machine =>
    ⟨machine, w.scans ++ scannedNow covers w.machine act, w.readings ++ readNow w.machine act, w.ends ++ endedNow w.machine act⟩

def fires (entry : Job C A × Int) : Bool :=
  match entry.1.call (ofSeconds covers) entry.2 with
  | .ok (some _) => true
  | _ => false

def executedIn (w : Watch C A) (id : Text) (serial : Nat) (s : Int) : Nat :=
  w.readings.countP fun entry => fires covers entry && (entry.1.of id serial && second entry.2 = s)

end

def live (m : Machine C A) : Bool :=
  match m.phase with
  | .ended => false
  | _ => true

structure Watched (m : Machine C A) (task : Task C A) (schedule : C) : Prop where
  live : live m = true
  registered : task ∈ m.scheduler.tasks
  crontab : task.processTime = .crontab schedule

def ScannedBy (w : Watch C A) (task : Task C A) (s : Int) : Prop :=
  ∃ entry ∈ w.scans, entry.1.of task.id (w.machine.registered task.id) = true ∧ second entry.2 ≤ s

def ReadIn (w : Watch C A) (task : Task C A) (s : Int) : Prop :=
  ∃ entry ∈ w.readings, entry.1.of task.id (w.machine.registered task.id) = true ∧ second entry.2 = s

/-- From the second of its first scan on, the action of the task is executed once in every
second its schedule covers, at most once so far in the current one, and in no other. -/
structure ServedOnce (covers : C → Int → Bool) (w : Watch C A) (task : Task C A) (schedule : C) : Prop where
  passed : ∀ s, covers schedule s = true → ScannedBy w task s → s < second w.machine.now →
    executedIn covers w task.id (w.machine.registered task.id) s = 1
  current : executedIn covers w task.id (w.machine.registered task.id) (second w.machine.now) ≤ 1
  others : ∀ s, covers schedule s = false → executedIn covers w task.id (w.machine.registered task.id) s = 0

def CronServed (covers : C → Int → Bool) (w : Watch C A) : Prop :=
  ∀ task schedule, Watched w.machine task schedule → ServedOnce covers w task schedule

def Paced (covers : C → Int → Bool) (w : Watch C A) : Act C A → Prop
  | .tick later => ∀ task schedule, Watched w.machine task schedule → ∀ s, covers schedule s = true → ScannedBy w task s →
      second w.machine.now ≤ s → s < second later → ReadIn w task s
  | .start index => ∀ job ∈ w.machine.waiting[index]?, ∀ task schedule, Watched w.machine task schedule →
      job.of task.id (w.machine.registered task.id) = true → covers schedule (second w.machine.now) = true →
      ¬ ReadIn w task (second w.machine.now)
  | _ => True

theorem firesActive (covers : C → Int → Bool) (job : Job C A) (now : Int) :
    fires covers (job, now) = job.task.processTime.isActive (ofSeconds covers) now := by
  have active := callActive (ofSeconds covers) now job
  unfold fires
  cases called : job.call (ofSeconds covers) now with
  | error err =>
    rw [called] at active
    exact (Bool.eq_false_iff.mpr fun on => by obtain ⟨_, same⟩ := active.mpr on; cases same).symm
  | ok action =>
    rw [called] at active
    cases action with
    | some action => exact (active.mp ⟨action, rfl⟩).symm
    | none => exact (Bool.eq_false_iff.mpr fun on => by obtain ⟨_, same⟩ := active.mpr on; cases same).symm

theorem firesCron {covers : C → Int → Bool} {job : Job C A} {schedule : C} (crontab : job.task.processTime = .crontab schedule)
    (now : Int) : fires covers (job, now) = covers schedule (second now) := by
  rw [firesActive, crontab]
  rfl

structure Kept (covers : C → Int → Bool) (w : Watch C A) : Prop where
  distinct : (w.machine.scheduler.tasks.map Task.id).Nodup
  scanning : ∀ left removable, w.machine.phase = .scanning left removable → ∀ task ∈ left, task ∈ w.machine.scheduler.tasks
  known : ∀ entry ∈ w.scans, entry.1.serial ≤ w.machine.registered entry.1.task.id
  same : ∀ entry ∈ w.scans, ∀ task ∈ w.machine.scheduler.tasks,
    entry.1.of task.id (w.machine.registered task.id) = true → entry.1.task = task
  waits : ∀ job ∈ w.machine.waiting, ∃ entry ∈ w.scans, entry.1 = job
  wasRead : ∀ entry ∈ w.readings, (∃ scan ∈ w.scans, scan.1 = entry.1) ∧ entry.2 ≤ w.machine.now
  executed : w.machine.executed = (w.readings.filter (fires covers)).map Prod.fst

theorem watchKept (covers : C → Int → Bool) (now : Int) : Kept covers (watch now : Watch C A) where
  distinct := List.nodup_nil
  scanning _ _ scanning := by cases scanning
  known _ listed := by cases listed
  same _ listed := by cases listed
  waits _ listed := by cases listed
  wasRead _ listed := by cases listed
  executed := rfl

theorem watchServed (covers : C → Int → Bool) (now : Int) : CronServed covers (watch now : Watch C A) :=
  fun _ _ watched => absurd watched.registered List.not_mem_nil

structure Quiet (m n : Machine C A) : Prop where
  now : n.now = m.now
  waiting : n.waiting = m.waiting
  executed : n.executed = m.executed
  live : live n = true → live m = true
  distinct : (m.scheduler.tasks.map Task.id).Nodup → (n.scheduler.tasks.map Task.id).Nodup
  scanning : (∀ left removable, m.phase = .scanning left removable → ∀ task ∈ left, task ∈ m.scheduler.tasks) →
    ∀ left removable, n.phase = .scanning left removable → ∀ task ∈ left, task ∈ n.scheduler.tasks
  tasks : ∀ task ∈ n.scheduler.tasks, task ∈ m.scheduler.tasks ∧ n.registered task.id = m.registered task.id ∨
    m.registered task.id < n.registered task.id
  grown : ∀ id, m.registered id ≤ n.registered id

section
variable {includes : C → Int → Bool} {m n : Machine C A}

theorem quietKeeps {scheduler : Scheduler C A} {phase : Phase C A} (keeps : scheduler.tasks.Sublist m.scheduler.tasks)
    (free : phase.free = true) (live : live {m with scheduler, phase} = true → live m = true) :
    Quiet m {m with scheduler, phase} where
  now := rfl
  waiting := rfl
  executed := rfl
  live := live
  distinct nodup := nodup.sublist (keeps.map _)
  scanning _ left removable same := by
    dsimp only at same
    rw [same] at free
    cases free
  tasks task among := .inl ⟨keeps.subset among, rfl⟩
  grown _ := Nat.le_refl _

theorem lockedQuiet {scheduler : Scheduler C A} (taken : locked m scheduler = some n)
    (keeps : scheduler.tasks.Sublist m.scheduler.tasks) : Quiet m n := by
  obtain ⟨free, rfl⟩ := lockedTaken taken
  exact quietKeeps keeps free id

theorem removeAllSublist (removable : List Text) (scheduler : Scheduler C A) :
    (scheduler.removeAll removable).tasks.Sublist scheduler.tasks := by
  induction removable generalizing scheduler with
  | nil => exact List.Sublist.refl _
  | cons id removable ih => exact (ih (scheduler.removeTask id)).trans List.filter_sublist

theorem addTaskQuiet {task : Task C A} (taken : step includes m (.addTask task) = some n) : Quiet m n := by
  have answers := addTaskAnswers m.scheduler task
  cases found : m.scheduler.getTask task.id with
  | some other =>
    rw [found] at answers
    simp only [step, answers] at taken
    exact lockedQuiet taken (List.Sublist.refl _)
  | none =>
    rw [found] at answers
    simp only [step, answers] at taken
    obtain ⟨free, rfl⟩ := lockedTaken taken
    have added (nodup : (m.scheduler.tasks.map Task.id).Nodup) :
        ((perform includes m.scheduler (.addTask task)).1.tasks.map Task.id).Nodup := performDistinct includes (.addTask task) nodup
    simp only [perform, answers] at added
    refine ⟨rfl, rfl, rfl, id, added, fun _ left removable same => ?_, fun other among => ?_, fun id => ?_⟩
    · simp only at same free
      rw [same] at free
      cases free
    · by_cases new : other.id = task.id
      · refine .inr ?_
        simp [new]
      · refine .inl ⟨?_, by simp [new]⟩
        rcases List.mem_append.mp among with old | last
        · exact old
        · exact absurd (congrArg Task.id (List.mem_singleton.mp last)) new
    · by_cases same : id = task.id <;> simp [same]

theorem quietStep {act : Act C A} (taken : step includes m act = some n) (quiet : ∀ now, act ≠ .tick now) (still : act ≠ .scan)
    (idle : ∀ index, act ≠ .start index) : Quiet m n := by
  cases act with
  | tick now => exact absurd rfl (quiet now)
  | scan => exact absurd rfl still
  | start index => exact absurd rfl (idle index)
  | run =>
    obtain ⟨rests, rfl⟩ := runMoves taken
    refine ⟨rfl, rfl, rfl, fun _ => by simp [live, rests], id, fun _ left removable same task among => ?_,
      fun task among => .inl ⟨among, rfl⟩, fun _ => Nat.le_refl _⟩
    cases same
    exact among
  | remove =>
    obtain ⟨removable, scanning, rfl⟩ := removeMoves taken
    exact quietKeeps (removeAllSublist removable m.scheduler) rfl fun _ => by simp [live, scanning]
  | wake =>
    obtain ⟨sleeping, rfl⟩ := wakeMoves taken
    exact quietKeeps (List.Sublist.refl m.scheduler.tasks) (by cases m.scheduler.schedule <;> rfl)
      fun _ => by simp [live, sleeping]
  | reset =>
    obtain ⟨_, rfl⟩ := resetMoves taken
    exact quietKeeps (List.Sublist.refl _) rfl fun alive => (by cases alive)
  | finish index =>
    obtain ⟨job, _, rfl⟩ := finishMoves taken
    exact ⟨rfl, rfl, rfl, id, id, id, fun task among => .inl ⟨among, rfl⟩, fun _ => Nat.le_refl _⟩
  | addTask task => exact addTaskQuiet taken
  | removeTask id => exact lockedQuiet taken List.filter_sublist
  | removeTaskSub id => exact lockedQuiet taken List.filter_sublist
  | stop => exact lockedQuiet taken (List.Sublist.refl _)

end

section
variable {covers : C → Int → Bool} {w v : Watch C A}

theorem watchTaken {act : Act C A} (taken : watchStep covers w act = some v) :
    step (ofSeconds covers) w.machine act = some v.machine ∧ v.scans = w.scans ++ scannedNow covers w.machine act ∧
      v.readings = w.readings ++ readNow w.machine act := by
  obtain ⟨machine, moved, rfl⟩ := Option.map_eq_some_iff.mp taken
  exact ⟨moved, rfl, rfl⟩

theorem unscannedIdle (kept : Kept covers w) {id : Text} {serial : Nat} (above : w.machine.registered id < serial) (s : Int) :
    executedIn covers w id serial s = 0 ∧ ∀ entry ∈ w.scans, entry.1.of id serial = false := by
  have none_ : ∀ entry ∈ w.scans, entry.1.of id serial = false := by
    intro entry among
    rw [Bool.eq_false_iff]
    intro same
    simp only [Job.of, Bool.and_eq_true, decide_eq_true_eq] at same
    have known := kept.known entry among
    rw [same.1, same.2] at known
    omega
  refine ⟨List.countP_eq_zero.mpr fun entry among counted => ?_, none_⟩
  obtain ⟨⟨scan, listed, same⟩, _⟩ := kept.wasRead entry among
  have free := none_ scan listed
  rw [same] at free
  simp [free] at counted

theorem quietKept (kept : Kept covers w) (quiet : Quiet w.machine v.machine) (scans : v.scans = w.scans)
    (readings : v.readings = w.readings) : Kept covers v where
  distinct := quiet.distinct kept.distinct
  scanning := quiet.scanning kept.scanning
  known entry listed := Nat.le_trans (kept.known entry (scans ▸ listed)) (quiet.grown _)
  same entry listed task among same := by
    rcases quiet.tasks task among with ⟨old, number⟩ | above
    · exact kept.same entry (scans ▸ listed) task old (number ▸ same)
    · rw [(unscannedIdle kept above 0).2 entry (scans ▸ listed)] at same
      cases same
  waits job among := by
    rw [scans]
    exact kept.waits job (quiet.waiting ▸ among)
  wasRead entry among := by
    rw [scans, quiet.now]
    exact kept.wasRead entry (readings ▸ among)
  executed := by rw [quiet.executed, readings, kept.executed]

theorem quietServed (kept : Kept covers w) (served : CronServed covers w) (quiet : Quiet w.machine v.machine)
    (scans : v.scans = w.scans) (readings : v.readings = w.readings) : CronServed covers v := by
  intro task schedule watched
  have same (serial : Nat) (s : Int) : executedIn covers v task.id serial s = executedIn covers w task.id serial s := by
    rw [executedIn, executedIn, readings]
  rcases quiet.tasks task watched.registered with ⟨old, number⟩ | above
  · obtain ⟨passed, current, others⟩ := served task schedule ⟨quiet.live watched.live, old, watched.crontab⟩
    refine ⟨fun s covered scanned before => ?_, ?_, fun s free => ?_⟩
    · rw [same, number]
      refine passed s covered ?_ (quiet.now ▸ before)
      unfold ScannedBy at scanned ⊢
      rwa [scans, number] at scanned
    · rw [same, number, quiet.now]
      exact current
    · rw [same, number]
      exact others s free
  · refine ⟨fun s covered scanned before => ?_, ?_, fun s free => ?_⟩
    · obtain ⟨entry, listed, own, _⟩ := scanned
      rw [(unscannedIdle kept above s).2 entry (scans ▸ listed)] at own
      cases own
    · rw [same, (unscannedIdle kept above _).1]
      exact Nat.zero_le 1
    · rw [same, (unscannedIdle kept above _).1]

theorem scanTaken (taken : watchStep covers w .scan = some v) : ∃ task left removable, w.machine.phase = .scanning (task :: left) removable ∧
    v.machine = {w.machine with
      phase := .scanning left (Scheduler.scanTask (ofSeconds covers) w.machine.now removable task)
      waiting := w.machine.waiting ++
        [⟨task, w.machine.registered task.id, task.isRemovable (ofSeconds covers) w.machine.now⟩]} ∧
    v.scans = w.scans ++ [(⟨task, w.machine.registered task.id, task.isRemovable (ofSeconds covers) w.machine.now⟩, w.machine.now)] ∧
    v.readings = w.readings := by
  obtain ⟨moved, scans, readings⟩ := watchTaken taken
  obtain ⟨task, left, removable, phase, machine⟩ := scanMoves moved
  refine ⟨task, left, removable, phase, machine, ?_, ?_⟩
  · rw [scans, scannedNow, phase]
  · rw [readings]
    exact List.append_nil _

theorem scanKept (kept : Kept covers w) (taken : watchStep covers w .scan = some v) : Kept covers v := by
  obtain ⟨task, left, removable, phase, machine, scans, readings⟩ := scanTaken taken
  have inside : task ∈ w.machine.scheduler.tasks := kept.scanning _ _ phase task List.mem_cons_self
  refine ⟨by rw [machine]; exact kept.distinct, ?_, ?_, ?_, ?_, ?_, by rw [machine, readings]; exact kept.executed⟩
  · intro rest removable' same other among
    rw [machine] at same ⊢
    cases same
    exact kept.scanning _ _ phase other (List.mem_cons_of_mem _ among)
  · intro entry listed
    rw [scans] at listed
    rw [machine]
    rcases List.mem_append.mp listed with old | new
    · exact kept.known entry old
    · exact List.mem_singleton.mp new ▸ Nat.le_refl _
  · intro entry listed other among same
    rw [scans] at listed
    rw [machine] at among same
    rcases List.mem_append.mp listed with old | new
    · exact kept.same entry old other among same
    · rw [List.mem_singleton.mp new] at same ⊢
      simp only [Job.of, Bool.and_eq_true, decide_eq_true_eq] at same
      have first := getMember kept.distinct inside
      rw [same.1, getMember kept.distinct among] at first
      exact (Option.some.inj first).symm
  · intro job among
    rw [machine] at among
    rw [scans]
    rcases List.mem_append.mp among with old | new
    · obtain ⟨entry, listed, same⟩ := kept.waits job old
      exact ⟨entry, List.mem_append_left _ listed, same⟩
    · exact ⟨_, List.mem_append_right _ (List.mem_singleton_self _), (List.mem_singleton.mp new).symm⟩
  · intro entry among
    rw [readings] at among
    rw [scans, machine]
    obtain ⟨⟨scan, listed, same⟩, past⟩ := kept.wasRead entry among
    exact ⟨⟨scan, List.mem_append_left _ listed, same⟩, past⟩

theorem scanServed (served : CronServed covers w) (taken : watchStep covers w .scan = some v) : CronServed covers v := by
  obtain ⟨first, left, removable, phase, machine, scans, readings⟩ := scanTaken taken
  intro task schedule watched
  rw [machine] at watched
  obtain ⟨passed, current, others⟩ := served task schedule ⟨by simp [live, phase], watched.registered, watched.crontab⟩
  refine ⟨fun s covered scanned before => ?_, ?_, fun s free => ?_⟩
  · rw [machine] at before
    obtain ⟨entry, listed, own, early⟩ := scanned
    rw [scans] at listed
    rw [machine] at own
    rw [executedIn, readings, machine]
    rcases List.mem_append.mp listed with old | new
    · exact passed s covered ⟨entry, old, own, early⟩ before
    · rw [List.mem_singleton.mp new] at early
      simp only at early before
      omega
  · rw [executedIn, readings, machine]
    exact current
  · rw [executedIn, readings, machine]
    exact others s free

theorem secondMono {a b : Int} (before : a ≤ b) : second a ≤ second b := Int.ediv_le_ediv (by decide) before

theorem unreadAhead (kept : Kept covers w) {s : Int} (ahead : second w.machine.now < s) (id : Text) (serial : Nat) :
    executedIn covers w id serial s = 0 := by
  refine List.countP_eq_zero.mpr fun entry among counted => ?_
  simp only [Bool.and_eq_true, decide_eq_true_eq] at counted
  have past := secondMono (kept.wasRead entry among).2
  omega

theorem ownTask (kept : Kept covers w) {task : Task C A} {entry : Job C A × Int} (registered : task ∈ w.machine.scheduler.tasks)
    (listed : entry ∈ w.readings) (own : entry.1.of task.id (w.machine.registered task.id) = true) : entry.1.task = task := by
  obtain ⟨⟨scan, scanned, same⟩, _⟩ := kept.wasRead entry listed
  rw [← same] at own ⊢
  exact kept.same scan scanned task registered own

theorem readExecuted (kept : Kept covers w) {task : Task C A} {schedule : C} (watched : Watched w.machine task schedule) {s : Int}
    (covered : covers schedule s = true) :
    ReadIn w task s ↔ 0 < executedIn covers w task.id (w.machine.registered task.id) s := by
  rw [executedIn, List.countP_pos_iff]
  refine exists_congr fun entry => and_congr_right fun listed => ?_
  simp only [Bool.and_eq_true, decide_eq_true_eq]
  constructor
  · rintro ⟨own, here⟩
    have crontab : entry.1.task.processTime = .crontab schedule := by
      rw [ownTask kept watched.registered listed own, watched.crontab]
    exact ⟨by rw [firesCron crontab entry.2, here, covered], own, here⟩
  · rintro ⟨_, own, here⟩
    exact ⟨own, here⟩

theorem tickTaken {later : Int} (taken : watchStep covers w (.tick later) = some v) :
    w.machine.now ≤ later ∧ v.machine = {w.machine with now := later} ∧ v.scans = w.scans ∧ v.readings = w.readings := by
  obtain ⟨moved, scans, readings⟩ := watchTaken taken
  simp only [step, Option.ite_none_right_eq_some, Option.some.injEq] at moved
  exact ⟨moved.1, moved.2.symm, scans.trans (List.append_nil _), readings.trans (List.append_nil _)⟩

theorem tickKept {later : Int} (kept : Kept covers w) (taken : watchStep covers w (.tick later) = some v) : Kept covers v := by
  obtain ⟨forward, machine, scans, readings⟩ := tickTaken taken
  refine ⟨?_, ?_, ?_, ?_, ?_, ?_, ?_⟩ <;> rw [machine]
  · exact kept.distinct
  · exact kept.scanning
  · rw [scans]
    exact kept.known
  · rw [scans]
    exact kept.same
  · rw [scans]
    exact kept.waits
  · rw [scans, readings]
    exact fun entry among => ⟨(kept.wasRead entry among).1, Int.le_trans (kept.wasRead entry among).2 forward⟩
  · rw [readings]
    exact kept.executed

theorem tickServed {later : Int} (kept : Kept covers w) (served : CronServed covers w) (paced : Paced covers w (.tick later))
    (taken : watchStep covers w (.tick later) = some v) : CronServed covers v := by
  obtain ⟨forward, machine, scans, readings⟩ := tickTaken taken
  intro task schedule watched
  rw [machine] at watched
  have before : Watched w.machine task schedule := ⟨watched.live, watched.registered, watched.crontab⟩
  obtain ⟨passed, current, others⟩ := served task schedule before
  have same (s : Int) : executedIn covers v task.id (v.machine.registered task.id) s =
      executedIn covers w task.id (w.machine.registered task.id) s := by rw [executedIn, executedIn, readings, machine]
  have once (s : Int) (reached : s = second w.machine.now) : executedIn covers w task.id (w.machine.registered task.id) s ≤ 1 :=
    reached ▸ current
  refine ⟨fun s covered scanned over_ => ?_, ?_, fun s free => (same s).trans (others s free)⟩
  · rw [same]
    rw [machine] at over_
    have early : ScannedBy w task s := by
      unfold ScannedBy at scanned ⊢
      rwa [scans, machine] at scanned
    by_cases gone : s < second w.machine.now
    · exact passed s covered early gone
    · have read := paced task schedule before s covered early (Int.not_lt.mp gone) over_
      have positive := (readExecuted kept before covered).mp read
      have here : ¬ second w.machine.now < s := fun ahead => by
        rw [unreadAhead kept ahead] at positive
        omega
      have most := once s (by omega)
      omega
  · rw [same, machine]
    by_cases still : second later = second w.machine.now
    · exact once _ still
    · have ahead := secondMono forward
      rw [unreadAhead kept (by simp only; omega)]
      exact Nat.zero_le 1

theorem tickPaced {later : Int} (kept : Kept covers w) (served : ∀ v, watchStep covers w (.tick later) = some v → CronServed covers v) :
    Paced covers w (.tick later) := by
  intro task schedule watched s covered scanned here leaves
  have forward : w.machine.now ≤ later := by
    by_contra back
    have earlier := secondMono (Int.le_of_lt (Int.not_le.mp back))
    omega
  have moved : watchStep covers w (.tick later) = some ⟨{w.machine with now := later}, w.scans ++ [], w.readings ++ [], w.ends ++ []⟩ := by
    simp only [watchStep, step, if_pos forward]
    rfl
  have after := served _ moved task schedule ⟨watched.live, watched.registered, watched.crontab⟩
  have counted := after.passed s covered (by simpa [ScannedBy] using scanned) leaves
  have once : executedIn covers w task.id (w.machine.registered task.id) s = 1 := by simpa [executedIn] using counted
  exact (readExecuted kept watched covered).mpr (once.symm ▸ Nat.one_pos)

theorem startTaken {index : Nat} (taken : watchStep covers w (.start index) = some v) :
    ∃ job ∈ w.machine.waiting[index]?, v.scans = w.scans ∧ v.readings = w.readings ++ [(job, w.machine.now)] ∧
      v.machine.scheduler = w.machine.scheduler ∧ v.machine.registered = w.machine.registered ∧ v.machine.now = w.machine.now ∧
      v.machine.phase = w.machine.phase ∧ v.machine.waiting = w.machine.waiting.eraseIdx index ∧
      v.machine.executed = w.machine.executed ++ if fires covers (job, w.machine.now) then [job] else [] := by
  obtain ⟨moved, scans, readings⟩ := watchTaken taken
  cases found : w.machine.waiting[index]? with
  | none => simp [step, found] at moved
  | some job =>
    simp only [readNow, found] at readings
    simp only [step, found] at moved
    split at moved
    · rename_i action called
      have fired : fires covers (job, w.machine.now) = true := by simp only [fires, called]
      rw [← Option.some.inj moved]
      exact ⟨job, rfl, scans.trans (List.append_nil _), readings, rfl, rfl, rfl, rfl, rfl, by rw [if_pos fired]⟩
    · rename_i idle
      have silent : ¬ fires covers (job, w.machine.now) = true := by
        unfold fires
        split
        · rename_i action called
          exact absurd called (idle action)
        · exact Bool.false_ne_true
      rw [← Option.some.inj moved]
      exact ⟨job, rfl, scans.trans (List.append_nil _), readings, rfl, rfl, rfl, rfl, rfl, by rw [if_neg silent, List.append_nil]⟩

theorem startKept {index : Nat} (kept : Kept covers w) (taken : watchStep covers w (.start index) = some v) : Kept covers v := by
  obtain ⟨job, found, scans, readings, scheduler, registered, now, phase, waiting, executed⟩ := startTaken taken
  have waits := kept.waits job (List.mem_of_getElem? found)
  refine ⟨by rw [scheduler]; exact kept.distinct, by rw [scheduler, phase]; exact kept.scanning,
    by rw [scans, registered]; exact kept.known, by rw [scans, scheduler, registered]; exact kept.same, ?_, ?_, ?_⟩
  · intro other among
    rw [waiting] at among
    rw [scans]
    exact kept.waits other (List.mem_of_mem_eraseIdx among)
  · intro entry among
    rw [readings] at among
    rw [scans, now]
    rcases List.mem_append.mp among with old | new
    · exact kept.wasRead entry old
    · rw [List.mem_singleton.mp new]
      exact ⟨waits, Int.le_refl _⟩
  · rw [executed, readings, kept.executed, List.filter_append, List.map_append]
    by_cases fired : fires covers (job, w.machine.now) = true <;> simp [fired]

theorem executedGrows {id : Text} {serial : Nat} {s : Int} {job : Job C A} (readings : v.readings = w.readings ++ [(job, w.machine.now)]) :
    executedIn covers v id serial s = executedIn covers w id serial s +
      if fires covers (job, w.machine.now) = true ∧ job.of id serial = true ∧ second w.machine.now = s then 1 else 0 := by
  rw [executedIn, executedIn, readings, List.countP_append, List.countP_singleton]
  simp only [Bool.and_eq_true, decide_eq_true_eq]

theorem waitingTask (kept : Kept covers w) {task : Task C A} {job : Job C A} (registered : task ∈ w.machine.scheduler.tasks)
    (waits : job ∈ w.machine.waiting) (own : job.of task.id (w.machine.registered task.id) = true) : job.task = task := by
  obtain ⟨scan, scanned, rfl⟩ := kept.waits job waits
  exact kept.same scan scanned task registered own

theorem startServed {index : Nat} (kept : Kept covers w) (served : CronServed covers w) (paced : Paced covers w (.start index))
    (taken : watchStep covers w (.start index) = some v) : CronServed covers v := by
  obtain ⟨job, found, scans, readings, scheduler, registered, now, phase, _, _⟩ := startTaken taken
  intro task schedule watched
  have alive : live w.machine = true := by
    have later := watched.live
    unfold live at later ⊢
    rwa [phase] at later
  have before : Watched w.machine task schedule := ⟨alive, scheduler ▸ watched.registered, watched.crontab⟩
  obtain ⟨passed, current, others⟩ := served task schedule before
  have covered (own : job.of task.id (w.machine.registered task.id) = true) (fired : fires covers (job, w.machine.now) = true) :
      covers schedule (second w.machine.now) = true := by
    rw [← fired, firesCron]
    rw [waitingTask kept before.registered (List.mem_of_getElem? found) own, before.crontab]
  have grows (s : Int) := @executedGrows _ _ covers w v task.id (w.machine.registered task.id) s job readings
  refine ⟨fun s covers_ scanned earlier => ?_, ?_, fun s free => ?_⟩ <;> rw [registered, grows]
  · have early : ScannedBy w task s := by
      unfold ScannedBy at scanned ⊢
      rwa [scans, registered] at scanned
    rw [now] at earlier
    have other : ¬ second w.machine.now = s := by omega
    rw [if_neg fun all => other all.2.2]
    exact passed s covers_ early earlier
  · rw [now]
    split
    · rename_i fired
      have unread := paced job found task schedule before fired.2.1 (covered fired.2.1 fired.1)
      rw [readExecuted kept before (covered fired.2.1 fired.1)] at unread
      omega
    · exact current
  · have silent : ¬(fires covers (job, w.machine.now) = true ∧ job.of task.id (w.machine.registered task.id) = true ∧
        second w.machine.now = s) := by
      rintro ⟨fired, own, here⟩
      have clash := covered own fired
      rw [here, free] at clash
      cases clash
    rw [if_neg silent]
    exact others s free

theorem startPaced {index : Nat} (kept : Kept covers w)
    (served : ∀ v, watchStep covers w (.start index) = some v → CronServed covers v) : Paced covers w (.start index) := by
  intro job found task schedule watched own covered read
  have moves : ∃ v, watchStep covers w (.start index) = some v := by
    simp only [watchStep, step, show w.machine.waiting[index]? = some job from found]
    split <;> exact ⟨_, rfl⟩
  obtain ⟨v, taken⟩ := moves
  obtain ⟨job', found', scans, readings, scheduler, registered, now, phase, _, _⟩ := startTaken taken
  cases Option.some.inj (found.symm.trans found')
  have after : Watched v.machine task schedule := by
    refine ⟨?_, scheduler ▸ watched.registered, watched.crontab⟩
    have alive := watched.live
    unfold live at alive ⊢
    rwa [phase]
  have current := (served v taken task schedule after).current
  have fired : fires covers (job, w.machine.now) = true := by
    have crontab : job.task.processTime = .crontab schedule := by
      rw [waitingTask kept watched.registered (List.mem_of_getElem? found) own, watched.crontab]
    rw [firesCron crontab, covered]
  have positive := (readExecuted kept watched covered).mp read
  rw [registered, now, executedGrows readings, if_pos ⟨fired, own, rfl⟩] at current
  omega

theorem stepKept {act : Act C A} (kept : Kept covers w) (taken : watchStep covers w act = some v) : Kept covers v := by
  cases act with
  | tick later => exact tickKept kept taken
  | scan => exact scanKept kept taken
  | start index => exact startKept kept taken
  | run | remove | wake | reset | finish index | addTask task | removeTask id | removeTaskSub id | stop =>
    obtain ⟨moved, scans, readings⟩ := watchTaken taken
    exact quietKept kept (quietStep moved nofun nofun nofun) (scans.trans (List.append_nil _)) (readings.trans (List.append_nil _))

theorem stepServed {act : Act C A} (kept : Kept covers w) (served : CronServed covers w) (paced : Paced covers w act)
    (taken : watchStep covers w act = some v) : CronServed covers v := by
  cases act with
  | tick later => exact tickServed kept served paced taken
  | scan => exact scanServed served taken
  | start index => exact startServed kept served paced taken
  | run | remove | wake | reset | finish index | addTask task | removeTask id | removeTaskSub id | stop =>
    obtain ⟨moved, scans, readings⟩ := watchTaken taken
    exact quietServed kept served (quietStep moved nofun nofun nofun) (scans.trans (List.append_nil _)) (readings.trans (List.append_nil _))

theorem stepPaced {act : Act C A} (kept : Kept covers w) (served : ∀ v, watchStep covers w act = some v → CronServed covers v) :
    Paced covers w act := by
  cases act with
  | tick later => exact tickPaced kept served
  | start index => exact startPaced kept served
  | run | scan | remove | wake | reset | finish index | addTask task | removeTask id | removeTaskSub id | stop => trivial

end

def ServedAfter (covers : C → Int → Bool) (w : Watch C A) (act : Act C A) : Prop :=
  ∀ v, watchStep covers w act = some v → CronServed covers v

/-- Along a run the crontab tasks are served in every state exactly if every step keeps the pace. -/
theorem cronServedIff (covers : C → Int → Bool) (now : Int) (acts : List (Act C A)) :
    Along (watchStep covers) (Paced covers) (watch now) acts ↔ Along (watchStep covers) (ServedAfter covers) (watch now) acts := by
  constructor
  · exact alongMono (P := fun w => Kept covers w ∧ CronServed covers w)
      (fun w act v paced both taken => ⟨stepKept both.1 taken, stepServed both.1 both.2 paced taken⟩)
      (fun w act both paced v taken => stepServed both.1 both.2 paced taken) acts ⟨watchKept covers now, watchServed covers now⟩
  · exact alongMono (P := fun w => Kept covers w) (fun w act v _ kept taken => stepKept kept taken)
      (fun w act kept served => stepPaced kept served) acts (watchKept covers now)

-- A scan starts at least a second after the one before it is over, and after its jobs have read the clock.
def WellPaced (w : Watch C A) : Act C A → Prop
  | .run => w.machine.waiting.isEmpty = true ∧ ∀ ended ∈ w.ends, ended + 1000 ≤ w.machine.now
  | _ => True

instance (w : Watch C A) : (act : Act C A) → Decidable (WellPaced w act)
  | .run => inferInstanceAs (Decidable (_ ∧ _))
  | .tick _ | .scan | .remove | .wake | .reset | .start _ | .finish _ | .addTask _ | .removeTask _ | .removeTaskSub _ | .stop =>
      isTrue trivial

def everySecond : Task Unit Unit := ⟨"tick".toList, .crontab (), [], (), (), false⟩

def always (_ : Unit) (_ : Int) : Bool := true

def skipping : List (Act Unit Unit) :=
  [.addTask everySecond, .run, .scan, .remove, .start 0, .tick 2000, .wake, .run, .scan, .remove, .start 0]

def doubling : List (Act Unit Unit) :=
  [.addTask everySecond, .run, .scan, .remove, .tick 1000, .start 0, .wake, .run, .scan, .remove, .start 0]

theorem secondsSkippedAndDoubled :
    (∃ w, exec (watchStep always) (watch 999) skipping = some w ∧ Along (watchStep always) WellPaced (watch 999) skipping ∧
      executedIn always w "tick".toList 1 1 = 0 ∧ ¬ CronServed always w) ∧
    ∃ w, exec (watchStep always) (watch 0) doubling = some w ∧ Along (watchStep always) WellPaced (watch 0) doubling ∧
      executedIn always w "tick".toList 1 1 = 2 ∧ ¬ CronServed always w := by
  refine ⟨⟨_, rfl, by decide, by decide, fun served => ?_⟩, ⟨_, rfl, by decide, by decide, fun served => ?_⟩⟩
  · have once := (served everySecond () ⟨rfl, List.mem_singleton_self _, rfl⟩).passed 1 rfl ⟨_, List.mem_cons_self, by decide⟩ (by decide)
    exact absurd once (by decide)
  · have once := (served everySecond () ⟨rfl, List.mem_singleton_self _, rfl⟩).current
    exact absurd once (by decide)

end Silent.CronSeconds
