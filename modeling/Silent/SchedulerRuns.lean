import Mathlib.Data.List.Perm.Basic
import Silent.StepSystem
import Silent.TaskScheduler

/-! `Scheduler::schedule` next to the jobs it spawns and the users of the same scheduler.
The clock only moves forward and is read where the code reads it: by the scan for every
task, and by every job when its thread or future gets to run. Registrations of one id
are numbered so that a task added again under a used id is another task. -/
namespace Silent.SchedulerRuns
open ByteText TaskScheduler StepSystem

variable {C A : Type}

structure Job (C A : Type) where
  task : Task C A
  serial : Nat
  due : Bool

inductive Phase (C A : Type) where
  | idle
  | scanning (left : List (Task C A)) (removable : List Text)
  | sleeping
  | stopping
  | ended

structure Machine (C A : Type) where
  scheduler : Scheduler C A
  registered : Text → Nat
  now : Int
  phase : Phase C A
  waiting : List (Job C A)
  running : List (Job C A)
  finished : List (Job C A)
  executed : List (Job C A)

inductive Act (C A : Type) where
  | tick (now : Int)
  | run
  | scan
  | remove
  | wake
  | reset
  | start (index : Nat)
  | finish (index : Nat)
  | addTask (task : Task C A)
  | removeTask (id : Text)
  | removeTaskSub (id : Text)
  | stop

def launch (now : Int) : Machine C A := ⟨.new, fun _ => 0, now, .idle, [], [], [], []⟩

def spawned (m : Machine C A) : List (Job C A) := m.waiting ++ (m.running ++ m.finished)

def Job.call (includes : C → Int → Bool) (now : Int) (job : Job C A) : Except Text (Option A) :=
  if job.task.isAsync then job.task.runAsync includes now else job.task.run includes now

def Phase.free : Phase C A → Bool
  | .scanning _ _ => false
  | _ => true

-- Users get the lock between two scans only.
def locked (m : Machine C A) (scheduler : Scheduler C A) : Option (Machine C A) :=
  if m.phase.free then some {m with scheduler} else none

def step (includes : C → Int → Bool) (m : Machine C A) : Act C A → Option (Machine C A)
  | .tick now => if m.now ≤ now then some {m with now} else none
  | .run =>
      match m.phase with
      | .idle => some {m with phase := .scanning m.scheduler.tasks []}
      | _ => none
  | .scan =>
      match m.phase with
      | .scanning (task :: left) removable =>
          some {m with
            phase := .scanning left (Scheduler.scanTask includes m.now removable task)
            waiting := m.waiting ++ [⟨task, m.registered task.id, task.isRemovable includes m.now⟩]}
      | _ => none
  | .remove =>
      match m.phase with
      | .scanning [] removable => some {m with scheduler := m.scheduler.removeAll removable, phase := .sleeping}
      | _ => none
  | .wake =>
      match m.phase with
      | .sleeping => some {m with phase := if m.scheduler.schedule then .idle else .stopping}
      | _ => none
  | .reset =>
      match m.phase with
      | .stopping => some {m with scheduler := {m.scheduler with schedule := true}, phase := .ended}
      | _ => none
  | .start index =>
      match m.waiting[index]? with
      | some job =>
          match job.call includes m.now with
          | .ok (some _) =>
              some {m with
                waiting := m.waiting.eraseIdx index
                running := m.running ++ [job]
                executed := m.executed ++ [job]}
          | _ => some {m with waiting := m.waiting.eraseIdx index, finished := m.finished ++ [job]}
      | none => none
  | .finish index =>
      match m.running[index]? with
      | some job => some {m with running := m.running.eraseIdx index, finished := m.finished ++ [job]}
      | none => none
  | .addTask task =>
      match m.scheduler.addTask task with
      | (scheduler, .ok ()) =>
          locked {m with registered := Function.update m.registered task.id (m.registered task.id + 1)} scheduler
      | (scheduler, .error _) => locked m scheduler
  | .removeTask id => locked m (m.scheduler.removeTask id)
  | .removeTaskSub id => locked m (m.scheduler.removeTaskSub id)
  | .stop => locked m m.scheduler.stop

def Job.oneShot (job : Job C A) : Bool :=
  match job.task.processTime with
  | .datetime _ => true
  | .crontab _ => false

def Job.of (id : Text) (serial : Nat) (job : Job C A) : Bool := job.task.id = id && job.serial = serial

def executions (m : Machine C A) (id : Text) (serial : Nat) : Nat := m.executed.countP (fun job => job.oneShot && job.of id serial)

/-- A `due` job is the one whose scan removes its task. -/
structure ExactlyOnce (m : Machine C A) : Prop where
  most : ∀ id serial, executions m id serial ≤ 1
  whole : ∀ job ∈ m.finished, job.due = true → executions m job.task.id job.serial = 1

def Prompt (m : Machine C A) : Act C A → Prop
  | .start index => ∀ job ∈ m.waiting[index]?, job.due = false → due m.now job.task = false
  | _ => True

instance (m : Machine C A) : (act : Act C A) → Decidable (Prompt m act)
  | .start _ => inferInstanceAs (Decidable (∀ job ∈ _, _))
  | .tick _ | .run | .scan | .remove | .wake | .reset | .finish _ | .addTask _ | .removeTask _ | .removeTaskSub _ | .stop =>
      isTrue trivial

def dueFor (id : Text) (serial : Nat) (job : Job C A) : Bool := job.due && job.of id serial

structure Sound (m : Machine C A) : Prop where
  distinct : (m.scheduler.tasks.map Task.id).Nodup
  scanned : ∀ left removable, m.phase = .scanning left removable →
    (left.map Task.id).Nodup ∧ ∀ task ∈ left, task ∈ m.scheduler.tasks ∧ task.id ∉ removable
  known : ∀ job ∈ spawned m, job.serial ≤ m.registered job.task.id
  elapsed : ∀ job ∈ spawned m, job.due = true → ∃ millis, job.task.processTime = .datetime millis ∧ millis ≤ m.now
  leaving : ∀ job ∈ spawned m, job.due = true → job.serial = m.registered job.task.id →
    m.scheduler.getTask job.task.id ≠ none → ∃ left removable, m.phase = .scanning left removable ∧ job.task.id ∈ removable
  single : ∀ id serial, (spawned m).countP (dueFor id serial) ≤ 1
  ran : ∀ id serial, executions m id serial = (m.running ++ m.finished).countP (dueFor id serial)

theorem launchSound (now : Int) : Sound (launch now : Machine C A) where
  distinct := List.nodup_nil
  scanned _ _ scanning := by cases scanning
  known _ listed := by cases listed
  elapsed _ listed := by cases listed
  leaving _ listed := by cases listed
  single _ _ := Nat.zero_le _
  ran _ _ := rfl

theorem soundExactlyOnce {m : Machine C A} (sound : Sound m) : ExactlyOnce m where
  most id serial := by
    have single := sound.single id serial
    rw [spawned, List.countP_append] at single
    rw [sound.ran]
    omega
  whole job ended due := by
    have single := sound.single job.task.id job.serial
    rw [spawned, List.countP_append] at single
    have counted : 0 < (m.running ++ m.finished).countP (dueFor job.task.id job.serial) :=
      List.countP_pos_iff.mpr ⟨job, List.mem_append_right _ ended, by simp [dueFor, Job.of, due]⟩
    rw [sound.ran]
    omega

section
variable {includes : C → Int → Bool} {m n : Machine C A}

theorem moveSound (sound : Sound m) (scheduler : n.scheduler = m.scheduler) (registered : n.registered = m.registered)
    (now : n.now = m.now) (phase : n.phase = m.phase) (same : (spawned n).Perm (spawned m))
    (ran : ∀ id serial, executions n id serial = (n.running ++ n.finished).countP (dueFor id serial)) : Sound n where
  distinct := scheduler ▸ sound.distinct
  scanned left removable scanning := scheduler ▸ sound.scanned left removable (phase ▸ scanning)
  known job listed := registered ▸ sound.known job (same.mem_iff.mp listed)
  elapsed job listed := now ▸ sound.elapsed job (same.mem_iff.mp listed)
  leaving job listed := by
    rw [scheduler, registered, phase]
    exact sound.leaving job (same.mem_iff.mp listed)
  single id serial := same.countP_eq (dueFor id serial) ▸ sound.single id serial
  ran := ran

theorem lockedSound (sound : Sound m) (free : m.phase.free = true) (jobs : spawned n = spawned m)
    (parts : n.running ++ n.finished = m.running ++ m.finished) (log : n.executed = m.executed) (now : n.now = m.now)
    (distinct : (n.scheduler.tasks.map Task.id).Nodup) (phase : n.phase.free = true)
    (grown : ∀ id, m.registered id ≤ n.registered id)
    (fresh : ∀ id, n.registered id = m.registered id → n.scheduler.getTask id ≠ none → m.scheduler.getTask id ≠ none) :
    Sound n where
  distinct := distinct
  scanned left removable scanning := by simp [scanning, Phase.free] at phase
  known job listed := Nat.le_trans (sound.known job (jobs ▸ listed)) (grown _)
  elapsed job listed := now ▸ sound.elapsed job (jobs ▸ listed)
  leaving job listed due current present := by
    have before := sound.known job (jobs ▸ listed)
    have same : n.registered job.task.id = m.registered job.task.id := by have := grown job.task.id; omega
    obtain ⟨left, removable, scanning, -⟩ :=
      sound.leaving job (jobs ▸ listed) due (current.trans same) (fresh _ same present)
    simp [scanning, Phase.free] at free
  single id serial := jobs ▸ sound.single id serial
  ran id serial := by
    have ran := sound.ran id serial
    unfold executions at ran ⊢
    rw [log, parts, ran]

theorem takenPerm {jobs : List (Job C A)} {index : Nat} {job : Job C A} (found : jobs[index]? = some job) :
    jobs.Perm (job :: jobs.eraseIdx index) := by
  obtain ⟨inside, here⟩ := List.getElem?_eq_some_iff.mp found
  exact here ▸ (List.getElem_cons_eraseIdx_perm inside).symm

theorem movedPerm {jobs rest rest' : List (Job C A)} {index : Nat} {job : Job C A} (found : jobs[index]? = some job)
    (put : rest.Perm (job :: rest')) : (jobs.eraseIdx index ++ rest).Perm (jobs ++ rest') := by
  have front : (jobs.eraseIdx index ++ rest).Perm (job :: (jobs.eraseIdx index ++ rest')) :=
    (put.append_left _).trans List.perm_middle
  exact front.trans ((takenPerm found).symm.append_right rest')

theorem callActive (includes : C → Int → Bool) (now : Int) (job : Job C A) :
    (∃ action, job.call includes now = .ok (some action)) ↔ job.task.processTime.isActive includes now = true := by
  cases kind : job.task.isAsync <;> cases active : job.task.processTime.isActive includes now <;>
    simp [Job.call, Task.run, Task.runAsync, kind, active]

theorem unscannedSingle {task : Task C A} {left : List (Task C A)} {removable : List Text} (sound : Sound m)
    (scanning : m.phase = .scanning (task :: left) removable) :
    (spawned m).countP (dueFor task.id (m.registered task.id)) = 0 := by
  obtain ⟨inside, unlisted⟩ := (sound.scanned _ _ scanning).2 task List.mem_cons_self
  have here := getMember sound.distinct inside
  rw [List.countP_eq_zero]
  intro job listed counted
  simp only [dueFor, Job.of, Bool.and_eq_true, decide_eq_true_eq] at counted
  obtain ⟨due, sameName, sameNumber⟩ := counted
  obtain ⟨left', removable', same, member⟩ := sound.leaving job listed due (by rw [sameNumber, sameName])
    (by rw [sameName, here]; exact Option.some_ne_none _)
  cases scanning.symm.trans same
  exact unlisted (sameName ▸ member)

theorem scanSound {task : Task C A} {left : List (Task C A)} {removable : List Text} (sound : Sound m)
    (scanning : m.phase = .scanning (task :: left) removable) :
    Sound {m with
      phase := .scanning left (Scheduler.scanTask includes m.now removable task)
      waiting := m.waiting ++ [⟨task, m.registered task.id, task.isRemovable includes m.now⟩]} := by
  obtain ⟨unlike, remaining⟩ := sound.scanned _ _ scanning
  rw [List.map_cons, List.nodup_cons] at unlike
  have jobs : (spawned {m with
      phase := .scanning left (Scheduler.scanTask includes m.now removable task)
      waiting := m.waiting ++ [⟨task, m.registered task.id, task.isRemovable includes m.now⟩]}).Perm
        (⟨task, m.registered task.id, task.isRemovable includes m.now⟩ :: spawned m) := by
    simp [spawned, List.perm_middle]
  constructor
  case distinct => exact sound.distinct
  case scanned =>
    intro rest removable' same
    cases same
    refine ⟨unlike.2, fun other among => ⟨(remaining other (List.mem_cons_of_mem _ among)).1, fun listed => ?_⟩⟩
    rcases (memScanTask includes m.now removable task other.id).mp listed with before | ⟨now, -⟩
    · exact (remaining other (List.mem_cons_of_mem _ among)).2 before
    · exact unlike.1 (now ▸ List.mem_map_of_mem among)
  case known =>
    intro job listed
    rcases List.mem_cons.mp (jobs.mem_iff.mp listed) with new | old
    · subst new
      exact Nat.le_refl _
    · exact sound.known job old
  case elapsed =>
    intro job listed due
    rcases List.mem_cons.mp (jobs.mem_iff.mp listed) with new | old
    · subst new
      simp only [isRemovableDue, TaskScheduler.due] at due
      split at due
      · rename_i millis time
        exact ⟨millis, time, of_decide_eq_true due⟩
      · cases due
    · exact sound.elapsed job old due
  case leaving =>
    intro job listed due current present
    rcases List.mem_cons.mp (jobs.mem_iff.mp listed) with new | old
    · subst new
      rw [isRemovableDue] at due
      exact ⟨_, _, rfl, (memScanTask includes m.now removable task task.id).mpr (.inr ⟨rfl, due⟩)⟩
    · obtain ⟨left', removable', same, member⟩ := sound.leaving job old due current present
      cases scanning.symm.trans same
      exact ⟨_, _, rfl, (memScanTask includes m.now removable task job.task.id).mpr (.inl member)⟩
  case single =>
    intro id serial
    rw [jobs.countP_eq, List.countP_cons]
    split
    · rename_i counted
      simp only [dueFor, Job.of, Bool.and_eq_true, decide_eq_true_eq] at counted
      obtain ⟨-, rfl, rfl⟩ := counted
      have before := unscannedSingle sound scanning
      omega
    · exact sound.single id serial
  case ran => exact sound.ran

theorem runSound (sound : Sound m) (idle : m.phase = .idle) : Sound {m with phase := .scanning m.scheduler.tasks []} := by
  refine {sound with scanned := fun left removable same => ?_, leaving := fun job listed due current present => ?_}
  · cases same
    exact ⟨sound.distinct, fun task among => ⟨among, List.not_mem_nil⟩⟩
  · obtain ⟨left, removable, scanning, -⟩ := sound.leaving job listed due current present
    cases idle.symm.trans scanning

theorem removeSound {removable : List Text} (sound : Sound m) (scanning : m.phase = .scanning [] removable) :
    Sound {m with scheduler := m.scheduler.removeAll removable, phase := .sleeping} := by
  refine {sound with
    distinct := removeAllDistinct removable sound.distinct, scanned := nofun, leaving := fun job listed due current present => ?_}
  simp only [removeAllGet] at present
  split at present
  · exact absurd rfl present
  · rename_i kept
    obtain ⟨left, removable', same, member⟩ := sound.leaving job listed due current present
    cases scanning.symm.trans same
    exact absurd member kept

theorem readingsAgree (includes : C → Int → Bool) {index : Nat} {job : Job C A} (sound : Sound m) (found : m.waiting[index]? = some job)
    (prompt : Prompt m (.start index)) :
    if job.task.processTime.isActive includes m.now then job.oneShot = job.due else job.due = false := by
  have elapsed := sound.elapsed job (List.mem_append_left _ (List.mem_of_getElem? found))
  cases due : job.due with
  | true =>
    obtain ⟨millis, time, passed⟩ := elapsed due
    simp [ProcessTime.isActive, Job.oneShot, time, passed]
  | false =>
    cases time : job.task.processTime with
    | crontab schedule => simp [Job.oneShot, time]
    | datetime millis =>
      have early := prompt job found due
      simp only [TaskScheduler.due, time, decide_eq_false_iff_not] at early
      simp [ProcessTime.isActive, early]

theorem startSound {index : Nat} {job : Job C A} (sound : Sound m) (found : m.waiting[index]? = some job)
    (prompt : Prompt m (.start index)) (taken : step includes m (.start index) = some n) : Sound n := by
  have agree := readingsAgree includes sound found prompt
  have called := callActive includes m.now job
  simp only [step, found] at taken
  split at taken
  · rename_i action calls
    cases taken
    rw [if_pos (called.mp ⟨action, calls⟩)] at agree
    refine moveSound sound rfl rfl rfl rfl (movedPerm found ?_) fun id serial => ?_
    · simp [List.perm_middle]
    · have ran := sound.ran id serial
      have counted : (job.oneShot && job.of id serial) = dueFor id serial job := by rw [agree, dueFor]
      simp only [executions, List.countP_append, List.countP_singleton, counted] at ran ⊢
      omega
  · rename_i idle
    cases taken
    rw [if_neg fun active => (called.mpr active).elim idle] at agree
    refine moveSound sound rfl rfl rfl rfl (movedPerm found ?_) fun id serial => ?_
    · simp [← List.append_assoc]
    · have ran := sound.ran id serial
      simp only [executions, List.countP_append, List.countP_singleton, dueFor, agree] at ran ⊢
      simpa using ran

theorem finishSound {index : Nat} {job : Job C A} (sound : Sound m) (found : m.running[index]? = some job) :
    Sound {m with running := m.running.eraseIdx index, finished := m.finished ++ [job]} := by
  have parts : (m.running.eraseIdx index ++ (m.finished ++ [job])).Perm (m.running ++ m.finished) :=
    movedPerm found (List.perm_append_comm)
  refine moveSound sound rfl rfl rfl rfl (parts.append_left _) fun id serial => ?_
  rw [parts.countP_eq]
  exact sound.ran id serial

theorem lockedTaken {scheduler : Scheduler C A} (taken : locked m scheduler = some n) :
    m.phase.free = true ∧ n = {m with scheduler} := by
  unfold locked at taken
  split at taken
  · rename_i free
    exact ⟨free, (Option.some.inj taken).symm⟩
  · cases taken

theorem runMoves (taken : step includes m .run = some n) :
    m.phase = .idle ∧ n = {m with phase := .scanning m.scheduler.tasks []} := by
  simp only [step] at taken
  split at taken
  · rename_i idle
    exact ⟨idle, (Option.some.inj taken).symm⟩
  · cases taken

theorem scanMoves (taken : step includes m .scan = some n) : ∃ task left removable, m.phase = .scanning (task :: left) removable ∧
    n = {m with
      phase := .scanning left (Scheduler.scanTask includes m.now removable task)
      waiting := m.waiting ++ [⟨task, m.registered task.id, task.isRemovable includes m.now⟩]} := by
  simp only [step] at taken
  split at taken
  · rename_i task left removable scanning
    exact ⟨task, left, removable, scanning, (Option.some.inj taken).symm⟩
  · cases taken

theorem removeMoves (taken : step includes m .remove = some n) : ∃ removable, m.phase = .scanning [] removable ∧
    n = {m with scheduler := m.scheduler.removeAll removable, phase := .sleeping} := by
  simp only [step] at taken
  split at taken
  · rename_i removable scanning
    exact ⟨removable, scanning, (Option.some.inj taken).symm⟩
  · cases taken

theorem wakeMoves (taken : step includes m .wake = some n) :
    m.phase = .sleeping ∧ n = {m with phase := if m.scheduler.schedule then .idle else .stopping} := by
  simp only [step] at taken
  split at taken
  · rename_i sleeping
    exact ⟨sleeping, (Option.some.inj taken).symm⟩
  · cases taken

theorem resetMoves (taken : step includes m .reset = some n) :
    m.phase = .stopping ∧ n = {m with scheduler := {m.scheduler with schedule := true}, phase := .ended} := by
  simp only [step] at taken
  split at taken
  · rename_i stopping
    exact ⟨stopping, (Option.some.inj taken).symm⟩
  · cases taken

theorem finishMoves {index : Nat} (taken : step includes m (.finish index) = some n) : ∃ job, m.running[index]? = some job ∧
    n = {m with running := m.running.eraseIdx index, finished := m.finished ++ [job]} := by
  simp only [step] at taken
  split at taken
  · rename_i job found
    exact ⟨job, found, (Option.some.inj taken).symm⟩
  · cases taken

theorem addTaskSound {task : Task C A} (sound : Sound m) (taken : step includes m (.addTask task) = some n) : Sound n := by
  have added := performDistinct includes (.addTask task) sound.distinct
  have answers := addTaskAnswers m.scheduler task
  cases found : m.scheduler.getTask task.id with
  | some other =>
    rw [found] at answers
    simp only [step, answers] at taken
    obtain ⟨free, rfl⟩ := lockedTaken taken
    exact sound
  | none =>
    rw [found] at answers
    simp only [step, answers] at taken
    simp only [perform, answers] at added
    obtain ⟨free, rfl⟩ := lockedTaken taken
    refine lockedSound sound free rfl rfl rfl rfl added free (fun id => ?_) (fun id unchanged present => ?_)
    · simp only [Function.update_apply]
      split
      · rename_i same
        exact same ▸ Nat.le_succ _
      · exact Nat.le_refl _
    · rw [addTaskGet task found] at present
      simp only [Function.update_apply] at unchanged present
      split at unchanged
      · rename_i same
        subst same
        omega
      · rename_i other
        rwa [if_neg other] at present

end

theorem stepSound (includes : C → Int → Bool) (m : Machine C A) (act : Act C A) (n : Machine C A) (prompt : Prompt m act)
    (sound : Sound m) (taken : step includes m act = some n) : Sound n := by
  cases act with
  | tick now =>
    simp only [step, Option.ite_none_right_eq_some, Option.some.injEq] at taken
    obtain ⟨later, rfl⟩ := taken
    refine {sound with elapsed := fun job listed due => ?_}
    obtain ⟨millis, time, passed⟩ := sound.elapsed job listed due
    exact ⟨millis, time, Int.le_trans passed later⟩
  | run =>
    obtain ⟨idle, rfl⟩ := runMoves taken
    exact runSound sound idle
  | scan =>
    obtain ⟨task, left, removable, scanning, rfl⟩ := scanMoves taken
    exact scanSound sound scanning
  | remove =>
    obtain ⟨removable, scanning, rfl⟩ := removeMoves taken
    exact removeSound sound scanning
  | wake =>
    obtain ⟨sleeping, rfl⟩ := wakeMoves taken
    refine lockedSound sound (by simp [sleeping, Phase.free]) rfl rfl rfl rfl sound.distinct ?_ (fun _ => Nat.le_refl _) fun _ _ => id
    cases m.scheduler.schedule <;> rfl
  | reset =>
    obtain ⟨stopping, rfl⟩ := resetMoves taken
    exact lockedSound sound (by simp [stopping, Phase.free]) rfl rfl rfl rfl sound.distinct rfl (fun _ => Nat.le_refl _) fun _ _ => id
  | start index =>
    cases found : m.waiting[index]? with
    | none => simp [step, found] at taken
    | some job => exact startSound sound found prompt taken
  | finish index =>
    obtain ⟨job, found, rfl⟩ := finishMoves taken
    exact finishSound sound found
  | addTask task => exact addTaskSound sound taken
  | removeTask id =>
    obtain ⟨free, rfl⟩ := lockedTaken taken
    refine lockedSound sound free rfl rfl rfl rfl (filterKeepsDistinct _ sound.distinct) free (fun _ => Nat.le_refl _) fun other _ present => ?_
    rw [removeTaskGet] at present
    split at present
    · exact absurd rfl present
    · exact present
  | removeTaskSub id =>
    obtain ⟨free, rfl⟩ := lockedTaken taken
    refine lockedSound sound free rfl rfl rfl rfl (filterKeepsDistinct _ sound.distinct) free (fun _ => Nat.le_refl _) fun other _ present => ?_
    rw [removeTaskSubGet] at present
    split at present
    · exact present
    · exact absurd rfl present
  | stop =>
    obtain ⟨free, rfl⟩ := lockedTaken taken
    exact lockedSound sound free rfl rfl rfl rfl sound.distinct free (fun _ => Nat.le_refl _) fun _ _ => id

theorem promptRunsExactlyOnce (includes : C → Int → Bool) (now : Int) (m : Machine C A)
    (run : Run (step includes) Prompt (launch now) m) : ExactlyOnce m :=
  soundExactlyOnce (runInvariant (stepSound includes) run (launchSound now))

def reminder : Task Unit Unit := ⟨"reminder".toList, .datetime 500, [], (), (), false⟩

def timely : List (Act Unit Unit) :=
  [.addTask reminder, .run, .scan, .remove, .start 0, .wake, .tick 1000, .run, .scan, .remove, .start 0, .finish 0]

theorem timelyReminderRunsOnce :
    ∃ m, exec (step fun (_ : Unit) _ => false) (launch 0) timely = some m ∧ m.finished.map Job.due = [false, true] ∧
      ExactlyOnce (A := Unit) m :=
  ⟨_, rfl, rfl, promptRunsExactlyOnce (fun _ _ => false) 0 _ (alongRun timely rfl (by decide))⟩

def delayed : List (Act Unit Unit) :=
  [.addTask reminder, .run, .scan, .remove, .wake, .tick 1000, .start 0, .run, .scan, .remove, .start 0]

theorem delayedReminderRunsTwice :
    ∃ m, Run (step fun (_ : Unit) _ => false) (fun _ _ => True) (launch 0) m ∧ ¬ExactlyOnce (A := Unit) m :=
  ⟨_, execRun delayed rfl, fun once => absurd (once.most "reminder".toList 1) (by decide)⟩

end Silent.SchedulerRuns
