import Mathlib.Data.List.Nodup
import Silent.ByteText

/-! The task list of `scheduler/mod.rs` and the map from ids to tasks it stands for.
Times are `timestamp_millis`. A cron expression is whatever `schedule` is, with the
instants it includes; reading the clock is an argument of whoever reads it. -/
namespace Silent.TaskScheduler
open ByteText

variable {C A : Type}

inductive ProcessTime (C : Type) where
  | datetime (millis : Int)
  | crontab (schedule : C)

def ProcessTime.isActive (includes : C → Int → Bool) (now : Int) : ProcessTime C → Bool
  | .datetime millis => millis ≤ now
  | .crontab schedule => includes schedule now

structure Task (C A : Type) where
  id : Text
  processTime : ProcessTime C
  description : Text
  action : A
  actionAsync : A
  isAsync : Bool

def Task.isRemovable (includes : C → Int → Bool) (now : Int) (self : Task C A) : Bool :=
  match self.processTime with
  | .datetime _ => self.processTime.isActive includes now
  | .crontab _ => false

def Task.run (includes : C → Int → Bool) (now : Int) (self : Task C A) : Except Text (Option A) :=
  match self.isAsync with
  | true => .error "async task not support run".toList
  | false => .ok (if self.processTime.isActive includes now then some self.action else none)

def Task.runAsync (includes : C → Int → Bool) (now : Int) (self : Task C A) : Except Text (Option A) :=
  match self.isAsync with
  | true => .ok (if self.processTime.isActive includes now then some self.actionAsync else none)
  | false => .error "sync task not support run_async".toList

structure Scheduler (C A : Type) where
  tasks : List (Task C A)
  schedule : Bool

namespace Scheduler

def new : Scheduler C A := ⟨[], true⟩

def addTask (self : Scheduler C A) (task : Task C A) : Scheduler C A × Except Text Unit :=
  if self.tasks.any (fun t => t.id = task.id) then
    (self, .error ("task ".toList ++ task.id ++ " already exists!".toList))
  else ({self with tasks := self.tasks ++ [task]}, .ok ())

def removeTask (self : Scheduler C A) (id : Text) : Scheduler C A :=
  {self with tasks := self.tasks.filter (fun t => t.id ≠ id)}

def removeTaskSub (self : Scheduler C A) (id : Text) : Scheduler C A :=
  {self with tasks := self.tasks.filter (fun t => id.isPrefixOf t.id)}

def getTask (self : Scheduler C A) (id : Text) : Option (Task C A) := self.tasks.find? (fun t => t.id = id)

def scanTask (includes : C → Int → Bool) (now : Int) (removable : List Text) (task : Task C A) : List Text :=
  if task.isRemovable includes now then removable ++ [task.id] else removable

def removeAll (self : Scheduler C A) (removable : List Text) : Scheduler C A := removable.foldl removeTask self

-- `now` is what the clock shows when the scan comes to the task of that id.
def run (includes : C → Int → Bool) (now : Text → Int) (self : Scheduler C A) : Scheduler C A :=
  removeAll self (self.tasks.foldl (fun removable task => scanTask includes (now task.id) removable task) [])

def stop (self : Scheduler C A) : Scheduler C A := {self with schedule := false}

end Scheduler

inductive Op (C A : Type) where
  | addTask (task : Task C A)
  | removeTask (id : Text)
  | removeTaskSub (id : Text)
  | getTask (id : Text)
  | run (now : Text → Int)

inductive Out (C A : Type) where
  | added (result : Except Text Unit)
  | found (task : Option (Task C A))
  | done

def perform (includes : C → Int → Bool) (self : Scheduler C A) : Op C A → Scheduler C A × Out C A
  | .addTask task => ((self.addTask task).1, .added (self.addTask task).2)
  | .removeTask id => (self.removeTask id, .done)
  | .removeTaskSub id => (self.removeTaskSub id, .done)
  | .getTask id => (self, .found (self.getTask id))
  | .run now => (self.run includes now, .done)

abbrev Registry (C A : Type) := Text → Option (Task C A)

def due (now : Int) (task : Task C A) : Bool :=
  match task.processTime with
  | .datetime millis => millis ≤ now
  | .crontab _ => false

def register (registry : Registry C A) : Op C A → Registry C A × Out C A
  | .addTask task =>
      match registry task.id with
      | some _ => (registry, .added (.error ("task ".toList ++ task.id ++ " already exists!".toList)))
      | none => (Function.update registry task.id (some task), .added (.ok ()))
  | .removeTask id => (Function.update registry id none, .done)
  | .removeTaskSub id => (fun other => if id.isPrefixOf other then none else registry other, .done)
  | .getTask id => (registry, .found (registry id))
  | .run now => (fun id => (registry id).filter (fun task => !due (now id) task), .done)

section
variable {S : Type} (act : S → Op C A → S × Out C A)

def after (s : S) : List (Op C A) → S
  | [] => s
  | op :: ops => after (act s op).1 ops

def outputs (s : S) : List (Op C A) → List (Out C A)
  | [] => []
  | op :: ops => (act s op).2 :: outputs (act s op).1 ops

theorem afterAppend (s : S) (first later : List (Op C A)) : after act s (first ++ later) = after act (after act s first) later := by
  induction first generalizing s with
  | nil => rfl
  | cons op first ih => exact ih (act s op).1

end

structure Represents (scheduler : Scheduler C A) (registry : Registry C A) : Prop where
  distinct : (scheduler.tasks.map Task.id).Nodup
  lookup : ∀ id, scheduler.getTask id = registry id

def nothing : Registry C A := fun _ => none

/-- After every part of the run the list answers as the map does, and so have all operations so far. -/
def BehavesAsMap (includes : C → Int → Bool) (self : Scheduler C A) (registry : Registry C A) (ops : List (Op C A)) : Prop :=
  ∀ done, done <+: ops →
    (∀ id, (after (perform includes) self done).getTask id = after register registry done id) ∧
    outputs (perform includes) self done = outputs register registry done

section
variable {self : Scheduler C A}

theorem filterKeepsDistinct {tasks : List (Task C A)} (keep : Task C A → Bool) (distinct : (tasks.map Task.id).Nodup) :
    ((tasks.filter keep).map Task.id).Nodup :=
  distinct.sublist (List.filter_sublist.map _)

theorem findFiltered (tasks : List (Task C A)) (keep : Text → Bool) (id : Text) :
    (tasks.filter (fun t => keep t.id)).find? (fun t => t.id = id) =
      if keep id then tasks.find? (fun t => t.id = id) else none := by
  induction tasks with
  | nil => simp
  | cons task tasks ih =>
    by_cases same : task.id = id
    · by_cases kept : keep id = true
      · simp [same, kept]
      · simp only [List.filter_cons, same, kept, Bool.false_eq_true, if_false] at ih ⊢
        exact ih
    · by_cases kept : keep task.id = true
      · simp [same, kept, ih]
      · simp [same, kept, ih]

theorem getAbsent {id : Text} : self.getTask id = none ↔ ∀ task ∈ self.tasks, task.id ≠ id := by
  simp [Scheduler.getTask]

theorem getMember {task : Task C A} (distinct : (self.tasks.map Task.id).Nodup) (member : task ∈ self.tasks) :
    self.getTask task.id = some task := by
  unfold Scheduler.getTask
  generalize self.tasks = tasks at distinct member
  induction tasks with
  | nil => cases member
  | cons first tasks ih =>
    rw [List.map_cons, List.nodup_cons] at distinct
    rcases List.mem_cons.mp member with here | below
    · simp [here]
    · have other : first.id ≠ task.id := fun same => distinct.1 (same ▸ List.mem_map_of_mem below)
      simpa [other] using ih distinct.2 below

theorem getSome {id : Text} {task : Task C A} (found : self.getTask id = some task) : task ∈ self.tasks ∧ task.id = id :=
  ⟨List.mem_of_find?_eq_some found, by simpa using List.find?_some found⟩

theorem addTaskGet (task : Task C A) (absent : self.getTask task.id = none) (id : Text) :
    ({self with tasks := self.tasks ++ [task]} : Scheduler C A).getTask id =
      Function.update self.getTask task.id (some task) id := by
  by_cases same : id = task.id
  · subst same
    have unseen : self.tasks.find? (fun t => t.id = task.id) = none := absent
    simp [Scheduler.getTask, List.find?_append, unseen]
  · have other : ¬task.id = id := fun eq => same eq.symm
    simp [Scheduler.getTask, List.find?_append, same, other]

theorem removeTaskGet (id other : Text) :
    (self.removeTask id).getTask other = if other = id then none else self.getTask other := by
  have restricted := findFiltered self.tasks (fun key => key ≠ id) other
  by_cases same : other = id
  · simp [Scheduler.removeTask, Scheduler.getTask, same]
  · simpa [Scheduler.removeTask, Scheduler.getTask, same] using restricted

theorem removeTaskSubGet (id other : Text) :
    (self.removeTaskSub id).getTask other = if id.isPrefixOf other then self.getTask other else none :=
  findFiltered self.tasks (fun key => id.isPrefixOf key) other

theorem removeAllGet (removable : List Text) (id : Text) :
    (self.removeAll removable).getTask id = if id ∈ removable then none else self.getTask id := by
  induction removable generalizing self with
  | nil => simp [Scheduler.removeAll]
  | cons first rest ih =>
    have later := @ih (self.removeTask first)
    simp only [Scheduler.removeAll, List.foldl_cons] at later ⊢
    rw [later, removeTaskGet]
    by_cases here : id = first <;> by_cases below : id ∈ rest <;> simp [here, below]

theorem removeAllDistinct (removable : List Text) (distinct : (self.tasks.map Task.id).Nodup) :
    ((self.removeAll removable).tasks.map Task.id).Nodup := by
  induction removable generalizing self with
  | nil => exact distinct
  | cons first rest ih => exact @ih (self.removeTask first) (filterKeepsDistinct _ distinct)

theorem isRemovableDue (includes : C → Int → Bool) (now : Int) (task : Task C A) :
    task.isRemovable includes now = due now task := by
  cases time : task.processTime <;> simp [Task.isRemovable, due, time, ProcessTime.isActive]

theorem memScanTask (includes : C → Int → Bool) (now : Int) (removable : List Text) (task : Task C A) (id : Text) :
    id ∈ Scheduler.scanTask includes now removable task ↔ id ∈ removable ∨ task.id = id ∧ due now task = true := by
  unfold Scheduler.scanTask
  rw [isRemovableDue]
  by_cases removed : due now task = true
  · simp [removed, eq_comm]
  · simp [removed]

theorem scannedMember (includes : C → Int → Bool) (now : Text → Int) (tasks : List (Task C A)) (removable : List Text) (id : Text) :
    id ∈ tasks.foldl (fun removable task => Scheduler.scanTask includes (now task.id) removable task) removable ↔
      id ∈ removable ∨ ∃ task ∈ tasks, task.id = id ∧ due (now id) task = true := by
  induction tasks generalizing removable with
  | nil => simp
  | cons task tasks ih =>
    have here : (task.id = id ∧ due (now task.id) task = true) ↔ (task.id = id ∧ due (now id) task = true) :=
      and_congr_right fun same => by rw [same]
    rw [List.foldl_cons, ih, memScanTask, here, List.exists_mem_cons_iff, or_assoc]

theorem runGet (includes : C → Int → Bool) (now : Text → Int) (distinct : (self.tasks.map Task.id).Nodup) (id : Text) :
    (self.run includes now).getTask id = (self.getTask id).filter (fun task => !due (now id) task) := by
  rw [Scheduler.run, removeAllGet]
  cases found : self.getTask id with
  | none => simp
  | some task =>
    obtain ⟨member, same⟩ := getSome found
    have scanned := scannedMember includes now self.tasks [] id
    by_cases expired : due (now id) task = true
    · rw [if_pos (scanned.mpr (.inr ⟨task, member, same, expired⟩))]
      simp [Option.filter, expired]
    · rw [if_neg]
      · simp [Option.filter, expired]
      · intro listed
        obtain ⟨other, among, named, removed⟩ := (scanned.mp listed).resolve_left List.not_mem_nil
        have again := getMember distinct among
        rw [named, found] at again
        exact expired (Option.some.inj again ▸ removed)

theorem performDistinct (includes : C → Int → Bool) (op : Op C A) (distinct : (self.tasks.map Task.id).Nodup) :
    ((perform includes self op).1.tasks.map Task.id).Nodup := by
  cases op with
  | addTask task =>
    unfold perform Scheduler.addTask
    by_cases present : self.tasks.any (fun t => t.id = task.id) = true
    · simpa only [if_pos present] using distinct
    · simp only [if_neg present, List.map_append, List.map_singleton]
      refine distinct.append (List.nodup_singleton _) fun id listed added => present ?_
      obtain ⟨other, among, named⟩ := List.mem_map.mp listed
      have same : other.id = task.id := named.trans (List.mem_singleton.mp added)
      exact List.any_eq_true.mpr ⟨other, among, decide_eq_true same⟩
  | removeTask id => exact filterKeepsDistinct _ distinct
  | removeTaskSub id => exact filterKeepsDistinct _ distinct
  | getTask id => exact distinct
  | run now => exact removeAllDistinct _ distinct

theorem afterDistinct (includes : C → Int → Bool) (ops : List (Op C A)) (distinct : (self.tasks.map Task.id).Nodup) :
    ((after (perform includes) self ops).tasks.map Task.id).Nodup := by
  induction ops generalizing self with
  | nil => exact distinct
  | cons op ops ih => exact ih (performDistinct includes op distinct)

end

section
variable {self : Scheduler C A} {registry : Registry C A}

theorem addTaskAnswers (self : Scheduler C A) (task : Task C A) :
    self.addTask task = match self.getTask task.id with
      | some _ => (self, .error ("task ".toList ++ task.id ++ " already exists!".toList))
      | none => ({self with tasks := self.tasks ++ [task]}, .ok ()) := by
  unfold Scheduler.addTask
  cases found : self.getTask task.id with
  | none =>
    have unseen : ¬self.tasks.any (fun t => t.id = task.id) = true := by simpa using getAbsent.mp found
    rw [if_neg unseen]
  | some other =>
    obtain ⟨member, same⟩ := getSome found
    have seen : self.tasks.any (fun t => t.id = task.id) = true :=
      List.any_eq_true.mpr ⟨other, member, decide_eq_true same⟩
    rw [if_pos seen]

theorem performRegister (includes : C → Int → Bool) (represents : Represents self registry) (op : Op C A)
    (clear : ∀ id, op = .removeTaskSub id → registry = nothing) :
    Represents (perform includes self op).1 (register registry op).1 ∧ (perform includes self op).2 = (register registry op).2 := by
  have distinct := performDistinct includes op represents.distinct
  have lookup := represents.lookup
  cases op with
  | addTask task =>
    have answers := addTaskAnswers self task
    cases found : registry task.id with
    | some other =>
      rw [lookup, found] at answers
      simp only [perform, register, found, answers]
      exact ⟨represents, trivial⟩
    | none =>
      rw [lookup, found] at answers
      simp only [perform, register, found, answers] at distinct ⊢
      refine ⟨⟨distinct, fun id => ?_⟩, trivial⟩
      rw [addTaskGet task ((lookup _).trans found), funext lookup]
  | removeTask id =>
    refine ⟨⟨distinct, fun other => ?_⟩, rfl⟩
    simp only [perform, register, removeTaskGet, lookup, Function.update_apply]
  | removeTaskSub id =>
    have empty := clear id rfl
    refine ⟨⟨distinct, fun other => ?_⟩, rfl⟩
    simp [perform, register, removeTaskSubGet, lookup, empty, nothing]
  | getTask id => exact ⟨represents, congrArg Out.found (lookup id)⟩
  | run now =>
    refine ⟨⟨distinct, fun id => ?_⟩, rfl⟩
    simp only [perform, register, runGet includes now represents.distinct, lookup]

theorem behavesCons (includes : C → Int → Bool) (represents : Represents self registry) (op : Op C A) (ops : List (Op C A))
    (answers : (perform includes self op).2 = (register registry op).2)
    (later : BehavesAsMap includes (perform includes self op).1 (register registry op).1 ops) :
    BehavesAsMap includes self registry (op :: ops) := by
  intro done part
  rcases List.prefix_cons_iff.mp part with start | ⟨rest, eq, below⟩
  · subst start
    exact ⟨represents.lookup, rfl⟩
  · subst eq
    obtain ⟨lookup, replies⟩ := later rest below
    exact ⟨lookup, by rw [outputs, outputs, answers, replies]⟩

theorem behavesWhenClear (includes : C → Int → Bool) (represents : Represents self registry) (ops : List (Op C A))
    (clear : ∀ before id rest, ops = before ++ .removeTaskSub id :: rest → after register registry before = nothing) :
    BehavesAsMap includes self registry ops := by
  induction ops generalizing self registry with
  | nil =>
    intro done part
    rw [List.prefix_nil.mp part]
    exact ⟨represents.lookup, rfl⟩
  | cons op ops ih =>
    obtain ⟨next, answers⟩ := performRegister includes represents op fun id first => clear [] id ops (congrArg (· :: ops) first)
    refine behavesCons includes represents op ops answers (ih next fun before id rest split => ?_)
    exact clear (op :: before) id rest (congrArg (op :: ·) split)

theorem clearWhenBehaves (includes : C → Int → Bool) {before rest : List (Op C A)} {id : Text}
    (behaves : BehavesAsMap includes self registry (before ++ .removeTaskSub id :: rest)) : after register registry before = nothing := by
  have lookup := (behaves before (List.prefix_append _ _)).1
  have next := (behaves (before ++ [.removeTaskSub id]) ⟨rest, by simp⟩).1
  funext key
  cases held : after register registry before key with
  | none => rfl
  | some task =>
    have both := next key
    simp only [afterAppend, after, perform, register, removeTaskSubGet, lookup, held] at both
    split at both <;> cases both

end

theorem newRepresents : Represents (Scheduler.new : Scheduler C A) nothing := ⟨List.nodup_nil, fun _ => rfl⟩

theorem storeBehavesAsMap (includes : C → Int → Bool) (ops : List (Op C A)) :
    ((after (perform includes) Scheduler.new ops).tasks.map Task.id).Nodup ∧
    (BehavesAsMap includes Scheduler.new nothing ops ↔
      ∀ before id rest, ops = before ++ .removeTaskSub id :: rest → after register nothing before = nothing) := by
  refine ⟨afterDistinct includes ops List.nodup_nil, fun behaves before id rest split => ?_, behavesWhenClear includes newRepresents ops⟩
  subst split
  exact clearWhenBehaves includes behaves

def hourly : Task Unit Unit := ⟨"jobs.hourly".toList, .crontab (), [], (), (), false⟩

theorem removeTaskSubKeepsSubtask :
    ¬BehavesAsMap (fun _ _ => false) Scheduler.new nothing [.addTask hourly, .removeTaskSub "jobs.".toList] := by
  intro behaves
  have last := (behaves _ (List.prefix_refl _)).1 hourly.id
  have kept : (after (perform (fun _ _ => false)) Scheduler.new [.addTask hourly, .removeTaskSub "jobs.".toList]).getTask hourly.id =
      some hourly := rfl
  rw [kept] at last
  cases last

end Silent.TaskScheduler
