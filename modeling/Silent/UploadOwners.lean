import Silent.UploadedFile

/-! The owners of an uploaded file. Every clone deletes for itself: a drop starts a thread
that removes the file and then the directory, at any later time. -/
namespace Silent.UploadOwners
open ByteText HttpRequest BodyParsing StdPath CompressionFrame StepSystem UploadedFile

structure Owners where
  live : List FilePart
  kept : Bool

inductive Op where
  | clone (i : Nat)
  | doNotDeleteOnDrop (i : Nat)
  | drop (i : Nat)

def Owners.step (self : Owners) : Op → Option Owners
  | .clone i => self.live[i]?.map fun part => {self with live := self.live ++ [part]}
  | .doNotDeleteOnDrop i => self.live[i]?.map fun part => ⟨self.live.set i part.doNotDeleteOnDrop, true⟩
  | .drop i => self.live[i]?.map fun _ => {self with live := self.live.eraseIdx i}

def Owners.spawned (self : Owners) : Op → Option Deletion
  | .drop i => self.live[i]?.bind FilePart.drop
  | _ => none

structure World where
  owners : Owners
  threads : List Deletion
  fs : Fs

inductive Act where
  | op (op : Op)
  | thread (i : Nat)

def runThread (w : World) (i : Nat) (thread : Deletion) : World :=
  if thread.fileRemoved then {w with threads := w.threads.eraseIdx i, fs := w.fs.removeDir thread.tempDir}
  else {w with threads := w.threads.set i {thread with fileRemoved := true}, fs := w.fs.removeFile thread.path}

def step (w : World) : Act → Option World
  | .op op => (w.owners.step op).map fun owners => {w with owners := owners, threads := w.threads ++ (w.owners.spawned op).toList}
  | .thread i => w.threads[i]?.map (runThread w i)

def Act.toOp : Act → Option Op
  | .op given => some given
  | .thread _ => none

def start (part : FilePart) (fs : Fs) : World := ⟨⟨[part], false⟩, [], fs⟩

def Present (fs : Fs) (path : FilePath) : Prop := (fs.stored path).isSome = true

structure Owned (path : FilePath) (w : World) : Prop where
  alive : ∀ part ∈ w.owners.live, Present w.fs part.path
  after : w.owners.live = [] → w.threads = [] → (Present w.fs path ↔ w.owners.kept = true)

/- A part that would delete is dropped as the last one, and only if none was to be kept. -/
def SoleDrop (owners : Owners) (op : Op) : Prop :=
  ∀ i part, op = .drop i → owners.live[i]? = some part → part.tempDir.isSome = true →
    owners.live.length = 1 ∧ owners.kept = false

/- The file is there, with nobody about to delete it; or the last owner is gone and its
thread is before, between or past its two removals. -/
inductive Stage (path : FilePath) (w : World) : Prop
  | owned (quiet : w.threads = []) (present : Present w.fs path) (needed : w.owners.live ≠ [] ∨ w.owners.kept = true)
  | waiting (dead : w.owners.live = []) (unkept : w.owners.kept = false) (thread : w.threads = [⟨path, path.dir, false⟩])
  | removed (dead : w.owners.live = []) (unkept : w.owners.kept = false) (thread : w.threads = [⟨path, path.dir, true⟩])
      (gone : ¬ Present w.fs path)
  | gone (dead : w.owners.live = []) (unkept : w.owners.kept = false) (quiet : w.threads = []) (gone : ¬ Present w.fs path)

structure Sound (path : FilePath) (w : World) : Prop where
  paths : ∀ part ∈ w.owners.live, part.path = path ∧ (part.tempDir = none ∨ part.tempDir = some path.dir)
  deletes : w.owners.kept = false → ∀ part ∈ w.owners.live, part.tempDir = some path.dir
  stage : Stage path w

section
variable {path : FilePath} {w t : World}

theorem liveStage (stage : Stage path w) (alive : w.owners.live ≠ []) : w.threads = [] ∧ Present w.fs path := by
  cases stage with
  | owned quiet present needed => exact ⟨quiet, present⟩
  | waiting dead unkept thread => exact absurd dead alive
  | removed dead unkept thread gone => exact absurd dead alive
  | gone dead unkept quiet gone => exact absurd dead alive

theorem soundOwned (sound : Sound path w) : Owned path w := by
  constructor
  · intro part among
    rw [(sound.paths part among).1]
    exact (liveStage sound.stage (List.ne_nil_of_mem among)).2
  · intro dead quiet
    cases sound.stage with
    | owned _ present needed => exact iff_of_true present (needed.resolve_left fun alive => alive dead)
    | waiting _ unkept thread => simp [thread] at quiet
    | removed _ unkept thread gone => simp [thread] at quiet
    | gone _ unkept _ gone => exact iff_of_false gone (by simp [unkept])

theorem threadSound (sound : Sound path w) {i : Nat} (taken : step w (.thread i) = some t) : Sound path t := by
  obtain ⟨thread, found, rfl⟩ := Option.map_eq_some_iff.mp taken
  have same : (runThread w i thread).owners = w.owners := by
    unfold runThread
    split <;> rfl
  refine ⟨same ▸ sound.paths, same ▸ sound.deletes, ?_⟩
  cases sound.stage with
  | owned quiet present needed => simp [quiet] at found
  | gone dead unkept quiet gone => simp [quiet] at found
  | waiting dead unkept threads =>
    obtain ⟨rfl, rfl⟩ : i = 0 ∧ thread = ⟨path, path.dir, false⟩ := by
      rw [threads] at found
      cases i <;> simp_all
    refine .removed (same ▸ dead) (same ▸ unkept) ?_ ?_
    · simp [runThread, threads]
    · simp [runThread, Present, Fs.storedRemoved]
  | removed dead unkept threads gone =>
    obtain ⟨rfl, rfl⟩ : i = 0 ∧ thread = ⟨path, path.dir, true⟩ := by
      rw [threads] at found
      cases i <;> simp_all
    refine .gone (same ▸ dead) (same ▸ unkept) ?_ ?_
    · simp [runThread, threads]
    · simpa [runThread, Present, Fs.storedRemoveDir] using gone

theorem opSound (sound : Sound path w) {op : Op} (sole : SoleDrop w.owners op) (taken : step w (.op op) = some t) : Sound path t := by
  obtain ⟨owners, moved, rfl⟩ := Option.map_eq_some_iff.mp taken
  cases op with
  | clone i =>
    obtain ⟨part, found, rfl⟩ := Option.map_eq_some_iff.mp moved
    have among := List.mem_of_getElem? found
    obtain ⟨quiet, present⟩ := liveStage sound.stage (List.ne_nil_of_mem among)
    refine ⟨?_, ?_, .owned (by simpa [Owners.spawned] using quiet) present (.inl (by simp))⟩
    · simpa [or_imp, forall_and, sound.paths part among] using sound.paths
    · simpa [or_imp, forall_and] using ⟨sound.deletes, fun unkept => sound.deletes unkept part among⟩
  | doNotDeleteOnDrop i =>
    obtain ⟨part, found, rfl⟩ := Option.map_eq_some_iff.mp moved
    have among := List.mem_of_getElem? found
    obtain ⟨quiet, present⟩ := liveStage sound.stage (List.ne_nil_of_mem among)
    refine ⟨?_, nofun, .owned (by simpa [Owners.spawned] using quiet) present (.inr rfl)⟩
    intro other listed
    rcases List.mem_or_eq_of_mem_set listed with old | rfl
    · exact sound.paths other old
    · exact ⟨(sound.paths part among).1, .inl rfl⟩
  | drop i =>
    obtain ⟨part, found, rfl⟩ := Option.map_eq_some_iff.mp moved
    have among := List.mem_of_getElem? found
    obtain ⟨quiet, present⟩ := liveStage sound.stage (List.ne_nil_of_mem among)
    have rest : ∀ other ∈ w.owners.live.eraseIdx i, other ∈ w.owners.live := fun other => List.mem_of_mem_eraseIdx
    refine ⟨fun other listed => sound.paths other (rest other listed), fun unkept other listed => sound.deletes unkept other (rest other listed), ?_⟩
    obtain ⟨same, keeps | deletes⟩ := sound.paths part among
    · have kept : w.owners.kept = true := by
        by_contra unkept
        simp [sound.deletes (by simpa using unkept) part among] at keeps
      exact .owned (by simp [Owners.spawned, found, FilePart.drop, keeps, quiet]) present (.inr kept)
    · obtain ⟨alone, unkept⟩ := sole i part rfl found (by rw [deletes]; rfl)
      refine .waiting ?_ unkept ?_
      · have within := (List.getElem?_eq_some_iff.mp found).1
        exact List.eq_nil_of_length_eq_zero (by rw [List.length_eraseIdx_of_lt within]; omega)
      · simp [Owners.spawned, found, FilePart.drop, deletes, quiet, same]

def Within (ops : List Op) (acts : List Act) : Prop := acts.filterMap Act.toOp <+: ops

theorem soleDropsEnough (ops : List Op) (sound : Sound path w) (sole : Along Owners.step SoleDrop w.owners ops) (acts : List Act)
    (within : Within ops acts) (ran : exec step w acts = some t) : Owned path t := by
  induction acts generalizing w ops with
  | nil =>
    cases Option.some.inj ran
    exact soundOwned sound
  | cons act rest ih =>
    obtain ⟨middle, taken, later⟩ := Option.bind_eq_some_iff.mp ran
    cases act with
    | thread i =>
      have same : middle.owners = w.owners := by
        obtain ⟨thread, -, rfl⟩ := Option.map_eq_some_iff.mp taken
        unfold runThread
        split <;> rfl
      exact ih ops (threadSound sound taken) (same ▸ sole) within later
    | op op =>
      cases ops with
      | nil => simp [Within, Act.toOp] at within
      | cons first ops =>
        obtain ⟨rfl, behind⟩ := List.cons_prefix_cons.mp within
        have moved : w.owners.step op = some middle.owners := by
          obtain ⟨owners, moved, rfl⟩ := Option.map_eq_some_iff.mp taken
          exact moved
        exact ih ops (opSound sound sole.1 taken) (sole.2 _ moved) behind later

def dropRun (w : World) (path : FilePath) (i : Nat) : World :=
  ⟨{w.owners with live := w.owners.live.eraseIdx i}, [], (w.fs.removeFile path).removeDir path.dir⟩

theorem dropRuns {i : Nat} {part : FilePart} (quiet : w.threads = []) (found : w.owners.live[i]? = some part)
    (here : part.path = path) (deletes : part.tempDir = some path.dir) :
    exec step w [.op (.drop i), .thread 0, .thread 0] = some (dropRun w path i) := by
  simp [exec, step, runThread, Owners.step, Owners.spawned, FilePart.drop, quiet, found, here, deletes, dropRun]

theorem soleDropsNeeded (ops : List Op) (sound : Sound path w)
    (fine : ∀ acts t, Within ops acts → exec step w acts = some t → Owned path t) : Along Owners.step SoleDrop w.owners ops := by
  induction ops generalizing w with
  | nil => trivial
  | cons op rest ih =>
    have sole : SoleDrop w.owners op := by
      rintro i part rfl found deletes
      have among := List.mem_of_getElem? found
      have within := (List.getElem?_eq_some_iff.mp found).1
      obtain ⟨here, keeps | dir⟩ := sound.paths part among
      · simp [keeps] at deletes
      · have ran := dropRuns (liveStage sound.stage (List.ne_nil_of_mem among)).1 found here dir
        have owned := fine _ _ ⟨rest, rfl⟩ ran
        have gone : ¬ Present (dropRun w path i).fs path := by simp [dropRun, Present, Fs.storedRemoveDir, Fs.storedRemoved]
        cases others : w.owners.live.eraseIdx i with
        | nil =>
          have unkept : w.owners.kept ≠ true := fun kept => gone ((owned.after others rfl).mpr kept)
          have size := congrArg List.length others
          rw [List.length_eraseIdx_of_lt within, List.length_nil] at size
          exact ⟨by omega, by simpa using unkept⟩
        | cons other more =>
          have alive : other ∈ w.owners.live.eraseIdx i := others ▸ List.mem_cons_self
          have present := owned.alive other alive
          rw [(sound.paths other (List.mem_of_mem_eraseIdx alive)).1] at present
          exact absurd present gone
    refine ⟨sole, fun owners moved => ?_⟩
    have taken : step w (.op op) = some {w with owners := owners, threads := w.threads ++ (w.owners.spawned op).toList} := by
      rw [step, moved]
      rfl
    exact ih (opSound sound sole taken) fun acts t within ran =>
      fine (.op op :: acts) t (List.cons_prefix_cons.mpr ⟨rfl, within⟩) (by rw [exec, taken]; exact ran)

end

theorem startSound {P : Type} {rules : Rules P} {field : Field} {disk : Disk} {before fs : Fs} {part : FilePart}
    (created : create rules field disk before = (.ok part, fs)) : Sound part.path (start part fs) := by
  have uploaded := createdUploaded created
  refine ⟨?_, ?_, .owned rfl ?_ (.inl (by simp [start]))⟩
  · simpa [start] using Or.inr uploaded.tempDir
  · simpa [start] using uploaded.tempDir
  · rw [Present, start, uploaded.stored]
    rfl

theorem ownedIff {P : Type} (rules : Rules P) (field : Field) (disk : Disk) (before fs : Fs) (part : FilePart)
    (created : create rules field disk before = (.ok part, fs)) (ops : List Op) :
    (∀ acts w, Within ops acts → exec step (start part fs) acts = some w → Owned part.path w) ↔
      Along Owners.step SoleDrop ⟨[part], false⟩ ops :=
  ⟨soleDropsNeeded ops (startSound created), fun sole acts _ => soleDropsEnough ops (startSound created) sole acts⟩

def fieldOf (bytes : Bytes) : Field := ⟨some "doc".toList, some "a.txt".toList, [("content-type".toList, "text/plain".toList)], [bytes], none⟩

def healthy : Disk := ⟨.ok (), .ok "n".toList, .ok (), fun _ => .ok (), true, id, List.prefix_refl, fun _ _ => rfl⟩

def hello : FilePart × Fs :=
  (⟨some "a.txt".toList, (fieldOf [104, 105]).headers, ⟨0, "n.txt".toList⟩, 2, some 0⟩, (create unix (fieldOf [104, 105]) healthy .empty).2)

theorem helloCreated : create unix (fieldOf [104, 105]) healthy .empty = (.ok hello.1, hello.2) := rfl

theorem helloOwned : create unix (fieldOf [104, 105]) healthy .empty = (.ok hello.1, hello.2) ∧
    ∀ acts w, Within [.drop 0] acts → exec step (start hello.1 hello.2) acts = some w → Owned hello.1.path w := by
  refine ⟨helloCreated, ?_⟩
  refine (ownedIff unix (fieldOf [104, 105]) healthy .empty hello.2 hello.1 helloCreated [.drop 0]).mpr ⟨?_, fun _ _ => trivial⟩
  intro i part same found deletes
  exact ⟨rfl, rfl⟩

theorem cloneDeletesForBoth :
    ¬ ∀ acts w, Within [.clone 0, .drop 1] acts → exec step (start hello.1 hello.2) acts = some w → Owned hello.1.path w := by
  intro owned
  have ran : (exec step (start hello.1 hello.2) [.op (.clone 0), .op (.drop 1), .thread 0]).isSome = true := rfl
  obtain ⟨w, ran⟩ := Option.isSome_iff_exists.mp ran
  have present := (owned _ w ⟨[], rfl⟩ ran).alive hello.1
  cases ran
  exact Bool.false_ne_true (present List.mem_cons_self)

end Silent.UploadOwners
