import Mathlib.Data.List.Perm.Basic
import Silent.UploadOwners
import Silent.Utf8Text

/-! `FormData::read` with every step that can fail: the next part, its chunks, its
directory, its file. Parts go to the files or the fields by their `Content-Type`, and the
half-built form that a failure drops deletes the files it owns. -/
namespace Silent.MultipartRead
open ByteText HttpRequest BodyParsing StdPath CompressionFrame StepSystem UploadedFile UploadOwners

inductive Delivery where
  | failed (err : Text)
  | part (field : Field) (disk : Disk)

structure Failure where
  err : SilentError
  dropped : FormData FilePart

def typed (field : Field) : Bool := HeaderMap.containsKey field.headers "content-type".toList

section
variable {P : Type} (rules : Rules P) (decode : Bytes → Text)

-- The loop over `next_field`. `decode` is the text multer makes of the bytes of a part.
def readParts (form : FormData FilePart) : List Delivery → Fs → Except Failure (FormData FilePart) × Fs
  | [], fs => (.ok form, fs)
  | .failed err :: _, fs => (.error ⟨.fileEmpty err, form⟩, fs)
  | .part field disk :: rest, fs =>
      match field.name with
      | none => readParts form rest fs
      | some name =>
          if typed field then
            match create rules field disk fs with
            | (.error err, fs) => (.error ⟨err, form⟩, fs)
            | (.ok file, fs) => readParts {form with files := insertMulti form.files name file} rest fs
          else
            match field.failure with
            | some err => (.error ⟨.fileEmpty err, form⟩, fs)
            | none => readParts {form with fields := insertMulti form.fields name (decode field.bytes)} rest fs

def read (deliveries : List Delivery) (fs : Fs) : Except Failure (FormData FilePart) × Fs :=
  readParts rules decode ⟨∅, ∅⟩ deliveries fs

end

def named (test : Field → Bool) (name : Text) (deliveries : List Delivery) : List (Field × Disk) :=
  deliveries.filterMap fun
    | .part field disk => if field.name = some name ∧ test field = true then some (field, disk) else none
    | .failed _ => none

def listed {X : Type} (map : HashMap Text (List X)) (name : Text) : List X := (map.lookup name).getD []

theorem listedInsert {X : Type} (map : HashMap Text (List X)) (key : Text) (value : X) (name : Text) :
    listed (insertMulti map key value) name = if name = key then listed map name ++ [value] else listed map name := by
  unfold listed insertMulti
  by_cases same : name = key
  · subst same
    simp
  · rw [AList.lookup_insert_ne same, if_neg same]

def Passes : Delivery → Prop
  | .failed _ => False
  | .part field disk =>
      field.name = none ∨ typed field = true ∧ disk.tempdir = .ok () ∧ Completes field disk ∨ typed field = false ∧ field.failure = none

def StopsBehind (field : Field) (disk : Disk) : Prop :=
  field.name ≠ none ∧ typed field = true ∧ disk.tempdir = .ok () ∧ ¬ Completes field disk

def FailsBehind : List Delivery → Prop
  | [] => False
  | .failed _ :: _ => False
  | .part field disk :: rest => StopsBehind field disk ∨ Passes (.part field disk) ∧ FailsBehind rest

structure Upload where
  fileName : Option Text
  headers : HeaderMap
  size : Nat
  stored : Option Bytes

def Field.upload (field : Field) : Upload := ⟨field.fileName, field.headers, field.bytes.length, some field.bytes⟩

def landing (part : Field × Disk) : Upload :=
  ⟨part.1.fileName, part.1.headers, part.1.bytes.length, some (part.2.landed part.1.bytes)⟩

def FilePart.upload (fs : Fs) (part : FilePart) : Upload := ⟨part.name, part.headers, part.size, fs.stored part.path⟩

/- What holds after the parts `done`: `made` are the files of the form, each in a directory
of its own, and nothing else has changed since `start`. -/
structure Holds (decode : Bytes → Text) (start : Fs) (done : List Delivery) (form : FormData FilePart) (made : List FilePart)
    (fs : Fs) : Prop where
  texts : ∀ name, listed form.fields name = (named (!typed ·) name done).map (decode ·.1.bytes)
  files : ∀ name, (listed form.files name).map (FilePart.upload fs) = (named typed name done).map landing
  held : ∀ part, part ∈ made ↔ ∃ name, part ∈ listed form.files name
  apart : (made.map (·.path.dir)).Nodup
  ours : ∀ part ∈ made, part.tempDir = some part.path.dir ∧ start.next ≤ part.path.dir ∧ (fs.stored part.path).isSome = true
  others : ∀ dir, (∀ part ∈ made, part.path.dir ≠ dir) → fs.dirs.lookup dir = start.dirs.lookup dir
  next : start.next ≤ fs.next

section
variable {P : Type} {rules : Rules P} {decode : Bytes → Text} {start fs : Fs} {done : List Delivery} {form : FormData FilePart}
  {made : List FilePart} {field : Field} {disk : Disk}

theorem namedSnoc (test : Field → Bool) (name : Text) (done : List Delivery) (field : Field) (disk : Disk) :
    named test name (done ++ [.part field disk]) =
      if field.name = some name ∧ test field = true then named test name done ++ [(field, disk)] else named test name done := by
  by_cases picked : field.name = some name ∧ test field = true
  · simp [named, picked]
  · simp [named, picked]

theorem holdsNothing (decode : Bytes → Text) (start : Fs) : Holds decode start [] ⟨∅, ∅⟩ [] start where
  texts _ := rfl
  files _ := rfl
  held := by simp [listed]
  apart := List.nodup_nil
  ours := by simp
  others _ _ := rfl
  next := Nat.le_refl _

theorem holdsUnnamed (holds : Holds decode start done form made fs) (unnamed : field.name = none) :
    Holds decode start (done ++ [.part field disk]) form made fs :=
  {holds with
    texts := fun name => by simpa [namedSnoc, unnamed] using holds.texts name
    files := fun name => by simpa [namedSnoc, unnamed] using holds.files name}

theorem holdsText {name : Text} (holds : Holds decode start done form made fs) (called : field.name = some name)
    (text : typed field = false) :
    Holds decode start (done ++ [.part field disk]) {form with fields := insertMulti form.fields name (decode field.bytes)} made fs :=
  {holds with
    texts := fun other => by
      rw [listedInsert, namedSnoc, called, holds.texts]
      by_cases same : other = name <;> simp [same, text, Ne.symm]
    files := fun other => by simpa [namedSnoc, text] using holds.files other}

theorem storedDir {path : FilePath} (stored : (fs.stored path).isSome = true) : path.dir < fs.next := by
  obtain ⟨bytes, stored⟩ := Option.isSome_iff_exists.mp stored
  exact fs.fresh _ (Fs.storedPresent stored)

theorem storedSame {later : Fs} {path : FilePath} (same : later.dirs.lookup path.dir = fs.dirs.lookup path.dir) :
    later.stored path = fs.stored path := by
  rw [Fs.stored, Fs.stored, same]

theorem tempdirOthers {later : Fs} (beside : Fs.Beside fs.next fs.tempdir later) {dir : Nat} (other : dir ≠ fs.next) :
    later.dirs.lookup dir = fs.dirs.lookup dir :=
  (beside.others dir other).trans (AList.lookup_insert_ne other)

theorem uploadSame {later : Fs} {parts : List FilePart}
    (same : ∀ part ∈ parts, later.stored part.path = fs.stored part.path) :
    parts.map (FilePart.upload later) = parts.map (FilePart.upload fs) :=
  List.map_congr_left fun part among => by rw [FilePart.upload, FilePart.upload, same part among]

theorem uploadedSeen {part : FilePart} {later : Fs} (uploaded : Uploaded field disk fs part later) :
    FilePart.upload later part = landing (field, disk) := by
  rw [FilePart.upload, landing, uploaded.name, uploaded.headers, uploaded.size, uploaded.stored]

theorem holdsFile {name : Text} {part : FilePart} {later : Fs} (holds : Holds decode start done form made fs)
    (called : field.name = some name) (file : typed field = true) (uploaded : Uploaded field disk fs part later) :
    Holds decode start (done ++ [.part field disk]) {form with files := insertMulti form.files name part} (made ++ [part]) later := by
  have older : ∀ old ∈ made, old.path.dir ≠ fs.next := fun old among =>
    Nat.ne_of_lt (storedDir (holds.ours old among).2.2)
  have unchanged : ∀ old ∈ made, later.stored old.path = fs.stored old.path := fun old among =>
    storedSame (tempdirOthers uploaded.beside (older old among))
  constructor
  · intro other
    simpa [namedSnoc, file] using holds.texts other
  · intro other
    have kept : (listed form.files other).map (FilePart.upload later) = (named typed other done).map landing := by
      rw [uploadSame fun old among => unchanged old ((holds.held old).mpr ⟨other, among⟩)]
      exact holds.files other
    rw [namedSnoc, listedInsert, called]
    by_cases same : other = name
    · subst same
      simp [file, kept, uploadedSeen uploaded]
    · simp [same, Ne.symm same, kept]
  · intro old
    simp only [List.mem_append, List.mem_singleton, holds.held, listedInsert]
    constructor
    · rintro (⟨other, among⟩ | rfl)
      · refine ⟨other, ?_⟩
        split
        · exact List.mem_append_left _ among
        · exact among
      · exact ⟨name, by simp⟩
    · rintro ⟨other, among⟩
      split at among
      · exact (List.mem_append.mp among).imp (⟨other, ·⟩) List.mem_singleton.mp
      · exact .inl ⟨other, among⟩
  · rw [List.map_append, List.nodup_append]
    refine ⟨holds.apart, List.nodup_singleton _, ?_⟩
    simpa [uploaded.dir] using older
  · intro old among
    rcases List.mem_append.mp among with before | last
    · obtain ⟨dir, recent, stored⟩ := holds.ours old before
      exact ⟨dir, recent, by rwa [unchanged old before]⟩
    · rw [List.mem_singleton.mp last]
      exact ⟨uploaded.tempDir, uploaded.dir ▸ holds.next, by rw [uploaded.stored]; rfl⟩
  · intro dir elsewhere
    have apart : dir ≠ fs.next := by
      rw [← uploaded.dir]
      exact (elsewhere part (by simp)).symm
    rw [tempdirOthers uploaded.beside apart]
    exact holds.others dir fun old among => elsewhere old (List.mem_append_left _ among)
  · rw [uploaded.beside.next]
    exact Nat.le_succ_of_le holds.next

def Outcome (decode : Bytes → Text) (start : Fs) (done deliveries : List Delivery) : Except Failure (FormData FilePart) × Fs → Prop
  | (.ok form, fs) => (∀ delivery ∈ deliveries, Passes delivery) ∧ ∃ made, Holds decode start (done ++ deliveries) form made fs
  | (.error failure, fs) =>
      (¬ ∀ delivery ∈ deliveries, Passes delivery) ∧ ∃ passed made reached, Holds decode start passed failure.dropped made reached ∧
        (FailsBehind deliveries ∧ reached.next ∈ fs.dirs ∧ Fs.Beside reached.next reached.tempdir fs ∨
          ¬ FailsBehind deliveries ∧ fs = reached)

theorem passesNotBehind (passes : Passes (.part field disk)) : ¬ StopsBehind field disk := by
  rintro ⟨called, file, -, stops⟩
  rcases passes with unnamed | ⟨-, -, completes⟩ | ⟨text, -⟩
  · exact called unnamed
  · exact stops completes
  · simp [text] at file

theorem outcomePassed {delivery : Delivery} {rest : List Delivery} (passes : Passes delivery)
    {result : Except Failure (FormData FilePart) × Fs} (outcome : Outcome decode start (done ++ [delivery]) rest result) :
    Outcome decode start done (delivery :: rest) result := by
  have behind : FailsBehind (delivery :: rest) ↔ FailsBehind rest := by
    cases delivery with
    | failed err => exact passes.elim
    | part field disk => simp only [FailsBehind, passesNotBehind passes, passes, false_or, true_and]
  obtain ⟨result | form, fs⟩ := result
  · obtain ⟨stops, passed, made, reached, holds, left⟩ := outcome
    refine ⟨fun all => stops fun delivery among => all delivery (List.mem_cons_of_mem _ among), passed, made, reached, holds, ?_⟩
    rwa [behind]
  · obtain ⟨all, made, holds⟩ := outcome
    refine ⟨List.forall_mem_cons.mpr ⟨passes, all⟩, made, ?_⟩
    rwa [List.append_assoc, List.singleton_append] at holds

theorem outcomeStopped {rest : List Delivery} {err : SilentError} {left : Fs} (holds : Holds decode start done form made fs)
    (stops : ¬ Passes (.part field disk))
    (left_ : StopsBehind field disk ∧ fs.next ∈ left.dirs ∧ Fs.Beside fs.next fs.tempdir left ∨ ¬ StopsBehind field disk ∧ left = fs) :
    Outcome decode start done (.part field disk :: rest) (.error ⟨err, form⟩, left) := by
  refine ⟨fun all => stops (all _ List.mem_cons_self), done, made, fs, holds, ?_⟩
  simpa only [FailsBehind, stops, false_and, or_false] using left_

theorem createOutcome {name : Text} {rest : List Delivery} (holds : Holds decode start done form made fs)
    (called : field.name = some name) (file : typed field = true)
    (later : ∀ part left, Holds decode start (done ++ [.part field disk]) {form with files := insertMulti form.files name part}
      (made ++ [part]) left → Outcome decode start (done ++ [.part field disk]) rest
        (readParts rules decode {form with files := insertMulti form.files name part} rest left)) :
    Outcome decode start done (.part field disk :: rest)
      (match create rules field disk fs with
        | (.error err, fs) => (.error ⟨err, form⟩, fs)
        | (.ok part, fs) => readParts rules decode {form with files := insertMulti form.files name part} rest fs) := by
  cases ready : disk.tempdir with
  | error err =>
    rw [createRefused fs ready]
    refine outcomeStopped holds ?_ (.inr ⟨?_, rfl⟩)
    · simp [Passes, called, file, ready]
    · simp [StopsBehind, ready]
  | ok given =>
    by_cases completes : Completes field disk
    · obtain ⟨part, result, uploaded⟩ := @createCompletes P rules field disk fs ready completes
      rcases created : create rules field disk fs with ⟨answer, left⟩
      rw [created] at result uploaded
      subst result
      have passes : Passes (.part field disk) := Or.inr (Or.inl ⟨file, ready, completes⟩)
      exact outcomePassed passes (later part left (holdsFile holds called file uploaded))
    · obtain ⟨⟨err, result⟩, present, beside⟩ := @createLeaves P rules field disk fs ready completes
      rcases created : create rules field disk fs with ⟨answer, left⟩
      rw [created] at result present beside
      subst result
      refine outcomeStopped holds ?_ (.inl ⟨⟨by simp [called], file, ready, completes⟩, present, beside⟩)
      simp [Passes, called, file, ready, completes]

theorem readPartsOutcome (deliveries : List Delivery) (holds : Holds decode start done form made fs) :
    Outcome decode start done deliveries (readParts rules decode form deliveries fs) := by
  induction deliveries generalizing done form made fs with
  | nil => exact ⟨by simp, made, by simpa using holds⟩
  | cons delivery rest ih =>
    cases delivery with
    | failed err =>
      refine ⟨?_, done, made, fs, holds, .inr ⟨not_false, rfl⟩⟩
      exact fun all => all _ List.mem_cons_self
    | part field disk =>
      unfold readParts
      cases called : field.name with
      | none =>
        have passes : Passes (.part field disk) := Or.inl called
        exact outcomePassed passes (ih (holdsUnnamed holds called))
      | some name =>
        dsimp only
        split
        · rename_i file
          exact createOutcome holds called file fun part left => ih
        · rename_i untyped
          have text : typed field = false := by simpa using untyped
          cases whole : field.failure with
          | none =>
            have passes : Passes (.part field disk) := Or.inr (Or.inr ⟨text, whole⟩)
            exact outcomePassed passes (ih (holdsText holds called text))
          | some err =>
            refine outcomeStopped holds ?_ (.inr ⟨?_, rfl⟩)
            · simp [Passes, called, text, whole]
            · simp [StopsBehind, text]

end

def Busy (fs : Fs) (thread : Deletion) : Prop :=
  thread.path.dir = thread.tempDir ∧
    if thread.fileRemoved then fs.dirs.lookup thread.tempDir = some none else (fs.stored thread.path).isSome = true

/- Every thread has a directory of its own, that is not to be there afterwards. -/
structure Cleaning (base : Nat → Option (Option (Text × Bytes))) (w : World) : Prop where
  idle : w.owners.live = []
  apart : (w.threads.map (·.tempDir)).Nodup
  busy : ∀ thread ∈ w.threads, Busy w.fs thread ∧ base thread.tempDir = none
  others : ∀ dir, (∀ thread ∈ w.threads, thread.tempDir ≠ dir) → w.fs.dirs.lookup dir = base dir

section
variable {base : Nat → Option (Option (Text × Bytes))} {w t : World}

theorem busySame {fs later : Fs} {thread : Deletion} (busy : Busy fs thread)
    (same : later.dirs.lookup thread.tempDir = fs.dirs.lookup thread.tempDir) : Busy later thread := by
  unfold Busy at busy ⊢
  rw [storedSame (busy.1 ▸ same), same]
  exact busy

theorem cleaningPerm {threads threads' : List Deletion} {owners : Owners} {fs : Fs} (cleaning : Cleaning base ⟨owners, threads, fs⟩)
    (perm : threads.Perm threads') : Cleaning base ⟨owners, threads', fs⟩ where
  idle := cleaning.idle
  apart := (perm.map _).nodup_iff.mp cleaning.apart
  busy := fun thread among => cleaning.busy thread (perm.mem_iff.mpr among)
  others := fun dir free => cleaning.others dir fun thread among => free thread (perm.mem_iff.mp among)

section
variable {owners : Owners} {thread : Deletion} {rest : List Deletion} {fs later : Fs}

theorem restBusy (cleaning : Cleaning base ⟨owners, thread :: rest, fs⟩)
    (frame : ∀ dir, dir ≠ thread.tempDir → later.dirs.lookup dir = fs.dirs.lookup dir) :
    ∀ other ∈ rest, Busy later other ∧ base other.tempDir = none := by
  intro other among
  obtain ⟨busy, absent⟩ := cleaning.busy other (List.mem_cons_of_mem _ among)
  have alone := (List.nodup_cons.mp cleaning.apart).1
  have apart : other.tempDir ≠ thread.tempDir := fun same => alone (List.mem_map.mpr ⟨other, among, same⟩)
  exact ⟨busySame busy (frame _ apart), absent⟩

theorem dirCleans (cleaning : Cleaning base ⟨owners, thread :: rest, fs⟩)
    (after : ∀ dir, later.dirs.lookup dir = if dir = thread.tempDir then none else fs.dirs.lookup dir) :
    Cleaning base ⟨owners, rest, later⟩ where
  idle := cleaning.idle
  apart := (List.nodup_cons.mp cleaning.apart).2
  busy := restBusy cleaning fun dir apart => by rw [after, if_neg apart]
  others := by
    intro dir free
    dsimp only
    rw [after]
    split
    · rename_i same
      rw [same, (cleaning.busy thread List.mem_cons_self).2]
    · rename_i apart
      exact cleaning.others dir (List.forall_mem_cons.mpr ⟨Ne.symm apart, free⟩)

theorem fileCleans (cleaning : Cleaning base ⟨owners, thread :: rest, fs⟩)
    (after : ∀ dir, later.dirs.lookup dir = if dir = thread.tempDir then some none else fs.dirs.lookup dir) :
    Cleaning base ⟨owners, {thread with fileRemoved := true} :: rest, later⟩ where
  idle := cleaning.idle
  apart := cleaning.apart
  busy := by
    obtain ⟨⟨here, -⟩, absent⟩ := cleaning.busy thread List.mem_cons_self
    refine List.forall_mem_cons.mpr ⟨⟨⟨here, ?_⟩, absent⟩, restBusy cleaning fun dir apart => by rw [after, if_neg apart]⟩
    simp [after]
  others := by
    intro dir free
    obtain ⟨apart, free⟩ := List.forall_mem_cons.mp free
    dsimp only
    rw [after, if_neg (Ne.symm apart)]
    exact cleaning.others dir (List.forall_mem_cons.mpr ⟨apart, free⟩)

end

theorem threadCleans (cleaning : Cleaning base w) {i : Nat} {thread : Deletion} (found : w.threads[i]? = some thread) :
    Cleaning base (runThread w i thread) := by
  obtain ⟨inside, rfl⟩ := List.getElem?_eq_some_iff.mp found
  have first := cleaningPerm cleaning (List.getElem_cons_eraseIdx_perm inside).symm
  obtain ⟨here, busy⟩ := (first.busy _ List.mem_cons_self).1
  unfold runThread
  split
  · rename_i removed
    rw [if_pos removed] at busy
    exact dirCleans first (Fs.lookupRemoveDir busy)
  · rename_i fresh
    rw [if_neg fresh] at busy
    have after := Fs.lookupRemoveFile busy
    rw [here] at after
    exact cleaningPerm (fileCleans first after) (List.set_perm_cons_eraseIdx inside _).symm

theorem stepCleans (w : World) (a : Act) (t : World) (cleaning : Cleaning base w) (taken : step w a = some t) : Cleaning base t := by
  cases a with
  | op op =>
    obtain ⟨owners, moved, -⟩ := Option.map_eq_some_iff.mp taken
    cases op <;> simp [Owners.step, cleaning.idle] at moved
  | thread i =>
    obtain ⟨thread, found, rfl⟩ := Option.map_eq_some_iff.mp taken
    exact threadCleans cleaning found

def pending (w : World) : Nat := w.threads.length + w.threads.countP (!·.fileRemoved)

theorem threadsEnd (w : World) : ∃ u, Run step (fun _ _ => True) w u ∧ u.threads = [] := by
  refine runFinishes (P := fun _ => True) pending (fun _ _ _ _ _ _ => trivial) (fun s _ busy => ?_) trivial
  obtain ⟨thread, rest, whole⟩ := List.exists_cons_of_ne_nil busy
  refine ⟨.thread 0, runThread s 0 thread, trivial, by simp [step, whole], ?_⟩
  unfold runThread
  split
  · rename_i removed
    simp [pending, whole, removed]
  · rename_i fresh
    simp [pending, whole, fresh]

def Owns (form : FormData FilePart) (parts : List FilePart) : Prop :=
  parts.Nodup ∧ ∀ part, part ∈ parts ↔ ∃ name, part ∈ listed form.files name

def CleanedUp (start : Fs) (form : FormData FilePart) (fs : Fs) : Prop :=
  ∀ parts, Owns form parts → ∀ w, Run step (fun _ _ => True) ⟨⟨[], false⟩, parts.filterMap FilePart.drop, fs⟩ w →
    w.threads = [] → ∀ dir, w.fs.dirs.lookup dir = start.dirs.lookup dir

end

section
variable {decode : Bytes → Text} {start reached fs : Fs} {passed : List Delivery} {form : FormData FilePart}
  {made parts : List FilePart} {base : Nat → Option (Option (Text × Bytes))}

theorem dropsCleaning (holds : Holds decode start passed form made reached) (owns : Owns form parts)
    (same : ∀ part ∈ made, fs.dirs.lookup part.path.dir = reached.dirs.lookup part.path.dir ∧ base part.path.dir = none)
    (others : ∀ dir, (∀ part ∈ made, part.path.dir ≠ dir) → fs.dirs.lookup dir = base dir) :
    Cleaning base ⟨⟨[], false⟩, parts.filterMap FilePart.drop, fs⟩ := by
  have listedMade : ∀ part, part ∈ parts ↔ part ∈ made := fun part => (owns.2 part).trans (holds.held part).symm
  have threads : parts.filterMap FilePart.drop = parts.map fun part => ⟨part.path, part.path.dir, false⟩ := by
    rw [← List.filterMap_eq_map]
    refine List.filterMap_congr fun part among => ?_
    simp [FilePart.drop, (holds.ours part ((listedMade part).mp among)).1]
  rw [threads]
  constructor
  · rfl
  · rw [List.map_map]
    refine List.Nodup.map_on (fun one amongst other among equal => ?_) owns.1
    exact List.inj_on_of_nodup_map holds.apart ((listedMade one).mp amongst) ((listedMade other).mp among) equal
  · intro thread among
    obtain ⟨part, listed, rfl⟩ := List.mem_map.mp among
    have inside := (listedMade part).mp listed
    refine ⟨⟨rfl, ?_⟩, (same part inside).2⟩
    simpa [storedSame (same part inside).1] using (holds.ours part inside).2.2
  · intro dir free
    exact others dir fun part inside => free _ (List.mem_map.mpr ⟨part, (listedMade part).mpr inside, rfl⟩)

theorem madeOwned (holds : Holds decode start passed form made reached) : Owns form made :=
  ⟨List.Nodup.of_map _ holds.apart, holds.held⟩

theorem recentAbsent {dir : Nat} (recent : start.next ≤ dir) :
    start.dirs.lookup dir = none :=
  AList.lookup_eq_none.mpr fun present => Nat.not_lt_of_le recent (start.fresh dir present)

theorem endsAt (cleaning : Cleaning base ⟨⟨[], false⟩, parts.filterMap FilePart.drop, fs⟩) {w : World}
    (run : Run step (fun _ _ => True) ⟨⟨[], false⟩, parts.filterMap FilePart.drop, fs⟩ w) (ended : w.threads = []) (dir : Nat) :
    w.fs.dirs.lookup dir = base dir :=
  (runInvariant (fun s a t _ => stepCleans s a t) run cleaning).others dir (by simp [ended])

theorem cleanedUp (holds : Holds decode start passed form made reached) : CleanedUp start form reached := by
  intro parts owns w run ended dir
  have cleaning : Cleaning start.dirs.lookup ⟨⟨[], false⟩, parts.filterMap FilePart.drop, reached⟩ := dropsCleaning holds owns
    (fun part inside => ⟨rfl, recentAbsent (holds.ours part inside).2.1⟩) holds.others
  exact endsAt cleaning run ended dir

theorem leftBehind (holds : Holds decode start passed form made reached) (present : reached.next ∈ fs.dirs)
    (beside : Fs.Beside reached.next reached.tempdir fs) : ¬ CleanedUp start form fs := by
  intro cleaned
  obtain ⟨w, run, ended⟩ := threadsEnd ⟨⟨[], false⟩, made.filterMap FilePart.drop, fs⟩
  have older : ∀ part ∈ made, part.path.dir ≠ reached.next := fun part inside =>
    Nat.ne_of_lt (storedDir (holds.ours part inside).2.2)
  have cleaning : Cleaning (fun dir => if dir = reached.next then fs.dirs.lookup dir else start.dirs.lookup dir)
      ⟨⟨[], false⟩, made.filterMap FilePart.drop, fs⟩ := dropsCleaning holds (madeOwned holds)
    (fun part inside => ⟨tempdirOthers beside (older part inside), by
      rw [if_neg (older part inside)]
      exact recentAbsent (holds.ours part inside).2.1⟩)
    (fun dir free => by
      split
      · rfl
      · rename_i other
        rw [tempdirOthers beside other]
        exact holds.others dir free)
  have stays := endsAt cleaning run ended reached.next
  rw [cleaned made (madeOwned holds) w run ended reached.next, recentAbsent holds.next, if_pos rfl] at stays
  exact AList.lookup_eq_none.mp stays.symm present

end

theorem namedMem {test : Field → Bool} {name : Text} {deliveries : List Delivery} {field : Field} {disk : Disk} :
    (field, disk) ∈ named test name deliveries ↔ .part field disk ∈ deliveries ∧ field.name = some name ∧ test field = true := by
  unfold named
  rw [List.mem_filterMap]
  constructor
  · rintro ⟨delivery, among, picked⟩
    cases delivery with
    | failed err => contradiction
    | part other disk =>
      dsimp only at picked
      split at picked
      · rename_i fits
        cases Option.some.inj picked
        exact ⟨among, fits⟩
      · contradiction
  · rintro ⟨among, fits⟩
    exact ⟨.part field disk, among, if_pos fits⟩

theorem namedCongr {one other : Field → Bool} {name : Text} {deliveries : List Delivery}
    (same : ∀ field disk, .part field disk ∈ deliveries → field.name = some name → one field = other field) :
    named one name deliveries = named other name deliveries := by
  refine List.filterMap_congr fun delivery among => ?_
  cases delivery with
  | failed err => rfl
  | part field disk =>
    by_cases called : field.name = some name
    · simp [same field disk among called]
    · simp [called]

theorem untypedPlain {name : Text} {deliveries : List Delivery}
    (sorted : ∀ field disk, .part field disk ∈ deliveries → field.name = some name → typed field = field.fileName.isSome) :
    named (!typed ·) name deliveries = named (·.fileName.isNone) name deliveries :=
  namedCongr fun field disk among called => by rw [sorted field disk among called, Option.not_isSome]

/- A named part has a `Content-Type` exactly if it has a filename, one without is the text it
is read as, and one with is on the disk as a whole. -/
def Fitting (decode : Bytes → Text) : Delivery → Prop
  | .failed _ => True
  | .part field disk => field.name ≠ none →
      typed field = field.fileName.isSome ∧ (field.fileName = none → Utf8Text.encode (decode field.bytes) = field.bytes) ∧
        (field.fileName ≠ none → disk.landed field.bytes = field.bytes)

def Filed (deliveries : List Delivery) (form : FormData FilePart) (fs : Fs) : Prop := ∀ name,
  (listed form.fields name).map Utf8Text.encode = (named (·.fileName.isNone) name deliveries).map (·.1.bytes) ∧
    (listed form.files name).map (FilePart.upload fs) = (named (·.fileName.isSome) name deliveries).map (fun part => Field.upload part.1)

section
variable {decode : Bytes → Text} {start fs : Fs} {deliveries : List Delivery} {form : FormData FilePart} {made : List FilePart}

theorem uploadsPick {one other : Field → Bool} {name : Text} {made made' : Field × Disk → Upload} {field : Field} {disk : Disk}
    (uploads : (named one name deliveries).map made = (named other name deliveries).map made')
    (seen : ∀ like, made' like = made (field, disk) → other like.1 = other field) (among : .part field disk ∈ deliveries)
    (called : field.name = some name) (picked : one field = true) : other field = true := by
  have listed : made (field, disk) ∈ (named one name deliveries).map made :=
    List.mem_map_of_mem (namedMem.mpr ⟨among, called, picked⟩)
  rw [uploads] at listed
  obtain ⟨like, found, same⟩ := List.mem_map.mp listed
  exact (seen like same).symm.trans (namedMem.mp found).2.2

theorem filedFitting (holds : Holds decode start deliveries form made fs) (filed : Filed deliveries form fs) :
    ∀ delivery ∈ deliveries, Fitting decode delivery := by
  intro delivery among
  cases delivery with
  | failed err => trivial
  | part field disk =>
    intro called
    obtain ⟨name, called⟩ := Option.ne_none_iff_exists'.mp called
    have uploads := (holds.files name).symm.trans (filed name).2
    have sorted : ∀ field disk, .part field disk ∈ deliveries → field.name = some name → typed field = field.fileName.isSome := by
      intro field disk among called
      have byFileName : ∀ like : Field × Disk, Field.upload like.1 = landing (field, disk) → like.1.fileName.isSome = field.fileName.isSome :=
        fun like same => congrArg (·.fileName.isSome) same
      have byHeaders : ∀ like : Field × Disk, landing like = Field.upload field → typed like.1 = typed field := by
        intro like same
        have headers : like.1.headers = field.headers := congrArg Upload.headers same
        rw [typed, typed, headers]
      refine Bool.eq_iff_iff.mpr ⟨fun file => ?_, fun file => ?_⟩
      · exact uploadsPick uploads byFileName among called file
      · exact uploadsPick uploads.symm byHeaders among called file
    refine ⟨sorted field disk among called, fun plain => ?_, fun file => ?_⟩
    · have texts := (filed name).1
      rw [holds.texts, List.map_map, untypedPlain sorted] at texts
      exact List.map_inj_left.mp texts (field, disk) (namedMem.mpr ⟨among, called, by simp [plain]⟩)
    · rw [namedCongr sorted] at uploads
      have same := List.map_inj_left.mp uploads (field, disk) (namedMem.mpr ⟨among, called, Option.isSome_iff_ne_none.mpr file⟩)
      exact Option.some.inj (congrArg Upload.stored same)

theorem fittingFiled (holds : Holds decode start deliveries form made fs) (fitting : ∀ delivery ∈ deliveries, Fitting decode delivery) :
    Filed deliveries form fs := by
  intro name
  have sorted : ∀ field disk, .part field disk ∈ deliveries → field.name = some name → typed field = field.fileName.isSome :=
    fun field disk among called => (fitting _ among (by simp [called])).1
  constructor
  · rw [holds.texts, List.map_map, untypedPlain sorted]
    refine List.map_congr_left fun part found => ?_
    obtain ⟨among, called, plain⟩ := namedMem.mp found
    exact (fitting _ among (by simp [called])).2.1 (Option.isNone_iff_eq_none.mp plain)
  · rw [holds.files, namedCongr sorted]
    refine List.map_congr_left fun part found => ?_
    obtain ⟨among, called, file⟩ := namedMem.mp found
    have whole := (fitting _ among (by simp [called])).2.2 (Option.isSome_iff_ne_none.mp file)
    rw [landing, whole]
    rfl

end

theorem passedNotBehind {deliveries : List Delivery} (all : ∀ delivery ∈ deliveries, Passes delivery) : ¬ FailsBehind deliveries := by
  induction deliveries with
  | nil => exact not_false
  | cons delivery rest ih =>
    obtain ⟨first, others⟩ := List.forall_mem_cons.mp all
    cases delivery with
    | failed err => exact not_false
    | part field disk =>
      rintro (stops | ⟨-, later⟩)
      · exact passesNotBehind first stops
      · exact ih others later

def ReadsRight (start : Fs) (deliveries : List Delivery) : Except Failure (FormData FilePart) × Fs → Prop
  | (.ok form, fs) => Filed deliveries form fs
  | (.error failure, fs) => CleanedUp start failure.dropped fs

theorem readsRightIff {P : Type} (rules : Rules P) (decode : Bytes → Text) (start : Fs) (deliveries : List Delivery) :
    ReadsRight start deliveries (read rules decode deliveries start) ↔
      ¬ FailsBehind deliveries ∧
        ((∀ delivery ∈ deliveries, Passes delivery) → ∀ delivery ∈ deliveries, Fitting decode delivery) := by
  have outcome : Outcome decode start [] deliveries (read rules decode deliveries start) :=
    readPartsOutcome deliveries (holdsNothing decode start)
  generalize read rules decode deliveries start = result at outcome
  obtain ⟨failure | form, fs⟩ := result
  · obtain ⟨stops, passed, made, reached, holds, ⟨behind, present, beside⟩ | ⟨before, rfl⟩⟩ := outcome
    · exact iff_of_false (leftBehind holds present beside) fun both => both.1 behind
    · exact iff_of_true (cleanedUp holds) ⟨before, fun all => absurd all stops⟩
  · obtain ⟨all, made, holds⟩ := outcome
    rw [List.nil_append] at holds
    exact ⟨fun filed => ⟨passedNotBehind all, fun _ => filedFitting holds filed⟩, fun both => fittingFiled holds (both.2 all)⟩

def partOf (fileName : Option Text) (headers : HeaderMap) : Field := ⟨some "doc".toList, fileName, headers, [[104, 105]], none⟩

def plainHeaders : HeaderMap := [("content-type".toList, "text/plain".toList)]

def cutOff : Field := {partOf (some "a.txt".toList) plainHeaders with failure := some "incomplete multipart stream".toList}

def lossy : Disk := {healthy with drained := false, landed := fun _ => [], front := fun _ => List.nil_prefix, whole := by simp}

theorem untypedUploadIsField :
    ¬ ReadsRight .empty [.part (partOf (some "a.txt".toList) []) healthy]
        (read unix Utf8Text.lossy [.part (partOf (some "a.txt".toList) []) healthy] .empty) ∧
      ¬ ReadsRight .empty [.part cutOff healthy] (read unix Utf8Text.lossy [.part cutOff healthy] .empty) ∧
      ¬ ReadsRight .empty [.part (partOf (some "a.txt".toList) plainHeaders) lossy]
        (read unix Utf8Text.lossy [.part (partOf (some "a.txt".toList) plainHeaders) lossy] .empty) := by
  refine ⟨fun filed => ?_, fun cleaned => ?_, fun filed => ?_⟩
  · exact List.cons_ne_nil _ _ (filed "doc".toList).1
  · have nothing : Owns ⟨∅, ∅⟩ [] := ⟨List.nodup_nil, by simp [listed]⟩
    have stays := cleaned [] nothing _ (.done _) rfl 0
    contradiction
  · have stored : some ([] : Bytes) = some [104, 105] := congrArg Upload.stored (List.head_eq_of_cons_eq (filed "doc".toList).2)
    cases stored

section
variable {P : Type} (rules : Rules P) (decode : Bytes → Text)

def nextFields : List Delivery → Fs → List (NextField FilePart)
  | [], _ => []
  | .failed err :: _, _ => [.failed err]
  | .part field disk :: rest, fs =>
      let text := match field.failure with
        | some err => .error err
        | none => .ok (decode field.bytes)
      .field field.name (typed field) text (create rules field disk fs).1 ::
        nextFields rest (if field.name ≠ none ∧ typed field then (create rules field disk fs).2 else fs)

theorem readPartsFields (form : FormData FilePart) (deliveries : List Delivery) (fs : Fs) :
    readFields form (nextFields rules decode deliveries fs) = (readParts rules decode form deliveries fs).1.mapError Failure.err := by
  induction deliveries generalizing form fs with
  | nil => rfl
  | cons delivery rest ih =>
    cases delivery with
    | failed err => rfl
    | part field disk =>
      unfold nextFields readParts
      cases called : field.name with
      | none => simpa [readFields] using ih form fs
      | some name =>
        cases file : typed field with
        | true =>
          rcases created : create rules field disk fs with ⟨err | part, left⟩
          · simp [readFields, bind, Except.bind, Except.mapError]
          · simpa [readFields, bind, Except.bind] using ih _ left
        | false =>
          cases whole : field.failure with
          | some err => simp [readFields, bind, Except.bind, Except.mapError]
          | none => simpa [readFields, bind, Except.bind, Except.mapError] using ih _ fs

end

end Silent.MultipartRead
