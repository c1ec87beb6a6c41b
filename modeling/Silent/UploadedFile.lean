import Silent.BodyParsing
import Silent.CompressionFrame
import Silent.StdPath
import Silent.StepSystem

/-! Files uploaded as parts of a form: how `FilePart::create` writes one, and how long it
lives under clones, `do_not_delete_on_drop`, drops, and the threads that drops start. -/
namespace Silent.UploadedFile
open ByteText HttpRequest BodyParsing StdPath CompressionFrame StepSystem

structure FilePath where
  dir : Nat
  file : Text
  deriving DecidableEq

/- The temporary directories of a process, each with the one file that was put into it.
A new one has a number no other had. -/
structure Fs where
  next : Nat
  dirs : HashMap Nat (Option (Text × Bytes))
  fresh : ∀ dir ∈ dirs, dir < next

namespace Fs

def empty : Fs := ⟨0, ∅, by simp⟩

def setFile (fs : Fs) (dir : Nat) (file : Option (Text × Bytes)) (present : dir ∈ fs.dirs) : Fs where
  next := fs.next
  dirs := fs.dirs.insert dir file
  fresh := by
    intro other among
    rcases (AList.mem_insert _).mp among with rfl | among
    · exact fs.fresh other present
    · exact fs.fresh other among

def tempdir (fs : Fs) : Fs where
  next := fs.next + 1
  dirs := fs.dirs.insert fs.next none
  fresh := by
    intro other among
    rcases (AList.mem_insert _).mp among with rfl | among
    · exact Nat.lt_succ_self _
    · exact Nat.lt_succ_of_lt (fs.fresh other among)

def stored (fs : Fs) (path : FilePath) : Option Bytes :=
  match fs.dirs.lookup path.dir with
  | some (some (file, bytes)) => if file = path.file then some bytes else none
  | _ => none

def put (fs : Fs) (path : FilePath) (bytes : Bytes) : Fs :=
  if present : path.dir ∈ fs.dirs then fs.setFile path.dir (some (path.file, bytes)) present else fs

def removeFile (fs : Fs) (path : FilePath) : Fs :=
  if present : path.dir ∈ fs.dirs then
    if (fs.stored path).isSome then fs.setFile path.dir none present else fs
  else fs

def removeDir (fs : Fs) (dir : Nat) : Fs :=
  if fs.dirs.lookup dir = some none then
    ⟨fs.next, fs.dirs.erase dir, fun other among => fs.fresh other (AList.mem_erase.mp among).2⟩
  else fs

end Fs

structure Field where
  name : Option Text
  fileName : Option Text
  headers : HeaderMap
  chunks : List Bytes
  failure : Option Text

def Field.bytes (field : Field) : Bytes := field.chunks.flatten

/- What the disk and the source of nonces answer while one part is written. `write_all` of
an `async_fs::File` only fills a buffer, of which `landed` is what gets into the file. A
flush would make sure that it is drained; `create` leaves that to chance. -/
structure Disk where
  tempdir : Except Text Unit
  nonce : Except Text Text
  create : Except Text Unit
  write : Nat → Except Text Unit
  drained : Bool
  landed : Bytes → Bytes
  front : ∀ taken, landed taken <+: taken
  whole : drained = true → ∀ taken, landed taken = taken

structure FilePart where
  name : Option Text
  headers : HeaderMap
  path : FilePath
  size : Nat
  tempDir : Option Nat

def fromString (message : Text) : SilentError := .businessError 500 message

section
variable {P : Type} (rules : Rules P)

def fileNameOf (nonce : Text) (name : Option Text) : Text :=
  nonce ++ '.' :: ((name.bind fun name => extension rules (rules.parse name)).getD "unknown".toList)

def writeChunks (field : Field) (disk : Disk) : List Bytes → Nat → Nat → Bytes → SilentResult Nat × Bytes
  | [], _, size, taken =>
      match field.failure with
      | some err => (.error (.fileEmpty err), taken)
      | none => (.ok size, taken)
  | chunk :: rest, count, size, taken =>
      match disk.write count with
      | .error err => (.error (.ioError err), taken)
      | .ok () => writeChunks field disk rest (count + 1) (size + chunk.length) (taken ++ chunk)

def create (field : Field) (disk : Disk) (fs : Fs) : SilentResult FilePart × Fs :=
  match disk.tempdir with
  | .error err => (.error (.ioError err), fs)
  | .ok () =>
      let dir := fs.next
      let fs := fs.tempdir
      match disk.nonce with
      | .error message => (.error (fromString message), fs)
      | .ok nonce =>
          let path := FilePath.mk dir (fileNameOf rules nonce field.fileName)
          match disk.create with
          | .error err => (.error (.ioError err), fs)
          | .ok () =>
              match writeChunks field disk field.chunks 0 0 [] with
              | (.error err, taken) => (.error err, fs.put path (disk.landed taken))
              | (.ok size, taken) =>
                  (.ok ⟨field.fileName, field.headers, path, size, some dir⟩, fs.put path (disk.landed taken))

end

namespace FilePart

def doNotDeleteOnDrop (self : FilePart) : FilePart := {self with tempDir := none}

end FilePart

structure Deletion where
  path : FilePath
  tempDir : Nat
  fileRemoved : Bool

def FilePart.drop (self : FilePart) : Option Deletion := self.tempDir.map (⟨self.path, ·, false⟩)

namespace Fs

theorem lookupPut {fs : Fs} {path : FilePath} {bytes : Bytes} (present : path.dir ∈ fs.dirs) (dir : Nat) :
    (fs.put path bytes).dirs.lookup dir = if dir = path.dir then some (some (path.file, bytes)) else fs.dirs.lookup dir := by
  rw [put, dif_pos present, setFile]
  split
  · rename_i same
    rw [same, AList.lookup_insert]
  · rename_i other
    exact AList.lookup_insert_ne other

theorem storedPut {fs : Fs} {path : FilePath} {bytes : Bytes} (present : path.dir ∈ fs.dirs) :
    (fs.put path bytes).stored path = some bytes := by
  unfold stored
  rw [lookupPut present, if_pos rfl]
  exact if_pos rfl

theorem storedPresent {fs : Fs} {path : FilePath} {bytes : Bytes} (stored : fs.stored path = some bytes) :
    path.dir ∈ fs.dirs := by
  unfold Fs.stored at stored
  split at stored
  · rename_i found
    exact AList.lookup_isSome.mp (by rw [found]; rfl)
  · contradiction

theorem storedRemoved (fs : Fs) (path : FilePath) : (fs.removeFile path).stored path = none := by
  unfold removeFile
  split
  · split
    · rw [stored, setFile, AList.lookup_insert]
    · rename_i missing
      exact Option.not_isSome_iff_eq_none.mp missing
  · rename_i absent
    rw [stored, AList.lookup_eq_none.mpr absent]

theorem lookupRemoveFile {fs : Fs} {path : FilePath} (stored : (fs.stored path).isSome = true) (dir : Nat) :
    (fs.removeFile path).dirs.lookup dir = if dir = path.dir then some none else fs.dirs.lookup dir := by
  obtain ⟨bytes, found⟩ := Option.isSome_iff_exists.mp stored
  rw [removeFile, dif_pos (storedPresent found), if_pos stored, setFile]
  split
  · rename_i same
    rw [same, AList.lookup_insert]
  · rename_i other
    exact AList.lookup_insert_ne other

theorem lookupRemoveDir {fs : Fs} {bare : Nat} (found : fs.dirs.lookup bare = some none) (dir : Nat) :
    (fs.removeDir bare).dirs.lookup dir = if dir = bare then none else fs.dirs.lookup dir := by
  rw [removeDir, if_pos found]
  split
  · rename_i same
    rw [same, AList.lookup_erase]
  · rename_i other
    exact AList.lookup_erase_ne other

theorem storedRemoveDir (fs : Fs) (dir : Nat) (path : FilePath) : (fs.removeDir dir).stored path = fs.stored path := by
  unfold removeDir
  split
  · rename_i bare
    unfold stored
    by_cases same : path.dir = dir
    · rw [same, AList.lookup_erase, bare]
    · rw [AList.lookup_erase_ne same]
  · rfl

theorem nextPut (fs : Fs) (path : FilePath) (bytes : Bytes) : (fs.put path bytes).next = fs.next := by
  unfold put
  split <;> rfl

structure Beside (dir : Nat) (fs later : Fs) : Prop where
  next : later.next = fs.next
  others : ∀ other, other ≠ dir → later.dirs.lookup other = fs.dirs.lookup other

theorem Beside.refl (dir : Nat) (fs : Fs) : Beside dir fs fs := ⟨rfl, fun _ _ => rfl⟩

theorem Beside.trans {dir : Nat} {fs middle later : Fs} (first : Beside dir fs middle) (second : Beside dir middle later) :
    Beside dir fs later :=
  ⟨second.next.trans first.next, fun other apart => (second.others other apart).trans (first.others other apart)⟩

theorem putBeside {fs : Fs} {path : FilePath} (present : path.dir ∈ fs.dirs) (bytes : Bytes) : Beside path.dir fs (fs.put path bytes) :=
  ⟨nextPut fs path bytes, fun other apart => by rw [lookupPut present, if_neg apart]⟩

end Fs

section
variable {P : Type} {rules : Rules P} {field : Field} {disk : Disk}

def AllWritten (field : Field) (disk : Disk) (chunks : List Bytes) (count : Nat) : Prop :=
  field.failure = none ∧ ∀ k < chunks.length, disk.write (count + k) = .ok ()

theorem writtenCons (chunk : Bytes) (rest : List Bytes) (count : Nat) :
    AllWritten field disk (chunk :: rest) count ↔ disk.write count = .ok () ∧ AllWritten field disk rest (count + 1) := by
  constructor
  · rintro ⟨whole, each⟩
    refine ⟨each 0 (by simp), whole, fun k within => ?_⟩
    rw [Nat.add_right_comm]
    exact each (k + 1) (by simpa using within)
  · rintro ⟨first, whole, each⟩
    refine ⟨whole, fun k within => ?_⟩
    cases k with
    | zero => exact first
    | succ k =>
      rw [← Nat.add_assoc, Nat.add_right_comm]
      exact each k (by simpa using within)

theorem writeChunksSpec (field : Field) (disk : Disk) (chunks : List Bytes) (count size : Nat) (taken : Bytes) :
    (AllWritten field disk chunks count →
        writeChunks field disk chunks count size taken = (.ok (size + chunks.flatten.length), taken ++ chunks.flatten)) ∧
      (¬ AllWritten field disk chunks count → ∃ err, (writeChunks field disk chunks count size taken).1 = .error err) := by
  induction chunks generalizing count size taken with
  | nil =>
    unfold writeChunks
    cases whole : field.failure with
    | none => simp [AllWritten, whole]
    | some err => simp [AllWritten, whole]
  | cons chunk rest ih =>
    unfold writeChunks
    rw [writtenCons]
    cases wrote : disk.write count with
    | error err => simp
    | ok done =>
      obtain ⟨fine, failed⟩ := ih (count + 1) (size + chunk.length) (taken ++ chunk)
      refine ⟨?_, ?_⟩
      · rintro ⟨-, each⟩
        simpa [Nat.add_assoc] using fine each
      · intro unfinished
        exact failed fun each => unfinished ⟨rfl, each⟩

/- Nothing fails from the directory to the last chunk. -/
def Completes (field : Field) (disk : Disk) : Prop :=
  (∃ nonce, disk.nonce = .ok nonce) ∧ disk.create = .ok () ∧ AllWritten field disk field.chunks 0

structure Uploaded (field : Field) (disk : Disk) (fs : Fs) (part : FilePart) (later : Fs) : Prop where
  name : part.name = field.fileName
  headers : part.headers = field.headers
  size : part.size = field.bytes.length
  dir : part.path.dir = fs.next
  tempDir : part.tempDir = some part.path.dir
  stored : later.stored part.path = some (disk.landed field.bytes)
  beside : Fs.Beside fs.next fs.tempdir later

theorem createRefused (fs : Fs) {err : Text} (refused : disk.tempdir = .error err) :
    create rules field disk fs = (.error (.ioError err), fs) := by
  rw [create, refused]

theorem tempdirPresent (fs : Fs) : fs.next ∈ fs.tempdir.dirs := (AList.mem_insert _).mpr (.inl rfl)

theorem createCompletes (fs : Fs) (made : disk.tempdir = .ok ()) (completes : Completes field disk) :
    ∃ part, (create rules field disk fs).1 = .ok part ∧ Uploaded field disk fs part (create rules field disk fs).2 := by
  obtain ⟨⟨nonce, given⟩, created, written⟩ := completes
  have present : (FilePath.mk fs.next (fileNameOf rules nonce field.fileName)).dir ∈ fs.tempdir.dirs := tempdirPresent fs
  have wrote := (writeChunksSpec field disk field.chunks 0 0 []).1 written
  rw [create]
  simp only [made, given, created, wrote]
  refine ⟨_, rfl, rfl, rfl, ?_, rfl, rfl, Fs.storedPut present, Fs.putBeside present _⟩
  exact Nat.zero_add _

theorem createLeaves (fs : Fs) (made : disk.tempdir = .ok ()) (stops : ¬ Completes field disk) :
    (∃ err, (create rules field disk fs).1 = .error err) ∧ fs.next ∈ (create rules field disk fs).2.dirs ∧
      Fs.Beside fs.next fs.tempdir (create rules field disk fs).2 := by
  rw [create]
  simp only [made]
  cases given : disk.nonce with
  | error message => exact ⟨⟨_, rfl⟩, tempdirPresent fs, .refl _ _⟩
  | ok nonce =>
    dsimp only
    cases created : disk.create with
    | error err => exact ⟨⟨_, rfl⟩, tempdirPresent fs, .refl _ _⟩
    | ok done =>
      dsimp only
      have present : (FilePath.mk fs.next (fileNameOf rules nonce field.fileName)).dir ∈ fs.tempdir.dirs := tempdirPresent fs
      obtain ⟨err, result⟩ := (writeChunksSpec field disk field.chunks 0 0 []).2 fun written => stops ⟨⟨nonce, given⟩, created, written⟩
      rcases wrote : writeChunks field disk field.chunks 0 0 [] with ⟨size, taken⟩
      rw [wrote] at result
      subst result
      exact ⟨⟨err, rfl⟩, Fs.storedPresent (Fs.storedPut present), Fs.putBeside present _⟩

theorem createdUploaded {fs later : Fs} {part : FilePart} (created : create rules field disk fs = (.ok part, later)) :
    Uploaded field disk fs part later := by
  cases made : disk.tempdir with
  | error err =>
    rw [createRefused fs made] at created
    cases created
  | ok done =>
    by_cases completes : Completes field disk
    · obtain ⟨other, result, uploaded⟩ := @createCompletes P rules field disk fs made completes
      rw [created] at result uploaded
      cases result
      exact uploaded
    · obtain ⟨⟨err, result⟩, -⟩ := @createLeaves P rules field disk fs made completes
      rw [created] at result
      contradiction

end

end Silent.UploadedFile
