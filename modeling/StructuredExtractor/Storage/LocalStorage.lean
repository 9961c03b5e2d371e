import StructuredExtractor.Storage.PurePath
import StructuredExtractor.Library.FileCalls
import StructuredExtractor.Service.Machine

/-! # The local storage

Files are kept below a base directory, one directory for each file id. Every call comes
as a text that is resolved against the base directory first.
-/
namespace StructuredExtractor

/-- What the storage raises, and what it catches: errors of the system, the `ValueError`
of a path, and its own `StorageError`. -/
inductive StorageExc
  | os (e : OsError)
  | value
  | storage (path operation : String) (original : StorageExc)
  deriving DecidableEq, Repr

abbrev StorageOp := FileOp String UInt8
abbrev StorageProg (α : Type) := Prog (FileOp.Reply : StorageOp → Type) StorageExc α
abbrev StorageDisk := Disk String UInt8
abbrev StorageFaults := Faults String UInt8

/-- The calls of the storage on a disk. -/
abbrev storageCalls (faults : StorageFaults) : Handler (FileOp.Reply : StorageOp → Type) StorageExc StorageDisk :=
  Disk.handler .os faults

/-- One call of the system. -/
abbrev ask (op : StorageOp) : StorageProg op.Reply := Prog.perform op

namespace Os

def mkdir (p : List String) : StorageProg Unit := ask (.mkdir p)
def stat (p : List String) : StorageProg Bool := ask (.stat p)
def openWrite (p : List String) : StorageProg Unit := ask (.openWrite p)
def write (p : List String) (content : Bytes) : StorageProg Unit := ask (.write p content)
def read (p : List String) : StorageProg Bytes := ask (.read p)
def unlink (p : List String) : StorageProg Unit := ask (.unlink p)
def listdir (p : List String) : StorageProg (Finset String) := ask (.listdir p)
def rmdir (p : List String) : StorageProg Unit := ask (.rmdir p)

end Os

namespace PurePath

/-- No name holds the null character, which no call of the system takes. -/
def NulFree (p : PurePath) : Prop := ∀ s ∈ p.parts, Char.ofNat 0 ∉ s.toList

instance : DecidablePred NulFree := fun p => inferInstanceAs (Decidable (∀ s ∈ p.parts, Char.ofNat 0 ∉ s.toList))

/-- Where a path leads from a directory. -/
def under (start : List String) (p : PurePath) : List String := follow (if p.absolute then [] else start) p.parts

/-- `(start / p).resolve()`. Without links the names alone decide it. -/
def resolve (start : List String) (p : PurePath) : Except StorageExc (List String) :=
  if p.NulFree then .ok (p.under start) else .error .value

end PurePath

namespace Pathlib

/-- The text of a resolved path. -/
def text (p : List String) : String := "/" ++ "/".intercalate p.reverse

/-- `_ignore_error`: nothing is there. -/
def ignoreError (e : OsError) : Bool := e = .fileNotFound || e = .notADirectory

def isDir (p : List String) : StorageProg Bool :=
  tryCatch (Os.stat p) fun
    | .os e => if ignoreError e then return false else throw (.os e)
    | e => throw e

/-- `path.exists()`. -/
def pathExists (p : List String) : StorageProg Bool :=
  tryCatch ((fun _ => true) <$> Os.stat p) fun
    | .os e => if ignoreError e then return false else throw (.os e)
    | e => throw e

/-- The end of `mkdir` when the system refused: fine if the directory is there. -/
def unlessDir (p : List String) (e : OsError) : StorageProg Unit := do
  if ← isDir p then return () else throw (.os e)

/-- `path.mkdir(exist_ok=True)`. -/
def mkdir (p : List String) : StorageProg Unit :=
  tryCatch (Os.mkdir p) fun
    | .os e => if e = .fileNotFound then throw (.os e) else unlessDir p e
    | e => throw e

/-- `path.mkdir(parents=True, exist_ok=True)`. -/
def makeDirs : List String → StorageProg Unit
  | [] => mkdir []
  | n :: p => tryCatch (Os.mkdir (n :: p)) fun
    | .os e => if e = .fileNotFound then do makeDirs p; mkdir (n :: p) else unlessDir (n :: p) e
    | e => throw e

/-- `path.write_bytes(content)`. -/
def writeBytes (p : List String) (content : Bytes) : StorageProg Unit := do
  Os.openWrite p
  Os.write p content

end Pathlib

/-- `LocalStorage`, in a process with its working directory. -/
structure LocalStorage where
  baseDir : PurePath
  cwd : List String

namespace LocalStorage
open Pathlib
variable (s : LocalStorage)

/-- `self.base_dir.resolve()`. -/
def base : List String := s.baseDir.under s.cwd

def resolveRelativePath (filePath : String) : Except StorageExc (List String) :=
  Except.mapError (StorageExc.storage filePath "resolve") do
    let relativePath := PurePath.parse filePath
    if relativePath.absolute then throw .value
    let basePath ← s.baseDir.resolve s.cwd
    let fullPath ← relativePath.resolve basePath
    if basePath <:+ fullPath then return fullPath else throw .value

/-- `str(Path(safe_file_id) / safe_filename)`, the path that `save` returns. -/
def relativePath (fileId filename : String) : String :=
  ((PurePath.parse (safeName "file" fileId)).join (PurePath.parse (safeName "uploaded.pdf" filename))).str

def save (fileId : String) (content : Bytes) (filename : String) : StorageProg String := do
  let targetDir ← Prog.ofExcept (s.resolveRelativePath (safeName "file" fileId))
  let targetPath ← Prog.ofExcept (s.resolveRelativePath (relativePath fileId filename))
  tryCatch (do
      makeDirs targetDir
      writeBytes targetPath content)
    fun e => throw (.storage (text targetPath) "save" e)
  return relativePath fileId filename

def load (filePath : String) : StorageProg Bytes := do
  let fullPath ← Prog.ofExcept (s.resolveRelativePath filePath)
  tryCatch (Os.read fullPath) fun e => throw (.storage (text fullPath) "load" e)

/-- The first step of a deletion: the file itself, if it is there. -/
def unlinkExisting (fullPath : List String) : StorageProg Unit := do
  if ← pathExists fullPath then Os.unlink fullPath

/-- The second step: the directory it was in, unless that is the base directory or holds more. -/
def removeEmpty (parentDir : List String) : StorageProg Unit := do
  if parentDir ≠ s.base then
    if ← pathExists parentDir then
      if (← Os.listdir parentDir) = ∅ then Os.rmdir parentDir

def delete (filePath : String) : StorageProg Unit := do
  let fullPath ← Prog.ofExcept (s.resolveRelativePath filePath)
  tryCatch (do
      unlinkExisting fullPath
      s.removeEmpty fullPath.tail)
    fun e => throw (.storage (text fullPath) "delete" e)

section Names

/-- `value.replace("\\\\","/")`. -/
def slashed (value : String) : String := String.ofList (value.toList.map fun c => if c = '\\' then '/' else c)

/-- `_safe_name` is the last name of the path, unless that leads nowhere or up. -/
theorem safeName_eq (fallback value : String) : safeName fallback value =
    let name := (PurePath.parse (slashed value)).name
    if name ∈ ["",".",".."] then fallback else name := by
  have hparts : (((slashed value).splitOn "/").filter fun s => s ≠ "" && s ≠ ".") =
    (PurePath.parse (slashed value)).parts := rfl
  rw [safeName,← slashed,hparts,PurePath.name]
  cases h : (PurePath.parse (slashed value)).parts.getLast? with
  | none => rfl
  | some name =>
    have hpart := PurePath.isPart_of_mem (List.mem_of_getLast? h)
    simp [hpart.nonempty,hpart.notDot]

/-- A name that is safe to use as a directory or a file: it leads one level down. -/
structure SafeName (name : String) : Prop extends IsPart name where
  notUp : name ≠ ".."

theorem safeName_safe {fallback : String} (hf : SafeName fallback) (value : String) :
    SafeName (safeName fallback value) := by
  unfold safeName
  dsimp only
  split
  · exact hf
  · next name h =>
    split
    · exact hf
    · next hup => exact ⟨PurePath.isPart_of_mem (List.mem_of_getLast? h),hup⟩

theorem SafeName.parse {name : String} (h : SafeName name) :
    PurePath.parse name = ⟨false,[name],fun _ ht => List.mem_singleton.mp ht ▸ h.toIsPart⟩ := by
  have hstr : PurePath.str ⟨false,[name],fun _ ht => List.mem_singleton.mp ht ▸ h.toIsPart⟩ = name := by
    simp [PurePath.str]
  rw [← PurePath.parse_str ⟨false,[name],_⟩,hstr]

/-- A safe name without backslashes is kept. -/
theorem safeName_eq_self {name : String} (h : SafeName name) (hback : '\\' ∉ name.toList) (fallback : String) :
    safeName fallback name = name := by
  have hmap : (name.toList.map fun c => if c = '\\' then '/' else c) = name.toList := by
    conv_rhs => rw [← List.map_id name.toList]
    refine List.map_congr_left fun c hc => if_neg ?_
    rintro rfl
    exact hback hc
  have hslashed : slashed name = name := by rw [slashed,hmap,String.ofList_toList]
  have hname : (PurePath.parse name).name = name := by
    rw [h.parse]
    rfl
  rw [safeName_eq,hslashed,hname,if_neg (by simp [h.nonempty,h.notDot,h.notUp])]

theorem safeName_fileId (fileId : String) : SafeName (safeName "file" fileId) :=
  safeName_safe ⟨⟨by decide,by decide,by decide⟩,by decide⟩ fileId

theorem safeName_filename (filename : String) : SafeName (safeName "uploaded.pdf" filename) :=
  safeName_safe ⟨⟨by decide,by decide,by decide⟩,by decide⟩ filename

/-- The path that `save` returns has the two names, and no others. -/
theorem parse_relativePath (fileId filename : String) :
    (PurePath.parse (relativePath fileId filename)).absolute = false ∧
    (PurePath.parse (relativePath fileId filename)).parts =
      [safeName "file" fileId,safeName "uploaded.pdf" filename] := by
  rw [relativePath,PurePath.parse_str,(safeName_fileId fileId).parse,(safeName_filename filename).parse]
  exact ⟨rfl,rfl⟩

end Names

section Resolution
variable {s : LocalStorage} {filePath : String}

/-- Where the text of a path leads. -/
def target (s : LocalStorage) (filePath : String) : List String := (PurePath.parse filePath).under s.base

/-- A text that is taken: a relative path that stays in the base directory. -/
structure Stays (s : LocalStorage) (filePath : String) : Prop where
  relative : (PurePath.parse filePath).absolute = false
  baseNul : s.baseDir.NulFree
  nul : (PurePath.parse filePath).NulFree
  inside : s.base <:+ s.target filePath

theorem resolve_stays (h : s.Stays filePath) : s.resolveRelativePath filePath = .ok (s.target filePath) := by
  have hbase : s.baseDir.resolve s.cwd = .ok s.base := if_pos h.baseNul
  have hfull : (PurePath.parse filePath).resolve s.base = .ok (s.target filePath) := if_pos h.nul
  simp [resolveRelativePath,h.relative,hbase,hfull,h.inside,bind,Except.bind,pure,Except.pure,Except.mapError]

theorem resolve_error (h : ¬ s.Stays filePath) :
    s.resolveRelativePath filePath = .error (.storage filePath "resolve" .value) := by
  by_cases hrel : (PurePath.parse filePath).absolute = true
  · simp [resolveRelativePath,hrel,throw,throwThe,MonadExceptOf.throw,bind,Except.bind,Except.mapError]
  · by_cases hb : s.baseDir.NulFree
    · have hbase : s.baseDir.resolve s.cwd = .ok s.base := if_pos hb
      by_cases hn : (PurePath.parse filePath).NulFree
      · have hfull : (PurePath.parse filePath).resolve s.base = .ok (s.target filePath) := if_pos hn
        have hout : ¬ s.base <:+ s.target filePath := fun hin => h ⟨eq_false_of_ne_true hrel,hb,hn,hin⟩
        simp [resolveRelativePath,hrel,hbase,hfull,hout,throw,throwThe,MonadExceptOf.throw,bind,Except.bind,
          Except.mapError]
      · have hfull : (PurePath.parse filePath).resolve s.base = .error .value := if_neg hn
        simp [resolveRelativePath,hrel,hbase,hfull,bind,Except.bind,Except.mapError]
    · have hbase : s.baseDir.resolve s.cwd = .error .value := if_neg hb
      simp [resolveRelativePath,hrel,hbase,bind,Except.bind,Except.mapError]

theorem load_stays (h : s.Stays filePath) : s.load filePath =
    tryCatch (Os.read (s.target filePath)) fun e => throw (.storage (text (s.target filePath)) "load" e) := by
  rw [load,resolve_stays h]
  rfl

theorem load_error (h : ¬ s.Stays filePath) : s.load filePath = throw (.storage filePath "resolve" .value) := by
  rw [load,resolve_error h]
  rfl

theorem delete_stays (h : s.Stays filePath) : s.delete filePath = tryCatch (do
      unlinkExisting (s.target filePath)
      s.removeEmpty (s.target filePath).tail)
    fun e => throw (.storage (text (s.target filePath)) "delete" e) := by
  rw [delete,resolve_stays h]
  rfl

theorem delete_error (h : ¬ s.Stays filePath) : s.delete filePath = throw (.storage filePath "resolve" .value) := by
  rw [delete,resolve_error h]
  rfl

variable (s) {fileId filename : String}

/-- The directory of a file id, and the file that is saved in it. -/
def dirOf (fileId : String) : List String := safeName "file" fileId :: s.base
def fileOf (fileId filename : String) : List String := safeName "uploaded.pdf" filename :: s.dirOf fileId

variable {s}

theorem target_fileId : s.target (safeName "file" fileId) = s.dirOf fileId := by
  rw [target,(safeName_fileId fileId).parse]
  exact PurePath.follow_cons (safeName_fileId fileId).notUp []

theorem target_relativePath : s.target (relativePath fileId filename) = s.fileOf fileId filename := by
  obtain ⟨hrel,hparts⟩ := parse_relativePath fileId filename
  rw [target,PurePath.under,hrel,hparts,PurePath.follow_cons (safeName_fileId fileId).notUp,
    PurePath.follow_cons (safeName_filename filename).notUp]
  rfl

/-- Names that the system takes. -/
structure Storable (s : LocalStorage) (fileId filename : String) : Prop where
  base : s.baseDir.NulFree
  fileId : Char.ofNat 0 ∉ (safeName "file" fileId).toList
  filename : Char.ofNat 0 ∉ (safeName "uploaded.pdf" filename).toList

theorem stays_fileId : s.Stays (safeName "file" fileId) ↔
    s.baseDir.NulFree ∧ Char.ofNat 0 ∉ (safeName "file" fileId).toList := by
  have hparse := (safeName_fileId fileId).parse
  have hnul : (PurePath.parse (safeName "file" fileId)).NulFree ↔ Char.ofNat 0 ∉ (safeName "file" fileId).toList := by
    simp [hparse,PurePath.NulFree]
  refine ⟨fun h => ⟨h.baseNul,hnul.mp h.nul⟩,fun h => ⟨by rw [hparse],h.1,hnul.mpr h.2,?_⟩⟩
  rw [target_fileId]
  exact List.suffix_cons _ _

theorem stays_relativePath : s.Stays (relativePath fileId filename) ↔ s.Storable fileId filename := by
  obtain ⟨hrel,hparts⟩ := parse_relativePath fileId filename
  have hnul : (PurePath.parse (relativePath fileId filename)).NulFree ↔
      Char.ofNat 0 ∉ (safeName "file" fileId).toList ∧ Char.ofNat 0 ∉ (safeName "uploaded.pdf" filename).toList := by
    simp [PurePath.NulFree,hparts]
  refine ⟨fun h => ⟨h.baseNul,(hnul.mp h.nul).1,(hnul.mp h.nul).2⟩,
    fun h => ⟨hrel,h.base,hnul.mpr ⟨h.fileId,h.filename⟩,?_⟩⟩
  rw [target_relativePath]
  exact (List.suffix_cons _ _).trans (List.suffix_cons _ _)

/-- What `save` does when it takes the names: both steps, under one guard. -/
theorem save_storable (h : s.Storable fileId filename) (content : Bytes) : s.save fileId content filename = do
    tryCatch (do
        makeDirs (s.dirOf fileId)
        writeBytes (s.fileOf fileId filename) content)
      fun e => throw (.storage (text (s.fileOf fileId filename)) "save" e)
    return relativePath fileId filename := by
  rw [save,resolve_stays (stays_fileId.mpr ⟨h.base,h.fileId⟩),resolve_stays (stays_relativePath.mpr h),
    target_fileId,target_relativePath]
  rfl

theorem save_unstorable (h : ¬ s.Storable fileId filename) (content : Bytes) :
    ∃ filePath, s.save fileId content filename = throw (.storage filePath "resolve" .value) := by
  by_cases hid : s.Stays (safeName "file" fileId)
  · refine ⟨relativePath fileId filename,?_⟩
    rw [save,resolve_stays hid,resolve_error (mt stays_relativePath.mp h)]
    rfl
  · refine ⟨safeName "file" fileId,?_⟩
    rw [save,resolve_error hid]
    rfl

end Resolution

end LocalStorage

section Runs
open Prog Pathlib
variable {s : LocalStorage} {faults : StorageFaults} {d : StorageDisk} {p : List String}

theorem ignores_absence (t : FileTree String UInt8) (p : List String) : ignoreError (t.absence p) = true := by
  obtain h | h := t.absence_missing p <;> simp [ignoreError,h]

theorem run_stat (h : faults (.stat p) = none) :
    (Os.stat p).run (storageCalls faults) d = ((d.tree.stat p).mapError .os,d) := Disk.handler_call h

theorem run_stat_fault {n : ℕ} (h : faults (.stat p) = some n) :
    (Os.stat p).run (storageCalls faults) d = (.error (.os .other),d) := Disk.handler_fault h

theorem run_isDir (h : faults (.stat p) = none) :
    (isDir p).run (storageCalls faults) d = (.ok (d.tree.isDir p),d) := by
  rw [isDir,run_tryCatch,run_stat h]
  unfold FileTree.stat FileTree.isDir
  cases d.tree.lookup p with
  | none => simp [Except.mapError,ignores_absence]
  | some e => cases e <;> rfl

theorem run_isDir_fault {n : ℕ} (h : faults (.stat p) = some n) :
    (isDir p).run (storageCalls faults) d = (.error (.os .other),d) := by
  rw [isDir,run_tryCatch,run_stat_fault h]
  rfl

theorem run_pathExists (h : faults (.stat p) = none) :
    (pathExists p).run (storageCalls faults) d = (.ok (d.tree.lookup p).isSome,d) := by
  rw [pathExists,run_tryCatch,run_map,run_stat h]
  unfold FileTree.stat
  cases d.tree.lookup p with
  | none => simp [Except.mapError,Except.map,ignores_absence]
  | some e => cases e <;> rfl

theorem run_pathExists_fault {n : ℕ} (h : faults (.stat p) = some n) :
    (pathExists p).run (storageCalls faults) d = (.error (.os .other),d) := by
  rw [pathExists,run_tryCatch,run_map,run_stat_fault h]
  rfl

theorem run_unlink (h : faults (.unlink p) = none) : (Os.unlink p).run (storageCalls faults) d =
    ((d.after (d.tree.unlink p)).1.mapError .os,(d.after (d.tree.unlink p)).2) := Disk.handler_call h

theorem run_listdir (h : faults (.listdir p) = none) :
    (Os.listdir p).run (storageCalls faults) d = ((d.tree.listdir p).mapError .os,d) := Disk.handler_call h

theorem run_rmdir (h : faults (.rmdir p) = none) : (Os.rmdir p).run (storageCalls faults) d =
    ((d.after (d.tree.rmdir p)).1.mapError .os,(d.after (d.tree.rmdir p)).2) := Disk.handler_call h

/-- A directory that can be taken away: empty, and no call on it fails. -/
structure Removable (faults : StorageFaults) (d : StorageDisk) (p : List String) : Prop where
  notRoot : p ≠ []
  dir : d.tree.lookup p = some .dir
  empty : ∀ n, d.tree.lookup (n :: p) = none
  stat : faults (.stat p) = none
  listdir : faults (.listdir p) = none
  rmdir : faults (.rmdir p) = none

theorem run_rmdir_kept (h : d.tree.lookup p = some .dir → faults (.rmdir p) = none → p ≠ [] → False) :
    ((Os.rmdir p).run (storageCalls faults) d).2 = d := by
  cases hrmdir : faults (.rmdir p) with
  | some n => exact congrArg Prod.snd (Disk.handler_fault hrmdir)
  | none =>
    rw [run_rmdir hrmdir]
    cases ht : d.tree.rmdir p with
    | error e => rfl
    | ok t =>
      obtain ⟨hroot,hdir,-,-⟩ := FileTree.rmdir_eq_ok.mp ht
      exact (h hdir hrmdir hroot).elim

namespace LocalStorage

theorem run_removeEmpty (hp : p ≠ s.base) (h : Removable faults d p) :
    ∃ t, t.lookup = Function.update d.tree.lookup p none ∧
      (s.removeEmpty p).run (storageCalls faults) d = (.ok (),d.setTree t) := by
  obtain ⟨t,ht⟩ := FileTree.exists_rmdir h.notRoot h.dir h.empty
  obtain ⟨-,-,-,hlookup⟩ := FileTree.rmdir_eq_ok.mp ht
  refine ⟨t,hlookup,?_⟩
  have hnames : d.tree.listdir p = .ok ∅ := FileTree.listdir_eq_ok.mpr ⟨h.dir,d.tree.names_eq_empty.mpr h.empty⟩
  rw [removeEmpty,if_pos hp,run_bind,run_pathExists h.stat,h.dir]
  simp only [Option.isSome_some,andThen_ok,if_true]
  rw [run_bind,run_listdir h.listdir,hnames]
  simp only [Except.mapError,andThen_ok,if_true]
  rw [run_rmdir h.rmdir,ht]
  rfl

/-- Any other directory stays, and so does everything else. -/
theorem run_removeEmpty_kept (h : ¬ (p ≠ s.base ∧ Removable faults d p)) :
    ((s.removeEmpty p).run (storageCalls faults) d).2 = d := by
  by_cases hp : p ≠ s.base
  · rw [removeEmpty,if_pos hp,run_bind]
    cases hstat : faults (.stat p) with
    | some n =>
      rw [run_pathExists_fault hstat]
      rfl
    | none =>
      rw [run_pathExists hstat]
      cases he : d.tree.lookup p with
      | none => rfl
      | some e =>
        simp only [Option.isSome_some,andThen_ok,if_true]
        rw [run_bind]
        cases hlist : faults (.listdir p) with
        | some n =>
          have hrun : (Os.listdir p).run (storageCalls faults) d = (.error (.os .other),d) := Disk.handler_fault hlist
          rw [hrun]
          rfl
        | none =>
          rw [run_listdir hlist]
          cases hnames : d.tree.listdir p with
          | error e => rfl
          | ok names =>
            simp only [Except.mapError,andThen_ok]
            split
            · next hempty => exact run_rmdir_kept fun hdir hrmdir hroot => h ⟨hp,hroot,hdir,by
                obtain ⟨-,heq⟩ := FileTree.listdir_eq_ok.mp hnames
                exact d.tree.names_eq_empty.mp (heq.trans hempty),hstat,hlist,hrmdir⟩
            · rfl
  · rw [removeEmpty,if_neg hp]
    rfl

theorem run_unlinkExisting_missing (h : d.tree.lookup p = none) (hstat : faults (.stat p) = none) :
    (unlinkExisting p).run (storageCalls faults) d = (.ok (),d) := by
  rw [unlinkExisting,run_bind,run_pathExists hstat,h]
  rfl

/-- A directory is not unlinked. -/
theorem run_unlinkExisting_refused (hfile : d.tree.fileAt p = none)
    (h : ¬ (d.tree.lookup p = none ∧ faults (.stat p) = none)) :
    ∃ e, (unlinkExisting p).run (storageCalls faults) d = (.error e,d) := by
  rw [unlinkExisting,run_bind]
  cases hstat : faults (.stat p) with
  | some n =>
    rw [run_pathExists_fault hstat]
    exact ⟨_,rfl⟩
  | none =>
    rw [run_pathExists hstat]
    cases hp : d.tree.lookup p with
    | none => exact absurd ⟨hp,hstat⟩ h
    | some e =>
      cases e with
      | file content => cases hfile.symm.trans (FileTree.fileAt_eq_some.mpr hp)
      | dir =>
        cases hunlink : faults (.unlink p) with
        | some n => exact ⟨_,Disk.handler_fault hunlink⟩
        | none =>
          refine ⟨.os .isADirectory,?_⟩
          simp only [Option.isSome_some,andThen_ok,if_true]
          rw [run_unlink hunlink,FileTree.unlink_dir hp]
          rfl

end LocalStorage

end Runs

end StructuredExtractor
