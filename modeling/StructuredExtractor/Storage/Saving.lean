import StructuredExtractor.Storage.LocalStorage

/-! # What a save comes to

A save makes the directory of the file id, or finds it, then opens the file and writes it.
Each of the steps can fail, and what the steps before it did stays.
-/
namespace StructuredExtractor
open Prog Pathlib

section Steps
variable {faults : StorageFaults} {d : StorageDisk} {p : List String} {content : Bytes}

theorem run_mkdir (h : faults (.mkdir p) = none) : (Os.mkdir p).run (storageCalls faults) d =
    ((d.after (d.tree.mkdir p)).1.mapError .os,(d.after (d.tree.mkdir p)).2) := Disk.handler_call h

theorem run_mkdir_fault {n : ℕ} (h : faults (.mkdir p) = some n) :
    (Os.mkdir p).run (storageCalls faults) d = (.error (.os .other),d) := Disk.handler_fault h

theorem run_write (h : faults (.write p content) = none) : (Os.write p content).run (storageCalls faults) d =
    ((d.after (d.tree.setFile content p)).1.mapError .os,(d.after (d.tree.setFile content p)).2) :=
  Disk.handler_call h

theorem run_write_fault {n : ℕ} (h : faults (.write p content) = some n) :
    (Os.write p content).run (storageCalls faults) d =
      (.error (.os .other),(d.after (d.tree.setFile (content.take n) p)).2) := Disk.handler_fault h

/-- A directory that a save can use: one that it can make, or one that it finds. -/
def Enters (faults : StorageFaults) (d : StorageDisk) (p : List String) : Prop :=
  (d.tree.lookup p = none ∧ faults (.mkdir p) = none) ∨ (d.tree.lookup p = some .dir ∧ faults (.stat p) = none)

theorem run_unlessDir {e : OsError} (h : faults (.stat p) = none) :
    (unlessDir p e).run (storageCalls faults) d =
      (if d.tree.isDir p then .ok () else .error (.os e),d) := by
  rw [unlessDir,run_bind,run_isDir h]
  cases d.tree.isDir p <;> simp

theorem run_unlessDir_fault {e : OsError} {n : ℕ} (h : faults (.stat p) = some n) :
    (unlessDir p e).run (storageCalls faults) d = (.error (.os .other),d) := by
  rw [unlessDir,run_bind,run_isDir_fault h]
  rfl

theorem run_mkdir_refused (h : ¬ (d.tree.lookup p = none ∧ faults (.mkdir p) = none)) :
    ∃ e, e ≠ .fileNotFound ∧ (Os.mkdir p).run (storageCalls faults) d = (.error (.os e),d) := by
  cases hfault : faults (.mkdir p) with
  | some n => exact ⟨.other,by decide,run_mkdir_fault hfault⟩
  | none =>
    refine ⟨.fileExists,by decide,?_⟩
    rw [run_mkdir hfault,FileTree.mkdir_exists fun hp => h ⟨hp,hfault⟩]
    rfl

/-- A directory that is not made is looked for. -/
theorem run_makeDirs_refused {name : String} {e : OsError}
    (h : (Os.mkdir (name :: p)).run (storageCalls faults) d = (.error (.os e),d)) (he : e ≠ .fileNotFound) :
    (makeDirs (name :: p)).run (storageCalls faults) d = (unlessDir (name :: p) e).run (storageCalls faults) d := by
  rw [makeDirs,run_tryCatch,h,orElse_error]
  simp only [he,if_false]

/-- In a directory that is there, the directory below it is made or found. -/
theorem run_makeDirs {name : String} (hp : d.tree.lookup p = some .dir) (h : Enters faults d (name :: p)) :
    ∃ t, t.lookup = Function.update d.tree.lookup (name :: p) (some .dir) ∧
      (makeDirs (name :: p)).run (storageCalls faults) d = (.ok (),d.setTree t) := by
  obtain ⟨hmissing,hfault⟩ | ⟨hdir,hstat⟩ := h
  · obtain ⟨t,ht⟩ := FileTree.exists_mkdir hmissing hp
    obtain ⟨-,-,hlookup⟩ := FileTree.mkdir_eq_ok.mp ht
    refine ⟨t,hlookup,?_⟩
    rw [makeDirs,run_tryCatch,run_mkdir hfault,ht]
    rfl
  · have hne : d.tree.lookup (name :: p) ≠ none := by simp [hdir]
    obtain ⟨e,he,hrun⟩ := run_mkdir_refused fun h : _ ∧ faults (.mkdir (name :: p)) = none => hne h.1
    refine ⟨d.tree,by rw [← hdir,Function.update_eq_self],?_⟩
    rw [run_makeDirs_refused hrun he,run_unlessDir hstat,if_pos (FileTree.isDir_iff.mpr hdir)]
    rfl

theorem run_makeDirs_fails {name : String} (h : ¬ Enters faults d (name :: p)) :
    ∃ e, (makeDirs (name :: p)).run (storageCalls faults) d = (.error e,d) := by
  obtain ⟨e,he,hrun⟩ := run_mkdir_refused fun hmade => h (.inl hmade)
  rw [run_makeDirs_refused hrun he]
  cases hstat : faults (.stat (name :: p)) with
  | some n => exact ⟨_,run_unlessDir_fault hstat⟩
  | none =>
    refine ⟨.os e,?_⟩
    rw [run_unlessDir hstat,if_neg fun hdir => h (.inr ⟨FileTree.isDir_iff.mp hdir,hstat⟩)]

/-- A file cannot be opened where a directory is. -/
theorem run_openWrite_refused (h : d.tree.lookup p = some .dir ∨ faults (.openWrite p) ≠ none) :
    ∃ e, (Os.openWrite p).run (storageCalls faults) d = (.error e,d) := by
  cases hfault : faults (.openWrite p) with
  | some n => exact ⟨_,Disk.handler_fault hfault⟩
  | none =>
    obtain hdir | hne := h
    · have hcall : (Os.openWrite p).run (storageCalls faults) d = _ := Disk.handler_call hfault
      rw [Disk.call,FileTree.setFile_dir hdir] at hcall
      exact ⟨_,hcall⟩
    · exact absurd hfault hne

section Writing
variable (htail : d.tree.lookup p.tail = some .dir) (hp : d.tree.lookup p ≠ some .dir)
variable (hopen : faults (.openWrite p) = none)
include htail hp hopen

/-- A file that is opened is empty. -/
theorem run_openWrite : ∃ t, t.lookup = Function.update d.tree.lookup p (some (.file [])) ∧
    (Os.openWrite p).run (storageCalls faults) d = (.ok (),⟨t,d.opened ++ [p]⟩) := by
  obtain ⟨t,ht⟩ := FileTree.exists_setFile [] hp htail
  obtain ⟨-,-,hlookup⟩ := FileTree.setFile_eq_ok.mp ht
  refine ⟨t,hlookup,?_⟩
  have hcall : (Os.openWrite p).run (storageCalls faults) d = _ := Disk.handler_call hopen
  rw [Disk.call,ht] at hcall
  exact hcall

/-- The file that was opened is there to be written. -/
theorem exists_written (written : Bytes) : ∃ t t', (Os.openWrite p).run (storageCalls faults) d =
      (.ok (),⟨t,d.opened ++ [p]⟩) ∧ t.setFile written p = .ok t' ∧
      t'.lookup = Function.update d.tree.lookup p (some (.file written)) := by
  obtain ⟨t,hlookup,hrun⟩ := run_openWrite htail hp hopen
  have hfile : t.lookup p = some (.file []) := by rw [hlookup,Function.update_self]
  have hdir : t.lookup p.tail = some .dir := FileTree.lookup_tail (by simp [hfile])
  obtain ⟨t',ht'⟩ := FileTree.exists_setFile written (by simp [hfile]) hdir
  obtain ⟨-,-,hlookup'⟩ := FileTree.setFile_eq_ok.mp ht'
  exact ⟨t,t',hrun,ht',by rw [hlookup',hlookup,Function.update_idem]⟩

theorem run_writeBytes (hwrite : faults (.write p content) = none) :
    ∃ t, t.lookup = Function.update d.tree.lookup p (some (.file content)) ∧
      (writeBytes p content).run (storageCalls faults) d = (.ok (),⟨t,d.opened ++ [p]⟩) := by
  obtain ⟨t,t',hrun,ht',hlookup⟩ := exists_written htail hp hopen content
  refine ⟨t',hlookup,?_⟩
  rw [writeBytes,run_bind,hrun,andThen_ok,run_write hwrite,ht']
  rfl

/-- A write that fails leaves what it has written. -/
theorem run_writeBytes_torn {n : ℕ} (hwrite : faults (.write p content) = some n) :
    ∃ t, t.lookup = Function.update d.tree.lookup p (some (.file (content.take n))) ∧
      (writeBytes p content).run (storageCalls faults) d = (.error (.os .other),⟨t,d.opened ++ [p]⟩) := by
  obtain ⟨t,t',hrun,ht',hlookup⟩ := exists_written htail hp hopen (content.take n)
  refine ⟨t',hlookup,?_⟩
  rw [writeBytes,run_bind,hrun,andThen_ok,run_write_fault hwrite,ht']
  rfl

end Writing

theorem run_writeBytes_refused (h : d.tree.lookup p = some .dir ∨ faults (.openWrite p) ≠ none) :
    ∃ e, (writeBytes p content).run (storageCalls faults) d = (.error e,d) := by
  obtain ⟨e,hrun⟩ := run_openWrite_refused h
  exact ⟨e,by rw [writeBytes,run_bind,hrun]; rfl⟩

end Steps

namespace LocalStorage
variable {s : LocalStorage} {faults : StorageFaults} {d : StorageDisk} {fileId filename : String} {content : Bytes}

/-- Where a save can end. -/
inductive SaveOutcome (s : LocalStorage) (faults : StorageFaults) (d : StorageDisk) (fileId : String) (content : Bytes)
    (filename : String) : Except StorageExc String × StorageDisk → Prop
  /-- The names or the directory are refused, and nothing was done. -/
  | refused {path operation original} :
      ¬ (s.Storable fileId filename ∧ Enters faults d (s.dirOf fileId)) →
      SaveOutcome s faults d fileId content filename (.error (.storage path operation original),d)
  /-- The directory is there, and the file was not opened. -/
  | notOpened {path operation original t} : s.Storable fileId filename → Enters faults d (s.dirOf fileId) →
      d.tree.lookup (s.fileOf fileId filename) = some .dir ∨ faults (.openWrite (s.fileOf fileId filename)) ≠ none →
      t.lookup = Function.update d.tree.lookup (s.dirOf fileId) (some .dir) →
      SaveOutcome s faults d fileId content filename (.error (.storage path operation original),d.setTree t)
  /-- The file was opened and written in part. -/
  | torn {path operation original t n} : s.Storable fileId filename → Enters faults d (s.dirOf fileId) →
      d.tree.lookup (s.fileOf fileId filename) ≠ some .dir → faults (.openWrite (s.fileOf fileId filename)) = none →
      faults (.write (s.fileOf fileId filename) content) = some n →
      t.lookup = Function.update (Function.update d.tree.lookup (s.dirOf fileId) (some .dir))
        (s.fileOf fileId filename) (some (.file (content.take n))) →
      SaveOutcome s faults d fileId content filename
        (.error (.storage path operation original),⟨t,d.opened ++ [s.fileOf fileId filename]⟩)
  | saved {t} : s.Storable fileId filename → Enters faults d (s.dirOf fileId) →
      d.tree.lookup (s.fileOf fileId filename) ≠ some .dir → faults (.openWrite (s.fileOf fileId filename)) = none →
      faults (.write (s.fileOf fileId filename) content) = none →
      t.lookup = Function.update (Function.update d.tree.lookup (s.dirOf fileId) (some .dir))
        (s.fileOf fileId filename) (some (.file content)) →
      SaveOutcome s faults d fileId content filename
        (.ok (relativePath fileId filename),⟨t,d.opened ++ [s.fileOf fileId filename]⟩)

theorem fileOf_ne_dirOf : s.fileOf fileId filename ≠ s.dirOf fileId := (List.cons_ne_self _ _)

/-- Every save in a base directory that is there ends in one of these ways. -/
theorem run_save (s : LocalStorage) (faults : StorageFaults) (d : StorageDisk) (fileId : String) (content : Bytes)
    (filename : String) (hbase : d.tree.lookup s.base = some .dir) :
    SaveOutcome s faults d fileId content filename
      ((s.save fileId content filename).run (storageCalls faults) d) := by
  by_cases hstorable : s.Storable fileId filename
  · rw [save_storable hstorable,run_bind,run_rethrow,run_bind]
    by_cases henters : Enters faults d (s.dirOf fileId)
    · obtain ⟨t,hlookup,hrun⟩ : ∃ t, t.lookup = Function.update d.tree.lookup (s.dirOf fileId) (some .dir) ∧
        (makeDirs (s.dirOf fileId)).run (storageCalls faults) d = (.ok (),d.setTree t) := run_makeDirs hbase henters
      have hdir : (d.setTree t).tree.lookup (s.dirOf fileId) = some .dir :=
        (congrFun hlookup _).trans (Function.update_self ..)
      have hsame : (d.setTree t).tree.lookup (s.fileOf fileId filename) = d.tree.lookup (s.fileOf fileId filename) :=
        (congrFun hlookup _).trans (Function.update_of_ne fileOf_ne_dirOf ..)
      rw [hrun,andThen_ok]
      by_cases hrefused : d.tree.lookup (s.fileOf fileId filename) = some .dir ∨
          faults (.openWrite (s.fileOf fileId filename)) ≠ none
      · obtain ⟨e,hwrite⟩ := run_writeBytes_refused (d := d.setTree t) (hrefused.imp_left hsame.trans)
        rw [hwrite]
        exact .notOpened hstorable henters hrefused hlookup
      · obtain ⟨hp,hopen⟩ := not_or.mp hrefused
        have hopen := not_not.mp hopen
        cases hfault : faults (.write (s.fileOf fileId filename) content) with
        | some n =>
          obtain ⟨t',hlookup',hwrite⟩ := run_writeBytes_torn hdir (hsame ▸ hp) hopen hfault
          rw [hwrite]
          exact .torn hstorable henters hp hopen hfault (hlookup'.trans (congrArg (Function.update · _ _) hlookup))
        | none =>
          obtain ⟨t',hlookup',hwrite⟩ := run_writeBytes hdir (hsame ▸ hp) hopen hfault
          rw [hwrite]
          exact .saved hstorable henters hp hopen hfault (hlookup'.trans (congrArg (Function.update · _ _) hlookup))
    · obtain ⟨e,hrun⟩ : ∃ e, (makeDirs (s.dirOf fileId)).run (storageCalls faults) d = (.error e,d) :=
        run_makeDirs_fails henters
      rw [hrun]
      exact .refused fun h => henters h.2
  · obtain ⟨filePath,heq⟩ := save_unstorable hstorable content
    rw [heq]
    exact .refused fun h => hstorable h.1

end LocalStorage

end StructuredExtractor
