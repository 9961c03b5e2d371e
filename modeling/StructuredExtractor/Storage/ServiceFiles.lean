import StructuredExtractor.Storage.FileLaws
import StructuredExtractor.Service.Alone

/-! # The stored files of the service

The service knows a stored file by its file id and its name, and its files as a function
of the two. The local storage keeps them on a disk, one call for each action.
-/
namespace StructuredExtractor
open Prog Pathlib LocalStorage

/-- How ids are written: no two alike, and each as a safe name. -/
structure IdTexts where
  text : UuidText → String
  injective : Function.Injective text
  safe : ∀ id, SafeName (text id)
  noBackslash : ∀ id, '\\' ∉ (text id).toList

namespace IdTexts
variable (ids : IdTexts) {s : LocalStorage} {faults : StorageFaults} {d : StorageDisk} {path : StoragePath}

theorem safeName_text (id : UuidText) : safeName "file" (ids.text id) = ids.text id :=
  safeName_eq_self (ids.safe id) (ids.noBackslash id) _

/-- The text of a stored path, as a row keeps it. -/
def pathText (path : StoragePath) : String := "/".intercalate [ids.text path.fileId,path.name]

/-- Where it leads below the base directory. -/
def pathOf (s : LocalStorage) (path : StoragePath) : List String := path.name :: ids.text path.fileId :: s.base

theorem pathOf_injective : Function.Injective (ids.pathOf s) := by
  rintro ⟨id,name⟩ ⟨id',name'⟩ h
  simp only [pathOf,List.cons.injEq,and_true] at h
  obtain ⟨rfl,hid⟩ := h
  exact congrArg (StoragePath.mk · name) (ids.injective hid)

theorem pathText_storagePath (id : UuidText) (filename : String) :
    ids.pathText (storagePath id filename) = relativePath (ids.text id) filename := by
  rw [relativePath,safeName_text,(ids.safe id).parse,(safeName_filename filename).parse]
  rfl

theorem pathOf_storagePath (id : UuidText) (filename : String) :
    ids.pathOf s (storagePath id filename) = s.fileOf (ids.text id) filename := by
  rw [fileOf,dirOf,safeName_text]
  rfl

theorem target_pathText (h : SafeName path.name) : s.target (ids.pathText path) = ids.pathOf s path := by
  have hvalid : ∀ t ∈ [ids.text path.fileId,path.name], IsPart t := fun t ht => by
    obtain rfl | rfl : t = ids.text path.fileId ∨ t = path.name := by simpa using ht
    · exact (ids.safe _).toIsPart
    · exact h.toIsPart
  have hparse : PurePath.parse (ids.pathText path) = ⟨false,_,hvalid⟩ := PurePath.parse_str ⟨false,_,hvalid⟩
  rw [target,hparse,PurePath.under,PurePath.follow_cons (ids.safe _).notUp,PurePath.follow_cons h.notUp]
  rfl

end IdTexts

section Steps
variable {s : LocalStorage} {faults : StorageFaults} {d : StorageDisk} {p : List String} {filePath : String}

/-- A deletion that goes well has taken the file away, if there was one. -/
theorem fileAt_unlinkExisting (h : ((unlinkExisting p).run (storageCalls faults) d).1 = .ok ()) :
    ((unlinkExisting p).run (storageCalls faults) d).2.tree.fileAt = Function.update d.tree.fileAt p none := by
  by_cases hfile : d.tree.fileAt p = none
  · by_cases hmissing : d.tree.lookup p = none ∧ faults (.stat p) = none
    · rw [run_unlinkExisting_missing hmissing.1 hmissing.2,← hfile,Function.update_eq_self]
    · obtain ⟨e,herror⟩ := run_unlinkExisting_refused hfile hmissing
      rw [herror] at h
      cases h
  · obtain ⟨content,hcontent⟩ := Option.ne_none_iff_exists'.mp hfile
    have hlookup : d.tree.lookup p = some (.file content) := FileTree.fileAt_eq_some.mp hcontent
    cases hstat : faults (.stat p) with
    | some n =>
      rw [unlinkExisting,run_bind,run_pathExists_fault hstat] at h
      cases h
    | none =>
      cases hunlink : faults (.unlink p) with
      | some n =>
        have hfault : (Os.unlink p).run (storageCalls faults) d = (.error (.os .other),d) := Disk.handler_fault hunlink
        rw [unlinkExisting,run_bind,run_pathExists hstat,hlookup] at h
        simp only [Option.isSome_some,andThen_ok,if_true] at h
        rw [hfault] at h
        cases h
      | none =>
        obtain ⟨t,ht,hrun⟩ := run_unlinkExisting hstat hunlink hlookup
        rw [hrun]
        exact FileTree.fileAt_of_update ht

theorem fileAt_removeEmpty : ((s.removeEmpty p).run (storageCalls faults) d).2.tree.fileAt = d.tree.fileAt := by
  by_cases h : p ≠ s.base ∧ Removable faults d p
  · obtain ⟨t,hlookup,hrun⟩ := run_removeEmpty h.1 h.2
    rw [hrun]
    exact FileTree.fileAt_of_update_none hlookup (by simp [FileTree.fileAt,h.2.dir]) rfl
  · rw [run_removeEmpty_kept h]

theorem fileAt_delete (h : s.Stays filePath) (hok : ((s.delete filePath).run (storageCalls faults) d).1 = .ok ()) :
    ((s.delete filePath).run (storageCalls faults) d).2.tree.fileAt =
      Function.update d.tree.fileAt (s.target filePath) none := by
  rw [delete_stays h,run_rethrow,run_bind] at hok ⊢
  have hunlink := @fileAt_unlinkExisting faults d (s.target filePath)
  rcases hrun : (unlinkExisting (s.target filePath)).run (storageCalls faults) d with ⟨_ | _,d'⟩
  · rw [hrun] at hok
    cases hok
  · rw [hrun] at hunlink hok
    rw [andThen_ok]
    exact fileAt_removeEmpty.trans (hunlink rfl)

end Steps

section Mirror
variable {ids : IdTexts} {s : LocalStorage} {files : StoragePath → Option Bytes} {d d' : StorageDisk} {a : Action}

/-- The disk has the base directory, and below it the files of the service. -/
structure Mirrors (ids : IdTexts) (s : LocalStorage) (files : StoragePath → Option Bytes) (d : StorageDisk) :
    Prop where
  base : d.tree.lookup s.base = some .dir
  file : ∀ path, files path = d.tree.fileAt (ids.pathOf s path)

/-- A call that went well, for each action, whichever calls of the system it had to do with.
What is no action on a file leaves the disk alone. -/
inductive Performs (ids : IdTexts) (s : LocalStorage) (d : StorageDisk) : Action → StorageDisk → Prop
  | save {fileId content filename faults} :
      ((s.save (ids.text fileId) content filename).run (storageCalls faults) d).1 =
        .ok (ids.pathText (storagePath fileId filename)) →
      Performs ids s d (.save (storagePath fileId filename) content)
        ((s.save (ids.text fileId) content filename).run (storageCalls faults) d).2
  | delete {path faults} : SafeName path.name →
      ((s.delete (ids.pathText path)).run (storageCalls faults) d).1 = .ok () →
      Performs ids s d (.delete path) ((s.delete (ids.pathText path)).run (storageCalls faults) d).2
  | commit {changes} : Performs ids s d (.commit changes) d
  | enqueue {job} : Performs ids s d (.enqueue job) d

theorem Mirrors.update {path : StoragePath} {e : Option Bytes} (h : Mirrors ids s files d)
    (hbase : d'.tree.lookup s.base = some .dir)
    (hfiles : d'.tree.fileAt = Function.update d.tree.fileAt (ids.pathOf s path) e) :
    Mirrors ids s (Function.update files path e) d' where
  base := hbase
  file other := by
    rw [hfiles]
    by_cases heq : other = path
    · rw [heq,Function.update_self,Function.update_self]
    · rw [Function.update_of_ne heq,Function.update_of_ne (ids.pathOf_injective.ne heq)]
      exact h.file other

/-- **Stored files.** The disk keeps up with the service, action by action. -/
theorem mirrors_act {w : World} (run : ℕ) (h : Mirrors ids s w.files d) (hperforms : Performs ids s d a d') :
    Mirrors ids s (w.act run a).files d' := by
  have hfile : d.tree.fileAt s.base = none := by simp [FileTree.fileAt,h.base]
  have hnot : ¬ Below s.base s.base := fun hbelow => hbelow.2 rfl
  cases hperforms with
  | @save fileId content filename faults hok =>
    obtain ⟨-,-,hdir,hlookup⟩ := run_save_ok h.base hok
    have hcontained := @contained_run s.base d faults _ _ (only_save (ids.text fileId) content filename) hfile
    refine h.update (hcontained.dirs _ hnot h.base) ?_
    rw [IdTexts.pathOf_storagePath]
    exact fileAt_saved hdir hlookup
  | @delete path faults hname hok =>
    have htarget := ids.target_pathText (s := s) hname
    have hstays : s.Stays (ids.pathText path) := by
      by_contra hnot
      rw [delete_error hnot] at hok
      cases hok
    have hne : s.target (ids.pathText path) ≠ s.base := by
      rw [htarget]
      intro heq
      have hlength := congrArg List.length heq
      simp only [IdTexts.pathOf,List.length_cons] at hlength
      omega
    have hcontained := @contained_run s.base d faults _ _ (only_delete fun _ => hne) hfile
    refine h.update (hcontained.dirs _ hnot h.base) ?_
    rw [← htarget]
    exact fileAt_delete hstays hok
  | commit => exact h
  | enqueue => exact h

/-- The actions of a run, one after the other. -/
def PerformsAll (ids : IdTexts) (s : LocalStorage) : List Action → StorageDisk → StorageDisk → Prop
  | [],d,d' => d' = d
  | a :: as,d,d' => ∃ d₁, Performs ids s d a d₁ ∧ PerformsAll ids s as d₁ d'

theorem mirrors_acts {w : World} (run : ℕ) {as : List Action} (h : Mirrors ids s w.files d)
    (hperforms : PerformsAll ids s as d d') : Mirrors ids s (w.acts run as).files d' := by
  induction as generalizing w d with
  | nil =>
    cases hperforms
    exact h
  | cons a as ih =>
    obtain ⟨d₁,hstep,hrest⟩ := hperforms
    exact ih (mirrors_act run h hstep) hrest

/-- A load that the system lets through finds what the service stored. -/
theorem load_mirrors {faults : StorageFaults} {path : StoragePath} {content : Bytes} (h : Mirrors ids s files d)
    (hname : SafeName path.name) (hstays : s.Stays (ids.pathText path))
    (hread : faults (.read (ids.pathOf s path)) = none) :
    ((s.load (ids.pathText path)).run (storageCalls faults) d).1 = .ok content ↔ files path = some content := by
  have htarget := ids.target_pathText (s := s) hname
  rw [h.file,FileTree.fileAt_eq_some,← FileTree.read_eq_ok]
  rw [← htarget] at hread
  have hcall : (Os.read (s.target (ids.pathText path))).run (storageCalls faults) d = _ := Disk.handler_call hread
  rw [load_stays hstays,run_rethrow,hcall,htarget,Disk.call]
  cases d.tree.read (ids.pathOf s path) with
  | error e => simp [Except.mapError]
  | ok content' => simp [Except.mapError]

end Mirror

end StructuredExtractor
