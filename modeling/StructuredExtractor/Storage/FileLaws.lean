import StructuredExtractor.Storage.Saving
import StructuredExtractor.Storage.Containment

/-! # The laws of the file store

What is saved is loaded, other files stay as they are, and deleting the only file of a
file id takes back what the save did.
-/
namespace StructuredExtractor
open Prog Pathlib

/-- No call of the system fails for a reason of its own. -/
abbrev noFaults : StorageFaults := fun _ => none

namespace LocalStorage
variable {s : LocalStorage} {faults : StorageFaults} {d : StorageDisk} {fileId filename filePath : String}
variable {content : Bytes} {p : List String}

section Files

theorem run_load (h : s.Stays filePath) (hread : faults (.read (s.target filePath)) = none)
    (hfile : d.tree.lookup (s.target filePath) = some (.file content)) :
    ((s.load filePath).run (storageCalls faults) d).1 = .ok content := by
  have hread : (Os.read (s.target filePath)).run (storageCalls faults) d = _ := Disk.handler_call hread
  rw [Disk.call,FileTree.read_eq_ok.mpr hfile] at hread
  rw [load_stays h,run_rethrow,hread]
  rfl

theorem run_unlinkExisting (hstat : faults (.stat p) = none) (hunlink : faults (.unlink p) = none)
    (hfile : d.tree.lookup p = some (.file content)) :
    ∃ t, t.lookup = Function.update d.tree.lookup p none ∧
      (unlinkExisting p).run (storageCalls faults) d = (.ok (),d.setTree t) := by
  obtain ⟨t,ht⟩ := FileTree.exists_unlink (t := d.tree) (p := p) (by simp [hfile]) (by simp [hfile])
  obtain ⟨-,-,hlookup⟩ := FileTree.unlink_eq_ok.mp ht
  refine ⟨t,hlookup,?_⟩
  rw [unlinkExisting,run_bind,run_pathExists hstat,hfile]
  simp only [Option.isSome_some,andThen_ok,if_true]
  rw [run_unlink hunlink,ht]
  rfl

/-- The last file of a directory is deleted together with the directory. -/
theorem run_delete_last {name : String} (h : s.Stays filePath) (htarget : s.target filePath = name :: p)
    (hp : p ≠ s.base) (hroot : p ≠ []) (hfile : d.tree.lookup (name :: p) = some (.file content))
    (honly : ∀ n, n ≠ name → d.tree.lookup (n :: p) = none) :
    ∃ t, t.lookup = Function.update (Function.update d.tree.lookup (name :: p) none) p none ∧
      (s.delete filePath).run (storageCalls noFaults) d = (.ok (),d.setTree t) := by
  obtain ⟨t,hlookup,hunlink⟩ : ∃ t, t.lookup = Function.update d.tree.lookup (name :: p) none ∧
    (unlinkExisting (name :: p)).run (storageCalls noFaults) d = (.ok (),d.setTree t) :=
    run_unlinkExisting rfl rfl hfile
  have hdir : t.lookup p = some .dir := by
    rw [hlookup,Function.update_of_ne (List.cons_ne_self name p).symm]
    exact FileTree.lookup_parent (n := name) (by simp [hfile])
  have hempty : ∀ n, t.lookup (n :: p) = none := fun n => by
    rw [hlookup]
    by_cases hn : n = name
    · rw [hn,Function.update_self]
    · rw [Function.update_of_ne (fun heq => hn (List.head_eq_of_cons_eq heq)),honly n hn]
  have hremovable : Removable noFaults (d.setTree t) p := ⟨hroot,hdir,hempty,rfl,rfl,rfl⟩
  obtain ⟨t',hlookup',hremove⟩ := run_removeEmpty hp hremovable
  refine ⟨t',by rw [hlookup',Disk.setTree_tree,hlookup],?_⟩
  rw [delete_stays h,run_rethrow,run_bind,htarget,hunlink,andThen_ok,List.tail_cons,hremove]
  rfl

end Files

/-- A save that nothing stands in the way of comes to its path. -/
theorem save_succeeds (hbase : d.tree.lookup s.base = some .dir) (hstorable : s.Storable fileId filename)
    (hdir : d.tree.lookup (s.dirOf fileId) = none ∨ d.tree.lookup (s.dirOf fileId) = some .dir)
    (hfile : d.tree.lookup (s.fileOf fileId filename) ≠ some .dir) :
    ((s.save fileId content filename).run (storageCalls noFaults) d).1 = .ok (relativePath fileId filename) := by
  have henters : Enters noFaults d (s.dirOf fileId) := hdir.imp (⟨·,rfl⟩) (⟨·,rfl⟩)
  have houtcome := run_save s noFaults d fileId content filename hbase
  generalize (s.save fileId content filename).run (storageCalls noFaults) d = r at houtcome
  cases houtcome with
  | refused h => exact absurd ⟨hstorable,henters⟩ h
  | notOpened _ _ h => exact (h.elim hfile fun hopen => hopen rfl).elim
  | torn _ _ _ _ h => cases h
  | saved => rfl

/-- The laws of a file store, for a save that came to a path. -/
structure FileLaws (s : LocalStorage) (d d' : StorageDisk) (fileId : String) (content : Bytes) (path : String) :
    Prop where
  components : (PurePath.parse path).absolute = false ∧ ∃ dir file, (PurePath.parse path).parts = [dir,file]
  loads : ((s.load path).run (storageCalls noFaults) d').1 = .ok content
  keeps : ∀ p, p ≠ s.target path → d'.tree.fileAt p = d.tree.fileAt p
  keepsOthers : ∀ otherId otherName, safeName "file" otherId ≠ safeName "file" fileId →
    d'.tree.fileAt (s.target (relativePath otherId otherName)) =
      d.tree.fileAt (s.target (relativePath otherId otherName))
  restores : d.tree.lookup (s.dirOf fileId) = none →
    ((s.delete path).run (storageCalls noFaults) d').1 = .ok () ∧
    ((s.delete path).run (storageCalls noFaults) d').2.tree = d.tree

theorem fileOf_missing (h : d.tree.lookup (s.dirOf fileId) = none) : d.tree.lookup (s.fileOf fileId filename) = none :=
  FileTree.childless (by simp [h]) _

/-- Two values that are new and then taken back, in the other order, leave what was there. -/
theorem update_restored {α β : Type} [DecidableEq α] {f : α → Option β} {a b : α} {x y : Option β} (hab : a ≠ b)
    (ha : f a = none) (hb : f b = none) :
    Function.update (Function.update (Function.update (Function.update f a x) b y) b none) a none = f :=
  calc Function.update (Function.update (Function.update (Function.update f a x) b y) b none) a none
    _ = Function.update (Function.update (Function.update f a x) b none) a none := by rw [Function.update_idem]
    _ = Function.update (Function.update (Function.update f a x) a none) b none :=
      Function.update_comm hab.symm ..
    _ = Function.update (Function.update f a (f a)) b (f b) := by rw [Function.update_idem,ha,hb]
    _ = f := by rw [Function.update_eq_self,Function.update_eq_self]

/-- What a save leaves: its directory and its file, and nothing else is new. -/
theorem run_save_ok {path : String} (hbase : d.tree.lookup s.base = some .dir)
    (hsaved : ((s.save fileId content filename).run (storageCalls faults) d).1 = .ok path) :
    path = relativePath fileId filename ∧ s.Storable fileId filename ∧
    (d.tree.lookup (s.dirOf fileId) = none ∨ d.tree.lookup (s.dirOf fileId) = some .dir) ∧
    ((s.save fileId content filename).run (storageCalls faults) d).2.tree.lookup =
      Function.update (Function.update d.tree.lookup (s.dirOf fileId) (some .dir))
        (s.fileOf fileId filename) (some (.file content)) := by
  have houtcome := run_save s faults d fileId content filename hbase
  generalize (s.save fileId content filename).run (storageCalls faults) d = r at houtcome hsaved
  cases houtcome with
  | refused => cases hsaved
  | notOpened => cases hsaved
  | torn => cases hsaved
  | saved hstorable henters _ _ _ hlookup =>
    cases hsaved
    exact ⟨rfl,hstorable,henters.imp And.left And.left,hlookup⟩

theorem fileAt_saved {d' : StorageDisk}
    (hdir : d.tree.lookup (s.dirOf fileId) = none ∨ d.tree.lookup (s.dirOf fileId) = some .dir)
    (hlookup : d'.tree.lookup = Function.update (Function.update d.tree.lookup (s.dirOf fileId) (some .dir))
      (s.fileOf fileId filename) (some (.file content))) :
    d'.tree.fileAt = Function.update d.tree.fileAt (s.fileOf fileId filename) (some content) := by
  have hnone : d.tree.fileAt (s.dirOf fileId) = none := by
    obtain h | h := hdir <;> simp [FileTree.fileAt,h]
  have hcomp : d'.tree.fileAt = (·.bind Entry.content) ∘ d'.tree.lookup := rfl
  rw [hcomp,hlookup,Function.comp_update,Function.comp_update]
  have hsame : Function.update d.tree.fileAt (s.dirOf fileId) none = d.tree.fileAt := by
    rw [← hnone,Function.update_eq_self]
  exact congrArg (Function.update · _ _) hsame

/-- **The file store.** Every save that succeeds, whichever calls of the system it had to do with,
obeys the laws. -/
theorem save_fileLaws (s : LocalStorage) (faults : StorageFaults) (d : StorageDisk) (fileId : String)
    (content : Bytes) (filename path : String) (hbase : d.tree.lookup s.base = some .dir)
    (hsaved : ((s.save fileId content filename).run (storageCalls faults) d).1 = .ok path) :
    s.FileLaws d ((s.save fileId content filename).run (storageCalls faults) d).2 fileId content path := by
  obtain ⟨rfl,hstorable,hdir,hlookup⟩ := run_save_ok hbase hsaved
  generalize ((s.save fileId content filename).run (storageCalls faults) d).2 = d' at hlookup
  have hstays := stays_relativePath.mpr hstorable
  have hfile : d'.tree.lookup (s.fileOf fileId filename) = some (.file content) := by
    rw [hlookup,Function.update_self]
  have hkeeps : ∀ p, p ≠ s.fileOf fileId filename → d'.tree.fileAt p = d.tree.fileAt p := fun p hp => by
    rw [fileAt_saved hdir hlookup,Function.update_of_ne hp]
  exact
    { components := ⟨(parse_relativePath fileId filename).1,_,_,(parse_relativePath fileId filename).2⟩
      loads := run_load hstays rfl (target_relativePath.symm ▸ hfile)
      keeps := fun p hp => hkeeps p (target_relativePath ▸ hp)
      keepsOthers := fun otherId otherName hid => by
        rw [target_relativePath]
        refine hkeeps _ fun heq => hid ?_
        have htails := congrArg List.tail heq
        exact List.head_eq_of_cons_eq htails
      restores := fun hmissing => by
        have honly : ∀ n, n ≠ safeName "uploaded.pdf" filename → d'.tree.lookup (n :: s.dirOf fileId) = none :=
          fun n hn => by
            have hne : n :: s.dirOf fileId ≠ s.fileOf fileId filename := fun heq => hn (List.head_eq_of_cons_eq heq)
            rw [hlookup,Function.update_of_ne hne,Function.update_of_ne (List.cons_ne_self _ _)]
            exact FileTree.childless (by simp [hmissing]) n
        obtain ⟨t,ht,hdelete⟩ := run_delete_last hstays target_relativePath (List.cons_ne_self _ _)
          (List.cons_ne_nil _ _) hfile honly
        have hback : t.lookup = d.tree.lookup := by
          rw [ht,hlookup]
          exact update_restored fileOf_ne_dirOf.symm hmissing (fileOf_missing hmissing)
        rw [hdelete]
        exact ⟨rfl,FileTree.ext_lookup hback⟩ }

end LocalStorage

section Sample

/-- A disk that has the base directory of `srvStorage`. -/
def srvDataDisk : StorageDisk := ⟨srvDisk.tree.put "data" ["srv"] .dir (by decide) (by decide),[]⟩

/-- A save that the system lets through obeys the laws. -/
theorem invoice_fileLaws : srvStorage.FileLaws srvDataDisk
    ((srvStorage.save "invoice" [37] "a.pdf").run (storageCalls noFaults) srvDataDisk).2 "invoice" [37]
    (LocalStorage.relativePath "invoice" "a.pdf") := by
  have hid : safeName "file" "invoice" = "invoice" :=
    LocalStorage.safeName_eq_self ⟨by decide,by decide⟩ (by decide) _
  have hname : safeName "uploaded.pdf" "a.pdf" = "a.pdf" :=
    LocalStorage.safeName_eq_self ⟨by decide,by decide⟩ (by decide) _
  have hdir : srvStorage.dirOf "invoice" = ["invoice","data","srv"] := congrArg (· :: srvStorage.base) hid
  have hfile : srvStorage.fileOf "invoice" "a.pdf" = ["a.pdf","invoice","data","srv"] := by
    rw [LocalStorage.fileOf,hdir,hname]
  refine LocalStorage.save_fileLaws srvStorage noFaults srvDataDisk "invoice" [37] "a.pdf" _ (by decide)
    (LocalStorage.save_succeeds (by decide) ⟨by decide,?_,?_⟩ (.inl ?_) ?_)
  · rw [hid]
    decide
  · rw [hname]
    decide
  · rw [hdir]
    decide
  · rw [hfile]
    decide

end Sample

end StructuredExtractor
