import StructuredExtractor.Storage.LocalStorage

/-! # The storage and what is outside its base directory

A call opens files below the base directory only and leaves everything else as it was,
except that a deletion acts on the parent of what its path names, and a path can name
the base directory itself.
-/
namespace StructuredExtractor

/-- Strictly below a directory. -/
def Below (base p : List String) : Prop := base <:+ p ∧ p ≠ base

instance (base p : List String) : Decidable (Below base p) := inferInstanceAs (Decidable (_ ∧ _))

/-- What happened on the disk happened below the base directory: no other file was opened,
made, changed or removed, and no other directory was removed. -/
structure Contained (base : List String) (d d' : StorageDisk) : Prop where
  opened : ∀ p ∈ d'.opened, p ∈ d.opened ∨ Below base p
  files : ∀ p, ¬ Below base p → d'.tree.fileAt p = d.tree.fileAt p
  dirs : ∀ p, ¬ Below base p → d.tree.lookup p = some .dir → d'.tree.lookup p = some .dir

namespace Contained
variable {base : List String} {d d' d'' : StorageDisk}

theorem refl (base : List String) (d : StorageDisk) : Contained base d d :=
  ⟨fun _ => .inl,fun _ _ => rfl,fun _ _ => id⟩

theorem trans (h : Contained base d d') (h' : Contained base d' d'') : Contained base d d'' where
  opened p hp := (h'.opened p hp).elim (h.opened p) .inr
  files p hp := (h'.files p hp).trans (h.files p hp)
  dirs p hp hdir := h'.dirs p hp (h.dirs p hp hdir)

end Contained

/-- Calls that act on nothing outside, as long as the base directory is no file. -/
def Confined (base : List String) : StorageOp → Prop
  | .mkdir _ | .stat _ | .listdir _ => True
  | .openWrite p | .write p _ | .rmdir p => Below base p
  | .read p | .unlink p => base <:+ p

section Step
variable {base : List String} {d : StorageDisk} {faults : StorageFaults} {op : StorageOp}

theorem below_of_file {p : List String} {content : Bytes} (hbase : d.tree.fileAt base = none) (hp : base <:+ p)
    (hfile : d.tree.lookup p = some (.file content)) : Below base p := by
  refine ⟨hp,fun heq => ?_⟩
  rw [← heq,FileTree.fileAt_eq_some.mpr hfile] at hbase
  cases hbase

/-- A change at one path, below the base or from nothing to a directory, is contained. -/
theorem contained_update {t : FileTree String UInt8} {p : List String} {e : Option (Entry UInt8)}
    (hlookup : t.lookup = Function.update d.tree.lookup p e)
    (hp : Below base p ∨ d.tree.lookup p = none ∧ e = some .dir) (q : List String) (hq : ¬ Below base q) :
    t.fileAt q = d.tree.fileAt q ∧ (d.tree.lookup q = some .dir → t.lookup q = some .dir) := by
  by_cases heq : q = p
  · subst heq
    obtain hbelow | ⟨hnone,rfl⟩ := hp
    · exact absurd hbelow hq
    · have hdir : t.lookup q = some .dir := by rw [hlookup,Function.update_self]
      exact ⟨by simp [FileTree.fileAt,hdir,hnone],fun _ => hdir⟩
  · have hsame : t.lookup q = d.tree.lookup q := by rw [hlookup,Function.update_of_ne heq]
    exact ⟨FileTree.fileAt_congr hsame,fun hdir => hsame.trans hdir⟩

theorem contained_effect {t : FileTree String UInt8} (hbase : d.tree.fileAt base = none) (hop : Confined base op)
    (he : FileOp.Effect d.tree op t) (q : List String) (hq : ¬ Below base q) :
    t.fileAt q = d.tree.fileAt q ∧ (d.tree.lookup q = some .dir → t.lookup q = some .dir) := by
  cases he with
  | none => exact ⟨rfl,id⟩
  | mkdir hnone _ hlookup => exact contained_update hlookup (.inr ⟨hnone,rfl⟩) q hq
  | openWrite _ _ hlookup => exact contained_update hlookup (.inl hop) q hq
  | write _ _ hlookup => exact contained_update hlookup (.inl hop) q hq
  | rmdir _ _ _ hlookup => exact contained_update hlookup (.inl hop) q hq
  | @unlink p _ hdir hne hlookup =>
    obtain ⟨content,hfile⟩ : ∃ content, d.tree.lookup p = some (.file content) := by
      cases he : d.tree.lookup p with
      | none => exact absurd he hne
      | some e => cases e with
        | dir => exact absurd he hdir
        | file content => exact ⟨content,rfl⟩
    exact contained_update hlookup (.inl (below_of_file hbase hop hfile)) q hq

theorem contained_step (hbase : d.tree.fileAt base = none) (hop : Confined base op) :
    Contained base d (storageCalls faults op d).2 where
  opened p hp := by
    have hopened : (storageCalls faults op d).2.opened = d.opened ∨ _ := Disk.handler_opened
    obtain heq | ⟨q,hq,heq⟩ := hopened
    · exact .inl (heq ▸ hp)
    · rw [heq] at hp
      obtain hp | hp := List.mem_append.mp hp
      · exact .inl hp
      · obtain rfl := List.mem_singleton.mp hp
        obtain rfl | ⟨rfl,content,hfile⟩ := hq
        · exact .inr hop
        · exact .inr (below_of_file hbase hop hfile)
  files p hp := (contained_effect hbase hop Disk.handler_effect p hp).1
  dirs p hp := (contained_effect hbase hop Disk.handler_effect p hp).2

/-- A program of confined calls is contained. -/
theorem contained_run {α : Type} {prog : StorageProg α} (hprog : prog.Only (Confined base))
    (hbase : d.tree.fileAt base = none) : Contained base d (prog.run (storageCalls faults) d).2 := by
  have hbelow : ¬ Below base base := fun h => h.2 rfl
  refine hprog.run_rel (storageCalls faults) (R := fun d d' => d.tree.fileAt base = none → Contained base d d')
    (fun d _ => .refl base d) (fun {a b c} h h' hb => ?_) (fun op d hop hb => contained_step hb hop) d hbase
  exact (h hb).trans (h' (((h hb).files base hbelow).trans hb))

end Step

section Programs
open Prog Pathlib
variable {base : List String} {s : LocalStorage}

theorem only_isDir (p : List String) : (isDir p).Only (Confined base) :=
  Only.tryCatch (only_perform trivial) fun e => by
    cases e with
    | os e => dsimp only; split <;> trivial
    | _ => trivial

theorem only_pathExists (p : List String) : (pathExists p).Only (Confined base) :=
  Only.tryCatch (Only.map _ (only_perform trivial)) fun e => by
    cases e with
    | os e => dsimp only; split <;> trivial
    | _ => trivial

theorem only_unlessDir (p : List String) (e : OsError) : (unlessDir p e).Only (Confined base) :=
  Only.bind (only_isDir p) fun b => by cases b <;> trivial

theorem only_mkdir (p : List String) : (mkdir p).Only (Confined base) :=
  Only.tryCatch (only_perform trivial) fun e => by
    cases e with
    | os e =>
      dsimp only
      split
      · trivial
      · exact only_unlessDir p e
    | _ => trivial

theorem only_makeDirs (p : List String) : (makeDirs p).Only (Confined base) := by
  induction p with
  | nil => exact only_mkdir []
  | cons n p ih =>
    refine Only.tryCatch (only_perform trivial) fun e => ?_
    cases e with
    | os e =>
      dsimp only
      split
      · exact ih.bind fun _ => only_mkdir (n :: p)
      · exact only_unlessDir (n :: p) e
    | _ => trivial

theorem only_writeBytes {p : List String} (hp : Below base p) (content : Bytes) :
    (writeBytes p content).Only (Confined base) := by
  have hopen : Confined base (.openWrite p) := hp
  have hwrite : Confined base (.write p content) := hp
  exact (only_perform hopen).bind fun _ => only_perform hwrite

theorem below_fileOf (fileId filename : String) : Below s.base (s.fileOf fileId filename) := by
  refine ⟨(List.suffix_cons _ _).trans (List.suffix_cons _ _),fun heq => ?_⟩
  have hlength := congrArg List.length heq
  simp only [LocalStorage.fileOf,LocalStorage.dirOf,List.length_cons] at hlength
  omega

theorem only_save (fileId : String) (content : Bytes) (filename : String) :
    (s.save fileId content filename).Only (Confined s.base) := by
  by_cases h : s.Storable fileId filename
  · rw [LocalStorage.save_storable h]
    refine Only.bind (Only.tryCatch ?_ fun _ => trivial) fun _ => trivial
    exact (only_makeDirs _).bind fun _ => only_writeBytes (below_fileOf fileId filename) content
  · obtain ⟨filePath,heq⟩ := LocalStorage.save_unstorable h content
    rw [heq]
    trivial

theorem only_load (filePath : String) : (s.load filePath).Only (Confined s.base) := by
  by_cases h : s.Stays filePath
  · rw [LocalStorage.load_stays h]
    exact Only.tryCatch (only_perform h.inside) fun _ => trivial
  · rw [LocalStorage.load_error h]
    trivial

theorem only_unlinkExisting {p : List String} (hp : base <:+ p) :
    (LocalStorage.unlinkExisting p).Only (Confined base) :=
  (only_pathExists p).bind fun b => by
    cases b with
    | true => exact only_perform hp
    | false => trivial

theorem only_removeEmpty {p : List String} (hp : s.base <:+ p) : (s.removeEmpty p).Only (Confined s.base) := by
  unfold LocalStorage.removeEmpty
  split
  · next hne =>
    refine (only_pathExists p).bind fun b => ?_
    cases b with
    | false => trivial
    | true =>
      refine (only_perform trivial).bind fun (names : Finset String) => ?_
      by_cases hnames : names = ∅
      · exact (if_pos hnames).symm ▸ only_perform ⟨hp,hne⟩
      · exact (if_neg hnames).symm ▸ trivial
  · trivial

/-- A deletion of anything but the base directory itself is confined. -/
theorem only_delete {filePath : String} (hne : s.Stays filePath → s.target filePath ≠ s.base) :
    (s.delete filePath).Only (Confined s.base) := by
  by_cases h : s.Stays filePath
  · rw [LocalStorage.delete_stays h]
    have htail : s.base <:+ (s.target filePath).tail := by
      have hinside := h.inside
      cases htarget : s.target filePath with
      | nil => exact absurd (List.suffix_nil.mp (htarget ▸ hinside)).symm (htarget ▸ hne h)
      | cons n p =>
        rw [htarget] at hinside
        obtain heq | hp := List.suffix_cons_iff.mp hinside
        · exact absurd (htarget.trans heq.symm) (hne h)
        · exact hp
    exact Only.tryCatch ((only_unlinkExisting h.inside).bind fun _ => only_removeEmpty htail) fun _ => trivial
  · rw [LocalStorage.delete_error h]
    trivial

end Programs

/-- The calls of the storage. -/
inductive StorageCall
  | save (fileId : String) (content : Bytes) (filename : String)
  | load (filePath : String)
  | delete (filePath : String)

namespace StorageCall
open LocalStorage

/-- The path that the call resolves. A save makes it of safe names. -/
def argument : StorageCall → String
  | save fileId _ filename => relativePath fileId filename
  | load filePath => filePath
  | delete filePath => filePath

/-- The call, without what it returns. -/
def program (s : LocalStorage) : StorageCall → StorageProg Unit
  | save fileId content filename => (fun _ => ()) <$> s.save fileId content filename
  | load filePath => (fun _ => ()) <$> s.load filePath
  | delete filePath => s.delete filePath

/-- A deletion that names the base directory itself, which is missing, in an empty directory. -/
def RemovesParent (s : LocalStorage) (faults : StorageFaults) (d : StorageDisk) : StorageCall → Prop
  | delete filePath => s.Stays filePath ∧ s.target filePath = s.base ∧ d.tree.lookup s.base = none ∧
      faults (.stat s.base) = none ∧ Removable faults d s.base.tail
  | _ => False

end StorageCall

section Calls
open Prog LocalStorage
variable {s : LocalStorage} {faults : StorageFaults} {d : StorageDisk} {filePath : String}

theorem run_delete (h : s.Stays filePath) : ((s.delete filePath).run (storageCalls faults) d).2 =
    ((do unlinkExisting (s.target filePath); s.removeEmpty (s.target filePath).tail :
      StorageProg Unit).run (storageCalls faults) d).2 := by
  rw [delete_stays h,run_rethrow]

theorem base_tail_ne (hbase : d.tree.lookup s.base = none) : s.base.tail ≠ s.base := by
  intro heq
  cases hb : s.base with
  | nil => cases d.tree.lookup_nil.symm.trans (hb ▸ hbase)
  | cons n p =>
    rw [hb,List.tail_cons] at heq
    exact List.cons_ne_self n p heq.symm

/-- A deletion of the base directory itself does nothing, or takes away what it would be in. -/
theorem delete_base (hbase : d.tree.fileAt s.base = none) (hstays : s.Stays filePath)
    (htarget : s.target filePath = s.base) :
    (¬ (StorageCall.delete filePath).RemovesParent s faults d ∧
      ((s.delete filePath).run (storageCalls faults) d).2 = d) ∨
    (StorageCall.delete filePath).RemovesParent s faults d ∧
      ((s.delete filePath).run (storageCalls faults) d).2.tree.lookup s.base.tail = none := by
  rw [run_delete hstays,htarget,run_bind]
  by_cases hmissing : d.tree.lookup s.base = none ∧ faults (.stat s.base) = none
  · rw [run_unlinkExisting_missing hmissing.1 hmissing.2,andThen_ok]
    by_cases hremovable : Removable faults d s.base.tail
    · obtain ⟨t,hlookup,hremove⟩ := run_removeEmpty (base_tail_ne hmissing.1) hremovable
      refine .inr ⟨⟨hstays,htarget,hmissing.1,hmissing.2,hremovable⟩,?_⟩
      rw [hremove]
      exact (congrFun hlookup _).trans (Function.update_self ..)
    · exact .inl ⟨fun hremoves => hremovable hremoves.2.2.2.2,run_removeEmpty_kept fun h => hremovable h.2⟩
  · obtain ⟨e,herror⟩ := run_unlinkExisting_refused hbase hmissing
    exact .inl ⟨fun hremoves => hmissing ⟨hremoves.2.2.1,hremoves.2.2.2.1⟩,by rw [herror]; rfl⟩

/-- A path that leads outside is refused, and nothing happens. -/
theorem outside_refused {call : StorageCall} (h : ¬ s.base <:+ s.target call.argument) :
    (call.program s).run (storageCalls faults) d = (.error (.storage call.argument "resolve" .value),d) := by
  cases call with
  | save fileId content filename =>
    refine absurd ?_ h
    rw [StorageCall.argument,target_relativePath]
    exact (below_fileOf fileId filename).1
  | load filePath =>
    have hload : s.load filePath = throw (.storage filePath "resolve" .value) :=
      load_error fun hstays => h hstays.inside
    rw [StorageCall.program,hload]
    rfl
  | delete filePath =>
    have hdelete : s.delete filePath = throw (.storage filePath "resolve" .value) :=
      delete_error fun hstays => h hstays.inside
    rw [StorageCall.program,hdelete]
    rfl

theorem only_program {call : StorageCall}
    (hne : ∀ filePath, call = .delete filePath → s.Stays filePath → s.target filePath ≠ s.base) :
    (call.program s).Only (Confined s.base) := by
  cases call with
  | save fileId content filename => exact (only_save fileId content filename).map _
  | load filePath => exact (only_load filePath).map _
  | delete filePath => exact only_delete (hne filePath rfl)

/-- **Containment.** Whatever a call is given, and whichever calls of the system fail, it
stays below the base directory and refuses paths that lead elsewhere, exactly when it is no
deletion of the missing base directory in an empty one. -/
theorem storage_contained_iff (s : LocalStorage) (faults : StorageFaults) (d : StorageDisk) (call : StorageCall)
    (hbase : d.tree.fileAt s.base = none) :
    (Contained s.base d ((call.program s).run (storageCalls faults) d).2 ∧
      (¬ s.base <:+ s.target call.argument → ∃ path operation original,
        (call.program s).run (storageCalls faults) d = (.error (.storage path operation original),d))) ↔
    ¬ call.RemovesParent s faults d := by
  have hrefused : ¬ s.base <:+ s.target call.argument → ∃ path operation original,
      (call.program s).run (storageCalls faults) d = (.error (.storage path operation original),d) :=
    fun h => ⟨_,_,_,outside_refused h⟩
  rw [and_iff_left hrefused]
  by_cases hdelete : ∃ filePath, call = .delete filePath ∧ s.Stays filePath ∧ s.target filePath = s.base
  · obtain ⟨filePath,rfl,hstays,htarget⟩ := hdelete
    obtain ⟨hkeeps,hsame⟩ | ⟨hremoves,hgone⟩ := @delete_base s faults d _ hbase hstays htarget
    · refine iff_of_true ?_ hkeeps
      rw [StorageCall.program,hsame]
      exact .refl s.base d
    · refine iff_of_false (fun hcontained => ?_) (not_not_intro hremoves)
      have habove : ¬ Below s.base s.base.tail := fun h => h.2 (h.1.eq_of_length_le (by simp)).symm
      cases hgone.symm.trans (hcontained.dirs _ habove hremoves.2.2.2.2.dir)
  · refine iff_of_true (contained_run (only_program fun filePath hcall hstays htarget => ?_) hbase) fun hremoves => ?_
    · exact hdelete ⟨filePath,hcall,hstays,htarget⟩
    · cases call with
      | delete filePath => exact hdelete ⟨filePath,rfl,hremoves.1,hremoves.2.1⟩
      | save => exact hremoves
      | load => exact hremoves

end Calls

section Sample
open LocalStorage

/-- A storage at /srv/data. -/
def srvStorage : LocalStorage where
  baseDir := ⟨true,["srv","data"],by decide⟩
  cwd := []

/-- A disk that has an empty directory /srv. -/
def srvDisk : StorageDisk := ⟨FileTree.empty.put "srv" [] .dir rfl (by decide),[]⟩

/-- Deleting the empty path takes the directory away that the missing base directory would be in. -/
theorem delete_removes_srv : srvDisk.tree.fileAt srvStorage.base = none ∧ srvDisk.tree.lookup ["srv"] = some .dir ∧
    (((StorageCall.delete "").program srvStorage).run (storageCalls fun _ => none) srvDisk).2.tree.lookup ["srv"] = none ∧
    ¬ Contained srvStorage.base srvDisk
      (((StorageCall.delete "").program srvStorage).run (storageCalls fun _ => none) srvDisk).2 := by
  have hparts : PurePath.components "" = [] := (PurePath.components_eq "").trans (by decide)
  have htarget : srvStorage.target "" = srvStorage.base := congrArg (PurePath.follow srvStorage.base) hparts
  have hnul : (PurePath.parse "").NulFree := fun s hs => by
    have hs : s ∈ PurePath.components "" := hs
    rw [hparts] at hs
    cases hs
  have hstays : srvStorage.Stays "" := ⟨rfl,by decide,hnul,htarget.symm ▸ List.suffix_rfl⟩
  have hempty : ∀ n, srvDisk.tree.lookup (n :: srvStorage.base.tail) = none :=
    (srvDisk.tree.names_eq_empty).mp (by decide)
  have hremovable : Removable (fun _ => none) srvDisk srvStorage.base.tail :=
    ⟨by decide,by decide,hempty,rfl,rfl,rfl⟩
  obtain ⟨hkeeps,-⟩ | ⟨-,hgone⟩ := @delete_base srvStorage (fun _ => none) srvDisk "" rfl hstays htarget
  · exact absurd ⟨hstays,htarget,by decide,rfl,hremovable⟩ hkeeps
  · refine ⟨rfl,by decide,hgone,fun hcontained => ?_⟩
    cases hgone.symm.trans (hcontained.dirs ["srv"] (by decide) (by decide))

/-- A file name that would lead up is stored below the base directory, which is made for it. -/
theorem save_stays_below : Contained srvStorage.base srvDisk
    (((StorageCall.save "invoice" [37] "../a.pdf").program srvStorage).run (storageCalls fun _ => none) srvDisk).2 :=
  ((storage_contained_iff srvStorage (fun _ => none) srvDisk (.save "invoice" [37] "../a.pdf") rfl).mpr id).1

end Sample

end StructuredExtractor
