import StructuredExtractor.Storage.FileLaws

/-! # Failed saves

A save that fails after its first step leaves what that step did: a directory that is new,
or a file with a part of the content.
-/
namespace StructuredExtractor

namespace LocalStorage
variable {s : LocalStorage} {faults : StorageFaults} {d : StorageDisk} {fileId filename : String} {content : Bytes}

/-- The save fails at the file, in a directory that it made for it, or in the middle of writing
a file whose content was another one than what is written by then. -/
structure LeavesTrace (s : LocalStorage) (faults : StorageFaults) (d : StorageDisk) (fileId : String)
    (content : Bytes) (filename : String) : Prop where
  storable : s.Storable fileId filename
  enters : Enters faults d (s.dirOf fileId)
  fails : (d.tree.lookup (s.dirOf fileId) = none ∧
      (faults (.openWrite (s.fileOf fileId filename)) ≠ none ∨
        faults (.write (s.fileOf fileId filename) content) ≠ none)) ∨
    (d.tree.lookup (s.fileOf fileId filename) ≠ some .dir ∧ faults (.openWrite (s.fileOf fileId filename)) = none ∧
      ∃ n, faults (.write (s.fileOf fileId filename) content) = some n ∧
        d.tree.lookup (s.fileOf fileId filename) ≠ some (.file (content.take n)))

section Outcomes
variable {t : FileTree String UInt8}

/-- A save that does not open its file has only made the directory, if that was missing. -/
theorem notOpened_unchanged (hstorable : s.Storable fileId filename) (henters : Enters faults d (s.dirOf fileId))
    (hrefused : d.tree.lookup (s.fileOf fileId filename) = some .dir ∨
      faults (.openWrite (s.fileOf fileId filename)) ≠ none)
    (hlookup : t.lookup = Function.update d.tree.lookup (s.dirOf fileId) (some .dir)) :
    t = d.tree ↔ ¬ s.LeavesTrace faults d fileId content filename := by
  rw [FileTree.eq_iff_of_update hlookup]
  constructor
  · intro hdir htrace
    obtain ⟨hmissing,-⟩ | ⟨hfile,hopen,-⟩ := htrace.fails
    · cases hmissing.symm.trans hdir
    · exact hrefused.elim hfile fun hfault => hfault hopen
  · intro htrace
    obtain ⟨hmissing,-⟩ | ⟨hdir,-⟩ := id henters
    · have hfile : d.tree.lookup (s.fileOf fileId filename) = none := fileOf_missing hmissing
      have hfault := hrefused.resolve_left (by simp [hfile])
      exact absurd ⟨hstorable,henters,.inl ⟨hmissing,.inl hfault⟩⟩ htrace
    · exact hdir

/-- A save that fails in its write has changed something, unless it wrote what was there. -/
theorem torn_unchanged {n : ℕ} (hstorable : s.Storable fileId filename) (henters : Enters faults d (s.dirOf fileId))
    (hfile : d.tree.lookup (s.fileOf fileId filename) ≠ some .dir)
    (hopen : faults (.openWrite (s.fileOf fileId filename)) = none)
    (hwrite : faults (.write (s.fileOf fileId filename) content) = some n)
    (hlookup : t.lookup = Function.update (Function.update d.tree.lookup (s.dirOf fileId) (some .dir))
      (s.fileOf fileId filename) (some (.file (content.take n)))) :
    t = d.tree ↔ ¬ s.LeavesTrace faults d fileId content filename := by
  obtain ⟨hmissing,-⟩ | ⟨hdir,-⟩ := id henters
  · have hfault : faults (.write (s.fileOf fileId filename) content) ≠ none := by simp [hwrite]
    refine iff_of_false (fun hsame => ?_) (not_not_intro ⟨hstorable,henters,.inl ⟨hmissing,.inr hfault⟩⟩)
    rw [← hsame,hlookup,Function.update_of_ne fileOf_ne_dirOf.symm,Function.update_self] at hmissing
    cases hmissing
  · rw [← hdir,Function.update_eq_self] at hlookup
    rw [FileTree.eq_iff_of_update hlookup]
    constructor
    · intro hsame htrace
      obtain ⟨hmissing,-⟩ | ⟨-,-,m,hm,hother⟩ := htrace.fails
      · cases hmissing.symm.trans hdir
      · cases hwrite.symm.trans hm
        exact hother hsame
    · intro htrace
      by_contra hother
      exact htrace ⟨hstorable,henters,.inr ⟨hfile,hopen,n,hwrite,hother⟩⟩

end Outcomes

/-- **Failed saves.** In a base directory that is there, a save that raises leaves the tree as
it was exactly when it does not fail at the file in one of the two ways. -/
theorem failed_save_unchanged_iff (s : LocalStorage) (faults : StorageFaults) (d : StorageDisk) (fileId : String)
    (content : Bytes) (filename : String) (hbase : d.tree.lookup s.base = some .dir) :
    (∀ path operation original, ((s.save fileId content filename).run (storageCalls faults) d).1 =
        .error (.storage path operation original) →
      ((s.save fileId content filename).run (storageCalls faults) d).2.tree = d.tree) ↔
    ¬ s.LeavesTrace faults d fileId content filename := by
  have houtcome := run_save s faults d fileId content filename hbase
  generalize (s.save fileId content filename).run (storageCalls faults) d = r at houtcome
  cases houtcome with
  | refused h => exact iff_of_true (fun _ _ _ _ => rfl) fun htrace => h ⟨htrace.storable,htrace.enters⟩
  | notOpened hstorable henters hrefused hlookup =>
    rw [← notOpened_unchanged hstorable henters hrefused hlookup]
    exact ⟨fun h => h _ _ _ rfl,fun hsame _ _ _ _ => hsame⟩
  | torn hstorable henters hfile hopen hwrite hlookup =>
    rw [← torn_unchanged hstorable henters hfile hopen hwrite hlookup]
    exact ⟨fun h => h _ _ _ rfl,fun hsame _ _ _ _ => hsame⟩
  | saved hstorable henters hfile hopen hwrite hlookup =>
    refine iff_of_true (fun _ _ _ herror => by cases herror) fun htrace => ?_
    obtain ⟨-,hfault | hfault⟩ | ⟨-,-,n,hfault,-⟩ := htrace.fails
    · exact hfault hopen
    · exact hfault hwrite
    · cases hwrite.symm.trans hfault

end LocalStorage

section Sample

/-- A name of more than 255 bytes is too long for the system. -/
def nameTooLong : StorageFaults := fun op =>
  if ∃ name ∈ op.path, 255 < name.utf8ByteSize then some 0 else none

/-- A file name of `n` letters. -/
def letters (n : ℕ) : String := String.ofList (List.replicate n 'a')

theorem mem_letters {n : ℕ} {c : Char} (hc : c ∈ (letters n).toList) : c = 'a' := by
  rw [letters,String.toList_ofList] at hc
  exact List.eq_of_mem_replicate hc

theorem letters_bytes (n : ℕ) : (letters n).utf8ByteSize = n := by
  induction n with
  | zero => rfl
  | succ n ih =>
    have hsplit : letters (n + 1) = String.ofList ['a'] ++ letters n := by
      rw [letters,letters,List.replicate_succ,← String.ofList_append,List.singleton_append]
    have hletter : (String.ofList ['a']).utf8ByteSize = 1 := by decide
    rw [hsplit,String.utf8ByteSize_append,hletter,ih,Nat.add_comm]

theorem safeName_letters {n : ℕ} (hn : 2 < n) (fallback : String) : safeName fallback (letters n) = letters n := by
  have hne : ∀ s : String, s.utf8ByteSize ≤ 2 → letters n ≠ s := by
    rintro s hs rfl
    rw [letters_bytes] at hs
    omega
  have hother : ∀ c, c ≠ 'a' → c ∉ (letters n).toList := fun c hc hmem => hc (mem_letters hmem)
  exact LocalStorage.safeName_eq_self ⟨⟨hne "" (by decide),hne "." (by decide),hother '/' (by decide)⟩,
    hne ".." (by decide)⟩ (hother '\\' (by decide)) fallback

/-- The file cannot be opened, and the directory that was made for it stays. -/
theorem longName_leaves_dir : srvDataDisk.tree.lookup srvStorage.base = some .dir ∧
    (∃ path operation original,
      ((srvStorage.save "invoice" [37] (letters 256)).run (storageCalls nameTooLong) srvDataDisk).1 =
        .error (.storage path operation original)) ∧
    ((srvStorage.save "invoice" [37] (letters 256)).run (storageCalls nameTooLong) srvDataDisk).2.tree ≠
      srvDataDisk.tree := by
  have hid : safeName "file" "invoice" = "invoice" :=
    LocalStorage.safeName_eq_self ⟨by decide,by decide⟩ (by decide) _
  have hdir : srvStorage.dirOf "invoice" = ["invoice","data","srv"] := congrArg (· :: srvStorage.base) hid
  have hfile : srvStorage.fileOf "invoice" (letters 256) = [letters 256,"invoice","data","srv"] := by
    rw [LocalStorage.fileOf,hdir,safeName_letters (by decide) _]
  have hsize : (letters 256).utf8ByteSize = 256 := letters_bytes 256
  have hopen : nameTooLong (.openWrite (srvStorage.fileOf "invoice" (letters 256))) = some 0 :=
    if_pos ⟨letters 256,by rw [hfile]; exact List.mem_cons_self ..,by rw [hsize]; decide⟩
  have hstorable : srvStorage.Storable "invoice" (letters 256) := by
    refine ⟨by decide,?_,?_⟩
    · rw [hid]
      decide
    · rw [safeName_letters (by decide)]
      exact fun h => absurd (mem_letters h) (by decide)
  have henters : Enters nameTooLong srvDataDisk (srvStorage.dirOf "invoice") := by
    rw [hdir]
    exact .inl ⟨by decide,by decide⟩
  have hbase : srvDataDisk.tree.lookup srvStorage.base = some .dir := by decide
  refine ⟨hbase,?_⟩
  have houtcome := LocalStorage.run_save srvStorage nameTooLong srvDataDisk "invoice" [37] (letters 256) hbase
  generalize (srvStorage.save "invoice" [37] (letters 256)).run (storageCalls nameTooLong) srvDataDisk = r at houtcome
  cases houtcome with
  | refused h => exact absurd ⟨hstorable,henters⟩ h
  | @notOpened path operation original t _ _ _ hlookup =>
    refine ⟨⟨_,_,_,rfl⟩,fun hsame => ?_⟩
    have hmade := (FileTree.eq_iff_of_update hlookup).mp hsame
    rw [hdir] at hmade
    exact absurd hmade (by decide)
  | torn _ _ _ hnot => cases hopen.symm.trans hnot
  | saved _ _ _ hnot => cases hopen.symm.trans hnot

/-- A directory that cannot be made leaves the tree as it was. -/
theorem save_unmade_unchanged :
    (∃ path operation original,
      ((srvStorage.save "invoice" [37] "a.pdf").run (storageCalls fun _ => some 0) srvDataDisk).1 =
        .error (.storage path operation original)) ∧
    ((srvStorage.save "invoice" [37] "a.pdf").run (storageCalls fun _ => some 0) srvDataDisk).2.tree =
      srvDataDisk.tree := by
  have hbase : srvDataDisk.tree.lookup srvStorage.base = some .dir := by decide
  have hnot : ∀ p, ¬ Enters (fun _ => some 0) srvDataDisk p := by
    rintro p (⟨-,hfault⟩ | ⟨-,hfault⟩) <;> cases hfault
  obtain ⟨path,operation,original,hraised⟩ : ∃ path operation original,
      ((srvStorage.save "invoice" [37] "a.pdf").run (storageCalls fun _ => some 0) srvDataDisk).1 =
        .error (.storage path operation original) := by
    have houtcome := LocalStorage.run_save srvStorage (fun _ => some 0) srvDataDisk "invoice" [37] "a.pdf" hbase
    generalize (srvStorage.save "invoice" [37] "a.pdf").run (storageCalls fun _ => some 0) srvDataDisk = r at houtcome ⊢
    cases houtcome with
    | saved _ henters => exact absurd henters (hnot _)
    | _ => exact ⟨_,_,_,rfl⟩
  exact ⟨⟨path,operation,original,hraised⟩,
    (LocalStorage.failed_save_unchanged_iff srvStorage (fun _ => some 0) srvDataDisk "invoice" [37] "a.pdf" hbase).mpr
      (fun htrace => hnot _ htrace.enters) path operation original hraised⟩

end Sample

end StructuredExtractor
