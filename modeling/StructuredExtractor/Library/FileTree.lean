import Mathlib.Data.Finmap
import Mathlib.Data.Finset.Union
import Mathlib.Logic.Function.Basic

/-! # Directory trees

A tree is kept by its paths, each a directory or a file with its content. A path runs
from its last name to the root, so that the parent of a path is its tail. What a path
of a tree is in is a directory, and there are no links.
-/
namespace StructuredExtractor

inductive Entry (β : Type)
  | dir
  | file (content : List β)
  deriving DecidableEq, Repr

/-- The content of a file; a directory has none. -/
@[simp] def Entry.content {β : Type} : Entry β → Option (List β)
  | .dir => none
  | .file content => some content

/-- Why a call on a tree fails. `other` stands for the reasons that the tree does not
show: permissions, no space, a name that is too long. -/
inductive OsError
  | fileNotFound
  | fileExists
  | notADirectory
  | isADirectory
  | notEmpty
  | busy
  | other
  deriving DecidableEq, Repr

structure FileTree (ν β : Type) [DecidableEq ν] where
  entries : Finmap fun _ : List ν => Entry β
  root : entries.lookup [] = some .dir
  parent : ∀ n p, entries.lookup (n :: p) ≠ none → entries.lookup p = some .dir

namespace FileTree
variable {ν β : Type} [DecidableEq ν] (t : FileTree ν β)

def lookup (p : List ν) : Option (Entry β) := t.entries.lookup p

/-- The content of the file at a path. -/
def fileAt (p : List ν) : Option (List β) := (t.lookup p).bind Entry.content

def isDir (p : List ν) : Bool :=
  match t.lookup p with
  | some .dir => true
  | _ => false

variable {t}

theorem ext_lookup {t t' : FileTree ν β} (h : t.lookup = t'.lookup) : t = t' := by
  obtain ⟨es,_,_⟩ := t
  obtain ⟨es',_,_⟩ := t'
  obtain rfl : es = es' := Finmap.ext_lookup (congrFun h)
  rfl

/-- A change at a path is none exactly when what it puts there was there. -/
theorem eq_iff_of_update {t t' : FileTree ν β} {p : List ν} {e : Option (Entry β)}
    (h : t'.lookup = Function.update t.lookup p e) : t' = t ↔ t.lookup p = e := by
  constructor
  · rintro rfl
    rw [h,Function.update_self]
  · rintro rfl
    exact ext_lookup (h.trans (Function.update_eq_self p t.lookup))

theorem lookup_nil (t : FileTree ν β) : t.lookup [] = some .dir := t.root

theorem lookup_parent {n : ν} {p : List ν} (h : t.lookup (n :: p) ≠ none) : t.lookup p = some .dir :=
  t.parent n p h

theorem lookup_tail {p : List ν} (h : t.lookup p ≠ none) : t.lookup p.tail = some .dir := by
  cases p with
  | nil => exact t.lookup_nil
  | cons n p => exact lookup_parent h

theorem isDir_iff {p : List ν} : t.isDir p = true ↔ t.lookup p = some .dir := by
  unfold isDir
  split <;> simp_all

theorem fileAt_eq_some {p : List ν} {content : List β} :
    t.fileAt p = some content ↔ t.lookup p = some (.file content) := by
  unfold fileAt
  cases t.lookup p with
  | none => simp
  | some e => cases e <;> simp

theorem fileAt_congr {t t' : FileTree ν β} {p : List ν} (h : t'.lookup p = t.lookup p) :
    t'.fileAt p = t.fileAt p := by
  rw [fileAt,h,fileAt]

/-- The files that a change of one path leaves. -/
theorem fileAt_of_update {t t' : FileTree ν β} {p : List ν} {e : Option (Entry β)}
    (h : t'.lookup = Function.update t.lookup p e) :
    t'.fileAt = Function.update t.fileAt p (e.bind Entry.content) := by
  have hcomp : t'.fileAt = (·.bind Entry.content) ∘ Function.update t.lookup p e := by
    rw [← h]
    rfl
  rw [hcomp,Function.comp_update]
  rfl

/-- A path that has no file keeps none. -/
theorem fileAt_of_update_none {t t' : FileTree ν β} {p : List ν} {e : Option (Entry β)}
    (h : t'.lookup = Function.update t.lookup p e) (hp : t.fileAt p = none) (he : e.bind Entry.content = none) :
    t'.fileAt = t.fileAt := by
  rw [fileAt_of_update h,he,← hp,Function.update_eq_self]

/-- There is nothing in what is no directory. -/
theorem childless {p : List ν} (h : t.lookup p ≠ some .dir) (n : ν) : t.lookup (n :: p) = none := by
  by_contra hn
  exact h (lookup_parent hn)

/-- A tree that has its root only. -/
def empty : FileTree ν β where
  entries := Finmap.singleton [] .dir
  root := Finmap.lookup_singleton_eq
  parent n p h := by
    have hmem : (n :: p) ∈ Finmap.singleton (β := fun _ : List ν => Entry β) [] Entry.dir := by
      rwa [ne_eq,Finmap.lookup_eq_none,not_not] at h
    exact absurd ((Finmap.mem_singleton _ _ _).mp hmem) (List.cons_ne_nil n p)

section Changes
variable (t)

/-- A directory or a file is put where no directory is. -/
def put (n : ν) (p : List ν) (e : Entry β) (hp : t.lookup p = some .dir) (hn : t.lookup (n :: p) ≠ some .dir) :
    FileTree ν β where
  entries := t.entries.insert (n :: p) e
  root := (Finmap.lookup_insert_of_ne _ (List.cons_ne_nil n p).symm).trans t.root
  parent m q h := by
    by_cases hq : q = n :: p
    · subst hq
      rw [Finmap.lookup_insert_of_ne _ (List.cons_ne_self m (n :: p))] at h
      exact absurd (t.parent m _ h) hn
    · rw [Finmap.lookup_insert_of_ne _ hq]
      by_cases hm : m :: q = n :: p
      · cases hm
        exact hp
      · rw [Finmap.lookup_insert_of_ne _ hm] at h
        exact t.parent m q h

theorem lookup_put {n : ν} {p : List ν} {e : Entry β} (hp : t.lookup p = some .dir)
    (hn : t.lookup (n :: p) ≠ some .dir) :
    (t.put n p e hp hn).lookup = Function.update t.lookup (n :: p) (some e) := by
  funext q
  by_cases hq : q = n :: p
  · subst hq
    rw [Function.update_self]
    exact Finmap.lookup_insert _
  · rw [Function.update_of_ne hq]
    exact Finmap.lookup_insert_of_ne _ hq

/-- What has nothing below it is taken away. -/
def remove (n : ν) (p : List ν) (h : ∀ m, t.lookup (m :: n :: p) = none) : FileTree ν β where
  entries := t.entries.erase (n :: p)
  root := (Finmap.lookup_erase_ne (List.cons_ne_nil n p).symm).trans t.root
  parent m q hm := by
    have hmq : m :: q ≠ n :: p := fun heq => hm (heq ▸ Finmap.lookup_erase _ _)
    rw [Finmap.lookup_erase_ne hmq] at hm
    have hq : q ≠ n :: p := fun heq => hm (heq ▸ h m)
    rw [Finmap.lookup_erase_ne hq]
    exact t.parent m q hm

theorem lookup_remove {n : ν} {p : List ν} (h : ∀ m, t.lookup (m :: n :: p) = none) :
    (t.remove n p h).lookup = Function.update t.lookup (n :: p) none := by
  funext q
  by_cases hq : q = n :: p
  · subst hq
    rw [Function.update_self]
    exact Finmap.lookup_erase _ _
  · rw [Function.update_of_ne hq]
    exact Finmap.lookup_erase_ne hq

/-- The names in a directory. -/
def names (p : List ν) : Finset ν :=
  t.entries.keys.biUnion fun q => match q with
    | n :: p' => if p' = p then {n} else ∅
    | [] => ∅

theorem mem_names {n : ν} {p : List ν} : n ∈ t.names p ↔ t.lookup (n :: p) ≠ none := by
  rw [names,Finset.mem_biUnion,lookup,ne_eq,Finmap.lookup_eq_none,not_not]
  constructor
  · rintro ⟨q,hq,hn⟩
    cases q with
    | nil => cases hn
    | cons m p' =>
      dsimp only at hn
      split at hn
      · next hp =>
        obtain rfl := Finset.mem_singleton.mp hn
        exact hp ▸ Finmap.mem_keys.mp hq
      · cases hn
  · intro h
    refine ⟨n :: p,Finmap.mem_keys.mpr h,?_⟩
    dsimp only
    rw [if_pos rfl]
    exact Finset.mem_singleton_self n

theorem names_eq_empty {p : List ν} : t.names p = ∅ ↔ ∀ n, t.lookup (n :: p) = none := by
  rw [Finset.eq_empty_iff_forall_notMem]
  exact forall_congr' fun n => by rw [mem_names,not_not]

end Changes

section Calls
variable (t)

/-- Why nothing is at a path: what it is in is missing, or is a file on the way. -/
def absence : List ν → OsError
  | [] => .fileNotFound
  | _ :: p => match t.lookup p with
    | some .dir => .fileNotFound
    | some (.file _) => .notADirectory
    | none => absence p

def mkdir : List ν → Except OsError (FileTree ν β)
  | [] => .error .fileExists
  | n :: p =>
    if hn : t.lookup (n :: p) = none then
      if hp : t.isDir p then .ok (t.put n p .dir (isDir_iff.mp hp) (by simp [hn]))
      else .error (t.absence (n :: p))
    else .error .fileExists

/-- The file at a path has this content afterwards, whether it was there or not. -/
def setFile (content : List β) : List ν → Except OsError (FileTree ν β)
  | [] => .error .isADirectory
  | n :: p =>
    if hn : t.isDir (n :: p) then .error .isADirectory
    else if hp : t.isDir p then .ok (t.put n p (.file content) (isDir_iff.mp hp) (mt isDir_iff.mpr hn))
    else .error (t.absence (n :: p))

def unlink : List ν → Except OsError (FileTree ν β)
  | [] => .error .isADirectory
  | n :: p =>
    if h : t.isDir (n :: p) then .error .isADirectory
    else if t.lookup (n :: p) = none then .error (t.absence (n :: p))
    else .ok (t.remove n p (childless (mt isDir_iff.mpr h)))

def listdir (p : List ν) : Except OsError (Finset ν) :=
  match t.lookup p with
  | some .dir => .ok (t.names p)
  | some (.file _) => .error .notADirectory
  | none => .error (t.absence p)

def rmdir : List ν → Except OsError (FileTree ν β)
  | [] => .error .busy
  | n :: p => match t.lookup (n :: p) with
    | some .dir =>
      if h : t.names (n :: p) = ∅ then .ok (t.remove n p (t.names_eq_empty.mp h)) else .error .notEmpty
    | some (.file _) => .error .notADirectory
    | none => .error (t.absence (n :: p))

def read (p : List ν) : Except OsError (List β) :=
  match t.lookup p with
  | some (.file content) => .ok content
  | some .dir => .error .isADirectory
  | none => .error (t.absence p)

/-- Whether a path is a directory, when it is there. -/
def stat (p : List ν) : Except OsError Bool :=
  match t.lookup p with
  | some .dir => .ok true
  | some (.file _) => .ok false
  | none => .error (t.absence p)

variable {t} {t' : FileTree ν β} {p : List ν}

theorem lookup_eq_iff {f : List ν → Option (Entry β)} {t₁ : FileTree ν β} (h : t₁.lookup = f) :
    (Except.ok t₁ : Except OsError (FileTree ν β)) = .ok t' ↔ t'.lookup = f := by
  rw [Except.ok.injEq]
  exact ⟨fun heq => heq ▸ h,fun ht => ext_lookup (h.trans ht.symm)⟩

theorem mkdir_eq_ok : t.mkdir p = .ok t' ↔ t.lookup p = none ∧ t.lookup p.tail = some .dir ∧
    t'.lookup = Function.update t.lookup p (some .dir) := by
  cases p with
  | nil => simp [mkdir,lookup_nil]
  | cons n p =>
    rw [mkdir]
    by_cases hn : t.lookup (n :: p) = none
    · by_cases hp : t.isDir p = true
      · rw [dif_pos hn,dif_pos hp,lookup_eq_iff (t.lookup_put _ _)]
        simp [hn,isDir_iff.mp hp]
      · rw [dif_pos hn,dif_neg hp]
        simp [mt isDir_iff.mpr hp]
    · rw [dif_neg hn]
      simp [hn]

theorem setFile_eq_ok {content : List β} : t.setFile content p = .ok t' ↔ t.lookup p ≠ some .dir ∧
    t.lookup p.tail = some .dir ∧ t'.lookup = Function.update t.lookup p (some (.file content)) := by
  cases p with
  | nil => simp [setFile,lookup_nil]
  | cons n p =>
    rw [setFile]
    by_cases hn : t.isDir (n :: p) = true
    · rw [dif_pos hn]
      simp [isDir_iff.mp hn]
    · by_cases hp : t.isDir p = true
      · rw [dif_neg hn,dif_pos hp,lookup_eq_iff (t.lookup_put _ _)]
        simp [mt isDir_iff.mpr hn,isDir_iff.mp hp]
      · rw [dif_neg hn,dif_neg hp]
        simp [mt isDir_iff.mpr hp]

theorem unlink_eq_ok : t.unlink p = .ok t' ↔ t.lookup p ≠ some .dir ∧ t.lookup p ≠ none ∧
    t'.lookup = Function.update t.lookup p none := by
  cases p with
  | nil => simp [unlink,lookup_nil]
  | cons n p =>
    rw [unlink]
    by_cases hd : t.isDir (n :: p) = true
    · rw [dif_pos hd]
      simp [isDir_iff.mp hd]
    · by_cases hn : t.lookup (n :: p) = none
      · rw [dif_neg hd,if_pos hn]
        simp [hn]
      · rw [dif_neg hd,if_neg hn,lookup_eq_iff (t.lookup_remove _)]
        simp [mt isDir_iff.mpr hd,hn]

theorem rmdir_eq_ok : t.rmdir p = .ok t' ↔ p ≠ [] ∧ t.lookup p = some .dir ∧ (∀ n, t.lookup (n :: p) = none) ∧
    t'.lookup = Function.update t.lookup p none := by
  cases p with
  | nil => simp [rmdir]
  | cons n p =>
    rw [rmdir]
    cases h : t.lookup (n :: p) with
    | none => simp
    | some e =>
      cases e with
      | file content => simp
      | dir =>
        by_cases hnames : t.names (n :: p) = ∅
        · simp only [dif_pos hnames,lookup_eq_iff (t.lookup_remove (t.names_eq_empty.mp hnames))]
          simp [t.names_eq_empty.mp hnames]
        · simp [hnames,mt t.names_eq_empty.mpr hnames]

theorem exists_mkdir (h : t.lookup p = none) (htail : t.lookup p.tail = some .dir) : ∃ t', t.mkdir p = .ok t' := by
  cases p with
  | nil => cases t.lookup_nil.symm.trans h
  | cons n p =>
    have hp : t.isDir p = true := isDir_iff.mpr htail
    exact ⟨_,by rw [mkdir,dif_pos h,dif_pos hp]⟩

theorem exists_setFile (content : List β) (h : t.lookup p ≠ some .dir) (htail : t.lookup p.tail = some .dir) :
    ∃ t', t.setFile content p = .ok t' := by
  cases p with
  | nil => exact absurd t.lookup_nil h
  | cons n p =>
    have hp : t.isDir p = true := isDir_iff.mpr htail
    exact ⟨_,by rw [setFile,dif_neg (mt isDir_iff.mp h),dif_pos hp]⟩

theorem exists_unlink (h : t.lookup p ≠ some .dir) (hne : t.lookup p ≠ none) : ∃ t', t.unlink p = .ok t' := by
  cases p with
  | nil => exact absurd t.lookup_nil h
  | cons n p => exact ⟨_,by rw [unlink,dif_neg (mt isDir_iff.mp h),if_neg hne]⟩

theorem mkdir_exists (h : t.lookup p ≠ none) : t.mkdir p = .error .fileExists := by
  cases p with
  | nil => rfl
  | cons n p => rw [mkdir,dif_neg h]

theorem setFile_dir {content : List β} (h : t.lookup p = some .dir) : t.setFile content p = .error .isADirectory := by
  cases p with
  | nil => rfl
  | cons n p => rw [setFile,dif_pos (isDir_iff.mpr h)]

theorem unlink_dir (h : t.lookup p = some .dir) : t.unlink p = .error .isADirectory := by
  cases p with
  | nil => rfl
  | cons n p => rw [unlink,dif_pos (isDir_iff.mpr h)]

theorem exists_rmdir (hp : p ≠ []) (h : t.lookup p = some .dir) (hempty : ∀ n, t.lookup (n :: p) = none) :
    ∃ t', t.rmdir p = .ok t' := by
  cases p with
  | nil => exact absurd rfl hp
  | cons n p =>
    refine ⟨t.remove n p hempty,?_⟩
    simp only [rmdir,h,dif_pos (t.names_eq_empty.mpr hempty)]

theorem read_eq_ok {content : List β} : t.read p = .ok content ↔ t.lookup p = some (.file content) := by
  unfold read
  cases t.lookup p with
  | none => simp
  | some e => cases e <;> simp

theorem listdir_eq_ok {ns : Finset ν} : t.listdir p = .ok ns ↔ t.lookup p = some .dir ∧ t.names p = ns := by
  unfold listdir
  cases t.lookup p with
  | none => simp
  | some e => cases e <;> simp

/-- A call on a path that is not there says so, in one of two ways. -/
theorem absence_missing (t : FileTree ν β) (p : List ν) :
    t.absence p = .fileNotFound ∨ t.absence p = .notADirectory := by
  induction p with
  | nil => exact .inl rfl
  | cons n p ih =>
    unfold absence
    cases t.lookup p with
    | none => exact ih
    | some e => cases e <;> simp

end Calls

end FileTree

end StructuredExtractor
