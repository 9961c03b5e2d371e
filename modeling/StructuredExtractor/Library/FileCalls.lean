import StructuredExtractor.Library.FileTree
import StructuredExtractor.Library.Prog

/-! # Calls on a tree

The calls of a program on a tree are operations of the program. Each either does what
the tree lets it do, or fails for a reason that the tree does not show; a write that
fails may have written a part.
-/
namespace StructuredExtractor

inductive FileOp (ν β : Type)
  | mkdir (p : List ν)
  | stat (p : List ν)
  | openWrite (p : List ν)
  | write (p : List ν) (content : List β)
  | read (p : List ν)
  | unlink (p : List ν)
  | listdir (p : List ν)
  | rmdir (p : List ν)
  deriving DecidableEq

namespace FileOp
variable {ν β : Type}

/-- The reply of `stat` is whether the path is a directory. -/
def Reply : FileOp ν β → Type
  | .stat _ => Bool
  | .read _ => List β
  | .listdir _ => Finset ν
  | _ => Unit

/-- The path that a call is about. -/
def path : FileOp ν β → List ν
  | .mkdir p | .stat p | .openWrite p | .write p _ | .read p | .unlink p | .listdir p | .rmdir p => p

end FileOp

/-- The calls that fail for a reason that the tree does not show, each with how much a
write has written by then. -/
abbrev Faults (ν β : Type) := FileOp ν β → Option ℕ

/-- A tree, and the files that were opened in it. -/
structure Disk (ν β : Type) [DecidableEq ν] where
  tree : FileTree ν β
  opened : List (List ν)

namespace Disk
variable {ν β ε : Type} [DecidableEq ν]

def setTree (d : Disk ν β) (t : FileTree ν β) : Disk ν β := { d with tree := t }

@[simp] theorem setTree_tree (d : Disk ν β) (t : FileTree ν β) : (d.setTree t).tree = t := rfl
@[simp] theorem setTree_opened (d : Disk ν β) (t : FileTree ν β) : (d.setTree t).opened = d.opened := rfl

/-- The disk after a call that changed the tree or failed. -/
def after (d : Disk ν β) : Except OsError (FileTree ν β) → Except OsError Unit × Disk ν β
  | .ok t => (.ok (),d.setTree t)
  | .error e => (.error e,d)

/-- The call on the tree. A file that is written has been opened. -/
def call (d : Disk ν β) : (op : FileOp ν β) → Except OsError op.Reply × Disk ν β
  | .mkdir p => d.after (d.tree.mkdir p)
  | .stat p => (d.tree.stat p,d)
  | .openWrite p => match d.tree.setFile [] p with
    | .ok t => (.ok (),⟨t,d.opened ++ [p]⟩)
    | .error e => (.error e,d)
  | .write p content => d.after (d.tree.setFile content p)
  | .read p => match d.tree.read p with
    | .ok content => (.ok content,⟨d.tree,d.opened ++ [p]⟩)
    | .error e => (.error e,d)
  | .unlink p => d.after (d.tree.unlink p)
  | .listdir p => (d.tree.listdir p,d)
  | .rmdir p => d.after (d.tree.rmdir p)

/-- What a call that failed from outside leaves. -/
def torn (d : Disk ν β) (written : ℕ) : FileOp ν β → Disk ν β
  | .write p content => (d.after (d.tree.setFile (content.take written) p)).2
  | _ => d

/-- A call, whose failures are raised as the exceptions of the program. -/
def handler (raise : OsError → ε) (faults : Faults ν β) : Handler (FileOp.Reply : FileOp ν β → Type) ε (Disk ν β)
  | op, d => match faults op with
    | some written => (.error (raise .other),d.torn written op)
    | none => ((d.call op).1.mapError raise,(d.call op).2)

variable {d : Disk ν β} {raise : OsError → ε} {faults : Faults ν β} {op : FileOp ν β}

theorem handler_fault {n : ℕ} (h : faults op = some n) :
    handler raise faults op d = (.error (raise .other),d.torn n op) := by
  rw [handler,h]

theorem handler_call (h : faults op = none) :
    handler raise faults op d = ((d.call op).1.mapError raise,(d.call op).2) := by
  rw [handler,h]

end Disk

/-- What a call may do to the tree, besides nothing. -/
inductive FileOp.Effect {ν β : Type} [DecidableEq ν] (t : FileTree ν β) : FileOp ν β → FileTree ν β → Prop
  | none {op} : Effect t op t
  | mkdir {p t'} : t.lookup p = .none → t.lookup p.tail = some .dir →
      t'.lookup = Function.update t.lookup p (some .dir) → Effect t (.mkdir p) t'
  | openWrite {p t'} : t.lookup p ≠ some .dir → t.lookup p.tail = some .dir →
      t'.lookup = Function.update t.lookup p (some (.file [])) → Effect t (.openWrite p) t'
  | write {p content written t'} : t.lookup p ≠ some .dir → t.lookup p.tail = some .dir →
      t'.lookup = Function.update t.lookup p (some (.file written)) → Effect t (.write p content) t'
  | unlink {p t'} : t.lookup p ≠ some .dir → t.lookup p ≠ .none →
      t'.lookup = Function.update t.lookup p .none → Effect t (.unlink p) t'
  | rmdir {p t'} : p ≠ [] → t.lookup p = some .dir → (∀ n, t.lookup (n :: p) = .none) →
      t'.lookup = Function.update t.lookup p .none → Effect t (.rmdir p) t'

namespace Disk
variable {ν β ε : Type} [DecidableEq ν] {d : Disk ν β} {raise : OsError → ε} {faults : Faults ν β} {op : FileOp ν β}

/-- A call that changes the tree or fails has the effect of the change, or none. -/
theorem after_effect {r : Except OsError (FileTree ν β)} (h : ∀ t, r = .ok t → FileOp.Effect d.tree op t) :
    FileOp.Effect d.tree op (d.after r).2.tree := by
  cases r with
  | ok t => exact h t rfl
  | error e => exact .none

/-- Every call has its effect on the tree, or none. -/
theorem handler_effect : FileOp.Effect d.tree op (handler raise faults op d).2.tree := by
  have hwrite : ∀ p content written,
      FileOp.Effect d.tree (.write p content) (d.after (d.tree.setFile written p)).2.tree :=
    fun p content written => after_effect fun t ht =>
      have ⟨hp,htail,hlookup⟩ := FileTree.setFile_eq_ok.mp ht
      .write hp htail hlookup
  cases h : faults op with
  | some n =>
    rw [handler_fault h]
    cases op with
    | write p content => exact hwrite p content _
    | _ => exact .none
  | none =>
    rw [handler_call h]
    cases op with
    | mkdir p =>
      refine after_effect fun t ht => ?_
      obtain ⟨hp,htail,hlookup⟩ := FileTree.mkdir_eq_ok.mp ht
      exact .mkdir hp htail hlookup
    | openWrite p =>
      dsimp only [call]
      cases ht : d.tree.setFile [] p with
      | error e => exact .none
      | ok t =>
        obtain ⟨hp,htail,hlookup⟩ := FileTree.setFile_eq_ok.mp ht
        exact .openWrite hp htail hlookup
    | write p content => exact hwrite p content content
    | unlink p =>
      refine after_effect fun t ht => ?_
      obtain ⟨hp,htail,hlookup⟩ := FileTree.unlink_eq_ok.mp ht
      exact .unlink hp htail hlookup
    | rmdir p =>
      refine after_effect fun t ht => ?_
      obtain ⟨hp,hdir,hempty,hlookup⟩ := FileTree.rmdir_eq_ok.mp ht
      exact .rmdir hp hdir hempty hlookup
    | read p =>
      dsimp only [call]
      cases d.tree.read p <;> exact .none
    | stat p => exact .none
    | listdir p => exact .none

/-- The files that are opened are those that are read or opened to be written. -/
theorem handler_opened : (handler raise faults op d).2.opened = d.opened ∨ ∃ p,
    (op = .openWrite p ∨ op = .read p ∧ ∃ content, d.tree.lookup p = some (.file content)) ∧
      (handler raise faults op d).2.opened = d.opened ++ [p] := by
  have hafter : ∀ r, (d.after r).2.opened = d.opened := fun r => by cases r <;> rfl
  cases h : faults op with
  | some n =>
    rw [handler_fault h]
    cases op with
    | write p content => exact .inl (hafter _)
    | _ => exact .inl rfl
  | none =>
    rw [handler_call h]
    cases op with
    | openWrite p =>
      dsimp only [call]
      cases d.tree.setFile [] p with
      | ok t => exact .inr ⟨p,.inl rfl,rfl⟩
      | error e => exact .inl rfl
    | read p =>
      dsimp only [call]
      cases hread : d.tree.read p with
      | ok content => exact .inr ⟨p,.inr ⟨rfl,content,FileTree.read_eq_ok.mp hread⟩,rfl⟩
      | error e => exact .inl rfl
    | stat p => exact .inl rfl
    | listdir p => exact .inl rfl
    | _ => exact .inl (hafter _)

end Disk

end StructuredExtractor
