import Mathlib.Data.Stream.Init
import Mathlib.Data.List.Basic

/-! # Units of work

The session of an object-relational mapper, as a unit of work: what is added waits until
a flush sends it, what was sent waits until a commit makes it durable. A flush that
fails drops everything, a commit that fails leaves what was sent, and after either the
unit refuses to work until it is rolled back. Which calls fail is given by a stream.
-/
namespace StructuredExtractor

structure UnitOfWork (χ ε : Type) where
  pending : List χ
  flushed : List χ
  refusing : Bool
  begun : Bool
  /-- How the next calls of the database end. -/
  calls : Stream' (Option ε)

namespace UnitOfWork
variable {χ ε : Type}

def new (calls : Stream' (Option ε)) : UnitOfWork χ ε := ⟨[],[],false,false,calls⟩

def add (u : UnitOfWork χ ε) (x : χ) : UnitOfWork χ ε := { u with pending := u.pending ++ [x], begun := true }

/-- After a call of the database. -/
def called (u : UnitOfWork χ ε) : UnitOfWork χ ε := { u with begun := true, calls := u.calls.tail }

variable (refused : ε)

/-- Nothing when nothing waits, else a call. -/
def flush (u : UnitOfWork χ ε) : Except ε Unit × UnitOfWork χ ε :=
  if u.pending.isEmpty then (.ok (),u)
  else if u.refusing then (.error refused,u)
  else match u.calls.head with
    | none => (.ok (),{ u.called with pending := [], flushed := u.flushed ++ u.pending })
    | some e => (.error e,{ u.called with pending := [], flushed := [], refusing := true })

/-- A call that flushes first. -/
def call (u : UnitOfWork χ ε) : Except ε Unit × UnitOfWork χ ε :=
  match u.flush refused with
  | (.error e,u) => (.error e,u)
  | (.ok (),u) =>
    if u.refusing then (.error refused,u)
    else match u.calls.head with
      | none => (.ok (),u.called)
      | some e => (.error e,u.called)

/-- What a commit makes durable. It makes no call where no transaction is open. -/
def commit (u : UnitOfWork χ ε) : Except ε (List χ) × UnitOfWork χ ε :=
  match u.flush refused with
  | (.error e,u) => (.error e,u)
  | (.ok (),u) =>
    if u.refusing then (.error refused,u)
    else if u.begun = false then (.ok u.flushed,{ u with flushed := [] })
    else match u.calls.head with
      | none => (.ok u.flushed,{ u.called with flushed := [], begun := false })
      | some e => (.error e,{ u.called with refusing := true })

def rollback (u : UnitOfWork χ ε) : UnitOfWork χ ε :=
  if u.begun then { u with pending := [], flushed := [], refusing := false, begun := false } else u

variable {refused} {u : UnitOfWork χ ε}

/-- Nothing waits and nothing was sent. -/
structure Emptied (u : UnitOfWork χ ε) : Prop where
  pending : u.pending = []
  flushed : u.flushed = []

theorem Emptied.rollback (h : u.Emptied) : u.rollback.Emptied := by
  unfold UnitOfWork.rollback
  split
  · exact ⟨rfl,rfl⟩
  · exact h

/-- Then a commit makes nothing durable, however it ends. -/
theorem Emptied.commit (refused : ε) (h : u.Emptied) :
    (u.commit refused).2.Emptied ∧ ∀ rows, (u.commit refused).1 = .ok rows → rows = [] := by
  obtain ⟨hpending,hflushed⟩ := h
  have hflush : u.flush refused = (.ok (),u) := by rw [UnitOfWork.flush,hpending]; rfl
  unfold UnitOfWork.commit
  rw [hflush]
  dsimp only
  split
  · exact ⟨⟨hpending,hflushed⟩,fun _ h => by cases h⟩
  · split
    · exact ⟨⟨hpending,rfl⟩,fun _ h => (Except.ok.inj h).symm.trans hflushed⟩
    · cases u.calls.head with
      | none => exact ⟨⟨hpending,rfl⟩,fun _ h => (Except.ok.inj h).symm.trans hflushed⟩
      | some e => exact ⟨⟨hpending,hflushed⟩,fun _ h => by cases h⟩

/-- Nothing waits to be sent, `rows` were sent in a transaction that is open, and the
`n`-th call of the stream is next. -/
structure Ready (u : UnitOfWork χ ε) (calls : Stream' (Option ε)) (n : ℕ) (rows : List χ) : Prop where
  pending : u.pending = []
  flushed : u.flushed = rows
  refusing : u.refusing = false
  begun : rows ≠ [] → u.begun = true
  calls : u.calls = calls.drop n

section Ready
variable {calls : Stream' (Option ε)} {n : ℕ} {rows : List χ} {e : ε}

theorem ready_new (calls : Stream' (Option ε)) : (new calls : UnitOfWork χ ε).Ready calls 0 [] :=
  ⟨rfl,rfl,rfl,fun h => absurd rfl h,rfl⟩

theorem Ready.emptied (h : u.Ready calls n []) : u.Emptied := ⟨h.pending,h.flushed⟩

theorem Ready.head (h : u.Ready calls n rows) : u.calls.head = calls.get n := by
  rw [h.calls,Stream'.head_drop]

theorem Ready.flush (h : u.Ready calls n rows) : u.flush refused = (.ok (),u) := by
  rw [UnitOfWork.flush,h.pending]
  rfl

theorem Ready.called (h : u.Ready calls n rows) : u.called.Ready calls (n + 1) rows :=
  ⟨h.pending,h.flushed,h.refusing,fun _ => rfl,by show u.calls.tail = _; rw [h.calls,Stream'.tail_drop']⟩

theorem Ready.call_ok (h : u.Ready calls n rows) (hn : calls.get n = none) : u.call refused = (.ok (),u.called) := by
  simp only [UnitOfWork.call,h.flush,h.refusing,h.head,hn,Bool.false_eq_true,if_false]

theorem Ready.call_error (h : u.Ready calls n rows) (hn : calls.get n = some e) :
    u.call refused = (.error e,u.called) := by
  simp only [UnitOfWork.call,h.flush,h.refusing,h.head,hn,Bool.false_eq_true,if_false]

theorem Ready.commit_ok (refused : ε) (h : u.Ready calls n rows) (hrows : rows ≠ []) (hn : calls.get n = none) :
    ∃ u', u.commit refused = (.ok rows,u') ∧ u'.Ready calls (n + 1) [] := by
  refine ⟨{ u.called with flushed := [], begun := false },?_,h.pending,rfl,h.refusing,fun h => absurd rfl h,
    h.called.calls⟩
  simp only [UnitOfWork.commit,h.flush,h.refusing,h.begun hrows,h.head,hn,h.flushed,Bool.true_eq_false,
    Bool.false_eq_true,if_false]

theorem Ready.commit_error (refused : ε) (h : u.Ready calls n rows) (hrows : rows ≠ []) (hn : calls.get n = some e) :
    ∃ u', u.commit refused = (.error e,u') := by
  refine ⟨{ u.called with refusing := true },?_⟩
  simp only [UnitOfWork.commit,h.flush,h.refusing,h.begun hrows,h.head,hn,Bool.true_eq_false,Bool.false_eq_true,
    if_false]

/-- What was added is sent by the next flush. -/
theorem Ready.add_flush_ok (refused : ε) (h : u.Ready calls n rows) (x : χ) (hn : calls.get n = none) :
    ∃ u', (u.add x).flush refused = (.ok (),u') ∧ u'.Ready calls (n + 1) (rows ++ [x]) := by
  refine ⟨{ (u.add x).called with pending := [], flushed := u.flushed ++ [x] },?_,rfl,by rw [h.flushed],h.refusing,
    fun _ => rfl,h.called.calls⟩
  simp [UnitOfWork.flush,add,h.pending,h.refusing,h.head,hn]

theorem Ready.add_flush_error (refused : ε) (h : u.Ready calls n rows) (x : χ) (hn : calls.get n = some e) :
    ∃ u', (u.add x).flush refused = (.error e,u') := by
  refine ⟨{ (u.add x).called with pending := [], flushed := [], refusing := true },?_⟩
  simp [UnitOfWork.flush,add,h.pending,h.refusing,h.head,hn]

end Ready

end UnitOfWork

end StructuredExtractor
