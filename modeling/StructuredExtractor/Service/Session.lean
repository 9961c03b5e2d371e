import StructuredExtractor.Service.Database

/-! # The database session

The rules of an `AsyncSession` made with `expire_on_commit=False`, for a session
that works on at most one document:

* objects that were added or changed wait until a flush sends them, and what was
  flushed waits until a commit makes it durable; an attribute that is set to the
  value it has is not a change;
* a flush that fails rolls the transaction back, and the session then refuses to
  work until `rollback`; so it does when a commit fails;
* `refresh` expires the object before it selects its row, so when the select fails
  the object stays expired;
* `rollback` of an open transaction drops what was not committed, expires the
  objects that are in the database and leaves an object that never got there as it
  was built;
* reading an attribute of an expired object would have to load it, which raises
  `MissingGreenlet` outside the calls of the session.
-/
namespace StructuredExtractor

/-- The document object of a session. -/
structure Tracked where
  attributes : Document
  expired : Bool
  /-- Its row has not been committed. -/
  fresh : Bool
  deriving DecidableEq, Repr

structure Session where
  document : Option Tracked
  /-- Added or changed, and not flushed. -/
  pending : List Change
  /-- Flushed in the open transaction. -/
  flushed : List Change
  /-- Whether a transaction is open. -/
  begun : Bool
  refusing : Bool
  deriving DecidableEq

namespace Tracked

/-- The object after its transaction was rolled back. -/
def rolledBack (t : Tracked) : Tracked := if t.fresh then t else { t with expired := true }

end Tracked

namespace Session

def new : Session := ⟨none,[],[],false,false⟩

def add (s : Session) (c : Change) : Session := { s with pending := s.pending ++ [c], begun := true }

def addDocument (s : Session) (row : Document) : Session :=
  { s.add (.insertDocument row) with document := some ⟨row,false,true⟩ }

/-- `document.status = status` and `add(document)`. -/
def assignStatus (s : Session) (status : DocumentStatus) : Session :=
  match s.document with
  | none => s
  | some t =>
    let s := { s with document := some { t with attributes := { t.attributes with status } } }
    if !t.expired && t.attributes.status = status then s
    else s.add (.updateStatus t.attributes.id status)

/-- What a flush sends is part of the open transaction. -/
def flushOk (s : Session) : Session :=
  { s with pending := [], flushed := s.flushed ++ s.pending, begun := true }

def flushFailed (s : Session) : Session :=
  { s with document := s.document.map Tracked.rolledBack, pending := [], flushed := [], begun := true,
           refusing := true }

def commitOk (s : Session) : Session :=
  { s with document := s.document.map fun t => { t with fresh := false }, flushed := [], begun := false }

def commitFailed (s : Session) : Session := { s with begun := true, refusing := true }

def rollback (s : Session) : Session :=
  if s.begun then
    { s with document := s.document.map Tracked.rolledBack, pending := [], flushed := [], begun := false,
             refusing := false }
  else s

/-- The object that a select found, or nothing. -/
def selected (s : Session) (row : Option Document) : Session :=
  { s with document := row.map fun row => ⟨row,false,false⟩, begun := true }

def expireDocument (s : Session) : Session :=
  { s with document := s.document.map fun t => { t with expired := true }, begun := true }

def refreshed (s : Session) (row : Document) : Session :=
  { s with document := s.document.map fun t => { t with attributes := row, expired := false },
           begun := true }

/-- Attributes of the document, as they are read. -/
def documentAttributes (s : Session) : Except Exc Document :=
  match s.document with
  | none => .error .attributeError
  | some t => if t.expired then .error .missingGreenlet else .ok t.attributes

end Session

end StructuredExtractor
