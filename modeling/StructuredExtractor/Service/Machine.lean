import StructuredExtractor.Extraction.Processor
import StructuredExtractor.Service.Session

/-! # Runs of the service and what they share

A run works in its own session; the durable database, the stored files and the job
queue are shared. Everything that a run cannot know beforehand (failures, the
parsed file, the provider's replies, clocks) is fixed in its environment, so each
operation is a function of the run and of what is shared. Every change of what is
shared is an action, and the actions are kept.
-/
namespace StructuredExtractor

/-- A job of the queue. `origin` is the run that enqueued it, for the history. -/
structure Job where
  documentId : UuidText
  docType : Option String
  strategy : Option String
  origin : ℕ
  deriving DecidableEq, Repr

inductive Action
  | save (path : StoragePath) (content : Bytes)
  | delete (path : StoragePath)
  | commit (changes : List Change)
  | enqueue (job : Job)
  deriving DecidableEq

/-- What the runs share. `log` has all actions, with the runs that did them. -/
structure World where
  db : Database
  files : StoragePath → Option Bytes
  queue : List Job
  log : List (ℕ × Action)

namespace World

/-- What a run's action does to what is shared. -/
def act (w : World) (run : ℕ) (a : Action) : World :=
  let w := { w with log := w.log ++ [(run,a)] }
  match a with
  | .save path content => { w with files := Function.update w.files path (some content) }
  | .delete path => { w with files := Function.update w.files path none }
  | .commit changes => { w with db := w.db.applyAll changes }
  | .enqueue job => { w with queue := w.queue ++ [job] }

/-- The actions of one run, in order. -/
def trace (w : World) (run : ℕ) : List Action :=
  w.log.filterMap fun p => if p.1 = run then some p.2 else none

@[simp] theorem trace_act_self (w : World) (run : ℕ) (a : Action) :
    (w.act run a).trace run = w.trace run ++ [a] := by
  cases a <;> simp [act,trace]

theorem trace_act_other (w : World) {run run' : ℕ} (h : run ≠ run') (a : Action) :
    (w.act run a).trace run' = w.trace run' := by
  cases a <;> simp [act,trace,h]

theorem documents_act {w : World} {id : Uuid} (h : (w.db.documents id).isSome) (run : ℕ) (a : Action) :
    ((w.act run a).db.documents id).isSome := by
  cases a with
  | commit changes => exact Database.documents_applyAll h changes
  | _ => exact h

end World

/-- What `pymupdf` makes of the bytes; a page whose text cannot be read is `none`. -/
inductive PdfFile
  | unreadable
  | pages (texts : List (Option String))
  deriving DecidableEq, Repr

/-- What the outside does in one run: for every call the next of each stream. -/
structure Env where
  db : Stream' (Option Exc)
  storage : Stream' (Option Exc)
  openPdf : Stream' (Bytes → Except Exc PdfFile)
  enqueue : Stream' (Except Exc String)
  now : Stream' Time
  model : ModelEnv

/-- The state of one run. The last two are its history: the calls of the processor
with their results, and the documents it started to process itself. -/
structure Local where
  run : ℕ
  drawn : ℕ
  session : Session
  env : Env
  processed : List (ProcessingInput × Except Exc DocumentProcessingResult)
  started : List Uuid

def Local.start (run : ℕ) (env : Env) : Local := ⟨run,0,.new,env,[],[]⟩

/-- The operations of the service. -/
inductive ServiceOp
  | selectDocument (id : Uuid)
  | addDocument (row : Document)
  | assignStatus (status : DocumentStatus)
  | addExtraction (row : Extraction)
  | addUsage (row : LLMUsage)
  | flush
  | commit
  | rollback
  | refreshDocument
  | refreshExtraction (id : Uuid)
  | documentAttributes
  | save (fileId : UuidText) (content : Bytes) (filename : String)
  | load (path : StoragePath)
  | delete (path : StoragePath)
  | openPdf (content : Bytes)
  | enqueueJob (documentId : UuidText) (docType strategy : Option String)
  | uuid4
  | now
  | monotonic
  | processPages (input : ProcessingInput)
  /-- No operation of the code: the run starts to process the document itself. -/
  | startRun (id : Uuid)

def ServiceOp.Reply : ServiceOp → Type
  | .selectDocument _ => Option Document
  | .documentAttributes => Document
  | .save _ _ _ => StoragePath
  | .load _ => Bytes
  | .openPdf _ => PdfFile
  | .enqueueJob _ _ _ => String
  | .uuid4 => Uuid
  | .now => Time
  | .monotonic => ℚ
  | .processPages _ => DocumentProcessingResult
  | _ => Unit

abbrev ServiceProg (α : Type) := Prog ServiceOp.Reply Exc α

namespace Local

def setSession (l : Local) (s : Session) : Local := { l with session := s }

/-- The run after a database call. -/
def calledDb (l : Local) : Local := { l with env := { l.env with db := l.env.db.tail } }

/-- A flush: nothing when nothing waits, else a database call. -/
def flush (l : Local) : Except Exc Unit × Local :=
  if l.session.pending = [] then (.ok (),l)
  else if l.session.refusing then (.error .pendingRollback,l)
  else match l.env.db.head with
    | none => (.ok (),l.calledDb.setSession l.session.flushOk)
    | some e => (.error e,l.calledDb.setSession l.session.flushFailed)

/-- A database call that flushes first; `failed` is what its own failure leaves. -/
def call (l : Local) (failed : Session → Session) : Except Exc Unit × Local :=
  match l.flush with
  | (.error e,l) => (.error e,l)
  | (.ok (),l) =>
    if l.session.refusing then (.error .pendingRollback,l)
    else match l.env.db.head with
      | none => (.ok (),l.calledDb)
      | some e => (.error e,l.calledDb.setSession (failed l.session))

/-- A commit: nothing when no transaction is open, else a database call. -/
def commit (l : Local) : Except Exc Unit × Local :=
  if l.session.begun = false ∧ l.session.pending = [] then (.ok (),l) else l.call Session.commitFailed

section Calls
variable {l : Local}

theorem flush_idle (h : l.session.pending = []) : l.flush = (.ok (),l) := by simp [flush,h]

theorem flush_ok (hp : l.session.pending ≠ []) (hr : l.session.refusing = false)
    (hdb : l.env.db.head = none) : l.flush = (.ok (),l.calledDb.setSession l.session.flushOk) := by
  simp only [flush,hp,hr,hdb,if_false,Bool.false_eq_true]

theorem flush_error {e : Exc} (hp : l.session.pending ≠ []) (hr : l.session.refusing = false)
    (hdb : l.env.db.head = some e) :
    l.flush = (.error e,l.calledDb.setSession l.session.flushFailed) := by
  simp only [flush,hp,hr,hdb,if_false,Bool.false_eq_true]

theorem flush_refused (hp : l.session.pending ≠ []) (hr : l.session.refusing = true) :
    l.flush = (.error .pendingRollback,l) := by
  simp only [flush,hp,hr,if_false,if_true]

variable {failed : Session → Session}

theorem call_ok (hp : l.session.pending = []) (hr : l.session.refusing = false)
    (hdb : l.env.db.head = none) : l.call failed = (.ok (),l.calledDb) := by
  simp only [call,flush_idle hp,hr,hdb,if_false,Bool.false_eq_true]

theorem call_error {e : Exc} (hp : l.session.pending = []) (hr : l.session.refusing = false)
    (hdb : l.env.db.head = some e) :
    l.call failed = (.error e,l.calledDb.setSession (failed l.session)) := by
  simp only [call,flush_idle hp,hr,hdb,if_false,Bool.false_eq_true]

theorem commit_cases (l : Local) :
    l.session.pending = [] ∧ l.commit = (.ok (),l) ∨ l.commit = l.call Session.commitFailed := by
  unfold commit
  split
  · next h => exact .inl ⟨h.2,rfl⟩
  · exact .inr rfl

theorem commit_begun (h : l.session.begun = true) : l.commit = l.call Session.commitFailed :=
  if_neg fun hidle => by rw [h] at hidle; cases hidle.1

theorem calledDb_faultless (hdb : l.env.db = Stream'.const none) : l.calledDb = l := by
  have htail : l.env.db.tail = l.env.db := by rw [hdb,Stream'.tail_const]
  simp only [calledDb,htail]

theorem flush_faultless (hdb : l.env.db = Stream'.const none) (hp : l.session.pending ≠ [])
    (hr : l.session.refusing = false) : l.flush = (.ok (),l.setSession l.session.flushOk) := by
  rw [flush_ok hp hr (by rw [hdb]; rfl),calledDb_faultless hdb]

theorem call_faultless (hdb : l.env.db = Stream'.const none) (hp : l.session.pending = [])
    (hr : l.session.refusing = false) : l.call failed = (.ok (),l) := by
  rw [call_ok hp hr (by rw [hdb]; rfl),calledDb_faultless hdb]

theorem commit_faultless (hdb : l.env.db = Stream'.const none) (hp : l.session.pending = [])
    (hr : l.session.refusing = false) : l.commit = (.ok (),l) := by
  obtain ⟨-,h⟩ | h := l.commit_cases
  · exact h
  · rw [h,call_faultless hdb hp hr]

end Calls

end Local

/-- `LocalStorage._safe_name`: the last component of a file name. -/
def safeName (fallback value : String) : String :=
  let slashed := value.toList.map fun c => if c = '\\' then '/' else c
  let components := ((String.ofList slashed).splitOn "/").filter fun s => s ≠ "" && s ≠ "."
  match components.getLast? with
  | none => fallback
  | some name => if name = ".." then fallback else name

/-- The path that `LocalStorage.save` writes to. A UUID is a safe directory name. -/
def storagePath (fileId : UuidText) (filename : String) : StoragePath :=
  ⟨fileId,safeName "uploaded.pdf" filename⟩

def storageError : Exc := .other "StorageError"

namespace Machine
variable (p : DocumentProcessor)

/-- The database that a session sees: the durable one and what it flushed. -/
def view (l : Local) (w : World) : Database := w.db.applyAll l.session.flushed

def selectDocument (id : Uuid) (l : Local) (w : World) : Except Exc (Option Document) × Local × World :=
  match l.call fun s => { s with begun := true } with
  | (.error e,l) => (.error e,l,w)
  | (.ok (),l) =>
    let row := (view l w).documents id
    (.ok row,l.setSession (l.session.selected row),w)

/-- Nothing that was flushed is durable before its commit, which makes all of it so. -/
def commit (l : Local) (w : World) : Except Exc Unit × Local × World :=
  match l.commit with
  | (.error e,l) => (.error e,l,w)
  | (.ok (),l) =>
    (.ok (),l.setSession l.session.commitOk,
      if l.session.flushed = [] then w else w.act l.run (.commit l.session.flushed))

def refreshDocument (l : Local) (w : World) : Except Exc Unit × Local × World :=
  let l := l.setSession l.session.expireDocument
  match l.call id, l.session.document with
  | (.error e,l), _ => (.error e,l,w)
  | (.ok (),l), none => (.error .attributeError,l,w)
  | (.ok (),l), some t => match (view l w).documents t.attributes.id with
    | none => (.error .invalidRequest,l,w)
    | some row => (.ok (),l.setSession (l.session.refreshed row),w)

def refreshExtraction (id : Uuid) (l : Local) (w : World) : Except Exc Unit × Local × World :=
  match l.call fun s => { s with begun := true } with
  | (.error e,l) => (.error e,l,w)
  | (.ok (),l) =>
    let l := l.setSession { l.session with begun := true }
    if (view l w).extractions.any fun x => x.id = id then (.ok (),l,w)
    else (.error .invalidRequest,l,w)

/-- The run after a storage call. -/
def calledStorage (l : Local) : Local := { l with env := { l.env with storage := l.env.storage.tail } }

def save (fileId : UuidText) (content : Bytes) (filename : String) (l : Local) (w : World) :
    Except Exc StoragePath × Local × World :=
  match l.env.storage.head with
  | some e => (.error e,calledStorage l,w)
  | none =>
    let path := storagePath fileId filename
    (.ok path,calledStorage l,w.act l.run (.save path content))

def load (path : StoragePath) (l : Local) (w : World) : Except Exc Bytes × Local × World :=
  match l.env.storage.head, w.files path with
  | some e, _ => (.error e,calledStorage l,w)
  | none, some content => (.ok content,calledStorage l,w)
  | none, none => (.error storageError,calledStorage l,w)

def delete (path : StoragePath) (l : Local) (w : World) : Except Exc Unit × Local × World :=
  match l.env.storage.head with
  | some e => (.error e,calledStorage l,w)
  | none => (.ok (),calledStorage l,w.act l.run (.delete path))

/-- The job is delivered, or the call raises and it is not. -/
def enqueueJob (documentId : UuidText) (docType strategy : Option String) (l : Local) (w : World) :
    Except Exc String × Local × World :=
  let called := { l with env := { l.env with enqueue := l.env.enqueue.tail } }
  match l.env.enqueue.head with
  | .error e => (.error e,called,w)
  | .ok jobId => (.ok jobId,called,w.act l.run (.enqueue ⟨documentId,docType,strategy,l.run⟩))

/-- The processor asks the provider of this run, and nothing that is shared. -/
def processPages (input : ProcessingInput) (l : Local) (w : World) :
    Except Exc DocumentProcessingResult × Local × World :=
  let (r,model) := (p.processPages input).run ModelEnv.handler l.env.model
  (r,{ l with env := { l.env with model }, processed := l.processed ++ [(input,r)] },w)

/-- Every operation, on the state of the run and on what is shared. -/
def handler : Handler ServiceOp.Reply Exc (Local × World)
  | .selectDocument id, (l,w) => selectDocument id l w
  | .addDocument row, (l,w) => (.ok (),l.setSession (l.session.addDocument row),w)
  | .assignStatus status, (l,w) => (.ok (),l.setSession (l.session.assignStatus status),w)
  | .addExtraction row, (l,w) => (.ok (),l.setSession (l.session.add (.insertExtraction row)),w)
  | .addUsage row, (l,w) => (.ok (),l.setSession (l.session.add (.insertUsage row)),w)
  | .flush, (l,w) => (l.flush.1,l.flush.2,w)
  | .commit, (l,w) => commit l w
  | .rollback, (l,w) => (.ok (),l.setSession l.session.rollback,w)
  | .refreshDocument, (l,w) => refreshDocument l w
  | .refreshExtraction id, (l,w) => refreshExtraction id l w
  | .documentAttributes, (l,w) => (l.session.documentAttributes,l,w)
  | .save fileId content filename, (l,w) => save fileId content filename l w
  | .load path, (l,w) => load path l w
  | .delete path, (l,w) => delete path l w
  | .openPdf content, (l,w) =>
    (l.env.openPdf.head content,{ l with env := { l.env with openPdf := l.env.openPdf.tail } },w)
  | .enqueueJob documentId docType strategy, (l,w) => enqueueJob documentId docType strategy l w
  | .uuid4, (l,w) => (.ok (.drawn l.run l.drawn),{ l with drawn := l.drawn + 1 },w)
  | .now, (l,w) => (.ok l.env.now.head,{ l with env := { l.env with now := l.env.now.tail } },w)
  | .monotonic, (l,w) =>
    (.ok l.env.model.clock.head,{ l with env := { l.env with model := l.env.model.tick } },w)
  | .processPages input, (l,w) => processPages p input l w
  | .startRun id, (l,w) => (.ok (),{ l with started := l.started ++ [id] },w)

theorem handler_flush {l : Local} {r : Except Exc Unit × Local} (h : l.flush = r) (w : World) :
    handler p .flush (l,w) = (r.1,r.2,w) := by
  subst h
  rfl

theorem handler_commit {l l' : Local} {w : World} {i : ℕ} {changes : List Change}
    (h : l.commit = (.ok (),l')) (hrun : l'.run = i)
    (hflushed : l'.session.flushed = changes) (hne : changes ≠ []) :
    handler p .commit (l,w) = (.ok (),l'.setSession l'.session.commitOk,w.act i (.commit changes)) := by
  subst hrun hflushed
  simp only [handler,commit,h,hne,if_false]
  rfl

theorem handler_commit_error {l l' : Local} {e : Exc} (h : l.commit = (.error e,l'))
    (w : World) : handler p .commit (l,w) = (.error e,l',w) := by
  simp only [handler,commit,h]
  rfl

theorem handler_commit_nothing {l l' : Local} (h : l.commit = (.ok (),l'))
    (hflushed : l'.session.flushed = []) (w : World) :
    handler p .commit (l,w) = (.ok (),l'.setSession l'.session.commitOk,w) := by
  simp only [handler,commit,h,hflushed,if_true]
  rfl

theorem handler_documentAttributes {l : Local} {r : Except Exc Document}
    (h : l.session.documentAttributes = r) (w : World) :
    handler p .documentAttributes (l,w) = (r,l,w) := by
  subst h
  rfl

end Machine

end StructuredExtractor
