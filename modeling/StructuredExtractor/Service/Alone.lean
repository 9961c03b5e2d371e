import StructuredExtractor.Service.Runs

/-! # A run alone

When nothing runs beside it, what is shared changes by the actions of the run only,
and `Ends` says in which state it leaves the database.
-/
namespace StructuredExtractor
open Service

/-- Run `i` may do anything, and puts up with nothing. -/
def alone (i : ℕ) : Discipline Label World where
  guar j _ w w' := j = i ∨ w = w'
  rely j w w' := j = i → w = w'
  guar_refl _ _ _ := .inr rfl
  rely_refl _ _ _ := rfl
  rely_trans h h' hj := (h hj).trans (h' hj)
  guar_rely := by
    rintro j k _ w w' hne (rfl | h) hj
    · exact absurd hj hne
    · exact h

theorem alone_fits (c : Config) (i : ℕ) (label : Label) : Fits c i (alone i) label where
  trace h := by rw [h rfl]
  documents h := by rw [h rfl]; exact id
  allow _ := .inl rfl

namespace World

/-- The actions of run `i`, one after the other. -/
def acts (w : World) (i : ℕ) (as : List Action) : World := as.foldl (fun w a => w.act i a) w

theorem acts_singleton (w : World) (i : ℕ) (a : Action) : w.acts i [a] = w.act i a := rfl

theorem acts_append (w : World) (i : ℕ) (as bs : List Action) :
    w.acts i (as ++ bs) = (w.acts i as).acts i bs := List.foldl_append

theorem trace_acts_other (w : World) {i j : ℕ} (h : i ≠ j) (as : List Action) :
    (w.acts i as).trace j = w.trace j := by
  induction as generalizing w with
  | nil => rfl
  | cons a as ih => exact (ih (w.act i a)).trans (w.trace_act_other h a)

end World

theorem alone_went {i : ℕ} {w w' : World} {as : List Action} (h : Went (alone i) i w as w') :
    w' = w.acts i as := by
  induction h with
  | wait hg => exact (hg rfl).symm
  | act _ hg ih => rw [← hg rfl,ih,World.acts_append]; rfl

/-- The run `i` of a program in an environment, from a state that is shared with nobody. -/
def runAlone (c : Config) (i : ℕ) (s : Source) (env : Env) (w : World) :
    Except Exc Answer × Local × World :=
  (programOf c s).run (Machine.handler c.processor) (Local.start i env,w)

/-- A run alone ends as told. -/
theorem runAlone_ends {c : Config} {i : ℕ} {w : World} {env : Env} (s : Source)
    (hdb : env.db = Stream'.const none) (htrace : w.trace i = []) :
    Ends c (alone i) i w env s (runAlone c i s env w).1 (runAlone c i s env w).2.1.trail
      (runAlone c i s env w).2.2 :=
  Prog.Safe.run (programOf_safe s (alone_fits c i ⟨s,env⟩) hdb htrace)

namespace Database

@[simp] theorem documents_insertUsages (db : Database) (rows : List LLMUsage) :
    (db.applyAll (rows.map Change.insertUsage)).documents = db.documents := by
  induction rows generalizing db with
  | nil => rfl
  | cons row rows ih => exact ih (db.apply (.insertUsage row))

theorem documents_updateStatus {db : Database} {known : Document} (status : DocumentStatus)
    (h : db.documents known.id = some known) :
    (db.applyAll [.updateStatus known.id status]).documents known.id = some (known.with status) := by
  simp [applyAll,apply,updateStatus,h,Document.with]

end Database

section Documents
variable {c : Config} {i : ℕ} {w : World} {known : Document}

theorem Document.with_self {status : DocumentStatus} (h : known.status = status) :
    known.with status = known := by
  subst h
  rfl

/-- A status that is written or known already is the durable one. -/
theorem documents_statusChange {db : Database} (status : DocumentStatus)
    (h : db.documents known.id = some known) :
    (db.applyAll (statusChange known status)).documents known.id = some (known.with status) := by
  by_cases hstatus : known.status = status
  · simpa [statusChange,hstatus,Database.applyAll,Document.with_self hstatus] using h
  · simpa [statusChange,hstatus] using Database.documents_updateStatus status h

theorem documents_setting (status : DocumentStatus) (h : w.db.documents known.id = some known) :
    (w.acts i (setting known status)).db.documents known.id = some (known.with status) := by
  by_cases hstatus : known.status = status
  · simpa [setting,hstatus,World.acts,Document.with_self hstatus] using h
  · simpa [setting,hstatus,World.acts,World.act] using Database.documents_updateStatus status h

theorem documents_changes {db : Database} (rec : Recorded) (n : ℕ) (now : Stream' Time) (ms : ℤ)
    (h : db.documents known.id = some known) :
    (db.applyAll (rec.changes i n now ms known)).documents known.id = some (known.with rec.status) := by
  rw [Recorded.changes,Database.applyAll_append,Recorded.rows,← List.singleton_append,
    Database.applyAll_append,Database.documents_insertUsages]
  exact documents_statusChange rec.status h

/-- What was recorded is durable, and otherwise nothing changed. -/
theorem documents_recording {o : Except Exc DocumentProcessingResult} {as : List Action}
    (hrec : Recording c i known [] o as) (h : w.db.documents known.id = some known) :
    (w.acts i as).db.documents known.id = some (afterOutcome c known o) := by
  unfold Recording at hrec
  unfold afterOutcome
  cases hr : recorded c o with
  | none =>
    rw [hr] at hrec
    rw [hrec]
    exact h
  | some rec =>
    rw [hr] at hrec
    obtain ⟨-,n,now,ms,rfl⟩ := hrec
    exact documents_changes rec n now ms h

end Documents

section Sample

/-- A service with the models of the default settings. -/
def sampleConfig (pool : Bool) : Config :=
  ⟨⟨Libraries.basic,⟨"openai/gpt-4.1-mini"⟩,⟨"openai/gpt-4.1-mini",2⟩⟩,"openai/gpt-4.1-mini",pool⟩

/-- Nothing fails but the queue and the provider, as told. -/
def sampleEnv (enqueue : Except Exc String) (replies : Stream' (Except Exc Response)) : Env where
  db := Stream'.const none
  storage := Stream'.const none
  openPdf := Stream'.const fun _ => .ok (.pages [some "Agreement"])
  enqueue := Stream'.const enqueue
  now := Stream'.const 0
  model := .start replies (Stream'.const 0)

def emptyWorld : World := ⟨.empty,fun _ => none,[],[]⟩

def sampleUpload (docType : String) (asyncMode : Bool) : ExtractRequest :=
  ⟨some [37,80,68,70],some "agreement.pdf",none,some docType,none,asyncMode⟩

/-- A database that fails at the `n`-th call from now, and only there. -/
def failingAt (n : ℕ) (e : Exc) : Stream' (Option Exc) := fun k => if k = n then some e else none

/-- A provider that cannot be reached. -/
def unreachable : Stream' (Except Exc Response) := Stream'.const (.error (.llmClient "unreachable"))

def sampleDocument : Document :=
  ⟨.old 0,"agreement.pdf",⟨(Uuid.old 0).str,"agreement.pdf"⟩,4,1,.uploaded,0⟩

/-- The document is there with its file. -/
def storedWorld : World := { emptyWorld with
  db := Database.empty.insertDocument sampleDocument
  files := Function.update (fun _ => none) sampleDocument.filePath (some [37,80,68,70]) }

def sampleExisting (asyncMode : Bool) : ExtractRequest :=
  ⟨none,none,some (.old 0),some "contract",none,asyncMode⟩

/-- A provider that answers every request with this text. -/
def textReplies (content : String) : Stream' (Except Exc Response) :=
  Stream'.const (.ok ⟨.list [⟨some ⟨some content,none,[]⟩⟩],none,some ⟨310,2⟩⟩)

def untypedUpload : ExtractRequest :=
  ⟨some [37,80,68,70],some "agreement.pdf",none,none,none,false⟩

/-- An upload without a type, to a service whose provider answers with this text. -/
def classifiedRun (content : String) : Except Exc Answer × Local × World :=
  runAlone (sampleConfig true) 0 (.request untypedUpload) (sampleEnv (.ok "job") (textReplies content)) emptyWorld

end Sample

end StructuredExtractor
