import StructuredExtractor.Extraction.Raised
import StructuredExtractor.Library.Pool
import StructuredExtractor.Service.Documents

/-! # What a run does to what is shared

Every kind of run has scripts: the sequences of actions that it can go through. A
recording is one commit, of the status, one extraction and its usage rows.
-/
namespace StructuredExtractor
open Service

/-- Where a run comes from: a request to the API, or a job that a worker takes. -/
inductive Source
  | request (r : ExtractRequest)
  | worker (job : Job)
  deriving DecidableEq

/-- What a run is started with. -/
structure Label where
  source : Source
  env : Env

/-- What a run is about. -/
inductive Kind
  | uploadInline
  | uploadQueued
  | existingInline (id : Uuid)
  | existingQueued (id : Uuid)
  | invalid
  deriving DecidableEq

def Source.kind (c : Config) : Source → Kind
  | .worker job => .existingInline job.documentId.uuid
  | .request r => match r.content, r.filename, r.documentId with
    | some _, some _, none => if !r.asyncMode || !c.pool then .uploadInline else .uploadQueued
    | some _, some _, some _ => .invalid
    | _, _, some id => if r.asyncMode && c.pool then .existingQueued id else .existingInline id
    | _, _, none => .invalid

/-- The document of a run. An upload draws its id first. -/
def Kind.document (i : ℕ) : Kind → Option Uuid
  | .uploadInline | .uploadQueued => some (.drawn i 0)
  | .existingInline id | .existingQueued id => some id
  | .invalid => none

/-- The program of a run. -/
def programOf (c : Config) : Source → ServiceProg Answer
  | .request r => getDb (extractDocument c r)
  | .worker job => Answer.extract <$> extractionJob c job

/-- What is true of a result before `get_db` is left is true after: the commit and the
rollback have to keep it. -/
theorem getDb_safe {α : Type} {p : DocumentProcessor} {D : Discipline Label World} {i : ℕ} {label : Label} {l : Local}
    {w : World} {q : ServiceProg α} {I : Except Exc α → Local → World → Prop}
    (hq : q.Safe (Machine.handler p) D i label I l w) (hrely : ∀ r l w w', I r l w → D.rely i w w' → I r l w')
    (hcommit : ∀ a l w, I (.ok a) l w → D.guar i label w (Machine.commit l w).2.2 ∧
      I (.ok a) (Machine.commit l w).2.1 (Machine.commit l w).2.2)
    (hrollback : ∀ r l w, I r l w → I r (l.setSession l.session.rollback) w) :
    (getDb q).Safe (Machine.handler p) D i label I l w := by
  refine Prog.safe_scope hq hrely (fun a l w hI => ?_) fun r l w hI => ?_
  · intro w₁ hw₁
    obtain ⟨hguar,hI'⟩ := hcommit a l w₁ (hrely _ _ _ _ hI hw₁)
    exact ⟨hguar,fun w₂ hw₂ => hrely _ _ _ _ hI' hw₂⟩
  · exact fun w₁ hw₁ => ⟨D.guar_refl i label w₁,fun w₂ hw₂ =>
      ⟨rfl,hrollback r l w₂ (hrely _ _ _ _ hI (D.rely_trans hw₁ hw₂))⟩⟩

section Records
variable (c : Config)

/-- Processing that is recorded: a result, or an extraction error. -/
def Settled : Except Exc DocumentProcessingResult → Prop
  | .ok _ => True
  | .error (.documentProcessing _ _) => True
  | .error _ => False

/-- A usage row of run `i`, with the `n`-th id that it draws. -/
def usageRow (i n : ℕ) (createdAt : Time) (documentId extractionId : Uuid) (event : LLMUsageEvent) :
    LLMUsage :=
  ⟨.drawn i n,documentId,some extractionId,event.purpose,event.model,event.inputTokens,
    event.outputTokens,createdAt⟩

/-- The usage rows of run `i`, with the ids from the `n`-th on. -/
def usageRows (i : ℕ) (documentId extractionId : Uuid) :
    ℕ → Stream' Time → List LLMUsageEvent → List LLMUsage
  | _, _, [] => []
  | n, now, event :: events =>
    usageRow i n now.head documentId extractionId event ::
      usageRows i documentId extractionId (n + 1) now.tail events

/-- The status, the extraction row (up to its id and times) and the usage events
that processing is recorded with. -/
structure Recorded where
  status : DocumentStatus
  extraction : Uuid → Uuid → ℤ → Time → Extraction
  events : List LLMUsageEvent

def recordedSuccess (r : DocumentProcessingResult) : Recorded where
  status := documentStatusFor r
  extraction := fun id documentId _ createdAt => successExtraction c id documentId r.pipeline createdAt
  events := r.classifierUsageEvents ++ [extractionUsage c r.pipeline.extraction.inputTokens
    r.pipeline.extraction.outputTokens]

def recordedFailure (resolved : ResolvedDocumentInput) (e : ExtractionError) : Recorded where
  status := .failed
  extraction := fun id documentId durationMs createdAt =>
    failedExtraction c id documentId resolved e durationMs createdAt
  events := resolved.usageEvents ++ [extractionUsage c e.inputTokens e.outputTokens]

/-- What processing is recorded as, when it is. -/
def recorded : Except Exc DocumentProcessingResult → Option Recorded
  | .ok r => some (recordedSuccess c r)
  | .error (.documentProcessing resolved e) => some (recordedFailure c resolved e)
  | .error _ => none

theorem settled_iff (o : Except Exc DocumentProcessingResult) :
    Settled o ↔ ∃ rec, recorded c o = some rec := by
  match o with
  | .ok r => exact ⟨fun _ => ⟨_,rfl⟩,fun _ => trivial⟩
  | .error e => cases e <;> simp [Settled,recorded]

/-- What a session that knows the document as `known` writes to set its status. -/
def statusChange (known : Document) (status : DocumentStatus) : List Change :=
  if known.status = status then [] else [.updateStatus known.id status]

/-- The rows that a recording adds, with ids from the `n`-th on. -/
def Recorded.rows (rec : Recorded) (i n : ℕ) (now : Stream' Time) (durationMs : ℤ)
    (documentId : Uuid) : List Change :=
  .insertExtraction (rec.extraction (.drawn i n) documentId durationMs now.head) ::
    (usageRows i documentId (.drawn i n) (n + 1) now.tail rec.events).map Change.insertUsage

def Recorded.changes (rec : Recorded) (i n : ℕ) (now : Stream' Time) (durationMs : ℤ)
    (known : Document) : List Change :=
  statusChange known rec.status ++ rec.rows i n now durationMs known.id

variable (i : ℕ)

/-- What the processing of a document leaves in the actions: its recording, or else
`otherwise`. -/
def Recording (known : Document) (otherwise : List Action)
    (o : Except Exc DocumentProcessingResult) (as : List Action) : Prop :=
  match recorded c o with
  | none => as = otherwise
  | some rec => ClassifiedOutcome o ∧
    ∃ n now durationMs, as = [.commit (rec.changes i n now durationMs known)]

end Records

section Scripts
variable (c : Config) (i : ℕ)

/-- The commit that sets the status of a document, if that changes anything. -/
def setting (known : Document) (status : DocumentStatus) : List Action :=
  if known.status = status then [] else [.commit [.updateStatus known.id status]]

def Document.with (row : Document) (status : DocumentStatus) : Document := { row with status }

theorem mem_setting {known : Document} {status : DocumentStatus} {a : Action}
    (h : a ∈ setting known status) : ∃ changes, a = .commit changes ∧ setting known status = [a] := by
  by_cases hstatus : known.status = status
  · simp [setting,hstatus] at h
  · obtain rfl : a = .commit [.updateStatus known.id status] := by simpa [setting,hstatus] using h
    exact ⟨_,rfl,by simp [setting,hstatus]⟩

variable {c i} in
theorem Recording.mem {known : Document} {otherwise : List Action}
    {o : Except Exc DocumentProcessingResult} {as : List Action} {a : Action}
    (h : Recording c i known otherwise o as) (ha : a ∈ as) :
    a ∈ otherwise ∧ as = otherwise ∨ ∃ changes, a = .commit changes ∧ as = [a] := by
  unfold Recording at h
  split at h
  · exact .inl ⟨h ▸ ha,h⟩
  · obtain ⟨-,_,_,_,rfl⟩ := h
    obtain rfl := List.mem_singleton.mp ha
    exact .inr ⟨_,rfl,rfl⟩

/-- All the actions of a run that came to its end. `known` is the document as the
session found it. -/
inductive Script : Kind → List Action → Prop
  | uploadInline {content : Bytes} {row known : Document} {tail : List Action}
      {o : Except Exc DocumentProcessingResult} (hid : row.id = .drawn i 0) (hknown : known.id = row.id)
      (htail : Recording c i (known.with .processing) [] o tail) :
      Script .uploadInline (.save row.filePath content :: .commit [.insertDocument row] ::
        (setting known .processing ++ tail))
  | uploadFallback {content : Bytes} {row known : Document} {tail : List Action}
      {o : Except Exc DocumentProcessingResult} (hid : row.id = .drawn i 0) (hknown : known.id = row.id)
      (hstatus : row.status = .processing) (htail : Recording c i known [] o tail) :
      Script .uploadQueued (.save row.filePath content :: .commit [.insertDocument row] :: tail)
  | uploadQueued {content : Bytes} {row : Document} {job : Job} (hid : row.id = .drawn i 0)
      (hstatus : row.status = .processing) (hdoc : job.documentId = row.id.str) (horigin : job.origin = i) :
      Script .uploadQueued [.save row.filePath content,.commit [.insertDocument row],.enqueue job]
  | existingInline {known : Document} {tail : List Action} {o : Except Exc DocumentProcessingResult}
      (htail : Recording c i (known.with .processing) (setting (known.with .processing) .failed) o tail) :
      Script (.existingInline known.id) (setting known .processing ++ tail)
  | existingQueued {id : Uuid} {job : Job} (hdoc : job.documentId = id.str) (horigin : job.origin = i) :
      Script (.existingQueued id) [.enqueue job]

/-- An action that goes on with a script. A job is sent for a document that is there. -/
structure May (k : Kind) (w : World) (a : Action) : Prop where
  script : ∃ full, Script c i k full ∧ w.trace i ++ [a] <+: full
  grounded : ∀ job, a = .enqueue job → (w.db.documents job.documentId.uuid).isSome

/-- A discipline under which a run may go through its scripts, and what the others do
takes neither its actions nor any document away. -/
structure Fits (D : Discipline Label World) (label : Label) : Prop where
  trace : ∀ {w w'}, D.rely i w w' → w'.trace i = w.trace i
  documents : ∀ {w w' id}, D.rely i w w' → (w.db.documents id).isSome → (w'.db.documents id).isSome
  allow : ∀ {w a}, May c i (label.source.kind c) w a → D.guar i label w (w.act i a)

end Scripts

/-- Run `i` did the actions, with whatever the others did in between. -/
abbrev Went (D : Discipline Label World) (i : ℕ) : World → List Action → World → Prop :=
  D.Passes (fun w a => w.act i a) i

section Went
variable {c : Config} {D : Discipline Label World} {i : ℕ} {label : Label} {w w' : World}
variable {as : List Action}

theorem Went.trace (hD : Fits c i D label) (h : Went D i w as w') : w'.trace i = w.trace i ++ as := by
  induction h with
  | wait hg => rw [hD.trace hg,List.append_nil]
  | act _ hg ih => rw [hD.trace hg,World.trace_act_self,ih,List.append_assoc]

/-- A run may do what goes on with a script. -/
theorem Fits.guar (hD : Fits c i D label) (htrace : w.trace i = []) (h : Went D i w as w')
    {a : Action} {full : List Action} (hscript : Script c i (label.source.kind c) full)
    (hpre : as ++ [a] <+: full)
    (hground : ∀ job, a = .enqueue job → (w'.db.documents job.documentId.uuid).isSome) :
    D.guar i label w' (w'.act i a) :=
  hD.allow ⟨⟨full,hscript,by rwa [h.trace hD,htrace,List.nil_append]⟩,hground⟩

end Went

end StructuredExtractor
