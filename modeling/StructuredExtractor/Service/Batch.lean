import StructuredExtractor.Library.Gather
import StructuredExtractor.Service.Alone

/-! # Batches of uploads

The files of a batch are extracted side by side, at most five at a time. Each has its
own session, and its exceptions become an entry of the response.
-/
namespace StructuredExtractor

def Answer.status : Answer → String
  | .extract r => r.status
  | .async _ _ => "processing"

structure BatchItemResult where
  filename : String
  status : String
  documentId : Option Uuid := none
  jobId : Option String := none
  extractionId : Option Uuid := none
  docType : Option String := none
  extractedData : Option Dict := none
  confidenceMap : Option (List (String × ℕ)) := none
  warnings : List String := []
  error : Option String := none
  inputTokens : ℕ := 0
  outputTokens : ℕ := 0
  deriving DecidableEq

structure BatchExtractionResponse where
  total : ℕ
  succeeded : ℕ
  failed : ℕ
  results : List BatchItemResult

/-- A file of the batch. `env` and `closing`, the exception of closing its session, are
what its extraction cannot know beforehand. -/
structure BatchFile where
  filename : String
  content : Bytes
  env : Env
  closing : Option Exc

/-- `file_data` with the other arguments of `batch_extract`. The first run has the number
`first`, and `str` is the text of an exception. -/
structure Batch where
  files : List BatchFile
  docType : Option String
  strategy : Option ExtractionStrategy
  asyncMode : Bool
  first : ℕ
  str : Exc → String

def batchConcurrencyLimit : ℕ := 5

namespace Service

/-- The status of an `AsyncExtractionResponse` is always processing. -/
def toBatchItemResult (filename : String) : Answer → BatchItemResult
  | .async documentId jobId =>
    { filename, status := "processing", documentId := some documentId, jobId := some jobId }
  | .extract r => {
    filename
    status := r.status
    documentId := some r.documentId
    extractionId := some r.extractionId
    docType := some r.docType
    extractedData := r.extractedData
    confidenceMap := some r.confidenceMap
    warnings := r.warnings
    inputTokens := r.inputTokens
    outputTokens := r.outputTokens }

section Batch
variable (c : Config) (b : Batch)

def failedItem (file : BatchFile) (e : Exc) : BatchItemResult :=
  { filename := file.filename, status := "failed", error := some (b.str e) }

/-- What is run for a file while it holds the semaphore: `extract_document`, in a session
of its own. -/
def itemProgram (file : BatchFile) : ServiceProg Answer :=
  extractDocument c ⟨some file.content,some file.filename,none,b.docType,b.strategy,b.asyncMode⟩

/-- `_extract_batch_item`, once `extract_document` has ended: closing the session may
still raise. -/
def extractBatchItem (file : BatchFile) (outcome : Except Exc Answer) : Except Exc BatchItemResult :=
  let result := match outcome with
    | .ok answer => toBatchItemResult file.filename answer
    | .error e => failedItem b file e
  match file.closing with
  | none => .ok result
  | some e => .error e

/-- An entry of the response, from what `gather` returns for the file. -/
def batchEntry (file : BatchFile) : Except Exc BatchItemResult → BatchItemResult
  | .ok result => result
  | .error e => failedItem b file e

/-- `_extract_batch_items`, when all items have ended. -/
def extractBatchItems (outcomes : List (Except Exc Answer)) : List BatchItemResult :=
  let results := List.zipWith (extractBatchItem b) b.files outcomes
  List.zipWith (batchEntry b) b.files results

def batchExtract (outcomes : List (Except Exc Answer)) : BatchExtractionResponse :=
  let results := extractBatchItems b outcomes
  { total := b.files.length
    succeeded := results.countP fun result => result.status ∈ ["completed","partial","processing"]
    failed := results.countP fun result => result.status = "failed"
    results }

/-- The items before the first step. -/
def batchSlots : List (Slot ServiceOp.Reply Exc Answer Local) :=
  b.files.mapIdx fun i file => .waiting (itemProgram c b file) (.start (b.first + i) file.env)

end Batch

section Statuses
variable {c : Config}

/-- The status that a validation can have. -/
def Concluded (status : ExtractionStatus) : Prop :=
  status = .completed ∨ status = .partial_ ∨ status = .failed

theorem validateExtraction_concluded {P : Pydantic} {u : Unicode} {docType : String} {raw : Json}
    {r : ValidationResult} (h : Validation.validateExtraction P u docType raw = .ok r) : Concluded r.status := by
  obtain ⟨s,-,h⟩ := bind_eq_ok h
  split at h
  · obtain ⟨warnings,-,h⟩ := bind_eq_ok h
    obtain ⟨recovered,-,h⟩ := bind_eq_ok h
    obtain ⟨quality,-,h⟩ := bind_eq_ok h
    obtain rfl := Except.ok.inj h
    dsimp only
    split
    · exact .inr (.inl rfl)
    · exact .inr (.inr rfl)
  · obtain ⟨quality,-,h⟩ := bind_eq_ok h
    obtain rfl := Except.ok.inj h
    exact .inl rfl

/-- What the operations answer: a processing result has been validated. -/
def Answers (op : ServiceOp) (r : Except Exc op.Reply) : Prop :=
  match op, r with
  | .processPages _, r => ∀ result, r = .ok result → Concluded result.pipeline.validation.status
  | _, _ => True

theorem handler_answers (p : DocumentProcessor) (op : ServiceOp) (l : Local) (w : World) :
    Answers op (Machine.handler p op (l,w)).1 := by
  cases op with
  | processPages input =>
    intro result h
    exact validateExtraction_concluded (DocumentProcessor.processPages_validated p l.env.model h)
  | _ => trivial

/-- If there is a value, its status is one that is counted. -/
def Reported {α : Type} (status : α → String) (r : Except Exc α) : Prop :=
  ∀ a, r = .ok a → status a ∈ ["completed","partial","failed","processing"]

theorem reported_error {α : Type} {status : α → String} {e : Exc} : Reported status (.error e) :=
  fun _ h => by cases h

theorem reported_ok {α : Type} {status : α → String} {a : α} : Reported status (.ok a) ↔
    status a ∈ ["completed","partial","failed","processing"] :=
  ⟨fun h => h a rfl,fun h _ ha => Except.ok.inj ha ▸ h⟩

section Programs
variable {α β : Type} {status : α → String} {status' : β → String}

abbrev Reports (status : α → String) (p : ServiceProg α) : Prop := p.Given Answers (Reported status)

/-- What comes before does not matter. -/
theorem reports_then {p : ServiceProg β} {f : β → ServiceProg α} (hf : ∀ b, Reports status (f b)) :
    Reports status (p >>= f) :=
  Prog.given_bind p.given_any (fun b _ => hf b) fun _ _ => reported_error

/-- An answer that is made from one that is counted. -/
theorem Reports.map {p : ServiceProg β} {f : β → α} (hp : Reports status' p)
    (hf : ∀ b, status (f b) = status' b) : Reports status (p >>= fun b => pure (f b)) := by
  refine Prog.given_bind hp (fun b hb => ?_) fun _ _ => reported_error
  exact reported_ok.mpr ((hf b).symm ▸ reported_ok.mp hb)

theorem Reports.catch {p : ServiceProg α} {f : Exc → ServiceProg α} (hp : Reports status p)
    (hf : ∀ e, Reports status (f e)) : Reports status (tryCatch p f) :=
  Prog.given_tryCatch hp (fun _ h => h) fun e _ => hf e

theorem reports_throw (e : Exc) : Reports status (throw e : ServiceProg α) := reported_error

theorem recordSuccess_reports {r : DocumentProcessingResult} (h : Concluded r.pipeline.validation.status) :
    Reports ExtractResponse.status (recordSuccess c r) := by
  refine reports_then fun _ => reports_then fun id => reports_then fun _ => reports_then fun _ => ?_
  refine reports_then fun _ => reports_then fun _ => reports_then fun _ => reports_then fun document => ?_
  refine reported_ok.mpr ?_
  obtain h | h | h := h <;> simp [toResponse,h,ExtractionStatus.value]

theorem recordOutcome_reports (startedAt : ℚ) {o : Except Exc DocumentProcessingResult}
    (h : ∀ r, o = .ok r → Concluded r.pipeline.validation.status) :
    Reports ExtractResponse.status (recordOutcome c startedAt o) := by
  cases o with
  | ok r =>
    refine reports_then fun _ => Prog.given_bind (recordSuccess_reports (h r rfl)) (fun response hr => ?_)
      fun _ _ => reported_error
    exact reports_then fun _ => hr
  | error e =>
    cases e with
    | documentProcessing resolved original => exact reports_then fun _ => reports_throw _
    | _ => exact reports_throw _

theorem given_attempt {p : ServiceProg α} {Q : Except Exc α → Prop} (hp : p.Given Answers Q) :
    (attempt p).Given Answers fun r => ∀ o, r = .ok o → Q o := by
  induction p with
  | done r => cases r <;> exact fun _ h => Except.ok.inj h ▸ hp
  | call op k ih => exact fun r hr => ih r (hp r hr)

theorem processDocumentPages_reports (pages : List String) (docType strategy : Option String) :
    Reports ExtractResponse.status (processDocumentPages c pages docType strategy) := by
  refine reports_then fun startedAt => Prog.given_bind (given_attempt ?_)
    (fun o ho => recordOutcome_reports startedAt (ho o rfl)) fun _ _ => reported_error
  refine Prog.given_bind (Prog.given_any _) (fun document _ => ?_) fun e _ _ h => by cases h
  exact Prog.given_perform fun _ h => h

theorem processUploadedInline_reports (content : Bytes) (filename : String) (docType strategy : Option String) :
    Reports ExtractResponse.status (processUploadedInline c content filename docType strategy) := by
  refine reports_then fun intake => reports_then fun _ => reports_then fun _ => Reports.catch ?_ fun e => ?_
  · exact reports_then fun _ => processDocumentPages_reports _ _ _
  · exact reports_then fun _ => reports_throw e

theorem processExistingInline_reports (documentId : Uuid) (docType strategy : Option String) :
    Reports ExtractResponse.status (processExistingInline c documentId docType strategy) := by
  refine reports_then fun found => ?_
  cases found with
  | none => exact reports_throw _
  | some _ =>
    refine reports_then fun _ => reports_then fun _ => Reports.catch ?_ fun e => ?_
    · exact reports_then fun _ => processDocumentPages_reports _ _ _
    · exact reports_then fun _ => reports_then fun _ => reports_throw e

theorem inlineAnswer_status (asyncMode : Bool) (r : ExtractResponse) : (inlineAnswer asyncMode r).status = r.status := by
  cases asyncMode <;> rfl

/-- Whatever way an extraction goes, an answer has one of the four statuses. -/
theorem extractDocument_reports (r : ExtractRequest) : Reports Answer.status (extractDocument c r) := by
  have hqueued : ∀ documentId jobId, Reported Answer.status (.ok (.async documentId jobId)) :=
    fun _ _ => reported_ok.mpr (by simp [Answer.status])
  unfold extractDocument
  split
  · unfold extractUploadedDocument
    split
    · exact (processUploadedInline_reports _ _ _ _).map (inlineAnswer_status _)
    · refine reports_then fun intake => reports_then fun _ => Reports.catch ?_ fun e => ?_
      · exact reports_then fun _ => reports_then fun jobId => reports_then fun document => hqueued document.id jobId
      · exact reports_then fun _ => (processDocumentPages_reports _ _ _).map (inlineAnswer_status true)
  · exact reports_throw _
  · unfold extractExistingDocument
    split
    · refine reports_then fun found => ?_
      cases found with
      | none => exact reports_throw _
      | some _ => exact reports_then fun jobId => hqueued _ jobId
    · exact (processExistingInline_reports _ _ _).map (inlineAnswer_status _)
  · exact reports_throw _

end Programs

end Statuses

section Response
variable {c : Config} {b : Batch} {file : BatchFile} {outcome : Except Exc Answer}
variable {outcomes : List (Except Exc Answer)}

/-- The entry of a file, by how its extraction ended. -/
def entryOf (b : Batch) (file : BatchFile) (outcome : Except Exc Answer) : BatchItemResult :=
  batchEntry b file (extractBatchItem b file outcome)

theorem entryOf_filename (b : Batch) (file : BatchFile) (outcome : Except Exc Answer) :
    (entryOf b file outcome).filename = file.filename := by
  unfold entryOf extractBatchItem
  cases file.closing with
  | some e => rfl
  | none =>
    cases outcome with
    | error e => rfl
    | ok answer => cases answer <;> rfl

theorem entryOf_status (b : Batch) (file : BatchFile) (h : Reported Answer.status outcome) :
    (entryOf b file outcome).status ∈ ["completed","partial","failed","processing"] := by
  have hfailed : ∀ e, (failedItem b file e).status ∈ ["completed","partial","failed","processing"] :=
    fun e => by simp [failedItem]
  unfold entryOf extractBatchItem
  cases file.closing with
  | some e => exact hfailed e
  | none =>
    cases outcome with
    | error e => exact hfailed e
    | ok answer =>
      have hanswer := reported_ok.mp h
      cases answer <;> exact hanswer

theorem extractBatchItems_eq (b : Batch) (outcomes : List (Except Exc Answer)) :
    extractBatchItems b outcomes = List.zipWith (entryOf b) b.files outcomes := by
  unfold extractBatchItems
  generalize b.files = files
  induction files generalizing outcomes with
  | nil => rfl
  | cons file files ih =>
    cases outcomes with
    | nil => rfl
    | cons outcome outcomes => exact congrArg _ (ih outcomes)

/-- One entry a file, in the files' order, each by its own outcome, and all are counted. -/
structure Aligned (b : Batch) (outcomes : List (Except Exc Answer)) (response : BatchExtractionResponse) : Prop where
  length : response.results.length = b.files.length
  entry : ∀ (i : ℕ) file, b.files[i]? = some file → ∃ outcome, outcomes[i]? = some outcome ∧
    response.results[i]? = some (entryOf b file outcome) ∧ (entryOf b file outcome).filename = file.filename
  total : response.total = b.files.length
  counted : response.succeeded + response.failed = response.total

theorem batchExtract_aligned (hlen : outcomes.length = b.files.length)
    (hreported : ∀ outcome ∈ outcomes, Reported Answer.status outcome) :
    Aligned b outcomes (batchExtract b outcomes) := by
  have hresults : (batchExtract b outcomes).results = List.zipWith (entryOf b) b.files outcomes :=
    extractBatchItems_eq b outcomes
  have hlength : (batchExtract b outcomes).results.length = b.files.length := by
    rw [hresults,List.length_zipWith,hlen,Nat.min_self]
  refine ⟨hlength,fun i file hi => ?_,rfl,?_⟩
  · have hlt : i < outcomes.length := hlen ▸ (List.getElem?_eq_some_iff.mp hi).1
    refine ⟨outcomes[i],List.getElem?_eq_getElem hlt,?_,entryOf_filename b file _⟩
    rw [hresults,List.getElem?_zipWith,hi,List.getElem?_eq_getElem hlt]
  · have hstatus : ∀ x ∈ extractBatchItems b outcomes, x.status ∈ ["completed","partial","failed","processing"] := by
      intro x hx
      rw [extractBatchItems_eq,← List.map_uncurry_zip_eq_zipWith] at hx
      obtain ⟨⟨file,outcome⟩,hp,rfl⟩ := List.mem_map.mp hx
      exact entryOf_status b file (hreported outcome (List.of_mem_zip hp).2)
    have hnot : (extractBatchItems b outcomes).countP (fun x => x.status = "failed") =
        (extractBatchItems b outcomes).countP fun x => ¬ x.status ∈ ["completed","partial","processing"] := by
      refine List.countP_congr fun x hx => ?_
      have h := hstatus x hx
      simp only [List.mem_cons,List.not_mem_nil,or_false] at h
      rcases h with h | h | h | h <;> simp [h]
    have hsum := List.length_eq_countP_add_countP (l := extractBatchItems b outcomes)
      fun x => x.status ∈ ["completed","partial","processing"]
    simp only [decide_eq_true_eq] at hsum
    show List.countP _ (extractBatchItems b outcomes) + List.countP _ (extractBatchItems b outcomes) = b.files.length
    rw [hnot,← hsum]
    exact hlength

end Response

section Run
variable (c : Config) (b : Batch) (limit : ℕ)

/-- What holds of a batch in a state: the limit is kept; while an item is not done some
item can go on, but not for ever; and when all are done the response is aligned. -/
structure BatchRuns (s : Gather ServiceOp.Reply Exc Answer Local World) : Prop where
  limited : Gather.insideCount s.slots ≤ limit
  goesOn : 0 < limit → (∃ x ∈ s.slots, x.isDone = false) →
    ∃ s', Gather.Step (Machine.handler c.processor) limit s s'
  finite : ∀ run : ℕ → List (Slot ServiceOp.Reply Exc Answer Local), run 0 = s.slots →
    ¬ ∀ n, Gather.Later (run (n + 1)) (run n)
  ended : (∀ x ∈ s.slots, x.isDone = true) → ∃ outcomes, s.slots = outcomes.map Slot.done ∧
    Aligned b outcomes (batchExtract b outcomes)

variable {c b limit}

theorem batchSlots_waiting {x : Slot ServiceOp.Reply Exc Answer Local} (hx : x ∈ batchSlots c b) :
    ∃ file l, x = .waiting (itemProgram c b file) l := by
  obtain ⟨i,hi,rfl⟩ := List.mem_mapIdx.mp hx
  exact ⟨_,_,rfl⟩

/-- **Batches.** Under every schedule of its items, whatever else happens to the database,
the files and the queue, a batch keeps the limit, comes to its end, and then has one
entry for each file, in order, that is made from the file's own outcome and counted. -/
theorem batch_runs {s : Gather ServiceOp.Reply Exc Answer Local World}
    (hs : Gather.Reachable (Machine.handler c.processor) limit (batchSlots c b) s) : BatchRuns c b limit s := by
  have hnone : Gather.insideCount (batchSlots c b) = 0 := by
    refine List.countP_eq_zero.mpr fun x hx => ?_
    obtain ⟨file,l,rfl⟩ := batchSlots_waiting hx
    exact Bool.false_ne_true
  have hgiven : ∀ x ∈ s.slots, x.Given Answers (Reported Answer.status) := by
    refine hs.given (handler_answers c.processor) fun x hx => ?_
    obtain ⟨file,l,rfl⟩ := batchSlots_waiting hx
    exact extractDocument_reports _
  refine ⟨hs.inside_le (hnone ▸ Nat.zero_le limit),Gather.exists_step,fun run hstart hrun => ?_,fun hdone => ?_⟩
  · exact (acc_iff_isEmpty_descending_chain.mp (Gather.acc_later s.slots)).false ⟨run,hstart,hrun⟩
  · obtain ⟨outcomes,houtcomes⟩ := Gather.exists_outcomes hdone
    refine ⟨outcomes,houtcomes,batchExtract_aligned ?_ fun outcome ho => ?_⟩
    · have hlen := hs.length
      rwa [houtcomes,List.length_map,batchSlots,List.length_mapIdx] at hlen
    · exact hgiven (.done outcome) (houtcomes ▸ List.mem_map_of_mem ho)

/-- Two files to be queued, of which the second finds no queue and no provider. -/
def sampleBatch : Batch where
  files := [⟨"a.pdf",[37,80,68,70],sampleEnv (.ok "job") unreachable,none⟩,
    ⟨"b.pdf",[37,80,68,70],sampleEnv (.error (.other "ConnectionError")) unreachable,none⟩]
  docType := some "contract"
  strategy := none
  asyncMode := true
  first := 0
  str _ := "error"

theorem sampleBatch_runs : ∃ s : Gather ServiceOp.Reply Exc Answer Local World,
    Gather.Reachable (Machine.handler (sampleConfig true).processor) batchConcurrencyLimit
      (batchSlots (sampleConfig true) sampleBatch) s ∧
    (∀ x ∈ s.slots, x.isDone = true) ∧ BatchRuns (sampleConfig true) sampleBatch batchConcurrencyLimit s := by
  have hstart : Gather.Reachable (Machine.handler (sampleConfig true).processor) batchConcurrencyLimit
      (batchSlots (sampleConfig true) sampleBatch) ⟨_,emptyWorld⟩ := .start emptyWorld
  have hboth := (hstart.through (i := 0) rfl (by decide)).through (i := 1) rfl (by decide)
  exact ⟨_,hboth,by simp [batchSlots,sampleBatch,Slot.isDone],batch_runs hboth⟩

end Run

end Service

end StructuredExtractor
