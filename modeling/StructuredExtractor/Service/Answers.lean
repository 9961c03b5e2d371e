import StructuredExtractor.Extraction.OnePage
import StructuredExtractor.Service.Desk
import StructuredExtractor.Service.Ledger

/-! # An answer is durable

A run that answers with an extraction has committed it, whatever failed on the way:
from the moment the extraction row is added, every failure drops the answer too, and
only the commit lets the response through.
-/
namespace StructuredExtractor
open Service

/-- What an extract response says of an extraction: all but the duration. -/
def ExtractionResponse.extractResponse (r : ExtractionResponse) : ExtractResponse where
  extractionId := r.extractionId
  documentId := r.documentId
  docType := r.docType
  status := r.status
  extractedData := r.extractedData
  confidenceMap := r.confidenceMap
  warnings := r.warnings
  modelUsed := r.modelUsed
  inputTokens := r.inputTokens
  outputTokens := r.outputTokens

/-- The response tells of an extraction that is durable. -/
def Told (w : World) (response : ExtractResponse) : Prop :=
  ∃ x ∈ w.db.extractions, response = (toExtractionResponse x).extractResponse

/-- So does the answer of a run, with the fallback warning where the queue was wanted. -/
def Tells (asyncMode : Bool) (w : World) (answer : Answer) : Prop :=
  ∀ response, answer = .extract response → ∃ x ∈ w.db.extractions,
    answer = inlineAnswer asyncMode (toExtractionResponse x).extractResponse

/-- The table of extractions only grows. -/
def growing : Discipline Label World where
  guar _ _ w w' := w.db.extractions <+: w'.db.extractions
  rely _ w w' := w.db.extractions <+: w'.db.extractions
  guar_refl _ _ _ := List.prefix_rfl
  rely_refl _ _ := List.prefix_rfl
  rely_trans h h' := h.trans h'
  guar_rely _ h := h

/-- The session knows the document. -/
def Session.Knows (s : Session) (d : Uuid) : Prop := ∃ t, s.document = some t ∧ t.attributes.id = d

/-- The session knows the document of the row and has the row to make it durable. -/
structure Session.Carries (s : Session) (row : Extraction) : Prop where
  knows : s.Knows row.documentId
  row : .insertExtraction row ∈ s.flushed ++ s.pending

/-- The operations between the row and its commit. -/
def ServiceOp.Accounts : ServiceOp → Prop
  | .addUsage _ | .flush | .refreshExtraction _ | .documentAttributes | .uuid4 | .now => True
  | _ => False

section Calls
variable {l l' : Local} {w : World} {p : DocumentProcessor} {row : Extraction} {failed : Session → Session}

theorem handler_grows (op : ServiceOp) (l : Local) (w : World) :
    w.db.extractions <+: (Machine.handler p op (l,w)).2.2.db.extractions := by
  by_cases hadds : op.AddsNothing
  · rcases (handler_moved (p := p) op hadds l w).world with hsame | ⟨a,ha,-⟩
    · rw [hsame]
    · rw [ha,extractions_act]
      exact List.prefix_append _ _
  · obtain ⟨id,hid⟩ := Option.ne_none_iff_exists'.mp hadds
    rw [(handler_adds hid l w).1]

/-- A flush that goes through drops nothing. -/
theorem flush_carries (h : l.flush = (.ok (),l')) (hc : l.session.Carries row) : l'.session.Carries row := by
  unfold Local.flush at h
  split at h
  · cases h; exact hc
  · split at h
    · cases h
    · cases hdb : l.env.db.head with
      | none =>
        rw [hdb] at h
        cases h
        exact ⟨hc.knows,by simpa [Local.setSession,Session.flushOk] using hc.row⟩
      | some e => rw [hdb] at h; cases h

theorem call_carries (h : l.call failed = (.ok (),l')) (hc : l.session.Carries row) :
    l'.session.Carries row := by
  unfold Local.call at h
  rcases hf : l.flush with ⟨_ | _,l₁⟩
  · rw [hf] at h
    cases h
  · have hc₁ := flush_carries hf hc
    rw [hf] at h
    dsimp only at h
    split at h
    · cases h
    · cases hdb : l₁.env.db.head with
      | none => rw [hdb] at h; cases h; exact hc₁
      | some e => rw [hdb] at h; cases h

/-- A call that goes through leaves nothing to flush. -/
theorem call_flushed (h : l.call failed = (.ok (),l')) : l'.session.pending = [] := by
  unfold Local.call at h
  rcases hf : l.flush with ⟨_ | _,l₁⟩
  · rw [hf] at h
    cases h
  · have hpending : l₁.session.pending = [] := by
      unfold Local.flush at hf
      split at hf
      · next hp => cases hf; exact hp
      · split at hf
        · cases hf
        · cases hdb : l.env.db.head with
          | none => rw [hdb] at hf; cases hf; rfl
          | some e => rw [hdb] at hf; cases hf
    rw [hf] at h
    dsimp only at h
    split at h
    · cases h
    · cases hdb : l₁.env.db.head with
      | none => rw [hdb] at h; cases h; exact hpending
      | some e => rw [hdb] at h; cases h

theorem commit_carries (h : l.commit = (.ok (),l')) (hc : l.session.Carries row) :
    l'.session.pending = [] ∧ l'.session.Carries row := by
  obtain ⟨hpending,hidle⟩ | hcall := l.commit_cases
  · rw [hidle] at h
    cases h
    exact ⟨hpending,hc⟩
  · rw [hcall] at h
    exact ⟨call_flushed h,call_carries h hc⟩

/-- What happens between the row and its commit keeps the row, as long as it succeeds. -/
theorem handler_carries {op : ServiceOp} (hop : op.Accounts) {a : op.Reply} (hc : l.session.Carries row)
    (h : (Machine.handler p op (l,w)).1 = .ok a) : (Machine.handler p op (l,w)).2.1.session.Carries row := by
  cases op with
  | addUsage u =>
    refine ⟨hc.knows,?_⟩
    show _ ∈ l.session.flushed ++ (l.session.pending ++ _)
    rw [← List.append_assoc]
    exact List.mem_append_left _ hc.row
  | flush =>
    rcases hf : l.flush with ⟨_ | _,l₁⟩
    · rw [Machine.handler_flush p hf] at h
      cases h
    · rw [Machine.handler_flush p hf]
      exact flush_carries hf hc
  | refreshExtraction id =>
    simp only [Machine.handler,Machine.refreshExtraction] at h ⊢
    rcases hcall : l.call fun s => { s with begun := true } with ⟨_ | _,l₁⟩
    · rw [hcall] at h
      cases h
    · have hc₁ := call_carries hcall hc
      dsimp only
      split <;> exact ⟨hc₁.knows,hc₁.row⟩
  | documentAttributes => exact hc
  | uuid4 => exact hc
  | now => exact hc
  | _ => cases hop

/-- A commit that goes through makes the row durable. -/
theorem commit_tells {a : Unit} (hc : l.session.Carries row) (h : (Machine.handler p .commit (l,w)).1 = .ok a) :
    row ∈ (Machine.handler p .commit (l,w)).2.2.db.extractions := by
  simp only [Machine.handler,Machine.commit] at h ⊢
  rcases hcall : l.commit with ⟨_ | _,l₁⟩
  · rw [hcall] at h
    cases h
  · obtain ⟨hpending,hcarries⟩ := commit_carries hcall hc
    have hrow := hcarries.row
    rw [hpending,List.append_nil] at hrow
    have hne : l₁.session.flushed ≠ [] := List.ne_nil_of_mem hrow
    simp only [hne,if_false]
    rw [extractions_act]
    exact List.mem_append_right _ (List.mem_filterMap.mpr ⟨_,hrow,rfl⟩)

end Calls

section Runs
variable {c : Config} {p : DocumentProcessor} {i : ℕ} {label : Label} {l : Local} {w : World} {α β : Type}

/-- Every program keeps to the discipline. -/
theorem grows_safe (q : ServiceProg α) :
    q.Safe (Machine.handler p) growing i label (fun _ _ _ => True) l w := by
  have honly : q.Only fun _ => True := by
    induction q with
    | done r => trivial
    | call op k ih => exact ⟨trivial,ih⟩
  exact honly.safe (I := fun _ _ => True) (fun _ _ _ _ _ => trivial) (fun op l w _ _ => handler_grows op l w)
    (fun _ _ _ _ _ => trivial) trivial

/-- What comes before does not matter. -/
theorem bind_grows {q : ServiceProg α} {f : α → ServiceProg β} {Q : Except Exc β → Local → World → Prop}
    (hf : ∀ a l w, (f a).Safe (Machine.handler p) growing i label Q l w)
    (herror : ∀ e l w, Q (.error e) l w) : (q >>= f).Safe (Machine.handler p) growing i label Q l w :=
  Prog.safe_bind (grows_safe q) (fun a l w _ => hf a l w) fun e l w _ => herror e l w

/-- A program that returns ends in `Q`. -/
abbrev Returns (p : DocumentProcessor) (i : ℕ) (label : Label) (q : ServiceProg α) (Q : α → Local → World → Prop)
    (l : Local) (w : World) : Prop :=
  q.Safe (Machine.handler p) growing i label (fun r l w => ∀ a, r = .ok a → Q a l w) l w

theorem returns_bind {q : ServiceProg α} {f : α → ServiceProg β} {R : α → Local → World → Prop}
    {Q : β → Local → World → Prop} (hq : Returns p i label q R l w)
    (hf : ∀ a l w, R a l w → Returns p i label (f a) Q l w) : Returns p i label (q >>= f) Q l w :=
  Prog.safe_bind hq (fun a l w h => hf a l w (h a rfl)) fun _ _ _ _ _ h => by cases h

theorem returns_after {q : ServiceProg α} {f : α → ServiceProg β} {Q : β → Local → World → Prop}
    (hf : ∀ a l w, Returns p i label (f a) Q l w) : Returns p i label (q >>= f) Q l w :=
  bind_grows hf fun _ _ _ _ h => by cases h

theorem returns_pure {a : α} {Q : α → Local → World → Prop}
    (h : ∀ w', w.db.extractions <+: w'.db.extractions → Q a l w') : Returns p i label (pure a) Q l w :=
  Prog.safe_done fun w' hw b hb => by cases hb; exact h w' hw

theorem returns_throw (e : Exc) (Q : α → Local → World → Prop) : Returns p i label (throw e : ServiceProg α) Q l w :=
  Prog.safe_done fun _ _ _ h => by cases h

/-- A guard that raises again. -/
theorem returns_tryCatch {q : ServiceProg α} {f : Exc → ServiceProg α} {Q : α → Local → World → Prop}
    (hq : Returns p i label q Q l w) (hf : ∀ e l w, Returns p i label (f e) Q l w) :
    Returns p i label (tryCatch q f) Q l w :=
  Prog.safe_tryCatch hq (fun _ _ _ h => h) fun e l w _ => hf e l w

/-- What the operations between the row and its commit keep, a program of them keeps. -/
theorem returns_accounts {q : ServiceProg α} {row : Extraction} (hq : q.Straight ServiceOp.Accounts)
    (h : l.session.Carries row) : Returns p i label q (fun _ l _ => l.session.Carries row) l w := by
  refine Prog.Safe.mono (hq.safe (I := fun l _ => l.session.Carries row) (fun _ _ _ h _ => h)
    (fun op l w _ _ => handler_grows op l w) (fun op l w a hop h ha => handler_carries hop h ha) h) ?_
  rintro r l w hr a rfl
  exact hr rfl

/-- One operation. -/
theorem returns_op {op : ServiceOp} {Q : op.Reply → Local → World → Prop}
    (hQ : ∀ w₁ a w₂, w.db.extractions <+: w₁.db.extractions → (Machine.handler p op (l,w₁)).1 = .ok a →
      (Machine.handler p op (l,w₁)).2.2.db.extractions <+: w₂.db.extractions →
      Q a (Machine.handler p op (l,w₁)).2.1 w₂) : Returns p i label (perform op) Q l w :=
  fun w₁ hw₁ => ⟨handler_grows op l w₁,fun w₂ hw₂ a ha => hQ w₁ a w₂ hw₁ ha hw₂⟩

theorem Told.grows {w' : World} {response : ExtractResponse} (h : Told w response)
    (hw : w.db.extractions <+: w'.db.extractions) : Told w' response := by
  obtain ⟨x,hx,hr⟩ := h
  exact ⟨x,hw.subset hx,hr⟩

/-- The attributes of a document that the session knows. -/
theorem returns_attributes {Q : Document → Local → World → Prop}
    (h : ∀ document w', l.session.Knows document.id → w.db.extractions <+: w'.db.extractions → Q document l w') :
    Returns p i label (perform .documentAttributes) Q l w := by
  refine Prog.safe_perform fun w₁ hw₁ => ⟨_,_,_,rfl,List.prefix_rfl,fun w₂ hw₂ document hd => ?_⟩
  refine h document w₂ ?_ (hw₁.trans hw₂)
  unfold Session.documentAttributes at hd
  cases ht : l.session.document with
  | none => rw [ht] at hd; cases hd
  | some t =>
    rw [ht] at hd
    dsimp only at hd
    split at hd
    · cases hd
    · cases hd; exact ⟨t,ht,rfl⟩

theorem Session.Knows.unique {s : Session} {d d' : Uuid} (h : s.Knows d) (h' : s.Knows d') : d = d' := by
  obtain ⟨t,ht,rfl⟩ := h
  obtain ⟨t',ht',rfl⟩ := h'
  rw [ht] at ht'
  cases ht'
  rfl

theorem straight_addUsageEvents (documentId extractionId : Uuid) (events : List LLMUsageEvent)
    (inputTokens outputTokens : ℕ) :
    (addUsageEvents c documentId extractionId events inputTokens outputTokens).Straight ServiceOp.Accounts := by
  have hcreate : ∀ event, (createUsage documentId extractionId event).Straight ServiceOp.Accounts := fun event =>
    (Prog.straight_perform trivial).bind fun _ => (Prog.straight_perform trivial).bind fun _ =>
      (Prog.straight_perform trivial).bind fun _ => Prog.straight_perform trivial
  exact (Prog.straight_forM events fun event _ => hcreate event).bind fun _ => hcreate _

/-- A success that is recorded and not committed yet: the session has its row. -/
theorem recordSuccess_carries (r : DocumentProcessingResult) :
    Returns p i label (recordSuccess c r) (fun response l _ => ∃ row, l.session.Carries row ∧
      response = (toExtractionResponse row).extractResponse) l w := by
  refine returns_bind (R := fun document l _ => l.session.Knows document.id)
    (returns_attributes fun _ _ h _ => h) fun document l w hknows => ?_
  refine returns_bind (R := fun _ l _ => l.session.Knows document.id)
    (returns_op fun _ _ _ _ _ _ => hknows) fun id l w hknows => ?_
  refine returns_bind (R := fun _ l _ => l.session.Knows document.id)
    (returns_op fun _ _ _ _ _ _ => hknows) fun createdAt l w hknows => ?_
  set row := successExtraction c id document.id r.pipeline createdAt
  have hcreate : Returns p i label (createFromFields row) (fun _ l _ => l.session.Carries row) l w := by
    refine returns_bind (R := fun _ l _ => l.session.Carries row) (returns_op fun _ _ _ _ _ _ => ⟨hknows,?_⟩)
      fun _ l w hc => returns_accounts ?_ hc
    · simp [Machine.handler,Session.add]
    · exact (Prog.straight_perform trivial).bind fun _ => Prog.straight_perform trivial
  refine returns_bind hcreate fun _ l w hc => returns_bind (returns_accounts (Prog.straight_perform trivial) hc)
    fun document' l w hc => returns_bind (returns_accounts (straight_addUsageEvents _ _ _ _ _) hc) fun _ l w hc =>
    returns_bind (returns_accounts (Prog.straight_perform trivial) hc) fun _ l w hc => ?_
  refine returns_bind (R := fun document'' l _ => l.session.Carries row ∧ document''.id = document.id)
    (returns_attributes fun _ _ h _ => ⟨hc,h.unique hc.knows⟩) fun document'' l w h => returns_pure fun w' _ => ?_
  exact ⟨row,h.1,by rw [h.2]; rfl⟩

theorem recordOutcome_tells (startedAt : ℚ) (o : Except Exc DocumentProcessingResult) :
    Returns p i label (recordOutcome c startedAt o) (fun response _ w => Told w response) l w := by
  cases o with
  | ok r =>
    refine returns_after fun _ l w => returns_bind (recordSuccess_carries r) fun response l w h => ?_
    obtain ⟨row,hc,rfl⟩ := h
    exact returns_bind (R := fun _ _ w => row ∈ w.db.extractions)
      (returns_op fun w₁ a w₂ _ ha hw₂ => hw₂.subset (commit_tells hc ha)) fun _ l w hrow =>
      returns_pure fun w' hw => ⟨row,hw.subset hrow,rfl⟩
  | error e =>
    cases e with
    | documentProcessing resolved original => exact returns_after fun _ _ _ => returns_throw _ _
    | _ => exact returns_throw _ _

theorem processDocumentPages_tells (pages : List String) (docType strategy : Option String) :
    Returns p i label (processDocumentPages c pages docType strategy) (fun response _ w => Told w response) l w :=
  returns_after fun _ _ _ => returns_after fun _ _ _ => recordOutcome_tells _ _

theorem processUploadedInline_tells (content : Bytes) (filename : String) (docType strategy : Option String) :
    Returns p i label (processUploadedInline c content filename docType strategy)
      (fun response _ w => Told w response) l w := by
  refine returns_after fun intake _ _ => returns_after fun _ _ _ => returns_after fun _ _ _ => ?_
  refine returns_tryCatch (returns_after fun _ _ _ => processDocumentPages_tells _ _ _) fun e _ _ => ?_
  exact returns_after fun _ _ _ => returns_throw _ _

theorem processExistingInline_tells (documentId : Uuid) (docType strategy : Option String) :
    Returns p i label (processExistingInline c documentId docType strategy)
      (fun response _ w => Told w response) l w := by
  refine returns_after fun found _ _ => ?_
  cases found with
  | none => exact returns_throw _ _
  | some document =>
    refine returns_after fun _ _ _ => returns_after fun _ _ _ => returns_tryCatch
      (returns_after fun _ _ _ => processDocumentPages_tells _ _ _) fun e _ _ => ?_
    exact returns_after fun _ _ _ => returns_after fun _ _ _ => returns_throw _ _

theorem Told.tells (asyncMode : Bool) {response : ExtractResponse} (h : Told w response) :
    Tells asyncMode w (inlineAnswer asyncMode response) := by
  obtain ⟨x,hx,rfl⟩ := h
  exact fun _ _ => ⟨x,hx,rfl⟩

theorem tells_async (asyncMode : Bool) (w : World) (documentId : Uuid) (jobId : String) :
    Tells asyncMode w (.async documentId jobId) := fun _ h => by cases h

theorem Tells.grows {asyncMode : Bool} {w' : World} {answer : Answer} (h : Tells asyncMode w answer)
    (hw : w.db.extractions <+: w'.db.extractions) : Tells asyncMode w' answer := by
  intro response hr
  obtain ⟨x,hx,heq⟩ := h response hr
  exact ⟨x,hw.subset hx,heq⟩

theorem extractDocument_tells (r : ExtractRequest) :
    Returns p i label (extractDocument c r) (fun answer _ w => Tells r.asyncMode w answer) l w := by
  have hexisting : ∀ id l w, Returns p i label (extractExistingDocument c id r.docType r.strategy r.asyncMode)
      (fun answer _ w => Tells r.asyncMode w answer) l w := by
    intro id l w
    unfold extractExistingDocument
    split
    · refine returns_after fun found _ _ => ?_
      cases found with
      | none => exact returns_throw _ _
      | some document => exact returns_after fun _ _ _ => returns_pure fun _ _ => tells_async _ _ _ _
    · exact returns_bind (processExistingInline_tells _ _ _) fun response _ _ h =>
        returns_pure fun w' hw => (h.grows hw).tells _
  unfold extractDocument
  split
  · unfold extractUploadedDocument
    split
    · exact returns_bind (processUploadedInline_tells _ _ _ _) fun response _ _ h =>
        returns_pure fun w' hw => (h.grows hw).tells _
    · next hasync =>
      have htrue : r.asyncMode = true := by
        cases h : r.asyncMode <;> simp_all
      refine returns_after fun intake _ _ => returns_after fun _ _ _ => returns_tryCatch ?_ fun e _ _ => ?_
      · exact returns_after fun _ _ _ => returns_after fun _ _ _ => returns_after fun _ _ _ =>
          returns_pure fun _ _ => tells_async _ _ _ _
      · refine returns_after fun _ _ _ => returns_bind (processDocumentPages_tells _ _ _) fun response _ _ h =>
          returns_pure fun w' hw => ?_
        rw [htrue]
        exact (h.grows hw).tells _
  · exact returns_throw _ _
  · exact hexisting _ _ _
  · exact returns_throw _ _

/-- The answer of every run tells of what is durable. -/
theorem programOf_tells (s : Source) :
    Returns p i label (programOf c s) (fun answer _ w => Tells s.asyncMode w answer) l w := by
  cases s with
  | request r =>
    refine getDb_safe (extractDocument_tells r) (fun _ _ _ _ h hw answer ha => (h answer ha).grows hw)
      (fun _ l w h => ?_) fun _ _ _ h => h
    have hgrows := handler_grows (p := p) .commit l w
    exact ⟨hgrows,fun answer ha => (h answer ha).grows hgrows⟩
  | worker job =>
    refine Prog.safe_map (Prog.Safe.mono (processExistingInline_tells (c := { c with pool := false }) _ _ _) ?_)
    rintro (e | response) l w h answer ha
    · cases ha
    · cases ha
      exact (h response rfl).tells false

end Runs

/-- In every pool of runs that tell of what is durable, whatever failed, those that have finished do. -/
theorem tells_finished {c : Config} {starts : ServicePool → ServiceThread → World → Prop} {w₀ : World} {p : ServicePool}
    (hstarts : ∀ {p t g}, starts p t g → g.db = p.shared.db ∧ ∀ l w, Returns c.processor p.threads.length t.label t.prog
      (fun answer _ w => Tells t.label.source.asyncMode w answer) l w)
    (hp : Pool.Reachable (Machine.handler c.processor) starts w₀ p) {i : ℕ} {t : ServiceThread} {answer : Answer}
    (ht : p.threads[i]? = some t) (hdone : t.prog = .done (.ok answer)) :
    Tells t.label.source.asyncMode p.shared answer := by
  have hsafe := (Pool.reachable_induction (D := growing) (I := fun _ => True)
    (Q := fun _ label r _ w => ∀ answer, r = .ok answer → Tells label.source.asyncMode w answer) trivial
    (fun _ _ _ _ _ _ _ _ _ _ _ => trivial) (fun p t g _ _ ht => ?_) hp).2 i t ht
  · rw [hdone] at hsafe
    exact hsafe p.shared List.prefix_rfl answer rfl
  · obtain ⟨hdb,hreturns⟩ := hstarts ht
    refine ⟨fun _ => ?_,hreturns _ _,trivial⟩
    show p.shared.db.extractions <+: g.db.extractions
    rw [hdb]

theorem Arrives.tells {c : Config} {p : ServicePool} {t : ServiceThread} {g : World} (h : Arrives c p t g) :
    g.db = p.shared.db ∧ ∀ l w, Returns c.processor p.threads.length t.label t.prog
      (fun answer _ w => Tells t.label.source.asyncMode w answer) l w := by
  cases h with
  | @request r env => exact ⟨rfl,fun _ _ => programOf_tells (.request r)⟩
  | @worker job env _ _ _ => exact ⟨rfl,fun _ _ => programOf_tells (.worker job)⟩

/-- **Rows stay, and answers are among them.** However calls fail and runs interleave, no
key is used twice, a later state has every row of an earlier one, a document up to its
status, and the extraction of every answer. -/
theorem rows_stay {c : Config} {w₀ : World} {p p' : ServicePool} (hlog : w₀.log = []) (hw₀ : w₀.db.Before)
    (hp : Pool.Reachable (Machine.handler c.processor) (Arrives c) w₀ p)
    (hp' : Relation.ReflTransGen (Pool.Step (Machine.handler c.processor) (Arrives c)) p p') :
    (p'.shared.db.extractions.map Extraction.id).Nodup ∧ (p'.shared.db.llmUsages.map LLMUsage.id).Nodup ∧
      p.shared.db.Extends p'.shared.db ∧ ∀ (i : ℕ) (t : ServiceThread) (answer : Answer), p.threads[i]? = some t →
        t.prog = .done (.ok answer) → Tells t.label.source.asyncMode p'.shared answer := by
  obtain ⟨hextractions,husages,hextends⟩ := database_extends hlog hw₀ hp hp'
  exact ⟨hextractions,husages,hextends,fun i t answer ht hdone =>
    (tells_finished Arrives.tells hp ht hdone).grows hextends.extractions⟩

section Sample

theorem storedWorld_before : storedWorld.db.Before where
  documents := by
    intro id row hrow
    refine ⟨0,by_contra fun hne => ?_⟩
    rw [show storedWorld.db.documents id = none from Function.update_of_ne hne _ _] at hrow
    cases hrow
  extractions x hx := by cases hx
  usages u hu := by cases hu
  extractionKeys := List.nodup_nil
  usageKeys := List.nodup_nil

/-- The provider answers. -/
def answeredEnv : Env := sampleEnv (.ok "job") (toolCallReplies "contract" plainContract)

def answeredRun : Except Exc Answer × Local × World :=
  runAlone (sampleConfig false) 0 (.request (sampleExisting true)) answeredEnv storedWorld

theorem answeredRun_answer : ∃ response : ExtractResponse, answeredRun.1 = .ok (.extract response) ∧
    response.extractionId = .drawn 0 0 := by
  have h : (answeredRun.1.toOption.bind fun answer => match answer with
    | .extract response => some response.extractionId
    | _ => none) = some (.drawn 0 0) := by decide
  match hrun : answeredRun.1, h with
  | .ok (.extract response), h => exact ⟨response,rfl,Option.some.inj h⟩

theorem answeredRun_reachable : Pool.Reachable (Machine.handler (sampleConfig false).processor)
    (Arrives (sampleConfig false)) storedWorld
    ⟨[⟨⟨.request (sampleExisting true),answeredEnv⟩,.done answeredRun.1,answeredRun.2.1⟩],answeredRun.2.2⟩ :=
  Pool.through (@Arrives.request _ _ (sampleExisting true) answeredEnv)

theorem answeredRun_stays : ∃ response : ExtractResponse, answeredRun.1 = .ok (.extract response) ∧
    Tells true answeredRun.2.2 (.extract response) := by
  obtain ⟨response,hanswer,-⟩ := answeredRun_answer
  exact ⟨response,hanswer,(rows_stay rfl storedWorld_before answeredRun_reachable .refl).2.2.2 0 _ _ rfl
    (congrArg Prog.done hanswer)⟩

end Sample

end StructuredExtractor
