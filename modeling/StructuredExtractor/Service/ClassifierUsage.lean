import StructuredExtractor.Service.Ledger

/-! # The usage of the classifier

The usage of a classification travels with what was resolved, and is written by the two
recorders. Between the classifier's answer and the recorders the type is checked, the
strategy is resolved and the pipeline runs; an exception from there, other than an
extraction error, takes the usage with it.
-/
namespace StructuredExtractor
open Service

namespace DocumentProcessor
variable (p : DocumentProcessor)

/-- The classification of a document and what the provider answers next. -/
def classification (input : ProcessingInput) (e : ModelEnv) : Except Exc ClassificationResult × ModelEnv :=
  (ClassifierService.classify p.libraries p.classifier (input.pages.headD "")).run ModelEnv.handler e

/-- After the classification `x` nothing is raised but extraction errors: the type is
registered, the strategy is one, and so the pipeline ends. -/
def Recordable (input : ProcessingInput) (x : ClassificationResult) (e : ModelEnv) : Prop :=
  x.docType ∈ SchemaRegistry.listTypes ∧ ∃ strategy,
    PageStrategyRunner.resolveStrategy input.strategy input.pageCount = .ok strategy ∧
    ∀ exc, ((runResolved p input.pages x.docType strategy).run ModelEnv.handler e).1 = .error exc →
      ∃ error, exc = .extraction error

variable {p} {input : ProcessingInput} {e e' : ModelEnv} {x : ClassificationResult}

theorem classification_purpose (h : classification p input e = (.ok x,e')) : x.usage.purpose = .classifier := by
  unfold classification ClassifierService.classify at h
  rw [Prog.run_bind] at h
  revert h
  rcases Prog.run ModelEnv.handler _ e with ⟨exc | completion,e''⟩ <;> intro h
  · cases h
  · obtain ⟨h,-⟩ := Prod.mk.inj h
    obtain rfl := Except.ok.inj h
    rfl

/-- What is resolved after a classification. -/
theorem run_resolveExtractionInput (hnone : input.docType = none)
    (h : classification p input e = (.ok x,e')) :
    (resolveExtractionInput p input).run ModelEnv.handler e =
      ((do
        validateDocType x.docType
        let strategy ← PageStrategyRunner.resolveStrategy input.strategy input.pageCount
        return ⟨x.docType,strategy,[x.usage]⟩),e') := by
  have hresolve : (resolveDocType p input).run ModelEnv.handler e = (.ok (x.docType,[x.usage]),e') := by
    unfold resolveDocType
    rw [hnone,Prog.run_bind,show Prog.run _ _ e = (.ok x,e') from h]
    rfl
  rw [resolveExtractionInput,Prog.run_bind,hresolve,Prog.andThen_ok,Prog.run_bind,Prog.run_ofExcept]
  cases validateDocType x.docType with
  | error exc => rfl
  | ok _ =>
    rw [Prog.andThen_ok,Prog.run_bind,Prog.run_ofExcept]
    cases PageStrategyRunner.resolveStrategy input.strategy input.pageCount <;> rfl

/-- What processing ends in after a classification: when nothing but extraction errors
is raised then, the usage is with the outcome, and otherwise nothing is recorded. -/
theorem processPages_classification (c : Config) (hnone : input.docType = none)
    (h : classification p input e = (.ok x,e')) :
    (Recordable p input x e' ∧ ∃ rec inputTokens outputTokens,
      recorded c ((processPages p input).run ModelEnv.handler e).1 = some rec ∧
      rec.events = [x.usage,extractionUsage c inputTokens outputTokens]) ∨
    (¬ Recordable p input x e' ∧ recorded c ((processPages p input).run ModelEnv.handler e).1 = none) := by
  rw [run_processPages,run_resolveExtractionInput hnone h]
  by_cases hmem : x.docType ∈ SchemaRegistry.listTypes
  · rw [show validateDocType x.docType = .ok () from if_pos hmem]
    cases hs : PageStrategyRunner.resolveStrategy input.strategy input.pageCount with
    | error exc =>
      have hinner := resolveStrategy_raises input.strategy input.pageCount exc hs
      refine .inr ⟨fun ⟨_,strategy,hok,_⟩ => (by rw [hs] at hok; cases hok),?_⟩
      cases exc with
      | documentProcessing resolved error => exact absurd hinner id
      | _ => rfl
    | ok strategy =>
      have hinner := runResolved_raises p input.pages x.docType strategy e'
      have hiff : Recordable p input x e' ↔ ∀ exc,
          ((runResolved p input.pages x.docType strategy).run ModelEnv.handler e').1 = .error exc →
            ∃ error, exc = .extraction error := by
        unfold Recordable
        rw [hs]
        exact ⟨fun ⟨_,s,hok,h⟩ => Except.ok.inj hok ▸ h,fun h => ⟨hmem,strategy,rfl,h⟩⟩
      rw [hiff]
      revert hinner
      dsimp only [bind,Except.bind,pure,Except.pure]
      rcases (runResolved p input.pages x.docType strategy).run ModelEnv.handler e' with ⟨exc | pipeline,e''⟩
      · intro hinner
        cases exc with
        | extraction error =>
          exact .inl ⟨fun _ h => ⟨error,(Except.error.inj h).symm⟩,_,error.inputTokens,error.outputTokens,rfl,rfl⟩
        | documentProcessing resolved error => exact absurd (hinner _ rfl) id
        | _ =>
          refine .inr ⟨fun h => ?_,rfl⟩
          obtain ⟨error,herror⟩ := h _ rfl
          cases herror
      · exact fun _ => .inl ⟨fun _ h => (by cases h),_,pipeline.extraction.inputTokens,
          pipeline.extraction.outputTokens,rfl,rfl⟩
  · refine .inr ⟨fun h => hmem h.1,?_⟩
    rw [show validateDocType x.docType = .error (.unsupportedDocumentType x.docType) from if_neg hmem]
    rfl

end DocumentProcessor

section Runs
variable {c : Config} {i : ℕ} {old : Database} {p : ServicePool}

/-- The usage row has the document, the purpose, the model and the tokens. -/
structure Charges (u : LLMUsage) (documentId : Uuid) (event : LLMUsageEvent) : Prop where
  documentId : u.documentId = documentId
  purpose : u.purpose = event.purpose
  model : u.model = event.model
  inputTokens : u.inputTokens = event.inputTokens
  outputTokens : u.outputTokens = event.outputTokens

/-- Run `i` wrote a row for the event, and it is durable. -/
def WroteUsage (w : World) (i : ℕ) (documentId : Uuid) (event : LLMUsageEvent) : Prop :=
  ∃ u ∈ w.db.llmUsages, (∃ a ∈ w.trace i, u ∈ a.usages) ∧ Charges u documentId event

/-- What the runs wrote is durable. -/
def UsagesKept (w : World) : Prop := ∀ q ∈ w.log, ∀ u ∈ q.2.usages, u ∈ w.db.llmUsages

theorem UsagesKept.act {w : World} (h : UsagesKept w) (i : ℕ) (a : Action) : UsagesKept (w.act i a) := by
  intro q hq u hu
  rw [llmUsages_act]
  rw [log_act,List.mem_append,List.mem_singleton] at hq
  obtain hq | rfl := hq
  · exact List.mem_append_left _ (h q hq u hu)
  · exact List.mem_append_right _ hu

theorem silent_usages {as : List Action} (h : ∀ a ∈ as, a.Silent) : ¬ ∃ a ∈ as, ∃ u, u ∈ a.usages := by
  rintro ⟨a,ha,u,hu⟩
  rw [(h a ha).2] at hu
  cases hu

/-- A run that classified its document wrote the usage exactly when it recorded. -/
theorem Did.wroteUsage {model : ModelEnv} {t : Trail} {w : World} (h : Did c i model t (w.trace i))
    (hkept : UsagesKept w) {input : ProcessingInput} {o : Except Exc DocumentProcessingResult}
    (hprocessed : (input,o) ∈ t.processed) {x : ClassificationResult} {e : ModelEnv} (hnone : input.docType = none)
    (hx : DocumentProcessor.classification c.processor input model.tick = (.ok x,e)) :
    ∃ id, t.started = [id] ∧
      (WroteUsage w i id x.usage ↔ DocumentProcessor.Recordable c.processor input x e) := by
  generalize htrace : w.trace i = as at h
  cases h with
  | nothing hnothing => rw [hnothing] at hprocessed; cases hprocessed
  | @processed known before otherwise as input' hone hstarted hbefore hother hrec =>
    rw [hone] at hprocessed
    obtain ⟨rfl,-⟩ := Prod.mk.inj (List.mem_singleton.mp hprocessed)
    refine ⟨known.id,hstarted,?_⟩
    obtain ⟨hrecordable,rec,inputTokens,outputTokens,hr,hevents⟩ | ⟨hnot,hr⟩ :=
      DocumentProcessor.processPages_classification c hnone hx
    · refine iff_of_true ?_ hrecordable
      unfold Recording at hrec
      rw [show recorded c (outcomeOf c model input) = some rec from hr] at hrec
      obtain ⟨-,n,now,ms,rfl⟩ := hrec
      have husages := changes_usages rec i n now ms known
      rw [hevents] at husages
      have hmem : Action.commit (rec.changes i n now ms known) ∈ w.trace i := by rw [htrace]; simp
      have hu : usageRow i (n + 1) now.tail.head known.id (.drawn i n) x.usage ∈
          (Action.commit (rec.changes i n now ms known)).usages := by rw [husages]; exact List.mem_cons_self
      exact ⟨_,hkept _ (mem_trace.mp hmem) _ hu,⟨_,hmem,hu⟩,rfl,rfl,rfl,rfl,rfl⟩
    · refine iff_of_false ?_ hnot
      rintro ⟨u,-,⟨a,ha,hu⟩,-⟩
      unfold Recording at hrec
      rw [show recorded c (outcomeOf c model input) = none from hr] at hrec
      obtain rfl : as = otherwise := hrec
      exact silent_usages (silent_append hbefore hother) ⟨a,htrace ▸ ha,u,hu⟩

/-- **The classifier's usage.** In every interleaving without database failures, a run
that has ended and whose document was classified has a durable usage row for that
exactly when nothing but an extraction error was raised after the classification. -/
theorem classifier_usage_iff {w₀ : World} (hlog : w₀.log = [])
    (hp : Pool.Reachable (Machine.handler c.processor) (Starts c) w₀ p) {t : ServiceThread}
    {r : Except Exc Answer} (ht : p.threads[i]? = some t) (hdone : t.prog = .done r) {input : ProcessingInput}
    {o : Except Exc DocumentProcessingResult} (hprocessed : (input,o) ∈ t.loc.processed)
    (hnone : input.docType = none) {x : ClassificationResult} {e : ModelEnv}
    (hx : DocumentProcessor.classification c.processor input t.label.env.model.tick = (.ok x,e)) :
    x.usage.purpose = .classifier ∧ ∃ id, t.loc.started = [id] ∧
      (WroteUsage p.shared i id x.usage ↔ DocumentProcessor.Recordable c.processor input x e) := by
  have hinit : UsagesKept w₀ := fun q hq => by rw [hlog] at hq; cases hq
  obtain ⟨-,hkept,hended⟩ := pool_induction (I := fun p => UsagesKept p.shared) (G := fun _ _ => True)
    (fun h => h) hlog hinit (fun h _ _ _ => h) (fun _ h _ _ _ _ => h.act _ _)
    (fun _ h ht => ⟨trivial,by cases ht <;> exact h⟩) hp
  obtain ⟨w,htrace,-,hends⟩ := hended i t r ht hdone
  exact ⟨DocumentProcessor.classification_purpose hx,
    (hends.did (interleaved_fits c i t.label) htrace).wroteUsage hkept hprocessed hnone hx⟩

end Runs

section Sample

def classifiedInput : ProcessingInput := ⟨["Agreement"],1,none,none⟩

/-- The document is classified, and then its extraction fails. -/
theorem contractRun_usage : ∃ x e,
    DocumentProcessor.classification (sampleConfig true).processor classifiedInput
      (ModelEnv.start (textReplies "Contract") (Stream'.const 0)).tick = (.ok x,e) ∧
    x.usage.purpose = .classifier ∧ ∃ id, (classifiedRun "Contract").2.1.started = [id] ∧
      (WroteUsage (classifiedRun "Contract").2.2 0 id x.usage ↔
        DocumentProcessor.Recordable (sampleConfig true).processor classifiedInput x e) := by
  have hpool : Pool.Reachable (Machine.handler (sampleConfig true).processor) (Starts (sampleConfig true))
      emptyWorld _ := .through .refl (@Starts.request _ _ untypedUpload
        (sampleEnv (.ok "job") (textReplies "Contract")) rfl)
  have hfirst : (classifiedRun "Contract").2.1.processed.map Prod.fst = [classifiedInput] := by decide
  obtain ⟨q,hq,hinput⟩ := List.mem_map.mp (hfirst ▸ List.mem_singleton_self classifiedInput)
  obtain ⟨input,o⟩ := q
  obtain rfl : input = classifiedInput := hinput
  exact ⟨_,_,rfl,classifier_usage_iff (i := 0) rfl hpool rfl rfl hq rfl rfl⟩

/-- The classifier does not know the document: the run raises, and the usage is lost. -/
theorem unknownRun_unrecorded : (classifiedRun "unknown").1 = .error (.unsupportedDocumentType "unknown") ∧
    (classifiedRun "unknown").2.1.started = [.drawn 0 0] ∧
    (∃ x e, DocumentProcessor.classification (sampleConfig true).processor classifiedInput
      (ModelEnv.start (textReplies "unknown") (Stream'.const 0)).tick = (.ok x,e) ∧
      x.usage = ⟨.classifier,"openai/gpt-4.1-mini",310,2⟩) ∧
    (classifiedRun "unknown").2.2.db.llmUsages = [] := by
  refine ⟨by decide,by decide,⟨_,_,rfl,rfl⟩,by decide⟩

end Sample

end StructuredExtractor
