import StructuredExtractor.Schema.Information
import StructuredExtractor.Service.Corrections
import StructuredExtractor.Service.FinalStatus
import StructuredExtractor.Service.Ledger

/-! # What becomes of replies without information

The status of a validation decides over the status of the document and over the
corrections that are accepted. So an object of nulls that passes for a partial result
completes its document, and is accepted as a correction.
-/
namespace StructuredExtractor
open Service Validation

theorem extractions_acts (w : World) (i : ℕ) (as : List Action) :
    (w.acts i as).db.extractions = w.db.extractions ++ as.flatMap Action.extractions := by
  induction as generalizing w with
  | nil => exact (List.append_nil _).symm
  | cons a as ih =>
    have hrest := ih (w.act i a)
    rw [extractions_act,List.append_assoc] at hrest
    exact hrest

section Recorded
variable {c : Config} {i : ℕ} {w w₁ : World} {known : Document} {otherwise as : List Action}
variable {result : DocumentProcessingResult}

/-- The document has one more extraction, and both are failed. -/
def MarkedFailed (w w' : World) (id : Uuid) : Prop :=
  w'.db.status? id = some .failed ∧ ∃ x, w'.db.extractions = w.db.extractions ++ [x] ∧
    x.documentId = id ∧ x.status = .failed

/-- The result of a failed validation is recorded as failed. -/
theorem recording_failed {id : Uuid} (hrec : Recording c i known otherwise (.ok result) as) (hid : known.id = id)
    (hstatus : result.pipeline.validation.status = .failed) (hfound : w₁.db.documents id = some known)
    (hsame : w₁.db.extractions = w.db.extractions) : MarkedFailed w (w₁.acts i as) id := by
  subst hid
  have hrec' : Recording c i known [] (.ok result) as := hrec
  obtain ⟨-,n,now,ms,rfl⟩ := hrec
  refine ⟨?_,successExtraction c (.drawn i n) known.id result.pipeline now.head,?_,rfl,hstatus⟩
  · rw [Database.status?,documents_recording hrec' hfound]
    simp [afterOutcome,recorded,recordedSuccess,documentStatusFor,hstatus,Document.with]
  · rw [extractions_acts,hsame,List.flatMap_singleton,changes_extractions]
    rfl

theorem ends_failed {env : Env} {s : Source} {r : Except Exc Answer} {t : Trail} {w' : World}
    {input : ProcessingInput} (h : Ends c (alone i) i w env s r t w')
    (hresult : (input,.ok result) ∈ t.processed) (hstatus : result.pipeline.validation.status = .failed) :
    ∃ id, t.started = [id] ∧ MarkedFailed w w' id := by
  have hsetting : ∀ {w : World} {known : Document} {status : DocumentStatus},
      (w.acts i (setting known status)).db.extractions = w.db.extractions := by
    intro w known status
    rw [extractions_acts,silent_extractions setting_silent,List.append_nil]
  have hcreated : ∀ {w : World} {path : StoragePath} {content : Bytes} {row : Document},
      (w.acts i [.save path content,.commit [.insertDocument row]]).db.extractions = w.db.extractions := by
    intro w path content row
    rw [extractions_acts,silent_extractions (created_silent path content row),List.append_nil]
  cases h with
  | uploadInline hkind hcontent hfilename hup hinput hrec hw hanswer =>
    obtain ⟨-,heq⟩ := Prod.mk.inj (List.mem_singleton.mp hresult)
    rw [← heq] at hrec
    have hfound := hup.found
    have hwent := alone_went hup.went
    obtain rfl := hup.alone
    obtain rfl := alone_went hw
    rw [World.acts_append]
    exact ⟨_,rfl,recording_failed hrec rfl hstatus (documents_setting .processing hfound)
      (hsetting.trans (hwent ▸ hcreated))⟩
  | uploadFallback hkind hcontent hfilename hqueue hup hinput hrec hw hanswer =>
    obtain ⟨-,heq⟩ := Prod.mk.inj (List.mem_singleton.mp hresult)
    rw [← heq] at hrec
    have hfound := hup.found
    have hwent := alone_went hup.went
    obtain rfl := hup.alone
    obtain rfl := alone_went hw
    exact ⟨_,rfl,recording_failed hrec rfl hstatus hfound (hwent ▸ hcreated)⟩
  | existingInline hkind hw₁ hknown hw₂ hpdf hinput hrec hw hanswer =>
    obtain ⟨-,heq⟩ := Prod.mk.inj (List.mem_singleton.mp hresult)
    rw [← heq] at hrec
    obtain rfl := hw₁ rfl
    obtain rfl := alone_went hw₂
    obtain rfl := alone_went hw
    obtain rfl := w.db.keyed hknown
    exact ⟨_,rfl,recording_failed hrec rfl hstatus (documents_setting .processing hknown) hsetting⟩
  | _ => cases hresult

end Recorded

/-- What a result that is not failed is good for: it has a value; and without usable
values a run fails its document, and a correction is rejected. -/
structure Informative (c : Config) (s : Schema) (docType : String) (d : Dict) (r : ValidationResult) : Prop where
  value : r.status ≠ .failed → ∃ data, r.extractedData = some data ∧ HasValue data
  run : Unusable c.processor.libraries.pydantic c.processor.libraries.unicode s d →
    ∀ i source env w input result, env.db = Stream'.const none → w.trace i = [] →
      (input,.ok result) ∈ (runAlone c i source env w).2.1.processed → result.pipeline.docType = docType →
      result.pipeline.extraction.rawOutput = .obj d →
      ∃ id, (runAlone c i source env w).2.1.started = [id] ∧ MarkedFailed w (runAlone c i source env w).2.2 id
  correction : Unusable c.processor.libraries.pydantic c.processor.libraries.unicode s d →
    ∀ extraction request id createdAt table, extraction.docType = docType → request.correctedData = d →
      CorrectionService.create c.processor.libraries.pydantic c.processor.libraries.unicode extraction request
        id createdAt table = .error (.correctionValidation r.warnings)

section Informative
variable {c : Config} {s : Schema} {docType : String} {d : Dict} {r : ValidationResult}

/-- What was processed by a run is the outcome of the processor. -/
theorem Ends.processed {D : Discipline Label World} {i : ℕ} {w w' : World} {env : Env} {source : Source}
    {a : Except Exc Answer} {t : Trail} (h : Ends c D i w env source a t w')
    {q : ProcessingInput × Except Exc DocumentProcessingResult} (hq : q ∈ t.processed) :
    q.2 = outcomeOf c env.model q.1 := by
  cases h with
  | uploadInline => rw [List.mem_singleton.mp hq]
  | uploadFallback => rw [List.mem_singleton.mp hq]
  | existingInline => rw [List.mem_singleton.mp hq]
  | _ => cases hq

/-- **Results without information.** A result is informative unless the object has
nothing but nulls that count as valid. -/
theorem informative_iff (hs : SchemaRegistry.getSchema docType = .ok s)
    (hr : validateExtraction c.processor.libraries.pydantic c.processor.libraries.unicode docType (.obj d) =
      .ok r) :
    Informative c s docType d r ↔
      ¬ NullsOnly c.processor.libraries.pydantic c.processor.libraries.unicode s d := by
  refine ⟨fun h => (hasValue_iff hs hr).mp h.value,fun hnot => ⟨(hasValue_iff hs hr).mpr hnot,?_,?_⟩⟩
  · rintro hunusable i source env w input result hdb htrace hresult rfl hraw
    obtain ⟨hnulls,-⟩ | ⟨-,hstatus,-⟩ := hunusable.result hs hr
    · exact absurd hnulls hnot
    have hends := runAlone_ends (c := c) source hdb htrace
    have hvalidated := DocumentProcessor.processPages_validated c.processor _ (hends.processed hresult).symm
    rw [hraw,hr] at hvalidated
    exact ends_failed hends hresult (Except.ok.inj hvalidated ▸ hstatus)
  · rintro hunusable extraction request id createdAt table rfl rfl
    obtain ⟨hnulls,-⟩ | ⟨-,-,hdata⟩ := hunusable.result hs hr
    · exact absurd hnulls hnot
    · exact CorrectionService.create_rejected hr hdata

/-- An invoice of which nothing is known, not even the address. -/
def nullInvoice : Dict := [("vendor_address",.null)]

theorem nullInvoice_uninformative : ∃ r, validateExtraction .basic .ascii "invoice" (.obj nullInvoice) = .ok r ∧
    r.status = .partial_ ∧ ¬ Informative (sampleConfig true) Documents.invoiceSchema "invoice" nullInvoice r := by
  refine ⟨_,rfl,rfl,fun h => ?_⟩
  obtain ⟨data,hdata,hvalue⟩ := h.value (by decide)
  obtain rfl := Option.some.inj hdata
  revert hvalue
  decide

/-- An invoice of which the vendor is known, and the address is not. -/
def namedInvoice : Dict := [("vendor_name",.str "Acme"),("vendor_address",.null)]

theorem namedInvoice_informative : ∃ r, validateExtraction .basic .ascii "invoice" (.obj namedInvoice) = .ok r ∧
    r.status = .partial_ ∧ Informative (sampleConfig true) Documents.invoiceSchema "invoice" namedInvoice r := by
  refine ⟨_,rfl,rfl,(informative_iff (c := sampleConfig true) rfl rfl).mpr fun hnulls => ?_⟩
  have hnull := (hnulls.1 _ List.mem_cons_self (.str "Acme") (by decide) (by decide)).1
  revert hnull
  decide

end Informative

end StructuredExtractor
