import StructuredExtractor.Extraction.Traced
import StructuredExtractor.Service.StoredUploads

/-! # The audit trail

What is stored of an extraction can be computed again from the tool output that is kept with it,
whatever has failed and whatever ran beside it. And when the parser makes the same of the same
bytes, the pages that the extraction names are pages of the stored file.
-/
namespace StructuredExtractor
open Service PageStrategyRunner

section Records
variable (L : Libraries) (count : ℕ) (x : Extraction)

/-- The validation and the scores, from the kept tool output once more. -/
def Extraction.replay : Option (ValidationResult × List (String × ℕ)) := do
  let raw ← x.rawToolOutput
  let output ← auditedOutput x.strategy raw
  let validation ← (Validation.validateExtraction L.pydantic L.unicode x.docType output).toOption
  let scores ← (Confidence.scoreConfidenceMap L.unicode x.docType validation.extractedData).toOption
  return (validation,scores)

/-- Nothing came of the extraction. -/
structure Extraction.Bare : Prop where
  status : x.status = .failed
  extractedData : x.extractedData = none
  confidenceMap : x.confidenceMap = none
  warnings : x.warnings = none
  rawToolOutput : x.rawToolOutput = none
  sourcePages : x.sourcePages = none

/-- What is stored is what the kept tool output gives, and the warnings of the pages are about
others than its sources. -/
structure Extraction.Replays (validation : ValidationResult) (scores : List (String × ℕ)) (pages skipped : List ℕ) :
    Prop where
  replayed : x.replay L = some (validation,scores)
  status : x.status = validation.status
  extractedData : x.extractedData = validation.extractedData
  confidenceMap : x.confidenceMap = some scores
  warnings : x.warnings = some (validation.warnings ++ skipped.map skipWarning)
  sourcePages : x.sourcePages = some pages
  sources : PagesBelow count pages
  others : PagesBelow count skipped
  apart : ∀ n ∈ skipped, n ∉ pages

/-- A record of an extraction from `count` pages, which fails exactly when it has no data. -/
structure Extraction.Audited (model : String) : Prop where
  docType : x.docType ∈ SchemaRegistry.listTypes
  strategy : ∃ strategy : ExtractionStrategy, x.strategy = strategy.value
  modelUsed : x.modelUsed = model
  failed : x.status = .failed ↔ x.extractedData = none
  origin : x.Bare ∨ ∃ validation scores pages skipped, x.Replays L count validation scores pages skipped

end Records

section Outcomes
variable {P : Pydantic} {u : Unicode} {docType : String} {raw : Json} {v : ValidationResult}

/-- Validation fails when no field is left, and only then. -/
theorem validateExtraction_failed (h : Validation.validateExtraction P u docType raw = .ok v) :
    v.status = .failed ↔ v.extractedData = none := by
  obtain ⟨s,-,h⟩ := bind_eq_ok h
  split at h
  · obtain ⟨ws,-,h⟩ := bind_eq_ok h
    obtain ⟨⟨r,n⟩,-,h⟩ := bind_eq_ok h
    obtain ⟨quality,-,h⟩ := bind_eq_ok h
    cases h
    by_cases hn : 0 < n <;> simp [hn]
  · obtain ⟨quality,-,h⟩ := bind_eq_ok h
    cases h
    simp

variable {c : Config} {pages : List String} {o : Except Exc DocumentProcessingResult}

theorem mayCome_explained (h : MayCome c pages o) : OutcomeExplained c.processor.libraries pages.length o := by
  rcases h with ⟨pageCount,docType,strategy,e,rfl⟩ | ⟨e,he,rfl⟩
  · exact processPages_explained c.processor e ⟨pages,pageCount,docType,strategy⟩
  · cases e with
    | documentProcessing resolved error => exact he.elim
    | _ => trivial

theorem success_audited {r : DocumentProcessingResult} (h : MayCome c pages (.ok r)) (id documentId : Uuid)
    (createdAt : Time) :
    (successExtraction c id documentId r.pipeline createdAt).Audited c.processor.libraries pages.length c.model := by
  have hr : r.pipeline.Explained c.processor.libraries pages.length := mayCome_explained h
  obtain ⟨skipped,hskipped,hwarnings,hapart⟩ := hr.traced.skipped
  refine ⟨hr.docType,⟨_,rfl⟩,rfl,validateExtraction_failed hr.validated,
    .inr ⟨r.pipeline.validation,r.pipeline.confidenceMap,r.pipeline.extraction.sourcePages,skipped,?_⟩⟩
  constructor
  case replayed =>
    simp [Extraction.replay,successExtraction,hr.traced.output,hr.validated,hr.scored,Except.toOption]
  case warnings => simp only [successExtraction,hr.warnings,hwarnings]
  case sources => exact hr.traced.sources
  case others => exact hskipped
  case apart => exact hapart
  all_goals rfl

theorem failure_audited {resolved : ResolvedDocumentInput} {error : ExtractionError}
    (h : MayCome c pages (.error (.documentProcessing resolved error))) (id documentId : Uuid) (ms : ℤ)
    (createdAt : Time) : (failedExtraction c id documentId resolved error ms createdAt).Audited c.processor.libraries
      pages.length c.model where
  docType := mayCome_explained h
  strategy := ⟨resolved.strategy,rfl⟩
  modelUsed := rfl
  failed := iff_of_true rfl rfl
  origin := .inl ⟨rfl,rfl,rfl,rfl,rfl,rfl⟩

end Outcomes

section Trail
variable (c : Config)

/-- An extraction is one of a document, and an audited one. -/
def Terms.audit : Terms where
  opens _ _ := True
  document _ _ := True
  extraction db x := ∃ row count, db.documents x.documentId = some row ∧
    x.Audited c.processor.libraries count c.model
  document_with _ h := h
  extraction_kept hdocuments h := by
    obtain ⟨row,count,hrow,haudited⟩ := h
    obtain ⟨status,hrow'⟩ := hdocuments _ row hrow
    exact ⟨row.with status,count,hrow',haudited⟩

theorem Terms.audit_fits : (Terms.audit c).Fits c where
  document _ _ _ _ _ _ := trivial
  success id createdAt hrow _ hcome := ⟨_,_,hrow,success_audited hcome id _ createdAt⟩
  failure id ms createdAt hrow _ hcome := ⟨_,_,hrow,failure_audited hcome id _ ms createdAt⟩

/-- The parser makes of the bytes of a row as many pages as the row states, and an extraction is from
these pages. -/
def Terms.pages (parse : Bytes → PdfFile) : Terms where
  opens content file := file = parse content
  document row content := ∃ texts, parse content = .pages texts ∧ texts.length = row.pageCount
  extraction db x := ∃ row, db.documents x.documentId = some row ∧
    x.Audited c.processor.libraries row.pageCount c.model
  document_with _ h := h
  extraction_kept hdocuments h := by
    obtain ⟨row,hrow,haudited⟩ := h
    obtain ⟨status,hrow'⟩ := hdocuments _ row hrow
    exact ⟨row.with status,hrow',haudited⟩

/-- Texts that were all extracted. -/
theorem mapM_id_eq_some {texts : List (Option String)} {pages : List String} (h : texts.mapM id = some pages) :
    texts = pages.map some := by
  induction texts generalizing pages with
  | nil =>
    cases h
    rfl
  | cons text texts ih =>
    rw [List.mapM_cons] at h
    obtain ⟨page,hpage,hmap⟩ := Option.bind_eq_some_iff.mp h
    obtain ⟨rest,hrest,hpages⟩ := Option.bind_eq_some_iff.mp hmap
    obtain rfl : page :: rest = pages := Option.some.inj hpages
    obtain rfl : text = some page := hpage
    rw [ih hrest,List.map_cons]

theorem parsedPdf_pages {filename : String} {file : PdfFile} {pdf : ParsedPdf} (h : parsedPdf filename file = .ok pdf) :
    ∃ texts, file = .pages texts ∧ texts.length = pdf.pageCount ∧ pdf.pagesText.length = pdf.pageCount := by
  cases file with
  | unreadable => cases h
  | pages texts =>
    by_cases htexts : texts = []
    · simp [parsedPdf,htexts] at h
    · cases hpages : texts.mapM id with
      | none => simp [parsedPdf,htexts,hpages] at h
      | some pagesText =>
        simp only [parsedPdf,htexts,hpages,if_false,Except.ok.injEq] at h
        subst h
        rw [mapM_id_eq_some hpages]
        exact ⟨_,rfl,rfl,(List.length_map some).symm⟩

/-- The pages that are read of a document are as many as its row states. -/
theorem pages_reads {parse : Bytes → PdfFile} {row : Document} {pages : List String}
    (h : (Terms.pages c parse).Reads row pages) : pages.length = row.pageCount := by
  obtain ⟨content,file,filename,pdf,⟨texts,htexts,hcount⟩,hopens,hparsed,rfl⟩ := h
  obtain ⟨texts',hfile,hcount',hpages⟩ := parsedPdf_pages hparsed
  have heq : PdfFile.pages texts = .pages texts' := by rw [← htexts,← hfile]; exact hopens.symm
  cases heq
  omega

theorem Terms.pages_fits (parse : Bytes → PdfFile) : (Terms.pages c parse).Fits c where
  document id path status uploadedAt hopens hparsed := by
    obtain ⟨texts,hfile,hcount,-⟩ := parsedPdf_pages hparsed
    exact ⟨texts,hopens.symm.trans hfile,hcount⟩
  success id createdAt hrow hreads hcome :=
    ⟨_,hrow,pages_reads c hreads ▸ success_audited hcome id _ createdAt⟩
  failure id ms createdAt hrow hreads hcome :=
    ⟨_,hrow,pages_reads c hreads ▸ failure_audited hcome id _ ms createdAt⟩

variable {c} {w₀ : World} {p : ServicePool}

/-- **Every new extraction can be computed again.** However calls fail and runs interleave, an extraction
that is stored is one of a stored document, and its status, its data, its scores and its warnings are
what validating and scoring the tool output that is kept with it gives; or it is a failure with
nothing kept. -/
theorem audits_replay (hw₀ : w₀.Filed (.audit c)) (hp : Pool.Reachable (Machine.handler c.processor) (Comes c) w₀ p)
    {x : Extraction} (hx : x ∈ p.shared.db.extractions) (hnew : x ∉ w₀.db.extractions) :
    ∃ row count, p.shared.db.documents x.documentId = some row ∧ x.Audited c.processor.libraries count c.model := by
  have hreading : Pool.Reachable (Machine.handler c.processor) (ComesReading (.audit c) c) w₀ p :=
    hp.mono fun h => ⟨h,fun _ _ _ _ => trivial⟩
  exact ((allOnTerms_reachable (Terms.audit_fits c) hw₀ hreading).1.extractions x hx).resolve_left hnew

/-- **The sources of an extraction are pages of the stored file.** When the parser makes the same of the
same bytes, in every run, then the file of the document is there, and the pages that an extraction
of it names as its source, and those that its warnings say were skipped, are among the pages that the
parser makes of that file. -/
theorem source_pages_exist {parse : Bytes → PdfFile} (hw₀ : w₀.Filed (.pages c parse))
    (hp : Pool.Reachable (Machine.handler c.processor) (ComesReading (.pages c parse) c) w₀ p) {x : Extraction}
    (hx : x ∈ p.shared.db.extractions) (hnew : x ∉ w₀.db.extractions) :
    ∃ row content texts, p.shared.db.documents x.documentId = some row ∧ row.Filed p.shared.files content ∧
      parse content = .pages texts ∧ row.pageCount = texts.length ∧
      x.Audited c.processor.libraries texts.length c.model := by
  have hterms := (allOnTerms_reachable (Terms.pages_fits c parse) hw₀ hp).1
  obtain ⟨row,hrow,haudited⟩ := (hterms.extractions x hx).resolve_left hnew
  obtain ⟨content,hfiled,⟨texts,htexts,hcount⟩,-⟩ := hterms.documents _ row hrow
  exact ⟨row,content,texts,hrow,hfiled,htexts,hcount.symm,hcount ▸ haudited⟩

end Trail

section Sample

/-- An upload that is worked on at once. -/
def auditedRun : Except Exc Answer × Local × World :=
  runAlone (sampleConfig false) 0 (.request (sampleUpload "contract" false))
    (sampleEnv (.ok "job") (toolCallReplies "contract" plainContract)) emptyWorld

theorem auditedRun_reachable (T : Terms) (hopens : ∀ content, T.opens content (.pages [some "Agreement"])) :
    Pool.Reachable (Machine.handler (sampleConfig false).processor) (ComesReading T (sampleConfig false)) emptyWorld
      ⟨[⟨⟨.request (sampleUpload "contract" false),sampleEnv (.ok "job") (toolCallReplies "contract" plainContract)⟩,
        .done auditedRun.1,auditedRun.2.1⟩],auditedRun.2.2⟩ := by
  have hreads : (Local.start 0 (sampleEnv (.ok "job") (toolCallReplies "contract" plainContract))).Opens T :=
    fun n content file h => by
      cases h
      exact hopens content
  have harrives : ComesReading T (sampleConfig false) ⟨[],emptyWorld⟩
      (startThread (sampleConfig false) 0 (.request (sampleUpload "contract" false))
        (sampleEnv (.ok "job") (toolCallReplies "contract" plainContract))) emptyWorld := ⟨.run .request,hreads⟩
  exact Pool.through harrives

theorem auditedRun_extraction : ∃ x, x ∈ auditedRun.2.2.db.extractions ∧ x.sourcePages = some [0] := by
  have h : auditedRun.2.2.db.extractions.map Extraction.sourcePages = [some [0]] := by decide
  exact List.mem_map.mp (h ▸ List.mem_singleton_self _)

theorem auditedRun_replays : ∃ x ∈ auditedRun.2.2.db.extractions, ∃ row count,
    auditedRun.2.2.db.documents x.documentId = some row ∧
      x.Audited (sampleConfig false).processor.libraries count (sampleConfig false).model := by
  obtain ⟨x,hx,-⟩ := auditedRun_extraction
  exact ⟨x,hx,audits_replay (emptyWorld_filed _) ((auditedRun_reachable .files fun _ => trivial).mono And.left) hx
    List.not_mem_nil⟩

theorem auditedRun_pages : ∃ x ∈ auditedRun.2.2.db.extractions, ∃ row content texts,
    auditedRun.2.2.db.documents x.documentId = some row ∧ row.Filed auditedRun.2.2.files content ∧
      PdfFile.pages [some "Agreement"] = .pages texts ∧ row.pageCount = texts.length ∧
      x.Audited (sampleConfig false).processor.libraries texts.length (sampleConfig false).model := by
  obtain ⟨x,hx,-⟩ := auditedRun_extraction
  have hreachable := auditedRun_reachable (.pages (sampleConfig false) fun _ => .pages [some "Agreement"]) fun _ => rfl
  exact ⟨x,hx,source_pages_exist (emptyWorld_filed _) hreachable hx List.not_mem_nil⟩

end Sample

end StructuredExtractor
