import StructuredExtractor.Service.Alone

/-! # The status that a run leaves its document with

A run on an existing document always ends it: its exception handler sets the status
to failed. The two kinds of uploads that are processed inline have no such handler.
-/
namespace StructuredExtractor
open Service

/-- The document is completed or failed. -/
def Terminal (db : Database) (id : Uuid) : Prop :=
  db.status? id = some .completed ∨ db.status? id = some .failed

instance (db : Database) (id : Uuid) : Decidable (Terminal db id) := inferInstanceAs (Decidable (_ ∨ _))

/-- If the run is an upload, its processing ends in a result or an extraction error. -/
def Settles (c : Config) (env : Env) (s : Source) : Prop :=
  ∀ r content filename pdf, s = .request r → r.content = some content → r.filename = some filename →
    r.documentId = none → parsedIn env content filename = .ok pdf →
    Settled (outcomeOf c env.model
      ⟨pdf.pagesText,pdf.pageCount,r.docType,r.strategy.map ExtractionStrategy.value⟩)

section Recorded
variable {c : Config} {i : ℕ} {w : World} {known : Document}
variable {o : Except Exc DocumentProcessingResult} {rec : Recorded}

theorem recorded_status (h : recorded c o = some rec) : rec.status = .completed ∨ rec.status = .failed := by
  match o, h with
  | .ok r, h =>
    obtain rfl := Option.some.inj h
    by_cases hstatus : r.pipeline.validation.status = .failed
    · exact .inr (if_pos hstatus)
    · exact .inl (if_neg hstatus)
  | .error (.documentProcessing resolved e), h =>
    obtain rfl := Option.some.inj h
    exact .inr rfl

theorem terminal_iff_of_documents {db : Database} {id : Uuid} {row : Document}
    (h : db.documents id = some row) : Terminal db id ↔ row.status = .completed ∨ row.status = .failed := by
  simp [Terminal,Database.status?,h]

/-- A document in processing gets its end from a recording, and from nothing else. -/
theorem terminal_recording {id : Uuid} (hrec : Recording c i known [] o as) (hid : known.id = id)
    (hstatus : known.status = .processing) (h : w.db.documents id = some known) :
    Terminal (w.acts i as).db id ↔ Settled o := by
  subst hid
  rw [terminal_iff_of_documents (documents_recording hrec h),settled_iff c]
  unfold afterOutcome
  cases hr : recorded c o with
  | none => simp [hstatus]
  | some rec => simpa [Document.with] using recorded_status hr

theorem terminal_failing (h : w.db.documents known.id = some known) :
    Terminal (w.acts i (setting known .failed)).db known.id :=
  (terminal_iff_of_documents (documents_setting .failed h)).mpr (.inr rfl)

/-- The exception handler of an existing document leaves no other status. -/
theorem terminal_existing {id : Uuid}
    (hrec : Recording c i known (setting known .failed) o as) (hid : known.id = id)
    (hstatus : known.status = .processing) (h : w.db.documents id = some known) :
    Terminal (w.acts i as).db id := by
  subst hid
  cases hr : recorded c o with
  | none =>
    simp only [Recording,hr] at hrec
    exact hrec ▸ terminal_failing h
  | some rec =>
    have hrec' : Recording c i known [] o as := by
      simp only [Recording,hr] at hrec ⊢
      exact hrec
    exact (terminal_recording hrec' rfl hstatus h).mpr ((settled_iff c o).mpr ⟨rec,hr⟩)

end Recorded

/-- An upload that is alone finds the row that it created. -/
theorem Uploaded.alone {i : ℕ} {w w₁ : World} {env : Env} {content : Bytes} {filename : String}
    {status : DocumentStatus} {pdf : ParsedPdf} {known : Document}
    (h : Uploaded (alone i) i w env content filename status pdf known w₁) :
    known = uploadRow i env content filename status pdf.pageCount := by
  have hfound := h.found
  rw [alone_went h.went] at hfound
  simp only [World.acts,List.foldl_cons,List.foldl_nil,World.act,Database.applyAll,Database.apply,
    Database.insertDocument] at hfound
  exact Option.some.inj ((Function.update_self ..).symm.trans hfound).symm

theorem documentId_of_upload {c : Config} {r : ExtractRequest}
    (h : (Source.request r).kind c = .uploadInline ∨ (Source.request r).kind c = .uploadQueued) :
    r.documentId = none := by
  unfold Source.kind at h
  cases hc : r.content <;> cases hf : r.filename <;> cases hid : r.documentId <;>
    simp only [hc,hf,hid] at h <;> first | rfl | (split at h <;> simp at h) | simp at h

/-- The condition, for an upload that was parsed. -/
theorem settles_upload_iff {c : Config} {env : Env} {r : ExtractRequest} {content : Bytes}
    {filename : String} {pdf : ParsedPdf} (hcontent : r.content = some content)
    (hfilename : r.filename = some filename) (hid : r.documentId = none)
    (hpdf : parsedIn env content filename = .ok pdf) :
    Settles c env (.request r) ↔ Settled (outcomeOf c env.model
      ⟨pdf.pagesText,pdf.pageCount,r.docType,r.strategy.map ExtractionStrategy.value⟩) := by
  refine ⟨fun h => h r content filename pdf rfl hcontent hfilename hid hpdf,?_⟩
  rintro h r' content' filename' pdf' hr hcontent' hfilename' - hpdf'
  cases hr
  obtain rfl := Option.some.inj (hcontent.symm.trans hcontent')
  obtain rfl := Option.some.inj (hfilename.symm.trans hfilename')
  obtain rfl := Except.ok.inj (hpdf.symm.trans hpdf')
  exact h

/-- A run that is no upload has nothing to settle. -/
theorem settles_existing {c : Config} {env : Env} {s : Source} {id : Uuid}
    (hkind : s.kind c = .existingInline id) : Settles c env s := by
  rintro r content filename pdf rfl hcontent hfilename hid -
  simp only [Source.kind,hcontent,hfilename,hid] at hkind
  split at hkind <;> cases hkind

theorem ends_terminal_iff {c : Config} {i : ℕ} {w w' : World} {env : Env} {s : Source}
    {r : Except Exc Answer} {t : Trail} {id : Uuid} (h : Ends c (alone i) i w env s r t w')
    (hstarted : t.started = [id]) : Terminal w'.db id ↔ Settles c env s := by
  cases h with
  | uploadInline hkind hcontent hfilename hup hinput hrec hw hanswer =>
    obtain rfl := List.singleton_inj.mp hstarted
    rw [settles_upload_iff hcontent hfilename (documentId_of_upload (.inl hkind)) hup.parsed]
    have hfound := hup.found
    obtain rfl := hup.alone
    obtain rfl := alone_went hw
    rw [World.acts_append]
    subst hinput
    exact terminal_recording hrec rfl rfl (documents_setting .processing hfound)
  | uploadFallback hkind hcontent hfilename hqueue hup hinput hrec hw hanswer =>
    obtain rfl := List.singleton_inj.mp hstarted
    rw [settles_upload_iff hcontent hfilename (documentId_of_upload (.inr hkind)) hup.parsed]
    have hfound := hup.found
    obtain rfl := hup.alone
    obtain rfl := alone_went hw
    subst hinput
    exact terminal_recording hrec rfl rfl hfound
  | existingInline hkind hw₁ hknown hw₂ hpdf hinput hrec hw hanswer =>
    obtain rfl := List.singleton_inj.mp hstarted
    obtain rfl := hw₁ rfl
    obtain rfl := alone_went hw₂
    obtain rfl := alone_went hw
    obtain rfl := w.db.keyed hknown
    exact iff_of_true (terminal_existing hrec rfl rfl (documents_setting .processing hknown))
      (settles_existing hkind)
  | notLoaded hkind hw₁ hknown hw₂ hpdf hw =>
    obtain rfl := List.singleton_inj.mp hstarted
    obtain rfl := hw₁ rfl
    obtain rfl := alone_went hw₂
    obtain rfl := alone_went hw
    obtain rfl := w.db.keyed hknown
    exact iff_of_true (terminal_failing (documents_setting .processing hknown)) (settles_existing hkind)
  | _ => cases hstarted

/-- **No stranded document.** A run that processes a document itself, without database
failures, leaves it completed or failed exactly when it is no upload or its processing
ends in a result or an extraction error. -/
theorem run_terminal_iff {c : Config} {i : ℕ} {w : World} {env : Env} {s : Source} {id : Uuid}
    (hdb : env.db = Stream'.const none) (htrace : w.trace i = [])
    (hstarted : (runAlone c i s env w).2.1.started = [id]) :
    Terminal (runAlone c i s env w).2.2.db id ↔ Settles c env s :=
  ends_terminal_iff (runAlone_ends s hdb htrace) hstarted

/-- The classifier answers that it does not know the document. -/
theorem classifiedRun_terminal_iff : Terminal (classifiedRun "unknown").2.2.db (.drawn 0 0) ↔
    Settles (sampleConfig true) (sampleEnv (.ok "job") (textReplies "unknown")) (.request untypedUpload) :=
  run_terminal_iff rfl rfl (by decide)

/-- The upload raises and its document stays in processing. -/
theorem classifiedRun_stranded : (classifiedRun "unknown").1 = .error (.unsupportedDocumentType "unknown") ∧
    (classifiedRun "unknown").2.1.started = [.drawn 0 0] ∧
    (classifiedRun "unknown").2.2.db.status? (.drawn 0 0) = some .processing ∧
    ¬ Terminal (classifiedRun "unknown").2.2.db (.drawn 0 0) := by
  decide

end StructuredExtractor
