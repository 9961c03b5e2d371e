import StructuredExtractor.Service.Processing

/-! # How runs end

Every run of the service, without database failures, goes through a script of its
kind, whatever other runs do. `Ends` has the ways in which a run can end, with what
it read on the way.
-/
namespace StructuredExtractor
open Service

/-- `parse_pdf` in an environment. -/
def parsedIn (env : Env) (content : Bytes) (filename : String) : Except Exc ParsedPdf :=
  env.openPdf.head content >>= parsedPdf filename

/-- The bytes that the storage has at a path. -/
def storedIn (env : Env) (w : World) (path : StoragePath) : Except Exc Bytes :=
  match env.storage.head, w.files path with
  | some e, _ => .error e
  | none, none => .error storageError
  | none, some content => .ok content

/-- What `load_document` gets from what is shared. -/
def loadedIn (env : Env) (w : World) (row : Document) : Except Exc ParsedPdf :=
  storedIn env w row.filePath >>= fun content => parsedIn env content row.filename

/-- The row of an upload. -/
def uploadRow (i : ℕ) (env : Env) (content : Bytes) (filename : String) (status : DocumentStatus)
    (pageCount : ℕ) : Document :=
  ⟨.drawn i 0,filename,storagePath (Uuid.drawn i 0).str filename,content.length,pageCount,status,
    env.now.head⟩

namespace Source

def docType : Source → Option String
  | request r => r.docType
  | worker job => job.docType

def strategy : Source → Option String
  | request r => r.strategy.map ExtractionStrategy.value
  | worker job => job.strategy

def asyncMode : Source → Bool
  | request r => r.asyncMode
  | worker _ => false

end Source

section Ends
variable (c : Config) (D : Discipline Label World) (i : ℕ) (w : World) (env : Env)

/-- An upload was saved and created; then its document was found as `known`. -/
structure Uploaded (content : Bytes) (filename : String) (status : DocumentStatus) (pdf : ParsedPdf)
    (known : Document) (w₁ : World) : Prop where
  parsed : parsedIn env content filename = .ok pdf
  stored : env.storage.head = none
  went : Went D i w [.save (storagePath (Uuid.drawn i 0).str filename) content,
    .commit [.insertDocument (uploadRow i env content filename status pdf.pageCount)]] w₁
  found : w₁.db.documents (.drawn i 0) = some known

/-- The answer of a run that processed a document itself. -/
structure Answered (asyncMode : Bool) (o : Except Exc DocumentProcessingResult)
    (answer : Except Exc Answer) : Prop where
  ok : answer.isOk = o.isOk
  response : ∀ a, answer = .ok a → ∃ r, a = inlineAnswer asyncMode r

/-- How a run ends that was started in `w`. -/
inductive Ends : Source → Except Exc Answer → Trail → World → Prop
  | invalid {s : Source} {e : Exc} {w' : World} (hkind : s.kind c = .invalid)
      (hw : Went D i w [] w') : Ends s (.error e) ⟨[],[],false⟩ w'
  | notUploaded {r : ExtractRequest} {content : Bytes} {filename : String} {e : Exc} {w' : World}
      (hcontent : r.content = some content) (hfilename : r.filename = some filename)
      (hid : r.documentId = none)
      (hwhy : ∀ pdf, parsedIn env content filename = .ok pdf → env.storage.head ≠ none)
      (hw : Went D i w [] w') : Ends (.request r) (.error e) ⟨[],[],false⟩ w'
  | notFound {s : Source} {id : Uuid} {e : Exc} {w₁ w' : World}
      (hkind : s.kind c = .existingInline id ∨ s.kind c = .existingQueued id) (hw₁ : D.rely i w w₁)
      (hnone : w₁.db.documents id = none) (hw : Went D i w [] w') :
      Ends s (.error e) ⟨[],[],false⟩ w'
  | uploadInline {r : ExtractRequest} {content : Bytes} {filename : String} {pdf : ParsedPdf}
      {known : Document} {input : ProcessingInput} {w₁ w' : World} {as : List Action}
      {answer : Except Exc Answer} (hkind : (Source.request r).kind c = .uploadInline)
      (hcontent : r.content = some content) (hfilename : r.filename = some filename)
      (hup : Uploaded D i w env content filename .uploaded pdf known w₁)
      (hinput : input = ⟨pdf.pagesText,known.pageCount,r.docType,r.strategy.map ExtractionStrategy.value⟩)
      (hrec : Recording c i (known.with .processing) [] (outcomeOf c env.model input) as)
      (hw : Went D i w₁ (setting known .processing ++ as) w')
      (hanswer : Answered r.asyncMode (outcomeOf c env.model input) answer) :
      Ends (.request r) answer ⟨[.drawn i 0],[(input,outcomeOf c env.model input)],true⟩ w'
  | uploadFallback {r : ExtractRequest} {content : Bytes} {filename : String} {pdf : ParsedPdf}
      {known : Document} {input : ProcessingInput} {w₁ w' : World} {as : List Action}
      {answer : Except Exc Answer} {e : Exc} (hkind : (Source.request r).kind c = .uploadQueued)
      (hcontent : r.content = some content) (hfilename : r.filename = some filename)
      (hqueue : env.enqueue.head = .error e)
      (hup : Uploaded D i w env content filename .processing pdf known w₁)
      (hinput : input = ⟨pdf.pagesText,known.pageCount,r.docType,r.strategy.map ExtractionStrategy.value⟩)
      (hrec : Recording c i known [] (outcomeOf c env.model input) as) (hw : Went D i w₁ as w')
      (hanswer : Answered true (outcomeOf c env.model input) answer) :
      Ends (.request r) answer ⟨[.drawn i 0],[(input,outcomeOf c env.model input)],true⟩ w'
  | uploadQueued {r : ExtractRequest} {content : Bytes} {filename jobId : String} {pdf : ParsedPdf}
      {known : Document} {w₁ w' : World} (hkind : (Source.request r).kind c = .uploadQueued)
      (hcontent : r.content = some content) (hfilename : r.filename = some filename)
      (hqueue : env.enqueue.head = .ok jobId)
      (hup : Uploaded D i w env content filename .processing pdf known w₁)
      (hw : Went D i w₁
        [.enqueue ⟨(Uuid.drawn i 0).str,r.docType,r.strategy.map ExtractionStrategy.value,i⟩] w') :
      Ends (.request r) (.ok (.async (.drawn i 0) jobId)) ⟨[],[],true⟩ w'
  | existingInline {s : Source} {id : Uuid} {pdf : ParsedPdf} {known : Document}
      {input : ProcessingInput} {w₁ w₂ w' : World} {as : List Action} {answer : Except Exc Answer}
      (hkind : s.kind c = .existingInline id) (hw₁ : D.rely i w w₁)
      (hknown : w₁.db.documents id = some known) (hw₂ : Went D i w₁ (setting known .processing) w₂)
      (hpdf : loadedIn env w₂ known = .ok pdf)
      (hinput : input = ⟨pdf.pagesText,known.pageCount,s.docType,s.strategy⟩)
      (hrec : Recording c i (known.with .processing) (setting (known.with .processing) .failed)
        (outcomeOf c env.model input) as) (hw : Went D i w₂ as w')
      (hanswer : Answered s.asyncMode (outcomeOf c env.model input) answer) :
      Ends s answer ⟨[id],[(input,outcomeOf c env.model input)],true⟩ w'
  | notLoaded {s : Source} {id : Uuid} {known : Document} {w₁ w₂ w' : World} {e : Exc}
      (hkind : s.kind c = .existingInline id) (hw₁ : D.rely i w w₁)
      (hknown : w₁.db.documents id = some known) (hw₂ : Went D i w₁ (setting known .processing) w₂)
      (hpdf : loadedIn env w₂ known = .error e)
      (hw : Went D i w₂ (setting (known.with .processing) .failed) w') :
      Ends s (.error e) ⟨[id],[],true⟩ w'
  | existingQueued {r : ExtractRequest} {id : Uuid} {jobId : String} {known : Document} {w₁ w' : World}
      (hkind : (Source.request r).kind c = .existingQueued id) (hw₁ : D.rely i w w₁)
      (hknown : w₁.db.documents id = some known) (hqueue : env.enqueue.head = .ok jobId)
      (hw : Went D i w₁ [.enqueue ⟨id.str,r.docType,r.strategy.map ExtractionStrategy.value,i⟩] w') :
      Ends (.request r) (.ok (.async id jobId)) ⟨[],[],true⟩ w'
  | existingUnsent {r : ExtractRequest} {id : Uuid} {e : Exc} {known : Document} {w₁ w' : World}
      (hkind : (Source.request r).kind c = .existingQueued id) (hw₁ : D.rely i w w₁)
      (hknown : w₁.db.documents id = some known) (hqueue : env.enqueue.head = .error e)
      (hw : Went D i w₁ [] w') : Ends (.request r) (.error e) ⟨[],[],true⟩ w'

variable {c D i w env}

theorem Answered.map {asyncMode : Bool} {o : Except Exc DocumentProcessingResult}
    {r : Except Exc ExtractResponse} (h : r.isOk = o.isOk) :
    Answered asyncMode o (r.map (inlineAnswer asyncMode)) := by
  cases r with
  | error e => exact ⟨h,fun a ha => by cases ha⟩
  | ok r => exact ⟨h,fun a ha => ⟨r,(Except.ok.inj ha).symm⟩⟩

theorem Ends.rely {s : Source} {r : Except Exc Answer} {t : Trail} {w' w'' : World}
    (h : Ends c D i w env s r t w') (hw : D.rely i w' w'') : Ends c D i w env s r t w'' := by
  cases h with
  | invalid hkind h => exact .invalid hkind (h.rely hw)
  | notUploaded h₁ h₂ h₃ h₄ h => exact .notUploaded h₁ h₂ h₃ h₄ (h.rely hw)
  | notFound h₁ h₂ h₃ h => exact .notFound h₁ h₂ h₃ (h.rely hw)
  | uploadInline h₁ h₂ h₃ h₄ h₅ h₆ h h₇ => exact .uploadInline h₁ h₂ h₃ h₄ h₅ h₆ (h.rely hw) h₇
  | uploadFallback h₁ h₂ h₃ h₄ h₅ h₆ h₇ h h₈ =>
    exact .uploadFallback h₁ h₂ h₃ h₄ h₅ h₆ h₇ (h.rely hw) h₈
  | uploadQueued h₁ h₂ h₃ h₄ h₅ h => exact .uploadQueued h₁ h₂ h₃ h₄ h₅ (h.rely hw)
  | existingInline h₁ h₂ h₃ h₄ h₅ h₆ h₇ h h₈ =>
    exact .existingInline h₁ h₂ h₃ h₄ h₅ h₆ h₇ (h.rely hw) h₈
  | notLoaded h₁ h₂ h₃ h₄ h₅ h => exact .notLoaded h₁ h₂ h₃ h₄ h₅ (h.rely hw)
  | existingQueued h₁ h₂ h₃ h₄ h => exact .existingQueued h₁ h₂ h₃ h₄ (h.rely hw)
  | existingUnsent h₁ h₂ h₃ h₄ h => exact .existingUnsent h₁ h₂ h₃ h₄ (h.rely hw)

end Ends

section Uploads
variable {c : Config} {p : DocumentProcessor} {D : Discipline Label World} {i : ℕ} {label : Label}
variable {w : World} {env : Env}

theorem parsePdf_calm (content : Bytes) (filename : String) (l : Local) :
    (parsePdf content filename).Calm (Machine.handler p) (fun r l' =>
      r = parsedIn l.env content filename ∧
        l' = { l with env := { l.env with openPdf := l.env.openPdf.tail } }) l := by
  refine Prog.calm_bind (R := fun r l' => r = l.env.openPdf.head content ∧
    l' = { l with env := { l.env with openPdf := l.env.openPdf.tail } })
    (Prog.calm_perform (fun _ => rfl) ⟨rfl,rfl⟩) ?_ ?_
  · rintro file _ ⟨h,rfl⟩
    exact Prog.calm_done ⟨by rw [parsedIn,← h]; rfl,rfl⟩
  · rintro e _ ⟨h,rfl⟩
    exact ⟨by rw [parsedIn,← h]; rfl,rfl⟩

/-- The run once its upload is saved. -/
def Local.prepared (i : ℕ) (env : Env) : Local := { Local.start i env with
  drawn := 1
  env := { env with openPdf := env.openPdf.tail, storage := env.storage.tail, now := env.now.tail } }

theorem prepareDocument_safe (content : Bytes) (filename : String) (status : DocumentStatus)
    (hguar : ∀ w', D.rely i w w' → D.guar i label w'
      (w'.act i (.save (storagePath (Uuid.drawn i 0).str filename) content))) :
    (prepareDocument content filename status).Safe (Machine.handler p) D i label (fun r l' w' =>
      (∃ pdf, parsedIn env content filename = .ok pdf ∧ env.storage.head = none ∧
        r = .ok ⟨uploadRow i env content filename status pdf.pageCount,pdf.pagesText⟩ ∧
        l' = Local.prepared i env ∧
        Went D i w [.save (storagePath (Uuid.drawn i 0).str filename) content] w') ∨
      (∃ e, (∀ pdf, parsedIn env content filename = .ok pdf → env.storage.head ≠ none) ∧
        r = .error e ∧ l'.session = .new ∧ l'.trail = ⟨[],[],false⟩ ∧ Went D i w [] w'))
      (Local.start i env) w := by
  refine Prog.safe_op (fun _ => rfl) fun w₁ hw₁ => ?_
  set l₁ : Local := { Local.start i env with drawn := 1 }
  set l₂ : Local := { l₁ with env := { env with openPdf := env.openPdf.tail } } with hl₂
  refine Prog.safe_bind (R := fun r l' w' => D.rely i w w' ∧ r = parsedIn env content filename ∧ l' = l₂)
    (Prog.Calm.safe (parsePdf_calm content filename l₁) fun r l' w' hw h => ⟨D.rely_trans hw₁ hw,h⟩) ?_ ?_
  · rintro pdf _ w₂ ⟨hw₂,hpdf,rfl⟩
    cases hstorage : env.storage.head with
    | some e =>
      refine Prog.safe_bind (R := fun r l' w' => D.rely i w w' ∧ r = .error e ∧ l'.session = .new ∧
          l'.trail = ⟨[],[],false⟩)
        (Prog.Calm.safe (R := fun r l' => r = .error e ∧ l' = Machine.calledStorage l₂)
          (Prog.calm_perform (fun w => ?_) ⟨rfl,rfl⟩) ?_) ?_ ?_
      · simp only [Machine.handler,Machine.save,hl₂,hstorage]
        rfl
      · rintro _ _ w' hw' ⟨rfl,rfl⟩
        exact ⟨D.rely_trans hw₂ hw',rfl,rfl,rfl⟩
      · rintro _ _ _ ⟨-,h,-⟩
        cases h
      · rintro e' l' w' ⟨hw',h,hs,ht⟩
        exact .inr ⟨e',fun _ _ => by simp,rfl,hs,ht,.wait hw'⟩
    | none =>
      set path := storagePath (Uuid.drawn i 0).str filename
      refine Prog.safe_bind (R := fun r l' w' => r = .ok path ∧ l' = Machine.calledStorage l₂ ∧
        Went D i w [.save path content] w') (Prog.safe_perform fun w₃ hw₃ => ?_) ?_ ?_
      · have hop : Machine.handler p (.save (Uuid.drawn i 0).str content filename) (l₂,w₃) =
            (.ok path,Machine.calledStorage l₂,w₃.act i (.save path content)) := by
          simp only [Machine.handler,Machine.save,hl₂,hstorage]
          rfl
        have hw := D.rely_trans hw₂ hw₃
        exact ⟨_,_,_,hop,hguar w₃ hw,fun w₄ hw₄ => ⟨rfl,rfl,.act_rely hw hw₄⟩⟩
      · rintro _ _ w₃ ⟨h,rfl,hwent⟩
        obtain rfl := Except.ok.inj h
        refine Prog.safe_op (fun _ => rfl) fun w₄ hw₄ => Prog.safe_done fun w₅ hw₅ => ?_
        exact .inl ⟨pdf,hpdf.symm,rfl,rfl,rfl,hwent.rely (D.rely_trans hw₄ hw₅)⟩
      · rintro _ _ _ ⟨h,-⟩
        cases h
  · rintro e l' w' ⟨hw',h,rfl⟩
    exact .inr ⟨e,fun pdf hpdf => (by rw [hpdf] at h; cases h),rfl,rfl,rfl,.wait hw'⟩

theorem createDocumentRow_calm {l : Local} (hdb : l.env.db = Stream'.const none)
    (hnew : l.session = .new) (row : Document) :
    (createDocumentRow row).Calm (Machine.handler p) (fun r l' => r = .ok () ∧
      l' = l.setSession ⟨some ⟨row,false,true⟩,[],[.insertDocument row],true,false⟩) l := by
  set l₁ := l.setSession ⟨some ⟨row,false,true⟩,[.insertDocument row],[],true,false⟩
  have hadd : ∀ w, Machine.handler p (.addDocument row) (l,w) = (.ok (),l₁,w) := fun w => by
    simp only [Machine.handler,hnew]
    rfl
  have hflush : l₁.flush = (.ok (),l₁.setSession l₁.session.flushOk) :=
    Local.flush_faultless hdb (List.cons_ne_nil _ _) rfl
  refine Prog.calm_bind (R := fun r l' => r = .ok () ∧ l' = l₁) (Prog.calm_perform hadd ⟨rfl,rfl⟩) ?_ ?_
  · rintro _ _ ⟨-,rfl⟩
    exact Prog.calm_perform (Machine.handler_flush p hflush) ⟨rfl,rfl⟩
  · rintro e _ ⟨h,-⟩
    cases h

/-- The refresh of a document that is there makes its row known. -/
theorem refreshDocument_found {l : Local} {known row : Document} (hl : l.Ready row)
    (hw : w.db.documents row.id = some known) :
    Machine.handler p .refreshDocument (l,w) =
      (.ok (),l.setSession (l.session.expireDocument.refreshed known),w) := by
  have hcall : (l.setSession l.session.expireDocument).call id =
      (.ok (),l.setSession l.session.expireDocument) :=
    Local.call_faultless hl.db hl.session.pending hl.session.refusing
  have hview : (Machine.view (l.setSession l.session.expireDocument) w).documents row.id = some known := by
    rw [Machine.view,Local.setSession_session,Session.expireDocument,hl.session.flushed]
    exact hw
  have hdoc : (l.setSession l.session.expireDocument).session.document = some ⟨row,true,false⟩ := by
    simp [Session.expireDocument,hl.session.document]
  simp only [Machine.handler,Machine.refreshDocument,hcall,hdoc,hview]
  rfl

/-- How `_create_document` ends: its row is durable, and was found as `known`. -/
structure Created (D : Discipline Label World) (i : ℕ) (w : World) (l : Local) (row : Document)
    (r : Except Exc Unit) (l' : Local) (w' : World) : Prop where
  ok : r = .ok ()
  keeps : l.Keeps l'
  env : l'.env = l.env
  found : ∃ known w₁, Went D i w [.commit [.insertDocument row]] w₁ ∧ D.rely i w₁ w' ∧
    w₁.db.documents row.id = some known ∧ l'.Ready known

theorem createDocument_safe {l : Local} (hD : Fits c i D label) (hrun : l.run = i)
    (hdb : l.env.db = Stream'.const none) (hnew : l.session = .new) (row : Document)
    (hguar : ∀ w', D.rely i w w' → D.guar i label w' (w'.act i (.commit [.insertDocument row]))) :
    (createDocument row).Safe (Machine.handler p) D i label (Created D i w l row) l w := by
  set l₁ := l.setSession ⟨some ⟨row,false,true⟩,[],[.insertDocument row],true,false⟩
  set l₂ := l.setSession ⟨some ⟨row,false,false⟩,[],[],false,false⟩
  refine Prog.safe_bind (R := fun r l' w' => D.rely i w w' ∧ r = .ok () ∧ l' = l₁)
    (Prog.Calm.safe (createDocumentRow_calm hdb hnew row) fun r l' w' hw h => ⟨hw,h⟩) ?_ ?_
  · rintro _ _ w₁ ⟨hw₁,-,rfl⟩
    refine Prog.safe_bind (R := fun r l' w' => r = .ok () ∧ l' = l₂ ∧
      (w'.db.documents row.id).isSome ∧ Went D i w [.commit [.insertDocument row]] w')
      (Prog.safe_perform fun w₂ hw₂ => ?_) ?_ ?_
    · have hcall : l₁.commit = (.ok (),l₁) := Local.commit_faultless hdb rfl rfl
      have hflushed : l₁.session.flushed = [.insertDocument row] := rfl
      have hop := Machine.handler_commit p (w := w₂) hcall hrun hflushed (List.cons_ne_nil _ _)
      have hw := D.rely_trans hw₁ hw₂
      refine ⟨_,_,_,hop,hguar w₂ hw,fun w₃ hw₃ => ⟨rfl,rfl,hD.documents hw₃ ?_,.act_rely hw hw₃⟩⟩
      simp [World.act,Database.applyAll,Database.apply,Database.insertDocument]
    · rintro _ _ w₂ ⟨-,rfl,hsome,hwent⟩
      refine Prog.safe_perform fun w₃ hw₃ => ?_
      obtain ⟨known,hknown⟩ := Option.isSome_iff_exists.mp (hD.documents hw₃ hsome)
      have hready : l₂.Ready row := ⟨hdb,rfl,rfl,rfl,rfl⟩
      exact ⟨_,_,_,refreshDocument_found hready hknown,D.guar_refl i label w₃,fun w₄ hw₄ =>
        ⟨rfl,l.keeps_setSession _,rfl,known,w₃,hwent.rely hw₃,hw₄,hknown,hdb,rfl,rfl,rfl,rfl⟩⟩
    · rintro e _ _ ⟨h,-⟩
      cases h
  · rintro e _ _ ⟨-,h,-⟩
    cases h

/-- The run has its document, as `known`, and has not started to process it. -/
structure Local.Has (i : ℕ) (env : Env) (known : Document) (l : Local) : Prop where
  run : l.run = i
  started : l.started = []
  processed : l.processed = []
  ready : l.Ready known
  model : l.env.model = env.model
  enqueue : l.env.enqueue = env.enqueue

/-- The start of an upload: it ends without a document, or what follows has one. -/
theorem upload_safe {β : Type} {k : DocumentIntakeResult → ServiceProg β}
    {Q : Except Exc β → Local → World → Prop} (content : Bytes) (filename : String)
    (status : DocumentStatus) (hD : Fits c i D label) (hdb : env.db = Stream'.const none)
    (hsave : ∀ w', Went D i w [] w' → D.guar i label w'
      (w'.act i (.save (storagePath (Uuid.drawn i 0).str filename) content)))
    (hinsert : ∀ w' n, Went D i w [.save (storagePath (Uuid.drawn i 0).str filename) content] w' →
      D.guar i label w' (w'.act i (.commit [.insertDocument (uploadRow i env content filename status n)])))
    (hrefused : ∀ e l' w', (∀ pdf, parsedIn env content filename = .ok pdf → env.storage.head ≠ none) →
      l'.trail = ⟨[],[],false⟩ → Went D i w [] w' → Q (.error e) l' w')
    (hk : ∀ pdf known l' w₁ w', Uploaded D i w env content filename status pdf known w₁ →
      D.rely i w₁ w' → l'.Has i env known →
      (k ⟨uploadRow i env content filename status pdf.pageCount,pdf.pagesText⟩).Safe
        (Machine.handler p) D i label Q l' w') :
    (do
      let intake ← prepareDocument content filename status
      tryCatch (createDocument intake.document) undoUpload
      k intake).Safe (Machine.handler p) D i label Q (Local.start i env) w := by
  refine Prog.safe_bind (prepareDocument_safe content filename status fun w' hw => hsave w' (.wait hw)) ?_ ?_
  · rintro intake l₁ w₁ (⟨pdf,hpdf,hstorage,h,rfl,hwent⟩ | ⟨e,-,h,-⟩)
    · obtain rfl := Except.ok.inj h
      set row := uploadRow i env content filename status pdf.pageCount
      have hcreate := createDocument_safe (p := p) (w := w₁) (l := Local.prepared i env) hD rfl hdb rfl row
        fun w' hw => hinsert w' _ (hwent.rely hw)
      have hguarded : (tryCatch (createDocument row) undoUpload).Safe (Machine.handler p) D i label
          (Created D i w₁ (Local.prepared i env) row) (Local.prepared i env) w₁ :=
        Prog.safe_tryCatch hcreate (fun _ _ _ h => h) fun e l' w' h => by cases h.ok
      refine Prog.safe_bind hguarded (fun _ l₂ w₂ h => ?_) fun e l' w' h => by cases h.ok
      obtain ⟨known,w₃,hwent',hw₂,hknown,hready⟩ := h.found
      exact hk pdf known l₂ w₃ w₂ ⟨hpdf,hstorage,hwent.trans hwent',hknown⟩ hw₂
        ⟨h.keeps.run,h.keeps.started,h.keeps.processed,hready,by rw [h.env]; rfl,by rw [h.env]; rfl⟩
    · cases h
  · rintro e l₁ w₁ (⟨pdf,-,-,h,-⟩ | ⟨e,hwhy,h,-,ht,hwent⟩)
    · cases h
    · obtain rfl := Except.error.inj h
      exact hrefused _ l₁ w₁ hwhy ht hwent

end Uploads

section Programs
variable {c : Config} {D : Discipline Label World} {i : ℕ} {w : World} {env : Env}

/-- How a request's part ends inside `get_db`: a result leaves the session fit for
the commit. -/
structure Closes (c : Config) (D : Discipline Label World) (i : ℕ) (w : World) (env : Env) (s : Source)
    (r : Except Exc Answer) (l' : Local) (w' : World) : Prop where
  ends : Ends c D i w env s r l'.trail w'
  ready : r.isOk → ∃ known, l'.Ready known

theorem Closes.rely {s : Source} {r : Except Exc Answer} {l' : Local} {w' w'' : World}
    (h : Closes c D i w env s r l' w') (hw : D.rely i w' w'') : Closes c D i w env s r l' w'' :=
  ⟨h.ends.rely hw,h.ready⟩

theorem processUploadedInline_safe {req : ExtractRequest} {content : Bytes} {filename : String}
    (hD : Fits c i D ⟨.request req,env⟩) (hdb : env.db = Stream'.const none) (htrace : w.trace i = [])
    (hkind : (Source.request req).kind c = .uploadInline) (hcontent : req.content = some content)
    (hfilename : req.filename = some filename) (hid : req.documentId = none) :
    (processUploadedInline c content filename req.docType (req.strategy.map ExtractionStrategy.value)).Safe
      (Machine.handler c.processor) D i ⟨.request req,env⟩
      (fun r l' w' => Closes c D i w env (.request req) (r.map (inlineAnswer req.asyncMode)) l' w')
      (Local.start i env) w := by
  have hscript : ∀ n (known : Document) o as, known.id = .drawn i 0 →
      Recording c i (known.with .processing) [] o as →
      Script c i ((Source.request req).kind c)
        (.save (storagePath (Uuid.drawn i 0).str filename) content ::
          .commit [.insertDocument (uploadRow i env content filename .uploaded n)] ::
          (setting known .processing ++ as)) := by
    intro n known o as hknown hrec
    have hrow : (uploadRow i env content filename .uploaded n).id = .drawn i 0 := rfl
    exact hkind ▸ .uploadInline hrow hknown hrec
  have hnone : ∀ known, Recording c i known [] (.error .keyError) [] := fun known => rfl
  refine upload_safe content filename .uploaded hD hdb ?_ ?_ ?_ ?_
  · intro w' hw
    exact hD.guar htrace hw (hscript 0 (uploadRow i env content filename .uploaded 0) _ [] rfl (hnone _))
      (List.prefix_append [_] _) fun job h => by cases h
  · intro w' n hw
    exact hD.guar htrace hw (hscript n (uploadRow i env content filename .uploaded n) _ [] rfl (hnone _))
      (List.prefix_append [_,_] _) fun job h => by cases h
  · intro e l' w' hwhy ht hw
    exact ⟨ht ▸ .notUploaded hcontent hfilename hid hwhy hw,fun h => by cases h⟩
  · intro pdf known l₁ w₁ w₂ hup hw₂ hhas
    have hknown : known.id = .drawn i 0 := w₁.db.keyed hup.found
    refine Prog.safe_op (fun _ => rfl) fun w₃ hw₃ => ?_
    set l₂ : Local := { l₁ with started := l₁.started ++ [.drawn i 0] }
    have hready₂ : l₂.Ready known := ⟨hhas.ready.db,hhas.ready.session⟩
    have hstarted₂ : l₂.started = [.drawn i 0] := by simp only [l₂,hhas.started,List.nil_append]
    have hw₁₃ := D.rely_trans hw₂ hw₃
    refine Prog.safe_tryCatch (R := fun r l' w' =>
      Closes c D i w env (.request req) (r.map (inlineAnswer req.asyncMode)) l' w') ?_
      (fun _ _ _ h => h) ?_
    · refine Prog.safe_bind (R := fun r l' w' => r = .ok () ∧ l₂.Keeps l' ∧
        l'.Ready (known.with .processing) ∧ l'.env.model = env.model ∧
        Went D i w₁ (setting known .processing) w')
        (setDocumentStatus_safe .processing hhas.run hready₂ ?_ ?_) ?_ ?_
      · intro w' a hw' ha
        obtain ⟨changes,rfl,hset⟩ := mem_setting ha
        refine hD.guar htrace (hup.went.rely (D.rely_trans hw₁₃ hw'))
          (hscript pdf.pageCount known _ [] hknown (hnone _)) ?_ fun job h => by cases h
        rw [hset]
        exact List.prefix_refl _
      · intro l' w' hkeep hready hmodel hwent
        exact ⟨rfl,hkeep,hready,hmodel.trans hhas.model,(Discipline.Passes.wait hw₁₃).trans hwent⟩
      · rintro _ l₃ w₄ ⟨-,hkeep,hready,hmodel,hwent⟩
        refine Prog.Safe.mono (processDocumentPages_safe pdf.pagesText req.docType
          (req.strategy.map ExtractionStrategy.value) (hkeep.run.trans hhas.run) hready
          (hkeep.started.trans hstarted₂) (hkeep.processed.trans hhas.processed)
          hmodel ?_) ?_
        · intro w' a o as hw' hrec ha
          obtain ⟨h,-⟩ | ⟨changes,rfl,rfl⟩ := hrec.mem ha
          · cases h
          · exact hD.guar htrace ((hup.went.trans hwent).rely hw') (hscript _ known o _ hknown hrec)
              (List.prefix_refl _) fun job h => by cases h
        · intro r l' w' hp
          obtain ⟨as,has,hrec⟩ := hp.went
          exact ⟨hp.trail ▸ .uploadInline hkind hcontent hfilename hup rfl hrec (hwent.trans has)
            (.map hp.ok),fun _ => ⟨_,hp.ready⟩⟩
      · rintro e l' w' ⟨h,-⟩
        cases h
    · intro e l' w' h
      refine Prog.safe_op (fun _ => rfl) fun w₄ hw₄ => Prog.safe_done fun w₅ hw₅ => ?_
      refine ⟨?_,fun h => by cases h⟩
      rw [Local.trail_rollback]
      exact h.ends.rely (D.rely_trans hw₄ hw₅)

/-- The run after the call of the queue. -/
def Local.calledQueue (l : Local) : Local := { l with
  env := { l.env with enqueue := l.env.enqueue.tail } }

theorem enqueueExtraction_delivers {p : DocumentProcessor} {label : Label} {l : Local} {w₁ : World}
    {jobId : String} {docType : Option String} {strategy : Option ExtractionStrategy} (id : Uuid)
    (hrun : l.run = i) (hqueue : l.env.enqueue.head = .ok jobId)
    (hguar : ∀ w', D.rely i w₁ w' → D.guar i label w'
      (w'.act i (.enqueue ⟨id.str,docType,strategy.map ExtractionStrategy.value,i⟩))) :
    (enqueueExtraction id docType strategy).Safe (Machine.handler p) D i label (fun r l' w' =>
      r = .ok jobId ∧ l' = l.calledQueue ∧
        Went D i w₁ [.enqueue ⟨id.str,docType,strategy.map ExtractionStrategy.value,i⟩] w') l w₁ := by
  refine Prog.safe_perform fun w₂ hw₂ => ⟨.ok jobId,l.calledQueue,_,?_,hguar w₂ hw₂,fun w₃ hw₃ =>
    ⟨rfl,rfl,.act_rely hw₂ hw₃⟩⟩
  simp only [Machine.handler,Machine.enqueueJob,hqueue,Local.calledQueue,hrun]
  rfl

theorem enqueueExtraction_raises {p : DocumentProcessor} {label : Label} {l : Local} {w₁ : World}
    {e : Exc} (id : Uuid) (docType : Option String) (strategy : Option ExtractionStrategy)
    (hqueue : l.env.enqueue.head = .error e) :
    (enqueueExtraction id docType strategy).Safe (Machine.handler p) D i label (fun r l' w' =>
      r = .error e ∧ l' = l.calledQueue ∧ D.rely i w₁ w') l w₁ := by
  refine Prog.safe_perform fun w₂ hw₂ => ⟨.error e,l.calledQueue,w₂,?_,D.guar_refl i label w₂,
    fun w₃ hw₃ => ⟨rfl,rfl,D.rely_trans hw₂ hw₃⟩⟩
  simp only [Machine.handler,Machine.enqueueJob,hqueue,Local.calledQueue]
  rfl

section Queued
variable {req : ExtractRequest} {content : Bytes} {filename : String} {pdf : ParsedPdf} {known : Document}
variable {l : Local} {w₁ w₂ : World}

/-- The queue takes the job of the upload. -/
theorem enqueueOrProcess_sent (hD : Fits c i D ⟨.request req,env⟩) (htrace : w.trace i = [])
    (hkind : (Source.request req).kind c = .uploadQueued) (hcontent : req.content = some content)
    (hfilename : req.filename = some filename)
    (hup : Uploaded D i w env content filename .processing pdf known w₁) (hw₂ : D.rely i w₁ w₂)
    (hhas : l.Has i env known) {jobId : String} (hqueue : env.enqueue.head = .ok jobId) :
    (enqueueOrProcess c ⟨uploadRow i env content filename .processing pdf.pageCount,pdf.pagesText⟩
      req.docType req.strategy).Safe (Machine.handler c.processor) D i ⟨.request req,env⟩
      (Closes c D i w env (.request req)) l w₂ := by
  have hknown : known.id = .drawn i 0 := w₁.db.keyed hup.found
  have hready : l.calledQueue.Ready known := ⟨hhas.ready.db,hhas.ready.session⟩
  refine Prog.safe_tryCatch (R := fun r l' w' => Closes c D i w env (.request req) r l' w' ∧ r.isOk) ?_
    (fun _ _ _ h => h.1) fun e l' w' h => by cases h.2
  refine Prog.safe_op (Machine.handler_documentAttributes _ hhas.ready.session.documentAttributes) fun w₃ hw₃ => ?_
  refine Prog.safe_bind (enqueueExtraction_delivers known.id hhas.run (hhas.enqueue ▸ hqueue)
    fun w' hw' => ?_) ?_ ?_
  · rw [hknown]
    have hwent := hup.went.rely (D.rely_trans hw₂ (D.rely_trans hw₃ hw'))
    have hscript := @Script.uploadQueued c i content
      (uploadRow i env content filename .processing pdf.pageCount)
      ⟨(Uuid.drawn i 0).str,req.docType,req.strategy.map ExtractionStrategy.value,i⟩ rfl rfl rfl rfl
    refine hD.guar htrace hwent (hkind ▸ hscript) (List.prefix_refl _) fun job h => ?_
    cases h
    exact hD.documents (D.rely_trans hw₂ (D.rely_trans hw₃ hw'))
      (Option.isSome_iff_exists.mpr ⟨known,hup.found⟩)
  · rintro _ _ w₄ ⟨h,rfl,hwent⟩
    obtain rfl := Except.ok.inj h
    refine Prog.safe_op (Machine.handler_documentAttributes _ hready.session.documentAttributes)
      fun w₅ hw₅ => Prog.safe_done fun w₆ hw₆ => ⟨⟨?_,fun _ => ⟨known,hready⟩⟩,rfl⟩
    have htrail : l.calledQueue.trail = ⟨[],[],true⟩ := by
      simp only [Local.trail,hready.session.document,Option.isSome_some]
      rw [show l.calledQueue.started = [] from hhas.started,
        show l.calledQueue.processed = [] from hhas.processed]
    rw [htrail,hknown]
    rw [hknown] at hwent
    exact .uploadQueued hkind hcontent hfilename hqueue hup
      ((Discipline.Passes.wait (D.rely_trans hw₂ hw₃)).trans (hwent.rely (D.rely_trans hw₅ hw₆)))
  · rintro e l' w' ⟨h,-⟩
    cases h

/-- The queue refuses the job, and the upload is processed inline. -/
theorem enqueueOrProcess_fallback (hD : Fits c i D ⟨.request req,env⟩) (htrace : w.trace i = [])
    (hkind : (Source.request req).kind c = .uploadQueued) (hcontent : req.content = some content)
    (hfilename : req.filename = some filename)
    (hup : Uploaded D i w env content filename .processing pdf known w₁) (hw₂ : D.rely i w₁ w₂)
    (hhas : l.Has i env known) {e : Exc} (hqueue : env.enqueue.head = .error e) :
    (enqueueOrProcess c ⟨uploadRow i env content filename .processing pdf.pageCount,pdf.pagesText⟩
      req.docType req.strategy).Safe (Machine.handler c.processor) D i ⟨.request req,env⟩
      (Closes c D i w env (.request req)) l w₂ := by
  have hknown : known.id = .drawn i 0 := w₁.db.keyed hup.found
  refine Prog.safe_tryCatch (R := fun r l' w' => r = .error e ∧ l' = l.calledQueue ∧ D.rely i w₁ w')
    ?_ ?_ ?_
  · refine Prog.safe_op (Machine.handler_documentAttributes _ hhas.ready.session.documentAttributes)
      fun w₃ hw₃ => ?_
    refine Prog.safe_bind (enqueueExtraction_raises known.id _ _ (hhas.enqueue ▸ hqueue)) ?_ ?_
    · rintro _ _ _ ⟨h,-⟩
      cases h
    · rintro e' l' w' ⟨h,hl,hw⟩
      exact ⟨congrArg _ (Except.error.inj h),hl,D.rely_trans hw₂ (D.rely_trans hw₃ hw)⟩
  · rintro _ _ _ ⟨h,-⟩
    cases h
  · rintro e' _ w₃ ⟨-,rfl,hw₃⟩
    refine Prog.safe_op (fun _ => rfl) fun w₄ hw₄ => ?_
    set l₂ : Local := { l.calledQueue with started := l.calledQueue.started ++ [.drawn i 0] }
    have hready₂ : l₂.Ready known := ⟨hhas.ready.db,hhas.ready.session⟩
    have hstarted₂ : l₂.started = [.drawn i 0] := by
      simp only [l₂,show l.calledQueue.started = [] from hhas.started,List.nil_append]
    have hw₁₄ := D.rely_trans hw₃ hw₄
    refine Prog.safe_bind (processDocumentPages_safe pdf.pagesText req.docType
      (req.strategy.map ExtractionStrategy.value) hhas.run hready₂ hstarted₂ hhas.processed
      hhas.model ?_) ?_ ?_
    · intro w' a o as hw' hrec ha
      obtain ⟨h,-⟩ | ⟨changes,rfl,rfl⟩ := hrec.mem ha
      · cases h
      · have hscript := @Script.uploadFallback c i content
          (uploadRow i env content filename .processing pdf.pageCount) known _ o rfl hknown rfl hrec
        exact hD.guar htrace (hup.went.rely (D.rely_trans hw₁₄ hw')) (hkind ▸ hscript)
          (List.prefix_refl _) fun job h => by cases h
    · intro r l' w' hp
      refine Prog.safe_done fun w'' hw'' => ?_
      obtain ⟨as,has,hrec⟩ := hp.went
      exact ⟨hp.trail ▸ .uploadFallback hkind hcontent hfilename hqueue hup rfl hrec
        ((Discipline.Passes.wait hw₁₄).trans (has.rely hw'')) (.map hp.ok),
        fun _ => ⟨_,hp.ready⟩⟩
    · intro e' l' w' hp
      obtain ⟨as,has,hrec⟩ := hp.went
      exact ⟨hp.trail ▸ .uploadFallback hkind hcontent hfilename hqueue hup rfl hrec
        ((Discipline.Passes.wait hw₁₄).trans has) (.map hp.ok),
        fun h => by cases h⟩

theorem enqueueOrProcess_safe (hD : Fits c i D ⟨.request req,env⟩) (htrace : w.trace i = [])
    (hkind : (Source.request req).kind c = .uploadQueued) (hcontent : req.content = some content)
    (hfilename : req.filename = some filename)
    (hup : Uploaded D i w env content filename .processing pdf known w₁) (hw₂ : D.rely i w₁ w₂)
    (hhas : l.Has i env known) :
    (enqueueOrProcess c ⟨uploadRow i env content filename .processing pdf.pageCount,pdf.pagesText⟩
      req.docType req.strategy).Safe (Machine.handler c.processor) D i ⟨.request req,env⟩
      (Closes c D i w env (.request req)) l w₂ := by
  cases hqueue : env.enqueue.head with
  | ok jobId => exact enqueueOrProcess_sent hD htrace hkind hcontent hfilename hup hw₂ hhas hqueue
  | error e => exact enqueueOrProcess_fallback hD htrace hkind hcontent hfilename hup hw₂ hhas hqueue

end Queued

theorem selectDocument_safe {p : DocumentProcessor} {label : Label} (id : Uuid)
    (hdb : env.db = Stream'.const none) :
    (perform (.selectDocument id)).Safe (Machine.handler p) D i label (fun r l' w' =>
      ∃ w₁, D.rely i w w₁ ∧ D.rely i w₁ w' ∧ r = .ok (w₁.db.documents id) ∧
        l' = (Local.start i env).setSession (Session.new.selected (w₁.db.documents id)))
      (Local.start i env) w := by
  refine Prog.safe_perform fun w₁ hw₁ => ⟨_,_,w₁,?_,D.guar_refl i label w₁,fun w₂ hw₂ =>
    ⟨w₁,hw₁,hw₂,rfl,rfl⟩⟩
  have hcall : ∀ f, (Local.start i env).call f = (.ok (),Local.start i env) := fun f =>
    Local.call_faultless hdb rfl rfl
  simp only [Machine.handler,Machine.selectDocument,hcall]
  rfl

/-- What loading a document leaves alone. -/
structure Local.Loaded (l l' : Local) : Prop where
  run : l'.run = l.run
  session : l'.session = l.session
  db : l'.env.db = l.env.db
  model : l'.env.model = l.env.model
  trail : l'.trail = l.trail

theorem loadDocument_safe {p : DocumentProcessor} {label : Label} {l : Local} {known : Document}
    {w₁ : World} (hknown : l.session.documentAttributes = .ok known) :
    loadDocument.Safe (Machine.handler p) D i label (fun r l' w' => ∃ w₂, D.rely i w₁ w₂ ∧
      D.rely i w₂ w' ∧ r = (loadedIn l.env w₂ known).map ParsedPdf.pagesText ∧ l.Loaded l') l w₁ := by
  refine Prog.safe_op (Machine.handler_documentAttributes _ hknown) fun w₂ hw₂ => ?_
  refine Prog.safe_bind (R := fun r l' w' => ∃ w₃, D.rely i w₁ w₃ ∧ D.rely i w₃ w' ∧
    l' = Machine.calledStorage l ∧ r = storedIn l.env w₃ known.filePath) (Prog.safe_perform fun w₃ hw₃ => ⟨_,_,w₃,?_,
        D.guar_refl i label w₃,fun w₄ hw₄ => ⟨w₃,D.rely_trans hw₂ hw₃,hw₄,rfl,rfl⟩⟩) ?_ ?_
  · simp only [Machine.handler,Machine.load,storedIn]
    cases l.env.storage.head <;> cases w₃.files known.filePath <;> rfl
  · rintro content _ w₄ ⟨w₃,hw₃,hw₄,rfl,h⟩
    refine Prog.safe_bind (R := fun r l' w' => ∃ w₃, D.rely i w₁ w₃ ∧ D.rely i w₃ w' ∧
      r = loadedIn l.env w₃ known ∧ l.Loaded l')
      (Prog.Calm.safe (parsePdf_calm content known.filename _) ?_) ?_ ?_
    · rintro _ _ w₅ hw₅ ⟨rfl,rfl⟩
      exact ⟨w₃,hw₃,D.rely_trans hw₄ hw₅,by rw [loadedIn,← h]; rfl,⟨rfl,rfl,rfl,rfl,rfl⟩⟩
    · rintro pdf l' w₅ ⟨w₃,hw₃,hw₅,h,hl'⟩
      exact Prog.safe_done fun w₆ hw₆ => ⟨w₃,hw₃,D.rely_trans hw₅ hw₆,by rw [← h]; rfl,hl'⟩
    · rintro e l' w₅ ⟨w₃,hw₃,hw₅,h,hl'⟩
      exact ⟨w₃,hw₃,hw₅,by rw [← h]; rfl,hl'⟩
  · rintro e _ w₄ ⟨w₃,hw₃,hw₄,rfl,h⟩
    exact ⟨w₃,hw₃,hw₄,by rw [loadedIn,← h]; rfl,⟨rfl,rfl,rfl,rfl,rfl⟩⟩

/-- How loading and processing an existing document end, from `w₂` on, before its
exception handler. -/
inductive Worked (c : Config) (D : Discipline Label World) (i : ℕ) (w₂ : World) (env : Env) (s : Source)
    (id : Uuid) (known : Document) : Except Exc ExtractResponse → Local → World → Prop
  | notLoaded {e : Exc} {l' : Local} {w₃ w' : World} (hw₃ : D.rely i w₂ w₃)
      (hpdf : loadedIn env w₃ known = .error e) (hrun : l'.run = i)
      (hready : l'.Ready known) (htrail : l'.trail = ⟨[id],[],true⟩)
      (hw : D.rely i w₃ w') : Worked c D i w₂ env s id known (.error e) l' w'
  | processed {pdf : ParsedPdf} {r : Except Exc ExtractResponse} {l' : Local} {w₃ w' : World}
      (hw₃ : D.rely i w₂ w₃) (hpdf : loadedIn env w₃ known = .ok pdf)
      (h : Processed c D i w₃ env.model id known ⟨pdf.pagesText,known.pageCount,s.docType,s.strategy⟩
        r l' w') : Worked c D i w₂ env s id known r l' w'

theorem worked_safe {s : Source} {id : Uuid} {known : Document} {l : Local} {w₂ : World}
    {label : Label} (hrun : l.run = i) (hl : l.Ready known) (hstarted : l.started = [id])
    (hprocessed : l.processed = []) (hstorage : l.env.storage = env.storage)
    (hopenPdf : l.env.openPdf = env.openPdf) (hmodel : l.env.model = env.model)
    (hguar : ∀ w' a o as, D.rely i w₂ w' → Recording c i known [] o as → a ∈ as →
      D.guar i label w' (w'.act i a)) :
    (do
      let pages ← loadDocument
      processDocumentPages c pages s.docType s.strategy).Safe (Machine.handler c.processor) D i label
      (Worked c D i w₂ env s id known) l w₂ := by
  have henv : ∀ w₃, loadedIn l.env w₃ known = loadedIn env w₃ known := fun w₃ => by
    simp only [loadedIn,storedIn,parsedIn,hstorage,hopenPdf]
  refine Prog.safe_bind (loadDocument_safe hl.session.documentAttributes) ?_ ?_
  · rintro pages l₁ w₄ ⟨w₃,hw₃,hw₄,h,hloaded⟩
    rw [henv] at h
    cases hpdf : loadedIn env w₃ known with
    | error e => rw [hpdf] at h; cases h
    | ok pdf =>
      rw [hpdf] at h
      obtain rfl : pages = pdf.pagesText := Except.ok.inj h
      have htrail : l₁.started = [id] ∧ l₁.processed = [] :=
        ⟨(congrArg Trail.started hloaded.trail).trans hstarted,
          (congrArg Trail.processed hloaded.trail).trans hprocessed⟩
      have hready : l₁.Ready known := ⟨hloaded.db.trans hl.db,hloaded.session ▸ hl.session⟩
      refine Prog.Safe.mono (processDocumentPages_safe pdf.pagesText s.docType s.strategy
        (hloaded.run.trans hrun) hready htrail.1 htrail.2 (hloaded.model.trans hmodel)
        fun w' a o as hw' => hguar w' a o as (D.rely_trans hw₃ (D.rely_trans hw₄ hw'))) ?_
      intro r l' w' hp
      refine .processed hw₃ hpdf ⟨hp.run,hp.trail,hp.ready,?_,hp.ok⟩
      exact hp.went.imp fun as has => ⟨(Discipline.Passes.wait hw₄).trans has.1,has.2⟩
  · rintro e l₁ w₄ ⟨w₃,hw₃,hw₄,h,hloaded⟩
    rw [henv] at h
    cases hpdf : loadedIn env w₃ known with
    | ok pdf => rw [hpdf] at h; cases h
    | error e' =>
      rw [hpdf] at h
      obtain rfl : e = e' := Except.error.inj h
      refine .notLoaded hw₃ hpdf (hloaded.run.trans hrun) ⟨hloaded.db.trans hl.db,hloaded.session ▸ hl.session⟩
        ?_ hw₄
      rw [hloaded.trail,Local.trail,hstarted,hprocessed,hl.session.document]
      rfl

/-- The exception handler of an existing document: the session sets the status to
failed, unless it knows it as failed. -/
theorem failDocument_safe {s : Source} {known : Document} {l : Local} {w₃ : World} {e : Exc}
    {Q : Except Exc ExtractResponse → Local → World → Prop} (hrun : l.run = i) (hl : l.Ready known)
    (hguar : ∀ w' a, D.rely i w₃ w' → a ∈ setting known .failed → D.guar i ⟨s,env⟩ w' (w'.act i a))
    (hQ : ∀ l' w', l'.trail = l.trail → Went D i w₃ (setting known .failed) w' → Q (.error e) l' w') :
    (do
      setStatus .failed
      perform .commit
      throw e : ServiceProg ExtractResponse).Safe (Machine.handler c.processor) D i ⟨s,env⟩ Q l w₃ := by
  have hassoc : (do
      setStatus .failed
      perform .commit
      throw e : ServiceProg ExtractResponse) = (do
      setDocumentStatus .failed
      throw e) := (bind_assoc (setStatus .failed) _ _).symm
  rw [hassoc]
  refine Prog.safe_bind (R := fun r l' w' => r = .ok () ∧ l'.trail = l.trail ∧
    Went D i w₃ (setting known .failed) w') (setDocumentStatus_safe .failed hrun hl hguar ?_) ?_ ?_
  · intro l' w' hkeep hready _ hwent
    refine ⟨rfl,?_,hwent⟩
    simp only [Local.trail,hkeep.started,hkeep.processed,hready.session.document,hl.session.document,
      Option.isSome_some]
  · rintro _ l' w' ⟨-,ht,hwent⟩
    exact Prog.safe_done fun w'' hw'' => hQ l' w'' ht (hwent.rely hw'')
  · rintro e' l' w' ⟨h,-⟩
    cases h

theorem error_of_isOk {ε ε' α β : Type} {e : ε} {r : Except ε' β}
    (h : (Except.error e : Except ε α).isOk = r.isOk) : ∃ x, r = .error x := by
  cases r with
  | ok b => cases h
  | error x => exact ⟨x,rfl⟩

section Existing
variable {s : Source} {known : Document} {w₁ : World}

/-- A run of an existing document may commit what goes on with its script. -/
theorem existing_guar (hD : Fits c i D ⟨s,env⟩) (htrace : w.trace i = []) (hw₁ : D.rely i w w₁)
    {as full : List Action} {a : Action} {w' : World} (hwent : Went D i w₁ as w') (hpre : as ++ [a] <+: full)
    (hfull : Script c i (s.kind c) full) (ha : ∃ changes, a = .commit changes) :
    D.guar i ⟨s,env⟩ w' (w'.act i a) := by
  obtain ⟨changes,rfl⟩ := ha
  exact hD.guar htrace ((Discipline.Passes.wait hw₁).trans hwent) hfull hpre fun job h => by cases h

/-- An existing document that is in processing: it is loaded and processed, or fails. -/
theorem existingWork_safe (hD : Fits c i D ⟨s,env⟩) (htrace : w.trace i = [])
    (hkind : s.kind c = .existingInline known.id) (hw₁ : D.rely i w w₁)
    (hrow : w₁.db.documents known.id = some known) {l₁ l₂ : Local} {w₄ : World} (hkeep : l₁.Keeps l₂)
    (hl₁ : l₁ = { (Local.start i env).setSession (Session.new.selected (some known)) with started := [known.id] })
    (hready : l₂.Ready (known.with .processing)) (hmodel : l₂.env.model = env.model)
    (hwent : Went D i w₁ (setting known .processing) w₄) :
    (tryCatch
      (do
        let pages ← loadDocument
        processDocumentPages c pages s.docType s.strategy)
      fun e => do
        setStatus .failed
        perform .commit
        throw e).Safe (Machine.handler c.processor) D i ⟨s,env⟩
      (fun r l' w' => Closes c D i w env s (r.map (inlineAnswer s.asyncMode)) l' w') l₂ w₄ := by
  subst hl₁
  have hscript : ∀ o as, Recording c i (known.with .processing)
      (setting (known.with .processing) .failed) o as →
      Script c i (s.kind c) (setting known .processing ++ as) := fun o as hrec =>
    hkind ▸ .existingInline hrec
  refine Prog.safe_tryCatch (worked_safe (s := s) hkeep.run hready hkeep.started hkeep.processed
    hkeep.storage hkeep.openPdf hmodel ?_) ?_ ?_
  · intro w' a o as hw' hrec ha
    obtain ⟨h,-⟩ | ⟨changes,rfl,rfl⟩ := hrec.mem ha
    · cases h
    · cases o with
      | ok r =>
        exact existing_guar hD htrace hw₁ (hwent.rely hw') (List.prefix_refl _)
          (hscript (.ok r) _ (hrec.result rfl)) ⟨_,rfl⟩
      | error e =>
        refine existing_guar hD htrace hw₁ (hwent.rely hw') ?_ (hscript (.error e) _ (hrec.failing rfl)) ⟨_,rfl⟩
        rw [← List.append_assoc]
        exact List.prefix_append _ _
  · rintro r l' w' h
    cases h with
    | processed hw₅ hpdf hp =>
      obtain ⟨as,has,hrec⟩ := hp.went
      exact ⟨hp.trail ▸ .existingInline hkind hw₁ hrow (hwent.rely hw₅) hpdf rfl
        (hrec.result hp.ok.symm) has (.map hp.ok),fun _ => ⟨_,hp.ready⟩⟩
  · rintro e l' w₅ h
    cases h with
    | notLoaded hw₆ hpdf hrun hready' htrail hw₇ =>
      have hwent' := hwent.rely (D.rely_trans hw₆ hw₇)
      refine failDocument_safe hrun hready' ?_ ?_
      · intro w' a hw' ha
        obtain ⟨changes,rfl,hset⟩ := mem_setting ha
        refine existing_guar hD htrace hw₁ (hwent'.rely hw') ?_ (hscript (.error .keyError) _ rfl) ⟨_,rfl⟩
        rw [hset]
      · intro l'' w' ht hw'
        exact ⟨ht ▸ htrail ▸ .notLoaded hkind hw₁ hrow (hwent.rely hw₆) hpdf
          ((Discipline.Passes.wait hw₇).trans hw'),fun h => by cases h⟩
    | processed hw₆ hpdf hp =>
      obtain ⟨as,has,hrec⟩ := hp.went
      obtain ⟨x,hx⟩ := error_of_isOk hp.ok
      have hfailing := hrec.failing hx
      refine failDocument_safe hp.run hp.ready ?_ ?_
      · intro w' a hw' ha
        obtain ⟨changes,rfl,hset⟩ := mem_setting ha
        refine existing_guar hD htrace hw₁ ((hwent.rely hw₆).trans (has.rely hw')) ?_
          (hscript _ _ hfailing) ⟨_,rfl⟩
        rw [hset,List.append_assoc]
      · intro l'' w' ht hw'
        exact ⟨ht ▸ hp.trail ▸ .existingInline hkind hw₁ hrow (hwent.rely hw₆) hpdf rfl hfailing
          (has.trans hw') (.map hp.ok),fun h => by cases h⟩

end Existing

theorem processExistingInline_safe {s : Source} {id : Uuid} (hD : Fits c i D ⟨s,env⟩)
    (hdb : env.db = Stream'.const none) (htrace : w.trace i = [])
    (hkind : s.kind c = .existingInline id) :
    (processExistingInline c id s.docType s.strategy).Safe (Machine.handler c.processor) D i ⟨s,env⟩
      (fun r l' w' => Closes c D i w env s (r.map (inlineAnswer s.asyncMode)) l' w')
      (Local.start i env) w := by
  refine Prog.safe_bind (selectDocument_safe id hdb) ?_ ?_
  · rintro row _ w₂ ⟨w₁,hw₁,hw₂,h,rfl⟩
    obtain rfl := Except.ok.inj h
    cases hrow : w₁.db.documents id with
    | none =>
      exact Prog.safe_done fun w₃ hw₃ => ⟨.notFound (.inl hkind) hw₁ hrow
        (.wait (D.rely_trans hw₁ (D.rely_trans hw₂ hw₃))),fun h => by cases h⟩
    | some known =>
      obtain rfl : known.id = id := w₁.db.keyed hrow
      refine Prog.safe_op (fun _ => rfl) fun w₃ hw₃ => ?_
      set l₁ : Local := { (Local.start i env).setSession (Session.new.selected (some known)) with
        started := [known.id] } with hl₁
      have hready₁ : l₁.Ready known := ⟨hdb,rfl,rfl,rfl,rfl⟩
      have hw₁₃ := D.rely_trans hw₂ hw₃
      refine Prog.safe_bind (R := fun r l' w' => r = .ok () ∧ l₁.Keeps l' ∧
        l'.Ready (known.with .processing) ∧ l'.env.model = env.model ∧
        Went D i w₁ (setting known .processing) w')
        (setDocumentStatus_safe .processing rfl hready₁ ?_ ?_) ?_ ?_
      · intro w' a hw' ha
        obtain ⟨changes,rfl,hset⟩ := mem_setting ha
        have hscript : Script c i (s.kind c) (setting known .processing ++ _) :=
          hkind ▸ @Script.existingInline c i known _ (.error .keyError) rfl
        refine existing_guar hD htrace hw₁ (.wait (D.rely_trans hw₁₃ hw')) ?_ hscript ⟨_,rfl⟩
        rw [hset]
        exact List.prefix_append _ _
      · intro l' w' hkeep hready hmodel hwent
        exact ⟨rfl,hkeep,hready,hmodel,(Discipline.Passes.wait hw₁₃).trans hwent⟩
      · rintro _ l₂ w₄ ⟨-,hkeep,hready,hmodel,hwent⟩
        exact existingWork_safe hD htrace hkind hw₁ hrow hkeep hl₁ hready hmodel hwent
      · rintro e l' w' ⟨h,-⟩
        cases h
  · rintro e l' w' ⟨w₁,-,-,h,-⟩
    cases h

theorem extractExistingQueued_safe {req : ExtractRequest} {id : Uuid}
    (hD : Fits c i D ⟨.request req,env⟩) (hdb : env.db = Stream'.const none) (htrace : w.trace i = [])
    (hkind : (Source.request req).kind c = .existingQueued id) :
    (do
      match ← perform (.selectDocument id) with
      | none => throw (.documentNotFound id)
      | some _ => do
        let jobId ← enqueueExtraction id req.docType req.strategy
        return .async id jobId : ServiceProg Answer).Safe (Machine.handler c.processor) D i
      ⟨.request req,env⟩ (Closes c D i w env (.request req)) (Local.start i env) w := by
  refine Prog.safe_bind (selectDocument_safe id hdb) ?_ ?_
  · rintro row _ w₂ ⟨w₁,hw₁,hw₂,h,rfl⟩
    obtain rfl := Except.ok.inj h
    cases hrow : w₁.db.documents id with
    | none =>
      exact Prog.safe_done fun w₃ hw₃ => ⟨.notFound (.inr hkind) hw₁ hrow
        (.wait (D.rely_trans hw₁ (D.rely_trans hw₂ hw₃))),fun h => by cases h⟩
    | some known =>
      set l₁ := (Local.start i env).setSession (Session.new.selected (some known))
      cases hqueue : env.enqueue.head with
      | ok jobId =>
        have hq : l₁.env.enqueue.head = .ok jobId := hqueue
        refine Prog.safe_bind (enqueueExtraction_delivers id rfl hq fun w' hw' => ?_) ?_ ?_
        · have hw₁' := D.rely_trans hw₂ hw'
          have hscript := @Script.existingQueued c i id
            ⟨id.str,req.docType,req.strategy.map ExtractionStrategy.value,i⟩ rfl rfl
          refine hD.guar htrace (.wait (D.rely_trans hw₁ hw₁')) (hkind ▸ hscript) (List.prefix_refl _)
            fun job h => ?_
          cases h
          exact hD.documents hw₁' (Option.isSome_iff_exists.mpr ⟨known,hrow⟩)
        · rintro _ _ w₃ ⟨h,rfl,hwent⟩
          obtain rfl := Except.ok.inj h
          exact Prog.safe_done fun w₄ hw₄ => ⟨.existingQueued hkind hw₁ hrow hqueue
            ((Discipline.Passes.wait hw₂).trans (hwent.rely hw₄)),
            fun _ => ⟨known,hdb,rfl,rfl,rfl,rfl⟩⟩
        · rintro e l' w' ⟨h,-⟩
          cases h
      | error e =>
        have hq : l₁.env.enqueue.head = .error e := hqueue
        refine Prog.safe_bind (enqueueExtraction_raises id _ _ hq) ?_ ?_
        · rintro _ _ _ ⟨h,-⟩
          cases h
        · rintro e' _ w₃ ⟨h,rfl,hw₃⟩
          obtain rfl : e' = e := Except.error.inj h
          exact ⟨.existingUnsent hkind hw₁ hrow hqueue (.wait (D.rely_trans hw₂ hw₃)),fun h => by cases h⟩
  · rintro e l' w' ⟨w₁,-,-,h,-⟩
    cases h

theorem extractUploadedDocument_safe {req : ExtractRequest} {content : Bytes} {filename : String}
    (hD : Fits c i D ⟨.request req,env⟩) (hdb : env.db = Stream'.const none) (htrace : w.trace i = [])
    (hcontent : req.content = some content) (hfilename : req.filename = some filename)
    (hid : req.documentId = none) :
    (extractUploadedDocument c content filename req.docType req.strategy req.asyncMode).Safe
      (Machine.handler c.processor) D i ⟨.request req,env⟩ (Closes c D i w env (.request req))
      (Local.start i env) w := by
  unfold extractUploadedDocument
  by_cases hinline : (!req.asyncMode || !c.pool) = true
  · rw [if_pos hinline]
    have hkind : (Source.request req).kind c = .uploadInline := by
      simp only [Source.kind,hcontent,hfilename,hid,hinline,if_true]
    refine Prog.safe_bind (processUploadedInline_safe hD hdb htrace hkind hcontent hfilename hid) ?_ ?_
    · exact fun r l' w' h => Prog.safe_done fun w'' hw => h.rely hw
    · exact fun e l' w' h => h
  · rw [if_neg hinline]
    have hkind : (Source.request req).kind c = .uploadQueued := by
      simp only [Source.kind,hcontent,hfilename,hid,hinline,Bool.false_eq_true,if_false]
    have hscript := fun n => @Script.uploadFallback c i content
      (uploadRow i env content filename .processing n) (uploadRow i env content filename .processing n) []
      (.error .keyError) rfl rfl rfl rfl
    refine upload_safe content filename .processing hD hdb ?_ ?_ ?_ ?_
    · exact fun w' hw => hD.guar htrace hw (hkind ▸ hscript 0) (List.prefix_append [_] _)
        fun job h => by cases h
    · exact fun w' n hw => hD.guar htrace hw (hkind ▸ hscript n) (List.prefix_append [_,_] _)
        fun job h => by cases h
    · exact fun e l' w' hwhy ht hw => ⟨ht ▸ .notUploaded hcontent hfilename hid hwhy hw,fun h => by cases h⟩
    · exact fun pdf known l' w₁ w' hup hw hhas =>
        enqueueOrProcess_safe hD htrace hkind hcontent hfilename hup hw hhas

theorem extractExistingDocument_safe {req : ExtractRequest} {id : Uuid}
    (hD : Fits c i D ⟨.request req,env⟩) (hdb : env.db = Stream'.const none) (htrace : w.trace i = [])
    (hcontent : req.content = none ∨ req.filename = none) (hid : req.documentId = some id) :
    (extractExistingDocument c id req.docType req.strategy req.asyncMode).Safe
      (Machine.handler c.processor) D i ⟨.request req,env⟩ (Closes c D i w env (.request req))
      (Local.start i env) w := by
  have hkind : (Source.request req).kind c =
      if req.asyncMode && c.pool then .existingQueued id else .existingInline id := by
    rcases hcontent with h | h
    · simp only [Source.kind,h,hid]
    · cases hc : req.content <;> simp only [Source.kind,hc,h,hid]
  unfold extractExistingDocument
  by_cases hqueued : (req.asyncMode && c.pool) = true
  · rw [if_pos hqueued] at hkind ⊢
    exact extractExistingQueued_safe hD hdb htrace hkind
  · rw [if_neg hqueued] at hkind ⊢
    refine Prog.safe_bind (processExistingInline_safe hD hdb htrace hkind) ?_ ?_
    · exact fun r l' w' h => Prog.safe_done fun w'' hw => h.rely hw
    · exact fun e l' w' h => h

theorem extractDocument_safe {req : ExtractRequest} (hD : Fits c i D ⟨.request req,env⟩)
    (hdb : env.db = Stream'.const none) (htrace : w.trace i = []) :
    (extractDocument c req).Safe (Machine.handler c.processor) D i ⟨.request req,env⟩
      (Closes c D i w env (.request req)) (Local.start i env) w := by
  have hinvalid : ∀ e, (Source.request req).kind c = .invalid →
      (throw e : ServiceProg Answer).Safe (Machine.handler c.processor) D i ⟨.request req,env⟩
        (Closes c D i w env (.request req)) (Local.start i env) w := fun e hkind =>
    Prog.safe_done fun w' hw => ⟨.invalid hkind (.wait hw),fun h => by cases h⟩
  unfold extractDocument
  cases hcontent : req.content <;> cases hfilename : req.filename <;> cases hid : req.documentId
  case some.some.none => exact extractUploadedDocument_safe hD hdb htrace hcontent hfilename hid
  case some.some.some => exact hinvalid _ (by simp only [Source.kind,hcontent,hfilename,hid])
  case some.none.none => exact hinvalid _ (by simp only [Source.kind,hcontent,hfilename,hid])
  case some.none.some => exact extractExistingDocument_safe hD hdb htrace (.inr hfilename) hid
  case none.none.none => exact hinvalid _ (by simp only [Source.kind,hcontent,hfilename,hid])
  case none.some.none => exact hinvalid _ (by simp only [Source.kind,hcontent,hfilename,hid])
  case none.none.some => exact extractExistingDocument_safe hD hdb htrace (.inl hcontent) hid
  case none.some.some => exact extractExistingDocument_safe hD hdb htrace (.inl hcontent) hid

/-- The commit after the answer has nothing to write. -/
theorem getDb_ends {s : Source} {q : ServiceProg Answer}
    (hq : q.Safe (Machine.handler c.processor) D i ⟨s,env⟩ (Closes c D i w env s) (Local.start i env) w) :
    (getDb q).Safe (Machine.handler c.processor) D i ⟨s,env⟩
      (fun r l' w' => Ends c D i w env s r l'.trail w') (Local.start i env) w := by
  refine Prog.Safe.mono (getDb_safe (I := fun r l' w' => Ends c D i w env s r l'.trail w' ∧ (r.isOk → l'.Emptied))
    (Prog.Safe.mono hq fun r l' w' h => ⟨h.ends,fun hr => ?_⟩) ?_ ?_ ?_) fun _ _ _ h => h.1
  · obtain ⟨known,hready⟩ := h.ready hr
    exact ⟨hready.session.pending,hready.session.flushed⟩
  · exact fun r l' w₁ w₂ h hw => ⟨h.1.rely hw,h.2⟩
  · intro a l' w₁ h
    obtain ⟨hempty,htrail,hsame⟩ := (h.2 rfl).commit w₁
    rw [hsame,htrail]
    exact ⟨D.guar_refl i _ w₁,h.1,fun _ => hempty⟩
  · intro r l' w₁ h
    rw [Local.trail_rollback]
    exact ⟨h.1,fun hr => (h.2 hr).rollback⟩

/-- **Every run ends as told.** -/
theorem programOf_safe (s : Source) (hD : Fits c i D ⟨s,env⟩) (hdb : env.db = Stream'.const none)
    (htrace : w.trace i = []) :
    (programOf c s).Safe (Machine.handler c.processor) D i ⟨s,env⟩
      (fun r l' w' => Ends c D i w env s r l'.trail w') (Local.start i env) w := by
  cases s with
  | request req => exact getDb_ends (extractDocument_safe hD hdb htrace)
  | worker job =>
    have hrun := processExistingInline_safe hD hdb htrace rfl
    exact Prog.safe_map (Prog.Safe.mono hrun fun r l' w' h => h.ends)

end Programs

end StructuredExtractor
