import StructuredExtractor.Extraction.OnePage
import StructuredExtractor.Service.FinalStatus
import StructuredExtractor.Service.Ledger

/-! # The three routes of an upload

An upload is processed by its request, by a worker that loads the stored file again, or
by the request after the queue refused the job. What is durable in the end is the same,
without ids, times and durations.
-/
namespace StructuredExtractor
open Service

/-- The contents of an extraction, without ids, times and durations. -/
structure ExtractionView where
  docType : String
  status : ExtractionStatus
  extractedData : Option Dict
  confidenceMap : Option (List (String × ℕ))
  warnings : Option (List String)
  rawToolOutput : Option Json
  strategy : String
  sourcePages : Option (List ℕ)
  modelUsed : String
  inputTokens : ℕ
  outputTokens : ℕ

def Extraction.view (x : Extraction) : ExtractionView where
  docType := x.docType
  status := x.status
  extractedData := x.extractedData
  confidenceMap := x.confidenceMap
  warnings := x.warnings
  rawToolOutput := x.rawToolOutput
  strategy := x.strategy
  sourcePages := x.sourcePages
  modelUsed := x.modelUsed
  inputTokens := x.inputTokens
  outputTokens := x.outputTokens

/-- The contents of a usage row. Its extraction is a position among the document's. -/
structure UsageView where
  extraction : Option ℕ
  purpose : LLMUsagePurpose
  model : String
  inputTokens : ℕ
  outputTokens : ℕ

def LLMUsage.view (xs : List Extraction) (u : LLMUsage) : UsageView where
  extraction := u.extractionId.map fun id => xs.findIdx fun x => x.id = id
  purpose := u.purpose
  model := u.model
  inputTokens := u.inputTokens
  outputTokens := u.outputTokens

/-- What is durable of a document, without ids, times and durations. -/
structure DocumentView where
  filename : String
  storedName : String
  content : Option Bytes
  fileSizeBytes : ℕ
  pageCount : ℕ
  status : DocumentStatus
  extractions : List ExtractionView
  usages : List UsageView

namespace World
variable (w : World) (d : Uuid)

def extractionsOf : List Extraction := w.db.extractions.filter fun x => x.documentId = d

def usagesOf : List LLMUsage := w.db.llmUsages.filter fun u => u.documentId = d

def view : Option DocumentView := (w.db.documents d).map fun row => {
  filename := row.filename
  storedName := row.filePath.name
  content := w.files row.filePath
  fileSizeBytes := row.fileSizeBytes
  pageCount := row.pageCount
  status := row.status
  extractions := (w.extractionsOf d).map Extraction.view
  usages := (w.usagesOf d).map (LLMUsage.view (w.extractionsOf d)) }

end World

section Recorded
variable {c : Config} {o o' : Except Exc DocumentProcessingResult} {rec rec' : Recorded}

/-- Outcomes that differ in their durations only are recorded alike. -/
theorem recorded_timeless (h : recorded c o = some rec) (h' : recorded c o' = some rec')
    (htime : o.map DocumentProcessingResult.timeless = o'.map DocumentProcessingResult.timeless) :
    rec.status = rec'.status ∧ rec.events = rec'.events ∧ ∀ id id' d d' ms ms' t t',
      (rec.extraction id d ms t).view = (rec'.extraction id' d' ms' t').view := by
  cases o with
  | ok r =>
    cases o' with
    | ok r' =>
      obtain rfl := Option.some.inj h
      obtain rfl := Option.some.inj h'
      have hsame : r.timeless = r'.timeless := Except.ok.inj htime
      refine ⟨?_,?_,fun id id' d d' ms ms' t t' => ?_⟩
      · show documentStatusFor r.timeless = documentStatusFor r'.timeless
        rw [hsame]
      · show (recordedSuccess c r.timeless).events = (recordedSuccess c r'.timeless).events
        rw [hsame]
      · show ((recordedSuccess c r.timeless).extraction id d ms t).view =
          ((recordedSuccess c r'.timeless).extraction id d ms t).view
        rw [hsame]
    | error x => cases htime
  | error x =>
    cases o' with
    | ok r' => cases htime
    | error x' =>
      obtain rfl : x = x' := Except.error.inj htime
      cases x with
      | documentProcessing resolved e =>
        obtain rfl := Option.some.inj h
        obtain rfl := Option.some.inj h'
        exact ⟨rfl,rfl,fun _ _ _ _ _ _ _ _ => rfl⟩
      | _ => cases h

theorem recorded_row (h : recorded c o = some rec) (id d : Uuid) (ms : ℤ) (t : Time) :
    (rec.extraction id d ms t).id = id ∧ (rec.extraction id d ms t).documentId = d := by
  match o, h with
  | .ok r, h =>
    obtain rfl := Option.some.inj h
    exact ⟨rfl,rfl⟩
  | .error (.documentProcessing resolved e), h =>
    obtain rfl := Option.some.inj h
    exact ⟨rfl,rfl⟩

/-- The usage rows of a recording, seen from its extraction. -/
def Recorded.usageViews (rec : Recorded) : List UsageView :=
  rec.events.map fun e => ⟨some 0,e.purpose,e.model,e.inputTokens,e.outputTokens⟩

theorem usageRows_view {x : Extraction} (k n : ℕ) (d : Uuid) (now : Stream' Time)
    (events : List LLMUsageEvent) :
    (usageRows k d x.id n now events).map (LLMUsage.view [x]) =
      events.map fun e => ⟨some 0,e.purpose,e.model,e.inputTokens,e.outputTokens⟩ := by
  induction events generalizing n now with
  | nil => rfl
  | cons e events ih =>
    rw [usageRows,List.map_cons,ih,List.map_cons]
    simp [LLMUsage.view,usageRow,List.findIdx_cons]

end Recorded

section Holds
variable {c : Config} {i k : ℕ} {w : World} {row known : Document} {content : Bytes}
variable {xs : List Extraction} {us : List LLMUsage}

/-- The row, the file, the extractions and the usage rows of a document. -/
structure Holds (w : World) (row : Document) (content : Bytes) (xs : List Extraction)
    (us : List LLMUsage) : Prop where
  document : w.db.documents row.id = some row
  file : w.files row.filePath = some content
  extractions : w.extractionsOf row.id = xs
  usages : w.usagesOf row.id = us

/-- Nothing is there yet of a document that run `i` uploads. -/
structure Fresh (i : ℕ) (w : World) : Prop where
  trace : w.trace i = []
  extractions : w.extractionsOf (.drawn i 0) = []
  usages : w.usagesOf (.drawn i 0) = []

theorem extractionsOf_act (w : World) (k : ℕ) (a : Action) (d : Uuid) :
    (w.act k a).extractionsOf d = w.extractionsOf d ++ a.extractions.filter fun x => x.documentId = d := by
  rw [World.extractionsOf,extractions_act,List.filter_append]
  rfl

theorem documentUsages_act (w : World) (k : ℕ) (a : Action) (d : Uuid) :
    (w.act k a).usagesOf d = w.usagesOf d ++ a.usages.filter fun u => u.documentId = d := by
  rw [World.usagesOf,llmUsages_act,List.filter_append]
  rfl

theorem silent_acts {as : List Action} (h : ∀ a ∈ as, a.Silent) (w : World) (k : ℕ) (d : Uuid) :
    (w.acts k as).extractionsOf d = w.extractionsOf d ∧ (w.acts k as).usagesOf d = w.usagesOf d := by
  induction as generalizing w with
  | nil => exact ⟨rfl,rfl⟩
  | cons a as ih =>
    obtain ⟨hx,hu⟩ := ih (fun b hb => h b (List.mem_cons_of_mem _ hb)) (w.act k a)
    obtain ⟨hax,hau⟩ := h a List.mem_cons_self
    refine ⟨hx.trans ?_,hu.trans ?_⟩
    · rw [extractionsOf_act,hax,List.filter_nil,List.append_nil]
    · rw [documentUsages_act,hau,List.filter_nil,List.append_nil]

/-- An upload alone. -/
theorem Fresh.created (h : Fresh i w) (hid : row.id = .drawn i 0) :
    Holds (w.acts i [.save row.filePath content,.commit [.insertDocument row]]) row content [] [] := by
  obtain ⟨hx,hu⟩ := silent_acts (created_silent row.filePath content row) w i row.id
  refine ⟨?_,?_,hx.trans (hid ▸ h.extractions),hu.trans (hid ▸ h.usages)⟩
  · exact Function.update_self ..
  · exact Function.update_self ..

theorem Holds.setting (h : Holds w known content xs us) (status : DocumentStatus) (k : ℕ) :
    Holds (w.acts k (setting known status)) (known.with status) content xs us := by
  obtain ⟨hx,hu⟩ := silent_acts (@setting_silent known status) w k known.id
  refine ⟨documents_setting status h.document,?_,hx.trans h.extractions,hu.trans h.usages⟩
  have hfiles : (w.acts k (StructuredExtractor.setting known status)).files = w.files := by
    unfold StructuredExtractor.setting
    split <;> rfl
  exact (congrFun hfiles _).trans h.file

/-- A recording adds its extraction and its usage rows. -/
theorem Holds.recorded {otherwise as : List Action} {o : Except Exc DocumentProcessingResult}
    {rec : Recorded} (h : Holds w known content [] []) (hrec : Recording c k known otherwise o as)
    (ho : recorded c o = some rec) :
    ∃ n now ms t, Holds (w.acts k as) (known.with rec.status) content
      [rec.extraction (.drawn k n) known.id ms t]
      (usageRows k known.id (.drawn k n) (n + 1) now rec.events) := by
  unfold Recording at hrec
  rw [ho] at hrec
  obtain ⟨hclassified,n,now,ms,rfl⟩ := hrec
  have hid : (known.with rec.status).id = known.id := rfl
  refine ⟨n,now.tail,ms,now.head,documents_changes rec n now ms h.document,h.file,?_,?_⟩
  · rw [World.acts_singleton,hid,extractionsOf_act,h.extractions,changes_extractions,List.nil_append]
    exact List.filter_cons_of_pos (decide_eq_true (recorded_row ho _ _ _ _).2)
  · rw [World.acts_singleton,hid,documentUsages_act,h.usages,changes_usages,List.nil_append]
    exact List.filter_eq_self.mpr fun u hu => decide_eq_true (mem_usageRows hu).1

end Holds

section Routes
variable {c : Config} {i j : ℕ} {w : World} {env : Env} {content : Bytes} {filename : String}
variable {docType : Option String} {strategy : Option ExtractionStrategy} {pdf : ParsedPdf}
variable {parse : Bytes → Except Exc PdfFile} {replies : Stream' (Except Exc Response)}
variable {input : ProcessingInput}

/-- Nothing fails, the file is parsed by a function of its bytes, and the provider
answers with these replies. -/
structure Working (parse : Bytes → Except Exc PdfFile) (replies : Stream' (Except Exc Response))
    (env : Env) : Prop where
  db : env.db = Stream'.const none
  storage : env.storage = Stream'.const none
  openPdf : env.openPdf = Stream'.const parse
  model : ∃ clock, env.model = .start replies clock

theorem Working.parsed (h : Working parse replies env) (content : Bytes) (filename : String) :
    parsedIn env content filename = parse content >>= parsedPdf filename := by
  rw [parsedIn,h.openPdf]
  rfl

/-- The clock makes no difference to the outcome but in its durations. -/
theorem Working.outcome {env' : Env} (h : Working parse replies env) (h' : Working parse replies env')
    (input : ProcessingInput) :
    (outcomeOf c env.model input).map DocumentProcessingResult.timeless =
      (outcomeOf c env'.model input).map DocumentProcessingResult.timeless := by
  obtain ⟨clock,hclock⟩ := h.model
  obtain ⟨clock',hclock'⟩ := h'.model
  rw [hclock,hclock']
  exact DocumentProcessor.processPages_clock clock.tail c.processor input
    (ModelEnv.start replies clock').tick

/-- The uploaded document is there with what its processing is recorded with, and
nothing else. -/
structure Concluded (c : Config) (i : ℕ) (env : Env) (content : Bytes) (filename : String)
    (pageCount : ℕ) (o : Except Exc DocumentProcessingResult) (w : World) : Prop where
  holds : ∃ rec k n now ms t, recorded c o = some rec ∧
    Holds w (uploadRow i env content filename rec.status pageCount) content
      [rec.extraction (.drawn k n) (.drawn i 0) ms t]
      (usageRows k (.drawn i 0) (.drawn k n) (n + 1) now rec.events)

theorem Holds.concluded {k : ℕ} {known : Document} {otherwise as : List Action}
    {o : Except Exc DocumentProcessingResult} {pageCount : ℕ} {status : DocumentStatus}
    (h : Holds w known content [] []) (hknown : known = uploadRow i env content filename status pageCount)
    (hrec : Recording c k known otherwise o as) (ho : Settled o) :
    Concluded c i env content filename pageCount o (w.acts k as) := by
  subst hknown
  obtain ⟨rec,hsome⟩ := (settled_iff c o).mp ho
  obtain ⟨n,now,ms,t,hholds⟩ := h.recorded hrec hsome
  exact ⟨rec,k,n,now,ms,t,hsome,hholds⟩

theorem uploaded_holds {status : DocumentStatus} {known : Document} {w₁ : World}
    (h : Uploaded (alone i) i w env content filename status pdf known w₁) (hfresh : Fresh i w) :
    Holds w₁ known content [] [] := by
  obtain rfl := h.alone
  obtain rfl := alone_went h.went
  exact hfresh.created rfl

/-- An upload that its request processes, at once or because the queue refuses the job. -/
theorem inline_concluded {asyncMode : Bool} (henv : Working parse replies env) (hfresh : Fresh i w)
    (hparse : parse content >>= parsedPdf filename = .ok pdf)
    (hinput : input = ⟨pdf.pagesText,pdf.pageCount,docType,strategy.map ExtractionStrategy.value⟩)
    (hinline : asyncMode = true → env.enqueue.head.isOk = false)
    (hsettled : Settled (outcomeOf c env.model input)) :
    Concluded c i env content filename pdf.pageCount (outcomeOf c env.model input)
      (runAlone c i (.request ⟨some content,some filename,none,docType,strategy,asyncMode⟩) env w).2.2 := by
  have hends := runAlone_ends (c := c)
    (.request ⟨some content,some filename,none,docType,strategy,asyncMode⟩) henv.db hfresh.trace
  have hpdf := (henv.parsed content filename).trans hparse
  generalize (runAlone c i _ env w).1 = answer at hends
  generalize (runAlone c i _ env w).2.1.trail = trail at hends
  generalize (runAlone c i _ env w).2.2 = w' at hends ⊢
  have hkind : ∀ {k}, (Source.request ⟨some content,some filename,none,docType,strategy,asyncMode⟩).kind c = k →
      k = .uploadInline ∨ k = .uploadQueued ∧ asyncMode = true := by
    rintro k rfl
    cases asyncMode <;> cases hpool : c.pool <;> simp [Source.kind,hpool]
  cases hends with
  | uploadInline hk hcontent hfilename hup hin hrec hw =>
    cases hcontent
    cases hfilename
    obtain rfl := Except.ok.inj (hpdf.symm.trans hup.parsed)
    have hholds := uploaded_holds hup hfresh
    obtain rfl := hup.alone
    obtain rfl := alone_went hw
    obtain rfl := hinput.trans hin.symm
    rw [World.acts_append]
    exact (hholds.setting .processing i).concluded rfl hrec hsettled
  | uploadFallback hk hcontent hfilename hqueue hup hin hrec hw =>
    cases hcontent
    cases hfilename
    obtain rfl := Except.ok.inj (hpdf.symm.trans hup.parsed)
    have hholds := uploaded_holds hup hfresh
    obtain rfl := hup.alone
    obtain rfl := alone_went hw
    obtain rfl := hinput.trans hin.symm
    exact hholds.concluded rfl hrec hsettled
  | notUploaded hcontent hfilename hid hwhy hw =>
    cases hcontent
    cases hfilename
    exact absurd (by rw [henv.storage]; rfl) (hwhy pdf hpdf)
  | uploadQueued hk hcontent hfilename hqueue =>
    obtain h | ⟨-,hasync⟩ := hkind hk
    · cases h
    · have hfails := hinline hasync
      rw [hqueue] at hfails
      cases hfails
  | invalid hk => cases hkind hk <;> simp_all
  | notFound hk => obtain hk | hk := hk <;> cases hkind hk <;> simp_all
  | existingInline hk => cases hkind hk <;> simp_all
  | notLoaded hk => cases hkind hk <;> simp_all
  | existingQueued hk => cases hkind hk <;> simp_all
  | existingUnsent hk => cases hkind hk <;> simp_all

/-- An upload whose job is sent. -/
theorem queued_holds (hpool : c.pool = true) (henv : Working parse replies env) (hfresh : Fresh i w)
    (hparse : parse content >>= parsedPdf filename = .ok pdf) {jobId : String}
    (hqueue : env.enqueue.head = .ok jobId) :
    let w' := (runAlone c i (.request ⟨some content,some filename,none,docType,strategy,true⟩) env w).2.2
    Holds w' (uploadRow i env content filename .processing pdf.pageCount) content [] [] ∧
      w'.queue = w.queue ++ [⟨(Uuid.drawn i 0).str,docType,strategy.map ExtractionStrategy.value,i⟩] ∧
      ∀ j, j ≠ i → w'.trace j = w.trace j := by
  have hends := runAlone_ends (c := c)
    (.request ⟨some content,some filename,none,docType,strategy,true⟩) henv.db hfresh.trace
  have hpdf := (henv.parsed content filename).trans hparse
  generalize (runAlone c i _ env w).1 = answer at hends
  generalize (runAlone c i _ env w).2.1.trail = trail at hends
  generalize (runAlone c i _ env w).2.2 = w' at hends ⊢
  have hkind : (Source.request ⟨some content,some filename,none,docType,strategy,true⟩).kind c =
      .uploadQueued := by simp [Source.kind,hpool]
  cases hends with
  | uploadQueued hk hcontent hfilename hqueue' hup hw =>
    cases hcontent
    cases hfilename
    obtain rfl := Except.ok.inj (hpdf.symm.trans hup.parsed)
    have hholds := uploaded_holds hup hfresh
    have hw₁ := alone_went hup.went
    obtain rfl := hup.alone
    obtain rfl := alone_went hw
    refine ⟨⟨hholds.document,hholds.file,hholds.extractions,hholds.usages⟩,?_,fun j hj => ?_⟩
    · rw [hw₁]
      rfl
    · rw [hw₁,World.trace_acts_other _ hj.symm,World.trace_acts_other _ hj.symm]
  | notUploaded hcontent hfilename hid hwhy hw =>
    cases hcontent
    cases hfilename
    exact absurd (by rw [henv.storage]; rfl) (hwhy pdf hpdf)
  | uploadFallback hk hcontent hfilename hqueue' =>
    rw [hqueue] at hqueue'
    cases hqueue'
  | uploadInline hk => cases hkind.symm.trans hk
  | invalid hk => cases hkind.symm.trans hk
  | notFound hk => obtain hk | hk := hk <;> cases hkind.symm.trans hk
  | existingInline hk => cases hkind.symm.trans hk
  | notLoaded hk => cases hkind.symm.trans hk
  | existingQueued hk => cases hkind.symm.trans hk
  | existingUnsent hk => cases hkind.symm.trans hk

/-- The worker loads the stored file again. -/
theorem worker_concluded {job : Job} {env' : Env} (henv : Working parse replies env) (htrace : w.trace j = [])
    (h : Holds w (uploadRow i env' content filename .processing pdf.pageCount) content [] [])
    (hparse : parse content >>= parsedPdf filename = .ok pdf) (hjob : job.documentId = (Uuid.drawn i 0).str)
    (hinput : input = ⟨pdf.pagesText,pdf.pageCount,job.docType,job.strategy⟩)
    (hsettled : Settled (outcomeOf c env.model input)) :
    Concluded c i env' content filename pdf.pageCount (outcomeOf c env.model input)
      (runAlone c j (.worker job) env w).2.2 := by
  have hends := runAlone_ends (c := c) (.worker job) henv.db htrace
  generalize (runAlone c j _ env w).1 = answer at hends
  generalize (runAlone c j _ env w).2.1.trail = trail at hends
  generalize (runAlone c j _ env w).2.2 = w' at hends ⊢
  set row := uploadRow i env' content filename .processing pdf.pageCount
  have hkind : (Source.worker job).kind c = .existingInline (.drawn i 0) := by
    simp only [Source.kind,hjob]
    rfl
  have hfound : w.db.documents (.drawn i 0) = some row := h.document
  have hloaded : loadedIn env (w.acts j (setting row .processing)) row = .ok pdf := by
    have hfile := (h.setting .processing j).file
    rw [loadedIn,storedIn,henv.storage,show (w.acts j _).files row.filePath = some content from hfile]
    exact (henv.parsed content filename).trans hparse
  cases hends with
  | existingInline hk hw₁ hknown hw₂ hpdf hin hrec hw =>
    obtain rfl := Kind.existingInline.inj (hkind.symm.trans hk)
    obtain rfl := hw₁ rfl
    obtain rfl := Option.some.inj (hfound.symm.trans hknown)
    obtain rfl := alone_went hw₂
    obtain rfl := Except.ok.inj (hloaded.symm.trans hpdf)
    obtain rfl := alone_went hw
    obtain rfl := hinput.trans hin.symm
    exact (h.setting .processing j).concluded rfl hrec hsettled
  | notLoaded hk hw₁ hknown hw₂ hpdf hw =>
    obtain rfl := Kind.existingInline.inj (hkind.symm.trans hk)
    obtain rfl := hw₁ rfl
    obtain rfl := Option.some.inj (hfound.symm.trans hknown)
    obtain rfl := alone_went hw₂
    cases hloaded.symm.trans hpdf
  | notFound hk hw₁ hnone =>
    obtain hk | hk := hk
    · obtain rfl := Kind.existingInline.inj (hkind.symm.trans hk)
      obtain rfl := hw₁ rfl
      cases hfound.symm.trans hnone
    · cases hkind.symm.trans hk
  | invalid hk => cases hkind.symm.trans hk

/-- The view of a document that was uploaded and recorded. -/
def Recorded.view (rec : Recorded) (content : Bytes) (filename : String) (pageCount : ℕ) :
    DocumentView where
  filename := filename
  storedName := safeName "uploaded.pdf" filename
  content := some content
  fileSizeBytes := content.length
  pageCount := pageCount
  status := rec.status
  extractions := [(rec.extraction (.drawn 0 0) (.drawn 0 0) 0 0).view]
  usages := rec.usageViews

theorem Concluded.view {o : Except Exc DocumentProcessingResult} {pageCount : ℕ}
    (h : Concluded c i env content filename pageCount o w) :
    ∃ rec, recorded c o = some rec ∧ w.view (.drawn i 0) = some (rec.view content filename pageCount) := by
  obtain ⟨rec,k,n,now,ms,t,hrec,hholds⟩ := h.holds
  refine ⟨rec,hrec,?_⟩
  set row := uploadRow i env content filename rec.status pageCount
  set x := rec.extraction (.drawn k n) (.drawn i 0) ms t
  have hid : x.id = .drawn k n := (recorded_row hrec _ _ _ _).1
  obtain ⟨-,-,hview⟩ := recorded_timeless hrec hrec rfl
  have husages : (usageRows k (.drawn i 0) (.drawn k n) (n + 1) now rec.events).map (LLMUsage.view [x]) =
      rec.usageViews := hid ▸ usageRows_view k (n + 1) (.drawn i 0) now rec.events
  have hdocument : w.db.documents (.drawn i 0) = some row := hholds.document
  have hextractions : w.extractionsOf (.drawn i 0) = [x] := hholds.extractions
  have husagesOf : w.usagesOf (.drawn i 0) = _ := hholds.usages
  have hx : x.view = (rec.extraction (.drawn 0 0) (.drawn 0 0) 0 0).view := hview _ _ _ _ _ _ _ _
  rw [World.view,hdocument,hextractions,husagesOf,husages,Option.map_some,hholds.file,List.map_singleton,hx]
  rfl

theorem Concluded.view_eq {i' : ℕ} {env' : Env} {w' : World} {o o' : Except Exc DocumentProcessingResult}
    {pageCount : ℕ} (h : Concluded c i env content filename pageCount o w)
    (h' : Concluded c i' env' content filename pageCount o' w')
    (htime : o.map DocumentProcessingResult.timeless = o'.map DocumentProcessingResult.timeless) :
    w.view (.drawn i 0) = w'.view (.drawn i' 0) := by
  obtain ⟨rec,hrec,hview⟩ := h.view
  obtain ⟨rec',hrec',hview'⟩ := h'.view
  obtain ⟨hstatus,hevents,hextraction⟩ := recorded_timeless hrec hrec' htime
  rw [hview,hview',Recorded.view,Recorded.view,Recorded.usageViews,Recorded.usageViews,hstatus,hevents,
    hextraction _ (.drawn 0 0) _ (.drawn 0 0) _ 0 _ 0]

theorem settled_timeless {o o' : Except Exc DocumentProcessingResult}
    (h : o.map DocumentProcessingResult.timeless = o'.map DocumentProcessingResult.timeless)
    (ho : Settled o) : Settled o' := by
  match o, o' with
  | .ok r, .ok r' => trivial
  | .ok r, .error x => cases h
  | .error x, .ok r => trivial
  | .error x, .error y => exact Except.error.inj h ▸ ho

/-- What is shared after an upload alone. -/
def afterUpload (c : Config) (i : ℕ) (env : Env) (w : World) (content : Bytes) (filename : String)
    (docType : Option String) (strategy : Option ExtractionStrategy) (asyncMode : Bool) : World :=
  (runAlone c i (.request ⟨some content,some filename,none,docType,strategy,asyncMode⟩) env w).2.2

/-- What is shared after a worker's job alone. -/
def afterJob (c : Config) (j : ℕ) (env : Env) (w : World) (job : Job) : World :=
  (runAlone c j (.worker job) env w).2.2

/-- **The routes agree.** A synchronous upload, an asynchronous upload whose enqueue
failed and one whose job a worker processes leave the same document with the same single
extraction and the same usage rows, without ids, times and durations. -/
theorem routes_agree {i₁ i₂ i₃ : ℕ} {w₁ w₂ w₃ : World} {env₁ env₂ env₃ env₄ : Env} {e : Exc} {jobId : String}
    {before after : List Job} {job : Job} (hpool : c.pool = true)
    (h₁ : Working parse replies env₁) (h₂ : Working parse replies env₂) (h₃ : Working parse replies env₃)
    (h₄ : Working parse replies env₄) (hfresh₁ : Fresh i₁ w₁) (hfresh₂ : Fresh i₂ w₂) (hfresh₃ : Fresh i₃ w₃)
    (hparse : parse content >>= parsedPdf filename = .ok pdf)
    (hsettled : Settled (outcomeOf c env₁.model
      ⟨pdf.pagesText,pdf.pageCount,docType,strategy.map ExtractionStrategy.value⟩))
    (hfails : env₂.enqueue.head = .error e) (hsends : env₃.enqueue.head = .ok jobId)
    (hqueue : (afterUpload c i₃ env₃ w₃ content filename docType strategy true).queue =
      before ++ job :: after)
    (hold : ∀ old ∈ w₃.queue, old.origin ≠ i₃) (horigin : job.origin = i₃)
    (hj : j ≠ i₃) (htrace : w₃.trace j = []) :
    let sync := afterUpload c i₁ env₁ w₁ content filename docType strategy false
    let fallback := afterUpload c i₂ env₂ w₂ content filename docType strategy true
    let queued := afterUpload c i₃ env₃ w₃ content filename docType strategy true
    let worked := afterJob c j env₄ (queued.withQueue (before ++ after)) job
    (∃ view, sync.view (.drawn i₁ 0) = some view ∧ view.extractions.length = 1) ∧
      fallback.view (.drawn i₂ 0) = sync.view (.drawn i₁ 0) ∧
      worked.view (.drawn i₃ 0) = sync.view (.drawn i₁ 0) := by
  intro sync fallback queued worked
  have htime₂ := h₁.outcome (c := c) h₂
    ⟨pdf.pagesText,pdf.pageCount,docType,strategy.map ExtractionStrategy.value⟩
  have htime₄ := h₁.outcome (c := c) h₄
    ⟨pdf.pagesText,pdf.pageCount,docType,strategy.map ExtractionStrategy.value⟩
  have hsync : Concluded c i₁ env₁ content filename pdf.pageCount _ sync :=
    inline_concluded h₁ hfresh₁ hparse rfl (fun h => by cases h) hsettled
  have hfallback : Concluded c i₂ env₂ content filename pdf.pageCount _ fallback :=
    inline_concluded h₂ hfresh₂ hparse rfl (fun _ => by rw [hfails]; rfl) (settled_timeless htime₂ hsettled)
  obtain ⟨hholds,hjobs,htraces⟩ : Holds queued _ content [] [] ∧ _ ∧ _ :=
    queued_holds hpool h₃ hfresh₃ hparse hsends
  have hjob : job = ⟨(Uuid.drawn i₃ 0).str,docType,strategy.map ExtractionStrategy.value,i₃⟩ := by
    have hmem : job ∈ w₃.queue ++ [⟨(Uuid.drawn i₃ 0).str,docType,strategy.map ExtractionStrategy.value,i₃⟩] :=
      hjobs ▸ hqueue.symm ▸ List.mem_append_right _ List.mem_cons_self
    obtain hmem | hmem := List.mem_append.mp hmem
    · exact absurd horigin (hold job hmem)
    · exact List.mem_singleton.mp hmem
  subst hjob
  have htaken : Holds (queued.withQueue (before ++ after))
      (uploadRow i₃ env₃ content filename .processing pdf.pageCount) content [] [] :=
    ⟨hholds.document,hholds.file,hholds.extractions,hholds.usages⟩
  have htrace' : (queued.withQueue (before ++ after)).trace j = [] := (htraces j hj).trans htrace
  have hworked : Concluded c i₃ env₃ content filename pdf.pageCount (outcomeOf c env₄.model _) worked :=
    worker_concluded h₄ htrace' htaken hparse rfl rfl (settled_timeless htime₄ hsettled)
  refine ⟨?_,(hsync.view_eq hfallback htime₂).symm,(hsync.view_eq hworked htime₄).symm⟩
  obtain ⟨rec,-,hview⟩ := hsync.view
  exact ⟨_,hview,rfl⟩

end Routes

section Sample

def sampleParse : Bytes → Except Exc PdfFile := fun _ => .ok (.pages [some "Agreement"])

theorem sampleEnv_working (enqueue : Except Exc String) (replies : Stream' (Except Exc Response)) :
    Working sampleParse replies (sampleEnv enqueue replies) := ⟨rfl,rfl,rfl,_,rfl⟩

theorem emptyWorld_fresh (i : ℕ) : Fresh i emptyWorld := ⟨rfl,rfl,rfl⟩

def sampleReplies : Stream' (Except Exc Response) := toolCallReplies "contract" plainContract

/-- An upload that the queue takes, one that it refuses, and a synchronous one. -/
def sampleAfter (enqueue : Except Exc String) (asyncMode : Bool) : World :=
  afterUpload (sampleConfig true) 0 (sampleEnv enqueue sampleReplies) emptyWorld [37,80,68,70] "agreement.pdf"
    (some "contract") none asyncMode

def sampleJob : Job := ⟨(Uuid.drawn 0 0).str,some "contract",none,0⟩

theorem sampleRoutes_agree :
    (∃ view, (sampleAfter (.ok "job") false).view (.drawn 0 0) = some view ∧ view.extractions.length = 1) ∧
      (sampleAfter (.error (.other "ConnectionError")) true).view (.drawn 0 0) =
        (sampleAfter (.ok "job") false).view (.drawn 0 0) ∧
      (afterJob (sampleConfig true) 1 (sampleEnv (.ok "job") sampleReplies)
        ((sampleAfter (.ok "job") true).withQueue ([] ++ [])) sampleJob).view (.drawn 0 0) =
        (sampleAfter (.ok "job") false).view (.drawn 0 0) := by
  have hworking := fun enqueue => sampleEnv_working enqueue sampleReplies
  have hparse : sampleParse [37,80,68,70] >>= parsedPdf "agreement.pdf" = .ok ⟨["Agreement"],1⟩ := rfl
  have hsettled : Settled (outcomeOf (sampleConfig true) (sampleEnv (.ok "job") sampleReplies).model
      ⟨["Agreement"],1,some "contract",(none : Option ExtractionStrategy).map ExtractionStrategy.value⟩) :=
    (settled_iff (sampleConfig true) _).mpr (Option.isSome_iff_exists.mp (by decide))
  have hqueue : (sampleAfter (.ok "job") true).queue = [] ++ sampleJob :: [] := by decide
  have hagree := routes_agree rfl (hworking (.ok "job")) (hworking (.error (.other "ConnectionError")))
    (hworking _) (hworking (.ok "job")) (emptyWorld_fresh 0) (emptyWorld_fresh 0) (emptyWorld_fresh 0) hparse
    hsettled rfl rfl hqueue (fun old h => by cases h) rfl Nat.one_ne_zero rfl
  dsimp only at hagree
  exact hagree

end Sample

end StructuredExtractor
