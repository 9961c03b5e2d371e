import StructuredExtractor.Extraction.OnePage
import StructuredExtractor.Service.Alone

/-! # A database failure while a run is recorded

The run of an existing document meets one failing database call between the commit of
its status and the commit of its recording. A flush that fails leaves a session that
refuses, so the exception handler cannot write the status either; a refresh that fails
leaves the flushed rows, and the handler's commit publishes them.
-/
namespace StructuredExtractor
open Service

section Failing
variable {n m k : ℕ} {e : Exc}

theorem failingAt_drop (n m : ℕ) (e : Exc) : (failingAt (n + m) e).drop n = failingAt m e := by
  funext k
  show failingAt (n + m) e (k + n) = failingAt m e k
  simp only [failingAt,Nat.add_comm k n,Nat.add_left_cancel_iff]

theorem failingAt_drop_succ (n : ℕ) (e : Exc) : (failingAt n e).drop (n + 1) = Stream'.const none := by
  funext k
  show failingAt n e (k + (n + 1)) = none
  exact if_neg (by omega)

theorem failingAt_get {x : Exc} (h : (failingAt n e).get k = some x) : k = n := by
  by_contra hne
  exact absurd (h.symm.trans (if_neg hne)) (Option.some_ne_none x)

theorem failingAt_head (hn : 0 < n) : (failingAt n e).head = none := if_neg hn.ne

variable {α : Type} {p : DocumentProcessor} {q : ServiceProg α} {l : Local} {id : Uuid}
variable {done : α → Local → Prop}

/-- The failing call comes after the part. -/
theorem Writes.early (h : Writes p q l id n done) (hdb : l.env.db = failingAt (n + m) e) :
    q.Calm (Machine.handler p)
      (fun r l' => l.Keeps l' ∧ l'.env.db = failingAt m e ∧ ∃ a, r = .ok a ∧ done a l') l := by
  refine Prog.Calm.mono h ?_
  rintro r l' ⟨hkeep,hr⟩
  cases hr with
  | complete _ hrest hdone => exact ⟨hkeep,by rw [hrest,hdb,failingAt_drop],_,rfl,hdone⟩
  | refused hk hfail => rw [hdb] at hfail; have hk' := failingAt_get hfail; omega
  | held hk hfail => rw [hdb] at hfail; have hk' := failingAt_get hfail; omega

/-- The failing call is one of the part. -/
theorem Writes.broken (h : Writes p q l id n done) (hdb : l.env.db = failingAt k e) (hk : k < n) :
    q.Calm (Machine.handler p) (fun r l' => l.Keeps l' ∧ l'.env.db = Stream'.const none ∧
      r.isOk = false ∧ (l'.session.Refuses id ∨ l'.session.Holds id)) l := by
  refine Prog.Calm.mono h ?_
  rintro r l' ⟨hkeep,hr⟩
  cases hr with
  | complete hcalls =>
    have hfail := hcalls k hk
    rw [hdb] at hfail
    exact absurd (hfail.symm.trans (if_pos rfl)) (Option.some_ne_none e).symm
  | refused _ hfail hrest hs =>
    rw [hdb] at hfail hrest
    obtain rfl := failingAt_get hfail
    exact ⟨hkeep,by rw [hrest,failingAt_drop_succ],rfl,.inl hs⟩
  | held _ hfail hrest hs =>
    rw [hdb] at hfail hrest
    obtain rfl := failingAt_get hfail
    exact ⟨hkeep,by rw [hrest,failingAt_drop_succ],rfl,.inr hs⟩

end Failing

section Steps
variable {p : DocumentProcessor} {i m : ℕ} {label : Label} {l : Local} {w : World} {known : Document}
variable {e : Exc}

/-- Setting a status leaves the transaction open. -/
theorem setStatus_begun (status : DocumentStatus) (h : l.session.begun = true) :
    (setStatus status).Calm (Machine.handler p) (fun _ l' => l'.session.begun = true) l := by
  have hassign : (l.session.assignStatus status).begun = true := by
    unfold Session.assignStatus
    cases l.session.document with
    | none => exact h
    | some t =>
      dsimp only
      split
      · exact h
      · rfl
  refine Prog.calm_bind (R := fun _ l' => l'.session.begun = true) (Prog.calm_perform (fun _ => rfl) hassign)
    (fun _ l₁ h₁ => Prog.calm_perform (fun _ => rfl) ?_) fun _ _ h => h
  unfold Local.flush
  split
  · exact h₁
  · split
    · exact h₁
    · cases l₁.env.db.head <;> rfl

/-- The commit of a status that was set. -/
theorem handler_commit_setting {known' : Document} {status : DocumentStatus} (hrun : l.run = i)
    (hbegun : l.session.begun = true) (hs : l.session.On known' (statusChange known status))
    (hhead : l.env.db.head = none) (w : World) :
    Machine.handler p .commit (l,w) =
      (.ok (),l.calledDb.setSession l.session.commitOk,w.acts i (setting known status)) := by
  have hcall : l.commit = (.ok (),l.calledDb) := by
    rw [Local.commit_begun hbegun,Local.call_ok hs.pending hs.refusing hhead]
  have hflushed : l.calledDb.session.flushed = statusChange known status := hs.flushed
  by_cases hstatus : known.status = status
  · rw [statusChange,if_pos hstatus] at hflushed
    rw [Machine.handler_commit_nothing p hcall hflushed,setting,if_pos hstatus]
    rfl
  · rw [statusChange,if_neg hstatus] at hflushed
    rw [Machine.handler_commit p hcall hrun hflushed (List.cons_ne_nil _ _),setting,if_neg hstatus]
    rfl

/-- `_set_document_status`, when the failing call comes later. -/
theorem setDocumentStatus_early (status : DocumentStatus) (hrun : l.run = i) (hs : l.session.On known [])
    (hbegun : l.session.begun = true) (hdb : l.env.db = failingAt ((statusChange known status).length + (1 + m)) e) :
    (setDocumentStatus status).Safe (Machine.handler p) (alone i) i label (fun r l' w' => r = .ok () ∧
      l.Keeps l' ∧ l'.session.On (known.with status) [] ∧ l'.env.db = failingAt m e ∧
      l'.env.model = l.env.model ∧ w' = w.acts i (setting known status)) l w := by
  refine Prog.safe_bind (Prog.Safe.and (Prog.Calm.safe ((setStatus_writes (p := p) hs status).early hdb)
    fun r l' w' hw h => And.intro (hw rfl) h) (Prog.Calm.safe (setStatus_begun status hbegun) fun _ _ _ _ h => h)) ?_ ?_
  · rintro _ l₁ _ ⟨⟨rfl,hkeep,hdb₁,_,-,hf⟩,hbegun₁⟩
    refine Prog.safe_perform fun w' hw => ?_
    obtain rfl := hw rfl
    have hhead : l₁.env.db.head = none := by rw [hdb₁]; exact failingAt_head (by omega)
    have hs₁ : l₁.session.On (known.with status) (statusChange known status) := hf.session
    refine ⟨_,_,_,handler_commit_setting (hkeep.run.trans hrun) hbegun₁ hs₁ hhead w,.inl rfl,fun w' hw' => ?_⟩
    refine ⟨rfl,hkeep.trans (l₁.keeps_calledDb _),⟨?_,hs₁.pending,rfl,hs₁.refusing⟩,?_,hf.model,
      (hw' rfl).symm⟩
    · simp [Session.commitOk,hs₁.document]
    · show l₁.env.db.tail = _
      rw [hdb₁,← failingAt_drop 1 m e]
      rfl
  · rintro x l₁ w₁ ⟨⟨-,-,-,_,h,-⟩,-⟩
    cases h

/-- What the exception handler leaves when the recording did not come to its commit:
nothing, or the recording in parts. -/
def HalfRecorded (i : ℕ) (w w' : World) : Prop :=
  w' = w ∨ ∃ changes row, .insertExtraction row ∈ changes ∧ w' = w.acts i [.commit changes]

/-- The exception handler of an existing document. -/
def failExisting (e : Exc) : ServiceProg ExtractResponse := do
  setStatus .failed
  perform .commit
  throw e

/-- A session that refuses does not flush the status. -/
theorem failExisting_refused {id : Uuid} (hs : l.session.Refuses id) (x : Exc) :
    (failExisting x).Calm (Machine.handler p) (fun r _ => r.isOk = false) l := by
  obtain ⟨t,ht,hexpired,-⟩ := hs.document
  set l₁ := l.setSession (l.session.assignStatus .failed)
  have hpending : l₁.session.pending ≠ [] := by
    simp [l₁,Session.assignStatus,ht,hexpired,Session.add]
  have hrefusing : l₁.session.refusing = true := by
    simp [l₁,Session.assignStatus,ht,hexpired,Session.add,hs.refusing]
  have hset : (setStatus .failed).Calm (Machine.handler p)
      (fun r l' => r = .error .pendingRollback ∧ l' = l₁) l := by
    refine Prog.calm_bind (R := fun r l' => r = .ok () ∧ l' = l₁)
      (Prog.calm_perform (fun _ => rfl) ⟨rfl,rfl⟩) ?_ ?_
    · rintro _ _ ⟨-,rfl⟩
      exact Prog.calm_perform (Machine.handler_flush p (Local.flush_refused hpending hrefusing)) ⟨rfl,rfl⟩
    · rintro _ _ ⟨h,-⟩
      cases h
  refine Prog.calm_bind hset ?_ ?_
  · rintro _ _ ⟨h,-⟩
    cases h
  · exact fun _ _ _ => rfl

/-- A session that holds flushed rows commits them with the status. -/
theorem failExisting_held {id : Uuid} (hrun : l.run = i) (hdb : l.env.db = Stream'.const none)
    (hs : l.session.Holds id) (x : Exc) :
    (failExisting x).Safe (Machine.handler p) (alone i) i label
      (fun r _ w' => r.isOk = false ∧ HalfRecorded i w w') l w := by
  obtain ⟨known,flushed,row,hon,-,hrow⟩ := hs
  refine Prog.safe_bind (Prog.Calm.safe ((setStatus_writes (p := p) hon .failed).faultless hdb)
    fun r l' w' hw h => And.intro (hw rfl) h) ?_ ?_
  · rintro _ l₁ _ ⟨rfl,hkeep,hdb₁,_,-,hf⟩
    have hmem : .insertExtraction row ∈ flushed ++ statusChange known .failed :=
      List.mem_append_left _ hrow
    refine Prog.safe_bind (R := fun r _ w' => r = .ok () ∧ HalfRecorded i w w')
      (commit_safe (hkeep.run.trans hrun) hdb₁ hf.session (List.ne_nil_of_mem hmem)
        (fun w' _ => .inl rfl) ?_) ?_ ?_
    · exact fun l' w' _ _ _ hwent => ⟨rfl,.inr ⟨_,row,hmem,alone_went hwent⟩⟩
    · rintro _ l' w' ⟨-,h⟩
      exact Prog.safe_done fun w'' hw => ⟨rfl,hw rfl ▸ h⟩
    · rintro _ _ _ ⟨h,-⟩
      cases h
  · rintro x l₁ w₁ ⟨-,-,-,_,h,-⟩
    cases h

end Steps

section Recording
variable {c : Config} {i k : ℕ} {s : Source} {label : Label} {l : Local} {w : World} {known : Document}
variable {env : Env} {e : Exc}

theorem recorded_of_calls {o : Except Exc DocumentProcessingResult} (hk : k < recordingCalls known o) :
    ∃ rec, recorded c o = some rec := by
  match o, hk with
  | .ok r, _ => exact ⟨_,rfl⟩
  | .error (.documentProcessing resolved e), _ => exact ⟨_,rfl⟩

/-- The recording fails at one of its calls, before its commit. -/
theorem recordOutcome_breaks {o : Except Exc DocumentProcessingResult} (startedAt : ℚ)
    (hs : l.session.On known []) (hdb : l.env.db = failingAt k e) (hk : k < recordingCalls known o) :
    (recordOutcome c startedAt o).Calm (Machine.handler c.processor) (fun r l' => l.Keeps l' ∧
      l'.env.db = Stream'.const none ∧ r.isOk = false ∧
      (l'.session.Refuses known.id ∨ l'.session.Holds known.id)) l := by
  obtain ⟨rec,hrec⟩ := recorded_of_calls (c := c) hk
  rw [recordOutcome_recorded startedAt hrec]
  refine Prog.calm_bind ((flushRecording_writes startedAt hs hrec).broken hdb hk) ?_ ?_
  · rintro _ _ ⟨-,-,h,-⟩
    cases h
  · exact fun _ _ h => h

@[simp] theorem files_setting (status : DocumentStatus) :
    (w.acts i (setting known status)).files = w.files := by
  unfold setting
  split <;> rfl

/-- The guarded part of an existing document's run, and its handler. -/
theorem worked_breaks {pdf : ParsedPdf} (hrun : l.run = i) (hs : l.session.On known [])
    (hpdf : loadedIn l.env w known = .ok pdf) (hdb : l.env.db = failingAt k e)
    (hk : k < recordingCalls known
      (outcomeOf c l.env.model ⟨pdf.pagesText,known.pageCount,s.docType,s.strategy⟩)) :
    (tryCatch
      (do
        let pages ← loadDocument
        processDocumentPages c pages s.docType s.strategy)
      failExisting).Safe (Machine.handler c.processor) (alone i) i label
      (fun r _ w' => r.isOk = false ∧ HalfRecorded i w w') l w := by
  refine Prog.safe_tryCatch (R := fun r l' w' => r.isOk = false ∧ w' = w ∧ l'.run = i ∧
    l'.env.db = Stream'.const none ∧ (l'.session.Refuses known.id ∨ l'.session.Holds known.id)) ?_ ?_ ?_
  · refine Prog.safe_bind (loadDocument_safe hs.documentAttributes) ?_ ?_
    · rintro pages l₁ w₁ ⟨w₂,hw₂,hw₁,h,hloaded⟩
      obtain rfl := hw₂ rfl
      obtain rfl := hw₁ rfl
      rw [hpdf] at h
      obtain rfl : pages = pdf.pagesText := Except.ok.inj h
      have hs₁ : l₁.session.On known [] := hloaded.session ▸ hs
      refine processDocumentPages_takes pdf.pagesText s.docType s.strategy hs₁.documentAttributes
        fun w₃ startedAt hw₃ => ?_
      obtain rfl := hw₃ rfl
      rw [← hloaded.model] at hk
      have hbreaks := recordOutcome_breaks (c := c) startedAt
        (l := l₁.afterProcessing c ⟨pdf.pagesText,known.pageCount,s.docType,s.strategy⟩) hs₁
        (hloaded.db.trans hdb) hk
      refine Prog.Calm.safe hbreaks ?_
      rintro r l' w' hw ⟨hkeep,hdb',hr,h⟩
      exact ⟨hr,(hw rfl).symm,hkeep.run.trans (hloaded.run.trans hrun),hdb',h⟩
    · rintro x l₁ w₁ ⟨w₂,hw₂,-,h,-⟩
      obtain rfl := hw₂ rfl
      rw [hpdf] at h
      cases h
  · rintro _ _ _ ⟨h,-⟩
    cases h
  · rintro x l₁ w₁ ⟨-,rfl,hrun₁,hdb₁,hrefuses | hholds⟩
    · exact Prog.Calm.safe (failExisting_refused hrefuses x) fun r _ w' hw h => ⟨h,.inl (hw rfl).symm⟩
    · exact failExisting_held hrun₁ hdb₁ hholds x

/-- The run of an existing document that meets its failing call while it records. -/
theorem processExistingInline_breaks {id : Uuid} {pdf : ParsedPdf}
    (hknown : w.db.documents id = some known) (hpdf : loadedIn env w known = .ok pdf)
    (hk : k < recordingCalls (known.with .processing)
      (outcomeOf c env.model ⟨pdf.pagesText,known.pageCount,s.docType,s.strategy⟩))
    (hdb : env.db = failingAt ((statusChange known .processing).length + (2 + k)) e) :
    (processExistingInline c id s.docType s.strategy).Safe (Machine.handler c.processor) (alone i) i label
      (fun r _ w' => r.isOk = false ∧ HalfRecorded i (w.acts i (setting known .processing)) w')
      (Local.start i env) w := by
  set calls := (statusChange known .processing).length + (1 + k)
  have hdb' : env.db = failingAt (1 + calls) e := by rw [hdb]; congr 1; omega
  set l₁ := (Local.start i env).calledDb.setSession (Session.new.selected (some known))
  have hselect : Machine.handler c.processor (.selectDocument id) (Local.start i env,w) =
      (.ok (some known),l₁,w) := by
    have hcall : (Local.start i env).call (fun s => { s with begun := true }) =
        (.ok (),(Local.start i env).calledDb) := by
      refine Local.call_ok rfl rfl ?_
      rw [Local.start,hdb']
      exact failingAt_head (by omega)
    have hview : (Machine.view (Local.start i env).calledDb w).documents id = some known := hknown
    simp only [Machine.handler,Machine.selectDocument,hcall,hview]
    rfl
  have hdb₁ : l₁.env.db = failingAt calls e := by
    show env.db.tail = _
    rw [hdb',← failingAt_drop 1 calls e]
    rfl
  refine Prog.safe_bind (R := fun r l' w' => r = .ok (some known) ∧ l' = l₁ ∧ w' = w)
    (Prog.safe_perform fun w' hw => ?_) ?_ ?_
  · obtain rfl := hw rfl
    exact ⟨_,_,_,hselect,.inl rfl,fun w' hw' => ⟨rfl,rfl,(hw' rfl).symm⟩⟩
  · rintro _ _ w₁ ⟨h,rfl,rfl⟩
    obtain rfl := Except.ok.inj h
    refine Prog.safe_op (fun _ => rfl) fun w' hw => ?_
    obtain rfl := hw rfl
    set l₂ : Local := { l₁ with started := l₁.started ++ [id] }
    have hs₂ : l₂.session.On known [] := ⟨rfl,rfl,rfl,rfl⟩
    refine Prog.safe_bind (setDocumentStatus_early .processing rfl hs₂ rfl hdb₁) ?_ ?_
    · rintro _ l₃ _ ⟨-,hkeep,hs₃,hdb₃,hmodel,rfl⟩
      have hmodel₃ : l₃.env.model = env.model := hmodel
      have hpdf₃ : loadedIn l₃.env (w₁.acts i (setting known .processing)) (known.with .processing) =
          .ok pdf := by
        rw [← hpdf]
        simp only [loadedIn,storedIn,parsedIn,files_setting,hkeep.storage,hkeep.openPdf]
        rfl
      refine worked_breaks (s := s) hkeep.run hs₃ hpdf₃ hdb₃ ?_
      rw [hmodel₃]
      exact hk
    · rintro _ _ _ ⟨h,-⟩
      cases h
  · rintro _ _ _ ⟨h,-⟩
    cases h

end Recording

section Programs
variable {c : Config} {i : ℕ} {s : Source} {label : Label} {l : Local} {w : World} {id : Uuid}
variable {P : World → Prop}

theorem extractDocument_existing {r : ExtractRequest}
    (hkind : (Source.request r).kind c = .existingInline id) :
    extractDocument c r = do
      let response ← processExistingInline c id r.docType (r.strategy.map ExtractionStrategy.value)
      return inlineAnswer r.asyncMode response := by
  unfold Source.kind at hkind
  unfold extractDocument
  cases hcontent : r.content <;> cases hfilename : r.filename <;> cases hid : r.documentId <;>
    simp only [hcontent,hfilename,hid] at hkind ⊢ <;> first | cases hkind | skip
  case some.some.none => split at hkind <;> cases hkind
  all_goals
    split at hkind
    · cases hkind
    · obtain rfl := Kind.existingInline.inj hkind
      rw [extractExistingDocument,if_neg ‹_›]

/-- What surrounds the run of an existing document that raises changes nothing that is
shared. -/
theorem programOf_raises (hkind : s.kind c = .existingInline id)
    (h : (processExistingInline c id s.docType s.strategy).Safe (Machine.handler c.processor) (alone i) i
      label (fun r _ w' => r.isOk = false ∧ P w') l w) :
    (programOf c s).Safe (Machine.handler c.processor) (alone i) i label
      (fun r _ w' => r.isOk = false ∧ P w') l w := by
  cases s with
  | worker job =>
    cases hkind
    refine Prog.safe_map (Prog.Safe.mono h ?_)
    rintro r _ w' ⟨hr,hP⟩
    cases r with
    | ok a => cases hr
    | error x => exact ⟨rfl,hP⟩
  | request r =>
    rw [programOf,extractDocument_existing hkind]
    have hraises : (do
        let response ← processExistingInline c id r.docType (r.strategy.map ExtractionStrategy.value)
        return inlineAnswer r.asyncMode response).Safe (Machine.handler c.processor) (alone i) i label
        (fun r _ w' => r.isOk = false ∧ P w') l w :=
      Prog.safe_bind h (fun _ _ _ h => by cases h.1) fun _ _ _ h => h
    refine getDb_safe hraises ?_ (fun _ _ _ h => by cases h.1) fun _ _ _ h => h
    exact fun r l₁ w₁ w₂ h hw => hw rfl ▸ h

end Programs

section Durable
variable {c : Config} {i : ℕ} {s : Source} {env : Env} {w w' : World} {known : Document}

/-- No row of the run is durable, and its document has failed. -/
structure AllOrNothing (w w' : World) (id : Uuid) : Prop where
  extractions : w'.db.extractions = w.db.extractions
  llmUsages : w'.db.llmUsages = w.db.llmUsages
  failed : w'.db.status? id = some .failed

instance (w w' : World) (id : Uuid) : Decidable (AllOrNothing w w' id) :=
  decidable_of_iff (_ ∧ _ ∧ _) ⟨fun ⟨h,h',h''⟩ => ⟨h,h',h''⟩,fun ⟨h,h',h''⟩ => ⟨h,h',h''⟩⟩

@[simp] theorem extractions_setting (status : DocumentStatus) :
    (w.acts i (setting known status)).db.extractions = w.db.extractions := by
  unfold setting
  split
  · rfl
  · simp [World.acts,World.act,Change.extraction?]

theorem extractions_commit (changes : List Change) : (w.acts i [.commit changes]).db.extractions =
    w.db.extractions ++ changes.filterMap Change.extraction? := Database.extractions_applyAll _ _

theorem HalfRecorded.not_allOrNothing (hknown : w.db.documents known.id = some known)
    (h : HalfRecorded i (w.acts i (setting known .processing)) w') : ¬ AllOrNothing w w' known.id := by
  intro hall
  obtain rfl | ⟨changes,row,hrow,rfl⟩ := h
  · have hstatus := hall.failed
    simp [Database.status?,documents_setting .processing hknown,Document.with] at hstatus
  · have hrows := hall.extractions
    rw [extractions_commit,extractions_setting,List.append_right_eq_self,List.filterMap_eq_nil_iff] at hrows
    cases hrows _ hrow

/-- **A recording that fails is neither all nor nothing.** Whichever database call of
the recording fails, the run raises, and its document is left in processing or rows of
it are durable. -/
theorem recording_not_atomic {id : Uuid} {pdf : ParsedPdf} {k : ℕ} {e : Exc}
    (hkind : s.kind c = .existingInline id) (hknown : w.db.documents id = some known)
    (hpdf : loadedIn env w known = .ok pdf)
    (hk : k < recordingCalls (known.with .processing)
      (outcomeOf c env.model ⟨pdf.pagesText,known.pageCount,s.docType,s.strategy⟩))
    (hdb : env.db = failingAt ((statusChange known .processing).length + (2 + k)) e) :
    (runAlone c i s env w).1.isOk = false ∧ ¬ AllOrNothing w (runAlone c i s env w).2.2 id := by
  have hrun := @programOf_raises c i s ⟨s,env⟩ _ _ _ _ hkind
    (processExistingInline_breaks hknown hpdf hk hdb)
  obtain ⟨hraises,hhalf⟩ := hrun.run
  obtain rfl := w.db.keyed hknown
  exact ⟨hraises,hhalf.not_allOrNothing hknown⟩

end Durable

section Sample

/-- The provider answers, and the `n`-th database call fails. -/
def brokenEnv (n : ℕ) : Env :=
  { sampleEnv (.ok "job") (toolCallReplies "contract" plainContract) with
    db := failingAt n (.other "OperationalError") }

/-- The flush of the extraction row fails. -/
theorem flush_not_atomic :
    (runAlone (sampleConfig true) 1 (.request (sampleExisting false)) (brokenEnv 4) storedWorld).1.isOk =
      false ∧
    ¬ AllOrNothing storedWorld (runAlone (sampleConfig true) 1 (.request (sampleExisting false))
      (brokenEnv 4) storedWorld).2.2 (.old 0) :=
  @recording_not_atomic _ _ _ _ _ sampleDocument _ ⟨["Agreement"],1⟩ 1 _ rfl rfl rfl (by decide) rfl

/-- The refresh of the extraction row fails: the document has failed, and the row is
durable. -/
theorem refresh_publishes :
    (runAlone (sampleConfig true) 1 (.request (sampleExisting false)) (brokenEnv 5) storedWorld).1 =
      .error (.other "OperationalError") ∧
    (runAlone (sampleConfig true) 1 (.request (sampleExisting false)) (brokenEnv 5)
      storedWorld).2.2.db.status? (.old 0) = some .failed ∧
    ((runAlone (sampleConfig true) 1 (.request (sampleExisting false)) (brokenEnv 5)
      storedWorld).2.2.db.extractions.map Extraction.status) = [.completed] ∧
    ¬ AllOrNothing storedWorld (runAlone (sampleConfig true) 1 (.request (sampleExisting false))
      (brokenEnv 5) storedWorld).2.2 (.old 0) := by
  decide

end Sample

end StructuredExtractor
