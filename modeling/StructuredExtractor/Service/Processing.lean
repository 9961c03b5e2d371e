import StructuredExtractor.Service.Recording

/-! # Processing a document without database failures

What a run does between its transactions, for every discipline: it commits, it sets
the status, and it processes the pages and records the outcome.
-/
namespace StructuredExtractor
open Service

/-- The run is between its transactions and works on the document, as `known`; no
database call of it fails. -/
structure Local.Ready (l : Local) (known : Document) : Prop where
  db : l.env.db = Stream'.const none
  session : l.session.On known []

/-- What a run's history says in the end. -/
structure Trail where
  started : List Uuid
  processed : List (ProcessingInput × Except Exc DocumentProcessingResult)
  /-- The session has a document. -/
  found : Bool

def Local.trail (l : Local) : Trail := ⟨l.started,l.processed,l.session.document.isSome⟩

theorem Local.trail_rollback (l : Local) : (l.setSession l.session.rollback).trail = l.trail := by
  simp only [Local.trail,Local.setSession,Session.rollback]
  split <;> simp

/-- Nothing of the run waits to be durable. -/
structure Local.Emptied (l : Local) : Prop where
  pending : l.session.pending = []
  flushed : l.session.flushed = []

theorem Local.Emptied.rollback {l : Local} (h : l.Emptied) : (l.setSession l.session.rollback).Emptied := by
  unfold Session.rollback
  split
  · exact ⟨rfl,rfl⟩
  · exact h

/-- A commit of nothing, whether its call fails or not. -/
theorem Local.Emptied.commit {l : Local} (h : l.Emptied) (w : World) : (Machine.commit l w).2.1.Emptied ∧
    (Machine.commit l w).2.1.trail = l.trail ∧ (Machine.commit l w).2.2 = w := by
  have hcall : l.commit.2.session.pending = [] ∧ l.commit.2.session.flushed = [] ∧ l.commit.2.trail = l.trail := by
    obtain ⟨-,hidle⟩ | hcall := l.commit_cases
    · rw [hidle]
      exact ⟨h.pending,h.flushed,rfl⟩
    · simp only [hcall,Local.call,Local.flush_idle h.pending]
      split
      · exact ⟨h.pending,h.flushed,rfl⟩
      · cases l.env.db.head <;> exact ⟨h.pending,h.flushed,rfl⟩
  unfold Machine.commit
  generalize l.commit = q at hcall ⊢
  obtain ⟨hpending,hflushed,htrail⟩ := hcall
  rcases q with ⟨_ | _,l₁⟩
  · exact ⟨⟨hpending,hflushed⟩,htrail,rfl⟩
  · refine ⟨⟨hpending,rfl⟩,?_,if_pos hflushed⟩
    rw [← htrail]
    simp only [Local.trail,Local.setSession,Session.commitOk,Option.isSome_map]

section Commit
variable {c : Config} {p : DocumentProcessor} {D : Discipline Label World} {i : ℕ} {label : Label}
variable {l : Local} {w : World} {known : Document} {Q : Except Exc Unit → Local → World → Prop}

theorem commit_safe {changes : List Change} (hrun : l.run = i) (hdb : l.env.db = Stream'.const none)
    (hs : l.session.On known changes) (hne : changes ≠ [])
    (hguar : ∀ w', D.rely i w w' → D.guar i label w' (w'.act i (.commit changes)))
    (hQ : ∀ l' w', l.Keeps l' → l'.Ready known → l'.env = l.env → Went D i w [.commit changes] w' →
      Q (.ok ()) l' w') :
    (perform .commit).Safe (Machine.handler p) D i label Q l w := by
  refine Prog.safe_perform fun w' hw => ?_
  have hcall : l.commit = (.ok (),l) := Local.commit_faultless hdb hs.pending hs.refusing
  have hop := Machine.handler_commit p (w := w') hcall hrun hs.flushed hne
  refine ⟨_,_,_,hop,hguar w' hw,fun w'' hw' => hQ _ w'' (l.keeps_setSession _)
    ⟨hdb,?_,hs.pending,rfl,hs.refusing⟩ rfl (.act_rely hw hw')⟩
  simp [Session.commitOk,hs.document]

/-- A commit with nothing flushed does nothing that is shared. -/
theorem commit_nothing {Q : Except Exc Unit → Local → Prop} (hl : l.Ready known)
    (hQ : ∀ l', l.Keeps l' → l'.Ready known → l'.env = l.env → Q (.ok ()) l') :
    (perform .commit).Calm (Machine.handler p) Q l := by
  have hcall : l.commit = (.ok (),l) :=
    Local.commit_faultless hl.db hl.session.pending hl.session.refusing
  have hop := Machine.handler_commit_nothing p hcall hl.session.flushed
  refine Prog.calm_perform hop
    (hQ _ (l.keeps_setSession _) ⟨hl.db,?_,hl.session.pending,rfl,hl.session.refusing⟩ rfl)
  simp [Session.commitOk,hl.session.document]

/-- `_set_document_status` -/
theorem setDocumentStatus_safe (status : DocumentStatus) (hrun : l.run = i) (hl : l.Ready known)
    (hguar : ∀ w' a, D.rely i w w' → a ∈ setting known status → D.guar i label w' (w'.act i a))
    (hQ : ∀ l' w', l.Keeps l' → l'.Ready (known.with status) → l'.env.model = l.env.model →
      Went D i w (setting known status) w' → Q (.ok ()) l' w') :
    (setDocumentStatus status).Safe (Machine.handler p) D i label Q l w := by
  have hset := (setStatus_writes (p := p) hl.session status).faultless hl.db
  refine Prog.safe_bind (R := fun r l' w' => D.rely i w w' ∧ l.Keeps l' ∧
    l'.env.db = Stream'.const none ∧ ∃ a, r = .ok a ∧
      l.Flushed (known.with status) (statusChange known status) l')
    (Prog.Calm.safe hset fun r l' w' hw h => ⟨hw,h.1,h.2.1,?_⟩) ?_ ?_
  · simpa using h.2.2
  · rintro a l₁ w₁ ⟨hw₁,hkeep,hdb,_,-,hf⟩
    by_cases hstatus : known.status = status
    · have hready : l₁.Ready (known.with status) := ⟨hdb,by simpa [statusChange,hstatus] using hf.session⟩
      refine Prog.Calm.safe (commit_nothing (Q := fun r l' => r = .ok () ∧ l₁.Keeps l' ∧
        l'.Ready (known.with status) ∧ l'.env = l₁.env) hready fun l' h h' h'' => ⟨rfl,h,h',h''⟩) ?_
      rintro _ l' w' hw' ⟨rfl,hkeep',hready',henv⟩
      refine hQ l' w' (hkeep.trans hkeep') hready' (by rw [henv,hf.model]) ?_
      rw [setting,if_pos hstatus]
      exact .wait (D.rely_trans hw₁ hw')
    · have hchange : statusChange known status = [.updateStatus known.id status] := by
        simp [statusChange,hstatus]
      have hsetting : setting known status = [.commit [.updateStatus known.id status]] := by
        simp [setting,hstatus]
      rw [hchange] at hf
      refine commit_safe (hkeep.run.trans hrun) hdb hf.session (List.cons_ne_nil _ _)
        (fun w' hw' => hguar w' _ (D.rely_trans hw₁ hw') (by simp [hsetting])) ?_
      intro l' w' hkeep' hready' henv hwent
      refine hQ l' w' (hkeep.trans hkeep') hready' (by rw [henv,hf.model]) ?_
      rw [hsetting]
      exact (Discipline.Passes.wait hw₁).trans hwent
  · rintro e l₁ w₁ ⟨-,-,-,_,h,-⟩
    cases h

end Commit

section Process
variable {c : Config} {D : Discipline Label World} {i : ℕ} {label : Label}
variable {l : Local} {w : World} {known : Document}

/-- The outcome of the processing in an environment whose clock is read once before. -/
def outcomeOf (c : Config) (model : ModelEnv) (input : ProcessingInput) :
    Except Exc DocumentProcessingResult :=
  ((c.processor.processPages input).run ModelEnv.handler model.tick).1

/-- The document, as the session knows it after an outcome was recorded. -/
def afterOutcome (c : Config) (known : Document) (o : Except Exc DocumentProcessingResult) : Document :=
  match recorded c o with
  | none => known
  | some rec => known.with rec.status

@[simp] theorem afterOutcome_id (c : Config) (known : Document)
    (o : Except Exc DocumentProcessingResult) : (afterOutcome c known o).id = known.id := by
  unfold afterOutcome
  cases recorded c o <;> rfl

/-- How a part that takes the outcome `o` ends. -/
structure Took (c : Config) (D : Discipline Label World) (i : ℕ) (w : World) (l : Local) (known : Document)
    (o : Except Exc DocumentProcessingResult) (r : Except Exc ExtractResponse) (l' : Local)
    (w' : World) : Prop where
  keeps : l.Keeps l'
  ready : l'.Ready (afterOutcome c known o)
  went : ∃ as, Went D i w as w' ∧ Recording c i known [] o as
  ok : r.isOk = o.isOk

theorem recordOutcome_safe {o : Except Exc DocumentProcessingResult} (ho : ClassifiedOutcome o)
    (startedAt : ℚ) (hrun : l.run = i) (hl : l.Ready known)
    (hguar : ∀ w' a as, D.rely i w w' → Recording c i known [] o as → a ∈ as →
      D.guar i label w' (w'.act i a)) :
    (recordOutcome c startedAt o).Safe (Machine.handler c.processor) D i label
      (Took c D i w l known o) l w := by
  cases h : recorded c o with
  | none =>
    obtain ⟨e,rfl,hthrow⟩ := recordOutcome_passes (c := c) startedAt h
    rw [hthrow]
    refine Prog.safe_done fun w' hw => ⟨.refl l,?_,⟨[],.wait hw,?_⟩,rfl⟩
    · simpa only [afterOutcome,h] using hl
    · simp only [Recording,h]
  | some rec =>
    rw [recordOutcome_recorded startedAt h]
    have hflush := (flushRecording_writes startedAt hl.session h).faultless hl.db
    refine Prog.safe_bind (R := fun r l' w' => D.rely i w w' ∧ l.Keeps l' ∧
      l'.env.db = Stream'.const none ∧ ∃ a, r = .ok a ∧ a.isOk = o.isOk ∧ ∃ durationMs,
        l'.session.On (known.with rec.status) (rec.changes l.run l.drawn l.env.now durationMs known))
      (Prog.Calm.safe hflush fun r l' w' hw h => ⟨hw,h.1,h.2.1,?_⟩) ?_ ?_
    · simpa using h.2.2
    · rintro a l₁ w₁ ⟨hw₁,hkeep,hdb,_,hr,hok,durationMs,hs⟩
      obtain rfl := Except.ok.inj hr
      have hrec : Recording c i known [] o [.commit (rec.changes i l.drawn l.env.now durationMs known)] := by
        simp only [Recording,h]
        exact ⟨ho,_,_,_,rfl⟩
      rw [hrun] at hs
      have hne : rec.changes i l.drawn l.env.now durationMs known ≠ [] := by
        simp [Recorded.changes,Recorded.rows]
      refine Prog.safe_bind (R := fun r l' w' => r = .ok () ∧ Took c D i w l known o a l' w')
        (commit_safe (hkeep.run.trans hrun) hdb hs hne
          (fun w' hw' => hguar w' _ _ (D.rely_trans hw₁ hw') hrec (List.mem_singleton_self _)) ?_) ?_ ?_
      · intro l' w' hkeep' hready _ hwent
        refine ⟨rfl,hkeep.trans hkeep',?_,⟨_,(Discipline.Passes.wait hw₁).trans hwent,hrec⟩,hok⟩
        simpa only [afterOutcome,h] using hready
      · rintro _ l' w' ⟨-,ht⟩
        exact Prog.safe_done fun w'' hw =>
          ⟨ht.keeps,ht.ready,ht.went.imp fun as has => ⟨has.1.rely hw,has.2⟩,ht.ok⟩
      · rintro e l' w' ⟨h',-⟩
        cases h'
    · rintro e l' w' ⟨-,-,-,_,h',-⟩
      cases h'

/-- The run once it has the outcome of the processing. -/
def Local.afterProcessing (l : Local) (c : Config) (input : ProcessingInput) : Local := { l with
  env := { l.env with
    model := ((c.processor.processPages input).run ModelEnv.handler l.env.model.tick).2 }
  processed := l.processed ++ [(input,outcomeOf c l.env.model input)] }

/-- The pages are processed with the session untouched; then the outcome is taken. -/
theorem processDocumentPages_takes {Q : Except Exc ExtractResponse → Local → World → Prop}
    (pages : List String) (docType strategy : Option String)
    (hknown : l.session.documentAttributes = .ok known)
    (htake : ∀ w' startedAt, D.rely i w w' →
      (recordOutcome c startedAt (outcomeOf c l.env.model ⟨pages,known.pageCount,docType,strategy⟩)).Safe
        (Machine.handler c.processor) D i label Q
        (l.afterProcessing c ⟨pages,known.pageCount,docType,strategy⟩) w') :
    (processDocumentPages c pages docType strategy).Safe (Machine.handler c.processor) D i label Q l w := by
  set input : ProcessingInput := ⟨pages,known.pageCount,docType,strategy⟩
  set o := outcomeOf c l.env.model input
  set l₁ : Local := { l with env := { l.env with model := l.env.model.tick } }
  have hattempt : (attempt do
      let document ← perform .documentAttributes
      perform (.processPages ⟨pages,document.pageCount,docType,strategy⟩)).Calm
      (Machine.handler c.processor) (fun r l' => r = .ok o ∧ l' = l.afterProcessing c input) l₁ := by
    refine Prog.calm_tryCatch (R := fun r l' => r = o.map Except.ok ∧ l' = l.afterProcessing c input)
      (Prog.calm_map (Prog.calm_bind (R := fun r l' => r = .ok known ∧ l' = l₁)
        (Prog.calm_perform (Machine.handler_documentAttributes _ hknown) ⟨rfl,rfl⟩) ?_ ?_)) ?_ ?_
    · rintro _ _ ⟨h,rfl⟩
      obtain rfl := Except.ok.inj h
      exact Prog.calm_perform (fun _ => rfl) ⟨rfl,rfl⟩
    · rintro e _ ⟨h,-⟩
      cases h
    · rintro a l' ⟨h,h'⟩
      refine ⟨?_,h'⟩
      cases hc : o with
      | ok r => rw [hc] at h; rw [Except.ok.inj h]
      | error e => rw [hc] at h; cases h
    · rintro e l' ⟨h,h'⟩
      refine Prog.calm_done ⟨?_,h'⟩
      cases hc : o with
      | ok r => rw [hc] at h; cases h
      | error e => rw [hc] at h; rw [Except.error.inj h]
  refine Prog.safe_op (fun _ => rfl) fun w₁ hw₁ => ?_
  refine Prog.safe_bind (R := fun r l' w' => D.rely i w w' ∧ r = .ok o ∧ l' = l.afterProcessing c input)
    (Prog.Calm.safe hattempt fun r l' w' hw h => ⟨D.rely_trans hw₁ hw,h⟩) ?_ ?_
  · rintro _ _ w₂ ⟨hw₂,h,rfl⟩
    obtain rfl := Except.ok.inj h
    exact htake w₂ _ hw₂
  · rintro e _ _ ⟨-,h,-⟩
    cases h

/-- How the processing of a document's pages ends. -/
structure Processed (c : Config) (D : Discipline Label World) (i : ℕ) (w : World) (model : ModelEnv)
    (id : Uuid) (known : Document) (input : ProcessingInput) (r : Except Exc ExtractResponse)
    (l' : Local) (w' : World) : Prop where
  run : l'.run = i
  trail : l'.trail = ⟨[id],[(input,outcomeOf c model input)],true⟩
  ready : l'.Ready (afterOutcome c known (outcomeOf c model input))
  went : ∃ as, Went D i w as w' ∧ Recording c i known [] (outcomeOf c model input) as
  ok : r.isOk = (outcomeOf c model input).isOk

theorem processDocumentPages_safe (pages : List String) (docType strategy : Option String)
    {model : ModelEnv} {id : Uuid} (hrun : l.run = i) (hl : l.Ready known) (hstarted : l.started = [id])
    (hprocessed : l.processed = []) (hmodel : l.env.model = model)
    (hguar : ∀ w' a o as, D.rely i w w' → Recording c i known [] o as → a ∈ as →
      D.guar i label w' (w'.act i a)) :
    (processDocumentPages c pages docType strategy).Safe (Machine.handler c.processor) D i label
      (Processed c D i w model id known ⟨pages,known.pageCount,docType,strategy⟩) l w := by
  subst hmodel
  have hclassified := DocumentProcessor.processPages_classified c.processor l.env.model.tick
    ⟨pages,known.pageCount,docType,strategy⟩
  refine processDocumentPages_takes pages docType strategy hl.session.documentAttributes
    fun w₁ startedAt hw₁ => Prog.Safe.mono (recordOutcome_safe hclassified startedAt hrun ⟨hl.db,hl.session⟩
      fun w' a as hw' => hguar w' a _ as (D.rely_trans hw₁ hw')) ?_
  intro r l' w' ht
  refine ⟨ht.keeps.run.trans hrun,?_,ht.ready,
    ht.went.imp fun as has => ⟨(Discipline.Passes.wait hw₁).trans has.1,has.2⟩,ht.ok⟩
  rw [Local.trail,ht.keeps.started,ht.keeps.processed,ht.ready.session.document]
  simp only [Local.afterProcessing,hstarted,hprocessed,List.nil_append,Option.isSome_some]

/-- With the handler that sets the status to failed. -/
theorem Recording.failing {o : Except Exc DocumentProcessingResult} {as : List Action} {e : Exc}
    (h : Recording c i known [] o as) (ho : o = .error e) :
    Recording c i known (setting known .failed) o (as ++ setting (afterOutcome c known o) .failed) := by
  subst ho
  cases hrec : recorded c (.error e) with
  | none =>
    simp only [Recording,afterOutcome,hrec] at h ⊢
    rw [h,List.nil_append]
  | some rec =>
    have hstatus : rec.status = .failed := by
      cases e <;> cases hrec
      rfl
    simp only [Recording,afterOutcome,hrec,setting,Document.with,hstatus,if_true,List.append_nil] at h ⊢
    exact h

theorem Recording.result {o : Except Exc DocumentProcessingResult} {as : List Action}
    {otherwise : List Action} (h : Recording c i known [] o as) (ho : o.isOk) :
    Recording c i known otherwise o as := by
  cases o with
  | ok r => exact h
  | error e => cases ho

end Process

end StructuredExtractor
