import StructuredExtractor.Service.Alone

/-! # Stored files and document rows

Uploads under every pattern of database failures. Once the document was created, or
its file deleted, nothing that the service does afterwards takes the row and the file
of a path apart.
-/
namespace StructuredExtractor
open Service

/-- A durable document has this path. -/
def HasRow (db : Database) (path : StoragePath) : Prop :=
  ∃ id row, db.documents id = some row ∧ row.filePath = path

/-- The row and the file of a path are there together, or not at all. -/
def InStep (w : World) (path : StoragePath) : Prop := HasRow w.db path ↔ (w.files path).isSome

namespace Change

/-- The document that a change adds, if it adds one. -/
def document? : Change → Option Document
  | insertDocument row => some row
  | _ => none

end Change

namespace Session

/-- No document waits to be written. -/
def Plain (s : Session) : Prop := ∀ c ∈ s.pending ++ s.flushed, c.document? = none

variable {s : Session}

theorem plain_of_nil (hp : s.pending = []) (hf : s.flushed = []) : s.Plain := by simp [Plain,hp,hf]

theorem Plain.of_subset {s' : Session} (h : s.Plain)
    (hs : ∀ c ∈ s'.pending ++ s'.flushed, c ∈ s.pending ++ s.flushed) : s'.Plain :=
  fun c hc => h c (hs c hc)

theorem Plain.add (h : s.Plain) {c : Change} (hc : c.document? = none) : (s.add c).Plain := by
  intro d hd
  simp only [Session.add,List.mem_append,List.mem_singleton] at hd
  rcases hd with (hd | rfl) | hd
  · exact h d (List.mem_append_left _ hd)
  · exact hc
  · exact h d (List.mem_append_right _ hd)

theorem Plain.assignStatus (h : s.Plain) (status : DocumentStatus) : (s.assignStatus status).Plain := by
  unfold Session.assignStatus
  cases s.document with
  | none => exact h
  | some t =>
    dsimp only
    split
    · exact h
    · exact Plain.add (s := { s with document := _ }) h rfl

theorem Plain.rollback (h : s.Plain) : s.rollback.Plain := by
  unfold Session.rollback
  split
  · exact plain_of_nil rfl rfl
  · exact h

end Session

namespace Local
variable {l : Local}

theorem plain_flush (h : l.session.Plain) : l.flush.2.session.Plain := by
  unfold flush
  split
  · exact h
  · split
    · exact h
    · cases l.env.db.head with
      | none =>
        refine h.of_subset fun c hc => ?_
        simpa [Session.flushOk,or_comm] using hc
      | some e => exact Session.plain_of_nil rfl rfl

theorem plain_call {failed : Session → Session} (hfailed : ∀ s, s.Plain → (failed s).Plain)
    (h : l.session.Plain) : (l.call failed).2.session.Plain := by
  have hflush := plain_flush h
  unfold call
  generalize l.flush = q at hflush ⊢
  rcases q with ⟨_ | _,l'⟩
  · exact hflush
  · dsimp only
    split
    · exact hflush
    · cases l'.env.db.head with
      | none => exact hflush
      | some e => exact hfailed _ hflush

theorem plain_commit (h : l.session.Plain) : l.commit.2.session.Plain := by
  obtain ⟨-,hidle⟩ | hcall := l.commit_cases
  · exact hidle ▸ h
  · exact hcall ▸ plain_call (fun s hs => show s.commitFailed.Plain from hs) h

end Local

section Paths
variable {path : StoragePath}

theorem hasRow_apply {db : Database} {c : Change} (hc : c.document? = none) :
    HasRow (db.apply c) path ↔ HasRow db path := by
  cases c with
  | insertDocument row => cases hc
  | updateStatus id status =>
    constructor
    · rintro ⟨id',row,hrow,hpath⟩
      by_cases hid : id' = id
      · subst hid
        simp only [Database.apply,Database.updateStatus,Function.update_self,Option.map_eq_some_iff] at hrow
        obtain ⟨row',hrow',rfl⟩ := hrow
        exact ⟨id',row',hrow',hpath⟩
      · simp only [Database.apply,Database.updateStatus,Function.update_of_ne hid] at hrow
        exact ⟨id',row,hrow,hpath⟩
    · rintro ⟨id',row,hrow,hpath⟩
      by_cases hid : id' = id
      · subst hid
        exact ⟨id',{ row with status },by simp [Database.apply,Database.updateStatus,hrow],hpath⟩
      · exact ⟨id',row,by simpa [Database.apply,Database.updateStatus,Function.update_of_ne hid] using hrow,
          hpath⟩
  | _ => exact Iff.rfl

theorem hasRow_applyAll {db : Database} {cs : List Change} (hcs : ∀ c ∈ cs, c.document? = none) :
    HasRow (db.applyAll cs) path ↔ HasRow db path := by
  induction cs generalizing db with
  | nil => exact Iff.rfl
  | cons c cs ih =>
    rw [Database.applyAll,List.foldl_cons,← Database.applyAll,
      ih fun d hd => hcs d (List.mem_cons_of_mem c hd)]
    exact hasRow_apply (hcs c List.mem_cons_self)

/-- A run can stop here, or go on with operations that neither store nor delete a
file nor add a document. -/
structure Balanced (path : StoragePath) (l : Local) (w : World) : Prop where
  inStep : InStep w path
  plain : l.session.Plain

/-- Neither stores nor deletes a file, nor adds a document. -/
def Tame : ServiceOp → Prop
  | .save _ _ _ => False
  | .delete _ => False
  | .addDocument _ => False
  | _ => True

variable {p : DocumentProcessor} {l : Local} {w : World}

theorem inStep_commit (h : InStep w path) {cs : List Change} (hcs : ∀ c ∈ cs, c.document? = none)
    (run : ℕ) : InStep (w.act run (.commit cs)) path :=
  (hasRow_applyAll hcs).trans h

theorem Balanced.committed (h : Balanced path l w) :
    Balanced path (Machine.commit l w).2.1 (Machine.commit l w).2.2 := by
  have hcall := Local.plain_commit h.plain
  unfold Machine.commit
  generalize l.commit = q at hcall ⊢
  rcases q with ⟨_ | _,l'⟩
  · exact ⟨h.inStep,hcall⟩
  · refine ⟨?_,hcall.of_subset fun c hc => List.mem_append_left _ (by simpa [Session.commitOk] using hc)⟩
    dsimp only
    split
    · exact h.inStep
    · exact inStep_commit h.inStep (fun c hc => hcall c (List.mem_append_right _ hc)) _

theorem Balanced.step {op : ServiceOp} (hop : Tame op) (h : Balanced path l w) :
    Balanced path (Machine.handler p op (l,w)).2.1 (Machine.handler p op (l,w)).2.2 := by
  cases op with
  | save | delete | addDocument => cases hop
  | selectDocument id =>
    have hcall := Local.plain_call (fun s hs => show ({ s with begun := true } : Session).Plain from hs)
      h.plain
    simp only [Machine.handler,Machine.selectDocument]
    generalize l.call _ = q at hcall ⊢
    rcases q with ⟨_ | _,l'⟩ <;> exact ⟨h.inStep,hcall⟩
  | assignStatus status => exact ⟨h.inStep,h.plain.assignStatus status⟩
  | addExtraction row => exact ⟨h.inStep,h.plain.add rfl⟩
  | addUsage row => exact ⟨h.inStep,h.plain.add rfl⟩
  | flush => exact ⟨h.inStep,Local.plain_flush h.plain⟩
  | commit => exact h.committed
  | rollback => exact ⟨h.inStep,h.plain.rollback⟩
  | refreshDocument =>
    have hcall := Local.plain_call (l := l.setSession l.session.expireDocument)
      (fun s hs => show (id s).Plain from hs) h.plain
    simp only [Machine.handler,Machine.refreshDocument]
    generalize (l.setSession l.session.expireDocument).call _ = q at hcall ⊢
    rcases q with ⟨_ | _,l'⟩
    · exact ⟨h.inStep,hcall⟩
    · cases (l.setSession l.session.expireDocument).session.document with
      | none => exact ⟨h.inStep,hcall⟩
      | some t =>
        dsimp only
        cases (Machine.view l' w).documents t.attributes.id <;> exact ⟨h.inStep,hcall⟩
  | refreshExtraction id =>
    have hcall := Local.plain_call (fun s hs => show ({ s with begun := true } : Session).Plain from hs)
      h.plain
    simp only [Machine.handler,Machine.refreshExtraction]
    generalize l.call _ = q at hcall ⊢
    rcases q with ⟨_ | _,l'⟩
    · exact ⟨h.inStep,hcall⟩
    · dsimp only
      split <;> exact ⟨h.inStep,hcall⟩
  | load path' =>
    simp only [Machine.handler,Machine.load]
    cases l.env.storage.head <;> cases w.files path' <;> exact ⟨h.inStep,h.plain⟩
  | enqueueJob documentId docType strategy =>
    simp only [Machine.handler,Machine.enqueueJob]
    cases l.env.enqueue.head <;> exact ⟨h.inStep,h.plain⟩
  | _ => exact ⟨h.inStep,h.plain⟩

end Paths

section Tame
variable (c : Config)

theorem setStatus_tame (status : DocumentStatus) : (setStatus status).Only Tame :=
  .bind (Prog.only_perform trivial) fun _ => Prog.only_perform trivial

theorem createUsage_tame (documentId extractionId : Uuid) (event : LLMUsageEvent) :
    (createUsage documentId extractionId event).Only Tame :=
  .bind (Prog.only_perform trivial) fun _ => .bind (Prog.only_perform trivial) fun _ =>
    .bind (Prog.only_perform trivial) fun _ => Prog.only_perform trivial

theorem addUsageEvents_tame (documentId extractionId : Uuid) (events : List LLMUsageEvent)
    (inputTokens outputTokens : ℕ) :
    (addUsageEvents c documentId extractionId events inputTokens outputTokens).Only Tame := by
  refine .bind ?_ fun _ => createUsage_tame _ _ _
  induction events with
  | nil => trivial
  | cons event events ih =>
    rw [List.forM_cons]
    exact .bind (createUsage_tame _ _ event) fun _ => ih

theorem recordSuccess_tame (r : DocumentProcessingResult) : (recordSuccess c r).Only Tame :=
  .bind (Prog.only_perform trivial) fun _ => .bind (Prog.only_perform trivial) fun _ =>
    .bind (Prog.only_perform trivial) fun _ =>
      .bind (.bind (Prog.only_perform trivial) fun _ => .bind (Prog.only_perform trivial) fun _ =>
        Prog.only_perform trivial) fun _ =>
        .bind (Prog.only_perform trivial) fun _ => .bind (addUsageEvents_tame c _ _ _ _ _) fun _ =>
          .bind (Prog.only_perform trivial) fun _ => .bind (Prog.only_perform trivial) fun _ => trivial

theorem recordFailure_tame (resolved : ResolvedDocumentInput) (startedAt : ℚ) (e : ExtractionError) :
    (recordFailure c resolved startedAt e).Only Tame :=
  .bind (Prog.only_perform trivial) fun _ => .bind (Prog.only_perform trivial) fun _ =>
    .bind (Prog.only_perform trivial) fun _ => .bind (Prog.only_perform trivial) fun _ =>
      .bind (.bind (Prog.only_perform trivial) fun _ => Prog.only_perform trivial) fun _ =>
        .bind (Prog.only_perform trivial) fun _ => addUsageEvents_tame c _ _ _ _ _

theorem recordOutcome_tame (startedAt : ℚ) (o : Except Exc DocumentProcessingResult) :
    (recordOutcome c startedAt o).Only Tame := by
  cases o with
  | ok r =>
    exact .bind (setStatus_tame _) fun _ => .bind (recordSuccess_tame c r) fun _ =>
      .bind (Prog.only_perform trivial) fun _ => trivial
  | error e =>
    cases e with
    | documentProcessing resolved e =>
      exact .bind (.bind (setStatus_tame _) fun _ => .bind (recordFailure_tame c resolved startedAt e)
        fun _ => Prog.only_perform trivial) fun _ => trivial
    | _ => trivial

theorem processDocumentPages_tame (pages : List String) (docType strategy : Option String) :
    (processDocumentPages c pages docType strategy).Only Tame :=
  .bind (Prog.only_perform trivial) fun _ =>
    .bind (.tryCatch (.map _ (.bind (Prog.only_perform trivial) fun _ => Prog.only_perform trivial))
      fun _ => trivial) fun _ => recordOutcome_tame c _ _

theorem setDocumentStatus_tame (status : DocumentStatus) : (setDocumentStatus status).Only Tame :=
  .bind (setStatus_tame status) fun _ => Prog.only_perform trivial

theorem enqueueOrProcess_tame (intake : DocumentIntakeResult) (docType : Option String)
    (strategy : Option ExtractionStrategy) : (enqueueOrProcess c intake docType strategy).Only Tame :=
  .tryCatch
    (.bind (Prog.only_perform trivial) fun _ => .bind (Prog.only_perform trivial) fun _ =>
      .bind (Prog.only_perform trivial) fun _ => trivial)
    fun _ => .bind (Prog.only_perform trivial) fun _ =>
      .bind (processDocumentPages_tame c _ _ _) fun _ => trivial

end Tame

section Uploads
variable {p : DocumentProcessor} {i : ℕ} {label : Label} {w : World} {env : Env} {row : Document}

/-- How the flush of a new document ends, whatever the database does. -/
def FlushedOrNot (l : Local) (row : Document) (r : Except Exc Unit) (l' : Local) : Prop :=
  l'.run = l.run ∧ l'.env.storage = l.env.storage ∧
    ((r = .ok () ∧ l'.session = ⟨some ⟨row,false,true⟩,[],[.insertDocument row],true,false⟩) ∨
      ∃ e, r = .error e ∧ l'.session = ⟨some ⟨row,false,true⟩,[],[],true,true⟩)

theorem createDocumentRow_ends {l : Local} (hnew : l.session = .new) (row : Document) :
    (createDocumentRow row).Calm (Machine.handler p) (FlushedOrNot l row) l := by
  set l₁ := l.setSession ⟨some ⟨row,false,true⟩,[.insertDocument row],[],true,false⟩
  have hadd : ∀ w, Machine.handler p (.addDocument row) (l,w) = (.ok (),l₁,w) := fun w => by
    simp only [Machine.handler,hnew]
    rfl
  refine Prog.calm_bind (R := fun r l' => r = .ok () ∧ l' = l₁) (Prog.calm_perform hadd ⟨rfl,rfl⟩) ?_ ?_
  · rintro _ _ ⟨-,rfl⟩
    cases hhead : l₁.env.db.head with
    | none =>
      exact Prog.calm_perform (Machine.handler_flush p (Local.flush_ok (List.cons_ne_nil _ _) rfl hhead))
        ⟨rfl,rfl,.inl ⟨rfl,rfl⟩⟩
    | some e =>
      exact Prog.calm_perform (Machine.handler_flush p (Local.flush_error (List.cons_ne_nil _ _) rfl hhead))
        ⟨rfl,rfl,.inr ⟨e,rfl,rfl⟩⟩
  · rintro e _ ⟨h,-⟩
    cases h

/-- How `_create_document` ends: the row is durable if and only if the commit went
through, and after a failed refresh the object is expired. -/
inductive CreatedOrNot (i : ℕ) (w : World) (row : Document) : Except Exc Unit → Local → World → Prop
  | unwritten {e : Exc} {l' : Local} {flushed : List Change}
      (hs : l'.session = ⟨some ⟨row,false,true⟩,[],flushed,true,true⟩) :
      CreatedOrNot i w row (.error e) l' w
  | unread {e : Exc} {l' : Local} (hs : l'.session = ⟨some ⟨row,true,false⟩,[],[],true,false⟩) :
      CreatedOrNot i w row (.error e) l' (w.act i (.commit [.insertDocument row]))
  | created {l' : Local} (hs : l'.session = ⟨some ⟨row,false,false⟩,[],[],true,false⟩) :
      CreatedOrNot i w row (.ok ()) l' (w.act i (.commit [.insertDocument row]))

/-- The object as the commit of its row leaves it. -/
def committedSession (row : Document) : Session := ⟨some ⟨row,false,false⟩,[],[],false,false⟩

/-- The refresh expires the object before its row is selected. -/
theorem refreshCreated_ends (l : Local) (w : World) (row : Document) :
    (perform .refreshDocument : ServiceProg Unit).Safe (Machine.handler p) (alone i) i label (fun r l' w' =>
      l'.run = l.run ∧ l'.env.storage = l.env.storage ∧ CreatedOrNot i w row r l' w')
      (l.setSession (committedSession row)) (w.act i (.commit [.insertDocument row])) := by
  set w₁ := w.act i (.commit [.insertDocument row])
  set l₂ := l.setSession (committedSession row)
  set l₃ := l₂.setSession l₂.session.expireDocument
  cases hread : l₃.env.db.head with
  | some e =>
    have hop : Machine.handler p .refreshDocument (l₂,w₁) = (.error e,l₃.calledDb.setSession l₃.session,w₁) := by
      have hcall : l₃.call id = (.error e,l₃.calledDb.setSession l₃.session) := Local.call_error rfl rfl hread
      simp only [Machine.handler,Machine.refreshDocument,l₃,hcall]
      rfl
    refine Prog.safe_perform fun w' hw => ?_
    obtain rfl := hw rfl
    refine ⟨_,_,_,hop,.inl rfl,fun w' hw' => ?_⟩
    obtain rfl := hw' rfl
    exact ⟨rfl,rfl,.unread rfl⟩
  | none =>
    have hfound : (Machine.view l₃.calledDb w₁).documents row.id = some row := by
      simp [Machine.view,l₃,l₂,w₁,committedSession,Session.expireDocument,World.act,Database.applyAll,
        Database.apply,Database.insertDocument]
    have hop : Machine.handler p .refreshDocument (l₂,w₁) =
        (.ok (),l₃.calledDb.setSession (l₃.session.refreshed row),w₁) := by
      have hcall : l₃.call id = (.ok (),l₃.calledDb) := Local.call_ok rfl rfl hread
      have hdoc : l₃.session.document = some ⟨row,true,false⟩ := rfl
      simp only [Machine.handler,Machine.refreshDocument,l₃,hcall,hdoc,hfound]
      rfl
    refine Prog.safe_perform fun w' hw => ?_
    obtain rfl := hw rfl
    refine ⟨_,_,_,hop,.inl rfl,fun w' hw' => ?_⟩
    obtain rfl := hw' rfl
    exact ⟨rfl,rfl,.created rfl⟩

/-- The commit of a flushed document goes through, or nothing is written. -/
theorem commitCreated_ends {l₁ : Local} (hrun : l₁.run = i)
    (hs : l₁.session = ⟨some ⟨row,false,true⟩,[],[.insertDocument row],true,false⟩) (w : World) :
    (perform .commit : ServiceProg Unit).Safe (Machine.handler p) (alone i) i label (fun r l' w' =>
      (r = .ok () ∧ l' = l₁.calledDb.setSession (committedSession row) ∧
        w' = w.act i (.commit [.insertDocument row])) ∨
      ∃ e, r = .error e ∧ l' = l₁.calledDb.setSession l₁.session.commitFailed ∧ w' = w) l₁ w := by
  have hpending : l₁.session.pending = [] := by rw [hs]
  have hrefusing : l₁.session.refusing = false := by rw [hs]
  have hcall : l₁.commit = l₁.call Session.commitFailed := Local.commit_begun (by rw [hs])
  refine Prog.safe_perform fun w' hw => ?_
  obtain rfl := hw rfl
  cases hhead : l₁.env.db.head with
  | some e =>
    have hop := Machine.handler_commit_error p (hcall.trans (Local.call_error hpending hrefusing hhead)) w
    exact ⟨_,_,_,hop,.inl rfl,fun w' hw' => .inr ⟨e,rfl,rfl,(hw' rfl).symm⟩⟩
  | none =>
    have hop : Machine.handler p .commit (l₁,w) = (.ok (),l₁.calledDb.setSession (committedSession row),
        w.act i (.commit [.insertDocument row])) := by
      have hflushed : l₁.calledDb.session.flushed = [.insertDocument row] := by
        rw [Local.calledDb_session,hs]
      rw [Machine.handler_commit p (hcall.trans (Local.call_ok hpending hrefusing hhead)) hrun hflushed
        (List.cons_ne_nil _ _),Local.calledDb_session,hs]
      rfl
    exact ⟨_,_,_,hop,.inl rfl,fun w' hw' => .inl ⟨rfl,rfl,(hw' rfl).symm⟩⟩

theorem createDocument_ends {l : Local} (hnew : l.session = .new) (hrun : l.run = i) (row : Document) :
    (createDocument row).Safe (Machine.handler p) (alone i) i label (fun r l' w' =>
      l'.run = l.run ∧ l'.env.storage = l.env.storage ∧ CreatedOrNot i w row r l' w') l w := by
  refine Prog.safe_bind (R := fun r l' w' => w = w' ∧ FlushedOrNot l row r l')
    (Prog.Calm.safe (createDocumentRow_ends hnew row) fun r l' w' hw h => ⟨hw rfl,h⟩) ?_ ?_
  · rintro _ l₁ _ ⟨rfl,hrun₁,hstorage,⟨-,hs⟩ | ⟨e,h,-⟩⟩
    · refine Prog.safe_bind (commitCreated_ends (hrun₁.trans hrun) hs w) ?_ ?_
      · rintro _ l₂ w₁ (⟨-,rfl,rfl⟩ | ⟨e,h,-⟩)
        · exact Prog.Safe.mono (refreshCreated_ends l₁.calledDb w row) fun r l' w' h =>
            ⟨h.1.trans hrun₁,h.2.1.trans hstorage,h.2.2⟩
        · cases h
      · rintro e l₂ w₁ (⟨h,-⟩ | ⟨e',-,rfl,rfl⟩)
        · cases h
        · exact ⟨hrun₁,hstorage,.unwritten (by rw [Local.setSession_session,hs]; rfl)⟩
    · cases h
  · rintro e l₁ _ ⟨rfl,hrun₁,hstorage,⟨h,-⟩ | ⟨e',h,hs⟩⟩
    · cases h
    · exact ⟨hrun₁,hstorage,.unwritten hs⟩

/-- A commit with the row of the path. -/
theorem hasRow_created (w : World) (row : Document) :
    HasRow (w.act i (.commit [.insertDocument row])).db row.filePath :=
  ⟨row.id,row,by simp [World.act,Database.applyAll,Database.apply,Database.insertDocument],rfl⟩

/-- Undoing an upload whose row is durable raises at the expired object. -/
theorem undo_unread {α : Type} {l₂ : Local} (hs : l₂.session = ⟨some ⟨row,true,false⟩,[],[],false,false⟩)
    (hthere : InStep w row.filePath) (e : Exc) :
    (do
      let document ← perform .documentAttributes
      deleteUpload document.filePath
      throw e : ServiceProg α).Safe (Machine.handler p) (alone i) i label (fun _ => Balanced row.filePath) l₂ w := by
  have hexpired : l₂.session.documentAttributes = .error .missingGreenlet := by
    rw [hs]
    rfl
  refine Prog.safe_bind (R := fun r l' w' => r = .error .missingGreenlet ∧
    Balanced row.filePath l' w') (Prog.Calm.safe (R := fun r l' => r = .error .missingGreenlet ∧ l' = l₂)
      (Prog.calm_perform (Machine.handler_documentAttributes _ hexpired) ⟨rfl,rfl⟩) ?_) ?_ ?_
  · rintro _ _ w' hw' ⟨rfl,rfl⟩
    obtain rfl := hw' rfl
    exact ⟨rfl,hthere,Session.plain_of_nil (by rw [hs]) (by rw [hs])⟩
  · rintro _ _ _ ⟨h,-⟩
    cases h
  · exact fun e' l' w' h => h.2

/-- Undoing an upload whose row is not durable deletes its file. -/
theorem undo_unwritten {α : Type} {l₂ : Local} (hs : l₂.session = ⟨some ⟨row,false,true⟩,[],[],false,false⟩)
    (hrun : l₂.run = i) (hstorage : l₂.env.storage.head = none) (hrow : ¬ HasRow w.db row.filePath) (e : Exc) :
    (do
      let document ← perform .documentAttributes
      deleteUpload document.filePath
      throw e : ServiceProg α).Safe (Machine.handler p) (alone i) i label (fun _ => Balanced row.filePath) l₂ w := by
  have hread : l₂.session.documentAttributes = .ok row := by
    rw [hs]
    rfl
  refine Prog.safe_op (Machine.handler_documentAttributes _ hread) fun w₂ hw₂ => ?_
  obtain rfl := hw₂ rfl
  set w₃ := w.act i (.delete row.filePath)
  have hop : Machine.handler p (.delete row.filePath) (l₂,w) = (.ok (),Machine.calledStorage l₂,w₃) := by
    simp only [Machine.handler,Machine.delete,hstorage,hrun]
    rfl
  have hgone : Balanced row.filePath (Machine.calledStorage l₂) w₃ :=
    ⟨iff_of_false hrow (by simp [w₃,World.act]),Session.plain_of_nil (by rw [Machine.calledStorage,hs])
      (by rw [Machine.calledStorage,hs])⟩
  refine Prog.safe_bind (R := fun r l' w' => r = .ok () ∧ Balanced row.filePath l' w')
    (Prog.safe_tryCatch (R := fun r l' w' => r = .ok () ∧ Balanced row.filePath l' w')
      (Prog.safe_perform fun w' hw' => ?_) (fun _ _ _ h => h) ?_) ?_ ?_
  · obtain rfl := hw' rfl
    refine ⟨_,_,_,hop,.inl rfl,fun w'' hw'' => ?_⟩
    obtain rfl := hw'' rfl
    exact ⟨rfl,hgone⟩
  · rintro e' _ _ ⟨h,-⟩
    cases h
  · rintro _ l' w' ⟨-,h⟩
    refine Prog.safe_done fun w'' hw'' => ?_
    obtain rfl := hw'' rfl
    exact h
  · rintro e' _ _ ⟨h,-⟩
    cases h

/-- Either the document is created, or its file is deleted, or the object is expired and
the file is left, with the row. -/
theorem create_balanced {l : Local} (hnew : l.session = .new) (hrun : l.run = i)
    (hstorage : l.env.storage = Stream'.const none) (hfile : (w.files row.filePath).isSome)
    (hrow : ¬ HasRow w.db row.filePath) :
    (tryCatch (createDocument row) undoUpload).Safe (Machine.handler p) (alone i) i label
      (fun _ => Balanced row.filePath) l w := by
  have hthere : InStep (w.act i (.commit [.insertDocument row])) row.filePath :=
    iff_of_true (hasRow_created w row) hfile
  refine Prog.safe_tryCatch (createDocument_ends hnew hrun row) ?_ ?_
  · rintro _ l₁ w₁ ⟨-,-,h⟩
    cases h with
    | created hs => exact ⟨hthere,Session.plain_of_nil (by rw [hs]) (by rw [hs])⟩
  · rintro e l₁ w₁ ⟨hrun₁,hstorage₁,h⟩
    refine Prog.safe_op (fun _ => rfl) fun w₂ hw₂ => ?_
    obtain rfl := hw₂ rfl
    set l₂ := l₁.setSession l₁.session.rollback
    have hrun₂ : l₂.run = i := hrun₁.trans hrun
    have hhead : l₂.env.storage.head = none := by
      rw [show l₂.env.storage = l₁.env.storage from rfl,hstorage₁,hstorage]
      rfl
    cases h with
    | unread hs => exact undo_unread (by simp [l₂,hs,Session.rollback,Tracked.rolledBack]) hthere e
    | unwritten hs =>
      exact undo_unwritten (by simp [l₂,hs,Session.rollback,Tracked.rolledBack]) hrun₂ hhead hrow e

/-- What follows the creation keeps the row and the file together. -/
theorem tame_balanced {α : Type} {q : ServiceProg α} (hq : q.Only Tame) {path : StoragePath} {l : Local}
    (h : Balanced path l w) :
    q.Safe (Machine.handler p) (alone i) i label (fun _ => Balanced path) l w :=
  hq.safe (fun _ _ _ h hw => hw rfl ▸ h) (fun _ _ _ _ _ => .inl rfl)
    (fun _ _ _ hop h => h.step hop) h

theorem upload_balanced {α : Type} {k : DocumentIntakeResult → ServiceProg α} {content : Bytes}
    {filename : String} {status : DocumentStatus} {path : StoragePath}
    (hpath : path = storagePath (Uuid.drawn i 0).str filename)
    (hdelete : env.storage.tail = Stream'.const none) (hfile : w.files path = none)
    (hrow : ¬ HasRow w.db path) (hk : ∀ intake, (k intake).Only Tame) :
    (do
      let intake ← prepareDocument content filename status
      tryCatch (createDocument intake.document) undoUpload
      k intake).Safe (Machine.handler p) (alone i) i label (fun _ => Balanced path)
      (Local.start i env) w := by
  have hstart : InStep w path := iff_of_false hrow (by simp [hfile])
  refine Prog.safe_bind (prepareDocument_safe content filename status fun _ _ => .inl rfl) ?_ ?_
  · rintro intake _ w₁ (⟨pdf,-,-,h,rfl,hwent⟩ | ⟨e,-,h,-⟩)
    · obtain rfl := Except.ok.inj h
      obtain rfl := alone_went hwent
      subst hpath
      set path := storagePath (Uuid.drawn i 0).str filename
      set w₁ := w.acts i [.save path content]
      have hsaved : (w₁.files path).isSome := by simp [w₁,World.acts,World.act]
      refine Prog.safe_bind (R := fun _ => Balanced path) ?_ (fun _ _ _ h => tame_balanced (hk _) h)
        fun _ _ _ h => h
      exact create_balanced rfl rfl hdelete hsaved hrow
    · cases h
  · rintro e l₁ w₁ (⟨pdf,-,-,h,-⟩ | ⟨e',-,-,hs,-,hwent⟩)
    · cases h
    · obtain rfl := alone_went hwent
      exact ⟨hstart,Session.plain_of_nil (by rw [hs]; rfl) (by rw [hs]; rfl)⟩

theorem extractUploadedDocument_balanced (c : Config) {content : Bytes} {filename : String}
    {path : StoragePath} (docType : Option String) (strategy : Option ExtractionStrategy)
    (asyncMode : Bool) (hpath : path = storagePath (Uuid.drawn i 0).str filename)
    (hdelete : env.storage.tail = Stream'.const none) (hfile : w.files path = none)
    (hrow : ¬ HasRow w.db path) :
    (extractUploadedDocument c content filename docType strategy asyncMode).Safe (Machine.handler p)
      (alone i) i label (fun _ => Balanced path) (Local.start i env) w := by
  unfold extractUploadedDocument
  split
  · have hinline : (processUploadedInline c content filename docType
        (strategy.map ExtractionStrategy.value)).Safe (Machine.handler p) (alone i) i label
        (fun _ => Balanced path) (Local.start i env) w :=
      upload_balanced hpath hdelete hfile hrow fun intake => .bind (Prog.only_perform trivial) fun _ =>
        .tryCatch (.bind (setDocumentStatus_tame _) fun _ => processDocumentPages_tame c _ _ _)
          fun _ => .bind (Prog.only_perform trivial) fun _ => trivial
    exact Prog.safe_bind hinline (fun _ _ _ h => tame_balanced (q := pure _) trivial h) fun _ _ _ h => h
  · exact upload_balanced hpath hdelete hfile hrow fun intake => enqueueOrProcess_tame c intake _ _

/-- **Files and rows stay in step.** Wherever a database call of an upload fails, if
deleting works, then in the end the upload has a durable row if and only if it has a
file. -/
theorem upload_inStep {c : Config} {r : ExtractRequest} {content : Bytes} {filename : String}
    (hcontent : r.content = some content) (hfilename : r.filename = some filename)
    (hid : r.documentId = none) (hdelete : env.storage.tail = Stream'.const none)
    (hfile : w.files (storagePath (Uuid.drawn i 0).str filename) = none)
    (hrow : ¬ HasRow w.db (storagePath (Uuid.drawn i 0).str filename)) :
    InStep (runAlone c i (.request r) env w).2.2 (storagePath (Uuid.drawn i 0).str filename) := by
  set path := storagePath (Uuid.drawn i 0).str filename
  have hextract : (extractDocument c r).Safe (Machine.handler c.processor) (alone i) i
      ⟨.request r,env⟩ (fun _ => Balanced path) (Local.start i env) w := by
    simp only [extractDocument,hcontent,hfilename,hid]
    exact extractUploadedDocument_balanced c _ _ _ rfl hdelete hfile hrow
  have hdb : (getDb (extractDocument c r)).Safe (Machine.handler c.processor) (alone i) i
      ⟨.request r,env⟩ (fun _ => Balanced path) (Local.start i env) w :=
    getDb_safe hextract (fun _ _ _ _ h hw => hw rfl ▸ h) (fun _ _ _ h => ⟨.inl rfl,h.committed⟩)
      fun _ _ _ h => ⟨h.inStep,h.plain.rollback⟩
  exact hdb.run.inStep

/-- The refresh of the new document fails. -/
def unreadEnv : Env := { sampleEnv (.ok "job") unreachable with db := failingAt 2 (.other "OperationalError") }

/-- The file of an upload whose refresh fails is not deleted: its path cannot be read. -/
theorem unread_inStep :
    (runAlone (sampleConfig true) 0 (.request (sampleUpload "receipt" true)) unreadEnv emptyWorld).1 =
      .error .missingGreenlet ∧
    InStep (runAlone (sampleConfig true) 0 (.request (sampleUpload "receipt" true)) unreadEnv
      emptyWorld).2.2 (storagePath (Uuid.drawn 0 0).str "agreement.pdf") :=
  ⟨by decide,upload_inStep rfl rfl rfl rfl rfl (by rintro ⟨_,_,h,_⟩; cases h)⟩

end Uploads

end StructuredExtractor
