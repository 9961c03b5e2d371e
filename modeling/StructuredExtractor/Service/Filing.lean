import StructuredExtractor.Service.Terms

/-! # Every run keeps to the terms

A run saves the file of its upload before its row, and makes an extraction of the pages of a
document that is durable. So whatever calls fail and however runs interleave, terms that the
service fits hold of every row.
-/
namespace StructuredExtractor
open Service

section Uploads
variable {T : Terms} {c : Config} {p : DocumentProcessor} {i : ℕ} {label : Label} {l : Local} {w w' : World} {env : Env}
variable {row : Document} {content : Bytes} {pages : List String}

/-- The file of the run's upload is there, and its row is not durable yet. -/
structure FileSaved (T : Terms) (i : ℕ) (label : Label) (row : Document) (content : Bytes) (w : World) : Prop where
  id : row.id = .drawn i 0
  filed : row.Filed w.files content
  terms : T.document row content
  uploads : label.Uploads row.filename content
  saved : (i,.save row.filePath content) ∈ w.log
  none : w.db.documents (.drawn i 0) = none
  kept : T.Kept w

theorem FileSaved.own (h : FileSaved T i label row content w) : row.filePath.fileId = (Uuid.drawn i 0).str := by
  rw [h.filed.place,h.id]
  rfl

theorem FileSaved.rely (h : FileSaved T i label row content w) (hw : LeavesFiles T i w w') :
    FileSaved T i label row content w' := by
  refine ⟨h.id,⟨?_,h.filed.place,h.filed.size⟩,h.terms,h.uploads,hw.log _ h.saved,hw.row.mpr h.none,hw.kept h.kept⟩
  rw [hw.files _ h.own]
  exact h.filed.file

theorem onTerms_of_nil (hrun : l.run = i) (hopens : l.Opens T) (hkept : T.Kept w) (hpending : l.session.pending = [])
    (hflushed : l.session.flushed = []) : l.OnTerms T i w :=
  ⟨hrun,Session.plain_of_nil hpending hflushed,hopens,by simp [hpending,hflushed],hkept⟩

/-- How `_create_document` ends. -/
inductive Creation (T : Terms) (i : ℕ) (row : Document) : Except Exc Unit → Local → World → Prop
  | unwritten {e : Exc} {l : Local} {w : World} {flushed : List Change}
      (hs : l.session = ⟨some ⟨row,false,true⟩,[],flushed,true,true⟩) (hnone : w.db.documents (.drawn i 0) = none)
      (hopens : l.Opens T) (hkept : T.Kept w) : Creation T i row (.error e) l w
  | unread {e : Exc} {l : Local} {w : World} (hs : l.session = ⟨some ⟨row,true,false⟩,[],[],true,false⟩)
      (hopens : l.Opens T) (hkept : T.Kept w) : Creation T i row (.error e) l w
  | created {l : Local} {w : World} (h : l.OnTerms T i w)
      (hon : ∀ t, l.session.document = some t → t.attributes.id = row.id)
      (hrow : ∃ status, w.db.documents row.id = some (row.with status)) : Creation T i row (.ok ()) l w

/-- The row is durable, up to its status. -/
def Durable (row : Document) (w : World) : Prop := ∃ status, w.db.documents row.id = some (row.with status)

theorem Durable.rely (h : Durable row w) (hw : LeavesFiles T i w w') : Durable row w' := by
  obtain ⟨status,hrow⟩ := h
  obtain ⟨status',hrow'⟩ := hw.documents _ _ hrow
  exact ⟨status',hrow'⟩

theorem refresh_filing {l : Local} (hrun : l.run = i) (hopens : l.Opens T) (hkept : T.Kept w) (hrow : Durable row w) :
    (perform .refreshDocument).Safe (Machine.handler p) (filing T) i label
      (fun r l' w' => l'.run = i ∧ Creation T i row r l' w') (l.setSession (committedSession row)) w := by
  set l₂ := l.setSession (committedSession row)
  set l₃ := l₂.setSession l₂.session.expireDocument
  refine Prog.safe_perform fun w₁ hw₁ => ?_
  have hkept₁ := LeavesFiles.kept hw₁ hkept
  cases hread : l₃.env.db.head with
  | some e =>
    have hcall : l₃.call id = (.error e,l₃.calledDb.setSession l₃.session) := Local.call_error rfl rfl hread
    have hop : Machine.handler p .refreshDocument (l₂,w₁) = (.error e,l₃.calledDb.setSession l₃.session,w₁) := by
      simp only [Machine.handler,Machine.refreshDocument,l₃,hcall]
      rfl
    exact ⟨_,_,_,hop,.inl rfl,fun w₂ hw₂ => ⟨hrun,.unread rfl hopens (LeavesFiles.kept hw₂ hkept₁)⟩⟩
  | none =>
    have hcall : l₃.call id = (.ok (),l₃.calledDb) := Local.call_ok rfl rfl hread
    have hdoc : l₃.session.document = some ⟨row,true,false⟩ := rfl
    cases hfound : (Machine.view l₃.calledDb w₁).documents row.id with
    | none =>
      have hop : Machine.handler p .refreshDocument (l₂,w₁) = (.error .invalidRequest,l₃.calledDb,w₁) := by
        simp only [Machine.handler,Machine.refreshDocument,l₃,hcall,hdoc,hfound]
        rfl
      exact ⟨_,_,_,hop,.inl rfl,fun w₂ hw₂ => ⟨hrun,.unread rfl hopens (LeavesFiles.kept hw₂ hkept₁)⟩⟩
    | some row' =>
      have hop : Machine.handler p .refreshDocument (l₂,w₁) =
          (.ok (),l₃.calledDb.setSession (l₃.session.refreshed row'),w₁) := by
        simp only [Machine.handler,Machine.refreshDocument,l₃,hcall,hdoc,hfound]
        rfl
      have hid : row'.id = row.id := (Machine.view l₃.calledDb w₁).keyed hfound
      refine ⟨_,_,_,hop,.inl rfl,fun w₂ hw₂ => ⟨hrun,.created ?_ ?_ ((hrow.rely hw₁).rely hw₂)⟩⟩
      · exact onTerms_of_nil hrun hopens (LeavesFiles.kept hw₂ hkept₁) rfl rfl
      · rintro t ⟨⟩
        exact hid

theorem commit_filing (hrun : l.run = i) (hs : l.session = ⟨some ⟨row,false,true⟩,[],[.insertDocument row],true,false⟩)
    (h : FileSaved T i label row content w) :
    (perform .commit).Safe (Machine.handler p) (filing T) i label (fun r l' w' => T.Kept w' ∧
      ((r = .ok () ∧ l' = l.calledDb.setSession (committedSession row) ∧ Durable row w') ∨
      ∃ e, r = .error e ∧ l' = l.calledDb.setSession l.session.commitFailed ∧
        w'.db.documents (.drawn i 0) = none)) l w := by
  have hpending : l.session.pending = [] := by rw [hs]
  have hrefusing : l.session.refusing = false := by rw [hs]
  have hcall : l.commit = l.call Session.commitFailed := Local.commit_begun (by rw [hs])
  refine Prog.safe_perform fun w₁ hw₁ => ?_
  have h₁ := h.rely hw₁
  cases hhead : l.env.db.head with
  | some e =>
    have hop := Machine.handler_commit_error p (hcall.trans (Local.call_error hpending hrefusing hhead)) w₁
    exact ⟨_,_,_,hop,.inl rfl,fun w₂ hw₂ => ⟨LeavesFiles.kept hw₂ h₁.kept,
      .inr ⟨e,rfl,rfl,(LeavesFiles.row hw₂).mpr h₁.none⟩⟩⟩
  | none =>
    have hflushed : l.calledDb.session.flushed = [.insertDocument row] := by
      rw [Local.calledDb_session,hs]
    have hop := Machine.handler_commit (w := w₁) p (hcall.trans (Local.call_ok hpending hrefusing hhead)) hrun
      hflushed (List.cons_ne_nil _ _)
    have hmay : MayFile T i label w₁ (.commit [.insertDocument row]) := by
      refine ⟨fun row' hrow' => ?_,fun x hx => (by simp at hx)⟩
      cases List.mem_singleton.mp hrow'
      exact ⟨h.id,h.id ▸ h₁.none,content,h₁.filed,h.terms,h.uploads,h₁.saved⟩
    have hdurable : Durable row (w₁.act i (.commit [.insertDocument row])) :=
      ⟨row.status,by simp [World.act,Database.applyAll,Database.apply,Database.insertDocument,Document.with]⟩
    refine ⟨_,_,_,hop,.inr ⟨_,hmay,rfl⟩,fun w₂ hw₂ => ⟨LeavesFiles.kept hw₂ (hmay.kept h₁.kept),
      .inl ⟨rfl,?_,hdurable.rely hw₂⟩⟩⟩
    rw [Local.calledDb_session,hs]
    rfl

theorem createDocument_filing (hnew : l.session = .new) (hrun : l.run = i) (hopens : l.Opens T)
    (h : FileSaved T i label row content w) : (createDocument row).Safe (Machine.handler p) (filing T) i label
      (fun r l' w' => l'.run = i ∧ Creation T i row r l' w') l w := by
  have hopen : (createDocumentRow row).Calm (Machine.handler p) (fun _ l' => l'.Opens T) l := by
    refine Prog.calm_bind (R := fun _ l' => l'.Opens T) (Prog.calm_perform (fun _ => rfl) hopens) (fun _ l₁ h₁ => ?_)
      fun _ _ h => h
    refine Prog.calm_perform (fun _ => rfl) fun n content file hfile => ?_
    obtain ⟨m,hm⟩ := (flush_follows l₁).opens n
    rw [hm] at hfile
    exact h₁ m content file hfile
  refine Prog.safe_bind (Prog.Safe.and (Prog.Calm.safe (createDocumentRow_ends hnew row) fun r l' w' hw hr =>
      (⟨h.rely hw,hr⟩ : FileSaved T i label row content w' ∧ FlushedOrNot l row r l'))
    (Prog.Calm.safe hopen fun _ l' _ _ ho => (ho : l'.Opens T))) ?_ ?_
  · rintro _ l₁ w₁ ⟨⟨h₁,hrun₁,-,⟨-,hs⟩ | ⟨e,he,-⟩⟩,hopens₁⟩
    · refine Prog.safe_bind (commit_filing (hrun₁.trans hrun) hs h₁) ?_ ?_
      · rintro _ l₂ w₂ ⟨hkept,⟨-,rfl,hdurable⟩ | ⟨e,he,-⟩⟩
        · exact refresh_filing (l := l₁.calledDb) (hrun₁.trans hrun) hopens₁ hkept hdurable
        · cases he
      · rintro e l₂ w₂ ⟨hkept,⟨he,-⟩ | ⟨e',-,rfl,hnone⟩⟩
        · cases he
        · exact ⟨hrun₁.trans hrun,.unwritten (by rw [Local.setSession_session,hs]; rfl) hnone hopens₁ hkept⟩
    · cases he
  · rintro e l₁ w₁ ⟨⟨h₁,hrun₁,-,⟨he,-⟩ | ⟨e',-,hs⟩⟩,hopens₁⟩
    · cases he
    · exact ⟨hrun₁.trans hrun,.unwritten hs h₁.none hopens₁ h₁.kept⟩

/-- Undoing an upload deletes its file only while the row is not durable. -/
theorem undo_filing {α : Type} {e : Exc} (hplace : row.filePath.fileId = (Uuid.drawn i 0).str) (hrun : l.run = i)
    (h : Creation T i row (.error e) l w) : (undoUpload e : ServiceProg α).Safe (Machine.handler p) (filing T) i label
      (fun r l w => l.OnTerms T i w ∧ ∃ e, r = .error e) l w := by
  refine Prog.safe_op (fun _ => rfl) fun w₁ hw₁ => ?_
  set l₁ := l.setSession l.session.rollback
  cases h with
  | unread hs hopens hkept =>
    have hs₁ : l₁.session = ⟨some ⟨row,true,false⟩,[],[],false,false⟩ := by
      simp [l₁,hs,Session.rollback,Tracked.rolledBack]
    have hexpired : l₁.session.documentAttributes = .error .missingGreenlet := by
      rw [hs₁]
      rfl
    have hterms : l₁.OnTerms T i w₁ :=
      onTerms_of_nil hrun hopens (LeavesFiles.kept hw₁ hkept) (by rw [hs₁]) (by rw [hs₁])
    refine Prog.safe_bind (R := fun r l' w' => r = .error .missingGreenlet ∧ l'.OnTerms T i w')
      (Prog.Calm.safe (R := fun r l' => r = .error .missingGreenlet ∧ l' = l₁)
        (Prog.calm_perform (Machine.handler_documentAttributes p hexpired) ⟨rfl,rfl⟩) ?_) ?_ ?_
    · rintro _ _ w' hw' ⟨rfl,rfl⟩
      exact ⟨rfl,hterms.rely hw'⟩
    · rintro _ _ _ ⟨he,-⟩
      cases he
    · rintro e' _ _ ⟨-,h⟩
      exact ⟨h,e',rfl⟩
  | unwritten hs hnone hopens hkept =>
    have hs₁ : l₁.session = ⟨some ⟨row,false,true⟩,[],[],false,false⟩ := by
      simp [l₁,hs,Session.rollback,Tracked.rolledBack]
    have hread : l₁.session.documentAttributes = .ok row := by
      rw [hs₁]
      rfl
    have hterms : ∀ {w'}, T.Kept w' → (Machine.calledStorage l₁).OnTerms T i w' := fun hkept' =>
      onTerms_of_nil hrun hopens hkept' (by show l₁.session.pending = []; rw [hs₁])
        (by show l₁.session.flushed = []; rw [hs₁])
    refine Prog.safe_op (Machine.handler_documentAttributes p hread) fun w₂ hw₂ => ?_
    have hnone₂ : w₂.db.documents (.drawn i 0) = none :=
      (LeavesFiles.row hw₂).mpr ((LeavesFiles.row hw₁).mpr hnone)
    have hkept₂ : T.Kept w₂ := LeavesFiles.kept hw₂ (LeavesFiles.kept hw₁ hkept)
    have hdelete : EndsOnTerms T p i label (deleteUpload row.filePath) l₁ w₂ := by
      refine Prog.safe_tryCatch (R := fun _ l w => l.OnTerms T i w) (Prog.safe_perform fun w₃ hw₃ => ?_)
        (fun _ _ _ h => h) fun _ _ _ h => pure_onTerms _ h
      have hkept₃ := LeavesFiles.kept hw₃ hkept₂
      cases hhead : l₁.env.storage.head with
      | some e =>
        have hop : Machine.handler p (.delete row.filePath) (l₁,w₃) = (.error e,Machine.calledStorage l₁,w₃) := by
          simp only [Machine.handler,Machine.delete,hhead]
          rfl
        exact ⟨_,_,_,hop,.inl rfl,fun w₄ hw₄ => hterms (LeavesFiles.kept hw₄ hkept₃)⟩
      | none =>
        have hop : Machine.handler p (.delete row.filePath) (l₁,w₃) =
            (.ok (),Machine.calledStorage l₁,w₃.act i (.delete row.filePath)) := by
          have hrun₁ : l₁.run = i := hrun
          simp only [Machine.handler,Machine.delete,hhead,hrun₁]
          rfl
        have hmay : MayFile T i label w₃ (.delete row.filePath) := ⟨hplace,(LeavesFiles.row hw₃).mpr hnone₂⟩
        exact ⟨_,_,_,hop,.inr ⟨_,hmay,rfl⟩,fun w₄ hw₄ => hterms (LeavesFiles.kept hw₄ (hmay.kept hkept₃))⟩
    exact Prog.safe_bind hdelete (fun _ _ _ h => Prog.safe_done fun _ hw => ⟨h.rely hw,e,rfl⟩)
      fun e' _ _ h => ⟨h,e',rfl⟩

/-- The file of an upload is saved, or nothing is. -/
theorem prepare_filing (hfits : T.Fits c) {filename : String} {status : DocumentStatus}
    (huploads : label.Uploads filename content) (hopens : (Local.start i env).Opens T)
    (hnone : w.db.documents (.drawn i 0) = none) (hkept : T.Kept w) :
    (prepareDocument content filename status).Safe (Machine.handler p) (filing T) i label (fun r l' w' => l'.run = i ∧
      l'.session = .new ∧ l'.Opens T ∧ T.Kept w' ∧ ∀ intake, r = .ok intake →
        FileSaved T i label intake.document content w' ∧ T.Reads intake.document intake.pagesText)
      (Local.start i env) w := by
  refine Prog.safe_op (fun _ => rfl) fun w₁ hw₁ => ?_
  have hnone₁ := (LeavesFiles.row hw₁).mpr hnone
  have hkept₁ := LeavesFiles.kept hw₁ hkept
  set l₁ : Local := { Local.start i env with drawn := 1 }
  set l₂ : Local := { l₁ with env := { env with openPdf := env.openPdf.tail } }
  have hopens₂ : l₂.Opens T := fun n content file h => hopens (n + 1) content file h
  refine Prog.safe_bind (R := fun r l' w' => (w'.db.documents (.drawn i 0) = none ∧ T.Kept w') ∧ l' = l₂ ∧
      ∀ pdf, r = .ok pdf → ∃ file, T.opens content file ∧ parsedPdf filename file = .ok pdf)
    (Prog.Calm.safe (parsePdf_calm content filename l₁) fun r l' w' hw h => ⟨?_,h.2,fun pdf hpdf => ?_⟩) ?_ ?_
  · exact ⟨(LeavesFiles.row hw).mpr hnone₁,LeavesFiles.kept hw hkept₁⟩
  · obtain ⟨file,hfile,hparsed⟩ := bind_eq_ok (h.1.symm.trans hpdf)
    exact ⟨file,hopens 0 content file hfile,hparsed⟩
  · rintro pdf _ w₂ ⟨⟨hnone₂,hkept₂⟩,rfl,hpdf⟩
    obtain ⟨file,hfile,hparsed⟩ := hpdf pdf rfl
    set path := storagePath (Uuid.drawn i 0).str filename
    refine Prog.safe_bind (R := fun r l' w' => (l' = Machine.calledStorage l₂ ∧ T.Kept w') ∧ ∀ path', r = .ok path' →
      path' = path ∧ w'.files path = some content ∧ (i,.save path content) ∈ w'.log ∧
        w'.db.documents (.drawn i 0) = none) (Prog.safe_perform fun w₃ hw₃ => ?_) ?_ ?_
    · have hnone₃ := (LeavesFiles.row hw₃).mpr hnone₂
      have hkept₃ := LeavesFiles.kept hw₃ hkept₂
      cases hhead : env.storage.head with
      | some e =>
        have hop : Machine.handler p (.save (Uuid.drawn i 0).str content filename) (l₂,w₃) =
            (.error e,Machine.calledStorage l₂,w₃) := by
          simp only [Machine.handler,Machine.save,l₂,hhead]
          rfl
        exact ⟨_,_,_,hop,.inl rfl,fun w₄ hw₄ => ⟨⟨rfl,LeavesFiles.kept hw₄ hkept₃⟩,fun _ h => by cases h⟩⟩
      | none =>
        have hop : Machine.handler p (.save (Uuid.drawn i 0).str content filename) (l₂,w₃) =
            (.ok path,Machine.calledStorage l₂,w₃.act i (.save path content)) := by
          simp only [Machine.handler,Machine.save,l₂,hhead]
          rfl
        have hmay : MayFile T i label w₃ (.save path content) := ⟨rfl,hnone₃⟩
        refine ⟨_,_,_,hop,.inr ⟨_,hmay,rfl⟩,fun w₄ hw₄ => ⟨⟨rfl,LeavesFiles.kept hw₄ (hmay.kept hkept₃)⟩,?_⟩⟩
        rintro _ ⟨⟩
        refine ⟨rfl,?_,LeavesFiles.log hw₄ _ ?_,(LeavesFiles.row hw₄).mpr hnone₃⟩
        · rw [LeavesFiles.files hw₄ path rfl]
          exact Function.update_self ..
        · rw [log_act]
          exact List.mem_append_right _ (List.mem_singleton_self _)
    · rintro path' _ w₃ ⟨⟨rfl,hkept₃⟩,h⟩
      obtain ⟨rfl,hsave,hlog,hnone₃⟩ := h path' rfl
      refine Prog.safe_op (fun _ => rfl) fun w₄ hw₄ => Prog.safe_done fun w₅ hw₅ =>
        ⟨rfl,rfl,hopens₂,LeavesFiles.kept hw₅ (LeavesFiles.kept hw₄ hkept₃),?_⟩
      rintro _ ⟨⟩
      have hterms := hfits.document (.drawn i 0) path status env.now.head hfile hparsed
      have hsaved : FileSaved T i label ⟨.drawn i 0,filename,path,content.length,pdf.pageCount,status,env.now.head⟩
          content w₃ := ⟨rfl,⟨hsave,rfl,rfl⟩,hterms,huploads,hlog,hnone₃,hkept₃⟩
      exact ⟨(hsaved.rely hw₄).rely hw₅,content,file,filename,pdf,hterms,hfile,hparsed,rfl⟩
    · rintro e _ w₃ ⟨⟨rfl,hkept₃⟩,-⟩
      exact ⟨rfl,rfl,hopens₂,hkept₃,fun _ h => by cases h⟩
  · rintro e _ w₂ ⟨⟨-,hkept₂⟩,rfl,-⟩
    exact ⟨rfl,rfl,hopens₂,hkept₂,fun _ h => by cases h⟩

/-- An upload, whatever is done with the document that it leaves. -/
theorem upload_filing {α : Type} {k : DocumentIntakeResult → ServiceProg α} {filename : String}
    {status : DocumentStatus} {Q : α → Local → World → Prop} (hfits : T.Fits c) (huploads : label.Uploads filename content)
    (hopens : (Local.start i env).Opens T) (hnone : w.db.documents (.drawn i 0) = none) (hkept : T.Kept w)
    (hk : ∀ intake l w, intake.document.id = .drawn i 0 → l.Works T i (.drawn i 0) intake.pagesText w →
      EndsIn T p i label Q (k intake) l w) :
    EndsIn T p i label Q
      (do
        let intake ← prepareDocument content filename status
        tryCatch (createDocument intake.document) undoUpload
        k intake) (Local.start i env) w := by
  refine Prog.safe_bind (prepare_filing hfits huploads hopens hnone hkept) ?_ ?_
  · rintro intake l₁ w₁ ⟨hrun,hnew,hopens₁,-,h⟩
    obtain ⟨hsaved,hreads⟩ := h intake rfl
    have hid : intake.document.id = .drawn i 0 := hsaved.id
    refine Prog.safe_bind (R := fun r l w => l.OnTerms T i w ∧
      (r = .ok () → l.Works T i (.drawn i 0) intake.pagesText w)) ?_ (fun _ l w h => hk intake l w hid (h.2 rfl))
      fun _ _ _ h => ⟨h.1,fun _ ha => by cases ha⟩
    refine Prog.safe_tryCatch (createDocument_filing hnew hrun hopens₁ hsaved) ?_ ?_
    · rintro _ l₂ w₂ ⟨-,hend⟩
      cases hend with
      | created hterms hon hrow =>
        obtain ⟨status',hrow⟩ := hrow
        rw [hid] at hon hrow
        exact ⟨hterms,fun _ => ⟨hterms,hon,_,hrow,hreads.with status'⟩⟩
    · rintro e l₂ w₂ ⟨hrun₂,hend⟩
      refine Prog.Safe.mono (undo_filing hsaved.own hrun₂ hend) fun r l w h => ⟨h.1,fun hok => ?_⟩
      obtain ⟨e',he⟩ := h.2
      cases he.symm.trans hok
  · rintro e l₁ w₁ ⟨hrun,hnew,hopens₁,hkept₁,-⟩
    exact ⟨onTerms_of_nil hrun hopens₁ hkept₁ (by rw [hnew]; rfl) (by rw [hnew]; rfl),fun _ ha => by cases ha⟩

end Uploads

section Existing
variable {T : Terms} {c : Config} {i : ℕ} {label : Label} {l : Local} {w w' : World} {id : Uuid} {pages : List String}

/-- The session has a durable document of this id. -/
structure Local.Holds (T : Terms) (i : ℕ) (id : Uuid) (l : Local) (w : World) : Prop extends l.OnTerms T i w where
  grounded : l.session.Grounded w
  on : ∀ t, l.session.document = some t → t.attributes.id = id

theorem Local.Holds.rely (h : l.Holds T i id w) (hw : LeavesFiles T i w w') : l.Holds T i id w' :=
  ⟨h.toOnTerms.rely hw,h.grounded.world hw.documents,h.on⟩

theorem handler_holds {op : ServiceOp} (label : Label) (hop : Steady op) (h : l.Holds T i id w) :
    (Machine.handler c.processor op (l,w)).2.1.Holds T i id (Machine.handler c.processor op (l,w)).2.2 := by
  have hstepped := quiet_stepped (p := c.processor) label hop.quiet h.toOnTerms
  have hf := quiet_follows (p := c.processor) hop.quiet (fun _ hne => by rw [hne] at hop; exact hop)
    (fun hne => by rw [hne] at hop; exact hop) l w
  refine ⟨hstepped.onTerms,hstepped.grounded h.grounded,fun t' ht' => ?_⟩
  obtain ⟨t,status,ht,heq⟩ := hf.document t' ht'
  rw [heq]
  exact h.on t ht

theorem steady_holds {α : Type} {q : ServiceProg α} (hq : q.Only Steady) (h : l.Holds T i id w) :
    q.Safe (Machine.handler c.processor) (filing T) i label (fun _ l w => l.Holds T i id w) l w :=
  hq.safe (I := fun l w => l.Holds T i id w) (fun _ _ _ h hw => h.rely hw)
    (fun _ _ _ hop h => quiet_guar hop.quiet h.toOnTerms) (fun _ _ _ hop h => handler_holds label hop h) h

/-- One steady operation, and what its answer says of the document. -/
theorem holds_op (op : ServiceOp) (hop : Steady op) (h : l.Holds T i id w) {Q : Except Exc op.Reply → World → Prop}
    (hQ : ∀ w₁, LeavesFiles T i w w₁ → l.Holds T i id w₁ →
      Q (Machine.handler c.processor op (l,w₁)).1 (Machine.handler c.processor op (l,w₁)).2.2)
    (hrely : ∀ {r w w'}, Q r w → LeavesFiles T i w w' → Q r w') :
    (perform op).Safe (Machine.handler c.processor) (filing T) i label (fun r l w => l.Holds T i id w ∧ Q r w) l w := by
  intro w₁ hw₁
  have h₁ := h.rely hw₁
  exact ⟨quiet_guar hop.quiet h₁.toOnTerms,fun w₂ hw₂ =>
    ⟨(handler_holds label hop h₁).rely hw₂,hrely (hQ w₁ hw₁ h₁) hw₂⟩⟩

/-- A document that was found is in the session. -/
theorem selectDocument_holds (id : Uuid) (h : l.OnTerms T i w) :
    (perform (.selectDocument id)).Safe (Machine.handler c.processor) (filing T) i label
      (fun r l w => l.OnTerms T i w ∧ ∀ row, r = .ok (some row) → l.Holds T i id w) l w := by
  intro w₁ hw₁
  have h₁ := h.rely hw₁
  refine ⟨quiet_guar trivial h₁,fun w₂ hw₂ => ?_⟩
  have hend : (Machine.handler c.processor (.selectDocument id) (l,w₁)).2.1.OnTerms T i w₁ :=
    (selectDocument_stepped id h₁).onTerms
  have hcall := begun_follows l
  simp only [Machine.handler,Machine.selectDocument] at hend hw₂ ⊢
  generalize l.call _ = q at hcall hend hw₂ ⊢
  rcases q with ⟨_ | _,l₁⟩
  · exact ⟨hend.rely hw₂,fun row hrow => by cases hrow⟩
  · refine ⟨hend.rely hw₂,fun row hrow => Local.Holds.rely ⟨hend,fun t ht => ?_,fun t ht => ?_⟩ hw₂⟩
    all_goals
      obtain ⟨row',hrow',rfl⟩ := Option.map_eq_some_iff.mp ht
    · exact view_grounded (h₁.follows hcall) hrow'
    · exact (Machine.view l₁ w₁).keyed hrow'

/-- What the session has of the document is a durable row, up to the status. -/
theorem attributes_holds (h : l.Holds T i id w) :
    (perform .documentAttributes).Safe (Machine.handler c.processor) (filing T) i label (fun r l w => l.Holds T i id w ∧
      ∀ d, r = .ok d → ∃ row status, w.db.documents id = some row ∧ d = row.with status) l w := by
  refine holds_op .documentAttributes trivial h (fun w₁ _ h₁ d hd => ?_) fun {r w w'} hQ hw d hd => ?_
  · change l.session.documentAttributes = .ok d at hd
    unfold Session.documentAttributes at hd
    cases ht : l.session.document with
    | none => rw [ht] at hd; cases hd
    | some t =>
      rw [ht] at hd
      dsimp only at hd
      split at hd
      · cases hd
      · cases hd
        obtain ⟨row,status,hrow,heq⟩ := h₁.grounded t ht
        exact ⟨row,status,h₁.on t ht ▸ hrow,heq⟩
  · obtain ⟨row,status,hrow,rfl⟩ := hQ d hd
    obtain ⟨status',hrow'⟩ := hw.documents _ row hrow
    exact ⟨row.with status',status,hrow',rfl⟩

/-- The bytes that are loaded are those that the document is on terms with. -/
theorem load_holds {row : Document} (label : Label) (hrow : ∃ status, w.db.documents id = some (row.with status))
    (h : l.Holds T i id w) : (perform (.load row.filePath)).Safe (Machine.handler c.processor) (filing T) i label
      (fun r l w => l.Holds T i id w ∧ ∀ content, r = .ok content →
        ∃ row, w.db.documents id = some row ∧ T.document row content) l w := by
  refine holds_op (.load row.filePath) trivial h (fun w₁ hw₁ h₁ content hcontent => ?_)
    fun {r w w'} hQ hw content hcontent => ?_
  · obtain ⟨status,hrow⟩ := hrow
    obtain ⟨status',hrow₁⟩ := hw₁.documents _ _ hrow
    obtain ⟨content',hfiled,hterms⟩ := h₁.kept id _ hrow₁
    have hfile : w₁.files row.filePath = some content' := hfiled.file
    simp only [Machine.handler,Machine.load,hfile] at hcontent ⊢
    cases hhead : l.env.storage.head with
    | some e => rw [hhead] at hcontent; cases hcontent
    | none => rw [hhead] at hcontent; cases hcontent; exact ⟨_,hrow₁,hterms⟩
  · obtain ⟨row,hrow,hterms⟩ := hQ content hcontent
    obtain ⟨status',hrow'⟩ := hw.documents _ row hrow
    exact ⟨_,hrow',T.document_with status' hterms⟩

/-- The pages of a document that is on terms with its file. -/
theorem loadDocument_works (h : l.Holds T i id w) :
    loadDocument.Safe (Machine.handler c.processor) (filing T) i label
      (fun r l w => l.OnTerms T i w ∧ ∀ pages, r = .ok pages → l.Works T i id pages w) l w := by
  refine Prog.safe_bind (attributes_holds h) (fun d l w h => ?_) fun _ _ _ h => ⟨h.1.toOnTerms,fun _ h => by cases h⟩
  obtain ⟨row,status,hrow,rfl⟩ := h.2 d rfl
  have hload := load_holds (c := c) label ⟨row.status,by rw [Document.with_self rfl]; exact hrow⟩ h.1
  refine Prog.safe_bind hload (fun content l w h => ?_) fun _ _ _ h => ⟨h.1.toOnTerms,fun _ h => by cases h⟩
  obtain ⟨h,hcontent⟩ := h
  refine Prog.safe_bind (R := fun r l w => l.Holds T i id w ∧ ∀ pdf, r = .ok pdf →
    ∃ row, w.db.documents id = some row ∧ T.Reads row pdf.pagesText) ?_ (fun pdf l w h => ?_)
    fun _ _ _ h => ⟨h.1.toOnTerms,fun _ h => by cases h⟩
  · refine Prog.safe_bind (R := fun r l w => l.Holds T i id w ∧ ∀ file, r = .ok file → ∃ row content,
      w.db.documents id = some row ∧ T.document row content ∧ T.opens content file)
      (holds_op (.openPdf content) trivial h (fun w₁ hw₁ h₁ file hfile => ?_) fun {r w w'} hQ hw file hfile => ?_)
      (fun file l w h => Prog.safe_done fun w' hw => ⟨h.1.rely hw,fun pdf hpdf => ?_⟩)
      fun _ _ _ h => ⟨h.1,fun _ h => by cases h⟩
    · obtain ⟨row,hrow,hterms⟩ := hcontent content rfl
      obtain ⟨status',hrow'⟩ := hw₁.documents _ row hrow
      exact ⟨_,content,hrow',T.document_with status' hterms,h₁.opens 0 content file hfile⟩
    · obtain ⟨row,content,hrow,hterms,hopens⟩ := hQ file hfile
      obtain ⟨status',hrow'⟩ := hw.documents _ row hrow
      exact ⟨_,content,hrow',T.document_with status' hterms,hopens⟩
    · obtain ⟨row,content,hrow,hterms,hopens⟩ := h.2 file rfl
      obtain ⟨status',hrow'⟩ := LeavesFiles.documents hw _ row hrow
      exact ⟨_,hrow',content,file,_,pdf,T.document_with status' hterms,hopens,hpdf,rfl⟩
  · refine Prog.safe_done fun w' hw => ⟨(h.1.rely hw).toOnTerms,fun pages hpages => ?_⟩
    cases hpages
    have h' : l.Holds T i id w' := h.1.rely hw
    obtain ⟨row,hrow,hreads⟩ := h.2 pdf rfl
    obtain ⟨status',hrow'⟩ := LeavesFiles.documents hw _ row hrow
    exact ⟨h'.toOnTerms,h'.on,_,hrow',hreads.with status'⟩

/-- Work on an existing document ends on terms. -/
theorem processExistingInline_onTerms (hfits : T.Fits c) (documentId : Uuid) (docType strategy : Option String)
    (h : l.OnTerms T i w) :
    EndsOnTerms T c.processor i label (processExistingInline c documentId docType strategy) l w := by
  refine Prog.safe_bind (selectDocument_holds documentId h) (fun found l w h => ?_) fun _ _ _ h => h.1
  cases found with
  | none => exact pure_onTerms _ h.1
  | some row =>
    have hfailed : ∀ e : Exc, (do
        setStatus .failed
        perform .commit
        throw e : ServiceProg ExtractResponse).Only Quiet := fun e =>
      .bind ((setStatus_steady _).mono (fun _ h => h.quiet) fun _ h => h) fun _ =>
        .bind (Prog.only_perform trivial) fun _ => trivial
    refine Prog.safe_bind (steady_holds (Prog.only_perform trivial) (h.2 row rfl)) (fun _ l w h => ?_)
      fun _ _ _ h => h.toOnTerms
    refine Prog.safe_bind (steady_holds (setDocumentStatus_steady _) h) (fun _ l w h => ?_) fun _ _ _ h => h.toOnTerms
    refine Prog.safe_tryCatch (R := fun _ l w => l.OnTerms T i w) (Prog.safe_bind (loadDocument_works h)
      (fun pages l w h => ?_) fun _ _ _ h => h.1) (fun _ _ _ h => h) fun e l w h => quiet_safe (hfailed e) h
    exact (processDocumentPages_onTerms hfits _ _ (h.2 pages rfl)).mono fun _ _ _ h => h.1

end Existing

def Answer.documentId : Answer → Uuid
  | .extract response => response.documentId
  | .async documentId _ => documentId

/-- The answer to the upload of run `i`: it is about the document of the upload, which is durable, and
when it is asynchronous its job has been delivered. -/
structure Answer.OfUpload (i : ℕ) (docType : Option String) (strategy : Option ExtractionStrategy) (answer : Answer)
    (w : World) : Prop where
  document : answer.documentId = .drawn i 0
  row : ∃ row, w.db.documents (.drawn i 0) = some row
  job : ∀ id jobId, answer = .async id jobId →
    (i,.enqueue ⟨(Uuid.drawn i 0).str,docType,strategy.map ExtractionStrategy.value,i⟩) ∈ w.log

section Programs
variable {T : Terms} {c : Config} {i : ℕ} {label : Label} {l : Local} {w w' : World} {env : Env} {content : Bytes}
variable {pages : List String}

theorem Answer.OfUpload.rely {docType : Option String} {strategy : Option ExtractionStrategy} {answer : Answer}
    (h : answer.OfUpload i docType strategy w) (hw : LeavesFiles T i w w') : answer.OfUpload i docType strategy w' := by
  obtain ⟨row,hrow⟩ := h.row
  obtain ⟨status,hrow'⟩ := hw.documents _ row hrow
  exact ⟨h.document,⟨_,hrow'⟩,fun id jobId heq => hw.log _ (h.job id jobId heq)⟩

theorem Local.Works.exists_row {id : Uuid} (h : l.Works T i id pages w) : ∃ row, w.db.documents id = some row := by
  obtain ⟨row,hrow,-⟩ := h.reads
  exact ⟨row,hrow⟩

/-- A response about the run's own document answers the upload. -/
theorem Responds.answers {response : ExtractResponse} (h : Responds T i (.drawn i 0) pages response l w)
    (asyncMode : Bool) (docType : Option String) (strategy : Option ExtractionStrategy) :
    EndsIn T c.processor i label (fun answer _ w => answer.OfUpload i docType strategy w)
      (pure (inlineAnswer asyncMode response)) l w := by
  refine Prog.safe_done fun w' hw => ⟨(h.2.rely hw).toOnTerms,fun answer ha => ?_⟩
  cases ha
  refine ⟨?_,(h.2.rely hw).exists_row,fun _ _ heq => by cases heq⟩
  rw [← h.1]
  cases asyncMode <;> rfl

/-- Rolling back, and raising again. -/
theorem rethrow_onTerms {α : Type} {Q : α → Local → World → Prop} (e : Exc) (h : l.OnTerms T i w) :
    EndsIn T c.processor i label Q (do
      perform .rollback
      throw e) l w :=
  Prog.safe_bind (quiet_safe (Prog.only_perform trivial) h) (fun _ _ _ h => throw_in e h) fun _ _ _ h =>
    ⟨h,fun _ ha => by cases ha⟩

/-- A job that was delivered is in the log. -/
theorem enqueue_works {id : Uuid} (documentId : UuidText) (docType strategy : Option String)
    (h : l.Works T i id pages w) : (perform (.enqueueJob documentId docType strategy)).Safe (Machine.handler c.processor)
      (filing T) i label (fun r l w => l.Works T i id pages w ∧ ∀ jobId, r = .ok jobId →
        (i,.enqueue ⟨documentId,docType,strategy,i⟩) ∈ w.log) l w := by
  intro w₁ hw₁
  have h₁ := h.rely hw₁
  have hsteady : Steady (.enqueueJob documentId docType strategy) := trivial
  refine ⟨quiet_guar hsteady.quiet h₁.toOnTerms,fun w₂ hw₂ =>
    ⟨(steady_works label hsteady h₁).rely hw₂,fun jobId hj => ?_⟩⟩
  refine LeavesFiles.log hw₂ _ ?_
  simp only [Machine.handler,Machine.enqueueJob] at hj ⊢
  cases hhead : l.env.enqueue.head with
  | error e =>
    rw [hhead] at hj
    cases hj
  | ok jobId' =>
    dsimp only
    rw [log_act,h₁.run]
    exact List.mem_append_right _ (List.mem_singleton_self _)

theorem enqueueOrProcess_onTerms (hfits : T.Fits c) (docType : Option String) (strategy : Option ExtractionStrategy)
    {intake : DocumentIntakeResult} (h : l.Works T i (.drawn i 0) intake.pagesText w) :
    EndsIn T c.processor i label (fun answer _ w => answer.OfUpload i docType strategy w)
      (enqueueOrProcess c intake docType strategy) l w := by
  refine Prog.safe_tryCatch (R := fun r l w => l.Works T i (.drawn i 0) intake.pagesText w ∧
    ∀ answer, r = .ok answer → answer.OfUpload i docType strategy w) ?_
    (fun _ _ _ h => ⟨h.1.toOnTerms,h.2⟩) fun e l w h => ?_
  · refine Prog.safe_bind (attributes_works (F := fun _ => True) (fun _ _ => trivial) h trivial)
      (fun document l w h => ?_) fun _ _ _ h => ⟨h.1.1,fun _ ha => by cases ha⟩
    obtain ⟨⟨h,-⟩,hid⟩ := h
    rw [hid document rfl]
    refine Prog.safe_bind (enqueue_works _ _ _ h) (fun jobId l w h => ?_) fun _ _ _ h => ⟨h.1,fun _ ha => by cases ha⟩
    refine Prog.safe_bind (attributes_works (fun hlog hw => LeavesFiles.log hw _ hlog) h.1 (h.2 jobId rfl))
      (fun document l w h => ?_) fun _ _ _ h => ⟨h.1.1,fun _ ha => by cases ha⟩
    refine Prog.safe_done fun w' hw => ⟨h.1.1.rely hw,fun answer ha => ?_⟩
    cases ha
    exact ⟨h.2 document rfl,(h.1.1.rely hw).exists_row,fun _ _ _ => LeavesFiles.log hw _ h.1.2⟩
  · refine steady_bind (Prog.only_perform trivial) h.1 fun _ l w h => ?_
    exact ends_bind (processDocumentPages_onTerms hfits _ _ h) fun response l w _ h => h.answers true _ _

theorem extractUploadedDocument_onTerms (hfits : T.Fits c) {filename : String} (docType : Option String)
    (strategy : Option ExtractionStrategy) (asyncMode : Bool) (huploads : label.Uploads filename content)
    (hopens : (Local.start i env).Opens T) (hnone : w.db.documents (.drawn i 0) = none) (hkept : T.Kept w) :
    EndsIn T c.processor i label (fun answer _ w => answer.OfUpload i docType strategy w)
      (extractUploadedDocument c content filename docType strategy asyncMode) (Local.start i env) w := by
  unfold extractUploadedDocument
  split
  · refine ends_bind (R := fun response l w => ∃ pages, Responds T i (.drawn i 0) pages response l w)
      (upload_filing hfits huploads hopens hnone hkept fun intake l w _ h => ?_)
      fun response l w _ ⟨_,h⟩ => h.answers _ _ _
    refine steady_bind (Prog.only_perform trivial) h fun _ l w h => ?_
    refine Prog.safe_tryCatch (R := fun r l w => l.OnTerms T i w ∧
      ∀ response, r = .ok response → Responds T i (.drawn i 0) intake.pagesText response l w) ?_
      (fun _ _ _ h => ⟨h.1,fun response hr => ⟨_,h.2 response hr⟩⟩) fun e l w h => ?_
    · exact steady_bind (setDocumentStatus_steady _) h fun _ l w h => processDocumentPages_onTerms hfits _ _ h
    · exact rethrow_onTerms e h.1
  · exact upload_filing hfits huploads hopens hnone hkept fun intake l w _ h =>
      enqueueOrProcess_onTerms hfits docType strategy h

theorem extractExistingDocument_onTerms (hfits : T.Fits c) (documentId : Uuid) (docType : Option String)
    (strategy : Option ExtractionStrategy) (asyncMode : Bool) (h : l.OnTerms T i w) : EndsOnTerms T c.processor i label
      (extractExistingDocument c documentId docType strategy asyncMode) l w := by
  unfold extractExistingDocument
  split
  · refine quiet_safe (.bind (Prog.only_perform trivial) fun found => ?_) h
    cases found with
    | none => exact trivial
    | some row => exact .bind (Prog.only_perform trivial) fun _ => trivial
  · exact Prog.safe_bind (processExistingInline_onTerms hfits _ _ _ h) (fun _ _ _ h => pure_onTerms _ h) fun _ _ _ h => h

/-- A request keeps to the terms, and the answer to an upload is about it. -/
theorem extractDocument_onTerms (hfits : T.Fits c) (r : ExtractRequest) (hopens : (Local.start i env).Opens T)
    (hnone : w.db.documents (.drawn i 0) = none) (hkept : T.Kept w) :
    EndsIn T c.processor i ⟨.request r,env⟩
      (fun answer _ w => r.documentId = none → answer.OfUpload i r.docType r.strategy w)
      (extractDocument c r) (Local.start i env) w := by
  have hstart : (Local.start i env).OnTerms T i w := onTerms_of_nil rfl hopens hkept rfl rfl
  unfold extractDocument
  split
  · next content filename hcontent hfilename _ =>
    exact (extractUploadedDocument_onTerms hfits _ _ _ ⟨r,rfl,hcontent,hfilename⟩ hopens hnone hkept).mono
      fun _ _ _ h => ⟨h.1,fun answer ha _ => h.2 answer ha⟩
  · exact throw_in _ hstart
  · next id hid _ =>
    exact (extractExistingDocument_onTerms hfits _ _ _ _ hstart).mono
      fun _ _ _ h => ⟨h,fun _ _ hnone => by cases hid.symm.trans hnone⟩
  · exact throw_in _ hstart

/-- The answer stays true while the run goes on without new rows. -/
theorem Answer.OfUpload.handler {docType : Option String} {strategy : Option ExtractionStrategy} {answer : Answer}
    {op : ServiceOp} (label : Label) (hop : Quiet op) (hl : l.OnTerms T i w)
    (h : answer.OfUpload i docType strategy w) :
    answer.OfUpload i docType strategy (Machine.handler c.processor op (l,w)).2.2 := by
  rcases quiet_world (p := c.processor) label hop hl with hsame | ⟨a,hmay,hact⟩
  · rwa [hsame]
  · rw [hact]
    obtain ⟨row,hrow⟩ := h.row
    obtain ⟨status,hrow'⟩ := hmay.documents _ row hrow
    refine ⟨h.document,⟨_,hrow'⟩,fun id jobId heq => ?_⟩
    rw [log_act]
    exact List.mem_append_left _ (h.job id jobId heq)

/-- What a run that has ended says: an upload is answered with what is about it. -/
def AnswersUpload (i : ℕ) (label : Label) (r : Except Exc Answer) (w : World) : Prop :=
  ∀ request answer, label.source = .request request → request.documentId = none → r = .ok answer →
    answer.OfUpload i request.docType request.strategy w

theorem extractDocument_answers (hfits : T.Fits c) (r : ExtractRequest) (hopens : (Local.start i env).Opens T)
    (hnone : w.db.documents (.drawn i 0) = none) (hkept : T.Kept w) :
    (extractDocument c r).Safe (Machine.handler c.processor) (filing T) i ⟨.request r,env⟩
      (fun a l w => l.OnTerms T i w ∧ AnswersUpload i ⟨.request r,env⟩ a w) (Local.start i env) w := by
  refine (extractDocument_onTerms hfits r hopens hnone hkept).mono fun a l w h => ⟨h.1,?_⟩
  rintro request answer ⟨⟩ hid rfl
  exact h.2 answer rfl hid

/-- Every run keeps to the terms. -/
theorem programOf_onTerms (hfits : T.Fits c) (s : Source) (hopens : (Local.start i env).Opens T)
    (hnone : w.db.documents (.drawn i 0) = none) (hkept : T.Kept w) :
    (programOf c s).Safe (Machine.handler c.processor) (filing T) i ⟨s,env⟩
      (fun a l w => l.OnTerms T i w ∧ AnswersUpload i ⟨s,env⟩ a w) (Local.start i env) w := by
  have hstart : (Local.start i env).OnTerms T i w := onTerms_of_nil rfl hopens hkept rfl rfl
  cases s with
  | worker job =>
    have hworker : T.Fits { c with pool := false } := ⟨hfits.document,hfits.success,hfits.failure⟩
    exact (Prog.safe_map (processExistingInline_onTerms hworker _ _ _ hstart)).mono
      fun _ _ _ h => ⟨h,fun _ _ heq => by cases heq⟩
  | request r =>
    refine getDb_safe (extractDocument_answers hfits r hopens hnone hkept) ?_ (fun answer l w h => ?_) fun a l w h => ?_
    · exact fun a l w w' h hw => ⟨h.1.rely hw,fun request answer hs hid ha => (h.2 request answer hs hid ha).rely hw⟩
    · have hcommit : Quiet .commit := trivial
      have hstepped := quiet_stepped (p := c.processor) ⟨.request r,env⟩ hcommit h.1
      refine ⟨quiet_guar (p := c.processor) hcommit h.1,hstepped.onTerms,fun request answer' hs hid ha => ?_⟩
      exact (h.2 request answer' hs hid ha).handler (c := c) ⟨.request r,env⟩ hcommit h.1
    · have hrollback : Quiet .rollback := trivial
      exact ⟨(quiet_stepped (p := c.processor) ⟨.request r,env⟩ hrollback h.1).onTerms,h.2⟩

end Programs

section Pools
variable {T : Terms} {c : Config} {w₀ : World} {p : ServicePool}

/-- A run of its own arrives, or an upload whose session nobody commits at the end. -/
inductive Comes (c : Config) (p : ServicePool) : ServiceThread → World → Prop
  | run {t : ServiceThread} {g : World} (h : Arrives c p t g) : Comes c p t g
  | item {r : ExtractRequest} {env : Env} :
      Comes c p ⟨⟨.request r,env⟩,extractDocument c r,.start p.threads.length env⟩ p.shared

/-- A run comes that may read only what the terms allow. -/
def ComesReading (T : Terms) (c : Config) (p : ServicePool) (t : ServiceThread) (g : World) : Prop :=
  Comes c p t g ∧ t.loc.Opens T

/-- A request of the pool uploaded the content with the row, and saved it. -/
def UploadedBy (p : ServicePool) (i : ℕ) (row : Document) (content : Bytes) : Prop :=
  ∃ t, p.threads[i]? = some t ∧ t.label.Uploads row.filename content ∧ (i,.save row.filePath content) ∈ p.shared.log

/-- Behind every row is its file, and behind a new one the content of a request; new extractions are
on terms. -/
structure AllOnTerms (T : Terms) (w₀ : World) (p : ServicePool) : Prop where
  documents : ∀ id row, p.shared.db.documents id = some row → ∃ content, row.Filed p.shared.files content ∧
    T.document row content ∧ ∀ i n, id = .drawn i n → UploadedBy p i row content
  extractions : ∀ x ∈ p.shared.db.extractions, x ∈ w₀.db.extractions ∨ T.extraction p.shared.db x

theorem AllOnTerms.kept (h : AllOnTerms T w₀ p) : T.Kept p.shared := fun id row hrow => by
  obtain ⟨content,hfiled,hterms,-⟩ := h.documents id row hrow
  exact ⟨content,hfiled,hterms⟩

/-- The upload of a row is not forgotten. -/
theorem UploadedBy.act {i j : ℕ} {row : Document} {content : Bytes} (h : UploadedBy p j row content) (a : Action) :
    UploadedBy ⟨p.threads,p.shared.act i a⟩ j row content := by
  obtain ⟨u,hu,huploads,hlog⟩ := h
  refine ⟨u,hu,huploads,?_⟩
  show (j,_) ∈ (p.shared.act i a).log
  rw [log_act]
  exact List.mem_append_left _ hlog

/-- An action of a run keeps all rows on terms. -/
theorem AllOnTerms.act {i : ℕ} {t : ServiceThread} {a : Action} (h : AllOnTerms T w₀ p) (ht : p.threads[i]? = some t)
    (hmay : MayFile T i t.label p.shared a) : AllOnTerms T w₀ ⟨p.threads,p.shared.act i a⟩ := by
  have hother : ∀ {id row} {path : StoragePath}, path.fileId = (Uuid.drawn i 0).str →
      p.shared.db.documents (.drawn i 0) = none → p.shared.db.documents id = some row → path.fileId ≠ row.id.str := by
    intro id row path hown hnone hrow hpath
    rw [p.shared.db.keyed hrow,hown] at hpath
    cases hpath
    cases hnone.symm.trans hrow
  refine ⟨fun id row hrow => ?_,fun x hx => ?_⟩
  · cases a with
    | commit changes =>
      obtain ⟨row',status,rfl,hold | ⟨hmem,hid⟩⟩ := documents_applyAll_from hrow
      · obtain ⟨content,hfiled,hterms,huploaded⟩ := h.documents id row' hold
        exact ⟨content,hfiled.with status,T.document_with status hterms,fun j n heq => (huploaded j n heq).act _⟩
      · obtain ⟨hid',-,content,hfiled,hterms,huploads,hlog⟩ := hmay.1 row' hmem
        refine ⟨content,hfiled.with status,T.document_with status hterms,fun j n heq => ?_⟩
        cases heq.symm.trans (hid.symm.trans hid')
        exact UploadedBy.act ⟨t,ht,huploads,hlog⟩ _
    | enqueue job =>
      obtain ⟨content,hfiled,hterms,huploaded⟩ := h.documents id row hrow
      exact ⟨content,hfiled,hterms,fun j n heq => (huploaded j n heq).act _⟩
    | save path content =>
      obtain ⟨content',hfiled,hterms,huploaded⟩ := h.documents id row hrow
      exact ⟨content',hfiled.update (hother hmay.1 hmay.2 hrow) _,hterms,fun j n heq => (huploaded j n heq).act _⟩
    | delete path =>
      obtain ⟨content',hfiled,hterms,huploaded⟩ := h.documents id row hrow
      exact ⟨content',hfiled.update (hother hmay.1 hmay.2 hrow) _,hterms,fun j n heq => (huploaded j n heq).act _⟩
  · have hkept : ∀ x ∈ p.shared.db.extractions, x ∈ w₀.db.extractions ∨ T.extraction (p.shared.act i a).db x :=
      fun x hx => (h.extractions x hx).imp id (T.extraction_kept hmay.documents)
    rw [extractions_act] at hx
    obtain hx | hx := List.mem_append.mp hx
    · exact hkept x hx
    · cases a with
      | commit changes =>
        obtain ⟨change,hchange,hextraction⟩ := List.mem_filterMap.mp hx
        cases change <;> cases hextraction
        exact .inr (T.extraction_kept hmay.documents (hmay.2 x hchange))
      | _ => cases hx

theorem AllOnTerms.set {i : ℕ} {t t' : ServiceThread} {w : World} (ht : p.threads[i]? = some t)
    (hlabel : t'.label = t.label) (h : AllOnTerms T w₀ ⟨p.threads,w⟩) : AllOnTerms T w₀ ⟨p.threads.set i t',w⟩ := by
  refine ⟨fun id row hrow => ?_,h.extractions⟩
  obtain ⟨content,hfiled,hterms,huploaded⟩ := h.documents id row hrow
  refine ⟨content,hfiled,hterms,fun j n heq => ?_⟩
  obtain ⟨u,hu,huploads,hlog⟩ := huploaded j n heq
  by_cases hij : i = j
  · subst hij
    obtain rfl := Option.some.inj (ht.symm.trans hu)
    exact ⟨t',List.getElem?_set_self (List.getElem?_eq_some_iff.mp ht).1,by rwa [Label.Uploads,hlabel],hlog⟩
  · exact ⟨u,by rwa [List.getElem?_set_ne hij],huploads,hlog⟩

/-- The rows of the database before are old and on terms with their files. -/
structure World.Filed (T : Terms) (w : World) : Prop where
  old : ∀ id row, w.db.documents id = some row → ∃ n, id = .old n
  kept : T.Kept w

/-- **What is on terms stays so.** From rows on terms, calls may fail and runs interleave as they
will; and uploads are answered with what is about them. -/
theorem allOnTerms_reachable (hfits : T.Fits c) (hw₀ : w₀.Filed T)
    (hp : Pool.Reachable (Machine.handler c.processor) (ComesReading T c) w₀ p) : AllOnTerms T w₀ p ∧
      ∀ (i : ℕ) (t : ServiceThread) r, p.threads[i]? = some t → t.prog = .done r → AnswersUpload i t.label r p.shared := by
  have hboth := Pool.reachable_induction (D := filing T)
    (Q := fun i label r l w => l.OnTerms T i w ∧ AnswersUpload i label r w) (I := AllOnTerms T w₀)
    ⟨fun id row hrow => ?_,fun x hx => .inl hx⟩ ?_ ?_ hp
  · refine ⟨hboth.1,fun i t r ht hdone => ?_⟩
    have hsafe := hboth.2 i t ht
    rw [hdone] at hsafe
    exact (hsafe p.shared (.refl i p.shared)).2
  · obtain ⟨content,hfiled,hterms⟩ := hw₀.kept id row hrow
    refine ⟨content,hfiled,hterms,fun i n heq => ?_⟩
    obtain ⟨m,hm⟩ := hw₀.old id row hrow
    cases heq.symm.trans hm
  · rintro p i t op k h - ht - - (hsame | ⟨a,hmay,hact⟩)
    · rw [hsame]
      exact AllOnTerms.set ht rfl h
    · rw [hact]
      exact AllOnTerms.set ht rfl (h.act ht hmay)
  · rintro p t g h - ⟨ht,hopens⟩
    have hnone : p.shared.db.documents (.drawn p.threads.length 0) = none :=
      Option.eq_none_iff_forall_ne_some.mpr fun row hrow => by
        obtain ⟨_,-,-,huploaded⟩ := h.documents _ row hrow
        obtain ⟨u,hu,-⟩ := huploaded _ _ rfl
        cases (List.getElem?_eq_none (Nat.le_refl _)).symm.trans hu
    have hstarted : g.db = p.shared.db ∧ g.files = p.shared.files ∧ g.log = p.shared.log := by
      obtain ⟨_ | _⟩ | _ := ht <;> exact ⟨rfl,rfl,rfl⟩
    obtain ⟨hdb,hfiles,hlog⟩ := hstarted
    have hleaves : ∀ i, LeavesFiles T i p.shared g := fun i => .of_eq hdb hfiles hlog
    refine ⟨hleaves,?_,fun id row hrow => ?_,fun x hx => ?_⟩
    · have hkept : T.Kept g := (hleaves 0).kept h.kept
      obtain ⟨_ | _⟩ | _ := ht
      · exact programOf_onTerms hfits (.request _) hopens hnone hkept
      · exact programOf_onTerms hfits (.worker _) hopens hnone hkept
      · exact extractDocument_answers hfits _ hopens hnone hkept
    · obtain ⟨content,hfiled,hterms,huploaded⟩ := h.documents id row (hdb ▸ hrow)
      refine ⟨content,hfiles.symm ▸ hfiled,hterms,fun i n heq => ?_⟩
      obtain ⟨u,hu,huploads,hmem⟩ := huploaded i n heq
      refine ⟨u,?_,huploads,hlog.symm ▸ hmem⟩
      rw [List.getElem?_append_left (List.getElem?_eq_some_iff.mp hu).1]
      exact hu
    · have hx' : x ∈ p.shared.db.extractions := hdb ▸ hx
      exact (h.extractions x hx').imp id fun hterms => hdb.symm ▸ hterms

end Pools

end StructuredExtractor
