import StructuredExtractor.Service.Answers
import StructuredExtractor.Service.Files

/-! # Rows on terms

Requests and workers side by side, where any call may fail, those of the database and of
the storage too. A run writes and deletes the file of its own upload only, and deletes it
only while the row of the upload is not durable. So behind every row is the file that was
uploaded with it, and whatever else is asked of a document and its file, and of an
extraction and its document, stays true once a run has seen to it.
-/
namespace StructuredExtractor
open Service

/-- The run is a request that uploads the content under the name. -/
def Label.Uploads (label : Label) (filename : String) (content : Bytes) : Prop :=
  ∃ r, label.source = .request r ∧ r.content = some content ∧ r.filename = some filename

/-- The file of a row is there, in its own directory and with the length that the row states. -/
structure Document.Filed (row : Document) (files : StoragePath → Option Bytes) (content : Bytes) : Prop where
  file : files row.filePath = some content
  place : row.filePath = storagePath row.id.str row.filename
  size : row.fileSizeBytes = content.length

/-- Documents stay, up to their status. -/
def Database.KeepsDocuments (db db' : Database) : Prop :=
  ∀ id row, db.documents id = some row → ∃ status, db'.documents id = some (row.with status)

/-- What is asked of the rows: of a document with the bytes that it was uploaded with, and of an
extraction. -/
structure Terms where
  /-- What `pymupdf` may make of the bytes. -/
  opens : Bytes → PdfFile → Prop
  document : Document → Bytes → Prop
  extraction : Database → Extraction → Prop
  document_with : ∀ {row content} (status : DocumentStatus), document row content → document (row.with status) content
  extraction_kept : ∀ {db db' x}, db.KeepsDocuments db' → extraction db x → extraction db' x

/-- Every row is on terms, with its file. -/
def Terms.Kept (T : Terms) (w : World) : Prop :=
  ∀ id row, w.db.documents id = some row → ∃ content, row.Filed w.files content ∧ T.document row content

/-- What run `i` may do: write or delete in the directory of its own upload as long as there is
no row of it, make that row durable once its file is there, and extractions that are on terms. -/
def MayFile (T : Terms) (i : ℕ) (label : Label) (w : World) : Action → Prop
  | .save path _ => path.fileId = (Uuid.drawn i 0).str ∧ w.db.documents (.drawn i 0) = none
  | .delete path => path.fileId = (Uuid.drawn i 0).str ∧ w.db.documents (.drawn i 0) = none
  | .commit changes => (∀ row, .insertDocument row ∈ changes → row.id = .drawn i 0 ∧ w.db.documents row.id = none ∧
      ∃ content, row.Filed w.files content ∧ T.document row content ∧ label.Uploads row.filename content ∧
        (i,.save row.filePath content) ∈ w.log) ∧
      ∀ x, .insertExtraction x ∈ changes → T.extraction w.db x
  | .enqueue _ => True

section Changes

/-- A document comes from a row that was there or is inserted, up to its status. -/
theorem documents_applyAll_from {db : Database} {id : Uuid} {row : Document} {cs : List Change}
    (h : (db.applyAll cs).documents id = some row) : ∃ row' status, row = row'.with status ∧
      (db.documents id = some row' ∨ (.insertDocument row' ∈ cs ∧ row'.id = id)) := by
  induction cs generalizing db with
  | nil => exact ⟨row,row.status,(Document.with_self rfl).symm,.inl h⟩
  | cons c cs ih =>
    obtain ⟨row',status,rfl,hrow | ⟨hmem,hid⟩⟩ := ih h
    · cases c with
      | insertDocument new =>
        by_cases hid : id = new.id
        · subst hid
          simp only [Database.apply,Database.insertDocument,Function.update_self,Option.some.injEq] at hrow
          subst hrow
          exact ⟨new,status,rfl,.inr ⟨List.mem_cons_self,rfl⟩⟩
        · simp only [Database.apply,Database.insertDocument,Function.update_of_ne hid] at hrow
          exact ⟨row',status,rfl,.inl hrow⟩
      | updateStatus id' status' =>
        by_cases hid : id = id'
        · subst hid
          simp only [Database.apply,Database.updateStatus,Function.update_self,Option.map_eq_some_iff] at hrow
          obtain ⟨old,hold,rfl⟩ := hrow
          exact ⟨old,status,rfl,.inl hold⟩
        · simp only [Database.apply,Database.updateStatus,Function.update_of_ne hid] at hrow
          exact ⟨row',status,rfl,.inl hrow⟩
      | insertExtraction x => exact ⟨row',status,rfl,.inl hrow⟩
      | insertUsage u => exact ⟨row',status,rfl,.inl hrow⟩
    · exact ⟨row',status,rfl,.inr ⟨List.mem_cons_of_mem _ hmem,hid⟩⟩

/-- What inserts no row of an id leaves open whether it has one. -/
theorem documents_applyAll_none {db : Database} {id : Uuid} {cs : List Change}
    (hcs : ∀ row, .insertDocument row ∈ cs → row.id ≠ id) (h : db.documents id = none) :
    (db.applyAll cs).documents id = none := by
  rw [Option.eq_none_iff_forall_ne_some]
  intro row hrow
  obtain ⟨row',status,-,hold | ⟨hmem,hid⟩⟩ := documents_applyAll_from hrow
  · cases h.symm.trans hold
  · exact hcs row' hmem hid

/-- Rows under new ids leave the others where they are. -/
theorem keepsDocuments_applyAll {db : Database} {cs : List Change}
    (hcs : ∀ row, .insertDocument row ∈ cs → db.documents row.id = none) : db.KeepsDocuments (db.applyAll cs) := by
  intro id row hrow
  have hkept := Database.documents_applyAll (Option.isSome_iff_exists.mpr ⟨row,hrow⟩) cs
  obtain ⟨row',hrow'⟩ := Option.isSome_iff_exists.mp hkept
  obtain ⟨old,status,rfl,hold | ⟨hmem,hid⟩⟩ := documents_applyAll_from hrow'
  · cases hrow.symm.trans hold
    exact ⟨status,hrow'⟩
  · have hnone := hcs old hmem
    rw [hid,hrow] at hnone
    cases hnone

end Changes

theorem Database.KeepsDocuments.refl (db : Database) : db.KeepsDocuments db := fun _ row hrow =>
  ⟨row.status,by rw [Document.with_self rfl]; exact hrow⟩

theorem Database.KeepsDocuments.trans {db db' db'' : Database} (h : db.KeepsDocuments db')
    (h' : db'.KeepsDocuments db'') : db.KeepsDocuments db'' := by
  intro id row hrow
  obtain ⟨status,hrow'⟩ := h id row hrow
  obtain ⟨status',hrow''⟩ := h' id _ hrow'
  exact ⟨status',hrow''⟩

theorem Document.Filed.with {row : Document} {files : StoragePath → Option Bytes} {content : Bytes}
    (h : row.Filed files content) (status : DocumentStatus) : (row.with status).Filed files content :=
  ⟨h.file,h.place,h.size⟩

/-- A file elsewhere does not matter. -/
theorem Document.Filed.update {row : Document} {files : StoragePath → Option Bytes} {content : Bytes}
    (h : row.Filed files content) {path : StoragePath} (hpath : path.fileId ≠ row.id.str) (e : Option Bytes) :
    row.Filed (Function.update files path e) content := by
  refine ⟨?_,h.place,h.size⟩
  have hne : row.filePath ≠ path := fun heq => hpath (by rw [← heq,h.place]; rfl)
  rw [Function.update_of_ne hne]
  exact h.file

section Actions
variable {T : Terms} {i : ℕ} {label : Label} {w : World} {a : Action}

theorem MayFile.documents (h : MayFile T i label w a) : w.db.KeepsDocuments (w.act i a).db := by
  cases a with
  | commit changes => exact keepsDocuments_applyAll fun row hrow => (h.1 row hrow).2.1
  | _ => exact .refl w.db

/-- An action of a run keeps the files of all rows. -/
theorem MayFile.kept (h : MayFile T i label w a) (hkept : T.Kept w) : T.Kept (w.act i a) := by
  intro id row hrow
  have hother : ∀ path : StoragePath, path.fileId = (Uuid.drawn i 0).str → w.db.documents (.drawn i 0) = none →
      w.db.documents id = some row → path.fileId ≠ row.id.str := by
    intro path hown hnone hrow hpath
    rw [w.db.keyed hrow,hown] at hpath
    cases hpath
    cases hnone.symm.trans hrow
  cases a with
  | commit changes =>
    obtain ⟨row',status,rfl,hold | ⟨hmem,hid⟩⟩ := documents_applyAll_from hrow
    · obtain ⟨content,hfiled,hterms⟩ := hkept id row' hold
      exact ⟨content,hfiled.with status,T.document_with status hterms⟩
    · obtain ⟨-,-,content,hfiled,hterms,-⟩ := h.1 row' hmem
      exact ⟨content,hfiled.with status,T.document_with status hterms⟩
  | enqueue job => exact hkept id row hrow
  | save path content =>
    obtain ⟨content',hfiled,hterms⟩ := hkept id row hrow
    exact ⟨content',hfiled.update (hother path h.1 h.2 hrow) _,hterms⟩
  | delete path =>
    obtain ⟨content',hfiled,hterms⟩ := hkept id row hrow
    exact ⟨content',hfiled.update (hother path h.1 h.2 hrow) _,hterms⟩

end Actions

/-- Whatever the others do, they leave the directory of the run's own upload alone, so they do
its row, but for the status, and what was on terms stays so. -/
structure LeavesFiles (T : Terms) (i : ℕ) (w w' : World) : Prop where
  files : ∀ path, path.fileId = (Uuid.drawn i 0).str → w'.files path = w.files path
  row : w'.db.documents (.drawn i 0) = none ↔ w.db.documents (.drawn i 0) = none
  log : ∀ x ∈ w.log, x ∈ w'.log
  documents : w.db.KeepsDocuments w'.db
  kept : T.Kept w → T.Kept w'

theorem LeavesFiles.of_eq {T : Terms} {i : ℕ} {w w' : World} (hdb : w'.db = w.db) (hfiles : w'.files = w.files)
    (hlog : w'.log = w.log) : LeavesFiles T i w w' where
  files _ _ := by rw [hfiles]
  row := by rw [hdb]
  log x hx := hlog.symm ▸ hx
  documents := by
    rw [hdb]
    exact .refl w.db
  kept h id row hrow := by
    obtain ⟨content,hfiled,hterms⟩ := h id row (hdb ▸ hrow)
    exact ⟨content,hfiles.symm ▸ hfiled,hterms⟩

theorem LeavesFiles.refl {T : Terms} (i : ℕ) (w : World) : LeavesFiles T i w w := .of_eq rfl rfl rfl

theorem LeavesFiles.act {T : Terms} {i j : ℕ} (hne : i ≠ j) {label : Label} {w : World} {a : Action}
    (h : MayFile T j label w a) : LeavesFiles T i w (w.act j a) := by
  have hstr : ∀ path : StoragePath, path.fileId = (Uuid.drawn j 0).str → ∀ own : StoragePath,
      own.fileId = (Uuid.drawn i 0).str → own ≠ path := by
    rintro path hpath own hown rfl
    cases hown.symm.trans hpath
    exact hne rfl
  have hlog : ∀ x ∈ w.log, x ∈ (w.act j a).log := fun x hx => by
    rw [log_act]
    exact List.mem_append_left _ hx
  refine ⟨?_,?_,hlog,h.documents,h.kept⟩
  · cases a with
    | save path content => exact fun own hown => Function.update_of_ne (hstr path h.1 own hown) _ _
    | delete path => exact fun own hown => Function.update_of_ne (hstr path h.1 own hown) _ _
    | _ => exact fun _ _ => rfl
  · cases a with
    | commit changes =>
      have hother : ∀ row, .insertDocument row ∈ changes → row.id ≠ .drawn i 0 := fun row hrow hid => by
        cases hid.symm.trans (h.1 row hrow).1
        exact hne rfl
      constructor
      · intro hnone
        by_contra hsome
        have hkeep := Database.documents_applyAll (Option.isSome_iff_ne_none.mpr hsome) changes
        rw [show (w.db.applyAll changes).documents (.drawn i 0) = none from hnone] at hkeep
        cases hkeep
      · exact documents_applyAll_none hother
    | _ => exact Iff.rfl

def filing (T : Terms) : Discipline Label World where
  guar i label w w' := w' = w ∨ ∃ a, MayFile T i label w a ∧ w' = w.act i a
  rely i w w' := LeavesFiles T i w w'
  guar_refl _ _ _ := .inl rfl
  rely_refl i w := .refl i w
  rely_trans h h' := ⟨fun path hpath => (h'.files path hpath).trans (h.files path hpath),h'.row.trans h.row,
    fun x hx => h'.log x (h.log x hx),h.documents.trans h'.documents,fun hkept => h'.kept (h.kept hkept)⟩
  guar_rely := by
    rintro i j label w w' hne (rfl | ⟨a,ha,rfl⟩)
    · exact .refl i _
    · exact .act hne ha

/-- Nothing that the run may read disagrees with the terms. -/
def Local.Opens (T : Terms) (l : Local) : Prop :=
  ∀ n content file, l.env.openPdf.get n content = .ok file → T.opens content file

/-- The run has no row of a document that waits, and its extractions that do are on terms. -/
structure Local.OnTerms (T : Terms) (i : ℕ) (l : Local) (w : World) : Prop where
  run : l.run = i
  plain : l.session.Plain
  opens : l.Opens T
  extractions : ∀ x, .insertExtraction x ∈ l.session.pending ++ l.session.flushed → T.extraction w.db x
  kept : T.Kept w

/-- The document of the session is a durable one, up to its status. -/
def Session.Grounded (s : Session) (w : World) : Prop :=
  ∀ t, s.document = some t → ∃ row status, w.db.documents t.attributes.id = some row ∧ t.attributes = row.with status

/-- An operation that neither stores nor deletes a file, and adds neither a document nor an extraction. -/
def Quiet : ServiceOp → Prop
  | .addExtraction _ => False
  | op => Tame op

/-- What a quiet operation leaves of the run: no row that has to be on terms is new, and the document
is the one that was there. -/
structure Local.Follows (l l' : Local) : Prop where
  run : l'.run = l.run
  waiting : ∀ c ∈ l'.session.pending ++ l'.session.flushed,
    c ∈ l.session.pending ++ l.session.flushed ∨ (c.document? = none ∧ c.extraction? = none)
  document : ∀ t', l'.session.document = some t' → ∃ t status, l.session.document = some t ∧
    t'.attributes = t.attributes.with status
  opens : ∀ n, ∃ m, l'.env.openPdf.get n = l.env.openPdf.get m

section Operations
variable {T : Terms} {c : Config} {p : DocumentProcessor} {i : ℕ} {label : Label} {l l' l'' : Local} {w w' : World}

theorem Local.Follows.of_session (hrun : l'.run = l.run) (hopen : l'.env.openPdf = l.env.openPdf)
    (hdocument : l'.session.document = l.session.document)
    (hwaiting : ∀ c ∈ l'.session.pending ++ l'.session.flushed, c ∈ l.session.pending ++ l.session.flushed) :
    l.Follows l' where
  run := hrun
  waiting c hc := .inl (hwaiting c hc)
  document t' ht' := ⟨t',t'.attributes.status,hdocument ▸ ht',(Document.with_self rfl).symm⟩
  opens n := ⟨n,by rw [hopen]⟩

theorem Local.Follows.refl (l : Local) : l.Follows l := .of_session rfl rfl rfl fun _ h => h

theorem Local.Follows.trans (h : l.Follows l') (h' : l'.Follows l'') : l.Follows l'' where
  run := h'.run.trans h.run
  waiting c hc := (h'.waiting c hc).elim (h.waiting c) .inr
  document t'' ht'' := by
    obtain ⟨t',status',ht',heq'⟩ := h'.document t'' ht''
    obtain ⟨t,status,ht,heq⟩ := h.document t' ht'
    exact ⟨t,status',ht,by rw [heq',heq]; rfl⟩
  opens n := by
    obtain ⟨m,hm⟩ := h'.opens n
    obtain ⟨k,hk⟩ := h.opens m
    exact ⟨k,hm.trans hk⟩

theorem Local.OnTerms.follows (h : l.OnTerms T i w) (hf : l.Follows l') : l'.OnTerms T i w where
  run := hf.run.trans h.run
  plain c hc := (hf.waiting c hc).elim (h.plain c) And.left
  opens n content file hfile := by
    obtain ⟨m,hm⟩ := hf.opens n
    rw [hm] at hfile
    exact h.opens m content file hfile
  extractions x hx := (hf.waiting _ hx).elim (h.extractions x) fun hnone => by cases hnone.2
  kept := h.kept

theorem Session.Grounded.follows (h : l.session.Grounded w) (hf : l.Follows l') : l'.session.Grounded w := by
  intro t' ht'
  obtain ⟨t,status',ht,heq⟩ := hf.document t' ht'
  obtain ⟨row,status,hrow,hattributes⟩ := h t ht
  exact ⟨row,status',by rw [heq]; exact hrow,by rw [heq,hattributes]; rfl⟩

theorem Local.OnTerms.world (h : l.OnTerms T i w) (hdocuments : w.db.KeepsDocuments w'.db) (hkept : T.Kept w') :
    l.OnTerms T i w' := ⟨h.run,h.plain,h.opens,fun x hx => T.extraction_kept hdocuments (h.extractions x hx),hkept⟩

theorem Session.Grounded.world {s : Session} (h : s.Grounded w) (hdocuments : w.db.KeepsDocuments w'.db) :
    s.Grounded w' := by
  intro t ht
  obtain ⟨row,status,hrow,hattributes⟩ := h t ht
  obtain ⟨status',hrow'⟩ := hdocuments _ row hrow
  exact ⟨row.with status',status,hrow',hattributes⟩

theorem Local.OnTerms.rely (h : l.OnTerms T i w) (hw : LeavesFiles T i w w') : l.OnTerms T i w' :=
  h.world hw.documents (hw.kept h.kept)

theorem flush_follows (l : Local) : l.Follows l.flush.2 := by
  unfold Local.flush
  split
  · exact .refl l
  · split
    · exact .refl l
    · cases l.env.db.head with
      | none =>
        refine .of_session rfl rfl rfl fun c hc => ?_
        simpa [Local.setSession,Session.flushOk,or_comm] using hc
      | some e =>
        refine ⟨rfl,by simp [Local.setSession,Session.flushFailed],fun t' ht' => ?_,fun n => ⟨n,rfl⟩⟩
        obtain ⟨t,ht,rfl⟩ := Option.map_eq_some_iff.mp ht'
        refine ⟨t,t.attributes.status,ht,?_⟩
        rw [Document.with_self rfl]
        unfold Tracked.rolledBack
        split <;> rfl

/-- A call that flushes first, when its own failure changes neither the rows nor the document. -/
theorem call_follows (failed : Session → Session) (hpending : ∀ s, (failed s).pending = s.pending)
    (hflushed : ∀ s, (failed s).flushed = s.flushed) (hdocument : ∀ s, (failed s).document = s.document) (l : Local) :
    l.Follows (l.call failed).2 := by
  have hflush := flush_follows l
  unfold Local.call
  generalize l.flush = q at hflush ⊢
  rcases q with ⟨_ | _,l₁⟩
  · exact hflush
  · dsimp only at hflush ⊢
    split
    · exact hflush
    · cases l₁.env.db.head with
      | none => exact hflush.trans (.of_session rfl rfl rfl fun _ h => h)
      | some e =>
        refine hflush.trans (.of_session rfl rfl (hdocument _) fun c hc => ?_)
        have hsame : (failed l₁.session).pending ++ (failed l₁.session).flushed =
            l₁.session.pending ++ l₁.session.flushed := by rw [hpending,hflushed]
        exact hsame ▸ hc

theorem assignStatus_follows (status : DocumentStatus) (l : Local) :
    l.Follows (l.setSession (l.session.assignStatus status)) := by
  unfold Session.assignStatus
  cases ht : l.session.document with
  | none => exact .of_session rfl rfl rfl fun _ h => h
  | some t =>
    have hdocument : ∀ t' : Tracked, some { t with attributes := { t.attributes with status } } = some t' →
        ∃ t₁ status', l.session.document = some t₁ ∧ t'.attributes = t₁.attributes.with status' := by
      rintro t' ⟨⟩
      exact ⟨t,status,ht,rfl⟩
    dsimp only
    split
    · exact ⟨rfl,fun c hc => .inl hc,hdocument,fun n => ⟨n,rfl⟩⟩
    · refine ⟨rfl,fun c hc => ?_,hdocument,fun n => ⟨n,rfl⟩⟩
      simp only [Local.setSession,Session.add,List.append_assoc,List.mem_append,List.mem_singleton] at hc ⊢
      obtain hc | rfl | hc := hc
      · exact .inl (.inl hc)
      · exact .inr ⟨rfl,rfl⟩
      · exact .inl (.inr hc)

theorem rollback_follows (l : Local) : l.Follows (l.setSession l.session.rollback) := by
  unfold Session.rollback
  split
  · refine ⟨rfl,by simp [Local.setSession],fun t' ht' => ?_,fun n => ⟨n,rfl⟩⟩
    obtain ⟨t,ht,rfl⟩ := Option.map_eq_some_iff.mp ht'
    refine ⟨t,t.attributes.status,ht,?_⟩
    rw [Document.with_self rfl]
    unfold Tracked.rolledBack
    split <;> rfl
  · exact .of_session rfl rfl rfl fun _ h => h

theorem begun_follows (l : Local) : l.Follows (l.call fun s => { s with begun := true }).2 :=
  call_follows (fun s => { s with begun := true }) (fun _ => rfl) (fun _ => rfl) (fun _ => rfl) l

theorem commitCall_follows (l : Local) : l.Follows l.commit.2 := by
  obtain ⟨-,hidle⟩ | hcall := l.commit_cases
  · exact hidle ▸ .of_session rfl rfl rfl fun _ h => h
  · exact hcall ▸ call_follows Session.commitFailed (fun _ => rfl) (fun _ => rfl) (fun _ => rfl) l

theorem commit_follows (l : Local) (w : World) : l.Follows (Machine.commit l w).2.1 := by
  have hcall := commitCall_follows l
  unfold Machine.commit
  generalize l.commit = q at hcall ⊢
  rcases q with ⟨_ | _,l₁⟩
  · exact hcall
  · refine hcall.trans ⟨rfl,fun c hc => ?_,fun t' ht' => ?_,fun n => ⟨n,rfl⟩⟩
    · exact .inl (List.mem_append_left _ (by simpa [Local.setSession,Session.commitOk] using hc))
    · obtain ⟨t,ht,rfl⟩ := Option.map_eq_some_iff.mp ht'
      exact ⟨t,t.attributes.status,ht,(Document.with_self rfl).symm⟩

theorem quiet_follows {op : ServiceOp} (hop : Quiet op) (hselect : ∀ id, op ≠ .selectDocument id)
    (hrefresh : op ≠ .refreshDocument) (l : Local) (w : World) : l.Follows (Machine.handler p op (l,w)).2.1 := by
  have hsame : ∀ {l' : Local}, l'.run = l.run → l'.session = l.session → l'.env.openPdf = l.env.openPdf →
      l.Follows l' := fun hrun hsession hopen =>
    .of_session hrun hopen (by rw [hsession]) fun c hc => hsession ▸ hc
  cases op with
  | save | delete | addDocument | addExtraction => cases hop
  | selectDocument id => exact absurd rfl (hselect id)
  | refreshDocument => exact absurd rfl hrefresh
  | assignStatus status => exact assignStatus_follows status l
  | addUsage row =>
    refine ⟨rfl,fun c hc => ?_,fun t ht => ⟨t,t.attributes.status,ht,(Document.with_self rfl).symm⟩,fun n => ⟨n,rfl⟩⟩
    simp only [Machine.handler,Local.setSession,Session.add,List.append_assoc,List.mem_append,
      List.mem_singleton] at hc ⊢
    obtain hc | rfl | hc := hc
    · exact .inl (.inl hc)
    · exact .inr ⟨rfl,rfl⟩
    · exact .inl (.inr hc)
  | flush => exact flush_follows l
  | commit => exact commit_follows l w
  | rollback => exact rollback_follows l
  | refreshExtraction id =>
    have hcall := begun_follows l
    simp only [Machine.handler,Machine.refreshExtraction]
    generalize l.call _ = q at hcall ⊢
    rcases q with ⟨_ | _,l₁⟩
    · exact hcall
    · dsimp only
      split <;> exact hcall.trans (.of_session rfl rfl rfl fun _ h => h)
  | load path =>
    simp only [Machine.handler,Machine.load]
    split <;> exact hsame rfl rfl rfl
  | enqueueJob documentId docType strategy =>
    simp only [Machine.handler,Machine.enqueueJob]
    cases l.env.enqueue.head <;> exact hsame rfl rfl rfl
  | openPdf content =>
    exact ⟨rfl,fun _ hc => .inl hc,fun t ht => ⟨t,t.attributes.status,ht,(Document.with_self rfl).symm⟩,
      fun n => ⟨n + 1,rfl⟩⟩
  | _ => exact hsame rfl rfl rfl

/-- Quiet operations make nothing durable that is not on terms. -/
theorem quiet_world {op : ServiceOp} (label : Label) (hop : Quiet op) (h : l.OnTerms T i w) :
    (Machine.handler p op (l,w)).2.2 = w ∨
      ∃ a, MayFile T i label w a ∧ (Machine.handler p op (l,w)).2.2 = w.act i a := by
  cases op with
  | save | delete | addDocument | addExtraction => cases hop
  | selectDocument id =>
    simp only [Machine.handler,Machine.selectDocument]
    split <;> exact .inl rfl
  | refreshExtraction id =>
    simp only [Machine.handler,Machine.refreshExtraction]
    split
    · exact .inl rfl
    · split <;> exact .inl rfl
  | refreshDocument =>
    simp only [Machine.handler,Machine.refreshDocument]
    split
    · exact .inl rfl
    · exact .inl rfl
    · split <;> exact .inl rfl
  | commit =>
    have hcall := commitCall_follows l
    simp only [Machine.handler,Machine.commit]
    generalize l.commit = q at hcall ⊢
    rcases q with ⟨_ | _,l₁⟩
    · exact .inl rfl
    · have h₁ := h.follows hcall
      dsimp only
      split
      · exact .inl rfl
      · have hmay : MayFile T i label w (.commit l₁.session.flushed) :=
          ⟨fun row hrow => (by cases h₁.plain _ (List.mem_append_right _ hrow)),
            fun x hx => h₁.extractions x (List.mem_append_right _ hx)⟩
        exact .inr ⟨_,hmay,by rw [← h₁.run]⟩
  | enqueueJob documentId docType strategy =>
    simp only [Machine.handler,Machine.enqueueJob]
    cases l.env.enqueue.head with
    | error e => exact .inl rfl
    | ok jobId => exact .inr ⟨.enqueue ⟨documentId,docType,strategy,l.run⟩,trivial,by rw [← h.run]⟩
  | load path =>
    simp only [Machine.handler,Machine.load]
    split <;> exact .inl rfl
  | _ => exact .inl rfl

/-- A document that the session sees is a durable one, up to its status. -/
theorem view_grounded (h : l.OnTerms T i w) {id : Uuid} {row : Document}
    (hrow : (Machine.view l w).documents id = some row) :
    ∃ row' status, w.db.documents row.id = some row' ∧ row = row'.with status := by
  obtain ⟨row',status,rfl,hold | ⟨hmem,-⟩⟩ := documents_applyAll_from hrow
  · have hid : row'.id = id := w.db.keyed hold
    exact ⟨row',status,(congrArg w.db.documents hid).trans hold,rfl⟩
  · cases h.plain _ (List.mem_append_right _ hmem)

/-- How a quiet operation leaves the run and what is shared. -/
structure Stepped (T : Terms) (i : ℕ) (l : Local) (w : World) (l' : Local) (w' : World) : Prop where
  onTerms : l'.OnTerms T i w'
  grounded : l.session.Grounded w → l'.session.Grounded w'

theorem Local.Follows.stepped (hf : l.Follows l') (h : l.OnTerms T i w) : Stepped T i l w l' w :=
  ⟨h.follows hf,fun hg => hg.follows hf⟩

/-- The document of the session becomes one that was found, or none. -/
theorem Stepped.found {l₁ : Local} (h : l₁.OnTerms T i w) {s : Session}
    (hdocument : ∀ t, s.document = some t → ∃ row status, w.db.documents t.attributes.id = some row ∧
      t.attributes = row.with status) (hpending : s.pending = l₁.session.pending)
    (hflushed : s.flushed = l₁.session.flushed) : Stepped T i l w (l₁.setSession s) w := by
  have hwaiting : s.pending ++ s.flushed = l₁.session.pending ++ l₁.session.flushed := by rw [hpending,hflushed]
  exact ⟨⟨h.run,fun c hc => h.plain c (hwaiting ▸ hc),h.opens,fun x hx => h.extractions x (hwaiting ▸ hx),h.kept⟩,
    fun _ => hdocument⟩

theorem selectDocument_stepped (id : Uuid) (h : l.OnTerms T i w) :
    Stepped T i l w (Machine.handler p (.selectDocument id) (l,w)).2.1 w := by
  have hcall := begun_follows l
  simp only [Machine.handler,Machine.selectDocument]
  generalize l.call _ = q at hcall ⊢
  rcases q with ⟨_ | _,l₁⟩
  · exact hcall.stepped h
  · have h₁ := h.follows hcall
    refine .found h₁ (fun t ht => ?_) rfl rfl
    obtain ⟨row,hrow,rfl⟩ := Option.map_eq_some_iff.mp ht
    exact view_grounded h₁ hrow

theorem refreshDocument_stepped (h : l.OnTerms T i w) :
    Stepped T i l w (Machine.handler p .refreshDocument (l,w)).2.1 w := by
  have hexpire : l.Follows (l.setSession l.session.expireDocument) := by
    refine ⟨rfl,fun _ hc => .inl hc,fun t' ht' => ?_,fun n => ⟨n,rfl⟩⟩
    obtain ⟨t,ht,rfl⟩ := Option.map_eq_some_iff.mp ht'
    exact ⟨t,t.attributes.status,ht,(Document.with_self rfl).symm⟩
  have hcall := hexpire.trans (call_follows id (fun _ => rfl) (fun _ => rfl) (fun _ => rfl) _)
  simp only [Machine.handler,Machine.refreshDocument]
  generalize (l.setSession l.session.expireDocument).call _ = q at hcall ⊢
  rcases q with ⟨_ | _,l₁⟩
  · exact hcall.stepped h
  · have h₁ := h.follows hcall
    cases (l.setSession l.session.expireDocument).session.document with
    | none => exact hcall.stepped h
    | some t =>
      dsimp only
      cases hrow : (Machine.view l₁ w).documents t.attributes.id with
      | none => exact hcall.stepped h
      | some row =>
        refine .found h₁ (fun t' ht' => ?_) rfl rfl
        obtain ⟨_,-,rfl⟩ := Option.map_eq_some_iff.mp ht'
        exact view_grounded h₁ hrow

theorem Stepped.act {a : Action} (h : Stepped T i l w l' w) (hmay : MayFile T i label w a) :
    Stepped T i l w l' (w.act i a) :=
  ⟨h.onTerms.world hmay.documents (hmay.kept h.onTerms.kept),fun hg => (h.grounded hg).world hmay.documents⟩

theorem quiet_stepped (label : Label) {op : ServiceOp} (hop : Quiet op) (h : l.OnTerms T i w) :
    Stepped T i l w (Machine.handler p op (l,w)).2.1 (Machine.handler p op (l,w)).2.2 := by
  have hlocal : Stepped T i l w (Machine.handler p op (l,w)).2.1 w := by
    cases op with
    | selectDocument id => exact selectDocument_stepped id h
    | refreshDocument => exact refreshDocument_stepped h
    | _ => exact (quiet_follows hop (fun _ hne => by cases hne) (fun hne => by cases hne) l w).stepped h
  rcases quiet_world (p := p) label hop h with hsame | ⟨a,hmay,hact⟩
  · exact hsame.symm ▸ hlocal
  · exact hact.symm ▸ hlocal.act hmay

theorem quiet_guar {op : ServiceOp} (hop : Quiet op) (h : l.OnTerms T i w) :
    (filing T).guar i label w (Machine.handler p op (l,w)).2.2 := quiet_world label hop h

theorem quiet_safe {α : Type} {q : ServiceProg α} (hq : q.Only Quiet) (h : l.OnTerms T i w) :
    q.Safe (Machine.handler p) (filing T) i label (fun _ l w => l.OnTerms T i w) l w :=
  hq.safe (I := fun l w => l.OnTerms T i w) (fun _ _ _ h hw => h.rely hw) (fun _ _ _ hop h => quiet_guar hop h)
    (fun _ _ _ hop h => (quiet_stepped label hop h).onTerms) h

end Operations

/-- The pages are what the parser makes of bytes that the row was uploaded with. -/
def Terms.Reads (T : Terms) (row : Document) (pages : List String) : Prop :=
  ∃ content file filename pdf, T.document row content ∧ T.opens content file ∧
    parsedPdf filename file = .ok pdf ∧ pdf.pagesText = pages

/-- A quiet operation that leaves the session with the document that it has. -/
def Steady : ServiceOp → Prop
  | .selectDocument _ | .refreshDocument => False
  | op => Quiet op

theorem Steady.quiet {op : ServiceOp} (h : Steady op) : Quiet op := by
  cases op with
  | selectDocument | refreshDocument => exact h.elim
  | _ => exact h

/-- The run works on the document with these pages. -/
structure Local.Works (T : Terms) (i : ℕ) (id : Uuid) (pages : List String) (l : Local) (w : World) : Prop
    extends l.OnTerms T i w where
  on : ∀ t, l.session.document = some t → t.attributes.id = id
  reads : ∃ row, w.db.documents id = some row ∧ T.Reads row pages

/-- What the processing of the pages may come to: what the processor does with them, or an error that
is not wrapped. -/
def MayCome (c : Config) (pages : List String) (o : Except Exc DocumentProcessingResult) : Prop :=
  (∃ pageCount docType strategy e,
    ((c.processor.processPages ⟨pages,pageCount,docType,strategy⟩).run ModelEnv.handler e).1 = o) ∨
  ∃ e, Exc.Inner e ∧ o = .error e

/-- The service meets the terms with every document that it makes of an upload, and with every
extraction that it makes of the pages of a document. -/
structure Terms.Fits (T : Terms) (c : Config) : Prop where
  document : ∀ {content file filename pdf} (id : Uuid) (path : StoragePath) (status : DocumentStatus) (uploadedAt : Time),
    T.opens content file → parsedPdf filename file = .ok pdf →
    T.document ⟨id,filename,path,content.length,pdf.pageCount,status,uploadedAt⟩ content
  success : ∀ {db : Database} {row pages r} (id : Uuid) (createdAt : Time), db.documents row.id = some row →
    T.Reads row pages → MayCome c pages (.ok r) → T.extraction db (successExtraction c id row.id r.pipeline createdAt)
  failure : ∀ {db : Database} {row pages resolved e} (id : Uuid) (ms : ℤ) (createdAt : Time),
    db.documents row.id = some row → T.Reads row pages → MayCome c pages (.error (.documentProcessing resolved e)) →
    T.extraction db (failedExtraction c id row.id resolved e ms createdAt)

section Processing
variable {T : Terms} {c : Config} {p : DocumentProcessor} {i : ℕ} {label : Label} {l l' : Local} {w w' : World}
variable {id : Uuid} {pages : List String} {α β : Type}

theorem Terms.Reads.with {row : Document} (h : T.Reads row pages) (status : DocumentStatus) :
    T.Reads (row.with status) pages := by
  obtain ⟨content,file,filename,pdf,hdocument,hrest⟩ := h
  exact ⟨content,file,filename,pdf,T.document_with status hdocument,hrest⟩

theorem Local.Works.world (h : l.Works T i id pages w) (hdocuments : w.db.KeepsDocuments w'.db) (hkept : T.Kept w') :
    l.Works T i id pages w' := by
  obtain ⟨row,hrow,hreads⟩ := h.reads
  obtain ⟨status,hrow'⟩ := hdocuments _ row hrow
  exact ⟨h.toOnTerms.world hdocuments hkept,h.on,_,hrow',hreads.with status⟩

theorem Local.Works.follows (h : l.Works T i id pages w) (hf : l.Follows l') : l'.Works T i id pages w := by
  refine ⟨h.toOnTerms.follows hf,fun t' ht' => ?_,h.reads⟩
  obtain ⟨t,status,ht,heq⟩ := hf.document t' ht'
  rw [heq]
  exact h.on t ht

theorem steady_works {op : ServiceOp} (label : Label) (hop : Steady op) (h : l.Works T i id pages w) :
    (Machine.handler p op (l,w)).2.1.Works T i id pages (Machine.handler p op (l,w)).2.2 := by
  have hf := quiet_follows (p := p) hop.quiet (fun _ hne => by rw [hne] at hop; exact hop)
    (fun hne => by rw [hne] at hop; exact hop) l w
  rcases quiet_world (p := p) label hop.quiet h.toOnTerms with hsame | ⟨a,hmay,hact⟩
  · rw [hsame]
    exact h.follows hf
  · rw [hact]
    exact (h.follows hf).world hmay.documents (hmay.kept h.kept)

theorem steady_safe {q : ServiceProg α} (hq : q.Only Steady) (h : l.Works T i id pages w) :
    q.Safe (Machine.handler p) (filing T) i label (fun _ l w => l.Works T i id pages w) l w :=
  hq.safe (I := fun l w => l.Works T i id pages w) (fun _ _ _ h hw => h.world hw.documents (hw.kept h.kept))
    (fun _ _ _ hop h => quiet_guar hop.quiet h.toOnTerms) (fun _ _ _ hop h => steady_works label hop h) h

/-- A run that ends on terms. -/
abbrev EndsOnTerms (T : Terms) (p : DocumentProcessor) (i : ℕ) (label : Label) (q : ServiceProg α) (l : Local)
    (w : World) : Prop :=
  q.Safe (Machine.handler p) (filing T) i label (fun _ l w => l.OnTerms T i w) l w

/-- A run that ends on terms, and in `Q` when it returns. -/
abbrev EndsIn (T : Terms) (p : DocumentProcessor) (i : ℕ) (label : Label) (Q : α → Local → World → Prop)
    (q : ServiceProg α) (l : Local) (w : World) : Prop :=
  q.Safe (Machine.handler p) (filing T) i label (fun r l w => l.OnTerms T i w ∧ ∀ a, r = .ok a → Q a l w) l w

variable {Q : β → Local → World → Prop}

theorem throw_in {R : α → Local → World → Prop} (e : Exc) (h : l.OnTerms T i w) :
    EndsIn T p i label R (throw e : ServiceProg α) l w :=
  Prog.safe_done fun _ hw => ⟨h.rely hw,fun _ ha => by cases ha⟩

/-- What may be said of every error. -/
theorem ends_bind {R : α → Local → World → Prop} {q : ServiceProg α} {f : α → ServiceProg β}
    (hq : EndsIn T p i label R q l w)
    (hf : ∀ a l w, l.OnTerms T i w → R a l w → EndsIn T p i label Q (f a) l w) : EndsIn T p i label Q (q >>= f) l w :=
  Prog.safe_bind hq (fun a l w h => hf a l w h.1 (h.2 a rfl)) fun _ _ _ h => ⟨h.1,fun _ ha => by cases ha⟩

/-- Steady operations first, and what comes then ends on terms. -/
theorem steady_bind {q : ServiceProg α} {f : α → ServiceProg β} (hq : q.Only Steady) (h : l.Works T i id pages w)
    (hf : ∀ a l w, l.Works T i id pages w → EndsIn T p i label Q (f a) l w) : EndsIn T p i label Q (q >>= f) l w :=
  Prog.safe_bind (steady_safe hq h) (fun a l w h => hf a l w h) fun _ _ _ h =>
    ⟨h.toOnTerms,fun _ ha => by cases ha⟩

theorem Local.Works.rely (h : l.Works T i id pages w) (hw : LeavesFiles T i w w') : l.Works T i id pages w' :=
  h.world hw.documents (hw.kept h.kept)

/-- The document that the run works on, beside what holds of the world meanwhile. -/
theorem attributes_works {F : World → Prop} (hF : ∀ {w w'}, F w → LeavesFiles T i w w' → F w')
    (h : l.Works T i id pages w) (hw : F w) : (perform .documentAttributes).Safe (Machine.handler p) (filing T) i label
      (fun r l w => (l.Works T i id pages w ∧ F w) ∧ ∀ document, r = .ok document → document.id = id) l w := by
  refine Prog.safe_perform fun w' hw' => ⟨_,_,_,rfl,.inl rfl,fun w'' hw'' =>
    ⟨⟨(h.rely hw').rely hw'',hF (hF hw hw') hw''⟩,fun document hd => ?_⟩⟩
  unfold Session.documentAttributes at hd
  cases ht : l.session.document with
  | none => rw [ht] at hd; cases hd
  | some t =>
    rw [ht] at hd
    dsimp only at hd
    split at hd
    · cases hd
    · cases hd
      exact h.on t ht

theorem attributes_bind {f : Document → ServiceProg β} (h : l.Works T i id pages w)
    (hf : ∀ document l w, document.id = id → l.Works T i id pages w → EndsIn T p i label Q (f document) l w) :
    EndsIn T p i label Q (perform .documentAttributes >>= f) l w :=
  Prog.safe_bind (attributes_works (F := fun _ => True) (fun _ _ => trivial) h trivial)
    (fun document l w h => hf document l w (h.2 document rfl) h.1.1) fun _ _ _ h =>
      ⟨h.1.1.toOnTerms,fun _ ha => by cases ha⟩

/-- An extraction that is on terms may be added. -/
theorem addExtraction_works {row : Extraction} (h : l.Works T i id pages w)
    (hrow : ∀ w' : World, w.db.KeepsDocuments w'.db → T.extraction w'.db row) :
    (perform (.addExtraction row)).Safe (Machine.handler p) (filing T) i label
      (fun _ l w => l.Works T i id pages w) l w := by
  refine Prog.safe_perform fun w' hw => ⟨_,_,_,rfl,.inl rfl,fun w'' hw' => ?_⟩
  have h' := h.world hw.documents (hw.kept h.kept)
  have hadded : (l.setSession (l.session.add (.insertExtraction row))).Works T i id pages w' := by
    refine ⟨⟨h'.run,h'.plain.add rfl,h'.opens,fun x hx => ?_,h'.kept⟩,h'.on,h'.reads⟩
    simp only [Local.setSession,Session.add,List.append_assoc,List.mem_append,List.mem_singleton,
      Change.insertExtraction.injEq] at hx
    obtain hx | rfl | hx := hx
    · exact h'.extractions x (List.mem_append_left _ hx)
    · exact hrow w' hw.documents
    · exact h'.extractions x (List.mem_append_right _ hx)
  exact hadded.world (LeavesFiles.documents hw') (LeavesFiles.kept hw' h'.kept)

theorem setStatus_steady (status : DocumentStatus) : (setStatus status).Only Steady :=
  .bind (Prog.only_perform trivial) fun _ => Prog.only_perform trivial

theorem setDocumentStatus_steady (status : DocumentStatus) : (setDocumentStatus status).Only Steady :=
  .bind (setStatus_steady status) fun _ => Prog.only_perform trivial

theorem addUsageEvents_steady (documentId extractionId : Uuid) (events : List LLMUsageEvent)
    (inputTokens outputTokens : ℕ) :
    (addUsageEvents c documentId extractionId events inputTokens outputTokens).Only Steady :=
  (straight_addUsageEvents documentId extractionId events inputTokens outputTokens).only.mono
    (fun op hop => by cases op <;> first | exact hop.elim | trivial) fun _ h => h

theorem success_onTerms (hfits : T.Fits c) (h : l.Works T i id pages w) {r : DocumentProcessingResult}
    (hcome : MayCome c pages (.ok r)) (extractionId : Uuid) (createdAt : Time) (hw : w.db.KeepsDocuments w'.db) :
    T.extraction w'.db (successExtraction c extractionId id r.pipeline createdAt) := by
  obtain ⟨row,hrow,hreads⟩ := h.reads
  have hid : row.id = id := w.db.keyed hrow
  subst hid
  exact T.extraction_kept hw (hfits.success extractionId createdAt hrow hreads hcome)

theorem failure_onTerms (hfits : T.Fits c) (h : l.Works T i id pages w) {resolved : ResolvedDocumentInput}
    {e : ExtractionError} (hcome : MayCome c pages (.error (.documentProcessing resolved e))) (extractionId : Uuid)
    (ms : ℤ) (createdAt : Time) (hw : w.db.KeepsDocuments w'.db) :
    T.extraction w'.db (failedExtraction c extractionId id resolved e ms createdAt) := by
  obtain ⟨row,hrow,hreads⟩ := h.reads
  have hid : row.id = id := w.db.keyed hrow
  subst hid
  exact T.extraction_kept hw (hfits.failure extractionId ms createdAt hrow hreads hcome)

theorem pure_onTerms (a : Except Exc α) (h : l.OnTerms T i w) : EndsOnTerms T p i label (.done a) l w :=
  Prog.safe_done fun _ hw => h.rely hw

/-- The response is about the document, and the run still works on it. -/
def Responds (T : Terms) (i : ℕ) (id : Uuid) (pages : List String) (response : ExtractResponse) (l : Local)
    (w : World) : Prop := response.documentId = id ∧ l.Works T i id pages w

theorem recordSuccess_onTerms (hfits : T.Fits c) {r : DocumentProcessingResult} (hcome : MayCome c pages (.ok r))
    (h : l.Works T i id pages w) : EndsIn T p i label (Responds T i id pages) (recordSuccess c r) l w := by
  refine attributes_bind h fun document l w hdocument h => ?_
  subst hdocument
  refine steady_bind (Prog.only_perform trivial) h fun extractionId l w h =>
    steady_bind (Prog.only_perform trivial) h fun createdAt l w h => ?_
  refine Prog.safe_bind (R := fun _ l w => l.Works T i document.id pages w) ?_ (fun _ l w h => ?_)
    fun _ _ _ h => ⟨h.toOnTerms,fun _ ha => by cases ha⟩
  · refine Prog.safe_bind (addExtraction_works h fun w' => success_onTerms hfits h hcome _ _)
      (fun _ l w h => steady_safe ?_ h) fun _ _ _ h => h
    exact .bind (Prog.only_perform trivial) fun _ => Prog.only_perform trivial
  · refine attributes_bind h fun document' l w _ h => steady_bind (addUsageEvents_steady _ _ _ _ _) h fun _ l w h =>
      steady_bind (Prog.only_perform trivial) h fun _ l w h => attributes_bind h fun document'' l w hid h =>
        Prog.safe_done fun w' hw => ?_
    have h' := h.rely hw
    exact ⟨h'.toOnTerms,fun response hr => by cases hr; exact ⟨hid,h'⟩⟩

theorem recordFailure_onTerms (hfits : T.Fits c) {resolved : ResolvedDocumentInput} {e : ExtractionError}
    (hcome : MayCome c pages (.error (.documentProcessing resolved e))) (startedAt : ℚ) (h : l.Works T i id pages w) :
    EndsIn T p i label (fun _ _ _ => True) (recordFailure c resolved startedAt e) l w := by
  refine attributes_bind h fun document l w hdocument h => ?_
  subst hdocument
  refine steady_bind (Prog.only_perform trivial) h fun stoppedAt l w h =>
    steady_bind (Prog.only_perform trivial) h fun extractionId l w h =>
    steady_bind (Prog.only_perform trivial) h fun createdAt l w h => ?_
  refine Prog.safe_bind (R := fun _ l w => l.Works T i document.id pages w) ?_ (fun _ l w h => ?_)
    fun _ _ _ h => ⟨h.toOnTerms,fun _ ha => by cases ha⟩
  · exact Prog.safe_bind (addExtraction_works h fun w' => failure_onTerms hfits h hcome _ _ _)
      (fun _ l w h => steady_safe (Prog.only_perform trivial) h) fun _ _ _ h => h
  · exact attributes_bind h fun document' l w _ h =>
      Prog.Safe.mono (steady_safe (addUsageEvents_steady _ _ _ _ _) h) fun _ _ _ h => ⟨h.toOnTerms,fun _ _ => trivial⟩

theorem recordOutcome_onTerms (hfits : T.Fits c) {o : Except Exc DocumentProcessingResult} (hcome : MayCome c pages o)
    (startedAt : ℚ) (h : l.Works T i id pages w) :
    EndsIn T p i label (Responds T i id pages) (recordOutcome c startedAt o) l w := by
  cases o with
  | ok r =>
    refine steady_bind (setStatus_steady _) h fun _ l w h => ?_
    refine ends_bind (recordSuccess_onTerms hfits hcome h) fun response l w _ hresponds => ?_
    refine steady_bind (Prog.only_perform trivial) hresponds.2 fun _ l w h => Prog.safe_done fun w' hw => ?_
    have h' := h.rely hw
    exact ⟨h'.toOnTerms,fun response' hr => by cases hr; exact ⟨hresponds.1,h'⟩⟩
  | error e =>
    cases e with
    | documentProcessing resolved original =>
      refine Prog.safe_bind (R := fun _ l w => l.OnTerms T i w) ?_ (fun _ l w h => throw_in _ h)
        fun _ _ _ h => ⟨h,fun _ ha => by cases ha⟩
      refine Prog.safe_bind (steady_safe (setStatus_steady _) h) (fun _ l w h => ?_) fun _ _ _ h => h.toOnTerms
      refine Prog.safe_bind (recordFailure_onTerms hfits hcome startedAt h) (fun _ l w h => ?_) fun _ _ _ h => h.1
      exact quiet_safe (Prog.only_perform trivial) h.1
    | _ => exact throw_in _ h.toOnTerms

/-- What the attempt comes to is a value. -/
theorem attempt_safe {q : ServiceProg α} {R : Except Exc α → Local → World → Prop}
    (hrely : ∀ {r l w w'}, R r l w → LeavesFiles T i w w' → R r l w')
    (hq : q.Safe (Machine.handler p) (filing T) i label R l w) :
    (attempt q).Safe (Machine.handler p) (filing T) i label (fun r l w => ∃ o, r = .ok o ∧ R o l w) l w := by
  refine Prog.safe_tryCatch (R := fun r l w => ∃ o : Except Exc α, r = o.map Except.ok ∧ R o l w)
    (Prog.safe_map (Prog.Safe.mono hq fun o _ _ h => ⟨o,rfl,h⟩)) ?_ ?_
  · rintro a l w ⟨o,ho,h⟩
    cases o with
    | ok x => cases ho; exact ⟨_,rfl,h⟩
    | error e => cases ho
  · rintro e l w ⟨o,ho,h⟩
    cases o with
    | ok x => cases ho
    | error e => cases ho; exact Prog.safe_done fun w' hw => ⟨_,rfl,hrely h hw⟩

/-- What the processor is given is the pages. -/
theorem processing_comes (docType strategy : Option String) (h : l.Works T i id pages w) :
    (do
      let document ← perform .documentAttributes
      perform (.processPages ⟨pages,document.pageCount,docType,strategy⟩)).Safe (Machine.handler c.processor) (filing T)
      i label (fun o l w => l.Works T i id pages w ∧ MayCome c pages o) l w := by
  refine Prog.safe_bind (R := fun r l w => l.Works T i id pages w ∧ ∀ e, r = .error e → e.Inner)
    (Prog.safe_perform fun w' hw => ⟨_,_,_,rfl,.inl rfl,fun w'' hw' => ⟨(h.rely hw).rely hw',fun e he => ?_⟩⟩) ?_ ?_
  · unfold Session.documentAttributes at he
    cases ht : l.session.document with
    | none => rw [ht] at he; cases he; trivial
    | some t =>
      rw [ht] at he
      dsimp only at he
      split at he <;> cases he
      trivial
  · rintro document l w ⟨h,-⟩
    refine Prog.safe_perform fun w' hw => ⟨_,_,_,rfl,.inl rfl,fun w'' hw' => ⟨?_,.inl ⟨_,_,_,_,rfl⟩⟩⟩
    refine Local.Works.rely (Local.Works.follows (h.rely hw) ?_) hw'
    exact .of_session rfl rfl rfl fun _ h => h
  · rintro e l w ⟨h,he⟩
    exact ⟨h,.inr ⟨e,he e rfl,rfl⟩⟩

theorem processDocumentPages_onTerms (hfits : T.Fits c) (docType strategy : Option String)
    (h : l.Works T i id pages w) :
    EndsIn T c.processor i label (Responds T i id pages) (processDocumentPages c pages docType strategy) l w := by
  refine steady_bind (Prog.only_perform trivial) h fun startedAt l w h => ?_
  refine Prog.safe_bind (attempt_safe (fun h hw => ⟨h.1.rely hw,h.2⟩) (processing_comes docType strategy h)) ?_ ?_
  · rintro o l w ⟨_,⟨⟩,h,hcome⟩
    exact recordOutcome_onTerms hfits hcome startedAt h
  · rintro e l w ⟨o,he,-⟩
    cases he

end Processing

end StructuredExtractor
