import StructuredExtractor.Service.Scripts

/-! # Recording the outcome of a processing

The recording of a document is a chain of flushes and refreshes that touches
nothing but the session, and one commit. `Writes` says how such a chain ends by the
database calls that it makes: all of them went through, or one failed and the
session refuses, or one failed and the rows stay flushed.
-/
namespace StructuredExtractor
open Service

/-- The session works on the document, as `known`, and has flushed the changes. -/
structure Session.On (s : Session) (known : Document) (flushed : List Change) : Prop where
  document : s.document = some ⟨known,false,false⟩
  pending : s.pending = []
  flushed : s.flushed = flushed
  refusing : s.refusing = false

/-- The session after a failed flush. -/
structure Session.Refuses (s : Session) (id : Uuid) : Prop where
  document : ∃ t, s.document = some t ∧ t.expired = true ∧ t.attributes.id = id
  pending : s.pending = []
  flushed : s.flushed = []
  refusing : s.refusing = true

/-- The session after a failed refresh: an extraction of the document waits to be
committed. -/
def Session.Holds (s : Session) (id : Uuid) : Prop :=
  ∃ known flushed row, s.On known flushed ∧ known.id = id ∧ .insertExtraction row ∈ flushed

/-- What a recording leaves alone. -/
structure Local.Keeps (l l' : Local) : Prop where
  run : l'.run = l.run
  processed : l'.processed = l.processed
  started : l'.started = l.started
  storage : l'.env.storage = l.env.storage
  openPdf : l'.env.openPdf = l.env.openPdf
  enqueue : l'.env.enqueue = l.env.enqueue

namespace Local

theorem Keeps.refl (l : Local) : l.Keeps l := ⟨rfl,rfl,rfl,rfl,rfl,rfl⟩

theorem Keeps.trans {l l' l'' : Local} (h : l.Keeps l') (h' : l'.Keeps l'') : l.Keeps l'' :=
  ⟨h'.run.trans h.run,h'.processed.trans h.processed,h'.started.trans h.started,
    h'.storage.trans h.storage,h'.openPdf.trans h.openPdf,h'.enqueue.trans h.enqueue⟩

@[simp] theorem calledDb_session (l : Local) : l.calledDb.session = l.session := rfl
@[simp] theorem calledDb_db (l : Local) : l.calledDb.env.db = l.env.db.tail := rfl
@[simp] theorem setSession_session (l : Local) (s : Session) : (l.setSession s).session = s := rfl
@[simp] theorem setSession_env (l : Local) (s : Session) : (l.setSession s).env = l.env := rfl
@[simp] theorem setSession_run (l : Local) (s : Session) : (l.setSession s).run = l.run := rfl
@[simp] theorem setSession_drawn (l : Local) (s : Session) : (l.setSession s).drawn = l.drawn := rfl

theorem keeps_setSession (l : Local) (s : Session) : l.Keeps (l.setSession s) := ⟨rfl,rfl,rfl,rfl,rfl,rfl⟩
theorem keeps_calledDb (l : Local) (s : Session) : l.Keeps (l.calledDb.setSession s) :=
  ⟨rfl,rfl,rfl,rfl,rfl,rfl⟩

end Local

section Writes
variable {α β : Type} {p : DocumentProcessor}

/-- How a part that makes `n` database calls for the document `id` ends. -/
inductive Wrote (l : Local) (id : Uuid) (n : ℕ) (done : α → Local → Prop) : Except Exc α → Local → Prop
  | complete {a : α} {l' : Local} (hcalls : ∀ k < n, l.env.db.get k = none)
      (hrest : l'.env.db = l.env.db.drop n) (hdone : done a l') : Wrote l id n done (.ok a) l'
  | refused {e : Exc} {l' : Local} {k : ℕ} (hk : k < n) (hfail : l.env.db.get k = some e)
      (hrest : l'.env.db = l.env.db.drop (k + 1)) (hs : l'.session.Refuses id) :
      Wrote l id n done (.error e) l'
  | held {e : Exc} {l' : Local} {k : ℕ} (hk : k < n) (hfail : l.env.db.get k = some e)
      (hrest : l'.env.db = l.env.db.drop (k + 1)) (hs : l'.session.Holds id) :
      Wrote l id n done (.error e) l'

def Writes (p : DocumentProcessor) (q : ServiceProg α) (l : Local) (id : Uuid) (n : ℕ)
    (done : α → Local → Prop) : Prop :=
  q.Calm (Machine.handler p) (fun r l' => l.Keeps l' ∧ Wrote l id n done r l') l

theorem writes_pure {l : Local} {id : Uuid} {a : α} {done : α → Local → Prop} (h : done a l) :
    Writes p (pure a) l id 0 done :=
  Prog.calm_done ⟨.refl l,.complete (fun _ hk => absurd hk (Nat.not_lt_zero _)) rfl h⟩

/-- An operation that makes no database call. -/
theorem writes_perform {op : ServiceOp} {l l' : Local} {id : Uuid} {a : op.Reply}
    {done : op.Reply → Local → Prop} (hop : ∀ w, Machine.handler p op (l,w) = (.ok a,l',w))
    (hkeep : l.Keeps l') (hdb : l'.env.db = l.env.db) (h : done a l') :
    Writes p (perform op) l id 0 done :=
  Prog.calm_perform hop ⟨hkeep,.complete (fun _ hk => absurd hk (Nat.not_lt_zero _)) hdb h⟩

theorem Writes.mono {q : ServiceProg α} {l : Local} {id : Uuid} {n : ℕ} {done done' : α → Local → Prop}
    (h : Writes p q l id n done) (hd : ∀ a l', l.Keeps l' → done a l' → done' a l') :
    Writes p q l id n done' := by
  refine Prog.Calm.mono h ?_
  rintro r l' ⟨hkeep,hr⟩
  refine ⟨hkeep,?_⟩
  cases hr with
  | complete hcalls hrest hdone => exact .complete hcalls hrest (hd _ _ hkeep hdone)
  | refused hk hfail hrest hs => exact .refused hk hfail hrest hs
  | held hk hfail hrest hs => exact .held hk hfail hrest hs

/-- The calls of two parts, one after the other. -/
theorem writes_bind {q : ServiceProg α} {f : α → ServiceProg β} {l : Local} {id : Uuid} {n m : ℕ}
    {R : α → Local → Prop} {done : β → Local → Prop} (hq : Writes p q l id n R)
    (hf : ∀ a l', l.Keeps l' → l'.env.db = l.env.db.drop n → R a l' → Writes p (f a) l' id m done) :
    Writes p (q >>= f) l id (n + m) done := by
  refine Prog.calm_bind hq ?_ ?_
  · rintro a l' ⟨hkeep,hr⟩
    cases hr with
    | complete hcalls hrest hdone =>
      refine Prog.Calm.mono (hf a l' hkeep hrest hdone) ?_
      have hget : ∀ k, l'.env.db.get k = l.env.db.get (n + k) := fun k => by
        rw [hrest,Stream'.get_drop]
      have hdrop : ∀ k, l'.env.db.drop k = l.env.db.drop (n + k) := fun k => by
        rw [hrest,Stream'.drop_drop]
      rintro r l'' ⟨hkeep',hr'⟩
      refine ⟨hkeep.trans hkeep',?_⟩
      cases hr' with
      | complete hcalls' hrest' hdone' =>
        refine .complete (fun k hk => ?_) (hrest'.trans (hdrop m)) hdone'
        rcases Nat.lt_or_ge k n with hkn | hkn
        · exact hcalls k hkn
        · have hrest'' := hcalls' (k - n) (by omega)
          rwa [hget,Nat.add_sub_cancel' hkn] at hrest''
      | refused hk hfail hrest' hs =>
        exact .refused (Nat.add_lt_add_left hk n) ((hget _).symm.trans hfail)
          (hrest'.trans (hdrop _)) hs
      | held hk hfail hrest' hs =>
        exact .held (Nat.add_lt_add_left hk n) ((hget _).symm.trans hfail) (hrest'.trans (hdrop _)) hs
  · rintro e l' ⟨hkeep,hr⟩
    refine ⟨hkeep,?_⟩
    cases hr with
    | refused hk hfail hrest hs => exact .refused (Nat.lt_add_right m hk) hfail hrest hs
    | held hk hfail hrest hs => exact .held (Nat.lt_add_right m hk) hfail hrest hs

/-- A first operation without a database call. -/
theorem writes_op {op : ServiceOp} {l l' : Local} {id : Uuid} {n : ℕ} {a : op.Reply}
    {f : op.Reply → ServiceProg β} {done : β → Local → Prop}
    (hop : ∀ w, Machine.handler p op (l,w) = (.ok a,l',w)) (hkeep : l.Keeps l')
    (hdb : l'.env.db = l.env.db) (hf : Writes p (f a) l' id n done) :
    Writes p (perform op >>= f) l id n done := by
  have hfirst : Writes p (perform op) l id 0 fun b l'' => b = a ∧ l'' = l' :=
    writes_perform hop hkeep hdb ⟨rfl,rfl⟩
  have hbind : Writes p (perform op >>= f) l id (0 + n) done := writes_bind hfirst ?_
  · rwa [Nat.zero_add] at hbind
  · rintro _ _ - - ⟨rfl,rfl⟩
    exact hf

/-- Without failing calls the part is done. -/
theorem Writes.faultless {q : ServiceProg α} {l : Local} {id : Uuid} {n : ℕ} {done : α → Local → Prop}
    (h : Writes p q l id n done) (hdb : l.env.db = Stream'.const none) :
    q.Calm (Machine.handler p)
      (fun r l' => l.Keeps l' ∧ l'.env.db = Stream'.const none ∧ ∃ a, r = .ok a ∧ done a l') l := by
  refine Prog.Calm.mono h ?_
  rintro r l' ⟨hkeep,hr⟩
  cases hr with
  | complete hcalls hrest hdone =>
    exact ⟨hkeep,by rw [hrest,hdb,Stream'.drop_const],_,rfl,hdone⟩
  | refused hk hfail => rw [hdb,Stream'.get_const] at hfail; cases hfail
  | held hk hfail => rw [hdb,Stream'.get_const] at hfail; cases hfail

end Writes

section Repositories
variable {p : DocumentProcessor} {l : Local} {known : Document} {flushed : List Change}

/-- The session works on, and neither ids nor times were drawn. -/
structure Local.Flushed (l : Local) (known : Document) (flushed : List Change) (l' : Local) : Prop where
  session : l'.session.On known flushed
  drawn : l'.drawn = l.drawn
  now : l'.env.now = l.env.now
  model : l'.env.model = l.env.model

/-- A flush of one change. -/
theorem flush_writes (known : Document) (c : Change) (hdoc : l.session.document = some ⟨known,false,false⟩)
    (hpending : l.session.pending = [c]) (hflushed : l.session.flushed = flushed)
    (hrefusing : l.session.refusing = false) :
    Writes p (perform .flush) l known.id 1 fun _ l' => l.Flushed known (flushed ++ [c]) l' := by
  have hwaits : l.session.pending ≠ [] := by rw [hpending]; exact List.cons_ne_nil _ _
  cases hhead : l.env.db.head with
  | none =>
    have hop : ∀ w, Machine.handler p .flush (l,w) =
        (.ok (),l.calledDb.setSession l.session.flushOk,w) :=
      Machine.handler_flush p (Local.flush_ok hwaits hrefusing hhead)
    refine Prog.calm_perform hop
      ⟨l.keeps_calledDb _,.complete (fun k hk => ?_) rfl ⟨⟨hdoc,rfl,?_,hrefusing⟩,rfl,rfl,rfl⟩⟩
    · obtain rfl : k = 0 := Nat.lt_one_iff.mp hk
      exact hhead
    · simp [Session.flushOk,hpending,hflushed]
  | some e =>
    have hop : ∀ w, Machine.handler p .flush (l,w) =
        (.error e,l.calledDb.setSession l.session.flushFailed,w) :=
      Machine.handler_flush p (Local.flush_error hwaits hrefusing hhead)
    refine Prog.calm_perform hop
      ⟨l.keeps_calledDb _,.refused Nat.zero_lt_one hhead rfl ⟨⟨⟨known,true,false⟩,?_,rfl,rfl⟩,rfl,rfl,rfl⟩⟩
    simp [Session.flushFailed,hdoc,Tracked.rolledBack]

theorem setStatus_writes (hs : l.session.On known flushed) (status : DocumentStatus) :
    Writes p (setStatus status) l known.id (statusChange known status).length
      fun _ l' => l.Flushed (known.with status) (flushed ++ statusChange known status) l' := by
  refine writes_op (fun w => rfl) (l.keeps_setSession (l.session.assignStatus status)) rfl ?_
  by_cases hstatus : known.status = status
  · have hassign : l.session.assignStatus status =
        { l.session with document := some ⟨known.with status,false,false⟩ } := by
      simp [Session.assignStatus,hs.document,hstatus,Document.with]
    simp only [hassign,statusChange,hstatus,if_true,List.length_nil,List.append_nil]
    refine writes_perform (Machine.handler_flush p (Local.flush_idle ?_)) (.refl _) rfl
      ⟨⟨rfl,hs.pending,hs.flushed,hs.refusing⟩,rfl,rfl,rfl⟩
    exact hs.pending
  · have hassign : l.session.assignStatus status =
        { l.session.add (.updateStatus known.id status) with
          document := some ⟨known.with status,false,false⟩ } := by
      simp [Session.assignStatus,hs.document,hstatus,Document.with,Session.add]
    simp only [hassign,statusChange,hstatus,if_false,List.length_singleton]
    refine Writes.mono (flush_writes (known.with status) (.updateStatus known.id status) rfl ?_
      hs.flushed hs.refusing) ?_
    · simp [Session.add,hs.pending]
    · exact fun _ l' _ h => ⟨h.session,h.drawn,h.now,h.model⟩

/-- The flush of an object that was added. -/
theorem added_writes (hs : l.session.On known flushed) (c : Change) :
    Writes p (perform .flush) (l.setSession (l.session.add c)) known.id 1
      fun _ l' => l.Flushed known (flushed ++ [c]) l' := by
  refine Writes.mono (flush_writes known c hs.document ?_ hs.flushed hs.refusing) ?_
  · simp [Session.add,hs.pending]
  · exact fun _ l' _ h => ⟨h.session,h.drawn,h.now,h.model⟩

theorem createExtraction_writes (hs : l.session.On known flushed) (row : Extraction) :
    Writes p (createExtraction row) l known.id 1
      fun _ l' => l.Flushed known (flushed ++ [.insertExtraction row]) l' :=
  writes_op (fun _ => rfl) (l.keeps_setSession _) rfl (added_writes hs (.insertExtraction row))

/-- The refresh of a flushed row finds it. -/
theorem refreshExtraction_writes {row : Extraction} (hs : l.session.On known flushed)
    (hrow : .insertExtraction row ∈ flushed) :
    Writes p (perform (.refreshExtraction row.id)) l known.id 1
      fun _ l' => l.Flushed known flushed l' := by
  cases hhead : l.env.db.head with
  | none =>
    have hview : ∀ w, (Machine.view l.calledDb w).extractions.any (fun x => x.id = row.id) = true := by
      intro w
      rw [List.any_eq_true]
      refine ⟨row,?_,by simp⟩
      simp only [Machine.view,Local.calledDb_session,hs.flushed,Database.extractions_applyAll,
        List.mem_append,List.mem_filterMap]
      exact .inr ⟨_,hrow,rfl⟩
    have hop : ∀ w, Machine.handler p (.refreshExtraction row.id) (l,w) =
        (.ok (),l.calledDb.setSession { l.session with begun := true },w) := by
      intro w
      simp only [Machine.handler,Machine.refreshExtraction,Local.call_ok hs.pending hs.refusing hhead]
      exact if_pos (hview w)
    refine Prog.calm_perform hop ⟨l.keeps_calledDb _,.complete (fun k hk => ?_) rfl
      ⟨⟨hs.document,hs.pending,hs.flushed,hs.refusing⟩,rfl,rfl,rfl⟩⟩
    obtain rfl : k = 0 := Nat.lt_one_iff.mp hk
    exact hhead
  | some e =>
    have hop : ∀ w, Machine.handler p (.refreshExtraction row.id) (l,w) =
        (.error e,l.calledDb.setSession { l.session with begun := true },w) := by
      intro w
      simp only [Machine.handler,Machine.refreshExtraction,Local.call_error hs.pending hs.refusing hhead]
      rfl
    exact Prog.calm_perform hop ⟨l.keeps_calledDb _,.held Nat.zero_lt_one hhead rfl
      ⟨known,flushed,row,⟨hs.document,hs.pending,hs.flushed,hs.refusing⟩,rfl,hrow⟩⟩

theorem createFromFields_writes (hs : l.session.On known flushed) (row : Extraction) :
    Writes p (createFromFields row) l known.id 2
      fun _ l' => l.Flushed known (flushed ++ [.insertExtraction row]) l' := by
  have hassoc : createFromFields row =
      createExtraction row >>= fun _ => perform (.refreshExtraction row.id) :=
    (bind_assoc (perform (.addExtraction row)) _ _).symm
  rw [hassoc]
  show Writes p _ l known.id (1 + 1) _
  refine writes_bind (createExtraction_writes hs row) ?_
  intro _ l₁ _ _ h₁
  refine (refreshExtraction_writes h₁.session (List.mem_append_right _ (List.mem_singleton_self _))).mono ?_
  exact fun _ l' _ h =>
    ⟨h.session,h.drawn.trans h₁.drawn,h.now.trans h₁.now,h.model.trans h₁.model⟩

theorem createUsage_writes (hs : l.session.On known flushed) (documentId extractionId : Uuid)
    (event : LLMUsageEvent) :
    Writes p (createUsage documentId extractionId event) l known.id 1 fun _ l' =>
      l'.session.On known (flushed ++
        [.insertUsage (usageRow l.run l.drawn l.env.now.head documentId extractionId event)]) ∧
      l'.drawn = l.drawn + 1 ∧ l'.env.now = l.env.now.tail := by
  refine writes_op (fun _ => rfl) ⟨rfl,rfl,rfl,rfl,rfl,rfl⟩ rfl ?_
  refine writes_op (fun _ => rfl) ⟨rfl,rfl,rfl,rfl,rfl,rfl⟩ rfl ?_
  refine writes_op (fun _ => rfl) ⟨rfl,rfl,rfl,rfl,rfl,rfl⟩ rfl ?_
  set l₁ : Local := { l with
    drawn := l.drawn + 1
    env := { l.env with now := l.env.now.tail } }
  have hs₁ : l₁.session.On known flushed := hs
  exact (added_writes hs₁ _).mono fun _ l' _ h => ⟨h.session,h.drawn,h.now⟩

/-- Usage rows are flushed one after the other, in the order of their events. -/
theorem usages_writes (documentId extractionId : Uuid) (events : List LLMUsageEvent)
    (hs : l.session.On known flushed) :
    Writes p (forM events (createUsage documentId extractionId)) l known.id events.length fun _ l' =>
      l'.session.On known (flushed ++
        (usageRows l.run documentId extractionId l.drawn l.env.now events).map .insertUsage) := by
  induction events generalizing l flushed with
  | nil => exact writes_pure (by simpa [usageRows] using hs)
  | cons event events ih =>
    rw [List.forM_cons,List.length_cons,Nat.add_comm]
    refine writes_bind (createUsage_writes hs documentId extractionId event) ?_
    rintro _ l₁ hkeep - ⟨hs₁,hdrawn,hnow⟩
    refine (ih hs₁).mono fun _ l' _ h => ?_
    rwa [hkeep.run,hdrawn,hnow,List.append_assoc] at h

theorem addUsageEvents_writes (c : Config) (documentId extractionId : Uuid)
    (events : List LLMUsageEvent) (inputTokens outputTokens : ℕ) (hs : l.session.On known flushed) :
    Writes p (addUsageEvents c documentId extractionId events inputTokens outputTokens) l known.id
      (events.length + 1) fun _ l' =>
      l'.session.On known (flushed ++
        (usageRows l.run documentId extractionId l.drawn l.env.now
          (events ++ [extractionUsage c inputTokens outputTokens])).map .insertUsage) := by
  have hforM : addUsageEvents c documentId extractionId events inputTokens outputTokens =
      forM (events ++ [extractionUsage c inputTokens outputTokens])
        (createUsage documentId extractionId) := by
    rw [List.forM_append,List.forM_cons,List.forM_nil,addUsageEvents]
    exact congrArg _ (funext fun _ => (bind_pure _).symm)
  rw [hforM]
  simpa only [List.length_append,List.length_singleton] using
    usages_writes documentId extractionId (events ++ [extractionUsage c inputTokens outputTokens]) hs

end Repositories

section Recorders
variable {c : Config} {l : Local} {known : Document} {flushed : List Change}

theorem Session.On.documentAttributes {s : Session} (hs : s.On known flushed) :
    s.documentAttributes = .ok known := by
  simp [Session.documentAttributes,hs.document]

theorem recordSuccess_writes (hs : l.session.On known flushed) (r : DocumentProcessingResult) :
    Writes c.processor (recordSuccess c r) l known.id (r.classifierUsageEvents.length + 4) fun _ l' =>
      l'.session.On known (flushed ++ (recordedSuccess c r).rows l.run l.drawn l.env.now 0 known.id) := by
  refine writes_op (Machine.handler_documentAttributes _ hs.documentAttributes) (.refl l) rfl ?_
  refine writes_op (fun _ => rfl) ⟨rfl,rfl,rfl,rfl,rfl,rfl⟩ rfl ?_
  refine writes_op (fun _ => rfl) ⟨rfl,rfl,rfl,rfl,rfl,rfl⟩ rfl ?_
  set l₁ : Local := { l with
    drawn := l.drawn + 1
    env := { l.env with now := l.env.now.tail } }
  have hs₁ : l₁.session.On known flushed := hs
  set row := successExtraction c (.drawn l.run l.drawn) known.id r.pipeline l.env.now.head
  rw [show r.classifierUsageEvents.length + 4 = 2 + (r.classifierUsageEvents.length + 1 + 1) by omega]
  refine writes_bind (createFromFields_writes hs₁ row) ?_
  intro _ l₂ hkeep₂ _ h₂
  refine writes_op (Machine.handler_documentAttributes _ h₂.session.documentAttributes) (.refl l₂) rfl ?_
  refine writes_bind (addUsageEvents_writes c known.id row.id r.classifierUsageEvents
    r.pipeline.extraction.inputTokens r.pipeline.extraction.outputTokens h₂.session) ?_
  intro _ l₃ _ _ hs₃
  have hrow : .insertExtraction row ∈ flushed ++ [.insertExtraction row] ++
      (usageRows l₂.run known.id row.id l₂.drawn l₂.env.now (r.classifierUsageEvents ++
        [extractionUsage c r.pipeline.extraction.inputTokens
          r.pipeline.extraction.outputTokens])).map Change.insertUsage := by simp
  show Writes _ _ l₃ known.id (1 + 0) _
  refine writes_bind (refreshExtraction_writes hs₃ hrow) ?_
  intro _ l₄ _ _ h₄
  refine writes_op (Machine.handler_documentAttributes _ h₄.session.documentAttributes) (.refl l₄) rfl ?_
  refine writes_pure ?_
  have hs₄ := h₄.session
  rw [hkeep₂.run,h₂.drawn,h₂.now,List.append_assoc] at hs₄
  exact hs₄

theorem recordFailure_writes (hs : l.session.On known flushed) (resolved : ResolvedDocumentInput)
    (startedAt : ℚ) (e : ExtractionError) :
    Writes c.processor (recordFailure c resolved startedAt e) l known.id
      (resolved.usageEvents.length + 2) fun _ l' =>
      l'.session.On known (flushed ++ (recordedFailure c resolved e).rows l.run l.drawn l.env.now
        (durationMs startedAt l.env.model.clock.head) known.id) := by
  refine writes_op (Machine.handler_documentAttributes _ hs.documentAttributes) (.refl l) rfl ?_
  refine writes_op (fun _ => rfl) ⟨rfl,rfl,rfl,rfl,rfl,rfl⟩ rfl ?_
  refine writes_op (fun _ => rfl) ⟨rfl,rfl,rfl,rfl,rfl,rfl⟩ rfl ?_
  refine writes_op (fun _ => rfl) ⟨rfl,rfl,rfl,rfl,rfl,rfl⟩ rfl ?_
  set l₁ : Local := { l with
    drawn := l.drawn + 1
    env := { l.env with model := l.env.model.tick, now := l.env.now.tail } }
  have hs₁ : l₁.session.On known flushed := hs
  set row := failedExtraction c (.drawn l.run l.drawn) known.id resolved e
    (durationMs startedAt l.env.model.clock.head) l.env.now.head
  rw [show resolved.usageEvents.length + 2 = 1 + (resolved.usageEvents.length + 1) by omega]
  refine writes_bind (createExtraction_writes hs₁ row) ?_
  intro _ l₂ hkeep₂ _ h₂
  refine writes_op (Machine.handler_documentAttributes _ h₂.session.documentAttributes) (.refl l₂) rfl ?_
  refine (addUsageEvents_writes c known.id row.id resolved.usageEvents e.inputTokens e.outputTokens
    h₂.session).mono fun _ l' _ h => ?_
  rw [hkeep₂.run,h₂.drawn,h₂.now,List.append_assoc] at h
  exact h

/-- What is flushed before the commit of a recording. -/
def flushRecording (c : Config) (startedAt : ℚ) :
    Except Exc DocumentProcessingResult → ServiceProg (Except Exc ExtractResponse)
  | .ok r => do
    setStatus (documentStatusFor r)
    Except.ok <$> recordSuccess c r
  | .error (.documentProcessing resolved e) => do
    setStatus .failed
    recordFailure c resolved startedAt e
    return .error (.extraction e)
  | .error e => return .error e

/-- The database calls of `flushRecording`. -/
def recordingCalls (known : Document) : Except Exc DocumentProcessingResult → ℕ
  | .ok r => (statusChange known (documentStatusFor r)).length + (r.classifierUsageEvents.length + 4)
  | .error (.documentProcessing resolved _) =>
    (statusChange known .failed).length + (resolved.usageEvents.length + 2)
  | .error _ => 0

variable {o : Except Exc DocumentProcessingResult} {rec : Recorded} (startedAt : ℚ)

/-- A recording is what is flushed, and one commit. -/
theorem recordOutcome_recorded (h : recorded c o = some rec) :
    recordOutcome c startedAt o = flushRecording c startedAt o >>= fun a =>
      perform .commit >>= fun _ => Prog.ofExcept a := by
  match o, h with
  | .ok r, _ =>
    simp only [recordOutcome,recordProcessingSuccess,flushRecording,bind_assoc,bind_map_left]
    rfl
  | .error (.documentProcessing resolved e), _ =>
    simp only [recordOutcome,recordProcessingFailure,flushRecording,bind_assoc,pure_bind]
    exact (bind_assoc _ _ _).trans (congrArg _ (funext fun _ => bind_assoc _ _ _))

theorem recordOutcome_passes (h : recorded c o = none) :
    ∃ e, o = .error e ∧ recordOutcome c startedAt o = throw e := by
  cases o with
  | ok r => cases h
  | error e =>
    refine ⟨e,rfl,?_⟩
    cases e <;> first | rfl | cases h

theorem flushRecording_writes (hs : l.session.On known flushed) (h : recorded c o = some rec) :
    Writes c.processor (flushRecording c startedAt o) l known.id (recordingCalls known o) fun a l' =>
      a.isOk = o.isOk ∧ ∃ durationMs, l'.session.On (known.with rec.status)
        (flushed ++ rec.changes l.run l.drawn l.env.now durationMs known) := by
  match o, h with
  | .ok r, h =>
    obtain rfl : recordedSuccess c r = rec := Option.some.inj h
    refine writes_bind (setStatus_writes hs _) fun _ l₁ hkeep _ h₁ => ?_
    rw [map_eq_pure_bind]
    show Writes _ _ _ _ (r.classifierUsageEvents.length + 4 + 0) _
    refine writes_bind (recordSuccess_writes h₁.session r) fun _ l₂ _ _ h₂ => writes_pure ⟨rfl,0,?_⟩
    rw [hkeep.run,h₁.drawn,h₁.now,List.append_assoc] at h₂
    exact h₂
  | .error (.documentProcessing resolved e), h =>
    obtain rfl : recordedFailure c resolved e = rec := Option.some.inj h
    refine writes_bind (setStatus_writes hs _) fun _ l₁ hkeep _ h₁ => ?_
    show Writes _ _ _ _ (resolved.usageEvents.length + 2 + 0) _
    refine writes_bind (recordFailure_writes h₁.session resolved startedAt e) fun _ l₂ _ _ h₂ =>
      writes_pure ⟨rfl,durationMs startedAt l₁.env.model.clock.head,?_⟩
    rw [hkeep.run,h₁.drawn,h₁.now,List.append_assoc] at h₂
    exact h₂

end Recorders

end StructuredExtractor
