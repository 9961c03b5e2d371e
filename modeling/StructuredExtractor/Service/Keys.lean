import StructuredExtractor.Library.Straight
import StructuredExtractor.Service.Interleaving

/-! # Primary keys, whatever fails

Requests and workers side by side, where any call may fail, those of the database
too. Every row is inserted under an id that its run has drawn and used for nothing
else, so no insert meets a row that is there: keys stay distinct, and a row that is
durable stays what it is, up to the status of a document.
-/
namespace StructuredExtractor
open Service

/-- A request comes in, or a worker takes a job that waits. Nothing is said about
what fails in it. -/
inductive Arrives (c : Config) (p : ServicePool) : ServiceThread → World → Prop
  | request {r : ExtractRequest} {env : Env} :
      Arrives c p (startThread c p.threads.length (.request r) env) p.shared
  | worker {job : Job} {env : Env} {before after : List Job}
      (hqueue : p.shared.queue = before ++ job :: after) :
      Arrives c p (startThread c p.threads.length (.worker job) env) (p.shared.withQueue (before ++ after))

theorem Starts.arrives {c : Config} {p : ServicePool} {t : ServiceThread} {g : World} (h : Starts c p t g) :
    Arrives c p t g := by
  cases h with
  | request => exact .request
  | worker _ hqueue => exact .worker hqueue

/-- The id under which a change inserts a row. -/
def Change.inserted? : Change → Option Uuid
  | insertDocument row => some row.id
  | insertExtraction row => some row.id
  | insertUsage row => some row.id
  | updateStatus _ _ => none

def Action.changes : Action → List Change
  | .commit changes => changes
  | _ => []

def Action.inserted (a : Action) : List Uuid := a.changes.filterMap Change.inserted?

/-- The ids that the run has inserted rows under, durable or not yet. -/
def Local.used (l : Local) (w : World) : List Uuid :=
  (w.trace l.run).flatMap Action.inserted ++ (l.session.flushed ++ l.session.pending).filterMap Change.inserted?

/-- The id that an operation adds a row under. -/
def ServiceOp.adds? : ServiceOp → Option Uuid
  | .addDocument row => some row.id
  | .addExtraction row => some row.id
  | .addUsage row => some row.id
  | _ => none

/-- The operation adds no row. -/
def ServiceOp.AddsNothing (op : ServiceOp) : Prop := op.adds? = none

instance (op : ServiceOp) : Decidable op.AddsNothing := inferInstanceAs (Decidable (_ = _))

section Operations
variable {p : DocumentProcessor} {l : Local} {w : World}

/-- What an operation that adds no row does with the rows that wait. -/
structure Moved (l : Local) (w : World) (l' : Local) (w' : World) : Prop where
  run : l'.run = l.run
  drawn : l.drawn ≤ l'.drawn
  used : l'.used w' <+: l.used w
  world : w' = w ∨ ∃ a, w' = w.act l.run a ∧ (w'.trace l.run).flatMap Action.inserted <+: l.used w

theorem Moved.refl (l : Local) (w : World) : Moved l w l w := ⟨rfl,Nat.le_refl _,List.prefix_rfl,.inl rfl⟩

theorem Moved.trans_local {l' l'' : Local} {w' : World} (h : Moved l w l' w) (h' : Moved l' w l'' w') :
    Moved l w l'' w' := by
  refine ⟨h'.run.trans h.run,h.drawn.trans h'.drawn,h'.used.trans h.used,h'.world.imp id ?_⟩
  rintro ⟨a,ha,hused⟩
  rw [h.run] at ha hused
  exact ⟨a,ha,hused.trans h.used⟩

/-- Only the session changes, and its rows stay or are dropped. -/
theorem moved_session {l' : Local} (hrun : l'.run = l.run) (hdrawn : l'.drawn = l.drawn)
    (hrows : (l'.session.flushed ++ l'.session.pending).filterMap Change.inserted? <+:
      (l.session.flushed ++ l.session.pending).filterMap Change.inserted?) : Moved l w l' w := by
  refine ⟨hrun,hdrawn.ge,?_,.inl rfl⟩
  rw [Local.used,Local.used,hrun]
  exact (List.prefix_append_right_inj _).mpr hrows

theorem moved_same {l' : Local} (hrun : l'.run = l.run) (hdrawn : l'.drawn = l.drawn)
    (hflushed : l'.session.flushed = l.session.flushed) (hpending : l'.session.pending = l.session.pending) :
    Moved l w l' w :=
  moved_session hrun hdrawn (by rw [hflushed,hpending])

theorem flush_moved (l : Local) (w : World) : Moved l w l.flush.2 w := by
  unfold Local.flush
  split
  · exact .refl l w
  · split
    · exact .refl l w
    · cases l.env.db.head with
      | none =>
        refine moved_session rfl rfl ?_
        simp [Local.setSession,Local.calledDb,Session.flushOk]
      | some e =>
        refine moved_session rfl rfl ?_
        simp [Local.setSession,Session.flushFailed]

/-- A call that flushes first, when its own failure leaves the rows where they are. -/
theorem call_moved (failed : Session → Session) (hflushed : ∀ s, (failed s).flushed = s.flushed)
    (hpending : ∀ s, (failed s).pending = s.pending) (l : Local) (w : World) : Moved l w (l.call failed).2 w := by
  have hflush := flush_moved l w
  unfold Local.call
  rcases h : l.flush with ⟨_ | _,l₁⟩
  · rw [h] at hflush
    exact hflush
  · rw [h] at hflush
    dsimp only
    split
    · exact hflush
    · cases l₁.env.db.head with
      | none => exact hflush.trans_local (moved_same rfl rfl rfl rfl)
      | some e => exact hflush.trans_local (moved_same rfl rfl (hflushed _) (hpending _))

theorem selectDocument_moved (id : Uuid) (l : Local) (w : World) :
    Moved l w (Machine.selectDocument id l w).2.1 (Machine.selectDocument id l w).2.2 := by
  have hcall := call_moved (fun s => { s with begun := true }) (fun _ => rfl) (fun _ => rfl) l w
  unfold Machine.selectDocument
  rcases h : l.call fun s => { s with begun := true } with ⟨_ | _,l₁⟩
  · rw [h] at hcall
    exact hcall
  · rw [h] at hcall
    exact hcall.trans_local (moved_same rfl rfl rfl rfl)

theorem refreshExtraction_moved (id : Uuid) (l : Local) (w : World) :
    Moved l w (Machine.refreshExtraction id l w).2.1 (Machine.refreshExtraction id l w).2.2 := by
  have hcall := call_moved (fun s => { s with begun := true }) (fun _ => rfl) (fun _ => rfl) l w
  unfold Machine.refreshExtraction
  rcases h : l.call fun s => { s with begun := true } with ⟨_ | _,l₁⟩
  · rw [h] at hcall
    exact hcall
  · rw [h] at hcall
    have hbegun : Moved l₁ w (l₁.setSession { l₁.session with begun := true }) w := moved_same rfl rfl rfl rfl
    dsimp only
    split <;> exact hcall.trans_local hbegun

theorem refreshDocument_moved (l : Local) (w : World) :
    Moved l w (Machine.refreshDocument l w).2.1 (Machine.refreshDocument l w).2.2 := by
  have hexpire : Moved l w (l.setSession l.session.expireDocument) w := moved_same rfl rfl rfl rfl
  have hcall := hexpire.trans_local
    (call_moved id (fun _ => rfl) (fun _ => rfl) (l.setSession l.session.expireDocument) w)
  unfold Machine.refreshDocument
  dsimp only
  split
  · next h => rw [h] at hcall; exact hcall
  · next h _ => rw [h] at hcall; exact hcall
  · next h _ =>
    rw [h] at hcall
    split
    · exact hcall
    · exact hcall.trans_local (moved_same rfl rfl rfl rfl)

/-- A commit makes what was flushed a part of the trace. -/
theorem commit_moved (l : Local) (w : World) : Moved l w (Machine.commit l w).2.1 (Machine.commit l w).2.2 := by
  have hcall : Moved l w l.commit.2 w := by
    obtain ⟨-,hidle⟩ | hcall := l.commit_cases
    · exact hidle ▸ .refl l w
    · exact hcall ▸ call_moved Session.commitFailed (fun _ => rfl) (fun _ => rfl) l w
  unfold Machine.commit
  rcases h : l.commit with ⟨_ | _,l₁⟩
  · rw [h] at hcall
    exact hcall
  · rw [h] at hcall
    by_cases hflushed : l₁.session.flushed = []
    · simp only [hflushed,if_true]
      exact hcall.trans_local (moved_same rfl rfl hflushed.symm rfl)
    · simp only [hflushed,if_false]
      have htrace : ((w.act l₁.run (.commit l₁.session.flushed)).trace l₁.run).flatMap Action.inserted =
          (w.trace l₁.run).flatMap Action.inserted ++ l₁.session.flushed.filterMap Change.inserted? := by
        simp [Action.inserted,Action.changes]
      have hused : (l₁.setSession l₁.session.commitOk).used (w.act l₁.run (.commit l₁.session.flushed)) =
          l₁.used w := by
        show ((w.act l₁.run _).trace l₁.run).flatMap Action.inserted ++
          ([] ++ l₁.session.pending).filterMap Change.inserted? = l₁.used w
        rw [htrace,Local.used,List.nil_append,List.filterMap_append,List.append_assoc]
      refine ⟨hcall.run,hcall.drawn,hused ▸ hcall.used,.inr ⟨.commit l₁.session.flushed,?_,?_⟩⟩
      · rw [← hcall.run]
      · rw [← hcall.run,htrace]
        refine List.IsPrefix.trans ?_ hcall.used
        rw [Local.used,List.filterMap_append,← List.append_assoc]
        exact List.prefix_append _ _

/-- An action that inserts nothing. -/
theorem act_moved {l' : Local} {a : Action} (hrun : l'.run = l.run) (hdrawn : l'.drawn = l.drawn)
    (hsession : l'.session = l.session) (ha : a.inserted = []) : Moved l w l' (w.act l.run a) := by
  have htrace : ((w.act l.run a).trace l.run).flatMap Action.inserted =
      (w.trace l.run).flatMap Action.inserted := by
    simp [ha]
  refine ⟨hrun,hdrawn.ge,?_,.inr ⟨a,rfl,?_⟩⟩
  · rw [Local.used,Local.used,hrun,hsession,htrace]
  · rw [htrace]
    exact List.prefix_append _ _

theorem save_moved (fileId : UuidText) (content : Bytes) (filename : String) (l : Local) (w : World) :
    Moved l w (Machine.save fileId content filename l w).2.1 (Machine.save fileId content filename l w).2.2 := by
  unfold Machine.save
  cases l.env.storage.head with
  | some e => exact moved_same rfl rfl rfl rfl
  | none => exact act_moved (a := .save (storagePath fileId filename) content) rfl rfl rfl rfl

theorem load_moved (path : StoragePath) (l : Local) (w : World) :
    Moved l w (Machine.load path l w).2.1 (Machine.load path l w).2.2 := by
  unfold Machine.load
  split <;> exact moved_same rfl rfl rfl rfl

theorem delete_moved (path : StoragePath) (l : Local) (w : World) :
    Moved l w (Machine.delete path l w).2.1 (Machine.delete path l w).2.2 := by
  unfold Machine.delete
  cases l.env.storage.head with
  | some e => exact moved_same rfl rfl rfl rfl
  | none => exact act_moved (a := .delete path) rfl rfl rfl rfl

theorem enqueueJob_moved (documentId : UuidText) (docType strategy : Option String) (l : Local) (w : World) :
    Moved l w (Machine.enqueueJob documentId docType strategy l w).2.1
      (Machine.enqueueJob documentId docType strategy l w).2.2 := by
  unfold Machine.enqueueJob
  cases l.env.enqueue.head with
  | error e => exact moved_same rfl rfl rfl rfl
  | ok jobId => exact act_moved (a := .enqueue ⟨documentId,docType,strategy,l.run⟩) rfl rfl rfl rfl

theorem handler_moved (op : ServiceOp) (hop : op.AddsNothing) (l : Local) (w : World) :
    Moved l w (Machine.handler p op (l,w)).2.1 (Machine.handler p op (l,w)).2.2 := by
  cases op with
  | addDocument row => cases hop
  | addExtraction row => cases hop
  | addUsage row => cases hop
  | selectDocument id => exact selectDocument_moved id l w
  | assignStatus status =>
    refine moved_session rfl rfl ?_
    show ((l.session.assignStatus status).flushed ++ (l.session.assignStatus status).pending).filterMap _ <+: _
    unfold Session.assignStatus
    cases l.session.document with
    | none => exact List.prefix_rfl
    | some t =>
      dsimp only
      split
      · exact List.prefix_rfl
      · have hnone : [Change.updateStatus t.attributes.id status].filterMap Change.inserted? = [] := rfl
        simp only [Session.add,List.filterMap_append,hnone,List.append_nil,List.prefix_rfl]
  | flush => exact flush_moved l w
  | commit => exact commit_moved l w
  | rollback =>
    refine moved_session rfl rfl ?_
    show (l.session.rollback.flushed ++ l.session.rollback.pending).filterMap _ <+: _
    unfold Session.rollback
    split
    · simp
    · exact List.prefix_rfl
  | refreshDocument => exact refreshDocument_moved l w
  | refreshExtraction id => exact refreshExtraction_moved id l w
  | documentAttributes => exact .refl l w
  | save fileId content filename => exact save_moved fileId content filename l w
  | load path => exact load_moved path l w
  | delete path => exact delete_moved path l w
  | openPdf content => exact moved_same rfl rfl rfl rfl
  | enqueueJob documentId docType strategy => exact enqueueJob_moved documentId docType strategy l w
  | uuid4 => exact ⟨rfl,Nat.le_succ _,List.prefix_rfl,.inl rfl⟩
  | now => exact moved_same rfl rfl rfl rfl
  | monotonic => exact moved_same rfl rfl rfl rfl
  | processPages input => exact moved_same rfl rfl rfl rfl
  | startRun id => exact moved_same rfl rfl rfl rfl

/-- A row that is added waits in the session. -/
theorem handler_adds {op : ServiceOp} {id : Uuid} (hop : op.adds? = some id) (l : Local) (w : World) :
    (Machine.handler p op (l,w)).2.2 = w ∧ (Machine.handler p op (l,w)).2.1.run = l.run ∧
      (Machine.handler p op (l,w)).2.1.drawn = l.drawn ∧
      (Machine.handler p op (l,w)).2.1.used w = l.used w ++ [id] := by
  cases op <;> cases hop <;>
    simp [Machine.handler,Local.used,Session.add,Session.addDocument,Change.inserted?,List.filterMap_append]

end Operations

/-- Run `i` has inserted rows under ids that it drew, each for one row. -/
structure DrawsFresh (i : ℕ) (l : Local) (w : World) : Prop where
  run : l.run = i
  nodup : (l.used w).Nodup
  drawn : ∀ id ∈ l.used w, ∃ n < l.drawn, id = .drawn i n

/-- The run has drawn the id and used it for no row. -/
structure Vacant (i : ℕ) (id : Uuid) (l : Local) (w : World) : Prop extends DrawsFresh i l w where
  known : ∃ n < l.drawn, id = .drawn i n
  free : id ∉ l.used w

/-- What a run inserts is under ids of its own, and each id is inserted once. -/
def keyed : Discipline Label World where
  guar i _ w w' := w' = w ∨ ∃ a, w' = w.act i a ∧ ((w'.trace i).flatMap Action.inserted).Nodup ∧
    ∀ id ∈ (w'.trace i).flatMap Action.inserted, ∃ n, id = .drawn i n
  rely i w w' := w'.trace i = w.trace i
  guar_refl _ _ _ := .inl rfl
  rely_refl _ _ := rfl
  rely_trans h h' := h'.trans h
  guar_rely := by
    rintro i j label w w' hne (rfl | ⟨a,rfl,-⟩)
    · rfl
    · exact w.trace_act_other hne.symm a

section Keys
variable {p : DocumentProcessor} {c : Config} {i : ℕ} {label : Label} {l l' : Local} {w w' : World} {id : Uuid}

theorem DrawsFresh.start (htrace : w.trace i = []) (env : Env) : DrawsFresh i (.start i env) w := by
  have hused : (Local.start i env).used w = [] := by
    simp [Local.used,Local.start,htrace,Session.new]
  exact ⟨rfl,by rw [hused]; exact List.nodup_nil,by simp [hused]⟩

theorem DrawsFresh.rely (h : DrawsFresh i l w) (hw : w'.trace i = w.trace i) : DrawsFresh i l w' := by
  have hused : l.used w' = l.used w := by rw [Local.used,Local.used,h.run,hw]
  exact ⟨h.run,hused ▸ h.nodup,hused ▸ h.drawn⟩

theorem Vacant.rely (h : Vacant i id l w) (hw : w'.trace i = w.trace i) : Vacant i id l w' := by
  have hused : l.used w' = l.used w := by rw [Local.used,Local.used,h.run,hw]
  exact ⟨h.toDrawsFresh.rely hw,h.known,hused ▸ h.free⟩

theorem Moved.fresh (hm : Moved l w l' w') (h : DrawsFresh i l w) : DrawsFresh i l' w' := by
  refine ⟨hm.run.trans h.run,h.nodup.sublist hm.used.sublist,fun id hid => ?_⟩
  obtain ⟨n,hn,hid'⟩ := h.drawn id (hm.used.subset hid)
  exact ⟨n,hn.trans_le hm.drawn,hid'⟩

theorem Moved.vacant (hm : Moved l w l' w') (h : Vacant i id l w) : Vacant i id l' w' := by
  obtain ⟨n,hn,hid⟩ := h.known
  exact ⟨hm.fresh h.toDrawsFresh,⟨n,hn.trans_le hm.drawn,hid⟩,fun hmem => h.free (hm.used.subset hmem)⟩

theorem Moved.guar (hm : Moved l w l' w') (h : DrawsFresh i l w) : keyed.guar i label w w' := by
  refine hm.world.imp id ?_
  rintro ⟨a,ha,hused⟩
  rw [h.run] at ha hused
  refine ⟨a,ha,h.nodup.sublist hused.sublist,fun id hid => ?_⟩
  obtain ⟨n,-,hn⟩ := h.drawn id (hused.subset hid)
  exact ⟨n,hn⟩

theorem only_op {op : ServiceOp} (h : op.AddsNothing) : (perform op).Only ServiceOp.AddsNothing :=
  Prog.only_perform h

theorem only_done {α : Type} (r : Except Exc α) : (Prog.done r : ServiceProg α).Only ServiceOp.AddsNothing := trivial

/-- A program that adds no row. -/
theorem only_fresh {α : Type} {q : ServiceProg α} (hq : q.Only ServiceOp.AddsNothing) (h : DrawsFresh i l w) :
    q.Safe (Machine.handler p) keyed i label (fun _ => DrawsFresh i) l w :=
  hq.safe (fun _ _ _ h hw => h.rely hw) (fun op l w hop h => (handler_moved op hop l w).guar h)
    (fun op l w hop h => (handler_moved op hop l w).fresh h) h

theorem only_vacant {α : Type} {q : ServiceProg α} (hq : q.Only ServiceOp.AddsNothing) (h : Vacant i id l w) :
    q.Safe (Machine.handler p) keyed i label (fun _ => Vacant i id) l w :=
  hq.safe (fun _ _ _ h hw => h.rely hw) (fun op l w hop h => (handler_moved op hop l w).guar h.toDrawsFresh)
    (fun op l w hop h => (handler_moved op hop l w).vacant h) h

/-- A row is added under a vacant id. -/
theorem add_fresh {op : ServiceOp} (hop : op.adds? = some id) (h : Vacant i id l w) :
    (perform op).Safe (Machine.handler p) keyed i label (fun _ => DrawsFresh i) l w := by
  intro w₁ hw₁
  obtain ⟨hworld,hrun,hdrawn,hused⟩ := handler_adds (p := p) hop l w₁
  have h₁ := h.rely hw₁
  rw [hworld]
  refine ⟨.inl rfl,fun w₂ hw₂ => DrawsFresh.rely ?_ hw₂⟩
  refine ⟨hrun.trans h.run,?_,?_⟩
  · rw [hused,List.nodup_append]
    refine ⟨h₁.nodup,List.nodup_singleton _,fun a ha b hb hab => ?_⟩
    rw [List.mem_singleton.mp hb] at hab
    exact h₁.free (hab ▸ ha)
  · rw [hused,hdrawn]
    intro id' hid'
    rcases List.mem_append.mp hid' with hid' | hid'
    · exact h₁.drawn id' hid'
    · rw [List.mem_singleton.mp hid']
      exact h₁.known

/-- A drawn id is vacant. -/
theorem draw_fresh {α : Type} {f : Uuid → ServiceProg α} {Q : Except Exc α → Local → World → Prop}
    (h : DrawsFresh i l w) (hf : ∀ id l w, Vacant i id l w → (f id).Safe (Machine.handler p) keyed i label Q l w) :
    (perform .uuid4 >>= f).Safe (Machine.handler p) keyed i label Q l w := by
  intro w₁ hw₁
  refine ⟨.inl rfl,hf _ _ w₁ ⟨?_,⟨l.drawn,Nat.lt_succ_self _,by rw [h.run]⟩,?_⟩⟩
  · exact (handler_moved (p := p) .uuid4 rfl l w₁).fresh (h.rely hw₁)
  · intro hmem
    obtain ⟨n,hn,heq⟩ := (h.rely hw₁).drawn _ hmem
    cases heq
    exact Nat.lt_irrefl _ hn

theorem bind_fresh {α β : Type} {q : ServiceProg α} {f : α → ServiceProg β}
    (hq : q.Safe (Machine.handler p) keyed i label (fun _ => DrawsFresh i) l w)
    (hf : ∀ a l w, DrawsFresh i l w → (f a).Safe (Machine.handler p) keyed i label (fun _ => DrawsFresh i) l w) :
    (q >>= f).Safe (Machine.handler p) keyed i label (fun _ => DrawsFresh i) l w :=
  Prog.safe_bind hq hf fun _ _ _ h => h

/-- An operation that adds nothing, while an id waits for its row. -/
theorem step_vacant {α : Type} {op : ServiceOp} {f : op.Reply → ServiceProg α} (hop : op.AddsNothing)
    (h : Vacant i id l w)
    (hf : ∀ a l w, Vacant i id l w → (f a).Safe (Machine.handler p) keyed i label (fun _ => DrawsFresh i) l w) :
    (perform op >>= f).Safe (Machine.handler p) keyed i label (fun _ => DrawsFresh i) l w :=
  Prog.safe_bind (only_vacant (only_op hop) h) hf fun _ _ _ h => h.toDrawsFresh

theorem step_fresh {α : Type} {op : ServiceOp} {f : op.Reply → ServiceProg α} (hop : op.AddsNothing)
    (h : DrawsFresh i l w)
    (hf : ∀ a l w, DrawsFresh i l w → (f a).Safe (Machine.handler p) keyed i label (fun _ => DrawsFresh i) l w) :
    (perform op >>= f).Safe (Machine.handler p) keyed i label (fun _ => DrawsFresh i) l w :=
  bind_fresh (only_fresh (only_op hop) h) hf

theorem createUsage_fresh (documentId extractionId : Uuid) (event : LLMUsageEvent) (h : DrawsFresh i l w) :
    (createUsage documentId extractionId event).Safe (Machine.handler p) keyed i label (fun _ => DrawsFresh i) l w :=
  draw_fresh h fun _ _ _ h => step_vacant rfl h fun _ _ _ h => bind_fresh (add_fresh rfl h) fun _ _ _ h =>
    only_fresh (only_op (by rfl)) h

theorem addUsageEvents_fresh (documentId extractionId : Uuid) (events : List LLMUsageEvent)
    (inputTokens outputTokens : ℕ) (h : DrawsFresh i l w) :
    (addUsageEvents c documentId extractionId events inputTokens outputTokens).Safe (Machine.handler p) keyed i
      label (fun _ => DrawsFresh i) l w := by
  refine bind_fresh ?_ fun _ _ _ h => createUsage_fresh _ _ _ h
  induction events generalizing l w with
  | nil => exact Prog.safe_done fun w' hw => h.rely hw
  | cons event events ih =>
    rw [List.forM_cons]
    exact bind_fresh (createUsage_fresh _ _ _ h) fun _ _ _ h => ih h

theorem recordFailure_fresh (resolved : ResolvedDocumentInput) (startedAt : ℚ) (e : ExtractionError)
    (h : DrawsFresh i l w) :
    (recordFailure c resolved startedAt e).Safe (Machine.handler p) keyed i label (fun _ => DrawsFresh i) l w := by
  refine step_fresh rfl h fun document _ _ h => step_fresh rfl h fun stoppedAt _ _ h => draw_fresh h fun id _ _ h =>
    step_vacant rfl h fun createdAt _ _ h => bind_fresh ?_ fun _ _ _ h =>
    step_fresh rfl h fun _ _ _ h => addUsageEvents_fresh _ _ _ _ _ h
  exact bind_fresh (add_fresh rfl h) fun _ _ _ h => only_fresh (only_op (by rfl)) h

theorem recordSuccess_fresh (r : DocumentProcessingResult) (h : DrawsFresh i l w) :
    (recordSuccess c r).Safe (Machine.handler p) keyed i label (fun _ => DrawsFresh i) l w := by
  refine step_fresh rfl h fun document _ _ h => draw_fresh h fun id _ _ h => step_vacant rfl h
    fun createdAt _ _ h => bind_fresh ?_ fun _ _ _ h => step_fresh rfl h fun _ _ _ h =>
    bind_fresh (addUsageEvents_fresh _ _ _ _ _ h) fun _ _ _ h => only_fresh ?_ h
  · exact bind_fresh (add_fresh rfl h) fun _ _ _ h => only_fresh
      ((only_op (by rfl)).bind fun _ => only_op (by rfl)) h
  · exact (only_op (by rfl)).bind fun _ => (only_op (by rfl)).bind fun _ => only_done _

theorem only_setStatus (status : DocumentStatus) : (setStatus status).Only ServiceOp.AddsNothing :=
  (only_op (by rfl)).bind fun _ => only_op (by rfl)

theorem only_setDocumentStatus (status : DocumentStatus) :
    (setDocumentStatus status).Only ServiceOp.AddsNothing :=
  (only_setStatus status).bind fun _ => only_op (by rfl)

theorem recordOutcome_fresh (startedAt : ℚ) (o : Except Exc DocumentProcessingResult) (h : DrawsFresh i l w) :
    (recordOutcome c startedAt o).Safe (Machine.handler p) keyed i label (fun _ => DrawsFresh i) l w := by
  have hthrow : ∀ {α : Type} (e : Exc) l w, DrawsFresh i l w →
      (throw e : ServiceProg α).Safe (Machine.handler p) keyed i label (fun _ => DrawsFresh i) l w :=
    fun e l w h => Prog.safe_done fun _ hw => h.rely hw
  cases o with
  | ok r =>
    exact bind_fresh (only_fresh (only_setStatus _) h) fun _ _ _ h => bind_fresh (recordSuccess_fresh r h)
      fun _ _ _ h => step_fresh rfl h fun _ _ _ h => Prog.safe_done fun _ hw => h.rely hw
  | error e =>
    cases e with
    | documentProcessing resolved original =>
      refine bind_fresh ?_ fun _ => hthrow _
      exact bind_fresh (only_fresh (only_setStatus _) h) fun _ _ _ h => bind_fresh (recordFailure_fresh _ _ _ h)
        fun _ _ _ h => only_fresh (only_op (by rfl)) h
    | _ => exact hthrow _ l w h

theorem processDocumentPages_fresh (pages : List String) (docType strategy : Option String) (h : DrawsFresh i l w) :
    (processDocumentPages c pages docType strategy).Safe (Machine.handler p) keyed i label (fun _ => DrawsFresh i)
      l w := by
  refine step_fresh rfl h fun startedAt _ _ h => bind_fresh (only_fresh ?_ h) fun o _ _ h => recordOutcome_fresh _ o h
  refine Prog.Only.tryCatch (Prog.Only.map _ ?_) fun _ => only_done _
  exact (only_op (by rfl)).bind fun _ => only_op (by rfl)

/-- A handler of exceptions that adds nothing. -/
theorem tryCatch_fresh {α : Type} {q : ServiceProg α} {f : Exc → ServiceProg α}
    (hq : q.Safe (Machine.handler p) keyed i label (fun _ => DrawsFresh i) l w)
    (hf : ∀ e, (f e).Only ServiceOp.AddsNothing) :
    (tryCatch q f).Safe (Machine.handler p) keyed i label (fun _ => DrawsFresh i) l w :=
  Prog.safe_tryCatch hq (fun _ _ _ h => h) fun e _ _ h => only_fresh (hf e) h

theorem only_parsePdf (content : Bytes) (filename : String) : (parsePdf content filename).Only ServiceOp.AddsNothing :=
  (only_op (by rfl)).bind fun _ => only_done _

theorem only_undoUpload {α : Type} (e : Exc) : (undoUpload e : ServiceProg α).Only ServiceOp.AddsNothing :=
  (only_op (by rfl)).bind fun _ => (only_op (by rfl)).bind fun _ =>
    ((only_op (by rfl)).tryCatch fun _ => only_done _).bind fun _ => only_done _

theorem only_loadDocument : loadDocument.Only ServiceOp.AddsNothing :=
  (only_op (by rfl)).bind fun _ => (only_op (by rfl)).bind fun _ =>
    (only_parsePdf _ _).bind fun _ => only_done _

/-- A prepared document has an id that waits for its row. -/
theorem prepareDocument_fresh {α : Type} {content : Bytes} {filename : String} {status : DocumentStatus}
    {f : DocumentIntakeResult → ServiceProg α} (h : DrawsFresh i l w)
    (hf : ∀ intake l w, Vacant i intake.document.id l w →
      (f intake).Safe (Machine.handler p) keyed i label (fun _ => DrawsFresh i) l w) :
    (prepareDocument content filename status >>= f).Safe (Machine.handler p) keyed i label (fun _ => DrawsFresh i)
      l w := by
  unfold prepareDocument
  rw [bind_assoc]
  refine draw_fresh h fun id _ _ h => ?_
  rw [bind_assoc]
  refine Prog.safe_bind (only_vacant (only_parsePdf _ _) h) (fun pdf _ _ h => ?_) fun _ _ _ h => h.toDrawsFresh
  rw [bind_assoc]
  refine step_vacant rfl h fun filePath _ _ h => ?_
  rw [bind_assoc]
  exact step_vacant rfl h fun uploadedAt _ _ h => hf _ _ _ h

theorem createDocument_fresh (row : Document) (h : Vacant i row.id l w) :
    (tryCatch (createDocument row) undoUpload).Safe (Machine.handler p) keyed i label (fun _ => DrawsFresh i) l w := by
  refine tryCatch_fresh ?_ only_undoUpload
  refine bind_fresh (bind_fresh (add_fresh rfl h) fun _ _ _ h => only_fresh (only_op (by rfl)) h) fun _ _ _ h =>
    only_fresh ?_ h
  exact (only_op (by rfl)).bind fun _ => only_op (by rfl)

theorem processUploadedInline_fresh (content : Bytes) (filename : String) (docType strategy : Option String)
    (h : DrawsFresh i l w) :
    (processUploadedInline c content filename docType strategy).Safe (Machine.handler p) keyed i label
      (fun _ => DrawsFresh i) l w := by
  refine prepareDocument_fresh h fun intake _ _ h => bind_fresh (createDocument_fresh _ h) fun _ _ _ h =>
    step_fresh rfl h fun _ _ _ h => tryCatch_fresh ?_ fun _ => (only_op (by rfl)).bind fun _ => only_done _
  exact bind_fresh (only_fresh (only_setDocumentStatus _) h) fun _ _ _ h => processDocumentPages_fresh _ _ _ h

theorem processExistingInline_fresh (documentId : Uuid) (docType strategy : Option String) (h : DrawsFresh i l w) :
    (processExistingInline c documentId docType strategy).Safe (Machine.handler p) keyed i label
      (fun _ => DrawsFresh i) l w := by
  refine step_fresh rfl h fun found _ _ h => ?_
  cases found with
  | none => exact Prog.safe_done fun _ hw => h.rely hw
  | some document =>
    refine step_fresh rfl h fun _ _ _ h => bind_fresh (only_fresh (only_setDocumentStatus _) h) fun _ _ _ h =>
      tryCatch_fresh ?_ fun _ => (only_setStatus _).bind fun _ => (only_op (by rfl)).bind fun _ => only_done _
    exact bind_fresh (only_fresh only_loadDocument h) fun _ _ _ h => processDocumentPages_fresh _ _ _ h

theorem enqueueOrProcess_fresh (intake : DocumentIntakeResult) (docType : Option String)
    (strategy : Option ExtractionStrategy) (h : DrawsFresh i l w) :
    (enqueueOrProcess c intake docType strategy).Safe (Machine.handler p) keyed i label (fun _ => DrawsFresh i) l w := by
  refine Prog.safe_tryCatch (only_fresh ?_ h) (fun _ _ _ h => h) fun _ _ _ h => step_fresh rfl h fun _ _ _ h =>
    bind_fresh (processDocumentPages_fresh _ _ _ h) fun _ _ _ h => only_fresh (only_done _) h
  exact (only_op (by rfl)).bind fun _ => Prog.Only.bind (only_op (by rfl)) fun _ =>
    (only_op (by rfl)).bind fun _ => only_done _

theorem extractDocument_fresh (r : ExtractRequest) (h : DrawsFresh i l w) :
    (extractDocument c r).Safe (Machine.handler p) keyed i label (fun _ => DrawsFresh i) l w := by
  have hexisting : ∀ id, (extractExistingDocument c id r.docType r.strategy r.asyncMode).Safe
      (Machine.handler p) keyed i label (fun _ => DrawsFresh i) l w := by
    intro id
    unfold extractExistingDocument
    split
    · refine step_fresh rfl h fun found _ _ h => ?_
      cases found with
      | none => exact only_fresh (only_done _) h
      | some document => exact only_fresh (Prog.Only.bind (only_op (by rfl)) fun _ => only_done _) h
    · exact bind_fresh (processExistingInline_fresh _ _ _ h) fun _ _ _ h => only_fresh (only_done _) h
  unfold extractDocument
  split
  · unfold extractUploadedDocument
    split
    · exact bind_fresh (processUploadedInline_fresh _ _ _ _ h) fun _ _ _ h => only_fresh (only_done _) h
    · exact prepareDocument_fresh h fun intake _ _ h => bind_fresh (createDocument_fresh _ h) fun _ _ _ h =>
        enqueueOrProcess_fresh _ _ _ h
  · exact only_fresh (only_done _) h
  · exact hexisting _
  · exact only_fresh (only_done _) h

/-- Every run inserts under fresh ids. -/
theorem programOf_fresh (s : Source) (h : DrawsFresh i l w) :
    (programOf c s).Safe (Machine.handler p) keyed i label (fun _ => DrawsFresh i) l w := by
  cases s with
  | request r =>
    exact getDb_safe (extractDocument_fresh r h) (fun _ _ _ _ h hw => h.rely hw)
      (fun a l w h => ⟨(commit_moved l w).guar h,(commit_moved l w).fresh h⟩)
      fun r l w h => (handler_moved (p := p) .rollback rfl l w).fresh h
  | worker job => exact Prog.safe_map (processExistingInline_fresh (c := { c with pool := false }) _ _ _ h)

end Keys

section Pools
variable {c : Config} {w₀ : World} {p p' : ServicePool}

/-- The rows of the pool's database: what was there, and what the runs inserted, each
under an id of its run. -/
structure KeysKept (w₀ : World) (p : ServicePool) : Prop where
  numbered : Numbered p
  db : p.shared.db = w₀.db.applyAll (p.shared.log.flatMap fun x => x.2.changes)
  own : ∀ x ∈ p.shared.log, ∀ id ∈ x.2.inserted, ∃ n, id = .drawn x.1 n
  nodup : (p.shared.log.flatMap fun x => x.2.inserted).Nodup

theorem KeysKept.init (hlog : w₀.log = []) : KeysKept w₀ ⟨[],w₀⟩ where
  numbered := by rw [Numbered,hlog]; exact fun x hx => absurd hx List.not_mem_nil
  db := by rw [hlog]; rfl
  own := by rw [hlog]; exact fun x hx => absurd hx List.not_mem_nil
  nodup := by rw [hlog]; exact List.nodup_nil

theorem db_act (w : World) (i : ℕ) (a : Action) : (w.act i a).db = w.db.applyAll a.changes := by
  cases a <;> rfl

theorem KeysKept.act {i : ℕ} {t' : ServiceThread} {a : Action} (h : KeysKept w₀ p) (hi : i < p.threads.length)
    (hnodup : (((p.shared.act i a).trace i).flatMap Action.inserted).Nodup)
    (hown : ∀ id ∈ ((p.shared.act i a).trace i).flatMap Action.inserted, ∃ n, id = .drawn i n) :
    KeysKept w₀ ⟨p.threads.set i t',p.shared.act i a⟩ := by
  rw [World.trace_act_self,List.flatMap_append,List.flatMap_singleton] at hnodup hown
  refine ⟨h.numbered.act hi a,?_,?_,?_⟩
  · show (p.shared.act i a).db = _
    rw [db_act,h.db,log_act,List.flatMap_append,Database.applyAll_append,List.flatMap_singleton]
  · intro x hx id hid
    rw [log_act,List.mem_append,List.mem_singleton] at hx
    rcases hx with hx | rfl
    · exact h.own x hx id hid
    · exact hown id (List.mem_append_right _ hid)
  · show ((p.shared.act i a).log.flatMap _).Nodup
    rw [log_act,List.flatMap_append,List.flatMap_singleton,List.nodup_append]
    refine ⟨h.nodup,(List.nodup_append.mp hnodup).2.1,fun id hid id' hid' heq => ?_⟩
    subst heq
    obtain ⟨⟨j,b⟩,hx,hid⟩ := List.mem_flatMap.mp hid
    obtain ⟨n,hn⟩ := h.own _ hx id hid
    obtain ⟨m,hm⟩ := hown id (List.mem_append_right _ hid')
    -- an id of run `i` that is in the log is in its trace
    obtain rfl : i = j := by rw [hn] at hm; cases hm; rfl
    exact (List.nodup_append.mp hnodup).2.2 id (List.mem_flatMap.mpr ⟨b,mem_trace.mpr hx,hid⟩) id hid' rfl

theorem Arrives.trace {t : ServiceThread} {g : World} (ht : Arrives c p t g) (hp : Numbered p) :
    g.trace p.threads.length = [] ∧ ∀ i, g.trace i = p.shared.trace i := by
  cases ht with
  | request => exact ⟨hp.trace,fun _ => rfl⟩
  | worker => exact ⟨hp.trace,fun _ => rfl⟩

theorem KeysKept.start {t : ServiceThread} {g : World} (h : KeysKept w₀ p) (ht : Arrives c p t g) :
    KeysKept w₀ ⟨p.threads ++ [t],g⟩ := by
  have hlog : g.log = p.shared.log := by cases ht <;> rfl
  have hdb : g.db = p.shared.db := by cases ht <;> rfl
  refine ⟨fun x hx => ?_,?_,?_,?_⟩
  · rw [List.length_append,List.length_singleton]
    exact Nat.lt_succ_of_lt (h.numbered x (hlog ▸ hx))
  · show g.db = _
    rw [hdb,h.db,hlog]
  · show ∀ x ∈ g.log, _
    rw [hlog]
    exact h.own
  · show (g.log.flatMap _).Nodup
    rw [hlog]
    exact h.nodup

/-- In every pool, whatever failed, the rows have keys of their own. -/
theorem keysKept_reachable (hlog : w₀.log = [])
    (hp : Pool.Reachable (Machine.handler c.processor) (Arrives c) w₀ p) : KeysKept w₀ p := by
  refine (Pool.reachable_induction (D := keyed) (Q := fun i _ _ => DrawsFresh i) (I := KeysKept w₀) ?_ ?_ ?_ hp).1
  · exact .init hlog
  · rintro p i t op k h - ht hop - (hsame | ⟨a,hact,hnodup,hown⟩)
    · rw [hsame]
      exact ⟨h.numbered.set i _,h.db,h.own,h.nodup⟩
    · rw [hact] at hnodup hown ⊢
      exact h.act (List.getElem?_eq_some_iff.mp ht).1 hnodup hown
  · intro p t g h _ ht
    obtain ⟨htrace,hsame⟩ := ht.trace h.numbered
    refine ⟨fun i => hsame i,?_,h.start ht⟩
    cases ht with
    | @request r env => exact programOf_fresh (c := c) (.request r) (DrawsFresh.start htrace env)
    | @worker job env _ _ _ => exact programOf_fresh (c := c) (.worker job) (DrawsFresh.start htrace env)

end Pools

section Rows
variable {c : Config} {w₀ : World} {p p' : ServicePool}

/-- All ids of the database were there before the runs, and no table has one twice. -/
structure Database.Before (db : Database) : Prop where
  documents : ∀ id row, db.documents id = some row → ∃ n, id = .old n
  extractions : ∀ x ∈ db.extractions, ∃ n, x.id = .old n
  usages : ∀ u ∈ db.llmUsages, ∃ n, u.id = .old n
  extractionKeys : (db.extractions.map Extraction.id).Nodup
  usageKeys : (db.llmUsages.map LLMUsage.id).Nodup

/-- What is durable stays, and of a document only the status may change. -/
structure Database.Extends (db db' : Database) : Prop where
  extractions : db.extractions <+: db'.extractions
  usages : db.llmUsages <+: db'.llmUsages
  documents : ∀ id row, db.documents id = some row → ∃ status, db'.documents id = some (row.with status)

theorem not_inserted_tail {id : Uuid} {change : Change} {cs : List Change}
    (h : id ∉ (change :: cs).filterMap Change.inserted?) : id ∉ cs.filterMap Change.inserted? := fun hmem =>
  h (((List.sublist_cons_self change cs).filterMap _).subset hmem)

/-- A document that no change inserts keeps all but its status. -/
theorem documents_applyAll_with {db : Database} {id : Uuid} {row : Document} {cs : List Change}
    (hrow : db.documents id = some row) (hcs : id ∉ cs.filterMap Change.inserted?) :
    ∃ status, (db.applyAll cs).documents id = some (row.with status) := by
  induction cs generalizing db row with
  | nil => exact ⟨row.status,hrow⟩
  | cons change cs ih =>
    have hstep : ∃ status, (db.apply change).documents id = some (row.with status) := by
      cases change with
      | insertDocument row' =>
        have hne : id ≠ row'.id := fun heq => hcs (by simp [Change.inserted?,heq])
        refine ⟨row.status,?_⟩
        rw [Document.with_self rfl]
        simpa [Database.apply,Database.insertDocument,Function.update_of_ne hne] using hrow
      | updateStatus id' status =>
        by_cases hid : id = id'
        · exact ⟨status,by simp [Database.apply,Database.updateStatus,hid ▸ hrow,hid,Document.with]⟩
        · refine ⟨row.status,?_⟩
          rw [Document.with_self rfl]
          simpa [Database.apply,Database.updateStatus,Function.update_of_ne hid] using hrow
      | insertExtraction x => exact ⟨row.status,hrow⟩
      | insertUsage u => exact ⟨row.status,hrow⟩
    obtain ⟨status,hstatus⟩ := hstep
    obtain ⟨status',hstatus'⟩ := ih hstatus (not_inserted_tail hcs)
    exact ⟨status',hstatus'⟩

/-- The inserted extractions have the inserted ids, in their order. -/
theorem extraction_ids_sublist (cs : List Change) :
    ((cs.filterMap Change.extraction?).map Extraction.id).Sublist (cs.filterMap Change.inserted?) := by
  induction cs with
  | nil => exact List.Sublist.slnil
  | cons change cs ih =>
    cases change with
    | insertExtraction x => exact ih.cons_cons x.id
    | insertDocument row => exact ih.cons row.id
    | insertUsage u => exact ih.cons u.id
    | updateStatus id status => exact ih

theorem usage_ids_sublist (cs : List Change) :
    ((cs.filterMap Change.usage?).map LLMUsage.id).Sublist (cs.filterMap Change.inserted?) := by
  induction cs with
  | nil => exact List.Sublist.slnil
  | cons change cs ih =>
    cases change with
    | insertExtraction x => exact ih.cons x.id
    | insertDocument row => exact ih.cons row.id
    | insertUsage u => exact ih.cons_cons u.id
    | updateStatus id status => exact ih

theorem KeysKept.inserted (h : KeysKept w₀ p) :
    ((p.shared.log.flatMap fun x => x.2.changes).filterMap Change.inserted?).Nodup ∧
      ∀ id ∈ (p.shared.log.flatMap fun x => x.2.changes).filterMap Change.inserted?, ∃ i n, id = .drawn i n := by
  have hflat : (p.shared.log.flatMap fun x => x.2.changes).filterMap Change.inserted? =
      p.shared.log.flatMap fun x => x.2.inserted := by
    rw [List.filterMap_flatMap]
    rfl
  rw [hflat]
  refine ⟨h.nodup,fun id hid => ?_⟩
  obtain ⟨x,hx,hid⟩ := List.mem_flatMap.mp hid
  exact ⟨x.1,h.own x hx id hid⟩

/-- Old keys and fresh keys are different. -/
theorem nodup_old_append {old new : List Uuid} (hold : ∀ id ∈ old, ∃ n, id = .old n) (hold' : old.Nodup)
    (hnew : ∀ id ∈ new, ∃ i n, id = .drawn i n) (hnew' : new.Nodup) : (old ++ new).Nodup := by
  refine List.nodup_append.mpr ⟨hold',hnew',fun id hid id' hid' heq => ?_⟩
  obtain ⟨n,rfl⟩ := hold id hid
  obtain ⟨i,m,rfl⟩ := hnew id' hid'
  cases heq

theorem KeysKept.extractionKeys (h : KeysKept w₀ p) (hw₀ : w₀.db.Before) :
    (p.shared.db.extractions.map Extraction.id).Nodup := by
  rw [h.db,Database.extractions_applyAll,List.map_append]
  refine nodup_old_append (fun id hid => ?_) hw₀.extractionKeys (fun id hid => ?_)
    (h.inserted.1.sublist (extraction_ids_sublist _))
  · obtain ⟨x,hx,rfl⟩ := List.mem_map.mp hid
    exact hw₀.extractions x hx
  · exact h.inserted.2 id ((extraction_ids_sublist _).subset hid)

theorem KeysKept.usageKeys (h : KeysKept w₀ p) (hw₀ : w₀.db.Before) :
    (p.shared.db.llmUsages.map LLMUsage.id).Nodup := by
  rw [h.db,Database.llmUsages_applyAll,List.map_append]
  refine nodup_old_append (fun id hid => ?_) hw₀.usageKeys (fun id hid => ?_)
    (h.inserted.1.sublist (usage_ids_sublist _))
  · obtain ⟨u,hu,rfl⟩ := List.mem_map.mp hid
    exact hw₀.usages u hu
  · exact h.inserted.2 id ((usage_ids_sublist _).subset hid)

/-- A document of the pool's database is under an old id or under an inserted one. -/
theorem documents_applyAll_mem {db : Database} {id : Uuid} {row : Document} {cs : List Change}
    (h : (db.applyAll cs).documents id = some row) :
    (∃ row, db.documents id = some row) ∨ id ∈ cs.filterMap Change.inserted? := by
  by_contra hnone
  rw [not_or] at hnone
  obtain ⟨hnone,hcs⟩ := hnone
  have hkeep : ∀ (cs : List Change) (db : Database), db.documents id = none → id ∉ cs.filterMap Change.inserted? →
      (db.applyAll cs).documents id = none := by
    intro cs
    induction cs with
    | nil => exact fun _ hdb _ => hdb
    | cons change cs ih =>
      intro db hdb hcs
      refine ih _ ?_ (not_inserted_tail hcs)
      cases change with
      | insertDocument row' =>
        have hne : id ≠ row'.id := fun heq => hcs (by simp [Change.inserted?,heq])
        simpa [Database.apply,Database.insertDocument,Function.update_of_ne hne] using hdb
      | updateStatus id' status =>
        by_cases hid : id = id'
        · simp [Database.apply,Database.updateStatus,hid ▸ hdb,hid]
        · simpa [Database.apply,Database.updateStatus,Function.update_of_ne hid] using hdb
      | _ => exact hdb
  rw [hkeep cs db (Option.eq_none_iff_forall_not_mem.mpr fun row hrow => hnone ⟨row,hrow⟩) hcs] at h
  cases h

/-- An operation does one action or none. -/
theorem handler_world (op : ServiceOp) (l : Local) (w : World) : (Machine.handler c.processor op (l,w)).2.2 = w ∨
    ∃ a, (Machine.handler c.processor op (l,w)).2.2 = w.act l.run a := by
  by_cases hadds : op.AddsNothing
  · exact (handler_moved op hadds l w).world.imp id fun ⟨a,ha,_⟩ => ⟨a,ha⟩
  · obtain ⟨id,hid⟩ := Option.ne_none_iff_exists'.mp hadds
    exact .inl (handler_adds hid l w).1

theorem log_step (hstep : Pool.Step (Machine.handler c.processor) (Arrives c) p p') :
    p.shared.log <+: p'.shared.log := by
  cases hstep with
  | @run i t op k ht hop =>
    rcases handler_world (c := c) op t.loc p.shared with hsame | ⟨a,ha⟩
    · rw [hsame]
    · rw [ha,log_act]
      exact List.prefix_append _ _
  | start ht => cases ht <;> exact List.prefix_rfl

theorem log_steps (hsteps : Relation.ReflTransGen (Pool.Step (Machine.handler c.processor) (Arrives c)) p p') :
    p.shared.log <+: p'.shared.log := by
  induction hsteps with
  | refl => exact List.prefix_rfl
  | tail _ hstep ih => exact ih.trans (log_step hstep)

/-- **Rows stay.** However calls fail and runs interleave, no key is used twice, and a
later state has every row of an earlier one, a document up to its status. -/
theorem database_extends (hlog : w₀.log = []) (hw₀ : w₀.db.Before)
    (hp : Pool.Reachable (Machine.handler c.processor) (Arrives c) w₀ p)
    (hp' : Relation.ReflTransGen (Pool.Step (Machine.handler c.processor) (Arrives c)) p p') :
    (p'.shared.db.extractions.map Extraction.id).Nodup ∧ (p'.shared.db.llmUsages.map LLMUsage.id).Nodup ∧
      p.shared.db.Extends p'.shared.db := by
  have h := keysKept_reachable hlog hp
  have h' := keysKept_reachable hlog (hp.trans hp')
  obtain ⟨rest,hrest⟩ := log_steps hp'
  have hdb : p'.shared.db = p.shared.db.applyAll (rest.flatMap fun x => x.2.changes) := by
    rw [h'.db,← hrest,List.flatMap_append,Database.applyAll_append,← h.db]
  refine ⟨h'.extractionKeys hw₀,h'.usageKeys hw₀,?_,?_,fun id row hrow => ?_⟩
  · rw [hdb,Database.extractions_applyAll]
    exact List.prefix_append _ _
  · rw [hdb,Database.llmUsages_applyAll]
    exact List.prefix_append _ _
  · rw [hdb]
    refine documents_applyAll_with hrow fun hmem => ?_
    have hnodup := h'.inserted
    rw [← hrest,List.flatMap_append,List.filterMap_append] at hnodup
    rcases documents_applyAll_mem (h.db ▸ hrow) with ⟨row',hrow'⟩ | hmem'
    · obtain ⟨n,rfl⟩ := hw₀.documents id row' hrow'
      obtain ⟨i,m,heq⟩ := hnodup.2 _ (List.mem_append_right _ hmem)
      cases heq
    · exact (List.nodup_append.mp hnodup.1).2.2 id hmem' id hmem rfl

end Rows

end StructuredExtractor
