import StructuredExtractor.Service.Desk

/-! # How reads and corrections end

Beside the service and beside each other, a read is answered from one moment between
its arrival and its end, and a correction ends by the first of its database calls that
fails: the row is durable from the fourth call on, the answer comes with the fifth.
-/
namespace StructuredExtractor
open Desk

namespace Database

theorem Extends.refl (db : Database) : db.Extends db :=
  ⟨List.prefix_rfl,List.prefix_rfl,fun _ row h => ⟨row.status,h⟩⟩

theorem Extends.trans {db db' db'' : Database} (h : db.Extends db') (h' : db'.Extends db'') : db.Extends db'' := by
  refine ⟨h.extractions.trans h'.extractions,h.usages.trans h'.usages,fun id row hrow => ?_⟩
  obtain ⟨status,hstatus⟩ := h.documents id row hrow
  obtain ⟨status',hstatus'⟩ := h'.documents id _ hstatus
  exact ⟨status',hstatus'⟩

end Database

/-- The run that drew an id. -/
def Uuid.run? : Uuid → Option ℕ
  | old _ => none
  | drawn run _ => some run

namespace Site

/-- What is durable in the one is durable in the other. -/
structure Later (s s' : Site) : Prop where
  db : s.db.Extends s'.db
  corrections : s.corrections <+: s'.corrections

theorem Later.refl (s : Site) : s.Later s := ⟨.refl _,List.prefix_rfl⟩

theorem Later.trans {s s' s'' : Site} (h : s.Later s') (h' : s'.Later s'') : s.Later s'' :=
  ⟨h.db.trans h'.db,h.corrections.trans h'.corrections⟩

/-- The corrections of a request. -/
def madeBy (i : ℕ) (s : Site) : List ExtractionCorrection := s.corrections.filter fun row => row.id.run? = some i

def addCorrections (s : Site) (rows : List ExtractionCorrection) : Site :=
  { s with corrections := s.corrections ++ rows }

@[simp] theorem addCorrections_db (s : Site) (rows : List ExtractionCorrection) : (s.addCorrections rows).db = s.db := rfl

theorem later_addCorrections (s : Site) (rows : List ExtractionCorrection) : s.Later (s.addCorrections rows) :=
  ⟨.refl _,List.prefix_append _ _⟩

end Site

/-- The row is a correction as its request asks for: of an extraction that is durable,
from its data to data that were validated. -/
structure Corrects (lib : Libraries) (db : Database) (r : DeskRequest) (row : ExtractionCorrection) : Prop where
  made : ∃ x ∈ db.extractions, ∃ request v data id createdAt, r = .correctExtraction x.id request ∧
    validated lib x request = .ok v ∧ v.extractedData = some data ∧ row = correctionRow x request v data id createdAt

theorem Corrects.extends {lib : Libraries} {db db' : Database} {r : DeskRequest} {row : ExtractionCorrection}
    (h : Corrects lib db r row) (hdb : db.Extends db') : Corrects lib db' r row := by
  obtain ⟨x,hx,h⟩ := h.made
  exact ⟨x,hdb.extractions.subset hx,h⟩

/-- A request adds one correction at most, which it asks for. -/
def counter (lib : Libraries) : Discipline DeskLabel Site where
  guar i label s s' := s' = s ∨ ∃ row, s' = s.addCorrections [row] ∧ (∃ n, row.id = .drawn i n) ∧
    Corrects lib s.db label.request row ∧ s.madeBy i = []
  rely i s s' := s.Later s' ∧ s'.madeBy i = s.madeBy i
  guar_refl _ _ _ := .inl rfl
  rely_refl _ s := ⟨.refl s,rfl⟩
  rely_trans h h' := ⟨h.1.trans h'.1,h'.2.trans h.2⟩
  guar_rely := by
    rintro i j label s s' hne (rfl | ⟨row,rfl,⟨n,hid⟩,-,-⟩)
    · exact ⟨.refl _,rfl⟩
    · refine ⟨s.later_addCorrections _,?_⟩
      have hrow : ¬ row.id.run? = some i := by rw [hid]; exact fun h => hne (Option.some.inj h).symm
      simp [Site.madeBy,Site.addCorrections,hrow]

/-- The database at a moment of the request. -/
structure During (label : DeskLabel) (s : Site) (db : Database) : Prop where
  after : label.arrived.db.Extends db
  before : db.Extends s.db

/-- How request `i` ends. `k` is the number of its first call that fails. -/
inductive Replied (lib : Libraries) (i : ℕ) (label : DeskLabel) :
    DeskRequest → Except DeskExc DeskAnswer → Site → Prop
  | failed {r : DeskRequest} {k : ℕ} {e : Exc} {s : Site} (hk : label.env.calls.get k = some e)
      (hfirst : ∀ j < k, label.env.calls.get j = none) (hearly : k < 4) (hmade : s.madeBy i = []) :
      Replied lib i label r (.error (.raised e)) s
  | noDocument {id : Uuid} {db : Database} {s : Site} (hdb : During label s db) (hnone : db.documents id = none)
      (hmade : s.madeBy i = []) :
      Replied lib i label (.getDocument id) (.error (.raised (.documentNotFound id))) s
  | noExtraction {r : DeskRequest} {id : Uuid} {db : Database} {s : Site}
      (hr : r = .getExtraction id ∨ r = .getExtractionAudit id ∨ ∃ request, r = .correctExtraction id request)
      (hdb : During label s db) (hnone : ∀ x ∈ db.extractions, x.id ≠ id) (hmade : s.madeBy i = []) :
      Replied lib i label r (.error (.extractionNotFound id)) s
  | document {id : Uuid} {row : Document} {xs : List Extraction} {db db' : Database} {s : Site}
      (hdb : During label s db) (hdb' : During label s db') (horder : db.Extends db')
      (hrow : db.documents id = some row) (hxs : xs.Perm (db'.extractions.filter fun x => x.documentId = id))
      (hmade : s.madeBy i = []) :
      Replied lib i label (.getDocument id) (.ok (.document (toDocumentResponse row xs))) s
  | extraction {x : Extraction} {s : Site} (hx : x ∈ s.db.extractions) (hmade : s.madeBy i = []) :
      Replied lib i label (.getExtraction x.id) (.ok (.extraction (toExtractionResponse x))) s
  | audit {x : Extraction} {s : Site} (hx : x ∈ s.db.extractions) (hmade : s.madeBy i = []) :
      Replied lib i label (.getExtractionAudit x.id) (.ok (.audit (toExtractionAuditResponse x))) s
  | crashed {x : Extraction} {request : CorrectionRequest} {e : DeskExc} {s : Site} (hx : x ∈ s.db.extractions)
      (hv : validated lib x request = .error e) (hmade : s.madeBy i = []) :
      Replied lib i label (.correctExtraction x.id request) (.error e) s
  | rejected {x : Extraction} {request : CorrectionRequest} {v : ValidationResult} {s : Site}
      (hx : x ∈ s.db.extractions) (hv : validated lib x request = .ok v) (hdata : v.extractedData = none)
      (hmade : s.madeBy i = []) :
      Replied lib i label (.correctExtraction x.id request) (.error (.correctionValidation v.warnings)) s
  | unacknowledged {x : Extraction} {request : CorrectionRequest} {v : ValidationResult} {data : Dict} {id : Uuid}
      {createdAt : Time} {e : Exc} {s : Site} (hx : x ∈ s.db.extractions)
      (hv : validated lib x request = .ok v) (hdata : v.extractedData = some data)
      (hlast : label.env.calls.get 4 = some e) (hfirst : ∀ k < 4, label.env.calls.get k = none)
      (hmade : s.madeBy i = [correctionRow x request v data id createdAt]) :
      Replied lib i label (.correctExtraction x.id request) (.error (.raised e)) s
  | corrected {x : Extraction} {request : CorrectionRequest} {v : ValidationResult} {data : Dict} {id : Uuid}
      {createdAt : Time} {s : Site} (hx : x ∈ s.db.extractions)
      (hv : validated lib x request = .ok v) (hdata : v.extractedData = some data)
      (hcalls : ∀ k < 5, label.env.calls.get k = none)
      (hmade : s.madeBy i = [correctionRow x request v data id createdAt]) :
      Replied lib i label (.correctExtraction x.id request)
        (.ok (.correction (toCorrectionResponse (correctionRow x request v data id createdAt)))) s

theorem During.later {label : DeskLabel} {s s' : Site} {db : Database} (h : During label s db) (hs : s.Later s') :
    During label s' db := ⟨h.after,h.before.trans hs.db⟩

theorem Replied.rely {lib : Libraries} {i : ℕ} {label : DeskLabel} {r : DeskRequest}
    {answer : Except DeskExc DeskAnswer} {s s' : Site} (h : Replied lib i label r answer s)
    (hs : (counter lib).rely i s s') : Replied lib i label r answer s' := by
  obtain ⟨hlater,hsame⟩ := hs
  have hin : ∀ {x}, x ∈ s.db.extractions → x ∈ s'.db.extractions := fun hx => hlater.db.extractions.subset hx
  cases h with
  | failed hk hfirst hearly hmade => exact .failed hk hfirst hearly (hsame.trans hmade)
  | noDocument hdb hnone hmade => exact .noDocument (hdb.later hlater) hnone (hsame.trans hmade)
  | noExtraction hr hdb hnone hmade => exact .noExtraction hr (hdb.later hlater) hnone (hsame.trans hmade)
  | document hdb hdb' horder hrow hxs hmade =>
    exact .document (hdb.later hlater) (hdb'.later hlater) horder hrow hxs (hsame.trans hmade)
  | extraction hx hmade => exact .extraction (hin hx) (hsame.trans hmade)
  | audit hx hmade => exact .audit (hin hx) (hsame.trans hmade)
  | crashed hx hv hmade => exact .crashed (hin hx) hv (hsame.trans hmade)
  | rejected hx hv hdata hmade => exact .rejected (hin hx) hv hdata (hsame.trans hmade)
  | unacknowledged hx hv hdata hlast hfirst hmade =>
    exact .unacknowledged (hin hx) hv hdata hlast hfirst (hsame.trans hmade)
  | corrected hx hv hdata hcalls hmade => exact .corrected (hin hx) hv hdata hcalls (hsame.trans hmade)

/-- Request `i` has made `n` calls that went through; `rows` were sent and are not durable. -/
structure DeskLocal.Ready (l : DeskLocal) (i : ℕ) (env : DeskEnv) (n : ℕ) (rows : List ExtractionCorrection) :
    Prop where
  run : l.run = i
  work : l.work.Ready env.calls n rows
  calls : ∀ k < n, env.calls.get k = none

theorem DeskLocal.ready_start (i : ℕ) (env : DeskEnv) : (DeskLocal.start i env).Ready i env 0 [] :=
  ⟨rfl,UnitOfWork.ready_new env.calls,fun _ hk => absurd hk (Nat.not_lt_zero _)⟩

theorem succeeded_succ {calls : Stream' (Option Exc)} {n : ℕ} (h : ∀ k < n, calls.get k = none)
    (hn : calls.get n = none) : ∀ k < n + 1, calls.get k = none := fun k hk => by
  rcases Nat.lt_succ_iff_lt_or_eq.mp hk with hk | rfl
  · exact h k hk
  · exact hn

section Calls
variable {lib : Libraries} {i : ℕ} {label : DeskLabel} {l l₁ : DeskLocal} {s : Site} {env : DeskEnv} {n : ℕ}
variable {rows : List ExtractionCorrection} {α : Type}

/-- A select: its call fails, or it is answered from the moment of the call. -/
theorem query_safe {op : DeskOp} {answer : Site → UnitOfWork ExtractionCorrection Exc → Except DeskExc op.Reply}
    {Q : Except DeskExc op.Reply → DeskLocal → Site → Prop}
    (hop : ∀ s, DeskMachine.handler op (l,s) = DeskMachine.query l₁ s (answer s)) (hl : l₁.Ready i env n rows)
    (hfail : ∀ e l' s', env.calls.get n = some e → (counter lib).rely i s s' → Q (.error (.raised e)) l' s')
    (hok : ∀ l' s₁ s', l'.Ready i env (n + 1) rows → (counter lib).rely i s s₁ → (counter lib).rely i s₁ s' →
      Q (answer s₁ l'.work) l' s') :
    (perform op).Safe DeskMachine.handler (counter lib) i label Q l s := by
  refine Prog.safe_perform fun s₁ hs₁ => ?_
  rw [hop]
  unfold DeskMachine.query
  cases hn : env.calls.get n with
  | none =>
    rw [hl.work.call_ok hn]
    have hready : DeskLocal.Ready { l₁ with work := l₁.work.called } i env (n + 1) rows :=
      ⟨hl.run,hl.work.called,succeeded_succ hl.calls hn⟩
    exact ⟨_,_,_,rfl,.inl rfl,fun s₂ hs₂ => hok _ s₁ s₂ hready hs₁ hs₂⟩
  | some e =>
    rw [hl.work.call_error hn]
    exact ⟨_,_,_,rfl,.inl rfl,fun s₂ hs₂ => hfail e _ s₂ hn ((counter lib).rely_trans hs₁ hs₂)⟩

/-- `get_db` around a program: the session has nothing to make durable after the answer. -/
theorem deskDb_safe {q : DeskProg α} {Q : Except DeskExc α → Site → Prop}
    (hstable : ∀ r s s', Q r s → (counter lib).rely i s s' → Q r s')
    (hq : q.Safe DeskMachine.handler (counter lib) i label (fun r l s => Q r s ∧ (r.isOk → l.work.Emptied)) l s) :
    (getDb q).Safe DeskMachine.handler (counter lib) i label (fun r _ s => Q r s) l s := by
  have hrely := fun (r : Except DeskExc α) (l : DeskLocal) (s s' : Site) (h : Q r s ∧ (r.isOk → l.work.Emptied))
    (hs : (counter lib).rely i s s') => And.intro (hstable r s s' h.1 hs) h.2
  refine (Prog.safe_scope hq hrely (fun a l s h => ?_) fun r l s h => ?_).mono fun _ _ _ h => h.1
  · refine Prog.safe_perform fun s₁ hs₁ => ?_
    obtain ⟨hempty,hrows⟩ := (h.2 rfl).commit Exc.pendingRollback
    show ∃ a' l' s'', DeskMachine.commit l s₁ = (a',l',s'') ∧ _
    unfold DeskMachine.commit
    generalize l.work.commit .pendingRollback = q at hempty hrows ⊢
    rcases q with ⟨e | rows,work⟩
    · exact ⟨_,_,_,rfl,.inl rfl,fun s₂ hs₂ => ⟨hstable _ _ _ h.1 ((counter lib).rely_trans hs₁ hs₂),fun _ => hempty⟩⟩
    · obtain rfl := hrows rows rfl
      refine ⟨_,_,_,rfl,.inl (by simp),fun s₂ hs₂ => ⟨?_,fun _ => hempty⟩⟩
      rw [List.append_nil] at hs₂
      exact hstable _ _ _ h.1 ((counter lib).rely_trans hs₁ hs₂)
  · refine Prog.safe_perform fun s₁ hs₁ => ⟨_,_,_,rfl,.inl rfl,fun s₂ hs₂ => ⟨rfl,?_,fun hr => (h.2 hr).rollback⟩⟩
    exact hstable _ _ _ h.1 ((counter lib).rely_trans hs₁ hs₂)

end Calls

section Programs
variable {lib : Libraries} {i : ℕ} {label : DeskLabel} {l : DeskLocal} {s : Site} {id : Uuid}

/-- The request has added nothing so far. -/
structure Untouched (i : ℕ) (label : DeskLabel) (s : Site) : Prop where
  arrived : label.arrived.Later s
  made : s.madeBy i = []

theorem Untouched.rely {s' : Site} (h : Untouched i label s) (hs : (counter lib).rely i s s') :
    Untouched i label s' := ⟨h.arrived.trans hs.1,hs.2.trans h.made⟩

/-- How a select ends that is the `n`-th call. It is answered from a database with all
that `base` has. -/
inductive Selected {α : Type} (i : ℕ) (label : DeskLabel) (n : ℕ) (base : Database) (answer : Database → α) :
    Except DeskExc α → DeskLocal → Site → Prop
  | failed {e : Exc} {l : DeskLocal} {s : Site} (hs : Untouched i label s) (hcall : label.env.calls.get n = some e) :
      Selected i label n base answer (.error (.raised e)) l s
  | answered {db : Database} {l : DeskLocal} {s : Site} (hs : Untouched i label s) (hl : l.Ready i label.env (n + 1) [])
      (hdb : During label s db) (hbase : base.Extends db) : Selected i label n base answer (.ok (answer db)) l s

theorem select_safe (op : DeskOp) (answer : Database → op.Reply) {l₁ : DeskLocal} {n : ℕ} {base : Database}
    (hop : ∀ s, DeskMachine.handler op (l,s) = DeskMachine.query l₁ s fun _ => .ok (answer s.db))
    (hl : l₁.Ready i label.env n []) (hs : Untouched i label s) (hbase : base.Extends s.db) :
    (perform op).Safe DeskMachine.handler (counter lib) i label (Selected i label n base answer) l s :=
  query_safe hop hl (fun _ _ _ he hs' => .failed (hs.rely hs') he) fun _ _ _ hl' hs₁ hs' =>
    .answered ((hs.rely hs₁).rely hs') hl' ⟨(hs.rely hs₁).arrived.db,hs'.1.db⟩ (hbase.trans hs₁.1.db)

/-- How `require_extraction` ends, which makes the first call. -/
inductive Required (i : ℕ) (label : DeskLabel) (id : Uuid) : Except DeskExc Extraction → DeskLocal → Site → Prop
  | failed {e : Exc} {l : DeskLocal} {s : Site} (hs : Untouched i label s) (hcall : label.env.calls.get 0 = some e) :
      Required i label id (.error (.raised e)) l s
  | missing {db : Database} {l : DeskLocal} {s : Site} (hs : Untouched i label s) (hdb : During label s db)
      (hnone : ∀ x ∈ db.extractions, x.id ≠ id) : Required i label id (.error (.extractionNotFound id)) l s
  | found {x : Extraction} {l : DeskLocal} {s : Site} (hs : Untouched i label s) (hx : x ∈ s.db.extractions)
      (hid : x.id = id) (hl : l.Ready i label.env 1 []) : Required i label id (.ok x) l s

theorem requireExtraction_safe (hl : l.Ready i label.env 0 []) (hs : Untouched i label s) :
    (requireExtraction id).Safe DeskMachine.handler (counter lib) i label (Required i label id) l s := by
  refine Prog.safe_bind (select_safe (.selectExtraction id)
    (fun db => db.extractions.find? fun x => x.id = id) (fun _ => rfl) hl hs (.refl _)) ?_ ?_
  · rintro a l s (_ | ⟨hs,hl,hdb,-⟩)
    rename_i db
    cases hfind : db.extractions.find? fun x => x.id = id with
    | none =>
      refine Prog.safe_done fun s' hs' => .missing (hs.rely hs') (hdb.later hs'.1) fun x hx => ?_
      simpa using List.find?_eq_none.mp hfind x hx
    | some x =>
      refine Prog.safe_done fun s' hs' => .found (hs.rely hs') ?_ (by simpa using List.find?_some hfind) hl
      exact hs'.1.db.extractions.subset (hdb.before.extractions.subset (List.mem_of_find?_eq_some hfind))
  · rintro e l s (⟨hs,hcall⟩ | _)
    exact .failed hs hcall

/-- A failure before any row. -/
theorem Untouched.fails {r : DeskRequest} {k : ℕ} {e : Exc} (hs : Untouched i label s)
    (hk : label.env.calls.get k = some e) (hfirst : ∀ j < k, label.env.calls.get j = none) (hearly : k < 4) :
    Replied lib i label r (.error (.raised e)) s := .failed hk hfirst hearly hs.made

/-- The outcome of a request when it is answered. -/
inductive Answering (lib : Libraries) (i : ℕ) (label : DeskLabel) (r : DeskRequest) :
    Except DeskExc DeskAnswer → DeskLocal → Site → Prop
  | failed {e : DeskExc} {l : DeskLocal} {s : Site} (h : Replied lib i label r (.error e) s) :
      Answering lib i label r (.error e) l s
  | answered {answer : DeskAnswer} {l : DeskLocal} {s : Site} (hl : l.work.Emptied)
      (h : Replied lib i label r (.ok answer) s) : Answering lib i label r (.ok answer) l s

/-- A request is answered, and then its session is left. -/
theorem answering_safe {r : DeskRequest} {q : DeskProg DeskAnswer}
    (hq : q.Safe DeskMachine.handler (counter lib) i label (Answering lib i label r) l s) :
    (getDb q).Safe DeskMachine.handler (counter lib) i label (fun a _ s => Replied lib i label r a s) l s := by
  refine deskDb_safe (fun _ _ _ h hs => h.rely hs) (hq.mono fun a l s h => ?_)
  cases h with
  | failed h => exact ⟨h,fun h => by cases h⟩
  | answered hl h => exact ⟨h,fun _ => hl⟩

/-- The two selects of `get_document` are two moments of the request. -/
theorem getDocument_safe (hl : l.Ready i label.env 0 []) (hs : Untouched i label s) :
    (DeskAnswer.document <$> getDocument id).Safe DeskMachine.handler (counter lib) i label
      (Answering lib i label (.getDocument id)) l s := by
  refine Prog.safe_map (Prog.safe_bind (select_safe (.selectDocument id) (fun db => db.documents id) (fun _ => rfl)
    hl hs (.refl _)) ?_ ?_)
  · rintro a l s (_ | ⟨hs,hl,hdb,-⟩)
    rename_i db
    cases hrow : db.documents id with
    | none =>
      exact Prog.safe_done fun s' hs' => .failed (.noDocument (hdb.later hs'.1) hrow (hs.rely hs').made)
    | some row =>
      set l₁ : DeskLocal := { l with order := l.order.tail }
      have hl₁ : l₁.Ready i label.env 1 [] := ⟨hl.run,hl.work,hl.calls⟩
      refine Prog.safe_bind (select_safe (.selectExtractionsOf id) (fun db => l.order.head.arrange
        (db.extractions.filter fun x => x.documentId = id)) (fun _ => rfl) hl₁ hs hdb.before) ?_ ?_
      · rintro a l' s' (_ | ⟨hs',hl',hdb',horder⟩)
        refine Prog.safe_done fun s'' hs'' => .answered hl'.work.emptied (.document ⟨hdb.after,?_⟩
          (hdb'.later hs''.1) horder hrow (l.order.head.perm _) (hs'.rely hs'').made)
        exact (horder.trans hdb'.before).trans hs''.1.db
      · rintro e l' s' (⟨hs',hcall⟩ | _)
        exact .failed (hs'.fails hcall hl.calls (by decide))
  · rintro e l s (⟨hs,hcall⟩ | _)
    exact .failed (hs.fails hcall (fun j hj => absurd hj (Nat.not_lt_zero j)) (by decide))

/-- What the two reads of an extraction have in common. -/
theorem readExtraction_safe {r : DeskRequest} (answer : Extraction → DeskAnswer)
    (hr : r = .getExtraction id ∨ r = .getExtractionAudit id ∨ ∃ request, r = .correctExtraction id request)
    (hl : l.Ready i label.env 0 []) (hs : Untouched i label s)
    (hfound : ∀ x s, Untouched i label s → x ∈ s.db.extractions → x.id = id → Replied lib i label r (.ok (answer x)) s) :
    (requireExtraction id >>= fun x => pure (answer x)).Safe DeskMachine.handler (counter lib) i label
      (Answering lib i label r) l s := by
  refine Prog.safe_bind (requireExtraction_safe hl hs) ?_ ?_
  · rintro x l s (_ | _ | ⟨hs,hx,hid,hl⟩)
    exact Prog.safe_done fun s' hs' => .answered hl.work.emptied ((hfound x s hs hx hid).rely hs')
  · rintro e l s (⟨hs,hcall⟩ | ⟨hs,hdb,hnone⟩ | _)
    · exact .failed (hs.fails hcall (fun j hj => absurd hj (Nat.not_lt_zero j)) (by decide))
    · exact .failed (.noExtraction hr hdb hnone hs.made)

/-- How `CorrectionService.create` ends, which makes the four calls after the first. -/
inductive CorrectionMade (lib : Libraries) (i : ℕ) (label : DeskLabel) (x : Extraction) (request : CorrectionRequest) :
    Except DeskExc ExtractionCorrection → DeskLocal → Site → Prop
  | failed {e : DeskExc} {l : DeskLocal} {s : Site}
      (h : Replied lib i label (.correctExtraction x.id request) (.error e) s) :
      CorrectionMade lib i label x request (.error e) l s
  | stored {v : ValidationResult} {data : Dict} {id : Uuid} {createdAt : Time} {l : DeskLocal} {s : Site}
      (hx : x ∈ s.db.extractions) (hv : validated lib x request = .ok v) (hdata : v.extractedData = some data)
      (hmade : s.madeBy i = [correctionRow x request v data id createdAt]) (hl : l.Ready i label.env 5 []) :
      CorrectionMade lib i label x request (.ok (correctionRow x request v data id createdAt)) l s

/-- The only row of the request is found under its id. -/
theorem find_made {rows : List ExtractionCorrection} {row : ExtractionCorrection} (hid : row.id.run? = some i)
    (hrows : (rows.filter fun row => row.id.run? = some i) = [row]) :
    (rows.find? fun row' => row'.id = row.id) = some row := by
  have hfind : (rows.filter fun row => row.id.run? = some i).find? (fun row' => row'.id = row.id) = some row := by
    rw [hrows]
    simp
  rw [List.find?_filter] at hfind
  rw [← hfind]
  congr 1
  funext row'
  by_cases h : row'.id = row.id
  · simp [h,hid]
  · simp [h]

/-- The first two calls of the row: it is sent and found again. -/
theorem createCorrection_safe (row : ExtractionCorrection) {r : DeskRequest} (hid : row.id.run? = some i)
    (hl : l.Ready i label.env 1 []) (hs : Untouched i label s) :
    (createCorrection row).Safe DeskMachine.handler (counter lib) i label (fun a l s' =>
      (∀ e, a = .error e → Replied lib i label r (.error e) s') ∧
      (a.isOk → (counter lib).rely i s s' ∧ l.Ready i label.env 3 [row])) l s := by
  refine Prog.safe_op (fun _ => rfl) fun s₁ hs₁ => ?_
  refine Prog.safe_bind (R := fun a l s' => (counter lib).rely i s s' ∧
    ((∃ e, label.env.calls.get 1 = some e ∧ a = .error (.raised e)) ∨ a = .ok () ∧ l.Ready i label.env 2 [row])) ?_ ?_ ?_
  · refine Prog.safe_perform fun s₂ hs₂ => ?_
    have hs₂ := (counter lib).rely_trans hs₁ hs₂
    show ∃ a l' s'', DeskMachine.flush _ s₂ = (a,l',s'') ∧ _
    unfold DeskMachine.flush
    cases hn : label.env.calls.get 1 with
    | none =>
      obtain ⟨u,hu,hready⟩ := hl.work.add_flush_ok Exc.pendingRollback row hn
      rw [hu]
      exact ⟨_,_,_,rfl,.inl rfl,fun s₃ hs₃ => ⟨(counter lib).rely_trans hs₂ hs₃,.inr ⟨rfl,hl.run,hready,
        succeeded_succ hl.calls hn⟩⟩⟩
    | some e =>
      obtain ⟨u,hu⟩ := hl.work.add_flush_error Exc.pendingRollback row hn
      rw [hu]
      exact ⟨_,_,_,rfl,.inl rfl,fun s₃ hs₃ => ⟨(counter lib).rely_trans hs₂ hs₃,.inl ⟨e,rfl,rfl⟩⟩⟩
  · rintro a l₂ s₂ ⟨hs₂,⟨e,-,ha⟩ | ⟨-,hl₂⟩⟩
    · cases ha
    · refine query_safe (fun _ => rfl) hl₂ (fun e l' s' he hs' => ⟨fun e' he' => ?_,fun h => by cases h⟩) ?_
      · cases he'
        exact (hs.rely ((counter lib).rely_trans hs₂ hs')).fails he hl₂.calls (by decide)
      · intro l' s₃ s' hl' hs₃ hs'
        have hs₃ := (counter lib).rely_trans hs₂ hs₃
        have hmade : ((s₃.corrections ++ [row]).filter fun row => row.id.run? = some i) = [row] := by
          rw [List.filter_append,show (s₃.corrections.filter fun row => row.id.run? = some i) = [] from
            (hs.rely hs₃).made]
          simp [hid]
        have hfound : DeskMachine.refreshed row.id s₃ l'.work = .ok row := by
          rw [DeskMachine.refreshed,hl'.work.flushed,find_made hid hmade]
        rw [hfound]
        exact ⟨(fun e he => by cases he),fun _ => ⟨(counter lib).rely_trans hs₃ hs',hl'⟩⟩
  · rintro e l₂ s₂ ⟨hs₂,⟨e',he,ha⟩ | ⟨ha,-⟩⟩
    · refine ⟨fun e'' he'' => ?_,fun h => by cases h⟩
      cases he''
      cases ha
      exact (hs.rely hs₂).fails he hl.calls (by decide)
    · cases ha

/-- The commit of the row, which is the request's only one. -/
theorem commitCorrection_safe {x : Extraction} {request : CorrectionRequest} {v : ValidationResult} {data : Dict}
    {id : Uuid} {createdAt : Time} (hreq : label.request = .correctExtraction x.id request)
    (hx : x ∈ s.db.extractions) (hv : validated lib x request = .ok v) (hdata : v.extractedData = some data)
    (hid : ∃ n, id = .drawn i n) (hl : l.Ready i label.env 3 [correctionRow x request v data id createdAt])
    (hs : Untouched i label s) :
    (perform .commit).Safe DeskMachine.handler (counter lib) i label (fun a l s =>
      (∀ e, a = .error e → Replied lib i label (.correctExtraction x.id request) (.error e) s) ∧
      (a.isOk → s.madeBy i = [correctionRow x request v data id createdAt] ∧ x ∈ s.db.extractions ∧
        l.Ready i label.env 4 [])) l s := by
  set row := correctionRow x request v data id createdAt
  refine Prog.safe_perform fun s₁ hs₁ => ?_
  have hx₁ := hs₁.1.db.extractions.subset hx
  have hs₁ := hs.rely hs₁
  show ∃ a l' s'', DeskMachine.commit l s₁ = (a,l',s'') ∧ _
  unfold DeskMachine.commit
  cases hn : label.env.calls.get 3 with
  | none =>
    obtain ⟨u,hu,hready⟩ := hl.work.commit_ok Exc.pendingRollback (List.cons_ne_nil _ _) hn
    have hmade : (s₁.addCorrections [row]).madeBy i = [row] := by
      obtain ⟨n,hn⟩ := hid
      have hrow : row.id.run? = some i := by rw [show row.id = id from rfl,hn]; rfl
      rw [Site.madeBy,Site.addCorrections,List.filter_append,show (s₁.corrections.filter _) = [] from hs₁.made]
      simp [hrow]
    have hguar : (counter lib).guar i label s₁ (s₁.addCorrections [row]) :=
      .inr ⟨row,rfl,hid,⟨x,hx₁,request,v,data,id,createdAt,hreq,hv,hdata,rfl⟩,hs₁.made⟩
    rw [hu]
    refine ⟨_,_,_,rfl,hguar,fun s₂ hs₂ => ⟨(fun e he => by cases he),fun _ => ⟨hs₂.2.trans hmade,?_,hl.run,hready,
      succeeded_succ hl.calls hn⟩⟩⟩
    exact hs₂.1.db.extractions.subset hx₁
  | some e =>
    obtain ⟨u,hu⟩ := hl.work.commit_error Exc.pendingRollback (List.cons_ne_nil _ _) hn
    rw [hu]
    refine ⟨_,_,_,rfl,.inl rfl,fun s₂ hs₂ => ⟨fun e' he' => ?_,fun h => by cases h⟩⟩
    cases he'
    exact (hs₁.rely hs₂).fails hn hl.calls (by decide)

theorem create_safe {x : Extraction} {request : CorrectionRequest}
    (hreq : label.request = .correctExtraction x.id request) (hx : x ∈ s.db.extractions)
    (hl : l.Ready i label.env 1 []) (hs : Untouched i label s) :
    (create lib x request).Safe DeskMachine.handler (counter lib) i label (CorrectionMade lib i label x request) l s := by
  have hin : ∀ {s'}, (counter lib).rely i s s' → x ∈ s'.db.extractions := fun hs' => hs'.1.db.extractions.subset hx
  unfold create
  cases hv : validated lib x request with
  | error e => exact Prog.safe_done fun s' hs' => .failed (.crashed (hin hs') hv (hs.rely hs').made)
  | ok v =>
    rw [Prog.ofExcept_bind]
    cases hdata : v.extractedData with
    | none =>
      exact Prog.safe_done fun s' hs' => .failed (.rejected (hin hs') hv hdata (hs.rely hs').made)
    | some data =>
      refine Prog.safe_op (fun _ => rfl) fun s₁ hs₁ => Prog.safe_op (fun _ => rfl) fun s₂ hs₂ => ?_
      have hs₂ := (counter lib).rely_trans hs₁ hs₂
      set row := correctionRow x request v data (.drawn l.run l.drawn) l.now.head
      have hrow : row.id.run? = some i := by rw [← hl.run]; rfl
      refine Prog.safe_bind (createCorrection_safe row (r := .correctExtraction x.id request) hrow
        ⟨hl.run,hl.work,hl.calls⟩ (hs.rely hs₂)) ?_ fun e l s h => .failed (h.1 e rfl)
      rintro _ l₃ s₃ ⟨-,hsent⟩
      obtain ⟨hs₃,hl₃⟩ := hsent rfl
      have hs₃ := (counter lib).rely_trans hs₂ hs₃
      refine Prog.safe_bind (commitCorrection_safe hreq (hin hs₃) hv hdata ⟨l.drawn,by rw [hl.run]⟩ hl₃ (hs.rely hs₃))
        ?_ fun e l s h => .failed (h.1 e rfl)
      rintro _ l₄ s₄ ⟨-,hmade⟩
      obtain ⟨hmade,hx₄,hl₄⟩ := hmade rfl
      refine query_safe (fun _ => rfl) hl₄ (fun e l' s' he hs' => .failed ?_) fun l' s₅ s' hl' hs₅ hs' => ?_
      · exact .unacknowledged (hs'.1.db.extractions.subset hx₄) hv hdata he hl₄.calls (hs'.2.trans hmade)
      · have hfound : DeskMachine.refreshed row.id s₅ l'.work = .ok row := by
          rw [DeskMachine.refreshed,hl'.work.flushed,List.append_nil,find_made hrow (hs₅.2.trans hmade)]
        have hs' := (counter lib).rely_trans hs₅ hs'
        rw [show DeskMachine.refreshed (.drawn l.run l.drawn) s₅ l'.work = .ok row from hfound]
        exact .stored (hs'.1.db.extractions.subset hx₄) hv hdata (hs'.2.trans hmade) hl'

/-- The whole correction. -/
theorem correctExtraction_safe {request : CorrectionRequest} (hreq : label.request = .correctExtraction id request)
    (hl : l.Ready i label.env 0 []) (hs : Untouched i label s) :
    (DeskAnswer.correction <$> correctExtraction lib id request).Safe DeskMachine.handler (counter lib) i label
      (Answering lib i label (.correctExtraction id request)) l s := by
  refine Prog.safe_map (Prog.safe_bind (requireExtraction_safe hl hs) ?_ ?_)
  · rintro x l s (_ | _ | ⟨hs,hx,rfl,hl⟩)
    refine Prog.safe_bind (create_safe hreq hx hl hs) ?_ ?_
    · rintro correction l s (_ | ⟨hx,hv,hdata,hmade,hl⟩)
      exact Prog.safe_done fun s' hs' => .answered hl.work.emptied (.corrected (hs'.1.db.extractions.subset hx) hv hdata
        hl.calls (hs'.2.trans hmade))
    · rintro e l s (h | _)
      exact .failed h
  · rintro e l s (⟨hs,hcall⟩ | ⟨hs,hdb,hnone⟩ | _)
    · exact .failed (hs.fails hcall (fun j hj => absurd hj (Nat.not_lt_zero j)) (by decide))
    · exact .failed (.noExtraction (.inr (.inr ⟨_,rfl⟩)) hdb hnone hs.made)

/-- Every request ends as told. -/
theorem program_replies {r : DeskRequest} (hreq : label.request = r) (hl : l.Ready i label.env 0 [])
    (hs : Untouched i label s) :
    (r.program lib).Safe DeskMachine.handler (counter lib) i label (fun a _ s => Replied lib i label r a s) l s := by
  cases r with
  | getDocument documentId => exact answering_safe (getDocument_safe hl hs)
  | getExtraction extractionId =>
    have hread : DeskAnswer.extraction <$> getExtraction extractionId =
        requireExtraction extractionId >>= fun x => pure (.extraction (toExtractionResponse x)) := by
      simp only [getExtraction,map_bind,map_pure]
    rw [DeskRequest.program,hread]
    refine answering_safe (readExtraction_safe _ (.inl rfl) hl hs fun x s hs hx hid => ?_)
    subst hid
    exact .extraction hx hs.made
  | getExtractionAudit extractionId =>
    have hread : DeskAnswer.audit <$> getExtractionAudit extractionId =
        requireExtraction extractionId >>= fun x => pure (.audit (toExtractionAuditResponse x)) := by
      simp only [getExtractionAudit,map_bind,map_pure]
    rw [DeskRequest.program,hread]
    refine answering_safe (readExtraction_safe _ (.inr (.inl rfl)) hl hs fun x s hs hx hid => ?_)
    subst hid
    exact .audit hx hs.made
  | correctExtraction extractionId request => exact answering_safe (correctExtraction_safe hreq hl hs)

end Programs

section Pools
variable {c : Config} {w₀ : World} {cs : List ExtractionCorrection} {p p' : DeskPool}

/-- The rows of the table of corrections: those that were there, and for each of the
others the request that made it. -/
structure Counted (c : Config) (w₀ : World) (cs : List ExtractionCorrection) (p : DeskPool) : Prop where
  service : Pool.Reachable (Machine.handler c.processor) (Arrives c) w₀ p.shared.service
  corrections : ∀ row ∈ p.shared.corrections, row ∈ cs ∨ ∃ i t, p.threads[i]? = some t ∧ (∃ n, row.id = .drawn i n) ∧
    Corrects c.processor.libraries p.shared.db t.label.request row
  keys : (p.shared.corrections.map ExtractionCorrection.id).Nodup
  once : ∀ i, (p.shared.madeBy i).length ≤ 1

/-- The corrections that were there have keys of their own. -/
structure CorrectionsBefore (cs : List ExtractionCorrection) : Prop where
  old : ∀ row ∈ cs, ∃ n, row.id = .old n
  keys : (cs.map ExtractionCorrection.id).Nodup

/-- The request of a row is one that came in. -/
theorem Counted.madeBy_none (h : Counted c w₀ cs p) (hcs : CorrectionsBefore cs) {i : ℕ} (hi : p.threads.length ≤ i) :
    p.shared.madeBy i = [] := by
  refine List.filter_eq_nil_iff.mpr fun row hrow hrun => ?_
  rcases h.corrections row hrow with hrow | ⟨j,t,ht,⟨n,hid⟩,-⟩
  · obtain ⟨n,hn⟩ := hcs.old row hrow
    rw [hn] at hrun
    simp [Uuid.run?] at hrun
  · have hj : j < p.threads.length := (List.getElem?_eq_some_iff.mp ht).1
    rw [hid] at hrun
    obtain rfl : j = i := by simpa [Uuid.run?] using hrun
    exact absurd hj (Nat.not_lt.mpr hi)

theorem Counted.run {i : ℕ} {t t' : DeskThread} {s : Site} (h : Counted c w₀ cs p) (ht : p.threads[i]? = some t)
    (hlabel : t'.label = t.label) (hguar : (counter c.processor.libraries).guar i t.label p.shared s) :
    Counted c w₀ cs ⟨p.threads.set i t',s⟩ := by
  have hi : i < p.threads.length := (List.getElem?_eq_some_iff.mp ht).1
  -- the threads are the same up to their progress
  have hthread : ∀ {j : ℕ} {u : DeskThread}, p.threads[j]? = some u →
      ∃ u' : DeskThread, (p.threads.set i t')[j]? = some u' ∧ u'.label = u.label := by
    intro j u hu
    by_cases hij : i = j
    · subst hij
      rw [hu] at ht
      cases ht
      exact ⟨t',List.getElem?_set_self hi,hlabel⟩
    · exact ⟨u,by rw [List.getElem?_set_ne hij]; exact hu,rfl⟩
  have hold : ∀ row, (row ∈ cs ∨ ∃ j u, p.threads[j]? = some u ∧ (∃ n, row.id = .drawn j n) ∧
      Corrects c.processor.libraries p.shared.db u.label.request row) → row ∈ cs ∨ ∃ j u,
      (p.threads.set i t')[j]? = some u ∧ (∃ n, row.id = .drawn j n) ∧
      Corrects c.processor.libraries p.shared.db u.label.request row := by
    rintro row (hrow | ⟨j,u,hu,hid,hmade⟩)
    · exact .inl hrow
    · obtain ⟨u',hu',hlabel'⟩ := hthread hu
      exact .inr ⟨j,u',hu',hid,hlabel' ▸ hmade⟩
  rcases hguar with rfl | ⟨row,rfl,hid,hmade,hnone⟩
  · exact ⟨h.service,fun row hrow => hold row (h.corrections row hrow),h.keys,h.once⟩
  · refine ⟨h.service,fun row' hrow' => ?_,?_,fun j => ?_⟩
    · rcases List.mem_append.mp hrow' with hrow' | hrow'
      · exact hold row' (h.corrections row' hrow')
      · obtain rfl := List.mem_singleton.mp hrow'
        exact .inr ⟨i,t',List.getElem?_set_self hi,hid,hlabel ▸ hmade⟩
    · show ((p.shared.corrections ++ [row]).map ExtractionCorrection.id).Nodup
      rw [List.map_append,List.nodup_append]
      refine ⟨h.keys,List.nodup_singleton _,fun id hmem id' hmem' heq => ?_⟩
      obtain ⟨row',hrow',rfl⟩ := List.mem_map.mp hmem
      obtain rfl : id' = row.id := by simpa using hmem'
      obtain ⟨n,hn⟩ := hid
      have hrun : row'.id.run? = some i := by rw [heq,hn]; rfl
      exact List.filter_eq_nil_iff.mp hnone row' hrow' (by simpa using hrun)
    · have hfilter : (p.shared.addCorrections [row]).madeBy j =
          p.shared.madeBy j ++ [row].filter fun row => row.id.run? = some j := List.filter_append ..
      obtain ⟨n,hn⟩ := hid
      by_cases hij : i = j
      · subst hij
        rw [hfilter,hnone]
        exact List.length_filter_le _ _
      · have hrow : ¬ row.id.run? = some j := by rw [hn]; exact fun h => hij (Option.some.inj h)
        rw [hfilter]
        simpa [hrow] using h.once j

theorem Counted.start {t : DeskThread} {s : Site} (h : Counted c w₀ cs p) (ht : Asks c p t s) :
    Counted c w₀ cs ⟨p.threads ++ [t],s⟩ := by
  cases ht with
  | request =>
    refine ⟨h.service,fun row hrow => ?_,h.keys,h.once⟩
    rcases h.corrections row hrow with hrow | ⟨j,u,hu,hid,hmade⟩
    · exact .inl hrow
    · have hj : j < p.threads.length := (List.getElem?_eq_some_iff.mp hu).1
      exact .inr ⟨j,u,by rw [List.getElem?_append_left hj]; exact hu,hid,hmade⟩

theorem later_serves (hlog : w₀.log = []) (hw₀ : w₀.db.Before) {s s' : Site}
    (hs : Pool.Reachable (Machine.handler c.processor) (Arrives c) w₀ s.service) (h : Serves c s s') : s.Later s' := by
  cases h with
  | step hstep => exact ⟨(database_extends hlog hw₀ hs (.single hstep)).2.2,List.prefix_rfl⟩

theorem Counted.around (hlog : w₀.log = []) (hw₀ : w₀.db.Before) {s : Site} (h : Counted c w₀ cs p)
    (hs : Serves c p.shared s) : Counted c w₀ cs ⟨p.threads,s⟩ := by
  have hlater := later_serves hlog hw₀ h.service hs
  cases hs with
  | step hstep =>
    refine ⟨h.service.tail hstep,fun row hrow => (h.corrections row hrow).imp id ?_,h.keys,h.once⟩
    rintro ⟨j,t,ht,hid,hmade⟩
    exact ⟨j,t,ht,hid,hmade.extends hlater.db⟩

/-- **How requests end beside the service.** Wherever the moves lead, every correction
is as its request asked for, and every request that ended has ended as told. -/
theorem site_reachable (hlog : w₀.log = []) (hw₀ : w₀.db.Before) (hcs : CorrectionsBefore cs)
    (hp : SiteReachable c w₀ cs p) : Counted c w₀ cs p ∧ ∀ i t r, p.threads[i]? = some t → t.prog = .done r →
      Replied c.processor.libraries i t.label t.label.request r p.shared := by
  have hinduction := Pool.within_induction (D := counter c.processor.libraries) (I := Counted c w₀ cs)
    (Q := fun i label r _ s => Replied c.processor.libraries i label label.request r s) ?_ ?_ ?_ ?_ hp
  · obtain ⟨hcounted,hsafe⟩ := hinduction
    refine ⟨hcounted,fun i t r ht hdone => ?_⟩
    have hend := hsafe i t ht
    rw [hdone] at hend
    exact hend p.shared ((counter _).rely_refl i p.shared)
  · refine ⟨.refl,fun row hrow => .inl hrow,hcs.keys,fun i => ?_⟩
    have hnone : Site.madeBy i ⟨⟨[],w₀⟩,cs⟩ = [] := List.filter_eq_nil_iff.mpr fun row hrow hrun => by
      obtain ⟨n,hn⟩ := hcs.old row hrow
      rw [hn] at hrun
      simp [Uuid.run?] at hrun
    rw [hnone]
    exact Nat.zero_le 1
  · intro p i t op k h _ ht _ hguar
    exact h.run ht rfl hguar
  · intro p t s h _ ht
    refine ⟨fun i => ?_,?_,h.start ht⟩
    · cases ht with
      | request => exact (counter _).rely_refl i _
    · cases ht with
      | request =>
        exact program_replies rfl (DeskLocal.ready_start _ _) ⟨.refl _,h.madeBy_none hcs (Nat.le_refl _)⟩
  · intro p s h hs
    refine ⟨fun i => ⟨later_serves hlog hw₀ h.service hs,?_⟩,h.around hlog hw₀ hs⟩
    cases hs with
    | step _ => rfl

end Pools

end StructuredExtractor
