import StructuredExtractor.Service.Answers
import StructuredExtractor.Service.DeskRuns
import StructuredExtractor.Service.LosslessDiff

/-! # What readers and reviewers can rely on

An answered extraction can be read back, a later read never goes behind an earlier one,
and a correction is stored once or not at all, whatever calls fail and however the
service and the requests interleave.
-/
namespace StructuredExtractor
open Desk

variable {c : Config} {w₀ : World} {cs : List ExtractionCorrection} {p p' : DeskPool}

theorem handler_later (op : DeskOp) (l : DeskLocal) (s : Site) : s.Later (DeskMachine.handler op (l,s)).2.2 := by
  have hquery : ∀ {α : Type} (l : DeskLocal) (answer : UnitOfWork ExtractionCorrection Exc → Except DeskExc α),
      (DeskMachine.query l s answer).2.2 = s := by
    intro α l answer
    unfold DeskMachine.query
    split <;> rfl
  cases op with
  | commit =>
    show s.Later (DeskMachine.commit l s).2.2
    unfold DeskMachine.commit
    split
    · exact .refl s
    · exact s.later_addCorrections _
  | selectDocument id => exact (hquery _ _).symm ▸ .refl s
  | selectExtractionsOf id => exact (hquery _ _).symm ▸ .refl s
  | selectExtraction id => exact (hquery _ _).symm ▸ .refl s
  | refreshCorrection id => exact (hquery _ _).symm ▸ .refl s
  | _ => exact .refl s

/-- What is durable stays so, and a request that comes in later finds it. -/
structure Progress (p p' : DeskPool) : Prop where
  later : p.shared.Later p'.shared
  arrived : ∀ j (t : DeskThread), p.threads.length ≤ j → p'.threads[j]? = some t → p.shared.Later t.label.arrived
  threads : p.threads.length ≤ p'.threads.length

theorem moves_progress (hlog : w₀.log = []) (hw₀ : w₀.db.Before) (hcs : CorrectionsBefore cs)
    (hp : SiteReachable c w₀ cs p) (hp' : SiteMoves c p p') : Progress p p' := by
  induction hp' with
  | refl =>
    refine ⟨.refl _,fun j t hj ht => ?_,Nat.le_refl _⟩
    rw [List.getElem?_eq_none hj] at ht
    cases ht
  | tail hp' hmove ih =>
    have hcounted := (site_reachable hlog hw₀ hcs (hp.trans hp')).1
    cases hmove with
    | step hs =>
      cases hs with
      | @run i t op k ht hop =>
        refine ⟨ih.later.trans (handler_later op t.loc _),fun j u hj hu => ?_,ih.threads.trans_eq (by simp)⟩
        by_cases hij : i = j
        · subst hij
          rw [List.getElem?_set_self (List.getElem?_eq_some_iff.mp ht).1,Option.some.injEq] at hu
          subst hu
          exact ih.arrived i t hj ht
        · rw [List.getElem?_set_ne hij] at hu
          exact ih.arrived j u hj hu
      | start ht =>
        cases ht with
        | request =>
          refine ⟨ih.later,fun j u hj hu => ?_,ih.threads.trans (by simp)⟩
          rcases Nat.lt_or_ge j (List.length _) with hlt | hge
          · rw [List.getElem?_append_left hlt] at hu
            exact ih.arrived j u hj hu
          · rw [List.getElem?_append_right hge] at hu
            obtain rfl := List.mem_singleton.mp (List.mem_of_getElem? hu)
            exact ih.later
    | around hs => exact ⟨ih.later.trans (later_serves hlog hw₀ hcounted.service hs),ih.arrived,ih.threads⟩

/-- The extraction that an answer shows. -/
def DeskAnswer.extraction? : DeskAnswer → Option ExtractionResponse
  | .extraction r => some r
  | .audit r => some r.toExtractionResponse
  | _ => none

/-- The request reads the extraction. -/
def DeskRequest.Reads (r : DeskRequest) (id : Uuid) : Prop := r = .getExtraction id ∨ r = .getExtractionAudit id

/-- The request answered with what `shown` says, or a call of the database failed. -/
def Shows (label : DeskLabel) (r : Except DeskExc DeskAnswer) (shown : DeskAnswer → Prop) : Prop :=
  (∃ k e, label.env.calls.get k = some e ∧ r = .error (.raised e)) ∨ ∃ answer, r = .ok answer ∧ shown answer

/-- Both requests read the same row. -/
inductive DeskRequest.SameRow : DeskRequest → DeskRequest → Prop
  | document {id : Uuid} : SameRow (.getDocument id) (.getDocument id)
  | extraction {r r' : DeskRequest} {id : Uuid} (h : r.Reads id) (h' : r'.Reads id) : SameRow r r'

/-- A later look at a document: what it is stays, and what was listed is listed. -/
structure DocumentResponse.Grows (r r' : DocumentResponse) : Prop where
  id : r'.id = r.id
  filename : r'.filename = r.filename
  pageCount : r'.pageCount = r.pageCount
  fileSizeBytes : r'.fileSizeBytes = r.fileSizeBytes
  uploadedAt : r'.uploadedAt = r.uploadedAt
  extractionIds : r.extractionIds.Subperm r'.extractionIds

/-- The second answer takes nothing back of the first. -/
inductive DeskAnswer.Advances : DeskAnswer → DeskAnswer → Prop
  | document {r r' : DocumentResponse} (h : r.Grows r') : Advances (.document r) (.document r')
  | extraction {answer answer' : DeskAnswer} {read : ExtractionResponse} (h : answer.extraction? = some read)
      (h' : answer'.extraction? = some read) : Advances answer answer'

theorem Counted.extractionKeys (h : Counted c w₀ cs p) (hlog : w₀.log = []) (hw₀ : w₀.db.Before) :
    (p.shared.db.extractions.map Extraction.id).Nodup := (database_extends hlog hw₀ h.service .refl).1

/-- A read of an extraction that was durable when it came in. -/
theorem Replied.shows {lib : Libraries} {i : ℕ} {label : DeskLabel} {request : DeskRequest}
    {r : Except DeskExc DeskAnswer} {s : Site} {id : Uuid} {x : Extraction} (h : Replied lib i label request r s)
    (hread : request.Reads id) (hid : x.id = id) (hx : x ∈ label.arrived.db.extractions)
    (hlater : label.arrived.Later s) (hkeys : (s.db.extractions.map Extraction.id).Nodup) :
    Shows label r fun answer => answer.extraction? = some (toExtractionResponse x) := by
  have hsame : ∀ {y}, y ∈ s.db.extractions → x.id = y.id → y = x := fun hy hid =>
    List.inj_on_of_nodup_map hkeys hy (hlater.db.extractions.subset hx) hid.symm
  have hthere : ∀ {db : Database}, label.arrived.db.Extends db → ¬ ∀ y ∈ db.extractions, y.id ≠ x.id :=
    fun hdb hnone => hnone x (hdb.extractions.subset hx) rfl
  rcases hread with rfl | rfl
  · cases h with
    | failed hk _ _ _ => exact .inl ⟨_,_,hk,rfl⟩
    | noExtraction hr hdb hnone _ =>
      obtain hr | hr | ⟨_,hr⟩ := hr <;> cases hr
      exact absurd (hid ▸ hnone) (hthere hdb.after)
    | extraction hy _ => exact .inr ⟨_,rfl,by rw [hsame hy hid]; rfl⟩
  · cases h with
    | failed hk _ _ _ => exact .inl ⟨_,_,hk,rfl⟩
    | noExtraction hr hdb hnone _ =>
      obtain hr | hr | ⟨_,hr⟩ := hr <;> cases hr
      exact absurd (hid ▸ hnone) (hthere hdb.after)
    | audit hy _ => exact .inr ⟨_,rfl,by rw [hsame hy hid]; rfl⟩

/-- The extraction that a read has shown is durable. -/
theorem Replied.shown {lib : Libraries} {i : ℕ} {label : DeskLabel} {request : DeskRequest} {answer : DeskAnswer}
    {s : Site} {id : Uuid} (h : Replied lib i label request (.ok answer) s) (hread : request.Reads id) :
    ∃ x ∈ s.db.extractions, x.id = id ∧ answer.extraction? = some (toExtractionResponse x) := by
  rcases hread with rfl | rfl
  · cases h with
    | extraction hx _ => exact ⟨_,hx,rfl,rfl⟩
  · cases h with
    | audit hx _ => exact ⟨_,hx,rfl,rfl⟩

theorem listed_subperm {db db' : Database} (hdb : db.Extends db') {id : Uuid} {xs xs' : List Extraction}
    (hxs : xs.Perm (db.extractions.filter fun x => x.documentId = id))
    (hxs' : xs'.Perm (db'.extractions.filter fun x => x.documentId = id)) :
    (xs.map Extraction.id).Subperm (xs'.map Extraction.id) := by
  have hsub := ((hdb.extractions.sublist.filter fun x => x.documentId = id).map Extraction.id).subperm
  exact ((hxs.map _).subperm.trans hsub).trans (hxs'.map _).symm.subperm

/-- A document that was shown, looked at by a request that comes in later. -/
theorem Replied.grows {lib : Libraries} {i j : ℕ} {label label' : DeskLabel} {s s' : Site} {id : Uuid}
    {answer : DeskAnswer} {r : Except DeskExc DeskAnswer} (h : Replied lib i label (.getDocument id) (.ok answer) s)
    (h' : Replied lib j label' (.getDocument id) r s') (hlater : s.Later label'.arrived) :
    Shows label' r fun answer' => answer.Advances answer' := by
  cases h with
  | document hdb hdb' _ hrow hxs _ =>
    cases h' with
    | failed hk _ _ _ => exact .inl ⟨_,_,hk,rfl⟩
    | noDocument hseen hnone _ =>
      obtain ⟨status,hstatus⟩ := ((hdb.before.trans hlater.db).trans hseen.after).documents _ _ hrow
      rw [hnone] at hstatus
      cases hstatus
    | noExtraction hr => obtain hr | hr | ⟨_,hr⟩ := hr <;> cases hr
    | document hseen hseen' _ hrow' hxs' _ =>
      obtain ⟨status,hstatus⟩ := ((hdb.before.trans hlater.db).trans hseen.after).documents _ _ hrow
      cases hrow'.symm.trans hstatus
      exact .inr ⟨_,rfl,.document ⟨rfl,rfl,rfl,rfl,rfl,
        listed_subperm ((hdb'.before.trans hlater.db).trans hseen'.after) hxs hxs'⟩⟩

section Reads
variable (hlog : w₀.log = []) (hw₀ : w₀.db.Before) (hcs : CorrectionsBefore cs)
include hlog hw₀ hcs

/-- The requests know when they came in. -/
theorem arrived_later (hp : SiteReachable c w₀ cs p) {j : ℕ} {t : DeskThread} (ht : p.threads[j]? = some t) :
    t.label.arrived.Later p.shared := by
  induction hp generalizing j t with
  | refl => simp at ht
  | tail hp hmove ih =>
    have hcounted := (site_reachable hlog hw₀ hcs hp).1
    cases hmove with
    | step hs =>
      cases hs with
      | @run i u op k hu hop =>
        by_cases hij : i = j
        · subst hij
          rw [List.getElem?_set_self (List.getElem?_eq_some_iff.mp hu).1,Option.some.injEq] at ht
          subst ht
          exact (ih hu).trans (handler_later op u.loc _)
        · rw [List.getElem?_set_ne hij] at ht
          exact (ih ht).trans (handler_later op u.loc _)
      | start hu =>
        cases hu with
        | request =>
          rcases Nat.lt_or_ge j (List.length _) with hlt | hge
          · rw [List.getElem?_append_left hlt] at ht
            exact ih ht
          · rw [List.getElem?_append_right hge] at ht
            obtain rfl := List.mem_singleton.mp (List.mem_of_getElem? ht)
            exact .refl _
    | around hs => exact (ih ht).trans (later_serves hlog hw₀ hcounted.service hs)

/-- **Answers can be read back.** Once a run has answered with an extraction, every read
of it that comes in later shows what was answered, up to the fallback warning, unless
one of its own calls fails. -/
theorem answer_read_back (hp : SiteReachable c w₀ cs p) (hp' : SiteMoves c p p') {k : ℕ} {run : ServiceThread}
    {response : ExtractResponse} (hrun : p.shared.service.threads[k]? = some run)
    (hanswer : run.prog = .done (.ok (.extract response))) {j : ℕ} {t : DeskThread} {r : Except DeskExc DeskAnswer}
    (hj : p.threads.length ≤ j) (ht : p'.threads[j]? = some t) (hread : t.label.request.Reads response.extractionId)
    (hdone : t.prog = .done r) :
    Shows t.label r fun answer => ∃ read, answer.extraction? = some read ∧
      .extract response = Service.inlineAnswer run.label.source.asyncMode read.extractResponse := by
  have hservice := (site_reachable hlog hw₀ hcs hp).1.service
  obtain ⟨hcounted,hreplied⟩ := site_reachable hlog hw₀ hcs (hp.trans hp')
  obtain ⟨x,hx,heq⟩ := tells_finished Arrives.tells hservice hrun hanswer response rfl
  have hid : x.id = response.extractionId := by
    unfold Service.inlineAnswer at heq
    rw [Answer.extract.inj heq]
    split <;> rfl
  have harrived := (moves_progress hlog hw₀ hcs hp hp').arrived j t hj ht
  exact ((hreplied j t r ht hdone).shows hread hid (harrived.db.extractions.subset hx)
    (arrived_later hlog hw₀ hcs (hp.trans hp') ht) (hcounted.extractionKeys hlog hw₀)).imp id
    fun ⟨answer,hr,hshown⟩ => ⟨answer,hr,_,hshown,heq⟩

/-- **Reads never go back.** What a request has shown of a row, every request that comes
in later shows as well: of a document the same but for its status, with every extraction
listed before, and of an extraction the same. -/
theorem reads_advance (hp : SiteReachable c w₀ cs p) (hp' : SiteMoves c p p') {i : ℕ} {t : DeskThread}
    {answer : DeskAnswer} (ht : p.threads[i]? = some t) (hdone : t.prog = .done (.ok answer)) {j : ℕ}
    {t' : DeskThread} {r : Except DeskExc DeskAnswer} (hj : p.threads.length ≤ j) (ht' : p'.threads[j]? = some t')
    (hsame : t.label.request.SameRow t'.label.request) (hdone' : t'.prog = .done r) :
    Shows t'.label r fun answer' => answer.Advances answer' := by
  have hfirst := (site_reachable hlog hw₀ hcs hp).2 i t _ ht hdone
  obtain ⟨hcounted,hreplied⟩ := site_reachable hlog hw₀ hcs (hp.trans hp')
  have hsecond := hreplied j t' r ht' hdone'
  have harrived := (moves_progress hlog hw₀ hcs hp hp').arrived j t' hj ht'
  generalize t.label.request = q at hsame hfirst
  generalize t'.label.request = q' at hsame hsecond
  cases hsame with
  | document => exact hfirst.grows hsecond harrived
  | extraction hread hread' =>
    obtain ⟨x,hx,hid,hshown⟩ := hfirst.shown hread
    refine (hsecond.shows hread' hid (harrived.db.extractions.subset hx)
      (arrived_later hlog hw₀ hcs (hp.trans hp') ht') (hcounted.extractionKeys hlog hw₀)).imp id ?_
    exact fun ⟨answer',hr,hshown'⟩ => ⟨answer',hr,.extraction hshown hshown'⟩

end Reads

/-- The service goes on while the requests wait. -/
theorem served_moves {c : Config} {threads : List DeskThread} {s : Site} {service : ServicePool}
    (h : Relation.ReflTransGen (Pool.Step (Machine.handler c.processor) (Arrives c)) s.service service) :
    SiteMoves c ⟨threads,s⟩ ⟨threads,{ s with service }⟩ := by
  induction h with
  | refl => exact .refl
  | tail _ hstep ih => exact ih.tail (.around (.step hstep))

section Sample

theorem noCorrections : CorrectionsBefore [] := ⟨(fun row hrow => by cases hrow),List.nodup_nil⟩

/-- The document was processed inline, where a job was asked for. -/
def answeredSite : Site :=
  ⟨⟨[⟨⟨.request (sampleExisting true),answeredEnv⟩,.done answeredRun.1,answeredRun.2.1⟩],answeredRun.2.2⟩,[]⟩

theorem answeredSite_reachable : SiteReachable (sampleConfig false) storedWorld [] ⟨[],answeredSite⟩ :=
  served_moves answeredRun_reachable (s := ⟨⟨[],storedWorld⟩,[]⟩)

/-- No call fails, and rows come as they were stored. -/
def deskEnv : DeskEnv := ⟨Stream'.const none,Stream'.const 0,Stream'.const ⟨id,fun _ => .refl _⟩⟩

/-- Request `i` runs alone. -/
def askedAlone (c : Config) (i : ℕ) (r : DeskRequest) (env : DeskEnv) (s : Site) :
    Except DeskExc DeskAnswer × DeskLocal × Site :=
  (r.program c.processor.libraries).run DeskMachine.handler (DeskLocal.start i env,s)

/-- A request comes in and runs to its end. -/
def asked (c : Config) (p : DeskPool) (r : DeskRequest) (env : DeskEnv) : DeskPool :=
  ⟨p.threads ++ [⟨⟨r,env,p.shared⟩,.done (askedAlone c p.threads.length r env p.shared).1,
    (askedAlone c p.threads.length r env p.shared).2.1⟩],(askedAlone c p.threads.length r env p.shared).2.2⟩

theorem asked_moves {c : Config} (p : DeskPool) (r : DeskRequest) (env : DeskEnv) : SiteMoves c p (asked c p r env) :=
  .steps .refl (Pool.through (@Asks.request c p r env))

/-- The first request after the answer. -/
def readBack (request : DeskRequest) : DeskPool := asked (sampleConfig false) ⟨[],answeredSite⟩ request deskEnv

theorem readBack_shows : ∃ response r, answeredRun.1 = .ok (.extract response) ∧
    Shows ⟨.getExtraction (.drawn 0 0),deskEnv,answeredSite⟩ r fun answer => ∃ read,
      answer.extraction? = some read ∧ .extract response = Service.inlineAnswer true read.extractResponse := by
  obtain ⟨response,hanswer,hid⟩ := answeredRun_answer
  exact ⟨response,_,hanswer,answer_read_back rfl storedWorld_before noCorrections answeredSite_reachable
    (asked_moves _ (.getExtraction (.drawn 0 0)) deskEnv) (k := 0) rfl (congrArg Prog.done hanswer) (j := 0)
    (Nat.le_refl 0) rfl (.inl (congrArg _ hid.symm)) rfl⟩

/-- The document is looked up twice. -/
theorem readBack_advances : ∃ answer r,
    (askedAlone (sampleConfig false) 0 (.getDocument (.old 0)) deskEnv answeredSite).1 = .ok answer ∧
    Shows ⟨.getDocument (.old 0),deskEnv,(readBack (.getDocument (.old 0))).shared⟩ r answer.Advances := by
  have hok : (askedAlone (sampleConfig false) 0 (.getDocument (.old 0)) deskEnv answeredSite).1.isOk := by decide
  match hrun : (askedAlone (sampleConfig false) 0 (.getDocument (.old 0)) deskEnv answeredSite).1, hok with
  | .ok answer, _ =>
    exact ⟨answer,_,rfl,reads_advance rfl storedWorld_before noCorrections
      (answeredSite_reachable.trans (asked_moves _ (.getDocument (.old 0)) deskEnv))
      (asked_moves _ (.getDocument (.old 0)) deskEnv) (i := 0) rfl (congrArg Prog.done hrun) (j := 1)
      (Nat.le_refl 1) rfl .document rfl⟩

end Sample

end StructuredExtractor
