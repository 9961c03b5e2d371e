import StructuredExtractor.Extraction.OnePage
import StructuredExtractor.Service.Interleaving

/-! # From an asynchronous request to its run

A request that asks for the queue either enqueues one job, which a worker takes once,
or processes the document itself. An existing document is the exception: when its job
cannot be enqueued, nobody processes it.
-/
namespace StructuredExtractor
open Service

def Source.job? : Source → Option Job
  | .worker job => some job
  | .request _ => none

def Action.job? : Action → Option Job
  | .enqueue job => some job
  | _ => none

/-- The jobs that wait, and those that a worker was started for. -/
def allJobs (p : ServicePool) : List Job :=
  p.shared.queue ++ (p.threads.map Thread.label).filterMap fun label => label.source.job?

/-- The jobs that run `i` enqueued. -/
def jobsOf (p : ServicePool) (i : ℕ) : List Job := (allJobs p).filter fun job => job.origin = i

section Scripts
variable {c : Config} {i : ℕ} {k : Kind} {w : World} {job : Job}

theorem setting_jobs (known : Document) (status : DocumentStatus) :
    (setting known status).filterMap Action.job? = [] := by
  unfold setting
  split <;> rfl

theorem Recording.jobs {known : Document} {otherwise as : List Action}
    {o : Except Exc DocumentProcessingResult} (h : Recording c i known otherwise o as)
    (hother : otherwise.filterMap Action.job? = []) : as.filterMap Action.job? = [] := by
  unfold Recording at h
  split at h
  · exact h ▸ hother
  · obtain ⟨-,_,_,_,rfl⟩ := h
    rfl

theorem mem_jobs {as : List Action} : .enqueue job ∈ as ↔ job ∈ as.filterMap Action.job? := by
  rw [List.mem_filterMap]
  constructor
  · exact fun h => ⟨_,h,rfl⟩
  · rintro ⟨a,ha,hjob⟩
    cases a with
    | enqueue job' =>
      obtain rfl := Option.some.inj hjob
      exact ha
    | _ => cases hjob

/-- The two scripts that enqueue a job. -/
inductive Enqueues (i : ℕ) (job : Job) : Kind → List Action → Prop
  | upload {content : Bytes} {row : Document} (hid : row.id = .drawn i 0)
      (hstatus : row.status = .processing) (hdoc : job.documentId = row.id.str) :
      Enqueues i job .uploadQueued
        [.save row.filePath content,.commit [.insertDocument row],.enqueue job]
  | existing {id : Uuid} (hdoc : job.documentId = id.str) :
      Enqueues i job (.existingQueued id) [.enqueue job]

theorem Script.enqueues {full : List Action} (h : Script c i k full) (hjob : .enqueue job ∈ full) :
    job.origin = i ∧ Enqueues i job k full := by
  rw [mem_jobs] at hjob
  cases h with
  | uploadInline hid hknown htail =>
    rw [List.filterMap_cons_none rfl,List.filterMap_cons_none rfl,List.filterMap_append,setting_jobs,
      htail.jobs rfl] at hjob
    cases hjob
  | uploadFallback hid hknown hstatus htail =>
    rw [List.filterMap_cons_none rfl,List.filterMap_cons_none rfl,htail.jobs rfl] at hjob
    cases hjob
  | @uploadQueued content row job' hid hstatus hdoc horigin =>
    obtain rfl : job = job' := List.mem_singleton.mp hjob
    exact ⟨horigin,.upload hid hstatus hdoc⟩
  | existingInline htail =>
    rw [List.filterMap_append,setting_jobs,htail.jobs (setting_jobs _ _)] at hjob
    cases hjob
  | @existingQueued id job' hdoc horigin =>
    obtain rfl : job = job' := List.mem_singleton.mp hjob
    exact ⟨horigin,.existing hdoc⟩

/-- A run enqueues its job with its last action. -/
theorem May.enqueues (h : May c i k w (.enqueue job)) :
    job.origin = i ∧ Enqueues i job k (w.trace i ++ [.enqueue job]) := by
  obtain ⟨full,hscript,hpre⟩ := h.script
  have hmem : .enqueue job ∈ full :=
    hpre.subset (List.mem_append_right _ (List.mem_singleton_self _))
  obtain ⟨horigin,henqueues⟩ := hscript.enqueues hmem
  refine ⟨horigin,?_⟩
  have hfull : w.trace i ++ [.enqueue job] = full := by
    cases henqueues with
    | @upload content row =>
      obtain heq | hpre := (@List.prefix_concat_iff _ _ [_,_] _).mp hpre
      · exact heq
      · simpa using hpre.subset (List.mem_append_right _ (List.mem_singleton_self _))
    | existing =>
      obtain heq | hpre := (@List.prefix_concat_iff _ _ [] _).mp hpre
      · exact heq
      · simpa using hpre.subset (List.mem_append_right _ (List.mem_singleton_self _))
  rw [hfull]
  exact henqueues

end Scripts

section Invariant
variable {c : Config} {p : ServicePool} {i : ℕ} {t t' : ServiceThread} {job : Job}

/-- The actions that enqueued jobs, and the jobs that wait or were taken, agree; and
the document of a job is there. -/
structure Delivered (p : ServicePool) : Prop where
  jobs : (allJobs p).Perm (p.shared.log.filterMap fun x => x.2.job?)
  origin : ∀ x ∈ p.shared.log, ∀ job, x.2.job? = some job → job.origin = x.1
  grounded : ∀ job ∈ allJobs p, (p.shared.db.documents job.documentId.uuid).isSome

theorem labels_set {threads : List ServiceThread} (ht : threads[i]? = some t) (hlabel : t'.label = t.label) :
    (threads.set i t').map Thread.label = threads.map Thread.label := by
  obtain ⟨hlen,hget⟩ := List.getElem?_eq_some_iff.mp ht
  have hlen' : i < (threads.map Thread.label).length := by rwa [List.length_map]
  have hsame : t'.label = (threads.map Thread.label)[i] := by rw [List.getElem_map,hget,hlabel]
  rw [List.map_set,hsame,List.set_getElem_self]

theorem allJobs_set {w : World} (hqueue : w.queue = p.shared.queue) (ht : p.threads[i]? = some t)
    (hlabel : t'.label = t.label) : allJobs ⟨p.threads.set i t',w⟩ = allJobs p := by
  simp only [allJobs,labels_set ht hlabel,hqueue]

theorem Delivered.idle (h : Delivered p) (ht : p.threads[i]? = some t) (hlabel : t'.label = t.label) :
    Delivered ⟨p.threads.set i t',p.shared⟩ := by
  have hjobs := allJobs_set (w := p.shared) rfl ht hlabel
  exact ⟨hjobs ▸ h.jobs,h.origin,hjobs ▸ h.grounded⟩

theorem queue_act {w : World} {a : Action} (h : a.job? = none) : (w.act i a).queue = w.queue := by
  cases a with
  | enqueue job => cases h
  | _ => rfl

theorem Delivered.act {a : Action} (h : Delivered p) (ht : p.threads[i]? = some t)
    (hlabel : t'.label = t.label) (hmay : May c i (t.label.source.kind c) p.shared a) :
    Delivered ⟨p.threads.set i t',p.shared.act i a⟩ := by
  have hlog : (p.shared.act i a).log.filterMap (fun x => x.2.job?) =
      p.shared.log.filterMap (fun x => x.2.job?) ++ a.job?.toList := by
    rw [log_act,List.filterMap_append]
    cases a <;> rfl
  cases hjob : a.job? with
  | none =>
    have hjobs := allJobs_set (queue_act (w := p.shared) (i := i) hjob) ht hlabel
    refine ⟨?_,fun x hx job hxjob => ?_,fun job hj => ?_⟩
    · rw [hjobs,hlog,hjob,Option.toList_none,List.append_nil]
      exact h.jobs
    · rw [log_act,List.mem_append,List.mem_singleton] at hx
      obtain hx | rfl := hx
      · exact h.origin x hx job hxjob
      · exact absurd (hjob.symm.trans hxjob) (Option.some_ne_none job).symm
    · exact World.documents_act (h.grounded job (hjobs ▸ hj)) i a
  | some job =>
    obtain rfl : a = .enqueue job := by
      cases a with
      | enqueue job' => rw [Option.some.inj hjob]
      | _ => cases hjob
    obtain ⟨horigin,-⟩ := hmay.enqueues
    have hjobs : (allJobs ⟨p.threads.set i t',p.shared.act i (.enqueue job)⟩).Perm
        (allJobs p ++ [job]) := by
      simp only [allJobs,labels_set ht hlabel,List.append_assoc]
      exact (List.append_assoc p.shared.queue [job] _).symm ▸
        List.Perm.append_left _ List.perm_append_comm
    refine ⟨?_,fun x hx job' hxjob => ?_,fun job' hj => ?_⟩
    · rw [hlog]
      exact hjobs.trans (h.jobs.append_right [job])
    · rw [log_act,List.mem_append,List.mem_singleton] at hx
      obtain hx | rfl := hx
      · exact h.origin x hx job' hxjob
      · obtain rfl := Option.some.inj hxjob
        exact horigin
    · have hmem := hjobs.mem_iff.mp hj
      rw [List.mem_append,List.mem_singleton] at hmem
      obtain hj | rfl := hmem
      · exact h.grounded job' hj
      · exact hmay.grounded job' rfl

theorem Delivered.start {g : World} (h : Delivered p) (ht : Starts c p t g) :
    Delivered ⟨p.threads ++ [t],g⟩ := by
  have hjobs : (allJobs ⟨p.threads ++ [t],g⟩).Perm (allJobs p) := by
    have hlabels : (p.threads ++ [t]).map Thread.label = p.threads.map Thread.label ++ [t.label] :=
      List.map_append
    simp only [allJobs,hlabels,List.filterMap_append]
    cases ht with
    | request =>
      rw [List.filterMap_cons_none rfl,List.filterMap_nil,List.append_nil]
    | @worker job env before after hdb hqueue =>
      set taken := (p.threads.map Thread.label).filterMap fun label => label.source.job?
      show ((before ++ after) ++ (taken ++ [job])).Perm (p.shared.queue ++ taken)
      rw [hqueue,← List.append_assoc]
      exact (List.perm_append_singleton _ _).trans (List.perm_middle.symm.append_right _)
  cases ht with
  | request => exact ⟨hjobs.trans h.jobs,h.origin,fun job hj => h.grounded job (hjobs.mem_iff.mp hj)⟩
  | worker => exact ⟨hjobs.trans h.jobs,h.origin,fun job hj => h.grounded job (hjobs.mem_iff.mp hj)⟩

/-- The document of a worker's job is there when the worker starts. -/
def Grounded (label : Label) (w : World) : Prop :=
  ∀ job, label.source = .worker job → (w.db.documents job.documentId.uuid).isSome

/-- A worker whose document is there starts to process it. -/
theorem Ended.worker {env : Env} {r : Except Exc Answer} {l : Local} {w : World}
    (h : Ended c Grounded i ⟨.worker job,env⟩ r l w) : l.started = [job.documentId.uuid] := by
  obtain ⟨w₀,-,hground,hends⟩ := h
  have hkind : ∀ {id}, (Source.worker job).kind c = .existingInline id → id = job.documentId.uuid :=
    fun h => (Kind.existingInline.inj h).symm
  show l.trail.started = _
  generalize l.trail = trail at hends
  cases hends with
  | invalid h => cases h
  | notFound h hw₁ hnone =>
    obtain h | h := h
    · obtain rfl := hkind h
      exact absurd (hw₁.2 _ (hground job rfl)) (by simp [hnone])
    · cases h
  | existingInline h => rw [hkind h]
  | notLoaded h => rw [hkind h]

theorem pool_delivered {w₀ : World} (hlog : w₀.log = []) (hqueue : w₀.queue = [])
    (hp : Pool.Reachable (Machine.handler c.processor) (Starts c) w₀ p) :
    Delivered p ∧ ∀ i t r, p.threads[i]? = some t → t.prog = .done r →
      Ended c Grounded i t.label r t.loc p.shared := by
  have hinit : Delivered ⟨[],w₀⟩ :=
    ⟨by simp [allJobs,hqueue,hlog],fun x hx => by simp [hlog] at hx,fun job hj => by
      simp [allJobs,hqueue] at hj⟩
  refine (pool_induction (I := Delivered) (fun h => h) hlog hinit (fun h ht _ hlabel => h.idle ht hlabel)
    (fun _ h ht _ hlabel hmay => h.act ht hlabel hmay) (fun _ h ht => ⟨?_,h.start ht⟩) hp).2
  cases ht with
  | request => exact fun job hjob => by cases hjob
  | worker hdb hqueue =>
    rintro job hjob
    cases hjob
    exact h.grounded _ (List.mem_append_left _ (hqueue ▸ List.mem_append_right _ List.mem_cons_self))

/-- The jobs that a run enqueued are those of its actions. -/
theorem Delivered.jobsOf_perm (h : Delivered p) (i : ℕ) :
    (jobsOf p i).Perm ((p.shared.trace i).filterMap Action.job?) := by
  have horigin := h.origin
  have hfilter : (p.shared.log.filterMap fun x => x.2.job?).filter (fun job => job.origin = i) =
      (p.shared.trace i).filterMap Action.job? := by
    rw [World.trace]
    generalize p.shared.log = log at horigin ⊢
    induction log with
    | nil => rfl
    | cons x log ih =>
      have hrest := ih fun y hy => horigin y (List.mem_cons_of_mem x hy)
      have hx := horigin x List.mem_cons_self
      by_cases hxi : x.1 = i <;> cases hjob : x.2.job? with
      | none => simp [hjob,hxi,hrest]
      | some job => simp [hjob,hxi,hrest,hx job hjob]
  exact hfilter ▸ h.jobs.filter _

end Invariant

section HandOff
variable {c : Config} {p : ServicePool} {i : ℕ} {env : Env} {d : Uuid} {answer : Except Exc Answer}
variable {l : Local}

/-- There is a queue, and it takes the job. -/
def Delivers (c : Config) (env : Env) : Prop := c.pool = true ∧ env.enqueue.head.isOk = true

/-- The document of an asynchronous request is processed once: by a worker if the job
was delivered, or else by the request, which says so in its warnings. -/
structure HandedOver (c : Config) (p : ServicePool) (i : ℕ) (env : Env) (d : Uuid)
    (answer : Except Exc Answer) (l : Local) : Prop where
  once : l.started.length + (jobsOf p i).length = 1
  queued : Delivers c env → l.started = [] ∧ ∃ job, jobsOf p i = [job] ∧ job.documentId = d.str
  inline : ¬ Delivers c env → l.started = [d] ∧ jobsOf p i = [] ∧
    ∀ a, answer = .ok a → ∃ response, a = .extract (withFallbackWarning response)
  worker : ∀ (k : ℕ) (t : ServiceThread) (job : Job), p.threads[k]? = some t → t.label.source = .worker job →
    job.origin = i → (p.shared.db.documents d).isSome ∧ ∀ r, t.prog = .done r → t.loc.started = [d]

/-- The job of an existing document is not delivered. -/
def Unsent (c : Config) (r : ExtractRequest) (env : Env) : Prop :=
  (∃ id, (Source.request r).kind c = .existingQueued id) ∧ env.enqueue.head.isOk = false

theorem mem_jobsOf {k : ℕ} {t : ServiceThread} {job : Job} (ht : p.threads[k]? = some t)
    (hsource : t.label.source = .worker job) (horigin : job.origin = i) : job ∈ jobsOf p i := by
  refine List.mem_filter.mpr ⟨List.mem_append_right _ ?_,decide_eq_true horigin⟩
  exact List.mem_filterMap.mpr ⟨t.label,List.mem_map_of_mem (List.mem_of_getElem? ht),by rw [hsource]; rfl⟩

theorem handedOver_inline (hdelivered : Delivered p) (hdelivers : ¬ Delivers c env)
    (hstarted : l.started = [d]) (hjobs : (p.shared.trace i).filterMap Action.job? = [])
    (hanswer : ∀ a, answer = .ok a → ∃ response, a = .extract (withFallbackWarning response)) :
    HandedOver c p i env d answer l := by
  have hnone : jobsOf p i = [] := List.perm_nil.mp (hjobs ▸ hdelivered.jobsOf_perm i)
  refine ⟨by rw [hstarted,hnone]; rfl,fun h => absurd h hdelivers,fun _ => ⟨hstarted,hnone,hanswer⟩,?_⟩
  intro k t job ht hsource horigin
  have hmem := mem_jobsOf ht hsource horigin
  rw [hnone] at hmem
  cases hmem

theorem handedOver_queued (hdelivered : Delivered p)
    (hended : ∀ k t r, p.threads[k]? = some t → t.prog = .done r →
      Ended c Grounded k t.label r t.loc p.shared)
    (hdelivers : Delivers c env) (hstarted : l.started = []) {job : Job}
    (hjobs : (p.shared.trace i).filterMap Action.job? = [job]) (hdoc : job.documentId = d.str) :
    HandedOver c p i env d answer l := by
  have hone : jobsOf p i = [job] := List.perm_singleton.mp (hjobs ▸ hdelivered.jobsOf_perm i)
  refine ⟨by rw [hstarted,hone]; rfl,fun _ => ⟨hstarted,job,hone,hdoc⟩,fun h => absurd hdelivers h,?_⟩
  intro k t job' ht hsource horigin
  have hmem := mem_jobsOf ht hsource horigin
  have hd : job'.documentId.uuid = d := by
    rw [hone] at hmem
    obtain rfl := List.mem_singleton.mp hmem
    rw [hdoc]
    rfl
  refine ⟨hd ▸ hdelivered.grounded job' (List.mem_filter.mp hmem).1,fun r hr => ?_⟩
  have hend := hended k t r ht hr
  rw [show t.label = ⟨.worker job',t.label.env⟩ from congrArg (Label.mk · t.label.env) hsource] at hend
  rw [hend.worker,hd]

/-- Whether a request goes to the queue. -/
theorem pool_of_kind {r : ExtractRequest} (hasync : r.asyncMode = true) :
    match (Source.request r).kind c with
    | .uploadInline | .existingInline _ => c.pool = false
    | .uploadQueued | .existingQueued _ => c.pool = true
    | .invalid => True := by
  unfold Source.kind
  cases hcontent : r.content <;> cases hfilename : r.filename <;> cases hid : r.documentId <;>
    cases hpool : c.pool <;> simp [hasync,hcontent,hfilename,hid]

theorem Answered.warns {asyncMode : Bool} {o : Except Exc DocumentProcessingResult}
    (h : Answered asyncMode o answer) (hasync : asyncMode = true) (a : Answer) (ha : answer = .ok a) :
    ∃ response, a = .extract (withFallbackWarning response) := by
  subst hasync
  exact h.response a ha

/-- **The hand-off.** In every interleaving of runs, when an asynchronous request that
found its document has ended, the document is handed over to exactly one run, unless
the job of an existing document could not be enqueued. -/
theorem handedOver_iff {w₀ : World} {t : ServiceThread} {r : ExtractRequest} (hlog : w₀.log = [])
    (hqueue : w₀.queue = [])
    (hp : Pool.Reachable (Machine.handler c.processor) (Starts c) w₀ p) (ht : p.threads[i]? = some t)
    (hlabel : t.label = ⟨.request r,env⟩) (hasync : r.asyncMode = true) (hdone : t.prog = .done answer)
    (hfound : t.loc.session.document.isSome)
    (hd : ((Source.request r).kind c).document i = some d) :
    HandedOver c p i env d answer t.loc ↔ ¬ Unsent c r env := by
  obtain ⟨hdelivered,hended⟩ := pool_delivered hlog hqueue hp
  obtain ⟨w,htrace,-,hends⟩ := hended i t answer ht hdone
  have hpool := pool_of_kind (c := c) hasync
  rw [hlabel] at hends
  have hjobs : ∀ {as}, Went (interleaved c) i w as p.shared →
      (p.shared.trace i).filterMap Action.job? = as.filterMap Action.job? := fun h => by
    rw [h.trace (interleaved_fits c i t.label),htrace,List.nil_append]
  have hstarted : t.loc.trail.started = t.loc.started := rfl
  have hfound : t.loc.trail.found = true := hfound
  generalize t.loc.trail = trail at hends hstarted hfound
  have hdirect : c.pool = false → ¬ Delivers c env := fun h h' => Bool.false_ne_true (h.symm.trans h'.1)
  have hsent : ∀ {k}, (Source.request r).kind c = k → (∀ id, k ≠ .existingQueued id) →
      ¬ Unsent c r env := fun hkind hk h => hk _ (hkind.symm.trans h.1.choose_spec)
  cases hends with
  | invalid hkind => cases hfound
  | notUploaded => cases hfound
  | notFound => cases hfound
  | uploadInline hkind hcontent hfilename hup hinput hrec hw hanswer =>
    rw [hkind] at hpool hd
    obtain rfl := Option.some.inj hd
    refine iff_of_true (handedOver_inline hdelivered (hdirect hpool) hstarted.symm ?_
      (hanswer.warns hasync)) (hsent hkind fun _ h => by cases h)
    rw [hjobs (hup.went.trans hw),List.filterMap_append,List.filterMap_append,setting_jobs,hrec.jobs rfl]
    rfl
  | uploadFallback hkind hcontent hfilename hqueue hup hinput hrec hw hanswer =>
    rw [hkind] at hd
    obtain rfl := Option.some.inj hd
    have hdelivers : ¬ Delivers c env := fun h => by
      have hok := h.2
      rw [hqueue] at hok
      cases hok
    refine iff_of_true (handedOver_inline hdelivered hdelivers hstarted.symm ?_
      (hanswer.warns rfl)) (hsent hkind fun _ h => by cases h)
    rw [hjobs (hup.went.trans hw),List.filterMap_append,hrec.jobs rfl]
    rfl
  | uploadQueued hkind hcontent hfilename hqueue hup hw =>
    rw [hkind] at hpool hd
    obtain rfl := Option.some.inj hd
    have hone : (p.shared.trace i).filterMap Action.job? =
        [⟨(Uuid.drawn i 0).str,r.docType,r.strategy.map ExtractionStrategy.value,i⟩] :=
      hjobs (hup.went.trans hw)
    exact iff_of_true (handedOver_queued hdelivered hended ⟨hpool,by rw [hqueue]; rfl⟩ hstarted.symm
      hone rfl) (hsent hkind fun _ h => by cases h)
  | existingInline hkind hw₁ hknown hw₂ hpdf hinput hrec hw hanswer =>
    rw [hkind] at hpool hd
    obtain rfl := Option.some.inj hd
    refine iff_of_true (handedOver_inline hdelivered (hdirect hpool) hstarted.symm ?_
      (hanswer.warns hasync)) (hsent hkind fun _ h => by cases h)
    rw [hjobs ((Discipline.Passes.wait hw₁).trans (hw₂.trans hw)),List.filterMap_append,
      List.filterMap_append,setting_jobs,hrec.jobs (setting_jobs _ _)]
    rfl
  | notLoaded hkind hw₁ hknown hw₂ hpdf hw =>
    rw [hkind] at hpool hd
    obtain rfl := Option.some.inj hd
    refine iff_of_true (handedOver_inline hdelivered (hdirect hpool) hstarted.symm ?_
      fun a h => by cases h) (hsent hkind fun _ h => by cases h)
    rw [hjobs ((Discipline.Passes.wait hw₁).trans (hw₂.trans hw)),List.filterMap_append,
      List.filterMap_append,setting_jobs,setting_jobs]
    rfl
  | existingQueued hkind hw₁ hknown hqueue hw =>
    rw [hkind] at hpool hd
    obtain rfl := Option.some.inj hd
    have hone : (p.shared.trace i).filterMap Action.job? = [⟨_,_,_,_⟩] :=
      hjobs ((Discipline.Passes.wait hw₁).trans hw)
    refine iff_of_true (handedOver_queued hdelivered hended ⟨hpool,by rw [hqueue]; rfl⟩ hstarted.symm
      hone rfl) fun h => ?_
    have hok := h.2
    rw [hqueue] at hok
    cases hok
  | existingUnsent hkind hw₁ hknown hqueue hw =>
    have hfails : env.enqueue.head.isOk = false := by rw [hqueue]; rfl
    refine iff_of_false (fun h => ?_) (not_not_intro ⟨⟨_,hkind⟩,hfails⟩)
    have hnone := (h.inline fun h' => Bool.false_ne_true (hfails.symm.trans h'.2)).1
    rw [← hstarted] at hnone
    cases hnone

end HandOff

section Sample

/-- The queue takes the job, and the provider answers. -/
def sentEnv : Env := sampleEnv (.ok "job") (toolCallReplies "contract" plainContract)

def sentRun : Except Exc Answer × Local × World :=
  runAlone (sampleConfig true) 0 (.request (sampleExisting true)) sentEnv storedWorld

def sentJob : Job := ⟨(Uuid.old 0).str,some "contract",none,0⟩

/-- The worker's run of the job. -/
def workerRun : Except Exc Answer × Local × World :=
  runAlone (sampleConfig true) 1 (.worker sentJob) sentEnv (sentRun.2.2.withQueue [])

def sentPool : ServicePool :=
  ⟨[⟨⟨.request (sampleExisting true),sentEnv⟩,.done sentRun.1,sentRun.2.1⟩,
    ⟨⟨.worker sentJob,sentEnv⟩,.done workerRun.1,workerRun.2.1⟩],workerRun.2.2⟩

theorem sentPool_reachable : Pool.Reachable (Machine.handler (sampleConfig true).processor)
    (Starts (sampleConfig true)) storedWorld sentPool := by
  have hsent : Pool.Reachable (Machine.handler (sampleConfig true).processor)
      (Starts (sampleConfig true)) storedWorld _ :=
    Pool.Reachable.through .refl (@Starts.request _ _ (sampleExisting true) sentEnv rfl)
  exact hsent.through (@Starts.worker _ _ sentJob sentEnv [] [] rfl rfl)

theorem sentPool_handedOver :
    HandedOver (sampleConfig true) sentPool 0 sentEnv (.old 0) sentRun.1 sentRun.2.1 ↔
      ¬ Unsent (sampleConfig true) (sampleExisting true) sentEnv := by
  have hfound : sentRun.2.1.session.document.isSome := by decide
  exact handedOver_iff (i := 0) (d := .old 0) (r := sampleExisting true) rfl rfl sentPool_reachable rfl
    rfl rfl rfl hfound rfl

/-- The queue cannot be reached. -/
def unsentEnv : Env := sampleEnv (.error (.other "ConnectionError")) unreachable

def unsentRun : Except Exc Answer × Local × World :=
  runAlone (sampleConfig true) 0 (.request (sampleExisting true)) unsentEnv storedWorld

def unsentPool : ServicePool :=
  ⟨[⟨⟨.request (sampleExisting true),unsentEnv⟩,.done unsentRun.1,unsentRun.2.1⟩],unsentRun.2.2⟩

/-- The request raises, nobody processes its document, and no job waits. -/
theorem unsentPool_lost :
    Pool.Reachable (Machine.handler (sampleConfig true).processor) (Starts (sampleConfig true)) storedWorld
      unsentPool ∧
    unsentRun.1 = .error (.other "ConnectionError") ∧ unsentRun.2.1.session.document.isSome ∧
    unsentRun.2.1.started = [] ∧ jobsOf unsentPool 0 = [] ∧
    ¬ HandedOver (sampleConfig true) unsentPool 0 unsentEnv (.old 0) unsentRun.1 unsentRun.2.1 :=
  ⟨Pool.Reachable.through .refl (@Starts.request _ _ (sampleExisting true) unsentEnv rfl),
    by decide,by decide,by decide,by decide,fun h => absurd h.once (by decide)⟩

end Sample

end StructuredExtractor
