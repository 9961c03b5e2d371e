import StructuredExtractor.Service.HandOff

/-! # A response that says processing

An asynchronous request is answered with the status processing. An upload stores its
document with that status before its job is sent; a request for an existing document
stores nothing, so its answer is true only if the status was processing before.
-/
namespace StructuredExtractor
open Service

/-- The document that a change writes to. -/
def Change.writes? : Change → Option Uuid
  | .insertDocument row => some row.id
  | .updateStatus id _ => some id
  | _ => none

namespace Database

theorem documents_apply_other {db : Database} {ch : Change} {d : Uuid} (h : ch.writes? ≠ some d) :
    (db.apply ch).documents d = db.documents d := by
  cases ch with
  | insertDocument row => exact Function.update_of_ne (fun hd => h (congrArg some hd.symm)) _ _
  | updateStatus id status => exact Function.update_of_ne (fun hd => h (congrArg some hd.symm)) _ _
  | _ => rfl

theorem documents_applyAll_other {db : Database} {changes : List Change} {d : Uuid}
    (h : ∀ ch ∈ changes, ch.writes? ≠ some d) : (db.applyAll changes).documents d = db.documents d := by
  induction changes generalizing db with
  | nil => rfl
  | cons ch changes ih =>
    have hrest := @ih (db.apply ch) fun ch' h' => h ch' (List.mem_cons_of_mem _ h')
    exact hrest.trans (documents_apply_other (h ch List.mem_cons_self))

end Database

section Scripts
variable {c : Config} {i : ℕ} {k : Kind} {w : World} {d : Uuid}

/-- Every commit among the actions writes to no other document. -/
def WritesOnly (id : Uuid) (as : List Action) : Prop :=
  ∀ changes, .commit changes ∈ as → ∀ ch ∈ changes, ∀ d, ch.writes? = some d → d = id

theorem WritesOnly.append {id : Uuid} {as bs : List Action} (ha : WritesOnly id as)
    (hb : WritesOnly id bs) : WritesOnly id (as ++ bs) := fun changes h =>
  (List.mem_append.mp h).elim (ha changes) (hb changes)

theorem writesOnly_cons {id : Uuid} {a : Action} {as : List Action}
    (ha : ∀ changes, a = .commit changes → ∀ ch ∈ changes, ∀ d, ch.writes? = some d → d = id)
    (has : WritesOnly id as) : WritesOnly id (a :: as) := fun changes h =>
  (List.mem_cons.mp h).elim (fun h => ha changes h.symm) (has changes)

theorem writesOnly_nil (id : Uuid) : WritesOnly id [] := fun _ h => by cases h

theorem statusChange_document {known : Document} {status : DocumentStatus} {ch : Change}
    (h : ch ∈ statusChange known status) {d : Uuid} (hd : ch.writes? = some d) : d = known.id := by
  unfold statusChange at h
  split at h
  · cases h
  · obtain rfl := List.mem_singleton.mp h
    exact (Option.some.inj hd).symm

theorem setting_writesOnly (known : Document) (status : DocumentStatus) :
    WritesOnly known.id (setting known status) := by
  unfold setting
  split
  · exact writesOnly_nil _
  · refine writesOnly_cons (fun changes h ch hch d hd => ?_) (writesOnly_nil _)
    cases h
    obtain rfl := List.mem_singleton.mp hch
    exact (Option.some.inj hd).symm

theorem rows_document {rec : Recorded} {n : ℕ} {now : Stream' Time} {ms : ℤ} {id : Uuid} {ch : Change}
    (h : ch ∈ rec.rows i n now ms id) : ch.writes? = none := by
  obtain rfl | h := List.mem_cons.mp h
  · rfl
  · obtain ⟨row,-,rfl⟩ := List.mem_map.mp h
    rfl

theorem Recording.writesOnly {known : Document} {otherwise as : List Action}
    {o : Except Exc DocumentProcessingResult} (h : Recording c i known otherwise o as)
    (hother : WritesOnly known.id otherwise) : WritesOnly known.id as := by
  unfold Recording at h
  split at h
  · exact h ▸ hother
  · obtain ⟨-,n,now,ms,rfl⟩ := h
    refine writesOnly_cons (fun changes h ch hch d hd => ?_) (writesOnly_nil _)
    cases h
    obtain hch | hch := List.mem_append.mp hch
    · exact statusChange_document hch hd
    · rw [rows_document hch] at hd
      cases hd

/-- A run writes to its own document. -/
theorem Script.writesOnly {full : List Action} (h : Script c i k full) {id : Uuid}
    (hid : k.document i = some id) : WritesOnly id full := by
  have hupload : ∀ {row : Document} {content : Bytes} {as : List Action}, row.id = id →
      WritesOnly id as → WritesOnly id (.save row.filePath content :: .commit [.insertDocument row] :: as) := by
    intro row content as hrow has
    refine writesOnly_cons (fun _ h => by cases h) (writesOnly_cons (fun changes h ch hch d hd => ?_) has)
    cases h
    obtain rfl := List.mem_singleton.mp hch
    exact (Option.some.inj hd).symm.trans hrow
  cases h with
  | uploadInline hrow hknown htail =>
    obtain rfl := Option.some.inj hid
    refine hupload hrow (WritesOnly.append ?_ ?_)
    · exact hrow ▸ hknown ▸ setting_writesOnly _ _
    · exact hrow ▸ hknown ▸ htail.writesOnly (writesOnly_nil _)
  | uploadFallback hrow hknown hstatus htail =>
    obtain rfl := Option.some.inj hid
    exact hupload hrow (hrow ▸ hknown ▸ htail.writesOnly (writesOnly_nil _))
  | uploadQueued hrow =>
    obtain rfl := Option.some.inj hid
    exact hupload hrow (writesOnly_cons (fun _ h => by cases h) (writesOnly_nil _))
  | existingInline htail =>
    obtain rfl := Option.some.inj hid
    exact (setting_writesOnly _ _).append (htail.writesOnly (setting_writesOnly _ _))
  | existingQueued => exact writesOnly_cons (fun _ h => by cases h) (writesOnly_nil _)

/-- A run that is about something else leaves the document's status. -/
theorem May.status_other {a : Action} (h : May c i k w a) (hd : k.document i ≠ some d) :
    (w.act i a).db.status? d = w.db.status? d := by
  cases a with
  | commit changes =>
    obtain ⟨full,hscript,hpre⟩ := h.script
    have hmem : .commit changes ∈ full :=
      hpre.subset (List.mem_append_right _ (List.mem_singleton_self _))
    refine congrArg (Option.map Document.status) (Database.documents_applyAll_other fun ch hch hdoc => ?_)
    cases hid : k.document i with
    | none => cases hscript <;> cases hid
    | some id => exact hd (hid.trans (congrArg some (hscript.writesOnly hid changes hmem ch hch d hdoc).symm))
  | _ => rfl

theorem Enqueues.document {job : Job} {full : List Action} (h : Enqueues i job k full) :
    k.document i = some job.documentId.uuid := by
  cases h with
  | upload hid hstatus hdoc => rw [hdoc,hid]; rfl
  | existing hdoc => rw [hdoc]; rfl

/-- A run sends its job last. -/
theorem Enqueues.last {job job' : Job} {full : List Action} (h : Enqueues i job k full) :
    .enqueue job' ∉ full.dropLast := by
  cases h with
  | upload => simp
  | existing => simp

theorem May.not_sent {a : Action} (h : May c i k w a) (job : Job) : .enqueue job ∉ w.trace i := by
  intro hsent
  obtain ⟨full,hscript,hpre⟩ := h.script
  obtain ⟨-,henqueues⟩ := hscript.enqueues (hpre.subset (List.mem_append_left _ hsent))
  have hlen : (w.trace i).length ≤ full.dropLast.length := by
    have hfull := hpre.length_le
    rw [List.length_append,List.length_singleton] at hfull
    rw [List.length_dropLast]
    exact Nat.le_sub_one_of_lt hfull
  have hbefore : w.trace i <+: full.dropLast :=
    List.prefix_of_prefix_length_le ((List.prefix_append _ _).trans hpre) full.dropLast_prefix hlen
  exact henqueues.last (hbefore.subset hsent)

/-- What an upload did before it sends its job. -/
theorem Enqueues.before {a : Action} {as : List Action} {job : Job}
    (h : Enqueues i job k (as ++ [a] ++ [.enqueue job])) :
    ∃ row, a = .commit [.insertDocument row] ∧ k.document i = some row.id ∧ row.status = .processing := by
  generalize hfull : as ++ [a] ++ [.enqueue job] = full at h
  have hbefore : as ++ [a] = full.dropLast := by rw [← hfull,List.dropLast_concat]
  cases h with
  | @upload content row hid hstatus hdoc =>
    have hsplit : as ++ [a] = [.save row.filePath content] ++ [.commit [.insertDocument row]] := hbefore
    exact ⟨row,List.singleton_inj.mp (List.append_inj' hsplit rfl).2,by rw [hid]; rfl,hstatus⟩
  | existing => simp at hbefore

end Scripts

section Stages
variable (c : Config) (i : ℕ) (d : Uuid)

/-- The run is about the document. -/
def About (k : ℕ) (label : Label) : Prop := (label.source.kind c).document k = some d

def labelOf (p : ServicePool) (k : ℕ) : Option Label := p.threads[k]?.map Thread.label

/-- The jobs for the document. -/
def waiting (queue : List Job) : List Job := queue.filter fun job => job.documentId.uuid = d

/-- Run `k` came in after run `i`, and is about the document. -/
def Later (labels : ℕ → Option Label) (k : ℕ) : Prop :=
  i < k ∧ ∃ label, labels k = some label ∧ About c d k label

/-- The run has committed more than the status processing. -/
def HasResult (as : List Action) : Prop :=
  ∃ changes, .commit changes ∈ as ∧ changes ≠ [.updateStatus d .processing]

/-- The document is in processing. -/
def InProcessing (w : World) : Prop := w.db.status? d = some .processing

instance (w : World) : Decidable (InProcessing d w) := inferInstanceAs (Decidable (_ = _))

/-- Where run `i` and its job are: the job is not sent yet, it waits, or a worker took
it. Until the worker has a result, the document is in processing once the job is sent. -/
inductive Stage (labels : ℕ → Option Label) (w : World) : Prop
  | unsent (hsent : ∀ job, .enqueue job ∉ w.trace i) (hwaiting : waiting d w.queue = [])
      (hlater : ∀ k, ¬ Later c i d labels k)
      (hready : ∀ label job, labels i = some label →
        Enqueues i job (label.source.kind c) (w.trace i ++ [.enqueue job]) → InProcessing d w)
  | queued {job : Job} (hsent : .enqueue job ∈ w.trace i) (hwaiting : waiting d w.queue = [job])
      (hlater : ∀ k, ¬ Later c i d labels k) (hstatus : InProcessing d w)
  | taken {job : Job} {k : ℕ} (hsent : .enqueue job ∈ w.trace i) (hwaiting : waiting d w.queue = [])
      (hlater : ∀ k', Later c i d labels k' ↔ k' = k)
      (hstatus : ¬ HasResult d (w.trace k) → InProcessing d w)

/-- Run `i` is the only request about the document since it came in. -/
structure OnlyRequest (p : ServicePool) : Prop where
  first : ∀ label, labelOf p i = some label → About c d i label
  earlier : ∀ k t, k < i → p.threads[k]? = some t → About c d k t.label → ¬ Unfinished t
  later : ∀ k label, i < k → labelOf p k = some label → About c d k label →
    ∃ job, label.source = .worker job

/-- Until run `i` on the document comes in, anything may happen; then all other runs on
the document have ended and no job waits for it, and later runs on it are workers'. -/
structure Undisturbed (p : ServicePool) (t : ServiceThread) (g : World) : Prop where
  starts : Starts c p t g
  first : p.threads.length = i → About c d i t.label ∧ waiting d p.shared.queue = [] ∧
    ∀ k u, p.threads[k]? = some u → About c d k u.label → ¬ Unfinished u
  later : i < p.threads.length → About c d p.threads.length t.label →
    ∃ job, t.label.source = .worker job

/-- If run `i` is about an existing document, that is in processing when it comes in. -/
def TrueBefore (p : ServicePool) (t : ServiceThread) : Prop :=
  p.threads.length = i → t.label.source.kind c = .existingQueued d → InProcessing d p.shared

end Stages

section Steps
variable {c : Config} {i k : ℕ} {d : Uuid} {labels : ℕ → Option Label} {label : Label} {w : World}
variable {a : Action} {job : Job}

theorem HasResult.mono {as : List Action} (h : HasResult d as) : HasResult d (as ++ [a]) := by
  obtain ⟨changes,hmem,hne⟩ := h
  exact ⟨changes,List.mem_append_left _ hmem,hne⟩

theorem waiting_enqueue (w : World) (i : ℕ) (job : Job) :
    waiting d (w.act i (.enqueue job)).queue =
      waiting d w.queue ++ if job.documentId.uuid = d then [job] else [] := by
  show waiting d (w.queue ++ [job]) = _
  unfold waiting
  rw [List.filter_append]
  by_cases h : job.documentId.uuid = d <;> simp [h]

/-- What a run about something else does stays out of the document's way. -/
theorem May.waiting_other (h : May c k (label.source.kind c) w a) (hd : ¬ About c d k label) :
    waiting d (w.act k a).queue = waiting d w.queue := by
  cases a with
  | enqueue job =>
    have hjob : job.documentId.uuid ≠ d := fun hjob => hd (hjob ▸ h.enqueues.2.document)
    rw [waiting_enqueue,if_neg hjob,List.append_nil]
  | _ => rfl

/-- What leaves the document, its jobs and its runs alone leaves the stage. -/
theorem Stage.frame {labels' : ℕ → Option Label} {w' : World} (h : Stage c i d labels w)
    (hlabel : labels' i = labels i) (hlater : ∀ k, Later c i d labels' k ↔ Later c i d labels k)
    (htrace : w'.trace i = w.trace i) (htraces : ∀ k, Later c i d labels k → w'.trace k = w.trace k)
    (hwait : waiting d w'.queue = waiting d w.queue) (hstatus : InProcessing d w → InProcessing d w') :
    Stage c i d labels' w' := by
  have hnone (hnone : ∀ k, ¬ Later c i d labels k) (k : ℕ) : ¬ Later c i d labels' k :=
    fun h => hnone k ((hlater k).mp h)
  cases h with
  | unsent hsent hwaiting hlater' hready =>
    exact .unsent (htrace ▸ hsent) (hwait.trans hwaiting) (hnone hlater') fun label job hl he =>
      hstatus (hready label job (hlabel ▸ hl) (htrace ▸ he))
  | queued hsent hwaiting hlater' hstatus' =>
    exact .queued (htrace ▸ hsent) (hwait.trans hwaiting) (hnone hlater') (hstatus hstatus')
  | taken hsent hwaiting hlater' hstatus' =>
    exact .taken (htrace ▸ hsent) (hwait.trans hwaiting) (fun k => (hlater k).trans (hlater' k))
      fun hres => hstatus (hstatus' (htraces _ ((hlater' _).mpr rfl) ▸ hres))

theorem Stage.act_other (h : Stage c i d labels w) (hk : labels k = some label) (hi : k ≠ i)
    (hd : ¬ About c d k label) (hmay : May c k (label.source.kind c) w a) :
    Stage c i d labels (w.act k a) := by
  refine h.frame rfl (fun _ => Iff.rfl) (w.trace_act_other hi a) (fun j hj => w.trace_act_other ?_ a)
    (hmay.waiting_other hd) (hmay.status_other hd).trans
  rintro rfl
  obtain ⟨-,label',hk',hd'⟩ := hj
  exact hd (Option.some.inj (hk.symm.trans hk') ▸ hd')

theorem inProcessing_inserted {row : Document} (hid : row.id = d) (hstatus : row.status = .processing) :
    InProcessing d (w.act i (.commit [.insertDocument row])) := by
  subst hid
  show (Function.update w.db.documents row.id (some row) row.id).map Document.status = some .processing
  rw [Function.update_self,Option.map_some,hstatus]

theorem inProcessing_updated (h : InProcessing d w) :
    InProcessing d (w.act k (.commit [.updateStatus d .processing])) := by
  obtain ⟨row,hrow,-⟩ := Option.map_eq_some_iff.mp h
  show (Function.update w.db.documents d ((w.db.documents d).map _) d).map Document.status = some .processing
  rw [Function.update_self,hrow]
  rfl

/-- Run `i` sends its job only when its document is in processing. -/
theorem Stage.act_self (h : Stage c i d labels w) (hi : labels i = some label) (hd : About c d i label)
    (hmay : May c i (label.source.kind c) w a) : Stage c i d labels (w.act i a) := by
  cases h with
  | unsent hsent hwaiting hlater hready =>
    cases hjob : a.job? with
    | some job =>
      obtain rfl : a = .enqueue job := by
        cases a with
        | enqueue job' => rw [Option.some.inj hjob]
        | _ => cases hjob
      obtain ⟨-,henqueues⟩ := hmay.enqueues
      have hdoc : job.documentId.uuid = d := Option.some.inj (henqueues.document.symm.trans hd)
      have hmem : .enqueue job ∈ (w.act i (.enqueue job)).trace i := by
        rw [World.trace_act_self]
        exact List.mem_append_right _ (List.mem_singleton_self _)
      refine .queued hmem ?_ hlater (hready label job hi henqueues)
      rw [waiting_enqueue,if_pos hdoc,hwaiting,List.nil_append]
    | none =>
      refine .unsent (fun job hmem => ?_) ?_ hlater fun label' job hl he => ?_
      · rw [World.trace_act_self,List.mem_append,List.mem_singleton] at hmem
        obtain hmem | rfl := hmem
        · exact hsent job hmem
        · cases hjob
      · rw [queue_act hjob,hwaiting]
      · rw [World.trace_act_self] at he
        obtain ⟨row,rfl,hrow,hstatus⟩ := he.before
        obtain rfl := Option.some.inj (hi.symm.trans hl)
        exact inProcessing_inserted (Option.some.inj (hrow.symm.trans hd)) hstatus
  | queued hsent => exact absurd hsent (hmay.not_sent _)
  | taken hsent => exact absurd hsent (hmay.not_sent _)

/-- Until its result, the worker commits nothing but the status processing. -/
theorem Stage.act_worker (h : Stage c i d labels w) (hk : Later c i d labels k)
    (hmay : May c k (.existingInline d) w a) : Stage c i d labels (w.act k a) := by
  cases h with
  | unsent hsent hwaiting hlater => exact absurd hk (hlater k)
  | queued hsent hwaiting hlater => exact absurd hk (hlater k)
  | taken hsent hwaiting hlater hstatus =>
    obtain rfl := (hlater k).mp hk
    have hjob : a.job? = none := by
      cases a with
      | enqueue job => cases hmay.enqueues.2
      | _ => rfl
    refine .taken (w.trace_act_other hk.1.ne' a ▸ hsent) ((congrArg (waiting d) (queue_act hjob)).trans hwaiting)
      hlater fun hres => ?_
    rw [World.trace_act_self] at hres
    have hbefore : InProcessing d w := hstatus fun h => hres h.mono
    cases a with
    | commit changes =>
      by_cases hchanges : changes = [.updateStatus d .processing]
      · exact hchanges ▸ inProcessing_updated hbefore
      · exact absurd ⟨changes,List.mem_append_right _ (List.mem_singleton_self _),hchanges⟩ hres
    | _ => exact hbefore

end Steps

section Pools
variable {c : Config} {i k : ℕ} {d : Uuid} {p : ServicePool} {t t' : ServiceThread} {w g : World}

theorem labelOf_set (ht : p.threads[k]? = some t) (hlabel : t'.label = t.label) (w : World) :
    labelOf ⟨p.threads.set k t',w⟩ = labelOf p := by
  funext j
  by_cases hkj : k = j
  · subst hkj
    have hlen : k < p.threads.length := (List.getElem?_eq_some_iff.mp ht).1
    simp only [labelOf,List.getElem?_set_self hlen,ht,Option.map_some,hlabel]
  · simp only [labelOf,List.getElem?_set_ne hkj]

theorem labelOf_concat (p : ServicePool) (t : ServiceThread) (g : World) (j : ℕ) :
    labelOf ⟨p.threads ++ [t],g⟩ j = if j = p.threads.length then some t.label else labelOf p j := by
  by_cases hj : j = p.threads.length
  · subst hj
    simp [labelOf]
  · rw [if_neg hj]
    rcases Nat.lt_or_gt_of_ne hj with hlt | hgt
    · simp only [labelOf,List.getElem?_append_left hlt]
    · have hout : p.threads[j]? = none := List.getElem?_eq_none (Nat.le_of_lt hgt)
      have hout' : (p.threads ++ [t])[j]? = none := List.getElem?_eq_none (by
        rw [List.length_append,List.length_singleton]
        exact hgt)
      simp only [labelOf,hout,hout']

theorem OnlyRequest.set (h : OnlyRequest c i d p) (ht : p.threads[k]? = some t) (hrun : Unfinished t)
    (hlabel : t'.label = t.label) (w : World) : OnlyRequest c i d ⟨p.threads.set k t',w⟩ := by
  have hlabels := labelOf_set ht hlabel w
  refine ⟨hlabels ▸ h.first,fun j u hj hu habout => ?_,hlabels ▸ h.later⟩
  by_cases hkj : k = j
  · subst hkj
    rw [List.getElem?_set_self (List.getElem?_eq_some_iff.mp ht).1] at hu
    obtain rfl := Option.some.inj hu
    exact absurd hrun (h.earlier k t hj ht (hlabel ▸ habout))
  · exact h.earlier j u hj (by rwa [List.getElem?_set_ne hkj] at hu) habout

theorem Stage.act {a : Action} (h : Stage c i d (labelOf p) p.shared) (honly : OnlyRequest c i d p)
    (ht : p.threads[k]? = some t) (hrun : Unfinished t)
    (hmay : May c k (t.label.source.kind c) p.shared a) :
    Stage c i d (labelOf p) (p.shared.act k a) := by
  have hlabel : labelOf p k = some t.label := by simp only [labelOf,ht,Option.map_some]
  by_cases habout : About c d k t.label
  · rcases Nat.lt_trichotomy k i with hlt | rfl | hgt
    · exact absurd hrun (honly.earlier k t hlt ht habout)
    · exact h.act_self hlabel habout hmay
    · obtain ⟨job,hsource⟩ := honly.later k t.label hgt hlabel habout
      have hkind : t.label.source.kind c = .existingInline d := by
        unfold About at habout
        rw [hsource] at habout ⊢
        exact congrArg Kind.existingInline (Option.some.inj habout)
      exact h.act_worker ⟨hgt,_,hlabel,habout⟩ (hkind ▸ hmay)
  · refine h.act_other hlabel ?_ habout hmay
    rintro rfl
    exact habout (honly.first _ hlabel)

/-- Run `i` comes in, and nothing is sent yet. -/
theorem Stage.first (hp : Numbered p) (ht : Undisturbed c i d p t g) (hbefore : TrueBefore c i d p t)
    (hi : p.threads.length = i) : Stage c i d (labelOf ⟨p.threads ++ [t],g⟩) g := by
  obtain ⟨habout,hwaiting,-⟩ := ht.first hi
  have htrace : g.trace i = [] := hi ▸ ht.starts.trace hp
  have hdb : g.db = p.shared.db := by cases ht.starts <;> rfl
  have hqueue : waiting d g.queue = [] := by
    cases ht.starts with
    | request => exact hwaiting
    | @worker job env before after hdb hqueue =>
      show waiting d (before ++ after) = []
      rw [hqueue] at hwaiting
      simp only [waiting,List.filter_append,List.append_eq_nil_iff] at hwaiting ⊢
      refine ⟨hwaiting.1,?_⟩
      exact List.filter_eq_nil_iff.mpr fun job hjob =>
        List.filter_eq_nil_iff.mp hwaiting.2 job (List.mem_cons_of_mem _ hjob)
  refine .unsent (fun job hmem => by simp [htrace] at hmem) hqueue (fun k hk => ?_) fun label job hl he => ?_
  · obtain ⟨hgt,label,hl,-⟩ := hk
    rw [labelOf_concat,if_neg (hi ▸ hgt.ne')] at hl
    have hout : p.threads[k]? = none := List.getElem?_eq_none (hi ▸ Nat.le_of_lt hgt)
    simp [labelOf,hout] at hl
  · rw [labelOf_concat,if_pos hi.symm] at hl
    obtain rfl := Option.some.inj hl
    rw [htrace,List.nil_append] at he
    have hkind : t.label.source.kind c = .existingQueued d := by
      unfold About at habout
      generalize t.label.source.kind c = kind at he habout
      cases he with
      | existing => exact congrArg Kind.existingQueued (Option.some.inj habout)
    exact (congrArg (Database.status? · d) hdb).trans (hbefore hi hkind)

theorem later_concat (hi : i < p.threads.length) :
    Later c i d (labelOf ⟨p.threads ++ [t],g⟩) k ↔
      k = p.threads.length ∧ About c d k t.label ∨ Later c i d (labelOf p) k := by
  unfold Later
  rw [labelOf_concat]
  by_cases hk : k = p.threads.length
  · subst hk
    simp [hi,labelOf]
  · simp [hk]

/-- A run that is about something else comes in. -/
theorem Stage.start_other (h : Stage c i d (labelOf p) p.shared) (ht : Starts c p t g)
    (hi : i < p.threads.length) (hd : ¬ About c d p.threads.length t.label) :
    Stage c i d (labelOf ⟨p.threads ++ [t],g⟩) g := by
  have hlabel : labelOf ⟨p.threads ++ [t],g⟩ i = labelOf p i := by rw [labelOf_concat,if_neg hi.ne]
  have hlater (k : ℕ) : Later c i d (labelOf ⟨p.threads ++ [t],g⟩) k ↔ Later c i d (labelOf p) k := by
    rw [later_concat hi,or_iff_right]
    rintro ⟨rfl,habout⟩
    exact hd habout
  cases ht with
  | request => exact h.frame hlabel hlater rfl (fun _ _ => rfl) rfl id
  | @worker job env before after hdb hqueue =>
    refine h.frame hlabel hlater rfl (fun _ _ => rfl) ?_ id
    have hjob : job.documentId.uuid ≠ d := fun hjob => hd (congrArg some hjob)
    show waiting d (before ++ after) = waiting d p.shared.queue
    simp [hqueue,waiting,hjob]

/-- The worker takes the job. -/
theorem Stage.start_worker {job : Job} {env : Env} {before after : List Job}
    (h : Stage c i d (labelOf p) p.shared) (hqueue : p.shared.queue = before ++ job :: after)
    (hi : i < p.threads.length) (hd : job.documentId.uuid = d) :
    Stage c i d (labelOf ⟨p.threads ++ [startThread c p.threads.length (.worker job) env],
      p.shared.withQueue (before ++ after)⟩) (p.shared.withQueue (before ++ after)) := by
  have hmem : job ∈ waiting d p.shared.queue := by
    refine List.mem_filter.mpr ⟨?_,decide_eq_true hd⟩
    exact hqueue ▸ List.mem_append_right _ List.mem_cons_self
  cases h with
  | unsent hsent hwaiting => simp [hwaiting] at hmem
  | taken hsent hwaiting => simp [hwaiting] at hmem
  | @queued job' hsent hwaiting hlater hstatus =>
    have hrest : waiting d (before ++ after) = [] := by
      have hlen := congrArg List.length hwaiting
      simp only [waiting,hqueue,List.filter_append,List.filter_cons,hd,decide_true,if_true,
        List.length_append,List.length_cons,List.length_nil] at hlen
      refine List.eq_nil_of_length_eq_zero ?_
      rw [waiting,List.filter_append,List.length_append]
      omega
    refine .taken hsent hrest (k := p.threads.length) (fun k => ?_) fun _ => hstatus
    rw [later_concat hi,or_iff_left (hlater k),and_iff_left_iff_imp]
    exact fun _ => congrArg some hd

theorem OnlyRequest.start (h : i < p.threads.length → OnlyRequest c i d p)
    (ht : Undisturbed c i d p t g) (hi : i < p.threads.length + 1) :
    OnlyRequest c i d ⟨p.threads ++ [t],g⟩ := by
  rcases Nat.lt_or_ge i p.threads.length with hlt | hge
  · obtain ⟨hfirst,hearlier,hlater⟩ := h hlt
    refine ⟨fun label hl => ?_,fun k u hk hu => ?_,fun k label hk hl => ?_⟩
    · exact hfirst label (by rwa [labelOf_concat,if_neg hlt.ne] at hl)
    · exact hearlier k u hk (by rwa [List.getElem?_append_left (hk.trans hlt)] at hu)
    · rw [labelOf_concat] at hl
      split at hl
      case isTrue hn =>
        obtain rfl := Option.some.inj hl
        exact hn ▸ ht.later hlt
      case isFalse hn => exact hlater k label hk hl
  · obtain rfl : p.threads.length = i := Nat.le_antisymm hge (Nat.lt_succ_iff.mp hi)
    obtain ⟨habout,-,hended⟩ := ht.first rfl
    refine ⟨fun label hl => ?_,fun k u hk hu => ?_,fun k label hk hl => ?_⟩
    · rw [labelOf_concat,if_pos rfl] at hl
      exact Option.some.inj hl ▸ habout
    · exact hended k u (by rwa [List.getElem?_append_left hk] at hu)
    · rw [labelOf_concat,if_neg hk.ne'] at hl
      have hout : p.threads[k]? = none := List.getElem?_eq_none (Nat.le_of_lt hk)
      simp [labelOf,hout] at hl

theorem Stage.start (hp : Numbered p) (h : i < p.threads.length → Stage c i d (labelOf p) p.shared)
    (ht : Undisturbed c i d p t g) (hbefore : TrueBefore c i d p t) (hi : i < p.threads.length + 1) :
    Stage c i d (labelOf ⟨p.threads ++ [t],g⟩) g := by
  rcases Nat.lt_or_ge i p.threads.length with hlt | hge
  · by_cases habout : About c d p.threads.length t.label
    · obtain ⟨job,hsource⟩ := ht.later hlt habout
      have hstarts := ht.starts
      cases hstarts with
      | request => cases hsource
      | worker hdb hqueue => exact (h hlt).start_worker hqueue hlt (Option.some.inj habout)
    · exact (h hlt).start_other ht.starts hlt habout
  · exact Stage.first hp ht hbefore (Nat.le_antisymm hge (Nat.lt_succ_iff.mp hi))

theorem Answered.not_async {asyncMode : Bool} {o : Except Exc DocumentProcessingResult} {id : Uuid}
    {jobId : String} (h : Answered asyncMode o (.ok (.async id jobId))) : False := by
  obtain ⟨r,hr⟩ := h.response _ rfl
  cases hr

/-- A request that is answered with a job id sent its job. -/
theorem Ends.enqueued {label : Label} {w' : World} {id : Uuid} {jobId : String} {trail : Trail}
    (h : Ends c (interleaved c) i w label.env label.source (.ok (.async id jobId)) trail w')
    (hfits : Fits c i (interleaved c) label) : ∃ job, .enqueue job ∈ w'.trace i := by
  have hsent : ∀ {w₁ : World} {as : List Action} {job : Job}, Went (interleaved c) i w₁ as w' →
      .enqueue job ∈ as → .enqueue job ∈ w'.trace i := fun hw hmem =>
    (Went.trace hfits hw).symm ▸ List.mem_append_right _ hmem
  generalize label.source = source at h
  cases h with
  | uploadInline _ _ _ _ _ _ _ hanswer => exact hanswer.not_async.elim
  | uploadFallback _ _ _ _ _ _ _ _ hanswer => exact hanswer.not_async.elim
  | existingInline _ _ _ _ _ _ _ _ hanswer => exact hanswer.not_async.elim
  | uploadQueued _ _ _ _ _ hw => exact ⟨_,hsent hw (List.mem_singleton_self _)⟩
  | existingQueued _ _ _ _ hw => exact ⟨_,hsent hw (List.mem_singleton_self _)⟩

/-- **Processing until the result.** In every interleaving in which an asynchronous
request is the only one about its document, and is an upload or found the document in
processing, the document is in processing from the answer until the worker's result. -/
theorem processing_until_result {w₀ : World} {jobId : String} (hlog : w₀.log = [])
    (hp : Pool.Reachable (Machine.handler c.processor)
      (fun p t g => Undisturbed c i d p t g ∧ TrueBefore c i d p t) w₀ p)
    (ht : p.threads[i]? = some t) (hdone : t.prog = .done (.ok (.async d jobId)))
    (hbefore : ∀ k, Later c i d (labelOf p) k → ¬ HasResult d (p.shared.trace k)) :
    p.shared.db.status? d = some .processing := by
  have hinduction := pool_induction (G := fun _ _ => True)
    (I := fun p => i < p.threads.length → OnlyRequest c i d p ∧ Stage c i d (labelOf p) p.shared)
    (fun h => h.1.starts) hlog (fun h => absurd h (Nat.not_lt_zero i)) ?_ ?_ ?_ hp
  · obtain ⟨-,hI,hended⟩ := hinduction
    obtain ⟨-,hstage⟩ := hI (List.getElem?_eq_some_iff.mp ht).1
    obtain ⟨w,htrace,-,hends⟩ := hended i t _ ht hdone
    have hsent := (hends.enqueued (interleaved_fits c i t.label)).choose_spec
    cases hstage with
    | unsent hnone => exact absurd hsent (hnone _)
    | queued _ _ _ hstatus => exact hstatus
    | @taken job k _ _ hlater hstatus => exact hstatus (hbefore k ((hlater k).mpr rfl))
  · intro p k u u' h hu hrun hlabel hi
    rw [List.length_set] at hi
    rw [labelOf_set hu hlabel]
    exact ⟨(h hi).1.set hu hrun hlabel _,(h hi).2⟩
  · intro p k u u' a _ h hu hrun hlabel hmay hi
    rw [List.length_set] at hi
    rw [labelOf_set hu hlabel]
    exact ⟨(h hi).1.set hu hrun hlabel _,(h hi).2.act (h hi).1 hu hrun hmay⟩
  · intro p u g hn h hu
    refine ⟨trivial,fun hi => ?_⟩
    rw [List.length_append,List.length_singleton] at hi
    exact ⟨OnlyRequest.start (fun hlt => (h hlt).1) hu.1 hi,
      Stage.start hn (fun hlt => (h hlt).2) hu.1 hu.2 hi⟩

end Pools

section Sample

theorem sample_undisturbed {w : World} (hqueue : w.queue = []) :
    Undisturbed (sampleConfig true) 0 (.old 0) ⟨[],w⟩
      (startThread (sampleConfig true) 0 (.request (sampleExisting true)) sentEnv) w where
  starts := .request rfl
  first _ := ⟨rfl,by rw [hqueue]; rfl,fun k u hu => by cases hu⟩
  later h := absurd h (Nat.lt_irrefl 0)

/-- The document is in processing already. -/
def waitedWorld : World := { storedWorld with
  db := Database.empty.insertDocument (sampleDocument.with .processing) }

def waitedRun : Except Exc Answer × Local × World :=
  runAlone (sampleConfig true) 0 (.request (sampleExisting true)) sentEnv waitedWorld

/-- The request is answered and the worker has taken the job. -/
def waitedPool : ServicePool :=
  ⟨[⟨⟨.request (sampleExisting true),sentEnv⟩,.done waitedRun.1,waitedRun.2.1⟩,
    startThread (sampleConfig true) 1 (.worker sentJob) sentEnv],waitedRun.2.2.withQueue []⟩

theorem waitedPool_processing : waitedPool.shared.db.status? (.old 0) = some .processing := by
  have hanswered : Pool.Reachable (Machine.handler (sampleConfig true).processor)
      (fun p t g => Undisturbed (sampleConfig true) 0 (.old 0) p t g ∧
        TrueBefore (sampleConfig true) 0 (.old 0) p t) waitedWorld _ :=
    Pool.Reachable.through .refl ⟨sample_undisturbed rfl,fun _ _ => by decide⟩
  have hworker : Undisturbed (sampleConfig true) 0 (.old 0)
      ⟨[⟨⟨.request (sampleExisting true),sentEnv⟩,.done waitedRun.1,waitedRun.2.1⟩],waitedRun.2.2⟩
      (startThread (sampleConfig true) 1 (.worker sentJob) sentEnv) (waitedRun.2.2.withQueue []) := by
    refine ⟨@Starts.worker _ _ sentJob sentEnv [] [] rfl rfl,fun h => ?_,fun _ _ => ⟨_,rfl⟩⟩
    cases h
  have hpool := hanswered.tail (.start ⟨hworker,fun h => by cases h⟩)
  refine processing_until_result (i := 0) (d := .old 0) rfl hpool rfl rfl fun k hk => ?_
  have hone : k = 1 := by
    obtain ⟨hpos,label,hlabel,-⟩ := hk
    match k with
    | 1 => rfl
    | k + 2 => cases hlabel
  subst hone
  rintro ⟨changes,hmem,-⟩
  cases hmem

/-- The request is answered and its job waits, but the document is not in processing. -/
theorem sentRun_untrue :
    let p : ServicePool := ⟨[⟨⟨.request (sampleExisting true),sentEnv⟩,.done sentRun.1,sentRun.2.1⟩],
      sentRun.2.2⟩
    Pool.Reachable (Machine.handler (sampleConfig true).processor)
      (Undisturbed (sampleConfig true) 0 (.old 0)) storedWorld p ∧
    sentRun.1 = .ok (.async (.old 0) "job") ∧
    (∀ k, ¬ Later (sampleConfig true) 0 (.old 0) (labelOf p) k) ∧
    p.shared.db.status? (.old 0) = some .uploaded := by
  refine ⟨Pool.Reachable.through .refl (sample_undisturbed rfl),by decide,?_,by decide⟩
  rintro k ⟨hpos,label,hlabel,-⟩
  match k with
  | k + 1 => cases hlabel

end Sample

end StructuredExtractor
