import StructuredExtractor.Service.FinalStatus
import StructuredExtractor.Service.Response

/-! # Runs on one document, side by side

Each run commits the status processing, if that is a change, and then its result. A
stale copy does no harm: the run's own copy says processing when it sets the final
status, so every result writes the status, and the result that is committed last stays.
-/
namespace StructuredExtractor
open Service

/-- The commit leaves the document with the status, whatever it had. -/
def Action.Sets (d : Uuid) (status : DocumentStatus) (a : Action) : Prop :=
  ∃ changes, a = .commit changes ∧ ∀ db : Database, (db.documents d).isSome →
    (db.applyAll changes).status? d = some status

/-- The status that a run implies by its answer and by what it processed. -/
def impliedStatus (r : Except Exc Answer)
    (processed : List (ProcessingInput × Except Exc DocumentProcessingResult)) : DocumentStatus :=
  if !r.isOk || processed.any fun q => match q.2 with
      | .ok result => result.pipeline.validation.status = .failed
      | .error _ => false
  then .failed else .completed

theorem exists_last {α : Type} {P : α → Prop} {xs : List α} (h : ∃ x ∈ xs, P x) :
    ∃ before x after, xs = before ++ x :: after ∧ P x ∧ ∀ y ∈ after, ¬ P y := by
  induction xs with
  | nil => simp at h
  | cons x xs ih =>
    by_cases hrest : ∃ y ∈ xs, P y
    · obtain ⟨before,y,after,rfl,hy,hafter⟩ := ih hrest
      exact ⟨x :: before,y,after,rfl,hy,hafter⟩
    · obtain ⟨y,hy,hPy⟩ := h
      obtain rfl | hy := List.mem_cons.mp hy
      · exact ⟨[],y,xs,rfl,hPy,fun z hz hPz => hrest ⟨z,hz,hPz⟩⟩
      · exact absurd ⟨y,hy,hPy⟩ hrest

section Writes
variable {c : Config} {i : ℕ} {d : Uuid} {known : Document} {as : List Action}
variable {o : Except Exc DocumentProcessingResult}

theorem status_updated (status : DocumentStatus) {db : Database} (h : (db.documents d).isSome) :
    (db.apply (.updateStatus d status)).status? d = some status := by
  obtain ⟨row,hrow⟩ := Option.isSome_iff_exists.mp h
  simp [Database.status?,Database.apply,Database.updateStatus,hrow]

theorem sets_update (d : Uuid) (status : DocumentStatus) :
    (Action.commit [.updateStatus d status]).Sets d status :=
  ⟨_,rfl,fun _ h => status_updated status h⟩

theorem setting_sets {status : DocumentStatus} {a : Action} (h : a ∈ setting known status) :
    a.Sets known.id status := by
  unfold setting at h
  split at h
  · cases h
  · rw [List.mem_singleton.mp h]
    exact sets_update known.id status

/-- A result that differs from the known status writes its own. -/
theorem changes_sets (rec : Recorded) (n : ℕ) (now : Stream' Time) (ms : ℤ) (hne : known.status ≠ rec.status) :
    (Action.commit (rec.changes i n now ms known)).Sets known.id rec.status := by
  refine ⟨_,rfl,fun db hdb => ?_⟩
  have hrows : ∀ db : Database, (db.applyAll (rec.rows i n now ms known.id)).status? known.id =
      db.status? known.id := fun db =>
    congrArg (Option.map Document.status) (Database.documents_applyAll_other fun ch hch => by
      rw [rows_document hch]; exact Option.some_ne_none _ ∘ Eq.symm)
  rw [Recorded.changes,Database.applyAll_append,hrows,statusChange,if_neg hne]
  exact status_updated rec.status hdb

/-- What a run on an existing document records at the end, from its copy in processing. -/
theorem Recording.sets (hrec : Recording c i known (setting known .failed) o as)
    (hstatus : known.status = .processing) :
    ∃ a, as = [a] ∧ a.Sets known.id (match recorded c o with
      | some rec => rec.status
      | none => .failed) ∧ a ≠ .commit [.updateStatus known.id .processing] := by
  unfold Recording at hrec
  cases hr : recorded c o with
  | none =>
    rw [hr] at hrec
    have hfailing : as = [.commit [.updateStatus known.id .failed]] := by
      rw [hrec,setting,if_neg (by simp [hstatus])]
    exact ⟨_,hfailing,sets_update known.id .failed,by simp⟩
  | some rec =>
    rw [hr] at hrec
    obtain ⟨-,n,now,ms,rfl⟩ := hrec
    have hne : known.status ≠ rec.status := by
      rcases recorded_status hr with h | h <;> simp [hstatus,h]
    refine ⟨_,rfl,changes_sets rec n now ms hne,fun h => ?_⟩
    have hlen := congrArg List.length (Action.commit.inj h)
    simp [Recorded.changes,Recorded.rows,statusChange,hne] at hlen

/-- The recorded status is the implied one. -/
theorem recorded_implied {r : Except Exc Answer} (input : ProcessingInput) (h : r.isOk = o.isOk) :
    impliedStatus r [(input,o)] = match recorded c o with
      | some rec => rec.status
      | none => .failed := by
  unfold impliedStatus
  rw [h]
  cases o with
  | ok result => simp [Except.isOk,Except.toBool,recorded,recordedSuccess,documentStatusFor]
  | error e => cases e <;> simp [Except.isOk,Except.toBool,recorded,recordedFailure]

/-- Every action of a run on an existing document sets its status. -/
theorem Script.sets {full : List Action} (h : Script c i (.existingInline d) full) :
    ∀ a ∈ full, ∃ status, a.Sets d status := by
  cases h with
  | @existingInline known tail o htail =>
    intro a ha
    obtain ha | ha := List.mem_append.mp ha
    · exact ⟨_,setting_sets ha⟩
    · obtain ⟨b,rfl,hb,-⟩ := htail.sets rfl
      obtain rfl := List.mem_singleton.mp ha
      exact ⟨_,hb⟩

/-- A run on a document that is there ends with the commit of its result. -/
theorem Ends.result {D : Discipline Label World} {label : Label} {w w' : World} {r : Except Exc Answer}
    {t : Trail} (h : Ends c D i w label.env label.source r t w') (hD : Fits c i D label)
    (htrace : w.trace i = []) (hkind : label.source.kind c = .existingInline d)
    (hdoc : (w.db.documents d).isSome) :
    ∃ before a, w'.trace i = before ++ [a] ∧ a.Sets d (impliedStatus r t.processed) ∧
      a ≠ .commit [.updateStatus d .processing] := by
  have hwent : ∀ {w₁ as}, Went D i w as w₁ → w₁.trace i = as := fun h => by
    rw [h.trace hD,htrace,List.nil_append]
  obtain ⟨source,env⟩ := label
  cases h with
  | invalid hkind' => cases hkind.symm.trans hkind'
  | notUploaded hcontent hfilename hid =>
    simp only [Source.kind,hcontent,hfilename,hid] at hkind
    split at hkind <;> cases hkind
  | notFound hkind' hw₁ hnone hw =>
    obtain hkind' | hkind' := hkind' <;> obtain hid := hkind.symm.trans hkind' <;> cases hid
    have hfound := hD.documents hw₁ hdoc
    rw [hnone] at hfound
    cases hfound
  | uploadInline hkind' => cases hkind.symm.trans hkind'
  | uploadFallback hkind' => cases hkind.symm.trans hkind'
  | uploadQueued hkind' => cases hkind.symm.trans hkind'
  | existingQueued hkind' => cases hkind.symm.trans hkind'
  | existingUnsent hkind' => cases hkind.symm.trans hkind'
  | @existingInline _ id _ known input w₁ _ _ as _ hkind' hw₁ hknown hw₂ hpdf hinput hrec hw hanswer =>
    obtain rfl := Kind.existingInline.inj (hkind.symm.trans hkind')
    obtain rfl := w₁.db.keyed hknown
    obtain ⟨a,rfl,ha,hne⟩ := hrec.sets rfl
    rw [recorded_implied input hanswer.ok]
    exact ⟨setting known .processing,a,hwent ((Discipline.Passes.wait hw₁).trans (hw₂.trans hw)),ha,hne⟩
  | @notLoaded _ id known w₁ _ _ e hkind' hw₁ hknown hw₂ hpdf hw =>
    obtain rfl := Kind.existingInline.inj (hkind.symm.trans hkind')
    obtain rfl := w₁.db.keyed hknown
    have hfailing : setting (known.with .processing) .failed = [.commit [.updateStatus known.id .failed]] := rfl
    rw [hfailing] at hw
    exact ⟨setting known .processing,_,hwent ((Discipline.Passes.wait hw₁).trans (hw₂.trans hw)),
      sets_update known.id .failed,by simp⟩

end Writes

section Pools
variable {c : Config} {d : Uuid}

/-- A run starts; if it is about the document, it processes it inline. -/
structure StartsInline (c : Config) (d : Uuid) (p : ServicePool) (t : ServiceThread) (g : World) : Prop where
  starts : Starts c p t g
  inline : About c d p.threads.length t.label → t.label.source.kind c = .existingInline d

/-- Run `i` is about the document. -/
def RunOn (c : Config) (d : Uuid) (labels : ℕ → Option Label) (i : ℕ) : Prop :=
  ∃ label, labels i = some label ∧ About c d i label

/-- The document is there, with the status that the last action of a run on it set. -/
structure LastSet (c : Config) (d : Uuid) (labels : ℕ → Option Label) (w : World) : Prop where
  document : (w.db.documents d).isSome
  inline : ∀ i label, labels i = some label → About c d i label → label.source.kind c = .existingInline d
  status : ∀ before i a after, w.log = before ++ (i,a) :: after → RunOn c d labels i →
    (∀ q ∈ after, ¬ RunOn c d labels q.1) → ∃ status, a.Sets d status ∧ w.db.status? d = some status

variable {p : ServicePool} {i : ℕ} {t t' : ServiceThread} {a : Action} {labels : ℕ → Option Label}
variable {label : Label} {w : World}

theorem LastSet.act (h : LastSet c d labels w) (hi : labels i = some label)
    (hmay : May c i (label.source.kind c) w a) : LastSet c d labels (w.act i a) := by
  refine ⟨World.documents_act h.document i a,h.inline,fun before j b after hlog hon hafter => ?_⟩
  rw [log_act] at hlog
  by_cases habout : About c d i label
  · -- The new action is the last one on the document.
    obtain rfl | ⟨after,last,rfl⟩ := after.eq_nil_or_concat'
    · obtain ⟨-,hlast⟩ := List.append_inj' hlog rfl
      obtain ⟨rfl,rfl⟩ := Prod.mk.inj (List.singleton_inj.mp hlast)
      obtain ⟨full,hscript,hpre⟩ := hmay.script
      rw [h.inline _ _ hi habout] at hscript
      have hmem : a ∈ full := hpre.subset (List.mem_append_right _ (List.mem_singleton_self a))
      obtain ⟨status,changes,rfl,hsets⟩ := hscript.sets a hmem
      exact ⟨status,⟨changes,rfl,hsets⟩,hsets w.db h.document⟩
    · rw [← List.cons_append,← List.append_assoc] at hlog
      obtain ⟨-,hlast⟩ := List.append_inj' hlog rfl
      obtain rfl := List.singleton_inj.mp hlast
      exact absurd ⟨label,hi,habout⟩ (hafter _ (List.mem_append_right _ (List.mem_singleton_self _)))
  · rw [hmay.status_other habout]
    obtain rfl | ⟨after,last,rfl⟩ := after.eq_nil_or_concat'
    · obtain ⟨-,hlast⟩ := List.append_inj' hlog rfl
      obtain ⟨rfl,-⟩ := Prod.mk.inj (List.singleton_inj.mp hlast)
      obtain ⟨label',hi',habout'⟩ := hon
      exact absurd (Option.some.inj (hi.symm.trans hi') ▸ habout') habout
    · rw [← List.cons_append,← List.append_assoc] at hlog
      obtain ⟨hlog,-⟩ := List.append_inj' hlog rfl
      exact h.status before j b after hlog hon fun q hq => hafter q (List.mem_append_left _ hq)

theorem LastSet.start {g : World} (h : LastSet c d (labelOf p) p.shared) (hp : Numbered p)
    (ht : StartsInline c d p t g) : LastSet c d (labelOf ⟨p.threads ++ [t],g⟩) g := by
  obtain ⟨hdb,hlog⟩ : g.db = p.shared.db ∧ g.log = p.shared.log := by
    cases ht.starts with
    | request => exact ⟨rfl,rfl⟩
    | worker => exact ⟨rfl,rfl⟩
  have hon : ∀ j < p.threads.length, RunOn c d (labelOf ⟨p.threads ++ [t],g⟩) j ↔ RunOn c d (labelOf p) j := by
    intro j hj
    unfold RunOn
    rw [labelOf_concat,if_neg hj.ne]
  refine ⟨hdb ▸ h.document,fun j label hj habout => ?_,fun before j a after hsplit hj hafter => ?_⟩
  · rw [labelOf_concat] at hj
    split at hj
    · next hlast =>
      obtain rfl := Option.some.inj hj
      exact ht.inline (hlast ▸ habout)
    · exact h.inline j label hj habout
  · rw [hlog] at hsplit
    have hold : ∀ q ∈ before ++ (j,a) :: after, q.1 < p.threads.length := hsplit ▸ hp
    rw [hdb]
    refine h.status before j a after hsplit ((hon j ?_).mp hj) fun q hq hq' => hafter q hq ((hon q.1 ?_).mpr hq')
    · exact hold _ (List.mem_append_right _ List.mem_cons_self)
    · exact hold _ (List.mem_append_right _ (List.mem_cons_of_mem _ hq))

variable {w₀ : World}

/-- It holds in every reachable pool, and there every finished run ended as told, on a
document that was there. -/
theorem lastSet_reachable (hlog : w₀.log = []) (hdoc : (w₀.db.documents d).isSome)
    (hp : Pool.Reachable (Machine.handler c.processor) (StartsInline c d) w₀ p) :
    LastSet c d (labelOf p) p.shared ∧ ∀ i t r, p.threads[i]? = some t → t.prog = .done r →
      Ended c (fun _ w => (w.db.documents d).isSome) i t.label r t.loc p.shared := by
  have hinit : LastSet c d (labelOf ⟨[],w₀⟩) w₀ := by
    refine ⟨hdoc,fun i label hi => ?_,fun before i a after hsplit => ?_⟩
    · cases hi
    · rw [hlog] at hsplit
      exact absurd hsplit.symm (by simp)
  refine (pool_induction (I := fun p => LastSet c d (labelOf p) p.shared) StartsInline.starts hlog hinit
    (fun h ht _ hlabel => ?_) (fun _ h ht _ hlabel hmay => ?_) (fun hp h ht => ⟨?_,h.start hp ht⟩) hp).2
  · rw [labelOf_set ht hlabel]
    exact h
  · rw [labelOf_set ht hlabel]
    exact h.act (by rw [labelOf,ht]; rfl) hmay
  · cases ht.starts <;> exact h.document

/-- Run `i` on the document ended, and no run on it has committed after its result. -/
structure RecordedLast (c : Config) (d : Uuid) (p : ServicePool) (i : ℕ) (t : ServiceThread)
    (r : Except Exc Answer) : Prop where
  thread : p.threads[i]? = some t
  about : About c d i t.label
  ended : t.prog = .done r
  last : ∃ before a after, p.shared.log = before ++ (i,a) :: after ∧ a ≠ .commit [.updateStatus d .processing] ∧
    ∀ q ∈ after, ¬ RunOn c d (labelOf p) q.1

/-- The trace of a run ends with what is last of it in the log. -/
theorem trace_last {before after : List (ℕ × Action)} (hsplit : w.log = before ++ (i,a) :: after)
    (hafter : ∀ q ∈ after, q.1 ≠ i) : ∃ as, w.trace i = as ++ [a] := by
  have hnone : (after.filterMap fun q => if q.1 = i then some q.2 else none) = [] :=
    List.filterMap_eq_nil_iff.mpr fun q hq => if_neg (hafter q hq)
  refine ⟨before.filterMap fun q => if q.1 = i then some q.2 else none,?_⟩
  rw [World.trace,hsplit,List.filterMap_append,List.filterMap_cons]
  simp [hnone]

/-- **The last result stays.** When all runs on a document that is there have ended,
whatever runs on other documents do, one of them recorded its result last, and the
document has the status which that run implies, completed or failed. -/
theorem status_of_last_result (hlog : w₀.log = []) (hdoc : (w₀.db.documents d).isSome)
    (hp : Pool.Reachable (Machine.handler c.processor) (StartsInline c d) w₀ p)
    (hended : ∀ i t, p.threads[i]? = some t → About c d i t.label → ∃ r, t.prog = .done r)
    (hsome : ∃ i t, p.threads[i]? = some t ∧ About c d i t.label) :
    (∃ i t r, RecordedLast c d p i t r) ∧ Terminal p.shared.db d ∧ ∀ i t r, RecordedLast c d p i t r →
      p.shared.db.status? d = some (impliedStatus r t.loc.processed) := by
  obtain ⟨hlast,hends⟩ := lastSet_reachable hlog hdoc hp
  have hlabel : ∀ {i t}, p.threads[i]? = some t → labelOf p i = some t.label := fun ht => by rw [labelOf,ht]; rfl
  have hresult : ∀ i t r, p.threads[i]? = some t → About c d i t.label → t.prog = .done r → ∃ as a,
      p.shared.trace i = as ++ [a] ∧ a.Sets d (impliedStatus r t.loc.processed) ∧
        a ≠ .commit [.updateStatus d .processing] := by
    intro i t r ht habout hr
    obtain ⟨w,htrace,hfound,hend⟩ := hends i t r ht hr
    exact hend.result (interleaved_fits c i t.label) htrace (hlast.inline i t.label (hlabel ht) habout) hfound
  have hexists : ∃ i t r, RecordedLast c d p i t r := by
    obtain ⟨k,u,hu,hk⟩ := hsome
    obtain ⟨r,hr⟩ := hended k u hu hk
    obtain ⟨as,b,htrace,-⟩ := hresult k u r hu hk hr
    have hb : (k,b) ∈ p.shared.log := mem_trace.mp (by rw [htrace]; simp)
    obtain ⟨before,⟨i,a⟩,after,hsplit,⟨label,hi,habout⟩,hafter⟩ :=
      exists_last (P := fun q => RunOn c d (labelOf p) q.1) ⟨_,hb,u.label,hlabel hu,hk⟩
    obtain ⟨t,ht,rfl⟩ := Option.map_eq_some_iff.mp hi
    obtain ⟨r,hr⟩ := hended i t ht habout
    obtain ⟨as,a',htrace,-,hne⟩ := hresult i t r ht habout hr
    obtain ⟨as',htrace'⟩ := trace_last hsplit fun q hq hqi => hafter q hq (hqi ▸ ⟨t.label,hi,habout⟩)
    obtain rfl := List.singleton_inj.mp (List.append_inj' (htrace.symm.trans htrace') rfl).2
    exact ⟨i,t,r,ht,habout,hr,before,a',after,hsplit,hne,hafter⟩
  have hstatus : ∀ i t r, RecordedLast c d p i t r →
      p.shared.db.status? d = some (impliedStatus r t.loc.processed) := by
    rintro i t r ⟨ht,habout,hr,before,a,after,hsplit,-,hafter⟩
    obtain ⟨as,a',htrace,hsets,-⟩ := hresult i t r ht habout hr
    have hi : RunOn c d (labelOf p) i := ⟨t.label,hlabel ht,habout⟩
    obtain ⟨as',htrace'⟩ := trace_last hsplit fun q hq hqi => hafter q hq (hqi ▸ hi)
    obtain rfl := List.singleton_inj.mp (List.append_inj' (htrace.symm.trans htrace') rfl).2
    obtain ⟨status,hsets',hstatus⟩ := hlast.status before i a' after hsplit hi hafter
    obtain ⟨changes,rfl,h⟩ := hsets
    obtain ⟨_,heq,h'⟩ := hsets'
    obtain rfl := Action.commit.inj heq
    rw [hstatus,← h' p.shared.db hlast.document,h p.shared.db hlast.document]
  refine ⟨hexists,?_,hstatus⟩
  obtain ⟨i,t,r,h⟩ := hexists
  unfold Terminal
  rw [hstatus i t r h]
  unfold impliedStatus
  split
  · exact .inr rfl
  · exact .inl rfl

end Pools

section Sample

/-- The extraction of the document, with the provider's replies. -/
def extractionThread (i : ℕ) (replies : Stream' (Except Exc Response)) : ServiceThread :=
  startThread (sampleConfig true) i (.request (sampleExisting false)) (sampleEnv (.ok "job") replies)

/-- One extraction of the document succeeds and the next one fails. -/
theorem failedLast_status : ∃ p : ServicePool,
    Pool.Reachable (Machine.handler (sampleConfig true).processor) (StartsInline (sampleConfig true) (.old 0))
      storedWorld p ∧ p.threads.length = 2 ∧ p.shared.db.status? (.old 0) = some .failed ∧
    Terminal p.shared.db (.old 0) := by
  have hfirst : Pool.Reachable (Machine.handler (sampleConfig true).processor)
      (StartsInline (sampleConfig true) (.old 0)) storedWorld _ :=
    .through .refl (t := extractionThread 0 (toolCallReplies "contract" plainContract))
      ⟨.request rfl,fun _ => rfl⟩
  have hboth := hfirst.through (t := extractionThread 1 unreachable) ⟨.request rfl,fun _ => rfl⟩
  refine ⟨_,hboth,rfl,by decide,(status_of_last_result rfl rfl hboth ?_ ⟨0,_,rfl,rfl⟩).2.1⟩
  intro i t ht _
  match i with
  | 0 => obtain rfl := Option.some.inj ht; exact ⟨_,rfl⟩
  | 1 => obtain rfl := Option.some.inj ht; exact ⟨_,rfl⟩

end Sample

end StructuredExtractor
