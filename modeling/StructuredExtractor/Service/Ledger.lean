import StructuredExtractor.Service.Interleaving

/-! # The usage ledger

Every extraction is priced by exactly one usage row, and every usage row belongs to an
extraction. The migration establishes this for the old rows, and the interleaved runs
keep it: only recordings write to the two tables, each in one commit, and a run records
at most once.
-/
namespace StructuredExtractor
open Service

/-- The usage rows of an extraction for one purpose. -/
def Database.usagesOf (db : Database) (id : Uuid) (purpose : LLMUsagePurpose) : List LLMUsage :=
  db.llmUsages.filter fun u => u.extractionId = some id ∧ u.purpose = purpose

/-- The usage row has the document, the model and the tokens of the extraction. -/
structure Prices (u : LLMUsage) (x : Extraction) : Prop where
  documentId : u.documentId = x.documentId
  model : u.model = x.modelUsed
  inputTokens : u.inputTokens = x.inputTokens
  outputTokens : u.outputTokens = x.outputTokens

structure Ledger (db : Database) : Prop where
  extraction : ∀ x ∈ db.extractions, ∃ u, db.usagesOf x.id .extraction = [u] ∧ Prices u x
  classifier : ∀ x ∈ db.extractions, (db.usagesOf x.id .classifier).length ≤ 1
  usage : ∀ u ∈ db.llmUsages, ∃ x ∈ db.extractions, u.extractionId = some x.id ∧
    u.documentId = x.documentId

section Migration

/-- The migration establishes the ledger. -/
theorem backfill_ledger {db : Database} (newId : ℕ → Uuid)
    (hkeys : (db.extractions.map Extraction.id).Nodup) : Ledger (db.backfill newId) := by
  have hpurpose : ∀ u ∈ (db.backfill newId).llmUsages, u.purpose = .extraction := fun u hu => by
    obtain ⟨p,-,rfl⟩ := List.mem_map.mp hu
    rfl
  refine ⟨fun x hx => ?_,fun x _ => ?_,fun u hu => ?_⟩
  · obtain ⟨k,hk⟩ := List.mem_iff_getElem?.mp hx
    have hmem : Database.backfilled newId (x,k) ∈ (db.backfill newId).llmUsages :=
      List.mem_map_of_mem (List.mk_mem_zipIdx_iff_getElem?.mpr hk)
    have hids : ((db.backfill newId).llmUsages.map LLMUsage.extractionId).Nodup := by
      have hmap : (db.backfill newId).llmUsages.map LLMUsage.extractionId =
          (db.extractions.map Extraction.id).map some := by
        calc (db.extractions.zipIdx.map (Database.backfilled newId)).map LLMUsage.extractionId
            = (db.extractions.zipIdx.map Prod.fst).map fun x => some x.id := by
              rw [List.map_map,List.map_map]; rfl
          _ = (db.extractions.map Extraction.id).map some := by
              rw [List.zipIdx_map_fst,List.map_map]; rfl
      rw [hmap]
      exact hkeys.map (Option.some_injective _)
    refine ⟨Database.backfilled newId (x,k),?_,⟨rfl,rfl,rfl,rfl⟩⟩
    rw [← Keyed.filter_key_eq hids hmem]
    exact List.filter_congr fun u hu => decide_eq_decide.mpr (and_iff_left (hpurpose u hu))
  · have hnone : (db.backfill newId).usagesOf x.id .classifier = [] :=
      List.filter_eq_nil_iff.mpr fun u hu => by simp [hpurpose u hu]
    rw [hnone]
    exact Nat.zero_le 1
  · obtain ⟨⟨x,k⟩,hx,rfl⟩ := List.mem_map.mp hu
    exact ⟨x,(List.mem_zipIdx_iff_getElem?.mp hx |> List.mem_of_getElem?),rfl,rfl⟩

end Migration

section Actions

/-- The extractions that an action makes durable. -/
def Action.extractions : Action → List Extraction
  | .commit changes => changes.filterMap Change.extraction?
  | _ => []

def Action.usages : Action → List LLMUsage
  | .commit changes => changes.filterMap Change.usage?
  | _ => []

/-- The action adds no row to the two tables. -/
def Action.Silent (a : Action) : Prop := a.extractions = [] ∧ a.usages = []

theorem extractions_act (w : World) (i : ℕ) (a : Action) :
    (w.act i a).db.extractions = w.db.extractions ++ a.extractions := by
  cases a with
  | commit changes => exact Database.extractions_applyAll w.db changes
  | _ => exact (List.append_nil _).symm

theorem llmUsages_act (w : World) (i : ℕ) (a : Action) :
    (w.act i a).db.llmUsages = w.db.llmUsages ++ a.usages := by
  cases a with
  | commit changes => exact Database.llmUsages_applyAll w.db changes
  | _ => exact (List.append_nil _).symm

theorem setting_silent {known : Document} {status : DocumentStatus} :
    ∀ a ∈ setting known status, a.Silent := by
  intro a ha
  unfold setting at ha
  split at ha
  · cases ha
  · obtain rfl := List.mem_singleton.mp ha
    exact ⟨rfl,rfl⟩

variable {c : Config} {i : ℕ} {k : Kind} {w : World} {a : Action}

/-- The commit of a recording by run `i`. -/
structure Records (c : Config) (i : ℕ) (o : Except Exc DocumentProcessingResult) (a : Action) : Prop where
  classified : ClassifiedOutcome o
  commit : ∃ rec n now durationMs known, recorded c o = some rec ∧
    a = .commit (rec.changes i n now durationMs known)

/-- The actions record with the last one only, if at all. -/
def RecordsLast (c : Config) (i : ℕ) (as : List Action) : Prop :=
  (∀ b ∈ as, b.Silent) ∨ ∃ before o a, as = before ++ [a] ∧ (∀ b ∈ before, b.Silent) ∧ Records c i o a

theorem silent_append {as bs : List Action} (has : ∀ b ∈ as, b.Silent) (hbs : ∀ b ∈ bs, b.Silent) :
    ∀ b ∈ as ++ bs, b.Silent := fun b hb => (List.mem_append.mp hb).elim (has b) (hbs b)

theorem created_silent (path : StoragePath) (content : Bytes) (row : Document) :
    ∀ b ∈ [Action.save path content,.commit [.insertDocument row]], b.Silent := by
  intro b hb
  obtain rfl | hb := List.mem_cons.mp hb
  · exact ⟨rfl,rfl⟩
  · obtain rfl := List.mem_singleton.mp hb
    exact ⟨rfl,rfl⟩

theorem Recording.recordsLast {known : Document} {before otherwise : List Action}
    {o : Except Exc DocumentProcessingResult} {as : List Action} (hbefore : ∀ b ∈ before, b.Silent)
    (hother : ∀ b ∈ otherwise, b.Silent) (h : Recording c i known otherwise o as) :
    RecordsLast c i (before ++ as) := by
  unfold Recording at h
  cases hrec : recorded c o with
  | none =>
    rw [hrec] at h
    obtain rfl : as = otherwise := h
    exact .inl (silent_append hbefore hother)
  | some rec =>
    rw [hrec] at h
    obtain ⟨ho,n,now,ms,rfl⟩ := h
    exact .inr ⟨before,o,_,rfl,hbefore,ho,rec,n,now,ms,known,hrec,rfl⟩

/-- A script records with its last action only. -/
theorem Script.recordsLast {full : List Action} (h : Script c i k full) : RecordsLast c i full := by
  cases h with
  | @uploadInline content row known tail o hid hknown htail =>
    exact htail.recordsLast (silent_append (created_silent row.filePath content row) setting_silent)
      fun b hb => by cases hb
  | @uploadFallback content row known tail o hid hknown hstatus htail =>
    exact htail.recordsLast (created_silent row.filePath content row) fun b hb => by cases hb
  | @uploadQueued content row job hid hstatus hdoc horigin =>
    refine .inl (silent_append (created_silent row.filePath content row) fun b hb => ?_)
    obtain rfl : b = .enqueue job := List.mem_singleton.mp hb
    exact ⟨rfl,rfl⟩
  | existingInline htail => exact htail.recordsLast setting_silent setting_silent
  | @existingQueued _ job hdoc horigin =>
    refine .inl fun b hb => ?_
    obtain rfl : b = .enqueue job := List.mem_singleton.mp hb
    exact ⟨rfl,rfl⟩

/-- An action that goes on with a script adds no row, or it is the recording and the
run has added none. -/
theorem May.silent_or_records (h : May c i k w a) :
    a.Silent ∨ (∃ o, Records c i o a) ∧ ∀ b ∈ w.trace i, b.Silent := by
  obtain ⟨full,hscript,hpre⟩ := h.script
  have hmem : ∀ {as}, w.trace i ++ [a] <+: as → a ∈ as := fun h =>
    h.subset (List.mem_append_right _ (List.mem_singleton_self a))
  obtain hsilent | ⟨before,o,b,rfl,hbefore,hb⟩ := hscript.recordsLast
  · exact .inl (hsilent a (hmem hpre))
  · obtain heq | hpre := List.prefix_concat_iff.mp hpre
    · obtain ⟨htrace,hab⟩ := List.append_inj' heq rfl
      obtain rfl := List.singleton_inj.mp hab
      exact .inr ⟨⟨o,hb⟩,htrace ▸ hbefore⟩
    · exact .inl (hbefore a (hmem hpre))

end Actions

section Records
variable {c : Config} {i : ℕ} {db : Database} {a : Action} {o : Except Exc DocumentProcessingResult}

theorem usageRows_append (i : ℕ) (documentId extractionId : Uuid) (n : ℕ) (now : Stream' Time)
    (xs ys : List LLMUsageEvent) :
    usageRows i documentId extractionId n now (xs ++ ys) =
      usageRows i documentId extractionId n now xs ++
        usageRows i documentId extractionId (n + xs.length) (now.drop xs.length) ys := by
  induction xs generalizing n now with
  | nil => rfl
  | cons x xs ih =>
    rw [List.cons_append,usageRows,usageRows,ih,List.cons_append,List.length_cons,Nat.add_right_comm n 1,
      Nat.add_assoc n,Stream'.drop_tail']

theorem mem_usageRows {documentId extractionId : Uuid} {events : List LLMUsageEvent} {n : ℕ}
    {now : Stream' Time} {u : LLMUsage} (hu : u ∈ usageRows i documentId extractionId n now events) :
    u.documentId = documentId ∧ u.extractionId = some extractionId ∧ ∃ e ∈ events, u.purpose = e.purpose := by
  induction events generalizing n now with
  | nil => cases hu
  | cons e events ih =>
    obtain rfl | hu := List.mem_cons.mp hu
    · exact ⟨rfl,rfl,e,List.mem_cons_self,rfl⟩
    · obtain ⟨hdoc,hext,e',he',hpurpose⟩ := ih hu
      exact ⟨hdoc,hext,e',List.mem_cons_of_mem e he',hpurpose⟩

theorem length_usageRows (documentId extractionId : Uuid) (events : List LLMUsageEvent) (n : ℕ)
    (now : Stream' Time) : (usageRows i documentId extractionId n now events).length = events.length := by
  induction events generalizing n now with
  | nil => rfl
  | cons e events ih => rw [usageRows,List.length_cons,List.length_cons,ih]

/-- What a recording adds: an extraction of the document with a new id, usage rows of
the classifier, and the usage row that prices the extraction. -/
structure Adds (i : ℕ) (a : Action) (x : Extraction) (classifier : List LLMUsage) (u : LLMUsage) : Prop where
  extractions : a.extractions = [x]
  usages : a.usages = classifier ++ [u]
  id : ∃ n, x.id = .drawn i n
  once : classifier.length ≤ 1
  points : ∀ v ∈ classifier ++ [u], v.extractionId = some x.id ∧ v.documentId = x.documentId
  purposes : (∀ v ∈ classifier, v.purpose = .classifier) ∧ u.purpose = .extraction
  prices : Prices u x

theorem recorded_events {rec : Recorded} (h : recorded c o = some rec) (ho : ClassifiedOutcome o) :
    ∃ classifier inputTokens outputTokens, ClassifiedOnce classifier ∧
      rec.events = classifier ++ [extractionUsage c inputTokens outputTokens] ∧
      ∀ id documentId ms createdAt, (rec.extraction id documentId ms createdAt).id = id ∧
        (rec.extraction id documentId ms createdAt).documentId = documentId ∧
        (rec.extraction id documentId ms createdAt).modelUsed = c.model ∧
        (rec.extraction id documentId ms createdAt).inputTokens = inputTokens ∧
        (rec.extraction id documentId ms createdAt).outputTokens = outputTokens := by
  match o, h with
  | .ok r, h =>
    obtain rfl := Option.some.inj h
    exact ⟨_,_,_,ho,rfl,fun _ _ _ _ => ⟨rfl,rfl,rfl,rfl,rfl⟩⟩
  | .error (.documentProcessing resolved e), h =>
    obtain rfl := Option.some.inj h
    exact ⟨_,_,_,ho,rfl,fun _ _ _ _ => ⟨rfl,rfl,rfl,rfl,rfl⟩⟩

theorem statusChange_silent (known : Document) (status : DocumentStatus) :
    (statusChange known status).filterMap Change.extraction? = [] ∧
      (statusChange known status).filterMap Change.usage? = [] := by
  unfold statusChange
  split <;> exact ⟨rfl,rfl⟩

theorem changes_extractions (rec : Recorded) (i n : ℕ) (now : Stream' Time) (ms : ℤ) (known : Document) :
    (Action.commit (rec.changes i n now ms known)).extractions =
      [rec.extraction (.drawn i n) known.id ms now.head] := by
  simp [Action.extractions,Recorded.changes,Recorded.rows,(statusChange_silent known rec.status).1,
    Change.extraction?,List.filterMap_map,Function.comp_def]

theorem changes_usages (rec : Recorded) (i n : ℕ) (now : Stream' Time) (ms : ℤ) (known : Document) :
    (Action.commit (rec.changes i n now ms known)).usages =
      usageRows i known.id (.drawn i n) (n + 1) now.tail rec.events := by
  simp [Action.usages,Recorded.changes,Recorded.rows,(statusChange_silent known rec.status).2,
    Change.usage?,List.filterMap_cons,List.filterMap_map,Function.comp_def]

theorem Records.adds (h : Records c i o a) : ∃ x classifier u, Adds i a x classifier u := by
  obtain ⟨rec,n,now,ms,known,hrec,rfl⟩ := h.commit
  obtain ⟨events,inputTokens,outputTokens,⟨honce,hclassifier⟩,hevents,hx⟩ :=
    recorded_events hrec h.classified
  obtain ⟨hid,hdoc,hmodel,hinput,houtput⟩ := hx (.drawn i n) known.id ms now.head
  have husages := changes_usages rec i n now ms known
  rw [hevents,usageRows_append] at husages
  refine ⟨_,_,_,changes_extractions rec i n now ms known,husages,⟨n,hid⟩,?_,?_,⟨?_,rfl⟩,?_⟩
  · rwa [length_usageRows]
  · intro v hv
    rw [hid,hdoc]
    obtain hv | hv := List.mem_append.mp hv
    · exact ⟨(mem_usageRows hv).2.1,(mem_usageRows hv).1⟩
    · obtain rfl := List.mem_singleton.mp hv
      exact ⟨rfl,rfl⟩
  · intro v hv
    obtain ⟨-,-,e,he,hpurpose⟩ := mem_usageRows hv
    exact hpurpose.trans (hclassifier e he)
  · exact ⟨hdoc.symm,hmodel.symm,hinput.symm,houtput.symm⟩

end Records

section Steps
variable {i : ℕ} {w : World} {a : Action}

theorem usagesOf_act (w : World) (i : ℕ) (a : Action) (id : Uuid) (purpose : LLMUsagePurpose) :
    (w.act i a).db.usagesOf id purpose = w.db.usagesOf id purpose ++
      a.usages.filter fun u => u.extractionId = some id ∧ u.purpose = purpose := by
  rw [Database.usagesOf,llmUsages_act,List.filter_append]
  rfl

theorem Ledger.silent (h : Ledger w.db) (ha : a.Silent) : Ledger (w.act i a).db := by
  have hextractions : (w.act i a).db.extractions = w.db.extractions := by
    rw [extractions_act,ha.1,List.append_nil]
  have husages : ∀ id purpose, (w.act i a).db.usagesOf id purpose = w.db.usagesOf id purpose :=
    fun id purpose => by rw [usagesOf_act,ha.2,List.filter_nil,List.append_nil]
  refine ⟨fun x hx => ?_,fun x hx => ?_,fun u hu => ?_⟩
  · rw [husages]
    exact h.extraction x (hextractions ▸ hx)
  · rw [husages]
    exact h.classifier x (hextractions ▸ hx)
  · rw [llmUsages_act,ha.2,List.append_nil] at hu
    rw [hextractions]
    exact h.usage u hu

/-- A recording of an extraction with a new id keeps the ledger. -/
theorem Ledger.adds {x : Extraction} {classifier : List LLMUsage} {u : LLMUsage} (h : Ledger w.db)
    (ha : Adds i a x classifier u) (hfresh : ∀ y ∈ w.db.extractions, y.id ≠ x.id) :
    Ledger (w.act i a).db := by
  have hold : ∀ y ∈ w.db.extractions, ∀ purpose,
      (w.act i a).db.usagesOf y.id purpose = w.db.usagesOf y.id purpose := by
    intro y hy purpose
    rw [usagesOf_act,ha.usages,List.append_right_eq_self]
    refine List.filter_eq_nil_iff.mpr fun v hv hpoints => ?_
    have hpoints := of_decide_eq_true hpoints
    exact hfresh y hy (Option.some.inj (hpoints.1.symm.trans (ha.points v hv).1))
  have hnone : ∀ purpose, w.db.usagesOf x.id purpose = [] := by
    refine fun purpose => List.filter_eq_nil_iff.mpr fun v hv hpoints => ?_
    obtain ⟨y,hy,hvy,-⟩ := h.usage v hv
    exact hfresh y hy (Option.some.inj (hvy.symm.trans (of_decide_eq_true hpoints).1))
  have hnew : ∀ purpose, (w.act i a).db.usagesOf x.id purpose =
      (classifier ++ [u]).filter fun v => v.purpose = purpose := by
    intro purpose
    rw [usagesOf_act,hnone,ha.usages,List.nil_append]
    exact List.filter_congr fun v hv => decide_eq_decide.mpr (and_iff_right (ha.points v hv).1)
  have hmem : ∀ y ∈ (w.act i a).db.extractions, y ∈ w.db.extractions ∨ y = x := fun y hy => by
    rwa [extractions_act,ha.extractions,List.mem_append,List.mem_singleton] at hy
  refine ⟨fun y hy => ?_,fun y hy => ?_,fun v hv => ?_⟩
  · obtain hy | rfl := hmem y hy
    · rw [hold y hy]
      exact h.extraction y hy
    · refine ⟨u,?_,ha.prices⟩
      have hclassifier : classifier.filter (fun v => v.purpose = .extraction) = [] :=
        List.filter_eq_nil_iff.mpr fun v hv => by simp [ha.purposes.1 v hv]
      rw [hnew,List.filter_append,hclassifier,List.filter_singleton]
      simp [ha.purposes.2]
  · obtain hy | rfl := hmem y hy
    · rw [hold y hy]
      exact h.classifier y hy
    · rw [hnew,List.filter_append,List.filter_singleton]
      simpa [ha.purposes.2] using (List.length_filter_le _ classifier).trans ha.once
  · rw [llmUsages_act,ha.usages,List.mem_append] at hv
    rw [extractions_act,ha.extractions]
    obtain hv | hv := hv
    · obtain ⟨y,hy,hvy⟩ := h.usage v hv
      exact ⟨y,List.mem_append_left _ hy,hvy⟩
    · exact ⟨x,List.mem_append_right _ (List.mem_singleton_self x),ha.points v hv⟩

/-- The extraction was added by run `i`: its id is one that the run drew. -/
def Extraction.AddedBy (i : ℕ) (x : Extraction) : Prop := ∃ n, x.id = .drawn i n

instance (i : ℕ) (x : Extraction) : Decidable (x.AddedBy i) :=
  match h : x.id with
  | .old _ => isFalse fun ⟨_,hx⟩ => by rw [h] at hx; cases hx
  | .drawn j n => decidable_of_iff (j = i)
      ⟨fun hj => ⟨n,hj ▸ h⟩,fun ⟨_,hx⟩ => by rw [h] at hx; exact (Uuid.drawn.inj hx).1⟩

/-- What the runs keep, from a database `old` on. -/
structure Kept (old : Database) (w : World) : Prop where
  ledger : Ledger w.db
  rows : w.db.extractions = old.extractions ++ w.log.flatMap fun p => p.2.extractions
  added : ∀ p ∈ w.log, ∀ x ∈ p.2.extractions, x.AddedBy p.1

variable {c : Config} {k : Kind} {old : Database}

theorem Kept.act (hold : ∀ x ∈ old.extractions, ∃ n, x.id = .old n) (h : Kept old w)
    (hmay : May c i k w a) : Kept old (w.act i a) := by
  have hrows : (w.act i a).db.extractions =
      old.extractions ++ (w.act i a).log.flatMap fun p => p.2.extractions := by
    rw [extractions_act,h.rows,log_act,List.flatMap_append,List.flatMap_singleton,List.append_assoc]
  obtain hsilent | ⟨⟨o,hrecords⟩,hnone⟩ := hmay.silent_or_records
  · refine ⟨h.ledger.silent hsilent,hrows,fun p hp x hx => ?_⟩
    rw [log_act,List.mem_append,List.mem_singleton] at hp
    obtain hp | rfl := hp
    · exact h.added p hp x hx
    · rw [hsilent.1] at hx
      cases hx
  · obtain ⟨x,classifier,u,hadds⟩ := hrecords.adds
    obtain ⟨n,hid⟩ := hadds.id
    refine ⟨h.ledger.adds hadds fun y hy heq => ?_,hrows,fun p hp y hy => ?_⟩
    · rw [h.rows,List.mem_append,List.mem_flatMap] at hy
      rw [hid] at heq
      obtain hy | ⟨⟨j,b⟩,hp,hy⟩ := hy
      · obtain ⟨m,hm⟩ := hold y hy
        rw [hm] at heq
        cases heq
      · obtain ⟨m,hm⟩ := h.added (j,b) hp y hy
        rw [hm] at heq
        obtain rfl := (Uuid.drawn.inj heq).1
        rw [(hnone b (mem_trace.mpr hp)).1] at hy
        cases hy
    · rw [log_act,List.mem_append,List.mem_singleton] at hp
      obtain hp | rfl := hp
      · exact h.added p hp y hy
      · rw [hadds.extractions] at hy
        obtain rfl := List.mem_singleton.mp hy
        exact ⟨n,hid⟩

end Steps

section Runs
variable {c : Config} {D : Discipline Label World} {i : ℕ} {label : Label} {w w' : World}

theorem silent_extractions {as : List Action} (h : ∀ a ∈ as, a.Silent) :
    as.flatMap Action.extractions = [] := List.flatMap_eq_nil_iff.mpr fun a ha => (h a ha).1

/-- At most one extraction, and one exactly when some processing settled. -/
def OneIfSettled (processed : List (ProcessingInput × Except Exc DocumentProcessingResult))
    (xs : List Extraction) : Prop :=
  xs.length ≤ 1 ∧ (xs.length = 1 ↔ ∃ q ∈ processed, Settled q.2)

/-- What a run did by its end: nothing to the two tables, or it processed its document
and did what follows from the outcome. -/
inductive Did (c : Config) (i : ℕ) (model : ModelEnv) : Trail → List Action → Prop
  | nothing {t : Trail} {as : List Action} (hprocessed : t.processed = []) (hsilent : ∀ a ∈ as, a.Silent) :
      Did c i model t as
  | processed {t : Trail} {known : Document} {before otherwise as : List Action} {input : ProcessingInput}
      (hprocessed : t.processed = [(input,outcomeOf c model input)]) (hstarted : t.started = [known.id])
      (hbefore : ∀ a ∈ before, a.Silent) (hother : ∀ a ∈ otherwise, a.Silent)
      (hrec : Recording c i known otherwise (outcomeOf c model input) as) : Did c i model t (before ++ as)

theorem Ends.did {env : Env} {s : Source} {r : Except Exc Answer} {t : Trail}
    (h : Ends c D i w env s r t w') (hD : Fits c i D label) (htrace : w.trace i = []) :
    Did c i env.model t (w'.trace i) := by
  have hwent : ∀ {w₁ as}, Went D i w as w₁ → w₁.trace i = as := fun h => by
    rw [h.trace hD,htrace,List.nil_append]
  have hnone : ∀ b ∈ ([] : List Action), b.Silent := fun b hb => by cases hb
  have hsent : ∀ job, ∀ b ∈ [Action.enqueue job], b.Silent := fun job b hb =>
    List.mem_singleton.mp hb ▸ ⟨rfl,rfl⟩
  cases h with
  | invalid hkind hw => exact hwent hw ▸ .nothing rfl hnone
  | notUploaded _ _ _ _ hw => exact hwent hw ▸ .nothing rfl hnone
  | notFound _ _ _ hw => exact hwent hw ▸ .nothing rfl hnone
  | @uploadInline _ _ _ _ known _ w₁ _ _ _ hkind hcontent hfilename hup hinput hrec hw hanswer =>
    rw [hwent (hup.went.trans hw),← List.append_assoc]
    have hid : known.id = .drawn i 0 := w₁.db.keyed hup.found
    exact .processed rfl (by rw [← hid]; rfl) (silent_append (created_silent _ _ _) setting_silent) hnone hrec
  | @uploadFallback _ _ _ _ known _ w₁ _ _ _ _ hkind hcontent hfilename hqueue hup hinput hrec hw hanswer =>
    rw [hwent (hup.went.trans hw)]
    have hid : known.id = .drawn i 0 := w₁.db.keyed hup.found
    exact .processed rfl (by rw [← hid]) (created_silent _ _ _) hnone hrec
  | uploadQueued hkind hcontent hfilename hqueue hup hw =>
    rw [hwent (hup.went.trans hw)]
    exact .nothing rfl (silent_append (created_silent _ _ _) (hsent _))
  | @existingInline _ _ _ known _ w₁ _ _ _ _ hkind hw₁ hknown hw₂ hpdf hinput hrec hw hanswer =>
    rw [hwent ((Discipline.Passes.wait hw₁).trans (hw₂.trans hw)),List.nil_append]
    have hid := w₁.db.keyed hknown
    exact .processed rfl (by rw [← hid]; rfl) setting_silent setting_silent hrec
  | notLoaded hkind hw₁ hknown hw₂ hpdf hw =>
    rw [hwent ((Discipline.Passes.wait hw₁).trans (hw₂.trans hw)),List.nil_append]
    exact .nothing rfl (silent_append setting_silent setting_silent)
  | existingQueued hkind hw₁ hknown hqueue hw =>
    rw [hwent ((Discipline.Passes.wait hw₁).trans hw)]
    exact .nothing rfl (hsent _)
  | existingUnsent hkind hw₁ hknown hqueue hw =>
    exact hwent ((Discipline.Passes.wait hw₁).trans hw) ▸ .nothing rfl hnone

/-- What is done before and after the processing adds nothing. -/
theorem Did.oneIfSettled {model : ModelEnv} {t : Trail} {as : List Action} (h : Did c i model t as) :
    OneIfSettled t.processed (as.flatMap Action.extractions) := by
  cases h with
  | nothing hprocessed hsilent =>
    rw [hprocessed,silent_extractions hsilent]
    exact ⟨Nat.zero_le 1,by simp⟩
  | @processed known before otherwise as input hprocessed hstarted hbefore hother hrec =>
    rw [hprocessed,List.flatMap_append,silent_extractions hbefore,List.nil_append]
    generalize outcomeOf c model input = o at hrec ⊢
    have hiff : (∃ q ∈ [(input,o)], Settled q.2) ↔ ∃ rec, recorded c o = some rec := by
      rw [← settled_iff c]
      simp
    rw [OneIfSettled,hiff]
    unfold Recording at hrec
    cases hr : recorded c o with
    | none =>
      rw [hr] at hrec
      obtain rfl : as = otherwise := hrec
      rw [silent_extractions hother]
      exact ⟨Nat.zero_le 1,by simp⟩
    | some rec =>
      rw [hr] at hrec
      obtain ⟨ho,n,now,ms,rfl⟩ := hrec
      rw [List.flatMap_singleton,changes_extractions]
      exact ⟨Nat.le_refl 1,by simp⟩

theorem Kept.start {old : Database} {p : ServicePool} {t : ServiceThread} {g : World}
    (h : Kept old p.shared) (ht : Starts c p t g) : Kept old g := by
  cases ht with
  | request => exact h
  | worker => exact ⟨h.ledger,h.rows,h.added⟩

/-- The extractions that run `i` added are those of its actions. -/
theorem Kept.addedBy {old : Database} (h : Kept old w) (hold : ∀ x ∈ old.extractions, ∃ n, x.id = .old n)
    (i : ℕ) :
    w.db.extractions.filter (fun x => x.AddedBy i) = (w.trace i).flatMap Action.extractions := by
  have hnone : old.extractions.filter (fun x => x.AddedBy i) = [] := by
    refine List.filter_eq_nil_iff.mpr fun x hx hadded => ?_
    obtain ⟨n,hn⟩ := hold x hx
    obtain ⟨m,hm⟩ := of_decide_eq_true hadded
    rw [hn] at hm
    cases hm
  have hadded := h.added
  rw [h.rows,List.filter_append,hnone,List.nil_append,World.trace]
  clear h
  generalize w.log = log at hadded ⊢
  induction log with
  | nil => rfl
  | cons p log ih =>
    have hrest := ih fun q hq => hadded q (List.mem_cons_of_mem p hq)
    have hp := hadded p List.mem_cons_self
    rw [List.flatMap_cons,List.filter_append,hrest]
    by_cases hpi : p.1 = i
    · have hall : p.2.extractions.filter (fun x => x.AddedBy i) = p.2.extractions :=
        List.filter_eq_self.mpr fun x hx => decide_eq_true (hpi ▸ hp x hx)
      simp only [hall,List.filterMap_cons,hpi,if_true,List.flatMap_cons]
    · have hother : p.2.extractions.filter (fun x => x.AddedBy i) = [] := by
        refine List.filter_eq_nil_iff.mpr fun x hx hadded => hpi ?_
        obtain ⟨n,hn⟩ := hp x hx
        obtain ⟨m,hm⟩ := of_decide_eq_true hadded
        exact (Uuid.drawn.inj (hn.symm.trans hm)).1
      simp only [hother,List.filterMap_cons,hpi,if_false,List.nil_append]

/-- **The ledger is kept.** From a migrated database on, in every state of every
interleaving of runs without database failures, every extraction is priced by one usage
row and every usage row belongs to an extraction; and a run that ended added one
extraction if its processing ended in a result or an extraction error, and none
otherwise. -/
theorem ledger_reachable {old : Database} {newId : ℕ → Uuid} {files : StoragePath → Option Bytes}
    {queue : List Job} {p : ServicePool} (hkeys : (old.extractions.map Extraction.id).Nodup)
    (hold : ∀ x ∈ old.extractions, ∃ n, x.id = .old n)
    (hp : Pool.Reachable (Machine.handler c.processor) (Starts c)
      ⟨old.backfill newId,files,queue,[]⟩ p) :
    Ledger p.shared.db ∧ ∀ i t r, p.threads[i]? = some t → t.prog = .done r →
      OneIfSettled t.loc.processed (p.shared.db.extractions.filter fun x => x.AddedBy i) := by
  have hinit : Kept (old.backfill newId) ⟨old.backfill newId,files,queue,[]⟩ :=
    ⟨backfill_ledger newId hkeys,(List.append_nil _).symm,fun p hp => by cases hp⟩
  obtain ⟨-,hkept,hended⟩ := pool_induction (I := fun p => Kept (old.backfill newId) p.shared)
    (G := fun _ _ => True) (fun h => h) rfl hinit (fun h _ _ _ => h)
    (fun _ h _ _ _ hmay => h.act hold hmay) (fun _ h ht => ⟨trivial,h.start ht⟩) hp
  refine ⟨hkept.ledger,fun i t r ht hdone => ?_⟩
  obtain ⟨w,htrace,-,hends⟩ := hended i t r ht hdone
  rw [hkept.addedBy hold]
  exact (hends.did (interleaved_fits c i t.label) htrace).oneIfSettled

end Runs

section Sample

def oldExtraction : Extraction :=
  ⟨.old 1,.old 0,"receipt",.completed,none,none,none,none,"full",none,"openai/gpt-4.1-mini",120,30,0,0⟩

def oldDatabase : Database := { Database.empty with extractions := [oldExtraction] }

/-- An upload to the migrated database, whose extraction fails. -/
def migratedRun : Except Exc Answer × Local × World :=
  runAlone (sampleConfig true) 0 (.request (sampleUpload "contract" false))
    (sampleEnv (.ok "job") unreachable) ⟨oldDatabase.backfill .old,fun _ => none,[],[]⟩

theorem migratedRun_ledger : Ledger migratedRun.2.2.db ∧
    OneIfSettled migratedRun.2.1.processed (migratedRun.2.2.db.extractions.filter fun x => x.AddedBy 0) ∧
    migratedRun.2.2.db.extractions.map Extraction.id = [.old 1,.drawn 0 1] := by
  have hkept := @ledger_reachable (sampleConfig true) oldDatabase .old (fun _ => none) [] _ (by decide)
    (by simp [oldDatabase,oldExtraction])
    (Pool.Reachable.through .refl (@Starts.request _ _ (sampleUpload "contract" false)
      (sampleEnv (.ok "job") unreachable) rfl))
  exact ⟨hkept.1,hkept.2 0 _ _ rfl rfl,by decide⟩

end Sample

end StructuredExtractor
