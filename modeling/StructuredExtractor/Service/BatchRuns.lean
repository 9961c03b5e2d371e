import StructuredExtractor.Library.Crowd
import StructuredExtractor.Service.Batch
import StructuredExtractor.Service.StoredUploads

/-! # Batches beside everything else

Requests, workers and batches side by side, where each batch keeps to its own limit. By itself a
batch is a gathering of its files. All together they do nothing that requests and workers could not
have done alone, and what a batch reports of a file is so.
-/
namespace StructuredExtractor
open Service

/-- The request that a file of the batch amounts to. -/
def Batch.request (b : Batch) (file : BatchFile) : ExtractRequest :=
  ⟨some file.content,some file.filename,none,b.docType,b.strategy,b.asyncMode⟩

/-- The runs of the files. -/
def Batch.threads (c : Config) (b : Batch) : List ServiceThread :=
  b.files.mapIdx fun i file =>
    ⟨⟨.request (b.request file),file.env⟩,itemProgram c b file,.start (b.first + i) file.env⟩

/-- A batch arrives; its runs have the next numbers. -/
def ArrivesBatch (c : Config) (p : ServicePool) (b : Batch) (ts : List ServiceThread) : Prop :=
  b.first = p.threads.length ∧ ts = b.threads c

abbrev BatchCrowd := Crowd ServiceOp.Reply Exc Answer Local Label World Batch
abbrev BatchGroup := Group Exc Answer Batch

abbrev ServesBatches (c : Config) (w₀ : World) (s : BatchCrowd) : Prop :=
  Crowd.Reachable (Machine.handler c.processor) batchConcurrencyLimit (Arrives c) (ArrivesBatch c) w₀ s

section Refinement
variable {c : Config} {w₀ : World} {p p' : ServicePool} {s : BatchCrowd} {t : ServiceThread} {g : World} {b : Batch}
variable {group : BatchGroup}

theorem threads_get (i : ℕ) : (b.threads c)[i]? = b.files[i]?.map fun file =>
    ⟨⟨.request (b.request file),file.env⟩,itemProgram c b file,.start (b.first + i) file.env⟩ := by
  rw [Batch.threads,List.getElem?_mapIdx]

theorem threads_slots : (b.threads c).map (fun t => .waiting t.prog t.loc) = batchSlots c b := by
  refine List.ext_getElem? fun i => ?_
  rw [List.getElem?_map,threads_get,batchSlots,List.getElem?_mapIdx]
  cases b.files[i]? <;> rfl

/-- All runs together are runs of a pool to which the files of batches come one by one. -/
theorem crowd_comes (hs : ServesBatches c w₀ s) : Pool.Reachable (Machine.handler c.processor) (Comes c) w₀ s.pool := by
  refine hs.pool Comes.run ?_
  rintro p b _ ⟨hfirst,rfl⟩ j t ht
  rw [threads_get] at ht
  obtain ⟨file,hfile,rfl⟩ := Option.map_eq_some_iff.mp ht
  have hj : j < (b.threads c).length := by
    rw [Batch.threads,List.length_mapIdx]
    exact (List.getElem?_eq_some_iff.mp hfile).1
  have hlength : b.first + j = (p.threads ++ (b.threads c).take j).length := by
    rw [List.length_append,List.length_take,Nat.min_eq_left hj.le,hfirst]
  rw [hlength]
  exact .item

/-- What comes has a request or a worker that goes on where it ends. -/
theorem comes_outlived (ht : Comes c p t g) (hunder : p.Under p') : ∃ t', Arrives c p' t' g ∧ Pool.Outlives t t' := by
  obtain ⟨shared,length,-⟩ := hunder
  obtain ⟨threads',shared'⟩ := p'
  dsimp only at shared length
  subst shared
  cases ht with
  | run h =>
    cases h with
    | @request r env =>
      rw [← length]
      exact ⟨_,.request,rfl,rfl,Prog.begins_refl _⟩
    | @worker job env before after hqueue =>
      rw [← length]
      exact ⟨_,.worker hqueue,rfl,rfl,Prog.begins_refl _⟩
  | @item r env =>
    rw [← length]
    exact ⟨_,@Arrives.request c ⟨threads',p.shared⟩ r env,rfl,rfl,((Prog.begins_refl _).tryCatch _).bind _⟩

/-- A batch by itself is a gathering of its files. -/
theorem group_gathers (hs : ServesBatches c w₀ s) (hgroup : group ∈ s.groups) :
    Gather.Reachable (Machine.handler c.processor) batchConcurrencyLimit (batchSlots c group.tag)
      ⟨group.slots s.pool.threads,s.pool.shared⟩ := by
  obtain ⟨-,-,p,_,⟨-,rfl⟩,-,-,hreach⟩ := hs.gathers group hgroup
  rwa [threads_slots] at hreach

/-- **Batches do nothing new.** However calls fail and runs interleave, the rows, files, jobs and
actions of a service with batches are those of one where every file comes as a request of its own,
which may go on where the file's run has ended; and each batch is a gathering of its files under the limit. -/
theorem batches_refine (hs : ServesBatches c w₀ s) :
    (∃ p, Pool.Reachable (Machine.handler c.processor) (Arrives c) w₀ p ∧ s.pool.Under p) ∧
      ∀ group ∈ s.groups, Gather.Reachable (Machine.handler c.processor) batchConcurrencyLimit
        (batchSlots c group.tag) ⟨group.slots s.pool.threads,s.pool.shared⟩ :=
  ⟨(crowd_comes hs).under comes_outlived,fun _ => group_gathers hs⟩

end Refinement

/-- What the entry of the `i`-th file says is so: the file failed; or its document is durable with the
file, and its job was delivered, or its extraction is durable. -/
inductive BatchItemResult.TrueOf (b : Batch) (i : ℕ) (file : BatchFile) (w : World) : BatchItemResult → Prop
  | failed (e : Exc) : TrueOf b i file w (failedItem b file e)
  | queued {row : Document} (jobId : String) (hrow : w.db.documents (.drawn (b.first + i) 0) = some row)
      (hfiled : row.Filed w.files file.content) (hname : row.filename = file.filename)
      (hjob : (b.first + i,.enqueue ⟨(Uuid.drawn (b.first + i) 0).str,b.docType,
        b.strategy.map ExtractionStrategy.value,b.first + i⟩) ∈ w.log) :
      TrueOf b i file w (toBatchItemResult file.filename (.async (.drawn (b.first + i) 0) jobId))
  | extracted {row : Document} {x : Extraction} (hrow : w.db.documents (.drawn (b.first + i) 0) = some row)
      (hfiled : row.Filed w.files file.content) (hname : row.filename = file.filename)
      (hx : x ∈ w.db.extractions) (hdocument : x.documentId = .drawn (b.first + i) 0) : TrueOf b i file w
        (toBatchItemResult file.filename (inlineAnswer b.asyncMode (toExtractionResponse x).extractResponse))

section Entries
variable {c : Config} {w₀ : World} {p : ServicePool} {s : BatchCrowd} {t : ServiceThread} {g : World} {b : Batch}
variable {group : BatchGroup} {i : ℕ} {file : BatchFile} {outcome : Except Exc Answer}

theorem Comes.tells (h : Comes c p t g) : g.db = p.shared.db ∧ ∀ l w, Returns c.processor p.threads.length t.label
    t.prog (fun answer _ w => Tells t.label.source.asyncMode w answer) l w := by
  cases h with
  | run h => exact h.tells
  | item => exact ⟨rfl,fun _ _ => extractDocument_tells _⟩

/-- The answer to a file of a batch makes its entry true. -/
theorem entry_true {answer : Answer} (hw₀ : w₀.Filed .files)
    (hp : Pool.Reachable (Machine.handler c.processor) (Comes c) w₀ p) (ht : p.threads[b.first + i]? = some t)
    (hlabel : t.label = ⟨.request (b.request file),file.env⟩) (hdone : t.prog = .done (.ok answer)) :
    (toBatchItemResult file.filename answer).TrueOf b i file p.shared := by
  have hboth := allOnTerms_reachable (Terms.files_fits c) hw₀ (hp.mono fun h => ⟨h,fun _ _ _ _ => trivial⟩)
  have hanswer : answer.OfUpload (b.first + i) b.docType b.strategy p.shared :=
    hboth.2 _ t _ ht hdone (b.request file) answer (by rw [hlabel]) rfl rfl
  obtain ⟨row,hrow⟩ := hanswer.row
  obtain ⟨content,hfiled,-,huploaded⟩ := hboth.1.documents _ row hrow
  obtain ⟨t',ht',⟨r,hsource,hcontent,hfilename⟩,-⟩ := huploaded _ _ rfl
  obtain rfl := Option.some.inj (ht.symm.trans ht')
  rw [hlabel] at hsource
  cases hsource
  cases hcontent
  have hname : row.filename = file.filename := (Option.some.inj hfilename).symm
  have htells : Tells b.asyncMode p.shared answer := by
    have h := tells_finished Comes.tells hp ht hdone
    rwa [hlabel] at h
  cases answer with
  | async documentId jobId =>
    obtain rfl : documentId = .drawn (b.first + i) 0 := hanswer.document
    exact .queued jobId hrow hfiled hname (hanswer.job _ _ rfl)
  | extract response =>
    obtain ⟨x,hx,heq⟩ := htells response rfl
    have hdocument : x.documentId = .drawn (b.first + i) 0 := by
      rw [← hanswer.document,heq]
      cases b.asyncMode <;> rfl
    rw [heq]
    exact .extracted hrow hfiled hname hx hdocument

/-- The slots of a batch that has ended are its outcomes. -/
theorem slots_ended (hfits : group.Fits s.pool.threads.length) {outcomes : List (Except Exc Answer)}
    (hleft : group.places = outcomes.map .left) : group.slots s.pool.threads = outcomes.map .done := by
  refine List.ext_getElem? fun j => ?_
  rw [Group.slots_get,List.getElem?_map,hleft,List.getElem?_map]
  cases hj : outcomes[j]? with
  | none => rfl
  | some outcome =>
    have hplace : group.places[j]? = some (.left outcome) := by
      rw [hleft,List.getElem?_map,hj]
      rfl
    obtain ⟨t,ht⟩ := hfits.exists_thread hplace
    rw [ht]
    rfl

/-- The outcomes of a gathering that has ended have statuses that are counted. -/
theorem outcomes_aligned {outcomes : List (Except Exc Answer)} (hs : Gather.Reachable (Machine.handler c.processor)
    batchConcurrencyLimit (batchSlots c b) ⟨outcomes.map .done,g⟩) :
    Aligned b outcomes (batchExtract b outcomes) := by
  have hgiven := hs.given (V := Answers) (Q := Reported Answer.status) (handler_answers c.processor) fun x hx => by
    obtain ⟨file,l,rfl⟩ := batchSlots_waiting hx
    exact extractDocument_reports _
  refine batchExtract_aligned ?_ fun outcome ho => hgiven (.done outcome) (List.mem_map_of_mem ho)
  have hlength := hs.length
  rwa [List.length_map,batchSlots,List.length_mapIdx] at hlength

/-- **What a batch reports is so.** In a service with batches, once all files of a batch have ended,
the batch has an entry for each, in their order; and now and ever after, whatever fails and
runs beside it, an entry that is not a failure names the durable document of its own file, and the job
that was delivered for it or the durable extraction that was made of it. -/
theorem batch_entries_true (hw₀ : w₀.Filed .files) (hs : ServesBatches c w₀ s) (hgroup : group ∈ s.groups)
    {outcomes : List (Except Exc Answer)} (hleft : group.places = outcomes.map .left) :
    Aligned group.tag outcomes (batchExtract group.tag outcomes) ∧ ∀ (i : ℕ) file entry,
      group.tag.files[i]? = some file → (batchExtract group.tag outcomes).results[i]? = some entry →
        entry.TrueOf group.tag i file s.pool.shared := by
  obtain ⟨hfits,hleaves,q,_,⟨hfirst,rfl⟩,hnumber,hlabels,hreach⟩ := hs.gathers group hgroup
  rw [threads_slots,slots_ended hfits hleft] at hreach
  have haligned := outcomes_aligned hreach
  refine ⟨haligned,fun i file entry hfile hentry => ?_⟩
  obtain ⟨outcome,houtcome,hresult,-⟩ := haligned.entry i file hfile
  obtain rfl := Option.some.inj (hentry.symm.trans hresult)
  obtain ⟨t,ht,hdone⟩ := hleaves i outcome (by rw [hleft,List.getElem?_map,houtcome]; rfl)
  obtain ⟨t',ht',hlabel⟩ := hlabels i _ (by rw [threads_get,hfile]; rfl)
  obtain rfl := Option.some.inj (ht.symm.trans ht')
  rw [← hnumber,← hfirst] at ht
  unfold entryOf extractBatchItem
  cases file.closing with
  | some e => exact .failed e
  | none =>
    cases outcome with
    | error e => exact .failed e
    | ok answer => exact entry_true hw₀ (crowd_comes hs) ht hlabel hdone

end Entries

section Sample

/-- The two files of the sample one after the other. -/
theorem sampleBatch_served : ∃ (s : BatchCrowd) (group : BatchGroup) (outcomes : List (Except Exc Answer)),
    ServesBatches (sampleConfig true) emptyWorld s ∧ group ∈ s.groups ∧ group.tag = sampleBatch ∧
      group.places = outcomes.map .left := by
  have hopened : ServesBatches (sampleConfig true) emptyWorld _ :=
    .single (.gather (show ArrivesBatch (sampleConfig true) ⟨[],emptyWorld⟩ sampleBatch _ from ⟨rfl,rfl⟩))
  have hfirst := hopened.trans (Crowd.through (m := 0) (j := 0) rfl rfl rfl (by decide) (Crowd.free_alone _ 0))
  have hboth := hfirst.trans (Crowd.through (m := 0) (j := 1) rfl rfl rfl (by decide) (Crowd.free_alone _ 1))
  exact ⟨_,_,[_,_],hboth,List.mem_singleton_self _,rfl,rfl⟩

theorem sampleBatch_refines : ∃ s : BatchCrowd, s.groups ≠ [] ∧
    (∃ p, Pool.Reachable (Machine.handler (sampleConfig true).processor) (Arrives (sampleConfig true)) emptyWorld p ∧
      s.pool.Under p) ∧ ∀ group ∈ s.groups, Gather.Reachable (Machine.handler (sampleConfig true).processor)
        batchConcurrencyLimit (batchSlots (sampleConfig true) group.tag) ⟨group.slots s.pool.threads,s.pool.shared⟩ := by
  obtain ⟨s,group,-,hs,hgroup,-⟩ := sampleBatch_served
  exact ⟨s,List.ne_nil_of_mem hgroup,batches_refine hs⟩

theorem sampleBatch_entries : ∃ (w : World) (outcomes : List (Except Exc Answer)),
    Aligned sampleBatch outcomes (batchExtract sampleBatch outcomes) ∧ ∀ (i : ℕ) file entry,
      sampleBatch.files[i]? = some file → (batchExtract sampleBatch outcomes).results[i]? = some entry →
        entry.TrueOf sampleBatch i file w := by
  obtain ⟨s,group,outcomes,hs,hgroup,htag,hleft⟩ := sampleBatch_served
  exact ⟨s.pool.shared,outcomes,htag ▸ batch_entries_true (emptyWorld_filed _) hs hgroup hleft⟩

end Sample

end StructuredExtractor
