import StructuredExtractor.Service.Filing
import StructuredExtractor.Storage.ServiceFiles

/-! # What was uploaded can be loaded

Nothing more is asked of a row than its file. On a disk that has done what the service did, that
file is what a later load returns.
-/
namespace StructuredExtractor
open Service

/-- Nothing is asked of a row beyond its file. -/
def Terms.files : Terms where
  opens _ _ := True
  document _ _ := True
  extraction _ _ := True
  document_with _ h := h
  extraction_kept _ h := h

theorem Terms.files_fits (c : Config) : Terms.files.Fits c where
  document _ _ _ _ _ _ := trivial
  success _ _ _ _ _ := trivial
  failure _ _ _ _ _ _ := trivial

section Pools
variable {c : Config} {w₀ : World} {p : ServicePool}

theorem filed_reachable (hw₀ : w₀.Filed .files) (hp : Pool.Reachable (Machine.handler c.processor) (Comes c) w₀ p) :
    AllOnTerms .files w₀ p :=
  (allOnTerms_reachable (Terms.files_fits c) hw₀ (hp.mono fun h => ⟨h,fun _ _ _ _ => trivial⟩)).1

/-- **Every row has its file.** However calls of the database and of the storage fail and runs
interleave, behind every row of a document is the file that it names, of the length that it states,
in a directory of its own; and of a new row it is what its request has uploaded. -/
theorem rows_filed (hw₀ : w₀.Filed .files) (hp : Pool.Reachable (Machine.handler c.processor) (Comes c) w₀ p)
    {id : Uuid} {row : Document} (hrow : p.shared.db.documents id = some row) :
    ∃ content, row.Filed p.shared.files content ∧
      ∀ i n, id = .drawn i n → ∃ t, p.threads[i]? = some t ∧ t.label.Uploads row.filename content := by
  obtain ⟨content,hfiled,-,huploaded⟩ := (filed_reachable hw₀ hp).documents id row hrow
  refine ⟨content,hfiled,fun i n heq => ?_⟩
  obtain ⟨t,ht,huploads,-⟩ := huploaded i n heq
  exact ⟨t,ht,huploads⟩

end Pools

section Sample

/-- An upload that is handed to a worker. -/
def filedRun : Except Exc Answer × Local × World :=
  runAlone (sampleConfig true) 0 (.request (sampleUpload "receipt" true)) (sampleEnv (.ok "job") unreachable) emptyWorld

theorem filedRun_reachable : Pool.Reachable (Machine.handler (sampleConfig true).processor)
    (Comes (sampleConfig true)) emptyWorld ⟨[⟨⟨.request (sampleUpload "receipt" true),
      sampleEnv (.ok "job") unreachable⟩,.done filedRun.1,filedRun.2.1⟩],filedRun.2.2⟩ :=
  Pool.through (Comes.run (@Arrives.request _ _ (sampleUpload "receipt" true) (sampleEnv (.ok "job") unreachable)))

theorem emptyWorld_filed (T : Terms) : emptyWorld.Filed T where
  old _ _ h := by cases h
  kept _ _ h := by cases h

theorem filedRun_row : ∃ row, filedRun.2.2.db.documents (.drawn 0 0) = some row :=
  Option.isSome_iff_exists.mp (by decide)

theorem filedRun_filed : ∃ row content, filedRun.2.2.db.documents (.drawn 0 0) = some row ∧
    row.Filed filedRun.2.2.files content := by
  obtain ⟨row,hrow⟩ := filedRun_row
  obtain ⟨content,hfiled,-⟩ := rows_filed (emptyWorld_filed _) filedRun_reachable hrow
  exact ⟨row,content,hrow,hfiled⟩

end Sample

section Disk
open Pathlib
variable {c : Config} {w₀ : World} {p : ServicePool} {ids : IdTexts} {s : LocalStorage} {d d' : StorageDisk}

theorem files_act {v w : World} (h : v.files = w.files) (i j : ℕ) (a : Action) :
    (v.act i a).files = (w.act j a).files := by
  cases a <;> simp [World.act,h]

/-- The files are what the actions of all runs have made of them. -/
theorem files_reachable (hlog : w₀.log = []) (hp : Pool.Reachable (Machine.handler c.processor) (Comes c) w₀ p) :
    p.shared.files = (w₀.acts 0 (p.shared.log.map Prod.snd)).files := by
  induction hp with
  | refl =>
    show w₀.files = (w₀.acts 0 (w₀.log.map Prod.snd)).files
    rw [hlog]
    rfl
  | tail _ hstep ih =>
    cases hstep with
    | @run i t op k ht hop =>
      rcases handler_world (c := c) op t.loc _ with hsame | ⟨a,hact⟩
      · rw [hsame]
        exact ih
      · rw [hact,log_act,List.map_append,World.acts_append]
        exact files_act ih _ _ _
    | start ht => obtain ⟨_ | _⟩ | _ := ht <;> exact ih

/-- A file that was saved is under a name that can be read. -/
theorem PerformsAll.stays {as : List Action} {w : World} (hmirrors : Mirrors ids s w.files d) {path : StoragePath}
    {content : Bytes} (h : PerformsAll ids s as d d') (hmem : .save path content ∈ as) :
    s.Stays (ids.pathText path) ∧ LocalStorage.SafeName path.name := by
  induction as generalizing w d with
  | nil => cases hmem
  | cons a as ih =>
    obtain ⟨d₁,hstep,hrest⟩ := h
    rcases List.mem_cons.mp hmem with rfl | hmem
    · cases hstep with
      | @save fileId _ filename faults hok =>
        obtain ⟨-,hstorable,-⟩ := LocalStorage.run_save_ok hmirrors.base hok
        refine ⟨?_,LocalStorage.safeName_filename filename⟩
        rw [ids.pathText_storagePath]
        exact LocalStorage.stays_relativePath.mpr hstorable
    · exact ih (mirrors_act 0 hmirrors hstep) hrest hmem

/-- **What was uploaded is what is loaded.** On a disk that has done what the service did, a load of
the file of a new row that the system lets through returns what the row's request has uploaded. -/
theorem upload_loaded (hlog : w₀.log = []) (hw₀ : w₀.Filed .files)
    (hp : Pool.Reachable (Machine.handler c.processor) (Comes c) w₀ p) (hmirrors : Mirrors ids s w₀.files d)
    (hperforms : PerformsAll ids s (p.shared.log.map Prod.snd) d d') {i n : ℕ} {row : Document}
    (hrow : p.shared.db.documents (.drawn i n) = some row) : ∃ t content, p.threads[i]? = some t ∧
      t.label.Uploads row.filename content ∧ ∀ faults, faults (.read (ids.pathOf s row.filePath)) = none →
        ((s.load (ids.pathText row.filePath)).run (storageCalls faults) d').1 = .ok content := by
  obtain ⟨content,hfiled,-,huploaded⟩ := (filed_reachable hw₀ hp).documents _ row hrow
  obtain ⟨t,ht,huploads,hsaved⟩ := huploaded i n rfl
  refine ⟨t,content,ht,huploads,fun faults hread => ?_⟩
  have hmirrors' : Mirrors ids s p.shared.files d' := by
    rw [files_reachable hlog hp]
    exact mirrors_acts 0 hmirrors hperforms
  obtain ⟨hstays,hname⟩ := hperforms.stays hmirrors (List.mem_map_of_mem (f := Prod.snd) hsaved)
  exact (load_mirrors hmirrors' hname hstays hread).mpr hfiled.file

end Disk

section Sample
open Pathlib LocalStorage

/-- Ids by strokes. -/
def strokes : UuidText → String
  | ⟨.old n⟩ => String.ofList ('o' :: List.replicate n 'x')
  | ⟨.drawn run draw⟩ => String.ofList ('d' :: (List.replicate run 'r' ++ List.replicate draw 'x'))

theorem strokes_toList (id : UuidText) : ∀ a ∈ (strokes id).toList, a ∈ ['o','d','r','x'] := by
  obtain ⟨_ | _⟩ := id <;> simp only [strokes,String.toList_ofList] <;> intro a ha <;>
    simp only [List.mem_cons,List.mem_append,List.mem_replicate] at ha ⊢ <;> tauto

theorem strokes_injective : Function.Injective strokes := by
  rintro ⟨_ | ⟨run,draw⟩⟩ ⟨_ | ⟨run',draw'⟩⟩ h <;> have hlist := congrArg String.toList h <;>
    simp only [strokes,String.toList_ofList,List.cons.injEq] at hlist
  · rw [show _ = _ from List.replicate_left_inj.mp hlist.2]
  · exact absurd hlist.1 (by decide)
  · exact absurd hlist.1 (by decide)
  · have hrun := congrArg (List.count 'r') hlist.2
    have hdraw := congrArg (List.count 'x') hlist.2
    simp [List.count_replicate] at hrun hdraw
    rw [hrun,hdraw]

def strokeIds : IdTexts where
  text := strokes
  injective := strokes_injective
  safe id := by
    have hhead : ∃ a as, strokes id = String.ofList (a :: as) ∧ (a = 'o' ∨ a = 'd') := by
      obtain ⟨_ | _⟩ := id
      · exact ⟨_,_,rfl,.inl rfl⟩
      · exact ⟨_,_,rfl,.inr rfl⟩
    obtain ⟨a,as,heq,ha⟩ := hhead
    have hne : ∀ t : String, (∀ b bs, t.toList = b :: bs → b = '.') → strokes id ≠ t := fun t ht h => by
      have hdot := ht a as (by rw [← h,heq,String.toList_ofList])
      rcases ha with rfl | rfl <;> cases hdot
    refine ⟨⟨hne _ fun b bs h => ?_,hne _ fun b bs h => ?_,fun hmem => ?_⟩,hne _ fun b bs h => ?_⟩
    · cases h
    · exact (List.cons.inj h).1.symm
    · exact absurd (strokes_toList id _ hmem) (by decide)
    · exact (List.cons.inj h).1.symm
  noBackslash id hmem := absurd (strokes_toList id _ hmem) (by decide)

theorem srvDataDisk_mirrors : Mirrors strokeIds srvStorage emptyWorld.files srvDataDisk where
  base := by decide
  file path := by
    have hempty : ∀ n, srvDataDisk.tree.lookup (n :: srvStorage.base) = none :=
      (srvDataDisk.tree.names_eq_empty).mp (by decide)
    have hnone : srvDataDisk.tree.lookup (strokeIds.pathOf srvStorage path) = none :=
      FileTree.childless (by simp [hempty]) _
    simp [emptyWorld,FileTree.fileAt,hnone]

theorem filedRun_log : ∃ changes job, filedRun.2.2.log.map Prod.snd =
    [.save (storagePath (Uuid.drawn 0 0).str "agreement.pdf") [37,80,68,70],.commit changes,.enqueue job] :=
  ⟨_,_,rfl⟩

/-- The disk once it has done what the run did. -/
def filedDisk : StorageDisk :=
  ((srvStorage.save (strokes (Uuid.drawn 0 0).str) [37,80,68,70] "agreement.pdf").run (storageCalls noFaults)
    srvDataDisk).2

theorem filedRun_performed : PerformsAll strokeIds srvStorage (filedRun.2.2.log.map Prod.snd) srvDataDisk filedDisk := by
  obtain ⟨changes,job,hlog⟩ := filedRun_log
  have hid : safeName "file" (strokes (Uuid.drawn 0 0).str) = "d" :=
    strokeIds.safeName_text (Uuid.drawn 0 0).str
  have hname : safeName "uploaded.pdf" "agreement.pdf" = "agreement.pdf" :=
    safeName_eq_self ⟨by decide,by decide⟩ (by decide) _
  have hdir : srvStorage.dirOf (strokes (Uuid.drawn 0 0).str) = ["d","data","srv"] := congrArg (· :: srvStorage.base) hid
  have hfile : srvStorage.fileOf (strokes (Uuid.drawn 0 0).str) "agreement.pdf" = ["agreement.pdf","d","data","srv"] := by
    rw [LocalStorage.fileOf,hdir,hname]
  have hstorable : srvStorage.Storable (strokes (Uuid.drawn 0 0).str) "agreement.pdf" := by
    refine ⟨by decide,?_,?_⟩
    · rw [hid]
      decide
    · rw [hname]
      decide
  have hsaved : ((srvStorage.save (strokes (Uuid.drawn 0 0).str) [37,80,68,70] "agreement.pdf").run
      (storageCalls noFaults) srvDataDisk).1 = .ok (relativePath (strokes (Uuid.drawn 0 0).str) "agreement.pdf") :=
    save_succeeds (by decide) hstorable (.inl (by rw [hdir]; decide)) (by rw [hfile]; decide)
  rw [hlog]
  refine ⟨filedDisk,.save ?_,filedDisk,.commit,filedDisk,.enqueue,rfl⟩
  rw [strokeIds.pathText_storagePath]
  exact hsaved

theorem filedRun_loaded : ∃ row content, filedRun.2.2.db.documents (.drawn 0 0) = some row ∧
    ((srvStorage.load (strokeIds.pathText row.filePath)).run (storageCalls noFaults) filedDisk).1 = .ok content := by
  obtain ⟨row,hrow⟩ := filedRun_row
  obtain ⟨-,content,-,-,hload⟩ :=
    upload_loaded rfl (emptyWorld_filed _) filedRun_reachable srvDataDisk_mirrors filedRun_performed hrow
  exact ⟨row,content,hrow,hload noFaults rfl⟩

end Sample

end StructuredExtractor
