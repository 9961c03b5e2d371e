import StructuredExtractor.Extraction.MergeForm
import StructuredExtractor.Extraction.PageAccounts
import StructuredExtractor.Extraction.Raised
import StructuredExtractor.Extraction.SmartPages

/-! # What a result tells of its pages

Every strategy names the pages that its output came from and the pages that it skipped,
and what is kept for the audit holds the output that was validated. So a result of the
processor can be traced back, and its validation and scores computed again.
-/
namespace StructuredExtractor
open PageStrategyRunner Merge

/-- Pages in their order, all of them among the first `count`. -/
structure PagesBelow (count : ℕ) (pages : List ℕ) : Prop where
  increasing : pages.Pairwise (· < ·)
  below : ∀ n ∈ pages, n < count

/-- The output in what is kept for the audit: page extraction keeps it beside its sources. -/
def auditedOutput (strategy : String) (raw : Json) : Option Json :=
  if strategy = ExtractionStrategy.pageByPage.value then
    match raw with
    | .obj d => d.lookup "merged_output"
    | _ => none
  else some raw

/-- The audit output, the sources and the warnings of a result over `count` pages. -/
structure StrategyExtractionResult.Traced (count : ℕ) (r : StrategyExtractionResult) : Prop where
  output : auditedOutput r.strategy.value r.auditOutput = some r.rawOutput
  sources : PagesBelow count r.sourcePages
  skipped : ∃ failed, PagesBelow count failed ∧ r.warnings = failed.map skipWarning ∧ ∀ n ∈ failed, n ∉ r.sourcePages

section Pages
variable {V : (op : ModelOp) → Except Exc op.Reply → Prop} (extract : TextExtractor) (docType : String)

/-- What the loop has skipped before page `k` is no page that it kept. -/
structure PageStrategyRunner.PageTotals.Tracks (t : PageTotals) (k : ℕ) : Prop where
  order : InOrder t.perPage k
  failed : ∃ failed, PagesBelow k failed ∧ t.warnings = failed.map skipWarning ∧ ∀ n ∈ failed, n ∉ t.perPage.map Prod.snd

theorem PagesBelow.mono {k k' : ℕ} {pages : List ℕ} (h : PagesBelow k pages) (hk : k ≤ k') : PagesBelow k' pages :=
  ⟨h.increasing,fun n hn => (h.below n hn).trans_le hk⟩

theorem PagesBelow.append {k : ℕ} {pages : List ℕ} (h : PagesBelow k pages) : PagesBelow (k + 1) (pages ++ [k]) := by
  constructor
  · refine List.pairwise_append.mpr ⟨h.increasing,List.pairwise_singleton _ _,fun m hm n hn => ?_⟩
    obtain rfl := List.mem_singleton.mp hn
    exact h.below m hm
  · intro n hn
    obtain hn | hn := List.mem_append.mp hn
    · have hlt := h.below n hn
      omega
    · obtain rfl := List.mem_singleton.mp hn
      exact Nat.lt_succ_self _

theorem PageStrategyRunner.PageTotals.Tracks.mono {t : PageTotals} {k k' : ℕ} (h : t.Tracks k) (hk : k ≤ k') :
    t.Tracks k' := by
  obtain ⟨failed,hbelow,hrest⟩ := h.failed
  exact ⟨h.order.mono hk,failed,hbelow.mono hk,hrest⟩

theorem tracks_skip {t : PageTotals} {k : ℕ} (h : t.Tracks k) (e : ExtractionError) : (t.skip k e).Tracks (k + 1) := by
  obtain ⟨failed,hbelow,hwarnings,hkept⟩ := h.failed
  refine ⟨h.order.mono (Nat.le_succ k),failed ++ [k],hbelow.append,?_,fun n hn => ?_⟩
  · rw [List.map_append,← hwarnings]
    rfl
  · obtain hn | hn := List.mem_append.mp hn
    · exact hkept n hn
    · obtain rfl := List.mem_singleton.mp hn
      exact fun hmem => Nat.lt_irrefl _ (h.order.below _ hmem)

theorem tracks_add {t t' : PageTotals} {k : ℕ} (h : t.Tracks k) {x : Extracted} (hadd : t.add k x = .ok t') :
    t'.Tracks (k + 1) := by
  refine ⟨inOrder_add h.order hadd,?_⟩
  obtain ⟨failed,hbelow,hwarnings,hkept⟩ := h.failed
  refine ⟨failed,hbelow.mono (Nat.le_succ k),?_⟩
  unfold PageTotals.add at hadd
  split at hadd
  · cases hadd
    refine ⟨hwarnings,fun n hn => ?_⟩
    dsimp only
    split
    · rw [List.map_append,List.mem_append,not_or]
      refine ⟨hkept n hn,fun hmem => ?_⟩
      obtain rfl := List.mem_singleton.mp hmem
      exact Nat.lt_irrefl _ (hbelow.below _ hn)
    · exact hkept n hn
  · cases hadd

theorem given_tracked {t : PageTotals} {page : String × ℕ} (h : t.Tracks page.2) :
    (pageStep extract docType t page).Given V fun r => ∀ t', r = .ok t' → t'.Tracks (page.2 + 1) := by
  have hlater : t.Tracks (page.2 + 1) := h.mono (Nat.le_succ _)
  unfold pageStep
  split
  · rintro t' ⟨⟩
    exact hlater
  · refine Prog.given_bind (Prog.given_any _) (fun attempt _ => ?_) fun e _ t' he => by cases he
    cases attempt with
    | error e =>
      rintro t' ⟨⟩
      exact tracks_skip h e
    | ok x => exact fun t' ht' => tracks_add h ht'

theorem given_tracked_pages (pages : List String) (k : ℕ) {t : PageTotals} (h : t.Tracks k) :
    ((pages.zipIdx k).foldlM (pageStep extract docType) t).Given V
      fun r => ∀ t', r = .ok t' → t'.Tracks (k + pages.length) := by
  induction pages generalizing k t with
  | nil =>
    rintro t' ⟨⟩
    exact h
  | cons page pages ih =>
    rw [List.zipIdx_cons,List.foldlM_cons,List.length_cons,← Nat.add_assoc,Nat.add_right_comm]
    exact Prog.given_bind (given_tracked extract docType h) (fun t' ht' => ih (k + 1) (ht' t' rfl))
      fun e _ t' he => by cases he

/-- The sources of a merge are pages whose output was kept. -/
theorem source_kept {s : Schema} {perPage : List (Dict × ℕ)} {m : Merged} (h : ClosedForm s perPage m)
    {p : String × List ℕ} (hp : p ∈ m.fieldSourcePages) {n : ℕ} (hn : n ∈ p.2) : n ∈ perPage.map Prod.snd := by
  have hlook := (Keyed.mem_iff_lookup (h.inStep.keys ▸ h.inStep.nodup) p).mp hp
  obtain ⟨before,v,after,hsplit,-⟩ := ((h.pages p.1 p.2 hlook).2 n).mp hn
  refine (usefulPages_sublist perPage p.1).subset ?_
  rw [hsplit]
  simp

theorem auditedOutput_merged {r : StrategyExtractionResult} {sources : List (String × List ℕ)}
    (hstrategy : r.strategy = .pageByPage) (hsources : r.fieldSourcePages = some sources) :
    auditedOutput r.strategy.value r.auditOutput = some r.rawOutput := by
  cases r
  subst hstrategy hsources
  rfl

theorem traced_finish {pages : List String} {t : PageTotals} (ht : t.Tracks pages.length)
    {r : StrategyExtractionResult} (hr : finish pages docType t = .ok r) : r.Traced pages.length := by
  have hschema : ∃ s, SchemaRegistry.getSchema docType = .ok s := by
    unfold finish at hr
    split at hr
    · cases hr
    · obtain ⟨m,hm,-⟩ := bind_eq_ok hr
      obtain ⟨s,hs,-⟩ := bind_eq_ok hm
      exact ⟨s,hs⟩
  obtain ⟨s,hs⟩ := hschema
  obtain ⟨m,hmerge,hform,hraw,hsources,hinc,hmem⟩ := closedForm_finish docType hs ht.order hr
  have hkept : ∀ n ∈ r.sourcePages, n ∈ t.perPage.map Prod.snd := fun n hn => by
    obtain ⟨p,hp,hnp⟩ := (hmem n).mp hn
    exact source_kept hform hp hnp
  obtain ⟨failed,hbelow,hwarnings,hapart⟩ := ht.failed
  have hfinish : r.strategy = .pageByPage ∧ r.warnings = t.warnings := by
    rw [finish,hmerge] at hr
    split at hr
    · cases hr
    · cases hr
      exact ⟨rfl,rfl⟩
  refine ⟨?_,⟨hinc,fun n hn => ht.order.below n (hkept n hn)⟩,failed,hbelow,hfinish.2.trans hwarnings,
    fun n hn hsource => hapart n hn (hkept n hsource)⟩
  exact auditedOutput_merged hfinish.1 hsources

/-- **Every strategy's result can be traced**, whatever the extractor replies. -/
theorem extractFromPages_traced (u : Unicode) (pages : List String) (strategy : ExtractionStrategy) :
    (extractFromPages extract u pages docType strategy).Given V fun o => ∀ r, o = .ok r → r.Traced pages.length := by
  cases strategy with
  | full =>
    refine Prog.given_bind (Prog.given_any _) (fun x _ => ?_) fun e _ r he => by cases he
    rintro r ⟨⟩
    exact ⟨rfl,⟨List.pairwise_lt_range,fun n hn => List.mem_range.mp hn⟩,[],⟨.nil,by simp⟩,rfl,by simp⟩
  | smart =>
    refine Prog.given_bind (Prog.given_any _) (fun x _ => ?_) fun e _ r he => by cases he
    rintro r ⟨⟩
    refine ⟨rfl,⟨selectPages_increasing,fun n hn => ?_⟩,[],⟨.nil,by simp⟩,rfl,by simp⟩
    obtain ⟨p,hp,rfl⟩ := List.mem_map.mp hn
    have hpage := List.mem_zipIdx (List.mem_filter.mp hp).1
    omega
  | pageByPage =>
    refine Prog.given_bind (given_tracked_pages extract docType pages 0 ⟨⟨.nil,by simp [PageTotals.init]⟩,[],
      ⟨.nil,by simp⟩,rfl,by simp⟩) (fun t ht r hr => ?_) fun e _ r he => by cases he
    have htracks := ht t rfl
    rw [Nat.zero_add] at htracks
    exact traced_finish docType htracks hr

end Pages

section Processing
open DocumentProcessor
variable (p : DocumentProcessor) (e : ModelEnv)

/-- A result of the pipeline over `count` pages, with all that it was computed from. -/
structure PipelineResult.Explained (L : Libraries) (count : ℕ) (r : PipelineResult) : Prop where
  docType : r.docType ∈ SchemaRegistry.listTypes
  traced : r.extraction.Traced count
  validated : Validation.validateExtraction L.pydantic L.unicode r.docType r.extraction.rawOutput = .ok r.validation
  scored : Confidence.scoreConfidenceMap L.unicode r.docType r.validation.extractedData = .ok r.confidenceMap
  warnings : r.warnings = r.validation.warnings ++ r.extraction.warnings

/-- An outcome of processing `count` pages: a result, or an error with a type that is known. -/
def OutcomeExplained (L : Libraries) (count : ℕ) : Except Exc DocumentProcessingResult → Prop
  | .ok r => r.pipeline.Explained L count
  | .error (.documentProcessing resolved _) => resolved.docType ∈ SchemaRegistry.listTypes
  | .error _ => True

theorem resolveExtractionInput_type (input : ProcessingInput) :
    (resolveExtractionInput p input).Given (fun _ _ => True) fun r =>
      ∀ resolved, r = .ok resolved → resolved.docType ∈ SchemaRegistry.listTypes := by
  refine Prog.given_bind (Prog.given_any _) (fun classified _ => ?_) fun e _ resolved h => by cases h
  refine Prog.given_bind (R := fun r => ∀ a, r = .ok a → classified.1 ∈ SchemaRegistry.listTypes) ?_ (fun _ htype => ?_)
    fun e _ resolved h => by cases h
  · intro _ h
    unfold validateDocType at h
    split at h
    · assumption
    · cases h
  · refine Prog.given_bind (Prog.given_any _) (fun strategy _ => ?_) fun e _ resolved h => by cases h
    rintro resolved ⟨⟩
    exact htype _ rfl

theorem resultOf_explained {docType : String} {durationMs : ℤ} {extraction : StrategyExtractionResult} {count : ℕ}
    {r : PipelineResult} (htype : docType ∈ SchemaRegistry.listTypes) (htraced : extraction.Traced count)
    (h : resultOf p docType durationMs extraction = .ok r) : r.Explained p.libraries count := by
  obtain ⟨validation,hvalidated,h⟩ := bind_eq_ok h
  obtain ⟨scores,hscored,h⟩ := bind_eq_ok h
  cases h
  exact ⟨htype,htraced,hvalidated,hscored,rfl⟩

/-- **What the processor returns is explained by what it holds.** -/
theorem processPages_explained (input : ProcessingInput) :
    OutcomeExplained p.libraries input.pages.length ((processPages p input).run ModelEnv.handler e).1 := by
  have htype := (resolveExtractionInput_type p input).run (h := ModelEnv.handler) (fun _ _ => trivial) e
  have hinner := (resolveExtractionInput_plain p input).run ModelEnv.handler e
  rw [run_processPages]
  revert htype hinner
  rcases (resolveExtractionInput p input).run ModelEnv.handler e with ⟨x | resolved,e'⟩
  · intro _ hinner
    have hx := hinner x rfl
    cases x with
    | documentProcessing resolved error => exact hx.elim
    | _ => trivial
  · intro htype _
    have hresolved : resolved.docType ∈ SchemaRegistry.listTypes := htype resolved rfl
    have hraises := runResolved_raises p input.pages resolved.docType resolved.strategy e'
    dsimp only
    rw [run_runResolved] at hraises ⊢
    have htraced := (extractFromPages_traced (V := fun _ _ => True) (ToolCallExtractor.extract p.libraries p.extractor)
      resolved.docType p.libraries.unicode input.pages resolved.strategy).run (h := ModelEnv.handler)
      (fun _ _ => trivial) e'.tick
    rw [show PageStrategyRunner.extractFromPages _ _ _ _ _ = extraction p input.pages resolved.docType resolved.strategy
      from rfl] at htraced
    revert htraced hraises
    rcases (extraction p input.pages resolved.docType resolved.strategy).run ModelEnv.handler e'.tick with ⟨x | r,e''⟩
    · intro hraises _
      have hx := hraises x rfl
      cases x with
      | documentProcessing resolved error => exact hx.elim
      | extraction error => exact hresolved
      | _ => trivial
    · intro hraises htraced
      dsimp only at hraises ⊢
      cases hr : resultOf p resolved.docType (durationMs e'.clock.head e''.clock.head) r with
      | ok pipeline => exact resultOf_explained p hresolved (htraced r rfl) hr
      | error x =>
        have hbare := resultOf_raises p _ _ _ x hr
        cases x with
        | documentProcessing resolved error => exact hbare.elim
        | extraction error => exact hbare.elim
        | _ => trivial

end Processing

end StructuredExtractor
