import StructuredExtractor.Extraction.Pages
import Mathlib.Algebra.BigOperators.Group.List.Basic

/-! # The accounts of the page loop

The extractor is asked once for each page that is not blank, one page after the other.
What the loop returns or raises is a function of the outcomes of these calls.
-/
namespace StructuredExtractor.PageStrategyRunner

/-- The pages that are not blank, with their numbers. -/
def nonBlank (pages : List (String × ℕ)) : List (String × ℕ) := pages.filter fun p => Text.strip p.1 ≠ ""

/-- What the extraction of a page comes to. -/
inductive PageOutcome
  | extracted (output : Dict) (inputTokens outputTokens : ℕ)
  | failed (e : ExtractionError)

namespace PageOutcome

def result : PageOutcome → Except Exc Extracted
  | .extracted output inputTokens outputTokens => .ok ⟨.obj output,inputTokens,outputTokens⟩
  | .failed e => .error (.extraction e)

/-- The same once the loop has caught the error. -/
def attempt : PageOutcome → Except ExtractionError Extracted
  | .extracted output inputTokens outputTokens => .ok ⟨.obj output,inputTokens,outputTokens⟩
  | .failed e => .error e

def inputTokens : PageOutcome → ℕ
  | .extracted _ inputTokens _ => inputTokens
  | .failed e => e.inputTokens

def outputTokens : PageOutcome → ℕ
  | .extracted _ _ outputTokens => outputTokens
  | .failed e => e.outputTokens

def isFailed : PageOutcome → Bool
  | .extracted _ _ _ => false
  | .failed _ => true

/-- The output has a useful value. -/
def isUseful : PageOutcome → Bool
  | .extracted output _ _ => Merge.hasUsefulExtraction output
  | .failed _ => false

/-- The output that goes into the merge. -/
def useful? : PageOutcome → Option Dict
  | .extracted output _ _ => if Merge.hasUsefulExtraction output then some output else none
  | .failed _ => none

theorem useful?_eq_none {o : PageOutcome} : o.useful? = none ↔ o.isUseful = false := by
  cases o with
  | extracted output i o => cases h : Merge.hasUsefulExtraction output <;> simp [useful?,isUseful,h]
  | failed e => exact ⟨fun _ => rfl,fun _ => rfl⟩

end PageOutcome

/-- The pages whose extraction failed, in order. -/
def failedPages (outcomes : List (ℕ × PageOutcome)) : List ℕ :=
  (outcomes.filter fun o => o.2.isFailed).map Prod.fst

def skipWarning (pageIndex : ℕ) : String := "page " ++ toString pageIndex ++ ": extraction failed and was skipped"

/-- The totals once some pages came to their outcomes. -/
def PageTotals.after (t : PageTotals) (outcomes : List (ℕ × PageOutcome)) : PageTotals where
  perPage := t.perPage ++ outcomes.filterMap fun o => o.2.useful?.map (·,o.1)
  inputTokens := t.inputTokens + (outcomes.map fun o => o.2.inputTokens).sum
  outputTokens := t.outputTokens + (outcomes.map fun o => o.2.outputTokens).sum
  failures := t.failures + (failedPages outcomes).length
  warnings := t.warnings ++ (failedPages outcomes).map skipWarning

theorem PageTotals.after_nil (t : PageTotals) : t.after [] = t := by simp [PageTotals.after,failedPages]

theorem PageTotals.after_cons (t : PageTotals) (o : ℕ × PageOutcome) (outcomes : List (ℕ × PageOutcome)) :
    t.after (o :: outcomes) = (t.after [o]).after outcomes := by
  obtain ⟨n,o⟩ := o
  cases o with
  | extracted output i j =>
    cases h : Merge.hasUsefulExtraction output <;>
      simp [PageTotals.after,failedPages,PageOutcome.useful?,PageOutcome.isFailed,h,Nat.add_assoc]
  | failed e =>
    simp [PageTotals.after,failedPages,PageOutcome.useful?,PageOutcome.isFailed,Nat.add_assoc,Nat.add_comm 1]

section
variable {σ : Type} (h : Handler ModelOp.Reply Exc σ) (extract : TextExtractor) (docType : String)

/-- The extractor is asked for some pages one after the other, each once, and answers with
the outcomes. -/
inductive Calls : List (String × ℕ) → σ → List (ℕ × PageOutcome) → σ → Prop
  | nil (st : σ) : Calls [] st [] st
  | cons {page : String × ℕ} {pages : List (String × ℕ)} {st mid st' : σ} {outcome : PageOutcome}
      {outcomes : List (ℕ × PageOutcome)} :
      (extract (formatPage page.2 page.1) docType).run h st = (outcome.result,mid) →
      Calls pages mid outcomes st' → Calls (page :: pages) st ((page.2,outcome) :: outcomes) st'

variable {h extract docType}

theorem run_attemptPage {page : String × ℕ} {st mid : σ} {outcome : PageOutcome}
    (hcall : (extract (formatPage page.2 page.1) docType).run h st = (outcome.result,mid)) :
    (attemptPage extract page.2 page.1 docType).run h st = (.ok outcome.attempt,mid) := by
  rw [attemptPage,Prog.run_tryCatch,Prog.run_map,hcall]
  cases outcome <;> rfl

/-- A page that is not blank costs one call. -/
theorem run_pageStep {page : String × ℕ} (hpage : Text.strip page.1 ≠ "") {st mid : σ} {outcome : PageOutcome}
    (hcall : (extract (formatPage page.2 page.1) docType).run h st = (outcome.result,mid)) (t : PageTotals) :
    (pageStep extract docType t page).run h st = (.ok (t.after [(page.2,outcome)]),mid) := by
  rw [pageStep,if_neg hpage,Prog.run_bind,run_attemptPage hcall]
  cases outcome with
  | extracted output i o =>
    cases hu : Merge.hasUsefulExtraction output <;>
      simp [PageOutcome.attempt,PageTotals.add,PageTotals.after,failedPages,PageOutcome.useful?,PageOutcome.isFailed,
        PageOutcome.inputTokens,PageOutcome.outputTokens,hu]
  | failed e =>
    simp [PageOutcome.attempt,PageTotals.skip,PageTotals.after,failedPages,PageOutcome.useful?,PageOutcome.isFailed,
      PageOutcome.inputTokens,PageOutcome.outputTokens,skipWarning]

/-- The loop makes the calls of the pages that are not blank, and no others. -/
theorem run_pages {pages : List (String × ℕ)} {st st' : σ} {outcomes : List (ℕ × PageOutcome)}
    (hcalls : Calls h extract docType (nonBlank pages) st outcomes st') (t : PageTotals) :
    (pages.foldlM (pageStep extract docType) t).run h st = (.ok (t.after outcomes),st') := by
  induction pages generalizing st outcomes t with
  | nil =>
    cases hcalls
    rw [t.after_nil]
    rfl
  | cons page pages ih =>
    rw [List.foldlM_cons,Prog.run_bind]
    by_cases hpage : Text.strip page.1 = ""
    · rw [nonBlank,List.filter_cons_of_neg (by simpa using hpage)] at hcalls
      rw [pageStep,if_pos hpage]
      exact ih hcalls t
    · rw [nonBlank,List.filter_cons_of_pos (by simpa using hpage)] at hcalls
      cases hcalls with
      | @cons _ _ _ _ _ outcome rest hcall hrest =>
        rw [t.after_cons (page.2,outcome) rest,run_pageStep hpage hcall]
        exact ih hrest _

theorem PageTotals.after_perPage_isEmpty {outcomes : List (ℕ × PageOutcome)} :
    (PageTotals.init.after outcomes).perPage.isEmpty = true ↔ ∀ o ∈ outcomes, o.2.isUseful = false := by
  simp only [PageTotals.after,PageTotals.init,List.nil_append,List.isEmpty_iff,List.filterMap_eq_nil_iff,
    Option.map_eq_none_iff,PageOutcome.useful?_eq_none]

theorem failedPages_ne_zero {outcomes : List (ℕ × PageOutcome)} :
    (failedPages outcomes).length ≠ 0 ↔ ∃ o ∈ outcomes, o.2.isFailed = true := by
  rw [failedPages,List.length_map,ne_eq,List.length_eq_zero_iff,List.filter_eq_nil_iff]
  simp

theorem failures_and_empty {outcomes : List (ℕ × PageOutcome)} :
    ((PageTotals.init.after outcomes).failures ≠ 0 && (PageTotals.init.after outcomes).perPage.isEmpty) = true ↔
      (∃ o ∈ outcomes, o.2.isFailed = true) ∧ ∀ o ∈ outcomes, o.2.isUseful = false := by
  rw [Bool.and_eq_true,PageTotals.after_perPage_isEmpty,decide_eq_true_eq,← failedPages_ne_zero]
  simp [PageTotals.after,PageTotals.init]

theorem finish_allFailed {pages : List String} {outcomes : List (ℕ × PageOutcome)}
    (hfail : (∃ o ∈ outcomes, o.2.isFailed = true) ∧ ∀ o ∈ outcomes, o.2.isUseful = false) :
    finish pages docType (PageTotals.init.after outcomes) = .error (allFailed (PageTotals.init.after outcomes)) := by
  rw [finish,if_pos (failures_and_empty.mpr hfail)]
  rfl

theorem finish_merged {pages : List String} {outcomes : List (ℕ × PageOutcome)}
    (hfail : ¬((∃ o ∈ outcomes, o.2.isFailed = true) ∧ ∀ o ∈ outcomes, o.2.isUseful = false)) :
    finish pages docType (PageTotals.init.after outcomes) =
      (Merge.mergeResults (PageTotals.init.after outcomes).perPage docType).map fun m =>
        ⟨.obj m.merged,(PageTotals.init.after outcomes).inputTokens,(PageTotals.init.after outcomes).outputTokens,
          .pageByPage,sourcePagesOf pages.length m.fieldSourcePages,(PageTotals.init.after outcomes).warnings,
          some m.fieldSourcePages⟩ := by
  rw [finish,if_neg fun hboth => hfail (failures_and_empty.mp hboth)]
  cases Merge.mergeResults (PageTotals.init.after outcomes).perPage docType <;> rfl

/-- **The accounts of a run over the pages.** Its calls are those of the pages that are not blank,
in order. It raises an extraction error exactly when a page failed and no page was useful. Its
tokens are those of all calls, its warnings name the failed pages, and so many are the attempts. -/
theorem page_accounts {pages : List String} {st st' : σ} {outcomes : List (ℕ × PageOutcome)}
    (hcalls : Calls h extract docType (nonBlank pages.zipIdx) st outcomes st') :
    ((extractPageByPage extract pages docType).run h st).2 = st' ∧
    ((∃ e, ((extractPageByPage extract pages docType).run h st).1 = .error (.extraction e)) ↔
      (∃ o ∈ outcomes, o.2.isFailed = true) ∧ ∀ o ∈ outcomes, o.2.isUseful = false) ∧
    (∀ e, ((extractPageByPage extract pages docType).run h st).1 = .error (.extraction e) →
      e.inputTokens = (outcomes.map fun o => o.2.inputTokens).sum ∧
      e.outputTokens = (outcomes.map fun o => o.2.outputTokens).sum ∧ e.attempts = (failedPages outcomes).length) ∧
    (∀ r, ((extractPageByPage extract pages docType).run h st).1 = .ok r →
      r.inputTokens = (outcomes.map fun o => o.2.inputTokens).sum ∧
      r.outputTokens = (outcomes.map fun o => o.2.outputTokens).sum ∧
      r.warnings = (failedPages outcomes).map skipWarning) ∧
    ∀ s, SchemaRegistry.getSchema docType = .ok s →
      ¬((∃ o ∈ outcomes, o.2.isFailed = true) ∧ ∀ o ∈ outcomes, o.2.isUseful = false) →
      ∃ r, ((extractPageByPage extract pages docType).run h st).1 = .ok r := by
  have hrun : (extractPageByPage extract pages docType).run h st =
      (finish pages docType (PageTotals.init.after outcomes),st') := by
    rw [extractPageByPage,Prog.run_bind,run_pages hcalls]
    rfl
  rw [hrun]
  by_cases hfail : (∃ o ∈ outcomes, o.2.isFailed = true) ∧ ∀ o ∈ outcomes, o.2.isUseful = false
  · rw [finish_allFailed hfail]
    refine ⟨rfl,iff_of_true ⟨_,rfl⟩ hfail,fun e he => ?_,fun r hr => (by cases hr),fun s _ hnot => absurd hfail hnot⟩
    cases he
    simp [PageTotals.after,PageTotals.init]
  · rw [finish_merged hfail]
    cases hs : SchemaRegistry.getSchema docType with
    | error e =>
      have hkey := SchemaRegistry.getSchema_error hs
      rw [Merge.mergeResults,hs]
      refine ⟨rfl,iff_of_false ?_ hfail,?_,fun r hr => (by cases hr),fun s hs' => (by cases hs')⟩
      · rintro ⟨e',he'⟩
        cases he'
        cases hkey
      · intro e' he'
        cases he'
        cases hkey
    | ok s =>
      rw [Merge.mergeResults,hs]
      refine ⟨rfl,iff_of_false ?_ hfail,fun e he => (by cases he),?_,fun _ _ _ => ⟨_,rfl⟩⟩
      · rintro ⟨e,he⟩
        cases he
      · intro r hr
        cases hr
        simp [PageTotals.after,PageTotals.init]

end

/-- An extractor that fails on one text. -/
def failsOn (text : String) : TextExtractor := fun text' _ =>
  if text' = text then throw (.extraction ⟨"LLM tool-call extraction failed",1,3,1⟩)
  else pure ⟨.obj [("currency",.str "USD")],5,2⟩

/-- Three pages: the first fails, the second is blank, the third has a value. -/
theorem page_accounts_three : ∃ r, ((extractPageByPage (failsOn "Page 0:\na") ["a"," ","b"] "invoice").run
    (fun _ s => (.error .keyError,s)) ()).1 = .ok r ∧ r.inputTokens = 8 ∧ r.warnings = [skipWarning 0] := by
  have hcalls : Calls (fun _ (s : Unit) => (.error .keyError,s)) (failsOn "Page 0:\na") "invoice"
      (nonBlank ["a"," ","b"].zipIdx) ()
      [(0,.failed ⟨"LLM tool-call extraction failed",1,3,1⟩),(2,.extracted [("currency",.str "USD")] 5 2)] () :=
    .cons rfl (.cons rfl (.nil ()))
  obtain ⟨-,-,-,hok,hdone⟩ := page_accounts hcalls
  obtain ⟨r,hr⟩ := hdone Documents.invoiceSchema rfl (by decide)
  exact ⟨r,hr,(hok r hr).1,(hok r hr).2.2⟩

end StructuredExtractor.PageStrategyRunner
