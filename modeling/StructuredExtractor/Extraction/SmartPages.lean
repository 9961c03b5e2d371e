import StructuredExtractor.Extraction.Pages
import Mathlib.Data.Finset.Sort

/-! # Smart extraction beside full extraction

The smart strategy collects the indices of its pages in a set. What it sends is what the
full strategy sends, with the blocks of the other pages left out.
-/
namespace StructuredExtractor

namespace PageStrategyRunner
variable {u : Unicode} {pages : List String}

section Selection

/-- One page of the loop in `select_pages`. -/
def selectPage (u : Unicode) (selected : Finset ℕ) (page : String × ℕ) : Finset ℕ :=
  let normalized := u.lower page.1
  if monetaryKeywords.any (Text.contains · normalized) then insert page.2 selected else selected

def selectedIndices (u : Unicode) (pages : List String) : Finset ℕ :=
  pages.zipIdx.foldl (selectPage u) {0,pages.length - 1}

/-- `select_pages` with its set; `none` would be an index that is out of range. -/
def selectPagesLoop (u : Unicode) (pages : List String) : Option (List (ℕ × String)) :=
  if pages = [] then some []
  else ((selectedIndices u pages).sort (· ≤ ·)).mapM fun pageIndex => (pages[pageIndex]?).map (pageIndex,·)

/-- A page that is sent: the first, the last, or one with a monetary keyword. -/
def Chosen (u : Unicode) (pages : List String) (i : ℕ) : Prop :=
  i = 0 ∨ i + 1 = pages.length ∨
    ∃ text ∈ pages[i]?, monetaryKeywords.any (Text.contains · (u.lower text)) = true

instance : DecidablePred (Chosen u pages) := fun i => inferInstanceAs (Decidable (i = 0 ∨ i + 1 = pages.length ∨
  ∃ text ∈ pages[i]?, monetaryKeywords.any (Text.contains · (u.lower text)) = true))

theorem mem_foldl_selectPage {i : ℕ} (l : List (String × ℕ)) (selected : Finset ℕ) :
    i ∈ l.foldl (selectPage u) selected ↔ i ∈ selected ∨
      ∃ page ∈ l, page.2 = i ∧ monetaryKeywords.any (Text.contains · (u.lower page.1)) = true := by
  induction l generalizing selected with
  | nil => simp
  | cons page l ih =>
    rw [List.foldl_cons,ih]
    have hstep : i ∈ selectPage u selected page ↔ i ∈ selected ∨
        page.2 = i ∧ monetaryKeywords.any (Text.contains · (u.lower page.1)) = true := by
      unfold selectPage
      dsimp only
      split
      · next h => simp [h,or_comm,eq_comm]
      · next h => simp [h]
    rw [hstep,or_assoc]
    simp only [List.mem_cons,exists_eq_or_imp]

theorem mem_selectedIndices {i : ℕ} (hpages : pages ≠ []) :
    i ∈ selectedIndices u pages ↔ i < pages.length ∧ Chosen u pages i := by
  have hlength := List.length_pos_iff.mpr hpages
  have hloop : (∃ page ∈ pages.zipIdx, page.2 = i ∧ monetaryKeywords.any (Text.contains · (u.lower page.1)) = true) ↔
      ∃ text ∈ pages[i]?, monetaryKeywords.any (Text.contains · (u.lower text)) = true := by
    constructor
    · rintro ⟨⟨text,j⟩,hmem,rfl,hkeyword⟩
      exact ⟨text,List.mk_mem_zipIdx_iff_getElem?.mp hmem,hkeyword⟩
    · rintro ⟨text,hmem,hkeyword⟩
      exact ⟨(text,i),List.mk_mem_zipIdx_iff_getElem?.mpr hmem,rfl,hkeyword⟩
  rw [selectedIndices,mem_foldl_selectPage,hloop,Finset.mem_insert,Finset.mem_singleton,Chosen]
  constructor
  · rintro ((rfl | rfl) | ⟨text,hmem,hkeyword⟩)
    · exact ⟨hlength,.inl rfl⟩
    · exact ⟨by omega,.inr (.inl (by omega))⟩
    · exact ⟨(List.getElem?_eq_some_iff.mp hmem).1,.inr (.inr ⟨text,hmem,hkeyword⟩)⟩
  · rintro ⟨-,rfl | hlast | hkeyword⟩
    · exact .inl (.inl rfl)
    · exact .inl (.inr (by omega))
    · exact .inr hkeyword

/-- The pages of the filter are those with an index that is chosen. -/
theorem selectPages_eq : selectPages u pages = pages.zipIdx.filter fun page => Chosen u pages page.2 := by
  unfold selectPages
  refine List.filter_congr fun page hpage => ?_
  have htext : pages[page.2]? = some page.1 := List.mk_mem_zipIdx_iff_getElem?.mp hpage
  rw [Bool.eq_iff_iff]
  simp [Chosen,htext,or_assoc]

theorem selectPages_increasing : ((selectPages u pages).map Prod.snd).Pairwise (· < ·) := by
  have hindices : (pages.zipIdx.map Prod.snd).Pairwise (· < ·) := by
    rw [List.zipIdx_map_snd]
    exact List.pairwise_lt_range'
  exact hindices.sublist (List.filter_sublist.map Prod.snd)

theorem sort_selectedIndices (hpages : pages ≠ []) :
    (selectedIndices u pages).sort (· ≤ ·) = (selectPages u pages).map Prod.snd := by
  have hincreasing := @selectPages_increasing u pages
  have hset : selectedIndices u pages = ((selectPages u pages).map Prod.snd).toFinset := by
    ext i
    rw [mem_selectedIndices hpages,List.mem_toFinset,List.mem_map,selectPages_eq]
    constructor
    · rintro ⟨hi,hchosen⟩
      exact ⟨(pages[i],i),List.mem_filter.mpr ⟨List.mk_mem_zipIdx_iff_getElem?.mpr (List.getElem?_eq_getElem hi),
        decide_eq_true hchosen⟩,rfl⟩
    · rintro ⟨⟨text,j⟩,hmem,rfl⟩
      obtain ⟨hmem,hchosen⟩ := List.mem_filter.mp hmem
      have htext := List.mk_mem_zipIdx_iff_getElem?.mp hmem
      exact ⟨(List.getElem?_eq_some_iff.mp htext).1,of_decide_eq_true hchosen⟩
  rw [hset]
  exact (List.toFinset_sort (· ≤ ·) (hincreasing.imp ne_of_lt)).mpr (hincreasing.imp le_of_lt)

/-- The loop finds the pages of the filter, each under its index. -/
theorem selectPagesLoop_eq : selectPagesLoop u pages = some ((selectPages u pages).map Prod.swap) := by
  unfold selectPagesLoop
  split
  · next h =>
    subst h
    rfl
  · next hpages =>
    have htext : ∀ page ∈ selectPages u pages, pages[page.2]? = some page.1 := fun page hpage =>
      List.mk_mem_zipIdx_iff_getElem?.mp (List.mem_of_mem_filter hpage)
    rw [sort_selectedIndices hpages]
    generalize selectPages u pages = selected at htext
    induction selected with
    | nil => rfl
    | cons page selected ih =>
      have hrest := ih fun page hpage => htext page (List.mem_cons_of_mem _ hpage)
      rw [List.map_cons,List.mapM_cons,hrest,htext page (List.mem_cons_self ..)]
      rfl

/-- What the loop selects: indices that increase, each with the text of its page, and of all
pages those that are chosen. -/
structure Selects (u : Unicode) (pages : List String) (selected : List (ℕ × String)) : Prop where
  increasing : (selected.map Prod.fst).Pairwise (· < ·)
  ownText : ∀ page ∈ selected, pages[page.1]? = some page.2
  chosen : ∀ i, i ∈ selected.map Prod.fst ↔ i < pages.length ∧ Chosen u pages i

theorem swapped_indices : ((selectPages u pages).map Prod.swap).map Prod.fst = (selectPages u pages).map Prod.snd := by
  rw [List.map_map]
  rfl

theorem selects_selectPages : Selects u pages ((selectPages u pages).map Prod.swap) where
  increasing := by
    rw [swapped_indices]
    exact selectPages_increasing
  ownText page hpage := by
    obtain ⟨⟨text,i⟩,hmem,rfl⟩ := List.mem_map.mp hpage
    exact List.mk_mem_zipIdx_iff_getElem?.mp (List.mem_of_mem_filter hmem)
  chosen i := by
    rw [swapped_indices]
    by_cases hpages : pages = []
    · subst hpages
      simp [selectPages]
    · rw [← sort_selectedIndices hpages,Finset.mem_sort,mem_selectedIndices hpages]

end Selection

section Sent
variable {strategy : ExtractionStrategy} {docType text text' : String} {sourcePages sourcePages' : List ℕ}
variable {program : TextExtractor → ModelProg StrategyExtractionResult}

/-- A strategy that asks the extractor once, for this text, and reports these pages. -/
def Sends (strategy : ExtractionStrategy) (docType : String)
    (program : TextExtractor → ModelProg StrategyExtractionResult) (text : String) (sourcePages : List ℕ) : Prop :=
  ∀ extract, program extract = do
    let x ← extract text docType
    return ⟨x.rawOutput,x.inputTokens,x.outputTokens,strategy,sourcePages,[],none⟩

/-- There is one text that a strategy sends, and one list of pages. -/
theorem Sends.unique (h : Sends strategy docType program text sourcePages)
    (h' : Sends strategy docType program text' sourcePages') : text = text' ∧ sourcePages = sourcePages' := by
  constructor
  · have hraised := (h fun text _ => throw (.other text)).symm.trans (h' _)
    cases hraised
    rfl
  · have hreturned := (h fun _ _ => pure ⟨.null,0,0⟩).symm.trans (h' _)
    cases hreturned
    rfl

/-- The blocks of all pages. -/
def pageBlocks (pages : List String) : List String := pages.mapIdx formatPage

/-- The blocks of the chosen pages. -/
def chosenBlocks (u : Unicode) (pages : List String) : List String :=
  ((pageBlocks pages).zipIdx.filter fun block => Chosen u pages block.2).map Prod.fst

theorem pageBlocks_eq : pageBlocks pages = pages.zipIdx.map fun page => formatPage page.2 page.1 := by
  rw [pageBlocks,List.mapIdx_eq_zipIdx_map]

theorem sends_full : Sends .full docType (extractFullDocument · pages docType) ("\n\n".intercalate (pageBlocks pages))
    (List.range pages.length) := fun extract => by
  rw [pageBlocks_eq]
  rfl

theorem chosenBlocks_eq : chosenBlocks u pages = (selectPages u pages).map fun page => formatPage page.2 page.1 := by
  have hindexed : (pageBlocks pages).zipIdx = pages.zipIdx.map fun page => (formatPage page.2 page.1,page.2) := by
    refine List.ext_getElem? fun i => ?_
    cases h : pages[i]? <;> simp [pageBlocks,h]
  rw [chosenBlocks,hindexed,List.filter_map,List.map_map,selectPages_eq]
  rfl

theorem sends_smart : Sends .smart docType (extractSmart · u pages docType) ("\n\n".intercalate (chosenBlocks u pages))
    ((selectPages u pages).map Prod.snd) := fun extract => by
  rw [chosenBlocks_eq]
  rfl

/-- When every page is chosen, nothing is left out. -/
theorem selectPages_all (h : ∀ i < pages.length, Chosen u pages i) : selectPages u pages = pages.zipIdx := by
  rw [selectPages_eq]
  refine List.filter_eq_self.mpr fun page hpage => decide_eq_true (h _ ?_)
  exact (List.getElem?_eq_some_iff.mp (List.mk_mem_zipIdx_iff_getElem?.mp hpage)).1

theorem chosen_of_two (h : pages.length ≤ 2) (i : ℕ) (hi : i < pages.length) : Chosen u pages i := by
  by_cases hfirst : i = 0
  · exact .inl hfirst
  · exact .inr (.inl (by omega))

end Sent

end PageStrategyRunner

end StructuredExtractor
