import StructuredExtractor.Extraction.MergedFields
import StructuredExtractor.Extraction.Pages
import StructuredExtractor.Extraction.Provider

/-! # One page, as a whole and page by page

On one page both strategies send the same text. The page strategy then drops the
values that are not useful, and the two results are compared through what is
dropped.
-/
namespace StructuredExtractor
open Merge Validation

section Dropped
variable (P : Pydantic) (u : Unicode) (s : Schema)

def Validates (d : Dict) : Prop := ∃ r, s.modelValidate P u (.obj d) = .ok r

/-- The useful values of the schema fields. -/
def usefulPart (d : Dict) : Dict :=
  s.fields.filterMap fun f => ((d.lookup f.name).filter isUsefulValue).map fun v => (f.name,v)

/-- When dropping the values that are not useful makes no difference: every one of
them that its field accepts is the null of an optional field; none that an
optional field rejects keeps the rest from validating; and a null of an optional
field is not all that an invalid object has to recover. -/
structure OnePageSafe (d : Dict) : Prop where
  accepted : ∀ f ∈ s.fields, ∀ v, d.lookup f.name = some v → isUsefulValue v = false →
    P.accepts u f v = true → v = .null ∧ f.required = false
  rejected : ∀ f ∈ s.fields, ∀ v, d.lookup f.name = some v → isUsefulValue v = false →
    P.accepts u f v = false → f.required = false → ¬Validates P u s (usefulPart s d)
  nulls : ∀ f ∈ s.fields, d.lookup f.name = some .null → f.required = false → ¬Validates P u s d →
    ∃ g ∈ s.fields, ∃ v, d.lookup g.name = some v ∧ isUsefulValue v = true ∧ P.accepts u g v = true

end Dropped

section Compare
variable {P : Pydantic} {u : Unicode} {s : Schema} {d w : Dict}

/-- The two objects agree on the schema fields. -/
def SameFields (s : Schema) (d w : Dict) : Prop := ∀ f ∈ s.fields, d.lookup f.name = w.lookup f.name

/-- `w` has the useful values of `d` and no others. -/
def UsefulOf (s : Schema) (d w : Dict) : Prop :=
  ∀ f ∈ s.fields, w.lookup f.name = (d.lookup f.name).filter isUsefulValue

theorem usefulPart_usefulOf (hn : (s.fields.map FieldInfo.name).Nodup) :
    UsefulOf s d (usefulPart s d) := by
  exact fun f hf => Keyed.lookup_filterMap_of_mem hn hf _

theorem modelValidate_congr (h : SameFields s d w) :
    s.modelValidate P u (.obj d) = s.modelValidate P u (.obj w) := by
  have hmap : s.fields.map (P.fieldOf u d) = s.fields.map (P.fieldOf u w) :=
    List.map_congr_left fun f hf => by unfold Pydantic.fieldOf; rw [h f hf]
  rw [Schema.modelValidate_obj,Schema.modelValidate_obj,hmap]

theorem UsefulOf.useful (hw : UsefulOf s d w) {f : FieldInfo} (hf : f ∈ s.fields) {v : Json}
    (hl : d.lookup f.name = some v) (hu : isUsefulValue v = true) : w.lookup f.name = some v := by
  rw [hw f hf,hl]
  simp [Option.filter,hu]

theorem UsefulOf.dropped (hw : UsefulOf s d w) {f : FieldInfo} (hf : f ∈ s.fields) {v : Json}
    (hl : d.lookup f.name = some v) (hu : isUsefulValue v = false) : w.lookup f.name = none := by
  rw [hw f hf,hl]
  simp [Option.filter,hu]

theorem UsefulOf.absent (hw : UsefulOf s d w) {f : FieldInfo} (hf : f ∈ s.fields)
    (hl : d.lookup f.name = none) : w.lookup f.name = none := by
  rw [hw f hf,hl]
  rfl

/-- What is dropped and accepted is the null of an optional field. -/
def DropsNulls (P : Pydantic) (u : Unicode) (s : Schema) (d : Dict) : Prop :=
  ∀ f ∈ s.fields, ∀ v, d.lookup f.name = some v → isUsefulValue v = false →
    P.accepts u f v = true → v = .null ∧ f.required = false

section Same
variable {docType : String} (hs : SchemaRegistry.getSchema docType = .ok s) (hw : UsefulOf s d w)
variable (hnulls : DropsNulls P u s d)
include hs hw hnulls

theorem recoveredRecord_eq : recoveredRecord P u s d = recoveredRecord P u s w := by
  refine List.map_congr_left fun f hf => congrArg (Prod.mk f.name) ?_
  cases hl : d.lookup f.name with
  | none => simp [recoveredValue,hl,hw.absent hf hl]
  | some v =>
    cases hu : isUsefulValue v with
    | true => simp [recoveredValue,hl,hw.useful hf hl hu]
    | false =>
      have hnone : recoveredValue P u s w f = .none := by simp [recoveredValue,hw.dropped hf hl hu]
      rw [hnone]
      cases ha : P.accepts u f v with
      | false => simp [recoveredValue,hl,ha]
      | true =>
        obtain ⟨hv,hreq⟩ := hnulls f hf v hl hu ha
        exact (recoveredValue_none_iff (SchemaRegistry.names_nodup hs) hf hl ha).mpr
          ⟨by simp [SchemaRegistry.nullable_eq hs f hf,hreq],hv⟩

theorem parsedRecord_eq : s.parsedRecord P u d = s.parsedRecord P u w := by
  refine List.map_congr_left fun f hf => congrArg (Prod.mk f.name) ?_
  cases hl : d.lookup f.name with
  | none => simp [Pydantic.parsedValue,hl,hw.absent hf hl]
  | some v =>
    cases hu : isUsefulValue v with
    | true => simp [Pydantic.parsedValue,hl,hw.useful hf hl hu]
    | false =>
      have hnone : P.parsedValue u w f = .none := by simp [Pydantic.parsedValue,hw.dropped hf hl hu]
      rw [hnone]
      cases ha : P.accepts u f v with
      | false =>
        cases hp : P.field u f v with
        | error es => simp [Pydantic.parsedValue,hl,hp]
        | ok x => simp [Pydantic.accepts_iff.mpr ⟨x,hp⟩] at ha
      | true =>
        obtain ⟨hv,hreq⟩ := hnulls f hf v hl hu ha
        exact (parsedValue_none_iff hl ha).mpr
          ⟨by simp [SchemaRegistry.nullable_eq hs f hf,hreq],hv⟩

omit hs in
theorem fieldOk_of_fieldOk {f : FieldInfo} (hf : f ∈ s.fields) (h : P.FieldOk u d f) :
    P.FieldOk u w f := by
  cases hl : d.lookup f.name with
  | none => simpa [Pydantic.FieldOk,hl,hw.absent hf hl] using h
  | some v =>
    simp only [Pydantic.FieldOk,hl] at h
    cases hu : isUsefulValue v with
    | true => simpa [Pydantic.FieldOk,hw.useful hf hl hu] using h
    | false => simpa [Pydantic.FieldOk,hw.dropped hf hl hu] using (hnulls f hf v hl hu h).2

/-- An object that validates still does, as the same record, once values are dropped. -/
theorem validates_of_validates {r : Record} (h : s.modelValidate P u (.obj d) = .ok r) :
    s.modelValidate P u (.obj w) = .ok r := by
  obtain ⟨hall,rfl,hmodel⟩ := Schema.modelValidate_ok_iff.mp h
  exact Schema.modelValidate_ok_iff.mpr
    ⟨fun f hf => fieldOk_of_fieldOk hw hnulls hf (hall f hf),parsedRecord_eq hs hw hnulls,hmodel⟩

/-- An object validates only by dropping values when an optional field rejects one of them. -/
theorem rejected_of_validates (hd : ¬Validates P u s d) (hv : Validates P u s w) :
    ∃ f ∈ s.fields, ∃ v, d.lookup f.name = some v ∧ isUsefulValue v = false ∧
      P.accepts u f v = false ∧ f.required = false := by
  obtain ⟨r,hr⟩ := hv
  obtain ⟨hall,rfl,hmodel⟩ := Schema.modelValidate_ok_iff.mp hr
  have hfail : ∃ f ∈ s.fields, ¬P.FieldOk u d f := by
    by_contra hno
    push Not at hno
    exact hd ⟨_,Schema.modelValidate_ok_iff.mpr ⟨hno,(parsedRecord_eq hs hw hnulls).symm,hmodel⟩⟩
  obtain ⟨f,hf,hbad⟩ := hfail
  have hok := hall f hf
  cases hl : d.lookup f.name with
  | none =>
    simp only [Pydantic.FieldOk,hl] at hbad
    simp only [Pydantic.FieldOk,hw.absent hf hl] at hok
    exact absurd hok hbad
  | some v =>
    simp only [Pydantic.FieldOk,hl] at hbad
    cases hu : isUsefulValue v with
    | true =>
      simp only [Pydantic.FieldOk,hw.useful hf hl hu] at hok
      exact absurd hok hbad
    | false =>
      simp only [Pydantic.FieldOk,hw.dropped hf hl hu] at hok
      exact ⟨f,hf,v,hl,hu,by simpa using hbad,hok⟩

end Same

theorem hasAccepted_iff {f : FieldInfo} : hasAccepted P u d f = true ↔
    ∃ v, d.lookup f.name = some v ∧ P.accepts u f v = true := by
  unfold hasAccepted
  cases d.lookup f.name <;> simp

/-- What is accepted of the useful values is what has a useful accepted value. -/
theorem UsefulOf.any_hasAccepted (hw : UsefulOf s d w) :
    s.fields.any (hasAccepted P u w) = true ↔
      ∃ g ∈ s.fields, ∃ v, d.lookup g.name = some v ∧ isUsefulValue v = true ∧
        P.accepts u g v = true := by
  rw [List.any_eq_true]
  refine exists_congr fun g => and_congr_right fun hg => ?_
  rw [hasAccepted_iff]
  refine exists_congr fun v => ?_
  rw [hw g hg,Option.filter_eq_some_iff,and_assoc]

theorem usefulPart_validates (hn : (s.fields.map FieldInfo.name).Nodup) (hw : UsefulOf s d w) :
    Validates P u s (usefulPart s d) ↔ Validates P u s w := by
  have hsame : SameFields s (usefulPart s d) w := fun f hf =>
    (usefulPart_usefulOf hn f hf).trans (hw f hf).symm
  unfold Validates
  rw [modelValidate_congr hsame]

/-- Where dropping is safe, both objects come to the same status and data. -/
theorem outcome_eq_of_safe {docType : String} (hs : SchemaRegistry.getSchema docType = .ok s)
    (hw : UsefulOf s d w) (hsafe : OnePageSafe P u s d) :
    (validateExtraction P u docType (.obj d)).map outcome =
      (validateExtraction P u docType (.obj w)).map outcome := by
  have hnulls : DropsNulls P u s d := hsafe.accepted
  rw [validateExtraction_obj hs,validateExtraction_obj hs]
  cases hd : s.modelValidate P u (.obj d) with
  | ok r => rw [validates_of_validates hs hw hnulls hd]
  | error es =>
    have hinvalid : ¬Validates P u s d := by rintro ⟨r,hr⟩; cases hd.symm.trans hr
    cases hv : s.modelValidate P u (.obj w) with
    | ok r =>
      obtain ⟨f,hf,v,hl,hu,ha,hreq⟩ := rejected_of_validates hs hw hnulls hinvalid ⟨r,hv⟩
      have hno := hsafe.rejected f hf v hl hu ha hreq
      rw [usefulPart_validates (SchemaRegistry.names_nodup hs) hw] at hno
      exact absurd ⟨r,hv⟩ hno
    | error es' =>
      have hany : s.fields.any (hasAccepted P u d) = s.fields.any (hasAccepted P u w) := by
        rw [Bool.eq_iff_iff,hw.any_hasAccepted,List.any_eq_true]
        constructor
        · rintro ⟨f,hf,hacc⟩
          obtain ⟨v,hl,ha⟩ := hasAccepted_iff.mp hacc
          cases hu : isUsefulValue v with
          | true => exact ⟨f,hf,v,hl,hu,ha⟩
          | false =>
            obtain ⟨rfl,hreq⟩ := hnulls f hf v hl hu ha
            exact hsafe.nulls f hf hl hreq hinvalid
        · rintro ⟨g,hg,v,hl,_,ha⟩
          exact ⟨g,hg,hasAccepted_iff.mpr ⟨v,hl,ha⟩⟩
      simp only [recoveredOutcome,recoveredRecord_eq hs hw hnulls,hany]

theorem outcome_eq {r : ValidationResult} {docType : String}
    (hr : validateExtraction P u docType (.obj d) = .ok r)
    (he : (validateExtraction P u docType (.obj d)).map outcome =
      (validateExtraction P u docType (.obj w)).map outcome) :
    ∃ r', validateExtraction P u docType (.obj w) = .ok r' ∧ r'.status = r.status ∧
      r'.extractedData = r.extractedData := by
  rw [hr] at he
  obtain ⟨r',hr',ho⟩ := map_eq_ok he.symm
  exact ⟨r',hr',congrArg Prod.fst ho,congrArg Prod.snd ho⟩

theorem accepts_null {f : FieldInfo} (hf : f.nullable = true) : P.accepts u f .null = true := by
  rw [Pydantic.accepts_iff]
  unfold FieldInfo.nullable at hf
  unfold Pydantic.field Pydantic.annotation
  split at hf
  · next l hl => cases f.currency <;> simp [hl,Pydantic.leaf,hf,Pydantic.validateCurrencyCode]
  · cases hf

/-- Where both objects come to the same status and data, dropping is safe. -/
theorem safe_of_outcome_eq {docType : String} (hs : SchemaRegistry.getSchema docType = .ok s)
    (hw : UsefulOf s d w) {r : ValidationResult}
    (hr : validateExtraction P u docType (.obj d) = .ok r)
    (he : (validateExtraction P u docType (.obj d)).map outcome =
      (validateExtraction P u docType (.obj w)).map outcome) : OnePageSafe P u s d := by
  obtain ⟨r',hr',hstatus,hdata⟩ := outcome_eq hr he
  have hn := SchemaRegistry.names_nodup hs
  refine ⟨fun f hf v hl hu ha => ?_,fun f hf v hl hu ha hreq hvalid => ?_,
    fun f hf hl hreq hinvalid => ?_⟩
  · -- an accepted value that is not null would be in one result and null in the other
    have hnull : f.nullable = true ∧ v = .null := by
      by_contra hne
      obtain ⟨data,x,hdata',hx,hxne⟩ := validated_ne_null hs hf hl ha hne hr
      have habsent := validated_absent hs hf (hw.dropped hf hl hu) hr' (hdata.trans hdata')
      exact hxne (Option.some.inj (hx.symm.trans habsent))
    have hnullable := SchemaRegistry.nullable_eq hs f hf
    exact ⟨hnull.2,by simpa [hnull.1] using hnullable⟩
  · -- only the object without the rejected value is completed
    obtain ⟨x,hx⟩ := (usefulPart_validates hn hw).mp hvalid
    have hcompleted := status_of_valid hs hr' hx
    cases hd : s.modelValidate P u (.obj d) with
    | ok x' =>
      have hok := (Schema.modelValidate_ok_iff.mp hd).1 f hf
      simp [Pydantic.FieldOk,hl,ha] at hok
    | error es =>
      rw [hstatus,status_of_invalid hs hr hd] at hcompleted
      split at hcompleted <;> cases hcompleted
  · -- the null alone makes one of the results partial
    have hnullable : f.nullable = true := by simp [SchemaRegistry.nullable_eq hs f hf,hreq]
    have hany : s.fields.any (hasAccepted P u d) = true :=
      List.any_eq_true.mpr ⟨f,hf,hasAccepted_iff.mpr ⟨_,hl,accepts_null hnullable⟩⟩
    cases hd : s.modelValidate P u (.obj d) with
    | ok x => exact absurd ⟨x,hd⟩ hinvalid
    | error es =>
      have hpartial := status_of_invalid hs hr hd
      rw [if_pos hany,← hstatus] at hpartial
      cases hv : s.modelValidate P u (.obj w) with
      | ok x => rw [status_of_valid hs hr' hv] at hpartial; cases hpartial
      | error es' =>
        rw [status_of_invalid hs hr' hv] at hpartial
        by_contra hno
        rw [← hw.any_hasAccepted] at hno
        simp [hno] at hpartial

end Compare

section Runs
open PageStrategyRunner
variable {P : Pydantic} {u : Unicode} {s : Schema} {docType : String}

/-- The merge of what the page loop keeps of one page. -/
theorem merge_one_page (hs : SchemaRegistry.getSchema docType = .ok s) (d : Dict) (i : ℕ) :
    ∃ m, mergeResults (if hasUsefulExtraction d then [(d,i)] else []) docType = .ok m ∧
      UsefulOf s d m.merged := by
  refine ⟨_,by simp only [mergeResults,hs]; rfl,fun f hf => ?_⟩
  have hn := SchemaRegistry.names_nodup hs
  rw [lookup_mergePages hn (List.mem_map_of_mem hf)]
  cases hl : (d.lookup f.name).filter isUsefulValue with
  | none => split <;> simp [usefulValues,hl]
  | some v =>
    have huseful : hasUsefulExtraction d = true := by
      obtain ⟨hv,hu⟩ := Option.filter_eq_some_iff.mp hl
      exact List.any_eq_true.mpr ⟨(f.name,v),Keyed.mem_of_lookup hv,hu⟩
    simp [huseful,usefulValues,hl,keep]

variable (extract : TextExtractor) (page : String) (e : ModelEnv)

/-- The extraction of the text that both strategies send. -/
def onePageRun (docType : String) : Except Exc Extracted × ModelEnv :=
  (extract (formatPage 0 page) docType).run ModelEnv.handler e

theorem run_full (u : Unicode) :
    (extractFromPages extract u [page] docType .full).run ModelEnv.handler e =
      ((onePageRun extract page e docType).1.map fun x =>
        ⟨x.rawOutput,x.inputTokens,x.outputTokens,.full,[0],[],none⟩,
        (onePageRun extract page e docType).2) := by
  have hjoin : joinPages [page].zipIdx = formatPage 0 page := by
    simp [joinPages,String.intercalate_singleton]
  unfold extractFromPages extractFullDocument onePageRun
  rw [hjoin,Prog.run_bind]
  rcases (extract (formatPage 0 page) docType).run ModelEnv.handler e with ⟨_ | x,e'⟩ <;> rfl

/-- What the page strategy makes of the extraction of a single page. -/
def pagedResult (docType : String) (page : String) : Except Exc Extracted →
    Except Exc StrategyExtractionResult
  | .ok x => (PageTotals.init.add 0 x).bind (finish [page] docType)
  | .error (.extraction err) => finish [page] docType (PageTotals.init.skip 0 err)
  | .error c => .error c

theorem run_paged (hpage : Text.strip page ≠ "") (u : Unicode) :
    (extractFromPages extract u [page] docType .pageByPage).run ModelEnv.handler e =
      (pagedResult docType page (onePageRun extract page e docType).1,
        (onePageRun extract page e docType).2) := by
  have hfold : [page].zipIdx.foldlM (pageStep extract docType) PageTotals.init =
      pageStep extract docType PageTotals.init (page,0) := by simp
  unfold extractFromPages extractPageByPage
  simp only [hfold,pageStep,hpage,if_false]
  rw [Prog.run_bind,Prog.run_bind,attemptPage,Prog.run_tryCatch,Prog.run_map]
  unfold onePageRun
  rcases (extract (formatPage 0 page) docType).run ModelEnv.handler e with ⟨c | x,e'⟩
  · cases c <;> rfl
  · cases hx : PageTotals.init.add 0 x <;> simp [pagedResult,Except.map,hx,Except.bind]

/-- **One page, as a whole and page by page.** Both strategies ask for the same, in
the same words. On an object as the reply they come to the same status and data
when dropping is safe, and, unless the validation of the reply raises, only then. -/
theorem one_page_strategies (P : Pydantic) (u : Unicode)
    (hs : SchemaRegistry.getSchema docType = .ok s) (hpage : Text.strip page ≠ "") :
    ((extractFromPages extract u [page] docType .full).run ModelEnv.handler e).2.exchanges =
        ((extractFromPages extract u [page] docType .pageByPage).run ModelEnv.handler e).2.exchanges ∧
      ∀ x d, (onePageRun extract page e docType).1 = .ok x → x.rawOutput = .obj d →
        ∃ full paged,
          ((extractFromPages extract u [page] docType .full).run ModelEnv.handler e).1 = .ok full ∧
          ((extractFromPages extract u [page] docType .pageByPage).run ModelEnv.handler e).1 =
            .ok paged ∧
          (OnePageSafe P u s d →
            (validateExtraction P u docType full.rawOutput).map outcome =
              (validateExtraction P u docType paged.rawOutput).map outcome) ∧
          (∀ r, validateExtraction P u docType full.rawOutput = .ok r →
            (validateExtraction P u docType full.rawOutput).map outcome =
              (validateExtraction P u docType paged.rawOutput).map outcome →
            OnePageSafe P u s d) := by
  rw [run_full,run_paged extract page e hpage]
  refine ⟨rfl,fun x d hx hd => ?_⟩
  obtain ⟨m,hm,hw⟩ := merge_one_page hs d 0
  have hpaged : pagedResult docType page (.ok x) = .ok ⟨.obj m.merged,x.inputTokens,x.outputTokens,
      .pageByPage,sourcePagesOf 1 m.fieldSourcePages,[],some m.fieldSourcePages⟩ := by
    simp [pagedResult,PageTotals.add,PageTotals.init,hd,Except.bind,finish,hm,bind,pure,Except.pure]
  refine ⟨⟨x.rawOutput,x.inputTokens,x.outputTokens,.full,[0],[],none⟩,_,by rw [hx]; rfl,
    by rw [hx]; exact hpaged,?_,?_⟩
  · simp only [hd]
    exact outcome_eq_of_safe hs hw
  · simp only [hd]
    exact fun r hr he => safe_of_outcome_eq hs hw hr he

end Runs

section Examples
open PageStrategyRunner

/-- A provider that answers every request with this tool call. -/
def toolCallReplies (docType : String) (arguments : Dict) : Stream' (Except Exc Response) :=
  Stream'.const (.ok ⟨.list [⟨some ⟨none,none,[⟨some ("extract_" ++ docType),.object arguments⟩]⟩⟩],
    none,some ⟨640,52⟩⟩)

def basicExtract : TextExtractor :=
  ToolCallExtractor.extract Libraries.basic ⟨"openai/gpt-4.1-mini",2⟩

/-- A contract whose list of parties is empty. -/
def emptyParties : Dict :=
  [("parties",.arr []),("effective_date",.str "2024-01-31"),
    ("key_obligations",.arr [.str "Deliver monthly"])]

def contractEnv : ModelEnv := .start (toolCallReplies "contract" emptyParties) (Stream'.const 0)

/-- The status that a strategy comes to on a single page. -/
def onePageStatus (strategy : ExtractionStrategy) (docType page : String) (e : ModelEnv) :
    Except Exc ExtractionStatus :=
  ((extractFromPages basicExtract .ascii [page] docType strategy).run ModelEnv.handler e).1.bind
    fun r => (validateExtraction .basic .ascii docType r.rawOutput).map ValidationResult.status

/-- As a whole the contract is completed; page by page the empty list is dropped
and the contract is partial. -/
theorem empty_list_differs :
    onePageStatus .full "contract" "Agreement" contractEnv = .ok .completed ∧
      onePageStatus .pageByPage "contract" "Agreement" contractEnv = .ok .partial_ := by
  decide

/-- A contract whose only dropped value is the null of an optional field. -/
def plainContract : Dict :=
  [("parties",.arr [.obj [("name",.str "Acme")]]),("effective_date",.str "2024-01-31"),
    ("governing_law",.null),("key_obligations",.arr [.str "Deliver monthly"])]

theorem plainContract_safe :
    OnePageSafe .basic .ascii Documents.contractSchema plainContract := by
  have hdropped : ∀ f ∈ Documents.contractSchema.fields, ∀ v ∈ plainContract.lookup f.name,
      isUsefulValue v = false → v = .null ∧ f.required = false ∧
        Pydantic.basic.accepts .ascii f v = true := by decide
  have hvalid : Validates .basic .ascii Documents.contractSchema plainContract :=
    Pydantic.isOk_iff.mp (by decide)
  exact ⟨fun f hf v hl hu _ => ⟨(hdropped f hf v hl hu).1,(hdropped f hf v hl hu).2.1⟩,
    fun f hf v hl hu ha => by simp [(hdropped f hf v hl hu).2.2] at ha,
    fun _ _ _ _ hinvalid => absurd hvalid hinvalid⟩

/-- On that contract both strategies agree. -/
theorem plain_contract_agrees : ∃ full paged,
    ((extractFromPages basicExtract .ascii ["Agreement"] "contract" .full).run ModelEnv.handler
      (.start (toolCallReplies "contract" plainContract) (Stream'.const 0))).1 = .ok full ∧
    ((extractFromPages basicExtract .ascii ["Agreement"] "contract" .pageByPage).run ModelEnv.handler
      (.start (toolCallReplies "contract" plainContract) (Stream'.const 0))).1 = .ok paged ∧
    (validateExtraction .basic .ascii "contract" full.rawOutput).map outcome =
      (validateExtraction .basic .ascii "contract" paged.rawOutput).map outcome := by
  obtain ⟨full,paged,hfull,hpaged,hagree,_⟩ := (one_page_strategies basicExtract "Agreement"
    (.start (toolCallReplies "contract" plainContract) (Stream'.const 0)) .basic .ascii
    (show SchemaRegistry.getSchema "contract" = .ok Documents.contractSchema from rfl)
    (by decide)).2 ⟨.obj plainContract,640,52⟩ plainContract (by decide) rfl
  exact ⟨full,paged,hfull,hpaged,hagree plainContract_safe⟩

end Examples

end StructuredExtractor
