import StructuredExtractor.Service.LosslessDiff
import StructuredExtractor.Service.Reviews

/-! # What becomes of corrections

A correction that comes in is stored by its fourth database call and answered after its
fifth. The table that they end in only grows, and each of its rows can be applied to the
extraction that it corrects, which stays as it was.
-/
namespace StructuredExtractor
open Desk

variable {c : Config} {w₀ : World} {cs : List ExtractionCorrection} {p p' : DeskPool}

/-- Validation has data for the correction. -/
structure Accepts (lib : Libraries) (x : Extraction) (request : CorrectionRequest) (v : ValidationResult) (data : Dict) :
    Prop where
  validated : Desk.validated lib x request = .ok v
  data : v.extractedData = some data

/-- The row is the one that `CorrectionService.create` builds where no call can fail. -/
theorem Accepts.create {lib : Libraries} {x : Extraction} {request : CorrectionRequest} {v : ValidationResult}
    {data : Dict} (h : Accepts lib x request v data) (id : Uuid) (createdAt : Time) (table : List ExtractionCorrection) :
    CorrectionService.create lib.pydantic lib.unicode x request id createdAt table =
      .ok (correctionRow x request v data id createdAt,table ++ [correctionRow x request v data id createdAt]) := by
  obtain ⟨hv,hdata⟩ := h
  have hvalid :
      Validation.validateExtraction lib.pydantic lib.unicode x.docType (.obj request.correctedData) = .ok v := by
    unfold Desk.validated at hv
    match hr : Validation.validateExtraction lib.pydantic lib.unicode x.docType (.obj request.correctedData), hv with
    | .ok v', hv => rw [Except.ok.inj hv]
  simp only [CorrectionService.create,hvalid,Except.mapError,bind,Except.bind,hdata]
  rfl

/-- How a correction of an extraction ends: stored by the first four calls, answered
after five. -/
structure CorrectionSettled (lib : Libraries) (i : ℕ) (label : DeskLabel) (x : Extraction) (request : CorrectionRequest)
    (r : Except DeskExc DeskAnswer) (s : Site) : Prop where
  stored : s.madeBy i ≠ [] ↔ (∃ v data, Accepts lib x request v data) ∧ ∀ k < 4, label.env.calls.get k = none
  answered : r.isOk ↔ (∃ v data, Accepts lib x request v data) ∧ ∀ k < 5, label.env.calls.get k = none
  row : ∀ row ∈ s.madeBy i, s.madeBy i = [row] ∧ ∃ v data, Accepts lib x request v data ∧
    row = correctionRow x request v data row.id row.createdAt
  shown : ∀ answer, r = .ok answer → ∃ row, s.madeBy i = [row] ∧ answer = .correction (toCorrectionResponse row)

section Settled
variable {lib : Libraries} {i : ℕ} {label : DeskLabel} {x : Extraction} {request : CorrectionRequest} {s : Site}

theorem CorrectionSettled.error {e : DeskExc} (hmade : s.madeBy i = [])
    (hcalls : (∃ v data, Accepts lib x request v data) → ¬ ∀ k < 4, label.env.calls.get k = none) :
    CorrectionSettled lib i label x request (.error e) s where
  stored := iff_of_false (fun h => h hmade) fun h => hcalls h.1 h.2
  answered := iff_of_false (fun h => by cases h) fun h => hcalls h.1 fun k hk => h.2 k (by omega)
  row row hrow := by rw [hmade] at hrow; cases hrow
  shown _ h := by cases h

theorem CorrectionSettled.made {v : ValidationResult} {data : Dict} {id : Uuid} {createdAt : Time}
    {r : Except DeskExc DeskAnswer} (haccepts : Accepts lib x request v data)
    (hmade : s.madeBy i = [correctionRow x request v data id createdAt])
    (hcalls : ∀ k < 4, label.env.calls.get k = none) (hanswer : r.isOk ↔ ∀ k < 5, label.env.calls.get k = none)
    (hshown : ∀ answer, r = .ok answer →
      answer = .correction (toCorrectionResponse (correctionRow x request v data id createdAt))) :
    CorrectionSettled lib i label x request r s where
  stored := iff_of_true (by rw [hmade]; exact List.cons_ne_nil _ _) ⟨⟨v,data,haccepts⟩,hcalls⟩
  answered := hanswer.trans (and_iff_right ⟨v,data,haccepts⟩).symm
  row row hrow := by
    rw [hmade] at hrow ⊢
    obtain rfl := List.mem_singleton.mp hrow
    exact ⟨rfl,v,data,haccepts,rfl⟩
  shown answer h := ⟨_,hmade,hshown answer h⟩

/-- A request that corrects a durable extraction. -/
theorem Replied.settled {r : Except DeskExc DeskAnswer}
    (h : Replied lib i label (.correctExtraction x.id request) r s) (hx : x ∈ label.arrived.db.extractions)
    (hlater : label.arrived.Later s) (hkeys : (s.db.extractions.map Extraction.id).Nodup) :
    CorrectionSettled lib i label x request r s := by
  have hsame : ∀ {y}, y ∈ s.db.extractions → y.id = x.id → y = x := fun hy hid =>
    List.inj_on_of_nodup_map hkeys hy (hlater.db.extractions.subset hx) hid
  generalize hq : DeskRequest.correctExtraction x.id request = q at h
  cases h with
  | failed hk _ hearly hmade => exact .error hmade fun _ hcalls => by rw [hcalls _ hearly] at hk; cases hk
  | noDocument => cases hq
  | noExtraction hr hdb hnone hmade =>
    rcases hr with rfl | rfl | ⟨_,rfl⟩ <;> cases hq
    exact absurd rfl (hnone x (hdb.after.extractions.subset hx))
  | document => cases hq
  | extraction => cases hq
  | audit => cases hq
  | crashed hy hv hmade =>
    injection hq with hid hrequest
    cases hsame hy hid.symm
    subst hrequest
    exact .error hmade fun ⟨v,data,haccepts⟩ => by rw [haccepts.validated] at hv; cases hv
  | rejected hy hv hdata hmade =>
    injection hq with hid hrequest
    cases hsame hy hid.symm
    subst hrequest
    refine .error hmade fun ⟨v',data,haccepts⟩ => ?_
    cases haccepts.validated.symm.trans hv
    rw [haccepts.data] at hdata
    cases hdata
  | unacknowledged hy hv hdata hlast hfirst hmade =>
    injection hq with hid hrequest
    cases hsame hy hid.symm
    subst hrequest
    refine .made ⟨hv,hdata⟩ hmade hfirst (iff_of_false (fun h => by cases h) fun h => ?_) fun answer h => by cases h
    rw [h 4 (by omega)] at hlast
    cases hlast
  | corrected hy hv hdata hcalls hmade =>
    injection hq with hid hrequest
    cases hsame hy hid.symm
    subst hrequest
    exact .made ⟨hv,hdata⟩ hmade (fun k hk => hcalls k (by omega)) (iff_of_true rfl hcalls)
      fun answer h => (Except.ok.inj h).symm

end Settled

/-- A row that a request made, and what it was made of. -/
structure MadeBy (c : Config) (p : DeskPool) (row : ExtractionCorrection) (i : ℕ) (x : Extraction)
    (request : CorrectionRequest) (v : ValidationResult) : Prop where
  only : p.shared.madeBy i = [row]
  asked : ∃ t, p.threads[i]? = some t ∧ t.label.request = .correctExtraction x.id request
  durable : x ∈ p.shared.db.extractions
  accepts : Accepts c.processor.libraries x request v row.correctedData
  same : row = correctionRow x request v row.correctedData row.id row.createdAt
  lossless : (Json.obj (x.extractedData.getD [])).Plain →
    row.correctionDiff.Lossless (x.extractedData.getD []) row.correctedData

section Table
variable (hlog : w₀.log = []) (hw₀ : w₀.db.Before) (hcs : CorrectionsBefore cs)
include hlog hw₀ hcs

/-- **Corrections are stored once or not at all.** Whatever runs beside it, a request
that corrects an extraction which was durable when it came in has stored one row exactly
when validation had data and its first four database calls went through, and is answered
with that row exactly when the fifth did too. -/
theorem correction_settled (hp : SiteReachable c w₀ cs p) {i : ℕ} {t : DeskThread} {r : Except DeskExc DeskAnswer}
    (ht : p.threads[i]? = some t) (hdone : t.prog = .done r) {x : Extraction} {request : CorrectionRequest}
    (hreq : t.label.request = .correctExtraction x.id request) (hx : x ∈ t.label.arrived.db.extractions) :
    CorrectionSettled c.processor.libraries i t.label x request r p.shared := by
  obtain ⟨hcounted,hreplied⟩ := site_reachable hlog hw₀ hcs hp
  have h := hreplied i t r ht hdone
  rw [hreq] at h
  exact h.settled hx (arrived_later hlog hw₀ hcs hp ht) (hcounted.extractionKeys hlog hw₀)

/-- **The table of corrections only grows**, no key is in it twice, and each row that was
not there from the start is the only one of a request: its diff is a lossless patch of
the extraction that the request asked to correct, which is durable as it was. -/
theorem corrections_table (hp : SiteReachable c w₀ cs p) (hp' : SiteMoves c p p') :
    p.shared.corrections <+: p'.shared.corrections ∧ (p'.shared.corrections.map ExtractionCorrection.id).Nodup ∧
      ∀ row ∈ p'.shared.corrections, row ∈ cs ∨ ∃ i x request v, MadeBy c p' row i x request v := by
  have hcounted := (site_reachable hlog hw₀ hcs (hp.trans hp')).1
  refine ⟨(moves_progress hlog hw₀ hcs hp hp').later.corrections,hcounted.keys,fun row hrow => ?_⟩
  rcases hcounted.corrections row hrow with hold | ⟨i,t,ht,⟨n,hid⟩,hmade⟩
  · exact .inl hold
  · obtain ⟨x,hx,request,v,data,id,createdAt,hreq,hv,hdata,rfl⟩ := hmade.made
    have haccepts : Accepts c.processor.libraries x request v data := ⟨hv,hdata⟩
    refine .inr ⟨i,x,request,v,?_,⟨t,ht,hreq⟩,hx,haccepts,rfl,fun hplain => ?_⟩
    · have hmem : correctionRow x request v data id createdAt ∈ p'.shared.madeBy i :=
        List.mem_filter.mpr ⟨hrow,by rw [hid]; simp [Uuid.run?]⟩
      obtain ⟨row,hrows⟩ := List.length_eq_one_iff.mp
        ((hcounted.once i).antisymm (List.length_pos_of_mem hmem))
      rw [hrows] at hmem ⊢
      rw [List.mem_singleton.mp hmem]
    · obtain ⟨r,hr,hrdata,-⟩ := CorrectionService.create_ok (haccepts.create id createdAt [])
      obtain ⟨s,hs⟩ : ∃ s, SchemaRegistry.getSchema x.docType = .ok s := by
        cases hs : SchemaRegistry.getSchema x.docType with
        | ok s => exact ⟨s,rfl⟩
        | error e =>
          simp only [Validation.validateExtraction,hs,bind,Except.bind] at hr
          cases hr
      exact CorrectionDiff.diff_lossless hplain (Validation.extractedData_plain hs hr hrdata)

end Table

section Sample

/-- The answered extraction is corrected. -/
def sampleCorrection : DeskRequest := .correctExtraction (.drawn 0 0) ⟨plainContract,none,none⟩

def corrected : DeskPool := asked (sampleConfig false) ⟨[],answeredSite⟩ sampleCorrection deskEnv

theorem corrected_settled : ∃ x ∈ answeredSite.db.extractions,
    (askedAlone (sampleConfig false) 0 sampleCorrection deskEnv answeredSite).1.isOk ∧
    CorrectionSettled (sampleConfig false).processor.libraries 0 ⟨sampleCorrection,deskEnv,answeredSite⟩ x
      ⟨plainContract,none,none⟩ (askedAlone (sampleConfig false) 0 sampleCorrection deskEnv answeredSite).1
      corrected.shared := by
  have hids : answeredSite.db.extractions.map Extraction.id = [.drawn 0 0] := by decide
  obtain ⟨x,hx,hid⟩ := List.mem_map.mp (hids ▸ List.mem_singleton_self (Uuid.drawn 0 0))
  refine ⟨x,hx,by decide,correction_settled rfl storedWorld_before noCorrections (i := 0)
    (answeredSite_reachable.trans (asked_moves _ sampleCorrection deskEnv)) rfl rfl ?_ hx⟩
  rw [hid]
  rfl

theorem corrected_table : corrected.shared.corrections.length = 1 ∧
    (corrected.shared.corrections.map ExtractionCorrection.id).Nodup ∧
    ∀ row ∈ corrected.shared.corrections, row ∈ [] ∨ ∃ i x request v,
      MadeBy (sampleConfig false) corrected row i x request v :=
  ⟨by decide,(corrections_table rfl storedWorld_before noCorrections answeredSite_reachable
    (asked_moves _ sampleCorrection deskEnv)).2⟩

end Sample

end StructuredExtractor
