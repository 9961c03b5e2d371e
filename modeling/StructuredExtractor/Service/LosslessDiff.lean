import StructuredExtractor.Service.OwnData

/-! # The correction diff as a patch

A diff says of every key of two objects what it takes to get from the first to the
second. Applied to the first it gives the second, and undone on the second the first,
up to the equality by which values are compared.
-/
namespace StructuredExtractor

namespace Json

/-- Both values are absent, or both are there and equal. -/
def SameUnder (a b : Option Json) : Prop := Option.Rel (fun a b => pyEq a b = true) a b

theorem SameUnder.isSome {a b : Option Json} (h : SameUnder a b) : a.isSome ↔ b.isSome := by
  cases h <;> rfl

theorem pyEqFields_iff {as bs : Dict} : pyEqFields as bs = true ↔
    ∀ p ∈ as, ∃ b, bs.lookup p.1 = some b ∧ pyEq p.2 b = true := by
  induction as with
  | nil => simp [pyEqFields]
  | cons p as ih =>
    obtain ⟨key,a⟩ := p
    rw [pyEqFields,Bool.and_eq_true,ih,List.forall_mem_cons]
    refine and_congr_left fun _ => ?_
    cases bs.lookup key <;> simp

/-- Objects with distinct keys are equal when they have equal values under each key. -/
theorem pyEq_obj_iff {as bs : Dict} (ha : (as.map Prod.fst).Nodup) (hb : (bs.map Prod.fst).Nodup) :
    pyEq (.obj as) (.obj bs) = true ↔ ∀ key, SameUnder (as.lookup key) (bs.lookup key) := by
  rw [pyEq,Bool.and_eq_true,decide_eq_true_eq,pyEqFields_iff]
  constructor
  · rintro ⟨hlength,hfields⟩ key
    have hsub : as.map Prod.fst ⊆ bs.map Prod.fst := by
      intro k hk
      obtain ⟨p,hp,rfl⟩ := List.mem_map.mp hk
      obtain ⟨b,hb,-⟩ := hfields p hp
      exact Keyed.mem_keys_of_lookup hb
    have hperm : (as.map Prod.fst).Perm (bs.map Prod.fst) :=
      (ha.subperm hsub).perm_of_length_le (by rw [List.length_map,List.length_map,hlength])
    cases hkey : as.lookup key with
    | some a =>
      obtain ⟨b,hb,heq⟩ := hfields (key,a) ((Keyed.mem_iff_lookup ha (key,a)).mpr hkey)
      rw [hb]
      exact .some heq
    | none =>
      rw [Keyed.lookup_eq_none_iff,hperm.mem_iff,← Keyed.lookup_eq_none_iff] at hkey
      rw [hkey]
      exact .none
  · intro hsame
    have hkeys : ∀ key, key ∈ as.map Prod.fst ↔ key ∈ bs.map Prod.fst := fun key => by
      rw [← Keyed.lookup_isSome_iff,← Keyed.lookup_isSome_iff]
      exact (hsame key).isSome
    have hperm : (as.map Prod.fst).Perm (bs.map Prod.fst) := (List.perm_ext_iff_of_nodup ha hb).mpr hkeys
    refine ⟨by simpa using hperm.length_eq,fun p hp => ?_⟩
    have h := hsame p.1
    rw [(Keyed.mem_iff_lookup ha p).mp hp] at h
    cases hb : bs.lookup p.1 with
    | none =>
      rw [hb] at h
      cases h
    | some b =>
      rw [hb] at h
      cases h with
      | some heq => exact ⟨b,rfl,heq⟩

theorem Plain.lookup {d : Dict} (h : (Json.obj d).Plain) {key : String} {v : Json} (hv : d.lookup key = some v) :
    v.Plain := by
  obtain ⟨-,hfields⟩ := h
  induction d with
  | nil => cases hv
  | cons p d ih =>
    obtain ⟨k,w⟩ := p
    by_cases hk : key = k
    · subst hk
      rw [List.lookup_cons_self] at hv
      exact Option.some.inj hv ▸ hfields.1
    · exact ih (Keyed.lookup_cons_ne hk w d ▸ hv) hfields.2

end Json

namespace CorrectionDiff

/-- The keys that were removed go, those that were changed get their new value, and those that
were added come at the end. -/
def apply (diff : CorrectionDiff) (original : Dict) : Dict :=
  (original.filter fun p => p.1 ∉ diff.removed.map Prod.fst).map (fun p =>
    (p.1,((diff.changed.lookup p.1).map ChangedField.to_).getD p.2)) ++ diff.added

/-- The diff back. -/
def inverse (diff : CorrectionDiff) : CorrectionDiff where
  added := diff.removed
  removed := diff.added
  changed := diff.changed.map fun p => (p.1,⟨p.2.to_,p.2.from_⟩)

def undo (diff : CorrectionDiff) (corrected : Dict) : Dict := diff.inverse.apply corrected

section Fields
variable (original corrected : Dict)

/-- What each list of the diff says of a field of either object. -/
def addedOf (name : String) : Option Json :=
  match original.lookup name with
  | none => some ((corrected.lookup name).getD .null)
  | some _ => none

def removedOf (name : String) : Option Json :=
  match corrected.lookup name with
  | none => original.lookup name
  | some _ => none

def changedOf (name : String) : Option ChangedField :=
  match original.lookup name, corrected.lookup name with
  | some v, some w => if v.pyEq w then none else some ⟨v,w⟩
  | _, _ => none

theorem foldr_field (names : List String) : names.foldr (field original corrected) empty =
    ⟨names.filterMap fun name => (addedOf original corrected name).map fun v => (name,v),
      names.filterMap fun name => (removedOf original corrected name).map fun v => (name,v),
      names.filterMap fun name => (changedOf original corrected name).map fun v => (name,v)⟩ := by
  induction names with
  | nil => rfl
  | cons name names ih =>
    rw [List.foldr_cons,ih]
    cases ho : original.lookup name with
    | none => cases hc : corrected.lookup name <;> simp [field,addedOf,removedOf,changedOf,ho,hc]
    | some v =>
      cases hc : corrected.lookup name with
      | none => simp [field,addedOf,removedOf,changedOf,ho,hc]
      | some w => cases he : v.pyEq w <;> simp [field,addedOf,removedOf,changedOf,ho,hc,he]

end Fields

section Lookup
variable {original corrected : Dict}

theorem mem_unionKeys {name : String} : name ∈ unionKeys original corrected ↔
    name ∈ original.map Prod.fst ∨ name ∈ corrected.map Prod.fst := by simp [unionKeys]

theorem nodup_unionKeys : (unionKeys original corrected).Nodup :=
  (List.perm_insertionSort _ _).nodup_iff.mpr (List.nodup_dedup _)

theorem diff_eq : diffExtractionData original corrected =
    ⟨(unionKeys original corrected).filterMap fun name => (addedOf original corrected name).map fun v => (name,v),
      (unionKeys original corrected).filterMap fun name => (removedOf original corrected name).map fun v => (name,v),
      (unionKeys original corrected).filterMap fun name => (changedOf original corrected name).map fun v => (name,v)⟩ :=
  foldr_field original corrected _

/-- Under each name the three lists have what they say of that field. -/
theorem lookup_unionKeys {α : Type} (g : String → Option α) (name : String)
    (hg : original.lookup name = none → corrected.lookup name = none → g name = none) :
    ((unionKeys original corrected).filterMap fun name => (g name).map fun v => (name,v)).lookup name = g name := by
  rw [Keyed.lookup_filterMap nodup_unionKeys]
  by_cases hmem : name ∈ unionKeys original corrected
  · rw [if_pos hmem]
  · rw [if_neg hmem]
    rw [mem_unionKeys,not_or] at hmem
    exact (hg (Keyed.lookup_eq_none hmem.1) (Keyed.lookup_eq_none hmem.2)).symm

theorem removed_lookup (name : String) :
    (diffExtractionData original corrected).removed.lookup name = removedOf original corrected name := by
  rw [diff_eq]
  exact lookup_unionKeys (removedOf original corrected) name fun ho hc => by rw [removedOf,hc,ho]

theorem changed_lookup (name : String) :
    (diffExtractionData original corrected).changed.lookup name = changedOf original corrected name := by
  rw [diff_eq]
  exact lookup_unionKeys (changedOf original corrected) name fun ho hc => by rw [changedOf,ho]

theorem added_lookup (name : String) : (diffExtractionData original corrected).added.lookup name =
    match original.lookup name with
    | none => corrected.lookup name
    | some _ => none := by
  rw [diff_eq]
  dsimp only
  rw [Keyed.lookup_filterMap nodup_unionKeys]
  by_cases hmem : name ∈ unionKeys original corrected
  · rw [if_pos hmem,addedOf]
    rw [mem_unionKeys] at hmem
    cases ho : original.lookup name with
    | some v => rfl
    | none =>
      obtain ⟨w,hw⟩ := Keyed.exists_lookup (hmem.resolve_left (Keyed.lookup_eq_none_iff.mp ho))
      rw [hw]
      rfl
  · rw [if_neg hmem]
    rw [mem_unionKeys,not_or] at hmem
    rw [Keyed.lookup_eq_none hmem.1,Keyed.lookup_eq_none hmem.2]

theorem nodup_added : ((diffExtractionData original corrected).added.map Prod.fst).Nodup := by
  rw [diff_eq]
  dsimp only
  rw [Keyed.keys_filterMap]
  exact nodup_unionKeys.filter _

theorem nodup_removed : ((diffExtractionData original corrected).removed.map Prod.fst).Nodup := by
  rw [diff_eq]
  dsimp only
  rw [Keyed.keys_filterMap]
  exact nodup_unionKeys.filter _

end Lookup

/-- What applying a diff leaves under a name. -/
theorem apply_lookup (diff : CorrectionDiff) (d : Dict) (name : String) : (diff.apply d).lookup name =
    (match diff.removed.lookup name with
      | some _ => none
      | none => (d.lookup name).map fun v => ((diff.changed.lookup name).map ChangedField.to_).getD v).or
        (diff.added.lookup name) := by
  rw [CorrectionDiff.apply,List.lookup_append,
    Keyed.lookup_map_values fun name v => ((diff.changed.lookup name).map ChangedField.to_).getD v,
    Keyed.lookup_filter_keys fun name => decide (name ∉ diff.removed.map Prod.fst)]
  congr 1
  cases hr : diff.removed.lookup name with
  | some v =>
    rw [decide_eq_false (not_not.mpr (Keyed.mem_keys_of_lookup hr)),if_neg Bool.false_ne_true]
    rfl
  | none => rw [decide_eq_true (Keyed.lookup_eq_none_iff.mp hr),if_pos rfl]

theorem apply_nodup {diff : CorrectionDiff} {d : Dict} (hd : (d.map Prod.fst).Nodup)
    (hadded : (diff.added.map Prod.fst).Nodup) (hnew : ∀ name ∈ diff.added.map Prod.fst, d.lookup name = none) :
    ((diff.apply d).map Prod.fst).Nodup := by
  rw [CorrectionDiff.apply,List.map_append,List.map_map]
  refine List.nodup_append'.mpr ⟨?_,hadded,?_⟩
  · exact Keyed.nodup_filter hd _
  · intro name hname hmem
    obtain ⟨p,hp,rfl⟩ := List.mem_map.mp hname
    exact Keyed.lookup_eq_none_iff.mp (hnew p.1 hmem) (List.mem_map_of_mem (List.mem_of_mem_filter hp))

section Lossless
variable {original corrected : Dict}

theorem mem_added {name : String} : name ∈ (diffExtractionData original corrected).added.map Prod.fst ↔
    original.lookup name = none ∧ (corrected.lookup name).isSome := by
  rw [← Keyed.lookup_isSome_iff,added_lookup]
  cases original.lookup name <;> simp

theorem mem_removed {name : String} : name ∈ (diffExtractionData original corrected).removed.map Prod.fst ↔
    (original.lookup name).isSome ∧ corrected.lookup name = none := by
  rw [← Keyed.lookup_isSome_iff,removed_lookup,removedOf]
  cases corrected.lookup name <;> simp

theorem mem_changed {name : String} : name ∈ (diffExtractionData original corrected).changed.map Prod.fst ↔
    ∃ v w, original.lookup name = some v ∧ corrected.lookup name = some w ∧ v.pyEq w = false := by
  rw [← Keyed.lookup_isSome_iff,changed_lookup,changedOf]
  cases original.lookup name with
  | none => simp
  | some v =>
    cases corrected.lookup name with
    | none => simp
    | some w => cases he : v.pyEq w <;> simp [he]

/-- A value that is absent on both sides, equal, or found by the diff. -/
theorem apply_sameUnder (hcorrected : (Json.obj corrected).Plain) (name : String) :
    Json.SameUnder (((diffExtractionData original corrected).apply original).lookup name) (corrected.lookup name) := by
  rw [apply_lookup,removed_lookup,changed_lookup,added_lookup,removedOf,changedOf]
  cases ho : original.lookup name with
  | none =>
    cases hc : corrected.lookup name with
    | none => exact .none
    | some w => exact .some (Json.pyEq_self w (hcorrected.lookup hc))
  | some v =>
    cases hc : corrected.lookup name with
    | none => exact .none
    | some w =>
      cases he : v.pyEq w with
      | true => exact .some (by simp [he])
      | false => exact .some (by simpa [he] using Json.pyEq_self w (hcorrected.lookup hc))

theorem undo_sameUnder (horiginal : (Json.obj original).Plain) (name : String) :
    Json.SameUnder (original.lookup name) (((diffExtractionData original corrected).undo corrected).lookup name) := by
  rw [undo,apply_lookup,inverse]
  dsimp only
  rw [Keyed.lookup_map_values fun _ (f : ChangedField) => (⟨f.to_,f.from_⟩ : ChangedField),
    removed_lookup,changed_lookup,added_lookup,removedOf,changedOf]
  cases ho : original.lookup name with
  | none => cases hc : corrected.lookup name <;> exact .none
  | some v =>
    cases hc : corrected.lookup name with
    | none => exact .some (Json.pyEq_self v (horiginal.lookup ho))
    | some w =>
      cases he : v.pyEq w with
      | true => exact .some (by simp [he])
      | false => exact .some (by simpa [he] using Json.pyEq_self v (horiginal.lookup ho))

/-- What a diff from one object to another has to be. -/
structure Lossless (diff : CorrectionDiff) (original corrected : Dict) : Prop where
  added_removed : (diff.added.map Prod.fst).Disjoint (diff.removed.map Prod.fst)
  added_changed : (diff.added.map Prod.fst).Disjoint (diff.changed.map Prod.fst)
  removed_changed : (diff.removed.map Prod.fst).Disjoint (diff.changed.map Prod.fst)
  empty_iff : (diff.added = [] ∧ diff.removed = [] ∧ diff.changed = []) ↔
    (Json.obj original).pyEq (.obj corrected) = true
  applied : (Json.obj (diff.apply original)).pyEq (.obj corrected) = true
  undone : (Json.obj original).pyEq (.obj (diff.undo corrected)) = true
  /-- A null on one side only. -/
  null_added : ∀ name, original.lookup name = none → corrected.lookup name = some .null →
    diff.added.lookup name = some .null
  null_removed : ∀ name, original.lookup name = some .null → corrected.lookup name = none →
    diff.removed.lookup name = some .null

theorem keys_eq_nil {α : Type} {d : List (String × α)} : d = [] ↔ ∀ name, name ∉ d.map Prod.fst := by
  rw [← List.eq_nil_iff_forall_not_mem,List.map_eq_nil_iff]

theorem empty_iff (horiginal : (Json.obj original).Plain) (hcorrected : (Json.obj corrected).Plain) :
    ((diffExtractionData original corrected).added = [] ∧ (diffExtractionData original corrected).removed = [] ∧
      (diffExtractionData original corrected).changed = []) ↔
      (Json.obj original).pyEq (.obj corrected) = true := by
  rw [Json.pyEq_obj_iff horiginal.1 hcorrected.1,keys_eq_nil,keys_eq_nil,keys_eq_nil,← forall_and,← forall_and]
  refine forall_congr' fun name => ?_
  rw [mem_added,mem_removed,mem_changed]
  cases ho : original.lookup name with
  | none =>
    cases hc : corrected.lookup name with
    | none => simp [Json.SameUnder]
    | some w => simp [Json.SameUnder]
  | some v =>
    cases hc : corrected.lookup name with
    | none => simp [Json.SameUnder]
    | some w => cases he : v.pyEq w <;> simp [Json.SameUnder,he]

theorem diff_lossless (horiginal : (Json.obj original).Plain) (hcorrected : (Json.obj corrected).Plain) :
    Lossless (diffExtractionData original corrected) original corrected where
  added_removed name ha hr := by
    rw [mem_added] at ha
    rw [mem_removed,ha.1] at hr
    cases hr.1
  added_changed name ha hc := by
    obtain ⟨v,w,hv,-⟩ := mem_changed.mp hc
    cases (mem_added.mp ha).1.symm.trans hv
  removed_changed name hr hc := by
    obtain ⟨v,w,-,hw,-⟩ := mem_changed.mp hc
    cases (mem_removed.mp hr).2.symm.trans hw
  empty_iff := empty_iff horiginal hcorrected
  applied := by
    refine (Json.pyEq_obj_iff ?_ hcorrected.1).mpr (apply_sameUnder hcorrected)
    exact apply_nodup horiginal.1 nodup_added fun name hname => (mem_added.mp hname).1
  undone := by
    refine (Json.pyEq_obj_iff horiginal.1 ?_).mpr (undo_sameUnder horiginal)
    exact apply_nodup hcorrected.1 nodup_removed fun name hname => (mem_removed.mp hname).2
  null_added name ho hc := by rw [added_lookup,ho,hc]
  null_removed name ho hc := by rw [removed_lookup,removedOf,hc,ho]

end Lossless

end CorrectionDiff

namespace Validation
variable {P : Pydantic} {u : Unicode} {s : Schema} {docType : String}

/-- A record of a schema's fields is an object without NaN and without repeated keys. -/
theorem dumpFields_plain (hs : SchemaRegistry.getSchema docType = .ok s) {value : FieldInfo → Value}
    (hvalue : ∀ f ∈ s.fields, (P.dump (value f)).Plain) :
    (Json.obj (P.dumpFields (s.fields.map fun f => (f.name,value f)))).Plain := by
  refine ⟨?_,Pydantic.plainFields fun p hp => ?_⟩
  · rw [P.dumpFields_keys,List.map_map]
    exact SchemaRegistry.names_nodup hs
  · obtain ⟨f,hf,rfl⟩ := List.mem_map.mp hp
    exact hvalue f hf

theorem validatedFieldValue_dump_plain (hs : SchemaRegistry.getSchema docType = .ok s) {f : FieldInfo}
    (hf : f ∈ s.fields) {v : Json} {x : Value} (h : validatedFieldValue P u s f v = .ok x) : (P.dump x).Plain := by
  unfold validatedFieldValue at h
  cases hm : s.modelValidate P u (.obj (candidate s f.name v)) with
  | error es =>
    rw [hm] at h
    have hy : P.annotation f.annotation v = .ok x := mapError_ok h
    have hregular := SchemaRegistry.regular hs f hf
    exact Pydantic.annotation_plain hregular.annotation hy
  | ok r =>
    obtain ⟨-,rfl,-⟩ := Schema.modelValidate_ok_iff.mp hm
    rw [hm] at h
    dsimp only at h
    rw [parsedRecord_value (SchemaRegistry.names_nodup hs) hf] at h
    cases h
    exact Pydantic.parsedValue_plain (SchemaRegistry.regular hs f hf) _

theorem extractedData_plain (hs : SchemaRegistry.getSchema docType = .ok s) {d data : Dict} {r : ValidationResult}
    (hr : validateExtraction P u docType (.obj d) = .ok r) (hdata : r.extractedData = some data) :
    (Json.obj data).Plain := by
  cases hm : s.modelValidate P u (.obj d) with
  | ok x =>
    obtain ⟨-,rfl,-⟩ := Schema.modelValidate_ok_iff.mp hm
    rw [extractedData_of_valid hs hm hr] at hdata
    cases hdata
    exact dumpFields_plain hs fun f hf => Pydantic.parsedValue_plain (SchemaRegistry.regular hs f hf) d
  | error es =>
    rw [extractedData_of_invalid hs hm hr] at hdata
    split at hdata
    · cases hdata
      refine dumpFields_plain hs fun f hf => ?_
      unfold recoveredValue
      split
      · split
        · next hv => exact validatedFieldValue_dump_plain hs hf hv
        · trivial
      · trivial
    · cases hdata

end Validation

namespace CorrectionService
variable {P : Pydantic} {u : Unicode} {extraction : Extraction} {request : CorrectionRequest} {id : Uuid}
  {createdAt : Time} {table table' : List ExtractionCorrection} {correction : ExtractionCorrection}

/-- What is stored was validated, and it is compared with what was extracted or with the empty object. -/
theorem create_ok (h : create P u extraction request id createdAt table = .ok (correction,table')) :
    ∃ r, Validation.validateExtraction P u extraction.docType (.obj request.correctedData) = .ok r ∧
      r.extractedData = some correction.correctedData ∧ correction.correctionDiff =
        diffExtractionData (extraction.extractedData.getD []) correction.correctedData := by
  cases hr : Validation.validateExtraction P u extraction.docType (.obj request.correctedData) with
  | error e =>
    simp only [create,hr,Except.mapError,bind,Except.bind] at h
    cases h
  | ok r =>
    cases hdata : r.extractedData with
    | none =>
      rw [create_rejected hr hdata] at h
      cases h
    | some data =>
      obtain ⟨correction',hcreate,rfl,hdiff⟩ := create_accepted hr hdata id createdAt table
      cases hcreate.symm.trans h
      exact ⟨r,rfl,hdata,hdiff⟩

/-- **The diff of a correction is a lossless patch**, between any two objects and so between what
was extracted and what is stored as its correction. -/
theorem correction_lossless :
    (∀ original corrected : Dict, (Json.obj original).Plain → (Json.obj corrected).Plain →
      (diffExtractionData original corrected).Lossless original corrected) ∧
    ∀ (P : Pydantic) (u : Unicode) (extraction : Extraction) (request : CorrectionRequest) (id : Uuid)
      (createdAt : Time) (table table' : List ExtractionCorrection) (correction : ExtractionCorrection),
      (Json.obj (extraction.extractedData.getD [])).Plain →
      create P u extraction request id createdAt table = .ok (correction,table') →
      correction.correctionDiff.Lossless (extraction.extractedData.getD []) correction.correctedData := by
  refine ⟨fun original corrected => CorrectionDiff.diff_lossless,?_⟩
  intro P u extraction request id createdAt table table' correction hplain hcreate
  obtain ⟨r,hr,hdata,hdiff⟩ := create_ok hcreate
  obtain ⟨s,hs⟩ : ∃ s, SchemaRegistry.getSchema extraction.docType = .ok s := by
    cases hs : SchemaRegistry.getSchema extraction.docType with
    | ok s => exact ⟨s,rfl⟩
    | error e =>
      simp only [Validation.validateExtraction,hs,bind,Except.bind] at hr
      cases hr
  rw [hdiff]
  exact CorrectionDiff.diff_lossless hplain (Validation.extractedData_plain hs hr hdata)

/-- An extraction that found nothing. -/
def failedExtraction : Extraction :=
  ⟨.old 1,.old 0,"contract",.failed,none,none,none,none,"single_pass",none,"gpt",0,0,0,0⟩

theorem ownContract_lossless :
    (diffExtractionData [("a",.null),("b",.int 1)] [("b",.int 2)]).Lossless [("a",.null),("b",.int 1)] [("b",.int 2)] ∧
    ∃ correction, create .basicBack .ascii failedExtraction ⟨Validation.ownContract,none,none⟩ (.old 2) 1 [] =
      .ok (correction,[correction]) ∧ correction.correctionDiff.Lossless [] correction.correctedData := by
  refine ⟨correction_lossless.1 _ _ ⟨by decide,trivial,trivial,trivial⟩ ⟨by decide,trivial,trivial⟩,_,rfl,?_⟩
  exact correction_lossless.2 .basicBack .ascii failedExtraction ⟨Validation.ownContract,none,none⟩ (.old 2) 1 [] _ _
    ⟨List.nodup_nil,trivial⟩ rfl

end CorrectionService

end StructuredExtractor
