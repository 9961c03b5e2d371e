import Mathlib.Data.List.Forall2

/-! # Validation that reports every error

What a mapped or bound result comes from, and `collect`, which runs through results
in order and keeps all values, or, when one of them failed, the errors of all that
failed.
-/
namespace StructuredExtractor

theorem map_eq_ok {E α β : Type} {g : α → β} {r : Except E α} {b : β} (h : r.map g = .ok b) :
    ∃ a, r = .ok a ∧ g a = b := by
  cases r with
  | error e => cases h
  | ok a => exact ⟨a,rfl,Except.ok.inj h⟩

theorem mapError_ok {E F α : Type} {g : E → F} {r : Except E α} {a : α} (h : r.mapError g = .ok a) :
    r = .ok a := by
  cases r with
  | error e => cases h
  | ok b => cases h; rfl

theorem mapError_error {E F α : Type} {g : E → F} {r : Except E α} {b : F} (h : r.mapError g = .error b) :
    ∃ e, r = .error e ∧ g e = b := by
  cases r with
  | error e => exact ⟨e,rfl,Except.error.inj h⟩
  | ok a => cases h

theorem map_error {E α β : Type} {g : α → β} {r : Except E α} {e : E} (h : r.map g = .error e) :
    r = .error e := by
  cases r with
  | error e' => cases h; rfl
  | ok a => cases h

theorem bind_eq_ok {E α β : Type} {r : Except E α} {f : α → Except E β} {b : β} (h : r >>= f = .ok b) :
    ∃ a, r = .ok a ∧ f a = .ok b := by
  cases r with
  | error e => cases h
  | ok a => exact ⟨a,rfl,h⟩

theorem bind_isOk_iff {E α β : Type} {r : Except E α} {f : α → Except E β} :
    (∃ b, r >>= f = .ok b) ↔ ∃ a, r = .ok a ∧ ∃ b, f a = .ok b := by
  constructor
  · rintro ⟨b,h⟩
    obtain ⟨a,ha,hb⟩ := bind_eq_ok h
    exact ⟨a,ha,b,hb⟩
  · rintro ⟨a,rfl,hb⟩
    exact hb

theorem isOk_map {E α β : Type} {g : α → β} {r : Except E α} :
    (∃ b, r.map g = .ok b) ↔ ∃ a, r = .ok a := by
  cases r <;> simp [Except.map]

theorem isOk_mapError {E F α : Type} {g : E → F} {r : Except E α} :
    (∃ a, r.mapError g = .ok a) ↔ ∃ a, r = .ok a := by
  cases r <;> simp [Except.mapError]

/-- All the values in order, or all the errors in order. -/
def collect {E α : Type} : List (Except (List E) α) → Except (List E) (List α)
  | [] => .ok []
  | r :: rs =>
    match r, collect rs with
    | .ok a, .ok as => .ok (a :: as)
    | .ok _, .error es => .error es
    | .error e, .ok _ => .error e
    | .error e, .error es => .error (e ++ es)

namespace collect
variable {E α : Type}

@[simp] theorem nil : collect ([] : List (Except (List E) α)) = .ok [] := rfl

theorem eq_ok_iff {rs : List (Except (List E) α)} {as : List α} :
    collect rs = .ok as ↔ rs = as.map Except.ok := by
  induction rs generalizing as with
  | nil => cases as <;> simp
  | cons r rs ih =>
    rcases r with e | a <;> rcases h : collect rs with es | bs
    · cases as <;> simp [collect,h]
    · cases as <;> simp [collect,h]
    · rcases as with _ | ⟨b,as⟩
      · simp [collect,h]
      · have hn := (not_congr (@ih as)).mp (by simp [h])
        simp [collect,h,hn]
    · rcases as with _ | ⟨b,as⟩
      · simp [collect,h]
      · have hb := @ih as
        rw [h,Except.ok.injEq] at hb
        simp [collect,h,hb]

theorem map_ok {β : Type} {f : β → Except (List E) α} {bs : List β} {as : List α}
    (h : collect (bs.map f) = .ok as) : List.Forall₂ (fun b a => f b = .ok a) bs as := by
  rw [eq_ok_iff,← List.forall₂_eq_eq_eq,List.forall₂_map_left_iff,List.forall₂_map_right_iff] at h
  exact h

/-- Everything is kept exactly when nothing failed. -/
theorem isOk_iff {rs : List (Except (List E) α)} :
    (∃ as, collect rs = .ok as) ↔ ∀ r ∈ rs, ∃ a, r = .ok a := by
  simp only [eq_ok_iff]
  constructor
  · rintro ⟨as,rfl⟩ r hr
    obtain ⟨a,_,rfl⟩ := List.mem_map.mp hr
    exact ⟨a,rfl⟩
  · intro h
    induction rs with
    | nil => exact ⟨[],rfl⟩
    | cons r rs ih =>
      obtain ⟨a,rfl⟩ := h r List.mem_cons_self
      obtain ⟨as,rfl⟩ := ih (fun r hr => h r (List.mem_cons_of_mem _ hr))
      exact ⟨a :: as,rfl⟩

/-- The errors are those of the results that failed, and no others. -/
theorem mem_errors {rs : List (Except (List E) α)} {es : List E} (h : collect rs = .error es) (x : E) :
    x ∈ es ↔ ∃ e, .error e ∈ rs ∧ x ∈ e := by
  induction rs generalizing es with
  | nil => simp at h
  | cons r rs ih =>
    rcases r with e | a <;> rcases hc : collect rs with es' | bs <;> simp only [collect,hc] at h
    · cases h
      simp only [List.mem_append,ih hc,List.mem_cons,Except.error.injEq]
      constructor
      · rintro (hx | ⟨e',he,hx⟩)
        · exact ⟨e,Or.inl rfl,hx⟩
        · exact ⟨e',Or.inr he,hx⟩
      · rintro ⟨e',rfl | he,hx⟩
        · exact Or.inl hx
        · exact Or.inr ⟨e',he,hx⟩
    · cases h
      have hrs := isOk_iff.mp ⟨bs,hc⟩
      constructor
      · exact fun hx => ⟨_,List.mem_cons_self,hx⟩
      · rintro ⟨e',he,hx⟩
        rcases List.mem_cons.mp he with heq | he
        · cases heq; exact hx
        · obtain ⟨a,ha⟩ := hrs _ he
          cases ha
    · cases h
      simp only [ih hc,List.mem_cons,reduceCtorEq,false_or]
    · cases h

theorem error_ne_nil {rs : List (Except (List E) α)} {es : List E}
    (hrs : ∀ r ∈ rs, ∀ e, r = .error e → e ≠ []) (h : collect rs = .error es) : es ≠ [] := by
  have hfail : ∃ r ∈ rs, ∃ e, r = .error e := by
    by_contra hall
    have hok : ∀ r ∈ rs, ∃ a, r = .ok a := by
      intro r hr
      cases r with
      | ok a => exact ⟨a,rfl⟩
      | error e => exact absurd ⟨_,hr,e,rfl⟩ hall
    obtain ⟨as,ha⟩ := isOk_iff.mpr hok
    cases ha.symm.trans h
  obtain ⟨r,hr,e,rfl⟩ := hfail
  obtain ⟨x,hx⟩ := List.exists_mem_of_ne_nil e (hrs _ hr e rfl)
  exact List.ne_nil_of_mem ((mem_errors h x).mpr ⟨e,hr,hx⟩)

end collect

end StructuredExtractor
