import StructuredExtractor.Library.Collect
import Mathlib.Algebra.BigOperators.Group.List.Basic
import Mathlib.Algebra.GroupWithZero.Nat

/-! # Loops under a limit

A loop that takes one value after the other, keeps what it took with a running total, and
raises as soon as the total exceeds a limit. How the total comes about does not matter.
-/
namespace StructuredExtractor.Limited
variable {ε α β : Type}

/-- One value: taken, weighed, and kept unless the total exceeds the limit with it. -/
def step (limit : ℕ) (weight : β → ℕ) (exceeded : ε) (take : α → Except ε β) (kept : List β × ℕ) (a : α) :
    Except ε (List β × ℕ) := do
  let b ← take a
  if limit < kept.2 + weight b then throw exceeded
  return (kept.1 ++ [b],kept.2 + weight b)

/-- The whole loop, and what it has kept. -/
def run (limit : ℕ) (weight : β → ℕ) (exceeded : ε) (take : α → Except ε β) (as : List α) : Except ε (List β) :=
  (as.foldlM (step limit weight exceeded take) ([],0)).map Prod.fst

variable {limit total : ℕ} {weight : β → ℕ} {exceeded e : ε} {take : α → Except ε β} {kept kept' : List β × ℕ} {a : α}
variable {as : List α} {bs : List β}

theorem step_eq_ok : step limit weight exceeded take kept a = .ok kept' ↔ ∃ b, take a = .ok b ∧
    kept.2 + weight b ≤ limit ∧ kept' = (kept.1 ++ [b],kept.2 + weight b) := by
  unfold step
  cases take a with
  | error e => simp [bind,Except.bind]
  | ok b =>
    by_cases h : limit < kept.2 + weight b
    · simp [bind,Except.bind,throw,throwThe,MonadExceptOf.throw,h,Nat.not_le.mpr h]
    · simp [bind,Except.bind,pure,Except.pure,h,Nat.le_of_not_lt h,eq_comm]

theorem step_eq_error (h : step limit weight exceeded take kept a = .error e) :
    take a = .error e ∨ e = exceeded := by
  unfold step at h
  cases htake : take a with
  | error e' =>
    rw [htake] at h
    exact .inl (congrArg _ (Except.error.inj h))
  | ok b =>
    rw [htake] at h
    by_cases hlimit : limit < kept.2 + weight b
    · simp only [bind,Except.bind,if_pos hlimit] at h
      exact .inr (Except.error.inj h).symm
    · simp only [bind,Except.bind,if_neg hlimit] at h
      cases h

/-- The loop comes through exactly when every value is taken and their weights together are
within the limit. -/
theorem foldlM_eq_ok (htotal : total ≤ limit) :
    as.foldlM (step limit weight exceeded take) (bs,total) = .ok kept ↔ ∃ new, as.map take = new.map .ok ∧
      total + (new.map weight).sum ≤ limit ∧ kept = (bs ++ new,total + (new.map weight).sum) := by
  induction as generalizing bs total kept with
  | nil =>
    constructor
    · intro h
      cases h
      exact ⟨[],rfl,htotal,by simp⟩
    · rintro ⟨new,hnew,-,rfl⟩
      obtain rfl : new = [] := List.map_eq_nil_iff.mp hnew.symm
      simp [pure,Except.pure]
  | cons a as ih =>
    rw [List.foldlM_cons]
    constructor
    · intro h
      obtain ⟨mid,hstep,hrest⟩ := bind_eq_ok h
      obtain ⟨b,hb,hlimit,rfl⟩ := step_eq_ok.mp hstep
      obtain ⟨new,hnew,hsum,rfl⟩ := (ih hlimit).mp hrest
      refine ⟨b :: new,by rw [List.map_cons,List.map_cons,hb,hnew],?_,?_⟩
      · simpa [Nat.add_assoc] using hsum
      · simp [Nat.add_assoc]
    · rintro ⟨new,hnew,hsum,rfl⟩
      cases new with
      | nil => cases hnew
      | cons b new =>
        obtain ⟨hb,hnew⟩ := List.cons.inj hnew
        rw [List.map_cons,List.sum_cons] at hsum
        have hlimit : total + weight b ≤ limit := by omega
        have hstep : step limit weight exceeded take (bs,total) a = .ok (bs ++ [b],total + weight b) :=
          step_eq_ok.mpr ⟨b,hb,hlimit,rfl⟩
        have hrest : as.foldlM (step limit weight exceeded take) (bs ++ [b],total + weight b) =
          .ok (bs ++ [b] ++ new,total + weight b + (new.map weight).sum) :=
          (ih hlimit).mpr ⟨new,hnew,by rwa [Nat.add_assoc],rfl⟩
        rw [hstep]
        refine hrest.trans ?_
        simp [Nat.add_assoc]

theorem map_take_eq {P : α → Prop} {g : α → β} (htake : ∀ a b, take a = .ok b ↔ P a ∧ b = g a) :
    as.map take = bs.map .ok ↔ (∀ a ∈ as, P a) ∧ bs = as.map g := by
  induction as generalizing bs with
  | nil => cases bs <;> simp
  | cons a as ih =>
    cases bs with
    | nil => simp
    | cons b bs =>
      simp only [List.map_cons,List.cons.injEq,ih,htake,List.forall_mem_cons]
      tauto

/-- A loop of which it is known which values are taken and as what. -/
theorem run_eq_ok {P : α → Prop} {g : α → β} (htake : ∀ a b, take a = .ok b ↔ P a ∧ b = g a) :
    run limit weight exceeded take as = .ok bs ↔
      (∀ a ∈ as, P a) ∧ (as.map fun a => weight (g a)).sum ≤ limit ∧ bs = as.map g := by
  have hweights : (as.map g).map weight = as.map fun a => weight (g a) := List.map_map
  constructor
  · intro h
    obtain ⟨kept,hkept,rfl⟩ := map_eq_ok h
    obtain ⟨new,hnew,hsum,rfl⟩ := (foldlM_eq_ok (Nat.zero_le limit)).mp hkept
    obtain ⟨hall,rfl⟩ := (map_take_eq htake).mp hnew
    rw [hweights,Nat.zero_add] at hsum
    exact ⟨hall,hsum,rfl⟩
  · rintro ⟨hall,hsum,rfl⟩
    rw [← hweights] at hsum
    have hkept : as.foldlM (step limit weight exceeded take) ([],0) =
        .ok ([] ++ as.map g,0 + ((as.map g).map weight).sum) :=
      (foldlM_eq_ok (Nat.zero_le limit)).mpr ⟨as.map g,(map_take_eq htake).mpr ⟨hall,rfl⟩,by rwa [Nat.zero_add],rfl⟩
    rw [run,hkept]
    rfl

theorem foldlM_eq_error (h : as.foldlM (step limit weight exceeded take) kept = .error e) :
    (∃ a ∈ as, take a = .error e) ∨ e = exceeded := by
  induction as generalizing kept with
  | nil => cases h
  | cons a as ih =>
    rw [List.foldlM_cons] at h
    cases hstep : step limit weight exceeded take kept a with
    | error e' =>
      rw [hstep] at h
      cases h
      exact (step_eq_error hstep).imp_left fun ha => ⟨a,List.mem_cons_self ..,ha⟩
    | ok kept' =>
      rw [hstep] at h
      exact (ih h).imp_left fun ⟨a',ha',he⟩ => ⟨a',List.mem_cons_of_mem _ ha',he⟩

/-- A loop that raises has met a value that is not taken, or exceeded its limit. -/
theorem run_eq_error (h : run limit weight exceeded take as = .error e) :
    (∃ a ∈ as, take a = .error e) ∨ e = exceeded :=
  foldlM_eq_error (map_error h)

end StructuredExtractor.Limited
