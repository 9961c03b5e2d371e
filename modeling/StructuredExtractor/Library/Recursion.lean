import Mathlib.Order.WellFoundedSet

/-! # Recursion to a bounded depth

A function that is given a depth and calls itself one level less deep. Where the calls
come to an end the function settles: from some depth on, its value is that of the
recursion without a bound.
-/
namespace StructuredExtractor.Recursion
variable {α β : Type}

/-- From some depth on, the value at `a` is `b`. -/
def Settled (f : ℕ → α → β) (a : α) (b : β) : Prop := ∃ least, ∀ depth, least ≤ depth → f depth a = b

section Settled
variable {f : ℕ → α → β} {a : α} {b b' : β}

theorem Settled.unique (h : Settled f a b) (h' : Settled f a b') : b = b' := by
  obtain ⟨least,hleast⟩ := h
  obtain ⟨least',hleast'⟩ := h'
  exact (hleast _ (le_max_left least least')).symm.trans (hleast' _ (le_max_right least least'))

/-- Finitely many values are settled from one depth on. -/
theorem Settled.uniform {s : Set α} (hs : s.Finite) {g : α → β} (h : ∀ a ∈ s, Settled f a (g a)) :
    ∃ least, ∀ depth, least ≤ depth → ∀ a ∈ s, f depth a = g a := by
  induction s, hs using Set.Finite.induction_on with
  | empty => exact ⟨0,fun _ _ a ha => ha.elim⟩
  | insert _ _ ih =>
    obtain ⟨least,hleast⟩ := h _ (Set.mem_insert _ _)
    obtain ⟨least',hleast'⟩ := ih fun a ha => h a (Set.mem_insert_of_mem _ ha)
    refine ⟨max least least',fun depth hdepth a ha => ?_⟩
    obtain rfl | ha := ha
    · exact hleast depth (le_trans (le_max_left _ _) hdepth)
    · exact hleast' depth (le_trans (le_max_right _ _) hdepth) a ha

open Classical in
/-- The value that is settled, if one is. -/
noncomputable def limit (f : ℕ → α → β) (a : α) : β :=
  if h : ∃ b, Settled f a b then h.choose else f 0 a

theorem limit_settled (h : ∃ b, Settled f a b) : Settled f a (limit f a) := by
  rw [limit,dif_pos h]
  exact h.choose_spec

theorem Settled.limit_eq (h : Settled f a b) : limit f a = b := (limit_settled ⟨b,h⟩).unique h

end Settled

/-- One level of a recursion: what is computed of an argument by the values at the arguments
that it calls, which are finitely many. -/
structure Level (f : ℕ → α → β) (step : (α → β) → α → β) (Calls : α → α → Prop) : Prop where
  succ : ∀ depth a, f (depth + 1) a = step (f depth) a
  congr : ∀ a g g', (∀ b, Calls a b → g b = g' b) → step g a = step g' a
  finite : ∀ a, {b | Calls a b}.Finite

namespace Level
variable {f : ℕ → α → β} {step : (α → β) → α → β} {Calls : α → α → Prop} (hlevel : Level f step Calls)
include hlevel

/-- Where the calls are settled, the value is. -/
theorem settled_step {a : α} {g : α → β} (h : ∀ b, Calls a b → Settled f b (g b)) : Settled f a (step g a) := by
  obtain ⟨least,hleast⟩ := Settled.uniform (hlevel.finite a) h
  refine ⟨least + 1,fun depth hdepth => ?_⟩
  obtain ⟨depth,rfl⟩ : ∃ k, depth = k + 1 := ⟨depth - 1,by omega⟩
  rw [hlevel.succ]
  exact hlevel.congr a _ _ (hleast depth (by omega))

/-- Where the calls come to an end, the function settles. -/
theorem settles {a : α} (h : Acc (fun b a => Calls a b) a) : ∃ b, Settled f a b := by
  induction h with
  | intro a _ ih => exact ⟨_,hlevel.settled_step fun b hb => limit_settled (ih b hb)⟩

/-- The settled values solve the equation of the recursion. -/
theorem limit_eq {a : α} (h : Acc (fun b a => Calls a b) a) : limit f a = step (limit f) a := by
  refine Settled.limit_eq (hlevel.settled_step fun b hb => limit_settled (hlevel.settles ?_))
  exact h.inv hb

end Level

/-- A relation without cycles is well founded below an element that reaches finitely many. -/
theorem acc_of_acyclic {r : α → α → Prop} (hacyclic : ∀ a, ¬ Relation.TransGen r a a) {a : α}
    (hfinite : {b | Relation.TransGen r b a}.Finite) : Acc r a := by
  have horder : IsStrictOrder α (Relation.TransGen r) :=
    { irrefl := hacyclic, trans := fun _ _ _ => Relation.TransGen.trans }
  refine (Set.WellFoundedOn.acc_iff_wellFoundedOn.out 0 2).mpr ?_
  exact hfinite.wellFoundedOn.mono (fun _ _ => Relation.TransGen.single) subset_rfl

/-- A rank that falls along a relation leaves it without cycles. -/
theorem acyclic_of_rank {r : α → α → Prop} (rank : α → ℕ) (h : ∀ a b, r a b → rank b < rank a) (a : α) :
    ¬ Relation.TransGen r a a := by
  have hfalls : ∀ b, Relation.TransGen r a b → rank b < rank a := fun b hb => by
    induction hb with
    | single hab => exact h a _ hab
    | tail _ hbc ih => exact (h _ _ hbc).trans ih
  exact fun hcycle => lt_irrefl _ (hfalls a hcycle)

/-- What holds along a relation holds here and along it from every next element. -/
theorem forall_reachable_iff {r : α → α → Prop} {p : α → Prop} {a : α} :
    (∀ b, Relation.ReflTransGen r a b → p b) ↔ p a ∧ ∀ b, r a b → ∀ c, Relation.ReflTransGen r b c → p c := by
  constructor
  · exact fun h => ⟨h a .refl,fun b hb c hc => h c (.head hb hc)⟩
  · rintro ⟨ha,hnext⟩ b hb
    obtain rfl | ⟨c,hac,hcb⟩ := hb.cases_head
    · exact ha
    · exact hnext c hac b hcb

end StructuredExtractor.Recursion
