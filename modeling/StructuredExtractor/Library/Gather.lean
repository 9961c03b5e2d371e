import StructuredExtractor.Library.Prog
import Mathlib.Logic.Relation
import Mathlib.Order.GameAdd

/-! # Programs gathered under a semaphore

Items wait for one of `limit` permits, run their program while they hold it, and are
done with its outcome. One operation of one item is a step. Under every schedule, and
whatever else happens to the shared state, no more items than `limit` run, every item
keeps its place, and the schedule comes to an end.
-/
namespace StructuredExtractor

/-- Where an item is. -/
inductive Slot {Op : Type} (Reply : Op → Type) (ε α Λ : Type)
  | waiting (prog : Prog Reply ε α) (loc : Λ)
  | inside (prog : Prog Reply ε α) (loc : Λ)
  | done (r : Except ε α)

structure Gather {Op : Type} (Reply : Op → Type) (ε α Λ G : Type) where
  slots : List (Slot Reply ε α Λ)
  shared : G

section Gather
variable {Op : Type} {Reply : Op → Type} {ε α Λ G : Type}

namespace Slot

def isInside : Slot Reply ε α Λ → Bool
  | .inside _ _ => true
  | _ => false

def isDone : Slot Reply ε α Λ → Bool
  | .done _ => true
  | _ => false

/-- What an item may come to be next. -/
inductive Next : Slot Reply ε α Λ → Slot Reply ε α Λ → Prop
  | enter {p : Prog Reply ε α} {l : Λ} : Next (.inside p l) (.waiting p l)
  | act {op : Op} {k : Except ε (Reply op) → Prog Reply ε α} {l l' : Λ} (r : Except ε (Reply op)) :
      Next (.inside (k r) l') (.inside (.call op k) l)
  | leave {r : Except ε α} {l : Λ} : Next (.done r) (.inside (.done r) l)

/-- The item ends in `Q` when its answers are as `V` says. -/
def Given (V : (op : Op) → Except ε (Reply op) → Prop) (Q : Except ε α → Prop) : Slot Reply ε α Λ → Prop
  | .waiting p _ => p.Given V Q
  | .inside p _ => p.Given V Q
  | .done r => Q r

theorem acc_next (s : Slot Reply ε α Λ) : Acc Next s := by
  have hdone : ∀ r, Acc Next (.done r : Slot Reply ε α Λ) := fun r => ⟨_,fun s h => by cases h⟩
  have hinside : ∀ p l, Acc Next (.inside p l : Slot Reply ε α Λ) := by
    intro p
    induction p with
    | done r => exact fun l => ⟨_,fun s h => by cases h; exact hdone r⟩
    | call op k ih => exact fun l => ⟨_,fun s h => by cases h with | act r => exact ih r _⟩
  cases s with
  | waiting p l => exact ⟨_,fun s h => by cases h; exact hinside p l⟩
  | inside p l => exact hinside p l
  | done r => exact hdone r

end Slot

namespace Gather

def insideCount (slots : List (Slot Reply ε α Λ)) : ℕ := slots.countP Slot.isInside

/-- One item came to be something next. -/
def Later (slots' slots : List (Slot Reply ε α Λ)) : Prop :=
  ∃ (i : ℕ) (x y : Slot Reply ε α Λ), slots[i]? = some x ∧ slots' = slots.set i y ∧ y.Next x

/-- No schedule goes on for ever. -/
theorem acc_later (slots : List (Slot Reply ε α Λ)) : Acc Later slots := by
  induction slots with
  | nil => exact ⟨_,fun slots' ⟨i,x,y,hx,_⟩ => by cases hx⟩
  | cons x xs ih =>
    have hpair := Acc.prod_gameAdd x.acc_next ih
    generalize hp : (x,xs) = p at hpair
    induction hpair generalizing x xs with
    | intro p _ ihp =>
      subst hp
      refine ⟨_,?_⟩
      rintro _ ⟨i,y,z,hy,rfl,hnext⟩
      cases i with
      | zero =>
        obtain rfl := Option.some.inj hy
        exact ihp (z,xs) (.fst hnext) z xs ih rfl
      | succ i => exact ihp (x,xs.set i z) (.snd ⟨i,y,z,hy,rfl,hnext⟩) x _ (ih.inv ⟨i,y,z,hy,rfl,hnext⟩) rfl

variable (h : Handler Reply ε (Λ × G)) (limit : ℕ)

/-- A step of an item. -/
inductive Step : Gather Reply ε α Λ G → Gather Reply ε α Λ G → Prop
  | enter {slots : List (Slot Reply ε α Λ)} {g : G} {i : ℕ} {p : Prog Reply ε α} {l : Λ}
      (hi : slots[i]? = some (.waiting p l)) (hfree : insideCount slots < limit) :
      Step ⟨slots,g⟩ ⟨slots.set i (.inside p l),g⟩
  | act {slots : List (Slot Reply ε α Λ)} {g : G} {i : ℕ} {op : Op}
      {k : Except ε (Reply op) → Prog Reply ε α} {l : Λ} (hi : slots[i]? = some (.inside (.call op k) l)) :
      Step ⟨slots,g⟩ ⟨slots.set i (.inside (k (h op (l,g)).1) (h op (l,g)).2.1),(h op (l,g)).2.2⟩
  | leave {slots : List (Slot Reply ε α Λ)} {g : G} {i : ℕ} {r : Except ε α} {l : Λ}
      (hi : slots[i]? = some (.inside (.done r) l)) : Step ⟨slots,g⟩ ⟨slots.set i (.done r),g⟩

/-- The states after any steps, between which anything may happen to what is shared. -/
inductive Reachable (slots : List (Slot Reply ε α Λ)) : Gather Reply ε α Λ G → Prop
  | start (g : G) : Reachable slots ⟨slots,g⟩
  | step {s s' : Gather Reply ε α Λ G} (hs : Reachable slots s) (hstep : Step h limit s s') : Reachable slots s'
  | other {s : Gather Reply ε α Λ G} (hs : Reachable slots s) (g : G) : Reachable slots ⟨s.slots,g⟩

variable {h limit} {s s' : Gather Reply ε α Λ G} {slots : List (Slot Reply ε α Λ)}

theorem Step.later (hstep : Step h limit s s') : Later s'.slots s.slots := by
  cases hstep with
  | enter hi hfree => exact ⟨_,_,_,hi,rfl,.enter⟩
  | act hi => exact ⟨_,_,_,hi,rfl,.act _⟩
  | leave hi => exact ⟨_,_,_,hi,rfl,.leave⟩

/-- An invariant of the items holds of all of them. -/
theorem Reachable.induction {I : List (Slot Reply ε α Λ) → Prop} (hs : Reachable h limit slots s)
    (hstart : I slots) (hstep : ∀ s s', Step h limit s s' → I s.slots → I s'.slots) : I s.slots := by
  induction hs with
  | start g => exact hstart
  | step _ hs ih => exact hstep _ _ hs ih
  | other _ g ih => exact ih

theorem countP_set {β : Type} (p : β → Bool) {xs : List β} {i : ℕ} {x : β} (hi : xs[i]? = some x) (y : β) :
    (xs.set i y).countP p + (if p x then 1 else 0) = xs.countP p + if p y then 1 else 0 := by
  induction xs generalizing i with
  | nil => cases hi
  | cons z xs ih =>
    cases i with
    | zero =>
      obtain rfl := Option.some.inj hi
      simp only [List.set_cons_zero,List.countP_cons]
      omega
    | succ i =>
      have hrest := ih hi
      simp only [List.set_cons_succ,List.countP_cons]
      omega

theorem insideCount_set {i : ℕ} {x : Slot Reply ε α Λ} (hi : slots[i]? = some x) (y : Slot Reply ε α Λ) :
    insideCount (slots.set i y) + (if x.isInside then 1 else 0) =
      insideCount slots + if y.isInside then 1 else 0 := countP_set Slot.isInside hi y

/-- **The semaphore.** No more items are inside than there are permits. -/
theorem Reachable.inside_le (hs : Reachable h limit slots s) (hslots : insideCount slots ≤ limit) :
    insideCount s.slots ≤ limit := by
  refine hs.induction (I := fun slots => insideCount slots ≤ limit) hslots fun s s' hstep hle => ?_
  cases hstep with
  | @enter slots g i p l hi hfree =>
    have hcount : insideCount (slots.set i (.inside p l)) = insideCount slots + 1 := insideCount_set hi _
    exact hcount.trans_le hfree
  | @act slots g i op k l hi =>
    have hcount : insideCount (slots.set i (.inside (k (h op (l,g)).1) (h op (l,g)).2.1)) + 1 =
      insideCount slots + 1 := insideCount_set hi _
    exact (Nat.add_right_cancel hcount).trans_le hle
  | @leave slots g i r l hi =>
    have hcount : insideCount (slots.set i (.done r)) + 1 = insideCount slots := insideCount_set hi _
    exact (Nat.le_of_lt (Nat.lt_of_succ_le hcount.le)).trans hle

/-- Every item keeps its place. -/
theorem Reachable.length (hs : Reachable h limit slots s) : s.slots.length = slots.length := by
  refine hs.induction (I := fun slots' => slots'.length = slots.length) rfl fun s s' hstep hlen => ?_
  obtain ⟨i,x,y,-,hset,-⟩ := hstep.later
  rw [hset,List.length_set,hlen]

/-- While an item is not done, some item can go on. -/
theorem exists_step (hlimit : 0 < limit) (hnot : ∃ x ∈ s.slots, x.isDone = false) : ∃ s', Step h limit s s' := by
  obtain ⟨slots,g⟩ := s
  obtain ⟨x,hx,hdone⟩ := hnot
  by_cases hinside : ∃ y ∈ slots, y.isInside = true
  · obtain ⟨y,hy,hin⟩ := hinside
    obtain ⟨i,hi⟩ := List.mem_iff_getElem?.mp hy
    match y, hin with
    | .inside (.done r) l, _ => exact ⟨_,.leave hi⟩
    | .inside (.call op k) l, _ => exact ⟨_,.act hi⟩
  · have hnone : insideCount slots = 0 := List.countP_eq_zero.mpr fun y hy hin => hinside ⟨y,hy,hin⟩
    obtain ⟨i,hi⟩ := List.mem_iff_getElem?.mp hx
    match x, hdone with
    | .waiting p l, _ => exact ⟨_,.enter hi (hnone ▸ hlimit)⟩
    | .inside p l, _ => exact absurd ⟨_,hx,rfl⟩ hinside

/-- When all items are done, their outcomes are a list. -/
theorem exists_outcomes {slots : List (Slot Reply ε α Λ)} (hdone : ∀ x ∈ slots, x.isDone = true) :
    ∃ outcomes : List (Except ε α), slots = outcomes.map Slot.done := by
  induction slots with
  | nil => exact ⟨[],rfl⟩
  | cons x slots ih =>
    obtain ⟨outcomes,rfl⟩ := ih fun y hy => hdone y (List.mem_cons_of_mem x hy)
    match x, hdone x List.mem_cons_self with
    | .done r, _ => exact ⟨r :: outcomes,rfl⟩

/-- An item that is inside may run to its end without a break. -/
theorem Reachable.finish {slots' : List (Slot Reply ε α Λ)} {g : G} {i : ℕ} {p : Prog Reply ε α} {l : Λ}
    (hs : Reachable h limit slots ⟨slots',g⟩) (hi : slots'[i]? = some (.inside p l)) :
    Reachable h limit slots ⟨slots'.set i (.done (p.run h (l,g)).1),(p.run h (l,g)).2.2⟩ := by
  have hlt : i < slots'.length := (List.getElem?_eq_some_iff.mp hi).1
  induction p generalizing slots' l g with
  | done r => exact hs.step (.leave hi)
  | call op k ih =>
    have hnext := ih _ (hs.step (.act hi)) (List.getElem?_set_self hlt) (by rwa [List.length_set])
    rwa [List.set_set] at hnext

/-- An item that waits may enter and run to its end. -/
theorem Reachable.through {slots' : List (Slot Reply ε α Λ)} {g : G} {i : ℕ} {p : Prog Reply ε α} {l : Λ}
    (hs : Reachable h limit slots ⟨slots',g⟩) (hi : slots'[i]? = some (.waiting p l))
    (hfree : insideCount slots' < limit) :
    Reachable h limit slots ⟨slots'.set i (.done (p.run h (l,g)).1),(p.run h (l,g)).2.2⟩ := by
  have hlt : i < slots'.length := (List.getElem?_eq_some_iff.mp hi).1
  have hdone := (hs.step (.enter hi hfree)).finish (List.getElem?_set_self hlt)
  rwa [List.set_set] at hdone

variable {V : (op : Op) → Except ε (Reply op) → Prop} {Q : Except ε α → Prop}

/-- When all answers are as `V` says, every item ends as it was told to. -/
theorem Reachable.given (hs : Reachable h limit slots s) (hV : ∀ op l g, V op (h op (l,g)).1)
    (hslots : ∀ x ∈ slots, x.Given V Q) : ∀ x ∈ s.slots, x.Given V Q := by
  refine hs.induction (I := fun slots => ∀ x ∈ slots, x.Given V Q) hslots fun s s' hstep hall => ?_
  have hset : ∀ {slots : List (Slot Reply ε α Λ)} {i : ℕ} {y : Slot Reply ε α Λ}, (∀ x ∈ slots, x.Given V Q) →
      y.Given V Q → ∀ x ∈ slots.set i y, x.Given V Q := fun hall hy x hx =>
    (List.mem_or_eq_of_mem_set hx).elim (hall x) fun hxy => hxy ▸ hy
  have hmem : ∀ {slots : List (Slot Reply ε α Λ)} {i : ℕ} {x : Slot Reply ε α Λ}, (∀ x ∈ slots, x.Given V Q) →
      slots[i]? = some x → x.Given V Q := fun hall hi => hall _ (List.mem_of_getElem? hi)
  cases hstep with
  | @enter slots g i p l hi hfree => exact hset hall (show p.Given V Q from hmem hall hi)
  | @act slots g i op k l hi => exact hset hall (hmem hall hi _ (hV op l g))
  | @leave slots g i r l hi => exact hset hall (show Q r from hmem hall hi)

end Gather

end Gather

end StructuredExtractor
