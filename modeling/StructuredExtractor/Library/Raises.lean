import StructuredExtractor.Library.Prog

/-! # What a computation raises

`Raises E r` says that the result `r`, if it is an exception, is one in `E`. A
program raises only such exceptions when it always ends so.
-/
namespace StructuredExtractor
variable {ε ε' α β : Type} {E : ε → Prop}

def Raises (E : ε → Prop) (r : Except ε α) : Prop := ∀ e, r = .error e → E e

theorem raises_ok (a : α) : Raises E (.ok a : Except ε α) := fun _ h => by cases h

theorem raises_error {e : ε} (h : E e) : Raises E (.error e : Except ε α) := fun _ h' => by
  cases h'
  exact h

theorem Raises.bind {r : Except ε α} {f : α → Except ε β} (hr : Raises E r)
    (hf : ∀ a, Raises E (f a)) : Raises E (r >>= f) := by
  cases r with
  | ok a => exact hf a
  | error e => exact raises_error (hr e rfl)

theorem Raises.map {r : Except ε α} (hr : Raises E r) (f : α → β) : Raises E (r.map f) := by
  cases r with
  | ok a => exact raises_ok (f a)
  | error e => exact raises_error (hr e rfl)

theorem raises_mapError {r : Except ε' α} {f : ε' → ε} (hf : ∀ e, E (f e)) : Raises E (r.mapError f) := by
  cases r with
  | ok a => exact raises_ok a
  | error e => exact raises_error (hf e)

theorem raises_mapM {f : α → Except ε β} {xs : List α} (hf : ∀ a ∈ xs, Raises E (f a)) :
    Raises E (xs.mapM f) := by
  induction xs with
  | nil => exact raises_ok _
  | cons x xs ih =>
    rw [List.mapM_cons]
    exact (hf x List.mem_cons_self).bind fun _ =>
      (ih fun a ha => hf a (List.mem_cons_of_mem x ha)).bind fun _ => raises_ok _

theorem raises_foldlM {f : β → α → Except ε β} {xs : List α} (hf : ∀ b a, Raises E (f b a)) (b : β) :
    Raises E (xs.foldlM f b) := by
  induction xs generalizing b with
  | nil => exact raises_ok b
  | cons x xs ih =>
    rw [List.foldlM_cons]
    exact (hf b x).bind ih

namespace Prog
variable {Op : Type} {Reply : Op → Type} {P : Op → Prop}

theorem Always.bind {p : Prog Reply ε α} {f : α → Prog Reply ε β} (hp : p.Always P (Raises E))
    (hf : ∀ a, (f a).Always P (Raises E)) : (p >>= f).Always P (Raises E) :=
  always_bind hp (fun a _ => hf a) fun e h => raises_error (h e rfl)

/-- Only what the handler raises gets out. -/
theorem always_catch {p : Prog Reply ε α} {c : ε → Prog Reply ε α} (hp : p.Only P)
    (hc : ∀ e, (c e).Always P (Raises E)) : (tryCatch p c).Always P (Raises E) :=
  always_tryCatch hp (fun a _ => raises_ok a) fun e _ => hc e

theorem always_throw {e : ε} (h : E e) : (throw e : Prog Reply ε α).Always P (Raises E) := raises_error h

theorem always_foldlM {f : β → α → Prog Reply ε β} {xs : List α}
    (hf : ∀ b a, (f b a).Always P (Raises E)) (b : β) : (xs.foldlM f b).Always P (Raises E) := by
  induction xs generalizing b with
  | nil => exact raises_ok b
  | cons x xs ih =>
    rw [List.foldlM_cons]
    exact (hf b x).bind ih

end Prog

end StructuredExtractor
