import StructuredExtractor.Library.Pool

/-! # Programs that stop at the first failure

A straight program catches nothing: the first exception that an operation raises ends
it. What its operations keep whenever they succeed therefore holds when it returns,
and nothing has to be said about what a failure leaves.
-/
namespace StructuredExtractor

namespace Prog
variable {Op : Type} {Reply : Op → Type} {ε α β Λ L G : Type} {P : Op → Prop}

/-- The program asks only for operations in `P` and ends with the first exception. -/
def Straight (P : Op → Prop) : Prog Reply ε α → Prop
  | .done _ => True
  | .call op k => P op ∧ (∀ e, k (.error e) = .done (.error e)) ∧ ∀ a, (k (.ok a)).Straight P

theorem straight_perform {op : Op} (h : P op) : (perform op : Prog Reply ε (Reply op)).Straight P :=
  ⟨h,fun _ => rfl,fun _ => trivial⟩

theorem Straight.bind {p : Prog Reply ε α} {f : α → Prog Reply ε β} (hp : p.Straight P)
    (hf : ∀ a, (f a).Straight P) : (p >>= f).Straight P := by
  induction p with
  | done r =>
    cases r with
    | ok a => exact hf a
    | error e => trivial
  | call op k ih =>
    refine ⟨hp.1,fun e => ?_,fun a => ih _ (hp.2.2 a)⟩
    show (k (.error e)).bind f = _
    rw [hp.2.1 e]
    rfl

theorem Straight.only {p : Prog Reply ε α} (hp : p.Straight P) : p.Only P := by
  induction p with
  | done r => trivial
  | call op k ih =>
    refine ⟨hp.1,fun r => ?_⟩
    cases r with
    | ok a => exact ih _ (hp.2.2 a)
    | error e => rw [hp.2.1 e]; trivial

theorem straight_forM {γ : Type} {f : γ → Prog Reply ε PUnit} (xs : List γ) (hf : ∀ x ∈ xs, (f x).Straight P) :
    (forM xs f).Straight P := by
  induction xs with
  | nil => trivial
  | cons x xs ih =>
    rw [List.forM_cons]
    exact (hf x List.mem_cons_self).bind fun _ => ih fun y hy => hf y (List.mem_cons_of_mem _ hy)

theorem ofExcept_bind (a : α) (f : α → Prog Reply ε β) : (ofExcept (.ok a) >>= f) = f a := rfl

variable {h : Handler Reply ε (Λ × G)} {D : Discipline L G} {i : ℕ} {label : L}

/-- What the operations keep when they succeed holds when the program returns. -/
theorem Straight.safe {I : Λ → G → Prop} {p : Prog Reply ε α} {l : Λ} {g : G} (hp : p.Straight P)
    (hrely : ∀ l g g', I l g → D.rely i g g' → I l g')
    (hguar : ∀ op l g, P op → I l g → D.guar i label g (h op (l,g)).2.2)
    (hstep : ∀ op l g a, P op → I l g → (h op (l,g)).1 = .ok a → I (h op (l,g)).2.1 (h op (l,g)).2.2)
    (hI : I l g) : p.Safe h D i label (fun r l g => r.isOk → I l g) l g := by
  induction p generalizing l g with
  | done r => exact fun g' hg _ => hrely l g g' hI hg
  | call op k ih =>
    intro g' hg
    have hI' := hrely l g g' hI hg
    refine ⟨hguar op l g' hp.1 hI',?_⟩
    cases hr : (h op (l,g')).1 with
    | ok a => exact ih _ (hp.2.2 a) (hstep op l g' a hp.1 hI' hr)
    | error e =>
      rw [hp.2.1 e]
      intro g'' _ hok
      cases hok

end Prog

end StructuredExtractor
