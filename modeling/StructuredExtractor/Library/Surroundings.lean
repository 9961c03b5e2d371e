import StructuredExtractor.Library.Pool

/-! # Pools in surroundings that move

What the threads of a pool share may also be changed by something that is no thread of
it: a second system that the pool reads and that goes its own way. A move is a step of
the pool or one of the surroundings. Rely and guarantee carry over when every thread
puts up with the surroundings.
-/
namespace StructuredExtractor

namespace Pool
variable {Op : Type} {Reply : Op → Type} {ε α Λ L G : Type}
variable (h : Handler Reply ε (Λ × G))
variable (starts : Pool Reply ε α Λ L G → Thread Reply ε α Λ L → G → Prop)
variable (around : G → G → Prop)

/-- A step of the pool, or of what is around it. -/
inductive Move : Pool Reply ε α Λ L G → Pool Reply ε α Λ L G → Prop
  | step {p p' : Pool Reply ε α Λ L G} (hs : Step h starts p p') : Move p p'
  | around {p : Pool Reply ε α Λ L G} {g : G} (hg : around p.shared g) : Move p ⟨p.threads,g⟩

/-- What moves lead to. -/
abbrev Moves : Pool Reply ε α Λ L G → Pool Reply ε α Λ L G → Prop := Relation.ReflTransGen (Move h starts around)

/-- The pools that moves lead to from a shared state without threads. -/
abbrev Within (g : G) (p : Pool Reply ε α Λ L G) : Prop := Moves h starts around ⟨[],g⟩ p

variable {h starts around}
variable {D : Discipline L G} {Q : ℕ → L → Except ε α → Λ → G → Prop}

theorem AllSafe.surrounded {p : Pool Reply ε α Λ L G} (hp : AllSafe h D Q p) {g : G} (hg : ∀ i, D.rely i p.shared g) :
    AllSafe h D Q ⟨p.threads,g⟩ := fun i t ht => (hp i t ht).rely (hg i)

/-- **Rely and guarantee in surroundings.** An invariant that the allowed steps and the
surroundings keep, and under which started threads are safe, holds wherever moves lead,
and there every thread is safe. -/
theorem within_induction {I : Pool Reply ε α Λ L G → Prop} {g : G} (hinit : I ⟨[],g⟩)
    (hrun : ∀ p i (t : Thread Reply ε α Λ L) op k, I p → AllSafe h D Q p → p.threads[i]? = some t →
      t.prog = .call op k → D.guar i t.label p.shared (h op (t.loc,p.shared)).2.2 →
      I ⟨p.threads.set i ⟨t.label,k (h op (t.loc,p.shared)).1,(h op (t.loc,p.shared)).2.1⟩,
        (h op (t.loc,p.shared)).2.2⟩)
    (hstart : ∀ p (t : Thread Reply ε α Λ L) g, I p → AllSafe h D Q p → starts p t g →
      (∀ i, D.rely i p.shared g) ∧
      t.prog.Safe h D p.threads.length t.label (Q p.threads.length t.label) t.loc g ∧ I ⟨p.threads ++ [t],g⟩)
    (haround : ∀ p g, I p → around p.shared g → (∀ i, D.rely i p.shared g) ∧ I ⟨p.threads,g⟩)
    {p : Pool Reply ε α Λ L G} (hp : Within h starts around g p) : I p ∧ AllSafe h D Q p := by
  induction hp with
  | refl => exact ⟨hinit,fun i t ht => by simp at ht⟩
  | tail _ hmove ih =>
    obtain ⟨hI,hsafe⟩ := ih
    cases hmove with
    | step hs =>
      cases hs with
      | run ht hop => exact ⟨hrun _ _ _ _ _ hI hsafe ht hop (hsafe.guar ht hop),hsafe.run ht hop⟩
      | start ht =>
        obtain ⟨hg,ht',hI'⟩ := hstart _ _ _ hI hsafe ht
        exact ⟨hI',hsafe.start hg ht'⟩
    | around hg =>
      obtain ⟨hrely,hI'⟩ := haround _ _ hI hg
      exact ⟨hI',hsafe.surrounded hrely⟩

/-- The pool goes on while its surroundings wait. -/
theorem Moves.steps {p₀ p p' : Pool Reply ε α Λ L G} (hp : Moves h starts around p₀ p)
    (hs : Relation.ReflTransGen (Step h starts) p p') : Moves h starts around p₀ p' :=
  hp.trans (hs.lift id fun _ _ hstep => .step hstep)

end Pool

end StructuredExtractor
