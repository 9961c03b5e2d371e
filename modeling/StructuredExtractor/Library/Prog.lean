import Mathlib.Data.Stream.Init

/-! # Programs that ask an environment and may raise

A program is a finite tree: it has ended, with a value or with an exception, or
it asks for one operation and goes on with the answer, an exception included.
Nothing here fixes what the operations are. A handler answers them one at a time
against a state; `run` is the sequential execution under a handler.
-/
namespace StructuredExtractor

/-- A program over the operations `Op`, each answered by its `Reply` or by an
exception of type `ε`. -/
inductive Prog {Op : Type} (Reply : Op → Type) (ε α : Type) : Type
  | done (r : Except ε α)
  | call (op : Op) (k : Except ε (Reply op) → Prog Reply ε α)

/-- One answer, and the state it leaves. -/
abbrev Handler {Op : Type} (Reply : Op → Type) (ε σ : Type) : Type :=
  (op : Op) → σ → Except ε (Reply op) × σ

namespace Prog
variable {Op : Type} {Reply : Op → Type} {ε α β γ σ : Type}

protected def bind : Prog Reply ε α → (α → Prog Reply ε β) → Prog Reply ε β
  | .done (.ok a), f => f a
  | .done (.error e), _ => .done (.error e)
  | .call op k, f => .call op (fun r => (k r).bind f)

protected def tryCatch : Prog Reply ε α → (ε → Prog Reply ε α) → Prog Reply ε α
  | .done (.ok a), _ => .done (.ok a)
  | .done (.error e), h => h e
  | .call op k, h => .call op (fun r => (k r).tryCatch h)

instance : Monad (Prog Reply ε) where
  pure a := .done (.ok a)
  bind := Prog.bind

instance : MonadExcept ε (Prog Reply ε) where
  throw e := .done (.error e)
  tryCatch := Prog.tryCatch

/-- The program that asks once and returns the answer. -/
def perform (op : Op) : Prog Reply ε (Reply op) := .call op .done

/-- A program between the entry and the exit of a resource: when it raises, `undo` comes
before the exception goes on; when it returns, its result is out, and `close` comes after
it, or `undo` where that raises. -/
def scope (p : Prog Reply ε α) (close undo : Prog Reply ε Unit) : Prog Reply ε α := do
  let r ← tryCatch p fun e => do
    undo
    throw e
  tryCatch close fun _ => undo
  return r

/-- A computation that asks nothing. -/
def ofExcept (r : Except ε α) : Prog Reply ε α := .done r

protected theorem bind_pure (p : Prog Reply ε α) : p.bind pure = p := by
  induction p with
  | done r => cases r <;> rfl
  | call op k ih => simp only [Prog.bind, ih]

protected theorem bind_assoc (p : Prog Reply ε α) (f : α → Prog Reply ε β) (g : β → Prog Reply ε γ) :
    (p.bind f).bind g = p.bind (fun a => (f a).bind g) := by
  induction p with
  | done r => cases r <;> rfl
  | call op k ih => simp only [Prog.bind, ih]

instance : LawfulMonad (Prog Reply ε) :=
  LawfulMonad.mk' _ Prog.bind_pure (fun _ _ => rfl) Prog.bind_assoc

theorem map_tryCatch (f : α → β) (p : Prog Reply ε α) (c : ε → Prog Reply ε α) :
    f <$> tryCatch p c = tryCatch (f <$> p) fun e => f <$> c e := by
  induction p with
  | done r => cases r <;> rfl
  | call op k ih => exact congrArg (Prog.call op) (funext ih)

section Always
variable {P : Op → Prop}

/-- Whatever the answers are, the program asks only for operations in `P` and ends
in `Q`. -/
def Always (P : Op → Prop) (Q : Except ε α → Prop) : Prog Reply ε α → Prop
  | .done r => Q r
  | .call op k => P op ∧ ∀ r, (k r).Always P Q

theorem Always.mono {P' : Op → Prop} {Q Q' : Except ε α → Prop} {p : Prog Reply ε α}
    (hp : p.Always P Q) (hP : ∀ op, P op → P' op) (hQ : ∀ r, Q r → Q' r) : p.Always P' Q' := by
  induction p with
  | done r => exact hQ r hp
  | call op k ih => exact ⟨hP op hp.1,fun r => ih r (hp.2 r)⟩

theorem always_perform {op : Op} {Q : Except ε (Reply op) → Prop} (h : P op) (hQ : ∀ r, Q r) :
    (perform op : Prog Reply ε (Reply op)).Always P Q := ⟨h,hQ⟩

theorem always_bind {R : Except ε α → Prop} {Q : Except ε β → Prop} {p : Prog Reply ε α}
    {f : α → Prog Reply ε β} (hp : p.Always P R) (hok : ∀ a, R (.ok a) → (f a).Always P Q)
    (herror : ∀ e, R (.error e) → Q (.error e)) : (p >>= f).Always P Q := by
  induction p with
  | done r =>
    cases r with
    | ok a => exact hok a hp
    | error e => exact herror e hp
  | call op k ih => exact ⟨hp.1,fun r => ih r (hp.2 r)⟩

theorem always_tryCatch {R Q : Except ε α → Prop} {p : Prog Reply ε α} {c : ε → Prog Reply ε α}
    (hp : p.Always P R) (hok : ∀ a, R (.ok a) → Q (.ok a))
    (herror : ∀ e, R (.error e) → (c e).Always P Q) : (tryCatch p c).Always P Q := by
  induction p with
  | done r =>
    cases r with
    | ok a => exact hok a hp
    | error e => exact herror e hp
  | call op k ih => exact ⟨hp.1,fun r => ih r (hp.2 r)⟩

theorem always_map {Q : Except ε β → Prop} {p : Prog Reply ε α} {f : α → β}
    (hp : p.Always P fun r => Q (r.map f)) : (f <$> p).Always P Q := by
  induction p with
  | done r => cases r <;> exact hp
  | call op k ih => exact ⟨hp.1,fun r => ih r (hp.2 r)⟩

/-- The program asks only for operations in `P`. -/
abbrev Only (P : Op → Prop) (p : Prog Reply ε α) : Prop := p.Always P fun _ => True

theorem only_perform {op : Op} (h : P op) : (perform op : Prog Reply ε (Reply op)).Only P :=
  always_perform h fun _ => trivial

theorem Only.bind {p : Prog Reply ε α} {f : α → Prog Reply ε β} (hp : p.Only P)
    (hf : ∀ a, (f a).Only P) : (p >>= f).Only P :=
  always_bind hp (fun a _ => hf a) fun _ _ => trivial

theorem Only.tryCatch {p : Prog Reply ε α} {c : ε → Prog Reply ε α} (hp : p.Only P)
    (hc : ∀ e, (c e).Only P) : (tryCatch p c).Only P :=
  always_tryCatch hp (fun _ _ => trivial) fun e _ => hc e

theorem Only.map {p : Prog Reply ε α} (f : α → β) (hp : p.Only P) : (f <$> p).Only P := always_map hp

end Always

section Given
variable {V : (op : Op) → Except ε (Reply op) → Prop}

/-- When the answers are as `V` says, the program ends in `Q`. -/
def Given (V : (op : Op) → Except ε (Reply op) → Prop) (Q : Except ε α → Prop) : Prog Reply ε α → Prop
  | .done r => Q r
  | .call op k => ∀ r, V op r → (k r).Given V Q

theorem given_any (p : Prog Reply ε α) : p.Given V fun _ => True := by
  induction p with
  | done r => trivial
  | call op k ih => exact fun r _ => ih r

theorem given_perform {op : Op} {Q : Except ε (Reply op) → Prop} (hQ : ∀ r, V op r → Q r) :
    (perform op : Prog Reply ε (Reply op)).Given V Q := hQ

theorem given_bind {R : Except ε α → Prop} {Q : Except ε β → Prop} {p : Prog Reply ε α}
    {f : α → Prog Reply ε β} (hp : p.Given V R) (hok : ∀ a, R (.ok a) → (f a).Given V Q)
    (herror : ∀ e, R (.error e) → Q (.error e)) : (p >>= f).Given V Q := by
  induction p with
  | done r =>
    cases r with
    | ok a => exact hok a hp
    | error e => exact herror e hp
  | call op k ih => exact fun r hr => ih r (hp r hr)

theorem given_tryCatch {R Q : Except ε α → Prop} {p : Prog Reply ε α} {c : ε → Prog Reply ε α}
    (hp : p.Given V R) (hok : ∀ a, R (.ok a) → Q (.ok a)) (herror : ∀ e, R (.error e) → (c e).Given V Q) :
    (tryCatch p c).Given V Q := by
  induction p with
  | done r =>
    cases r with
    | ok a => exact hok a hp
    | error e => exact herror e hp
  | call op k ih => exact fun r hr => ih r (hp r hr)

end Given

section Translate
variable {Op' : Type} {Reply' : Op' → Type}

/-- The program goes on with what a part of it ends in, an exception included. -/
def next : Prog Reply ε α → (Except ε α → Prog Reply ε β) → Prog Reply ε β
  | .done r, k => k r
  | .call op c, k => .call op fun r => (c r).next k

/-- Every operation is done by a program over other operations. -/
def translate (t : (op : Op) → Prog Reply' ε (Reply op)) : Prog Reply ε α → Prog Reply' ε α
  | .done r => .done r
  | .call op k => (t op).next fun r => (k r).translate t

variable (t : (op : Op) → Prog Reply' ε (Reply op))

theorem next_done (p : Prog Reply ε α) : p.next .done = p := by
  induction p with
  | done r => rfl
  | call op c ih => simp only [next,ih]

theorem next_bind (p : Prog Reply ε α) (k : Except ε α → Prog Reply ε β) (f : β → Prog Reply ε γ) :
    p.next k >>= f = p.next fun r => k r >>= f := by
  induction p with
  | done r => rfl
  | call op c ih => exact congrArg (Prog.call op) (funext ih)

theorem next_tryCatch (p : Prog Reply ε α) (k : Except ε α → Prog Reply ε β) (c : ε → Prog Reply ε β) :
    tryCatch (p.next k) c = p.next fun r => tryCatch (k r) c := by
  induction p with
  | done r => rfl
  | call op f ih => exact congrArg (Prog.call op) (funext ih)

theorem translate_perform (op : Op) : (perform op : Prog Reply ε (Reply op)).translate t = t op := next_done (t op)

theorem translate_bind (p : Prog Reply ε α) (f : α → Prog Reply ε β) :
    (p >>= f).translate t = p.translate t >>= fun a => (f a).translate t := by
  induction p with
  | done r => cases r <;> rfl
  | call op k ih => exact (congrArg (t op).next (funext ih)).trans (next_bind _ _ _).symm

theorem translate_tryCatch (p : Prog Reply ε α) (c : ε → Prog Reply ε α) :
    (tryCatch p c).translate t = tryCatch (p.translate t) fun e => (c e).translate t := by
  induction p with
  | done r => cases r <;> rfl
  | call op k ih => exact (congrArg (t op).next (funext ih)).trans (next_tryCatch _ _ _).symm

end Translate

section Run
variable (h : Handler Reply ε σ)

/-- Sequential execution: every operation is answered in the state the one before left. -/
def run : Prog Reply ε α → σ → Except ε α × σ
  | .done r, s => (r,s)
  | .call op k, s => (k (h op s).1).run (h op s).2

@[simp] theorem run_done (r : Except ε α) (s : σ) : (Prog.done r : Prog Reply ε α).run h s = (r,s) := rfl
@[simp] theorem run_pure (a : α) (s : σ) : (pure a : Prog Reply ε α).run h s = (.ok a,s) := rfl
@[simp] theorem run_throw (e : ε) (s : σ) : (throw e : Prog Reply ε α).run h s = (.error e,s) := rfl
@[simp] theorem run_ofExcept (r : Except ε α) (s : σ) :
    (ofExcept r : Prog Reply ε α).run h s = (r,s) := rfl
@[simp] theorem run_perform (op : Op) (s : σ) :
    (perform op : Prog Reply ε (Reply op)).run h s = h op s := rfl

/-- What a continuation does with the outcome of the part before it. -/
def andThen (f : α → Prog Reply ε β) (o : Except ε α × σ) : Except ε β × σ :=
  match o with
  | (.ok a,s) => (f a).run h s
  | (.error e,s) => (.error e,s)

/-- What a handler of exceptions does with the outcome of the part it guards. -/
def orElse (c : ε → Prog Reply ε α) (o : Except ε α × σ) : Except ε α × σ :=
  match o with
  | (.ok a,s) => (.ok a,s)
  | (.error e,s) => (c e).run h s

@[simp] theorem andThen_ok (f : α → Prog Reply ε β) (a : α) (s : σ) :
    andThen h f (.ok a,s) = (f a).run h s := rfl
@[simp] theorem andThen_error (f : α → Prog Reply ε β) (e : ε) (s : σ) :
    andThen h f (.error e,s) = (.error e,s) := rfl
@[simp] theorem orElse_ok (c : ε → Prog Reply ε α) (a : α) (s : σ) :
    orElse h c (.ok a,s) = (.ok a,s) := rfl
@[simp] theorem orElse_error (c : ε → Prog Reply ε α) (e : ε) (s : σ) :
    orElse h c (.error e,s) = (c e).run h s := rfl

theorem run_bind (p : Prog Reply ε α) (f : α → Prog Reply ε β) (s : σ) :
    (p >>= f).run h s = andThen h f (p.run h s) := by
  induction p generalizing s with
  | done r => cases r <;> rfl
  | call op k ih => exact ih _ _

theorem run_tryCatch (p : Prog Reply ε α) (c : ε → Prog Reply ε α) (s : σ) :
    (tryCatch p c).run h s = orElse h c (p.run h s) := by
  induction p generalizing s with
  | done r => cases r <;> rfl
  | call op k ih => exact ih _ _

/-- A guard that raises what it catches in another form only renames the exceptions. -/
theorem run_rethrow (p : Prog Reply ε α) (f : ε → ε) (s : σ) :
    (tryCatch p fun e => throw (f e)).run h s = ((p.run h s).1.mapError f,(p.run h s).2) := by
  rw [run_tryCatch]
  rcases p.run h s with ⟨_ | a,t⟩ <;> rfl

theorem run_map (p : Prog Reply ε α) (f : α → β) (s : σ) :
    (f <$> p).run h s = ((p.run h s).1.map f,(p.run h s).2) := by
  rw [← bind_pure_comp,run_bind]
  rcases p.run h s with ⟨_ | a,t⟩ <;> rfl

/-- A run ends in what the program always ends in. -/
theorem Always.run {P : Op → Prop} {Q : Except ε α → Prop} {p : Prog Reply ε α} (hp : p.Always P Q)
    (s : σ) : Q (p.run h s).1 := by
  induction p generalizing s with
  | done r => exact hp
  | call op k ih => exact ih _ (hp.2 _) _

/-- What every allowed operation does to the state, a run does to it. -/
theorem Only.run_rel {P : Op → Prop} {R : σ → σ → Prop} (hrefl : ∀ s, R s s)
    (htrans : ∀ {a b c}, R a b → R b c → R a c) (hstep : ∀ op s, P op → R s (h op s).2)
    {p : Prog Reply ε α} (hp : p.Only P) (s : σ) : R s (p.run h s).2 := by
  induction p generalizing s with
  | done r => exact hrefl s
  | call op k ih => exact htrans (hstep op s hp.1) (ih _ (hp.2 _) _)

/-- A run whose answers are as `V` says ends as the program does. -/
theorem Given.run {h : Handler Reply ε σ} {V : (op : Op) → Except ε (Reply op) → Prop} {Q : Except ε α → Prop}
    {p : Prog Reply ε α} (hp : p.Given V Q) (hV : ∀ op s, V op (h op s).1) (s : σ) : Q (p.run h s).1 := by
  induction p generalizing s with
  | done r => exact hp
  | call op k ih => exact ih _ (hp _ (hV op s)) _

end Run

end Prog

end StructuredExtractor
