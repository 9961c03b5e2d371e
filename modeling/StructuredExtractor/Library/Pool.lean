import StructuredExtractor.Library.Prog
import Mathlib.Logic.Relation

/-! # Programs that run side by side

A pool has threads, each with its program and its own state, and a state that they
share. One operation of one thread is a step, and so is the start of a thread. A
discipline says what a thread may do to the shared state and what it has to put up
with; `Safe` says that a program keeps to it and what it ends with. Safe threads
stay safe under every interleaving, and a safe program run alone ends as it says.
-/
namespace StructuredExtractor

structure Thread {Op : Type} (Reply : Op → Type) (ε α Λ L : Type) where
  label : L
  prog : Prog Reply ε α
  loc : Λ

structure Pool {Op : Type} (Reply : Op → Type) (ε α Λ L G : Type) where
  threads : List (Thread Reply ε α Λ L)
  shared : G

/-- `guar i` is what the steps of thread `i` do to the shared state, by its label;
`rely i` is what all other steps do. -/
structure Discipline (L G : Type) where
  guar : ℕ → L → G → G → Prop
  rely : ℕ → G → G → Prop
  guar_refl : ∀ i label g, guar i label g g
  rely_refl : ∀ i g, rely i g g
  rely_trans : ∀ {i g g' g''}, rely i g g' → rely i g' g'' → rely i g g''
  guar_rely : ∀ {i j label g g'}, i ≠ j → guar j label g g' → rely i g g'

namespace Discipline
variable {L G A : Type} (D : Discipline L G) (act : G → A → G) (i : ℕ)

/-- Thread `i` did the actions, with whatever the others did in between. -/
inductive Passes (g : G) : List A → G → Prop
  | wait {g' : G} (hg : D.rely i g g') : Passes g [] g'
  | act {as : List A} {a : A} {g' g'' : G} (h : Passes g as g') (hg : D.rely i (act g' a) g'') :
      Passes g (as ++ [a]) g''

variable {D act i}

theorem Passes.rely {g g' g'' : G} {as : List A} (h : D.Passes act i g as g') (hg : D.rely i g' g'') :
    D.Passes act i g as g'' := by
  cases h with
  | wait hg' => exact .wait (D.rely_trans hg' hg)
  | act h hg' => exact .act h (D.rely_trans hg' hg)

theorem Passes.trans {g g' g'' : G} {as bs : List A} (h : D.Passes act i g as g')
    (h' : D.Passes act i g' bs g'') : D.Passes act i g (as ++ bs) g'' := by
  induction h' with
  | wait hg => rw [List.append_nil]; exact h.rely hg
  | act _ hg ih => rw [← List.append_assoc]; exact .act ih hg

theorem Passes.act_rely {g g' g'' : G} {a : A} (hg : D.rely i g g') (hg' : D.rely i (act g' a) g'') :
    D.Passes act i g [a] g'' := .act (.wait hg) hg'

end Discipline

namespace Prog
variable {Op : Type} {Reply : Op → Type} {ε α β Λ L G : Type}
variable (h : Handler Reply ε (Λ × G)) (D : Discipline L G) (i : ℕ) (label : L)

/-- Whatever the others do in between, every step of the program is one that thread
`i` may do, and it ends in `Q`. -/
def Safe (Q : Except ε α → Λ → G → Prop) : Prog Reply ε α → Λ → G → Prop
  | .done r, l, g => ∀ g', D.rely i g g' → Q r l g'
  | .call op k, l, g => ∀ g', D.rely i g g' →
    D.guar i label g' (h op (l,g')).2.2 ∧
      (k (h op (l,g')).1).Safe Q (h op (l,g')).2.1 (h op (l,g')).2.2

variable {h D i label}

theorem Safe.rely {Q : Except ε α → Λ → G → Prop} {p : Prog Reply ε α} {l : Λ} {g g' : G}
    (hp : p.Safe h D i label Q l g) (hg : D.rely i g g') : p.Safe h D i label Q l g' := by
  cases p with
  | done r => exact fun g'' hg' => hp g'' (D.rely_trans hg hg')
  | call op k => exact fun g'' hg' => hp g'' (D.rely_trans hg hg')

theorem Safe.mono {Q Q' : Except ε α → Λ → G → Prop} {p : Prog Reply ε α} {l : Λ} {g : G}
    (hp : p.Safe h D i label Q l g) (hQ : ∀ r l g, Q r l g → Q' r l g) :
    p.Safe h D i label Q' l g := by
  induction p generalizing l g with
  | done r => exact fun g' hg => hQ _ _ _ (hp g' hg)
  | call op k ih => exact fun g' hg => ⟨(hp g' hg).1,ih _ (hp g' hg).2⟩

/-- Two ends of one program, under one discipline. -/
theorem Safe.and {Q Q' : Except ε α → Λ → G → Prop} {p : Prog Reply ε α} {l : Λ} {g : G}
    (hp : p.Safe h D i label Q l g) (hp' : p.Safe h D i label Q' l g) :
    p.Safe h D i label (fun r l g => Q r l g ∧ Q' r l g) l g := by
  induction p generalizing l g with
  | done r => exact fun g' hg => ⟨hp g' hg,hp' g' hg⟩
  | call op k ih => exact fun g' hg => ⟨(hp g' hg).1,ih _ (hp g' hg).2 (hp' g' hg).2⟩

theorem safe_bind {R : Except ε α → Λ → G → Prop} {Q : Except ε β → Λ → G → Prop}
    {p : Prog Reply ε α} {f : α → Prog Reply ε β} {l : Λ} {g : G} (hp : p.Safe h D i label R l g)
    (hok : ∀ a l g, R (.ok a) l g → (f a).Safe h D i label Q l g)
    (herror : ∀ e l g, R (.error e) l g → Q (.error e) l g) :
    (p >>= f).Safe h D i label Q l g := by
  induction p generalizing l g with
  | done r =>
    cases r with
    | ok a => exact hok a l g (hp g (D.rely_refl i g))
    | error e => exact fun g' hg => herror e l g' (hp g' hg)
  | call op k ih => exact fun g' hg => ⟨(hp g' hg).1,ih _ (hp g' hg).2⟩

theorem safe_tryCatch {R Q : Except ε α → Λ → G → Prop} {p : Prog Reply ε α}
    {c : ε → Prog Reply ε α} {l : Λ} {g : G} (hp : p.Safe h D i label R l g)
    (hok : ∀ a l g, R (.ok a) l g → Q (.ok a) l g)
    (herror : ∀ e l g, R (.error e) l g → (c e).Safe h D i label Q l g) :
    (tryCatch p c).Safe h D i label Q l g := by
  induction p generalizing l g with
  | done r =>
    cases r with
    | ok a => exact fun g' hg => hok a l g' (hp g' hg)
    | error e => exact herror e l g (hp g (D.rely_refl i g))
  | call op k ih => exact fun g' hg => ⟨(hp g' hg).1,ih _ (hp g' hg).2⟩

/-- What holds of a result stays so when the resource is left. -/
theorem safe_scope {I : Except ε α → Λ → G → Prop} {p : Prog Reply ε α} {close undo : Prog Reply ε Unit} {l : Λ}
    {g : G} (hp : p.Safe h D i label I l g) (hrely : ∀ r l g g', I r l g → D.rely i g g' → I r l g')
    (hclose : ∀ a l g, I (.ok a) l g → close.Safe h D i label (fun _ => I (.ok a)) l g)
    (hundo : ∀ r l g, I r l g → undo.Safe h D i label (fun r' l g => r' = .ok () ∧ I r l g) l g) :
    (p.scope close undo).Safe h D i label I l g := by
  refine safe_bind (safe_tryCatch hp (fun _ _ _ hI => hI) fun e l g hI => ?_) (fun a l g hI => ?_) fun _ _ _ hI => hI
  · refine safe_bind (hundo _ l g hI) (fun _ l g hI => ?_) fun _ _ _ hI => by cases hI.1
    exact fun g' hg => hrely _ _ _ _ hI.2 hg
  · refine safe_bind (safe_tryCatch (R := fun _ => I (.ok a)) (hclose a l g hI) (fun _ _ _ hI => ⟨rfl,hI⟩)
      fun _ l g hI => hundo _ l g hI) (fun _ l g hI => ?_) fun _ _ _ hI => by cases hI.1
    exact fun g' hg => hrely _ _ _ _ hI.2 hg

theorem safe_map {p : Prog Reply ε α} {f : α → β} {Q : Except ε β → Λ → G → Prop} {l : Λ} {g : G}
    (hp : p.Safe h D i label (fun r => Q (r.map f)) l g) : (f <$> p).Safe h D i label Q l g := by
  induction p generalizing l g with
  | done r => cases r <;> exact hp
  | call op k ih => exact fun g' hg => ⟨(hp g' hg).1,ih _ (hp g' hg).2⟩

theorem safe_done {Q : Except ε α → Λ → G → Prop} {r : Except ε α} {l : Λ} {g : G}
    (hQ : ∀ g', D.rely i g g' → Q r l g') : (Prog.done r : Prog Reply ε α).Safe h D i label Q l g := hQ

theorem safe_perform {op : Op} {Q : Except ε (Reply op) → Λ → G → Prop} {l : Λ} {g : G}
    (hop : ∀ g', D.rely i g g' → ∃ a l' g'', h op (l,g') = (a,l',g'') ∧ D.guar i label g' g'' ∧
      ∀ g₁, D.rely i g'' g₁ → Q a l' g₁) :
    (perform op).Safe h D i label Q l g := by
  intro g' hg
  obtain ⟨a,l',g'',ha,hguar,hQ⟩ := hop g' hg
  rw [ha]
  exact ⟨hguar,hQ⟩

/-- A program whose operations all keep an invariant ends in it. -/
theorem Only.safe {P : Op → Prop} {I : Λ → G → Prop} {p : Prog Reply ε α} {l : Λ} {g : G}
    (hp : p.Only P) (hrely : ∀ l g g', I l g → D.rely i g g' → I l g')
    (hguar : ∀ op l g, P op → I l g → D.guar i label g (h op (l,g)).2.2)
    (hstep : ∀ op l g, P op → I l g → I (h op (l,g)).2.1 (h op (l,g)).2.2) (hI : I l g) :
    p.Safe h D i label (fun _ => I) l g := by
  induction p generalizing l g with
  | done r => exact fun g' hg => hrely l g g' hI hg
  | call op k ih =>
    intro g' hg
    have hI' := hrely l g g' hI hg
    exact ⟨hguar op l g' hp.1 hI',ih _ (hp.2 _) (hstep op l g' hp.1 hI')⟩

/-- A safe program run alone ends in `Q`. -/
theorem Safe.run {Q : Except ε α → Λ → G → Prop} {p : Prog Reply ε α} {l : Λ} {g : G}
    (hp : p.Safe h D i label Q l g) :
    Q (p.run h (l,g)).1 (p.run h (l,g)).2.1 (p.run h (l,g)).2.2 := by
  induction p generalizing l g with
  | done r => exact hp g (D.rely_refl i g)
  | call op k ih => exact ih _ (hp g (D.rely_refl i g)).2

/-- The program's operations neither read nor change the shared state, and it ends
in `Q`. -/
def Calm (h : Handler Reply ε (Λ × G)) (Q : Except ε α → Λ → Prop) : Prog Reply ε α → Λ → Prop
  | .done r, l => Q r l
  | .call op k, l => ∃ a l', (∀ g, h op (l,g) = (a,l',g)) ∧ (k a).Calm h Q l'

theorem Calm.mono {Q Q' : Except ε α → Λ → Prop} {p : Prog Reply ε α} {l : Λ} (hp : p.Calm h Q l)
    (hQ : ∀ r l, Q r l → Q' r l) : p.Calm h Q' l := by
  induction p generalizing l with
  | done r => exact hQ r l hp
  | call op k ih =>
    obtain ⟨a,l',hop,hk⟩ := hp
    exact ⟨a,l',hop,ih a hk⟩

theorem calm_done {Q : Except ε α → Λ → Prop} {r : Except ε α} {l : Λ} (hQ : Q r l) :
    (Prog.done r : Prog Reply ε α).Calm h Q l := hQ

theorem calm_perform {op : Op} {Q : Except ε (Reply op) → Λ → Prop} {l l' : Λ}
    {a : Except ε (Reply op)} (hop : ∀ g, h op (l,g) = (a,l',g)) (hQ : Q a l') :
    (perform op).Calm h Q l := ⟨a,l',hop,hQ⟩

theorem calm_bind {R : Except ε α → Λ → Prop} {Q : Except ε β → Λ → Prop} {p : Prog Reply ε α}
    {f : α → Prog Reply ε β} {l : Λ} (hp : p.Calm h R l)
    (hok : ∀ a l, R (.ok a) l → (f a).Calm h Q l)
    (herror : ∀ e l, R (.error e) l → Q (.error e) l) : (p >>= f).Calm h Q l := by
  induction p generalizing l with
  | done r =>
    cases r with
    | ok a => exact hok a l hp
    | error e => exact herror e l hp
  | call op k ih =>
    obtain ⟨a,l',hop,hk⟩ := hp
    exact ⟨a,l',hop,ih a hk⟩

theorem calm_tryCatch {R Q : Except ε α → Λ → Prop} {p : Prog Reply ε α} {c : ε → Prog Reply ε α}
    {l : Λ} (hp : p.Calm h R l) (hok : ∀ a l, R (.ok a) l → Q (.ok a) l)
    (herror : ∀ e l, R (.error e) l → (c e).Calm h Q l) : (tryCatch p c).Calm h Q l := by
  induction p generalizing l with
  | done r =>
    cases r with
    | ok a => exact hok a l hp
    | error e => exact herror e l hp
  | call op k ih =>
    obtain ⟨a,l',hop,hk⟩ := hp
    exact ⟨a,l',hop,ih a hk⟩

theorem calm_map {p : Prog Reply ε α} {f : α → β} {Q : Except ε β → Λ → Prop} {l : Λ}
    (hp : p.Calm h (fun r => Q (r.map f)) l) : (f <$> p).Calm h Q l := by
  induction p generalizing l with
  | done r => cases r <;> exact hp
  | call op k ih =>
    obtain ⟨a,l',hop,hk⟩ := hp
    exact ⟨a,l',hop,ih a hk⟩

theorem Calm.safe {R : Except ε α → Λ → Prop} {Q : Except ε α → Λ → G → Prop} {p : Prog Reply ε α}
    {l : Λ} {g : G} (hp : p.Calm h R l) (hQ : ∀ r l g', D.rely i g g' → R r l → Q r l g') :
    p.Safe h D i label Q l g := by
  induction p generalizing l g with
  | done r => exact fun g' hg => hQ r l g' hg hp
  | call op k ih =>
    obtain ⟨a,l',hop,hk⟩ := hp
    intro g' hg
    rw [hop g']
    exact ⟨D.guar_refl i label g',ih a hk fun r l g'' hg' => hQ r l g'' (D.rely_trans hg hg')⟩

/-- A first operation that does not touch the shared state. -/
theorem safe_op {op : Op} {f : Reply op → Prog Reply ε β} {Q : Except ε β → Λ → G → Prop} {l l' : Λ}
    {g : G} {a : Reply op} (hop : ∀ g, h op (l,g) = (.ok a,l',g))
    (hf : ∀ g', D.rely i g g' → (f a).Safe h D i label Q l' g') :
    (perform op >>= f).Safe h D i label Q l g := by
  intro g' hg
  rw [hop g']
  exact ⟨D.guar_refl i label g',hf g' hg⟩

end Prog

namespace Pool
variable {Op : Type} {Reply : Op → Type} {ε α Λ L G : Type}
variable (h : Handler Reply ε (Λ × G))
variable (starts : Pool Reply ε α Λ L G → Thread Reply ε α Λ L → G → Prop)

/-- Thread `i` does one operation, or a thread is started. -/
inductive Step : Pool Reply ε α Λ L G → Pool Reply ε α Λ L G → Prop
  | run {p : Pool Reply ε α Λ L G} {i : ℕ} {t : Thread Reply ε α Λ L} {op : Op}
      {k : Except ε (Reply op) → Prog Reply ε α} (ht : p.threads[i]? = some t)
      (hop : t.prog = .call op k) :
      Step p ⟨p.threads.set i ⟨t.label,k (h op (t.loc,p.shared)).1,(h op (t.loc,p.shared)).2.1⟩,
        (h op (t.loc,p.shared)).2.2⟩
  | start {p : Pool Reply ε α Λ L G} {t : Thread Reply ε α Λ L} {g : G} (ht : starts p t g) :
      Step p ⟨p.threads ++ [t],g⟩

/-- The pools that steps lead to from a shared state without threads. -/
def Reachable (g : G) (p : Pool Reply ε α Λ L G) : Prop :=
  Relation.ReflTransGen (Step h starts) ⟨[],g⟩ p

variable {h starts}

/-- A thread may run to its end without a break. -/
theorem finish {p : Pool Reply ε α Λ L G} {i : ℕ} {t : Thread Reply ε α Λ L} (ht : p.threads[i]? = some t) :
    Relation.ReflTransGen (Step h starts) p ⟨p.threads.set i ⟨t.label,.done (t.prog.run h (t.loc,p.shared)).1,
      (t.prog.run h (t.loc,p.shared)).2.1⟩,(t.prog.run h (t.loc,p.shared)).2.2⟩ := by
  obtain ⟨label,prog,loc⟩ := t
  induction prog generalizing p loc with
  | done r =>
    have hsame : p.threads.set i ⟨label,.done r,loc⟩ = p.threads := by
      obtain ⟨hlen,hget⟩ := List.getElem?_eq_some_iff.mp ht
      rw [← hget,List.set_getElem_self]
    show Relation.ReflTransGen (Step h starts) p ⟨p.threads.set i ⟨label,.done r,loc⟩,p.shared⟩
    rw [hsame]
  | call op k ih =>
    have hlen : i < p.threads.length := (List.getElem?_eq_some_iff.mp ht).1
    have hend := ih (h op (loc,p.shared)).1 (p := ⟨p.threads.set i ⟨label,k (h op (loc,p.shared)).1,
      (h op (loc,p.shared)).2.1⟩,(h op (loc,p.shared)).2.2⟩) _ (List.getElem?_set_self hlen)
    rw [List.set_set] at hend
    exact .head (.run ht rfl) hend

/-- A thread may start and run to its end without a break. -/
theorem through {g' : G} {p : Pool Reply ε α Λ L G} {t : Thread Reply ε α Λ L} (ht : starts p t g') :
    Relation.ReflTransGen (Step h starts) p ⟨p.threads ++ [⟨t.label,.done (t.prog.run h (t.loc,g')).1,
      (t.prog.run h (t.loc,g')).2.1⟩],(t.prog.run h (t.loc,g')).2.2⟩ := by
  have hend : Relation.ReflTransGen (Step h starts) _ _ :=
    finish (p := ⟨p.threads ++ [t],g'⟩) (i := p.threads.length) List.getElem?_concat_length
  rw [List.set_append_right _ _ (Nat.le_refl _),Nat.sub_self,List.set_cons_zero] at hend
  exact .head (.start ht) hend

theorem Reachable.through {g g' : G} {p : Pool Reply ε α Λ L G} (hp : Reachable h starts g p)
    {t : Thread Reply ε α Λ L} (ht : starts p t g') :
    Reachable h starts g ⟨p.threads ++ [⟨t.label,.done (t.prog.run h (t.loc,g')).1,
      (t.prog.run h (t.loc,g')).2.1⟩],(t.prog.run h (t.loc,g')).2.2⟩ := hp.trans (Pool.through ht)

theorem Reachable.mono {starts' : Pool Reply ε α Λ L G → Thread Reply ε α Λ L → G → Prop} {g : G}
    {p : Pool Reply ε α Λ L G} (hp : Reachable h starts g p)
    (hstarts : ∀ {p t g}, starts p t g → starts' p t g) : Reachable h starts' g p := by
  induction hp with
  | refl => exact .refl
  | tail _ hstep ih =>
    cases hstep with
    | run ht hop => exact ih.tail (.run ht hop)
    | start ht => exact ih.tail (.start (hstarts ht))

/-- Every thread is safe, for the end that its number and label ask for. -/
def AllSafe (h : Handler Reply ε (Λ × G)) (D : Discipline L G)
    (Q : ℕ → L → Except ε α → Λ → G → Prop) (p : Pool Reply ε α Λ L G) : Prop :=
  ∀ (i : ℕ) (t : Thread Reply ε α Λ L), p.threads[i]? = some t →
    t.prog.Safe h D i t.label (Q i t.label) t.loc p.shared

variable {D : Discipline L G} {Q : ℕ → L → Except ε α → Λ → G → Prop}

/-- A step of a safe thread is one that it may do. -/
theorem AllSafe.guar {p : Pool Reply ε α Λ L G} (hp : AllSafe h D Q p) {i : ℕ}
    {t : Thread Reply ε α Λ L} {op : Op} {k : Except ε (Reply op) → Prog Reply ε α}
    (ht : p.threads[i]? = some t) (hop : t.prog = .call op k) :
    D.guar i t.label p.shared (h op (t.loc,p.shared)).2.2 := by
  have hsafe := hp i t ht
  rw [hop] at hsafe
  exact (hsafe p.shared (D.rely_refl i p.shared)).1

theorem AllSafe.run {p : Pool Reply ε α Λ L G} (hp : AllSafe h D Q p) {i : ℕ}
    {t : Thread Reply ε α Λ L} {op : Op} {k : Except ε (Reply op) → Prog Reply ε α}
    (ht : p.threads[i]? = some t) (hop : t.prog = .call op k) :
    AllSafe h D Q ⟨p.threads.set i ⟨t.label,k (h op (t.loc,p.shared)).1,(h op (t.loc,p.shared)).2.1⟩,
      (h op (t.loc,p.shared)).2.2⟩ := by
  intro j u hu
  by_cases hij : i = j
  · subst hij
    have hlen : i < p.threads.length := (List.getElem?_eq_some_iff.mp ht).1
    simp only [List.getElem?_set_self hlen,Option.some.injEq] at hu
    subst hu
    have hsafe := hp i t ht
    rw [hop] at hsafe
    exact (hsafe p.shared (D.rely_refl i p.shared)).2
  · rw [List.getElem?_set_ne hij] at hu
    exact (hp j u hu).rely (D.guar_rely (Ne.symm hij) (hp.guar ht hop))

theorem AllSafe.start {p : Pool Reply ε α Λ L G} (hp : AllSafe h D Q p) {t : Thread Reply ε α Λ L}
    {g : G} (hg : ∀ i, D.rely i p.shared g)
    (ht : t.prog.Safe h D p.threads.length t.label (Q p.threads.length t.label) t.loc g) :
    AllSafe h D Q ⟨p.threads ++ [t],g⟩ := by
  intro j u hu
  rcases Nat.lt_or_ge j p.threads.length with hj | hj
  · rw [List.getElem?_append_left hj] at hu
    exact (hp j u hu).rely (hg j)
  · rw [List.getElem?_append_right hj] at hu
    have hzero : j - p.threads.length = 0 := by
      by_contra hne
      have hpos : 1 ≤ j - p.threads.length := Nat.one_le_iff_ne_zero.mpr hne
      rw [List.getElem?_eq_none (by simpa using hpos)] at hu
      cases hu
    rw [hzero] at hu
    cases hu
    obtain rfl : j = p.threads.length := Nat.le_antisymm (Nat.sub_eq_zero_iff_le.mp hzero) hj
    exact ht

/-- **Rely and guarantee.** An invariant of the pool that the allowed steps keep, and
under which started threads are safe, holds in every reachable pool, and there every
thread is safe. -/
theorem reachable_induction {I : Pool Reply ε α Λ L G → Prop} {g : G} (hinit : I ⟨[],g⟩)
    (hrun : ∀ p i (t : Thread Reply ε α Λ L) op k, I p → AllSafe h D Q p →
      p.threads[i]? = some t → t.prog = .call op k →
      AllSafe h D Q ⟨p.threads.set i ⟨t.label,k (h op (t.loc,p.shared)).1,
        (h op (t.loc,p.shared)).2.1⟩,(h op (t.loc,p.shared)).2.2⟩ →
      D.guar i t.label p.shared (h op (t.loc,p.shared)).2.2 →
      I ⟨p.threads.set i ⟨t.label,k (h op (t.loc,p.shared)).1,(h op (t.loc,p.shared)).2.1⟩,
        (h op (t.loc,p.shared)).2.2⟩)
    (hstart : ∀ p (t : Thread Reply ε α Λ L) g, I p → AllSafe h D Q p → starts p t g →
      (∀ i, D.rely i p.shared g) ∧
      t.prog.Safe h D p.threads.length t.label (Q p.threads.length t.label) t.loc g ∧
      I ⟨p.threads ++ [t],g⟩)
    {p : Pool Reply ε α Λ L G} (hp : Reachable h starts g p) : I p ∧ AllSafe h D Q p := by
  induction hp with
  | refl => exact ⟨hinit,fun i t ht => by simp at ht⟩
  | tail _ hstep ih =>
    obtain ⟨hI,hsafe⟩ := ih
    cases hstep with
    | run ht hop => exact ⟨hrun _ _ _ _ _ hI hsafe ht hop (hsafe.run ht hop) (hsafe.guar ht hop),
        hsafe.run ht hop⟩
    | start ht =>
      obtain ⟨hg,ht',hI'⟩ := hstart _ _ _ hI hsafe ht
      exact ⟨hI',hsafe.start hg ht'⟩

end Pool

end StructuredExtractor
