import StructuredExtractor.Service.Alone

/-! # Requests and workers side by side

A pool of runs over one database, one storage and one queue. Requests come in at any
time, and a worker takes any job that waits. Every run keeps to its scripts, so what
holds under the steps that scripts allow holds in every reachable pool, and every
finished run has ended as told.
-/
namespace StructuredExtractor
open Service

/-- Every run keeps to its scripts; the others leave its actions and all documents
where they are. -/
def interleaved (c : Config) : Discipline Label World where
  guar i label w w' := w' = w ∨ ∃ a, May c i (label.source.kind c) w a ∧ w' = w.act i a
  rely i w w' := w'.trace i = w.trace i ∧ ∀ id, (w.db.documents id).isSome → (w'.db.documents id).isSome
  guar_refl _ _ _ := .inl rfl
  rely_refl _ _ := ⟨rfl,fun _ h => h⟩
  rely_trans h h' := ⟨h'.1.trans h.1,fun id hid => h'.2 id (h.2 id hid)⟩
  guar_rely := by
    rintro i j label w w' hne (rfl | ⟨a,-,rfl⟩)
    · exact ⟨rfl,fun _ h => h⟩
    · exact ⟨w.trace_act_other hne.symm a,fun _ h => World.documents_act h j a⟩

theorem interleaved_fits (c : Config) (i : ℕ) (label : Label) : Fits c i (interleaved c) label where
  trace h := h.1
  documents h := h.2 _
  allow h := .inr ⟨_,h,rfl⟩

abbrev ServiceThread := Thread ServiceOp.Reply Exc Answer Local Label
abbrev ServicePool := Pool ServiceOp.Reply Exc Answer Local Label World

/-- Run `i`, before its first step. -/
def startThread (c : Config) (i : ℕ) (s : Source) (env : Env) : ServiceThread :=
  ⟨⟨s,env⟩,programOf c s,.start i env⟩

def World.withQueue (w : World) (queue : List Job) : World := { w with queue }

/-- A request comes in, or a worker takes a job that waits. -/
inductive Starts (c : Config) (p : ServicePool) : ServiceThread → World → Prop
  | request {r : ExtractRequest} {env : Env} (hdb : env.db = Stream'.const none) :
      Starts c p (startThread c p.threads.length (.request r) env) p.shared
  | worker {job : Job} {env : Env} {before after : List Job} (hdb : env.db = Stream'.const none)
      (hqueue : p.shared.queue = before ++ job :: after) :
      Starts c p (startThread c p.threads.length (.worker job) env)
        (p.shared.withQueue (before ++ after))

/-- The run goes on. -/
def Unfinished (t : ServiceThread) : Prop := ∃ op k, t.prog = .call op k

/-- The actions are those of runs that were started. -/
def Numbered (p : ServicePool) : Prop := ∀ x ∈ p.shared.log, x.1 < p.threads.length

theorem Numbered.trace {p : ServicePool} (h : Numbered p) : p.shared.trace p.threads.length = [] := by
  refine List.filterMap_eq_nil_iff.mpr fun x hx => if_neg ?_
  exact (h x hx).ne

theorem log_act (w : World) (i : ℕ) (a : Action) : (w.act i a).log = w.log ++ [(i,a)] := by
  cases a <;> rfl

theorem mem_trace {w : World} {i : ℕ} {a : Action} : a ∈ w.trace i ↔ (i,a) ∈ w.log := by
  rw [World.trace,List.mem_filterMap]
  constructor
  · rintro ⟨⟨j,b⟩,hp,h⟩
    split at h
    · cases h
      subst_vars
      exact hp
    · cases h
  · exact fun h => ⟨_,h,if_pos rfl⟩

/-- A run that ended did so as told, from a state in which `G` held of it. -/
def Ended (c : Config) (G : Label → World → Prop) (i : ℕ) (label : Label) (r : Except Exc Answer)
    (l : Local) (w' : World) : Prop :=
  ∃ w, w.trace i = [] ∧ G label w ∧ Ends c (interleaved c) i w label.env label.source r l.trail w'

section Induction
variable {c : Config} {w₀ : World} {starts : ServicePool → ServiceThread → World → Prop}
variable {G : Label → World → Prop} {I : ServicePool → Prop}

theorem Numbered.set {p : ServicePool} (h : Numbered p) (i : ℕ) (t : ServiceThread) :
    Numbered ⟨p.threads.set i t,p.shared⟩ := fun x hx =>
  (h x hx).trans_eq (List.length_set).symm

theorem Numbered.act {p : ServicePool} (h : Numbered p) {i : ℕ} {t' : ServiceThread}
    (ht : i < p.threads.length) (a : Action) : Numbered ⟨p.threads.set i t',p.shared.act i a⟩ := by
  intro x hx
  rw [log_act,List.mem_append,List.mem_singleton] at hx
  refine Nat.lt_of_lt_of_eq ?_ (List.length_set).symm
  obtain hx | rfl := hx
  · exact h x hx
  · exact ht

theorem Numbered.start {p : ServicePool} (h : Numbered p) {t : ServiceThread} {g : World}
    (ht : Starts c p t g) : Numbered ⟨p.threads ++ [t],g⟩ := by
  intro x hx
  rw [List.length_append,List.length_singleton]
  cases ht with
  | request => exact Nat.lt_succ_of_lt (h x hx)
  | worker => exact Nat.lt_succ_of_lt (h x hx)

theorem Starts.rely {p : ServicePool} {t : ServiceThread} {g : World} (ht : Starts c p t g) (i : ℕ) :
    (interleaved c).rely i p.shared g := by
  cases ht with
  | request => exact ⟨rfl,fun _ h => h⟩
  | worker => exact ⟨rfl,fun _ h => h⟩

theorem Starts.trace {p : ServicePool} {t : ServiceThread} {g : World} (ht : Starts c p t g)
    (hp : Numbered p) : g.trace p.threads.length = [] := by
  cases ht with
  | request => exact hp.trace
  | worker => exact hp.trace

/-- A run that is started keeps to its scripts and ends as told. -/
theorem Starts.safe {p : ServicePool} {t : ServiceThread} {g : World} (ht : Starts c p t g)
    (hp : Numbered p) (hG : G t.label g) :
    t.prog.Safe (Machine.handler c.processor) (interleaved c) p.threads.length t.label
      (Ended c G p.threads.length t.label) t.loc g := by
  have htrace := ht.trace hp
  cases ht with
  | request hdb =>
    exact Prog.Safe.mono (programOf_safe _ (interleaved_fits c _ _) hdb htrace)
      fun r l w' h => ⟨_,htrace,hG,h⟩
  | worker hdb hqueue =>
    exact Prog.Safe.mono (programOf_safe _ (interleaved_fits c _ _) hdb htrace)
      fun r l w' h => ⟨_,htrace,hG,h⟩

/-- **Invariants of pools.** What holds at first and is kept by a run that goes on, by
an action that a script allows and by the start of a run holds in every reachable
pool, and there every finished run has ended as told. -/
theorem pool_induction (hstarts : ∀ {p t g}, starts p t g → Starts c p t g) (hlog : w₀.log = [])
    (hinit : I ⟨[],w₀⟩)
    (hidle : ∀ {p i t t'}, I p → p.threads[i]? = some t → Unfinished t → t'.label = t.label →
      I ⟨p.threads.set i t',p.shared⟩)
    (hact : ∀ {p i t t' a}, Numbered p → I p → p.threads[i]? = some t → Unfinished t →
      t'.label = t.label → May c i (t.label.source.kind c) p.shared a →
      I ⟨p.threads.set i t',p.shared.act i a⟩)
    (hstart : ∀ {p t g}, Numbered p → I p → starts p t g → G t.label g ∧ I ⟨p.threads ++ [t],g⟩)
    {p : ServicePool} (hp : Pool.Reachable (Machine.handler c.processor) starts w₀ p) :
    Numbered p ∧ I p ∧ ∀ i t r, p.threads[i]? = some t → t.prog = .done r →
      Ended c G i t.label r t.loc p.shared := by
  have hnone : Numbered ⟨[],w₀⟩ := fun x hx => by
    rw [show (⟨[],w₀⟩ : ServicePool).shared.log = [] from hlog] at hx
    cases hx
  have hinduction := Pool.reachable_induction (D := interleaved c) (Q := Ended c G)
    (I := fun p => Numbered p ∧ I p) ⟨hnone,hinit⟩ ?_ ?_ hp
  · obtain ⟨⟨hnumbered,hI⟩,hsafe⟩ := hinduction
    refine ⟨hnumbered,hI,fun i t r ht hdone => ?_⟩
    have hend := hsafe i t ht
    rw [hdone] at hend
    exact hend p.shared ((interleaved c).rely_refl i p.shared)
  · rintro p i t op k ⟨hnumbered,hI⟩ - ht hop - (hsame | ⟨a,hmay,hact'⟩)
    · rw [hsame]
      exact ⟨hnumbered.set i _,hidle hI ht ⟨op,k,hop⟩ rfl⟩
    · rw [hact']
      exact ⟨hnumbered.act (List.getElem?_eq_some_iff.mp ht).1 a,
        hact hnumbered hI ht ⟨op,k,hop⟩ rfl hmay⟩
  · rintro p t g ⟨hnumbered,hI⟩ - ht
    obtain ⟨hG,hI'⟩ := hstart hnumbered hI ht
    exact ⟨(hstarts ht).rely,(hstarts ht).safe hnumbered hG,hnumbered.start (hstarts ht),hI'⟩

end Induction

end StructuredExtractor
