import StructuredExtractor.Library.Gather
import StructuredExtractor.Library.Pool

/-! # Groups of threads under permits

Beside threads that come alone, whole groups of threads come to a pool, and of each group
no more run at a time than there are permits. A group by itself is a gathering, whatever
the others do. And the crowd as a whole is a pool: one where the threads of the groups come
alone, and may go on where those of the crowd have ended.
-/
namespace StructuredExtractor

namespace Prog
variable {Op : Type} {Reply : Op → Type} {ε α β γ : Type}

/-- The second program does what the first one does, and then may go on. -/
def Begins (p : Prog Reply ε α) (q : Prog Reply ε β) : Prop := ∃ k, q = p.next k

theorem begins_refl (p : Prog Reply ε α) : p.Begins p := ⟨.done,(next_done p).symm⟩

theorem Begins.bind {p : Prog Reply ε α} {q : Prog Reply ε β} (h : p.Begins q) (f : β → Prog Reply ε γ) :
    p.Begins (q >>= f) := by
  obtain ⟨k,rfl⟩ := h
  exact ⟨_,next_bind p k f⟩

theorem Begins.tryCatch {p : Prog Reply ε α} {q : Prog Reply ε β} (h : p.Begins q) (c : ε → Prog Reply ε β) :
    p.Begins (tryCatch q c) := by
  obtain ⟨k,rfl⟩ := h
  exact ⟨_,next_tryCatch p k c⟩

theorem Begins.call {op : Op} {f : Except ε (Reply op) → Prog Reply ε α} {q : Prog Reply ε β}
    (h : (Prog.call op f).Begins q) : ∃ f', q = .call op f' ∧ ∀ r, (f r).Begins (f' r) := by
  obtain ⟨k,rfl⟩ := h
  exact ⟨_,rfl,fun r => ⟨k,rfl⟩⟩

end Prog

namespace Pool
variable {Op : Type} {Reply : Op → Type} {ε α Λ L G : Type}

/-- The second thread is where the first one is, and may go on where that one ends. -/
structure Outlives (t t' : Thread Reply ε α Λ L) : Prop where
  label : t'.label = t.label
  loc : t'.loc = t.loc
  prog : t.prog.Begins t'.prog

/-- Thread by thread, the second pool is where the first one is. -/
structure Under (p p' : Pool Reply ε α Λ L G) : Prop where
  shared : p'.shared = p.shared
  length : p'.threads.length = p.threads.length
  thread : ∀ (i : ℕ) (t : Thread Reply ε α Λ L), p.threads[i]? = some t → ∃ t', p'.threads[i]? = some t' ∧ Outlives t t'

variable {h : Handler Reply ε (Λ × G)}
variable {starts starts' : Pool Reply ε α Λ L G → Thread Reply ε α Λ L → G → Prop}
variable {p p' : Pool Reply ε α Λ L G}

theorem Under.run {i : ℕ} {t : Thread Reply ε α Λ L} {op : Op} {k : Except ε (Reply op) → Prog Reply ε α}
    (hunder : p.Under p') (ht : p.threads[i]? = some t) (hop : t.prog = .call op k) : ∃ q, Step h starts' p' q ∧
      Under ⟨p.threads.set i ⟨t.label,k (h op (t.loc,p.shared)).1,(h op (t.loc,p.shared)).2.1⟩,
        (h op (t.loc,p.shared)).2.2⟩ q := by
  obtain ⟨t',ht',hlabel,hloc,hbegins⟩ := hunder.thread i t ht
  rw [hop] at hbegins
  obtain ⟨k',hop',hk⟩ := hbegins.call
  refine ⟨_,.run ht' hop',?_,?_,fun j u hu => ?_⟩
  · rw [hloc,hunder.shared]
  · simp only [List.length_set,hunder.length]
  · have hi : i < p.threads.length := (List.getElem?_eq_some_iff.mp ht).1
    have hi' : i < p'.threads.length := hunder.length ▸ hi
    dsimp only at hu ⊢
    rw [hloc,hunder.shared]
    by_cases hij : i = j
    · subst hij
      rw [List.getElem?_set_self hi] at hu
      obtain rfl := Option.some.inj hu
      exact ⟨_,List.getElem?_set_self hi',hlabel,rfl,hk _⟩
    · rw [List.getElem?_set_ne hij] at hu ⊢
      exact hunder.thread j u hu

theorem Under.start {t t' : Thread Reply ε α Λ L} (hunder : p.Under p') (ht : Outlives t t') (g : G) :
    Under ⟨p.threads ++ [t],g⟩ ⟨p'.threads ++ [t'],g⟩ := by
  refine ⟨rfl,?_,fun j u hu => ?_⟩
  · simp only [List.length_append,hunder.length,List.length_singleton]
  · dsimp only at hu ⊢
    rcases Nat.lt_or_ge j p.threads.length with hj | hj
    · rw [List.getElem?_append_left hj] at hu
      rw [List.getElem?_append_left (hunder.length ▸ hj)]
      exact hunder.thread j u hu
    · rw [List.getElem?_append_right hj] at hu
      rw [List.getElem?_append_right (hunder.length ▸ hj),hunder.length]
      obtain ⟨hlt,rfl⟩ := List.getElem?_eq_some_iff.mp hu
      obtain hzero : j - p.threads.length = 0 := Nat.lt_one_iff.mp hlt
      simp only [hzero,List.getElem?_cons_zero,List.getElem_cons_zero]
      exact ⟨t',rfl,ht⟩

/-- **Threads that end early change nothing.** When every thread that starts has a counterpart that
may go on where it ends, every pool has a counterpart with the same shared state. -/
theorem Reachable.under {g : G} (hp : Reachable h starts g p)
    (hstarts : ∀ {p p' t g}, starts p t g → Under p p' → ∃ t', starts' p' t' g ∧ Outlives t t') :
    ∃ p', Reachable h starts' g p' ∧ p.Under p' := by
  induction hp with
  | refl => exact ⟨_,.refl,rfl,rfl,fun i t ht => by simp at ht⟩
  | tail _ hstep ih =>
    obtain ⟨p',hp',hunder⟩ := ih
    cases hstep with
    | run ht hop =>
      obtain ⟨q,hq,hunder'⟩ : ∃ q, Step h starts' _ q ∧ _ := hunder.run ht hop
      exact ⟨q,hp'.tail hq,hunder'⟩
    | start ht =>
      obtain ⟨t',ht',hout⟩ := hstarts ht hunder
      exact ⟨_,hp'.tail (.start ht'),hunder.start hout _⟩

end Pool

/-- Where a thread of a group is, and with what it has left. -/
inductive Place (ε α : Type)
  | waiting
  | inside
  | left (r : Except ε α)

def Place.isInside {ε α : Type} : Place ε α → Bool
  | .inside => true
  | _ => false

/-- Threads that came together, from number `first` on, each with its place. -/
structure Group (ε α B : Type) where
  tag : B
  first : ℕ
  places : List (Place ε α)

structure Crowd {Op : Type} (Reply : Op → Type) (ε α Λ L G B : Type) where
  pool : Pool Reply ε α Λ L G
  groups : List (Group ε α B)

section Crowd
variable {Op : Type} {Reply : Op → Type} {ε α Λ L G B : Type}

/-- The thread at its place, as an item. -/
def Place.slot : Place ε α → Thread Reply ε α Λ L → Slot Reply ε α Λ
  | .waiting, t => .waiting t.prog t.loc
  | .inside, t => .inside t.prog t.loc
  | .left r, _ => .done r

/-- The threads of the group, as items. -/
def Group.slots (group : Group ε α B) (threads : List (Thread Reply ε α Λ L)) : List (Slot Reply ε α Λ) :=
  List.zipWith Place.slot group.places (threads.drop group.first)

/-- The group when its `j`-th thread has come to a place. -/
def Group.move (group : Group ε α B) (j : ℕ) (place : Place ε α) : Group ε α B :=
  { group with places := group.places.set j place }

section Slots
variable {group : Group ε α B} {threads : List (Thread Reply ε α Λ L)} {i j : ℕ} {place : Place ε α}
variable {t : Thread Reply ε α Λ L}

theorem Group.slots_get : (group.slots threads)[j]? =
    (group.places[j]?).bind fun place => (threads[group.first + j]?).map place.slot := by
  rw [Group.slots,List.getElem?_zipWith,List.getElem?_drop]
  cases group.places[j]? <;> cases threads[group.first + j]? <;> rfl

theorem Group.slots_at (hj : group.places[j]? = some place) (ht : threads[group.first + j]? = some t) :
    (group.slots threads)[j]? = some (place.slot t) := by
  rw [Group.slots_get,hj,ht]
  rfl

/-- All threads of the group are there. -/
def Group.Fits (group : Group ε α B) (n : ℕ) : Prop := group.first + group.places.length ≤ n

theorem Group.Fits.exists_thread (hfits : group.Fits threads.length) (hj : group.places[j]? = some place) :
    ∃ t, threads[group.first + j]? = some t := by
  have hlt := (List.getElem?_eq_some_iff.mp hj).1
  have hfits' : group.first + group.places.length ≤ threads.length := hfits
  exact ⟨_,List.getElem?_eq_getElem (by omega)⟩

theorem Group.slots_append (hfits : group.Fits threads.length) (ts : List (Thread Reply ε α Λ L)) :
    group.slots (threads ++ ts) = group.slots threads := by
  refine List.ext_getElem? fun j => ?_
  rw [Group.slots_get,Group.slots_get]
  cases hj : group.places[j]? with
  | none => rfl
  | some place =>
    obtain ⟨t,ht⟩ := hfits.exists_thread hj
    rw [List.getElem?_append_left (List.getElem?_eq_some_iff.mp ht).1]

/-- A thread of the group has moved. -/
theorem Group.slots_set (hj : group.places[j]? = some place) (hi : group.first + j < threads.length)
    (t : Thread Reply ε α Λ L) : group.slots (threads.set (group.first + j) t) =
      (group.slots threads).set j (place.slot t) := by
  refine List.ext_getElem? fun k => ?_
  have hlen : j < (group.slots threads).length :=
    (List.getElem?_eq_some_iff.mp (Group.slots_at hj (List.getElem?_eq_getElem hi))).1
  by_cases hjk : j = k
  · subst hjk
    rw [Group.slots_at hj (List.getElem?_set_self hi),List.getElem?_set_self hlen]
  · rw [List.getElem?_set_ne hjk,Group.slots_get,Group.slots_get,
      List.getElem?_set_ne fun h => hjk (Nat.add_left_cancel h)]

/-- A thread that is not of the group has moved. -/
theorem Group.slots_set_other (hi : ∀ j place, group.places[j]? = some place → group.first + j ≠ i)
    (t : Thread Reply ε α Λ L) : group.slots (threads.set i t) = group.slots threads := by
  refine List.ext_getElem? fun k => ?_
  rw [Group.slots_get,Group.slots_get]
  cases hk : group.places[k]? with
  | none => rfl
  | some place => rw [List.getElem?_set_ne fun h => hi k place hk h.symm]

theorem Group.slots_move (hj : group.places[j]? = some place) (ht : threads[group.first + j]? = some t)
    (place' : Place ε α) : (group.move j place').slots threads = (group.slots threads).set j (place'.slot t) := by
  refine List.ext_getElem? fun k => ?_
  have hlen : j < (group.slots threads).length := (List.getElem?_eq_some_iff.mp (Group.slots_at hj ht)).1
  by_cases hjk : j = k
  · subst hjk
    rw [List.getElem?_set_self hlen]
    have hmoved : (group.move j place').places[j]? = some place' :=
      List.getElem?_set_self (List.getElem?_eq_some_iff.mp hj).1
    exact Group.slots_at hmoved ht
  · rw [List.getElem?_set_ne hjk,Group.slots_get,Group.slots_get]
    show ((group.places.set j place')[k]?).bind _ = _
    rw [List.getElem?_set_ne hjk]
    rfl

theorem Group.slots_new (tag : B) (threads ts : List (Thread Reply ε α Λ L)) :
    Group.slots (⟨tag,threads.length,List.replicate ts.length .waiting⟩ : Group ε α B) (threads ++ ts) =
      ts.map fun t => .waiting t.prog t.loc := by
  rw [Group.slots,List.drop_left]
  induction ts with
  | nil => rfl
  | cons t ts ih => exact congrArg _ ih

theorem Group.insideCount_slots (hfits : group.Fits threads.length) :
    Gather.insideCount (group.slots threads) = group.places.countP Place.isInside := by
  have hmap : (group.slots threads).map Slot.isInside = group.places.map Place.isInside := by
    refine List.ext_getElem? fun j => ?_
    rw [List.getElem?_map,List.getElem?_map,Group.slots_get]
    cases hj : group.places[j]? with
    | none => rfl
    | some place =>
      obtain ⟨t,ht⟩ := hfits.exists_thread hj
      rw [ht]
      cases place <;> rfl
  have hcount := congrArg (List.countP id) hmap
  rwa [List.countP_map,List.countP_map] at hcount

end Slots

namespace Crowd

/-- No group keeps the thread from running. -/
def Free (groups : List (Group ε α B)) (i : ℕ) : Prop :=
  ∀ group ∈ groups, ∀ j place, group.places[j]? = some place → group.first + j = i → place.isInside = true

variable (h : Handler Reply ε (Λ × G)) (limit : ℕ)
variable (starts : Pool Reply ε α Λ L G → Thread Reply ε α Λ L → G → Prop)
variable (opens : Pool Reply ε α Λ L G → B → List (Thread Reply ε α Λ L) → Prop)

inductive Step : Crowd Reply ε α Λ L G B → Crowd Reply ε α Λ L G B → Prop
  | run {p : Pool Reply ε α Λ L G} {groups : List (Group ε α B)} {i : ℕ} {t : Thread Reply ε α Λ L} {op : Op}
      {k : Except ε (Reply op) → Prog Reply ε α} (ht : p.threads[i]? = some t) (hop : t.prog = .call op k)
      (hfree : Free groups i) :
      Step ⟨p,groups⟩ ⟨⟨p.threads.set i ⟨t.label,k (h op (t.loc,p.shared)).1,(h op (t.loc,p.shared)).2.1⟩,
        (h op (t.loc,p.shared)).2.2⟩,groups⟩
  | start {p : Pool Reply ε α Λ L G} {groups : List (Group ε α B)} {t : Thread Reply ε α Λ L} {g : G}
      (ht : starts p t g) : Step ⟨p,groups⟩ ⟨⟨p.threads ++ [t],g⟩,groups⟩
  | gather {p : Pool Reply ε α Λ L G} {groups : List (Group ε α B)} {tag : B} {ts : List (Thread Reply ε α Λ L)}
      (hts : opens p tag ts) : Step ⟨p,groups⟩
        ⟨⟨p.threads ++ ts,p.shared⟩,groups ++ [⟨tag,p.threads.length,List.replicate ts.length .waiting⟩]⟩
  | enter {p : Pool Reply ε α Λ L G} {groups : List (Group ε α B)} {m j : ℕ} {group : Group ε α B}
      (hm : groups[m]? = some group) (hj : group.places[j]? = some .waiting)
      (hfree : group.places.countP Place.isInside < limit) :
      Step ⟨p,groups⟩ ⟨p,groups.set m (group.move j .inside)⟩
  | leave {p : Pool Reply ε α Λ L G} {groups : List (Group ε α B)} {m j : ℕ} {group : Group ε α B}
      {t : Thread Reply ε α Λ L} {r : Except ε α} (hm : groups[m]? = some group)
      (hj : group.places[j]? = some .inside) (ht : p.threads[group.first + j]? = some t) (hdone : t.prog = .done r) :
      Step ⟨p,groups⟩ ⟨p,groups.set m (group.move j (.left r))⟩

/-- The crowds that steps lead to from a shared state without threads. -/
def Reachable (g : G) (c : Crowd Reply ε α Λ L G B) : Prop :=
  Relation.ReflTransGen (Step h limit starts opens) ⟨⟨[],g⟩,[]⟩ c

variable {h limit starts opens} {c : Crowd Reply ε α Λ L G B} {g : G}

/-- Threads that start one after the other. -/
theorem starts_all {p : Pool Reply ε α Λ L G} {ts : List (Thread Reply ε α Λ L)}
    (hts : ∀ (j : ℕ) t, ts[j]? = some t → starts ⟨p.threads ++ ts.take j,p.shared⟩ t p.shared) :
    Relation.ReflTransGen (Pool.Step h starts) p ⟨p.threads ++ ts,p.shared⟩ := by
  suffices hall : ∀ n, Relation.ReflTransGen (Pool.Step h starts) p ⟨p.threads ++ ts.take n,p.shared⟩ by
    simpa using hall ts.length
  intro n
  induction n with
  | zero => simpa using .refl
  | succ n ih =>
    cases hn : ts[n]? with
    | none =>
      have hle : ts.length ≤ n := List.getElem?_eq_none_iff.mp hn
      rw [List.take_of_length_le hle] at ih
      rwa [List.take_of_length_le (hle.trans n.le_succ)]
    | some t =>
      rw [List.take_add_one,hn,Option.toList_some,← List.append_assoc]
      exact ih.tail (.start (hts n t hn))

/-- A crowd is a pool in which the threads of groups come one by one. -/
theorem Reachable.pool {starts' : Pool Reply ε α Λ L G → Thread Reply ε α Λ L → G → Prop}
    (hc : Reachable h limit starts opens g c) (hstarts : ∀ {p t g}, starts p t g → starts' p t g)
    (hopens : ∀ {p tag ts}, opens p tag ts → ∀ (j : ℕ) t, ts[j]? = some t →
      starts' ⟨p.threads ++ ts.take j,p.shared⟩ t p.shared) : Pool.Reachable h starts' g c.pool := by
  induction hc with
  | refl => exact .refl
  | tail _ hstep ih =>
    cases hstep with
    | run ht hop => exact ih.tail (.run ht hop)
    | start ht => exact ih.tail (.start (hstarts ht))
    | gather hts => exact ih.trans (starts_all (hopens hts))
    | enter => exact ih
    | leave => exact ih

variable (h limit opens)

/-- The group as a gathering of the threads that it was opened with. -/
structure Gathers (c : Crowd Reply ε α Λ L G B) (group : Group ε α B) : Prop where
  fits : group.Fits c.pool.threads.length
  left : ∀ (j : ℕ) r, group.places[j]? = some (.left r) →
    ∃ t, c.pool.threads[group.first + j]? = some t ∧ t.prog = .done r
  origin : ∃ p ts, opens p group.tag ts ∧ p.threads.length = group.first ∧
    (∀ (j : ℕ) u, ts[j]? = some u → ∃ t, c.pool.threads[group.first + j]? = some t ∧ t.label = u.label) ∧
    Gather.Reachable h limit (ts.map fun t => .waiting t.prog t.loc) ⟨group.slots c.pool.threads,c.pool.shared⟩

variable {h limit opens} {p : Pool Reply ε α Λ L G} {groups : List (Group ε α B)} {group : Group ε α B}

theorem Gathers.append (hgroup : Gathers h limit opens ⟨p,groups⟩ group) (ts : List (Thread Reply ε α Λ L)) (g : G)
    (groups' : List (Group ε α B)) : Gathers h limit opens ⟨⟨p.threads ++ ts,g⟩,groups'⟩ group := by
  refine ⟨?_,fun j r hj => ?_,?_⟩
  · show group.first + group.places.length ≤ (p.threads ++ ts).length
    rw [List.length_append]
    exact Nat.le_add_right_of_le hgroup.fits
  · obtain ⟨t,ht,hdone⟩ := hgroup.left j r hj
    exact ⟨t,(List.getElem?_append_left (List.getElem?_eq_some_iff.mp ht).1).trans ht,hdone⟩
  · obtain ⟨q,ts',hopens,hfirst,hlabels,hreach⟩ := hgroup.origin
    refine ⟨q,ts',hopens,hfirst,fun j u hu => ?_,?_⟩
    · obtain ⟨t,ht,hlabel⟩ := hlabels j u hu
      exact ⟨t,(List.getElem?_append_left (List.getElem?_eq_some_iff.mp ht).1).trans ht,hlabel⟩
    · dsimp only
      rw [Group.slots_append hgroup.fits]
      exact hreach.other g

/-- A thread that is free to run is inside of the group, or is none of it. -/
theorem Gathers.run {i : ℕ} {t : Thread Reply ε α Λ L} {op : Op} {k : Except ε (Reply op) → Prog Reply ε α}
    (hgroup : Gathers h limit opens ⟨p,groups⟩ group) (hmem : group ∈ groups) (ht : p.threads[i]? = some t)
    (hop : t.prog = .call op k) (hfree : Free groups i) :
    Gathers h limit opens ⟨⟨p.threads.set i ⟨t.label,k (h op (t.loc,p.shared)).1,(h op (t.loc,p.shared)).2.1⟩,
      (h op (t.loc,p.shared)).2.2⟩,groups⟩ group := by
  have hi : i < p.threads.length := (List.getElem?_eq_some_iff.mp ht).1
  refine ⟨?_,fun j r hj => ?_,?_⟩
  · show group.first + group.places.length ≤ (p.threads.set i _).length
    rw [List.length_set]
    exact hgroup.fits
  · have hne : i ≠ group.first + j := fun hij => by cases hfree group hmem j _ hj hij.symm
    obtain ⟨u,hu,hdone⟩ := hgroup.left j r hj
    exact ⟨u,(List.getElem?_set_ne hne).trans hu,hdone⟩
  · obtain ⟨q,ts,hopens,hfirst,hlabels,hreach⟩ := hgroup.origin
    refine ⟨q,ts,hopens,hfirst,fun j u hu => ?_,?_⟩
    · obtain ⟨t',ht',hlabel⟩ := hlabels j u hu
      by_cases hij : i = group.first + j
      · subst hij
        obtain rfl := Option.some.inj (ht.symm.trans ht')
        exact ⟨_,List.getElem?_set_self hi,hlabel⟩
      · exact ⟨t',(List.getElem?_set_ne hij).trans ht',hlabel⟩
    dsimp only
    by_cases hin : ∃ j place, group.places[j]? = some place ∧ group.first + j = i
    · obtain ⟨j,place,hj,rfl⟩ := hin
      obtain rfl : place = .inside := by
        have hinside := hfree group hmem j place hj rfl
        cases place <;> first | rfl | cases hinside
      have hslot := Group.slots_at hj ht
      rw [Group.slots_set hj hi]
      rw [Place.slot,hop] at hslot
      exact hreach.step (.act hslot)
    · have hother : ∀ j place, group.places[j]? = some place → group.first + j ≠ i := fun j place hj hij =>
        hin ⟨j,place,hj,hij⟩
      rw [Group.slots_set_other hother]
      exact hreach.other _

/-- A thread of the group comes to a place. -/
theorem Gathers.move {j : ℕ} {t : Thread Reply ε α Λ L} {place place' : Place ε α}
    (hgroup : Gathers h limit opens ⟨p,groups⟩ group) (hj : group.places[j]? = some place)
    (ht : p.threads[group.first + j]? = some t) (hleft : ∀ r, place' = .left r → t.prog = .done r)
    (hstep : Gather.Step h limit ⟨group.slots p.threads,p.shared⟩
      ⟨(group.slots p.threads).set j (place'.slot t),p.shared⟩) (groups' : List (Group ε α B)) :
    Gathers h limit opens ⟨p,groups'⟩ (group.move j place') := by
  refine ⟨?_,fun n r hn => ?_,?_⟩
  · show group.first + (group.places.set j place').length ≤ p.threads.length
    rw [List.length_set]
    exact hgroup.fits
  · change (group.places.set j place')[n]? = _ at hn
    by_cases hjn : j = n
    · subst hjn
      rw [List.getElem?_set_self (List.getElem?_eq_some_iff.mp hj).1] at hn
      exact ⟨t,ht,hleft r (Option.some.inj hn)⟩
    · rw [List.getElem?_set_ne hjn] at hn
      exact hgroup.left n r hn
  · obtain ⟨q,ts,hopens,hfirst,hlabels,hreach⟩ := hgroup.origin
    refine ⟨q,ts,hopens,hfirst,hlabels,?_⟩
    rw [Group.slots_move hj ht]
    exact hreach.step hstep

/-- **A group under permits is a gathering**, whatever the rest of the crowd does. -/
theorem Reachable.gathers (hc : Reachable h limit starts opens g c) :
    ∀ group ∈ c.groups, Gathers h limit opens c group := by
  induction hc with
  | refl => exact fun group hgroup => by simp at hgroup
  | tail _ hstep ih =>
    intro group hgroup
    cases hstep with
    | run ht hop hfree => exact (ih group hgroup).run hgroup ht hop hfree
    | start ht => exact (ih group hgroup).append _ _ _
    | @gather p groups tag ts hts =>
      obtain hgroup | hgroup := List.mem_append.mp hgroup
      · exact (ih group hgroup).append _ _ _
      · obtain rfl := List.mem_singleton.mp hgroup
        refine ⟨?_,fun j r hj => ?_,p,ts,hts,rfl,fun j u hu => ⟨u,?_,rfl⟩,?_⟩
        · show p.threads.length + (List.replicate ts.length _).length ≤ (p.threads ++ ts).length
          rw [List.length_replicate,List.length_append]
        · have hwaiting := List.mem_of_getElem? hj
          rw [List.mem_replicate] at hwaiting
          cases hwaiting.2
        · show (p.threads ++ ts)[p.threads.length + j]? = some u
          rwa [List.getElem?_append_right (Nat.le_add_right _ _),Nat.add_sub_cancel_left]
        · show Gather.Reachable h limit _ ⟨Group.slots _ (p.threads ++ ts),p.shared⟩
          rw [Group.slots_new]
          exact .start _
    | @enter p groups m j group' hm hj hfree =>
      obtain hgroup | rfl := List.mem_or_eq_of_mem_set hgroup
      · exact ⟨(ih group hgroup).fits,(ih group hgroup).left,(ih group hgroup).origin⟩
      · have hthis := ih group' (List.mem_of_getElem? hm)
        obtain ⟨t,ht⟩ := hthis.fits.exists_thread hj
        exact hthis.move hj ht (fun r hr => by cases hr)
          (.enter (Group.slots_at hj ht) (by rwa [Group.insideCount_slots hthis.fits])) _
    | @leave p groups m j group' t r hm hj ht hdone =>
      obtain hgroup | rfl := List.mem_or_eq_of_mem_set hgroup
      · exact ⟨(ih group hgroup).fits,(ih group hgroup).left,(ih group hgroup).origin⟩
      · have hthis := ih group' (List.mem_of_getElem? hm)
        have hinside := Group.slots_at hj ht
        rw [Place.slot,hdone] at hinside
        exact hthis.move hj ht (fun r' hr => by cases hr; exact hdone) (.leave hinside) _

/-- A thread that is free may run to its end without a break. -/
theorem finish {i : ℕ} {t : Thread Reply ε α Λ L} (ht : p.threads[i]? = some t) (hfree : Free groups i) :
    Relation.ReflTransGen (Step h limit starts opens) ⟨p,groups⟩ ⟨⟨p.threads.set i ⟨t.label,
      .done (t.prog.run h (t.loc,p.shared)).1,(t.prog.run h (t.loc,p.shared)).2.1⟩,
      (t.prog.run h (t.loc,p.shared)).2.2⟩,groups⟩ := by
  obtain ⟨label,prog,loc⟩ := t
  induction prog generalizing p loc with
  | done r =>
    have hsame : p.threads.set i ⟨label,.done r,loc⟩ = p.threads := by
      obtain ⟨hlen,hget⟩ := List.getElem?_eq_some_iff.mp ht
      rw [← hget,List.set_getElem_self]
    show Relation.ReflTransGen (Step h limit starts opens) ⟨p,groups⟩
      ⟨⟨p.threads.set i ⟨label,.done r,loc⟩,p.shared⟩,groups⟩
    rw [hsame]
  | call op k ih =>
    have hlen : i < p.threads.length := (List.getElem?_eq_some_iff.mp ht).1
    have hend := ih (h op (loc,p.shared)).1 (p := ⟨p.threads.set i ⟨label,k (h op (loc,p.shared)).1,
      (h op (loc,p.shared)).2.1⟩,(h op (loc,p.shared)).2.2⟩) _ (List.getElem?_set_self hlen)
    rw [List.set_set] at hend
    exact .head (.run ht rfl hfree) hend

/-- A group alone keeps none of its threads that are inside from running. -/
theorem free_alone (group : Group ε α B) (j : ℕ) : Free [group.move j .inside] (group.first + j) := by
  intro group' hgroup n place hn heq
  obtain rfl := List.mem_singleton.mp hgroup
  obtain rfl : n = j := Nat.add_left_cancel heq
  change (group.places.set n .inside)[n]? = some place at hn
  rw [List.getElem?_set_self (by simpa using (List.getElem?_eq_some_iff.mp hn).1)] at hn
  cases hn
  rfl

/-- A thread that waits may enter, run to its end and leave. -/
theorem through {m j : ℕ} {t : Thread Reply ε α Λ L} (hm : groups[m]? = some group)
    (hj : group.places[j]? = some .waiting) (ht : p.threads[group.first + j]? = some t)
    (hlimit : group.places.countP Place.isInside < limit)
    (hfree : Free (groups.set m (group.move j .inside)) (group.first + j)) :
    Relation.ReflTransGen (Step h limit starts opens) ⟨p,groups⟩ ⟨⟨p.threads.set (group.first + j) ⟨t.label,
      .done (t.prog.run h (t.loc,p.shared)).1,(t.prog.run h (t.loc,p.shared)).2.1⟩,
      (t.prog.run h (t.loc,p.shared)).2.2⟩,
      groups.set m (group.move j (.left (t.prog.run h (t.loc,p.shared)).1))⟩ := by
  have hlen : group.first + j < p.threads.length := (List.getElem?_eq_some_iff.mp ht).1
  have hinside : (group.move j .inside : Group ε α B).places[j]? = some .inside :=
    List.getElem?_set_self (List.getElem?_eq_some_iff.mp hj).1
  have hmoved : (groups.set m (group.move j .inside))[m]? = some (group.move j .inside) :=
    List.getElem?_set_self (List.getElem?_eq_some_iff.mp hm).1
  have hrun : Relation.ReflTransGen (Step h limit starts opens) _ _ := finish ht hfree
  have hend := hrun.tail (.leave hmoved hinside (List.getElem?_set_self hlen) rfl)
  rw [List.set_set,Group.move,Group.move,List.set_set] at hend
  exact .head (.enter hm hj hlimit) hend

end Crowd

end Crowd

end StructuredExtractor
