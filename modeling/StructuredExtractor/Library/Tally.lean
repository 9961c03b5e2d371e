import StructuredExtractor.Library.Keyed
import Mathlib.Algebra.BigOperators.Group.List.Basic
import Mathlib.Data.List.Dedup

/-! # Dictionaries that are filled, grouped and tallied

A dictionary keeps its keys in the order in which they came. Rows are grouped by a key
as `GROUP BY` does, and amounts are tallied under their keys. What is grouped by a key
and something else and then tallied is what is grouped by the key alone.
-/
namespace StructuredExtractor.Keyed
variable {κ α β M : Type} [DecidableEq κ]

/-- A dictionary with a key set: a known key keeps its place. -/
def insert (key : κ) (v : α) (d : List (κ × α)) : List (κ × α) :=
  if (d.lookup key).isSome then modify key (fun _ => v) d else d ++ [(key,v)]

theorem lookup_insert (key key' : κ) (v : α) (d : List (κ × α)) :
    (insert key v d).lookup key' = if key' = key then some v else d.lookup key' := by
  unfold insert
  cases h : d.lookup key with
  | none => exact lookup_append_new v h key'
  | some w =>
    rw [Option.isSome_some,if_pos rfl,lookup_modify]
    by_cases hk : key' = key
    · subst hk; simp [h]
    · rw [if_neg hk,if_neg hk]

theorem keys_modify (key : κ) (f : α → α) (d : List (κ × α)) : (modify key f d).map Prod.fst = d.map Prod.fst := by
  rw [modify,List.map_map]
  refine List.map_congr_left fun p _ => ?_
  by_cases h : p.1 = key <;> simp [h]

theorem nodup_insert (key : κ) (v : α) {d : List (κ × α)} (h : (d.map Prod.fst).Nodup) :
    ((insert key v d).map Prod.fst).Nodup := by
  unfold insert
  cases hk : d.lookup key with
  | some w => rwa [Option.isSome_some,if_pos rfl,keys_modify]
  | none =>
    have hnew : key ∉ d.map Prod.fst := fun hmem => by
      rw [← lookup_isSome_iff,hk] at hmem
      cases hmem
    rw [Option.isSome_none,if_neg Bool.false_ne_true,List.map_append]
    exact List.nodup_append_comm.mp (List.nodup_cons.mpr ⟨hnew,h⟩)

/-- Dictionaries of different keys are the same up to order when they say the same. -/
theorem perm_of_lookup {d d' : List (κ × α)} (h : (d.map Prod.fst).Nodup) (h' : (d'.map Prod.fst).Nodup)
    (hsame : ∀ key, d.lookup key = d'.lookup key) : d.Perm d' := by
  rw [List.perm_ext_iff_of_nodup h.of_map h'.of_map]
  intro p
  rw [mem_iff_lookup h,mem_iff_lookup h',hsame]

theorem lookup_perm {d d' : List (κ × α)} (h : (d.map Prod.fst).Nodup) (hperm : d.Perm d') (key : κ) :
    d.lookup key = d'.lookup key := by
  have h' : (d'.map Prod.fst).Nodup := (hperm.map _).nodup_iff.mp h
  cases hk : d.lookup key with
  | none =>
    have hnot : key ∉ d'.map Prod.fst := fun hmem => by
      rw [← (hperm.map _).mem_iff,← lookup_isSome_iff,hk] at hmem
      cases hmem
    exact (lookup_eq_none hnot).symm
  | some v => exact ((mem_iff_lookup h' (key,v)).mp (hperm.subset ((mem_iff_lookup h (key,v)).mpr hk))).symm

section Sum
variable [AddCommMonoid M]

/-- A key that is set changes a sum by what is new about it. -/
theorem sum_insert {key : κ} {v : α} {d : List (κ × α)} (hn : (d.map Prod.fst).Nodup) (g : α → M) (m : M)
    (hnew : d.lookup key = none → g v = m) (hold : ∀ w, d.lookup key = some w → g v = g w + m) :
    ((insert key v d).map fun p => g p.2).sum = (d.map fun p => g p.2).sum + m := by
  unfold insert
  cases hk : d.lookup key with
  | none => simp [hnew hk]
  | some w =>
    rw [Option.isSome_some,if_pos rfl]
    have hg := hold w hk
    clear hnew hold
    induction d with
    | nil => cases hk
    | cons p d ih =>
      obtain ⟨k,x⟩ := p
      obtain ⟨hhead,htail⟩ := List.nodup_cons.mp (List.map_cons ▸ hn)
      by_cases hkey : key = k
      · subst hkey
        rw [List.lookup_cons_self] at hk
        obtain rfl := Option.some.inj hk
        have hsame : modify key (fun _ => v) d = d := by
          refine (List.map_congr_left fun q hq => if_neg ?_).trans (List.map_id d)
          rintro rfl
          exact hhead (List.mem_map.mpr ⟨q,hq,rfl⟩)
        have hcons : modify key (fun _ => v) ((key,x) :: d) = (key,v) :: modify key (fun _ => v) d := by simp [modify]
        rw [hcons,hsame,List.map_cons,List.sum_cons,List.map_cons,List.sum_cons,hg,add_right_comm]
      · rw [lookup_cons_ne hkey] at hk
        have hcons : modify key (fun _ => v) ((k,x) :: d) = (k,x) :: modify key (fun _ => v) d := by
          simp [modify,Ne.symm hkey]
        rw [hcons,List.map_cons,List.sum_cons,ih htail hk,List.map_cons,List.sum_cons,add_assoc]

end Sum

section Merge

/-- The keys of `us` set one after the other, each by what the dictionary has for it. -/
def merge (f : Option α → β → α) (d : List (κ × α)) (us : List (κ × β)) : List (κ × α) :=
  us.foldl (fun d u => insert u.1 (f (d.lookup u.1) u.2) d) d

variable {f : Option α → β → α} {d : List (κ × α)} {us : List (κ × β)}

theorem nodup_merge (h : (d.map Prod.fst).Nodup) : ((merge f d us).map Prod.fst).Nodup := by
  induction us generalizing d with
  | nil => exact h
  | cons u us ih => exact ih (nodup_insert _ _ h)

theorem lookup_merge (hn : (us.map Prod.fst).Nodup) (key : κ) : (merge f d us).lookup key =
    match us.lookup key with
    | some u => some (f (d.lookup key) u)
    | none => d.lookup key := by
  induction us generalizing d with
  | nil => rfl
  | cons u us ih =>
    obtain ⟨k,u⟩ := u
    obtain ⟨hnew,hn⟩ := List.nodup_cons.mp (List.map_cons ▸ hn)
    have hrest := ih (d := insert k (f (d.lookup k) u) d) hn
    rw [merge,List.foldl_cons,← merge,hrest,lookup_insert]
    by_cases hk : key = k
    · subst hk
      rw [lookup_eq_none hnew,List.lookup_cons_self]
      simp
    · rw [lookup_cons_ne hk]
      simp [hk]

/-- A sum over the merged dictionary, of what is there and what each key adds. -/
theorem sum_merge [AddCommMonoid M] (hd : (d.map Prod.fst).Nodup) (hn : (us.map Prod.fst).Nodup) (g : α → M)
    (h : β → M) (hnew : ∀ u, g (f none u) = h u)
    (hold : ∀ p ∈ us, ∀ v, d.lookup p.1 = some v → g (f (some v) p.2) = g v + h p.2) :
    ((merge f d us).map fun p => g p.2).sum = (d.map fun p => g p.2).sum + (us.map fun p => h p.2).sum := by
  induction us generalizing d with
  | nil => simp [merge]
  | cons u us ih =>
    obtain ⟨k,u⟩ := u
    obtain ⟨hfresh,hn⟩ := List.nodup_cons.mp (List.map_cons ▸ hn)
    have hset : ((insert k (f (d.lookup k) u) d).map fun p => g p.2).sum = (d.map fun p => g p.2).sum + h u := by
      refine sum_insert hd g (h u) (fun hk => ?_) fun v hk => ?_
      · rw [hk,hnew]
      · rw [hk,hold _ List.mem_cons_self v hk]
    rw [merge,List.foldl_cons,← merge,ih (nodup_insert _ _ hd) hn fun p hp v hv => ?_,hset,List.map_cons,
      List.sum_cons,add_assoc]
    have hne : p.1 ≠ k := fun hk => hfresh (List.mem_map.mpr ⟨p,hp,hk⟩)
    rw [lookup_insert,if_neg hne] at hv
    exact hold p (List.mem_cons_of_mem _ hp) v hv

end Merge

section Groups
variable [AddCommMonoid M]

/-- The rows by their keys, as `GROUP BY` has them. -/
def groupRows (key : α → κ) (rows : List α) : List (κ × List α) :=
  (rows.map key).dedup.map fun k => (k,rows.filter fun r => key r = k)

/-- The amounts added up under their keys. -/
def tally (rows : List (κ × M)) : List (κ × M) :=
  rows.foldl (fun costs r => insert r.1 (match costs.lookup r.1 with
    | none => r.2
    | some current => current + r.2) costs) []

variable {key : α → κ} {rows : List α}

theorem keys_groupRows (key : α → κ) (rows : List α) :
    (groupRows key rows).map Prod.fst = (rows.map key).dedup := by
  rw [groupRows,List.map_map]
  exact List.map_id _

theorem nodup_groupRows (key : α → κ) (rows : List α) : ((groupRows key rows).map Prod.fst).Nodup :=
  keys_groupRows key rows ▸ List.nodup_dedup _

theorem sum_filter_eq (p : α → Prop) [DecidablePred p] (f : α → M) (rows : List α) :
    ((rows.filter p).map f).sum = (rows.map fun r => if p r then f r else 0).sum := by
  induction rows with
  | nil => rfl
  | cons r rows ih => by_cases hr : p r <;> simp [hr,ih]

/-- Of different keys, one is `k`. -/
theorem sum_single {ks : List κ} (hn : ks.Nodup) {k : κ} (hk : k ∈ ks) (m : M) :
    (ks.map fun k' => if k = k' then m else 0).sum = m := by
  induction ks with
  | nil => cases hk
  | cons k' ks ih =>
    obtain ⟨hnew,hn⟩ := List.nodup_cons.mp hn
    rw [List.map_cons,List.sum_cons]
    obtain heq | hk := List.mem_cons.mp hk
    · have hzero : (ks.map fun k' => if k = k' then m else 0) = ks.map fun _ => 0 :=
        List.map_congr_left fun k'' hk'' => if_neg fun (h : k = k'') => hnew ((heq.symm.trans h) ▸ hk'')
      rw [hzero,if_pos heq]; simp
    · have hne : k ≠ k' := fun h => hnew (h ▸ hk)
      rw [if_neg hne,zero_add,ih hn hk]

/-- The rows under different keys that are all the keys of the rows. -/
theorem sum_keys {ks : List κ} (hn : ks.Nodup) (key : α → κ) (f : α → M) {rows : List α}
    (hmem : ∀ r ∈ rows, key r ∈ ks) :
    (ks.map fun k => ((rows.filter fun r => key r = k).map f).sum).sum = (rows.map f).sum := by
  have hsum : ∀ k, ((rows.filter fun r => key r = k).map f).sum =
      (rows.map fun r => if key r = k then f r else 0).sum := fun k => sum_filter_eq _ f rows
  simp only [hsum]
  clear hsum
  induction rows with
  | nil => simp
  | cons r rows ih =>
    have hrest := ih fun r' hr' => hmem r' (List.mem_cons_of_mem r hr')
    simp only [List.map_cons,List.sum_cons,List.sum_map_add,hrest,sum_single hn (hmem r List.mem_cons_self)]

/-- The sums of the groups make up the sum of all rows. -/
theorem sum_groupRows (key : α → κ) (f : α → M) (rows : List α) :
    ((groupRows key rows).map fun g => (g.2.map f).sum).sum = (rows.map f).sum := by
  rw [groupRows,List.map_map]
  exact sum_keys (List.nodup_dedup _) key f fun r hr => List.mem_dedup.mpr (List.mem_map_of_mem hr)

theorem nodup_tally (rows : List (κ × M)) : ((tally rows).map Prod.fst).Nodup := by
  have hfold : ∀ {d : List (κ × M)}, (d.map Prod.fst).Nodup → ((rows.foldl (fun costs r => insert r.1
      (match costs.lookup r.1 with
        | none => r.2
        | some current => current + r.2) costs) d).map Prod.fst).Nodup := by
    induction rows with
    | nil => exact fun h => h
    | cons r rows ih => exact fun h => ih (nodup_insert _ _ h)
  exact hfold List.nodup_nil

/-- The sum of the rows under a key. -/
def sumAt (k : κ) (rows : List (κ × M)) : M := ((rows.filter fun r => r.1 = k).map Prod.snd).sum

theorem lookup_tally (rows : List (κ × M)) (k : κ) :
    (tally rows).lookup k = if k ∈ rows.map Prod.fst then some (sumAt k rows) else none := by
  have hfold : ∀ d : List (κ × M), (rows.foldl (fun costs r => insert r.1 (match costs.lookup r.1 with
      | none => r.2
      | some current => current + r.2) costs) d).lookup k =
      if k ∈ rows.map Prod.fst then some ((d.lookup k).getD 0 + sumAt k rows) else d.lookup k := by
    induction rows with
    | nil => exact fun d => rfl
    | cons r rows ih =>
      intro d
      rw [List.foldl_cons,ih,lookup_insert]
      unfold sumAt
      by_cases hk : k = r.1
      · subst hk
        by_cases hmem : r.1 ∈ rows.map Prod.fst
        · cases d.lookup r.1 <;> simp [hmem,add_assoc]
        · have hnone : rows.filter (fun r' => r'.1 = r.1) = [] := List.filter_eq_nil_iff.mpr fun r' hr' h =>
            hmem (List.mem_map.mpr ⟨r',hr',of_decide_eq_true h⟩)
          cases d.lookup r.1 <;> simp [hmem,hnone]
      · rw [if_neg hk,List.filter_cons_of_neg (by simpa using Ne.symm hk)]
        have hmem : k ∈ rows.map Prod.fst ↔ k ∈ (r :: rows).map Prod.fst := by simp [hk]
        exact if_congr hmem rfl rfl
  have hnil := hfold []
  rwa [List.lookup_nil,Option.getD_none,zero_add] at hnil

/-- The order of the rows does not matter. -/
theorem tally_perm {rows rows' : List (κ × M)} (h : rows.Perm rows') : (tally rows).Perm (tally rows') := by
  refine perm_of_lookup (nodup_tally rows) (nodup_tally rows') fun k => ?_
  have hsum : sumAt k rows = sumAt k rows' := ((h.filter _).map _).sum_eq
  have hmem : k ∈ rows.map Prod.fst ↔ k ∈ rows'.map Prod.fst := (h.map _).mem_iff
  rw [lookup_tally,lookup_tally,hsum]
  exact if_congr hmem rfl rfl

/-- What is made of the groups, found under a key. -/
theorem lookup_groupRows {β : Type} (key : α → κ) (F : κ → List α → β) (rows : List α) (k : κ) :
    ((groupRows key rows).map fun g => (g.1,F g.1 g.2)).lookup k =
      if k ∈ rows.map key then some (F k (rows.filter fun r => key r = k)) else none := by
  have hmap : (groupRows key rows).map (fun g => (g.1,F g.1 g.2)) =
      (rows.map key).dedup.map fun k => (k,F k (rows.filter fun r => key r = k)) := by
    rw [groupRows,List.map_map]
    rfl
  rw [hmap]
  by_cases hk : k ∈ rows.map key
  · have hn : ((rows.map key).dedup.map id).Nodup := by
      rw [List.map_id]
      exact List.nodup_dedup _
    rw [if_pos hk]
    exact lookup_map_of_mem hn (List.mem_dedup.mpr hk) _
  · rw [if_neg hk]
    refine lookup_eq_none fun hmem => hk ?_
    rw [List.map_map] at hmem
    obtain ⟨k',hk',rfl⟩ := List.mem_map.mp hmem
    exact List.mem_dedup.mp hk'

section Subgroups
variable {κ' : Type} [DecidableEq κ'] (key : α → κ) (sub : α → κ') (f : α → M) (rows : List α)

/-- The groups by a key and something else, each with its sum under the key. -/
def subgroupSums : List (κ × M) :=
  (groupRows (fun r => (key r,sub r)) rows).map fun g => (g.1.1,(g.2.map f).sum)

theorem mem_subgroupSums (k : κ) : k ∈ (subgroupSums key sub f rows).map Prod.fst ↔ k ∈ rows.map key := by
  rw [subgroupSums,List.map_map,groupRows,List.map_map]
  simp only [List.mem_map,List.mem_dedup,Function.comp_apply]
  constructor
  · rintro ⟨_,⟨r,hr,rfl⟩,rfl⟩
    exact ⟨r,hr,rfl⟩
  · rintro ⟨r,hr,rfl⟩
    exact ⟨_,⟨r,hr,rfl⟩,rfl⟩

/-- The rows of a group all have the group's key. -/
theorem sum_subgroup {g : (κ × κ') × List α} (hg : g ∈ groupRows (fun r => (key r,sub r)) rows) (k : κ) :
    (if g.1.1 = k then (g.2.map f).sum else 0) = (g.2.map fun r => if key r = k then f r else 0).sum := by
  obtain ⟨⟨k',s⟩,-,rfl⟩ := List.mem_map.mp hg
  have hrows : ∀ r ∈ rows.filter (fun r => (key r,sub r) = (k',s)), key r = k' := fun r hr =>
    (Prod.mk.inj (of_decide_eq_true (List.mem_filter.mp hr).2)).1
  by_cases hk : k' = k
  · rw [if_pos hk]
    exact congrArg List.sum (List.map_congr_left fun r hr => (if_pos ((hrows r hr).trans hk)).symm)
  · rw [if_neg hk]
    have hzero : (rows.filter fun r => (key r,sub r) = (k',s)).map (fun r => if key r = k then f r else 0) =
        (rows.filter fun r => (key r,sub r) = (k',s)).map fun _ => 0 :=
      List.map_congr_left fun r hr => if_neg fun h => hk ((hrows r hr).symm.trans h)
    rw [hzero]; simp

theorem sumAt_subgroupSums (k : κ) :
    sumAt k (subgroupSums key sub f rows) = ((rows.filter fun r => key r = k).map f).sum := by
  unfold sumAt subgroupSums
  rw [List.filter_map,List.map_map]
  calc (((groupRows (fun r => (key r,sub r)) rows).filter fun g => decide (g.1.1 = k)).map
          fun g => (g.2.map f).sum).sum
      = ((groupRows (fun r => (key r,sub r)) rows).map fun g => if g.1.1 = k then (g.2.map f).sum else 0).sum :=
        sum_filter_eq (fun g : (κ × κ') × List α => g.1.1 = k) _ _
    _ = ((groupRows (fun r => (key r,sub r)) rows).map fun g =>
          (g.2.map fun r => if key r = k then f r else 0).sum).sum :=
        congrArg List.sum (List.map_congr_left fun _ hg => sum_subgroup key sub f rows hg k)
    _ = (rows.map fun r => if key r = k then f r else 0).sum := sum_groupRows _ _ rows
    _ = ((rows.filter fun r => key r = k).map f).sum := (sum_filter_eq (fun r => key r = k) f rows).symm

/-- **Groups of groups.** The groups by a key and something else, tallied by the key,
are the groups by the key. -/
theorem tally_groupRows : (tally (subgroupSums key sub f rows)).Perm
    ((groupRows key rows).map fun g => (g.1,(g.2.map f).sum)) := by
  have hn : (((groupRows key rows).map fun g => (g.1,(g.2.map f).sum)).map Prod.fst).Nodup := by
    rw [List.map_map]
    exact nodup_groupRows key rows
  refine perm_of_lookup (nodup_tally _) hn fun k => ?_
  rw [lookup_tally,lookup_groupRows key fun _ rs => (rs.map f).sum,sumAt_subgroupSums]
  exact if_congr (mem_subgroupSums key sub f rows k) rfl rfl

end Subgroups

end Groups

end StructuredExtractor.Keyed
