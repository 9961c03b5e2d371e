import Mathlib.Data.List.Nodup

/-! # Lists of keys and values

What `List.lookup` sees of a list that was extended, changed in one place or made
from a list of different keys.
-/
namespace StructuredExtractor.Keyed
variable {κ α β : Type} [DecidableEq κ]

/-- A known key gets a new value in its place. -/
def modify (key : κ) (f : α → α) (d : List (κ × α)) : List (κ × α) :=
  d.map fun p => if p.1 = key then (p.1,f p.2) else p

theorem lookup_cons_ne {key k : κ} (h : key ≠ k) (v : α) (d : List (κ × α)) :
    ((k,v) :: d).lookup key = d.lookup key := by
  rw [List.lookup_cons,beq_eq_false_iff_ne.mpr h]

theorem lookup_singleton (key k : κ) (v : α) : [(k,v)].lookup key = if key = k then some v else none := by
  by_cases hk : key = k
  · subst hk; simp
  · rw [lookup_cons_ne hk,if_neg hk]; rfl

theorem lookup_isSome_iff {key : κ} {d : List (κ × α)} : (d.lookup key).isSome ↔ key ∈ d.map Prod.fst := by
  induction d with
  | nil => simp
  | cons p d ih =>
    obtain ⟨k,v⟩ := p
    by_cases hk : key = k
    · subst hk; simp
    · rw [lookup_cons_ne hk,ih]; simp [hk]

theorem lookup_eq_none_iff {key : κ} {d : List (κ × α)} : d.lookup key = none ↔ key ∉ d.map Prod.fst := by
  rw [← Option.not_isSome_iff_eq_none,lookup_isSome_iff]

theorem lookup_eq_none {key : κ} {d : List (κ × α)} (h : key ∉ d.map Prod.fst) : d.lookup key = none :=
  lookup_eq_none_iff.mpr h

theorem exists_lookup {key : κ} {d : List (κ × α)} (h : key ∈ d.map Prod.fst) : ∃ v, d.lookup key = some v :=
  Option.isSome_iff_exists.mp (lookup_isSome_iff.mpr h)

theorem mem_of_lookup {key : κ} {v : α} {d : List (κ × α)} (h : d.lookup key = some v) : (key,v) ∈ d := by
  obtain ⟨before,after,hd,-⟩ := List.lookup_eq_some_iff.mp h
  rw [hd]
  exact List.mem_append_right _ List.mem_cons_self

theorem mem_keys_of_lookup {key : κ} {v : α} {d : List (κ × α)} (h : d.lookup key = some v) : key ∈ d.map Prod.fst :=
  List.mem_map_of_mem (f := Prod.fst) (mem_of_lookup h)

theorem lookup_modify (key key' : κ) (f : α → α) (d : List (κ × α)) :
    (modify key f d).lookup key' = if key' = key then (d.lookup key').map f else d.lookup key' := by
  induction d with
  | nil => simp [modify]
  | cons p d ih =>
    obtain ⟨k,v⟩ := p
    have hcons : modify key f ((k,v) :: d) = (k,if k = key then f v else v) :: modify key f d := by
      by_cases hk : k = key <;> simp [modify,hk]
    rw [hcons]
    by_cases hk : key' = k
    · subst hk
      by_cases h : key' = key <;> simp [h]
    · rw [lookup_cons_ne hk,lookup_cons_ne hk,ih]

/-- A key that is not there yet is added at the end. -/
theorem lookup_append_new {key : κ} (v : α) {d : List (κ × α)} (h : d.lookup key = none) (key' : κ) :
    (d ++ [(key,v)]).lookup key' = if key' = key then some v else d.lookup key' := by
  rw [List.lookup_append]
  by_cases hk : key' = key
  · subst hk; simp [h]
  · rw [lookup_cons_ne hk]; simp [hk]

theorem lookup_map_of_mem {keyOf : β → κ} {bs : List β} (hn : (bs.map keyOf).Nodup) {b : β}
    (hb : b ∈ bs) (g : β → α) : (bs.map fun b => (keyOf b,g b)).lookup (keyOf b) = some (g b) := by
  induction bs with
  | nil => cases hb
  | cons b' bs ih =>
    obtain ⟨hnew,hn⟩ := List.nodup_cons.mp hn
    rw [List.map_cons]
    rcases List.mem_cons.mp hb with rfl | hb
    · exact List.lookup_cons_self
    · have hne : keyOf b ≠ keyOf b' := fun he => hnew (he ▸ List.mem_map_of_mem hb)
      rw [lookup_cons_ne hne]
      exact ih hn hb

/-- The entries of a list with distinct keys are what is found under them. -/
theorem mem_iff_lookup {d : List (κ × α)} (hn : (d.map Prod.fst).Nodup) (p : κ × α) :
    p ∈ d ↔ d.lookup p.1 = some p.2 := by
  constructor
  · intro hp
    have hlook := lookup_map_of_mem hn hp Prod.snd
    rwa [List.map_id'] at hlook
  · exact mem_of_lookup

/-- With distinct keys the order does not matter. -/
theorem lookup_reverse {d : List (κ × α)} (hn : (d.map Prod.fst).Nodup) (key : κ) :
    d.reverse.lookup key = d.lookup key := by
  refine Option.ext fun v => ?_
  have hreverse : (d.reverse.map Prod.fst).Nodup := by rwa [List.map_reverse,List.nodup_reverse]
  rw [← mem_iff_lookup hn (key,v),← mem_iff_lookup hreverse (key,v),List.mem_reverse]

/-- What is found in a list that was made from different keys, some without a value. -/
theorem lookup_filterMap_of_mem {keyOf : β → κ} {bs : List β} (hn : (bs.map keyOf).Nodup) {b : β}
    (hb : b ∈ bs) (g : β → Option α) :
    (bs.filterMap fun b => (g b).map fun a => (keyOf b,a)).lookup (keyOf b) = g b := by
  induction bs with
  | nil => cases hb
  | cons b' bs ih =>
    obtain ⟨hnew,hn⟩ := List.nodup_cons.mp hn
    rw [List.filterMap_cons]
    rcases List.mem_cons.mp hb with rfl | hb
    · cases hg : g b with
      | some a => exact List.lookup_cons_self
      | none =>
        simp only [Option.map_none,List.lookup_eq_none_iff]
        intro p hp
        obtain ⟨c,hc,hcp⟩ := List.mem_filterMap.mp hp
        obtain ⟨a,_,rfl⟩ := Option.map_eq_some_iff.mp hcp
        exact bne_iff_ne.mpr fun he => hnew (he ▸ List.mem_map_of_mem hc)
    · have hne : keyOf b ≠ keyOf b' := fun he => hnew (he ▸ List.mem_map_of_mem hb)
      cases hg : g b' with
      | some a => exact (lookup_cons_ne hne _ _).trans (ih hn hb)
      | none => exact ih hn hb

omit [DecidableEq κ] in
theorem keys_filterMap (ks : List κ) (g : κ → Option α) :
    (ks.filterMap fun k => (g k).map fun a => (k,a)).map Prod.fst = ks.filter fun k => (g k).isSome := by
  rw [List.map_filterMap,← List.filterMap_eq_filter]
  refine List.filterMap_congr fun k _ => ?_
  cases hk : g k <;> simp [Option.guard,hk]

/-- The values that some of the keys have, by key. -/
theorem lookup_filterMap {ks : List κ} (hn : ks.Nodup) (g : κ → Option α) (key : κ) :
    (ks.filterMap fun k => (g k).map fun a => (k,a)).lookup key = if key ∈ ks then g key else none := by
  by_cases hk : key ∈ ks
  · rw [if_pos hk]
    have hkeys : (ks.map id).Nodup := by rwa [List.map_id]
    exact lookup_filterMap_of_mem hkeys hk g
  · rw [if_neg hk]
    refine lookup_eq_none fun hmem => hk ?_
    rw [keys_filterMap] at hmem
    exact List.mem_of_mem_filter hmem

omit [DecidableEq κ] in
theorem nodup_filter {d : List (κ × α)} (hn : (d.map Prod.fst).Nodup) (p : κ × α → Bool) :
    ((d.filter p).map Prod.fst).Nodup := hn.sublist (List.filter_sublist.map Prod.fst)

theorem lookup_filter_keys (p : κ → Bool) (d : List (κ × α)) (key : κ) :
    (d.filter fun e => p e.1).lookup key = if p key then d.lookup key else none := by
  induction d with
  | nil => simp
  | cons e d ih =>
    obtain ⟨k,v⟩ := e
    by_cases hk : key = k
    · subst hk
      cases hp : p key <;> simp [hp,ih]
    · rw [lookup_cons_ne hk,← ih]
      cases hp : p k with
      | false => rw [List.filter_cons_of_neg (by simp [hp])]
      | true => rw [List.filter_cons_of_pos (by simpa using hp),lookup_cons_ne hk]

theorem lookup_map_values (f : κ → α → β) (d : List (κ × α)) (key : κ) :
    (d.map fun e => (e.1,f e.1 e.2)).lookup key = (d.lookup key).map (f key) := by
  induction d with
  | nil => rfl
  | cons e d ih =>
    obtain ⟨k,v⟩ := e
    by_cases hk : key = k
    · subst hk
      simp
    · rw [List.map_cons,lookup_cons_ne hk,lookup_cons_ne hk,ih]

/-- In a list with distinct keys, one element has the key of an element. -/
theorem filter_key_eq {key : α → κ} {xs : List α} (h : (xs.map key).Nodup) {x : α} (hx : x ∈ xs) :
    xs.filter (fun y => key y = key x) = [x] := by
  induction xs with
  | nil => cases hx
  | cons y ys ih =>
    obtain ⟨hy,hys⟩ := List.nodup_cons.mp (List.map_cons ▸ h)
    obtain rfl | hx := List.mem_cons.mp hx
    · have hnone : ys.filter (fun z => key z = key x) = [] := by
        refine List.filter_eq_nil_iff.mpr fun z hz hkey => hy ?_
        exact of_decide_eq_true hkey ▸ List.mem_map_of_mem hz
      rw [List.filter_cons_of_pos (by simp),hnone]
    · have hne : key y ≠ key x := fun hkey => hy (hkey ▸ List.mem_map_of_mem hx)
      rw [List.filter_cons_of_neg (by simpa using hne),ih hys hx]

end StructuredExtractor.Keyed
