import StructuredExtractor.Data.Text
import Mathlib.Data.String.Basic

/-! # Paths

The part of `pathlib` that the local storage uses, on POSIX: parsing of a text, the text
of a path, joining, the last name, and the names that are left when dots are followed.
-/
namespace StructuredExtractor

section Split
open String

private theorem atEnd_valid (l m r : List Char) :
    Pos.Raw.atEnd (ofList (l ++ m ++ r)) ⟨utf8Len l + utf8Len m⟩ = true ↔ r = [] := by
  rw [atEnd_iff,rawEndPos_ofList,utf8Len_append,utf8Len_append,Pos.Raw.mk_le_mk,← utf8Len_eq_zero]
  omega

private theorem splitOnAux_of_valid (l m r : List Char) (acc : List String) :
    splitOnAux (ofList (l ++ m ++ r)) "/" ⟨utf8Len l⟩ ⟨utf8Len l + utf8Len m⟩ 0 acc =
      acc.reverse ++ (List.splitOnPPrepend (· == '/') r m.reverse).map ofList := by
  induction r generalizing l m acc with
  | nil =>
    unfold splitOnAux
    rw [if_pos ((atEnd_valid l m []).mpr rfl),extract_of_valid l m []]
    simp
  | cons c r ih =>
    unfold splitOnAux
    have hget := get_of_valid (l ++ m) (c :: r)
    have hnext := next_of_valid (l ++ m) c r
    rw [utf8Len_append] at hget hnext
    have hj : Pos.Raw.get "/" 0 = '/' := by rfl
    have hjn : Pos.Raw.next "/" 0 = ⟨1⟩ := by rfl
    have hje : Pos.Raw.atEnd "/" ⟨1⟩ = true := by decide
    rw [if_neg (mt (atEnd_valid l m (c :: r)).mp (List.cons_ne_nil c r)),hget,hj,hnext]
    by_cases hc : c = '/'
    · subst hc
      simp only [List.headD_cons, beq_self_eq_true, if_true, hjn, hje]
      have hstep := ih (l ++ m ++ ['/']) [] (ofList m :: acc)
      have hback : (⟨utf8Len l + utf8Len m + '/'.utf8Size⟩ : Pos.Raw).unoffsetBy ⟨1⟩ = ⟨utf8Len l + utf8Len m⟩ := rfl
      rw [hback,extract_of_valid l m ('/' :: r)]
      simpa [-ofList_append,utf8Len_append,Nat.add_assoc,List.splitOnPPrepend_cons_eq_if] using hstep
    · simp only [List.headD_cons, beq_eq_false_iff_ne.mpr hc]
      have hstep := ih l (m ++ [c]) acc
      have hback : (⟨utf8Len l + utf8Len m⟩ : Pos.Raw).unoffsetBy 0 = ⟨utf8Len l + utf8Len m⟩ := rfl
      rw [if_neg Bool.false_ne_true,hback,hnext]
      simpa [-ofList_append,utf8Len_append,Nat.add_assoc,List.splitOnPPrepend_cons_eq_if,hc] using hstep

theorem splitOn_slash (s : String) : s.splitOn "/" = (s.toList.splitOn '/').map ofList := by
  have h := splitOnAux_of_valid [] [] s.toList []
  simpa [splitOn,List.splitOn_eq_splitOnP] using h

end Split

/-- A name between the slashes of a path: not empty, and not the dot that parsing drops. -/
structure IsPart (s : String) : Prop where
  nonempty : s ≠ ""
  notDot : s ≠ "."
  noSlash : '/' ∉ s.toList

instance : DecidablePred IsPart := fun s =>
  decidable_of_iff (s ≠ "" ∧ s ≠ "." ∧ '/' ∉ s.toList) ⟨fun h => ⟨h.1,h.2.1,h.2.2⟩,fun h => ⟨h.1,h.2,h.3⟩⟩

/-- `PurePosixPath`. -/
structure PurePath where
  absolute : Bool
  parts : List String
  valid : ∀ s ∈ parts, IsPart s

namespace PurePath

theorem ext {p q : PurePath} (ha : p.absolute = q.absolute) (hp : p.parts = q.parts) : p = q := by
  obtain ⟨_,_,_⟩ := p
  obtain ⟨_,_,_⟩ := q
  obtain rfl := ha
  obtain rfl := hp
  rfl

def components (text : String) : List String :=
  (text.splitOn "/").filter fun s => s ≠ "" && s ≠ "."

theorem components_eq (text : String) :
    components text = ((text.toList.splitOn '/').map String.ofList).filter fun s => s ≠ "" && s ≠ "." := by
  rw [components,splitOn_slash]

theorem not_mem_of_mem_splitOn {cs word : List Char} (h : word ∈ cs.splitOn '/') : '/' ∉ word := by
  induction cs generalizing word with
  | nil =>
    obtain rfl : word = [] := by simpa using h
    exact List.not_mem_nil
  | cons c cs ih =>
    rw [List.splitOn_cons_eq_if_modifyHead] at h
    split at h
    · obtain rfl | h := List.mem_cons.mp h
      · exact List.not_mem_nil
      · exact ih h
    · next hc =>
      obtain ⟨first,rest,hsplit⟩ := List.exists_cons_of_ne_nil (List.splitOn_ne_nil '/' cs)
      rw [hsplit] at h ih
      obtain rfl | h := List.mem_cons.mp h
      · have hfirst := ih (List.mem_cons_self ..)
        simp only [List.mem_cons,not_or]
        exact ⟨fun heq => hc (by simp [← heq]),hfirst⟩
      · exact ih (List.mem_cons_of_mem _ h)

theorem isPart_of_mem {text s : String} (h : s ∈ components text) : IsPart s := by
  rw [components_eq,List.mem_filter,List.mem_map] at h
  obtain ⟨⟨word,hword,rfl⟩,hs⟩ := h
  have hs : String.ofList word ≠ "" ∧ String.ofList word ≠ "." := by simpa using hs
  exact ⟨hs.1,hs.2,by rw [String.toList_ofList]; exact not_mem_of_mem_splitOn hword⟩

/-- `Path(text)`. -/
def parse (text : String) : PurePath where
  absolute := text.toList.head? == some '/'
  parts := components text
  valid _ := isPart_of_mem

/-- `str(path)`. -/
def str (p : PurePath) : String :=
  if p.absolute then "/" ++ "/".intercalate p.parts
  else if p.parts = [] then "." else "/".intercalate p.parts

/-- `a / b`: an absolute path stays as it is. -/
def join (a b : PurePath) : PurePath :=
  if b.absolute then b else {
    absolute := a.absolute
    parts := a.parts ++ b.parts
    valid := fun s hs => (List.mem_append.mp hs).elim (a.valid s) (b.valid s) }

/-- `path.name`. -/
def name (p : PurePath) : String := p.parts.getLast?.getD ""

section RoundTrip

theorem components_intercalate {parts : List String} (h : ∀ s ∈ parts, IsPart s) :
    components ("/".intercalate parts) = parts := by
  cases parts with
  | nil =>
    rw [components_eq]
    decide
  | cons s parts =>
    have hsplit : ("/".intercalate (s :: parts)).toList.splitOn '/' = (s :: parts).map String.toList := by
      rw [String.toList_intercalate]
      refine List.splitOn_intercalate '/' (fun l hl => ?_) (by simp)
      obtain ⟨t,ht,rfl⟩ := List.mem_map.mp hl
      exact (h t ht).noSlash
    rw [components_eq,hsplit,List.map_map]
    have hid : (s :: parts).map (String.ofList ∘ String.toList) = s :: parts := by simp
    rw [hid]
    exact List.filter_eq_self.mpr fun t ht => by simp [(h t ht).nonempty,(h t ht).notDot]

theorem components_slash (s : String) : components ("/" ++ s) = components s := by
  have hcons : ("/" ++ s).toList = '/' :: s.toList := by simp
  rw [components_eq,components_eq,hcons,List.splitOn_cons_eq_if_modifyHead]
  simp

theorem head_intercalate {s : String} {parts : List String} (h : IsPart s) :
    ("/".intercalate (s :: parts)).toList.head? ≠ some '/' := by
  obtain ⟨c,cs,hs⟩ : ∃ c cs, s.toList = c :: cs :=
    List.exists_cons_of_ne_nil fun hnil => h.nonempty (by rwa [String.toList_eq_nil_iff] at hnil)
  have hc : c ≠ '/' := fun heq => h.noSlash (by simp [hs,heq])
  rw [String.toList_intercalate]
  cases parts with
  | nil => simpa [hs] using hc
  | cons t parts => simpa [hs] using hc

/-- The text of a path is parsed as that path. -/
theorem parse_str (p : PurePath) : parse p.str = p := by
  obtain ⟨absolute,parts,valid⟩ := p
  cases absolute with
  | true =>
    refine ext ?_ ?_
    · simp [parse,str]
    · exact (components_slash _).trans (components_intercalate valid)
  | false =>
    cases parts with
    | nil =>
      have hdot : components "." = [] := (components_eq ".").trans (by decide)
      refine ext ?_ hdot
      simp [parse,str]
    | cons s parts =>
      refine ext ?_ (components_intercalate valid)
      simpa [parse,str] using head_intercalate (valid s (List.mem_cons_self ..))

end RoundTrip

/-- The path that some names lead to from another one: `..` goes up, not beyond the root. -/
def follow (p : List String) (names : List String) : List String :=
  names.foldl (fun p s => if s = ".." then p.tail else s :: p) p

theorem follow_cons {p : List String} {s : String} (hs : s ≠ "..") (names : List String) :
    follow p (s :: names) = follow (s :: p) names := by
  rw [follow,List.foldl_cons,if_neg hs,follow]

end PurePath

end StructuredExtractor
