import EnergyProfile.Files.Path
import Mathlib.Data.List.TakeWhile
import Mathlib.Tactic.SplitIfs

/-!
# Spellings of paths

Paths are the same if they have the same components, however these are written. The pieces of a
path are put together where its texts are, at separators.
-/

namespace EnergyProfile

set_option autoImplicit false

@[simp] theorem Path.same_self (path : Path) : path.same path = true := by
  simp [Path.same]

theorem Path.same_iff {path path' : Path} :
    path.same path' = true ↔
      path.isAbsolute = path'.isAbsolute ∧ path.components = path'.components := by
  simp [Path.same]

theorem Path.same_congr {path path' : Path} (h : path.same path' = true) (other : Path) :
    path.same other = path'.same other := by
  obtain ⟨habsolute, hcomponents⟩ := Path.same_iff.mp h
  simp only [Path.same, habsolute, hcomponents]

namespace Path

theorem pieces_append_separator (front back : String) :
    pieces ⟨front ++ "/" ++ back⟩ = pieces ⟨front⟩ ++ pieces ⟨back⟩ := by
  have hchars : (front ++ "/" ++ back).toList = front.toList ++ '/' :: back.toList := by
    simp
  simp only [pieces, hchars, List.splitOn_append_cons_self, List.map_append]

theorem pieces_ne_nil (p : Path) : p.pieces ≠ [] := by
  simp [pieces]

theorem pieces_of_plain {text : String} (h : '/' ∉ text.toList) : pieces ⟨text⟩ = [text] := by
  simp [pieces, List.splitOn_eq_singleton h]

theorem pieces_append {front : String} (h : '/' ∉ front.toList) (back : String) :
    pieces ⟨front ++ back⟩ = (pieces ⟨back⟩).modifyHead (front ++ ·) := by
  have hchars (chars : List Char) (hplain : '/' ∉ chars) (rest : List Char) :
      (chars ++ rest).splitOn '/' = (rest.splitOn '/').modifyHead (chars ++ ·) := by
    induction chars with
    | nil => exact (congrFun List.modifyHead_id _).symm
    | cons c chars ih =>
      simp only [List.mem_cons, not_or] at hplain
      obtain ⟨hc, hplain⟩ := hplain
      rw [List.cons_append, List.splitOn_cons_eq_if_modifyHead, if_neg (by simpa using Ne.symm hc),
        ih hplain, List.modifyHead_modifyHead]
      rfl
  simp only [pieces, String.toList_append, hchars _ h]
  cases back.toList.splitOn '/' with
  | nil => rfl
  | cons first rest => simp [List.modifyHead, String.ofList_append]

/-- The pieces that name something wherever they stand. -/
def named (p : Path) : List String :=
  p.pieces.filter fun c => c ≠ "" ∧ c ≠ "."

theorem components_eq (p : Path) :
    p.components = if p.pieces.head? = some "." then "." :: p.named else p.named := rfl

theorem named_eq_filter_components (p : Path) :
    p.named = p.components.filter fun c => c ≠ "" ∧ c ≠ "." := by
  rw [components_eq]
  split_ifs <;> simp [named, List.filter_filter]

theorem named_of_same {p q : Path} (h : p.same q = true) : p.named = q.named := by
  rw [named_eq_filter_components, named_eq_filter_components, (same_iff.mp h).2]

theorem same_trans {p q r : Path} (hpq : p.same q = true) (hqr : q.same r = true) :
    p.same r = true := by
  rwa [same_congr hpq]

variable {base p : Path}

theorem pieces_of_empty (h : p.text = "") : p.pieces = [""] := by
  obtain ⟨text⟩ := p
  subst h
  rfl

theorem join_of_empty (h : base.text = "") : base.join p = p := by
  by_cases habsolute : p.isAbsolute = true
  · exact join_of_isAbsolute base p habsolute
  · simp [join, habsolute, h]

/-- The pieces of a path follow those of the directory, where an empty one at its end is not
counted. -/
theorem pieces_join (hp : p.isAbsolute = false) (hbase : base.text ≠ "") :
    ∃ front, front ≠ [] ∧ (base.pieces = front ∨ base.pieces = front ++ [""]) ∧
      (base.join p).pieces = front ++ p.pieces := by
  obtain ⟨text⟩ := base
  by_cases hlast : text.toList.getLast? = some '/'
  · obtain ⟨front, hfront⟩ := List.getLast?_eq_some_iff.mp hlast
    obtain rfl : text = String.ofList front ++ "/" := by
      rw [← String.ofList_toList (s := text), hfront, String.ofList_append]
    have hempty : pieces ⟨""⟩ = [""] := rfl
    refine ⟨pieces ⟨String.ofList front⟩, pieces_ne_nil _, .inr ?_, ?_⟩
    · simpa [hempty] using pieces_append_separator (String.ofList front) ""
    · simp [join, hp, pieces_append_separator]
  · refine ⟨_, pieces_ne_nil _, .inl rfl, ?_⟩
    have hjoin : join ⟨text⟩ p = ⟨text ++ "/" ++ p.text⟩ := by
      simp only at hbase
      simp [join, hp, hbase, hlast]
    rw [hjoin, pieces_append_separator]

theorem named_join (hp : p.isAbsolute = false) : (base.join p).named = base.named ++ p.named := by
  by_cases hbase : base.text = ""
  · simp [join_of_empty hbase, named, pieces_of_empty hbase]
  · obtain ⟨front, -, hfront, hjoin⟩ := pieces_join hp hbase
    have hnamed : base.named = front.filter fun c => c ≠ "" ∧ c ≠ "." := by
      cases hfront with
      | inl h => simp [named, h]
      | inr h => simp [named, h]
    rw [hnamed, named, hjoin, List.filter_append]
    rfl

theorem head_pieces_join (hp : p.isAbsolute = false) (hbase : base.text ≠ "") :
    (base.join p).pieces.head? = base.pieces.head? := by
  obtain ⟨front, hne, hfront, hjoin⟩ := pieces_join hp hbase
  obtain ⟨first, rest, rfl⟩ := List.exists_cons_of_ne_nil hne
  rw [hjoin]
  cases hfront with
  | inl h => rw [h]; rfl
  | inr h => rw [h]; rfl

theorem components_join (hp : p.isAbsolute = false) (hbase : base.text ≠ "") :
    (base.join p).components = base.components ++ p.named := by
  rw [components_eq, components_eq, head_pieces_join hp hbase, named_join hp]
  split_ifs <;> rfl

theorem isAbsolute_join (hp : p.isAbsolute = false) (hbase : base.text ≠ "") :
    (base.join p).isAbsolute = base.isAbsolute := by
  obtain ⟨text⟩ := base
  obtain ⟨c, rest, htext⟩ := List.exists_cons_of_ne_nil
    (fun h => hbase (String.toList_eq_nil_iff.mp h) : text.toList ≠ [])
  have hhead : (join ⟨text⟩ p).text.toList.head? = text.toList.head? := by
    rw [join, if_neg (by simp [hp])]
    split_ifs <;> simp [htext]
  simp only [isAbsolute, hhead]

/-- To see from a directory that names nothing adds nothing to what is seen from it already. -/
theorem same_join_join (hbase : base.named = []) (p : Path) :
    (base.join (base.join p)).same (base.join p) = true := by
  by_cases hp : p.isAbsolute = true
  · rw [join_of_isAbsolute base p hp, join_of_isAbsolute base p hp]
    exact same_self _
  · rw [Bool.not_eq_true] at hp
    by_cases hempty : base.text = ""
    · rw [join_of_empty hempty, join_of_empty hempty]
      exact same_self _
    · by_cases hjoined : (base.join p).isAbsolute = true
      · rw [join_of_isAbsolute base _ hjoined]
        exact same_self _
      · rw [Bool.not_eq_true] at hjoined
        refine same_iff.mpr ⟨?_, ?_⟩
        · rw [isAbsolute_join hjoined hempty, isAbsolute_join hp hempty]
        · rw [components_eq, components_eq (base.join p), head_pieces_join hjoined hempty,
            head_pieces_join hp hempty, named_join hjoined, hbase, List.nil_append]

theorem isAbsolute_join_of_isAbsolute (hbase : base.isAbsolute = true) (p : Path) :
    (base.join p).isAbsolute = true := by
  by_cases hp : p.isAbsolute = true
  · rwa [join_of_isAbsolute base p hp]
  · rw [Bool.not_eq_true] at hp
    have hempty : base.text ≠ "" := by
      intro h
      simp [isAbsolute, h] at hbase
    rw [isAbsolute_join hp hempty, hbase]

/-- Of paths that do not begin with a dot, seen from one directory, those are the same that name the
same. -/
theorem same_join_iff {q : Path} (hp : p.isAbsolute = false) (hq : q.isAbsolute = false)
    (hpdot : p.pieces.head? ≠ some ".") (hqdot : q.pieces.head? ≠ some ".") :
    (base.join p).same (base.join q) = true ↔ p.named = q.named := by
  by_cases hbase : base.text = ""
  · rw [join_of_empty hbase, join_of_empty hbase, same_iff, components_eq, components_eq,
      if_neg hpdot, if_neg hqdot, hp, hq]
    simp
  · rw [same_iff, isAbsolute_join hp hbase, isAbsolute_join hq hbase, components_join hp hbase,
      components_join hq hbase]
    simp

/-- A relative path is another path when it is seen from a directory that names something. -/
theorem not_same_join (hp : p.isAbsolute = false) (hbase : base.named ≠ []) :
    (base.join p).same p = false := by
  refine Bool.eq_false_iff.mpr fun hsame => hbase ?_
  have hnamed := named_of_same hsame
  rw [named_join hp] at hnamed
  exact List.append_left_eq_self.mp hnamed

theorem dropIdle_suffix (chars : List Char) : dropIdle chars <:+ chars := by
  fun_induction dropIdle chars with
  | case1 rest ih => exact ih.trans (List.suffix_cons _ _)
  | case2 rest ih => exact ih.trans (List.suffix_cons _ _)
  | case3 => exact List.suffix_refl _

theorem getLast?_of_suffix {chars rest : List Char} (hsuffix : rest <:+ chars) (hne : rest ≠ []) :
    rest.getLast? = chars.getLast? := by
  obtain ⟨front, rfl⟩ := hsuffix
  simp [List.getLast?_append, List.getLast?_eq_some_getLast hne]

theorem isAbsolute_parent (h : p.parent? = some base) (hp : p.isAbsolute = true) :
    base.isAbsolute = true := by
  simp only [isAbsolute, beq_iff_eq] at hp ⊢
  have hroot : p.text.toList.reverse.getLast? = some '/' := by rw [List.getLast?_reverse, hp]
  simp only [parent?] at h
  split at h
  · cases h
  · rename_i hlast
    have hsuffix : dropIdle p.text.toList.reverse <:+ p.text.toList.reverse := dropIdle_suffix _
    have hslash : '/' ∈ dropIdle p.text.toList.reverse :=
      List.mem_of_getLast? ((getLast?_of_suffix hsuffix hlast).trans hroot)
    have habove : (dropIdle p.text.toList.reverse).dropWhile (· ≠ '/') ≠ [] := by
      intro hnil
      simpa using (List.dropWhile_eq_nil_iff.mp hnil) '/' hslash
    have hend := (getLast?_of_suffix ((List.dropWhile_suffix _).trans hsuffix) habove).trans hroot
    split at h
    · obtain rfl := Option.some.inj h
      simp only [if_neg habove]
      rfl
    · rename_i hrest
      obtain rfl := Option.some.inj h
      have hkept := (getLast?_of_suffix (dropIdle_suffix _) hrest).trans hend
      simpa using hkept

end Path

end EnergyProfile
