import EnergyProfile.Files.Tree
import EnergyProfile.Proofs.Files.Paths
import Mathlib.Data.List.Induction

/-!
# What a file tree keeps

Nothing that is done to a tree takes a directory away, so a path that leads somewhere leads there
ever after. A file is replaced by writing to its own place only.
-/

namespace EnergyProfile.FileTree

set_option autoImplicit false

variable {t t' t'' : FileTree} {place : List String} {node : Node}

theorem lookup_insert_self (hplace : place ≠ []) :
    (t.insert place node).lookup place = some node := by
  simp [lookup, insert, hplace]

theorem lookup_insert_of_ne {other : List String} (hne : other ≠ place) :
    (t.insert place node).lookup other = t.lookup other := by
  have hkept (nodes : List (List String × Node)) :
      (nodes.filter (·.1 ≠ place)).lookup other = nodes.lookup other := by
    induction nodes with
    | nil => rfl
    | cons entry rest ih =>
      by_cases hentry : entry.1 = place
      · have hother : other ≠ entry.1 := hentry ▸ hne
        rw [List.filter_cons_of_neg (by simp [hentry]), ih, List.lookup_cons,
          beq_false_of_ne hother]
      · rw [List.filter_cons_of_pos (by simp [hentry]), List.lookup_cons, List.lookup_cons, ih]
  simp only [lookup, insert, List.lookup_cons, beq_false_of_ne hne, hkept]

/-- A tree has the directories of another one, and relative paths begin at the same place. -/
structure Extends (t t' : FileTree) : Prop where
  working : t'.working = t.working
  directory : ∀ place, t.lookup place = some .directory → t'.lookup place = some .directory

theorem Extends.trans (h : t.Extends t') (h' : t'.Extends t'') : t.Extends t'' :=
  ⟨h'.working.trans h.working, fun place hplace => h'.directory place (h.directory place hplace)⟩

theorem extends_insert (h : t.lookup place ≠ some .directory) :
    t.Extends (t.insert place node) := by
  refine ⟨rfl, fun other hother => ?_⟩
  rw [lookup_insert_of_ne (by rintro rfl; exact h hother), hother]

/-- The place that a name leads to from a place, if it leads anywhere. -/
def enter (place : List String) (name : String) : List String :=
  if name = "" ∨ name = "." then place
  else if name = ".." then place.dropLast
  else place ++ [name]

/-- The place that names lead to from a place, if they lead anywhere. -/
def walk (place names : List String) : List String :=
  names.foldl enter place

/-- The place that a path leads to, if it leads anywhere. -/
def placeOf (t : FileTree) (path : Path) : List String :=
  walk (if path.isAbsolute then [] else t.working) path.pieces

/-- A name is followed from a directory, and nowhere else. -/
theorem follow_cons_eq_ok_iff {start : List String} {name : String} {rest : List String} :
    t.follow start (name :: rest) = .ok place ↔
      t.lookup start = some .directory ∧ name.utf8ByteSize ≤ maxNameBytes ∧
        t.follow (enter start name) rest = .ok place := by
  rw [follow, enter]
  cases t.lookup start with
  | none => simp
  | some node =>
    cases node with
    | file content => simp
    | directory =>
      by_cases hlong : maxNameBytes < name.utf8ByteSize
      · simp [hlong, Nat.not_le_of_lt hlong]
      · simp only [hlong, if_false, Nat.le_of_not_lt hlong, true_and]
        split_ifs <;> rfl

theorem Extends.follow (h : t.Extends t') {start names : List String}
    (hfollow : t.follow start names = .ok place) : t'.follow start names = .ok place := by
  induction names generalizing start with
  | nil => exact hfollow
  | cons name rest ih =>
    obtain ⟨hstart, hname, hrest⟩ := follow_cons_eq_ok_iff.mp hfollow
    exact follow_cons_eq_ok_iff.mpr ⟨h.directory start hstart, hname, ih hrest⟩

theorem eq_walk_of_follow {start names : List String} (h : t.follow start names = .ok place) :
    place = walk start names := by
  induction names generalizing start with
  | nil => exact (Except.ok.inj h).symm
  | cons name rest ih => exact ih (follow_cons_eq_ok_iff.mp h).2.2

theorem follow_append_eq_ok_iff {start a b : List String} :
    t.follow start (a ++ b) = .ok place ↔
      ∃ between, t.follow start a = .ok between ∧ t.follow between b = .ok place := by
  induction a generalizing start with
  | nil => simp [follow]
  | cons name rest ih =>
    simp only [List.cons_append, follow_cons_eq_ok_iff, ih]
    grind

theorem followFor_eq_ok_iff {path : Path} {names : List String} :
    t.followFor path names = .ok place ↔
      textFault? path = none ∧
        t.follow (if path.isAbsolute then [] else t.working) names = .ok place := by
  unfold followFor
  cases textFault? path <;> simp

theorem Extends.resolve (h : t.Extends t') {path : Path} (hpath : t.resolve path = .ok place) :
    t'.resolve path = .ok place := by
  obtain ⟨htext, hfollow⟩ := followFor_eq_ok_iff.mp hpath
  refine followFor_eq_ok_iff.mpr ⟨htext, ?_⟩
  rw [h.working]
  exact h.follow hfollow

theorem eq_placeOf_of_resolve {path : Path} (h : t.resolve path = .ok place) :
    place = t.placeOf path :=
  eq_walk_of_follow (followFor_eq_ok_iff.mp h).2

theorem Extends.placeOf (h : t.Extends t') (path : Path) : t'.placeOf path = t.placeOf path := by
  simp only [FileTree.placeOf, h.working]

theorem walk_append (start a b : List String) : walk start (a ++ b) = walk (walk start a) b :=
  List.foldl_append

theorem walk_replicate (start : List String) (k : Nat) : walk start (List.replicate k "") = start := by
  induction k with
  | zero => rfl
  | succ k ih => exact ih

theorem walk_filter (start names : List String) :
    walk start (names.filter fun c => c ≠ "" ∧ c ≠ ".") = walk start names := by
  induction names generalizing start with
  | nil => rfl
  | cons name rest ih =>
    by_cases hidle : name = "" ∨ name = "."
    · have hskip : walk start (name :: rest) = walk start rest := by simp [walk, enter, hidle]
      rw [List.filter_cons_of_neg (by simpa [or_iff_not_imp_left] using hidle), ih, hskip]
    · rw [List.filter_cons_of_pos (by simpa using hidle)]
      exact ih _

theorem walk_of_plain {start names : List String}
    (h : ∀ name ∈ names, name ≠ "" ∧ name ≠ "." ∧ name ≠ "..") :
    walk start names = start ++ names := by
  induction names generalizing start with
  | nil => simp [walk]
  | cons name rest ih =>
    obtain ⟨⟨hempty, hdot, hup⟩, hrest⟩ := List.forall_mem_cons.mp h
    have hstep : enter start name = start ++ [name] := by simp [enter, hempty, hdot, hup]
    change walk (enter start name) rest = _
    rw [hstep, ih hrest, List.append_assoc, List.singleton_append]

theorem placeOf_join {base path : Path} (hpath : path.isAbsolute = false) :
    t.placeOf (base.join path) = walk (t.placeOf base) path.named := by
  rw [Path.named, walk_filter]
  by_cases hbase : base.text = ""
  · have hrelative : base.isAbsolute = false := by simp [Path.isAbsolute, hbase]
    rw [Path.join_of_empty hbase]
    simp [placeOf, hpath, hrelative, Path.pieces_of_empty hbase, walk, enter]
  · obtain ⟨front, -, hfront, hjoin⟩ := Path.pieces_join hpath hbase
    have habove : t.placeOf base = walk (if base.isAbsolute then [] else t.working) front := by
      cases hfront with
      | inl h => rw [placeOf, h]
      | inr h =>
        rw [placeOf, h, walk_append]
        rfl
    rw [placeOf, Path.isAbsolute_join hpath hbase, hjoin, walk_append, habove]

theorem exists_pieces_eq_bare (path : Path) :
    ∃ k, path.pieces = (bare path).pieces ++ List.replicate k "" := by
  obtain ⟨text⟩ := path
  obtain ⟨chars, rfl⟩ : ∃ chars, text = String.ofList chars := ⟨text.toList, by simp⟩
  induction chars using List.reverseRecOn with
  | nil => exact ⟨0, by simp [bare]⟩
  | append_singleton front c ih =>
    by_cases hc : c = '/'
    · obtain ⟨k, hk⟩ := ih
      have hbare : bare ⟨String.ofList (front ++ [c])⟩ = bare ⟨String.ofList front⟩ := by
        simp [bare, hc]
      have hpieces : Path.pieces ⟨String.ofList (front ++ [c])⟩ =
          Path.pieces ⟨String.ofList front⟩ ++ [""] := by
        have hempty : Path.pieces ⟨""⟩ = [""] := rfl
        have hjoined := Path.pieces_append_separator (String.ofList front) ""
        simpa [hc, hempty] using hjoined
      exact ⟨k + 1, by rw [hpieces, hk, hbare, List.replicate_succ', List.append_assoc]⟩
    · exact ⟨0, by simp [bare, hc]⟩

/-- What a path leads to is there without the separators at its end as well. -/
theorem followFor_bare {path : Path} (h : t.resolve path = .ok place) :
    t.followFor path (bare path).pieces = .ok place := by
  obtain ⟨k, hk⟩ := exists_pieces_eq_bare path
  obtain ⟨htext, hfollow⟩ := followFor_eq_ok_iff.mp h
  rw [hk] at hfollow
  obtain ⟨between, hbare, hidle⟩ := follow_append_eq_ok_iff.mp hfollow
  have hplace := eq_walk_of_follow hidle
  rw [walk_replicate] at hplace
  rw [hplace]
  exact followFor_eq_ok_iff.mpr ⟨htext, hbare⟩

variable {path : Path} {content : ByteArray}

theorem read_eq_ok_iff : t.read path = .ok content ↔
    ∃ place, t.resolve path = .ok place ∧ t.lookup place = some (.file content) := by
  unfold read node?
  cases hresolve : t.resolve path with
  | error fault => simp
  | ok place =>
    cases hlookup : t.lookup place with
    | none => simp [hlookup]
    | some node => cases node <;> simp [hlookup]

theorem write_eq_ok_iff : t.write path content = .ok t' ↔
    path = bare path ∧ ∃ place, t.resolve path = .ok place ∧
      t.lookup place ≠ some .directory ∧ t' = t.insert place (.file content) := by
  unfold write
  by_cases hbare : path = bare path
  · rw [if_pos hbare]
    cases hresolve : t.resolve path with
    | error fault => simp
    | ok place =>
      cases hlookup : t.lookup place with
      | none => simp [← hbare, hlookup, eq_comm]
      | some node => cases node <;> simp [← hbare, hlookup, eq_comm]
  · rw [if_neg hbare]
    cases t.resolveAbove path <;> simp [hbare]

theorem makeDirectory_eq_ok_iff : t.makeDirectory path = .ok t' ↔
    ∃ place, t.followFor path (bare path).pieces = .ok place ∧ t.lookup place = none ∧
      t' = t.insert place .directory := by
  unfold makeDirectory
  cases hfollow : t.followFor path (bare path).pieces with
  | error fault => simp
  | ok place => cases hlookup : t.lookup place <;> simp [hlookup, eq_comm]

theorem kindOf?_eq_directory_iff : t.kindOf? path = some .directory ↔
    ∃ place, t.resolve path = .ok place ∧ t.lookup place = some .directory := by
  unfold kindOf? node?
  cases hresolve : t.resolve path with
  | error fault => simp
  | ok place =>
    cases hlookup : t.lookup place with
    | none => simp [hlookup]
    | some node => cases node <;> simp [hlookup]

theorem makeDirectory_of_directory (h : t.kindOf? path = some .directory) :
    t.makeDirectory path = .error .alreadyExists := by
  obtain ⟨place, hplace, hlookup⟩ := kindOf?_eq_directory_iff.mp h
  simp only [makeDirectory, followFor_bare hplace, hlookup]

theorem extends_write (h : t.write path content = .ok t') : t.Extends t' := by
  obtain ⟨-, place, -, hlookup, rfl⟩ := write_eq_ok_iff.mp h
  exact extends_insert hlookup

theorem ne_nil_of_lookup (h : t.lookup place ≠ some .directory) : place ≠ [] := by
  rintro rfl
  exact h rfl

theorem read_write (h : t.write path content = .ok t') : t'.read path = .ok content := by
  have hextends := extends_write h
  obtain ⟨-, place, hplace, hlookup, rfl⟩ := write_eq_ok_iff.mp h
  exact read_eq_ok_iff.mpr
    ⟨place, hextends.resolve hplace, lookup_insert_self (ne_nil_of_lookup hlookup)⟩

theorem Extends.kindOf? (h : t.Extends t') (hpath : t.kindOf? path = some .directory) :
    t'.kindOf? path = some .directory := by
  obtain ⟨place, hplace, hlookup⟩ := kindOf?_eq_directory_iff.mp hpath
  exact kindOf?_eq_directory_iff.mpr ⟨place, h.resolve hplace, h.directory place hlookup⟩

/-- A file can be written to a path in a directory that is there. -/
structure Accepts (t : FileTree) (path : Path) : Prop where
  above : ∀ above, path.parent? = some above → above.text = "" ∨ t.kindOf? above = some .directory
  bare : path = bare path
  place : ∃ place, t.resolve path = .ok place ∧ t.lookup place ≠ some .directory

theorem Accepts.write (h : t.Accepts path) (content : ByteArray) :
    ∃ t', t.write path content = .ok t' ∧ t'.Accepts path := by
  obtain ⟨place, hplace, hlookup⟩ := h.place
  have hwrite : t.write path content = .ok (t.insert place (.file content)) :=
    write_eq_ok_iff.mpr ⟨h.bare, place, hplace, hlookup, rfl⟩
  have hextends := extends_write hwrite
  refine ⟨_, hwrite, fun above habove => (h.above above habove).imp_right hextends.kindOf?, h.bare,
    place, hextends.resolve hplace, ?_⟩
  simp [lookup_insert_self (ne_nil_of_lookup hlookup)]

end EnergyProfile.FileTree
