import EnergyProfile.Proofs.Json.Numbers

/-!
# Trees survive writing and reading

A tree without flaws is read back from its written form, at any depth and whatever follows it, and
nothing is left. The bound on nested values is met since a value takes at least one character for
every two steps.
-/

namespace EnergyProfile.Json

set_option autoImplicit false

/-- A tree that is JSON throughout. -/
inductive Sound : Json → Prop
  | null : Sound .null
  | bool (value : Bool) : Sound (.bool value)
  | number {n : Numeral} (h : n.Proper) : Sound (.number n)
  | string (s : String) : Sound (.string s)
  | list {items : List Json} (h : ∀ item ∈ items, Sound item) : Sound (.list items)
  | record {members : List (String × Json)} (h : ∀ member ∈ members, Sound member.2) :
    Sound (.record members)

@[simp] theorem length_newLine (level : Nat) : (newLine level).length = 2 * level + 1 := by
  simp [newLine]

@[simp] theorem skipSpace_newLine (level : Nat) (rest : List Char) :
    skipSpace (newLine level ++ rest) = skipSpace rest := by
  unfold skipSpace
  refine List.dropWhile_append_of_pos fun c hc => ?_
  rcases List.mem_cons.mp hc with rfl | hc
  · rfl
  · rw [(List.mem_replicate.mp hc).2]
    rfl

theorem skipSpace_of_head {c : Char} (h : isSpace c = false) (rest : List Char) :
    skipSpace (c :: rest) = c :: rest := by
  simp [skipSpace, h]

theorem value_congr (bound : Nat) {s s' : List Char} (h : skipSpace s = skipSpace s') :
    value bound s = value bound s' := by
  cases bound with
  | zero => rfl
  | succ bound => simp only [value, h]

theorem endsNumber_cons {c : Char} (h : c.isDigit = false ∧ c ≠ '.' ∧ c ≠ 'e' ∧ c ≠ 'E')
    (rest : List Char) : EndsNumber (c :: rest) := by
  intro c' hc
  obtain rfl : c = c' := by simpa using hc
  exact h

theorem head_text {n : Numeral} (h : n.Proper) :
    ∃ c rest, n.text = c :: rest ∧ isSpace c = false ∧ c ≠ ']' := by
  rw [Numeral.text_eq]
  cases n.negative with
  | true => exact ⟨'-', _, rfl, rfl, by decide⟩
  | false =>
    cases hwhole : n.whole with
    | nil => exact absurd hwhole h.whole.1
    | cons c digits =>
      have hdigit := h.whole.2 c (by simp [hwhole])
      refine ⟨c, _, rfl, isSpace_of_isDigit hdigit, ?_⟩
      rintro rfl
      simp at hdigit

/-- A written value begins with a character that is neither space nor the end of a list. -/
theorem head_print {j : Json} (h : Sound j) (level : Nat) :
    ∃ c rest, print level j = c :: rest ∧ isSpace c = false ∧ c ≠ ']' := by
  cases h with
  | null => exact ⟨'n', _, rfl, rfl, by decide⟩
  | bool value => cases value <;> exact ⟨_, _, rfl, rfl, by decide⟩
  | string s => exact ⟨'"', _, rfl, rfl, by decide⟩
  | number h => exact head_text h
  | @list items h => cases items <;> exact ⟨'[', _, rfl, rfl, by decide⟩
  | @record members h => cases members <;> exact ⟨'\x7b', _, rfl, rfl, by decide⟩

/-- A value is read back from what it is written as, in any place. -/
def ReadsBack (level : Nat) (j : Json) : Prop :=
  ∀ rest bound, EndsNumber rest → 2 * (print level j ++ rest).length + 1 ≤ bound →
    value bound (print level j ++ rest) = (j, rest)

theorem items_close (bound above : Nat) (isFirst : Bool) (rest : List Char) :
    items (bound + 1) (newLine above ++ ']' :: rest) isFirst = ([], none, rest) := by
  simp [items, skipSpace_of_head (show isSpace ']' = false from rfl)]

theorem items_first (bound level : Nat) {c : Char} {s : List Char} (hspace : isSpace c = false)
    (hclose : c ≠ ']') {j : Json} {after : List Char} (hvalue : value bound (c :: s) = (j, after)) :
    items (bound + 1) (newLine level ++ c :: s) true =
      (j :: (items bound after false).1, (items bound after false).2) := by
  rw [items, skipSpace_newLine, skipSpace_of_head hspace]
  split
  case h_3 heq =>
    obtain ⟨rfl, rfl⟩ := List.cons.inj heq
    simp [hvalue]
  all_goals simp_all

theorem items_comma (bound : Nat) {s : List Char} {j : Json} {after : List Char}
    (hvalue : value bound s = (j, after)) :
    items (bound + 1) (',' :: s) false =
      (j :: (items bound after false).1, (items bound after false).2) := by
  simp [items, skipSpace_of_head (show isSpace ',' = false from rfl), hvalue]

theorem endsNumber_printItems (level above : Nat) (list : List Json) (rest : List Char) :
    EndsNumber (printItems level list ++ (newLine above ++ ']' :: rest)) := by
  cases list with
  | nil => exact endsNumber_cons (by decide) _
  | cons j list => exact endsNumber_cons (by decide) _

theorem items_printItems {level : Nat} (above : Nat) {list : List Json}
    (hlist : ∀ j ∈ list, ReadsBack level j) (rest : List Char) (bound : Nat)
    (hbound : 2 * (printItems level list ++ (newLine above ++ ']' :: rest)).length ≤ bound) :
    items bound (printItems level list ++ (newLine above ++ ']' :: rest)) false =
      (list, none, rest) := by
  induction list generalizing bound with
  | nil =>
    obtain ⟨bound, rfl⟩ : ∃ b, bound = b + 1 := ⟨bound - 1, by simp at hbound; omega⟩
    exact items_close bound above false rest
  | cons j list ih =>
    obtain ⟨bound, rfl⟩ : ∃ b, bound = b + 1 := ⟨bound - 1, by simp [printItems] at hbound; omega⟩
    have htail := endsNumber_printItems level above list rest
    simp only [printItems, List.cons_append, List.append_assoc, List.length_cons,
      List.length_append, length_newLine] at hbound
    have hvalue : value bound (newLine level ++ (print level j ++
        (printItems level list ++ (newLine above ++ ']' :: rest)))) =
        (j, printItems level list ++ (newLine above ++ ']' :: rest)) := by
      rw [value_congr bound (skipSpace_newLine level _)]
      refine hlist j List.mem_cons_self _ bound htail ?_
      simp only [List.length_append, List.length_cons, length_newLine]
      omega
    simp only [printItems, List.cons_append, List.append_assoc]
    rw [items_comma bound hvalue, ih (fun j hj => hlist j (List.mem_cons_of_mem _ hj)) bound ?_]
    simp only [List.length_append, List.length_cons, length_newLine]
    omega

theorem readsBack_list {level : Nat} {list : List Json} (hsound : ∀ j ∈ list, Sound j)
    (hlist : ∀ j ∈ list, ReadsBack (level + 1) j) : ReadsBack level (.list list) := by
  intro rest bound _ hbound
  cases list with
  | nil =>
    obtain ⟨bound, rfl⟩ : ∃ b, bound = b + 2 := ⟨bound - 2, by simp [Json.list, print] at hbound; omega⟩
    simp [Json.list, print, value, items, skipSpace, isSpace]
  | cons j list =>
    obtain ⟨c, s, hprint, hspace, hclose⟩ := head_print (hsound j List.mem_cons_self) (level + 1)
    simp only [Json.list, print, List.cons_append, List.append_assoc, List.length_cons,
      List.length_append, length_newLine, List.nil_append] at hbound ⊢
    obtain ⟨bound, rfl⟩ : ∃ b, bound = b + 2 := ⟨bound - 2, by omega⟩
    have htail := endsNumber_printItems (level + 1) level list rest
    have hvalue := hlist j List.mem_cons_self _ bound htail (by
      simp only [List.length_append, List.length_cons, length_newLine]
      omega)
    have hitems := items_printItems level
      (fun j hj => hlist j (List.mem_cons_of_mem _ hj)) rest bound (by
        simp only [List.length_append, List.length_cons, length_newLine]
        omega)
    rw [hprint, List.cons_append] at hvalue ⊢
    simp [value, skipSpace, isSpace, items_first bound (level + 1) hspace hclose hvalue, hitems]

/-- The members of a record as a tree holds them. -/
def named (members : List (String × Json)) : List (Except Flaw String × Json) :=
  members.map fun (name, value) => (.ok name, value)

theorem members_close (bound above : Nat) (isFirst : Bool) (rest : List Char) :
    members (bound + 1) (newLine above ++ '\x7d' :: rest) isFirst = ([], none, rest) := by
  simp [members, skipSpace_of_head (show isSpace '\x7d' = false from rfl)]

theorem members_named (bound level : Nat) (isFirst : Bool) {cs s after : List Char} {name : String}
    {j : Json} (hname : stringRest [] none cs = (.ok name, ':' :: s))
    (hvalue : value bound s = (j, after)) :
    members (bound + 1) ((if isFirst then [] else [',']) ++ (newLine level ++ '"' :: cs)) isFirst =
      ((.ok name, j) :: (members bound after false).1, (members bound after false).2) := by
  have hquote := skipSpace_of_head (show isSpace '"' = false from rfl) cs
  have hcolon := skipSpace_of_head (show isSpace ':' = false from rfl) s
  cases isFirst with
  | true => simp [members, hquote, hname, hcolon, hvalue]
  | false =>
    simp [members, skipSpace_of_head (show isSpace ',' = false from rfl), hquote, hname, hcolon,
      hvalue]

theorem endsNumber_printMembers (level above : Nat) (list : List (String × Json))
    (rest : List Char) :
    EndsNumber (printMembers level (named list) ++ (newLine above ++ '\x7d' :: rest)) := by
  cases list with
  | nil => exact endsNumber_cons (by decide) _
  | cons member list => exact endsNumber_cons (by decide) _

theorem stringRest_printed (name : String) (rest : List Char) :
    stringRest [] none (name.toList.flatMap printCharacter ++ '"' :: rest) = (.ok name, rest) := by
  rw [stringRest_printString, List.reverse_nil, List.nil_append, String.ofList_toList]

theorem value_member {level : Nat} {j : Json} (hj : ReadsBack level j) {rest : List Char}
    (bound : Nat) (hrest : EndsNumber rest)
    (hbound : 2 * (print level j ++ rest).length + 1 ≤ bound) :
    value bound (' ' :: (print level j ++ rest)) = (j, rest) := by
  have hspace : skipSpace (' ' :: (print level j ++ rest)) = skipSpace (print level j ++ rest) := rfl
  rw [value_congr bound hspace, hj rest bound hrest hbound]

theorem members_printMembers {level : Nat} (above : Nat) {list : List (String × Json)}
    (hlist : ∀ member ∈ list, ReadsBack level member.2) (rest : List Char) (bound : Nat)
    (hbound : 2 * (printMembers level (named list) ++ (newLine above ++ '\x7d' :: rest)).length ≤
      bound) :
    members bound (printMembers level (named list) ++ (newLine above ++ '\x7d' :: rest)) false =
      (named list, none, rest) := by
  induction list generalizing bound with
  | nil =>
    obtain ⟨bound, rfl⟩ : ∃ b, bound = b + 1 := ⟨bound - 1, by simp at hbound; omega⟩
    exact members_close bound above false rest
  | cons member list ih =>
    obtain ⟨name, j⟩ := member
    have htail := endsNumber_printMembers level above list rest
    simp only [named, List.map_cons, printMembers, printMember, printString, List.cons_append,
      List.append_assoc, List.length_cons, List.length_append, length_newLine, List.nil_append]
      at hbound htail ih ⊢
    obtain ⟨bound, rfl⟩ : ∃ b, bound = b + 1 := ⟨bound - 1, by omega⟩
    have hvalue := value_member (hlist (name, j) List.mem_cons_self) bound htail (by
      simp only [List.length_append, List.length_cons, length_newLine]
      omega)
    have hmembers := members_named bound level false (stringRest_printed name _) hvalue
    simp only [Bool.false_eq_true, if_false, List.singleton_append] at hmembers
    rw [hmembers, ih (fun member hmember => hlist member (List.mem_cons_of_mem _ hmember)) bound
      (by omega)]

theorem readsBack_record {level : Nat} {list : List (String × Json)}
    (hlist : ∀ member ∈ list, ReadsBack (level + 1) member.2) : ReadsBack level (.record list) := by
  intro rest bound _ hbound
  cases list with
  | nil =>
    obtain ⟨bound, rfl⟩ : ∃ b, bound = b + 2 :=
      ⟨bound - 2, by simp [Json.record, print] at hbound; omega⟩
    simp [Json.record, print, value, members, skipSpace, isSpace]
  | cons member list =>
    obtain ⟨name, j⟩ := member
    have htail := endsNumber_printMembers (level + 1) level list rest
    have hothers : ∀ member ∈ list, ReadsBack (level + 1) member.2 :=
      fun member hmember => hlist member (List.mem_cons_of_mem _ hmember)
    have hmembers := members_printMembers level hothers rest
    simp only [named] at htail hmembers
    simp only [Json.record, List.map_cons, print, printMember, printString, List.cons_append,
      List.append_assoc, List.length_cons, List.length_append, length_newLine, List.nil_append]
      at hbound hmembers ⊢
    obtain ⟨bound, rfl⟩ : ∃ b, bound = b + 2 := ⟨bound - 2, by omega⟩
    have hvalue := value_member (hlist (name, j) List.mem_cons_self) bound htail (by
      simp only [List.length_append, List.length_cons, length_newLine]
      omega)
    have hfirst := members_named bound (level + 1) true (stringRest_printed name _) hvalue
    simp only [if_true, List.nil_append] at hfirst
    simp [value, skipSpace, isSpace, hfirst, hmembers bound (by omega)]

theorem Sound.readsBack {j : Json} (h : Sound j) (level : Nat) : ReadsBack level j := by
  induction h generalizing level with
  | list hsound ih => exact readsBack_list hsound fun j hj => ih j hj (level + 1)
  | record _ ih => exact readsBack_record fun member hmember => ih member hmember (level + 1)
  | number h =>
    intro rest bound hrest hbound
    obtain ⟨bound, rfl⟩ : ∃ b, bound = b + 1 := ⟨bound - 1, by omega⟩
    exact value_number bound h hrest
  | string s =>
    intro rest bound _ hbound
    obtain ⟨bound, rfl⟩ : ∃ b, bound = b + 1 := ⟨bound - 1, by omega⟩
    simp [print, printString, value, skipSpace, isSpace, stringRest_printed]
  | null =>
    intro rest bound _ hbound
    obtain ⟨bound, rfl⟩ : ∃ b, bound = b + 1 := ⟨bound - 1, by omega⟩
    simp [print, value, skipSpace, isSpace, word]
  | bool b =>
    intro rest bound _ hbound
    obtain ⟨bound, rfl⟩ : ∃ b, bound = b + 1 := ⟨bound - 1, by omega⟩
    cases b <;> simp [print, value, skipSpace, isSpace, word]

theorem parse_text {j : Json} (h : Sound j) : parse j.text = (j, true) := by
  have hvalue := h.readsBack 0 [] (2 * (print 0 j).length + 2) (by simp [EndsNumber]) (by simp)
  rw [List.append_nil] at hvalue
  simp only [parse, text, String.toList_ofList, hvalue]
  rfl

end EnergyProfile.Json
