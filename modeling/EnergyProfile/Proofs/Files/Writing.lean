import EnergyProfile.Proofs.Files.Keeping

/-!
# What a write leaves as it is

To make directories adds to a tree and takes nothing from it. To write a file changes what is at the
place of the file and nothing else, and a write that fails changes no file at all.
-/

namespace EnergyProfile.FileTree

set_option autoImplicit false

variable {t t' t'' : FileTree} {place : List String}

/-- All that is in a tree is in another one too. -/
structure Keeps (t t' : FileTree) : Prop where
  working : t'.working = t.working
  lookup : ∀ place node, t.lookup place = some node → t'.lookup place = some node

theorem Keeps.refl (t : FileTree) : t.Keeps t := ⟨rfl, fun _ _ => id⟩

theorem Keeps.trans (h : t.Keeps t') (h' : t'.Keeps t'') : t.Keeps t'' :=
  ⟨h'.working.trans h.working, fun place node hplace => h'.lookup place node (h.lookup place node hplace)⟩

theorem Keeps.extends (h : t.Keeps t') : t.Extends t' :=
  ⟨h.working, fun place => h.lookup place _⟩

/-- A computation that only adds to a tree. -/
def Adds {β : Type} (x : StateM FileTree β) : Prop :=
  ∀ t : FileTree, t.Keeps (x t).2

section

variable {β γ : Type}

theorem Adds.pure (b : β) : Adds (Pure.pure b) := Keeps.refl

theorem Adds.bind {x : StateM FileTree β} {f : β → StateM FileTree γ} (hx : Adds x)
    (hf : ∀ b, Adds (f b)) : Adds (x >>= f) :=
  fun t => (hx t).trans (hf (x t).1 (x t).2)

end

theorem adds_kindOf? (path : Path) : Adds (FileAccess.kindOf? path) := Keeps.refl

theorem adds_makeDirectory (path : Path) : Adds (FileAccess.makeDirectory path) := by
  intro t
  rw [makeDirectory_apply, attempt_apply]
  cases hmade : t.makeDirectory path with
  | error fault => exact .refl t
  | ok t' =>
    obtain ⟨place, -, hlookup, rfl⟩ := makeDirectory_eq_ok_iff.mp hmade
    refine ⟨rfl, fun other node hother => ?_⟩
    rwa [lookup_insert_of_ne]
    rintro rfl
    simp [hlookup] at hother

theorem adds_settle (path : Path) (made : Except FileFault Unit) :
    Adds (FileAccess.settle path made) := by
  unfold FileAccess.settle
  cases made with
  | ok => exact .pure _
  | error fault => exact (adds_kindOf? path).bind fun kind => by split_ifs <;> exact .pure _

theorem adds_makeDirectories (path : Path) : Adds (FileAccess.makeDirectories path) := by
  unfold FileAccess.makeDirectories
  generalize path.text.length + 1 = levels
  induction levels generalizing path with
  | zero => exact .pure _
  | succ levels ih =>
    unfold FileAccess.makeDirectoriesWithin
    split_ifs with hempty
    · exact .pure _
    · refine (adds_makeDirectory path).bind fun made => ?_
      split
      · exact .pure _
      · split
        · exact .pure _
        · rename_i above _
          refine (ih above).bind fun madeAbove => ?_
          split
          · exact .pure _
          · exact (adds_makeDirectory path).bind (adds_settle path)
      · exact adds_settle path _

/-- A tree as it was but for a file, which now holds some content. -/
structure Written (t t' : FileTree) (path : Path) (content : ByteArray) : Prop where
  extends_tree : t.Extends t'
  resolve : t'.resolve path = .ok (t.placeOf path)
  lookup : t'.lookup (t.placeOf path) = some (.file content)
  others : ∀ place node, place ≠ t.placeOf path → t.lookup place = some node →
    t'.lookup place = some node

theorem written_of_write {path : Path} {content : ByteArray} (h : t.write path content = .ok t') :
    t.Written t' path content := by
  have hextends := extends_write h
  obtain ⟨-, place, hplace, hlookup, rfl⟩ := write_eq_ok_iff.mp h
  obtain rfl := eq_placeOf_of_resolve hplace
  exact ⟨hextends, hextends.resolve hplace, lookup_insert_self (ne_nil_of_lookup hlookup),
    fun other node hne hother => by rwa [lookup_insert_of_ne hne]⟩

theorem Keeps.written {path : Path} {content : ByteArray} (h : t.Keeps t')
    (h' : t'.Written t'' path content) : t.Written t'' path content := by
  have hplace := h.extends.placeOf path
  refine ⟨h.extends.trans h'.extends_tree, hplace ▸ h'.resolve, hplace ▸ h'.lookup, ?_⟩
  exact fun place node hne hlookup => h'.others place node (hplace ▸ hne) (h.lookup place node hlookup)

/-- A write does what it says or fails, and then it has made directories at most. -/
theorem writeTextWithin_apply (path : Path) (text : String) (t : FileTree) :
    ∃ t', (FileAccess.writeTextWithin path text : StateM FileTree _) t = (.ok (), t') ∧
        t.Written t' path text.toUTF8 ∨
      ∃ fault, (FileAccess.writeTextWithin path text : StateM FileTree _) t = (.error fault, t') ∧
        t.Keeps t' := by
  have hwrite (t : FileTree) :
      ∃ t', (FileAccess.writeText path text : StateM FileTree _) t = (.ok (), t') ∧
          t.Written t' path text.toUTF8 ∨
        ∃ fault, (FileAccess.writeText path text : StateM FileTree _) t = (.error fault, t') ∧
          t.Keeps t' := by
    unfold FileAccess.writeText
    rw [write_apply, attempt_apply]
    cases hwritten : t.write path text.toUTF8 with
    | ok t' => exact ⟨t', .inl ⟨rfl, written_of_write hwritten⟩⟩
    | error fault => exact ⟨t, .inr ⟨fault, rfl, .refl t⟩⟩
  unfold FileAccess.writeTextWithin
  cases path.parent? with
  | none => exact hwrite t
  | some above =>
    have hadds := adds_makeDirectories above t
    cases hmade : (FileAccess.makeDirectories above : StateM FileTree _) t with
    | mk made t' =>
      rw [hmade] at hadds
      simp only
      rw [bind_apply_of_eq hmade]
      cases made with
      | error fault => exact ⟨t', .inr ⟨fault, rfl, hadds⟩⟩
      | ok =>
        obtain ⟨t'', ⟨hresult, hwritten⟩ | ⟨fault, hresult, hkeeps⟩⟩ := hwrite t'
        · exact ⟨t'', .inl ⟨hresult, hadds.written hwritten⟩⟩
        · exact ⟨t'', .inr ⟨fault, hresult, hadds.trans hkeeps⟩⟩

end EnergyProfile.FileTree
