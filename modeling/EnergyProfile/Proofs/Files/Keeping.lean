import EnergyProfile.Proofs.Files.Tree
import EnergyProfile.Proofs.Results
import EnergyProfile.Proofs.Steps

/-!
# Files hold what is written to them

What the library relies on when it reads back a file that it wrote. A tree in memory keeps its files
in this way.
-/

namespace EnergyProfile

set_option autoImplicit false

/-- A file that was written holds what was written to it, until something else happens. -/
class KeepsFiles (m : Type → Type) [Monad m] [FileAccess m] : Prop where
  read_write : ∀ (path : Path) (content : ByteArray),
    Always (fun r : Except FileFault Unit × Except FileFault ByteArray =>
        r.1 = .ok () → r.2 = .ok content)
      (do
        let written ← (FileAccess.write path content : m _)
        let found ← FileAccess.read path
        return (written, found))

namespace FileAccess

theorem fromUTF8?_toUTF8 (text : String) : String.fromUTF8? text.toUTF8 = some text := by
  unfold String.fromUTF8?
  rw [String.toUTF8_eq_toByteArray, dif_pos text.isValidUTF8]
  rfl

/-- The text that was found in a file. -/
def textOf : Except FileFault ByteArray → Except FileFault String
  | .error fault => .error fault
  | .ok bytes =>
    match String.fromUTF8? bytes with
    | some text => .ok text
    | none => .error .notText

theorem textOf_toUTF8 (text : String) : textOf (.ok text.toUTF8) = .ok text := by
  simp only [textOf, fromUTF8?_toUTF8]

variable {m : Type → Type} [Monad m] [LawfulMonad m] [FileAccess m]

theorem readText_eq (path : Path) : (readText path : m _) = textOf <$> read path := by
  rw [readText, map_eq_pure_bind]
  refine bind_congr fun found => ?_
  cases found with
  | error fault => rfl
  | ok bytes => cases htext : String.fromUTF8? bytes <;> simp only [textOf, htext]

theorem readText_writeText [KeepsFiles m] (path : Path) (text : String) :
    Always (fun r : Except FileFault Unit × Except FileFault String =>
        r.1 = .ok () → r.2 = .ok text)
      (do
        let written ← (writeText path text : m _)
        let found ← readText path
        return (written, found)) := by
  have htexts := (KeepsFiles.read_write (m := m) path text.toUTF8).map
    (f := fun r => (r.1, textOf r.2)) (Q := fun r => r.1 = .ok () → r.2 = .ok text)
    fun r hr hwritten => by rw [hr hwritten, textOf_toUTF8]
  simpa only [writeText, readText_eq, bind_map_left, map_bind, map_pure] using htexts

theorem readText_writeTextWithin [KeepsFiles m] (path : Path) (text : String) :
    Always (fun r : Except FileFault Unit × Except FileFault String =>
        r.1 = .ok () → r.2 = .ok text)
      (do
        let written ← (writeTextWithin path text : m _)
        let found ← readText path
        return (written, found)) := by
  unfold writeTextWithin
  cases path.parent? with
  | none => exact readText_writeText path text
  | some above =>
    simp only [bind_assoc]
    refine (always_true _).bind fun made _ => ?_
    cases made with
    | error fault =>
      rw [pure_bind]
      exact (always_true _).bind fun found _ => Always.pure (by simp)
    | ok => exact readText_writeText path text

end FileAccess

namespace FileTree

theorem attempt_apply (result : Except FileFault FileTree) (t : FileTree) :
    attempt result t = match result with
      | .ok t' => (.ok (), t')
      | .error fault => (.error fault, t) := by
  cases result <;> rfl

theorem write_apply (path : Path) (content : ByteArray) (t : FileTree) :
    (FileAccess.write path content : StateM FileTree _) t = attempt (t.write path content) t := rfl

theorem read_apply (path : Path) (t : FileTree) :
    (FileAccess.read path : StateM FileTree _) t = (t.read path, t) := rfl

instance : KeepsFiles (StateM FileTree) where
  read_write path content := by
    refine always_stateM_iff.mpr fun t hwritten => ?_
    change (attempt (t.write path content) t).1 = .ok () at hwritten
    change (attempt (t.write path content) t).2.read path = .ok content
    rw [attempt_apply] at hwritten ⊢
    cases hwrite : t.write path content with
    | error fault => simp [hwrite] at hwritten
    | ok t' => exact read_write hwrite

theorem readText_of_read {t : FileTree} {path : Path} {text : String}
    (h : t.read path = .ok text.toUTF8) :
    (FileAccess.readText path : StateM FileTree _) t = (.ok text, t) := by
  unfold FileAccess.readText
  rw [bind_apply_of_eq (read_apply path t), h]
  simp only [FileAccess.fromUTF8?_toUTF8]
  rfl

theorem makeDirectory_apply (path : Path) (t : FileTree) :
    (FileAccess.makeDirectory path : StateM FileTree _) t = attempt (t.makeDirectory path) t := rfl

theorem kindOf?_apply (path : Path) (t : FileTree) :
    (FileAccess.kindOf? path : StateM FileTree _) t = (t.kindOf? path, t) := rfl

theorem makeDirectories_of_directory {t : FileTree} {path : Path}
    (h : path.text = "" ∨ t.kindOf? path = some .directory) :
    (FileAccess.makeDirectories path : StateM FileTree _) t = (.ok (), t) := by
  unfold FileAccess.makeDirectories FileAccess.makeDirectoriesWithin
  split_ifs with hempty
  · rfl
  · have hdirectory := h.resolve_left hempty
    have hmade : (FileAccess.makeDirectory path : StateM FileTree _) t =
        (.error .alreadyExists, t) := by
      rw [makeDirectory_apply, makeDirectory_of_directory hdirectory]
      rfl
    rw [bind_apply_of_eq hmade]
    change (FileAccess.settle path (.error .alreadyExists) : StateM FileTree _) t = _
    simp only [FileAccess.settle]
    rw [bind_apply_of_eq (kindOf?_apply path t), hdirectory]
    rfl

/-- On a tree that accepts the file nothing fails, and nothing but the file is written. -/
theorem writeTextWithin_of_accepts {t t' : FileTree} {path : Path} {text : String}
    (haccepts : t.Accepts path) (hwrite : t.write path text.toUTF8 = .ok t') :
    (FileAccess.writeTextWithin path text : StateM FileTree _) t = (.ok (), t') := by
  have hwritten : (FileAccess.writeText path text : StateM FileTree _) t = (.ok (), t') := by
    unfold FileAccess.writeText
    rw [write_apply, hwrite]
    rfl
  unfold FileAccess.writeTextWithin
  cases hparent : path.parent? with
  | none => exact hwritten
  | some above =>
    simp only
    rw [bind_apply_of_eq (makeDirectories_of_directory (haccepts.above above hparent))]
    exact hwritten

end FileTree

end EnergyProfile
