/-!
# Padding

A text is filled with spaces up to a width counted in characters. A text that is already wider
stays as it is, so padding never loses anything.
-/

namespace EnergyProfile.Text

set_option autoImplicit false

def spaces (n : Nat) : String :=
  String.ofList (List.replicate n ' ')

def padRight (width : Nat) (s : String) : String :=
  s ++ spaces (width - s.length)

def padLeft (width : Nat) (s : String) : String :=
  spaces (width - s.length) ++ s

@[simp] theorem length_spaces (n : Nat) : (spaces n).length = n := by
  simp [spaces]

theorem length_padRight (width : Nat) (s : String) :
    (padRight width s).length = max width s.length := by
  simp only [padRight, String.length_append, length_spaces]
  omega

end EnergyProfile.Text
