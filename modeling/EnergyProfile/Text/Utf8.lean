/-!
# Bytes as text

Bytes are text when they are well-formed UTF-8; otherwise the place where the first malformed
sequence begins is what a reader reports.
-/

namespace EnergyProfile.Text

set_option autoImplicit false

/-- How many bytes from `start` on are well-formed. -/
def wellFormedUpTo (bytes : ByteArray) (start : Nat) : Nat :=
  if start < bytes.size then
    match bytes.utf8DecodeChar? start with
    | some c => wellFormedUpTo bytes (start + c.utf8Size)
    | none => start
  else start
termination_by bytes.size - start
decreasing_by
  have := c.utf8Size_pos
  omega

/-- The text, or the index of the first byte that begins no character. -/
def ofBytes (bytes : ByteArray) : Except Nat String :=
  match String.fromUTF8? bytes with
  | some s => .ok s
  | none => .error (wellFormedUpTo bytes 0)

end EnergyProfile.Text
