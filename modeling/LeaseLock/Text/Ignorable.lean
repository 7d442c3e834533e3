/-
# LeaseLock.Text.Ignorable -- code points that are shown as nothing at all

The code points with the property Default_Ignorable_Code_Point of Unicode 17: soft hyphens, joiners,
directional marks, the fillers of Hangul, and what is set aside for more of the like.
-/

namespace LeaseLock.Ignorable

/-- Closed ranges of code points, in ascending order. -/
def ranges : List (Nat × Nat) := [
  (0xad, 0xad), (0x34f, 0x34f), (0x61c, 0x61c), (0x115f, 0x1160), (0x17b4, 0x17b5),
   (0x180b, 0x180f), (0x200b, 0x200f), (0x202a, 0x202e), (0x2060, 0x206f), (0x3164, 0x3164),
   (0xfe00, 0xfe0f), (0xfeff, 0xfeff), (0xffa0, 0xffa0), (0xfff0, 0xfff8), (0x1bca0, 0x1bca3),
   (0x1d173, 0x1d17a), (0xe0000, 0xe0fff)]

/-- Whether the character is shown as nothing unless it is known to do something. -/
def contains (c : Char) : Bool :=
  ranges.any fun r => r.1 ≤ c.toNat && c.toNat ≤ r.2

end LeaseLock.Ignorable
