import CompiledCode.Text.Combining
import CompiledCode.Text.Unassigned

namespace CompiledCode.Text

/--
The code points of control, format and private characters and of separators but the space, in
increasing order.
-/
def unseenRanges : List (Nat × Nat) :=
  [(0x0, 0x1F), (0x7F, 0xA0), (0xAD, 0xAD), (0x600, 0x605), (0x61C, 0x61C), (0x6DD, 0x6DD),
   (0x70F, 0x70F), (0x890, 0x891), (0x8E2, 0x8E2), (0x1680, 0x1680), (0x180E, 0x180E),
   (0x2000, 0x200F), (0x2028, 0x202F), (0x205F, 0x2064), (0x2066, 0x206F), (0x3000, 0x3000),
   (0xE000, 0xF8FF), (0xFEFF, 0xFEFF), (0xFFF9, 0xFFFB), (0x110BD, 0x110BD), (0x110CD, 0x110CD),
   (0x13430, 0x1343F), (0x1BCA0, 0x1BCA3), (0x1D173, 0x1D17A), (0xE0001, 0xE0001),
   (0xE0020, 0xE007F), (0xF0000, 0xFFFFD), (0x100000, 0x10FFFD)]

/--
The letters with the property Default_Ignorable_Code_Point of Unicode 17, in increasing order. They
are the Hangul fillers, which keep the place of a letter and are not seen.
-/
def fillerRanges : List (Nat × Nat) := [(0x115F, 0x1160), (0x3164, 0x3164), (0xFFA0, 0xFFA0)]

/--
A code point lies in one of the ranges, ends included. The ranges are in increasing order, so the
search ends at the first one behind the point.
-/
def within : List (Nat × Nat) → Nat → Bool
  | [], _ => false
  | (first, last) :: ranges, point => first ≤ point && (point ≤ last || within ranges point)

/-- A character stands for itself in quoted text when it is visible on its own. -/
def isPrintable (c : Char) : Bool :=
  !within unseenRanges c.toNat && !within fillerRanges c.toNat &&
    !within combiningRanges c.toNat && !within unassignedRanges c.toNat

end CompiledCode.Text
