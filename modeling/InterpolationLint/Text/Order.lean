/-!
# The order of texts

Texts are compared character by character, and comparison agrees with the order.
-/

namespace InterpolationLint

instance instLawfulOrderOrdString : Std.LawfulOrderOrd String where
  isLE_compare a b := by
    show (compareOfLessAndEq a b).isLE ↔ a ≤ b
    rw [isLE_compareOfLessAndEq]
    · exact String.le_antisymm
    · exact String.not_le
    · exact String.le_total
  isGE_compare a b := by
    show (compareOfLessAndEq a b).isGE ↔ b ≤ a
    rw [isGE_compareOfLessAndEq]
    · exact String.le_antisymm
    · exact String.not_le
    · exact String.le_total

end InterpolationLint
