/-!
# Words

Lines, columns and ids are words of 32 bits, and the width of an indentation is one of 64. Behind
the last word comes zero again. A word that goes out is the number that it stands for, and a number
that comes in is cut to a word.
-/

set_option autoImplicit false

namespace DecimalLift

instance numberOfWord : Coe UInt32 Nat := ⟨UInt32.toNat⟩

instance wordOfNumber : Coe Nat UInt32 := ⟨UInt32.ofNat⟩

instance longWordOfNumber : Coe Nat UInt64 := ⟨UInt64.ofNat⟩

end DecimalLift
