namespace SwitchCover

/-- The bytes from `start` up to but not including `stop`. -/
structure TextRange where
  start : Nat
  stop : Nat
deriving DecidableEq

namespace TextRange

def emptyAt (offset : Nat) : TextRange :=
  ⟨offset, offset⟩

def cover (r s : TextRange) : TextRange :=
  ⟨min r.start s.start, max r.stop s.stop⟩

/-- The range extended to an offset, if the offset lies beyond its end. -/
def extendTo (r : TextRange) (offset : Nat) : TextRange :=
  ⟨r.start, max offset r.stop⟩

end TextRange

end SwitchCover
