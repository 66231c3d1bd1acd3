namespace SwitchCover.Bitwise

/-- The bits of `m` that are not set in `n`. -/
def diff (m n : Nat) : Nat :=
  m ^^^ (m &&& n)

/-- Integers stand for their two's complement, with infinitely many sign bits. -/
def and : Int → Int → Int
  | .ofNat m, .ofNat n => .ofNat (m &&& n)
  | .ofNat m, .negSucc n => .ofNat (diff m n)
  | .negSucc m, .ofNat n => .ofNat (diff n m)
  | .negSucc m, .negSucc n => .negSucc (m ||| n)

def or : Int → Int → Int
  | .ofNat m, .ofNat n => .ofNat (m ||| n)
  | .ofNat m, .negSucc n => .negSucc (diff n m)
  | .negSucc m, .ofNat n => .negSucc (diff m n)
  | .negSucc m, .negSucc n => .negSucc (m &&& n)

def xor : Int → Int → Int
  | .ofNat m, .ofNat n => .ofNat (m ^^^ n)
  | .ofNat m, .negSucc n => .negSucc (m ^^^ n)
  | .negSucc m, .ofNat n => .negSucc (m ^^^ n)
  | .negSucc m, .negSucc n => .ofNat (m ^^^ n)

end SwitchCover.Bitwise
