namespace Dec.Text

/-- A set of code points, stored as the increasing list of points at which membership flips. The
first point is the first member, the second the first later non-member, and so on. -/
structure CodeSet where
  edges : List Nat

namespace CodeSet

def sideOf (code : Nat) : Bool → List Nat → Bool
  | inside, [] => inside
  | inside, edge :: rest => if edge ≤ code then sideOf code (!inside) rest else inside

def contains (s : CodeSet) (c : Char) : Bool :=
  sideOf c.toNat false s.edges

end CodeSet

def blanks : CodeSet where
  edges := [0x9, 0xe, 0x1c, 0x21, 0x85, 0x86, 0xa0, 0xa1, 0x1680, 0x1681, 0x2000, 0x200b,
    0x2028, 0x202a, 0x202f, 0x2030, 0x205f, 0x2060, 0x3000, 0x3001]

def isBlank (c : Char) : Bool := blanks.contains c

/-- The zeros of the scripts that have decimal digits, by Unicode 14. The other nine follow each in
order. -/
def digitZeros : List Nat := [
  0x30, 0x660, 0x6f0, 0x7c0, 0x966, 0x9e6, 0xa66, 0xae6, 0xb66, 0xbe6, 0xc66, 0xce6, 0xd66,
  0xde6, 0xe50, 0xed0, 0xf20, 0x1040, 0x1090, 0x17e0, 0x1810, 0x1946, 0x19d0, 0x1a80, 0x1a90,
  0x1b50, 0x1bb0, 0x1c40, 0x1c50, 0xa620, 0xa8d0, 0xa900, 0xa9d0, 0xa9f0, 0xaa50, 0xabf0,
  0xff10, 0x104a0, 0x10d30, 0x11066, 0x110f0, 0x11136, 0x111d0, 0x112f0, 0x11450, 0x114d0,
  0x11650, 0x116c0, 0x11730, 0x118e0, 0x11950, 0x11c50, 0x11d50, 0x11da0, 0x16a60, 0x16ac0,
  0x16b50, 0x1d7ce, 0x1d7d8, 0x1d7e2, 0x1d7ec, 0x1d7f6, 0x1e140, 0x1e2f0, 0x1e950, 0x1fbf0]

def digit? (c : Char) : Option Nat :=
  (digitZeros.find? fun least => least ≤ c.toNat ∧ c.toNat < least + 10).map (c.toNat - ·)

end Dec.Text
