import Mathlib

namespace Agar.Lib

/-!
# Numbers as bytes

A number of a given width is a list of that many bytes, the least significant
first.  Decoding inverts encoding up to the width, and every list of bytes is
the encoding of the number it decodes to.
-/

/-- The low `width` bytes of a number, the least significant first. -/
def littleEndian : Nat → Nat → List UInt8
  | 0, _ => []
  | width + 1, value => UInt8.ofNat value :: littleEndian width (value / 256)

/-- The number that some bytes encode, the least significant first. -/
def ofLittleEndian : List UInt8 → Nat
  | [] => 0
  | byte :: rest => byte.toNat + 256 * ofLittleEndian rest

@[simp] theorem length_littleEndian (width value : Nat) :
    (littleEndian width value).length = width := by
  induction width generalizing value with
  | zero => rfl
  | succ width ih => rw [littleEndian, List.length_cons, ih]

@[simp] theorem ofLittleEndian_littleEndian (width value : Nat) :
    ofLittleEndian (littleEndian width value) = value % 256 ^ width := by
  induction width generalizing value with
  | zero => rw [littleEndian, ofLittleEndian, pow_zero, Nat.mod_one]
  | succ width ih =>
    rw [littleEndian, ofLittleEndian, ih, pow_succ', Nat.mod_mul, UInt8.toNat_ofNat']

end Agar.Lib
