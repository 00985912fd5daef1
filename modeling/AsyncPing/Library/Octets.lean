import Mathlib.Algebra.Group.Nat.Defs

/-!
Bytes in memory. Numbers are stored in one of the two byte orders and read back
modulo what the width holds; buffers are written and read at an offset, which fails
outside of them.
-/
namespace Octets

inductive ByteOrder
  | little
  | big
  deriving DecidableEq

/-- The `width` low bytes of a number, the least significant first. -/
def digits : (width : Nat) → Nat → List UInt8
  | 0, _ => []
  | width + 1, n => UInt8.ofNat n :: digits width (n / 256)

def value : List UInt8 → Nat
  | [] => 0
  | b :: bs => b.toNat + 256 * value bs

theorem digits_length (width n : Nat) : (digits width n).length = width := by
  induction width generalizing n with
  | zero => rfl
  | succ width ih => rw [digits, List.length_cons, ih]

theorem value_digits (width n : Nat) : value (digits width n) = n % 256 ^ width := by
  induction width generalizing n with
  | zero => rw [digits, value, pow_zero, Nat.mod_one]
  | succ width ih =>
      have byte : (UInt8.ofNat n).toNat = n % 256 := UInt8.toNat_ofNat
      rw [digits, value, ih, byte, pow_succ', Nat.mod_mul]

namespace ByteOrder

/-- How a number lies in memory. -/
def bytes (o : ByteOrder) (width n : Nat) : List UInt8 :=
  match o with
  | little => digits width n
  | big => (digits width n).reverse

/-- The number that these bytes are read as. -/
def number (o : ByteOrder) (bs : List UInt8) : Nat :=
  match o with
  | little => value bs
  | big => value bs.reverse

variable (o : ByteOrder) (width n : Nat)

@[simp] theorem bytes_length : (o.bytes width n).length = width := by
  cases o with
  | little => exact digits_length width n
  | big =>
      rw [bytes, List.length_reverse]
      exact digits_length width n

theorem number_bytes : o.number (o.bytes width n) = n % 256 ^ width := by
  cases o with
  | little => exact value_digits width n
  | big =>
      rw [bytes, number, List.reverse_reverse]
      exact value_digits width n

/-- A number that fits is read back as it was stored. -/
theorem number_bytes_of_lt {n : Nat} (fits : n < 256 ^ width) :
    o.number (o.bytes width n) = n := by
  rw [number_bytes, Nat.mod_eq_of_lt fits]

end ByteOrder

/-! ## Buffers -/

/-- Write bytes over what a buffer holds from an offset on. -/
def writeAt (buf : List UInt8) (offset : Nat) (bs : List UInt8) : Option (List UInt8) :=
  if offset + bs.length ≤ buf.length then
    some (buf.take offset ++ (bs ++ buf.drop (offset + bs.length)))
  else none

def readAt (buf : List UInt8) (offset width : Nat) : Option (List UInt8) :=
  if offset + width ≤ buf.length then some ((buf.drop offset).take width) else none

/-- A write falls on the part of the buffer that lies there. -/
theorem writeAt_append {before old after bs : List UInt8} {offset : Nat}
    (here : before.length = offset) (fits : bs.length = old.length) :
    writeAt (before ++ (old ++ after)) offset bs = some (before ++ (bs ++ after)) := by
  subst here
  rw [writeAt, fits, if_pos (by simp), List.take_left, List.drop_append,
    List.drop_append_of_le_length]
  · simp
  · simp

theorem readAt_append {before bs after : List UInt8} {offset width : Nat}
    (here : before.length = offset) (wide : bs.length = width) :
    readAt (before ++ (bs ++ after)) offset width = some bs := by
  subst here wide
  rw [readAt, if_pos (by simp), List.drop_left, List.take_left]

end Octets
