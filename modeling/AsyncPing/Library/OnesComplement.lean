import Mathlib.Algebra.GroupWithZero.Nat
import Mathlib.Data.List.Basic

/-!
Sixteen-bit ones-complement sums. Adding with end-around carry keeps the residue
modulo 65535 and tells zero from 65535: the sum of a list of words depends on its
arithmetic sum only. Folding the high half of a number into its low half does the
same, and twice is enough for 32 bits.
-/
namespace OnesComplement

/-- Addition with end-around carry. -/
def add (a b : Nat) : Nat := if a + b < 65536 then a + b else a + b - 65535

def sum : List Nat → Nat
  | [] => 0
  | w :: ws => add w (sum ws)

/-- The 16-bit word that stands for a number: 0 for 0 only. -/
def residue (n : Nat) : Nat := if n = 0 then 0 else (n - 1) % 65535 + 1

def fold (n : Nat) : Nat := n / 65536 + n % 65536

/-- The bytes as 16-bit words, high byte first, an odd last byte padded by zero. -/
def words : List UInt8 → List Nat
  | [] => []
  | [a] => [a.toNat * 256]
  | a :: b :: bs => (a.toNat * 256 + b.toNat) :: words bs

theorem residue_of_lt {n : Nat} (small : n < 65536) : residue n = n := by
  rw [residue]
  split <;> omega

theorem add_residue {a : Nat} (small : a < 65536) (n : Nat) :
    add a (residue n) = residue (a + n) := by
  simp only [add, residue]
  grind

/-- A sum of words is the residue of their arithmetic sum. -/
theorem sum_eq {ws : List Nat} (small : ∀ w ∈ ws, w < 65536) : sum ws = residue ws.sum := by
  induction ws with
  | nil => rfl
  | cons w ws ih =>
      rw [sum, ih fun v member => small v (.tail _ member), add_residue (small w (.head _)),
        List.sum_cons]

theorem residue_fold (n : Nat) : residue (fold n) = residue n := by
  simp only [residue, fold]
  grind

/-- Two folds bring 32 bits down to the residue. -/
theorem fold_fold {n : Nat} (small : n < 4294967296) : fold (fold n) = residue n := by
  have once : fold n < 131071 := by
    rw [fold]
    omega
  have twice : fold (fold n) < 65536 := by
    rw [fold]
    omega
  rw [← residue_of_lt twice, residue_fold, residue_fold]

/-- A sum with the complement of its residue is all ones. -/
theorem residue_complement (n : Nat) : residue (n + (65535 - residue n)) = 65535 := by
  simp only [residue]
  grind

theorem words_lt (bs : List UInt8) : ∀ w ∈ words bs, w < 65536 := by
  induction bs using words.induct with
  | case1 => simp [words]
  | case2 a =>
      have byte := a.toNat_lt
      simp only [words, List.mem_singleton]
      omega
  | case3 a b bs ih =>
      have high := a.toNat_lt
      have low := b.toNat_lt
      simp only [words, List.mem_cons]
      rintro w (rfl | member)
      · omega
      · exact ih w member

/-- A zero byte at the end changes no sum. -/
theorem words_append_zero (bs : List UInt8) : (words (bs ++ [0])).sum = (words bs).sum := by
  induction bs using words.induct with
  | case1 => rfl
  | case2 a => simp [words]
  | case3 a b bs ih => simp only [List.cons_append, words, List.sum_cons, ih]

/-- What a buffer can sum up to. -/
theorem words_sum_le (bs : List UInt8) : (words bs).sum ≤ 65535 * bs.length := by
  induction bs using words.induct with
  | case1 => exact Nat.le_refl 0
  | case2 a =>
      have byte := a.toNat_lt
      simp only [words, List.sum_cons, List.sum_nil, List.length_singleton]
      omega
  | case3 a b bs ih =>
      have high := a.toNat_lt
      have low := b.toNat_lt
      simp only [words, List.sum_cons, List.length_cons]
      omega

end OnesComplement
