import AsyncPing.Core.IcmpPacket
import AsyncPing.Library.OnesComplement

/-!
The bytes of the packets that IcmpPacket builds, and their checksum: over the whole
buffer, the trailing zero included, the ones-complement sum is all ones.
-/
namespace AsyncPing
open Octets OnesComplement

/-! ## The sum in 32 bits -/

theorem shifted_toNat (b : UInt8) : (b.toUInt32 <<< 8).toNat = b.toNat * 256 := by
  have byte := b.toNat_lt
  simp only [UInt32.toNat_shiftLeft, UInt8.toNat_toUInt32, Nat.shiftLeft_eq, UInt32.reduceToNat,
    Nat.reduceMod, Nat.reducePow]
  omega

namespace IcmpPacket

theorem addWords_toNat (sum : UInt32) (data : List UInt8)
    (fits : sum.toNat + (words data).sum < 4294967296) :
    (addWords sum data).toNat = sum.toNat + (words data).sum := by
  induction sum, data using addWords.induct with
  | case1 sum => rfl
  | case2 sum a =>
      simp only [addWords, words, List.sum_cons, List.sum_nil] at fits ⊢
      simp only [UInt32.toNat_add, shifted_toNat]
      omega
  | case3 sum a b data ih =>
      simp only [addWords, words, List.sum_cons] at fits ⊢
      have step : (sum + (a.toUInt32 <<< 8) + b.toUInt32).toNat =
          sum.toNat + (a.toNat * 256 + b.toNat) := by
        simp only [UInt32.toNat_add, shifted_toNat, UInt8.toNat_toUInt32]
        omega
      rw [ih (by omega), step]
      omega

/-- The two folds and the truncation give the residue. -/
theorem foldCarries_toNat (sum : UInt32) : (foldCarries sum).toUInt16.toNat = residue sum.toNat := by
  have small := sum.toNat_lt
  have low : (sum &&& 0xffff).toNat = sum.toNat % 65536 := by
    rw [UInt32.toNat_and]
    exact Nat.and_two_pow_sub_one_eq_mod sum.toNat 16
  rw [← fold_fold small]
  simp only [foldCarries, UInt32.toNat_toUInt16, UInt32.toNat_add, UInt32.toNat_shiftRight, low,
    UInt32.reduceToNat, Nat.reduceMod, Nat.shiftRight_eq_div_pow, Nat.reducePow, fold]
  omega

theorem complement_toNat (x : UInt32) :
    (~~~ x).toUInt16.toNat = 65535 - x.toUInt16.toNat := by
  have small := x.toNat_lt
  simp only [UInt32.toNat_toUInt16, UInt32.toNat_not, UInt32.size, Nat.reducePow]
  omega

/-! ## The bytes of a packet -/

theorem two_bytes (o : ByteOrder) (n : Nat) : ∃ a b, o.bytes 2 n = [a, b] := by
  cases o with
  | little => exact ⟨_, _, rfl⟩
  | big => exact ⟨_, _, rfl⟩

/-- The checksum lies in network order on every machine. -/
theorem htons_bytes (o : ByteOrder) (v : UInt16) : o.bytes 2 (htons o v).toNat =
    [UInt8.ofNat (v.toNat / 256), UInt8.ofNat v.toNat] := by
  have small := v.toNat_lt
  cases o with
  | big => rfl
  | little =>
      have swapped : (htons .little v).toNat = v.toNat % 256 * 256 + v.toNat / 256 := by
        simp only [htons, UInt16.toNat_ofNat']
        omega
      have low : UInt8.ofNat (v.toNat % 256 * 256 + v.toNat / 256) =
          UInt8.ofNat (v.toNat / 256) := by
        apply UInt8.toNat_inj.mp
        simp only [UInt8.toNat_ofNat']
        omega
      have high : UInt8.ofNat ((v.toNat % 256 * 256 + v.toNat / 256) / 256) =
          UInt8.ofNat v.toNat := by
        have quotient : (v.toNat % 256 * 256 + v.toNat / 256) / 256 = v.toNat % 256 := by omega
        apply UInt8.toNat_inj.mp
        rw [quotient, UInt8.toNat_ofNat', UInt8.toNat_ofNat', Nat.mod_mod_of_dvd _ (by decide)]
      rw [swapped]
      simp only [ByteOrder.bytes, digits, low, high]

/-- A buffer of a packet: header, payload and the last byte. -/
def layout (type code c0 c1 i0 i1 s0 s1 last : UInt8) (payload : List UInt8) : List UInt8 :=
  [type, code, c0, c1, i0, i1, s0, s1] ++ (payload ++ [last])

/-- Fresh memory has that shape too. -/
theorem freshBytes_layout (raw : Nat → UInt8) (n : Nat) :
    ∃ t c c0 c1 i0 i1 s0 s1 last, ∃ old : List UInt8, old.length = n ∧
      freshBytes raw (ICMP_HEADER_SIZE + n + 1) = layout t c c0 c1 i0 i1 s0 s1 last old := by
  refine ⟨raw 0, raw 1, raw 2, raw 3, raw 4, raw 5, raw 6, raw 7, raw (8 + n),
    (List.range n).map fun i => raw (8 + i), by simp, ?_⟩
  have split : List.range (8 + n + 1) = List.range 8 ++ ((List.range n).map (8 + ·) ++ [8 + n]) := by
    rw [List.range_succ, List.range_add, List.append_assoc]
  rw [freshBytes, ICMP_HEADER_SIZE, split, List.map_append, List.map_append, List.map_map]
  rfl

/-- What is summed: the words of the header but for the checksum, and the payload. -/
theorem accumulate_layout (type code c0 c1 i0 i1 s0 s1 : UInt8) (payload : List UInt8) :
    accumulate ⟨ICMP_HEADER_SIZE + payload.length + 1,
      layout type code c0 c1 i0 i1 s0 s1 0 payload⟩ =
      some (addWords ((type.toUInt32 <<< 8) + code.toUInt32 + (i0.toUInt32 <<< 8) + i1.toUInt32 +
        (s0.toUInt32 <<< 8) + s1.toUInt32) payload) := by
  have data : readAt (layout type code c0 c1 i0 i1 s0 s1 0 payload) ICMP_HEADER_SIZE
      (ICMP_HEADER_SIZE + payload.length + 1 - 1 - ICMP_HEADER_SIZE) = some payload :=
    readAt_append rfl (by omega)
  simp only [accumulate, data]
  rfl

/-- Every write falls on its own part of the buffer; only the checksum depends on
the others. -/
theorem build_eq (o : ByteOrder) (raw : Nat → UInt8) (code : UInt8) (identifier seq : UInt16)
    (payload : List UInt8) : ∃ i0 i1 s0 s1 : UInt8, ∃ sum : UInt32,
    o.bytes 2 identifier.toNat = [i0, i1] ∧ o.bytes 2 seq.toNat = [s0, s1] ∧
    sum = addWords (((8 : UInt8).toUInt32 <<< 8) + code.toUInt32 + (i0.toUInt32 <<< 8) +
      i1.toUInt32 + (s0.toUInt32 <<< 8) + s1.toUInt32) payload ∧
    build o raw code identifier seq payload.length payload =
      some ⟨ICMP_HEADER_SIZE + payload.length + 1,
        layout 8 code (UInt8.ofNat ((~~~ (foldCarries sum)).toUInt16.toNat / 256))
          (UInt8.ofNat (~~~ (foldCarries sum)).toUInt16.toNat) i0 i1 s0 s1 0 payload⟩ := by
  obtain ⟨i0, i1, id⟩ := two_bytes o identifier.toNat
  obtain ⟨s0, s1, sequence⟩ := two_bytes o seq.toNat
  obtain ⟨t, c, c0, c1, j0, j1, r0, r1, last, old, length, fresh⟩ :=
    freshBytes_layout raw payload.length
  refine ⟨i0, i1, s0, s1, _, id, sequence, rfl, ?_⟩
  have masked : 0xffff &&& identifier = identifier := by
    apply UInt16.toNat_inj.mp
    rw [UInt16.toNat_and, Nat.and_comm]
    exact (Nat.and_two_pow_sub_one_eq_mod identifier.toNat 16).trans
      (Nat.mod_eq_of_lt identifier.toNat_lt)
  have copied : readAt payload 0 payload.length = some payload := by
    have whole := @readAt_append [] payload [] 0 payload.length rfl rfl
    rwa [List.nil_append, List.append_nil] at whole
  have content : writeAt (layout t c c0 c1 j0 j1 r0 r1 last old) ICMP_HEADER_SIZE payload =
      some (layout t c c0 c1 j0 j1 r0 r1 last payload) := writeAt_append rfl length.symm
  have ending : writeAt (layout t c c0 c1 j0 j1 r0 r1 last payload)
      (ICMP_HEADER_SIZE + payload.length + 1 - 1) [0] =
        some (layout t c c0 c1 j0 j1 r0 r1 0 payload) := by
    have tail := @writeAt_append ([t, c, c0, c1, j0, j1, r0, r1] ++ payload) [last] [] [0]
      (ICMP_HEADER_SIZE + payload.length + 1 - 1) (by simp [ICMP_HEADER_SIZE]; omega) rfl
    simp only [List.append_nil, List.append_assoc] at tail
    exact tail
  have first : writeAt (layout t c c0 c1 j0 j1 r0 r1 0 payload) 0 [UInt8.ofNat ICMP_ECHO] =
      some (layout 8 c c0 c1 j0 j1 r0 r1 0 payload) :=
    @writeAt_append [] [t] _ [8] 0 rfl rfl
  have second : writeAt (layout 8 c c0 c1 j0 j1 r0 r1 0 payload) 1 [code] =
      some (layout 8 code c0 c1 j0 j1 r0 r1 0 payload) :=
    @writeAt_append [8] [c] _ [code] 1 rfl rfl
  have third : writeAt (layout 8 code c0 c1 j0 j1 r0 r1 0 payload) 4 [i0, i1] =
      some (layout 8 code c0 c1 i0 i1 r0 r1 0 payload) :=
    @writeAt_append [8, code, c0, c1] [j0, j1] _ [i0, i1] 4 rfl rfl
  have fourth : writeAt (layout 8 code c0 c1 i0 i1 r0 r1 0 payload) 6 [s0, s1] =
      some (layout 8 code c0 c1 i0 i1 s0 s1 0 payload) :=
    @writeAt_append [8, code, c0, c1, i0, i1] [r0, r1] _ [s0, s1] 6 rfl rfl
  have checksum (d0 d1 : UInt8) : writeAt (layout 8 code c0 c1 i0 i1 s0 s1 0 payload) 2 [d0, d1] =
      some (layout 8 code d0 d1 i0 i1 s0 s1 0 payload) :=
    @writeAt_append [8, code] [c0, c1] _ [d0, d1] 2 rfl rfl
  simp only [build, fresh, masked, id, sequence, copied, content, ending, first, second, third,
    fourth, calcCheckSum, accumulate_layout, htons_bytes, checksum, Option.bind_eq_bind,
    Option.bind_some, Option.pure_def]

theorem layout_fields (o : ByteOrder) {code c0 c1 i0 i1 s0 s1 : UInt8} {identifier seq : UInt16}
    (payload : List UInt8) (id : o.bytes 2 identifier.toNat = [i0, i1])
    (sequence : o.bytes 2 seq.toNat = [s0, s1]) : layout 8 code c0 c1 i0 i1 s0 s1 0 payload =
      [8, code, c0, c1] ++ (o.bytes 2 identifier.toNat ++ (o.bytes 2 seq.toNat ++
        (payload ++ [0]))) := by
  rw [id, sequence]
  rfl

/-! ## The checksum -/

theorem sum_toNat (code i0 i1 s0 s1 : UInt8) (payload : List UInt8)
    (fits : payload.length + 9 ≤ 65515) :
    (addWords (((8 : UInt8).toUInt32 <<< 8) + code.toUInt32 + (i0.toUInt32 <<< 8) + i1.toUInt32 +
      (s0.toUInt32 <<< 8) + s1.toUInt32) payload).toNat =
      (words (layout 8 code 0 0 i0 i1 s0 s1 0 payload)).sum := by
  have bound := words_sum_le payload
  have hc := code.toNat_lt
  have h0 := i0.toNat_lt
  have h1 := i1.toNat_lt
  have h2 := s0.toNat_lt
  have h3 := s1.toNat_lt
  have header : (((8 : UInt8).toUInt32 <<< 8) + code.toUInt32 + (i0.toUInt32 <<< 8) +
      i1.toUInt32 + (s0.toUInt32 <<< 8) + s1.toUInt32).toNat =
      8 * 256 + code.toNat + i0.toNat * 256 + i1.toNat + s0.toNat * 256 + s1.toNat := by
    simp only [UInt32.toNat_add, shifted_toNat, UInt8.toNat_toUInt32, UInt8.reduceToNat]
    omega
  rw [addWords_toNat _ _ (by rw [header]; omega), header]
  simp only [layout, List.cons_append, List.nil_append, words, List.sum_cons, words_append_zero,
    UInt8.reduceToNat]
  omega

theorem checksum_word (type code i0 i1 s0 s1 last : UInt8) (c : UInt16) (payload : List UInt8) :
    (words (layout type code (UInt8.ofNat (c.toNat / 256)) (UInt8.ofNat c.toNat) i0 i1 s0 s1 last
      payload)).sum = (words (layout type code 0 0 i0 i1 s0 s1 last payload)).sum + c.toNat := by
  have small := c.toNat_lt
  simp only [layout, List.cons_append, List.nil_append, words, List.sum_cons, UInt8.toNat_ofNat',
    UInt8.reduceToNat]
  omega

end IcmpPacket

open IcmpPacket in
/-- Whatever the payload, it stands in the packet behind the header and before a zero, and
the checksum is right over all of it. -/
theorem packet_checksum_valid (o : ByteOrder) (raw raw' : Nat → UInt8) (type code : UInt8)
    (identifier seq : UInt16) (payload : List UInt8) (fits : payload.length + 9 ≤ 65515) :
    ∃ p sum, ofBuffer o raw type code identifier seq payload.length payload = some p ∧
      (∃ c0 c1, p.buf = [8, code, c0, c1] ++ (o.bytes 2 identifier.toNat ++
        (o.bytes 2 seq.toNat ++ (payload ++ [0])))) ∧
      OnesComplement.sum (words p.buf) = 0xFFFF ∧
      p.accumulate = some sum ∧ sum.toNat = (words ((p.buf.set 2 0).set 3 0)).sum ∧
      (foldCarries sum).toUInt16.toNat = OnesComplement.sum (words ((p.buf.set 2 0).set 3 0)) ∧
      ofString o raw' type code identifier seq payload = some p := by
  obtain ⟨i0, i1, s0, s1, sum, id, sequence, same, built⟩ :=
    build_eq o raw code identifier seq payload
  obtain ⟨j0, j1, r0, r1, sum', id', sequence', same', built'⟩ :=
    build_eq o raw' code identifier seq payload
  cases id.symm.trans id'
  cases sequence.symm.trans sequence'
  cases same.trans same'.symm
  have exact : sum.toNat = (words (layout 8 code 0 0 i0 i1 s0 s1 0 payload)).sum := by
    rw [same]
    exact sum_toNat code i0 i1 s0 s1 payload fits
  have folded : (foldCarries sum).toUInt16.toNat =
      OnesComplement.sum (words (layout 8 code 0 0 i0 i1 s0 s1 0 payload)) := by
    rw [foldCarries_toNat, sum_eq (words_lt _), exact]
  refine ⟨_, sum, built, ⟨_, _, layout_fields o payload id sequence⟩, ?_, ?_, exact, folded,
    built'⟩
  · rw [sum_eq (words_lt _), checksum_word, complement_toNat, folded, sum_eq (words_lt _)]
    exact residue_complement _
  · rw [accumulate_layout, same]

/-- Three bytes of payload. -/
theorem packet_checksum_valid_odd :
    ∃ p sum, IcmpPacket.ofBuffer .little (fun _ => 0xaa) 8 0 4660 1 3 [104, 105, 33] = some p ∧
      (∃ c0 c1, p.buf = [8, 0, c0, c1] ++ (ByteOrder.little.bytes 2 4660 ++
        (ByteOrder.little.bytes 2 1 ++ ([104, 105, 33] ++ [0])))) ∧
      OnesComplement.sum (words p.buf) = 0xFFFF ∧
      p.accumulate = some sum ∧ sum.toNat = (words ((p.buf.set 2 0).set 3 0)).sum ∧
      (IcmpPacket.foldCarries sum).toUInt16.toNat =
        OnesComplement.sum (words ((p.buf.set 2 0).set 3 0)) ∧
      IcmpPacket.ofString .little (fun _ => 0) 8 0 4660 1 [104, 105, 33] = some p :=
  packet_checksum_valid .little (fun _ => 0xaa) (fun _ => 0) 8 0 4660 1 [104, 105, 33] (by decide)

end AsyncPing
