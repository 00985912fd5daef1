import AsyncPing.Core.World
import AsyncPing.Library.Octets

/-!
`IcmpPacket` (`IcmpPacket.h`) and the packet that `Ping::start` builds with it.
Memory is a list of bytes; an access outside of it gives no packet. The byte order
of the machine is a parameter, as is what fresh memory holds.
-/
namespace AsyncPing
open Octets

def ICMP_HEADER_SIZE : Nat := 8

/-- `ICMP_ECHO` and `ICMP_ECHOREPLY`. -/
def ICMP_ECHO : Nat := 8
def ICMP_ECHOREPLY : Nat := 0

/-- Thread id (2), task timestamp (8) and ping index (2). -/
def EXTRA_PROTO_SIZE : Nat := 12

/-- `new unsigned char[size]`, left as the memory is. -/
def freshBytes (raw : Nat → UInt8) (size : Nat) : List UInt8 := (List.range size).map raw

structure IcmpPacket where
  packetSize : Nat
  buf : List UInt8
  deriving DecidableEq

namespace IcmpPacket

/-- The loop of `calcCheckSum`: two bytes a round, one at the end of odd data. -/
def addWords (sum : UInt32) : List UInt8 → UInt32
  | [] => sum
  | [a] => sum + (a.toUInt32 <<< 8)
  | a :: b :: data => addWords (sum + (a.toUInt32 <<< 8) + b.toUInt32) data

/-- The sum that `calcCheckSum` folds. -/
def accumulate (p : IcmpPacket) : Option UInt32 := do
  let b0 ← p.buf[0]?
  let b1 ← p.buf[1]?
  let b4 ← p.buf[4]?
  let b5 ← p.buf[5]?
  let b6 ← p.buf[6]?
  let b7 ← p.buf[7]?
  let sum := (b0.toUInt32 <<< 8) + b1.toUInt32 + (b4.toUInt32 <<< 8) + b5.toUInt32 +
    (b6.toUInt32 <<< 8) + b7.toUInt32
  -- from dataBegin to dataEnd, which leaves out the last byte
  let data ← readAt p.buf ICMP_HEADER_SIZE (p.packetSize - 1 - ICMP_HEADER_SIZE)
  return addWords sum data

/-- The two statements after the loop. -/
def foldCarries (sum : UInt32) : UInt32 :=
  let sum := (sum >>> 16) + (sum &&& 0xffff)
  sum + (sum >>> 16)

def calcCheckSum (p : IcmpPacket) : Option UInt16 := do
  let sum ← p.accumulate
  return (~~~ (foldCarries sum)).toUInt16

/-- `htons` swaps the bytes where the machine is not in network order. -/
def htons (o : ByteOrder) (v : UInt16) : UInt16 :=
  match o with
  | .little => UInt16.ofNat (v.toNat % 256 * 256 + v.toNat / 256)
  | .big => v

/-- What the two constructors that build a packet share: `content` is copied in
behind the header, then the fields of `struct icmp` are set. The type is
`ICMP_ECHO` whatever the argument `type` is. -/
def build (o : ByteOrder) (raw : Nat → UInt8) (code : UInt8) (identifier seq : UInt16)
    (size : Nat) (content : List UInt8) : Option IcmpPacket := do
  let packetSize := ICMP_HEADER_SIZE + size + 1
  let buf := freshBytes raw packetSize
  let copied ← readAt content 0 size
  let buf ← writeAt buf ICMP_HEADER_SIZE copied
  let buf ← writeAt buf (packetSize - 1) [0]
  -- icmp_type, icmp_code, icmp_id, icmp_seq
  let buf ← writeAt buf 0 [UInt8.ofNat ICMP_ECHO]
  let buf ← writeAt buf 1 [code]
  let buf ← writeAt buf 4 (o.bytes 2 (0xffff &&& identifier).toNat)
  let buf ← writeAt buf 6 (o.bytes 2 seq.toNat)
  let checksum ← calcCheckSum ⟨packetSize, buf⟩
  let buf ← writeAt buf 2 (o.bytes 2 (htons o checksum).toNat)
  return ⟨packetSize, buf⟩

/-- `IcmpPacket(type, code, identifier, seq, size, srcBuf)`, for a size that is not
negative. -/
def ofBuffer (o : ByteOrder) (raw : Nat → UInt8) (_type code : UInt8) (identifier seq : UInt16)
    (size : Nat) (srcBuf : List UInt8) : Option IcmpPacket :=
  build o raw code identifier seq size srcBuf

/-- `IcmpPacket(type, code, identifier, seq, pktContent)`. -/
def ofString (o : ByteOrder) (raw : Nat → UInt8) (_type code : UInt8) (identifier seq : UInt16)
    (pktContent : List UInt8) : Option IcmpPacket :=
  build o raw code identifier seq pktContent.length pktContent

end IcmpPacket

/-- The packet that `Ping::start` hands to sendto for this request. -/
def EchoRequest.packet (o : ByteOrder) (stack heap : Nat → UInt8) (request : EchoRequest) :
    Option IcmpPacket := do
  let srcBuf := freshBytes stack EXTRA_PROTO_SIZE
  let srcBuf ← writeAt srcBuf 0 (o.bytes 2 request.threadId.toNat)
  let srcBuf ← writeAt srcBuf 2 (o.bytes 8 request.timestamp.toNat)
  let srcBuf ← writeAt srcBuf 10 (o.bytes 2 request.index.toNat)
  IcmpPacket.ofBuffer o heap 8 0 request.id request.seq EXTRA_PROTO_SIZE srcBuf

end AsyncPing
