import AsyncPing.Core.IcmpPacket
import AsyncPing.Core.TaskWorker

/-!
`socketReadHandler` (`TaskWorker.cpp`): what a worker makes of a datagram from its
raw socket. The array on the stack holds the bytes received and behind them what
the memory held; the offsets read are recorded. The log messages and the lines
printed at the end are left out.
-/
namespace AsyncPing
open Octets

def IP_MAXPACKET : Nat := 65535
def IPHDR : Nat := 20
def ICMP_MINLEN : Nat := 8
def MAX_DATA_SIZE : Nat := IP_MAXPACKET - IPHDR - ICMP_MINLEN

/-- `in_addr`, in network order. -/
structure InAddr where
  a : UInt8
  b : UInt8
  c : UInt8
  d : UInt8

/-- `inet_ntop(AF_INET, addr, dst, size)`: null when the text and its end do not
fit. -/
def inetNtop (addr : InAddr) (size : Nat) : Option String :=
  let text := addr.a.toNat.repr ++ "." ++ addr.b.toNat.repr ++ "." ++ addr.c.toNat.repr ++ "." ++
    addr.d.toNat.repr
  if text.length + 1 ≤ size then some text else none

/-- What recvfrom has for the handler. -/
structure Datagram where
  bytes : List UInt8
  remote : InAddr

/-- The fields of a reply that the handler passes on. -/
structure EchoReply where
  timestamp : UInt64
  seq : UInt16
  index : UInt16
  deriving DecidableEq

/-- The array `recvPacket` after recvfrom. -/
def recvPacket (stack : Nat → UInt8) (received : List UInt8) (i : Nat) : UInt8 :=
  received[i]?.getD (stack i)

/-- Code that reads the packet; the accesses are kept as offset and width. -/
abbrev PacketCode (α : Type) := StateM (List (Nat × Nat)) α

def readPacket (o : ByteOrder) (packet : Nat → UInt8) (offset width : Nat) : PacketCode Nat := do
  modify ((offset, width) :: ·)
  return o.number ((List.range width).map fun i => packet (offset + i))

/-- The handler up to the call of `onReceive`. -/
def TaskWorker.decodeReply (o : ByteOrder) (worker : TaskWorker) (packet : Nat → UInt8)
    (nrecv : Nat) : PacketCode (Option EchoReply) := do
  -- ip_hl is the low half of the first byte
  let hlen := (← readPacket o packet 0 1) % 16 * 4
  if hlen < 20 ∨ nrecv < hlen + ICMP_MINLEN + EXTRA_PROTO_SIZE then
    return none
  let recvThreadId ← readPacket o packet (hlen + ICMP_MINLEN) 2
  if UInt16.ofNat recvThreadId ≠ worker.threadId then
    return none
  let taskTimestamp ← readPacket o packet (hlen + ICMP_MINLEN + 2) 8
  let pingIndex ← readPacket o packet (hlen + ICMP_MINLEN + 10) 2
  let id ← readPacket o packet (hlen + 4) 2
  let seq ← readPacket o packet (hlen + 6) 2
  let type ← readPacket o packet hlen 1
  if type ≠ ICMP_ECHOREPLY then
    return none
  if UInt16.ofNat id ≠ worker.getShortPid then
    return none
  return some
    { timestamp := UInt64.ofNat taskTimestamp
      seq := UInt16.ofNat seq
      index := UInt16.ofNat pingIndex }

/-- `recv` is none when recvfrom returns -1. -/
def socketReadHandler (o : ByteOrder) (stack : Nat → UInt8) (recv : Option Datagram)
    (now : UInt64) : Handler Unit := do
  let w ← get
  match recv with
  | none => return
  | some datagram =>
    let received := datagram.bytes.take MAX_DATA_SIZE
    match (w.worker.decodeReply o (recvPacket stack received) received.length []).1 with
    | none => return
    | some reply =>
      match inetNtop datagram.remote 20 with
      | none => return
      | some _ => TaskWorker.onReceive reply.timestamp reply.seq reply.index now

end AsyncPing
