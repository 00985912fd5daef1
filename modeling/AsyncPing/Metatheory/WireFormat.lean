import AsyncPing.Core.SocketRead
import AsyncPing.Metatheory.HandlerEquations
import AsyncPing.Metatheory.PacketChecksum

/-!
The way of a request over the wire and back: an honest reply is handed to the task
and ping that the request was sent for, by the worker that sent it and by no other.
-/
namespace AsyncPing
open Octets

/-! ## Reading a packet -/

/-- The number at an offset of the packet. -/
def packetField (o : ByteOrder) (packet : Nat → UInt8) (offset width : Nat) : Nat :=
  o.number ((List.range width).map fun i => packet (offset + i))

/-- `ip_hl * 4`. -/
def headerLength (o : ByteOrder) (packet : Nat → UInt8) : Nat :=
  packetField o packet 0 1 % 16 * 4

theorem readPacket_bind {α : Type} (o : ByteOrder) (packet : Nat → UInt8) (offset width : Nat)
    (reads : List (Nat × Nat)) (k : Nat → PacketCode α) :
    (readPacket o packet offset width >>= k) reads =
      k (packetField o packet offset width) ((offset, width) :: reads) := rfl

namespace TaskWorker
variable (o : ByteOrder) (worker : TaskWorker) (packet : Nat → UInt8) (nrecv : Nat)

/-- The filters one after the other, with the reads that each result has cost. -/
theorem decodeReply_cases : worker.decodeReply o packet nrecv [] =
    if headerLength o packet < 20 ∨
        nrecv < headerLength o packet + ICMP_MINLEN + EXTRA_PROTO_SIZE then (none, [(0, 1)])
    else if UInt16.ofNat (packetField o packet (headerLength o packet + ICMP_MINLEN) 2) ≠
        worker.threadId then (none, [(headerLength o packet + ICMP_MINLEN, 2), (0, 1)])
    else
      (if packetField o packet (headerLength o packet) 1 ≠ ICMP_ECHOREPLY then none
      else if UInt16.ofNat (packetField o packet (headerLength o packet + 4) 2) ≠
        worker.getShortPid then none
      else some
        { timestamp :=
            UInt64.ofNat (packetField o packet (headerLength o packet + ICMP_MINLEN + 2) 8)
          seq := UInt16.ofNat (packetField o packet (headerLength o packet + 6) 2)
          index :=
            UInt16.ofNat (packetField o packet (headerLength o packet + ICMP_MINLEN + 10) 2) },
      [(headerLength o packet, 1), (headerLength o packet + 6, 2),
        (headerLength o packet + 4, 2), (headerLength o packet + ICMP_MINLEN + 10, 2),
        (headerLength o packet + ICMP_MINLEN + 2, 8), (headerLength o packet + ICMP_MINLEN, 2),
        (0, 1)]) := by
  rw [decodeReply, readPacket_bind]
  rw [headerLength]
  split
  · rfl
  rw [readPacket_bind]
  split
  · rfl
  simp only [readPacket_bind]
  split
  · rfl
  split <;> rfl

/-- Whatever the packet, only bytes that were received are read. -/
theorem decodeReply_reads (some : 0 < nrecv) :
    ∀ access ∈ (worker.decodeReply o packet nrecv []).2, access.1 + access.2 ≤ nrecv := by
  rw [decodeReply_cases]
  split
  · simpa using Nat.succ_le_of_lt some
  rename_i long
  have enough : headerLength o packet + 20 ≤ nrecv := by
    simp only [ICMP_MINLEN, EXTRA_PROTO_SIZE] at long
    omega
  split
  · simp only [List.mem_cons, List.not_mem_nil, or_false, ICMP_MINLEN]
    rintro access (rfl | rfl) <;> simp only <;> omega
  · simp only [List.mem_cons, List.not_mem_nil, or_false, ICMP_MINLEN]
    rintro access (rfl | rfl | rfl | rfl | rfl | rfl | rfl) <;> simp only <;> omega

end TaskWorker

/-- A field that was received is the number its bytes stand for. -/
theorem packetField_recv (o : ByteOrder) (stack : Nat → UInt8) {received : List UInt8}
    (before bs after : List UInt8) {offset width : Nat}
    (split : received = before ++ (bs ++ after)) (here : before.length = offset)
    (wide : bs.length = width) :
    packetField o (recvPacket stack received) offset width = o.number bs := by
  subst split here wide
  refine congrArg o.number (List.ext_getElem (by simp) ?_)
  intro i small bound
  simp only [List.getElem_map, List.getElem_range, recvPacket]
  rw [List.getElem?_append_right (Nat.le_add_right ..), Nat.add_sub_cancel_left,
    List.getElem?_append_left bound, List.getElem?_eq_getElem bound]
  rfl

theorem headerLength_recv (o : ByteOrder) (stack : Nat → UInt8) (first : UInt8)
    (rest : List UInt8) :
    headerLength o (recvPacket stack (first :: rest)) = first.toNat % 16 * 4 := by
  cases o <;> rfl

/-! ## Datagrams -/

/-- An IPv4 header, options included; the low half of the first byte counts its
words. -/
structure IpHeader where
  first : UInt8
  rest : List UInt8
  minimal : 5 ≤ first.toNat % 16
  length : rest.length + 1 = first.toNat % 16 * 4

def IpHeader.bytes (header : IpHeader) : List UInt8 := header.first :: header.rest

/-- What an honest peer makes of a request: the type is set, the checksum is
anything. -/
def echoReplyTo (request : List UInt8) (c0 c1 : UInt8) : List UInt8 :=
  ((request.set 0 0).set 2 c0).set 3 c1

theorem inetNtop_fits (addr : InAddr) : ∃ text, inetNtop addr 20 = some text := by
  have digits (b : UInt8) : b.toNat.repr.length ≤ 3 := by
    apply (Nat.length_repr_le_iff (by decide)).mpr
    exact Nat.lt_of_lt_of_le b.toNat_lt (by decide)
  have ha := digits addr.a
  have hb := digits addr.b
  have hc := digits addr.c
  have hd := digits addr.d
  refine ⟨_, if_pos ?_⟩
  simp only [String.length_append]
  have dot : ".".length = 1 := rfl
  omega

section handler
variable (o : ByteOrder) (stack : Nat → UInt8) (now : UInt64) (datagram : Datagram) {w : World}
  (small : datagram.bytes.length ≤ MAX_DATA_SIZE)
include small

theorem socketReadHandler_dropped (drops : (w.worker.decodeReply o
      (recvPacket stack datagram.bytes) datagram.bytes.length []).1 = none) :
    socketReadHandler o stack (some datagram) now w = .ok ((), w) := by
  simp only [socketReadHandler, Exec.get_bind, List.take_of_length_le small, drops]
  rfl

theorem socketReadHandler_reply {reply : EchoReply} (accepts : (w.worker.decodeReply o
      (recvPacket stack datagram.bytes) datagram.bytes.length []).1 = some reply) :
    socketReadHandler o stack (some datagram) now w =
      TaskWorker.onReceive reply.timestamp reply.seq reply.index now w := by
  obtain ⟨text, fits⟩ := inetNtop_fits datagram.remote
  simp only [socketReadHandler, Exec.get_bind, List.take_of_length_le small, accepts, fits]

end handler

/-! ## The request on the wire -/

theorem number_UInt16 (o : ByteOrder) (x : UInt16) :
    UInt16.ofNat (o.number (o.bytes 2 x.toNat)) = x := by
  rw [o.number_bytes_of_lt 2 x.toNat_lt, UInt16.ofNat_toNat]

theorem number_UInt64 (o : ByteOrder) (x : UInt64) :
    UInt64.ofNat (o.number (o.bytes 8 x.toNat)) = x := by
  rw [o.number_bytes_of_lt 8 x.toNat_lt, UInt64.ofNat_toNat]

namespace EchoRequest
variable (o : ByteOrder) (request : EchoRequest)

/-- The twelve bytes of the private protocol. -/
def payload : List UInt8 :=
  o.bytes 2 request.threadId.toNat ++
    (o.bytes 8 request.timestamp.toNat ++ o.bytes 2 request.index.toNat)

theorem payload_length : (request.payload o).length = EXTRA_PROTO_SIZE := by
  simp [payload, EXTRA_PROTO_SIZE]

/-- The bytes of a packet with this request, whatever its type and checksum. -/
def wire (type c0 c1 : UInt8) : List UInt8 :=
  [type, 0, c0, c1] ++ (o.bytes 2 request.id.toNat ++ (o.bytes 2 request.seq.toNat ++
    (request.payload o ++ [0])))

theorem packet_eq (stack heap : Nat → UInt8) : ∃ c0 c1,
    request.packet o stack heap = some ⟨21, request.wire o 8 c0 c1⟩ := by
  have first : writeAt (freshBytes stack EXTRA_PROTO_SIZE) 0 (o.bytes 2 request.threadId.toNat) =
      some (o.bytes 2 request.threadId.toNat ++ ((List.range 10).map fun i => stack (2 + i))) :=
    @writeAt_append [] [stack 0, stack 1] ((List.range 10).map fun i => stack (2 + i)) _ 0 rfl
      (o.bytes_length ..)
  have second : writeAt (o.bytes 2 request.threadId.toNat ++
        ((List.range 10).map fun i => stack (2 + i))) 2 (o.bytes 8 request.timestamp.toNat) =
      some (o.bytes 2 request.threadId.toNat ++
        (o.bytes 8 request.timestamp.toNat ++ [stack 10, stack 11])) :=
    @writeAt_append _ ((List.range 8).map fun i => stack (2 + i)) [stack 10, stack 11] _ 2
      (o.bytes_length ..) (o.bytes_length ..)
  have third : writeAt (o.bytes 2 request.threadId.toNat ++
        (o.bytes 8 request.timestamp.toNat ++ [stack 10, stack 11])) 10
        (o.bytes 2 request.index.toNat) = some (request.payload o) := by
    have tail := @writeAt_append (o.bytes 2 request.threadId.toNat ++
      o.bytes 8 request.timestamp.toNat) [stack 10, stack 11] []
      (o.bytes 2 request.index.toNat) 10 (by simp) (o.bytes_length ..)
    simp only [List.append_nil, List.append_assoc] at tail
    exact tail
  obtain ⟨i0, i1, s0, s1, sum, id, sequence, -, built⟩ :=
    IcmpPacket.build_eq o heap 0 request.id request.seq (request.payload o)
  refine ⟨UInt8.ofNat ((~~~ (IcmpPacket.foldCarries sum)).toUInt16.toNat / 256),
    UInt8.ofNat (~~~ (IcmpPacket.foldCarries sum)).toUInt16.toNat, ?_⟩
  rw [payload_length] at built
  simp only [packet, first, second, third, IcmpPacket.ofBuffer, built, Option.bind_eq_bind,
    Option.bind_some]
  rw [wire, id, sequence]
  rfl

/-- The reply is the request with another type and checksum. -/
theorem echoReplyTo_wire (c0 c1 d0 d1 : UInt8) :
    echoReplyTo (request.wire o 8 c0 c1) d0 d1 = request.wire o 0 d0 d1 := rfl

variable (header : IpHeader) (type c0 c1 : UInt8) (stack : Nat → UInt8) (worker : TaskWorker)

theorem wire_length : (header.bytes ++ request.wire o type c0 c1).length =
    header.bytes.length + 21 := by
  simp [wire, payload]

/-- What a worker reads out of a packet with this request. -/
theorem decode_wire : (worker.decodeReply o
      (recvPacket stack (header.bytes ++ request.wire o type c0 c1))
      (header.bytes ++ request.wire o type c0 c1).length []).1 =
    if worker.threadId = request.threadId ∧ type = 0 ∧ worker.getShortPid = request.id then
      some ⟨request.timestamp, request.seq, request.index⟩
    else none := by
  have minimal := header.minimal
  have length := header.length
  have hlen : headerLength o (recvPacket stack (header.bytes ++ request.wire o type c0 c1)) =
      header.bytes.length := (headerLength_recv o stack header.first _).trans length.symm
  have tid : packetField o (recvPacket stack (header.bytes ++ request.wire o type c0 c1))
      (header.bytes.length + ICMP_MINLEN) 2 = o.number (o.bytes 2 request.threadId.toNat) :=
    packetField_recv o stack (header.bytes ++ ([type, 0, c0, c1] ++
      (o.bytes 2 request.id.toNat ++ o.bytes 2 request.seq.toNat))) _
      (o.bytes 8 request.timestamp.toNat ++ (o.bytes 2 request.index.toNat ++ [0]))
      (by simp [wire, payload]) (by simp [ICMP_MINLEN]) (o.bytes_length ..)
  have timestamp : packetField o (recvPacket stack (header.bytes ++ request.wire o type c0 c1))
      (header.bytes.length + ICMP_MINLEN + 2) 8 = o.number (o.bytes 8 request.timestamp.toNat) :=
    packetField_recv o stack (header.bytes ++ ([type, 0, c0, c1] ++
      (o.bytes 2 request.id.toNat ++ (o.bytes 2 request.seq.toNat ++
      o.bytes 2 request.threadId.toNat)))) _ (o.bytes 2 request.index.toNat ++ [0])
      (by simp [wire, payload]) (by simp [ICMP_MINLEN]) (o.bytes_length ..)
  have index : packetField o (recvPacket stack (header.bytes ++ request.wire o type c0 c1))
      (header.bytes.length + ICMP_MINLEN + 10) 2 = o.number (o.bytes 2 request.index.toNat) :=
    packetField_recv o stack (header.bytes ++ ([type, 0, c0, c1] ++
      (o.bytes 2 request.id.toNat ++ (o.bytes 2 request.seq.toNat ++
      (o.bytes 2 request.threadId.toNat ++ o.bytes 8 request.timestamp.toNat))))) _ [0]
      (by simp [wire, payload]) (by simp [ICMP_MINLEN]) (o.bytes_length ..)
  have id : packetField o (recvPacket stack (header.bytes ++ request.wire o type c0 c1))
      (header.bytes.length + 4) 2 = o.number (o.bytes 2 request.id.toNat) :=
    packetField_recv o stack (header.bytes ++ [type, 0, c0, c1]) _
      (o.bytes 2 request.seq.toNat ++ (request.payload o ++ [0])) (by simp [wire]) (by simp)
      (o.bytes_length ..)
  have seq : packetField o (recvPacket stack (header.bytes ++ request.wire o type c0 c1))
      (header.bytes.length + 6) 2 = o.number (o.bytes 2 request.seq.toNat) :=
    packetField_recv o stack (header.bytes ++ ([type, 0, c0, c1] ++
      o.bytes 2 request.id.toNat)) _ (request.payload o ++ [0]) (by simp [wire]) (by simp)
      (o.bytes_length ..)
  have kind : packetField o (recvPacket stack (header.bytes ++ request.wire o type c0 c1))
      header.bytes.length 1 = type.toNat := by
    have byte : o.number [type] = type.toNat := by cases o <;> rfl
    rw [← byte]
    exact packetField_recv o stack header.bytes [type] ([0, c0, c1] ++ _) rfl rfl rfl
  have zero : type.toNat = ICMP_ECHOREPLY ↔ type = 0 := UInt8.toNat_inj (b := 0)
  have long : ¬ (header.bytes.length < 20 ∨ (header.bytes ++ request.wire o type c0 c1).length <
      header.bytes.length + ICMP_MINLEN + EXTRA_PROTO_SIZE) := by
    rw [wire_length, ICMP_MINLEN, EXTRA_PROTO_SIZE, IpHeader.bytes, List.length_cons]
    omega
  rw [TaskWorker.decodeReply_cases, hlen, if_neg long, tid, timestamp, index, id, seq, kind,
    number_UInt16, number_UInt16, number_UInt16, number_UInt16, number_UInt64]
  by_cases mine : worker.threadId = request.threadId
  · by_cases answer : type = 0
    · by_cases pid : worker.getShortPid = request.id
      · simp [mine, answer, pid, ICMP_ECHOREPLY]
      · simp [mine, answer, pid, Ne.symm pid, ICMP_ECHOREPLY]
    · simp [mine, answer, zero]
  · simp [mine, Ne.symm mine]

end EchoRequest

/-- A datagram that ends before the payload does is dropped. -/
theorem decode_short (o : ByteOrder) (header : IpHeader) (worker : TaskWorker)
    (stack : Nat → UInt8) (body : List UInt8) {len : Nat} (minimal : 20 ≤ len)
    (short : len < header.bytes.length + ICMP_MINLEN + EXTRA_PROTO_SIZE) :
    (worker.decodeReply o (recvPacket stack ((header.bytes ++ body).take len))
      ((header.bytes ++ body).take len).length []).1 = none := by
  obtain ⟨n, rfl⟩ := Nat.exists_eq_succ_of_ne_zero (Nat.ne_of_gt (Nat.lt_of_lt_of_le
    (by decide : 0 < 20) minimal))
  have hlen : headerLength o (recvPacket stack ((header.bytes ++ body).take (n + 1))) =
      header.bytes.length := (headerLength_recv o stack header.first _).trans header.length.symm
  have taken : ((header.bytes ++ body).take (n + 1)).length ≤ n + 1 := List.length_take_le ..
  rw [TaskWorker.decodeReply_cases, hlen, if_pos]
  exact .inr (Nat.lt_of_le_of_lt taken short)

/-! ## The process identifier -/

theorem TaskWorker.getShortPid_toNat (worker : TaskWorker) :
    worker.getShortPid.toNat = worker.pid.toNat % 65536 := UInt32.toNat_toUInt16 worker.pid

/-- The filter compares the low 16 bits. -/
theorem TaskWorker.getShortPid_eq_iff {worker sender : TaskWorker} :
    worker.getShortPid = sender.getShortPid ↔
      worker.pid.toNat % 65536 = sender.pid.toNat % 65536 := by
  rw [← UInt16.toNat_inj, getShortPid_toNat, getShortPid_toNat]

theorem EchoRequest.wire_id (o : ByteOrder) (request : EchoRequest) (type c0 c1 : UInt8) :
    readAt (request.wire o type c0 c1) 4 2 = some (o.bytes 2 request.id.toNat) :=
  readAt_append rfl (o.bytes_length ..)

namespace Sample

/-- Six words: a router alert stands behind the addresses. -/
def alertHeader : IpHeader where
  first := 0x46
  rest := [0, 0, 45, 0, 0, 0, 0, 64, 1, 0, 0, 192, 0, 2, 1, 192, 0, 2, 2, 148, 4, 0, 0]
  minimal := by decide
  length := by decide

/-- Its pid takes more than 16 bits. -/
def alertSender : TaskWorker where
  self := 1
  pid := 70000
  threadId := 3
  doingMap _ := none
  taskQueue := []
  doingCount := 0
  notifyPipe := 0
  base _ := none

def alertTask : Task := ⟨false, 0, 50, 0, 0, none⟩

end Sample

end AsyncPing
