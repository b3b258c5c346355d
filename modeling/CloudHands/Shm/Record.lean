import CloudHands.Shm.ShmFormat

/-!
# The packet and the TCP record

The type-specific headers of `lib/shm/ch_packet_record.c` and `lib/shm/ch_tcp_record.c`:
each is written and read field by field, and the declared header size is the size of
what is written.
-/

namespace CloudHands.Shm

open Lib BinFormat

structure PacketRecord where
  type : UInt8
  metaDataSize : UInt16
  time : UInt64
deriving DecidableEq

def pktRecordHeaderSize : ℕ := 1 + 4 * 3 + 8 + 2 + 8

def pktRecordWrite (bf : BinFormat) (rcd : PacketRecord) : BinFormat :=
  let bf := bf.uint8Write rcd.type
  let bf := bf.uint16Write rcd.metaDataSize
  bf.uint64Write rcd.time

def pktRecordRead (bf : BinFormat) : Option PacketRecord × BinFormat :=
  let (type, bf) := bf.uint8Read
  let (metaDataSize, bf) := bf.uint16Read
  let (time, bf) := bf.uint64Read
  (some ⟨type, metaDataSize, time⟩, bf)

theorem reads_pktRecord (rcd : PacketRecord) : Reads pktRecordRead (some rcd)
    (bigEndian 1 rcd.type.toNat ++
      (bigEndian 2 rcd.metaDataSize.toNat ++ bigEndian 8 rcd.time.toNat)) := by
  intro bf h₁
  have h₂ := h₁.right
  have h₃ := h₂.right
  simp only [pktRecordRead, reads_uint8 _ _ h₁.left, reads_uint16 _ _ h₂.left, reads_uint64 _ _ h₃]
  simp only [advance_advance, List.length_append, Nat.add_assoc]

def packetRecordFormat : RecordFormat PacketRecord where
  recordHeaderSize := pktRecordHeaderSize
  shmRecordWrite := pktRecordWrite
  shmRecordRead := pktRecordRead
  encode rcd := bigEndian 1 rcd.type.toNat ++
    (bigEndian 2 rcd.metaDataSize.toNat ++ bigEndian 8 rcd.time.toNat)
  writes rcd := (writes_value 1 _).comp ((writes_value 2 _).comp (writes_value 8 _))
  reads := reads_pktRecord
  size rcd := by simp [pktRecordHeaderSize]

/-- The record that `ch_packet_record_put` hands to `ch_shm_format_put`. -/
def packetRecord (rcd : PacketRecord) (data : List UInt8) : ShmRecord PacketRecord :=
  ⟨UInt32.ofNat (pktRecordHeaderSize + data.length), rcd, 0, data⟩

structure TcpRecord where
  packetType : UInt8
  sessionDirect : UInt8
  protocolId : UInt32
  sessionId : UInt64
  time : UInt64
  srcIp : UInt32
  dstIp : UInt32
  srcPort : UInt16
  dstPort : UInt16
  reqPackets : UInt64
  reqBytes : UInt64
  resPackets : UInt64
  resBytes : UInt64
deriving DecidableEq

def tcpRecordHeaderSize : ℕ := 1 * 2 + 2 * 2 + 4 * 6 + 8 * 6 + 8

def tcpRecordWrite (bf : BinFormat) (rcd : TcpRecord) : BinFormat :=
  let bf := bf.uint8Write rcd.packetType
  let bf := bf.uint8Write rcd.sessionDirect
  let bf := bf.uint32Write rcd.protocolId
  let bf := bf.uint64Write rcd.sessionId
  let bf := bf.uint64Write rcd.time
  let bf := bf.uint32Write rcd.srcIp
  let bf := bf.uint32Write rcd.dstIp
  let bf := bf.uint16Write rcd.srcPort
  let bf := bf.uint16Write rcd.dstPort
  let bf := bf.uint64Write rcd.reqPackets
  let bf := bf.uint64Write rcd.reqBytes
  let bf := bf.uint64Write rcd.resPackets
  bf.uint64Write rcd.resBytes

def tcpRecordRead (bf : BinFormat) : Option TcpRecord × BinFormat :=
  let (packetType, bf) := bf.uint8Read
  let (sessionDirect, bf) := bf.uint8Read
  let (protocolId, bf) := bf.uint32Read
  let (sessionId, bf) := bf.uint64Read
  let (time, bf) := bf.uint64Read
  let (srcIp, bf) := bf.uint32Read
  let (dstIp, bf) := bf.uint32Read
  let (srcPort, bf) := bf.uint16Read
  let (dstPort, bf) := bf.uint16Read
  let (reqPackets, bf) := bf.uint64Read
  let (reqBytes, bf) := bf.uint64Read
  let (resPackets, bf) := bf.uint64Read
  let (resBytes, bf) := bf.uint64Read
  (some ⟨packetType, sessionDirect, protocolId, sessionId, time, srcIp, dstIp, srcPort, dstPort,
    reqPackets, reqBytes, resPackets, resBytes⟩, bf)

def tcpRecordBytes (rcd : TcpRecord) : List UInt8 :=
  bigEndian 1 rcd.packetType.toNat ++ (bigEndian 1 rcd.sessionDirect.toNat ++
    (bigEndian 4 rcd.protocolId.toNat ++ (bigEndian 8 rcd.sessionId.toNat ++
      (bigEndian 8 rcd.time.toNat ++ (bigEndian 4 rcd.srcIp.toNat ++
        (bigEndian 4 rcd.dstIp.toNat ++ (bigEndian 2 rcd.srcPort.toNat ++
          (bigEndian 2 rcd.dstPort.toNat ++ (bigEndian 8 rcd.reqPackets.toNat ++
            (bigEndian 8 rcd.reqBytes.toNat ++ (bigEndian 8 rcd.resPackets.toNat ++
              bigEndian 8 rcd.resBytes.toNat)))))))))))

theorem reads_tcpRecord (rcd : TcpRecord) :
    Reads tcpRecordRead (some rcd) (tcpRecordBytes rcd) := by
  intro bf h₁
  rw [tcpRecordBytes] at h₁ ⊢
  have h₂ := h₁.right
  have h₃ := h₂.right
  have h₄ := h₃.right
  have h₅ := h₄.right
  have h₆ := h₅.right
  have h₇ := h₆.right
  have h₈ := h₇.right
  have h₉ := h₈.right
  have h₁₀ := h₉.right
  have h₁₁ := h₁₀.right
  have h₁₂ := h₁₁.right
  have h₁₃ := h₁₂.right
  simp only [tcpRecordRead, reads_uint8 _ _ h₁.left, reads_uint8 _ _ h₂.left,
    reads_uint32 _ _ h₃.left, reads_uint64 _ _ h₄.left, reads_uint64 _ _ h₅.left,
    reads_uint32 _ _ h₆.left, reads_uint32 _ _ h₇.left, reads_uint16 _ _ h₈.left,
    reads_uint16 _ _ h₉.left, reads_uint64 _ _ h₁₀.left, reads_uint64 _ _ h₁₁.left,
    reads_uint64 _ _ h₁₂.left, reads_uint64 _ _ h₁₃]
  simp only [advance_advance, List.length_append, Nat.add_assoc]

theorem writes_tcpRecord (rcd : TcpRecord) :
    Writes (fun bf => tcpRecordWrite bf rcd) (tcpRecordBytes rcd) := by
  have hcounters := (writes_value 8 rcd.reqPackets.toNat).comp
      ((writes_value 8 rcd.reqBytes.toNat).comp
    ((writes_value 8 rcd.resPackets.toNat).comp (writes_value 8 rcd.resBytes.toNat)))
  have haddresses := (writes_value 4 rcd.srcIp.toNat).comp ((writes_value 4 rcd.dstIp.toNat).comp
    ((writes_value 2 rcd.srcPort.toNat).comp ((writes_value 2 rcd.dstPort.toNat).comp hcounters)))
  have hall := (writes_value 1 rcd.packetType.toNat).comp
    ((writes_value 1 rcd.sessionDirect.toNat).comp ((writes_value 4 rcd.protocolId.toNat).comp
      ((writes_value 8 rcd.sessionId.toNat).comp
        ((writes_value 8 rcd.time.toNat).comp haddresses))))
  simpa only [tcpRecordWrite, tcpRecordBytes, uint8Write, uint16Write, uint32Write, uint64Write]
    using hall

def tcpRecordFormat : RecordFormat TcpRecord where
  recordHeaderSize := tcpRecordHeaderSize
  shmRecordWrite := tcpRecordWrite
  shmRecordRead := tcpRecordRead
  encode := tcpRecordBytes
  writes := writes_tcpRecord
  reads := reads_tcpRecord
  size rcd := by simp [tcpRecordHeaderSize, tcpRecordBytes]

end CloudHands.Shm
