import LlmHric.Gtpu.Reception
import LlmHric.Library.ByteOrder

/-! A datagram is built from a header, optional fields and a chain of extension headers, each padded
to a multiple of 4 bytes. Its reader is other code, with offsets of its own. The sequence number is
stored in the byte order of the host, which is little endian here, and is read in network order. -/

namespace LlmHric.Gtpu

open Checked Checked.Outcome ByteOrder

/-! ### Extension headers -/

/-- `gtpu_extension_header_type_t` -/
inductive GtpuExtensionHeaderType
  | none
  | ulPduSessionInformation
  | dlDataDeliveryStatus
  | dlUserData
  deriving DecidableEq

/-- `ul_pdu_session_information_t` -/
structure UlPduSessionInformation where
  qmp : Bool
  dlDelayInd : Bool
  ulDelayInd : Bool
  snp : Bool
  n3n9DelayInd : Bool
  newIeFlag : Bool
  qfi : ℕ
  deriving DecidableEq

/-- `dl_data_delivery_status_t` -/
structure DlDataDeliveryStatus where
  highestTransmittedNrPdcpSnInd : Bool
  highestDeliveredNrPdcpSnInd : Bool
  finalFrameInd : Bool
  lostPacketReport : Bool
  deliveredNrPdcpSnRangeInd : Bool
  dataRateInd : Bool
  retransmittedNrPdcpSnInd : Bool
  deliveredRetransmittedNrPdcpInd : Bool
  causeReport : Bool
  desiredBufferSize : UInt32
  highestTransmittedNrPdcpSn : UInt32
  deriving DecidableEq

/-- `dl_user_data_t` -/
structure DlUserData where
  dlDiscardBlocks : Bool
  dlFlush : Bool
  reportPolling : Bool
  requestOutOfSeqReport : Bool
  reportDelivered : Bool
  userDataExistenceFlag : Bool
  assistanceInfoReportPollingFlag : Bool
  retransmissionFlag : Bool
  nruSequenceNumber : UInt32
  deriving DecidableEq

/-- `gtpu_extension_header_t` -/
inductive GtpuExtensionHeader
  | none
  | ulPduSessionInformation (ext : UlPduSessionInformation)
  | dlDataDeliveryStatus (ext : DlDataDeliveryStatus)
  | dlUserData (ext : DlUserData)
  deriving DecidableEq

/-- The field `type`. -/
def GtpuExtensionHeader.type : GtpuExtensionHeader → GtpuExtensionHeaderType
  | none => .none
  | ulPduSessionInformation _ => .ulPduSessionInformation
  | dlDataDeliveryStatus _ => .dlDataDeliveryStatus
  | dlUserData _ => .dlUserData

/-- `serialize_gtpu_extension_type` -/
def serializeGtpuExtensionType : GtpuExtensionHeaderType → UInt8
  | .none => 0
  | .ulPduSessionInformation => pduSessionContainer
  | .dlDataDeliveryStatus => nrRanContainer
  | .dlUserData => nrRanContainer

/-! ### The writer -/

/-- `byte_array_producer_t`, with the bytes that were put. -/
structure ByteArrayProducer where
  len : ℕ
  buf : List UInt8
  deriving DecidableEq

/-- `byte_array_producer_put_byte` -/
def putByte (b : ByteArrayProducer) (byte : UInt8) : Outcome ByteArrayProducer := do
  Outcome.require (b.buf.length ≠ b.len)
  return { b with buf := b.buf ++ [byte] }

/-- `byte_array_producer_put_u32_be` -/
def putU32Be (b : ByteArrayProducer) (v : UInt32) : Outcome ByteArrayProducer := do
  let b ← putByte b (v >>> 24).toUInt8
  let b ← putByte b (v >>> 16).toUInt8
  let b ← putByte b (v >>> 8).toUInt8
  putByte b v.toUInt8

/-- `byte_array_producer_put_u24_be` -/
def putU24Be (b : ByteArrayProducer) (v : UInt32) : Outcome ByteArrayProducer := do
  let b ← putByte b (v >>> 16).toUInt8
  let b ← putByte b (v >>> 8).toUInt8
  putByte b v.toUInt8

/-- `serialize_ul_pdu_session_information` -/
def serializeUlPduSessionInformation (b : ByteArrayProducer) (ext : UlPduSessionInformation) :
    Outcome ByteArrayProducer := do
  assertFatal (¬ (ext.qmp ∨ ext.dlDelayInd ∨ ext.ulDelayInd ∨ ext.snp ∨ ext.n3n9DelayInd ∨
    ext.newIeFlag))
  let b₁ := 1 <<< 4 ||| ext.qmp.toNat <<< 3 ||| ext.dlDelayInd.toNat <<< 2 |||
    ext.ulDelayInd.toNat <<< 1 ||| ext.snp.toNat
  let b₂ := ext.n3n9DelayInd.toNat <<< 7 ||| ext.newIeFlag.toNat <<< 6 ||| ext.qfi
  let b ← putByte b (UInt8.ofNat b₁)
  putByte b (UInt8.ofNat b₂)

/-- `serialize_dl_data_delivery_status` -/
def serializeDlDataDeliveryStatus (b : ByteArrayProducer) (ext : DlDataDeliveryStatus) :
    Outcome ByteArrayProducer := do
  assertFatal (¬ (ext.highestDeliveredNrPdcpSnInd ∨ ext.finalFrameInd ∨ ext.lostPacketReport ∨
    ext.deliveredNrPdcpSnRangeInd ∨ ext.dataRateInd ∨ ext.retransmittedNrPdcpSnInd ∨
    ext.deliveredRetransmittedNrPdcpInd ∨ ext.causeReport))
  let b₁ := 1 <<< 4 ||| ext.highestTransmittedNrPdcpSnInd.toNat <<< 3 |||
    ext.highestDeliveredNrPdcpSnInd.toNat <<< 2 ||| ext.finalFrameInd.toNat <<< 1 |||
    ext.lostPacketReport.toNat
  let b₂ := ext.deliveredNrPdcpSnRangeInd.toNat <<< 4 ||| ext.dataRateInd.toNat <<< 3 |||
    ext.retransmittedNrPdcpSnInd.toNat <<< 2 ||| ext.deliveredRetransmittedNrPdcpInd.toNat <<< 1 |||
    ext.causeReport.toNat
  let b ← putByte b (UInt8.ofNat b₁)
  let b ← putByte b (UInt8.ofNat b₂)
  let b ← putU32Be b ext.desiredBufferSize
  if ext.highestTransmittedNrPdcpSnInd then putU24Be b ext.highestTransmittedNrPdcpSn
  else return b

/-- `serialize_dl_user_data` -/
def serializeDlUserData (b : ByteArrayProducer) (ext : DlUserData) :
    Outcome ByteArrayProducer := do
  assertFatal (¬ (ext.dlDiscardBlocks ∨ ext.dlFlush ∨ ext.reportPolling ∨
    ext.requestOutOfSeqReport ∨ ext.reportDelivered ∨ ext.userDataExistenceFlag ∨
    ext.assistanceInfoReportPollingFlag ∨ ext.retransmissionFlag))
  let b₁ := 0 <<< 4 ||| ext.dlDiscardBlocks.toNat <<< 2 ||| ext.dlFlush.toNat <<< 1 |||
    ext.reportPolling.toNat
  let b₂ := ext.requestOutOfSeqReport.toNat <<< 4 ||| ext.reportDelivered.toNat <<< 3 |||
    ext.userDataExistenceFlag.toNat <<< 2 ||| ext.assistanceInfoReportPollingFlag.toNat <<< 1 |||
    ext.retransmissionFlag.toNat
  let b ← putByte b (UInt8.ofNat b₁)
  let b ← putByte b (UInt8.ofNat b₂)
  putU24Be b ext.nruSequenceNumber

/-- The padding; three rounds are enough. -/
def putPadding : ℕ → ByteArrayProducer → Outcome ByteArrayProducer
  | 0, b => .done b
  | rounds + 1, b =>
    if b.buf.length &&& 3 ≠ 3 then putByte b 0 >>= putPadding rounds else .done b

/-- `serialize_extension`; what is written to `out_buf` is returned. -/
def serializeExtension (ext : GtpuExtensionHeader) (next : GtpuExtensionHeaderType)
    (outLen : ℕ) : Outcome (List UInt8) := do
  let b ← putByte ⟨outLen, []⟩ 0
  let b ← match ext with
    | .ulPduSessionInformation ext => serializeUlPduSessionInformation b ext
    | .dlDataDeliveryStatus ext => serializeDlDataDeliveryStatus b ext
    | .dlUserData ext => serializeDlUserData b ext
    | .none => .refused
  let b ← putPadding 3 b
  let b ← putByte b (serializeGtpuExtensionType next)
  assertFatal (b.buf.length / 4 ≤ 255)
  return b.buf.set 0 (UInt8.ofNat (b.buf.length / 4))

def firstType : List GtpuExtensionHeader → GtpuExtensionHeaderType
  | [] => .none
  | ext :: _ => ext.type

/-- The loop over the extensions, which appends to a buffer of a size. -/
def serializeExtensions (size : ℕ) (buffer : List UInt8) :
    List GtpuExtensionHeader → Outcome (List UInt8)
  | [] => .done buffer
  | ext :: extensions => do
    let bytes ← serializeExtension ext (firstType extensions) (size - buffer.length)
    serializeExtensions size (buffer ++ bytes) extensions

/-- `HDR_MAX` -/
def hdrMax : ℕ := 256

/-- The first byte of a header: PN, S, E, PT and the version. -/
def headerFlags (npduNumFlag seqNumFlag extensions : Bool) : UInt8 :=
  UInt8.ofNat (npduNumFlag.toNat ||| seqNumFlag.toNat <<< 1 ||| extensions.toNat <<< 2 |||
    1 <<< 4 ||| 1 <<< 5)

/-- The optional fields. The sequence number is stored as it is. -/
def optFields (bearer : Gtpv1uBearer) (seqNumFlag npduNumFlag : Bool)
    (extensions : List GtpuExtensionHeader) : List UInt8 :=
  if npduNumFlag ∨ seqNumFlag ∨ extensions ≠ [] then
    let seqNum := if seqNumFlag then bearer.seqNum else 0
    [seqNum.toUInt8, (seqNum >>> 8).toUInt8, if npduNumFlag then bearer.npduNum else 0,
      serializeGtpuExtensionType (firstType extensions)]
  else []

/-- `gtpv1uCreateAndSendMsg`; the datagram that is sent is returned. -/
def gtpv1uCreateAndSendMsg (bearer : Gtpv1uBearer) (msgType : UInt8) (msg : List UInt8)
    (seqNumFlag npduNumFlag : Bool) (extensions : List GtpuExtensionHeader) :
    Outcome (List UInt8) := do
  assertFatal (msg.length + hdrMax < 65536)
  let size := msg.length + hdrMax
  let teid := bearer.teidOutgoing
  let header := [headerFlags npduNumFlag seqNumFlag (extensions ≠ []), msgType, 0, 0,
    (teid >>> 24).toUInt8, (teid >>> 16).toUInt8, (teid >>> 8).toUInt8, teid.toUInt8]
  let buffer := header ++ optFields bearer seqNumFlag npduNumFlag extensions
  let buffer ← serializeExtensions size buffer extensions
  Outcome.require (msg.length ≤ size - buffer.length)
  let buffer := buffer ++ msg
  let msgLength := (buffer.length - 8).toUInt16
  assertFatal (buffer.length - msg.length < hdrMax)
  return (buffer.set 2 (msgLength >>> 8).toUInt8).set 3 msgLength.toUInt8

/-! ### What is written -/

/-- The flags that the writer knows are the only ones that are set, and a QFI has 6 bits. -/
def GtpuExtensionHeader.Supported : GtpuExtensionHeader → Prop
  | none => False
  | ulPduSessionInformation ext =>
    ext = ⟨false, false, false, false, false, false, ext.qfi⟩ ∧ ext.qfi < 64
  | dlDataDeliveryStatus ext =>
    ext = ⟨ext.highestTransmittedNrPdcpSnInd, false, false, false, false, false, false, false,
      false, ext.desiredBufferSize, ext.highestTransmittedNrPdcpSn⟩
  | dlUserData ext =>
    ext = ⟨false, false, false, false, false, false, false, false, ext.nruSequenceNumber⟩

def GtpuExtensionHeader.qfi : GtpuExtensionHeader → Option UInt8
  | ulPduSessionInformation ext => some (UInt8.ofNat ext.qfi)
  | _ => Option.none

/-- The bytes of an extension, in front of one of a type. -/
def GtpuExtensionHeader.encoded (next : UInt8) : GtpuExtensionHeader → List UInt8
  | none => []
  | ulPduSessionInformation ext => [1, 0x10, UInt8.ofNat ext.qfi, next]
  | dlDataDeliveryStatus ext =>
    let size := ext.desiredBufferSize
    let sn := ext.highestTransmittedNrPdcpSn
    if ext.highestTransmittedNrPdcpSnInd then
      [3, 0x18, 0, (size >>> 24).toUInt8, (size >>> 16).toUInt8, (size >>> 8).toUInt8,
        size.toUInt8, (sn >>> 16).toUInt8, (sn >>> 8).toUInt8, sn.toUInt8, 0, next]
    else
      [2, 0x10, 0, (size >>> 24).toUInt8, (size >>> 16).toUInt8, (size >>> 8).toUInt8,
        size.toUInt8, next]
  | dlUserData ext =>
    let sn := ext.nruSequenceNumber
    [2, 0, 0, (sn >>> 16).toUInt8, (sn >>> 8).toUInt8, sn.toUInt8, 0, next]

/-- The bytes of some extensions. -/
def chain : List GtpuExtensionHeader → List UInt8
  | [] => []
  | ext :: extensions =>
    ext.encoded (serializeGtpuExtensionType (firstType extensions)) ++ chain extensions

variable {ext : GtpuExtensionHeader} {extensions : List GtpuExtensionHeader}

theorem GtpuExtensionHeader.length_encoded_le (ext : GtpuExtensionHeader) (next : UInt8) :
    (ext.encoded next).length ≤ 12 := by
  cases ext with
  | none => simp [encoded]
  | ulPduSessionInformation ext => simp [encoded]
  | dlDataDeliveryStatus ext =>
    rw [encoded]
    split_ifs <;> simp
  | dlUserData ext => simp [encoded]

theorem length_chain_le (extensions : List GtpuExtensionHeader) :
    (chain extensions).length ≤ 12 * extensions.length := by
  induction extensions with
  | nil => simp [chain]
  | cons ext extensions ih =>
    have hext := ext.length_encoded_le (serializeGtpuExtensionType (firstType extensions))
    rw [chain, List.length_append, List.length_cons]
    omega

theorem putByte_eq {b : ByteArrayProducer} (byte : UInt8) (h : b.buf.length < b.len) :
    putByte b byte = .done { b with buf := b.buf ++ [byte] } := by
  rw [putByte, Outcome.require, if_pos (Nat.ne_of_lt h)]
  rfl

theorem serializeExtension_eq (hsupported : ext.Supported) {outLen : ℕ} (hroom : 12 ≤ outLen)
    (next : GtpuExtensionHeaderType) :
    serializeExtension ext next outLen =
      .done (ext.encoded (serializeGtpuExtensionType next)) := by
  cases ext with
  | none => cases hsupported
  | ulPduSessionInformation ext =>
    obtain ⟨hext, -⟩ := hsupported
    rw [hext]
    simp (disch := simp; omega) [serializeExtension, serializeUlPduSessionInformation, assertFatal,
      putByte_eq, putPadding, GtpuExtensionHeader.encoded]
  | dlDataDeliveryStatus ext =>
    rw [hsupported]
    cases ext.highestTransmittedNrPdcpSnInd <;>
      simp (disch := simp; omega) [serializeExtension, serializeDlDataDeliveryStatus, assertFatal,
        putByte_eq, putU32Be, putU24Be, putPadding, GtpuExtensionHeader.encoded]
  | dlUserData ext =>
    rw [hsupported]
    simp (disch := simp; omega) [serializeExtension, serializeDlUserData, assertFatal,
      putByte_eq, putU24Be, putPadding, GtpuExtensionHeader.encoded]

theorem serializeExtensions_eq {size : ℕ} {buffer : List UInt8}
    (hsupported : ∀ ext ∈ extensions, ext.Supported)
    (hroom : buffer.length + 12 * extensions.length ≤ size) :
    serializeExtensions size buffer extensions = .done (buffer ++ chain extensions) := by
  induction extensions generalizing buffer with
  | nil => rw [serializeExtensions, chain, List.append_nil]
  | cons ext extensions ih =>
    rw [List.length_cons] at hroom
    have hlength := ext.length_encoded_le (serializeGtpuExtensionType (firstType extensions))
    rw [serializeExtensions, serializeExtension_eq (hsupported ext List.mem_cons_self) (by omega),
      Outcome.done_bind, ih (fun e he => hsupported e (List.mem_cons_of_mem _ he)), chain,
      List.append_assoc]
    rw [List.length_append]
    omega

/-- What comes before the extensions, with the length that is written last. -/
def headerBytes (bearer : Gtpv1uBearer) (msgType : UInt8) (seqNumFlag npduNumFlag : Bool)
    (extensions : List GtpuExtensionHeader) (msgLength : ℕ) : List UInt8 :=
  let teid := bearer.teidOutgoing
  [headerFlags npduNumFlag seqNumFlag (extensions ≠ []), msgType,
    (msgLength.toUInt16 >>> 8).toUInt8, msgLength.toUInt16.toUInt8, (teid >>> 24).toUInt8,
    (teid >>> 16).toUInt8, (teid >>> 8).toUInt8, teid.toUInt8] ++
    optFields bearer seqNumFlag npduNumFlag extensions

/-- The datagram that is sent. -/
def datagram (bearer : Gtpv1uBearer) (msgType : UInt8) (msg : List UInt8)
    (seqNumFlag npduNumFlag : Bool) (extensions : List GtpuExtensionHeader) : List UInt8 :=
  let opt := optFields bearer seqNumFlag npduNumFlag extensions
  headerBytes bearer msgType seqNumFlag npduNumFlag extensions
    (opt.length + (chain extensions).length + msg.length) ++ chain extensions ++ msg

theorem length_optFields (bearer : Gtpv1uBearer) (seqNumFlag npduNumFlag : Bool)
    (extensions : List GtpuExtensionHeader) :
    (optFields bearer seqNumFlag npduNumFlag extensions).length =
      if npduNumFlag ∨ seqNumFlag ∨ extensions ≠ [] then 4 else 0 := by
  rw [optFields]
  split_ifs <;> rfl

theorem length_optFields_le (bearer : Gtpv1uBearer) (seqNumFlag npduNumFlag : Bool)
    (extensions : List GtpuExtensionHeader) :
    (optFields bearer seqNumFlag npduNumFlag extensions).length ≤ 4 := by
  rw [length_optFields]
  split_ifs <;> simp

variable {bearer : Gtpv1uBearer} {msgType : UInt8} {msg : List UInt8}
    {seqNumFlag npduNumFlag : Bool}

theorem gtpv1uCreateAndSendMsg_eq (hsupported : ∀ ext ∈ extensions, ext.Supported)
    (hcount : extensions.length ≤ 20) (hmsg : msg.length + hdrMax < 65536) :
    gtpv1uCreateAndSendMsg bearer msgType msg seqNumFlag npduNumFlag extensions =
      .done (datagram bearer msgType msg seqNumFlag npduNumFlag extensions) := by
  have hopt := length_optFields_le bearer seqNumFlag npduNumFlag extensions
  have hchain := length_chain_le extensions
  have hmax : hdrMax = 256 := rfl
  rw [gtpv1uCreateAndSendMsg, assertFatal, if_pos hmsg, Outcome.done_bind]
  simp only []
  rw [serializeExtensions_eq hsupported, Outcome.done_bind, Outcome.require, if_pos,
    Outcome.done_bind, assertFatal, if_pos, Outcome.done_bind]
  · -- the length field is the number of bytes behind the header of 8 bytes
    have hlength : ∀ header : List UInt8, header.length = 8 →
        (header ++ optFields bearer seqNumFlag npduNumFlag extensions ++ chain extensions ++
          msg).length - 8 = (optFields bearer seqNumFlag npduNumFlag extensions).length +
            (chain extensions).length + msg.length := by
      intro header hheader
      simp only [List.length_append]
      omega
    rw [hlength _ rfl]
    rfl
  all_goals
    simp only [List.length_append, List.length_cons, List.length_nil]
    omega

/-! ### The walk over what was written -/

/-- An extension starts with its length in units of 4 bytes. -/
theorem GtpuExtensionHeader.Supported.length_encoded (hsupported : ext.Supported) (next : UInt8) :
    ((ext.encoded next).getD 0 0).toNat * 4 = (ext.encoded next).length ∧
      0 < (ext.encoded next).length := by
  cases ext with
  | none => cases hsupported
  | ulPduSessionInformation ext => exact ⟨rfl, Nat.zero_lt_succ _⟩
  | dlDataDeliveryStatus ext =>
    rw [encoded]
    split_ifs <;> exact ⟨rfl, Nat.zero_lt_succ _⟩
  | dlUserData ext => exact ⟨rfl, Nat.zero_lt_succ _⟩

/-- An extension ends with the type of the next one. -/
theorem GtpuExtensionHeader.Supported.last_encoded (hsupported : ext.Supported) (next : UInt8) :
    (ext.encoded next).getD ((ext.encoded next).length - 1) 0 = next := by
  cases ext with
  | none => cases hsupported
  | ulPduSessionInformation ext => rfl
  | dlDataDeliveryStatus ext =>
    rw [encoded]
    split_ifs <;> rfl
  | dlUserData ext => rfl

theorem qfi_and_mask {qfi : ℕ} (h : qfi < 64) :
    UInt8.ofNat qfi &&& 0x3f = UInt8.ofNat qfi ∧ UInt8.ofNat qfi &&& 0x40 = 0 := by
  revert qfi
  decide

/-- Only a session container changes what has been read so far. -/
theorem readContainer_encoded (hsupported : ext.Supported) {pre post : List UInt8} {next : UInt8}
    {st : GpduState} (hoffset : st.offset = pre.length) (hrqi : st.rqi = false)
    (htype : st.nextExtensionHeaderType = serializeGtpuExtensionType ext.type) :
    readContainer (pre ++ (ext.encoded next ++ post)) st =
      .done { st with qfi := ext.qfi.or st.qfi } := by
  have hbyte : ∀ j, j < (ext.encoded next).length →
      byteAt (pre ++ (ext.encoded next ++ post)) (st.offset + j) =
        .done ((ext.encoded next).getD j 0) :=
    fun j hj => byteAt_append (by rw [hoffset]) hj
  have hlength : (pre ++ (ext.encoded next ++ post)).length =
      st.offset + (ext.encoded next).length + post.length := by
    rw [hoffset, List.length_append, List.length_append, Nat.add_assoc]
  generalize pre ++ (ext.encoded next ++ post) = msgBuf at hbyte hlength ⊢
  cases ext with
  | none => cases hsupported
  | ulPduSessionInformation ext =>
    obtain ⟨hmask, hflag⟩ := qfi_and_mask hsupported.2
    replace htype : st.nextExtensionHeaderType = pduSessionContainer := htype
    have hsize : ((GtpuExtensionHeader.ulPduSessionInformation ext).encoded next).length = 4 := rfl
    have hqfi : byteAt msgBuf (st.offset + 2) = .done (UInt8.ofNat ext.qfi) :=
      hbyte 2 (by omega)
    rw [readContainer, if_pos htype, readPduSessionContainer, Outcome.require,
      if_pos (by omega), Outcome.done_bind, hqfi, Outcome.done_bind]
    simp [hmask, hflag, hrqi, GtpuExtensionHeader.qfi]
  | dlDataDeliveryStatus ext =>
    replace htype : st.nextExtensionHeaderType = nrRanContainer := htype
    have hnot : st.nextExtensionHeaderType ≠ pduSessionContainer := by
      rw [htype]
      decide
    have hpos : 3 < ((GtpuExtensionHeader.dlDataDeliveryStatus ext).encoded next).length := by
      rw [GtpuExtensionHeader.encoded]
      split_ifs <;> simp
    have htype' : ((GtpuExtensionHeader.dlDataDeliveryStatus ext).encoded next).getD 1 0 >>> 4 &&&
        0x0f ≠ 0 := by
      rw [GtpuExtensionHeader.encoded]
      split_ifs <;> simp <;> decide
    rw [readContainer, if_neg hnot, if_pos htype, readNrRanContainer, Outcome.require,
      if_pos (by omega), Outcome.done_bind, hbyte 1 (by omega), Outcome.done_bind, if_neg htype']
    rfl
  | dlUserData ext =>
    replace htype : st.nextExtensionHeaderType = nrRanContainer := htype
    have hnot : st.nextExtensionHeaderType ≠ pduSessionContainer := by
      rw [htype]
      decide
    have hsize : ((GtpuExtensionHeader.dlUserData ext).encoded next).length = 8 := rfl
    have htype' : ((GtpuExtensionHeader.dlUserData ext).encoded next).getD 1 0 >>> 4 &&&
        0x0f = 0 := by
      simp [GtpuExtensionHeader.encoded]
    rw [readContainer, if_neg hnot, if_pos htype, readNrRanContainer, Outcome.require,
      if_pos (by omega), Outcome.done_bind, hbyte 1 (by omega), Outcome.done_bind, if_pos htype',
      hbyte 2 (by omega), Outcome.done_bind, if_neg (by simp [GtpuExtensionHeader.encoded])]
    rfl

/-- One step of the walk, over an extension that was written. -/
theorem extHeader_encoded (hsupported : ext.Supported) {pre post : List UInt8} {next : UInt8}
    {st : GpduState} (hoffset : st.offset = pre.length) (hrqi : st.rqi = false)
    (htype : st.nextExtensionHeaderType = serializeGtpuExtensionType ext.type) :
    extHeader (pre ++ (ext.encoded next ++ post)) st =
      .done ⟨pre.length + (ext.encoded next).length, next, ext.qfi.or st.qfi, false,
        st.nrPdcpPduSn⟩ := by
  obtain ⟨hlen, hpos⟩ := hsupported.length_encoded next
  have hfirst : byteAt (pre ++ (ext.encoded next ++ post)) st.offset =
      .done ((ext.encoded next).getD 0 0) := byteAt_append (by rw [hoffset, Nat.add_zero]) hpos
  have hlast : byteAt (pre ++ (ext.encoded next ++ post))
      (st.offset + (ext.encoded next).length - 1) = .done next := by
    rw [byteAt_append (j := (ext.encoded next).length - 1) (by omega) (by omega),
      hsupported.last_encoded next]
  have hle : st.offset + (ext.encoded next).length ≤
      (pre ++ (ext.encoded next ++ post)).length := by
    simp only [hoffset, List.length_append]
    omega
  rw [extHeader, hfirst, Outcome.done_bind, readContainer_encoded hsupported hoffset hrqi htype,
    Outcome.done_bind]
  simp only [hlen]
  rw [Outcome.require, if_pos hle, Outcome.done_bind, hlast, Outcome.done_bind, hrqi, hoffset]
  rfl

/-- The last QFI of some extensions. -/
def sentQfi : List GtpuExtensionHeader → Option UInt8
  | [] => none
  | ext :: extensions => (sentQfi extensions).or ext.qfi

/-- The walk over extensions that were written. -/
theorem extHeaders_chain (hsupported : ∀ ext ∈ extensions, ext.Supported) (pre post : List UInt8)
    (st : GpduState) (hoffset : st.offset = pre.length) (hrqi : st.rqi = false)
    (htype : st.nextExtensionHeaderType = serializeGtpuExtensionType (firstType extensions)) :
    extHeaders (pre ++ (chain extensions ++ post)) (extensions.length + 1) st =
      some (.done ⟨pre.length + (chain extensions).length, noMoreExtHdrs,
        (sentQfi extensions).or st.qfi, false, st.nrPdcpPduSn⟩) := by
  induction extensions generalizing pre st with
  | nil =>
    obtain ⟨offset, type, qfi, rqi, sn⟩ := st
    obtain rfl : offset = pre.length := hoffset
    obtain rfl : rqi = false := hrqi
    obtain rfl : type = noMoreExtHdrs := htype
    rw [extHeaders, if_pos rfl]
    rfl
  | cons ext extensions ih =>
    have hmore : st.nextExtensionHeaderType ≠ noMoreExtHdrs := by
      have hext := hsupported ext List.mem_cons_self
      rw [htype]
      cases ext with
      | none => cases hext
      | ulPduSessionInformation ext => exact fun h => by cases h
      | dlDataDeliveryStatus ext => exact fun h => by cases h
      | dlUserData ext => exact fun h => by cases h
    rw [List.length_cons, extHeaders, if_neg hmore, chain, List.append_assoc,
      extHeader_encoded (hsupported ext List.mem_cons_self) hoffset hrqi htype]
    -- the rest of the chain starts behind the first extension
    have hrest := ih (fun e he => hsupported e (List.mem_cons_of_mem _ he))
      (pre ++ ext.encoded (serializeGtpuExtensionType (firstType extensions)))
      ⟨_, _, ext.qfi.or st.qfi, false, st.nrPdcpPduSn⟩ rfl rfl rfl
    rw [List.append_assoc, List.length_append] at hrest
    apply hrest.trans
    rw [List.length_append, Nat.add_assoc, sentQfi, Option.or_assoc]

/-! ### The header that was written -/

theorem be16_eq (hi lo : UInt8) : be16 hi lo = valueBE [hi, lo] := by
  rw [be16, shiftIn_eq, valueBE_cons, valueBE_cons]
  simp

theorem toNat_be32 (a b c d : UInt8) : (be32 a b c d).toNat = valueBE [a, b, c, d] := by
  have hnest : a.toNat <<< 24 ||| b.toNat <<< 16 ||| c.toNat <<< 8 ||| d.toNat =
      valueBE [a, b, c, d] := by
    simp only [valueBE, List.foldl, Nat.shiftLeft_or_distrib, ← Nat.shiftLeft_add]
    simp
  have ha := a.toNat_lt
  have hb := b.toNat_lt
  have hc := c.toNat_lt
  rw [be32]
  simp only [UInt32.toNat_or, UInt32.toNat_shiftLeft, UInt8.toNat_toUInt32, UInt32.reduceToNat,
    Nat.reduceMod]
  rw [← hnest, Nat.mod_eq_of_lt, Nat.mod_eq_of_lt, Nat.mod_eq_of_lt]
  all_goals
    rw [Nat.shiftLeft_eq]
    omega

/-- The TEID is read as it was written. -/
theorem be32_bytes (v : UInt32) :
    be32 (v >>> 24).toUInt8 (v >>> 16).toUInt8 (v >>> 8).toUInt8 v.toUInt8 = v := by
  have hbytes : [(v >>> 24).toUInt8, (v >>> 16).toUInt8, (v >>> 8).toUInt8, v.toUInt8] =
      bytesBE v.toNat 4 := by
    simp [bytesBE, ← UInt8.toNat_inj]
  apply UInt32.toNat_inj.mp
  rw [toNat_be32, hbytes, valueBE_bytesBE]
  exact Nat.mod_eq_of_lt v.toNat_lt

/-- The length is read as it was written. -/
theorem be16_bytes (v : UInt16) : be16 (v >>> 8).toUInt8 v.toUInt8 = v.toNat := by
  have hbytes : [(v >>> 8).toUInt8, v.toUInt8] = bytesBE v.toNat 2 := by
    simp [bytesBE, ← UInt8.toNat_inj]
  rw [be16_eq, hbytes, valueBE_bytesBE]
  exact Nat.mod_eq_of_lt v.toNat_lt

/-- Bytes in the other order are read as the number only if they are equal. -/
theorem be16_swapped_iff (v : UInt16) :
    be16 v.toUInt8 (v >>> 8).toUInt8 = v.toNat ↔ (v >>> 8).toUInt8 = v.toUInt8 := by
  have hright := be16_bytes v
  rw [be16_eq, valueBE_cons, valueBE_cons] at hright ⊢
  simp only [List.length_cons, List.length_nil, valueBE_nil] at hright ⊢
  rw [← UInt8.toNat_inj]
  have hhi := (v >>> 8).toUInt8.toNat_lt
  have hlo := v.toUInt8.toNat_lt
  omega

variable (bearer msgType msg seqNumFlag npduNumFlag extensions)

theorem length_headerBytes (msgLength : ℕ) :
    (headerBytes bearer msgType seqNumFlag npduNumFlag extensions msgLength).length =
      8 + (optFields bearer seqNumFlag npduNumFlag extensions).length := by
  rw [headerBytes, List.length_append]
  rfl

theorem length_datagram :
    (datagram bearer msgType msg seqNumFlag npduNumFlag extensions).length =
      8 + (optFields bearer seqNumFlag npduNumFlag extensions).length + (chain extensions).length +
        msg.length := by
  rw [datagram, List.length_append, List.length_append, length_headerBytes]

/-- The length field is right. -/
theorem receivedMessage_datagram (hcount : extensions.length ≤ 20)
    (hmsg : msg.length + hdrMax < 65536) :
    receivedMessage (datagram bearer msgType msg seqNumFlag npduNumFlag extensions) =
      some (messageType msgType) := by
  have hlength := length_datagram extensions bearer msgType msg seqNumFlag npduNumFlag
  have hopt := length_optFields_le bearer seqNumFlag npduNumFlag extensions
  have hchain := length_chain_le extensions
  have hmax : hdrMax = 256 := rfl
  have hnat : ((optFields bearer seqNumFlag npduNumFlag extensions).length +
      (chain extensions).length + msg.length).toUInt16.toNat =
        (optFields bearer seqNumFlag npduNumFlag extensions).length +
          (chain extensions).length + msg.length := by
    rw [Nat.toUInt16_eq, UInt16.toNat_ofNat']
    omega
  change (if be16 _ _ + 8 ≠ (datagram bearer msgType msg seqNumFlag npduNumFlag extensions).length
    then none else some (messageType msgType)) = _
  rw [be16_bytes, hlength, hnat, if_neg]
  omega

theorem headerFlags_spec (npduNumFlag seqNumFlag extensions : Bool) :
    isGtpV1 (headerFlags npduNumFlag seqNumFlag extensions) ∧
      (hasExtHeaders (headerFlags npduNumFlag seqNumFlag extensions) ↔ extensions) ∧
      (hasOptFields (headerFlags npduNumFlag seqNumFlag extensions) ↔
        npduNumFlag ∨ seqNumFlag ∨ extensions) := by
  revert npduNumFlag seqNumFlag extensions
  decide

variable {te2ueMapping : AList fun _ : UInt32 => UeidData} {uedata : UeidData}

/-- The walk starts behind the header, with the type of the first extension. -/
theorem startGpdu_datagram (hteid : te2ueMapping.lookup bearer.teidOutgoing = some uedata) :
    startGpdu te2ueMapping (datagram bearer msgType msg seqNumFlag npduNumFlag extensions) =
      .done (uedata, ⟨8 + (optFields bearer seqNumFlag npduNumFlag extensions).length,
        serializeGtpuExtensionType (firstType extensions), none, false, 0⟩) := by
  obtain ⟨hgtp, hext, hopt⟩ := headerFlags_spec npduNumFlag seqNumFlag (extensions ≠ [])
  rw [decide_eq_true_iff] at hext hopt
  have hteid' : te2ueMapping.lookup
      (teidOf (datagram bearer msgType msg seqNumFlag npduNumFlag extensions)) = some uedata := by
    rw [← hteid]
    exact congrArg te2ueMapping.lookup (be32_bytes bearer.teidOutgoing)
  have hlong : 8 ≤ (datagram bearer msgType msg seqNumFlag npduNumFlag extensions).length := by
    rw [length_datagram]
    omega
  have hflags : (datagram bearer msgType msg seqNumFlag npduNumFlag extensions).getD 0 0 =
      headerFlags npduNumFlag seqNumFlag (extensions ≠ []) := rfl
  have hstart := startGpdu_eq hlong hteid' (hflags ▸ hgtp)
  rw [hflags] at hstart
  have hoffset : (if hasOptFields (headerFlags npduNumFlag seqNumFlag (extensions ≠ []))
      then 12 else 8) = 8 + (optFields bearer seqNumFlag npduNumFlag extensions).length := by
    rw [length_optFields]
    by_cases hsome : npduNumFlag ∨ seqNumFlag ∨ extensions ≠ []
    · rw [if_pos hsome, if_pos (hopt.mpr hsome)]
    · rw [if_neg hsome, if_neg fun h => hsome (hopt.mp h)]
  rw [hoffset] at hstart
  rw [hstart]
  by_cases hsome : extensions = []
  · rw [if_neg fun h => hext.mp h hsome]
    subst hsome
    rfl
  · have hfields : npduNumFlag = true ∨ seqNumFlag = true ∨ extensions ≠ [] := .inr (.inr hsome)
    have hbyte : byteAt (datagram bearer msgType msg seqNumFlag npduNumFlag extensions)
        (8 + (optFields bearer seqNumFlag npduNumFlag extensions).length - 1) =
          .done (serializeGtpuExtensionType (firstType extensions)) := by
      rw [length_optFields, if_pos hfields, datagram, headerBytes, optFields, if_pos hfields]
      rfl
    rw [if_pos (hext.mpr hsome), hbyte]
    rfl

theorem extHeaders_datagram (hsupported : ∀ ext ∈ extensions, ext.Supported) :
    extHeaders (datagram bearer msgType msg seqNumFlag npduNumFlag extensions)
        (extensions.length + 1) ⟨8 + (optFields bearer seqNumFlag npduNumFlag extensions).length,
          serializeGtpuExtensionType (firstType extensions), none, false, 0⟩ =
      some (.done ⟨(datagram bearer msgType msg seqNumFlag npduNumFlag extensions).length -
        msg.length, noMoreExtHdrs, sentQfi extensions, false, 0⟩) := by
  have hwalk := extHeaders_chain hsupported (headerBytes bearer msgType seqNumFlag npduNumFlag
    extensions ((optFields bearer seqNumFlag npduNumFlag extensions).length +
      (chain extensions).length + msg.length)) msg
    ⟨8 + (optFields bearer seqNumFlag npduNumFlag extensions).length,
      serializeGtpuExtensionType (firstType extensions), none, false, 0⟩
    (length_headerBytes _ _ _ _ _ _).symm rfl rfl
  rw [← List.append_assoc, length_headerBytes, Option.or_none] at hwalk
  rw [length_datagram, Nat.add_sub_cancel]
  exact hwalk

/-- The payload is what is left behind the headers. -/
theorem drop_datagram :
    (datagram bearer msgType msg seqNumFlag npduNumFlag extensions).drop
      ((datagram bearer msgType msg seqNumFlag npduNumFlag extensions).length - msg.length) =
        msg := by
  rw [datagram, List.length_append, Nat.add_sub_cancel]
  exact List.drop_left

/-! ### Round trips -/

/-- The delivery of an SDU in a tunnel: with a QFI by the callback for SDAP, without one by the
other. -/
def deliveryOf (uedata : UeidData) (sdu : List UInt8) : Option UInt8 → Option GpduDelivery
  | some qfi => uedata.callBackSDAP.map fun callBackSDAP =>
      .sdap callBackSDAP uedata.ueId sdu qfi false uedata.pdusessionId
  | none => uedata.callBack.map fun callBack =>
      .direct callBack uedata.ueId uedata.incomingRbId sdu

/-- The sequence number, as `Gtpv1uHandleEchoReq` reads it. -/
def readSeqNum (msgBuf : List UInt8) : Outcome ℕ := do
  let flags ← byteAt msgBuf 0
  Outcome.require (isGtpV1 flags)
  Outcome.require (flags &&& 0x02 ≠ 0)
  let hi ← byteAt msgBuf 8
  let lo ← byteAt msgBuf 9
  return be16 hi lo

/-- A datagram is sent, is accepted, and delivers the payload with its QFI in the tunnel; a
sequence number is read as it was sent. -/
def RoundTrips (te2ueMapping : AList fun _ : UInt32 => UeidData) (bearer : Gtpv1uBearer)
    (payload : List UInt8) (seqNumFlag npduNumFlag : Bool)
    (extensions : List GtpuExtensionHeader) : Prop :=
  ∃ sent, gtpv1uCreateAndSendMsg bearer 255 payload seqNumFlag npduNumFlag extensions =
      .done sent ∧
    receivedMessage sent = some .gpdu ∧
    (∃ uedata delivery fuel, te2ueMapping.lookup bearer.teidOutgoing = some uedata ∧
      deliveryOf uedata payload (sentQfi extensions) = some delivery ∧
      gtpv1uHandleGpdu te2ueMapping sent fuel = some (.done ⟨some delivery, none⟩)) ∧
    (seqNumFlag → readSeqNum sent = .done bearer.seqNum.toNat)

theorem readSeqNum_datagram :
    readSeqNum (datagram bearer msgType msg true npduNumFlag extensions) =
      .done (be16 bearer.seqNum.toUInt8 (bearer.seqNum >>> 8).toUInt8) := by
  have hflags : ∀ npduNumFlag extensions, isGtpV1 (headerFlags npduNumFlag true extensions) ∧
      headerFlags npduNumFlag true extensions &&& 0x02 ≠ 0 := by
    decide
  obtain ⟨hgtp, hseq⟩ := hflags npduNumFlag (extensions ≠ [])
  have hopt : optFields bearer true npduNumFlag extensions =
      [bearer.seqNum.toUInt8, (bearer.seqNum >>> 8).toUInt8,
        if npduNumFlag then bearer.npduNum else 0,
        serializeGtpuExtensionType (firstType extensions)] := if_pos (.inr (.inl rfl))
  rw [datagram, headerBytes, hopt]
  change (Outcome.require (isGtpV1 (headerFlags npduNumFlag true (extensions ≠ []))) >>= fun _ =>
    Outcome.require (headerFlags npduNumFlag true (extensions ≠ []) &&& 0x02 ≠ 0) >>= fun _ =>
      _) = _
  rw [Outcome.require, if_pos hgtp, Outcome.done_bind, Outcome.require, if_pos hseq]
  rfl

theorem finishGpdu_datagram (hmsg : msg ≠ []) {delivery : GpduDelivery}
    (hdelivery : deliveryOf uedata msg (sentQfi extensions) = some delivery) :
    finishGpdu uedata (datagram bearer msgType msg seqNumFlag npduNumFlag extensions)
        ⟨(datagram bearer msgType msg seqNumFlag npduNumFlag extensions).length - msg.length,
          noMoreExtHdrs, sentQfi extensions, false, 0⟩ = .done ⟨some delivery, none⟩ := by
  have hpos := List.length_pos_of_ne_nil hmsg
  have hlong : msg.length ≤
      (datagram bearer msgType msg seqNumFlag npduNumFlag extensions).length := by
    rw [length_datagram]
    omega
  have hdrop := drop_datagram extensions bearer msgType msg seqNumFlag npduNumFlag
  generalize datagram bearer msgType msg seqNumFlag npduNumFlag extensions = sent at hlong hdrop ⊢
  have hsize : (sent.length : ℤ) - (sent.length - msg.length : ℕ) > 0 := by omega
  rw [finishGpdu]
  simp only [if_pos hsize, hdrop]
  cases hqfi : sentQfi extensions with
  | some qfi =>
    rw [hqfi, deliveryOf] at hdelivery
    obtain ⟨callBackSDAP, hcallBack, hdelivery⟩ := Option.map_eq_some_iff.mp hdelivery
    rw [hcallBack, ← hdelivery]
    rfl
  | none =>
    rw [hqfi, deliveryOf] at hdelivery
    obtain ⟨callBack, hcallBack, hdelivery⟩ := Option.map_eq_some_iff.mp hdelivery
    rw [hcallBack, ← hdelivery]
    simp

/-- The tunnel of a TEID has the callback that payload with a QFI, or without one, goes to. -/
def HasCallBack (te2ueMapping : AList fun _ : UInt32 => UeidData) (teid : UInt32)
    (qfi : Option UInt8) : Prop :=
  ∃ uedata, te2ueMapping.lookup teid = some uedata ∧
    if qfi.isSome then uedata.callBackSDAP.isSome else uedata.callBack.isSome

theorem isSome_deliveryOf (uedata : UeidData) (sdu : List UInt8) (qfi : Option UInt8) :
    (deliveryOf uedata sdu qfi).isSome ↔
      if qfi.isSome then uedata.callBackSDAP.isSome else uedata.callBack.isSome := by
  cases qfi <;> simp [deliveryOf]

/-- The payload is delivered by the callback that is there for it. -/
theorem gtpv1uHandleGpdu_datagram (hteid : te2ueMapping.lookup bearer.teidOutgoing = some uedata)
    (hmsg : msg ≠ []) (hsupported : ∀ ext ∈ extensions, ext.Supported) {delivery : GpduDelivery}
    (hdelivery : deliveryOf uedata msg (sentQfi extensions) = some delivery) :
    gtpv1uHandleGpdu te2ueMapping (datagram bearer msgType msg seqNumFlag npduNumFlag extensions)
      (extensions.length + 1) = some (.done ⟨some delivery, none⟩) := by
  rw [gtpv1uHandleGpdu, startGpdu_datagram _ _ _ _ _ _ hteid]
  change (extHeaders _ _ _).map _ = _
  rw [extHeaders_datagram _ _ _ _ _ _ hsupported]
  exact congrArg some (finishGpdu_datagram _ _ _ _ _ _ hmsg hdelivery)

/-- Exactly a sequence number with two different bytes is not read as it was sent. -/
theorem roundTrips_iff (te2ueMapping : AList fun _ : UInt32 => UeidData) (bearer : Gtpv1uBearer)
    (payload : List UInt8) (seqNumFlag npduNumFlag : Bool)
    (extensions : List GtpuExtensionHeader) (hpayload : payload ≠ [])
    (hlimit : payload.length + hdrMax < 65536) (hcount : extensions.length ≤ 20)
    (hsupported : ∀ ext ∈ extensions, ext.Supported) :
    RoundTrips te2ueMapping bearer payload seqNumFlag npduNumFlag extensions ↔
      HasCallBack te2ueMapping bearer.teidOutgoing (sentQfi extensions) ∧
        (seqNumFlag → (bearer.seqNum >>> 8).toUInt8 = bearer.seqNum.toUInt8) := by
  have hsend : gtpv1uCreateAndSendMsg bearer 255 payload seqNumFlag npduNumFlag extensions =
      .done (datagram bearer 255 payload seqNumFlag npduNumFlag extensions) :=
    gtpv1uCreateAndSendMsg_eq hsupported hcount hlimit
  constructor
  · rintro ⟨sent, hsent, -, ⟨uedata, delivery, -, hteid, hdelivery, -⟩, hseq⟩
    refine ⟨⟨uedata, hteid, ?_⟩, ?_⟩
    · rw [← isSome_deliveryOf uedata payload, hdelivery]
      rfl
    · rintro rfl
      obtain rfl : datagram bearer 255 payload true npduNumFlag extensions = sent :=
        Outcome.done.inj (hsend.symm.trans hsent)
      rw [← be16_swapped_iff]
      rw [readSeqNum_datagram] at hseq
      exact Outcome.done.inj (hseq rfl)
  · rintro ⟨⟨uedata, hteid, hcallBack⟩, hseq⟩
    obtain ⟨delivery, hdelivery⟩ := Option.isSome_iff_exists.mp
      ((isSome_deliveryOf uedata payload (sentQfi extensions)).mpr hcallBack)
    refine ⟨_, hsend, receivedMessage_datagram _ _ _ _ _ _ hcount hlimit,
      ⟨uedata, delivery, _, hteid, hdelivery,
        gtpv1uHandleGpdu_datagram _ _ _ _ _ _ hteid hpayload hsupported hdelivery⟩, ?_⟩
    rintro rfl
    rw [readSeqNum_datagram, (be16_swapped_iff _).mpr (hseq rfl)]

def sessionInformation : GtpuExtensionHeader :=
  .ulPduSessionInformation ⟨false, false, false, false, false, false, 5⟩

/-- A bearer towards TEID 1 with a sequence number. -/
def sessionBearer (seqNum : UInt16) : Gtpv1uBearer :=
  ⟨5, ([127, 0, 0, 1], 2152), 3, 1, seqNum, 9, 0⟩

theorem supported_sessionInformation : ∀ ext ∈ [sessionInformation], ext.Supported := by
  intro ext hext
  obtain rfl := List.mem_singleton.mp hext
  exact ⟨rfl, by decide⟩

theorem hasCallBack_sessionInformation :
    HasCallBack sessionTunnel 1 (sentQfi [sessionInformation]) := ⟨_, rfl, rfl⟩

example : gtpv1uCreateAndSendMsg (sessionBearer 0x0102) 255 [7, 8] true false
    [sessionInformation] =
      .done [0x36, 255, 0, 10, 0, 0, 0, 1, 0x02, 0x01, 0, 0x85, 1, 0x10, 5, 0, 7, 8] := by
  decide

theorem roundTrips_iff_session :
    RoundTrips sessionTunnel (sessionBearer 0x0101) [7, 8] true false [sessionInformation] := by
  apply (roundTrips_iff sessionTunnel (sessionBearer 0x0101) [7, 8] true false
    [sessionInformation] (by decide) (by decide) (by decide) supported_sessionInformation).mpr
  exact ⟨hasCallBack_sessionInformation, fun _ => rfl⟩

/-- The lists of extensions that are sent: at most one, or a session container and another one. -/
def SentExtensions (extensions : List GtpuExtensionHeader) : Prop :=
  (∀ ext ∈ extensions, ext.Supported) ∧
    (extensions.length ≤ 1 ∨ ∃ first second, extensions = [first, second] ∧
      first.type = .ulPduSessionInformation ∧ second.type ≠ .ulPduSessionInformation)

/-- Every datagram that is sent to a tunnel for it is received as it was sent. -/
def AlwaysRoundTrips : Prop :=
  ∀ te2ueMapping bearer payload seqNumFlag npduNumFlag extensions, payload ≠ [] →
    payload.length + hdrMax < 65536 → SentExtensions extensions →
    HasCallBack te2ueMapping bearer.teidOutgoing (sentQfi extensions) →
    RoundTrips te2ueMapping bearer payload seqNumFlag npduNumFlag extensions

/-- The sequence number 1 is read as 256. -/
theorem not_alwaysRoundTrips : ¬ AlwaysRoundTrips := by
  intro hall
  have hsends : SentExtensions [sessionInformation] :=
    ⟨supported_sessionInformation, .inl (by decide)⟩
  obtain ⟨sent, hsent, -, -, hseq⟩ := hall sessionTunnel (sessionBearer 1) [7, 8] true false
    [sessionInformation] (by decide) (by decide) hsends hasCallBack_sessionInformation
  obtain rfl : datagram (sessionBearer 1) 255 [7, 8] true false [sessionInformation] = sent :=
    Outcome.done.inj ((gtpv1uCreateAndSendMsg_eq supported_sessionInformation (by decide)
      (by decide)).symm.trans hsent)
  have hread := readSeqNum_datagram [sessionInformation] (sessionBearer 1) 255 [7, 8] false
  rw [hseq rfl] at hread
  exact absurd (Outcome.done.inj hread) (by decide)

end LlmHric.Gtpu
