import LlmHric.Gtpu.Tunnels
import LlmHric.Library.TracedReads
import Mathlib.Data.List.Infix

/-! A datagram with payload is a header of 8 bytes, 4 more bytes if one of three flags is set, and a
chain of extension headers. An extension header starts with its length in units of 4 bytes and ends
with the type of the next one. The walk along the chain checks some bounds and not others, and a
header of length 0 is visited again and again. -/

namespace LlmHric.Gtpu

open Checked

/-- A number of 16 bits in network byte order, `ntohs`. -/
def be16 (hi lo : UInt8) : ℕ := hi.toNat <<< 8 ||| lo.toNat

/-- A number of 32 bits in network byte order, `ntohl`. -/
def be32 (a b c d : UInt8) : UInt32 :=
  a.toUInt32 <<< 24 ||| b.toUInt32 <<< 16 ||| c.toUInt32 <<< 8 ||| d.toUInt32

/-- The message types. -/
inductive GtpMessage
  | echoReq
  | echoRsp
  | errorIndication
  | supportedExtensionHeaderIndication
  | endMarker
  | gpdu
  | unknown
  deriving DecidableEq

def messageType (msgType : UInt8) : GtpMessage :=
  if msgType = 2 then .echoRsp
  else if msgType = 1 then .echoReq
  else if msgType = 26 then .errorIndication
  else if msgType = 31 then .supportedExtensionHeaderIndication
  else if msgType = 254 then .endMarker
  else if msgType = 255 then .gpdu
  else .unknown

/-- The message in a datagram whose length field is right, in `gtpv1uReceiveHandleMessage`. -/
def receivedMessage (udpData : List UInt8) : Option GtpMessage :=
  match udpData with
  | _ :: msgType :: hi :: lo :: _ :: _ :: _ :: _ :: _ =>
    if be16 hi lo + 8 ≠ udpData.length then none else some (messageType msgType)
  | _ => none

/-! ### Extension headers -/

/-- `NO_MORE_EXT_HDRS` -/
def noMoreExtHdrs : UInt8 := 0

/-- `NR_RAN_CONTAINER` -/
def nrRanContainer : UInt8 := 0x84

/-- `PDU_SESSION_CONTAINER` -/
def pduSessionContainer : UInt8 := 0x85

/-- The variables of the walk. The QFI is -1, here `none`, until a container brings one. -/
structure GpduState where
  offset : ℕ
  nextExtensionHeaderType : UInt8
  qfi : Option UInt8
  rqi : Bool
  nrPdcpPduSn : ℕ
  deriving DecidableEq

/-- The case `PDU_SESSION_CONTAINER`. -/
def readPduSessionContainer (msgBuf : List UInt8) (st : GpduState) : Outcome GpduState := do
  Outcome.require (st.offset + 2 ≤ msgBuf.length)
  let b ← byteAt msgBuf (st.offset + 2)
  return { st with qfi := some (b &&& 0x3f), rqi := b &&& 0x40 ≠ 0 }

/-- `additional_offset` -/
def additionalOffset (b : UInt8) : ℕ :=
  6 + (if b >>> 2 &&& 1 ≠ 0 then 9 else 0) + if b >>> 1 &&& 1 ≠ 0 then 3 else 0

/-- The case `NR_RAN_CONTAINER`. -/
def readNrRanContainer (msgBuf : List UInt8) (st : GpduState) : Outcome GpduState := do
  Outcome.require (st.offset + 1 ≤ msgBuf.length)
  let b ← byteAt msgBuf (st.offset + 1)
  if b >>> 4 &&& 0x0f = 0 then
    let b' ← byteAt msgBuf (st.offset + 2)
    if b' >>> 3 &&& 1 ≠ 0 then
      let sn₁ ← byteAt msgBuf (st.offset + additionalOffset b)
      let sn₂ ← byteAt msgBuf (st.offset + additionalOffset b + 1)
      let sn₃ ← byteAt msgBuf (st.offset + additionalOffset b + 2)
      return { st with nrPdcpPduSn := sn₁.toNat <<< 16 ||| sn₂.toNat <<< 8 ||| sn₃.toNat }
    else return st
  else return st

/-- What the walk takes from a container. -/
def readContainer (msgBuf : List UInt8) (st : GpduState) : Outcome GpduState :=
  if st.nextExtensionHeaderType = pduSessionContainer then readPduSessionContainer msgBuf st
  else if st.nextExtensionHeaderType = nrRanContainer then readNrRanContainer msgBuf st
  else pure st

/-- One extension header. -/
def extHeader (msgBuf : List UInt8) (st : GpduState) : Outcome GpduState := do
  let extensionHeaderLength ← byteAt msgBuf st.offset
  let st ← readContainer msgBuf st
  let offset := st.offset + extensionHeaderLength.toNat * 4
  Outcome.require (offset ≤ msgBuf.length)
  let nextExtensionHeaderType ← byteAt msgBuf (offset - 1)
  return { st with offset, nextExtensionHeaderType }

/-- The loop over the extension headers, for a number of steps; `none` while it has not ended. -/
def extHeaders (msgBuf : List UInt8) : ℕ → GpduState → Option (Outcome GpduState)
  | 0, _ => none
  | fuel + 1, st =>
    if st.nextExtensionHeaderType = noMoreExtHdrs then some (.done st)
    else
      match extHeader msgBuf st with
      | .done st => extHeaders msgBuf fuel st
      | .refused => some .refused
      | .fault f => some (.fault f)

/-! ### Payload -/

/-- An SDU that is handed to a callback. -/
inductive GpduDelivery
  | sdap (callBackSDAP : ℕ) (ueId : ℕ) (sdu : List UInt8) (qfi : UInt8) (rqi : Bool)
      (pdusessionId : UInt16)
  | direct (callBack : ℕ) (ueId : ℕ) (rbId : UInt16) (sdu : List UInt8)
  deriving DecidableEq

/-- The bytes that are delivered. -/
def GpduDelivery.sdu : GpduDelivery → List UInt8
  | sdap _ _ sdu _ _ _ => sdu
  | direct _ _ _ sdu => sdu

def GpduDelivery.qfi : GpduDelivery → Option UInt8
  | sdap _ _ _ qfi _ _ => some qfi
  | direct _ _ _ _ => none

/-- What becomes of a datagram: an SDU may be delivered, and a delivery status report for a PDCP
sequence number may be sent to a TEID. -/
structure GpduResult where
  delivery : Option GpduDelivery
  report : Option (UInt32 × ℕ)
  deriving DecidableEq

/-- The end of `Gtpv1uHandleGpdu`. The size of the SDU is a signed number. -/
def finishGpdu (uedata : UeidData) (msgBuf : List UInt8) (st : GpduState) : Outcome GpduResult :=
  let sduBufferSize : ℤ := msgBuf.length - st.offset
  let report :=
    if uedata.callBackSDAP = none ∧ st.nrPdcpPduSn > 0 ∧ st.nrPdcpPduSn % 5 = 0 then
      some (uedata.outgoingTeid, st.nrPdcpPduSn)
    else none
  if sduBufferSize > 0 then
    match st.qfi, uedata.callBackSDAP with
    | some qfi, some callBackSDAP =>
      .done ⟨some (.sdap callBackSDAP uedata.ueId (msgBuf.drop st.offset) qfi st.rqi
        uedata.pdusessionId), report⟩
    | some _, none => .fault .assertion
    | none, _ =>
      match uedata.callBack with
      | some callBack =>
        .done ⟨some (.direct callBack uedata.ueId uedata.incomingRbId
          (msgBuf.drop st.offset)), report⟩
      | none => .fault .nullPointer
  else .done ⟨none, report⟩

/-- The flags E, S and PN, in the bits 2, 1 and 0. -/
def hasOptFields (flags : UInt8) : Prop := flags &&& 0x07 ≠ 0

instance (flags : UInt8) : Decidable (hasOptFields flags) := inferInstanceAs (Decidable (_ ≠ _))

/-- The flag E. -/
def hasExtHeaders (flags : UInt8) : Prop := flags &&& 0x04 ≠ 0

instance (flags : UInt8) : Decidable (hasExtHeaders flags) := inferInstanceAs (Decidable (_ ≠ _))

def isGtpV1 (flags : UInt8) : Prop := flags >>> 5 = 1 ∧ flags &&& 0x10 ≠ 0

instance (flags : UInt8) : Decidable (isGtpV1 flags) := inferInstanceAs (Decidable (_ ∧ _))

/-- The start of `Gtpv1uHandleGpdu`: the tunnel, and where the walk starts. -/
def startGpdu (te2ueMapping : AList fun _ : UInt32 => UeidData) (msgBuf : List UInt8) :
    Outcome (UeidData × GpduState) := do
  let flags ← byteAt msgBuf 0
  Outcome.require (isGtpV1 flags)
  let teid₁ ← byteAt msgBuf 4
  let teid₂ ← byteAt msgBuf 5
  let teid₃ ← byteAt msgBuf 6
  let teid₄ ← byteAt msgBuf 7
  match te2ueMapping.lookup (be32 teid₁ teid₂ teid₃ teid₄) with
  | none => .refused
  | some uedata =>
    let offset := if hasOptFields flags then 12 else 8
    let nextExtensionHeaderType ←
      if hasExtHeaders flags then byteAt msgBuf (offset - 1) else pure noMoreExtHdrs
    return (uedata, ⟨offset, nextExtensionHeaderType, none, false, 0⟩)

/-- `Gtpv1uHandleGpdu`, with a number of steps for the loop; `none` while it has not ended. -/
def gtpv1uHandleGpdu (te2ueMapping : AList fun _ : UInt32 => UeidData) (msgBuf : List UInt8)
    (fuel : ℕ) : Option (Outcome GpduResult) :=
  match startGpdu te2ueMapping msgBuf with
  | .done (uedata, st) => (extHeaders msgBuf fuel st).map (· >>= finishGpdu uedata msgBuf)
  | .refused => some .refused
  | .fault f => some (.fault f)

/-- The handling of a datagram ends, reads only bytes of the datagram, and delivers a non-empty
suffix of it, if anything. -/
def Safe (te2ueMapping : AList fun _ : UInt32 => UeidData) (msgBuf : List UInt8) : Prop :=
  ∃ fuel outcome, gtpv1uHandleGpdu te2ueMapping msgBuf fuel = some outcome ∧
    outcome ≠ .fault .outOfBounds ∧
    ∀ result, outcome = .done result → ∀ delivery, result.delivery = some delivery →
      delivery.sdu <:+ msgBuf ∧ 0 < delivery.sdu.length ∧ delivery.sdu.length ≤ msgBuf.length

/-- What is read of an extension header lies in the datagram. -/
def HeaderFits (msgBuf : List UInt8) (offset : ℕ) (type : UInt8) : Prop :=
  offset < msgBuf.length ∧
    if type = pduSessionContainer then offset + 2 ≠ msgBuf.length
    else if type = nrRanContainer then
      offset + 1 < msgBuf.length ∧ (msgBuf.getD (offset + 1) 0 >>> 4 &&& 0x0f = 0 →
        offset + 2 < msgBuf.length ∧ (msgBuf.getD (offset + 2) 0 >>> 3 &&& 1 ≠ 0 →
          offset + additionalOffset (msgBuf.getD (offset + 1) 0) + 2 < msgBuf.length))
    else True

/-- An extension header is left before it has been read. -/
def Truncated (msgBuf : List UInt8) (offset : ℕ) (type : UInt8) : Prop :=
  type = pduSessionContainer ∧ msgBuf.length < offset + 2

/-- Where the next extension header starts. -/
def nextOffset (msgBuf : List UInt8) (offset : ℕ) : ℕ :=
  offset + (msgBuf.getD offset 0).toNat * 4

/-- A chain leads to a header that does not fit into the datagram, or has length 0. -/
inductive BadFrom (msgBuf : List UInt8) : ℕ → UInt8 → Prop
  | field {offset : ℕ} {type : UInt8} (htype : type ≠ noMoreExtHdrs)
      (hfits : ¬ HeaderFits msgBuf offset type) : BadFrom msgBuf offset type
  | zero {offset : ℕ} {type : UInt8} (htype : type ≠ noMoreExtHdrs)
      (hfits : HeaderFits msgBuf offset type) (htruncated : ¬ Truncated msgBuf offset type)
      (hzero : msgBuf.getD offset 0 = 0) : BadFrom msgBuf offset type
  | next {offset : ℕ} {type : UInt8} (htype : type ≠ noMoreExtHdrs)
      (hfits : HeaderFits msgBuf offset type) (htruncated : ¬ Truncated msgBuf offset type)
      (hle : nextOffset msgBuf offset ≤ msgBuf.length)
      (hnext : BadFrom msgBuf (nextOffset msgBuf offset)
        (msgBuf.getD (nextOffset msgBuf offset - 1) 0)) : BadFrom msgBuf offset type

/-- A datagram announces extension headers that it has no room for, or whose chain is bad. -/
def BadDatagram (msgBuf : List UInt8) : Prop :=
  isGtpV1 (msgBuf.getD 0 0) ∧ hasExtHeaders (msgBuf.getD 0 0) ∧
    (msgBuf.length < 12 ∨ BadFrom msgBuf 12 (msgBuf.getD 11 0))

variable {msgBuf : List UInt8} {st st' : GpduState} {fuel : ℕ}

/-! ### One extension header -/

theorem readContainer_fits (hfits : HeaderFits msgBuf st.offset st.nextExtensionHeaderType)
    (htruncated : ¬ Truncated msgBuf st.offset st.nextExtensionHeaderType) :
    ∃ st', readContainer msgBuf st = .done st' ∧ st'.offset = st.offset := by
  obtain ⟨hoffset, hfields⟩ := hfits
  rw [readContainer]
  by_cases hsession : st.nextExtensionHeaderType = pduSessionContainer
  · rw [if_pos hsession] at hfields ⊢
    have hle : st.offset + 2 ≤ msgBuf.length := Nat.not_lt.mp fun hlt => htruncated ⟨hsession, hlt⟩
    have hlt : st.offset + 2 < msgBuf.length := Nat.lt_of_le_of_ne hle hfields
    rw [readPduSessionContainer, Outcome.require, if_pos hle, Outcome.done_bind, byteAt_of_lt hlt]
    exact ⟨_, rfl, rfl⟩
  · rw [if_neg hsession] at hfields ⊢
    by_cases hran : st.nextExtensionHeaderType = nrRanContainer
    · rw [if_pos hran] at hfields ⊢
      obtain ⟨hfirst, hfields⟩ := hfields
      rw [readNrRanContainer, Outcome.require, if_pos (Nat.le_of_lt hfirst), Outcome.done_bind,
        byteAt_of_lt hfirst, Outcome.done_bind]
      split_ifs with htype
      · obtain ⟨hsecond, hfields⟩ := hfields htype
        rw [byteAt_of_lt hsecond, Outcome.done_bind]
        split_ifs with hreport
        · have hthird := hfields hreport
          rw [byteAt_of_lt (by omega), Outcome.done_bind, byteAt_of_lt (by omega),
            Outcome.done_bind, byteAt_of_lt hthird]
          exact ⟨_, rfl, rfl⟩
        · exact ⟨st, rfl, rfl⟩
      · exact ⟨st, rfl, rfl⟩
    · rw [if_neg hran]
      exact ⟨st, rfl, rfl⟩

theorem readContainer_not_fits (hoffset : st.offset < msgBuf.length)
    (hfits : ¬ HeaderFits msgBuf st.offset st.nextExtensionHeaderType) :
    readContainer msgBuf st = .fault .outOfBounds := by
  rw [HeaderFits, not_and] at hfits
  have hfields := hfits hoffset
  rw [readContainer]
  by_cases hsession : st.nextExtensionHeaderType = pduSessionContainer
  · rw [if_pos hsession] at hfields ⊢
    have hle : st.offset + 2 ≤ msgBuf.length := Nat.le_of_eq (not_not.mp hfields)
    rw [readPduSessionContainer, Outcome.require, if_pos hle, Outcome.done_bind,
      byteAt_of_le (Nat.le_of_eq (not_not.mp hfields).symm)]
    rfl
  · rw [if_neg hsession] at hfields ⊢
    by_cases hran : st.nextExtensionHeaderType = nrRanContainer
    · rw [if_pos hran] at hfields ⊢
      rw [readNrRanContainer, Outcome.require, if_pos (Nat.succ_le_of_lt hoffset),
        Outcome.done_bind]
      by_cases hfirst : st.offset + 1 < msgBuf.length
      · rw [byteAt_of_lt hfirst, Outcome.done_bind]
        rw [not_and, Classical.not_imp] at hfields
        obtain ⟨htype, hfields⟩ := hfields hfirst
        rw [if_pos htype]
        by_cases hsecond : st.offset + 2 < msgBuf.length
        · rw [not_and, Classical.not_imp] at hfields
          obtain ⟨hreport, hthird⟩ := hfields hsecond
          rw [byteAt_of_lt hsecond, Outcome.done_bind, if_pos hreport]
          generalize additionalOffset _ = additional at hthird ⊢
          -- the three bytes are read one after the other
          rcases byteAt_cases msgBuf (st.offset + additional) with hread | ⟨b, hread⟩ <;>
            rw [hread]
          · rfl
          · rcases byteAt_cases msgBuf (st.offset + additional + 1) with hread | ⟨b, hread⟩ <;>
              rw [Outcome.done_bind, hread]
            · rfl
            · rw [Outcome.done_bind, byteAt_of_le (Nat.not_lt.mp hthird)]
              rfl
        · rw [byteAt_of_le (Nat.not_lt.mp hsecond)]
          rfl
      · rw [byteAt_of_le (Nat.not_lt.mp hfirst)]
        rfl
    · rw [if_neg hran] at hfields
      exact absurd trivial hfields

/-- The walk goes on at the next header, unless the datagram is refused or read beyond its end. -/
theorem extHeader_spec (hpos : 0 < st.offset) :
    extHeader msgBuf st = .fault .outOfBounds ∧
        ¬ HeaderFits msgBuf st.offset st.nextExtensionHeaderType ∨
      HeaderFits msgBuf st.offset st.nextExtensionHeaderType ∧
        (extHeader msgBuf st = .refused ∧
            (Truncated msgBuf st.offset st.nextExtensionHeaderType ∨
              msgBuf.length < nextOffset msgBuf st.offset) ∨
          ¬ Truncated msgBuf st.offset st.nextExtensionHeaderType ∧
            nextOffset msgBuf st.offset ≤ msgBuf.length ∧
            ∃ st', extHeader msgBuf st = .done st' ∧
              st'.offset = nextOffset msgBuf st.offset ∧
              st'.nextExtensionHeaderType =
                msgBuf.getD (nextOffset msgBuf st.offset - 1) 0) := by
  rw [extHeader]
  by_cases hoffset : st.offset < msgBuf.length
  · rw [byteAt_of_lt hoffset, Outcome.done_bind]
    by_cases hfits : HeaderFits msgBuf st.offset st.nextExtensionHeaderType
    · right
      refine ⟨hfits, ?_⟩
      by_cases htruncated : Truncated msgBuf st.offset st.nextExtensionHeaderType
      · left
        refine ⟨?_, .inl htruncated⟩
        rw [readContainer, if_pos htruncated.1, readPduSessionContainer, Outcome.require,
          if_neg (Nat.not_le.mpr htruncated.2)]
        rfl
      · obtain ⟨st', hread, hsame⟩ := readContainer_fits hfits htruncated
        rw [hread, Outcome.done_bind]
        simp only [hsame]
        change Outcome.require (nextOffset msgBuf st.offset ≤ msgBuf.length) >>= _ = _ ∧ _ ∨ _
        by_cases hle : nextOffset msgBuf st.offset ≤ msgBuf.length
        · right
          have hlt : nextOffset msgBuf st.offset - 1 < msgBuf.length := by
            rw [nextOffset] at hle ⊢
            omega
          refine ⟨htruncated, hle, ?_⟩
          change ∃ st', (Outcome.require (nextOffset msgBuf st.offset ≤ msgBuf.length) >>=
            fun _ => byteAt msgBuf (nextOffset msgBuf st.offset - 1) >>= _) = _ ∧ _
          rw [Outcome.require, if_pos hle, Outcome.done_bind, byteAt_of_lt hlt]
          exact ⟨_, rfl, rfl, rfl⟩
        · left
          rw [Outcome.require, if_neg hle]
          exact ⟨rfl, .inr (Nat.not_le.mp hle)⟩
    · left
      rw [readContainer_not_fits hoffset hfits]
      exact ⟨rfl, hfits⟩
  · left
    rw [byteAt_of_le (Nat.not_lt.mp hoffset)]
    exact ⟨rfl, fun hfits => hoffset hfits.1⟩

/-! ### The walk -/

/-- Over a bad chain the walk goes on forever, or reads beyond the datagram. -/
theorem BadFrom.walk (fuel : ℕ) (st : GpduState)
    (hbad : BadFrom msgBuf st.offset st.nextExtensionHeaderType)
    (hpos : 0 < st.offset)
    (htype : st.nextExtensionHeaderType = msgBuf.getD (st.offset - 1) 0) :
    extHeaders msgBuf fuel st = none ∨
      extHeaders msgBuf fuel st = some (.fault .outOfBounds) := by
  induction fuel generalizing st with
  | zero =>
    left
    rfl
  | succ fuel ih =>
    have hmore : st.nextExtensionHeaderType ≠ noMoreExtHdrs := by
      cases hbad <;> assumption
    rw [extHeaders, if_neg hmore]
    rcases extHeader_spec hpos with ⟨hstep, -⟩ | ⟨hfits, hstep⟩
    · right
      rw [hstep]
    · -- the header fits, so the chain is bad for another reason
      have hgoes : ¬ Truncated msgBuf st.offset st.nextExtensionHeaderType ∧
          nextOffset msgBuf st.offset ≤ msgBuf.length ∧
          BadFrom msgBuf (nextOffset msgBuf st.offset)
            (msgBuf.getD (nextOffset msgBuf st.offset - 1) 0) := by
        cases hbad with
        | field _ hnot => exact absurd hfits hnot
        | zero _ _ htruncated hzero =>
          have hsame : nextOffset msgBuf st.offset = st.offset := by
            rw [nextOffset, hzero]
            rfl
          rw [hsame, ← htype]
          exact ⟨htruncated, Nat.le_of_lt hfits.1, .zero hmore hfits htruncated hzero⟩
        | next _ _ htruncated hle hnext => exact ⟨htruncated, hle, hnext⟩
      obtain ⟨htruncated, hle, hnext⟩ := hgoes
      rcases hstep with ⟨-, hstop⟩ | ⟨-, -, st', hstep, hoffset, htype'⟩
      · rcases hstop with hstop | hstop
        · exact absurd hstop htruncated
        · exact absurd hle (Nat.not_le.mpr hstop)
      · rw [hstep]
        apply ih
        · rw [hoffset, htype']
          exact hnext
        · rw [hoffset, nextOffset]
          omega
        · rw [hoffset, htype']

/-- Over any other chain the walk ends, inside the datagram. -/
theorem exists_walk (st : GpduState)
    (hgood : ¬ BadFrom msgBuf st.offset st.nextExtensionHeaderType)
    (hpos : 0 < st.offset) (hle : st.offset ≤ msgBuf.length) :
    ∃ fuel outcome, extHeaders msgBuf fuel st = some outcome ∧
      (outcome = .refused ∨ ∃ st', outcome = .done st' ∧ st'.offset ≤ msgBuf.length) := by
  induction hroom : msgBuf.length - st.offset using Nat.strong_induction_on generalizing st with
  | _ room ih =>
    by_cases hmore : st.nextExtensionHeaderType = noMoreExtHdrs
    · refine ⟨1, .done st, ?_, .inr ⟨st, rfl, hle⟩⟩
      rw [extHeaders, if_pos hmore]
    · rcases extHeader_spec hpos with ⟨-, hnot⟩ | ⟨hfits, hstep⟩
      · exact absurd (.field hmore hnot) hgood
      · rcases hstep with ⟨hstep, -⟩ | ⟨htruncated, hnextLe, st', hstep, hoffset, htype⟩
        · refine ⟨1, .refused, ?_, .inl rfl⟩
          rw [extHeaders, if_neg hmore, hstep]
        · -- the length is not 0, so that there is less room after the header
          have hzero : msgBuf.getD st.offset 0 ≠ 0 := by
            intro hzero
            exact hgood (.zero hmore hfits htruncated hzero)
          have hadvance : 0 < (msgBuf.getD st.offset 0).toNat := by
            rw [Nat.pos_iff_ne_zero]
            intro hnat
            exact hzero (UInt8.toNat_inj.mp hnat)
          have hless : msgBuf.length - st'.offset < room := by
            have hin := hfits.1
            rw [hoffset, nextOffset]
            omega
          have hgood' : ¬ BadFrom msgBuf st'.offset st'.nextExtensionHeaderType := by
            rw [hoffset, htype]
            intro hnext
            exact hgood (.next hmore hfits htruncated hnextLe hnext)
          have hpos' : 0 < st'.offset := by
            rw [hoffset, nextOffset]
            omega
          obtain ⟨fuel, outcome, hwalk, hend⟩ :=
            ih _ hless st' hgood' hpos' (hoffset ▸ hnextLe) rfl
          refine ⟨fuel + 1, outcome, ?_, hend⟩
          rw [extHeaders, if_neg hmore, hstep]
          exact hwalk

/-! ### A datagram -/

/-- The end of the handling delivers what is left of the datagram, if anything is left. -/
theorem finishGpdu_safe (uedata : UeidData) (msgBuf : List UInt8) (st : GpduState) :
    finishGpdu uedata msgBuf st ≠ .fault .outOfBounds ∧
      ∀ result, finishGpdu uedata msgBuf st = .done result →
        ∀ delivery, result.delivery = some delivery →
          delivery.sdu <:+ msgBuf ∧ 0 < delivery.sdu.length ∧
            delivery.sdu.length ≤ msgBuf.length := by
  have hsuffix := List.drop_suffix st.offset msgBuf
  by_cases hsize : (msgBuf.length : ℤ) - st.offset > 0
  · have hlength : 0 < (msgBuf.drop st.offset).length := by
      rw [List.length_drop]
      omega
    have hsdu := And.intro hsuffix (And.intro hlength hsuffix.length_le)
    rw [finishGpdu]
    simp only [if_pos hsize]
    cases st.qfi with
    | none =>
      cases uedata.callBack with
      | none => exact ⟨by simp, by simp⟩
      | some callBack =>
        refine ⟨by simp, ?_⟩
        rintro _ ⟨⟩ _ ⟨⟩
        exact hsdu
    | some qfi =>
      cases uedata.callBackSDAP with
      | none => exact ⟨by simp, by simp⟩
      | some callBackSDAP =>
        refine ⟨by simp, ?_⟩
        rintro _ ⟨⟩ _ ⟨⟩
        exact hsdu
  · rw [finishGpdu]
    simp only [if_neg hsize]
    refine ⟨by simp, ?_⟩
    rintro _ ⟨⟩ _ ⟨⟩

/-- The TEID of a datagram. -/
def teidOf (msgBuf : List UInt8) : UInt32 :=
  be32 (msgBuf.getD 4 0) (msgBuf.getD 5 0) (msgBuf.getD 6 0) (msgBuf.getD 7 0)

/-- The walk starts behind the optional fields, with the type that is the last of them. -/
theorem startGpdu_eq {te2ueMapping : AList fun _ : UInt32 => UeidData} {uedata : UeidData}
    (hlength : 8 ≤ msgBuf.length) (hteid : te2ueMapping.lookup (teidOf msgBuf) = some uedata)
    (hgtp : isGtpV1 (msgBuf.getD 0 0)) :
    startGpdu te2ueMapping msgBuf =
      (if hasExtHeaders (msgBuf.getD 0 0) then
          byteAt msgBuf ((if hasOptFields (msgBuf.getD 0 0) then 12 else 8) - 1)
        else pure noMoreExtHdrs) >>= fun type =>
          pure (uedata, ⟨if hasOptFields (msgBuf.getD 0 0) then 12 else 8, type, none, false, 0⟩)
      := by
  rw [startGpdu, byteAt_of_lt (by omega), Outcome.done_bind, Outcome.require, if_pos hgtp,
    Outcome.done_bind, byteAt_of_lt (by omega), Outcome.done_bind, byteAt_of_lt (by omega),
    Outcome.done_bind, byteAt_of_lt (by omega), Outcome.done_bind, byteAt_of_lt (by omega),
    Outcome.done_bind]
  change (match te2ueMapping.lookup (teidOf msgBuf) with
    | none => _
    | some uedata => _) = _
  rw [hteid]
  split_ifs <;> rfl

/-- The flag E is one of the three that bring the optional fields. -/
theorem hasExtHeaders.hasOptFields {flags : UInt8} (h : hasExtHeaders flags) :
    hasOptFields flags := by
  intro hnone
  apply h
  calc flags &&& 0x04 = flags &&& 0x07 &&& 0x04 := by rw [UInt8.and_assoc]; rfl
    _ = 0 := by rw [hnone]; rfl

theorem length_of_receivedMessage {message : GtpMessage}
    (haccepted : receivedMessage msgBuf = some message) : 8 ≤ msgBuf.length := by
  unfold receivedMessage at haccepted
  split at haccepted
  · simp
  · exact absurd haccepted (Option.some_ne_none _).symm

theorem safe_of_walk {te2ueMapping : AList fun _ : UInt32 => UeidData} {uedata : UeidData}
    {outcome : Outcome GpduState} (hstart : startGpdu te2ueMapping msgBuf = .done (uedata, st))
    (hwalk : extHeaders msgBuf fuel st = some outcome)
    (hend : outcome = .refused ∨ ∃ st', outcome = .done st') : Safe te2ueMapping msgBuf := by
  have hrun : gtpv1uHandleGpdu te2ueMapping msgBuf fuel =
      some (outcome >>= finishGpdu uedata msgBuf) := by
    rw [gtpv1uHandleGpdu, hstart]
    change (extHeaders msgBuf fuel st).map _ = _
    rw [hwalk]
    rfl
  rcases hend with rfl | ⟨st', rfl⟩
  · refine ⟨fuel, _, hrun, by simp, ?_⟩
    rintro _ ⟨⟩
  · obtain ⟨hread, hdelivery⟩ := finishGpdu_safe uedata msgBuf st'
    exact ⟨fuel, _, hrun, hread, hdelivery⟩

variable {te2ueMapping : AList fun _ : UInt32 => UeidData}

/-- A bad datagram for a known TEID is read beyond its end, or keeps the walk going. -/
theorem BadDatagram.not_safe (hbad : BadDatagram msgBuf) (hlength : 8 ≤ msgBuf.length)
    (hteid : (te2ueMapping.lookup (teidOf msgBuf)).isSome) : ¬ Safe te2ueMapping msgBuf := by
  obtain ⟨uedata, hteid⟩ := Option.isSome_iff_exists.mp hteid
  obtain ⟨hgtp, hext, hchain⟩ := hbad
  have hstart := startGpdu_eq hlength hteid hgtp
  rw [if_pos hext, if_pos hext.hasOptFields] at hstart
  rintro ⟨fuel, outcome, hrun, hread, -⟩
  rw [gtpv1uHandleGpdu, hstart] at hrun
  by_cases hroom : msgBuf.length < 12
  · -- the type of the first extension header is read beyond the datagram
    rw [byteAt_of_le (by omega)] at hrun
    exact hread (Option.some.inj hrun).symm
  · have hfrom : BadFrom msgBuf 12 (msgBuf.getD 11 0) := by
      rcases hchain with hshort | hfrom
      · exact absurd hshort hroom
      · exact hfrom
    rw [byteAt_of_lt (by omega)] at hrun
    change (extHeaders msgBuf fuel ⟨12, msgBuf.getD 11 0, none, false, 0⟩).map _ = _ at hrun
    rcases hfrom.walk fuel ⟨12, msgBuf.getD 11 0, none, false, 0⟩ (by simp) rfl
      with hwalk | hwalk
    · rw [hwalk] at hrun
      exact absurd hrun.symm (Option.some_ne_none _)
    · rw [hwalk] at hrun
      exact hread (Option.some.inj hrun).symm

theorem safe_of_not_bad (hgood : ¬ BadDatagram msgBuf) (hlength : 8 ≤ msgBuf.length)
    (hteid : (te2ueMapping.lookup (teidOf msgBuf)).isSome) : Safe te2ueMapping msgBuf := by
  obtain ⟨uedata, hteid⟩ := Option.isSome_iff_exists.mp hteid
  by_cases hgtp : isGtpV1 (msgBuf.getD 0 0)
  · have hstart := startGpdu_eq hlength hteid hgtp
    by_cases hext : hasExtHeaders (msgBuf.getD 0 0)
    · rw [if_pos hext, if_pos hext.hasOptFields] at hstart
      have hroom : 12 ≤ msgBuf.length :=
        Nat.not_lt.mp fun hroom => hgood ⟨hgtp, hext, .inl hroom⟩
      have hchain : ¬ BadFrom msgBuf 12 (msgBuf.getD 11 0) :=
        fun hbad => hgood ⟨hgtp, hext, .inr hbad⟩
      rw [byteAt_of_lt (by omega)] at hstart
      obtain ⟨fuel, outcome, hwalk, hend⟩ :=
        exists_walk ⟨12, msgBuf.getD 11 0, none, false, 0⟩ hchain (by simp) hroom
      apply safe_of_walk hstart hwalk
      rcases hend with hend | ⟨st', hend, -⟩
      · exact .inl hend
      · exact .inr ⟨st', hend⟩
    · -- there is nothing to walk along
      rw [if_neg hext] at hstart
      apply safe_of_walk hstart (rfl : extHeaders msgBuf 1 _ = _)
      exact .inr ⟨_, rfl⟩
  · refine ⟨0, .refused, ?_, by simp, ?_⟩
    · rw [gtpv1uHandleGpdu, startGpdu, byteAt_of_lt (by omega), Outcome.done_bind,
        Outcome.require, if_neg hgtp]
      rfl
    · rintro _ ⟨⟩

/-- A datagram for a known TEID is handled safely exactly when it is not bad. -/
theorem safe_iff (te2ueMapping : AList fun _ : UInt32 => UeidData) (msgBuf : List UInt8)
    (haccepted : receivedMessage msgBuf = some .gpdu)
    (hteid : (te2ueMapping.lookup (teidOf msgBuf)).isSome) :
    Safe te2ueMapping msgBuf ↔ ¬ BadDatagram msgBuf := by
  have hlength := length_of_receivedMessage haccepted
  constructor
  · intro hsafe hbad
    exact hbad.not_safe hlength hteid hsafe
  · intro hgood
    exact safe_of_not_bad hgood hlength hteid

/-- Two bytes of payload behind a PDU session container, for TEID 1. -/
def sessionDatagram : List UInt8 :=
  [0x34, 0xff, 0, 10, 0, 0, 0, 1, 0, 0, 0, 0x85, 1, 0x10, 5, 0, 7, 8]

/-- The tunnel with TEID 1. -/
def sessionTunnel : AList fun _ : UInt32 => UeidData :=
  AList.insert 1 ⟨1, 1, none, 2, some 4, 10⟩ ∅

example : gtpv1uHandleGpdu sessionTunnel sessionDatagram 2 =
    some (.done ⟨some (.sdap 4 1 [7, 8] 5 false 10), none⟩) := by
  rfl

theorem safe_iff_sessionDatagram :
    receivedMessage sessionDatagram = some .gpdu ∧
      (Safe sessionTunnel sessionDatagram ↔ ¬ BadDatagram sessionDatagram) :=
  ⟨rfl, safe_iff sessionTunnel sessionDatagram rfl rfl⟩

/-- Every datagram with payload for a known TEID is handled safely. -/
def HandlesSafely : Prop :=
  ∀ (te2ueMapping : AList fun _ : UInt32 => UeidData) (msgBuf : List UInt8),
    receivedMessage msgBuf = some .gpdu → (te2ueMapping.lookup (teidOf msgBuf)).isSome →
      Safe te2ueMapping msgBuf

/-- A PDU session container of length 0. -/
def endlessDatagram : List UInt8 := [0x34, 0xff, 0, 8, 0, 0, 0, 1, 0, 0, 0, 0x85, 0, 0x10, 5, 0]

theorem badDatagram_endlessDatagram : BadDatagram endlessDatagram := by
  refine ⟨by decide, by decide, .inr (.zero (by decide) ?_ ?_ rfl)⟩
  · apply And.intro
    · decide
    · have hsession : endlessDatagram.getD 11 0 = pduSessionContainer := rfl
      rw [if_pos hsession]
      decide
  · rintro ⟨-, hshort⟩
    exact absurd hshort (by decide)

/-- The container is visited forever. -/
theorem not_handlesSafely : ¬ HandlesSafely := by
  intro hsafe
  have hknown : (sessionTunnel.lookup (teidOf endlessDatagram)).isSome := rfl
  apply badDatagram_endlessDatagram.not_safe (by decide) hknown
  exact hsafe sessionTunnel endlessDatagram rfl hknown

end LlmHric.Gtpu
