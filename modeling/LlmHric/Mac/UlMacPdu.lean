import LlmHric.Library.TracedReads
import Mathlib.Data.Int.Notation
import Mathlib.Logic.Function.Basic

/-! A MAC PDU is a sequence of subPDUs. The subheader of a subPDU has its logical channel ID and,
for some of them, a length of one or two bytes; the length of the others is fixed.
`nr_process_mac_pdu` checks the length against what is left of the PDU, but only behind the
subheader, and hands the payload to a reader that has its own idea of its length. -/

namespace LlmHric.Mac

open Checked Checked.Outcome

/-! ### Subheaders -/

/-- The logical channel IDs of UL-SCH, with one constructor for each case of their handling. -/
inductive UlSchLcid
  | ccch64Bits
  | ccch48BitsRedcap
  | ccch48Bits
  | srb
  | dtch
  | recommendedBitrateQuery
  | multiEntryPhr4Oct
  | configuredGrantConfirmation
  | multiEntryPhr1Oct
  | singleEntryPhr
  | cRnti
  | sTruncatedBsr
  | sBsr
  | lTruncatedBsr
  | lBsr
  | padding
  | other
  deriving DecidableEq

/-- The case of a logical channel ID. -/
def ulSchLcid (lcid : UInt8) : UlSchLcid :=
  if lcid = 0x00 then .ccch64Bits
  else if lcid = 0x01 ∨ lcid = 0x02 then .srb
  else if 0x04 ≤ lcid ∧ lcid ≤ 0x04 + 28 then .dtch
  else if lcid = 0x23 then .ccch48BitsRedcap
  else if lcid = 0x34 then .ccch48Bits
  else if lcid = 0x35 then .recommendedBitrateQuery
  else if lcid = 0x36 then .multiEntryPhr4Oct
  else if lcid = 0x37 then .configuredGrantConfirmation
  else if lcid = 0x38 then .multiEntryPhr1Oct
  else if lcid = 0x39 then .singleEntryPhr
  else if lcid = 0x3A then .cRnti
  else if lcid = 0x3B then .sTruncatedBsr
  else if lcid = 0x3C then .lTruncatedBsr
  else if lcid = 0x3D then .sBsr
  else if lcid = 0x3E then .lBsr
  else if lcid = 0x3F then .padding
  else .other

/-- The subheader has a length field. -/
def UlSchLcid.hasLength : UlSchLcid → Bool
  | srb | dtch | lTruncatedBsr | lBsr => true
  | _ => false

/-- The length of a subPDU without a length field. -/
def UlSchLcid.fixedLength : UlSchLcid → ℕ
  | ccch64Bits => 8
  | ccch48BitsRedcap | ccch48Bits => 6
  | singleEntryPhr | cRnti => 2
  | sTruncatedBsr | sBsr => 1
  | _ => 0

/-- `decode_ul_mac_sub_pdu_header`: the length of the subheader, the logical channel ID and the
length. -/
def decodeUlMacSubPduHeader (pdu : List UInt8) (start : ℕ) : Traced (ℕ × UInt8 × ℕ) := do
  let b ← readByte pdu start
  let lcid := b &&& 0x3F
  if (ulSchLcid lcid).hasLength then
    if b &&& 0x40 ≠ 0 then
      let hi ← readByte pdu (start + 1)
      let lo ← readByte pdu (start + 2)
      return (3, lcid, hi.toNat <<< 8 + lo.toNat)
    else
      let l ← readByte pdu (start + 1)
      return (2, lcid, l.toNat)
  else return (1, lcid, (ulSchLcid lcid).fixedLength)

/-- `NR_SHORT_BSR_TABLE` -/
def nrShortBsrTable : List UInt32 :=
  [0, 10, 14, 20, 28, 38, 53, 74, 102, 142, 198, 276, 384, 535, 745, 1038, 1446, 2014, 2806, 3909,
    5446, 7587, 10570, 14726, 20516, 28581, 39818, 55474, 77284, 107669, 150000, 300000]

/-- `NR_LONG_BSR_TABLE` -/
def nrLongBsrTable : List UInt32 :=
  [0, 10, 11, 12, 13, 14, 15, 16, 17, 18, 19, 20, 22, 23, 25, 26, 28, 30, 32, 34, 36, 38, 40, 43,
    46, 49, 52, 55, 59, 62, 66, 71, 75, 80, 85, 91, 97, 103, 110, 117, 124, 132, 141, 150, 160, 170,
    181, 193, 205, 218, 233, 248, 264, 281, 299, 318, 339, 361, 384, 409, 436, 464, 494, 526, 560,
    597, 635, 677, 720, 767, 817, 870, 926, 987, 1051, 1119, 1191, 1269, 1351, 1439, 1532, 1631,
    1737, 1850, 1970, 2098, 2234, 2379, 2533, 2698, 2873, 3059, 3258, 3469, 3694, 3934, 4189, 4461,
    4751, 5059, 5387, 5737, 6109, 6506, 6928, 7378, 7857, 8367, 8910, 9488, 10104, 10760, 11458,
    12202, 12994, 13838, 14736, 15692, 16711, 17795, 18951, 20181, 21491, 22885, 24371, 25953,
    27638, 29431, 31342, 33376, 35543, 37850, 40307, 42923, 45709, 48676, 51836, 55200, 58784,
    62599, 66663, 70990, 75598, 80505, 85730, 91295, 97221, 103532, 110252, 117409, 125030, 133146,
    141789, 150992, 160793, 171231, 182345, 194182, 206786, 220209, 234503, 249725, 265935, 283197,
    301579, 321155, 342002, 364202, 387842, 413018, 439827, 468377, 498780, 531156, 565634, 602350,
    641449, 683087, 727427, 774645, 824928, 878475, 935498, 996222, 1060888, 1129752, 1203085,
    1281179, 1364342, 1452903, 1547213, 1647644, 1754595, 1868488, 1989774, 2118933, 2256475,
    2402946, 2558924, 2725027, 2901912, 3090279, 3290873, 3504487, 3731968, 3974215, 4232186,
    4506902, 4799451, 5110989, 5442750, 5796046, 6172275, 6572925, 6999582, 7453933, 7937777,
    8453028, 9001725, 9586039, 10208280, 10870913, 11576557, 12328006, 13128233, 13980403, 14887889,
    15854280, 16883401, 17979324, 19146385, 20389201, 21712690, 23122088, 24622972, 26221280,
    27923336, 29735875, 31666069, 33721553, 35910462, 38241455, 40723756, 43367187, 46182206,
    49179951, 52372284, 55771835, 59392055, 63247269, 67352729, 71724679, 76380419, 81338368,
    162676736, 4294967295]

/-- `overestim_bsr_index` -/
def overestimBsrIndex (realIndex : ℕ) : ℕ := if realIndex > 0 then realIndex + 1 else realIndex

/-- `estimate_ul_buffer_short_bsr` -/
def estimateUlBufferShortBsr (pdu : List UInt8) (ce : ℕ) : Traced ℤ := do
  let b ← readByte pdu ce
  let idx := min (overestimBsrIndex (b &&& 0x1F).toNat) (nrShortBsrTable.length - 1)
  return (nrShortBsrTable.getD idx 0).toInt32.toInt

/-- The flags of the logical channel groups, that of the group 0 first. -/
def lcgFlags (b : UInt8) : List Bool := (List.range 8).map fun n => b.toNat.testBit n

/-- The loop over the logical channel groups. -/
def longBsrLoop (pdu : List UInt8) (payload : ℕ) : List Bool → ℕ → UInt32 → Traced UInt32
  | [], _, estimSize => return estimSize
  | false :: flags, m, estimSize => longBsrLoop pdu payload flags m estimSize
  | true :: flags, m, estimSize => do
    let b ← readByte pdu (payload + m)
    let idx := min (overestimBsrIndex b.toNat) (nrLongBsrTable.length - 1)
    longBsrLoop pdu payload flags (m + 1) (estimSize + nrLongBsrTable.getD idx 0)

/-- `estimate_ul_buffer_long_bsr` -/
def estimateUlBufferLongBsr (pdu : List UInt8) (ce : ℕ) : Traced ℤ := do
  let b ← readByte pdu ce
  let estimSize ← longBsrLoop pdu (ce + 1) (lcgFlags b) 0 0
  return estimSize.toInt32.toInt

/-! ### UEs -/

/-- `nr_lc_config_t` -/
structure NrLcConfig where
  lcid : UInt8
  suspended : Bool
  deriving DecidableEq

/-- The fields of a UE that the reader uses. The power headroom is without its normalization. -/
structure UlUe where
  hasCellGroup : Bool
  lcConfig : List NrLcConfig
  raIdle : Bool
  isRedcap : Bool
  estimatedUlBuffer : ℤ
  schedUlBytes : ℤ
  phr : Option (ℤ × ℤ)
  totalSduBytes : ℕ
  lcBytes : UInt8 → ℕ
  numMacSdu : ℕ

/-- What the reader gets from its caller, and the call of `prepare_initial_ul_rrc_message`. -/
structure UlContext where
  harqPid : ℤ
  prepareInitialUlRrcMessage : UlUe → Bool × UlUe

/-- `nr_rlc_data_ind_t`; the buffer is given by its index in the PDU. -/
structure NrRlcDataInd where
  ch : UInt8
  buf : ℕ
  len : ℕ
  deriving DecidableEq

/-- The variables of `nr_process_mac_pdu`. -/
structure MacPduState where
  ue : UlUe
  dataInd : List NrRlcDataInd
  sdus : ℕ

/-- `MAX_NUM_DATA_IND` -/
def maxNumDataInd : ℕ := 1024

/-- `nr_mac_get_lc_config` -/
def UlUe.getLcConfig (ue : UlUe) (lcid : UInt8) : Option NrLcConfig :=
  ue.lcConfig.find? fun c => c.lcid = lcid

/-- The logical channel is there and not suspended. -/
def UlUe.accepts (ue : UlUe) (lcid : UInt8) : Bool :=
  (ue.getLcConfig lcid).any fun c => !c.suspended

/-- `handle_single_entry_phr`, with the power headroom as it is reported. -/
def handleSingleEntryPhr (ctx : UlContext) (pdu : List UInt8) (ce : ℕ) (ue : UlUe) :
    Traced UlUe := do
  if ctx.harqPid < 0 then return ue
  else
    let b₁ ← readByte pdu ce
    let b₂ ← readByte pdu (ce + 1)
    let ph : ℤ := (b₁ &&& 0x3F).toNat
    let pcmax : ℤ := (b₂ &&& 0x3F).toNat
    let ph := if ph < 55 then ph - 32 else if ph < 63 then 24 + (ph - 55) * 2 else 38
    return { ue with phr := some (ph, pcmax - 29) }

/-- An SDU is kept for RLC. -/
def addDataInd (st : MacPduState) (ind : NrRlcDataInd) : Outcome MacPduState := do
  assertFatal (st.dataInd.length + 1 < maxNumDataInd)
  return { st with dataInd := st.dataInd ++ [ind] }

/-- The SDU of a logical channel. -/
def forwardSdu (lcid : UInt8) (buf len : ℕ) (st : MacPduState) : Outcome MacPduState :=
  addDataInd { st with
    ue.totalSduBytes := st.ue.totalSduBytes + len
    ue.lcBytes := Function.update st.ue.lcBytes lcid (st.ue.lcBytes lcid + len) } ⟨lcid, buf, len⟩

/-- The SDU of the CCCH. -/
def forwardCcch (ctx : UlContext) (buf len : ℕ) (st : MacPduState) : Outcome MacPduState :=
  let (forward, ue) := ctx.prepareInitialUlRrcMessage st.ue
  if forward then addDataInd { st with ue } ⟨0, buf, len⟩ else return { st with ue }

/-- A byte that is not 0 is among the next ones. -/
def anyNonzero (pdu : List UInt8) (start : ℕ) : ℕ → Traced Bool
  | 0 => return false
  | count + 1 => do
    let b ← readByte pdu start
    if b ≠ 0 then return true else anyNonzero pdu (start + 1) count

/-- What becomes of a subPDU: it is too long, it ends the processing, or the next one comes at a
distance from its subheader. -/
inductive Visited
  | invalid
  | allZero
  | processed (st : MacPduState) (macLen : ℕ)

/-- The body of the loop, behind the subheader. -/
def processSubPdu (ctx : UlContext) (pdu : List UInt8) (start headerLen : ℕ) (lcid : UInt8)
    (macLen pduLen : ℕ) (st : MacPduState) : Traced Visited := do
  if headerLen + macLen > pduLen then return .invalid
  else
    match ulSchLcid lcid with
    | .ccch64Bits =>
      let validPdu ← anyNonzero pdu start (headerLen + macLen)
      if validPdu then
        let st ← forwardCcch ctx (start + headerLen) macLen st
        return .processed st macLen
      else return .allZero
    | .ccch48BitsRedcap =>
      let st ← forwardCcch ctx (start + headerLen) macLen { st with ue.isRedcap := true }
      return .processed st macLen
    | .ccch48Bits =>
      let st ← forwardCcch ctx (start + headerLen) macLen st
      return .processed st macLen
    | .srb =>
      assertFatal st.ue.hasCellGroup
      if st.ue.accepts lcid then
        let st ← forwardSdu lcid (start + headerLen) macLen st
        return .processed st macLen
      else return .processed st macLen
    | .dtch =>
      if st.ue.accepts lcid then
        let st ← forwardSdu lcid (start + headerLen) macLen st
        let buffer := if st.ue.estimatedUlBuffer ≥ macLen then
          st.ue.estimatedUlBuffer - macLen else 0
        return .processed { st with sdus := st.sdus + 1, ue.estimatedUlBuffer := buffer } macLen
      else return .processed st macLen
    | .recommendedBitrateQuery | .multiEntryPhr4Oct | .configuredGrantConfirmation
    | .multiEntryPhr1Oct => return .processed st macLen
    | .singleEntryPhr =>
      let ue ← handleSingleEntryPhr ctx pdu (start + headerLen) st.ue
      return .processed { st with ue } macLen
    | .cRnti =>
      if st.ue.raIdle then
        let _ ← readByte pdu (start + 1)
        let _ ← readByte pdu (start + 2)
        assertFatal False
        return .processed st macLen
      else return .processed st macLen
    | .sTruncatedBsr | .sBsr =>
      let buffer ← estimateUlBufferShortBsr pdu (start + headerLen)
      return .processed
        { st with ue.estimatedUlBuffer := buffer, ue.schedUlBytes := 0 } macLen
    | .lTruncatedBsr | .lBsr =>
      let buffer ← estimateUlBufferLongBsr pdu (start + headerLen)
      return .processed
        { st with ue.estimatedUlBuffer := buffer, ue.schedUlBytes := 0 } macLen
    | .padding | .other => return .processed st ((pduLen - headerLen) % 65536)

/-- A subPDU that the loop visits: where it starts, its length behind the subheader, and the indices
that are read while it is visited. -/
structure SubPdu where
  start : ℕ
  headerLen : ℕ
  length : ℕ
  reads : List ℕ
  deriving DecidableEq

/-- The rest of the PDU is padding, or taken for it. -/
def UlSchLcid.takesRest : UlSchLcid → Bool
  | padding | other => true
  | _ => false

/-- What `nr_process_mac_pdu` leaves: the UE, and the SDUs for RLC. -/
structure MacPduResult where
  ue : UlUe
  dataInd : List NrRlcDataInd

/-- The end of `nr_process_mac_pdu`. -/
def finishMacPdu (st : MacPduState) : MacPduResult :=
  ⟨{ st.ue with numMacSdu := st.ue.numMacSdu + st.sdus }, st.dataInd⟩

/-- The loop over the subPDUs, for a number of steps; `none` while it has not ended. A subPDU that
takes the rest of the PDU has the length of that rest. -/
def macPduLoop (ctx : UlContext) (pdu : List UInt8) :
    ℕ → ℕ → ℕ → MacPduState → Option (List SubPdu × Outcome MacPduResult)
  | 0, _, _, _ => none
  | fuel + 1, start, pduLen, st =>
    if pduLen = 0 then some ([], .done (finishMacPdu st))
    else
      let header := decodeUlMacSubPduHeader pdu start
      match header.outcome with
      | .done (headerLen, lcid, macLen) =>
        let body := processSubPdu ctx pdu start headerLen lcid macLen pduLen st
        let length := if (ulSchLcid lcid).takesRest then pduLen - headerLen else macLen
        let visit : SubPdu := ⟨start, headerLen, length, header.reads ++ body.reads⟩
        match body.outcome with
        | .done (.processed st macLen) =>
          (macPduLoop ctx pdu fuel (start + (headerLen + macLen)) (pduLen - (headerLen + macLen))
            st).map fun rest => (visit :: rest.1, rest.2)
        | .done .invalid => some ([visit], .done (finishMacPdu st))
        | .done .allZero => some ([visit], .done ⟨st.ue, []⟩)
        | .refused => some ([visit], .refused)
        | .fault f => some ([visit], .fault f)
      | .refused => some ([⟨start, 1, 0, header.reads⟩], .refused)
      | .fault f => some ([⟨start, 1, 0, header.reads⟩], .fault f)

/-- `nr_process_mac_pdu`. The first byte is looked at before the loop. -/
def nrProcessMacPdu (ctx : UlContext) (pdu : List UInt8) (ue : UlUe) (fuel : ℕ) :
    Option (List SubPdu × Outcome MacPduResult) :=
  match byteAt pdu 0 with
  | .done _ => macPduLoop ctx pdu fuel 0 pdu.length ⟨ue, [], 0⟩
  | .refused => some ([], .refused)
  | .fault f => some ([], .fault f)

/-! ### Safety -/

def SubPdu.Inside (pdu : List UInt8) (v : SubPdu) : Prop :=
  ∀ i ∈ v.reads, i < pdu.length ∧ v.start ≤ i ∧ i < v.start + v.headerLen + v.length

def Contiguous : ℕ → List SubPdu → Prop
  | _, [] => True
  | start, v :: visits => v.start = start ∧ Contiguous (v.start + v.headerLen + v.length) visits

/-- The reader ends, does not read beyond the PDU or beyond a subPDU, and leaves no gap between
subPDUs. -/
def ParsesSafely (ctx : UlContext) (ue : UlUe) (pdu : List UInt8) : Prop :=
  ∃ fuel visits outcome, nrProcessMacPdu ctx pdu ue fuel = some (visits, outcome) ∧
    outcome ≠ .fault .outOfBounds ∧ Contiguous 0 visits ∧ ∀ v ∈ visits, v.Inside pdu

/-- The logical channel of the subPDU at an index. -/
def lcidAt (pdu : List UInt8) (start : ℕ) : UlSchLcid := ulSchLcid (pdu.getD start 0 &&& 0x3F)

/-- The flag F of the subPDU at an index. -/
def longLength (pdu : List UInt8) (start : ℕ) : Bool := pdu.getD start 0 &&& 0x40 ≠ 0

/-- The length of the subheader at an index. -/
def headerSize (pdu : List UInt8) (start : ℕ) : ℕ :=
  if (lcidAt pdu start).hasLength then if longLength pdu start then 3 else 2 else 1

/-- The length that the subheader at an index declares. -/
def lengthAt (pdu : List UInt8) (start : ℕ) : ℕ :=
  if (lcidAt pdu start).hasLength then
    if longLength pdu start then
      (pdu.getD (start + 1) 0).toNat <<< 8 + (pdu.getD (start + 2) 0).toNat
    else (pdu.getD (start + 1) 0).toNat
  else (lcidAt pdu start).fixedLength

def subPduEnd (pdu : List UInt8) (start : ℕ) : ℕ :=
  start + headerSize pdu start + lengthAt pdu start

/-- The subPDU is a long BSR. -/
def UlSchLcid.isLongBsr : UlSchLcid → Bool
  | lTruncatedBsr | lBsr => true
  | _ => false

/-- A long BSR has no room for the buffer sizes that its flags announce. -/
def BsrTooShort (pdu : List UInt8) (start : ℕ) : Prop :=
  (lcidAt pdu start).isLongBsr = true ∧
    lengthAt pdu start < 1 + (lcgFlags (pdu.getD (start + headerSize pdu start) 0)).count true

/-- The bytes of a subPDU of the CCCH are all 0. -/
def AllZero (pdu : List UInt8) (start : ℕ) : Prop :=
  lcidAt pdu start = .ccch64Bits ∧
    ∀ i, start ≤ i → i < subPduEnd pdu start → pdu.getD i 0 = 0

/-- From an index the subPDUs lead to one whose subheader is cut off, to a long BSR that is too
short, or to padding that is too long for a number of 16 bits. -/
inductive BadFrom (pdu : List UInt8) : ℕ → Prop
  | header {start : ℕ} (hin : start < pdu.length)
      (hshort : pdu.length < start + headerSize pdu start) : BadFrom pdu start
  | bsr {start : ℕ} (hin : start < pdu.length) (hend : subPduEnd pdu start ≤ pdu.length)
      (hshort : BsrTooShort pdu start) : BadFrom pdu start
  | rest {start : ℕ} (hrest : (lcidAt pdu start).takesRest = true)
      (hlong : 65536 < pdu.length - start) : BadFrom pdu start
  | next {start : ℕ} (hin : start < pdu.length) (hend : subPduEnd pdu start ≤ pdu.length)
      (hbsr : ¬ BsrTooShort pdu start) (hrest : (lcidAt pdu start).takesRest = false)
      (hzero : ¬ AllZero pdu start) (hnext : BadFrom pdu (subPduEnd pdu start)) :
      BadFrom pdu start

/-- A PDU is empty, or its subPDUs lead to a bad one. -/
def BadPdu (pdu : List UInt8) : Prop := pdu = [] ∨ BadFrom pdu 0

/-! ### Subheaders -/

variable {ctx : UlContext} {pdu : List UInt8} {start fuel : ℕ} {st : MacPduState}

theorem headerSize_pos (pdu : List UInt8) (start : ℕ) : 0 < headerSize pdu start := by
  rw [headerSize]
  split_ifs <;> simp

/-- What is read behind the first byte of a subheader. -/
theorem decodeUlMacSubPduHeader_eq (hin : start < pdu.length) :
    decodeUlMacSubPduHeader pdu start = readByte pdu start >>= fun _ =>
      if (lcidAt pdu start).hasLength then
        if longLength pdu start then
          readByte pdu (start + 1) >>= fun hi => readByte pdu (start + 2) >>= fun lo =>
            pure (3, pdu.getD start 0 &&& 0x3F, hi.toNat <<< 8 + lo.toNat)
        else
          readByte pdu (start + 1) >>= fun l => pure (2, pdu.getD start 0 &&& 0x3F, l.toNat)
      else pure (1, pdu.getD start 0 &&& 0x3F, (lcidAt pdu start).fixedLength) := by
  have hbyte : readByte pdu start = ⟨.done (pdu.getD start 0), [start]⟩ := by
    rw [readByte, byteAt_of_lt hin]
  rw [decodeUlMacSubPduHeader, hbyte]
  simp only [lcidAt, longLength, decide_eq_true_eq]
  rfl

/-- A subheader that is there is read, and nothing else. -/
theorem decodeUlMacSubPduHeader_spec (hfits : start + headerSize pdu start ≤ pdu.length) :
    (decodeUlMacSubPduHeader pdu start).outcome =
        .done (headerSize pdu start, pdu.getD start 0 &&& 0x3F, lengthAt pdu start) ∧
      Traced.Within start (start + headerSize pdu start) (decodeUlMacSubPduHeader pdu start) := by
  have hpos := headerSize_pos pdu start
  rw [decodeUlMacSubPduHeader_eq (by omega)]
  constructor
  · rw [Traced.outcome_bind, outcome_readByte, byteAt_of_lt (by omega), Outcome.done_bind]
    rw [headerSize, lengthAt] at *
    split_ifs at hfits ⊢ with hlength hlong
    · rw [Traced.outcome_bind, outcome_readByte, byteAt_of_lt (by omega), Outcome.done_bind,
        Traced.outcome_bind, outcome_readByte, byteAt_of_lt (by omega)]
      rfl
    · rw [Traced.outcome_bind, outcome_readByte, byteAt_of_lt (by omega)]
      rfl
    · rfl
  · apply Traced.Within.bind (within_readByte (Nat.le_refl _) (by omega))
    intro _ _
    rw [headerSize]
    split_ifs with hlength hlong
    · apply Traced.Within.bind (within_readByte (by omega) (by omega))
      intro _ _
      apply Traced.Within.bind (within_readByte (by omega) (by omega))
      intro _ _
      exact Traced.Within.pure _ _ _
    · apply Traced.Within.bind (within_readByte (by omega) (by omega))
      intro _ _
      exact Traced.Within.pure _ _ _
    · exact Traced.Within.pure _ _ _

/-- A subheader that is cut off is read beyond the PDU. -/
theorem decodeUlMacSubPduHeader_short (hin : start < pdu.length)
    (hshort : pdu.length < start + headerSize pdu start) :
    (decodeUlMacSubPduHeader pdu start).outcome = .fault .outOfBounds ∧
      ∃ i ∈ (decodeUlMacSubPduHeader pdu start).reads, pdu.length ≤ i := by
  rw [decodeUlMacSubPduHeader_eq hin]
  rw [headerSize] at hshort
  simp only [Traced.outcome_bind, Traced.mem_reads_bind, outcome_readByte, reads_readByte,
    List.mem_singleton, byteAt_of_lt hin, Outcome.done_bind]
  split_ifs at hshort ⊢ with hlength hlong
  · by_cases hsecond : start + 1 < pdu.length
    · rw [Traced.outcome_bind, outcome_readByte, byteAt_of_lt hsecond, Outcome.done_bind,
        Traced.outcome_bind, outcome_readByte, byteAt_of_le (by omega)]
      refine ⟨rfl, start + 2, .inr ⟨_, rfl, ?_⟩, by omega⟩
      refine Traced.mem_reads_bind.mpr (.inr ⟨_, byteAt_of_lt hsecond, ?_⟩)
      exact Traced.mem_reads_bind.mpr (.inl (List.mem_singleton_self _))
    · rw [Traced.outcome_bind, outcome_readByte, byteAt_of_le (by omega)]
      refine ⟨rfl, start + 1, .inr ⟨_, rfl, ?_⟩, by omega⟩
      exact Traced.mem_reads_bind.mpr (.inl (List.mem_singleton_self _))
  · rw [Traced.outcome_bind, outcome_readByte, byteAt_of_le (by omega)]
    refine ⟨rfl, start + 1, .inr ⟨_, rfl, ?_⟩, by omega⟩
    exact Traced.mem_reads_bind.mpr (.inl (List.mem_singleton_self _))
  · omega

/-- The loop reads a byte for each flag that is set. -/
theorem longBsrLoop_within {payload hi : ℕ} (flags : List Bool) (m : ℕ) (estimSize : UInt32)
    (hhi : payload + m + flags.count true ≤ hi) :
    Traced.Within payload hi (longBsrLoop pdu payload flags m estimSize) := by
  induction flags generalizing m estimSize with
  | nil => exact Traced.Within.pure _ _ _
  | cons flag flags ih =>
    cases flag with
    | false =>
      rw [List.count_cons_of_ne (by decide)] at hhi
      exact ih m estimSize hhi
    | true =>
      rw [List.count_cons_self] at hhi
      apply Traced.Within.bind (within_readByte (by omega) (by omega))
      intro b _
      exact ih (m + 1) _ (by omega)

theorem longBsrLoop_done {payload : ℕ} (flags : List Bool) (m : ℕ) (estimSize : UInt32)
    (hfits : payload + m + flags.count true ≤ pdu.length) :
    ∃ size, (longBsrLoop pdu payload flags m estimSize).outcome = .done size := by
  induction flags generalizing m estimSize with
  | nil => exact ⟨estimSize, rfl⟩
  | cons flag flags ih =>
    cases flag with
    | false =>
      rw [List.count_cons_of_ne (by decide)] at hfits
      exact ih m estimSize hfits
    | true =>
      rw [List.count_cons_self] at hfits
      rw [longBsrLoop, Traced.outcome_bind, outcome_readByte, byteAt_of_lt (by omega),
        Outcome.done_bind]
      exact ih (m + 1) _ (by omega)

/-- The loop reads beyond a limit if there are more flags than bytes in front of it. -/
theorem longBsrLoop_short {limit : ℕ} (payload : ℕ) (flags : List Bool) (m : ℕ) (estimSize : UInt32)
    (hlimit : limit ≤ pdu.length) (hm : payload + m ≤ limit)
    (hshort : limit < payload + m + flags.count true) :
    ∃ i ∈ (longBsrLoop pdu payload flags m estimSize).reads, limit ≤ i := by
  induction flags generalizing m estimSize with
  | nil =>
    rw [List.count_nil] at hshort
    omega
  | cons flag flags ih =>
    cases flag with
    | false =>
      rw [List.count_cons_of_ne (by decide)] at hshort
      exact ih m estimSize hm hshort
    | true =>
      rw [List.count_cons_self] at hshort
      by_cases hlast : payload + m = limit
      · exact ⟨payload + m, Traced.mem_reads_bind.mpr (.inl (List.mem_singleton_self _)), by omega⟩
      · obtain ⟨i, hi, hle⟩ := ih (m + 1) _ (by omega) (by omega)
        refine ⟨i, Traced.mem_reads_bind.mpr (.inr ⟨_, byteAt_of_lt (by omega), hi⟩), hle⟩

/-! ### The body of the loop -/

theorem anyNonzero_within (count : ℕ) : Traced.Within start (start + count)
    (anyNonzero pdu start count) := by
  induction count generalizing start with
  | zero => exact Traced.Within.pure _ _ _
  | succ count ih =>
    apply Traced.Within.bind (within_readByte (Nat.le_refl _) (by omega))
    intro b _
    split_ifs
    · exact Traced.Within.pure _ _ _
    · intro i hi
      have hrest := ih i hi
      omega

theorem anyNonzero_outcome (count : ℕ) (hfits : start + count ≤ pdu.length) :
    ∃ b, (anyNonzero pdu start count).outcome = .done b ∧
      (b = false ↔ ∀ i, start ≤ i → i < start + count → pdu.getD i 0 = 0) := by
  induction count generalizing start with
  | zero =>
    refine ⟨false, rfl, ?_⟩
    simp only [true_iff]
    intro i hlo hhi
    omega
  | succ count ih =>
    rw [anyNonzero, Traced.outcome_bind, outcome_readByte, byteAt_of_lt (by omega),
      Outcome.done_bind]
    by_cases hzero : pdu.getD start 0 = 0
    · obtain ⟨b, hb, hiff⟩ := @ih (start + 1) (by omega)
      rw [if_neg (not_not.mpr hzero)]
      refine ⟨b, hb, hiff.trans ⟨?_, ?_⟩⟩
      · intro h i hlo hhi
        by_cases hi : i = start
        · rw [hi, hzero]
        · exact h i (by omega) (by omega)
      · exact fun h i hlo hhi => h i (by omega) (by omega)
    · rw [if_pos hzero]
      refine ⟨true, rfl, ?_⟩
      simp only [reduceCtorEq, false_iff]
      exact fun h => hzero (h start (Nat.le_refl _) (by omega))

theorem sizes_of_fixed {lcid : UlSchLcid} (hlcid : lcidAt pdu start = lcid)
    (hfixed : lcid.hasLength = false) :
    headerSize pdu start = 1 ∧ lengthAt pdu start = lcid.fixedLength := by
  rw [headerSize, lengthAt, hlcid, hfixed]
  exact ⟨rfl, rfl⟩

theorem estimateUlBufferShortBsr_within {ce lo hi : ℕ} (hlo : lo ≤ ce) (hhi : ce < hi) :
    Traced.Within lo hi (estimateUlBufferShortBsr pdu ce) := by
  apply Traced.Within.bind (within_readByte hlo hhi)
  intro _ _
  exact Traced.Within.pure _ _ _

theorem estimateUlBufferLongBsr_within {ce lo hi : ℕ} (hlo : lo ≤ ce)
    (hhi : ce + 1 + (lcgFlags (pdu.getD ce 0)).count true ≤ hi) (hin : ce < pdu.length) :
    Traced.Within lo hi (estimateUlBufferLongBsr pdu ce) := by
  apply Traced.Within.bind (within_readByte hlo (by omega))
  intro b hb
  rw [outcome_readByte, byteAt_of_lt hin] at hb
  obtain rfl := Outcome.done.inj hb
  apply Traced.Within.bind
  · intro i hi
    have hloop := longBsrLoop_within _ 0 _ hhi i hi
    omega
  · intro _ _
    exact Traced.Within.pure _ _ _

theorem handleSingleEntryPhr_within {ce lo hi : ℕ} {ue : UlUe} (hlo : lo ≤ ce)
    (hhi : ce + 1 < hi) : Traced.Within lo hi (handleSingleEntryPhr ctx pdu ce ue) := by
  rw [handleSingleEntryPhr]
  split_ifs
  · exact Traced.Within.pure _ _ _
  · apply Traced.Within.bind (within_readByte hlo (by omega))
    intro _ _
    apply Traced.Within.bind (within_readByte (by omega) hhi)
    intro _ _
    exact Traced.Within.pure _ _ _

theorem processSubPdu_within (hend : subPduEnd pdu start ≤ pdu.length)
    (hbsr : ¬ BsrTooShort pdu start) :
    Traced.Within start (subPduEnd pdu start)
      (processSubPdu ctx pdu start (headerSize pdu start) (pdu.getD start 0 &&& 0x3F)
        (lengthAt pdu start) (pdu.length - start) st) := by
  have hpos := headerSize_pos pdu start
  have hkind : ulSchLcid (pdu.getD start 0 &&& 0x3F) = lcidAt pdu start := rfl
  have hlift : ∀ (x : Outcome MacPduState) (macLen : ℕ), Traced.Within start (subPduEnd pdu start)
      (liftM x >>= fun st => (pure (.processed st macLen) : Traced Visited)) := by
    intro x macLen
    exact .bind (.lift _ _ x) fun _ _ => .pure _ _ _
  rw [subPduEnd] at hend hlift ⊢
  rw [processSubPdu, if_neg (by omega), hkind]
  cases hlcid : lcidAt pdu start with
  | ccch64Bits =>
    apply Traced.Within.bind
    · rw [Nat.add_assoc]
      exact anyNonzero_within _
    · intro _ _
      split_ifs
      · exact hlift _ _
      · exact .pure _ _ _
  | ccch48BitsRedcap => exact hlift _ _
  | ccch48Bits => exact hlift _ _
  | srb =>
    apply Traced.Within.bind (.lift _ _ _)
    intro _ _
    split_ifs
    · exact hlift _ _
    · exact .pure _ _ _
  | dtch =>
    dsimp only
    split_ifs
    · exact .bind (.lift _ _ _) fun _ _ => .pure _ _ _
    · exact .pure _ _ _
  | recommendedBitrateQuery => exact .pure _ _ _
  | multiEntryPhr4Oct => exact .pure _ _ _
  | configuredGrantConfirmation => exact .pure _ _ _
  | multiEntryPhr1Oct => exact .pure _ _ _
  | singleEntryPhr =>
    obtain ⟨hsize, hlength⟩ := sizes_of_fixed hlcid rfl
    rw [hsize, hlength]
    apply Traced.Within.bind
      (handleSingleEntryPhr_within (by omega) (by simp [UlSchLcid.fixedLength]))
    exact fun _ _ => .pure _ _ _
  | cRnti =>
    obtain ⟨hsize, hlength⟩ := sizes_of_fixed hlcid rfl
    rw [hsize, hlength]
    dsimp only
    split_ifs
    · apply Traced.Within.bind (within_readByte (by omega) (by simp [UlSchLcid.fixedLength]))
      intro _ _
      apply Traced.Within.bind (within_readByte (by omega) (by simp [UlSchLcid.fixedLength]))
      intro _ _
      exact .bind (.lift _ _ _) fun _ _ => .pure _ _ _
    · exact .pure _ _ _
  | sTruncatedBsr =>
    obtain ⟨hsize, hlength⟩ := sizes_of_fixed hlcid rfl
    rw [hsize, hlength]
    apply Traced.Within.bind (estimateUlBufferShortBsr_within (by omega)
      (by simp [UlSchLcid.fixedLength]))
    exact fun _ _ => .pure _ _ _
  | sBsr =>
    obtain ⟨hsize, hlength⟩ := sizes_of_fixed hlcid rfl
    rw [hsize, hlength]
    apply Traced.Within.bind (estimateUlBufferShortBsr_within (by omega)
      (by simp [UlSchLcid.fixedLength]))
    exact fun _ _ => .pure _ _ _
  | lTruncatedBsr =>
    have hroom := Nat.not_lt.mp fun hshort => hbsr ⟨hlcid ▸ rfl, hshort⟩
    apply Traced.Within.bind (estimateUlBufferLongBsr_within (by omega) (by omega) (by omega))
    exact fun _ _ => .pure _ _ _
  | lBsr =>
    have hroom := Nat.not_lt.mp fun hshort => hbsr ⟨hlcid ▸ rfl, hshort⟩
    apply Traced.Within.bind (estimateUlBufferLongBsr_within (by omega) (by omega) (by omega))
    exact fun _ _ => .pure _ _ _
  | padding => exact .pure _ _ _
  | other => exact .pure _ _ _

/-- How far the loop goes on behind the subheader. -/
def advanceAt (pdu : List UInt8) (start : ℕ) : ℕ :=
  if (lcidAt pdu start).takesRest then (pdu.length - start - headerSize pdu start) % 65536
  else lengthAt pdu start

/-- No assertion of the reader can fail for the UE: it has a cell group and no logical channels,
runs no random access, and gets no SDUs of the CCCH. -/
def Silent (ctx : UlContext) (ue : UlUe) : Prop :=
  ue.hasCellGroup = true ∧ ue.lcConfig = [] ∧ ue.raIdle = false ∧
    ∀ ue, ctx.prepareInitialUlRrcMessage ue = (false, ue)

theorem addDataInd_cases (st : MacPduState) (ind : NrRlcDataInd) :
    addDataInd st ind = .fault .assertion ∨ ∃ st', addDataInd st ind = .done st' := by
  rw [addDataInd, assertFatal]
  split_ifs
  · exact .inr ⟨_, rfl⟩
  · exact .inl rfl

theorem forwardCcch_cases (buf len : ℕ) :
    ¬ Silent ctx st.ue ∧ forwardCcch ctx buf len st = .fault .assertion ∨
      ∃ st', forwardCcch ctx buf len st = .done st' ∧ (Silent ctx st.ue → Silent ctx st'.ue) := by
  by_cases hsilent : Silent ctx st.ue
  · right
    refine ⟨st, ?_, id⟩
    rw [forwardCcch, hsilent.2.2.2]
    rfl
  · rw [forwardCcch]
    dsimp only
    split_ifs
    · rcases addDataInd_cases { st with ue := (ctx.prepareInitialUlRrcMessage st.ue).2 }
        ⟨0, buf, len⟩ with h | ⟨st', h⟩
      · exact .inl ⟨hsilent, h⟩
      · exact .inr ⟨st', h, fun hq => absurd hq hsilent⟩
    · exact .inr ⟨_, rfl, fun hq => absurd hq hsilent⟩

theorem forwardSdu_cases (lcid : UInt8) (buf len : ℕ) (st : MacPduState) :
    forwardSdu lcid buf len st = .fault .assertion ∨ ∃ st', forwardSdu lcid buf len st =
      .done st' :=
  addDataInd_cases _ _

/-- A silent UE has no channel for an SDU. -/
theorem not_silent_of_accepts {lcid : UInt8} (h : st.ue.accepts lcid = true) :
    ¬ Silent ctx st.ue := by
  rintro ⟨-, hnone, -⟩
  rw [UlUe.accepts, UlUe.getLcConfig, hnone] at h
  exact Bool.false_ne_true h

theorem ccch_spec (buf len : ℕ) :
    let x : Traced Visited := liftM (forwardCcch ctx buf len st) >>= fun st =>
      pure (.processed st len)
    ¬ Silent ctx st.ue ∧ x.outcome = .fault .assertion ∨
      ∃ st', x.outcome = .done (.processed st' len) ∧ (Silent ctx st.ue → Silent ctx st'.ue) := by
  intro x
  rcases @forwardCcch_cases ctx st buf len with ⟨hsilent, h⟩ | ⟨st', h, hsilent⟩
  · refine .inl ⟨hsilent, ?_⟩
    rw [Traced.outcome_bind, Traced.outcome_lift, h]
    rfl
  · refine .inr ⟨st', ?_, hsilent⟩
    rw [Traced.outcome_bind, Traced.outcome_lift, h]
    rfl

theorem report_spec {α : Type} {x : Traced α} {f : α → MacPduState} (len : ℕ)
    (hx : ∃ a, x.outcome = .done a) (hf : ∀ a, Silent ctx st.ue → Silent ctx (f a).ue) :
    ∃ st', (x >>= fun a => (pure (.processed (f a) len) : Traced Visited)).outcome =
      .done (.processed st' len) ∧ (Silent ctx st.ue → Silent ctx st'.ue) := by
  obtain ⟨a, ha⟩ := hx
  refine ⟨f a, ?_, hf a⟩
  rw [Traced.outcome_bind, ha]
  rfl

theorem estimateUlBufferLongBsr_done {ce : ℕ}
    (hfits : ce + 1 + (lcgFlags (pdu.getD ce 0)).count true ≤ pdu.length) :
    ∃ size, (estimateUlBufferLongBsr pdu ce).outcome = .done size := by
  obtain ⟨size, hsize⟩ := longBsrLoop_done (lcgFlags (pdu.getD ce 0)) 0 0 hfits
  refine ⟨size.toInt32.toInt, ?_⟩
  rw [estimateUlBufferLongBsr, Traced.outcome_bind, outcome_readByte, byteAt_of_lt (by omega),
    Outcome.done_bind, Traced.outcome_bind, hsize]
  rfl

theorem estimateUlBufferShortBsr_done {ce : ℕ} (hin : ce < pdu.length) :
    ∃ size, (estimateUlBufferShortBsr pdu ce).outcome = .done size := by
  rw [estimateUlBufferShortBsr, Traced.outcome_bind, outcome_readByte, byteAt_of_lt hin]
  exact ⟨_, rfl⟩

theorem handleSingleEntryPhr_done {ce : ℕ} (hin : ce + 1 < pdu.length) (ue : UlUe) :
    ∃ ue', (handleSingleEntryPhr ctx pdu ce ue).outcome = .done ue' ∧
      (Silent ctx ue → Silent ctx ue') := by
  rw [handleSingleEntryPhr]
  split_ifs
  · exact ⟨ue, rfl, id⟩
  · rw [Traced.outcome_bind, outcome_readByte, byteAt_of_lt (by omega), Outcome.done_bind,
      Traced.outcome_bind, outcome_readByte, byteAt_of_lt hin]
    exact ⟨_, rfl, id⟩

theorem processSubPdu_spec (hin : start < pdu.length) (hend : subPduEnd pdu start ≤ pdu.length)
    (hbsr : ¬ BsrTooShort pdu start) :
    let body := processSubPdu ctx pdu start (headerSize pdu start) (pdu.getD start 0 &&& 0x3F)
      (lengthAt pdu start) (pdu.length - start) st
    ¬ Silent ctx st.ue ∧ body.outcome = .fault .assertion ∨
      body.outcome = .done .allZero ∧ AllZero pdu start ∨
      ∃ st', body.outcome = .done (.processed st' (advanceAt pdu start)) ∧ ¬ AllZero pdu start ∧
        (Silent ctx st.ue → Silent ctx st'.ue) := by
  intro body
  have hkind : ulSchLcid (pdu.getD start 0 &&& 0x3F) = lcidAt pdu start := rfl
  have hsum : start + headerSize pdu start + lengthAt pdu start ≤ pdu.length := hend
  by_cases hccch : lcidAt pdu start = .ccch64Bits
  · -- only a CCCH message is looked at whether it is all 0
    have hadvance : advanceAt pdu start = lengthAt pdu start := by
      rw [advanceAt, hccch]
      rfl
    obtain ⟨b, hb, hzero⟩ := anyNonzero_outcome (headerSize pdu start + lengthAt pdu start)
      (by omega : start + _ ≤ pdu.length)
    have hbody : body.outcome = (if b = true then
        (liftM (forwardCcch ctx (start + headerSize pdu start) (lengthAt pdu start) st) >>=
          fun st => (pure (.processed st (lengthAt pdu start)) : Traced Visited))
        else pure .allZero).outcome := by
      change (processSubPdu ..).outcome = _
      rw [processSubPdu, if_neg (by omega), hkind, hccch]
      change (anyNonzero .. >>= _).outcome = _
      rw [Traced.outcome_bind, hb]
      rfl
    have hiff : AllZero pdu start ↔ b = false := by
      rw [hzero, AllZero, subPduEnd, ← Nat.add_assoc]
      exact and_iff_right hccch
    rw [hbody, hadvance]
    cases b with
    | false => exact .inr (.inl ⟨rfl, hiff.mpr rfl⟩)
    | true =>
      rcases @ccch_spec ctx st (start + headerSize pdu start) (lengthAt pdu start) with
        h | ⟨st', h, hsilent⟩
      · exact .inl h
      · refine .inr (.inr ⟨st', h, ?_, hsilent⟩)
        rw [hiff]
        exact Bool.noConfusion
  · have hnot : ¬ AllZero pdu start := fun h => hccch h.1
    suffices hgo : ¬ Silent ctx st.ue ∧ body.outcome = .fault .assertion ∨
        ∃ st', body.outcome = .done (.processed st' (advanceAt pdu start)) ∧
          (Silent ctx st.ue → Silent ctx st'.ue) by
      rcases hgo with h | ⟨st', h, hsilent⟩
      · exact .inl h
      · exact .inr (.inr ⟨st', h, hnot, hsilent⟩)
    change ¬ _ ∧ (processSubPdu ..).outcome = _ ∨ ∃ st', (processSubPdu ..).outcome = _ ∧ _
    rw [processSubPdu, if_neg (by omega), hkind, advanceAt]
    cases hlcid : lcidAt pdu start with
    | ccch64Bits => exact absurd hlcid hccch
    | ccch48BitsRedcap => exact @ccch_spec ctx { st with ue.isRedcap := true } _ _
    | ccch48Bits => exact @ccch_spec ctx st _ _
    | srb =>
      dsimp only
      by_cases hgroup : st.ue.hasCellGroup = true
      · rw [Traced.outcome_bind, Traced.outcome_lift, assertFatal, if_pos hgroup, Outcome.done_bind]
        by_cases haccepts : st.ue.accepts (pdu.getD start 0 &&& 0x3F) = true
        · rw [if_pos haccepts]
          rcases forwardSdu_cases (pdu.getD start 0 &&& 0x3F) (start + headerSize pdu start)
            (lengthAt pdu start) st with h | ⟨st', h⟩
          · refine .inl ⟨not_silent_of_accepts haccepts, ?_⟩
            rw [Traced.outcome_bind, Traced.outcome_lift, h]
            rfl
          · refine .inr ⟨st', ?_, fun hq => absurd hq (not_silent_of_accepts haccepts)⟩
            rw [Traced.outcome_bind, Traced.outcome_lift, h]
            rfl
        · rw [if_neg haccepts]
          exact .inr ⟨st, rfl, id⟩
      · refine .inl ⟨fun hq => hgroup hq.1, ?_⟩
        rw [Traced.outcome_bind, Traced.outcome_lift, assertFatal, if_neg hgroup]
        rfl
    | dtch =>
      dsimp only
      by_cases haccepts : st.ue.accepts (pdu.getD start 0 &&& 0x3F) = true
      · rw [if_pos haccepts]
        rcases forwardSdu_cases (pdu.getD start 0 &&& 0x3F) (start + headerSize pdu start)
          (lengthAt pdu start) st with h | ⟨st', h⟩
        · refine .inl ⟨not_silent_of_accepts haccepts, ?_⟩
          rw [Traced.outcome_bind, Traced.outcome_lift, h]
          rfl
        · rw [Traced.outcome_bind, Traced.outcome_lift, h]
          exact .inr ⟨_, rfl, fun hq => absurd hq (not_silent_of_accepts haccepts)⟩
      · rw [if_neg haccepts]
        exact .inr ⟨st, rfl, id⟩
    | recommendedBitrateQuery => exact .inr ⟨st, rfl, id⟩
    | multiEntryPhr4Oct => exact .inr ⟨st, rfl, id⟩
    | configuredGrantConfirmation => exact .inr ⟨st, rfl, id⟩
    | multiEntryPhr1Oct => exact .inr ⟨st, rfl, id⟩
    | singleEntryPhr =>
      obtain ⟨hsize, hlength⟩ := sizes_of_fixed hlcid rfl
      rw [UlSchLcid.fixedLength] at hlength
      obtain ⟨ue, hue, hsilent⟩ :=
        @handleSingleEntryPhr_done ctx pdu (start + headerSize pdu start) (by omega) st.ue
      refine .inr ⟨{ st with ue }, ?_, hsilent⟩
      dsimp only
      rw [Traced.outcome_bind, hue]
      rfl
    | cRnti =>
      obtain ⟨hsize, hlength⟩ := sizes_of_fixed hlcid rfl
      rw [UlSchLcid.fixedLength] at hlength
      dsimp only
      by_cases hidle : st.ue.raIdle = true
      · refine .inl ⟨fun hq => Bool.false_ne_true (hq.2.2.1.symm.trans hidle), ?_⟩
        rw [if_pos hidle, Traced.outcome_bind, outcome_readByte, byteAt_of_lt (by omega),
          Outcome.done_bind, Traced.outcome_bind, outcome_readByte, byteAt_of_lt (by omega)]
        rfl
      · rw [if_neg hidle]
        exact .inr ⟨st, rfl, id⟩
    | sTruncatedBsr =>
      obtain ⟨hsize, hlength⟩ := sizes_of_fixed hlcid rfl
      rw [UlSchLcid.fixedLength] at hlength
      exact .inr (report_spec _ (estimateUlBufferShortBsr_done (by omega)) fun _ hq => hq)
    | sBsr =>
      obtain ⟨hsize, hlength⟩ := sizes_of_fixed hlcid rfl
      rw [UlSchLcid.fixedLength] at hlength
      exact .inr (report_spec _ (estimateUlBufferShortBsr_done (by omega)) fun _ hq => hq)
    | lTruncatedBsr =>
      have hroom := Nat.not_lt.mp fun hshort => hbsr ⟨hlcid ▸ rfl, hshort⟩
      exact .inr (report_spec _ (estimateUlBufferLongBsr_done (by omega)) fun _ hq => hq)
    | lBsr =>
      have hroom := Nat.not_lt.mp fun hshort => hbsr ⟨hlcid ▸ rfl, hshort⟩
      exact .inr (report_spec _ (estimateUlBufferLongBsr_done (by omega)) fun _ hq => hq)
    | padding => exact .inr ⟨st, rfl, id⟩
    | other => exact .inr ⟨st, rfl, id⟩

theorem processSubPdu_short (hend : subPduEnd pdu start ≤ pdu.length)
    (hshort : BsrTooShort pdu start) :
    ∃ i ∈ (processSubPdu ctx pdu start (headerSize pdu start) (pdu.getD start 0 &&& 0x3F)
      (lengthAt pdu start) (pdu.length - start) st).reads, subPduEnd pdu start ≤ i := by
  have hkind : ulSchLcid (pdu.getD start 0 &&& 0x3F) = lcidAt pdu start := rfl
  have hsum : start + headerSize pdu start + lengthAt pdu start ≤ pdu.length := hend
  have hpos := headerSize_pos pdu start
  obtain ⟨hlong, hshort⟩ := hshort
  have hread : ∃ i ∈ (estimateUlBufferLongBsr pdu (start + headerSize pdu start)).reads,
      subPduEnd pdu start ≤ i := by
    rw [subPduEnd]
    by_cases hempty : lengthAt pdu start = 0
    · exact ⟨_, Traced.mem_reads_bind.mpr (.inl (List.mem_singleton_self _)), by omega⟩
    · obtain ⟨i, hi, hle⟩ := longBsrLoop_short (start + headerSize pdu start + 1)
        (lcgFlags (pdu.getD (start + headerSize pdu start) 0)) 0 0 hsum (by omega) (by omega)
      refine ⟨i, Traced.mem_reads_bind.mpr (.inr ⟨_, byteAt_of_lt (by omega), ?_⟩), hle⟩
      exact Traced.mem_reads_bind.mpr (.inl hi)
  obtain ⟨i, hi, hle⟩ := hread
  refine ⟨i, ?_, hle⟩
  rw [processSubPdu, if_neg (by omega), hkind]
  cases hlcid : lcidAt pdu start <;> rw [hlcid] at hlong
  case lTruncatedBsr => exact Traced.mem_reads_bind.mpr (.inl hi)
  case lBsr => exact Traced.mem_reads_bind.mpr (.inl hi)
  all_goals exact absurd hlong Bool.false_ne_true

/-! ### The walk -/

/-- The visit of the subPDU at an index, behind its subheader. -/
def bodyAt (ctx : UlContext) (pdu : List UInt8) (start : ℕ) (st : MacPduState) : Traced Visited :=
  processSubPdu ctx pdu start (headerSize pdu start) (pdu.getD start 0 &&& 0x3F)
    (lengthAt pdu start) (pdu.length - start) st

/-- The record of this visit. -/
def visitAt (ctx : UlContext) (pdu : List UInt8) (start : ℕ) (st : MacPduState) : SubPdu :=
  ⟨start, headerSize pdu start,
    if (lcidAt pdu start).takesRest then pdu.length - start - headerSize pdu start
    else lengthAt pdu start,
    (decodeUlMacSubPduHeader pdu start).reads ++ (bodyAt ctx pdu start st).reads⟩

/-- One round of the loop, at a subheader that is there. -/
theorem macPduLoop_succ (hfits : start + headerSize pdu start ≤ pdu.length) :
    macPduLoop ctx pdu (fuel + 1) start (pdu.length - start) st =
      match (bodyAt ctx pdu start st).outcome with
      | .done (.processed st' macLen) =>
        (macPduLoop ctx pdu fuel (start + (headerSize pdu start + macLen))
          (pdu.length - start - (headerSize pdu start + macLen)) st').map
            fun rest => (visitAt ctx pdu start st :: rest.1, rest.2)
      | .done .invalid => some ([visitAt ctx pdu start st], .done (finishMacPdu st))
      | .done .allZero => some ([visitAt ctx pdu start st], .done ⟨st.ue, []⟩)
      | .refused => some ([visitAt ctx pdu start st], .refused)
      | .fault f => some ([visitAt ctx pdu start st], .fault f) := by
  have hpos := headerSize_pos pdu start
  rw [macPduLoop, if_neg (by omega)]
  simp only [(decodeUlMacSubPduHeader_spec hfits).1]
  rfl

/-- The first subPDU that is visited starts at the index where the loop is. -/
theorem exists_visit {visits : List SubPdu} {outcome : Outcome MacPduResult}
    (hin : start < pdu.length)
    (hrun : macPduLoop ctx pdu fuel start (pdu.length - start) st = some (visits, outcome)) :
    ∃ v rest, visits = v :: rest ∧ v.start = start ∧
      (start + headerSize pdu start ≤ pdu.length → v = visitAt ctx pdu start st) := by
  cases fuel with
  | zero => cases hrun
  | succ fuel =>
    by_cases hfits : start + headerSize pdu start ≤ pdu.length
    · have hvisit : ∃ rest, visits = visitAt ctx pdu start st :: rest := by
        rw [macPduLoop_succ hfits] at hrun
        split at hrun
        · obtain ⟨rest, -, hrest⟩ := Option.map_eq_some_iff.mp hrun
          exact ⟨rest.1, (Prod.mk.inj hrest).1.symm⟩
        all_goals exact ⟨[], (Prod.mk.inj (Option.some.inj hrun)).1.symm⟩
      obtain ⟨rest, rfl⟩ := hvisit
      exact ⟨_, rest, rfl, rfl, fun _ => rfl⟩
    · rw [macPduLoop, if_neg (by omega)] at hrun
      simp only [(decodeUlMacSubPduHeader_short hin (Nat.not_le.mp hfits)).1] at hrun
      obtain rfl := (Prod.mk.inj (Option.some.inj hrun)).1
      exact ⟨_, [], rfl, rfl, fun h => absurd h hfits⟩

theorem sizes_of_takesRest (hrest : (lcidAt pdu start).takesRest = true) :
    headerSize pdu start = 1 ∧ lengthAt pdu start = 0 ∧ ¬ BsrTooShort pdu start := by
  rw [BsrTooShort, headerSize, lengthAt]
  cases hlcid : lcidAt pdu start <;> rw [hlcid] at hrest
  case padding => exact ⟨rfl, rfl, fun h => Bool.false_ne_true h.1⟩
  case other => exact ⟨rfl, rfl, fun h => Bool.false_ne_true h.1⟩
  all_goals exact absurd hrest Bool.false_ne_true

theorem takesRest_of_isLongBsr {lcid : UlSchLcid} (h : lcid.isLongBsr = true) :
    lcid.takesRest = false := by
  cases lcid
  case lTruncatedBsr => rfl
  case lBsr => rfl
  all_goals exact absurd h Bool.false_ne_true

theorem macPduLoop_processed {macLen : ℕ} {st' : MacPduState}
    (hfits : start + headerSize pdu start ≤ pdu.length)
    (hbody : (bodyAt ctx pdu start st).outcome = .done (.processed st' macLen)) :
    macPduLoop ctx pdu (fuel + 1) start (pdu.length - start) st =
      (macPduLoop ctx pdu fuel (start + headerSize pdu start + macLen)
        (pdu.length - (start + headerSize pdu start + macLen)) st').map
          fun rest => (visitAt ctx pdu start st :: rest.1, rest.2) := by
  rw [macPduLoop_succ hfits, hbody]
  simp only [← Nat.add_assoc, Nat.sub_sub]

/-- The visits of a run are not safe. -/
def UnsafeVisits (pdu : List UInt8) (start : ℕ) (visits : List SubPdu) : Prop :=
  Contiguous start visits → ∃ v ∈ visits, ¬ v.Inside pdu

/-- A bad chain of subPDUs is not read safely for a silent UE. -/
theorem BadFrom.walk (hbad : BadFrom pdu start) (hsilent : Silent ctx st.ue) {visits : List SubPdu}
    {outcome : Outcome MacPduResult}
    (hrun : macPduLoop ctx pdu fuel start (pdu.length - start) st = some (visits, outcome)) :
    UnsafeVisits pdu start visits := by
  induction hbad generalizing fuel st visits with
  | @header start hin hshort =>
    intro _
    cases fuel with
    | zero => cases hrun
    | succ fuel =>
      obtain ⟨houtcome, i, hi, hle⟩ := decodeUlMacSubPduHeader_short hin hshort
      rw [macPduLoop, if_neg (by omega)] at hrun
      simp only [houtcome] at hrun
      obtain rfl := (Prod.mk.inj (Option.some.inj hrun)).1
      exact ⟨_, List.mem_singleton_self _, fun hinside => Nat.not_lt.mpr hle (hinside i hi).1⟩
  | @bsr start hin hend hshort =>
    intro _
    obtain ⟨v, rest, rfl, -, hv⟩ := exists_visit hin hrun
    obtain rfl := hv (Nat.le_trans (Nat.le_add_right _ _) hend)
    obtain ⟨i, hi, hle⟩ := @processSubPdu_short ctx pdu start st hend hshort
    refine ⟨_, List.mem_cons_self, fun hinside => ?_⟩
    have hlt := (hinside i (List.mem_append_right _ hi)).2.2
    rw [visitAt, takesRest_of_isLongBsr hshort.1] at hlt
    exact Nat.not_lt.mpr hle hlt
  | @rest start hrest hlong =>
    intro hcontiguous
    obtain ⟨hsize, hlength, hbsr⟩ := sizes_of_takesRest hrest
    have hend : subPduEnd pdu start ≤ pdu.length := by
      rw [subPduEnd]
      omega
    cases fuel with
    | zero => cases hrun
    | succ fuel =>
      rcases @processSubPdu_spec ctx pdu start st (by omega) hend hbsr with ⟨hnot, -⟩ |
        ⟨-, hall⟩ | ⟨st', hbody, -, -⟩
      · exact absurd hsilent hnot
      · rw [hall.1] at hrest
        exact absurd hrest Bool.false_ne_true
      · -- the next subPDU starts in what should be padding
        rw [macPduLoop_processed (by omega) hbody, advanceAt, hrest, hsize, if_pos rfl] at hrun
        obtain ⟨⟨rest, _⟩, hloop, hvisits⟩ := Option.map_eq_some_iff.mp hrun
        obtain rfl := (Prod.mk.inj hvisits).1
        obtain ⟨v, visits, rfl, hstart, -⟩ := exists_visit (by omega) hloop
        have hnext : v.start = start + 1 + (pdu.length - start - 1) := by
          have h := hcontiguous.2.1
          rw [visitAt, hrest, hsize] at h
          exact h
        omega
  | @next start hin hend hbsr hrest hzero hnext ih =>
    intro hcontiguous
    cases fuel with
    | zero => cases hrun
    | succ fuel =>
      rcases @processSubPdu_spec ctx pdu start st hin hend hbsr with ⟨hnot, -⟩ | ⟨-, hall⟩ |
        ⟨st', hbody, -, hsilent'⟩
      · exact absurd hsilent hnot
      · exact absurd hall hzero
      · rw [macPduLoop_processed (Nat.le_trans (Nat.le_add_right _ _) hend) hbody, advanceAt,
          hrest] at hrun
        obtain ⟨⟨rest, outcome⟩, hloop, hvisits⟩ := Option.map_eq_some_iff.mp hrun
        obtain ⟨rfl, rfl⟩ := Prod.mk.inj hvisits
        have hrestContiguous : Contiguous (subPduEnd pdu start) rest := by
          have h := hcontiguous.2
          rw [visitAt, hrest] at h
          exact h
        change macPduLoop ctx pdu fuel (subPduEnd pdu start)
          (pdu.length - subPduEnd pdu start) st' =
          _ at hloop
        obtain ⟨v, hv, hinside⟩ := ih (hsilent' hsilent) hloop hrestContiguous
        exact ⟨v, List.mem_cons_of_mem _ hv, hinside⟩

theorem end_visitAt (ctx : UlContext) (st : MacPduState)
    (hfits : start + headerSize pdu start ≤ pdu.length) :
    start + (visitAt ctx pdu start st).headerLen + (visitAt ctx pdu start st).length =
      if (lcidAt pdu start).takesRest then pdu.length else subPduEnd pdu start := by
  rw [visitAt, subPduEnd]
  cases (lcidAt pdu start).takesRest with
  | false => rfl
  | true =>
    change start + headerSize pdu start + (pdu.length - start - headerSize pdu start) = pdu.length
    omega

/-- A subPDU that fits, and is not a long BSR that is too short, is visited safely. -/
theorem inside_visitAt (ctx : UlContext) (st : MacPduState)
    (hend : subPduEnd pdu start ≤ pdu.length) (hbsr : ¬ BsrTooShort pdu start) :
    (visitAt ctx pdu start st).Inside pdu := by
  have hfits : start + headerSize pdu start ≤ pdu.length :=
    Nat.le_trans (Nat.le_add_right _ _) hend
  obtain ⟨-, hheader⟩ := decodeUlMacSubPduHeader_spec hfits
  have hlimit := end_visitAt ctx st hfits
  intro i hi
  have hrange : start ≤ i ∧ i < subPduEnd pdu start := by
    rcases List.mem_append.mp hi with hi | hi
    · obtain ⟨hlo, hhi⟩ := hheader i hi
      exact ⟨hlo, Nat.lt_of_lt_of_le hhi (Nat.le_add_right _ _)⟩
    · exact processSubPdu_within hend hbsr i hi
  obtain ⟨hlo, hhi⟩ := hrange
  refine ⟨Nat.lt_of_lt_of_le hhi hend, hlo, ?_⟩
  change i < start + (visitAt ctx pdu start st).headerLen + (visitAt ctx pdu start st).length
  rw [hlimit]
  split_ifs <;> omega

/-- The outcome of a safe run, and its visits. -/
def SafeRun (ctx : UlContext) (pdu : List UInt8) (start : ℕ) (st : MacPduState) : Prop :=
  ∃ fuel visits outcome,
    macPduLoop ctx pdu fuel start (pdu.length - start) st = some (visits, outcome) ∧
      outcome ≠ .fault .outOfBounds ∧ Contiguous start visits ∧ ∀ v ∈ visits, v.Inside pdu

theorem safeRun_last (outcome : Outcome MacPduResult)
    (hinside : (visitAt ctx pdu start st).Inside pdu) (houtcome : outcome ≠ .fault .outOfBounds)
    (hrun : macPduLoop ctx pdu 1 start (pdu.length - start) st =
      some ([visitAt ctx pdu start st], outcome)) : SafeRun ctx pdu start st := by
  refine ⟨1, _, outcome, hrun, houtcome, ⟨rfl, trivial⟩, ?_⟩
  intro v hv
  obtain rfl := List.mem_singleton.mp hv
  exact hinside

/-- Any other chain is read safely. -/
theorem exists_walk (ctx : UlContext) (st : MacPduState) (hgood : ¬ BadFrom pdu start)
    (hle : start ≤ pdu.length) : SafeRun ctx pdu start st := by
  induction hroom : pdu.length - start using Nat.strongRecOn generalizing start st with
  | _ room ih =>
    subst hroom
    by_cases hin : start < pdu.length
    · have hfits : start + headerSize pdu start ≤ pdu.length :=
        Nat.not_lt.mp fun hshort => hgood (.header hin hshort)
      have hpos := headerSize_pos pdu start
      by_cases hend : subPduEnd pdu start ≤ pdu.length
      · have hbsr : ¬ BsrTooShort pdu start := fun hshort => hgood (.bsr hin hend hshort)
        have hinside := inside_visitAt ctx st hend hbsr
        rcases @processSubPdu_spec ctx pdu start st hin hend hbsr with ⟨-, hbody⟩ | ⟨hbody, -⟩ |
          ⟨st', hbody, hzero, -⟩
        · apply safeRun_last (.fault .assertion) hinside (by simp)
          rw [macPduLoop_succ hfits, bodyAt, hbody]
        · apply safeRun_last (.done ⟨st.ue, []⟩) hinside (by simp)
          rw [macPduLoop_succ hfits, bodyAt, hbody]
        · -- the walk goes on where this subPDU ends
          have hnext : start + headerSize pdu start + advanceAt pdu start =
              if (lcidAt pdu start).takesRest then pdu.length else subPduEnd pdu start := by
            rw [advanceAt]
            cases hrest : (lcidAt pdu start).takesRest with
            | false => rfl
            | true =>
              have hlong := Nat.not_lt.mp fun hlong => hgood (.rest hrest hlong)
              obtain ⟨hsize, -⟩ := sizes_of_takesRest hrest
              rw [hsize, if_pos rfl, if_pos rfl]
              omega
          have hgood' : ¬ BadFrom pdu (start + headerSize pdu start + advanceAt pdu start) := by
            rw [hnext]
            cases hrest : (lcidAt pdu start).takesRest with
            | false => exact fun hbad => hgood (.next hin hend hbsr hrest hzero hbad)
            | true =>
              rw [if_pos rfl]
              intro hbad
              cases hbad <;> omega
          have hle' : start + headerSize pdu start + advanceAt pdu start ≤ pdu.length := by
            rw [hnext]
            split_ifs <;> omega
          obtain ⟨fuel, visits, outcome, hrun, houtcome, hcontiguous, hvisits⟩ :=
            ih _ (by omega) st' hgood' hle' rfl
          refine ⟨fuel + 1, visitAt ctx pdu start st :: visits, outcome, ?_, houtcome,
            ⟨rfl, ?_⟩, ?_⟩
          · rw [macPduLoop_processed hfits hbody, hrun]
            rfl
          · change Contiguous (start + _ + _) visits
            rw [end_visitAt ctx st hfits, ← hnext]
            exact hcontiguous
          · intro v hv
            rcases List.mem_cons.mp hv with rfl | hv
            · exact hinside
            · exact hvisits v hv
      · -- the subPDU is too long, and is not looked at
        obtain ⟨-, hheader⟩ := decodeUlMacSubPduHeader_spec hfits
        have hbody : bodyAt ctx pdu start st = ⟨.done .invalid, []⟩ := by
          rw [subPduEnd] at hend
          rw [bodyAt, processSubPdu, if_pos (by omega)]
          rfl
        apply safeRun_last (.done (finishMacPdu st)) ?_ (by simp)
        · rw [macPduLoop_succ hfits, hbody]
        · intro i hi
          rw [visitAt, hbody, List.append_nil] at hi
          obtain ⟨hlo, hhi⟩ := hheader i hi
          exact ⟨Nat.lt_of_lt_of_le hhi hfits, hlo,
            Nat.lt_of_lt_of_le hhi (Nat.le_add_right _ _)⟩
    · refine ⟨1, [], .done (finishMacPdu st), ?_, by simp, trivial, by simp⟩
      rw [macPduLoop, if_pos (by omega)]

theorem BadPdu.not_parsesSafely {ue : UlUe} (hbad : BadPdu pdu) (hsilent : Silent ctx ue) :
    ¬ ParsesSafely ctx ue pdu := by
  rintro ⟨fuel, visits, outcome, hrun, houtcome, hcontiguous, hinside⟩
  rw [nrProcessMacPdu] at hrun
  rcases hbad with rfl | hbad
  · obtain rfl := (Prod.mk.inj (Option.some.inj hrun)).2
    exact houtcome rfl
  · have hpos : 0 < pdu.length := by
      rw [List.length_pos_iff]
      rintro rfl
      cases hbad with
      | header hin _ => exact Nat.not_lt_zero _ hin
      | bsr hin _ _ => exact Nat.not_lt_zero _ hin
      | rest _ hlong => exact Nat.not_lt_zero _ hlong
      | next hin _ _ _ _ _ => exact Nat.not_lt_zero _ hin
    rw [byteAt_of_lt hpos] at hrun
    change macPduLoop ctx pdu fuel 0 (pdu.length - 0) ⟨ue, [], 0⟩ = _ at hrun
    obtain ⟨v, hv, houtside⟩ := hbad.walk hsilent hrun hcontiguous
    exact houtside (hinside v hv)

theorem parsesSafely_of_not_bad (ctx : UlContext) (ue : UlUe) (hgood : ¬ BadPdu pdu) :
    ParsesSafely ctx ue pdu := by
  rw [BadPdu, not_or] at hgood
  have hpos := List.length_pos_iff.mpr hgood.1
  obtain ⟨fuel, visits, outcome, hrun, hsafe⟩ :=
    exists_walk ctx ⟨ue, [], 0⟩ hgood.2 (Nat.zero_le _)
  refine ⟨fuel, visits, outcome, ?_, hsafe⟩
  rw [nrProcessMacPdu, byteAt_of_lt hpos]
  exact hrun

/-- A caller that hands on no SDUs of the CCCH. -/
def silentContext : UlContext := ⟨0, fun ue => (false, ue)⟩

/-- A UE with a cell group and no logical channels. -/
def silentUe : UlUe := ⟨true, [], false, false, 0, 0, none, 0, fun _ => 0, 0⟩

theorem silent_silentUe : Silent silentContext silentUe := ⟨rfl, rfl, rfl, fun _ => rfl⟩

/-- A PDU is read safely for all UEs exactly when it is not bad. -/
theorem parsesSafely_iff (pdu : List UInt8) :
    (∀ ctx ue, ParsesSafely ctx ue pdu) ↔ ¬ BadPdu pdu := by
  constructor
  · intro hsafe hbad
    exact hbad.not_parsesSafely silent_silentUe (hsafe silentContext silentUe)
  · exact fun hgood ctx ue => parsesSafely_of_not_bad ctx ue hgood

/-- A long truncated BSR for two logical channel groups, with the buffer size of the first one. -/
def truncatedBsr : List UInt8 := [0x3C, 2, 0x03, 5]

example : (nrProcessMacPdu silentContext truncatedBsr silentUe 2).map Prod.fst =
    some [⟨0, 2, 2, [0, 1, 2, 3, 4]⟩] := by
  rfl

/-- The buffer size of the second group is read behind the PDU. -/
theorem not_parsesSafely_truncatedBsr :
    ¬ ∀ ctx ue pdu, ParsesSafely ctx ue pdu := by
  intro hsafe
  have hbad : BadPdu truncatedBsr := .inr (.bsr (by decide) (by decide) ⟨rfl, by decide⟩)
  exact hbad.not_parsesSafely silent_silentUe (hsafe silentContext silentUe truncatedBsr)

end LlmHric.Mac
