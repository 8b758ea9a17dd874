import LlmHric.Nas.ServiceIes

/-! A service request starts with the key set identifier and the service type, and the 5G-S-TMSI of
the UE; the status of the PDU sessions and a NAS message container may follow. The fields that have
fewer than eight bits in the message have them in the structure as well. -/

namespace LlmHric.Nas

open ByteOrder Checked

/-! ### Identities -/

/-- `NasKeySetIdentifier`. -/
structure NasKeySetIdentifier where
  tsc : Fin 2
  naskeysetidentifier : Fin 8
  deriving DecidableEq

/-- `Stmsi5GSMobileIdentity_t`. -/
structure Stmsi5gsMobileIdentity where
  digit1 : Fin 16
  spare : Fin 2
  typeofidentity : Fin 8
  amfsetid : Fin 1024
  amfpointer : Fin 64
  tmsi : UInt32

/-- `DIGIT1`. -/
def digit1 : Fin 16 := ⟨0xF, by decide⟩

/-- `FGS_MOBILE_IDENTITY_5GS_TMSI`. -/
def fgsMobileIdentity5gsTmsi : Fin 8 := 4

/-- `encode_nas_key_set_identifier`. -/
def encodeNasKeySetIdentifier (ksi : NasKeySetIdentifier) (iei : UInt8) : UInt8 :=
  ((iei &&& (0xf0 : UInt8)) ||| ((UInt8.ofNat ksi.tsc.val &&& 0x1) <<< 3)) |||
    (UInt8.ofNat ksi.naskeysetidentifier.val &&& 0x7)

/-- `decode_nas_key_set_identifier` without an identifier. -/
def decodeNasKeySetIdentifier (value : UInt8) : NasKeySetIdentifier :=
  ⟨Fin.ofNat 2 ((value >>> 3) &&& 0x1).toNat, Fin.ofNat 8 (value &&& 0x7).toNat⟩

namespace Stmsi5gsMobileIdentity

def octet4 (stmsi : Stmsi5gsMobileIdentity) : UInt8 :=
  (UInt8.ofNat Nas.digit1.val <<< 4) ||| ((UInt8.ofNat stmsi.spare.val &&& 0x1) <<< 3) |||
    (UInt8.ofNat stmsi.typeofidentity.val &&& 0x7)

/-- The AMF set and the AMF pointer. -/
def amf (stmsi : Stmsi5gsMobileIdentity) : ℕ :=
  stmsi.amfsetid.val <<< 6 ||| (stmsi.amfpointer.val &&& 0x3f)

def bytes (stmsi : Stmsi5gsMobileIdentity) : List UInt8 :=
  [stmsi.octet4] ++ (bytesBE stmsi.amf 2 ++ bytesBE stmsi.tmsi.toNat 4)

@[simp] theorem length_bytes (stmsi : Stmsi5gsMobileIdentity) : stmsi.bytes.length = 7 := by
  simp [bytes]

/-- An identity of this type, as decoding leaves it. -/
def Fits (stmsi : Stmsi5gsMobileIdentity) : Prop :=
  stmsi.digit1 = Nas.digit1 ∧ stmsi.typeofidentity = fgsMobileIdentity5gsTmsi

end Stmsi5gsMobileIdentity

/-- `encode_stmsi_5gs_mobile_identity` at a position of a buffer, with the length it is given. -/
def encodeStmsi5gsMobileIdentity (buffer : List UInt8) (pos : ℕ) (stmsi : Stmsi5gsMobileIdentity)
    (len : ℕ) : Outcome (List UInt8 × ℤ) :=
  if len < 9 then .done (buffer, -1)
  else do
    let writer := (Writer.put [stmsi.octet4]).andThen
      ((Writer.put (bytesBE stmsi.amf 2)).andThen (Writer.put (bytesBE stmsi.tmsi.toNat 4)))
    let (buffer, written) ← writer buffer pos
    return (buffer, written - pos)

/-- `decode_stmsi_5gs_mobile_identity`. -/
def decodeStmsi5gsMobileIdentity (buffer : List UInt8) : Outcome (Stmsi5gsMobileIdentity × ℕ) :=
  if buffer.length < 9 then .refused
  else do
    let octet ← byteAt buffer 0
    let typeofidentity := Fin.ofNat 8 (octet &&& 0x7).toNat
    if typeofidentity ≠ fgsMobileIdentity5gsTmsi then .refused
    else
      let temp ← readSlice buffer 1 2
      let tmsi ← readSlice buffer 3 4
      return (⟨digit1, Fin.ofNat 2 ((octet >>> 3) &&& 0x1).toNat, typeofidentity,
        Fin.ofNat 1024 ((valueBE temp >>> 6) &&& 0x03ff), Fin.ofNat 64 (valueBE temp &&& 0x3f),
        UInt32.ofNat (valueBE tmsi)⟩, 7)

theorem encodeStmsi5gsMobileIdentity_eq {room : List UInt8} {len : ℕ} (pre : List UInt8)
    (stmsi : Stmsi5gsMobileIdentity) (hlen : 9 ≤ len) (hroom : 7 ≤ room.length) :
    encodeStmsi5gsMobileIdentity (pre ++ room) pre.length stmsi len =
      .done (pre ++ (stmsi.bytes ++ room.drop 7), 7) := by
  have hwrites := (Writer.writes_put [stmsi.octet4]).andThen
    ((Writer.writes_put (bytesBE stmsi.amf 2)).andThen
      (Writer.writes_put (bytesBE stmsi.tmsi.toNat 4)))
  have hrun := hwrites pre room (by rw [← Stmsi5gsMobileIdentity.bytes, stmsi.length_bytes]; omega)
  rw [← Stmsi5gsMobileIdentity.bytes, stmsi.length_bytes] at hrun
  rw [encodeStmsi5gsMobileIdentity, if_neg (by omega)]
  dsimp only
  have hseven : ((pre.length + 7 : ℕ) : ℤ) - pre.length = 7 := by omega
  rw [hrun, Outcome.done_bind]
  dsimp only
  rw [hseven, Outcome.pure_eq]

theorem decodeStmsi5gsMobileIdentity_append {stmsi : Stmsi5gsMobileIdentity} (h : stmsi.Fits)
    {rest : List UInt8} (hrest : 2 ≤ rest.length) :
    decodeStmsi5gsMobileIdentity (stmsi.bytes ++ rest) = .done (stmsi, 7) := by
  obtain ⟨d, spare, typeofidentity, amfsetid, amfpointer, tmsi⟩ := stmsi
  obtain ⟨rfl, rfl⟩ : d = digit1 ∧ typeofidentity = fgsMobileIdentity5gsTmsi := h
  have hoctet : ∀ spare : Fin 2,
      let octet := Stmsi5gsMobileIdentity.octet4 ⟨digit1, spare, fgsMobileIdentity5gsTmsi, 0, 0, 0⟩
      Fin.ofNat 8 (octet &&& 0x7).toNat = fgsMobileIdentity5gsTmsi ∧
        Fin.ofNat 2 ((octet >>> 3) &&& 0x1).toNat = spare := by decide
  obtain ⟨htype, hspare⟩ := hoctet spare
  set stmsi : Stmsi5gsMobileIdentity :=
    ⟨digit1, spare, fgsMobileIdentity5gsTmsi, amfsetid, amfpointer, tmsi⟩ with hstmsi
  have hlen : ¬ (stmsi.bytes ++ rest).length < 9 := by
    rw [List.length_append, stmsi.length_bytes]
    omega
  have hamf : readSlice (stmsi.bytes ++ rest) 1 2 = .done (bytesBE stmsi.amf 2) := by
    rw [Stmsi5gsMobileIdentity.bytes, List.append_assoc, List.append_assoc]
    exact readSlice_append [stmsi.octet4] _ rfl (length_bytesBE ..).symm
  have htmsi : readSlice (stmsi.bytes ++ rest) 3 4 = .done (bytesBE tmsi.toNat 4) := by
    rw [Stmsi5gsMobileIdentity.bytes, ← List.append_assoc [stmsi.octet4], List.append_assoc]
    exact readSlice_append ([stmsi.octet4] ++ bytesBE stmsi.amf 2) _ (by simp)
      (length_bytesBE ..).symm
  have hvalue : valueBE (bytesBE stmsi.amf 2) = amfsetid.val * 64 + amfpointer.val := by
    have hmask : amfpointer.val &&& 0x3f = amfpointer.val :=
      (Nat.and_two_pow_sub_one_eq_mod _ 6).trans (Nat.mod_eq_of_lt amfpointer.isLt)
    have hor : amfsetid.val <<< 6 ||| amfpointer.val = amfsetid.val * 64 + amfpointer.val := by
      rw [← Nat.shiftLeft_add_eq_or_of_lt amfpointer.isLt, Nat.shiftLeft_eq]
    have hset := amfsetid.isLt
    have hpointer := amfpointer.isLt
    rw [valueBE_bytesBE, Stmsi5gsMobileIdentity.amf, hmask, hor]
    exact Nat.mod_eq_of_lt (by omega)
  have hamfsetid : Fin.ofNat 1024 ((amfsetid.val * 64 + amfpointer.val) >>> 6 &&& 0x03ff) =
      amfsetid := by
    have hpointer := amfpointer.isLt
    have hset := amfsetid.isLt
    apply Fin.ext
    rw [Fin.val_ofNat, Nat.shiftRight_eq_div_pow, Nat.and_two_pow_sub_one_eq_mod _ 10]
    omega
  have hamfpointer : Fin.ofNat 64 ((amfsetid.val * 64 + amfpointer.val) &&& 0x3f) =
      amfpointer := by
    have hpointer := amfpointer.isLt
    apply Fin.ext
    rw [Fin.val_ofNat, Nat.and_two_pow_sub_one_eq_mod _ 6]
    omega
  have htmsiValue : UInt32.ofNat (valueBE (bytesBE tmsi.toNat 4)) = tmsi := by
    have hlt : tmsi.toNat < 256 ^ 4 := tmsi.toNat_lt
    rw [valueBE_bytesBE, Nat.mod_eq_of_lt hlt, UInt32.ofNat_toNat]
  have hread : byteAt (stmsi.bytes ++ rest) 0 = .done stmsi.octet4 := rfl
  have htype' : Fin.ofNat 8 (stmsi.octet4 &&& 0x7).toNat = fgsMobileIdentity5gsTmsi := htype
  have hspare' : Fin.ofNat 2 ((stmsi.octet4 >>> 3) &&& 0x1).toNat = spare := hspare
  rw [decodeStmsi5gsMobileIdentity, if_neg hlen, hread, Outcome.done_bind]
  dsimp only
  rw [htype', if_neg (by simp), hamf, Outcome.done_bind, htmsi, Outcome.done_bind, hvalue,
    hamfsetid, hamfpointer, htmsiValue, hspare']
  rfl

theorem decodeStmsi5gsMobileIdentity_fits {buffer : List UInt8} {stmsi : Stmsi5gsMobileIdentity}
    {n : ℕ} (h : decodeStmsi5gsMobileIdentity buffer = .done (stmsi, n)) : stmsi.Fits := by
  unfold decodeStmsi5gsMobileIdentity at h
  split_ifs at h
  obtain ⟨octet, -, h⟩ := Outcome.bind_eq_done_iff.mp h
  dsimp only at h
  split_ifs at h with htype
  obtain ⟨temp, -, h⟩ := Outcome.bind_eq_done_iff.mp h
  obtain ⟨tmsi, -, h⟩ := Outcome.bind_eq_done_iff.mp h
  obtain ⟨rfl, -⟩ := Prod.mk.inj (Outcome.done.inj h)
  exact ⟨rfl, not_not.mp htype⟩

/-! ### The message -/

/-- `fgs_service_request_msg_t`; an optional element that is missing is `none`. -/
structure FgsServiceRequestMsg where
  naskeysetidentifier : NasKeySetIdentifier
  serviceType : Fin 16
  fivegSTmsi : Stmsi5gsMobileIdentity
  pduSessionStatus : Option Psi
  fgsnasmessagecontainer : Option (List UInt8)

def ksiAndServiceType (ksi : NasKeySetIdentifier) (serviceType : Fin 16) : UInt8 :=
  ((encodeNasKeySetIdentifier ksi 0 &&& 0x0f) <<< 4) ||| (UInt8.ofNat serviceType.val &&& 0x0f)

/-- `encode_fgs_service_request`. The result of the encoder of the identity is added without a
check. -/
def encodeFgsServiceRequest (buffer : List UInt8) (msg : FgsServiceRequestMsg) :
    Outcome (List UInt8 × ℕ) :=
  if buffer.length < 10 then .refused
  else do
    let buffer ← writeAt buffer 0 [ksiAndServiceType msg.naskeysetidentifier msg.serviceType]
    let (buffer, ret) ← encodeStmsi5gsMobileIdentity buffer 3 msg.fivegSTmsi (buffer.length - 3)
    let encoded : ℤ := 3 + ret
    let buffer ← writeAt buffer 1 (bytesBE ((encoded - 2 - 1) % 65536).toNat 2)
    (Writer.optional (encodePduSessionIe ieiPduSessionStatus) msg.pduSessionStatus).andThen
      (Writer.optional encodeFgcNasMessageContainer msg.fgsnasmessagecontainer) buffer encoded.toNat

/-- `get_tlv_ie_len`. -/
def getTlvIeLen (buffer : List UInt8) : Outcome ℕ :=
  if buffer.length < 2 then .refused
  else do
    let ieLen ← byteAt buffer 1
    if buffer.length < 2 + ieLen.toNat then .refused else return 2 + ieLen.toNat

/-- The loop of `decode_fgs_service_request` over the bytes that are left. The elements that are
skipped, and the container, are read with their identifier. -/
def decodeRequestIes (decoded : ℕ) (sr : FgsServiceRequestMsg) :
    List UInt8 → Outcome (FgsServiceRequestMsg × ℕ)
  | [] => .done (sr, decoded)
  | iei :: rest =>
    if iei = ieiPduSessionStatus then do
      let (psi, n) ← decodePduSessionIe rest
      decodeRequestIes (decoded + 1 + n) { sr with pduSessionStatus := some psi } (rest.drop n)
    else if iei = ieiFgsNasMessageContainer then
      if sr.fgsnasmessagecontainer.isSome then .refused
      else do
        let (contents, n) ← decodeFgcNasMessageContainer (iei :: rest)
        decodeRequestIes (decoded + n) { sr with fgsnasmessagecontainer := some contents }
          (rest.drop (n - 1))
    else if iei = ieiUplinkDataStatus ∨ iei = ieiAllowedPduSessionStatus ∨
        iei = ieiUeRequestType ∨ iei = ieiPagingRestriction then do
      let n ← getTlvIeLen (iei :: rest)
      decodeRequestIes (decoded + n) sr (rest.drop (n - 1))
    else .refused
  termination_by bytes => bytes.length
  decreasing_by all_goals
    rw [List.length_drop, List.length_cons]
    omega

/-- `decode_fgs_service_request`. -/
def decodeFgsServiceRequest (buffer : List UInt8) : Outcome (FgsServiceRequestMsg × ℕ) :=
  if buffer.length < 1 then .refused
  else do
    let octet ← byteAt buffer 0
    let ksi := decodeNasKeySetIdentifier (octet >>> 4)
    if buffer.length < 3 then .refused
    else
      let (stmsi, n) ← decodeStmsi5gsMobileIdentity (buffer.drop 3)
      decodeRequestIes (3 + n)
        ⟨ksi, ⟨(octet &&& 0x0f).toNat % 16, Nat.mod_lt _ (by decide)⟩, stmsi, none, none⟩
        (buffer.drop (3 + n))

namespace FgsServiceRequestMsg

variable (msg : FgsServiceRequestMsg)

/-- The bytes of the mandatory fields. -/
def header : List UInt8 :=
  [ksiAndServiceType msg.naskeysetidentifier msg.serviceType] ++
    (bytesBE 7 2 ++ msg.fivegSTmsi.bytes)

/-- The bytes of the optional elements. -/
def ies : List UInt8 :=
  msg.pduSessionStatus.elim [] (pduSessionIe ieiPduSessionStatus) ++
    msg.fgsnasmessagecontainer.elim [] nasMessageContainer

/-- The bytes of the message. -/
def bytes : List UInt8 := msg.header ++ msg.ies

/-- In every buffer that has room for the message it is encoded, and what was encoded is decoded to
the same message. -/
def RoundTrips : Prop :=
  ∀ buffer : List UInt8, msg.bytes.length ≤ buffer.length →
    ∃ buffer' n, encodeFgsServiceRequest buffer msg = .done (buffer', n) ∧
      decodeFgsServiceRequest (buffer'.take n) = .done (msg, n)

/-- The fields have values that decoding can return. -/
def Fits : Prop := msg.fivegSTmsi.Fits ∧ ∀ psi ∈ msg.pduSessionStatus, psi.Fits

@[simp] theorem length_header : msg.header.length = 10 := by
  simp [header]

end FgsServiceRequestMsg

variable {msg : FgsServiceRequestMsg} {buffer : List UInt8}

/-- The mandatory fields are written if the buffer is long enough for the check of the identity. -/
theorem encodeFgsServiceRequest_header (hbuffer : 12 ≤ buffer.length) :
    encodeFgsServiceRequest buffer msg =
      (Writer.optional (encodePduSessionIe ieiPduSessionStatus) msg.pduSessionStatus).andThen
        (Writer.optional encodeFgcNasMessageContainer msg.fgsnasmessagecontainer)
        (msg.header ++ buffer.drop 10) msg.header.length := by
  obtain ⟨b₀, b₁, b₂, room, rfl⟩ : ∃ b₀ b₁ b₂ rest, buffer = b₀ :: b₁ :: b₂ :: rest := by
    match buffer, hbuffer with
    | [], h | [_], h | [_, _], h =>
      exact absurd h (by simp only [List.length_cons, List.length_nil]; omega)
    | b₀ :: b₁ :: b₂ :: rest, _ => exact ⟨b₀, b₁, b₂, rest, rfl⟩
  have hroom : 9 ≤ room.length := by
    simp only [List.length_cons] at hbuffer
    omega
  set octet := ksiAndServiceType msg.naskeysetidentifier msg.serviceType with hoctet
  have hfirst : writeAt (b₀ :: b₁ :: b₂ :: room) 0 [octet] = .done (octet :: b₁ :: b₂ :: room) :=
    writeAt_append [] [b₀] (b₁ :: b₂ :: room) rfl rfl
  have hstmsi : encodeStmsi5gsMobileIdentity (octet :: b₁ :: b₂ :: room) 3 msg.fivegSTmsi
      ((octet :: b₁ :: b₂ :: room).length - 3) =
      .done (octet :: b₁ :: b₂ :: (msg.fivegSTmsi.bytes ++ room.drop 7), 7) := by
    refine encodeStmsi5gsMobileIdentity_eq [octet, b₁, b₂] msg.fivegSTmsi ?_ (by omega)
    simp only [List.length_cons]
    omega
  have hlength :
      writeAt (octet :: b₁ :: b₂ :: (msg.fivegSTmsi.bytes ++ room.drop 7)) 1 (bytesBE 7 2) =
      .done (msg.header ++ room.drop 7) := by
    have h :
        writeAt ([octet] ++ ([b₁, b₂] ++ (msg.fivegSTmsi.bytes ++ room.drop 7))) 1 (bytesBE 7 2) =
        .done ([octet] ++ (bytesBE 7 2 ++ (msg.fivegSTmsi.bytes ++ room.drop 7))) :=
      writeAt_append _ _ _ rfl rfl
    simpa [FgsServiceRequestMsg.header] using h
  have hlen : ¬ (b₀ :: b₁ :: b₂ :: room).length < 10 := by
    simp only [List.length_cons]
    omega
  rw [encodeFgsServiceRequest, if_neg hlen, hfirst, Outcome.done_bind, hstmsi, Outcome.done_bind]
  dsimp only
  change (writeAt _ 1 (bytesBE 7 2) >>= _) = _
  rw [hlength, Outcome.done_bind, FgsServiceRequestMsg.length_header]
  rfl

theorem encodeFgsServiceRequest_eq (hbuffer : 12 ≤ buffer.length)
    (hroom : msg.bytes.length ≤ buffer.length)
    (hcontainer : ∀ contents ∈ msg.fgsnasmessagecontainer,
      contents ≠ [] ∧ contents.length < 2 ^ 31) :
    encodeFgsServiceRequest buffer msg =
      .done (msg.bytes ++ buffer.drop msg.bytes.length, msg.bytes.length) := by
  have hwrites := (Writer.Writes.optional fun psi (_ : psi ∈ msg.pduSessionStatus) =>
      writes_encodePduSessionIe ieiPduSessionStatus psi).andThen
    (Writer.Writes.optional fun contents (hc : contents ∈ msg.fgsnasmessagecontainer) =>
      writes_encodeFgcNasMessageContainer (hcontainer contents hc).1 (hcontainer contents hc).2)
  rw [← FgsServiceRequestMsg.ies] at hwrites
  rw [FgsServiceRequestMsg.bytes, List.length_append, msg.length_header] at hroom
  rw [encodeFgsServiceRequest_header hbuffer,
    hwrites msg.header (buffer.drop 10) (by rw [List.length_drop]; omega)]
  simp [FgsServiceRequestMsg.bytes, List.drop_drop]

/-! ### Decoding -/

theorem decodeRequestIes_pduSessionIe {decoded : ℕ} {sr : FgsServiceRequestMsg} {psi : Psi}
    (h : psi.Fits) {rest : List UInt8} (hrest : rest ≠ []) :
    decodeRequestIes decoded sr (pduSessionIe ieiPduSessionStatus psi ++ rest) =
      decodeRequestIes (decoded + 4) { sr with pduSessionStatus := some psi } rest := by
  have hdecode := decodePduSessionIe_append h hrest
  have hsplit : pduSessionIe ieiPduSessionStatus psi ++ rest =
      ieiPduSessionStatus :: ([2, octet3 psi, octet4 psi] ++ rest) := rfl
  rw [hsplit, decodeRequestIes, if_pos rfl, hdecode, Outcome.done_bind]
  rfl

theorem decodeRequestIes_pduSessionIe_last {decoded : ℕ} {sr : FgsServiceRequestMsg} {psi : Psi} :
    decodeRequestIes decoded sr (pduSessionIe ieiPduSessionStatus psi) = .refused := by
  rw [pduSessionIe, decodeRequestIes, if_pos rfl, decodePduSessionIe_last]
  rfl

theorem decodeRequestIes_container {decoded : ℕ} {sr : FgsServiceRequestMsg}
    {contents : List UInt8} (hmax : contents.length < 65536)
    (hsr : sr.fgsnasmessagecontainer = none) :
    decodeRequestIes decoded sr (nasMessageContainer contents) =
      .done ({ sr with fgsnasmessagecontainer := some contents }, decoded +
        (3 + contents.length)) := by
  have hdecode := decodeFgcNasMessageContainer_append hmax []
  rw [List.append_nil] at hdecode
  have hcons : nasMessageContainer contents = ieiFgsNasMessageContainer ::
      (bytesBE contents.length 2 ++ contents) := rfl
  have hdrop : (bytesBE contents.length 2 ++ contents).drop (3 + contents.length - 1) = [] := by
    apply List.drop_eq_nil_of_le
    rw [List.length_append, length_bytesBE]
    omega
  rw [hcons] at hdecode ⊢
  rw [decodeRequestIes, if_neg (by decide), if_pos rfl, hsr, if_neg (by simp), hdecode,
    Outcome.done_bind]
  dsimp only
  rw [hdrop, decodeRequestIes]

theorem decodeKsiAndServiceType (ksi : NasKeySetIdentifier) (serviceType : Fin 16) :
    decodeNasKeySetIdentifier (ksiAndServiceType ksi serviceType >>> 4) = ksi ∧
      ⟨(ksiAndServiceType ksi serviceType &&& 0x0f).toNat % 16, Nat.mod_lt _ (by decide)⟩ =
        serviceType := by
  have hall : ∀ (tsc : Fin 2) (k : Fin 8) (serviceType : Fin 16),
      decodeNasKeySetIdentifier (ksiAndServiceType ⟨tsc, k⟩ serviceType >>> 4) = ⟨tsc, k⟩ ∧
        ⟨(ksiAndServiceType ⟨tsc, k⟩ serviceType &&& 0x0f).toNat % 16, Nat.mod_lt _ (by decide)⟩ =
          serviceType := by
    decide
  exact hall ksi.tsc ksi.naskeysetidentifier serviceType

/-- The mandatory fields are read if two more bytes follow them. -/
theorem decodeFgsServiceRequest_header (hfits : msg.fivegSTmsi.Fits) (hies : 2 ≤ msg.ies.length) :
    decodeFgsServiceRequest msg.bytes =
      decodeRequestIes 10 { msg with pduSessionStatus := none, fgsnasmessagecontainer := none }
        msg.ies := by
  have hlen : msg.bytes.length = 10 + msg.ies.length := by
    rw [FgsServiceRequestMsg.bytes, List.length_append, msg.length_header]
  have hread : byteAt msg.bytes 0 =
      .done (ksiAndServiceType msg.naskeysetidentifier msg.serviceType) := rfl
  have hdrop : msg.bytes.drop 3 = msg.fivegSTmsi.bytes ++ msg.ies := rfl
  have hdrop' : msg.bytes.drop 10 = msg.ies := by
    rw [FgsServiceRequestMsg.bytes, ← msg.length_header, List.drop_left]
  obtain ⟨hksi, htype⟩ := decodeKsiAndServiceType msg.naskeysetidentifier msg.serviceType
  rw [decodeFgsServiceRequest, if_neg (by omega), hread, Outcome.done_bind]
  dsimp only
  rw [hksi, htype, if_neg (by omega), hdrop, decodeStmsi5gsMobileIdentity_append hfits hies,
    Outcome.done_bind]
  dsimp only
  rw [hdrop']

/-- The length of the identity is checked with two bytes too many: without optional elements the
message is refused. -/
theorem decodeFgsServiceRequest_short (hies : msg.ies = []) :
    decodeFgsServiceRequest msg.bytes = .refused := by
  have hlen : msg.bytes.length = 10 := by
    rw [FgsServiceRequestMsg.bytes, hies, List.append_nil, msg.length_header]
  have hread : byteAt msg.bytes 0 =
      .done (ksiAndServiceType msg.naskeysetidentifier msg.serviceType) := rfl
  have hstmsi : decodeStmsi5gsMobileIdentity (msg.bytes.drop 3) = .refused :=
    if_pos (by rw [List.length_drop]; omega)
  rw [decodeFgsServiceRequest, if_neg (by omega), hread, Outcome.done_bind]
  dsimp only
  rw [if_neg (by omega), hstmsi]
  rfl

/-- What is decoded has flags in its status, and a container whose length has two bytes. -/
def DecodedIes (sr : FgsServiceRequestMsg) : Prop :=
  (∀ psi ∈ sr.pduSessionStatus, psi.Fits) ∧
    ∀ contents ∈ sr.fgsnasmessagecontainer, contents.length < 65536

theorem decodeRequestIes_decoded {decoded n : ℕ} {sr : FgsServiceRequestMsg} {bytes : List UInt8}
    (hsr : DecodedIes sr) (h : decodeRequestIes decoded sr bytes = .done (msg, n)) :
    DecodedIes msg ∧ msg.fivegSTmsi = sr.fivegSTmsi := by
  fun_induction decodeRequestIes decoded sr bytes with
  | case1 decoded sr =>
    obtain ⟨rfl, -⟩ := Prod.mk.inj (Outcome.done.inj h)
    exact ⟨hsr, rfl⟩
  | case2 decoded sr rest ih =>
    obtain ⟨⟨psi, k⟩, hpsi, h⟩ := Outcome.bind_eq_done_iff.mp h
    refine ih psi k ⟨fun psi' hpsi' => ?_, hsr.2⟩ h
    obtain rfl := Option.some.inj hpsi'
    exact decodePduSessionIe_fits hpsi
  | case3 => simp at h
  | case4 decoded sr rest hiei hsome ih =>
    obtain ⟨⟨contents, k⟩, hcontents, h⟩ := Outcome.bind_eq_done_iff.mp h
    refine ih contents k ⟨hsr.1, fun contents' hcontents' => ?_⟩ h
    obtain rfl := Option.some.inj hcontents'
    exact decodeFgcNasMessageContainer_length hcontents
  | case5 decoded sr iei rest h1 h2 h3 ih =>
    obtain ⟨k, -, h⟩ := Outcome.bind_eq_done_iff.mp h
    exact ih k hsr h
  | case6 => simp at h

theorem decodeFgsServiceRequest_decoded {n : ℕ}
    (h : decodeFgsServiceRequest buffer = .done (msg, n)) :
    msg.Fits ∧ ∀ contents ∈ msg.fgsnasmessagecontainer, contents.length < 65536 := by
  unfold decodeFgsServiceRequest at h
  split_ifs at h
  · obtain ⟨octet, -, h⟩ := Outcome.bind_eq_done_iff.mp h
    simp at h
  · obtain ⟨octet, -, h⟩ := Outcome.bind_eq_done_iff.mp h
    obtain ⟨⟨stmsi, k⟩, hstmsi, h⟩ := Outcome.bind_eq_done_iff.mp h
    obtain ⟨hies, hsame⟩ := decodeRequestIes_decoded ⟨by simp, by simp⟩ h
    have hfits := decodeStmsi5gsMobileIdentity_fits hstmsi
    exact ⟨⟨hsame ▸ hfits, hies.1⟩, hies.2⟩

/-! ### When a service request survives -/

theorem FgsServiceRequestMsg.RoundTrips.decoded (h : msg.RoundTrips) :
    msg.Fits ∧ ∀ contents ∈ msg.fgsnasmessagecontainer, contents.length < 65536 := by
  obtain ⟨buffer', n, -, hdecode⟩ := h (List.replicate msg.bytes.length 0) (by simp)
  exact decodeFgsServiceRequest_decoded hdecode

/-- Without a container the message is not decoded: it ends with the identity or with the status of
the PDU sessions. -/
theorem not_roundTrips_of_container_eq_none (hnone : msg.fgsnasmessagecontainer = none) :
    ¬ msg.RoundTrips := by
  intro h
  obtain ⟨hfits, -⟩ := h.decoded
  have hbuffer : msg.bytes.length ≤ (List.replicate (msg.bytes.length + 2) (0 : UInt8)).length := by
    simp
  have hten : 10 ≤ msg.bytes.length := by
    rw [FgsServiceRequestMsg.bytes, List.length_append, msg.length_header]
    omega
  obtain ⟨buffer', n, hencode, hdecode⟩ := h _ hbuffer
  rw [encodeFgsServiceRequest_eq (by rw [List.length_replicate]; omega) hbuffer (by simp [hnone])]
    at hencode
  obtain ⟨rfl, rfl⟩ := Prod.mk.inj (Outcome.done.inj hencode)
  rw [List.take_left] at hdecode
  cases hpsi : msg.pduSessionStatus with
  | none =>
    rw [decodeFgsServiceRequest_short (by simp [FgsServiceRequestMsg.ies, hpsi, hnone])] at hdecode
    simp at hdecode
  | some psi =>
    have hies : msg.ies = pduSessionIe ieiPduSessionStatus psi := by
      simp [FgsServiceRequestMsg.ies, hpsi, hnone]
    have hfour : 2 ≤ msg.ies.length := by
      rw [hies]
      exact (by decide : 2 ≤ 4)
    rw [decodeFgsServiceRequest_header hfits.1 hfour, hies, decodeRequestIes_pduSessionIe_last]
      at hdecode
    simp at hdecode

/-- An empty container needs a byte more than it has. -/
theorem not_roundTrips_of_container_eq_nil (hnil : msg.fgsnasmessagecontainer = some []) :
    ¬ msg.RoundTrips := by
  intro h
  have hlen : msg.bytes.length =
      10 + (msg.pduSessionStatus.elim [] (pduSessionIe ieiPduSessionStatus)).length + 3 := by
    simp [FgsServiceRequestMsg.bytes, FgsServiceRequestMsg.ies, hnil, Nat.add_assoc]
  have hsize : (List.replicate msg.bytes.length (0 : UInt8)).length = msg.bytes.length :=
    List.length_replicate ..
  obtain ⟨buffer', n, hencode, -⟩ := h _ hsize.ge
  rw [encodeFgsServiceRequest_header (by omega), Writer.andThen] at hencode
  have hwrites := Writer.Writes.optional fun psi (_ : psi ∈ msg.pduSessionStatus) =>
    writes_encodePduSessionIe ieiPduSessionStatus psi
  rw [hwrites msg.header _ (by rw [List.length_drop]; omega), Outcome.done_bind, hnil] at hencode
  have hrefused : ∀ buffer written, buffer.length - written < 4 →
      Writer.optional encodeFgcNasMessageContainer (some []) buffer written = .refused :=
    fun buffer written hlt => if_pos hlt
  dsimp only at hencode
  rw [hrefused] at hencode
  · simp at hencode
  · simp only [List.length_append, List.length_drop, msg.length_header]
    omega

theorem FgsServiceRequestMsg.roundTrips_of_container {contents : List UInt8} (hfits : msg.Fits)
    (hcontainer : msg.fgsnasmessagecontainer = some contents) (hne : contents ≠ [])
    (hmax : contents.length < 65536) : msg.RoundTrips := by
  intro buffer hbuffer
  have hies : msg.ies = msg.pduSessionStatus.elim [] (pduSessionIe ieiPduSessionStatus) ++
      nasMessageContainer contents := by
    rw [FgsServiceRequestMsg.ies, hcontainer]
    rfl
  have htwo : 3 ≤ msg.ies.length := by
    rw [hies, List.length_append, length_nasMessageContainer]
    omega
  have hlen : msg.bytes.length = 10 + msg.ies.length := by
    rw [FgsServiceRequestMsg.bytes, List.length_append, msg.length_header]
  have hencode := encodeFgsServiceRequest_eq (by omega) hbuffer fun c hc => by
    obtain rfl := Option.some.inj (hcontainer.symm.trans hc)
    exact ⟨hne, by omega⟩
  refine ⟨_, _, hencode, ?_⟩
  rw [List.take_left, decodeFgsServiceRequest_header hfits.1 (by omega), hlen, hies]
  obtain ⟨ksi, serviceType, stmsi, status, container⟩ := msg
  obtain rfl : container = some contents := hcontainer
  cases status with
  | none =>
    rw [Option.elim_none, List.nil_append, decodeRequestIes_container hmax rfl,
      length_nasMessageContainer]
  | some psi =>
    rw [Option.elim_some, decodeRequestIes_pduSessionIe (hfits.2 psi rfl)
      (by simp [nasMessageContainer]),
      decodeRequestIes_container hmax rfl, List.length_append, length_nasMessageContainer,
      Nat.add_assoc]
    rfl

/-- A service request survives exactly if it has a container with some contents, and its fields fit
the message. -/
theorem FgsServiceRequestMsg.survives_iff :
    msg.RoundTrips ↔ msg.Fits ∧ ∃ contents, msg.fgsnasmessagecontainer = some contents ∧
      contents ≠ [] ∧ contents.length < 65536 := by
  constructor
  · intro h
    obtain ⟨hfits, hmax⟩ := h.decoded
    refine ⟨hfits, ?_⟩
    cases hcontainer : msg.fgsnasmessagecontainer with
    | none => exact absurd h (not_roundTrips_of_container_eq_none hcontainer)
    | some contents =>
      refine ⟨contents, rfl, ?_, hmax contents hcontainer⟩
      rintro rfl
      exact not_roundTrips_of_container_eq_nil hcontainer h
  · rintro ⟨hfits, contents, hcontainer, hne, hmax⟩
    exact roundTrips_of_container hfits hcontainer hne hmax

end LlmHric.Nas
