import LlmHric.Library.ByteOrder
import LlmHric.Library.CheckedWrites
import Mathlib.Data.Int.Notation
import Mathlib.Data.Nat.Bitwise

/-! The library `fgmm_lib` encodes and decodes the elements that the service messages share: the
status of the PDU sessions, timers and EAP messages. A service request has the 5G-S-TMSI of the UE
and a NAS message container besides.

A decoder gets the bytes that are left, behind the identifier of its element except for the
container. An encoder that returns a negative value is `refused`, but for the one whose result is
used without a check. -/

namespace LlmHric.Nas

open ByteOrder Checked

/-- `IEI_PDU_SESSION_STATUS`. -/
def ieiPduSessionStatus : UInt8 := 0x50

/-- `IEI_PDU_SESSION_REACT_RESULT`. -/
def ieiPduSessionReactResult : UInt8 := 0x26

/-- `IEI_PDU_SESSION_REACT_RESULT_ERROR_CAUSE`. -/
def ieiPduSessionReactResultErrorCause : UInt8 := 0x72

/-- `IEI_T3446_VALUE`. -/
def ieiT3446Value : UInt8 := 0x5F

/-- `IEI_T3448_VALUE`. -/
def ieiT3448Value : UInt8 := 0x6B

/-- `IEI_EAPMSG`. -/
def ieiEapMsg : UInt8 := 0x78

/-- `IEI_FGS_NAS_MESSAGE_CONTAINER`. -/
def ieiFgsNasMessageContainer : UInt8 := 0x71

/-- `IEI_CAG_INFO_LIST`. -/
def ieiCagInfoList : UInt8 := 0x75

/-- `IEI_UPLINK_DATA_STATUS`. -/
def ieiUplinkDataStatus : UInt8 := 0x40

/-- `IEI_ALLOWED_PDU_SESSION_STATUS`. -/
def ieiAllowedPduSessionStatus : UInt8 := 0x25

/-- `IEI_UE_REQUEST_TYPE`. -/
def ieiUeRequestType : UInt8 := 0x29

/-- `IEI_PAGING_RESTRICTION`. -/
def ieiPagingRestriction : UInt8 := 0x28

/-! ### Status of the PDU sessions -/

/-- An entry for every PDU session, `MAX_NUM_PSI` of them. -/
abbrev Psi := Fin 16 → UInt8

/-- The entries are flags, and the first one, which is spare, is 0. -/
def Psi.Fits (psi : Psi) : Prop := psi 0 = 0 ∧ ∀ i, psi i = 0 ∨ psi i = 1

/-- Octet 3: the sessions 1 to 7. -/
def octet3 (psi : Psi) : UInt8 :=
  ([1, 2, 3, 4, 5, 6, 7] : List (Fin 16)).foldl (fun b i => b ||| psi i <<< UInt8.ofNat (i % 8)) 0

/-- Octet 4: the sessions 8 to 15. -/
def octet4 (psi : Psi) : UInt8 :=
  ([8, 9, 10, 11, 12, 13, 14, 15] : List (Fin 16)).foldl
    (fun b i => b ||| psi i <<< UInt8.ofNat (i % 8)) 0

/-- `encode_pdu_session_ie`. -/
def encodePduSessionIe (iei : UInt8) (psi : Psi) : Writer := fun buffer written =>
  if buffer.length - written < 4 then .refused
  else Writer.put [iei, 2, octet3 psi, octet4 psi] buffer written

/-- The flag of a bit. -/
def flag (b : UInt8) (i : Fin 16) : UInt8 := (b >>> UInt8.ofNat (i % 8)) &&& 0x01

/-- `decode_pdu_session_ie`, into entries that are 0. -/
def decodePduSessionIe (buffer : List UInt8) : Outcome (Psi × ℕ) :=
  if buffer.length < 4 then .refused
  else do
    let pduSessionStatusLen ← byteAt buffer 0
    if pduSessionStatusLen > 32 then .refused
    else
      let b₃ ← byteAt buffer 1
      let b₄ ← byteAt buffer 2
      return (fun i => if i = 0 then 0 else if i < 8 then flag b₃ i else flag b₄ i, 3)

/-- The bytes of the element. -/
def pduSessionIe (iei : UInt8) (psi : Psi) : List UInt8 := [iei, 2, octet3 psi, octet4 psi]

theorem writes_encodePduSessionIe (iei : UInt8) (psi : Psi) :
    (encodePduSessionIe iei psi).Writes (pduSessionIe iei psi) := by
  intro pre room hroom
  have hlen : ¬ (pre ++ room).length - pre.length < 4 := by
    have hfour : 4 ≤ room.length := hroom
    rw [List.length_append]
    omega
  rw [encodePduSessionIe, if_neg hlen]
  exact Writer.writes_put _ pre room hroom

theorem flag_or (x y : UInt8) (i : Fin 16) : flag (x ||| y) i = flag x i ||| flag y i := by
  apply UInt8.eq_of_toBitVec_eq
  simp only [flag, UInt8.toBitVec_and, UInt8.toBitVec_or, UInt8.toBitVec_shiftRight]
  ext k hk
  simp [Bool.and_or_distrib_right]

theorem flag_shiftLeft {v : UInt8} (hv : v = 0 ∨ v = 1) (i j : Fin 16) :
    flag (v <<< UInt8.ofNat (i % 8)) j = if i.val % 8 = j.val % 8 then v else 0 := by
  rcases hv with rfl | rfl
  · revert i j
    decide
  · revert i j
    decide

/-- In an octet that is put together from flags, every flag is at its bit. -/
theorem flag_foldl {psi : Psi} (h : psi.Fits) {j : Fin 16} {l : List (Fin 16)} {b : UInt8}
    (hinj : ∀ i ∈ l, i.val % 8 = j.val % 8 → i = j) (hb : flag b j = 0 ∨ flag b j = psi j)
    (hj : flag b j = psi j ∨ j ∈ l) :
    flag (l.foldl (fun b i => b ||| psi i <<< UInt8.ofNat (i % 8)) b) j = psi j := by
  induction l generalizing b with
  | nil => exact hj.resolve_right List.not_mem_nil
  | cons i l ih =>
    have hstep : flag (b ||| psi i <<< UInt8.ofNat (i % 8)) j =
        flag b j ||| if i.val % 8 = j.val % 8 then psi i else 0 := by
      rw [flag_or, flag_shiftLeft (h.2 i)]
    rw [List.foldl_cons]
    by_cases hi : i.val % 8 = j.val % 8
    · obtain rfl := hinj i (List.mem_cons_self ..) hi
      have hset : flag (b ||| psi i <<< UInt8.ofNat (i % 8)) i = psi i := by
        rw [hstep, if_pos rfl]
        rcases hb with hb | hb <;> rw [hb] <;> rcases h.2 i with hv | hv <;> rw [hv] <;> rfl
      exact ih (fun k hk => hinj k (List.mem_cons_of_mem _ hk)) (.inr hset) (.inl hset)
    · have hkeep : flag (b ||| psi i <<< UInt8.ofNat (i % 8)) j = flag b j := by
        rw [hstep, if_neg hi, UInt8.or_zero]
      rw [← hkeep] at hb hj
      refine ih (fun k hk => hinj k (List.mem_cons_of_mem _ hk)) hb (hj.imp_right fun hmem => ?_)
      refine (List.mem_cons.mp hmem).resolve_left fun heq => hi ?_
      rw [heq]

theorem flag_zero (j : Fin 16) : flag 0 j = 0 := by
  revert j
  decide

theorem flag_octet3 {psi : Psi} (h : psi.Fits) {j : Fin 16} (hj : j ≠ 0) (hlt : j < 8) :
    flag (octet3 psi) j = psi j := by
  have hinj : ∀ j : Fin 16, j < 8 → ∀ i ∈ ([1, 2, 3, 4, 5, 6, 7] : List (Fin 16)),
      i.val % 8 = j.val % 8 → i = j := by decide
  have hmem : ∀ j : Fin 16, j ≠ 0 → j < 8 → j ∈ ([1, 2, 3, 4, 5, 6, 7] : List (Fin 16)) := by
    decide
  exact flag_foldl h (hinj j hlt) (.inl (flag_zero j)) (.inr (hmem j hj hlt))

theorem flag_octet4 {psi : Psi} (h : psi.Fits) {j : Fin 16} (hge : ¬ j < 8) :
    flag (octet4 psi) j = psi j := by
  have hinj : ∀ j : Fin 16, ¬ j < 8 → ∀ i ∈ ([8, 9, 10, 11, 12, 13, 14, 15] : List (Fin 16)),
      i.val % 8 = j.val % 8 → i = j := by decide
  have hmem : ∀ j : Fin 16, ¬ j < 8 → j ∈ ([8, 9, 10, 11, 12, 13, 14, 15] : List (Fin 16)) := by
    decide
  exact flag_foldl h (hinj j hge) (.inl (flag_zero j)) (.inr (hmem j hge))

/-- The element is decoded when another byte follows it. -/
theorem decodePduSessionIe_append {psi : Psi} (h : psi.Fits) {rest : List UInt8}
    (hrest : rest ≠ []) :
    decodePduSessionIe ([2, octet3 psi, octet4 psi] ++ rest) = .done (psi, 3) := by
  have hlen : ¬ ([2, octet3 psi, octet4 psi] ++ rest).length < 4 := by
    have hpos := List.length_pos_iff.mpr hrest
    simp only [List.length_append, List.length_cons, List.length_nil]
    omega
  have hpsi : (fun i => if i = 0 then 0 else if i < 8 then flag (octet3 psi) i
      else flag (octet4 psi) i) = psi := by
    funext i
    split_ifs with hzero hlt
    · rw [hzero, h.1]
    · exact flag_octet3 h hzero hlt
    · exact flag_octet4 h hlt
  have hdecode : decodePduSessionIe ([2, octet3 psi, octet4 psi] ++ rest) =
      .done (fun i => if i = 0 then 0 else if i < 8 then flag (octet3 psi) i
        else flag (octet4 psi) i, 3) := by
    rw [decodePduSessionIe, if_neg hlen]
    rfl
  rw [hdecode, hpsi]

/-- The length is checked as if the identifier were still to come: at the end of a message the
element is refused. -/
theorem decodePduSessionIe_last (psi : Psi) :
    decodePduSessionIe [2, octet3 psi, octet4 psi] = .refused := rfl

theorem flag_cases (b : UInt8) (i : Fin 16) : flag b i = 0 ∨ flag b i = 1 := by
  have hand : ∀ x : UInt8, x &&& 0x01 = 0 ∨ x &&& 0x01 = 1 := by
    intro x
    have hmod : (x &&& 0x01).toNat = x.toNat % 2 := by
      rw [UInt8.toNat_and]
      exact Nat.and_one_is_mod _
    rcases Nat.mod_two_eq_zero_or_one x.toNat with hx | hx
    · exact .inl (UInt8.toNat_inj.mp (hmod.trans hx))
    · exact .inr (UInt8.toNat_inj.mp (hmod.trans hx))
  exact hand _

theorem decodePduSessionIe_fits {buffer : List UInt8} {psi : Psi} {n : ℕ}
    (h : decodePduSessionIe buffer = .done (psi, n)) : psi.Fits := by
  unfold decodePduSessionIe at h
  split_ifs at h
  simp only [Outcome.bind_eq_done_iff] at h
  obtain ⟨len, -, h⟩ := h
  split_ifs at h
  simp only [Outcome.bind_eq_done_iff] at h
  obtain ⟨b₃, -, b₄, -, h⟩ := h
  obtain ⟨rfl, -⟩ := Prod.mk.inj (Outcome.done.inj h)
  refine ⟨rfl, fun i => ?_⟩
  dsimp only
  split_ifs
  · exact .inl rfl
  · exact flag_cases ..
  · exact flag_cases ..

/-- `gprs_timer_t`. -/
structure GprsTimer where
  value : UInt8
  unit : UInt8
  deriving DecidableEq

/-- The value has 5 bits and the unit 3. -/
def GprsTimer.Fits (timer : GprsTimer) : Prop := timer.value < 32 ∧ timer.unit < 8

/-- The unit and the value in one octet. -/
def GprsTimer.octet (timer : GprsTimer) : UInt8 :=
  (timer.unit &&& 0x07) <<< 5 ||| (timer.value &&& 0x1F)

/-- `encode_gprs_timer_ie`. -/
def encodeGprsTimerIe (iei : UInt8) (timer : GprsTimer) : Writer := fun buffer written =>
  if buffer.length - written < 3 then .refused
  else Writer.put [iei, 1, timer.octet] buffer written

/-- `decode_gprs_timer_ie`. -/
def decodeGprsTimerIe (buffer : List UInt8) : Outcome (GprsTimer × ℕ) := do
  let octet ← byteAt buffer 1
  return (⟨octet &&& 0x1F, (octet >>> 5) &&& 0x07⟩, 2)

/-- The bytes of the element. -/
def gprsTimerIe (iei : UInt8) (timer : GprsTimer) : List UInt8 := [iei, 1, timer.octet]

theorem writes_encodeGprsTimerIe (iei : UInt8) (timer : GprsTimer) :
    (encodeGprsTimerIe iei timer).Writes (gprsTimerIe iei timer) := by
  intro pre room hroom
  have hlen : ¬ (pre ++ room).length - pre.length < 3 := by
    have hthree : 3 ≤ room.length := hroom
    rw [List.length_append]
    omega
  rw [encodeGprsTimerIe, if_neg hlen]
  exact Writer.writes_put _ pre room hroom

theorem and_toNat_lt (x m : UInt8) : (x &&& m).toNat ≤ m.toNat := by
  rw [UInt8.toNat_and]
  exact Nat.and_le_right

theorem decodeGprsTimerIe_append {timer : GprsTimer} (h : timer.Fits) (rest : List UInt8) :
    decodeGprsTimerIe ([1, timer.octet] ++ rest) = .done (timer, 2) := by
  have hbits : ∀ (v : Fin 32) (u : Fin 8),
      (GprsTimer.octet ⟨.ofNat v, .ofNat u⟩ &&& 0x1F = .ofNat v) ∧
        ((GprsTimer.octet ⟨.ofNat v, .ofNat u⟩ >>> 5) &&& 0x07 = .ofNat u) := by decide
  obtain ⟨value, unit⟩ := timer
  have hoctet := hbits ⟨value.toNat, h.1⟩ ⟨unit.toNat, h.2⟩
  simp only [UInt8.ofNat_toNat] at hoctet
  change Outcome.done (_, 2) = _
  rw [hoctet.1, hoctet.2]

theorem decodeGprsTimerIe_fits {buffer : List UInt8} {timer : GprsTimer} {n : ℕ}
    (h : decodeGprsTimerIe buffer = .done (timer, n)) : timer.Fits := by
  obtain ⟨octet, -, h⟩ := Outcome.bind_eq_done_iff.mp h
  obtain ⟨rfl, -⟩ := Prod.mk.inj (Outcome.done.inj h)
  have hvalue := and_toNat_lt octet 0x1F
  have hunit := and_toNat_lt (octet >>> 5) 0x07
  exact ⟨Nat.lt_succ_of_le hvalue, Nat.lt_succ_of_le hunit⟩

/-! ### EAP messages -/

/-- `encode_eap_msg_ie`. The payload is copied whatever room there is. -/
def encodeEapMsgIe (msg : List UInt8) : Writer := fun buffer written =>
  if buffer.length - written < 7 then .refused
  else if msg.length < 4 ∨ msg.length > 1500 then .refused
  else Writer.put (ieiEapMsg :: bytesBE msg.length 2 ++ msg) buffer written

/-- Where `decode_eap_msg_ie` puts a message: the pointer to the array may be null, or the pointer
in the array. -/
inductive EapDestination
  | null
  | noBuffer
  | buffer
  deriving DecidableEq

/-- `decode_eap_msg_ie`. -/
def decodeEapMsgIe (eapMsg : EapDestination) (buffer : List UInt8) : Outcome (List UInt8 × ℕ) :=
  if buffer.length < 6 then .refused
  else if eapMsg = .null then .fault .nullPointer
  else do
    let len ← readSlice buffer 0 2
    if valueBE len < 4 ∨ valueBE len > 1500 then .refused
    else if buffer.length < 2 + valueBE len then .refused
    else if eapMsg = .noBuffer then .fault .nullPointer
    else
      let payload ← readSlice buffer 2 (valueBE len)
      return (payload, 2 + valueBE len)

/-- The bytes of the element. -/
def eapMsgIe (msg : List UInt8) : List UInt8 := ieiEapMsg :: bytesBE msg.length 2 ++ msg

@[simp] theorem length_eapMsgIe (msg : List UInt8) : (eapMsgIe msg).length = 3 + msg.length := by
  simp [eapMsgIe]
  omega

theorem writes_encodeEapMsgIe {msg : List UInt8} (hmin : 4 ≤ msg.length)
    (hmax : msg.length ≤ 1500) :
    (encodeEapMsgIe msg).Writes (eapMsgIe msg) := by
  intro pre room hroom
  have hlen : ¬ (pre ++ room).length - pre.length < 7 := by
    rw [length_eapMsgIe] at hroom
    rw [List.length_append]
    omega
  rw [encodeEapMsgIe, if_neg hlen, if_neg (by omega)]
  exact Writer.writes_put _ pre room hroom

theorem decodeEapMsgIe_append {msg : List UInt8} (hmin : 4 ≤ msg.length) (hmax : msg.length ≤ 1500)
    (rest : List UInt8) :
    decodeEapMsgIe .buffer (bytesBE msg.length 2 ++ (msg ++ rest)) =
      .done (msg, 2 + msg.length) := by
  have hlen : (bytesBE msg.length 2 ++ (msg ++ rest)).length = 2 + (msg.length + rest.length) := by
    simp
  have hread : readSlice (bytesBE msg.length 2 ++ (msg ++ rest)) 0 2 =
      .done (bytesBE msg.length 2) :=
    readSlice_append [] _ rfl (length_bytesBE ..).symm
  have hvalue : valueBE (bytesBE msg.length 2) = msg.length := by
    rw [valueBE_bytesBE]
    exact Nat.mod_eq_of_lt (by omega)
  have hpayload : readSlice (bytesBE msg.length 2 ++ (msg ++ rest)) 2 msg.length = .done msg :=
    readSlice_append _ _ (length_bytesBE ..).symm rfl
  rw [decodeEapMsgIe, if_neg (by omega), if_neg (by simp), hread, Outcome.done_bind, hvalue,
    if_neg (by omega), if_neg (by omega), if_neg (by simp), hpayload]
  rfl

/-- A message is decoded only where there is room for it, and has a valid length. -/
theorem decodeEapMsgIe_decoded {eapMsg : EapDestination} {buffer msg : List UInt8} {n : ℕ}
    (h : decodeEapMsgIe eapMsg buffer = .done (msg, n)) :
    eapMsg = .buffer ∧ 4 ≤ msg.length ∧ msg.length ≤ 1500 := by
  unfold decodeEapMsgIe at h
  split_ifs at h with hlen hnull hbuffer
  · obtain ⟨len, -, h⟩ := Outcome.bind_eq_done_iff.mp h
    split_ifs at h
  · obtain ⟨len, -, h⟩ := Outcome.bind_eq_done_iff.mp h
    split_ifs at h with hvalid hshort
    obtain ⟨payload, hpayload, h⟩ := Outcome.bind_eq_done_iff.mp h
    obtain ⟨rfl, -⟩ := Prod.mk.inj (Outcome.done.inj h)
    unfold readSlice at hpayload
    split_ifs at hpayload with hroom
    obtain rfl := Outcome.done.inj hpayload
    have hlength : ((buffer.drop 2).take (valueBE len)).length = valueBE len := by
      rw [List.length_take, List.length_drop]
      omega
    rw [hlength]
    refine ⟨?_, by omega, by omega⟩
    cases eapMsg with
    | null => exact absurd rfl hnull
    | noBuffer => exact absurd rfl hbuffer
    | buffer => rfl

/-! ### NAS message containers -/

/-- `encode_fgc_nas_message_container` with `encode_octet_string`. -/
def encodeFgcNasMessageContainer (contents : List UInt8) : Writer := fun buffer written =>
  if buffer.length - written < 4 then .refused
  else do
    let buffer ← writeAt buffer written [ieiFgsNasMessageContainer]
    if contents.length > 0 ∧ buffer.length - written - 3 < contents.length then .refused
    else
      let buffer ← writeAt buffer (written + 3) contents
      -- the length is returned as an `int`
      if contents.length ≥ 2 ^ 31 then .refused
      else
        let buffer ← writeAt buffer (written + 1) (bytesBE contents.length 2)
        return (buffer, written + (3 + contents.length))

/-- `decode_fgc_nas_message_container` with `decode_octet_string`. -/
def decodeFgcNasMessageContainer (buffer : List UInt8) : Outcome (List UInt8 × ℕ) := do
  let iei ← byteAt buffer 0
  if iei ≠ ieiFgsNasMessageContainer then .refused
  else
    let encodedIelen ← readSlice buffer 1 2
    if buffer.length - 3 < valueBE encodedIelen then .refused
    else
      let contents ← readSlice buffer 3 (valueBE encodedIelen)
      return (contents, 3 + valueBE encodedIelen)

/-- The bytes of the element. -/
def nasMessageContainer (contents : List UInt8) : List UInt8 :=
  ieiFgsNasMessageContainer :: bytesBE contents.length 2 ++ contents

@[simp] theorem length_nasMessageContainer (contents : List UInt8) :
    (nasMessageContainer contents).length = 3 + contents.length := by
  simp [nasMessageContainer]
  omega

theorem writes_encodeFgcNasMessageContainer {contents : List UInt8} (hne : contents ≠ [])
    (hmax : contents.length < 2 ^ 31) :
    (encodeFgcNasMessageContainer contents).Writes (nasMessageContainer contents) := by
  intro pre room hroom
  have hpos := List.length_pos_iff.mpr hne
  rw [length_nasMessageContainer] at hroom ⊢
  obtain ⟨r₀, r₁, r₂, room, rfl⟩ : ∃ r₀ r₁ r₂ rest, room = r₀ :: r₁ :: r₂ :: rest := by
    match room, hroom with
    | [], h | [_], h | [_, _], h =>
      exact absurd h (by simp only [List.length_cons, List.length_nil]; omega)
    | r₀ :: r₁ :: r₂ :: rest, _ => exact ⟨r₀, r₁, r₂, rest, rfl⟩
  have hbody : contents.length ≤ room.length := by
    simp only [List.length_cons] at hroom
    omega
  have hfirst : writeAt (pre ++ r₀ :: r₁ :: r₂ :: room) pre.length [ieiFgsNasMessageContainer] =
      .done (pre ++ ieiFgsNasMessageContainer :: r₁ :: r₂ :: room) :=
    writeAt_append pre [r₀] (r₁ :: r₂ :: room) rfl rfl
  have hcontents : writeAt (pre ++ ieiFgsNasMessageContainer :: r₁ :: r₂ :: room) (pre.length + 3)
      contents = .done (pre ++ ieiFgsNasMessageContainer :: r₁ :: r₂ ::
        (contents ++ room.drop contents.length)) := by
    have hend : pre.length + 3 = (pre ++ [ieiFgsNasMessageContainer, r₁, r₂]).length := by simp
    have h := writeAt_room (pre ++ [ieiFgsNasMessageContainer, r₁, r₂]) room hend hbody
    simpa using h
  have hlength : writeAt (pre ++ ieiFgsNasMessageContainer :: r₁ :: r₂ ::
        (contents ++ room.drop contents.length)) (pre.length + 1) (bytesBE contents.length 2) =
      .done (pre ++ ieiFgsNasMessageContainer :: (bytesBE contents.length 2 ++
        (contents ++ room.drop contents.length))) := by
    have hend : pre.length + 1 = (pre ++ [ieiFgsNasMessageContainer]).length := by simp
    have hsize : [r₁, r₂].length = (bytesBE contents.length 2).length := by simp
    have h := writeAt_append (pre ++ [ieiFgsNasMessageContainer]) [r₁, r₂]
      (contents ++ room.drop contents.length) hend hsize
    simpa using h
  have hlen : ¬ (pre ++ r₀ :: r₁ :: r₂ :: room).length - pre.length < 4 := by
    simp only [List.length_append, List.length_cons]
    omega
  rw [encodeFgcNasMessageContainer, if_neg hlen, hfirst, Outcome.done_bind, if_neg, hcontents,
    Outcome.done_bind, if_neg (by omega), hlength]
  · simp [nasMessageContainer, Nat.add_comm 3]
  · simp only [List.length_append, List.length_cons]
    omega

theorem decodeFgcNasMessageContainer_append {contents : List UInt8} (hmax : contents.length < 65536)
    (rest : List UInt8) :
    decodeFgcNasMessageContainer (nasMessageContainer contents ++ rest) =
      .done (contents, 3 + contents.length) := by
  have hsplit : nasMessageContainer contents ++ rest =
      [ieiFgsNasMessageContainer] ++ (bytesBE contents.length 2 ++ (contents ++ rest)) := by
    simp [nasMessageContainer]
  have hread : readSlice (nasMessageContainer contents ++ rest) 1 2 =
      .done (bytesBE contents.length 2) := by
    rw [hsplit]
    exact readSlice_append _ _ rfl (length_bytesBE ..).symm
  have hvalue : valueBE (bytesBE contents.length 2) = contents.length := by
    rw [valueBE_bytesBE]
    exact Nat.mod_eq_of_lt hmax
  have hpayload : readSlice (nasMessageContainer contents ++ rest) 3 contents.length =
      .done contents := by
    rw [hsplit, ← List.append_assoc]
    exact readSlice_append _ _ (by simp) rfl
  have hlen :
      (nasMessageContainer contents ++ rest).length = 3 + contents.length + rest.length := by
    simp
  have hiei : byteAt (nasMessageContainer contents ++ rest) 0 = .done ieiFgsNasMessageContainer :=
    rfl
  rw [decodeFgcNasMessageContainer, hiei, Outcome.done_bind, if_neg (by simp), hread,
    Outcome.done_bind, hvalue, if_neg (by omega), hpayload]
  rfl

theorem decodeFgcNasMessageContainer_length {buffer contents : List UInt8} {n : ℕ}
    (h : decodeFgcNasMessageContainer buffer = .done (contents, n)) : contents.length < 65536 := by
  obtain ⟨iei, -, h⟩ := Outcome.bind_eq_done_iff.mp h
  split_ifs at h
  obtain ⟨len, hlen, h⟩ := Outcome.bind_eq_done_iff.mp h
  split_ifs at h
  obtain ⟨payload, hpayload, h⟩ := Outcome.bind_eq_done_iff.mp h
  obtain ⟨rfl, -⟩ := Prod.mk.inj (Outcome.done.inj h)
  unfold readSlice at hlen hpayload
  split_ifs at hlen hpayload
  obtain rfl := Outcome.done.inj hlen
  obtain rfl := Outcome.done.inj hpayload
  have hlt := valueBE_lt ((buffer.drop 1).take 2)
  have htwo : ((buffer.drop 1).take 2).length ≤ 2 := List.length_take_le ..
  calc (List.take (valueBE ((buffer.drop 1).take 2)) (buffer.drop 3)).length
      ≤ valueBE ((buffer.drop 1).take 2) := List.length_take_le ..
    _ < 256 ^ ((buffer.drop 1).take 2).length := hlt
    _ ≤ 256 ^ 2 := Nat.pow_le_pow_right (by omega) htwo

end LlmHric.Nas
