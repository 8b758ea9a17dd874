import LlmHric.Library.ByteOrder
import LlmHric.Library.CheckedWrites
import LlmHric.Nas.ServiceRequest

/-! A registration accept carries the registration result, the 5G-GUTI and any information elements
after it. The UE reads two of these, the allowed and the configured slices, and skips every other
one by the same rule: the octet after the identifier is the length of what follows. Elements of one
octet and elements with a two-octet length have another form, and after skipping one of them the
decoder goes on in the middle of an element. -/

namespace LlmHric.Nas

open ByteOrder Checked

/-! ### The decoder -/

/-- `nr_nas_msg_snssai_t`. -/
structure NrNasMsgSnssai where
  sst : ℕ
  hplmnSst : Option ℕ
  sd : Option ℕ
  hplmnSd : Option ℕ
  deriving DecidableEq

/-- A zeroed `nr_nas_msg_snssai_t`. -/
def noSnssai : NrNasMsgSnssai := ⟨0, none, none, none⟩

/-- `NAS_MAX_NUMBER_SLICES`. -/
def nasMaxNumberSlices : ℕ := 8

/-- `Guti5GSMobileIdentity_t`. -/
structure Guti5gsMobileIdentity where
  spare : Fin 16
  oddeven : Fin 2
  typeofidentity : Fin 8
  mccdigit2 : Fin 16
  mccdigit1 : Fin 16
  mncdigit3 : Fin 16
  mccdigit3 : Fin 16
  mncdigit2 : Fin 16
  mncdigit1 : Fin 16
  amfregionid : UInt8
  amfsetid : Fin 1024
  amfpointer : Fin 64
  tmsi : UInt32

/-- `registration_accept_msg`. -/
structure RegistrationAcceptMsg where
  result : UInt8
  smsAllowed : Bool
  guti : Option Guti5gsMobileIdentity
  nasAllowedNssai : List NrNasMsgSnssai
  numAllowedSlices : ℕ
  configNssai : List NrNasMsgSnssai
  numConfiguredSlices : ℕ

/-- `IEI_5G_GUTI`. -/
def iei5gGuti : UInt8 := 0x77

/-- `FGS_MOBILE_IDENTITY_5G_GUTI`. -/
def fgsMobileIdentity5gGuti : UInt8 := 2

/-- The case of `decode_nssai_ie` for an item length; other lengths have no case. -/
def decodeSnssai (itemLen : UInt8) (buf : List UInt8) :
    Option (NrNasMsgSnssai → Outcome NrNasMsgSnssai) :=
  if itemLen = 1 then some fun item => do
    let sst ← byteAt buf 0
    return { item with sst := sst.toNat }
  else if itemLen = 2 then some fun item => do
    let sst ← byteAt buf 0
    let hplmnSst ← byteAt buf 1
    return { item with sst := sst.toNat, hplmnSst := some hplmnSst.toNat }
  else if itemLen = 4 then some fun item => do
    let sst ← byteAt buf 0
    let sd ← readSlice buf 1 3
    return { item with sst := sst.toNat, sd := some (0xffffff &&& valueBE sd) }
  else if itemLen = 5 then some fun item => do
    let sst ← byteAt buf 0
    let sd ← readSlice buf 1 3
    let hplmnSst ← byteAt buf 4
    return { item with
      sst := sst.toNat, sd := some (0xffffff &&& valueBE sd), hplmnSst := some hplmnSst.toNat }
  else if itemLen = 8 then some fun item => do
    let sst ← byteAt buf 0
    let sd ← readSlice buf 1 3
    let hplmnSst ← byteAt buf 4
    let hplmnSd ← readSlice buf 5 3
    return { item with
      sst := sst.toNat, sd := some (0xffffff &&& valueBE sd), hplmnSst := some hplmnSst.toNat,
      hplmnSd := some (0xffffff &&& valueBE hplmnSd) }
  else none

/-- The entry of the array that is written next; there is none behind the array. -/
def itemAt (nssai : List NrNasMsgSnssai) (cnt : ℕ) : Outcome NrNasMsgSnssai :=
  match nssai[cnt]? with
  | some item => .done item
  | none => .fault .outOfBounds

/-- The loop of `decode_nssai_ie`, with `left` octets before the end of the contents. -/
def decodeNssaiItems (nssai : List NrNasMsgSnssai) (cnt : ℕ) :
    ℕ → List UInt8 → Outcome (List NrNasMsgSnssai × ℕ)
  | 0, _ => .done (nssai, cnt)
  | _ + 1, [] => .fault .outOfBounds
  | left + 1, itemLen :: buf =>
    -- the last item may be longer than the contents, and the loop ends behind them
    match decodeSnssai itemLen buf with
    | some decode => do
      let item ← itemAt nssai cnt
      let item ← decode item
      decodeNssaiItems (nssai.set cnt item) (cnt + 1) (left - itemLen.toNat)
        (buf.drop itemLen.toNat)
    -- the length of the item is reported as unknown, and its octets are read as items
    | none => decodeNssaiItems nssai cnt left buf
  termination_by left => left
  decreasing_by all_goals omega

/-- `decode_nssai_ie`: the array, the number of slices and the octets that were decoded. -/
def decodeNssaiIe (nssai : List NrNasMsgSnssai) (buf : List UInt8) :
    Outcome (List NrNasMsgSnssai × ℕ × ℕ) := do
  let length ← byteAt buf 0
  let (nssai, cnt) ← decodeNssaiItems nssai 0 length.toNat (buf.drop 1)
  return (nssai, cnt, length.toNat + 1)

/-- One element of the loop of `decode_registration_accept`, from its length on: the structure and
the octets to go on by. -/
def decodeIe (out : RegistrationAcceptMsg) (iei : UInt8) (ba : List UInt8) :
    Outcome (RegistrationAcceptMsg × ℕ) :=
  if iei = 0x15 then do
    let (nssai, num, dec) ← decodeNssaiIe out.nasAllowedNssai ba
    return ({ out with nasAllowedNssai := nssai, numAllowedSlices := num }, dec)
  else if iei = 0x31 then do
    let (nssai, num, dec) ← decodeNssaiIe out.configNssai ba
    return ({ out with configNssai := nssai, numConfiguredSlices := num }, dec)
  else do
    let length ← byteAt ba 0
    return (out, length.toNat + 1)

/-- The loop of `decode_registration_accept`. A step behind the end of the message makes the
unsigned length wrap around, and the loop goes on reading there. -/
def decodeOtherIes (out : RegistrationAcceptMsg) : List UInt8 → Outcome RegistrationAcceptMsg
  | [] => .done out
  | iei :: ba => do
    let (out, dec) ← decodeIe out iei ba
    if dec ≤ ba.length then decodeOtherIes out (ba.drop dec) else .fault .outOfBounds
  termination_by ba => ba.length
  decreasing_by
    rw [List.length_drop, List.length_cons]
    omega

local instance neZeroTwo : NeZero 2 := ⟨two_ne_zero⟩
local instance neZeroEight : NeZero 8 := ⟨Nat.succ_ne_zero 7⟩
local instance neZeroSixteen : NeZero 16 := ⟨Nat.succ_ne_zero 15⟩
local instance neZeroSixBits : NeZero 64 := ⟨Nat.succ_ne_zero 63⟩
local instance neZeroTenBits : NeZero 1024 := ⟨Nat.succ_ne_zero 1023⟩

/-- `decode_guti_5gs_mobile_identity`. -/
def decodeGuti5gsMobileIdentity (buffer : List UInt8) : Outcome (Guti5gsMobileIdentity × ℕ) := do
  let octet ← byteAt buffer 0
  let spare := Fin.ofNat 16 ((octet >>> 4) &&& 0xf).toNat
  if spare ≠ 0xf then .refused
  else
    let oddeven := Fin.ofNat 2 ((octet >>> 3) &&& 0x1).toNat
    if oddeven ≠ 0 then .refused
    else
      let typeofidentity := Fin.ofNat 8 (octet &&& 0x7).toNat
      if typeofidentity ≠ 2 then .refused
      else
        let mcc ← byteAt buffer 1
        let mncmcc ← byteAt buffer 2
        let mnc ← byteAt buffer 3
        let amfregionid ← byteAt buffer 4
        let temp ← readSlice buffer 5 2
        let tmsi ← readSlice buffer 7 4
        return ({
          spare, oddeven, typeofidentity
          mccdigit2 := Fin.ofNat 16 ((mcc >>> 4) &&& 0xf).toNat
          mccdigit1 := Fin.ofNat 16 (mcc &&& 0xf).toNat
          mncdigit3 := Fin.ofNat 16 ((mncmcc >>> 4) &&& 0xf).toNat
          mccdigit3 := Fin.ofNat 16 (mncmcc &&& 0xf).toNat
          mncdigit2 := Fin.ofNat 16 ((mnc >>> 4) &&& 0xf).toNat
          mncdigit1 := Fin.ofNat 16 (mnc &&& 0xf).toNat
          amfregionid
          amfsetid := Fin.ofNat 1024 ((valueBE temp >>> 6) &&& 0x3FF)
          amfpointer := Fin.ofNat 64 (valueBE temp &&& 0x3f)
          tmsi := UInt32.ofNat (valueBE tmsi) }, 11)

/-- `decode_5gs_mobile_identity`. The length is read in the order of the host, and only the low
byte of it is kept. -/
def decode5gsMobileIdentity (iei : UInt8) (buffer : List UInt8) :
    Outcome (Guti5gsMobileIdentity × ℕ) := do
  let decoded := if 0 < iei then 1 else 0
  let head ← byteAt buffer 0
  if 0 < iei ∧ iei ≠ head then .refused
  else
    let tmp ← readSlice buffer decoded 2
    if buffer.length - (decoded + 2) < valueLE tmp % 256 then .refused
    else
      let octet ← byteAt buffer (decoded + 2)
      Outcome.assertFatal (octet &&& 0x7 = fgsMobileIdentity5gGuti)
      let (guti, decodedRc) ← decodeGuti5gsMobileIdentity (buffer.drop (decoded + 2))
      return (guti, decoded + 2 + decodedRc)

/-- The part of `decode_registration_accept` that decodes the 5G-GUTI, if there is one: the
structure and what is left of the message. -/
def decodeOptionalGuti (out : RegistrationAcceptMsg) (ba : List UInt8) :
    Outcome (RegistrationAcceptMsg × List UInt8) :=
  if ba.head? = some iei5gGuti then do
    let (guti, dec) ← decode5gsMobileIdentity iei5gGuti ba
    return ({ out with guti := some guti }, ba.drop dec)
  else .done (out, ba)

/-- A zeroed `registration_accept_msg` with the registration result of an octet. -/
def fgsRegistrationResult (octet : UInt8) : RegistrationAcceptMsg :=
  ⟨octet &&& 0x7, octet &&& 0x8 ≠ 0, none, List.replicate nasMaxNumberSlices noSnssai, 0,
    List.replicate nasMaxNumberSlices noSnssai, 0⟩

/-- `decode_registration_accept` into a zeroed structure. -/
def decodeRegistrationAccept (buffer : List UInt8) : Outcome (RegistrationAcceptMsg × ℕ) :=
  if buffer.length < 2 then .refused
  else do
    let octet ← byteAt buffer 1
    let (out, ba) ← decodeOptionalGuti (fgsRegistrationResult octet) (buffer.drop 2)
    let out ← decodeOtherIes out ba
    return (out, buffer.length)

/-! ### Well-formed messages -/

/-- An item of a slice list, in one of its five formats. -/
inductive SnssaiItem
  | sst (sst : UInt8)
  | sstHplmn (sst hplmnSst : UInt8)
  | sstSd (sst : UInt8) (sd : Fin 16777216)
  | sstSdHplmn (sst : UInt8) (sd : Fin 16777216) (hplmnSst : UInt8)
  | sstSdHplmnSd (sst : UInt8) (sd : Fin 16777216) (hplmnSst : UInt8) (hplmnSd : Fin 16777216)

namespace SnssaiItem

/-- The octets of an item without its length. -/
def contents : SnssaiItem → List UInt8
  | sst s => [s]
  | sstHplmn s h => [s, h]
  | sstSd s sd => s :: bytesBE sd 3
  | sstSdHplmn s sd h => s :: (bytesBE sd 3 ++ [h])
  | sstSdHplmnSd s sd h hsd => s :: (bytesBE sd 3 ++ h :: bytesBE hsd 3)

/-- The octets of an item. -/
def bytes (item : SnssaiItem) : List UInt8 :=
  UInt8.ofNat item.contents.length :: item.contents

/-- The S-NSSAI that an item stands for. -/
def value : SnssaiItem → NrNasMsgSnssai
  | sst s => ⟨s.toNat, none, none, none⟩
  | sstHplmn s h => ⟨s.toNat, some h.toNat, none, none⟩
  | sstSd s sd => ⟨s.toNat, none, some sd, none⟩
  | sstSdHplmn s sd h => ⟨s.toNat, some h.toNat, some sd, none⟩
  | sstSdHplmnSd s sd h hsd => ⟨s.toNat, some h.toNat, some sd, some hsd⟩

end SnssaiItem

/-- The items of an allowed or a configured NSSAI. -/
structure NssaiContents where
  items : List SnssaiItem
  length_le : items.length ≤ nasMaxNumberSlices

/-- The octets of a slice list from its length on. -/
def NssaiContents.bytes (nssai : NssaiContents) : List UInt8 :=
  let contents := nssai.items.flatMap SnssaiItem.bytes
  UInt8.ofNat contents.length :: contents

/-- An information element other than a slice list, in one of the three formats. -/
inductive OtherIe
  | octet (iei : UInt8) (h : 0x80 ≤ iei)
  | tlvE (iei : UInt8) (h : 0x70 ≤ iei ∧ iei < 0x80) (contents : List UInt8)
      (hlen : contents.length < 65536)
  | tlv (iei : UInt8) (h : iei < 0x70 ∧ iei ≠ 0x15 ∧ iei ≠ 0x31) (contents : List UInt8)
      (hlen : contents.length < 256)

namespace OtherIe

def iei : OtherIe → UInt8
  | octet iei _ => iei
  | tlvE iei _ _ _ => iei
  | tlv iei _ _ _ => iei

def bytes : OtherIe → List UInt8
  | octet iei _ => [iei]
  | tlvE iei _ contents _ => iei :: (bytesBE contents.length 2 ++ contents)
  | tlv iei _ contents _ => iei :: UInt8.ofNat contents.length :: contents

end OtherIe

/-- An information element after the 5G-GUTI. -/
inductive NasIe
  | allowedNssai (nssai : NssaiContents)
  | configuredNssai (nssai : NssaiContents)
  | other (ie : OtherIe)

namespace NasIe

def bytes : NasIe → List UInt8
  | allowedNssai nssai => 0x15 :: nssai.bytes
  | configuredNssai nssai => 0x31 :: nssai.bytes
  | other ie => ie.bytes

def allowed? : NasIe → Option NssaiContents
  | allowedNssai nssai => some nssai
  | _ => none

def configured? : NasIe → Option NssaiContents
  | configuredNssai nssai => some nssai
  | _ => none

end NasIe

/-- A well-formed registration accept. The 5G-GUTI is given by the ten octets behind the type of the
identity, and without one no element has its place. -/
structure AcceptMessage where
  result : UInt8
  guti : Option (Vector UInt8 10)
  ies : List NasIe
  allowed_le_one : (ies.filterMap NasIe.allowed?).length ≤ 1
  configured_le_one : (ies.filterMap NasIe.configured?).length ≤ 1
  guti_of_head : guti = none → (ies.flatMap NasIe.bytes).head? ≠ some iei5gGuti

namespace AcceptMessage

variable (m : AcceptMessage)

/-- The octets of the 5G-GUTI. -/
def gutiBytes (identity : Vector UInt8 10) : List UInt8 :=
  iei5gGuti :: (bytesBE 11 2 ++ 0xf2 :: identity.toList)

/-- The octets of the message. -/
def bytes : List UInt8 :=
  [1, m.result] ++ (m.guti.elim [] gutiBytes ++ m.ies.flatMap NasIe.bytes)

/-- The S-NSSAIs of the allowed NSSAI. -/
def allowed : List NrNasMsgSnssai :=
  (m.ies.filterMap NasIe.allowed?).flatMap fun nssai => nssai.items.map SnssaiItem.value

/-- The S-NSSAIs of the configured NSSAI. -/
def configured : List NrNasMsgSnssai :=
  (m.ies.filterMap NasIe.configured?).flatMap fun nssai => nssai.items.map SnssaiItem.value

/-- Decoding returns the length of the message, and exactly its slices. -/
def DecodesRight : Prop :=
  ∃ out, decodeRegistrationAccept m.bytes = .done (out, m.bytes.length) ∧
    out.numAllowedSlices = m.allowed.length ∧
    out.nasAllowedNssai.take out.numAllowedSlices = m.allowed ∧
    out.numConfiguredSlices = m.configured.length ∧
    out.configNssai.take out.numConfiguredSlices = m.configured

/-- The other elements of the message are among some. -/
def Uses (occurs : OtherIe → Prop) : Prop := ∀ ie, NasIe.other ie ∈ m.ies → occurs ie

end AcceptMessage

/-- Octets that are elements with a one-octet length, none of which is a slice list. The rule by
which the decoder skips an element is right for these. -/
inductive PlainTlvs : List UInt8 → Prop
  | nil : PlainTlvs []
  | cons {iei : UInt8} {contents rest : List UInt8} (h : iei ≠ 0x15 ∧ iei ≠ 0x31)
      (hlen : contents.length < 256) (hrest : PlainTlvs rest) :
      PlainTlvs (iei :: UInt8.ofNat contents.length :: (contents ++ rest))

/-! ### Items and slice lists -/

variable {out : RegistrationAcceptMsg} {rest : List UInt8}

theorem valueBE_sd (sd : Fin 16777216) : 0xffffff &&& valueBE (bytesBE sd 3) = sd := by
  rw [valueBE_bytesBE, Nat.and_comm, Nat.and_two_pow_sub_one_eq_mod _ 24]
  have := sd.isLt
  omega

theorem SnssaiItem.length_contents_mem (item : SnssaiItem) :
    item.contents.length ∈ [1, 2, 4, 5, 8] := by
  cases item <;> simp [contents]

theorem readSlice_sd (pre : List UInt8) (sd : Fin 16777216) (rest : List UInt8) :
    readSlice (pre ++ (bytesBE sd 3 ++ rest)) pre.length 3 = .done (bytesBE sd 3) :=
  readSlice_append pre rest rfl (length_bytesBE ..).symm

/-- Each of the five formats has a case, which reads the values of the item. -/
theorem decodeSnssai_contents (item : SnssaiItem) (rest : List UInt8) :
    ∃ decode, decodeSnssai (UInt8.ofNat item.contents.length) (item.contents ++ rest) =
        some decode ∧ decode noSnssai = .done item.value := by
  cases item with
  | sst s => exact ⟨_, rfl, rfl⟩
  | sstHplmn s h => exact ⟨_, rfl, rfl⟩
  | sstSd s sd =>
    refine ⟨_, rfl, ?_⟩
    have hbyte : byteAt (s :: (bytesBE sd 3 ++ rest)) 0 = .done s := rfl
    have hsd : readSlice (s :: (bytesBE sd 3 ++ rest)) 1 3 = .done (bytesBE sd 3) :=
      readSlice_sd [s] sd rest
    simp only [SnssaiItem.contents, List.cons_append, hbyte, hsd, Outcome.done_bind, valueBE_sd]
    rfl
  | sstSdHplmn s sd h =>
    refine ⟨_, rfl, ?_⟩
    have hsd : readSlice (s :: (bytesBE sd 3 ++ h :: rest)) 1 3 = .done (bytesBE sd 3) :=
      readSlice_sd [s] sd (h :: rest)
    have hhplmn : byteAt (s :: (bytesBE sd 3 ++ h :: rest)) 4 = .done h := rfl
    have hbyte : byteAt (s :: (bytesBE sd 3 ++ h :: rest)) 0 = .done s := rfl
    simp only [SnssaiItem.contents, List.cons_append, List.append_assoc, List.nil_append, hbyte,
      hhplmn, hsd, Outcome.done_bind, valueBE_sd]
    rfl
  | sstSdHplmnSd s sd h hsd =>
    refine ⟨_, rfl, ?_⟩
    have hbyte : byteAt (s :: (bytesBE sd 3 ++ h :: (bytesBE hsd 3 ++ rest))) 0 = .done s := rfl
    have hslice : readSlice (s :: (bytesBE sd 3 ++ h :: (bytesBE hsd 3 ++ rest))) 1 3 =
        .done (bytesBE sd 3) := readSlice_sd [s] sd _
    have hhplmn : byteAt (s :: (bytesBE sd 3 ++ h :: (bytesBE hsd 3 ++ rest))) 4 = .done h := rfl
    have hhplmnSd : readSlice (s :: (bytesBE sd 3 ++ h :: (bytesBE hsd 3 ++ rest))) 5 3 =
        .done (bytesBE hsd 3) := readSlice_sd (s :: (bytesBE sd 3 ++ [h])) hsd rest
    simp only [SnssaiItem.contents, List.cons_append, List.append_assoc, hbyte, hhplmn, hslice,
      hhplmnSd, Outcome.done_bind, valueBE_sd]
    rfl

theorem itemAt_append {pre : List NrNasMsgSnssai} {room : ℕ} (hroom : 0 < room) :
    itemAt (pre ++ List.replicate room noSnssai) pre.length = .done noSnssai := by
  obtain ⟨room, rfl⟩ := Nat.exists_eq_succ_of_ne_zero hroom.ne'
  rw [itemAt, List.getElem?_append_right le_rfl, Nat.sub_self, List.replicate_succ]
  rfl

theorem set_append_room {pre : List NrNasMsgSnssai} {room : ℕ} (item : NrNasMsgSnssai) :
    (pre ++ List.replicate (room + 1) noSnssai).set pre.length item =
      (pre ++ [item]) ++ List.replicate room noSnssai := by
  rw [List.set_append_right _ _ le_rfl, Nat.sub_self, List.replicate_succ, List.set_cons_zero,
    List.append_assoc, List.singleton_append]

/-- The items of a list are stored one after the other, as long as there is room in the array. -/
theorem decodeNssaiItems_items (items : List SnssaiItem) (rest : List UInt8) :
    ∀ (pre : List NrNasMsgSnssai) (room : ℕ), items.length ≤ room →
      decodeNssaiItems (pre ++ List.replicate room noSnssai) pre.length
          (items.flatMap SnssaiItem.bytes).length (items.flatMap SnssaiItem.bytes ++ rest) =
        .done ((pre ++ items.map SnssaiItem.value) ++
          List.replicate (room - items.length) noSnssai, pre.length + items.length) := by
  induction items with
  | nil =>
    intro pre room _
    rw [List.flatMap_nil, List.length_nil, decodeNssaiItems, List.map_nil, List.append_nil]
    rfl
  | cons item items ih =>
    intro pre room hroom
    rw [List.length_cons] at hroom
    obtain ⟨room, rfl⟩ : ∃ r, room = r + 1 := ⟨room - 1, by omega⟩
    obtain ⟨decode, hcase, hdecode⟩ :=
      decodeSnssai_contents item (items.flatMap SnssaiItem.bytes ++ rest)
    have hlen : (UInt8.ofNat item.contents.length).toNat = item.contents.length := by
      have := item.length_contents_mem
      simp only [List.mem_cons, List.not_mem_nil, or_false] at this
      rw [UInt8.toNat_ofNat']
      omega
    have hbytes : (List.flatMap SnssaiItem.bytes (item :: items)) ++ rest =
        UInt8.ofNat item.contents.length ::
          (item.contents ++ (items.flatMap SnssaiItem.bytes ++ rest)) := by
      rw [List.flatMap_cons, SnssaiItem.bytes, List.append_assoc, List.cons_append]
    have hleft : (List.flatMap SnssaiItem.bytes (item :: items)).length =
        (item.contents.length + (items.flatMap SnssaiItem.bytes).length) + 1 := by
      rw [List.flatMap_cons, SnssaiItem.bytes, List.length_append, List.length_cons]
      omega
    -- the rest of the list is decoded behind the item
    have hrest := ih (pre ++ [item.value]) room (by omega)
    rw [List.length_append, List.length_singleton] at hrest
    rw [hbytes, hleft, decodeNssaiItems, hcase]
    dsimp only
    rw [itemAt_append (Nat.succ_pos room), Outcome.done_bind, hdecode, Outcome.done_bind, hlen,
      set_append_room, Nat.add_sub_cancel_left, List.drop_left, hrest, List.map_cons,
      List.length_cons, Nat.add_sub_add_right, List.append_assoc pre, List.singleton_append,
      Nat.add_assoc pre.length, Nat.add_comm 1]

/-- The entries of an array behind its slices are zero. -/
def storedArray (nssai : NssaiContents) : List NrNasMsgSnssai :=
  nssai.items.map SnssaiItem.value ++
    List.replicate (nasMaxNumberSlices - nssai.items.length) noSnssai

theorem length_items_le (items : List SnssaiItem) :
    (items.flatMap SnssaiItem.bytes).length ≤ 9 * items.length := by
  induction items with
  | nil => exact le_rfl
  | cons item items ih =>
    have := item.length_contents_mem
    simp only [List.mem_cons, List.not_mem_nil, or_false] at this
    rw [List.flatMap_cons, List.length_append, SnssaiItem.bytes, List.length_cons,
      List.length_cons]
    omega

theorem NssaiContents.toNat_length (nssai : NssaiContents) :
    (UInt8.ofNat (nssai.items.flatMap SnssaiItem.bytes).length).toNat =
      (nssai.items.flatMap SnssaiItem.bytes).length := by
  have := length_items_le nssai.items
  have : nssai.items.length ≤ 8 := nssai.length_le
  rw [UInt8.toNat_ofNat']
  omega

theorem NssaiContents.length_bytes (nssai : NssaiContents) :
    nssai.bytes.length = (nssai.items.flatMap SnssaiItem.bytes).length + 1 :=
  List.length_cons

theorem decodeNssaiIe_bytes (nssai : NssaiContents) (rest : List UInt8) :
    decodeNssaiIe (List.replicate nasMaxNumberSlices noSnssai) (nssai.bytes ++ rest) =
      .done (storedArray nssai, nssai.items.length, nssai.bytes.length) := by
  have hitems := decodeNssaiItems_items nssai.items rest [] nasMaxNumberSlices nssai.length_le
  rw [List.nil_append, List.length_nil, List.nil_append, Nat.zero_add] at hitems
  have hhead : byteAt (nssai.bytes ++ rest) 0 =
      .done (UInt8.ofNat (nssai.items.flatMap SnssaiItem.bytes).length) := rfl
  have htail : (nssai.bytes ++ rest).drop 1 = nssai.items.flatMap SnssaiItem.bytes ++ rest := rfl
  rw [decodeNssaiIe, hhead, Outcome.done_bind, htail, nssai.toNat_length, hitems,
    Outcome.done_bind, nssai.length_bytes]
  rfl

/-! ### Elements that are skipped, and slices that are stored -/

/-- The structure after an element. -/
def RegistrationAcceptMsg.store (out : RegistrationAcceptMsg) : NasIe → RegistrationAcceptMsg
  | .allowedNssai nssai =>
    { out with nasAllowedNssai := storedArray nssai, numAllowedSlices := nssai.items.length }
  | .configuredNssai nssai =>
    { out with configNssai := storedArray nssai, numConfiguredSlices := nssai.items.length }
  | .other _ => out

/-- A step of the loop over octets that go on behind it. -/
theorem decodeOtherIes_cons {out' : RegistrationAcceptMsg} {iei : UInt8} {bytes rest : List UInt8}
    (h : decodeIe out iei (bytes ++ rest) = .done (out', bytes.length)) :
    decodeOtherIes out (iei :: (bytes ++ rest)) = decodeOtherIes out' rest := by
  have hle : bytes.length ≤ (bytes ++ rest).length := by
    rw [List.length_append]
    omega
  rw [decodeOtherIes, h, Outcome.done_bind]
  dsimp only
  rw [if_pos hle, List.drop_left]

theorem PlainTlvs.decodeOtherIes_append {bytes : List UInt8} (h : PlainTlvs bytes)
    (out : RegistrationAcceptMsg) (rest : List UInt8) :
    decodeOtherIes out (bytes ++ rest) = decodeOtherIes out rest := by
  induction h with
  | nil => rfl
  | @cons iei contents tail h hlen htail ih =>
    have hstep : decodeIe out iei
        ((UInt8.ofNat contents.length :: contents) ++ (tail ++ rest)) =
        .done (out, (UInt8.ofNat contents.length :: contents).length) := by
      rw [decodeIe, if_neg h.1, if_neg h.2]
      have hnat : (UInt8.ofNat contents.length).toNat = contents.length := by
        rw [UInt8.toNat_ofNat']
        omega
      change Outcome.done (out, (UInt8.ofNat contents.length).toNat + 1) = _
      rw [hnat, List.length_cons]
    have hgo := decodeOtherIes_cons hstep
    rw [ih] at hgo
    rw [List.cons_append, List.cons_append, List.append_assoc]
    exact hgo

/-- Each kind of slice list occurs at most once more, and its array is still zero if it does. -/
structure Awaits (out : RegistrationAcceptMsg) (ies : List NasIe) : Prop where
  allowed_le_one : (ies.filterMap NasIe.allowed?).length ≤ 1
  configured_le_one : (ies.filterMap NasIe.configured?).length ≤ 1
  allowed_zero : ies.filterMap NasIe.allowed? ≠ [] →
    out.nasAllowedNssai = List.replicate nasMaxNumberSlices noSnssai
  configured_zero : ies.filterMap NasIe.configured? ≠ [] →
    out.configNssai = List.replicate nasMaxNumberSlices noSnssai

theorem Awaits.store {ie : NasIe} {ies : List NasIe} (h : Awaits out (ie :: ies)) :
    Awaits (out.store ie) ies := by
  obtain ⟨hallowed, hconfigured, hallowed₀, hconfigured₀⟩ := h
  cases ie with
  | allowedNssai nssai =>
    -- the list that is stored was the only one of its kind
    simp only [List.filterMap_cons, NasIe.allowed?, NasIe.configured?, List.length_cons] at *
    have hnil : ies.filterMap NasIe.allowed? = [] := List.length_eq_zero_iff.mp (by omega)
    exact ⟨by omega, hconfigured, fun hne => absurd hnil hne, hconfigured₀⟩
  | configuredNssai nssai =>
    simp only [List.filterMap_cons, NasIe.allowed?, NasIe.configured?, List.length_cons] at *
    have hnil : ies.filterMap NasIe.configured? = [] := List.length_eq_zero_iff.mp (by omega)
    exact ⟨hallowed, by omega, hallowed₀, fun hne => absurd hnil hne⟩
  | other ie =>
    simp only [List.filterMap_cons, NasIe.allowed?, NasIe.configured?] at *
    exact ⟨hallowed, hconfigured, hallowed₀, hconfigured₀⟩

theorem decodeOtherIes_ie {ie : NasIe} {ies : List NasIe} (h : Awaits out (ie :: ies))
    (hplain : ∀ o, ie = .other o → PlainTlvs o.bytes) (rest : List UInt8) :
    decodeOtherIes out (ie.bytes ++ rest) = decodeOtherIes (out.store ie) rest := by
  cases ie with
  | allowedNssai nssai =>
    apply decodeOtherIes_cons
    rw [decodeIe, if_pos rfl, h.allowed_zero (by simp [NasIe.allowed?]), decodeNssaiIe_bytes]
    rfl
  | configuredNssai nssai =>
    have hne : ¬ (0x31 : UInt8) = 0x15 := by decide
    apply decodeOtherIes_cons
    rw [decodeIe, if_neg hne, if_pos rfl, h.configured_zero (by simp [NasIe.configured?]),
      decodeNssaiIe_bytes]
    rfl
  | other o => exact (hplain o rfl).decodeOtherIes_append out rest

theorem decodeOtherIes_ies {ies : List NasIe} (h : Awaits out ies)
    (hplain : ∀ o, NasIe.other o ∈ ies → PlainTlvs o.bytes) (rest : List UInt8) :
    decodeOtherIes out (ies.flatMap NasIe.bytes ++ rest) =
      decodeOtherIes (ies.foldl RegistrationAcceptMsg.store out) rest := by
  induction ies generalizing out with
  | nil => rfl
  | cons ie ies ih =>
    have hie : ∀ o, ie = .other o → PlainTlvs o.bytes := fun o ho =>
      hplain o (ho ▸ List.mem_cons_self ..)
    rw [List.flatMap_cons, List.append_assoc, decodeOtherIes_ie h hie, List.foldl_cons]
    exact ih h.store fun o ho => hplain o (List.mem_cons_of_mem _ ho)

theorem foldl_store_allowed (ies : List NasIe) (out : RegistrationAcceptMsg) :
    let res := ies.foldl RegistrationAcceptMsg.store out
    (res.nasAllowedNssai, res.numAllowedSlices) =
      (ies.filterMap NasIe.allowed?).foldl
        (fun _ nssai => (storedArray nssai, nssai.items.length))
        (out.nasAllowedNssai, out.numAllowedSlices) := by
  induction ies generalizing out with
  | nil => rfl
  | cons ie ies ih => cases ie <;> exact ih _

theorem foldl_store_configured (ies : List NasIe) (out : RegistrationAcceptMsg) :
    let res := ies.foldl RegistrationAcceptMsg.store out
    (res.configNssai, res.numConfiguredSlices) =
      (ies.filterMap NasIe.configured?).foldl
        (fun _ nssai => (storedArray nssai, nssai.items.length))
        (out.configNssai, out.numConfiguredSlices) := by
  induction ies generalizing out with
  | nil => rfl
  | cons ie ies ih => cases ie <;> exact ih _

/-- Of a list that is stored at most once, exactly its slices are counted. -/
theorem slices_of_stored {nssais : List NssaiContents} {res : List NrNasMsgSnssai × ℕ}
    (hle : nssais.length ≤ 1)
    (hres : res = nssais.foldl (fun _ nssai => (storedArray nssai, nssai.items.length))
      (List.replicate nasMaxNumberSlices noSnssai, 0)) :
    let slices := nssais.flatMap fun nssai => nssai.items.map SnssaiItem.value
    res.2 = slices.length ∧ res.1.take res.2 = slices := by
  match nssais, hle with
  | [], _ =>
    subst hres
    exact ⟨rfl, rfl⟩
  | [nssai], _ =>
    subst hres
    have hlen : (nssai.items.map SnssaiItem.value).length = nssai.items.length :=
      List.length_map ..
    rw [List.flatMap_singleton]
    exact ⟨hlen.symm, List.take_left' hlen⟩

/-! ### Octets that are not plain -/

/-- The number of slices that are decoded does not depend on the array. -/
theorem decodeNssaiItems_snd {left : ℕ} : ∀ {nssai₁ nssai₂ res₁ res₂ : List NrNasMsgSnssai}
    {cnt c₁ c₂ : ℕ} {buf : List UInt8}, decodeNssaiItems nssai₁ cnt left buf = .done (res₁, c₁) →
      decodeNssaiItems nssai₂ cnt left buf = .done (res₂, c₂) → c₁ = c₂ := by
  induction left using Nat.strong_induction_on with
  | _ left ih =>
    intro nssai₁ nssai₂ res₁ res₂ cnt c₁ c₂ buf h₁ h₂
    cases left with
    | zero =>
      rw [decodeNssaiItems, Outcome.done.injEq, Prod.mk.injEq] at h₁ h₂
      rw [← h₁.2, ← h₂.2]
    | succ left =>
      cases buf with
      | nil =>
        rw [decodeNssaiItems] at h₁
        cases h₁
      | cons itemLen buf =>
        rw [decodeNssaiItems] at h₁ h₂
        cases hcase : decodeSnssai itemLen buf with
        | none =>
          rw [hcase] at h₁ h₂
          exact ih left (Nat.lt_succ_self _) h₁ h₂
        | some decode =>
          rw [hcase] at h₁ h₂
          simp only [Outcome.bind_eq_done_iff] at h₁ h₂
          obtain ⟨_, _, _, _, h₁⟩ := h₁
          obtain ⟨_, _, _, _, h₂⟩ := h₂
          exact ih _ (by omega) h₁ h₂

theorem decodeNssaiIe_eq_done {nssai res : List NrNasMsgSnssai} {buf : List UInt8} {num dec : ℕ}
    (h : decodeNssaiIe nssai buf = .done (res, num, dec)) :
    ∃ length, byteAt buf 0 = .done length ∧
      decodeNssaiItems nssai 0 length.toNat (buf.drop 1) = .done (res, num) ∧
      dec = length.toNat + 1 := by
  rw [decodeNssaiIe, Outcome.bind_eq_done_iff] at h
  obtain ⟨length, hlength, h⟩ := h
  rw [Outcome.bind_eq_done_iff] at h
  obtain ⟨⟨res', num'⟩, hitems, h⟩ := h
  simp only [Outcome.pure_eq, Outcome.done.injEq, Prod.mk.injEq] at h
  obtain ⟨rfl, rfl, rfl⟩ := h
  exact ⟨length, hlength, hitems, rfl⟩

/-- Two decoders that read the same slice list go on by the same length, with the same number of
slices. -/
theorem decodeNssaiIe_agree {nssai₁ nssai₂ res₁ res₂ : List NrNasMsgSnssai} {buf : List UInt8}
    {num₁ num₂ dec₁ dec₂ : ℕ} (h₁ : decodeNssaiIe nssai₁ buf = .done (res₁, num₁, dec₁))
    (h₂ : decodeNssaiIe nssai₂ buf = .done (res₂, num₂, dec₂)) : num₁ = num₂ ∧ dec₁ = dec₂ := by
  obtain ⟨length, hlength, hitems, rfl⟩ := decodeNssaiIe_eq_done h₁
  obtain ⟨length', hlength', hitems', rfl⟩ := decodeNssaiIe_eq_done h₂
  obtain rfl : length = length' := by
    rw [hlength, Outcome.done.injEq] at hlength'
    exact hlength'
  exact ⟨decodeNssaiItems_snd hitems hitems', rfl⟩

/-- What one element does to the numbers of slices: it leaves them, or sets one of them to a value
that depends on its octets only. -/
structure Agree (plain : Prop) (out₁ out₂ res₁ res₂ : RegistrationAcceptMsg) : Prop where
  allowed : out₁.numAllowedSlices = out₂.numAllowedSlices →
    res₁.numAllowedSlices = res₂.numAllowedSlices
  configured : out₁.numConfiguredSlices = out₂.numConfiguredSlices →
    res₁.numConfiguredSlices = res₂.numConfiguredSlices
  cases : plain ∨ res₁.numAllowedSlices = res₂.numAllowedSlices ∨
    res₁.numConfiguredSlices = res₂.numConfiguredSlices

theorem Agree.trans {plain plain' : Prop} {out₁ out₂ mid₁ mid₂ res₁ res₂ : RegistrationAcceptMsg}
    (h : Agree plain out₁ out₂ mid₁ mid₂) (h' : Agree plain' mid₁ mid₂ res₁ res₂) :
    Agree (plain ∧ plain') out₁ out₂ res₁ res₂ := by
  refine ⟨fun ho => h'.allowed (h.allowed ho), fun ho => h'.configured (h.configured ho), ?_⟩
  rcases h.cases with hplain | hmid | hmid
  · exact h'.cases.imp_left fun hplain' => ⟨hplain, hplain'⟩
  · exact .inr (.inl (h'.allowed hmid))
  · exact .inr (.inr (h'.configured hmid))

theorem decodeIe_agree {out₁ out₂ res₁ res₂ : RegistrationAcceptMsg} {iei : UInt8}
    {ba : List UInt8} {dec₁ dec₂ : ℕ} (h₁ : decodeIe out₁ iei ba = .done (res₁, dec₁))
    (h₂ : decodeIe out₂ iei ba = .done (res₂, dec₂)) :
    dec₁ = dec₂ ∧
      Agree ((iei ≠ 0x15 ∧ iei ≠ 0x31) ∧ ∃ length, byteAt ba 0 = .done length ∧
        dec₁ = length.toNat + 1) out₁ out₂ res₁ res₂ := by
  rw [decodeIe] at h₁ h₂
  by_cases hallowed : iei = 0x15
  · rw [if_pos hallowed, Outcome.bind_eq_done_iff] at h₁ h₂
    obtain ⟨⟨nssai₁, num₁, d₁⟩, hie₁, h₁⟩ := h₁
    obtain ⟨⟨nssai₂, num₂, d₂⟩, hie₂, h₂⟩ := h₂
    simp only [Outcome.pure_eq, Outcome.done.injEq, Prod.mk.injEq] at h₁ h₂
    obtain ⟨rfl, rfl⟩ := h₁
    obtain ⟨rfl, rfl⟩ := h₂
    obtain ⟨hnum, hdec⟩ := decodeNssaiIe_agree hie₁ hie₂
    exact ⟨hdec, fun _ => hnum, id, .inr (.inl hnum)⟩
  · by_cases hconfigured : iei = 0x31
    · rw [if_neg hallowed, if_pos hconfigured, Outcome.bind_eq_done_iff] at h₁ h₂
      obtain ⟨⟨nssai₁, num₁, d₁⟩, hie₁, h₁⟩ := h₁
      obtain ⟨⟨nssai₂, num₂, d₂⟩, hie₂, h₂⟩ := h₂
      simp only [Outcome.pure_eq, Outcome.done.injEq, Prod.mk.injEq] at h₁ h₂
      obtain ⟨rfl, rfl⟩ := h₁
      obtain ⟨rfl, rfl⟩ := h₂
      obtain ⟨hnum, hdec⟩ := decodeNssaiIe_agree hie₁ hie₂
      exact ⟨hdec, id, fun _ => hnum, .inr (.inr hnum)⟩
    · rw [if_neg hallowed, if_neg hconfigured, Outcome.bind_eq_done_iff] at h₁ h₂
      obtain ⟨length, hlength, h₁⟩ := h₁
      obtain ⟨length', hlength', h₂⟩ := h₂
      obtain rfl : length = length' := by
        rw [hlength, Outcome.done.injEq] at hlength'
        exact hlength'
      simp only [Outcome.pure_eq, Outcome.done.injEq, Prod.mk.injEq] at h₁ h₂
      obtain ⟨rfl, rfl⟩ := h₁
      obtain ⟨rfl, rfl⟩ := h₂
      exact ⟨rfl, id, id, .inl ⟨⟨hallowed, hconfigured⟩, length, hlength, rfl⟩⟩

theorem decodeOtherIes_cons_eq_done {iei : UInt8} {ba : List UInt8} {res : RegistrationAcceptMsg}
    (h : decodeOtherIes out (iei :: ba) = .done res) :
    ∃ out' dec, decodeIe out iei ba = .done (out', dec) ∧ dec ≤ ba.length ∧
      decodeOtherIes out' (ba.drop dec) = .done res := by
  rw [decodeOtherIes, Outcome.bind_eq_done_iff] at h
  obtain ⟨⟨out', dec⟩, hie, h⟩ := h
  dsimp only at h
  split_ifs at h with hdec
  exact ⟨out', dec, hie, hdec, h⟩

/-- A length that is followed by that many octets makes one more plain element. -/
theorem PlainTlvs.cons_of_byteAt {iei length : UInt8} {ba : List UInt8}
    (hiei : iei ≠ 0x15 ∧ iei ≠ 0x31) (hlength : byteAt ba 0 = .done length)
    (hle : length.toNat + 1 ≤ ba.length) (hrest : PlainTlvs (ba.drop (length.toNat + 1))) :
    PlainTlvs (iei :: ba) := by
  cases ba with
  | nil => cases hlength
  | cons l tail =>
    obtain rfl : l = length := by
      change Outcome.done l = .done length at hlength
      exact (Outcome.done.injEq .. ▸ hlength)
    rw [List.length_cons] at hle
    have htake : (tail.take l.toNat).length = l.toNat := by
      rw [List.length_take]
      omega
    have hplain := PlainTlvs.cons hiei (by rw [htake]; exact l.toNat_lt) hrest
    rw [htake, UInt8.ofNat_toNat, List.drop_succ_cons, List.take_append_drop] at hplain
    exact hplain

/-- If two structures are decoded from octets that are not plain, one of the numbers of slices is
the same in both. -/
theorem PlainTlvs.of_decodeOtherIes {n : ℕ} : ∀ {ba : List UInt8}
    {out₁ out₂ res₁ res₂ : RegistrationAcceptMsg}, ba.length = n →
      decodeOtherIes out₁ ba = .done res₁ → decodeOtherIes out₂ ba = .done res₂ →
        Agree (PlainTlvs ba) out₁ out₂ res₁ res₂ := by
  induction n using Nat.strong_induction_on with
  | _ n ih =>
    intro ba out₁ out₂ res₁ res₂ hn h₁ h₂
    cases ba with
    | nil =>
      rw [decodeOtherIes, Outcome.done.injEq] at h₁ h₂
      subst h₁ h₂
      exact ⟨id, id, .inl .nil⟩
    | cons iei ba =>
      obtain ⟨mid₁, dec, hie₁, hle, h₁⟩ := decodeOtherIes_cons_eq_done h₁
      obtain ⟨mid₂, dec', hie₂, -, h₂⟩ := decodeOtherIes_cons_eq_done h₂
      obtain ⟨rfl, hstep⟩ := decodeIe_agree hie₁ hie₂
      have hlt : (ba.drop dec).length < n := by
        rw [List.length_cons] at hn
        rw [List.length_drop]
        omega
      obtain ⟨hallowed, hconfigured, hcases⟩ := hstep.trans (ih _ hlt rfl h₁ h₂)
      refine ⟨hallowed, hconfigured, hcases.imp_left ?_⟩
      rintro ⟨⟨hiei, length, hlength, rfl⟩, hrest⟩
      exact cons_of_byteAt hiei hlength hle hrest

/-! ### Whole messages -/

theorem byteAt_done (buf : List UInt8) (i : ℕ) (h : i < buf.length) :
    ∃ b, byteAt buf i = .done b := ⟨_, byteAt_of_lt h⟩

theorem readSlice_done (buf : List UInt8) (pos count : ℕ) (h : pos + count ≤ buf.length) :
    ∃ bytes, readSlice buf pos count = .done bytes := ⟨_, if_pos h⟩

theorem decodeGuti5gsMobileIdentity_done (octets : List UInt8) (h : 10 ≤ octets.length) :
    ∃ guti, decodeGuti5gsMobileIdentity (0xf2 :: octets) = .done (guti, 11) := by
  have hlen : (0xf2 :: octets).length = octets.length + 1 := List.length_cons
  have hoctet : byteAt (0xf2 :: octets) 0 = .done 0xf2 := rfl
  have hspare : ¬ Fin.ofNat 16 (((0xf2 : UInt8) >>> 4) &&& 0xf).toNat ≠ 0xf := by decide
  have hodd : ¬ Fin.ofNat 2 (((0xf2 : UInt8) >>> 3) &&& 0x1).toNat ≠ 0 := by decide
  have htype : ¬ Fin.ofNat 8 ((0xf2 : UInt8) &&& 0x7).toNat ≠ 2 := by decide
  obtain ⟨mcc, hmcc⟩ := byteAt_done (0xf2 :: octets) 1 (by omega)
  obtain ⟨mncmcc, hmncmcc⟩ := byteAt_done (0xf2 :: octets) 2 (by omega)
  obtain ⟨mnc, hmnc⟩ := byteAt_done (0xf2 :: octets) 3 (by omega)
  obtain ⟨region, hregion⟩ := byteAt_done (0xf2 :: octets) 4 (by omega)
  obtain ⟨temp, htemp⟩ := readSlice_done (0xf2 :: octets) 5 2 (by omega)
  obtain ⟨tmsi, htmsi⟩ := readSlice_done (0xf2 :: octets) 7 4 (by omega)
  rw [decodeGuti5gsMobileIdentity, hoctet, Outcome.done_bind]
  dsimp only
  rw [if_neg hspare, if_neg hodd, if_neg htype, hmcc, Outcome.done_bind, hmncmcc,
    Outcome.done_bind, hmnc, Outcome.done_bind, hregion, Outcome.done_bind, htemp,
    Outcome.done_bind, htmsi, Outcome.done_bind]
  exact ⟨_, rfl⟩

/-- The 5G-GUTI of a well-formed message is decoded, with its fourteen octets. -/
theorem decode5gsMobileIdentity_gutiBytes (identity : Vector UInt8 10) (rest : List UInt8) :
    ∃ guti, decode5gsMobileIdentity iei5gGuti (AcceptMessage.gutiBytes identity ++ rest) =
      .done (guti, (AcceptMessage.gutiBytes identity).length) := by
  have hten : identity.toList.length = 10 := Vector.length_toList
  obtain ⟨guti, hguti⟩ := decodeGuti5gsMobileIdentity_done (identity.toList ++ rest)
    (by rw [List.length_append]; omega)
  have hbytes : AcceptMessage.gutiBytes identity ++ rest =
      0x77 :: 0x00 :: 0x0b :: 0xf2 :: (identity.toList ++ rest) := rfl
  have hlength : (AcceptMessage.gutiBytes identity).length = 14 := by
    rw [AcceptMessage.gutiBytes, List.length_cons, List.length_append, length_bytesBE,
      List.length_cons, hten]
  have hslice : readSlice (0x77 :: 0x00 :: 0x0b :: 0xf2 :: (identity.toList ++ rest)) 1 2 =
      .done [0x00, 0x0b] := by
    change readSlice ([0x77] ++ ([0x00, 0x0b] ++ 0xf2 :: (identity.toList ++ rest))) 1 2 = _
    exact readSlice_append _ _ rfl rfl
  have hiei : ¬ (0 < iei5gGuti ∧ iei5gGuti ≠ 0x77) := by decide
  have hdecoded : (if 0 < iei5gGuti then 1 else 0) = 1 := by decide
  -- the length is taken from the wrong octet, and so it is not too long
  have hielen : ¬ (0x77 :: 0x00 :: 0x0b :: 0xf2 :: (identity.toList ++ rest)).length - (1 + 2) <
      valueLE [0x00, 0x0b] % 256 := by
    have : valueLE [0x00, 0x0b] % 256 = 0 := by decide
    omega
  refine ⟨guti, ?_⟩
  rw [hbytes, hlength, decode5gsMobileIdentity]
  dsimp only
  have hhead : byteAt (0x77 :: 0x00 :: 0x0b :: 0xf2 :: (identity.toList ++ rest)) 0 =
      .done 0x77 := rfl
  have hoctet : byteAt (0x77 :: 0x00 :: 0x0b :: 0xf2 :: (identity.toList ++ rest)) (1 + 2) =
      .done 0xf2 := rfl
  have hdrop : (0x77 :: 0x00 :: 0x0b :: 0xf2 :: (identity.toList ++ rest)).drop (1 + 2) =
      0xf2 :: (identity.toList ++ rest) := rfl
  have htype : (0xf2 : UInt8) &&& 0x7 = fgsMobileIdentity5gGuti := by decide
  rw [hhead, Outcome.done_bind, if_neg hiei, hdecoded, hslice, Outcome.done_bind, if_neg hielen,
    hoctet, Outcome.done_bind, Outcome.assertFatal_of htype, Outcome.done_bind, hdrop, hguti,
    Outcome.done_bind]
  rfl

namespace AcceptMessage

variable {m : AcceptMessage}

/-- The elements are decoded into a structure without slices. -/
theorem decode_bytes (m : AcceptMessage) :
    ∃ guti, decodeRegistrationAccept m.bytes = (do
      let out ← decodeOtherIes { fgsRegistrationResult m.result with guti }
        (m.ies.flatMap NasIe.bytes)
      return (out, m.bytes.length)) := by
  have htwo : ¬ m.bytes.length < 2 := by
    rw [bytes, List.length_append, List.length_cons, List.length_singleton]
    omega
  have hoctet : byteAt m.bytes 1 = .done m.result := rfl
  have hdrop : m.bytes.drop 2 = m.guti.elim [] gutiBytes ++ m.ies.flatMap NasIe.bytes := rfl
  rw [decodeRegistrationAccept, if_neg htwo, hoctet, Outcome.done_bind, hdrop]
  cases hguti : m.guti with
  | none =>
    refine ⟨none, ?_⟩
    rw [Option.elim_none, List.nil_append, decodeOptionalGuti,
      if_neg (m.guti_of_head hguti), Outcome.done_bind]
    rfl
  | some identity =>
    obtain ⟨guti, hdecode⟩ :=
      decode5gsMobileIdentity_gutiBytes identity (m.ies.flatMap NasIe.bytes)
    have hhead : (gutiBytes identity ++ m.ies.flatMap NasIe.bytes).head? = some iei5gGuti := rfl
    refine ⟨some guti, ?_⟩
    rw [Option.elim_some, decodeOptionalGuti, if_pos hhead, hdecode, Outcome.done_bind]
    dsimp only
    rw [Outcome.pure_eq, Outcome.done_bind, List.drop_left]

theorem awaits (m : AcceptMessage) (guti : Option Guti5gsMobileIdentity) :
    Awaits { fgsRegistrationResult m.result with guti } m.ies :=
  ⟨m.allowed_le_one, m.configured_le_one, fun _ => rfl, fun _ => rfl⟩

theorem decodesRight_of_plain (h : ∀ ie, NasIe.other ie ∈ m.ies → PlainTlvs ie.bytes) :
    m.DecodesRight := by
  obtain ⟨guti, hdecode⟩ := m.decode_bytes
  set out : RegistrationAcceptMsg := { fgsRegistrationResult m.result with guti } with hout
  have hies := decodeOtherIes_ies (m.awaits guti) h []
  rw [List.append_nil, decodeOtherIes] at hies
  obtain ⟨hnum, htake⟩ := slices_of_stored m.allowed_le_one (foldl_store_allowed m.ies out)
  obtain ⟨hnum', htake'⟩ :=
    slices_of_stored m.configured_le_one (foldl_store_configured m.ies out)
  refine ⟨m.ies.foldl RegistrationAcceptMsg.store out, ?_, hnum, htake, hnum', htake'⟩
  rw [hdecode, hies]
  rfl

/-- One slice of the given format with SST 1. -/
def oneSlice : NssaiContents where
  items := [.sst 1]
  length_le := by simp [nasMaxNumberSlices]

/-- A message with a 5G-GUTI and elements that follow it. -/
def withGuti (ies : List NasIe) (hallowed : (ies.filterMap NasIe.allowed?).length ≤ 1)
    (hconfigured : (ies.filterMap NasIe.configured?).length ≤ 1) : AcceptMessage where
  result := 1
  guti := some (Vector.replicate 10 0)
  ies := ies
  allowed_le_one := hallowed
  configured_le_one := hconfigured
  guti_of_head := fun h => absurd h (Option.some_ne_none _)

/-- A message with nothing but an element after the 5G-GUTI. -/
def only (ie : OtherIe) : AcceptMessage := withGuti [.other ie] (Nat.zero_le 1) (Nat.zero_le 1)

/-- A message with an allowed and a configured slice before an element. -/
def afterSlices (ie : OtherIe) : AcceptMessage :=
  withGuti [.allowedNssai oneSlice, .configuredNssai oneSlice, .other ie] (le_refl 1) (le_refl 1)

theorem DecodesRight.only {ie : OtherIe} (h : (only ie).DecodesRight) :
    ∃ out res, decodeOtherIes out ie.bytes = .done res ∧ res.numAllowedSlices = 0 ∧
      res.numConfiguredSlices = 0 := by
  obtain ⟨guti, hdecode⟩ := (AcceptMessage.only ie).decode_bytes
  obtain ⟨res, hres, hnum, -, hnum', -⟩ := h
  have hies : (AcceptMessage.only ie).ies.flatMap NasIe.bytes = ie.bytes :=
    List.flatMap_singleton ..
  rw [hdecode, hies, Outcome.bind_eq_done_iff] at hres
  obtain ⟨res', hother, hres⟩ := hres
  rw [Outcome.pure_eq, Outcome.done.injEq, Prod.mk.injEq] at hres
  exact ⟨_, res, hres.1 ▸ hother, hnum, hnum'⟩

theorem DecodesRight.afterSlices {ie : OtherIe} (h : (afterSlices ie).DecodesRight) :
    ∃ out res, decodeOtherIes out ie.bytes = .done res ∧ res.numAllowedSlices = 1 ∧
      res.numConfiguredSlices = 1 := by
  obtain ⟨guti, hdecode⟩ := (AcceptMessage.afterSlices ie).decode_bytes
  obtain ⟨res, hres, hnum, -, hnum', -⟩ := h
  have hies : (AcceptMessage.afterSlices ie).ies.flatMap NasIe.bytes =
      [NasIe.allowedNssai oneSlice, .configuredNssai oneSlice].flatMap NasIe.bytes ++
        ie.bytes := by
    change [NasIe.allowedNssai oneSlice, .configuredNssai oneSlice, .other ie].flatMap _ = _
    rw [List.flatMap_cons, List.flatMap_cons, List.flatMap_singleton, List.flatMap_cons,
      List.flatMap_singleton, List.append_assoc]
    rfl
  -- the two slice lists in front of the element are stored
  have hstored := @decodeOtherIes_ies { fgsRegistrationResult 1 with guti }
    [.allowedNssai oneSlice, .configuredNssai oneSlice]
      ⟨le_refl 1, le_refl 1, fun _ => rfl, fun _ => rfl⟩ (by simp) ie.bytes
  rw [hdecode, hies, Outcome.bind_eq_done_iff] at hres
  obtain ⟨res', hother, hres⟩ := hres
  rw [Outcome.pure_eq, Outcome.done.injEq, Prod.mk.injEq] at hres
  exact ⟨_, res, hstored ▸ hres.1 ▸ hother, hnum, hnum'⟩

/-- An element that reads as anything but plain elements disturbs the slices of some message. -/
theorem plain_of_decodesRight {ie : OtherIe} (h : (AcceptMessage.only ie).DecodesRight)
    (h' : (AcceptMessage.afterSlices ie).DecodesRight) : PlainTlvs ie.bytes := by
  obtain ⟨out₁, res₁, hother₁, hnum₁, hnum₁'⟩ := h.only
  obtain ⟨out₂, res₂, hother₂, hnum₂, hnum₂'⟩ := h'.afterSlices
  rcases (PlainTlvs.of_decodeOtherIes rfl hother₁ hother₂).cases with hplain | hnum | hnum
  · exact hplain
  · omega
  · omega

end AcceptMessage

/-- Registration accepts with some other elements decode to exactly their slices if and only if each
of these elements, octet by octet, is a sequence of elements with a one-octet length and no slice
lists. -/
theorem acceptsDecodeRight_iff (occurs : OtherIe → Prop) :
    (∀ m : AcceptMessage, m.Uses occurs → m.DecodesRight) ↔
      ∀ ie, occurs ie → PlainTlvs ie.bytes := by
  constructor
  · intro h ie hoccurs
    apply AcceptMessage.plain_of_decodesRight
    · apply h
      intro o ho
      have : o = ie := by simpa [AcceptMessage.only, AcceptMessage.withGuti] using ho
      exact this ▸ hoccurs
    · apply h
      intro o ho
      have : o = ie := by simpa [AcceptMessage.afterSlices, AcceptMessage.withGuti] using ho
      exact this ▸ hoccurs
  · intro h m huses
    exact AcceptMessage.decodesRight_of_plain fun ie hie => h ie (huses ie hie)

theorem mico_ge : (0x80 : UInt8) ≤ 0xb0 := by decide

/-- A MICO indication before an allowed NSSAI of one slice. -/
def micoMessage : AcceptMessage :=
  AcceptMessage.withGuti [.other (.octet 0xb0 mico_ge), .allowedNssai AcceptMessage.oneSlice]
    (le_refl 1) (Nat.zero_le 1)

/-- The identifier of the allowed NSSAI is taken for the length of the MICO indication, and the
decoder skips over the end of the message. -/
theorem not_decodesRight_mico : ¬ micoMessage.DecodesRight := by
  rintro ⟨res, hres, -⟩
  obtain ⟨guti, hdecode⟩ := micoMessage.decode_bytes
  have hies : micoMessage.ies.flatMap NasIe.bytes = [0xb0, 0x15, 2, 1, 1] := rfl
  rw [hdecode, hies, Outcome.bind_eq_done_iff] at hres
  obtain ⟨out, hother, -⟩ := hres
  obtain ⟨out', dec, hie, hle, -⟩ := decodeOtherIes_cons_eq_done hother
  have hallowed : ¬ (0xb0 : UInt8) = 0x15 := by decide
  have hconfigured : ¬ (0xb0 : UInt8) = 0x31 := by decide
  rw [decodeIe, if_neg hallowed, if_neg hconfigured] at hie
  have hdec : 0x15 + 1 = dec := congrArg Prod.snd (Outcome.done.inj hie)
  have hfour : [0x15, 2, 1, (1 : UInt8)].length = 4 := rfl
  omega

end LlmHric.Nas
