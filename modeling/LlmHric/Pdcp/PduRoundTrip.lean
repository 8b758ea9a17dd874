import LlmHric.Library.Window
import LlmHric.Pdcp.StoredSize

/-! The entity at the other end of a bearer has the same keys and the same sequence number size, and
counts as the receiver what this one counts as the transmitter. It reads the sequence number of a
PDU whatever COUNT it has in mind. When the COUNT is the one that the PDU was made with, it gets the
SDU back. -/

namespace LlmHric.Pdcp

/-- Deciphering undoes ciphering, for the same COUNT, bearer and direction. -/
def InvolutiveCipher (f : SecurityFunctions) : Prop :=
  ∀ ctx buffer bearer count direction,
    f.cipher ctx (f.cipher ctx buffer bearer count direction) bearer count direction = buffer

namespace PdcpEntity

/-- The transmitting and the receiving end of a bearer. -/
structure Peers (tx rx : PdcpEntity) : Prop where
  entityType : rx.cfg.entityType = tx.cfg.entityType
  snSize : rx.cfg.snSize = tx.cfg.snSize
  rbId : rx.cfg.rbId = tx.cfg.rbId
  hasSdap : rx.cfg.hasSdapRx = tx.cfg.hasSdapTx
  isGnb : rx.cfg.isGnb = !tx.cfg.isGnb
  ciphering : rx.ciphering = tx.ciphering
  integrity : rx.integrity = tx.integrity

variable {tx rx : PdcpEntity} {f : SecurityFunctions} {buffer rest : List UInt8} {sn : ℕ}

namespace Peers

theorem integritySize (h : Peers tx rx) : rx.integritySize = tx.integritySize := by
  rw [PdcpEntity.integritySize, PdcpEntity.integritySize, h.integrity, h.entityType]

theorem clearSize (h : Peers tx rx) :
    rx.clearSize rx.cfg.hasSdapRx = tx.clearSize tx.cfg.hasSdapTx := by
  rw [PdcpEntity.clearSize, PdcpEntity.clearSize, h.snSize, h.hasSdap]

/-- Both ends give the same number to a direction. -/
theorem direction (h : Peers tx rx) :
    (if rx.cfg.isGnb then 0 else 1) = if tx.cfg.isGnb then 1 else 0 := by
  rw [h.isGnb]
  cases tx.cfg.isGnb <;> rfl

/-- The COUNT does not matter. -/
theorem setTxNext (h : Peers tx rx) (count : UInt32) : Peers { tx with txNext := count } rx :=
  ⟨h.entityType, h.snSize, h.rbId, h.hasSdap, h.isGnb, h.ciphering, h.integrity⟩

theorem snModulus (h : Peers tx rx) : rx.cfg.snModulus = tx.cfg.snModulus := by
  rw [PdcpConfig.snModulus, PdcpConfig.snModulus, h.snSize]

end Peers

/-! ### The header -/

theorem length_pduHeader (e : PdcpEntity) (sn : ℕ) :
    (e.pduHeader sn).length = e.cfg.snSize.headerSize := by
  rw [pduHeader]
  cases e.cfg.snSize <;> rfl

/-- The data bit does not disturb the sequence number. -/
theorem toNat_or_and {dcBit : UInt8} (hbit : dcBit = 0 ∨ dcBit = 0x80) {a : ℕ} (ha : a < 16) :
    (dcBit ||| .ofNat a).toNat &&& 0xf = a ∧ (a < 4 → (dcBit ||| .ofNat a).toNat &&& 0x3 = a) := by
  rcases hbit with rfl | rfl
  · revert a
    decide
  · revert a
    decide

theorem dcBit_cases (e : PdcpEntity) :
    (if e.cfg.entityType = .srb then (0 : UInt8) else 0x80) = 0 ∨
      (if e.cfg.entityType = .srb then (0 : UInt8) else 0x80) = 0x80 := by
  split_ifs
  · exact .inl rfl
  · exact .inr rfl

/-- A number of some bytes. -/
theorem shiftLeft_or_of_lt {a b n : ℕ} (hb : b < 2 ^ n) : a <<< n ||| b = a * 2 ^ n + b := by
  rw [← Nat.shiftLeft_add_eq_or_of_lt hb, Nat.shiftLeft_eq]

theorem toNat_ofNat_and (a : ℕ) : (UInt8.ofNat (a &&& 0xff)).toNat = a % 256 := by
  rw [Nat.and_two_pow_sub_one_eq_mod a 8, UInt8.toNat_ofNat', Nat.mod_mod]

/-- The sequence number in a header. -/
theorem rcvdSn_pduHeader (hsize : rx.cfg.snSize = tx.cfg.snSize) (hsn : sn < tx.cfg.snModulus) :
    rx.rcvdSn (tx.pduHeader sn ++ rest) = sn := by
  have hbit := tx.dcBit_cases
  rw [PdcpConfig.snModulus] at hsn
  rw [rcvdSn, hsize, pduHeader]
  generalize (if tx.cfg.entityType = .srb then (0 : UInt8) else 0x80) = dcBit at hbit
  cases hcase : tx.cfg.snSize with
  | shortSn =>
    rw [hcase] at hsn
    change sn < 4096 at hsn
    have hhigh : sn >>> 8 &&& 0xf = sn / 256 := by
      rw [Nat.and_two_pow_sub_one_eq_mod _ 4, Nat.shiftRight_eq_div_pow]
      omega
    have hfirst := (toNat_or_and hbit (a := sn / 256) (by omega)).1
    dsimp only
    rw [hhigh]
    change (((dcBit ||| UInt8.ofNat (sn / 256)).toNat &&& 0xf) <<< 8) |||
      (UInt8.ofNat (sn &&& 0xff)).toNat = sn
    rw [hfirst, toNat_ofNat_and, shiftLeft_or_of_lt (by omega)]
    omega
  | longSn =>
    rw [hcase] at hsn
    change sn < 262144 at hsn
    have hhigh : sn >>> 16 &&& 0x3 = sn / 65536 := by
      rw [Nat.and_two_pow_sub_one_eq_mod _ 2, Nat.shiftRight_eq_div_pow]
      omega
    have hfirst := (toNat_or_and hbit (a := sn / 65536) (by omega)).2 (by omega)
    dsimp only
    rw [hhigh]
    change (((dcBit ||| UInt8.ofNat (sn / 65536)).toNat &&& 0x3) <<< 16) |||
      (UInt8.ofNat (sn >>> 8 &&& 0xff)).toNat <<< 8 ||| (UInt8.ofNat (sn &&& 0xff)).toNat = sn
    rw [hfirst, toNat_ofNat_and, toNat_ofNat_and, Nat.shiftRight_eq_div_pow, Nat.or_assoc,
      shiftLeft_or_of_lt (b := sn % 256) (by omega), shiftLeft_or_of_lt (by omega)]
    omega

theorem setDataBit_pduHeader (htype : rx.cfg.entityType = tx.cfg.entityType) :
    rx.setDataBit (tx.pduHeader sn ++ rest) = tx.pduHeader sn ++ rest := by
  have hset : ∀ a < 16, ((0x80 : UInt8) ||| .ofNat a) &&& 0x80 ≠ 0 := by decide
  rw [pduHeader]
  cases tx.cfg.snSize
  · dsimp only [List.cons_append]
    rw [setDataBit, if_neg]
    rintro ⟨hsrb, hbit⟩
    rw [htype] at hsrb
    rw [if_neg hsrb] at hbit
    exact hset _ (Nat.lt_succ_of_le Nat.and_le_right) hbit
  · dsimp only [List.cons_append]
    rw [setDataBit, if_neg]
    rintro ⟨hsrb, hbit⟩
    rw [htype] at hsrb
    rw [if_neg hsrb] at hbit
    exact hset _ ((Nat.lt_succ_of_le Nat.and_le_right).trans (by decide)) hbit

/-- A function that keeps lengths, on the end of a list. -/
theorem take_append_map_drop {g : List UInt8 → List UInt8} (hg : ∀ l, (g l).length = l.length)
    (l : List UInt8) (n : ℕ) :
    (l.take n ++ g (l.drop n)).take n = l.take n ∧
      (l.take n ++ g (l.drop n)).drop n = g (l.drop n) := by
  rcases Nat.le_total n l.length with hle | hle
  · have hlen : (l.take n).length = n := by
      rw [List.length_take, Nat.min_eq_left hle]
    exact ⟨List.take_left' hlen, List.drop_left' hlen⟩
  · have hnil : g (l.drop n) = [] := by
      rw [List.drop_eq_nil_of_le hle]
      exact List.length_eq_zero_iff.mp (hg [])
    rw [hnil, List.append_nil, List.take_take, Nat.min_self, List.take_of_length_le hle,
      List.drop_eq_nil_of_le hle]
    exact ⟨rfl, rfl⟩

/-- Deciphering with the COUNT of the PDU. -/
theorem decipher_encipher (h : Peers tx rx) (hf : InvolutiveCipher f) :
    rx.decipher f (tx.encipher f buffer) tx.txNext = buffer := by
  rw [decipher, encipher, h.ciphering, h.clearSize, h.rbId, h.direction]
  cases tx.ciphering with
  | none => rfl
  | some ctx =>
    dsimp only
    obtain ⟨htake, hdrop⟩ := take_append_map_drop
      (g := fun l => f.cipher ctx l tx.cfg.rbId tx.txNext (if tx.cfg.isGnb then 1 else 0))
      (fun l => f.length_cipher ..) buffer (tx.clearSize tx.cfg.hasSdapTx)
    rw [htake, hdrop, hf, List.take_append_drop]

theorem length_encipher (buffer : List UInt8) : (tx.encipher f buffer).length = buffer.length := by
  rw [encipher]
  split
  · rfl
  · rw [List.length_append, f.length_cipher, List.length_take, List.length_drop]
    omega

/-- The header is not ciphered. -/
theorem encipher_append {header : List UInt8} (hlen : header.length = tx.cfg.snSize.headerSize)
    (rest : List UInt8) : ∃ rest', tx.encipher f (header ++ rest) = header ++ rest' := by
  rw [encipher]
  split
  · exact ⟨rest, rfl⟩
  · rw [clearSize, ← hlen, List.take_length_add_append, List.append_assoc]
    exact ⟨_, rfl⟩

theorem length_pduMac (buffer : List UInt8) :
    (tx.pduMac f buffer).length = tx.integritySize := by
  rw [pduMac, integritySize]
  cases tx.integrity with
  | none => simp
  | some ctx => simp [pdcpIntegritySize]

/-! ### PDUs -/

/-- The sequence number of the next PDU. -/
def txNextSn (tx : PdcpEntity) : ℕ := (tx.txNext &&& .ofNat tx.cfg.snMax).toNat

theorem txNextSn_eq (tx : PdcpEntity) : tx.txNextSn = tx.txNext.toNat % tx.cfg.snModulus := by
  rw [txNextSn, PdcpConfig.snMax, PdcpConfig.snModulus]
  cases tx.cfg.snSize
  · exact Nat.and_two_pow_sub_one_eq_mod _ 12
  · exact Nat.and_two_pow_sub_one_eq_mod _ 18

/-- A PDU begins with the header. -/
theorem pduOf_eq (tx : PdcpEntity) (f : SecurityFunctions) (buffer : List UInt8) :
    ∃ rest, tx.pduOf f buffer = tx.pduHeader tx.txNextSn ++ rest := by
  rw [pduOf, List.append_assoc]
  exact encipher_append (length_pduHeader _ _) _

theorem length_pduOf (tx : PdcpEntity) (f : SecurityFunctions) (buffer : List UInt8) :
    (tx.pduOf f buffer).length =
      tx.cfg.snSize.headerSize + buffer.length + tx.integritySize := by
  rw [pduOf, length_encipher, List.length_append, length_pduMac, List.length_append,
    length_pduHeader]

theorem rcvdSn_pduOf (h : Peers tx rx) : rx.rcvdSn (tx.pduOf f buffer) = tx.txNextSn := by
  obtain ⟨rest, hpdu⟩ := tx.pduOf_eq f buffer
  rw [hpdu]
  refine rcvdSn_pduHeader h.snSize ?_
  rw [txNextSn_eq]
  exact Nat.mod_lt _ tx.cfg.snModulus_pos

theorem setDataBit_pduOf (h : Peers tx rx) :
    rx.setDataBit (tx.pduOf f buffer) = tx.pduOf f buffer := by
  obtain ⟨rest, hpdu⟩ := tx.pduOf_eq f buffer
  rw [hpdu]
  exact setDataBit_pduHeader h.entityType

/-- Deciphering with the COUNT of the PDU gives the header, the SDU and the MAC-I. -/
theorem decipher_pduOf (h : Peers tx rx) (hf : InvolutiveCipher f) (buffer : List UInt8) :
    ∃ header mac, header.length = rx.cfg.snSize.headerSize ∧
      rx.decipher f (tx.pduOf f buffer) tx.txNext = header ++ (buffer ++ mac) := by
  refine ⟨tx.pduHeader tx.txNextSn, tx.pduMac f (tx.pduHeader tx.txNextSn ++ buffer), ?_, ?_⟩
  · rw [length_pduHeader, h.snSize]
  · rw [pduOf, decipher_encipher h hf, List.append_assoc]
    rfl

theorem receivedSdu_pduOf {sdu : PdcpSdu} (h : Peers tx rx)
    (hsdu : rx.receivedSdu f (tx.pduOf f buffer) = some sdu) :
    sdu.count = rx.rcvdCount tx.txNextSn ∧ rx.rxDeliv ≤ sdu.count ∧
      (∀ x ∈ rx.rxList, x.count ≠ sdu.count) ∧
      rx.integrityPasses f (rx.decipher f (tx.pduOf f buffer) sdu.count) sdu.count = true ∧
      sdu.buffer = ((rx.decipher f (tx.pduOf f buffer) sdu.count).drop
        rx.cfg.snSize.headerSize).take buffer.length := by
  rw [receivedSdu] at hsdu
  split_ifs at hsdu
  rw [setDataBit_pduOf h, rcvdSn_pduOf h, checkedSdu] at hsdu
  split_ifs at hsdu with hmac hold
  cases hsdu
  rw [not_or] at hold
  refine ⟨rfl, UInt32.not_lt.mp hold.1, fun x hx heq => hold.2 ?_, ?_, ?_⟩
  · exact List.any_eq_true.mpr ⟨x, hx, beq_iff_eq.mpr heq⟩
  · exact Bool.not_eq_false _ ▸ hmac
  · have hlen : (tx.pduOf f buffer).length - rx.cfg.snSize.headerSize - rx.integritySize =
        buffer.length := by
      rw [length_pduOf, h.integritySize, h.snSize]
      omega
    rw [hlen]

theorem buffer_of_receivedSdu {sdu : PdcpSdu} (h : Peers tx rx) (hf : InvolutiveCipher f)
    (hsdu : rx.receivedSdu f (tx.pduOf f buffer) = some sdu) (hcount : sdu.count = tx.txNext) :
    sdu.buffer = buffer := by
  obtain ⟨-, -, -, -, hbuffer⟩ := receivedSdu_pduOf h hsdu
  obtain ⟨header, mac, hlen, hplain⟩ := decipher_pduOf h hf buffer
  rw [hbuffer, hcount, hplain, ← hlen, List.drop_left, List.take_left]

/-- A COUNT is within `window_size` of `rx_deliv`. -/
def InWindow (rx : PdcpEntity) (count : ℕ) : Prop :=
  rx.rxDeliv.toNat ≤ count + rx.cfg.windowSize ∧ count < rx.rxDeliv.toNat + rx.cfg.windowSize

/-- No HFN wraps around for a COUNT in the window. -/
theorem hfnInRange_of_inWindow {count : UInt32} (h : rx.InWindow count.toNat) :
    rx.HfnInRange (count.toNat % rx.cfg.snModulus) := by
  obtain ⟨hle, hlt⟩ := h
  have hmod := rx.cfg.snModulus_eq
  have hcount := Nat.div_add_mod count.toNat rx.cfg.snModulus
  have hdeliv := Nat.div_add_mod rx.rxDeliv.toNat rx.cfg.snModulus
  rw [← toNat_rxDelivHfn, ← rxDelivSn_eq] at hdeliv
  constructor
  · intro hzero
    rw [hzero, Nat.mul_zero, Nat.zero_add] at hdeliv
    have := Nat.mod_le count.toNat rx.cfg.snModulus
    omega
  · intro hlast
    -- the COUNT is not in an HFN behind the last one
    have htotal : rx.cfg.snModulus * (rx.rxDelivHfn.toNat + 1) = 4294967296 := by
      rw [hlast, rx.cfg.snModulus_mul_hfnModulus]
    have hcountLt := count.toNat_lt
    have hhfn : count.toNat / rx.cfg.snModulus < rx.rxDelivHfn.toNat + 1 := by
      refine Nat.div_lt_of_lt_mul ?_
      rw [htotal]
      exact hcountLt
    have hmul := Nat.mul_le_mul_left rx.cfg.snModulus (Nat.le_of_lt_succ hhfn)
    omega

/-- A COUNT in the window is inferred from its sequence number. -/
theorem rcvdCount_eq {count : UInt32} (h : rx.InWindow count.toNat) :
    rx.rcvdCount (count.toNat % rx.cfg.snModulus) = count := by
  have hsn := Nat.mod_lt count.toNat rx.cfg.snModulus_pos
  have hinferred := Inferred.of_hfnInRange hsn (hfnInRange_of_inWindow h)
  obtain ⟨hle, hlt⟩ := h
  have hmod := rx.cfg.snModulus_eq
  have hwindow := hinferred.window_le
  have hwindow' := hinferred.lt_window
  apply UInt32.toNat_inj.mp
  exact Window.eq_of_mod_eq hinferred.congruent (by omega) (by omega)

end PdcpEntity

end LlmHric.Pdcp
