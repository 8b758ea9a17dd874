import LlmHric.Library.MemoryReaders
import LlmHric.SliceSm.SliceDecoder

/-! The decoders get the size of a message and compare it only after all copies are made. On the way
they go by the sizes and the types in the message. Here they go through memory, in which the message
is followed by other bytes, and every read is recorded. -/

namespace LlmHric.SliceSm

open ByteOrder Checked

namespace Mem

/-! ### The decoders -/

/-- Copy a number of 32 bits. -/
def get32 : MemReader UInt32 := do
  let n ← MemReader.number 4
  return UInt32.ofNat n

/-- Copy a number of 16 bits. -/
def get16 : MemReader UInt16 := do
  let n ← MemReader.number 2
  return UInt16.ofNat n

/-- Copy a signed number of 64 bits. -/
def getInt64 : MemReader Int64 := do
  let n ← MemReader.number 8
  return (UInt64.ofNat n).toInt64

/-- An assertion that fails. -/
def abort {α : Type} : MemReader α := MemReader.lift (.fault .assertion)

/-- Copy a string into a block of zeros that `calloc` gives; an empty one stays null. -/
def fillString (len : UInt32) : MemReader (Counted UInt8) :=
  if len > 0 then do
    let src ← MemReader.take len.toNat
    -- the size of the block is the `uint32_t` sum `len + 1`
    let dst ← MemReader.lift (writeAt (List.replicate (len + 1).toNat 0) 0 src)
    return ⟨dst.take len.toNat, Dec.length_take_lt len dst⟩
  else return ⟨[], Dec.nil_length_lt⟩

/-- `fill_static`. -/
def fillStatic : MemReader StaticSlice := do
  let posHigh ← get32
  let posLow ← get32
  return ⟨posLow, posHigh⟩

/-- `fill_rate`. -/
def fillRate : MemReader NvsRate := do
  let mbpsReference ← get32
  let mbpsRequired ← get32
  return ⟨mbpsRequired, mbpsReference⟩

/-- `fill_capacity`. -/
def fillCapacity : MemReader NvsCapacity := do
  let pctReserved ← get32
  return ⟨pctReserved⟩

/-- `fill_nvs`. -/
def fillNvs : MemReader NvsSlice := do
  let conf ← get32
  if conf = NvsSliceConf.rate.number then do
    let rate ← fillRate
    return .rate rate
  else if conf = NvsSliceConf.capacity.number then do
    let capacity ← fillCapacity
    return .capacity capacity
  else abort

/-- `fill_on_demand`. -/
def fillOnDemand : MemReader Scn19OnDemand := do
  let logDelta ← get32
  let pctReserved ← get32
  let tau ← get32
  return ⟨pctReserved, logDelta, tau⟩

/-- `fill_scn19`. -/
def fillScn19 : MemReader Scn19Slice := do
  let conf ← get32
  if conf = Scn19SliceConf.dynamic.number then do
    let dynamic ← fillRate
    return .dynamic dynamic
  else if conf = Scn19SliceConf.fixed.number then do
    let fixed ← fillStatic
    return .fixed fixed
  else if conf = Scn19SliceConf.onDemand.number then do
    let onDemand ← fillOnDemand
    return .onDemand onDemand
  else abort

/-- `fill_edf`. -/
def fillEdf : MemReader EdfSlice := do
  let deadline ← get32
  let guaranteedPrbs ← get32
  let maxReplenish ← get32
  let lenOver ← get32
  let overs ← MemReader.counted get32 lenOver
  return ⟨deadline, guaranteedPrbs, maxReplenish, overs⟩

/-- `fill_params`. -/
def fillParams : MemReader SliceParams := do
  let type ← get32
  if type = SliceAlgorithm.static.number then do
    let sta ← fillStatic
    return .sta sta
  else if type = SliceAlgorithm.nvs.number then do
    let nvs ← fillNvs
    return .nvs nvs
  else if type = SliceAlgorithm.scn19.number then do
    let scn19 ← fillScn19
    return .scn19 scn19
  else if type = SliceAlgorithm.edf.number then do
    let edf ← fillEdf
    return .edf edf
  else abort

/-- `fill_slice`. -/
def fillSlice : MemReader FrSlice := do
  let id ← get32
  let lenLabel ← get32
  let label ← fillString lenLabel
  let lenSched ← get32
  let sched ← fillString lenSched
  let params ← fillParams
  return ⟨id, label, sched, params⟩

/-- `fill_ul_dl_slice_conf`. -/
def fillUlDlSliceConf : MemReader UlDlSliceConf := do
  let lenSchedName ← get32
  let schedName ← fillString lenSchedName
  let lenSlices ← get32
  let slices ← MemReader.counted fillSlice lenSlices
  return ⟨slices, schedName⟩

/-- `fill_slice_conf`. -/
def fillSliceConf : MemReader SliceConf := do
  let dl ← fillUlDlSliceConf
  let ul ← fillUlDlSliceConf
  return ⟨dl, ul⟩

/-- `fill_ue_slice_assoc`. -/
def fillUeSliceAssoc : MemReader UeSliceAssoc := do
  let dlId ← get32
  let ulId ← get32
  let rnti ← get16
  return ⟨dlId, ulId, rnti⟩

/-- `fill_ue_slice_conf`. -/
def fillUeSliceConf : MemReader UeSliceConf := do
  let lenUeSlice ← get32
  let ues ← MemReader.counted fillUeSliceAssoc lenUeSlice
  return ⟨ues⟩

/-- `fill_del_slice`. -/
def fillDelSlice : MemReader DelSliceConf := do
  let lenDl ← get32
  let dl ← MemReader.counted get32 lenDl
  let lenUl ← get32
  let ul ← MemReader.counted get32 lenUl
  return ⟨dl, ul⟩

/-- The copies that `slice_dec_ind_msg_plain` makes. -/
def fillIndMsg : MemReader SliceIndMsg := do
  let sliceConf ← fillSliceConf
  let ueSliceConf ← fillUeSliceConf
  let tstamp ← getInt64
  return ⟨sliceConf, ueSliceConf, tstamp⟩

/-- The copies that `slice_dec_ctrl_msg_plain` makes. -/
def fillCtrlMsg : MemReader SliceCtrlMsg := do
  let type ← get32
  if type = SliceCtrlMsgType.add.number then do
    let conf ← fillSliceConf
    return .addModSlice conf
  else if type = SliceCtrlMsgType.del.number then do
    let conf ← fillDelSlice
    return .delSlice conf
  else if type = SliceCtrlMsgType.ueSliceAssoc.number then do
    let conf ← fillUeSliceConf
    return .ueSlice conf
  else abort

/-- Copy a message, and compare its size with what was copied. -/
def decodeAll {α : Type} (fill : MemReader α) (mem : ℕ → UInt8) (len : ℕ) : Traced α := do
  let (msg, it) ← fill mem 0
  Outcome.assertFatal (it = len)
  return msg

/-- `slice_dec_ind_msg_plain` on the first `len` bytes of memory. -/
def sliceDecIndMsgPlain (mem : ℕ → UInt8) (len : ℕ) : Traced SliceIndMsg :=
  decodeAll fillIndMsg mem len

/-- `slice_dec_ctrl_msg_plain` on the first `len` bytes of memory. -/
def sliceDecCtrlMsgPlain (mem : ℕ → UInt8) (len : ℕ) : Traced SliceCtrlMsg :=
  decodeAll fillCtrlMsg mem len

end Mem

/-- A configuration of an NVS slice that there is not. -/
def StopsNvs (w : List UInt8) : Prop :=
  ∃ conf, (∀ c : NvsSliceConf, conf ≠ c.number) ∧ w = bytes32 conf

/-- A configuration of an SCN19 slice that there is not. -/
def StopsScn19 (w : List UInt8) : Prop :=
  ∃ conf, (∀ c : Scn19SliceConf, conf ≠ c.number) ∧ w = bytes32 conf

/-- An algorithm that there is not, or one with such a configuration. -/
def StopsParams (w : List UInt8) : Prop :=
  (∃ type, (∀ a : SliceAlgorithm, a ≠ .none → type ≠ a.number) ∧ w = bytes32 type) ∨
    (∃ v, StopsNvs v ∧ w = bytes32 SliceAlgorithm.nvs.number ++ v) ∨
    ∃ v, StopsScn19 v ∧ w = bytes32 SliceAlgorithm.scn19.number ++ v

/-- A string with its size. -/
def stringBytes (str : Counted UInt8) : List UInt8 := bytes32 str.len ++ str.items

/-- A string of the largest size, whose block has no room for it. -/
def StopsString (w : List UInt8) : Prop := ∃ str, ¬ HasTerminator str ∧ w = stringBytes str

/-- The beginning of a slice. -/
def StopsSlice (w : List UInt8) : Prop :=
  ∃ id v, w = bytes32 id ++ v ∧
    (StopsString v ∨ ∃ label v', HasTerminator label ∧ v = stringBytes label ++ v' ∧
      (StopsString v' ∨ ∃ sched v'', HasTerminator sched ∧ v' = stringBytes sched ++ v'' ∧
        StopsParams v''))

def FrSlice.Decodable (s : FrSlice) : Prop := s.Supported ∧ s.HasTerminators

/-- The beginning of the slices in one direction: fewer complete ones than there should be. -/
def StopsUlDl (w : List UInt8) : Prop :=
  StopsString w ∨ ∃ (name : Counted UInt8) (len : UInt32) (slices : List FrSlice) (v : List UInt8),
    HasTerminator name ∧ slices.length < len.toNat ∧ (∀ s ∈ slices, s.Decodable) ∧ StopsSlice v ∧
      w = stringBytes name ++ (bytes32 len ++ (slices.flatMap FrSlice.bytes ++ v))

/-- Slices in one direction that can be decoded. -/
def UlDlSliceConf.Decodable (c : UlDlSliceConf) : Prop :=
  HasTerminator c.schedName ∧ ∀ s ∈ c.slices.items, s.Decodable

/-- Slices in both directions that can be decoded. -/
def SliceConf.Decodable (c : SliceConf) : Prop := c.dl.Decodable ∧ c.ul.Decodable

/-- The beginning of the slices in both directions. -/
def StopsConf (w : List UInt8) : Prop :=
  StopsUlDl w ∨ ∃ (dl : UlDlSliceConf) (v : List UInt8), dl.Decodable ∧ StopsUlDl v ∧
    w = dl.bytes ++ v

/-- The beginning of a control message. -/
def StopsCtrl (w : List UInt8) : Prop :=
  (∃ type, (∀ t : SliceCtrlMsgType, type ≠ t.number) ∧ w = bytes32 type) ∨
    ∃ v, StopsConf v ∧ w = bytes32 SliceCtrlMsgType.add.number ++ v

/-- An indication that can be decoded, or the beginning of one up to what makes decoding abort. -/
def IndWord (w : List UInt8) : Prop :=
  (∃ msg : SliceIndMsg, msg.Supported ∧ msg.HasTerminators ∧ w = msg.bytes) ∨ StopsConf w

/-- A control message that can be decoded, or the beginning of one. -/
def CtrlWord (w : List UInt8) : Prop :=
  (∃ msg : SliceCtrlMsg, msg.Supported ∧ msg.HasTerminators ∧ w = msg.bytes) ∨ StopsCtrl w

namespace Mem

open MemReader Grammar

/-! ### The words of the decoders -/

theorem reads_number (count : ℕ) :
    Reads (number count) ⟨fun n w => n = valueLE w ∧ w.length = count, fun _ => False⟩ := by
  apply (reads_take count).map.congr
  · intro n w
    constructor
    · rintro ⟨bytes, rfl, rfl, hlen⟩
      exact ⟨rfl, hlen⟩
    · rintro ⟨rfl, hlen⟩
      exact ⟨w, rfl, rfl, hlen⟩
  · exact fun w => Iff.rfl

/-- A number that is made of all its bytes is read from every word of their length. -/
theorem Reads.ofNumber {α : Type} {count : ℕ} {f : ℕ → α} {enc : α → List UInt8}
    (henc : ∀ w : List UInt8, w.length = count → enc (f (valueLE w)) = w)
    (hlen : ∀ x, (enc x).length = count) (hf : ∀ x, f (valueLE (enc x)) = x) :
    Reads (number count >>= fun n => pure (f n)) (plain enc) := by
  apply (reads_number count).map.congr
  · intro x w
    constructor
    · rintro ⟨n, rfl, rfl, hw⟩
      exact ⟨trivial, (henc w hw).symm⟩
    · rintro ⟨-, rfl⟩
      exact ⟨_, (hf x).symm, rfl, hlen x⟩
  · exact fun w => Iff.rfl

theorem reads_get32 : Reads get32 (plain bytes32) := by
  apply Reads.ofNumber
  · intro w hw
    have hlt : valueLE w < 2 ^ 32 := by
      have := valueLE_lt w
      rwa [hw] at this
    rw [bytes32, UInt32.toNat_ofNat_of_lt' hlt, ← hw, bytesLE_valueLE]
  · exact length_bytes32
  · intro x
    have hlt : x.toNat < 256 ^ 4 := x.toNat_lt
    rw [bytes32, valueLE_bytesLE, Nat.mod_eq_of_lt hlt, UInt32.ofNat_toNat]

theorem reads_get16 : Reads get16 (plain bytes16) := by
  apply Reads.ofNumber
  · intro w hw
    have hlt : valueLE w < 2 ^ 16 := by
      have := valueLE_lt w
      rwa [hw] at this
    rw [bytes16, UInt16.toNat_ofNat_of_lt' hlt, ← hw, bytesLE_valueLE]
  · exact length_bytes16
  · intro x
    have hlt : x.toNat < 256 ^ 2 := x.toNat_lt
    rw [bytes16, valueLE_bytesLE, Nat.mod_eq_of_lt hlt, UInt16.ofNat_toNat]

theorem reads_getInt64 : Reads getInt64 (plain bytesInt64) := by
  apply Reads.ofNumber
  · intro w hw
    have hlt : valueLE w < 2 ^ 64 := by
      have := valueLE_lt w
      rwa [hw] at this
    rw [bytesInt64, UInt64.toUInt64_toInt64, UInt64.toNat_ofNat_of_lt' hlt, ← hw, bytesLE_valueLE]
  · exact length_bytesInt64
  · intro x
    have hlt : x.toUInt64.toNat < 256 ^ 8 := x.toUInt64.toNat_lt
    rw [bytesInt64, valueLE_bytesLE, Nat.mod_eq_of_lt hlt, UInt64.ofNat_toNat,
      Int64.toInt64_toUInt64]

theorem reads_fillStatic : Reads fillStatic (plain StaticSlice.bytes) := by
  apply (reads_get32.bind fun _ => reads_get32.map).congr
  · rintro ⟨posLow, posHigh⟩ w
    simp [Grammar.bind, Grammar.map, plain, exact, StaticSlice.bytes]
  · intro w
    simp [Grammar.bind, Grammar.map, plain, exact]

theorem writeAt_ne_refused {buf bytes : List UInt8} {pos : ℕ} :
    writeAt buf pos bytes ≠ .refused := by
  rw [writeAt]
  split_ifs <;> simp

/-- The words that are read for a string of a size. -/
def stringGrammar (len : UInt32) : Grammar (Counted UInt8) where
  complete str w := str.len = len ∧ HasTerminator str ∧ w = str.items
  stopped w := ∃ str : Counted UInt8, str.len = len ∧ ¬ HasTerminator str ∧ w = str.items

theorem Counted.take_append_zero (str : Counted UInt8)
    (h : ((str.items ++ [0]).take str.len.toNat).length < 2 ^ 32) :
    (⟨(str.items ++ [0]).take str.len.toNat, h⟩ : Counted UInt8) = str :=
  Counted.ext_items (List.take_left' str.toNat_len.symm)

theorem exists_counted {src : List UInt8} {len : UInt32} (h : src.length = len.toNat) :
    ∃ str : Counted UInt8, str.items = src ∧ str.len = len := by
  refine ⟨⟨src, h ▸ len.toNat_lt⟩, rfl, ?_⟩
  rw [Counted.len, h, UInt32.ofNat_toNat]

theorem items_ne_nil {str : Counted UInt8} (h : str.len > 0) : str.items ≠ [] := by
  intro hnil
  rw [gt_iff_lt, UInt32.lt_iff_toNat_lt, str.toNat_len, hnil] at h
  exact absurd h (Nat.lt_irrefl 0)

theorem writeAt_fault {buf bytes : List UInt8} {pos : ℕ}
    (h : ∀ dst, writeAt buf pos bytes ≠ .done dst) : ∃ f, writeAt buf pos bytes = .fault f := by
  cases hwrite : writeAt buf pos bytes with
  | done dst => exact absurd hwrite (h dst)
  | refused => exact absurd hwrite writeAt_ne_refused
  | fault f => exact ⟨f, rfl⟩

theorem reads_fillString (len : UInt32) : Reads (fillString len) (stringGrammar len) := by
  rw [fillString]
  split_ifs with hlen
  · apply ((reads_take _).bind fun src => (reads_lift writeAt_ne_refused).bind fun dst =>
      reads_pure _).congr
    · intro str w
      constructor
      · rintro ⟨src, u, v, ⟨rfl, hsrc⟩, ⟨dst, u', v', ⟨hdst, rfl⟩, ⟨rfl, rfl⟩, rfl⟩, rfl⟩
        obtain ⟨str, rfl, rfl⟩ := exists_counted hsrc
        obtain ⟨hterm, rfl⟩ := (Dec.writeAt_block_eq_done_iff (items_ne_nil hlen)).mp hdst
        rw [Counted.take_append_zero]
        exact ⟨rfl, hterm, List.append_nil _⟩
      · rintro ⟨rfl, hterm, rfl⟩
        have hdst := (Dec.writeAt_block_eq_done_iff (items_ne_nil hlen)).mpr ⟨hterm, rfl⟩
        exact ⟨str.items, _, _, ⟨rfl, str.toNat_len.symm⟩,
          ⟨_, [], [], ⟨hdst, rfl⟩, ⟨(Counted.take_append_zero str _).symm, rfl⟩, rfl⟩,
          (List.append_nil _).symm⟩
    · intro w
      constructor
      · rintro (hf | ⟨src, u, v, ⟨rfl, hsrc⟩, ⟨⟨f, hf⟩, rfl⟩ | ⟨_, _, _, _, hf, _⟩, rfl⟩)
        · exact hf.elim
        · obtain ⟨str, rfl, rfl⟩ := exists_counted hsrc
          refine ⟨str, rfl, fun hterm => ?_, List.append_nil _⟩
          have hdst := (Dec.writeAt_block_eq_done_iff (items_ne_nil hlen)).mpr ⟨hterm, rfl⟩
          rw [hf] at hdst
          cases hdst
        · exact hf.elim
      · rintro ⟨str, rfl, hterm, rfl⟩
        have hf := writeAt_fault fun dst hdst =>
          hterm ((Dec.writeAt_block_eq_done_iff (items_ne_nil hlen)).mp hdst).1
        exact .inr ⟨str.items, _, [], ⟨rfl, str.toNat_len.symm⟩, .inl ⟨hf, rfl⟩,
          (List.append_nil _).symm⟩
  · -- an empty string is not copied
    have hzero : len.toNat = 0 := by
      rw [gt_iff_lt, UInt32.lt_iff_toNat_lt] at hlen
      have : (0 : UInt32).toNat = 0 := rfl
      omega
    have hnil : ∀ str : Counted UInt8, str.len = len → str.items = [] := by
      rintro str rfl
      exact List.length_eq_zero_iff.mp (str.toNat_len.symm.trans hzero)
    apply (reads_pure _).congr
    · intro str w
      constructor
      · rintro ⟨rfl, rfl⟩
        refine ⟨?_, ?_, rfl⟩
        · rw [← UInt32.toNat_inj, Counted.toNat_len, hzero]
          rfl
        · exact Nat.zero_lt_of_lt (Nat.lt_pred_iff.mpr (by omega : 1 < 2 ^ 32))
      · rintro ⟨hstr, -, rfl⟩
        exact ⟨Counted.ext_items (hnil str hstr), hnil str hstr⟩
    · intro w
      constructor
      · exact False.elim
      · rintro ⟨str, hstr, hterm, -⟩
        apply hterm
        rw [HasTerminator, hnil str hstr, List.length_nil]
        omega

/-- A string after its size, and what is read behind it. -/
theorem Reads.string {α : Type} {k : Counted UInt8 → MemReader α} {h : Counted UInt8 → Grammar α}
    (hk : ∀ str, Reads (k str) (h str)) :
    Reads (get32 >>= fun len => fillString len >>= k)
      ((exact stringBytes HasTerminator StopsString).bind h) := by
  apply (reads_get32.bind fun len => (reads_fillString len).bind hk).congr
  · intro a w
    constructor
    · rintro ⟨_, _, _, ⟨-, rfl⟩, ⟨str, _, v, ⟨rfl, hterm, rfl⟩, hv, rfl⟩, rfl⟩
      exact ⟨str, _, v, ⟨hterm, rfl⟩, hv, (List.append_assoc ..).symm⟩
    · rintro ⟨str, _, v, ⟨hterm, rfl⟩, hv, rfl⟩
      exact ⟨_, _, _, ⟨trivial, rfl⟩, ⟨str, _, v, ⟨rfl, hterm, rfl⟩, hv, rfl⟩,
        List.append_assoc ..⟩
  · intro w
    constructor
    · intro hstop
      rcases hstop with hf | ⟨_, _, _, ⟨-, rfl⟩, ⟨str, rfl, hterm, rfl⟩ |
        ⟨str, _, v, ⟨rfl, hterm, rfl⟩, hv, rfl⟩, rfl⟩
      · exact hf.elim
      · exact .inl ⟨str, hterm, rfl⟩
      · exact .inr ⟨str, _, v, ⟨hterm, rfl⟩, hv, (List.append_assoc ..).symm⟩
    · rintro (⟨str, hterm, rfl⟩ | ⟨str, _, v, ⟨hterm, rfl⟩, hv, rfl⟩)
      · exact .inr ⟨_, _, _, ⟨trivial, rfl⟩, .inl ⟨str, rfl, hterm, rfl⟩, rfl⟩
      · exact .inr ⟨_, _, _, ⟨trivial, rfl⟩, .inr ⟨str, _, v, ⟨rfl, hterm, rfl⟩, hv, rfl⟩,
          List.append_assoc ..⟩

/-! ### Slices -/

theorem reads_fillRate : Reads fillRate (plain NvsRate.bytes) := by
  apply (reads_get32.bind fun _ => reads_get32.map).congr
  · rintro ⟨mbpsRequired, mbpsReference⟩ w
    simp [Grammar.bind, Grammar.map, plain, exact, NvsRate.bytes]
  · intro w
    simp [Grammar.bind, Grammar.map, plain, exact]

theorem reads_fillCapacity : Reads fillCapacity (plain NvsCapacity.bytes) := by
  apply (reads_get32.map).congr
  · rintro ⟨pctReserved⟩ w
    simp [Grammar.map, plain, exact, NvsCapacity.bytes]
  · intro w
    simp [Grammar.map, plain, exact]

theorem reads_fillOnDemand : Reads fillOnDemand (plain Scn19OnDemand.bytes) := by
  apply (reads_get32.bind fun _ => reads_get32.bind fun _ => reads_get32.map).congr
  · rintro ⟨pctReserved, logDelta, tau⟩ w
    simp [Grammar.bind, Grammar.map, plain, exact, Scn19OnDemand.bytes]
  · intro w
    simp [Grammar.bind, Grammar.map, plain, exact]

theorem forall_nvsSliceConf {p : NvsSliceConf → Prop} :
    (∀ c, p c) ↔ p .rate ∧ p .capacity :=
  ⟨fun h => ⟨h _, h _⟩, fun h c => by cases c; exacts [h.1, h.2]⟩

theorem forall_scn19SliceConf {p : Scn19SliceConf → Prop} :
    (∀ c, p c) ↔ p .dynamic ∧ p .fixed ∧ p .onDemand :=
  ⟨fun h => ⟨h _, h _, h _⟩, fun h c => by cases c; exacts [h.1, h.2.1, h.2.2]⟩

theorem forall_sliceAlgorithm {p : SliceAlgorithm → Prop} :
    (∀ a, a ≠ .none → p a) ↔ p .static ∧ p .nvs ∧ p .scn19 ∧ p .edf := by
  constructor
  · intro h
    exact ⟨h _ nofun, h _ nofun, h _ nofun, h _ nofun⟩
  · intro h a ha
    cases a
    · exact absurd rfl ha
    exacts [h.1, h.2.1, h.2.2.1, h.2.2.2]

theorem forall_sliceCtrlMsgType {p : SliceCtrlMsgType → Prop} :
    (∀ t, p t) ↔ p .add ∧ p .del ∧ p .ueSliceAssoc :=
  ⟨fun h => ⟨h _, h _, h _⟩, fun h t => by cases t; exacts [h.1, h.2.1, h.2.2]⟩

theorem reads_fillNvs :
    Reads fillNvs (exact NvsSlice.bytes (fun _ => True) StopsNvs) := by
  apply (reads_get32.bind fun conf => reads_fillRate.map.ite
    (reads_fillCapacity.map.ite reads_abort)).congr
  · rintro (rate | capacity) w
    all_goals simp [Grammar.bind, Grammar.map, Grammar.ite, Grammar.abort, plain, exact,
      NvsSlice.bytes, NvsSlice.conf, NvsSliceConf.number]
  · intro w
    simp [Grammar.bind, Grammar.map, Grammar.ite, Grammar.abort, plain, exact, StopsNvs,
      forall_nvsSliceConf, and_assoc]

theorem reads_fillScn19 :
    Reads fillScn19 (exact Scn19Slice.bytes (fun _ => True) StopsScn19) := by
  apply (reads_get32.bind fun conf => reads_fillRate.map.ite
    (reads_fillStatic.map.ite
      (reads_fillOnDemand.map.ite reads_abort))).congr
  · rintro (dynamic | fixed | onDemand) w
    all_goals simp [Grammar.bind, Grammar.map, Grammar.ite, Grammar.abort, plain, exact,
      Scn19Slice.bytes, Scn19Slice.conf, Scn19SliceConf.number]
  · intro w
    simp [Grammar.bind, Grammar.map, Grammar.ite, Grammar.abort, plain, exact, StopsScn19,
      forall_scn19SliceConf, and_assoc]

/-- An array whose elements are always read is always read. -/
theorem reads_counted {α : Type} {r : MemReader α} {enc : α → List UInt8} (hr : Reads r (plain enc))
    (len : UInt32) :
    Reads (MemReader.counted r len)
      ⟨fun xs w => xs.len = len ∧ w = xs.items.flatMap enc, fun _ => False⟩ := by
  apply (hr.counted len).congr
  · intro xs w
    simp [Grammar.counted]
  · intro w
    simp [Grammar.counted]

theorem reads_fillEdf : Reads fillEdf (plain EdfSlice.bytes) := by
  apply (reads_get32.bind fun _ => reads_get32.bind fun _ => reads_get32.bind fun _ =>
    reads_get32.bind fun len => (reads_counted reads_get32 len).map).congr
  · rintro ⟨deadline, guaranteedPrbs, maxReplenish, overs⟩ w
    simp [Grammar.bind, Grammar.map, plain, exact, EdfSlice.bytes]
  · intro w
    simp [Grammar.bind, Grammar.map, plain, exact]

theorem nvs_ne_static : SliceAlgorithm.nvs.number ≠ SliceAlgorithm.static.number := by decide

theorem scn19_ne : SliceAlgorithm.scn19.number ≠ SliceAlgorithm.static.number ∧
    SliceAlgorithm.scn19.number ≠ SliceAlgorithm.nvs.number := by decide

theorem reads_fillParams :
    Reads fillParams (exact SliceParams.bytes (fun par => par ≠ .none) StopsParams) := by
  apply (reads_get32.bind fun type => reads_fillStatic.map.ite
    (reads_fillNvs.map.ite
      (reads_fillScn19.map.ite
        (reads_fillEdf.map.ite reads_abort)))).congr
  · rintro (_ | sta | nvs | scn19 | edf) w
    all_goals simp [Grammar.bind, Grammar.map, Grammar.ite, Grammar.abort, plain, exact,
      SliceParams.bytes, SliceParams.type, SliceAlgorithm.number]
  · intro w
    simp only [Grammar.bind, Grammar.map, Grammar.ite, Grammar.abort, plain, exact, StopsParams,
      forall_sliceAlgorithm, and_assoc, false_or, and_false, or_false, true_and, exists_and_left,
      exists_eq_left]
    constructor
    · rintro ⟨type, hstatic, v, ⟨rfl, hnvs⟩ | ⟨hnvs, ⟨rfl, hscn⟩ | ⟨hscn, hedf, rfl⟩⟩, rfl⟩
      · exact .inr (.inl ⟨v, hnvs, rfl⟩)
      · exact .inr (.inr ⟨v, hscn, rfl⟩)
      · exact .inl ⟨type, hstatic, hnvs, hscn, hedf, List.append_nil _⟩
    · rintro (⟨type, hstatic, hnvs, hscn, hedf, rfl⟩ | ⟨v, hv, rfl⟩ | ⟨v, hv, rfl⟩)
      · exact ⟨type, hstatic, [], .inr ⟨hnvs, .inr ⟨hscn, hedf, rfl⟩⟩, (List.append_nil _).symm⟩
      · exact ⟨_, nvs_ne_static, v, .inl ⟨rfl, hv⟩, rfl⟩
      · exact ⟨_, scn19_ne.1, v, .inr ⟨scn19_ne.2, .inl ⟨rfl, hv⟩⟩, rfl⟩

theorem reads_fillSlice : Reads fillSlice (exact FrSlice.bytes FrSlice.Decodable StopsSlice) := by
  apply (reads_get32.bind fun _ => Reads.string fun _ => Reads.string fun _ =>
    reads_fillParams.map).congr
  · rintro ⟨id, label, sched, params⟩ w
    simp [Grammar.bind, Grammar.map, plain, exact, FrSlice.bytes, stringBytes, FrSlice.Decodable,
      FrSlice.Supported, FrSlice.HasTerminators, and_comm, and_assoc, and_left_comm]
  · intro w
    simp [Grammar.bind, Grammar.map, plain, exact, StopsSlice, and_comm, and_assoc,
      and_left_comm]

/-- A number, and as many elements. -/
theorem Reads.countedBy {α β : Type} {r : MemReader α} {k : Counted α → MemReader β}
    {enc : α → List UInt8} {ok : α → Prop} {stops : List UInt8 → Prop}
    {h : Counted α → Grammar β} (hr : Reads r (exact enc ok stops))
    (hk : ∀ xs, Reads (k xs) (h xs)) :
    Reads (get32 >>= fun len => MemReader.counted r len >>= k)
      ((exact (fun xs : Counted α => bytes32 xs.len ++ xs.items.flatMap enc)
        (fun xs => ∀ x ∈ xs.items, ok x)
        (fun w => ∃ (len : UInt32) (xs : List α) (v : List UInt8), xs.length < len.toNat ∧
          (∀ x ∈ xs, ok x) ∧ stops v ∧ w = bytes32 len ++ (xs.flatMap enc ++ v))).bind h) := by
  apply (reads_get32.bind fun len => (hr.counted len).bind hk).congr
  · intro a w
    constructor
    · rintro ⟨_, _, _, ⟨-, rfl⟩, ⟨xs, _, v, ⟨rfl, hok, rfl⟩, hv, rfl⟩, rfl⟩
      exact ⟨xs, _, v, ⟨hok, rfl⟩, hv, (List.append_assoc ..).symm⟩
    · rintro ⟨xs, _, v, ⟨hok, rfl⟩, hv, rfl⟩
      exact ⟨_, _, _, ⟨trivial, rfl⟩, ⟨xs, _, v, ⟨rfl, hok, rfl⟩, hv, rfl⟩, List.append_assoc ..⟩
  · intro w
    constructor
    · rintro (hf | ⟨len, _, _, ⟨-, rfl⟩, ⟨xs, v, hlt, hok, hv, rfl⟩ |
        ⟨xs, _, v, ⟨rfl, hok, rfl⟩, hv, rfl⟩, rfl⟩)
      · exact hf.elim
      · exact .inl ⟨len, xs, v, hlt, hok, hv, rfl⟩
      · exact .inr ⟨xs, _, v, ⟨hok, rfl⟩, hv, (List.append_assoc ..).symm⟩
    · rintro (⟨len, xs, v, hlt, hok, hv, rfl⟩ | ⟨xs, _, v, ⟨hok, rfl⟩, hv, rfl⟩)
      · exact .inr ⟨_, _, _, ⟨trivial, rfl⟩, .inl ⟨xs, v, hlt, hok, hv, rfl⟩, rfl⟩
      · exact .inr ⟨_, _, _, ⟨trivial, rfl⟩, .inr ⟨xs, _, v, ⟨rfl, hok, rfl⟩, hv, rfl⟩,
          List.append_assoc ..⟩

theorem reads_fillUlDlSliceConf :
    Reads fillUlDlSliceConf (exact UlDlSliceConf.bytes UlDlSliceConf.Decodable StopsUlDl) := by
  apply (Reads.string fun _ => Reads.countedBy reads_fillSlice fun _ => reads_pure _).congr
  · rintro ⟨slices, schedName⟩ w
    simp [Grammar.bind, Grammar.done, exact, UlDlSliceConf.bytes, stringBytes,
      UlDlSliceConf.Decodable, and_assoc]
  · intro w
    simp [Grammar.bind, Grammar.done, exact, StopsUlDl, and_assoc]

theorem reads_fillSliceConf :
    Reads fillSliceConf (exact SliceConf.bytes SliceConf.Decodable StopsConf) := by
  apply (reads_fillUlDlSliceConf.bind fun _ => reads_fillUlDlSliceConf.map).congr
  · rintro ⟨dl, ul⟩ w
    simp [Grammar.bind, Grammar.map, exact, SliceConf.bytes, SliceConf.Decodable, and_assoc]
  · intro w
    simp [Grammar.bind, Grammar.map, exact, StopsConf]

theorem reads_fillUeSliceAssoc : Reads fillUeSliceAssoc (plain UeSliceAssoc.bytes) := by
  apply (reads_get32.bind fun _ => reads_get32.bind fun _ => reads_get16.map).congr
  · rintro ⟨dlId, ulId, rnti⟩ w
    simp [Grammar.bind, Grammar.map, plain, exact, UeSliceAssoc.bytes]
  · intro w
    simp [Grammar.bind, Grammar.map, plain, exact]

theorem reads_fillUeSliceConf : Reads fillUeSliceConf (plain UeSliceConf.bytes) := by
  apply (reads_get32.bind fun len => (reads_counted reads_fillUeSliceAssoc len).map).congr
  · rintro ⟨ues⟩ w
    simp [Grammar.bind, Grammar.map, plain, exact, UeSliceConf.bytes]
  · intro w
    simp [Grammar.bind, Grammar.map, plain, exact]

theorem reads_fillDelSlice : Reads fillDelSlice (plain DelSliceConf.bytes) := by
  apply (reads_get32.bind fun len => (reads_counted reads_get32 len).bind fun _ =>
    reads_get32.bind fun len => (reads_counted reads_get32 len).map).congr
  · rintro ⟨dl, ul⟩ w
    simp [Grammar.bind, Grammar.map, plain, exact, DelSliceConf.bytes]
  · intro w
    simp [Grammar.bind, Grammar.map, plain, exact]

/-! ### Messages -/

theorem SliceConf.decodable_iff (c : SliceConf) :
    c.Decodable ↔ c.Supported ∧ c.HasTerminators := by
  constructor
  · rintro ⟨⟨hdl, hdls⟩, hul, huls⟩
    exact ⟨⟨fun s hs => (huls s hs).1, fun s hs => (hdls s hs).1⟩,
      ⟨hdl, fun s hs => (hdls s hs).2⟩, hul, fun s hs => (huls s hs).2⟩
  · rintro ⟨⟨hul, hdl⟩, ⟨hdlName, hdls⟩, hulName, huls⟩
    exact ⟨⟨hdlName, fun s hs => ⟨hdl s hs, hdls s hs⟩⟩, hulName,
      fun s hs => ⟨hul s hs, huls s hs⟩⟩

/-- Only the configuration of the slices can make decoding an indication abort. -/
theorem reads_fillIndMsg :
    Reads fillIndMsg (exact SliceIndMsg.bytes
      (fun msg => msg.Supported ∧ msg.HasTerminators) StopsConf) := by
  apply (reads_fillSliceConf.bind fun _ => reads_fillUeSliceConf.bind fun _ =>
    reads_getInt64.map).congr
  · rintro ⟨sliceConf, ueSliceConf, tstamp⟩ w
    simp [Grammar.bind, Grammar.map, plain, exact, SliceIndMsg.bytes, SliceIndMsg.Supported,
      SliceIndMsg.HasTerminators, SliceConf.decodable_iff]
  · intro w
    simp [Grammar.bind, Grammar.map, plain, exact]

theorem reads_fillCtrlMsg :
    Reads fillCtrlMsg (exact SliceCtrlMsg.bytes
      (fun msg => msg.Supported ∧ msg.HasTerminators) StopsCtrl) := by
  apply (reads_get32.bind fun type => reads_fillSliceConf.map.ite
    (reads_fillDelSlice.map.ite (reads_fillUeSliceConf.map.ite reads_abort))).congr
  · rintro (conf | conf | conf) w
    all_goals simp [Grammar.bind, Grammar.map, Grammar.ite, Grammar.abort, plain, exact,
      SliceCtrlMsg.bytes, SliceCtrlMsg.type, SliceCtrlMsgType.number, SliceCtrlMsg.Supported,
      SliceCtrlMsg.HasTerminators, SliceConf.decodable_iff]
  · intro w
    simp only [Grammar.bind, Grammar.map, Grammar.ite, Grammar.abort, plain, exact, StopsCtrl,
      forall_sliceCtrlMsgType, and_assoc, false_or, and_false, true_and, exists_and_left,
      exists_eq_left]
    constructor
    · rintro ⟨type, v, ⟨rfl, hadd⟩ | ⟨hadd, hdel, hue, rfl⟩, rfl⟩
      · exact .inr ⟨v, hadd, rfl⟩
      · exact .inl ⟨type, hadd, hdel, hue, List.append_nil _⟩
    · rintro (⟨type, hadd, hdel, hue, rfl⟩ | ⟨v, hv, rfl⟩)
      · exact ⟨type, [], .inr ⟨hadd, hdel, hue, rfl⟩, (List.append_nil _).symm⟩
      · exact ⟨_, v, .inl ⟨rfl, hv⟩, rfl⟩

variable {α : Type} {fill : MemReader α} {mem : ℕ → UInt8} {len : ℕ}

/-- The comparison at the end reads nothing. -/
theorem within_decodeAll {lo hi : ℕ} :
    (decodeAll fill mem len).Within lo hi ↔ (fill mem 0).Within lo hi := by
  constructor
  · intro h i hi
    exact h i (Traced.mem_reads_bind.mpr (.inl hi))
  · intro h
    exact Traced.Within.bind h fun a _ => Traced.Within.bind (Traced.Within.lift _ _ _) fun _ _ =>
      Traced.Within.pure _ _ _

theorem decodeAll_within_iff {enc : α → List UInt8} {ok : α → Prop} {stops : List UInt8 → Prop}
    (hfill : Reads fill (exact enc ok stops)) (bytes : List UInt8) :
    (∀ mem, bytesAt mem 0 bytes.length = bytes →
        (decodeAll fill mem bytes.length).Within 0 bytes.length) ↔
      ∃ w, ((∃ msg, ok msg ∧ w = enc msg) ∨ stops w) ∧ w <+: bytes := by
  have hwithin := hfill.within_iff bytes
  constructor
  · intro h
    rcases hwithin.mp fun mem hmem => within_decodeAll.mp (h mem hmem) with
      ⟨msg, w, hw, hpre⟩ | ⟨w, hw, hpre⟩
    · exact ⟨w, .inl ⟨msg, hw⟩, hpre⟩
    · exact ⟨w, .inr hw, hpre⟩
  · rintro ⟨w, ⟨msg, hw⟩ | hw, hpre⟩ mem hmem
    · exact within_decodeAll.mpr (hwithin.mpr (.inl ⟨msg, w, hw, hpre⟩) mem hmem)
    · exact within_decodeAll.mpr (hwithin.mpr (.inr ⟨w, hw, hpre⟩) mem hmem)

end Mem

/-- The decoder of a kind of messages reads nothing behind the message, whatever there is. -/
def ReadsWithin {α : Type} (decode : (ℕ → UInt8) → ℕ → Traced α) (bytes : List UInt8) : Prop :=
  ∀ mem, bytesAt mem 0 bytes.length = bytes →
    (decode mem bytes.length).Within 0 bytes.length

/-- A message is decoded without a read behind it if and only if it begins with a complete message
of its kind, or with the beginning of one up to a number that is not known or a string of the
largest size. -/
theorem decodersReadWithin_iff (bytes : List UInt8) :
    (ReadsWithin Mem.sliceDecIndMsgPlain bytes ↔ ∃ w, IndWord w ∧ w <+: bytes) ∧
      (ReadsWithin Mem.sliceDecCtrlMsgPlain bytes ↔ ∃ w, CtrlWord w ∧ w <+: bytes) := by
  constructor
  · have h := Mem.decodeAll_within_iff Mem.reads_fillIndMsg bytes
    simp only [and_assoc] at h
    exact h
  · have h := Mem.decodeAll_within_iff Mem.reads_fillCtrlMsg bytes
    simp only [and_assoc] at h
    exact h

/-- A name of one byte is announced at the end of the message, and the byte behind it is read. -/
theorem not_readsWithin_shortName : ¬ ReadsWithin Mem.sliceDecIndMsgPlain [1, 0, 0, 0] := by
  intro h
  have hmem : bytesAt (fun i => if i = 0 then 1 else 0) 0 4 = [1, 0, 0, 0] := rfl
  have hread : 4 ∈ (Mem.sliceDecIndMsgPlain (fun i => if i = 0 then 1 else 0) 4).reads := by
    decide
  exact absurd (h _ hmem 4 hread).2 (Nat.lt_irrefl 4)

end LlmHric.SliceSm
