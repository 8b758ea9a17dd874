import LlmHric.SliceSm.SliceEncoder

/-! The decoder goes through the bytes, allocates what the sizes ask for, and asserts in the end
that all bytes are used. A string gets one byte more than its size, for a zero at its end, and this
size is again a number of 32 bits. -/

namespace LlmHric.SliceSm

open ByteOrder Checked

namespace Dec

/-! ### The parts of messages -/

/-- Copy a number of 32 bits. -/
def get32 : Reader UInt32 := do
  let n ← Reader.number 4
  return UInt32.ofNat n

/-- Copy a number of 16 bits. -/
def get16 : Reader UInt16 := do
  let n ← Reader.number 2
  return UInt16.ofNat n

/-- Copy a signed number of 64 bits. -/
def getInt64 : Reader Int64 := do
  let n ← Reader.number 8
  return (UInt64.ofNat n).toInt64

/-- An assertion that fails. -/
def abort {α : Type} : Reader α := Reader.lift (.fault .assertion)

theorem nil_length_lt : ([] : List UInt8).length < 2 ^ 32 := by decide

theorem length_take_lt (len : UInt32) (dst : List UInt8) : (dst.take len.toNat).length < 2 ^ 32 :=
  (List.length_take_le _ _).trans_lt len.toNat_lt

/-- Copy a string into a block of zeros that `calloc` gives; an empty one stays null. -/
def fillString (len : UInt32) : Reader (Counted UInt8) :=
  if len > 0 then do
    let src ← Reader.take len.toNat
    -- the size of the block is the `uint32_t` sum `len + 1`
    let dst ← Reader.lift (writeAt (List.replicate (len + 1).toNat 0) 0 src)
    return ⟨dst.take len.toNat, length_take_lt len dst⟩
  else return ⟨[], nil_length_lt⟩

def fillStatic : Reader StaticSlice := do
  let posHigh ← get32
  let posLow ← get32
  return ⟨posLow, posHigh⟩

/-- Copy the rates of a slice. -/
def fillRate : Reader NvsRate := do
  let mbpsReference ← get32
  let mbpsRequired ← get32
  return ⟨mbpsRequired, mbpsReference⟩

/-- Copy the share of a slice. -/
def fillCapacity : Reader NvsCapacity := do
  let pctReserved ← get32
  return ⟨pctReserved⟩

def fillNvs : Reader NvsSlice := do
  let conf ← get32
  if conf = NvsSliceConf.rate.number then do
    let rate ← fillRate
    return .rate rate
  else if conf = NvsSliceConf.capacity.number then do
    let capacity ← fillCapacity
    return .capacity capacity
  else abort

/-- Copy the demand of a slice. -/
def fillOnDemand : Reader Scn19OnDemand := do
  let logDelta ← get32
  let pctReserved ← get32
  let tau ← get32
  return ⟨pctReserved, logDelta, tau⟩

def fillScn19 : Reader Scn19Slice := do
  let conf ← get32
  if conf = Scn19SliceConf.dynamic.number then do
    let dynamic ← fillRate
    return .dynamic dynamic
  else if conf = Scn19SliceConf.fixed.number then do
    let fixed ← fillStatic
    return .fixed fixed
  else if conf = Scn19SliceConf.onDemand.number then do
    let onDemand ← fillOnDemand
    return .onDemand onDemand
  else abort

def fillEdf : Reader EdfSlice := do
  let deadline ← get32
  let guaranteedPrbs ← get32
  let maxReplenish ← get32
  let lenOver ← get32
  let overs ← Reader.counted get32 lenOver
  return ⟨deadline, guaranteedPrbs, maxReplenish, overs⟩

def fillParams : Reader SliceParams := do
  let type ← get32
  if type = SliceAlgorithm.static.number then do
    let sta ← fillStatic
    return .sta sta
  else if type = SliceAlgorithm.nvs.number then do
    let nvs ← fillNvs
    return .nvs nvs
  else if type = SliceAlgorithm.scn19.number then do
    let scn19 ← fillScn19
    return .scn19 scn19
  else if type = SliceAlgorithm.edf.number then do
    let edf ← fillEdf
    return .edf edf
  else abort

/-- Copy a slice. -/
def fillSlice : Reader FrSlice := do
  let id ← get32
  let lenLabel ← get32
  let label ← fillString lenLabel
  let lenSched ← get32
  let sched ← fillString lenSched
  let params ← fillParams
  return ⟨id, label, sched, params⟩

/-- Copy the slices in one direction. -/
def fillUlDlSliceConf : Reader UlDlSliceConf := do
  let lenSchedName ← get32
  let schedName ← fillString lenSchedName
  let lenSlices ← get32
  let slices ← Reader.counted fillSlice lenSlices
  return ⟨slices, schedName⟩

/-- Copy the slices in both directions. -/
def fillSliceConf : Reader SliceConf := do
  let dl ← fillUlDlSliceConf
  let ul ← fillUlDlSliceConf
  return ⟨dl, ul⟩

/-- Copy the association of a user. -/
def fillUeSliceAssoc : Reader UeSliceAssoc := do
  let dlId ← get32
  let ulId ← get32
  let rnti ← get16
  return ⟨dlId, ulId, rnti⟩

/-- Copy the associations of all users. -/
def fillUeSliceConf : Reader UeSliceConf := do
  let lenUeSlice ← get32
  let ues ← Reader.counted fillUeSliceAssoc lenUeSlice
  return ⟨ues⟩

/-- Copy the slices to delete. -/
def fillDelSlice : Reader DelSliceConf := do
  let lenDl ← get32
  let dl ← Reader.counted get32 lenDl
  let lenUl ← get32
  let ul ← Reader.counted get32 lenUl
  return ⟨dl, ul⟩

/-- Copy an indication: the copies that `slice_dec_ind_msg_plain` makes. -/
def fillIndMsg : Reader SliceIndMsg := do
  let sliceConf ← fillSliceConf
  let ueSliceConf ← fillUeSliceConf
  let tstamp ← getInt64
  return ⟨sliceConf, ueSliceConf, tstamp⟩

/-- Copy a control message: the copies that `slice_dec_ctrl_msg_plain` makes. -/
def fillCtrlMsg : Reader SliceCtrlMsg := do
  let type ← get32
  if type = SliceCtrlMsgType.add.number then do
    let conf ← fillSliceConf
    return .addModSlice conf
  else if type = SliceCtrlMsgType.del.number then do
    let conf ← fillDelSlice
    return .delSlice conf
  else if type = SliceCtrlMsgType.ueSliceAssoc.number then do
    let conf ← fillUeSliceConf
    return .ueSlice conf
  else abort

/-- Copy a message and assert that all bytes are used. -/
def decodeAll {α : Type} (fill : Reader α) (bytes : List UInt8) : Outcome α := do
  let (msg, it) ← fill bytes 0
  Outcome.assertFatal (it = bytes.length)
  return msg

/-- `slice_dec_ind_msg_plain`. -/
def sliceDecIndMsgPlain (indMsg : List UInt8) : Outcome SliceIndMsg := decodeAll fillIndMsg indMsg

/-- `slice_dec_ctrl_msg_plain`. -/
def sliceDecCtrlMsgPlain (ctrlMsg : List UInt8) : Outcome SliceCtrlMsg :=
  decodeAll fillCtrlMsg ctrlMsg

end Dec

/-! ### Strings that can be decoded -/

/-- The size of the string and of a zero after it is a number of 32 bits. -/
def HasTerminator (str : Counted UInt8) : Prop := str.items.length < 2 ^ 32 - 1

/-- The strings of a slice. -/
def FrSlice.HasTerminators (s : FrSlice) : Prop := HasTerminator s.label ∧ HasTerminator s.sched

/-- The strings in one direction. -/
def UlDlSliceConf.HasTerminators (c : UlDlSliceConf) : Prop :=
  HasTerminator c.schedName ∧ ∀ s ∈ c.slices.items, s.HasTerminators

/-- The strings in both directions. -/
def SliceConf.HasTerminators (c : SliceConf) : Prop := c.dl.HasTerminators ∧ c.ul.HasTerminators

/-- The strings of an indication. -/
def SliceIndMsg.HasTerminators (msg : SliceIndMsg) : Prop := msg.sliceConf.HasTerminators

/-- The strings of a control message. -/
def SliceCtrlMsg.HasTerminators : SliceCtrlMsg → Prop
  | addModSlice c => c.HasTerminators
  | delSlice _ => True
  | ueSlice _ => True

namespace Dec

open Reader

theorem decodesIff_get32 (x : UInt32) : DecodesIff get32 (bytes32 x) x True := by
  have hread : DecodesIff (number 4) (bytes32 x) x.toNat True := decodesIff_number x.toNat_lt
  have h := hread.map (f := UInt32.ofNat)
  rwa [UInt32.ofNat_toNat] at h

theorem decodesIff_counted32 (xs : Counted UInt32) :
    DecodesIff (Reader.counted get32 xs.len) (xs.items.flatMap bytes32) xs True :=
  (DecodesIff.counted fun x _ => decodesIff_get32 x).congr (by simp)

theorem decodesIff_get16 (x : UInt16) : DecodesIff get16 (bytes16 x) x True := by
  have hread : DecodesIff (number 2) (bytes16 x) x.toNat True := decodesIff_number x.toNat_lt
  have h := hread.map (f := UInt16.ofNat)
  rwa [UInt16.ofNat_toNat] at h

theorem decodesIff_getInt64 (x : Int64) : DecodesIff getInt64 (bytesInt64 x) x True := by
  have hread : DecodesIff (number 8) (bytesInt64 x) x.toUInt64.toNat True :=
    decodesIff_number x.toUInt64.toNat_lt
  have h := hread.map (f := fun n => (UInt64.ofNat n).toInt64)
  rwa [UInt64.ofNat_toNat, Int64.toInt64_toUInt64] at h

/-- The block for the string has room for it unless the size of the block is zero. -/
theorem writeAt_block_eq_done_iff {str : Counted UInt8} (hne : str.items ≠ []) {dst : List UInt8} :
    writeAt (List.replicate (str.len + 1).toNat 0) 0 str.items = .done dst ↔
      HasTerminator str ∧ dst = str.items ++ [0] := by
  have hpos : 0 < str.items.length := List.length_pos_of_ne_nil hne
  have hlt := str.length_lt
  have hsize : (str.len + 1).toNat = (str.items.length + 1) % 2 ^ 32 := by
    rw [UInt32.toNat_add, str.toNat_len]
    rfl
  rw [hsize, HasTerminator]
  by_cases hroom : str.items.length < 2 ^ 32 - 1
  · have hmod : (str.items.length + 1) % 2 ^ 32 = str.items.length + 1 :=
      Nat.mod_eq_of_lt (by omega)
    have hwrite : writeAt (List.replicate (str.items.length + 1) 0) 0 str.items =
        .done (str.items ++ [0]) := by
      rw [List.replicate_succ', ← List.nil_append (List.replicate _ _ ++ _)]
      exact writeAt_append [] _ [0] rfl (List.length_replicate ..)
    rw [hmod, hwrite, Outcome.done.injEq]
    exact ⟨fun h => ⟨hroom, h.symm⟩, fun h => h.2.symm⟩
  · have hlast : str.items.length + 1 = 2 ^ 32 := by omega
    rw [hlast, Nat.mod_self, List.replicate_zero, writeAt, if_neg (by simpa using hne)]
    constructor
    · intro h
      cases h
    · exact fun h => absurd h.1 hroom

/-- A string is decoded unless its size is the largest number of 32 bits. -/
theorem decodesIff_fillString (str : Counted UInt8) :
    DecodesIff (fillString str.len) str.items str (HasTerminator str) := by
  rw [fillString]
  split_ifs with hlen
  · have hne : str.items ≠ [] := by
      rintro h
      rw [gt_iff_lt, UInt32.lt_iff_toNat_lt, str.toNat_len, h] at hlen
      exact absurd hlen (by decide)
    have hvalue : (⟨(str.items ++ [0]).take str.len.toNat,
        (List.length_take_le _ _).trans_lt str.len.toNat_lt⟩ : Counted UInt8) = str :=
      Counted.ext_items (List.take_left' str.toNat_len.symm)
    have hblock := (decodesIff_lift fun _ => writeAt_block_eq_done_iff hne).map
      (f := fun dst => (⟨dst.take str.len.toNat,
        (List.length_take_le _ _).trans_lt str.len.toNat_lt⟩ : Counted UInt8))
    rw [hvalue] at hblock
    exact (decodesIff_take str.toNat_len).bind_nil hblock
  · have hnil : str.items = [] := by
      rw [gt_iff_lt, UInt32.lt_iff_toNat_lt, str.toNat_len] at hlen
      exact List.eq_nil_of_length_eq_zero (by simpa using hlen)
    have hvalue : (⟨[], by decide⟩ : Counted UInt8) = str := Counted.ext_items hnil.symm
    have hcond : HasTerminator str := by
      rw [HasTerminator, hnil]
      decide
    have h := (decodesIff_pure (⟨[], by decide⟩ : Counted UInt8)).congr (iff_of_true trivial hcond)
    rw [hvalue, ← hnil] at h
    rwa [hvalue]

theorem decodesIff_fillStatic (sta : StaticSlice) :
    DecodesIff fillStatic sta.bytes sta True :=
  (decodesIff_get32 _).bind_of_true (decodesIff_get32 _).map

theorem decodesIff_fillRate (nvs : NvsRate) : DecodesIff fillRate nvs.bytes nvs True :=
  (decodesIff_get32 _).bind_of_true (decodesIff_get32 _).map

theorem decodesIff_fillNvs (nvs : NvsSlice) : DecodesIff fillNvs nvs.bytes nvs True := by
  apply (decodesIff_get32 _).bind_of_true
  cases nvs with
  | rate rate =>
    rw [NvsSlice.conf, if_pos rfl]
    exact (decodesIff_fillRate rate).map
  | capacity capacity =>
    rw [NvsSlice.conf, if_neg (by decide), if_pos rfl]
    exact (decodesIff_get32 _).map.map

theorem decodesIff_fillScn19 (scn : Scn19Slice) : DecodesIff fillScn19 scn.bytes scn True := by
  apply (decodesIff_get32 _).bind_of_true
  cases scn with
  | dynamic dynamic =>
    rw [Scn19Slice.conf, if_pos rfl]
    exact (decodesIff_fillRate dynamic).map
  | fixed fixed =>
    rw [Scn19Slice.conf, if_neg (by decide), if_pos rfl]
    exact (decodesIff_fillStatic fixed).map
  | onDemand onDemand =>
    rw [Scn19Slice.conf, if_neg (by decide), if_neg (by decide), if_pos rfl]
    have hfields : DecodesIff fillOnDemand onDemand.bytes onDemand True :=
      (decodesIff_get32 _).bind_of_true
        ((decodesIff_get32 _).bind_of_true (decodesIff_get32 _).map)
    exact hfields.map

theorem decodesIff_fillEdf (edf : EdfSlice) : DecodesIff fillEdf edf.bytes edf True := by
  apply (decodesIff_get32 _).bind_of_true
  apply (decodesIff_get32 _).bind_of_true
  apply (decodesIff_get32 _).bind_of_true
  apply (decodesIff_get32 _).bind_of_true
  exact (decodesIff_counted32 _).map

theorem decodesIff_fillParams {par : SliceParams} (hpar : par ≠ .none) :
    DecodesIff fillParams par.bytes par True := by
  apply (decodesIff_get32 _).bind_of_true
  cases par with
  | none => exact absurd rfl hpar
  | sta sta =>
    rw [SliceParams.type, if_pos rfl]
    exact (decodesIff_fillStatic sta).map
  | nvs nvs =>
    rw [SliceParams.type, if_neg (by decide), if_pos rfl]
    exact (decodesIff_fillNvs nvs).map
  | scn19 scn19 =>
    rw [SliceParams.type, if_neg (by decide), if_neg (by decide), if_pos rfl]
    exact (decodesIff_fillScn19 scn19).map
  | edf edf =>
    rw [SliceParams.type, if_neg (by decide), if_neg (by decide), if_neg (by decide), if_pos rfl]
    exact (decodesIff_fillEdf edf).map

/-! ### Messages with strings -/

theorem decodesIff_fillSlice {slc : FrSlice} (hslc : slc.Supported) :
    DecodesIff fillSlice slc.bytes slc slc.HasTerminators := by
  apply (decodesIff_get32 _).bind_of_true
  apply (decodesIff_get32 _).bind_of_true
  apply (decodesIff_fillString _).bind
  apply (decodesIff_get32 _).bind_of_true
  refine DecodesIff.congr ?_ (and_iff_left trivial)
  exact (decodesIff_fillString _).bind (decodesIff_fillParams hslc).map

theorem decodesIff_fillUlDlSliceConf {conf : UlDlSliceConf}
    (hconf : ∀ s ∈ conf.slices.items, s.Supported) :
    DecodesIff fillUlDlSliceConf conf.bytes conf conf.HasTerminators := by
  apply (decodesIff_get32 _).bind_of_true
  apply (decodesIff_fillString _).bind
  apply (decodesIff_get32 _).bind_of_true
  exact (DecodesIff.counted fun s hs => decodesIff_fillSlice (hconf s hs)).map

theorem decodesIff_fillSliceConf {conf : SliceConf} (hconf : conf.Supported) :
    DecodesIff fillSliceConf conf.bytes conf conf.HasTerminators :=
  (decodesIff_fillUlDlSliceConf hconf.2).bind (decodesIff_fillUlDlSliceConf hconf.1).map

theorem decodesIff_fillUeSliceAssoc (assoc : UeSliceAssoc) :
    DecodesIff fillUeSliceAssoc assoc.bytes assoc True :=
  (decodesIff_get32 _).bind_of_true
    ((decodesIff_get32 _).bind_of_true (decodesIff_get16 _).map)

theorem decodesIff_fillUeSliceConf (slc : UeSliceConf) :
    DecodesIff fillUeSliceConf slc.bytes slc True := by
  apply (decodesIff_get32 _).bind_of_true
  have hues : DecodesIff (Reader.counted fillUeSliceAssoc slc.ues.len)
      (slc.ues.items.flatMap UeSliceAssoc.bytes) slc.ues (∀ a ∈ slc.ues.items, True) :=
    DecodesIff.counted fun assoc _ => decodesIff_fillUeSliceAssoc assoc
  exact (hues.congr (by simp)).map

theorem decodesIff_fillDelSlice (conf : DelSliceConf) :
    DecodesIff fillDelSlice conf.bytes conf True := by
  apply (decodesIff_get32 _).bind_of_true
  apply (decodesIff_counted32 _).bind_of_true
  exact (decodesIff_get32 _).bind_of_true (decodesIff_counted32 _).map

/-- An indication is decoded from its plain encoding if there is room for its strings. -/
theorem decodesIff_fillIndMsg {indMsg : SliceIndMsg} (h : indMsg.Supported) :
    DecodesIff fillIndMsg indMsg.bytes indMsg indMsg.HasTerminators := by
  refine DecodesIff.congr ?_ (and_iff_left trivial)
  apply (decodesIff_fillSliceConf h).bind
  exact (decodesIff_fillUeSliceConf _).bind_of_true (decodesIff_getInt64 _).map

/-- A control message is decoded from its plain encoding if there is room for its strings. -/
theorem decodesIff_fillCtrlMsg {msg : SliceCtrlMsg} (h : msg.Supported) :
    DecodesIff fillCtrlMsg msg.bytes msg msg.HasTerminators := by
  apply (decodesIff_get32 _).bind_of_true
  cases msg with
  | addModSlice conf =>
    rw [SliceCtrlMsg.type, if_pos rfl]
    exact (decodesIff_fillSliceConf h).map
  | delSlice conf =>
    rw [SliceCtrlMsg.type, if_neg (by decide), if_pos rfl]
    exact (decodesIff_fillDelSlice conf).map
  | ueSlice conf =>
    rw [SliceCtrlMsg.type, if_neg (by decide), if_neg (by decide), if_pos rfl]
    exact (decodesIff_fillUeSliceConf conf).map

theorem decodeAll_eq_done_iff {α : Type} {fill : Reader α} {bytes : List UInt8} {a b : α}
    {p : Prop} (h : DecodesIff fill bytes a p) :
    decodeAll fill bytes = .done b ↔ p ∧ b = a := by
  rw [decodeAll, Outcome.bind_eq_done_iff]
  constructor
  · rintro ⟨res, hres, hb⟩
    obtain ⟨hp, rfl⟩ := h.run_iff.mp hres
    obtain ⟨-, -, hb⟩ := Outcome.bind_eq_done_iff.mp hb
    exact ⟨hp, (Outcome.done.inj hb).symm⟩
  · rintro ⟨hp, rfl⟩
    refine ⟨_, h.run_iff.mpr ⟨hp, rfl⟩, ?_⟩
    dsimp only
    rw [Outcome.assertFatal, if_pos rfl]
    rfl

end Dec

/-! ### Messages that survive -/

/-- The size that the encoder computes is the number of bytes that it copies, whatever the memory
was, and the decoder returns the message after using all bytes. -/
def RoundTrips {α : Type} (size : Outcome UInt64) (fill : Writer)
    (encode : (ℕ → UInt8) → Outcome (List UInt8)) (decode : List UInt8 → Outcome α) (msg : α) :
        Prop :=
  ∃ sz bytes, size = .done sz ∧
    (∀ fresh, fill (Enc.malloc fresh sz) 0 = .done (bytes, sz.toNat) ∧ encode fresh = .done bytes) ∧
    decode bytes = .done msg

/-- An indication survives encoding and decoding. -/
def SliceIndMsg.RoundTrips (msg : SliceIndMsg) : Prop :=
  SliceSm.RoundTrips (Enc.calIndMsgPayload msg) (Enc.fillIndMsg msg)
    (fun fresh => Enc.sliceEncIndMsgPlain fresh msg) Dec.sliceDecIndMsgPlain msg

/-- A control message survives encoding and decoding. -/
def SliceCtrlMsg.RoundTrips (msg : SliceCtrlMsg) : Prop :=
  SliceSm.RoundTrips (Enc.calCtrlMsgPayload msg) (Enc.fillSliceCtrlMsg msg)
    (fun fresh => Enc.sliceEncCtrlMsgPlain fresh msg) Dec.sliceDecCtrlMsgPlain msg

/-- Every slice has an algorithm, no string has the largest size that there is, and all fields
together can be counted in a machine word. -/
def SliceIndMsg.Survives (msg : SliceIndMsg) : Prop :=
  msg.Supported ∧ msg.HasTerminators ∧ msg.bytes.length < 2 ^ 64

/-- Every slice has an algorithm, no string has the largest size that there is, and all fields
together can be counted in a machine word. -/
def SliceCtrlMsg.Survives (msg : SliceCtrlMsg) : Prop :=
  msg.Supported ∧ msg.HasTerminators ∧ msg.bytes.length < 2 ^ 64

theorem plainCodec_iff {α : Type} {size : Outcome UInt64} {fill : Writer} {read : Reader α}
    {bytes : List UInt8} {msg : α} {p q : Prop}
    (hsize : ∀ sz, size = .done sz ↔ p ∧ sz = UInt64.ofNat bytes.length)
    (hfill : p → fill.Emits bytes) (hread : p → read.DecodesIff bytes msg q) :
    RoundTrips size fill (fun fresh => Enc.allocAndFill fresh size fill) (Dec.decodeAll read) msg ↔
      p ∧ q ∧ bytes.length < 2 ^ 64 := by
  constructor
  · rintro ⟨sz, out, hsz, hwrite, hdecode⟩
    obtain ⟨hp, hlt, rfl⟩ :=
      (Enc.allocAndFill_eq_done_iff hsize hfill).mp (hwrite fun _ => 0).2
    exact ⟨hp, ((Dec.decodeAll_eq_done_iff (hread hp)).mp hdecode).1, hlt⟩
  · rintro ⟨hp, hq, hlt⟩
    refine ⟨_, bytes, (hsize _).mpr ⟨hp, rfl⟩, fun fresh => ⟨?_, ?_⟩, ?_⟩
    · rw [UInt64.toNat_ofNat_of_lt' hlt]
      exact (Enc.fill_malloc_eq_done_iff (hfill hp)).mpr ⟨hlt, rfl⟩
    · exact (Enc.allocAndFill_eq_done_iff hsize hfill).mpr ⟨hp, hlt, rfl⟩
    · exact (Dec.decodeAll_eq_done_iff (hread hp)).mpr ⟨hq, rfl⟩

theorem SliceIndMsg.survives_iff (msg : SliceIndMsg) : msg.RoundTrips ↔ msg.Survives :=
  plainCodec_iff (fun _ => Enc.calIndMsgPayload_eq_done_iff) Enc.emits_fillIndMsg
    Dec.decodesIff_fillIndMsg

theorem SliceCtrlMsg.survives_iff (msg : SliceCtrlMsg) : msg.RoundTrips ↔ msg.Survives :=
  plainCodec_iff (fun _ => Enc.calCtrlMsgPayload_eq_done_iff) Enc.emits_fillSliceCtrlMsg
    Dec.decodesIff_fillCtrlMsg

/-- A message of the service model. -/
inductive SliceMsg
  | ind (msg : SliceIndMsg)
  | ctrl (msg : SliceCtrlMsg)

/-- The message survives encoding and decoding. -/
def SliceMsg.RoundTrips : SliceMsg → Prop
  | ind msg => msg.RoundTrips
  | ctrl msg => msg.RoundTrips

/-- The message is one of those that survive. -/
def SliceMsg.Survives : SliceMsg → Prop
  | ind msg => msg.Survives
  | ctrl msg => msg.Survives

/-- A message survives encoding and decoding exactly if every slice has an algorithm, every string
leaves room for its terminator, and a machine word counts all bytes. -/
theorem slicePlainCodec_roundTrips_iff (msg : SliceMsg) : msg.RoundTrips ↔ msg.Survives := by
  cases msg with
  | ind msg => exact msg.survives_iff
  | ctrl msg => exact msg.survives_iff

/-- An indication without slices and users, whose downlink scheduler has a name of four gigabytes
less one byte. -/
def longSchedName : SliceIndMsg where
  sliceConf :=
    { dl :=
      ⟨⟨[], by decide⟩, ⟨List.replicate (2 ^ 32 - 1) 0, by rw [List.length_replicate]; decide⟩⟩
      ul := ⟨⟨[], by decide⟩, ⟨[], by decide⟩⟩ }
  ueSliceConf := ⟨⟨[], by decide⟩⟩
  tstamp := 0

theorem not_roundTrips_longSchedName : longSchedName.Supported ∧ ¬ longSchedName.RoundTrips := by
  constructor
  · constructor <;> exact fun s hs => absurd hs List.not_mem_nil
  · rw [SliceIndMsg.survives_iff]
    rintro ⟨-, hterm, -⟩
    have hlt : (List.replicate (2 ^ 32 - 1) (0 : UInt8)).length < 2 ^ 32 - 1 := hterm.1.1
    rw [List.length_replicate] at hlt
    exact lt_irrefl _ hlt

end LlmHric.SliceSm
