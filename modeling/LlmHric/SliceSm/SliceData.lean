import LlmHric.Library.CheckedReaders

/-! The indication and the control messages of the slice service model, and how their fields follow
each other in the plain encoding. -/

namespace LlmHric.SliceSm

open ByteOrder Checked

/-! ### The parts of messages -/

/-- A `float` is only ever copied: its bits. -/
abbrev FloatBits := UInt32

/-- `slice_algorithm_e`. -/
inductive SliceAlgorithm
  | none
  | static
  | nvs
  | scn19
  | edf
  deriving DecidableEq

/-- `nvs_slice_conf_e`. -/
inductive NvsSliceConf
  | rate
  | capacity
  deriving DecidableEq

/-- `scn19_slice_conf_e`. -/
inductive Scn19SliceConf
  | dynamic
  | fixed
  | onDemand
  deriving DecidableEq

/-- `slice_ctrl_msg_e`. -/
inductive SliceCtrlMsgType
  | add
  | del
  | ueSliceAssoc
  deriving DecidableEq

def SliceAlgorithm.number : SliceAlgorithm → UInt32
  | none => 0
  | static => 1
  | nvs => 2
  | scn19 => 3
  | edf => 4

def NvsSliceConf.number : NvsSliceConf → UInt32
  | rate => 0
  | capacity => 1

def Scn19SliceConf.number : Scn19SliceConf → UInt32
  | dynamic => 0
  | fixed => 1
  | onDemand => 2

/-- The number of a type of control messages. -/
def SliceCtrlMsgType.number : SliceCtrlMsgType → UInt32
  | add => 0
  | del => 1
  | ueSliceAssoc => 2

/-- `static_slice_t`. -/
structure StaticSlice where
  posLow : UInt32
  posHigh : UInt32
  deriving DecidableEq

/-- `nvs_rate_t`. -/
structure NvsRate where
  mbpsRequired : FloatBits
  mbpsReference : FloatBits
  deriving DecidableEq

/-- `nvs_capacity_t`. -/
structure NvsCapacity where
  pctReserved : FloatBits
  deriving DecidableEq

/-- `nvs_slice_t`: the configuration says which member of the union there is. -/
inductive NvsSlice
  | rate (rate : NvsRate)
  | capacity (capacity : NvsCapacity)
  deriving DecidableEq

/-- `scn19_on_demand_t`. -/
structure Scn19OnDemand where
  pctReserved : FloatBits
  logDelta : FloatBits
  tau : UInt32
  deriving DecidableEq

/-- `scn19_slice_t`. -/
inductive Scn19Slice
  | dynamic (dynamic : NvsRate)
  | fixed (fixed : StaticSlice)
  | onDemand (onDemand : Scn19OnDemand)
  deriving DecidableEq

/-- `edf_slice_t`. -/
structure EdfSlice where
  deadline : UInt32
  guaranteedPrbs : UInt32
  maxReplenish : UInt32
  overs : Counted UInt32
  deriving DecidableEq

/-- `slice_params_t`: the type says which member of the union there is, and there may be none. -/
inductive SliceParams
  | none
  | sta (sta : StaticSlice)
  | nvs (nvs : NvsSlice)
  | scn19 (scn19 : Scn19Slice)
  | edf (edf : EdfSlice)
  deriving DecidableEq

def NvsSlice.conf : NvsSlice → NvsSliceConf
  | rate _ => .rate
  | capacity _ => .capacity

def Scn19Slice.conf : Scn19Slice → Scn19SliceConf
  | dynamic _ => .dynamic
  | fixed _ => .fixed
  | onDemand _ => .onDemand

def SliceParams.type : SliceParams → SliceAlgorithm
  | none => .none
  | sta _ => .static
  | nvs _ => .nvs
  | scn19 _ => .scn19
  | edf _ => .edf

/-- `fr_slice_t`. -/
structure FrSlice where
  id : UInt32
  label : Counted UInt8
  sched : Counted UInt8
  params : SliceParams
  deriving DecidableEq

/-- `ul_dl_slice_conf_t`. -/
structure UlDlSliceConf where
  slices : Counted FrSlice
  schedName : Counted UInt8
  deriving DecidableEq

/-- `slice_conf_t`. -/
structure SliceConf where
  dl : UlDlSliceConf
  ul : UlDlSliceConf
  deriving DecidableEq

/-- `ue_slice_assoc_t`. -/
structure UeSliceAssoc where
  dlId : UInt32
  ulId : UInt32
  rnti : UInt16
  deriving DecidableEq

/-- `ue_slice_conf_t`. -/
structure UeSliceConf where
  ues : Counted UeSliceAssoc
  deriving DecidableEq

/-- `del_slice_conf_t`. -/
structure DelSliceConf where
  dl : Counted UInt32
  ul : Counted UInt32
  deriving DecidableEq

/-- `slice_ind_msg_t`. -/
structure SliceIndMsg where
  sliceConf : SliceConf
  ueSliceConf : UeSliceConf
  tstamp : Int64
  deriving DecidableEq

/-- `slice_ctrl_msg_t`: the type says which member of the union there is. -/
inductive SliceCtrlMsg
  | addModSlice (conf : SliceConf)
  | delSlice (conf : DelSliceConf)
  | ueSlice (conf : UeSliceConf)
  deriving DecidableEq

/-- The type of a control message. -/
def SliceCtrlMsg.type : SliceCtrlMsg → SliceCtrlMsgType
  | addModSlice _ => .add
  | delSlice _ => .del
  | ueSlice _ => .ueSliceAssoc

/-! ### Plain encodings -/

/-- A number of 32 bits in the memory of the host. -/
def bytes32 (x : UInt32) : List UInt8 := bytesLE x.toNat 4

/-- A number of 16 bits in the memory of the host. -/
def bytes16 (x : UInt16) : List UInt8 := bytesLE x.toNat 2

/-- A signed number of 64 bits in the memory of the host. -/
def bytesInt64 (x : Int64) : List UInt8 := bytesLE x.toUInt64.toNat 8

@[simp] theorem length_bytes32 (x : UInt32) : (bytes32 x).length = 4 := length_bytesLE _ _

@[simp] theorem length_bytes16 (x : UInt16) : (bytes16 x).length = 2 := length_bytesLE _ _

@[simp] theorem length_bytesInt64 (x : Int64) : (bytesInt64 x).length = 8 := length_bytesLE _ _

/-- The high position comes first. -/
def StaticSlice.bytes (s : StaticSlice) : List UInt8 := bytes32 s.posHigh ++ bytes32 s.posLow

/-- The reference rate comes first. -/
def NvsRate.bytes (r : NvsRate) : List UInt8 := bytes32 r.mbpsReference ++ bytes32 r.mbpsRequired

/-- The one field. -/
def NvsCapacity.bytes (c : NvsCapacity) : List UInt8 := bytes32 c.pctReserved

/-- The configuration and what it asks for. -/
def NvsSlice.bytes (s : NvsSlice) : List UInt8 :=
  bytes32 s.conf.number ++
    match s with
    | rate r => r.bytes
    | capacity c => c.bytes

/-- The reserved share comes second. -/
def Scn19OnDemand.bytes (s : Scn19OnDemand) : List UInt8 :=
  bytes32 s.logDelta ++ (bytes32 s.pctReserved ++ bytes32 s.tau)

/-- The configuration and what it asks for. -/
def Scn19Slice.bytes (s : Scn19Slice) : List UInt8 :=
  bytes32 s.conf.number ++
    match s with
    | dynamic r => r.bytes
    | fixed f => f.bytes
    | onDemand d => d.bytes

/-- The fields and the overrides after their number. -/
def EdfSlice.bytes (s : EdfSlice) : List UInt8 :=
  bytes32 s.deadline ++ (bytes32 s.guaranteedPrbs ++ (bytes32 s.maxReplenish ++
    (bytes32 s.overs.len ++ s.overs.items.flatMap bytes32)))

/-- The algorithm and its parameters. -/
def SliceParams.bytes (p : SliceParams) : List UInt8 :=
  bytes32 p.type.number ++
    match p with
    | none => []
    | sta s => s.bytes
    | nvs s => s.bytes
    | scn19 s => s.bytes
    | edf s => s.bytes

/-- The strings follow their sizes. -/
def FrSlice.bytes (s : FrSlice) : List UInt8 :=
  bytes32 s.id ++ (bytes32 s.label.len ++ (s.label.items ++ (bytes32 s.sched.len ++
    (s.sched.items ++ s.params.bytes))))

/-- The name of the scheduler and the slices, each after the size. -/
def UlDlSliceConf.bytes (c : UlDlSliceConf) : List UInt8 :=
  bytes32 c.schedName.len ++ (c.schedName.items ++ (bytes32 c.slices.len ++
    c.slices.items.flatMap FrSlice.bytes))

/-- The downlink comes first. -/
def SliceConf.bytes (c : SliceConf) : List UInt8 := c.dl.bytes ++ c.ul.bytes

/-- The two slices of a user, and the user. -/
def UeSliceAssoc.bytes (a : UeSliceAssoc) : List UInt8 :=
  bytes32 a.dlId ++ (bytes32 a.ulId ++ bytes16 a.rnti)

/-- The users after their number. -/
def UeSliceConf.bytes (c : UeSliceConf) : List UInt8 :=
  bytes32 c.ues.len ++ c.ues.items.flatMap UeSliceAssoc.bytes

/-- The slices to delete in both directions, each after their number. -/
def DelSliceConf.bytes (c : DelSliceConf) : List UInt8 :=
  bytes32 c.dl.len ++ (c.dl.items.flatMap bytes32 ++
    (bytes32 c.ul.len ++ c.ul.items.flatMap bytes32))

/-- The configuration of slices, the users in them, and the time. -/
def SliceIndMsg.bytes (msg : SliceIndMsg) : List UInt8 :=
  msg.sliceConf.bytes ++ (msg.ueSliceConf.bytes ++ bytesInt64 msg.tstamp)

/-- The type and what it asks for. -/
def SliceCtrlMsg.bytes (msg : SliceCtrlMsg) : List UInt8 :=
  bytes32 msg.type.number ++
    match msg with
    | addModSlice c => c.bytes
    | delSlice c => c.bytes
    | ueSlice c => c.bytes

theorem FrSlice.bytes_ne_nil (s : FrSlice) : s.bytes ≠ [] := by
  apply List.ne_nil_of_length_pos
  rw [bytes, List.length_append, length_bytes32]
  omega

/-- The slice has an algorithm. -/
def FrSlice.Supported (s : FrSlice) : Prop := s.params ≠ .none

/-- Every slice in both directions has an algorithm. -/
def SliceConf.Supported (c : SliceConf) : Prop :=
  (∀ s ∈ c.ul.slices.items, s.Supported) ∧ ∀ s ∈ c.dl.slices.items, s.Supported

/-- Every slice of the indication has an algorithm. -/
def SliceIndMsg.Supported (msg : SliceIndMsg) : Prop := msg.sliceConf.Supported

/-- Every slice to add or modify has an algorithm. -/
def SliceCtrlMsg.Supported : SliceCtrlMsg → Prop
  | addModSlice c => c.Supported
  | delSlice _ => True
  | ueSlice _ => True

end LlmHric.SliceSm
