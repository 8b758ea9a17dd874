import LlmHric.Flexric.ArrayExtent
import LlmHric.Rrc.BearerMapping

/-! The DRBs of a UE, its sessions and the flows of each session are growing arrays, whose elements
are larger than the least capacity that such an array shrinks to. When a UE with 32 DRBs has less
than 16 of them left, these are copied into a block that has no room for 15, and the process has
written outside it. As long as this does not happen the mapping of flows to DRBs is sound. -/

namespace LlmHric.Rrc

open Checked Flexric

/-- `sizeof(drb_t)`. -/
def drbSize : ℕ := 80

/-- `sizeof(rrc_pdu_session_param_t)`. -/
def pduSessionSize : ℕ := 144

/-- `sizeof(nr_rrc_qos_t)`. -/
def qosSize : ℕ := 72

/-- What has been done to `UE->drbs`, to `UE->pduSessions` and to the flows of each session. -/
structure BearerArrays where
  drbs : List ArrayStep
  pduSessions : List ArrayStep
  qos : ℕ → List ArrayStep

/-- The steps between two lengths; each operation pushes to an array or erases from it. -/
def lengthSteps (n n' : ℕ) : List ArrayStep :=
  if n ≤ n' then List.replicate (n' - n) .push else List.replicate (n - n') .pop

/-- The number of flows of a session. -/
def RrcUe.qosLength (ue : RrcUe) (id : ℕ) : Option ℕ :=
  (findPduSession ue.pduSessions id).map fun s => s.qos.length

/-- The steps of an operation. The flows of a new session come in an array of their own. -/
def BearerArrays.next (arrays : BearerArrays) (ue ue' : RrcUe) : BearerArrays where
  drbs := arrays.drbs ++ lengthSteps ue.drbs.length ue'.drbs.length
  pduSessions := arrays.pduSessions ++ lengthSteps ue.pduSessions.length ue'.pduSessions.length
  qos := fun id =>
    match ue.qosLength id, ue'.qosLength id with
    | some n, some n' => arrays.qos id ++ lengthSteps n n'
    | _, some n' => lengthSteps 0 n'
    | _, none => []

/-- A UE without sessions has empty arrays. -/
def BearerArrays.initial : BearerArrays := ⟨[], [], fun _ => []⟩

/-- No array of the UE has left its block. -/
def BearerArrays.Intact (arrays : BearerArrays) (ue : RrcUe) : Prop :=
  (extentAfter drbSize arrays.drbs).intact = true ∧
    (extentAfter pduSessionSize arrays.pduSessions).intact = true ∧
    ∀ s ∈ ue.pduSessions, (extentAfter qosSize (arrays.qos s.pdusessionId)).intact = true

instance (arrays : BearerArrays) (ue : RrcUe) : Decidable (arrays.Intact ue) :=
  inferInstanceAs (Decidable (_ ∧ _ ∧ _))

def arrayStep (state : RrcUe × BearerArrays) (op : BearerOp) :
    Outcome (RrcUe × BearerArrays) := do
  let ue ← bearerStep state.1 op
  let arrays := state.2.next state.1 ue
  if arrays.Intact ue then return (ue, arrays) else .fault .outOfBounds

/-! ### Runs -/

/-- The numbers of DRBs, sessions and flows are such that the arrays keep to their blocks. -/
structure BearerArrays.Keeps (arrays : BearerArrays) (ue : RrcUe) : Prop where
  drbs : KeepsBlock drbSize (sizes arrays.drbs)
  pduSessions : KeepsBlock pduSessionSize (sizes arrays.pduSessions)
  qos : ∀ s ∈ ue.pduSessions, KeepsBlock qosSize (sizes (arrays.qos s.pdusessionId))

/-- The numbers are such all along a run. -/
def KeepsBlocks (state : RrcUe × BearerArrays) : List BearerOp → Prop
  | [] => True
  | op :: ops =>
    match bearerStep state.1 op with
    | .done ue => (state.2.next state.1 ue).Keeps ue ∧ KeepsBlocks (ue, state.2.next state.1 ue) ops
    | _ => True

theorem BearerArrays.intact_iff {arrays : BearerArrays} {ue : RrcUe} :
    arrays.Intact ue ↔ arrays.Keeps ue := by
  have hdrbs := intact_extentAfter_iff (w := drbSize) (largeElements_of_le (by decide)) arrays.drbs
  have hsessions := intact_extentAfter_iff (w := pduSessionSize)
    (largeElements_of_le (by decide)) arrays.pduSessions
  have hqos := fun id => intact_extentAfter_iff (w := qosSize)
    (largeElements_of_le (by decide)) (arrays.qos id)
  constructor
  · intro h
    exact ⟨hdrbs.mp h.1, hsessions.mp h.2.1, fun s hs => (hqos _).mp (h.2.2 s hs)⟩
  · intro h
    exact ⟨hdrbs.mpr h.drbs, hsessions.mpr h.pduSessions, fun s hs => (hqos _).mpr (h.qos s hs)⟩

theorem run_arrayStep_iff {ops : List BearerOp} {state : RrcUe × BearerArrays} {ue : RrcUe}
    (h : ops.foldlM bearerStep state.1 = .done ue) :
    (∃ arrays, ops.foldlM arrayStep state = .done (ue, arrays)) ↔ KeepsBlocks state ops := by
  induction ops generalizing state with
  | nil =>
    obtain rfl : state.1 = ue := Outcome.done.inj h
    exact iff_of_true ⟨state.2, rfl⟩ trivial
  | cons op ops ih =>
    rw [List.foldlM_cons] at h ⊢
    obtain ⟨ue₁, hone, hrest⟩ := Outcome.bind_eq_done_iff.mp h
    simp only [arrayStep, KeepsBlocks, hone, Outcome.done_bind]
    -- the run goes on only while the arrays are in their blocks
    by_cases hintact : (state.2.next state.1 ue₁).Intact ue₁
    · rw [if_pos hintact, Outcome.pure_eq, Outcome.done_bind, @ih (ue₁, _) hrest]
      exact (and_iff_right (BearerArrays.intact_iff.mp hintact)).symm
    · rw [if_neg hintact, Outcome.fault_bind]
      refine iff_of_false ?_ fun hk => hintact (BearerArrays.intact_iff.mpr hk.1)
      rintro ⟨arrays, hfault⟩
      cases hfault

theorem run_bearerStep_of_run {ops : List BearerOp} {state last : RrcUe × BearerArrays}
    (h : ops.foldlM arrayStep state = .done last) :
    ops.foldlM bearerStep state.1 = .done last.1 := by
  induction ops generalizing state with
  | nil =>
    obtain rfl : state = last := Outcome.done.inj h
    rfl
  | cons op ops ih =>
    rw [List.foldlM_cons] at h ⊢
    obtain ⟨next, hone, hrest⟩ := Outcome.bind_eq_done_iff.mp h
    obtain ⟨ue, hue, hnext⟩ := Outcome.bind_eq_done_iff.mp hone
    dsimp only at hnext
    split_ifs at hnext
    · obtain rfl := Outcome.done.inj hnext
      rw [hue, Outcome.done_bind]
      exact ih hrest

/-- A run that never needs more than 32 DRBs ends without leaving a block, and with a sound mapping,
exactly when the numbers of DRBs, sessions and flows are such that their arrays keep to their
blocks. -/
theorem qosMapping_iff (ops : List BearerOp) (hops : ∀ op ∈ ops, op.FiveqisInRange)
    (hcap : WithinCapacity RrcUe.initial ops) :
    (∃ ue arrays, ops.foldlM arrayStep (RrcUe.initial, .initial) = .done (ue, arrays) ∧
        QosMapping ue) ↔
      KeepsBlocks (RrcUe.initial, .initial) ops := by
  obtain ⟨ue, hrun, hmapping⟩ := qosMapping_of_withinCapacity ops hops hcap
  rw [← @run_arrayStep_iff ops (RrcUe.initial, .initial) ue hrun]
  constructor
  · rintro ⟨ue', arrays, hdone, -⟩
    obtain rfl := Outcome.done.inj (hrun.symm.trans (run_bearerStep_of_run hdone))
    exact ⟨arrays, hdone⟩
  · rintro ⟨arrays, hdone⟩
    exact ⟨ue, arrays, hdone, hmapping⟩

/-- A voice session is set up, and flows come and go. -/
def voiceOps : List BearerOp :=
  [.addBearers true [voiceSession], .addQos 1 ⟨4, .dynamic none 80 300 ⟨1, 3⟩⟩, .rmQos 1 1,
    .addQos 1 ⟨5, .nonDynamic 2⟩]

theorem qosMapping_voiceOps :
    (∃ ue arrays, voiceOps.foldlM arrayStep (RrcUe.initial, .initial) = .done (ue, arrays) ∧
        QosMapping ue) ↔
      KeepsBlocks (RrcUe.initial, .initial) voiceOps :=
  qosMapping_iff voiceOps
    (by simp [voiceOps, BearerOp.FiveqisInRange, SetupSession.FiveqisInRange, FiveqiInRange, number,
      voiceSession, maxFiveqi])
    (by decide)

/-- A session with 17 delay-critical flows, each on a DRB of its own. -/
def leavingSession : SetupSession where
  pdusessionId := 1
  idOk := sessionIdOk_one
  qos := (List.range 17).map fun qfi => ⟨0, qfi, .nonDynamic 82⟩
  built := ⟨(List.range 17).map fun qfi => ⟨qfi, .nonDynamic 82⟩, by decide⟩

def stayingSession : SetupSession where
  pdusessionId := 2
  idOk := by decide
  qos := (List.range 15).map fun qfi => ⟨0, qfi, .nonDynamic 82⟩
  built := ⟨(List.range 15).map fun qfi => ⟨qfi, .nonDynamic 82⟩, by decide⟩

/-- Both sessions are set up, and the larger one is removed. -/
def fallingOps : List BearerOp :=
  [.addBearers true [leavingSession, stayingSession], .rmPduSession 1]

/-- The UE needs 32 DRBs and no more, but the 15 DRBs that stay do not fit into their new block. -/
theorem not_qosMapping_fallingOps :
    (∀ op ∈ fallingOps, op.FiveqisInRange) ∧ WithinCapacity RrcUe.initial fallingOps ∧
      ¬ ∃ ue arrays, fallingOps.foldlM arrayStep (RrcUe.initial, .initial) =
        .done (ue, arrays) ∧ QosMapping ue := by
  have hfault : (match fallingOps.foldlM arrayStep (RrcUe.initial, .initial) with
      | .done _ => true
      | .refused => false
      | .fault _ => false) = false := by decide +kernel
  refine ⟨?_, by decide +kernel, ?_⟩
  · simp [fallingOps, BearerOp.FiveqisInRange, SetupSession.FiveqisInRange, FiveqiInRange, number,
      leavingSession, stayingSession, maxFiveqi]
  · rintro ⟨ue, arrays, hdone, -⟩
    rw [hdone] at hfault
    cases hfault

end LlmHric.Rrc
