import LlmHric.Rrc.BearerMapping

/-! `nrRrcAddDrb` returns no DRB when all identifiers are taken, but its caller asserts that it
does. A request is carried out exactly when first fit opens no more DRBs than are left and every
number among its flows is a 5QI; any other request aborts the process. -/

namespace LlmHric.Rrc

open Checked

/-- A UE each of whose DRBs has an identifier of its own and belongs to a stored session. -/
structure BearerState where
  ue : RrcUe
  owned : DrbsOwned ue

/-- The request ends; sessions, DRBs and assignments from before are as they were, and a flow is
without a DRB only if none is left. -/
def CarriedOut (enableSdap : Bool) (ue : RrcUe) (sessions : List PduSession) : Prop :=
  ∃ ue', nrRrcAddBearers enableSdap ue sessions = .done ue' ∧
    ue.pduSessions <+: ue'.pduSessions ∧ ue.drbs <+: ue'.drbs ∧
    ∀ s ∈ ue'.pduSessions, s ∈ ue.pduSessions ∨
      ∀ q ∈ s.qos, q.drbId = 0 → ue'.drbs.length = maxDrbsPerUe

/-- A request is carried out exactly when the DRBs left suffice for the sessions that are added and
their numbers are 5QIs. -/
theorem carriedOut_iff (enableSdap : Bool) (state : BearerState) (sessions : List SetupSession) :
    CarriedOut enableSdap state.ue (sessions.map SetupSession.toPduSession) ↔
      RequestSuffices state.ue sessions := by
  constructor
  · rintro ⟨ue', hrun, -⟩
    by_contra hsuff
    rw [nrRrcAddBearers_of_not_suffices state.owned hsuff] at hrun
    cases hrun
  · intro hsuff
    obtain ⟨ue', hrun, hadded⟩ := nrRrcAddBearers_of_suffices state.owned hsuff
    refine ⟨ue', hrun, hadded.sessions, hadded.drbs, ?_⟩
    intro s hs
    rcases hadded.assigned s hs with hs | hs
    · exact .inl hs
    · exact .inr fun q hq hd => absurd hd (hs q hq)

/-- A session with 33 delay-critical flows. -/
def crowdedSession : SetupSession where
  pdusessionId := 1
  idOk := sessionIdOk_one
  qos := (List.range 33).map fun qfi => ⟨0, qfi, .nonDynamic 82⟩
  built := ⟨(List.range 33).map fun qfi => ⟨qfi, .nonDynamic 82⟩, by decide⟩

theorem not_carriedOut_crowdedSession :
    ¬ CarriedOut true RrcUe.initial [crowdedSession.toPduSession] := by
  rintro ⟨ue', hrun, -⟩
  have hfault : nrRrcAddBearers true RrcUe.initial [crowdedSession.toPduSession] =
      .fault .assertion := by decide +kernel
  rw [hfault] at hrun
  cases hrun

end LlmHric.Rrc
