import LlmHric.E2smRc.SliceQuota
import LlmHric.Flexric.IApp
import Mathlib.Logic.Function.Basic

/-! A slice control travels from the xApp through the iApp and the near-RT RIC to the E2 agent of a
gNB, which applies it and answers. In the xApp the caller of `control_sm_sync_xapp` waits on a flag,
and the event loop of the xApp raises it: it looks the request id of an answer up among the active
procedures and, in a second step, signals the waiting thread.

Messages are delivered in any order. Each carries the request it belongs to as a history
variable, and so do the verdicts of the gNBs and the results of the calls. -/

namespace LlmHric.Flexric

open Checked Mac E2smRc

/-- The id of a control request with the key it has among the active procedures. The RAN function
is the RAN control service model. -/
def ctrlRicId (key : ℕ) : RicGenId := ⟨key, 0, 3⟩

/-- The thread that calls `control_sm_sync_xapp`. -/
inductive UserThread (Node : Type)
  | idle
  /-- After `generate_ric_gen_id`. -/
  | registered (key : ℕ) (node : Node) (msg : CtrlMsgFrmt1)
  /-- After `prepare_sync_ui`. -/
  | prepared (key : ℕ) (node : Node) (msg : CtrlMsgFrmt1)
  /-- In `cond_wait_sync_ui`, the request being sent. -/
  | waiting (key : ℕ)
  /-- After `cond_wait_sync_ui`, before `rm_act_proc`. -/
  | returning (key : ℕ) (responseReceived : Bool)

/-- An xApp. -/
structure ControlXapp (Node : Type) where
  /-- The next key of the active procedures. -/
  keyId : ℕ
  actProc : List ℕ
  user : UserThread Node
  flagSync : Bool
  msgAck : Bool
  /-- The event loop has looked up this key and is about to signal. -/
  signalling : Option ℕ

namespace ControlXapp

variable {Node : Type}

/-- `init_act_proc` and `init_sync_ui` -/
def init : ControlXapp Node := ⟨1, [], .idle, false, false, none⟩

/-- `generate_ric_gen_id` -/
def register (u : ControlXapp Node) (node : Node) (msg : CtrlMsgFrmt1) : ControlXapp Node :=
  { u with
    keyId := u.keyId + 1
    actProc := u.actProc ++ [u.keyId]
    user := .registered u.keyId node msg }

/-- `prepare_sync_ui` -/
def prepareSyncUi (u : ControlXapp Node) : ControlXapp Node :=
  { u with flagSync := false, msgAck := false }

/-- `signal_sync_ui` -/
def signalSyncUi (u : ControlXapp Node) : ControlXapp Node :=
  { u with flagSync := true, msgAck := true, signalling := none }

/-- The look-up of an answer; an answer to an expired request is ignored. -/
def findActProc (u : ControlXapp Node) (ricReqId : ℕ) : ControlXapp Node :=
  if ricReqId ∈ u.actProc then { u with signalling := some ricReqId } else u

/-- `e2ap_handle_control_ack_xapp` up to the signal -/
def handleControlAck (u : ControlXapp Node) (ricReqId : ℕ) : ControlXapp Node :=
  u.findActProc ricReqId

/-- `e2ap_handle_control_failure_xapp` up to the signal, which is the same -/
def handleControlFailure (u : ControlXapp Node) (ricReqId : ℕ) : ControlXapp Node :=
  u.findActProc ricReqId

/-- `e2ap_msg_handle_xapp` on the answers to a control request -/
def handleAnswer (u : ControlXapp Node) (ricReqId : ℕ) : Answer → ControlXapp Node
  | .controlAcknowledge => u.handleControlAck ricReqId
  | .controlFailure => u.handleControlFailure ricReqId
  | .subscriptionResponse | .subscriptionDeleteResponse | .indication => u

end ControlXapp

/-- `write_ctrl_rc_sm` on a slice-level PRB quota control, and the rest of
`e2ap_handle_control_request_agent`: the answer is an acknowledgement whatever the verdict is. -/
def handleControlRequestAgent (nrmac : Option SliceState) (msg : CtrlMsgFrmt1) :
    Outcome (Answer × Bool × Option SliceState) :=
  match applyRcCtrlStyle2SliceLevelPrbQuota nrmac (some msg) with
  | .fault f => .fault f
  | .refused => .refused
  -- a false verdict is only logged
  | .done (ok, nrmac') => .done (.controlAcknowledge, ok, nrmac')

/-- A message on its way. The last argument of the messages on the RIC's side is the request they
belong to. -/
inductive Message (Node : Type)
  /-- From an xApp to the iApp. -/
  | request (x : XappRicId) (node : Node) (msg : CtrlMsgFrmt1)
  /-- From the near-RT RIC to an E2 node. -/
  | toNode (ricId : RicGenId) (node : Node) (msg : CtrlMsgFrmt1) (origin : XappRicId)
  /-- From an E2 node to the near-RT RIC. -/
  | toRic (kind : Answer) (ricId : RicGenId) (origin : XappRicId)
  /-- From the iApp to an xApp. -/
  | toXapp (kind : Answer) (y : XappRicId)

/-- The request a message keeps open at the iApp. -/
def Message.holder {Node : Type} : Message Node → Option XappRicId
  | .request x _ _ => some x
  | .toNode _ _ _ x => some x
  | .toRic _ _ x => some x
  | .toXapp _ _ => none

/-- The whole chain. -/
structure ControlChain (Node : Type) where
  xapps : ℕ → ControlXapp Node
  ric : NearRic Node
  /-- The MAC instances of the gNBs. -/
  nrmac : Node → Option SliceState
  mail : List (Message Node)
  /-- The verdicts of the gNBs. -/
  applied : List (XappRicId × Bool)
  /-- The results of `control_sm_sync_xapp`. -/
  returned : List (XappRicId × Bool)

/-- The steps of the chain. -/
inductive ChainLabel (Node : Type)
  | register (xapp : ℕ)
  | prepare (xapp : ℕ)
  | send (xapp : ℕ)
  | forward (x : XappRicId)
  | control (node : Node) (msg : CtrlMsgFrmt1)
  | fail (node : Node)
  | answer (kind : Answer)
  | remove (x : XappRicId)
  | lookUp (y : XappRicId)
  | signal (xapp : ℕ)
  | wakeUp (xapp : ℕ)
  | timeOut (xapp : ℕ)
  | finish (xapp : ℕ)

namespace ControlChain

variable {Node : Type} [DecidableEq Node]

/-- Replace one xApp. -/
def setXapp (s : ControlChain Node) (xapp : ℕ) (u : ControlXapp Node) : ControlChain Node :=
  { s with xapps := Function.update s.xapps xapp u }

/-- All xApps are idle, the map of the iApp is empty and no message is on its way. -/
structure Initial (s : ControlChain Node) : Prop where
  xapps : s.xapps = fun _ => .init
  mapRicId : s.ric.mapRicId = .empty
  removing : s.ric.removing = []
  mail : s.mail = []
  applied : s.applied = []
  returned : s.returned = []

/-- The steps of the threads. A message is delivered from any place of the mail. -/
inductive ChainStep : ChainLabel Node → ControlChain Node → ControlChain Node → Prop
  /-- `control_sm_sync_xapp` is called -/
  | register {s : ControlChain Node} {xapp : ℕ} {node : Node} {msg : CtrlMsgFrmt1} :
      -- `generate_ric_gen_id` asserts that the key fits into 16 bits
      (s.xapps xapp).user = .idle → (s.xapps xapp).keyId < 65536 →
      ChainStep (.register xapp) s (s.setXapp xapp ((s.xapps xapp).register node msg))
  | prepare {s : ControlChain Node} {xapp key : ℕ} {node : Node} {msg : CtrlMsgFrmt1} :
      (s.xapps xapp).user = .registered key node msg →
      ChainStep (.prepare xapp) s
        (s.setXapp xapp { (s.xapps xapp).prepareSyncUi with user := .prepared key node msg })
  /-- `send_control_request` -/
  | send {s : ControlChain Node} {xapp key : ℕ} {node : Node} {msg : CtrlMsgFrmt1} :
      (s.xapps xapp).user = .prepared key node msg →
      ChainStep (.send xapp) s
        { s.setXapp xapp { s.xapps xapp with user := .waiting key } with
          mail := s.mail ++ [.request ⟨ctrlRicId key, xapp⟩ node msg] }
  /-- The iApp and the near-RT RIC forward a request -/
  | forward {s : ControlChain Node} {pre post : List (Message Node)} {x : XappRicId} {node : Node}
      {msg : CtrlMsgFrmt1} {newId : ℕ} {ric : NearRic Node} :
      s.mail = pre ++ .request x node msg :: post →
      s.ric.handleControlRequest node x = some (newId, ric) →
      ChainStep (.forward x) s
        { s with
          ric := ric
          mail := pre ++ post ++ [.toNode { x.ricId with ricReqId := newId } node msg x] }
  /-- The E2 agent handles a control request -/
  | control {s : ControlChain Node} {pre post : List (Message Node)} {ricId : RicGenId}
      {node : Node} {msg : CtrlMsgFrmt1} {x : XappRicId} {kind : Answer} {ok : Bool}
      {nrmac : Option SliceState} :
      s.mail = pre ++ .toNode ricId node msg x :: post →
      handleControlRequestAgent (s.nrmac node) msg = .done (kind, ok, nrmac) →
      ChainStep (.control node msg) s
        { s with
          nrmac := Function.update s.nrmac node nrmac
          mail := pre ++ post ++ [.toRic kind ricId x]
          applied := s.applied ++ [(x, ok)] }
  /-- An E2 node answers with a control failure -/
  | fail {s : ControlChain Node} {pre post : List (Message Node)} {ricId : RicGenId} {node : Node}
      {msg : CtrlMsgFrmt1} {x : XappRicId} :
      s.mail = pre ++ .toNode ricId node msg x :: post →
      ChainStep (.fail node) s { s with mail := pre ++ post ++ [.toRic .controlFailure ricId x] }
  /-- The near-RT RIC and the iApp forward an answer -/
  | answer {s : ControlChain Node} {pre post : List (Message Node)} {kind : Answer}
      {ricId : RicGenId} {x y : XappRicId} {ric : NearRic Node} :
      s.mail = pre ++ .toRic kind ricId x :: post →
      s.ric.handleAnswer ricId kind = some (some y, ric) →
      ChainStep (.answer kind) s { s with ric := ric, mail := pre ++ post ++ [.toXapp kind y] }
  /-- A thread of the near-RT RIC removes a pair from the map of the iApp -/
  | remove {s : ControlChain Node} {x : XappRicId} {m : MapRicId Node} :
      x ∈ s.ric.removing → s.ric.mapRicId.rm x = some m →
      ChainStep (.remove x) s
        { s with ric := { s.ric with mapRicId := m, removing := s.ric.removing.erase x } }
  /-- The event loop of an xApp looks an answer up -/
  | lookUp {s : ControlChain Node} {pre post : List (Message Node)} {kind : Answer}
      {y : XappRicId} :
      s.mail = pre ++ .toXapp kind y :: post → (s.xapps y.xappId).signalling = none →
      ChainStep (.lookUp y) s
        { s.setXapp y.xappId ((s.xapps y.xappId).handleAnswer y.ricId.ricReqId kind) with
          mail := pre ++ post }
  /-- The event loop of an xApp signals -/
  | signal {s : ControlChain Node} {xapp key : ℕ} :
      (s.xapps xapp).signalling = some key →
      ChainStep (.signal xapp) s (s.setXapp xapp (s.xapps xapp).signalSyncUi)
  /-- `cond_wait_sync_ui` returns with the flag raised -/
  | wakeUp {s : ControlChain Node} {xapp key : ℕ} :
      (s.xapps xapp).user = .waiting key → (s.xapps xapp).flagSync = true →
      ChainStep (.wakeUp xapp) s
        (s.setXapp xapp { s.xapps xapp with user := .returning key (s.xapps xapp).msgAck })
  /-- `cond_wait_sync_ui` times out -/
  | timeOut {s : ControlChain Node} {xapp key : ℕ} :
      (s.xapps xapp).user = .waiting key →
      ChainStep (.timeOut xapp) s
        (s.setXapp xapp { s.xapps xapp with user := .returning key false })
  /-- `rm_act_proc`, and `control_sm_sync_xapp` returns -/
  | finish {s : ControlChain Node} {xapp key : ℕ} {ok : Bool} :
      (s.xapps xapp).user = .returning key ok → key ∈ (s.xapps xapp).actProc →
      ChainStep (.finish xapp) s
        { s.setXapp xapp
            { s.xapps xapp with user := .idle, actProc := (s.xapps xapp).actProc.erase key } with
          returned := s.returned ++ [(⟨ctrlRicId key, xapp⟩, ok)] }

/-- The gNB accepts the controls it handles, no E2 node answers with a failure, and no call prepares
its flag while the event loop of the xApp is between a look-up and its signal. -/
def Orderly : ChainLabel Node → ControlChain Node → Prop
  | .control node msg, s =>
    ∃ nrmac, applyRcCtrlStyle2SliceLevelPrbQuota (s.nrmac node) (some msg) = .done (true, nrmac)
  | .fail _, _ => False
  | .prepare xapp, s => (s.xapps xapp).signalling = none
  | _, _ => True

/-- A call of `control_sm_sync_xapp` has reported success only if the gNB has accepted this very
request. -/
def Honest (s : ControlChain Node) : Prop := ∀ x, (x, true) ∈ s.returned → (x, true) ∈ s.applied

abbrev ChainRun (tr : List (ChainLabel Node)) (s : ControlChain Node) : Prop :=
  Run.Reach ChainStep Initial tr s

/-- A run all of whose steps are orderly. -/
abbrev OrderlyRun (tr : List (ChainLabel Node)) (s : ControlChain Node) : Prop :=
  Run.Reach (fun a s t => ChainStep a s t ∧ Orderly a s) Initial tr s

end ControlChain

/-! ### The invariant on the RIC's side -/

section Mail

variable {Node : Type}

/-- The requests that are open at the iApp or will be: those of the messages on their way, and those
whose pairs are about to be removed. -/
def holders (mail : List (Message Node)) (removing : List XappRicId) : List XappRicId :=
  mail.filterMap Message.holder ++ removing

/-- A request is open at the iApp under a RIC request id. -/
def OpenAs (m : MapRicId Node) (x : XappRicId) (ricReqId : ℕ) : Prop :=
  ∃ n, (n, x) ∈ m.left.entries ∧ n.ricId.ricReqId = ricReqId

/-- What holds of a single message. -/
def MessageInv (m : MapRicId Node) (applied : List (XappRicId × Bool)) : Message Node → Prop
  | .request x _ _ => ∀ e ∈ m.left.entries, e.2 ≠ x
  | .toNode ricId _ _ x => OpenAs m x ricId.ricReqId
  | .toRic kind ricId x =>
    kind = .controlAcknowledge ∧ (x, true) ∈ applied ∧ OpenAs m x ricId.ricReqId
  | .toXapp _ y => (y, true) ∈ applied

/-- The invariant of the messages and the map of the iApp. -/
structure MailInv (ric : NearRic Node) (mail : List (Message Node))
    (applied : List (XappRicId × Bool)) : Prop where
  map : NearRic.MapInv ric.mapRicId
  nodup : (holders mail ric.removing).Nodup
  messages : ∀ m ∈ mail, MessageInv ric.mapRicId applied m
  shape : ∀ x ∈ holders mail ric.removing, x.ricId = ctrlRicId x.ricId.ricReqId
  applied_shape : ∀ e ∈ applied, e.1.ricId = ctrlRicId e.1.ricId.ricReqId

/-- A request is known to the iApp or will be. -/
def Known (ric : NearRic Node) (mail : List (Message Node)) (x : XappRicId) : Prop :=
  x ∈ holders mail ric.removing ∨ ∃ n, (n, x) ∈ ric.mapRicId.left.entries

variable {ric ric' : NearRic Node} {mail pre post : List (Message Node)}
  {applied : List (XappRicId × Bool)} {d m : Message Node} {x : XappRicId}

theorem mem_delivered (h : m ∈ pre ++ post) : m ∈ pre ++ d :: post := by
  rcases List.mem_append.mp h with h | h
  · exact List.mem_append_left _ h
  · exact List.mem_append_right _ (List.mem_cons_of_mem d h)

/-- The holders with one message singled out. -/
theorem holders_perm (d : Message Node) (pre post : List (Message Node))
    (removing : List XappRicId) :
    (holders (pre ++ d :: post) removing).Perm
      (d.holder.toList ++ holders (pre ++ post) removing) := by
  have hperm : ((pre ++ d :: post).filterMap Message.holder).Perm
      (d.holder.toList ++ (pre ++ post).filterMap Message.holder) := by
    refine (List.perm_middle.filterMap _).trans ?_
    rw [List.filterMap_cons]
    cases d.holder with
    | none => exact .refl _
    | some x => exact .refl _
  unfold holders
  rw [← List.append_assoc]
  exact hperm.append_right removing

/-- The holders with the message sent last singled out. -/
theorem holders_concat_perm (m : Message Node) (mail : List (Message Node))
    (removing : List XappRicId) :
    (holders (mail ++ [m]) removing).Perm (m.holder.toList ++ holders mail removing) := by
  have h := holders_perm m mail [] removing
  rwa [List.append_nil] at h

/-- A message that takes the place of another one with the same holder. -/
theorem holders_replace {d m : Message Node} (hholder : m.holder = d.holder)
    (pre post : List (Message Node)) (removing : List XappRicId) :
    (holders (pre ++ post ++ [m]) removing).Perm (holders (pre ++ d :: post) removing) := by
  refine (holders_concat_perm m (pre ++ post) removing).trans ?_
  rw [hholder]
  exact (holders_perm d pre post removing).symm

/-- One message takes the place of another one with the same holder. -/
theorem MailInv.replace (h : MailInv ric (pre ++ d :: post) applied)
    {applied' : List (XappRicId × Bool)} (hholder : m.holder = d.holder)
    (hremoving : ric'.removing = ric.removing) (hmap : NearRic.MapInv ric'.mapRicId)
    (hkeep : ∀ m' ∈ pre ++ post, MessageInv ric'.mapRicId applied' m')
    (hm : MessageInv ric'.mapRicId applied' m)
    (happlied : ∀ e ∈ applied', e.1.ricId = ctrlRicId e.1.ricId.ricReqId) :
    MailInv ric' (pre ++ post ++ [m]) applied' := by
  have hperm := holders_replace hholder pre post ric.removing
  refine ⟨hmap, ?_, ?_, ?_, happlied⟩
  · rw [hremoving, hperm.nodup_iff]
    exact h.nodup
  · intro m' hm'
    rcases List.mem_append.mp hm' with hm' | hm'
    · exact hkeep m' hm'
    · rw [List.mem_singleton.mp hm']
      exact hm
  · intro y hy
    rw [hremoving, hperm.mem_iff] at hy
    exact h.shape y hy

/-- A new request is sent. -/
theorem MailInv.send (h : MailInv ric mail applied) {node : Node} {msg : CtrlMsgFrmt1}
    (hshape : x.ricId = ctrlRicId x.ricId.ricReqId) (hnew : ¬ Known ric mail x) :
    MailInv ric (mail ++ [.request x node msg]) applied := by
  have hperm := holders_concat_perm (.request x node msg) mail ric.removing
  refine ⟨h.map, ?_, ?_, ?_, h.applied_shape⟩
  · rw [hperm.nodup_iff]
    exact List.nodup_cons.mpr ⟨fun hmem => hnew (.inl hmem), h.nodup⟩
  · intro m hm
    rcases List.mem_append.mp hm with hm | hm
    · exact h.messages m hm
    · rw [List.mem_singleton.mp hm]
      intro e he heq
      exact hnew (.inr ⟨e.1, heq ▸ he⟩)
  · intro y hy
    rcases List.mem_cons.mp (hperm.mem_iff.mp hy) with rfl | hy
    · exact hshape
    · exact h.shape y hy

/-- The iApp forwards a request. -/
theorem MailInv.forward [BEq Node] {node : Node} {msg : CtrlMsgFrmt1} {newId : ℕ}
    (h : MailInv ric (pre ++ .request x node msg :: post) applied)
    (hreq : ric.handleControlRequest node x = some (newId, ric')) :
    MailInv ric' (pre ++ post ++ [.toNode { x.ricId with ricReqId := newId } node msg x])
      applied := by
  -- the request on its way is not in the map yet
  have hkey : ∀ e ∈ ric.mapRicId.left.entries, e.2 ≠ x :=
    h.messages (.request x node msg) (by simp)
  obtain ⟨-, hnew, rfl, rfl⟩ := NearRic.handleRequest_eq_some_iff.mp hreq
  have hperm := NearRic.perm_insert_map (n := ric.forwarded .control node x) (x := x)
    h.map.wellFormed
  have hopen : ∀ {y k}, OpenAs ric.mapRicId y k → OpenAs (BiMap.insert cmpE2NodeRicReq
      cmpXappRicGenId ric.mapRicId (ric.forwarded .control node x) x) y k := by
    intro y k hy
    obtain ⟨n, hmem, hk⟩ := hy
    exact ⟨n, hperm.mem_iff.mpr (List.mem_cons_of_mem _ hmem), hk⟩
  refine h.replace rfl rfl (h.map.insert hnew hkey ⟨rfl, Nat.mod_lt _ (by omega)⟩) ?_ ?_
    h.applied_shape
  · intro m hm
    have hold := h.messages m (mem_delivered hm)
    cases m with
    | request y node' msg' =>
      -- the other requests are not this one
      have hne : x ≠ y := by
        have hnodup := (holders_perm (.request x node msg) pre post ric.removing).nodup_iff.mp
          h.nodup
        have hmem : y ∈ holders (pre ++ post) ric.removing :=
          List.mem_append_left _ (List.mem_filterMap.mpr ⟨_, hm, rfl⟩)
        exact fun heq => (List.nodup_cons.mp hnodup).1 (heq ▸ hmem)
      intro e he
      rcases List.mem_cons.mp (hperm.mem_iff.mp he) with rfl | he
      · exact hne
      · exact hold e he
    | toNode => exact hopen hold
    | toRic => exact ⟨hold.1, hold.2.1, hopen hold.2.2⟩
    | toXapp => exact hold
  · exact ⟨_, hperm.mem_iff.mpr (List.mem_cons_self ..), rfl⟩

/-- What is known of a message does not depend on later verdicts. -/
theorem MessageInv.mono {map : MapRicId Node} {applied' : List (XappRicId × Bool)}
    (h : MessageInv map applied m) (hsub : applied ⊆ applied') : MessageInv map applied' m := by
  cases m with
  | request => exact h
  | toNode => exact h
  | toRic => exact ⟨h.1, hsub h.2.1, h.2.2⟩
  | toXapp => exact hsub h

/-- A gNB accepts a control. -/
theorem MailInv.control {ricId : RicGenId} {node : Node} {msg : CtrlMsgFrmt1}
    (h : MailInv ric (pre ++ .toNode ricId node msg x :: post) applied) :
    MailInv ric (pre ++ post ++ [.toRic .controlAcknowledge ricId x])
      (applied ++ [(x, true)]) := by
  have hsub : applied ⊆ applied ++ [(x, true)] := List.subset_append_left _ _
  have hopen : OpenAs ric.mapRicId x ricId.ricReqId :=
    h.messages (.toNode ricId node msg x) (by simp)
  have hmem : (x, true) ∈ applied ++ [(x, true)] := by simp
  refine h.replace rfl rfl h.map ?_ ⟨rfl, hmem, hopen⟩ ?_
  · intro m hm
    exact (h.messages m (mem_delivered hm)).mono hsub
  · intro e he
    rcases List.mem_append.mp he with he | he
    · exact h.applied_shape e he
    · rw [List.mem_singleton.mp he]
      apply h.shape
      rw [(holders_perm _ pre post ric.removing).mem_iff]
      exact List.mem_cons_self ..

/-- The near-RT RIC and the iApp forward an answer to the xApp of the request. -/
theorem MailInv.answer {kind : Answer} {ricId : RicGenId} {y : XappRicId}
    (h : MailInv ric (pre ++ .toRic kind ricId x :: post) applied)
    (hanswer : ric.handleAnswer ricId kind = some (some y, ric')) :
    y = x ∧ ric' = { ric with removing := x :: ric.removing } ∧
      MailInv ric' (pre ++ post ++ [.toXapp kind y]) applied := by
  obtain ⟨rfl, happlied, n, hmem, hid⟩ := h.messages (.toRic kind ricId x) (by simp)
  obtain ⟨n', hmem', hid'⟩ := NearRic.forwardAnswer_sent hanswer
  -- the pair that the iApp finds is the one of the request
  have hlt := (h.map.renumbered _ hmem).2
  rw [← hid, Nat.mod_eq_of_lt hlt] at hid'
  obtain ⟨rfl, rfl⟩ := Prod.mk.inj (h.map.id_unique hmem' hmem hid')
  have hric := NearRic.forwardAnswer_ends hanswer
  refine ⟨rfl, hric, ?_⟩
  subst hric
  -- the request passes from the message to the thread that will remove the pair
  have hperm : (holders (pre ++ post ++ [.toXapp .controlAcknowledge y])
      (y :: ric.removing)).Perm
      (holders (pre ++ .toRic .controlAcknowledge ricId y :: post) ric.removing) := by
    refine (holders_concat_perm _ _ _).trans ?_
    exact List.perm_middle.trans
      (holders_perm (.toRic .controlAcknowledge ricId y) pre post ric.removing).symm
  refine ⟨h.map, hperm.nodup_iff.mpr h.nodup, ?_, ?_, h.applied_shape⟩
  · intro m hm
    rcases List.mem_append.mp hm with hm | hm
    · exact h.messages m (mem_delivered hm)
    · rw [List.mem_singleton.mp hm]
      exact happlied
  · intro z hz
    exact h.shape z (hperm.mem_iff.mp hz)

/-- A pair is removed from the map of the iApp. -/
theorem MailInv.remove (h : MailInv ric mail applied) {map : MapRicId Node}
    (hx : x ∈ ric.removing) (hrm : ric.mapRicId.rm x = some map) :
    MailInv { ric with mapRicId := map, removing := ric.removing.erase x } mail applied := by
  obtain ⟨hmap, hent⟩ := h.map.rm hrm
  have hsub : (holders mail (ric.removing.erase x)).Sublist (holders mail ric.removing) :=
    List.Sublist.append_left List.erase_sublist _
  -- no message on its way belongs to the removed pair
  have hopen : ∀ {m y k}, m ∈ mail → m.holder = some y → OpenAs ric.mapRicId y k →
      OpenAs map y k := by
    intro m y k hm hy hopen
    obtain ⟨n, hmem, hk⟩ := hopen
    have hne : y ≠ x := by
      have hmail : y ∈ mail.filterMap Message.holder := List.mem_filterMap.mpr ⟨m, hm, hy⟩
      exact fun heq => (List.nodup_append.mp h.nodup).2.2 y hmail x hx heq
    refine ⟨n, ?_, hk⟩
    rw [hent]
    exact List.mem_filter.mpr ⟨hmem, by simpa using hne⟩
  refine ⟨hmap, h.nodup.sublist hsub, ?_, fun y hy => h.shape y (hsub.subset hy),
    h.applied_shape⟩
  intro m hm
  have hold := h.messages m hm
  cases m with
  | request =>
    intro e he
    rw [hent] at he
    exact hold e (List.mem_of_mem_filter he)
  | toNode => exact hopen hm rfl hold
  | toRic => exact ⟨hold.1, hold.2.1, hopen hm rfl hold.2.2⟩
  | toXapp => exact hold

/-- An answer reaches its xApp. -/
theorem MailInv.lookUp {kind : Answer} {y : XappRicId}
    (h : MailInv ric (pre ++ .toXapp kind y :: post) applied) :
    (y, true) ∈ applied ∧ MailInv ric (pre ++ post) applied := by
  have hperm := holders_perm (.toXapp kind y) pre post ric.removing
  refine ⟨h.messages (.toXapp kind y) (by simp), h.map, hperm.nodup_iff.mp h.nodup, ?_, ?_,
    h.applied_shape⟩
  · intro m hm
    exact h.messages m (mem_delivered hm)
  · intro z hz
    exact h.shape z (hperm.mem_iff.mpr hz)

/-! ### The requests that are known to the iApp -/

theorem Known.of_send {node : Node} {msg : CtrlMsgFrmt1} {z : XappRicId}
    (h : Known ric (mail ++ [.request x node msg]) z) : z = x ∨ Known ric mail z := by
  rcases h with h | h
  · have hmem := (holders_concat_perm (.request x node msg) mail ric.removing).mem_iff.mp h
    rcases List.mem_cons.mp hmem with h | h
    · exact .inl h
    · exact .inr (.inl h)
  · exact .inr (.inr h)

theorem Known.of_forward [BEq Node] (hwf : ric.mapRicId.WellFormed) {node : Node}
    {msg : CtrlMsgFrmt1} {newId : ℕ} {ricId : RicGenId} {z : XappRicId}
    (hreq : ric.handleControlRequest node x = some (newId, ric'))
    (h : Known ric' (pre ++ post ++ [.toNode ricId node msg x]) z) :
    Known ric (pre ++ .request x node msg :: post) z := by
  obtain ⟨-, -, -, rfl⟩ := NearRic.handleRequest_eq_some_iff.mp hreq
  have hholders := holders_replace (d := .request x node msg) (m := .toNode ricId node msg x) rfl
    pre post ric.removing
  rcases h with h | ⟨n, h⟩
  · exact .inl (hholders.mem_iff.mp h)
  · rcases List.mem_cons.mp ((NearRic.perm_insert_map hwf).mem_iff.mp h) with h | h
    · left
      rw [(Prod.mk.inj h).2, (holders_perm _ pre post ric.removing).mem_iff]
      exact List.mem_cons_self ..
    · exact .inr ⟨n, h⟩

theorem Known.of_replace {d m : Message Node} (hholder : m.holder = d.holder)
    (h : Known ric (pre ++ post ++ [m]) x) : Known ric (pre ++ d :: post) x := by
  rcases h with h | h
  · exact .inl ((holders_replace hholder pre post ric.removing).mem_iff.mp h)
  · exact .inr h

theorem Known.of_answer {kind : Answer} {ricId : RicGenId} {y z : XappRicId}
    (h : Known { ric with removing := x :: ric.removing } (pre ++ post ++ [.toXapp kind y]) z) :
    Known ric (pre ++ .toRic kind ricId x :: post) z := by
  rcases h with h | h
  · have hmem :=
      (holders_concat_perm (.toXapp kind y) (pre ++ post) (x :: ric.removing)).mem_iff.mp h
    left
    rw [(holders_perm (.toRic kind ricId x) pre post ric.removing).mem_iff]
    have hmiddle : (holders (pre ++ post) (x :: ric.removing)).Perm
        (x :: holders (pre ++ post) ric.removing) := List.perm_middle
    exact hmiddle.mem_iff.mp hmem
  · exact .inr h

theorem Known.of_remove {map : MapRicId Node} (hmap : NearRic.MapInv ric.mapRicId)
    (hrm : ric.mapRicId.rm x = some map) {z : XappRicId}
    (h : Known { ric with mapRicId := map, removing := ric.removing.erase x } mail z) :
    Known ric mail z := by
  rcases h with h | ⟨n, h⟩
  · left
    exact (List.Sublist.append_left List.erase_sublist _).subset h
  · right
    rw [(hmap.rm hrm).2] at h
    exact ⟨n, List.mem_of_mem_filter h⟩

theorem Known.of_lookUp {d : Message Node} (h : Known ric (pre ++ post) x) :
    Known ric (pre ++ d :: post) x := by
  rcases h with h | h
  · left
    rw [(holders_perm d pre post ric.removing).mem_iff]
    exact List.mem_append_right _ h
  · exact .inr h

end Mail

/-! ### The invariant of an xApp -/

section Xapp

variable {Node : Type}

/-- The request with a key of an xApp has been accepted. -/
def Accepted (applied : List (XappRicId × Bool)) (xapp key : ℕ) : Prop :=
  (⟨ctrlRicId key, xapp⟩, true) ∈ applied

/-- A signal that has been given or is about to be given stands for an accepted request. -/
def Backed (applied : List (XappRicId × Bool)) (xapp key : ℕ) (u : ControlXapp Node) : Prop :=
  (∀ j, u.signalling = some j → Accepted applied xapp key) ∧
    (u.msgAck = true → Accepted applied xapp key)

/-- The invariant of an xApp: the call in progress is the only active procedure, and once the flag
is prepared it is raised only for this call. -/
def XappInv (applied : List (XappRicId × Bool)) (xapp : ℕ) (u : ControlXapp Node) : Prop :=
  match u.user with
  | .idle => u.actProc = []
  | .registered key _ _ => u.actProc = [key] ∧ u.keyId = key + 1
  | .prepared key _ _ => u.actProc = [key] ∧ u.keyId = key + 1 ∧ Backed applied xapp key u
  | .waiting key => u.actProc = [key] ∧ Backed applied xapp key u
  | .returning key ok => u.actProc = [key] ∧ (ok = true → Accepted applied xapp key)

/-- The first key whose request has not been sent. -/
def ControlXapp.unsent (u : ControlXapp Node) : ℕ :=
  match u.user with
  | .registered key _ _ | .prepared key _ _ => key
  | .idle | .waiting _ | .returning _ _ => u.keyId

variable {applied : List (XappRicId × Bool)} {xapp key : ℕ} {u : ControlXapp Node} {node : Node}
  {msg : CtrlMsgFrmt1}

theorem XappInv.mono {applied' : List (XappRicId × Bool)} (h : XappInv applied xapp u)
    (hsub : applied ⊆ applied') : XappInv applied' xapp u := by
  unfold XappInv at h ⊢
  cases hu : u.user with
  | idle => simpa [hu] using h
  | registered => simpa [hu] using h
  | prepared =>
    simp only [hu] at h ⊢
    exact ⟨h.1, h.2.1, fun j hj => hsub (h.2.2.1 j hj), fun hack => hsub (h.2.2.2 hack)⟩
  | waiting =>
    simp only [hu] at h ⊢
    exact ⟨h.1, fun j hj => hsub (h.2.1 j hj), fun hack => hsub (h.2.2 hack)⟩
  | returning =>
    simp only [hu] at h ⊢
    exact ⟨h.1, fun hok => hsub (h.2 hok)⟩

theorem XappInv.register (h : XappInv applied xapp u) (hu : u.user = .idle) :
    XappInv applied xapp (u.register node msg) := by
  simp only [XappInv, hu] at h
  simp [XappInv, ControlXapp.register, h]

theorem XappInv.prepare (h : XappInv applied xapp u) (hu : u.user = .registered key node msg)
    (hnone : u.signalling = none) :
    XappInv applied xapp { u.prepareSyncUi with user := .prepared key node msg } := by
  simp only [XappInv, hu] at h
  simp [XappInv, ControlXapp.prepareSyncUi, Backed, hnone, h]

theorem XappInv.send (h : XappInv applied xapp u) (hu : u.user = .prepared key node msg) :
    XappInv applied xapp ({ u with user := .waiting key } : ControlXapp Node) := by
  simp only [XappInv, hu] at h
  exact ⟨h.1, h.2.2⟩

/-- A signal needs no answer for another request than the one in progress: the look-up has found the
key among the active procedures. -/
theorem XappInv.findActProc (h : XappInv applied xapp u) (hkey : Accepted applied xapp key) :
    XappInv applied xapp (u.findActProc key) := by
  unfold ControlXapp.findActProc
  split_ifs with hmem
  · unfold XappInv at h ⊢
    cases hu : u.user with
    | idle => simpa [hu] using h
    | registered => simpa [hu] using h
    | prepared key' node msg =>
      -- the only active procedure is the call in progress
      simp only [hu] at h ⊢
      rw [h.1, List.mem_singleton] at hmem
      subst hmem
      exact ⟨h.1, h.2.1, fun _ _ => hkey, h.2.2.2⟩
    | waiting key' =>
      simp only [hu] at h ⊢
      rw [h.1, List.mem_singleton] at hmem
      subst hmem
      exact ⟨h.1, fun _ _ => hkey, h.2.2⟩
    | returning => simpa [hu] using h
  · exact h

theorem XappInv.handleAnswer (h : XappInv applied xapp u) (hkey : Accepted applied xapp key)
    (kind : Answer) : XappInv applied xapp (u.handleAnswer key kind) := by
  cases kind with
  | controlAcknowledge => exact h.findActProc hkey
  | controlFailure => exact h.findActProc hkey
  | subscriptionResponse => exact h
  | subscriptionDeleteResponse => exact h
  | indication => exact h

theorem XappInv.signal (h : XappInv applied xapp u) (hsignal : u.signalling = some key) :
    XappInv applied xapp u.signalSyncUi := by
  unfold XappInv ControlXapp.signalSyncUi at *
  cases hu : u.user with
  | idle => simpa [hu] using h
  | registered => simpa [hu] using h
  | prepared =>
    simp only [hu] at h ⊢
    refine ⟨h.1, h.2.1, ?_, fun _ => h.2.2.1 key hsignal⟩
    intro j hj
    cases hj
  | waiting =>
    simp only [hu] at h ⊢
    refine ⟨h.1, ?_, fun _ => h.2.1 key hsignal⟩
    intro j hj
    cases hj
  | returning => simpa [hu] using h

theorem XappInv.wakeUp (h : XappInv applied xapp u) (hu : u.user = .waiting key) :
    XappInv applied xapp ({ u with user := .returning key u.msgAck } : ControlXapp Node) := by
  simp only [XappInv, hu] at h
  exact ⟨h.1, h.2.2⟩

theorem XappInv.timeOut (h : XappInv applied xapp u) (hu : u.user = .waiting key) :
    XappInv applied xapp ({ u with user := .returning key false } : ControlXapp Node) := by
  simp only [XappInv, hu] at h
  refine ⟨h.1, ?_⟩
  intro hfalse
  cases hfalse

theorem XappInv.finish (h : XappInv applied xapp u) {ok : Bool}
    (hu : u.user = .returning key ok) :
    XappInv applied xapp
        ({ u with user := .idle, actProc := u.actProc.erase key } : ControlXapp Node) ∧
      (ok = true → Accepted applied xapp key) := by
  simp only [XappInv, hu] at h
  simp only [XappInv, h.1, List.erase_cons_head, true_and]
  exact h.2

end Xapp

/-! ### The invariant of the chain -/

namespace ControlChain

variable {Node : Type} {s t : ControlChain Node}

/-- The invariant along orderly runs. -/
structure ChainInv (s : ControlChain Node) : Prop where
  mail : MailInv s.ric s.mail s.applied
  /-- The iApp knows only requests that have been sent. -/
  numbered : ∀ x, Known s.ric s.mail x → x.ricId.ricReqId < (s.xapps x.xappId).unsent
  xapps : ∀ xapp, XappInv s.applied xapp (s.xapps xapp)
  honest : s.Honest

theorem Initial.chainInv (h : s.Initial) : ChainInv s := by
  have hholders : holders s.mail s.ric.removing = [] := by
    rw [h.mail, h.removing]
    rfl
  have hentries : s.ric.mapRicId.left.entries = [] := by
    rw [h.mapRicId]
    rfl
  constructor
  · refine ⟨h.mapRicId ▸ NearRic.mapInv_empty, ?_, ?_, ?_, ?_⟩
    · rw [hholders]
      exact .nil
    · rw [h.mail]
      exact fun _ hm => (List.not_mem_nil hm).elim
    · rw [hholders]
      exact fun _ hx => (List.not_mem_nil hx).elim
    · rw [h.applied]
      exact fun _ he => (List.not_mem_nil he).elim
  · intro x hx
    rcases hx with hx | ⟨n, hx⟩
    · rw [hholders] at hx
      exact (List.not_mem_nil hx).elim
    · rw [hentries] at hx
      exact (List.not_mem_nil hx).elim
  · intro xapp
    rw [h.xapps]
    rfl
  · intro x hx
    rw [h.returned] at hx
    exact (List.not_mem_nil hx).elim

/-- A step of one xApp that sends nothing. -/
theorem ChainInv.setXapp (h : ChainInv s) {xapp : ℕ} {u : ControlXapp Node}
    (hunsent : u.unsent = (s.xapps xapp).unsent) (hu : XappInv s.applied xapp u) :
    ChainInv (s.setXapp xapp u) := by
  refine ⟨h.mail, ?_, ?_, h.honest⟩
  · intro x hx
    have hlt := h.numbered x hx
    by_cases heq : x.xappId = xapp
    · simp only [ControlChain.setXapp, heq, Function.update_self] at hlt ⊢
      omega
    · simpa only [ControlChain.setXapp, Function.update_of_ne heq] using hlt
  · intro xapp'
    by_cases heq : xapp' = xapp
    · subst heq
      simpa only [ControlChain.setXapp, Function.update_self] using hu
    · simpa only [ControlChain.setXapp, Function.update_of_ne heq] using h.xapps xapp'

/-- A step on the RIC's side. -/
theorem ChainInv.setMail (h : ChainInv s) {ric : NearRic Node} {mail : List (Message Node)}
    {applied : List (XappRicId × Bool)} {nrmac : Node → Option SliceState}
    (hmail : MailInv ric mail applied) (hknown : ∀ x, Known ric mail x → Known s.ric s.mail x)
    (hsub : s.applied ⊆ applied) :
    ChainInv { s with ric := ric, mail := mail, applied := applied, nrmac := nrmac } :=
  ⟨hmail, fun x hx => h.numbered x (hknown x hx), fun xapp => (h.xapps xapp).mono hsub,
    fun x hx => hsub (h.honest x hx)⟩

theorem ChainInv.send (h : ChainInv s) {xapp key : ℕ} {node : Node} {msg : CtrlMsgFrmt1}
    (hu : (s.xapps xapp).user = .prepared key node msg) :
    ChainInv { s.setXapp xapp { s.xapps xapp with user := .waiting key } with
      mail := s.mail ++ [.request ⟨ctrlRicId key, xapp⟩ node msg] } := by
  have hxapp := h.xapps xapp
  have hunsent : (s.xapps xapp).unsent = key := by
    rw [ControlXapp.unsent, hu]
  have hkey : (s.xapps xapp).keyId = key + 1 := by
    simp only [XappInv, hu] at hxapp
    exact hxapp.2.1
  -- the key has not been used, so the iApp does not know the request
  have hnew : ¬ Known s.ric s.mail ⟨ctrlRicId key, xapp⟩ := by
    intro hknown
    have hlt : key < (s.xapps xapp).unsent := h.numbered _ hknown
    omega
  refine ⟨h.mail.send rfl hnew, ?_, ?_, h.honest⟩
  · intro x hx
    by_cases heq : x.xappId = xapp
    · simp only [ControlChain.setXapp, heq, Function.update_self, ControlXapp.unsent, hkey]
      rcases hx.of_send with rfl | hx
      · exact Nat.lt_succ_self _
      · have hlt := h.numbered x hx
        rw [heq, hunsent] at hlt
        omega
    · rcases hx.of_send with rfl | hx
      · exact absurd rfl heq
      · simpa only [ControlChain.setXapp, Function.update_of_ne heq] using h.numbered x hx
  · intro xapp'
    by_cases heq : xapp' = xapp
    · subst heq
      simpa only [ControlChain.setXapp, Function.update_self] using hxapp.send hu
    · simpa only [ControlChain.setXapp, Function.update_of_ne heq] using h.xapps xapp'

theorem ChainInv.finish (h : ChainInv s) {xapp key : ℕ} {ok : Bool}
    (hu : (s.xapps xapp).user = .returning key ok) :
    ChainInv { s.setXapp xapp
        { s.xapps xapp with user := .idle, actProc := (s.xapps xapp).actProc.erase key } with
      returned := s.returned ++ [(⟨ctrlRicId key, xapp⟩, ok)] } := by
  obtain ⟨hxapp, hok⟩ := (h.xapps xapp).finish hu
  have hset := h.setXapp (by simp only [ControlXapp.unsent, hu]) hxapp
  -- only the result of this call is new
  refine ⟨hset.mail, hset.numbered, hset.xapps, ?_⟩
  intro x hx
  rcases List.mem_append.mp hx with hx | hx
  · exact h.honest x hx
  · obtain ⟨rfl, rfl⟩ := Prod.mk.inj (List.mem_singleton.mp hx)
    exact hok rfl

theorem ChainInv.lookUp (h : ChainInv s) {pre post : List (Message Node)} {kind : Answer}
    {y : XappRicId} (hmail : s.mail = pre ++ .toXapp kind y :: post) :
    ChainInv { s.setXapp y.xappId
        ((s.xapps y.xappId).handleAnswer y.ricId.ricReqId kind) with mail := pre ++ post } := by
  obtain ⟨happlied, hrest⟩ := (hmail ▸ h.mail).lookUp
  -- an answer on its way to an xApp stands for an accepted request
  have hkey : Accepted s.applied y.xappId y.ricId.ricReqId := by
    have hshape : y.ricId = ctrlRicId y.ricId.ricReqId := h.mail.applied_shape _ happlied
    rw [Accepted, ← hshape]
    exact happlied
  have hunsent : ((s.xapps y.xappId).handleAnswer y.ricId.ricReqId kind).unsent =
      (s.xapps y.xappId).unsent := by
    have hfind : ((s.xapps y.xappId).findActProc y.ricId.ricReqId).unsent =
        (s.xapps y.xappId).unsent := by
      unfold ControlXapp.findActProc
      split_ifs <;> rfl
    cases kind with
    | controlAcknowledge => exact hfind
    | controlFailure => exact hfind
    | subscriptionResponse => rfl
    | subscriptionDeleteResponse => rfl
    | indication => rfl
  have hset := h.setXapp hunsent ((h.xapps y.xappId).handleAnswer hkey kind)
  refine ⟨hrest, ?_, hset.xapps, h.honest⟩
  intro x hx
  apply hset.numbered x
  change Known s.ric s.mail x
  rw [hmail]
  exact hx.of_lookUp

variable [DecidableEq Node]

/-- Every orderly step keeps the invariant. -/
theorem ChainInv.step (h : ChainInv s) {a : ChainLabel Node} (hstep : ChainStep a s t)
    (horderly : Orderly a s) : ChainInv t := by
  cases hstep with
  -- the thread that calls: its own state changes, the RIC's side does not
  | register hu hlt =>
    refine h.setXapp ?_ ((h.xapps _).register hu)
    simp only [ControlXapp.unsent, ControlXapp.register, hu]
  | prepare hu =>
    refine h.setXapp ?_ ((h.xapps _).prepare hu horderly)
    simp only [ControlXapp.unsent, hu]
  | send hu => exact h.send hu
  -- the RIC's side: no request becomes known that was not sent
  | forward hmail hreq =>
    have hinv := hmail ▸ h.mail
    refine h.setMail (hinv.forward hreq) ?_ (List.Subset.refl _)
    intro x hx
    rw [hmail]
    exact Known.of_forward h.mail.map.wellFormed hreq hx
  | @control _ pre post ricId node msg x kind ok nrmac hmail hagent =>
    -- an orderly control is accepted, so its acknowledgement tells the truth
    have hinv := hmail ▸ h.mail
    obtain ⟨nrmac', happly⟩ := horderly
    rw [handleControlRequestAgent, happly] at hagent
    cases hagent
    refine h.setMail hinv.control ?_ (List.subset_append_left _ _)
    intro y hy
    rw [hmail]
    exact Known.of_replace (m := .toRic .controlAcknowledge ricId x) rfl hy
  | fail => exact horderly.elim
  | answer hmail hanswer =>
    obtain ⟨rfl, rfl, hinv⟩ := (hmail ▸ h.mail).answer hanswer
    refine h.setMail hinv ?_ (List.Subset.refl _)
    intro x hx
    rw [hmail]
    exact hx.of_answer
  | remove hx hrm =>
    refine h.setMail (h.mail.remove hx hrm) ?_ (List.Subset.refl _)
    intro z hz
    exact hz.of_remove h.mail.map hrm
  | lookUp hmail _ => exact h.lookUp hmail
  -- the event loop and the return of the call
  | signal hsignal => exact h.setXapp rfl ((h.xapps _).signal hsignal)
  | wakeUp hu _ =>
    refine h.setXapp ?_ ((h.xapps _).wakeUp hu)
    simp only [ControlXapp.unsent, hu]
  | timeOut hu =>
    refine h.setXapp ?_ ((h.xapps _).timeOut hu)
    simp only [ControlXapp.unsent, hu]
  | finish hu _ => exact h.finish hu

/-- In every state of an orderly run, a call has reported success only if the gNB has accepted this
very request. -/
theorem honest_of_orderly (tr : List (ChainLabel Node)) (s : ControlChain Node)
    (hrun : OrderlyRun tr s) : s.Honest := by
  have hinv : ChainInv s := by
    refine hrun.invariant ?_ ?_
    · intro s hs
      exact hs.chainInv
    · intro a s t hs hstep
      exact hs.step hstep.1 hstep.2
  exact hinv.honest

/-- One call of an xApp, from beginning to end. -/
def oneCall (msg : CtrlMsgFrmt1) : List (ChainLabel ℕ) :=
  [.register 7, .prepare 7, .send 7, .forward ⟨ctrlRicId 1, 7⟩, .control 0 msg,
    .answer .controlAcknowledge, .lookUp ⟨ctrlRicId 1, 7⟩, .signal 7, .wakeUp 7, .finish 7]

/-- One xApp and one gNB. -/
def oneGnb : ControlChain ℕ where
  xapps := fun _ => .init
  ric := ⟨.empty, [0], 8, 1021, []⟩
  nrmac := fun _ => some .initial
  mail := []
  applied := []
  returned := []

theorem initial_oneGnb : oneGnb.Initial := ⟨rfl, rfl, rfl, rfl, rfl, rfl⟩

/-- Whatever the gNB decides, the call reports success. -/
theorem reach_oneCall (strict : Prop) {msg : CtrlMsgFrmt1} {ok : Bool} {nrmac : Option SliceState}
    (happly : applyRcCtrlStyle2SliceLevelPrbQuota (some .initial) (some msg) = .done (ok, nrmac))
    (hok : strict → ok = true) :
    ∃ s, Run.Reach (fun a s t => ChainStep a s t ∧ (strict → Orderly a s)) Initial (oneCall msg) s ∧
      s.applied = [(⟨ctrlRicId 1, 7⟩, ok)] ∧ s.returned = [(⟨ctrlRicId 1, 7⟩, true)] := by
  have hagent : handleControlRequestAgent (some .initial) msg =
      .done (.controlAcknowledge, ok, nrmac) := by
    rw [handleControlRequestAgent, happly]
  have hstart : Run.Reach (fun a s t => ChainStep a s t ∧ (strict → Orderly a s)) Initial []
      oneGnb := .start initial_oneGnb
  have hregistered := hstart.step (a := ChainLabel.register 7)
    (t := oneGnb.setXapp 7 ((oneGnb.xapps 7).register 0 msg))
    ⟨.register rfl (by decide), fun _ => trivial⟩
  have hprepared := hregistered.step (a := ChainLabel.prepare 7) ⟨.prepare rfl, fun _ => rfl⟩
  have hsent := hprepared.step (a := ChainLabel.send 7) ⟨.send rfl, fun _ => trivial⟩
  have hforwarded := hsent.step (a := ChainLabel.forward ⟨ctrlRicId 1, 7⟩)
    ⟨.forward (List.nil_append _).symm rfl, fun _ => trivial⟩
  have hcontrolled := hforwarded.step (a := ChainLabel.control 0 msg)
    ⟨.control (List.nil_append _).symm hagent, fun hs => ⟨nrmac, hok hs ▸ happly⟩⟩
  have hanswered := hcontrolled.step (a := ChainLabel.answer .controlAcknowledge)
    ⟨.answer (List.nil_append _).symm rfl, fun _ => trivial⟩
  have hfound := hanswered.step (a := ChainLabel.lookUp ⟨ctrlRicId 1, 7⟩)
    ⟨.lookUp (List.nil_append _).symm rfl, fun _ => trivial⟩
  have hsignalled := hfound.step (a := ChainLabel.signal 7) ⟨.signal rfl, fun _ => trivial⟩
  have hwoken := hsignalled.step (a := ChainLabel.wakeUp 7) ⟨.wakeUp rfl rfl, fun _ => trivial⟩
  have hreturned := hwoken.step (a := ChainLabel.finish 7)
    ⟨.finish rfl (List.mem_singleton.mpr rfl), fun _ => trivial⟩
  exact ⟨_, hreturned, rfl, rfl⟩

/-- A control without policies, which the gNB accepts. -/
def clearingMsg : CtrlMsgFrmt1 := ⟨.elems [.mk rrmPolicyRatioListId (.lst (some (.elems [])))]⟩

/-- A control without parameters, which the gNB refuses. -/
def emptyMsg : CtrlMsgFrmt1 := ⟨.elems []⟩

theorem honest_oneCall :
    ∃ s, OrderlyRun (oneCall clearingMsg) s ∧ s.returned = [(⟨ctrlRicId 1, 7⟩, true)] ∧
      s.Honest := by
  have happly : applyRcCtrlStyle2SliceLevelPrbQuota (some .initial) (some clearingMsg) =
      .done (true, _) := rfl
  obtain ⟨s, hs, -, hreturned⟩ := reach_oneCall True happly fun _ => rfl
  have hrun : OrderlyRun (oneCall clearingMsg) s :=
    hs.mono fun _ _ _ hstep => ⟨hstep.1, hstep.2 trivial⟩
  exact ⟨s, hrun, hreturned, honest_of_orderly _ _ hrun⟩

/-- A control that the gNB refuses is acknowledged, and the call reports success. -/
theorem not_honest_oneCall :
    ∃ s, ChainRun (oneCall emptyMsg) s ∧ s.applied = [(⟨ctrlRicId 1, 7⟩, false)] ∧
      s.returned = [(⟨ctrlRicId 1, 7⟩, true)] ∧ ¬ s.Honest := by
  have happly : applyRcCtrlStyle2SliceLevelPrbQuota (some .initial) (some emptyMsg) =
      .done (false, _) := rfl
  obtain ⟨s, hs, happlied, hreturned⟩ := reach_oneCall False happly False.elim
  refine ⟨s, hs.mono fun _ _ _ hstep => hstep.1, happlied, hreturned, ?_⟩
  intro hhonest
  have hmem := hhonest ⟨ctrlRicId 1, 7⟩ (by rw [hreturned]; exact List.mem_singleton_self _)
  rw [happlied] at hmem
  cases List.mem_singleton.mp hmem

end ControlChain

end LlmHric.Flexric
