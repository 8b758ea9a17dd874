import LlmHric.Mac.SliceShares
import LlmHric.Mac.BeamReservation
import LlmHric.Mac.DlDispatch
import LlmHric.Mac.UlMacPdu
import LlmHric.Mac.UlAllocation
import LlmHric.Mac.UlDciBudget
import LlmHric.Rrc.BearerBlocks
import LlmHric.Rrc.BearerCapacity
import LlmHric.Rrc.CuUpRegistry
import LlmHric.Rrc.PcellEntry
import LlmHric.XApp.SlicePolicyFile
import LlmHric.XApp.PolicyDocument
import LlmHric.XApp.PolicySearch
import LlmHric.XApp.PolicyLoading
import LlmHric.Flexric.AgentSubscriptions
import LlmHric.Flexric.AperiodicIndication
import LlmHric.Flexric.IApp
import LlmHric.Flexric.IdConversions
import LlmHric.Flexric.ControlProcedure
import LlmHric.Flexric.PendingEvents
import LlmHric.Flexric.PublishSubscribe
import LlmHric.Flexric.NodeIdOrder
import LlmHric.Flexric.NodeRegistry
import LlmHric.E2smRc.ReportSubscriptions
import LlmHric.Rlc.TransmitOrder
import LlmHric.Rlc.ReceiveBuffer
import LlmHric.Rlc.UmGrant
import LlmHric.Rlc.UmReassembly
import LlmHric.Pdcp.EndToEnd
import LlmHric.Pdcp.ReceiveList
import LlmHric.Sdap.EndToEnd
import LlmHric.Sdap.EntityStore
import LlmHric.Sdap.FlowUpdate
import LlmHric.Gtpu.RoundTrip
import LlmHric.SliceSm.SliceDecoder
import LlmHric.SliceSm.SliceBounds
import LlmHric.Nas.ServiceResponses
import LlmHric.Nas.RegistrationAccept
import LlmHric.Rlc.StatusTermination
import LlmHric.Mac.NbRbSearch
import LlmHric.Mac.ResourceIndication
import LlmHric.Mac.FreeBlocks
import LlmHric.Library.Refinement
import LlmHric.Mac.NrListOps
import LlmHric.Mac.PdcchAllocation
import LlmHric.Library.Blocks
import LlmHric.Flexric.SeqRing
import LlmHric.Flexric.SeqArr
import LlmHric.Library.OwnedMemory
import LlmHric.Library.LinkedTrees
import LlmHric.Flexric.AssocRbTree
import LlmHric.Flexric.AssocRbLinks
import LlmHric.Flexric.AssocRbInsert
import LlmHric.Flexric.AssocRbRepair
import LlmHric.Flexric.AssocRbExtract
import LlmHric.Flexric.AssocRbIteration
import LlmHric.Flexric.AssocRbOps
import LlmHric.Flexric.AssocReg
import LlmHric.Flexric.AssocRegOps
import LlmHric.Mac.UciPucch
import LlmHric.Mac.CrntiLookahead
import LlmHric.Pdcp.RejectedPdu
import LlmHric.Rlc.StatusOutcome
import LlmHric.Gtpu.UeIdUpdate
import LlmHric.XApp.ControlLoop
import LlmHric.Common.SpscQueue
import LlmHric.Rlc.AmDelivery
