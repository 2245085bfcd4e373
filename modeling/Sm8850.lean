import Sm8850.Lib.Chain
import Sm8850.Ipanat.NatRuns
import Sm8850.Dsc.Wakeup
import Sm8850.Dsc.OpCounts
import Sm8850.Venus.QueueRuns
import Sm8850.Venus.ReadCalls
import Sm8850.CamSync.Callbacks
import Sm8850.CamSync.FailedMerge
import Sm8850.Serialization.Stranded
import Sm8850.Serialization.Rejected
import Sm8850.Rmnet.FlushRuns
import Sm8850.Rmnet.Deaggregate
import Sm8850.Rmnet.CoalesceAgree
import Sm8850.Kgsl.VaRuns
import Sm8850.Kgsl.UnmappedArea
import Sm8850.Kgsl.HeldRuns
import Sm8850.Kgsl.Unbind
import Sm8850.Kgsl.TimelineRuns
import Sm8850.Kgsl.TimelineQuery
import Sm8850.Mlo.AidRuns
import Sm8850.Mlo.AidRanges
import Sm8850.Crm.Locks
import Sm8850.Mlo.T2lmRoundTrip
import Sm8850.Mlo.TtlmRuns
import Sm8850.Elem.FragseqRoundTrip
import Sm8850.Mlo.LinkInfoVisits
import Sm8850.Mlo.FrameElements
import Sm8850.Htc.Conserved
import Sm8850.Htc.Balance
import Sm8850.Htc.Waiting
import Sm8850.SmEngine.Engine
import Sm8850.SmEngine.Runs
import Sm8850.Venus.Bounds
import Sm8850.Ipanat.SramSize
import Sm8850.Ipanat.FailedCalls
import Sm8850.Ipanat.Pdn
import Sm8850.Ipanat.BackToSram
import Sm8850.Ipanat.CopiedRules
import Sm8850.Ipanat.FailedSwitch
import Sm8850.Ipanat.HandleRuns
import Sm8850.Kgsl.DrawqueueRuns
import Sm8850.Kgsl.DispatcherRuns
import Sm8850.Kgsl.RetiredRuns
import Sm8850.Reo.Unseen
import Sm8850.Reo.ListOrder
import Sm8850.Rmnet.AggRoom
import Sm8850.Rmnet.CoalCopy
import Sm8850.Rmnet.CustodySpec
import Sm8850.Rmnet.AggFrames
import Sm8850.Qdf.ArrayParse
import Sm8850.Qdf.Ipv6Spec
import Sm8850.CamReq.SyncInfo
import Sm8850.CamReq.Bubble
import Sm8850.Ipanat.EntryHdl
import Sm8850.Ipanat.Checksum
import Sm8850.Rmnet.FragWords
import Sm8850.Mlo.T2lmBeacon
import Sm8850.Kgsl.EventRuns
import Sm8850.Kgsl.InflightRuns
import Sm8850.Kgsl.RecoveryPlaces
import Sm8850.Mlo.TtlmEngine
