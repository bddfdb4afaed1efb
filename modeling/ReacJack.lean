import ReacJack.BufferLoops
import ReacJack.CircularBuffer
import ReacJack.BoundedFifo
import ReacJack.BlockLayout
import ReacJack.TransitionRuns
import ReacJack.SharedAudioSpec
import ReacJack.SharedFifo
import ReacJack.SharedLedger
import ReacJack.RingThreads
import ReacJack.RingSequential
import ReacJack.StreamHandover
import ReacJack.PipeWireThreads
import ReacJack.PipeWireCrossing
import ReacJack.PipeWireGuarantees
import ReacJack.PipeWireProgram
import ReacJack.PipeWirePlayback
import ReacJack.LinuxBridge
import ReacJack.KernelToPorts
import ReacJack.RollingWindow
import ReacJack.Meter
import ReacJack.MeteredAudio
import ReacJack.ToneStream
import ReacJack.DeviceOrder
import ReacJack.CaptureAgreement
import ReacJack.ClockBesideAudio
import ReacJack.HalSettings
import ReacJack.OptionLine
import ReacJack.StartUp
import ReacJack.PipeWireAtomic
import ReacJack.RingGuarantees
import ReacJack.DriftRegulation
import ReacJack.RegulatedRead
import ReacJack.RingLifetimes
import ReacJack.PipeWireWrap
import ReacJack.ClockGuarantees
import ReacJack.ReacWire
import ReacJack.HalTimeline
import ReacJack.CaptureLedger
import ReacJack.ClockReference
import ReacJack.DeliveredAudio
import ReacJack.JackAlignment
import ReacJack.LossAccounting
import ReacJack.PipeWireLoss
import ReacJack.SlavedRate
import ReacJack.ReaderAgreement
import ReacJack.TwoRings
import ReacJack.BridgeStates
import ReacJack.ReceivedClock
import ReacJack.PortContents
import ReacJack.DecodeWithin
import ReacJack.SlotQueue
import ReacJack.RxRing
import ReacJack.RxRingOrder
import ReacJack.FillObserver
import ReacJack.FillBounds
import ReacJack.ReportedFill
import ReacJack.Tone
import ReacJack.ToneClock
import ReacJack.ForeignFrames
import ReacJack.HalPlugin
import ReacJack.HalSessions
import ReacJack.BufferedRecords
import ReacJack.HalProperties
import ReacJack.HalObjectModel
