import UserFace800.Lib.Run
import UserFace800.Lib.Cursor
import UserFace800.Lib.Writes
import UserFace800.Lib.SortedMap
import UserFace800.Lib.Logged
import UserFace800.Lib.Files
import UserFace800.Lib.FrameQueue
import UserFace800.Audio.Ring
import UserFace800.Audio.SlotQueue
import UserFace800.Audio.TxFill
import UserFace800.Audio.Playback
import UserFace800.Audio.CapturePath
import UserFace800.Protocol.Registers
import UserFace800.Protocol.Codec
import UserFace800.Mixer.Model
import UserFace800.Mixer.Render
import UserFace800.Control.Proto
import UserFace800.Control.Queue
import UserFace800.Control.Daemon
import UserFace800.Control.Drain
import UserFace800.Control.Contain
import UserFace800.Control.Converge
import UserFace800.Clock.ZeroTimeStamp
import UserFace800.Store.Saver
import UserFace800.Dext.BusReset
import UserFace800.Dext.MidiIn
import UserFace800.Dext.Transactions
import UserFace800.Dext.Iso
import UserFace800.Dext.Capture
import UserFace800.Dext.TransmitRing
import UserFace800.Dext.CaptureRing
import UserFace800.Dext.HandBack
import UserFace800.Session.Rate
import UserFace800.Session.Cycles
import UserFace800.Clock.Seed
import UserFace800.Lib.Seqlock
import UserFace800.Shared.Seqlocks
import UserFace800.Control.Wire
import UserFace800.Control.Server
import UserFace800.Control.Locations
import UserFace800.Mixer.Persist
import UserFace800.Control.Streams
import UserFace800.Control.Bounds
import UserFace800.Control.Restart
import UserFace800.Control.Lost
import UserFace800.Control.Lag
import UserFace800.Dext.MidiReplay
import UserFace800.Dext.Power
import UserFace800.Session.TxPacing
import UserFace800.Session.Servo
import UserFace800.Clock.Locked
import UserFace800.Audio.Meters
import UserFace800.Session.Missed
import UserFace800.Audio.Underrun
import UserFace800.Store.Load
import UserFace800.Dext.Walkers
import UserFace800.Lib.Bresenham
import UserFace800.Session.Cadence
import UserFace800.Signal.Encoding
import UserFace800.Signal.Analyse
import UserFace800.Signal.Faults
import UserFace800.Dext.ConfigRom
import UserFace800.Lib.Bits
import UserFace800.Dext.SelfId
import UserFace800.Lib.Buffer
import UserFace800.Audio.PcmPacket
import UserFace800.Dext.AtHeader
import UserFace800.Signal.Wav
import UserFace800.Session.MidiOut
import UserFace800.Audio.ShmMapper
import UserFace800.Audio.Attach
import UserFace800.Control.ClockRequests
import UserFace800.Dext.Dma
import UserFace800.Dext.DmaRings
import UserFace800.Lib.Pacing
import UserFace800.Session.Recovery
import UserFace800.Session.Wake
import UserFace800.Lib.Script
import UserFace800.Session.Order
import UserFace800.Dext.HostRom
