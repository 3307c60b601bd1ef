import DModem.Lib.Chain
import DModem.Lib.Bits
import DModem.Lib.Ring
import DModem.Lib.GoBackN
import DModem.Lib.Scan
import DModem.Lib.CString
import DModem.Lib.Crc
import DModem.Lib.Distance
import DModem.Lib.Agenda
import DModem.Comp.Dict
import DModem.Comp.DictWf
import DModem.Comp.DictAdd
import DModem.Comp.Codec
import DModem.Comp.Matcher
import DModem.Comp.Decoder
import DModem.Comp.Stream
import DModem.Comp.Codeword
import DModem.Comp.Link
import DModem.Comp.Sync
import DModem.Comp.Encoder
import DModem.Comp.RoundTrip
import DModem.Comp.Safety
import DModem.Comp.Config
import DModem.Comp.Renegotiate
import DModem.Comp.Flush
import DModem.Comp.Terminal
import DModem.Comp.Tree
import DModem.Comp.Poll
import DModem.Comp.Chunks
import DModem.Comp.Emission
import DModem.Comp.GetChars
import DModem.Comp.Path
import DModem.Hdlc.Packer
import DModem.Hdlc.Transmit
import DModem.Hdlc.Receive
import DModem.Hdlc.RoundTrip
import DModem.Hdlc.SelfSync
import DModem.Hdlc.Genuine
import DModem.Hdlc.Fcs
import DModem.Hdlc.Distance
import DModem.Hdlc.Carry
import DModem.Async.RoundTrip
import DModem.Audio.Exchange
import DModem.Audio.Adjust
import DModem.Audio.Framing
import DModem.Modem.State
import DModem.Modem.Status
import DModem.Modem.Xid
import DModem.Modem.Lapm
import DModem.Modem.Effects
import DModem.Modem.Outer
import DModem.Modem.Control
import DModem.Modem.Packer
import DModem.Modem.Waiting
import DModem.Modem.Window
import DModem.Modem.Receive
import DModem.Modem.Acknowledge
import DModem.Modem.Rest
import DModem.Modem.Run
import DModem.Modem.Xmit
import DModem.Modem.Panel
import DModem.Modem.WriteRule
import DModem.Modem.StepRule
import DModem.Modem.Tty
import DModem.Modem.CommandLine
import DModem.Modem.Repeat
import DModem.Modem.EscapeTime
import DModem.Modem.Idle
import DModem.Modem.SampleTimer
import DModem.Modem.Pointers
import DModem.Modem.Connect
import DModem.Modem.Negotiate
import DModem.Modem.XidScan
import DModem.Modem.Overrun
import DModem.Modem.FrameSizes
import DModem.Modem.Retransmit
import DModem.Modem.Detect
import DModem.Modem.Cause
import DModem.At.Command
import DModem.At.Dispatch
import DModem.At.Inside
import DModem.At.Bounds
import DModem.At.Sregs
import DModem.At.Modulation
import DModem.At.Voice
import DModem.Main.Options
import DModem.At.Compose
import DModem.At.Settings
import DModem.At.Dial
import DModem.Lapm.Endpoint
import DModem.Lapm.Operations
import DModem.Lapm.Handlers
import DModem.Lapm.Delivery
import DModem.Lapm.Traffic
import DModem.Lapm.Text
import DModem.Lapm.Wire
import DModem.Lapm.Cable
import DModem.Lapm.Establish
import DModem.Lapm.Opening
import DModem.Modem.InFlight
import DModem.Modem.Hangup
import DModem.Modem.Residue
import DModem.Modem.Timers
import DModem.Modem.Accumulators
import DModem.Async.Call
import DModem.Modem.Silence
import DModem.Modem.Agreement
import DModem.Modem.AutoAnswer
import DModem.Modem.Results
import DModem.Modem.OneResult
