import SimplePhone.Transition.Machine
import SimplePhone.Account
import SimplePhone.Native.State
import SimplePhone.Native.Handler
import SimplePhone.Native.Workers
import SimplePhone.Native.Effects
import SimplePhone.Native.Steps
import SimplePhone.Native.Invariant
import SimplePhone.Native.Isolation
import SimplePhone.Native.SingleLine
import SimplePhone.Native.Terminal
import SimplePhone.Native.Binding
import SimplePhone.Service.State
import SimplePhone.Service.Step
import SimplePhone.Native.Line
import SimplePhone.Service.Frame
import SimplePhone.Service.Pipeline
import SimplePhone.Service.Reregister
import SimplePhone.Native.Waiting
import SimplePhone.Service.RingTimeout
import SimplePhone.Service.Audio
import SimplePhone.Service.Ringing
import SimplePhone.App.Activity
import SimplePhone.App.Step
import SimplePhone.App.Screen
import SimplePhone.Native.Proper
import SimplePhone.App.Display
import SimplePhone.Native.HandOff
import SimplePhone.Native.Registrar
import SimplePhone.Service.Lifecycle
import SimplePhone.Service.Network
import SimplePhone.Settings.Save
import SimplePhone.Service.Dialled
import SimplePhone.Native.Aim
import SimplePhone.Service.Convergence
import SimplePhone.Settings.Builders
import SimplePhone.Re.Param
import SimplePhone.Re.Uri
import SimplePhone.Baresip.Account
import SimplePhone.Settings.RoundTrip
import SimplePhone.App.Journal
import SimplePhone.App.History
import SimplePhone.Native.Dial
import SimplePhone.Native.Watchdog
import SimplePhone.Native.Timely
import SimplePhone.Native.Guarded
import SimplePhone.Native.Verdict
import SimplePhone.Native.Microphone
import SimplePhone.Service.Muting
import SimplePhone.App.Mute
import SimplePhone.Text.Kotlin
import SimplePhone.Settings.HistoryStore
import SimplePhone.App.Status
import SimplePhone.App.Timer
import SimplePhone.App.SoftKeys
import SimplePhone.App.Guide
import SimplePhone.Re.Telev
import SimplePhone.Baresip.Dtmf
import SimplePhone.App.Caller
import SimplePhone.Native.Mirror
import SimplePhone.Settings.QrEncoding
import SimplePhone.Transition.Backoff
import SimplePhone.Re.Tmr
import SimplePhone.Re.Ctrans
import SimplePhone.Re.Strans
import SimplePhone.Re.Exchange
import SimplePhone.Re.Sipreg
import SimplePhone.Transition.Channel
import SimplePhone.Re.Async
import SimplePhone.Re.TelevRecv
import SimplePhone.Baresip.DtmfHeard
import SimplePhone.Re.RtpSource
import SimplePhone.Re.Sipsess
import SimplePhone.Re.SipsessLife
import SimplePhone.Re.Sdp
import SimplePhone.Re.SdpAlign
import SimplePhone.Re.SdpText
import SimplePhone.Re.SdpExchange
import SimplePhone.Re.SdpRoundTrip
