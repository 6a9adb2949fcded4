import SerialMcp.Lib.Prog
import SerialMcp.Lib.Incremental
import SerialMcp.Lib.Cuts
import SerialMcp.Lib.Tasks
import SerialMcp.RxRing
import SerialMcp.Framing.Chunks
import SerialMcp.Framing.Auto
import SerialMcp.Framing.Slip
import SerialMcp.Framing.Cobs
import SerialMcp.Framing.RoundTrip
import SerialMcp.Framing.Markers
import SerialMcp.Read.Offsets
import SerialMcp.Read.Delivery
import SerialMcp.Read.Concurrent
import SerialMcp.Read.Replay
import SerialMcp.Read.Framed
import SerialMcp.Pump
import SerialMcp.Manager
import SerialMcp.Budget
import SerialMcp.Connection
import SerialMcp.Reconnect.Attempts
import SerialMcp.Reconnect.Single
import SerialMcp.Server.Requests
import SerialMcp.Profile.History
import SerialMcp.Profile.Learning
import SerialMcp.Profile.Files
import SerialMcp.Server.Close
import SerialMcp.Profile.Preview
import SerialMcp.Profile.Durable
import SerialMcp.Capture.Mark
import SerialMcp.Capture.Pulse
import SerialMcp.Captures.Quotas
import SerialMcp.Server.Listen
import SerialMcp.Framing.Lossless
import SerialMcp.Matcher.Bounded
import SerialMcp.Matcher.Lines
import SerialMcp.Read.Timing
import SerialMcp.Read.Bounds
import SerialMcp.Read.Panics
import SerialMcp.Read.Iterations
import SerialMcp.Read.Matches
import SerialMcp.Read.Counters
import SerialMcp.Framing.Presets
import SerialMcp.Server.LiveEdge
import SerialMcp.Server.Transact
import SerialMcp.Profile.Automatic
import SerialMcp.Framing.ModbusAscii
import SerialMcp.Framing.Nmea
import SerialMcp.Read.Result
import SerialMcp.Server.LineSettings
import SerialMcp.Framing.KeptMarkers
import SerialMcp.Framing.Emission
import SerialMcp.Framing.Flush
import SerialMcp.Framing.Checked
import SerialMcp.Server.PortWatcher
import SerialMcp.Profile.Names
import SerialMcp.Captures.Names
import SerialMcp.Tx.Order
import SerialMcp.Tx.Ends
import SerialMcp.Tx.Wire
import SerialMcp.Server.Uris
import SerialMcp.Server.Pages
import SerialMcp.Framing.Parsed
import SerialMcp.Server.Exchange
import SerialMcp.Server.LogTools
import SerialMcp.Server.Allowlist
import SerialMcp.Capture.Flush
import SerialMcp.Read.Wait
import SerialMcp.Server.Break
import SerialMcp.Server.Saved
import SerialMcp.Server.ReadWrite
