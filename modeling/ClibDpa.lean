import ClibDpa.Lib.Machine
import ClibDpa.Message
import ClibDpa.Result
import ClibDpa.Timing
import ClibDpa.Transaction
import ClibDpa.Execution
import ClibDpa.Success
import ClibDpa.Final
import ClibDpa.Abort
import ClibDpa.Lib.Fifo
import ClibDpa.TaskQueue
import ClibDpa.Dispatch
import ClibDpa.Handler
import ClibDpa.HandlerStep
import ClibDpa.Serial
import ClibDpa.Early
import ClibDpa.Overload
import ClibDpa.Iface
import ClibDpa.Crash
import ClibDpa.Deliver
import ClibDpa.Truncated
import ClibDpa.Stale
import ClibDpa.Foreign
import ClibDpa.Get
import ClibDpa.Channel
import ClibDpa.Services
import ClibDpa.Callers
import ClibDpa.Orphan
import ClibDpa.Shutdown
import ClibDpa.OwnBytes
import ClibDpa.Route
import ClibDpa.Endless
import ClibDpa.Broadcast
import ClibDpa.Durations
import ClibDpa.Estimate
import ClibDpa.ErrorString
import ClibDpa.Usable
import ClibDpa.Lib.Hex
import ClibDpa.Lib.Loop
import ClibDpa.TraceHex
import ClibDpa.Lib.Log
import ClibDpa.Spi
import ClibDpa.SpiBus
import ClibDpa.SpiSends
import ClibDpa.Lib.Progress
import ClibDpa.QueueWork
import ClibDpa.SpiReceive
import ClibDpa.SpiReturns
import ClibDpa.Drain
import ClibDpa.Clients
import ClibDpa.Gateway
import ClibDpa.GatewayWrites
import ClibDpa.GatewayReturns
import ClibDpa.Lib.Server
import ClibDpa.Serving
import ClibDpa.Lib.Config
import ClibDpa.Settings
import ClibDpa.Lib.HexTable
import ClibDpa.TraceTable
import ClibDpa.Tracer
import ClibDpa.SpiDelivers
import ClibDpa.GatewayDelivers
import ClibDpa.SpiListens
import ClibDpa.GatewaySucceeds
