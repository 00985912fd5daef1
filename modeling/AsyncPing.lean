import AsyncPing.Library.Machine
import AsyncPing.Library.Sequence
import AsyncPing.Library.OnesComplement
import AsyncPing.Core.Task
import AsyncPing.Core.TaskWorker
import AsyncPing.Core.WorkerSystem
import AsyncPing.Core.HttpServer
import AsyncPing.Core.ServerSystem
import AsyncPing.Core.Channel
import AsyncPing.Metatheory.WireFormat
import AsyncPing.Core.DequeueSystem
import AsyncPing.Metatheory.DequeueNodes
import AsyncPing.Metatheory.ThreadLifeCycle
import AsyncPing.Metatheory.ServerChannels
import AsyncPing.Metatheory.CountsAndTimers
import AsyncPing.Metatheory.Routing
import AsyncPing.Metatheory.HandOver
import AsyncPing.Metatheory.ResponseTruth
import AsyncPing.Metatheory.ServerCustody
import AsyncPing.Metatheory.Stranding
import AsyncPing.Core.ThreadWorker
import AsyncPing.Metatheory.RequestBody
import AsyncPing.Metatheory.PingTable
import AsyncPing.Metatheory.PayloadValidation
import AsyncPing.Metatheory.ReplyOrder
import AsyncPing.Core.JsonWriter
import AsyncPing.Metatheory.ReplyText
import AsyncPing.Metatheory.RequestText
import AsyncPing.Metatheory.Drain
import AsyncPing.Metatheory.Dispatch
import AsyncPing.Metatheory.Interleavings
