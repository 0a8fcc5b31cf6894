import Reticulum.Rlr.Beacons
import Reticulum.Rlr.Commits
import Reticulum.Rlr.Joins
import Reticulum.Rns.Transport.Blackhole
import Reticulum.Rns.Transport.Memory
import Reticulum.Rns.Transport.Provenance
import Reticulum.Rns.Transport.Balance
import Reticulum.Rns.Tables.HashRetention
import Reticulum.Rns.Transport.RequestDedup
import Reticulum.Rns.Transport.LinkRequests
import Reticulum.Rns.Transport.PayloadLimit
import Reticulum.Rns.Transport.Freshness
import Reticulum.Rns.Transport.Overflow
import Reticulum.Rns.Transport.Waiting
import Reticulum.Rns.Transport.Handing
import Reticulum.Rns.Transport.Returns
import Reticulum.Rns.Transport.Refusals
import Reticulum.Rns.Transport.Counters
import Reticulum.Rns.Transport.EndToEnd
import Reticulum.Rns.Transport.Outdating
import Reticulum.Rns.Transport.Rebroadcast
import Reticulum.Lib.Recent
import Reticulum.Rns.Transport.LoopFree
import Reticulum.Lib.Network
import Reticulum.Rns.Transport.Retention
import Reticulum.Rns.Transport.ProofRetry
import Reticulum.Rns.Transport.Suppression
import Reticulum.Rns.Transport.Replay
import Reticulum.Rns.Transport.Responses
import Reticulum.Rns.Transport.Entries
import Reticulum.Rns.Transport.TakeIn
import Reticulum.Rns.Transport.LinkLine
import Reticulum.Rns.Transport.Delivery
import Reticulum.Rns.Transport.Propagation
import Reticulum.Rns.Transport.Line
import Reticulum.Lib.Line
import Reticulum.Lib.Window
import Reticulum.Rns.Airtime
import Reticulum.Rns.Announced
import Reticulum.Rns.Transport.Schedule
import Reticulum.Rns.Transport.Receipts
import Reticulum.Rns.Transport.Routes
import Reticulum.Rns.Transport.LinkTraffic
import Reticulum.Rns.Transport.Rerequest
import Reticulum.Rns.Transport.LinkProof
import Reticulum.Rns.Transport.Overhear
import Reticulum.Rns.Vectors
import Reticulum.Lib.Sha256
import Reticulum.Rns.Transport.Keepalive
import Reticulum.Rns.Transport.Links
import Reticulum.Rns.Transport.Run
import Reticulum.Rns.Transport.Calls
import Reticulum.Rns.Transport.Effect
import Reticulum.Lib.Run
import Reticulum.Lib.Crc
import Reticulum.Lib.Dict
import Reticulum.Rns.Bytes
import Reticulum.Rns.Packet
import Reticulum.Rns.Crypto
import Reticulum.Rns.Identity
import Reticulum.Rns.Destination
import Reticulum.Rns.Interface
import Reticulum.Rns.Tables.PacketHashList
import Reticulum.Rns.Tables.PathTable
import Reticulum.Rns.Tables.AnnounceTable
import Reticulum.Rns.Tables.ReverseTable
import Reticulum.Rns.Tables.LinkTable
import Reticulum.Rns.Transport.Basic
import Reticulum.Rns.Transport.Announce
import Reticulum.Rns.Transport.Forward
import Reticulum.Rns.Transport.PathRequest
import Reticulum.Rns.Transport.Step
import Reticulum.Lib.Endian
import Reticulum.Lib.MsgpackFormat
import Reticulum.Rns.Msgpack
import Reticulum.Rns.MsgpackElems
import Reticulum.Lib.MsgpackValues
import Reticulum.Rns.MsgpackSkip
import Reticulum.Rns.MsgpackObjects
import Reticulum.Rns.MsgpackRefines
import Reticulum.Rns.MsgpackSkipping
import Reticulum.Rns.MsgpackContract
import Reticulum.Rns.MsgpackInts
import Reticulum.Rns.MsgpackRoundTrip
import Reticulum.Lib.StableQueue
import Reticulum.Rns.AnnounceProgress
import Reticulum.Rns.AnnounceQueue
import Reticulum.Rns.PacketCodec
import Reticulum.Rns.Transport.Rewrites
import Reticulum.Rns.Transport.Advertised
import Reticulum.Rlr.BurstErrors
import Reticulum.Rlr.Config
import Reticulum.Rlr.Storage
import Reticulum.Rlr.ConfigStore
import Reticulum.Rlr.SaveFaults
import Reticulum.Rlr.ConfigProtocol
import Reticulum.Rlr.Settings
import Reticulum.Rlr.Responses
import Reticulum.Rlr.Requests
import Reticulum.Rlr.Sessions
import Reticulum.Rlr.Radio
import Reticulum.Rlr.Framing
import Reticulum.Lib.Mealy
import Reticulum.Rlr.SerialConsole
import Reticulum.Rlr.SerialFrames
import Reticulum.Lib.IntType
import Reticulum.Rlr.Integers
