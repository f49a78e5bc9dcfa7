import Riotsensors.Proofs.Strings
import Riotsensors.Proofs.Identifiers
import Riotsensors.Proofs.Restart
import Riotsensors.Proofs.Evaluators
import Riotsensors.Proofs.Replies
import Riotsensors.Proofs.Reads
import Riotsensors.Proofs.Lifetimes
import Riotsensors.Proofs.LostAnswers
import Riotsensors.Proofs.ByteOrders
import Riotsensors.Proofs.CachePolicies
import Riotsensors.Proofs.Dispatch
import Riotsensors.Proofs.CacheTypes
import Riotsensors.Proofs.Timeouts
import Riotsensors.Proofs.Answers
import Riotsensors.Sanity.Client
import Riotsensors.Proofs.Agreement
import Riotsensors.Sanity.Link
import Riotsensors.Sanity.Handler
import Riotsensors.Proofs.RestAnswers
import Riotsensors.Proofs.Registration
import Riotsensors.Sanity.Registry
import Riotsensors.Sanity.Packets
import Riotsensors.Sanity.Pack
import Riotsensors.Proofs.Doubles
import Riotsensors.Spec.Link
import Riotsensors.Sanity.Flight
import Riotsensors.Proofs.Attribution
import Riotsensors.Proofs.Capacity
import Riotsensors.Proofs.Frames
import Riotsensors.Proofs.RequestedIds
import Riotsensors.Proofs.HttpResponses
import Riotsensors.Proofs.ListDocument
import Riotsensors.Proofs.CallDocument
import Riotsensors.Proofs.Listings
import Riotsensors.Proofs.Termination
import Riotsensors.Proofs.NameOrId
import Riotsensors.Proofs.QueryPieces
import Riotsensors.Proofs.Balance
import Riotsensors.Proofs.Remote
import Riotsensors.Proofs.Entries
import Riotsensors.Proofs.Evaluations
import Riotsensors.Proofs.Memory
import Riotsensors.Proofs.Lending
import Riotsensors.Proofs.RemoteRest
import Riotsensors.Proofs.QueryBlocks
import Riotsensors.Proofs.LiveListings
import Riotsensors.Proofs.PacketOrder
import Riotsensors.Proofs.WellKnown
import Riotsensors.Proofs.Atomicity
import Riotsensors.Proofs.Interleavings
import Riotsensors.Proofs.RepeatedPackets
import Riotsensors.Proofs.Servers
