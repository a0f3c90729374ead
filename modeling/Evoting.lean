import Evoting.Proofs.Record
import Evoting.Proofs.Handler
import Evoting.Proofs.History
import Evoting.Proofs.Containment
import Evoting.Proofs.Client
import Evoting.Proofs.Ballots
import Evoting.Proofs.Paillier
import Evoting.Proofs.Count
import Evoting.Proofs.Tally
import Evoting.Proofs.Votes
import Evoting.Proofs.VoteArrays
import Evoting.Proofs.Pipeline
import Evoting.Proofs.Isolation
import Evoting.Proofs.Signature
import Evoting.Proofs.Processor
import Evoting.Proofs.Stream
import Evoting.Proofs.IntKey
import Evoting.Proofs.XoState
import Evoting.Proofs.XoGame
import Evoting.Proofs.XoRuns
import Evoting.Proofs.XoRules
import Evoting.Proofs.XoClient
import Evoting.Proofs.PyStream
import Evoting.Proofs.PyConnections
import Evoting.Proofs.Service
import Evoting.Proofs.ClientService
import Evoting.Proofs.StreamContext
import Evoting.Proofs.Schedules
import Evoting.Proofs.WalkOnce
import Evoting.Proofs.Compare
import Evoting.Proofs.Tails
import Evoting.Model.ComparePrint
import Evoting.Proofs.CompareChains
import Evoting.Proofs.ForkHeights
import Evoting.Proofs.TreeLines
import Evoting.Proofs.ForkLevels
import Evoting.Proofs.CompareTree
import Evoting.Proofs.CompareTable
import Evoting.Proofs.CompareSummary
import Evoting.Proofs.Unpack
import Evoting.Proofs.Order
import Evoting.Proofs.Decrypt
import Evoting.Proofs.KeyGen
import Evoting.Proofs.Layout
import Evoting.Proofs.HomomorphicSum
import Evoting.Proofs.RingBinding
import Evoting.Proofs.VoteSums
import Evoting.Proofs.Serialization
import Evoting.Proofs.Flatten
import Evoting.Proofs.KeyFiles
import Evoting.Proofs.Shutdown
import Evoting.Proofs.IntKeyRange
import Evoting.Proofs.RestPages
import Evoting.Proofs.Prune
import Evoting.Proofs.Descent
import Evoting.Proofs.Stopping
import Evoting.Proofs.Genesis
import Evoting.Model.Sawset
import Evoting.Proofs.Sawset
import Evoting.Model.BatchSubmit
import Evoting.Proofs.BatchSubmit
