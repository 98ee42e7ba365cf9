import C2DN.Lib.Stripe
import C2DN.Lib.Slice
import C2DN.Lib.Code
import C2DN.Lib.Outcome
import C2DN.Lib.Run
import C2DN.Frontend.Stream
import C2DN.Frontend.Decode
import C2DN.Frontend.DecodeLemmas
import C2DN.Frontend.DecodeCorrect
import C2DN.Frontend.PipeData
import C2DN.Frontend.PipeDataLemmas
import C2DN.Frontend.PipeDataCorrect
import C2DN.Frontend.Push
import C2DN.Frontend.RoundTrip
import C2DN.LoadBalancer.Md5
import C2DN.LoadBalancer.HashRing
import C2DN.LoadBalancer.Balancer
import C2DN.LoadBalancer.BalancerLemmas
import C2DN.LoadBalancer.Freshness
import C2DN.LoadBalancer.Routing
import C2DN.Simulator.Cache
import C2DN.Simulator.CacheLemmas
import C2DN.Simulator.Server
import C2DN.Simulator.Ring
import C2DN.Simulator.Cluster
import C2DN.Simulator.ClusterLemmas
import C2DN.Simulator.ChunkInfo
import C2DN.Simulator.Restore
import C2DN.Simulator.RestoreCorrect
import C2DN.Simulator.GetLemmas
import C2DN.Simulator.ChunkHits
import C2DN.Simulator.ObjTypes
import C2DN.Lib.Flow
import C2DN.Simulator.Mapping
import C2DN.Simulator.Repeat
import C2DN.Simulator.Recency
import C2DN.Lib.Layered
import C2DN.LoadBalancer.Bfs
import C2DN.LoadBalancer.Rebalance
import C2DN.LoadBalancer.Package
import C2DN.Simulator.Parity
import C2DN.LoadBalancer.Feasible
import C2DN.Lib.Firsts
import C2DN.Simulator.RingCorrect
import C2DN.Simulator.Contract
import C2DN.LoadBalancer.Disruption
import C2DN.Simulator.Thread
import C2DN.LoadBalancer.Previous
import C2DN.Lib.Monitor
import C2DN.Frontend.Goroutines
import C2DN.Lib.Pool
import C2DN.Frontend.GoroutineLemmas
import C2DN.Frontend.ChunkFetch
import C2DN.Frontend.ChunkProtocol
import C2DN.Frontend.ChunkResolve
import C2DN.Frontend.PeerCheck
import C2DN.Frontend.PeerWake
import C2DN.Frontend.PeerHits
import C2DN.Frontend.DecodeEnds
import C2DN.Frontend.Transaction
import C2DN.Frontend.TxnEnd
import C2DN.Simulator.Statistics
import C2DN.Simulator.Schedule
import C2DN.Simulator.Availability
import C2DN.Simulator.Ledger
import C2DN.Simulator.RepFactor
import C2DN.Simulator.HitRange
import C2DN.Client.Workload
import C2DN.Client.Partition
import C2DN.Lib.LinkedList
import C2DN.Simulator.ObjList
import C2DN.Simulator.Hashtable
import C2DN.Simulator.HashtableLemmas
import C2DN.Simulator.MemServer
import C2DN.Simulator.CacheRuns
import C2DN.Simulator.MemCache
import C2DN.Simulator.RemoveObj
import C2DN.Lib.Share
import C2DN.LoadBalancer.Bounds
import C2DN.Simulator.RingCreate
import C2DN.Lib.Rounding
import C2DN.Simulator.RingWeights
import C2DN.Client.Ending
import C2DN.Simulator.Midgress
import C2DN.LoadBalancer.UnavailTrace
import C2DN.Simulator.PlainText
import C2DN.Simulator.BinaryReader
import C2DN.Lib.Chain
import C2DN.Simulator.ChainedHashtable
import C2DN.Simulator.ChainedHashtableLemmas
import C2DN.Simulator.TableRuns
import C2DN.Lib.Bisect
import C2DN.Simulator.MemRing
import C2DN.Lib.CountedSet
import C2DN.Lib.LruStack
import C2DN.Simulator.SplayTree
import C2DN.Simulator.SplayTreeCorrect
import C2DN.Simulator.LruProfile
import C2DN.Simulator.LruProfileCorrect
import C2DN.Lib.BreadthFirst
import C2DN.Lib.Residual
import C2DN.LoadBalancer.MaxFlow
import C2DN.LoadBalancer.Rebuild
import C2DN.Simulator.Determined
import C2DN.Simulator.Tolerance
import C2DN.Lib.Feed
import C2DN.Simulator.Csv
import C2DN.Simulator.CsvCorrect
import C2DN.Simulator.CsvRoundTrip
import C2DN.Lib.Reuse
import C2DN.Simulator.Distances
import C2DN.Simulator.DistancesCorrect
import C2DN.Simulator.MissRatioCurve
import C2DN.Simulator.MissRatioCurveRuns
import C2DN.Simulator.CurveProfile
import C2DN.Lib.Chan
import C2DN.Client.Requesters
import C2DN.Client.RequestersRuns
import C2DN.Client.ReplayEnds
import C2DN.Simulator.CsvPlain
import C2DN.Simulator.CsvReader
import C2DN.Simulator.CsvReaderCorrect
import C2DN.Simulator.CsvLastLine
