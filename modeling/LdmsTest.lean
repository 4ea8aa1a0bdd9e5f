import LdmsTest.Foundation.Dict
import LdmsTest.Foundation.Fuelled
import LdmsTest.Foundation.Orbit
import LdmsTest.Python.Value
import LdmsTest.Spec.Escape
import LdmsTest.Spec.Expand
import LdmsTest.Spec.ExpandTermination
import LdmsTest.Spec.ExpandMeaning
import LdmsTest.Spec.ExpandOrder
import LdmsTest.Spec.Idempotent
import LdmsTest.Spec.Listed
import LdmsTest.Spec.Init
import LdmsTest.Foundation.Allocation
import LdmsTest.Foundation.Greedy
import LdmsTest.Foundation.Numeral
import LdmsTest.Foundation.Ranges
import LdmsTest.Python.Heapq
import LdmsTest.Python.Json
import LdmsTest.Python.JsonRoundTrip
import LdmsTest.Python.Equality
import LdmsTest.Singularity.HexRanges
import LdmsTest.Singularity.IPAddrDb
import LdmsTest.Singularity.SCluster
import LdmsTest.Singularity.SClusterGet
import LdmsTest.C.Tada
import LdmsTest.Docker.AttrGrep
import LdmsTest.Docker.StaticAddr
import LdmsTest.Docker.Create
import LdmsTest.Docker.LdmsdEnv
import LdmsTest.Docker.Subnet
import LdmsTest.Foundation.Interleave
import LdmsTest.Foundation.Matching
import LdmsTest.Foundation.Window
import LdmsTest.Python.Builtins
import LdmsTest.Python.Codec
import LdmsTest.Qgroup.StreamThroughput
import LdmsTest.Singularity.HostLoad
import LdmsTest.Singularity.Hostnames
import LdmsTest.Sql.Table
import LdmsTest.Stream.Track
import LdmsTest.Stream.Xeq
import LdmsTest.Tada.Client
import LdmsTest.Tada.Commit
import LdmsTest.Tada.Database
import LdmsTest.Tada.Delivery
import LdmsTest.Tada.Record
import LdmsTest.Tada.Script
import LdmsTest.Tada.Separation
import LdmsTest.Tada.Verdicts
import LdmsTest.Tada.TestId
import LdmsTest.Singularity.HexRangesSets
import LdmsTest.Docker.Placement
import LdmsTest.Ldms.RefCount
import LdmsTest.C.TestStore
import LdmsTest.C.StoreRecord
import LdmsTest.Foundation.Positions
import LdmsTest.Foundation.Regex
import LdmsTest.Ldms.LsParse
import LdmsTest.Ldms.LsRow
import LdmsTest.Ldms.LsSection
import LdmsTest.Ldms.LsLines
import LdmsTest.Ldms.LsListing
import LdmsTest.C.AssertCond
import LdmsTest.C.AssertMessage
import LdmsTest.C.Messages
import LdmsTest.C.Sent
import LdmsTest.C.Arrival
import LdmsTest.Tada.Clients
import LdmsTest.Cluster.Get
import LdmsTest.Tada.Replay
import LdmsTest.Stream.ReadMsg
import LdmsTest.Stream.ClientData
import LdmsTest.Foundation.Sorting
import LdmsTest.Stream.XCmpOrder
import LdmsTest.Ldms.StoreListRecord
import LdmsTest.Ldms.VerifySet
import LdmsTest.Stream.LdmsAddr
import LdmsTest.Tada.Report
import LdmsTest.Ldms.DecompOut
import LdmsTest.Foundation.HereDoc
import LdmsTest.Singularity.WriteFile
import LdmsTest.C.Buf
import LdmsTest.Stream.Entries
import LdmsTest.Cluster.Munged
import LdmsTest.Cluster.Icmd
import LdmsTest.Foundation.Shares
import LdmsTest.Ldms.Scalability
import LdmsTest.Ldms.DirMetricList
import LdmsTest.Foundation.Words
import LdmsTest.Cluster.LdmsdConfig
import LdmsTest.Foundation.Processes
import LdmsTest.Singularity.Scripts
import LdmsTest.Singularity.ScriptRaces
import LdmsTest.Foundation.Latest
import LdmsTest.Tada.Published
import LdmsTest.Foundation.PidFile
import LdmsTest.Scalability.LdmsdCtl
import LdmsTest.Scalability.Control
import LdmsTest.Foundation.Commands
import LdmsTest.Scalability.GetConfig
import LdmsTest.Foundation.Relays
import LdmsTest.Scalability.DirVerify
