import MemberGraph.CommandLine
import MemberGraph.Main
import MemberGraph.Session
import MemberGraph.Proofs.Extension
import MemberGraph.Proofs.WellFormed
import MemberGraph.Proofs.Growth
import MemberGraph.Proofs.Loading
import MemberGraph.Proofs.Steps
import MemberGraph.Proofs.Representation
import MemberGraph.Proofs.Backing
import MemberGraph.Proofs.Operands
import MemberGraph.Proofs.Recorded
import MemberGraph.Proofs.Allocation
import MemberGraph.Proofs.Reextraction
import MemberGraph.Proofs.DeclaredDependencies
import MemberGraph.Proofs.Entries
import MemberGraph.Proofs.ExtractionRun
import MemberGraph.Proofs.Mirror
import MemberGraph.Proofs.Stubs
import MemberGraph.Proofs.Failure
import MemberGraph.Proofs.Holdings
import MemberGraph.Proofs.Accounting
import MemberGraph.Proofs.AppendOnly
import MemberGraph.Proofs.Outline
import MemberGraph.Proofs.CatalogOutline
import MemberGraph.Proofs.NamedRun
import MemberGraph.Proofs.StubPolicy
import MemberGraph.Proofs.DeclaredOutline
import MemberGraph.Proofs.NamedArchitecture
import MemberGraph.Proofs.MethodOrder
import MemberGraph.Proofs.TypeOrder
import MemberGraph.Proofs.Recording
import MemberGraph.Proofs.Provenance
import MemberGraph.Proofs.Reachability
import MemberGraph.Proofs.TypeCycles
import MemberGraph.Proofs.JsonForms
import MemberGraph.Proofs.MetadataForms
import MemberGraph.Proofs.Components
import MemberGraph.Proofs.CallTargets
import MemberGraph.Proofs.AccessorEffect
import MemberGraph.Proofs.FaithfulJournal
import MemberGraph.Proofs.NamingConventions
import MemberGraph.Proofs.PropertyMatch
import MemberGraph.Proofs.Settled
import MemberGraph.Proofs.StoredCalls
import MemberGraph.Proofs.NodeFixpoint
import MemberGraph.Proofs.StableCalls
import MemberGraph.Proofs.Overloads
import MemberGraph.Proofs.TypeHistory
import MemberGraph.Proofs.ReadableReports
import MemberGraph.Proofs.MemberNames
import MemberGraph.Proofs.TypeNames
