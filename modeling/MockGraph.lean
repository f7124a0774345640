import MockGraph.Interchange
import MockGraph.Main
import MockGraph.Proofs.Walk.Shape
import MockGraph.Proofs.Walk.Flattening
import MockGraph.Proofs.Walk.Influence
import MockGraph.Proofs.Json.Assignment
import MockGraph.Proofs.Stages
import MockGraph.Proofs.Json.Domain
import MockGraph.Proofs.Json.PathText
import MockGraph.Proofs.Walk.Overrides
import MockGraph.Proofs.Walk.Conformance
import MockGraph.Proofs.Introspection.Quoting
import MockGraph.Proofs.Introspection.Malformed
import MockGraph.Proofs.TypeSystem.References
import MockGraph.Proofs.Project.Discovery
import MockGraph.Proofs.Walk.Arrangement
import MockGraph.Proofs.Walk.Typenames
import MockGraph.Proofs.Files.Addresses
import MockGraph.Proofs.Project.Nearness
import MockGraph.Proofs.Registry.Copies
import MockGraph.Proofs.CommandLine.Assignments
import MockGraph.Proofs.Project.Sources
