import CipherGraph.CommandLine.Arguments
import CipherGraph.CommandLine.File
import CipherGraph.CommandLine.Run
import CipherGraph.Main
import CipherGraph.Proofs.Json.Agreement
import CipherGraph.Proofs.Json.Canonical
import CipherGraph.Proofs.Json.Printing
import CipherGraph.Proofs.Json.Yields
import CipherGraph.Proofs.Program.Arity
import CipherGraph.Proofs.Program.Drawing
import CipherGraph.Proofs.Program.Neighbourhood
import CipherGraph.Proofs.Program.Projection
import CipherGraph.Proofs.Selection.Deferred
import CipherGraph.Proofs.Selection.History
import CipherGraph.Proofs.Selection.Observers
import CipherGraph.Proofs.Selection.View
import CipherGraph.Proofs.Service.Addresses
import CipherGraph.Proofs.Service.Diagnosis
import CipherGraph.Proofs.Service.Inspection
import CipherGraph.Proofs.Service.Interleaving
import CipherGraph.Proofs.Service.Isolation
import CipherGraph.Proofs.Service.Linearization
import CipherGraph.Settings
import CipherGraph.Proofs.CommandLine.Verdict
import CipherGraph.Proofs.Service.Precedence
import CipherGraph.Proofs.Wire.Rendering
import CipherGraph.Proofs.CommandLine.Agreement
import CipherGraph.Proofs.Program.Incidence
import CipherGraph.Proofs.Wire.Denotation
import CipherGraph.Proofs.Program.EdgeOrder
import CipherGraph.Proofs.Program.Gates
import CipherGraph.Proofs.Program.Refusal
import CipherGraph.Proofs.Program.Marks
import CipherGraph.Proofs.Session.TableHistory
import CipherGraph.Proofs.Settings
