import JarGate.CommandLine.FileTable
import JarGate.Json.Access
import JarGate.License.Gate
import JarGate.License.Network
import JarGate.Main
import JarGate.Proofs.Archive.Calls
import JarGate.Proofs.Code.Assembling
import JarGate.Proofs.Code.LocalSlots
import JarGate.Proofs.Code.Minimality
import JarGate.Proofs.Code.Places
import JarGate.Proofs.Code.Reseating
import JarGate.Proofs.Code.StackDepth
import JarGate.Proofs.Code.StateMoves
import JarGate.Proofs.CommandLine.Durations
import JarGate.Proofs.Format.Language
import JarGate.Proofs.Format.Offsets
import JarGate.Proofs.Format.ReadBack
import JarGate.Proofs.Format.Truncation
import JarGate.Proofs.Injection.Accounting
import JarGate.Proofs.Injection.Frames
import JarGate.Proofs.Injection.Limits
import JarGate.Proofs.Injection.SelectionGrowth
import JarGate.Proofs.Injection.WordOffsets
import JarGate.Proofs.License.Caching
import JarGate.Proofs.License.GateClass
import JarGate.Proofs.License.Host
import JarGate.Proofs.License.Log
import JarGate.Proofs.License.Policy
import JarGate.Proofs.License.References
import JarGate.Proofs.Pool.Spelling
