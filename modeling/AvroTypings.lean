import AvroTypings.Bundle
import AvroTypings.CommandLine
import AvroTypings.Disk
import AvroTypings.Document
import AvroTypings.Json.Reader
import AvroTypings.Main
import AvroTypings.Program
import AvroTypings.Run.Basic
import AvroTypings.Schema.Check
import AvroTypings.Schema.Names
import AvroTypings.TypeScript.Resolve
import AvroTypings.Proofs.Hoisting
import AvroTypings.Proofs.Grammar
import AvroTypings.Proofs.TypeGrammar
import AvroTypings.Proofs.Structure
import AvroTypings.Proofs.References
import AvroTypings.Proofs.Strictness
import AvroTypings.Proofs.Decoding
import AvroTypings.Proofs.NormalForm
import AvroTypings.Proofs.RootExport
import AvroTypings.Proofs.Output
import AvroTypings.Proofs.RejectedNames
import AvroTypings.Proofs.Repetitions
import AvroTypings.Proofs.ByteOrder
import AvroTypings.Proofs.FileNames
import AvroTypings.Proofs.Listing
import AvroTypings.Proofs.SingleFiles
import AvroTypings.Proofs.PropertyLines
import AvroTypings.Proofs.NamePaths
import AvroTypings.Proofs.Rerun
import AvroTypings.Proofs.Violations
import AvroTypings.Proofs.Namespaces
import AvroTypings.Proofs.Respelling
import AvroTypings.Proofs.Decorations
import AvroTypings.Proofs.Contexts
import AvroTypings.Proofs.Annotations
import AvroTypings.Proofs.Rendering
import AvroTypings.Proofs.Unions
import AvroTypings.Proofs.CallDepth
import AvroTypings.Proofs.Collisions
import AvroTypings.Proofs.Words
import AvroTypings.Proofs.Stems
