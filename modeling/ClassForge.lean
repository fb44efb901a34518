import ClassForge.ByteReader
import ClassForge.ByteWriter
import ClassForge.Cbor
import ClassForge.ClassDecl
import ClassForge.ClassDecl.Breaches
import ClassForge.ClassFile
import ClassForge.Command
import ClassForge.Command.Flag
import ClassForge.Command.Verb
import ClassForge.Constructor
import ClassForge.Datum
import ClassForge.Datum.Json
import ClassForge.Diagnostic
import ClassForge.Document
import ClassForge.Document.Datum
import ClassForge.Document.Draft
import ClassForge.Document.Format
import ClassForge.Document.Resolve
import ClassForge.Failure
import ClassForge.FileTree
import ClassForge.Generator
import ClassForge.Instruction
import ClassForge.Json
import ClassForge.Json.Parser
import ClassForge.Json.Token
import ClassForge.Libraries.Cbor
import ClassForge.Libraries.CborCodec
import ClassForge.Libraries.Toml
import ClassForge.Libraries.Toml.Parser
import ClassForge.Libraries.Toml.Quoted
import ClassForge.Libraries.Toml.Seen
import ClassForge.Libraries.TomlSettings
import ClassForge.Libraries.Usual
import ClassForge.Listing
import ClassForge.Main
import ClassForge.Node
import ClassForge.Node.Walk
import ClassForge.Options
import ClassForge.Output
import ClassForge.ParsedClass
import ClassForge.Path
import ClassForge.Pool
import ClassForge.Report
import ClassForge.Scope
import ClassForge.Settings
import ClassForge.Settings.File
import ClassForge.Skeleton
import ClassForge.Storage
import ClassForge.Symbol
import ClassForge.Text.Ascii
import ClassForge.Text.Basic
import ClassForge.Text.Lower
import ClassForge.Text.Printable
import ClassForge.Text.Quoted
import ClassForge.Text.Rune
import ClassForge.Proofs.Pool
import ClassForge.Proofs.Reading
import ClassForge.Proofs.RoundTrip
import ClassForge.Proofs.Layout
import ClassForge.Proofs.SkeletonSound
import ClassForge.Proofs.Contract
import ClassForge.Proofs.Resolves
import ClassForge.Proofs.ConstructorCode
import ClassForge.Proofs.Machine
import ClassForge.Proofs.ConstructorRun
import ClassForge.Proofs.Compile
import ClassForge.Proofs.Plan
import ClassForge.Proofs.Capacity
import ClassForge.Proofs.Verdict
import ClassForge.Proofs.Declarations
import ClassForge.Proofs.Binding
import ClassForge.Proofs.BoundClasses
import ClassForge.Proofs.BodyIndependence
import ClassForge.Proofs.BoundBodies
import ClassForge.Proofs.History
import ClassForge.Proofs.MemberUses
import ClassForge.Proofs.Grammar
import ClassForge.Proofs.Utf8
import ClassForge.Proofs.JsonTokens
import ClassForge.Proofs.JsonValues
import ClassForge.Proofs.JsonData
import ClassForge.Proofs.DocumentData
import ClassForge.Proofs.DocumentRoundTrip
import ClassForge.Proofs.Assignments
import ClassForge.Proofs.Descriptors
import ClassForge.Proofs.CborRules
import ClassForge.Proofs.CborItems
import ClassForge.Proofs.CborData
import ClassForge.Proofs.MemberOrder
import ClassForge.Proofs.CborRoundTrip
import ClassForge.Proofs.FileTrees
import ClassForge.Proofs.FileWrites
import ClassForge.Proofs.Builds
import ClassForge.Proofs.Mentions
import ClassForge.Proofs.TomlRules
import ClassForge.Proofs.QuotedStrings
import ClassForge.Proofs.TomlStrings
import ClassForge.Proofs.TomlLines
import ClassForge.Proofs.TomlReading
import ClassForge.Proofs.SettingsRoundTrip
import ClassForge.Proofs.Walks
import ClassForge.Proofs.Collected
import ClassForge.Proofs.Breaches
import ClassForge.Proofs.LineNumbers
import ClassForge.Proofs.Disassembly
import ClassForge.Proofs.Chains
import ClassForge.Proofs.Paths
import ClassForge.Proofs.Lineages
import ClassForge.Proofs.FaultyTrees
import ClassForge.Proofs.AtomicWrites
import ClassForge.Proofs.Containment
import ClassForge.Proofs.PoolHistory
import ClassForge.Proofs.Advice
import ClassForge.Proofs.Reports
import ClassForge.Proofs.AbsolutePaths
import ClassForge.Proofs.NearestSettings
import ClassForge.Proofs.ModifiedUtf8
import ClassForge.Proofs.WriterHistory
import ClassForge.Proofs.ScopeHistory
