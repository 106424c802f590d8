import ModRemap.AccessWidener
import ModRemap.Archive.Bits
import ModRemap.Archive.Bzip2.Reader
import ModRemap.Archive.Bzip2.Scatter
import ModRemap.Archive.Bzip2.Transform
import ModRemap.Archive.CodePage
import ModRemap.Archive.Content
import ModRemap.Archive.Crc32
import ModRemap.Archive.Deflate.Blocks
import ModRemap.Archive.Deflate.Reader
import ModRemap.Archive.Deflate.Repeats
import ModRemap.Archive.Deflate.Table
import ModRemap.Archive.Deflate.Writer
import ModRemap.Archive.Entry
import ModRemap.Archive.Jar
import ModRemap.Archive.PrefixCode
import ModRemap.Archive.PrefixCode.Shortest
import ModRemap.Archive.Repeat
import ModRemap.Archive.Zip.Basic
import ModRemap.Archive.Zip.Layout
import ModRemap.Archive.Zip.Listing
import ModRemap.Archive.Zip.Reader
import ModRemap.Archive.Zip.Writer
import ModRemap.Archive.Zstandard.Checksum
import ModRemap.Archive.Zstandard.Literals
import ModRemap.Archive.Zstandard.Reader
import ModRemap.Archive.Zstandard.Sequences
import ModRemap.Archive.Zstandard.StateCode
import ModRemap.ClassFile.Basic
import ModRemap.ClassFile.Build
import ModRemap.ClassFile.Constant
import ModRemap.ClassFile.Error
import ModRemap.ClassFile.ModifiedUtf8
import ModRemap.ClassFile.Pool
import ModRemap.ClassFile.Reader
import ModRemap.Descriptor
import ModRemap.Dict
import ModRemap.Entrypoints.Adapter
import ModRemap.Entrypoints.Construction
import ModRemap.Entrypoints.Registry
import ModRemap.Entrypoints.Slots
import ModRemap.Json.Basic
import ModRemap.Json.Decode
import ModRemap.Json.Reader
import ModRemap.Json.Writer
import ModRemap.Loader.Config
import ModRemap.Loader.Host
import ModRemap.Loader.LogLevel
import ModRemap.Loader.ModLoader
import ModRemap.Manifest
import ModRemap.Mapping.Index
import ModRemap.Mapping.Source
import ModRemap.Mapping.Table
import ModRemap.Mapping.Tiny
import ModRemap.Mods.Artifact
import ModRemap.Mods.Metadata
import ModRemap.Mods.MetadataJson
import ModRemap.Reference
import ModRemap.Refmap
import ModRemap.Remap.ClassFile
import ModRemap.Remap.Code
import ModRemap.Remap.Draft
import ModRemap.Remap.Error
import ModRemap.Remap.Hierarchy
import ModRemap.Remap.Pipeline
import ModRemap.Remap.Remapper
import ModRemap.Remap.Resolver
import ModRemap.Signature
import ModRemap.Store.Files
import ModRemap.Store.Path
import ModRemap.Text.Blank
import ModRemap.Text.Digit
import ModRemap.Text.Outline
import ModRemap.Text.Printable
import ModRemap.Text.Split
import ModRemap.Text.Utf16
import ModRemap.Text.Utf8
import ModRemap.Toml.Basic
import ModRemap.Toml.Draft
import ModRemap.Toml.Quoted
import ModRemap.Toml.Reader
import ModRemap.Toml.Scalar
import ModRemap.Proofs.ClassFileCodec
import ModRemap.Proofs.ModifiedUtf8
import ModRemap.Proofs.PoolGrowth
import ModRemap.Proofs.PoolEdits
import ModRemap.Proofs.Drafting
import ModRemap.Proofs.CodeImage
import ModRemap.Proofs.ClassImage
import ModRemap.Proofs.RemappedClass
import ModRemap.Proofs.ClassFileBytes
import ModRemap.Proofs.Encodable
import ModRemap.Proofs.ClassBuilding
import ModRemap.Proofs.SupertypeSearch
import ModRemap.Proofs.BreadthFirst
import ModRemap.Proofs.RenamedSymbols
import ModRemap.Proofs.RetainedParts
import ModRemap.Proofs.LongNames
import ModRemap.Proofs.Overriding
import ModRemap.Proofs.MethodReferences
import ModRemap.Proofs.CallSites
import ModRemap.Proofs.SignatureGrammar
import ModRemap.Proofs.SignatureText
import ModRemap.Proofs.TypeReading
import ModRemap.Proofs.SignatureReading
import ModRemap.Proofs.NestedNames
import ModRemap.Proofs.RenamedSignatures
import ModRemap.Proofs.SameNames
import ModRemap.Proofs.DescriptorNames
import ModRemap.Proofs.DescriptorForms
import ModRemap.Proofs.Erasure
import ModRemap.Proofs.IndexRows
import ModRemap.Proofs.InverseIndex
import ModRemap.Proofs.FileChanges
import ModRemap.Proofs.TemporaryFiles
import ModRemap.Proofs.BatchSteps
import ModRemap.Proofs.Rollback
import ModRemap.Proofs.EntryFormats
import ModRemap.Proofs.JarEntries
import ModRemap.Proofs.OverwrittenJars
import ModRemap.Proofs.OutputEntries
import ModRemap.Proofs.SuccessfulSteps
import ModRemap.Proofs.CompletedJars
import ModRemap.Proofs.Utf8
import ModRemap.Proofs.WidenerLines
import ModRemap.Proofs.ReferenceForms
import ModRemap.Proofs.MemberTargets
import ModRemap.Proofs.BareReferences
import ModRemap.Proofs.KeptJars
import ModRemap.Proofs.SameHierarchy
import ModRemap.Proofs.Paths
import ModRemap.Proofs.JarOutput
import ModRemap.Proofs.MadeDirectories
import ModRemap.Proofs.MovedFiles
import ModRemap.Proofs.JarRebuild
import ModRemap.Proofs.NumberedCopies
import ModRemap.Proofs.BatchRoom
import ModRemap.Proofs.BatchProgress
import ModRemap.Proofs.RepointedMods
import ModRemap.Proofs.LoadedJars
import ModRemap.Proofs.BatchCompletion
import ModRemap.Proofs.BatchOrder
import ModRemap.Proofs.Slots
import ModRemap.Proofs.SingleInstances
import ModRemap.Proofs.LoaderSetup
import ModRemap.Proofs.LoaderCalls
import ModRemap.Proofs.DeclaredEntrypoints
import ModRemap.Proofs.RegisteredAdapters
import ModRemap.Proofs.FreezeOutcome
import ModRemap.Proofs.TinyLines
import ModRemap.Proofs.WrittenTables
import ModRemap.Proofs.TinyRows
import ModRemap.Proofs.TinySections
import ModRemap.Proofs.SelfDelimiting
import ModRemap.Proofs.PoolOperations
import ModRemap.Proofs.VisitedCells
import ModRemap.Proofs.RenamedWideners
import ModRemap.Proofs.WrittenJson
import ModRemap.Proofs.RemappedRefmaps
import ModRemap.Proofs.LossyText
import ModRemap.Proofs.ManifestLines
import ModRemap.Proofs.ManifestSections
import ModRemap.Proofs.MainSections
import ModRemap.Proofs.ReadingOrder
import ModRemap.Proofs.RemapperCalls
import ModRemap.Proofs.FailedReadings
import ModRemap.Proofs.DeclarationAttempts
import ModRemap.Proofs.EndedConstructions
import ModRemap.Proofs.DeferredInstances
import ModRemap.Proofs.RowOrder
import ModRemap.Proofs.LoadOrder
import ModRemap.Proofs.FailedLoads
import ModRemap.Proofs.CopiedJars
import ModRemap.Proofs.TextForms
import ModRemap.Proofs.InternedTexts
