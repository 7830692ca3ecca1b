import AbiBindings.AbiType.Parser
import AbiBindings.Artifact.Bytecode
import AbiBindings.Artifact.Load
import AbiBindings.Binding
import AbiBindings.Client.Source
import AbiBindings.CommandLine.Basic
import AbiBindings.Config
import AbiBindings.Contract
import AbiBindings.Disk.FileTree
import AbiBindings.Generation
import AbiBindings.Hash.Sponge
import AbiBindings.Identifier.Basic
import AbiBindings.Job
import AbiBindings.Journal
import AbiBindings.Json.Display
import AbiBindings.Json.Reader
import AbiBindings.Json.Writer
import AbiBindings.Main
import AbiBindings.Release
import AbiBindings.Schema.Relevance
import AbiBindings.Signature
import AbiBindings.Text.Utf8
import AbiBindings.Proofs.AbiType.Canonical
import AbiBindings.Proofs.Contract.Identifiers
import AbiBindings.Proofs.AbiType.Signature
import AbiBindings.Proofs.Artifact.Loading
import AbiBindings.Proofs.Contract.Duplicates
import AbiBindings.Proofs.Bytecode.Links
import AbiBindings.Proofs.Bytecode.Linking
import AbiBindings.Proofs.Json.Encodable
import AbiBindings.Proofs.AbiType.Encodable
import AbiBindings.Proofs.Client.Field
import AbiBindings.Proofs.Artifact.Encodable
import AbiBindings.Proofs.Contract.Encodable
import AbiBindings.Proofs.Client.Encodable
import AbiBindings.Proofs.Client.Fingerprint
import AbiBindings.Proofs.Contract.Growth
import AbiBindings.Proofs.Client.Faithful
import AbiBindings.Proofs.Client.Decoding
import AbiBindings.Proofs.Client.Readback
import AbiBindings.Proofs.Client.Scope
import AbiBindings.Proofs.Client.Imports
import AbiBindings.Proofs.Client.Shadowing
import AbiBindings.Proofs.Job.Saving
import AbiBindings.Proofs.Artifact.Outcomes
import AbiBindings.Proofs.Artifact.Sound
import AbiBindings.Proofs.Artifact.Foreign
import AbiBindings.Proofs.Binding.Wire
import AbiBindings.Proofs.AbiType.Totality
import AbiBindings.Proofs.Config.History
import AbiBindings.Proofs.Generation.Order
import AbiBindings.Proofs.Artifact.Unsupported
import AbiBindings.Proofs.Artifact.Broken
import AbiBindings.Proofs.Signature.Projection
import AbiBindings.Proofs.Signature.Spacing
import AbiBindings.Proofs.Config.Merging
import AbiBindings.Proofs.Config.Overriding
import AbiBindings.Proofs.Client.Mutability
import AbiBindings.Proofs.Identifier.Alias
import AbiBindings.Proofs.Generation.Aliases
import AbiBindings.Proofs.Artifact.Interchange
import AbiBindings.Proofs.Generation.Renaming
import AbiBindings.Proofs.Generation.Packages
import AbiBindings.Proofs.Client.ErrorTable
import AbiBindings.Proofs.Binding.Description
import AbiBindings.Proofs.Identifier.Settled
import AbiBindings.Proofs.Identifier.Search
