import SchemaBinding.Files.Session
import SchemaBinding.Main
import SchemaBinding.Proofs.Binding.InputType
import SchemaBinding.Proofs.Binding.ScalarUse
import SchemaBinding.Proofs.Binding.TemplateLiteral
import SchemaBinding.Proofs.Introspection.Reload
import SchemaBinding.Proofs.Introspection.WellFormed
import SchemaBinding.Proofs.Sdl.Roots
import SchemaBinding.Proofs.Binding.Comments
import SchemaBinding.Proofs.Binding.Agreement
import SchemaBinding.Proofs.Command.FixedPoint
import SchemaBinding.Proofs.Files.Parents
import SchemaBinding.Proofs.Command.Changes
import SchemaBinding.Proofs.Command.Preview
import SchemaBinding.Proofs.Binding.Pieces
import SchemaBinding.Proofs.Project.Configurations
import SchemaBinding.Proofs.Introspection.Additions
import SchemaBinding.Proofs.Binding.ListDepth
import SchemaBinding.Proofs.Introspection.Defects
import SchemaBinding.Proofs.Introspection.Deprecations
import SchemaBinding.Proofs.Binding.DeclarationOrder
import SchemaBinding.Proofs.Command.Verdict
import SchemaBinding.Proofs.TypeRef
import SchemaBinding.Proofs.Files.Components
import SchemaBinding.Proofs.Project.Resolution
import SchemaBinding.Proofs.Command.Resolution
