import SchemaBinding.File.Tree
import SchemaBinding.Main
import SchemaBinding.Proofs.Code.Chaining
import SchemaBinding.Proofs.Code.Factory
import SchemaBinding.Proofs.Code.LookupKey
import SchemaBinding.Proofs.Code.Prototype
import SchemaBinding.Proofs.Code.Renamed
import SchemaBinding.Proofs.Code.Unseen
import SchemaBinding.Proofs.Command.ExitCode
import SchemaBinding.Proofs.Markup.Rendering
import SchemaBinding.Proofs.Schema.Reordering
import SchemaBinding.Proofs.Schema.Slots
import SchemaBinding.Proofs.Code.Derivation
import SchemaBinding.Proofs.Code.BlockOrder
import SchemaBinding.Proofs.Code.ObjectKind
import SchemaBinding.Proofs.Schema.MemberErrors
import SchemaBinding.Proofs.Schema.Locations
import SchemaBinding.Proofs.Code.Spelling
import SchemaBinding.Proofs.Schema.TypeFlags
import SchemaBinding.Proofs.Schema.Denotation
import SchemaBinding.Proofs.Schema.Rejected
import SchemaBinding.Proofs.Markup.PassedOver
import SchemaBinding.Proofs.Schema.Annotation
import SchemaBinding.Proofs.Code.Lifetime
import SchemaBinding.Proofs.Code.EnumValues
import SchemaBinding.Proofs.Schema.EmptyBase
import SchemaBinding.Proofs.Schema.Format
import SchemaBinding.Proofs.Schema.Addition
import SchemaBinding.Proofs.Schema.WalkLength
import SchemaBinding.Proofs.Markup.OpenElements
import SchemaBinding.Proofs.Markup.AttributeMap
