import ResourceApi.Document.Session
import ResourceApi.Json.Reader
import ResourceApi.Main
import ResourceApi.Proofs.Fallible
import ResourceApi.Proofs.Worklist
import ResourceApi.Proofs.Reference
import ResourceApi.Proofs.ReferenceOrder
import ResourceApi.Proofs.Endpoint
import ResourceApi.Proofs.ResolvedReference
import ResourceApi.Proofs.OpenOperation
import ResourceApi.Proofs.OperationId
import ResourceApi.Proofs.LowerCase
import ResourceApi.Proofs.PathKey
import ResourceApi.Proofs.Pruning
import ResourceApi.Proofs.Resolution
import ResourceApi.Proofs.Generation
import ResourceApi.Proofs.WrittenSchema
import ResourceApi.Proofs.ContestedName
import ResourceApi.Proofs.Shadowing
import ResourceApi.Proofs.Exclusion
import ResourceApi.Proofs.Acceptance
import ResourceApi.Proofs.VersionNumber
import ResourceApi.Proofs.OptionSlot
import ResourceApi.Proofs.OptionOverride
import ResourceApi.Proofs.Explained
import ResourceApi.Proofs.DefinitionShape
import ResourceApi.Proofs.LoadingExplained
import ResourceApi.Proofs.TwoRuns
import ResourceApi.Proofs.DocumentView
import ResourceApi.Proofs.Restyling
import ResourceApi.Proofs.AccessRules
import ResourceApi.Proofs.Inclusion
import ResourceApi.Proofs.Dialect
import ResourceApi.Proofs.NamedPart
import ResourceApi.Proofs.Relocation
import ResourceApi.Proofs.Renaming
import ResourceApi.Proofs.TypeMark
import ResourceApi.Proofs.MarkedField
import ResourceApi.Proofs.WrittenDefinition
import ResourceApi.Proofs.Reuse
import ResourceApi.Proofs.FieldPlace
import ResourceApi.Proofs.FilterBlock
import ResourceApi.Proofs.FilterName
import ResourceApi.Proofs.FilterClash
import ResourceApi.Proofs.PathLayout
import ResourceApi.Proofs.RuleWriting
import ResourceApi.Proofs.RelationshipAgreement
import ResourceApi.Proofs.RequiredMember
import ResourceApi.Proofs.NullAdmission
import ResourceApi.Proofs.SchemeKind
import ResourceApi.Proofs.TidyValue
import ResourceApi.Proofs.SchemeNormalForm
import ResourceApi.Proofs.JsonReadBack
import ResourceApi.Proofs.Yaml.ReadBack
