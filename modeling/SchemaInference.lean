import SchemaInference.Assoc
import SchemaInference.CommandLine.Grammar
import SchemaInference.CommandLine.Help
import SchemaInference.CommandLine.Request
import SchemaInference.CommandLine.Run
import SchemaInference.CommandLine.Source
import SchemaInference.Config
import SchemaInference.EnumRule
import SchemaInference.Field
import SchemaInference.Field.Kind
import SchemaInference.Inference
import SchemaInference.Json.Basic
import SchemaInference.Json.Reader
import SchemaInference.Json.Writer
import SchemaInference.Key.Pattern
import SchemaInference.Key.Rule
import SchemaInference.Label
import SchemaInference.LogLevel
import SchemaInference.Main
import SchemaInference.Moment
import SchemaInference.Number
import SchemaInference.Number.Binary64
import SchemaInference.Number.Decimal
import SchemaInference.Number.Digits
import SchemaInference.Path
import SchemaInference.PathTree
import SchemaInference.Proofs.Acceptance
import SchemaInference.Proofs.Alternatives
import SchemaInference.Proofs.ArrayItems
import SchemaInference.Proofs.BuildCalls
import SchemaInference.Proofs.CheckSteps
import SchemaInference.Proofs.Collection
import SchemaInference.Proofs.DepthCap
import SchemaInference.Proofs.EntryChecks
import SchemaInference.Proofs.EnumerationRule
import SchemaInference.Proofs.ExportMeaning
import SchemaInference.Proofs.Findings
import SchemaInference.Proofs.Heights
import SchemaInference.Proofs.IssueParts
import SchemaInference.Proofs.IssuePlaces
import SchemaInference.Proofs.JsonDocuments
import SchemaInference.Proofs.JsonReading
import SchemaInference.Proofs.JsonSchema
import SchemaInference.Proofs.KeyConventions
import SchemaInference.Proofs.KeySearch
import SchemaInference.Proofs.LabelMeaning
import SchemaInference.Proofs.LabelPartition
import SchemaInference.Proofs.LabelReading
import SchemaInference.Proofs.LabelRoundTrip
import SchemaInference.Proofs.Likeness
import SchemaInference.Proofs.LineLoading
import SchemaInference.Proofs.MapEntries
import SchemaInference.Proofs.MatchMeaning
import SchemaInference.Proofs.NestingRounds
import SchemaInference.Proofs.NormalForm
import SchemaInference.Proofs.OrderIndependence
import SchemaInference.Proofs.PassAgreement
import SchemaInference.Proofs.PositionAcceptance
import SchemaInference.Proofs.PositionSchemas
import SchemaInference.Proofs.Positions
import SchemaInference.Proofs.Precision
import SchemaInference.Proofs.Prediction
import SchemaInference.Proofs.PredictionLattice
import SchemaInference.Proofs.PredictionMerging
import SchemaInference.Proofs.PredictionShape
import SchemaInference.Proofs.Preorder
import SchemaInference.Proofs.Rearrangement
import SchemaInference.Proofs.RecordDecision
import SchemaInference.Proofs.Records
import SchemaInference.Proofs.Refusals
import SchemaInference.Proofs.Reordering
import SchemaInference.Proofs.Resemblance
import SchemaInference.Proofs.RuleMatching
import SchemaInference.Proofs.RuleReading
import SchemaInference.Proofs.RunReports
import SchemaInference.Proofs.SampleMatching
import SchemaInference.Proofs.ScalarLabels
import SchemaInference.Proofs.SchemaLevels
import SchemaInference.Proofs.SelfAcceptance
import SchemaInference.Proofs.StructureMeaning
import SchemaInference.Proofs.Synthesis
import SchemaInference.Proofs.TreeLinks
import SchemaInference.Proofs.TreeNodes
import SchemaInference.Proofs.UnionLaws
import SchemaInference.Regex.Basic
import SchemaInference.Regex.CharSet
import SchemaInference.Regex.Fault
import SchemaInference.Regex.Match
import SchemaInference.Regex.Reader
import SchemaInference.Regex.Reading
import SchemaInference.Report
import SchemaInference.Samples
import SchemaInference.Samples.Walk
import SchemaInference.Schema
import SchemaInference.Schema.Check
import SchemaInference.Schema.Decode
import SchemaInference.Schema.Export
import SchemaInference.Schema.Issue
import SchemaInference.Schema.OfLabel
import SchemaInference.Schema.OfStructure
import SchemaInference.Schema.Validate
import SchemaInference.Service
import SchemaInference.Settings
import SchemaInference.Stack
import SchemaInference.Structure
import SchemaInference.Structure.OfTree
import SchemaInference.Structure.Record
import SchemaInference.Tag
import SchemaInference.Text.Blank
import SchemaInference.Text.Case
import SchemaInference.Text.Identifier
import SchemaInference.Text.Lines
import SchemaInference.Text.Numeral
import SchemaInference.Text.Printable
import SchemaInference.Text.Quoted
import SchemaInference.Text.Ranges
import SchemaInference.Text.Utf8
import SchemaInference.Text.Word
import SchemaInference.TypePrediction
import SchemaInference.TypePrediction.OfValues
import SchemaInference.Value.Basic
import SchemaInference.Value.Document
import SchemaInference.Value.Nesting
import SchemaInference.Value.OfText
import SchemaInference.Value.Parts
import SchemaInference.Value.Same
import SchemaInference.Value.Written
