import EffectTree.Artifact.Decoder
import EffectTree.Artifact.Encoder
import EffectTree.Artifact.Loader
import EffectTree.Artifact.Module
import EffectTree.Builder.Form
import EffectTree.Builder.Outline
import EffectTree.CommandLine.Command
import EffectTree.CommandLine.Options
import EffectTree.CommandLine.Report
import EffectTree.Descriptor.Basic
import EffectTree.Descriptor.Coercion
import EffectTree.Descriptor.Identity
import EffectTree.Descriptor.Show
import EffectTree.Descriptor.Substitution
import EffectTree.Evaluation.Context
import EffectTree.Evaluation.Control
import EffectTree.Evaluation.ExitCode
import EffectTree.Evaluation.Interpreter
import EffectTree.Evaluation.Leaf
import EffectTree.Evaluation.Opcode
import EffectTree.Evaluation.Stepwise
import EffectTree.Evaluation.World
import EffectTree.Expression.Arguments
import EffectTree.Expression.Arrow
import EffectTree.Expression.Basic
import EffectTree.Expression.Builtin
import EffectTree.Expression.Check
import EffectTree.Expression.Compile
import EffectTree.Expression.Evaluation
import EffectTree.Expression.Literal
import EffectTree.Expression.Method
import EffectTree.Expression.Numbering
import EffectTree.Expression.Operation
import EffectTree.Expression.Parser
import EffectTree.Expression.Printer
import EffectTree.Expression.Spelling
import EffectTree.Expression.Token
import EffectTree.Fault
import EffectTree.Files
import EffectTree.Json.Parser
import EffectTree.Json.Printer
import EffectTree.LineReader
import EffectTree.LineReader.Background
import EffectTree.Main
import EffectTree.Number.Binary64
import EffectTree.Number.Hypotenuse
import EffectTree.Number.Layout
import EffectTree.Number.Power
import EffectTree.Number.Reading
import EffectTree.Number.Shortest
import EffectTree.Operator
import EffectTree.Proofs.ArrowHeaders
import EffectTree.Proofs.AtomicEffects
import EffectTree.Proofs.BindLaw
import EffectTree.Proofs.BuiltinPrecedence
import EffectTree.Proofs.Capture
import EffectTree.Proofs.CellHistory
import EffectTree.Proofs.CellKeys
import EffectTree.Proofs.CharacterTables
import EffectTree.Proofs.ClosedSubstitution
import EffectTree.Proofs.Closedness
import EffectTree.Proofs.CoercedValues
import EffectTree.Proofs.ComprehensionMeaning
import EffectTree.Proofs.Concealment
import EffectTree.Proofs.ConditionExpressions
import EffectTree.Proofs.ConditionMeaning
import EffectTree.Proofs.ConditionParsing
import EffectTree.Proofs.ConditionTokens
import EffectTree.Proofs.Conditions
import EffectTree.Proofs.Containment
import EffectTree.Proofs.CoreCalculus
import EffectTree.Proofs.CoreSimulation
import EffectTree.Proofs.Decoding
import EffectTree.Proofs.Depth
import EffectTree.Proofs.DepthLimits
import EffectTree.Proofs.DescribedValues
import EffectTree.Proofs.Discipline
import EffectTree.Proofs.DisciplinedEffects
import EffectTree.Proofs.DisciplinedSteps
import EffectTree.Proofs.EffectClosure
import EffectTree.Proofs.EffectOrigin
import EffectTree.Proofs.EffectStages
import EffectTree.Proofs.EvaluationLimits
import EffectTree.Proofs.EvaluationScopes
import EffectTree.Proofs.ExitCodes
import EffectTree.Proofs.Exits
import EffectTree.Proofs.ExpressionFaults
import EffectTree.Proofs.FieldwiseMerging
import EffectTree.Proofs.FreshResults
import EffectTree.Proofs.GrowingResolution
import EffectTree.Proofs.HeadForms
import EffectTree.Proofs.IntegerTexts
import EffectTree.Proofs.KeyLists
import EffectTree.Proofs.Keys
import EffectTree.Proofs.LazyValues
import EffectTree.Proofs.LineDelivery
import EffectTree.Proofs.LiteralSpelling
import EffectTree.Proofs.MalformedArtifacts
import EffectTree.Proofs.Mentions
import EffectTree.Proofs.NestedSearches
import EffectTree.Proofs.NumberEquality
import EffectTree.Proofs.PlainData
import EffectTree.Proofs.Questions
import EffectTree.Proofs.Reaching
import EffectTree.Proofs.RecordedEvaluations
import EffectTree.Proofs.RelatedEvaluations
import EffectTree.Proofs.RenderedValues
import EffectTree.Proofs.RenderingDefects
import EffectTree.Proofs.RenderingEnds
import EffectTree.Proofs.Resemblance
import EffectTree.Proofs.ResolutionFaults
import EffectTree.Proofs.ResultReferences
import EffectTree.Proofs.ResultTable
import EffectTree.Proofs.RoundTrip
import EffectTree.Proofs.SiblingClosing
import EffectTree.Proofs.Stability
import EffectTree.Proofs.SteadyEffects
import EffectTree.Proofs.StepwiseAgreement
import EffectTree.Proofs.StrictSettings
import EffectTree.Proofs.TupleParts
import EffectTree.Proofs.UnfoldedEffects
import EffectTree.Proofs.UnfoldedEvaluation
import EffectTree.Proofs.UnfoldedResolution
import EffectTree.Proofs.UnfoldedSteps
import EffectTree.Proofs.Unfolding
import EffectTree.Proofs.UnreportedFaults
import EffectTree.Proofs.ValueFaults
import EffectTree.Proofs.Waiting
import EffectTree.Registry
import EffectTree.Resolution.Head
import EffectTree.Resolution.Projection
import EffectTree.Resolution.Render
import EffectTree.Run
import EffectTree.Settings
import EffectTree.Store.Cells
import EffectTree.Store.Key
import EffectTree.Store.Results
import EffectTree.Table
import EffectTree.Text.Casing
import EffectTree.Text.CodePoints
import EffectTree.Text.Encoding
import EffectTree.Text.Property
import EffectTree.Text.Quoted
import EffectTree.Text.Search
import EffectTree.Text.Surrogate
import EffectTree.Text.Utf8
import EffectTree.Transcript
import EffectTree.Value.Arithmetic
import EffectTree.Value.Basic
import EffectTree.Value.Format
import EffectTree.Value.Key
import EffectTree.Value.Mark
import EffectTree.Value.Members
import EffectTree.Value.Numbering
import EffectTree.Value.Order
import EffectTree.Value.Percent
import EffectTree.Value.Seating
import EffectTree.Value.Sequence
import EffectTree.Value.Show
import EffectTree.Value.Sorting
