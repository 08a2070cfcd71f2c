import StaticReflection.LogFormat
import StaticReflection.Proofs.Declarations.Discovery
import StaticReflection.Proofs.Declarations.EqualStatements
import StaticReflection.Proofs.Declarations.FileHeadings
import StaticReflection.Proofs.Declarations.LastDeclaration
import StaticReflection.Proofs.Declarations.NameCase
import StaticReflection.Proofs.Declarations.OptionalParameters
import StaticReflection.Proofs.Declarations.ParentNames
import StaticReflection.Proofs.Declarations.RejectedFiles
import StaticReflection.Proofs.Declarations.SkippedStatements
import StaticReflection.Proofs.Declarations.TypeRoundTrip
import StaticReflection.Proofs.Evaluation.ConstantCycles
import StaticReflection.Proofs.Evaluation.CycleReports
import StaticReflection.Proofs.Evaluation.DefaultConstants
import StaticReflection.Proofs.Evaluation.Footprint
import StaticReflection.Proofs.Evaluation.KeptValues
import StaticReflection.Proofs.Evaluation.NamedArguments
import StaticReflection.Proofs.Evaluation.NormalizedAnswers
import StaticReflection.Proofs.Evaluation.QuietMode
import StaticReflection.Proofs.Evaluation.RepeatedConstants
import StaticReflection.Proofs.Evaluation.SessionAnswers
import StaticReflection.Proofs.Evaluation.WiderBounds
import StaticReflection.Proofs.Parser.Arenas
import StaticReflection.Proofs.Parser.CommonDeclarations
import StaticReflection.Proofs.Parser.CommonExpressions
import StaticReflection.Proofs.Parser.CommonStatements
import StaticReflection.Proofs.Parser.CommonTokens
import StaticReflection.Proofs.Parser.Composition
import StaticReflection.Proofs.Parser.DeclarationNodes
import StaticReflection.Proofs.Parser.DepthLimit
import StaticReflection.Proofs.Parser.ExpressionNodes
import StaticReflection.Proofs.Parser.ExpressionProgress
import StaticReflection.Proofs.Parser.FunctionBodies
import StaticReflection.Proofs.Parser.GroupedImports
import StaticReflection.Proofs.Parser.ImportStatements
import StaticReflection.Proofs.Parser.OpenNodes
import StaticReflection.Proofs.Parser.Operands
import StaticReflection.Proofs.Parser.Persistence
import StaticReflection.Proofs.Parser.Precedence
import StaticReflection.Proofs.Parser.ProductionProgress
import StaticReflection.Proofs.Parser.Progress
import StaticReflection.Proofs.Parser.RenderedExpressions
import StaticReflection.Proofs.Parser.RoundTrip
import StaticReflection.Proofs.Parser.ShiftedDeclarations
import StaticReflection.Proofs.Parser.ShiftedExpressions
import StaticReflection.Proofs.Parser.ShiftedStatements
import StaticReflection.Proofs.Parser.ShiftedTokens
import StaticReflection.Proofs.Parser.Signatures
import StaticReflection.Proofs.Parser.StatementNodes
import StaticReflection.Proofs.Parser.Steps
import StaticReflection.Proofs.Parser.Termination
import StaticReflection.Proofs.Parser.TokenRuns
import StaticReflection.Proofs.Parser.UnlimitedSigns
import StaticReflection.Proofs.Reflection.Ancestors
import StaticReflection.Proofs.Reflection.FirstAnswers
import StaticReflection.Proofs.Reflection.ImplicitAbstract
import StaticReflection.Proofs.Reflection.InheritanceCycles
import StaticReflection.Proofs.Reflection.MemberListing
import StaticReflection.Proofs.Reflection.PrivateMembers
import StaticReflection.Proofs.Reflection.Quiescence
import StaticReflection.Proofs.Scanner.ByteScans
import StaticReflection.Proofs.Scanner.CommonTokens
import StaticReflection.Proofs.Scanner.DocComments
import StaticReflection.Proofs.Scanner.HeredocBodies
import StaticReflection.Proofs.Scanner.IntegerLiterals
import StaticReflection.Proofs.Scanner.LineNumbers
import StaticReflection.Proofs.Scanner.Locality
import StaticReflection.Proofs.Scanner.LookAhead
import StaticReflection.Proofs.Scanner.QuotedStrings
import StaticReflection.Proofs.Scanner.RenderedNames
import StaticReflection.Proofs.Scanner.RenderedTokens
import StaticReflection.Proofs.Scanner.Rewinding
import StaticReflection.Proofs.Scanner.ShiftedText
import StaticReflection.Proofs.Scanner.Tiling
import StaticReflection.Proofs.Scanner.TokenContext
import StaticReflection.Proofs.Scanner.TokenRoundTrip
import StaticReflection.Proofs.Scanner.WholeText
import StaticReflection.Proofs.Scanner.Words
import StaticReflection.Proofs.Values.ArrayUnion
import StaticReflection.Proofs.Values.Comparison
import StaticReflection.Proofs.Values.Doubles
import StaticReflection.Proofs.Values.IntegerOperators
import StaticReflection.Proofs.Values.Json
import StaticReflection.Proofs.Values.NextKey
import StaticReflection.Proofs.Values.NumericStrings
import StaticReflection.Proofs.Values.Paths
import StaticReflection.Proofs.Values.StringKeys
import StaticReflection.Proofs.Values.TextDecoding
import StaticReflection.Reflection.Query
