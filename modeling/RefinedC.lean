import RefinedC.Caesium.NotTorn
import RefinedC.Caesium.ByteOrder
import RefinedC.Frontend.CallResolution
import RefinedC.Frontend.Effects
import RefinedC.Frontend.RaceWarning
import RefinedC.Frontend.CoqAst
import RefinedC.Frontend.TypeLayout
import RefinedC.Caesium.Placement
import RefinedC.Frontend.PpStruct
import RefinedC.Frontend.NaturalLayout
import RefinedC.Frontend.StructAgreement
import RefinedC.Frontend.StructDecls
import RefinedC.Frontend.UnionPadding
import RefinedC.Frontend.TranslateExpr
import RefinedC.Frontend.TranslateBlock
import RefinedC.Frontend.StmtSemantics
import RefinedC.Frontend.Translates
import RefinedC.Frontend.StmtSyntax
import RefinedC.Frontend.BlockCode
import RefinedC.Frontend.ControlFlow
import RefinedC.Frontend.Locals
import RefinedC.Frontend.Lp64
import RefinedC.Frontend.EmittedFunction
import RefinedC.Frontend.CTyping
import RefinedC.Frontend.NaturalType
import RefinedC.Frontend.TypeConsistency
import RefinedC.Caesium.AllocHistory
import RefinedC.Caesium.StackDiscipline
import RefinedC.Caesium.Determinism
import RefinedC.Caesium.PointerCast
import RefinedC.Frontend.CallSites
import RefinedC.Frontend.AttributeOrder
import RefinedC.Frontend.CoqPath
import RefinedC.Library.Persistent
import RefinedC.Library.TextLines
import RefinedC.Frontend.CheckCommand
import RefinedC.Frontend.CleanCommand
import RefinedC.Frontend.ProjectPaths
import RefinedC.Frontend.CoqProject
import RefinedC.Frontend.CheckThenClean
import RefinedC.Frontend.ProofFiles
import RefinedC.Frontend.RelativePath
import RefinedC.Frontend.ArgAnnotations
import RefinedC.Frontend.MemoryOrders
import RefinedC.Frontend.FreshLabels
import RefinedC.Frontend.SwitchLabels
import RefinedC.Frontend.BlockAssertions
import RefinedC.Frontend.StructSort
import RefinedC.Frontend.WellBracketed
import RefinedC.Frontend.CommentAnnot
import RefinedC.Frontend.TaggedUnion
import RefinedC.Frontend.ProofStatement
import RefinedC.Frontend.EscapeAnalysis
import RefinedC.Frontend.EscapeRuns
import RefinedC.Frontend.EscapeCoverage
import RefinedC.Frontend.EscapeWarned
import RefinedC.Library.IntBits
import RefinedC.Caesium.IntCodec
import RefinedC.Caesium.IntOperators
import RefinedC.Caesium.CastRoundTrip
import RefinedC.Caesium.Bitfield
import RefinedC.Frontend.CoqPathRepair
import RefinedC.Caesium.PointerOrder
import RefinedC.Library.Pieces
import RefinedC.Caesium.MemCastFixpoint
import RefinedC.Caesium.Notation
import RefinedC.Caesium.StructAccess
import RefinedC.Caesium.Reified
import RefinedC.Caesium.ReifiedSubst
import RefinedC.Frontend.StateDescr
import RefinedC.Library.Tuple
import RefinedC.Frontend.CoqText
import RefinedC.Frontend.TuplePrinting
import RefinedC.Frontend.LocAnnot
import RefinedC.Caesium.DataRace
import RefinedC.Caesium.MemorySafety
import RefinedC.Caesium.FrameRun
import RefinedC.Caesium.Evaluation
import RefinedC.Caesium.FindFill
import RefinedC.Caesium.WellScoped
import RefinedC.Frontend.FunctionScope
import RefinedC.Frontend.EmittedProgram
import RefinedC.Frontend.FrameControlFlow
import RefinedC.Frontend.ExprSemantics
import RefinedC.Frontend.ExprPreservation
import RefinedC.Frontend.ValueEncoding
