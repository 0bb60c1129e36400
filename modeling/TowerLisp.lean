import TowerLisp.Binary64.Basic
import TowerLisp.Binary64.Shortest
import TowerLisp.Builtin.Effect
import TowerLisp.Builtin.Numeric
import TowerLisp.Builtin.Pure
import TowerLisp.Decimal.Basic
import TowerLisp.Decimal.Written
import TowerLisp.Eval.Datum
import TowerLisp.Eval.Quasi
import TowerLisp.Eval.Special
import TowerLisp.Eval.Step
import TowerLisp.Eval.World
import TowerLisp.Fault
import TowerLisp.File.Path
import TowerLisp.File.Tree
import TowerLisp.Form.Basic
import TowerLisp.Form.Reader
import TowerLisp.Main
import TowerLisp.Number.Arith
import TowerLisp.Number.Basic
import TowerLisp.Number.Compare
import TowerLisp.Number.Convert
import TowerLisp.Number.Kind
import TowerLisp.Number.Mark
import TowerLisp.Number.Modulo
import TowerLisp.Number.Offered
import TowerLisp.Number.Power
import TowerLisp.Number.Written
import TowerLisp.Proofs.Atoms
import TowerLisp.Proofs.DatumReading
import TowerLisp.Proofs.ExactNumbers
import TowerLisp.Proofs.ExactScalars
import TowerLisp.Proofs.IntegerText
import TowerLisp.Proofs.Lexing
import TowerLisp.Proofs.EvaluatorRelations
import TowerLisp.Proofs.LimitRefinement
import TowerLisp.Proofs.NumberText
import TowerLisp.Proofs.NumberTokens
import TowerLisp.Proofs.Outcomes
import TowerLisp.Proofs.ReadBack
import TowerLisp.Proofs.ScanLocality
import TowerLisp.Proofs.Scanning
import TowerLisp.Proofs.StringLiterals
import TowerLisp.Proofs.TailPosition
import TowerLisp.Proofs.TokenConservation
import TowerLisp.Session.Basic
import TowerLisp.Session.CommandLine
import TowerLisp.Session.Console
import TowerLisp.Session.Prelude
import TowerLisp.Session.Settings
import TowerLisp.Store.Basic
import TowerLisp.Store.Bindings
import TowerLisp.Text.Digit
import TowerLisp.Text.Character
import TowerLisp.Text.Numeral
import TowerLisp.Text.Printable
import TowerLisp.Text.Quoted
import TowerLisp.Token.Basic
import TowerLisp.Token.Cursor
import TowerLisp.Token.Scan
import TowerLisp.Token.Stream
import TowerLisp.Value.Basic
import TowerLisp.Value.Equality
import TowerLisp.Value.Primitive
import TowerLisp.Value.Printer
import TowerLisp.Value.Vector
import TowerLisp.Proofs.Frames
import TowerLisp.Proofs.ScopeChains
import TowerLisp.Proofs.PlaceBlindness
import TowerLisp.Proofs.ParallelEvaluation
import TowerLisp.Proofs.RootFrames
import TowerLisp.Proofs.Grammar
import TowerLisp.Proofs.GrammarReading
import TowerLisp.Proofs.GrammarSoundness
import TowerLisp.Proofs.Programs
import TowerLisp.Proofs.CodeReadBack
import TowerLisp.Proofs.TextJoining
import TowerLisp.Proofs.ReaderRelabelling
import TowerLisp.Proofs.Nesting
import TowerLisp.Proofs.JoinedTexts
import TowerLisp.Proofs.ComputedFaults
import TowerLisp.Proofs.PairedReading
import TowerLisp.Proofs.LimitRaising
import TowerLisp.Proofs.FormShapes
import TowerLisp.Proofs.ReadingFaults
import TowerLisp.Proofs.ClosedStores
import TowerLisp.Proofs.Standards
import TowerLisp.Proofs.ShapedEvaluation
import TowerLisp.Proofs.FormSafety
import TowerLisp.Proofs.TemplateFilling
import TowerLisp.Proofs.Quasiquotes
import TowerLisp.Proofs.IntegerPowers
import TowerLisp.Proofs.WrittenNumbers
import TowerLisp.Proofs.DecimalRounding
import TowerLisp.Proofs.DecimalArithmetic
import TowerLisp.Proofs.DecimalRemainders
import TowerLisp.Proofs.QuotedTexts
import TowerLisp.Proofs.QuoteAgreement
import TowerLisp.Proofs.NestingBudgets
import TowerLisp.Proofs.StoreExtension
import TowerLisp.Proofs.QuietForms
import TowerLisp.Proofs.TailDescents
import TowerLisp.Proofs.ProgramDefinitions
import TowerLisp.Proofs.PreludeFolds
import TowerLisp.Proofs.TailBudgets
import TowerLisp.Proofs.ExactRemainders
import TowerLisp.Proofs.ResultKinds
import TowerLisp.Proofs.NumberLiterals
import TowerLisp.Proofs.WellFormedNumbers
import TowerLisp.Proofs.DecimalComparison
import TowerLisp.Proofs.DoubleRounding
import TowerLisp.Proofs.ShortestDigits
import TowerLisp.Proofs.DoubleTexts
import TowerLisp.Proofs.ZeroDivisors
import TowerLisp.Proofs.BindingForms
import TowerLisp.Proofs.EvaluationOrder
import TowerLisp.Proofs.Renumbering
import TowerLisp.Proofs.MirroredRuns
import TowerLisp.Proofs.MirroredEvaluation
import TowerLisp.Proofs.BodyScopes
import TowerLisp.Proofs.LinkedStores
import TowerLisp.Proofs.RecursiveBindings
import TowerLisp.Proofs.ShiftedProcedures
import TowerLisp.Proofs.Desugaring
import TowerLisp.Proofs.PrintedStrings
import TowerLisp.Proofs.TokenSpans
import TowerLisp.Proofs.ReadingBudgets
import TowerLisp.Proofs.LiteralFaults
import TowerLisp.Proofs.ReadingOutcomes
import TowerLisp.Proofs.PreludeLists
import TowerLisp.Proofs.LoneMarks
import TowerLisp.Proofs.ListValues
import TowerLisp.Proofs.ValueEquality
import TowerLisp.Proofs.StringViews
import TowerLisp.Proofs.WrittenFiles
import TowerLisp.Proofs.CursorCalls
import TowerLisp.Proofs.ReadingSteps
