import UntypedLambda.Main
import UntypedLambda.Rejection
import UntypedLambda.Term.AlphaEquality
import UntypedLambda.Term.Outline
import UntypedLambda.Proofs.FreshName
import UntypedLambda.Proofs.Interpretation
import UntypedLambda.Proofs.AlphaEquivalence
import UntypedLambda.Proofs.BoundedReduction
import UntypedLambda.Proofs.NamelessReduction
import UntypedLambda.Proofs.AlphaInvariance
import UntypedLambda.Proofs.Beta
import UntypedLambda.Proofs.Confluence
import UntypedLambda.Proofs.Standardization
import UntypedLambda.Proofs.AcyclicBindings
import UntypedLambda.Proofs.Grammar
import UntypedLambda.Proofs.TermReading
import UntypedLambda.Proofs.StatementReading
import UntypedLambda.Proofs.ValidNames
import UntypedLambda.Proofs.TokenTexts
import UntypedLambda.Proofs.DisplayRoundTrip
import UntypedLambda.Proofs.UncapturedSubstitution
import UntypedLambda.Proofs.ApplicativeEvaluation
import UntypedLambda.Proofs.NumeralDecoding
import UntypedLambda.Proofs.NumeralEvaluation
import UntypedLambda.Proofs.ChurchArithmetic
import UntypedLambda.Proofs.TokenExtents
import UntypedLambda.Proofs.LayoutWords
import UntypedLambda.Proofs.BrokenStatements
import UntypedLambda.Proofs.KeyOrder
import UntypedLambda.Proofs.RegisteredLines
import UntypedLambda.Proofs.NestedLoads
import UntypedLambda.Proofs.Executions
import UntypedLambda.Proofs.ShellHistory
import UntypedLambda.Proofs.EscapedFailures
import UntypedLambda.Proofs.LoadedFiles
import UntypedLambda.Proofs.TrailOrder
import UntypedLambda.Proofs.AlikeSessions
import UntypedLambda.Proofs.CommandWords
import UntypedLambda.Proofs.LogicalLines
import UntypedLambda.Proofs.AgreeingSessions
import UntypedLambda.Proofs.LoadDepth
import UntypedLambda.Proofs.InlinedFiles
import UntypedLambda.Proofs.TypedScripts
import UntypedLambda.Proofs.ScriptErrors
import UntypedLambda.Proofs.ReplayedBindings
import UntypedLambda.Proofs.FreeNames
import UntypedLambda.Proofs.Resolution
import UntypedLambda.Proofs.FailedLines
import UntypedLambda.Proofs.DroppedResults
import UntypedLambda.Proofs.RedexPositions
import UntypedLambda.Proofs.CaptureAvoidance
import UntypedLambda.Proofs.SimultaneousSubstitution
import UntypedLambda.Proofs.ResolvedTerms
import UntypedLambda.Proofs.BetweenLines
import UntypedLambda.Proofs.IteratedSteps
import UntypedLambda.Proofs.PrintedReports
import UntypedLambda.Proofs.PlainSubstitution
import UntypedLambda.Proofs.CyclicBindings
import UntypedLambda.Proofs.UnfoldedDefinitions
import UntypedLambda.Proofs.ExactTokens
import UntypedLambda.Proofs.StatementSources
import UntypedLambda.Proofs.ViablePrefixes
import UntypedLambda.Proofs.RefusedLines
import UntypedLambda.Proofs.CurriedApplication
import UntypedLambda.Proofs.FixedPoints
import UntypedLambda.Proofs.LayoutMeaning
import UntypedLambda.Proofs.Subscripts
import UntypedLambda.Proofs.NextSubscript
import UntypedLambda.Proofs.ReachedNames
