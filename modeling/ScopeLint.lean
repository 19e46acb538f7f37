import ScopeLint.Text.CodeRange
import ScopeLint.Text.Letter
import ScopeLint.Text.Digit
import ScopeLint.Text.Numeral
import ScopeLint.Text.Uppercase
import ScopeLint.Text.Printable
import ScopeLint.Text.Quoted
import ScopeLint.Text.Utf8
import ScopeLint.Log
import ScopeLint.Place
import ScopeLint.Token.Kind
import ScopeLint.Token.Basic
import ScopeLint.Token.Lexeme
import ScopeLint.Token.Scan
import ScopeLint.Token.Event
import ScopeLint.Token.Session
import ScopeLint.Tree.Node
import ScopeLint.Tree.Describe
import ScopeLint.Tree.Sameness
import ScopeLint.Grammar.Cursor
import ScopeLint.Grammar.Fault
import ScopeLint.Grammar.Event
import ScopeLint.Grammar.Reading
import ScopeLint.Grammar.Ascription
import ScopeLint.Grammar.Pattern
import ScopeLint.Grammar.Block
import ScopeLint.Grammar.Expression
import ScopeLint.Grammar.Definition
import ScopeLint.Diagnostic
import ScopeLint.Scope.Binding
import ScopeLint.Scope.State
import ScopeLint.Scope.Session
import ScopeLint.Check.Event
import ScopeLint.Check.Checking
import ScopeLint.Check.Visit
import ScopeLint.Report
import ScopeLint.CommandLine.Options
import ScopeLint.CommandLine.Usage
import ScopeLint.CommandLine.Demo
import ScopeLint.CommandLine.Run
import ScopeLint.Main
import ScopeLint.Proofs.Scope.History
import ScopeLint.Proofs.Scope.EventSteps
import ScopeLint.Proofs.Tree.Standing
import ScopeLint.Proofs.Check.Resolution
import ScopeLint.Proofs.Grammar.Ensures
import ScopeLint.Proofs.Grammar.Word
import ScopeLint.Proofs.Grammar.Spelling
import ScopeLint.Proofs.Grammar.Passage
import ScopeLint.Proofs.Grammar.PatternReading
import ScopeLint.Proofs.Grammar.StatementReading
import ScopeLint.Proofs.Grammar.ExpressionReading
import ScopeLint.Proofs.Grammar.ModuleReading
import ScopeLint.Proofs.Tree.Printing
import ScopeLint.Proofs.Token.Lexemes
import ScopeLint.Proofs.Token.Relexing
import ScopeLint.Proofs.Grammar.Rereading
import ScopeLint.Proofs.Grammar.Reprinting
import ScopeLint.Proofs.Grammar.PatternReprinting
import ScopeLint.Proofs.Grammar.StatementReprinting
import ScopeLint.Proofs.Grammar.ExpressionReprinting
import ScopeLint.Proofs.Grammar.ModuleReprinting
import ScopeLint.Proofs.Check.Descent
import ScopeLint.Proofs.Check.Acceptance
import ScopeLint.Proofs.Grammar.Forward
import ScopeLint.Proofs.Tree.Outline
import ScopeLint.Proofs.Grammar.Tracking
import ScopeLint.Proofs.Grammar.PatternTracking
import ScopeLint.Proofs.Grammar.StatementTracking
import ScopeLint.Proofs.Grammar.ExpressionTracking
import ScopeLint.Proofs.Grammar.ModuleTracking
import ScopeLint.Proofs.Grammar.FaultLocality
import ScopeLint.Proofs.Check.Layout
import ScopeLint.Proofs.Grammar.Parts
import ScopeLint.Proofs.Token.Concatenation
import ScopeLint.Proofs.Grammar.Concatenation
import ScopeLint.Proofs.Token.Tiling
import ScopeLint.Proofs.Scope.StepHistory
import ScopeLint.Proofs.Scope.SessionHistory
import ScopeLint.Proofs.Check.Unwinding
import ScopeLint.Proofs.Grammar.Composition
import ScopeLint.Proofs.Grammar.Invalid
import ScopeLint.Proofs.Scope.Continuation
import ScopeLint.Proofs.Check.Independence
import ScopeLint.Proofs.Token.Respacing
import ScopeLint.Proofs.CommandLine.Arguments
import ScopeLint.Proofs.CommandLine.Outcome
import ScopeLint.Proofs.Check.Discarded
import ScopeLint.Proofs.Grammar.Brackets
import ScopeLint.Proofs.Scope.Renaming
import ScopeLint.Proofs.Check.Renaming
import ScopeLint.Proofs.Grammar.Depth
import ScopeLint.Proofs.Grammar.Climbing
import ScopeLint.Proofs.Scope.Insertion
import ScopeLint.Proofs.Check.Insertion
import ScopeLint.Proofs.Token.Slices
import ScopeLint.Proofs.Grammar.AscriptionEnd
import ScopeLint.Proofs.Grammar.AscriptionText
import ScopeLint.Proofs.Token.LongestMatch
import ScopeLint.Proofs.Token.StringLiterals
import ScopeLint.Proofs.Token.Positions
import ScopeLint.Proofs.Token.DottedWords
import ScopeLint.Proofs.Grammar.FieldChains
import ScopeLint.Proofs.Grammar.Anchoring
import ScopeLint.Proofs.Grammar.PatternAnchoring
import ScopeLint.Proofs.Grammar.ExpressionAnchoring
import ScopeLint.Proofs.Grammar.ModuleAnchoring
import ScopeLint.Proofs.Grammar.ClauseEnd
import ScopeLint.Proofs.Grammar.Nesting
import ScopeLint.Proofs.Grammar.CaseReading
import ScopeLint.Proofs.Grammar.ClauseComposition
import ScopeLint.Proofs.Check.Confinement
import ScopeLint.Proofs.Token.Records
import ScopeLint.Proofs.Check.Names
import ScopeLint.Proofs.Report.Codes
import ScopeLint.Proofs.Report.Lines
import ScopeLint.Proofs.Scope.EventSteps
