import ExScript.Number.FloatText
import ExScript.Number.ReadBack
import ExScript.Text.Blank
import ExScript.Text.DecimalDigit
import ExScript.Text.Quoted
import ExScript.Text.WordChar
import ExScript.Pos
import ExScript.Token
import ExScript.Token.Lexer
import ExScript.Node
import ExScript.Node.Parser
import ExScript.Node.Printer
import ExScript.Failure
import ExScript.Scopes
import ExScript.Source
import ExScript.Streams
import ExScript.Library.Callable
import ExScript.Library.Console
import ExScript.Library.Default
import ExScript.Evaluation
import ExScript.Session
import ExScript.CommandLine
import ExScript.Main
import ExScript.Proofs.Nesting
import ExScript.Proofs.ParserOutput
import ExScript.Proofs.ParserSteps
import ExScript.Proofs.WellFormed
import ExScript.Proofs.FloatBits
import ExScript.Proofs.FloatLiterals
import ExScript.Proofs.Lexemes
import ExScript.Proofs.Spelling
import ExScript.Proofs.PrintedText
import ExScript.Proofs.ReadingExpressions
import ExScript.Proofs.ReadingStatements
import ExScript.Proofs.LargerBudget
import ExScript.Proofs.Positions
import ExScript.Proofs.RoundTrip
import ExScript.Proofs.ChannelFrame
import ExScript.Proofs.ChannelHeight
import ExScript.Proofs.ChannelDiscipline
import ExScript.Proofs.DirectStyle
import ExScript.Proofs.Refinement
import ExScript.Proofs.RelatedTrees
import ExScript.Proofs.Congruence
import ExScript.Proofs.ScopeFrame
import ExScript.Proofs.CallTree
import ExScript.Proofs.MappedFunctions
import ExScript.Proofs.Erasure
import ExScript.Proofs.Grammar
import ExScript.Proofs.GrammarSound
import ExScript.Proofs.Joining
import ExScript.Proofs.ReadingPhrases
import ExScript.Proofs.GrammarComplete
import ExScript.Proofs.PureExpressions
import ExScript.Proofs.ScopeDiscipline
import ExScript.Proofs.MovedPositions
import ExScript.Proofs.SourceLines
import ExScript.Proofs.LexicalLayout
import ExScript.Proofs.MoreTokens
import ExScript.Proofs.Alignment
import ExScript.Proofs.Concatenation
import ExScript.Proofs.Limits
import ExScript.Proofs.Confinement
import ExScript.Proofs.StandardLimits
import ExScript.Proofs.DoubleRange
import ExScript.Proofs.IntegerRange
import ExScript.Proofs.ErrorContainment
import ExScript.Proofs.CallLimit
import ExScript.Proofs.SpelledLines
import ExScript.Proofs.EarlierOutput
import ExScript.Proofs.Interactive
import ExScript.Proofs.ArgumentOrder
import ExScript.Proofs.GrammarWords
import ExScript.Proofs.ViablePrefix
import ExScript.Proofs.FirstWrongToken
import ExScript.Proofs.TokensBehind
import ExScript.Proofs.Lookahead
import ExScript.Proofs.NumberTexts
import ExScript.Proofs.TextConversions
import ExScript.Proofs.CountedLoop
import ExScript.Proofs.NodePositions
import ExScript.Proofs.Trimming
import ExScript.Proofs.IntegerPower
import ExScript.Proofs.IntegerTexts
import ExScript.Proofs.LineEndings
import ExScript.Proofs.LineInput
import ExScript.Proofs.DisplayedFloats
import ExScript.Proofs.PositionalLiterals
import ExScript.Proofs.PrintableTrees
import ExScript.Proofs.Loops
import ExScript.Proofs.Termination
import ExScript.Proofs.EndOfInput
