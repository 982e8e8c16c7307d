import StyleSyntax.Expression
import StyleSyntax.Lexer.Cursor
import StyleSyntax.Main
import StyleSyntax.Parser.Stream
import StyleSyntax.Proofs.Document.ErrorPositions
import StyleSyntax.Proofs.Document.RoundTrip
import StyleSyntax.Proofs.Document.TreePositions
import StyleSyntax.Proofs.Document.ErrorsInBrackets
import StyleSyntax.Proofs.Lexer.SymbolRuns
import StyleSyntax.Proofs.Lexer.Tiling
import StyleSyntax.Proofs.Parser.RecastMatching
import StyleSyntax.Proofs.Parser.RecastRepetition
import StyleSyntax.Proofs.Grammar.RecastPhrases
import StyleSyntax.Proofs.Grammar.RecastStylesheet
import StyleSyntax.Proofs.Document.LexerFlags
import StyleSyntax.Proofs.Grammar.PlainSelectors
import StyleSyntax.Proofs.Grammar.Keywords
import StyleSyntax.Proofs.Parser.Success
import StyleSyntax.Proofs.Tree.Extension
import StyleSyntax.Proofs.Grammar.SharedSelectors
import StyleSyntax.Proofs.Parser.Outside
import StyleSyntax.Proofs.Grammar.SharedDeclarations
import StyleSyntax.Proofs.Document.Extension
import StyleSyntax.Proofs.Lexer.DeepLexing
import StyleSyntax.Proofs.Document.BlockErrors
import StyleSyntax.Proofs.Lexer.Lexemes
import StyleSyntax.Proofs.Parser.Reads
import StyleSyntax.Proofs.Parser.ReadsTokens
import StyleSyntax.Proofs.RuleSet.Compounds
import StyleSyntax.Proofs.RuleSet.Declarations
import StyleSyntax.Proofs.RuleSet.Recovery
import StyleSyntax.Proofs.Document.Origins
import StyleSyntax.Proofs.Document.TreeShape
import StyleSyntax.Proofs.Parser.Comparison
import StyleSyntax.Proofs.Parser.ComparisonMatching
import StyleSyntax.Proofs.Parser.ComparisonRepetition
import StyleSyntax.Proofs.Grammar.SolidPhrases
import StyleSyntax.Proofs.Grammar.ComparedPhrases
import StyleSyntax.Proofs.Grammar.ComparedStatements
import StyleSyntax.Proofs.Grammar.BodyDepth
import StyleSyntax.Proofs.Document.TriviaContent
import StyleSyntax.Proofs.Parser.Cut
import StyleSyntax.Proofs.Grammar.CutStatements
import StyleSyntax.Proofs.Document.SingleNodes
import StyleSyntax.Proofs.Lexer.JoinedSymbols
import StyleSyntax.Proofs.Lexer.BalancedSpans
import StyleSyntax.Proofs.Grammar.Probes
import StyleSyntax.Proofs.Grammar.NestedRules
import StyleSyntax.Proofs.Lexer.CommentDelimiters
import StyleSyntax.Proofs.Lexer.CommentsInBraces
import StyleSyntax.Proofs.Grammar.AtRuleNames
import StyleSyntax.Proofs.Parser.ListRounds
import StyleSyntax.Proofs.Parser.FirstSuccess
import StyleSyntax.Proofs.Grammar.Footing
import StyleSyntax.Proofs.Grammar.CapturedSource
import StyleSyntax.Proofs.Document.NestedReading
import StyleSyntax.Proofs.Parser.FurthestSuccess
import StyleSyntax.Proofs.Parser.LongestSymbol
import StyleSyntax.Proofs.Grammar.DeclarationBodies
import StyleSyntax.Proofs.Grammar.SelectorFragments
import StyleSyntax.Proofs.Grammar.ScriptExtent
import StyleSyntax.Proofs.Lexer.FirstFault
import StyleSyntax.Proofs.Lexer.TokenClasses
import StyleSyntax.Proofs.Document.DumpLines
import StyleSyntax.Proofs.Grammar.IdentifierExtent
import StyleSyntax.Proofs.Lexer.StreamRuns
import StyleSyntax.Proofs.Parser.NestedStreams
