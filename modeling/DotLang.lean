import DotLang.CommandLine
import DotLang.Graph.Equality
import DotLang.Main
import DotLang.Proofs.Feed
import DotLang.Proofs.Languages
import DotLang.Trace
import DotLang.Proofs.Soundness
import DotLang.Proofs.Completeness
import DotLang.Proofs.TokenSequence
import DotLang.Proofs.Acceptance
import DotLang.Proofs.Viability
import DotLang.Proofs.FirstError
import DotLang.Proofs.Gaps
import DotLang.Proofs.Reformatting
import DotLang.Proofs.Rounding
import DotLang.Proofs.WellFormed
import DotLang.Proofs.Writing
import DotLang.Proofs.Lossless
import DotLang.Proofs.LexerCalls
import DotLang.Proofs.Braces
import DotLang.Proofs.Nesting
import DotLang.Proofs.NestingLimit
import DotLang.Proofs.FurtherLines
import DotLang.Proofs.GraphsInFront
import DotLang.Proofs.Concatenation
import DotLang.Graph.Contents
import DotLang.Proofs.BoundedRuns
import DotLang.Proofs.WrittenIds
import DotLang.Proofs.Contents
import DotLang.Proofs.Condensing
import DotLang.Proofs.Separators
import DotLang.Proofs.DecimalValue
import DotLang.Proofs.NumberText
import DotLang.Proofs.JsonText
import DotLang.Proofs.GraphJson
import DotLang.Proofs.Standing
import DotLang.Proofs.Excerpts
import DotLang.Proofs.OpenSubgraphs
import DotLang.Proofs.CountedRuns
import DotLang.Proofs.Expectations
import DotLang.Proofs.QuotedStrings
import DotLang.Proofs.HtmlStrings
import DotLang.Proofs.Walks
import DotLang.Proofs.OutlineLines
import DotLang.Proofs.ByteOrderMark
import DotLang.Proofs.Progress
import DotLang.Proofs.Nearest
import DotLang.Proofs.Numerals
import DotLang.Proofs.Files
