import AskSql.Main
import AskSql.Proofs.Clause.Binding
import AskSql.Proofs.Compiler.SourceTable
import AskSql.Proofs.Idiom.Canonical
import AskSql.Proofs.Idiom.Names
import AskSql.Proofs.Session.Dictionary
import AskSql.Proofs.Session.Isolation
import AskSql.Proofs.Sql.Lexer
import AskSql.Proofs.Sql.Limits
import AskSql.Proofs.Sql.Statement
import AskSql.Proofs.Translate.Current
import AskSql.Proofs.Translate.Native
import AskSql.Proofs.Translate.Passes
import AskSql.Proofs.Translate.Precision
import AskSql.Proofs.Translate.QuotedNames
import AskSql.Proofs.Translate.Untouched
import AskSql.Proofs.Vocabulary.Lexicon
import AskSql.Proofs.Text.WordCount
import AskSql.Proofs.Translate.TwoLimits
import AskSql.Proofs.Idiom.References
import AskSql.Proofs.Translate.References
import AskSql.Proofs.Translate.OtherUnits
import AskSql.Proofs.Condition.Tokens
import AskSql.Proofs.Condition.Syntax
import AskSql.Proofs.Condition.Joined
import AskSql.Proofs.Condition.Operands
import AskSql.Proofs.Condition.Filters
import AskSql.Proofs.Condition.Renamed
import AskSql.Proofs.Condition.Conjunction
import AskSql.Proofs.Condition.Grammar
import AskSql.Proofs.Sql.LiteralSpans
import AskSql.Proofs.Sql.Ordering
import AskSql.Proofs.LogicalName.Pass
import AskSql.Proofs.LogicalName.Words
import AskSql.Proofs.LogicalName.Quoted
import AskSql.Proofs.Sql.Lookups
import AskSql.Proofs.Sql.Escaping
import AskSql.Proofs.Question.Listing
import AskSql.Proofs.Question.Highlights
import AskSql.Proofs.Question.Shape
import AskSql.Proofs.Question.Growth
import AskSql.Proofs.Clause.Accounting
import AskSql.Proofs.Session.BestEffort
import AskSql.Proofs.Query.Edits
import AskSql.Proofs.Vocabulary.NormalForm
import AskSql.Proofs.Clause.Faithful
import AskSql.Proofs.Json.ReadBack
import AskSql.Proofs.Clause.RoundTrip
import AskSql.Proofs.Sql.OpeningQuote
import AskSql.Proofs.Sql.Arguments
import AskSql.Proofs.Storage.Places
import AskSql.Proofs.Idiom.Ending
import AskSql.Proofs.Idiom.WholeCalls
