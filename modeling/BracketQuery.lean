import BracketQuery.Main
import BracketQuery.Proofs.OpenPhrase
import BracketQuery.Proofs.Derivation
import BracketQuery.Proofs.Acceptance
import BracketQuery.Proofs.Limit
import BracketQuery.Proofs.Canonical
import BracketQuery.Proofs.Rescan
import BracketQuery.Proofs.Unparse
import BracketQuery.Proofs.Unscan
import BracketQuery.Proofs.Words
import BracketQuery.Proofs.Layout
import BracketQuery.Proofs.MergedConditions
import BracketQuery.Proofs.Gather
import BracketQuery.Proofs.Flow
import BracketQuery.Proofs.PlainWord
import BracketQuery.Proofs.SqlTokens
import BracketQuery.Proofs.PlainLayout
import BracketQuery.Proofs.Descent
import BracketQuery.Proofs.LineMarks
import BracketQuery.Proofs.Continuation
import BracketQuery.Proofs.Frame
import BracketQuery.Proofs.Faithful
import BracketQuery.Proofs.Channels
import BracketQuery.Proofs.QuotedText
import BracketQuery.Proofs.Requalify
import BracketQuery.Proofs.CallTree
import BracketQuery.Proofs.ArgumentCuts
import BracketQuery.Proofs.Cursor
import BracketQuery.Proofs.CursorAgreement
import BracketQuery.Proofs.CursorDiscipline
import BracketQuery.Proofs.FaultPlace
import BracketQuery.Proofs.FlatCall
import BracketQuery.Proofs.LineCut
import BracketQuery.Proofs.LineBreak
import BracketQuery.Proofs.Labels
import BracketQuery.Proofs.Collation
import BracketQuery.Proofs.Sections
import BracketQuery.Proofs.Paging
import BracketQuery.Proofs.Recasing
import BracketQuery.Proofs.ClauseOrder
import BracketQuery.Proofs.Pieces
import BracketQuery.Proofs.KeywordSpelling
import BracketQuery.Proofs.Embedding
import BracketQuery.Proofs.BracketPairs
import BracketQuery.Proofs.Lossless
import BracketQuery.Proofs.TokenShape
import BracketQuery.Proofs.LineFeed
