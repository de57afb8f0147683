import TableShell.Numeral
import TableShell.Limits
import TableShell.Fault
import TableShell.Row
import TableShell.Token
import TableShell.IntegerList
import TableShell.Condition
import TableShell.Table.Basic
import TableShell.Table.Algebra
import TableShell.Table.Change
import TableShell.Query
import TableShell.Command
import TableShell.Pipeline
import TableShell.Shell
import TableShell.Display
import TableShell.Performance
import TableShell.Text.Blank
import TableShell.Text.Utf8
import TableShell.Entry
import TableShell.Reader
import TableShell.Conversation
import TableShell.Options
import TableShell.Console
import TableShell.Main
import TableShell.Proofs.Sequence
import TableShell.Proofs.Table.WellFormed
import TableShell.Proofs.Table.Operation
import TableShell.Proofs.Reading
import TableShell.Proofs.Misreading
import TableShell.Proofs.Performance
import TableShell.Proofs.Line
import TableShell.Proofs.Reachable
import TableShell.Proofs.Shown
import TableShell.Proofs.AddLine
import TableShell.Proofs.Evaluation
import TableShell.Proofs.Pipeline
import TableShell.Proofs.QueryLine
import TableShell.Proofs.Ending
import TableShell.Proofs.Session
import TableShell.Proofs.Refusal
import TableShell.Proofs.Stages
import TableShell.Proofs.Text.Split
import TableShell.Proofs.ReadBack
import TableShell.Proofs.RowText
import TableShell.Proofs.Reload
import TableShell.Proofs.Echo
import TableShell.Proofs.Caps
import TableShell.Proofs.Table.Looser
import TableShell.Proofs.WiderLimits
import TableShell.Proofs.Text.Utf8
import TableShell.Proofs.Reader
import TableShell.Proofs.Conversation
import TableShell.Proofs.Stripping
import TableShell.Proofs.Framing
import TableShell.Proofs.Console
import TableShell.Proofs.Tokens
import TableShell.Proofs.Arguments
import TableShell.Proofs.Idle
import TableShell.Proofs.PipedLine
import TableShell.Proofs.Table.Laws
import TableShell.Proofs.Table.Change
import TableShell.Proofs.Table.Selections
import TableShell.Proofs.SelectionLine
import TableShell.Proofs.Text.Lossy
import TableShell.Proofs.WholeInput
