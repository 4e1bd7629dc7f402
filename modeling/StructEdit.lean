import StructEdit.Pattern.Parser
import StructEdit.Cursor.Partner
import StructEdit.Command
import StructEdit.Indent.Config
import StructEdit.Proofs.Text.Breaks
import StructEdit.Proofs.Buffer.Offsets
import StructEdit.Proofs.Buffer.Replace
import StructEdit.Proofs.Buffer.Settled
import StructEdit.Proofs.Scan.Partition
import StructEdit.Proofs.Cursor.Places
import StructEdit.Proofs.Cursor.Motions
import StructEdit.Proofs.Document.Work
import StructEdit.Proofs.Document.Performing
import StructEdit.Proofs.Document.Turns
import StructEdit.Proofs.Document.Standing
import StructEdit.Proofs.History.Replay
import StructEdit.Proofs.History.Merging
import StructEdit.Proofs.Document.RoundTrip
import StructEdit.Proofs.Balance.Reading
import StructEdit.Proofs.Pattern.Reads
import StructEdit.Proofs.Scan.Terminals
import StructEdit.Proofs.Balance.Tokens
import StructEdit.Proofs.Balance.Balanced
import StructEdit.Proofs.Balance.Pieces
import StructEdit.Proofs.Balance.Walks
import StructEdit.Proofs.Balance.Standpoints
import StructEdit.Proofs.Balance.Carets
import StructEdit.Proofs.Balance.Edits
import StructEdit.Proofs.Balance.Lists
import StructEdit.Proofs.Balance.Killing
import StructEdit.Proofs.Balance.Slurping
import StructEdit.Proofs.Balance.Raising
import StructEdit.Proofs.Balance.Convoluting
import StructEdit.Proofs.Balance.Commands
import StructEdit.Proofs.Cursor.Counting
import StructEdit.Proofs.Document.Refusing
import StructEdit.Proofs.Scan.Brackets
import StructEdit.Proofs.Checked.Flush
import StructEdit.Proofs.Checked.Motions
import StructEdit.Proofs.Checked.Documents
import StructEdit.Proofs.Checked.Indent
import StructEdit.Proofs.Checked.Lists
import StructEdit.Proofs.Checked.Commands
import StructEdit.Proofs.Cursor.Strings
import StructEdit.Proofs.Buffer.Tracking
import StructEdit.Proofs.Buffer.Accounting
import StructEdit.Proofs.Document.SingleStep
import StructEdit.Proofs.Buffer.Splicing
import StructEdit.Proofs.Cursor.Levels
import StructEdit.Proofs.Cursor.Duality
import StructEdit.Proofs.Document.Carrying
import StructEdit.Proofs.Document.Gaps
import StructEdit.Proofs.Document.Restoring
import StructEdit.Proofs.Document.Atoms
import StructEdit.Proofs.Scan.Errors
import StructEdit.Proofs.Balance.Slips
import StructEdit.Proofs.Document.Closing
import StructEdit.Proofs.Buffer.Positions
import StructEdit.Proofs.Cursor.Walking
import StructEdit.Proofs.Checked.Termination
import StructEdit.Proofs.Document.Growing
import StructEdit.Proofs.Indent.Merging
import StructEdit.Proofs.Document.Vertical
import StructEdit.Proofs.Indent.Enclosing
import StructEdit.Proofs.Indent.TopLevel
import StructEdit.Proofs.Text.Bytes
import StructEdit.Proofs.Text.Lines
import StructEdit.Proofs.Checked.Lexer
import StructEdit.Proofs.Scan.Conservation
import StructEdit.Proofs.Checked.Cascades
