import CLexer.Main
import CLexer.Proofs.BoundedText
import CLexer.Proofs.CharConstant
import CLexer.Proofs.Comments
import CLexer.Proofs.Completion
import CLexer.Proofs.Cursor.Refusal
import CLexer.Proofs.Formats
import CLexer.Proofs.Forwarding
import CLexer.Proofs.Lines
import CLexer.Proofs.Listing
import CLexer.Proofs.Loading
import CLexer.Proofs.LongestMatch
import CLexer.Proofs.Operators
import CLexer.Proofs.OptionEffects
import CLexer.Proofs.Overlong
import CLexer.Proofs.Precedence
import CLexer.Proofs.Quotation
import CLexer.Proofs.Rescan
import CLexer.Proofs.Sessions
import CLexer.Proofs.Slices
import CLexer.Proofs.Suggestion
import CLexer.Proofs.Truncation
