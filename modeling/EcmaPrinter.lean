import EcmaPrinter.Json.Text
import EcmaPrinter.LogFormat
import EcmaPrinter.Print
import EcmaPrinter.Proofs.Emit.Support
import EcmaPrinter.Proofs.Layout.Modes
import EcmaPrinter.Proofs.Lexical.Expression
import EcmaPrinter.Proofs.Json.Canonical
import EcmaPrinter.Proofs.Json.Lookup
import EcmaPrinter.Proofs.Tree.Fields
import EcmaPrinter.Proofs.Tree.Reread
import EcmaPrinter.Proofs.Emit.Brackets
import EcmaPrinter.Proofs.Emit.Comments
import EcmaPrinter.Proofs.Emit.Concatenation
import EcmaPrinter.Proofs.Emit.FirstText
import EcmaPrinter.Proofs.Emit.Marks
import EcmaPrinter.Proofs.Emit.Outline
import EcmaPrinter.Proofs.Json.Fitting
import EcmaPrinter.Proofs.Json.Lexing
import EcmaPrinter.Proofs.Json.Parsing
import EcmaPrinter.Proofs.Source.Segments
import EcmaPrinter.Proofs.Tree.Decoded
import EcmaPrinter.Proofs.Tree.Roots
import EcmaPrinter.Proofs.Tree.RoundTrip
import EcmaPrinter.Proofs.Emit.Reprint
import EcmaPrinter.Proofs.Lexical.StringValue
import EcmaPrinter.Proofs.Layout.Laid
import EcmaPrinter.Proofs.Emit.Joints
import EcmaPrinter.Proofs.Emit.Keywords
import EcmaPrinter.Proofs.Emit.Spine
import EcmaPrinter.Proofs.Emit.Beginnings
import EcmaPrinter.Proofs.Emit.Openings
import EcmaPrinter.Proofs.Emit.Signs
import EcmaPrinter.Proofs.Lexical.Terminated
import EcmaPrinter.Proofs.Layout.Operations
import EcmaPrinter.Proofs.Emit.Terminators
import EcmaPrinter.Proofs.Emit.Elisions
import EcmaPrinter.Proofs.Lexical.Skeleton
import EcmaPrinter.Proofs.Emit.PlainStarts
import EcmaPrinter.Proofs.Emit.Branches
import EcmaPrinter.Proofs.Emit.PlainParts
import EcmaPrinter.Proofs.Source.Finding
import EcmaPrinter.Proofs.Source.Anchors
import EcmaPrinter.Proofs.Source.Blanking
import EcmaPrinter.Proofs.Source.Cursor
import EcmaPrinter.Proofs.Emit.Specifiers
import EcmaPrinter.Proofs.Emit.IndentWidth
import EcmaPrinter.Proofs.Emit.LineBreaks
import EcmaPrinter.Proofs.Tree.Dispatch
import EcmaPrinter.Proofs.Tree.KnownKeys
