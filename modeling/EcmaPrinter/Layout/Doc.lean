/-
# Documents

What a node prints as, before it is known in which mode: a document is a sequence
of texts, optional blanks and line breaks, marks and comments. The same document
serves both modes, because a compact printer merely skips the optional parts.

A document may fail. What stands in front of the failure is written, and nothing
behind it.

Key definitions: `Doc`, `Item`, `Doc.list`.
-/
import EcmaPrinter.Layout.Error
import EcmaPrinter.Layout.ListFormat
import EcmaPrinter.Source.Span

namespace EcmaPrinter

inductive Doc where
  | empty
  /-- A text that both modes write. -/
  | text (s : String)
  /-- A blank of formatted text. -/
  | softSpace
  /-- A line break of formatted text. -/
  | softLine
  /-- A line break of compact text. -/
  | compactLine
  /-- Notes that the node with this span starts here. -/
  | mark (span : Span)
  /-- The comments in front of the node with this span. -/
  | comments (span : Span)
  /-- A part that is one level deeper. -/
  | nest (body : Doc)
  | fail (error : EmitError)
  | append (first second : Doc)

namespace Doc

instance : Append Doc := ⟨Doc.append⟩

instance : Coe String Doc := ⟨Doc.text⟩

/-- A blank that both modes need. -/
def space : Doc := .text " "

/-- A blank that is needed in compact text only under a condition. -/
def spaceIf (isNeeded : Bool) : Doc := if isNeeded then space else .softSpace

/-- A document that is there only under a condition. -/
def when (condition : Bool) (d : Doc) : Doc := if condition then d else .empty

/-- Fails with an error unless a condition holds. -/
def check (condition : Bool) (error : EmitError) : Doc :=
  if condition then .empty else .fail error

/-- Fails because a kind of syntax is present that is not rendered. -/
def reject (isPresent : Bool) (kind : NodeKind) : Doc := check (!isPresent) (.unimplemented kind)

def between (opening closing : String) (d : Doc) : Doc := .text opening ++ d ++ .text closing

end Doc

/-- An item of a list: its document, and the span that decides on line breaks. -/
structure Item where
  span : Span
  doc : Doc

namespace ListFormat

/-- Whether the source broke the line between two places, as far as that is known. -/
def sourceBreaks (f : ListFormat) (first second : Span) : Bool :=
  if f.prefersNewLine || first.isSynthesized || second.isSynthesized then f.prefersNewLine
  else !first.startsOnLineOf second

/-- A line break behind the opening bracket, in front of the item `first`. -/
def breaksBeforeFirst (f : ListFormat) (parent first : Span) : Bool :=
  match f.lines with
  | .multi => true
  | .preserve => f.sourceBreaks parent first
  | .single => false

/-- A line break between two items. -/
def breaksBetween (f : ListFormat) (previous next : Span) : Bool :=
  match f.lines with
  | .multi => true
  | .preserve => f.sourceBreaks previous next
  | .single => false

/-- A line break behind the item `last`, in front of the closing bracket. -/
def breaksAfterLast (f : ListFormat) (parent last : Span) : Bool :=
  match f.lines with
  | .multi => !f.noTrailingNewLine
  | .preserve => f.sourceBreaks parent last
  | .single => false

end ListFormat

namespace Doc

/-- A line break, or a blank where there is none. -/
def breakOr (isBroken isSpaced : Bool) : Doc :=
  if isBroken then .softLine else if isSpaced then .softSpace else .empty

/-- An item with its comments. -/
def listItem (f : ListFormat) (item : Item) : Doc :=
  when (!f.noInterveningComments) (.comments item.span) ++ item.doc

/-- The items behind the first one, each with what separates it from the item
before it. -/
def listTail (f : ListFormat) (previous : Span) : List Item → Doc
  | [] => .empty
  | item :: rest =>
    .text f.delimiter.text ++ breakOr (f.breaksBetween previous item.span) f.spaceBetweenSiblings
      ++ listItem f item ++ listTail f item.span rest

/-- The span of the last of some items. -/
def lastSpan (span : Span) : List Item → Span
  | [] => span
  | item :: rest => lastSpan item.span rest

/-- What stands inside the brackets of a list. -/
def listBody (parent : Span) (f : ListFormat) : List Item → Doc
  | [] =>
    if f.isMultiLine then .softLine
    else when (f.spaceBetweenBraces && !f.noSpaceIfEmpty) .softSpace
  | first :: rest =>
    let items := listItem f first ++ listTail f first.span rest
    breakOr (f.breaksBeforeFirst parent first.span) f.spaceBetweenBraces
      ++ (if f.isIndented then .nest items else items)
      ++ breakOr (f.breaksAfterLast parent (lastSpan first.span rest)) f.spaceBetweenBraces

/-- A list of items under a format. `parent` is the span of the node that owns the
list. -/
def list (parent : Span) (f : ListFormat) (items : List Item) : Doc :=
  if items.isEmpty && f.isOptionalIfEmpty then .empty
  else
    .text (f.brackets.opening.getD "") ++ listBody parent f items
      ++ .text (f.brackets.closing.getD "")

/-- A list that may be absent, which is not the same as empty. -/
def listIfAny (parent : Span) (f : ListFormat) (items : Option (List Item)) : Doc :=
  if items.isNone && f.isOptionalIfAbsent then .empty else list parent f (items.getD [])

end Doc

end EcmaPrinter
