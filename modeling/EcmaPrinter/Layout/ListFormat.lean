/-
# List formats

Every list of the language, from the statements of a block to the arguments of a
call, is laid out by one rule under a format. A format says what stands around
and between the items, where blanks go, and when a line is broken: never, after
every item, or where the source text broke it.

Formats are built from `singleLine` by adding one property at a time; the table
at the end gives the format of each list of the language.

Key definitions: `ListFormat`, `ListFormat.collapsed`, and the table of formats.
-/

namespace EcmaPrinter

/-- When a list breaks lines: never, between all items, or where its source did. -/
inductive LineMode where
  | single
  | multi
  | preserve
deriving DecidableEq

/-- What stands between two items. -/
inductive Delimiter where
  | none
  | comma
  | bar
  | ampersand
  | asterisk
deriving DecidableEq

def Delimiter.text : Delimiter → String
  | .none => ""
  | .comma => ","
  | .bar => " |"
  | .ampersand => " &"
  | .asterisk => " * "

/-- What stands around a list. -/
inductive Brackets where
  | none
  | braces
  | parens
  | angle
  | square
deriving DecidableEq

def Brackets.opening : Brackets → Option String
  | .none => Option.none
  | .braces => some "\x7b"
  | .parens => some "("
  | .angle => some "<"
  | .square => some "["

def Brackets.closing : Brackets → Option String
  | .none => Option.none
  | .braces => some "\x7d"
  | .parens => some ")"
  | .angle => some ">"
  | .square => some "]"

structure ListFormat where
  lines : LineMode
  delimiter : Delimiter
  brackets : Brackets
  /-- A comma may follow the last item. -/
  allowsTrailingComma : Bool
  /-- Items stand one level deeper. -/
  isIndented : Bool
  /-- Blanks inside the brackets. -/
  spaceBetweenBraces : Bool
  /-- A blank between items on one line. -/
  spaceBetweenSiblings : Bool
  /-- Nothing at all is written for an absent list. -/
  isOptionalIfAbsent : Bool
  /-- Nothing at all is written for an empty list. -/
  isOptionalIfEmpty : Bool
  /-- Lines are broken also around nodes that a pass made up. -/
  prefersNewLine : Bool
  /-- No line break behind the last of several lines. -/
  noTrailingNewLine : Bool
  /-- Comments of the items are not written. -/
  noInterveningComments : Bool
  /-- No blank inside empty brackets. -/
  noSpaceIfEmpty : Bool
deriving DecidableEq

namespace ListFormat

/-! ## Properties added one at a time -/

def withLines (f : ListFormat) (lines : LineMode) : ListFormat := { f with lines := lines }

def delimitedBy (f : ListFormat) (delimiter : Delimiter) : ListFormat :=
  { f with delimiter := delimiter }

def commaSeparated (f : ListFormat) : ListFormat := f.delimitedBy .comma

def bracketedBy (f : ListFormat) (brackets : Brackets) : ListFormat :=
  { f with brackets := brackets }

def allowingTrailingComma (f : ListFormat) : ListFormat := { f with allowsTrailingComma := true }

def withIndent (f : ListFormat) : ListFormat := { f with isIndented := true }

def spacedBraces (f : ListFormat) : ListFormat := { f with spaceBetweenBraces := true }

def spacedSiblings (f : ListFormat) : ListFormat := { f with spaceBetweenSiblings := true }

def omittedIfAbsent (f : ListFormat) : ListFormat := { f with isOptionalIfAbsent := true }

def omittedIfEmpty (f : ListFormat) : ListFormat := { f with isOptionalIfEmpty := true }

def omittable (f : ListFormat) : ListFormat := f.omittedIfAbsent.omittedIfEmpty

def preferringNewLine (f : ListFormat) : ListFormat := { f with prefersNewLine := true }

def withoutTrailingNewLine (f : ListFormat) : ListFormat := { f with noTrailingNewLine := true }

def withoutComments (f : ListFormat) : ListFormat := { f with noInterveningComments := true }

def withoutSpaceIfEmpty (f : ListFormat) : ListFormat := { f with noSpaceIfEmpty := true }

/-- The format of the same list in compact text. -/
def collapsed (f : ListFormat) : ListFormat :=
  { f with lines := .single, isIndented := false, prefersNewLine := false }

/-- The same list on the line it starts on. -/
def onOneLine (f : ListFormat) : ListFormat := { f with lines := .single, isIndented := false }

def isMultiLine (f : ListFormat) : Bool := f.lines == .multi

def preservesLines (f : ListFormat) : Bool := f.lines == .preserve

/-! ## The formats of the language -/

/-- Everything on one line, with nothing around or between. -/
def singleLine : ListFormat where
  lines := .single
  delimiter := .none
  brackets := .none
  allowsTrailingComma := false
  isIndented := false
  spaceBetweenBraces := false
  spaceBetweenSiblings := false
  isOptionalIfAbsent := false
  isOptionalIfEmpty := false
  prefersNewLine := false
  noTrailingNewLine := false
  noInterveningComments := false
  noSpaceIfEmpty := false

/-- One item on a line. -/
def multiLine : ListFormat := singleLine.withLines .multi

/-- Lines broken where the source broke them. -/
def preserveLines : ListFormat := singleLine.withLines .preserve

/-- Modifiers in front of a declaration. -/
def modifiers : ListFormat := singleLine.spacedSiblings.withoutComments

/-- The heritage clauses of an interface. -/
def heritageClauses : ListFormat := singleLine.spacedSiblings

/-- The elements of a tuple type. -/
def tupleTypeElements : ListFormat := singleLine.commaSeparated.spacedSiblings.bracketedBy .square

/-- The alternatives of a union type. -/
def unionTypeConstituents : ListFormat := (singleLine.delimitedBy .bar).spacedSiblings

/-- The parts of an intersection type. -/
def intersectionTypeConstituents : ListFormat :=
  (singleLine.delimitedBy .ampersand).spacedSiblings

/-- The members of an object pattern. -/
def objectBindingPatternElements : ListFormat :=
  singleLine.allowingTrailingComma.spacedBraces.commaSeparated.spacedSiblings
    |>.withoutSpaceIfEmpty |>.bracketedBy .braces

/-- The elements of an array pattern. -/
def arrayBindingPatternElements : ListFormat :=
  singleLine.allowingTrailingComma.commaSeparated.spacedSiblings
    |>.withoutSpaceIfEmpty |>.bracketedBy .square

/-- The members of an object literal. -/
def objectLiteralExpressionProperties : ListFormat :=
  preserveLines.commaSeparated.spacedSiblings.spacedBraces.withIndent
    |>.withoutSpaceIfEmpty |>.bracketedBy .braces

/-- The elements of an array literal. -/
def arrayLiteralExpressionElements : ListFormat :=
  preserveLines.commaSeparated.spacedSiblings.allowingTrailingComma
    |>.withIndent |>.bracketedBy .square

/-- Items with commas between them and nothing around them. -/
def commaListElements : ListFormat := singleLine.commaSeparated.spacedSiblings

/-- The arguments of a call. -/
def callExpressionArguments : ListFormat := commaListElements.bracketedBy .parens

/-- The arguments of `new`, which may have no list at all. -/
def newExpressionArguments : ListFormat := callExpressionArguments.omittedIfAbsent

/-- The expressions of a template. -/
def templateExpressionSpans : ListFormat := singleLine.withoutComments

/-- The statements of a block kept on one line. -/
def singleLineBlockStatements : ListFormat :=
  singleLine.spacedBraces.spacedSiblings.bracketedBy .braces

/-- The statements of a block. -/
def multiLineBlockStatements : ListFormat := multiLine.withIndent.bracketedBy .braces

/-- The declarators of a variable declaration. -/
def variableDeclarationList : ListFormat := commaListElements

/-- The heritage clause of a class. -/
def classHeritageClauses : ListFormat := singleLine

/-- The members of a class. -/
def classMembers : ListFormat := multiLine.withIndent.bracketedBy .braces

/-- The members of an interface. -/
def interfaceMembers : ListFormat := classMembers

/-- The members of an enumeration. -/
def enumMembers : ListFormat := multiLine.commaSeparated.withIndent.bracketedBy .braces

/-- The cases of a `switch`. -/
def caseBlockClauses : ListFormat := multiLine.withIndent.bracketedBy .braces

/-- Names imported or exported in braces. -/
def namedImportsOrExportsElements : ListFormat :=
  singleLine.commaSeparated.spacedSiblings.allowingTrailingComma.spacedBraces
    |>.withoutSpaceIfEmpty |>.bracketedBy .braces

/-- The children of a JSX element or fragment. -/
def jsxElementOrFragmentChildren : ListFormat := singleLine.withoutComments

/-- The attributes of a JSX element. -/
def jsxElementAttributes : ListFormat := singleLine.spacedSiblings.withoutComments

/-- The statements of a case. -/
def caseOrDefaultClauseStatements : ListFormat :=
  multiLine.withIndent.withoutTrailingNewLine.omittedIfEmpty

/-- The types of a heritage clause. -/
def heritageClauseTypes : ListFormat := commaListElements

/-- The items of a program. -/
def sourceFileStatements : ListFormat := multiLine.withoutTrailingNewLine

/-- Decorators, one on a line. -/
def decorators : ListFormat := multiLine.omittable

/-- Type arguments. -/
def typeArguments : ListFormat := (commaListElements.bracketedBy .angle).omittable

/-- Type parameters. -/
def typeParameters : ListFormat := typeArguments

/-- The parameters of a function. -/
def parameters : ListFormat := commaListElements.bracketedBy .parens

/-- The parameters of an index signature. -/
def indexSignatureParameters : ListFormat := commaListElements.withIndent.bracketedBy .square

/-- The lines of a documentation comment. -/
def jsdocComment : ListFormat := multiLine.delimitedBy .asterisk

end ListFormat

end EcmaPrinter
