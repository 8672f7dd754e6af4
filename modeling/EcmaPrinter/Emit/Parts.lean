/-
# Parts of documents

The documents of names and literals, and the phrases that several nodes share: a
keyword in front of a node, an initial value, the head of a loop. What stands in
a phrase is given as a document, and the node it came from where its first token
decides on a blank.

What is not rendered is refused here by `reject`, before anything of the part
that holds it is written.

Key definitions: `Emit.ident`, `Emit.template`, `Emit.keywordBefore`,
`Emit.member`, `Emit.caseBody`.
-/
import EcmaPrinter.Emit.Adjacency
import EcmaPrinter.Layout.Doc
import EcmaPrinter.Numeral.Text
import EcmaPrinter.Text.Quoted

namespace EcmaPrinter

open Doc

namespace Emit

/-! ## Names and literals -/

def ident (name : Ident) : Doc :=
  reject name.typing.isSome .tsTyping ++ .text name.name ++ when name.isOptional "?"

def privateName (name : PrivateName) : Doc := "#" ++ ident name.id

def str (literal : StringLit) : Doc := .text (Text.quoted literal.value)

def num (literal : NumberLit) : Doc := .text (numeral literal.value)

def regex (literal : RegexLit) : Doc :=
  "/" ++ .text literal.pattern.value ++ "/" ++ .text ((literal.flags.map StringLit.value).getD "")

/-- Texts and expressions of a template in turn. -/
def interleave : List Quasi → List Item → Doc
  | [], _ => .empty
  | quasi :: quasis, [] => .text quasi.raw.value ++ interleave quasis []
  | quasi :: quasis, e :: es =>
    .text quasi.raw.value ++ "$\x7b" ++ e.doc ++ "\x7d" ++ interleave quasis es

/-- A template, which has one text more than it has expressions. -/
def template (quasis : List Quasi) (expressions : List Item) : Doc :=
  check (quasis.length == expressions.length + 1)
      (.contract (.templateArity quasis.length expressions.length))
    ++ "`" ++ interleave quasis expressions ++ "`"

/-! ## Parts of expressions -/

/-- `= value`, with blanks in formatted text. -/
def assignedValue (sign : String) (value : Doc) : Doc :=
  .softSpace ++ .text sign ++ .softSpace ++ value

/-- An initial value, if there is one. -/
def initializer (value : Node (.opt .expr)) (doc : Doc) : Doc :=
  match value with
  | .absent => .empty
  | .present _ => assignedValue "=" doc

/-- A number whose text consists of digits only. -/
def isWholeNumeral : Node .expr → Bool
  | .num literal => (numeral literal.value).toList.all Char.isDigit
  | _ => false

theorem isWholeNumeral_num (literal : NumberLit) :
    isWholeNumeral (.num literal) = (numeral literal.value).toList.all Char.isDigit := rfl

/-- The name behind a dot. -/
def dotted : Node .expr → Doc
  | .ident name => ident name
  | .privateName name => privateName name
  | other => .fail (.contract (.memberProperty other.exprKind))

theorem dotted_ident (name : Ident) : dotted (.ident name) = ident name := rfl

theorem dotted_privateName (name : PrivateName) :
    dotted (.privateName name) = privateName name := rfl

/-- A member that is looked up. A dot right behind digits would be read as a
decimal point, so there are two. -/
def member (object property : Node .expr) (isComputed : Bool) (objectDoc propertyDoc : Doc) : Doc :=
  objectDoc ++
    if isComputed then between "[" "]" propertyDoc
    else when (isWholeNumeral object) "." ++ "." ++ dotted property

/-- Whether the last element of an array is a hole. -/
def endsWithHole {c : Category} (elements : Nodes (.opt c)) : Bool :=
  match elements.toList.getLast? with
  | some .absent => true
  | _ => false

theorem getLast?_of_endsWithHole {c : Category} {elements : Nodes (.opt c)}
    (h : endsWithHole elements = true) : elements.toList.getLast? = some .absent := by
  unfold endsWithHole at h
  cases hlast : elements.toList.getLast? with
  | none =>
    rw [hlast] at h
    cases h
  | some last =>
    rw [hlast] at h
    cases last with
    | absent => rfl
    | present n => cases h

/-- Items of which the last is a hole. A comma of its own keeps it. -/
def closeHole (isHole : Bool) : List Item → List Item
  | [] => []
  | [item] => [if isHole then { item with doc := "," } else item]
  | item :: items => item :: closeHole isHole items

/-- An expression, in parentheses under a condition. -/
def parensIf (condition : Bool) (d : Doc) : Doc := if condition then between "(" ")" d else d

/-- A keyword in front of a node. -/
def keywordBefore {c : Category} (keyword : String) (next : Node c) (doc : Doc) : Doc :=
  .text keyword ++ spaceIf next.startsWord ++ doc

def yieldArgument (isDelegate : Bool) (argument : Node (.opt .expr)) (doc : Doc) : Doc :=
  match argument with
  | .absent => .empty
  | .present e => spaceIf (!isDelegate && e.startsWord) ++ doc

/-! ## Functions and classes -/

/-- Fails if a body is missing. -/
def needsBody (owner : BodyOwner) : Node (.opt .block) → Doc
  | .absent => .fail (.contract (.missingBody owner))
  | .present _ => .empty

def isAsync : Node .function → Bool
  | .function _ _ _ _ _ isAsync _ _ => isAsync

def isGenerator : Node .function → Bool
  | .function _ _ _ _ isGenerator _ _ _ => isGenerator

/-- `async function*`. -/
def functionKeyword (f : Node .function) : Doc :=
  when (isAsync f) ("async" ++ space) ++ "function" ++ when (isGenerator f) "*"

/-- A blank between `function` and the name. It may be left out behind a star. -/
def functionNameGap (f : Node .function) : Doc := spaceIf (!isGenerator f)

def functionName (f : Node .function) (name : Option Ident) : Doc :=
  match name with
  | some name => functionNameGap f ++ ident name
  | none => .empty

/-- The words in front of a method that is not called by `get` or `set`. -/
def methodWords (f : Node .function) : Doc :=
  when (isAsync f) ("async" ++ space) ++ when (isGenerator f) "*"

/-- The words in front of the key of a class method. -/
def methodLead (traits : MethodTraits) (f : Node .function) : Doc :=
  when traits.isStatic ("static" ++ space) ++
    match traits.kind with
    | .getter => "get" ++ space
    | .setter => "set" ++ space
    | .method => methodWords f

def arrowBody (body : Node .arrowBody) (doc : Doc) : Doc :=
  match body with
  | .blockBody _ => doc
  | .exprBody e => parensIf (bodyNeedsParens e) doc

/-- Modifiers of members that only TypeScript has. -/
def rejectModifiers (accessibility : Option Accessibility) (isAbstract isOptional : Bool) : Doc :=
  reject accessibility.isSome .tsAccessibility ++ reject (isAbstract || isOptional) .tsModifier

def rejectTraits (decorators : Nodes .decorator) (traits : PropertyTraits) : Doc :=
  reject (!decorators.isEmpty) .decorator
    ++ rejectModifiers traits.accessibility traits.isAbstract traits.isOptional
    ++ reject (traits.isReadonly || traits.isDefinite) .tsModifier
    ++ reject traits.typing.isSome .tsTyping

/-- Parts of a class that are not rendered. -/
def rejectClass : Node .klass → Doc
  | .klass _ decorators _ _ isAbstract typeParams superTypeParams implements =>
    reject (!decorators.isEmpty) .decorator ++ reject isAbstract .tsModifier
      ++ reject typeParams.isSome .tsTypeParameterDeclaration
      ++ reject superTypeParams.isSome .tsTypeParameterInstantiation
      ++ reject (!implements.isEmpty) .tsExpressionWithTypeArguments

/-- A class with its name; `doc` is what follows the name. -/
def namedClass (name : Option Ident) (c : Node .klass) (doc : Doc) : Doc :=
  rejectClass c ++ "class" ++
    (match name with
    | some name => space ++ ident name
    | none => .empty)
    ++ doc

def heritage (superClass : Node (.opt .expr)) (doc : Doc) : Doc :=
  match superClass with
  | .absent => .empty
  | .present e => space ++ keywordBefore "extends" e doc

/-! ## Parts of statements -/

/-- `keyword (head)`. -/
def headed (keyword : String) (head : Doc) : Doc :=
  .text keyword ++ .softSpace ++ between "(" ")" head

/-- What follows a keyword, if there is anything. -/
def operandAfter (argument : Node (.opt .expr)) (doc : Doc) : Doc :=
  match argument with
  | .absent => .empty
  | .present e => spaceIf e.startsWord ++ doc

/-- A jump to a label, or without one. -/
def jump (keyword : String) (label : Option Ident) : Doc :=
  .text keyword ++
    (match label with
    | some label => space ++ ident label
    | none => .empty)
    ++ ";"

def isBlock : Node .stmt → Bool
  | .blockStmt _ => true
  | _ => false

/-- The branch behind `else`. A blank divides it from a block in front. -/
def elseBranch (consequent : Node .stmt) (alternate : Node (.opt .stmt)) (doc : Doc) : Doc :=
  match alternate with
  | .absent => .empty
  | .present s => when (isBlock consequent) .softSpace ++ keywordBefore "else" s doc

/-- A part that follows after a blank, if there is one. -/
def spaced {c : Category} (place : Node (.opt c)) (doc : Doc) : Doc :=
  match place with
  | .absent => .empty
  | .present _ => .softSpace ++ doc

def finallyBlock (finalizer : Node (.opt .block)) (doc : Doc) : Doc :=
  match finalizer with
  | .absent => .empty
  | .present _ => .softSpace ++ "finally" ++ .softSpace ++ doc

def catchParam (param : Node (.opt .pattern)) (doc : Doc) : Doc :=
  match param with
  | .absent => .empty
  | .present _ => between "(" ")" doc ++ .softSpace

/-- The head of a loop over something declares exactly one binding. -/
def checkBindings (head : ForHead) : Node .forTarget → Doc
  | .varTarget (.varDecl _ _ _ declarators) =>
    check (declarators.length == 1) (.contract (.bindingCount head declarators.length))
  | .patternTarget _ => .empty

/-- `case test:` or `default:`. -/
def caseHead (test : Node (.opt .expr)) (doc : Doc) : Doc :=
  (match test with
  | .absent => .text "default"
  | .present e => keywordBefore "case" e doc)
    ++ ":"

/-- The statements of a case. A single one that a pass made up, or whose case a
pass made up, stays on the line. -/
def caseBody (span : Span) (items : List Item) : Doc :=
  let format := ListFormat.caseOrDefaultClauseStatements
  let staysOnLine :=
    match items with
    | [only] => span.isSynthesized || only.span.isSynthesized
    | _ => false
  if staysOnLine then .softSpace ++ list span format.onOneLine items else list span format items

/-- The keyword of a variable declaration, which needs a declarator. -/
def bindingKeyword (kind : BindingKind) : Nodes .declarator → Doc
  | .nil => .fail (.contract (.noDeclarators kind))
  | .cons (.declarator _ target _ _) _ => .text kind.text ++ spaceIf target.startsWord

end Emit

end EcmaPrinter
