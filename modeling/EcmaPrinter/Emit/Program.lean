/-
# The document of a program

What imports, exports and whole programs print as. An import or export writes its
specifiers in up to three groups: a default, a namespace, and names in braces.

Key definitions: `SpecifierGroups.ofImports?`, `SpecifierGroups.ofExports`,
`ModuleDecl.emit`, `ModuleItem.emit`, `Program.emit`.
-/
import EcmaPrinter.Emit.Node
import EcmaPrinter.Tree.Program

namespace EcmaPrinter

open Doc

/-! ## Specifiers in groups -/

/-- The specifiers of an import or export, in the groups in which they are
written. -/
structure SpecifierGroups where
  default : Option Ident
  star : Option Ident
  named : List Item

namespace SpecifierGroups

def empty : SpecifierGroups := ⟨none, none, []⟩

/-- `imported as binding`, or `binding`. -/
def importItem (span : Span) (binding : Ident) (imported : Option Ident) : Item where
  span := span
  doc :=
    (match imported with
    | some name => Emit.ident name ++ space ++ "as" ++ space
    | none => .empty)
      ++ Emit.ident binding

/-- Adds import specifiers, none of which may be a default. Of several namespaces
the last one counts. -/
def addImports (g : SpecifierGroups) : List ImportSpecifier → Option SpecifierGroups
  | [] => some g
  | .default _ _ :: _ => none
  | .star _ binding :: rest => addImports { g with star := some binding } rest
  | .named span binding imported :: rest =>
    addImports { g with named := g.named ++ [importItem span binding imported] } rest

/-- The groups of an import, in which a default must come first. -/
def ofImports? : List ImportSpecifier → Option SpecifierGroups
  | .default _ binding :: rest => addImports { empty with default := some binding } rest
  | specifiers => addImports empty specifiers

/-- `name as exported`, or `name`. -/
def exportItem (span : Span) (name : Ident) (exported : Option Ident) : Item where
  span := span
  doc :=
    Emit.ident name ++
      match exported with
      | some exported => space ++ "as" ++ space ++ Emit.ident exported
      | none => .empty

/-- Adds export specifiers. Of several defaults or namespaces the last one
counts. -/
def addExports (g : SpecifierGroups) : List ExportSpecifier → SpecifierGroups
  | [] => g
  | .default _ exported :: rest => addExports { g with default := some exported } rest
  | .star _ name :: rest => addExports { g with star := some name } rest
  | .named span name exported :: rest =>
    addExports { g with named := g.named ++ [exportItem span name exported] } rest

/-- The groups of an export. -/
def ofExports (specifiers : List ExportSpecifier) : SpecifierGroups := addExports empty specifiers

/-- Some group in front of the braces is there. -/
def hasName (g : SpecifierGroups) : Bool := g.default.isSome || g.star.isSome

end SpecifierGroups

/-! ## Clauses -/

namespace Emit

/-- What stands in front of a group: a comma behind another group, and a blank. -/
def groupGap (isAfterGroup : Bool) : Doc := when isAfterGroup "," ++ .softSpace

/-- The group of a default. -/
def defaultClause (name : Option Ident) : Doc :=
  match name with
  | some name => space ++ ident name
  | none => .empty

/-- The group `* as name`. -/
def starClause (isAfterGroup : Bool) (name : Option Ident) : Doc :=
  match name with
  | some name => groupGap isAfterGroup ++ "*" ++ .softSpace ++ "as" ++ space ++ ident name
  | none => .empty

/-- The group of names in braces. -/
def namedClause (parent : Span) (isAfterGroup : Bool) (items : List Item) : Doc :=
  groupGap isAfterGroup ++ list parent ListFormat.namedImportsOrExportsElements items

/-- `from` and the module. A name in front needs a blank. -/
def fromClause (isAfterName : Bool) (source : StringLit) : Doc :=
  spaceIf isAfterName ++ "from" ++ .softSpace ++ str source

def importDecl (span : Span) (specifiers : List ImportSpecifier) (source : StringLit) : Doc :=
  "import" ++
    if specifiers.isEmpty then .softSpace ++ str source ++ ";"
    else
      match SpecifierGroups.ofImports? specifiers with
      | none => .fail (.contract .lateDefaultImport)
      | some g =>
        defaultClause g.default ++ starClause g.default.isSome g.star
          ++ when (!g.named.isEmpty) (namedClause span g.hasName g.named)
          ++ fromClause (g.hasName && g.named.isEmpty) source ++ ";"

/-- An export of names. Without any specifier there are empty braces. -/
def exportNamed (span : Span) (specifiers : List ExportSpecifier)
    (source : Option StringLit) : Doc :=
  let g := SpecifierGroups.ofExports specifiers
  let hasBraces := !g.named.isEmpty || !g.hasName
  "export" ++ defaultClause g.default ++ starClause g.default.isSome g.star
    ++ when hasBraces (namedClause span g.hasName g.named)
    ++ (match source with
      | some source => fromClause (!hasBraces) source
      | none => .empty)
    ++ ";"

def defaultDecl : DefaultDecl → Doc
  | .klass c => c.emit
  | .function f => f.emit
  | .interface _ => reject true .tsInterfaceDeclaration

/-- `default` and an expression, in parentheses where it would be read as a
declaration. -/
def defaultExpr (e : Node .expr) : Doc :=
  if stmtNeedsParens e then "default" ++ .softSpace ++ between "(" ")" e.emit
  else keywordBefore "default" e e.emit

/-- The first line of a program that names its interpreter. In formatted text the
line break in front of the items ends it. -/
def interpreter (name : Option String) : Doc :=
  match name with
  | some name => "#!" ++ .text name ++ .compactLine
  | none => .empty

end Emit

open Emit in
def ModuleDecl.emit (d : ModuleDecl) : Doc :=
  .mark d.span ++
    match d with
    | .importDecl span specifiers source => Emit.importDecl span specifiers source
    | .exportDecl _ declaration => "export" ++ space ++ declaration.emit
    | .exportNamed span specifiers source => Emit.exportNamed span specifiers source
    | .exportDefaultDecl _ declaration =>
      "export" ++ space ++ "default" ++ space ++ defaultDecl declaration
    | .exportDefaultExpr _ expression => "export" ++ space ++ defaultExpr expression ++ ";"
    | .exportAll _ source =>
      "export" ++ .softSpace ++ "*" ++ .softSpace ++ "from" ++ .softSpace ++ str source ++ ";"
    | .typeModule form _ => reject true form.kind

def ModuleItem.emit : ModuleItem → Doc
  | .decl d => d.emit
  | .stmt s => s.emit

def Program.emit : Program → Doc
  | .module span body interpreter =>
    Emit.interpreter interpreter ++ list span ListFormat.sourceFileStatements
      (body.map fun item => ⟨item.span, item.emit⟩)
  | .script span body interpreter =>
    Emit.interpreter interpreter ++ list span ListFormat.sourceFileStatements
      (body.map fun s => ⟨s.span, s.emit⟩)

end EcmaPrinter
