/-
# Programs

The roots of a tree: modules, which may import and export, and scripts, which may
not. A module item is a module declaration or a statement. Programs are written
as JSON and read from it by the same rules as nodes.

Key definitions: `ImportSpecifier`, `ExportSpecifier`, `ModuleDecl`,
`ModuleItem`, `Program`, `Program.ofJson?`, `Program.toJson`.
-/
import EcmaPrinter.Tree.Decode
import EcmaPrinter.Tree.Encode

namespace EcmaPrinter

open Json

/-! ## Import specifiers -/

/-- What an import declaration brings in. -/
inductive ImportSpecifier where
  | named (span : Span) (binding : Ident) (imported : Option Ident)
  | default (span : Span) (binding : Ident)
  | star (span : Span) (binding : Ident)

namespace ImportSpecifier

def span : ImportSpecifier → Span
  | .named span _ _ | .default span _ | .star span _ => span

def record : ImportSpecifier → Record
  | .named span binding imported =>
    ⟨some .importSpecifier, [("span", span.toJson), ("local", binding.toJson),
      ("imported", ofOption Ident.toJson imported)]⟩
  | .default span binding =>
    ⟨some .importDefaultSpecifier, [("span", span.toJson), ("local", binding.toJson)]⟩
  | .star span binding =>
    ⟨some .importNamespaceSpecifier, [("span", span.toJson), ("local", binding.toJson)]⟩

def ofKind? (kind : NodeKind) (ms : List (String × Json)) : Option ImportSpecifier :=
  match kind with
  | .importSpecifier => do
    let span ← spanOf ms
    let binding ← required ms "local" Ident.ofJson?
    let imported ← optional ms "imported" Ident.ofJson?
    return .named span binding imported
  | .importDefaultSpecifier => do
    let span ← spanOf ms
    let binding ← required ms "local" Ident.ofJson?
    return .default span binding
  | .importNamespaceSpecifier => do
    let span ← spanOf ms
    let binding ← required ms "local" Ident.ofJson?
    return .star span binding
  | _ => none

/-- The kinds of import specifiers, in the order of their numbers. -/
def kinds : List NodeKind :=
  [.importSpecifier, .importDefaultSpecifier, .importNamespaceSpecifier]

def ofJson? (stored : Bool) (json : Json) : Option ImportSpecifier :=
  readTagged stored (kindOf stored kinds) ofKind? json

end ImportSpecifier

/-! ## Export specifiers -/

/-- What an export declaration sends out. -/
inductive ExportSpecifier where
  | star (span : Span) (name : Ident)
  | default (span : Span) (exported : Ident)
  | named (span : Span) (source : Ident) (exported : Option Ident)

namespace ExportSpecifier

def span : ExportSpecifier → Span
  | .star span _ | .default span _ | .named span _ _ => span

def record : ExportSpecifier → Record
  | .star span name =>
    ⟨some .exportNamespaceSpecifier, [("span", span.toJson), ("name", name.toJson)]⟩
  | .default span exported =>
    ⟨some .exportDefaultSpecifier, [("span", span.toJson), ("exported", exported.toJson)]⟩
  | .named span source exported =>
    ⟨some .exportSpecifier, [("span", span.toJson), ("orig", source.toJson),
      ("exported", ofOption Ident.toJson exported)]⟩

def ofKind? (kind : NodeKind) (ms : List (String × Json)) : Option ExportSpecifier :=
  match kind with
  | .exportNamespaceSpecifier => do
    let span ← spanOf ms
    let name ← required ms "name" Ident.ofJson?
    return .star span name
  | .exportDefaultSpecifier => do
    let span ← spanOf ms
    let exported ← required ms "exported" Ident.ofJson?
    return .default span exported
  | .exportSpecifier => do
    let span ← spanOf ms
    let source ← required ms "orig" Ident.ofJson?
    let exported ← optional ms "exported" Ident.ofJson?
    return .named span source exported
  | _ => none

/-- The kinds of export specifiers, in the order of their numbers. -/
def kinds : List NodeKind :=
  [.exportNamespaceSpecifier, .exportDefaultSpecifier, .exportSpecifier]

/-- The kind of an export specifier. Some parsers misspell the one of a
namespace. -/
def exportKindOf (stored : Bool) : Json → Option NodeKind
  | .str "ExportNamespaceSpecifer" => some .exportNamespaceSpecifier
  | tag => kindOf stored kinds tag

def ofJson? (stored : Bool) (json : Json) : Option ExportSpecifier :=
  readTagged stored (exportKindOf stored) ofKind? json

end ExportSpecifier

/-! ## Module declarations -/

/-- What may follow `export default` as a declaration. -/
inductive DefaultDecl where
  | klass (c : Node .classExpr)
  | function (f : Node .functionExpr)
  | interface (payload : Opaque)

namespace DefaultDecl

def span : DefaultDecl → Span
  | .klass c => c.span
  | .function f => f.span
  | .interface payload => payload.span

def record : DefaultDecl → Record
  | .klass c => ⟨some .classExpression, Record.membersOf c.record?⟩
  | .function f => ⟨some .functionExpression, Record.membersOf f.record?⟩
  | .interface payload => ⟨some .tsInterfaceDeclaration, payload.members⟩

def ofKind? (kind : NodeKind) (fs : Fields) : Option DefaultDecl :=
  match kind with
  | .classExpression => (Read.classExpr fs).map .klass
  | .functionExpression => (Read.functionExpr fs).map .function
  | .tsInterfaceDeclaration => (Opaque.ofMembers? fs.plain).map .interface
  | _ => none

/-- The kinds of default declarations, in the order of their numbers. -/
def kinds : List NodeKind := [.classExpression, .functionExpression, .tsInterfaceDeclaration]

def ofJson? (stored : Bool) (json : Json) : Option DefaultDecl := do
  let ps ← json.parts? stored
  ps.byKind kinds ofKind?

end DefaultDecl

/-- Module declarations that only TypeScript has. -/
inductive TypeModuleForm where
  | importEquals
  | exportAssignment
  | namespaceExport
deriving DecidableEq

def TypeModuleForm.kind : TypeModuleForm → NodeKind
  | .importEquals => .tsImportEqualsDeclaration
  | .exportAssignment => .tsExportAssignment
  | .namespaceExport => .tsNamespaceExportDeclaration

/-- Imports and exports. -/
inductive ModuleDecl where
  | importDecl (span : Span) (specifiers : List ImportSpecifier) (source : StringLit)
  | exportDecl (span : Span) (declaration : Node .decl)
  | exportNamed (span : Span) (specifiers : List ExportSpecifier) (source : Option StringLit)
  | exportDefaultDecl (span : Span) (declaration : DefaultDecl)
  | exportDefaultExpr (span : Span) (expression : Node .expr)
  | exportAll (span : Span) (source : StringLit)
  | typeModule (form : TypeModuleForm) (payload : Opaque)

namespace ModuleDecl

def span : ModuleDecl → Span
  | .importDecl span _ _ | .exportDecl span _ | .exportNamed span _ _ | .exportDefaultDecl span _
  | .exportDefaultExpr span _ | .exportAll span _ => span
  | .typeModule _ payload => payload.span

def kind : ModuleDecl → NodeKind
  | .importDecl _ _ _ => .importDeclaration
  | .exportDecl _ _ => .exportDeclaration
  | .exportNamed _ _ _ => .exportNamedDeclaration
  | .exportDefaultDecl _ _ => .exportDefaultDeclaration
  | .exportDefaultExpr _ _ => .exportDefaultExpression
  | .exportAll _ _ => .exportAllDeclaration
  | .typeModule form _ => form.kind

def members : ModuleDecl → List (String × Json)
  | .importDecl span specifiers source =>
    [("span", span.toJson), ("specifiers", .arr (specifiers.map fun s => s.record.toJson)),
      ("source", source.toJson)]
  | .exportDecl span declaration =>
    [("span", span.toJson), ("declaration", declaration.toJson)]
  | .exportNamed span specifiers source =>
    [("span", span.toJson), ("specifiers", .arr (specifiers.map fun s => s.record.toJson)),
      ("source", ofOption StringLit.toJson source)]
  | .exportDefaultDecl span declaration =>
    [("span", span.toJson), ("decl", declaration.record.toJson)]
  | .exportDefaultExpr span expression =>
    [("span", span.toJson), ("expression", expression.toJson)]
  | .exportAll span source => [("span", span.toJson), ("source", source.toJson)]
  | .typeModule _ payload => payload.members

def record (d : ModuleDecl) : Record := ⟨some d.kind, d.members⟩

def ofKind? (kind : NodeKind) (fs : Fields) : Option ModuleDecl :=
  let ms := fs.plain
  match kind with
  | .importDeclaration => do
    let span ← spanOf ms
    let specifiers ← defaulted ms "specifiers" [] (asList (ImportSpecifier.ofJson? fs.stored))
    let source ← required ms "source" StringLit.ofJson?
    return .importDecl span specifiers source
  | .exportDeclaration => do
    let span ← spanOf ms
    let declaration ← fs.node "declaration" .decl
    return .exportDecl span declaration
  | .exportNamedDeclaration => do
    let span ← spanOf ms
    let specifiers ← defaulted ms "specifiers" [] (asList (ExportSpecifier.ofJson? fs.stored))
    let source ← optional ms "source" StringLit.ofJson?
    return .exportNamed span specifiers source
  | .exportDefaultDeclaration => do
    let span ← spanOf ms
    let declaration ← required ms "decl" (DefaultDecl.ofJson? fs.stored)
    return .exportDefaultDecl span declaration
  | .exportDefaultExpression => do
    let span ← spanOf ms
    let expression ← fs.node "expression" .expr
    return .exportDefaultExpr span expression
  | .exportAllDeclaration => do
    let span ← spanOf ms
    let source ← required ms "source" StringLit.ofJson?
    return .exportAll span source
  | .tsImportEqualsDeclaration => (Opaque.ofMembers? ms).map (.typeModule .importEquals)
  | .tsExportAssignment => (Opaque.ofMembers? ms).map (.typeModule .exportAssignment)
  | .tsNamespaceExportDeclaration => (Opaque.ofMembers? ms).map (.typeModule .namespaceExport)
  | _ => none

/-- The kinds of module declarations, in the order of their numbers. -/
def kinds : List NodeKind :=
  [.importDeclaration, .exportDeclaration, .exportNamedDeclaration, .exportDefaultDeclaration,
    .exportDefaultExpression, .exportAllDeclaration, .tsImportEqualsDeclaration,
    .tsExportAssignment, .tsNamespaceExportDeclaration]

def ofJson? (stored : Bool) (json : Json) : Option ModuleDecl := do
  let ps ← json.parts? stored
  ps.byKind kinds ofKind?

end ModuleDecl

/-! ## Items and roots -/

/-- An item of a module. -/
inductive ModuleItem where
  | decl (d : ModuleDecl)
  | stmt (s : Node .stmt)

namespace ModuleItem

def span : ModuleItem → Span
  | .decl d => d.span
  | .stmt s => s.span

def toJson : ModuleItem → Json
  | .decl d => d.record.toJson
  | .stmt s => s.toJson

/-- A module declaration if it can be read as one, a statement otherwise. -/
def ofJson? (json : Json) : Option ModuleItem :=
  if json.isReadable then
    (ModuleDecl.ofJson? true json).map .decl <|> (json.readAt true .stmt).map .stmt
  else none

end ModuleItem

/-- The root of a tree. An interpreter is what follows `#!` on the first line. -/
inductive Program where
  | module (span : Span) (body : List ModuleItem) (interpreter : Option String)
  | script (span : Span) (body : List (Node .stmt)) (interpreter : Option String)

namespace Program

def span : Program → Span
  | .module span _ _ | .script span _ _ => span

def record : Program → Record
  | .module span body interpreter =>
    ⟨some .moduleRoot, [("span", span.toJson), ("body", .arr (body.map ModuleItem.toJson))]
      ++ memberIf "interpreter" Json.str interpreter⟩
  | .script span body interpreter =>
    ⟨some .scriptRoot, [("span", span.toJson), ("body", .arr (body.map Node.toJson))]
      ++ memberIf "interpreter" Json.str interpreter⟩

def toJson (p : Program) : Json := p.record.toJson

def ofKind? (kind : NodeKind) (ms : List (String × Json)) : Option Program :=
  match kind with
  | .moduleRoot => do
    let span ← spanOf ms
    let body ← defaulted ms "body" [] (asList ModuleItem.ofJson?)
    let interpreter ← optional ms "interpreter" asString
    return .module span body interpreter
  | .scriptRoot => do
    let span ← spanOf ms
    let body ← defaulted ms "body" [] (asList fun item => item.read .stmt)
    let interpreter ← optional ms "interpreter" asString
    return .script span body interpreter
  | _ => none

def ofJson? (json : Json) : Option Program :=
  readTagged false (kindOf false [.moduleRoot, .scriptRoot]) ofKind? json

end Program

end EcmaPrinter
