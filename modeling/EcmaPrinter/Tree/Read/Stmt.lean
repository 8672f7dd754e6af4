/-
# Reading statements

The statement, the declaration and the class member of each kind.

Key definitions: `Read.stmt`, `Read.decl`, `Read.classMember`.
-/
import EcmaPrinter.Tree.Read.Parts

namespace EcmaPrinter

open Json

namespace Read

/-! ## Classes -/

def methodTraits (stored : Bool) (ms : List (String × Json)) : Option MethodTraits := do
  let kind ← required ms "kind" (asToken stored)
  let isStatic ← defaulted ms "is_static" false asBool
  let accessibility ← optional ms "accessibility" (asToken stored)
  let isAbstract ← defaulted ms "is_abstract" false asBool
  let isOptional ← defaulted ms "is_optional" false asBool
  return ⟨kind, isStatic, accessibility, isAbstract, isOptional⟩

def propertyTraits (stored : Bool) (ms : List (String × Json)) : Option PropertyTraits := do
  let typing ← typingOf ms
  let isStatic ← defaulted ms "is_static" false asBool
  let isComputed ← defaulted ms "computed" false asBool
  let accessibility ← optional ms "accessibility" (asToken stored)
  let isAbstract ← defaulted ms "is_abstract" false asBool
  let isOptional ← defaulted ms "is_optional" false asBool
  let isReadonly ← defaulted ms "readonly" false asBool
  let isDefinite ← defaulted ms "definite" false asBool
  return ⟨typing, isStatic, isComputed, accessibility, isAbstract, isOptional, isReadonly,
    isDefinite⟩

def classMember (kind : NodeKind) (fs : Fields) : Option (Node .classMember) :=
  let ms := fs.plain
  match kind with
  | .constructor => do
    let span ← spanOf ms
    let key ← fs.node "key" .propertyName
    let params ← fs.nodes "params" .param
    let body ← fs.place "body" .block
    let accessibility ← optional ms "accessibility" (asToken fs.stored)
    let isOptional ← defaulted ms "is_optional" false asBool
    return .classConstructor span key params body accessibility isOptional
  | .classMethod => do
    let span ← spanOf ms
    let key ← fs.node "key" .propertyName
    let f ← fs.node "function" .function
    let traits ← methodTraits fs.stored ms
    return .classMethod span key f traits
  | .privateMethod => do
    let span ← spanOf ms
    let key ← required ms "key" PrivateName.ofJson?
    let f ← fs.node "function" .function
    let traits ← methodTraits fs.stored ms
    return .privateMethod span key f traits
  | .classProperty => do
    let span ← spanOf ms
    let key ← fs.node "key" .expr
    let value ← fs.place "value" .expr
    let decorators ← fs.nodes "decorators" .decorator
    let traits ← propertyTraits fs.stored ms
    return .classProperty span key value decorators traits
  | .privateProperty => do
    let span ← spanOf ms
    let key ← required ms "key" PrivateName.ofJson?
    let value ← fs.place "value" .expr
    let decorators ← fs.nodes "decorators" .decorator
    let traits ← propertyTraits fs.stored ms
    return .privateProperty span key value decorators traits
  | .tsIndexSignature => (Opaque.ofMembers? ms).map .indexSignature
  | _ => none

def param (kind : NodeKind) (fs : Fields) : Option (Node .param) :=
  match kind with
  | .tsParameterProperty => (Opaque.ofMembers? fs.plain).map .propertyParam
  | _ => none

/-! ## Statements and declarations -/

def arrowBody (kind : NodeKind) (fs : Fields) : Option (Node .arrowBody) :=
  match kind with
  | .blockStatement => (block fs).map .blockBody
  | _ => none

def forInit (kind : NodeKind) (fs : Fields) : Option (Node .forInit) :=
  match kind with
  | .variableDeclaration => (varDecl fs).map .varInit
  | _ => none

def forTarget (kind : NodeKind) (fs : Fields) : Option (Node .forTarget) :=
  match kind with
  | .variableDeclaration => (varDecl fs).map .varTarget
  | _ => none

def decl (kind : NodeKind) (fs : Fields) : Option (Node .decl) :=
  let ms := fs.plain
  match kind with
  | .classDeclaration => do
    let name ← required ms "identifier" Ident.ofJson?
    let isDeclare ← defaulted ms "declare" false asBool
    let c ← (fs.without ["identifier", "declare"]).store >>= klass
    return .classDecl name isDeclare c
  | .functionDeclaration => do
    let name ← required ms "ident" Ident.ofJson?
    let isDeclare ← defaulted ms "declare" false asBool
    let f ← (fs.without ["ident", "declare"]).store >>= function
    return .functionDecl name isDeclare f
  | .variableDeclaration => (varDecl fs).map .variables
  | .tsInterfaceDeclaration => (Opaque.ofMembers? ms).map (.typeDecl .interface)
  | .tsTypeAliasDeclaration => (Opaque.ofMembers? ms).map (.typeDecl .typeAlias)
  | .tsEnumDeclaration => (Opaque.ofMembers? ms).map (.typeDecl .enumeration)
  | .tsModuleDeclaration => (Opaque.ofMembers? ms).map (.typeDecl .module)
  | _ => none

def stmt (kind : NodeKind) (fs : Fields) : Option (Node .stmt) :=
  let ms := fs.plain
  match kind with
  | .blockStatement => (block fs).map .blockStmt
  | .emptyStatement => (spanOf ms).map .emptyStmt
  | .debuggerStatement => (spanOf ms).map .debuggerStmt
  | .withStatement => do
    let span ← spanOf ms
    let object ← fs.node "object" .expr
    let body ← fs.node "body" .stmt
    return .withStmt span object body
  | .returnStatement => do
    let span ← spanOf ms
    let argument ← fs.place "argument" .expr
    return .returnStmt span argument
  | .labeledStatement => do
    let span ← spanOf ms
    let label ← required ms "label" Ident.ofJson?
    let body ← fs.node "body" .stmt
    return .labeledStmt span label body
  | .breakStatement => do
    let span ← spanOf ms
    let label ← optional ms "label" Ident.ofJson?
    return .breakStmt span label
  | .continueStatement => do
    let span ← spanOf ms
    let label ← optional ms "label" Ident.ofJson?
    return .continueStmt span label
  | .ifStatement => do
    let span ← spanOf ms
    let test ← fs.node "test" .expr
    let consequent ← fs.node "consequent" .stmt
    let alternate ← fs.place "alternate" .stmt
    return .ifStmt span test consequent alternate
  | .switchStatement => do
    let span ← spanOf ms
    let discriminant ← fs.node "discriminant" .expr
    let cases ← fs.nodes "cases" .switchCase
    return .switchStmt span discriminant cases
  | .throwStatement => do
    let span ← spanOf ms
    let argument ← fs.node "argument" .expr
    return .throwStmt span argument
  | .tryStatement => do
    let span ← spanOf ms
    let block ← fs.node "block" .block
    let handler ← fs.place "handler" .catchClause
    let finalizer ← fs.place "finalizer" .block
    return .tryStmt span block handler finalizer
  | .whileStatement => do
    let span ← spanOf ms
    let test ← fs.node "test" .expr
    let body ← fs.node "body" .stmt
    return .whileStmt span test body
  | .doWhileStatement => do
    let span ← spanOf ms
    let test ← fs.node "test" .expr
    let body ← fs.node "body" .stmt
    return .doWhileStmt span test body
  | .forStatement => do
    let span ← spanOf ms
    let init ← fs.place "init" .forInit
    let test ← fs.place "test" .expr
    let update ← fs.place "update" .expr
    let body ← fs.node "body" .stmt
    return .forStmt span init test update body
  | .forInStatement => do
    let span ← spanOf ms
    let target ← fs.node "left" .forTarget
    let object ← fs.node "right" .expr
    let body ← fs.node "body" .stmt
    return .forInStmt span target object body
  | .forOfStatement => do
    let span ← spanOf ms
    let awaitToken ← optional ms "await" Span.ofJson?
    let target ← fs.node "left" .forTarget
    let iterable ← fs.node "right" .expr
    let body ← fs.node "body" .stmt
    return .forOfStmt span awaitToken target iterable body
  | _ => none

end Read

end EcmaPrinter
