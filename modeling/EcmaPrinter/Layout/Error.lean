/-
# Why printing fails

A tree may hold syntax that the printer does not render, or break a rule that
parsed trees keep. Either stops the printing. The third cause, lowering the
indentation below zero, would be a defect of the printer itself.

Key definitions: `Violation`, `EmitError`, `EmitError.message`.
-/
import EcmaPrinter.Tree.Kind
import EcmaPrinter.Tree.Operator

namespace EcmaPrinter

/-- What needs a body. -/
inductive BodyOwner where
  | getter
  | setter
  | function
  | classConstructor
deriving DecidableEq

/-- Loops over something, whose heads declare one binding. -/
inductive ForHead where
  | forIn
  | forOf
deriving DecidableEq

/-- The rules that a tree can break. -/
inductive Violation where
  | malformedTree
  | templateArity (quasis expressions : Nat)
  | memberProperty (found : NodeKind)
  | missingBody (owner : BodyOwner)
  | bindingCount (head : ForHead) (count : Nat)
  | noDeclarators (kind : BindingKind)
  | lateDefaultImport
deriving DecidableEq

inductive EmitError where
  | unimplemented (kind : NodeKind)
  | contract (violation : Violation)
  | indentUnderflow
deriving DecidableEq

def BodyOwner.text : BodyOwner → String
  | .getter => "getter"
  | .setter => "setter"
  | .function => "function"
  | .classConstructor => "constructor"

def ForHead.text : ForHead → String
  | .forIn => "for-in"
  | .forOf => "for-of"

def Violation.message : Violation → String
  | .malformedTree => "malformed tree JSON"
  | .templateArity quasis expressions =>
    "template literal has " ++ toString quasis ++ " quasis for " ++ toString expressions
      ++ " expressions"
  | .memberProperty found =>
    "non-computed member property must be an identifier or private name, found " ++ found.text
  | .missingBody owner => owner.text ++ " without a body"
  | .bindingCount head count =>
    head.text ++ " head declares " ++ toString count ++ " bindings, expected exactly one"
  | .noDeclarators kind => "`" ++ kind.text ++ "` declaration without declarators"
  | .lateDefaultImport => "default import must precede the other import specifiers"

/-- The report of an error. -/
def EmitError.message : EmitError → String
  | .unimplemented kind => "not implemented yet: codegen of " ++ kind.text
  | .contract violation => "input contract violation: " ++ violation.message
  | .indentUnderflow => "printer invariant violated: indentation decreased below zero"

end EcmaPrinter
