/-
# Printing

The entry points: print a program, a statement or an expression under options,
with a table of comments or without, and print a program given as JSON text,
with its comments taken from the source text it was parsed from. Printing yields
the whole text or the first error.

Key definitions: `print`, `printWithComments`, `printStmt`, `printExpr`,
`parseProgram`, `printJson`, `printJsonWithSource`.
-/
import EcmaPrinter.Emit.Program
import EcmaPrinter.Layout.Printer

namespace EcmaPrinter

/-- The output of a document on a printer, or the error that stopped it. -/
def Printer.complete (p : Printer) (d : Doc) : Except EmitError PrintOutput :=
  match d.run p with
  | (q, none) => .ok q.finish
  | (_, some e) => .error e

def print (program : Program) (options : PrintOptions) : Except EmitError PrintOutput :=
  (Printer.new options).complete program.emit

/-- Prints a program with comments, which only formatted text shows. -/
def printWithComments (program : Program) (comments : CommentTable) (options : PrintOptions) :
    Except EmitError PrintOutput :=
  (Printer.withComments options comments).complete program.emit

def printStmt (s : Stmt) (options : PrintOptions) : Except EmitError String := do
  let output ← (Printer.new options).complete s.emit
  return output.code

def printExpr (e : Expr) (options : PrintOptions) : Except EmitError String := do
  let output ← (Printer.new options).complete e.emit
  return output.code

/-- The program that a JSON text writes. -/
def parseProgram (text : String) : Except EmitError Program :=
  match Json.parse? text >>= Program.ofJson? with
  | some program => .ok program
  | none => .error (.contract .malformedTree)

def printJson (text : String) (options : PrintOptions) : Except EmitError PrintOutput := do
  let program ← parseProgram text
  print program options

/-- Prints a program with the comments of the source text it was parsed from. -/
def printJsonWithSource (text source : String) (options : PrintOptions) :
    Except EmitError PrintOutput := do
  let program ← parseProgram text
  printWithComments program (CommentTable.ofSource source) options

end EcmaPrinter
