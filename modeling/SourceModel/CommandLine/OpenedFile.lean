import SourceModel.Calc.FrontEnd
import SourceModel.Calc.Sections

/-!
# Opened files

The text of a file as a calc document, and as a source unit over that document. Results are built
under a connection of their own.
-/

namespace SourceModel.CommandLine

/-- A calc file that has been read. -/
structure OpenedFile where
  content : SourceContent
  document : TextDocument
  unit : SourceUnit TextDocument

namespace OpenedFile

def ofText (name text : String) (options : ModelOptions) : Except Fault OpenedFile := do
  let document ← Calc.document text
  let shared : SharedDocument TextDocument := ⟨fun d => d⟩
  let unit := { Calc.documentUnit name shared with options }
  return ⟨shared.content document, document, unit⟩

/-- What a call of the unit gives, which has to be connected. -/
def request {α : Type} (file : OpenedFile) (call : UnitM TextDocument (Option α)) :
    Except Fault α := do
  match ← ((SourceUnit.withConnection call).run.run ⟨file.unit, file.document⟩).1 with
  | some a => return a
  | none => throw (.notConnected file.unit.id)

/-- The token of a request that nobody cancels. -/
def uncancelled : CancellationToken TextDocument := ⟨fun _ => false⟩

/-- The syntax tree of the file. -/
def ast (file : OpenedFile) (level : AstLevel) : Except Fault AstInfo :=
  file.request (SourceUnit.getAst level true uncancelled)

def model (file : OpenedFile) : Except Fault ModelInfo :=
  file.request (SourceUnit.getModel file.unit.options.astLevel true uncancelled)

end OpenedFile

end SourceModel.CommandLine
