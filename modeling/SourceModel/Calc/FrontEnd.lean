import SourceModel.Calc.Lowering
import SourceModel.Calc.Outline
import SourceModel.SourceUnit

/-!
# The front end of calc

Calc as the language of a source unit. It needs no state of the client beyond the flag that its
token reads.
-/

namespace SourceModel.Calc

variable {σ : Type}

/-- The syntax tree of a text, with a look at the token before each of the two phases. -/
def parseContent (content : SourceContent) (level : AstLevel) (token : CancellationToken σ)
    (state : σ) : Except Fault Ast := do
  token.check "parse" state
  let parsed := parse content.text
  token.check "lower" state
  lower parsed level

def frontEnd : FrontEnd σ where
  modelType := language
  parse content level token := do return parseContent content level token (← get)
  buildOutline unit content ast := pure (outline unit content.size ast)
  nameAccesses _ ast := pure (nameAccesses ast)

/-- A unit over a document that is always there. -/
def documentUnit (id : String) (document : SharedDocument σ) : SourceUnit σ :=
  { id, frontEnd, backing := .document (.ofDocument document) }

/-- A unit with a text of its own. -/
def detachedUnit (id : String) (content : SourceContent) : SourceUnit σ :=
  { id, frontEnd, backing := .detached content }

end SourceModel.Calc
