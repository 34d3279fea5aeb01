import SourceModel.Cancellation
import SourceModel.Content
import SourceModel.Document
import SourceModel.Level
import SourceModel.NameAccess
import SourceModel.Outline
import SourceModel.Tree

/-!
# Front ends and document providers

What a source unit needs from its surroundings: a front end for its language, and for a unit over a
document a provider of the document. Both may act on the state `σ` of a client.
-/

namespace SourceModel

/-- The language of a unit: its syntax trees, its outlines and its name accesses. A front end need
not know any names. -/
structure FrontEnd (σ : Type) where
  modelType : String
  parse : SourceContent → AstLevel → CancellationToken σ → StateM σ (Except Fault Ast)
  buildOutline : String → SourceContent → Ast → StateM σ (Except Fault Outline)
  nameAccesses : SourceContent → Ast → StateM σ (List NameAccess) := fun _ _ => pure []

/-- A document that others may edit; it is read off the state of the client. -/
structure SharedDocument (σ : Type) where
  read : σ → TextDocument

/-- Text and stamp of a shared document as they are now. -/
def SharedDocument.content {σ : Type} (d : SharedDocument σ) (state : σ) : SourceContent :=
  ⟨(d.read state).stamp, (d.read state).text⟩

/-- Hands out the document of a unit with the first connection and takes it back with the last. -/
structure DocumentProvider (σ : Type) where
  acquire : String → StateM σ (Except Fault (SharedDocument σ))
  release : String → StateM σ Unit := fun _ => pure ()

def DocumentProvider.ofDocument {σ : Type} (d : SharedDocument σ) : DocumentProvider σ where
  acquire _ := pure (.ok d)

end SourceModel
