import SourceModel.Level
import SourceModel.NameAccess
import SourceModel.Outline
import SourceModel.Tree.Problem

/-!
# What a unit knows about a revision

The syntax tree of a revision and the model that is derived from it. Each of them carries the stamp
of its revision, and a serial number that tells it from every other one of the unit.
-/

namespace SourceModel

/-- A syntax tree, the level up to which it was built, and the stamp of the text. -/
structure AstInfo where
  serial : Nat
  stamp : Nat
  level : AstLevel
  ast : Ast
deriving Inhabited

/-- Whether the tree belongs to a revision and serves a request for a level. -/
def AstInfo.serves (info : AstInfo) (stamp : Nat) (level : AstLevel) : Bool :=
  info.stamp == stamp && info.level.satisfies level

/-- A model: outline, name accesses and problems, all from one syntax tree. -/
structure ModelInfo where
  serial : Nat
  astInfo : AstInfo
  outline : Outline
  names : NameAccessSet
  problems : List Problem
deriving Inhabited

namespace ModelInfo

def stamp (info : ModelInfo) : Nat := info.astInfo.stamp

/-- Whether the model belongs to a revision and its syntax tree serves a request for a level. -/
def serves (info : ModelInfo) (stamp : Nat) (level : AstLevel) : Bool :=
  info.astInfo.serves stamp level

end ModelInfo

end SourceModel
