import SourceModel.Tree

/-!
# Kinds of node in calc trees

The kinds of the syntax trees of calc and of the template language that is embedded in it, and the
codes that the status of their nodes may have.
-/

namespace SourceModel.Calc

/-- Name of the language and of the model that is derived from it. -/
def language : String := "calc"

def templateLanguage : String := "template"

namespace Kind

def program : SyntaxKind := ⟨language, 0, "Program"⟩
def assignment : SyntaxKind := ⟨language, 1, "Assignment"⟩
def name : SyntaxKind := ⟨language, 2, "Name"⟩
def exprStatement : SyntaxKind := ⟨language, 3, "ExprStatement"⟩
def templateBlock : SyntaxKind := ⟨language, 4, "TemplateBlock"⟩
def binary : SyntaxKind := ⟨language, 5, "Binary"⟩
def paren : SyntaxKind := ⟨language, 6, "Paren"⟩
def nameRef : SyntaxKind := ⟨language, 7, "NameRef"⟩
def number : SyntaxKind := ⟨language, 8, "Number"⟩
def string : SyntaxKind := ⟨language, 9, "String"⟩
def templateExpr : SyntaxKind := ⟨language, 10, "TemplateExpr"⟩
def error : SyntaxKind := ⟨language, 11, "Error"⟩
def templateBody : SyntaxKind := ⟨templateLanguage, 0, "Body"⟩
def templateWord : SyntaxKind := ⟨templateLanguage, 1, "Word"⟩

end Kind

/-- Code of a node that stands for a fault of the grammar. -/
def grammarCode : Nat := 1

/-- Code of a string or a template that lacks its end. -/
def unterminatedCode : Nat := 2

end SourceModel.Calc
