import SourceModel.Calc.Lexer
import SourceModel.Document.Pair

/-!
# Sections of calc documents

Strings, comments and templates are sections of their own, and all else is code. The partitions
are the runs of tokens of one section.
-/

namespace SourceModel.Calc

def partitioning : String := "calc"

namespace Section

def code : String := "CODE"
def string : String := "STRING"
def comment : String := "COMMENT"
def template : String := "TEMPLATE"

end Section

def TokenKind.sectionType : TokenKind → String
  | string => Section.string
  | comment => Section.comment
  | template => Section.template
  | _ => Section.code

/-- Bounds and section of a run of tokens. -/
structure TokenRun where
  start : Nat
  stop : Nat
  type : String
deriving DecidableEq, Repr

/-- The runs of tokens, where `run` is the run that comes before them. -/
def runsFrom (run : TokenRun) : List Token → List TokenRun
  | [] => [run]
  | t :: ts =>
    if t.kind.sectionType = run.type then runsFrom { run with stop := t.stop } ts
    else run :: runsFrom ⟨t.start, t.stop, t.kind.sectionType⟩ ts

/-- The runs of tokens. An empty text has one empty run of code. -/
def runs : List Token → List TokenRun
  | [] => [⟨0, 0, Section.code⟩]
  | t :: ts => runsFrom ⟨t.start, t.stop, t.kind.sectionType⟩ ts

def TokenRun.partition? (run : TokenRun) : Option Partition :=
  (Region.ofBounds? run.start run.stop).toOption.map fun region => ⟨region, run.type⟩

def partitioner : Partitioner where
  name := partitioning
  partition text := (runs (lex text).tokens).filterMap TokenRun.partition?

def sectionsIn (partitioning : String) : ContentSections where
  partitioning := partitioning
  primary := Section.code
  secondary := [Section.string, Section.comment, Section.template]
  byPartition :=
    [Section.code, Section.string, Section.comment, Section.template].map fun type => (type, type)

/-- The section types of calc documents. -/
def sections : ContentSections := sectionsIn partitioning

def bracketPairs : List (String × List CharPair) :=
  [(Section.code, [⟨'(', ')'⟩]), (Section.template, [⟨'{', '}'⟩, ⟨'(', ')'⟩])]

/-- The bracket matcher of calc, with sections looked up in a partitioning. -/
def pairMatcherIn (partitioning : String) : SectionPairMatcher :=
  .ofPairs (sectionsIn partitioning) bracketPairs

def pairMatcher : SectionPairMatcher := pairMatcherIn partitioning

def document (text : String) : Except Fault TextDocument :=
  ({ text } : TextDocument).addPartitioner partitioner

end SourceModel.Calc
