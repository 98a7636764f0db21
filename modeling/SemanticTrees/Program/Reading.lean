import SemanticTrees.Program.Decoding
import SemanticTrees.Program.Encoding
import SemanticTrees.Program.Validity
import SemanticTrees.Json.Reader
import SemanticTrees.Json.Writer

/-!
Reading and writing checked programs as JSON text. What is read is valid.
-/

namespace SemanticTrees

/-- Why a text is no checked program. -/
inductive ReadError
  /-- The text is no JSON, or not of the right shape. -/
  | unreadable
  | invalid (fileName : String) (fault : Fault)
deriving Repr

def ReadError.message : ReadError → String
  | .unreadable => "failed to parse checked unit JSON"
  | .invalid fileName fault => s!"invalid checked unit '{fileName}': {fault.message}"

namespace Program

/-- A program from JSON text, valid or not. -/
def parse (text : String) : Except ReadError Program :=
  match (Json.parse? text).bind Decoding.program with
  | some p => .ok p
  | none => .error .unreadable

def read (text : String) : Except ReadError Program :=
  match parse text with
  | .error e => .error e
  | .ok p =>
    match p.validate with
    | .ok () => .ok p
    | .error fault => .error (.invalid p.fileName fault)

def write (p : Program) : String := p.toJson.pretty

end Program

end SemanticTrees
