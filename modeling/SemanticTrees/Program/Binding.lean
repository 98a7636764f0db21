import SemanticTrees.Program.Basic

/-!
Binding of arguments to the parameters of a member. A named argument goes to the parameter of its
name, the others go to the remaining parameters in order, a collecting parameter takes all that
are left, and a parameter without an argument has its default. Bindings are in the order of the
parameters.
-/

namespace SemanticTrees.Program

def argumentName (p : Program) (argument : SyntaxId) : Option String :=
  match p.formOf argument with
  | some (.argument name _ _) => name
  | _ => none

def namedArgument? (p : Program) (arguments : List SyntaxId) (name : String) : Option SyntaxId :=
  arguments.find? fun argument => p.argumentName argument == some name

/-- The bindings of parameters, given the arguments without a name that are not bound yet. -/
def bindParameters (p : Program) (arguments : List SyntaxId) :
    List SymbolId → List SyntaxId → List Binding
  | [], _ => []
  | id :: rest, unnamed =>
    match p.symbols[id]? with
    | none => bindParameters p arguments rest unnamed
    | some parameter =>
      if parameter.isCollecting then
        unnamed.map (fun argument => ⟨id, .collected, some argument⟩) ++
          bindParameters p arguments rest []
      else
        match p.namedArgument? arguments parameter.name, unnamed with
        | some argument, unnamed =>
          ⟨id, .explicit, some argument⟩ :: bindParameters p arguments rest unnamed
        | none, argument :: unnamed =>
          ⟨id, .explicit, some argument⟩ :: bindParameters p arguments rest unnamed
        | none, [] =>
          if parameter.default.isSome then
            ⟨id, .default, none⟩ :: bindParameters p arguments rest []
          else bindParameters p arguments rest []

/-- The bindings of a call of a member; an unknown member binds nothing. -/
def bindArguments (p : Program) (member : SymbolId) (arguments : List SyntaxId) : List Binding :=
  match p.symbols[member]? with
  | none => []
  | some symbol =>
    p.bindParameters arguments symbol.parameters
      (arguments.filter fun argument => (p.argumentName argument).isNone)

end SemanticTrees.Program
