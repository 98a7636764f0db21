/-!
Requests to give up. Tokens are handles on requests: copies of a token share one request, and once
it is made every copy sees it and it cannot be withdrawn.
-/

namespace SemanticTrees

/-- What a build that was given up reports. -/
structure Cancelled where
deriving DecidableEq, Repr

def Cancelled.message : Cancelled → String := fun _ => "operation tree build was cancelled"

/-- The state of a request. -/
inductive Request
  | pending
  | made
deriving DecidableEq, Repr

def Request.check : Request → Except Cancelled Unit
  | .pending => .ok ()
  | .made => .error {}

/-- Handles on requests. -/
structure Tokens where
  /-- The request behind each token. -/
  request : Array Nat
  /-- The state of each request. -/
  state : Array Request
deriving DecidableEq, Repr

namespace Tokens

/-- One token, with a request of its own. -/
def first : Tokens := ⟨#[0], #[.pending]⟩

/-- One more token, with a request of its own. -/
def fresh (t : Tokens) : Tokens :=
  { request := t.request.push t.state.size, state := t.state.push .pending }

/-- One more token, with the request of an existing one. -/
def copy (t : Tokens) (token : Nat) : Tokens :=
  match t.request[token]? with
  | some request => { t with request := t.request.push request }
  | none => t

def cancel (t : Tokens) (token : Nat) : Tokens :=
  match t.request[token]? with
  | some request => { t with state := t.state.setIfInBounds request .made }
  | none => t

def stateOf (t : Tokens) (token : Nat) : Request :=
  match t.request[token]? with
  | some request => t.state.getD request .pending
  | none => .pending

def size (t : Tokens) : Nat := t.request.size

end Tokens

end SemanticTrees
