import Sprig.Store
import Sprig.Value.Operation

/-!
# Evaluation

Programs run against a `State`: the store of scopes and a count of the function calls that are open.
A step of evaluation (`Eval`) gives a value or leaves early, by a `return` on its way to the call it
belongs to or by a fault.

Trees are evaluated by recursion on the tree, and what it means to call a closure is a parameter
there, because the body of a closure is no part of the expression that calls it. `Closure.invoke`
supplies it by recursion on the number of calls that may still be nested, so every evaluation ends:
each call uses up one of them, and between two calls the tree gets smaller.
-/

namespace Sprig

/-- What a running program works on. -/
structure State where
  store : Store
  /-- The number of calls of closures that are open. -/
  depth : Nat
  /-- The largest number of calls that have been open at once. -/
  peak : Nat

namespace State

/-- The state before a run: no call is open. -/
def ofStore (store : Store) : State :=
  ⟨store, 0, 0⟩

/-- Opens a call. -/
def enter (st : State) : State :=
  ⟨st.store, st.depth + 1, max st.peak (st.depth + 1)⟩

/-- Closes a call. -/
def leave (st : State) : State :=
  ⟨st.store, st.depth - 1, st.peak⟩

end State

/-- Why an evaluation leaves early. -/
inductive Exit where
  /-- A `return` with its value. -/
  | returned (value : Value)
  | fault (fault : Fault)

/-- A step of evaluation. -/
abbrev Eval := EStateM Exit State

namespace Eval

variable {α : Type}

/-- Stops with a fault. -/
def fault (e : Fault) : Eval α :=
  fun st => .error (.fault e) st

/-- Leaves the enclosing call with a value. -/
def leaveWith (v : Value) : Eval α :=
  fun st => .error (.returned v) st

/-- The value of an operation on values. -/
def ofExcept : Except Fault α → Eval α
  | .ok a => fun st => .ok a st
  | .error e => fault e

/-- The value of a name: what it is bound to, or else the built-in function of that name. -/
def lookUp (scope : ScopeId) (name : String) : Eval Value :=
  fun st =>
    match st.store.find? scope name with
    | some v => .ok v st
    | none =>
      match Builtin.ofName? name with
      | some b => .ok (.builtin b) st
      | none => .error (.fault (.unbound name)) st

/-- Binds a name in a scope. -/
def assign (scope : ScopeId) (name : String) (v : Value) : Eval Unit
  | ⟨store, depth, peak⟩ => .ok () ⟨store.set scope name v, depth, peak⟩

/-- The value of a function literal. -/
def makeFunction (scope : ScopeId) (params : List String) (body : Block) : Eval Value
  | ⟨store, depth, peak⟩ =>
    let (closure, store) := store.makeFunction params body scope
    .ok (.function closure) ⟨store, depth, peak⟩

/-- Opens a scope inside another. -/
def openScope (bindings : Bindings Value) (parent : ScopeId) : Eval ScopeId
  | ⟨store, depth, peak⟩ =>
    let (scope, store) := store.openScope bindings (some parent)
    .ok scope ⟨store, depth, peak⟩

/-- Runs the body of a call. The call is open while it runs, and is closed however it ends; a
`return` ends here, and a body without a value gives null. -/
@[inline] def asCall (body : Eval (Option Value)) : Eval Value :=
  fun st =>
    match body st.enter with
    | .ok v st => .ok (v.getD .null) st.leave
    | .error (.returned v) st => .ok v st.leave
    | .error (.fault e) st => .error (.fault e) st.leave

end Eval

/-! ## Trees -/

section Trees

-- How a closure is called, and the scope in which the tree is evaluated.
variable (call : Closure → List Value → Eval Value) (scope : ScopeId)

/-- Calls a value. -/
def Value.apply : Value → List Value → Eval Value
  | .function f, args => call f args
  | .builtin b, args => Eval.ofExcept (b.call args).toExcept
  | v, _ => Eval.fault (.notAFunction v.kind)

mutual

/-- Evaluates an expression. Operands and arguments are evaluated from left to right, a callee
before its arguments. -/
def Expr.eval : Expr → Eval Value
  | .ident name => Eval.lookUp scope name
  | .int n => pure (.int n)
  | .str s => pure (.str s)
  | .bool b => pure (.bool b)
  | .unary op operand => do
    let v ← operand.eval
    Eval.ofExcept (Value.unary op v)
  | .binary op lhs rhs => do
    let a ← lhs.eval
    let b ← rhs.eval
    Eval.ofExcept (Value.binary op a b)
  | .cond test consequence alternative => do
    let v ← test.eval
    let result ←
      (if v.isTruthy then Stmt.execAll none consequence else Stmt.execElse alternative)
    pure (result.getD .null)
  | .fn params body => Eval.makeFunction scope params body
  | .call callee args => do
    let f ← callee.eval
    let vs ← Expr.evalAll args
    f.apply call vs

/-- Evaluates expressions from left to right. -/
def Expr.evalAll : List Expr → Eval (List Value)
  | [] => pure []
  | e :: es => do
    let v ← e.eval
    let vs ← Expr.evalAll es
    pure (v :: vs)

/-- Executes a statement; only expressions and blocks have a value. -/
def Stmt.exec : Stmt → Eval (Option Value)
  | .bind name value => do
    let v ← value.eval
    Eval.assign scope name v
    pure none
  | .ret value => do
    let v ← value.eval
    Eval.leaveWith v
  | .expr value => do
    let v ← value.eval
    pure (some v)
  | .block body => Stmt.execAll none body

/-- Executes statements in order. The value is that of the last one, or `last` if there is none. -/
def Stmt.execAll (last : Option Value) : List Stmt → Eval (Option Value)
  | [] => pure last
  | s :: ss => do
    let v ← s.exec
    Stmt.execAll v ss

/-- Executes the `else` part of a conditional. -/
def Stmt.execElse : Option (List Stmt) → Eval (Option Value)
  | none => pure none
  | some body => Stmt.execAll none body

end

end Trees

/-! ## Calls -/

/-- Runs the body of a closure in a new scope, inside the one it was made in, that binds the
parameters to the arguments. Of two parameters of one name the later counts. -/
def Closure.run (call : Closure → List Value → Eval Value) (f : Closure) (args : List Value) :
    Eval (Option Value) :=
  if args.length = f.params.length then do
    let scope ← Eval.openScope (.ofPairs (f.params.zip args)) f.scope
    Stmt.execAll call scope none f.body
  else Eval.fault (.argumentCount args.length f.params.length)

/-- Calls a closure where `budget` more calls may be nested. The limit is what the fault reports
once there are none. -/
def Closure.invoke (limit : Nat) : (budget : Nat) → Closure → List Value → Eval Value
  | 0, _, _ => Eval.fault (.tooDeep limit)
  | budget + 1, f, args => Eval.asCall (f.run (Closure.invoke limit budget) args)

/-! ## Programs -/

/-- How deep calls may nest if nothing else is said. -/
def defaultLimit : Nat := 100000

/-- Runs a program in a scope, with at most `limit` calls open at once. It ends with the value of
its last statement if that has one, with the value of a `return` outside of any function, or with a
fault. -/
def Program.run (limit : Nat) (scope : ScopeId) (p : Program) (st : State) :
    Except Fault (Option Value) × State :=
  match Stmt.execAll (Closure.invoke limit (limit - st.depth)) scope none p.statements st with
  | .ok v st => (.ok v, st)
  | .error (.returned v) st => (.ok (some v), st)
  | .error (.fault e) st => (.error e, st)

/-- Runs a program, with a fault as an error value. -/
def Program.evaluate (limit : Nat) (scope : ScopeId) (p : Program) (st : State) :
    Option Value × State :=
  match p.run limit scope st with
  | (.ok v, st) => (v, st)
  | (.error e, st) => (some (.error e), st)

end Sprig
