import Mathlib.Data.List.Forall2
import Sprig.Evaluation

/-!
# Comparing two evaluations

Many properties of evaluation compare two evaluations of one tree: with two limits, in two stores,
or of one that has a property with itself. They differ in what they ask of single steps, and share
the way from the steps to the tree. This module goes that way once.

A `Pairing` says which values and scopes of two evaluations belong together, and a `Comparison`
which steps do; both may depend on a *world*, which stands for what has been learnt so far. Then the
evaluations of a tree in two scopes that belong together belong together (`Comparison.expr` and its
companions), if the two ways of calling a closure do. Calls with one budget on both sides do
(`Comparison.invoke`). A pairing also says which names may be looked up, for a comparison that is
about trees that do not look up all.
-/

namespace Sprig

/-! ## Names that are looked up -/

mutual

/-- The names that an expression looks up, those in the functions that it makes among them. -/
def Expr.reads : Expr → List String
  | .ident name => [name]
  | .int _ | .str _ | .bool _ => []
  | .unary _ operand => operand.reads
  | .binary _ lhs rhs => lhs.reads ++ rhs.reads
  | .cond test consequence alternative =>
    test.reads ++ (Stmt.readsAll consequence ++ Stmt.readsElse alternative)
  | .fn _ body => Stmt.readsAll body
  | .call callee args => callee.reads ++ Expr.readsAll args

def Expr.readsAll : List Expr → List String
  | [] => []
  | e :: es => e.reads ++ Expr.readsAll es

def Stmt.reads : Stmt → List String
  | .bind _ value | .ret value | .expr value => value.reads
  | .block body => Stmt.readsAll body

def Stmt.readsAll : List Stmt → List String
  | [] => []
  | s :: ss => s.reads ++ Stmt.readsAll ss

def Stmt.readsElse : Option (List Stmt) → List String
  | none => []
  | some body => Stmt.readsAll body

end

/-- The names that a program looks up. -/
def Program.reads (p : Program) : List String :=
  Stmt.readsAll p.statements

/-- The names that calls of a value look up. -/
def Value.reads : Value → List String
  | .function f => Stmt.readsAll f.body
  | _ => []

/-! ## Values that look alike -/

namespace Value

/-- Two values look alike: they are the same, or functions of the same text. -/
def Alike : Value → Value → Prop
  | function f, function g => f.params = g.params ∧ f.body = g.body
  | a, b => a = b

/-- Values that consist of their content alone. Functions and errors are none. -/
def IsPlain : Value → Prop
  | function _ | error _ => False
  | _ => True

variable {a b a' b' : Value}

theorem Alike.refl (a : Value) : a.Alike a := by
  cases a <;> simp [Alike]

theorem Alike.eq_or_function (h : a.Alike b) :
    a = b ∨ ∃ f g, a = function f ∧ b = function g ∧ f.params = g.params ∧ f.body = g.body := by
  cases a with
  | function f =>
    cases b with
    | function g => exact .inr ⟨f, g, rfl, rfl, h⟩
    | _ => cases h
  | _ => exact .inl (by cases b <;> exact h)

theorem Alike.isTruthy_eq (h : a.Alike b) : a.isTruthy = b.isTruthy := by
  obtain rfl | ⟨f, g, rfl, rfl, -⟩ := h.eq_or_function <;> rfl

theorem Alike.unary_eq (op : UnaryOp) (h : a.Alike b) : unary op a = unary op b := by
  obtain rfl | ⟨f, g, rfl, rfl, -⟩ := h.eq_or_function
  · rfl
  · cases op <;> rfl

/-- An operator sees of a function only its kind and which function it is. -/
theorem Alike.binary_eq (op : BinaryOp) (h : a.Alike b) (h' : a'.Alike b')
    (he : a.equals a' = b.equals b') : binary op a a' = binary op b b' := by
  obtain rfl | ⟨f, g, rfl, rfl, -⟩ := h.eq_or_function <;>
    obtain rfl | ⟨f', g', rfl, rfl, -⟩ := h'.eq_or_function
  · rfl
  · cases op <;> cases a <;> simp_all [binary, kind]
  · cases op <;> cases a' <;> simp_all [binary, kind]
  · cases op <;> simp_all [binary, kind]

theorem isPlain_of_unary {op : UnaryOp} {v : Value} (h : unary op a = .ok v) : v.IsPlain := by
  cases op <;> cases a <;> cases h <;> trivial

theorem isPlain_of_integerBinary {op : BinaryOp} {m n : Int64} {v : Value}
    (h : integerBinary op m n = .ok v) : v.IsPlain := by
  cases op with
  | divide =>
    rw [integerBinary] at h
    split at h <;> cases h
    trivial
  | _ => cases h; trivial

theorem isPlain_of_binary {op : BinaryOp} {v : Value} (h : binary op a b = .ok v) : v.IsPlain := by
  unfold binary at h
  split at h
  · exact isPlain_of_integerBinary h
  · cases h; trivial
  · cases h; trivial
  · cases h; trivial
  · split at h <;> cases h

end Value

namespace Builtin

variable {args args' : List Value}

theorem call_eq (b : Builtin) (h : List.Forall₂ Value.Alike args args') :
    b.call args = b.call args' := by
  cases b
  cases h with
  | nil => rfl
  | cons h hs =>
    cases hs with
    | nil => obtain rfl | ⟨f, g, rfl, rfl, -⟩ := h.eq_or_function <;> rfl
    | cons _ hs => simp [Builtin.call, hs.length_eq]

theorem isPlain_of_call {b : Builtin} {v : Value} (h : (b.call args).toExcept = .ok v) :
    v.IsPlain := by
  cases b
  unfold Builtin.call at h
  split at h <;> cases h
  trivial

end Builtin

/-! ## Steps -/

theorem State.depth_leave {st : State} {k : Nat} (h : st.depth = k + 1) : st.leave.depth = k := by
  show st.depth - 1 = k
  omega

namespace Eval

variable {α β : Type} {m : Eval α} {f : α → Eval β} {st st' : State}

/-- The state after a step, however it ends. -/
def stateAfter (m : Eval α) (st : State) : State :=
  match m st with
  | .ok _ st' | .error _ st' => st'

theorem stateAfter_of_ok {a : α} (h : m st = .ok a st') : m.stateAfter st = st' := by
  rw [stateAfter, h]

theorem stateAfter_of_error {x : Exit} (h : m st = .error x st') : m.stateAfter st = st' := by
  rw [stateAfter, h]

theorem bind_of_ok {a : α} (h : m st = .ok a st') : (m >>= f) st = f a st' := by
  show EStateM.bind m f st = _
  rw [EStateM.bind, h]

theorem bind_of_error {x : Exit} (h : m st = .error x st') : (m >>= f) st = .error x st' := by
  show EStateM.bind m f st = _
  rw [EStateM.bind, h]

theorem stateAfter_lookUp (scope : ScopeId) (name : String) (st : State) :
    (lookUp scope name).stateAfter st = st := by
  unfold stateAfter lookUp
  cases st.store.find? scope name with
  | some v => rfl
  | none => cases Builtin.ofName? name <;> rfl

end Eval

/-! ## Comparisons -/

/-- Which values and which scopes of two evaluations belong together. -/
structure Pairing where
  /-- What has been learnt so far. -/
  World : Type
  /-- The second world comes after the first. -/
  le : World → World → Prop
  /-- The names that may be looked up. -/
  visible : String → Prop
  value : World → Value → Value → Prop
  scope : World → ScopeId → ScopeId → Prop
  value_mono : ∀ {w w' : World} {a b : Value}, le w w' → value w a b → value w' a b
  scope_mono : ∀ {w w' : World} {i j : ScopeId}, le w w' → scope w i j → scope w' i j
  value_alike : ∀ {w : World} {a b : Value}, value w a b → a.Alike b
  /-- Functions are told apart on one side if they are on the other. -/
  value_equals : ∀ {w : World} {a b a' b' : Value}, value w a b → value w a' b' →
    a.equals a' = b.equals b'
  value_plain : ∀ {w : World} {a : Value}, a.IsPlain → value w a a
  value_reads : ∀ {w : World} {a b : Value}, value w a b → ∀ name ∈ a.reads, visible name

namespace Pairing

/-- The lists of values that belong together. -/
def values (C : Pairing) (w : C.World) : List Value → List Value → Prop :=
  List.Forall₂ (C.value w)

/-- The results of statements that belong together. -/
def result (C : Pairing) (w : C.World) : Option Value → Option Value → Prop :=
  Option.Rel (C.value w)

/-- Only what is the same belongs together. -/
def same : Pairing where
  World := Unit
  le _ _ := True
  visible _ := True
  value _ a b := a = b
  scope _ i j := i = j
  value_mono _ h := h
  scope_mono _ h := h
  value_alike h := h ▸ Value.Alike.refl _
  value_equals h h' := by rw [h, h']
  value_plain _ := rfl
  value_reads _ _ _ := trivial

end Pairing

/-- Which steps of two evaluations belong together, so that the steps of which evaluation consists
do. -/
structure Comparison extends Pairing where
  /-- Two steps belong together, where the relation says so of what they give. -/
  step : {α : Type} → World → (World → α → α → Prop) → Eval α → Eval α → Prop
  pure : ∀ {α : Type} {w : World} {R : World → α → α → Prop} {a b : α}, R w a b →
    step w R (pure a) (pure b)
  bind : ∀ {α β : Type} {w : World} {R : World → α → α → Prop} {Q : World → β → β → Prop}
    {m n : Eval α} {f g : α → Eval β}, step w R m n →
    (∀ {w' : World} {a b : α}, le w w' → R w' a b → step w' Q (f a) (g b)) →
    step w Q (m >>= f) (n >>= g)
  fault : ∀ {α : Type} {w : World} {R : World → α → α → Prop} (e : Fault),
    step w R (Eval.fault e) (Eval.fault e)
  leaveWith : ∀ {α : Type} {w : World} {R : World → α → α → Prop} {a b : Value}, value w a b →
    step w R (Eval.leaveWith a) (Eval.leaveWith b)
  lookUp : ∀ {w : World} {i j : ScopeId} {name : String}, visible name → scope w i j →
    step w value (Eval.lookUp i name) (Eval.lookUp j name)
  assign : ∀ {w : World} {i j : ScopeId} {a b : Value} (name : String), scope w i j →
    value w a b → step w (fun _ _ _ => True) (Eval.assign i name a) (Eval.assign j name b)
  makeFunction : ∀ {w : World} {i j : ScopeId} (params : List String) {body : Block},
    (∀ name ∈ Stmt.readsAll body, visible name) → scope w i j →
    step w value (Eval.makeFunction i params body) (Eval.makeFunction j params body)
  /-- The scopes of two calls with as many arguments as there are parameters. -/
  openScope : ∀ {w : World} {f g : Closure} {args args' : List Value},
    value w (.function f) (.function g) → List.Forall₂ (value w) args args' →
    step w scope (Eval.openScope (.ofPairs (f.params.zip args)) f.scope)
      (Eval.openScope (.ofPairs (g.params.zip args')) g.scope)

namespace Comparison

variable {C : Comparison} {w : C.World}

/-- The two ways of calling a closure belong together. -/
def Calls (C : Comparison) (call call' : Closure → List Value → Eval Value) : Prop :=
  ∀ ⦃w : C.World⦄ ⦃f g : Closure⦄ ⦃args args' : List Value⦄,
    C.value w (.function f) (.function g) → C.values w args args' →
    C.step w C.value (call f args) (call' g args')

/-- An operation that gives data, on values that belong together. -/
theorem ofExcept {x y : Except Fault Value} (hxy : x = y)
    (hx : ∀ v, x = .ok v → v.IsPlain) : C.step w C.value (Eval.ofExcept x) (Eval.ofExcept y) := by
  subst hxy
  cases x with
  | error e => exact C.fault e
  | ok v => exact C.pure (C.value_plain (hx v rfl))

theorem getD_null {a b : Option Value} (h : C.result w a b) :
    C.value w (a.getD .null) (b.getD .null) := by
  cases h with
  | none => exact C.value_plain trivial
  | some h => exact h

/-! ## Trees -/

section Trees

variable {call call' : Closure → List Value → Eval Value} {i j : ScopeId}

theorem apply (hcall : C.Calls call call') {a b : Value} {args args' : List Value}
    (h : C.value w a b) (hargs : C.values w args args') :
    C.step w C.value (a.apply call args) (b.apply call' args') := by
  obtain rfl | ⟨f, g, rfl, rfl, -⟩ := (C.value_alike h).eq_or_function
  · cases a with
    | function f => exact hcall h hargs
    | builtin b =>
      refine ofExcept (congrArg Value.toExcept (b.call_eq ?_)) fun v => Builtin.isPlain_of_call
      exact hargs.imp fun _ _ => C.value_alike
    | _ => exact C.fault _
  · exact hcall h hargs

mutual

/-- **Evaluating an expression in two scopes that belong together.** -/
theorem expr (hcall : C.Calls call call') (e : Expr) (hreads : ∀ name ∈ e.reads, C.visible name)
    {w : C.World} (h : C.scope w i j) :
    C.step w C.value (e.eval call i) (e.eval call' j) := by
  cases e with
  | ident name => exact C.lookUp (hreads name (List.mem_singleton.2 rfl)) h
  | int n | str s | bool b => exact C.pure (C.value_plain trivial)
  | unary op operand =>
    refine C.bind (expr hcall operand hreads h) fun _ hv => ?_
    exact ofExcept ((C.value_alike hv).unary_eq op) fun _ => Value.isPlain_of_unary
  | binary op lhs rhs =>
    obtain ⟨hlhs, hrhs⟩ := List.forall_mem_append.1 hreads
    refine C.bind (expr hcall lhs hlhs h) fun hw ha => ?_
    refine C.bind (expr hcall rhs hrhs (C.scope_mono hw h)) fun hw' hb => ?_
    have ha := C.value_mono hw' ha
    exact ofExcept ((C.value_alike ha).binary_eq op (C.value_alike hb) (C.value_equals ha hb))
      fun _ => Value.isPlain_of_binary
  | cond test consequence alternative =>
    obtain ⟨htest, hblocks⟩ := List.forall_mem_append.1 hreads
    obtain ⟨hconsequence, halternative⟩ := List.forall_mem_append.1 hblocks
    refine C.bind (expr hcall test htest h) fun {w' a b} hw hv => ?_
    refine C.bind (R := C.result) ?_ fun _ hr => C.pure (getD_null hr)
    rw [(C.value_alike hv).isTruthy_eq]
    by_cases ht : b.isTruthy = true
    · rw [if_pos ht, if_pos ht]
      exact stmts hcall consequence hconsequence (C.scope_mono hw h) .none
    · rw [if_neg ht, if_neg ht]
      exact orElse hcall alternative halternative (C.scope_mono hw h)
  | fn params body => exact C.makeFunction params hreads h
  | call callee args =>
    obtain ⟨hcallee, hargs⟩ := List.forall_mem_append.1 hreads
    refine C.bind (expr hcall callee hcallee h) fun hw hf => ?_
    refine C.bind (exprs hcall args hargs (C.scope_mono hw h)) fun hw' hvs => ?_
    exact apply hcall (C.value_mono hw' hf) hvs

theorem exprs (hcall : C.Calls call call') (es : List Expr)
    (hreads : ∀ name ∈ Expr.readsAll es, C.visible name) {w : C.World} (h : C.scope w i j) :
    C.step w C.values (Expr.evalAll call i es) (Expr.evalAll call' j es) := by
  cases es with
  | nil => exact C.pure .nil
  | cons e es =>
    obtain ⟨he, hes⟩ := List.forall_mem_append.1 hreads
    refine C.bind (expr hcall e he h) fun hw hv => ?_
    refine C.bind (exprs hcall es hes (C.scope_mono hw h)) fun hw' hvs => ?_
    exact C.pure (.cons (C.value_mono hw' hv) hvs)

theorem stmt (hcall : C.Calls call call') (s : Stmt) (hreads : ∀ name ∈ s.reads, C.visible name)
    {w : C.World} (h : C.scope w i j) :
    C.step w C.result (s.exec call i) (s.exec call' j) := by
  cases s with
  | bind name value =>
    refine C.bind (expr hcall value hreads h) fun hw hv => ?_
    exact C.bind (C.assign name (C.scope_mono hw h) hv) fun _ _ => C.pure .none
  | ret value => exact C.bind (expr hcall value hreads h) fun _ hv => C.leaveWith hv
  | expr value => exact C.bind (expr hcall value hreads h) fun _ hv => C.pure (.some hv)
  | block body => exact stmts hcall body hreads h .none

theorem stmts (hcall : C.Calls call call') (ss : List Stmt)
    (hreads : ∀ name ∈ Stmt.readsAll ss, C.visible name) {w : C.World} (h : C.scope w i j)
    {last last' : Option Value} (hlast : C.result w last last') :
    C.step w C.result (Stmt.execAll call i last ss) (Stmt.execAll call' j last' ss) := by
  cases ss with
  | nil => exact C.pure hlast
  | cons s ss =>
    obtain ⟨hs, hss⟩ := List.forall_mem_append.1 hreads
    exact C.bind (stmt hcall s hs h) fun hw hv => stmts hcall ss hss (C.scope_mono hw h) hv

theorem orElse (hcall : C.Calls call call') (alternative : Option (List Stmt))
    (hreads : ∀ name ∈ Stmt.readsElse alternative, C.visible name) {w : C.World}
    (h : C.scope w i j) :
    C.step w C.result (Stmt.execElse call i alternative) (Stmt.execElse call' j alternative) := by
  cases alternative with
  | none => exact C.pure .none
  | some body => exact stmts hcall body hreads h .none

end

end Trees

/-! ## Calls -/

/-- The bodies of two calls. -/
theorem run {call call' : Closure → List Value → Eval Value} (hcall : C.Calls call call')
    {f g : Closure} {args args' : List Value} (h : C.value w (.function f) (.function g))
    (hargs : C.values w args args') : C.step w C.result (f.run call args) (g.run call' args') := by
  obtain ⟨hparams, hbody⟩ : f.params = g.params ∧ f.body = g.body := C.value_alike h
  have hlength : args.length = args'.length := hargs.length_eq
  unfold Closure.run
  rw [hlength, hparams, hbody]
  by_cases hcount : args'.length = g.params.length
  · rw [if_pos hcount, if_pos hcount]
    have hopen := C.openScope h hargs
    rw [hparams] at hopen
    have hreads : ∀ name ∈ Stmt.readsAll g.body, C.visible name := hbody ▸ C.value_reads h
    exact C.bind hopen fun _ hscope => stmts hcall g.body hreads hscope .none
  · rw [if_neg hcount, if_neg hcount]
    exact C.fault _

/-- **Calls with one budget belong together** if it makes no difference that they are open while
their bodies run. -/
theorem invoke (hasCall : ∀ ⦃w : C.World⦄ ⦃m n : Eval (Option Value)⦄, C.step w C.result m n →
      C.step w C.value (Eval.asCall m) (Eval.asCall n)) (limit budget : Nat) :
    C.Calls (Closure.invoke limit budget) (Closure.invoke limit budget) := by
  induction budget with
  | zero => exact fun _ _ _ _ _ _ _ => C.fault _
  | succ budget ih => exact fun _ _ _ _ _ h hargs => hasCall (run ih h hargs)

end Comparison

end Sprig
