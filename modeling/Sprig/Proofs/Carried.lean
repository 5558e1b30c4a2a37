import Sprig.Proofs.Machine

/-!
# What the machine carries

On its way the machine holds values: operands and arguments that are done, and what is handed on
next. All it does with them is to move them. It binds them, passes them, hands them on to what is
left to do, and finds them again where they were bound. Apart from plain values, the only one that
it makes is the function of a literal. So a property of values that plain values have is kept by
every other step (`Machine.Carries.step`), together with a property of stores that goes with it.
-/

namespace Sprig

mutual

/-- The values that are kept for what is left to do after an expression. -/
def ValueRest.held : ValueRest → List Value
  | .unary _ rest | .right _ _ _ rest | .cond _ _ _ rest | .callee _ _ rest => rest.held
  | .binary _ lhs rest => lhs :: rest.held
  | .argument _ f done _ rest => f :: (done ++ rest.held)
  | .bind _ _ rest | .ret rest | .expr rest => rest.held

/-- The values that are kept for what is left to do after statements. -/
def BlockRest.held : BlockRest → List Value
  | .next _ _ rest => rest.held
  | .branch rest | .call rest => rest.held
  | .program => []

end

/-- The value that a `return` carries. -/
def Exit.held : Exit → List Value
  | .returned v => [v]
  | .fault _ => []

/-- The values that the machine holds: operands and arguments that are done, and what is handed on
next. -/
def Control.held : Control → List Value
  | .expr _ _ rest | .find _ _ rest => rest.held
  | .arguments _ f args _ rest => f :: (args ++ rest.held)
  | .apply f args rest => f :: (args ++ rest.held)
  | .value v rest => v :: rest.held
  | .stmt _ _ rest => rest.held
  | .stmts _ last _ rest => last.toList ++ rest.held
  | .done v rest => v.toList ++ rest.held
  | .leaveExpr x rest => x.held ++ rest.held
  | .leaveBlock x rest => x.held ++ rest.held

/-- The function that the next step makes: it evaluates a function literal. -/
def Machine.made : Machine → Option Closure
  | ⟨.expr scope (.fn params body) _, st⟩ => some (st.store.makeFunction params body scope).1
  | _ => none

/-- A property of values and one of stores that go together. All plain values have the first, and so
has all that is bound in a store that has the second; and a store has it still when such values are
bound in it, in a scope that is there or in a new one. -/
structure Custody (P : Value → Prop) (S : Store → Prop) : Prop where
  plain : ∀ {v : Value}, v.IsPlain → P v
  bound : ∀ {s : Store}, S s → s.AllBound P
  set : ∀ {s : Store} {v : Value} (scope : ScopeId) (name : String), S s → P v →
    S (s.set scope name v)
  openScope : ∀ {s : Store} {bindings : Bindings Value} (parent : Option ScopeId), S s →
    (∀ b ∈ bindings, P b.2) → S (s.openScope bindings parent).2

/-- All values that the machine holds have the one property, and its store has the other. -/
structure Machine.Carries (P : Value → Prop) (S : Store → Prop) (m : Machine) : Prop where
  held : ∀ v ∈ m.control.held, P v
  store : S m.state.store

namespace Machine

variable {P : Value → Prop} {S : Store → Prop} {limit : Nat} {scope : ScopeId} {st : State}
variable {rest : ValueRest} {next : BlockRest} {m m' : Machine}

theorem carries_answer (hrest : ∀ v ∈ rest.held, P v) (hst : S st.store)
    {x : Except Fault Value} (hx : ∀ v, x = .ok v → P v) : (answer rest st x).Carries P S := by
  cases x with
  | ok v => exact ⟨List.forall_mem_cons.2 ⟨hx v rfl, hrest⟩, hst⟩
  | error e => exact ⟨hrest, hst⟩

theorem carries_stepExpr (K : Custody P S) (hrest : ∀ v ∈ rest.held, P v) (hst : S st.store)
    {e : Expr} (hmade : made ⟨.expr scope e rest, st⟩ = none) :
    (stepExpr scope rest st e).Carries P S := by
  cases e with
  | int | str | bool => exact ⟨List.forall_mem_cons.2 ⟨K.plain trivial, hrest⟩, hst⟩
  | fn => cases hmade
  | _ => exact ⟨hrest, hst⟩

theorem carries_stepFind (K : Custody P S) (hrest : ∀ v ∈ rest.held, P v) (hst : S st.store)
    (name : String) : (stepFind scope name rest st).Carries P S := by
  unfold stepFind
  split
  · exact ⟨hrest, hst⟩
  · next sc hsc =>
    split
    · next v hv =>
      have hbound := K.bound hst scope sc hsc (name, v) (Bindings.mem_of_find? hv)
      exact ⟨List.forall_mem_cons.2 ⟨hbound, hrest⟩, hst⟩
    · split
      · exact ⟨hrest, hst⟩
      · split
        · exact ⟨List.forall_mem_cons.2 ⟨K.plain trivial, hrest⟩, hst⟩
        · exact ⟨hrest, hst⟩

theorem carries_stepApply (K : Custody P S) {args : List Value} (hargs : ∀ v ∈ args, P v)
    (hrest : ∀ v ∈ rest.held, P v) (hst : S st.store) (f : Value) :
    (stepApply limit args rest st f).Carries P S := by
  cases f with
  | function f =>
    rw [stepApply]
    split
    · exact ⟨hrest, hst⟩
    · split
      · exact ⟨hrest, K.openScope _ hst (Store.forall_mem_ofPairs_zip f.params hargs)⟩
      · exact ⟨hrest, hst⟩
  | builtin b =>
    exact carries_answer hrest hst fun v hv => K.plain (Builtin.isPlain_of_call hv)
  | _ => exact ⟨hrest, hst⟩

theorem carries_stepValue (K : Custody P S) {v : Value} (hv : P v) (hrest : ∀ v ∈ rest.held, P v)
    (hst : S st.store) : (stepValue v st rest).Carries P S := by
  cases rest with
  | unary op rest =>
    have hrest : ∀ v ∈ rest.held, P v := hrest
    exact carries_answer hrest hst fun v hv => K.plain (Value.isPlain_of_unary hv)
  | right scope op rhs rest => exact ⟨List.forall_mem_cons.2 ⟨hv, hrest⟩, hst⟩
  | binary op lhs rest =>
    exact carries_answer (List.forall_mem_cons.1 hrest).2 hst
      fun v hv => K.plain (Value.isPlain_of_binary hv)
  | cond scope consequence alternative rest =>
    simp only [stepValue]
    split
    · exact ⟨hrest, hst⟩
    · split
      · exact ⟨hrest, hst⟩
      · exact ⟨hrest, hst⟩
  | callee scope args rest => exact ⟨List.forall_mem_cons.2 ⟨hv, hrest⟩, hst⟩
  | argument scope f done args rest =>
    obtain ⟨hf, hheld⟩ := List.forall_mem_cons.1 hrest
    obtain ⟨hdone, hrest⟩ := List.forall_mem_append.1 hheld
    have hdone' : ∀ u ∈ done ++ [v], P u :=
      List.forall_mem_append.2 ⟨hdone, List.forall_mem_singleton.2 hv⟩
    exact ⟨List.forall_mem_cons.2 ⟨hf, List.forall_mem_append.2 ⟨hdone', hrest⟩⟩, hst⟩
  | bind scope name next => exact ⟨hrest, K.set scope name hst hv⟩
  | ret next => exact ⟨List.forall_mem_cons.2 ⟨hv, hrest⟩, hst⟩
  | expr next => exact ⟨List.forall_mem_cons.2 ⟨hv, hrest⟩, hst⟩

theorem carries_stepStmt (hnext : ∀ v ∈ next.held, P v) (hst : S st.store) (s : Stmt) :
    (stepStmt scope next st s).Carries P S := by
  cases s <;> exact ⟨hnext, hst⟩

theorem carries_stepLeaveExpr {x : Exit} (hx : ∀ v ∈ x.held, P v)
    (hrest : ∀ v ∈ rest.held, P v) (hst : S st.store) :
    (stepLeaveExpr x st rest).Carries P S := by
  have hleave {rest : ValueRest} (hrest : ∀ v ∈ rest.held, P v) :
      (Machine.mk (.leaveExpr x rest) st).Carries P S :=
    ⟨List.forall_mem_append.2 ⟨hx, hrest⟩, hst⟩
  cases rest with
  | binary op lhs rest => exact hleave (List.forall_mem_cons.1 hrest).2
  | argument scope f done args rest =>
    exact hleave (List.forall_mem_append.1 (List.forall_mem_cons.1 hrest).2).2
  | unary | right | cond | callee => exact hleave hrest
  | bind | ret | expr => exact ⟨List.forall_mem_append.2 ⟨hx, hrest⟩, hst⟩

theorem custody_getD (K : Custody P S) {v : Option Value} (h : ∀ a ∈ v.toList, P a) :
    P (v.getD .null) := by
  cases v with
  | none => exact K.plain trivial
  | some a => exact List.forall_mem_singleton.1 h

theorem carries_stepDone (K : Custody P S) {v : Option Value} (hv : ∀ a ∈ v.toList, P a)
    (hnext : ∀ v ∈ next.held, P v) (hst : S st.store) (h : stepDone v st next = .next m) :
    m.Carries P S := by
  cases next with
  | next scope statements next =>
    cases h
    exact ⟨List.forall_mem_append.2 ⟨hv, hnext⟩, hst⟩
  | branch rest | call rest =>
    cases h
    exact ⟨List.forall_mem_cons.2 ⟨custody_getD K hv, hnext⟩, hst⟩
  | program => cases h

theorem carries_stepLeaveBlock {x : Exit} (hx : ∀ v ∈ x.held, P v)
    (hnext : ∀ v ∈ next.held, P v) (hst : S st.store) (h : stepLeaveBlock x st next = .next m) :
    m.Carries P S := by
  have hboth : ∀ v ∈ x.held ++ next.held, P v := List.forall_mem_append.2 ⟨hx, hnext⟩
  cases next with
  | next scope statements next =>
    cases h
    exact ⟨hboth, hst⟩
  | branch rest =>
    cases h
    exact ⟨hboth, hst⟩
  | call rest =>
    cases x with
    | returned v | fault e =>
      cases h
      exact ⟨hboth, hst⟩
  | program => cases x <;> cases h

/-- **A step that makes no function only moves values.** -/
theorem Carries.step (h : m.Carries P S) (K : Custody P S) (hmade : m.made = none)
    (hstep : m.step limit = .next m') : m'.Carries P S := by
  obtain ⟨control, st⟩ := m
  obtain ⟨hheld, hst⟩ := h
  cases control with
  | expr scope e rest =>
    cases hstep
    exact carries_stepExpr K hheld hst hmade
  | find scope name rest =>
    cases hstep
    exact carries_stepFind K hheld hst name
  | arguments scope f done args rest =>
    cases args with
    | nil | cons =>
      cases hstep
      exact ⟨hheld, hst⟩
  | apply f args rest =>
    cases hstep
    obtain ⟨hargs, hrest⟩ := List.forall_mem_append.1 (List.forall_mem_cons.1 hheld).2
    exact carries_stepApply K hargs hrest hst f
  | value v rest =>
    cases hstep
    obtain ⟨hv, hrest⟩ := List.forall_mem_cons.1 hheld
    exact carries_stepValue K hv hrest hst
  | stmt scope s next =>
    cases hstep
    exact carries_stepStmt hheld hst s
  | stmts scope last statements next =>
    cases statements with
    | nil =>
      cases hstep
      exact ⟨hheld, hst⟩
    | cons s ss =>
      cases hstep
      exact ⟨(List.forall_mem_append.1 hheld).2, hst⟩
  | done v next =>
    obtain ⟨hv, hnext⟩ := List.forall_mem_append.1 hheld
    exact carries_stepDone K hv hnext hst hstep
  | leaveExpr x rest =>
    cases hstep
    obtain ⟨hx, hrest⟩ := List.forall_mem_append.1 hheld
    exact carries_stepLeaveExpr hx hrest hst
  | leaveBlock x next =>
    obtain ⟨hx, hnext⟩ := List.forall_mem_append.1 hheld
    exact carries_stepLeaveBlock hx hnext hst hstep

/-- The step that makes a function evaluates a literal, holds the function then and counts it. -/
theorem step_of_made {f : Closure} (hmade : m.made = some f)
    (hstep : m.step limit = .next m') :
    ∃ (scope : ScopeId) (params : List String) (body : Block) (rest : ValueRest),
      m.control = .expr scope (.fn params body) rest ∧
      f = (m.state.store.makeFunction params body scope).1 ∧
      m'.control = .value (.function f) rest ∧
      m'.state.store = (m.state.store.makeFunction params body scope).2 := by
  obtain ⟨control, st⟩ := m
  cases control with
  | expr scope e rest =>
    cases e with
    | fn params body =>
      cases hmade
      cases hstep
      exact ⟨scope, params, body, rest, rfl, rfl, rfl, rfl⟩
    | _ => cases hmade
  | _ => cases hmade

end Machine

end Sprig
