import Sprig.Proofs.ErrorValues
import Sprig.Proofs.Pieces

/-!
# The count of open calls

An evaluator counts the calls that are open, in a place of its own that no result passes through. On
the way of the machine the count is at any time what it was at the start and one more for each call
that is waiting for its body to end (`Machine.Counts`), and a call is only opened where the count is
below the limit. When an expression, a statement, a call or a program has come to its end, none of
the calls that it made is open any more, whatever ended it. So nothing of a run is left in the
evaluator: it can be used for the next program as if it were new.
-/

namespace Sprig

/-! ## On the way -/

mutual

/-- The calls that wait for an expression. -/
def ValueRest.openCalls : ValueRest → Nat
  | .unary _ rest | .right _ _ _ rest | .binary _ _ rest | .cond _ _ _ rest | .callee _ _ rest
  | .argument _ _ _ _ rest => rest.openCalls
  | .bind _ _ rest | .ret rest | .expr rest => rest.openCalls

/-- The calls that wait for statements. -/
def BlockRest.openCalls : BlockRest → Nat
  | .next _ _ rest => rest.openCalls
  | .branch rest => rest.openCalls
  | .call rest => rest.openCalls + 1
  | .program => 0

end

/-- The calls that wait for what the machine is about to do. -/
def Control.openCalls : Control → Nat
  | .expr _ _ rest | .find _ _ rest | .arguments _ _ _ _ rest | .apply _ _ rest | .value _ rest
  | .leaveExpr _ rest => rest.openCalls
  | .stmt _ _ rest | .stmts _ _ _ rest | .done _ rest | .leaveBlock _ rest => rest.openCalls

namespace Machine

variable {limit base : Nat} {scope : ScopeId} {st : State} {rest : ValueRest} {next : BlockRest}

/-- The machine has counted the calls that are open, from `base` on, and they are within the
limit. -/
structure Counts (limit base : Nat) (m : Machine) : Prop where
  depth_eq : m.state.depth = base + m.control.openCalls
  depth_le : m.state.depth ≤ limit

theorem counts_answer (hdepth : st.depth = base + rest.openCalls) (hle : st.depth ≤ limit)
    (x : Except Fault Value) : (answer rest st x).Counts limit base := by
  cases x <;> exact ⟨hdepth, hle⟩

theorem counts_stepFind (hdepth : st.depth = base + rest.openCalls) (hle : st.depth ≤ limit)
    (name : String) : (stepFind scope name rest st).Counts limit base := by
  unfold stepFind
  split
  · exact ⟨hdepth, hle⟩
  · split
    · exact ⟨hdepth, hle⟩
    · split
      · exact ⟨hdepth, hle⟩
      · split <;> exact ⟨hdepth, hle⟩

/-- Only here a call is opened, and only below the limit. -/
theorem counts_stepApply (hdepth : st.depth = base + rest.openCalls) (hle : st.depth ≤ limit)
    (f : Value) (args : List Value) : (stepApply limit args rest st f).Counts limit base := by
  cases f with
  | function f =>
    rw [stepApply]
    split
    · exact ⟨hdepth, hle⟩
    · next hroom =>
      split
      · exact ⟨congrArg (· + 1) hdepth, Nat.lt_of_not_le hroom⟩
      · exact ⟨hdepth, hle⟩
  | builtin b => exact counts_answer hdepth hle _
  | _ => exact ⟨hdepth, hle⟩

theorem counts_stepValue (hdepth : st.depth = base + rest.openCalls) (hle : st.depth ≤ limit)
    (v : Value) : (stepValue v st rest).Counts limit base := by
  cases rest with
  | unary op rest =>
    have hrest : st.depth = base + rest.openCalls := hdepth
    exact counts_answer hrest hle _
  | binary op lhs rest =>
    have hrest : st.depth = base + rest.openCalls := hdepth
    exact counts_answer hrest hle _
  | cond scope consequence alternative rest =>
    simp only [stepValue]
    split
    · exact ⟨hdepth, hle⟩
    · split <;> exact ⟨hdepth, hle⟩
  | _ => exact ⟨hdepth, hle⟩

/-- The end of a body closes its call. -/
theorem counts_leave (hdepth : st.depth = base + (rest.openCalls + 1)) (hle : st.depth ≤ limit) :
    st.leave.depth = base + rest.openCalls ∧ st.leave.depth ≤ limit := by
  have hleave : st.leave.depth = base + rest.openCalls := State.depth_leave hdepth
  omega

theorem counts_stepDone {v : Option Value} {m : Machine}
    (hdepth : st.depth = base + next.openCalls) (hle : st.depth ≤ limit)
    (h : stepDone v st next = .next m) : m.Counts limit base := by
  cases next with
  | next scope statements next =>
    cases h
    exact ⟨hdepth, hle⟩
  | branch rest =>
    cases h
    exact ⟨hdepth, hle⟩
  | call rest =>
    cases h
    obtain ⟨hdepth, hle⟩ := counts_leave hdepth hle
    exact ⟨hdepth, hle⟩
  | program => cases h

theorem counts_stepLeaveBlock {x : Exit} {m : Machine}
    (hdepth : st.depth = base + next.openCalls) (hle : st.depth ≤ limit)
    (h : stepLeaveBlock x st next = .next m) : m.Counts limit base := by
  cases next with
  | next scope statements next =>
    cases h
    exact ⟨hdepth, hle⟩
  | branch rest =>
    cases h
    exact ⟨hdepth, hle⟩
  | call rest =>
    obtain ⟨hdepth, hle⟩ := counts_leave hdepth hle
    cases x with
    | returned v | fault e =>
      cases h
      exact ⟨hdepth, hle⟩
  | program => cases x <;> cases h

/-- One step keeps count. -/
theorem Counts.step {m m' : Machine} (h : m.Counts limit base) (hstep : m.step limit = .next m') :
    m'.Counts limit base := by
  obtain ⟨control, st⟩ := m
  obtain ⟨hdepth, hle⟩ := h
  cases control with
  | expr scope e rest =>
    cases hstep
    cases e <;> exact ⟨hdepth, hle⟩
  | find scope name rest =>
    cases hstep
    exact counts_stepFind hdepth hle name
  | arguments scope f done args rest =>
    cases args <;> cases hstep <;> exact ⟨hdepth, hle⟩
  | apply f args rest =>
    cases hstep
    exact counts_stepApply hdepth hle f args
  | value v rest =>
    cases hstep
    exact counts_stepValue hdepth hle v
  | stmt scope s next =>
    cases hstep
    cases s <;> exact ⟨hdepth, hle⟩
  | stmts scope last statements next =>
    cases statements <;> cases hstep <;> exact ⟨hdepth, hle⟩
  | done v next => exact counts_stepDone hdepth hle hstep
  | leaveExpr x rest =>
    cases hstep
    cases rest <;> exact ⟨hdepth, hle⟩
  | leaveBlock x next => exact counts_stepLeaveBlock hdepth hle hstep

/-- **The machine keeps count all the way.** -/
theorem Counts.of_leads {m m' : Machine} (h : m.Counts limit base) (hlead : Leads limit m m') :
    m'.Counts limit base := by
  induction hlead with
  | refl => exact h
  | tail _ hstep ih => exact ih.step hstep

end Machine

/-! ## Evaluators that are used again -/

namespace Program

/-- One evaluator runs programs one after the other, each in a scope of the same store. What is
noted of each are its result and the store after it. -/
def runAll (limit : Nat) : List (ScopeId × Program) → State →
    List (Except Fault (Option Value) × Store)
  | [], _ => []
  | (scope, p) :: more, st =>
    let run := p.run limit scope st
    (run.1, run.2.store) :: runAll limit more run.2

/-- The same, but with a new evaluator for each of the programs. -/
def runEach (limit : Nat) : List (ScopeId × Program) → Store →
    List (Except Fault (Option Value) × Store)
  | [], _ => []
  | (scope, p) :: more, store =>
    let run := p.run limit scope (.ofStore store)
    (run.1, run.2.store) :: runEach limit more run.2.store

/-- An evaluator that has no call open runs a program as a new one does. -/
theorem run_ofStore (limit : Nat) (scope : ScopeId) (p : Program) {st : State}
    (hdepth : st.depth = 0) :
    (p.run limit scope st).1 = (p.run limit scope (.ofStore st.store)).1 ∧
      (p.run limit scope st).2.store = (p.run limit scope (.ofStore st.store)).2.store :=
  p.run_congr limit scope rfl hdepth

theorem runAll_eq_runEach (limit : Nat) (programs : List (ScopeId × Program)) {st : State}
    (hdepth : st.depth = 0) : runAll limit programs st = runEach limit programs st.store := by
  induction programs generalizing st with
  | nil => rfl
  | cons first more ih =>
    obtain ⟨scope, p⟩ := first
    obtain ⟨hresult, hstore⟩ := p.run_ofStore limit scope hdepth
    have hafter := (p.depth_run limit scope st).trans hdepth
    rw [runAll, runEach, ih hafter, hresult, hstore]

end Program

/-- As many calls are open after a step of evaluation as before. -/
theorem Invariant.Keeps.depth_eq {α : Type} {P : Unit → α → Prop} {m : Eval α}
    (h : anything.Keeps () P m) (st : State) : (m.stateAfter st).depth = st.depth := by
  have hst : anything.store () st.store := trivial
  obtain ⟨_, -, -, hdepth⟩ := h.stateAfter hst
  exact hdepth

/-- **The count of open calls is restored, and so an evaluator can be used again.** Let the count be
within the limit. At every step on the way of a program it is what it was before and one more for
each call that is open, and is within the limit; the way is that of the machine, which in a sound
store ends as the run does. After an expression, a statement, a call or a program, whether it ended
normally, by a `return` or by a fault, the count is what it was before. Hence programs that are run
one after the other by one evaluator, in any scopes of one store, have the same results and leave
the same bindings as if each were run by a new evaluator. -/
theorem call_depth_restored (limit : Nat) (st : State) (hst : st.depth ≤ limit)
    (scope : ScopeId) :
    let call := Closure.invoke limit (limit - st.depth)
    (∀ p : Program,
      (∀ m, Leads limit (.start scope p st) m →
        m.state.depth = st.depth + m.control.openCalls ∧ m.state.depth ≤ limit) ∧
      (st.store.Sound → scope < st.store.scopes.size → ∃ m, Leads limit (.start scope p st) m ∧
        m.step limit = .stop (p.run limit scope st).1 (p.run limit scope st).2)) ∧
    (∀ e : Expr, ((e.eval call scope).stateAfter st).depth = st.depth) ∧
    (∀ s : Stmt, ((s.exec call scope).stateAfter st).depth = st.depth) ∧
    (∀ (f : Value) (args : List Value), ((f.apply call args).stateAfter st).depth = st.depth) ∧
    (∀ p : Program, (p.run limit scope st).2.depth = st.depth) ∧
    ∀ (programs : List (ScopeId × Program)) (store : Store),
      Program.runAll limit programs (.ofStore store) = Program.runEach limit programs store := by
  intro call
  refine ⟨fun p => ⟨fun m hm => ?_, fun hs hscope => leads_run hs limit p hscope⟩,
    fun e => ?_, fun s => ?_, fun f args => ?_, fun p => p.depth_run limit scope st,
    fun programs store => Program.runAll_eq_runEach limit programs rfl⟩
  · have hstart : (Machine.start scope p st).Counts limit st.depth := ⟨rfl, hst⟩
    obtain ⟨hdepth, hle⟩ := hstart.of_leads hm
    exact ⟨hdepth, hle⟩
  · exact (anything.keeps_expr limit _ e trivial).depth_eq st
  · exact (anything.keeps_stmt limit _ s trivial).depth_eq st
  · exact (anything.keeps_apply limit _ trivial fun _ _ => trivial).depth_eq st

/-- Three calls are open when the limit stops the program, and none is afterwards. -/
theorem call_depth_restored_callLoop :
    let st := (Program.defineLoop.run 3 0 (.ofStore (Store.empty.openScope [] none).2)).2
    st.depth ≤ 3 ∧ (Program.callLoop.run 3 0 st).1 = .error (.tooDeep 3) ∧
      (Program.callLoop.run 3 0 st).2.depth = 0 ∧
      ∃ m, Leads 3 (.start 0 .callLoop st) m ∧ m.state.depth ≤ 3 ∧
        m.step 3 = .stop (.error (.tooDeep 3)) (Program.callLoop.run 3 0 st).2 := by
  intro st
  have hdepth : st.depth = 0 := Program.depth_run ..
  have hst : st.depth ≤ 3 := hdepth ▸ Nat.zero_le 3
  have hscopes : Reachable (State.ofStore (Store.empty.openScope [] none).2).store [] :=
    Reachable.start.openOuter
  have hsound : st.store.Sound := (hscopes.run 3 .defineLoop Nat.zero_lt_one).sound.1
  have hsize : st.store.scopes.size = 1 := by decide +kernel
  have hrun : (Program.callLoop.run 3 0 st).1 = .error (.tooDeep 3) := by decide +kernel
  obtain ⟨hway, -, -, -, hafter, -⟩ := call_depth_restored 3 st hst 0
  obtain ⟨hcounts, hends⟩ := hway .callLoop
  obtain ⟨m, hm, hstop⟩ := hends hsound (hsize ▸ Nat.zero_lt_one)
  rw [hrun] at hstop
  exact ⟨hst, hrun, (hafter .callLoop).trans hdepth, m, hm, (hcounts m hm).2, hstop⟩

end Sprig
