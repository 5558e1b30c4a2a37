import Sprig.Proofs.Concatenation
import Sprig.Proofs.Simulation

/-!
# Running a program in pieces

A script that is run as a whole and the same script fed to a session piece by piece come to the
same. Statements one after the other are executed one after the other, and whatever ends the first
ones early, a fault or a `return` outside of any function, ends all. What a run leaves behind for
the next is its store alone: as many calls are open afterwards as before, and nothing depends on how
many were open in between. So it makes no difference whether one evaluator runs both pieces or each
has its own.
-/

namespace Sprig

open Text

/-! ## Evaluators -/

/-- The invariant that every store has. What it says is that evaluation does the same on the same
store and leaves as many calls open as it found. -/
def anything : Invariant where
  World := Unit
  le _ _ := True
  le_refl _ := trivial
  le_trans _ _ := trivial
  store _ _ := True
  value _ _ := True
  scope _ _ := True
  value_mono _ _ := trivial
  scope_mono _ _ := trivial
  value_plain _ := trivial
  find? _ _ _ := trivial
  set _ _ _ _ := ⟨(), trivial, trivial⟩
  makeFunction _ _ _ _ := ⟨(), trivial, trivial, trivial⟩
  openScope _ _ _ := ⟨(), trivial, trivial, trivial⟩

theorem Invariant.eq_of_results {I : Invariant} {w : I.World}
    {r r' : Except Fault (Option Value)} (h : I.toSimulation.Results w r r') : r = r' := by
  have hsame {a b : Value} (hab : I.toSimulation.value w a b) : b = id a := hab.1.symm
  rw [Simulation.eq_map_of_results hsame h]
  exact (Simulation.map_result_eq_self (f := id) (fun _ => rfl) r).symm

namespace Program

variable {limit : Nat} {scope : ScopeId} {p q : Program} {st st' : State}

/-- A run depends on the store and on the number of open calls, and on nothing else. -/
theorem run_congr (limit : Nat) (scope : ScopeId) (p : Program) (hstore : st.store = st'.store)
    (hdepth : st.depth = st'.depth) :
    (p.run limit scope st).1 = (p.run limit scope st').1 ∧
      (p.run limit scope st).2.store = (p.run limit scope st').2.store := by
  obtain ⟨w, -, hs, hresults⟩ := anything.toSimulation.run limit p (i := scope) (w := ())
    (fun _ _ => trivial) ⟨rfl, trivial⟩ ⟨hstore, trivial⟩ hdepth
  exact ⟨Invariant.eq_of_results hresults, hs.1⟩

/-- What a run makes of what its statements come to. -/
def ended : EStateM.Result Exit State (Option Value) → Except Fault (Option Value) × State
  | .ok v st => (.ok v, st)
  | .error (.returned v) st => (.ok (some v), st)
  | .error (.fault e) st => (.error e, st)

theorem run_eq_ended (limit : Nat) (scope : ScopeId) (p : Program) (st : State) :
    p.run limit scope st = ended
      (Stmt.execAll (Closure.invoke limit (limit - st.depth)) scope none p.statements st) :=
  rfl

theorem ended_snd (m : Eval (Option Value)) (st : State) : (ended (m st)).2 = m.stateAfter st := by
  unfold Eval.stateAfter
  cases m st with
  | ok v st' => rfl
  | error x st' => cases x <;> rfl

/-- As many calls are open after a run as before, however it ends. -/
theorem depth_run (limit : Nat) (scope : ScopeId) (p : Program) (st : State) :
    (p.run limit scope st).2.depth = st.depth := by
  have hkeeps := anything.keeps_stmts (w := ()) (i := scope) limit (limit - st.depth)
    p.statements trivial
  obtain ⟨_, -, -, hdepth⟩ : ∃ w, _ ∧ _ ∧ _ = st.depth := hkeeps.stateAfter trivial
  rw [run_eq_ended, ended_snd]
  exact hdepth

/-! ## Statements one after the other -/

theorem execAll_append (call : Closure → List Value → Eval Value) (scope : ScopeId)
    (last : Option Value) (ss ss' : List Stmt) :
    Stmt.execAll call scope last (ss ++ ss') =
      Stmt.execAll call scope last ss >>= fun v => Stmt.execAll call scope v ss' := by
  induction ss generalizing last with
  | nil => rfl
  | cons s ss ih =>
    show (s.exec call scope >>= fun v => Stmt.execAll call scope v (ss ++ ss')) = _
    rw [funext ih]
    exact (bind_assoc _ _ _).symm

/-- The program does not come to the end of its statements: a fault stops it, or a `return` outside
of any function. -/
def LeavesEarly (limit : Nat) (scope : ScopeId) (p : Program) (st : State) : Prop :=
  ∃ x st', Stmt.execAll (Closure.invoke limit (limit - st.depth)) scope none p.statements st =
    .error x st'

/-- What ends the first statements early ends all. -/
theorem run_append_of_leavesEarly (h : p.LeavesEarly limit scope st) (ss : Block) :
    Program.run limit scope ⟨p.statements ++ ss⟩ st = p.run limit scope st := by
  obtain ⟨x, st', hx⟩ := h
  rw [run_eq_ended, run_eq_ended, execAll_append, Eval.bind_of_error hx, hx]

/-- If nothing ends the first statements early, then the others are executed after them. -/
theorem run_append_of_not_leavesEarly (h : ¬ p.LeavesEarly limit scope st) (ss : Block) :
    Program.run limit scope ⟨p.statements ++ ss⟩ st =
      if ss.isEmpty then p.run limit scope st
      else Program.run limit scope ⟨ss⟩ (p.run limit scope st).2 := by
  have hdepth := depth_run limit scope p st
  rw [run_eq_ended] at hdepth
  rw [run_eq_ended limit scope ⟨ss⟩, run_eq_ended, run_eq_ended, execAll_append, hdepth]
  cases hr : Stmt.execAll (Closure.invoke limit (limit - st.depth)) scope none p.statements st with
  | error x st' => exact absurd ⟨x, st', hr⟩ h
  | ok v st' =>
    rw [Eval.bind_of_ok hr]
    -- The value so far is given if no statement follows, and otherwise forgotten.
    cases ss with
    | nil => rfl
    | cons s ss => rfl

end Program

/-! ## Texts one after the other -/

/-- **Running a program in pieces is running it whole.** Let the first text be terminated and let
both be without errors. If a fault or a `return` outside of any function ends the first, then the
whole does the same. Otherwise the whole gives what the second gives in the store that the first has
left, or what the first gave if the second has no statements, and it leaves the same store. The
second may be run by the evaluator of the first, which has as many calls open as before, or by any
other with as many. -/
theorem run_in_pieces (a b : String) (ha : Terminated a) (hb : (Parsed.ofSource b).errors = [])
    (hsize : byteLength a.toList + byteLength b.toList < UInt32.size) (limit : Nat)
    (scope : ScopeId) (st : State) :
    let first := (Parsed.ofSource a).program
    let second := (Parsed.ofSource b).program
    let whole := (Parsed.ofSource (a ++ b)).program
    (Parsed.ofSource (a ++ b)).errors = [] ∧
      (first.run limit scope st).2.depth = st.depth ∧
      (first.LeavesEarly limit scope st →
        whole.run limit scope st = first.run limit scope st) ∧
      (¬ first.LeavesEarly limit scope st → ∀ st' : State,
        st'.store = (first.run limit scope st).2.store → st'.depth = st.depth →
        (whole.run limit scope st).1 = (if second.statements.isEmpty then
            (first.run limit scope st).1 else (second.run limit scope st').1) ∧
          (whole.run limit scope st).2.store = (second.run limit scope st').2.store) := by
  obtain ⟨hprogram, herrors⟩ := ha.read_append b
  obtain ⟨hvalue, hmoved⟩ := statements_moved hsize false
  rw [hvalue] at hprogram
  intro first second whole
  have hwhole : whole = ⟨first.statements ++ second.statements⟩ := congrArg Program.mk hprogram
  have hdepth := first.depth_run limit scope st
  refine ⟨?_, hdepth, fun hleaves => ?_, fun hends st' hstore hdepth' => ?_⟩
  · rw [← herrors] at hmoved
    have hmoved : SameErrors _ (Parsed.ofSource b).errors _ := hmoved
    rw [hb] at hmoved
    exact List.forall₂_nil_left_iff.1 hmoved
  · rw [hwhole, Program.run_append_of_leavesEarly hleaves]
  · obtain ⟨hresult, hleft⟩ := second.run_congr limit scope hstore (hdepth'.trans hdepth.symm)
    rw [hwhole, Program.run_append_of_not_leavesEarly hends, hresult, hleft]
    by_cases hempty : second.statements.isEmpty
    · have hnothing : second = ⟨[]⟩ := congrArg Program.mk (List.isEmpty_iff.1 hempty)
      rw [if_pos hempty, if_pos hempty, hnothing]
      exact ⟨rfl, rfl⟩
    · rw [if_neg hempty, if_neg hempty]
      exact ⟨rfl, rfl⟩

/-- A binding and a use of it, each with an evaluator of its own. -/
theorem run_in_pieces_binding :
    Terminated "let x = 1;" ∧ (Parsed.ofSource "x").errors = [] ∧
      ((Parsed.ofSource ("let x = 1;" ++ "x")).program.run 3 0
          (.ofStore (Store.empty.openScope [] none).2)).1 =
        ((Parsed.ofSource "x").program.run 3 0 (.ofStore ((Parsed.ofSource "let x = 1;").program.run
          3 0 (.ofStore (Store.empty.openScope [] none).2)).2.store)).1 := by
  have ha : Terminated "let x = 1;" := by decide +kernel
  have hb : (Parsed.ofSource "x").errors = [] := by decide +kernel
  have hfirst : (Parsed.ofSource "let x = 1;").program = ⟨[.bind "x" (.int 1)]⟩ := by
    decide +kernel
  have hsome : (Parsed.ofSource "x").program.statements.isEmpty = false := by decide +kernel
  obtain ⟨-, -, -, hends⟩ := run_in_pieces "let x = 1;" "x" ha hb (by decide) 3 0
    (.ofStore (Store.empty.openScope [] none).2)
  have hstays : ¬ (Parsed.ofSource "let x = 1;").program.LeavesEarly 3 0
      (.ofStore (Store.empty.openScope [] none).2) := by
    rintro ⟨x, st', hx⟩
    rw [hfirst] at hx
    cases hx
  obtain ⟨hresult, -⟩ := hends hstays (.ofStore _) rfl rfl
  rw [hsome] at hresult
  exact ⟨ha, hb, hresult⟩

end Sprig
