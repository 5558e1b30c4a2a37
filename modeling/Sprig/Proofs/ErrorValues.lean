import Sprig.Command
import Sprig.Proofs.Carried

/-!
# Errors stay out of the hands of programs

A fault can be kept as a value, and the built-in functions report theirs in this way. No program
gets hold of one: where no name is bound to an error, evaluation neither gives one nor binds one,
and the machine that evaluates step by step holds none on the way, be it as an operand, as an
argument or on its way to the call that it is returned from. So an error value, as the result of a
run, always stands for a fault that stopped it, and the exit code of a command tells the two apart.
-/

namespace Sprig

/-- The value is no error. -/
def Value.Proper (v : Value) : Prop :=
  v.isError = false

theorem Value.IsPlain.proper {v : Value} (h : v.IsPlain) : v.Proper := by
  cases v with
  | error e => exact h.elim
  | _ => rfl

theorem Value.Proper.ne_error {v : Value} (h : v.Proper) (e : Fault) : v ≠ .error e := by
  rintro rfl
  cases h

/-- No name is bound to an error. -/
def Store.ErrorFree (s : Store) : Prop :=
  s.AllBound Value.Proper

/-- Evaluation neither gives an error nor binds one. -/
def errorFreedom : Invariant where
  World := Unit
  le _ _ := True
  le_refl _ := trivial
  le_trans _ _ := trivial
  store _ s := s.ErrorFree
  value _ v := v.Proper
  scope _ _ := True
  value_mono _ h := h
  scope_mono _ h := h
  value_plain h := h.proper
  find? hs _ hfind := hs.of_find? hfind
  set name hs _ hv := ⟨(), trivial, hs.set _ name hv⟩
  makeFunction _ _ hs _ := ⟨(), trivial, hs, rfl⟩
  openScope {_ _ f _} hs _ hargs :=
    ⟨(), trivial, hs.openScope _ (Store.forall_mem_ofPairs_zip f.params hargs), trivial⟩

/-- **A run neither gives an error nor binds one.** -/
theorem Program.run_errorFree (limit : Nat) (scope : ScopeId) (p : Program) {st : State}
    (h : st.store.ErrorFree) : (p.run limit scope st).2.store.ErrorFree ∧
      ∀ v, (p.run limit scope st).1 = .ok (some v) → v.Proper := by
  obtain ⟨_, -, hstore, hresult⟩ :=
    Invariant.run (I := errorFreedom) (w := ()) (i := scope) limit p trivial h
  exact ⟨hstore, fun v hv => hresult (some v) hv v rfl⟩

/-! ## On the way -/

/-- No value that the machine holds is an error, and none is bound. -/
structure Machine.ErrorFree (m : Machine) : Prop where
  held : ∀ v ∈ m.control.held, v.Proper
  bound : m.state.store.ErrorFree

theorem errorFreedom_custody : Custody Value.Proper Store.ErrorFree where
  plain h := h.proper
  bound h := h
  set scope name hs hv := hs.set scope name hv
  openScope parent hs hbindings := hs.openScope parent hbindings

namespace Machine

variable {limit : Nat}

/-- One step neither makes an error value nor binds one. -/
theorem ErrorFree.step {m m' : Machine} (h : m.ErrorFree) (hstep : m.step limit = .next m') :
    m'.ErrorFree := by
  cases hmade : m.made with
  | none =>
    obtain ⟨hheld, hbound⟩ := Carries.step ⟨h.held, h.bound⟩ errorFreedom_custody hmade hstep
    exact ⟨hheld, hbound⟩
  | some f =>
    obtain ⟨scope, params, body, rest, hcontrol, -, hcontrol', hstore⟩ := step_of_made hmade hstep
    have hheld := h.held
    rw [hcontrol] at hheld
    refine ⟨?_, hstore ▸ h.bound⟩
    rw [hcontrol']
    exact List.forall_mem_cons.2 ⟨rfl, hheld⟩

/-- **The machine never gets hold of an error value.** -/
theorem ErrorFree.of_leads {m m' : Machine} (h : m.ErrorFree) (hlead : Leads limit m m') :
    m'.ErrorFree := by
  induction hlead with
  | refl => exact h
  | tail _ hstep ih => exact ih.step hstep

end Machine

/-! ## Runs one after the other -/

/-- The second store comes about from the first by running programs, each in any scope, with any
limit and however it ends. -/
inductive AfterRuns (s : Store) : Store → Prop where
  | start : AfterRuns s s
  | run {st : State} (h : AfterRuns s st.store) (limit : Nat) (scope : ScopeId) (p : Program) :
      AfterRuns s (p.run limit scope st).2.store

theorem AfterRuns.errorFree {s t : Store} (h : AfterRuns s t) (hs : s.ErrorFree) :
    t.ErrorFree := by
  induction h with
  | start => exact hs
  | run _ limit scope p ih => exact (p.run_errorFree limit scope ih).1

/-- An error value, as the result of a run, stands for a fault. -/
theorem Program.evaluate_eq_error_iff (limit : Nat) (scope : ScopeId) (p : Program) {st : State}
    (h : st.store.ErrorFree) (e : Fault) :
    (p.evaluate limit scope st).1 = some (.error e) ↔ (p.run limit scope st).1 = .error e := by
  have hproper := (p.run_errorFree limit scope h).2
  unfold Program.evaluate
  generalize p.run limit scope st = r at hproper
  obtain ⟨result, st'⟩ := r
  cases result with
  | ok v =>
    constructor
    · rintro rfl
      exact absurd rfl ((hproper _ rfl).ne_error e)
    · intro hv
      cases hv
  | error e' =>
    constructor
    · intro he
      cases he
      rfl
    · intro he
      cases he
      rfl

/-! ## Exit codes -/

theorem errorFree_start (limit : Nat) : (Session.start limit).state.store.ErrorFree := by
  refine Store.AllBound.openScope ?_ none (List.forall_mem_nil _)
  intro i sc hsc
  simp [Store.empty] at hsc

/-- The exit code tells how a source text fared. -/
theorem Command.exitCode_run (style : Style) (path source : String) :
    (Command.run.perform style path source).exitCode =
      if (Parsed.ofSource source).errors = [] then
        if ((Parsed.ofSource source).program.run defaultLimit (Session.start defaultLimit).scope
          (Session.start defaultLimit).state).1.isOk then 0 else faultCode
      else syntaxErrorCode := by
  have hproper := ((Parsed.ofSource source).program.run_errorFree defaultLimit
    (Session.start defaultLimit).scope (errorFree_start defaultLimit)).2
  have hlimit : (Session.start defaultLimit).limit = defaultLimit := rfl
  show (runText style path source).exitCode = _
  unfold runText withProgram
  simp only [List.isEmpty_iff, hlimit]
  split
  · unfold Program.evaluate
    generalize Program.run defaultLimit _ _ _ = r at hproper
    obtain ⟨result, st⟩ := r
    cases result with
    | ok v =>
      cases v with
      | none => rfl
      | some v =>
        have hv : v.isError = false := hproper v rfl
        simp only [hv]
        rfl
    | error e => rfl
  · rfl

/-! ## No error values -/

/-- **No program gets hold of an error value.** Let no name be bound to an error, and let any
programs have been run since. Whatever program is run next, and however it ends: still no name is
bound to an error, the run does not give one, and no operand, argument, parameter or returned value
on the way is one; the way is that of the machine, which in a sound store ends as the run does. So
an error value stands for a fault, and the exit codes 65, 70 and 0 of running a source text stand for
syntax errors, for a fault and for neither. -/
theorem error_values_never_arise {s : Store} (hs : s.ErrorFree) {st : State}
    (h : AfterRuns s st.store) (limit : Nat) (scope : ScopeId) (p : Program) :
    (p.run limit scope st).2.store.ErrorFree ∧
      (∀ e, (p.run limit scope st).1 ≠ .ok (some (.error e))) ∧
      (∀ m, Leads limit (.start scope p st) m → m.ErrorFree) ∧
      (st.store.Sound → scope < st.store.scopes.size →
        ∃ m, Leads limit (.start scope p st) m ∧
          m.step limit = .stop (p.run limit scope st).1 (p.run limit scope st).2) ∧
      (∀ e, (p.evaluate limit scope st).1 = some (.error e) ↔
        (p.run limit scope st).1 = .error e) ∧
      ∀ (style : Style) (path source : String),
        let code := (Command.run.perform style path source).exitCode
        let parsed := Parsed.ofSource source
        let session := Session.start defaultLimit
        let result := (parsed.program.run defaultLimit session.scope session.state).1
        (code = 65 ↔ parsed.errors ≠ []) ∧
          (code = 70 ↔ parsed.errors = [] ∧ ∃ e, result = .error e) ∧
          (code = 0 ↔ parsed.errors = [] ∧ ∃ v, result = .ok v) := by
  have hst := h.errorFree hs
  obtain ⟨hstore, hresult⟩ := p.run_errorFree limit scope hst
  refine ⟨hstore, fun e he => (hresult _ he).ne_error e rfl, fun m hm => ?_,
    fun hsound hscope => leads_run hsound limit p hscope,
    p.evaluate_eq_error_iff limit scope hst, fun style path source => ?_⟩
  · have hstart : (Machine.start scope p st).ErrorFree := ⟨List.forall_mem_nil _, hst⟩
    exact hstart.of_leads hm
  · intro code parsed session result
    have hcode : code = if parsed.errors = [] then if result.isOk then 0 else 70 else 65 :=
      Command.exitCode_run style path source
    rw [hcode]
    by_cases herrors : parsed.errors = []
    · rw [if_pos herrors]
      cases result with
      | ok v => simp [herrors, Except.isOk, Except.toBool]
      | error e => simp [herrors, Except.isOk, Except.toBool]
    · rw [if_neg herrors]
      simp [herrors]

/-- Binds a name to the answer of the built-in function to an integer, which is an error. -/
def Program.bindLen : Program :=
  ⟨[.bind "n" (.call (.ident "len") [.int 1])]⟩

/-- The error is not bound, also where something went wrong before, and does not go unnoticed. -/
theorem error_values_never_arise_bindLen :
    (Session.start 3).state.store.ErrorFree ∧
      (Program.bindLen.run 3 0 (Program.bindLen.run 3 0 (Session.start 3).state).2).2.store.ErrorFree ∧
      (Program.bindLen.evaluate 3 0 (Program.bindLen.run 3 0 (Session.start 3).state).2).1 =
        some (.error (.unsupportedArgument .len .integer)) := by
  obtain ⟨hstore, -, -, -, hevaluate, -⟩ := error_values_never_arise (errorFree_start 3)
    (.run .start 3 0 Program.bindLen) 3 0 Program.bindLen
  refine ⟨errorFree_start 3, hstore, (hevaluate _).2 ?_⟩
  decide +kernel

end Sprig
