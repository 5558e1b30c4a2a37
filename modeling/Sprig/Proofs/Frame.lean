import Sprig.Proofs.Simulation

/-!
# What evaluation leaves alone

Evaluating in a scope binds names in that scope and in scopes that are opened meanwhile, and in no
other one. A call binds names only in scopes that are opened meanwhile, since its body runs in a
scope of its own. And no scope ever loses a name or its parent. All of this is one invariant that
looks back at the store in which the evaluation started (`frame`): a scope in use is a new one or
one that may be written to.
-/

namespace Sprig

/-- The second store comes after the first, and of the scopes of the first one at most those of
`own` have other bindings now. -/
structure Store.Extends (own : ScopeId → Prop) (s t : Store) : Prop where
  functions_le : s.functions ≤ t.functions
  /-- What is not to be written to is as it was. -/
  unchanged : ∀ (i : ScopeId) (sc : Scope), s.scopes[i]? = some sc → ¬ own i →
    t.scopes[i]? = some sc
  /-- Every scope is still there, with the same parent and all its names. -/
  kept : ∀ (i : ScopeId) (sc : Scope), s.scopes[i]? = some sc →
    ∃ sc' : Scope, t.scopes[i]? = some sc' ∧ sc'.parent = sc.parent ∧
      ∀ name ∈ sc.bindings.names, name ∈ sc'.bindings.names

/-- A store that has all scopes of another has at least as many. -/
theorem Store.size_le_of_forall {s t : Store} (h : ∀ (i : ScopeId) (sc : Scope),
    s.scopes[i]? = some sc → ∃ sc' : Scope, t.scopes[i]? = some sc') :
    s.scopes.size ≤ t.scopes.size := by
  rcases Nat.lt_or_ge t.scopes.size s.scopes.size with hlt | hle
  · obtain ⟨sc', hsc'⟩ := h t.scopes.size _ (Array.getElem?_eq_getElem hlt)
    rw [Array.getElem?_eq_none (Nat.le_refl _)] at hsc'
    cases hsc'
  · exact hle

namespace Store.Extends

variable {own : ScopeId → Prop} {s t : Store}

theorem refl (own : ScopeId → Prop) (s : Store) : s.Extends own s where
  functions_le := Nat.le_refl _
  unchanged _ _ h _ := h
  kept _ sc h := ⟨sc, h, rfl, fun _ hname => hname⟩

theorem size_le (h : s.Extends own t) : s.scopes.size ≤ t.scopes.size :=
  Store.size_le_of_forall fun i sc hsc => (h.kept i sc hsc).imp fun _ hsc' => hsc'.1

/-- Binding a name where that is allowed, or in a scope that is new. -/
theorem set (h : s.Extends own t) {scope : ScopeId} (hscope : own scope ∨ s.scopes.size ≤ scope)
    (name : String) (value : Value) : s.Extends own (t.set scope name value) where
  functions_le := h.functions_le
  unchanged i sc hsc hown := by
    have hne : scope ≠ i := by
      rintro rfl
      have hlt := (Array.getElem?_eq_some_iff.1 hsc).1
      exact hscope.elim hown (Nat.not_le_of_lt hlt)
    rw [getElem?_set, if_neg hne]
    exact h.unchanged i sc hsc hown
  kept i sc hsc := by
    obtain ⟨sc', hsc', hparent, hnames⟩ := h.kept i sc hsc
    rw [getElem?_set, hsc']
    by_cases hi : scope = i
    · rw [if_pos hi]
      exact ⟨_, rfl, hparent, fun n hn => Bindings.mem_names_insert.2 (.inr (hnames n hn))⟩
    · rw [if_neg hi]
      exact ⟨sc', rfl, hparent, hnames⟩

theorem openScope (h : s.Extends own t) (bindings : Bindings Value) (parent : Option ScopeId) :
    s.Extends own (t.openScope bindings parent).2 := by
  have hold : ∀ {i : ScopeId} {sc : Scope}, s.scopes[i]? = some sc →
      (t.openScope bindings parent).2.scopes[i]? = t.scopes[i]? := by
    intro i sc hsc
    have hlt := (Array.getElem?_eq_some_iff.1 hsc).1
    rw [getElem?_openScope, if_neg (Nat.ne_of_lt (Nat.lt_of_lt_of_le hlt h.size_le))]
  exact
    { functions_le := h.functions_le
      unchanged := fun i sc hsc hown => (hold hsc).trans (h.unchanged i sc hsc hown)
      kept := fun i sc hsc => by
        rw [hold hsc]
        exact h.kept i sc hsc }

end Store.Extends

/-- What has happened since the store `s`, if among its scopes only those of `own` may be written
to. -/
def frame (s : Store) (own : ScopeId → Prop) : Invariant where
  World := Unit
  le _ _ := True
  le_refl _ := trivial
  le_trans _ _ := trivial
  store _ t := s.Extends own t
  value _ _ := True
  scope _ i := own i ∨ s.scopes.size ≤ i
  value_mono _ h := h
  scope_mono _ h := h
  value_plain _ := trivial
  find? _ _ _ := trivial
  set name h hscope _ := ⟨(), trivial, h.set hscope name _⟩
  makeFunction _ _ h _ :=
    ⟨(), trivial, ⟨Nat.le_succ_of_le h.functions_le, h.unchanged, h.kept⟩, trivial⟩
  openScope h _ _ := ⟨(), trivial, h.openScope _ _, .inr h.size_le⟩

/-- A call changes no scope that was there before, and leaves as many calls open as it found. -/
theorem frame_apply {s : Store} {st : State} (h : s.Extends (fun _ => False) st.store)
    (limit budget : Nat) (f : Value) (args : List Value) :
    s.Extends (fun _ => False)
        ((f.apply (Closure.invoke limit budget) args).stateAfter st).store ∧
      ((f.apply (Closure.invoke limit budget) args).stateAfter st).depth = st.depth := by
  have hkeeps : (frame s fun _ => False).Keeps () (frame s fun _ => False).value
      (f.apply (Closure.invoke limit budget) args) :=
    Invariant.keeps_apply limit budget trivial fun _ _ => trivial
  obtain ⟨_, -, h', hdepth⟩ := hkeeps.stateAfter h
  exact ⟨h', hdepth⟩

/-- **Evaluation changes bindings only in its own scope and in new ones, and a call only in new
ones**, whether it ends with a value, by a `return` or with a fault. No scope loses a name or
changes its parent. -/
theorem evaluation_extends_store (limit budget : Nat) (scope : ScopeId) (st : State) :
    (∀ e : Expr, st.store.Extends (· = scope)
        ((e.eval (Closure.invoke limit budget) scope).stateAfter st).store) ∧
      (∀ s : Stmt, st.store.Extends (· = scope)
        ((s.exec (Closure.invoke limit budget) scope).stateAfter st).store) ∧
      (∀ p : Program, st.store.Extends (· = scope) (p.run limit scope st).2.store) ∧
      ∀ (f : Value) (args : List Value), st.store.Extends (fun _ => False)
        ((f.apply (Closure.invoke limit budget) args).stateAfter st).store := by
  have hrefl := Store.Extends.refl (· = scope) st.store
  have hscope : (frame st.store (· = scope)).scope () scope := .inl rfl
  refine ⟨fun e => ?_, fun s => ?_, fun p => ?_, fun f args => ?_⟩
  · obtain ⟨_, -, h, -⟩ := (Invariant.keeps_expr limit budget e hscope).stateAfter hrefl
    exact h
  · obtain ⟨_, -, h, -⟩ := (Invariant.keeps_stmt limit budget s hscope).stateAfter hrefl
    exact h
  · obtain ⟨_, -, h, -⟩ := Invariant.run limit p hscope hrefl
    exact h
  · exact (frame_apply (.refl _ _) limit budget f args).1

end Sprig
