import Sprig.Proofs.Comparison

/-!
# Simulations and invariants

A `Simulation` is a comparison that is given by a relation between stores: from related stores, two
steps end in the same way, with values that belong together and in related stores again. For that it
is enough that the four operations on a store respect the relation. Calls are counted apart from the
store, and every evaluation leaves as many calls open as it found, however it ends.

An `Invariant` is a simulation of evaluation by itself: a property of stores that the four
operations keep, along with what it says of the values and scopes in use.
-/

namespace Sprig

/-- A relation between stores that evaluation respects. -/
structure Simulation extends Pairing where
  le_refl : ∀ (w : World), le w w
  le_trans : ∀ {w w' w'' : World}, le w w' → le w' w'' → le w w''
  store : World → Store → Store → Prop
  find? : ∀ {w : World} {s t : Store} {i j : ScopeId} {name : String}, visible name →
    store w s t → scope w i j → Option.Rel (value w) (s.find? i name) (t.find? j name)
  set : ∀ {w : World} {s t : Store} {i j : ScopeId} {a b : Value} (name : String), store w s t →
    scope w i j → value w a b → ∃ w', le w w' ∧ store w' (s.set i name a) (t.set j name b)
  makeFunction : ∀ {w : World} {s t : Store} {i j : ScopeId} (params : List String)
    {body : Block}, (∀ name ∈ Stmt.readsAll body, visible name) → store w s t → scope w i j →
    ∃ w', le w w' ∧ store w' (s.makeFunction params body i).2 (t.makeFunction params body j).2 ∧
      value w' (.function (s.makeFunction params body i).1)
        (.function (t.makeFunction params body j).1)
  openScope : ∀ {w : World} {s t : Store} {f g : Closure} {args args' : List Value},
    store w s t → value w (.function f) (.function g) → List.Forall₂ (value w) args args' →
    ∃ w', le w w' ∧
      store w' (s.openScope (.ofPairs (f.params.zip args)) (some f.scope)).2
        (t.openScope (.ofPairs (g.params.zip args')) (some g.scope)).2 ∧
      scope w' (s.openScope (.ofPairs (f.params.zip args)) (some f.scope)).1
        (t.openScope (.ofPairs (g.params.zip args')) (some g.scope)).1

namespace Simulation

variable {α β : Type} {S : Simulation} {w w' : S.World} {d d' : Nat}

/-- What two steps come to, with `d` and `d'` open calls. -/
inductive Outcomes (S : Simulation) (w : S.World) (d d' : Nat) (R : S.World → α → α → Prop) :
    EStateM.Result Exit State α → EStateM.Result Exit State α → Prop where
  | ok {w' : S.World} {a b : α} {st st' : State} (hw : S.le w w')
      (hs : S.store w' st.store st'.store) (hd : st.depth = d) (hd' : st'.depth = d')
      (h : R w' a b) : Outcomes S w d d' R (.ok a st) (.ok b st')
  | returned {w' : S.World} {a b : Value} {st st' : State} (hw : S.le w w')
      (hs : S.store w' st.store st'.store) (hd : st.depth = d) (hd' : st'.depth = d')
      (h : S.value w' a b) :
      Outcomes S w d d' R (.error (.returned a) st) (.error (.returned b) st')
  | fault {w' : S.World} {e : Fault} {st st' : State} (hw : S.le w w')
      (hs : S.store w' st.store st'.store) (hd : st.depth = d) (hd' : st'.depth = d') :
      Outcomes S w d d' R (.error (.fault e) st) (.error (.fault e) st')

/-- Two steps that come to the same from related stores. -/
def Step (S : Simulation) (w : S.World) (R : S.World → α → α → Prop) (m n : Eval α) : Prop :=
  ∀ st st', S.store w st.store st'.store → S.Outcomes w st.depth st'.depth R (m st) (n st')

theorem Outcomes.of_later {R : S.World → α → α → Prop} {r r' : EStateM.Result Exit State α}
    (h : S.Outcomes w' d d' R r r') (hw : S.le w w') : S.Outcomes w d d' R r r' := by
  cases h with
  | ok hw' hs hd hd' h => exact .ok (S.le_trans hw hw') hs hd hd' h
  | returned hw' hs hd hd' h => exact .returned (S.le_trans hw hw') hs hd hd' h
  | fault hw' hs hd hd' => exact .fault (S.le_trans hw hw') hs hd hd'

theorem Step.bind {R : S.World → α → α → Prop} {Q : S.World → β → β → Prop} {m n : Eval α}
    {f g : α → Eval β} (hm : S.Step w R m n)
    (hf : ∀ {w'} {a b : α}, S.le w w' → R w' a b → S.Step w' Q (f a) (g b)) :
    S.Step w Q (m >>= f) (n >>= g) := by
  intro st st' hs
  have hst := hm st st' hs
  generalize hr : m st = r at hst
  generalize hr' : n st' = r' at hst
  cases hst with
  | ok hw hs hd hd' h =>
    rw [Eval.bind_of_ok hr, Eval.bind_of_ok hr']
    have hst' := hf hw h _ _ hs
    rw [hd, hd'] at hst'
    exact hst'.of_later hw
  | returned hw hs hd hd' h =>
    rw [Eval.bind_of_error hr, Eval.bind_of_error hr']
    exact .returned hw hs hd hd' h
  | fault hw hs hd hd' =>
    rw [Eval.bind_of_error hr, Eval.bind_of_error hr']
    exact .fault hw hs hd hd'

theorem Step.lookUp {i j : ScopeId} {name : String} (hname : S.visible name) (h : S.scope w i j) :
    S.Step w S.value (Eval.lookUp i name) (Eval.lookUp j name) := by
  intro st st' hs
  have hfind := S.find? hname hs h
  unfold Eval.lookUp
  generalize st.store.find? i name = v at hfind
  generalize st'.store.find? j name = v' at hfind
  cases hfind with
  | some hv => exact .ok (S.le_refl w) hs rfl rfl hv
  | none =>
    cases Builtin.ofName? name with
    | some b => exact .ok (S.le_refl w) hs rfl rfl (S.value_plain trivial)
    | none => exact .fault (S.le_refl w) hs rfl rfl

/-- A call is closed again, whatever its body comes to. -/
theorem Step.asCall {m n : Eval (Option Value)} (h : S.Step w S.result m n) :
    S.Step w S.value (Eval.asCall m) (Eval.asCall n) := by
  intro st st' hs
  have hbody := h st.enter st'.enter hs
  unfold Eval.asCall
  generalize m st.enter = r at hbody
  generalize n st'.enter = r' at hbody
  cases hbody with
  | ok hw hs hd hd' hv =>
    refine .ok hw hs (State.depth_leave hd) (State.depth_leave hd') ?_
    cases hv with
    | none => exact S.value_plain trivial
    | some hv => exact hv
  | returned hw hs hd hd' hv => exact .ok hw hs (State.depth_leave hd) (State.depth_leave hd') hv
  | fault hw hs hd hd' => exact .fault hw hs (State.depth_leave hd) (State.depth_leave hd')

/-- The comparison that a simulation is. -/
def toComparison (S : Simulation) : Comparison where
  toPairing := S.toPairing
  step := S.Step
  pure h _ _ hs := .ok (S.le_refl _) hs rfl rfl h
  bind hm hf := hm.bind hf
  fault _ _ _ hs := .fault (S.le_refl _) hs rfl rfl
  leaveWith h _ _ hs := .returned (S.le_refl _) hs rfl rfl h
  lookUp hname h := .lookUp hname h
  assign name h hv _ _ hs :=
    have ⟨_, hw, hs'⟩ := S.set name hs h hv
    .ok hw hs' rfl rfl trivial
  makeFunction params _ hreads h _ _ hs :=
    have ⟨_, hw, hs', hv⟩ := S.makeFunction params hreads hs h
    .ok hw hs' rfl rfl hv
  openScope h hargs _ _ hs :=
    have ⟨_, hw, hs', hscope⟩ := S.openScope hs h hargs
    .ok hw hs' rfl rfl hscope

theorem invoke (S : Simulation) (limit budget : Nat) :
    S.toComparison.Calls (Closure.invoke limit budget) (Closure.invoke limit budget) :=
  S.toComparison.invoke (fun _ _ _ h => Step.asCall h) limit budget

/-- The results of two runs belong together. -/
def Results (S : Simulation) (w : S.World) :
    Except Fault (Option Value) → Except Fault (Option Value) → Prop
  | .ok a, .ok b => S.result w a b
  | .error e, .error e' => e = e'
  | _, _ => False

/-- Results that belong together are the same up to `f` if values that do are. -/
theorem eq_map_of_results {f : Value → Value} (hf : ∀ {a b : Value}, S.value w a b → b = f a)
    {r r' : Except Fault (Option Value)} (h : S.Results w r r') : r' = r.map (Option.map f) := by
  cases r with
  | ok v =>
    cases r' with
    | ok v' =>
      have hv : S.result w v v' := h
      cases hv with
      | none => rfl
      | some hab => exact congrArg (fun b => Except.ok (some b)) (hf hab)
    | error e => exact h.elim
  | error e =>
    cases r' with
    | ok v => exact h.elim
    | error e' => exact congrArg Except.error h.symm

theorem map_result_eq_self {f : Value → Value} (hf : ∀ a, f a = a)
    (r : Except Fault (Option Value)) : r.map (Option.map f) = r := by
  obtain rfl : f = id := funext hf
  cases r with
  | ok v => exact congrArg Except.ok (Option.map_id_apply)
  | error e => rfl

theorem run (limit : Nat) (p : Program) (hreads : ∀ name ∈ p.reads, S.visible name)
    {i j : ScopeId} (h : S.scope w i j) {st st' : State} (hs : S.store w st.store st'.store)
    (hdepth : st.depth = st'.depth) :
    ∃ w', S.le w w' ∧ S.store w' (p.run limit i st).2.store (p.run limit j st').2.store ∧
      S.Results w' (p.run limit i st).1 (p.run limit j st').1 := by
  have hnone : S.result w none none := .none
  have hrun :=
    S.toComparison.stmts (S.invoke limit (limit - st.depth)) p.statements hreads h hnone st st' hs
  unfold Program.run
  rw [← hdepth]
  generalize Stmt.execAll _ i none p.statements st = r at hrun
  generalize Stmt.execAll _ j none p.statements st' = r' at hrun
  cases hrun with
  | ok hw hs _ _ h => exact ⟨_, hw, hs, h⟩
  | returned hw hs _ _ h => exact ⟨_, hw, hs, .some h⟩
  | fault hw hs => exact ⟨_, hw, hs, rfl⟩

end Simulation

/-! ## Invariants -/

/-- A property of stores that evaluation keeps. -/
structure Invariant where
  /-- What has been learnt so far. -/
  World : Type
  /-- The second world comes after the first. -/
  le : World → World → Prop
  le_refl : ∀ (w : World), le w w
  le_trans : ∀ {w w' w'' : World}, le w w' → le w' w'' → le w w''
  store : World → Store → Prop
  value : World → Value → Prop
  scope : World → ScopeId → Prop
  value_mono : ∀ {w w' : World} {a : Value}, le w w' → value w a → value w' a
  scope_mono : ∀ {w w' : World} {i : ScopeId}, le w w' → scope w i → scope w' i
  value_plain : ∀ {w : World} {a : Value}, a.IsPlain → value w a
  find? : ∀ {w : World} {s : Store} {i : ScopeId} {name : String} {a : Value}, store w s →
    scope w i → s.find? i name = some a → value w a
  set : ∀ {w : World} {s : Store} {i : ScopeId} {a : Value} (name : String), store w s →
    scope w i → value w a → ∃ w', le w w' ∧ store w' (s.set i name a)
  makeFunction : ∀ {w : World} {s : Store} {i : ScopeId} (params : List String) (body : Block),
    store w s → scope w i → ∃ w', le w w' ∧ store w' (s.makeFunction params body i).2 ∧
      value w' (.function (s.makeFunction params body i).1)
  openScope : ∀ {w : World} {s : Store} {f : Closure} {args : List Value}, store w s →
    value w (.function f) → (∀ a ∈ args, value w a) → ∃ w', le w w' ∧
      store w' (s.openScope (.ofPairs (f.params.zip args)) (some f.scope)).2 ∧
      scope w' (s.openScope (.ofPairs (f.params.zip args)) (some f.scope)).1

namespace Invariant

variable {α : Type} {I : Invariant} {w : I.World} {limit budget : Nat} {i : ScopeId}

/-- The same with the property, on both sides. -/
def twice (P : α → Prop) (a b : α) : Prop :=
  a = b ∧ P a

theorem forall₂_twice_iff {P : α → Prop} {as bs : List α} :
    List.Forall₂ (twice P) as bs ↔ as = bs ∧ ∀ a ∈ as, P a := by
  constructor
  · intro h
    induction h with
    | nil => exact ⟨rfl, nofun⟩
    | cons h _ ih => exact ⟨by rw [h.1, ih.1], List.forall_mem_cons.2 ⟨h.2, ih.2⟩⟩
  · rintro ⟨rfl, h⟩
    exact List.forall₂_same.2 fun a ha => ⟨rfl, h a ha⟩

/-- Evaluation simulates itself. -/
def toSimulation (I : Invariant) : Simulation where
  World := I.World
  le := I.le
  visible _ := True
  value w := twice (I.value w)
  scope w := twice (I.scope w)
  value_mono hw h := ⟨h.1, I.value_mono hw h.2⟩
  scope_mono hw h := ⟨h.1, I.scope_mono hw h.2⟩
  value_alike h := h.1 ▸ Value.Alike.refl _
  value_equals h h' := by rw [h.1, h'.1]
  value_plain h := ⟨rfl, I.value_plain h⟩
  value_reads _ _ _ := trivial
  le_refl := I.le_refl
  le_trans := I.le_trans
  store w := twice (I.store w)
  find? {w s t i j name} := by
    rintro - ⟨rfl, hs⟩ ⟨rfl, hi⟩
    cases h : s.find? i name with
    | none => exact .none
    | some a => exact .some ⟨rfl, I.find? hs hi h⟩
  set name := by
    rintro ⟨rfl, hs⟩ ⟨rfl, hi⟩ ⟨rfl, hv⟩
    obtain ⟨w', hw, hs'⟩ := I.set name hs hi hv
    exact ⟨w', hw, rfl, hs'⟩
  makeFunction params body := by
    rintro - ⟨rfl, hs⟩ ⟨rfl, hi⟩
    obtain ⟨w', hw, hs', hv⟩ := I.makeFunction params body hs hi
    exact ⟨w', hw, ⟨rfl, hs'⟩, rfl, hv⟩
  openScope {w s t f g args args'} := by
    rintro ⟨rfl, hs⟩ ⟨hfg, hf⟩ hargs
    obtain rfl : f = g := Value.function.inj hfg
    obtain ⟨rfl, hmem⟩ := forall₂_twice_iff.1 hargs
    obtain ⟨w', hw, hs', hscope⟩ := I.openScope hs hf hmem
    exact ⟨w', hw, ⟨rfl, hs'⟩, rfl, hscope⟩

/-- What a step comes to, with `d` open calls. -/
inductive Outcome (I : Invariant) (w : I.World) (d : Nat) (P : I.World → α → Prop) :
    EStateM.Result Exit State α → Prop where
  | ok {w' : I.World} {a : α} {st : State} (hw : I.le w w') (hs : I.store w' st.store)
      (hd : st.depth = d) (h : P w' a) : Outcome I w d P (.ok a st)
  | returned {w' : I.World} {a : Value} {st : State} (hw : I.le w w') (hs : I.store w' st.store)
      (hd : st.depth = d) (h : I.value w' a) : Outcome I w d P (.error (.returned a) st)
  | fault {w' : I.World} {e : Fault} {st : State} (hw : I.le w w') (hs : I.store w' st.store)
      (hd : st.depth = d) : Outcome I w d P (.error (.fault e) st)

/-- The step keeps the invariant, and what it gives is as the predicate says. -/
def Keeps (I : Invariant) (w : I.World) (P : I.World → α → Prop) (m : Eval α) : Prop :=
  ∀ st, I.store w st.store → I.Outcome w st.depth P (m st)

theorem keeps_of_step {P : I.World → α → Prop} {R : I.World → α → α → Prop} {m : Eval α}
    (h : I.toSimulation.Step w R m m) (hR : ∀ {w' a b}, R w' a b → P w' a) : I.Keeps w P m := by
  intro st hs
  have hst := h st st ⟨rfl, hs⟩
  generalize m st = r at hst
  cases hst with
  | ok hw hs hd _ h => exact .ok hw hs.2 hd (hR h)
  | returned hw hs hd _ h => exact .returned hw hs.2 hd h.2
  | fault hw hs hd => exact .fault hw hs.2 hd

theorem Keeps.stateAfter {P : I.World → α → Prop} {m : Eval α} (h : I.Keeps w P m) {st : State}
    (hs : I.store w st.store) : ∃ w', I.le w w' ∧ I.store w' (m.stateAfter st).store ∧
      (m.stateAfter st).depth = st.depth := by
  have hst := h st hs
  unfold Eval.stateAfter
  generalize m st = r at hst
  cases hst with
  | ok hw hs hd => exact ⟨_, hw, hs, hd⟩
  | returned hw hs hd => exact ⟨_, hw, hs, hd⟩
  | fault hw hs hd => exact ⟨_, hw, hs, hd⟩

theorem Keeps.of_ok {P : I.World → α → Prop} {m : Eval α} (h : I.Keeps w P m) {st st' : State}
    {a : α} (hs : I.store w st.store) (ha : m st = .ok a st') :
    ∃ w', I.le w w' ∧ I.store w' st'.store ∧ st'.depth = st.depth ∧ P w' a := by
  have hst := h st hs
  rw [ha] at hst
  cases hst with
  | ok hw hs hd h => exact ⟨_, hw, hs, hd, h⟩

/-- The values among the results of statements. -/
def result (I : Invariant) (w : I.World) (v : Option Value) : Prop :=
  ∀ a ∈ v, I.value w a

/-- All values of a list. -/
def values (I : Invariant) (w : I.World) (vs : List Value) : Prop :=
  ∀ a ∈ vs, I.value w a

theorem result_of_twice {a b : Option Value} (h : I.toSimulation.result w a b) : I.result w a := by
  cases h with
  | none => nofun
  | some h =>
    rintro _ ⟨⟩
    exact h.2

theorem keeps_expr (limit budget : Nat) (e : Expr) (h : I.scope w i) :
    I.Keeps w I.value (e.eval (Closure.invoke limit budget) i) :=
  keeps_of_step (I.toSimulation.toComparison.expr (I.toSimulation.invoke limit budget) e
    (fun _ _ => trivial) ⟨rfl, h⟩) And.right

theorem keeps_exprs (limit budget : Nat) (es : List Expr) (h : I.scope w i) :
    I.Keeps w I.values (Expr.evalAll (Closure.invoke limit budget) i es) :=
  keeps_of_step (I.toSimulation.toComparison.exprs (I.toSimulation.invoke limit budget) es
    (fun _ _ => trivial) ⟨rfl, h⟩) fun h => (forall₂_twice_iff.1 h).2

theorem keeps_stmt (limit budget : Nat) (s : Stmt) (h : I.scope w i) :
    I.Keeps w I.result (s.exec (Closure.invoke limit budget) i) :=
  keeps_of_step (I.toSimulation.toComparison.stmt (I.toSimulation.invoke limit budget) s
    (fun _ _ => trivial) ⟨rfl, h⟩) result_of_twice

theorem keeps_stmts (limit budget : Nat) (ss : List Stmt) (h : I.scope w i) :
    I.Keeps w I.result (Stmt.execAll (Closure.invoke limit budget) i none ss) :=
  keeps_of_step (I.toSimulation.toComparison.stmts (I.toSimulation.invoke limit budget) ss
    (fun _ _ => trivial) ⟨rfl, h⟩ .none) result_of_twice

theorem keeps_apply (limit budget : Nat) {f : Value} {args : List Value} (hf : I.value w f)
    (hargs : I.values w args) : I.Keeps w I.value (f.apply (Closure.invoke limit budget) args) :=
  keeps_of_step (I.toSimulation.toComparison.apply (I.toSimulation.invoke limit budget) ⟨rfl, hf⟩
    (forall₂_twice_iff.2 ⟨rfl, hargs⟩)) And.right

/-- **What a run keeps.** -/
theorem run (limit : Nat) (p : Program) (h : I.scope w i) {st : State} (hs : I.store w st.store) :
    ∃ w', I.le w w' ∧ I.store w' (p.run limit i st).2.store ∧
      ∀ v, (p.run limit i st).1 = .ok v → I.result w' v := by
  obtain ⟨w', hw, hs', hr⟩ := I.toSimulation.run limit p (w := w) (fun _ _ => trivial) ⟨rfl, h⟩
    ⟨rfl, hs⟩ rfl
  refine ⟨w', hw, hs'.2, fun v hv => ?_⟩
  rw [hv] at hr
  exact result_of_twice hr

end Invariant

end Sprig
