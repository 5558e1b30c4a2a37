import Sprig.Proofs.Carried

/-!
# Functions are told apart by where they come from

A function has a number, and functions are equal if their numbers are. That this is a sound identity
is a matter of whole histories. `Lineage` is what a host does with a store, as in `Reachable`, and
records every function that was made: one for each time a function literal was evaluated, in order.
The number of a function is its place in that record (`Register`), and whatever function is bound,
held by the machine on its way or handed to the host stands in the record as it was made
(`Lineage.register`). So equal functions come from the same evaluation and are the same in every
respect, and different evaluations give functions that differ.
-/

namespace Sprig

/-! ## Laws of equality -/

namespace Value

theorem equals_function {f g : Closure} : (function f).equals (function g) = true ↔ f.id = g.id :=
  beq_iff_eq

/-- Equal values are the same, apart from functions, which only have the same number. -/
theorem eq_or_function_of_equals {u v : Value} (h : u.equals v = true) :
    (u = v ∧ u.isError = false) ∨
      ∃ f g, u = function f ∧ v = function g ∧ f.id = g.id := by
  cases u with
  | int a =>
    cases v with
    | int b => exact .inl ⟨congrArg int (beq_iff_eq.1 h), rfl⟩
    | _ => cases h
  | bool a =>
    cases v with
    | bool b => exact .inl ⟨congrArg bool (beq_iff_eq.1 h), rfl⟩
    | _ => cases h
  | str a =>
    cases v with
    | str b => exact .inl ⟨congrArg str (beq_iff_eq.1 h), rfl⟩
    | _ => cases h
  | null =>
    cases v with
    | null => exact .inl ⟨rfl, rfl⟩
    | _ => cases h
  | function f =>
    cases v with
    | function g => exact .inr ⟨f, g, rfl, rfl, equals_function.1 h⟩
    | _ => cases h
  | builtin a =>
    cases v with
    | builtin b => exact .inl ⟨congrArg builtin (Builtin.name_injective (beq_iff_eq.1 h)), rfl⟩
    | _ => cases h
  | error e => cases v <;> cases h

theorem equals_self {v : Value} (h : v.isError = false) : v.equals v = true := by
  cases v with
  | error e => cases h
  | null => rfl
  | _ => exact beq_self_eq_true _

theorem equals_self_eq_false_iff (v : Value) : v.equals v = false ↔ v.isError = true := by
  cases v with
  | error e => exact iff_of_true rfl rfl
  | _ =>
    refine iff_of_false (fun h => ?_) Bool.false_ne_true
    exact absurd (h.symm.trans (equals_self rfl)) Bool.false_ne_true

theorem equals_symm {u v : Value} (h : u.equals v = true) : v.equals u = true := by
  rcases eq_or_function_of_equals h with ⟨rfl, -⟩ | ⟨f, g, rfl, rfl, hid⟩
  · exact h
  · exact equals_function.2 hid.symm

theorem equals_comm (u v : Value) : u.equals v = v.equals u :=
  Bool.eq_iff_iff.2 ⟨equals_symm, equals_symm⟩

theorem equals_trans {u v w : Value} (huv : u.equals v = true) (hvw : v.equals w = true) :
    u.equals w = true := by
  rcases eq_or_function_of_equals huv with ⟨rfl, -⟩ | ⟨f, g, rfl, rfl, hfg⟩
  · exact hvw
  · rcases eq_or_function_of_equals hvw with ⟨rfl, -⟩ | ⟨_, k, hg, rfl, hgk⟩
    · exact huv
    · cases hg
      exact equals_function.2 (hfg.trans hgk)

/-- The value is no function, or one of those that were made. -/
def MadeIn (made : List Closure) (v : Value) : Prop :=
  ∀ f, v = function f → f ∈ made

theorem IsPlain.madeIn {v : Value} (h : v.IsPlain) (made : List Closure) : v.MadeIn made := by
  rintro f rfl
  exact h.elim

theorem MadeIn.append {v : Value} {made : List Closure} (h : v.MadeIn made) (new : List Closure) :
    v.MadeIn (made ++ new) :=
  fun f hf => List.mem_append_left new (h f hf)

theorem madeIn_append_self (made : List Closure) (f : Closure) :
    (function f).MadeIn (made ++ [f]) := by
  rintro _ ⟨⟩
  exact List.mem_append_right made List.mem_cons_self

end Value

/-! ## The record of functions -/

/-- The functions that were made so far, in order. Each has its place for its number, and no other
function is bound in the store. -/
structure Register (made : List Closure) (s : Store) : Prop where
  length_eq : made.length = s.functions
  id_eq : ∀ (i : Nat) (f : Closure), made[i]? = some f → f.id = i
  bound : s.AllBound (Value.MadeIn made)

namespace Register

variable {made : List Closure} {s : Store}

theorem empty : Register [] .empty := by
  refine ⟨rfl, fun i f hf => ?_, fun i sc hsc => ?_⟩
  · simp at hf
  · simp [Store.empty] at hsc

theorem custody (made : List Closure) : Custody (Value.MadeIn made) (Register made) where
  plain h := h.madeIn made
  bound h := h.bound
  set scope name h hv := ⟨h.length_eq, h.id_eq, h.bound.set scope name hv⟩
  openScope parent h hbindings := ⟨h.length_eq, h.id_eq, h.bound.openScope parent hbindings⟩

/-- A function that is made is put on record. -/
theorem makeFunction (h : Register made s) (params : List String) (body : Block)
    (scope : ScopeId) :
    Register (made ++ [(s.makeFunction params body scope).1])
      (s.makeFunction params body scope).2 := by
  refine ⟨?_, fun i f hf => ?_, h.bound.mono fun v hv => hv.append _⟩
  · rw [List.length_append, h.length_eq]
    rfl
  · rw [List.getElem?_append] at hf
    split at hf
    · exact h.id_eq i f hf
    · next hi =>
      obtain ⟨hlt, rfl⟩ := List.getElem?_eq_some_iff.1 hf
      rw [List.length_singleton] at hlt
      rw [List.getElem_singleton]
      show s.functions = i
      rw [← h.length_eq]
      omega

/-- Functions on record are equal if they have the same place there. -/
theorem equals_iff (h : Register made s) {i j : Nat} {f g : Closure} (hf : made[i]? = some f)
    (hg : made[j]? = some g) : (Value.function f).equals (.function g) = true ↔ i = j := by
  rw [Value.equals_function, h.id_eq i f hf, h.id_eq j g hg]

/-- For values whose functions are on record equality is identity. -/
theorem eq_of_equals (h : Register made s) {u v : Value} (hu : u.MadeIn made) (hv : v.MadeIn made)
    (huv : u.equals v = true) : u = v := by
  rcases Value.eq_or_function_of_equals huv with ⟨rfl, -⟩ | ⟨f, g, rfl, rfl, -⟩
  · rfl
  · obtain ⟨i, hi⟩ := List.mem_iff_getElem?.1 (hu f rfl)
    obtain ⟨j, hj⟩ := List.mem_iff_getElem?.1 (hv g rfl)
    obtain rfl := (h.equals_iff hi hj).1 huv
    exact congrArg Value.function (Option.some.inj (hi.symm.trans hj))

end Register

/-! ## The way of the machine -/

/-- The machine gets from one configuration to another and makes these functions on the way, each by
the evaluation of a function literal. -/
inductive Makes (limit : Nat) (m : Machine) : List Closure → Machine → Prop where
  | refl : Makes limit m [] m
  | tail {new : List Closure} {m' m'' : Machine} (h : Makes limit m new m')
      (hstep : m'.step limit = .next m'') : Makes limit m (new ++ m'.made.toList) m''

theorem Leads.exists_makes {limit : Nat} {m m' : Machine} (h : Leads limit m m') :
    ∃ new, Makes limit m new m' := by
  induction h with
  | refl => exact ⟨[], .refl⟩
  | tail _ hstep ih =>
    obtain ⟨new, hnew⟩ := ih
    exact ⟨_, hnew.tail hstep⟩

namespace Machine

variable {limit : Nat} {m m' : Machine} {made : List Closure}

/-- The functions that the machine has are on record. -/
def OnRecord (made : List Closure) : Machine → Prop :=
  Carries (Value.MadeIn made) (Register made)

/-- One step puts the function that it makes on record. -/
theorem OnRecord.step (h : m.OnRecord made) (hstep : m.step limit = .next m') :
    m'.OnRecord (made ++ m.made.toList) := by
  cases hmade : m.made with
  | none =>
    rw [Option.toList_none, List.append_nil]
    exact Carries.step h (Register.custody made) hmade hstep
  | some f =>
    obtain ⟨scope, params, body, rest, hcontrol, rfl, hcontrol', hstore⟩ :=
      step_of_made hmade hstep
    have hheld := h.held
    rw [hcontrol] at hheld
    refine ⟨?_, hstore ▸ h.store.makeFunction params body scope⟩
    rw [hcontrol']
    exact List.forall_mem_cons.2
      ⟨Value.madeIn_append_self made _, fun v hv => (hheld v hv).append _⟩

theorem OnRecord.makes (h : m.OnRecord made) {new : List Closure} (hway : Makes limit m new m') :
    m'.OnRecord (made ++ new) := by
  induction hway with
  | refl =>
    rw [List.append_nil]
    exact h
  | tail _ hstep ih =>
    rw [← List.append_assoc]
    exact ih.step hstep

/-- The machine stops with a value that it holds. -/
theorem held_of_stop {result : Except Fault (Option Value)} {st : State}
    (h : m.step limit = .stop result st) :
    st = m.state ∧ ∀ v ∈ answers result, v ∈ m.control.held := by
  obtain ⟨control, st'⟩ := m
  cases control with
  | done v next =>
    cases next with
    | program =>
      cases h
      exact ⟨rfl, fun v hv => List.mem_append_left _ hv⟩
    | _ => cases h
  | leaveBlock x next =>
    cases next with
    | program =>
      cases x with
      | returned v =>
        cases h
        exact ⟨rfl, fun v hv => List.mem_append_left _ hv⟩
      | fault e =>
        cases h
        exact ⟨rfl, List.forall_mem_nil _⟩
    | call rest => cases x <;> cases h
    | _ => cases h
  | arguments scope f done args rest => cases args <;> cases h
  | stmts scope last statements next => cases statements <;> cases h
  | _ => cases h

end Machine

/-! ## Histories -/

/-- A store that a host can bring about, with the values that it holds then and all functions that
were made on the way, in order. -/
inductive Lineage : Store → List Value → List Closure → Prop where
  | start : Lineage .empty [] []
  | openScope {s : Store} {vs : List Value} {made : List Closure} (h : Lineage s vs made)
      {parent : Option ScopeId} (hparent : ∀ p ∈ parent, p < s.scopes.size) :
      Lineage (s.openScope [] parent).2 vs made
  | data {s : Store} {vs : List Value} {made : List Closure} (h : Lineage s vs made) {v : Value}
      (hv : ∀ f, v ≠ .function f) : Lineage s (v :: vs) made
  | function {s : Store} {vs : List Value} {made : List Closure} (h : Lineage s vs made)
      (params : List String) (body : Block) {scope : ScopeId} (hscope : scope < s.scopes.size) :
      Lineage (s.makeFunction params body scope).2
        (.function (s.makeFunction params body scope).1 :: vs)
        (made ++ [(s.makeFunction params body scope).1])
  | set {s : Store} {vs : List Value} {made : List Closure} (h : Lineage s vs made)
      (scope : ScopeId) (name : String) {v : Value} (hv : v ∈ vs) :
      Lineage (s.set scope name v) vs made
  | get {s : Store} {vs : List Value} {made : List Closure} (h : Lineage s vs made)
      {scope : ScopeId} {name : String} {v : Value} (hv : s.find? scope name = some v) :
      Lineage s (v :: vs) made
  /-- The machine runs a program to its end. -/
  | run {st : State} {vs : List Value} {made : List Closure} (h : Lineage st.store vs made)
      {limit : Nat} {p : Program} {scope : ScopeId} (hscope : scope < st.store.scopes.size)
      {new : List Closure} {m : Machine} (hway : Makes limit (.start scope p st) new m)
      (hstop : m.step limit = .stop (p.run limit scope st).1 (p.run limit scope st).2) :
      Lineage (p.run limit scope st).2.store (answers (p.run limit scope st).1 ++ vs)
        (made ++ new)

namespace Lineage

variable {s : Store} {vs : List Value} {made : List Closure}

theorem reachable (h : Lineage s vs made) : Reachable s vs := by
  induction h with
  | start => exact .start
  | openScope _ hparent ih => exact ih.openScope hparent
  | data _ hv ih => exact ih.data hv
  | function _ params body hscope ih => exact ih.function params body hscope
  | set _ scope name hv ih => exact ih.set scope name hv
  | get _ hv ih => exact ih.get hv
  | run _ hscope _ _ ih => exact ih.run _ _ hscope

/-- Any run carries the history on. -/
theorem exists_run {st : State} (h : Lineage st.store vs made) (limit : Nat) (p : Program)
    {scope : ScopeId} (hscope : scope < st.store.scopes.size) :
    ∃ new m, Makes limit (.start scope p st) new m ∧
      m.step limit = .stop (p.run limit scope st).1 (p.run limit scope st).2 := by
  obtain ⟨m, hlead, hstop⟩ := leads_run h.reachable.sound.1 limit p hscope
  obtain ⟨new, hway⟩ := hlead.exists_makes
  exact ⟨new, m, hway, hstop⟩

/-- **All functions are on record.** -/
theorem register (h : Lineage s vs made) : Register made s ∧ ∀ v ∈ vs, v.MadeIn made := by
  induction h with
  | start => exact ⟨.empty, List.forall_mem_nil _⟩
  | openScope _ _ ih => exact ⟨(Register.custody _).openScope _ ih.1 (List.forall_mem_nil _), ih.2⟩
  | data _ hv ih => exact ⟨ih.1, List.forall_mem_cons.2 ⟨fun f hf => absurd hf (hv f), ih.2⟩⟩
  | function _ params body _ ih =>
    refine ⟨ih.1.makeFunction params body _, ?_⟩
    exact List.forall_mem_cons.2 ⟨Value.madeIn_append_self _ _, fun v hv => (ih.2 v hv).append _⟩
  | set _ scope name hv ih => exact ⟨(Register.custody _).set scope name ih.1 (ih.2 _ hv), ih.2⟩
  | get _ hv ih => exact ⟨ih.1, List.forall_mem_cons.2 ⟨ih.1.bound.of_find? hv, ih.2⟩⟩
  | @run st vs made _ limit p scope _ new m hway hstop ih =>
    have hstart : (Machine.start scope p st).OnRecord made := ⟨List.forall_mem_nil _, ih.1⟩
    obtain ⟨hheld, hstore⟩ := hstart.makes hway
    obtain ⟨hstate, hresult⟩ := Machine.held_of_stop hstop
    refine ⟨hstate ▸ hstore, List.forall_mem_append.2 ⟨fun v hv => ?_, fun v hv => ?_⟩⟩
    · exact hheld v (hresult v hv)
    · exact (ih.2 v hv).append new

end Lineage

/-- What a host can bring about has a history. -/
theorem Reachable.exists_lineage {s : Store} {vs : List Value} (h : Reachable s vs) :
    ∃ made, Lineage s vs made := by
  induction h with
  | start => exact ⟨[], .start⟩
  | openScope _ hparent ih => exact ih.imp fun made h => h.openScope hparent
  | data _ hv ih => exact ih.imp fun made h => h.data hv
  | function _ params body hscope ih =>
    obtain ⟨made, h⟩ := ih
    exact ⟨_, h.function params body hscope⟩
  | set _ scope name hv ih => exact ih.imp fun made h => h.set scope name hv
  | get _ hv ih => exact ih.imp fun made h => h.get hv
  | run _ limit p hscope ih =>
    obtain ⟨made, h⟩ := ih
    obtain ⟨new, m, hway, hstop⟩ := h.exists_run limit p hscope
    exact ⟨_, h.run hscope hway hstop⟩

/-! ## Values on their way -/

theorem Bindings.find?_foldl_insert {α : Type} {x : String} {pairs : List (String × α)}
    (hx : x ∉ pairs.map Prod.fst) (bs : Bindings α) :
    find? x (pairs.foldl (fun bs p => insert p.1 p.2 bs) bs) = find? x bs := by
  induction pairs generalizing bs with
  | nil => rfl
  | cons p pairs ih =>
    obtain ⟨hp, hpairs⟩ := not_or.1 (mt List.mem_cons.2 hx)
    rw [List.foldl_cons, ih hpairs, find?_insert_of_ne hp]

theorem Bindings.find?_ofPairs {α : Type} {x : String} {after : List (String × α)}
    (hx : x ∉ after.map Prod.fst) (before : List (String × α)) (a : α) :
    find? x (ofPairs (before ++ (x, a) :: after)) = some a := by
  rw [ofPairs, List.foldl_append, List.foldl_cons, find?_foldl_insert hx, find?_insert_self]

namespace Store

variable {s : Store} {scope : ScopeId} {name : String}

theorem find?_set_self (h : scope < s.scopes.size) (v : Value) :
    (s.set scope name v).find? scope name = some v := by
  rw [find?, getElem?_set, if_pos rfl, Array.getElem?_eq_getElem h]
  simp

/-- A new scope changes nothing for those that were there. -/
theorem find?_openScope_of_lt (bindings : Bindings Value) (parent : Option ScopeId)
    (h : scope < s.scopes.size) :
    (s.openScope bindings parent).2.find? scope name = s.find? scope name := by
  induction scope using Nat.strongRecOn with
  | ind scope ih =>
    rw [find?, find?, getElem?_openScope, if_neg (Nat.ne_of_lt h)]
    cases s.scopes[scope]? with
    | none => rfl
    | some sc =>
      cases hname : sc.bindings.find? name with
      | some v => simp [hname]
      | none =>
        cases hparent : sc.parent with
        | none => simp [hname, hparent]
        | some outer =>
          by_cases hlt : outer < scope
          · simp [hname, hparent, hlt, ih outer hlt (Nat.lt_trans hlt h)]
          · simp [hname, hparent, hlt]

theorem find?_openScope_of_some {bindings : Bindings Value} {v : Value}
    (h : bindings.find? name = some v) (parent : Option ScopeId) :
    (s.openScope bindings parent).2.find? s.scopes.size name = some v := by
  rw [find?, getElem?_openScope, if_pos rfl]
  simp [h]

theorem find?_openScope_of_none {bindings : Bindings Value} (h : bindings.find? name = none)
    (hscope : scope < s.scopes.size) :
    (s.openScope bindings (some scope)).2.find? s.scopes.size name = s.find? scope name := by
  rw [find?, getElem?_openScope, if_pos rfl]
  simp [h, hscope, find?_openScope_of_lt]

end Store

/-- The value stays what it is. -/
structure Value.Travels (s : Store) (v : Value) : Prop where
  /-- A name that is bound to it means it. -/
  bound : ∀ (scope : ScopeId) (name : String), scope < s.scopes.size →
    (s.set scope name v).find? scope name = some v
  /-- So does the parameter for which it is passed, unless a later one has the same name. -/
  passed : ∀ (g : Closure) (before after : List String) (x : String) (us ws : List Value),
    g.params = before ++ x :: after → us.length = before.length → x ∉ after →
    (s.openScope (.ofPairs (g.params.zip (us ++ v :: ws))) (some g.scope)).2.find? s.scopes.size x =
      some v
  /-- So does any other name in a call that meant it where the function was made. -/
  captured : ∀ (g : Closure) (args : List Value) (x : String), g.scope < s.scopes.size →
    x ∉ g.params → s.find? g.scope x = some v →
    (s.openScope (.ofPairs (g.params.zip args)) (some g.scope)).2.find? s.scopes.size x = some v
  /-- A call that is left with it, or whose last statement has it for a value, gives it. -/
  returned : ∀ (body : Eval (Option Value)) (st st' : State),
    body st.enter = .error (.returned v) st' ∨ body st.enter = .ok (some v) st' →
    Eval.asCall body st = .ok v st'.leave

theorem Value.travels (s : Store) (v : Value) : v.Travels s where
  bound scope name h := Store.find?_set_self h v
  passed g before after x us ws hparams hlength hx := by
    refine Store.find?_openScope_of_some ?_ _
    rw [hparams, List.zip_append hlength.symm, List.zip_cons_cons]
    refine Bindings.find?_ofPairs (fun hmem => ?_) _ v
    obtain ⟨⟨y, w⟩, hyw, rfl⟩ := List.mem_map.1 hmem
    exact hx (List.of_mem_zip hyw).1
  captured g args x hscope hx hfind := by
    refine (Store.find?_openScope_of_none ?_ hscope).trans hfind
    refine Bindings.find?_foldl_insert (fun hmem => ?_) []
    obtain ⟨⟨y, w⟩, hyw, rfl⟩ := List.mem_map.1 hmem
    exact hx (List.of_mem_zip hyw).1
  returned body st st' h := by
    unfold Eval.asCall
    rcases h with h | h
    · rw [h]
    · rw [h]
      rfl

/-! ## Identity -/

/-- The host holds the value, or a name is bound to it. -/
def AtHand (s : Store) (vs : List Value) (v : Value) : Prop :=
  v ∈ vs ∨ ∃ (i : ScopeId) (sc : Scope) (name : String),
    s.scopes[i]? = some sc ∧ (name, v) ∈ sc.bindings

theorem AtHand.of_find? {s : Store} {vs : List Value} {scope : ScopeId} {name : String} {v : Value}
    (h : s.find? scope name = some v) : AtHand s vs v := by
  obtain ⟨i, sc, hsc, hmem⟩ := Store.exists_of_find? h
  exact .inr ⟨i, sc, name, hsc, hmem⟩

theorem AtHand.madeIn {s : Store} {vs : List Value} {made : List Closure} {v : Value}
    (h : AtHand s vs v) (hs : Register made s) (hvs : ∀ v ∈ vs, v.MadeIn made) :
    v.MadeIn made := by
  rcases h with h | ⟨i, sc, name, hsc, hmem⟩
  · exact hvs v h
  · exact hs.bound i sc hsc (name, v) hmem

/-- **Equality of values is a sound identity.** It is symmetric and transitive, and errors are the
values that do not equal themselves. In any store that a host can bring about, equal values, bound
or in the hands of the host, are of one kind, count alike in conditions and are shown alike. The
store has a history, and according to any history of it: equal functions come from the same
evaluation of a function literal, and so have the same parameters, body and scope; those from
different evaluations are never equal; binding, passing, capturing and returning leave a value what
it is; and on the way of a further program, wherever it has come to, all functions that are bound or
held are those on record and are told apart in the same way. -/
theorem equality_is_identity {s : Store} {vs : List Value} (h : Reachable s vs) :
    (∀ u v : Value, u.equals v = v.equals u) ∧
    (∀ u v w : Value, u.equals v = true → v.equals w = true → u.equals w = true) ∧
    (∀ v : Value, v.equals v = false ↔ v.isError = true) ∧
    (∀ u v : Value, AtHand s vs u → AtHand s vs v → u.equals v = true →
      u.kind = v.kind ∧ u.isTruthy = v.isTruthy ∧ u.display = v.display ∧ u.tagged = v.tagged) ∧
    (∃ made, Lineage s vs made) ∧
    ∀ made, Lineage s vs made →
      (∀ f g : Closure, AtHand s vs (.function f) → AtHand s vs (.function g) →
        (Value.function f).equals (.function g) = true →
          (∃ i : Nat, made[i]? = some f ∧ made[i]? = some g) ∧
            f.params = g.params ∧ f.body = g.body ∧ f.scope = g.scope) ∧
      (∀ (i j : Nat) (f g : Closure), made[i]? = some f → made[j]? = some g →
        ((Value.function f).equals (.function g) = true ↔ i = j)) ∧
      (∀ v : Value, v.Travels s) ∧
      ∀ (st : State) (limit : Nat) (p : Program) (scope : ScopeId), st.store = s →
        ∀ new m, Makes limit (.start scope p st) new m →
          (∀ f, AtHand m.state.store m.control.held (.function f) → f ∈ made ++ new) ∧
          ∀ (i j : Nat) (f g : Closure), (made ++ new)[i]? = some f → (made ++ new)[j]? = some g →
            ((Value.function f).equals (.function g) = true ↔ i = j) := by
  obtain ⟨made, hmade⟩ := h.exists_lineage
  obtain ⟨hs, hvs⟩ := hmade.register
  refine ⟨Value.equals_comm, fun u v w => Value.equals_trans, Value.equals_self_eq_false_iff,
    fun u v hu hv huv => ?_, ⟨made, hmade⟩, fun made hmade => ?_⟩
  · obtain rfl := hs.eq_of_equals (hu.madeIn hs hvs) (hv.madeIn hs hvs) huv
    exact ⟨rfl, rfl, rfl, rfl⟩
  obtain ⟨hs, hvs⟩ := hmade.register
  refine ⟨fun f g hf hg hfg => ?_, fun i j f g => hs.equals_iff, Value.travels s, ?_⟩
  · have hf := hf.madeIn hs hvs
    obtain ⟨⟩ := hs.eq_of_equals hf (hg.madeIn hs hvs) hfg
    obtain ⟨i, hi⟩ := List.mem_iff_getElem?.1 (hf f rfl)
    exact ⟨⟨i, hi, hi⟩, rfl, rfl, rfl⟩
  · rintro st limit p scope rfl new m hway
    have hstart : (Machine.start scope p st).OnRecord made := ⟨List.forall_mem_nil _, hs⟩
    obtain ⟨hheld, hstore⟩ := hstart.makes hway
    exact ⟨fun f hf => hf.madeIn hstore hheld f rfl, fun i j f g => hstore.equals_iff⟩

/-- Binds two names to the values of two literals of one text, and a third to the first function
after it was passed to itself and returned. -/
def Program.twins : Program :=
  ⟨[.bind "f" (.fn ["x"] [.expr (.ident "x")]), .bind "g" (.fn ["x"] [.expr (.ident "x")]),
    .bind "h" (.call (.ident "f") [.ident "f"])]⟩

/-- The store after that, which had one scope before. -/
def Store.afterTwins : Store :=
  (Program.twins.run 3 0 (.ofStore (Store.empty.openScope [] none).2)).2.store

/-- A value of one of the literals. -/
def Closure.twin (id : Nat) : Closure :=
  ⟨id, ["x"], [.expr (.ident "x")], 0⟩

/-- The twins look the same and are not equal; the function that came back is. -/
theorem equality_is_identity_twins :
    Reachable Store.afterTwins [] ∧
      Store.afterTwins.find? 0 "f" = some (.function (.twin 0)) ∧
      Store.afterTwins.find? 0 "g" = some (.function (.twin 1)) ∧
      Store.afterTwins.find? 0 "h" = some (.function (.twin 0)) ∧
      ∃ (made : List Closure) (i j : Nat), Lineage Store.afterTwins [] made ∧
        made[i]? = some (.twin 0) ∧ made[j]? = some (.twin 1) ∧ i ≠ j := by
  have hstart : Reachable (State.ofStore (Store.empty.openScope [] none).2).store [] :=
    Reachable.start.openOuter
  have hanswers : answers
      (Program.twins.run 3 0 (.ofStore (Store.empty.openScope [] none).2)).1 ++ [] = [] := by
    decide +kernel
  have hreach : Reachable Store.afterTwins [] :=
    hanswers ▸ hstart.run 3 .twins (Nat.zero_lt_one : 0 < 1)
  have hf : Store.afterTwins.find? 0 "f" = some (.function (.twin 0)) := by decide +kernel
  have hg : Store.afterTwins.find? 0 "g" = some (.function (.twin 1)) := by decide +kernel
  have hh : Store.afterTwins.find? 0 "h" = some (.function (.twin 0)) := by decide +kernel
  obtain ⟨-, -, -, -, ⟨made, hmade⟩, hidentity⟩ := equality_is_identity hreach
  obtain ⟨hsame, hplaces, -⟩ := hidentity made hmade
  obtain ⟨⟨i, hi, -⟩, -⟩ := hsame (.twin 0) (.twin 0) (.of_find? hf) (.of_find? hh) rfl
  obtain ⟨⟨j, hj, -⟩, -⟩ := hsame (.twin 1) (.twin 1) (.of_find? hg) (.of_find? hg) rfl
  refine ⟨hreach, hf, hg, hh, made, i, j, hmade, hi, hj, fun hij => ?_⟩
  exact absurd ((hplaces i j (.twin 0) (.twin 1) hi hj).2 hij) (by decide)

end Sprig
