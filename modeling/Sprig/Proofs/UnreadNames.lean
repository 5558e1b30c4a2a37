import Sprig.Proofs.Renaming

/-!
# Names that are not looked up

What a name is bound to matters to a run only if the name is looked up: by the program, or by a
function that the program can get hold of. Such a function is bound to a name that is looked up, or
it is made on the way. So if neither the program nor any function that is bound to another name
looks up `x`, then nobody does, and `x` may be bound to anything in any scope.

A host that binds `x` to something new has opened scopes and made functions for it, and so numbers
are skipped in what follows; hence the result is the same up to these numbers. If the host made
nothing, it is the very same.
-/

namespace Sprig

/-! ## Skipping nothing -/

section Nothing

variable {visible : String → Prop} {scopes functions : Gap} {s t : Store}

theorem Gap.shift_of_length_eq_zero {g : Gap} (h : g.length = 0) (i : Nat) : g.shift i = i := by
  unfold shift
  split
  · rfl
  · rw [h, Nat.add_zero]

theorem Value.rename_of_length_eq_zero (hscopes : scopes.length = 0)
    (hfunctions : functions.length = 0) (a : Value) : a.rename scopes functions = a := by
  cases a with
  | function f =>
    rw [rename, Gap.shift_of_length_eq_zero hscopes, Gap.shift_of_length_eq_zero hfunctions]
  | _ => rfl

/-- The second store has nothing in addition if the first one has all of it. -/
theorem Store.Agrees.gap_length (h : t.Agrees visible s) :
    (s.scopeGap t).length = 0 ∧ (s.functionGap t).length = 0 :=
  ⟨Nat.sub_eq_zero_of_le h.size_le, Nat.sub_eq_zero_of_le h.functions_le⟩

/-- A store that skips nothing agrees, and so does the other one with it. -/
theorem Store.Renames.agrees (h : s.Renames visible scopes functions t)
    (hscopes : scopes.length = 0) (hfunctions : functions.length = 0) :
    s.Agrees visible t ∧ t.Agrees visible s := by
  have hcount : t.functions = s.functions := by rw [h.functions_eq, hfunctions, Nat.add_zero]
  have hscope : ∀ i : ScopeId, Option.Rel (Scope.Renames visible scopes functions) s.scopes[i]?
      t.scopes[i]? := by
    intro i
    have hi := h.scope i
    rwa [Gap.shift_of_length_eq_zero hscopes] at hi
  have hsame : ∀ {sc sc' : Scope}, sc.Renames visible scopes functions sc' →
      sc'.parent = sc.parent ∧
        ∀ name, visible name → sc'.bindings.find? name = sc.bindings.find? name := by
    intro sc sc' hsc
    refine ⟨hsc.parent_eq.trans ?_, fun name hname => (hsc.find?_eq name hname).trans ?_⟩
    · rw [funext (Gap.shift_of_length_eq_zero hscopes), Option.map_id']
    · rw [funext (Value.rename_of_length_eq_zero hscopes hfunctions), Option.map_id']
  refine ⟨⟨Nat.le_of_eq hcount.symm, fun i sc hsc => ?_⟩,
    ⟨Nat.le_of_eq hcount, fun i sc' hsc' => ?_⟩⟩
  · have hi := hscope i
    rw [hsc] at hi
    generalize t.scopes[i]? = found at hi
    cases hi with
    | some hi =>
      obtain ⟨hparent, hfind⟩ := hsame hi
      exact ⟨_, rfl, hparent, hfind⟩
  · have hi := hscope i
    rw [hsc'] at hi
    generalize s.scopes[i]? = found at hi
    cases hi with
    | some hi =>
      obtain ⟨hparent, hfind⟩ := hsame hi
      exact ⟨_, rfl, hparent.symm, fun name hname => (hfind name hname).symm⟩

end Nothing

/-! ## What a host may do meanwhile -/

namespace Store.Agrees

variable {visible : String → Prop} {s t : Store}

theorem refl (visible : String → Prop) (s : Store) : s.Agrees visible s :=
  ⟨Nat.le_refl _, fun _ sc hsc => ⟨sc, hsc, rfl, fun _ _ => rfl⟩⟩

theorem makeFunction (h : s.Agrees visible t) (params : List String) (body : Block)
    (scope : ScopeId) : s.Agrees visible (t.makeFunction params body scope).2 :=
  ⟨Nat.le_succ_of_le h.functions_le, h.scope⟩

theorem openScope (h : s.Agrees visible t) (bindings : Bindings Value) (parent : Option ScopeId) :
    s.Agrees visible (t.openScope bindings parent).2 := by
  refine ⟨h.functions_le, fun i sc hsc => ?_⟩
  have hlt := (Array.getElem?_eq_some_iff.1 hsc).1
  rw [getElem?_openScope, if_neg (Nat.ne_of_lt (Nat.lt_of_lt_of_le hlt h.size_le))]
  exact h.scope i sc hsc

/-- A name that is not visible is bound to anything, in any scope. -/
theorem set (h : s.Agrees visible t) (scope : ScopeId) {name : String} (hname : ¬ visible name)
    (value : Value) : s.Agrees visible (t.set scope name value) := by
  refine ⟨h.functions_le, fun i sc hsc => ?_⟩
  obtain ⟨sc', hsc', hparent, hfind⟩ := h.scope i sc hsc
  rw [getElem?_set, hsc']
  by_cases hi : scope = i
  · rw [if_pos hi]
    refine ⟨_, rfl, hparent, fun other hother => ?_⟩
    have hne : other ≠ name := by
      rintro rfl
      exact hname hother
    rw [← hfind other hother]
    exact Bindings.find?_insert_of_ne hne value sc'.bindings
  · rw [if_neg hi]
    exact ⟨sc', rfl, hparent, hfind⟩

end Store.Agrees

/-! ## Runs -/

/-- **What a name is bound to does not matter to those who do not look it up.** Let a host have
brought about a store in which no function that is bound to a name other than `x` looks up `x`, and
let the program not look it up either. From any store that has the same scopes with the same
bindings of all other names, the program comes to the same with every limit, its faults included,
and it leaves the same bindings of all other names in every scope. If the second store has scopes
and functions in addition, then all this is up to the numbers that these have taken. The program and
the functions may bind `x` themselves, as long as none of them looks it up. -/
theorem unread_name_irrelevant {st : State} {vs : List Value} (h : Reachable st.store vs)
    {x : String} (hbound : ∀ (i : ScopeId) (sc : Scope), st.store.scopes[i]? = some sc →
      ∀ b ∈ sc.bindings, b.1 ≠ x → x ∉ b.2.reads)
    {p : Program} (hp : x ∉ p.reads) {st' : State} (hst' : st.store.Agrees (· ≠ x) st'.store)
    (hdepth : st.depth = st'.depth) (limit : Nat) {scope : ScopeId}
    (hscope : scope < st.store.scopes.size) :
    let scopes := st.store.scopeGap st'.store
    let functions := st.store.functionGap st'.store
    let r := p.run limit scope st
    let r' := p.run limit scope st'
    r'.1 = r.1.map (Option.map (Value.rename scopes functions)) ∧
      r.2.store.Renames (· ≠ x) scopes functions r'.2.store ∧
      (st'.store.Agrees (· ≠ x) st.store →
        r'.1 = r.1 ∧ r.2.store.Agrees (· ≠ x) r'.2.store ∧
          r'.2.store.Agrees (· ≠ x) r.2.store) := by
  intro scopes functions r r'
  obtain ⟨hs, -⟩ := h.sound
  have hreads : st.store.ReadsVisible (· ≠ x) := by
    rintro i sc hsc b hb hne n hn rfl
    exact hbound i sc hsc b hb hne hn
  have hprogram : ∀ name ∈ p.reads, name ≠ x := by
    rintro name hname rfl
    exact hp hname
  have hplace : scope = scopes.shift scope := (Gap.shift_of_lt hscope).symm
  obtain ⟨_, -, hstore, hresults⟩ := (skipping (· ≠ x) scopes functions).run limit p (w := ())
    hprogram hplace (hst'.renames hs hreads) hdepth
  have hresult : r'.1 = r.1.map (Option.map (Value.rename scopes functions)) :=
    Simulation.eq_map_of_results And.left hresults
  refine ⟨hresult, hstore, fun hback => ?_⟩
  obtain ⟨hscopes, hfunctions⟩ := hback.gap_length
  refine ⟨hresult.trans ?_, hstore.agrees hscopes hfunctions⟩
  exact Simulation.map_result_eq_self (Value.rename_of_length_eq_zero hscopes hfunctions) r.1

/-- Makes a function that calls `f`. -/
def Program.callLater : Program :=
  ⟨[.expr (.fn [] [.expr (.call (.ident "f") [])])]⟩

/-- The host opens a scope, makes a function in it that looks up `x`, and binds `x` to it. The
function that is made by the run is then the third one instead of the second. -/
theorem unread_name_irrelevant_callLater :
    let f : Closure := ⟨0, ["y"], [.expr (.ident "y")], 0⟩
    let g : Closure := ⟨1, [], [.expr (.ident "x")], 1⟩
    let scopes := (Store.empty.openScope [] none).2
    let s := (scopes.makeFunction f.params f.body 0).2.set 0 "f" (.function f)
    let t := ((s.openScope [] (some 0)).2.makeFunction g.params g.body 1).2.set 0 "x" (.function g)
    (Program.callLater.run 1 0 (.ofStore s)).1 =
        .ok (some (.function ⟨1, [], [.expr (.call (.ident "f") [])], 0⟩)) ∧
      (Program.callLater.run 1 0 (.ofStore t)).1 =
        .ok (some (.function ⟨2, [], [.expr (.call (.ident "f") [])], 0⟩)) := by
  intro f g scopes s t
  have hscopes : Reachable scopes [] := Reachable.start.openOuter
  have hmade := hscopes.function f.params f.body Nat.zero_lt_one
  have hreachable : Reachable (State.ofStore s).store [.function f] :=
    hmade.set 0 "f" (List.mem_singleton.2 rfl)
  have hbound : ∀ (i : ScopeId) (sc : Scope), s.scopes[i]? = some sc →
      ∀ b ∈ sc.bindings, b.1 ≠ "x" → "x" ∉ b.2.reads := by
    rintro (_ | i) sc hsc b hb -
    · cases hsc
      obtain rfl := List.mem_singleton.1 hb
      decide
    · cases hsc
  have hopened : s.Agrees (· ≠ "x") (s.openScope [] (some 0)).2 :=
    (Store.Agrees.refl _ s).openScope [] (some 0)
  have hagrees : (State.ofStore s).store.Agrees (· ≠ "x") (State.ofStore t).store :=
    (hopened.makeFunction g.params g.body 1).set 0 (not_not_intro rfl) _
  have hresult : (Program.callLater.run 1 0 (.ofStore s)).1 =
      .ok (some (.function ⟨1, [], [.expr (.call (.ident "f") [])], 0⟩)) := by decide +kernel
  obtain ⟨hsame, -⟩ := unread_name_irrelevant hreachable hbound (p := .callLater) (by decide)
    hagrees rfl 1 Nat.zero_lt_one
  refine ⟨hresult, hsame.trans ?_⟩
  rw [hresult]
  rfl

end Sprig
