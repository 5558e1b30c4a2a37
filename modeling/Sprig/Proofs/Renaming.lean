import Sprig.Proofs.Frame
import Sprig.Proofs.Reachable

/-!
# Calls without a memory

A call leaves scopes and functions behind. What runs later gets other numbers for the scopes that it
opens and for the functions that it makes, and programs can tell two functions apart. But the
numbers only move up by as many as there are leftovers (`Gap.shift`), and a store in which they have
moved is as good as the one in which they have not (`skipping`): evaluation cannot see the
difference, because it compares numbers of functions with one another and with nothing else. Nor can
it see what a name is bound to that it does not look up, and the comparison of the two stores leaves
such names out from the start.

So a function has no state of its own: whatever has been called before, a call comes to the same.
-/

namespace Sprig

/-- Numbers that are skipped. -/
structure Gap where
  start : Nat
  length : Nat

/-- The number that stands for `i` if those in the gap are skipped. -/
def Gap.shift (g : Gap) (i : Nat) : Nat :=
  if i < g.start then i else i + g.length

namespace Gap

variable {g : Gap} {i j : Nat}

theorem shift_of_lt (h : i < g.start) : g.shift i = i :=
  if_pos h

theorem shift_of_le (h : g.start ≤ i) : g.shift i = i + g.length :=
  if_neg (Nat.not_lt.2 h)

theorem shift_lt_shift (h : i < j) : g.shift i < g.shift j := by
  unfold shift
  split <;> split <;> omega

theorem shift_inj : g.shift i = g.shift j ↔ i = j := by
  refine ⟨fun h => ?_, congrArg g.shift⟩
  rcases Nat.lt_trichotomy i j with hlt | heq | hgt
  · exact absurd h (Nat.ne_of_lt (shift_lt_shift hlt))
  · exact heq
  · exact absurd h.symm (Nat.ne_of_lt (shift_lt_shift hgt))

end Gap

section Renaming

-- The names that may be looked up, and the numbers of scopes and of functions that are skipped.
variable (visible : String → Prop) (scopes functions : Gap)

def Value.rename : Value → Value
  | .function f =>
    .function ⟨functions.shift f.id, f.params, f.body, scopes.shift f.scope⟩
  | v => v

/-- The second scope is like the first, but for the numbers that are skipped and for the names that
are not looked up. No function in it looks up any of those. -/
structure Scope.Renames (sc sc' : Scope) : Prop where
  parent_eq : sc'.parent = sc.parent.map scopes.shift
  find?_eq : ∀ name, visible name →
    sc'.bindings.find? name = (sc.bindings.find? name).map (Value.rename scopes functions)
  reads : ∀ name value, visible name → sc.bindings.find? name = some value →
    ∀ n ∈ value.reads, visible n

/-- The second store is like the first, scope by scope and but for the numbers that it skips. -/
structure Store.Renames (s t : Store) : Prop where
  start_le : scopes.start ≤ s.scopes.size
  size_eq : t.scopes.size = s.scopes.size + scopes.length
  functionsStart_le : functions.start ≤ s.functions
  functions_eq : t.functions = s.functions + functions.length
  scope : ∀ i, Option.Rel (Scope.Renames visible scopes functions) s.scopes[i]?
    t.scopes[scopes.shift i]?

end Renaming

variable {visible : String → Prop} {scopes functions : Gap} {s t : Store}

theorem Value.alike_rename (a : Value) : a.Alike (a.rename scopes functions) := by
  cases a with
  | function f => exact ⟨rfl, rfl⟩
  | _ => rfl

/-- Functions that are told apart are told apart under their new numbers. -/
theorem Value.equals_rename (a b : Value) :
    (a.rename scopes functions).equals (b.rename scopes functions) = a.equals b := by
  cases a with
  | function f =>
    cases b with
    | function g =>
      show (functions.shift f.id == functions.shift g.id) = (f.id == g.id)
      rw [Bool.eq_iff_iff, beq_iff_eq, beq_iff_eq]
      exact Gap.shift_inj
    | _ => rfl
  | _ => cases b <;> rfl

theorem Value.rename_of_isPlain {a : Value} (h : a.IsPlain) : a.rename scopes functions = a := by
  cases a with
  | function f => exact h.elim
  | _ => rfl

theorem Value.reads_of_isPlain {a : Value} (h : a.IsPlain) : a.reads = [] := by
  cases a with
  | function f => exact h.elim
  | _ => rfl

/-- Binding a name to values that belong together, on both sides. -/
theorem Scope.Renames.insert {sc sc' : Scope} (h : sc.Renames visible scopes functions sc')
    (name : String) {a : Value} (ha : ∀ n ∈ a.reads, visible n) :
    Scope.Renames visible scopes functions { sc with bindings := sc.bindings.insert name a }
      { sc' with bindings := sc'.bindings.insert name (a.rename scopes functions) } where
  parent_eq := h.parent_eq
  find?_eq other hother := by
    by_cases heq : other = name
    · rw [heq, Bindings.find?_insert_self, Bindings.find?_insert_self, Option.map_some]
    · rw [Bindings.find?_insert_of_ne heq, Bindings.find?_insert_of_ne heq, h.find?_eq other hother]
  reads other value hother hfind := by
    by_cases heq : other = name
    · rw [heq, Bindings.find?_insert_self] at hfind
      cases hfind
      exact ha
    · rw [Bindings.find?_insert_of_ne heq] at hfind
      exact h.reads other value hother hfind

namespace Store.Renames

/-- The next scope to be opened has the next number on both sides. -/
theorem shift_size (h : s.Renames visible scopes functions t) :
    scopes.shift s.scopes.size = t.scopes.size := by
  rw [Gap.shift_of_le h.start_le, h.size_eq]

theorem shift_functions (h : s.Renames visible scopes functions t) :
    functions.shift s.functions = t.functions := by
  rw [Gap.shift_of_le h.functionsStart_le, h.functions_eq]

/-- A visible name is bound to values that belong together, and they look up visible names only. -/
theorem find?_rel (h : s.Renames visible scopes functions t) (scope : ScopeId) {name : String}
    (hname : visible name) :
    Option.Rel (fun a b => b = a.rename scopes functions ∧ ∀ n ∈ a.reads, visible n)
      (s.find? scope name) (t.find? (scopes.shift scope) name) := by
  induction scope using Nat.strongRecOn with
  | ind scope ih =>
    have hscope := h.scope scope
    rw [Store.find?, Store.find?]
    generalize s.scopes[scope]? = found at hscope ⊢
    generalize t.scopes[scopes.shift scope]? = found' at hscope ⊢
    cases hscope with
    | none => exact .none
    | @some sc sc' hsc =>
      simp only [hsc.find?_eq name hname, hsc.parent_eq]
      cases hfind : Bindings.find? name sc.bindings with
      | some v => exact .some ⟨rfl, hsc.reads name v hname hfind⟩
      | none =>
        cases sc.parent with
        | none => exact .none
        | some parent =>
          -- a parent comes before its scope on both sides or on none
          by_cases hlt : parent < scope
          · simpa [hlt, Gap.shift_lt_shift hlt] using ih parent hlt
          · have hnot : ¬ scopes.shift parent < scopes.shift scope := by
              rcases Nat.lt_or_eq_of_le (Nat.not_lt.1 hlt) with hgt | rfl
              · exact Nat.not_lt_of_lt (Gap.shift_lt_shift hgt)
              · exact Nat.lt_irrefl _
            simp [hlt, hnot]

theorem set (h : s.Renames visible scopes functions t) (scope : ScopeId) (name : String) {a : Value}
    (ha : ∀ n ∈ a.reads, visible n) :
    (s.set scope name a).Renames visible scopes functions
      (t.set (scopes.shift scope) name (a.rename scopes functions)) where
  start_le := by
    rw [size_set]
    exact h.start_le
  size_eq := by
    rw [size_set, size_set]
    exact h.size_eq
  functionsStart_le := h.functionsStart_le
  functions_eq := h.functions_eq
  scope i := by
    have hscope := h.scope i
    rw [getElem?_set, getElem?_set]
    by_cases hi : scope = i
    · rw [if_pos hi, if_pos (Gap.shift_inj.2 hi)]
      generalize s.scopes[i]? = found at hscope ⊢
      generalize t.scopes[scopes.shift i]? = found' at hscope ⊢
      cases hscope with
      | none => exact .none
      | some hsc => exact .some (hsc.insert name ha)
    · rw [if_neg hi, if_neg (mt Gap.shift_inj.1 hi)]
      exact hscope

theorem openScope (h : s.Renames visible scopes functions t) {bindings : Bindings Value}
    (hreads : ∀ b ∈ bindings, ∀ n ∈ b.2.reads, visible n) (parent : ScopeId) :
    (s.openScope bindings (some parent)).2.Renames visible scopes functions
      (t.openScope (bindings.map (Prod.map id (Value.rename scopes functions)))
        (some (scopes.shift parent))).2 where
  start_le := Nat.le_trans h.start_le (s.le_openScope bindings _).1
  size_eq := by
    show (t.scopes.push _).size = (s.scopes.push _).size + _
    rw [Array.size_push, Array.size_push, h.size_eq, Nat.add_right_comm]
  functionsStart_le := h.functionsStart_le
  functions_eq := h.functions_eq
  scope i := by
    rw [getElem?_openScope, getElem?_openScope, ← h.shift_size]
    by_cases hi : i = s.scopes.size
    · rw [if_pos hi, if_pos (congrArg scopes.shift hi)]
      refine .some ⟨rfl, fun name _ => Bindings.find?_map .., fun name value _ hfind => ?_⟩
      exact hreads (name, value) (Bindings.mem_of_find? hfind)
    · rw [if_neg hi, if_neg (mt Gap.shift_inj.1 hi)]
      exact h.scope i

theorem makeFunction (h : s.Renames visible scopes functions t) (params : List String)
    (body : Block) (scope : ScopeId) :
    (s.makeFunction params body scope).2.Renames visible scopes functions
      (t.makeFunction params body (scopes.shift scope)).2 where
  start_le := h.start_le
  size_eq := h.size_eq
  functionsStart_le := Nat.le_succ_of_le h.functionsStart_le
  functions_eq := by
    show t.functions + 1 = s.functions + 1 + _
    rw [h.functions_eq, Nat.add_right_comm]
  scope := h.scope

end Store.Renames

/-- Evaluation does not see that numbers are skipped, nor what the names are bound to that it does
not look up. -/
def skipping (visible : String → Prop) (scopes functions : Gap) : Simulation where
  World := Unit
  le _ _ := True
  visible := visible
  value _ a b := b = a.rename scopes functions ∧ ∀ name ∈ a.reads, visible name
  scope _ i j := j = scopes.shift i
  value_mono _ h := h
  scope_mono _ h := h
  value_alike {_ a b} h := h.1 ▸ a.alike_rename
  value_equals {_ a b a' b'} h h' := by rw [h.1, h'.1, Value.equals_rename]
  value_plain h := by
    rw [Value.rename_of_isPlain h, Value.reads_of_isPlain h]
    exact ⟨rfl, List.forall_mem_nil _⟩
  value_reads h := h.2
  le_refl _ := trivial
  le_trans _ _ := trivial
  store _ s t := s.Renames visible scopes functions t
  find? hname h hscope := hscope ▸ h.find?_rel _ hname
  set name := by
    rintro h rfl ⟨rfl, hreads⟩
    exact ⟨(), trivial, h.set _ name hreads⟩
  makeFunction {_ s t i j} params body hreads := by
    rintro h rfl
    refine ⟨(), trivial, h.makeFunction params body i, ?_, hreads⟩
    show Value.function ⟨t.functions, params, body, scopes.shift i⟩ = _
    rw [← h.shift_functions]
    rfl
  openScope {_ s t f g args args'} := by
    intro h hfg hargs
    obtain rfl := Value.function.inj hfg.1
    have hreads : ∀ a ∈ args, ∀ name ∈ a.reads, visible name := by
      induction hargs with
      | nil => exact List.forall_mem_nil _
      | cons ha _ ih => exact List.forall_mem_cons.2 ⟨ha.2, ih⟩
    obtain rfl : args' = args.map (Value.rename scopes functions) := by
      clear hreads
      induction hargs with
      | nil => rfl
      | cons ha _ ih => rw [ha.1, ih, List.map_cons]
    refine ⟨(), trivial, ?_, h.shift_size.symm⟩
    rw [List.zip_map_right, Bindings.ofPairs_map]
    exact h.openScope (Store.forall_mem_ofPairs_zip f.params hreads) _

/-! ## Leftovers -/

/-- The scopes that the second store has in addition. -/
def Store.scopeGap (s t : Store) : Gap :=
  ⟨s.scopes.size, t.scopes.size - s.scopes.size⟩

/-- The functions that have been made since the first store. -/
def Store.functionGap (s t : Store) : Gap :=
  ⟨s.functions, t.functions - s.functions⟩

theorem Value.Known.rename_eq {a : Value} (h : a.Known s) (t : Store) :
    a.rename (s.scopeGap t) (s.functionGap t) = a := by
  cases a with
  | function f => rw [rename, Gap.shift_of_lt h.2, Gap.shift_of_lt h.1]
  | _ => rfl

/-- The second store has the scopes of the first, where visible names are bound to the same, and
maybe others. -/
structure Store.Agrees (visible : String → Prop) (s t : Store) : Prop where
  functions_le : s.functions ≤ t.functions
  scope : ∀ (i : ScopeId) (sc : Scope), s.scopes[i]? = some sc →
    ∃ sc' : Scope, t.scopes[i]? = some sc' ∧ sc'.parent = sc.parent ∧
      ∀ name, visible name → sc'.bindings.find? name = sc.bindings.find? name

/-- Functions that are bound to visible names look up visible names only. -/
def Store.ReadsVisible (visible : String → Prop) (s : Store) : Prop :=
  ∀ (i : ScopeId) (sc : Scope), s.scopes[i]? = some sc →
    ∀ b ∈ sc.bindings, visible b.1 → ∀ n ∈ b.2.reads, visible n

theorem Store.Agrees.size_le (h : s.Agrees visible t) : s.scopes.size ≤ t.scopes.size :=
  Store.size_le_of_forall fun i sc hsc => (h.scope i sc hsc).imp fun _ hsc' => hsc'.1

/-- What a sound store refers to keeps its number, and what has been added is all that is
skipped. -/
theorem Store.Agrees.renames (h : s.Agrees visible t) (hs : s.Sound)
    (hreads : s.ReadsVisible visible) :
    s.Renames visible (s.scopeGap t) (s.functionGap t) t where
  start_le := Nat.le_refl _
  size_eq := (Nat.add_sub_cancel' h.size_le).symm
  functionsStart_le := Nat.le_refl _
  functions_eq := (Nat.add_sub_cancel' h.functions_le).symm
  scope i := by
    cases hsc : s.scopes[i]? with
    | some sc =>
      have hlt : i < s.scopes.size := (Array.getElem?_eq_some_iff.1 hsc).1
      obtain ⟨sc', hsc', hparent, hfind⟩ := h.scope i sc hsc
      rw [Gap.shift_of_lt hlt, hsc']
      refine .some ⟨?_, fun name hname => ?_, fun name value hname hvalue => ?_⟩
      · rw [hparent]
        refine Option.map_id'.symm.trans (Option.map_congr fun p hp => ?_)
        exact (Gap.shift_of_lt (Nat.lt_trans (hs.parent_lt i sc hsc p hp) hlt)).symm
      · rw [hfind name hname]
        refine Option.map_id'.symm.trans (Option.map_congr fun value hvalue => ?_)
        exact ((hs.known i sc hsc _ (Bindings.mem_of_find? hvalue)).rename_eq t).symm
      · exact hreads i sc hsc _ (Bindings.mem_of_find? hvalue) hname
    | none =>
      have hle : s.scopes.size ≤ i := Array.getElem?_eq_none_iff.1 hsc
      have hnone : t.scopes[(s.scopeGap t).shift i]? = none := by
        rw [Gap.shift_of_le hle, Array.getElem?_eq_none_iff]
        show t.scopes.size ≤ i + (t.scopes.size - s.scopes.size)
        omega
      rw [hnone]
      exact .none

theorem Store.Extends.agrees (h : s.Extends (fun _ => False) t) (visible : String → Prop) :
    s.Agrees visible t where
  functions_le := h.functions_le
  scope i sc hsc := ⟨sc, h.unchanged i sc hsc id, rfl, fun _ _ => rfl⟩

/-! ## Calls -/

/-- Calls a value, with at most `limit` calls open at once. -/
def Value.call (limit : Nat) (f : Value) (args : List Value) : Eval Value :=
  fun st => f.apply (Closure.invoke limit (limit - st.depth)) args st

/-- The state after calls of values with arguments, one after the other and whatever each of them
comes to. -/
def State.afterCalls (limit : Nat) : List (Value × List Value) → State → State
  | [], st => st
  | (f, args) :: calls, st => State.afterCalls limit calls ((f.call limit args).stateAfter st)

/-- Two calls come to the same: to the same fault, or to values that look alike. -/
def SameOutcome : EStateM.Result Exit State Value → EStateM.Result Exit State Value → Prop
  | .ok a _, .ok b _ => a.Alike b
  | .error (.fault e) _, .error (.fault e') _ => e = e'
  | _, _ => False

/-- A `return` does not get out of a call. -/
theorem Value.apply_ne_returned {limit budget : Nat} {f v : Value} {args : List Value}
    {st st' : State} :
    f.apply (Closure.invoke limit budget) args st ≠ .error (.returned v) st' := by
  cases f with
  | function f =>
    cases budget with
    | zero => nofun
    | succ budget =>
      show Eval.asCall _ st ≠ _
      unfold Eval.asCall
      split <;> nofun
  | builtin b =>
    show Eval.ofExcept (b.call args).toExcept st ≠ _
    cases (b.call args).toExcept <;> nofun
  | _ => nofun

/-- What has been added to a sound store makes no difference to a call of what was there before. -/
theorem Store.Sound.sameOutcome {limit : Nat} {st st' : State} (hs : st.store.Sound)
    (h : st.store.Extends (fun _ => False) st'.store) (hdepth : st'.depth = st.depth) {f : Value}
    (hf : f.Known st.store) {args : List Value} (hargs : ∀ a ∈ args, a.Known st.store) :
    SameOutcome (f.call limit args st) (f.call limit args st') := by
  -- what was there keeps its number
  let S := skipping (fun _ => True) (st.store.scopeGap st'.store) (st.store.functionGap st'.store)
  have hvalue : ∀ {a : Value}, a.Known st.store → S.value () a a := fun ha =>
    ⟨(ha.rename_eq st'.store).symm, fun _ _ => trivial⟩
  have hstore : S.store () st.store st'.store :=
    (h.agrees _).renames hs fun _ _ _ _ _ _ _ _ => trivial
  have hargs' : S.values () args args := List.forall₂_same.2 fun a ha => hvalue (hargs a ha)
  have houtcomes := S.toComparison.apply (S.invoke limit (limit - st.depth)) (hvalue hf) hargs'
    st st' hstore
  unfold Value.call
  rw [hdepth]
  generalize hr : f.apply (Closure.invoke limit (limit - st.depth)) args st = r at houtcomes ⊢
  generalize f.apply (Closure.invoke limit (limit - st.depth)) args st' = r' at houtcomes ⊢
  cases houtcomes with
  | ok _ _ _ _ h => exact S.value_alike h
  | returned => exact absurd hr Value.apply_ne_returned
  | fault => rfl

/-- What calls leave behind changes nothing that was there before. -/
theorem extends_afterCalls (limit : Nat) {st : State} (h : s.Extends (fun _ => False) st.store)
    (calls : List (Value × List Value)) :
    s.Extends (fun _ => False) (st.afterCalls limit calls).store ∧
      (st.afterCalls limit calls).depth = st.depth := by
  induction calls generalizing st with
  | nil => exact ⟨h, rfl⟩
  | cons c calls ih =>
    obtain ⟨hstore, hdepth⟩ := frame_apply h limit (limit - st.depth) c.1 c.2
    obtain ⟨hstore', hdepth'⟩ := ih hstore
    exact ⟨hstore', hdepth'.trans hdepth⟩

/-- **Functions have no hidden state.** In a store that a host can bring about, a call of a value
that the host holds, with arguments that it holds, comes to the same after any calls as before them:
to the same fault, to the same value that is no function, or to a function of the same text. -/
theorem call_forgets_history {st : State} {vs : List Value} (h : Reachable st.store vs)
    (limit : Nat) {f : Value} (hf : f ∈ vs) {args : List Value} (hargs : ∀ a ∈ args, a ∈ vs)
    (calls : List (Value × List Value)) :
    SameOutcome (f.call limit args st) (f.call limit args (st.afterCalls limit calls)) := by
  obtain ⟨hs, hknown⟩ := h.sound
  obtain ⟨hextends, hdepth⟩ := extends_afterCalls limit (.refl _ st.store) calls
  exact hs.sameOutcome hextends hdepth (hknown f hf) fun a ha => hknown a (hargs a ha)

/-- The first function of a host, which makes a function. -/
def Closure.maker : Closure :=
  ⟨0, [], [.expr (.fn ["x"] [.expr (.ident "x")])], 0⟩

/-- The earlier calls leave functions behind, and the last one makes another. Yet it comes to the
same. -/
theorem call_forgets_history_maker :
    let f := Value.function .maker
    let store := (Store.empty.openScope [] none).2
    let st := State.ofStore (store.makeFunction [] Closure.maker.body 0).2
    (st.afterCalls 1 [(f, []), (f, [.null]), (f, [])]).store.functions = 3 ∧
      SameOutcome (f.call 1 [] st)
        (f.call 1 [] (st.afterCalls 1 [(f, []), (f, [.null]), (f, [])])) := by
  intro f store st
  have hscopes : Reachable store [] := Reachable.start.openOuter
  have hreachable : Reachable st.store [f] := hscopes.function [] Closure.maker.body Nat.zero_lt_one
  have hleft : (st.afterCalls 1 [(f, []), (f, [.null]), (f, [])]).store.functions = 3 := by
    decide +kernel
  refine ⟨hleft, call_forgets_history hreachable 1 ?_ (List.forall_mem_nil _) _⟩
  exact List.mem_singleton.2 rfl

end Sprig
