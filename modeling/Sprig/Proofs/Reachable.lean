import Sprig.Proofs.Simulation

/-!
# Stores that can come about

A host of the language opens scopes, binds names in them, looks names up and runs programs, in any
order, and holds the values that it got in this way or made itself. `Reachable` describes the stores
that come about, each with the values in the hands of the host. All of them are sound
(`Reachable.sound`): the parent of a scope was opened before it, and every function refers to a
scope that is there.
-/

namespace Sprig

/-- The value belongs to the store: if it is a function, then its scope is there, and its number has
been given to a function. -/
def Value.Known (s : Store) : Value → Prop
  | .function f => f.scope < s.scopes.size ∧ f.id < s.functions
  | _ => True

namespace Store

/-- There are at least as many scopes and functions in the second store. -/
def Le (s t : Store) : Prop :=
  s.scopes.size ≤ t.scopes.size ∧ s.functions ≤ t.functions

theorem Le.refl (s : Store) : s.Le s :=
  ⟨Nat.le_refl _, Nat.le_refl _⟩

theorem Le.trans {s t u : Store} (h : s.Le t) (h' : t.Le u) : s.Le u :=
  ⟨Nat.le_trans h.1 h'.1, Nat.le_trans h.2 h'.2⟩

theorem le_set (s : Store) (scope : ScopeId) (name : String) (value : Value) :
    s.Le (s.set scope name value) :=
  ⟨Nat.le_of_eq (size_set scope name value s).symm, Nat.le_refl _⟩

theorem le_openScope (s : Store) (bindings : Bindings Value) (parent : Option ScopeId) :
    s.Le (s.openScope bindings parent).2 := by
  refine ⟨?_, Nat.le_refl _⟩
  show s.scopes.size ≤ (s.scopes.push ⟨bindings, parent⟩).size
  rw [Array.size_push]
  exact Nat.le_succ _

theorem le_makeFunction (s : Store) (params : List String) (body : Block) (scope : ScopeId) :
    s.Le (s.makeFunction params body scope).2 :=
  ⟨Nat.le_refl _, Nat.le_succ _⟩

/-- A scope after a name was bound comes from one before, with one more binding at most. -/
theorem exists_of_getElem?_set {s : Store} {scope i : ScopeId} {name : String} {value : Value}
    {sc : Scope} (h : (s.set scope name value).scopes[i]? = some sc) :
    ∃ sc' : Scope, s.scopes[i]? = some sc' ∧ sc.parent = sc'.parent ∧
      ∀ b ∈ sc.bindings, b = (name, value) ∨ b ∈ sc'.bindings := by
  rw [getElem?_set] at h
  by_cases hi : scope = i
  · rw [if_pos hi] at h
    obtain ⟨sc', hsc', rfl⟩ := Option.map_eq_some_iff.1 h
    exact ⟨sc', hsc', rfl, fun b hb => Bindings.mem_insert hb⟩
  · rw [if_neg hi] at h
    exact ⟨sc, h, rfl, fun b hb => .inr hb⟩

/-- All that is bound in the store has the property. -/
def AllBound (P : Value → Prop) (s : Store) : Prop :=
  ∀ (i : ScopeId) (sc : Scope), s.scopes[i]? = some sc → ∀ b ∈ sc.bindings, P b.2

namespace AllBound

variable {P Q : Value → Prop} {s : Store}

theorem mono (h : s.AllBound P) (hPQ : ∀ v, P v → Q v) : s.AllBound Q :=
  fun i sc hsc b hb => hPQ b.2 (h i sc hsc b hb)

theorem of_find? (h : s.AllBound P) {scope : ScopeId} {name : String} {value : Value}
    (hfind : s.find? scope name = some value) : P value := by
  obtain ⟨i, sc, hsc, hmem⟩ := exists_of_find? hfind
  exact h i sc hsc (name, value) hmem

theorem set (h : s.AllBound P) (scope : ScopeId) (name : String) {value : Value}
    (hvalue : P value) : (s.set scope name value).AllBound P := by
  intro i sc hsc b hb
  obtain ⟨sc', hsc', -, hbindings⟩ := exists_of_getElem?_set hsc
  rcases hbindings b hb with rfl | hb
  · exact hvalue
  · exact h i sc' hsc' b hb

theorem openScope (h : s.AllBound P) {bindings : Bindings Value} (parent : Option ScopeId)
    (hbindings : ∀ b ∈ bindings, P b.2) : (s.openScope bindings parent).2.AllBound P := by
  intro i sc hsc
  rw [getElem?_openScope] at hsc
  split at hsc
  · cases hsc
    exact hbindings
  · exact h i sc hsc

end AllBound

/-- What the parameters of a call are bound to are its arguments. -/
theorem forall_mem_ofPairs_zip {P : Value → Prop} (params : List String) {args : List Value}
    (h : ∀ a ∈ args, P a) : ∀ b ∈ Bindings.ofPairs (params.zip args), P b.2 :=
  fun b hb => h b.2 (List.of_mem_zip (Bindings.mem_ofPairs hb)).2

end Store

theorem Value.Known.mono {s t : Store} {v : Value} (h : v.Known s) (hle : s.Le t) : v.Known t := by
  cases v with
  | function f => exact ⟨Nat.lt_of_lt_of_le h.1 hle.1, Nat.lt_of_lt_of_le h.2 hle.2⟩
  | _ => trivial

/-- Nothing in the store refers to anything that is not there. -/
structure Store.Sound (s : Store) : Prop where
  /-- The parent of a scope was opened before it. -/
  parent_lt : ∀ (i : ScopeId) (sc : Scope), s.scopes[i]? = some sc → ∀ p ∈ sc.parent, p < i
  /-- What is bound belongs to the store. -/
  known : ∀ (i : ScopeId) (sc : Scope), s.scopes[i]? = some sc → ∀ b ∈ sc.bindings, b.2.Known s

namespace Store.Sound

variable {s : Store}

theorem empty : Store.empty.Sound :=
  ⟨nofun, nofun⟩

theorem known_of_find? (h : s.Sound) {scope : ScopeId} {name : String} {value : Value}
    (hfind : s.find? scope name = some value) : value.Known s :=
  AllBound.of_find? h.known hfind

theorem set (h : s.Sound) (scope : ScopeId) (name : String) {value : Value}
    (hvalue : value.Known s) : (s.set scope name value).Sound := by
  constructor
  · intro i sc hsc
    obtain ⟨sc', hsc', hparent, -⟩ := exists_of_getElem?_set hsc
    rw [hparent]
    exact h.parent_lt i sc' hsc'
  · exact (AllBound.set h.known scope name hvalue).mono fun v hv => hv.mono (s.le_set ..)

theorem openScope (h : s.Sound) {bindings : Bindings Value} {parent : Option ScopeId}
    (hbindings : ∀ b ∈ bindings, b.2.Known s) (hparent : ∀ p ∈ parent, p < s.scopes.size) :
    (s.openScope bindings parent).2.Sound := by
  constructor
  · intro i sc hsc
    rw [getElem?_openScope] at hsc
    split at hsc
    · next hi =>
      cases hsc
      exact hi ▸ hparent
    · exact h.parent_lt i sc hsc
  · exact (AllBound.openScope h.known parent hbindings).mono
      fun v hv => hv.mono (s.le_openScope ..)

theorem makeFunction (h : s.Sound) (params : List String) (body : Block) (scope : ScopeId) :
    (s.makeFunction params body scope).2.Sound :=
  ⟨h.parent_lt, fun i sc hsc b hb => (h.known i sc hsc b hb).mono (s.le_makeFunction ..)⟩

end Store.Sound

/-- Evaluation keeps a store sound. What has been learnt so far is the store itself. -/
def soundness : Invariant where
  World := Store
  le := Store.Le
  le_refl := .refl
  le_trans := .trans
  store w s := w = s ∧ s.Sound
  value w a := a.Known w
  scope w i := i < w.scopes.size
  value_mono hle h := h.mono hle
  scope_mono hle h := Nat.lt_of_lt_of_le h hle.1
  value_plain {w a} h := by
    cases a with
    | function f => exact h.elim
    | _ => trivial
  find? := by
    rintro w s i name a ⟨rfl, hs⟩ - hfind
    exact hs.known_of_find? hfind
  set name := by
    rintro ⟨rfl, hs⟩ - ha
    exact ⟨_, Store.le_set .., rfl, hs.set _ name ha⟩
  makeFunction params body := by
    rintro ⟨rfl, hs⟩ hi
    exact ⟨_, Store.le_makeFunction .., ⟨rfl, hs.makeFunction params body _⟩, hi,
      Nat.lt_succ_self _⟩
  openScope {w s f args} := by
    rintro ⟨rfl, hs⟩ hf hargs
    have hbindings := Store.forall_mem_ofPairs_zip f.params hargs
    refine ⟨_, Store.le_openScope .., ⟨rfl, hs.openScope hbindings ?_⟩, ?_⟩
    · rintro _ ⟨⟩
      exact hf.1
    · show w.scopes.size < (w.scopes.push _).size
      rw [Array.size_push]
      exact Nat.lt_succ_self _

/-! ## Hosts -/

/-- The values that a run hands to the host. -/
def answers : Except Fault (Option Value) → List Value
  | .ok v => v.toList
  | .error _ => []

/-- A store that a host can bring about, with the values that it holds then. -/
inductive Reachable : Store → List Value → Prop where
  | start : Reachable .empty []
  /-- Opens a scope, on its own or inside one that is there. -/
  | openScope {s : Store} {vs : List Value} (h : Reachable s vs) {parent : Option ScopeId}
      (hparent : ∀ p ∈ parent, p < s.scopes.size) : Reachable (s.openScope [] parent).2 vs
  /-- Makes a value that is no function. -/
  | data {s : Store} {vs : List Value} (h : Reachable s vs) {v : Value}
      (hv : ∀ f, v ≠ .function f) : Reachable s (v :: vs)
  /-- Makes a function. -/
  | function {s : Store} {vs : List Value} (h : Reachable s vs) (params : List String)
      (body : Block) {scope : ScopeId} (hscope : scope < s.scopes.size) :
      Reachable (s.makeFunction params body scope).2
        (.function (s.makeFunction params body scope).1 :: vs)
  /-- Binds a name to a value. -/
  | set {s : Store} {vs : List Value} (h : Reachable s vs) (scope : ScopeId) (name : String)
      {v : Value} (hv : v ∈ vs) : Reachable (s.set scope name v) vs
  /-- Looks a name up. -/
  | get {s : Store} {vs : List Value} (h : Reachable s vs) {scope : ScopeId} {name : String}
      {v : Value} (hv : s.find? scope name = some v) : Reachable s (v :: vs)
  /-- Runs a program, with any evaluator and however it ends. -/
  | run {st : State} {vs : List Value} (h : Reachable st.store vs) (limit : Nat) (p : Program)
      {scope : ScopeId} (hscope : scope < st.store.scopes.size) :
      Reachable (p.run limit scope st).2.store (answers (p.run limit scope st).1 ++ vs)

/-- A scope can be opened on its own at any time. -/
theorem Reachable.openOuter {s : Store} {vs : List Value} (h : Reachable s vs) :
    Reachable (s.openScope [] none).2 vs :=
  h.openScope fun p hp => absurd hp (Option.not_mem_none p)

/-- **What a host brings about is sound**, and the values it holds belong to the store. -/
theorem Reachable.sound {s : Store} {vs : List Value} (h : Reachable s vs) :
    s.Sound ∧ ∀ v ∈ vs, v.Known s := by
  induction h with
  | start => exact ⟨.empty, List.forall_mem_nil _⟩
  | openScope _ hparent ih =>
    exact ⟨ih.1.openScope (List.forall_mem_nil _) hparent,
      fun v hv => (ih.2 v hv).mono (Store.le_openScope ..)⟩
  | @data s vs _ v hv ih =>
    refine ⟨ih.1, List.forall_mem_cons.2 ⟨?_, ih.2⟩⟩
    cases v with
    | function f => exact absurd rfl (hv f)
    | _ => trivial
  | function _ params body hscope ih =>
    refine ⟨ih.1.makeFunction params body _, List.forall_mem_cons.2 ⟨?_, fun v hv => ?_⟩⟩
    · exact ⟨hscope, Nat.lt_succ_self _⟩
    · exact (ih.2 v hv).mono (Store.le_makeFunction ..)
  | set _ scope name hv ih =>
    exact ⟨ih.1.set scope name (ih.2 _ hv), fun v hv => (ih.2 v hv).mono (Store.le_set ..)⟩
  | get _ hv ih => exact ⟨ih.1, List.forall_mem_cons.2 ⟨ih.1.known_of_find? hv, ih.2⟩⟩
  | @run st vs _ limit p scope hscope ih =>
    obtain ⟨w, hle, ⟨rfl, hs⟩, hresult⟩ :=
      Invariant.run (I := soundness) limit p hscope ⟨rfl, ih.1⟩
    refine ⟨hs, fun v hv => ?_⟩
    rcases List.mem_append.1 hv with hv | hv
    · cases hr : (p.run limit scope st).1 with
      | error e =>
        rw [hr] at hv
        cases hv
      | ok a =>
        rw [hr] at hv
        exact hresult a hr v (Option.mem_toList.1 hv)
    · exact (ih.2 v hv).mono hle

end Sprig
