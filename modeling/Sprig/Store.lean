import Sprig.Bindings
import Sprig.Value

/-!
# The store of scopes

Scopes are numbered in the order in which they are opened. A scope holds bindings of its own and may
lie inside an earlier one, its parent; a name is looked up in the scope itself and then in one
parent after the other. Scopes are never closed, because a function value may still refer to them, and
whoever holds the number of a scope shares it with all others who do.
-/

namespace Sprig

/-- One scope. -/
structure Scope where
  bindings : Bindings Value
  /-- The scope around it. -/
  parent : Option ScopeId

/-- All scopes, and how many function values have been made. -/
structure Store where
  scopes : Array Scope
  functions : Nat

namespace Store

/-- The store with no scope. -/
def empty : Store :=
  ⟨#[], 0⟩

/-- Opens a scope with the given bindings and parent. -/
def openScope (bindings : Bindings Value) (parent : Option ScopeId) (s : Store) : ScopeId × Store :=
  (s.scopes.size, { s with scopes := s.scopes.push ⟨bindings, parent⟩ })

/-- Binds a name in a scope, whatever the scopes around it say. -/
def set (scope : ScopeId) (name : String) (value : Value) (s : Store) : Store :=
  { s with scopes := s.scopes.modify scope fun sc =>
      { sc with bindings := sc.bindings.insert name value } }

/-- What a name is bound to in the nearest scope, going outward. -/
def find? (s : Store) (scope : ScopeId) (name : String) : Option Value :=
  match s.scopes[scope]? with
  | none => none
  | some sc =>
    match sc.bindings.find? name with
    | some value => some value
    | none =>
      match sc.parent with
      | none => none
      | some parent => if parent < scope then s.find? parent name else none
termination_by scope

/-- Makes a function value in a scope. -/
def makeFunction (params : List String) (body : Block) (scope : ScopeId) (s : Store) :
    Closure × Store :=
  (⟨s.functions, params, body, scope⟩, { s with functions := s.functions + 1 })

theorem getElem?_openScope (bindings : Bindings Value) (parent : Option ScopeId) (s : Store)
    (i : ScopeId) : (s.openScope bindings parent).2.scopes[i]? =
      if i = s.scopes.size then some ⟨bindings, parent⟩ else s.scopes[i]? :=
  Array.getElem?_push

theorem getElem?_set (scope : ScopeId) (name : String) (value : Value) (s : Store) (i : ScopeId) :
    (s.set scope name value).scopes[i]? =
      if scope = i then s.scopes[i]?.map fun sc =>
        { sc with bindings := sc.bindings.insert name value }
      else s.scopes[i]? :=
  Array.getElem?_modify

theorem size_set (scope : ScopeId) (name : String) (value : Value) (s : Store) :
    (s.set scope name value).scopes.size = s.scopes.size :=
  Array.size_modify

/-- Bindings of different names, or in different scopes, can be made in any order. -/
theorem set_comm {i j : ScopeId} {x y : String} (h : i ≠ j ∨ x ≠ y) (v w : Value) (s : Store) :
    (s.set i x v).set j y w = (s.set j y w).set i x v := by
  suffices ((s.set i x v).set j y w).scopes = ((s.set j y w).set i x v).scopes from
    congrArg (Store.mk · s.functions) this
  refine Array.ext_getElem? fun k => ?_
  simp only [getElem?_set]
  by_cases hi : i = k
  · by_cases hj : j = k
    · have hne : x ≠ y := h.resolve_left (not_not_intro (hi.trans hj.symm))
      simp only [hi, hj, if_pos, Option.map_map, Function.comp_def, Bindings.insert_comm hne]
    · simp only [if_pos hi, if_neg hj]
  · simp only [if_neg hi]

/-- A value that is found is bound in some scope. -/
theorem exists_of_find? {s : Store} {scope : ScopeId} {name : String} {value : Value}
    (h : s.find? scope name = some value) :
    ∃ (i : ScopeId) (sc : Scope), s.scopes[i]? = some sc ∧ (name, value) ∈ sc.bindings := by
  induction scope using Nat.strongRecOn with
  | ind scope ih =>
    rw [find?] at h
    split at h
    · cases h
    · next sc hsc =>
      split at h
      · next v hv =>
        cases h
        exact ⟨scope, sc, hsc, Bindings.mem_of_find? hv⟩
      · split at h
        · cases h
        · next parent _ =>
          by_cases hlt : parent < scope
          · rw [if_pos hlt] at h
            exact ih parent hlt h
          · rw [if_neg hlt] at h
            cases h

/-- The dump of a scope: its names in order, and the scopes around it. -/
def dumpScope (s : Store) (scope : ScopeId) : Dump :=
  match s.scopes[scope]? with
  | none => .word "None"
  | some sc =>
    let parent :=
      match sc.parent with
      | none => Dump.word "None"
      | some parent => if parent < scope then .node "Some" [s.dumpScope parent] else .word "None"
    .fields "Environment" [("names", .list (sc.bindings.names.map .string)), ("parent", parent)]
termination_by scope

end Store

end Sprig
