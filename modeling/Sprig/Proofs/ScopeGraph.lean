import Sprig.Proofs.Reachable

/-!
# The graph of scopes

A scope can hold a function that refers to the very same scope, so scopes and functions refer to one
another in circles. Parents do not: each was opened before its scope, and so the way outward from a
scope comes to an end (`Store.Outward`), however a host has brought the store about. What goes this
way ends with it, be it the search for a name or the dump of a scope. To show a value, no scope is
looked at.
-/

namespace Sprig

namespace Store

/-- The scopes on the way outward from a scope, up to one without a parent. A parent is followed
wherever it leads. -/
inductive Outward (s : Store) : ScopeId → List Scope → Prop where
  | root {i : ScopeId} {sc : Scope} (hsc : s.scopes[i]? = some sc) (hroot : sc.parent = none) :
      Outward s i [sc]
  | step {i p : ScopeId} {sc : Scope} {path : List Scope} (hsc : s.scopes[i]? = some sc)
      (hparent : sc.parent = some p) (h : Outward s p path) : Outward s i (sc :: path)

/-- The dump of a scope from those on the way outward. -/
def dumpPath : List Scope → Option Dump
  | [] => none
  | sc :: path =>
    some (.fields "Environment" [("names", .list (sc.bindings.names.map .string)),
      ("parent", .option (dumpPath path))])

variable {s : Store} {i : ScopeId} {path path' : List Scope}

/-- There is only one way outward. -/
theorem Outward.eq (h : s.Outward i path) (h' : s.Outward i path') : path = path' := by
  induction h generalizing path' with
  | root hsc hroot =>
    cases h' with
    | root hsc' =>
      rw [hsc] at hsc'
      rw [Option.some.inj hsc']
    | step hsc' hparent =>
      rw [hsc] at hsc'
      cases hsc'
      rw [hroot] at hparent
      cases hparent
  | step hsc hparent _ ih =>
    cases h' with
    | root hsc' hroot =>
      rw [hsc] at hsc'
      cases hsc'
      rw [hroot] at hparent
      cases hparent
    | step hsc' hparent' h' =>
      rw [hsc] at hsc'
      cases hsc'
      rw [hparent] at hparent'
      cases hparent'
      rw [ih h']

/-- **The way outward comes to an end**: a scope has at most as many others around it as were opened
before. -/
theorem Sound.exists_outward (hs : s.Sound) (hi : i < s.scopes.size) :
    ∃ path, s.Outward i path ∧ path.length ≤ i + 1 := by
  induction i using Nat.strongRecOn with
  | ind i ih =>
    have hsc : s.scopes[i]? = some s.scopes[i] := Array.getElem?_eq_getElem hi
    cases hparent : s.scopes[i].parent with
    | none => exact ⟨_, .root hsc hparent, Nat.le_add_left 1 i⟩
    | some p =>
      have hlt : p < i := hs.parent_lt i _ hsc p hparent
      obtain ⟨path, hpath, hlength⟩ := ih p hlt (Nat.lt_trans hlt hi)
      exact ⟨_, .step hsc hparent hpath, Nat.succ_le_succ (Nat.le_trans hlength hlt)⟩

/-- A name is looked up along the way outward. -/
theorem Outward.find?_eq_of_parent_lt (h : s.Outward i path)
    (hs : ∀ (i : ScopeId) (sc : Scope), s.scopes[i]? = some sc → ∀ p ∈ sc.parent, p < i)
    (name : String) : s.find? i name = path.findSome? fun sc => sc.bindings.find? name := by
  induction h with
  | @root i sc hsc hroot =>
    rw [find?, List.findSome?_cons]
    simp only [hsc, hroot, List.findSome?_nil]
    cases sc.bindings.find? name <;> rfl
  | @step i p sc path hsc hparent _ ih =>
    have hlt : p < i := hs i sc hsc p hparent
    rw [find?, List.findSome?_cons]
    simp only [hsc, hparent, if_pos hlt, ih]
    cases sc.bindings.find? name <;> rfl

theorem Outward.find?_eq (h : s.Outward i path) (hs : s.Sound) (name : String) :
    s.find? i name = path.findSome? fun sc => sc.bindings.find? name :=
  h.find?_eq_of_parent_lt hs.parent_lt name

/-- The scopes along the way outward are what is dumped. -/
theorem Outward.dumpScope_eq_of_parent_lt (h : s.Outward i path)
    (hs : ∀ (i : ScopeId) (sc : Scope), s.scopes[i]? = some sc → ∀ p ∈ sc.parent, p < i) :
    some (s.dumpScope i) = dumpPath path := by
  induction h with
  | root hsc hroot =>
    rw [dumpScope]
    simp only [hsc, hroot]
    rfl
  | @step i p sc path hsc hparent _ ih =>
    have hlt : p < i := hs i sc hsc p hparent
    rw [dumpScope, dumpPath, ← ih]
    simp only [hsc, hparent, if_pos hlt]
    rfl

theorem Outward.dumpScope_eq (h : s.Outward i path) (hs : s.Sound) :
    some (s.dumpScope i) = dumpPath path :=
  h.dumpScope_eq_of_parent_lt hs.parent_lt

end Store

/-- What a function refers to is not shown: functions of the same text look the same. -/
theorem Value.Alike.shown_eq {a b : Value} (h : a.Alike b) :
    a.display = b.display ∧ a.tagged = b.tagged ∧ a.dump = b.dump := by
  obtain rfl | ⟨f, g, rfl, rfl, hparams, hbody⟩ := h.eq_or_function
  · exact ⟨rfl, rfl, rfl⟩
  · simp only [display, tagged, dump, hparams, hbody, and_self]

/-- **The graph of scopes stays well founded.** In a store that a host can bring about, by opening
scopes, binding names and running programs, however these end: the parent of a scope was opened
before it; every function that is bound, returned or held refers to a scope that is there; and from
every scope there is one way outward, which ends after at most as many scopes as were opened up to
it. So the search for a name and the dump of a scope, which go that way, end. Showing a value ends
as well, for it does not go from a function to its scope. -/
theorem scopes_wellFounded {s : Store} {vs : List Value} (h : Reachable s vs) :
    (∀ (i : ScopeId) (sc : Scope), s.scopes[i]? = some sc →
      (∀ p ∈ sc.parent, p < i ∧ p < s.scopes.size) ∧
        ∀ name f, (name, .function f) ∈ sc.bindings → f.scope < s.scopes.size) ∧
      (∀ f, .function f ∈ vs → f.scope < s.scopes.size) ∧
      (∀ i < s.scopes.size, ∃ path, s.Outward i path ∧
        (∀ path', s.Outward i path' → path' = path) ∧ path.length ≤ i + 1 ∧
        (∀ name, s.find? i name = path.findSome? fun sc => sc.bindings.find? name) ∧
        some (s.dumpScope i) = Store.dumpPath path) ∧
      ∀ a b : Value, a.Alike b → a.display = b.display ∧ a.tagged = b.tagged ∧ a.dump = b.dump := by
  obtain ⟨hs, hknown⟩ := h.sound
  refine ⟨fun i sc hsc => ⟨fun p hp => ?_, fun name f hf => ?_⟩, fun f hf => (hknown _ hf).1,
    fun i hi => ?_, fun _ _ => Value.Alike.shown_eq⟩
  · have hlt := hs.parent_lt i sc hsc p hp
    exact ⟨hlt, Nat.lt_trans hlt (Array.getElem?_eq_some_iff.1 hsc).1⟩
  · exact (hs.known i sc hsc _ hf).1
  · obtain ⟨path, hpath, hlength⟩ := hs.exists_outward hi
    exact ⟨path, hpath, fun _ hpath' => hpath'.eq hpath, hlength, hpath.find?_eq hs,
      hpath.dumpScope_eq hs⟩

/-- Binds a name to a function whose calls give functions that refer to it, and calls it. -/
def Program.circle : Program :=
  ⟨[.bind "f" (.fn ["x"] [.expr (.fn [] [.expr (.ident "f")])]),
    .expr (.call (.ident "f") [.ident "f"])]⟩

/-- The first scope holds a function that refers to it, and the second one, in which the returned
function was made, lies inside the first. Yet a name that is bound nowhere is looked up in both and
not found. -/
theorem scopes_wellFounded_circle :
    let st := State.ofStore (Store.empty.openScope [] none).2
    let r := Program.circle.run 3 0 st
    ∃ f path, r.1 = .ok (some (.function f)) ∧ f.scope < r.2.store.scopes.size ∧
      r.2.store.Outward f.scope path ∧ path.length ≤ 2 ∧
      path.findSome? (fun sc => sc.bindings.find? "g") = none := by
  intro st r
  have hscopes : Reachable st.store [] := Reachable.start.openOuter
  have hreachable := hscopes.run 3 .circle Nat.zero_lt_one
  have hresult : (Program.circle.run 3 0 st).1 =
      .ok (some (.function ⟨1, [], [.expr (.ident "f")], 1⟩)) := by decide +kernel
  obtain ⟨-, hheld, hpaths, -⟩ := scopes_wellFounded hreachable
  have hscope := hheld ⟨1, [], [.expr (.ident "f")], 1⟩ (by
    show _ ∈ answers r.1 ++ []
    rw [hresult]
    exact List.mem_cons_self ..)
  obtain ⟨path, hpath, -, hlength, hfind, -⟩ := hpaths 1 hscope
  have hnone : (Program.circle.run 3 0 st).2.store.find? 1 "g" = none := by decide +kernel
  exact ⟨_, path, hresult, hscope, hpath, hlength, (hfind "g").symm.trans hnone⟩

end Sprig
