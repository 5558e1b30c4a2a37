import Sprig.Proofs.ByteOrder
import Sprig.Proofs.ScopeGraph

/-!
# Scopes as their history tells

A host opens scopes, one inside the other or on their own, hands out handles on them and sets names
through any of its handles, in any order. What a handle then shows is told by what was done
(`History`) without a look at the store: the scopes around a scope are those it was opened in, and
of the values that were set for a name in one scope the latest counts. The store that comes of these
actions agrees with that (`History.agrees`): each of its scopes holds the latest values and the
names in order, and lies where it was opened. So what is found through a handle, and how its scope
is shown, are functions of the history (`History.get_run`, `History.text_run`).
-/

namespace Sprig

/-! ## Hosts -/

/-- A store and the scopes on which a host has its `n` handles. -/
structure Host (n : Nat) where
  store : Store
  handles : Vector ScopeId n

namespace Host

variable {n : Nat}

/-- A host that has no handle. -/
def empty : Host 0 :=
  ⟨.empty, #v[]⟩

/-- Opens a scope and keeps a handle on it. -/
def openScope (host : Host n) (parent : Option ScopeId) : Host (n + 1) :=
  ⟨(host.store.openScope [] parent).2, host.handles.push (host.store.openScope [] parent).1⟩

/-- Takes one more handle on the scope of a handle. -/
def share (host : Host n) (handle : Fin n) : Host (n + 1) :=
  ⟨host.store, host.handles.push host.handles[handle]⟩

/-- Sets a name through a handle. -/
def set (host : Host n) (handle : Fin n) (name : String) (value : Value) : Host n :=
  { host with store := host.store.set host.handles[handle] name value }

/-- Looks a name up through a handle. -/
def get (host : Host n) (handle : Fin n) (name : String) : Option Value :=
  host.store.find? host.handles[handle] name

/-- The scope of a handle as it is shown. -/
def text (host : Host n) (handle : Fin n) : String :=
  (host.store.dumpScope host.handles[handle]).inline Text.isPrintable

end Host

/-! ## Histories -/

/-- What a host has done, each action put on top of its past. All actions but `set` give it one more
handle, and `n` counts them; an action can only refer to handles that are there. -/
inductive History : Nat → Type where
  | start : History 0
  /-- A scope is opened on its own. -/
  | new {n : Nat} (past : History n) : History (n + 1)
  /-- A scope is opened inside the scope of a handle. -/
  | enclose {n : Nat} (past : History n) (outer : Fin n) : History (n + 1)
  /-- There is another handle on the scope of a handle. -/
  | share {n : Nat} (past : History n) (handle : Fin n) : History (n + 1)
  /-- A name is set through a handle. -/
  | set {n : Nat} (past : History n) (handle : Fin n) (name : String) (value : Value) : History n

/-- One setting of a name. -/
structure Setting where
  scope : ScopeId
  name : String
  value : Value

namespace History

variable {n : Nat}

/-- How many scopes were opened. They are numbered in this order. -/
def opened {n : Nat} : History n → Nat
  | start => 0
  | new past => past.opened + 1
  | enclose past _ => past.opened + 1
  | share past _ => past.opened
  | set past _ _ _ => past.opened

/-- The scope of a handle. -/
def home {n : Nat} : History n → Fin n → ScopeId
  | @new n past, h => if hlt : h < n then past.home ⟨h, hlt⟩ else past.opened
  | @enclose n past _, h => if hlt : h < n then past.home ⟨h, hlt⟩ else past.opened
  | @share n past handle, h => if hlt : h < n then past.home ⟨h, hlt⟩ else past.home handle
  | set past _ _ _, h => past.home h

/-- A scope and those around it, from the inside out. -/
def outward {n : Nat} : History n → ScopeId → List ScopeId
  | start, _ => []
  | new past, i => if i = past.opened then [i] else past.outward i
  | enclose past outer, i =>
    if i = past.opened then i :: past.outward (past.home outer) else past.outward i
  | share past _, i => past.outward i
  | set past _ _ _, i => past.outward i

/-- All settings of names, the latest first. -/
def settings {n : Nat} : History n → List Setting
  | start => []
  | new past => past.settings
  | enclose past _ => past.settings
  | share past _ => past.settings
  | set past handle name value => ⟨past.home handle, name, value⟩ :: past.settings

/-- The name was set in the scope at some time. -/
def EverSet (past : History n) (scope : ScopeId) (name : String) : Prop :=
  ∃ s ∈ past.settings, s.scope = scope ∧ s.name = name

/-- The value that was set last for the name in the scope. -/
def latest (past : History n) (scope : ScopeId) (name : String) : Option Value :=
  (past.settings.find? fun s => s.scope = scope ∧ s.name = name).map Setting.value

/-- The host after all that was done. -/
def run {n : Nat} : History n → Host n
  | start => .empty
  | new past => past.run.openScope none
  | enclose past outer => past.run.openScope (some past.run.handles[outer])
  | share past handle => past.run.share handle
  | set past handle name value => past.run.set handle name value

/-! ## The store agrees -/

theorem home_lt {n : Nat} (past : History n) (h : Fin n) : past.home h < past.opened := by
  induction past with
  | start => exact h.elim0
  | new past ih =>
    rw [home, opened]
    split
    · exact Nat.lt_succ_of_lt (ih _)
    · exact Nat.lt_succ_self _
  | enclose past outer ih =>
    rw [home, opened]
    split
    · exact Nat.lt_succ_of_lt (ih _)
    · exact Nat.lt_succ_self _
  | share past handle ih =>
    rw [home, opened]
    split <;> exact ih _
  | set past handle name value ih => exact ih h

theorem size_run {n : Nat} (past : History n) : past.run.store.scopes.size = past.opened := by
  induction past with
  | start => rfl
  | new past ih | enclose past outer ih =>
    rw [opened, ← ih]
    exact Array.size_push ..
  | share past handle ih => exact ih
  | set past handle name value ih =>
    rw [opened, ← ih]
    exact Store.size_set ..

theorem handles_run {n : Nat} (past : History n) (h : Fin n) :
    past.run.handles[h] = past.home h := by
  induction past with
  | start => exact h.elim0
  | new past ih | enclose past outer ih =>
    show (past.run.handles.push past.run.store.scopes.size)[h] = _
    rw [home, Fin.getElem_fin, Vector.getElem_push, size_run]
    split
    · next hlt => exact ih ⟨h, hlt⟩
    · rfl
  | share past handle ih =>
    show (past.run.handles.push past.run.handles[handle])[h] = _
    rw [home, Fin.getElem_fin, Vector.getElem_push, ih handle]
    split
    · next hlt => exact ih ⟨h, hlt⟩
    · rfl
  | set past handle name value ih => exact ih h

theorem scope_lt_of_mem_settings {n : Nat} {past : History n} {s : Setting}
    (h : s ∈ past.settings) : s.scope < past.opened := by
  induction past with
  | start => cases h
  | new past ih | enclose past outer ih => exact Nat.lt_succ_of_lt (ih h)
  | share past handle ih => exact ih h
  | set past handle name value ih =>
    rcases List.mem_cons.1 h with rfl | h
    · exact past.home_lt handle
    · exact ih h

theorem latest_eq_none_iff {past : History n} {i : ScopeId} {name : String} :
    past.latest i name = none ↔ ¬ past.EverSet i name := by
  rw [latest, Option.map_eq_none_iff, List.find?_eq_none, EverSet]
  simp

/-- In a scope that is not there yet nothing was set. -/
theorem latest_opened (past : History n) (name : String) : past.latest past.opened name = none := by
  rw [latest_eq_none_iff]
  rintro ⟨s, hs, hscope, -⟩
  exact Nat.ne_of_lt (scope_lt_of_mem_settings hs) hscope

theorem latest_set (past : History n) (handle : Fin n) (name : String) (value : Value) (i : ScopeId)
    (other : String) : (past.set handle name value).latest i other =
      if past.home handle = i ∧ name = other then some value else past.latest i other := by
  rw [latest, settings, List.find?_cons]
  by_cases h : past.home handle = i ∧ name = other
  · simp [h]
  · simp [h, latest]

/-- The scope of the store is the `i`th of the history: it holds the latest value of each name that
was set in it, the names in order, and it lies inside the scope that it was opened in. -/
structure Holds (past : History n) (i : ScopeId) (sc : Scope) : Prop where
  find?_eq : ∀ name, sc.bindings.find? name = past.latest i name
  ordered : sc.bindings.names.Pairwise (· < ·)
  parent_lt : ∀ p ∈ sc.parent, p < i
  outward_eq : past.outward i = i :: sc.parent.elim [] past.outward

/-- What neither sets a name nor moves a scope leaves all scopes as they were. -/
theorem Holds.later {m : Nat} {past : History n} {next : History m} {i : ScopeId} {sc : Scope}
    (h : past.Holds i sc) (hi : i < past.opened) (hsettings : next.settings = past.settings)
    (houtward : ∀ j < past.opened, next.outward j = past.outward j) : next.Holds i sc := by
  refine ⟨fun name => ?_, h.ordered, h.parent_lt, ?_⟩
  · rw [h.find?_eq, latest, latest, hsettings]
  · rw [houtward i hi, h.outward_eq]
    cases hparent : sc.parent with
    | none => rfl
    | some p =>
      have hp : p < past.opened := Nat.lt_trans (h.parent_lt p hparent) hi
      show i :: past.outward p = i :: next.outward p
      rw [houtward p hp]

/-- The store has the scopes of the history. -/
def Agrees (past : History n) : Prop :=
  ∀ i < past.opened, ∃ sc, past.run.store.scopes[i]? = some sc ∧ past.Holds i sc

/-- A scope is opened, with nothing in it. -/
theorem Agrees.openScope {m : Nat} {past : History n} {next : History m} {parent : Option ScopeId}
    (h : past.Agrees) (hopened : next.opened = past.opened + 1)
    (hrun : next.run.store = (past.run.store.openScope [] parent).2)
    (hsettings : next.settings = past.settings) (hparent : ∀ p ∈ parent, p < past.opened)
    (hnew : next.outward past.opened = past.opened :: parent.elim [] past.outward)
    (hold : ∀ j < past.opened, next.outward j = past.outward j) : next.Agrees := by
  intro i hi
  rw [hrun, Store.getElem?_openScope, size_run]
  rcases Nat.lt_succ_iff_lt_or_eq.1 (hopened ▸ hi) with hlt | rfl
  · obtain ⟨sc, hsc, hholds⟩ := h i hlt
    rw [if_neg (Nat.ne_of_lt hlt)]
    exact ⟨sc, hsc, hholds.later hlt hsettings hold⟩
  · rw [if_pos rfl]
    refine ⟨_, rfl, fun name => ?_, .nil, hparent, ?_⟩
    · rw [latest, hsettings]
      exact (past.latest_opened name).symm
    · rw [hnew]
      cases parent with
      | none => rfl
      | some p => exact congrArg (past.opened :: ·) (hold p (hparent p rfl)).symm

theorem Agrees.set {past : History n} (h : past.Agrees) (handle : Fin n) (name : String)
    (value : Value) : (past.set handle name value).Agrees := by
  intro i hi
  obtain ⟨sc, hsc, hholds⟩ := h i hi
  show ∃ sc, (past.run.store.set past.run.handles[handle] name value).scopes[i]? = some sc ∧ _
  rw [handles_run, Store.getElem?_set]
  by_cases hhome : past.home handle = i
  · rw [if_pos hhome, hsc]
    refine ⟨_, rfl, fun other => ?_, Bindings.pairwise_names_insert hholds.ordered,
      hholds.parent_lt, hholds.outward_eq⟩
    rw [latest_set]
    by_cases hname : name = other
    · rw [if_pos ⟨hhome, hname⟩, hname]
      exact Bindings.find?_insert_self ..
    · rw [if_neg fun hand => hname hand.2, ← hholds.find?_eq]
      exact Bindings.find?_insert_of_ne (Ne.symm hname) ..
  · rw [if_neg hhome]
    refine ⟨sc, hsc, fun other => ?_, hholds.ordered, hholds.parent_lt, hholds.outward_eq⟩
    rw [latest_set, if_neg fun hand => hhome hand.1]
    exact hholds.find?_eq other

/-- **Whatever was done, the store agrees with the history.** -/
theorem agrees {n : Nat} (past : History n) : past.Agrees := by
  induction past with
  | start =>
    intro i hi
    cases hi
  | new past ih =>
    refine ih.openScope rfl rfl rfl (by simp) (if_pos rfl) fun j hj => ?_
    exact if_neg (Nat.ne_of_lt hj)
  | enclose past outer ih =>
    have hrun : (past.enclose outer).run.store =
        (past.run.store.openScope [] (some (past.home outer))).2 := by
      rw [← handles_run]
      rfl
    refine ih.openScope rfl hrun rfl ?_ (if_pos rfl) fun j hj => ?_
    · rintro _ ⟨⟩
      exact past.home_lt outer
    · exact if_neg (Nat.ne_of_lt hj)
  | share past handle ih =>
    intro i hi
    obtain ⟨sc, hsc, hholds⟩ := ih i hi
    exact ⟨sc, hsc, hholds.later hi rfl fun _ _ => rfl⟩
  | set past handle name value ih => exact ih.set handle name value

theorem parent_lt (past : History n) (i : ScopeId) (sc : Scope)
    (h : past.run.store.scopes[i]? = some sc) : ∀ p ∈ sc.parent, p < i := by
  obtain ⟨hi, -⟩ := Array.getElem?_eq_some_iff.1 h
  obtain ⟨sc', hsc', hholds⟩ := past.agrees i (past.size_run ▸ hi)
  obtain rfl : sc' = sc := Option.some.inj (hsc'.symm.trans h)
  exact hholds.parent_lt

/-- The way outward in the store goes through the scopes that the history names. -/
theorem exists_outward (past : History n) {i : ScopeId} (hi : i < past.opened) :
    ∃ path, past.run.store.Outward i path ∧
      List.Forall₂ (fun j sc => past.run.store.scopes[j]? = some sc ∧ past.Holds j sc)
        (past.outward i) path := by
  induction i using Nat.strongRecOn with
  | ind i ih =>
    obtain ⟨sc, hsc, hholds⟩ := past.agrees i hi
    rw [hholds.outward_eq]
    cases hparent : sc.parent with
    | none => exact ⟨[sc], .root hsc hparent, .cons ⟨hsc, hholds⟩ .nil⟩
    | some p =>
      have hlt := hholds.parent_lt p hparent
      obtain ⟨path, hpath, hall⟩ := ih p hlt (Nat.lt_trans hlt hi)
      exact ⟨sc :: path, .step hsc hparent hpath, .cons ⟨hsc, hholds⟩ hall⟩

/-- What is found through a handle. -/
theorem get_run (past : History n) (h : Fin n) (name : String) :
    past.run.get h name =
      (past.outward (past.home h)).findSome? fun scope => past.latest scope name := by
  obtain ⟨path, hpath, hall⟩ := past.exists_outward (past.home_lt h)
  rw [Host.get, handles_run, hpath.find?_eq_of_parent_lt past.parent_lt]
  clear hpath
  generalize past.outward (past.home h) = scopes at hall
  induction hall with
  | nil => rfl
  | cons hsc _ ih => rw [List.findSome?_cons, List.findSome?_cons, hsc.2.find?_eq, ih]

end History

/-! ## Showing scopes -/

/-- A scope as it is shown, with its names and what is shown of the scopes around it. -/
def shownScope (names : List String) (parent : String) : String :=
  "Environment \x7b names: [" ++ ", ".intercalate (names.map (Text.quote Text.isPrintable)) ++
    "], parent: " ++ parent ++ " \x7d"

/-- A scope and those around it as they are shown, given by their names from the inside out. -/
def shownScopes : List (List String) → String
  | [] => ""
  | [names] => shownScope names "None"
  | names :: outer => shownScope names ("Some(" ++ shownScopes outer ++ ")")

theorem Dump.inlineItems_string (plain : Char → Bool) (names : List String) :
    inlineItems plain (names.map .string) = ", ".intercalate (names.map (Text.quote plain)) := by
  induction names with
  | nil => rfl
  | cons name names ih =>
    cases names with
    | nil => rw [List.map_cons, List.map_nil, inlineItems, inline, List.map_cons, List.map_nil,
        String.intercalate_singleton]
    | cons other names =>
      rw [List.map_cons, List.map_cons, inlineItems, inline, ← List.map_cons, ih]
      · exact String.intercalate_cons_cons.symm
      · simp

theorem inline_environment (names : List String) (parent : Dump) :
    (Dump.fields "Environment" [("names", .list (names.map .string)), ("parent", parent)]).inline
      Text.isPrintable = shownScope names (parent.inline Text.isPrintable) := by
  have hopen : "Environment \x7b names: [" =
      "Environment" ++ (" \x7b " ++ ("names" ++ (": " ++ "["))) := by decide +kernel
  have hmiddle : "], parent: " = "]" ++ (", " ++ ("parent" ++ ": ")) := by decide +kernel
  unfold Dump.fields shownScope
  rw [hopen, hmiddle, Dump.inline, Dump.inlineFields, Dump.inlineFields, Dump.inline,
    Dump.inlineItems_string]
  · simp only [String.append_assoc, -String.reduceAppend]
  · simp

theorem inline_of_dumpPath {path : List Scope} {d : Dump} (h : Store.dumpPath path = some d) :
    d.inline Text.isPrintable = shownScopes (path.map fun sc => sc.bindings.names) := by
  induction path generalizing d with
  | nil => cases h
  | cons sc path ih =>
    cases h
    rw [inline_environment]
    cases path with
    | nil => rfl
    | cons outer path =>
      obtain ⟨d, hd⟩ : ∃ d, Store.dumpPath (outer :: path) = some d := ⟨_, rfl⟩
      rw [hd, Dump.option, Dump.inline, Dump.inlineItems, ih hd]
      rfl

namespace History

variable {n : Nat}

/-- The names that the store has in a scope. -/
def names (past : History n) (i : ScopeId) : List String :=
  past.run.store.scopes[i]?.elim [] fun sc => sc.bindings.names

theorem ordered_names (past : History n) (i : ScopeId) : (past.names i).Pairwise (· < ·) := by
  rw [names]
  by_cases hi : i < past.opened
  · obtain ⟨sc, hsc, hholds⟩ := past.agrees i hi
    rw [hsc]
    exact hholds.ordered
  · rw [Array.getElem?_eq_none (past.size_run ▸ Nat.not_lt.1 hi)]
    exact .nil

theorem mem_names_iff (past : History n) (i : ScopeId) (name : String) :
    name ∈ past.names i ↔ past.EverSet i name := by
  rw [names]
  by_cases hi : i < past.opened
  · obtain ⟨sc, hsc, hholds⟩ := past.agrees i hi
    rw [hsc, ← not_iff_not, ← latest_eq_none_iff, ← hholds.find?_eq]
    exact Bindings.find?_eq_none_iff.symm
  · rw [Array.getElem?_eq_none (past.size_run ▸ Nat.not_lt.1 hi)]
    refine iff_of_false List.not_mem_nil ?_
    rintro ⟨s, hs, rfl, -⟩
    exact hi (scope_lt_of_mem_settings hs)

theorem text_run (past : History n) (h : Fin n) :
    past.run.text h = shownScopes ((past.outward (past.home h)).map past.names) := by
  obtain ⟨path, hpath, hall⟩ := past.exists_outward (past.home_lt h)
  have hdump := hpath.dumpScope_eq_of_parent_lt past.parent_lt
  have hnames : path.map (fun sc => sc.bindings.names) =
      (past.outward (past.home h)).map past.names := by
    clear hpath hdump
    generalize past.outward (past.home h) = scopes at hall
    induction hall with
    | nil => rfl
    | cons hsc _ ih => rw [List.map_cons, List.map_cons, ih, names, hsc.1, Option.elim_some]
  rw [Host.text, handles_run, inline_of_dumpPath hdump.symm, hnames]

/-- A name that was just set through a handle is found through every other one from which the way
outward comes to that scope before any other in which the name was set. -/
theorem get_run_set (past : History n) {h k : Fin n} {name : String} (value : Value)
    {nearer farther : List ScopeId}
    (hway : past.outward (past.home k) = nearer ++ past.home h :: farther)
    (hnearer : ∀ s ∈ nearer, ¬ past.EverSet s name) :
    (past.set h name value).run.get k name = some value := by
  rw [get_run]
  show (past.outward (past.home k)).findSome? _ = _
  rw [hway]
  clear hway
  induction nearer with
  | nil => rw [List.nil_append, List.findSome?_cons, latest_set, if_pos ⟨rfl, rfl⟩]
  | cons s nearer ih =>
    obtain ⟨hs, hnearer⟩ := List.forall_mem_cons.1 hnearer
    rw [List.cons_append, List.findSome?_cons, latest_set]
    by_cases hhome : past.home h = s
    · rw [if_pos ⟨hhome, rfl⟩]
    · rw [if_neg fun hand => hhome hand.1, latest_eq_none_iff.2 hs]
      exact ih hnearer

theorem run_set_comm (past : History n) {h k : Fin n} {x y : String}
    (hne : past.home h ≠ past.home k ∨ x ≠ y) (v w : Value) :
    ((past.set h x v).set k y w).run = ((past.set k y w).set h x v).run := by
  rw [← handles_run, ← handles_run] at hne
  exact congrArg (Host.mk · past.run.handles) (Store.set_comm hne v w past.run.store)

end History

/-- **Scopes are what their history tells.** Whatever a host has done, by opening scopes, sharing
handles and setting names: what it finds through a handle is the latest value of the name in the
nearest scope, going outward from that of the handle, in which the name was ever set, and nothing if
there is no such scope. A name set through one handle is seen through every handle on the same scope
and on every scope inside it that does not shadow the name. Settings of different names, or in
different scopes, can be exchanged. A scope is shown with the names that were ever set in it, each
once and in the order of their bytes, and after them in the same way the scopes around it. -/
theorem scopes_follow_history {n : Nat} (past : History n) :
    (∀ (h : Fin n) (name : String),
      (∀ v, past.run.get h name = some v ↔ ∃ nearer scope farther,
        past.outward (past.home h) = nearer ++ scope :: farther ∧
          past.latest scope name = some v ∧ ∀ s ∈ nearer, ¬ past.EverSet s name) ∧
      (past.run.get h name = none ↔
        ∀ s ∈ past.outward (past.home h), ¬ past.EverSet s name)) ∧
      (∀ (h k : Fin n) (name : String) (v : Value),
        (past.home k = past.home h → (past.set h name v).run.get k name = some v) ∧
        ∀ nearer farther, past.outward (past.home k) = nearer ++ past.home h :: farther →
          (∀ s ∈ nearer, ¬ past.EverSet s name) →
          (past.set h name v).run.get k name = some v) ∧
      (∀ (h k : Fin n) (x y : String) (v w : Value), past.home h ≠ past.home k ∨ x ≠ y →
        ((past.set h x v).set k y w).run = ((past.set k y w).set h x v).run) ∧
      ∃ names : ScopeId → List String,
        (∀ i, (names i).Pairwise (fun a b => Text.bytes a < Text.bytes b) ∧
          ∀ name, name ∈ names i ↔ past.EverSet i name) ∧
        ∀ h, past.run.text h = shownScopes ((past.outward (past.home h)).map names) := by
  refine ⟨fun h name => ⟨fun v => ?_, ?_⟩, fun h k name v => ⟨fun hsame => ?_, ?_⟩, ?_,
    past.names, fun i => ⟨?_, past.mem_names_iff i⟩, past.text_run⟩
  · rw [past.get_run, List.findSome?_eq_some_iff]
    simp only [History.latest_eq_none_iff]
  · rw [past.get_run, List.findSome?_eq_none_iff]
    simp only [History.latest_eq_none_iff]
  · obtain ⟨sc, -, hholds⟩ := past.agrees _ (past.home_lt k)
    have hway : past.outward (past.home k) =
        [] ++ past.home h :: sc.parent.elim [] past.outward := by
      rw [← hsame]
      exact hholds.outward_eq
    exact past.get_run_set v hway (List.forall_mem_nil _)
  · intro nearer farther hway hnearer
    exact past.get_run_set v hway hnearer
  · intro h k x y v w hne
    exact past.run_set_comm hne v w
  · exact (past.ordered_names i).imp Text.bytes_lt_bytes

/-- Two handles on a scope, and two scopes one inside the other in it; a name is set in the outer
one of them. -/
def History.aliased : History 4 :=
  (((start.new.share 0).enclose 1).enclose 2).set 2 "y" .null

/-- A name that is set through the second handle is found through the first one, which shares its
scope, and from the innermost scope, on the way to which only another name was set. -/
theorem scopes_follow_history_aliased :
    History.aliased.outward (History.aliased.home 3) = [2, 1] ++ History.aliased.home 1 :: [] ∧
      (History.aliased.set 1 "x" (.bool true)).run.get 0 "x" = some (.bool true) ∧
      (History.aliased.set 1 "x" (.bool true)).run.get 3 "x" = some (.bool true) := by
  have hway : History.aliased.outward (History.aliased.home 3) =
      [2, 1] ++ History.aliased.home 1 :: [] := by decide
  have hnearer : ∀ s ∈ [2, 1], ¬ History.aliased.EverSet s "x" := by
    simp [History.EverSet, History.aliased, History.settings]
  obtain ⟨-, hseen, -⟩ := scopes_follow_history History.aliased
  exact ⟨hway, (hseen 1 0 "x" (.bool true)).1 rfl,
    (hseen 1 3 "x" (.bool true)).2 [2, 1] [] hway hnearer⟩

end Sprig
