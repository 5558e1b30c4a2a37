import Mathlib.Logic.Relation
import Sprig.Proofs.Reachable

/-!
# Evaluation step by step

A machine that evaluates programs in single steps: it looks at one node of a tree, at one scope or
at one thing that is left to do. Nothing bounds the number of its steps. It follows parents wherever
they lead, runs the bodies of closures wherever they come from, and knows only the number of open
calls and the limit for it. So whether it ever stops is a question. The answer is that, in a store
that a host can bring about, every program stops, and with the result that `Program.run` gives.

The proof goes along the recursion by which evaluation is defined. A call leaves one call less that
may be nested, and between two calls the tree gets smaller; each scope on the way outward was opened
before the last.
-/

namespace Sprig

mutual

/-- What is left to do once an expression has its value. -/
inductive ValueRest where
  | unary (op : UnaryOp) (rest : ValueRest)
  /-- The right operand is next. -/
  | right (scope : ScopeId) (op : BinaryOp) (rhs : Expr) (rest : ValueRest)
  | binary (op : BinaryOp) (lhs : Value) (rest : ValueRest)
  | cond (scope : ScopeId) (consequence : Block) (alternative : Option Block) (rest : ValueRest)
  /-- The arguments of a call are next. -/
  | callee (scope : ScopeId) (args : List Expr) (rest : ValueRest)
  /-- More arguments are next, after those that are done. -/
  | argument (scope : ScopeId) (f : Value) (done : List Value) (args : List Expr)
      (rest : ValueRest)
  | bind (scope : ScopeId) (name : String) (rest : BlockRest)
  | ret (rest : BlockRest)
  | expr (rest : BlockRest)

/-- What is left to do once statements are finished. -/
inductive BlockRest where
  /-- More statements are next. -/
  | next (scope : ScopeId) (statements : Block) (rest : BlockRest)
  /-- They were a part of a conditional. -/
  | branch (rest : ValueRest)
  /-- They were the body of a call. -/
  | call (rest : ValueRest)
  /-- They were the program. -/
  | program

end

/-- What the machine is about to do. -/
inductive Control where
  | expr (scope : ScopeId) (e : Expr) (rest : ValueRest)
  /-- Looks for a name in a scope. -/
  | find (scope : ScopeId) (name : String) (rest : ValueRest)
  /-- Evaluates the arguments of a call, after those that are done. -/
  | arguments (scope : ScopeId) (f : Value) (done : List Value) (args : List Expr)
      (rest : ValueRest)
  | apply (f : Value) (args : List Value) (rest : ValueRest)
  /-- Goes on with the value of an expression. -/
  | value (v : Value) (rest : ValueRest)
  | stmt (scope : ScopeId) (s : Stmt) (rest : BlockRest)
  /-- Executes statements, after one with the given result. -/
  | stmts (scope : ScopeId) (last : Option Value) (statements : Block) (rest : BlockRest)
  /-- Goes on with the result of statements. -/
  | done (v : Option Value) (rest : BlockRest)
  /-- Leaves an expression early. -/
  | leaveExpr (x : Exit) (rest : ValueRest)
  /-- Leaves statements early. -/
  | leaveBlock (x : Exit) (rest : BlockRest)

/-- The machine. -/
structure Machine where
  control : Control
  state : State

/-- What a step of the machine comes to. -/
inductive Progress where
  | next (m : Machine)
  | stop (result : Except Fault (Option Value)) (st : State)

namespace Machine

/-- Goes on after an operation on values. -/
def answer (rest : ValueRest) (st : State) : Except Fault Value → Machine
  | .ok v => ⟨.value v rest, st⟩
  | .error e => ⟨.leaveExpr (.fault e) rest, st⟩

/-- Begins to evaluate an expression. -/
def stepExpr (scope : ScopeId) (rest : ValueRest) (st : State) : Expr → Machine
  | .ident name => ⟨.find scope name rest, st⟩
  | .int n => ⟨.value (.int n) rest, st⟩
  | .str s => ⟨.value (.str s) rest, st⟩
  | .bool b => ⟨.value (.bool b) rest, st⟩
  | .unary op operand => ⟨.expr scope operand (.unary op rest), st⟩
  | .binary op lhs rhs => ⟨.expr scope lhs (.right scope op rhs rest), st⟩
  | .cond test consequence alternative =>
    ⟨.expr scope test (.cond scope consequence alternative rest), st⟩
  | .fn params body =>
    let (closure, store) := st.store.makeFunction params body scope
    ⟨.value (.function closure) rest, ⟨store, st.depth, st.peak⟩⟩
  | .call callee args => ⟨.expr scope callee (.callee scope args rest), st⟩

/-- Looks for a name in one scope. Where there is no such scope, the search does not get on. -/
def stepFind (scope : ScopeId) (name : String) (rest : ValueRest) (st : State) : Machine :=
  match st.store.scopes[scope]? with
  | none => ⟨.find scope name rest, st⟩
  | some sc =>
    match sc.bindings.find? name with
    | some v => ⟨.value v rest, st⟩
    | none =>
      match sc.parent with
      | some parent => ⟨.find parent name rest, st⟩
      | none =>
        match Builtin.ofName? name with
        | some b => ⟨.value (.builtin b) rest, st⟩
        | none => ⟨.leaveExpr (.fault (.unbound name)) rest, st⟩

/-- Calls a value. A call of a closure counts as open even if the arguments do not fit. -/
def stepApply (limit : Nat) (args : List Value) (rest : ValueRest) (st : State) : Value → Machine
  | .function f =>
    if limit ≤ st.depth then ⟨.leaveExpr (.fault (.tooDeep limit)) rest, st⟩
    else if args.length = f.params.length then
      let (scope, store) :=
        st.store.openScope (.ofPairs (f.params.zip args)) (some f.scope)
      ⟨.stmts scope none f.body (.call rest), ⟨store, st.enter.depth, st.enter.peak⟩⟩
    else
      ⟨.leaveExpr (.fault (.argumentCount args.length f.params.length)) rest, st.enter.leave⟩
  | .builtin b => answer rest st (b.call args).toExcept
  | v => ⟨.leaveExpr (.fault (.notAFunction v.kind)) rest, st⟩

/-- Goes on with the value of an expression. -/
def stepValue (v : Value) (st : State) : ValueRest → Machine
  | .unary op rest => answer rest st (Value.unary op v)
  | .right scope op rhs rest => ⟨.expr scope rhs (.binary op v rest), st⟩
  | .binary op lhs rest => answer rest st (Value.binary op lhs v)
  | .cond scope consequence alternative rest =>
    if v.isTruthy then ⟨.stmts scope none consequence (.branch rest), st⟩
    else
      match alternative with
      | some body => ⟨.stmts scope none body (.branch rest), st⟩
      | none => ⟨.done none (.branch rest), st⟩
  | .callee scope args rest => ⟨.arguments scope v [] args rest, st⟩
  | .argument scope f done args rest => ⟨.arguments scope f (done ++ [v]) args rest, st⟩
  | .bind scope name rest => ⟨.done none rest, ⟨st.store.set scope name v, st.depth, st.peak⟩⟩
  | .ret rest => ⟨.leaveBlock (.returned v) rest, st⟩
  | .expr rest => ⟨.done (some v) rest, st⟩

/-- Begins to execute a statement. -/
def stepStmt (scope : ScopeId) (rest : BlockRest) (st : State) : Stmt → Machine
  | .bind name value => ⟨.expr scope value (.bind scope name rest), st⟩
  | .ret value => ⟨.expr scope value (.ret rest), st⟩
  | .expr value => ⟨.expr scope value (.expr rest), st⟩
  | .block body => ⟨.stmts scope none body rest, st⟩

/-- Goes on with the result of statements. -/
def stepDone (v : Option Value) (st : State) : BlockRest → Progress
  | .next scope statements rest => .next ⟨.stmts scope v statements rest, st⟩
  | .branch rest => .next ⟨.value (v.getD .null) rest, st⟩
  | .call rest => .next ⟨.value (v.getD .null) rest, st.leave⟩
  | .program => .stop (.ok v) st

/-- Leaves an expression, to what it is a part of. -/
def stepLeaveExpr (x : Exit) (st : State) : ValueRest → Machine
  | .unary _ rest | .right _ _ _ rest | .binary _ _ rest | .cond _ _ _ rest | .callee _ _ rest
  | .argument _ _ _ _ rest => ⟨.leaveExpr x rest, st⟩
  | .bind _ _ rest | .ret rest | .expr rest => ⟨.leaveBlock x rest, st⟩

/-- Leaves statements. A `return` goes no further than the call or the program. -/
def stepLeaveBlock (x : Exit) (st : State) : BlockRest → Progress
  | .next _ _ rest => .next ⟨.leaveBlock x rest, st⟩
  | .branch rest => .next ⟨.leaveExpr x rest, st⟩
  | .call rest =>
    match x with
    | .returned v => .next ⟨.value v rest, st.leave⟩
    | .fault e => .next ⟨.leaveExpr (.fault e) rest, st.leave⟩
  | .program =>
    match x with
    | .returned v => .stop (.ok (some v)) st
    | .fault e => .stop (.error e) st

/-- One step of the machine. -/
def step (limit : Nat) : Machine → Progress
  | ⟨.expr scope e rest, st⟩ => .next (stepExpr scope rest st e)
  | ⟨.find scope name rest, st⟩ => .next (stepFind scope name rest st)
  | ⟨.arguments _ f done [] rest, st⟩ => .next ⟨.apply f done rest, st⟩
  | ⟨.arguments scope f done (e :: es) rest, st⟩ =>
    .next ⟨.expr scope e (.argument scope f done es rest), st⟩
  | ⟨.apply f args rest, st⟩ => .next (stepApply limit args rest st f)
  | ⟨.value v rest, st⟩ => .next (stepValue v st rest)
  | ⟨.stmt scope s rest, st⟩ => .next (stepStmt scope rest st s)
  | ⟨.stmts _ last [] rest, st⟩ => .next ⟨.done last rest, st⟩
  | ⟨.stmts scope _ (s :: ss) rest, st⟩ => .next ⟨.stmt scope s (.next scope ss rest), st⟩
  | ⟨.done v rest, st⟩ => stepDone v st rest
  | ⟨.leaveExpr x rest, st⟩ => .next (stepLeaveExpr x st rest)
  | ⟨.leaveBlock x rest, st⟩ => stepLeaveBlock x st rest

/-- Takes the given number of steps, or fewer if the machine stops before. -/
def steps (limit : Nat) : Nat → Machine → Progress
  | 0, m => .next m
  | n + 1, m =>
    match m.step limit with
    | .next m' => m'.steps limit n
    | .stop result st => .stop result st

/-- The machine at the start of a program. -/
def start (scope : ScopeId) (p : Program) (st : State) : Machine :=
  ⟨.stmts scope none p.statements .program, st⟩

end Machine

/-- Goes on after an expression, whatever it comes to. -/
def ValueRest.resume (rest : ValueRest) : EStateM.Result Exit State Value → Machine
  | .ok v st => ⟨.value v rest, st⟩
  | .error x st => ⟨.leaveExpr x rest, st⟩

/-- Goes on after the last arguments of a call, whatever they come to. -/
def ValueRest.resumeCall (f : Value) (done : List Value) (rest : ValueRest) :
    EStateM.Result Exit State (List Value) → Machine
  | .ok vs st => ⟨.apply f (done ++ vs) rest, st⟩
  | .error x st => ⟨.leaveExpr x rest, st⟩

/-- Goes on after statements, whatever they come to. -/
def BlockRest.resume (rest : BlockRest) : EStateM.Result Exit State (Option Value) → Machine
  | .ok v st => ⟨.done v rest, st⟩
  | .error x st => ⟨.leaveBlock x rest, st⟩

/-! ## Runs of the machine -/

/-- The machine gets from one configuration to another. -/
def Leads (limit : Nat) : Machine → Machine → Prop :=
  Relation.ReflTransGen fun m m' => m.step limit = .next m'

namespace Leads

variable {α β : Type} {limit : Nat} {m n o : Machine}

theorem refl (m : Machine) : Leads limit m m :=
  Relation.ReflTransGen.refl

theorem trans (h : Leads limit m n) (h' : Leads limit n o) : Leads limit m o :=
  Relation.ReflTransGen.trans h h'

theorem head (h : m.step limit = .next n) (h' : Leads limit n o) : Leads limit m o :=
  Relation.ReflTransGen.head h h'

theorem single (h : m.step limit = .next n) : Leads limit m n :=
  Relation.ReflTransGen.single h

/-- To reach what comes after two steps of evaluation, reach what comes after the first: there the
machine either goes on with the second, or leaves early. -/
theorem bind {K : EStateM.Result Exit State α → Machine}
    {K' : EStateM.Result Exit State β → Machine} {x : Eval α} {f : α → Eval β} {st : State}
    (h : Leads limit m (K (x st)))
    (hleave : ∀ e st', Leads limit (K (.error e st')) (K' (.error e st')))
    (hok : ∀ a st', x st = .ok a st' → Leads limit (K (.ok a st')) (K' (f a st'))) :
    Leads limit m (K' ((x >>= f) st)) := by
  cases hx : x st with
  | ok a st' =>
    rw [Eval.bind_of_ok hx]
    rw [hx] at h
    exact h.trans (hok a st' hx)
  | error e st' =>
    rw [Eval.bind_of_error hx]
    rw [hx] at h
    exact h.trans (hleave e st')

theorem answer {rest : ValueRest} {st : State} {x : Except Fault Value}
    (h : m.step limit = .next (Machine.answer rest st x)) :
    Leads limit m (rest.resume (Eval.ofExcept x st)) := by
  cases x with
  | ok v => exact single h
  | error e => exact single h

/-- A machine that gets to its last configuration stops there. -/
theorem exists_steps {result : Except Fault (Option Value)} {st : State} (h : Leads limit m n)
    (hstop : n.step limit = .stop result st) : ∃ k, m.steps limit k = .stop result st := by
  induction h using Relation.ReflTransGen.head_induction_on with
  | refl => exact ⟨1, by rw [Machine.steps, hstop]⟩
  | head hstep _ ih =>
    obtain ⟨k, hk⟩ := ih
    exact ⟨k + 1, by rw [Machine.steps, hstep]; exact hk⟩

end Leads

/-! ## Names -/

/-- **The search for a name ends**: each scope on the way was opened before the last, so one without
a parent is reached. -/
theorem leads_find {limit : Nat} {name : String} {rest : ValueRest} {st : State}
    (hs : st.store.Sound) {scope : ScopeId} (hscope : scope < st.store.scopes.size) :
    Leads limit ⟨.find scope name rest, st⟩ (rest.resume (Eval.lookUp scope name st)) := by
  induction scope using Nat.strongRecOn with
  | ind scope ih =>
    obtain ⟨sc, hsc⟩ : ∃ sc, st.store.scopes[scope]? = some sc :=
      ⟨_, Array.getElem?_eq_getElem hscope⟩
    have hstep : Machine.step limit ⟨.find scope name rest, st⟩ =
      .next (Machine.stepFind scope name rest st) := rfl
    cases hv : sc.bindings.find? name with
    | some v =>
      have hfind : st.store.find? scope name = some v := by simp [Store.find?, hsc, hv]
      refine .single (hstep.trans ?_)
      simp [Machine.stepFind, hsc, hv, Eval.lookUp, hfind, ValueRest.resume]
    | none =>
      cases hp : sc.parent with
      | none =>
        have hfind : st.store.find? scope name = none := by simp [Store.find?, hsc, hv, hp]
        refine .single (hstep.trans ?_)
        cases hb : Builtin.ofName? name <;>
          simp [Machine.stepFind, hsc, hv, hp, hb, Eval.lookUp, hfind, ValueRest.resume]
      | some parent =>
        have hlt : parent < scope := hs.parent_lt scope sc hsc parent hp
        have hfind : st.store.find? scope name = st.store.find? parent name := by
          rw [Store.find?]
          simp [hsc, hv, hp, hlt]
        have hlookUp : Eval.lookUp scope name st = Eval.lookUp parent name st := by
          unfold Eval.lookUp
          rw [hfind]
        refine .head (n := ⟨.find parent name rest, st⟩) (hstep.trans ?_) ?_
        · simp [Machine.stepFind, hsc, hv, hp]
        · rw [hlookUp]
          exact ih parent hlt (Nat.lt_trans hlt hscope)

/-! ## Trees -/

/-- A tree can be evaluated from the state, in the given scope and with `d` open calls. -/
structure Fits (d : Nat) (scope : ScopeId) (st : State) : Prop where
  sound : st.store.Sound
  scope_lt : scope < st.store.scopes.size
  depth_eq : st.depth = d

section Trees

variable {α : Type} {limit d : Nat} {scope : ScopeId} {st st' : State}

theorem Fits.after {P : Store → α → Prop} {x : Eval α} {a : α} (h : Fits d scope st)
    (hx : soundness.Keeps st.store P x) (ha : x st = .ok a st') :
    Fits d scope st' ∧ st.store.Le st'.store ∧ P st'.store a := by
  obtain ⟨w, hle, ⟨rfl, hs⟩, hdepth, hP⟩ := hx.of_ok ⟨rfl, h.sound⟩ ha
  exact ⟨⟨hs, Nat.lt_of_lt_of_le h.scope_lt hle.1, hdepth.trans h.depth_eq⟩, hle, hP⟩

/-- Calls come to an end if there are `d` open calls before. -/
def CallsEnd (limit d : Nat) : Prop :=
  ∀ ⦃f : Closure⦄ ⦃args : List Value⦄ ⦃st : State⦄ (rest : ValueRest), st.store.Sound →
    (Value.function f).Known st.store → (∀ a ∈ args, a.Known st.store) → st.depth = d →
    Leads limit ⟨.apply (.function f) args rest, st⟩
      (rest.resume (Closure.invoke limit (limit - d) f args st))

theorem leads_apply (hcall : CallsEnd limit d) {f : Value} {args : List Value} (rest : ValueRest)
    (h : Fits d scope st) (hf : f.Known st.store) (hargs : ∀ a ∈ args, a.Known st.store) :
    Leads limit ⟨.apply f args rest, st⟩
      (rest.resume (f.apply (Closure.invoke limit (limit - d)) args st)) := by
  cases f with
  | function f => exact hcall rest h.sound hf hargs h.depth_eq
  | builtin b => exact .answer rfl
  | _ => exact .single rfl

mutual

theorem leads_expr (hcall : CallsEnd limit d) (e : Expr) {scope : ScopeId} {st : State}
    (rest : ValueRest) (h : Fits d scope st) :
    Leads limit ⟨.expr scope e rest, st⟩
      (rest.resume (e.eval (Closure.invoke limit (limit - d)) scope st)) := by
  cases e with
  | ident name => exact .head rfl (leads_find h.sound h.scope_lt)
  | int n | str s | bool b => exact .single rfl
  | fn params body => exact .single rfl
  | unary op operand =>
    refine .head rfl ((leads_expr hcall operand (.unary op rest) h).bind ?_ ?_)
    · exact fun _ _ => .single rfl
    · exact fun _ _ _ => .answer rfl
  | binary op lhs rhs =>
    refine .head rfl ((leads_expr hcall lhs (.right scope op rhs rest) h).bind ?_ ?_)
    · exact fun _ _ => .single rfl
    · intro a st' ha
      obtain ⟨h', -⟩ := h.after (Invariant.keeps_expr limit _ lhs h.scope_lt) ha
      refine .head rfl ((leads_expr hcall rhs (.binary op a rest) h').bind ?_ ?_)
      · exact fun _ _ => .single rfl
      · exact fun _ _ _ => .answer rfl
  | cond test consequence alternative =>
    have htest := leads_expr hcall test (.cond scope consequence alternative rest) h
    refine .head rfl (htest.bind ?_ ?_)
    · exact fun _ _ => .single rfl
    · intro v st' hv
      obtain ⟨h', -⟩ := h.after (Invariant.keeps_expr limit _ test h.scope_lt) hv
      refine .bind (K := (BlockRest.branch rest).resume) ?_ (fun _ _ => .single rfl)
        fun _ _ _ => .single rfl
      by_cases ht : v.isTruthy = true
      · rw [if_pos ht]
        refine .head (congrArg Progress.next (if_pos ht)) ?_
        exact leads_stmts hcall consequence none (.branch rest) h'
      · rw [if_neg ht]
        refine .head (congrArg Progress.next (if_neg ht)) ?_
        cases alternative with
        | none => exact .refl _
        | some body => exact leads_stmts hcall body none (.branch rest) h'
  | call callee args =>
    refine .head rfl ((leads_expr hcall callee (.callee scope args rest) h).bind ?_ ?_)
    · exact fun _ _ => .single rfl
    · intro f st' hf
      obtain ⟨h', -, hknown⟩ := h.after (Invariant.keeps_expr limit _ callee h.scope_lt) hf
      refine .head rfl ((leads_args hcall args f [] rest h').bind ?_ ?_)
      · exact fun _ _ => .refl _
      · intro vs st'' hvs
        obtain ⟨h'', hle, hargs⟩ := h'.after (Invariant.keeps_exprs limit _ args h'.scope_lt) hvs
        exact leads_apply hcall rest h'' (hknown.mono hle) hargs

/-- The arguments of a call, after those that are done. -/
theorem leads_args (hcall : CallsEnd limit d) (es : List Expr) {scope : ScopeId} {st : State}
    (f : Value) (done : List Value) (rest : ValueRest) (h : Fits d scope st) :
    Leads limit ⟨.arguments scope f done es rest, st⟩
      (rest.resumeCall f done (Expr.evalAll (Closure.invoke limit (limit - d)) scope es st)) := by
  cases es with
  | nil =>
    refine .single ?_
    show Progress.next _ = .next ⟨.apply f (done ++ []) rest, st⟩
    rw [List.append_nil]
  | cons e es =>
    refine .head rfl ((leads_expr hcall e (.argument scope f done es rest) h).bind ?_ ?_)
    · exact fun _ _ => .single rfl
    · intro v st' hv
      obtain ⟨h', -⟩ := h.after (Invariant.keeps_expr limit _ e h.scope_lt) hv
      refine .head rfl ((leads_args hcall es f (done ++ [v]) rest h').bind ?_ ?_)
      · exact fun _ _ => .refl _
      · intro vs st'' _
        show Leads limit ⟨.apply f (done ++ [v] ++ vs) rest, st''⟩
          ⟨.apply f (done ++ v :: vs) rest, st''⟩
        rw [List.append_assoc, List.singleton_append]
        exact .refl _

theorem leads_stmt (hcall : CallsEnd limit d) (s : Stmt) {scope : ScopeId} {st : State}
    (rest : BlockRest) (h : Fits d scope st) :
    Leads limit ⟨.stmt scope s rest, st⟩
      (rest.resume (s.exec (Closure.invoke limit (limit - d)) scope st)) := by
  cases s with
  | bind name value =>
    refine .head rfl ((leads_expr hcall value (.bind scope name rest) h).bind ?_ ?_)
    · exact fun _ _ => .single rfl
    · exact fun _ _ _ => .single rfl
  | ret value =>
    refine .head rfl ((leads_expr hcall value (.ret rest) h).bind ?_ ?_)
    · exact fun _ _ => .single rfl
    · exact fun _ _ _ => .single rfl
  | expr value =>
    refine .head rfl ((leads_expr hcall value (.expr rest) h).bind ?_ ?_)
    · exact fun _ _ => .single rfl
    · exact fun _ _ _ => .single rfl
  | block body => exact .head rfl (leads_stmts hcall body none rest h)

theorem leads_stmts (hcall : CallsEnd limit d) (ss : List Stmt) {scope : ScopeId} {st : State}
    (last : Option Value) (rest : BlockRest) (h : Fits d scope st) :
    Leads limit ⟨.stmts scope last ss rest, st⟩
      (rest.resume (Stmt.execAll (Closure.invoke limit (limit - d)) scope last ss st)) := by
  cases ss with
  | nil => exact .single rfl
  | cons s ss =>
    refine .head rfl ((leads_stmt hcall s (.next scope ss rest) h).bind ?_ ?_)
    · exact fun _ _ => .single rfl
    · intro v st' hv
      obtain ⟨h', -⟩ := h.after (Invariant.keeps_stmt limit _ s h.scope_lt) hv
      exact .head rfl (leads_stmts hcall ss v rest h')

end

end Trees

/-! ## Calls -/

/-- The body of a call has come to its end, and so does the call. -/
theorem leads_asCall {limit : Nat} {m : Machine} {rest : ValueRest} {x : Eval (Option Value)}
    {st : State} (h : Leads limit m ((BlockRest.call rest).resume (x st.enter))) :
    Leads limit m (rest.resume (Eval.asCall x st)) := by
  unfold Eval.asCall
  generalize x st.enter = r at h
  cases r with
  | ok v st' => exact h.trans (.single rfl)
  | error e st' =>
    cases e with
    | returned v => exact h.trans (.single rfl)
    | fault e => exact h.trans (.single rfl)

/-- **Calls end, because only so many can be nested.** -/
theorem callsEnd (limit d : Nat) : CallsEnd limit d := by
  -- the induction is on the number of calls that can still be nested
  induction hbudget : limit - d generalizing d with
  | zero =>
    intro f args st rest _ _ _ hdepth
    have hfull : limit ≤ st.depth := by omega
    rw [hbudget]
    exact .single (congrArg Progress.next (if_pos hfull))
  | succ budget ih =>
    intro f args st rest hs hf hargs hdepth
    have hroom : ¬ limit ≤ st.depth := by omega
    have hinner : limit - (d + 1) = budget := by omega
    have hcalls := ih (d + 1) hinner
    rw [hbudget]
    show Leads limit _ (rest.resume (Eval.asCall (f.run (Closure.invoke limit budget) args) st))
    unfold Closure.run
    by_cases hcount : args.length = f.params.length
    · rw [if_pos hcount]
      refine leads_asCall (.head (congrArg Progress.next ((if_neg hroom).trans (if_pos hcount))) ?_)
      obtain ⟨_, -, ⟨rfl, hs'⟩, hscope⟩ := soundness.openScope ⟨rfl, hs⟩ hf hargs
      rw [← hinner]
      exact leads_stmts hcalls f.body none (.call rest) ⟨hs', hscope, congrArg (· + 1) hdepth⟩
    · rw [if_neg hcount]
      exact .single (congrArg Progress.next ((if_neg hroom).trans (if_neg hcount)))

/-! ## Programs -/

/-- In a sound store the machine comes to its last step, and stops there with what the run gives. -/
theorem leads_run {st : State} (hs : st.store.Sound) (limit : Nat) (p : Program) {scope : ScopeId}
    (hscope : scope < st.store.scopes.size) :
    ∃ m, Leads limit (.start scope p st) m ∧
      m.step limit = .stop (p.run limit scope st).1 (p.run limit scope st).2 := by
  refine ⟨_, leads_stmts (callsEnd limit st.depth) p.statements none .program ⟨hs, hscope, rfl⟩, ?_⟩
  unfold Program.run
  generalize Stmt.execAll _ scope none p.statements st = r
  cases r with
  | ok v st' => rfl
  | error x st' => cases x <;> rfl

/-- **Every program stops**: in a store that a host can bring about, and with any limit for the
calls that may be open, the machine stops after finitely many steps, with a value, with none or with
a fault. What it stops with is what running the program gives. -/
theorem Machine.halts {st : State} {vs : List Value} (h : Reachable st.store vs) (limit : Nat)
    (p : Program) {scope : ScopeId} (hscope : scope < st.store.scopes.size) :
    ∃ n, (Machine.start scope p st).steps limit n =
      .stop (p.run limit scope st).1 (p.run limit scope st).2 := by
  obtain ⟨m, hlead, hstop⟩ := leads_run h.sound.1 limit p hscope
  exact hlead.exists_steps hstop

/-- Binds a name to a function that calls itself, without end. -/
def Program.defineLoop : Program :=
  ⟨[.bind "loop" (.fn [] [.expr (.call (.ident "loop") [])])]⟩

/-- Calls it. -/
def Program.callLoop : Program :=
  ⟨[.expr (.call (.ident "loop") [])]⟩

/-- The scope holds the function, and the function refers to the scope. Yet its call stops. -/
theorem Machine.halts_callLoop :
    let st := (Program.defineLoop.run 3 0 (.ofStore (Store.empty.openScope [] none).2)).2
    ∃ n st', (Machine.start 0 .callLoop st).steps 3 n = .stop (.error (.tooDeep 3)) st' := by
  intro st
  have hscopes : Reachable (State.ofStore (Store.empty.openScope [] none).2).store [] :=
    Reachable.start.openOuter
  have hrun : (Program.callLoop.run 3 0 st).1 = .error (.tooDeep 3) := by decide +kernel
  have hscope : st.store.scopes.size = 1 := by decide +kernel
  obtain ⟨n, hn⟩ := Machine.halts (hscopes.run 3 .defineLoop Nat.zero_lt_one) 3 .callLoop
    (hscope ▸ Nat.zero_lt_one : 0 < st.store.scopes.size)
  rw [hrun] at hn
  exact ⟨n, _, hn⟩

end Sprig
