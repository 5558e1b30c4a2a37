import Sprig.Operator

/-!
# Program trees

Expressions and statements, defined together because the bodies of conditionals and functions are
lists of statements. A block that stands alone as a statement can be built but is never read from a
text.
-/

namespace Sprig

mutual

/-- An expression. -/
inductive Expr where
  | ident (name : String)
  | int (value : Int64)
  | str (content : String)
  | bool (value : Bool)
  | unary (op : UnaryOp) (operand : Expr)
  | binary (op : BinaryOp) (lhs rhs : Expr)
  /-- A conditional; without an alternative it has no `else` part. -/
  | cond (test : Expr) (consequence : List Stmt) (alternative : Option (List Stmt))
  /-- A function literal. -/
  | fn (params : List String) (body : List Stmt)
  | call (callee : Expr) (args : List Expr)

/-- A statement. -/
inductive Stmt where
  /-- Binds a name in the scope in which it is executed. -/
  | bind (name : String) (value : Expr)
  /-- Leaves the enclosing function, or the program, with a value. -/
  | ret (value : Expr)
  | expr (value : Expr)
  | block (body : List Stmt)

end

/-- A sequence of statements between braces. -/
abbrev Block := List Stmt

/-- A whole program. -/
structure Program where
  statements : Block

instance : Inhabited Expr := ⟨.bool false⟩

instance : Inhabited Stmt := ⟨.block []⟩

/-! ## Equality of trees

Two trees are compared constructor by constructor; `Expr.same_iff` and `Stmt.same_iff` say that the
comparison decides equality. -/

mutual

/-- Whether two expressions are the same tree. -/
def Expr.same : Expr → Expr → Bool
  | .ident a, .ident b => a == b
  | .int a, .int b => a == b
  | .str a, .str b => a == b
  | .bool a, .bool b => a == b
  | .unary o a, .unary p b => o == p && a.same b
  | .binary o a b, .binary p c d => o == p && a.same c && b.same d
  | .cond a b c, .cond d e f => a.same d && Stmt.sameAll b e && Stmt.sameOption c f
  | .fn a b, .fn c d => a == c && Stmt.sameAll b d
  | .call a b, .call c d => a.same c && Expr.sameAll b d
  | _, _ => false

/-- Whether two lists of expressions are the same. -/
def Expr.sameAll : List Expr → List Expr → Bool
  | [], [] => true
  | a :: as, b :: bs => a.same b && Expr.sameAll as bs
  | _, _ => false

/-- Whether two statements are the same tree. -/
def Stmt.same : Stmt → Stmt → Bool
  | .bind a b, .bind c d => a == c && b.same d
  | .ret a, .ret b => a.same b
  | .expr a, .expr b => a.same b
  | .block a, .block b => Stmt.sameAll a b
  | _, _ => false

/-- Whether two blocks are the same. -/
def Stmt.sameAll : List Stmt → List Stmt → Bool
  | [], [] => true
  | a :: as, b :: bs => a.same b && Stmt.sameAll as bs
  | _, _ => false

/-- Whether two optional blocks are the same. -/
def Stmt.sameOption : Option (List Stmt) → Option (List Stmt) → Bool
  | none, none => true
  | some a, some b => Stmt.sameAll a b
  | _, _ => false

end

mutual

theorem Expr.same_iff : ∀ a b : Expr, a.same b = true ↔ a = b
  | .ident _, b => by cases b <;> simp [Expr.same]
  | .int _, b => by cases b <;> simp [Expr.same]
  | .str _, b => by cases b <;> simp [Expr.same]
  | .bool _, b => by cases b <;> simp [Expr.same]
  | .unary _ a, b => by cases b <;> simp [Expr.same, Expr.same_iff a]
  | .binary _ a a', b => by
    cases b <;> simp [Expr.same, Expr.same_iff a, Expr.same_iff a', and_assoc]
  | .cond a s o, b => by
    cases b <;>
      simp [Expr.same, Expr.same_iff a, Stmt.sameAll_iff s, Stmt.sameOption_iff o, and_assoc]
  | .fn _ s, b => by cases b <;> simp [Expr.same, Stmt.sameAll_iff s]
  | .call a as, b => by cases b <;> simp [Expr.same, Expr.same_iff a, Expr.sameAll_iff as]

theorem Expr.sameAll_iff : ∀ as bs : List Expr, Expr.sameAll as bs = true ↔ as = bs
  | [], bs => by cases bs <;> simp [Expr.sameAll]
  | a :: as, bs => by cases bs <;> simp [Expr.sameAll, Expr.same_iff a, Expr.sameAll_iff as]

theorem Stmt.same_iff : ∀ a b : Stmt, a.same b = true ↔ a = b
  | .bind _ e, b => by cases b <;> simp [Stmt.same, Expr.same_iff e]
  | .ret e, b => by cases b <;> simp [Stmt.same, Expr.same_iff e]
  | .expr e, b => by cases b <;> simp [Stmt.same, Expr.same_iff e]
  | .block s, b => by cases b <;> simp [Stmt.same, Stmt.sameAll_iff s]

theorem Stmt.sameAll_iff : ∀ as bs : List Stmt, Stmt.sameAll as bs = true ↔ as = bs
  | [], bs => by cases bs <;> simp [Stmt.sameAll]
  | a :: as, bs => by cases bs <;> simp [Stmt.sameAll, Stmt.same_iff a, Stmt.sameAll_iff as]

theorem Stmt.sameOption_iff :
    ∀ a b : Option (List Stmt), Stmt.sameOption a b = true ↔ a = b
  | none, b => by cases b <;> simp [Stmt.sameOption]
  | some s, b => by cases b <;> simp [Stmt.sameOption, Stmt.sameAll_iff s]

end

instance : DecidableEq Expr := fun a b => decidable_of_iff _ (Expr.same_iff a b)

instance : DecidableEq Stmt := fun a b => decidable_of_iff _ (Stmt.same_iff a b)

deriving instance DecidableEq for Program

end Sprig
