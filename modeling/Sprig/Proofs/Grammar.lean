import Sprig.Proofs.ReaderSteps

/-!
# The grammar

The language of programs, as a grammar over tokens and with the tree that each derivation stands
for:

    Program    = Statement* END
    Statement  = let IDENT = Expression Skip End
               | return Expression Skip End
               | Expression [ ; ]
    Skip End   = tokens that are no semicolon, then ; or END
    Block      = { Statement* ( } | END )
    Equality   = Comparison | Equality ( == | != ) Comparison
    Comparison = Sum        | Comparison ( < | > ) Sum
    Sum        = Product    | Sum ( + | - ) Product
    Product    = Unary      | Product ( * | / ) Unary
    Unary      = Call       | ( ! | - ) Unary
    Call       = Primary    | Call ( Arguments )
    Primary    = IDENT | INT | STRING | true | false | ( Expression )
               | if ( Expression ) Block [ else Block ] | fn ( Parameters ) Block

An expression is an equality. Two conditions on what follows make the grammar unambiguous: the
expression of a statement is not followed by a token that could carry it on, and a conditional
without an `else` part is not followed by `else`.

Since such conditions look past the end of a phrase, and since a block may end with the input, a
phrase is described by two lists: the tokens `ts` from its first one on, and the tokens `us` that
are left after its last.
-/

namespace Sprig

namespace Grammar

/-! ## The ladder of expressions -/

/-- The rungs of the ladder of expressions, from the loosest to the tightest. -/
inductive Rung where
  | equality
  | comparison
  | sum
  | product
  | unary
  | call
  | primary
deriving DecidableEq

namespace Rung

/-- The height of a rung; precedences are counted on the same scale. -/
def rank : Rung → Nat
  | equality => 1
  | comparison => 2
  | sum => 3
  | product => 4
  | unary => 5
  | call => 6
  | primary => 7

/-- The rung above. -/
def tighter : Rung → Rung
  | equality => comparison
  | comparison => sum
  | sum => product
  | product => unary
  | unary => call
  | call => primary
  | primary => primary

/-- The operator that a token writes between two operands on this rung. -/
def operator? : Rung → TokenKind → Option BinaryOp
  | equality, .equalEqual => some .equal
  | equality, .bangEqual => some .notEqual
  | comparison, .lessThan => some .lessThan
  | comparison, .greaterThan => some .greaterThan
  | sum, .plus => some .add
  | sum, .minus => some .subtract
  | product, .star => some .multiply
  | product, .slash => some .divide
  | _, _ => none

/-- The rung of the expressions with this operator. -/
def ofOperator : BinaryOp → Rung
  | .equal | .notEqual => equality
  | .lessThan | .greaterThan => comparison
  | .add | .subtract => sum
  | .multiply | .divide => product

end Rung

/-- The kinds of token that carry on an expression before them. -/
def carriesOn : TokenKind → Bool
  | .equalEqual | .bangEqual | .lessThan | .greaterThan | .plus | .minus | .star | .slash
  | .leftParen => true
  | _ => false

/-! ## Phrases without expressions -/

/-- One or more names with commas between them, and the closing parenthesis. -/
inductive Names : List Token → List Token → List String → Prop where
  | last {t u : Token} {us : List Token} (hname : t.kind = .ident)
      (hclosing : u.kind = .rightParen) : Names (t :: u :: us) us [t.literal]
  | more {t u : Token} {ts us : List Token} {names : List String} (hname : t.kind = .ident)
      (hcomma : u.kind = .comma) (hmore : Names ts us names) :
      Names (t :: u :: ts) us (t.literal :: names)

/-- The parameters of a function, with their parentheses. -/
inductive Parameters : List Token → List Token → List String → Prop where
  | empty {t u : Token} {us : List Token} (hopening : t.kind = .leftParen)
      (hclosing : u.kind = .rightParen) : Parameters (t :: u :: us) us []
  | listed {t : Token} {ts us : List Token} {names : List String} (hopening : t.kind = .leftParen)
      (hnames : Names ts us names) : Parameters (t :: ts) us names

/-- Tokens that are passed over, up to and with the next semicolon or up to the end. -/
inductive Skipped : List Token → List Token → Prop where
  | semicolon {skipped us : List Token} {t : Token} (hskip : ∀ s ∈ skipped, s.kind ≠ .semicolon)
      (hend : t.kind = .semicolon) : Skipped (skipped ++ t :: us) us
  | input {skipped : List Token} (hskip : ∀ s ∈ skipped, s.kind ≠ .semicolon) :
      Skipped skipped []

/-! ## Expressions and statements -/

mutual

/-- An expression on a rung of the ladder. -/
inductive Expression : Rung → List Token → List Token → Expr → Prop where
  /-- What stands on one rung stands on every looser one. -/
  | climb {r : Rung} {ts us : List Token} {e : Expr} (h : Expression r.tighter ts us e) :
      Expression r ts us e
  | binary {r : Rung} {ts us vs : List Token} {t : Token} {op : BinaryOp} {lhs rhs : Expr}
      (hl : Expression r ts (t :: us) lhs) (hop : r.operator? t.kind = some op)
      (hr : Expression r.tighter us vs rhs) : Expression r ts vs (.binary op lhs rhs)
  | not {t : Token} {ts us : List Token} {e : Expr} (hop : t.kind = .bang)
      (h : Expression .unary ts us e) : Expression .unary (t :: ts) us (.unary .not e)
  | negate {t : Token} {ts us : List Token} {e : Expr} (hop : t.kind = .minus)
      (h : Expression .unary ts us e) : Expression .unary (t :: ts) us (.unary .negate e)
  | call {ts us vs : List Token} {t : Token} {callee : Expr} {args : List Expr}
      (hc : Expression .call ts (t :: us) callee) (hopening : t.kind = .leftParen)
      (ha : Arguments us vs args) : Expression .call ts vs (.call callee args)
  | ident {t : Token} {us : List Token} (hk : t.kind = .ident) :
      Expression .primary (t :: us) us (.ident t.literal)
  | int {t : Token} {us : List Token} {n : Int64} (hk : t.kind = .integer)
      (hn : Text.readInt64? t.literal = some n) : Expression .primary (t :: us) us (.int n)
  | str {t : Token} {us : List Token} (hk : t.kind = .string) :
      Expression .primary (t :: us) us (.str t.literal)
  | yes {t : Token} {us : List Token} (hk : t.kind = .kwTrue) :
      Expression .primary (t :: us) us (.bool true)
  | no {t : Token} {us : List Token} (hk : t.kind = .kwFalse) :
      Expression .primary (t :: us) us (.bool false)
  /-- Parentheses leave no trace in the tree. -/
  | group {ts us : List Token} {e : Expr} (h : Group ts us e) : Expression .primary ts us e
  | cond {t : Token} {ts us vs : List Token} {test : Expr} {consequence : Block}
      (hk : t.kind = .kwIf) (ht : Group ts us test) (hc : Braced us vs consequence)
      (helse : currentKind vs ≠ .kwElse) :
      Expression .primary (t :: ts) vs (.cond test consequence none)
  | condElse {t u : Token} {ts us vs ws : List Token} {test : Expr}
      {consequence alternative : Block} (hk : t.kind = .kwIf) (ht : Group ts us test)
      (hc : Braced us (u :: vs) consequence) (helse : u.kind = .kwElse)
      (ha : Braced vs ws alternative) :
      Expression .primary (t :: ts) ws (.cond test consequence (some alternative))
  | fn {t : Token} {ts us vs : List Token} {params : List String} {body : Block}
      (hk : t.kind = .kwFn) (hp : Parameters ts us params) (hb : Braced us vs body) :
      Expression .primary (t :: ts) vs (.fn params body)

/-- An expression in parentheses. -/
inductive Group : List Token → List Token → Expr → Prop where
  | mk {t u : Token} {ts us : List Token} {e : Expr} (hopening : t.kind = .leftParen)
      (h : Expression .equality ts (u :: us) e) (hclosing : u.kind = .rightParen) :
      Group (t :: ts) us e

/-- The arguments of a call and the closing parenthesis. -/
inductive Arguments : List Token → List Token → List Expr → Prop where
  | empty {t : Token} {us : List Token} (hclosing : t.kind = .rightParen) :
      Arguments (t :: us) us []
  | listed {ts us : List Token} {args : List Expr} (h : ArgumentList ts us args) :
      Arguments ts us args

/-- One or more arguments with commas between them, and the closing parenthesis. -/
inductive ArgumentList : List Token → List Token → List Expr → Prop where
  | last {t : Token} {ts us : List Token} {e : Expr} (h : Expression .equality ts (t :: us) e)
      (hclosing : t.kind = .rightParen) : ArgumentList ts us [e]
  | more {t : Token} {ts us vs : List Token} {e : Expr} {args : List Expr}
      (h : Expression .equality ts (t :: us) e) (hcomma : t.kind = .comma)
      (hmore : ArgumentList us vs args) : ArgumentList ts vs (e :: args)

/-- A statement. -/
inductive Statement : List Token → List Token → Stmt → Prop where
  | bind {t name assign : Token} {ts us vs : List Token} {value : Expr} (hk : t.kind = .kwLet)
      (hname : name.kind = .ident) (hassign : assign.kind = .assign)
      (hv : Expression .equality ts us value) (hnext : carriesOn (currentKind us) = false)
      (hend : Skipped us vs) : Statement (t :: name :: assign :: ts) vs (.bind name.literal value)
  | ret {t : Token} {ts us vs : List Token} {value : Expr} (hk : t.kind = .kwReturn)
      (hv : Expression .equality ts us value) (hnext : carriesOn (currentKind us) = false)
      (hend : Skipped us vs) : Statement (t :: ts) vs (.ret value)
  | expr {ts us : List Token} {value : Expr} (hv : Expression .equality ts us value)
      (hnext : carriesOn (currentKind us) = false) : Statement ts us (.expr value)
  | terminated {t : Token} {ts us : List Token} {value : Expr}
      (hv : Expression .equality ts (t :: us) value) (hend : t.kind = .semicolon) :
      Statement ts us (.expr value)

/-- Any number of statements. -/
inductive Statements : List Token → List Token → Block → Prop where
  | nil {us : List Token} : Statements us us []
  | cons {ts us vs : List Token} {s : Stmt} {body : Block} (hs : Statement ts us s)
      (hmore : Statements us vs body) : Statements ts vs (s :: body)

/-- A block, which ends at its closing brace or with the input. -/
inductive Braced : List Token → List Token → Block → Prop where
  | closed {t u : Token} {ts us : List Token} {body : Block} (hopening : t.kind = .leftBrace)
      (h : Statements ts (u :: us) body) (hclosing : u.kind = .rightBrace) :
      Braced (t :: ts) us body
  | unclosed {t : Token} {ts : List Token} {body : Block} (hopening : t.kind = .leftBrace)
      (h : Statements ts [] body) : Braced (t :: ts) [] body

end

/-- The tokens `ts` are the program `p`. -/
def Derives (ts : List Token) (p : Program) : Prop :=
  Statements ts [] p.statements

/-! ## Heights -/

namespace Rung

variable {r : Rung} {k : TokenKind} {op : BinaryOp}

theorem rank_le_tighter (r : Rung) : r.rank ≤ r.tighter.rank := by
  cases r <;> decide

theorem equality_le_rank (r : Rung) : equality.rank ≤ r.rank := by
  cases r <;> decide

theorem rank_le_primary (r : Rung) : r.rank ≤ primary.rank := by
  cases r <;> decide

/-- An operator of a rung binds as tightly as the rung is high. -/
theorem operator?_rank (h : r.operator? k = some op) :
    BinaryOp.ofKind? k = some op ∧ k.precedence.rank = r.rank ∧ op.precedence.rank = r.rank ∧
      r.tighter.rank = r.rank + 1 ∧ r.rank ≤ 4 := by
  cases r <;> cases k <;> cases h <;> decide

theorem operator?_ofOperator (h : BinaryOp.ofKind? k = some op) :
    (ofOperator op).operator? k = some op := by
  cases k <;> cases h <;> rfl

end Rung

theorem carriesOn_eq_false_iff {k : TokenKind} : carriesOn k = false ↔ k.precedence.rank ≤ 0 := by
  cases k <;> decide

/-- What stands on a rung stands on every rung below it. -/
theorem Expression.descend {q r : Rung} {ts us : List Token} {e : Expr} (h : Expression r ts us e)
    (hqr : q.rank ≤ r.rank) : Expression q ts us e := by
  by_cases hq : q = r
  · exact hq ▸ h
  · have hlt : q.tighter.rank ≤ r.rank ∧ q.rank < q.tighter.rank := by
      revert hq hqr
      cases q <;> cases r <;> decide
    exact .climb (h.descend hlt.1)
termination_by 7 - q.rank
decreasing_by
  have : r.rank ≤ 7 := r.rank_le_primary
  omega

/-! ## First and last tokens -/

theorem starts_of_kind {t : Token} {kind : TokenKind} (h : t.kind = kind)
    (hk : Reader.startsExpression kind = true) (ts : List Token) :
    Reader.startsExpression (currentKind (t :: ts)) = true := by
  rw [currentKind, h]
  exact hk

theorem Group.starts {ts us : List Token} {e : Expr} :
    Group ts us e → Reader.startsExpression (currentKind ts) = true
  | .mk hk _ _ => starts_of_kind hk rfl _

theorem Expression.starts {r : Rung} {ts us : List Token} {e : Expr} :
    Expression r ts us e → Reader.startsExpression (currentKind ts) = true
  | .climb h => h.starts
  | .binary hl _ _ => hl.starts
  | .call hc _ _ => hc.starts
  | .group h => h.starts
  | .not hk _ | .negate hk _ => starts_of_kind hk rfl _
  | .ident hk | .int hk _ | .str hk | .yes hk | .no hk => starts_of_kind hk rfl _
  | .cond hk _ _ _ | .condElse hk _ _ _ _ | .fn hk _ _ => starts_of_kind hk rfl _

/-- A statement starts with an expression or with one of two keywords. -/
theorem Statement.starts {ts us : List Token} {s : Stmt} (h : Statement ts us s) :
    currentKind ts = .kwLet ∨ currentKind ts = .kwReturn ∨
      Reader.startsExpression (currentKind ts) = true := by
  cases h with
  | bind hk => exact .inl hk
  | ret hk => exact .inr (.inl hk)
  | expr hv => exact .inr (.inr hv.starts)
  | terminated hv => exact .inr (.inr hv.starts)

theorem Names.isSuffix {ts us : List Token} {names : List String} (h : Names ts us names) :
    us <:+ ts := by
  induction h with
  | last => exact (List.suffix_cons _ _).trans (List.suffix_cons _ _)
  | more _ _ _ ih => exact ih.trans ((List.suffix_cons _ _).trans (List.suffix_cons _ _))

theorem Parameters.isSuffix {ts us : List Token} {names : List String}
    (h : Parameters ts us names) : us <:+ ts := by
  cases h with
  | empty => exact (List.suffix_cons _ _).trans (List.suffix_cons _ _)
  | listed _ hn => exact hn.isSuffix.trans (List.suffix_cons _ _)

theorem Skipped.isSuffix {ts us : List Token} (h : Skipped ts us) : us <:+ ts := by
  cases h with
  | semicolon => exact (List.suffix_cons _ _).trans (List.suffix_append _ _)
  | input => exact List.nil_suffix

mutual

/-- A phrase takes its tokens off the front. -/
theorem Expression.isSuffix {r : Rung} {ts us : List Token} {e : Expr} :
    Expression r ts us e → us <:+ ts
  | .climb h => h.isSuffix
  | .binary hl _ hr => hr.isSuffix.trans ((List.suffix_cons _ _).trans hl.isSuffix)
  | .not _ h | .negate _ h => h.isSuffix.trans (List.suffix_cons _ _)
  | .call hc _ ha => ha.isSuffix.trans ((List.suffix_cons _ _).trans hc.isSuffix)
  | .ident _ | .int _ _ | .str _ | .yes _ | .no _ => List.suffix_cons _ _
  | .group h => h.isSuffix
  | .cond _ ht hc _ => hc.isSuffix.trans (ht.isSuffix.trans (List.suffix_cons _ _))
  | .condElse _ ht hc _ ha => ha.isSuffix.trans
      ((List.suffix_cons _ _).trans (hc.isSuffix.trans (ht.isSuffix.trans (List.suffix_cons _ _))))
  | .fn _ hp hb => hb.isSuffix.trans (hp.isSuffix.trans (List.suffix_cons _ _))

theorem Group.isSuffix {ts us : List Token} {e : Expr} : Group ts us e → us <:+ ts
  | .mk _ h _ => (List.suffix_cons _ _).trans (h.isSuffix.trans (List.suffix_cons _ _))

theorem Arguments.isSuffix {ts us : List Token} {args : List Expr} :
    Arguments ts us args → us <:+ ts
  | .empty _ => List.suffix_cons _ _
  | .listed h => h.isSuffix

theorem ArgumentList.isSuffix {ts us : List Token} {args : List Expr} :
    ArgumentList ts us args → us <:+ ts
  | .last h _ => (List.suffix_cons _ _).trans h.isSuffix
  | .more h _ hmore => hmore.isSuffix.trans ((List.suffix_cons _ _).trans h.isSuffix)

theorem Statement.isSuffix {ts us : List Token} {s : Stmt} : Statement ts us s → us <:+ ts
  | .bind _ _ _ hv _ hend => hend.isSuffix.trans (hv.isSuffix.trans ((List.suffix_cons _ _).trans
      ((List.suffix_cons _ _).trans (List.suffix_cons _ _))))
  | .ret _ hv _ hend => hend.isSuffix.trans (hv.isSuffix.trans (List.suffix_cons _ _))
  | .expr hv _ => hv.isSuffix
  | .terminated hv _ => (List.suffix_cons _ _).trans hv.isSuffix

theorem Statements.isSuffix {ts us : List Token} {body : Block} : Statements ts us body → us <:+ ts
  | .nil => List.suffix_refl _
  | .cons hs hmore => hmore.isSuffix.trans hs.isSuffix

theorem Braced.isSuffix {ts us : List Token} {body : Block} : Braced ts us body → us <:+ ts
  | .closed _ h _ => (List.suffix_cons _ _).trans (h.isSuffix.trans (List.suffix_cons _ _))
  | .unclosed _ _ => List.nil_suffix

end

end Grammar

end Sprig
