import Mathlib.Data.List.TakeWhile
import Sprig.Proofs.Grammar
import Sprig.Tree.Parsed

/-!
# The readers accept the grammar

On tokens among which no end of input stands, the readers notice no error exactly if the tokens are
derived by the grammar, and then they give the tree of the derivation.

That what they give is derived (`expression_derived` and its companions) follows the readers. The
loop over operators keeps an operand that stands on some rung and is followed by a token that binds
no tighter than that rung; an operator is taken only below the rung of the operand, so the operand
may descend to the operator's rung, and the new operand stands there. A closing brace may follow the
tokens that are read, and then it belongs to a block that they leave open, if there is one.

That what is derived is given (`Expression.given` and its companions) follows the derivation. The
readers are greedy, and a phrase may be followed by an operator that a surrounding phrase takes, so
the statement is about the loop: reading the phrase comes down to going on with the loop after it.
-/

namespace Sprig

open Reader Reading

namespace Grammar

variable {stop : Span} {p : Precedence} {ts us vs : List Token} {e : Expr}

/-! ## Tokens before the end of the input -/

/-- No token is of the kind that stands for the end of the input. -/
def NoEnd (ts : List Token) : Prop :=
  ∀ t ∈ ts, t.kind ≠ .eof

theorem NoEnd.of_suffix (h : NoEnd ts) (hs : us <:+ ts) : NoEnd us :=
  fun t ht => h t (hs.subset ht)

theorem NoEnd.tail (h : NoEnd ts) : NoEnd ts.tail :=
  h.of_suffix (List.tail_suffix ts)

theorem NoEnd.eq_nil (h : NoEnd ts) (hk : currentKind ts = .eof) : ts = [] := by
  match ts with
  | [] => rfl
  | t :: rest => exact absurd hk (h t List.mem_cons_self)

/-- The search for a terminator passes over a token that is none. -/
theorem fromTerminator_eq_tail (h : NoEnd ts) (hk : currentKind ts ≠ .semicolon) :
    fromTerminator ts = fromTerminator ts.tail := by
  match ts with
  | [] => rfl
  | t :: rest =>
    have heof : t.kind ≠ .eof := h t List.mem_cons_self
    have hsemi : t.kind ≠ .semicolon := hk
    simp [fromTerminator, isTerminator, heof, hsemi]

/-- The search for a terminator ends on a semicolon unless it comes to the end. -/
theorem currentKind_fromTerminator (h : NoEnd ts) (hne : fromTerminator ts ≠ []) :
    currentKind (fromTerminator ts) = .semicolon := by
  obtain ⟨t, rest, hd⟩ := List.exists_cons_of_ne_nil hne
  have hmem : t ∈ ts := (List.dropWhile_suffix _).subset (hd ▸ List.mem_cons_self)
  have hterm : isTerminator t = true := by
    have hhead := List.head_dropWhile_not (fun t => !isTerminator t) (l := ts) hne
    simp only [fromTerminator] at hd
    simpa [hd] using hhead
  rw [hd]
  simpa [isTerminator, currentKind, h t hmem] using hterm

theorem skipped_fromTerminator (h : NoEnd ts) : Skipped ts (fromTerminator ts).tail := by
  have hskip : ∀ s ∈ ts.takeWhile fun t => !isTerminator t, s.kind ≠ .semicolon := by
    intro s hs hk
    have := List.mem_takeWhile_imp hs
    simp [isTerminator, hk] at this
  have happ : _ ++ fromTerminator ts = ts :=
    List.takeWhile_append_dropWhile (p := fun t => !isTerminator t) (l := ts)
  cases hd : fromTerminator ts with
  | nil =>
    rw [hd, List.append_nil] at happ
    rw [happ] at hskip
    exact .input hskip
  | cons t rest =>
    have hk := currentKind_fromTerminator h (hd ▸ List.cons_ne_nil t rest)
    rw [hd] at happ hk
    rw [← happ]
    exact .semicolon hskip hk

theorem Skipped.fromTerminator_tail (h : Skipped ts us) (hts : NoEnd ts) :
    (fromTerminator ts).tail = us := by
  have hterm : ∀ s ∈ ts, s.kind ≠ .semicolon → (!isTerminator s) = true := by
    intro s hs hk
    simp [isTerminator, hk, hts s hs]
  cases h with
  | semicolon hskip hend =>
    have : ∀ s ∈ _, (!isTerminator s) = true :=
      fun s hs => hterm s (List.mem_append_left _ hs) (hskip s hs)
    rw [fromTerminator, List.dropWhile_append_of_pos this]
    simp [isTerminator, hend]
  | input hskip =>
    have : ∀ s ∈ ts, (!isTerminator s) = true := fun s hs => hterm s hs (hskip s hs)
    rw [fromTerminator, List.dropWhile_eq_nil_iff.2 this]
    rfl

/-! ## What may follow the tokens -/

/-- Nothing, or a closing brace. -/
def Trailing (more : List Token) : Prop :=
  more = [] ∨ ∃ b : Token, b.kind = .rightBrace ∧ more = [b]

section Trailing

variable {more rest : List Token} {t : Token}

theorem Trailing.empty : Trailing [] :=
  .inl rfl

theorem Trailing.brace (h : t.kind = .rightBrace) : Trailing [t] :=
  .inr ⟨t, h, rfl⟩

theorem Trailing.tail_eq_nil (h : Trailing more) : more.tail = [] := by
  rcases h with rfl | ⟨b, -, rfl⟩ <;> rfl

theorem Trailing.noEnd (h : Trailing more) (hts : NoEnd ts) : NoEnd (ts ++ more) := by
  rcases h with rfl | ⟨b, hb, rfl⟩
  · rw [List.append_nil]
    exact hts
  · exact List.forall_mem_append.2 ⟨hts, List.forall_mem_singleton.2 (by simp [hb])⟩

theorem Trailing.currentKind_append (h : Trailing more) (us : List Token) :
    currentKind (us ++ more) = currentKind us ∨ currentKind (us ++ more) = .rightBrace := by
  cases us with
  | nil => exact h.imp (by rintro rfl; rfl) (by rintro ⟨b, hb, rfl⟩; exact hb)
  | cons t us => exact .inl rfl

theorem Trailing.nextKind_append (h : Trailing more) (us : List Token) :
    nextKind (us ++ more) = nextKind us ∨ nextKind (us ++ more) = .rightBrace := by
  cases us with
  | nil => exact .inl (congrArg currentKind h.tail_eq_nil)
  | cons t us => exact h.currentKind_append us

theorem tail_append_of_currentKind {kind : TokenKind} (h : currentKind us = kind)
    (hk : kind ≠ .eof) : (us ++ more).tail = us.tail ++ more := by
  obtain ⟨t, rest, rfl, -⟩ := exists_cons_of_currentKind h hk
  rfl

theorem tail_append_of_tail_eq_cons (h : us.tail = t :: rest) :
    (us ++ more).tail = t :: (rest ++ more) := by
  cases us with
  | nil => cases h
  | cons u us => exact congrArg (· ++ more) h

/-- The search for a terminator passes over a closing brace. -/
theorem Trailing.tail_fromTerminator (h : Trailing more) (us : List Token) :
    (fromTerminator (us ++ more)).tail = (fromTerminator us ++ more).tail := by
  have hmore : fromTerminator more = [] := by
    rcases h with rfl | ⟨b, hb, rfl⟩
    · rfl
    · simp [fromTerminator, isTerminator, hb]
  by_cases hnil : fromTerminator us = []
  · rw [hnil, List.nil_append, h.tail_eq_nil, fromTerminator, List.dropWhile_append, if_pos]
    · exact congrArg List.tail hmore
    · rw [List.isEmpty_iff]
      exact hnil
  · rw [fromTerminator, List.dropWhile_append, if_neg]
    · rfl
    · rw [List.isEmpty_iff]
      exact hnil

end Trailing

/-! ## What is given is derived -/

/-- The rung of the expressions that are read when every operator has to bind tighter than `p`. -/
def Rung.above : Precedence → Rung
  | .lowest => equality
  | .equals => comparison
  | .lessGreater => sum
  | .sum => product
  | .product | .unary | .call => unary

theorem Rung.rank_above (p : Precedence) : (Rung.above p).rank = min (p.rank + 1) 5 := by
  cases p <;> decide

/-- An expression on the rung `r` takes `ts` up to the token on which the reader stands, which is
the first one of `us`, and the next one binds with height `n` at most. -/
structure Operand (r : Rung) (n : Nat) (ts us : List Token) (e : Expr) : Prop where
  derived : Expression r ts us.tail e
  next_le : (nextKind us).precedence.rank ≤ n
  not_semicolon : currentKind us ≠ .semicolon

theorem names_sound : ∀ (ts : List Token) {names : List String},
    (parameterNames stop ts).Gives (some names) us → Names ts us.tail names := by
  intro ts names h
  obtain ⟨t, u, rest, rfl, hname, ⟨hcomma, more, hmore, rfl⟩ | ⟨hclosing, rfl, rfl⟩⟩ :=
    parameterNames_gives.1 h
  · exact .more hname hcomma (names_sound rest hmore)
  · exact .last hname hclosing

theorem parameters_sound {names : List String} (hts : currentKind ts = .leftParen)
    (h : (parameters stop ts).Gives (some names) us) : Parameters ts us.tail names := by
  obtain ⟨t, rest, rfl, hopening⟩ := exists_cons_of_currentKind hts (by decide)
  rcases parameters_gives.1 h with ⟨hnext, rfl, rfl⟩ | ⟨-, hnames⟩
  · obtain ⟨u, rest, rfl, hclosing⟩ := exists_cons_of_currentKind hnext (by decide)
    exact .empty hopening hclosing
  · exact .listed hopening (names_sound rest hnames)

theorem Names.append {names : List String} (h : Names ts us names) (more : List Token) :
    Names (ts ++ more) (us ++ more) names := by
  induction h with
  | last hname hclosing => exact .last hname hclosing
  | more hname hcomma _ ih => exact .more hname hcomma ih

theorem Parameters.append {names : List String} (h : Parameters ts us names) (more : List Token) :
    Parameters (ts ++ more) (us ++ more) names := by
  cases h with
  | empty hopening hclosing => exact .empty hopening hclosing
  | listed hopening hnames => exact .listed hopening (hnames.append more)

theorem rank_precedence_le (k : TokenKind) : k.precedence.rank ≤ 6 := by
  cases k <;> decide

/-- A token that binds tighter than some precedence and is no operator opens the arguments of a
call. -/
theorem eq_leftParen_of_lt {k : TokenKind} {n : Nat} (hk : BinaryOp.ofKind? k = none)
    (h : n < k.precedence.rank) : k = .leftParen := by
  have hpos : 0 < k.precedence.rank := by omega
  clear h
  revert hk hpos
  cases k <;> decide

section Derived

variable {more : List Token}

-- A block that is open where the tokens end takes the brace that may follow them. So a phrase
-- takes the brace if the reader stands at the end after it, and leaves it if it stands on a token.
mutual

theorem expression_derived (hmore : Trailing more) (p : Precedence) (ts : List Token) {e : Expr}
    {us : List Token} (hts : NoEnd ts) (h : (expression stop p ts).Gives (some e) us) :
    Operand (Rung.above p) p.rank (ts ++ more) (us ++ more) e := by
  obtain ⟨lhs, vs, hlhs, hops⟩ := expression_gives.1 h
  obtain ⟨r, hr, hoperand⟩ := primary_derived hmore ts hts hlhs
  have hvs : vs.length ≤ ts.length := hlhs.isSuffix.length_le
  have habove : (Rung.above p).rank ≤ r.rank := by
    rw [Rung.rank_above]
    omega
  exact operators_derived hmore p vs (hts.of_suffix hlhs.isSuffix) hoperand habove hops
termination_by 8 * ts.length + 2
decreasing_by all_goals omega

theorem primary_derived (hmore : Trailing more) (ts : List Token) {e : Expr} {us : List Token}
    (hts : NoEnd ts) (h : (primary stop ts).Gives (some e) us) :
    ∃ r : Rung, 5 ≤ r.rank ∧ Operand r r.rank (ts ++ more) (us ++ more) e := by
  match ts with
  | [] => exact absurd h (not_primary_gives rfl)
  | t :: rest =>
    -- On the highest rung the next token does not matter.
    have hprimary {us : List Token} {e : Expr}
        (hd : Expression .primary (t :: rest ++ more) (us ++ more).tail e)
        (hs : currentKind (us ++ more) ≠ .semicolon) :
        ∃ r : Rung, 5 ≤ r.rank ∧ Operand r r.rank (t :: rest ++ more) (us ++ more) e :=
      ⟨.primary, by decide, hd, Nat.le_succ_of_le (rank_precedence_le _), hs⟩
    have hrest : NoEnd rest := hts.tail
    cases hk : t.kind with
    | ident =>
      obtain ⟨rfl, rfl⟩ := (primary_ident hk).1 h
      exact hprimary (.ident hk) (by simp [currentKind, hk])
    | integer =>
      obtain ⟨n, hn, rfl, rfl⟩ := (primary_integer hk).1 h
      exact hprimary (.int hk hn) (by simp [currentKind, hk])
    | string =>
      obtain ⟨rfl, rfl⟩ := (primary_string hk).1 h
      exact hprimary (.str hk) (by simp [currentKind, hk])
    | kwTrue =>
      obtain ⟨rfl, rfl⟩ := (primary_kwTrue hk).1 h
      exact hprimary (.yes hk) (by simp [currentKind, hk])
    | kwFalse =>
      obtain ⟨rfl, rfl⟩ := (primary_kwFalse hk).1 h
      exact hprimary (.no hk) (by simp [currentKind, hk])
    | bang =>
      obtain ⟨operand, ho, rfl⟩ := (primary_unary (by rw [hk]; rfl)).1 h
      obtain ⟨hd, hn, hs⟩ := expression_derived hmore .unary rest hrest ho
      exact ⟨.unary, by decide, .not hk hd, hn, hs⟩
    | minus =>
      obtain ⟨operand, ho, rfl⟩ := (primary_unary (by rw [hk]; rfl)).1 h
      obtain ⟨hd, hn, hs⟩ := expression_derived hmore .unary rest hrest ho
      exact ⟨.unary, by decide, .negate hk hd, hn, hs⟩
    | leftParen =>
      obtain ⟨hg, hclosing⟩ := group_derived hmore (t :: rest) hts ((primary_leftParen hk).1 h)
      refine hprimary (.group hg) ?_
      rcases hmore.currentKind_append us with hus | hus <;> simp [hus, hclosing]
    | kwIf =>
      obtain ⟨test, consequence, vs, ws, ht, hc, hrest'⟩ := (primary_kwIf hk).1 h
      have hvs : vs.tail <:+ rest := (List.tail_suffix vs).trans ht.isSuffix
      have hws : ws.tail.tail <:+ rest :=
        ((List.tail_suffix _).trans (List.tail_suffix _)).trans (hc.isSuffix.trans hvs)
      have hvs' := hvs.length_le
      have hws' := hws.length_le
      obtain ⟨hg, hclosing⟩ := group_derived hmore rest hrest ht
      rw [tail_append_of_currentKind hclosing (by decide)] at hg
      obtain ⟨hb, hs⟩ := block_derived hmore vs.tail (hrest.of_suffix hvs) hc
      rcases hrest' with ⟨helse, rfl, rfl⟩ | ⟨helse, alternative, ha, rfl⟩
      · refine hprimary (.cond hk hg hb ?_) hs
        rcases hmore.nextKind_append ws with hnext | hnext
        · exact fun h => helse (hnext.symm.trans h)
        · exact fun h => absurd (hnext.symm.trans h) (by decide)
      · obtain ⟨u, after, hu, hk'⟩ := exists_cons_of_currentKind helse (by decide)
        obtain ⟨hb', hs'⟩ := block_derived hmore ws.tail.tail (hrest.of_suffix hws) ha
        rw [tail_append_of_tail_eq_cons hu] at hb
        rw [hu] at hb'
        exact hprimary (.condElse hk hg hb hk' hb') hs'
    | kwFn =>
      obtain ⟨hopening, params, vs, body, hp, hb, rfl⟩ := (primary_kwFn hk).1 h
      have hvs : vs.tail <:+ rest := (List.tail_suffix vs).trans hp.isSuffix
      have hvs' := hvs.length_le
      obtain ⟨hb, hs⟩ := block_derived hmore vs.tail (hrest.of_suffix hvs) hb
      exact hprimary (.fn hk ((parameters_sound hopening hp).append more) hb) hs
    | _ => exact absurd h (not_primary_gives (by simp [currentKind, hk, startsExpression]))
termination_by 8 * ts.length + 1
decreasing_by all_goals simp only [List.length_cons]; omega

theorem group_derived (hmore : Trailing more) (ts : List Token) {e : Expr} {us : List Token}
    (hts : NoEnd ts) (h : ReadsGroup stop ts e us) :
    Group (ts ++ more) (us ++ more).tail e ∧ currentKind us = .rightParen := by
  match ts with
  | [] =>
    obtain ⟨_, _, _, heq, -⟩ := h
    cases heq
  | opening :: rest =>
    obtain ⟨_, _, vs, heq, hopening, he, rfl, hclosing⟩ := h
    cases heq
    have hd := (expression_derived hmore .lowest rest hts.tail he).derived
    obtain ⟨closing, after, hvs, hk⟩ := exists_cons_of_currentKind hclosing (by decide)
    rw [tail_append_of_tail_eq_cons hvs] at hd
    rw [hvs]
    exact ⟨.mk hopening hd hk, hk⟩
termination_by 8 * ts.length
decreasing_by simp only [List.length_cons]; omega

theorem block_derived (hmore : Trailing more) (ts : List Token) {body : Block} {us : List Token}
    (hts : NoEnd ts) (h : ReadsBlock stop ts body us) :
    Braced (ts ++ more) (us ++ more).tail body ∧ currentKind (us ++ more) ≠ .semicolon := by
  match ts with
  | [] =>
    obtain ⟨_, _, heq, -⟩ := h
    cases heq
  | brace :: rest =>
    obtain ⟨_, _, heq, hopening, hb⟩ := h
    cases heq
    obtain ⟨hd, hend⟩ := statements_derived hmore true rest hts.tail hb
    rcases hend with heof | ⟨-, hclosing⟩
    · obtain rfl := (hts.tail.of_suffix hb.isSuffix).eq_nil heof
      rcases hmore with rfl | ⟨b, hb, rfl⟩
      · exact ⟨.unclosed hopening (hd.elim id And.right), by decide⟩
      · refine ⟨?_, by simp [currentKind, hb]⟩
        exact hd.elim (.closed hopening · hb) fun hd => .unclosed hopening hd.2
    · obtain ⟨closing, after, rfl, hk⟩ := exists_cons_of_currentKind hclosing (by decide)
      have hd := hd.resolve_right fun h => List.cons_ne_nil closing after h.1
      exact ⟨.closed hopening hd hk, by simp [currentKind, hk]⟩
termination_by 8 * ts.length
decreasing_by simp only [List.length_cons]; omega

theorem operators_derived (hmore : Trailing more) (p : Precedence) (ts : List Token) {r : Rung}
    {lhs e : Expr} {start us : List Token} (hts : NoEnd ts)
    (hlhs : Operand r r.rank start (ts ++ more) lhs) (hr : (Rung.above p).rank ≤ r.rank)
    (h : (operators stop p lhs ts).Gives (some e) us) :
    Operand (Rung.above p) p.rank start (us ++ more) e := by
  by_cases hp : p < (nextKind ts).precedence
  · obtain ⟨t, rest, hrest, hk⟩ := exists_cons_of_currentKind (rfl : nextKind ts = nextKind ts)
      (ne_eof_of_lt hp)
    have hlen := length_of_tail_eq_cons hrest
    have hnoend := hts.of_suffix (isSuffix_of_tail_eq_cons hrest)
    have hrest' : (ts ++ more).tail = t :: (rest ++ more) := tail_append_of_tail_eq_cons hrest
    obtain ⟨hd, hnext, -⟩ := hlhs
    rw [nextKind, hrest'] at hnext
    rw [← hk] at hp
    rw [hrest'] at hd
    have hlt : p.rank < t.kind.precedence.rank := hp
    cases hop : BinaryOp.ofKind? t.kind with
    | some op =>
      obtain ⟨rhs, vs, hrhs, hmore'⟩ := (operators_binary hrest hp hop).1 h
      have hvs : vs.length ≤ rest.length := hrhs.isSuffix.length_le
      obtain ⟨hd', hn', hs'⟩ := expression_derived hmore op.precedence rest hnoend hrhs
      have hop' := Rung.operator?_ofOperator hop
      obtain ⟨-, hprec, hprec', htighter, hfour⟩ := Rung.operator?_rank hop'
      -- The operand descends to the rung of the operator.
      have hlhs' : Expression (Rung.ofOperator op) start (t :: (rest ++ more)) lhs :=
        hd.descend (by change t.kind.precedence.rank ≤ _ at hnext; omega)
      have hrhs' : Expression (Rung.ofOperator op).tighter (rest ++ more) (vs ++ more).tail rhs :=
        hd'.descend (by rw [Rung.rank_above]; omega)
      have hnew : Operand (Rung.ofOperator op) (Rung.ofOperator op).rank start (vs ++ more)
          (.binary op lhs rhs) := ⟨.binary hlhs' hop' hrhs', hprec' ▸ hn', hs'⟩
      refine operators_derived hmore p vs (hnoend.of_suffix hrhs.isSuffix) hnew ?_ hmore'
      rw [Rung.rank_above]
      omega
    | none =>
      obtain ⟨args, vs, hargs, hmore'⟩ := (operators_call hrest hp hop).1 h
      have hvs : vs.length ≤ rest.length := hargs.isSuffix.length_le
      obtain ⟨ha, hclosing⟩ := arguments_derived hmore rest hnoend hargs
      have hopening := eq_leftParen_of_lt hop hlt
      change t.kind.precedence.rank ≤ _ at hnext
      rw [hopening] at hnext
      have hs : currentKind (vs ++ more) ≠ .semicolon := by
        rcases hmore.currentKind_append vs with hvs | hvs <;> simp [hvs, hclosing]
      have hnew : Operand .call Rung.call.rank start (vs ++ more) (.call lhs args) :=
        ⟨.call (hd.descend hnext) hopening ha, rank_precedence_le _, hs⟩
      refine operators_derived hmore p vs (hnoend.of_suffix hargs.isSuffix) hnew ?_ hmore'
      rw [Rung.rank_above]
      exact Nat.le_trans (Nat.min_le_right _ _) (by decide)
  · obtain ⟨rfl, rfl⟩ := (operators_stop hp).1 h
    refine ⟨hlhs.derived.descend hr, ?_, hlhs.not_semicolon⟩
    rcases hmore.nextKind_append ts with hnext | hnext
    · rw [hnext]
      exact Nat.le_of_not_lt hp
    · rw [hnext]
      exact Nat.zero_le _
termination_by 8 * ts.length + 1
decreasing_by all_goals omega

theorem arguments_derived (hmore : Trailing more) (ts : List Token) {args : List Expr}
    {us : List Token} (hts : NoEnd ts) (h : (arguments stop ts).Gives (some args) us) :
    Arguments (ts ++ more) (us ++ more).tail args ∧ currentKind us = .rightParen := by
  rcases arguments_gives.1 h with ⟨hclosing, rfl, rfl⟩ | ⟨-, hlist⟩
  · obtain ⟨t, rest, rfl, hk⟩ := exists_cons_of_currentKind hclosing (by decide)
    exact ⟨.empty hk, hk⟩
  · obtain ⟨ha, hk⟩ := argumentList_derived hmore ts hts hlist
    exact ⟨.listed ha, hk⟩
termination_by 8 * ts.length + 4
decreasing_by all_goals omega

theorem argumentList_derived (hmore : Trailing more) (ts : List Token) {args : List Expr}
    {us : List Token} (hts : NoEnd ts) (h : (argumentList stop ts).Gives (some args) us) :
    ArgumentList (ts ++ more) (us ++ more).tail args ∧ currentKind us = .rightParen := by
  obtain ⟨e, vs, separator, rest, he, hvs, hrest⟩ := argumentList_gives.1 h
  have hd := (expression_derived hmore .lowest ts hts he).derived
  rw [tail_append_of_tail_eq_cons hvs] at hd
  rcases hrest with ⟨hcomma, args, hargs, rfl⟩ | ⟨hclosing, rfl, rfl⟩
  · have hlen := length_of_tail_eq_cons hvs
    have hlen' : vs.length ≤ ts.length := he.isSuffix.length_le
    have hnoend := hts.of_suffix ((isSuffix_of_tail_eq_cons hvs).trans he.isSuffix)
    obtain ⟨ha, hk⟩ := argumentList_derived hmore rest hnoend hargs
    exact ⟨.more hd hcomma ha, hk⟩
  · exact ⟨.last hd hclosing, hclosing⟩
termination_by 8 * ts.length + 3
decreasing_by all_goals omega

theorem statement_derived (hmore : Trailing more) (ts : List Token) {s : Stmt} {us : List Token}
    (hts : NoEnd ts) (h : (statement stop ts).Gives (some s) us) :
    Statement (ts ++ more) (us ++ more).tail s := by
  match ts with
  | [] =>
    obtain ⟨value, vs, hv, -⟩ := (statement_expression (by decide) (by decide)).1 h
    obtain ⟨lhs, ws, hlhs, -⟩ := expression_gives.1 hv
    exact absurd hlhs (not_primary_gives rfl)
  | t :: ts =>
    by_cases hlet : currentKind (t :: ts) = .kwLet
    · obtain ⟨name, assign, rest, value, vs, heq, hname, hassign, hv, rfl, rfl⟩ :=
        (statement_kwLet hlet).1 h
      have hts' : ts = name :: assign :: rest := heq
      have hlen : rest.length < ts.length := by
        simp only [hts', List.length_cons]
        omega
      have hnoend : NoEnd rest := hts.tail.of_suffix (isSuffix_of_tail_eq_cons (congrArg _ hts'))
      obtain ⟨hd, hnext, hs⟩ := expression_derived hmore .lowest rest hnoend hv
      have hvs := hmore.noEnd (hnoend.of_suffix hv.isSuffix)
      rw [hts', ← hmore.tail_fromTerminator, fromTerminator_eq_tail hvs hs]
      exact .bind hlet hname hassign hd (carriesOn_eq_false_iff.2 hnext)
        (skipped_fromTerminator hvs.tail)
    by_cases hret : currentKind (t :: ts) = .kwReturn
    · obtain ⟨value, vs, hv, rfl, rfl⟩ := (statement_kwReturn hret).1 h
      obtain ⟨hd, hnext, hs⟩ := expression_derived hmore .lowest ts hts.tail hv
      have hvs := hmore.noEnd (hts.tail.of_suffix hv.isSuffix)
      rw [← hmore.tail_fromTerminator, fromTerminator_eq_tail hvs hs]
      exact .ret hret hd (carriesOn_eq_false_iff.2 hnext) (skipped_fromTerminator hvs.tail)
    · obtain ⟨value, vs, hv, rfl, rfl⟩ := (statement_expression hlet hret).1 h
      obtain ⟨hd, hnext, -⟩ := expression_derived hmore .lowest (t :: ts) hts hv
      split
      · next hsemi =>
        obtain ⟨u, rest, hrest, hk⟩ := exists_cons_of_currentKind hsemi (by decide)
        rw [tail_append_of_tail_eq_cons hrest] at hd
        rw [hrest]
        exact .terminated hd hk
      · exact .expr hd (carriesOn_eq_false_iff.2 hnext)
termination_by 8 * ts.length + 3
decreasing_by all_goals simp only [List.length_cons]; omega

theorem statements_derived (hmore : Trailing more) (inBlock : Bool) (ts : List Token)
    {body : Block} {us : List Token} (hts : NoEnd ts)
    (h : (statements stop inBlock ts).Gives body us) :
    (Statements (ts ++ more) (us ++ more) body ∨ us = [] ∧ Statements (ts ++ more) [] body) ∧
      endsStatements inBlock (currentKind us) := by
  by_cases hend : endsStatements inBlock (currentKind ts)
  · obtain ⟨rfl, rfl⟩ := (statements_stop hend).1 h
    exact ⟨.inl .nil, hend⟩
  · obtain ⟨s, vs, body, hs, hbody, rfl⟩ := (statements_more hend).1 h
    have hd := statement_derived hmore ts hts hs
    by_cases hnil : vs = []
    · -- The statement took the brace, and no statement comes after it.
      subst hnil
      obtain ⟨rfl, rfl⟩ := (statements_stop (.inl rfl)).1 hbody
      rw [List.nil_append, hmore.tail_eq_nil] at hd
      exact ⟨.inr ⟨rfl, .cons hd .nil⟩, .inl rfl⟩
    · have hvs := hs.isSuffix
      have hlt : vs.tail.length < ts.length := by
        have hpos : 0 < ts.length := List.length_pos_iff.2 (by rintro rfl; exact hend (.inl rfl))
        have := hvs.length_le
        rw [List.length_tail]
        omega
      rw [List.tail_append_of_ne_nil hnil] at hd
      obtain ⟨hd', hend'⟩ := statements_derived hmore inBlock vs.tail (hts.of_suffix hvs).tail hbody
      exact ⟨hd'.imp (.cons hd) (And.imp_right (.cons hd)), hend'⟩
termination_by 8 * ts.length + 4
decreasing_by all_goals omega

end

end Derived

theorem expression_sound (p : Precedence) (ts : List Token) {e : Expr} {us : List Token}
    (hts : NoEnd ts) (h : (expression stop p ts).Gives (some e) us) :
    Operand (Rung.above p) p.rank ts us e := by
  have hd := expression_derived .empty p ts hts h
  rwa [List.append_nil, List.append_nil] at hd

theorem statements_sound (inBlock : Bool) (ts : List Token) {body : Block} {us : List Token}
    (hts : NoEnd ts) (h : (statements stop inBlock ts).Gives body us) :
    Statements ts us body ∧ endsStatements inBlock (currentKind us) := by
  obtain ⟨hd, hend⟩ := statements_derived .empty inBlock ts hts h
  rw [List.append_nil, List.append_nil] at hd
  exact ⟨hd.elim id fun hd => hd.1 ▸ hd.2, hend⟩

/-! ## What is derived is given -/

/-- Reading an expression from `ts` comes down to going on, after `e`, with the operators that
follow, of which `us` are the tokens. -/
def Continues (stop : Span) (p : Precedence) (ts us : List Token) (e : Expr) : Prop :=
  ∃ vs, vs.tail = us ∧ ∀ e' ws, (operators stop p e vs).Gives (some e') ws →
    (expression stop p ts).Gives (some e') ws

theorem Continues.gives (h : Continues stop p ts us e)
    (hnext : (currentKind us).precedence.rank ≤ p.rank) :
    ∃ vs, vs.tail = us ∧ (expression stop p ts).Gives (some e) vs := by
  obtain ⟨vs, rfl, hops⟩ := h
  exact ⟨vs, rfl, hops e vs ((operators_stop (Nat.not_lt.2 hnext)).2 ⟨rfl, rfl⟩)⟩

/-- A whole expression that nothing carries on is given; `h` is what is proved of the rung of whole
expressions. -/
theorem gives_of_continues (h : ∀ p : Precedence, NoEnd ts → p.rank ≤ 5 →
      (Rung.above p).rank ≤ Rung.equality.rank →
      (currentKind us).precedence.rank ≤ Rung.equality.rank → Continues stop p ts us e)
    (hts : NoEnd ts) (hnext : carriesOn (currentKind us) = false) :
    ∃ vs, vs.tail = us ∧ (expression stop .lowest ts).Gives (some e) vs := by
  have hle := carriesOn_eq_false_iff.1 hnext
  exact (h .lowest hts (by decide) (by decide) (Nat.le_succ_of_le hle)).gives hle

theorem continues_of_primary (h : (primary stop ts).Gives (some e) vs) :
    Continues stop p ts vs.tail e :=
  ⟨vs, rfl, fun _ _ hops => expression_gives.2 ⟨e, vs, h, hops⟩⟩

theorem Names.given {names : List String} (h : Names ts us names) :
    ∃ vs, (parameterNames stop ts).Gives (some names) vs ∧ vs.tail = us := by
  induction h with
  | @last t u us hname hclosing =>
    exact ⟨u :: us, parameterNames_gives.2 ⟨t, u, us, rfl, hname, .inr ⟨hclosing, rfl, rfl⟩⟩, rfl⟩
  | @more t u ts us names hname hcomma _ ih =>
    obtain ⟨vs, hvs, rfl⟩ := ih
    exact ⟨vs, parameterNames_gives.2 ⟨t, u, ts, rfl, hname, .inl ⟨hcomma, names, hvs, rfl⟩⟩, rfl⟩

theorem Parameters.given {names : List String} (h : Parameters ts us names) :
    ∃ vs, (parameters stop ts).Gives (some names) vs ∧ vs.tail = us := by
  cases h with
  | @empty t u us hopening hclosing =>
    exact ⟨u :: us, parameters_gives.2 (.inl ⟨hclosing, rfl, rfl⟩), rfl⟩
  | listed hopening hnames =>
    obtain ⟨vs, hvs, rfl⟩ := Names.given hnames
    refine ⟨vs, parameters_gives.2 (.inr ⟨?_, hvs⟩), rfl⟩
    cases hnames with
    | last hname _ | more hname _ _ => simp [nextKind, currentKind, hname]

theorem Parameters.opens {names : List String} (h : Parameters ts us names) :
    currentKind ts = .leftParen := by
  cases h with
  | empty hopening | listed hopening => exact hopening

/-- Before the end of a sequence of statements no statement is followed by a semicolon of its own,
since no statement starts with one. -/
theorem Statements.not_semicolon {inBlock : Bool} {body : Block} (h : Statements ts us body)
    (hend : endsStatements inBlock (currentKind us)) : currentKind ts ≠ .semicolon := by
  cases h with
  | nil => rcases hend with hk | ⟨-, hk⟩ <;> simp [hk]
  | cons hs _ =>
    intro hk
    have := hs.starts
    simp [hk, startsExpression] at this

theorem Statement.not_ends {inBlock : Bool} {s : Stmt} (h : Statement ts us s) :
    ¬ endsStatements inBlock (currentKind ts) := by
  have hstarts := h.starts
  rintro (hk | ⟨-, hk⟩) <;> simp [hk, startsExpression] at hstarts

theorem Expression.not_keyword {r : Rung} (h : Expression r ts us e) :
    currentKind ts ≠ .kwLet ∧ currentKind ts ≠ .kwReturn := by
  have hstarts := h.starts
  constructor <;> intro hk <;> simp [hk, startsExpression] at hstarts

/-- After the value of a binding or a return the reader passes over what the grammar skips. -/
theorem tail_fromTerminator (hts : NoEnd ts) (hv : (expression stop p ts).Gives (some e) vs)
    (h : Skipped vs.tail us) : (fromTerminator vs).tail = us := by
  have hvs := hts.of_suffix hv.isSuffix
  rw [fromTerminator_eq_tail hvs (expression_sound p ts hts hv).not_semicolon]
  exact h.fromTerminator_tail hvs.tail

theorem ArgumentList.not_closing {args : List Expr} (h : ArgumentList ts us args) :
    currentKind ts ≠ .rightParen := by
  intro hk
  have hstarts : startsExpression (currentKind ts) = true := by
    cases h with
    | last h _ | more h _ _ => exact h.starts
  simp [hk, startsExpression] at hstarts

mutual

theorem Expression.given {r : Rung} {ts us : List Token} {e : Expr} :
    Expression r ts us e → ∀ p : Precedence, NoEnd ts → p.rank ≤ 5 →
      (Rung.above p).rank ≤ r.rank → (currentKind us).precedence.rank ≤ r.rank →
      Continues stop p ts us e
  | .climb h, p, hts, hp, hr, hnext =>
    h.given p hts hp (hr.trans r.rank_le_tighter) (hnext.trans r.rank_le_tighter)
  | @Expression.binary _ _ us _ t op lhs rhs hlhs hop hrhs, p, hts, hp, hr, hnext => by
    obtain ⟨hop', hk, hprec, htighter, hfour⟩ := Rung.operator?_rank hop
    have hus : NoEnd us := hts.of_suffix ((List.suffix_cons t us).trans hlhs.isSuffix)
    have habove := Rung.rank_above p
    obtain ⟨vs, hvs, hops⟩ := hlhs.given p hts hp hr hk.le
    have hlt : p < t.kind.precedence := show p.rank < t.kind.precedence.rank by omega
    -- The right operand ends where the loop for it would: before an operator of its own rung.
    obtain ⟨ws, rfl, hws⟩ := (hrhs.given op.precedence hus (by omega)
      (by rw [Rung.rank_above]; omega) (by omega)).gives (by omega)
    refine ⟨ws, rfl, fun e' xs hxs => hops e' xs ?_⟩
    exact (operators_binary hvs hlt hop').2 ⟨rhs, ws, hws, hxs⟩
  | .not hk h, p, hts, hp, hr, hnext => by
    obtain ⟨vs, rfl, hvs⟩ := (h.given .unary hts.tail (by decide) (by decide) hnext).gives hnext
    exact continues_of_primary ((primary_unary (by rw [hk]; rfl)).2 ⟨_, hvs, rfl⟩)
  | .negate hk h, p, hts, hp, hr, hnext => by
    obtain ⟨vs, rfl, hvs⟩ := (h.given .unary hts.tail (by decide) (by decide) hnext).gives hnext
    exact continues_of_primary ((primary_unary (by rw [hk]; rfl)).2 ⟨_, hvs, rfl⟩)
  | @Expression.call _ us _ t callee args hc hopening ha, p, hts, hp, hr, hnext => by
    have hus : NoEnd us := hts.of_suffix ((List.suffix_cons t us).trans hc.isSuffix)
    obtain ⟨vs, hvs, hops⟩ := hc.given p hts hp hr (rank_precedence_le _)
    have hlt : p < t.kind.precedence := by
      rw [hopening]
      exact Nat.lt_succ_of_le hp
    obtain ⟨ws, hws, rfl⟩ := ha.given hus
    refine ⟨ws, rfl, fun e' xs hxs => hops e' xs ?_⟩
    exact (operators_call hvs hlt (by rw [hopening]; rfl)).2 ⟨args, ws, hws, hxs⟩
  | .ident hk, _, _, _, _, _ => continues_of_primary ((primary_ident hk).2 ⟨rfl, rfl⟩)
  | .int hk hn, _, _, _, _, _ => continues_of_primary ((primary_integer hk).2 ⟨_, hn, rfl, rfl⟩)
  | .str hk, _, _, _, _, _ => continues_of_primary ((primary_string hk).2 ⟨rfl, rfl⟩)
  | .yes hk, _, _, _, _, _ => continues_of_primary ((primary_kwTrue hk).2 ⟨rfl, rfl⟩)
  | .no hk, _, _, _, _, _ => continues_of_primary ((primary_kwFalse hk).2 ⟨rfl, rfl⟩)
  | .group h, _, hts, _, _, _ => by
    obtain ⟨vs, hvs, rfl⟩ := h.given hts
    obtain ⟨opening, rest, _, rfl, hopening, -⟩ := id hvs
    exact continues_of_primary ((primary_leftParen hopening).2 hvs)
  | .cond hk ht hc helse, _, hts, _, _, _ => by
    obtain ⟨vs, hvs, hus⟩ := ht.given hts.tail
    obtain ⟨ws, hws, rfl⟩ := hc.given (hts.tail.of_suffix ht.isSuffix)
    subst hus
    exact continues_of_primary
      ((primary_kwIf hk).2 ⟨_, _, vs, ws, hvs, hws, .inl ⟨helse, rfl, rfl⟩⟩)
  | @Expression.condElse t u ts us after _ test consequence alternative hk ht hc helse ha, _, hts,
      _, _, _ => by
    have hus : NoEnd us := hts.tail.of_suffix ht.isSuffix
    obtain ⟨vs, hvs, hvs'⟩ := ht.given hts.tail
    obtain ⟨ws, hws, hu⟩ := hc.given hus
    obtain ⟨xs, hxs, rfl⟩ := ha.given (hus.of_suffix ((List.suffix_cons u after).trans hc.isSuffix))
    have hnext : nextKind ws = .kwElse := by
      rw [nextKind, hu]
      exact helse
    subst hvs'
    refine continues_of_primary ((primary_kwIf hk).2
      ⟨test, consequence, vs, ws, hvs, hws, .inr ⟨hnext, alternative, ?_, rfl⟩⟩)
    rw [hu]
    exact hxs
  | .fn hk hparams hb, _, hts, _, _, _ => by
    obtain ⟨vs, hvs, hus⟩ := hparams.given
    obtain ⟨ws, hws, rfl⟩ := hb.given (hts.tail.of_suffix hparams.isSuffix)
    subst hus
    exact continues_of_primary ((primary_kwFn hk).2 ⟨hparams.opens, _, vs, _, hvs, hws, rfl⟩)

theorem Group.given {ts us : List Token} {e : Expr} :
    Group ts us e → NoEnd ts → ∃ vs, ReadsGroup stop ts e vs ∧ vs.tail = us
  | @Group.mk t u ts us _ hopening h hclosing, hts => by
    have hnext : carriesOn u.kind = false := by
      rw [hclosing]
      rfl
    obtain ⟨vs, hvs, hg⟩ := gives_of_continues h.given hts.tail hnext
    exact ⟨u :: us, ⟨t, ts, vs, rfl, hopening, hg, hvs, hclosing⟩, rfl⟩

theorem Arguments.given {ts us : List Token} {args : List Expr} :
    Arguments ts us args → NoEnd ts →
      ∃ vs, (arguments stop ts).Gives (some args) vs ∧ vs.tail = us
  | @Arguments.empty t us hclosing, _ =>
    ⟨t :: us, arguments_gives.2 (.inl ⟨hclosing, rfl, rfl⟩), rfl⟩
  | .listed h, hts => by
    obtain ⟨vs, hvs, hus⟩ := h.given hts
    exact ⟨vs, arguments_gives.2 (.inr ⟨h.not_closing, hvs⟩), hus⟩

theorem ArgumentList.given {ts us : List Token} {args : List Expr} :
    ArgumentList ts us args → NoEnd ts →
      ∃ vs, (argumentList stop ts).Gives (some args) vs ∧ vs.tail = us
  | @ArgumentList.last t _ us e h hclosing, hts => by
    have hnext : carriesOn t.kind = false := by
      rw [hclosing]
      rfl
    obtain ⟨vs, hvs, hg⟩ := gives_of_continues h.given hts hnext
    exact ⟨t :: us, argumentList_gives.2 ⟨e, vs, t, us, hg, hvs, .inr ⟨hclosing, rfl, rfl⟩⟩, rfl⟩
  | @ArgumentList.more t _ us _ e args h hcomma hmore, hts => by
    have hnext : carriesOn t.kind = false := by
      rw [hcomma]
      rfl
    obtain ⟨vs, hvs, hg⟩ := gives_of_continues h.given hts hnext
    obtain ⟨ws, hws, rfl⟩ :=
      hmore.given (hts.of_suffix ((List.suffix_cons t us).trans h.isSuffix))
    exact ⟨ws, argumentList_gives.2 ⟨e, vs, t, us, hg, hvs, .inl ⟨hcomma, args, hws, rfl⟩⟩, rfl⟩

theorem Statement.given {ts us : List Token} {s : Stmt} :
    Statement ts us s → NoEnd ts → currentKind us ≠ .semicolon →
      ∃ vs, (statement stop ts).Gives (some s) vs ∧ vs.tail = us
  | @Statement.bind t name assign ts us _ value hk hname hassign hv hnext hend, hts, _ => by
    have hts' : NoEnd ts := hts.tail.tail.tail
    obtain ⟨vs, rfl, hg⟩ := gives_of_continues hv.given hts' hnext
    have hlet : currentKind (t :: name :: assign :: ts) = .kwLet := hk
    refine ⟨_, (statement_kwLet hlet).2
      ⟨name, assign, ts, value, vs, rfl, hname, hassign, hg, rfl, rfl⟩, ?_⟩
    exact tail_fromTerminator hts' hg hend
  | @Statement.ret t ts us _ value hk hv hnext hend, hts, _ => by
    obtain ⟨vs, rfl, hg⟩ := gives_of_continues hv.given hts.tail hnext
    have hret : currentKind (t :: ts) = .kwReturn := hk
    refine ⟨_, (statement_kwReturn hret).2 ⟨value, vs, hg, rfl, rfl⟩, ?_⟩
    exact tail_fromTerminator hts.tail hg hend
  | .expr hv hnext, hts, hus => by
    obtain ⟨vs, rfl, hg⟩ := gives_of_continues hv.given hts hnext
    obtain ⟨hlet, hret⟩ := hv.not_keyword
    exact ⟨vs, (statement_expression hlet hret).2 ⟨_, vs, hg, if_neg hus, rfl⟩, rfl⟩
  | @Statement.terminated t _ us value hv hend, hts, _ => by
    have hnext : carriesOn t.kind = false := by
      rw [hend]
      rfl
    obtain ⟨vs, hvs, hg⟩ := gives_of_continues hv.given hts hnext
    obtain ⟨hlet, hret⟩ := hv.not_keyword
    have hsemi : nextKind vs = .semicolon := by
      rw [nextKind, hvs]
      exact hend
    refine ⟨t :: us, (statement_expression hlet hret).2 ⟨value, vs, hg, ?_, rfl⟩, rfl⟩
    rw [if_pos hsemi, hvs]

theorem Statements.given {ts us : List Token} {body : Block} :
    Statements ts us body → ∀ inBlock : Bool, NoEnd ts →
      endsStatements inBlock (currentKind us) → (statements stop inBlock ts).Gives body us
  | .nil, _, _, hend => (statements_stop hend).2 ⟨rfl, rfl⟩
  | .cons hs hmore, inBlock, hts, hend => by
    have hmore' := hmore.given inBlock (hts.of_suffix hs.isSuffix) hend
    obtain ⟨vs, hvs, rfl⟩ := hs.given hts (hmore.not_semicolon hend)
    exact (statements_more hs.not_ends).2 ⟨_, vs, _, hvs, hmore', rfl⟩

theorem Braced.given {ts us : List Token} {body : Block} :
    Braced ts us body → NoEnd ts → ∃ vs, ReadsBlock stop ts body vs ∧ vs.tail = us
  | @Braced.closed t u ts us _ hopening h hclosing, hts =>
    ⟨u :: us, ⟨t, ts, rfl, hopening, h.given true hts.tail (.inr ⟨rfl, hclosing⟩)⟩, rfl⟩
  | @Braced.unclosed t ts _ hopening h, hts =>
    ⟨[], ⟨t, ts, rfl, hopening, h.given true hts.tail (.inl rfl)⟩, rfl⟩

end

/-! ## Acceptance -/

theorem derives_of_errors_eq_nil (hts : NoEnd ts)
    (h : (Parsed.ofStream ⟨ts, stop⟩).errors = []) :
    Derives ts (Parsed.ofStream ⟨ts, stop⟩).program := by
  have hg : (statements stop false ts).Gives _ _ := ⟨h, rfl, rfl⟩
  obtain ⟨hd, hend⟩ := statements_sound false ts hts hg
  rcases hend with heof | ⟨hblock, -⟩
  · rw [(hts.of_suffix hg.isSuffix).eq_nil heof] at hd
    exact hd
  · cases hblock

theorem Derives.parsed {program : Program} (h : Derives ts program) (hts : NoEnd ts) :
    (Parsed.ofStream ⟨ts, stop⟩).errors = [] ∧ (Parsed.ofStream ⟨ts, stop⟩).program = program := by
  obtain ⟨he, hv, -⟩ := Statements.given h false hts (.inl rfl)
  exact ⟨he, congrArg Program.mk hv⟩

/-- **The reader accepts exactly the grammar and builds its tree.** For any tokens that are followed
by the end of the input, no error is noticed if and only if the grammar derives some program from
them, and that program is the one that is read. -/
theorem errors_eq_nil_iff_derives (tokens : List Token) (stop : Span)
    (h : ∀ t ∈ tokens, t.kind ≠ .eof) :
    ((Parsed.ofStream ⟨tokens, stop⟩).errors = [] ↔ ∃ program, Derives tokens program) ∧
      ∀ program, Derives tokens program →
        (Parsed.ofStream ⟨tokens, stop⟩).program = program := by
  refine ⟨⟨fun he => ⟨_, derives_of_errors_eq_nil h he⟩, ?_⟩, fun program hd => (hd.parsed h).2⟩
  rintro ⟨program, hd⟩
  exact (hd.parsed h).1

/-- The tokens of `fn(x) { return -x * y }`. What follows the value of a return is passed over up
to the next semicolon, here the closing brace too, so the block ends with the input. -/
def returnToTheEnd : List Token :=
  [⟨.kwFn, "fn", .zero⟩, ⟨.leftParen, "(", .zero⟩, ⟨.ident, "x", .zero⟩, ⟨.rightParen, ")", .zero⟩,
    ⟨.leftBrace, "\x7b", .zero⟩, ⟨.kwReturn, "return", .zero⟩, ⟨.minus, "-", .zero⟩,
    ⟨.ident, "x", .zero⟩, ⟨.star, "*", .zero⟩, ⟨.ident, "y", .zero⟩, ⟨.rightBrace, "\x7d", .zero⟩]

theorem derives_returnToTheEnd : Derives returnToTheEnd
    ⟨[.expr (.fn ["x"]
      [.ret (.binary .multiply (.unary .negate (.ident "x")) (.ident "y"))])]⟩ := by
  have hx : ∀ us, Expression .unary (⟨.ident, "x", .zero⟩ :: us) us (.ident "x") :=
    fun us => (Expression.ident rfl).descend (by decide)
  have hy : ∀ us, Expression .unary (⟨.ident, "y", .zero⟩ :: us) us (.ident "y") :=
    fun us => (Expression.ident rfl).descend (by decide)
  have hvalue : ∀ us, Expression .equality (⟨.minus, "-", .zero⟩ :: ⟨.ident, "x", .zero⟩ ::
      ⟨.star, "*", .zero⟩ :: ⟨.ident, "y", .zero⟩ :: us) us
      (.binary .multiply (.unary .negate (.ident "x")) (.ident "y")) := by
    intro us
    refine Expression.descend (r := .product) ?_ (by decide)
    exact .binary (.climb (.negate rfl (hx _))) rfl (hy us)
  have hreturn := Statement.ret (t := ⟨.kwReturn, "return", .zero⟩) rfl
    (hvalue [⟨.rightBrace, "\x7d", .zero⟩]) rfl (.input (by decide))
  have hfn := Expression.fn (t := ⟨.kwFn, "fn", .zero⟩) rfl
    (.listed (t := ⟨.leftParen, "(", .zero⟩) rfl (.last (t := ⟨.ident, "x", .zero⟩)
      (u := ⟨.rightParen, ")", .zero⟩) rfl rfl))
    (.unclosed (t := ⟨.leftBrace, "\x7b", .zero⟩) rfl (.cons hreturn .nil))
  exact .cons (.expr (hfn.descend (by decide)) rfl) .nil

theorem errors_eq_nil_returnToTheEnd :
    (∀ t ∈ returnToTheEnd, t.kind ≠ .eof) ∧
      (Parsed.ofStream ⟨returnToTheEnd, .zero⟩).errors = [] ∧
      (Parsed.ofStream ⟨returnToTheEnd, .zero⟩).program =
        ⟨[.expr (.fn ["x"]
          [.ret (.binary .multiply (.unary .negate (.ident "x")) (.ident "y"))])]⟩ := by
  have hend : ∀ t ∈ returnToTheEnd, t.kind ≠ .eof := by decide
  obtain ⟨haccept, htree⟩ := errors_eq_nil_iff_derives returnToTheEnd .zero hend
  exact ⟨hend, haccept.2 ⟨_, derives_returnToTheEnd⟩, htree _ derives_returnToTheEnd⟩

end Grammar

end Sprig
