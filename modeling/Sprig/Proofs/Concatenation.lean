import Sprig.Proofs.Acceptance
import Sprig.Proofs.Displacement
import Sprig.Proofs.Tiling

/-!
# One text after the other

A text that is read without errors, in which every block is closed and which ends with a semicolon,
may be followed by any other text: the statements of the two together are those of the first and
then those of the second, and what is wrong is what is wrong with the second.

For the tokens this holds because nothing makes a semicolon longer, and a token that is not the last
one does not see what comes after the text. For a phrase of the grammar it is the same: one that
leaves a token is not carried on by what comes after the last token (`Grammar.Expression.append` and
its companions). It remains that the last statement takes the last semicolon. An expression
does not end with one, and it does not end with the input either unless a block in it does
(`grounding`), so the semicolon is left for the statement.
-/

namespace Sprig

open Reader Reading Text

/-! ## Tokens -/

/-- The last token is a semicolon. -/
def EndsWithSemicolon (ts : List Token) : Prop :=
  ts.getLast?.map Token.kind = some .semicolon

instance (ts : List Token) : Decidable (EndsWithSemicolon ts) :=
  inferInstanceAs (Decidable (_ = _))

section Tokens

variable {ts us more : List Token}

theorem EndsWithSemicolon.ne_nil (h : EndsWithSemicolon ts) : ts ≠ [] := by
  rintro rfl
  cases h

theorem endsWithSemicolon_iff_of_suffix (hs : us <:+ ts) (hus : us ≠ []) :
    EndsWithSemicolon us ↔ EndsWithSemicolon ts := by
  rw [EndsWithSemicolon, List.getLast?_eq_some_getLast hus, hs.getLast hus,
    ← List.getLast?_eq_some_getLast]
  exact Iff.rfl

theorem EndsWithSemicolon.of_suffix (h : EndsWithSemicolon ts) (hs : us <:+ ts) (hus : us ≠ []) :
    EndsWithSemicolon us :=
  (endsWithSemicolon_iff_of_suffix hs hus).2 h

theorem EndsWithSemicolon.tail (h : EndsWithSemicolon ts) :
    (currentKind ts = .semicolon ∧ ts.tail = []) ∨ EndsWithSemicolon ts.tail := by
  match ts with
  | [] => exact absurd rfl h.ne_nil
  | [t] =>
    refine .inl ⟨?_, rfl⟩
    show t.kind = .semicolon
    simpa [EndsWithSemicolon] using h
  | t :: u :: rest => exact .inr (h.of_suffix (List.suffix_cons t _) (List.cons_ne_nil u rest))

theorem EndsWithSemicolon.exists_last (h : EndsWithSemicolon ts) :
    ∃ b, b.kind = .semicolon ∧ [b] <:+ ts := by
  obtain ⟨b, hb, hk⟩ := Option.map_eq_some_iff.1 h
  obtain ⟨us, rfl⟩ := List.getLast?_eq_some_iff.1 hb
  exact ⟨b, hk, List.suffix_append us [b]⟩

/-- Where the last token is a semicolon, the search for one finds it. -/
theorem EndsWithSemicolon.fromTerminator_ne_nil (h : EndsWithSemicolon ts) :
    fromTerminator ts ≠ [] := by
  obtain ⟨c, hc, hlast⟩ := h.exists_last
  intro hnil
  have hpassed := List.dropWhile_eq_nil_iff.1 hnil c (hlast.subset List.mem_cons_self)
  simp [isTerminator, hc] at hpassed

theorem currentKind_append (h : us ≠ []) : currentKind (us ++ more) = currentKind us := by
  obtain ⟨t, rest, rfl⟩ := List.exists_cons_of_ne_nil h
  rfl

theorem nextKind_append (h : us.tail ≠ []) : nextKind (us ++ more) = nextKind us := by
  have hus : us ≠ [] := by
    rintro rfl
    exact h rfl
  rw [nextKind, List.tail_append_of_ne_nil hus, currentKind_append h]
  rfl

theorem fromTerminator_append (h : fromTerminator us ≠ []) :
    fromTerminator (us ++ more) = fromTerminator us ++ more := by
  rw [fromTerminator, List.dropWhile_append, if_neg]
  · rfl
  · rw [List.isEmpty_iff]
    exact h

/-- Two ends of a list are the same if their tails are, unless these are empty. -/
theorem eq_of_tail_eq {vs ws : List Token} (hvs : vs <:+ ts) (hws : ws <:+ ts)
    (h : vs.tail = ws.tail) (hne : ws.tail ≠ []) : vs = ws := by
  have hlength : vs.length = ws.length := by
    have htail := congrArg List.length h
    have hpos := List.length_pos_iff.2 hne
    simp only [List.length_tail] at htail hpos
    omega
  exact (List.suffix_of_suffix_length_le hvs hws hlength.le).eq_of_length hlength

end Tokens

/-- A token is spelled in the same way in front of more text if some text followed it already, and a
semicolon in any case. -/
theorem Spelled.append {kind : TokenKind} {literal written rest : List Char}
    (h : Spelled kind literal written rest) (hrest : rest ≠ [] ∨ kind = .semicolon)
    (more : List Char) : Spelled kind literal written (rest ++ more) := by
  refine h.of_stopsBefore (hrest.imp id fun hkind => by rw [hkind]; decide) ?_
  rcases hrest with hne | rfl
  · obtain ⟨c, cs, rfl⟩ := List.exists_cons_of_ne_nil hne
    exact h.stopsBefore
  · exact fun _ _ => rfl

theorem Cut.append {offset : Nat} {ts us : List Token} {text more : List Char}
    (h : Cut offset ts text) (hlast : EndsWithSemicolon ts)
    (hmore : Cut (offset + byteLength text) us more) : Cut offset (ts ++ us) (text ++ more) := by
  induction h with
  | done => exact absurd rfl hlast.ne_nil
  | @next offset t ts gap written rest hgap hs hspan hrest ih =>
    rw [byteLength_append, byteLength_append, ← Nat.add_assoc, ← Nat.add_assoc] at hmore
    rw [List.append_assoc, List.append_assoc]
    by_cases hts : ts = []
    · subst hts
      -- After the semicolon there are only blanks.
      have hkind : t.kind = .semicolon := by simpa [EndsWithSemicolon] using hlast
      refine .next hgap (hs.append (.inr hkind) more) hspan ?_
      cases hrest with
      | done hblank =>
        exact readAll_eq_iff_cut.1 ((readAll_gap hblank _ more).trans hmore.readAll)
    · refine .next hgap (hs.append (.inl ?_) more) hspan (ih ?_ hmore)
      · rintro rfl
        exact hts hrest.eq_nil
      · exact hlast.of_suffix (List.suffix_cons t ts) hts

/-- **The tokens of two texts are read one text after the other** if a semicolon ends the first. -/
theorem readAll_append {offset : Nat} {text : List Char} (more : List Char)
    (h : EndsWithSemicolon (Token.readAll offset text)) :
    Token.readAll offset (text ++ more) =
      Token.readAll offset text ++ Token.readAll (offset + byteLength text) more :=
  ((cut_readAll offset text).append h (cut_readAll _ more)).readAll

/-! ## Phrases -/

namespace Grammar

theorem Skipped.append {ts us : List Token} (h : Skipped ts us) (hus : us ≠ [])
    (more : List Token) : Skipped (ts ++ more) (us ++ more) := by
  cases h with
  | semicolon hskip hend =>
    rw [List.append_assoc]
    exact .semicolon hskip hend
  | input => exact absurd rfl hus

theorem carriesOn_append {us : List Token} (hus : us ≠ [])
    (h : carriesOn (currentKind us) = false) (more : List Token) :
    carriesOn (currentKind (us ++ more)) = false := by
  rw [currentKind_append hus]
  exact h

theorem not_else_append {us : List Token} (hus : us ≠ []) (h : currentKind us ≠ .kwElse)
    (more : List Token) : currentKind (us ++ more) ≠ .kwElse := by
  rw [currentKind_append hus]
  exact h

mutual

/-- A phrase after which a token is left is a phrase in front of any further tokens. -/
theorem Expression.append {r : Rung} {ts us : List Token} {e : Expr} :
    Expression r ts us e → us ≠ [] → ∀ more, Expression r (ts ++ more) (us ++ more) e
  | .climb h, hus, more => .climb (h.append hus more)
  | .binary hl hop hr, hus, more =>
    .binary (hl.append (List.cons_ne_nil _ _) more) hop (hr.append hus more)
  | .not hop h, hus, more => .not hop (h.append hus more)
  | .negate hop h, hus, more => .negate hop (h.append hus more)
  | .call hc hopening ha, _, more =>
    .call (hc.append (List.cons_ne_nil _ _) more) hopening (ha.append more)
  | .ident hk, _, _ => .ident hk
  | .int hk hn, _, _ => .int hk hn
  | .str hk, _, _ => .str hk
  | .yes hk, _, _ => .yes hk
  | .no hk, _, _ => .no hk
  | .group h, _, more => .group (h.append more)
  | .cond hk ht hc helse, hus, more =>
    .cond hk (ht.append more) (hc.append hus more) (not_else_append hus helse more)
  | .condElse hk ht hc helse ha, hus, more =>
    .condElse hk (ht.append more) (hc.append (List.cons_ne_nil _ _) more) helse
      (ha.append hus more)
  | .fn hk hp hb, hus, more => .fn hk (hp.append more) (hb.append hus more)

theorem Group.append {ts us : List Token} {e : Expr} :
    Group ts us e → ∀ more, Group (ts ++ more) (us ++ more) e
  | .mk hopening h hclosing, more => .mk hopening (h.append (List.cons_ne_nil _ _) more) hclosing

theorem Arguments.append {ts us : List Token} {args : List Expr} :
    Arguments ts us args → ∀ more, Arguments (ts ++ more) (us ++ more) args
  | .empty hclosing, _ => .empty hclosing
  | .listed h, more => .listed (h.append more)

theorem ArgumentList.append {ts us : List Token} {args : List Expr} :
    ArgumentList ts us args → ∀ more, ArgumentList (ts ++ more) (us ++ more) args
  | .last h hclosing, more => .last (h.append (List.cons_ne_nil _ _) more) hclosing
  | .more h hcomma hmore, more =>
    .more (h.append (List.cons_ne_nil _ _) more) hcomma (hmore.append more)

theorem Statement.append {ts us : List Token} {s : Stmt} :
    Statement ts us s → us ≠ [] → ∀ more, Statement (ts ++ more) (us ++ more) s
  | .bind hk hname hassign hv hnext hend, hus, more =>
    have hvs := hend.isSuffix.ne_nil hus
    .bind hk hname hassign (hv.append hvs more) (carriesOn_append hvs hnext more)
      (hend.append hus more)
  | .ret hk hv hnext hend, hus, more =>
    have hvs := hend.isSuffix.ne_nil hus
    .ret hk (hv.append hvs more) (carriesOn_append hvs hnext more) (hend.append hus more)
  | .expr hv hnext, hus, more => .expr (hv.append hus more) (carriesOn_append hus hnext more)
  | .terminated hv hend, _, more => .terminated (hv.append (List.cons_ne_nil _ _) more) hend

theorem Statements.append {ts us : List Token} {body : Block} :
    Statements ts us body → us ≠ [] → ∀ more, Statements (ts ++ more) (us ++ more) body
  | .nil, _, _ => .nil
  | .cons hs hmore, hus, more =>
    .cons (hs.append (hmore.isSuffix.ne_nil hus) more) (hmore.append hus more)

theorem Braced.append {ts us : List Token} {body : Block} :
    Braced ts us body → us ≠ [] → ∀ more, Braced (ts ++ more) (us ++ more) body
  | .closed hopening h hclosing, _, more =>
    .closed hopening (h.append (List.cons_ne_nil _ _) more) hclosing
  | .unclosed _ _, hus, _ => absurd rfl hus

end

end Grammar

/-! ## Readings that stand on a token -/

/-- If the tokens end with a semicolon and every block is closed, then a reading with a value does
not stand at the end of the input. -/
def Reading.Grounded {α : Type} {ts : List Token} (r : Reading (Option α) ts) : Prop :=
  EndsWithSemicolon ts → r.value ≠ none → r.unclosed = 0 → r.rest ≠ []

theorem Reading.Grounded.bind_some {α β : Type} {ts : List Token} {r : Reading (Option α) ts}
    {f : α → (us : List Token) → us.length ≤ ts.length → Reading (Option β) us} {a : α}
    (hr : r.Grounded) (hv : r.value = some a) (hf : (f a r.rest r.length_rest_le).Grounded) :
    (r.bind f).Grounded := by
  rw [bind_of_some hv]
  intro hts hvalue hclosed
  obtain ⟨hclosed, hclosed'⟩ := Nat.add_eq_zero_iff.1 hclosed
  have hrest := hr hts (by rw [hv]; exact Option.some_ne_none a) hclosed
  exact hf (hts.of_suffix r.isSuffix hrest) hvalue hclosed'

/-- Only a block can end with the input. -/
def grounding (stop : Span) : ReaderLaw where
  token := Eq
  stop := stop
  stop' := stop
  one r _ := r.Grounded
  many _ _ := True
  respected := {
    alike h := h ▸ ⟨rfl, fun _ => rfl⟩
    token_end := rfl
    done _ _ hts _ _ := hts.ne_nil
    fail _ _ _ hv := absurd rfl hv
    within h _ hnil hr hts hv := hr (hts.of_suffix h fun hvs => hv (hnil hvs)) hv
    mapSome f _ hr hts hv := hr hts fun hnone => hv (by
      show Option.map f _ = none
      rw [hnone]
      rfl)
    bind_none hv _ _ _ hvalue := absurd (Reading.value_bind_of_none hv) hvalue
    bind_some hv _ hr hf := hr.bind_some hv hf
    toTerminator {α ts us r r'} hr hts hv hclosed :=
      (hts.of_suffix r.isSuffix (hr hts hv hclosed)).fromTerminator_ne_nil
    overSemicolon {α ts us r r'} hr := by
      unfold Reading.overSemicolon
      split
      · next hsemi =>
        intro _ _ _ hnil
        rw [nextKind, show r.rest.tail = [] from hnil] at hsemi
        cases hsemi
      · exact hr
    block {ts us r r'} _ _ _ _ hclosed hnil := by
      have hrest : r.rest = [] := hnil
      have hcount : r.unclosed + (if currentKind r.rest = .rightBrace then 0 else 1) = 0 := hclosed
      rw [hrest] at hcount
      cases (Nat.add_eq_zero_iff.1 hcount).2
    nil _ := trivial
    followedBy _ _ _ _ := trivial }

theorem Reader.statement_grounded (stop : Span) (ts : List Token) : (statement stop ts).Grounded :=
  ((grounding stop).statement ts (fun _ => rfl)).law

/-! ## Statements -/

section Statements

variable {stop stop' : Span} {ts us vs more : List Token} {e : Expr} {s : Stmt}

theorem Grammar.NoEnd.of_append_left (hts : Grammar.NoEnd (ts ++ more)) : Grammar.NoEnd ts :=
  fun t ht => hts t (List.mem_append_left more ht)

theorem noEnd_append_of_suffix (hts : Grammar.NoEnd (ts ++ more)) (h : us <:+ ts) :
    Grammar.NoEnd (us ++ more) :=
  hts.of_suffix (List.suffix_append_self_iff.2 h)

/-- An expression after which a token is left is read in the same way in front of any further
tokens. -/
theorem expression_append (hts : Grammar.NoEnd (ts ++ more))
    (h : (expression stop .lowest ts).Gives (some e) vs) (hvs : vs.tail ≠ []) :
    (expression stop' .lowest (ts ++ more)).Gives (some e) (vs ++ more) := by
  have hts' := hts.of_append_left
  obtain ⟨hd, hnext, -⟩ := Grammar.expression_sound .lowest ts hts' h
  have hcarry := Grammar.carriesOn_append hvs (Grammar.carriesOn_eq_false_iff.2 hnext) more
  obtain ⟨ws, htail, hg⟩ : ∃ ws, ws.tail = vs.tail ++ more ∧
      (expression stop' .lowest (ts ++ more)).Gives (some e) ws :=
    Grammar.gives_of_continues (hd.append hvs more).given hts hcarry
  -- The reader stands on the token before those that are left.
  have hne : vs ≠ [] := by
    rintro rfl
    exact hvs rfl
  rw [← List.tail_append_of_ne_nil hne] at htail
  have hws : ws = vs ++ more := by
    refine eq_of_tail_eq hg.isSuffix (List.suffix_append_self_iff.2 h.isSuffix) htail ?_
    rw [List.tail_append_of_ne_nil hne]
    exact List.append_ne_nil_of_left_ne_nil hvs more
  exact hws ▸ hg

/-- The value of a binding or a return, with what is passed over up to its semicolon. -/
theorem value_append (stop' : Span) (hts : Grammar.NoEnd (ts ++ more))
    (h : (expression stop .lowest ts).Gives (some e) vs) (hvs : fromTerminator vs ≠ []) :
    (expression stop' .lowest (ts ++ more)).Gives (some e) (vs ++ more) ∧
      fromTerminator (vs ++ more) = fromTerminator vs ++ more := by
  refine ⟨expression_append hts h ?_, fromTerminator_append hvs⟩
  have hts' := hts.of_append_left
  have hsemi := (Grammar.expression_sound .lowest ts hts' h).not_semicolon
  intro htail
  rw [Grammar.fromTerminator_eq_tail (hts'.of_suffix h.isSuffix) hsemi, htail] at hvs
  exact hvs rfl

/-- A statement is read in the same way in front of any further tokens if it ends with a semicolon
or a token is left after it. -/
theorem statement_append (hts : Grammar.NoEnd (ts ++ more))
    (h : (statement stop ts).Gives (some s) us)
    (hus : us.tail ≠ [] ∨ currentKind us = .semicolon) :
    (statement stop' (ts ++ more)).Gives (some s) (us ++ more) := by
  have hne : us ≠ [] := by
    rintro rfl
    rcases hus with hus | hus
    · exact hus rfl
    · cases hus
  have htsne := h.isSuffix.ne_nil hne
  have hkind : currentKind (ts ++ more) = currentKind ts := currentKind_append htsne
  have htail : (ts ++ more).tail = ts.tail ++ more := List.tail_append_of_ne_nil htsne
  by_cases hlet : currentKind ts = .kwLet
  · obtain ⟨name, assign, rest, value, vs, heq, hname, hassign, hv, rfl, rfl⟩ :=
      (statement_kwLet hlet).1 h
    have hrest : rest <:+ ts :=
      (List.suffix_cons assign rest).trans (isSuffix_of_tail_eq_cons heq)
    obtain ⟨hv', hend⟩ := value_append stop' (noEnd_append_of_suffix hts hrest) hv hne
    refine (statement_kwLet (hkind.trans hlet)).2
      ⟨name, assign, rest ++ more, value, vs ++ more, ?_, hname, hassign, hv', hend, rfl⟩
    rw [htail, heq]
    rfl
  by_cases hret : currentKind ts = .kwReturn
  · obtain ⟨value, vs, hv, rfl, rfl⟩ := (statement_kwReturn hret).1 h
    obtain ⟨hv', hend⟩ :=
      value_append stop' (noEnd_append_of_suffix hts (List.tail_suffix ts)) hv hne
    rw [← htail] at hv'
    exact (statement_kwReturn (hkind.trans hret)).2 ⟨value, vs ++ more, hv', hend, rfl⟩
  · obtain ⟨value, vs, hv, rfl, rfl⟩ := (statement_expression hlet hret).1 h
    have hvs : vs.tail ≠ [] := by
      intro hnil
      rw [nextKind, hnil, if_neg (by decide)] at hus
      rcases hus with hus | hus
      · exact hus hnil
      · exact (Grammar.expression_sound .lowest ts hts.of_append_left hv).not_semicolon hus
    refine (statement_expression (hkind ▸ hlet) (hkind ▸ hret)).2
      ⟨value, vs ++ more, expression_append hts hv hvs, ?_, rfl⟩
    have hvsne : vs ≠ [] := by
      rintro rfl
      exact hvs rfl
    rw [nextKind_append hvs, List.tail_append_of_ne_nil hvsne]
    split <;> rfl

/-- Statements that are read without errors, close their blocks and end with a semicolon are read in
the same way in front of any further tokens, and those are then read as if they stood alone. -/
theorem statements_append (ts : List Token) (hts : Grammar.NoEnd (ts ++ more))
    (hend : ts = [] ∨ EndsWithSemicolon ts) (herrors : (statements stop false ts).errors = [])
    (hclosed : (statements stop false ts).unclosed = 0) :
    (statements stop' false (ts ++ more)).value =
        (statements stop false ts).value ++ (statements stop' false more).value ∧
      (statements stop' false (ts ++ more)).errors = (statements stop' false more).errors := by
  by_cases hnil : ts = []
  · subst hnil
    rw [statements]
    exact ⟨rfl, rfl⟩
  have hlast := hend.resolve_left hnil
  have hkind : currentKind (ts ++ more) = currentKind ts := currentKind_append hnil
  have hgoes : ¬ endsStatements false (currentKind ts) := by
    rintro (heof | ⟨hblock, -⟩)
    · exact hnil ((hts.of_append_left).eq_nil heof)
    · cases hblock
  rw [statements_followedBy hgoes] at herrors hclosed ⊢
  obtain ⟨herrors, herrors'⟩ := List.append_eq_nil_iff.1 herrors
  obtain ⟨hclosed, hclosed'⟩ := Nat.add_eq_zero_iff.1 hclosed
  obtain ⟨s, hs⟩ := (statement_accounted stop ts).candid.gives herrors
  -- The reader stands on a token after the statement, and on the semicolon if it is the last one.
  have hrest : (statement stop ts).rest ≠ [] := by
    refine statement_grounded stop ts hlast ?_ hclosed
    rw [hs.2.1]
    exact Option.some_ne_none s
  have hafter := (hlast.of_suffix (statement stop ts).isSuffix hrest).tail
  obtain ⟨herr, hvalue, hstands⟩ : (statement stop' (ts ++ more)).Gives (some s)
      ((statement stop ts).rest ++ more) := by
    refine statement_append hts hs ?_
    rcases hafter with ⟨hsemi, -⟩ | hlast'
    · exact .inr hsemi
    · exact .inl hlast'.ne_nil
  have ih := statements_append (statement stop ts).rest.tail
    (noEnd_append_of_suffix hts ((List.tail_suffix _).trans (statement stop ts).isSuffix))
    (hafter.imp_left And.right) herrors' hclosed'
  rw [statements_followedBy (hkind ▸ hgoes)]
  simp only [followedBy, herr, hvalue, hs.2.1, List.append_assoc, List.nil_append]
  rw [hstands, List.tail_append_of_ne_nil hrest, ih.1, ih.2]
  exact ⟨rfl, rfl⟩
termination_by ts.length
decreasing_by
  have hle := (statement stop ts).length_rest_le
  have hpos := List.length_pos_iff.2 hnil
  rw [List.length_tail]
  omega

end Statements

/-! ## Texts -/

/-- The text is read without errors, a semicolon is its last token and its blocks are closed. -/
@[mk_iff]
structure Terminated (source : String) : Prop where
  errors_eq_nil : (Parsed.ofSource source).errors = []
  semicolon : EndsWithSemicolon (TokenStream.ofSource source).tokens
  closed : (Parsed.ofSource source).unclosed = 0

instance (source : String) : Decidable (Terminated source) :=
  decidable_of_iff' _ (terminated_iff source)

/-- After a text that is terminated another one is read as if it stood alone, at the place where it
stands. -/
theorem Terminated.read_append {a : String} (h : Terminated a) (b : String) :
    (Parsed.ofSource (a ++ b)).program.statements =
        (Parsed.ofSource a).program.statements ++
          (statements (.ofNat (byteLength a.toList + byteLength b.toList) 0) false
            (Token.readAll (byteLength a.toList) b.toList)).value ∧
      (Parsed.ofSource (a ++ b)).errors =
        (statements (.ofNat (byteLength a.toList + byteLength b.toList) 0) false
          (Token.readAll (byteLength a.toList) b.toList)).errors := by
  have htokens := readAll_append b.toList h.semicolon
  rw [Nat.zero_add] at htokens
  have hstream : TokenStream.ofSource (a ++ b) =
      ⟨Token.readAll 0 a.toList ++ Token.readAll (byteLength a.toList) b.toList,
        .ofNat (byteLength a.toList + byteLength b.toList) 0⟩ := by
    rw [TokenStream.ofSource, String.toList_append, htokens, byteLength_append]
  have hnoEnd := (cut_readAll 0 (a.toList ++ b.toList)).not_eof
  rw [htokens] at hnoEnd
  rw [Parsed.ofSource, hstream]
  exact statements_append _ hnoEnd (.inr h.semicolon) h.errors_eq_nil h.closed

/-- **Two texts one after the other are their statements one after the other.** If the first is read
without errors, ends with a semicolon and closes its blocks, then the errors of the whole are those
of the second text, moved by the bytes of the first. -/
theorem parsed_append (a b : String) (ha : Terminated a)
    (hsize : byteLength a.toList + byteLength b.toList < UInt32.size) :
    (Parsed.ofSource (a ++ b)).program.statements =
        (Parsed.ofSource a).program.statements ++ (Parsed.ofSource b).program.statements ∧
      SameErrors (Span.MovedBy (byteLength a.toList)) (Parsed.ofSource b).errors
        (Parsed.ofSource (a ++ b)).errors := by
  obtain ⟨hprogram, herrors⟩ := ha.read_append b
  obtain ⟨hvalue, hmoved⟩ := statements_moved hsize false
  rw [hprogram, herrors, hvalue]
  exact ⟨rfl, hmoved⟩

/-- A function with its block closed, and then a binding without a name, which is an error. -/
theorem parsed_append_broken :
    Terminated "fn() \x7b 1 \x7d;" ∧ (Parsed.ofSource "let 2; x").errors.length = 1 ∧
      (Parsed.ofSource ("fn() \x7b 1 \x7d;" ++ "let 2; x")).program.statements =
        (Parsed.ofSource "fn() \x7b 1 \x7d;").program.statements ++
          (Parsed.ofSource "let 2; x").program.statements ∧
      SameErrors (Span.MovedBy 11) (Parsed.ofSource "let 2; x").errors
        (Parsed.ofSource ("fn() \x7b 1 \x7d;" ++ "let 2; x")).errors := by
  have ha : Terminated "fn() \x7b 1 \x7d;" := by decide +kernel
  exact ⟨ha, by decide +kernel, parsed_append "fn() \x7b 1 \x7d;" "let 2; x" ha (by decide)⟩

end Sprig
