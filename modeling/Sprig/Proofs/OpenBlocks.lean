import Sprig.Proofs.Concatenation

/-!
# Blocks that end with the input

The end of the input closes every block that is still open, and nothing is noticed. So a closing
brace at the end of a text is never missed: without it the text is read as the same program
(`Grammar.Statements.unbraced`). The other way round, a closing brace may follow a text exactly if a
block is open at its end, or if the last statement passes over the brace in search of a semicolon
(`errors_append_brace_iff`).

What is taken away goes along the grammar. A phrase that leaves the last token alone is a phrase
without it, and one that takes a closing brace as its last token is a phrase without it as well,
because the last thing in it is a block. What is added goes along the readers, which count the
blocks that are left open: one that is left open is the last thing that is read (`lastness`), and an
expression that takes everything leaves one open (`Reading.EndsOpen`).
-/

namespace Sprig

open Reader Reading

/-! ## Without the last token -/

section LastToken

variable {ts us : List Token} {t b : Token}

theorem currentKind_ne_of_append {kind : TokenKind} (hkind : kind ≠ .eof)
    (h : currentKind (us ++ [b]) ≠ kind) : currentKind us ≠ kind := by
  cases us with
  | nil => exact hkind.symm
  | cons t us => exact h

theorem last_of_suffix (h : [b] <:+ ts) (hs : us <:+ ts) (hus : us ≠ []) : [b] <:+ us :=
  List.suffix_of_suffix_length_le h hs (List.length_pos_iff.2 hus)

theorem eq_last (h : [b] <:+ ts) (h' : [t] <:+ ts) : b = t :=
  List.singleton_inj.1 ((last_of_suffix h h' (List.cons_ne_nil t [])).eq_of_length rfl)

end LastToken

namespace Grammar

theorem carriesOn_of_append {us : List Token} {b : Token}
    (h : carriesOn (currentKind (us ++ [b])) = false) : carriesOn (currentKind us) = false := by
  cases us with
  | nil => rfl
  | cons t us => exact h

theorem Names.shortened {ts us vs : List Token} {names : List String} {b : Token}
    (h : Names ts us names) (hus : us = vs ++ [b]) : ∃ ws, ts = ws ++ [b] ∧ Names ws vs names := by
  induction h with
  | @last t u us hname hclosing =>
    subst hus
    exact ⟨t :: u :: vs, rfl, .last hname hclosing⟩
  | @more t u ts us names hname hcomma _ ih =>
    obtain ⟨ws, rfl, hws⟩ := ih hus
    exact ⟨t :: u :: ws, rfl, .more hname hcomma hws⟩

theorem Parameters.shortened {ts us vs : List Token} {names : List String} {b : Token}
    (h : Parameters ts us names) (hus : us = vs ++ [b]) :
    ∃ ws, ts = ws ++ [b] ∧ Parameters ws vs names := by
  cases h with
  | @empty t u us hopening hclosing =>
    subst hus
    exact ⟨t :: u :: vs, rfl, .empty hopening hclosing⟩
  | @listed t ts us names hopening hnames =>
    obtain ⟨ws, rfl, hws⟩ := hnames.shortened hus
    exact ⟨t :: ws, rfl, .listed hopening hws⟩

theorem Skipped.shortened {ts us vs : List Token} {b : Token} (h : Skipped ts us)
    (hus : us = vs ++ [b]) : ∃ ws, ts = ws ++ [b] ∧ Skipped ws vs := by
  cases h with
  | @semicolon skipped us t hskip hend =>
    subst hus
    exact ⟨skipped ++ t :: vs, by simp, .semicolon hskip hend⟩
  | input => simp at hus

mutual

/-- A phrase that leaves the last token is a phrase without it. -/
theorem Expression.shortened {r : Rung} {ts us : List Token} {e : Expr} :
    Expression r ts us e → ∀ (vs : List Token) (b : Token), us = vs ++ [b] →
      ∃ ws, ts = ws ++ [b] ∧ Expression r ws vs e
  | .climb h, vs, b, hus => by
    obtain ⟨ws, hts, h'⟩ := h.shortened vs b hus
    exact ⟨ws, hts, .climb h'⟩
  | @Expression.binary _ _ _ _ t _ _ _ hl hop hr, vs, b, hus => by
    obtain ⟨ws, hws, hr'⟩ := hr.shortened vs b hus
    obtain ⟨xs, hts, hl'⟩ := hl.shortened (t :: ws) b (congrArg (t :: ·) hws)
    exact ⟨xs, hts, .binary hl' hop hr'⟩
  | @Expression.not t _ _ _ hop h, vs, b, hus => by
    obtain ⟨ws, hts, h'⟩ := h.shortened vs b hus
    exact ⟨t :: ws, congrArg (t :: ·) hts, .not hop h'⟩
  | @Expression.negate t _ _ _ hop h, vs, b, hus => by
    obtain ⟨ws, hts, h'⟩ := h.shortened vs b hus
    exact ⟨t :: ws, congrArg (t :: ·) hts, .negate hop h'⟩
  | @Expression.call _ _ _ t _ _ hc hopening ha, vs, b, hus => by
    obtain ⟨ws, hws, ha'⟩ := ha.shortened vs b hus
    obtain ⟨xs, hts, hc'⟩ := hc.shortened (t :: ws) b (congrArg (t :: ·) hws)
    exact ⟨xs, hts, .call hc' hopening ha'⟩
  | @Expression.ident t _ hk, vs, _, hus => ⟨t :: vs, congrArg (t :: ·) hus, .ident hk⟩
  | @Expression.int t _ _ hk hn, vs, _, hus => ⟨t :: vs, congrArg (t :: ·) hus, .int hk hn⟩
  | @Expression.str t _ hk, vs, _, hus => ⟨t :: vs, congrArg (t :: ·) hus, .str hk⟩
  | @Expression.yes t _ hk, vs, _, hus => ⟨t :: vs, congrArg (t :: ·) hus, .yes hk⟩
  | @Expression.no t _ hk, vs, _, hus => ⟨t :: vs, congrArg (t :: ·) hus, .no hk⟩
  | .group h, vs, b, hus => by
    obtain ⟨ws, hts, h'⟩ := h.shortened vs b hus
    exact ⟨ws, hts, .group h'⟩
  | @Expression.cond t _ _ _ _ _ hk ht hc helse, vs, b, hus => by
    obtain ⟨ws, hws, hc'⟩ := hc.shortened vs b hus
    obtain ⟨xs, hxs, ht'⟩ := ht.shortened ws b hws
    have helse' := currentKind_ne_of_append (by decide) (hus ▸ helse)
    exact ⟨t :: xs, congrArg (t :: ·) hxs, .cond hk ht' hc' helse'⟩
  | @Expression.condElse t u _ _ _ _ _ _ _ hk ht hc helse ha, vs, b, hus => by
    obtain ⟨ws, hws, ha'⟩ := ha.shortened vs b hus
    obtain ⟨xs, hxs, hc'⟩ := hc.shortened (u :: ws) b (congrArg (u :: ·) hws)
    obtain ⟨ys, hys, ht'⟩ := ht.shortened xs b hxs
    exact ⟨t :: ys, congrArg (t :: ·) hys, .condElse hk ht' hc' helse ha'⟩
  | @Expression.fn t _ _ _ _ _ hk hp hb, vs, b, hus => by
    obtain ⟨ws, hws, hb'⟩ := hb.shortened vs b hus
    obtain ⟨xs, hxs, hp'⟩ := hp.shortened hws
    exact ⟨t :: xs, congrArg (t :: ·) hxs, .fn hk hp' hb'⟩

theorem Group.shortened {ts us : List Token} {e : Expr} :
    Group ts us e → ∀ (vs : List Token) (b : Token), us = vs ++ [b] →
      ∃ ws, ts = ws ++ [b] ∧ Group ws vs e
  | @Group.mk t u _ _ _ hopening h hclosing, vs, b, hus => by
    obtain ⟨ws, hts, h'⟩ := h.shortened (u :: vs) b (congrArg (u :: ·) hus)
    exact ⟨t :: ws, congrArg (t :: ·) hts, .mk hopening h' hclosing⟩

theorem Arguments.shortened {ts us : List Token} {args : List Expr} :
    Arguments ts us args → ∀ (vs : List Token) (b : Token), us = vs ++ [b] →
      ∃ ws, ts = ws ++ [b] ∧ Arguments ws vs args
  | @Arguments.empty t _ hclosing, vs, _, hus => ⟨t :: vs, congrArg (t :: ·) hus, .empty hclosing⟩
  | .listed h, vs, b, hus => by
    obtain ⟨ws, hts, h'⟩ := h.shortened vs b hus
    exact ⟨ws, hts, .listed h'⟩

theorem ArgumentList.shortened {ts us : List Token} {args : List Expr} :
    ArgumentList ts us args → ∀ (vs : List Token) (b : Token), us = vs ++ [b] →
      ∃ ws, ts = ws ++ [b] ∧ ArgumentList ws vs args
  | @ArgumentList.last t _ _ _ h hclosing, vs, b, hus => by
    obtain ⟨ws, hts, h'⟩ := h.shortened (t :: vs) b (congrArg (t :: ·) hus)
    exact ⟨ws, hts, .last h' hclosing⟩
  | @ArgumentList.more t _ _ _ _ _ h hcomma hmore, vs, b, hus => by
    obtain ⟨ws, hws, hmore'⟩ := hmore.shortened vs b hus
    obtain ⟨xs, hts, h'⟩ := h.shortened (t :: ws) b (congrArg (t :: ·) hws)
    exact ⟨xs, hts, .more h' hcomma hmore'⟩

theorem Statement.shortened {ts us : List Token} {s : Stmt} :
    Statement ts us s → ∀ (vs : List Token) (b : Token), us = vs ++ [b] →
      ∃ ws, ts = ws ++ [b] ∧ Statement ws vs s
  | @Statement.bind t name assign _ _ _ _ hk hname hassign hv hnext hend, vs, b, hus => by
    obtain ⟨ws, hws, hend'⟩ := hend.shortened hus
    obtain ⟨xs, hxs, hv'⟩ := hv.shortened ws b hws
    exact ⟨t :: name :: assign :: xs, congrArg (t :: name :: assign :: ·) hxs,
      .bind hk hname hassign hv' (carriesOn_of_append (hws ▸ hnext)) hend'⟩
  | @Statement.ret t _ _ _ _ hk hv hnext hend, vs, b, hus => by
    obtain ⟨ws, hws, hend'⟩ := hend.shortened hus
    obtain ⟨xs, hxs, hv'⟩ := hv.shortened ws b hws
    exact ⟨t :: xs, congrArg (t :: ·) hxs, .ret hk hv' (carriesOn_of_append (hws ▸ hnext)) hend'⟩
  | .expr hv hnext, vs, b, hus => by
    obtain ⟨ws, hts, hv'⟩ := hv.shortened vs b hus
    exact ⟨ws, hts, .expr hv' (carriesOn_of_append (hus ▸ hnext))⟩
  | @Statement.terminated t _ _ _ hv hend, vs, b, hus => by
    obtain ⟨ws, hts, hv'⟩ := hv.shortened (t :: vs) b (congrArg (t :: ·) hus)
    exact ⟨ws, hts, .terminated hv' hend⟩

theorem Statements.shortened {ts us : List Token} {body : Block} :
    Statements ts us body → ∀ (vs : List Token) (b : Token), us = vs ++ [b] →
      ∃ ws, ts = ws ++ [b] ∧ Statements ws vs body
  | .nil, vs, _, hus => ⟨vs, hus, .nil⟩
  | .cons hs hmore, vs, b, hus => by
    obtain ⟨ws, hws, hmore'⟩ := hmore.shortened vs b hus
    obtain ⟨xs, hts, hs'⟩ := hs.shortened ws b hws
    exact ⟨xs, hts, .cons hs' hmore'⟩

theorem Braced.shortened {ts us : List Token} {body : Block} :
    Braced ts us body → ∀ (vs : List Token) (b : Token), us = vs ++ [b] →
      ∃ ws, ts = ws ++ [b] ∧ Braced ws vs body
  | @Braced.closed t u _ _ _ hopening h hclosing, vs, b, hus => by
    obtain ⟨ws, hts, h'⟩ := h.shortened (u :: vs) b (congrArg (u :: ·) hus)
    exact ⟨t :: ws, congrArg (t :: ·) hts, .closed hopening h' hclosing⟩
  | .unclosed _ _, _, _, hus => absurd hus.symm (by simp)

end

/-! ## Without a closing brace at the end -/

theorem Group.closes {ts us : List Token} {e : Expr} (h : Group ts us e) :
    ∃ u, u.kind = .rightParen ∧ u :: us <:+ ts := by
  cases h with
  | mk _ h hclosing => exact ⟨_, hclosing, h.isSuffix.trans (List.suffix_cons _ _)⟩

theorem ArgumentList.closes {ts us : List Token} {args : List Expr} (h : ArgumentList ts us args) :
    ∃ u, u.kind = .rightParen ∧ u :: us <:+ ts := by
  induction args generalizing ts with
  | nil => cases h
  | cons e args ih =>
    cases h with
    | last h hclosing => exact ⟨_, hclosing, h.isSuffix⟩
    | more h _ hmore =>
      obtain ⟨u, hclosing, hs⟩ := ih hmore
      exact ⟨u, hclosing, hs.trans ((List.suffix_cons _ _).trans h.isSuffix)⟩

theorem Arguments.closes {ts us : List Token} {args : List Expr} (h : Arguments ts us args) :
    ∃ u, u.kind = .rightParen ∧ u :: us <:+ ts := by
  cases h with
  | empty hclosing => exact ⟨_, hclosing, List.suffix_refl _⟩
  | listed h => exact h.closes

theorem Expression.ne_nil {r : Rung} {ts us : List Token} {e : Expr} (h : Expression r ts us e) :
    ts ≠ [] := by
  rintro rfl
  exact absurd h.starts (by decide)

theorem Braced.ne_nil {ts us : List Token} {body : Block} (h : Braced ts us body) : ts ≠ [] := by
  cases h <;> exact List.cons_ne_nil _ _

/-- A token that is not of the kind of the last one is not the last one. -/
theorem not_last {t b : Token} {us : List Token} {kind : TokenKind} (hlast : [b] <:+ t :: us)
    (hus : us = []) (hk : t.kind = kind) (hne : b.kind ≠ kind) : False := by
  subst hus
  rw [eq_last hlast (List.suffix_refl [t])] at hne
  exact hne hk

/-- The value of a binding or a return, with what is passed over, where the last token is a closing
brace: it is passed over, or else it is the last token of the value. -/
theorem Skipped.unbraced {ts us : List Token} {value : Expr} {b : Token} (hb : b.kind = .rightBrace)
    (hlast : [b] <:+ ts) (hv : Expression .equality ts us value)
    (hnext : carriesOn (currentKind us) = false) (hend : Skipped us [])
    (hwhole : us = [] → ∃ vs, ts = vs ++ [b] ∧ Expression .equality vs [] value) :
    ∃ vs ws, ts = vs ++ [b] ∧ Expression .equality vs ws value ∧
      carriesOn (currentKind ws) = false ∧ Skipped ws [] := by
  by_cases hnil : us = []
  · obtain ⟨vs, hvs, hv'⟩ := hwhole hnil
    exact ⟨vs, [], hvs, hv', rfl, .input (List.forall_mem_nil _)⟩
  · have hlast' := last_of_suffix hlast hv.isSuffix hnil
    cases hend with
    | @semicolon skipped _ t _ hend =>
      exact (not_last (last_of_suffix hlast' (List.suffix_append skipped [t])
        (List.cons_ne_nil t [])) rfl hend (by simp [hb])).elim
    | input hskip =>
      obtain ⟨ws, rfl⟩ := hlast'
      obtain ⟨vs, hvs, hv'⟩ := hv.shortened ws b rfl
      exact ⟨vs, ws, hvs, hv', carriesOn_of_append hnext,
        .input fun s hs => hskip s (List.mem_append_left [b] hs)⟩

mutual

/-- A phrase that ends with a closing brace is a phrase without it, at the end of the input. -/
theorem Expression.unbraced {r : Rung} {ts us : List Token} {e : Expr} :
    Expression r ts us e → us = [] → ∀ b : Token, b.kind = .rightBrace → [b] <:+ ts →
      ∃ vs, ts = vs ++ [b] ∧ Expression r vs [] e
  | .climb h, hus, b, hb, hlast => by
    obtain ⟨vs, hts, h'⟩ := h.unbraced hus b hb hlast
    exact ⟨vs, hts, .climb h'⟩
  | @Expression.binary _ _ _ _ t _ _ _ hl hop hr, hus, b, hb, hlast => by
    have hlast' := last_of_suffix hlast ((List.suffix_cons _ _).trans hl.isSuffix) hr.ne_nil
    obtain ⟨vs, hvs, hr'⟩ := hr.unbraced hus b hb hlast'
    obtain ⟨ws, hts, hl'⟩ := hl.shortened (t :: vs) b (congrArg (t :: ·) hvs)
    exact ⟨ws, hts, .binary hl' hop hr'⟩
  | @Expression.not t _ _ _ hop h, hus, b, hb, hlast => by
    have hlast' := last_of_suffix hlast (List.suffix_cons _ _) h.ne_nil
    obtain ⟨vs, hvs, h'⟩ := h.unbraced hus b hb hlast'
    exact ⟨t :: vs, congrArg (t :: ·) hvs, .not hop h'⟩
  | @Expression.negate t _ _ _ hop h, hus, b, hb, hlast => by
    have hlast' := last_of_suffix hlast (List.suffix_cons _ _) h.ne_nil
    obtain ⟨vs, hvs, h'⟩ := h.unbraced hus b hb hlast'
    exact ⟨t :: vs, congrArg (t :: ·) hvs, .negate hop h'⟩
  | .call hc _ ha, hus, b, hb, hlast => by
    obtain ⟨u, hu, hs⟩ := ha.closes
    have hs' := hs.trans ((List.suffix_cons _ _).trans hc.isSuffix)
    exact (not_last (last_of_suffix hlast hs' (List.cons_ne_nil _ _)) hus hu (by simp [hb])).elim
  | .ident hk, hus, _, hb, hlast => (not_last hlast hus hk (by simp [hb])).elim
  | .int hk _, hus, _, hb, hlast => (not_last hlast hus hk (by simp [hb])).elim
  | .str hk, hus, _, hb, hlast => (not_last hlast hus hk (by simp [hb])).elim
  | .yes hk, hus, _, hb, hlast => (not_last hlast hus hk (by simp [hb])).elim
  | .no hk, hus, _, hb, hlast => (not_last hlast hus hk (by simp [hb])).elim
  | .group h, hus, b, hb, hlast => by
    obtain ⟨u, hu, hs⟩ := h.closes
    exact (not_last (last_of_suffix hlast hs (List.cons_ne_nil _ _)) hus hu (by simp [hb])).elim
  | @Expression.cond t _ _ _ _ _ hk ht hc _, hus, b, hb, hlast => by
    have hlast' := last_of_suffix hlast (ht.isSuffix.trans (List.suffix_cons _ _)) hc.ne_nil
    obtain ⟨vs, hvs, hc'⟩ := hc.unbraced hus b hb hlast'
    obtain ⟨ws, hws, ht'⟩ := ht.shortened vs b hvs
    exact ⟨t :: ws, congrArg (t :: ·) hws, .cond hk ht' hc' (by decide)⟩
  | @Expression.condElse t u _ _ _ _ _ _ _ hk ht hc helse ha, hus, b, hb, hlast => by
    have hlast' := last_of_suffix hlast ((List.suffix_cons _ _).trans
      (hc.isSuffix.trans (ht.isSuffix.trans (List.suffix_cons _ _)))) ha.ne_nil
    obtain ⟨vs, hvs, ha'⟩ := ha.unbraced hus b hb hlast'
    obtain ⟨ws, hws, hc'⟩ := hc.shortened (u :: vs) b (congrArg (u :: ·) hvs)
    obtain ⟨xs, hxs, ht'⟩ := ht.shortened ws b hws
    exact ⟨t :: xs, congrArg (t :: ·) hxs, .condElse hk ht' hc' helse ha'⟩
  | @Expression.fn t _ _ _ _ _ hk hp hbody, hus, b, hb, hlast => by
    have hlast' := last_of_suffix hlast (hp.isSuffix.trans (List.suffix_cons _ _)) hbody.ne_nil
    obtain ⟨vs, hvs, hbody'⟩ := hbody.unbraced hus b hb hlast'
    obtain ⟨ws, hws, hp'⟩ := hp.shortened hvs
    exact ⟨t :: ws, congrArg (t :: ·) hws, .fn hk hp' hbody'⟩

theorem Statement.unbraced {ts us : List Token} {s : Stmt} :
    Statement ts us s → us = [] → ∀ b : Token, b.kind = .rightBrace → [b] <:+ ts →
      ∃ vs, ts = vs ++ [b] ∧ Statement vs [] s
  | @Statement.bind t name assign _ _ _ _ hk hname hassign hv hnext hend, hus, b, hb, hlast => by
    have hlast' := last_of_suffix hlast ((List.suffix_cons _ _).trans
      ((List.suffix_cons _ _).trans (List.suffix_cons _ _))) hv.ne_nil
    obtain ⟨vs, ws, hvs, hv', hnext', hend'⟩ := Skipped.unbraced hb hlast' hv hnext (hus ▸ hend)
      fun hnil => hv.unbraced hnil b hb hlast'
    exact ⟨t :: name :: assign :: vs, congrArg (t :: name :: assign :: ·) hvs,
      .bind hk hname hassign hv' hnext' hend'⟩
  | @Statement.ret t _ _ _ _ hk hv hnext hend, hus, b, hb, hlast => by
    have hlast' := last_of_suffix hlast (List.suffix_cons _ _) hv.ne_nil
    obtain ⟨vs, ws, hvs, hv', hnext', hend'⟩ := Skipped.unbraced hb hlast' hv hnext (hus ▸ hend)
      fun hnil => hv.unbraced hnil b hb hlast'
    exact ⟨t :: vs, congrArg (t :: ·) hvs, .ret hk hv' hnext' hend'⟩
  | .expr hv _, hus, b, hb, hlast => by
    obtain ⟨vs, hvs, hv'⟩ := hv.unbraced hus b hb hlast
    exact ⟨vs, hvs, .expr hv' rfl⟩
  | .terminated hv hend, hus, b, hb, hlast =>
    (not_last (last_of_suffix hlast hv.isSuffix (List.cons_ne_nil _ _)) hus hend
      (by simp [hb])).elim

theorem Statements.unbraced {ts us : List Token} {body : Block} :
    Statements ts us body → us = [] → ∀ b : Token, b.kind = .rightBrace → [b] <:+ ts →
      ∃ vs, ts = vs ++ [b] ∧ Statements vs [] body
  | .nil, hus, b, _, hlast => by
    subst hus
    exact absurd (List.suffix_nil.1 hlast) (List.cons_ne_nil b [])
  | @Statements.cons _ us _ _ _ hs hmore, hus, b, hb, hlast => by
    by_cases hnil : us = []
    · obtain ⟨vs, hvs, hs'⟩ := hs.unbraced hnil b hb hlast
      subst hnil hus
      exact ⟨vs, hvs, .cons hs' hmore⟩
    · obtain ⟨vs, hvs, hmore'⟩ := hmore.unbraced hus b hb (last_of_suffix hlast hs.isSuffix hnil)
      obtain ⟨ws, hts, hs'⟩ := hs.shortened vs b hvs
      exact ⟨ws, hts, .cons hs' hmore'⟩

theorem Braced.unbraced {ts us : List Token} {body : Block} :
    Braced ts us body → us = [] → ∀ b : Token, b.kind = .rightBrace → [b] <:+ ts →
      ∃ vs, ts = vs ++ [b] ∧ Braced vs [] body
  | @Braced.closed t u _ _ _ hopening h hclosing, hus, b, hb, hlast => by
    have hsuffix := hus ▸ h.isSuffix.trans (List.suffix_cons t _)
    obtain rfl : b = u := eq_last hlast hsuffix
    obtain ⟨vs, hvs, h'⟩ := h.shortened [] b (congrArg (b :: ·) hus)
    exact ⟨t :: vs, congrArg (t :: ·) hvs, .unclosed hopening h'⟩
  | @Braced.unclosed t ts _ hopening h, hus, b, hb, hlast => by
    have hts : ts ≠ [] := fun hnil => not_last hlast hnil hopening (by simp [hb])
    obtain ⟨vs, hvs, h'⟩ := h.unbraced rfl b hb (last_of_suffix hlast (List.suffix_cons t ts) hts)
    exact ⟨t :: vs, congrArg (t :: ·) hvs, .unclosed hopening h'⟩

end

end Grammar

/-! ## Blocks that are left open -/

section LeftOpen

variable {α β : Type} {stop : Span} {ts : List Token}

theorem Reading.rest_eq_nil (r : Reading α ts) (hts : ts = []) : r.rest = [] := by
  subst hts
  exact List.suffix_nil.1 r.isSuffix

/-- A block that is left open is the last thing that is read. -/
def Reading.Last (r : Reading α ts) : Prop :=
  Grammar.NoEnd ts → r.unclosed ≠ 0 → r.rest = []

theorem Reading.Last.bind_some {r : Reading (Option α) ts}
    {f : α → (us : List Token) → us.length ≤ ts.length → Reading (Option β) us} {a : α}
    (hr : r.Last) (hv : r.value = some a) (hf : (f a r.rest r.length_rest_le).Last) :
    (r.bind f).Last := by
  rw [bind_of_some hv]
  intro hts hopen
  by_cases hopen' : r.unclosed = 0
  · refine hf (hts.of_suffix r.isSuffix) fun h => hopen ?_
    exact Nat.add_eq_zero_iff.2 ⟨hopen', h⟩
  · exact (f a r.rest r.length_rest_le).rest_eq_nil (hr hts hopen')

theorem Reading.Last.followedBy {r : Reading (Option Stmt) ts} {s : Reading Block r.rest.tail}
    (hr : r.Last) (hs : s.Last) : (r.followedBy s).Last := by
  intro hts hopen
  by_cases hopen' : r.unclosed = 0
  · refine hs (hts.of_suffix ((List.tail_suffix _).trans r.isSuffix)) fun h => hopen ?_
    exact Nat.add_eq_zero_iff.2 ⟨hopen', h⟩
  · exact s.rest_eq_nil (congrArg List.tail (hr hts hopen'))

/-- Nothing is read after a block that is left open, for it ends where the input does. -/
def lastness (stop : Span) : ReaderLaw where
  token := Eq
  stop := stop
  stop' := stop
  one r _ := r.Last
  many r _ := r.Last ∧ ∃ inBlock, endsStatements inBlock (currentKind r.rest)
  respected := {
    alike h := h ▸ ⟨rfl, fun _ => rfl⟩
    token_end := rfl
    done _ _ _ hopen := absurd rfl hopen
    fail _ _ _ hopen := absurd rfl hopen
    within h _ _ hr hts := hr (hts.of_suffix h)
    mapSome _ _ hr := hr
    bind_none hv _ hr := by
      rw [bind_of_none hv]
      exact hr
    bind_some hv _ hr hf := hr.bind_some hv hf
    toTerminator hr hts hopen := by
      show List.dropWhile _ _ = []
      rw [hr hts hopen]
      rfl
    overSemicolon {α ts us r r'} hr := by
      unfold Reading.overSemicolon
      split
      · intro hts hopen
        show r.rest.tail = []
        rw [hr hts hopen]
        rfl
      · exact hr
    block {ts us r r'} _ hr hts hopen := by
      by_cases hopen' : r.unclosed = 0
      · have hcount : r.unclosed + (if currentKind r.rest = .rightBrace then 0 else 1) ≠ 0 := hopen
        have hkind : currentKind r.rest ≠ .rightBrace := fun h => by simp [hopen', h] at hcount
        obtain ⟨inBlock, hend⟩ := hr.2
        exact (hts.tail.of_suffix r.isSuffix).eq_nil (hend.resolve_right fun h => hkind h.2)
      · exact hr.1 hts.tail hopen'
    nil hend := ⟨fun _ hopen => absurd rfl hopen, _, hend⟩
    followedBy _ _ hr hs := ⟨hr.followedBy hs.1, hs.2⟩ }

theorem Reader.statement_last (stop : Span) (ts : List Token) : (statement stop ts).Last :=
  ((lastness stop).statement ts (fun _ => rfl)).law

end LeftOpen

/-! ## Expressions that end with the input -/

section EndsOpen

variable {α β : Type} {stop : Span} {ts us : List Token}

/-- A reading that takes everything leaves a block open. -/
def Reading.EndsOpen (r : Reading (Option α) ts) : Prop :=
  r.value ≠ none → r.rest = [] → r.unclosed ≠ 0

namespace Reading

theorem endsOpen_fail (cause : SyntaxError.Cause) (span : Span) :
    (fail cause span : Reading (Option α) ts).EndsOpen :=
  fun hv => absurd rfl hv

theorem endsOpen_of_ne_nil {r : Reading (Option α) ts} (h : r.rest ≠ []) : r.EndsOpen :=
  fun _ hnil => absurd hnil h

theorem EndsOpen.within {r : Reading (Option α) us} (hr : r.EndsOpen) (h : us <:+ ts) :
    (r.within h).EndsOpen :=
  hr

theorem EndsOpen.mapSome {r : Reading (Option α) ts} (hr : r.EndsOpen) (f : α → β) :
    (r.mapSome f).EndsOpen := by
  intro hv
  refine hr fun hnone => hv ?_
  show Option.map f r.value = none
  rw [hnone]
  rfl

theorem EndsOpen.bind {r : Reading (Option α) ts}
    {f : α → (us : List Token) → us.length ≤ ts.length → Reading (Option β) us} (hr : r.EndsOpen)
    (hf : ∀ a us h, us ≠ [] → (f a us h).EndsOpen) : (r.bind f).EndsOpen := by
  cases hv : r.value with
  | none => exact fun hvalue => absurd (value_bind_of_none hv) hvalue
  | some a =>
    rw [bind_of_some hv]
    intro hvalue hnil hclosed
    obtain ⟨hclosed, hclosed'⟩ := Nat.add_eq_zero_iff.1 hclosed
    have hrest : r.rest ≠ [] := fun h => hr (hv ▸ Option.some_ne_none a) h hclosed
    exact hf a r.rest r.length_rest_le hrest hvalue hnil hclosed'

theorem endsOpen_bind {r : Reading (Option α) ts}
    {f : α → (us : List Token) → us.length ≤ ts.length → Reading (Option β) us}
    (hf : ∀ a us h, (f a us h).EndsOpen) : (r.bind f).EndsOpen := by
  cases hv : r.value with
  | none => exact fun hvalue => absurd (value_bind_of_none hv) hvalue
  | some a =>
    rw [bind_of_some hv]
    intro hvalue hnil hclosed
    exact hf a r.rest r.length_rest_le hvalue hnil (Nat.add_eq_zero_iff.1 hclosed).2

theorem unclosed_countUnclosed {r : Reading α ts} (h : r.rest = []) :
    r.countUnclosed.unclosed ≠ 0 := by
  show r.unclosed + (if currentKind r.rest = .rightBrace then 0 else 1) ≠ 0
  rw [h]
  exact Nat.succ_ne_zero _

/-- A block may be the last thing that is read, or something may be read after it. -/
theorem endsOpen_block {r : Reading α ts.tail}
    {f : α → (us : List Token) → us.length ≤ ts.length → Reading (Option β) us}
    (hf : r.rest ≠ [] → (f r.value r.rest r.countUnclosed.afterCurrent.length_rest_le).EndsOpen) :
    (r.countUnclosed.afterCurrent.andThen f).EndsOpen := by
  intro hvalue hnil hclosed
  obtain ⟨hclosed, hclosed'⟩ := Nat.add_eq_zero_iff.1 hclosed
  exact hf (fun h => unclosed_countUnclosed h hclosed) hvalue hnil hclosed'

theorem endsOpen_map_block (r : Reading α ts.tail) (f : α → β) :
    (r.countUnclosed.afterCurrent.map fun a => some (f a)).EndsOpen :=
  fun _ hnil => unclosed_countUnclosed hnil

theorem endsOpen_expectNext (stop : Span) (kind : TokenKind) (ts : List Token) :
    (expectNext stop kind ts).EndsOpen := by
  unfold expectNext
  split
  · split
    · exact endsOpen_of_ne_nil (List.cons_ne_nil _ _)
    · exact endsOpen_fail _ _
  · exact endsOpen_fail _ _

end Reading

namespace Reader

theorem argumentList_endsOpen (ts : List Token) : (argumentList stop ts).EndsOpen := by
  rw [argumentList]
  refine endsOpen_bind fun e us hle => ?_
  rcases us with _ | ⟨last, _ | ⟨separator, more⟩⟩
  · exact (endsOpen_expectNext _ _ _).mapSome _
  · exact (endsOpen_expectNext _ _ _).mapSome _
  · have hlt : more.length + 2 ≤ ts.length := hle
    dsimp only
    split
    · exact ((argumentList_endsOpen more).mapSome _).within _
    · exact (endsOpen_expectNext _ _ _).mapSome _
termination_by ts.length

theorem arguments_endsOpen (ts : List Token) : (arguments stop ts).EndsOpen := by
  rw [arguments]
  split
  · next hclosing =>
    obtain ⟨t, rest, rfl, -⟩ := exists_cons_of_currentKind hclosing (by decide)
    exact endsOpen_of_ne_nil (List.cons_ne_nil t rest)
  · exact argumentList_endsOpen ts

-- Only the reader that comes last matters. That of a block does not stop at the end without leaving
-- the block open, so nothing has to be known of the statements in it.
mutual

theorem expression_endsOpen (p : Precedence) (ts : List Token) :
    (expression stop p ts).EndsOpen := by
  rw [expression]
  exact (primary_endsOpen ts).bind fun lhs us _ hus => operators_endsOpen p lhs us hus
termination_by 8 * ts.length + 2
decreasing_by all_goals omega

theorem primary_endsOpen (ts : List Token) : (primary stop ts).EndsOpen := by
  match ts with
  | [] =>
    rw [primary]
    exact endsOpen_fail _ _
  | t :: rest =>
    have hdone (e : Expr) : (done (some e) : Reading (Option Expr) (t :: rest)).EndsOpen :=
      endsOpen_of_ne_nil (List.cons_ne_nil t rest)
    rw [primary]
    cases t.kind with
    | ident | string | kwTrue | kwFalse => exact hdone _
    | integer =>
      cases Text.readInt64? t.literal with
      | some n => exact hdone _
      | none => exact endsOpen_fail _ _
    | bang | minus => exact ((expression_endsOpen .unary rest).mapSome _).within _
    | leftParen =>
      refine EndsOpen.within (endsOpen_bind fun e us _ => ?_) _
      exact (endsOpen_expectNext _ _ _).mapSome _
    | kwIf =>
      refine endsOpen_bind fun _ _ _ => endsOpen_bind fun _ _ _ => endsOpen_bind fun _ _ _ => ?_
      refine endsOpen_bind fun _ _ _ => endsOpen_block fun hne => ?_
      split
      · exact (endsOpen_bind fun _ _ _ => endsOpen_map_block _ _).within _
      · exact endsOpen_of_ne_nil hne
    | kwFn =>
      refine endsOpen_bind fun _ _ _ => endsOpen_bind fun _ _ _ => endsOpen_bind fun _ _ _ => ?_
      exact endsOpen_map_block _ _
    | _ => exact endsOpen_fail _ _
termination_by 8 * ts.length + 1
decreasing_by all_goals simp only [List.length_cons]; omega

theorem operators_endsOpen (p : Precedence) (lhs : Expr) (ts : List Token) (hts : ts ≠ []) :
    (operators stop p lhs ts).EndsOpen := by
  by_cases hp : p < (nextKind ts).precedence
  · match ts with
    | last :: operator :: rest =>
      have hp' : p < operator.kind.precedence := hp
      rw [operators, if_pos hp']
      refine EndsOpen.within ?_ _
      cases BinaryOp.ofKind? operator.kind with
      | some op =>
        exact (expression_endsOpen op.precedence rest).bind fun rhs us _ hus =>
          operators_endsOpen p _ us hus
      | none =>
        exact (arguments_endsOpen rest).bind fun args us _ hus => operators_endsOpen p _ us hus
  · rw [operators_of_not_lt hp]
    exact endsOpen_of_ne_nil hts
termination_by 8 * ts.length + 1
decreasing_by all_goals simp only [List.length_cons]; omega

end

theorem statement_endsOpen (hlet : currentKind ts ≠ .kwLet) (hret : currentKind ts ≠ .kwReturn) :
    (statement stop ts).EndsOpen := by
  rw [statement, if_neg hlet, if_neg hret]
  refine (expression_endsOpen .lowest ts).bind fun e us _ hus => ?_
  unfold overSemicolon
  split
  · next hsemi =>
    obtain ⟨t, rest, htail, -⟩ := exists_cons_of_currentKind hsemi (by decide)
    refine endsOpen_of_ne_nil fun hnil => ?_
    cases htail.symm.trans hnil
  · exact endsOpen_of_ne_nil hus

end Reader

end EndsOpen

/-! ## Programs with a closing brace after them -/

/-- The statement is an expression. -/
def Stmt.isExpr : Stmt → Bool
  | .expr _ => true
  | _ => false

/-- The last statement is a binding or a return that no semicolon ends. What follows it is passed
over. -/
def PassesOver (ts : List Token) (body : Block) : Prop :=
  (∃ s ∈ body.getLast?, s.isExpr = false) ∧ ¬ EndsWithSemicolon ts

section ClosingBrace

variable {stop : Span} {ts us : List Token} {s : Stmt} {b : Token}

/-- The reader comes to the end in a statement that leaves a block open and in one that passes over
what follows, and in no other. -/
theorem statement_eq_nil_iff (hts : Grammar.NoEnd ts) (h : (statement stop ts).Gives (some s) us)
    (htail : us.tail = []) :
    us = [] ↔ (statement stop ts).unclosed ≠ 0 ∨ s.isExpr = false ∧ ¬ EndsWithSemicolon ts := by
  have hv : (statement stop ts).value ≠ none := h.2.1 ▸ Option.some_ne_none s
  constructor
  · rintro rfl
    refine or_iff_not_imp_left.2 fun hclosed => ⟨?_, fun hlast => ?_⟩
    · by_cases hlet : currentKind ts = .kwLet
      · obtain ⟨_, _, _, _, _, _, _, _, _, _, rfl⟩ := (statement_kwLet hlet).1 h
        rfl
      by_cases hret : currentKind ts = .kwReturn
      · obtain ⟨_, _, _, _, rfl⟩ := (statement_kwReturn hret).1 h
        rfl
      · exact absurd (statement_endsOpen hlet hret hv h.2.2) hclosed
    · exact statement_grounded stop ts hlast hv (not_not.1 hclosed) h.2.2
  · rintro (hopen | ⟨hexpr, hlast⟩)
    · exact h.2.2.symm.trans (statement_last stop ts hts hopen)
    · refine Decidable.byContradiction fun hne => hlast ?_
      -- The search for a semicolon would have found the last token.
      have hsemi : currentKind us = .semicolon := by
        by_cases hlet : currentKind ts = .kwLet
        · obtain ⟨_, _, rest, _, vs, heq, _, _, hvalue, rfl, -⟩ := (statement_kwLet hlet).1 h
          have hvs : vs <:+ ts := hvalue.isSuffix.trans
            ((List.suffix_cons _ rest).trans (isSuffix_of_tail_eq_cons heq))
          exact Grammar.currentKind_fromTerminator (hts.of_suffix hvs) hne
        by_cases hret : currentKind ts = .kwReturn
        · obtain ⟨_, vs, hvalue, rfl, -⟩ := (statement_kwReturn hret).1 h
          have hvs : vs <:+ ts := hvalue.isSuffix.trans (List.tail_suffix ts)
          exact Grammar.currentKind_fromTerminator (hts.of_suffix hvs) hne
        · obtain ⟨_, _, _, _, rfl⟩ := (statement_expression hlet hret).1 h
          cases hexpr
      refine (endsWithSemicolon_iff_of_suffix h.isSuffix hne).1 ?_
      obtain ⟨t, rest, rfl, hk⟩ := exists_cons_of_currentKind hsemi (by decide)
      obtain rfl : rest = [] := htail
      exact congrArg some hk

theorem passesOver_singleton : PassesOver ts [s] ↔ s.isExpr = false ∧ ¬ EndsWithSemicolon ts := by
  simp [PassesOver]

theorem passesOver_cons {body : Block} (hs : us <:+ ts) (hus : us ≠ []) (hbody : body ≠ []) :
    PassesOver ts (s :: body) ↔ PassesOver us body := by
  obtain ⟨s', body, rfl⟩ := List.exists_cons_of_ne_nil hbody
  rw [PassesOver, PassesOver, List.getLast?_cons_cons, endsWithSemicolon_iff_of_suffix hs hus]

theorem not_endsStatements (hts : Grammar.NoEnd ts) (hne : ts ≠ []) :
    ¬ endsStatements false (currentKind ts) := by
  rintro (heof | ⟨hblock, -⟩)
  · exact hne (hts.eq_nil heof)
  · cases hblock

theorem statements_of_gives (hts : Grammar.NoEnd ts) (hne : ts ≠ [])
    (h : (statement stop ts).Gives (some s) us) :
    (statements stop false ts).errors = (statements stop false us.tail).errors ∧
      (statements stop false ts).value = s :: (statements stop false us.tail).value ∧
      (statements stop false ts).unclosed =
        (statement stop ts).unclosed + (statements stop false us.tail).unclosed := by
  obtain ⟨herrors, hvalue, rfl⟩ := h
  rw [statements_followedBy (not_endsStatements hts hne), followedBy, herrors, hvalue]
  exact ⟨rfl, rfl, rfl⟩

theorem Grammar.not_derives_brace (hb : b.kind = .rightBrace) {p : Program} : ¬ Derives [b] p := by
  obtain ⟨body⟩ := p
  intro h
  cases h with
  | cons hs _ =>
    have hstarts := hs.starts
    simp [currentKind, hb, startsExpression] at hstarts

theorem Grammar.Statements.body_ne_nil {body : Block} (h : Statements ts us body) (hne : ts ≠ us) :
    body ≠ [] := by
  rintro rfl
  cases h
  exact hne rfl

/-- No program is a closing brace. -/
theorem errors_brace_ne_nil (hb : b.kind = .rightBrace) :
    (statements stop false [b]).errors ≠ [] := by
  intro h
  have hts : Grammar.NoEnd [b] := List.forall_mem_singleton.2 (by simp [hb])
  exact Grammar.not_derives_brace hb (Grammar.derives_of_errors_eq_nil hts h)

/-- **When a closing brace may follow.** Let there be nothing wrong with the tokens. Then nothing is
wrong with a closing brace after them exactly if they leave a block open or pass over it. -/
theorem errors_append_brace_iff {stop' : Span} (hb : b.kind = .rightBrace) (ts : List Token)
    (hts : Grammar.NoEnd ts) (herrors : (statements stop false ts).errors = []) :
    (statements stop' false (ts ++ [b])).errors = [] ↔
      (statements stop false ts).unclosed ≠ 0 ∨
        PassesOver ts (statements stop false ts).value := by
  have hnil (stop : Span) : statements stop false [] = .done [] := statements_of_ends (.inl rfl)
  by_cases hne : ts = []
  · subst hne
    rw [hnil]
    simp [PassesOver, done, errors_brace_ne_nil hb]
  have hbrace : Grammar.Trailing [b] := .brace hb
  have hsuffix := (statement stop ts).isSuffix
  rw [statements_followedBy (not_endsStatements hts hne)] at herrors
  obtain ⟨herrors, herrors'⟩ := List.append_eq_nil_iff.1 herrors
  obtain ⟨s, hs⟩ := (statement_accounted stop ts).candid.gives herrors
  generalize (statement stop ts).rest = us at hs hsuffix herrors'
  have htail : us.tail <:+ ts := (List.tail_suffix us).trans hsuffix
  obtain ⟨-, hvalue, hopen⟩ := statements_of_gives hts hne hs
  -- The brace does not change how the first statement is read.
  obtain ⟨hd, hend⟩ := Grammar.statements_sound false us.tail (hts.of_suffix htail)
    ⟨herrors', rfl, rfl⟩
  have hsemi : currentKind (us ++ [b]).tail ≠ .semicolon := by
    rcases hbrace.nextKind_append us with hnext | hnext
    · exact fun hk => hd.not_semicolon hend (hnext.symm.trans hk)
    · exact fun hk => absurd (hnext.symm.trans hk) (by decide)
  obtain ⟨ws, hws, hwstail⟩ :=
    (Grammar.statement_derived hbrace ts hts hs).given (hbrace.noEnd hts) hsemi
  rw [(statements_of_gives (hbrace.noEnd hts) (List.append_ne_nil_of_left_ne_nil hne [b]) hws).1,
    hwstail, hvalue, hopen]
  by_cases hlast : us.tail = []
  · -- It is the last one, and the brace is left if the reader stands on a token.
    have hiff := statement_eq_nil_iff hts hs hlast
    rw [hlast, hnil]
    show _ ↔ (statement stop ts).unclosed ≠ 0 ∨ PassesOver ts [s]
    rw [passesOver_singleton, ← hiff]
    by_cases hus : us = []
    · subst hus
      simp [hnil, done]
    · rw [List.tail_append_of_ne_nil hus, hlast, List.nil_append]
      simp [hus, errors_brace_ne_nil hb]
  · have hclosed : (statement stop ts).unclosed = 0 := by
      refine Decidable.byContradiction fun h => hlast ?_
      rw [← hs.2.2, statement_last stop ts hts h]
      rfl
    have hbody : (statements stop false us.tail).value ≠ [] :=
      hd.body_ne_nil fun h => not_endsStatements (hts.of_suffix htail) hlast (h ▸ hend)
    have hus : us ≠ [] := by
      rintro rfl
      exact hlast rfl
    rw [hclosed, Nat.zero_add, passesOver_cons htail hlast hbody, List.tail_append_of_ne_nil hus]
    exact errors_append_brace_iff hb us.tail (hts.of_suffix htail) herrors'
termination_by ts.length
decreasing_by
  have hle := hsuffix.length_le
  have hpos := List.length_pos_iff.2 hne
  rw [List.length_tail]
  omega

theorem parsed_of_append_brace (stop' : Span) (hts : Grammar.NoEnd ts) (hb : b.kind = .rightBrace)
    (h : (Parsed.ofStream ⟨ts ++ [b], stop⟩).errors = []) :
    (Parsed.ofStream ⟨ts, stop'⟩).errors = [] ∧
      (Parsed.ofStream ⟨ts, stop'⟩).program = (Parsed.ofStream ⟨ts ++ [b], stop⟩).program := by
  have hd := Grammar.derives_of_errors_eq_nil ((Grammar.Trailing.brace hb).noEnd hts) h
  obtain ⟨us, hus, hd'⟩ := Grammar.Statements.unbraced hd rfl b hb (List.suffix_append ts [b])
  obtain rfl : ts = us := List.append_cancel_right hus
  exact Grammar.Derives.parsed hd' hts

end ClosingBrace

/-! ## Texts -/

theorem noEnd_ofSource (source : String) : Grammar.NoEnd (TokenStream.ofSource source).tokens :=
  (cut_readAll 0 source.toList).not_eof

/-- A closing brace after a text is a token of its own, unless it comes to stand in a string. -/
theorem Cut.append_brace {offset : Nat} {ts : List Token} {text : List Char}
    (h : Cut offset ts text) (hlast : ts.getLast?.map Token.kind ≠ some .string) :
    ∃ b : Token, b.kind = .rightBrace ∧ Cut offset (ts ++ [b]) (text ++ ['\x7d']) := by
  induction h with
  | @done offset gap hgap =>
    have hs : Spelled .rightBrace "\x7d".toList ['\x7d'] [] := by
      rw [show "\x7d".toList = ['\x7d'] from rfl]
      exact .symbol rfl
    have hcut : Cut offset [⟨.rightBrace, "\x7d", .ofNat (offset + Text.byteLength gap) 1⟩]
        (gap ++ (['\x7d'] ++ [])) := .next hgap hs rfl (.done (List.forall_mem_nil _))
    exact ⟨_, rfl, hcut⟩
  | @next offset t ts gap written rest hgap hs hspan hrest ih =>
    have hend : rest ≠ [] ∨ t.kind ≠ .string := by
      refine or_iff_not_imp_left.2 fun hnil => ?_
      obtain rfl := not_not.1 hnil
      obtain rfl := hrest.eq_nil
      simpa using hlast
    have hstop : StopsBefore t.kind.continuedBy (rest ++ ['\x7d']) := by
      cases rest with
      | nil =>
        rintro c ⟨⟩
        cases t.kind <;> decide
      | cons c rest => exact hs.stopsBefore
    have hlast' : ts.getLast?.map Token.kind ≠ some .string := by
      cases ts with
      | nil => exact nofun
      | cons u ts => rwa [List.getLast?_cons_cons] at hlast
    obtain ⟨b, hb, hcut⟩ := ih hlast'
    rw [List.append_assoc, List.append_assoc]
    exact ⟨b, hb, .next hgap (hs.of_stopsBefore hend hstop) hspan hcut⟩

theorem ofSource_append_brace {source : String}
    (h : (TokenStream.ofSource source).tokens.getLast?.map Token.kind ≠ some .string) :
    ∃ b stop, b.kind = .rightBrace ∧ TokenStream.ofSource (source ++ "\x7d") =
      ⟨(TokenStream.ofSource source).tokens ++ [b], stop⟩ := by
  obtain ⟨b, hb, hcut⟩ := (cut_readAll 0 source.toList).append_brace h
  refine ⟨b, (TokenStream.ofSource (source ++ "\x7d")).endSpan, hb, ?_⟩
  refine congrArg (TokenStream.mk · _) ?_
  rw [String.toList_append]
  exact hcut.readAll

/-- **The end of the input closes blocks.** A text with a closing brace after its last token is read
without errors exactly if it is read so without the brace and leaves a block open, or else ends with
a binding or a return that passes over the brace; and both are read as the same program. So a text
may leave blocks open, at any depth, and nothing is noticed; and where nothing is passed over, all
blocks are closed exactly if one more closing brace is an error. If the last token is no string, the
brace may be written after the text. -/
theorem closing_brace_optional (source : String) :
    (∀ (b : Token) (stop : Span), b.kind = .rightBrace →
      ((Parsed.ofStream ⟨(TokenStream.ofSource source).tokens ++ [b], stop⟩).errors = [] ↔
        (Parsed.ofSource source).errors = [] ∧ ((Parsed.ofSource source).unclosed ≠ 0 ∨
          PassesOver (TokenStream.ofSource source).tokens
            (Parsed.ofSource source).program.statements)) ∧
      ((Parsed.ofStream ⟨(TokenStream.ofSource source).tokens ++ [b], stop⟩).errors = [] →
        (Parsed.ofStream ⟨(TokenStream.ofSource source).tokens ++ [b], stop⟩).program =
          (Parsed.ofSource source).program)) ∧
    ((TokenStream.ofSource source).tokens.getLast?.map Token.kind ≠ some .string →
      ∃ b stop, b.kind = .rightBrace ∧ TokenStream.ofSource (source ++ "\x7d") =
        ⟨(TokenStream.ofSource source).tokens ++ [b], stop⟩) := by
  have hts := noEnd_ofSource source
  refine ⟨fun b stop hb => ⟨⟨fun h => ?_, fun h => ?_⟩, fun h => ?_⟩, ofSource_append_brace⟩
  · have herrors := (parsed_of_append_brace (TokenStream.ofSource source).endSpan hts hb h).1
    exact ⟨herrors, (errors_append_brace_iff hb _ hts herrors).1 h⟩
  · exact (errors_append_brace_iff hb _ hts h.1).2 h.2
  · exact (parsed_of_append_brace (TokenStream.ofSource source).endSpan hts hb h).2.symm

/-- Two blocks are open at the end: that of a function and, in it, that of an `else`. -/
def openElse : String :=
  "let f = fn(x) \x7b if (x) \x7b x; \x7d else \x7b 1"

theorem closing_brace_optional_openElse :
    (Parsed.ofSource openElse).errors = [] ∧ (Parsed.ofSource openElse).unclosed ≠ 0 ∧
      (Parsed.ofSource (openElse ++ "\x7d")).errors = [] ∧
      (Parsed.ofSource (openElse ++ "\x7d")).program = (Parsed.ofSource openElse).program := by
  have herrors : (Parsed.ofSource openElse).errors = [] := by decide +kernel
  have hopen : (Parsed.ofSource openElse).unclosed ≠ 0 := by decide +kernel
  obtain ⟨hread, htext⟩ := closing_brace_optional openElse
  obtain ⟨b, stop, hb, hsource⟩ := htext (by decide +kernel)
  obtain ⟨haccepted, hsame⟩ := hread b stop hb
  have hbraced := haccepted.2 ⟨herrors, .inl hopen⟩
  have hwhole : Parsed.ofSource (openElse ++ "\x7d") =
      Parsed.ofStream ⟨(TokenStream.ofSource openElse).tokens ++ [b], stop⟩ := congrArg _ hsource
  rw [hwhole]
  exact ⟨herrors, hopen, hbraced, hsame hbraced⟩

/-- So a text can be read without errors and leave a block open. -/
theorem unclosed_block_accepted :
    ¬ ∀ source : String, (Parsed.ofSource source).errors = [] →
      (Parsed.ofSource source).unclosed = 0 := by
  intro h
  exact absurd (h "if (true) \x7b 1" (by decide +kernel)) (by decide +kernel)

end Sprig
