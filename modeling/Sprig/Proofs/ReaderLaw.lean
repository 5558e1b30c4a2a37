import Mathlib.Data.List.Forall2
import Sprig.Proofs.Reading

/-!
# Laws that all readers keep

The readers of the language are put together from a handful of readings by a handful of combinators.
What those respect holds of every reader. A `ReaderLaw` is a relation between two readings, of
inputs whose tokens go in pairs, together with the proof that it is respected; what follows for each
of the readers (`ReaderLaw.expression`, `ReaderLaw.statements` and their companions) is then proved
here once and for all laws: the two readings are so related, give the same tree and end at the same
place. A law about a single reading is one that pairs every token with itself and looks at the first
reading only.

Tokens go in pairs place by place, and where an input has run out the place is taken by the token
that stands for its end. So a token of that kind may be there on one side and be left out on the
other. Every reader can be described by the current token and the next (`expectNext_eq`,
`Reader.parameterNames_eq`, `Reader.primary_of_eof` and others), whether they are there or not.
-/

namespace Sprig

/-! ## What readings are put together from -/

namespace Reading

variable {α β : Type} {ts us : List Token}

theorem value_mapSome_of_none {f : α → β} {r : Reading (Option α) ts} (h : r.value = none) :
    (r.mapSome f).value = none := by
  rw [mapSome, map, h]
  rfl

/-- After a failure nothing else is read. -/
theorem bind_of_none {r : Reading (Option α) ts}
    {f : α → (us : List Token) → us.length ≤ ts.length → Reading (Option β) us}
    (h : r.value = none) :
    r.bind f = ⟨none, r.rest, r.errors, r.dropped, r.unclosed, r.isSuffix⟩ := by
  obtain ⟨value, rest, errors, dropped, unclosed, isSuffix⟩ := r
  cases h
  simp [bind, andThen, done]

theorem value_bind_of_none {r : Reading (Option α) ts}
    {f : α → (us : List Token) → us.length ≤ ts.length → Reading (Option β) us}
    (h : r.value = none) : (r.bind f).value = none := by
  rw [bind_of_none h]

theorem bind_of_some {r : Reading (Option α) ts} {a : α}
    {f : α → (us : List Token) → us.length ≤ ts.length → Reading (Option β) us}
    (h : r.value = some a) :
    r.bind f =
      let s := f a r.rest r.length_rest_le
      ⟨s.value, s.rest, r.errors ++ s.errors, r.dropped + s.dropped, r.unclosed + s.unclosed,
        s.isSuffix.trans r.isSuffix⟩ := by
  obtain ⟨value, rest, errors, dropped, unclosed, isSuffix⟩ := r
  cases h
  rfl

/-- A block as a reading that starts on its opening brace. -/
def block (r : Reading Block ts.tail) : Reading (Option Block) ts :=
  r.countUnclosed.afterCurrent.map some

/-- A statement, which may be missing, and the statements after it. -/
def followedBy (r : Reading (Option Stmt) ts) (s : Reading Block r.rest.tail) : Reading Block ts :=
  ⟨r.value.toList ++ s.value, s.rest, r.errors ++ s.errors,
    r.dropped + (if r.value.isNone then 1 else 0) + s.dropped, r.unclosed + s.unclosed,
    (s.isSuffix.trans (List.tail_suffix _)).trans r.isSuffix⟩

end Reading

/-! ## Tokens by their places -/

section Places

variable {stop : Span} {ts : List Token}

theorem kind_get_zero (stop : Span) (ts : List Token) :
    ((⟨ts, stop⟩ : TokenStream).get 0).kind = currentKind ts := by
  cases ts <;> rfl

theorem get_tail (stop : Span) (ts : List Token) (i : Nat) :
    (⟨ts.tail, stop⟩ : TokenStream).get i = (⟨ts, stop⟩ : TokenStream).get (i + 1) := by
  cases ts <;> rfl

theorem kind_get_one (stop : Span) (ts : List Token) :
    ((⟨ts, stop⟩ : TokenStream).get 1).kind = nextKind ts := by
  rw [← get_tail, kind_get_zero, nextKind]

theorem tail_tail_suffix (ts : List Token) : ts.tail.tail <:+ ts :=
  (List.tail_suffix _).trans (List.tail_suffix _)

/-- A step onto the next token, which is looked at even if it is the end of the input. -/
theorem expectNext_eq {kind : TokenKind} (hkind : kind ≠ .eof) :
    expectNext stop kind ts =
      if nextKind ts = kind then
        (Reading.done (some ((⟨ts, stop⟩ : TokenStream).get 1))).afterCurrent
      else .fail (.unexpected (nextKind ts) kind) ((⟨ts, stop⟩ : TokenStream).get 1).span := by
  rcases ts with _ | ⟨t, _ | ⟨u, rest⟩⟩
  · exact (if_neg hkind.symm).symm
  · exact (if_neg hkind.symm).symm
  · rfl

/-- A reader that sees a token after the current one has a list of two tokens or more. -/
theorem exists_cons_cons_of_nextKind (h : nextKind ts ≠ .eof) :
    ∃ t u rest, ts = t :: u :: rest := by
  rcases ts with _ | ⟨t, _ | ⟨u, rest⟩⟩
  · exact absurd rfl h
  · exact absurd rfl h
  · exact ⟨t, u, rest, rfl⟩

namespace Reader

theorem parameterNames_eq (stop : Span) (ts : List Token) :
    parameterNames stop ts =
      if currentKind ts = .ident then
        if nextKind ts = .comma then
          ((parameterNames stop ts.tail.tail).mapSome
            (((⟨ts, stop⟩ : TokenStream).get 0).literal :: ·)).within (tail_tail_suffix ts)
        else (expectNext stop .rightParen ts).mapSome
          fun _ => [((⟨ts, stop⟩ : TokenStream).get 0).literal]
      else .fail (.unexpected (currentKind ts) .ident) ((⟨ts, stop⟩ : TokenStream).get 0).span := by
  rcases ts with _ | ⟨t, _ | ⟨u, rest⟩⟩ <;> rw [parameterNames] <;> rfl

theorem primary_of_eof (h : currentKind ts = .eof) :
    primary stop ts = .fail (.notExpression .eof) ((⟨ts, stop⟩ : TokenStream).get 0).span := by
  cases ts with
  | nil =>
    rw [primary]
    rfl
  | cons t rest =>
    have hkind : t.kind = .eof := h
    rw [primary, hkind]
    rfl

theorem ne_eof_of_lt {p : Precedence} {k : TokenKind} (h : p < k.precedence) : k ≠ .eof := by
  rintro rfl
  exact Nat.not_lt_zero _ h

theorem operators_of_not_lt {p : Precedence} {lhs : Expr} (h : ¬ p < (nextKind ts).precedence) :
    operators stop p lhs ts = .done (some lhs) := by
  rcases ts with _ | ⟨t, _ | ⟨u, rest⟩⟩
  · rw [operators]
    simp
  · rw [operators]
    simp
  · rw [operators]
    exact if_neg h

/-- What follows an argument: a comma and more arguments, or the closing parenthesis. -/
theorem argumentList_eq (stop : Span) (ts : List Token) :
    argumentList stop ts = (expression stop .lowest ts).bind fun e us _ =>
      if nextKind us = .comma then
        ((argumentList stop us.tail.tail).mapSome (e :: ·)).within (tail_tail_suffix us)
      else (expectNext stop .rightParen us).mapSome fun _ => [e] := by
  rw [argumentList]
  congr
  funext e us _
  rcases us with _ | ⟨t, _ | ⟨u, rest⟩⟩ <;> rfl

/-- Whether a sequence of statements ends at a token of this kind. -/
def endsStatements (inBlock : Bool) (kind : TokenKind) : Prop :=
  kind = .eof ∨ (inBlock ∧ kind = .rightBrace)

theorem statements_of_ends {inBlock : Bool} (h : endsStatements inBlock (currentKind ts)) :
    statements stop inBlock ts = .done [] := by
  cases ts with
  | nil => rw [statements]
  | cons t rest =>
    rw [statements]
    exact if_pos h

theorem statements_followedBy {inBlock : Bool} (h : ¬ endsStatements inBlock (currentKind ts)) :
    statements stop inBlock ts =
      (statement stop ts).followedBy (statements stop inBlock (statement stop ts).rest.tail) := by
  cases ts with
  | nil => exact absurd (Or.inl rfl) h
  | cons t rest =>
    rw [statements]
    exact if_neg h

end Reader

end Places

/-- The two tokens say the same to a reader. The literal counts only for the kinds that leave it
open. -/
structure Token.Alike (t u : Token) : Prop where
  kind_eq : t.kind = u.kind
  literal_eq : t.kind = .ident ∨ t.kind = .integer ∨ t.kind = .string → t.literal = u.literal

/-- A relation between two readings, of lists of tokens that go in pairs. -/
structure ReaderRelation where
  /-- Tokens that stand at the same place. -/
  token : Token → Token → Prop
  /-- Where the first input ends. -/
  stop : Span
  /-- Where the second input ends. -/
  stop' : Span
  /-- What is said of two readings that may fail. -/
  one : ∀ {α : Type} {ts us : List Token}, Reading (Option α) ts → Reading (Option α) us → Prop
  /-- What is said of two sequences of statements. -/
  many : ∀ {ts us : List Token}, Reading Block ts → Reading Block us → Prop

/-- The relation is respected by all that readings are put together from. -/
structure ReaderRelation.Respected (R : ReaderRelation) : Prop where
  alike : ∀ {t u : Token}, R.token t u → t.Alike u
  token_end : R.token ⟨.eof, "", R.stop⟩ ⟨.eof, "", R.stop'⟩
  done : ∀ {α : Type} {ts us : List Token} (a b : α),
    R.one (.done (some a) : Reading (Option α) ts) (.done (some b) : Reading (Option α) us)
  fail : ∀ {α : Type} {ts us : List Token} {t u : Token} (cause : SyntaxError.Cause), R.token t u →
    R.one (.fail cause t.span : Reading (Option α) ts) (.fail cause u.span : Reading (Option α) us)
  /-- A reader that starts at the end of the input gives no value. -/
  within : ∀ {α : Type} {ts us vs ws : List Token} {r : Reading (Option α) vs}
    {r' : Reading (Option α) ws} (h : vs <:+ ts) (h' : ws <:+ us), (vs = [] → r.value = none) →
    R.one r r' → R.one (r.within h) (r'.within h')
  mapSome : ∀ {α β : Type} {ts us : List Token} {r : Reading (Option α) ts}
    {r' : Reading (Option α) us} (f f' : α → β), R.one r r' → R.one (r.mapSome f) (r'.mapSome f')
  bind_none : ∀ {α β : Type} {ts us : List Token} {r : Reading (Option α) ts}
    {r' : Reading (Option α) us}
    {f : α → (vs : List Token) → vs.length ≤ ts.length → Reading (Option β) vs}
    {f' : α → (vs : List Token) → vs.length ≤ us.length → Reading (Option β) vs},
    r.value = none → r'.value = none → R.one r r' → R.one (r.bind f) (r'.bind f')
  bind_some : ∀ {α β : Type} {ts us : List Token} {r : Reading (Option α) ts}
    {r' : Reading (Option α) us} {a b : α}
    {f : α → (vs : List Token) → vs.length ≤ ts.length → Reading (Option β) vs}
    {f' : α → (vs : List Token) → vs.length ≤ us.length → Reading (Option β) vs},
    r.value = some a → r'.value = some b → R.one r r' →
    R.one (f a r.rest r.length_rest_le) (f' b r'.rest r'.length_rest_le) →
    R.one (r.bind f) (r'.bind f')
  toTerminator : ∀ {α : Type} {ts us : List Token} {r : Reading (Option α) ts}
    {r' : Reading (Option α) us}, R.one r r' → R.one r.toTerminator r'.toTerminator
  overSemicolon : ∀ {α : Type} {ts us : List Token} {r : Reading (Option α) ts}
    {r' : Reading (Option α) us}, R.one r r' → R.one r.overSemicolon r'.overSemicolon
  block : ∀ {ts us : List Token} {r : Reading Block ts.tail} {r' : Reading Block us.tail},
    currentKind r.rest = currentKind r'.rest → R.many r r' → R.one r.block r'.block
  nil : ∀ {ts us : List Token} {inBlock : Bool}, Reader.endsStatements inBlock (currentKind ts) →
    R.many (.done [] : Reading Block ts) (.done [] : Reading Block us)
  followedBy : ∀ {ts us : List Token} {r : Reading (Option Stmt) ts} {r' : Reading (Option Stmt) us}
    {s : Reading Block r.rest.tail} {s' : Reading Block r'.rest.tail}, currentKind ts ≠ .eof →
    r.value = r'.value → R.one r r' → R.many s s' → R.many (r.followedBy s) (r'.followedBy s')

/-- What holds of any two readings of tokens that go in pairs. -/
structure ReaderLaw extends ReaderRelation where
  respected : toReaderRelation.Respected

namespace ReaderLaw

variable {L : ReaderLaw} {α β : Type} {ts us vs ws : List Token}

/-- Tokens that stand at the same places. -/
def Tokens (L : ReaderLaw) (ts us : List Token) : Prop :=
  ∀ i, L.token ((⟨ts, L.stop⟩ : TokenStream).get i) ((⟨us, L.stop'⟩ : TokenStream).get i)

/-- Two lists of tokens that go in pairs. -/
theorem Tokens.of_forall₂ (h : List.Forall₂ L.token ts us) : L.Tokens ts us := by
  induction h with
  | nil => exact fun _ => L.respected.token_end
  | cons ht _ ih =>
    intro i
    cases i with
    | zero => exact ht
    | succ i => exact ih i

theorem Tokens.currentKind_eq (h : L.Tokens ts us) : currentKind ts = currentKind us := by
  rw [← kind_get_zero L.stop, ← kind_get_zero L.stop']
  exact (L.respected.alike (h 0)).kind_eq

theorem Tokens.tail (h : L.Tokens ts us) : L.Tokens ts.tail us.tail := by
  intro i
  rw [get_tail, get_tail]
  exact h (i + 1)

theorem Tokens.nextKind_eq (h : L.Tokens ts us) : nextKind ts = nextKind us :=
  h.tail.currentKind_eq

/-- Where the input has not run out on one side, it has not on the other. -/
theorem Tokens.exists_cons {t : Token} (h : L.Tokens (t :: ts) us) (ht : t.kind ≠ .eof) :
    ∃ u us', us = u :: us' ∧ L.token t u ∧ L.Tokens ts us' := by
  obtain ⟨u, us', rfl, -⟩ := exists_cons_of_currentKind h.currentKind_eq.symm ht
  exact ⟨u, us', rfl, h 0, h.tail⟩

theorem dropWhile_of_terminator (h : currentKind ts = .semicolon ∨ currentKind ts = .eof) :
    (ts.dropWhile fun t => !isTerminator t) = ts := by
  cases ts with
  | nil => rfl
  | cons t ts =>
    have hterm : isTerminator t = true := by
      rw [isTerminator, Bool.or_eq_true, beq_iff_eq, beq_iff_eq]
      exact h
    exact List.dropWhile_cons_of_neg (by simp [hterm])

theorem Tokens.toTerminator (h : L.Tokens ts us) :
    L.Tokens (ts.dropWhile fun t => !isTerminator t) (us.dropWhile fun t => !isTerminator t) := by
  induction ts generalizing us with
  | nil =>
    have hus : currentKind us = .eof := h.currentKind_eq.symm
    rw [dropWhile_of_terminator (.inr hus)]
    exact h
  | cons t ts ih =>
    by_cases hterm : currentKind (t :: ts) = .semicolon ∨ currentKind (t :: ts) = .eof
    · rw [dropWhile_of_terminator hterm, dropWhile_of_terminator (h.currentKind_eq ▸ hterm)]
      exact h
    · obtain ⟨u, us, rfl, ht, h⟩ := h.exists_cons fun heof => hterm (.inr heof)
      have hgoes {v : Token} (hv : ¬ (v.kind = .semicolon ∨ v.kind = .eof)) :
          (!isTerminator v) = true := by
        rw [isTerminator]
        simpa using hv
      have hterm' : ¬ (u.kind = .semicolon ∨ u.kind = .eof) := by
        rw [← (L.respected.alike ht).kind_eq]
        exact hterm
      rw [List.dropWhile_cons, List.dropWhile_cons, hgoes hterm, hgoes hterm']
      exact ih h

/-- Two readings that may fail: both give values that are related or both give none, they stand at
the same place and are as the law says. -/
structure One (L : ReaderLaw) (R : α → α → Prop) (r : Reading (Option α) ts)
    (r' : Reading (Option α) us) : Prop where
  value : Option.Rel R r.value r'.value
  rest : L.Tokens r.rest r'.rest
  law : L.one r r'

/-- Two sequences of statements, which are the same. -/
structure Many (L : ReaderLaw) (r : Reading Block ts) (r' : Reading Block us) : Prop where
  value_eq : r.value = r'.value
  rest : L.Tokens r.rest r'.rest
  law : L.many r r'

variable {R : α → α → Prop} {Q : β → β → Prop}

theorem One.done (h : L.Tokens ts us) {a b : α} (hab : R a b) :
    L.One R (.done (some a) : Reading (Option α) ts) (.done (some b) : Reading (Option α) us) :=
  ⟨.some hab, h, L.respected.done a b⟩

theorem One.fail (h : L.Tokens ts us) {t u : Token} (ht : L.token t u)
    (cause : SyntaxError.Cause) :
    L.One R (.fail cause t.span : Reading (Option α) ts)
      (.fail cause u.span : Reading (Option α) us) :=
  ⟨.none, h, L.respected.fail cause ht⟩

theorem One.within {r : Reading (Option α) vs} {r' : Reading (Option α) ws} (hr : L.One R r r')
    (hnil : vs = [] → r.value = none) (h : vs <:+ ts) (h' : ws <:+ us) :
    L.One R (r.within h) (r'.within h') :=
  ⟨hr.value, hr.rest, L.respected.within h h' hnil hr.law⟩

theorem One.afterCurrent {r : Reading (Option α) ts.tail} {r' : Reading (Option α) us.tail}
    (hr : L.One R r r') (hnil : ts.tail = [] → r.value = none) :
    L.One R r.afterCurrent r'.afterCurrent :=
  hr.within hnil _ _

theorem One.mapSome {r : Reading (Option α) ts} {r' : Reading (Option α) us} (hr : L.One R r r')
    {f f' : α → β} (hf : ∀ a b, R a b → Q (f a) (f' b)) :
    L.One Q (r.mapSome f) (r'.mapSome f') := by
  refine ⟨?_, hr.rest, L.respected.mapSome f f' hr.law⟩
  show Option.Rel Q (r.value.map f) (r'.value.map f')
  have hvalue := hr.value
  generalize r.value = v at hvalue
  generalize r'.value = v' at hvalue
  cases hvalue with
  | none => exact .none
  | some hab => exact .some (hf _ _ hab)

theorem One.bind {r : Reading (Option α) ts} {r' : Reading (Option α) us}
    {f : α → (vs : List Token) → vs.length ≤ ts.length → Reading (Option β) vs}
    {f' : α → (vs : List Token) → vs.length ≤ us.length → Reading (Option β) vs}
    (hr : L.One R r r')
    (hf : ∀ {a b vs ws} hvs hws, R a b → L.Tokens vs ws → L.One Q (f a vs hvs) (f' b ws hws)) :
    L.One Q (r.bind f) (r'.bind f') := by
  have hvalue := hr.value
  generalize hv : r.value = v at hvalue
  generalize hv' : r'.value = v' at hvalue
  cases hvalue with
  | none =>
    refine ⟨?_, ?_, L.respected.bind_none hv hv' hr.law⟩
    · rw [Reading.bind_of_none hv, Reading.bind_of_none hv']
      exact .none
    · rw [Reading.bind_of_none hv, Reading.bind_of_none hv']
      exact hr.rest
  | some hab =>
    have hmore := hf r.length_rest_le r'.length_rest_le hab hr.rest
    refine ⟨?_, ?_, L.respected.bind_some hv hv' hr.law hmore.law⟩
    · rw [Reading.bind_of_some hv, Reading.bind_of_some hv']
      exact hmore.value
    · rw [Reading.bind_of_some hv, Reading.bind_of_some hv']
      exact hmore.rest

theorem One.toTerminator {r : Reading (Option α) ts} {r' : Reading (Option α) us}
    (hr : L.One R r r') : L.One R r.toTerminator r'.toTerminator :=
  ⟨hr.value, hr.rest.toTerminator, L.respected.toTerminator hr.law⟩

theorem One.overSemicolon {r : Reading (Option α) ts} {r' : Reading (Option α) us}
    (hr : L.One R r r') : L.One R r.overSemicolon r'.overSemicolon := by
  refine ⟨?_, ?_, L.respected.overSemicolon hr.law⟩
  · unfold Reading.overSemicolon
    rw [hr.rest.nextKind_eq]
    split <;> exact hr.value
  · unfold Reading.overSemicolon
    rw [hr.rest.nextKind_eq]
    split
    · exact hr.rest.tail
    · exact hr.rest

theorem Many.block {r : Reading Block ts.tail} {r' : Reading Block us.tail} (hr : L.Many r r') :
    L.One Eq r.block r'.block :=
  ⟨.some hr.value_eq, hr.rest, L.respected.block hr.rest.currentKind_eq hr.law⟩

/-- Goes on after a block. -/
theorem Many.andThen {r : Reading Block ts.tail} {r' : Reading Block us.tail} (hr : L.Many r r')
    {f : Block → (vs : List Token) → vs.length ≤ ts.length → Reading (Option β) vs}
    {f' : Block → (vs : List Token) → vs.length ≤ us.length → Reading (Option β) vs}
    (hf : ∀ {body vs ws} hvs hws, L.Tokens vs ws → L.One Q (f body vs hvs) (f' body ws hws)) :
    L.One Q (r.countUnclosed.afterCurrent.andThen f) (r'.countUnclosed.afterCurrent.andThen f') :=
  hr.block.bind fun hvs hws hbody h => hbody ▸ hf hvs hws h

theorem Many.map {r : Reading Block ts.tail} {r' : Reading Block us.tail} (hr : L.Many r r')
    {f f' : Block → β} (hf : ∀ body, Q (f body) (f' body)) :
    L.One Q (r.countUnclosed.afterCurrent.map fun body => some (f body))
      (r'.countUnclosed.afterCurrent.map fun body => some (f' body)) :=
  hr.block.mapSome fun body _ hbody => hbody ▸ hf body

theorem One.value_eq {r : Reading (Option α) ts} {r' : Reading (Option α) us}
    (hr : L.One Eq r r') : r.value = r'.value := by
  have hvalue := hr.value
  generalize r.value = v at hvalue
  generalize r'.value = v' at hvalue
  cases hvalue with
  | none => rfl
  | some h => rw [h]

theorem One.followedBy {r : Reading (Option Stmt) ts} {r' : Reading (Option Stmt) us}
    {s : Reading Block r.rest.tail} {s' : Reading Block r'.rest.tail} (hr : L.One Eq r r')
    (hts : currentKind ts ≠ .eof) (hs : L.Many s s') :
    L.Many (r.followedBy s) (r'.followedBy s') := by
  refine ⟨?_, hs.rest, L.respected.followedBy hts hr.value_eq hr.law hs.law⟩
  show r.value.toList ++ s.value = r'.value.toList ++ s'.value
  rw [hr.value_eq, hs.value_eq]

theorem expectNext (kind : TokenKind) (hkind : kind ≠ .eof) (h : L.Tokens ts us) :
    L.One (fun t u => t.Alike u ∧ t.kind = kind) (expectNext L.stop kind ts)
      (expectNext L.stop' kind us) := by
  rw [expectNext_eq hkind, expectNext_eq hkind, ← h.nextKind_eq]
  split
  · next hnext =>
    refine One.afterCurrent (.done h.tail ⟨L.respected.alike (h 1), ?_⟩) fun hnil => ?_
    · rw [kind_get_one, hnext]
    · rw [nextKind, hnil] at hnext
      exact absurd hnext.symm hkind
  · exact .fail h (h 1) _

/-! ## Readers -/

section Readers

open Reader

theorem parameterNames (ts : List Token) {us : List Token} (h : L.Tokens ts us) :
    L.One Eq (parameterNames L.stop ts) (parameterNames L.stop' us) := by
  rw [parameterNames_eq L.stop ts, parameterNames_eq L.stop' us, ← h.currentKind_eq,
    ← h.nextKind_eq]
  split
  · next hk =>
    have hliteral := (L.respected.alike (h 0)).literal_eq (.inl ((kind_get_zero _ _).trans hk))
    obtain ⟨t, rest, hts, -⟩ := exists_cons_of_currentKind hk (by decide)
    have hlength : ts.length = rest.length + 1 := congrArg List.length hts
    split
    · refine (One.mapSome (parameterNames _ h.tail.tail) fun _ _ hab => ?_).within ?_ _ _
      · rw [hliteral, hab]
      · intro hnil
        rw [hnil]
        rfl
    · exact (L.expectNext .rightParen (by decide) h).mapSome fun _ _ _ => by rw [hliteral]
  · exact .fail h (h 0) _
termination_by ts.length
decreasing_by
  simp only [List.length_tail]
  omega

theorem parameters (h : L.Tokens ts us) :
    L.One Eq (parameters L.stop ts) (parameters L.stop' us) := by
  unfold Reader.parameters
  rw [← h.nextKind_eq]
  split
  · next hk =>
    refine One.afterCurrent (.done h.tail rfl) ?_
    intro hnil
    rw [nextKind, hnil] at hk
    cases hk
  · refine (parameterNames ts.tail h.tail).afterCurrent ?_
    intro hnil
    rw [hnil]
    rfl

theorem value_primary_nil {stop : Span} (h : ts = []) : (primary stop ts).value = none := by
  rw [h, primary]
  rfl

theorem value_expression_nil {stop : Span} {p : Precedence} (h : ts = []) :
    (expression stop p ts).value = none := by
  rw [expression]
  exact Reading.value_bind_of_none (value_primary_nil h)

theorem value_argumentList_nil {stop : Span} (h : ts = []) :
    (argumentList stop ts).value = none := by
  rw [argumentList]
  exact Reading.value_bind_of_none (value_expression_nil h)

theorem value_arguments_nil {stop : Span} (h : ts = []) : (arguments stop ts).value = none := by
  subst h
  rw [arguments, if_neg (by decide)]
  exact value_argumentList_nil rfl

mutual

theorem expression (p : Precedence) (ts : List Token) {us : List Token} (h : L.Tokens ts us) :
    L.One Eq (expression L.stop p ts) (expression L.stop' p us) := by
  rw [Reader.expression, Reader.expression]
  refine (primary ts h).bind fun hvs _ hlhs h => ?_
  exact hlhs ▸ operators p _ _ h
termination_by 8 * ts.length + 2
decreasing_by all_goals omega

theorem primary (ts : List Token) {us : List Token} (h : L.Tokens ts us) :
    L.One Eq (primary L.stop ts) (primary L.stop' us) := by
  by_cases hend : currentKind ts = .eof
  · rw [primary_of_eof hend, primary_of_eof (h.currentKind_eq ▸ hend)]
    exact .fail h (h 0) _
  · obtain ⟨t, ts', hts, -⟩ := exists_cons_of_currentKind rfl hend
    have hlength : ts.length = ts'.length + 1 := congrArg List.length hts
    rw [hts] at h hend ⊢
    have hall := h
    obtain ⟨u, us, rfl, ht, h⟩ := h.exists_cons hend
    obtain ⟨hkind, hliteral⟩ := L.respected.alike ht
    rw [Reader.primary, Reader.primary, ← hkind]
    cases hk : t.kind with
    | ident => exact .done hall (by rw [hliteral (.inl hk)])
    | integer =>
      simp only [hliteral (.inr (.inl hk))]
      cases Text.readInt64? u.literal with
      | some n => exact .done hall rfl
      | none => exact .fail hall ht _
    | string => exact .done hall (by rw [hliteral (.inr (.inr hk))])
    | kwTrue => exact .done hall rfl
    | kwFalse => exact .done hall rfl
    | bang =>
      refine ((expression .unary ts' h).mapSome fun _ _ he => ?_).within ?_ _ _
      · rw [he]
      · exact fun hnil => Reading.value_mapSome_of_none (value_expression_nil hnil)
    | minus =>
      refine ((expression .unary ts' h).mapSome fun _ _ he => ?_).within ?_ _ _
      · rw [he]
      · exact fun hnil => Reading.value_mapSome_of_none (value_expression_nil hnil)
    | leftParen =>
      refine ((expression .lowest ts' h).bind fun _ _ he h => ?_).within ?_ _ _
      · exact (L.expectNext .rightParen (by decide) h).mapSome fun _ _ _ => he
      · exact fun hnil => Reading.value_bind_of_none (value_expression_nil hnil)
    | kwIf =>
      refine (L.expectNext .leftParen (by decide) hall).bind fun hvs _ _ h => ?_
      refine ((expression .lowest _ h.tail).afterCurrent value_expression_nil).bind
        fun hws _ htest h => ?_
      refine (L.expectNext .rightParen (by decide) h).bind fun hxs _ _ h => ?_
      refine (L.expectNext .leftBrace (by decide) h).bind fun hys _ _ h => ?_
      refine (statements true _ h.tail).andThen fun hzs _ h => ?_
      rw [← h.nextKind_eq]
      split
      · next helse =>
        refine One.afterCurrent ?_ ?_
        · refine (L.expectNext .leftBrace (by decide) h.tail).bind fun _ _ _ h => ?_
          exact (statements true _ h.tail).map fun _ => by rw [htest]
        · intro hnil
          rw [nextKind, hnil] at helse
          cases helse
      · exact .done h (by rw [htest])
    | kwFn =>
      refine (L.expectNext .leftParen (by decide) hall).bind fun hvs _ _ h => ?_
      refine (L.parameters h).bind fun hws _ hparams h => ?_
      refine (L.expectNext .leftBrace (by decide) h).bind fun hxs _ _ h => ?_
      exact (statements true _ h.tail).map fun _ => by rw [hparams]
    | _ => exact .fail hall ht _
termination_by 8 * ts.length + 1
decreasing_by all_goals simp only [List.length_cons, List.length_tail] at *; omega

theorem operators (p : Precedence) (lhs : Expr) (ts : List Token) {us : List Token}
    (h : L.Tokens ts us) :
    L.One Eq (operators L.stop p lhs ts) (operators L.stop' p lhs us) := by
  by_cases hlt : p < (nextKind ts).precedence
  · have hnext := ne_eof_of_lt hlt
    obtain ⟨last, operator, ts', hts⟩ := exists_cons_cons_of_nextKind hnext
    obtain ⟨last', operator', us, rfl⟩ := exists_cons_cons_of_nextKind (h.nextKind_eq ▸ hnext)
    have hlength : ts.length = ts'.length + 2 := congrArg List.length hts
    rw [hts] at h hlt ⊢
    have hkind : operator.kind = operator'.kind := h.nextKind_eq
    have hlt : p < operator.kind.precedence := hlt
    have h : L.Tokens ts' us := h.tail.tail
    rw [Reader.operators, Reader.operators, ← hkind, if_pos hlt, if_pos hlt]
    cases BinaryOp.ofKind? operator.kind with
    | some op =>
      refine ((expression op.precedence ts' h).bind fun hvs _ hrhs h => ?_).within ?_ _ _
      · exact hrhs ▸ operators p _ _ h
      · exact fun hnil => Reading.value_bind_of_none (value_expression_nil hnil)
    | none =>
      refine ((arguments ts' h).bind fun hvs _ hargs h => ?_).within ?_ _ _
      · exact hargs ▸ operators p _ _ h
      · exact fun hnil => Reading.value_bind_of_none (value_arguments_nil hnil)
  · rw [operators_of_not_lt hlt, operators_of_not_lt (h.nextKind_eq ▸ hlt)]
    exact .done h rfl
termination_by 8 * ts.length + 1
decreasing_by all_goals omega

theorem arguments (ts : List Token) {us : List Token} (h : L.Tokens ts us) :
    L.One Eq (arguments L.stop ts) (arguments L.stop' us) := by
  rw [Reader.arguments, Reader.arguments, ← h.currentKind_eq]
  split
  · exact .done h rfl
  · exact argumentList ts h
termination_by 8 * ts.length + 4

theorem argumentList (ts : List Token) {us : List Token} (h : L.Tokens ts us) :
    L.One Eq (argumentList L.stop ts) (argumentList L.stop' us) := by
  rw [argumentList_eq L.stop ts, argumentList_eq L.stop' us]
  refine (expression .lowest ts h).bind fun {e e' vs ws} hvs _ he h => ?_
  rw [← h.nextKind_eq]
  split
  · next hcomma =>
    obtain ⟨last, separator, more, rfl⟩ :=
      exists_cons_cons_of_nextKind (hcomma ▸ by decide : nextKind vs ≠ .eof)
    have hmore : more.length + 2 ≤ ts.length := hvs
    refine ((argumentList more h.tail.tail).mapSome fun _ _ hargs => ?_).within ?_ _ _
    · rw [he, hargs]
    · exact fun hnil => Reading.value_mapSome_of_none (value_argumentList_nil hnil)
  · exact (L.expectNext .rightParen (by decide) h).mapSome fun _ _ _ => by rw [he]
termination_by 8 * ts.length + 3
decreasing_by all_goals omega

theorem statement (ts : List Token) {us : List Token} (h : L.Tokens ts us) :
    L.One Eq (statement L.stop ts) (statement L.stop' us) := by
  rw [Reader.statement, Reader.statement, ← h.currentKind_eq]
  split
  · refine (L.expectNext .ident (by decide) h).bind fun hvs _ hname h => ?_
    refine (L.expectNext .assign (by decide) h).bind fun hws _ _ h => ?_
    refine (((expression .lowest _ h.tail).mapSome fun _ _ hv => ?_).afterCurrent ?_).toTerminator
    · rw [hname.1.literal_eq (.inl hname.2), hv]
    · exact fun hnil => Reading.value_mapSome_of_none (value_expression_nil hnil)
  split
  · refine (((expression .lowest _ h.tail).mapSome fun _ _ hv => ?_).afterCurrent ?_).toTerminator
    · rw [hv]
    · exact fun hnil => Reading.value_mapSome_of_none (value_expression_nil hnil)
  · refine (expression .lowest ts h).bind fun _ _ he h => ?_
    exact (One.done h (by rw [he])).overSemicolon
termination_by 8 * ts.length + 3
decreasing_by
  · omega
  · simp only [List.length_tail]; omega
  · simp only [List.length_tail]; omega

theorem statements (inBlock : Bool) (ts : List Token) {us : List Token} (h : L.Tokens ts us) :
    L.Many (statements L.stop inBlock ts) (statements L.stop' inBlock us) := by
  by_cases hend : endsStatements inBlock (currentKind ts)
  · rw [statements_of_ends hend, statements_of_ends (h.currentKind_eq ▸ hend)]
    exact ⟨rfl, h, L.respected.nil hend⟩
  · have hgoes : currentKind ts ≠ .eof := fun heof => hend (.inl heof)
    obtain ⟨t, ts', hts, -⟩ := exists_cons_of_currentKind rfl hgoes
    have hlength : ts.length = ts'.length + 1 := congrArg List.length hts
    have hle := (Reader.statement L.stop ts).length_rest_le
    have hr := statement ts h
    have hend' : ¬ endsStatements inBlock (currentKind us) := h.currentKind_eq ▸ hend
    rw [statements_followedBy hend, statements_followedBy hend']
    exact hr.followedBy hgoes (statements inBlock _ hr.rest.tail)
termination_by 8 * ts.length + 4
decreasing_by
  · omega
  · simp only [List.length_tail]; omega

end

end Readers

end ReaderLaw

end Sprig
