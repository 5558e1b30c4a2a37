import Sprig.Tree.Reader

/-!
# What the readers give

`Reading.Gives` says what a reading amounts to when nothing is wrong with the tokens: no error was
noticed, the value is this one and the reader stands on the first of those tokens. For every way of
putting readings together there is one lemma that takes such a statement apart into statements about
the readings that were put together, so that no later proof has to look inside a `Reading`.

A reader that fails owes an error. `Reading.Candid` says that it pays, so that without an error
there is a value.
-/

namespace Sprig

namespace Reading

variable {α β : Type} {ts us vs : List Token}

/-- The reading noticed no error, has the value `a` and stands on the first token of `us`. -/
def Gives (r : Reading α ts) (a : α) (us : List Token) : Prop :=
  r.errors = [] ∧ r.value = a ∧ r.rest = us

theorem Gives.isSuffix {r : Reading α ts} {a : α} (h : r.Gives a us) : us <:+ ts := by
  obtain ⟨-, -, rfl⟩ := h
  exact Reading.isSuffix r

@[simp] theorem done_gives {a b : α} : (done a : Reading α ts).Gives b us ↔ a = b ∧ ts = us := by
  simp [Gives, done]

@[simp] theorem not_fail_gives {cause : SyntaxError.Cause} {span : Span} {a : Option α} :
    ¬ (fail cause span : Reading (Option α) ts).Gives a us := by
  simp [Gives, fail]

@[simp] theorem within_gives {h : us <:+ ts} {r : Reading α us} {a : α} :
    (r.within h).Gives a vs ↔ r.Gives a vs := Iff.rfl

@[simp] theorem afterCurrent_gives {r : Reading α ts.tail} {a : α} :
    r.afterCurrent.Gives a us ↔ r.Gives a us := Iff.rfl

@[simp] theorem countUnclosed_gives {r : Reading α ts} {a : α} :
    r.countUnclosed.Gives a us ↔ r.Gives a us := Iff.rfl

@[simp] theorem countDropped_gives {r : Reading (Option α) ts} {a : Option α} :
    r.countDropped.Gives a us ↔ r.Gives a us := Iff.rfl

theorem map_gives {f : α → β} {r : Reading α ts} {b : β} :
    (r.map f).Gives b us ↔ ∃ a, r.Gives a us ∧ f a = b := by
  constructor
  · rintro ⟨he, hv, hr⟩
    exact ⟨r.value, ⟨he, rfl, hr⟩, hv⟩
  · rintro ⟨a, ⟨he, rfl, hr⟩, rfl⟩
    exact ⟨he, rfl, hr⟩

theorem mapSome_gives {f : α → β} {r : Reading (Option α) ts} {b : β} :
    (r.mapSome f).Gives (some b) us ↔ ∃ a, r.Gives (some a) us ∧ f a = b := by
  rw [mapSome, map_gives]
  constructor
  · rintro ⟨a?, hr, hf⟩
    obtain ⟨a, rfl, rfl⟩ := Option.map_eq_some_iff.1 hf
    exact ⟨a, hr, rfl⟩
  · rintro ⟨a, hr, rfl⟩
    exact ⟨some a, hr, rfl⟩

theorem andThen_gives {r : Reading α ts}
    {f : α → (us : List Token) → us.length ≤ ts.length → Reading β us} {b : β} :
    (r.andThen f).Gives b vs ↔
      ∃ a us, ∃ h : r.Gives a us, (f a us h.isSuffix.length_le).Gives b vs := by
  constructor
  · rintro ⟨he, hv, hr⟩
    obtain ⟨he, he'⟩ := List.append_eq_nil_iff.1 he
    exact ⟨r.value, r.rest, ⟨he, rfl, rfl⟩, he', hv, hr⟩
  · rintro ⟨a, us, ⟨he, rfl, rfl⟩, he', hv, hr⟩
    exact ⟨List.append_eq_nil_iff.2 ⟨he, he'⟩, hv, hr⟩

theorem bind_gives {r : Reading (Option α) ts}
    {f : α → (us : List Token) → us.length ≤ ts.length → Reading (Option β) us} {b : β} :
    (r.bind f).Gives (some b) vs ↔
      ∃ a us, ∃ h : r.Gives (some a) us, (f a us h.isSuffix.length_le).Gives (some b) vs := by
  rw [bind, andThen_gives]
  constructor
  · rintro ⟨a?, us, hr, hf⟩
    cases a? with
    | none => simp at hf
    | some a => exact ⟨a, us, hr, hf⟩
  · rintro ⟨a, us, hr, hf⟩
    exact ⟨some a, us, hr, hf⟩

theorem toTerminator_gives {r : Reading α ts} {a : α} :
    r.toTerminator.Gives a us ↔
      ∃ vs, r.Gives a vs ∧ vs.dropWhile (fun t => !isTerminator t) = us := by
  constructor
  · rintro ⟨he, hv, hr⟩
    exact ⟨r.rest, ⟨he, hv, rfl⟩, hr⟩
  · rintro ⟨vs, ⟨he, hv, rfl⟩, hr⟩
    exact ⟨he, hv, hr⟩

theorem overSemicolon_gives {r : Reading α ts} {a : α} :
    r.overSemicolon.Gives a us ↔
      ∃ vs, r.Gives a vs ∧ (if nextKind vs = .semicolon then vs.tail else vs) = us := by
  unfold overSemicolon
  constructor
  · intro h
    refine ⟨r.rest, ?_⟩
    split at h
    · next hs => exact ⟨⟨h.1, h.2.1, rfl⟩, by simpa [hs] using h.2.2⟩
    · next hs => exact ⟨⟨h.1, h.2.1, rfl⟩, by simpa [hs] using h.2.2⟩
  · rintro ⟨vs, ⟨he, hv, rfl⟩, hr⟩
    split
    · next hs => exact ⟨he, hv, by simpa [hs] using hr⟩
    · next hs => exact ⟨he, hv, by simpa [hs] using hr⟩

theorem expectNext_gives {stop : Span} {kind : TokenKind} {t : Token} :
    (expectNext stop kind ts).Gives (some t) us ↔
      ∃ rest, ts.tail = t :: rest ∧ t.kind = kind ∧ us = t :: rest := by
  match ts with
  | [] => simp [expectNext]
  | [c] => simp [expectNext]
  | c :: n :: rest =>
    simp only [expectNext]
    split
    · next hk =>
      simp only [within_gives, done_gives, Option.some.injEq, List.tail_cons, List.cons.injEq]
      constructor
      · rintro ⟨rfl, rfl⟩
        exact ⟨rest, ⟨rfl, rfl⟩, hk, rfl⟩
      · rintro ⟨_, ⟨rfl, rfl⟩, -, rfl⟩
        exact ⟨rfl, rfl⟩
    · next hk =>
      simp only [not_fail_gives, List.tail_cons, List.cons.injEq, false_iff]
      rintro ⟨_, ⟨rfl, rfl⟩, hk', -⟩
      exact hk hk'

/-! ## Failure comes with an error -/

/-- A reading without a value has noticed an error. -/
def Candid (r : Reading (Option α) ts) : Prop :=
  r.value = none → r.errors ≠ []

theorem Candid.gives {r : Reading (Option α) ts} (h : r.Candid) (he : r.errors = []) :
    ∃ a, r.Gives (some a) r.rest := by
  cases hv : r.value with
  | none => exact absurd he (h hv)
  | some a => exact ⟨a, he, hv, rfl⟩

end Reading

/-! ## The tokens from the current one on -/

/-- A reader that stands on a token of some kind has not come to the end of the input. -/
theorem exists_cons_of_currentKind {ts : List Token} {kind : TokenKind}
    (h : currentKind ts = kind) (hk : kind ≠ .eof) : ∃ t rest, ts = t :: rest ∧ t.kind = kind := by
  match ts with
  | [] => exact absurd h.symm hk
  | t :: rest => exact ⟨t, rest, rfl, h⟩

theorem isSuffix_of_tail_eq_cons {ts rest : List Token} {t : Token} (h : ts.tail = t :: rest) :
    rest <:+ ts :=
  (List.suffix_cons t rest).trans (h ▸ List.tail_suffix ts)

theorem length_of_tail_eq_cons {ts rest : List Token} {t : Token} (h : ts.tail = t :: rest) :
    ts.length = rest.length + 2 := by
  match ts with
  | _ :: _ =>
    cases h
    rfl

end Sprig
