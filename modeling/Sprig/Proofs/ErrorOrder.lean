import Sprig.Proofs.Origins
import Sprig.Proofs.Tiling

/-!
# The order of syntax errors

Errors are reported in the order of the source. Each is about a token, none is about a token before
that of an earlier one, and no token but the end of the input is reported more than twice. A token
can be reported twice because it can be looked at twice, first as the next one and then as the
current one, and so the first report of two says that another token was expected
(`Noticed.exists_ahead_here`).

Nothing is used of the source but that its tokens stand one after the other (`Ordered`).
-/

namespace Sprig

open Text

/-- Every token starts after those before it, and before the end of the input. -/
def TokenStream.Ordered (s : TokenStream) : Prop :=
  ∀ i j, i < j → i < s.tokens.length → (s.get i).span.start < (s.get j).span.start

namespace TokenStream

theorem ordered_ofSource {source : String} (h : byteLength source.toList < UInt32.size) :
    (ofSource source).Ordered := by
  have htiling : Tiling source.toList (ofSource source).tokens :=
    (cut_readAll 0 source.toList).tiling h
  intro i j hij hi
  rw [get_of_lt hi]
  by_cases hj : j < (ofSource source).tokens.length
  · rw [get_of_lt hj]
    exact (List.pairwise_iff_getElem.1 htiling.ordered i j hi hj hij).1
  · rw [get_of_length_le (Nat.le_of_not_lt hj)]
    have hmem := List.getElem_mem hi
    have hnonempty := htiling.nonempty _ hmem
    have hstop := htiling.no_overflow _ hmem
    have hrange := htiling.in_range _ hmem
    have hend : (ofSource source).endToken.span.start.toNat = byteLength source.toList :=
      Span.toNat_start_ofNat h
    rw [UInt32.lt_iff_toNat_lt, hend]
    omega

namespace Ordered

variable {s : TokenStream} {i j : Nat}

theorem start_le (h : s.Ordered) (hij : i ≤ j) :
    (s.get i).span.start ≤ (s.get j).span.start := by
  rcases Nat.lt_or_eq_of_le hij with hlt | rfl
  · by_cases hi : i < s.tokens.length
    · exact UInt32.le_of_lt (h i j hlt hi)
    · have hi := Nat.le_of_not_lt hi
      rw [get_of_length_le hi, get_of_length_le (hi.trans hij)]
      exact UInt32.le_refl _
  · exact UInt32.le_refl _

theorem span_ne (h : s.Ordered) (hi : i < s.tokens.length) (hij : j ≠ i) :
    (s.get j).span ≠ (s.get i).span := by
  intro heq
  rcases Nat.lt_or_gt_of_ne hij with hlt | hgt
  · exact UInt32.ne_of_lt (h j i hlt (hlt.trans hi)) (congrArg Span.start heq)
  · exact UInt32.ne_of_lt (h i j hgt hi) (congrArg Span.start heq.symm)

end Ordered

end TokenStream

/-- The errors that stand at a span. -/
def errorsAt (errors : List SyntaxError) (span : Span) : List SyntaxError :=
  errors.filter (·.span = span)

theorem errorsAt_append (errors errors' : List SyntaxError) (span : Span) :
    errorsAt (errors ++ errors') span = errorsAt errors span ++ errorsAt errors' span :=
  List.filter_append ..

namespace Noticed

variable {s : TokenStream} {n i : Nat} {errors : List SyntaxError}

/-- Every error is about a token up to the one on which the reader comes to stand. -/
theorem exists_names (h : Noticed s n errors) : ∀ e ∈ errors, ∃ i ≤ n, e.Names (s.get i) := by
  induction h with
  | start => exact List.forall_mem_nil _
  | pass _ ih =>
    intro e he
    obtain ⟨i, hi, hnames⟩ := ih e he
    exact ⟨i, Nat.le_succ_of_le hi, hnames⟩
  | @notice n i errors e _ hnames hplace ih =>
    refine List.forall_mem_append.2 ⟨fun e he => ?_, List.forall_mem_singleton.2 ?_⟩
    · obtain ⟨i, hi, hnames⟩ := ih e he
      exact ⟨i, Nat.le_succ_of_le hi, hnames⟩
    · exact ⟨i, by omega, hnames⟩

theorem pairwise_start_le (h : Noticed s n errors) (hs : s.Ordered) :
    errors.Pairwise fun e e' => e.span.start ≤ e'.span.start := by
  induction h with
  | start => exact .nil
  | pass _ ih => exact ih
  | @notice n i errors e h hnames hplace ih =>
    refine List.pairwise_append.2 ⟨ih, List.pairwise_singleton _ _, fun e' he' => ?_⟩
    obtain ⟨j, hj, hnames'⟩ := h.exists_names e' he'
    rw [List.forall_mem_singleton, hnames'.1, hnames.1]
    exact hs.start_le (by omega)

/-- Of the errors about one token, one was noticed while it was ahead of the reader and one while
the reader stood on it, if there were such errors at all. -/
theorem exists_ahead_here (h : Noticed s n errors) (hs : s.Ordered) (hi : i < s.tokens.length) :
    ∃ ahead here : Option SyntaxError,
      errorsAt errors (s.get i).span = ahead.toList ++ here.toList ∧
      (∀ e ∈ ahead, e.IsUnexpected) ∧ (n < i → ahead = none) ∧ (n ≤ i → here = none) := by
  induction h with
  | start => exact ⟨none, none, rfl, by simp, by simp, by simp⟩
  | pass _ ih =>
    obtain ⟨ahead, here, heq, hahead, hlt, hle⟩ := ih
    exact ⟨ahead, here, heq, hahead, fun h => hlt (by omega), fun h => hle (by omega)⟩
  | @notice n j errors e _ hnames hplace ih =>
    obtain ⟨ahead, here, heq, hahead, hlt, hle⟩ := ih
    rw [errorsAt_append, heq]
    by_cases hij : j = i
    · subst hij
      have hspan : errorsAt [e] (s.get j).span = [e] := by simp [errorsAt, hnames.1]
      rw [hspan]
      -- Nothing was noticed about the token yet that it could now be noticed for again.
      rcases hplace with rfl | ⟨rfl, hunexpected⟩
      · obtain rfl := hle (Nat.le_refl _)
        exact ⟨ahead, some e, by simp, hahead, by omega, by omega⟩
      · obtain rfl := hlt (Nat.lt_succ_self _)
        obtain rfl := hle (Nat.le_succ _)
        exact ⟨some e, none, by simp, by simpa using hunexpected, by omega, by simp⟩
    · have hspan : errorsAt [e] (s.get i).span = [] := by
        simpa [errorsAt, hnames.1] using hs.span_ne hi hij
      rw [hspan, List.append_nil]
      exact ⟨ahead, here, rfl, hahead, fun h => hlt (by omega), fun h => hle (by omega)⟩

end Noticed

/-- **Syntax errors stand at tokens of the source, in its order.** Every error has the span of a
token, and its cause gives the kind or the literal of that token. No error starts before an earlier
one. About each token there are at most two errors, the end of the input excepted, and the first of
two says that another token was expected. -/
theorem errors_in_source_order (source : String)
    (h : byteLength source.toList < UInt32.size) :
    (∀ e ∈ (Parsed.ofSource source).errors, ∃ i, e.Names ((TokenStream.ofSource source).get i)) ∧
      ((Parsed.ofSource source).errors.Pairwise fun e e' => e.span.start ≤ e'.span.start) ∧
      ∀ t ∈ (TokenStream.ofSource source).tokens,
        (errorsAt (Parsed.ofSource source).errors t.span).length ≤ 2 ∧
          ∀ e e', errorsAt (Parsed.ofSource source).errors t.span = [e, e'] →
            e.IsUnexpected := by
  have hs := TokenStream.ordered_ofSource h
  obtain ⟨n, hnoticed⟩ := exists_noticed (TokenStream.ofSource source)
  refine ⟨fun e he => ?_, hnoticed.pairwise_start_le hs, fun t ht => ?_⟩
  · obtain ⟨i, -, hnames⟩ := hnoticed.exists_names e he
    exact ⟨i, hnames⟩
  · obtain ⟨i, hi, rfl⟩ := List.getElem_of_mem ht
    obtain ⟨ahead, here, heq, hahead, -, -⟩ := hnoticed.exists_ahead_here hs hi
    rw [TokenStream.get_of_lt hi] at heq
    have heq : errorsAt (Parsed.ofSource source).errors _ = _ := heq
    rw [heq]
    refine ⟨?_, fun e e' htwo => hahead e ?_⟩
    · cases ahead <;> cases here <;> simp
    · cases ahead <;> cases here <;> simp_all

/-- The brace is reported twice: it does not close the parenthesis, and no expression starts with
it. -/
theorem errors_in_source_order_twice :
    byteLength "(1 \x7d".toList < UInt32.size ∧
      (⟨.rightBrace, "\x7d", ⟨3, 1⟩⟩ : Token) ∈ (TokenStream.ofSource "(1 \x7d").tokens ∧
      errorsAt (Parsed.ofSource "(1 \x7d").errors ⟨3, 1⟩ =
        [⟨.unexpected .rightBrace .rightParen, ⟨3, 1⟩⟩, ⟨.notExpression .rightBrace, ⟨3, 1⟩⟩] ∧
      (⟨.unexpected .rightBrace .rightParen, ⟨3, 1⟩⟩ : SyntaxError).IsUnexpected := by
  have hsize : byteLength "(1 \x7d".toList < UInt32.size := by decide
  have hmem : (⟨.rightBrace, "\x7d", ⟨3, 1⟩⟩ : Token) ∈
      (TokenStream.ofSource "(1 \x7d").tokens := by decide +kernel
  have htwo : errorsAt (Parsed.ofSource "(1 \x7d").errors ⟨3, 1⟩ =
      [⟨.unexpected .rightBrace .rightParen, ⟨3, 1⟩⟩, ⟨.notExpression .rightBrace, ⟨3, 1⟩⟩] := by
    decide +kernel
  have hfirst := ((errors_in_source_order "(1 \x7d" hsize).2.2 _ hmem).2 _ _ htwo
  exact ⟨hsize, hmem, htwo, hfirst⟩

end Sprig
