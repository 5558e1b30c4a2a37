import Sprig.Proofs.Lexeme

/-!
# Tokens tile the source

The tokens of a source text of fewer than 2 ^ 32 bytes, as a tiling of it: where they stand, what
stands between them, what of the source each of them shows and that none could be longer. All of it
follows from the one way in which the text can be cut (`Cut`), by following the cut from the left
with the text `before` that has been passed so far.
-/

namespace Sprig

open Text

/-- The tokens tile the source. Offsets count bytes, and cutting the source at two offsets fails
unless both fall between two of its characters. -/
structure Tiling (source : List Char) (tokens : List Token) : Prop where
  /-- There is at most one token for each character. -/
  length_le : tokens.length ≤ source.length
  /-- None of them stands for the end of the input. -/
  not_eof : ∀ t ∈ tokens, t.kind ≠ .eof
  /-- No span is empty. -/
  nonempty : ∀ t ∈ tokens, 0 < t.span.length.toNat
  /-- The end of a span does not overflow. -/
  no_overflow : ∀ t ∈ tokens, t.span.stop.toNat = t.span.start.toNat + t.span.length.toNat
  /-- Every span ends within the source. -/
  in_range : ∀ t ∈ tokens, t.span.stop.toNat ≤ byteLength source
  /-- The spans are in strictly increasing order and do not overlap. -/
  ordered : tokens.Pairwise fun t u => t.span.start < u.span.start ∧ t.span.stop ≤ u.span.start
  /-- Before, between and after the spans there are only blanks. -/
  gaps : ∀ p ∈ (0 :: tokens.map (·.span.stop.toNat)).zip
      (tokens.map (·.span.start.toNat) ++ [byteLength source]),
    ∃ gap, byteSlice? source p.1 p.2 = some gap ∧ ∀ c ∈ gap, isBlank c = true
  /-- At the span of a token the source shows its literal, strings excepted. -/
  literal : ∀ t ∈ tokens, t.kind ≠ .string →
    byteSlice? source t.span.start.toNat t.span.stop.toNat = some t.literal.toList
  /-- At the span of a string it shows the literal in quotes, of which the second one may be missing
  at the end of the source. -/
  string : ∀ t ∈ tokens, t.kind = .string → '"' ∉ t.literal.toList ∧
    (byteSlice? source t.span.start.toNat t.span.stop.toNat =
        some ('"' :: (t.literal.toList ++ ['"'])) ∨
      byteSlice? source t.span.start.toNat t.span.stop.toNat = some ('"' :: t.literal.toList) ∧
        t.span.stop.toNat = byteLength source ∧ tokens.getLast? = some t)
  /-- No word, number or single mark could be longer. -/
  maximal : ∀ t ∈ tokens, ∃ after, byteDrop? t.span.stop.toNat source = some after ∧
    StopsBefore t.kind.continuedBy after

/-! ## What a spelling says about the kind -/

theorem word_kind (w : String) :
    (TokenKind.ofKeyword? w).getD .ident ≠ .string ∧
      (TokenKind.ofKeyword? w).getD .ident ≠ .eof := by
  unfold TokenKind.ofKeyword?
  split <;> decide

theorem symbol_kind {c : Char} {kind : TokenKind} (h : TokenKind.ofSymbol? c = some kind) :
    kind ≠ .string ∧ kind ≠ .eof := by
  unfold TokenKind.ofSymbol? at h
  split at h <;> cases h <;> decide

namespace Spelled

variable {kind : TokenKind} {literal written rest : List Char}

theorem written_ne_nil (h : Spelled kind literal written rest) : written ≠ [] := by
  cases h with
  | word hne | integer hne => exact hne
  | _ => simp

theorem byteLength_written_pos (h : Spelled kind literal written rest) :
    0 < byteLength written :=
  Nat.lt_of_lt_of_le (List.length_pos_iff.2 h.written_ne_nil) (length_le_byteLength _)

theorem kind_ne_eof (h : Spelled kind literal written rest) : kind ≠ .eof := by
  cases h with
  | word => exact (word_kind _).2
  | symbol hc => exact (symbol_kind hc).2
  | _ => decide

theorem written_eq (h : Spelled kind literal written rest) (hk : kind ≠ .string) :
    written = literal := by
  cases h with
  | string | unterminated => exact absurd rfl hk
  | _ => rfl

theorem string_written (h : Spelled kind literal written rest) (hk : kind = .string) :
    '"' ∉ literal ∧
      (written = '"' :: (literal ++ ['"']) ∨ written = '"' :: literal ∧ rest = []) := by
  cases h with
  | string hbody => exact ⟨hbody, .inl rfl⟩
  | unterminated hbody => exact ⟨hbody, .inr ⟨rfl, rfl⟩⟩
  | word => exact absurd hk (word_kind _).1
  | symbol hc => exact absurd hk (symbol_kind hc).1
  | _ => cases hk

theorem stopsBefore (h : Spelled kind literal written rest) :
    StopsBefore kind.continuedBy rest := by
  cases h with
  | word _ _ hrest =>
    unfold TokenKind.ofKeyword?
    split <;> exact hrest
  | integer _ _ hrest | assign hrest | bang hrest => exact hrest
  | symbol hc =>
    unfold TokenKind.ofSymbol? at hc
    split at hc <;> cases hc <;> exact fun _ _ => rfl
  | _ => exact fun _ _ => rfl

/-- Any text that does not carry a token on may follow it, except after a string that only the end
of the text closed. -/
theorem of_stopsBefore (h : Spelled kind literal written rest) (hrest : rest ≠ [] ∨ kind ≠ .string)
    {rest' : List Char} (hstop : StopsBefore kind.continuedBy rest') :
    Spelled kind literal written rest' := by
  cases h with
  | word hne hw =>
    refine .word hne hw ?_
    unfold TokenKind.ofKeyword? at hstop
    split at hstop <;> exact hstop
  | integer hne hw => exact .integer hne hw hstop
  | string hbody => exact .string hbody
  | unterminated => exact absurd rfl (hrest.resolve_right (not_not_intro rfl))
  | assign => exact .assign hstop
  | equalEqual => exact .equalEqual
  | bang => exact .bang hstop
  | bangEqual => exact .bangEqual
  | symbol hc => exact .symbol hc
  | illegal hblank hword hdigit hmark hsymbol =>
    exact .illegal hblank hword hdigit hmark hsymbol

end Spelled

/-! ## Following the cut -/

theorem Span.toNat_of_eq_ofNat {s : Span} {start length : Nat} (h : s = Span.ofNat start length)
    (hlt : start + length < UInt32.size) :
    s.start.toNat = start ∧ s.length.toNat = length ∧ s.stop.toNat = start + length := by
  subst h
  exact ⟨toNat_start_ofNat (by omega), toNat_length_ofNat (by omega), toNat_stop_ofNat hlt⟩

namespace Cut

variable {offset : Nat} {tokens : List Token} {text : List Char}

theorem eq_nil (h : Cut offset tokens []) : tokens = [] := by
  rw [← h.readAll, Token.readAll]

theorem not_eof (h : Cut offset tokens text) : ∀ t ∈ tokens, t.kind ≠ .eof := by
  induction h with
  | done => exact List.forall_mem_nil _
  | next _ hs _ _ ih => exact List.forall_mem_cons.2 ⟨hs.kind_ne_eof, ih⟩

theorem length_le (h : Cut offset tokens text) : tokens.length ≤ text.length := by
  induction h with
  | done => simp
  | next _ hs _ _ ih =>
    have := List.length_pos_iff.2 hs.written_ne_nil
    simp only [List.length_cons, List.length_append]
    omega

/-- Every token of a cut is spelled at its span. -/
theorem exists_spelled (h : Cut offset tokens text) {before : List Char}
    (hbefore : offset = byteLength before) {t : Token} (ht : t ∈ tokens) :
    ∃ b w a, before ++ text = b ++ w ++ a ∧ t.span = Span.ofNat (byteLength b) (byteLength w) ∧
      Spelled t.kind t.literal.toList w a ∧ (a = [] → tokens.getLast? = some t) := by
  induction h generalizing before with
  | done => cases ht
  | @next offset u ts gap written rest hgap hs hspan hrest ih =>
    have hnext : offset + byteLength gap + byteLength written =
        byteLength (before ++ gap ++ written) := by
      rw [hbefore, byteLength_append, byteLength_append]
    rcases List.mem_cons.1 ht with rfl | ht
    · refine ⟨before ++ gap, written, rest, by simp, ?_, hs, ?_⟩
      · rw [hspan, hbefore, byteLength_append]
      · -- With no text left there are no tokens left.
        rintro rfl
        rw [hrest.eq_nil]
        rfl
    · obtain ⟨b, w, a, heq, hspan', hs', hlast⟩ := ih hnext ht
      refine ⟨b, w, a, by rw [← heq]; simp, hspan', hs', fun ha => ?_⟩
      rw [List.getLast?_cons, hlast ha]
      rfl

theorem bounds (h : Cut offset tokens text) (hlen : offset + byteLength text < UInt32.size) :
    (∀ t ∈ tokens, offset ≤ t.span.start.toNat) ∧
      tokens.Pairwise fun t u => t.span.start < u.span.start ∧ t.span.stop ≤ u.span.start := by
  induction h with
  | done => simp
  | @next offset t ts gap written rest hgap hs hspan hrest ih =>
    rw [byteLength_append, byteLength_append] at hlen
    obtain ⟨hge, hpair⟩ := ih (by omega)
    have hwritten := hs.byteLength_written_pos
    obtain ⟨hstart, -, hstop⟩ := Span.toNat_of_eq_ofNat hspan (by omega)
    refine ⟨List.forall_mem_cons.2 ⟨by omega, fun u hu => ?_⟩, List.pairwise_cons.2 ⟨?_, hpair⟩⟩
    · have := hge u hu
      omega
    · -- The tokens after this one start after the bytes it takes, of which there is at least one.
      intro u hu
      have := hge u hu
      rw [UInt32.lt_iff_toNat_lt, UInt32.le_iff_toNat_le]
      omega

/-- The offsets at which the gaps of a cut start and stop. -/
theorem gaps (h : Cut offset tokens text) {before : List Char}
    (hbefore : offset = byteLength before) (hlen : byteLength (before ++ text) < UInt32.size) :
    ∀ p ∈ (offset :: tokens.map (·.span.stop.toNat)).zip
        (tokens.map (·.span.start.toNat) ++ [byteLength (before ++ text)]),
      ∃ gap, byteSlice? (before ++ text) p.1 p.2 = some gap ∧ ∀ c ∈ gap, isBlank c = true := by
  induction h generalizing before with
  | @done offset gap hgap =>
    intro p hp
    obtain rfl : p = (offset, byteLength (before ++ gap)) := by simpa using hp
    refine ⟨gap, ?_, hgap⟩
    have := byteSlice?_append before gap []
    rw [List.append_nil] at this
    rw [hbefore, byteLength_append]
    exact this
  | @next offset t ts gap written rest hgap hs hspan hrest ih =>
    have hnext : offset + byteLength gap + byteLength written =
        byteLength (before ++ gap ++ written) := by
      rw [hbefore, byteLength_append, byteLength_append]
    have heq : before ++ (gap ++ (written ++ rest)) = before ++ gap ++ written ++ rest := by simp
    rw [heq] at hlen ⊢
    have hlen' : offset + byteLength gap + byteLength written < UInt32.size := by
      rw [byteLength_append] at hlen
      omega
    obtain ⟨hstart, -, hstop⟩ := Span.toNat_of_eq_ofNat hspan (by omega)
    intro p hp
    simp only [List.map_cons, List.cons_append, List.zip_cons_cons] at hp
    -- The gap before the first token, or one of those after it.
    rcases List.mem_cons.1 hp with rfl | hp
    · refine ⟨gap, ?_, hgap⟩
      rw [hstart, hbefore, List.append_assoc (before ++ gap)]
      exact byteSlice?_append before gap (written ++ rest)
    · rw [hstop] at hp
      exact ih hnext hlen p hp

/-- **A cut tiles its text.** -/
theorem tiling (h : Cut 0 tokens text) (hlen : byteLength text < UInt32.size) : Tiling text tokens := by
  -- each token with the pieces of the text before, at and after it, and the numbers of its span
  have hplace : ∀ t ∈ tokens, ∃ b w a, text = b ++ w ++ a ∧
      (t.span.start.toNat = byteLength b ∧ t.span.length.toNat = byteLength w ∧
        t.span.stop.toNat = byteLength b + byteLength w) ∧
      Spelled t.kind t.literal.toList w a ∧ (a = [] → tokens.getLast? = some t) := by
    intro t ht
    obtain ⟨b, w, a, heq, hspan, hs, hlast⟩ := h.exists_spelled (show 0 = byteLength [] from rfl) ht
    rw [List.nil_append] at heq
    refine ⟨b, w, a, heq, Span.toNat_of_eq_ofNat hspan ?_, hs, hlast⟩
    rw [heq, byteLength_append, byteLength_append] at hlen
    omega
  exact
    { length_le := h.length_le
      not_eof := h.not_eof
      nonempty := fun t ht => by
        obtain ⟨b, w, a, -, ⟨-, hlength, -⟩, hs, -⟩ := hplace t ht
        rw [hlength]
        exact hs.byteLength_written_pos
      no_overflow := fun t ht => by
        obtain ⟨b, w, a, -, ⟨hstart, hlength, hstop⟩, -⟩ := hplace t ht
        rw [hstart, hlength, hstop]
      in_range := fun t ht => by
        obtain ⟨b, w, a, rfl, ⟨-, -, hstop⟩, -⟩ := hplace t ht
        rw [hstop, byteLength_append, byteLength_append]
        omega
      ordered := (h.bounds (by omega)).2
      gaps := h.gaps (show 0 = byteLength [] from rfl) hlen
      literal := fun t ht hk => by
        obtain ⟨b, w, a, rfl, ⟨hstart, -, hstop⟩, hs, -⟩ := hplace t ht
        rw [hstart, hstop, byteSlice?_append, hs.written_eq hk]
      string := fun t ht hk => by
        obtain ⟨b, w, a, rfl, ⟨hstart, -, hstop⟩, hs, hlast⟩ := hplace t ht
        obtain ⟨hquote, hw⟩ := hs.string_written hk
        rw [hstart, hstop, byteSlice?_append]
        refine ⟨hquote, ?_⟩
        rcases hw with rfl | ⟨rfl, rfl⟩
        · exact .inl rfl
        · refine .inr ⟨rfl, ?_, hlast rfl⟩
          rw [List.append_nil, byteLength_append]
      maximal := fun t ht => by
        obtain ⟨b, w, a, rfl, ⟨-, -, hstop⟩, hs, -⟩ := hplace t ht
        refine ⟨a, ?_, hs.stopsBefore⟩
        rw [hstop, ← byteLength_append]
        exact byteDrop?_append (b ++ w) a }

end Cut

/-- **The tokens of a source tile it, and after them comes the end of the input for ever**, with an
empty literal and an empty span just after the last byte. -/
theorem tiling_ofSource (source : String) (h : byteLength source.toList < UInt32.size) :
    Tiling source.toList (TokenStream.ofSource source).tokens ∧
      (∀ i (hi : i < (TokenStream.ofSource source).tokens.length),
        (TokenStream.ofSource source).get i = (TokenStream.ofSource source).tokens[i]) ∧
      ∀ i, (TokenStream.ofSource source).tokens.length ≤ i →
        ∃ span : Span, (TokenStream.ofSource source).get i = ⟨.eof, "", span⟩ ∧
          span.start.toNat = byteLength source.toList ∧ span.length.toNat = 0 := by
  refine ⟨(cut_readAll 0 source.toList).tiling h, fun i hi => ?_, fun i hi => ?_⟩
  · simp [TokenStream.get, hi]
  · exact ⟨_, TokenStream.get_of_length_le hi, Span.toNat_start_ofNat h, rfl⟩

/-- A text with a letter of two bytes and a string that is not closed. -/
theorem tiling_ofSource_unclosed :
    byteLength "let é == \"ab".toList < UInt32.size ∧
      Tiling "let é == \"ab".toList (TokenStream.ofSource "let é == \"ab").tokens :=
  ⟨by decide, (tiling_ofSource "let é == \"ab" (by decide)).1⟩

end Sprig
