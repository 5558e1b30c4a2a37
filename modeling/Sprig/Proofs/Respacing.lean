import Sprig.Proofs.Displacement
import Sprig.Proofs.Layout
import Sprig.Proofs.Tiling
import Sprig.Session

/-!
# Layout does not matter

Two streams that agree in the kinds of their tokens, and in the literals of names, numbers and
strings, are read alike: the same program comes of them and the same is wrong with them. Where the
tokens stand plays no part.

So the blanks between tokens may be exchanged for others, and where none are some may be put. A
token that stands before such a gap is spelled as before, since text followed it already and a blank
carries no token on; one that stands after it has only moved. Spans are what tells the gaps of a
text from the blanks within a string, and this is the one place where they count.
-/

namespace Sprig

open Text

/-! ## Streams that agree -/

/-- The same is wrong, wherever it is. -/
theorem SameErrors.map_cause {place : Span → Span → Prop} {errors errors' : List SyntaxError}
    (h : SameErrors place errors errors') :
    errors.map SyntaxError.cause = errors'.map SyntaxError.cause := by
  induction h with
  | nil => rfl
  | cons he _ ih => rw [List.map_cons, List.map_cons, he.1, ih]

/-- Streams that agree place by place, of which one may write out its end, are read alike. -/
theorem ofStream_alike {s t : TokenStream} (h : ∀ i, (s.get i).Alike (t.get i)) :
    (Parsed.ofStream s).program = (Parsed.ofStream t).program ∧
      (Parsed.ofStream s).errors.map SyntaxError.cause =
        (Parsed.ofStream t).errors.map SyntaxError.cause := by
  let law : ReaderLaw := @parallel (fun _ _ => True) s.endSpan t.endSpan trivial
  have htokens : law.Tokens s.tokens t.tokens := fun i => ⟨h i, trivial⟩
  have hread := law.statements false s.tokens htokens
  have herrors : SameErrors (fun _ _ => True) (Parsed.ofStream s).errors
    (Parsed.ofStream t).errors := hread.law
  exact ⟨congrArg Program.mk hread.value_eq, herrors.map_cause⟩

/-! ## Gaps between tokens -/

/-- The terminals of a text do not depend on where it starts. -/
theorem map_terminal_readAll_eq (offset offset' : Nat) (cs : List Char) :
    (Token.readAll offset cs).map Token.terminal =
      (Token.readAll offset' cs).map Token.terminal := by
  fun_induction Token.readAll offset cs generalizing offset' with
  | case1 offset => rw [Token.readAll]
  | case2 offset c cs hc ih =>
    rw [Token.readAll, if_pos hc]
    exact ih _
  | case3 offset c cs hc ih =>
    rw [Token.readAll, if_neg hc, List.map_cons, List.map_cons]
    exact congrArg _ (ih _)

/-- If a text is parted in two ways, then the part with fewer bytes begins the other. -/
theorem exists_append_of_byteLength_le {as bs cs ds : List Char} (h : as ++ bs = cs ++ ds)
    (hle : byteLength as ≤ byteLength cs) : ∃ more, cs = as ++ more ∧ bs = more ++ ds := by
  rcases List.append_eq_append_iff.1 h with hmore | ⟨more, rfl, rfl⟩
  · exact hmore
  · have hlength := length_le_byteLength more
    rw [byteLength_append] at hle
    obtain rfl : more = [] := List.length_eq_zero_iff.1 (by omega)
    exact ⟨[], by simp, rfl⟩

/-- A token in front of a gap is spelled in the same way if the gap is filled with other blanks. -/
theorem Spelled.respaced {kind : TokenKind} {literal written more rest gap : List Char}
    (h : Spelled kind literal written (more ++ rest)) (hrest : more ++ rest ≠ [])
    (hgap : ∀ c ∈ gap, isBlank c = true) (hne : gap ≠ []) (after : List Char) :
    Spelled kind literal written (more ++ (gap ++ after)) := by
  refine h.of_stopsBefore (.inl hrest) ?_
  cases more with
  | cons c more => exact h.stopsBefore
  | nil =>
    obtain ⟨c, cs, rfl⟩ := List.exists_cons_of_ne_nil hne
    rintro _ ⟨⟩
    exact TokenKind.continuedBy_blank (hgap c (List.mem_cons_self ..)) _

/-- The bytes from `start` to `stop` lie between the tokens: each token ends before them or starts
after them, and one does start after them. -/
structure BetweenTokens (tokens : List Token) (start stop : Nat) : Prop where
  clear : ∀ t ∈ tokens, t.span.stop.toNat ≤ start ∨ stop ≤ t.span.start.toNat
  next : ∃ t ∈ tokens, stop ≤ t.span.start.toNat

instance (tokens : List Token) (start stop : Nat) : Decidable (BetweenTokens tokens start stop) :=
  decidable_of_iff' _ ⟨fun h => And.intro h.clear h.next, fun h => ⟨h.1, h.2⟩⟩

/-- A token that starts before the gap is not the one after it. -/
theorem BetweenTokens.tail {t : Token} {ts : List Token} {start stop : Nat}
    (h : BetweenTokens (t :: ts) start stop) (ht : t.span.start.toNat < stop) :
    BetweenTokens ts start stop := by
  obtain ⟨u, hu, hnext⟩ := h.next
  refine ⟨fun v hv => h.clear v (List.mem_cons_of_mem _ hv), u, ?_, hnext⟩
  rcases List.mem_cons.1 hu with rfl | hu
  · omega
  · exact hu

theorem BetweenTokens.ne_nil {ts : List Token} {start stop : Nat}
    (h : BetweenTokens ts start stop) : ts ≠ [] := by
  obtain ⟨u, hu, -⟩ := h.next
  exact List.ne_nil_of_mem hu

/-- **Blanks in a gap may be exchanged.** The induction follows the cut up to the token after the
gap; what remains of the text before the gap is `before`. -/
theorem Cut.map_terminal_respaced {offset : Nat} {tokens : List Token} {text : List Char}
    (h : Cut offset tokens text) {before gap gap' after : List Char}
    (htext : text = before ++ (gap ++ after))
    (hlen : offset + byteLength text < UInt32.size)
    (hbetween : BetweenTokens tokens (offset + byteLength before)
      (offset + byteLength before + byteLength gap))
    (hgap' : ∀ c ∈ gap', isBlank c = true) (hne : gap' ≠ []) (offset' : Nat) :
    (Token.readAll offset' (before ++ (gap' ++ after))).map Token.terminal =
      tokens.map Token.terminal := by
  induction h generalizing before offset' with
  | done => exact absurd rfl hbetween.ne_nil
  | @next offset t ts blanks written rest hblanks hs hspan hrest ih =>
    rw [byteLength_append, byteLength_append] at hlen
    obtain ⟨hstart, -, hstop⟩ := Span.toNat_of_eq_ofNat hspan (by omega)
    rcases hbetween.clear t (List.mem_cons_self ..) with hbefore | hafter
    · -- The token stands before the gap, and the gap is further on in the text after it.
      obtain ⟨more, rfl, rfl⟩ := exists_append_of_byteLength_le
        ((List.append_assoc blanks written rest).trans htext) (by rw [byteLength_append]; omega)
      have hpos := hs.byteLength_written_pos
      have hbetween := hbetween.tail (by omega)
      rw [byteLength_append, byteLength_append, ← Nat.add_assoc, ← Nat.add_assoc] at hbetween
      have hfollowed : more ++ (gap ++ after) ≠ [] := by
        intro hnil
        rw [hnil] at hrest
        exact hbetween.ne_nil hrest.eq_nil
      rw [List.append_assoc, List.append_assoc, readAll_gap hblanks,
        (hs.respaced hfollowed hgap' hne after).readAll, List.map_cons, List.map_cons,
        ih rfl (by omega) hbetween, String.ofList_toList]
      rfl
    · -- The token stands after the gap, and so nothing but blanks stands before it.
      obtain ⟨more, rfl, rfl⟩ := exists_append_of_byteLength_le
        ((List.append_assoc before gap after).trans htext.symm) (by rw [byteLength_append]; omega)
      have hblanks' : ∀ c ∈ before ++ (gap' ++ more), isBlank c = true := by
        simp only [List.forall_mem_append] at hblanks ⊢
        exact ⟨hblanks.1.1, hgap', hblanks.2⟩
      have hread := (Cut.next hblanks hs hspan hrest).readAll
      rw [readAll_gap hblanks] at hread
      rw [← List.append_assoc gap', ← List.append_assoc before, readAll_gap hblanks', ← hread]
      exact map_terminal_readAll_eq _ _ _

/-- The second text is the first with what stands between two of its tokens, or a part of it,
exchanged for blanks, of which there is at least one. -/
inductive Respaced : String → String → Prop where
  | intro {before gap gap' after : List Char} (hgap' : ∀ c ∈ gap', isBlank c = true)
      (hne : gap' ≠ [])
      (hbetween : BetweenTokens
        (TokenStream.ofSource (String.ofList (before ++ (gap ++ after)))).tokens
        (byteLength before) (byteLength before + byteLength gap)) :
      Respaced (String.ofList (before ++ (gap ++ after)))
        (String.ofList (before ++ (gap' ++ after)))

theorem alike_of_terminal_eq {t u : Token} (h : t.terminal = u.terminal) : t.Alike u :=
  ⟨congrArg Terminal.kind h, fun _ => congrArg Terminal.literal h⟩

/-- Streams with the same terminals agree place by place. -/
theorem alike_of_map_terminal_eq {s t : TokenStream}
    (h : s.tokens.map Token.terminal = t.tokens.map Token.terminal) (i : Nat) :
    (s.get i).Alike (t.get i) := by
  have hplace := congrArg (fun ws => ws[i]?) h
  simp only [List.getElem?_map] at hplace
  rw [TokenStream.get, TokenStream.get, List.getD_eq_getElem?_getD, List.getD_eq_getElem?_getD]
  cases hs : s.tokens[i]? with
  | none =>
    rw [hs, Option.map_none, eq_comm, Option.map_eq_none_iff] at hplace
    rw [hplace]
    exact ⟨rfl, fun _ => rfl⟩
  | some a =>
    rw [hs, Option.map_some, eq_comm, Option.map_eq_some_iff] at hplace
    obtain ⟨b, hb, hab⟩ := hplace
    rw [hb]
    exact alike_of_terminal_eq hab.symm

theorem Respaced.alike {source source' : String} (h : Respaced source source')
    (hsize : byteLength source.toList < UInt32.size) (i : Nat) :
    ((TokenStream.ofSource source).get i).Alike ((TokenStream.ofSource source').get i) := by
  obtain @⟨before, gap, gap', after, hgap', hne, hbetween⟩ := h
  have hcut := cut_readAll 0 (String.ofList (before ++ (gap ++ after))).toList
  refine alike_of_map_terminal_eq ?_ i
  rw [← Nat.zero_add (byteLength before)] at hbetween
  have hread := hcut.map_terminal_respaced (String.toList_ofList) (by omega) hbetween hgap' hne 0
  rw [← String.toList_ofList (l := before ++ (gap' ++ after))] at hread
  exact hread.symm

/-! ## Runs -/

/-- The same came of running two texts: the same value, or the same is wrong with both. -/
inductive Result.Same : Result → Result → Prop where
  | finished (value : Option Value) : Same (.finished value) (.finished value)
  | rejected {errors errors' : List SyntaxError}
      (h : errors.map SyntaxError.cause = errors'.map SyntaxError.cause) :
      Same (.rejected errors) (.rejected errors')

/-- Results that are the same show as the same in a conversation. -/
theorem Result.Same.reply_eq {r r' : Result} (h : Result.Same r r') : r.reply = r'.reply := by
  cases h with
  | finished => rfl
  | rejected h =>
    have hmessages := congrArg (List.map fun cause => "\t" ++ SyntaxError.Cause.message cause) h
    rw [List.map_map, List.map_map] at hmessages
    exact congrArg (fun lines => "\n".intercalate lines ++ "\n") hmessages

theorem runSource_same {source source' : String}
    (hprogram : (Parsed.ofSource source).program = (Parsed.ofSource source').program)
    (herrors : (Parsed.ofSource source).errors.map SyntaxError.cause =
      (Parsed.ofSource source').errors.map SyntaxError.cause) (limit : Nat) (scope : ScopeId)
    (st : State) :
    Result.Same (runSource limit scope source st).1 (runSource limit scope source' st).1 ∧
      (runSource limit scope source st).2 = (runSource limit scope source' st).2 := by
  have hempty : (Parsed.ofSource source).errors.isEmpty =
      (Parsed.ofSource source').errors.isEmpty := by
    rw [← List.isEmpty_map (f := SyntaxError.cause), herrors, List.isEmpty_map]
  simp only [runSource, ← hempty, ← hprogram]
  split
  · exact ⟨.finished _, rfl⟩
  · exact ⟨.rejected herrors, rfl⟩

/-- **Neither layout nor the positions of tokens change the meaning of a text.** Streams that agree,
place by place, in the kinds of their tokens and in the literals of names, numbers and strings are
read as the same program, and the same is wrong with them, in the same order. So if the blanks
between two tokens of a text are exchanged for others, or some are put where none were, then the
program stays the same, and a run of the text comes to the same, is answered by the same words and
leaves the same behind, whatever the limit and the state it is run in. -/
theorem layout_irrelevant :
    (∀ s t : TokenStream, (∀ i, (s.get i).Alike (t.get i)) →
      (Parsed.ofStream s).program = (Parsed.ofStream t).program ∧
        (Parsed.ofStream s).errors.map SyntaxError.cause =
          (Parsed.ofStream t).errors.map SyntaxError.cause) ∧
    ∀ source source' : String, Respaced source source' →
      byteLength source.toList < UInt32.size →
      (Parsed.ofSource source).program = (Parsed.ofSource source').program ∧
        ∀ (limit : Nat) (scope : ScopeId) (st : State),
          Result.Same (runSource limit scope source st).1 (runSource limit scope source' st).1 ∧
            (runSource limit scope source st).1.reply =
              (runSource limit scope source' st).1.reply ∧
            (runSource limit scope source st).2 = (runSource limit scope source' st).2 := by
  refine ⟨fun s t h => ofStream_alike h, fun source source' h hsize => ?_⟩
  obtain ⟨hprogram, herrors⟩ := ofStream_alike (h.alike hsize)
  refine ⟨hprogram, fun limit scope st => ?_⟩
  obtain ⟨hresult, hstate⟩ := runSource_same hprogram herrors limit scope st
  exact ⟨hresult, hresult.reply_eq, hstate⟩

/-- A line feed between an equals sign and a string, whose own blanks stay. -/
theorem layout_irrelevant_string :
    Respaced "let x=\"a  b\";x" "let x=\n\"a  b\";x" ∧
      (Parsed.ofSource "let x=\"a  b\";x").program =
        (Parsed.ofSource "let x=\n\"a  b\";x").program := by
  have h : Respaced "let x=\"a  b\";x" "let x=\n\"a  b\";x" :=
    @Respaced.intro ['l', 'e', 't', ' ', 'x', '='] [] ['\n'] "\"a  b\";x".toList
      (by simp [isBlank]) (List.cons_ne_nil _ _) (by decide +kernel)
  exact ⟨h, (layout_irrelevant.2 _ _ h (by decide)).1⟩

end Sprig
