import Sprig.Proofs.Layout
import Sprig.Proofs.Tiling

/-!
# Spaced text

Terminals that are written one after the other, with blanks between them, are read back: with their
kinds and literals, each at the bytes at which it was written, and then the input is at its end. No
terminal is carried on by a blank, so it does not matter which terminals stand next to each other,
nor which characters a string holds between its quotes.
-/

namespace Sprig

open Text

/-! ## Characters that start nothing -/

theorem two_le_length_of_ofKeyword? {word : String} {kind : TokenKind}
    (h : TokenKind.ofKeyword? word = some kind) : 2 ≤ word.toList.length := by
  unfold TokenKind.ofKeyword? at h
  split at h <;> first | decide | cases h

theorem isName_singleton {c : Char} (h : isWordChar c = true) :
    isName (String.singleton c) = true := by
  refine isName_iff.2 ⟨by simp, by simpa using h, ?_⟩
  cases hk : TokenKind.ofKeyword? (String.singleton c) with
  | none => rfl
  | some kind =>
    have hlength := two_le_length_of_ofKeyword? hk
    simp at hlength

theorem text?_of_ofSymbol? {c : Char} {kind : TokenKind} (h : TokenKind.ofSymbol? c = some kind) :
    kind.text? = some (String.singleton c) := by
  unfold TokenKind.ofSymbol? at h
  split at h <;> cases h <;> rfl

theorem Terminal.wellFormed_of_text? {kind : TokenKind} {text : String}
    (h : kind.text? = some text) : (Terminal.mk kind text).WellFormed := by
  cases kind with
  | illegal | ident | integer | string => cases h
  | _ => exact h

/-- **The illegal characters are those that are neither blanks nor the first character of anything
else.** -/
theorem wellFormed_illegal_iff {c : Char} :
    (Terminal.mk .illegal (String.singleton c)).WellFormed ↔
      isBlank c = false ∧
        ∀ w : Terminal, w.WellFormed → w.kind ≠ .illegal → w.written.head? ≠ some c := by
  constructor
  · rintro ⟨d, hd, hblank, hword, hdigit, hmark, hsymbol⟩
    obtain rfl : c = d := by simpa [String.ext_iff] using hd
    refine ⟨hblank, fun w hw hkind hhead => hkind ?_⟩
    have hs : Spelled w.kind w.literal.toList w.written [] := hw.spelled (by simp [StopsBefore])
    obtain ⟨c', cs, heq, -, hread⟩ := hs.read
    obtain rfl : c = c' := by
      rw [List.append_nil] at heq
      rw [heq] at hhead
      exact (Option.some.inj hhead).symm
    have hillegal : (Lexeme.read c cs).kind = .illegal := by
      simp only [List.mem_cons, List.not_mem_nil, or_false, not_or] at hmark
      simp [Lexeme.read, hword, hdigit, hmark, hsymbol, Lexeme.plain]
    rw [hread] at hillegal
    exact hillegal
  · rintro ⟨hblank, hstarts⟩
    -- A character of any other class is a terminal by itself, or it opens a string.
    have halone (kind : TokenKind) (hw : (Terminal.mk kind (String.singleton c)).WellFormed)
        (hkind : kind ≠ .illegal) (hstring : kind ≠ .string) : False := by
      refine hstarts ⟨kind, String.singleton c⟩ hw hkind ?_
      cases kind <;> simp [Terminal.written] at hstring ⊢
    refine ⟨c, rfl, hblank, Bool.eq_false_iff.2 fun hword => ?_,
      Bool.eq_false_iff.2 fun hdigit => ?_, fun hmark => ?_, ?_⟩
    · exact halone .ident (isName_singleton hword) (by decide) (by decide)
    · exact halone .integer (by simpa [Terminal.WellFormed, isNumeral] using hdigit)
        (by decide) (by decide)
    · simp only [List.mem_cons, List.not_mem_nil, or_false] at hmark
      rcases hmark with rfl | rfl | rfl
      · exact hstarts ⟨.string, ""⟩ (by simp [Terminal.WellFormed]) (by decide) rfl
      · exact halone .assign rfl (by decide) (by decide)
      · exact halone .bang rfl (by decide) (by decide)
    · cases hsymbol : TokenKind.ofSymbol? c with
      | none => rfl
      | some kind =>
        have htext := text?_of_ofSymbol? hsymbol
        refine (halone kind (Terminal.wellFormed_of_text? htext) ?_ ?_).elim
        · rintro rfl
          cases htext
        · rintro rfl
          cases htext

/-! ## Terminals with blanks between them -/

/-- The text of terminals, each with the characters that follow it. -/
def joined (pieces : List (Terminal × List Char)) : List Char :=
  pieces.flatMap fun p => p.1.written ++ p.2

/-- The terminals are well formed, only blanks follow each of them, and some do unless it is the
last one. -/
structure Spaced (pieces : List (Terminal × List Char)) : Prop where
  wellFormed : ∀ p ∈ pieces, p.1.WellFormed
  blank : ∀ p ∈ pieces, ∀ c ∈ p.2, isBlank c = true
  apart : ∀ p ∈ pieces.dropLast, p.2 ≠ []

/-- The tokens of terminals that are written from byte `offset` on. -/
def placed (offset : Nat) : List (Terminal × List Char) → List Token
  | [] => []
  | (w, gap) :: pieces =>
    ⟨w.kind, w.literal, Span.ofNat offset (byteLength w.written)⟩ ::
      placed (offset + byteLength w.written + byteLength gap) pieces

section Spaced

variable {w : Terminal} {gap : List Char} {pieces : List (Terminal × List Char)}

theorem joined_cons (w : Terminal) (gap : List Char) (pieces : List (Terminal × List Char)) :
    joined ((w, gap) :: pieces) = w.written ++ (gap ++ joined pieces) := by
  rw [joined, List.flatMap_cons, List.append_assoc]
  rfl

theorem Spaced.tail (h : Spaced ((w, gap) :: pieces)) : Spaced pieces where
  wellFormed p hp := h.wellFormed p (List.mem_cons_of_mem _ hp)
  blank p hp := h.blank p (List.mem_cons_of_mem _ hp)
  apart p hp := by
    cases pieces with
    | nil => cases hp
    | cons q pieces => exact h.apart p (List.mem_cons_of_mem _ hp)

/-- What follows a terminal does not carry it on: it is a blank, or nothing follows. -/
theorem Spaced.stopsBefore (h : Spaced ((w, gap) :: pieces)) :
    StopsBefore w.kind.continuedBy (gap ++ joined pieces) := by
  cases gap with
  | cons c gap =>
    rintro _ ⟨⟩
    have hc := h.blank _ (List.mem_cons_self ..) c (List.mem_cons_self ..)
    exact TokenKind.continuedBy_blank hc _
  | nil =>
    cases pieces with
    | nil => rintro _ ⟨⟩
    | cons q pieces => exact absurd rfl (h.apart _ (List.mem_cons_self ..))

theorem Spaced.readAll_joined (h : Spaced pieces) (offset : Nat) :
    Token.readAll offset (joined pieces) = placed offset pieces := by
  induction pieces generalizing offset with
  | nil => rw [joined, List.flatMap_nil, Token.readAll, placed]
  | cons p pieces ih =>
    obtain ⟨w, gap⟩ := p
    have hw := h.wellFormed _ (List.mem_cons_self ..)
    have hgap := h.blank _ (List.mem_cons_self ..)
    rw [joined_cons, (hw.spelled h.stopsBefore).readAll, readAll_gap hgap, ih h.tail, placed,
      String.ofList_toList]

theorem length_placed (offset : Nat) (pieces : List (Terminal × List Char)) :
    (placed offset pieces).length = pieces.length := by
  induction pieces generalizing offset with
  | nil => rfl
  | cons p pieces ih => rw [placed, List.length_cons, List.length_cons, ih]

/-- The token of each terminal starts after the text of those before it. -/
theorem getElem?_placed (offset : Nat) (before : List (Terminal × List Char)) (w : Terminal)
    (gap : List Char) (after : List (Terminal × List Char)) :
    (placed offset (before ++ (w, gap) :: after))[before.length]? =
      some ⟨w.kind, w.literal,
        Span.ofNat (offset + byteLength (joined before)) (byteLength w.written)⟩ := by
  induction before generalizing offset with
  | nil => rfl
  | cons p before ih =>
    obtain ⟨v, gap'⟩ := p
    rw [List.cons_append, placed, List.length_cons, List.getElem?_cons_succ, ih, joined_cons,
      byteLength_append, byteLength_append, Nat.add_assoc, Nat.add_assoc]

end Spaced

/-- **Spaced text is read back.** However the terminals are spaced, with blanks between them and
maybe at both ends, the text is read as these terminals in this order, each with the bytes at which
it was written, and after them comes the end of the input for ever. Among the terminals may be
illegal characters, which are all those that are neither blanks nor the first character of any other
terminal. -/
theorem ofSource_joined (lead : List Char) (hlead : ∀ c ∈ lead, isBlank c = true)
    {pieces : List (Terminal × List Char)} (h : Spaced pieces)
    (hsize : byteLength (lead ++ joined pieces) < UInt32.size) :
    let stream := TokenStream.ofSource (String.ofList (lead ++ joined pieces))
    stream.tokens.length = pieces.length ∧
      (∀ before w gap after, pieces = before ++ (w, gap) :: after →
        ∃ span : Span, stream.get before.length = ⟨w.kind, w.literal, span⟩ ∧
          span.start.toNat = byteLength (lead ++ joined before) ∧
          span.stop.toNat = byteLength (lead ++ joined before ++ w.written)) ∧
      (∀ i, pieces.length ≤ i → ∃ span : Span, stream.get i = ⟨.eof, "", span⟩ ∧
        span.start.toNat = byteLength (lead ++ joined pieces) ∧ span.length.toNat = 0) ∧
      ∀ c, (Terminal.mk .illegal (String.singleton c)).WellFormed ↔ isBlank c = false ∧
        ∀ w : Terminal, w.WellFormed → w.kind ≠ .illegal → w.written.head? ≠ some c := by
  intro stream
  have htokens : stream.tokens = placed (byteLength lead) pieces := by
    show Token.readAll 0 (String.ofList _).toList = _
    rw [String.toList_ofList, readAll_gap hlead, h.readAll_joined, Nat.zero_add]
  have hlength : stream.tokens.length = pieces.length := by rw [htokens, length_placed]
  refine ⟨hlength, ?_, fun i hi => ?_, fun c => wellFormed_illegal_iff⟩
  · rintro before w gap after rfl
    have hplace := getElem?_placed (byteLength lead) before w gap after
    rw [← htokens, ← byteLength_append] at hplace
    have hend : byteLength (lead ++ joined before) + byteLength w.written < UInt32.size := by
      rw [joined, List.flatMap_append, ← joined, ← joined, joined_cons] at hsize
      simp only [byteLength_append] at hsize ⊢
      omega
    obtain ⟨hstart, -, hstop⟩ := Span.toNat_of_eq_ofNat rfl hend
    refine ⟨_, ?_, hstart, hstop.trans (byteLength_append ..).symm⟩
    rw [TokenStream.get, List.getD_eq_getElem?_getD, hplace]
    rfl
  · have hend : stream.endSpan = .ofNat (byteLength (lead ++ joined pieces)) 0 := by
      show Span.ofNat (byteLength (String.ofList _).toList) 0 = _
      rw [String.toList_ofList]
    refine ⟨_, TokenStream.get_of_length_le (hlength ▸ hi), ?_, rfl⟩
    rw [hend]
    exact Span.toNat_start_ofNat hsize

/-- A keyword, a letter that is no ASCII letter, a string with blanks in it and two marks. -/
def mixedPieces : List (Terminal × List Char) :=
  [(⟨.kwLet, "let"⟩, ['\t', ' ']), (⟨.illegal, "é"⟩, ['\n']), (⟨.string, "a  é"⟩, ['\r']),
    (⟨.assign, "="⟩, [' ']), (⟨.equalEqual, "=="⟩, [])]

/-- The string stands at the bytes 9 to 16, though only eight characters are before it. -/
theorem ofSource_joined_mixedPieces :
    Spaced mixedPieces ∧
      ∃ span, (TokenStream.ofSource (String.ofList ([' '] ++ joined mixedPieces))).get 2 =
        ⟨.string, "a  é", span⟩ ∧ span.start.toNat = 9 ∧ span.stop.toNat = 16 := by
  have h : Spaced mixedPieces := by
    refine ⟨?_, by simp [mixedPieces, isBlank], by simp [mixedPieces]⟩
    simp only [mixedPieces, List.forall_mem_cons]
    refine ⟨rfl, ⟨'é', rfl, ?_⟩, ?_, rfl, rfl, List.forall_mem_nil _⟩
    · decide
    · show '"' ∉ "a  é".toList
      decide
  obtain ⟨-, hplaces, -⟩ := ofSource_joined [' '] (by simp [isBlank]) h (by decide)
  exact ⟨h, hplaces [_, _] _ _ _ rfl⟩

end Sprig
