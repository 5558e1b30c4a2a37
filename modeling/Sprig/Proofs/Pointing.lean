import Sprig.Proofs.ErrorOrder
import Sprig.Report

/-!
# Where a report points

The place that a report names is a line and a column, and here both are counted in the text itself
(`Location.ofPosition`): which lines there are is decided by the line ends in it (`startsLine`), and
no two positions have the same line and column. A report that has a header names the position whose
number is the first byte of the error (`hasHeader_render_iff`). That is where the error is if bytes
and characters have been counted alike so far, that is, if there are only ASCII characters before
it.
-/

namespace Sprig

namespace Report

/-! ## Lines and columns -/

/-- Whether a line starts at a position. The first one starts where the text does, and after each
line end there is another, if the text goes on. Nothing comes between a carriage return and a line
feed. -/
def startsLine (text : List Char) : Nat → Bool
  | 0 => true
  | k + 1 =>
    match text[k]?, text[k + 1]? with
    | some c, some d => isLineEnd c && !(c == '\r' && d == '\n')
    | _, _ => false

/-- The positions up to `i` at which lines start. -/
def lineStarts (text : List Char) (i : Nat) : List Nat :=
  (List.range (i + 1)).filter (startsLine text)

/-- The line and the column of a position: how many lines start up to it, and how far it is from the
last of these starts. No line starts at the end of a text, so the end is on the last line, even
after a line end. -/
def Location.ofPosition (text : List Char) (i : Nat) : Location :=
  ⟨(lineStarts text i).length, i - (lineStarts text i).getLastD 0 + 1⟩

section Position

variable {text : List Char} {i j : Nat}

theorem getLastD_lineStarts_le (text : List Char) (i : Nat) :
    (lineStarts text i).getLastD 0 ≤ i := by
  rw [List.getLastD_eq_getLast?]
  cases hlast : (lineStarts text i).getLast? with
  | none => exact Nat.zero_le i
  | some k =>
    have hmem := List.mem_of_getLast? hlast
    rw [lineStarts, List.mem_filter, List.mem_range] at hmem
    exact Nat.le_of_lt_succ hmem.1

theorem Location.ofPosition_ne (h : i < j) : ofPosition text i ≠ ofPosition text j := by
  intro heq
  obtain ⟨n, rfl⟩ := Nat.exists_eq_add_of_le (Nat.le_of_lt h)
  -- The starts up to the first position are the first of those up to the second.
  have hsplit : lineStarts text (i + n) =
      lineStarts text i ++ ((List.range n).map (i + 1 + ·)).filter (startsLine text) := by
    rw [lineStarts, Nat.add_right_comm, List.range_add, List.filter_append, lineStarts]
  have hline := congrArg Location.line heq
  have hcolumn := congrArg Location.column heq
  simp only [ofPosition, hsplit, List.length_append] at hline hcolumn
  have hnone : ((List.range n).map (i + 1 + ·)).filter (startsLine text) = [] :=
    List.length_eq_zero_iff.1 (by omega)
  rw [hnone, List.append_nil] at hcolumn
  have hle := getLastD_lineStarts_le text i
  omega

/-- Positions can be told apart by line and column. -/
theorem Location.ofPosition_inj : ofPosition text i = ofPosition text j ↔ i = j := by
  refine ⟨fun heq => ?_, fun h => h ▸ rfl⟩
  rcases Nat.lt_trichotomy i j with h | h | h
  · exact absurd heq (ofPosition_ne h)
  · exact h
  · exact absurd heq.symm (ofPosition_ne h)

end Position

/-! ## Cutting a text finds its lines -/

theorem map_offset_place (n offset : Nat) (lines : List (List Char)) :
    (place (n + offset) lines).map Line.offset =
      ((place offset lines).map Line.offset).map (n + ·) := by
  induction lines generalizing offset with
  | nil => rfl
  | cons line lines ih =>
    simp only [place, List.map_cons, Nat.add_assoc, ih]

/-- The starts of lines after the first character. -/
theorem filter_startsLine_cons (c : Char) (cs : List Char) :
    (List.range (c :: cs).length).filter (startsLine (c :: cs)) =
      0 :: ((List.range cs.length).filter fun k => startsLine (c :: cs) (1 + k)).map (1 + ·) := by
  rw [List.length_cons, Nat.add_comm, List.range_add, List.filter_append, List.filter_map]
  rfl

theorem startsLine_cons_of_pos {c : Char} {cs : List Char} {k : Nat} (h : 0 < k) :
    startsLine (c :: cs) (1 + k) = startsLine cs k := by
  obtain ⟨k, rfl⟩ := Nat.exists_eq_succ_of_ne_zero (Nat.ne_of_gt h)
  rw [Nat.add_comm]
  rfl

/-- A line starts after a character that ends one. -/
theorem filter_startsLine_of_isLineEnd {c : Char} {cs : List Char} (hc : isLineEnd c = true)
    (hreturn : ¬ (c = '\r' ∧ cs.head? = some '\n')) :
    (List.range (c :: cs).length).filter (startsLine (c :: cs)) =
      0 :: ((List.range cs.length).filter (startsLine cs)).map (1 + ·) := by
  rw [filter_startsLine_cons]
  congr 2
  refine List.filter_congr fun k hk => ?_
  rcases Nat.eq_zero_or_pos k with rfl | hpos
  · cases cs with
    | nil => simp at hk
    | cons d cs => simpa [startsLine, hc, Decidable.imp_iff_not_or] using hreturn
  · exact startsLine_cons_of_pos hpos

/-- No line starts after another character. -/
theorem filter_startsLine_of_not {c d : Char} {cs : List Char}
    (hc : startsLine (c :: d :: cs) 1 = false) {starts : List Nat}
    (hstarts : (List.range (d :: cs).length).filter (startsLine (d :: cs)) = 0 :: starts) :
    (List.range (c :: d :: cs).length).filter (startsLine (c :: d :: cs)) =
      0 :: starts.map (1 + ·) := by
  rw [filter_startsLine_cons] at hstarts
  obtain ⟨-, rfl⟩ := List.cons.inj hstarts
  have hzero : startsLine (c :: d :: cs) (1 + 0) = false := hc
  rw [filter_startsLine_cons, List.length_cons, Nat.add_comm, List.range_add, List.filter_append,
    List.filter_map]
  congr 2
  have hfirst : [0].filter (fun k => startsLine (c :: d :: cs) (1 + k)) = [] := by simp [hzero]
  show [0].filter _ ++ _ = _
  rw [hfirst, List.nil_append]
  congr 1
  exact List.filter_congr fun k _ => startsLine_cons_of_pos (Nat.add_pos_left Nat.one_pos k)

theorem map_offset_cutLines (text : List Char) :
    (place 0 (cutLines text)).map Line.offset =
      (List.range text.length).filter (startsLine text) := by
  fun_induction cutLines text with
  | case1 => rfl
  | case2 cs ih =>
    have hfeed := filter_startsLine_of_isLineEnd (show isLineEnd '\n' = true from rfl)
      (show ¬ ('\n' = '\r' ∧ cs.head? = some '\n') by simp)
    have hreturn : startsLine ('\r' :: '\n' :: cs) 1 = false := rfl
    rw [filter_startsLine_of_not hreturn hfeed, ← ih, ← map_offset_place, ← map_offset_place]
    rfl
  | case3 c cs hreturn hc ih =>
    have hnext : ¬ (c = '\r' ∧ cs.head? = some '\n') := by
      rintro ⟨rfl, hhead⟩
      obtain ⟨rest, rfl⟩ := List.head?_eq_some_iff.1 hhead
      exact hreturn rest rfl rfl
    rw [filter_startsLine_of_isLineEnd hc hnext, ← ih, ← map_offset_place]
    rfl
  | case4 c cs hreturn hc h ih =>
    have hempty : cs = [] := by
      rw [← flatten_cutLines cs, h, List.flatten_nil]
    subst hempty
    rfl
  | case5 c cs hreturn hc line lines h ih =>
    cases cs with
    | nil => cases h
    | cons d cs =>
      rw [h, place, List.map_cons, Nat.zero_add] at ih
      have hstarts := filter_startsLine_of_not (c := c) (by simp [startsLine, hc]) ih.symm
      rw [hstarts, ← map_offset_place, place, List.map_cons, List.length_cons, Nat.zero_add,
        Nat.add_comm]

theorem map_offset_linesOf (text : List Char) :
    (linesOf text).map Line.offset = (List.range (max 1 text.length)).filter (startsLine text) := by
  have hcut := map_offset_cutLines text
  rw [linesOf]
  split
  · next h =>
    have hempty : text = [] := by rw [← flatten_cutLines text, h, List.flatten_nil]
    subst hempty
    rfl
  · next h =>
    have hpos : 1 ≤ text.length := by
      refine Nat.one_le_iff_ne_zero.2 fun hzero => h ?_
      rw [List.length_eq_zero_iff.1 hzero]
      rfl
    rw [Nat.max_eq_right hpos]
    exact hcut

theorem takeWhile_of_forall_lt {i : Nat} {l : List Nat} (h : ∀ x ∈ l, i < x) :
    l.takeWhile (· ≤ i) = [] := by
  cases l with
  | nil => rfl
  | cons x l => simpa using h x List.mem_cons_self

theorem takeWhile_filter_range (p : Nat → Bool) {n i : Nat} (h : i < n) :
    ((List.range n).filter p).takeWhile (· ≤ i) = (List.range (i + 1)).filter p := by
  obtain ⟨k, rfl⟩ := Nat.exists_eq_add_of_le h
  have hlow : ∀ x ∈ (List.range (i + 1)).filter p, decide (x ≤ i) = true := by
    intro x hx
    have hlt := List.mem_range.1 (List.mem_of_mem_filter hx)
    simpa using Nat.le_of_lt_succ hlt
  have hhigh : ∀ x ∈ ((List.range k).map (i + 1 + ·)).filter p, i < x := by
    intro x hx
    obtain ⟨y, -, rfl⟩ := List.mem_map.1 (List.mem_of_mem_filter hx)
    omega
  rw [List.range_add, List.filter_append, List.takeWhile_append_of_pos hlow,
    takeWhile_of_forall_lt hhigh, List.append_nil]

theorem startsLine_of_length_le {text : List Char} {k : Nat} (h : text.length ≤ k) (hk : 0 < k) :
    startsLine text k = false := by
  obtain ⟨k, rfl⟩ := Nat.exists_eq_succ_of_ne_zero (Nat.ne_of_gt hk)
  rw [startsLine, List.getElem?_eq_none h]
  split <;> simp_all

/-- The lines that do not start after a position. -/
theorem takeWhile_map_offset_linesOf {text : List Char} {i : Nat} (h : i ≤ text.length) :
    ((linesOf text).map Line.offset).takeWhile (· ≤ i) = lineStarts text i := by
  rw [map_offset_linesOf, lineStarts]
  rcases Nat.lt_or_ge i (max 1 text.length) with hlt | hge
  · exact takeWhile_filter_range _ hlt
  · -- The end of a text that is not empty: every line starts before it.
    obtain rfl : i = text.length := by omega
    have hmax : max 1 text.length = text.length := by omega
    have hend := startsLine_of_length_le (Nat.le_refl text.length) (by omega)
    rw [hmax, List.range_succ, List.filter_append, List.filter_singleton, hend, cond_false,
      List.append_nil, List.takeWhile_eq_self_iff]
    intro k hk
    have hlt := List.mem_range.1 (List.mem_of_mem_filter hk)
    simpa using Nat.le_of_lt hlt

theorem getElem?_takeWhile_last {α : Type} {p : α → Bool} {l : List α} (h : l.takeWhile p ≠ []) :
    l[(l.takeWhile p).length - 1]? = (l.takeWhile p).getLast? := by
  have hlt : (l.takeWhile p).length - 1 < (l.takeWhile p).length :=
    Nat.sub_one_lt_of_lt (List.length_pos_iff.2 h)
  calc l[(l.takeWhile p).length - 1]?
      = (l.takeWhile p ++ l.dropWhile p)[(l.takeWhile p).length - 1]? := by
        rw [List.takeWhile_append_dropWhile]
    _ = (l.takeWhile p)[(l.takeWhile p).length - 1]? := List.getElem?_append_left hlt
    _ = (l.takeWhile p).getLast? := List.getLast?_eq_getElem?.symm

/-- The place of a region that can be shown is that of its first position. -/
theorem location?_eq {text : List Char} {r : Region} (h : r.fits text.length = true) :
    location? text r = some (.ofPosition text r.start) := by
  have hstart : r.start ≤ text.length := by
    simp only [Region.fits, Bool.and_eq_true, decide_eq_true_eq] at h
    exact h.1
  have hstarts : ((linesOf text).takeWhile fun l => l.offset ≤ r.start).map Line.offset =
      lineStarts text r.start := by
    rw [← takeWhile_map_offset_linesOf hstart, List.takeWhile_map]
    rfl
  have hpos : 0 < (lineStarts text r.start).length :=
    List.length_pos_of_mem (List.mem_filter.2 ⟨List.mem_range.2 (Nat.succ_pos _), rfl⟩)
  rw [← hstarts, List.length_map] at hpos
  have hlast := getElem?_takeWhile_last (List.length_pos_iff.1 hpos)
  rw [location?, if_pos h, Location.ofPosition, ← hstarts, List.length_map,
    List.getLastD_eq_getLast?, List.getLast?_map, ← hlast]
  simp only [lineIndex, Nat.sub_add_cancel hpos]
  cases (linesOf text)[((linesOf text).takeWhile fun l => l.offset ≤ r.start).length - 1]? <;> rfl

/-! ## The header of a report -/

/-- After the heading, the report says that the error is at this place of the file. -/
def HasHeader (e : SyntaxError) (path : String) (loc : Location) (report : String) : Prop :=
  ∃ (f : Frame) (rest : String), report = heading e ++ f.place path loc ++ rest

theorem times_blank_append_inj {m n : Nat} {s t : String} (hs : StopsBefore (· == ' ') s.toList)
    (ht : StopsBefore (· == ' ') t.toList) (h : times m " " ++ s = times n " " ++ t) : s = t := by
  have hblank (k : Nat) : ∀ c ∈ (times k " ").toList, (c == ' ') = true := by
    simp [times, String.toList_join]
  have hlist := congrArg String.toList h
  rw [String.toList_append, String.toList_append] at hlist
  exact String.toList_inj.1 (append_inj_of_stopsBefore (hblank m) (hblank n) hs ht hlist).2

theorem repr_append_inj {m n : Nat} {s t : String} (hs : StopsBefore Char.isDigit s.toList)
    (ht : StopsBefore Char.isDigit t.toList) (h : Nat.repr m ++ s = Nat.repr n ++ t) :
    m = n ∧ s = t := by
  have hdigits (k : Nat) : ∀ c ∈ Nat.toDigits 10 k, c.isDigit = true := fun c hc =>
    Nat.isDigit_of_mem_toDigits (by decide) (by decide) hc
  have hlist := congrArg String.toList h
  rw [String.toList_append, String.toList_append, Nat.toList_repr, Nat.toList_repr] at hlist
  obtain ⟨hrepr, hrest⟩ := append_inj_of_stopsBefore (hdigits m) (hdigits n) hs ht hlist
  have hvalue := congrArg (Nat.ofDigitChars 10 · 0) hrepr
  simp only [Nat.ofDigitChars_ten_toDigits] at hvalue
  exact ⟨hvalue, String.toList_inj.1 hrest⟩

/-- The place can be read off the text, whatever the path is and whatever comes after it. -/
theorem place_append_inj {f f' : Frame} {path : String} {loc loc' : Location} {rest rest' : String}
    (h : f.place path loc ++ rest = f'.place path loc' ++ rest') : loc = loc' := by
  unfold Frame.place at h
  simp only [String.append_assoc] at h
  have hframe := times_blank_append_inj (by simp [paint, StopsBefore])
    (by simp [paint, StopsBefore]) h
  simp only [String.append_right_inj] at hframe
  obtain ⟨hline, hframe⟩ := repr_append_inj (by simp [StopsBefore]) (by simp [StopsBefore]) hframe
  rw [String.append_right_inj] at hframe
  obtain ⟨hcolumn, -⟩ := repr_append_inj (by simp [StopsBefore]) (by simp [StopsBefore]) hframe
  obtain ⟨line, column⟩ := loc
  obtain ⟨line', column'⟩ := loc'
  rw [Location.mk.injEq]
  exact ⟨hline, hcolumn⟩

theorem HasHeader.inj {e : SyntaxError} {path report : String} {loc loc' : Location}
    (h : HasHeader e path loc report) (h' : HasHeader e path loc' report) : loc = loc' := by
  obtain ⟨f, rest, rfl⟩ := h
  obtain ⟨f', rest', heq⟩ := h'
  rw [String.append_assoc, String.append_assoc, String.append_right_inj] at heq
  exact place_append_inj heq

theorem not_hasHeader_heading (e : SyntaxError) (path : String) (loc : Location) :
    ¬ HasHeader e path loc (heading e) := by
  rintro ⟨f, rest, h⟩
  have hlength := congrArg String.length h
  unfold Frame.place at hlength
  simp only [String.length_append] at hlength
  have hcolon : ":".length = 1 := rfl
  omega

/-- A report has a header if the region fits into the text, and the header names its first
position. -/
theorem hasHeader_render_iff {e : SyntaxError} {path source : String} {loc : Location} :
    HasHeader e path loc (render path source e) ↔
      (Region.ofSpan e.span).fits source.toList.length = true ∧
        loc = .ofPosition source.toList e.span.start.toNat := by
  by_cases hfits : (Region.ofSpan e.span).fits source.toList.length = true
  · have hheader : HasHeader e path (.ofPosition source.toList e.span.start.toNat)
        (render path source e) := by
      rw [render, location?_eq hfits]
      exact ⟨_, _, String.append_assoc ..⟩
    refine ⟨fun h => ⟨hfits, h.inj hheader⟩, ?_⟩
    rintro ⟨-, rfl⟩
    exact hheader
  · have hnone : render path source e = heading e := by
      rw [render, location?, if_neg hfits]
    rw [hnone]
    exact iff_of_false (not_hasHeader_heading e path loc) fun h => hfits h.1

end Report

open Text Report

/-! ## Where the error is -/

/-- The token that the error is about is written between the two parts of the source. -/
structure SyntaxError.StandsAt (e : SyntaxError) (source : String)
    (before written after : List Char) : Prop where
  source_eq : source.toList = before ++ written ++ after
  span_eq : e.span = Span.ofNat (byteLength before) (byteLength written)
  /-- The end of the input is written by nothing, after everything else. -/
  token : ∃ t, e.Names t ∧
    (t ∈ (TokenStream.ofSource source).tokens ∧ Spelled t.kind t.literal.toList written after ∨
      t = (TokenStream.ofSource source).endToken ∧ written = [] ∧ after = [])

theorem SyntaxError.exists_standsAt {source : String} {e : SyntaxError}
    (he : e ∈ (Parsed.ofSource source).errors) :
    ∃ before written after, e.StandsAt source before written after := by
  obtain ⟨n, hnoticed⟩ := exists_noticed (TokenStream.ofSource source)
  obtain ⟨i, -, hnames⟩ := hnoticed.exists_names e he
  by_cases hi : i < (TokenStream.ofSource source).tokens.length
  · rw [TokenStream.get_of_lt hi] at hnames
    have hmem := List.getElem_mem hi
    obtain ⟨before, written, after, heq, hspan, hspelled, -⟩ :=
      (cut_readAll 0 source.toList).exists_spelled (show 0 = byteLength [] from rfl) hmem
    exact ⟨before, written, after, heq, hnames.1.trans hspan, _, hnames, .inl ⟨hmem, hspelled⟩⟩
  · rw [TokenStream.get_of_length_le (Nat.le_of_not_lt hi)] at hnames
    exact ⟨source.toList, [], [], by simp, hnames.1, _, hnames, .inr ⟨rfl, rfl, rfl⟩⟩

/-- Bytes and characters are counted alike in ASCII and nowhere else. -/
theorem byteLength_eq_length_iff {text : List Char} :
    byteLength text = text.length ↔ ∀ c ∈ text, c.toNat < 128 := by
  induction text with
  | nil => simp
  | cons c cs ih =>
    have hsize : c.utf8Size = 1 ↔ c.toNat < 128 := by
      rw [Char.utf8Size_eq_one_iff, UInt32.le_iff_toNat_le]
      exact Nat.lt_succ_iff.symm
    have hpos := c.utf8Size_pos
    have hle := length_le_byteLength cs
    rw [List.forall_mem_cons, ← ih, ← hsize, byteLength_cons, List.length_cons]
    omega

/-- **Where a report points.** Take an error of a source text of fewer than 2 ^ 32 bytes, and the
text before, at and after its token. If its report has a header, that names the position whose
number is the first byte of the error, and so the start of the token just if all characters before
it are ASCII. In a source that is ASCII the report has a header, and it names the start of the
token. -/
theorem report_points_at_token (path source : String) (h : byteLength source.toList < UInt32.size)
    (e : SyntaxError) (he : e ∈ (Parsed.ofSource source).errors) :
    ∃ before written after, e.StandsAt source before written after ∧
      (∀ loc, HasHeader e path loc (render path source e) →
        loc = .ofPosition source.toList e.span.start.toNat ∧
          (loc = .ofPosition source.toList before.length ↔ ∀ c ∈ before, c.toNat < 128)) ∧
      ((∀ c ∈ source.toList, c.toNat < 128) →
        HasHeader e path (.ofPosition source.toList before.length) (render path source e)) := by
  obtain ⟨before, written, after, hstands⟩ := SyntaxError.exists_standsAt he
  have hlength : byteLength before + byteLength written ≤ byteLength source.toList := by
    rw [hstands.source_eq, byteLength_append, byteLength_append]
    omega
  obtain ⟨hstart, -, hstop⟩ := Span.toNat_of_eq_ofNat hstands.span_eq (by omega)
  refine ⟨before, written, after, hstands, fun loc hheader => ?_, fun hascii => ?_⟩
  · obtain ⟨-, rfl⟩ := hasHeader_render_iff.1 hheader
    refine ⟨rfl, ?_⟩
    rw [Location.ofPosition_inj, hstart]
    exact byteLength_eq_length_iff
  · have hparts := hascii
    rw [hstands.source_eq, List.forall_mem_append, List.forall_mem_append] at hparts
    obtain ⟨⟨hbefore, -⟩, -⟩ := hparts
    rw [← byteLength_eq_length_iff] at hascii hbefore
    refine hasHeader_render_iff.2 ⟨?_, by rw [hstart, hbefore]⟩
    simp only [Region.fits, Region.last, Region.ofSpan, hstart, hstop, Bool.and_eq_true,
      decide_eq_true_eq]
    omega

/-- The letter takes two bytes, so the report names the end of the second line and not its first
character, where the parenthesis is. -/
theorem report_points_at_token_shifted :
    byteLength "é\r\n)".toList < UInt32.size ∧
      ⟨.notExpression .rightParen, ⟨4, 1⟩⟩ ∈ (Parsed.ofSource "é\r\n)").errors ∧
      HasHeader ⟨.notExpression .rightParen, ⟨4, 1⟩⟩ "main" ⟨2, 2⟩
        (render "main" "é\r\n)" ⟨.notExpression .rightParen, ⟨4, 1⟩⟩) ∧
      ∃ before written after, SyntaxError.StandsAt ⟨.notExpression .rightParen, ⟨4, 1⟩⟩ "é\r\n)"
          before written after ∧
        (⟨2, 2⟩ = Location.ofPosition "é\r\n)".toList before.length ↔
          ∀ c ∈ before, c.toNat < 128) := by
  have hsize : byteLength "é\r\n)".toList < UInt32.size := by decide
  have herror : ⟨.notExpression .rightParen, ⟨4, 1⟩⟩ ∈ (Parsed.ofSource "é\r\n)").errors := by
    decide +kernel
  have hheader : HasHeader ⟨.notExpression .rightParen, ⟨4, 1⟩⟩ "main" ⟨2, 2⟩
      (render "main" "é\r\n)" ⟨.notExpression .rightParen, ⟨4, 1⟩⟩) :=
    hasHeader_render_iff.2 ⟨by decide, rfl⟩
  obtain ⟨before, written, after, hstands, hpoints, -⟩ :=
    report_points_at_token "main" "é\r\n)" hsize _ herror
  exact ⟨hsize, herror, hheader, before, written, after, hstands, (hpoints _ hheader).2⟩

end Sprig
