import Mathlib.Data.List.Basic
import Sprig.Proofs.Lexeme
import Sprig.Tree.Outline

/-!
# What can be read off a dump

A dump with one item a line says which tree it is the dump of. Nothing in a string can be taken for
the quote that ends it, whichever characters are plain (`Text.escape_append_inj`). Around the
strings a dump is made of words, and the character after a word decides what kind of dump it starts:
a comma, a parenthesis, a space, or, after no word at all, a bracket or a quote. An item of
level `n + 1` starts with a longer margin than the closing line of level `n`, so the margin decides
whether another item follows (`Dump.WellNamed.readable`).

For this the names must be words. The dumps of trees have no others, and different trees have
different dumps (`Program.dump_inj`).
-/

namespace Sprig

/-! ## Escapes -/

namespace Text

theorem digitChar_inj : ∀ m < 16, ∀ n < 16, m.digitChar = n.digitChar → m = n := by
  decide

/-- A number can be read off its digits. -/
theorem toDigits_inj {b m n : Nat} (hb : 1 < b) (hb' : b ≤ 16)
    (h : Nat.toDigits b m = Nat.toDigits b n) : m = n := by
  have hdigit {k l : Nat} (hk : k < b) (hl : l < b) : [k.digitChar] = [l.digitChar] → k = l :=
    fun h => digitChar_inj k (hk.trans_le hb') l (hl.trans_le hb') (List.cons.inj h).1
  induction m using Nat.strongRecOn generalizing n with
  | ind m ih =>
    rcases Nat.lt_or_ge m b with hm | hm <;> rcases Nat.lt_or_ge n b with hn | hn
    · rw [Nat.toDigits_of_lt_base hm, Nat.toDigits_of_lt_base hn] at h
      exact hdigit hm hn h
    · rw [Nat.toDigits_of_lt_base hm, Nat.toDigits_of_base_le hb hn] at h
      exact absurd (List.append_eq_singleton_iff.1 h.symm) (by simp)
    · rw [Nat.toDigits_of_lt_base hn, Nat.toDigits_of_base_le hb hm] at h
      exact absurd (List.append_eq_singleton_iff.1 h) (by simp)
    · rw [Nat.toDigits_of_base_le hb hm, Nat.toDigits_of_base_le hb hn] at h
      obtain ⟨hinit, hlast⟩ := List.append_inj' h rfl
      have hdiv := ih (m / b) (Nat.div_lt_self (by omega) hb) hinit
      have hmod := hdigit (Nat.mod_lt m (by omega)) (Nat.mod_lt n (by omega)) hlast
      rw [← Nat.div_add_mod m b, ← Nat.div_add_mod n b, hdiv, hmod]

theorem hexCode_inj {c d : Char} (h : hexCode c = hexCode d) : c = d :=
  Char.toNat_inj.1 (toDigits_inj (by decide) (by decide) h)

/-- No digit is a closing brace. -/
theorem ne_brace_of_mem_hexCode {c d : Char} (h : d ∈ hexCode c) : d ≠ '\x7d' := by
  rw [hexCode] at h
  generalize c.toNat = n at h
  induction n using Nat.strongRecOn with
  | ind n ih =>
    rcases Nat.lt_or_ge n 16 with hn | hn
    · rw [Nat.toDigits_of_lt_base hn, List.mem_singleton] at h
      exact h ▸ Nat.digitChar_ne _ (by decide)
    · rw [Nat.toDigits_of_base_le (by decide) hn, List.mem_append, List.mem_singleton] at h
      rcases h with h | h
      · exact ih _ (Nat.div_lt_self (by omega) (by decide)) h
      · exact h ▸ Nat.digitChar_ne _ (by decide)

/-- The characters with a short escape, and the letter that stands for each. -/
def shortEscapes : List (Char × Char) :=
  [('\x00', '0'), ('\t', 't'), ('\n', 'n'), ('\r', 'r'), ('"', '"'), ('\\', '\\')]

/-- The ways in which a character is written inside quotes. -/
inductive Escaped (c : Char) : List Char → Prop where
  | itself (hquote : c ≠ '"') (hescape : c ≠ '\\') : Escaped c [c]
  | short {letter : Char} (h : (c, letter) ∈ shortEscapes) : Escaped c ['\\', letter]
  | code : Escaped c ('\\' :: 'u' :: '\x7b' :: (hexCode c ++ ['\x7d']))

theorem escaped_escapeChar (plain : Char → Bool) (c : Char) : Escaped c (escapeChar plain c) := by
  unfold escapeChar
  split_ifs with hnull htab hfeed hreturn hquote hescape
  · exact .short (by simp [hnull, shortEscapes])
  · exact .short (by simp [htab, shortEscapes])
  · exact .short (by simp [hfeed, shortEscapes])
  · exact .short (by simp [hreturn, shortEscapes])
  · exact .short (by simp [hquote, shortEscapes])
  · exact .short (by simp [hescape, shortEscapes])
  · exact .itself hquote hescape
  · exact .code

theorem Escaped.ne_quote {c : Char} {w : List Char} (h : Escaped c w) (r s : List Char) :
    '"' :: r ≠ w ++ s := by
  cases h with
  | itself hquote _ => exact fun heq => hquote (List.cons.inj heq).1.symm
  | short _ | code => exact fun heq => absurd (List.cons.inj heq).1 (by decide)

theorem shortEscapes_inj : ∀ p ∈ shortEscapes, ∀ q ∈ shortEscapes, p.2 = q.2 → p.1 = q.1 := by
  simp [shortEscapes]

theorem shortEscapes_ne : ∀ p ∈ shortEscapes, p.2 ≠ 'u' := by
  simp [shortEscapes]

/-- A character can be read off any text that starts with it in one of these ways. -/
theorem Escaped.append_inj {c d : Char} {v w r s : List Char} (hc : Escaped c v) (hd : Escaped d w)
    (h : v ++ r = w ++ s) : c = d ∧ r = s := by
  cases hc with
  | itself _ hc =>
    cases hd with
    | itself => exact List.cons.inj h
    | short _ | code => exact absurd (List.cons.inj h).1 hc
  | short hc =>
    cases hd with
    | itself _ hd => exact absurd (List.cons.inj h).1.symm hd
    | short hd =>
      obtain ⟨hletter, hrest⟩ := List.cons.inj (List.cons.inj h).2
      exact ⟨shortEscapes_inj _ hc _ hd hletter, hrest⟩
    | code => exact absurd (List.cons.inj (List.cons.inj h).2).1 (shortEscapes_ne _ hc)
  | code =>
    cases hd with
    | itself _ hd => exact absurd (List.cons.inj h).1.symm hd
    | short hd => exact absurd (List.cons.inj (List.cons.inj h).2).1.symm (shortEscapes_ne _ hd)
    | code =>
      simp only [List.cons_append, List.append_assoc, List.cons.injEq, true_and] at h
      have hdigits (e : Char) : ∀ x ∈ hexCode e, (x != '\x7d') = true := fun x hx =>
        bne_iff_ne.2 (ne_brace_of_mem_hexCode hx)
      obtain ⟨hcode, hrest⟩ := append_inj_of_stopsBefore (hdigits c) (hdigits d)
        (by simp [StopsBefore]) (by simp [StopsBefore]) h
      exact ⟨hexCode_inj hcode, (List.cons.inj hrest).2⟩

/-- **Nothing inside quotes imitates the quote after it.** The two texts may have been written with
different characters taken for plain. -/
theorem escape_append_inj {plain plain' : Char → Bool} {cs ds r s : List Char}
    (h : escape plain cs ++ '"' :: r = escape plain' ds ++ '"' :: s) : cs = ds ∧ r = s := by
  induction cs generalizing ds with
  | nil =>
    cases ds with
    | nil => exact ⟨rfl, (List.cons.inj h).2⟩
    | cons d ds =>
      rw [escape_cons, List.append_assoc] at h
      exact absurd h ((escaped_escapeChar plain' d).ne_quote _ _)
  | cons c cs ih =>
    rw [escape_cons, List.append_assoc] at h
    cases ds with
    | nil => exact absurd h.symm ((escaped_escapeChar plain c).ne_quote _ _)
    | cons d ds =>
      rw [escape_cons, List.append_assoc] at h
      obtain ⟨rfl, hrest⟩ :=
        (escaped_escapeChar plain c).append_inj (escaped_escapeChar plain' d) h
      obtain ⟨rfl, rfl⟩ := ih hrest
      exact ⟨rfl, rfl⟩

end Text

/-! ## Dumps whose names are words -/

namespace Dump

/-- The characters of names and numbers. -/
def isNameChar (c : Char) : Bool :=
  c.isAlphanum || c == '-'

/-- The name has no other characters than those of names and numbers. -/
def IsName (name : String) : Prop :=
  name.toList.all isNameChar = true

instance (name : String) : Decidable (IsName name) :=
  inferInstanceAs (Decidable (_ = true))

theorem isName_iff {name : String} : IsName name ↔ ∀ c ∈ name.toList, isNameChar c = true :=
  List.all_eq_true

/-- All names in the dump are names, and its bare words are names or numbers. -/
inductive WellNamed : Dump → Prop where
  | word {text : String} (htext : IsName text) : WellNamed (word text)
  | string (content : String) : WellNamed (string content)
  | node {name : String} {items : List Dump} (hname : IsName name)
      (hitems : ∀ d ∈ items, WellNamed d) : WellNamed (node name items)
  | record {name : String} {fs : List (String × Dump)} {complete : Bool} (hname : IsName name)
      (hnames : ∀ f ∈ fs, IsName f.1) (hfields : ∀ f ∈ fs, WellNamed f.2) :
      WellNamed (record name fs complete)
  | list {items : List Dump} (hitems : ∀ d ∈ items, WellNamed d) : WellNamed (list items)

/-! ## The parts of a dump -/

/-- The word with which a dump starts. -/
def head : Dump → String
  | word text => text
  | node name _ | record name _ _ => name
  | string _ | list _ => ""

/-- How the lines of the fields are ended. -/
def ending (n : Nat) : Bool → String
  | true => margin n ++ "\x7d"
  | false => margin (n + 1) ++ "..\n" ++ margin n ++ "\x7d"

/-- What comes after the word. -/
def body (plain : Char → Bool) (n : Nat) : Dump → String
  | word _ => ""
  | string content => Text.quote plain content
  | node _ items => "(\n" ++ (indentedItems plain (n + 1) items ++ (margin n ++ ")"))
  | record _ fs complete => " \x7b\n" ++ (indentedFields plain (n + 1) fs ++ ending n complete)
  | list [] => "[]"
  | list (d :: ds) => "[\n" ++ (indentedItems plain (n + 1) (d :: ds) ++ (margin n ++ "]"))

theorem indentedAt_eq (plain : Char → Bool) (n : Nat) (d : Dump) :
    indentedAt plain n d = d.head ++ d.body plain n := by
  cases d with
  | word text => simp [indentedAt, head, body]
  | string content => simp [indentedAt, head, body]
  | node name items => simp [indentedAt, head, body, String.append_assoc]
  | record name fs complete =>
    cases complete <;> simp [indentedAt, head, body, ending, String.append_assoc]
  | list items => cases items <;> simp [indentedAt, head, body, String.append_assoc]

theorem WellNamed.head {d : Dump} (h : d.WellNamed) : IsName d.head := by
  cases h with
  | word hname | node hname _ | record hname _ _ => exact hname
  | string | list => rfl

/-- The text goes on with a comma or not at all. -/
def EndsItem (r : List Char) : Prop :=
  ∀ c ∈ r.head?, c = ','

/-- The character after the word, which tells what kind of dump it is; none follows a bare word. -/
def mark : Dump → Option Char
  | word _ => none
  | string _ => some '"'
  | node _ _ => some '('
  | record _ _ _ => some ' '
  | list _ => some '['

theorem head?_body {plain : Char → Bool} {n : Nat} (d : Dump) (r : List Char) :
    ((d.body plain n).toList ++ r).head? = d.mark.or r.head? := by
  cases d with
  | word text => rfl
  | string content => simp [body, mark, Text.quote]
  | node name items => simp [body, mark]
  | record name fs complete => simp [body, mark]
  | list items => cases items <;> simp [body, mark]

theorem stopsBefore_body {plain : Char → Bool} {n : Nat} {d : Dump} {r : List Char}
    (hr : EndsItem r) : StopsBefore isNameChar ((d.body plain n).toList ++ r) := by
  intro c hc
  rw [head?_body] at hc
  cases d with
  | word text => exact hr c hc ▸ rfl
  | string _ | node _ _ | record _ _ _ | list _ => exact Option.some.inj hc ▸ rfl

theorem mark_eq_filter {plain : Char → Bool} {n : Nat} (d : Dump) {r : List Char}
    (hr : EndsItem r) : d.mark = ((d.body plain n).toList ++ r).head?.filter (· != ',') := by
  rw [head?_body]
  cases d with
  | word text => exact (Option.filter_eq_none_iff.2 fun c hc => by simp [hr c hc]).symm
  | string _ | node _ _ | record _ _ _ | list _ => rfl

/-- A dump is cut into its word and what comes after it in one way only. -/
theorem head_body_inj {plain plain' : Char → Bool} {n : Nat} {d e : Dump} {r s : List Char}
    (hd : d.WellNamed) (he : e.WellNamed) (hr : EndsItem r) (hs : EndsItem s)
    (h : (indentedAt plain n d).toList ++ r = (indentedAt plain' n e).toList ++ s) :
    d.head = e.head ∧ d.mark = e.mark ∧
      (d.body plain n).toList ++ r = (e.body plain' n).toList ++ s := by
  rw [indentedAt_eq, indentedAt_eq, String.toList_append, String.toList_append, List.append_assoc,
    List.append_assoc] at h
  obtain ⟨hhead, hbody⟩ := append_inj_of_stopsBefore (isName_iff.1 hd.head)
    (isName_iff.1 he.head) (stopsBefore_body hr) (stopsBefore_body hs) h
  refine ⟨String.toList_inj.1 hhead, ?_, hbody⟩
  rw [mark_eq_filter d hr, hbody, ← mark_eq_filter e hs]

/-! ## Lines -/

theorem toList_margin_succ (n : Nat) :
    (margin (n + 1)).toList = (margin n).toList ++ [' ', ' ', ' ', ' '] := by
  simp [margin, Nat.mul_add, List.replicate_add]

/-- The line that closes the items of a level is not one of the items. -/
theorem closing_ne_item {n : Nat} {closer : Char} (hcloser : closer ≠ ' ') (r s : List Char) :
    (margin n).toList ++ closer :: r ≠ (margin (n + 1)).toList ++ s := by
  rw [toList_margin_succ, List.append_assoc]
  intro h
  exact hcloser (List.cons.inj (List.append_cancel_left h)).1

theorem ending_ne_field {n : Nat} {complete : Bool} {name : String} (hname : IsName name)
    (r s : List Char) :
    (ending n complete).toList ++ r ≠ (margin (n + 1)).toList ++ (name.toList ++ ':' :: s) := by
  cases complete with
  | true =>
    rw [ending, String.toList_append, List.append_assoc]
    exact closing_ne_item (by decide) _ _
  | false =>
    simp only [ending, String.toList_append, List.append_assoc]
    intro h
    have hdots := List.append_cancel_left h
    -- Neither a name nor the colon after it starts with a dot.
    cases hlist : name.toList with
    | nil =>
      rw [hlist] at hdots
      exact absurd (List.cons.inj hdots).1 (by decide)
    | cons c cs =>
      have hc := isName_iff.1 hname c (by simp [hlist])
      rw [hlist] at hdots
      rw [← (List.cons.inj hdots).1] at hc
      exact absurd hc (by decide)

theorem ending_inj {n : Nat} {complete complete' : Bool} {r s : List Char}
    (h : (ending n complete).toList ++ r = (ending n complete').toList ++ s) :
    complete = complete' ∧ r = s := by
  cases complete <;> cases complete'
  · exact ⟨rfl, List.append_cancel_left h⟩
  · simp only [ending, String.toList_append, List.append_assoc] at h
    exact absurd h.symm (closing_ne_item (by decide) _ _)
  · simp only [ending, String.toList_append, List.append_assoc] at h
    exact absurd h (closing_ne_item (by decide) _ _)
  · exact ⟨rfl, List.append_cancel_left h⟩

theorem endsItem_comma (r : List Char) : EndsItem (',' :: r) :=
  fun _ hc => (Option.some.inj hc).symm

theorem indentedItems_nil_append (plain : Char → Bool) (n : Nat) (r : List Char) :
    (indentedItems plain n []).toList ++ r = r := rfl

theorem indentedItems_cons_append (plain : Char → Bool) (n : Nat) (d : Dump) (ds : List Dump)
    (r : List Char) : (indentedItems plain n (d :: ds)).toList ++ r = (margin n).toList ++
      ((indentedAt plain n d).toList ++
        ',' :: '\n' :: ((indentedItems plain n ds).toList ++ r)) := by
  simp [indentedItems]

theorem indentedFields_nil_append (plain : Char → Bool) (n : Nat) (r : List Char) :
    (indentedFields plain n []).toList ++ r = r := rfl

theorem indentedFields_cons_append (plain : Char → Bool) (n : Nat) (f : String × Dump)
    (fs : List (String × Dump)) (r : List Char) :
    (indentedFields plain n (f :: fs)).toList ++ r = (margin n).toList ++
      (f.1.toList ++ ':' :: ' ' :: ((indentedAt plain n f.2).toList ++
        ',' :: '\n' :: ((indentedFields plain n fs).toList ++ r))) := by
  simp [indentedFields]

section Reading

variable (plain plain' : Char → Bool)

/-- The dump can be read off any text that starts with it. -/
def Readable (d : Dump) : Prop :=
  ∀ (e : Dump) (n : Nat) (r s : List Char), e.WellNamed → EndsItem r → EndsItem s →
    (indentedAt plain n d).toList ++ r = (indentedAt plain' n e).toList ++ s → d = e ∧ r = s

variable {plain plain'} {n : Nat} {r s : List Char}

theorem indentedItems_append_inj {ds es : List Dump} {closer : Char}
    (hds : ∀ d ∈ ds, Readable plain plain' d) (hes : ∀ e ∈ es, WellNamed e) (hcloser : closer ≠ ' ')
    (h : (indentedItems plain (n + 1) ds).toList ++ ((margin n).toList ++ closer :: r) =
      (indentedItems plain' (n + 1) es).toList ++ ((margin n).toList ++ closer :: s)) :
    ds = es ∧ r = s := by
  induction ds generalizing es with
  | nil =>
    rw [indentedItems_nil_append] at h
    cases es with
    | nil =>
      rw [indentedItems_nil_append] at h
      exact ⟨rfl, (List.cons.inj (List.append_cancel_left h)).2⟩
    | cons e es =>
      rw [indentedItems_cons_append] at h
      exact absurd h (closing_ne_item hcloser _ _)
  | cons d ds ih =>
    rw [indentedItems_cons_append] at h
    cases es with
    | nil =>
      rw [indentedItems_nil_append] at h
      exact absurd h.symm (closing_ne_item hcloser _ _)
    | cons e es =>
      rw [indentedItems_cons_append] at h
      obtain ⟨hd, hds⟩ := List.forall_mem_cons.1 hds
      obtain ⟨he, hmore⟩ := List.forall_mem_cons.1 hes
      obtain ⟨rfl, hrest⟩ := hd e _ _ _ he (endsItem_comma _) (endsItem_comma _)
        (List.append_cancel_left h)
      obtain ⟨rfl, rfl⟩ := ih hds hmore (List.cons.inj (List.cons.inj hrest).2).2
      exact ⟨rfl, rfl⟩

theorem indentedFields_append_inj {fs gs : List (String × Dump)} {complete complete' : Bool}
    (hnames : ∀ f ∈ fs, IsName f.1) (hfs : ∀ f ∈ fs, Readable plain plain' f.2)
    (hnames' : ∀ g ∈ gs, IsName g.1) (hgs : ∀ g ∈ gs, WellNamed g.2)
    (h : (indentedFields plain (n + 1) fs).toList ++ ((ending n complete).toList ++ r) =
      (indentedFields plain' (n + 1) gs).toList ++ ((ending n complete').toList ++ s)) :
    fs = gs ∧ complete = complete' ∧ r = s := by
  induction fs generalizing gs with
  | nil =>
    rw [indentedFields_nil_append] at h
    cases gs with
    | nil => exact ⟨rfl, ending_inj h⟩
    | cons g gs =>
      rw [indentedFields_cons_append] at h
      exact absurd h (ending_ne_field (List.forall_mem_cons.1 hnames').1 _ _)
  | cons f fs ih =>
    rw [indentedFields_cons_append] at h
    obtain ⟨hname, hnames⟩ := List.forall_mem_cons.1 hnames
    cases gs with
    | nil =>
      rw [indentedFields_nil_append] at h
      exact absurd h.symm (ending_ne_field hname _ _)
    | cons g gs =>
      rw [indentedFields_cons_append] at h
      obtain ⟨hname', hnames'⟩ := List.forall_mem_cons.1 hnames'
      obtain ⟨hf, hfs⟩ := List.forall_mem_cons.1 hfs
      obtain ⟨hg, hgs⟩ := List.forall_mem_cons.1 hgs
      obtain ⟨hlabel, hvalue⟩ := append_inj_of_stopsBefore (isName_iff.1 hname)
        (isName_iff.1 hname') (by simp [StopsBefore, isNameChar])
        (by simp [StopsBefore, isNameChar]) (List.append_cancel_left h)
      obtain ⟨hdump, hrest⟩ := hf g.2 _ _ _ hg (endsItem_comma _) (endsItem_comma _)
        (List.cons.inj (List.cons.inj hvalue).2).2
      obtain ⟨rfl, hend⟩ := ih hnames hfs hnames' hgs (List.cons.inj (List.cons.inj hrest).2).2
      exact ⟨congrArg (· :: fs) (Prod.ext (String.toList_inj.1 hlabel) hdump), hend⟩

/-- It is enough to compare dumps with the same word and the same character after it. -/
theorem WellNamed.readable_of_body {d : Dump} (hd : d.WellNamed)
    (h : ∀ (e : Dump) (n : Nat) (r s : List Char), e.WellNamed → d.head = e.head →
      d.mark = e.mark → (d.body plain n).toList ++ r = (e.body plain' n).toList ++ s →
        d = e ∧ r = s) : Readable plain plain' d := by
  intro e n r s he hr hs heq
  obtain ⟨hhead, hmark, hbody⟩ := head_body_inj hd he hr hs heq
  exact h e n r s he hhead hmark hbody

/-- **A dump can be read off any text that starts with it.** -/
theorem WellNamed.readable {d : Dump} (hd : d.WellNamed) : Readable plain plain' d := by
  induction hd with
  | word htext =>
    refine readable_of_body (.word htext) fun e n r s he hhead hmark hbody => ?_
    cases he with
    | word => exact ⟨congrArg _ hhead, hbody⟩
    | string | node | record | list => cases hmark
  | string content =>
    refine readable_of_body (.string content) fun e n r s he hhead hmark hbody => ?_
    cases he with
    | string content' =>
      simp only [body, Text.quote, String.toList_append, List.append_assoc, String.toList_ofList]
        at hbody
      obtain ⟨hcontent, rfl⟩ := Text.escape_append_inj (List.append_cancel_left hbody)
      exact ⟨congrArg _ (String.toList_inj.1 hcontent), rfl⟩
    | word | node | record | list => cases hmark
  | node hname hitems ih =>
    refine readable_of_body (.node hname hitems) fun e n r s he hhead hmark hbody => ?_
    cases he with
    | node hname' hitems' =>
      simp only [body, String.toList_append, List.append_assoc] at hbody
      obtain ⟨rfl, rfl⟩ := indentedItems_append_inj ih hitems' (by decide)
        (List.append_cancel_left hbody)
      exact ⟨congrArg (Dump.node · _) hhead, rfl⟩
    | word | string | record | list => cases hmark
  | record hname hnames hfields ih =>
    refine readable_of_body (.record hname hnames hfields) fun e n r s he hhead hmark hbody => ?_
    cases he with
    | record hname' hnames' hfields' =>
      simp only [body, String.toList_append, List.append_assoc] at hbody
      obtain ⟨rfl, rfl, rfl⟩ := indentedFields_append_inj hnames ih hnames' hfields'
        (List.append_cancel_left hbody)
      exact ⟨congrArg (Dump.record · _ _) hhead, rfl⟩
    | word | string | node | list => cases hmark
  | @list items hitems ih =>
    refine readable_of_body (.list hitems) fun e n r s he hhead hmark hbody => ?_
    cases he with
    | @list items' hitems' =>
      -- An empty list has no lines.
      cases items with
      | nil =>
        cases items' with
        | nil => exact ⟨rfl, List.append_cancel_left hbody⟩
        | cons e es => simp [body] at hbody
      | cons d ds =>
        cases items' with
        | nil => simp [body] at hbody
        | cons e es =>
          simp only [body, String.toList_append, List.append_assoc] at hbody
          obtain ⟨heq, rfl⟩ := indentedItems_append_inj ih hitems' (by decide)
            (List.append_cancel_left hbody)
          exact ⟨congrArg _ heq, rfl⟩
    | word | string | node | record => cases hmark

/-- Different dumps have different texts. -/
theorem WellNamed.indented_inj {d e : Dump} (hd : d.WellNamed) (he : e.WellNamed)
    (h : d.indented plain = e.indented plain') : d = e :=
  (hd.readable e 0 [] [] he (fun _ hc => nomatch hc) (fun _ hc => nomatch hc)
    (congrArg (String.toList · ++ []) h)).1

end Reading

end Dump

/-! ## The dumps of trees -/

namespace Dump

/-- The fields have names for names, and in their dumps all names are names. -/
def FieldsNamed (fs : List (String × Dump)) : Prop :=
  ∀ f ∈ fs, IsName f.1 ∧ f.2.WellNamed

theorem FieldsNamed.nil : FieldsNamed [] :=
  List.forall_mem_nil _

theorem FieldsNamed.cons {name : String} {d : Dump} {fs : List (String × Dump)}
    (hname : IsName name) (hd : d.WellNamed) (hfs : FieldsNamed fs) :
    FieldsNamed ((name, d) :: fs) :=
  List.forall_mem_cons.2 ⟨⟨hname, hd⟩, hfs⟩

theorem WellNamed.fields {name : String} {fs : List (String × Dump)} (hname : IsName name)
    (hfs : FieldsNamed fs) : (Dump.fields name fs).WellNamed :=
  .record hname (fun f hf => (hfs f hf).1) (fun f hf => (hfs f hf).2)

theorem WellNamed.single {name : String} {d : Dump} (hname : IsName name) (hd : d.WellNamed) :
    (Dump.node name [d]).WellNamed :=
  .node hname (List.forall_mem_singleton.2 hd)

theorem WellNamed.identifier (name : String) : (Dump.identifier name).WellNamed :=
  .fields (by decide) (.cons (by decide) (.string name) .nil)

theorem WellNamed.block {statements : List Dump} (h : ∀ d ∈ statements, WellNamed d) :
    (Dump.block statements).WellNamed :=
  .fields (by decide) (.cons (by decide) (.list h) .nil)

theorem isName_repr (n : Nat) : IsName n.repr := by
  refine isName_iff.2 fun c hc => ?_
  rw [Nat.toList_repr] at hc
  have hdigit := Nat.isDigit_of_mem_toDigits (by decide) (by decide) hc
  simp [isNameChar, Char.isAlphanum, hdigit]

theorem isName_showInt64 (n : Int64) : IsName (Text.showInt64 n) := by
  unfold Text.showInt64
  cases n.toInt with
  | ofNat m => exact isName_repr m
  | negSucc m =>
    rw [Int.repr, IsName, String.toList_append, List.all_append]
    exact Bool.and_eq_true_iff.2 ⟨rfl, isName_repr (m + 1)⟩

end Dump

section Trees

open Dump

theorem UnaryOp.isName_name (op : UnaryOp) : IsName op.name := by
  cases op <;> decide

theorem BinaryOp.isName_name (op : BinaryOp) : IsName op.name := by
  cases op <;> decide

mutual

theorem Expr.wellNamed_dump : ∀ e : Expr, e.dump.WellNamed
  | .ident name => .single (by decide) (.identifier name)
  | .int value => .single (by decide) (.word (isName_showInt64 value))
  | .str content => .single (by decide) (.string content)
  | .bool true => .single (by decide) (.word (by decide))
  | .bool false => .single (by decide) (.word (by decide))
  | .unary op operand =>
    .fields (by decide) (.cons (by decide) (.word op.isName_name)
      (.cons (by decide) operand.wellNamed_dump .nil))
  | .binary op lhs rhs =>
    .fields (by decide) (.cons (by decide) (.word op.isName_name)
      (.cons (by decide) lhs.wellNamed_dump (.cons (by decide) rhs.wellNamed_dump .nil)))
  | .cond test consequence alternative =>
    .fields (by decide) (.cons (by decide) test.wellNamed_dump
      (.cons (by decide) (.block (Stmt.wellNamed_dumpAll consequence))
        (.cons (by decide) (Stmt.wellNamed_dumpElse alternative) .nil)))
  | .fn params body =>
    .fields (by decide) (.cons (by decide) (.list (List.forall_mem_map.2 fun x _ => .identifier x))
      (.cons (by decide) (.block (Stmt.wellNamed_dumpAll body)) .nil))
  | .call callee args =>
    .fields (by decide) (.cons (by decide) callee.wellNamed_dump
      (.cons (by decide) (.list (Expr.wellNamed_dumpAll args)) .nil))

theorem Expr.wellNamed_dumpAll : ∀ es : List Expr, ∀ d ∈ Expr.dumpAll es, d.WellNamed
  | [] => List.forall_mem_nil _
  | e :: es => List.forall_mem_cons.2 ⟨e.wellNamed_dump, Expr.wellNamed_dumpAll es⟩

theorem Stmt.wellNamed_dump : ∀ s : Stmt, s.dump.WellNamed
  | .bind name value =>
    .fields (by decide) (.cons (by decide) (.identifier name)
      (.cons (by decide) value.wellNamed_dump .nil))
  | .ret value => .single (by decide) value.wellNamed_dump
  | .expr value => .single (by decide) value.wellNamed_dump
  | .block body => .single (by decide) (.block (Stmt.wellNamed_dumpAll body))

theorem Stmt.wellNamed_dumpAll : ∀ ss : List Stmt, ∀ d ∈ Stmt.dumpAll ss, d.WellNamed
  | [] => List.forall_mem_nil _
  | s :: ss => List.forall_mem_cons.2 ⟨s.wellNamed_dump, Stmt.wellNamed_dumpAll ss⟩

theorem Stmt.wellNamed_dumpElse : ∀ body : Option (List Stmt), (Stmt.dumpElse body).WellNamed
  | none => .word (by decide)
  | some body => .single (by decide) (.block (Stmt.wellNamed_dumpAll body))

end

theorem Program.wellNamed_dump (p : Program) : p.dump.WellNamed :=
  .fields (by decide) (.cons (by decide) (.list (Stmt.wellNamed_dumpAll p.statements)) .nil)

theorem repr_ne_minus (m : Nat) (s : String) : m.repr ≠ "-" ++ s := by
  intro h
  have hmem : '-' ∈ m.repr.toList := by simp [h]
  rw [Nat.toList_repr] at hmem
  exact absurd (Nat.isDigit_of_mem_toDigits (by decide) (by decide) hmem) (by decide)

theorem showInt64_inj {m n : Int64} : Text.showInt64 m = Text.showInt64 n ↔ m = n := by
  refine ⟨fun h => Int64.toInt_inj.1 ?_, fun h => h ▸ rfl⟩
  unfold Text.showInt64 at h
  have hdigits {a b : Nat} (hrepr : a.repr = b.repr) : a = b := by
    have hlist : Nat.toDigits 10 a = Nat.toDigits 10 b := by
      rw [← Nat.toList_repr, hrepr, Nat.toList_repr]
    exact Text.toDigits_inj (by decide) (by decide) hlist
  cases hm : m.toInt <;> cases hn : n.toInt <;> rw [hm, hn] at h
  · exact congrArg Int.ofNat (hdigits h)
  · exact absurd h (repr_ne_minus _ _)
  · exact absurd h.symm (repr_ne_minus _ _)
  · exact congrArg Int.negSucc (Nat.succ.inj (hdigits ((String.append_right_inj "-").1 h)))

theorem UnaryOp.name_inj {o p : UnaryOp} : o.name = p.name ↔ o = p := by
  cases o <;> cases p <;> decide

theorem BinaryOp.name_inj {o p : BinaryOp} : o.name = p.name ↔ o = p := by
  cases o <;> cases p <;> decide

theorem Dump.identifier_inj {x y : String} : Dump.identifier x = Dump.identifier y ↔ x = y := by
  simp [Dump.identifier, Dump.fields]

theorem Dump.map_identifier_inj {xs ys : List String} :
    xs.map Dump.identifier = ys.map Dump.identifier ↔ xs = ys :=
  List.map_inj_right fun _ _ => identifier_inj.1

theorem Dump.block_inj {ds es : List Dump} : Dump.block ds = Dump.block es ↔ ds = es := by
  simp [Dump.block, Dump.fields]

theorem Expr.dump_bool (value : Bool) :
    (Expr.bool value).dump =
      .node "BooleanLiteral" [.word (if value then "true" else "false")] := by
  cases value <;> rfl

mutual

theorem Expr.dump_inj : ∀ a b : Expr, a.dump = b.dump ↔ a = b
  | .ident _, b => by cases b <;> simp [Expr.dump, Expr.dump_bool, Dump.fields, identifier_inj]
  | .int _, b => by cases b <;> simp [Expr.dump, Expr.dump_bool, Dump.fields, showInt64_inj]
  | .str _, b => by cases b <;> simp [Expr.dump, Expr.dump_bool, Dump.fields]
  | .bool a, b => by cases a <;> cases b <;> simp [Expr.dump, Expr.dump_bool, Dump.fields]
  | .unary _ a, b => by
    cases b <;> simp [Expr.dump, Expr.dump_bool, Dump.fields, UnaryOp.name_inj, Expr.dump_inj a]
  | .binary _ a a', b => by
    cases b <;>
      simp [Expr.dump, Expr.dump_bool, Dump.fields, BinaryOp.name_inj, Expr.dump_inj a,
        Expr.dump_inj a']
  | .cond a s o, b => by
    cases b <;>
      simp [Expr.dump, Expr.dump_bool, Dump.fields, block_inj, Expr.dump_inj a, Stmt.dumpAll_inj s,
        Stmt.dumpElse_inj o]
  | .fn _ s, b => by
    cases b <;>
      simp [Expr.dump, Expr.dump_bool, Dump.fields, block_inj, map_identifier_inj,
        Stmt.dumpAll_inj s]
  | .call a as, b => by
    cases b <;>
      simp [Expr.dump, Expr.dump_bool, Dump.fields, Expr.dump_inj a, Expr.dumpAll_inj as]

theorem Expr.dumpAll_inj : ∀ as bs : List Expr, Expr.dumpAll as = Expr.dumpAll bs ↔ as = bs
  | [], bs => by cases bs <;> simp [Expr.dumpAll]
  | a :: as, bs => by cases bs <;> simp [Expr.dumpAll, Expr.dump_inj a, Expr.dumpAll_inj as]

theorem Stmt.dump_inj : ∀ a b : Stmt, a.dump = b.dump ↔ a = b
  | .bind _ e, b => by
    cases b <;> simp [Stmt.dump, Dump.fields, identifier_inj, Expr.dump_inj e]
  | .ret e, b => by cases b <;> simp [Stmt.dump, Dump.fields, Expr.dump_inj e]
  | .expr e, b => by cases b <;> simp [Stmt.dump, Dump.fields, Expr.dump_inj e]
  | .block s, b => by cases b <;> simp [Stmt.dump, Dump.fields, block_inj, Stmt.dumpAll_inj s]

theorem Stmt.dumpAll_inj : ∀ as bs : List Stmt, Stmt.dumpAll as = Stmt.dumpAll bs ↔ as = bs
  | [], bs => by cases bs <;> simp [Stmt.dumpAll]
  | a :: as, bs => by cases bs <;> simp [Stmt.dumpAll, Stmt.dump_inj a, Stmt.dumpAll_inj as]

theorem Stmt.dumpElse_inj :
    ∀ a b : Option (List Stmt), Stmt.dumpElse a = Stmt.dumpElse b ↔ a = b
  | none, b => by cases b <;> simp [Stmt.dumpElse]
  | some s, b => by cases b <;> simp [Stmt.dumpElse, block_inj, Stmt.dumpAll_inj s]

end

/-- Different programs have different dumps. -/
theorem Program.dump_inj {p q : Program} : p.dump = q.dump ↔ p = q := by
  obtain ⟨p⟩ := p
  obtain ⟨q⟩ := q
  simp [Program.dump, Dump.fields, Stmt.dumpAll_inj p q]

/-- **The text of a dump determines the tree,** whichever characters are written as themselves in
strings. -/
theorem Program.indented_dump_inj (plain : Char → Bool) (p q : Program) :
    p.dump.indented plain = q.dump.indented plain ↔ p = q := by
  refine ⟨fun h => ?_, fun h => h ▸ rfl⟩
  exact Program.dump_inj.1 (p.wellNamed_dump.indented_inj q.wellNamed_dump h)

end Trees

end Sprig
