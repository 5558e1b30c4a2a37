import Sprig.Proofs.ReaderLaw
import Sprig.Tree.Parsed

/-!
# Accounting for what is left out

Every failure of a reader costs exactly one syntax error: a reading that may fail noticed as many
errors as statements were left out in its blocks, and one more if it failed itself. So the errors of
a program are as many as the statements that it lost, at whatever depth. Each of these statements
started on a token of its own, and so there are no more errors than tokens.
-/

namespace Sprig

/-- How many of the tokens do not stand for the end of the input. -/
def inputCount (ts : List Token) : Nat :=
  ts.countP fun t => t.kind ≠ .eof

section InputCount

variable {ts us : List Token}

theorem inputCount_append (ts us : List Token) :
    inputCount (ts ++ us) = inputCount ts + inputCount us :=
  List.countP_append

theorem inputCount_le (h : us <:+ ts) : inputCount us ≤ inputCount ts :=
  h.sublist.countP_le

theorem inputCount_tail_le (ts : List Token) : inputCount ts.tail ≤ inputCount ts :=
  inputCount_le (List.tail_suffix ts)

theorem inputCount_tail_mono (h : us <:+ ts) : inputCount us.tail ≤ inputCount ts.tail := by
  obtain ⟨passed, rfl⟩ := h
  cases passed with
  | nil => exact Nat.le_refl _
  | cons t passed =>
    exact Nat.le_trans (inputCount_tail_le us) (inputCount_le (List.suffix_append passed us))

theorem inputCount_eq_succ (h : currentKind ts ≠ .eof) :
    inputCount ts = inputCount ts.tail + 1 := by
  match ts with
  | [] => exact absurd rfl h
  | t :: rest =>
    have ht : t.kind ≠ .eof := h
    simp [inputCount, ht]

end InputCount

namespace Reading

variable {α β : Type} {ts us : List Token}

/-- A reading that may fail is accounted for: there is one error for each statement that was left
out on the way and one for the failure, if it failed; and each of these statements took a token of
the input, other than the one on which the reading started. -/
structure Accounted (r : Reading (Option α) ts) : Prop where
  length_errors : r.errors.length = r.dropped + if r.value.isNone then 1 else 0
  dropped_le : r.dropped + inputCount r.rest.tail ≤ inputCount ts.tail

/-- A sequence of statements is accounted for: there is one error for each statement that was left
out, and each of them took a token of the input. -/
structure AllAccounted (r : Reading Block ts) : Prop where
  length_errors : r.errors.length = r.dropped
  dropped_le : r.dropped + inputCount r.rest ≤ inputCount ts

theorem Accounted.candid {r : Reading (Option α) ts} (hr : r.Accounted) : r.Candid := by
  intro hv herrors
  have hlength := hr.length_errors
  simp [hv, herrors] at hlength

theorem Accounted.bind_none {r : Reading (Option α) ts}
    {f : α → (us : List Token) → us.length ≤ ts.length → Reading (Option β) us}
    (hr : r.Accounted) (hv : r.value = none) : (r.bind f).Accounted := by
  obtain ⟨herrors, hdropped⟩ := hr
  rw [hv] at herrors
  rw [bind_of_none hv]
  exact ⟨herrors, hdropped⟩

theorem Accounted.bind_some {r : Reading (Option α) ts} {a : α}
    {f : α → (us : List Token) → us.length ≤ ts.length → Reading (Option β) us}
    (hr : r.Accounted) (hv : r.value = some a)
    (hf : (f a r.rest r.length_rest_le).Accounted) : (r.bind f).Accounted := by
  obtain ⟨herrors, hdropped⟩ := hr
  obtain ⟨herrors', hdropped'⟩ := hf
  rw [hv] at herrors
  rw [bind_of_some hv]
  constructor
  · simp only [List.length_append, herrors, herrors']
    exact (Nat.add_assoc _ _ _).symm
  · simp only
    omega

theorem Accounted.overSemicolon {r : Reading (Option α) ts} (hr : r.Accounted) :
    r.overSemicolon.Accounted := by
  unfold Reading.overSemicolon
  split
  · exact ⟨hr.length_errors,
      Nat.le_trans (Nat.add_le_add_left (inputCount_tail_le _) _) hr.dropped_le⟩
  · exact hr

theorem AllAccounted.followedBy {r : Reading (Option Stmt) ts} {s : Reading Block r.rest.tail}
    (hts : currentKind ts ≠ .eof) (hr : r.Accounted) (hs : s.AllAccounted) :
    (r.followedBy s).AllAccounted := by
  obtain ⟨herrors, hdropped⟩ := hr
  obtain ⟨herrors', hdropped'⟩ := hs
  constructor
  · simp only [Reading.followedBy, List.length_append, herrors, herrors']
  · have hcount := inputCount_eq_succ hts
    simp only [Reading.followedBy]
    split <;> omega

end Reading

/-- Readings are accounted for, and those of blocks too. -/
def accounting (stop : Span) : ReaderLaw where
  token := Eq
  stop := stop
  stop' := stop
  one r _ := r.Accounted
  many r _ := r.AllAccounted
  respected := {
    alike h := h ▸ ⟨rfl, fun _ => rfl⟩
    token_end := rfl
    done _ _ := ⟨rfl, Nat.le_of_eq (Nat.zero_add _)⟩
    fail _ _ := ⟨rfl, Nat.le_of_eq (Nat.zero_add _)⟩
    within h _ _ hr := ⟨hr.length_errors, Nat.le_trans hr.dropped_le (inputCount_tail_mono h)⟩
    mapSome f _ hr := by
      refine ⟨?_, hr.dropped_le⟩
      show _ = _ + if (Option.map f _).isNone then 1 else 0
      rw [Option.isNone_map]
      exact hr.length_errors
    bind_none hv _ hr := hr.bind_none hv
    bind_some hv _ hr hf := hr.bind_some hv hf
    toTerminator hr := ⟨hr.length_errors, Nat.le_trans
      (Nat.add_le_add_left (inputCount_tail_mono (List.dropWhile_suffix _)) _) hr.dropped_le⟩
    overSemicolon hr := hr.overSemicolon
    block _ hr := ⟨hr.length_errors,
      Nat.le_trans (Nat.add_le_add_left (inputCount_tail_le _) _) hr.dropped_le⟩
    nil _ := ⟨rfl, Nat.le_of_eq (Nat.zero_add _)⟩
    followedBy hts _ hr hs := hs.followedBy hts hr }

namespace Reader

variable (stop : Span) (ts : List Token)

theorem tokens_accounting : (accounting stop).Tokens ts ts :=
  fun _ => rfl

theorem expression_accounted (p : Precedence) : (expression stop p ts).Accounted :=
  ((accounting stop).expression p ts (tokens_accounting stop ts)).law

theorem statement_accounted : (statement stop ts).Accounted :=
  ((accounting stop).statement ts (tokens_accounting stop ts)).law

theorem statements_accounted (inBlock : Bool) : (statements stop inBlock ts).AllAccounted :=
  ((accounting stop).statements inBlock ts (tokens_accounting stop ts)).law

/-- The tokens that a sequence of statements passes over are at least as many as the statements that
it leaves out. -/
theorem dropped_le_passed (inBlock : Bool) : ∃ passed,
    ts = passed ++ (statements stop inBlock ts).rest ∧
      (statements stop inBlock ts).dropped ≤ inputCount passed := by
  obtain ⟨passed, hpassed⟩ := (statements stop inBlock ts).isSuffix
  have hle := (statements_accounted stop ts inBlock).dropped_le
  have hcount := congrArg inputCount hpassed
  rw [inputCount_append] at hcount
  exact ⟨passed, hpassed.symm, by omega⟩

end Reader

/-- **Every statement that is left out is accounted for by exactly one syntax error.** For any
stream of tokens there are as many errors as statements that could not be read, at any depth, so
without errors no statement is lost, and there are no more errors than tokens passed on the way to
the end. A reader in the middle of its tokens keeps the errors it has: reading a program appends one
for each statement left out; reading an expression appends those of the statements in its blocks,
and one more exactly if it fails. -/
theorem errors_account_for_dropped (s : TokenStream) (r : Reader) (p : Precedence) :
    (Parsed.ofStream s).errors.length = (Parsed.ofStream s).dropped ∧
      ((Parsed.ofStream s).errors = [] ↔ (Parsed.ofStream s).dropped = 0) ∧
      (∃ passed, s.tokens = passed ++ (Reader.ofStream s).readProgram.2.tokens ∧
        (Parsed.ofStream s).errors.length ≤ passed.countP fun t => t.kind ≠ .eof) ∧
      (∃ new, r.readProgram.2.errors = r.errors ++ new ∧
        new.length = (Reader.statements r.stop false r.tokens).dropped) ∧
      ∃ new, (r.readExpression p).2.errors = r.errors ++ new ∧
        new.length = (Reader.expression r.stop p r.tokens).dropped +
          if (r.readExpression p).1.isNone then 1 else 0 := by
  have hlength : (Parsed.ofStream s).errors.length = (Parsed.ofStream s).dropped :=
    (Reader.statements_accounted s.endSpan s.tokens false).length_errors
  refine ⟨hlength, ?_, ?_, ?_, ?_⟩
  · rw [← hlength, List.length_eq_zero_iff]
  · obtain ⟨passed, hpassed, hle⟩ := Reader.dropped_le_passed s.endSpan s.tokens false
    exact ⟨passed, hpassed, Nat.le_trans (Nat.le_of_eq hlength) hle⟩
  · exact ⟨_, rfl, (Reader.statements_accounted r.stop r.tokens false).length_errors⟩
  · exact ⟨_, rfl, (Reader.expression_accounted r.stop r.tokens p).length_errors⟩

end Sprig
