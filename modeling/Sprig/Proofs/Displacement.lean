import Mathlib.Data.List.Forall2
import Sprig.Proofs.ReaderLaw
import Sprig.Token.Lexer

/-!
# Text further on in the source

What is read does not depend on where it stands. Two lists of tokens that say the same, token by
token, give the same trees, and the errors differ only in their spans, which are related as those of
the tokens are (`parallel`). In particular the tokens of a text that is moved by some bytes are the
same but for their spans, which move with it, and so do the errors (`statements_moved`).
-/

namespace Sprig

open Text

/-! ## Streams that say the same -/

/-- The same is wrong at the same places, of which `place` says when they are the same. -/
def SameErrors (place : Span → Span → Prop) : List SyntaxError → List SyntaxError → Prop :=
  List.Forall₂ fun e e' => e.cause = e'.cause ∧ place e.span e'.span

theorem SameErrors.append {place : Span → Span → Prop} {as bs as' bs' : List SyntaxError}
    (h : SameErrors place as bs) (h' : SameErrors place as' bs') :
    SameErrors place (as ++ as') (bs ++ bs') :=
  List.rel_append h h'

/-- Tokens that say the same at places that are the same are read alike. -/
def parallel (place : Span → Span → Prop) {stop stop' : Span} (hstop : place stop stop') :
    ReaderLaw where
  token t u := t.Alike u ∧ place t.span u.span
  stop := stop
  stop' := stop'
  one r r' := SameErrors place r.errors r'.errors
  many r r' := SameErrors place r.errors r'.errors
  respected := {
    alike h := h.1
    token_end := ⟨⟨rfl, fun _ => rfl⟩, hstop⟩
    done _ _ := .nil
    fail _ h := .cons ⟨rfl, h.2⟩ .nil
    within _ _ _ hr := hr
    mapSome _ _ hr := hr
    bind_none hv hv' hr := by
      rw [Reading.bind_of_none hv, Reading.bind_of_none hv']
      exact hr
    bind_some hv hv' hr hf := by
      rw [Reading.bind_of_some hv, Reading.bind_of_some hv']
      exact hr.append hf
    toTerminator hr := hr
    overSemicolon hr := by
      unfold Reading.overSemicolon
      split <;> split <;> exact hr
    block _ hr := hr
    nil _ := .nil
    followedBy _ _ hr hs := hr.append hs }

/-! ## Moving text -/

/-- The second span is as long as the first and starts `n` bytes after it. -/
structure Span.MovedBy (n : Nat) (s s' : Span) : Prop where
  start_eq : s'.start.toNat = s.start.toNat + n
  length_eq : s'.length = s.length

theorem Span.movedBy_ofNat {n start : Nat} (length : Nat) (h : start + n < UInt32.size) :
    Span.MovedBy n (.ofNat start length) (.ofNat (start + n) length) := by
  refine ⟨?_, rfl⟩
  rw [toNat_start_ofNat h, toNat_start_ofNat (Nat.lt_of_le_of_lt (Nat.le_add_right _ _) h)]

/-- The same tokens are read from a text further on, and their spans move with it. -/
theorem readAll_moved {n : Nat} (offset : Nat) (cs : List Char)
    (h : offset + n + byteLength cs < UInt32.size) :
    List.Forall₂ (fun t u => t.Alike u ∧ t.span.MovedBy n u.span) (Token.readAll offset cs)
      (Token.readAll (offset + n) cs) := by
  fun_induction Token.readAll offset cs with
  | case1 offset =>
    rw [Token.readAll]
    exact .nil
  | case2 offset c cs hc ih =>
    rw [byteLength_cons] at h
    rw [Token.readAll, if_pos hc, Nat.add_right_comm]
    exact ih (by omega)
  | case3 offset c cs hc ih =>
    have hlen := congrArg byteLength (Lexeme.written_append_rest c cs)
    rw [byteLength_append] at hlen
    rw [Token.readAll, if_neg hc, Nat.add_right_comm]
    refine .cons ⟨⟨rfl, fun _ => rfl⟩, Span.movedBy_ofNat _ (by omega)⟩ (ih (by omega))

/-- The statements of a text are the same further on, and so is what is wrong with it. -/
theorem statements_moved {n : Nat} {cs : List Char} (h : n + byteLength cs < UInt32.size)
    (inBlock : Bool) :
    (Reader.statements (.ofNat (n + byteLength cs) 0) inBlock (Token.readAll n cs)).value =
        (Reader.statements (.ofNat (byteLength cs) 0) inBlock (Token.readAll 0 cs)).value ∧
      SameErrors (Span.MovedBy n)
        (Reader.statements (.ofNat (byteLength cs) 0) inBlock (Token.readAll 0 cs)).errors
        (Reader.statements (.ofNat (n + byteLength cs) 0) inBlock (Token.readAll n cs)).errors := by
  have hstop : Span.MovedBy n (.ofNat (byteLength cs) 0) (.ofNat (n + byteLength cs) 0) := by
    rw [Nat.add_comm n]
    exact Span.movedBy_ofNat 0 (by omega)
  have htokens := readAll_moved (n := n) 0 cs (by omega)
  rw [Nat.zero_add] at htokens
  have hread := (parallel _ hstop).statements inBlock _ (.of_forall₂ htokens)
  exact ⟨hread.value_eq.symm, hread.law⟩

end Sprig
