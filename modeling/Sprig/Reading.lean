import Sprig.SyntaxError

/-!
# Readings

A reader of tokens stands on a token, its *current* one: it is handed the list of tokens from there
on, and once that list is used up it stands at the end of the input for good. A `Reading` of the
tokens `ts` is what such a reader gives back: a value, the tokens from the one it stands on
afterwards, and the syntax errors it noticed, in the order in which it did. It also keeps count of
the statements it had to leave out and of the blocks that it found no end of. That it never steps
back is part of the type, and is what lets readers call one another recursively.

A reader whose value is an `Option` may fail; it then has noticed an error, and `Reading.bind` skips
what was to be read next.
-/

namespace Sprig

/-- What a reader that starts at `ts` gives back. -/
structure Reading (α : Type) (ts : List Token) where
  value : α
  /-- The tokens from the one on which the reader stands afterwards. -/
  rest : List Token
  /-- The errors noticed on the way. -/
  errors : List SyntaxError
  /-- How many statements could not be read and were left out. -/
  dropped : Nat
  /-- How many blocks ended with the input, for want of a closing brace. -/
  unclosed : Nat
  /-- The reader stands where it started or further on. -/
  isSuffix : rest <:+ ts

namespace Reading

variable {α β : Type} {ts us : List Token}

theorem length_rest_le (r : Reading α ts) : r.rest.length ≤ ts.length :=
  r.isSuffix.length_le

/-- Gives back a value and stays in place. -/
def done (a : α) : Reading α ts :=
  ⟨a, ts, [], 0, 0, List.suffix_refl ts⟩

/-- Notices an error and stays in place. -/
def fail (cause : SyntaxError.Cause) (span : Span) : Reading (Option α) ts :=
  ⟨none, ts, [⟨cause, span⟩], 0, 0, List.suffix_refl ts⟩

/-- A reading that starts further on, as a reading from here. -/
def within (h : us <:+ ts) (r : Reading α us) : Reading α ts :=
  { r with isSuffix := r.isSuffix.trans h }

/-- A reading of the tokens after the current one, as a reading from here. -/
def afterCurrent (r : Reading α ts.tail) : Reading α ts :=
  r.within (List.tail_suffix ts)

/-- Changes the value. -/
def map (f : α → β) (r : Reading α ts) : Reading β ts :=
  { r with value := f r.value }

/-- Changes what was read, if the reader did not fail. -/
def mapSome (f : α → β) (r : Reading (Option α) ts) : Reading (Option β) ts :=
  r.map (Option.map f)

/-- Goes on reading with what was read, from the token on which the first reader stands. -/
def andThen (r : Reading α ts) (f : α → (us : List Token) → us.length ≤ ts.length → Reading β us) :
    Reading β ts :=
  let s := f r.value r.rest r.length_rest_le
  ⟨s.value, s.rest, r.errors ++ s.errors, r.dropped + s.dropped, r.unclosed + s.unclosed,
    s.isSuffix.trans r.isSuffix⟩

/-- Goes on reading if the first reader did not fail. -/
def bind (r : Reading (Option α) ts)
    (f : α → (us : List Token) → us.length ≤ ts.length → Reading (Option β) us) :
    Reading (Option β) ts :=
  r.andThen fun a? us h =>
    match a? with
    | none => done none
    | some a => f a us h

end Reading

/-! ## The current token and the next -/

/-- The kind of the token on which a reader of `ts` stands. -/
def currentKind (ts : List Token) : TokenKind :=
  match ts with
  | t :: _ => t.kind
  | [] => .eof

/-- The kind of the token after the current one. -/
def nextKind (ts : List Token) : TokenKind :=
  currentKind ts.tail

/-- Steps onto the next token if it is of the given kind. If it is not, that token is the error and
the reader stays in place. The span `stop` is where the input ends. -/
def expectNext (stop : Span) (kind : TokenKind) (ts : List Token) : Reading (Option Token) ts :=
  match ts with
  | current :: next :: _ =>
    if next.kind = kind then (Reading.done (some next)).within (List.suffix_cons current _)
    else .fail (.unexpected next.kind kind) next.span
  | _ => .fail (.unexpected .eof kind) stop

/-- Whether a statement that runs to a terminator may end at this token. -/
def isTerminator (t : Token) : Bool :=
  t.kind == .semicolon || t.kind == .eof

/-- Steps forward to the next semicolon, or to the end of the input if there is none. Where the
reader already stands on one it stays. -/
def Reading.toTerminator {α : Type} {ts : List Token} (r : Reading α ts) : Reading α ts :=
  { r with
    rest := r.rest.dropWhile fun t => !isTerminator t
    isSuffix := (List.dropWhile_suffix _).trans r.isSuffix }

/-- Steps onto the next token if it is a semicolon. -/
def Reading.overSemicolon {α : Type} {ts : List Token} (r : Reading α ts) : Reading α ts :=
  if nextKind r.rest = .semicolon then
    { r with rest := r.rest.tail, isSuffix := (List.tail_suffix _).trans r.isSuffix }
  else r

/-- Counts a statement that could not be read. -/
def Reading.countDropped {α : Type} {ts : List Token} (r : Reading (Option α) ts) :
    Reading (Option α) ts :=
  { r with dropped := r.dropped + if r.value.isNone then 1 else 0 }

/-- Counts a block that does not end at a closing brace. -/
def Reading.countUnclosed {α : Type} {ts : List Token} (r : Reading α ts) : Reading α ts :=
  { r with unclosed := r.unclosed + if currentKind r.rest = .rightBrace then 0 else 1 }

end Sprig
