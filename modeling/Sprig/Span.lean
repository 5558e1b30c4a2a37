import Sprig.Dump

/-!
# Spans

A span is a stretch of the source text: the byte at which it starts and how many bytes it takes.
Both numbers are kept in 32 bits, and `Span.ofNat` drops the higher bits of what it is given, so a
span is faithful to every text shorter than 2 ^ 32 bytes.
-/

namespace Sprig

/-- A stretch of the source text, counted in bytes. -/
structure Span where
  /-- The offset of its first byte. -/
  start : UInt32
  /-- The number of its bytes. -/
  length : UInt32
deriving DecidableEq, Inhabited

namespace Span

/-- The span with the given start and length, each modulo 2 ^ 32. -/
def ofNat (start length : Nat) : Span :=
  ⟨start.toUInt32, length.toUInt32⟩

/-- The empty span at the start of the text. -/
def zero : Span :=
  ⟨0, 0⟩

/-- The offset just after the last byte. -/
def stop (s : Span) : UInt32 :=
  s.start + s.length

/-- The dump of a span. -/
def dump (s : Span) : Dump :=
  .fields "Span" [("start", .word (Nat.repr s.start.toNat)),
    ("length", .word (Nat.repr s.length.toNat))]

theorem toNat_start_ofNat {start length : Nat} (h : start < UInt32.size) :
    (ofNat start length).start.toNat = start :=
  UInt32.toNat_ofNat'.trans (Nat.mod_eq_of_lt h)

theorem toNat_length_ofNat {start length : Nat} (h : length < UInt32.size) :
    (ofNat start length).length.toNat = length :=
  UInt32.toNat_ofNat'.trans (Nat.mod_eq_of_lt h)

/-- A span built inside a text of fewer than 2 ^ 32 bytes ends where the numbers say. -/
theorem toNat_stop_ofNat {start length : Nat} (h : start + length < UInt32.size) :
    (ofNat start length).stop.toNat = start + length := by
  have hs : start < UInt32.size := by omega
  have hl : length < UInt32.size := by omega
  rw [stop, UInt32.toNat_add, toNat_start_ofNat hs, toNat_length_ofNat hl]
  exact Nat.mod_eq_of_lt h

end Span

end Sprig
