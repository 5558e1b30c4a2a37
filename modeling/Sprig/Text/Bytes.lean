/-!
# Counting and cutting text in bytes

Offsets into a source text count the bytes of its UTF-8 form. Here text is a list of characters;
`byteLength` measures it and `byteSlice?` cuts out a stretch given by two byte offsets.
-/

namespace Sprig.Text

/-- The number of bytes that the characters take in UTF-8. -/
def byteLength : List Char → Nat
  | [] => 0
  | c :: cs => c.utf8Size + byteLength cs

@[simp] theorem byteLength_nil : byteLength [] = 0 := rfl

@[simp] theorem byteLength_cons (c : Char) (cs : List Char) :
    byteLength (c :: cs) = c.utf8Size + byteLength cs := rfl

@[simp] theorem byteLength_append (s t : List Char) :
    byteLength (s ++ t) = byteLength s + byteLength t := by
  induction s with
  | nil => simp
  | cons c s ih => simp [ih, Nat.add_assoc]

theorem length_le_byteLength (s : List Char) : s.length ≤ byteLength s := by
  induction s with
  | nil => simp
  | cons c s ih =>
    have := c.utf8Size_pos
    simp only [List.length_cons, byteLength_cons]
    omega

/-- The text without its first `n` bytes, if they end between two characters. -/
def byteDrop? : Nat → List Char → Option (List Char)
  | 0, cs => some cs
  | _ + 1, [] => none
  | n + 1, c :: cs => if c.utf8Size ≤ n + 1 then byteDrop? (n + 1 - c.utf8Size) cs else none

/-- The first `n` bytes of the text, if they end between two characters. -/
def byteTake? : Nat → List Char → Option (List Char)
  | 0, _ => some []
  | _ + 1, [] => none
  | n + 1, c :: cs =>
    if c.utf8Size ≤ n + 1 then (byteTake? (n + 1 - c.utf8Size) cs).map (c :: ·) else none

/-- The bytes from offset `start` up to offset `stop`, if both offsets fall between two characters
of the text, in this order. -/
def byteSlice? (cs : List Char) (start stop : Nat) : Option (List Char) :=
  if start ≤ stop then (byteDrop? start cs).bind (byteTake? (stop - start)) else none

theorem byteDrop?_append (s t : List Char) : byteDrop? (byteLength s) (s ++ t) = some t := by
  induction s with
  | nil => simp [byteDrop?]
  | cons c s ih =>
    obtain ⟨k, hk⟩ : ∃ k, c.utf8Size + byteLength s = k + 1 :=
      ⟨c.utf8Size + byteLength s - 1, by have := c.utf8Size_pos; omega⟩
    have hle : c.utf8Size ≤ k + 1 := by omega
    have hsub : k + 1 - c.utf8Size = byteLength s := by omega
    simp [hk, byteDrop?, hle, hsub, ih]

theorem byteTake?_append (s t : List Char) : byteTake? (byteLength s) (s ++ t) = some s := by
  induction s with
  | nil => simp [byteTake?]
  | cons c s ih =>
    obtain ⟨k, hk⟩ : ∃ k, c.utf8Size + byteLength s = k + 1 :=
      ⟨c.utf8Size + byteLength s - 1, by have := c.utf8Size_pos; omega⟩
    have hle : c.utf8Size ≤ k + 1 := by omega
    have hsub : k + 1 - c.utf8Size = byteLength s := by omega
    simp [hk, byteTake?, hle, hsub, ih]

/-- Cutting at the offsets of a middle piece gives that piece. -/
theorem byteSlice?_append (a s b : List Char) :
    byteSlice? (a ++ s ++ b) (byteLength a) (byteLength a + byteLength s) = some s := by
  simp [byteSlice?, List.append_assoc, byteDrop?_append, byteTake?_append]

end Sprig.Text
