/-!
# The order of names is that of their bytes

Names are compared character by character. Bytes are compared one by one, and a character takes up
to four of them. The two orders agree: of two characters the one with the smaller code has the
smaller bytes (`Text.utf8EncodeChar_lt`). With as many bytes in both it is the first different one
that decides, because the highest bits of a code are written first (`Text.Increasing.continued`);
otherwise it is the first byte, which is the greater the more bytes there are.
-/

namespace Sprig.Text

/-- The bytes of a text. -/
def bytes (s : String) : List UInt8 :=
  s.toByteArray.data.toList

theorem bytes_eq (s : String) : bytes s = s.toList.flatMap String.utf8EncodeChar := by
  rw [bytes, ← String.utf8Encode_toList, List.utf8Encode, List.data_toByteArray]

/-- Of the codes below `bound` a smaller one is written in smaller bytes, whatever follows. -/
def Increasing (bound : Nat) (write : Nat → List UInt8) : Prop :=
  ∀ m n, m < n → n < bound → ∀ cs ds, write m ++ cs < write n ++ ds

theorem cons_lt_cons_of_lt {m n : Nat} (h : m < n) (hn : n < 256) (cs ds : List UInt8) :
    UInt8.ofNat m :: cs < UInt8.ofNat n :: ds := by
  refine List.cons_lt_cons_iff.2 (.inl ?_)
  rw [UInt8.lt_iff_toNat_lt, UInt8.toNat_ofNat', UInt8.toNat_ofNat']
  omega

/-- The first byte takes the highest bits of the code, above the bits that say how many bytes
follow. -/
theorem increasing_byte {bound base : Nat} (h : bound + base ≤ 256) :
    Increasing bound fun n => [UInt8.ofNat (n % bound + base)] := by
  intro m n hmn hn cs ds
  refine cons_lt_cons_of_lt ?_ ?_ cs ds
  · rw [Nat.mod_eq_of_lt hn, Nat.mod_eq_of_lt (Nat.lt_trans hmn hn)]
    omega
  · rw [Nat.mod_eq_of_lt hn]
    omega

/-- One more byte takes the six lowest bits. -/
theorem Increasing.continued {bound : Nat} {write : Nat → List UInt8} (h : Increasing bound write) :
    Increasing (bound * 64) fun n => write (n / 64) ++ [UInt8.ofNat (n % 64 + 128)] := by
  intro m n hmn hn cs ds
  have hhigh : n / 64 < bound := by omega
  simp only [List.append_assoc]
  rcases Nat.lt_or_ge (m / 64) (n / 64) with hlt | hge
  · exact h _ _ hlt hhigh _ _
  · have heq : m / 64 = n / 64 := by omega
    rw [heq]
    exact List.append_left_lt (cons_lt_cons_of_lt (by omega) (by omega) _ _)

/-- Of two characters the smaller one has the smaller bytes, whatever follows them. -/
theorem utf8EncodeChar_lt {c d : Char} (h : c < d) (cs ds : List UInt8) :
    String.utf8EncodeChar c ++ cs < String.utf8EncodeChar d ++ ds := by
  have hlt : c.val.toNat < d.val.toNat := h
  have hd : d.val.toNat < 8 * 64 * 64 * 64 := by
    rcases d.valid with hd | hd
    · exact Nat.lt_trans hd (by decide)
    · exact Nat.lt_trans hd.2 (by decide)
  have htwo := (increasing_byte (show 32 + 192 ≤ 256 by decide)).continued
  have hthree := (increasing_byte (show 16 + 224 ≤ 256 by decide)).continued.continued
  have hfour := (increasing_byte (show 8 + 240 ≤ 256 by decide)).continued.continued.continued
  simp only [Nat.div_div_eq_div_mul, Nat.reduceMul, List.cons_append, List.nil_append]
    at htwo hthree hfour
  simp only [String.utf8EncodeChar]
  generalize c.val.toNat = m at *
  generalize d.val.toNat = n at *
  -- Each round settles the codes `m` of one length; a longer `n` differs in the first byte.
  by_cases hm₁ : m ≤ 127
  · rw [if_pos hm₁]
    split
    · exact cons_lt_cons_of_lt hlt (by omega) _ _
    split
    · exact cons_lt_cons_of_lt (by omega) (by omega) _ _
    split <;> exact cons_lt_cons_of_lt (by omega) (by omega) _ _
  rw [if_neg hm₁, if_neg (show ¬ n ≤ 127 by omega)]
  by_cases hm₂ : m ≤ 2047
  · rw [if_pos hm₂]
    split
    · exact htwo _ _ hlt (by omega) _ _
    split <;> exact cons_lt_cons_of_lt (by omega) (by omega) _ _
  rw [if_neg hm₂, if_neg (show ¬ n ≤ 2047 by omega)]
  by_cases hm₃ : m ≤ 65535
  · rw [if_pos hm₃]
    split
    · exact hthree _ _ hlt (by omega) _ _
    · exact cons_lt_cons_of_lt (by omega) (by omega) _ _
  rw [if_neg hm₃, if_neg (show ¬ n ≤ 65535 by omega)]
  exact hfour _ _ hlt hd _ _

/-- **Of two texts the smaller one has the smaller bytes.** -/
theorem bytes_lt_bytes {s t : String} (h : s < t) : bytes s < bytes t := by
  rw [bytes_eq, bytes_eq]
  have hlist : s.toList < t.toList := String.lt_iff.1 h
  generalize s.toList = cs at hlist
  generalize t.toList = ds at hlist
  induction hlist with
  | @nil d ds =>
    have hne : String.utf8EncodeChar d ++ ds.flatMap String.utf8EncodeChar ≠ [] := by
      intro hnil
      have hlength := congrArg List.length (List.append_eq_nil_iff.1 hnil).1
      rw [String.length_utf8EncodeChar] at hlength
      exact absurd d.utf8Size_pos (by simp [hlength])
    obtain ⟨byte, rest, heq⟩ := List.exists_cons_of_ne_nil hne
    rw [List.flatMap_cons, heq]
    exact List.nil_lt_cons _ _
  | rel hcd => exact utf8EncodeChar_lt hcd _ _
  | cons _ ih => exact List.append_left_lt ih

end Sprig.Text
