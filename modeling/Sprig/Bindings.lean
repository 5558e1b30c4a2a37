/-!
# Bindings

Names with what they are bound to, at most once each and in ascending order. Names are ordered as
lists of characters, which is also the order of their bytes.
-/

namespace Sprig

/-- Names and what they are bound to. -/
abbrev Bindings (α : Type) := List (String × α)

namespace Bindings

variable {α : Type}

/-- What the name is bound to. -/
def find? (name : String) : Bindings α → Option α
  | [] => none
  | (key, a) :: rest => if name = key then some a else find? name rest

/-- Binds the name, in place of an earlier binding if there is one. -/
def insert (name : String) (a : α) : Bindings α → Bindings α
  | [] => [(name, a)]
  | (key, b) :: rest =>
    if name = key then (name, a) :: rest
    else if name < key then (name, a) :: (key, b) :: rest
    else (key, b) :: insert name a rest

/-- Binds names in the given order, so that of two bindings of one name the later counts. -/
def ofPairs (pairs : List (String × α)) : Bindings α :=
  pairs.foldl (fun bs p => insert p.1 p.2 bs) []

/-- The names that are bound, in order. -/
def names (bs : Bindings α) : List String :=
  bs.map Prod.fst

@[simp] theorem find?_insert_self (name : String) (a : α) (bs : Bindings α) :
    find? name (insert name a bs) = some a := by
  induction bs with
  | nil => simp [insert, find?]
  | cons b bs ih =>
    obtain ⟨key, c⟩ := b
    by_cases h : name = key
    · simp [insert, find?, h]
    · by_cases h' : name < key <;> simp [insert, find?, h, h', ih]

theorem find?_insert_of_ne {name other : String} (h : other ≠ name) (a : α) (bs : Bindings α) :
    find? other (insert name a bs) = find? other bs := by
  induction bs with
  | nil => simp [insert, find?, h]
  | cons b bs ih =>
    obtain ⟨key, c⟩ := b
    by_cases h₁ : name = key
    · subst h₁; simp [insert, find?, h]
    · by_cases h₂ : name < key
      · simp [insert, find?, h₁, h₂, h]
      · simp [insert, find?, h₁, h₂, ih]

theorem mem_names_insert {name other : String} {a : α} {bs : Bindings α} :
    other ∈ (insert name a bs).names ↔ other = name ∨ other ∈ bs.names := by
  induction bs with
  | nil => simp [insert, names]
  | cons b bs ih =>
    obtain ⟨key, c⟩ := b
    simp only [names, List.map_cons, List.mem_cons] at ih ⊢
    by_cases h₁ : name = key
    · simp [insert, h₁]
    · by_cases h₂ : name < key
      · simp [insert, h₁, h₂]
      · rw [insert, if_neg h₁, if_neg h₂, List.map_cons, List.mem_cons, ih, or_left_comm]

theorem mem_of_find? {name : String} {a : α} {bs : Bindings α} (h : find? name bs = some a) :
    (name, a) ∈ bs := by
  induction bs with
  | nil => cases h
  | cons b bs ih =>
    obtain ⟨key, c⟩ := b
    rw [find?] at h
    by_cases hkey : name = key
    · rw [if_pos hkey] at h
      cases h
      exact hkey ▸ List.mem_cons_self ..
    · rw [if_neg hkey] at h
      exact List.mem_cons_of_mem _ (ih h)

theorem find?_eq_none_iff {name : String} {bs : Bindings α} :
    find? name bs = none ↔ name ∉ bs.names := by
  induction bs with
  | nil => simp [find?, names]
  | cons b bs ih =>
    obtain ⟨key, c⟩ := b
    by_cases h : name = key
    · simp [find?, names, h]
    · rw [find?, if_neg h, ih]
      simp [names, h]

theorem mem_insert {name : String} {a : α} {bs : Bindings α} {p : String × α}
    (h : p ∈ insert name a bs) : p = (name, a) ∨ p ∈ bs := by
  induction bs with
  | nil => exact .inl (List.mem_singleton.1 h)
  | cons b bs ih =>
    obtain ⟨key, c⟩ := b
    rw [insert] at h
    split at h
    · exact (List.mem_cons.1 h).imp_right (List.mem_cons_of_mem _)
    · split at h
      · exact List.mem_cons.1 h
      · rcases List.mem_cons.1 h with rfl | h
        · exact .inr (List.mem_cons_self ..)
        · exact (ih h).imp_right (List.mem_cons_of_mem _)

theorem mem_ofPairs {pairs : List (String × α)} {p : String × α} (h : p ∈ ofPairs pairs) :
    p ∈ pairs := by
  suffices ∀ (pairs bs : List (String × α)), p ∈ pairs.foldl (fun bs p => insert p.1 p.2 bs) bs →
      p ∈ pairs ∨ p ∈ bs from (this pairs [] h).resolve_right List.not_mem_nil
  intro pairs
  induction pairs with
  | nil => exact fun bs h => .inr h
  | cons q pairs ih =>
    intro bs h
    rcases ih _ h with h | h
    · exact .inl (List.mem_cons_of_mem _ h)
    · rcases mem_insert h with rfl | h
      · exact .inl (List.mem_cons_self ..)
      · exact .inr h

theorem find?_map {β : Type} (f : α → β) (name : String) (bs : Bindings α) :
    find? name (bs.map (Prod.map id f)) = (find? name bs).map f := by
  induction bs with
  | nil => rfl
  | cons b bs ih =>
    obtain ⟨key, c⟩ := b
    by_cases h : name = key <;> simp [find?, h, ih]

theorem insert_map {β : Type} (f : α → β) (name : String) (a : α) (bs : Bindings α) :
    insert name (f a) (bs.map (Prod.map id f)) = (insert name a bs).map (Prod.map id f) := by
  induction bs with
  | nil => rfl
  | cons b bs ih =>
    obtain ⟨key, c⟩ := b
    by_cases h : name = key
    · simp [insert, h]
    · by_cases h' : name < key <;> simp [insert, h, h', ih]

theorem ofPairs_map {β : Type} (f : α → β) (pairs : List (String × α)) :
    ofPairs (pairs.map (Prod.map id f)) = (ofPairs pairs).map (Prod.map id f) := by
  suffices ∀ (pairs bs : List (String × α)),
      (pairs.map (Prod.map id f)).foldl (fun bs p => insert p.1 p.2 bs) (bs.map (Prod.map id f)) =
        (pairs.foldl (fun bs p => insert p.1 p.2 bs) bs).map (Prod.map id f) from this pairs []
  intro pairs
  induction pairs with
  | nil => exact fun _ => rfl
  | cons p pairs ih =>
    intro bs
    show List.foldl _ (insert p.1 (f p.2) (bs.map (Prod.map id f))) (pairs.map (Prod.map id f)) = _
    rw [insert_map]
    exact ih _

/-- Inserting keeps the names in ascending order, and so each name once. -/
theorem pairwise_names_insert {name : String} {a : α} {bs : Bindings α}
    (h : bs.names.Pairwise (· < ·)) : (insert name a bs).names.Pairwise (· < ·) := by
  induction bs with
  | nil => simp [insert, names]
  | cons b bs ih =>
    obtain ⟨key, c⟩ := b
    obtain ⟨hkey, hrest⟩ := List.pairwise_cons.1 h
    by_cases h₁ : name = key
    · subst h₁
      rw [insert, if_pos rfl]
      exact h
    · by_cases h₂ : name < key
      · rw [insert, if_neg h₁, if_pos h₂]
        refine List.pairwise_cons.2 ⟨fun other hother => ?_, h⟩
        rcases List.mem_cons.1 hother with rfl | hother
        · exact h₂
        · exact String.lt_trans h₂ (hkey other hother)
      · rw [insert, if_neg h₁, if_neg h₂]
        refine List.pairwise_cons.2 ⟨fun other hother => ?_, ih hrest⟩
        rcases mem_names_insert.1 hother with rfl | hother
        · exact Std.lt_of_le_of_ne (Std.not_lt.1 h₂) (Ne.symm h₁)
        · exact hkey other hother

theorem insert_comm_of_lt {x y : String} (h : x < y) (a b : α) (bs : Bindings α) :
    insert y b (insert x a bs) = insert x a (insert y b bs) := by
  have hne : y ≠ x := by
    rintro rfl
    exact String.lt_irrefl _ h
  have hnlt : ¬ y < x := String.lt_asymm h
  induction bs with
  | nil => simp [insert, hne, hne.symm, hnlt, h]
  | cons p bs ih =>
    obtain ⟨key, c⟩ := p
    by_cases hx : x = key
    · subst hx
      simp [insert, hne, hnlt]
    · by_cases hxlt : x < key
      · -- The smaller name comes first, whatever the other one does to the rest.
        by_cases hy : y = key
        · subst hy
          simp [insert, hne, hne.symm, hnlt, h]
        · by_cases hylt : y < key <;> simp [insert, hne, hne.symm, hnlt, h, hx, hxlt, hy, hylt]
      · have hkey : key < x := Std.lt_of_le_of_ne (Std.not_lt.1 hxlt) (Ne.symm hx)
        have hkey' : key < y := String.lt_trans hkey h
        have hy : y ≠ key := by
          rintro rfl
          exact String.lt_irrefl _ hkey'
        simp [insert, hx, hxlt, hy, String.lt_asymm hkey', ih]

/-- Different names can be bound in any order. -/
theorem insert_comm {x y : String} (h : x ≠ y) (a b : α) (bs : Bindings α) :
    insert y b (insert x a bs) = insert x a (insert y b bs) := by
  by_cases hlt : x < y
  · exact insert_comm_of_lt hlt a b bs
  · have hgt : y < x := Std.lt_of_le_of_ne (Std.not_lt.1 hlt) (Ne.symm h)
    exact (insert_comm_of_lt hgt b a bs).symm

end Bindings

end Sprig
