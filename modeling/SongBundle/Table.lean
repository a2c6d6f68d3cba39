/-!
# Tables: finite maps listed in key order

A `Table κ α` is a finite map that keeps its entries as a list with strictly ascending keys, so two
tables with the same look-ups are the same value (`Table.ext_get?`) and the order in which entries
are listed, written and compared never depends on how the table was filled.

* `Table.insert`, `Table.get?`, `Table.ofList` are the usual operations; a later insertion of a key
  replaces the earlier one (`Table.get?_insert`).
* `Table.map`, `Table.mapM` and `Table.mapEntriesM` visit the entries in key order.
* `Names` is the table with nothing but keys: an ascending set of strings.
-/

set_option autoImplicit false

namespace SongBundle

open Std

/-- A finite map whose entries are listed by strictly ascending keys. -/
structure Table (κ α : Type) [Ord κ] where
  /-- The entries, least key first. -/
  entries : List (κ × α)
  ascending : entries.Pairwise (fun a b ↦ compare a.1 b.1 = .lt)

namespace Table

variable {κ α β : Type} [Ord κ]

/-! ## Entry lists -/

/-- Puts an entry into an ascending list, replacing the entry that has the same key. -/
def insertEntry (k : κ) (a : α) : List (κ × α) → List (κ × α)
  | [] => [(k, a)]
  | e :: rest =>
    match compare k e.1 with
    | .lt => (k, a) :: e :: rest
    | .eq => (k, a) :: rest
    | .gt => e :: insertEntry k a rest

/-- The value listed under a key; the search stops at the first greater key. -/
def findEntry (k : κ) : List (κ × α) → Option α
  | [] => none
  | e :: rest =>
    match compare k e.1 with
    | .lt => none
    | .eq => some e.2
    | .gt => findEntry k rest

theorem fst_mem_of_mem_insertEntry [LawfulEqOrd κ] {k : κ} {a : α} {l : List (κ × α)}
    {e : κ × α} (h : e ∈ insertEntry k a l) : e.1 = k ∨ e ∈ l := by
  induction l with
  | nil => simp_all [insertEntry]
  | cons x rest ih =>
    rw [insertEntry] at h
    split at h <;> simp only [List.mem_cons] at h ⊢ <;> grind

theorem pairwise_insertEntry [TransOrd κ] [LawfulEqOrd κ] {k : κ} {a : α} {l : List (κ × α)}
    (h : l.Pairwise (fun a b ↦ compare a.1 b.1 = .lt)) :
    (insertEntry k a l).Pairwise (fun a b ↦ compare a.1 b.1 = .lt) := by
  induction l with
  | nil => simp [insertEntry]
  | cons x rest ih =>
    rw [List.pairwise_cons] at h
    rw [insertEntry]
    split
    · rename_i hk
      refine List.pairwise_cons.2 ⟨fun e he ↦ ?_, List.pairwise_cons.2 h⟩
      rcases List.mem_cons.1 he with rfl | he
      · exact hk
      · exact TransCmp.lt_trans hk (h.1 e he)
    · rename_i hk
      refine List.pairwise_cons.2 ⟨fun e he ↦ ?_, h.2⟩
      rw [LawfulEqOrd.eq_of_compare hk]
      exact h.1 e he
    · rename_i hk
      refine List.pairwise_cons.2 ⟨fun e he ↦ ?_, ih h.2⟩
      rcases fst_mem_of_mem_insertEntry he with hek | he
      · rw [hek]
        exact OrientedCmp.lt_of_gt hk
      · exact h.1 e he

/-! ## Construction -/

/-- The table without entries. -/
def empty : Table κ α := ⟨[], List.Pairwise.nil⟩

instance : EmptyCollection (Table κ α) := ⟨empty⟩

instance : Inhabited (Table κ α) := ⟨empty⟩

/-- Enters `a` under `k`, replacing what the key held before. -/
def insert [TransOrd κ] [LawfulEqOrd κ] (t : Table κ α) (k : κ) (a : α) : Table κ α :=
  ⟨insertEntry k a t.entries, pairwise_insertEntry t.ascending⟩

/-- Enters every pair in turn, so the last pair with a key is the one that stays. -/
def insertAll [TransOrd κ] [LawfulEqOrd κ] (t : Table κ α) (pairs : List (κ × α)) : Table κ α :=
  pairs.foldl (fun t e ↦ t.insert e.1 e.2) t

/-- The table of a list of pairs; the last pair with a key wins. -/
def ofList [TransOrd κ] [LawfulEqOrd κ] (pairs : List (κ × α)) : Table κ α :=
  empty.insertAll pairs

/-! ## Queries -/

/-- The value under a key. -/
def get? (t : Table κ α) (k : κ) : Option α := findEntry k t.entries

/-- Whether the table has an entry under a key. -/
def contains (t : Table κ α) (k : κ) : Bool := (t.get? k).isSome

/-- The entries, least key first. -/
def toList (t : Table κ α) : List (κ × α) := t.entries

/-- The keys in ascending order. -/
def keys (t : Table κ α) : List κ := t.entries.map Prod.fst

/-- The values in the order of their keys. -/
def values (t : Table κ α) : List α := t.entries.map Prod.snd

/-- The number of entries. -/
def size (t : Table κ α) : Nat := t.entries.length

/-- Whether there is no entry at all. -/
def isEmpty (t : Table κ α) : Bool := t.entries.isEmpty

/-- The least key. -/
def firstKey? (t : Table κ α) : Option κ := t.entries.head?.map Prod.fst

/-- The greatest key. -/
def lastKey? (t : Table κ α) : Option κ := t.entries.getLast?.map Prod.fst

/-! ## Visiting every entry -/

/-- Applies a function to every entry, keeping the keys. -/
def map (f : κ → α → β) (t : Table κ α) : Table κ β :=
  ⟨t.entries.map fun e ↦ (e.1, f e.1 e.2), List.pairwise_map.2 t.ascending⟩

/-- Keeps the entries that satisfy `p`. -/
def filter (p : κ → α → Bool) (t : Table κ α) : Table κ α :=
  ⟨t.entries.filter fun e ↦ p e.1 e.2, t.ascending.filter _⟩

theorem pairwise_zip_of_pairwise_left {l : List κ} (vs : List β)
    (h : l.Pairwise (fun a b ↦ compare a b = .lt)) :
    (l.zip vs).Pairwise (fun a b ↦ compare a.1 b.1 = .lt) := by
  induction l generalizing vs with
  | nil => simp
  | cons k ks ih =>
    cases vs with
    | nil => simp
    | cons v vs =>
      rw [List.pairwise_cons] at h
      refine List.pairwise_cons.2 ⟨fun e he ↦ h.1 e.1 ?_, ih vs h.2⟩
      exact (List.of_mem_zip he).1

/-- Puts new values under the keys, in key order. -/
def withValues (t : Table κ α) (values : List β) : Table κ β :=
  ⟨t.keys.zip values, pairwise_zip_of_pairwise_left values (List.pairwise_map.2 t.ascending)⟩

/-- Runs an action on every entry, least key first, and puts the results under the same keys. -/
def mapEntriesM {m : Type → Type} [Monad m] (f : κ → α → m β) (t : Table κ α) : m (Table κ β) :=
  t.withValues <$> t.toList.mapM fun e ↦ f e.1 e.2

/-- Runs an action on every value, least key first, and puts the results under the same keys. -/
def mapM {m : Type → Type} [Monad m] (f : α → m β) (t : Table κ α) : m (Table κ β) :=
  t.withValues <$> t.values.mapM f

/-! ## Look-up laws -/

@[simp] theorem get?_empty (k : κ) : (empty : Table κ α).get? k = none := rfl

theorem findEntry_insertEntry [TransOrd κ] [LawfulEqOrd κ] (k k' : κ) (a : α)
    (l : List (κ × α)) :
    findEntry k' (insertEntry k a l) =
      if compare k' k = .eq then some a else findEntry k' l := by
  induction l with
  | nil =>
    simp only [insertEntry, findEntry]
    cases compare k' k <;> simp
  | cons e rest ih =>
    rw [insertEntry]
    cases hke : compare k e.1 with
    | lt =>
      simp only [findEntry]
      cases hk : compare k' k with
      | lt => simp [TransCmp.lt_trans hk hke]
      | eq => simp
      | gt => simp
    | eq =>
      have hk : k = e.1 := LawfulEqOrd.eq_of_compare hke
      subst hk
      simp only [findEntry]
      cases compare k' e.1 <;> simp
    | gt =>
      simp only [findEntry, ih]
      cases hk : compare k' e.1 with
      | lt => simp [TransCmp.lt_trans hk (OrientedCmp.lt_of_gt hke)]
      | eq =>
        have hk' : k' = e.1 := LawfulEqOrd.eq_of_compare hk
        subst hk'
        simp [OrientedCmp.lt_of_gt hke]
      | gt => simp

/-- A key that was just entered holds the new value; every other key holds what it held. -/
theorem get?_insert [TransOrd κ] [LawfulEqOrd κ] (t : Table κ α) (k k' : κ) (a : α) :
    (t.insert k a).get? k' = if compare k' k = .eq then some a else t.get? k' :=
  findEntry_insertEntry k k' a t.entries

theorem findEntry_eq_some_iff [TransOrd κ] [LawfulEqOrd κ] {l : List (κ × α)}
    (h : l.Pairwise (fun a b ↦ compare a.1 b.1 = .lt)) {k : κ} {a : α} :
    findEntry k l = some a ↔ (k, a) ∈ l := by
  induction l with
  | nil => simp [findEntry]
  | cons e rest ih =>
    rw [List.pairwise_cons] at h
    rw [findEntry, List.mem_cons]
    cases hk : compare k e.1 with
    | lt =>
      have hrest : (k, a) ∉ rest := fun hm ↦ by
        have := TransCmp.lt_trans hk (h.1 _ hm)
        simp at this
      have hne : (k, a) ≠ e := fun he ↦ by simp [← he] at hk
      simp [hrest, hne]
    | eq =>
      have hke : k = e.1 := LawfulEqOrd.eq_of_compare hk
      subst hke
      have hrest : (e.1, a) ∉ rest := fun hm ↦ by
        have := h.1 _ hm
        simp at this
      simp only [Option.some.injEq, hrest, or_false, Prod.ext_iff, true_and]
      exact eq_comm
    | gt =>
      have hne : (k, a) ≠ e := fun he ↦ by simp [← he] at hk
      simp [ih h.2, hne]

/-- Look-up finds exactly the listed entries. -/
theorem get?_eq_some_iff [TransOrd κ] [LawfulEqOrd κ] {t : Table κ α} {k : κ} {a : α} :
    t.get? k = some a ↔ (k, a) ∈ t.toList :=
  findEntry_eq_some_iff t.ascending

/-- Tables with the same look-ups are equal, however they were filled. -/
@[ext] theorem ext_get? [TransOrd κ] [LawfulEqOrd κ] {s t : Table κ α}
    (h : ∀ k, s.get? k = t.get? k) : s = t := by
  have hmem : ∀ e, e ∈ s.entries ↔ e ∈ t.entries := fun e ↦ by
    have hs := get?_eq_some_iff (t := s) (k := e.1) (a := e.2)
    have ht := get?_eq_some_iff (t := t) (k := e.1) (a := e.2)
    rw [h e.1] at hs
    exact hs.symm.trans ht
  obtain ⟨l, hl⟩ := s
  obtain ⟨l', hl'⟩ := t
  have hlist : l = l' := by
    clear h
    simp only at hmem
    induction l generalizing l' with
    | nil =>
      cases l' with
      | nil => rfl
      | cons e rest => exact absurd ((hmem e).2 (List.mem_cons_self ..)) (by simp)
    | cons e rest ih =>
      cases l' with
      | nil => exact absurd ((hmem e).1 (List.mem_cons_self ..)) (by simp)
      | cons e' rest' =>
        rw [List.pairwise_cons] at hl hl'
        have hee : e = e' := by
          rcases List.mem_cons.1 ((hmem e).1 (List.mem_cons_self ..)) with h1 | h1
          · exact h1
          · rcases List.mem_cons.1 ((hmem e').2 (List.mem_cons_self ..)) with h2 | h2
            · exact h2.symm
            · have := TransCmp.lt_trans (hl.1 _ h2) (hl'.1 _ h1)
              simp at this
        subst hee
        refine congrArg _ (ih hl.2 rest' hl'.2 fun x ↦ ⟨fun hx ↦ ?_, fun hx ↦ ?_⟩)
        · rcases List.mem_cons.1 ((hmem x).1 (List.mem_cons_of_mem _ hx)) with rfl | hx'
          · have := hl.1 _ hx
            simp at this
          · exact hx'
        · rcases List.mem_cons.1 ((hmem x).2 (List.mem_cons_of_mem _ hx)) with rfl | hx'
          · have := hl'.1 _ hx
            simp at this
          · exact hx'
  subst hlist
  rfl

@[simp] theorem keys_map (f : κ → α → β) (t : Table κ α) : (t.map f).keys = t.keys := by
  simp [keys, map, Function.comp_def]

end Table

/-! ## Sets of names -/

/-- A set of strings, listed in ascending order. -/
abbrev Names := Table String Unit

namespace Names

/-- Adds a name to a set. -/
def add (s : Names) (name : String) : Names := Table.insert s name ()

/-- Adds all names of a list to a set. -/
def addAll (s : Names) (names : List String) : Names := names.foldl add s

/-- The set of the names in a list. -/
def ofList (names : List String) : Names := Names.addAll Table.empty names

/-- The names in ascending order. -/
def toList (s : Names) : List String := Table.keys s

end Names

end SongBundle
