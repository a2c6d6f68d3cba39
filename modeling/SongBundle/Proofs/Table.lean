import SongBundle.Proofs.Basic
import SongBundle.Proofs.Outcome
import SongBundle.Table

/-!
# What tables hold

The keys and look-ups of tables that were filled or mapped in the ways in which `SongBundle.Table`
fills and maps them.

* `Table.get?_insertAll` says that the last pair with a key wins.
* `Table.exists_get?_insert_getD` is about an entry that is changed where it stands.
* `Table.mapEntriesM_eq_ok_iff` says that an action on every entry succeeds entry by entry.
-/

set_option autoImplicit false

namespace SongBundle

open Std

namespace Table

variable {κ α β ε : Type}

/-! ## Pairs -/

/-- Values that belong to pairs one by one still do when they are put under the keys. -/
theorem forall₂_zip {R : κ × α → β → Prop} {pairs : List (κ × α)} {values : List β}
    (h : List.Forall₂ R pairs values) :
    List.Forall₂ (fun e e' ↦ e'.1 = e.1 ∧ R e e'.2) pairs ((pairs.map Prod.fst).zip values) := by
  induction h with
  | nil => exact .nil
  | cons hr _ ih => exact .cons ⟨rfl, hr⟩ ih

/-- Pairs that agree with others in their keys consist of those keys and of their own values. -/
theorem forall₂_values {R : κ × α → β → Prop} {pairs : List (κ × α)} {pairs' : List (κ × β)}
    (h : List.Forall₂ (fun e e' ↦ e'.1 = e.1 ∧ R e e'.2) pairs pairs') :
    List.Forall₂ R pairs (pairs'.map Prod.snd) ∧
      (pairs.map Prod.fst).zip (pairs'.map Prod.snd) = pairs' := by
  induction h with
  | nil => exact ⟨.nil, rfl⟩
  | cons hr _ ih => exact ⟨.cons hr.2 ih.1, List.cons_eq_cons.2 ⟨Prod.ext hr.1.symm rfl, ih.2⟩⟩

theorem forall₂_keys {R : κ × α → κ × β → Prop} {pairs : List (κ × α)} {pairs' : List (κ × β)}
    (h : List.Forall₂ (fun e e' ↦ e'.1 = e.1 ∧ R e e') pairs pairs') :
    pairs'.map Prod.fst = pairs.map Prod.fst := by
  induction h with
  | nil => rfl
  | cons hr _ ih => exact List.cons_eq_cons.2 ⟨hr.1, ih⟩

variable [Ord κ]

theorem toList_inj {s t : Table κ α} : s.toList = t.toList ↔ s = t := by
  cases s
  cases t
  simp [toList]

/-! ## Keys -/

theorem pairwise_keys (t : Table κ α) : t.keys.Pairwise fun a b ↦ compare a b = .lt :=
  List.pairwise_map.2 t.ascending

theorem nodup_keys [LawfulEqOrd κ] (t : Table κ α) : t.keys.Nodup :=
  t.pairwise_keys.imp fun hlt heq ↦ by simp [heq] at hlt

variable [TransOrd κ] [LawfulEqOrd κ]

theorem mem_keys_iff {t : Table κ α} {k : κ} : k ∈ t.keys ↔ ∃ a, t.get? k = some a := by
  simp only [get?_eq_some_iff]
  constructor
  · intro h
    obtain ⟨e, he, rfl⟩ := List.mem_map.1 h
    exact ⟨e.2, he⟩
  · rintro ⟨a, h⟩
    exact List.mem_map_of_mem (f := Prod.fst) h

theorem contains_iff {t : Table κ α} {k : κ} : t.contains k = true ↔ k ∈ t.keys := by
  rw [contains, Option.isSome_iff_exists, mem_keys_iff]

theorem get?_insert_eq [DecidableEq κ] (t : Table κ α) (k k' : κ) (a : α) :
    (t.insert k a).get? k' = if k' = k then some a else t.get? k' := by
  simp only [get?_insert, Std.compare_eq_iff_eq]

theorem mem_keys_insert {t : Table κ α} {k k' : κ} {a : α} :
    k' ∈ (t.insert k a).keys ↔ k' ∈ t.keys ∨ k' = k := by
  simp only [mem_keys_iff, get?_insert, Std.compare_eq_iff_eq]
  by_cases h : k' = k <;> simp [h]

theorem mem_keys_insertAll {t : Table κ α} {pairs : List (κ × α)} {k : κ} :
    k ∈ (t.insertAll pairs).keys ↔ k ∈ t.keys ∨ ∃ e ∈ pairs, k = e.1 :=
  foldl_iff (P := fun t : Table κ α ↦ k ∈ t.keys) (Q := fun e : κ × α ↦ k = e.1)
    (f := fun t e ↦ t.insert e.1 e.2) (fun _ _ ↦ mem_keys_insert) pairs t

theorem mem_keys_ofList {pairs : List (κ × α)} {k : κ} :
    k ∈ (ofList pairs).keys ↔ ∃ e ∈ pairs, k = e.1 := by
  rw [ofList, mem_keys_insertAll]
  exact or_iff_right List.not_mem_nil

/-- What holds of the keys of a table made of pairs holds of the keys of the pairs. -/
theorem forall_mem_keys_ofList {pairs : List (κ × α)} {P : κ → Prop} :
    (∀ k ∈ (ofList pairs).keys, P k) ↔ ∀ e ∈ pairs, P e.1 := by
  simp only [mem_keys_ofList]
  constructor
  · exact fun h e he ↦ h e.1 ⟨e, he, rfl⟩
  · rintro h _ ⟨e, he, rfl⟩
    exact h e he

/-- The greatest key. -/
theorem lastKey?_eq_some_iff {t : Table κ α} {k : κ} :
    t.lastKey? = some k ↔ k ∈ t.keys ∧ ∀ k' ∈ t.keys, compare k' k ≠ .gt := by
  have hlast : t.lastKey? = t.keys.getLast? := List.getLast?_map.symm
  have hsorted := t.pairwise_keys
  rw [hlast]
  generalize t.keys = keys at hsorted
  constructor
  · intro h
    obtain ⟨front, rfl⟩ := List.getLast?_eq_some_iff.1 h
    refine ⟨by simp, fun k' hk' ↦ ?_⟩
    rcases List.mem_append.1 hk' with hk' | hk'
    · simp [(List.pairwise_append.1 hsorted).2.2 k' hk' k (by simp)]
    · simp [List.mem_singleton.1 hk']
  · rintro ⟨hk, hmax⟩
    obtain ⟨front, last, rfl⟩ :=
      (List.eq_nil_or_concat keys).resolve_left (List.ne_nil_of_mem hk)
    rw [List.concat_eq_append] at *
    rcases List.mem_append.1 hk with hk | hk
    · have hlt := (List.pairwise_append.1 hsorted).2.2 k hk last (by simp)
      exact absurd (OrientedCmp.gt_of_lt hlt) (hmax last (by simp))
    · simp [List.mem_singleton.1 hk]

/-- The least key. -/
theorem firstKey?_eq_some_iff {t : Table κ α} {k : κ} :
    t.firstKey? = some k ↔ k ∈ t.keys ∧ ∀ k' ∈ t.keys, compare k k' ≠ .gt := by
  have hfirst : t.firstKey? = t.keys.head? := List.head?_map.symm
  have hsorted := t.pairwise_keys
  rw [hfirst]
  cases hkeys : t.keys with
  | nil => simp
  | cons least rest =>
    rw [hkeys, List.pairwise_cons] at hsorted
    rw [List.head?_cons, Option.some.injEq]
    constructor
    · rintro rfl
      refine ⟨List.mem_cons_self, List.forall_mem_cons.2 ⟨by simp, fun k' hk' ↦ ?_⟩⟩
      simp [hsorted.1 k' hk']
    · rintro ⟨hk, hmin⟩
      rcases List.mem_cons.1 hk with rfl | hk
      · rfl
      · exact absurd (OrientedCmp.gt_of_lt (hsorted.1 k hk)) (hmin least List.mem_cons_self)

omit [TransOrd κ] [LawfulEqOrd κ] in
theorem exists_lastKey? {t : Table κ α} {k : κ} (hk : k ∈ t.keys) : ∃ k', t.lastKey? = some k' := by
  have hlast : t.lastKey? = t.keys.getLast? := List.getLast?_map.symm
  rw [hlast]
  exact ⟨_, List.getLast?_eq_some_getLast (List.ne_nil_of_mem hk)⟩

omit [TransOrd κ] [LawfulEqOrd κ] in
theorem exists_firstKey? {t : Table κ α} {k : κ} (hk : k ∈ t.keys) :
    ∃ k', t.firstKey? = some k' := by
  have hfirst : t.firstKey? = t.keys.head? := List.head?_map.symm
  rw [hfirst]
  exact ⟨_, List.head?_eq_some_head (List.ne_nil_of_mem hk)⟩

/-! ## Filling a table -/

/-- Of several pairs with a key the last one counts. -/
theorem get?_insertAll [DecidableEq κ] (t : Table κ α) (pairs : List (κ × α)) (k : κ) :
    (t.insertAll pairs).get? k =
      ((pairs.reverse.find? fun e ↦ k = e.1).map Prod.snd).or (t.get? k) := by
  induction pairs generalizing t with
  | nil => rfl
  | cons e rest ih =>
    have hfill : t.insertAll (e :: rest) = (t.insert e.1 e.2).insertAll rest := rfl
    rw [hfill, ih, List.reverse_cons, List.find?_append, get?_insert_eq]
    by_cases hk : k = e.1
    · cases rest.reverse.find? fun e ↦ k = e.1 <;> simp [hk]
    · cases rest.reverse.find? fun e ↦ k = e.1 <;> simp [hk]

/-- What is entered last counts, and what was there before only where nothing is entered. -/
theorem get?_insertAll_eq_or (t : Table κ α) (pairs : List (κ × α)) (k : κ) :
    (t.insertAll pairs).get? k = ((ofList pairs).get? k).or (t.get? k) := by
  classical
  rw [get?_insertAll, ofList, get?_insertAll, get?_empty, Option.or_none]

/-- A list of pairs may be entered in two parts. -/
theorem ofList_append (pairs more : List (κ × α)) :
    ofList (pairs ++ more) = (ofList pairs).insertAll more :=
  List.foldl_append

/-- A pair makes no difference if its key is listed again. -/
theorem insertAll_insert {t : Table κ α} {pairs : List (κ × α)} {k : κ} (a : α)
    (h : ∃ e ∈ pairs, e.1 = k) : (t.insert k a).insertAll pairs = t.insertAll pairs := by
  classical
  refine ext_get? fun k' ↦ ?_
  rw [get?_insertAll, get?_insertAll, get?_insert_eq]
  by_cases hk : k' = k
  · obtain ⟨e, hfind⟩ : ∃ e, (pairs.reverse.find? fun e ↦ k' = e.1) = some e := by
      obtain ⟨e, he, rfl⟩ := h
      rw [← Option.isSome_iff_exists, List.find?_isSome]
      exact ⟨e, List.mem_reverse.2 he, decide_eq_true hk⟩
    rw [hfind]
    rfl
  · rw [if_neg hk]

/-- A pair is kept if its key is not listed after it. -/
theorem get?_ofList_eq_some_iff_append {pairs : List (κ × α)} {k : κ} {a : α} :
    (ofList pairs).get? k = some a ↔
      ∃ before after, pairs = before ++ (k, a) :: after ∧ ∀ e ∈ after, e.1 ≠ k := by
  classical
  rw [ofList, get?_insertAll, get?_empty, Option.or_none, Option.map_eq_some_iff]
  constructor
  · rintro ⟨e, hfind, rfl⟩
    obtain ⟨hk, after, before, hsplit, hafter⟩ := List.find?_eq_some_iff_append.1 hfind
    obtain rfl : k = e.1 := of_decide_eq_true hk
    refine ⟨before.reverse, after.reverse, List.reverse_injective (by simpa using hsplit),
      fun e' he' heq ↦ ?_⟩
    simpa [heq] using hafter e' (List.mem_reverse.1 he')
  · rintro ⟨before, after, rfl, hafter⟩
    refine ⟨(k, a), List.find?_eq_some_iff_append.2 ⟨by simp, after.reverse, before.reverse,
      by simp, fun e he ↦ ?_⟩, rfl⟩
    simpa using (hafter e (List.mem_reverse.1 he)).symm

/-- Pairs with different keys are all kept. -/
theorem get?_ofList_eq_some_iff {pairs : List (κ × α)} (h : pairs.Pairwise fun a b ↦ a.1 ≠ b.1)
    {k : κ} {a : α} : (ofList pairs).get? k = some a ↔ (k, a) ∈ pairs := by
  rw [get?_ofList_eq_some_iff_append]
  constructor
  · rintro ⟨before, after, rfl, -⟩
    simp
  · intro hmem
    obtain ⟨before, after, rfl⟩ := List.append_of_mem hmem
    obtain ⟨-, hafter, -⟩ := List.pairwise_append.1 h
    exact ⟨before, after, rfl, fun e he heq ↦ (List.pairwise_cons.1 hafter).1 e he heq.symm⟩

omit [TransOrd κ] [LawfulEqOrd κ] in
/-- What is said of the value under a key is said of the value that is there. -/
theorem exists_get?_iff {t : Table κ α} {k : κ} {a : α} {P : α → Prop} (h : t.get? k = some a) :
    (∃ a, t.get? k = some a ∧ P a) ↔ P a := by
  simp [h]

/-- Entering what is there changes nothing. -/
theorem insert_eq_self {t : Table κ α} {k : κ} {a : α} (h : t.get? k = some a) :
    t.insert k a = t := by
  classical
  refine ext_get? fun k' ↦ ?_
  rw [get?_insert_eq]
  split
  · rename_i hk
    rw [hk, h]
  · rfl

/-- Tables with the same keys have a value both, or neither. -/
theorem get?_cases {t : Table κ α} {t' : Table κ β} (h : ∀ k, k ∈ t.keys ↔ k ∈ t'.keys) (k : κ) :
    (t.get? k = none ∧ t'.get? k = none) ∨
      ∃ a b, t.get? k = some a ∧ t'.get? k = some b := by
  have hk := h k
  rw [mem_keys_iff, mem_keys_iff] at hk
  cases ht : t.get? k <;> cases ht' : t'.get? k <;> simp_all

/-- The order of pairs with different keys does not matter. -/
theorem ofList_congr {pairs pairs' : List (κ × α)} (hperm : pairs.Perm pairs')
    (h : (pairs.map Prod.fst).Nodup) : ofList pairs = ofList pairs' := by
  refine ext_get? fun k ↦ Option.ext fun a ↦ ?_
  have h' : (pairs'.map Prod.fst).Nodup := (hperm.map Prod.fst).nodup_iff.1 h
  rw [get?_ofList_eq_some_iff (List.pairwise_map.1 h),
    get?_ofList_eq_some_iff (List.pairwise_map.1 h')]
  exact hperm.mem_iff

/-- An entry that is changed, or made anew, has a property if it had it before or the change brings
it about. -/
theorem exists_get?_insert_getD {t : Table κ α} {k k' : κ} {new : α} {f : α → α}
    {P : α → Prop} {Q : Prop} (hnew : ¬P new) (hf : ∀ a, P (f a) ↔ P a ∨ Q) :
    (∃ a, (t.insert k (f ((t.get? k).getD new))).get? k' = some a ∧ P a) ↔
      (∃ a, t.get? k' = some a ∧ P a) ∨ k' = k ∧ Q := by
  classical
  simp only [get?_insert_eq]
  by_cases hk : k' = k
  · subst hk
    simp only [if_true, Option.some.injEq, exists_eq_left', hf, true_and]
    refine or_congr_left ?_
    cases t.get? k' with
    | none => simpa using hnew
    | some a => simp
  · simp [hk]

/-- What does not change in an entry that is changed, or made anew, is as it was or as it was made. -/
theorem map_get?_insert_getD [DecidableEq κ] {t : Table κ α} {k k' : κ} {new : α} {f : α → α}
    {π : α → β} (hf : ∀ a, π (f a) = π a) :
    ((t.insert k (f ((t.get? k).getD new))).get? k').map π =
      ((t.get? k').map π).or (if k' = k then some (π new) else none) := by
  rw [get?_insert_eq]
  by_cases hk : k' = k
  · subst hk
    cases t.get? k' <;> simp [hf]
  · simp [hk]

/-- Ascending pairs are listed as they are. -/
theorem toList_ofList {pairs : List (κ × α)}
    (h : pairs.Pairwise fun a b ↦ compare a.1 b.1 = .lt) : (ofList pairs).toList = pairs := by
  have hne : pairs.Pairwise fun a b ↦ a.1 ≠ b.1 :=
    h.imp fun hlt heq ↦ absurd (heq ▸ hlt) (by simp)
  have heq : ofList pairs = ⟨pairs, h⟩ := by
    refine ext_get? fun k ↦ Option.ext fun a ↦ ?_
    rw [get?_ofList_eq_some_iff hne, get?_eq_some_iff]
    exact .rfl
  rw [heq]
  rfl

/-- A table is made up of what it lists. -/
theorem ofList_toList (t : Table κ α) : ofList t.toList = t :=
  toList_inj.1 (toList_ofList t.ascending)

/-! ## Functions on every entry -/

theorem get?_map_eq_some_iff {f : κ → α → β} {t : Table κ α} {k : κ} {b : β} :
    (t.map f).get? k = some b ↔ ∃ a, t.get? k = some a ∧ f k a = b := by
  simp only [get?_eq_some_iff]
  refine List.mem_map.trans ⟨fun ⟨e, he, heq⟩ ↦ ?_, fun ⟨a, ha, hb⟩ ↦ ⟨(k, a), ha, hb ▸ rfl⟩⟩
  obtain ⟨rfl, rfl⟩ := Prod.mk.inj heq
  exact ⟨e.2, he, rfl⟩

/-! ## Actions on every entry -/

omit [TransOrd κ] [LawfulEqOrd κ] in
theorem withValues_eq_iff {t : Table κ α} {values : List β} {t' : Table κ β} :
    t.withValues values = t' ↔ (t.toList.map Prod.fst).zip values = t'.toList := by
  obtain ⟨entries, ascending⟩ := t'
  simp [withValues, keys, toList]

omit [TransOrd κ] [LawfulEqOrd κ] in
/-- An action succeeds on a table if it succeeds on every entry, and it keeps the keys. -/
theorem mapEntriesM_eq_ok_iff {f : κ → α → Except ε β} {t : Table κ α} {t' : Table κ β} :
    t.mapEntriesM f = .ok t' ↔
      List.Forall₂ (fun e e' ↦ e'.1 = e.1 ∧ f e.1 e.2 = .ok e'.2) t.toList t'.toList := by
  rw [mapEntriesM, Outcome.map_eq_ok_iff]
  simp only [Outcome.mapM_eq_ok_iff, withValues_eq_iff]
  exact ⟨fun ⟨_, hvalues, h⟩ ↦ h ▸ forall₂_zip hvalues, fun h ↦ ⟨_, forall₂_values h⟩⟩

omit [TransOrd κ] [LawfulEqOrd κ] in
/-- Tables whose values succeed alike under the same keys succeed alike. -/
theorem mapEntriesM_congr {f : κ → α → Except ε β} {t t' : Table κ α}
    (h : List.Forall₂ (fun e e' ↦ e'.1 = e.1 ∧ ∀ b, f e.1 e.2 = .ok b ↔ f e'.1 e'.2 = .ok b)
      t.toList t'.toList) {u : Table κ β} :
    t.mapEntriesM f = .ok u ↔ t'.mapEntriesM f = .ok u := by
  rw [mapEntriesM_eq_ok_iff, mapEntriesM_eq_ok_iff]
  generalize t.toList = l, t'.toList = l', u.toList = us at h
  induction h generalizing us with
  | nil => exact .rfl
  | cons he _ ih => cases us <;> simp [he, ih]

omit [TransOrd κ] [LawfulEqOrd κ] in
/-- An action on values succeeds on a table if it succeeds on every value. -/
theorem mapM_eq_ok_iff {f : α → Except ε β} {t : Table κ α} {t' : Table κ β} :
    t.mapM f = .ok t' ↔
      List.Forall₂ (fun e e' ↦ e'.1 = e.1 ∧ f e.2 = .ok e'.2) t.toList t'.toList := by
  rw [← mapEntriesM_eq_ok_iff (f := fun _ ↦ f), mapEntriesM, mapM, values, List.mapM_map]
  rfl

/-- What became of the value under a key. -/
theorem exists_get?_of_forall₂ {R : κ × α → κ × β → Prop} {t : Table κ α} {t' : Table κ β}
    (h : List.Forall₂ (fun e e' ↦ e'.1 = e.1 ∧ R e e') t.toList t'.toList) {k : κ} {a : α}
    (hk : t.get? k = some a) : ∃ b, t'.get? k = some b ∧ R (k, a) (k, b) := by
  obtain ⟨i, hi, he⟩ := List.getElem_of_mem (get?_eq_some_iff.1 hk)
  have hi' : i < t'.toList.length := h.length_eq ▸ hi
  obtain ⟨hkey, hr⟩ := h.get hi hi'
  have hmem : t'.toList[i] ∈ t'.toList := List.getElem_mem hi'
  simp only [List.get_eq_getElem, he] at hkey hr
  generalize t'.toList[i] = e at hkey hr hmem
  obtain ⟨k', b⟩ := e
  obtain rfl : k' = k := hkey
  exact ⟨b, get?_eq_some_iff.2 hmem, hr⟩

end Table

/-- Sets that list the same names are the same. -/
theorem Names.ext {s t : Names} (h : ∀ name, name ∈ s.toList ↔ name ∈ t.toList) : s = t := by
  have hget {s : Names} {name : String} : s.get? name = some () ↔ name ∈ s.toList :=
    ⟨fun hs ↦ Table.mem_keys_iff.2 ⟨(), hs⟩, fun hs ↦ (Table.mem_keys_iff.1 hs).choose_spec⟩
  exact Table.ext_get? fun name ↦ Option.ext fun _ ↦ hget.trans ((h name).trans hget.symm)

/-- A set is made up of the names that it lists. -/
theorem Names.ofList_toList (s : Names) : Names.ofList s.toList = s := by
  have hpairs : s.toList.map (fun name ↦ (name, ())) = Table.toList s := by
    show (s.entries.map Prod.fst).map (fun name ↦ (name, ())) = s.entries
    rw [List.map_map]
    exact List.map_id _
  have hfold : Names.ofList s.toList = Table.ofList (s.toList.map fun name ↦ (name, ())) := by
    rw [Table.ofList, Table.insertAll, List.foldl_map]
    rfl
  rw [hfold, hpairs, Table.ofList_toList]

theorem Names.mem_addAll {s : Names} {names : List String} {name : String} :
    name ∈ (s.addAll names).toList ↔ name ∈ s.toList ∨ name ∈ names := by
  have hadd : ∀ (s : Names) (n : String),
      name ∈ (s.add n).toList ↔ name ∈ s.toList ∨ name = n := fun _ _ ↦ Table.mem_keys_insert
  rw [Names.addAll, foldl_iff (P := fun s : Names ↦ name ∈ s.toList) hadd]
  simp

/-- Adding names that are there changes nothing. -/
theorem Names.addAll_eq_self {s : Names} {names : List String}
    (h : ∀ name ∈ names, name ∈ s.toList) : s.addAll names = s :=
  Names.ext fun name ↦ Names.mem_addAll.trans (or_iff_left_of_imp (h name))

theorem Names.add_eq_self {s : Names} {name : String} (h : name ∈ s.toList) : s.add name = s :=
  Names.addAll_eq_self (List.forall_mem_singleton.2 h)

end SongBundle
