import SongBundle.Graph
import SongBundle.Proofs.Outcome
import SongBundle.Proofs.Track
import SongBundle.Proofs.Word

/-!
# What a graph of moves records

Tracks are merged with checked arithmetic, which gives up where an index has no next one.  `visit`,
`merge` and `mergeAll` are the same without checks: there, nothing comes next.  `build_eq_some_iff`
says that both come to the same for tracks that end before the greatest index (`Track.Bounded`), and
that no other tracks can be merged.

A graph is filled one entry of a track at a time.  A property is `Recorded` if a graph keeps it once
it has it and there is a rule which entries bring it about; such a property holds of the graph of a
song exactly if some entry of some track brings it about (`Recorded.mergeAll`).

* `recorded_follows` and `recorded_precedes`: two clips are neighbours if they are played one right
  after the other.
* `recorded_gathers`: a move gathers the clips that are played under its name.
* `recorded_variants`: the clips of a graph are those that are played.
* `clipOrder_mergeAll`: the clips of every level are kept in the order of play.
-/

set_option autoImplicit false

namespace SongBundle

/-- Every index of a track has one after it. -/
def Track.Bounded {α : Type} (t : Track α) : Prop :=
  ∀ i ∈ t.entries.keys, i.toNat + 1 < UInt32.size

instance {α : Type} : DecidablePred (Track.Bounded (α := α)) := fun t ↦
  List.decidableBAll (fun i : UInt32 ↦ i.toNat + 1 < UInt32.size) t.entries.keys

theorem Track.Gapless.bounded {α : Type} {t : Track α} (h : t.Gapless) : t.Bounded := by
  refine List.forall_mem_map.2 fun e (he : e ∈ t.toList) ↦ ?_
  rw [h.toList_eq] at he
  obtain ⟨n, hn, rfl⟩ := List.mem_mapIdx.1 he
  have hlt : n + 1 < UInt32.size := Nat.lt_of_le_of_lt hn h.length_lt
  rwa [UInt32.toNat_ofNat_of_lt' (Nat.lt_of_succ_lt hlt)]

namespace MoveGraph

/-! ## Merging without checks -/

/-- The clip right after an index, if there is such an index. -/
def nextClip? (t : Track Move) (index : UInt32) : Option String :=
  (plus? index 1).bind (clipAt? t)

/-- Merges the move at an index of a track. -/
def visit (t : Track Move) (g : MoveGraph) (index : UInt32) (m : Move) : MoveGraph :=
  g.mergeMove m (clipBefore? t index) (nextClip? t index)

/-- Merges a level. -/
def merge (g : MoveGraph) (level : Difficulty) (t : Track Move) : MoveGraph :=
  (t.toList.foldl (fun g e ↦ visit t g e.1 e.2) g).setOrder level t

/-- Merges several levels and marks the moves for beginners. -/
def mergeAll (tracks : List (Difficulty × Track Move)) (beginnerMoves : List String) : MoveGraph :=
  (tracks.foldl (fun g l ↦ g.merge l.1 l.2) empty).markBeginner beginnerMoves

theorem addMove_eq_some_iff {t : Track Move} {g g' : MoveGraph} {i : UInt32} {m : Move} :
    addMove t g i m = some g' ↔ i.toNat + 1 < UInt32.size ∧ visit t g i m = g' := by
  rw [addMove, visit, clipAfter, nextClip?]
  by_cases h : i.toNat + 1 < UInt32.size
  · rw [plus?_of_lt h]
    simp [h]
  · have hnone : plus? i 1 = none := if_neg h
    rw [hnone]
    simp [h]

theorem addTrack_eq_some_iff {g g' : MoveGraph} {level : Difficulty} {t : Track Move} :
    g.addTrack level t = some g' ↔ t.Bounded ∧ g.merge level t = g' := by
  have hbounded : t.Bounded ↔ ∀ e ∈ t.toList, e.1.toNat + 1 < UInt32.size := List.forall_mem_map
  have hmoves := Outcome.foldlM_eq_some_iff (f := fun g (e : UInt32 × Move) ↦ addMove t g e.1 e.2)
    (fun _ _ _ ↦ addMove_eq_some_iff) t.toList g
  rw [addTrack, Option.bind_eq_bind, Option.bind_eq_some_iff, hbounded, merge]
  simp only [hmoves, and_assoc, exists_and_left, exists_eq_left', Option.pure_def,
    Option.some.injEq]

theorem build_eq_some_iff {tracks : List (Difficulty × Track Move)} {beginnerMoves : List String}
    {g : MoveGraph} :
    build tracks beginnerMoves = some g ↔
      (∀ l ∈ tracks, l.2.Bounded) ∧ mergeAll tracks beginnerMoves = g := by
  have htracks := Outcome.foldlM_eq_some_iff
    (f := fun g (l : Difficulty × Track Move) ↦ g.addTrack l.1 l.2)
    (fun _ _ _ ↦ addTrack_eq_some_iff) tracks empty
  rw [build, Option.bind_eq_bind, Option.bind_eq_some_iff, mergeAll]
  simp only [htracks, and_assoc, exists_and_left, exists_eq_left', Option.pure_def,
    Option.some.injEq]

/-! ## Neighbours, order of play and moves -/

/-- The clip `y` is played right after the clip `x`. -/
def Follows (g : MoveGraph) (x y : String) : Prop :=
  ∃ v, g.variants.get? x = some v ∧ y ∈ v.after.toList

/-- The clip `x` is played right before the clip `y`. -/
def Precedes (g : MoveGraph) (x y : String) : Prop :=
  ∃ v, g.variants.get? y = some v ∧ x ∈ v.before.toList

/-- The clip `y` comes right after the clip `x` in the order of play of some level. -/
def Consecutive (g : MoveGraph) (x y : String) : Prop :=
  ∃ level order i, g.clipOrder.get? level = some order ∧
    order[i]? = some x ∧ order[i + 1]? = some y

/-- A clip belongs to the move with a name. -/
def Gathers (g : MoveGraph) (name clip : String) : Prop :=
  ∃ p, g.parents.get? name = some p ∧ clip ∈ p.variants.toList

/-! ## Recorded properties -/

/-- The graph without moves lacks a property, a move on a track brings it about exactly if it
satisfies `Q`, and nothing else matters to it. -/
structure Recorded (P : MoveGraph → Prop) (Q : Track Move → UInt32 → Move → Prop) : Prop where
  not_empty : ¬P empty
  visit : ∀ t g i m, P (visit t g i m) ↔ P g ∨ Q t i m
  order : ∀ g order, P { g with clipOrder := order } ↔ P g
  markOne : ∀ g name, P (markOne g name) ↔ P g

section

variable {P : MoveGraph → Prop} {Q : Track Move → UInt32 → Move → Prop}

/-- What marking one move does not touch, marking several does not touch either. -/
theorem markBeginner_iff (h : ∀ g name, P (markOne g name) ↔ P g) (g : MoveGraph)
    (names : List String) : P (g.markBeginner names) ↔ P g := by
  rw [MoveGraph.markBeginner]
  induction names generalizing g with
  | nil => rfl
  | cons n names ih => rw [List.foldl_cons, ih, h]

theorem Recorded.merge (h : Recorded P Q) (g : MoveGraph) (level : Difficulty)
    (t : Track Move) : P (g.merge level t) ↔ P g ∨ ∃ e ∈ t.toList, Q t e.1 e.2 := by
  rw [MoveGraph.merge, setOrder, h.order]
  exact foldl_iff (Q := fun e ↦ Q t e.1 e.2) (fun g e ↦ h.visit t g e.1 e.2) t.toList g

theorem Recorded.markBeginner (h : Recorded P Q) (g : MoveGraph) (names : List String) :
    P (g.markBeginner names) ↔ P g := markBeginner_iff h.markOne g names

/-- **A recorded property holds of the graph of a song if an entry of a track brings it about.** -/
theorem Recorded.mergeAll (h : Recorded P Q) (tracks : List (Difficulty × Track Move))
    (beginnerMoves : List String) :
    P (mergeAll tracks beginnerMoves) ↔ ∃ l ∈ tracks, ∃ e ∈ l.2.toList, Q l.2 e.1 e.2 := by
  rw [MoveGraph.mergeAll, h.markBeginner]
  refine (foldl_iff (P := P) (Q := fun l ↦ ∃ e ∈ l.2.toList, Q l.2 e.1 e.2)
    (fun g l ↦ h.merge g l.1 l.2) tracks empty).trans ?_
  exact or_iff_right h.not_empty

end

/-! ## What is recorded -/

theorem variants_markOne (g : MoveGraph) (name : String) :
    (g.markOne name).variants = g.variants := by
  rw [markOne]
  split <;> rfl

section

variable (x y clip name : String)

theorem recorded_follows :
    Recorded (·.Follows x y) fun t i m ↦ x = m.clip ∧ nextClip? t i = some y where
  not_empty := fun ⟨_, h, _⟩ ↦ nomatch h
  visit t g i m := by
    refine Table.exists_get?_insert_getD (P := fun v ↦ y ∈ v.after.toList)
      (f := fun v ↦ extendVariant v _ _) List.not_mem_nil fun v ↦ ?_
    rw [extendVariant, Names.mem_addAll, Option.mem_toList]
  order _ _ := .rfl
  markOne g name := by rw [Follows, variants_markOne, Follows]

theorem recorded_precedes :
    Recorded (·.Precedes x y) fun t i m ↦ y = m.clip ∧ clipBefore? t i = some x where
  not_empty := fun ⟨_, h, _⟩ ↦ nomatch h
  visit t g i m := by
    refine Table.exists_get?_insert_getD (P := fun v ↦ x ∈ v.before.toList)
      (f := fun v ↦ extendVariant v _ _) List.not_mem_nil fun v ↦ ?_
    rw [extendVariant, Names.mem_addAll, Option.mem_toList]
  order _ _ := .rfl
  markOne g name := by rw [Precedes, variants_markOne, Precedes]

theorem recorded_variants :
    Recorded (clip ∈ ·.variants.keys) fun _ _ m ↦ clip = m.clip where
  not_empty := List.not_mem_nil
  visit _ _ _ _ := Table.mem_keys_insert
  order _ _ := .rfl
  markOne g name := by rw [variants_markOne]

theorem recorded_gathers :
    Recorded (·.Gathers name clip) fun _ _ m ↦ name = m.name ∧ clip = m.clip where
  not_empty := fun ⟨_, h, _⟩ ↦ nomatch h
  visit t g i m :=
    Table.exists_get?_insert_getD (P := fun p ↦ clip ∈ p.variants.toList)
      (f := fun p ↦ extendParent p m.clip _) List.not_mem_nil fun _ ↦ Table.mem_keys_insert
  order _ _ := .rfl
  markOne g n := by
    rw [MoveGraph.markOne]
    split
    · rename_i p hp
      simp only [Gathers, Table.get?_insert_eq]
      by_cases hname : name = n
      · subst hname
        simp [hp]
      · simp [hname]
    · exact .rfl

end

/-! ## Moves for beginners -/

/-- Marking a move changes no other one. -/
theorem markOne_eq (g : MoveGraph) (name : String) :
    g.markOne name =
      { g with
        parents := g.parents.map fun n p ↦ { p with beginner := p.beginner || n = name } } := by
  have hmap (n : String) (p : MoveParent) :
      (g.parents.map fun n p ↦ { p with beginner := p.beginner || n = name }).get? n = some p ↔
        ∃ q, g.parents.get? n = some q ∧ { q with beginner := q.beginner || n = name } = p :=
    Table.get?_map_eq_some_iff
  rw [markOne]
  split
  · rename_i q hq
    refine congrArg (MoveGraph.mk · g.variants g.clipOrder) ?_
    refine Table.ext_get? fun n ↦ Option.ext fun p ↦ ?_
    rw [hmap, Table.get?_insert_eq]
    by_cases hn : n = name <;> simp [hn, hq]
  · rename_i hnone
    refine congrArg (MoveGraph.mk · g.variants g.clipOrder) ?_
    refine Table.ext_get? fun n ↦ Option.ext fun p ↦ ?_
    rw [hmap]
    by_cases hn : n = name <;> simp [hn, hnone]

theorem markOne_comm (g : MoveGraph) (a b : String) :
    (g.markOne a).markOne b = (g.markOne b).markOne a := by
  rw [markOne_eq, markOne_eq, markOne_eq, markOne_eq]
  refine congrArg (MoveGraph.mk · g.variants g.clipOrder) (Table.toList_inj.1 ?_)
  simp [Table.map, Table.toList, Bool.or_right_comm]

/-- Moves can be marked in any order. -/
theorem markBeginner_congr {names names' : List String} (hperm : names.Perm names')
    (g : MoveGraph) : g.markBeginner names = g.markBeginner names' :=
  hperm.foldl_eq' (fun a _ b _ g ↦ markOne_comm g a b) g

/-! ## The order of play -/

theorem clipOrder_merge (g : MoveGraph) (level : Difficulty) (t : Track Move) :
    (g.merge level t).clipOrder = g.clipOrder.insert level (t.values.map Move.clip) := by
  have hmoves : ∀ (entries : List (UInt32 × Move)) (g : MoveGraph),
      (entries.foldl (fun g e ↦ visit t g e.1 e.2) g).clipOrder = g.clipOrder := by
    intro entries
    induction entries with
    | nil => exact fun _ ↦ rfl
    | cons e entries ih => exact fun g ↦ ih (visit t g e.1 e.2)
  rw [merge, setOrder, hmoves]

theorem clipOrder_markBeginner (g : MoveGraph) (names : List String) :
    (g.markBeginner names).clipOrder = g.clipOrder := by
  refine (markBeginner_iff (P := fun g' ↦ g'.clipOrder = g.clipOrder) (fun g' n ↦ ?_) g names).2 rfl
  rw [markOne]
  split <;> rfl

theorem clipOrder_mergeAll (tracks : List (Difficulty × Track Move)) (beginnerMoves : List String) :
    (mergeAll tracks beginnerMoves).clipOrder =
      .ofList (tracks.map fun l ↦ (l.1, l.2.values.map Move.clip)) := by
  rw [mergeAll, clipOrder_markBeginner, Table.ofList, Table.insertAll, List.foldl_map]
  exact (List.foldl_hom clipOrder fun g l ↦ (clipOrder_merge g l.1 l.2).symm).symm

/-! ## Neighbours on a track without gaps -/

section

variable {t : Track Move} (h : t.Gapless) {x y : String}

include h

theorem clipAt?_of_gapless (i : UInt32) : clipAt? t i = (t.values.map Move.clip)[i.toNat]? := by
  rw [clipAt?, h.get?_eq, List.getElem?_map]

theorem nextClip?_of_gapless {i : Nat} (hi : i + 1 < UInt32.size) :
    nextClip? t (UInt32.ofNat i) = (t.values.map Move.clip)[i + 1]? := by
  have hindex : (UInt32.ofNat i).toNat = i := UInt32.toNat_ofNat_of_lt' (Nat.lt_of_succ_lt hi)
  have hnext : plus? (UInt32.ofNat i) 1 = some (UInt32.ofNat (i + 1)) := by
    rw [plus?_eq_some_iff, hindex, UInt32.toNat_ofNat_of_lt' hi]
    rfl
  rw [nextClip?, hnext, Option.bind_some, clipAt?_of_gapless h, UInt32.toNat_ofNat_of_lt' hi]

theorem clipBefore?_of_gapless {i : Nat} (hi : i + 1 < UInt32.size) :
    clipBefore? t (UInt32.ofNat (i + 1)) = (t.values.map Move.clip)[i]? := by
  have hne : UInt32.ofNat (i + 1) ≠ 0 := by
    intro h0
    have hzero := congrArg UInt32.toNat h0
    rw [UInt32.toNat_ofNat_of_lt' hi] at hzero
    exact absurd hzero (Nat.succ_ne_zero i)
  have hprev := toNat_pred hne
  rw [UInt32.toNat_ofNat_of_lt' hi] at hprev
  rw [clipBefore?, if_neg hne, clipAt?_of_gapless h, Nat.succ.inj hprev]

/-- Each clip is followed by the one at the next position. -/
theorem exists_nextClip?_iff :
    (∃ e ∈ t.toList, x = e.2.clip ∧ nextClip? t e.1 = some y) ↔
      ∃ i, (t.values.map Move.clip)[i]? = some x ∧ (t.values.map Move.clip)[i + 1]? = some y := by
  rw [h.exists_mem_iff (P := fun i m ↦ x = m.clip ∧ nextClip? t i = some y)]
  refine exists_congr fun i ↦ ?_
  rw [List.getElem?_map, Option.map_eq_some_iff]
  constructor
  · rintro ⟨m, hm, rfl, hnext⟩
    obtain ⟨hi, -⟩ := List.getElem?_eq_some_iff.1 hm
    rw [nextClip?_of_gapless h (Nat.lt_of_le_of_lt hi h.length_lt)] at hnext
    exact ⟨⟨m, hm, rfl⟩, hnext⟩
  · rintro ⟨⟨m, hm, rfl⟩, hnext⟩
    obtain ⟨hi, -⟩ := List.getElem?_eq_some_iff.1 hm
    rw [← nextClip?_of_gapless h (Nat.lt_of_le_of_lt hi h.length_lt)] at hnext
    exact ⟨m, hm, rfl, hnext⟩

/-- Each clip but the first is preceded by the one at the position before. -/
theorem exists_clipBefore?_iff :
    (∃ e ∈ t.toList, y = e.2.clip ∧ clipBefore? t e.1 = some x) ↔
      ∃ i, (t.values.map Move.clip)[i]? = some x ∧ (t.values.map Move.clip)[i + 1]? = some y := by
  rw [h.exists_mem_iff (P := fun i m ↦ y = m.clip ∧ clipBefore? t i = some x)]
  constructor
  · rintro ⟨i, m, hm, rfl, hprev⟩
    obtain ⟨hi, -⟩ := List.getElem?_eq_some_iff.1 hm
    cases i with
    | zero => cases hprev
    | succ i =>
      rw [clipBefore?_of_gapless h (Nat.lt_trans hi h.length_lt)] at hprev
      exact ⟨i, hprev, by rw [List.getElem?_map, hm, Option.map_some]⟩
  · rintro ⟨i, hprev, hclip⟩
    rw [List.getElem?_map, Option.map_eq_some_iff] at hclip
    obtain ⟨m, hm, rfl⟩ := hclip
    obtain ⟨hi, -⟩ := List.getElem?_eq_some_iff.1 hm
    rw [← clipBefore?_of_gapless h (Nat.lt_trans hi h.length_lt)] at hprev
    exact ⟨i + 1, m, hm, rfl, hprev⟩

end

/-! ## The graph of a song -/

section

variable {tracks : Table Difficulty (Track Move)} {beginnerMoves : List String}

theorem clipOrder_mergeAll_toList :
    (mergeAll tracks.toList beginnerMoves).clipOrder =
      tracks.map fun _ t ↦ t.values.map Move.clip := by
  rw [clipOrder_mergeAll, ← Table.toList_inj]
  exact Table.toList_ofList (tracks.map fun _ t ↦ t.values.map Move.clip).ascending

theorem get?_clipOrder_mergeAll_iff {level : Difficulty} {order : List String} :
    (mergeAll tracks.toList beginnerMoves).clipOrder.get? level = some order ↔
      ∃ t, (level, t) ∈ tracks.toList ∧ t.values.map Move.clip = order := by
  rw [clipOrder_mergeAll_toList, Table.get?_map_eq_some_iff]
  simp only [Table.get?_eq_some_iff]

/-- The clips of the graph are those in the order of play of some level. -/
theorem mem_variants_mergeAll_iff {clip : String} :
    clip ∈ (mergeAll tracks.toList beginnerMoves).variants.keys ↔
      ∃ level order, (mergeAll tracks.toList beginnerMoves).clipOrder.get? level = some order ∧
        clip ∈ order := by
  rw [(recorded_variants clip).mergeAll]
  simp only [get?_clipOrder_mergeAll_iff]
  constructor
  · rintro ⟨l, hl, e, he, rfl⟩
    exact ⟨l.1, _, ⟨l.2, hl, rfl⟩, List.mem_map.2 ⟨e.2, List.mem_map_of_mem he, rfl⟩⟩
  · rintro ⟨level, _, ⟨t, ht, rfl⟩, hclip⟩
    obtain ⟨m, hm, rfl⟩ := List.mem_map.1 hclip
    obtain ⟨e, he, rfl⟩ := List.mem_map.1 hm
    exact ⟨_, ht, e, he, rfl⟩

theorem consecutive_mergeAll_iff {x y : String} :
    (mergeAll tracks.toList beginnerMoves).Consecutive x y ↔
      ∃ l ∈ tracks.toList, ∃ i, (l.2.values.map Move.clip)[i]? = some x ∧
        (l.2.values.map Move.clip)[i + 1]? = some y := by
  simp only [Consecutive, get?_clipOrder_mergeAll_iff]
  constructor
  · rintro ⟨level, _, i, ⟨t, ht, rfl⟩, h⟩
    exact ⟨_, ht, i, h⟩
  · rintro ⟨l, hl, i, h⟩
    exact ⟨l.1, _, i, ⟨l.2, hl, rfl⟩, h⟩

variable (hgapless : ∀ l ∈ tracks.toList, l.2.Gapless) {x y : String}

include hgapless

/-- **A clip has those neighbours after it that come after it in the order of play.** -/
theorem follows_mergeAll_iff_consecutive :
    (mergeAll tracks.toList beginnerMoves).Follows x y ↔
      (mergeAll tracks.toList beginnerMoves).Consecutive x y := by
  rw [(recorded_follows x y).mergeAll, consecutive_mergeAll_iff]
  exact exists_congr fun l ↦ and_congr_right fun hl ↦ exists_nextClip?_iff (hgapless l hl)

/-- **A clip has those neighbours before it that come before it in the order of play.** -/
theorem precedes_mergeAll_iff_consecutive :
    (mergeAll tracks.toList beginnerMoves).Precedes x y ↔
      (mergeAll tracks.toList beginnerMoves).Consecutive x y := by
  rw [(recorded_precedes x y).mergeAll, consecutive_mergeAll_iff]
  exact exists_congr fun l ↦ and_congr_right fun hl ↦ exists_clipBefore?_iff (hgapless l hl)

end

end MoveGraph

end SongBundle
