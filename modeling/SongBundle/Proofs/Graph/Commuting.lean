import Mathlib.Data.List.Perm.Basic
import SongBundle.Proofs.Graph.Aggregation

/-!
# Levels can be added in any order, and again

A graph keeps the first description of a clip and of a move, and it unites all else.  So the order
of the levels shows in the descriptions alone.

* `SamePlay` is what graphs share whose levels were added in different orders, and `Agree` says that
  no two entries describe anything differently.  `Describes.eq_of_agree` puts a graph together from
  what is recorded and what is described.
* `Holds` says that a graph has all that an entry could add; adding it again then changes nothing
  (`visit_of_holds`).  The genre of an entry does not matter to it, but that of the stored clip.
* `build_commutes` has both halves.
-/

set_option autoImplicit false

namespace SongBundle.MoveGraph

/-! ## Graphs of the same levels -/

/-- The entries of levels, level by level. -/
def entriesOf (tracks : List (Difficulty × Track Move)) : List Move :=
  tracks.flatMap fun l ↦ l.2.values

/-- Two graphs have the same clips with the same neighbours, the same moves with the same clips, and
the same order of play. -/
structure SamePlay (g g' : MoveGraph) : Prop where
  neighbours_eq : ∀ clip, (g.variants.get? clip).map (fun v ↦ (v.before, v.after)) =
    (g'.variants.get? clip).map fun v ↦ (v.before, v.after)
  variants_eq : ∀ name, (g.parents.get? name).map MoveParent.variants =
    (g'.parents.get? name).map MoveParent.variants
  clipOrder_eq : g.clipOrder = g'.clipOrder

/-- Entries with the same clip say the same of it, and entries with the same name say the same of
the move. -/
structure Agree (ms : List Move) : Prop where
  clip : ∀ m ∈ ms, ∀ m' ∈ ms, m.clip = m'.clip →
    m.name = m'.name ∧ m.genre = m'.genre ∧ m.era = m'.era ∧ m.links = m'.links ∧
      m.flags = m'.flags
  name : ∀ m ∈ ms, ∀ m' ∈ ms, m.name = m'.name →
    m.displayName = m'.displayName ∧ m.songName = m'.songName

theorem mergeAll_eq_mergeCalls (tracks : List (Difficulty × Track Move))
    (beginnerMoves : List String) :
    mergeAll tracks beginnerMoves =
      mergeCalls ((tracks.map fun l ↦ .track l.1 l.2) ++ [.beginners beginnerMoves]) := by
  rw [mergeCalls, List.foldl_append, List.foldl_map]
  rfl

theorem describes_mergeAll (tracks : List (Difficulty × Track Move)) (beginnerMoves : List String) :
    (mergeAll tracks beginnerMoves).Describes (entriesOf tracks) := by
  have h :=
    describes_mergeCalls ((tracks.map fun l ↦ Call.track l.1 l.2) ++ [.beginners beginnerMoves])
  have hmoves : movesOf ((tracks.map fun l ↦ Call.track l.1 l.2) ++ [.beginners beginnerMoves]) =
      entriesOf tracks := by
    simp [movesOf, entriesOf, List.flatMap_map, Call.moves]
  rwa [hmoves, ← mergeAll_eq_mergeCalls] at h

/-- The moves for beginners are those that are named and played. -/
theorem fit_mergeAll {tracks : List (Difficulty × Track Move)} {beginnerMoves : List String}
    {name : String} : (mergeAll tracks beginnerMoves).Fit name ↔
      name ∈ beginnerMoves ∧ ∃ m ∈ entriesOf tracks, m.name = name := by
  have hnone : ¬(mergeAll tracks []).Fit name := by
    refine (foldl_iff (P := fun g ↦ g.Fit name) (Q := fun _ ↦ False)
      (fun g l ↦ (fit_merge l.1 l.2).trans (or_false _).symm.to_iff) tracks empty).not.2 ?_
    rintro (⟨_, h, _⟩ | ⟨_, _, h⟩)
    · cases h
    · exact h
  have hmark : mergeAll tracks beginnerMoves = (mergeAll tracks []).markBeginner beginnerMoves := rfl
  rw [hmark, fit_markBeginner, or_iff_right hnone, (describes_mergeAll tracks []).mem_parents_iff]

section

variable {g g' : MoveGraph} {ms ms' : List Move} (h : g.Describes ms) (h' : g'.Describes ms')
  (hmem : ∀ m, m ∈ ms ↔ m ∈ ms') (hagree : Agree ms)

include h h' hmem hagree

/-- Entries that agree describe a clip alike, whichever comes first. -/
theorem Describes.alone_eq {clip : String} {v v' : MoveVariant}
    (hv : g.variants.get? clip = some v) (hv' : g'.variants.get? clip = some v') :
    alone v = alone v' := by
  obtain ⟨first, hfirst, halone⟩ := h.exists_first_clip hv
  obtain ⟨first', hfirst', halone'⟩ := h'.exists_first_clip hv'
  have hclip : first.clip = first'.clip := by
    have h₁ : first.clip = clip := by simpa using List.find?_some hfirst
    have h₂ : first'.clip = clip := by simpa using List.find?_some hfirst'
    rw [h₁, h₂]
  obtain ⟨hname, hgenre, hera, hlinks, hflags⟩ := hagree.clip first
    (List.mem_of_find?_eq_some hfirst) first' ((hmem _).2 (List.mem_of_find?_eq_some hfirst')) hclip
  rw [halone, halone', newVariant, newVariant, hclip, hname, hgenre, hera, hlinks, hflags]

/-- Entries that agree give a move the same titles, whichever comes first. -/
theorem Describes.titles_eq {name : String} {p p' : MoveParent}
    (hp : g.parents.get? name = some p) (hp' : g'.parents.get? name = some p') :
    titles p = titles p' := by
  obtain ⟨first, hfirst, htitles⟩ := h.exists_first_name hp
  obtain ⟨first', hfirst', htitles'⟩ := h'.exists_first_name hp'
  have hname : first.name = first'.name := by
    have h₁ : first.name = name := by simpa using List.find?_some hfirst
    have h₂ : first'.name = name := by simpa using List.find?_some hfirst'
    rw [h₁, h₂]
  obtain ⟨hdisplay, hsong⟩ := hagree.name first (List.mem_of_find?_eq_some hfirst) first'
    ((hmem _).2 (List.mem_of_find?_eq_some hfirst')) hname
  rw [htitles, htitles', titles, titles, newParent, newParent, hname, hdisplay, hsong]

theorem Describes.variants_eq (hplay : SamePlay g g') : g.variants = g'.variants := by
  refine Table.ext_get? fun clip ↦ ?_
  have hneighbours := hplay.neighbours_eq clip
  cases hv : g.variants.get? clip with
  | none =>
    rw [hv] at hneighbours
    exact (Option.map_eq_none_iff.1 hneighbours.symm).symm
  | some v =>
    rw [hv] at hneighbours
    obtain ⟨v', hv', hsame⟩ := Option.map_eq_some_iff.1 hneighbours.symm
    have halone := h.alone_eq h' hmem hagree hv hv'
    obtain ⟨hbefore, hafter⟩ := Prod.mk.inj hsame
    rw [hv', Option.some.injEq]
    calc v = { alone v with before := v.before, after := v.after } := rfl
      _ = { alone v' with before := v'.before, after := v'.after } := by
        rw [halone, hbefore, hafter]
      _ = v' := rfl

theorem Describes.parents_eq (hplay : SamePlay g g') (hfit : ∀ name, g.Fit name ↔ g'.Fit name) :
    g.parents = g'.parents := by
  refine Table.ext_get? fun name ↦ ?_
  have hclips := hplay.variants_eq name
  cases hp : g.parents.get? name with
  | none =>
    rw [hp] at hclips
    exact (Option.map_eq_none_iff.1 hclips.symm).symm
  | some p =>
    rw [hp] at hclips
    obtain ⟨p', hp', hsame⟩ := Option.map_eq_some_iff.1 hclips.symm
    have htitles := h.titles_eq h' hmem hagree hp hp'
    -- the genres and eras of a move are those of its clips
    have htraits (trait : Trait) : trait.ofParent p = trait.ofParent p' := by
      refine Names.ext fun s ↦ ?_
      rw [h.mem_traits_iff trait hp, h'.mem_traits_iff trait hp',
        h.variants_eq h' hmem hagree hplay, hsame]
    have hbeginner : p.beginner = p'.beginner := by
      have hiff := hfit name
      rw [Fit, Fit, Table.exists_get?_iff hp, Table.exists_get?_iff hp'] at hiff
      exact Bool.eq_iff_iff.2 hiff
    have hgathered (p : MoveParent) : p = ⟨(titles p).1, (titles p).2.1, (titles p).2.2,
      p.variants, Trait.genre.ofParent p, Trait.era.ofParent p, p.beginner⟩ := rfl
    rw [hp', Option.some.injEq, hgathered p, hgathered p', htitles, hsame, htraits, htraits,
      hbeginner]

/-- Two graphs that record the same are the same if their entries agree. -/
theorem Describes.eq_of_agree (hplay : SamePlay g g') (hfit : ∀ name, g.Fit name ↔ g'.Fit name) :
    g = g' :=
  calc g = ⟨g.parents, g.variants, g.clipOrder⟩ := rfl
    _ = ⟨g'.parents, g'.variants, g'.clipOrder⟩ := by
      rw [h.parents_eq h' hmem hagree hplay hfit, h.variants_eq h' hmem hagree hplay,
        hplay.clipOrder_eq]
    _ = g' := rfl

end

theorem Recorded.mergeAll_congr {P : MoveGraph → Prop} {Q : Track Move → UInt32 → Move → Prop}
    (h : Recorded P Q) {tracks tracks' : List (Difficulty × Track Move)}
    (hperm : tracks.Perm tracks') (beginnerMoves : List String) :
    P (MoveGraph.mergeAll tracks beginnerMoves) ↔ P (MoveGraph.mergeAll tracks' beginnerMoves) := by
  rw [h.mergeAll, h.mergeAll]
  simp only [hperm.mem_iff]

theorem mem_entriesOf_congr {tracks tracks' : List (Difficulty × Track Move)}
    (hperm : tracks.Perm tracks') (m : Move) : m ∈ entriesOf tracks ↔ m ∈ entriesOf tracks' :=
  (hperm.flatMap_right _).mem_iff

/-- Graphs of the same levels record the same. -/
theorem samePlay_mergeAll {tracks tracks' : List (Difficulty × Track Move)}
    (hperm : tracks.Perm tracks') (hlevels : (tracks.map Prod.fst).Nodup)
    (beginnerMoves : List String) :
    SamePlay (mergeAll tracks beginnerMoves) (mergeAll tracks' beginnerMoves) where
  neighbours_eq clip := by
    have hkeys := fun clip ↦ (recorded_variants clip).mergeAll_congr hperm beginnerMoves
    rcases Table.get?_cases hkeys clip with ⟨hv, hv'⟩ | ⟨v, v', hv, hv'⟩
    · rw [hv, hv']
    rw [hv, hv', Option.map_some, Option.map_some, Option.some.injEq, Prod.mk.injEq]
    constructor
    · refine Names.ext fun x ↦ ?_
      have hsame := (recorded_precedes x clip).mergeAll_congr hperm beginnerMoves
      rwa [Precedes, Precedes, Table.exists_get?_iff hv, Table.exists_get?_iff hv'] at hsame
    · refine Names.ext fun y ↦ ?_
      have hsame := (recorded_follows clip y).mergeAll_congr hperm beginnerMoves
      rwa [Follows, Follows, Table.exists_get?_iff hv, Table.exists_get?_iff hv'] at hsame
  variants_eq name := by
    have hkeys (name : String) : name ∈ (mergeAll tracks beginnerMoves).parents.keys ↔
        name ∈ (mergeAll tracks' beginnerMoves).parents.keys := by
      rw [(describes_mergeAll tracks _).mem_parents_iff, (describes_mergeAll tracks' _).mem_parents_iff]
      simp only [mem_entriesOf_congr hperm]
    rcases Table.get?_cases hkeys name with ⟨hp, hp'⟩ | ⟨p, p', hp, hp'⟩
    · rw [hp, hp']
    rw [hp, hp', Option.map_some, Option.map_some, Option.some.injEq]
    refine Names.ext fun clip ↦ ?_
    have hsame := (recorded_gathers clip name).mergeAll_congr hperm beginnerMoves
    rwa [Gathers, Gathers, Table.exists_get?_iff hp, Table.exists_get?_iff hp'] at hsame
  clipOrder_eq := by
    have hkeys : ((tracks.map fun l ↦ (l.1, l.2.values.map Move.clip)).map Prod.fst).Nodup := by
      rwa [List.map_map]
    rw [clipOrder_mergeAll, clipOrder_mergeAll, Table.ofList_congr (hperm.map _) hkeys]

/-! ## Adding a level again -/

/-- A graph has all that an entry of a track could add to it. -/
structure Holds (g : MoveGraph) (t : Track Move) (i : UInt32) (m : Move) : Prop where
  mem_variants : m.clip ∈ g.variants.keys
  follows : ∀ y, nextClip? t i = some y → g.Follows m.clip y
  precedes : ∀ x, clipBefore? t i = some x → g.Precedes x m.clip
  gathers : g.Gathers m.name m.clip
  /-- The move has the traits of the stored clip. -/
  hasTrait : ∀ trait v, g.variants.get? m.clip = some v → trait.ofVariant v ≠ "" →
    g.HasTrait trait m.name (trait.ofVariant v)

theorem visit_of_holds {g : MoveGraph} {t : Track Move} {i : UInt32} {m : Move}
    (h : g.Holds t i m) : visit t g i m = g := by
  obtain ⟨v, hv⟩ := Table.mem_keys_iff.1 h.mem_variants
  obtain ⟨p, hp, hclip⟩ := h.gathers
  have hvariant : extendVariant v (clipBefore? t i) (nextClip? t i) = v := by
    have hbefore : v.before.addAll (clipBefore? t i).toList = v.before := by
      refine Names.addAll_eq_self fun x hx ↦ ?_
      exact (Table.exists_get?_iff hv).1 (h.precedes x (Option.mem_toList.1 hx))
    have hafter : v.after.addAll (nextClip? t i).toList = v.after := by
      refine Names.addAll_eq_self fun y hy ↦ ?_
      exact (Table.exists_get?_iff hv).1 (h.follows y (Option.mem_toList.1 hy))
    rw [extendVariant, hbefore, hafter]
  have hparent : extendParent p m.clip v = p := by
    have hvariants : p.variants.add m.clip = p.variants := Names.add_eq_self hclip
    have htrait (trait : Trait) :
        (trait.ofParent p).addAll ([trait.ofVariant v].filter (· ≠ "")) = trait.ofParent p := by
      refine Names.addAll_eq_self fun s hs ↦ ?_
      obtain ⟨hs, hne⟩ := List.mem_filter.1 hs
      obtain rfl := List.mem_singleton.1 hs
      exact (Table.exists_get?_iff hp).1 (h.hasTrait trait v hv (of_decide_eq_true hne))
    have hgenres : p.genres.addAll ([v.genre].filter (· ≠ "")) = p.genres := htrait .genre
    have heras : p.eras.addAll ([v.era].filter (· ≠ "")) = p.eras := htrait .era
    rw [extendParent, hvariants, hgenres, heras]
  rw [visit, mergeMove, hv, hp, Option.getD_some, Option.getD_some, hvariant, hparent,
    Table.insert_eq_self hv, Table.insert_eq_self hp]

theorem Recorded.mergeCalls {P : MoveGraph → Prop} {Q : Track Move → UInt32 → Move → Prop}
    (h : Recorded P Q) (calls : List Call) :
    P (mergeCalls calls) ↔
      ∃ c ∈ calls, ∃ level t, c = .track level t ∧ ∃ e ∈ t.toList, Q t e.1 e.2 := by
  refine (foldl_iff (P := P)
    (Q := fun c ↦ ∃ level t, c = .track level t ∧ ∃ e ∈ t.toList, Q t e.1 e.2)
    (fun g c ↦ ?_) calls empty).trans (or_iff_right h.not_empty)
  cases c with
  | track level t => simpa [mergeCall] using h.merge g level t
  | beginners names => simpa [mergeCall] using h.markBeginner g names

/-- A graph holds what was added to it. -/
theorem holds_mergeCalls {calls : List Call} {level : Difficulty} {t : Track Move}
    (hcall : Call.track level t ∈ calls) {e : UInt32 × Move} (he : e ∈ t.toList) :
    (mergeCalls calls).Holds t e.1 e.2 where
  mem_variants := (recorded_variants _).mergeCalls calls |>.2 ⟨_, hcall, level, t, rfl, e, he, rfl⟩
  follows y hy :=
    (recorded_follows _ y).mergeCalls calls |>.2 ⟨_, hcall, level, t, rfl, e, he, rfl, hy⟩
  precedes x hx :=
    (recorded_precedes x _).mergeCalls calls |>.2 ⟨_, hcall, level, t, rfl, e, he, rfl, hx⟩
  gathers := (recorded_gathers _ _).mergeCalls calls |>.2 ⟨_, hcall, level, t, rfl, e, he, rfl, rfl⟩
  hasTrait trait v hv hne := by
    have h := describes_mergeCalls calls
    obtain ⟨first, hfirst, halone⟩ := h.exists_first_clip hv
    have hmem : e.2 ∈ movesOf calls := List.mem_flatMap.2 ⟨_, hcall, List.mem_map_of_mem he⟩
    refine (h.hasTrait_iff trait _ _).2 ⟨hne, e.2, hmem, rfl, first, hfirst, ?_⟩
    rw [← trait.ofVariant_newVariant, ← halone, trait.ofVariant_alone]

/-- The order of play that a call sets. -/
def Call.orders : Call → List (Difficulty × List String)
  | .track level t => [(level, t.values.map Move.clip)]
  | .beginners _ => []

theorem clipOrder_mergeCalls (calls : List Call) :
    (mergeCalls calls).clipOrder = .ofList (calls.flatMap Call.orders) := by
  induction calls using List.reverseRecOn with
  | nil => rfl
  | append_singleton calls c ih =>
    have hcall : (mergeCalls (calls ++ [c])).clipOrder =
        (mergeCalls calls).clipOrder.insertAll c.orders := by
      rw [mergeCalls, List.foldl_append, ← mergeCalls]
      cases c with
      | track level t => exact clipOrder_merge _ level t
      | beginners names => exact clipOrder_markBeginner _ names
    rw [hcall, ih, List.flatMap_append, List.flatMap_singleton, Table.ofList, Table.ofList,
      Table.insertAll, Table.insertAll, Table.insertAll, List.foldl_append]

/-- The order of play of a level is the one that was set last. -/
theorem get?_clipOrder_of_last (before : List Call) {after : List Call} {level : Difficulty}
    (t : Track Move) (hlast : ∀ t', Call.track level t' ∉ after) :
    (mergeCalls (before ++ .track level t :: after)).clipOrder.get? level =
      some (t.values.map Move.clip) := by
  rw [clipOrder_mergeCalls, Table.get?_ofList_eq_some_iff_append]
  refine ⟨before.flatMap Call.orders, after.flatMap Call.orders, ?_, fun e he ↦ ?_⟩
  · rw [List.flatMap_append, List.flatMap_cons]
    rfl
  · obtain ⟨c, hc, he⟩ := List.mem_flatMap.1 he
    cases c with
    | beginners names => cases he
    | track level' t' =>
      obtain rfl := List.mem_singleton.1 he
      rintro rfl
      exact hlast t' hc

/-- **Adding again the track that was last added for its level changes nothing.** -/
theorem merge_mergeCalls_of_last {before after : List Call} {level : Difficulty} {t : Track Move}
    (hlast : ∀ t', Call.track level t' ∉ after) :
    (mergeCalls (before ++ .track level t :: after)).merge level t =
      mergeCalls (before ++ .track level t :: after) := by
  have hcall : Call.track level t ∈ before ++ .track level t :: after := by simp
  have horder := get?_clipOrder_of_last before t hlast
  generalize before ++ .track level t :: after = calls at hcall horder
  have hmerged : t.toList.foldl (fun g e ↦ visit t g e.1 e.2) (mergeCalls calls) = mergeCalls calls :=
    List.foldlRecOn t.toList _ (motive := fun g ↦ g = mergeCalls calls) rfl fun _ hg _ he ↦ by
      rw [hg, visit_of_holds (holds_mergeCalls hcall he)]
  rw [merge, hmerged, setOrder, Table.insert_eq_self horder]

/-! ## Both -/

/-- **Levels commute, and adding one again changes nothing.**  Graphs of the same levels differ at
most in how clips and moves are described, and not at all if the entries agree on that; there are
such graphs for levels that do not reach the greatest index.  Whatever was added and marked before, a
track that is the last one of its level can be added again. -/
theorem build_commutes :
    (∀ tracks tracks' : List (Difficulty × Track Move), tracks.Perm tracks' →
      (tracks.map Prod.fst).Nodup → ∀ beginnerMoves,
        ((∃ g, build tracks beginnerMoves = some g) ↔ ∀ l ∈ tracks, l.2.Bounded) ∧
          ∀ g, build tracks beginnerMoves = some g →
            ∃ g', build tracks' beginnerMoves = some g' ∧ SamePlay g g' ∧
              (Agree (entriesOf tracks) → g = g')) ∧
    ∀ before level t after, (∀ t', Call.track level t' ∉ after) →
      ∀ g, ofCalls (before ++ .track level t :: after) = some g → g.addTrack level t = some g := by
  constructor
  · intro tracks tracks' hperm hlevels beginnerMoves
    refine ⟨by simp [build_eq_some_iff], fun g hg ↦ ?_⟩
    obtain ⟨hbounded, rfl⟩ := build_eq_some_iff.1 hg
    have hbounded' : ∀ l ∈ tracks', l.2.Bounded := fun l hl ↦ hbounded l (hperm.mem_iff.2 hl)
    have hplay := samePlay_mergeAll hperm hlevels beginnerMoves
    refine ⟨_, build_eq_some_iff.2 ⟨hbounded', rfl⟩, hplay, fun hagree ↦ ?_⟩
    refine (describes_mergeAll tracks beginnerMoves).eq_of_agree (describes_mergeAll tracks' _)
      (mem_entriesOf_congr hperm) hagree hplay fun name ↦ ?_
    rw [fit_mergeAll, fit_mergeAll]
    simp only [mem_entriesOf_congr hperm]
  · intro before level t after hlast g hg
    obtain ⟨hbounded, rfl⟩ := ofCalls_eq_some_iff.1 hg
    exact addTrack_eq_some_iff.2
      ⟨hbounded (.track level t) (by simp), merge_mergeCalls_of_last hlast⟩

/-- An entry that plays a clip of the move `wave`. -/
def waving (clip genre : String) : Move :=
  ⟨1, clip, ⟨"dc1", "gonow", clip⟩, "wave", "Wave", "gonow", genre, "00s", [], 120, 0⟩

/-- A level that ends with the clip `b`. -/
def endingInB : Track Move := ⟨.ofList [(0, waving "a" "pop"), (1, waving "b" "rock")]⟩

/-- A level that ends with the clip `a`, of a genre. -/
def endingInA (genre : String) : Track Move :=
  ⟨.ofList [(3, waving "b" "rock"), (4, waving "a" genre)]⟩

theorem build_commutes_waving :
    (∃ g, build [(.easy, endingInB), (.expert, endingInA "pop")] ["wave"] = some g ∧
      build [(.expert, endingInA "pop"), (.easy, endingInB)] ["wave"] = some g) ∧
    ∃ g, ofCalls [.track .easy endingInB, .beginners ["wave"],
        .track .expert (endingInA "jazz")] = some g ∧ g.addTrack .easy endingInB = some g := by
  have hagree : Agree (entriesOf [(.easy, endingInB), (.expert, endingInA "pop")]) := by
    have hentries : entriesOf [(.easy, endingInB), (.expert, endingInA "pop")] =
      [waving "a" "pop", waving "b" "rock", waving "b" "rock", waving "a" "pop"] := rfl
    rw [hentries]
    exact ⟨by decide, by decide⟩
  obtain ⟨hswap, hagain⟩ := build_commutes
  constructor
  · obtain ⟨hiff, hsame⟩ := hswap [(.easy, endingInB), (.expert, endingInA "pop")] _
      (.swap _ _ []) (by decide) ["wave"]
    obtain ⟨g, hg⟩ := hiff.2 (by decide)
    obtain ⟨g', hg', -, heq⟩ := hsame g hg
    exact ⟨g, hg, heq hagree ▸ hg'⟩
  · obtain ⟨g, hg⟩ : ∃ g, ofCalls [.track .easy endingInB, .beginners ["wave"],
        .track .expert (endingInA "jazz")] = some g := ⟨_, ofCalls_eq_some_iff.2 ⟨by decide, rfl⟩⟩
    exact ⟨g, hg, hagain [] .easy endingInB [.beginners ["wave"], .track .expert (endingInA "jazz")]
      (fun t' ↦ by simp) g hg⟩

/-- The first description stays: entries that disagree make the order of the levels matter. -/
example :
    ((build [(.easy, endingInB), (.expert, endingInA "jazz")] []).bind (·.variant? "a")).map
        MoveVariant.genre = some "pop" ∧
      ((build [(.expert, endingInA "jazz"), (.easy, endingInB)] []).bind (·.variant? "a")).map
        MoveVariant.genre = some "jazz" := by decide

end SongBundle.MoveGraph
