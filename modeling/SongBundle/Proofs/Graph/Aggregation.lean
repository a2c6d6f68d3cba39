import Mathlib.Data.List.Induction
import SongBundle.Proofs.Graph

/-!
# What moves gather

`MoveGraph.ofCalls` adds tracks and marks moves for beginners, in any order.  `MoveGraph.Aggregates`
says what the moves and clips of such a graph hold, and `aggregates_ofCalls` that they always do.
`mergeCalls` makes the same calls without checks (`ofCalls_eq_some_iff`).

A clip is described by the first entry that plays it, while a move gathers something from every entry
of its name.  What it gathers is the genre and the era of the *stored* clip, which may come from an
entry of another name.  `MoveGraph.Describes` therefore speaks of the entries visited so far, also
halfway through a track: the step is `Describes.visit`, the run `describes_mergeCalls`.
-/

set_option autoImplicit false

namespace SongBundle.MoveGraph

/-! ## Calls -/

/-- A call that changes a graph. -/
inductive Call where
  | track (level : Difficulty) (t : Track Move)
  | beginners (names : List String)

/-- Carries out a call. -/
def call (g : MoveGraph) : Call → Option MoveGraph
  | .track level t => g.addTrack level t
  | .beginners names => some (g.markBeginner names)

/-- The graph that calls lead to. -/
def ofCalls (calls : List Call) : Option MoveGraph := calls.foldlM call empty

/-- Carries out a call without checks. -/
def mergeCall (g : MoveGraph) : Call → MoveGraph
  | .track level t => g.merge level t
  | .beginners names => g.markBeginner names

/-- The graph that calls lead to without checks. -/
def mergeCalls (calls : List Call) : MoveGraph := calls.foldl mergeCall empty

/-- A call adds no track that reaches the greatest index. -/
def Call.Bounded : Call → Prop
  | .track _ t => t.Bounded
  | .beginners _ => True

instance : DecidablePred Call.Bounded
  | .track _ t => inferInstanceAs (Decidable t.Bounded)
  | .beginners _ => inferInstanceAs (Decidable True)

theorem call_eq_some_iff {g g' : MoveGraph} {c : Call} :
    g.call c = some g' ↔ c.Bounded ∧ g.mergeCall c = g' := by
  cases c with
  | track level t => exact addTrack_eq_some_iff
  | beginners names => simp [call, Call.Bounded, mergeCall]

theorem ofCalls_eq_some_iff {calls : List Call} {g : MoveGraph} :
    ofCalls calls = some g ↔ (∀ c ∈ calls, c.Bounded) ∧ mergeCalls calls = g :=
  Outcome.foldlM_eq_some_iff (f := call) (fun _ _ _ ↦ call_eq_some_iff) calls empty g

/-- The moves of a call by ascending index. -/
def Call.moves : Call → List Move
  | .track _ t => t.values
  | .beginners _ => []

/-- The moves of calls in the order in which they are visited. -/
def movesOf (calls : List Call) : List Move := calls.flatMap Call.moves

/-- What every kind of change keeps holds of all graphs, together with the moves visited. -/
theorem mergeCalls_induction {P : MoveGraph → List Move → Prop} (empty : P empty [])
    (visit : ∀ t g i m ms, P g ms → P (visit t g i m) (ms ++ [m]))
    (order : ∀ g order ms, P g ms → P { g with clipOrder := order } ms)
    (markOne : ∀ g name ms, P g ms → P (markOne g name) ms) (calls : List Call) :
    P (mergeCalls calls) (movesOf calls) := by
  have hentries (t : Track Move) (entries : List (UInt32 × Move)) (g : MoveGraph)
      (ms : List Move) (h : P g ms) :
      P (entries.foldl (fun g e ↦ MoveGraph.visit t g e.1 e.2) g)
        (ms ++ entries.map Prod.snd) := by
    induction entries generalizing g ms with
    | nil => simpa using h
    | cons e entries ih => simpa using ih _ _ (visit t g e.1 e.2 ms h)
  have hnames (names : List String) (g : MoveGraph) (ms : List Move) (h : P g ms) :
      P (g.markBeginner names) ms :=
    List.foldlRecOn names MoveGraph.markOne (motive := fun g ↦ P g ms) h
      fun g hg n _ ↦ markOne g n ms hg
  have hcalls (calls : List Call) (g : MoveGraph) (ms : List Move) (h : P g ms) :
      P (calls.foldl mergeCall g) (ms ++ movesOf calls) := by
    induction calls generalizing g ms with
    | nil => simpa [movesOf] using h
    | cons c calls ih =>
      rw [List.foldl_cons, movesOf, List.flatMap_cons, ← List.append_assoc]
      refine ih _ _ ?_
      cases c with
      | track level t => exact order _ _ _ (hentries t t.toList g ms h)
      | beginners names =>
        rw [Call.moves, List.append_nil]
        exact hnames names g ms h
  exact hcalls calls _ [] empty

/-! ## Traits -/

/-- What a move gathers from its clips. -/
inductive Trait where
  | genre
  | era

namespace Trait

/-- The trait that an entry of a track states. -/
def ofMove : Trait → Move → String
  | genre, m => m.genre
  | era, m => m.era

/-- The trait of a clip. -/
def ofVariant : Trait → MoveVariant → String
  | genre, v => v.genre
  | era, v => v.era

/-- The traits that a move has gathered. -/
def ofParent : Trait → MoveParent → Names
  | genre, p => p.genres
  | era, p => p.eras

theorem mem_ofParent_extendParent (trait : Trait) (p : MoveParent) (clip : String)
    (v : MoveVariant) (s : String) :
    s ∈ (trait.ofParent (extendParent p clip v)).toList ↔
      s ∈ (trait.ofParent p).toList ∨ s ≠ "" ∧ trait.ofVariant v = s := by
  have hfilter (own : String) : s ∈ [own].filter (· ≠ "") ↔ s ≠ "" ∧ own = s := by
    rw [List.mem_filter, List.mem_singleton, decide_eq_true_iff, and_comm, eq_comm (a := s)]
  cases trait with
  | genre => exact Names.mem_addAll.trans (or_congr_right (hfilter v.genre))
  | era => exact Names.mem_addAll.trans (or_congr_right (hfilter v.era))

theorem ofVariant_extendVariant (trait : Trait) (v : MoveVariant) (before after : Option String) :
    trait.ofVariant (extendVariant v before after) = trait.ofVariant v := by
  cases trait <;> rfl

theorem ofVariant_newVariant (trait : Trait) (m : Move) :
    trait.ofVariant (newVariant m) = trait.ofMove m := by
  cases trait <;> rfl

end Trait

/-! ## The moves visited so far -/

/-- A clip without its neighbours. -/
def alone (v : MoveVariant) : MoveVariant := { v with before := .empty, after := .empty }

/-- What is known of a move from a single entry. -/
def titles (p : MoveParent) : String × String × String := (p.name, p.displayName, p.songName)

/-- A move has gathered a trait. -/
def HasTrait (g : MoveGraph) (trait : Trait) (name s : String) : Prop :=
  ∃ p, g.parents.get? name = some p ∧ s ∈ (trait.ofParent p).toList

/-- A graph holds what the moves visited so far say, where the first one with a clip or a name
counts. -/
structure Describes (g : MoveGraph) (ms : List Move) : Prop where
  variant : ∀ clip, (g.variants.get? clip).map alone = (ms.find? (·.clip = clip)).map newVariant
  parent : ∀ name,
    (g.parents.get? name).map titles = (ms.find? (·.name = name)).map (titles ∘ newParent)
  gathers_iff : ∀ name clip, g.Gathers name clip ↔ ∃ m ∈ ms, m.name = name ∧ m.clip = clip
  hasTrait_iff : ∀ trait name s, g.HasTrait trait name s ↔
    s ≠ "" ∧ ∃ m ∈ ms, m.name = name ∧ ∃ first, ms.find? (·.clip = m.clip) = some first ∧
      trait.ofMove first = s

theorem describes_empty : empty.Describes [] where
  variant _ := rfl
  parent _ := rfl
  gathers_iff _ _ := ⟨fun ⟨_, h, _⟩ ↦ (nomatch h), fun ⟨_, h, _⟩ ↦ (nomatch h)⟩
  hasTrait_iff _ _ _ := ⟨fun ⟨_, h, _⟩ ↦ (nomatch h), fun ⟨_, _, h, _⟩ ↦ (nomatch h)⟩

/-- What the first of several moves is stays so when another one is visited. -/
theorem map_find?_concat {α : Type} (f : Move → α) (key : Move → String) (ms : List Move)
    (m : Move) (k : String) :
    ((ms ++ [m]).find? (key · = k)).map f =
      ((ms.find? (key · = k)).map f).or (if k = key m then some (f m) else none) := by
  rw [List.find?_append]
  by_cases hk : k = key m
  · cases ms.find? (key · = k) <;> simp [hk]
  · cases ms.find? (key · = k) <;> simp [Ne.symm hk, hk]

section

variable {g : MoveGraph} {ms : List Move}

/-- The trait under which a clip is stored is that of the first move visited with the clip. -/
theorem Describes.ofVariant_getD (h : g.Describes ms) (trait : Trait) (m : Move) :
    ∃ first, (ms ++ [m]).find? (·.clip = m.clip) = some first ∧
      trait.ofVariant ((g.variants.get? m.clip).getD (newVariant m)) = trait.ofMove first := by
  have hvariant := h.variant m.clip
  rw [List.find?_append]
  cases hv : g.variants.get? m.clip with
  | none =>
    rw [hv] at hvariant
    rw [Option.map_eq_none_iff.1 hvariant.symm]
    exact ⟨m, by simp, trait.ofVariant_newVariant m⟩
  | some v =>
    rw [hv] at hvariant
    obtain ⟨first, hfirst, hsame⟩ := Option.map_eq_some_iff.1 hvariant.symm
    refine ⟨first, by rw [hfirst, Option.some_or], ?_⟩
    have htrait := congrArg trait.ofVariant hsame
    rw [trait.ofVariant_newVariant] at htrait
    rw [Option.getD_some, htrait]
    cases trait <;> rfl

/-- Visiting one more move keeps a graph described. -/
theorem Describes.visit (h : g.Describes ms) (t : Track Move) (i : UInt32) (m : Move) :
    (visit t g i m).Describes (ms ++ [m]) where
  variant clip := by
    rw [map_find?_concat, ← h.variant]
    exact Table.map_get?_insert_getD (f := fun v ↦ extendVariant v _ _) fun _ ↦ rfl
  parent name := by
    rw [map_find?_concat, ← h.parent]
    exact Table.map_get?_insert_getD (f := fun p ↦ extendParent p m.clip _) fun _ ↦ rfl
  gathers_iff name clip := by
    rw [(recorded_gathers clip name).visit, h.gathers_iff]
    simp [or_and_right, exists_or, eq_comm]
  hasTrait_iff trait name s := by
    obtain ⟨first, hfirst, hstored⟩ := h.ofVariant_getD trait m
    have hstep : (MoveGraph.visit t g i m).HasTrait trait name s ↔
        g.HasTrait trait name s ∨ name = m.name ∧ s ≠ "" ∧ trait.ofMove first = s := by
      rw [← hstored, ← trait.ofVariant_extendVariant _ (clipBefore? t i) (nextClip? t i)]
      refine Table.exists_get?_insert_getD (P := fun p ↦ s ∈ (trait.ofParent p).toList)
        (f := fun p ↦ extendParent p m.clip _) ?_ fun p ↦ trait.mem_ofParent_extendParent p _ _ s
      cases trait <;> exact List.not_mem_nil
    -- a move visited before has its first companion among those visited before
    have hold {m' : Move} (hm' : m' ∈ ms) :
        (ms ++ [m]).find? (·.clip = m'.clip) = ms.find? (·.clip = m'.clip) := by
      obtain ⟨found, hfound⟩ : ∃ found, ms.find? (·.clip = m'.clip) = some found := by
        rw [← Option.isSome_iff_exists, List.find?_isSome]
        exact ⟨m', hm', decide_eq_true rfl⟩
      rw [List.find?_append, hfound, Option.some_or]
    rw [hstep, h.hasTrait_iff]
    constructor
    · rintro (⟨hs, m', hm', hname, hm'first⟩ | ⟨rfl, hs, hsame⟩)
      · exact ⟨hs, m', List.mem_append_left _ hm', hname, hold hm' ▸ hm'first⟩
      · exact ⟨hs, m, by simp, rfl, first, hfirst, hsame⟩
    · rintro ⟨hs, m', hm', hname, hm'first⟩
      rcases List.mem_append.1 hm' with hm' | hm'
      · exact .inl ⟨hs, m', hm', hname, hold hm' ▸ hm'first⟩
      · obtain rfl := List.mem_singleton.1 hm'
        obtain ⟨first', hfirst', hsame⟩ := hm'first
        obtain rfl := Option.some.inj (hfirst.symm.trans hfirst')
        exact .inr ⟨hname.symm, hs, hsame⟩

/-- Marking a move for beginners keeps all else that is known of moves. -/
theorem exists_get?_markOne_iff {P : MoveParent → Prop} (g : MoveGraph) (name name' : String)
    (hP : ∀ p b, P { p with beginner := b } ↔ P p) :
    (∃ p, (g.markOne name).parents.get? name' = some p ∧ P p) ↔
      ∃ p, g.parents.get? name' = some p ∧ P p := by
  rw [markOne_eq]
  simp only [Table.get?_map_eq_some_iff]
  constructor
  · rintro ⟨_, ⟨p, hp, rfl⟩, hP'⟩
    exact ⟨p, hp, (hP _ _).1 hP'⟩
  · rintro ⟨p, hp, hP'⟩
    exact ⟨_, ⟨p, hp, rfl⟩, (hP _ _).2 hP'⟩

theorem Describes.markOne (h : g.Describes ms) (name : String) :
    (g.markOne name).Describes ms where
  variant clip := by rw [variants_markOne, h.variant]
  parent name' := by
    rw [← h.parent]
    refine Option.ext fun x ↦ ?_
    rw [Option.map_eq_some_iff, Option.map_eq_some_iff]
    exact exists_get?_markOne_iff g name name' fun _ _ ↦ .rfl
  gathers_iff name' clip := by rw [(recorded_gathers clip name').markOne, h.gathers_iff]
  hasTrait_iff trait name' s := by
    rw [← h.hasTrait_iff]
    refine exists_get?_markOne_iff g name name' fun _ _ ↦ ?_
    cases trait <;> rfl

end

theorem describes_mergeCalls (calls : List Call) : (mergeCalls calls).Describes (movesOf calls) :=
  mergeCalls_induction describes_empty (fun t _ i m _ h ↦ h.visit t i m)
    (fun _ _ _ h ↦ ⟨h.variant, h.parent, h.gathers_iff, h.hasTrait_iff⟩)
    (fun _ name _ h ↦ h.markOne name) calls

/-! ## Moves for beginners -/

/-- A move of a graph is fit for beginners. -/
def Fit (g : MoveGraph) (name : String) : Prop :=
  ∃ p, g.parents.get? name = some p ∧ p.beginner = true

section

variable {g : MoveGraph} {name : String}

theorem fit_merge (level : Difficulty) (t : Track Move) :
    (g.merge level t).Fit name ↔ g.Fit name := by
  have hstep (g : MoveGraph) (e : UInt32 × Move) :
      (visit t g e.1 e.2).Fit name ↔ g.Fit name ∨ name = e.2.name ∧ False :=
    Table.exists_get?_insert_getD (P := fun p ↦ p.beginner = true)
      (f := fun p ↦ extendParent p e.2.clip _) (by simp [newParent])
      fun p ↦ (or_false _).symm.to_iff
  refine (foldl_iff (P := fun g ↦ g.Fit name) (Q := fun e ↦ name = e.2.name ∧ False) hstep t.toList
    g).trans ?_
  simp

theorem fit_markOne (n : String) :
    (g.markOne n).Fit name ↔ g.Fit name ∨ name = n ∧ name ∈ g.parents.keys := by
  rw [Fit, Fit, markOne_eq, Table.mem_keys_iff]
  simp only [Table.get?_map_eq_some_iff]
  constructor
  · rintro ⟨_, ⟨p, hp, rfl⟩, hfit⟩
    rcases Bool.or_eq_true_iff.1 hfit with hfit | hname
    · exact .inl ⟨p, hp, hfit⟩
    · exact .inr ⟨of_decide_eq_true hname, p, hp⟩
  · rintro (⟨p, hp, hfit⟩ | ⟨rfl, p, hp⟩)
    · exact ⟨_, ⟨p, hp, rfl⟩, by simp [hfit]⟩
    · exact ⟨_, ⟨p, hp, rfl⟩, by simp⟩

/-- Only the moves that a graph has are marked. -/
theorem fit_markBeginner (names : List String) :
    (g.markBeginner names).Fit name ↔ g.Fit name ∨ name ∈ names ∧ name ∈ g.parents.keys := by
  induction names generalizing g with
  | nil => simp [MoveGraph.markBeginner]
  | cons n names ih =>
    have hkeys : (g.markOne n).parents.keys = g.parents.keys := by rw [markOne_eq, Table.keys_map]
    change ((g.markOne n).markBeginner names).Fit name ↔ _
    rw [ih, fit_markOne, hkeys, List.mem_cons, or_and_right, or_assoc]

end

/-- A move is marked by a call that names it when the graph has it already. -/
theorem fit_mergeCalls {calls : List Call} {name : String} :
    (mergeCalls calls).Fit name ↔ ∃ before names after, calls = before ++ .beginners names :: after ∧
      name ∈ names ∧ name ∈ (mergeCalls before).parents.keys := by
  induction calls using List.reverseRecOn with
  | nil => exact ⟨fun ⟨_, h, _⟩ ↦ (nomatch h), fun ⟨_, _, _, h, _⟩ ↦ absurd h (by simp)⟩
  | append_singleton calls c ih =>
    have hstep : (mergeCalls (calls ++ [c])).Fit name ↔ (mergeCalls calls).Fit name ∨
        ∃ names, c = .beginners names ∧ name ∈ names ∧ name ∈ (mergeCalls calls).parents.keys := by
      rw [mergeCalls, List.foldl_append, ← mergeCalls]
      cases c with
      | track level t => simpa [mergeCall] using fit_merge level t
      | beginners names => simpa [mergeCall] using fit_markBeginner names
    rw [hstep, ih]
    constructor
    · rintro (⟨before, names, after, rfl, hname⟩ | ⟨names, rfl, hname⟩)
      · exact ⟨before, names, after ++ [c], by simp, hname⟩
      · exact ⟨calls, names, [], rfl, hname⟩
    · rintro ⟨before, names, after, hcalls, hname⟩
      -- the marking call is the last one, or it stands before it
      rcases List.eq_nil_or_concat after with rfl | ⟨front, last, rfl⟩
      · obtain ⟨rfl, hc⟩ := List.append_inj' hcalls rfl
        exact .inr ⟨names, by simpa using hc, hname⟩
      · rw [List.concat_eq_append, ← List.cons_append, ← List.append_assoc] at hcalls
        exact .inl ⟨before, names, front, (List.append_inj' hcalls rfl).1, hname⟩

/-! ## What moves gather -/

/-- The moves of a graph gather what some calls say of them. -/
structure Aggregates (g : MoveGraph) (calls : List Call) : Prop where
  /-- The moves of the graph are those of some entry. -/
  mem_parents_iff : ∀ name, name ∈ g.parents.keys ↔ ∃ m ∈ movesOf calls, m.name = name
  /-- The first entry with a name gives the move its titles. -/
  titles_eq : ∀ name p, g.parents.get? name = some p →
    ∃ first, (movesOf calls).find? (·.name = name) = some first ∧
      p.name = name ∧ p.displayName = first.displayName ∧ p.songName = first.songName
  /-- The clips of a move are those of the entries with its name. -/
  mem_variants_iff : ∀ name p, g.parents.get? name = some p → ∀ clip,
    clip ∈ p.variants.toList ↔ ∃ m ∈ movesOf calls, m.name = name ∧ m.clip = clip
  /-- The clips of the graph are those of some entry. -/
  mem_clips_iff : ∀ clip, clip ∈ g.variants.keys ↔ ∃ m ∈ movesOf calls, m.clip = clip
  /-- The first entry with a clip describes the clip. -/
  variant_eq : ∀ clip v, g.variants.get? clip = some v →
    ∃ first, (movesOf calls).find? (·.clip = clip) = some first ∧
      v.clip = clip ∧ v.parent = first.name ∧ v.genre = first.genre ∧ v.era = first.era ∧
        v.links = first.links ∧ v.flags = first.flags
  /-- The genres and eras of a move are those of its clips, empty ones left out. -/
  mem_traits_iff : ∀ (trait : Trait) name p, g.parents.get? name = some p → ∀ s,
    s ∈ (trait.ofParent p).toList ↔ s ≠ "" ∧ ∃ clip ∈ p.variants.toList,
      ∃ v, g.variants.get? clip = some v ∧ trait.ofVariant v = s
  /-- A move is for beginners if a call named it when the graph had it already. -/
  beginner_iff : ∀ name p, g.parents.get? name = some p →
    (p.beginner = true ↔ ∃ before names after, calls = before ++ .beginners names :: after ∧
      name ∈ names ∧ ∃ g', ofCalls before = some g' ∧ name ∈ g'.parents.keys)
  /-- A clip belongs to a move other than its own if entries with the clip differ in their names. -/
  shared_iff : ∀ clip v, g.variants.get? clip = some v →
    ((∃ name, name ≠ v.parent ∧ g.Gathers name clip) ↔
      ∃ m ∈ movesOf calls, ∃ m' ∈ movesOf calls, m.clip = clip ∧ m'.clip = clip ∧ m.name ≠ m'.name)

section

variable {g : MoveGraph} {ms : List Move}

theorem Describes.mem_parents_iff (h : g.Describes ms) (name : String) :
    name ∈ g.parents.keys ↔ ∃ m ∈ ms, m.name = name := by
  have hsome := congrArg Option.isSome (h.parent name)
  rw [Option.isSome_map, Option.isSome_map] at hsome
  rw [← Table.contains_iff, Table.contains, hsome, List.find?_isSome]
  simp

theorem Describes.mem_clips_iff (h : g.Describes ms) (clip : String) :
    clip ∈ g.variants.keys ↔ ∃ m ∈ ms, m.clip = clip := by
  have hsome := congrArg Option.isSome (h.variant clip)
  rw [Option.isSome_map, Option.isSome_map] at hsome
  rw [← Table.contains_iff, Table.contains, hsome, List.find?_isSome]
  simp

theorem Describes.exists_first_name (h : g.Describes ms) {name : String} {p : MoveParent}
    (hp : g.parents.get? name = some p) :
    ∃ first, ms.find? (·.name = name) = some first ∧ titles p = titles (newParent first) := by
  have hparent := h.parent name
  rw [hp] at hparent
  obtain ⟨first, hfirst, htitles⟩ := Option.map_eq_some_iff.1 hparent.symm
  exact ⟨first, hfirst, htitles.symm⟩

theorem Describes.exists_first_clip (h : g.Describes ms) {clip : String} {v : MoveVariant}
    (hv : g.variants.get? clip = some v) :
    ∃ first, ms.find? (·.clip = clip) = some first ∧ alone v = newVariant first := by
  have hvariant := h.variant clip
  rw [hv] at hvariant
  obtain ⟨first, hfirst, halone⟩ := Option.map_eq_some_iff.1 hvariant.symm
  exact ⟨first, hfirst, halone.symm⟩

theorem Describes.exists_variant (h : g.Describes ms) {clip : String} {first : Move}
    (hfirst : ms.find? (·.clip = clip) = some first) :
    ∃ v, g.variants.get? clip = some v ∧ alone v = newVariant first := by
  have hvariant := h.variant clip
  rw [hfirst] at hvariant
  exact Option.map_eq_some_iff.1 hvariant

theorem Describes.mem_variants_iff (h : g.Describes ms) {name : String} {p : MoveParent}
    (hp : g.parents.get? name = some p) (clip : String) :
    clip ∈ p.variants.toList ↔ ∃ m ∈ ms, m.name = name ∧ m.clip = clip := by
  rw [← h.gathers_iff, Gathers, hp]
  simp

theorem Trait.ofVariant_alone (trait : Trait) (v : MoveVariant) :
    trait.ofVariant (alone v) = trait.ofVariant v := by
  cases trait <;> rfl

theorem Describes.mem_traits_iff (h : g.Describes ms) (trait : Trait) {name : String}
    {p : MoveParent} (hp : g.parents.get? name = some p) (s : String) :
    s ∈ (trait.ofParent p).toList ↔ s ≠ "" ∧ ∃ clip ∈ p.variants.toList,
      ∃ v, g.variants.get? clip = some v ∧ trait.ofVariant v = s := by
  have hgathered : s ∈ (trait.ofParent p).toList ↔ g.HasTrait trait name s := by
    rw [HasTrait, hp]
    simp
  rw [hgathered, h.hasTrait_iff]
  refine and_congr_right fun _ ↦ ?_
  constructor
  · rintro ⟨m, hm, hname, first, hfirst, htrait⟩
    obtain ⟨v, hv, halone⟩ := h.exists_variant hfirst
    refine ⟨m.clip, (h.mem_variants_iff hp _).2 ⟨m, hm, hname, rfl⟩, v, hv, ?_⟩
    rw [← trait.ofVariant_alone, halone, trait.ofVariant_newVariant, htrait]
  · rintro ⟨clip, hclip, v, hv, htrait⟩
    obtain ⟨m, hm, hname, rfl⟩ := (h.mem_variants_iff hp clip).1 hclip
    obtain ⟨first, hfirst, halone⟩ := h.exists_first_clip hv
    refine ⟨m, hm, hname, first, hfirst, ?_⟩
    rw [← trait.ofVariant_newVariant, ← halone, trait.ofVariant_alone, htrait]

/-- Of two entries with a clip and different names one is not called after the clip's own move. -/
theorem Describes.shared_iff (h : g.Describes ms) {clip : String} {v : MoveVariant}
    (hv : g.variants.get? clip = some v) :
    (∃ name, name ≠ v.parent ∧ g.Gathers name clip) ↔
      ∃ m ∈ ms, ∃ m' ∈ ms, m.clip = clip ∧ m'.clip = clip ∧ m.name ≠ m'.name := by
  obtain ⟨first, hfirst, halone⟩ := h.exists_first_clip hv
  have hparent : v.parent = first.name := congrArg MoveVariant.parent halone
  have hclip : first.clip = clip := by simpa using List.find?_some hfirst
  simp only [h.gathers_iff]
  constructor
  · rintro ⟨name, hne, m, hm, rfl, hm_clip⟩
    exact ⟨m, hm, first, List.mem_of_find?_eq_some hfirst, hm_clip, hclip, hparent ▸ hne⟩
  · rintro ⟨m, hm, m', hm', hm_clip, hm'_clip, hne⟩
    by_cases hown : m.name = v.parent
    · exact ⟨m'.name, hown ▸ hne.symm, m', hm', rfl, hm'_clip⟩
    · exact ⟨m.name, hown, m, hm, rfl, hm_clip⟩

end

theorem aggregates_mergeCalls {calls : List Call} (hbounded : ∀ c ∈ calls, c.Bounded) :
    (mergeCalls calls).Aggregates calls := by
  have h := describes_mergeCalls calls
  refine ⟨h.mem_parents_iff, fun name p hp ↦ ?_, fun _ _ ↦ h.mem_variants_iff, h.mem_clips_iff,
    fun clip v hv ↦ ?_, fun trait _ _ ↦ h.mem_traits_iff trait, fun name p hp ↦ ?_,
    fun _ _ ↦ h.shared_iff⟩
  · obtain ⟨first, hfirst, htitles⟩ := h.exists_first_name hp
    have hname : first.name = name := by simpa using List.find?_some hfirst
    obtain ⟨hself, hdisplay, hsong⟩ : p.name = first.name ∧ p.displayName = first.displayName ∧
        p.songName = first.songName := by simpa [titles, newParent] using htitles
    exact ⟨first, hfirst, hself.trans hname, hdisplay, hsong⟩
  · obtain ⟨first, hfirst, halone⟩ := h.exists_first_clip hv
    have hclip : first.clip = clip := by simpa using List.find?_some hfirst
    exact ⟨first, hfirst, (congrArg MoveVariant.clip halone).trans hclip,
      congrArg MoveVariant.parent halone, congrArg MoveVariant.genre halone,
      congrArg MoveVariant.era halone, congrArg MoveVariant.links halone,
      congrArg MoveVariant.flags halone⟩
  · have hfit : p.beginner = true ↔ (mergeCalls calls).Fit name := by
      rw [Fit, hp]
      simp
    rw [hfit, fit_mergeCalls]
    refine exists₃_congr fun before names after ↦ and_congr_right fun hcalls ↦ ?_
    -- the calls before one of those that can be made can be made as well
    have hbefore : ∀ c ∈ before, c.Bounded := fun c hc ↦
      hbounded c (hcalls ▸ List.mem_append_left _ hc)
    simpa [ofCalls_eq_some_iff] using fun _ _ ↦ hbefore

/-- **Moves aggregate exactly their clips**, whatever tracks are added, with gaps or without, and
whenever moves are marked.  All calls can be made if no track reaches the greatest index. -/
theorem aggregates_ofCalls (calls : List Call) :
    ((∃ g, ofCalls calls = some g) ↔ ∀ c ∈ calls, c.Bounded) ∧
      ∀ g, ofCalls calls = some g → g.Aggregates calls := by
  constructor
  · simp [ofCalls_eq_some_iff]
  · intro g hg
    obtain ⟨hbounded, rfl⟩ := ofCalls_eq_some_iff.1 hg
    exact aggregates_mergeCalls hbounded

/-- An entry of a move that plays a clip. -/
def entry (name clip genre : String) : Move :=
  ⟨1, clip, ⟨"dc1", "gonow", clip⟩, name, name, "gonow", genre, "00s", [], 120, 0⟩

/-- Calls that mark the move `hop` before and after it is there, with a clip that two moves share. -/
def sharedCalls : List Call :=
  [.beginners ["hop"], .track .easy ⟨.ofList [(0, entry "hop" "a" "pop"), (4, entry "hop" "b" "")]⟩,
    .beginners ["hop", "spin"], .track .easy ⟨.ofList [(2, entry "spin" "a" "rock")]⟩]

theorem aggregates_ofCalls_shared :
    ∃ g, ofCalls sharedCalls = some g ∧ g.Aggregates sharedCalls := by
  obtain ⟨hiff, haggregates⟩ := aggregates_ofCalls sharedCalls
  obtain ⟨g, hg⟩ := hiff.2 (by decide)
  exact ⟨g, hg, haggregates g hg⟩

end SongBundle.MoveGraph
