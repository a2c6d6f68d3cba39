import SongBundle.Json.Decode
import SongBundle.Json.Writer
import SongBundle.Proofs.Json.Lexemes

/-!
# What is written is read back

A value is `Sound` if all its lists are closed and all its strings and numbers are lexemes that the
scanner takes.  A sound value is read back from its indented text, in two steps: the tokens of the
text are those of the value (`tokens_prettyChars`), and the machine that takes these tokens hands
the value over (`run_lexed`).  So decoding the text is decoding the value (`decode_pretty`).
-/

set_option autoImplicit false

namespace SongBundle.Json

/-- Whether every list of a value is closed and every string and number can be written as it is. -/
inductive Sound : Json → Prop where
  | null : Sound .null
  | bool (b : Bool) : Sound (.bool b)
  | number {l : String} (h : Numeral l) : Sound (.number l)
  | string {l : String} (h : Quotable l) : Sound (.string l)
  | array {items : List Json} (h : ∀ j ∈ items, Sound j) : Sound (.array items .closed)
  | object {members : List (String × Json)} (hkeys : ∀ m ∈ members, Quotable m.1)
      (h : ∀ m ∈ members, Sound m.2) : Sound (.object members .closed)

mutual

/-- The tokens of a value. -/
def lexed : Json → List Token
  | .null => [.null]
  | .bool b => [.bool b]
  | .number l => [.number l]
  | .string l => [.string l]
  | .array items _ => .openArray :: (lexedItems items ++ [.closeArray])
  | .object members _ => .openObject :: (lexedMembers members ++ [.closeObject])
  | .torn => []

/-- The tokens of the items of an array. -/
def lexedItems : List Json → List Token
  | [] => []
  | [j] => lexed j
  | j :: js => lexed j ++ .comma :: lexedItems js

/-- The tokens of the members of an object. -/
def lexedMembers : List (String × Json) → List Token
  | [] => []
  | [(k, j)] => .string k :: .colon :: lexed j
  | (k, j) :: ms => .string k :: .colon :: (lexed j ++ .comma :: lexedMembers ms)

end

/-! ## From the text to its tokens -/

section Tokens

variable {j : Json} {items : List Json} {members : List (String × Json)} {l : String}
  {rest : List Char}

theorem tokens_newline (level : Nat) : tokens (newline level ++ rest) = tokens rest := by
  rw [newline, List.cons_append, tokens_blank rfl]
  induction 2 * level with
  | zero => rfl
  | succ n ih => rw [List.replicate_succ, List.cons_append, tokens_blank rfl, ih]

theorem tokens_null : tokens ("null".toList ++ rest) = .null :: tokens rest := by
  show tokens ('n' :: 'u' :: 'l' :: 'l' :: rest) = _
  rw [tokens, if_neg (by decide)]

theorem tokens_bool (b : Bool) : tokens (boolText b ++ rest) = .bool b :: tokens rest := by
  cases b with
  | true =>
    show tokens ('t' :: 'r' :: 'u' :: 'e' :: rest) = _
    rw [tokens, if_neg (by decide)]
  | false =>
    show tokens ('f' :: 'a' :: 'l' :: 's' :: 'e' :: rest) = _
    rw [tokens, if_neg (by decide)]

theorem tokens_string (h : Quotable l) :
    tokens (quoteText l ++ rest) = .string l :: tokens rest := by
  show tokens ('"' :: (l.toList ++ ['"']) ++ rest) = _
  rw [List.cons_append, List.append_assoc, List.singleton_append, tokens, if_neg (by decide)]
  split
  · rename_i s after hscan
    rw [h rest, Prod.mk.injEq, Option.some.injEq] at hscan
    obtain ⟨rfl, rfl⟩ := hscan
    rw [String.ofList_toList]
  · rename_i s hscan
    rw [h rest] at hscan
    cases hscan

theorem tokens_number (h : Numeral l) (hrest : EndsNumber rest) :
    tokens (l.toList ++ rest) = .number l :: tokens rest := by
  obtain ⟨⟨c, hc, hstart⟩, hscan⟩ := h
  have hscan := hscan rest hrest
  obtain ⟨cs, hl⟩ : ∃ cs, l.toList = c :: cs := List.head?_eq_some_iff.1 hc
  rw [hl, List.cons_append] at hscan ⊢
  have hblank : ¬isBlank c = true := by
    intro hblank
    simp only [isBlank, Bool.or_eq_true, decide_eq_true_eq] at hblank
    rcases hblank with ((rfl | rfl) | rfl) | rfl <;> exact absurd hstart (by decide)
  rw [tokens.eq_def]
  simp only [if_neg hblank]
  split
  case h_11 =>
    split
    · rename_i ds after hds
      rw [hscan, Option.some.injEq, Prod.mk.injEq] at hds
      obtain ⟨rfl, rfl⟩ := hds
      rw [← hl, String.ofList_toList]
    · rename_i hds
      rw [hscan] at hds
      cases hds
  -- no number starts like another token
  all_goals exact absurd hstart (by decide)

theorem endsNumber_newline (level : Nat) : EndsNumber (newline level ++ rest) := by
  intro c hc
  obtain rfl : '\n' = c := by simpa [newline] using hc
  decide

theorem endsNumber_comma : EndsNumber (',' :: rest) := by
  intro c hc
  obtain rfl : ',' = c := by simpa using hc
  decide

/-- What the text of a value comes to wherever it ends, at any level of indentation. -/
def Lexes (j : Json) : Prop :=
  ∀ (level : Nat) (rest : List Char), EndsNumber rest →
    tokens (prettyChars level j ++ rest) = lexed j ++ tokens rest

theorem tokens_prettyItems (h : ∀ j ∈ items, Lexes j) (level : Nat) (hrest : EndsNumber rest) :
    tokens (prettyItems level items ++ rest) = lexedItems items ++ tokens rest := by
  induction items with
  | nil => rfl
  | cons j js ih =>
    rw [List.forall_mem_cons] at h
    cases js with
    | nil => rw [prettyItems, List.append_assoc, tokens_newline, h.1 level _ hrest, lexedItems]
    | cons j' js =>
      rw [prettyItems, lexedItems, List.append_assoc, List.append_assoc, tokens_newline,
        List.cons_append, h.1 level _ endsNumber_comma, tokens_mark rfl, ih h.2, List.append_assoc,
        List.cons_append]
      · exact List.cons_ne_nil _ _
      · exact List.cons_ne_nil _ _

theorem tokens_prettyMembers (hkeys : ∀ m ∈ members, Quotable m.1)
    (h : ∀ m ∈ members, Lexes m.2) (level : Nat) (hrest : EndsNumber rest) :
    tokens (prettyMembers level members ++ rest) = lexedMembers members ++ tokens rest := by
  induction members with
  | nil => rfl
  | cons m ms ih =>
    obtain ⟨k, j⟩ := m
    rw [List.forall_mem_cons] at hkeys h
    cases ms with
    | nil =>
      rw [prettyMembers, lexedMembers]
      simp only [List.append_assoc, List.cons_append]
      rw [tokens_newline, tokens_string hkeys.1, tokens_mark rfl, tokens_blank rfl,
        h.1 level _ hrest]
    | cons m' ms =>
      rw [prettyMembers, lexedMembers]
      · simp only [List.append_assoc, List.cons_append]
        rw [tokens_newline, tokens_string hkeys.1, tokens_mark rfl, tokens_blank rfl,
          h.1 level _ endsNumber_comma, tokens_mark rfl, ih hkeys.2 h.2]
      · exact List.cons_ne_nil _ _
      · exact List.cons_ne_nil _ _

/-- The tokens of an indented text are those of the value. -/
theorem tokens_prettyChars (h : Sound j) : Lexes j := by
  induction h with
  | null => exact fun _ _ _ ↦ tokens_null
  | bool b => exact fun _ _ _ ↦ tokens_bool b
  | number hl => exact fun _ _ hrest ↦ tokens_number hl hrest
  | string hl => exact fun _ _ _ ↦ tokens_string hl
  | @array items _ ih =>
    intro level rest hrest
    cases items with
    | nil =>
      show tokens ('[' :: ']' :: rest) = _
      rw [tokens_mark rfl, tokens_mark rfl]
      rfl
    | cons j js =>
      rw [prettyChars, lexed]
      simp only [closing, List.cons_append, List.append_assoc, List.nil_append]
      rw [tokens_mark rfl, tokens_prettyItems ih _ (endsNumber_newline level), tokens_newline,
        tokens_mark rfl]
  | @object members hkeys _ ih =>
    intro level rest hrest
    cases members with
    | nil =>
      show tokens ('{' :: '}' :: rest) = _
      rw [tokens_mark rfl, tokens_mark rfl]
      rfl
    | cons m ms =>
      rw [prettyChars, lexed]
      simp only [closing, List.cons_append, List.append_assoc, List.nil_append]
      rw [tokens_mark rfl, tokens_prettyMembers hkeys ih _ (endsNumber_newline level),
        tokens_newline, tokens_mark rfl]

end Tokens

/-! ## From the tokens to the value -/

section Run

variable {j : Json} {items : List Json} {members : List (String × Json)} {frames : List Frame}
  {ts : List Token}

/-- How reading goes on once a value is finished. -/
def resume (j : Json) : List Frame → List Token → Document
  | [], ts => ⟨j, ts.isEmpty⟩
  | .array items :: frames, ts => run (.afterItem (j :: items)) frames ts
  | .object members key :: frames, ts => run (.afterMember ((key, j) :: members)) frames ts

theorem run_of_deliver {state : State} {t : Token} (h : step state frames t = deliver j frames) :
    run state frames (t :: ts) = resume j frames ts := by
  rw [run, h]
  cases frames with
  | nil => rfl
  | cons frame frames => cases frame <;> rfl

/-- What the machine does on the tokens of a value. -/
def Runs (j : Json) : Prop :=
  ∀ (frames : List Frame) (ts : List Token),
    run .value frames (lexed j ++ ts) = resume j frames ts

/-- The rest of an array, from one of its items on. -/
theorem run_lexedItems (h : ∀ j ∈ items, Runs j) (hne : items ≠ []) (done : List Json) :
    run .value (.array done :: frames) (lexedItems items ++ .closeArray :: ts) =
      resume (.array (done.reverse ++ items) .closed) frames ts := by
  induction items generalizing done with
  | nil => exact absurd rfl hne
  | cons j js ih =>
    rw [List.forall_mem_cons] at h
    cases js with
    | nil =>
      rw [lexedItems, h.1]
      show run (.afterItem (j :: done)) frames (.closeArray :: ts) = _
      rw [← List.reverse_cons]
      exact run_of_deliver rfl
    | cons j' js =>
      rw [lexedItems, List.append_assoc, h.1]
      · show run .value (.array (j :: done) :: frames)
          (lexedItems (j' :: js) ++ .closeArray :: ts) = _
        rw [ih h.2 (List.cons_ne_nil _ _), List.reverse_cons, List.append_assoc,
          List.singleton_append]
      · exact List.cons_ne_nil _ _

/-- The first item of an array is read like any other. -/
theorem run_firstItem (h : Sound j) :
    run .firstItem frames (lexedItems (j :: items) ++ ts) =
      run .value (.array [] :: frames) (lexedItems (j :: items) ++ ts) := by
  obtain ⟨more, hmore⟩ : ∃ more, lexedItems (j :: items) = lexed j ++ more := by
    cases items with
    | nil => exact ⟨[], (List.append_nil _).symm⟩
    | cons j' js => exact ⟨.comma :: lexedItems (j' :: js), rfl⟩
  rw [hmore]
  cases h <;> rfl

/-- The first key of an object is read like any other. -/
theorem run_firstKey (m : String × Json) :
    run .firstKey frames (lexedMembers (m :: members) ++ ts) =
      run (.key []) frames (lexedMembers (m :: members) ++ ts) := by
  cases members <;> rfl

/-- The rest of an object, from one of its keys on. -/
theorem run_lexedMembers (h : ∀ m ∈ members, Runs m.2) (hne : members ≠ [])
    (done : List (String × Json)) :
    run (.key done) frames (lexedMembers members ++ .closeObject :: ts) =
      resume (.object (done.reverse ++ members) .closed) frames ts := by
  induction members generalizing done with
  | nil => exact absurd rfl hne
  | cons m ms ih =>
    obtain ⟨k, j⟩ := m
    rw [List.forall_mem_cons] at h
    cases ms with
    | nil =>
      rw [lexedMembers]
      show run .value (.object done k :: frames) (lexed j ++ .closeObject :: ts) = _
      rw [h.1]
      show run (.afterMember ((k, j) :: done)) frames (.closeObject :: ts) = _
      rw [← List.reverse_cons]
      exact run_of_deliver rfl
    | cons m' ms =>
      rw [lexedMembers]
      · show run .value (.object done k :: frames)
          (lexed j ++ .comma :: lexedMembers (m' :: ms) ++ .closeObject :: ts) = _
        rw [List.append_assoc, h.1]
        show run (.key ((k, j) :: done)) frames
          (lexedMembers (m' :: ms) ++ .closeObject :: ts) = _
        rw [ih h.2 (List.cons_ne_nil _ _), List.reverse_cons, List.append_assoc,
          List.singleton_append]
      · exact List.cons_ne_nil _ _

/-- The machine hands over the value whose tokens it takes. -/
theorem run_lexed (h : Sound j) : Runs j := by
  induction h with
  | null => exact fun _ _ ↦ run_of_deliver rfl
  | bool b => exact fun _ _ ↦ run_of_deliver rfl
  | number hl => exact fun _ _ ↦ run_of_deliver rfl
  | string hl => exact fun _ _ ↦ run_of_deliver rfl
  | @array items hitems ih =>
    intro frames ts
    rw [lexed, List.cons_append, List.append_assoc]
    show run .firstItem frames (lexedItems items ++ .closeArray :: ts) = _
    cases items with
    | nil => exact run_of_deliver rfl
    | cons j js =>
      rw [run_firstItem (hitems j List.mem_cons_self),
        run_lexedItems ih (List.cons_ne_nil _ _) []]
      rfl
  | @object members hkeys hmembers ih =>
    intro frames ts
    rw [lexed, List.cons_append, List.append_assoc]
    show run .firstKey frames (lexedMembers members ++ .closeObject :: ts) = _
    cases members with
    | nil => exact run_of_deliver rfl
    | cons m ms =>
      rw [run_firstKey, run_lexedMembers ih (List.cons_ne_nil _ _) []]
      rfl

end Run

/-! ## Together -/

/-- **A sound value is read back from its indented text, with nothing left over.** -/
theorem read_pretty {j : Json} (h : Sound j) : read (pretty j) = ⟨j, true⟩ := by
  have htokens := tokens_prettyChars h 0 [] (fun c hc ↦ (nomatch hc))
  rw [List.append_nil] at htokens
  rw [read, pretty, String.toList_ofList, htokens, run_lexed h]
  simp [resume, tokens]

/-- Decoding the text of a value is decoding the value. -/
theorem decode_pretty {α : Type} {value : Decoder α} {j : Json} {a : α} (h : Sound j)
    (hvalue : value j = .ok a) : decode value (pretty j) = .ok a := by
  simp only [decode, read_pretty h, hvalue]
  rfl

end SongBundle.Json
