/-
  SeededRows.Proofs.Json.Documents

  A written document is read back. The written form of a document is scanned as the tokens of
  its parts, with the separators between them, and reading these tokens at any place where a
  value may stand leaves the document there. The documents in question hold no more than the
  notation can carry: integers of 64 bits, doubles that read back and no more containers
  inside each other than the reader follows.
-/
import SeededRows.Proofs.Json.Scalars

namespace SeededRows.Json

/-! ## Documents that can be written -/

/-- A document that has a number of containers around it and that the notation can carry. -/
inductive Faithful : Nat → Json → Prop
  | null (depth : Nat) : Faithful depth .null
  | bool (depth : Nat) (b : Bool) : Faithful depth (.bool b)
  | int (depth : Nat) {n : Int} (h : IsWide n) : Faithful depth (.int n)
  | float (depth : Nat) {x : Float} (h : ReadsBack x) : Faithful depth (.float x)
  | text (depth : Nat) (s : String) : Faithful depth (.text s)
  | list {depth : Nat} {items : List Json} (hdepth : depth < depthLimit)
      (h : ∀ v ∈ items, Faithful (depth + 1) v) : Faithful depth (.list items)
  | record {depth : Nat} {entries : List (String × Json)} (hdepth : depth < depthLimit)
      (h : ∀ entry ∈ entries, Faithful (depth + 1) entry.2) : Faithful depth (.record entries)

mutual

/-- The tokens of the written form of a document. -/
def tokensOf : Json → List Token
  | list items => .listOpen :: (List.intercalate [.comma] (tokensOfItems items) ++ [.listClose])
  | record entries =>
    .recordOpen :: (List.intercalate [.comma] (tokensOfEntries entries) ++ [.recordClose])
  | text s => [.quoted (s.toList.flatMap escaped)]
  | v => [.word (scalar v).toList]

/-- The tokens of each item of a list. -/
def tokensOfItems : List Json → List (List Token)
  | [] => []
  | item :: rest => tokensOf item :: tokensOfItems rest

/-- The tokens of each entry of a record. -/
def tokensOfEntries : List (String × Json) → List (List Token)
  | [] => []
  | (key, v) :: rest =>
    (.quoted (key.toList.flatMap escaped) :: .colon :: tokensOf v) :: tokensOfEntries rest

end

theorem tokensOfItems_eq_map (items : List Json) : tokensOfItems items = items.map tokensOf := by
  induction items with
  | nil => rfl
  | cons v items ih => rw [tokensOfItems, ih, List.map_cons]

/-- The tokens of an entry of a record. -/
def tokensOfEntry (entry : String × Json) : List Token :=
  .quoted (entry.1.toList.flatMap escaped) :: .colon :: tokensOf entry.2

theorem tokensOfEntries_eq_map (entries : List (String × Json)) :
    tokensOfEntries entries = entries.map tokensOfEntry := by
  induction entries with
  | nil => rfl
  | cons entry entries ih => rw [tokensOfEntries, ih, List.map_cons, tokensOfEntry]

theorem compactItems_eq_map (items : List Json) : compactItems items = items.map compact := by
  induction items with
  | nil => rfl
  | cons v items ih => rw [compactItems, ih, List.map_cons]

theorem compactEntries_eq_map (entries : List (String × Json)) :
    compactEntries entries = entries.map fun entry => quoted entry.1 ++ ":" ++ compact entry.2 := by
  induction entries with
  | nil => rfl
  | cons entry entries ih => rw [compactEntries, ih, List.map_cons]

/-! ## Scanning -/

/-- A text is scanned as tokens, whatever follows that does not extend its last word. -/
def Scans (cs : List Char) (ts : List Token) : Prop :=
  ∀ (done : List Token) (rest : List Char), Ends rest →
    scan .nothing done (cs ++ rest) = scan .nothing (ts.reverse ++ done) rest

theorem Scans.nil : Scans [] [] := fun _ _ _ => rfl

/-- A bracket or a separator is no letter, no space and no quote. -/
theorem mark?_cases {c : Char} {t : Token} (h : mark? c = some t) :
    isWordChar c = false ∧ isSpace c = false ∧ c ≠ '"' := by
  rw [mark?] at h
  split_ifs at h with h₁ h₂ h₃ h₄ h₅ h₆
  all_goals
    subst c
    decide

/-- A mark before a text is a token of its own. -/
theorem Scans.mark {c : Char} {t : Token} {cs : List Char} {ts : List Token}
    (hmark : mark? c = some t) (h : Scans cs ts) : Scans (c :: cs) (t :: ts) := by
  intro done rest hrest
  obtain ⟨hword, hspace, hquote⟩ := mark?_cases hmark
  rw [List.cons_append, scan]
  simp only [hword, hspace, hquote, hmark, if_false, Bool.false_eq_true]
  rw [h _ rest hrest, List.reverse_cons, List.append_assoc, List.singleton_append]

/-- A text before a mark is scanned on its own. -/
theorem Scans.append_mark {c : Char} {cs ds : List Char} {ts us : List Token} {t : Token}
    (hmark : mark? c = some t) (hcs : Scans cs ts) (hds : Scans ds us) :
    Scans (cs ++ c :: ds) (ts ++ t :: us) := by
  intro done rest hrest
  have hnext := Scans.mark hmark hds
  rw [List.append_assoc, hcs done (c :: ds ++ rest) (.cons (mark?_cases hmark).1),
    hnext _ rest hrest, List.reverse_append, List.append_assoc]

/-- Texts with commas between them are scanned as their tokens with commas between them. -/
theorem Scans.intercalate {α : Type} {written : α → List Char} {tokens : α → List Token} :
    ∀ {parts : List α}, (∀ a ∈ parts, Scans (written a) (tokens a)) →
      Scans (List.intercalate [','] (parts.map written))
        (List.intercalate [Token.comma] (parts.map tokens))
  | [], _ => .nil
  | [a], h => by
    simpa only [List.map_cons, List.map_nil, List.intercalate_singleton] using
      h a List.mem_cons_self
  | a :: b :: parts, h => by
    have ih := Scans.intercalate fun d hd => h d (List.mem_cons_of_mem a hd)
    simp only [List.map_cons, List.intercalate_cons_cons, List.append_assoc,
      List.singleton_append] at ih ⊢
    exact .append_mark rfl (h a List.mem_cons_self) ih

theorem Scans.word {letters : List Char} (hword : IsWord letters) (hne : letters ≠ []) :
    Scans letters [.word letters] := fun done _ hrest => scan_word hword hne hrest done

theorem Scans.quoted (s : String) :
    Scans (quoted s).toList [.quoted (s.toList.flatMap escaped)] :=
  fun done rest _ => scan_quoted s done rest

/-- The written form of a document is scanned as the tokens of the document. -/
theorem Faithful.scans {depth : Nat} {v : Json} (h : Faithful depth v) :
    Scans (compact v).toList (tokensOf v) := by
  induction h with
  | null => exact Scans.word (by decide : IsWord "null".toList) (by decide)
  | bool _ b =>
    cases b with
    | false => exact Scans.word (by decide : IsWord "false".toList) (by decide)
    | true => exact Scans.word (by decide : IsWord "true".toList) (by decide)
  | @int _ n _ => exact .word (isWord_int n) (toString_int_ne_nil n)
  | @float _ x h => exact .word (isWord_float x) h.word.1
  | text _ s => exact .quoted s
  | @list _ items _ _ ih =>
    have hclosed := Scans.mark (c := '[') rfl
      (.append_mark (c := ']') (t := .listClose) rfl (.intercalate ih) .nil)
    rw [compact, tokensOf, tokensOfItems_eq_map, compactItems_eq_map]
    simpa [String.toList_intercalate, Function.comp_def] using hclosed
  | @record _ entries _ _ ih =>
    have hentries : ∀ entry ∈ entries,
        Scans (quoted entry.1 ++ ":" ++ compact entry.2).toList (tokensOfEntry entry) := by
      intro entry hentry
      rw [String.toList_append, String.toList_append, List.append_assoc]
      exact .append_mark rfl (.quoted entry.1) (ih entry hentry)
    have hclosed := Scans.mark (c := '\x7b') rfl
      (.append_mark (c := '\x7d') (t := .recordClose) rfl (.intercalate hentries) .nil)
    rw [compact, tokensOf, tokensOfEntries_eq_map, compactEntries_eq_map]
    simpa [String.toList_intercalate, Function.comp_def] using hclosed

/-! ## Reading -/

/-- The tokens of a document are read as the document. -/
def Reads (depth : Nat) (v : Json) : Prop :=
  ∀ (frames : List Frame) (canEnd : Bool) (rest : List Token), frames.length = depth →
    read frames (.item canEnd) (tokensOf v ++ rest) = read frames (.after v) rest

theorem Reads.word {depth : Nat} {v : Json} {letters : List Char}
    (htokens : tokensOf v = [.word letters]) (hvalue : wordValue? letters = some v) :
    Reads depth v := by
  intro frames canEnd rest _
  rw [htokens, List.singleton_append, read, hvalue]
  rfl

theorem atDepth_of_lt {depth : Nat} (h : depth < depthLimit) (v : Json) : atDepth depth v = v := by
  rw [atDepth, if_pos h]

/-- The items of a list are read after those that were there, up to the end of the list. -/
theorem read_items {frames : List Frame} (hdepth : frames.length < depthLimit)
    {items : List Json} (h : ∀ v ∈ items, Reads (frames.length + 1) v) :
    ∀ (before : List Json) (canEnd : Bool) (rest : List Token), (items ≠ []) →
      read (.list before.reverse :: frames) (.item canEnd)
          (List.intercalate [.comma] (items.map tokensOf) ++ .listClose :: rest) =
        read frames (.after (.list (before ++ items))) rest := by
  induction items with
  | nil =>
    intro _ _ _ hne
    exact absurd rfl hne
  | cons v items ih =>
    intro before canEnd rest _
    have hv := h v List.mem_cons_self
    -- The last item is followed by the bracket, every other one by a comma.
    cases items with
    | nil =>
      rw [List.map_cons, List.map_nil, List.intercalate_singleton, hv _ _ _ rfl, read,
        atDepth_of_lt hdepth, List.reverse_cons, List.reverse_reverse]
    | cons w items =>
      have hcomma : ∀ ts, read (.list before.reverse :: frames) (.after v) (.comma :: ts) =
          read (.list (before ++ [v]).reverse :: frames) (.item false) ts := by
        intro ts
        rw [List.reverse_append]
        rfl
      rw [List.map_cons, List.map_cons, List.intercalate_cons_cons, List.append_assoc,
        List.append_assoc, hv _ _ _ rfl, List.singleton_append, hcomma]
      have hrest := ih (fun u hu => h u (List.mem_cons_of_mem v hu)) (before ++ [v]) false rest
        (List.cons_ne_nil w items)
      rw [List.map_cons] at hrest
      rw [hrest, List.append_assoc, List.singleton_append]

/-- An entry as a frame keeps it while its record is open. -/
def named (entry : String × Json) : Option String × Json := (some entry.1, entry.2)

/-- Names that are all there come out as they are. -/
theorem mapM_named {nameOf : Option String × Json → Option (String × Json)}
    (hname : ∀ key v, nameOf (some key, v) = some (key, v)) (entries : List (String × Json)) :
    (entries.map named).mapM nameOf = some entries := by
  induction entries with
  | nil => rfl
  | cons entry entries ih =>
    rw [List.map_cons, List.mapM_cons, ih, named, hname]
    rfl

theorem recordOf_named (entries : List (String × Json)) :
    recordOf (entries.map named).reverse = .record entries := by
  rw [recordOf, List.reverse_reverse, mapM_named fun _ _ => rfl]

/-- The entries of a record are read after those that were there, up to the end of the record. -/
theorem read_entries {frames : List Frame} (hdepth : frames.length < depthLimit)
    {entries : List (String × Json)}
    (h : ∀ entry ∈ entries, Reads (frames.length + 1) entry.2) :
    ∀ (before : List (String × Json)) (canEnd : Bool) (rest : List Token), entries ≠ [] →
      read frames (.key (before.map named).reverse canEnd)
          (List.intercalate [.comma] (entries.map tokensOfEntry) ++ .recordClose :: rest) =
        read frames (.after (.record (before ++ entries))) rest := by
  induction entries with
  | nil =>
    intro _ _ _ hne
    exact absurd rfl hne
  | cons entry entries ih =>
    intro before canEnd rest _
    have hv := h entry List.mem_cons_self
    have hentry : ∀ ts, read frames (.key (before.map named).reverse canEnd)
        (tokensOfEntry entry ++ ts) =
          read (.record (before.map named).reverse (some entry.1) :: frames) (.after entry.2)
            ts := by
      intro ts
      rw [tokensOfEntry, List.cons_append, List.cons_append, read, textValue?_escaped]
      exact hv _ _ _ rfl
    -- The frame keeps its entries in reverse, the newest in front.
    have hnamed : named entry :: (before.map named).reverse =
        ((before ++ [entry]).map named).reverse := by simp
    cases entries with
    | nil =>
      rw [List.map_cons, List.map_nil, List.intercalate_singleton, hentry, read, ← recordOf_named,
        atDepth_of_lt hdepth, ← hnamed]
      rfl
    | cons next entries =>
      have hcomma : ∀ ts, read (.record (before.map named).reverse (some entry.1) :: frames)
          (.after entry.2) (.comma :: ts) =
            read frames (.key ((before ++ [entry]).map named).reverse false) ts := by
        intro ts
        rw [← hnamed]
        rfl
      rw [List.map_cons, List.map_cons, List.intercalate_cons_cons, List.append_assoc,
        List.append_assoc, hentry, List.singleton_append, hcomma]
      have hrest := ih (fun e he => h e (List.mem_cons_of_mem entry he)) (before ++ [entry]) false
        rest (List.cons_ne_nil next entries)
      rw [List.map_cons] at hrest
      rw [hrest, List.append_assoc, List.singleton_append]

/-- The tokens of the written form of a document are read as the document. -/
theorem Faithful.reads {depth : Nat} {v : Json} (h : Faithful depth v) : Reads depth v := by
  induction h with
  | null => exact .word rfl rfl
  | bool _ b => cases b <;> exact .word rfl rfl
  | int _ h => exact .word rfl (wordValue?_int h)
  | float _ h => exact .word rfl h.word.2
  | text _ s =>
    intro frames canEnd rest _
    rw [tokensOf, List.singleton_append, read, textValue?_escaped]
    rfl
  | @list depth items hdepth _ ih =>
    rintro frames canEnd rest rfl
    rw [tokensOf, tokensOfItems_eq_map, List.cons_append, List.append_assoc,
      List.singleton_append, read]
    -- Only a list that was just opened may end where an item is expected.
    cases items with
    | nil =>
      rw [List.map_nil, List.intercalate_nil, List.nil_append, read, if_pos rfl,
        atDepth_of_lt hdepth]
    | cons v items =>
      exact read_items hdepth ih [] true rest (List.cons_ne_nil v items)
  | @record depth entries hdepth _ ih =>
    rintro frames canEnd rest rfl
    rw [tokensOf, tokensOfEntries_eq_map, List.cons_append, List.append_assoc,
      List.singleton_append, read]
    cases entries with
    | nil =>
      rw [List.map_nil, List.intercalate_nil, List.nil_append, read, if_pos rfl,
        atDepth_of_lt hdepth]
      rfl
    | cons entry entries =>
      exact read_entries hdepth ih [] true rest (List.cons_ne_nil entry entries)

/-- The written form of a document that the notation can carry is read as the document. -/
theorem Faithful.ofText_compact {v : Json} (h : Faithful 0 v) : ofText (compact v) = some v := by
  have hscan : tokens (compact v) = some (tokensOf v) := by
    simpa [tokens, scan] using h.scans [] [] .nil
  rw [ofText, hscan, Option.bind_eq_bind, Option.bind_some]
  simpa [read] using h.reads [] false [] rfl

end SeededRows.Json
