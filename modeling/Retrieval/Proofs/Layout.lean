import Retrieval.Proofs.Numerals

/-!
# Values are written as texts of theirs

What is spread over lines is a text of the value, for lines begin with nothing but blanks. And this
is how values are written: with each part on a line of its own, indented by its depth, and with all
characters of its strings as they are or escaped.
-/

namespace Retrieval.Json

variable {cs : List Char} {v : Json} {depth : Nat} {n : Numeral}

theorem blank_lineStart (depth : Nat) : Blank (lineStart depth) := by
  intro c inside
  rcases List.mem_cons.mp inside with rfl | indent
  · exact .inr (.inl rfl)
  · exact .inl (List.eq_of_mem_replicate indent)

/-- A text with blanks in front of it. -/
theorem Denotes.after {before : List Char} (blank : Blank before) (text : Denotes cs v) :
    Denotes (before ++ cs) v := by
  simpa using Denotes.blanks blank (List.forall_mem_nil _) text

theorem Quoted.after {before : List Char} {s : String} (blank : Blank before)
    (quoted : Quoted s cs) : Quoted s (before ++ cs) := by
  obtain ⟨blankBefore, blankAfter, same, each⟩ := quoted
  simpa using Quoted.mk (List.forall_mem_append.mpr ⟨blank, blankBefore⟩) blankAfter same each

/-- What is spread over lines is a text of the value. -/
theorem denotes_of_spread (text : Spread depth cs v) : Denotes cs v := by
  have none : Blank [] := List.forall_mem_nil _
  have blank : Blank [' '] := by simp [Blank]
  induction text with
  | null => exact .null
  | true => exact .true
  | false => exact .false
  | number text => exact .number text
  | string quoted => exact .string quoted
  | noItems => exact .noItems none
  | @array depth first rest each ih =>
      let onLine (i : List Char × Json) := (lineStart (depth + 1) ++ i.1, i.2)
      have texts : ∀ i ∈ (first :: rest).map onLine, Denotes i.1 i.2 := by
        intro i inside
        obtain ⟨i, there, rfl⟩ := List.mem_map.mp inside
        exact (ih i there).after (blank_lineStart (depth + 1))
      have text := @Denotes.array (onLine first) (rest.map onLine) _ (blank_lineStart depth) texts
      simpa [onLine, List.flatMap_map, Function.comp_def] using text
  | noMembers => exact .noMembers none
  | @object depth first rest names each ih =>
      let onLine (m : Member) : Member :=
        ⟨m.name, lineStart (depth + 1) ++ m.nameText, m.value, ' ' :: m.valueText⟩
      have nameTexts : ∀ m ∈ (first :: rest).map onLine, Quoted m.name m.nameText := by
        intro m inside
        obtain ⟨m, there, rfl⟩ := List.mem_map.mp inside
        exact (names m there).after (blank_lineStart (depth + 1))
      have texts : ∀ m ∈ (first :: rest).map onLine, Denotes m.valueText m.value := by
        intro m inside
        obtain ⟨m, there, rfl⟩ := List.mem_map.mp inside
        exact (ih m there).after blank
      have text := @Denotes.object (onLine first) (rest.map onLine) _ (blank_lineStart depth)
        nameTexts texts
      simpa [onLine, List.flatMap_map, Function.comp_def] using text

/-- A character is written as a text of it. -/
theorem charText_charChars (c : Char) : CharText c (Piece.charChars c) := by
  by_cases special : c ∈ ['"', '\\', '\x08', '\t', '\n', '\x0c', '\r']
  · simp only [List.mem_cons, List.not_mem_nil, or_false] at special
    rcases special with rfl | rfl | rfl | rfl | rfl | rfl | rfl <;> exact .letter (by decide)
  obtain ⟨quote, backslash, others⟩ : c ≠ '"' ∧ c ≠ '\\' ∧ Piece.charChars c =
      if c.toNat < 0x20 then Piece.unitChars c.toNat else [c] := by
    simp only [List.mem_cons, List.not_mem_nil, or_false, not_or] at special
    obtain ⟨h1, h2, h3, h4, h5, h6, h7⟩ := special
    refine ⟨h1, h2, ?_⟩
    simp only [Piece.charChars, h1, h2, h3, h4, h5, h6, h7, if_false]
  rw [others]
  split
  case isTrue control =>
    have digit (n : Nat) : HexDigit (Piece.hexDigit (n % 16)) (n % 16) := by
      have all : ∀ n : Fin 16, hexDigits[n.val]? = some (Piece.hexDigit n.val) := by decide
      exact ⟨_, all ⟨n % 16, Nat.mod_lt n (by decide)⟩, .inl rfl⟩
    exact .number (digit _) (digit _) (digit _) (digit _) (by omega)
  case isFalse plain => exact .plain (Nat.not_lt.mp plain) quote backslash

theorem quoted_ofText (s : String) : Quoted s (Piece.quoted (Piece.ofText s)) := by
  have none : Blank [] := List.forall_mem_nil _
  have each : ∀ p ∈ s.toList.map (fun c => (c, Piece.charChars c)), CharText p.1 p.2 := by
    intro p inside
    obtain ⟨c, -, rfl⟩ := List.mem_map.mp inside
    exact charText_charChars c
  have text := @Quoted.mk s _ _ _ none none (by simp [Function.comp_def]) each
  simpa [Piece.quoted, Piece.ofText, Piece.written, List.flatMap_map, Function.comp_def] using text

theorem itemChars_eq (style : Style) (depth : Nat) (vs : List Json) : itemChars style depth vs =
    vs.flatMap fun v => ',' :: (style.line depth ++ v.chars style depth) := by
  induction vs with
  | nil => rw [itemChars, List.flatMap_nil]
  | cons v vs ih => simp only [itemChars, ih, List.flatMap_cons, List.cons_append,
      List.append_assoc]

theorem memberChars_eq (style : Style) (depth : Nat) (ms : List (List Piece × Json)) :
    memberChars style depth ms = ms.flatMap fun m => ',' :: (style.line depth ++
      (Piece.quoted m.1 ++ (style.afterName ++ m.2.chars style depth))) := by
  induction ms with
  | nil => rw [memberChars, List.flatMap_nil]
  | cons m ms ih =>
      obtain ⟨name, item⟩ := m
      simp only [memberChars, ih, List.flatMap_cons, List.cons_append, List.append_assoc]

@[simp] theorem Style.spread_line (depth : Nat) : Style.spread.line depth = lineStart depth := rfl

@[simp] theorem Style.spread_afterName : Style.spread.afterName = [':', ' '] := rfl

/-- This is how values are written. -/
theorem spread_chars (proper : v.Proper) (depth : Nat) :
    Spread depth (v.chars .spread depth) v := by
  induction proper generalizing depth with
  | null => exact .null
  | bool b =>
      cases b with
      | true => exact .true
      | false => exact .false
  | number whole => exact .number (numberText_chars whole)
  | string s => exact .string (quoted_ofText s)
  | @array items each ih =>
      cases items with
      | nil => exact .noItems
      | cons first rest =>
          let written (v : Json) := (v.chars .spread (depth + 1), v)
          have texts : ∀ i ∈ (first :: rest).map written, Spread (depth + 1) i.1 i.2 := by
            intro i inside
            obtain ⟨v, there, rfl⟩ := List.mem_map.mp inside
            exact ih v there (depth + 1)
          have text := @Spread.array depth (written first) (rest.map written) texts
          simpa [written, chars, itemChars_eq, List.flatMap_map, Function.comp_def] using text
  | @object members each ih =>
      cases members with
      | nil => exact .noMembers
      | cons first rest =>
          let written (m : String × Json) : Member :=
            ⟨m.1, Piece.quoted (Piece.ofText m.1), m.2, m.2.chars .spread (depth + 1)⟩
          have names : ∀ m ∈ (first :: rest).map written, Quoted m.name m.nameText := by
            intro m inside
            obtain ⟨m, -, rfl⟩ := List.mem_map.mp inside
            exact quoted_ofText m.1
          have texts : ∀ m ∈ (first :: rest).map written,
              Spread (depth + 1) m.valueText m.value := by
            intro m inside
            obtain ⟨m, there, rfl⟩ := List.mem_map.mp inside
            exact ih m there (depth + 1)
          have text := @Spread.object depth (written first) (rest.map written) names texts
          simpa [written, ofMembers, chars, memberChars_eq, List.flatMap_map, Function.comp_def]
            using text

theorem spread_pretty (proper : v.Proper) : Spread 0 v.pretty.toList v := by
  rw [pretty, String.toList_ofList]
  exact spread_chars proper 0

end Retrieval.Json
