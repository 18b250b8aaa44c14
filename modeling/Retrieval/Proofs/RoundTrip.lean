import Retrieval.Explanation.Json
import Retrieval.Proofs.Breakdown
import Retrieval.Proofs.Layout
import Retrieval.Proofs.Legibility
import Retrieval.Proofs.ReadBack

/-!
# Explanations survive being written

An explanation is read back from its text, whatever is in its descriptions, if all values in it are
finite and it has no more than 64 levels. This holds of every library that keeps to what is known
about it, and the standard one does.
-/

namespace Retrieval

theorem Piece.text?_ofText (text : String) : text? (ofText text) = some text := by
  have chars : ∀ cs : List Char, chars? (cs.map .char) = some cs := fun cs => by
    induction cs with
    | nil => rfl
    | cons c cs ih => rw [List.map_cons, chars?, ih, Option.map_some]
  rw [text?, ofText, chars, Option.map_some, String.ofList_toList]

namespace Json

/-- If no name is there twice, at most one value goes by a name. -/
theorem atMostOne_filter {ms : List (String × Json)} (distinct : (ms.map (·.1)).Nodup)
    (name : String) : atMostOne ((ms.filter (·.1 = name)).map (·.2)) = some (ms.lookup name) := by
  induction ms with
  | nil => rfl
  | cons m ms ih =>
      obtain ⟨n, v⟩ := m
      obtain ⟨fresh, distinct⟩ := List.nodup_cons.mp distinct
      by_cases same : n = name
      · subst same
        have none : ms.filter (·.1 = n) = [] := List.filter_eq_nil_iff.mpr fun m inside eq =>
          fresh (List.mem_map.mpr ⟨m, inside, of_decide_eq_true eq⟩)
        simp [none, atMostOne]
      · have other : (name == n) = false := beq_false_of_ne (Ne.symm same)
        simpa [same, List.lookup_cons, other] using ih distinct

/-- The fields of an object are looked up by their names. -/
theorem fields?_ofMembers {ms : List (String × Json)} (distinct : (ms.map (·.1)).Nodup)
    (names : List String) : (ofMembers ms).fields? names = some (names.map (ms.lookup ·)) := by
  have texts : (ms.map fun m => (Piece.ofText m.1, m.2)).mapM
      (fun m => (Piece.text? m.1).map (·, m.2)) = some ms := by
    clear distinct
    induction ms with
    | nil => rfl
    | cons m ms ih =>
        rw [List.map_cons, List.mapM_cons, ih]
        dsimp only
        rw [Piece.text?_ofText]
        rfl
  have values : names.mapM (fun name => atMostOne ((ms.filter (·.1 = name)).map (·.2))) =
      some (names.map (ms.lookup ·)) := by
    simp only [atMostOne_filter distinct]
    exact List.mapM_pure
  rw [← values, ofMembers, fields?]
  exact congrArg (Option.bind · _) texts

/-- What is known about a library holds of the standard one. -/
theorem Library.documented_standard : standard.Documented where
  layout := spread_pretty
  grammar denotes _ := parse_of_denotes denotes
  limit := Nat.le_refl 127
  float {x} finite := by
    obtain ⟨n, whole, written⟩ := exists_ofScore finite
    have read := score?_ofScore finite
    rw [written] at read
    exact ⟨n, whole, written, read⟩
  fields {names} _ distinct _ := fields?_ofMembers distinct names

/-- A value that is not nested too deeply is read from what is written for it. -/
theorem Library.Documented.parse_pretty {json : Library} (documented : json.Documented) {v : Json}
    (proper : v.Proper) (shallow : v.Shallow json.maxDepth) :
    json.parse (json.pretty v) = some v :=
  documented.grammar (denotes_of_spread (documented.layout proper)) shallow

end Json

namespace Explanation

mutual

def height : Explanation → Nat
  | ⟨_, _, _, details⟩ => heightOfAll details + 1

def heightOfAll : List Explanation → Nat
  | [] => 0
  | e :: rest => max e.height (heightOfAll rest)

end

theorem forall_within_iff {P : Explanation → Prop} {e : Explanation} :
    (∀ n, Within n e → P n) ↔ P e ∧ ∀ d ∈ e.details, ∀ n, Within n d → P n := by
  constructor
  · exact fun all => ⟨all e .root, fun d inside n node => all n (.detail inside node)⟩
  · rintro ⟨root, below⟩ n (_ | ⟨inside, node⟩)
    · exact root
    · exact below _ inside n node

theorem height_eq (e : Explanation) : e.height = heightOfAll e.details + 1 := by
  obtain ⟨_, _, _, details⟩ := e
  rw [height]

theorem height_le_heightOfAll {e : Explanation} {es : List Explanation} (inside : e ∈ es) :
    e.height ≤ heightOfAll es := by
  induction es with
  | nil => nomatch inside
  | cons d es ih =>
      rw [heightOfAll]
      rcases List.mem_cons.mp inside with rfl | later
      · exact Nat.le_max_left ..
      · exact Nat.le_trans (ih later) (Nat.le_max_right ..)

variable {json : Json.Library}

theorem allToJson_eq (es : List Explanation) : allToJson json es = es.map (toJson json) := by
  induction es with
  | nil => rw [allToJson, List.map_nil]
  | cons e es ih => rw [allToJson, List.map_cons, ih]

theorem toJson_eq (e : Explanation) : e.toJson json = .ofMembers
    ([("value", json.ofScore e.value), ("description", .ofText e.description),
      ("is_match", .bool e.matched)] ++
      if e.details.isEmpty then [] else [("details", .array (e.details.map (toJson json)))]) := by
  obtain ⟨value, description, matched, details⟩ := e
  rw [toJson, allToJson_eq]
  cases details <;> rfl

/-- The values in a record are those of its fields, and the details if there are any. -/
theorem forall_members {e : Explanation} {P : Json → Prop} (value : P (json.ofScore e.value))
    (description : P (.ofText e.description)) (matched : P (.bool e.matched))
    (details : e.details ≠ [] → P (.array (e.details.map (toJson json)))) :
    ∀ m ∈ [("value", json.ofScore e.value), ("description", .ofText e.description),
      ("is_match", .bool e.matched)] ++
      (if e.details.isEmpty then [] else [("details", .array (e.details.map (toJson json)))]),
      P m.2 := by
  refine List.forall_mem_append.mpr ⟨by simp [value, description, matched], ?_⟩
  split
  case isTrue => exact List.forall_mem_nil _
  case isFalse some =>
    exact List.forall_mem_singleton.mpr (details (by rwa [List.isEmpty_iff] at some))

variable (documented : json.Documented)
include documented

/-- The fields of a record are those of the explanation, the details being there if there are any.
-/
theorem fields?_toJson (e : Explanation) :
    json.fields? ["value", "description", "is_match", "details"] (e.toJson json) =
      some [some (json.ofScore e.value), some (.ofText e.description), some (.bool e.matched),
        if e.details.isEmpty then none else some (.array (e.details.map (toJson json)))] := by
  rw [toJson_eq, documented.fields (by split <;> simp) (by split <;> simp)]
  split <;> simp [List.lookup]

omit documented in
/-- Explanations are read back one by one. -/
theorem allOfJson?_array {depth : Nat} {es : List Explanation}
    (each : ∀ e ∈ es, ofJson? json depth (e.toJson json) = some e) :
    allOfJson? json (depth + 1) (.array (es.map (toJson json))) = some es := by
  rw [allOfJson?]
  induction es with
  | nil => rfl
  | cons e es ih =>
      obtain ⟨first, others⟩ := List.forall_mem_cons.mp each
      rw [List.map_cons, List.mapM_cons, first, ih others]
      rfl

/-- An explanation is read back from its record if its values are finite and it is not nested too
deeply. -/
theorem ofJson?_toJson {depth : Nat} {e : Explanation}
    (finite : ∀ n, Within n e → n.value.IsFinite) (shallow : 2 * e.height ≤ depth + 1) :
    ofJson? json depth (e.toJson json) = some e := by
  -- a record and the array of its details are two levels, so two are used up at each node
  induction depth using Nat.strongRecOn generalizing e with
  | ind depth ih =>
      rw [height_eq] at shallow
      obtain ⟨depth, rfl⟩ : ∃ d, depth = d + 1 := ⟨depth - 1, by omega⟩
      have details : ((if e.details.isEmpty then none
          else some (.array (e.details.map (toJson json)))).map (allOfJson? json depth)).getD
            (some []) = some e.details := by
        cases same : e.details with
        | nil => rfl
        | cons d ds =>
            rw [same, heightOfAll, height_eq] at shallow
            obtain ⟨depth, rfl⟩ : ∃ d, depth = d + 1 := ⟨depth - 1, by omega⟩
            rw [List.isEmpty_cons, if_neg Bool.false_ne_true, Option.map_some, Option.getD_some,
              ← same]
            refine allOfJson?_array fun d' inside => ?_
            have below : d'.height ≤ heightOfAll (d :: ds) := height_le_heightOfAll (same ▸ inside)
            rw [heightOfAll, height_eq d] at below
            exact ih depth (by omega) (fun n node => finite n (.detail inside node)) (by omega)
      obtain ⟨n, -, written, value⟩ := documented.float (finite e .root)
      rw [ofJson?, fields?_toJson documented]
      simp only [Option.bind_eq_bind, Option.bind_some, details, written, value, Json.ofText,
        Json.text?, Piece.text?_ofText, Json.bool?]
      cases e
      rfl

/-- The record of an explanation can be written. -/
theorem proper_toJson {e : Explanation} (finite : ∀ n, Within n e → n.value.IsFinite) :
    (e.toJson json).Proper := by
  obtain ⟨n, whole, written, -⟩ := documented.float (finite e .root)
  rw [toJson_eq]
  refine .object (forall_members ?_ (.string _) (.bool _) fun _ => .array fun v inside => ?_)
  · rw [written]
    exact .number whole
  · obtain ⟨d, there, rfl⟩ := List.mem_map.mp inside
    have := height_le_heightOfAll there
    have := e.height_eq
    exact proper_toJson fun n node => finite n (.detail there node)
termination_by e.height

/-- Each level of an explanation is an object, and between two levels there is an array. -/
theorem shallow_toJson {depth : Nat} {e : Explanation}
    (finite : ∀ n, Within n e → n.value.IsFinite) (shallow : 2 * e.height ≤ depth + 1) :
    (e.toJson json).Shallow depth := by
  have height := e.height_eq
  obtain ⟨depth, rfl⟩ : ∃ d, depth = d + 1 := ⟨depth - 1, by omega⟩
  obtain ⟨n, -, written, -⟩ := documented.float (finite e .root)
  rw [toJson_eq]
  refine .object (forall_members ?_ (.string _) (.bool _) fun some => ?_)
  · rw [written]
    exact .number n
  obtain ⟨d, there⟩ := List.exists_mem_of_ne_nil _ some
  have := height_le_heightOfAll there
  have := d.height_eq
  obtain ⟨depth, rfl⟩ : ∃ d, depth = d + 1 := ⟨depth - 1, by omega⟩
  refine .array fun v inside => ?_
  obtain ⟨d, there, rfl⟩ := List.mem_map.mp inside
  have := height_le_heightOfAll there
  exact shallow_toJson (fun n node => finite n (.detail there node)) (by omega)
termination_by e.height

/-- An explanation whose values are finite and that has at most 64 levels is read back from its
text: the same values, descriptions, marks of matches and details in the same order. -/
theorem read_write {e : Explanation} (finite : ∀ n, Within n e → n.value.IsFinite)
    (shallow : e.height ≤ 64) : read (e.write json) json = .ok e := by
  have shallow : 2 * e.height ≤ json.maxDepth + 1 := by
    have := documented.limit
    omega
  rw [read, Json.read, write, documented.parse_pretty (proper_toJson documented finite)
    (shallow_toJson documented finite shallow), Option.bind_some,
    ofJson?_toJson documented finite shallow]

omit documented

/-- Three levels, with the largest score, the smallest one and the zero with a minus sign, and with
descriptions that have to be escaped or are not in letters. -/
def ornate : Explanation :=
  ⟨⟨0x7f7fffff⟩, "sum \"of\":\n\\", true,
    [⟨⟨0x80000000⟩, "\x01\u00e9𝄞", false, []⟩, ⟨1, "", true, [⟨⟨1⟩, "0.1", false, []⟩]⟩]⟩

theorem read_write_ornate : Json.Library.standard.Documented ∧
    (∀ n, Within n ornate → n.value.IsFinite) ∧ ornate.height ≤ 64 ∧
    read ornate.write = .ok ornate := by
  have leaf : ∀ {e : Explanation}, e.details = [] → e.value.IsFinite →
      ∀ n, Within n e → n.value.IsFinite := fun none finite n node =>
    node.eq_of_details_eq_nil none ▸ finite
  have finite : ∀ n, Within n ornate → n.value.IsFinite := by
    refine forall_within_iff.mpr ⟨by decide, List.forall_mem_cons.mpr ⟨leaf rfl (by decide), ?_⟩⟩
    refine List.forall_mem_singleton.mpr (forall_within_iff.mpr ⟨by decide, ?_⟩)
    exact List.forall_mem_singleton.mpr (leaf rfl (by decide))
  have shallow : ornate.height ≤ 64 := by decide
  exact ⟨Json.Library.documented_standard, finite, shallow,
    read_write Json.Library.documented_standard finite shallow⟩

end Explanation

end Retrieval
