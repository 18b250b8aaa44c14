import Retrieval.Proofs.Boolean
import Retrieval.Proofs.Matching

/-!
# The documents that clauses accept

Which documents a boolean search is to find is stated without a cursor: from whether each clause
matches a document follows whether the clauses together accept it. What to expect of a search that
has been built from clauses agrees with it.
-/

namespace Retrieval

namespace Boolean

variable {α β : Type}

/-- The clauses that count, the required ones first. -/
def counting (clauses : List (Role × α)) : List α :=
  byRole .required clauses ++ byRole .optional clauses

/-- Whether clauses accept a document that they match as told: all required ones, no prohibited one
and enough of the optional ones have to match it. -/
def accepts (rules : ClauseRules) (clauses : List (Role × α)) (isMatch : α → Bool) : Bool :=
  (byRole .required clauses).all isMatch &&
    (byRole .prohibited clauses).all (fun a => !isMatch a) &&
    decide (Prospect.needed rules.minOptional (byRole .required clauses) ≤
      (byRole .optional clauses).countP isMatch)

theorem accepts_iff {rules : ClauseRules} {clauses : List (Role × α)} {isMatch : α → Bool} :
    accepts rules clauses isMatch = true ↔ (∀ a ∈ byRole .required clauses, isMatch a = true) ∧
      (∀ a ∈ byRole .prohibited clauses, ¬ isMatch a = true) ∧
        Prospect.needed rules.minOptional (byRole .required clauses) ≤
          (byRole .optional clauses).countP isMatch := by
  simp only [accepts, Bool.and_eq_true, List.all_eq_true, Bool.not_eq_true', decide_eq_true_eq,
    Bool.not_eq_true, and_assoc]

/-- How many of the clauses that count match a document. -/
def matchCount (clauses : List (Role × α)) (isMatch : α → Bool) : Nat :=
  (counting clauses).countP isMatch

/-- What holds of all clauses holds of those of one role. -/
theorem forall_byRole {clauses : List (Role × α)} {G : α → Prop} (all : ∀ x ∈ clauses, G x.2)
    (role : Role) : ∀ a ∈ byRole role clauses, G a := by
  intro a inside
  obtain ⟨x, there, rfl⟩ := List.mem_map.mp inside
  exact all x (List.mem_of_mem_filter there)

theorem forall_counting {clauses : List (Role × α)} {G : α → Prop} (all : ∀ x ∈ clauses, G x.2) :
    ∀ a ∈ counting clauses, G a :=
  List.forall_mem_append.mpr ⟨forall_byRole all .required, forall_byRole all .optional⟩

theorem byRole_map (f : α → β) (clauses : List (Role × α)) (role : Role) :
    byRole role (clauses.map fun x => (x.1, f x.2)) = (byRole role clauses).map f := by
  simp [byRole, List.filter_map, Function.comp_def]

theorem counting_map (f : α → β) (clauses : List (Role × α)) :
    counting (clauses.map fun x => (x.1, f x.2)) = (counting clauses).map f := by
  simp [counting, byRole_map]

theorem length_byRole_add (clauses : List (Role × α)) :
    (byRole .required clauses).length + (byRole .optional clauses).length +
      (byRole .prohibited clauses).length = clauses.length := by
  induction clauses with
  | nil => rfl
  | cons x clauses ih =>
      obtain ⟨role, a⟩ := x
      cases role <;> simp [byRole_cons] <;> omega

theorem length_counting_le (clauses : List (Role × α)) :
    (counting clauses).length ≤ clauses.length := by
  have all := length_byRole_add clauses
  rw [counting, List.length_append]
  omega

theorem matchCount_le (clauses : List (Role × α)) (isMatch : α → Bool) :
    matchCount clauses isMatch ≤ (counting clauses).length :=
  List.countP_le_length

end Boolean

namespace Prospect

open Boolean

variable {α : Type} {P : α → Prospect} {isMatch : α → Bool} {d : DocId}
variable {clauses : List (Role × α)}

open Classical in
/-- The prospects that have a document in a window are those of the clauses that have one there. -/
theorem meeting_map {W : Set DocId} {as : List α}
    (agree : ∀ a ∈ as, ((P a).docs ∩ W).Nonempty ↔ isMatch a = true) :
    meeting W (as.map P) = (as.filter isMatch).map P := by
  rw [meeting, List.filter_map]
  refine congrArg _ (List.filter_congr fun a inside => ?_)
  exact Bool.eq_iff_iff.mpr (decide_eq_true_iff.trans (agree a inside))

theorem length_meeting_map {W : Set DocId} {as : List α}
    (agree : ∀ a ∈ as, ((P a).docs ∩ W).Nonempty ↔ isMatch a = true) :
    (meeting W (as.map P)).length = as.countP isMatch := by
  rw [meeting_map agree, List.length_map, List.countP_eq_length_filter]

/-- What to expect of the composition of clauses, given what to expect of each. -/
noncomputable def ofRoles (rules : ClauseRules) (clauses : List (Role × Prospect))
    (T : Set DocId) : Prospect :=
  composed rules.minOptional (byRole .required clauses) (byRole .optional clauses)
    (byRole .prohibited clauses) T

/-- The documents expected are those that the clauses accept. -/
theorem mem_ofRoles {rules : ClauseRules} {T : Set DocId}
    (agree : ∀ x ∈ clauses, d ∈ (P x.2).docs ↔ isMatch x.2 = true) :
    d ∈ (ofRoles rules (clauses.map fun x => (x.1, P x.2)) T).docs ↔
      accepts rules clauses isMatch = true := by
  have agreeIn : ∀ role, ∀ a ∈ byRole role clauses, d ∈ (P a).docs ↔ isMatch a = true :=
    forall_byRole agree
  have enough : (meeting {d} ((byRole .optional clauses).map P)).length =
      (byRole .optional clauses).countP isMatch :=
    length_meeting_map fun a inside => mem_singleton_window.trans (agreeIn .optional a inside)
  have required : needed rules.minOptional ((byRole .required clauses).map P) =
      needed rules.minOptional (byRole .required clauses) := by
    simp only [needed, List.isEmpty_map]
  simp only [ofRoles, docs_composed, accepted, byRole_map, Set.mem_ofPred_eq, accepts_iff, required,
    List.forall_mem_map, enough]
  refine and_congr (forall₂_congr (agreeIn .required)) (and_congr_left fun _ => ?_)
  exact forall₂_congr fun a inside => not_congr (agreeIn .prohibited a inside)

/-- No more clauses are counted for a document than there are. -/
theorem scores_ofRoles_le {Ps : List (Role × Prospect)} (rules : ClauseRules)
    (silent : ∀ x ∈ Ps, x.2.Silent) :
    ∀ T d s n, (ofRoles rules Ps T).scores d s n → n ≤ (counting Ps).length := by
  intro T d s n scored
  rw [counting, List.length_append]
  exact scores_composed_le (forall_counting silent) scored

/-- The clauses that make up the score of a document, and which of them are counted. -/
theorem graded_ofRoles {rules : ClauseRules} {T : Set DocId} {v : Score} {n : Nat}
    (isMatch : α → Bool)
    (silent : ∀ x ∈ clauses, (P x.2).Silent)
    (agree : ∀ x ∈ clauses, d ∈ (P x.2).docs ↔ isMatch x.2 = true)
    (accepted : accepts rules clauses isMatch = true)
    (scored : (ofRoles rules (clauses.map fun x => (x.1, P x.2)) T).scores d v n) :
    ∃ Qs, Graded d Qs v n ∧ Tallied rules.minOptional ((byRole .required clauses).map P)
      ((byRole .optional clauses).map P) T d Qs := by
  have silentAll : ∀ Q ∈ (byRole .required clauses).map P ++ (byRole .optional clauses).map P,
      Q.Silent := by
    rw [← List.map_append]
    exact List.forall_mem_map.mpr (forall_counting silent)
  have inside : d ∈ (ofRoles rules (clauses.map fun x => (x.1, P x.2)) T).docs :=
    (mem_ofRoles agree).mpr accepted
  rw [ofRoles, docs_composed] at inside
  simp only [ofRoles, byRole_map] at scored inside
  obtain ⟨Qs, graded, -, tallied⟩ := graded_composed silentAll scored
  exact ⟨Qs, graded, tallied inside⟩

/-- The clauses that match a document. -/
theorem meeting_counting (isMatch : α → Bool)
    (agree : ∀ x ∈ clauses, d ∈ (P x.2).docs ↔ isMatch x.2 = true) :
    meeting {d} ((byRole .required clauses).map P ++ (byRole .optional clauses).map P) =
      ((counting clauses).filter isMatch).map P := by
  have agreeIn : ∀ a ∈ counting clauses, d ∈ (P a).docs ↔ isMatch a = true := forall_counting agree
  rw [← List.map_append, ← counting]
  exact meeting_map fun a inside => mem_singleton_window.trans (agreeIn a inside)

end Prospect

end Retrieval
