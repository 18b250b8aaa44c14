import Retrieval.Cursor.Exclusion
import Retrieval.Proofs.Rest

/-!
# Exclusions keep their promise

The excluded side follows the required one: before a document is judged it is abreast of it, and
afterwards it either stands on the document, which is then stepped over, or is clear of it. Each
side goes through the documents of its own first move.
-/

namespace Retrieval

/-- What to expect of one cursor without the documents of another. -/
def Prospect.without (P X : Prospect) : Prospect where
  docs := P.docs \ X.docs
  docsFrom t := P.docsFrom t \ X.docsFrom t
  later t := Set.sdiff_subset.trans (P.later t)
  holds := P.holds
  scores := P.scores

namespace Exclusion

open Cursor

variable {ρ ε : Type} [Cursor ρ] [Cursor ε]
variable {P X : Prospect} {D E W : Set DocId} {d t : DocId}

theorem movesLeft_begun (required : ρ) (excluded : Option ε) :
    Cursor.movesLeft (begun (some required) excluded) =
      Cursor.movesLeft required + sideMoves excluded := rfl

/-- An excluded side that is abreast of a document tells whether it contains the document, and is
clear of it if it does not. -/
theorem judge_spec {excluded : ε} (abreast : Abreast X E d (some excluded)) :
    ∃ excluded' isExcluded, judge excluded d = .done excluded' isExcluded ∧
      sideMoves excluded' ≤ Cursor.movesLeft excluded ∧
      match isExcluded with
      | true => d ∈ E ∧ Abreast X E d excluded'
      | false => Clear X E d excluded' := by
  rw [judge]
  cases abreast with
  | @behind e v c stands before =>
      rw [faithful_stands.doc stands, if_neg (Int32.lt_asymm before), if_pos before]
      cases faithful_stands.ahead stands before with
      | found e' c' eq least stood =>
          have place : Cursor.doc c' = e' := faithful_stands.doc stood.1
          refine ⟨some c', Cursor.doc c' ≤ d, by rw [eq, Outcome.bind_done, if_pos rfl],
            Nat.le_of_lt stood.2, ?_⟩
          rw [place]
          by_cases on : e' ≤ d
          · obtain rfl : e' = d := Int32.le_antisymm on least.1.2
            rw [decide_eq_true on]
            exact ⟨least.1.1, .reached stood.1 least⟩
          · rw [decide_eq_false on]
            exact .beyond stood.1 least (Int32.not_le.mp on)
      | missed c' eq empty =>
          exact ⟨none, false, by rw [eq, Outcome.bind_done, if_neg Bool.false_ne_true],
            Nat.zero_le _, .out empty⟩
  | @reached e c stands least =>
      rw [faithful_stands.doc stands]
      by_cases after : d < e
      · rw [if_pos after]
        exact ⟨some excluded, false, rfl, Nat.le_refl _, .beyond stands least after⟩
      · obtain rfl : e = d := Int32.le_antisymm (Int32.not_lt.mp after) least.1.2
        rw [if_neg after, if_neg after]
        exact ⟨some excluded, true, rfl, Nat.le_refl _, least.1.1, .reached stands least⟩

/-- An exclusion that stands on a document: the required side stands there, and the excluded side is
clear of it. -/
inductive Standing (P X : Prospect) (D E : Set DocId) (d : DocId) (v : Option Score) :
    Exclusion ρ ε → Prop
  | intro {required : ρ} {excluded : Option ε} (stands : Stands P D d v required)
      (clear : Clear X E d excluded) : Standing P X D E d v (begun (some required) excluded)

/-- Documents are stepped over until one is not excluded. The induction is on the bound, which is
lowered by every step, and so are the moves left on the required side. -/
theorem pass_finds (bound : Nat) {required : ρ} {excluded : Option ε}
    (stands : Stands P D d none required) (abreast : Abreast X E d excluded)
    (enough : Cursor.movesLeft required < bound) :
    (pass bound required excluded).Finds ((D \ E) ∩ since d) fun d' c =>
      Standing P X D E d' none c ∧
        Cursor.movesLeft c ≤ Cursor.movesLeft required + sideMoves excluded := by
  induction bound generalizing required excluded d with
  | zero => omega
  | succ bound ih =>
      have least : ∀ {excluded : Option ε}, Clear X E d excluded → IsLeast ((D \ E) ∩ since d) d :=
        fun clear => ⟨⟨⟨faithful_stands.mem stands, clear.notMem⟩, Int32.le_refl d⟩, fun _ m => m.2⟩
      cases excluded with
      | none =>
          cases abreast with
          | out empty =>
              exact .found d _ rfl (least (.out empty : Clear X E d (none : Option ε)))
                ⟨.intro stands (.out empty), Nat.le_refl _⟩
      | some excluded =>
          obtain ⟨excluded', isExcluded, eq, fewer, told⟩ := judge_spec abreast
          have fewer' : sideMoves excluded' ≤ sideMoves (some excluded) := fewer
          rw [pass, faithful_stands.doc stands, eq, Outcome.bind_done]
          cases isExcluded with
          | false =>
              refine .found d _ rfl (least told) ⟨.intro stands told, ?_⟩
              rw [movesLeft_begun]
              omega
          | true =>
              rw [if_pos rfl]
              -- the document itself is excluded, so the window shrinks to what lies beyond it
              have shrinks : (D \ E) ∩ since d = (D \ E) ∩ beyond d := by
                ext x
                refine and_congr_right fun inside => ⟨fun le => ?_, Int32.le_of_lt⟩
                apply Int32.lt_of_le_of_ne le
                rintro rfl
                exact inside.2 told.1
              cases faithful_stands.next stands with
              | missed required' eq' empty =>
                  rw [eq', Outcome.bind_done, if_neg Bool.false_ne_true, shrinks]
                  exact .missed _ rfl (Set.subset_eq_empty
                    (Set.inter_subset_inter_left _ Set.sdiff_subset) empty)
              | found d' required' eq' least' stood =>
                  rw [eq', Outcome.bind_done, if_pos rfl]
                  have later : d ≤ d' := Int32.le_of_lt least'.1.2
                  have window : (D \ E) ∩ since d = (D \ E) ∩ since d' := by
                    rw [shrinks]
                    ext x
                    refine and_congr_right fun inside => ⟨fun le => ?_, fun le => ?_⟩
                    · exact least'.2 ⟨inside.1, le⟩
                    · exact Int32.lt_of_lt_of_le least'.1.2 le
                  rw [window]
                  have moved := stood.2
                  refine (ih stood.1 (told.2.mono later) (by omega)).imp fun _ c _ stood' =>
                    ⟨stood'.1, ?_⟩
                  have := stood'.2
                  omega

/-- What comes after a move of the required side: excluded documents are stepped over. -/
def follow (excluded : Option ε) (o : Outcome ρ Bool) : Outcome (Exclusion ρ ε) Bool :=
  o.bind (fun required => begun (some required) excluded) fun found required =>
    if found then pass (Cursor.movesLeft required + 1) required excluded
    else .done (begun none excluded) false

theorem follow_done (excluded : Option ε) (required : ρ) (found : Bool) :
    follow excluded (.done required found) =
      if found then pass (Cursor.movesLeft required + 1) required excluded
      else .done (begun none excluded) false := by
  rw [follow, Outcome.bind_done]

/-- A move of the required side over a window finds what is not excluded there. -/
theorem follow_finds {o : Outcome ρ Bool} {m : Nat} {excluded : Option ε} (upper : IsUpperSet W)
    (finds : o.Finds (D ∩ W) fun d r => Stands P D d none r ∧ Cursor.movesLeft r < m)
    (abreast : ∀ d, IsLeast (D ∩ W) d → Abreast X E d excluded) :
    (follow excluded o).Finds ((D \ E) ∩ W) fun d c =>
      Standing P X D E d none c ∧ Cursor.movesLeft c < m + sideMoves excluded := by
  cases finds with
  | missed required eq empty =>
      rw [eq, follow_done, if_neg Bool.false_ne_true]
      have sub : (D \ E) ∩ W ⊆ D ∩ W := Set.inter_subset_inter_left W Set.sdiff_subset
      exact .missed _ rfl (Set.subset_eq_empty sub empty)
  | found d required eq least stood =>
      rw [eq, follow_done, if_pos rfl]
      have window : (D \ E) ∩ W = (D \ E) ∩ since d := by
        ext x
        exact and_congr_right fun inside =>
          ⟨fun there => least.2 ⟨inside.1, there⟩, fun le => upper le least.1.2⟩
      rw [window]
      refine (pass_finds _ stood.1 (abreast d least) (Nat.lt_succ_self _)).imp
        fun _ _ _ stood' => ⟨stood'.1, ?_⟩
      have moved := stood.2
      have moved' := stood'.2
      omega

/-- Once the excluded side has run out, the required side answers alone. -/
theorem alone_finds {o : Outcome ρ Bool} {m : Nat}
    (finds : o.Finds (D ∩ W) fun d r => Stands P D d none r ∧ Cursor.movesLeft r < m)
    (out : ∀ d ∈ W, E ∩ since d = ∅) :
    (o.within fun required => (begun (some required) none : Exclusion ρ ε)).Finds ((D \ E) ∩ W)
      fun d c => Standing P X D E d none c ∧ Cursor.movesLeft c < m := by
  have same : (D \ E) ∩ W = D ∩ W := by
    ext x
    refine and_congr_left fun inside => and_iff_left_iff_imp.mpr fun _ excluded => ?_
    exact Set.eq_empty_iff_forall_notMem.mp (out x inside) x ⟨excluded, Int32.le_refl x⟩
  rw [same]
  refine finds.within fun d r least stood => ⟨.intro stood.1 (.out (out d least.1.2)), ?_⟩
  exact stood.2

omit [Cursor ρ] [Cursor ε] in
theorem start_begun (required : Option ρ) (excluded : Option ε) (move : ε → Outcome ε Bool) :
    (begun required excluded).start move = .done (begun required excluded) () := by
  cases excluded <;> rfl

section Begun

variable (required : ρ)

theorem next_begun (excluded : Option ε) :
    Cursor.next (begun (some required) excluded) = follow excluded (Cursor.next required) := by
  show Exclusion.next _ = _
  rw [Exclusion.next, start_begun, Outcome.andThen_done]
  rfl

theorem seek_begun_none (t : DocId) :
    Cursor.seek (begun (some required) none : Exclusion ρ ε) t =
      (Cursor.seek required t).within fun required => begun (some required) none := by
  show Exclusion.seek _ t = _
  rw [Exclusion.seek, start_begun, Outcome.andThen_done]
  rfl

theorem seek_begun_some (excluded : ε) (t : DocId) :
    Cursor.seek (begun (some required) (some excluded)) t =
      follow (some excluded) (Cursor.seek required t) := by
  show Exclusion.seek _ t = _
  rw [Exclusion.seek, start_begun, Outcome.andThen_done]
  rfl

theorem score_begun (excluded : Option ε) : Cursor.score (begun (some required) excluded) =
    (Cursor.score required).within fun required => begun (some required) excluded := rfl

end Begun

theorem faithful_standing :
    Faithful (P.without X) (D \ E) (Standing (ρ := ρ) (ε := ε) P X D E) where
  doc := by
    rintro d v _ ⟨stands, clear⟩
    exact (faithful_stands.doc stands : Cursor.doc _ = d)
  mem := by
    rintro d v _ ⟨stands, clear⟩
    exact ⟨faithful_stands.mem stands, clear.notMem⟩
  nonneg := by
    rintro d v _ ⟨stands, clear⟩
    exact faithful_stands.nonneg stands
  next := by
    rintro d v _ ⟨stands, clear⟩
    rw [next_begun]
    apply follow_finds (isUpperSet_beyond d) (faithful_stands.next stands)
    intro d' least
    exact clear.abreast.mono (Int32.le_of_lt least.1.2)
  ahead := by
    rintro d v _ t ⟨stands, clear⟩ later
    have finds := faithful_stands.ahead stands later
    cases clear with
    | out empty =>
        rw [seek_begun_none]
        exact alone_finds finds fun d' le =>
          empty_since empty (Int32.le_trans (Int32.le_of_lt later) le)
    | beyond stands' least after =>
        rw [seek_begun_some]
        apply follow_finds (isUpperSet_since t) finds
        intro d' least'
        exact (Clear.beyond stands' least after).abreast.mono
          (Int32.le_trans (Int32.le_of_lt later) least'.1.2)
  held := by
    rintro d v _ t ⟨stands, clear⟩ nonneg back inside
    obtain ⟨required, eq, stood, fewer⟩ := faithful_stands.held stands nonneg back inside
    refine ⟨_, ?_, .intro stood clear, Nat.add_le_add_right fewer _⟩
    cases clear with
    | out empty => rw [seek_begun_none, eq, Outcome.within_done]
    | beyond stands' least after =>
        rw [seek_begun_some, eq, follow_done, if_pos rfl, pass, judge,
          faithful_stands.doc stood, faithful_stands.doc stands', if_pos after, Outcome.bind_done]
        rfl
  lost := by
    rintro d v _ t ⟨stands, clear⟩ nonneg back outside
    obtain ⟨required, eq⟩ := faithful_stands.lost stands nonneg back outside
    cases clear with
    | out empty => exact ⟨_, by rw [seek_begun_none, eq, Outcome.within_done]⟩
    | beyond stands' least after =>
        exact ⟨_, by rw [seek_begun_some, eq, follow_done, if_neg Bool.false_ne_true]⟩
  score := by
    rintro d _ ⟨stands, clear⟩
    obtain ⟨s, n, required, eq, scored, stood, fewer⟩ := faithful_stands.score stands
    refine ⟨s, n, _, ?_, scored, .intro stood clear, Nat.add_le_add_right fewer _⟩
    rw [score_begun, eq]
    rfl
  again := by
    rintro d v _ ⟨stands, clear⟩
    rw [score_begun, faithful_stands.again stands, Outcome.within_done]

section Starting

variable {required : ρ} {excluded excluded' : ε} {found : Bool}

omit [Cursor ρ] [Cursor ε] in
/-- The first move of the excluded side comes first; after that the exclusion has begun. -/
theorem start_ofParts (move : ε → Outcome ε Bool) (eq : move excluded = .done excluded' found) :
    (ofParts required excluded).start move =
      .done (begun (some required) (if found then some excluded' else none)) () := by
  rw [start, ofParts]
  simp only [eq, Outcome.bind_done]

theorem next_ofParts (eq : Cursor.next excluded = .done excluded' found) :
    Cursor.next (ofParts required excluded) =
      Cursor.next (begun (some required) (if found then some excluded' else none)) := by
  show Exclusion.next _ = Exclusion.next _
  rw [Exclusion.next, start_ofParts Cursor.next eq, Exclusion.next, start_begun]

theorem seek_ofParts {t : DocId} (eq : Cursor.seek excluded t = .done excluded' found) :
    Cursor.seek (ofParts required excluded) t =
      Cursor.seek (begun (some required) (if found then some excluded' else none)) t := by
  show Exclusion.seek _ t = Exclusion.seek _ t
  rw [Exclusion.seek, start_ofParts (Cursor.seek · t) eq, Exclusion.seek, start_begun]

end Starting

/-- How many moves are left once the excluded side has been moved. -/
theorem sideMoves_le {excluded excluded' : ε} {found : Bool}
    (fewer : found = true → Cursor.movesLeft excluded' ≤ Cursor.movesLeft excluded) :
    sideMoves (if found then some excluded' else none) ≤ Cursor.movesLeft excluded := by
  cases found with
  | true => exact fewer rfl
  | false => exact Nat.zero_le _

/-- Started by a move to the next document, an exclusion goes to the first one that is not excluded.
-/
theorem next_finds {required : ρ} {excluded : ε} (begins : Begins P required)
    (begins' : Begins X excluded) :
    (Cursor.next (ofParts required excluded)).Finds (P.without X).docs fun d c =>
      Standing P X P.docs X.docs d none c ∧
        Cursor.movesLeft c < Cursor.movesLeft (ofParts required excluded) := by
  obtain ⟨excluded', found, eq, fewer, abreast⟩ :=
    Abreast.of_finds isUpperSet_univ (begins'.next.inside (Set.subset_univ _))
  rw [next_ofParts eq, next_begun, ← Set.inter_univ (P.without X).docs]
  refine (follow_finds isUpperSet_univ (begins.next.inside (Set.subset_univ _))
    fun d _ => abreast d trivial).imp fun d c _ stood => ⟨stood.1, ?_⟩
  exact Nat.lt_of_lt_of_le stood.2 (Nat.add_le_add_left (sideMoves_le fewer) _)

/-- Started by a seek, each side goes through its documents after that seek. -/
theorem seek_finds {required : ρ} {excluded : ε} (begins : Begins P required)
    (begins' : Begins X excluded) (nonneg : 0 ≤ t) :
    (Cursor.seek (ofParts required excluded) t).Finds ((P.without X).docsFrom t) fun d c =>
      Standing P X (P.docsFrom t) (X.docsFrom t) d none c ∧
        Cursor.movesLeft c < Cursor.movesLeft (ofParts required excluded) := by
  obtain ⟨excluded', found, eq, fewer, abreast⟩ :=
    Abreast.of_finds (isUpperSet_since t) ((begins'.seek nonneg).inside (X.later t))
  have finds := (begins.seek nonneg).inside (P.later t)
  rw [seek_ofParts eq, ← Set.inter_eq_left.mpr ((P.without X).later t)]
  cases found with
  | true =>
      rw [if_pos rfl, seek_begun_some]
      refine (follow_finds (isUpperSet_since t) finds fun d least =>
        abreast d least.1.2).imp fun d c _ stood => ⟨stood.1, ?_⟩
      exact Nat.lt_of_lt_of_le stood.2 (Nat.add_le_add_left (fewer rfl) _)
  | false =>
      rw [if_neg Bool.false_ne_true, seek_begun_none]
      have out : ∀ d ∈ since t, X.docsFrom t ∩ since d = ∅ := by
        intro d inside
        cases abreast d inside with
        | out empty => exact empty
      refine (alone_finds (X := X) finds out).imp fun d c _ stood => ⟨stood.1, ?_⟩
      exact Nat.lt_of_lt_of_le stood.2 (Nat.le_add_right _ _)

/-- An exclusion of cursors that keep their promises keeps its own. -/
theorem begins_ofParts {required : ρ} {excluded : ε} (begins : Begins P required)
    (begins' : Begins X excluded) : Begins (P.without X) (ofParts required excluded) where
  next := (next_finds begins begins').imp fun _ _ _ stood =>
    ⟨⟨_, faithful_standing, stood.1⟩, stood.2⟩
  seek := fun nonneg => (seek_finds begins begins' nonneg).imp fun _ _ _ stood =>
    ⟨⟨_, faithful_standing, stood.1⟩, stood.2⟩

/-- An exclusion rests as its required side does. -/
theorem rests_ofParts {required : ρ} {excluded : ε} (rests : Rests P required)
    (begins : Begins X excluded) : Rests (P.without X) (ofParts required excluded) := by
  refine ⟨fun c => ∃ required, c = ofParts required excluded ∧ Rests P required, ?_, required, rfl,
    rests⟩
  constructor
  case starts =>
    rintro _ ⟨required, rfl, rests⟩
    exact begins_ofParts rests.begins begins
  case doc =>
    rintro _ d ⟨required, rfl, rests⟩ reaches
    have there : P.Reaches d := by
      obtain inside | ⟨t, inside⟩ := reaches
      · exact .inl inside.1
      · exact .inr ⟨t, inside.1⟩
    exact (resting_rests.doc rests there : Cursor.doc required = _)
  case score =>
    rintro _ ⟨required, rfl, rests⟩
    exact ⟨_, rfl, resting_rests.score rests⟩

end Exclusion

end Retrieval
