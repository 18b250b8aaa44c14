import Retrieval.Proofs.Exclusion
import Retrieval.Proofs.Faults

/-!
# Exclusions whose sides may fail

After its first move an exclusion has nothing to lose by a failure. The required side may have been
moved and not judged; but then no document has been answered, and the next move leads on from there.
The excluded side has not passed over any document that the required side can still find.

A first move that fails is different: it may have moved the excluded side already, to where it was
to lead, and a later move may lead to documents before that.
-/

namespace Retrieval

open Cursor Outcome

namespace Exclusion

variable {ρ ε : Type} [Cursor ρ] [Cursor ε] {targets hardy : Prop} {D X : Set DocId}
variable {d r t : DocId} {first : Move}
variable {required : ρ} {excluded : Option ε}

/-- No excluded document from `r` on has been passed over. A side that has been given up has none
left. -/
inductive Lookout (X : Set DocId) (r : DocId) : Option ε → Prop
  | out (before : ∀ x ∈ X, x < r) : Lookout X r none
  | watching {excluded : ε} (watches : Watches X r excluded) : Lookout X r (some excluded)

theorem Lookout.mono (h : Lookout X r excluded) (later : r ≤ t) : Lookout X t excluded := by
  cases h with
  | out before => exact .out fun x inside => Int32.lt_of_lt_of_le (before x inside) later
  | watching watches => exact .watching (watches.mono later)

theorem Lookout.watches {excluded : ε} (h : Lookout X d (some excluded)) :
    Watches X d excluded := by
  cases h with
  | watching watches => exact watches

theorem Lookout.notMem (h : Lookout X d (none : Option ε)) : d ∉ X := by
  cases h with
  | out before => exact fun inside => Int32.lt_irrefl (before d inside)

/-- A document that is judged not to be excluded is not excluded. -/
theorem judge_tries {excluded : ε} (watches : Watches X d excluded) (nonneg : 0 ≤ d) :
    (judge excluded d).Tries fun isExcluded excluded' =>
      Lookout X d excluded' ∧ (isExcluded = some false → d ∉ X) := by
  rw [judge]
  by_cases after : d < Cursor.doc excluded
  · rw [if_pos after]
    refine .answered ⟨.watching watches, fun _ inside => ?_⟩
    exact Int32.not_le.mpr after (watches.abreast d inside (Int32.le_refl d))
  rw [if_neg after]
  by_cases before : Cursor.doc excluded < d
  · rw [if_pos before]
    refine (watches.seek nonneg before).bind (fun excluded' sights => ?_)
      fun found excluded' sights => ?_
    · cases sights with
      | failed kept => exact ⟨.watching kept, no_answer⟩
    · cases sights with
      | missed past =>
          have lookout : Lookout X d (none : Option ε) := .out past
          exact .answered ⟨lookout, fun _ => lookout.notMem⟩
      | found kept =>
          refine .answered ⟨.watching kept, fun passed inside => ?_⟩
          have beyond : ¬ Cursor.doc excluded' ≤ d := by simpa using passed
          exact beyond (kept.abreast d inside (Int32.le_refl d))
  · rw [if_neg before]
    exact .answered ⟨.watching watches, fun passed => absurd passed (by simp)⟩

/-- An exclusion past its first move that has got as far as `r`. -/
inductive Past (targets : Prop) (D X : Set DocId) (r : DocId) : Exclusion ρ ε → Prop
  | intro {s : DocId} {required : ρ} {excluded : Option ε} (later : r ≤ s) (nonneg : 0 ≤ s)
      (vouches : Vouches targets D s required) (lookout : Lookout X s excluded) :
      Past targets D X r (begun (some required) excluded)

theorem Past.earlier {c : Exclusion ρ ε} (h : Past targets D X t c) (le : r ≤ t) :
    Past targets D X r c := by
  obtain ⟨later, nonneg, vouches, lookout⟩ := h
  exact .intro (Int32.le_trans le later) nonneg vouches lookout

/-- A document that the required side stands on, and that is not excluded, is right. -/
theorem tells_of_notMem (attests : Attests targets D required)
    (lookout : Lookout X (Cursor.doc required) excluded) (outside : Cursor.doc required ∉ X) :
    Tells (D \ X) (Past targets D X) (Cursor.doc required) (some true)
      (begun (some required) excluded) :=
  .found (.intro (Int32.le_refl _) attests.nonneg attests.vouches lookout)
    ⟨attests.mem, outside⟩ (Int32.le_refl _)

/-- Documents are stepped over until one is judged not to be excluded. The induction is on the
bound; what happens when it is reached does not matter here. -/
theorem pass_tries (bound : Nat) (attests : Attests targets D required)
    (lookout : Lookout X (Cursor.doc required) excluded) :
    (pass bound required excluded).Tries
      (Tells (D \ X) (Past targets D X) (Cursor.doc required)) := by
  induction bound generalizing required excluded with
  | zero =>
      cases excluded with
      | none => exact .answered (tells_of_notMem attests lookout lookout.notMem)
      | some excluded =>
          exact .failed (.failed (.intro (Int32.le_refl _) attests.nonneg attests.vouches lookout))
            trivial
  | succ bound ih =>
      cases excluded with
      | none => exact .answered (tells_of_notMem attests lookout lookout.notMem)
      | some excluded =>
          rw [pass]
          refine (judge_tries lookout.watches attests.nonneg).bind (fun excluded' left => ?_)
            fun isExcluded excluded' left => ?_
          · exact .failed (.intro (Int32.le_refl _) attests.nonneg attests.vouches left.1)
          cases isExcluded with
          | false => exact .answered (tells_of_notMem attests left.1 (left.2 rfl))
          | true =>
              have moved := vouching_vouches.move .next attests.vouches trivial
              rw [if_pos rfl]
              refine moved.bind (fun required' tells => ?_) fun found required' tells => ?_
              · cases tells with
                | failed kept => exact .failed (.intro (Int32.le_refl _) attests.nonneg kept left.1)
              cases tells with
              | missed => exact .answered .missed
              | found kept inside later =>
                  have attests' : Attests targets D required' :=
                    ⟨inside, Int32.le_trans attests.nonneg later, kept⟩
                  rw [if_pos rfl]
                  exact (ih attests' (left.1.mono later)).imp fun _ _ tells =>
                    tells.earlier later fun _ past => past.earlier later

/-- A move of an exclusion that has begun starts with a move of the required side, and then answers
what is right for the document that this has found. -/
theorem make_begun_tries (targets : Prop) (D X : Set DocId) {move : Move}
    {before : Option Bool → ρ → Prop} {post : Option Bool → Exclusion ρ ε → Prop}
    (moved : (move.make required).Tries before)
    (failed : ∀ required', before none required' → post none (begun (some required') excluded))
    (found : ∀ required', before (some true) required' →
      Attests targets D required' ∧ Lookout X (Cursor.doc required') excluded ∧
        ∀ a c, Tells (D \ X) (Past targets D X) (Cursor.doc required') a c → post a c)
    (missed : ∀ c, post (some false) c) :
    (move.make (begun (some required) excluded)).Tries post := by
  have follows : (follow excluded (move.make required)).Tries post := by
    refine moved.bind failed fun answer required' left => ?_
    cases answer with
    | false => exact .answered (missed _)
    | true =>
        obtain ⟨attests, lookout, told⟩ := found required' left
        rw [if_pos rfl]
        exact (pass_tries _ attests lookout).imp told
  cases move with
  | next =>
      rw [Move.make, next_begun]
      exact follows
  | seek t =>
      cases excluded with
      | some excluded =>
          rw [Move.make, seek_begun_some]
          exact follows
      | none =>
          rw [Move.make, seek_begun_none]
          apply moved.within
          intro answer required' left
          obtain _ | _ | _ := answer
          · exact failed required' left
          · exact missed _
          · obtain ⟨attests, lookout, told⟩ := found required' left
            exact told _ _ (tells_of_notMem attests lookout lookout.notMem)

theorem vouching_past : Vouching targets (D \ X) (Past (ρ := ρ) (ε := ε) targets D X) where
  move := by
    rintro r _ move @⟨s, required, excluded, later, nonneg, vouches, lookout⟩ permitted
    have moved := vouching_vouches.move move vouches permitted
    refine make_begun_tries targets D X moved (fun required' tells => ?_)
      (fun required' tells => ?_) fun _ => .missed
    · cases tells with
      | failed kept => exact .failed (.intro later nonneg kept lookout)
    · cases tells with
      | found kept inside further =>
          have attests : Attests targets D required' :=
            ⟨inside, Int32.le_trans nonneg further, kept⟩
          refine ⟨attests, lookout.mono further, fun _ _ tells => ?_⟩
          exact tells.earlier (Int32.le_trans later further) fun _ past =>
            past.earlier (Int32.le_trans later further)

/-- What the first move of the excluded side leaves. -/
theorem lookout_of_posted {move : Move} {excluded : ε} {found : Bool}
    (posted : Posted X move (some found) excluded) (allowed : move.Allows d) :
    Lookout X d (if found then some excluded else none) := by
  cases posted with
  | found watches => exact .watching (watches d allowed)
  | missed none =>
      exact .out fun x inside => Int32.not_le.mp fun later =>
        none x inside (Move.allows_of_le allowed later)

theorem vouches_begun {side : Option ε} (vouches : Vouches targets D 0 required)
    (lookout : Lookout X 0 side) : Vouches targets (D \ X) 0 (begun (some required) side) :=
  ⟨_, vouching_past, .intro (Int32.le_refl 0) (Int32.le_refl 0) vouches lookout⟩

/-- The first move of the required side, when the excluded side has made its own. -/
theorem make_begun_embarked {side : Option ε} (decides : Decides targets hardy D first required)
    (allowed : ∀ d, first.Allows d → Lookout X d side) (still : hardy → Lookout X 0 side)
    (permitted : first.Permitted targets) :
    (first.make (begun (some required) side)).Tries (Embarked targets hardy (D \ X) first) := by
  refine make_begun_tries targets D X (decides.embarks_hardy permitted)
    (fun required' embarked => ?_) (fun required' embarked => ?_) fun _ => .missed
  · cases embarked with
    | failed endured => exact .failed fun sure => vouches_begun (endured sure) (still sure)
  · cases embarked with
    | found attests reached =>
        refine ⟨attests, allowed _ reached, ?_⟩
        intro _ c tells
        cases tells with
        | failed kept => exact .failed fun _ => ⟨_, vouching_past, kept.earlier attests.nonneg⟩
        | found kept inside later =>
            have nonneg : 0 ≤ Cursor.doc c := Int32.le_trans attests.nonneg later
            exact .found ⟨inside, nonneg, _, vouching_past, kept⟩ (Move.allows_of_le reached later)
        | missed => exact .missed

/-- The first move of the excluded side. If it fails, that matters only to a hardy exclusion. -/
theorem start_ofParts_tries {excluded : ε}
    (vouches : hardy → Vouches targets D 0 required) (guards : Guards X excluded)
    (lingers : hardy → first = .next ∧ Lingers X excluded) (admissible : first.Admissible) :
    ((ofParts required excluded).start first.make).Tries fun answer c =>
      (answer = none → hardy → Vouches targets (D \ X) 0 c) ∧
      (answer = some () → ∃ found excluded', Posted X first (some found) excluded' ∧
        c = begun (some required) (if found then some excluded' else none)) := by
  have lingering : (first.make excluded).Tries fun found excluded' =>
      found = none → hardy → Watches X 0 excluded' := by
    by_cases sure : hardy
    · obtain ⟨rfl, lingers'⟩ := lingers sure
      exact Leaves.imp lingers' fun _ _ left failed _ => left failed
    · exact tries_of_state fun _ _ some => absurd some sure
  rw [start, ofParts]
  apply ((guards first admissible).and lingering).tries.bind
  · refine fun excluded' left => ⟨fun _ sure => ?_, no_answer⟩
    exact vouches_begun (vouches sure) (.watching (left.2 rfl sure))
  · intro found excluded' left
    exact .answered ⟨fun failed => absurd failed (Option.some_ne_none _),
      fun _ => ⟨_, _, left.1, rfl⟩⟩

/-- An exclusion of cursors that can be started. A first move to the next document may fail, if the
required side can stand that. -/
theorem embarks_ofParts {excluded : ε} (decides : Decides targets hardy D first required)
    (guards : Guards X excluded) (lingers : hardy → first = .next ∧ Lingers X excluded)
    (permitted : first.Permitted targets) :
    Embarks targets hardy (D \ X) first (ofParts required excluded) := by
  have starts := start_ofParts_tries decides.vouches guards lingers permitted.admissible
  have begins : ∀ {found : Bool} {excluded' : ε}, Posted X first (some found) excluded' →
      (first.make (begun (some required) (if found then some excluded' else none))).Tries
        (Embarked targets hardy (D \ X) first) := fun posted =>
    make_begun_embarked decides (fun _ => lookout_of_posted posted)
      (fun sure => lookout_of_posted posted (by rw [(lingers sure).1]; trivial)) permitted
  cases first with
  | next =>
      show (Exclusion.next _).Tries _
      rw [Exclusion.next]
      refine starts.bind (fun _ left => .failed (left.1 rfl)) fun _ c left => ?_
      obtain ⟨found, excluded', posted, rfl⟩ := left.2 rfl
      have onward := begins posted
      rwa [Move.make, next_begun] at onward
  | seek t =>
      show (Exclusion.seek _ t).Tries _
      rw [Exclusion.seek]
      refine starts.bind (fun _ left => .failed (left.1 rfl)) fun _ c left => ?_
      obtain ⟨found, excluded', posted, rfl⟩ := left.2 rfl
      have onward := begins posted
      cases found with
      | true =>
          rw [if_pos rfl, Move.make, seek_begun_some] at onward
          exact onward
      | false =>
          rw [if_neg Bool.false_ne_true, Move.make, seek_begun_none] at onward
          exact onward

end Exclusion

end Retrieval
