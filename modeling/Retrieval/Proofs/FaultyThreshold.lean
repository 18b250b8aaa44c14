import Retrieval.Proofs.Faults
import Retrieval.Proofs.Threshold

/-!
# Any of several cursors that may fail

A threshold that one alternative is enough for takes the first document of its queue, so what it
finds is in one of the alternatives, whatever has failed. Nor does it pass over a document from
where it has been sent to on: an alternative that fails to move stays in the queue where it is, and
one leaves the queue only when it has run out.

Once the alternatives have been gathered, both follow from one account of the queue, which every
call keeps, whether it fails or not.
-/

namespace Retrieval

namespace Threshold

open Cursor CursorQueue Outcome

variable {σ : Type} [Cursor σ] {seeks : Prop} {X : Set DocId} {r t current : DocId}
variable {q q' : CursorQueue σ} {n : Nat}

/-- The entries of a queue, each with the documents of its cursor, which are in `X`. None stands
before the document `current`, and from `r` on no document of `X` after `current` is behind all of
the cursors that have it. -/
structure Stocked (seeks : Prop) (X : Set DocId) (r current : DocId) (q : CursorQueue σ)
    (rows : List (Set DocId × Entry σ)) : Prop where
  holds : Holds q (rows.map Prod.snd)
  tracks : ∀ x ∈ rows, Tracks seeks x.1 x.2.cursor
  place : ∀ x ∈ rows, Cursor.doc x.2.cursor = x.2.doc
  mem : ∀ x ∈ rows, x.2.doc ∈ x.1
  sub : ∀ x ∈ rows, x.1 ⊆ X
  reached : ∀ x ∈ rows, current ≤ x.2.doc
  ahead : ∀ y ∈ X, r ≤ y → current < y → ∃ x ∈ rows, y ∈ x.1 ∧ x.2.doc ≤ y

/-- A queue of `n` such cursors. -/
def Stock (seeks : Prop) (X : Set DocId) (r current : DocId) (q : CursorQueue σ) (n : Nat) : Prop :=
  ∃ rows, Stocked seeks X r current q rows ∧ rows.length = n

variable {x : Set DocId × Entry σ} {e : Entry σ} {rows others : List (Set DocId × Entry σ)}

/-- The entry in front has changed, but not been moved past any of its documents that matter. -/
theorem Stocked.replace (h : Stocked seeks X r current q rows) (perm : rows.Perm (x :: others))
    (holds : Holds q' (e :: others.map Prod.snd)) (tracks : Tracks seeks x.1 e.cursor)
    (place : Cursor.doc e.cursor = e.doc) (mem : e.doc ∈ x.1) (later : x.2.doc ≤ e.doc)
    (ahead : ∀ y ∈ x.1, r ≤ y → current < y → x.2.doc ≤ y → e.doc ≤ y) :
    Stocked seeks X r current q' ((x.1, e) :: others) := by
  have front : x ∈ rows := perm.mem_iff.mpr List.mem_cons_self
  have rest : ∀ y ∈ others, y ∈ rows := fun y inside =>
    perm.mem_iff.mpr (List.mem_cons_of_mem x inside)
  refine ⟨holds, ?_, ?_, ?_, ?_, ?_, fun y inside notBefore after => ?_⟩
  · exact List.forall_mem_cons.mpr ⟨tracks, fun y there => h.tracks y (rest y there)⟩
  · exact List.forall_mem_cons.mpr ⟨place, fun y there => h.place y (rest y there)⟩
  · exact List.forall_mem_cons.mpr ⟨mem, fun y there => h.mem y (rest y there)⟩
  · exact List.forall_mem_cons.mpr ⟨h.sub x front, fun y there => h.sub y (rest y there)⟩
  · exact List.forall_mem_cons.mpr
      ⟨Int32.le_trans (h.reached x front) later, fun y there => h.reached y (rest y there)⟩
  · obtain ⟨z, there, has, behind⟩ := h.ahead y inside notBefore after
    obtain rfl | there := List.mem_cons.mp (perm.mem_iff.mp there)
    · exact ⟨_, List.mem_cons_self, has, ahead y has notBefore after behind⟩
    · exact ⟨z, List.mem_cons_of_mem _ there, has, behind⟩

/-- The entry in front has been dropped, for none of its documents that matter is left. -/
theorem Stocked.drop (h : Stocked seeks X r current q rows) (perm : rows.Perm (x :: others))
    (holds : Holds q' (others.map Prod.snd))
    (none : ∀ y ∈ x.1, r ≤ y → current < y → ¬ x.2.doc ≤ y) :
    Stocked seeks X r current q' others := by
  have rest : ∀ y ∈ others, y ∈ rows := fun y inside =>
    perm.mem_iff.mpr (List.mem_cons_of_mem x inside)
  refine ⟨holds, fun y there => h.tracks y (rest y there), fun y there => h.place y (rest y there),
    fun y there => h.mem y (rest y there), fun y there => h.sub y (rest y there),
    fun y there => h.reached y (rest y there), fun y inside notBefore after => ?_⟩
  obtain ⟨z, there, has, behind⟩ := h.ahead y inside notBefore after
  obtain rfl | there := List.mem_cons.mp (perm.mem_iff.mp there)
  · exact absurd behind (none y has notBefore after)
  · exact ⟨z, there, has, behind⟩

theorem Stock.mono (h : Stock seeks X r current q n) (later : r ≤ t) :
    Stock seeks X t current q n := by
  obtain ⟨rows, stocked, size⟩ := h
  exact ⟨rows, { stocked with
    ahead := fun y inside notBefore => stocked.ahead y inside (Int32.le_trans later notBefore) },
    size⟩

/-- A queue that holds cursors has one in front. -/
theorem Stock.front (h : Stock seeks X r current q n) (nonempty : n ≠ 0) :
    ∃ rows x others, Stocked seeks X r current q rows ∧ rows.length = n ∧
      rows.Perm (x :: others) ∧ Fronts q x.2 (others.map Prod.snd) ∧
      ∀ y ∈ rows, q.topDoc ≤ y.2.doc := by
  obtain ⟨rows, stocked, rfl⟩ := h
  obtain ⟨x, others, perm, fronts, first⟩ :=
    exists_front stocked.holds fun none => nonempty (List.length_eq_zero_iff.mpr none)
  exact ⟨rows, x, others, stocked, rfl, perm, fronts, fronts.topDoc_eq ▸ first⟩

/-- The first document of the queue is the first one in `X` that matters, and from there on the
queue is in order as well. -/
theorem Stock.topDoc (h : Stock seeks X r current q n) (nonempty : n ≠ 0) :
    q.topDoc ∈ X ∧ current ≤ q.topDoc ∧ (∀ y ∈ X, r ≤ y → current < y → q.topDoc ≤ y) ∧
      Stock seeks X r q.topDoc q n := by
  obtain ⟨rows, x, others, stocked, size, perm, fronts, first⟩ := h.front nonempty
  have front : x ∈ rows := perm.mem_iff.mpr List.mem_cons_self
  have reached : current ≤ q.topDoc := fronts.topDoc_eq ▸ stocked.reached x front
  refine ⟨fronts.topDoc_eq ▸ stocked.sub x front (stocked.mem x front), reached, ?_, rows, ?_, size⟩
  · intro y inside notBefore after
    obtain ⟨z, there, -, behind⟩ := stocked.ahead y inside notBefore after
    exact Int32.le_trans (first z there) behind
  · exact { stocked with
      reached := first
      ahead := fun y inside notBefore after =>
        stocked.ahead y inside notBefore (Int32.lt_of_le_of_lt reached after) }

/-- With no cursors left in the queue, there are no documents left that matter. -/
theorem Stock.none (h : Stock seeks X r current q 0) : ∀ y ∈ X, r ≤ y → ¬ current < y := by
  obtain ⟨rows, stocked, size⟩ := h
  obtain rfl := List.length_eq_zero_iff.mp size
  intro y inside notBefore after
  obtain ⟨x, there, -⟩ := stocked.ahead y inside notBefore after
  exact List.not_mem_nil there

/-- A move of the cursor in front, over a window in which all its documents that matter lie. -/
theorem Stock.moveTop (h : Stock seeks X r current q n) (nonempty : n ≠ 0) (move : Move)
    (admissible : move.Admissible)
    (window : ∀ y, r ≤ y → current < y → q.topDoc ≤ y → y ∈ move.window q.topDoc) :
    (q.moveTop move.make).Tries fun found q' =>
      Stock seeks X r current q' (if found = some false then n - 1 else n) := by
  obtain ⟨rows, x, others, stocked, rfl, perm, fronts, -⟩ := h.front nonempty
  have front : x ∈ rows := perm.mem_iff.mpr List.mem_cons_self
  have size : others.length + 1 = rows.length := perm.length_eq.symm
  have moves := (stocked.tracks x front).move move admissible
  rw [fronts.topDoc_eq] at window
  rw [stocked.place x front] at moves
  rw [CursorQueue.moveTop, fronts.top?_eq]
  refine moves.tries.bind (fun cursor takes => ?_) fun found cursor takes => .answered ?_
  · cases takes with
    | failed tracks stays =>
        exact ⟨_, stocked.replace perm (fronts.withTop cursor).holds tracks stays
          (stocked.mem x front) (Int32.le_refl _) fun _ _ _ _ behind => behind, size⟩
  · cases takes with
    | found tracks least =>
        refine ⟨_, stocked.replace perm (fronts.withTop cursor).settleTop tracks rfl least.1.1
          (move.window_subset _ least.1.2) fun y has notBefore after behind => ?_, size⟩
        exact least.2 ⟨has, window y notBefore after behind⟩
    | missed empty =>
        refine ⟨_, stocked.drop perm (fronts.withTop cursor).dropTop ?_, by
          rw [if_pos rfl, ← size]; rfl⟩
        intro y has notBefore after behind
        exact Set.eq_empty_iff_forall_notMem.mp empty y ⟨has, window y notBefore after behind⟩

/-- Scoring the cursor in front leaves the queue as it is. -/
theorem Stock.topScore (h : Stock seeks X r current q n) (nonempty : n ≠ 0) :
    q.topScore.Tries fun _ q' => Stock seeks X r current q' n ∧ q'.topDoc = q.topDoc := by
  obtain ⟨rows, x, others, stocked, rfl, perm, fronts, -⟩ := h.front nonempty
  have front : x ∈ rows := perm.mem_iff.mpr List.mem_cons_self
  rw [CursorQueue.topScore, fronts.top?_eq]
  refine (stocked.tracks x front).score.within fun _ cursor left => ⟨⟨_, stocked.replace perm
    (fronts.withTop cursor).holds left.1 (left.2.trans (stocked.place x front))
    (stocked.mem x front) (Int32.le_refl _) fun _ _ _ _ behind => behind, perm.length_eq.symm⟩, ?_⟩
  rw [(fronts.withTop cursor).topDoc_eq, fronts.topDoc_eq]

namespace Front

variable {f : Front σ} {move : Move}

/-- The front has in its queue all the cursors that it takes to have documents left. -/
def Alive (seeks : Prop) (X : Set DocId) (r : DocId) (f : Front σ) : Prop :=
  Stock seeks X r f.current f.queue f.live

/-- From the document `d` the front has got on without passing over a document of `X` from `r` on.
-/
structure Onward (seeks : Prop) (X : Set DocId) (r d : DocId) (f : Front σ) : Prop where
  alive : f.Alive seeks X r
  later : d ≤ f.current
  place : f.current = d ∨ f.current ∈ X
  first : ∀ y ∈ X, r ≤ y → d < y → f.current ≤ y

/-- What a move leaves of a front that stood on the document `d`. -/
inductive Reaches (seeks : Prop) (X : Set DocId) (r : DocId) (move : Move) (d : DocId) :
    Option Bool → Front σ → Prop
  | failed {f : Front σ} (onward : f.Onward seeks X r d) : Reaches seeks X r move d none f
  | found {f : Front σ} (onward : f.Onward seeks X r d) (mem : f.current ∈ X)
      (allowed : move.Allows f.current) : Reaches seeks X r move d (some true) f
  | missed {f : Front σ} (none : ∀ y ∈ X, r ≤ y → ¬ d < y) :
      Reaches seeks X r move d (some false) f

theorem Alive.stays (h : f.Alive seeks X r) : f.Onward seeks X r f.current :=
  ⟨h, Int32.le_refl _, .inl rfl, fun _ _ _ => Int32.le_of_lt⟩

theorem Alive.none (h : f.Alive seeks X r) (out : f.live = 0) :
    ∀ y ∈ X, r ≤ y → ¬ f.current < y := by
  rw [Alive, out] at h
  exact h.none

/-- Moving alternatives past the candidate. -/
theorem Alive.absorb (bound : Nat) (h : f.Alive seeks X r) (nonempty : f.live ≠ 0)
    (on : f.queue.topDoc = f.current) : (f.absorb bound).Tries fun _ f' =>
      f'.Alive seeks X r ∧ f'.current = f.current ∧ f.matched ≤ f'.matched := by
  induction bound generalizing f with
  | zero => exact .failed ⟨h, rfl, Nat.le_refl _⟩ trivial
  | succ bound ih =>
      have moves := h.moveTop nonempty .next trivial fun y _ after _ =>
        show f.queue.topDoc < y from on ▸ after
      -- What is done once the alternative in front has been moved or dropped.
      have onward : ∀ g : Front σ, g.Alive seeks X r → g.live ≠ 0 → g.current = f.current →
          f.matched = g.matched →
          (if g.queue.topDoc ≠ g.current then .done g () else
            g.queue.topScore.bind g.withQueue fun score queue => absorb bound
              { g with queue, total := g.total + score, matched := g.matched + 1 } :
            Outcome (Front σ) Unit).Tries fun _ f' =>
              f'.Alive seeks X r ∧ f'.current = f.current ∧ f.matched ≤ f'.matched := by
        intro g alive some same counted
        split
        · exact .answered ⟨alive, same, Nat.le_of_eq counted⟩
        · next on' =>
          refine (alive.topScore some).bind (fun queue left => ?_) fun score queue left => ?_
          · exact ⟨left.1, same, Nat.le_of_eq counted⟩
          · refine (@ih { g with queue, total := g.total + score, matched := g.matched + 1 }
              left.1 some (left.2.trans (not_not.mp on'))).imp fun _ f' left' => ?_
            refine ⟨left'.1, left'.2.1.trans same, Nat.le_trans ?_ left'.2.2⟩
            exact counted ▸ Nat.le_succ _
      rw [Front.absorb]
      refine moves.bind (fun queue stock => ⟨stock, rfl, Nat.le_refl _⟩) fun found queue stock => ?_
      cases found with
      | true => exact onward (f.withQueue queue) stock nonempty rfl rfl
      | false =>
          have lost : (f.withQueue queue).lose.Alive seeks X r := stock
          simp only [Bool.false_eq_true, if_false, Bool.not_false, Bool.true_and]
          split
          · exact .answered ⟨lost, rfl, Nat.le_refl _⟩
          · next left => exact onward _ lost (by simpa using left) rfl rfl

/-- One alternative is enough, so the first document of the queue is found. -/
theorem Alive.advance (h : f.Alive seeks X r) (nonempty : f.live ≠ 0)
    (allowed : move.Allows f.queue.topDoc) :
    (f.advance 1).Tries (Reaches seeks X r move f.current) := by
  obtain ⟨mem, later, first, stock⟩ := h.topDoc nonempty
  have onward : ∀ {f' : Front σ}, f'.Alive seeks X r → f'.current = f.queue.topDoc →
      f'.Onward seeks X r f.current :=
    fun alive same => ⟨alive, same ▸ later, .inr (same ▸ mem), same ▸ first⟩
  have proposed : f.propose.Tries fun answer f' => f'.Alive seeks X r ∧ f'.live = f.live ∧
      f'.current = f.queue.topDoc ∧ f'.queue.topDoc = f.queue.topDoc ∧
        f'.matched = if answer = some () then 1 else f.matched := by
    rw [propose]
    refine (stock.topScore nonempty).bind (fun queue left => ?_) fun score queue left => ?_
    · exact ⟨left.1, rfl, rfl, left.2, rfl⟩
    · exact .answered ⟨left.1, rfl, rfl, left.2, rfl⟩
  rw [Front.advance, search]
  refine proposed.bind (fun f' left => .failed (onward left.1 left.2.2.1)) fun _ f' left => ?_
  obtain ⟨alive, live, current, same, one⟩ := left
  refine (alive.absorb _ (live ▸ nonempty) (same.trans current.symm)).bind (fun f'' left => ?_)
    fun _ f'' left => ?_
  · exact .failed (onward left.1 (left.2.1.trans current))
  · have enough : 1 ≤ f''.matched := (one.trans (if_pos rfl)) ▸ left.2.2
    have place : f''.current = f.queue.topDoc := left.2.1.trans current
    rw [if_pos enough]
    exact .answered (.found (onward left.1 place) (place ▸ mem) (place ▸ allowed))

/-- Sending the alternatives to a target before searching. -/
theorem Alive.catchUp (bound : Nat) (h : f.Alive seeks X r) (nonempty : f.live ≠ 0) (le : t ≤ r)
    (nonneg : 0 ≤ t) :
    (f.catchUp 1 t bound).Tries (Reaches seeks X r (.seek t) f.current) := by
  induction bound generalizing f with
  | zero => exact .failed (.failed h.stays) trivial
  | succ bound ih =>
      rw [Front.catchUp]
      split
      · next reached => exact h.advance nonempty reached
      · next behind =>
        have moves := h.moveTop nonempty (.seek t) nonneg fun y notBefore _ later =>
          ⟨later, Int32.le_trans le notBefore⟩
        refine moves.bind (fun queue stock => ?_) fun found queue stock => ?_
        · have alive : (f.withQueue queue).Alive seeks X r := stock
          exact .failed alive.stays
        cases found with
        | true =>
            have alive : (f.withQueue queue).Alive seeks X r := stock
            exact ih alive nonempty
        | false =>
            have lost : (f.withQueue queue).lose.Alive seeks X r := stock
            dsimp only
            rw [if_neg Bool.false_ne_true]
            split
            · next few => exact .answered (.missed (lost.none (by simpa using few)))
            · next left => exact ih lost (by simpa using left)

end Front

variable {f : Front σ} {arity : Nat}

/-- A threshold that one alternative is enough for, with its alternatives gathered. -/
def ofFront (arity : Nat) (f : Front σ) : Threshold σ := { needed := 1, arity, stage := .running f }

theorem start_ofFront (arity : Nat) (f : Front σ) :
    (ofFront arity f).start = .done (ofFront arity f) f := rfl

/-- A move to the next document, or to a target that lies ahead, but not beyond `r`. -/
theorem move_ofFront (arity : Nat) (h : f.Alive seeks X r) (move : Move)
    (admissible : move.Admissible)
    (ahead : ∀ t, move = .seek t → f.current < t ∧ t ≤ r) :
    (move.make (ofFront arity f)).Tries fun found T => ∃ f', T = ofFront arity f' ∧
      Front.Reaches seeks X r move f.current found f' := by
  cases move with
  | next =>
      show (Threshold.next (ofFront arity f)).Tries _
      rw [Threshold.next, start_ofFront, andThen_done]
      split
      · next few => exact .answered ⟨f, rfl, .missed (h.none (Nat.lt_one_iff.mp few))⟩
      · next many =>
        have nonempty : f.live ≠ 0 := fun out => many (Nat.lt_one_iff.mpr out)
        have advances : (f.advance 1).Tries (Front.Reaches seeks X r .next f.current) :=
          h.advance nonempty trivial
        exact advances.within fun _ f' reaches => ⟨f', rfl, reaches⟩
  | seek t =>
      obtain ⟨behind, le⟩ := ahead t rfl
      show (Threshold.seek (ofFront arity f) t).Tries _
      rw [Threshold.seek, start_ofFront, andThen_done]
      split
      · next few => exact .answered ⟨f, rfl, .missed (h.none (Nat.lt_one_iff.mp few))⟩
      · next many =>
        have nonempty : f.live ≠ 0 := fun out => many (Nat.lt_one_iff.mpr out)
        rw [if_neg (Int32.not_le.mpr behind)]
        exact (h.catchUp _ nonempty le admissible).within fun _ f' reaches => ⟨f', rfl, reaches⟩

/-- Sent to where it stands or back, the threshold stays, whatever it answers. -/
theorem seek_ofFront_of_le (arity : Nat) (back : t ≤ f.current) :
    ∃ found, Cursor.seek (ofFront arity f) t = .done (ofFront arity f) found := by
  show ∃ found, Threshold.seek (ofFront arity f) t = _
  rw [Threshold.seek, start_ofFront, andThen_done, if_pos back]
  split
  · exact ⟨false, rfl⟩
  · exact ⟨true, rfl⟩

/-- It passes over none of the documents of the alternatives. -/
theorem watches_ofFront (h : f.Alive seeks X r) (abreast : ∀ y ∈ X, r ≤ y → f.current ≤ y) :
    Watches X r (ofFront arity f) := by
  refine ⟨fun r T => ∃ f, T = ofFront arity f ∧ f.Alive seeks X r ∧
    ∀ y ∈ X, r ≤ y → f.current ≤ y, ⟨?_, ?_⟩, r, Int32.le_refl r, f, rfl, h, abreast⟩
  · rintro r _ ⟨f, rfl, -, abreast⟩
    exact abreast
  · rintro r _ d ⟨f, rfl, h, -⟩ later nonneg behind
    have moves := move_ofFront arity (Stock.mono h later) (.seek d) nonneg (by
      rintro _ ⟨rfl⟩
      exact ⟨behind, Int32.le_refl _⟩)
    have after : ∀ {y}, d ≤ y → f.current < y := fun notBefore =>
      Int32.lt_of_lt_of_le behind notBefore
    refine moves.imp ?_
    rintro found _ ⟨f', rfl, reaches⟩
    cases reaches with
    | failed onward =>
        exact .failed ⟨f', rfl, onward.alive, fun y inside notBefore =>
          onward.first y inside notBefore (after notBefore)⟩
    | found onward =>
        exact .found ⟨f', rfl, onward.alive, fun y inside notBefore =>
          onward.first y inside notBefore (after notBefore)⟩
    | missed none =>
        exact .missed fun y inside => Int32.not_le.mp fun notBefore =>
          none y inside notBefore (after notBefore)

def anyOf (Ds : List (Set DocId)) : Set DocId := {d | ∃ D ∈ Ds, d ∈ D}

theorem anyOf_cons (D : Set DocId) (Ds : List (Set DocId)) :
    X ∪ anyOf (D :: Ds) = X ∪ D ∪ anyOf Ds := by
  ext d
  simp [anyOf, or_assoc]

variable {D : Set DocId} {Ds : List (Set DocId)} {c : σ} {cs : List σ}

/-- A cursor that has been moved to its first document is put into the queue. -/
theorem Stocked.push (h : Stocked seeks X r .beforeFirst q rows) (tracks : Tracks seeks D c)
    (least : IsLeast D (Cursor.doc c)) :
    Stocked seeks (X ∪ D) r .beforeFirst (q.push ⟨c, Cursor.doc c⟩)
      ((D, ⟨c, Cursor.doc c⟩) :: rows) where
  holds := h.holds.push _
  tracks := List.forall_mem_cons.mpr ⟨tracks, h.tracks⟩
  place := List.forall_mem_cons.mpr ⟨rfl, h.place⟩
  mem := List.forall_mem_cons.mpr ⟨least.1, h.mem⟩
  sub := List.forall_mem_cons.mpr
    ⟨Set.subset_union_right, fun x there => (h.sub x there).trans Set.subset_union_left⟩
  reached := List.forall_mem_cons.mpr
    ⟨Int32.le_of_lt (DocId.beforeFirst_lt (tracks.nonneg _ least.1)), h.reached⟩
  ahead := by
    rintro y (inside | inside) notBefore after
    · obtain ⟨x, there, has, behind⟩ := h.ahead y inside notBefore after
      exact ⟨x, List.mem_cons_of_mem _ there, has, behind⟩
    · exact ⟨_, List.mem_cons_self, inside, least.2 inside⟩

theorem Stock.insert (h : Stock seeks X r .beforeFirst q n) (ready : Ready seeks D c) :
    (q.insert c).Tries fun found q' => ∀ inserted, found = some inserted →
      Stock seeks (X ∪ D) r .beforeFirst q' (if inserted then n + 1 else n) := by
  obtain ⟨tracks, fresh⟩ := ready
  have moves := tracks.move .next trivial
  rw [fresh] at moves
  rw [CursorQueue.insert, if_pos fresh]
  split
  · exact .failed (fun _ => no_answer) trivial
  refine moves.tries.bind (fun _ _ _ => no_answer) fun found c' takes => .answered ?_
  rintro inserted ⟨rfl⟩
  obtain ⟨rows, stocked, rfl⟩ := h
  cases takes with
  | found tracks' least =>
      rw [Move.window, inter_beyond_beforeFirst tracks.nonneg] at least
      exact ⟨_, stocked.push tracks' least, rfl⟩
  | missed empty =>
      rw [Move.window, inter_beyond_beforeFirst tracks.nonneg] at empty
      rw [empty, Set.union_empty]
      exact ⟨rows, stocked, rfl⟩

/-- Gathering puts all alternatives into the queue but those that have no documents. -/
theorem gather_stock
    (all : List.Forall₂ (Ready seeks) Ds cs)
    (h : Stock seeks X r .beforeFirst q n) : (gather q n cs).Tries fun answer gathered =>
      answer = some () → Stock seeks (X ∪ anyOf Ds) r .beforeFirst gathered.1 gathered.2 := by
  induction all generalizing X q n with
  | nil =>
      refine .answered fun _ => ?_
      have none : anyOf [] = ∅ := by simp [anyOf]
      rwa [none, Set.union_empty]
  | cons first _ ih =>
      rw [gather]
      refine (h.insert first).bind (fun _ _ => no_answer) fun inserted queue stock => ?_
      rw [anyOf_cons]
      exact ih (stock inserted rfl)

def unstarted (arity : Nat) (cs : List σ) : Threshold σ :=
  { needed := 1, arity, stage := .waiting cs }

theorem start_unstarted (arity : Nat) (all : List.Forall₂ (Ready seeks) Ds cs) :
    (unstarted arity cs).start.Tries fun front T => (front = none → T = unstarted arity []) ∧
      ∀ f, front = some f →
        T = ofFront arity f ∧ f.current = .beforeFirst ∧ f.Alive seeks (anyOf Ds) r := by
  have empty : Stock seeks ∅ r .beforeFirst (.empty arity : CursorQueue σ) 0 :=
    ⟨[], ⟨holds_empty _, List.forall_mem_nil _, List.forall_mem_nil _, List.forall_mem_nil _,
      List.forall_mem_nil _, List.forall_mem_nil _, fun _ => False.elim⟩, rfl⟩
  have gathers := gather_stock all empty
  rw [Set.empty_union] at gathers
  rw [start, unstarted]
  refine gathers.bind (fun _ _ => ⟨fun _ => rfl, fun _ => no_answer⟩)
    fun _ gathered stock => .answered ⟨fun failed => absurd failed (Option.some_ne_none _), ?_⟩
  rintro f ⟨rfl⟩
  exact ⟨rfl, rfl, stock rfl⟩

/-- What the first move leaves. If gathering the alternatives fails, none of them is left. -/
inductive Outset (seeks : Prop) (X : Set DocId) (r : DocId) (move : Move) (arity : Nat) :
    Option Bool → Threshold σ → Prop
  | lost : Outset seeks X r move arity none (unstarted arity [])
  | gathered {found : Option Bool} {f : Front σ}
      (reaches : Front.Reaches seeks X r move .beforeFirst found f) :
      Outset seeks X r move arity found (ofFront arity f)

theorem first_unstarted (arity : Nat) (all : List.Forall₂ (Ready seeks) Ds cs) (move : Move)
    (admissible : move.Admissible) (within : ∀ t, move = .seek t → t ≤ r) :
    (move.make (unstarted arity cs)).Tries (Outset seeks (anyOf Ds) r move arity) := by
  have moves : ∀ f : Front σ, f.current = .beforeFirst → f.Alive seeks (anyOf Ds) r →
      (move.make (ofFront arity f)).Tries (Outset seeks (anyOf Ds) r move arity) := by
    intro f before alive
    have moved := move_ofFront arity alive move admissible (by
      rintro t rfl
      exact ⟨before ▸ DocId.beforeFirst_lt admissible, within t rfl⟩)
    rw [before] at moved
    refine moved.imp ?_
    rintro found _ ⟨f', rfl, reaches⟩
    exact .gathered reaches
  have starts := start_unstarted (r := r) arity all
  cases move with
  | next =>
      show (Threshold.next (unstarted arity cs)).Tries _
      rw [Threshold.next]
      refine starts.bind (fun T left => left.1 rfl ▸ .lost) fun f _ started => ?_
      obtain ⟨rfl, before, alive⟩ := started.2 f rfl
      have moved := moves f before alive
      change (Threshold.next (ofFront arity f)).Tries _ at moved
      rwa [Threshold.next, start_ofFront, andThen_done] at moved
  | seek t =>
      show (Threshold.seek (unstarted arity cs) t).Tries _
      rw [Threshold.seek]
      refine starts.bind (fun T left => left.1 rfl ▸ .lost) fun f _ started => ?_
      obtain ⟨rfl, before, alive⟩ := started.2 f rfl
      have moved := moves f before alive
      change (Threshold.seek (ofFront arity f) t).Tries _ at moved
      rwa [Threshold.seek, start_ofFront, andThen_done] at moved

/-- There is a document from which on a move looks for documents. -/
theorem exists_from (move : Move) :
    ∃ r, (∀ t, move = .seek t → t ≤ r) ∧ ∀ d, move.Allows d → r ≤ d := by
  cases move with
  | next => exact ⟨Int32.minValue, by simp, fun d _ => Int32.minValue_le d⟩
  | seek t =>
      refine ⟨t, ?_, fun _ => id⟩
      rintro _ ⟨rfl⟩
      exact Int32.le_refl t

theorem nonneg_anyOf (all : List.Forall₂ (Ready seeks) Ds cs) : ∀ y ∈ anyOf Ds, 0 ≤ y := by
  have nonneg : ∀ D ∈ Ds, ∀ y ∈ D, 0 ≤ y := by
    induction all with
    | nil => exact List.forall_mem_nil _
    | cons first _ ih => exact List.forall_mem_cons.mpr ⟨first.tracks.nonneg, ih⟩
  rintro y ⟨D, inside, has⟩
  exact nonneg D inside y has

/-- A threshold over some alternatives with documents of `X` that has got as far as `d`, be it
before its first document. -/
inductive Gone (arity : Nat) (seeks : Prop) (X : Set DocId) (d : DocId) : Threshold σ → Prop
  | waiting {Ds : List (Set DocId)} {cs : List σ} (all : List.Forall₂ (Ready seeks) Ds cs)
      (sub : anyOf Ds ⊆ X) (unmoved : d ≤ 0) : Gone arity seeks X d (unstarted arity cs)
  | running {Y : Set DocId} {f : Front σ} {r : DocId} (alive : f.Alive seeks Y r) (sub : Y ⊆ X)
      (place : f.current = .beforeFirst ∨ f.current ∈ Y)
      (reached : ∀ y ∈ Y, f.current ≤ y → d ≤ y) : Gone arity seeks X d (ofFront arity f)

theorem Front.Reaches.tells {Y : Set DocId} {move : Move} {found : Option Bool} (arity : Nat)
    (reaches : Front.Reaches seeks Y r move current found f) (sub : Y ⊆ X)
    (place : current = .beforeFirst ∨ current ∈ Y) (reached : ∀ y ∈ Y, current ≤ y → t ≤ y) :
    Tells X (Gone arity seeks X) t found (ofFront arity f) := by
  cases reaches with
  | failed onward =>
      have place' := onward.place.elim (fun same => same ▸ place) .inr
      refine .failed (.running onward.alive sub place' fun y inside le => ?_)
      exact reached y inside (Int32.le_trans onward.later le)
  | found onward mem =>
      exact .found (.running onward.alive sub (.inr mem) fun _ _ le => le) (sub mem)
        (reached _ mem onward.later)
  | missed => exact .missed

/-- What is found is in one of the alternatives. -/
theorem vouching_gone {targets : Prop} (arity : Nat) :
    Vouching targets X (Gone (σ := σ) arity seeks X) where
  move := by
    rintro d _ move (⟨all, sub, unmoved⟩ | @⟨Y, f, r, alive, sub, place, reached⟩) permitted
    · obtain ⟨r, within, -⟩ := exists_from move
      refine (first_unstarted arity all move permitted.admissible within).imp ?_
      rintro found _ (_ | reaches)
      · exact .failed (.waiting .nil (fun y ⟨D, inside, _⟩ => nomatch inside) unmoved)
      · exact reaches.tells arity sub (.inl rfl) fun y inside _ =>
          Int32.le_trans unmoved (nonneg_anyOf all y inside)
    have tells : ∀ {r found} {T : Threshold σ}, (∃ f', T = ofFront arity f' ∧
        Front.Reaches seeks Y r move f.current found f') →
        Tells X (Gone arity seeks X) d found T := by
      rintro r found _ ⟨f', rfl, reaches⟩
      exact reaches.tells arity sub place reached
    cases move with
    | next => exact (move_ofFront arity alive .next trivial (by simp)).imp fun _ _ => tells
    | seek t =>
        have nonneg : 0 ≤ t := permitted.admissible
        obtain ahead | back := Int32.lt_or_le f.current t
        · obtain later | before := Int32.le_total r t
          · exact (move_ofFront arity (Stock.mono alive later) (.seek t) nonneg (by
              rintro _ ⟨rfl⟩
              exact ⟨ahead, Int32.le_refl _⟩)).imp fun _ _ => tells
          · exact (move_ofFront arity alive (.seek t) nonneg (by
              rintro _ ⟨rfl⟩
              exact ⟨ahead, before⟩)).imp fun _ _ => tells
        · have on : f.current ∈ Y := place.resolve_left fun unmoved =>
            Int32.not_le.mpr (DocId.beforeFirst_lt nonneg) (unmoved ▸ back)
          obtain ⟨found, eq⟩ := seek_ofFront_of_le arity back
          rw [Move.make, eq]
          refine .answered ?_
          cases found with
          | true =>
              exact .found (.running alive sub place fun _ _ le => le) (sub on)
                (reached _ on (Int32.le_refl _))
          | false => exact .missed

/-- Started in any way, the threshold finds documents that are in one of the alternatives. -/
theorem decides_any {targets hardy : Prop} {first : Move} (all : List.Forall₂ (Ready seeks) Ds cs)
    (admissible : first.Admissible) : Decides targets hardy (anyOf Ds) first (ofWaiting 1 cs) where
  embarks := by
    obtain ⟨r, within, -⟩ := exists_from first
    refine (first_unstarted cs.length all first admissible within).imp ?_
    rintro found _ (_ | reaches)
    · exact .failed False.elim
    cases reaches with
    | failed => exact .failed False.elim
    | found onward mem allowed =>
        have gone : Gone cs.length seeks (anyOf Ds) _ (ofFront cs.length _) :=
          .running onward.alive subset_rfl (.inr mem) fun _ _ le => le
        exact .found ⟨mem, nonneg_anyOf all _ mem, _, vouching_gone _, gone⟩ allowed
    | missed => exact .missed
  vouches _ := ⟨_, vouching_gone cs.length, .waiting all subset_rfl (Int32.le_refl 0)⟩

/-- Started in any way, it passes over none of their documents. -/
theorem guards_any (all : List.Forall₂ (Ready seeks) Ds cs) :
    Guards (anyOf Ds) (ofWaiting 1 cs) := by
  have after : ∀ y ∈ anyOf Ds, DocId.beforeFirst < y := fun y inside =>
    DocId.beforeFirst_lt (nonneg_anyOf all y inside)
  intro move admissible
  obtain ⟨r, within, notBefore⟩ := exists_from move
  apply (first_unstarted cs.length all move admissible within).imp
  rintro found _ (_ | reaches)
  · exact .failed
  cases reaches with
  | failed => exact .failed
  | found onward =>
      refine .found fun d allowed => Watches.mono ?_ (notBefore d allowed)
      exact watches_ofFront onward.alive fun y inside later =>
        onward.first y inside later (after y inside)
  | missed none =>
      exact .missed fun y inside allowed =>
        none y inside (notBefore y allowed) (after y inside)

end Threshold

end Retrieval
