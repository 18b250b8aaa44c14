import Retrieval.Cursor.Threshold
import Retrieval.Proofs.Queue

/-!
# The candidate of a threshold

A gathered alternative is either in the queue, on its first document in the window that is still to
be searched, or it has none there. The front of the queue is therefore the first document that any
alternative has in the window. It becomes the candidate, and every alternative that contains it is
scored and moved past it in turn: those in front of the queue that have not been looked at are on
the candidate, those that have been are beyond it. When no more are on it, the window has shrunk to
what lies beyond the candidate, and the alternatives that contain it have been counted.
-/

namespace Retrieval

namespace Prospect

open Classical in
/-- Those of several prospects that have a document in a window. -/
noncomputable def meeting (W : Set DocId) (Ps : List Prospect) : List Prospect :=
  Ps.filter fun P => decide (P.docs ∩ W).Nonempty

/-- A score is the sum of scores that some prospects give to a document, in some order. -/
def Sums (d : DocId) (Ps : List Prospect) (v : Score) : Prop :=
  ∃ (Qs : List Prospect) (x : Score) (xs : List Score), Qs.Perm Ps ∧
    List.Forall₂ (fun Q y => Q.scores d y 0) Qs (x :: xs) ∧ v = xs.foldl (· + ·) x

/-- What to expect of a threshold: enough alternatives contain its documents, and it holds its place
while enough of them have documents beyond it. Nothing is counted for the enclosing search. -/
def quorum (needed : Nat) (Ps : List Prospect) : Prospect where
  docs := {d | needed ≤ (meeting {d} Ps).length}
  docsFrom t := {d | needed ≤ (meeting {d} Ps).length} ∩ since t
  later _ := Set.inter_subset_right
  holds := {d | needed ≤ (meeting (beyond d) Ps).length}
  scores d v n := n = 0 ∧ Sums d (meeting {d} Ps) v

/-- Scoring counts no clause for the enclosing search. -/
def Silent (P : Prospect) : Prop := ∀ d v n, P.scores d v n → n = 0

variable {d : DocId} {W W' : Set DocId} {P : Prospect} {Ps Qs : List Prospect} {v w : Score}

theorem mem_meeting : P ∈ meeting W Ps ↔ P ∈ Ps ∧ (P.docs ∩ W).Nonempty := by
  simp [meeting]

theorem meeting_eq_self (all : ∀ P ∈ Ps, (P.docs ∩ W).Nonempty) : meeting W Ps = Ps :=
  List.filter_eq_self.mpr fun P inside => by simpa using all P inside

theorem meeting_eq_nil (none : ∀ P ∈ Ps, P.docs ∩ W = ∅) : meeting W Ps = [] := by
  apply List.filter_eq_nil_iff.mpr
  intro P inside
  simpa [Set.not_nonempty_iff_eq_empty] using none P inside

theorem meeting_append : meeting W (Ps ++ Qs) = meeting W Ps ++ meeting W Qs :=
  List.filter_append Ps Qs

theorem meeting_perm (perm : Ps.Perm Qs) : (meeting W Ps).Perm (meeting W Qs) :=
  perm.filter _

/-- More prospects meet a larger window. -/
theorem meeting_length_mono (Ps : List Prospect) (sub : W ⊆ W') :
    (meeting W Ps).length ≤ (meeting W' Ps).length := by
  rw [meeting, meeting, ← List.countP_eq_length_filter, ← List.countP_eq_length_filter]
  apply List.countP_mono_left
  intro P _ some
  simp only [decide_eq_true_eq] at some ⊢
  exact some.mono (Set.inter_subset_inter_right _ sub)

/-- If too few alternatives have documents in a window, none there is in enough of them. -/
theorem quorum_inter_eq_empty {needed : Nat} (few : (meeting W Ps).length < needed) :
    (quorum needed Ps).docs ∩ W = ∅ := by
  apply Set.eq_empty_of_forall_notMem
  rintro d ⟨enough, inside⟩
  have fewer := meeting_length_mono Ps (Set.singleton_subset_iff.mpr inside)
  exact absurd (Nat.lt_of_le_of_lt (Nat.le_trans enough fewer) few) (Nat.lt_irrefl needed)

theorem Sums.one (scored : P.scores d v 0) : Sums d [P] v :=
  ⟨[P], v, [], .refl _, .cons scored .nil, rfl⟩

/-- One prospect more adds its score at the end. -/
theorem Sums.add (sums : Sums d Ps v) (scored : P.scores d w 0) : Sums d (P :: Ps) (v + w) := by
  obtain ⟨Qs, x, xs, perm, scores, rfl⟩ := sums
  refine ⟨Qs ++ [P], x, xs ++ [w], ?_, ?_, ?_⟩
  · exact (List.perm_append_singleton P Qs).trans (perm.cons P)
  · exact List.rel_append scores (.cons scored .nil)
  · rw [List.foldl_append, List.foldl_cons, List.foldl_nil]

theorem Sums.perm (sums : Sums d Ps v) (perm : Ps.Perm Qs) : Sums d Qs v := by
  obtain ⟨Rs, x, xs, perm', scores, eq⟩ := sums
  exact ⟨Rs, x, xs, perm'.trans perm, scores, eq⟩

end Prospect

namespace Threshold

open Cursor CursorQueue Prospect

variable {σ : Type} {Ps : List Prospect}

/-- The prospects of the alternatives in the queue and of those that have run out. -/
def prospects (live : List (Prospect × Entry σ)) (lost : List Prospect) : List Prospect :=
  live.map Prod.fst ++ lost

variable [Cursor σ] {W : Set DocId} {live ahead behind : List (Prospect × Entry σ)}
variable {lost out gone : List Prospect} {c d t : DocId}

/-- The alternatives in the queue stand on their first documents in the window, and the others have
none there. -/
structure Field (W : Set DocId) (live : List (Prospect × Entry σ)) (lost : List Prospect) :
    Prop where
  stands : ∀ x ∈ live, Stands x.1 x.1.docs x.2.doc none x.2.cursor
  least : ∀ x ∈ live, IsLeast (x.1.docs ∩ W) x.2.doc
  empty : ∀ P ∈ lost, P.docs ∩ W = ∅

theorem Field.meeting_eq (field : Field W live lost) :
    meeting W (prospects live lost) = live.map Prod.fst := by
  rw [prospects, meeting_append, meeting_eq_nil field.empty, List.append_nil]
  apply meeting_eq_self
  intro P inside
  obtain ⟨x, there, rfl⟩ := List.mem_map.mp inside
  exact ⟨_, (field.least x there).1⟩

theorem Field.append (field : Field W ahead out) (field' : Field W behind gone) :
    Field W (ahead ++ behind) (out ++ gone) where
  stands := List.forall_mem_append.mpr ⟨field.stands, field'.stands⟩
  least := List.forall_mem_append.mpr ⟨field.least, field'.least⟩
  empty := List.forall_mem_append.mpr ⟨field.empty, field'.empty⟩

theorem Field.perm {live' : List (Prospect × Entry σ)} (field : Field W live lost)
    (perm : live.Perm live') : Field W live' lost where
  stands := fun x inside => field.stands x (perm.mem_iff.mpr inside)
  least := fun x inside => field.least x (perm.mem_iff.mpr inside)
  empty := field.empty

/-- Nothing is lost by searching only a part of the window, if all alternatives are there already.
-/
theorem Field.shrink {W' : Set DocId} (field : Field W live lost) (sub : W' ⊆ W)
    (there : ∀ x ∈ live, x.2.doc ∈ W') : Field W' live lost where
  stands := field.stands
  least := fun x inside =>
    ⟨⟨(field.least x inside).1.1, there x inside⟩,
      fun _ m => (field.least x inside).2 ⟨m.1, sub m.2⟩⟩
  empty := fun P inside =>
    Set.subset_eq_empty (Set.inter_subset_inter_right _ sub) (field.empty P inside)

omit [Cursor σ] in
/-- A queue that is not empty has one of the alternatives in front, whatever is told of each. -/
theorem exists_front {ι : Type} {live : List (ι × Entry σ)} {q : CursorQueue σ}
    (holds : Holds q (live.map Prod.snd)) (some : live ≠ []) :
    ∃ x others, live.Perm (x :: others) ∧ Fronts q x.2 (others.map Prod.snd) ∧
      ∀ y ∈ live, x.2.doc ≤ y.2.doc := by
  obtain ⟨e, rest, fronts, perm, first⟩ := holds.fronts (by simpa using some)
  obtain ⟨x, inside, rfl⟩ := List.mem_map.mp (perm.mem_iff.mpr List.mem_cons_self)
  obtain ⟨left, right, rfl⟩ := List.append_of_mem inside
  have middle : (left ++ x :: right).Perm (x :: (left ++ right)) := List.perm_middle
  have others : rest.Perm ((left ++ right).map Prod.snd) :=
    (List.perm_cons x.2).mp (perm.symm.trans (middle.map Prod.snd))
  refine ⟨x, left ++ right, middle, ⟨⟨fronts.holds.ordered, ?_⟩, fronts.front⟩, ?_⟩
  · exact fronts.holds.perm.trans (others.cons x.2)
  · exact fun y there => first y.2 (List.mem_map_of_mem there)

/-- What the front knows of its alternatives while it looks for documents in a window. -/
structure Gathered (Ps : List Prospect) (W : Set DocId) (f : Front σ)
    (live : List (Prospect × Entry σ)) (lost : List Prospect) : Prop where
  covers : (prospects live lost).Perm Ps
  holds : Holds f.queue (live.map Prod.snd)
  field : Field W live lost
  count : f.live = live.length

/-- All alternatives that contain the document `d` have been counted and moved past it. -/
structure Passed (Ps : List Prospect) (d : DocId) (f : Front σ)
    (live : List (Prospect × Entry σ)) (lost : List Prospect) : Prop
    extends Gathered Ps (beyond d) f live lost where
  current : f.current = d
  matched : f.matched = (meeting {d} Ps).length
  sums : Sums d (meeting {d} Ps) f.total

/-- While the candidate `c` is being passed, the alternatives `ahead` and `out` have not been looked
at, and `behind` and `gone` have been counted and moved. -/
structure Sides (c : DocId) (ahead : List (Prospect × Entry σ)) (out : List Prospect)
    (behind : List (Prospect × Entry σ)) (gone : List Prospect) : Prop where
  before : Field (since c) ahead out
  after : Field (beyond c) behind gone
  contained : ∀ P ∈ prospects behind gone, c ∈ P.docs

/-- Between two alternatives. -/
structure Passing (Ps : List Prospect) (c : DocId) (f : Front σ)
    (ahead : List (Prospect × Entry σ)) (out : List Prospect)
    (behind : List (Prospect × Entry σ)) (gone : List Prospect) : Prop
    extends Sides c ahead out behind gone where
  covers : (prospects ahead out ++ prospects behind gone).Perm Ps
  holds : Holds f.queue ((ahead ++ behind).map Prod.snd)
  count : f.live = (ahead ++ behind).length
  current : f.current = c
  matched : f.matched = (prospects behind gone).length
  sums : Sums c (prospects behind gone) f.total

/-- The alternative in front contains the candidate. It has been counted and scored, but not moved.
-/
structure Counting (Ps : List Prospect) (c : DocId) (f : Front σ) (x : Prospect × σ)
    (ahead : List (Prospect × Entry σ)) (out : List Prospect)
    (behind : List (Prospect × Entry σ)) (gone : List Prospect) : Prop
    extends Sides c ahead out behind gone where
  covers : (prospects ahead out ++ (x.1 :: prospects behind gone)).Perm Ps
  fronts : Fronts f.queue ⟨x.2, c⟩ ((ahead ++ behind).map Prod.snd)
  stands : ∃ v, Stands x.1 x.1.docs c v x.2
  count : f.live = (ahead ++ behind).length + 1
  current : f.current = c
  matched : f.matched = (prospects behind gone).length + 1
  sums : Sums c (x.1 :: prospects behind gone) f.total

variable {f : Front σ} {x : Prospect × σ}

omit [Cursor σ] in
theorem prospects_append :
    (prospects (ahead ++ behind) (out ++ gone)).Perm
      (prospects ahead out ++ prospects behind gone) := by
  simp only [prospects, List.map_append, List.append_assoc]
  apply List.Perm.append_left _
  rw [← List.append_assoc, ← List.append_assoc]
  exact List.perm_append_comm.append_right gone

/-- No alternative that is not on the candidate contains it. -/
theorem Sides.meeting_perm (sides : Sides c ahead out behind gone)
    (off : ∀ x ∈ ahead, x.2.doc ≠ c) :
    meeting {c} (prospects ahead out ++ prospects behind gone) = prospects behind gone := by
  rw [meeting_append, meeting_eq_nil, meeting_eq_self, List.nil_append]
  · exact fun P inside => ⟨c, sides.contained P inside, rfl⟩
  · intro P inside
    apply Set.eq_empty_of_forall_notMem
    rintro m ⟨contained, same⟩
    obtain rfl : m = c := same
    obtain there | there := List.mem_append.mp inside
    · obtain ⟨x, queued, rfl⟩ := List.mem_map.mp there
      have least := sides.before.least x queued
      exact off x queued (Int32.le_antisymm (least.2 ⟨contained, Int32.le_refl _⟩) least.1.2)
    · exact Set.eq_empty_iff_forall_notMem.mp (sides.before.empty P there) m
        ⟨contained, Int32.le_refl m⟩

/-- When no alternative is on the candidate any more, all those that contain it have been counted.
-/
theorem Passing.finish (passing : Passing Ps c f ahead out behind gone)
    (off : ∀ x ∈ ahead, x.2.doc ≠ c) : Passed Ps c f (ahead ++ behind) (out ++ gone) := by
  have meets : (meeting {c} Ps).Perm (prospects behind gone) := by
    rw [← passing.toSides.meeting_perm off]
    exact Prospect.meeting_perm passing.covers.symm
  have sub : beyond c ⊆ since c := fun x later => Int32.le_of_lt later
  constructor
  case current => exact passing.current
  case matched => rw [passing.matched, meets.length_eq]
  case sums => exact passing.sums.perm meets.symm
  case toGathered =>
    constructor
    case covers => exact prospects_append.trans passing.covers
    case holds => exact passing.holds
    case count => exact passing.count
    case field =>
      refine (passing.before.shrink sub fun x inside => ?_).append passing.after
      apply Int32.lt_of_le_of_ne (passing.before.least x inside).1.2
      exact Ne.symm (off x inside)

/-- The alternative in front is moved past the candidate. -/
theorem Counting.move (counting : Counting Ps c f x ahead out behind gone) :
    ∃ q found behind' gone', f.queue.nextTop = .done q found ∧
      Passing Ps c (if found then f.withQueue q else (f.withQueue q).lose) ahead out behind' gone' ∧
      q.movesLeft < f.queue.movesLeft ∧ (found = true → behind' ≠ []) := by
  obtain ⟨v, stands⟩ := counting.stands
  have mem : c ∈ x.1.docs := faithful_stands.mem stands
  have contained : ∀ P ∈ x.1 :: prospects behind gone, c ∈ P.docs :=
    List.forall_mem_cons.mpr ⟨mem, counting.contained⟩
  have used := counting.fronts.holds.movesLeft_eq
  simp only [List.map_cons, movesLeftInAll] at used
  cases faithful_stands.next stands with
  | found e p eq least stood =>
      obtain ⟨q, eq', holds⟩ := counting.fronts.moveTop Cursor.next eq
      have place : Cursor.doc p = e := faithful_stands.doc stood.1
      have holds' : Holds q ((ahead ++ (x.1, ⟨p, e⟩) :: behind).map Prod.snd) := by
        rw [place, if_pos rfl] at holds
        have middle : (ahead ++ (x.1, ⟨p, e⟩) :: behind).Perm
            ((x.1, ⟨p, e⟩) :: (ahead ++ behind)) :=
          List.perm_middle
        exact holds.of_perm (middle.map Prod.snd).symm
      refine ⟨q, true, (x.1, ⟨p, e⟩) :: behind, gone, eq', ?_, ?_, fun _ => List.cons_ne_nil _ _⟩
      · rw [if_pos rfl]
        constructor
        case toSides =>
          refine ⟨counting.before, ⟨?_, ?_, counting.after.empty⟩, contained⟩
          · exact List.forall_mem_cons.mpr ⟨stood.1, counting.after.stands⟩
          · exact List.forall_mem_cons.mpr ⟨least, counting.after.least⟩
        case covers => exact counting.covers
        case holds => exact holds'
        case count =>
          rw [show (f.withQueue q).live = f.live from rfl, counting.count]
          simp only [List.length_append, List.length_cons]
          omega
        case current => exact counting.current
        case matched => exact counting.matched
        case sums => exact counting.sums
      · rw [holds'.movesLeft_eq, List.map_map,
          movesLeftInAll_perm (List.perm_middle.map _), List.map_cons, movesLeftInAll,
          ← List.map_map]
        have fewer : Cursor.movesLeft p < Cursor.movesLeft x.2 := stood.2
        simp only [Function.comp]
        omega
  | missed p eq empty =>
      obtain ⟨q, eq', holds⟩ := counting.fronts.moveTop Cursor.next eq
      rw [if_neg Bool.false_ne_true] at holds
      have middle : (prospects behind (x.1 :: gone)).Perm (x.1 :: prospects behind gone) :=
        List.perm_middle
      refine ⟨q, false, behind, x.1 :: gone, eq', ?_, ?_,
        fun found => absurd found Bool.false_ne_true⟩
      · rw [if_neg Bool.false_ne_true]
        constructor
        case toSides =>
          refine ⟨counting.before, ⟨counting.after.stands, counting.after.least, ?_⟩, ?_⟩
          · exact List.forall_mem_cons.mpr ⟨empty, counting.after.empty⟩
          · exact fun P inside => contained P (middle.mem_iff.mp inside)
        case covers => exact (middle.append_left _).trans counting.covers
        case holds => exact holds
        case count =>
          rw [show (f.withQueue q).lose.live = f.live - 1 from rfl, counting.count]
          rfl
        case current => exact counting.current
        case matched => exact counting.matched.trans middle.length_eq.symm
        case sums => exact counting.sums.perm middle.symm
      · rw [holds.movesLeft_eq]
        omega

/-- Scoring the alternative in front. -/
theorem topScore_spec {q : CursorQueue σ} {P : Prospect} {e : Entry σ} {rest : List (Entry σ)}
    (fronts : Fronts q e rest) (stands : Stands P P.docs e.doc none e.cursor) (silent : P.Silent) :
    ∃ v p, q.topScore = .done (q.withTop p) v ∧ P.scores e.doc v 0 ∧
      Stands P P.docs e.doc (some v) p ∧ Fronts (q.withTop p) ⟨p, e.doc⟩ rest ∧
      (q.withTop p).movesLeft ≤ q.movesLeft := by
  obtain ⟨v, n, p, eq, scored, stood, fewer⟩ := faithful_stands.score stands
  obtain rfl : n = 0 := silent _ _ _ scored
  refine ⟨v, p, ?_, scored, stood, fronts.withTop p, ?_⟩
  · rw [fronts.topScore eq, Marks.count_zero]
    rfl
  · rw [fronts.holds.movesLeft_eq, (fronts.withTop p).holds.movesLeft_eq]
    simp only [List.map_cons, movesLeftInAll]
    omega

/-- If the alternative in front is on the candidate, it is one that has not been looked at. It is
counted. -/
theorem Passing.countNext (passing : Passing Ps c f ahead out behind gone)
    (silent : ∀ P ∈ Ps, P.Silent) (nonempty : ahead ++ behind ≠ []) (on : f.queue.topDoc = c) :
    ∃ v q x ahead', f.queue.topScore = .done q v ∧
      Counting Ps c { f with queue := q, total := f.total + v, matched := f.matched + 1 } x ahead'
        out behind gone ∧
      q.movesLeft ≤ f.queue.movesLeft := by
  obtain ⟨x, others, perm, fronts, -⟩ := exists_front passing.holds nonempty
  have atTop : x.2.doc = c := by rw [← fronts.topDoc_eq, on]
  have notBehind : x ∉ behind := by
    intro inside
    have later := (passing.after.least x inside).1.2
    rw [atTop] at later
    exact Int32.lt_irrefl later
  have inside : x ∈ ahead :=
    (List.mem_append.mp (perm.mem_iff.mpr List.mem_cons_self)).resolve_right notBehind
  obtain ⟨left, right, rfl⟩ := List.append_of_mem inside
  have middle : (left ++ x :: right).Perm (x :: (left ++ right)) := List.perm_middle
  have rest : others.Perm (left ++ right ++ behind) :=
    (List.perm_cons x).mp (perm.symm.trans (middle.append_right behind))
  have covers : (prospects (left ++ right) out ++ x.1 :: prospects behind gone).Perm Ps := by
    refine List.Perm.trans ?_ passing.covers
    apply List.perm_middle.trans
    exact (((middle.map Prod.fst).append_right out).append_right _).symm
  have mem : x.1 ∈ Ps := covers.mem_iff.mp (by simp)
  obtain ⟨v, p, eq, scored, stood, fronts', fewer⟩ :=
    topScore_spec fronts (passing.before.stands x inside) (silent _ mem)
  rw [atTop] at scored stood fronts'
  refine ⟨v, _, (x.1, p), left ++ right, eq, ?_, fewer⟩
  have less := passing.before.perm middle
  constructor
  case toSides =>
    refine ⟨⟨?_, ?_, passing.before.empty⟩, passing.after, passing.contained⟩
    · exact fun y there => less.stands y (List.mem_cons_of_mem x there)
    · exact fun y there => less.least y (List.mem_cons_of_mem x there)
  case covers => exact covers
  case fronts => exact ⟨fronts'.holds.of_perm ((rest.map Prod.snd).cons _), fronts'.front⟩
  case stands => exact ⟨some v, stood⟩
  case count =>
    have length := (middle.append_right behind).length_eq
    rw [List.cons_append, List.length_cons] at length
    exact passing.count.trans length
  case current => exact passing.current
  case matched => rw [passing.matched]
  case sums => exact passing.sums.add scored

/-- If the front of the queue is not on the candidate, no alternative is. -/
theorem Passing.off (passing : Passing Ps c f ahead out behind gone)
    (past : f.queue.topDoc ≠ c) : ∀ y ∈ ahead, y.2.doc ≠ c := by
  intro y inside same
  have there : y ∈ ahead ++ behind := List.mem_append_left behind inside
  obtain ⟨z, others, perm, fronts, first⟩ :=
    exists_front passing.holds (List.ne_nil_of_mem there)
  have upTo : z.2.doc ≤ c := same ▸ first y there
  have fromOn : c ≤ z.2.doc := by
    obtain inside | inside := List.mem_append.mp (perm.mem_iff.mpr List.mem_cons_self)
    · exact (passing.before.least z inside).1.2
    · exact Int32.le_of_lt (passing.after.least z inside).1.2
  exact past (fronts.topDoc_eq.trans (Int32.le_antisymm upTo fromOn))

/-- All alternatives on the candidate are counted and moved past it, one in each round. -/
theorem Counting.absorb (silent : ∀ P ∈ Ps, P.Silent) (bound : Nat)
    (counting : Counting Ps c f x ahead out behind gone) (enough : f.movesLeft < bound) :
    ∃ f' live lost, f.absorb bound = .done f' () ∧ Passed Ps c f' live lost ∧
      f'.movesLeft < f.movesLeft := by
  induction bound generalizing f x ahead behind gone with
  | zero => omega
  | succ bound ih =>
      obtain ⟨q, found, behind', gone', eq, passing, fewer, some⟩ := counting.move
      rw [Front.absorb, eq, Outcome.bind_done]
      generalize moved : (if found then f.withQueue q else (f.withQueue q).lose) = f' at passing
      have queue : f'.queue = q := by
        rw [← moved]
        cases found <;> rfl
      have fewer' : f'.movesLeft < f.movesLeft := by
        rw [Front.movesLeft, queue]
        exact fewer
      dsimp only
      by_cases ended : (!found && f'.live == 0) = true
      · rw [if_pos ended]
        have none : ahead ++ behind' = [] := by
          simp only [Bool.and_eq_true, Bool.not_eq_true', beq_iff_eq] at ended
          rw [passing.count] at ended
          exact List.eq_nil_of_length_eq_zero ended.2
        refine ⟨f', _, _, rfl, passing.finish fun y inside => ?_, fewer'⟩
        rw [(List.append_eq_nil_iff.mp none).1] at inside
        exact absurd inside List.not_mem_nil
      rw [if_neg ended]
      by_cases past : f'.queue.topDoc ≠ f'.current
      · rw [if_pos past]
        exact ⟨f', _, _, rfl, passing.finish (passing.off (passing.current ▸ past)), fewer'⟩
      · rw [if_neg past]
        have nonempty : ahead ++ behind' ≠ [] := by
          intro none
          cases found with
          | true => exact some rfl (List.append_eq_nil_iff.mp none).2
          | false =>
              apply ended
              rw [passing.count, none]
              rfl
        have on : f'.queue.topDoc = c := by
          rw [← passing.current]
          exact Decidable.not_not.mp past
        obtain ⟨v, q', y, ahead', eq', counting', fewer''⟩ := passing.countNext silent nonempty on
        rw [eq', Outcome.bind_done]
        have less : q'.movesLeft < f.movesLeft := Nat.lt_of_le_of_lt fewer'' fewer'
        obtain ⟨f'', live, lost, eq'', passed, fewer'''⟩ := ih counting' (by
          show q'.movesLeft < bound
          omega)
        exact ⟨f'', live, lost, eq'', passed, Nat.lt_trans fewer''' less⟩

/-- The front of the queue is made the candidate. It is the first document in the window that any
alternative has. -/
theorem Gathered.propose (gathered : Gathered Ps W f live lost) (upper : IsUpperSet W)
    (silent : ∀ P ∈ Ps, P.Silent) (nonempty : live ≠ []) :
    ∃ f' c x others, f.propose = .done f' () ∧ Counting Ps c f' x others lost [] [] ∧
      IsLeast ({d | ∃ P ∈ Ps, d ∈ P.docs} ∩ W) c ∧ f'.movesLeft ≤ f.movesLeft := by
  obtain ⟨x, others, perm, fronts, first⟩ := exists_front gathered.holds nonempty
  have inside : x ∈ live := perm.mem_iff.mpr List.mem_cons_self
  have covers : (x.1 :: prospects others lost).Perm Ps :=
    ((perm.map Prod.fst).append_right lost).symm.trans gathered.covers
  have mem : x.1 ∈ Ps := covers.mem_iff.mp List.mem_cons_self
  have least := gathered.field.least x inside
  have sub : since x.2.doc ⊆ W := fun y le => upper le least.1.2
  obtain ⟨v, p, eq, scored, stood, fronts', fewer⟩ :=
    topScore_spec fronts (gathered.field.stands x inside) (silent _ mem)
  have field := (gathered.field.shrink sub first).perm perm
  refine ⟨⟨f.queue.withTop p, f.live, f.queue.topDoc, v, 1⟩, x.2.doc, (x.1, p), others, ?_, ?_,
    ⟨⟨⟨x.1, mem, least.1.1⟩, least.1.2⟩, ?_⟩, fewer⟩
  · rw [Front.propose, eq, Outcome.bind_done]
  · constructor
    case toSides =>
      refine ⟨⟨?_, ?_, field.empty⟩, ⟨by simp, by simp, by simp⟩, by simp [prospects]⟩
      · exact fun y there => field.stands y (List.mem_cons_of_mem x there)
      · exact fun y there => field.least y (List.mem_cons_of_mem x there)
    case covers => exact (List.perm_append_singleton _ _).trans covers
    case fronts => simpa using fronts'
    case stands => exact ⟨some v, stood⟩
    case count => simpa using gathered.count.trans perm.length_eq
    case current => exact fronts.topDoc_eq
    case matched => rfl
    case sums => exact .one scored
  · rintro m ⟨⟨P, there, contained⟩, window⟩
    obtain queued | out := List.mem_append.mp (gathered.covers.mem_iff.mpr there)
    · obtain ⟨y, live, rfl⟩ := List.mem_map.mp queued
      exact Int32.le_trans (first y live) ((gathered.field.least y live).2 ⟨contained, window⟩)
    · exact absurd ⟨contained, window⟩
        (Set.eq_empty_iff_forall_notMem.mp (gathered.field.empty P out) m)

end Threshold

end Retrieval
