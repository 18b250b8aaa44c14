import Retrieval.Proofs.Candidate

/-!
# Thresholds keep their promise

One candidate after the other is tried until enough alternatives contain it, or too few are left. A
threshold then stands with its alternatives ahead of it. It answers a seek backwards without a move,
but only while enough alternatives have documents left.
-/

namespace Retrieval

namespace Threshold

open Cursor CursorQueue Prospect

variable {σ : Type} {Ps : List Prospect} [Cursor σ] {W : Set DocId}
variable {live : List (Prospect × Entry σ)} {lost : List Prospect} {d t : DocId} {f : Front σ}

/-- A front that stands on the document `d`, with all alternatives past it. -/
def Front.At (Ps : List Prospect) (d : DocId) (f : Front σ) : Prop :=
  0 ≤ d ∧ ∃ live lost, Passed Ps d f live lost

theorem Gathered.meeting_length (gathered : Gathered Ps W f live lost) :
    (meeting W Ps).length = f.live := by
  rw [← (Prospect.meeting_perm gathered.covers).length_eq, gathered.field.meeting_eq,
    List.length_map, gathered.count]

variable {needed : Nat}

/-- One candidate after the other is tried. The induction is on the bound; the window shrinks to
what lies beyond the candidate. -/
theorem Gathered.search (silent : ∀ P ∈ Ps, P.Silent) (positive : 0 < needed) (bound : Nat)
    (gathered : Gathered Ps W f live lost) (upper : IsUpperSet W) (enough : needed ≤ f.live)
    (enoughMoves : f.movesLeft < bound) :
    (f.search needed bound).Finds ((quorum needed Ps).docs ∩ W) fun d f' =>
      Front.At Ps d f' ∧ f'.movesLeft < f.movesLeft := by
  induction bound generalizing f live lost W with
  | zero => omega
  | succ bound ih =>
      have nonempty : live ≠ [] := by
        rintro rfl
        have none := gathered.count
        rw [List.length_nil] at none
        omega
      obtain ⟨f₁, c, x, others, eq₁, counting, first, fewer₁⟩ :=
        gathered.propose upper silent nonempty
      obtain ⟨f₂, live', lost', eq₂, passed, fewer₂⟩ :=
        counting.absorb silent (f₁.movesLeft + 1) (Nat.lt_succ_self _)
      have fewer : f₂.movesLeft < f.movesLeft := Nat.lt_of_lt_of_le fewer₂ fewer₁
      rw [Front.search, eq₁, Outcome.andThen_done, eq₂, Outcome.andThen_done, passed.matched]
      -- a document of the quorum is one that some alternative contains
      have contained : ∀ d ∈ (quorum needed Ps).docs, ∃ P ∈ Ps, d ∈ P.docs := by
        intro d many
        obtain ⟨P, inside⟩ :=
          List.exists_mem_of_length_pos (Nat.lt_of_lt_of_le positive many)
        obtain ⟨there, e, contains, rfl⟩ := mem_meeting.mp inside
        exact ⟨P, there, contains⟩
      by_cases many : needed ≤ (meeting {c} Ps).length
      · rw [if_pos many]
        obtain ⟨v, stands⟩ := counting.stands
        refine .found c f₂ rfl ⟨⟨many, first.1.2⟩, ?_⟩
          ⟨⟨faithful_stands.nonneg stands, live', lost', passed⟩, fewer⟩
        exact fun d ⟨many, inside⟩ => first.2 ⟨contained d many, inside⟩
      rw [if_neg many]
      have past : (quorum needed Ps).docs ∩ W = (quorum needed Ps).docs ∩ beyond c := by
        ext d
        refine and_congr_right fun many' => ⟨fun inside => ?_, fun later => ?_⟩
        · apply Int32.lt_of_le_of_ne (first.2 ⟨contained d many', inside⟩)
          rintro rfl
          exact many many'
        · exact upper (Int32.le_of_lt later) first.1.2
      by_cases few : f₂.live < needed
      · rw [if_pos few]
        refine .missed f₂ rfl ?_
        rw [past]
        exact quorum_inter_eq_empty (passed.toGathered.meeting_length ▸ few)
      · rw [if_neg few, past]
        refine (ih passed.toGathered (isUpperSet_beyond c) (Nat.not_lt.mp few) ?_).imp ?_
        · omega
        · exact fun d f' _ stood => ⟨stood.1, Nat.lt_trans stood.2 fewer⟩

theorem Gathered.advance (silent : ∀ P ∈ Ps, P.Silent) (positive : 0 < needed)
    (gathered : Gathered Ps W f live lost) (upper : IsUpperSet W) (enough : needed ≤ f.live) :
    (f.advance needed).Finds ((quorum needed Ps).docs ∩ W) fun d f' =>
      Front.At Ps d f' ∧ f'.movesLeft < f.movesLeft :=
  gathered.search silent positive _ upper enough (Nat.lt_succ_self _)

/-- Some alternatives have been sent to the target. Those that stand before it still have to be. -/
structure Catching (Ps : List Prospect) (t : DocId) (f : Front σ)
    (live : List (Prospect × Entry σ)) (lost : List Prospect) : Prop where
  covers : (prospects live lost).Perm Ps
  holds : Holds f.queue (live.map Prod.snd)
  stands : ∀ x ∈ live, Stands x.1 x.1.docs x.2.doc none x.2.cursor
  least : ∀ x ∈ live, t ≤ x.2.doc → IsLeast (x.1.docs ∩ since t) x.2.doc
  empty : ∀ P ∈ lost, P.docs ∩ since t = ∅
  count : f.live = live.length

/-- A wider window can be searched from the target too. -/
theorem Gathered.catching (gathered : Gathered Ps W f live lost) (sub : since t ⊆ W) :
    Catching Ps t f live lost where
  covers := gathered.covers
  holds := gathered.holds
  stands := gathered.field.stands
  least := fun x inside le =>
    ⟨⟨(gathered.field.least x inside).1.1, le⟩,
      fun _ m => (gathered.field.least x inside).2 ⟨m.1, sub m.2⟩⟩
  empty := fun P inside =>
    Set.subset_eq_empty (Set.inter_subset_inter_right _ sub) (gathered.field.empty P inside)
  count := gathered.count

/-- When the front of the queue has reached the target, all alternatives have. -/
theorem Catching.gathered (catching : Catching Ps t f live lost)
    (reached : ∀ x ∈ live, t ≤ x.2.doc) : Gathered Ps (since t) f live lost where
  covers := catching.covers
  holds := catching.holds
  field := ⟨catching.stands, fun x inside => catching.least x inside (reached x inside),
    catching.empty⟩
  count := catching.count

/-- The alternative in front is sent to the target. -/
theorem Catching.send (catching : Catching Ps t f live lost) (nonempty : live ≠ [])
    (short : ¬ t ≤ f.queue.topDoc) :
    ∃ q found live' lost', f.queue.seekTop t = .done q found ∧
      Catching Ps t (if found then f.withQueue q else (f.withQueue q).lose) live' lost' ∧
      q.movesLeft < f.queue.movesLeft := by
  obtain ⟨x, others, perm, fronts, first⟩ := exists_front catching.holds nonempty
  have inside : ∀ y ∈ x :: others, y ∈ live := fun y there => perm.mem_iff.mpr there
  have early : x.2.doc < t := by
    rw [← fronts.topDoc_eq]
    exact Int32.not_le.mp short
  have covers : (x.1 :: prospects others lost).Perm Ps :=
    ((perm.map Prod.fst).append_right lost).symm.trans catching.covers
  have stands := catching.stands x (inside x List.mem_cons_self)
  have place : Cursor.doc x.2.cursor = x.2.doc := faithful_stands.doc stands
  have count := catching.count.trans perm.length_eq
  have used := fronts.holds.movesLeft_eq
  simp only [List.map_cons, movesLeftInAll] at used
  have stands' : ∀ y ∈ others, Stands y.1 y.1.docs y.2.doc none y.2.cursor :=
    fun y there => catching.stands y (inside y (List.mem_cons_of_mem x there))
  have least' : ∀ y ∈ others, t ≤ y.2.doc → IsLeast (y.1.docs ∩ since t) y.2.doc :=
    fun y there => catching.least y (inside y (List.mem_cons_of_mem x there))
  cases faithful_stands.ahead stands early with
  | found e p eq least stood =>
      obtain ⟨q, eq', holds⟩ := fronts.moveTop (Cursor.seek · t) eq
      have place : Cursor.doc p = e := faithful_stands.doc stood.1
      rw [place, if_pos rfl] at holds
      refine ⟨q, true, (x.1, ⟨p, e⟩) :: others, lost, eq', ?_, ?_⟩
      · rw [if_pos rfl]
        constructor
        case covers => exact covers
        case holds => exact holds
        case stands => exact List.forall_mem_cons.mpr ⟨stood.1, stands'⟩
        case least => exact List.forall_mem_cons.mpr ⟨fun _ => least, least'⟩
        case empty => exact catching.empty
        case count => exact count
      · rw [holds.movesLeft_eq]
        have fewer : Cursor.movesLeft p < Cursor.movesLeft x.2.cursor := stood.2
        simp only [List.map_cons, movesLeftInAll]
        omega
  | missed p eq empty =>
      obtain ⟨q, eq', holds⟩ := fronts.moveTop (Cursor.seek · t) eq
      rw [if_neg Bool.false_ne_true] at holds
      refine ⟨q, false, others, x.1 :: lost, eq', ?_, ?_⟩
      · rw [if_neg Bool.false_ne_true]
        constructor
        case covers => exact List.perm_middle.trans covers
        case holds => exact holds
        case stands => exact stands'
        case least => exact least'
        case empty => exact List.forall_mem_cons.mpr ⟨empty, catching.empty⟩
        case count =>
          rw [show (f.withQueue q).lose.live = f.live - 1 from rfl, count]
          rfl
      · rw [holds.movesLeft_eq]
        omega

/-- Only alternatives in the queue can have documents from the target on. -/
theorem Catching.meeting_length_le (catching : Catching Ps t f live lost) :
    (meeting (since t) Ps).length ≤ f.live := by
  rw [← (Prospect.meeting_perm catching.covers).length_eq, prospects, meeting_append,
    meeting_eq_nil catching.empty, List.append_nil, catching.count, ← List.length_map Prod.fst]
  exact List.length_filter_le _ _

/-- All alternatives are sent to the target, one in each round, and the search begins there. -/
theorem Catching.catchUp (silent : ∀ P ∈ Ps, P.Silent) (positive : 0 < needed) (bound : Nat)
    (catching : Catching Ps t f live lost) (enough : needed ≤ f.live)
    (enoughMoves : f.movesLeft < bound) :
    (f.catchUp needed t bound).Finds ((quorum needed Ps).docs ∩ since t) fun d f' =>
      Front.At Ps d f' ∧ f'.movesLeft < f.movesLeft := by
  induction bound generalizing f live lost with
  | zero => omega
  | succ bound ih =>
      have nonempty : live ≠ [] := by
        rintro rfl
        have none := catching.count
        rw [List.length_nil] at none
        omega
      rw [Front.catchUp]
      by_cases reached : t ≤ f.queue.topDoc
      · rw [if_pos reached]
        refine (catching.gathered fun y inside => ?_).advance silent positive
          (isUpperSet_since t) enough
        obtain ⟨x, others, perm, fronts, first⟩ := exists_front catching.holds nonempty
        rw [fronts.topDoc_eq] at reached
        exact Int32.le_trans reached (first y inside)
      rw [if_neg reached]
      obtain ⟨q, found, live', lost', eq, catching', fewer⟩ := catching.send nonempty reached
      rw [eq, Outcome.bind_done]
      dsimp only
      cases found with
      | true =>
          rw [if_pos rfl] at catching' ⊢
          refine (ih catching' enough ?_).imp fun d f' _ stood => ⟨stood.1, ?_⟩
          · show q.movesLeft < bound
            exact Nat.lt_of_lt_of_le fewer (Nat.le_of_lt_succ enoughMoves)
          · exact Nat.lt_trans stood.2 fewer
      | false =>
          rw [if_neg Bool.false_ne_true] at catching' ⊢
          by_cases few : (f.withQueue q).lose.live < needed
          · rw [if_pos few]
            refine .missed _ rfl (quorum_inter_eq_empty ?_)
            exact Nat.lt_of_le_of_lt catching'.meeting_length_le few
          · rw [if_neg few]
            refine (ih catching' (Nat.not_lt.mp few) ?_).imp fun d f' _ stood => ⟨stood.1, ?_⟩
            · show q.movesLeft < bound
              exact Nat.lt_of_lt_of_le fewer (Nat.le_of_lt_succ enoughMoves)
            · exact Nat.lt_trans stood.2 fewer

/-- A threshold that stands on a document which enough alternatives contain. -/
def Standing (needed : Nat) (Ps : List Prospect) (d : DocId) (v : Option Score) (T : Threshold σ) :
    Prop :=
  ∃ f, T.stage = .running f ∧ T.needed = needed ∧ f.At Ps d ∧ d ∈ (quorum needed Ps).docs ∧
    ∀ s, v = some s → s = f.total

variable {T : Threshold σ} {v : Option Score}

theorem start_running (running : T.stage = .running f) : T.start = .done T f := by
  rw [start, running]

/-- Where a search ends, the threshold stands. -/
theorem finds_within (eq : T.needed = needed) {o : Outcome (Front σ) Bool}
    (finds : o.Finds ((quorum needed Ps).docs ∩ W) fun d f' =>
      Front.At Ps d f' ∧ f'.movesLeft < f.movesLeft) :
    (o.within T.withFront).Finds ((quorum needed Ps).docs ∩ W) fun d T' =>
      Standing needed Ps d none T' ∧ Cursor.movesLeft T' < f.movesLeft := by
  refine finds.within fun d f' least stood => ⟨⟨f', rfl, eq, stood.1, least.1.1, by simp⟩, stood.2⟩

/-- A move to the next document, once the alternatives are gathered. -/
theorem Gathered.next (gathered : Gathered Ps W f live lost) (upper : IsUpperSet W)
    (silent : ∀ P ∈ Ps, P.Silent) (positive : 0 < needed) (eq : T.needed = needed) :
    (if f.live < T.needed then .done T false
      else (f.advance T.needed).within T.withFront).Finds ((quorum needed Ps).docs ∩ W)
        fun d T' => Standing needed Ps d none T' ∧ Cursor.movesLeft T' < f.movesLeft := by
  subst eq
  by_cases few : f.live < T.needed
  · rw [if_pos few]
    exact .missed T rfl (quorum_inter_eq_empty (gathered.meeting_length ▸ few))
  · rw [if_neg few]
    exact finds_within rfl (gathered.advance silent positive upper (Nat.not_lt.mp few))

/-- A seek to a later target, once the alternatives are gathered. -/
theorem Gathered.seek (gathered : Gathered Ps W f live lost) (sub : since t ⊆ W)
    (later : f.current < t) (silent : ∀ P ∈ Ps, P.Silent) (positive : 0 < needed)
    (eq : T.needed = needed) :
    (if f.live < T.needed then .done T false
      else if t ≤ f.current then .done T true
      else (f.catchUp T.needed t (f.movesLeft + f.queue.size + 1)).within T.withFront).Finds
        ((quorum needed Ps).docs ∩ since t)
        fun d T' => Standing needed Ps d none T' ∧ Cursor.movesLeft T' < f.movesLeft := by
  subst eq
  by_cases few : f.live < T.needed
  · rw [if_pos few]
    refine .missed T rfl (Set.subset_eq_empty (Set.inter_subset_inter_right _ sub) ?_)
    exact quorum_inter_eq_empty (gathered.meeting_length ▸ few)
  · rw [if_neg few, if_neg (Int32.not_le.mpr later)]
    exact finds_within rfl ((gathered.catching sub).catchUp silent positive _
      (Nat.not_lt.mp few) (by omega))

theorem faithful_standing (silent : ∀ P ∈ Ps, P.Silent) (positive : 0 < needed) :
    Faithful (quorum needed Ps) (quorum needed Ps).docs (Standing (σ := σ) needed Ps) where
  doc := by
    rintro d v T ⟨f, running, -, ⟨-, live, lost, passed⟩, -⟩
    rw [← passed.current]
    simp only [Cursor.doc, Threshold.doc, running]
  mem := fun ⟨_, _, _, _, mem, _⟩ => mem
  nonneg := fun ⟨_, _, _, ⟨nonneg, _⟩, _⟩ => nonneg
  next := by
    rintro d v T ⟨f, running, rfl, ⟨-, live, lost, passed⟩, -, -⟩
    have same : Cursor.movesLeft T = f.movesLeft := by
      simp only [Cursor.movesLeft, Threshold.movesLeft, running]
    rw [same]
    simp only [Cursor.next, Threshold.next, start_running running, Outcome.andThen_done]
    exact passed.toGathered.next (isUpperSet_beyond d) silent positive rfl
  ahead := by
    rintro d v T t ⟨f, running, rfl, ⟨-, live, lost, passed⟩, -, -⟩ later
    have same : Cursor.movesLeft T = f.movesLeft := by
      simp only [Cursor.movesLeft, Threshold.movesLeft, running]
    have sub : since t ⊆ beyond d := fun x le => Int32.lt_of_lt_of_le later le
    rw [same]
    simp only [Cursor.seek, Threshold.seek, start_running running, Outcome.andThen_done]
    exact passed.toGathered.seek sub (passed.current ▸ later) silent positive rfl
  held := by
    rintro d v T t standing - back holds
    refine ⟨T, ?_, standing, Nat.le_refl _⟩
    obtain ⟨f, running, rfl, ⟨-, live, lost, passed⟩, -, -⟩ := standing
    have enough : T.needed ≤ f.live := passed.toGathered.meeting_length ▸ holds
    simp only [Cursor.seek, Threshold.seek, start_running running, Outcome.andThen_done]
    rw [if_neg (Nat.not_lt.mpr enough), if_pos (passed.current ▸ back)]
  lost := by
    rintro d v T t ⟨f, running, rfl, ⟨-, live, lost, passed⟩, -, -⟩ - back outside
    have few : f.live < T.needed := passed.toGathered.meeting_length ▸ Nat.not_le.mp outside
    refine ⟨T, ?_⟩
    simp only [Cursor.seek, Threshold.seek, start_running running, Outcome.andThen_done]
    rw [if_pos few]
  score := by
    rintro d T ⟨f, running, rfl, at', mem, -⟩
    refine ⟨f.total, 0, T, ?_, ?_, ⟨f, running, rfl, at', mem, by simp [eq_comm]⟩, Nat.le_refl _⟩
    · simp only [Cursor.score, score, running]
      rfl
    · obtain ⟨-, live, lost, passed⟩ := at'
      exact ⟨rfl, passed.sums⟩
  again := by
    rintro d v T ⟨f, running, needs, at', mem, scored⟩
    simp only [Cursor.score, score, running, scored v rfl]

/-- A threshold that stands where only the documents of `D` are expected from there on. -/
def StandsIn (needed : Nat) (Ps : List Prospect) (D : Set DocId) (d : DocId) (v : Option Score)
    (T : Threshold σ) : Prop :=
  Standing needed Ps d v T ∧ ∀ x, d ≤ x → (x ∈ (quorum needed Ps).docs ↔ x ∈ D)

theorem faithful_standsIn (silent : ∀ P ∈ Ps, P.Silent) (positive : 0 < needed)
    (D : Set DocId) : Faithful (quorum needed Ps) D (StandsIn (σ := σ) needed Ps D) :=
  (faithful_standing silent positive).narrow

/-- The count of the alternatives that contain the document stood on. -/
theorem Standing.matched_eq (h : Standing needed Ps d v T) :
    T.matched = (meeting {d} Ps).length := by
  obtain ⟨f, running, -, ⟨-, live, lost, passed⟩, -⟩ := h
  rw [← passed.matched]
  simp only [Threshold.matched, running]

/-- Each alternative in turn is put on its first document and into the queue. -/
theorem gather_spec {Qs : List Prospect} {ps : List σ} (waits : List.Forall₂ Waits Qs ps)
    {q : CursorQueue σ} (live : List (Prospect × Entry σ)) (lost : List Prospect)
    (holds : Holds q (live.map Prod.snd)) (field : Field Set.univ live lost)
    (room : live.length + ps.length ≤ q.capacity) :
    ∃ q' live' lost', gather q live.length ps = .done (q', live'.length) () ∧
      Holds q' (live'.map Prod.snd) ∧ Field Set.univ live' lost' ∧
      (prospects live' lost').Perm (prospects live lost ++ Qs) ∧
      q'.movesLeft ≤ q.movesLeft + movesLeftInAll 1 ps := by
  induction waits generalizing q live lost with
  | nil => exact ⟨q, live, lost, rfl, holds, field, by simp, Nat.le_refl _⟩
  | @cons P p Qs ps waits _ ih =>
      rw [List.length_cons] at room
      have space : (live.map Prod.snd).length < q.capacity := by
        rw [List.length_map]
        omega
      have before := holds.movesLeft_eq
      cases waits.next with
      | found d c eq least stood =>
          obtain ⟨q₁, eq₁, capacity, holds₁⟩ := holds.insert space waits.doc eq
          have place : Cursor.doc c = d := faithful_stands.doc stood.1
          rw [place, if_pos rfl] at holds₁
          have first : IsLeast (P.docs ∩ Set.univ) d := by rwa [Set.inter_univ]
          obtain ⟨q', live', lost', eq', holds', field', perm, moves⟩ :=
            ih ((P, ⟨c, d⟩) :: live) lost holds₁
              ⟨List.forall_mem_cons.mpr ⟨stood.1, field.stands⟩,
                List.forall_mem_cons.mpr ⟨first, field.least⟩, field.empty⟩
              (by rw [List.length_cons]; omega)
          refine ⟨q', live', lost', ?_, holds', field', ?_, ?_⟩
          · rw [gather, eq₁, Outcome.bind_done]
            exact eq'
          · exact perm.trans List.perm_middle.symm
          · have after := holds₁.movesLeft_eq
            have fewer := stood.2
            simp only [List.map_cons, movesLeftInAll] at after moves ⊢
            omega
      | missed c eq empty =>
          obtain ⟨q₁, eq₁, capacity, holds₁⟩ := holds.insert space waits.doc eq
          rw [if_neg Bool.false_ne_true] at holds₁
          have none : P.docs ∩ Set.univ = ∅ := by rwa [Set.inter_univ]
          obtain ⟨q', live', lost', eq', holds', field', perm, moves⟩ :=
            ih live (lost ++ [P]) holds₁
              ⟨field.stands, field.least,
                List.forall_mem_append.mpr ⟨field.empty, by simpa using none⟩⟩
              (by omega)
          refine ⟨q', live', lost', ?_, holds', field', ?_, ?_⟩
          · rw [gather, eq₁, Outcome.bind_done]
            exact eq'
          · simpa [prospects] using perm
          · have after := holds₁.movesLeft_eq
            simp only [movesLeftInAll] at moves ⊢
            omega

/-- A threshold over alternatives that have not started. -/
def ofWaiting (needed : Nat) (ps : List σ) : Threshold σ where
  needed
  arity := ps.length
  stage := .waiting ps

/-- Gathering leaves a front that may search everywhere. -/
theorem start_waiting (needed : Nat) {ps : List σ} (waits : List.Forall₂ Waits Ps ps) :
    ∃ f live lost, (ofWaiting needed ps).start = .done ((ofWaiting needed ps).withFront f) f ∧
      Gathered Ps Set.univ f live lost ∧ f.current = .beforeFirst ∧
      f.movesLeft < Cursor.movesLeft (ofWaiting needed ps) := by
  obtain ⟨q, live, lost, eq, holds, field, perm, moves⟩ :=
    gather_spec waits [] [] (holds_empty ps.length) ⟨by simp, by simp, by simp⟩
      (Nat.le_of_eq (Nat.zero_add _))
  refine ⟨⟨q, live.length, .beforeFirst, 0, 0⟩, live, lost, ?_, ⟨perm, holds, field, rfl⟩, rfl, ?_⟩
  · rw [List.length_nil] at eq
    simp only [start, ofWaiting, eq, Outcome.bind_done, withFront]
  · exact Nat.lt_succ_of_le (Nat.le_trans moves (Nat.le_of_eq (Nat.zero_add _)))

/-- A threshold that starts by a search from everywhere. -/
theorem Gathered.starts {T' : Threshold σ} (gathered : Gathered Ps Set.univ f live lost)
    (eq : T.start = .done T' f) (needs : T'.needed = needed) (current : f.current = .beforeFirst)
    (moves : f.movesLeft ≤ Cursor.movesLeft T) (silent : ∀ P ∈ Ps, P.Silent)
    (positive : 0 < needed) :
    Starts (quorum needed Ps) (StandsIn needed Ps) T := by
  constructor
  case next =>
    rw [← Set.inter_univ (quorum needed Ps).docs]
    simp only [Cursor.next, Threshold.next, eq, Outcome.andThen_done]
    apply (gathered.next isUpperSet_univ silent positive needs).imp
    intro d T _ stood
    exact ⟨⟨stood.1, fun _ _ => (and_iff_left trivial).symm⟩, Nat.lt_of_lt_of_le stood.2 moves⟩
  case seek =>
    intro t nonneg
    have later : f.current < t := by
      rw [current]
      exact DocId.beforeFirst_lt nonneg
    simp only [Cursor.seek, Threshold.seek, eq, Outcome.andThen_done]
    refine (gathered.seek (Set.subset_univ _) later silent positive needs).imp
      fun d T least stood => ⟨⟨stood.1, fun x le => ?_⟩, Nat.lt_of_lt_of_le stood.2 moves⟩
    exact (and_iff_left (Int32.le_trans least.1.2 le)).symm

/-- A threshold over alternatives that keep their promises keeps its own. -/
theorem starts_ofWaiting {ps : List σ} (waits : List.Forall₂ Waits Ps ps)
    (silent : ∀ P ∈ Ps, P.Silent) (positive : 0 < needed) :
    Starts (quorum needed Ps) (StandsIn needed Ps) (ofWaiting needed ps) := by
  obtain ⟨f, live, lost, eq, gathered, current, moves⟩ := start_waiting needed waits
  exact gathered.starts eq rfl current (Nat.le_of_lt moves) silent positive

theorem begins_ofWaiting {ps : List σ} (waits : List.Forall₂ Waits Ps ps)
    (silent : ∀ P ∈ Ps, P.Silent) (positive : 0 < needed) :
    Begins (quorum needed Ps) (ofWaiting needed ps) :=
  (starts_ofWaiting waits silent positive).begins (faithful_standsIn silent positive)

/-- Sought before all documents, a threshold gathers its alternatives without going on from there,
or finds that too few of them have documents. -/
theorem seek_beforeFirst {ps : List σ} (waits : List.Forall₂ Waits Ps ps)
    (silent : ∀ P ∈ Ps, P.Silent) (positive : 0 < needed) :
    (∃ T, Cursor.seek (ofWaiting needed ps) .beforeFirst = .done T true ∧
      Cursor.doc T = .beforeFirst ∧ Starts (quorum needed Ps) (StandsIn needed Ps) T) ∨
    ∃ T, Cursor.seek (ofWaiting needed ps) .beforeFirst = .done T false ∧
      (quorum needed Ps).docs = ∅ := by
  obtain ⟨f, live, lost, eq, gathered, current, -⟩ := start_waiting needed waits
  simp only [Cursor.seek, Threshold.seek, eq, Outcome.andThen_done]
  by_cases few : f.live < needed
  · refine .inr ⟨_, if_pos few, ?_⟩
    rw [← Set.inter_univ (quorum needed Ps).docs]
    exact quorum_inter_eq_empty (gathered.meeting_length ▸ few)
  · refine .inl ⟨_, (if_neg few).trans (if_pos (current ▸ Int32.le_refl _)), current, ?_⟩
    exact gathered.starts (start_running rfl) rfl current (Nat.le_refl _) silent positive

omit [Cursor σ] in
/-- At least two alternatives, and at least one of them needed, make a threshold. -/
theorem ofAlternatives_eq {ps : List σ} (several : 1 < ps.length) (positive : 0 < needed) :
    ofAlternatives ps needed = .ok (ofWaiting needed ps) := by
  rw [ofAlternatives, if_neg (Nat.pos_iff_ne_zero.mp positive), if_neg (Nat.not_le.mpr several)]
  rfl

end Threshold

end Retrieval
