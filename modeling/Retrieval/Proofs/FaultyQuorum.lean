import Retrieval.Proofs.Quorum
import Retrieval.Proofs.Source

/-!
# No failure makes up a match

A move of a threshold can fail in the middle: when the candidate's first alternative is scored, when
a further one is, or when one is moved past the candidate. Then some alternatives are past the
candidate and others still on it, and the next move tries the same candidate again with those that
are left. So a document may be missed, but a match is never made up: what has been counted and added
for a document is that of different sources that have it, and once the document is found, none of
them is left on it.
-/

namespace Retrieval

namespace Cursor

/-- Where those of so many moves to the next document lead that find one. The moves are made one
after the other, whatever they answer. -/
def finds {σ : Type} [Cursor σ] : Nat → σ → List σ
  | 0, _ => []
  | n + 1, c =>
    match (Cursor.next c).answer with
    | .ok true => (Cursor.next c).state :: finds n (Cursor.next c).state
    | _ => finds n (Cursor.next c).state

end Cursor

namespace Threshold

open Cursor CursorQueue Outcome

/-- A source and the entry of its cursor. -/
abbrev Row := Source × Entry (PostingCursor ⊕ Faulty PostingCursor)

variable {sources owners chosen : List Source} {rows rows' others : List Row} {x : Row}
variable {q : CursorQueue (PostingCursor ⊕ Faulty PostingCursor)} {d last : DocId}
variable {W W' : Set DocId} {needed : Nat}

/-- A queue of cursors of different sources, each of which stands where its entry says. -/
structure Seated (sources : List Source)
    (q : CursorQueue (PostingCursor ⊕ Faulty PostingCursor)) (rows : List Row) : Prop where
  holds : Holds q (rows.map Prod.snd)
  owners : (rows.map Prod.fst).Subperm sources
  on : ∀ r ∈ rows, r.1.On r.2.doc r.2.cursor

/-- Such a queue with a first cursor and others. -/
structure Headed (sources : List Source)
    (q : CursorQueue (PostingCursor ⊕ Faulty PostingCursor)) (x : Row) (others : List Row) : Prop
    where
  fronts : Fronts q x.2 (others.map Prod.snd)
  owners : ((x :: others).map Prod.fst).Subperm sources
  on : x.1.On x.2.doc x.2.cursor
  others : ∀ r ∈ others, r.1.On r.2.doc r.2.cursor

theorem Headed.seated (h : Headed sources q x others) : Seated sources q (x :: others) :=
  ⟨h.fronts.holds, h.owners, List.forall_mem_cons.mpr ⟨h.on, h.others⟩⟩

theorem Seated.headed (h : Seated sources q rows) (nonempty : rows ≠ []) :
    ∃ x others, rows.Perm (x :: others) ∧ Headed sources q x others ∧
      ∀ y ∈ rows, x.2.doc ≤ y.2.doc := by
  obtain ⟨x, others, perm, fronts, first⟩ := exists_front h.holds nonempty
  obtain ⟨on, rest⟩ := List.forall_mem_cons.mp fun r inside => h.on r (perm.mem_iff.mpr inside)
  have owners := (perm.map Prod.fst).symm.subperm.trans h.owners
  exact ⟨x, others, perm, ⟨fronts, owners, on, rest⟩, first⟩

/-- What a move of the first cursor leaves. -/
inductive NextTop (sources : List Source) (x : Row) (others : List Row) :
    Option Bool → CursorQueue (PostingCursor ⊕ Faulty PostingCursor) → Prop
  | failed {q : CursorQueue _} {e : Entry _} (seated : Seated sources q ((x.1, e) :: others))
      (stays : e.doc = x.2.doc) : NextTop sources x others none q
  | moved {q : CursorQueue _} {e : Entry _} (seated : Seated sources q ((x.1, e) :: others))
      (later : x.2.doc < e.doc) : NextTop sources x others (some true) q
  | dropped {q : CursorQueue _} (seated : Seated sources q others) :
      NextTop sources x others (some false) q

theorem Headed.nextTop (h : Headed sources q x others) :
    q.nextTop.Tries (NextTop sources x others) := by
  have seated : ∀ {q : CursorQueue _} {e : Entry (PostingCursor ⊕ Faulty PostingCursor)},
      Holds q (e :: others.map Prod.snd) → x.1.On e.doc e.cursor →
        Seated sources q ((x.1, e) :: others) :=
    fun holds on => ⟨holds, h.owners, List.forall_mem_cons.mpr ⟨on, h.others⟩⟩
  rw [CursorQueue.nextTop, CursorQueue.moveTop, h.fronts.top?_eq]
  refine h.on.next.bind (fun c steps => ?_) fun found c steps => .answered ?_
  · cases steps with
    | failed stays => exact .failed (seated (h.fronts.withTop c).holds stays) rfl
  · have front := h.fronts.withTop c
    cases steps with
    | @found _ d' stands later =>
        obtain rfl : Cursor.doc c = d' := Source.On.doc_eq stands
        exact .moved (seated front.settleTop stands) later
    | missed =>
        have rest := ((List.sublist_cons_self x.1 _).subperm).trans h.owners
        exact .dropped ⟨front.dropTop, rest, h.others⟩

theorem Headed.topScore (h : Headed sources q x others) : q.topScore.Tries fun v q' =>
    (∃ c, Headed sources q' (x.1, ⟨c, x.2.doc⟩) others) ∧
      ∀ w, v = some w → x.1.term.score? x.2.doc = some w := by
  rw [CursorQueue.topScore, h.fronts.top?_eq]
  exact h.on.score.within fun v c left =>
    ⟨⟨c, h.fronts.withTop c, h.owners, left.1, h.others⟩, left.2⟩

/-- Those chosen so far and those that stand on `d` are different sources that have `d`. -/
def Fair (sources : List Source) (d : DocId) (chosen : List Source) (rows : List Row) : Prop :=
  (chosen ++ (rows.filter (·.2.doc = d)).map Prod.fst).Subperm
    (sources.filter (·.term.isMatch d))

theorem Seated.fair (h : Seated sources q rows) : Fair sources d [] rows := by
  have have_d : ((rows.filter (·.2.doc = d)).map Prod.fst).filter (·.term.isMatch d) =
      (rows.filter (·.2.doc = d)).map Prod.fst := by
    refine List.filter_eq_self.mpr (List.forall_mem_map.mpr fun r inside => ?_)
    obtain ⟨there, same⟩ := List.mem_filter.mp inside
    exact of_decide_eq_true same ▸ (h.on r there).isMatch
  have few : ((rows.filter (·.2.doc = d)).map Prod.fst).Subperm sources :=
    (List.filter_sublist.map Prod.fst).subperm.trans h.owners
  rw [Fair, List.nil_append, ← have_d]
  exact few.filter _

theorem Fair.of_perm (h : Fair sources d chosen rows) (perm : rows.Perm rows') :
    Fair sources d chosen rows' :=
  ((((perm.filter _).map Prod.fst).append_left chosen).symm.subperm).trans h

theorem Fair.choose (h : Fair sources d chosen (x :: others)) (on : x.2.doc = d) :
    Fair sources d (chosen ++ [x.1]) others := by
  rwa [Fair, List.filter_cons_of_pos (by simpa using on), List.map_cons, List.append_cons] at h

theorem Fair.pass (h : Fair sources d chosen others) (off : x.2.doc ≠ d) :
    Fair sources d chosen (x :: others) := by
  rwa [Fair, List.filter_cons_of_neg (by simpa using off)]

theorem Fair.subperm (h : Fair sources d chosen rows) :
    chosen.Subperm (sources.filter (·.term.isMatch d)) :=
  (List.sublist_append_left _ _).subperm.trans h

namespace Front

variable {f : Front (PostingCursor ⊕ Faulty PostingCursor)}

/-- The sources chosen for the document `d` are counted, and their scores are added. -/
structure Tallied (d : DocId) (chosen : List Source)
    (f : Front (PostingCursor ⊕ Faulty PostingCursor)) : Prop where
  current : f.current = d
  matched : f.matched = chosen.length
  total : ∃ v vs, chosen.filterMap (·.term.score? d) = v :: vs ∧ f.total = vs.foldl (· + ·) v

/-- All alternatives that are left are counted, and stand within `W`. -/
def Left (sources : List Source) (W : Set DocId)
    (f : Front (PostingCursor ⊕ Faulty PostingCursor)) : Prop :=
  ∃ rows, Seated sources f.queue rows ∧ f.live = rows.length ∧ ∀ r ∈ rows, r.2.doc ∈ W

theorem Left.mono (h : f.Left sources W) (sub : W ⊆ W') : f.Left sources W' := by
  obtain ⟨rows, seated, live, within⟩ := h
  exact ⟨rows, seated, live, fun r inside => sub (within r inside)⟩

/-- What is known while the alternatives are moved past the document `d`: none of those in the queue
has been chosen. -/
structure Choosing (sources : List Source) (d : DocId) (chosen : List Source) (rows : List Row)
    (f : Front (PostingCursor ⊕ Faulty PostingCursor)) : Prop where
  seated : Seated sources f.queue rows
  live : f.live = rows.length
  notBefore : ∀ r ∈ rows, d ≤ r.2.doc
  tallied : f.Tallied d chosen
  fair : Fair sources d chosen rows

/-- The same, but the first one in the queue has just been chosen. -/
structure Counting (sources : List Source) (d : DocId) (chosen : List Source) (x : Row)
    (others : List Row) (f : Front (PostingCursor ⊕ Faulty PostingCursor)) : Prop where
  headed : Headed sources f.queue x others
  live : f.live = others.length + 1
  on : x.2.doc = d
  notBefore : ∀ r ∈ others, d ≤ r.2.doc
  tallied : f.Tallied d chosen
  fair : Fair sources d chosen others

/-- When the alternatives have been moved past a document, some sources that have it are counted. -/
structure Past (sources : List Source) (d : DocId)
    (f : Front (PostingCursor ⊕ Faulty PostingCursor)) : Prop where
  left : f.Left sources (beyond d)
  tallied : ∃ chosen, f.Tallied d chosen ∧ chosen.Subperm (sources.filter (·.term.isMatch d))

theorem Choosing.left (h : f.Choosing sources d chosen rows) : f.Left sources (since d) :=
  ⟨rows, h.seated, h.live, h.notBefore⟩

theorem Counting.left (h : f.Counting sources d chosen x others) : f.Left sources (since d) :=
  ⟨_, h.headed.seated, h.live, List.forall_mem_cons.mpr ⟨Int32.le_of_eq h.on.symm, h.notBefore⟩⟩

/-- If no alternative is left on the document, the choice is made. -/
theorem Choosing.past (h : f.Choosing sources d chosen rows) (off : ∀ r ∈ rows, r.2.doc ≠ d) :
    f.Past sources d where
  left := ⟨rows, h.seated, h.live, fun r inside =>
    Int32.lt_of_le_of_ne (h.notBefore r inside) (off r inside).symm⟩
  tallied := ⟨chosen, h.tallied, h.fair.subperm⟩

theorem Tallied.withQueue (h : f.Tallied d chosen)
    (queue : CursorQueue (PostingCursor ⊕ Faulty PostingCursor)) :
    (f.withQueue queue).Tallied d chosen :=
  ⟨h.current, h.matched, h.total⟩

theorem Tallied.lose (h : f.Tallied d chosen) : f.lose.Tallied d chosen :=
  ⟨h.current, h.matched, h.total⟩

/-- Choosing the first alternative once it has been scored. -/
theorem Tallied.choose (h : f.Tallied d chosen) {s : Source} {v : Score}
    (scored : s.term.score? d = some v)
    (queue : CursorQueue (PostingCursor ⊕ Faulty PostingCursor)) :
    Tallied d (chosen ++ [s])
      { f with queue, total := f.total + v, matched := f.matched + 1 } := by
  obtain ⟨w, ws, listed, total⟩ := h.total
  refine ⟨h.current, ?_, w, ws ++ [v], ?_, ?_⟩
  · rw [List.length_append, h.matched]
    rfl
  · simp [listed, scored]
  · rw [List.foldl_append, total]
    rfl

/-- Each alternative is counted and added once, and is not on the document any more then. The
induction is on the number of further moves. -/
theorem Counting.absorb (bound : Nat) (h : f.Counting sources d chosen x others) :
    (f.absorb bound).Tries fun answer f' =>
      f'.Left sources (since d) ∧ (answer = some () → f'.Past sources d) := by
  induction bound generalizing f chosen x others with
  | zero => exact .failed ⟨h.left, no_answer⟩ trivial
  | succ bound ih =>
      -- What is done once the alternative in front has been moved or dropped.
      have onward : ∀ {g : Front (PostingCursor ⊕ Faulty PostingCursor)} {rows : List Row},
          g.Choosing sources d chosen rows → rows ≠ [] →
          (if g.queue.topDoc ≠ g.current then .done g () else
            g.queue.topScore.bind g.withQueue fun score queue => absorb bound
              { g with queue, total := g.total + score, matched := g.matched + 1 } :
            Outcome (Front (PostingCursor ⊕ Faulty PostingCursor)) Unit).Tries fun answer f' =>
              f'.Left sources (since d) ∧ (answer = some () → f'.Past sources d) := by
        intro g rows choosing nonempty
        obtain ⟨y, rest, perm, headed, first⟩ := choosing.seated.headed nonempty
        have current := choosing.tallied.current
        rw [headed.fronts.topDoc_eq]
        split
        · next off =>
          have later : d < y.2.doc := Int32.lt_of_le_of_ne
            (choosing.notBefore y (perm.mem_iff.mpr List.mem_cons_self)) (current ▸ off.symm)
          refine .answered ⟨choosing.left, fun _ => choosing.past fun r inside => ?_⟩
          exact (Int32.ne_of_lt (Int32.lt_of_lt_of_le later (first r inside))).symm
        · next on =>
          have on : y.2.doc = d := (not_not.mp on).trans current
          have live : g.live = rest.length + 1 := choosing.live.trans perm.length_eq
          have notBefore : ∀ r ∈ rest, d ≤ r.2.doc := fun r inside =>
            choosing.notBefore r (perm.mem_iff.mpr (List.mem_cons_of_mem y inside))
          have fair := (choosing.fair.of_perm perm).choose on
          refine headed.topScore.bind (fun queue scored => ⟨?_, no_answer⟩)
            fun v queue scored => ?_
          · obtain ⟨⟨c, headed'⟩, -⟩ := scored
            exact ⟨_, headed'.seated, live,
              List.forall_mem_cons.mpr ⟨Int32.le_of_eq on.symm, notBefore⟩⟩
          · obtain ⟨⟨c, headed'⟩, given⟩ := scored
            exact ih ⟨headed', live, on, notBefore,
              choosing.tallied.choose (on ▸ given v rfl) queue, fair⟩
      rw [Front.absorb]
      refine h.headed.nextTop.bind (fun queue moved => ⟨?_, no_answer⟩) fun found queue moved => ?_
      · cases moved with
        | failed seated stays =>
            exact ⟨_, seated, h.live, List.forall_mem_cons.mpr
              ⟨Int32.le_of_eq (stays.trans h.on).symm, h.notBefore⟩⟩
      · cases moved with
        | @moved _ e seated later =>
            have later : d < e.doc := h.on ▸ later
            have left : (f.withQueue queue).Choosing sources d chosen ((x.1, e) :: others) :=
              ⟨seated, h.live, List.forall_mem_cons.mpr ⟨Int32.le_of_lt later, h.notBefore⟩,
                h.tallied.withQueue queue, h.fair.pass (Int32.ne_of_lt later).symm⟩
            exact onward left (List.cons_ne_nil _ _)
        | dropped seated =>
            have choosing : (f.withQueue queue).lose.Choosing sources d chosen others :=
              ⟨seated, congrArg (· - 1) h.live, h.notBefore, (h.tallied.withQueue queue).lose,
                h.fair⟩
            simp only [Bool.false_eq_true, if_false, Bool.not_false, Bool.true_and]
            split
            · next none =>
              have empty : others = [] := by
                simpa [choosing.live] using none
              refine .answered ⟨choosing.left, fun _ => choosing.past ?_⟩
              rw [empty]
              exact List.forall_mem_nil _
            · next left =>
              refine onward choosing ?_
              rintro rfl
              exact left (by simp [choosing.live])

/-- The first document of the queue becomes the candidate. It is after all that have been found. -/
theorem Left.propose (h : f.Left sources (beyond last)) (some : 0 < f.live) :
    f.propose.Tries fun answer f' => f'.Left sources (beyond last) ∧ (answer = .some () →
      ∃ d chosen x others, last < d ∧ f'.Counting sources d chosen x others) := by
  obtain ⟨rows, seated, live, later⟩ := h
  have nonempty : rows ≠ [] := by
    rintro rfl
    exact Nat.ne_of_gt some live
  obtain ⟨x, others, perm, headed, first⟩ := seated.headed nonempty
  have live' : f.live = others.length + 1 := live.trans perm.length_eq
  obtain ⟨after, later'⟩ := List.forall_mem_cons.mp fun r inside =>
    later r (perm.mem_iff.mpr inside)
  have notBefore : ∀ r ∈ others, x.2.doc ≤ r.2.doc := fun r inside =>
    first r (perm.mem_iff.mpr (List.mem_cons_of_mem x inside))
  have fair := (seated.fair.of_perm perm).choose rfl
  rw [Front.propose]
  refine headed.topScore.bind (fun queue scored => ⟨?_, no_answer⟩)
    fun v queue scored => .answered ?_
  · obtain ⟨⟨c, headed'⟩, -⟩ := scored
    exact ⟨_, headed'.seated, live', List.forall_mem_cons.mpr ⟨after, later'⟩⟩
  · obtain ⟨⟨c, headed'⟩, given⟩ := scored
    refine ⟨⟨_, headed'.seated, live', List.forall_mem_cons.mpr ⟨after, later'⟩⟩, fun _ => ?_⟩
    have tallied : Tallied x.2.doc [x.1]
        { f with queue, current := f.queue.topDoc, total := v, matched := 1 } :=
      ⟨headed.fronts.topDoc_eq, rfl, v, [], by simp [given v rfl], rfl⟩
    exact ⟨x.2.doc, [x.1], _, others, after, headed', live', rfl, notBefore, tallied, fair⟩

/-- What the search for a document leaves of a front that has got as far as `last`. -/
inductive Sought (sources : List Source) (needed : Nat) (last : DocId) :
    Option Bool → Front (PostingCursor ⊕ Faulty PostingCursor) → Prop
  | going {found : Option Bool} {f : Front (PostingCursor ⊕ Faulty PostingCursor)}
      (none : found ≠ some true) (left : f.Left sources (beyond last)) :
      Sought sources needed last found f
  | found {f : Front (PostingCursor ⊕ Faulty PostingCursor)} (later : last < f.current)
      (past : f.Past sources f.current) (enough : needed ≤ f.matched) :
      Sought sources needed last (some true) f

theorem Left.search (bound : Nat) (positive : 0 < needed) (h : f.Left sources (beyond last))
    (enough : needed ≤ f.live) : (f.search needed bound).Tries (Sought sources needed last) := by
  induction bound generalizing f with
  | zero => exact .failed (.going (by simp) h) trivial
  | succ bound ih =>
      rw [Front.search]
      refine (h.propose (Nat.lt_of_lt_of_le positive enough)).bind
        (fun f' proposed => .going (by simp) proposed.1) fun _ f' proposed => ?_
      obtain ⟨d, chosen, x, others, later, counting⟩ := proposed.2 rfl
      have still : ∀ {f : Front (PostingCursor ⊕ Faulty PostingCursor)},
          f.Left sources (since d) → f.Left sources (beyond last) :=
        fun left => left.mono fun e notBefore => Int32.lt_of_lt_of_le later notBefore
      refine (counting.absorb _).bind (fun f'' left => .going (by simp) (still left.1))
        fun _ f'' left => ?_
      have past := left.2 rfl
      split
      · next met =>
        obtain ⟨chosen', tallied, -⟩ := past.tallied
        obtain rfl := tallied.current
        exact .answered (.found later past met)
      · split
        · exact .answered (.going (by simp) (still left.1))
        · next enough' => exact ih (still left.1) (Nat.not_lt.mp enough')

end Front

variable {T : Threshold (PostingCursor ⊕ Faulty PostingCursor)}
variable {f : Front (PostingCursor ⊕ Faulty PostingCursor)}

/-- A threshold over sources that has got as far as `last`: it is still to gather those of them that
no failure has cost it, or some of them are left behind `last`. -/
inductive Reached (sources : List Source) (last : DocId) :
    Stage (PostingCursor ⊕ Faulty PostingCursor) → Prop
  | waiting {owners : List Source} (owned : owners.Subperm sources)
      (unmoved : last = .beforeFirst) : Reached sources last (.waiting (owners.map Source.cursor))
  | running {f : Front (PostingCursor ⊕ Faulty PostingCursor)}
      (left : f.Left sources (beyond last)) : Reached sources last (.running f)

/-- What a threshold over sources says of a document that it has found. -/
structure Met (needed : Nat) (sources : List Source)
    (T : Threshold (PostingCursor ⊕ Faulty PostingCursor)) : Prop where
  /-- Enough sources have it. -/
  enough : needed ≤ sources.countP (·.term.isMatch (Cursor.doc T))
  /-- Enough of them are counted, and none that does not have it. -/
  matched_ge : needed ≤ T.matched
  matched_le : T.matched ≤ sources.countP (·.term.isMatch (Cursor.doc T))
  /-- The score is a sum of the scores of as many different sources that have it as are counted. -/
  score : ∃ (chosen : List Source) (v : Score),
    chosen.Subperm (sources.filter (·.term.isMatch (Cursor.doc T))) ∧
    chosen.length = T.matched ∧ (Cursor.score T).answer = .ok v ∧
    AddsUp (chosen.filterMap (·.term.score? (Cursor.doc T))) v

theorem met_withFront (T : Threshold (PostingCursor ⊕ Faulty PostingCursor))
    (past : f.Past sources f.current) (enough : needed ≤ f.matched) :
    Met needed sources (T.withFront f) := by
  obtain ⟨chosen, tallied, subperm⟩ := past.tallied
  have few : f.matched ≤ sources.countP (·.term.isMatch f.current) := by
    rw [tallied.matched, List.countP_eq_length_filter]
    exact subperm.length_le
  obtain ⟨v, vs, listed, total⟩ := tallied.total
  exact ⟨Nat.le_trans enough few, enough, few, chosen, f.total, subperm, tallied.matched.symm, rfl,
    v, vs, .of_eq listed.symm, total⟩

/-- A source is put into the queue on its first document. -/
theorem insert_cursor {entries : List (Entry (PostingCursor ⊕ Faulty PostingCursor))}
    (holds : Holds q entries) (s : Source) : (q.insert s.cursor).Tries fun found q' =>
      (found = some false → Holds q' entries) ∧
      (found = some true → ∃ e, s.On e.doc e.cursor ∧ Holds q' (e :: entries)) := by
  rw [CursorQueue.insert, if_pos s.doc_cursor]
  split
  · exact .failed ⟨no_answer, no_answer⟩ trivial
  · refine s.next_cursor.bind (fun _ _ => ⟨no_answer, no_answer⟩) fun found c stands =>
      .answered ?_
    cases found with
    | false => exact ⟨fun _ => holds, not_found⟩
    | true =>
        obtain ⟨d, on⟩ := stands rfl
        obtain rfl := on.doc_eq
        refine ⟨fun missed => absurd missed (by simp), fun _ => ?_⟩
        exact ⟨⟨c, Cursor.doc c⟩, on, holds.push _⟩

/-- Gathering puts all of them into the queue, but those that have no documents. -/
theorem gather_tries (on : ∀ r ∈ rows, r.1.On r.2.doc r.2.cursor)
    (holds : Holds q (rows.map Prod.snd)) (owned : (rows.map Prod.fst ++ owners).Subperm sources) :
    (gather q rows.length (owners.map Source.cursor)).Tries fun answer gathered =>
      answer = some () → ∃ rows', Seated sources gathered.1 rows' ∧ gathered.2 = rows'.length := by
  induction owners generalizing q rows with
  | nil =>
      rw [List.append_nil] at owned
      exact .answered fun _ => ⟨rows, ⟨holds, owned, on⟩, rfl⟩
  | cons s rest ih =>
      rw [List.map_cons, gather]
      refine (insert_cursor holds s).bind (fun _ _ => no_answer) fun found queue left => ?_
      cases found with
      | false =>
          have fewer := ((List.sublist_cons_self s rest).append_left _).subperm.trans owned
          exact ih on (left.1 rfl) fewer
      | true =>
          obtain ⟨e, stands, holds'⟩ := left.2 rfl
          have on' : ∀ r ∈ (s, e) :: rows, r.1.On r.2.doc r.2.cursor :=
            List.forall_mem_cons.mpr ⟨stands, on⟩
          exact ih on' holds' (List.perm_middle.symm.subperm.trans owned)

/-- If gathering fails, no source is left. -/
theorem Reached.start (reached : Reached sources last T.stage) : T.start.Tries fun front T' =>
    T'.needed = T.needed ∧ Reached sources last T'.stage ∧
      ∀ f, front = some f → T'.stage = .running f ∧ f.Left sources (beyond last) := by
  obtain ⟨needed, arity, stage⟩ := T
  rw [Threshold.start]
  cases reached with
  | running left =>
      refine .answered ⟨rfl, .running left, ?_⟩
      rintro _ ⟨rfl⟩
      exact ⟨rfl, left⟩
  | waiting owned unmoved =>
      have none : ∀ r ∈ ([] : List Row), r.1.On r.2.doc r.2.cursor := List.forall_mem_nil _
      have lost : Reached sources last (.waiting (([] : List Source).map Source.cursor)) :=
        .waiting List.nil_subperm unmoved
      refine (gather_tries none (holds_empty arity) owned).bind
        (fun _ _ => ⟨rfl, lost, fun _ => no_answer⟩) fun _ gathered left => .answered ?_
      obtain ⟨rows, seated, live⟩ := left rfl
      have left : Front.Left sources (beyond last) ⟨gathered.1, gathered.2, .beforeFirst, 0, 0⟩ :=
        ⟨rows, seated, live, fun r inside => unmoved ▸ (seated.on r inside).beforeFirst_lt⟩
      refine ⟨rfl, .running left, ?_⟩
      rintro _ ⟨rfl⟩
      exact ⟨rfl, left⟩

/-- A move to the next document, which may fail anywhere. -/
theorem Reached.next (positive : 0 < T.needed) (reached : Reached sources last T.stage) :
    (Cursor.next T).Tries fun found T' => T'.needed = T.needed ∧
      (found ≠ some true → Reached sources last T'.stage) ∧
      (found = some true → last < Cursor.doc T' ∧ Reached sources (Cursor.doc T') T'.stage ∧
        Met T.needed sources T') := by
  show T.next.Tries _
  rw [Threshold.next]
  refine reached.start.bind (fun T' left => ⟨left.1, fun _ => left.2.1, no_answer⟩)
    fun f T' left => ?_
  obtain ⟨same, reached', running⟩ := left
  split
  · exact .answered ⟨same, fun _ => reached', not_found⟩
  · next enough =>
    have left := (running f rfl).2
    refine (left.search _ (same ▸ positive) (Nat.not_lt.mp enough)).within fun found f' sought => ?_
    cases sought with
    | going none left => exact ⟨same, fun _ => .running left, fun some => absurd some none⟩
    | found later past enough =>
        refine ⟨same, fun none => absurd rfl none, fun _ => ⟨later, .running past.left, ?_⟩⟩
        exact met_withFront T' past (same ▸ enough)

/-- A threshold that decides alone and is never sent to a target finds what enough sources have,
whatever fails. -/
theorem vouches_sources {targets : Prop} (none : ¬ targets) (positive : 0 < needed)
    (sources : List Source) :
    Vouches targets {d | needed ≤ sources.countP (·.term.isMatch d)} 0
      (ofWaiting needed (sources.map Source.cursor)) := by
  let good (r : DocId) (T : Threshold (PostingCursor ⊕ Faulty PostingCursor)) : Prop :=
    T.needed = needed ∧ ∃ last, Reached sources last T.stage ∧ ∀ d, last < d → r ≤ d
  refine ⟨good, ⟨?_⟩, rfl, .beforeFirst, .waiting (.refl sources) rfl,
    fun d => DocId.nonneg_of_beforeFirst_lt⟩
  rintro r T move ⟨rfl, last, reached, notBefore⟩ permitted
  cases move with
  | seek t => exact absurd permitted.1 none
  | next =>
      refine (reached.next positive).imp fun found T' left => ?_
      obtain ⟨same, going, stands⟩ := left
      obtain _ | _ | _ := found
      · exact .failed ⟨same, last, going (by simp), notBefore⟩
      · exact .missed
      · obtain ⟨later, reached', met⟩ := stands rfl
        exact .found ⟨same, _, reached', fun _ => Int32.le_of_lt⟩ met.enough (notBefore _ later)

/-- The documents found are behind each other, and each is one that the threshold asks for. -/
theorem Reached.finds (positive : 0 < T.needed) (reached : Reached sources last T.stage) (n : Nat) :
    (∀ T' ∈ finds n T, last < Cursor.doc T' ∧ Met T.needed sources T') ∧
      ((finds n T).map Cursor.doc).Pairwise (· < ·) := by
  induction n generalizing T last with
  | zero => exact ⟨List.forall_mem_nil _, List.Pairwise.nil⟩
  | succ n ih =>
      have left := reached.next positive
      rw [Cursor.finds]
      generalize Cursor.next T = o at left ⊢
      cases left with
      | failed left =>
          obtain ⟨same, going, -⟩ := left
          exact same ▸ ih (same ▸ positive) (going (by simp))
      | @answered found T' _ left =>
          obtain ⟨same, going, stands⟩ := left
          cases found with
          | false => exact same ▸ ih (same ▸ positive) (going (by simp))
          | true =>
              obtain ⟨later, reached', met⟩ := stands rfl
              obtain ⟨mets, ascending⟩ := ih (same ▸ positive) reached'
              rw [same] at mets
              refine ⟨List.forall_mem_cons.mpr ⟨⟨later, met⟩, fun T'' inside => ?_⟩, ?_⟩
              · exact ⟨Int32.lt_trans later (mets T'' inside).1, (mets T'' inside).2⟩
              · exact List.pairwise_cons.mpr
                  ⟨List.forall_mem_map.mpr fun T'' inside => (mets T'' inside).1, ascending⟩

/-- Whatever fails while a threshold over posting lists is moved to the next document again and
again, the documents that it finds ascend, enough of the lists have each of them, and what is
counted and added for it is that of different lists that have it. -/
theorem met_of_finds (sources : List Source) (several : 1 < sources.length)
    (positive : 0 < needed) :
    ∃ fresh, ofAlternatives (sources.map Source.cursor) needed = .ok fresh ∧
      ∀ n, ((finds n fresh).map Cursor.doc).Pairwise (· < ·) ∧
        ∀ T ∈ finds n fresh, Met needed sources T := by
  have several' : 1 < (sources.map Source.cursor).length := by rwa [List.length_map]
  refine ⟨_, ofAlternatives_eq several' positive, fun n => ?_⟩
  have reached :
      Reached sources .beforeFirst (ofWaiting needed (sources.map Source.cursor)).stage :=
    .waiting (List.Subperm.refl sources) rfl
  obtain ⟨mets, ascending⟩ := reached.finds positive n
  exact ⟨ascending, fun T inside => (mets T inside).2⟩

/-- Three sources, the second of which fails when it is moved past its first document. -/
def unsteady : List Source :=
  [⟨⟨"first", ⟨#[⟨2, 1⟩, ⟨9, 1⟩], by decide, by decide⟩, 1⟩, none⟩,
    ⟨⟨"second", ⟨#[⟨2, 1⟩, ⟨9, 1⟩], by decide, by decide⟩, 1⟩, some (.failingNext 2)⟩,
    ⟨⟨"third", ⟨#[⟨9, 1⟩], by decide, by decide⟩, 1⟩, none⟩]

/-- When two have been counted for a document, the failure is met, and the document is missed; the
next one is found. -/
theorem met_of_finds_unsteady : ∃ fresh T, 1 < unsteady.length ∧ 0 < 2 ∧
    ofAlternatives (unsteady.map Source.cursor) 2 = .ok fresh ∧
    (Cursor.next fresh).answer = .error (.reported ⟨.other, "unavailable"⟩) ∧
    finds 2 fresh = [T] ∧ Cursor.doc T = 9 ∧ T.matched = 3 ∧ Met 2 unsteady T := by
  have several : 1 < unsteady.length := by decide
  have positive : 0 < 2 := by decide
  obtain ⟨fresh, made, found⟩ := met_of_finds unsteady several positive
  have run : (ofAlternatives (unsteady.map Source.cursor) 2).map (fun fresh =>
      ((Cursor.next fresh).answer, (finds 2 fresh).map fun T => (Cursor.doc T, T.matched))) =
        .ok (.error (.reported ⟨.other, "unavailable"⟩), [(9, 3)]) := by
    decide +kernel
  rw [made] at run
  obtain ⟨failed, finds⟩ := Prod.mk.inj (Except.ok.inj run)
  obtain ⟨T, once, place⟩ := List.map_eq_singleton_iff.mp finds
  obtain ⟨doc, matched⟩ := Prod.mk.inj place
  have met : Met 2 unsteady T := (found 2).2 T (once ▸ List.mem_singleton.mpr rfl)
  exact ⟨fresh, T, several, positive, made, failed, once, doc, matched, met⟩

end Threshold

end Retrieval
