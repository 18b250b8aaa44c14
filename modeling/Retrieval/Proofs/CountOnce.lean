import Retrieval.Proofs.Intersection
import Retrieval.Proofs.Quorum

/-!
# Counting each document once

A counted group adds to a count that it shares with others. Whatever these have done to the count in
the meantime, the first score on a document adds the number of clauses that match the document, and
neither a further score there nor a move adds anything. So nothing is added for a document that is
passed over without being scored.
-/

namespace Retrieval

namespace Tallies

theorem lookup_filter_ne {name other : String} (differs : other ≠ name)
    (entries : List (String × UInt64)) :
    (entries.filter (·.1 != name)).lookup other = entries.lookup other := by
  induction entries with
  | nil => rfl
  | cons entry entries ih =>
      obtain ⟨key, n⟩ := entry
      rw [List.filter_cons, List.lookup_cons]
      by_cases same : key = name
      · have unlike : (other == key) = false := beq_eq_false_iff_ne.mpr (same ▸ differs)
        rw [if_neg (by simp [same]), ih, unlike]
      · rw [if_pos (by simpa using same), List.lookup_cons, ih]

theorem get_add (tallies : Tallies) (name other : String) (n : UInt64) :
    (tallies.add name n).get other = tallies.get other + if other = name then n else 0 := by
  rw [add, set, get, List.lookup_cons]
  by_cases same : other = name
  · subst same
    rw [beq_self_eq_true, if_pos rfl]
    rfl
  · rw [beq_eq_false_iff_ne.mpr same, if_neg same, lookup_filter_ne same, UInt64.add_zero]
    rfl

end Tallies

/-- The counts around a cursor: that of the boolean search it is part of, and the named ones. -/
structure Counts where
  enclosing : UInt64
  named : Tallies

namespace Counts

def get (counts : Counts) : Tally → UInt64
  | .enclosing => counts.enclosing
  | .named name => counts.named.get name

def count (counts : Counts) (marks : Marks) : Counts :=
  ⟨counts.enclosing + marks.enclosing, counts.named.count marks⟩

variable {counts : Counts}

theorem count_zero : counts.count .zero = counts := by
  rw [count, Marks.zero, UInt64.add_zero]
  rfl

/-- Marks for one count add to that one only. -/
theorem get_count_of (tally other : Tally) (n : UInt64) :
    (counts.count (.of tally n)).get other = counts.get other + if other = tally then n else 0 := by
  cases tally with
  | enclosing =>
      cases other with
      | enclosing => rfl
      | named other => exact (UInt64.add_zero _).symm
  | named name =>
      cases other with
      | enclosing => rfl
      | named other =>
          refine (Tallies.get_add counts.named name other n).trans ?_
          simp only [Tally.named.injEq]
          rfl

end Counts

namespace Cursor

variable {σ : Type} [Cursor σ]

/-- The cursors that moves ahead lead to from a fresh one, each with the document that the last move
has found and the number of times that its score has been asked for. -/
inductive Scored (fresh : σ) : Option DocId → Nat → σ → Prop
  | start : Scored fresh none 0 fresh
  | next {place : Option DocId} {times : Nat} {c : σ} (run : Scored fresh place times c)
      (found : (Cursor.next c).answer = .ok true) :
      Scored fresh (some (Cursor.doc (Cursor.next c).state)) 0 (Cursor.next c).state
  | seek {place : Option DocId} {times : Nat} {c : σ} {t : DocId} (run : Scored fresh place times c)
      (later : Cursor.doc c < t) (found : (Cursor.seek c t).answer = .ok true) :
      Scored fresh (some (Cursor.doc (Cursor.seek c t).state)) 0 (Cursor.seek c t).state
  | score {d : DocId} {times : Nat} {c : σ} (run : Scored fresh (some d) times c) :
      Scored fresh (some d) (times + 1) (afterScore c)

end Cursor

open Cursor

namespace Prospect

variable {Ps : List Prospect}

/-- If no clause counts anything for the enclosing search, all together do not either. -/
theorem silent_all {factor : Score} (silent : ∀ P ∈ Ps, P.Silent) : (all factor Ps).Silent := by
  rintro d v n ⟨Qs, xs, perm, scores, -, rfl⟩
  exact (silent_scores (fun Q inside => silent Q (perm.mem_iff.mp inside)) scores).2

theorem silent_quorum {needed : Nat} : (quorum needed Ps).Silent := fun _ _ _ scored => scored.1

theorem silent_nothing : nothing.Silent := fun _ _ _ scored => scored.elim

end Prospect

namespace Counted

section Group

variable {σ : Type} [Cursor σ] {P : Prospect} {k : DocId → Nat} {tally : Tally}
variable {stands : Set DocId → DocId → Option Score → ClauseGroup σ → Prop}
variable {place : Option DocId} {times : Nat} {c : Counted σ} {g : ClauseGroup σ}

/-- What the calls on a cursor add to the counts, whatever these are: a first score on a document
`d` adds `k d` to the count of `tally`, and nothing else adds to any. -/
structure CountsOnce (k : DocId → Nat) (tally : Tally) (place : Option DocId) (times : Nat)
    (c : Counted σ) : Prop where
  doc : ∀ d, place = some d → Cursor.doc c = d
  next : ∀ counts : Counts, counts.count (Cursor.next c).marks = counts
  seek : ∀ t, Cursor.doc c < t → ∀ counts : Counts, counts.count (Cursor.seek c t).marks = counts
  score : ∀ d, place = some d → ∀ (counts : Counts) (other : Tally),
    (counts.count (Cursor.score c).marks).get other =
      counts.get other + if other = tally ∧ times = 0 then .ofNat (k d) else 0

/-- A group that can be counted: it stands before all documents, marks nothing itself, and tells on
each document `d` that `k d` of its clauses match. -/
structure Reports (P : Prospect) (stands : Set DocId → DocId → Option Score → ClauseGroup σ → Prop)
    (k : DocId → Nat) (g : ClauseGroup σ) : Prop where
  kept : ∀ D, Faithful P D (stands D)
  silent : P.Silent
  matched : ∀ {D d v g}, stands D d v g → g.matched = k d
  starts : Starts P stands g
  before : Cursor.doc g = .beforeFirst

/-- A counted group after the first score on a document, or before it. -/
inductive Noted (stands : Set DocId → DocId → Option Score → ClauseGroup σ → Prop) (tally : Tally)
    (g : ClauseGroup σ) : Option DocId → Nat → Counted σ → Prop
  | fresh : Noted stands tally g none 0 (ofGroup g tally)
  | due {D : Set DocId} {d : DocId} {v : Option Score} {c : Counted σ}
      (group : stands D d v c.group) (same : c.tally = tally) (later : c.counted < d) :
      Noted stands tally g (some d) 0 c
  | counted {D : Set DocId} {d : DocId} {v : Option Score} {times : Nat} {c : Counted σ}
      (group : stands D d v c.group) (same : c.tally = tally) (last : c.counted = d) :
      Noted stands tally g (some d) (times + 1) c

/-- A move marks nothing, and leads to documents that have not been counted. -/
theorem noted_of_finds {W : Set DocId} {m : Nat} {o : Outcome (ClauseGroup σ) Bool}
    (kept : ∀ D, Faithful P D (stands D)) {D : Set DocId} (same : c.tally = tally)
    (later : ∀ e ∈ W, 0 ≤ e → c.counted < e)
    (finds : o.Finds W fun e g => stands D e none g ∧ movesLeft g < m) :
    o.marks = .zero ∧ (o.answer = .ok true →
      Noted stands tally g (some (Cursor.doc o.state)) 0 { c with group := o.state }) := by
  cases finds with
  | found e g' eq least stood =>
      subst eq
      refine ⟨rfl, fun _ => ?_⟩
      show Noted stands tally g (some (Cursor.doc g')) 0 _
      rw [(kept D).doc stood.1]
      exact .due stood.1 same (later e least.1 ((kept D).nonneg stood.1))
  | missed g' eq _ =>
      subst eq
      exact ⟨rfl, fun found => absurd found Outcome.missed_ne_found⟩

theorem Noted.next (reports : Reports P stands k g) (h : Noted stands tally g place times c) :
    (Cursor.next c).marks = .zero ∧ ((Cursor.next c).answer = .ok true →
      Noted stands tally g (some (Cursor.doc (Cursor.next c).state)) 0 (Cursor.next c).state) := by
  cases h with
  | fresh =>
      exact noted_of_finds reports.kept rfl (fun _ _ nonneg => DocId.beforeFirst_lt nonneg)
        reports.starts.next
  | due group same later =>
      exact noted_of_finds reports.kept same (fun _ inside _ => Int32.lt_trans later inside.2)
        ((reports.kept _).next group)
  | counted group same last =>
      exact noted_of_finds reports.kept same (fun _ inside _ => last.symm ▸ inside.2)
        ((reports.kept _).next group)

theorem Noted.seek {t : DocId} (reports : Reports P stands k g)
    (h : Noted stands tally g place times c) (ahead : Cursor.doc c < t) :
    (Cursor.seek c t).marks = .zero ∧ ((Cursor.seek c t).answer = .ok true →
      Noted stands tally g (some (Cursor.doc (Cursor.seek c t).state)) 0
        (Cursor.seek c t).state) := by
  cases h with
  | fresh =>
      have later : DocId.beforeFirst < t := reports.before ▸ ahead
      exact noted_of_finds reports.kept rfl (fun _ _ nonneg => DocId.beforeFirst_lt nonneg)
        (reports.starts.seek (DocId.nonneg_of_beforeFirst_lt later))
  | @due D d v c group same later =>
      have ahead : d < t := (reports.kept D).doc group ▸ ahead
      exact noted_of_finds reports.kept same (fun _ inside _ => Int32.lt_trans later
        (Int32.lt_of_lt_of_le ahead inside.2)) ((reports.kept _).ahead group ahead)
  | @counted D d v times c group same last =>
      have ahead : d < t := (reports.kept D).doc group ▸ ahead
      exact noted_of_finds reports.kept same (fun _ inside _ => last.symm ▸
        Int32.lt_of_lt_of_le ahead inside.2) ((reports.kept _).ahead group ahead)

/-- Asked for its score, such a group marks nothing itself and stays where it stands. -/
theorem Reports.score {D : Set DocId} {d : DocId} {v : Option Score} {g' : ClauseGroup σ}
    (reports : Reports P stands k g) (stood : stands D d v g') :
    (Cursor.score g').marks = .zero ∧ ∃ w, stands D d (some w) (Cursor.score g').state := by
  cases v with
  | none =>
      obtain ⟨w, n, g', eq, scored, stood', -⟩ := (reports.kept D).score stood
      obtain rfl := reports.silent d w n scored
      rw [eq]
      exact ⟨rfl, w, stood'⟩
  | some w =>
      rw [(reports.kept D).again stood]
      exact ⟨rfl, w, stood⟩

/-- The first score on a document marks the matches, and no further one marks anything. -/
theorem Noted.score {d : DocId} (reports : Reports P stands k g)
    (h : Noted stands tally g (some d) times c) :
    (Cursor.score c).marks = (if times = 0 then .of tally (.ofNat (k d)) else .zero) ∧
      Noted stands tally g (some d) (times + 1) (afterScore c) := by
  cases h with
  | @due D _ v _ group same later =>
      obtain ⟨quiet, w, stood⟩ := reports.score group
      have doc := (reports.kept D).doc group
      have first : c.counted < Cursor.doc c.group := doc ▸ later
      refine ⟨?_, .counted stood same ?_⟩
      · show c.due ++ (Cursor.score c.group).marks = _
        rw [quiet, Marks.append_zero, Counted.due, if_pos first, if_pos rfl, same,
          reports.matched group]
      · show (if c.counted < Cursor.doc c.group then Cursor.doc c.group else c.counted) = d
        rw [if_pos first, doc]
  | @counted D _ v times _ group same last =>
      obtain ⟨quiet, w, stood⟩ := reports.score group
      have again : ¬ c.counted < Cursor.doc c.group := by
        rw [(reports.kept D).doc group, last]
        exact Int32.lt_irrefl
      refine ⟨?_, .counted stood same ?_⟩
      · show c.due ++ (Cursor.score c.group).marks = _
        rw [quiet, Marks.append_zero, Counted.due, if_neg again, if_neg (Nat.succ_ne_zero times)]
      · show (if c.counted < Cursor.doc c.group then Cursor.doc c.group else c.counted) = d
        rw [if_neg again, last]

theorem Noted.doc {d : DocId} (reports : Reports P stands k g)
    (h : Noted stands tally g (some d) times c) : Cursor.doc c = d := by
  cases h with
  | due group _ _ => exact (reports.kept _).doc group
  | counted group _ _ => exact (reports.kept _).doc group

/-- Whatever the calls were, what has been counted tells whether the document has been scored. -/
theorem Reports.noted (reports : Reports P stands k g)
    (run : Scored (ofGroup g tally) place times c) : Noted stands tally g place times c := by
  induction run with
  | start => exact .fresh
  | next _ found ih => exact (ih.next reports).2 found
  | seek _ ahead found ih => exact (ih.seek reports ahead).2 found
  | score _ ih => exact (ih.score reports).2

/-- A group that tells how many of its clauses match is counted once on each document. -/
theorem Reports.countsOnce (reports : Reports P stands k g)
    (run : Scored (ofGroup g tally) place times c) : CountsOnce k tally place times c := by
  have state := reports.noted run
  constructor
  case doc =>
    rintro d rfl
    exact state.doc reports
  case next =>
    intro counts
    rw [(state.next reports).1, Counts.count_zero]
  case seek =>
    intro t ahead counts
    rw [(state.seek reports ahead).1, Counts.count_zero]
  case score =>
    rintro d rfl counts other
    rw [(state.score reports).1]
    by_cases first : times = 0
    · simp only [first, if_true, and_true, Counts.get_count_of]
    · rw [if_neg first, if_neg (fun both => first both.2), Counts.count_zero, UInt64.add_zero]

end Group

variable {place : Option DocId} {times : Nat} {c : Counted PostingCursor} {tally : Tally}

theorem countsOnce_one {q : TermQuery} (run : Scored (one q.cursor tally) place times c) :
    CountsOnce (fun _ => 1) tally place times c := by
  refine Reports.countsOnce ⟨fun D => embeds_one.faithful faithful_stands, q.silent_prospect, ?_,
    embeds_one.starts q.idle_cursor.toStarts, q.idle_cursor.doc⟩ run
  rintro D d v _ ⟨c, rfl, -⟩
  rfl

/-- Without terms there is no document to count. -/
theorem countsOnce_none {rule : CoordRule} {k : DocId → Nat}
    (run : Scored (all rule [] tally) place times c) : CountsOnce k tally place times c := by
  have embeds := embeds_all (σ := PostingCursor) 0
  refine Reports.countsOnce ⟨fun D => embeds.faithful Conjunction.faithful_nowhere,
    Prospect.silent_nothing, ?_, embeds.starts (Conjunction.starts_nil rule), rfl⟩ run
  rintro D d v _ ⟨c, -, nowhere⟩
  exact nowhere.elim

theorem countsOnce_all {rule : CoordRule} {terms : List TermQuery}
    (run : Scored (all rule (terms.map TermQuery.cursor) tally) place times c) :
    CountsOnce (fun _ => terms.length) tally place times c := by
  by_cases empty : terms = []
  · subst empty
    exact countsOnce_none run
  have begins : List.Forall₂ Begins (terms.map TermQuery.prospect) (terms.map TermQuery.cursor) :=
    (TermQuery.waits_cursors terms).imp fun _ _ h => h.toStarts
  have starts := Conjunction.begins_ofParts rule (mt List.map_eq_nil_iff.mp empty) begins
  have embeds := embeds_all (σ := PostingCursor) (terms.map TermQuery.cursor).length
  refine Reports.countsOnce ⟨fun D => embeds.faithful faithful_stands,
    Prospect.silent_all (TermQuery.silent_prospects terms), ?_, embeds.starts starts,
    Conjunction.doc_ofParts_terms rule terms⟩ run
  rintro D d v _ ⟨c, rfl, -⟩
  exact List.length_map _

theorem countsOnce_atLeast {needed : Nat} {terms : List TermQuery} (positive : 0 < needed)
    (run : Scored (ofGroup (.atLeast (.ofWaiting needed (terms.map TermQuery.cursor))) tally) place
      times c) : CountsOnce (fun d => terms.countP (·.isMatch d)) tally place times c := by
  have silent := TermQuery.silent_prospects terms
  have starts := Threshold.starts_ofWaiting (TermQuery.waits_cursors terms) silent positive
  have kept := Threshold.faithful_standsIn (σ := PostingCursor) silent positive
  refine Reports.countsOnce ⟨fun D => embeds_atLeast.faithful (kept D), Prospect.silent_quorum, ?_,
    embeds_atLeast.starts starts, rfl⟩ run
  rintro D d v _ ⟨T, rfl, standing, -⟩
  exact standing.matched_terms

theorem atLeast_of_several {needed : Nat} {terms : List TermQuery} (tally : Tally)
    (positive : 0 < needed) (several : 1 < terms.length) :
    atLeast needed (terms.map TermQuery.cursor) tally =
      .ok (ofGroup (.atLeast (.ofWaiting needed (terms.map TermQuery.cursor))) tally) := by
  rw [atLeast, Threshold.ofAlternatives_eq (by rwa [List.length_map]) positive]
  rfl

/-- One term, all of some terms or enough of several terms count each document once: with its first
score they add one, the number of all terms, or the number of the terms that have it. -/
theorem counts_each_once (tally : Tally) :
    (∀ (q : TermQuery) {place times c}, Scored (one q.cursor tally) place times c →
      CountsOnce (fun _ => 1) tally place times c) ∧
    (∀ (rule : CoordRule) (terms : List TermQuery) {place times c},
      Scored (all rule (terms.map TermQuery.cursor) tally) place times c →
        CountsOnce (fun _ => terms.length) tally place times c) ∧
    ∀ (needed : Nat) (terms : List TermQuery), 0 < needed → 1 < terms.length →
      ∃ fresh, atLeast needed (terms.map TermQuery.cursor) tally = .ok fresh ∧
        ∀ {place times c}, Scored fresh place times c →
          CountsOnce (fun d => terms.countP (·.isMatch d)) tally place times c :=
  ⟨fun _ _ _ _ run => countsOnce_one run, fun _ _ _ _ _ run => countsOnce_all run,
    fun _ _ positive several => ⟨_, atLeast_of_several tally positive several,
      fun run => countsOnce_atLeast positive run⟩⟩

/-- Three terms, two of which have a document in common. -/
def crossing : List TermQuery :=
  [⟨"first", ⟨#[⟨3, 1⟩, ⟨8, 1⟩], by decide, by decide⟩, 1⟩,
    ⟨"second", ⟨#[⟨8, 1⟩, ⟨12, 1⟩], by decide, by decide⟩, 1⟩,
    ⟨"third", ⟨#[⟨15, 1⟩], by decide, by decide⟩, 1⟩]

/-- The document in common is counted once, by one of the terms, by both of the terms that have it,
or by those of all terms that have it. -/
theorem counts_each_once_crossing : let shared := Tally.named "shared"
    (∃ c : Counted PostingCursor, (∃ q ∈ crossing, Scored (one q.cursor shared) (some 8) 0 c) ∧
      ∀ counts : Counts, (counts.count (Cursor.score c).marks).get shared =
        counts.get shared + 1) ∧
    (∃ d c, Scored (all .constant ((crossing.take 2).map TermQuery.cursor) shared) (some d) 0 c ∧
      ∀ counts : Counts, (counts.count (Cursor.score c).marks).get shared =
        counts.get shared + 2) ∧
    0 < 1 ∧ 1 < crossing.length ∧ ∃ fresh c,
      atLeast 1 (crossing.map TermQuery.cursor) shared = .ok fresh ∧
      Scored fresh (some 8) 0 c ∧
      (∀ counts : Counts, (counts.count (Cursor.score c).marks).get shared =
        counts.get shared + 2) ∧
      ∀ counts : Counts, (counts.count (Cursor.score (afterScore c)).marks).get shared =
        counts.get shared := by
  intro shared
  have sought : ∀ {fresh : Counted PostingCursor}, Cursor.doc fresh < 5 →
      ((Cursor.seek fresh 5).answer, Cursor.doc (Cursor.seek fresh 5).state) = (.ok true, 8) →
      Scored fresh (some 8) 0 (Cursor.seek fresh 5).state := by
    intro fresh ahead moved
    obtain ⟨found, place⟩ := Prod.mk.inj moved
    exact place ▸ .seek .start ahead found
  obtain ⟨single, common, several⟩ := counts_each_once shared
  have run : Scored (one (crossing[0]).cursor shared) (some 8) 0 _ :=
    sought (by decide) (by decide +kernel)
  have begins := Conjunction.begins_ofParts .constant (by decide)
    ((TermQuery.waits_cursors (crossing.take 2)).imp fun _ _ h => h.toStarts)
  have found : (Cursor.next (all .constant ((crossing.take 2).map TermQuery.cursor)
      shared)).answer = .ok true := by
    cases begins.next with
    | found d c eq _ _ => exact congrArg Outcome.answer eq
    | missed c _ empty =>
        have inside : (8 : DocId) ∈ (∅ : Set DocId) := by
          rw [← empty, List.length_map, Conjunction.docs_terms _ (by decide)]
          exact ⟨by decide, by decide⟩
        exact absurd inside (Set.notMem_empty 8)
  have run' := Scored.next .start found
  obtain ⟨fresh, made, counted⟩ := several 1 crossing (by decide) (by decide)
  have moved : (atLeast 1 (crossing.map TermQuery.cursor) shared).map (fun fresh =>
      (Cursor.doc fresh, (Cursor.seek fresh 5).answer, Cursor.doc (Cursor.seek fresh 5).state)) =
        .ok (.beforeFirst, .ok true, 8) := by
    decide +kernel
  rw [made] at moved
  obtain ⟨before, found⟩ := Prod.mk.inj (Except.ok.inj moved)
  have run'' : Scored fresh (some 8) 0 _ := sought (before ▸ by decide) found
  refine ⟨⟨_, ⟨_, List.mem_cons_self, run⟩, fun counts => ?_⟩, ⟨_, _, run', fun counts => ?_⟩,
    by decide, by decide, fresh, _, made, run'', fun counts => ?_, fun counts => ?_⟩
  · exact (single _ run).score 8 rfl counts shared
  · exact (common _ _ run').score _ rfl counts shared
  · exact (counted run'').score 8 rfl counts shared
  · exact ((counted run''.score).score 8 rfl counts shared).trans (UInt64.add_zero _)

end Counted

end Retrieval
