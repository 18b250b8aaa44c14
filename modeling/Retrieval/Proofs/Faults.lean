import Retrieval.Proofs.Calls
import Retrieval.Proofs.Posting
import Retrieval.Proofs.Progress

/-!
# Cursors that may fail

What can be relied on when calls may fail and the caller goes on regardless is less than what a
cursor promises otherwise, and different cursors need different parts of it. A leaf whose call has
failed is where it was, and a later call finds what this one would have found. One of several parts
that have to stand together need not find the first document, but failures must leave it in place.
For a search as a whole it is enough that whatever is found from now on is right. And of a cursor
whose documents are to be left out, none must be passed over.

A first move that fails may leave anything, so what holds after the first move is told apart.
-/

namespace Retrieval

open Outcome

namespace Outcome

variable {σ α : Type} {fails fails' : Failure → Prop} {post post' : Option α → σ → Prop}
variable {o : Outcome σ α}

/-- The call leaves what `post` tells, in whatever way it may fail. -/
abbrev Tries (post : Option α → σ → Prop) (o : Outcome σ α) : Prop :=
  Leaves (fun _ => True) post o

theorem Leaves.mono (leaves : Leaves fails post o)
    (more : ∀ failure, fails failure → fails' failure) : Leaves fails' post o := by
  cases leaves with
  | answered h => exact .answered h
  | failed h allowed => exact .failed h (more _ allowed)

theorem Leaves.tries (leaves : Leaves fails post o) : o.Tries post :=
  leaves.mono fun _ _ => trivial

theorem tries_of_state (h : ∀ a, post a o.state) : o.Tries post := by
  obtain ⟨failure | a, state, marks⟩ := o
  · exact .failed (h none) trivial
  · exact .answered (h (some a))

theorem Leaves.and (leaves : Leaves fails post o) (leaves' : Leaves fails' post' o) :
    Leaves (fun failure => fails failure ∧ fails' failure)
      (fun a state => post a state ∧ post' a state) o := by
  cases leaves with
  | answered h =>
      cases leaves' with
      | answered h' => exact .answered ⟨h, h'⟩
  | failed h allowed =>
      cases leaves' with
      | failed h' allowed' => exact .failed ⟨h, h'⟩ ⟨allowed, allowed'⟩

/-- A call that has failed has done so in one of the ways that it may. -/
theorem Leaves.noting (leaves : Leaves fails post o) : Leaves fails
    (fun a state => post a state ∧ (a = none → ∃ failure, fails failure)) o := by
  cases leaves with
  | answered h => exact .answered ⟨h, fun failed => absurd failed (Option.some_ne_none _)⟩
  | failed h allowed => exact .failed ⟨h, fun _ => ⟨_, allowed⟩⟩ allowed

/-- What a call leaves for each of several reasons, it leaves for all of them. -/
theorem Leaves.forall {ι : Type} [Nonempty ι] {post : ι → Option α → σ → Prop}
    (leaves : ∀ i, Leaves fails (post i) o) :
    Leaves fails (fun a state => ∀ i, post i a state) o := by
  obtain ⟨failure | a, state, marks⟩ := o
  · refine .failed (fun i => ?_) ((leaves (Classical.arbitrary ι)).fails_of_error rfl)
    cases leaves i with
    | failed h => exact h
  · exact .answered fun i => (leaves i).of_ok rfl

/-- A move that keeps a promise does not fail. -/
theorem Finds.leaves {D : Set DocId} {stands : DocId → σ → Prop} {o : Outcome σ Bool}
    {post : Option Bool → σ → Prop} (finds : o.Finds D stands)
    (found : ∀ d c, IsLeast D d → stands d c → post (some true) c)
    (missed : ∀ c, D = ∅ → post (some false) c) : Leaves fails post o := by
  cases finds with
  | found d c eq least stood => exact eq ▸ .answered (found d c least stood)
  | missed c eq empty => exact eq ▸ .answered (missed c empty)

end Outcome

namespace Cursor

/-- The move may lead to the document, which is not before its target. -/
def Move.Allows : Move → DocId → Prop
  | next, _ => True
  | seek target, d => target ≤ d

/-- The documents that the move may lead to from a document. -/
def Move.window : Move → DocId → Set DocId
  | next, d => beyond d
  | seek target, d => since d ∩ since target

/-- The move is to the next document, or to a target that is not negative, if there are targets. -/
def Move.Permitted (targets : Prop) : Move → Prop
  | next => True
  | seek target => targets ∧ 0 ≤ target

/-- The move may fail, if seeks may. -/
def Move.Fallible (seeks : Prop) : Move → Prop
  | next => True
  | seek _ => seeks

theorem Move.Permitted.admissible {targets : Prop} {move : Move} (h : move.Permitted targets) :
    move.Admissible := by
  cases move with
  | next => trivial
  | seek t => exact h.2

theorem Move.window_subset (move : Move) (d : DocId) : move.window d ⊆ since d := by
  intro x inside
  cases move with
  | next => exact Int32.le_of_lt inside
  | seek t => exact inside.1

theorem Move.allows_of_window {move : Move} {d x : DocId} (inside : x ∈ move.window d) :
    move.Allows x := by
  cases move with
  | next => trivial
  | seek t => exact inside.2

theorem Move.allows_of_le {move : Move} {d x : DocId} (allowed : move.Allows d) (le : d ≤ x) :
    move.Allows x := by
  cases move with
  | next => trivial
  | seek t => exact Int32.le_trans allowed le

theorem Move.Fallible.mono {seeks seeks' : Prop} {move : Move} (h : move.Fallible seeks)
    (more : seeks → seeks') : move.Fallible seeks' := by
  cases move with
  | next => trivial
  | seek t => exact more h

variable {σ τ : Type} [Cursor σ] [Cursor τ] {seeks seeks' targets hardy : Prop}
variable {D D' X W : Set DocId} {first : Move}
variable {good good' : σ → Prop} {c c' : σ} {d r t : DocId} {found : Option Bool}

/-- What a move over a window leaves of a cursor over `D` that stood on `d`: it has failed without
effect, or has found the first document there, or there is none. -/
inductive Takes (D : Set DocId) (good : σ → Prop) (d : DocId) (W : Set DocId) :
    Option Bool → σ → Prop
  | failed {c : σ} (kept : good c) (stays : Cursor.doc c = d) : Takes D good d W none c
  | found {c : σ} (kept : good c) (least : IsLeast (D ∩ W) (Cursor.doc c)) :
      Takes D good d W (some true) c
  | missed {c : σ} (empty : D ∩ W = ∅) : Takes D good d W (some false) c

/-- Cursors over `D`, started or not, on which failures have no effect. Seeks fail only if `seeks`
holds. -/
structure Tracking (seeks : Prop) (D : Set DocId) (good : σ → Prop) : Prop where
  nonneg : ∀ d ∈ D, 0 ≤ d
  progresses : ∀ {c}, good c → Progresses c
  move : ∀ {c} (move : Move), good c → move.Admissible → Leaves (fun _ => move.Fallible seeks)
    (Takes D good (Cursor.doc c) (move.window (Cursor.doc c))) (move.make c)
  score : ∀ {c}, good c →
    (Cursor.score c).Tries fun _ c' => good c' ∧ Cursor.doc c' = Cursor.doc c

/-- A cursor goes through `D`, and failures have no effect on it. -/
def Tracks (seeks : Prop) (D : Set DocId) (c : σ) : Prop :=
  ∃ good : σ → Prop, Tracking seeks D good ∧ good c

/-- A leaf over `D` that has not been started. -/
structure Ready (seeks : Prop) (D : Set DocId) (c : σ) : Prop where
  tracks : Tracks seeks D c
  fresh : Cursor.doc c = .beforeFirst

theorem Takes.imp (takes : Takes D good d W found c) (weaken : ∀ c, good c → good' c) :
    Takes D good' d W found c := by
  cases takes with
  | failed kept stays => exact .failed (weaken _ kept) stays
  | found kept least => exact .found (weaken _ kept) least
  | missed empty => exact .missed empty

theorem takes_of_finds {stands : DocId → σ → Prop} {fails : Failure → Prop} {o : Outcome σ Bool}
    (finds : o.Finds (D ∩ W) stands)
    (seen : ∀ {e c}, IsLeast (D ∩ W) e → stands e c → good c ∧ Cursor.doc c = e) :
    Leaves fails (Takes D good d W) o :=
  finds.leaves
    (fun _ _ least stood => .found (seen least stood).1 ((seen least stood).2.symm ▸ least))
    fun _ empty => .missed empty

theorem Tracks.nonneg (h : Tracks seeks D c) : ∀ d ∈ D, 0 ≤ d := by
  obtain ⟨_, kept, -⟩ := h
  exact kept.nonneg

theorem Tracks.progresses (h : Tracks seeks D c) : Progresses c := by
  obtain ⟨_, kept, h⟩ := h
  exact kept.progresses h

theorem Tracks.move (h : Tracks seeks D c) (move : Move) (admissible : move.Admissible) :
    Leaves (fun _ => move.Fallible seeks)
      (Takes D (Tracks seeks D) (Cursor.doc c) (move.window (Cursor.doc c))) (move.make c) := by
  obtain ⟨_, kept, h⟩ := h
  exact (kept.move move h admissible).imp fun _ _ takes => takes.imp fun _ h' => ⟨_, kept, h'⟩

theorem Tracks.score (h : Tracks seeks D c) :
    (Cursor.score c).Tries fun _ c' => Tracks seeks D c' ∧ Cursor.doc c' = Cursor.doc c := by
  obtain ⟨_, kept, h⟩ := h
  exact (kept.score h).imp fun _ _ left => ⟨⟨_, kept, left.1⟩, left.2⟩

theorem Tracks.mono (h : Tracks seeks D c) (more : seeks → seeks') : Tracks seeks' D c := by
  obtain ⟨good, kept, h⟩ := h
  refine ⟨good, ⟨kept.nonneg, kept.progresses, fun move h admissible => ?_, kept.score⟩, h⟩
  exact (kept.move move h admissible).mono fun _ fallible => fallible.mono more

theorem Ready.mono (h : Ready seeks D c) (more : seeks → seeks') : Ready seeks' D c :=
  ⟨h.tracks.mono more, h.fresh⟩

theorem Embeds.tracks {whole : σ → τ} (embeds : Embeds whole) (h : Tracks seeks D c) :
    Tracks seeks D (whole c) := by
  refine ⟨fun w => ∃ c, w = whole c ∧ Tracks seeks D c, ⟨h.nonneg, ?_, ?_, ?_⟩, c, rfl, h⟩
  · rintro _ ⟨c, rfl, h⟩
    exact embeds.progresses h.progresses
  · rintro _ move ⟨c, rfl, h⟩ admissible
    rw [embeds.make, embeds.doc]
    apply (h.move move admissible).within
    intro found c' takes
    cases takes with
    | failed kept stays => exact .failed ⟨_, rfl, kept⟩ ((embeds.doc c').trans stays)
    | found kept least => exact .found ⟨_, rfl, kept⟩ (embeds.doc c' ▸ least)
    | missed empty => exact .missed empty
  · rintro _ ⟨c, rfl, h⟩
    rw [embeds.score, embeds.doc]
    exact h.score.within fun _ c' left => ⟨⟨c', rfl, left.1⟩, (embeds.doc c').trans left.2⟩

/-- What a move over a window leaves of a cursor that stood on `d`: if it has failed, the cursor
stands there still, and if it has found a document, the document lies in the window. -/
inductive Lands (good : σ → Prop) (d : DocId) (W : Set DocId) : Option Bool → σ → Prop
  | failed {c : σ} (kept : good c) (stays : Cursor.doc c = d) : Lands good d W none c
  | found {c : σ} (kept : good c) (inside : Cursor.doc c ∈ W) : Lands good d W (some true) c
  | missed {c : σ} : Lands good d W (some false) c

/-- Cursors that stand on documents of `D` and that failures leave in place. Seeks fail only if
`seeks` holds. -/
structure Upholding (seeks : Prop) (D : Set DocId) (good : σ → Prop) : Prop where
  progresses : ∀ {c}, good c → Progresses c
  mem : ∀ {c}, good c → Cursor.doc c ∈ D
  nonneg : ∀ {c}, good c → 0 ≤ Cursor.doc c
  move : ∀ {c} (move : Move), good c → move.Admissible → Leaves (fun _ => move.Fallible seeks)
    (Lands good (Cursor.doc c) (move.window (Cursor.doc c))) (move.make c)

/-- The cursor stands on a document of `D`, and failures leave it in place. -/
def Upholds (seeks : Prop) (D : Set DocId) (c : σ) : Prop :=
  ∃ good : σ → Prop, Upholding seeks D good ∧ good c

theorem Lands.imp (lands : Lands good d W found c) (weaken : ∀ c, good c → good' c) :
    Lands good' d W found c := by
  cases lands with
  | failed kept stays => exact .failed (weaken _ kept) stays
  | found kept inside => exact .found (weaken _ kept) inside
  | missed => exact .missed

theorem upholding_upholds : Upholding seeks D (Upholds (σ := σ) seeks D) where
  progresses := fun ⟨_, kept, h⟩ => kept.progresses h
  mem := fun ⟨_, kept, h⟩ => kept.mem h
  nonneg := fun ⟨_, kept, h⟩ => kept.nonneg h
  move := fun move ⟨_, kept, h⟩ admissible =>
    (kept.move move h admissible).imp fun _ _ lands => lands.imp fun _ h' => ⟨_, kept, h'⟩

theorem Upholds.mono (h : Upholds seeks D c) (more : seeks → seeks') (sub : D ⊆ D') :
    Upholds seeks' D' c := by
  obtain ⟨good, kept, h⟩ := h
  refine ⟨good, ⟨kept.progresses, fun h => sub (kept.mem h), kept.nonneg, ?_⟩, h⟩
  intro c move h admissible
  exact (kept.move move h admissible).mono fun _ fallible => fallible.mono more

/-- A leaf that has been started can be such a part. -/
theorem Tracks.upholds (h : Tracks seeks D c) (on : Cursor.doc c ∈ D) : Upholds seeks D c := by
  refine ⟨fun c => Tracks seeks D c ∧ Cursor.doc c ∈ D,
    ⟨fun h => h.1.progresses, And.right, fun h => h.1.nonneg _ h.2, ?_⟩, h, on⟩
  rintro c move ⟨h, on⟩ admissible
  apply (h.move move admissible).imp
  intro found c' takes
  cases takes with
  | failed kept stays => exact .failed ⟨kept, stays ▸ on⟩ stays
  | found kept least => exact .found ⟨kept, least.1.1⟩ least.1.2
  | missed => exact .missed

/-- So can a cursor that keeps its promise, for its moves never fail. -/
theorem Stands.upholds {P : Prospect} {v : Option Score} (h : Stands P D d v c)
    (going : Progresses c) : Upholds False D c := by
  have place : ∀ {c : σ} {d v}, Stands P D d v c → Cursor.doc c = d :=
    fun stands => faithful_stands.doc stands
  refine ⟨fun c => Progresses c ∧ ∃ d v, Stands P D d v c,
    ⟨And.left, ?_, ?_, ?_⟩, going, d, v, h⟩
  · rintro c ⟨-, d, v, h⟩
    exact place h ▸ faithful_stands.mem h
  · rintro c ⟨-, d, v, h⟩
    exact place h ▸ faithful_stands.nonneg h
  · rintro c move ⟨going, d, v, h⟩ admissible
    have lands : Leaves (fun _ => False)
        (Lands (fun c => ∃ d v, Stands P D d v c) d (move.window d)) (move.make c) := by
      cases move with
      | next =>
          exact (faithful_stands.next h).leaves
            (fun e c' least stood => .found ⟨e, _, stood.1⟩ (place stood.1 ▸ least.1.2))
            fun _ _ => .missed
      | seek t =>
          obtain back | ahead := Int32.lt_or_le d t
          · exact (faithful_stands.ahead h back).leaves
              (fun e c' least stood => .found ⟨e, _, stood.1⟩ (place stood.1 ▸
                ⟨Int32.le_of_lt (Int32.lt_of_lt_of_le back least.1.2), least.1.2⟩))
              fun _ _ => .missed
          · by_cases inside : d ∈ P.holds
            · obtain ⟨c', eq, stood, -⟩ := faithful_stands.held h admissible ahead inside
              have there : Cursor.doc c' ∈ since d ∩ since t :=
                (place stood).symm ▸ ⟨Int32.le_refl d, ahead⟩
              rw [Move.make, eq]
              exact .answered (.found ⟨d, v, stood⟩ there)
            · obtain ⟨c', eq⟩ := faithful_stands.lost h admissible ahead inside
              rw [Move.make, eq]
              exact .answered .missed
    rw [place h]
    refine ((lands.and (going.move move)).mono fun _ both => both.1.elim).imp ?_
    rintro found c' ⟨lands, going', -⟩
    cases lands with
    | failed kept stays => exact .failed ⟨going', kept⟩ stays
    | found kept inside => exact .found ⟨going', kept⟩ inside
    | missed => exact .missed

/-- What a move leaves of a cursor that has got as far as `r`: if it has found a document, that is
one of `D`, and not an earlier one. -/
inductive Tells (D : Set DocId) (good : DocId → σ → Prop) (r : DocId) : Option Bool → σ → Prop
  | failed {c : σ} (kept : good r c) : Tells D good r none c
  | found {c : σ} (kept : good (Cursor.doc c) c) (inside : Cursor.doc c ∈ D)
      (later : r ≤ Cursor.doc c) : Tells D good r (some true) c
  | missed {c : σ} : Tells D good r (some false) c

/-- Cursors that have got as far as a document, and that find documents of `D` only from there on,
also after failures. They need not be fit for targets if there are none. -/
structure Vouching (targets : Prop) (D : Set DocId) (good : DocId → σ → Prop) : Prop where
  move : ∀ {r c} (move : Move), good r c → move.Permitted targets →
    (move.make c).Tries (Tells D good r)

/-- Whatever the cursor finds from now on is in `D` and not before `r`. -/
def Vouches (targets : Prop) (D : Set DocId) (r : DocId) (c : σ) : Prop :=
  ∃ good : DocId → σ → Prop, Vouching targets D good ∧ good r c

theorem Tells.imp {good good' : DocId → σ → Prop} (tells : Tells D good r found c)
    (weaken : ∀ r c, good r c → good' r c) : Tells D good' r found c := by
  cases tells with
  | failed kept => exact .failed (weaken _ _ kept)
  | found kept inside later => exact .found (weaken _ _ kept) inside later
  | missed => exact .missed

theorem vouching_vouches : Vouching targets D (Vouches (σ := σ) targets D) where
  move := fun move ⟨_, kept, h⟩ permitted =>
    (kept.move move h permitted).imp fun _ _ tells => tells.imp fun _ _ h' => ⟨_, kept, h'⟩

theorem Tells.earlier {good : DocId → σ → Prop} (tells : Tells D good t found c) (le : r ≤ t)
    (earlier : ∀ c, good t c → good r c) : Tells D good r found c := by
  cases tells with
  | failed kept => exact .failed (earlier _ kept)
  | found kept inside later => exact .found kept inside (Int32.le_trans le later)
  | missed => exact .missed

theorem Vouches.earlier (h : Vouches targets D t c) (le : r ≤ t) : Vouches targets D r c := by
  refine ⟨fun r c => ∃ s, r ≤ s ∧ Vouches targets D s c, ⟨?_⟩, t, le, h⟩
  rintro r c move ⟨s, le, h⟩ permitted
  refine (vouching_vouches.move move h permitted).imp fun found c' tells => ?_
  have tells' : Tells D (fun r c => ∃ s, r ≤ s ∧ Vouches targets D s c) s found c' :=
    tells.imp fun r c h => ⟨r, Int32.le_refl r, h⟩
  exact tells'.earlier le fun _ ⟨s', le', h⟩ => ⟨s', Int32.le_trans le le', h⟩

/-- The cursor stands on a document of `D` and finds only later ones of `D` from now on. -/
structure Attests (targets : Prop) (D : Set DocId) (c : σ) : Prop where
  mem : Cursor.doc c ∈ D
  nonneg : 0 ≤ Cursor.doc c
  vouches : Vouches targets D (Cursor.doc c) c

theorem Upholds.attests (h : Upholds seeks D c) : Attests targets D c := by
  refine ⟨upholding_upholds.mem h, upholding_upholds.nonneg h,
    fun r c => Upholds seeks D c ∧ r ≤ Cursor.doc c, ⟨?_⟩, h, Int32.le_refl _⟩
  rintro r c move ⟨h, le⟩ permitted
  apply (upholding_upholds.move move h permitted.admissible).tries.imp
  intro found c' lands
  cases lands with
  | failed kept stays => exact .failed ⟨kept, stays ▸ le⟩
  | found kept inside =>
      refine .found ⟨kept, Int32.le_refl _⟩ (upholding_upholds.mem kept) ?_
      exact Int32.le_trans le (move.window_subset _ inside)
  | missed => exact .missed

/-- What is left of a cursor over `X` that has been sent to the document `d`. -/
inductive Sights (X : Set DocId) (good : DocId → σ → Prop) (d : DocId) :
    Option Bool → σ → Prop
  | failed {c : σ} (kept : good d c) : Sights X good d none c
  | found {c : σ} (kept : good d c) : Sights X good d (some true) c
  | missed {c : σ} (none : ∀ x ∈ X, x < d) : Sights X good d (some false) c

/-- Cursors that do not stand beyond any document of `X` from a document on, and do not pass over
one when they are sent further on. -/
structure Watching (X : Set DocId) (good : DocId → σ → Prop) : Prop where
  abreast : ∀ {r c}, good r c → ∀ x ∈ X, r ≤ x → Cursor.doc c ≤ x
  seek : ∀ {r c d}, good r c → r ≤ d → 0 ≤ d → Cursor.doc c < d →
    (Cursor.seek c d).Tries (Sights X good d)

/-- No document of `X` from `r` on is passed over. -/
def Watches (X : Set DocId) (r : DocId) (c : σ) : Prop :=
  ∃ good : DocId → σ → Prop, Watching X good ∧ ∃ s ≤ r, good s c

theorem Watches.mono (h : Watches X r c) (later : r ≤ t) : Watches X t c := by
  obtain ⟨good, kept, s, before, h⟩ := h
  exact ⟨good, kept, s, Int32.le_trans before later, h⟩

theorem Watches.abreast (h : Watches X r c) : ∀ x ∈ X, r ≤ x → Cursor.doc c ≤ x := by
  obtain ⟨good, kept, s, before, h⟩ := h
  exact fun x inside later => kept.abreast h x inside (Int32.le_trans before later)

theorem Watches.seek (h : Watches X d c) (nonneg : 0 ≤ d) (behind : Cursor.doc c < d) :
    (Cursor.seek c d).Tries (Sights X (Watches X) d) := by
  obtain ⟨good, kept, s, before, h⟩ := h
  apply (kept.seek h before nonneg behind).imp
  intro found c' sights
  cases sights with
  | failed kept' => exact .failed ⟨good, kept, d, Int32.le_refl d, kept'⟩
  | found kept' => exact .found ⟨good, kept, d, Int32.le_refl d, kept'⟩
  | missed none => exact .missed none

/-- Some of its documents may be all that matters. -/
theorem Tracks.watches_of_subset (h : Tracks seeks D c) (sub : X ⊆ D)
    (abreast : ∀ x ∈ X, r ≤ x → Cursor.doc c ≤ x) : Watches X r c := by
  refine ⟨fun r c => Tracks seeks D c ∧ ∀ x ∈ X, r ≤ x → Cursor.doc c ≤ x,
    ⟨fun h => h.2, ?_⟩, r, Int32.le_refl r, h, abreast⟩
  rintro r c d ⟨h, abreast⟩ later nonneg behind
  have window : ∀ {x}, x ∈ X → d ≤ x → x ∈ D ∩ (since (Cursor.doc c) ∩ since d) :=
    fun inside notBefore =>
      ⟨sub inside, Int32.le_trans (Int32.le_of_lt behind) notBefore, notBefore⟩
  apply (h.move (.seek d) nonneg).tries.imp
  intro found c' takes
  cases takes with
  | failed kept stays =>
      refine .failed ⟨kept, fun x _ notBefore => ?_⟩
      exact stays ▸ Int32.le_trans (Int32.le_of_lt behind) notBefore
  | found kept least =>
      exact .found ⟨kept, fun x inside notBefore => least.2 (window inside notBefore)⟩
  | missed empty =>
      refine .missed fun x inside => Int32.not_le.mp fun notBefore => ?_
      exact Set.eq_empty_iff_forall_notMem.mp empty x (window inside notBefore)

theorem Tracks.watches (h : Tracks seeks D c) (abreast : ∀ x ∈ D, r ≤ x → Cursor.doc c ≤ x) :
    Watches D r c :=
  h.watches_of_subset subset_rfl abreast

/-- A first move that finds a document leads to such a cursor, on a document that the move allows.
-/
def Launches (G : σ → Prop) (c : σ) : Prop :=
  ∀ move : Move, move.Admissible → (move.make c).Tries fun found c' =>
    found = some true → G c' ∧ move.Allows (Cursor.doc c')

theorem Launches.imp {G G' : σ → Prop} (h : Launches G c) (weaken : ∀ c, G c → G' c) :
    Launches G' c :=
  fun move admissible => (h move admissible).imp fun _ _ left found =>
    ⟨weaken _ (left found).1, (left found).2⟩

/-- What the first move of a cursor over `X` leaves if it does not fail: a cursor that watches over
the documents that the move allows, or none because there are no such documents. -/
inductive Posted (X : Set DocId) (move : Move) : Option Bool → σ → Prop
  | failed {c : σ} : Posted X move none c
  | found {c : σ} (watches : ∀ d, move.Allows d → Watches X d c) : Posted X move (some true) c
  | missed {c : σ} (none : ∀ x ∈ X, ¬ move.Allows x) : Posted X move (some false) c

/-- A cursor over documents that are to be left out, before its first move. -/
def Guards (X : Set DocId) (c : σ) : Prop :=
  ∀ move : Move, move.Admissible → (move.make c).Tries (Posted X move)

/-- Before all documents, those that a move may lead to are those that it allows. -/
theorem Move.window_beforeFirst (move : Move) {x : DocId} (nonneg : 0 ≤ x) :
    x ∈ move.window .beforeFirst ↔ move.Allows x := by
  have before := DocId.beforeFirst_lt nonneg
  cases move with
  | next => exact iff_of_true before trivial
  | seek t => exact and_iff_right (Int32.le_of_lt before)

theorem Tracks.launches (h : Tracks seeks D c) : Launches (Upholds seeks D) c := by
  intro move admissible
  refine (h.move move admissible).tries.imp ?_
  rintro _ c' takes rfl
  cases takes with
  | found tracks least =>
      exact ⟨tracks.upholds least.1.1, Move.allows_of_window least.1.2⟩

/-- A cursor that keeps its promise, and goes through no other documents if it starts with a seek.
-/
theorem Starts.sure {P : Prospect} (h : Begins P c) (going : Progresses c)
    (sub : ∀ t, P.docsFrom t ⊆ P.docs) (admissible : first.Admissible) :
    Leaves (fun _ => False) (fun found c' => found = some true →
      Upholds False P.docs c' ∧ first.Allows (Cursor.doc c')) (first.make c) := by
  have standing : ∀ {W : Set DocId}, W ⊆ P.docs → (∀ d ∈ W, first.Allows d) →
      (first.make c).Finds W (fun d c' => Stands P W d none c' ∧ movesLeft c' < movesLeft c) →
      Leaves (fun _ => False) (fun found c' => found = some true →
        Upholds False P.docs c' ∧ first.Allows (Cursor.doc c')) (first.make c) := by
    intro W sub allows finds
    have leaves : Leaves (fun _ => False) (fun found c' => found = some true →
        ∃ d, IsLeast W d ∧ Stands P W d none c') (first.make c) :=
      finds.leaves (fun d c' least stood _ => ⟨d, least, stood.1⟩) fun _ _ => not_found
    apply ((leaves.and (going.move first)).mono fun _ both => both.1).imp
    intro found c' left some
    obtain ⟨d, least, stood⟩ := left.1 some
    refine ⟨(stood.upholds left.2.1).mono id sub, ?_⟩
    rw [faithful_stands.doc stood]
    exact allows d least.1
  cases first with
  | next => exact standing subset_rfl (fun _ _ => trivial) h.next
  | seek t => exact standing (sub t) (fun _ inside => P.later t inside) (h.seek admissible)

/-- What the first move of a cursor leaves. If it has found a document, that is one of `D`, which
the move allows, and what is found later is right as well. If it has failed, so is what is found
after a failure that is endured. -/
inductive Embarked (targets hardy : Prop) (D : Set DocId) (first : Move) : Option Bool → σ → Prop
  | failed {c : σ} (endured : hardy → Vouches targets D 0 c) : Embarked targets hardy D first none c
  | found {c : σ} (attests : Attests targets D c) (allowed : first.Allows (Cursor.doc c)) :
      Embarked targets hardy D first (some true) c
  | missed {c : σ} : Embarked targets hardy D first (some false) c

/-- A cursor to be relied on once its first move has been made. -/
def Embarks (targets hardy : Prop) (D : Set DocId) (first : Move) (c : σ) : Prop :=
  (first.make c).Tries (Embarked targets hardy D first)

/-- A cursor to be relied on once its first move has been made and, if it is hardy, whatever that
move and all others do. -/
structure Decides (targets hardy : Prop) (D : Set DocId) (first : Move) (c : σ) : Prop where
  embarks : Embarks targets False D first c
  vouches : hardy → Vouches targets D 0 c

theorem Embarks.mono {hardy' : Prop} (h : Embarks targets hardy D first c) (less : hardy' → hardy) :
    Embarks targets hardy' D first c := by
  refine Leaves.imp h fun found c' embarked => ?_
  cases embarked with
  | failed endured => exact .failed fun hardy' => endured (less hardy')
  | found attests allowed => exact .found attests allowed
  | missed => exact .missed

theorem Decides.mono {hardy' : Prop} (h : Decides targets hardy D first c)
    (less : hardy' → hardy) : Decides targets hardy' D first c :=
  ⟨h.embarks, fun hardy' => h.vouches (less hardy')⟩

theorem Decides.embarks_hardy (h : Decides targets hardy D first c)
    (permitted : first.Permitted targets) : Embarks targets hardy D first c := by
  have endures : (first.make c).Tries fun found c' =>
      found = none → hardy → Vouches targets D 0 c' := by
    by_cases sure : hardy
    · refine (vouching_vouches.move first (h.vouches sure) permitted).imp fun found c' tells => ?_
      cases tells with
      | failed kept => exact fun _ _ => kept
      | found => exact nofun
      | missed => exact nofun
    · exact Leaves.imp h.embarks fun _ _ _ _ some => absurd some sure
  refine (Leaves.and h.embarks endures).tries.imp fun found c' left => ?_
  obtain ⟨embarked, endured⟩ := left
  cases embarked with
  | failed => exact .failed (endured rfl)
  | found attests allowed => exact .found attests allowed
  | missed => exact .missed

theorem Launches.embarks (h : Launches (Upholds seeks D) c) (admissible : first.Admissible) :
    Embarks targets False D first c := by
  refine (h first admissible).imp fun found c' left => ?_
  obtain _ | _ | _ := found
  · exact .failed False.elim
  · exact .missed
  · exact .found (left rfl).1.attests (left rfl).2

theorem Vouches.embarks_next (h : Vouches targets D 0 c) : Embarks targets False D .next c := by
  refine (vouching_vouches.move .next h trivial).imp fun found c' tells => ?_
  cases tells with
  | failed => exact .failed False.elim
  | found kept inside later => exact .found ⟨inside, later, kept⟩ trivial
  | missed => exact .missed

/-- A cursor that no first move can shake. -/
theorem vouches_of_embarks (h : ∀ first : Move, first.Permitted targets →
    Embarks targets True D first c) : Vouches targets D 0 c := by
  refine ⟨fun r c' => r = 0 ∧ c' = c ∨ Vouches targets D r c', ⟨?_⟩, .inl ⟨rfl, rfl⟩⟩
  rintro r c' move (⟨rfl, rfl⟩ | vouches) permitted
  · refine Leaves.imp (h move permitted) fun found c' embarked => ?_
    cases embarked with
    | failed endured => exact .failed (.inr (endured trivial))
    | found attests => exact .found (.inr attests.vouches) attests.mem attests.nonneg
    | missed => exact .missed
  · exact (vouching_vouches.move move vouches permitted).imp fun _ _ tells =>
      tells.imp fun _ _ => .inr

theorem Starts.vouches {P : Prospect} (h : Begins P c) (going : Progresses c)
    (sub : ∀ t, P.docsFrom t ⊆ P.docs) : Vouches targets P.docs 0 c := by
  refine vouches_of_embarks fun first permitted => ?_
  have sure := (Starts.sure h going sub permitted.admissible).noting
  refine sure.tries.imp fun found c' left => ?_
  obtain _ | _ | _ := found
  · exact (left.2 rfl).elim fun _ never => never.elim
  · exact .missed
  · exact .found (left.1 rfl).1.attests (left.1 rfl).2

/-- A failure has no effect on a leaf, be it the first move that fails. -/
theorem Tracks.vouches (h : Tracks seeks D c) : Vouches targets D 0 c := by
  refine ⟨fun r c => Tracks seeks D c ∧ ∀ d ∈ D, Cursor.doc c ≤ d → r ≤ d, ⟨?_⟩, h,
    fun d inside _ => h.nonneg d inside⟩
  rintro r c move ⟨h, reached⟩ permitted
  refine (h.move move permitted.admissible).tries.imp fun found c' takes => ?_
  cases takes with
  | failed kept stays => exact .failed ⟨kept, stays ▸ reached⟩
  | found kept least =>
      exact .found ⟨kept, fun _ _ le => le⟩ least.1.1
        (reached _ least.1.1 (move.window_subset _ least.1.2))
  | missed => exact .missed

/-- A first move to the next document that fails passes over nothing. -/
def Lingers (X : Set DocId) (c : σ) : Prop :=
  (Cursor.next c).Tries fun found c' => found = none → Watches X 0 c'

theorem Ready.lingers (ready : Ready seeks D c) : Lingers D c := by
  obtain ⟨h, fresh⟩ := ready
  refine (h.move .next trivial).tries.imp ?_
  rintro _ c' takes rfl
  cases takes with
  | failed kept stays =>
      refine kept.watches fun x inside _ => ?_
      rw [stays, fresh]
      exact Int32.le_of_lt (DocId.beforeFirst_lt (h.nonneg x inside))

theorem Ready.guards (ready : Ready seeks D c) : Guards D c := by
  obtain ⟨h, fresh⟩ := ready
  intro move admissible
  apply (h.move move admissible).tries.imp
  intro found c' takes
  rw [fresh] at takes
  have window : ∀ {x}, x ∈ D → move.Allows x → x ∈ D ∩ move.window .beforeFirst :=
    fun inside allowed => ⟨inside, (move.window_beforeFirst (h.nonneg _ inside)).mpr allowed⟩
  cases takes with
  | failed => exact .failed
  | found kept least =>
      refine .found fun d allowed => kept.watches fun x inside later => least.2 ?_
      exact window inside (Move.allows_of_le allowed later)
  | missed empty =>
      exact .missed fun x inside allowed =>
        Set.eq_empty_iff_forall_notMem.mp empty x (window inside allowed)

/-- A whole whose moves are those of a part. -/
structure Follows (whole : σ → τ) : Prop where
  doc : ∀ c, Cursor.doc (whole c) = Cursor.doc c
  make : ∀ (move : Move) (c : σ), move.make (whole c) = (move.make c).within whole

theorem Embeds.follows {whole : σ → τ} (embeds : Embeds whole) : Follows whole :=
  ⟨embeds.doc, embeds.make⟩

namespace Follows

variable {whole : σ → τ}

theorem upholds (follows : Follows whole) (going : ∀ c, Progresses c → Progresses (whole c))
    (h : Upholds seeks D c) : Upholds seeks D (whole c) := by
  refine ⟨fun w => ∃ c, w = whole c ∧ Upholds seeks D c, ⟨?_, ?_, ?_, ?_⟩, c, rfl, h⟩
  · rintro _ ⟨c, rfl, h⟩
    exact going c (upholding_upholds.progresses h)
  · rintro _ ⟨c, rfl, h⟩
    exact follows.doc c ▸ upholding_upholds.mem h
  · rintro _ ⟨c, rfl, h⟩
    exact follows.doc c ▸ upholding_upholds.nonneg h
  · rintro _ move ⟨c, rfl, h⟩ admissible
    rw [follows.make, follows.doc]
    apply (upholding_upholds.move move h admissible).within
    intro found c' lands
    cases lands with
    | failed kept stays => exact .failed ⟨_, rfl, kept⟩ ((follows.doc c').trans stays)
    | found kept inside => exact .found ⟨_, rfl, kept⟩ (follows.doc c' ▸ inside)
    | missed => exact .missed

theorem vouches (follows : Follows whole) (h : Vouches targets D r c) :
    Vouches targets D r (whole c) := by
  refine ⟨fun r w => ∃ c, w = whole c ∧ Vouches targets D r c, ⟨?_⟩, c, rfl, h⟩
  rintro r _ move ⟨c, rfl, h⟩ permitted
  rw [follows.make]
  apply (vouching_vouches.move move h permitted).within
  intro found c' tells
  cases tells with
  | failed kept => exact .failed ⟨_, rfl, kept⟩
  | found kept inside later =>
      rw [← follows.doc c'] at kept inside later
      exact .found ⟨_, rfl, kept⟩ inside later
  | missed => exact .missed

theorem attests (follows : Follows whole) (h : Attests targets D c) :
    Attests targets D (whole c) := by
  refine ⟨?_, ?_, ?_⟩
  · exact (follows.doc c).symm ▸ h.mem
  · exact (follows.doc c).symm ▸ h.nonneg
  · exact (follows.doc c).symm ▸ follows.vouches h.vouches

theorem watches (follows : Follows whole) (h : Watches X r c) : Watches X r (whole c) := by
  refine ⟨fun r w => ∃ c, w = whole c ∧ Watches X r c, ⟨?_, ?_⟩, r, Int32.le_refl r, c, rfl, h⟩
  · rintro r _ ⟨c, rfl, h⟩
    exact follows.doc c ▸ h.abreast
  · rintro r _ d ⟨c, rfl, h⟩ later nonneg behind
    rw [follows.doc] at behind
    rw [show Cursor.seek (whole c) d = _ from follows.make (.seek d) c]
    apply ((h.mono later).seek nonneg behind).within
    intro found c' sights
    cases sights with
    | failed kept => exact .failed ⟨_, rfl, kept⟩
    | found kept => exact .found ⟨_, rfl, kept⟩
    | missed none => exact .missed none

theorem launches {G : σ → Prop} {G' : τ → Prop} (follows : Follows whole) (h : Launches G c)
    (seen : ∀ c, G c → G' (whole c)) : Launches G' (whole c) := by
  intro move admissible
  rw [follows.make]
  apply (h move admissible).within
  intro found c' left some
  rw [follows.doc]
  exact ⟨seen _ (left some).1, (left some).2⟩

theorem embarks (follows : Follows whole) (h : Embarks targets hardy D first c) :
    Embarks targets hardy D first (whole c) := by
  rw [Embarks, follows.make]
  refine Leaves.within h fun found c' embarked => ?_
  cases embarked with
  | failed endured => exact .failed fun some => follows.vouches (endured some)
  | found attests allowed =>
      exact .found (follows.attests attests) ((follows.doc c').symm ▸ allowed)
  | missed => exact .missed

theorem decides (follows : Follows whole) (h : Decides targets hardy D first c) :
    Decides targets hardy D first (whole c) where
  embarks := follows.embarks h.embarks
  vouches := fun some => follows.vouches (h.vouches some)

theorem lingers (follows : Follows whole) (h : Lingers X c) : Lingers X (whole c) := by
  rw [Lingers, show Cursor.next (whole c) = _ from follows.make .next c]
  exact Leaves.within h fun _ _ left failed => follows.watches (left failed)

theorem guards (follows : Follows whole) (h : Guards X c) : Guards X (whole c) := by
  intro move admissible
  rw [follows.make]
  apply (h move admissible).within
  intro found c' posted
  cases posted with
  | failed => exact .failed
  | found watches => exact .found fun d allowed => follows.watches (watches d allowed)
  | missed none => exact .missed none

end Follows

end Cursor

open Cursor

/-- A fresh cursor over a posting list. -/
theorem PostingList.tracks_cursor (list : PostingList) (boost : Score) :
    Tracks False {d | d ∈ list.docs} (list.cursor boost) := by
  have waits := list.waits_cursor boost
  have nonneg : ∀ d ∈ list.docs, 0 ≤ d := by
    intro d listed
    obtain ⟨i, inside, rfl⟩ := PostingList.mem_docs.mp listed
    exact list.doc_nonneg inside
  let good (c : PostingCursor) : Prop :=
    c = list.cursor boost ∨ ∃ d v, Stands (.ofList list boost) {d | d ∈ list.docs} d v c
  have started : ∀ {d v c}, Stands (.ofList list boost) {d | d ∈ list.docs} d v c →
      good c ∧ Cursor.doc c = d :=
    fun {d v c} stood => ⟨.inr ⟨d, v, stood⟩, faithful_stands.doc stood⟩
  refine ⟨good, ⟨nonneg, fun _ => PostingCursor.progresses _, ?_, ?_⟩, .inl rfl⟩
  · rintro c move (rfl | ⟨d, v, stood⟩) admissible
    · rw [waits.doc]
      cases move with
      | next =>
          have all : {d | d ∈ list.docs} ⊆ beyond .beforeFirst :=
            fun d listed => DocId.beforeFirst_lt (nonneg d listed)
          exact takes_of_finds (waits.next.inside all) fun _ stood => started stood.1
      | seek t =>
          have same : {d | d ∈ list.docs} ∩ since t =
              {d | d ∈ list.docs} ∩ Move.window (.seek t) .beforeFirst :=
            Set.ext fun d => and_congr_right fun listed =>
              (Move.window_beforeFirst (.seek t) (nonneg d listed)).symm
          have finds := waits.seek admissible
          rw [show (Prospect.ofList list boost).docsFrom t = _ from same] at finds
          refine takes_of_finds finds fun {e c} least stood => started (stood.1.narrow ?_)
          intro x later
          exact and_iff_left ⟨Int32.le_trans least.1.2.1 later, Int32.le_trans least.1.2.2 later⟩
    · rw [(started stood).2]
      cases move with
      | next => exact takes_of_finds (faithful_stands.next stood) fun _ stood => started stood.1
      | seek t =>
          obtain ahead | back := Int32.lt_or_le d t
          · have same : since d ∩ since t = since t := Set.inter_eq_right.mpr fun x notBefore =>
              Int32.le_trans (Int32.le_of_lt ahead) notBefore
            rw [Move.window, same]
            exact takes_of_finds (faithful_stands.ahead stood ahead) fun _ stood =>
              started stood.1
          · obtain ⟨c', eq, stood', -⟩ :=
              faithful_stands.held stood admissible back (Set.mem_univ d)
            rw [Move.make, eq]
            refine .answered (.found (started stood').1 ?_)
            rw [(started stood').2]
            exact ⟨⟨faithful_stands.mem stood, Int32.le_refl d, back⟩, fun x inside => inside.2.1⟩
  · intro c h
    have same := c.state_score
    exact tries_of_state fun _ => ⟨same.symm ▸ h, congrArg Cursor.doc same⟩

namespace Faulty

variable {σ : Type} [Cursor σ] {c : Faulty σ} {seeks : Prop} {D : Set DocId} {plan : FaultPlan}

/-- A move that may be kept from the cursor below. -/
theorem attempt_takes {fault : Option Failure.Report} {move : Move} {fails : Prop}
    (planned : c.plan = plan) (h : Tracks seeks D c.cursor) (admissible : move.Admissible)
    (fallible : move.Fallible seeks → fails) (faulted : fault.isSome = true → fails) :
    Leaves (fun _ => fails) (Takes D (fun c => c.plan = plan ∧ Tracks seeks D c.cursor)
      (Cursor.doc c.cursor) (move.window (Cursor.doc c.cursor))) (c.attempt fault move.make) := by
  cases fault with
  | some report => exact .failed (.failed ⟨planned, h⟩ rfl) (faulted rfl)
  | none =>
      rw [attempt]
      apply ((h.move move admissible).mono fun _ => fallible).within
      intro found c' takes
      cases takes with
      | failed kept stays => exact .failed ⟨planned, kept⟩ stays
      | found kept least => exact .found ⟨planned, kept⟩ least
      | missed empty => exact .missed empty

/-- Faults have no effect on the cursor below. -/
theorem tracks (h : Tracks seeks D c.cursor) :
    Tracks (seeks ∨ ∃ k, (c.plan.seek k).isSome = true) D c := by
  refine ⟨fun c' => c'.plan = c.plan ∧ Tracks seeks D c'.cursor,
    ⟨h.nonneg, fun h => Faulty.progresses h.2.progresses, ?_, ?_⟩, rfl, h⟩
  · rintro c' move ⟨planned, h⟩ admissible
    cases move with
    | next =>
        exact attempt_takes (c := { c' with nexts := c'.nexts + 1 }) planned h admissible id
          fun _ => trivial
    | seek t =>
        refine attempt_takes (c := { c' with seeks := c'.seeks + 1 }) planned h admissible .inl
          fun faulted => .inr ⟨_, planned ▸ faulted⟩
  · rintro c' ⟨planned, h⟩
    obtain ⟨report, faulted⟩ | passed :=
      { c' with scores := c'.scores + 1 }.attempt_cases (c'.plan.score (c'.scores + 1))
        Cursor.score
    · rw [show Cursor.score c' = _ from faulted]
      exact .failed ⟨⟨planned, h⟩, rfl⟩ trivial
    · rw [show Cursor.score c' = _ from passed]
      exact h.score.within fun _ _ left => ⟨⟨planned, left.1⟩, left.2⟩

end Faulty

end Retrieval
