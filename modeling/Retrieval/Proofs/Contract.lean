import Mathlib.Algebra.Order.Ring.Nat
import Mathlib.Data.List.Forall2
import Mathlib.Order.Bounds.Defs
import Mathlib.Order.UpperLower.Basic
import Retrieval.Cursor.Basic

/-!
# What a cursor promises

A cursor that has been moved to a document promises which documents it will still deliver, where a
seek backwards leaves it in place, and what it may answer when it is asked for a score. Nothing is
promised about calls after the documents have run out.

The promise has to hold after every further call too, so it is stated by an invariant: a cursor
stands where it promises to stand if some relation between documents and cursors contains it and is
kept by every call. What holds of the parts of a cursor is used through the calls alone, whatever
kind of cursor they are. Being scored may change a cursor; being scored again must not.
-/

namespace Retrieval

def beyond (d : DocId) : Set DocId := {x | d < x}

def since (t : DocId) : Set DocId := {x | t ≤ x}

@[simp] theorem mem_since {t x : DocId} : x ∈ since t ↔ t ≤ x := Iff.rfl

theorem isUpperSet_beyond (d : DocId) : IsUpperSet (beyond d) := by
  intro x y le inside
  exact Int32.lt_of_lt_of_le inside le

theorem isUpperSet_since (t : DocId) : IsUpperSet (since t) := by
  intro x y le inside
  exact Int32.le_trans inside le

theorem DocId.beforeFirst_lt {d : DocId} (nonneg : 0 ≤ d) : DocId.beforeFirst < d :=
  Int32.lt_of_lt_of_le (by decide) nonneg

/-- Before all documents, the window of a move to the next one leaves none out. -/
theorem inter_beyond_beforeFirst {D : Set DocId} (nonneg : ∀ d ∈ D, 0 ≤ d) :
    D ∩ beyond .beforeFirst = D :=
  Set.inter_eq_left.mpr fun d inside => DocId.beforeFirst_lt (nonneg d inside)

/-- What can be expected of a cursor that has not started. -/
structure Prospect where
  /-- The documents it goes through if its first move is to the next one. -/
  docs : Set DocId
  /-- The documents it goes through if its first move is a seek to a target. -/
  docsFrom : DocId → Set DocId
  later : ∀ t, docsFrom t ⊆ since t
  /-- The documents it does not leave when it is sent back, or to where it stands. From any other
  one, such a seek answers that there are no documents left. -/
  holds : Set DocId
  /-- The scores it may give to a document, each with the number of clauses counted for it. -/
  scores : DocId → Score → Nat → Prop

def Marks.count (n : Nat) : Marks := .of .enclosing (.ofNat n)

@[simp] theorem Marks.count_zero : Marks.count 0 = .zero := rfl

@[simp] theorem Marks.count_append (m n : Nat) :
    Marks.count m ++ Marks.count n = Marks.count (m + n) := by
  simp [Marks.count, Marks.of, Marks.append_def, UInt64.ofNat_add]

namespace Outcome

variable {σ τ α β : Type} {D : Set DocId} {stands : DocId → σ → Prop}

@[simp] theorem bind_ok (state : σ) (a : α) (marks : Marks) (kept : σ → τ)
    (next : α → σ → Outcome τ β) :
    (⟨.ok a, state, marks⟩ : Outcome σ α).bind kept next = (next a state).marking marks := rfl

@[simp] theorem andThen_done (state : σ) (a : α) (next : α → σ → Outcome σ β) :
    (done state a).andThen next = next a state :=
  bind_done state a id next

theorem marking_andThen (marks : Marks) (o : Outcome σ α) (next : α → σ → Outcome σ β) :
    (o.marking marks).andThen next = (o.andThen next).marking marks := by
  obtain ⟨failure | a, state, more⟩ := o
  · rfl
  · simp only [andThen, marking, bind_ok, Marks.append_assoc]

theorem error_ne_ok {failure : Failure} {a : α} :
    (.error failure : Except Failure α) ≠ .ok a := nofun

theorem missed_ne_found : (.ok false : Except Failure Bool) ≠ .ok true := nofun

/-- What is left after going on from a call, whether or not the call failed. -/
theorem state_bind {o : Outcome σ α} {kept : σ → τ} {next : α → σ → Outcome τ β} (post : τ → Prop)
    (failed : post (kept o.state))
    (answered : ∀ a, o.answer = .ok a → post (next a o.state).state) :
    post (o.bind kept next).state := by
  obtain ⟨failure | a, state, marks⟩ := o
  · exact failed
  · exact answered a rfl

/-- An answer after going on from a call means that the call answered, too. -/
theorem answered_of_bind {o : Outcome σ α} {kept : σ → τ} {next : α → σ → Outcome τ β} {b : β}
    (answered : (o.bind kept next).answer = .ok b) :
    ∃ a, o.answer = .ok a ∧ (next a o.state).answer = .ok b ∧
      (o.bind kept next).state = (next a o.state).state := by
  obtain ⟨failure | a, state, marks⟩ := o
  · nomatch answered
  · exact ⟨a, rfl, answered, rfl⟩

/-- Going on twice is going on with what comes after both. -/
theorem bind_andThen (o : Outcome σ α) (kept : σ → τ) (next : α → σ → Outcome τ β) {γ : Type}
    (last : β → τ → Outcome τ γ) :
    (o.bind kept next).andThen last = o.bind kept fun a state => (next a state).andThen last := by
  obtain ⟨failure | a, state, marks⟩ := o
  · rfl
  · simp only [bind_ok, marking_andThen]

/-- A move over the documents `D`: it finds the first of them, where the cursor then stands, or
answers that there is none. -/
inductive Finds (D : Set DocId) (stands : DocId → σ → Prop) (o : Outcome σ Bool) : Prop where
  | found (d : DocId) (c : σ) (eq : o = .done c true) (least : IsLeast D d) (stood : stands d c)
  | missed (c : σ) (eq : o = .done c false) (empty : D = ∅)

theorem Finds.of_done {c : σ} {found : Bool}
    (least : found = true → ∃ d, IsLeast D d ∧ stands d c) (empty : found = false → D = ∅) :
    (done c found).Finds D stands := by
  cases found with
  | true =>
      obtain ⟨d, first, stood⟩ := least rfl
      exact .found d c rfl first stood
  | false => exact .missed c rfl (empty rfl)

theorem Finds.imp {stands' : DocId → σ → Prop} {o : Outcome σ Bool} (h : Finds D stands o)
    (weaken : ∀ d c, IsLeast D d → stands d c → stands' d c) : Finds D stands' o := by
  cases h with
  | found d c eq least stood => exact .found d c eq least (weaken d c least stood)
  | missed c eq empty => exact .missed c eq empty

theorem Finds.within {o : Outcome σ Bool} (h : Finds D stands o) {whole : σ → τ}
    {stands' : DocId → τ → Prop}
    (seen : ∀ d c, IsLeast D d → stands d c → stands' d (whole c)) :
    Finds D stands' (o.within whole) := by
  cases h with
  | found d c eq least stood =>
      exact .found d (whole c) (by rw [eq, within_done]) least (seen d c least stood)
  | missed c eq empty => exact .missed (whole c) (by rw [eq, within_done]) empty

/-- A window that contains all the documents makes no difference. -/
theorem Finds.inside {W : Set DocId} {o : Outcome σ Bool} (h : Finds D stands o) (sub : D ⊆ W) :
    Finds (D ∩ W) stands o := by
  rwa [Set.inter_eq_left.mpr sub]

end Outcome

/-- A set of documents has one first document at most. -/
theorem least_unique {D : Set DocId} {d e : DocId} (hd : IsLeast D d) (he : IsLeast D e) :
    d = e :=
  Int32.le_antisymm (hd.2 he.1) (he.2 hd.1)

namespace Cursor

variable {σ : Type} [Cursor σ]

theorem movesLeftInAll_eq (extra : Nat) (cs : List σ) :
    movesLeftInAll extra cs = (cs.map fun c => movesLeft c + extra).sum := by
  induction cs with
  | nil => rfl
  | cons c cs ih => simp [movesLeftInAll, ih]

@[simp] theorem movesLeftInAll_append (extra : Nat) (cs cs' : List σ) :
    movesLeftInAll extra (cs ++ cs') = movesLeftInAll extra cs + movesLeftInAll extra cs' := by
  simp [movesLeftInAll_eq]

theorem movesLeftInAll_perm {extra : Nat} {cs cs' : List σ} (h : cs.Perm cs') :
    movesLeftInAll extra cs = movesLeftInAll extra cs' := by
  simpa only [movesLeftInAll_eq] using (h.map _).sum_nat

/-- Moves are used up in all if `k` are used up in each. -/
theorem movesLeftInAll_of_forall₂ {k : Nat} {cs cs' : List σ}
    (h : List.Forall₂ (fun c c' => movesLeft c' + k ≤ movesLeft c) cs cs') :
    movesLeftInAll 0 cs' + k * cs.length ≤ movesLeftInAll 0 cs := by
  induction h with
  | nil => simp [movesLeftInAll]
  | cons used _ ih =>
      simp only [movesLeftInAll, List.length_cons, Nat.mul_succ]
      omega

variable {P : Prospect} {D : Set DocId}

/-- A relation that keeps the promise. It relates a document, the score given there if one has been
asked for, and a cursor that stands there; `D` are the documents the cursor goes through. Every move
to a later document uses up one of the moves left, and scoring gains none. -/
structure Faithful (P : Prospect) (D : Set DocId) (stands : DocId → Option Score → σ → Prop) :
    Prop where
  doc : ∀ {d v c}, stands d v c → Cursor.doc c = d
  mem : ∀ {d v c}, stands d v c → d ∈ D
  nonneg : ∀ {d v c}, stands d v c → 0 ≤ d
  next : ∀ {d v c}, stands d v c →
    (Cursor.next c).Finds (D ∩ beyond d) fun e c' => stands e none c' ∧ movesLeft c' < movesLeft c
  ahead : ∀ {d v c t}, stands d v c → d < t →
    (Cursor.seek c t).Finds (D ∩ since t) fun e c' => stands e none c' ∧ movesLeft c' < movesLeft c
  held : ∀ {d v c t}, stands d v c → 0 ≤ t → t ≤ d → d ∈ P.holds →
    ∃ c', Cursor.seek c t = .done c' true ∧ stands d v c' ∧ movesLeft c' ≤ movesLeft c
  lost : ∀ {d v c t}, stands d v c → 0 ≤ t → t ≤ d → d ∉ P.holds →
    ∃ c', Cursor.seek c t = .done c' false
  score : ∀ {d c}, stands d none c →
    ∃ v n c', Cursor.score c = ⟨.ok v, c', .count n⟩ ∧ P.scores d v n ∧ stands d (some v) c' ∧
      movesLeft c' ≤ movesLeft c
  again : ∀ {d v c}, stands d (some v) c → Cursor.score c = .done c v

/-- A cursor stands on the document `d` and has given the score `v` there, if any. It promises to go
through the documents `D` from there on, and otherwise to behave as `P` says. -/
def Stands (P : Prospect) (D : Set DocId) (d : DocId) (v : Option Score) (c : σ) : Prop :=
  ∃ stands : DocId → Option Score → σ → Prop, Faithful P D stands ∧ stands d v c

/-- The weakest relation that keeps the promise is kept by every call. -/
theorem faithful_stands : Faithful P D (Stands (σ := σ) P D) where
  doc := fun ⟨_, kept, h⟩ => kept.doc h
  mem := fun ⟨_, kept, h⟩ => kept.mem h
  nonneg := fun ⟨_, kept, h⟩ => kept.nonneg h
  next := fun ⟨_, kept, h⟩ =>
    (kept.next h).imp fun _ _ _ stood => ⟨⟨_, kept, stood.1⟩, stood.2⟩
  ahead := fun ⟨_, kept, h⟩ later =>
    (kept.ahead h later).imp fun _ _ _ stood => ⟨⟨_, kept, stood.1⟩, stood.2⟩
  held := fun ⟨_, kept, h⟩ nonneg back inside => by
    obtain ⟨c', eq, stood, fewer⟩ := kept.held h nonneg back inside
    exact ⟨c', eq, ⟨_, kept, stood⟩, fewer⟩
  lost := fun ⟨_, kept, h⟩ => kept.lost h
  score := fun ⟨_, kept, h⟩ => by
    obtain ⟨v, n, c', eq, scored, stood, fewer⟩ := kept.score h
    exact ⟨v, n, c', eq, scored, ⟨_, kept, stood⟩, fewer⟩
  again := fun ⟨_, kept, h⟩ => kept.again h

/-- A cursor stands on a document that has not been scored, and what its scores will be depends on
the first one that is: they are as `P T` tells if this one is in `T`. -/
def Opens (P : Set DocId → Prospect) (D : Set DocId) (d : DocId) (c : σ) : Prop :=
  Stands (P Set.univ) D d none c ∧ ∃ v n c', Cursor.score c = ⟨.ok v, c', .count n⟩ ∧
    (P {d}).scores d v n ∧ Stands (P {d}) D d (some v) c' ∧ movesLeft c' ≤ movesLeft c

theorem Stands.opens {d : DocId} {c : σ} (h : Stands P D d none c) : Opens (fun _ => P) D d c := by
  obtain ⟨v, n, c', eq, scored, stood, fewer⟩ := faithful_stands.score h
  exact ⟨h, v, n, c', eq, scored, stood, fewer⟩

/-- A seek backwards that is answered leaves all that holds of the cursor there. -/
theorem Stands.held {d t : DocId} {v : Option Score} {c : σ} (h : Stands P D d v c) (nonneg : 0 ≤ t)
    (back : t ≤ d) (inside : d ∈ P.holds) :
    ∃ c', Cursor.seek c t = .done c' true ∧ movesLeft c' ≤ movesLeft c ∧
      ∀ w, Stands P D d w c → Stands P D d w c' := by
  obtain ⟨c', eq, -, fewer⟩ := faithful_stands.held h nonneg back inside
  refine ⟨c', eq, fewer, fun w h' => ?_⟩
  obtain ⟨c'', eq', stood, -⟩ := faithful_stands.held h' nonneg back inside
  have same : c'' = c' := congrArg Outcome.state (eq'.symm.trans eq)
  exact same ▸ stood

/-- Whichever way a cursor is started, the documents it then goes through are those that `P` tells,
and it stands in the given relation to the first one. -/
structure Starts (P : Prospect) (stands : Set DocId → DocId → Option Score → σ → Prop) (c : σ) :
    Prop where
  next : (Cursor.next c).Finds P.docs fun d c' =>
    stands P.docs d none c' ∧ movesLeft c' < movesLeft c
  seek : ∀ {t}, 0 ≤ t → (Cursor.seek c t).Finds (P.docsFrom t) fun d c' =>
    stands (P.docsFrom t) d none c' ∧ movesLeft c' < movesLeft c

/-- A cursor promises to behave as `P` says from its first move on. -/
abbrev Begins (P : Prospect) (c : σ) : Prop := Starts P (Stands P) c

/-- A cursor that so far stands before all documents, as a queue expects it. -/
structure Waits (P : Prospect) (c : σ) : Prop extends Starts P (Stands P) c where
  doc : Cursor.doc c = .beforeFirst

theorem Starts.imp {stands stands' : Set DocId → DocId → Option Score → σ → Prop} {c : σ}
    (h : Starts P stands c) (weaken : ∀ {D d c}, stands D d none c → stands' D d none c) :
    Starts P stands' c where
  next := h.next.imp fun _ _ _ stood => ⟨weaken stood.1, stood.2⟩
  seek := fun nonneg => (h.seek nonneg).imp fun _ _ _ stood => ⟨weaken stood.1, stood.2⟩

/-- What a cursor promises by a relation, it promises by the weakest one. -/
theorem Starts.begins {stands : Set DocId → DocId → Option Score → σ → Prop} {c : σ}
    (h : Starts P stands c) (kept : ∀ D, Faithful P D (stands D)) : Begins P c where
  next := h.next.imp fun _ _ _ stood => ⟨⟨_, kept _, stood.1⟩, stood.2⟩
  seek := fun nonneg => (h.seek nonneg).imp fun _ _ _ stood => ⟨⟨_, kept _, stood.1⟩, stood.2⟩

/-- Only the documents from where the cursor stands matter to what it promises. -/
theorem Faithful.narrow {D' : Set DocId} {stands : DocId → Option Score → σ → Prop}
    (kept : Faithful P D stands) :
    Faithful P D' fun d v c => stands d v c ∧ ∀ x, d ≤ x → (x ∈ D ↔ x ∈ D') := by
  -- what lies in a window after `d` is the same in both sets of documents
  have window : ∀ {d} {W : Set DocId}, (∀ x, d ≤ x → (x ∈ D ↔ x ∈ D')) → (∀ x ∈ W, d ≤ x) →
      D' ∩ W = D ∩ W := by
    intro d W same later
    ext x
    exact and_congr_left fun inside => (same x (later x inside)).symm
  constructor
  case doc => exact fun h => kept.doc h.1
  case mem => exact fun h => (h.2 _ (Int32.le_refl _)).mp (kept.mem h.1)
  case nonneg => exact fun h => kept.nonneg h.1
  case next =>
    intro d v c ⟨h, same⟩
    have after : ∀ x ∈ beyond d, d ≤ x := fun x later => Int32.le_of_lt later
    rw [window same after]
    refine (kept.next h).imp fun e c' least stood => ⟨⟨stood.1, fun x le => same x ?_⟩, stood.2⟩
    exact Int32.le_trans (after e least.1.2) le
  case ahead =>
    intro d v c t ⟨h, same⟩ later
    have after : ∀ x ∈ since t, d ≤ x := fun x le => Int32.le_trans (Int32.le_of_lt later) le
    rw [window same after]
    refine (kept.ahead h later).imp fun e c' least stood =>
      ⟨⟨stood.1, fun x le => same x ?_⟩, stood.2⟩
    exact Int32.le_trans (after e least.1.2) le
  case held =>
    intro d v c t ⟨h, same⟩ nonneg back inside
    obtain ⟨c', eq, stood, fewer⟩ := kept.held h nonneg back inside
    exact ⟨c', eq, ⟨stood, same⟩, fewer⟩
  case lost => exact fun h => kept.lost h.1
  case score =>
    intro d c ⟨h, same⟩
    obtain ⟨v, n, c', eq, scored, stood, fewer⟩ := kept.score h
    exact ⟨v, n, c', eq, scored, ⟨stood, same⟩, fewer⟩
  case again => exact fun h => kept.again h.1

theorem Stands.narrow {D' : Set DocId} {d : DocId} {v : Option Score} {c : σ}
    (h : Stands P D d v c) (same : ∀ x, d ≤ x → (x ∈ D ↔ x ∈ D')) : Stands P D' d v c :=
  ⟨_, faithful_stands.narrow, h, same⟩

/-- Cursors of one kind seen as cursors of another, with the same answer to every call. -/
structure Embeds {τ : Type} [Cursor τ] (whole : σ → τ) : Prop where
  doc : ∀ c, Cursor.doc (whole c) = Cursor.doc c
  next : ∀ c, Cursor.next (whole c) = (Cursor.next c).within whole
  seek : ∀ c t, Cursor.seek (whole c) t = (Cursor.seek c t).within whole
  score : ∀ c, Cursor.score (whole c) = (Cursor.score c).within whole
  movesLeft : ∀ c, movesLeft (whole c) = movesLeft c

namespace Embeds

variable {τ : Type} [Cursor τ] {whole : σ → τ} {d : DocId} {v : Option Score} {c : σ}

/-- What parts promise by a relation, they promise within the whole. -/
theorem faithful {stands : DocId → Option Score → σ → Prop} (embeds : Embeds whole)
    (kept : Faithful P D stands) : Faithful P D fun d v w => ∃ c, w = whole c ∧ stands d v c := by
  constructor
  case doc =>
    rintro d v _ ⟨c, rfl, h⟩
    rw [embeds.doc, kept.doc h]
  case mem =>
    rintro d v _ ⟨c, rfl, h⟩
    exact kept.mem h
  case nonneg =>
    rintro d v _ ⟨c, rfl, h⟩
    exact kept.nonneg h
  case next =>
    rintro d v _ ⟨c, rfl, h⟩
    rw [embeds.next]
    refine (kept.next h).within fun e c' _ stood => ⟨⟨c', rfl, stood.1⟩, ?_⟩
    simpa only [embeds.movesLeft] using stood.2
  case ahead =>
    rintro d v _ t ⟨c, rfl, h⟩ later
    rw [embeds.seek]
    refine (kept.ahead h later).within fun e c' _ stood => ⟨⟨c', rfl, stood.1⟩, ?_⟩
    simpa only [embeds.movesLeft] using stood.2
  case held =>
    rintro d v _ t ⟨c, rfl, h⟩ nonneg back inside
    obtain ⟨c', eq, stood, fewer⟩ := kept.held h nonneg back inside
    refine ⟨whole c', ?_, ⟨c', rfl, stood⟩, by simpa only [embeds.movesLeft] using fewer⟩
    rw [embeds.seek, eq, Outcome.within_done]
  case lost =>
    rintro d v _ t ⟨c, rfl, h⟩ nonneg back outside
    obtain ⟨c', eq⟩ := kept.lost h nonneg back outside
    exact ⟨whole c', by rw [embeds.seek, eq, Outcome.within_done]⟩
  case score =>
    rintro d _ ⟨c, rfl, h⟩
    obtain ⟨v, n, c', eq, scored, stood, fewer⟩ := kept.score h
    refine ⟨v, n, whole c', ?_, scored, ⟨c', rfl, stood⟩, ?_⟩
    · rw [embeds.score, eq, Outcome.within]
    · simpa only [embeds.movesLeft] using fewer
  case again =>
    rintro d v _ ⟨c, rfl, h⟩
    rw [embeds.score, kept.again h, Outcome.within_done]

theorem stands (embeds : Embeds whole) (h : Stands P D d v c) : Stands P D d v (whole c) :=
  ⟨_, embeds.faithful faithful_stands, c, rfl, h⟩

theorem starts {stands : Set DocId → DocId → Option Score → σ → Prop} (embeds : Embeds whole)
    (h : Starts P stands c) :
    Starts P (fun D d v w => ∃ c, w = whole c ∧ stands D d v c) (whole c) where
  next := by
    rw [embeds.next]
    refine h.next.within fun d c' _ stood => ⟨⟨c', rfl, stood.1⟩, ?_⟩
    simpa only [embeds.movesLeft] using stood.2
  seek := by
    intro t nonneg
    rw [embeds.seek]
    refine (h.seek nonneg).within fun d c' _ stood => ⟨⟨c', rfl, stood.1⟩, ?_⟩
    simpa only [embeds.movesLeft] using stood.2

theorem opens {F : Set DocId → Prospect} (embeds : Embeds whole) (h : Opens F D d c) :
    Opens F D d (whole c) := by
  obtain ⟨stood, v, n, c', eq, scored, stood', fewer⟩ := h
  refine ⟨embeds.stands stood, v, n, whole c', ?_, scored, embeds.stands stood', ?_⟩
  · rw [embeds.score, eq, Outcome.within]
  · simpa only [embeds.movesLeft] using fewer

theorem begins (embeds : Embeds whole) (h : Begins P c) : Begins P (whole c) :=
  (embeds.starts h).begins fun _ => embeds.faithful faithful_stands

theorem waits (embeds : Embeds whole) (h : Waits P c) : Waits P (whole c) where
  toStarts := embeds.begins h.toStarts
  doc := by rw [embeds.doc, h.doc]

end Embeds

/-- A cursor that is one of two kinds. -/
theorem embeds_inl {τ : Type} [Cursor τ] : Embeds (Sum.inl : σ → σ ⊕ τ) :=
  ⟨fun _ => rfl, fun _ => rfl, fun _ _ => rfl, fun _ => rfl, fun _ => rfl⟩

theorem embeds_inr {τ : Type} [Cursor τ] : Embeds (Sum.inr : τ → σ ⊕ τ) :=
  ⟨fun _ => rfl, fun _ => rfl, fun _ _ => rfl, fun _ => rfl, fun _ => rfl⟩

/-- A cursor, or nothing if it has run out, is abreast of the document `d`: it stands before `d`, or
on its first document from `d` on, where it has not been scored. -/
inductive Abreast (P : Prospect) (D : Set DocId) (d : DocId) : Option σ → Prop
  | out (empty : D ∩ since d = ∅) : Abreast P D d none
  | behind {e : DocId} {v : Option Score} {c : σ} (stands : Stands P D e v c) (before : e < d) :
      Abreast P D d (some c)
  | reached {e : DocId} {c : σ} (stands : Stands P D e none c) (least : IsLeast (D ∩ since d) e) :
      Abreast P D d (some c)

/-- A cursor is clear of the document `d`: it has run out, or stands beyond, and does not contain
the document. -/
inductive Clear (P : Prospect) (D : Set DocId) (d : DocId) : Option σ → Prop
  | out (empty : D ∩ since d = ∅) : Clear P D d none
  | beyond {e : DocId} {c : σ} (stands : Stands P D e none c) (least : IsLeast (D ∩ since d) e)
      (after : d < e) : Clear P D d (some c)

def sideMoves (side : Option σ) : Nat := (side.map movesLeft).getD 0

section Beside

variable {d e t : DocId} {v : Option Score} {c : σ} {o : Option σ}

/-- What is left of a window after a later document. -/
theorem least_since (least : IsLeast (D ∩ since d) e) (later : d ≤ t) (notBefore : t ≤ e) :
    IsLeast (D ∩ since t) e :=
  ⟨⟨least.1.1, notBefore⟩, fun _ m => least.2 ⟨m.1, Int32.le_trans later m.2⟩⟩

theorem empty_since (empty : D ∩ since d = ∅) (later : d ≤ t) : D ∩ since t = ∅ :=
  Set.subset_eq_empty
    (Set.inter_subset_inter_right _ fun _ le => Int32.le_trans later le) empty

/-- The document moves on. -/
theorem Abreast.mono (h : Abreast P D d o) (later : d ≤ t) : Abreast P D t o := by
  cases h with
  | out empty => exact .out (empty_since empty later)
  | behind stands before => exact .behind stands (Int32.lt_of_lt_of_le before later)
  | @reached e c stands least =>
      obtain before | notBefore := Int32.lt_or_le e t
      · exact .behind stands before
      · exact .reached stands (least_since least later notBefore)

theorem Clear.abreast (h : Clear P D d o) : Abreast P D d o := by
  cases h with
  | out empty => exact .out empty
  | beyond stands least _ => exact .reached stands least

theorem Clear.notMem (h : Clear P D d o) : d ∉ D := by
  intro mem
  have inside : d ∈ D ∩ since d := ⟨mem, Int32.le_refl d⟩
  cases h with
  | out empty => exact Set.eq_empty_iff_forall_notMem.mp empty d inside
  | beyond _ least after => exact Int32.lt_irrefl (Int32.lt_of_lt_of_le after (least.2 inside))

/-- Only the documents from `d` on matter to a cursor that is clear of `d`. -/
theorem Clear.narrow {D' : Set DocId} (h : Clear P D d o)
    (same : ∀ x, d ≤ x → (x ∈ D ↔ x ∈ D')) : Clear P D' d o := by
  have window : D' ∩ since d = D ∩ since d := by
    ext x
    exact and_congr_left fun le => (same x le).symm
  cases h with
  | out empty => exact .out (window.trans empty)
  | beyond stands least after =>
      refine .beyond (stands.narrow fun x le => same x ?_) (window ▸ least) after
      exact Int32.le_trans (Int32.le_of_lt after) le

/-- A move over a window gets a cursor abreast of every document of the window. -/
theorem Abreast.of_finds {W : Set DocId} {o : Outcome σ Bool} {m : Nat} (upper : IsUpperSet W)
    (finds : o.Finds (D ∩ W) fun e c => Stands P D e none c ∧ movesLeft c < m) :
    ∃ c found, o = .done c found ∧ (found = true → movesLeft c ≤ m) ∧
      ∀ d ∈ W, Abreast P D d (if found then some c else none) := by
  cases finds with
  | found e c eq least stood =>
      refine ⟨c, true, eq, fun _ => Nat.le_of_lt stood.2, fun d inside => ?_⟩
      obtain before | notBefore := Int32.lt_or_le e d
      · exact .behind stood.1 before
      · exact .reached stood.1
          ⟨⟨least.1.1, notBefore⟩, fun _ m => least.2 ⟨m.1, upper m.2 inside⟩⟩
  | missed c eq empty =>
      refine ⟨c, false, eq, fun found => absurd found Bool.false_ne_true, fun d inside => .out ?_⟩
      exact Set.subset_eq_empty
        (Set.inter_subset_inter_right _ fun _ le => upper le inside) empty

end Beside

end Cursor

end Retrieval
