import Retrieval.Collector.Delivery
import Retrieval.Proofs.Nested

/-!
# Delivering hits in parts

A collector may refuse a hit, and a delivery may be limited to the documents before a given one. In
both cases it can be taken up again where it stopped: a document that has been scored is scored
again with the same result, and that leaves the cursor as it is, so a delivery with interruptions
goes through the same cursors as one without. A hit that is refused is handed over again by the next
call, and each hit is taken once.
-/

namespace Retrieval

/-- A collector that notes which hits it is handed, and how it answers. -/
structure Noting (κ : Type) where
  collector : κ
  offers : List (Hit × Except Failure Unit) := []

namespace Noting

variable {κ : Type}

/-- The hits that were offered and not refused, in the order in which they came. -/
def accepted (offers : List (Hit × Except Failure Unit)) : List Hit :=
  (offers.filter (·.2.isOk)).map (·.1)

theorem accepted_append (offers offers' : List (Hit × Except Failure Unit)) :
    accepted (offers ++ offers') = accepted offers ++ accepted offers' := by
  simp [accepted]

def taken (k : Noting κ) : List Hit := accepted k.offers

instance [Collector κ] : Collector (Noting κ) where
  collect k hit :=
    let (answer, collector) := Collector.collect k.collector hit
    (answer, { collector, offers := k.offers ++ [(hit, answer)] })
  total k := Collector.total k.collector
  reset k := { collector := Collector.reset k.collector }

/-- A run without the notes. -/
def unnoted {σ : Type} (run : σ × Noting κ) : σ × κ := (run.1, run.2.collector)

end Noting

namespace Outcome

variable {σ τ α β : Type}

/-- A view of the state that is respected by what comes next is respected by going on to it. -/
theorem within_andThen {whole : σ → τ} {next : α → σ → Outcome σ β} {next' : α → τ → Outcome τ β}
    (o : Outcome σ α) (respected : ∀ a s, (next a s).within whole = next' a (whole s)) :
    (o.andThen next).within whole = (o.within whole).andThen next' := by
  obtain ⟨failure | a, state, marks⟩ := o
  · rfl
  · have same := respected a state
    simp only [andThen, within, bind_ok] at same ⊢
    rw [← same]
    rfl

/-- The same, if it is a part that goes before. -/
theorem within_bind {ρ : Type} {whole : σ → τ} {kept : ρ → σ} {next : α → ρ → Outcome σ β}
    (o : Outcome ρ α) : (o.bind kept next).within whole =
      o.bind (fun state => whole (kept state)) fun a state => (next a state).within whole := by
  obtain ⟨failure | a, state, marks⟩ := o <;> rfl

end Outcome

namespace Noting

variable {σ κ : Type} [Cursor σ] [Collector κ]

theorem deliver_unnoted (c : σ) (k : Noting κ) :
    (deliver c k).within unnoted = deliver c k.collector :=
  Outcome.within_bind _

theorem deliverWhile_unnoted (limit : DocId) (bound : Nat) (c : σ) (k : Noting κ) :
    (deliverWhile limit bound (c, k)).within unnoted =
      deliverWhile limit bound (c, k.collector) := by
  induction bound generalizing c k with
  | zero => rfl
  | succ bound ih =>
      rw [deliverWhile, deliverWhile]
      split
      · rw [← deliver_unnoted]
        apply Outcome.within_andThen
        rintro _ ⟨c', k'⟩
        apply (Outcome.within_bind _).trans
        congr 1
        funext found c''
        cases found with
        | true => exact ih c'' k'
        | false => rfl
      · rfl

/-- Taking notes changes nothing: but for the notes, a call does the same without. So what is shown
of collectors that take notes is shown of those that do not. -/
theorem deliverBefore_unnoted (limit : DocId) (c : σ) (k : Noting κ) :
    (deliverBefore limit c k).within unnoted = deliverBefore limit c k.collector :=
  deliverWhile_unnoted limit _ c k

end Noting

namespace Cursor

variable {σ κ : Type} [Cursor σ]

/-- The document stood on scores `v`, and once the score has been given, asking for it again gives
the same and changes nothing. -/
structure Settles (c : σ) (v : Score) : Prop where
  given : (Cursor.score c).answer = .ok v
  again : Cursor.score (afterScore c) = .done (afterScore c) v
  place : Cursor.doc (afterScore c) = Cursor.doc c
  moves : movesLeft (afterScore c) ≤ movesLeft c

/-- The hits that are found by scoring the document stood on, moving to the next one, and so on. -/
inductive Yields : σ → List Hit → Prop
  | last {c : σ} {v : Score} (settles : Settles c v)
      (ended : (Cursor.next (afterScore c)).answer = .ok false) : Yields c [⟨Cursor.doc c, v⟩]
  | more {c : σ} {v : Score} {hits : List Hit} (settles : Settles c v)
      (found : (Cursor.next (afterScore c)).answer = .ok true)
      (later : Cursor.doc c < Cursor.doc (Cursor.next (afterScore c)).state)
      (fewer : movesLeft (Cursor.next (afterScore c)).state < movesLeft (afterScore c))
      (rest : Yields (Cursor.next (afterScore c)).state hits) :
      Yields c (⟨Cursor.doc c, v⟩ :: hits)

variable {P : Prospect} {D : Set DocId} {d : DocId} {c : σ} {hits : List Hit} {v : Score}

theorem Stands.settles {w : Option Score} (h : Stands P D d w c) :
    ∃ v, Settles c v ∧ Stands P D d (some v) (afterScore c) := by
  obtain ⟨v, given, stood, moves⟩ := faithful_stands.afterScore h
  refine ⟨v, ⟨given, faithful_stands.again stood, ?_, moves⟩, stood⟩
  exact (faithful_stands.doc stood).trans (faithful_stands.doc h).symm

/-- A cursor that stands where it promises to yields hits. Each move uses up one of those left. -/
theorem Stands.yields {w : Option Score} (h : Stands P D d w c) : ∃ hits, Yields c hits := by
  induction moves : movesLeft c using Nat.strong_induction_on generalizing d w c with
  | _ moves ih =>
      obtain ⟨v, settles, stood⟩ := h.settles
      cases faithful_stands.next stood with
      | missed c' eq empty =>
          refine ⟨_, .last settles ?_⟩
          rw [eq]
          rfl
      | found e c' eq least stood' =>
          have there : (Cursor.next (afterScore c)).state = c' := congrArg Outcome.state eq
          have place : Cursor.doc c = d := faithful_stands.doc h
          have place' : Cursor.doc c' = e := faithful_stands.doc stood'.1
          have fewer := Nat.lt_of_lt_of_le stood'.2 settles.moves
          obtain ⟨hits, yields⟩ := ih _ (moves ▸ fewer) stood'.1 rfl
          subst there
          refine ⟨_, .more settles (congrArg Outcome.answer eq) ?_ stood'.2 yields⟩
          rw [place, place']
          exact least.1.2

theorem Yields.settles (yields : Yields c hits) : ∃ v, Settles c v := by
  cases yields with
  | last settles => exact ⟨_, settles⟩
  | more settles => exact ⟨_, settles⟩

/-- The document stood on is the first one. -/
theorem Yields.head (yields : Yields c hits) : ∃ v rest, hits = ⟨Cursor.doc c, v⟩ :: rest := by
  cases yields with
  | last => exact ⟨_, _, rfl⟩
  | more => exact ⟨_, _, rfl⟩

theorem Yields.ascending (yields : Yields c hits) : hits.Pairwise (·.doc < ·.doc) := by
  induction yields with
  | last => exact List.pairwise_singleton _ _
  | more settles found later fewer rest ih =>
      refine List.pairwise_cons.mpr ⟨fun hit inside => ?_, ih⟩
      obtain ⟨v', hits', rfl⟩ := rest.head
      cases inside with
      | head => exact later
      | tail _ inside => exact Int32.lt_trans later ((List.pairwise_cons.mp ih).1 hit inside)

theorem Settles.afterScore_eq (settles : Settles c v) :
    afterScore (afterScore c) = afterScore c := by
  rw [afterScore, settles.again, Outcome.done]

theorem Settles.scored (settles : Settles c v) : Settles (afterScore c) v where
  given := by rw [settles.again, Outcome.done]
  again := by rw [settles.afterScore_eq, settles.again]
  place := by rw [settles.afterScore_eq]
  moves := by rw [settles.afterScore_eq]

/-- Having scored a document makes no difference to what is yielded. -/
theorem Yields.scored (yields : Yields c hits) : Yields (afterScore c) hits := by
  cases yields with
  | last settles ended =>
      rw [← settles.place]
      apply Yields.last settles.scored
      rwa [settles.afterScore_eq]
  | more settles found later fewer rest =>
      rw [← settles.place] at later ⊢
      refine .more settles.scored ?_ ?_ ?_ ?_ <;> rw [settles.afterScore_eq]
      · exact found
      · exact later
      · exact fewer
      · exact rest

section Call

variable {limit : DocId} {c' : σ} {k k' : Noting κ} {hit : Hit} {pending left : List Hit}
variable {offers : List (Hit × Except Failure Unit)} {o : Outcome (σ × Noting κ) Bool}

/-- Where a call stops, by its answer: before the limit is passed, with a hit that is refused, or
with none left. The hits that are left are those still to be yielded. -/
inductive Stops (limit : DocId) (offers : List (Hit × Except Failure Unit)) :
    List Hit → Except Failure Bool → σ → Prop
  | limited {c : σ} {left : List Hit} (reached : limit ≤ Cursor.doc c) (yields : Yields c left) :
      Stops limit offers left (.ok true) c
  | refused {c : σ} {hit : Hit} {left : List Hit} {failure : Failure}
      (last : offers.getLast? = some (hit, .error failure)) (yields : Yields c (hit :: left)) :
      Stops limit offers (hit :: left) (.error failure) c
  | ended {c : σ} : Stops limit offers [] (.ok false) c

/-- What one call does: it offers the hits that are yielded one after the other, beginning with the
one for the document stood on, as long as they come before the limit and are not refused. -/
structure Call (limit : DocId) (c : σ) (k : Noting κ) (hits : List Hit)
    (o : Outcome (σ × Noting κ) Bool) (offers : List (Hit × Except Failure Unit))
    (left : List Hit) : Prop where
  noted : o.state.2.offers = k.offers ++ offers
  split : Noting.accepted offers ++ left = hits
  begins : Cursor.doc c < limit → offers.head?.map (·.1) = hits.head?
  stops : Stops limit offers left o.answer o.state.1

theorem Stops.cons {answer : Except Failure Bool} (stops : Stops limit offers left answer c)
    (offer : Hit × Except Failure Unit) : Stops limit (offer :: offers) left answer c := by
  cases stops with
  | limited reached yields => exact .limited reached yields
  | refused last yields =>
      refine .refused ?_ yields
      rw [List.getLast?_cons, last, Option.getD_some]
  | ended => exact .ended

/-- A hit that is taken, and then the rest. -/
theorem Call.cons (call : Call limit c' k' hits o offers left)
    (noted : k'.offers = k.offers ++ [(hit, .ok ())]) :
    Call limit c k (hit :: hits) o ((hit, .ok ()) :: offers) left where
  noted := by rw [call.noted, noted, List.append_assoc, List.singleton_append]
  split := congrArg (hit :: ·) call.split
  begins := fun _ => rfl
  stops := call.stops.cons _

/-- What a call leaves, if `hits` are all that there are. -/
structure Continues (hits : List Hit) (limit : DocId) (c : σ) (k : Noting κ)
    (o : Outcome (σ × Noting κ) Bool) : Prop where
  /-- The hits taken so far, by all calls, are the first ones. -/
  taken : o.state.2.taken <+: hits
  /-- A call that comes to its limit leaves the cursor on the first hit not taken. -/
  limited : o.answer = .ok true → limit ≤ Cursor.doc o.state.1 ∧ ∃ hit left,
    hits = o.state.2.taken ++ hit :: left ∧ hit.doc = Cursor.doc o.state.1
  /-- A call fails with the refusal of a hit, and leaves the cursor on it. -/
  refused : ∀ failure, o.answer = .error failure → ∃ hit left,
    hits = o.state.2.taken ++ hit :: left ∧ hit.doc = Cursor.doc o.state.1 ∧
      o.state.2.offers.getLast? = some (hit, .error failure)
  /-- A call that finds no further hit leaves none. -/
  ended : o.answer = .ok false → o.state.2.taken = hits
  /-- The first hit not taken before the call is the first one offered, unless it has to wait. -/
  resumes : Cursor.doc c < limit → ∃ hit answer offers,
    hits[k.taken.length]? = some hit ∧ o.state.2.offers = k.offers ++ (hit, answer) :: offers

/-- Besides the hits taken so far, the others are yielded from where the cursor stands. -/
def Awaits (hits : List Hit) (run : σ × Noting κ) : Prop :=
  ∃ left, run.2.taken ++ left = hits ∧ Yields run.1 left

/-- After a call, the hits taken and those left are still all hits. -/
theorem Call.taken_append (call : Call limit c k pending o offers left)
    (split : k.taken ++ pending = hits) : o.state.2.taken ++ left = hits := by
  rw [← split, ← call.split, Noting.taken, call.noted, Noting.accepted_append, List.append_assoc,
    Noting.taken]

theorem Call.resumes (call : Call limit c k pending o offers left)
    (split : k.taken ++ pending = hits) (yields : Yields c pending)
    (before : Cursor.doc c < limit) : ∃ hit answer rest, hits[k.taken.length]? = some hit ∧
      o.state.2.offers = k.offers ++ (hit, answer) :: rest := by
  obtain ⟨v, rest, rfl⟩ := yields.head
  have begins := call.begins before
  cases offers with
  | nil => nomatch begins
  | cons offer offers =>
      have first : offer.1 = ⟨Cursor.doc c, v⟩ := Option.some.inj begins
      refine ⟨offer.1, offer.2, offers, ?_, call.noted⟩
      rw [← split, first]
      simp

theorem Call.getLast?_offers (call : Call limit c k pending o offers left)
    {offer : Hit × Except Failure Unit} (last : offers.getLast? = some offer) :
    o.state.2.offers.getLast? = some offer := by
  rw [call.noted, List.getLast?_append, last]
  rfl

/-- Where a call stops tells what it leaves. -/
theorem Call.continues (call : Call limit c k pending o offers left)
    (split : k.taken ++ pending = hits) (yields : Yields c pending) :
    Continues hits limit c k o ∧ (o.answer ≠ .ok false → Awaits hits o.state) := by
  have all := call.taken_append split
  have prefixed : o.state.2.taken <+: hits := ⟨left, all⟩
  have resumes := call.resumes split yields
  have last := fun {offer} (last : offers.getLast? = some offer) => call.getLast?_offers last
  have stops := call.stops
  obtain ⟨answer, ⟨c', k'⟩, marks⟩ := o
  dsimp only at all prefixed resumes last stops
  cases stops with
  | limited reached yields' =>
      obtain ⟨v, rest, rfl⟩ := yields'.head
      refine ⟨⟨prefixed, fun _ => ⟨reached, _, rest, all.symm, rfl⟩, nofun, nofun, resumes⟩,
        fun _ => ⟨_, all, yields'⟩⟩
  | refused last' yields' =>
      obtain ⟨v, rest, same⟩ := yields'.head
      obtain ⟨rfl, rfl⟩ := List.cons.inj same
      refine ⟨⟨prefixed, nofun, ?_, nofun, resumes⟩, fun _ => ⟨_, all, yields'⟩⟩
      rintro failure ⟨rfl⟩
      exact ⟨_, _, all.symm, rfl, last last'⟩
  | ended =>
      rw [List.append_nil] at all
      exact ⟨⟨prefixed, nofun, nofun, fun _ => all, resumes⟩, fun going => absurd rfl going⟩

end Call

section Deliver

variable [Collector κ] {k : κ} {limit : DocId} {bound : Nat}

/-- The hit for the document stood on is handed over, and the collector's answer is passed on. -/
theorem Settles.deliver_eq (settles : Settles c v) (k : κ) :
    (deliver c k).answer = (Collector.collect k ⟨Cursor.doc c, v⟩).1 ∧
      (deliver c k).state = (afterScore c, (Collector.collect k ⟨Cursor.doc c, v⟩).2) := by
  rw [deliver, Outcome.bind_of_ok settles.given]
  exact ⟨rfl, rfl⟩

/-- If nothing is refused, all hits are taken. -/
theorem Yields.taken_all (yields : Yields c hits) (enough : movesLeft (afterScore c) < bound)
    (k : AllHits) :
    ((deliver c k).andThen fun _ run => deliverRest bound run).answer = .ok () ∧
      ((deliver c k).andThen fun _ run => deliverRest bound run).state.2.hits.toList =
        k.hits.toList ++ hits := by
  induction yields generalizing bound k with
  | @last c v settles ended =>
      obtain ⟨bound, rfl⟩ := Nat.exists_eq_add_of_le' (Nat.zero_lt_of_lt enough)
      obtain ⟨taken, state⟩ := settles.deliver_eq k
      rw [Outcome.andThen, Outcome.bind_of_ok taken, state, deliverRest,
        Outcome.bind_of_ok ended]
      exact ⟨rfl, Array.toList_push⟩
  | @more c v hits settles found later fewer rest ih =>
      obtain ⟨bound, rfl⟩ := Nat.exists_eq_add_of_le' (Nat.zero_lt_of_lt enough)
      obtain ⟨taken, state⟩ := settles.deliver_eq k
      obtain ⟨v', settles'⟩ := rest.settles
      have enough' := Nat.lt_of_le_of_lt settles'.moves
        (Nat.lt_of_lt_of_le fewer (Nat.le_of_lt_succ enough))
      obtain ⟨answered, all⟩ := ih enough' (Collector.collect k ⟨Cursor.doc c, v⟩).2
      rw [Outcome.andThen, Outcome.bind_of_ok taken, state, deliverRest,
        Outcome.bind_of_ok found]
      refine ⟨answered, all.trans ?_⟩
      simp [Collector.collect]

/-- The offer for the document stood on is noted. -/
theorem Settles.offer (settles : Settles c v) (k : Noting κ) : ∃ k' : Noting κ,
    (deliver c k).state = (afterScore c, k') ∧
      k'.offers = k.offers ++ [(⟨Cursor.doc c, v⟩, (deliver c k).answer)] := by
  obtain ⟨answered, state⟩ := settles.deliver_eq k
  refine ⟨_, state, ?_⟩
  rw [answered]
  rfl

/-- At the limit, nothing is offered. -/
theorem Yields.call_limited (yields : Yields c hits) (reached : ¬ Cursor.doc c < limit)
    (k : Noting κ) : Call limit c k hits (deliverWhile limit (bound + 1) (c, k)) [] hits := by
  rw [deliverWhile, if_neg reached]
  exact ⟨(List.append_nil _).symm, rfl, fun before => absurd before reached,
    .limited (Int32.not_lt.mp reached) yields⟩

/-- A hit that is refused ends the call, and is left to be yielded again. -/
theorem Yields.call_refused {rest : List Hit} {failure : Failure}
    (yields : Yields c (⟨Cursor.doc c, v⟩ :: rest)) (settles : Settles c v)
    (before : Cursor.doc c < limit) (k : Noting κ)
    (answer : (deliver c k).answer = .error failure) :
    Call limit c k (⟨Cursor.doc c, v⟩ :: rest) (deliverWhile limit (bound + 1) (c, k))
      [(⟨Cursor.doc c, v⟩, .error failure)] (⟨Cursor.doc c, v⟩ :: rest) := by
  obtain ⟨k', state, noted⟩ := settles.offer k
  rw [deliverWhile, if_pos before, Outcome.andThen, Outcome.bind_of_error answer, state]
  exact ⟨answer ▸ noted, rfl, fun _ => rfl, .refused rfl yields.scored⟩

/-- One call. The induction is on the hits, each of which takes a move. -/
theorem Yields.call (yields : Yields c hits) (enough : movesLeft c < bound) (k : Noting κ) :
    ∃ offers left, Call limit c k hits (deliverWhile limit bound (c, k)) offers left := by
  induction yields generalizing bound k with
  | @last c v settles ended =>
      obtain ⟨bound, rfl⟩ := Nat.exists_eq_add_of_le' (Nat.zero_lt_of_lt enough)
      have whole := Yields.last settles ended
      by_cases before : Cursor.doc c < limit
      · cases answer : (deliver c k).answer with
        | error failure => exact ⟨_, _, whole.call_refused settles before k answer⟩
        | ok _ =>
            obtain ⟨k', state, noted⟩ := settles.offer k
            rw [deliverWhile, if_pos before, Outcome.andThen, Outcome.bind_of_ok answer, state]
            dsimp only
            rw [Outcome.bind_of_ok ended]
            exact ⟨_, [], answer ▸ noted, rfl, fun _ => rfl, .ended⟩
      · exact ⟨_, _, whole.call_limited before k⟩
  | @more c v hits settles found later fewer rest ih =>
      obtain ⟨bound, rfl⟩ := Nat.exists_eq_add_of_le' (Nat.zero_lt_of_lt enough)
      have whole := Yields.more settles found later fewer rest
      by_cases before : Cursor.doc c < limit
      · cases answer : (deliver c k).answer with
        | error failure => exact ⟨_, _, whole.call_refused settles before k answer⟩
        | ok _ =>
            obtain ⟨k', state, noted⟩ := settles.offer k
            rw [deliverWhile, if_pos before, Outcome.andThen, Outcome.bind_of_ok answer, state]
            dsimp only
            rw [Outcome.bind_of_ok found]
            have enough' := Nat.lt_of_lt_of_le (Nat.lt_of_lt_of_le fewer settles.moves)
              (Nat.le_of_lt_succ enough)
            obtain ⟨offers, left, call⟩ := ih enough' k'
            obtain ⟨noted', split, begins, stops⟩ := call.cons (c := c) (answer ▸ noted)
            exact ⟨_, left, noted', split, begins, stops⟩
      · exact ⟨_, _, whole.call_limited before k⟩

/-- The states in which calls on a cursor and a collector can leave them, each with a limit of its
own. Calls go on after a hit has been refused, until one has found that none is left. -/
inductive Parts (start : σ × Noting κ) : σ × Noting κ → Prop
  | start : Parts start start
  | call {run : σ × Noting κ} (parts : Parts start run) (limit : DocId)
      (going : (deliverBefore limit run.1 run.2).answer ≠ .ok false) :
      Parts start (deliverBefore limit run.1 run.2).state

/-- One call, as a part of the delivery. -/
theorem Awaits.call {run : σ × Noting κ} (awaits : Awaits hits run) (limit : DocId) :
    Continues hits limit run.1 run.2 (deliverBefore limit run.1 run.2) ∧
      ((deliverBefore limit run.1 run.2).answer ≠ .ok false →
        Awaits hits (deliverBefore limit run.1 run.2).state) := by
  obtain ⟨pending, split, yields⟩ := awaits
  obtain ⟨offers, left, call⟩ := yields.call (Nat.lt_succ_self (movesLeft run.1)) run.2
  exact call.continues split yields

/-- All calls together. -/
theorem Parts.awaits {start run : σ × Noting κ} (parts : Parts start run)
    (awaits : Awaits hits start) : Awaits hits run := by
  induction parts with
  | start => exact awaits
  | call _ limit going ih => exact (ih.call limit).2 going

end Deliver

/-- A fresh cursor is put on its first document, if there is one, and delivers all hits from there;
in parts, it delivers the same ones. -/
theorem Starts.parts {fresh : σ} (begins : Begins P fresh) : ∃ hits,
    (deliverAll fresh ({} : AllHits)).answer = .ok () ∧
    (deliverAll fresh ({} : AllHits)).state.2.hits.toList = hits ∧
    hits.Pairwise (·.doc < ·.doc) ∧
    ((Cursor.next fresh).answer = .ok true → ∀ {κ : Type} [Collector κ] (k : κ) {run},
      Parts ((Cursor.next fresh).state, { collector := k }) run →
        ∀ limit, Continues hits limit run.1 run.2 (deliverBefore limit run.1 run.2)) := by
  rw [deliverAll, deliverRest]
  cases begins.next with
  | missed c eq empty =>
      rw [eq, Outcome.bind_done]
      exact ⟨[], rfl, rfl, .nil, nofun⟩
  | found d c eq least stood =>
      obtain ⟨hits, yields⟩ := stood.1.yields
      obtain ⟨v, settles⟩ := yields.settles
      obtain ⟨answered, all⟩ := yields.taken_all (Nat.lt_of_le_of_lt settles.moves stood.2) {}
      rw [eq, Outcome.bind_done]
      refine ⟨hits, answered, all, yields.ascending, fun _ κ _ k run parts limit => ?_⟩
      have awaits : Awaits hits run := parts.awaits ⟨hits, rfl, yields⟩
      exact (awaits.call limit).1

end Cursor

open Cursor

namespace Query

variable {height : Nat}

/-- After its first move, a query's cursor can be made to deliver its hits in parts, with limits in
any order, to a collector that refuses any of them. The hits that are taken are those that are
delivered all at once, in the same order and each of them once. -/
theorem delivers_parts (q : Query height) : ∃ fresh hits, q.cursor = .ok fresh ∧
    (deliverAll fresh ({} : AllHits)).answer = .ok () ∧
    (deliverAll fresh ({} : AllHits)).state.2.hits.toList = hits ∧
    hits.Pairwise (·.doc < ·.doc) ∧
    ((Cursor.next fresh).answer = .ok true → ∀ {κ : Type} [Collector κ] (k : κ) {run},
      Parts ((Cursor.next fresh).state, { collector := k }) run →
        ∀ limit, Continues hits limit run.1 run.2 (deliverBefore limit run.1 run.2)) := by
  obtain ⟨fresh, made, idle⟩ := q.exists_cursor
  obtain ⟨hits, delivers⟩ := idle.toStarts.parts
  exact ⟨fresh, hits, made, delivers⟩

/-- The first hit is refused, and the next call has the same limit. -/
theorem delivers_parts_nested : ∃ fresh hits run, nested.cursor = .ok fresh ∧
    Parts ((Cursor.next fresh).state,
      ({ collector := { plan := fun n => if n = 1 then some ⟨.other, "full"⟩ else none } } :
        Noting FaultyCount)) run ∧
    Continues hits 3 run.1 run.2 (deliverBefore 3 run.1 run.2) := by
  obtain ⟨fresh, hits, made, -, -, -, delivers⟩ := delivers_parts nested
  let k : FaultyCount := { plan := fun n => if n = 1 then some ⟨.other, "full"⟩ else none }
  have moved : nested.cursor.map (fun fresh => ((Cursor.next fresh).answer,
      (deliverBefore 3 (Cursor.next fresh).state { collector := k : Noting FaultyCount }).answer)) =
        .ok (.ok true, .error (.reported ⟨.other, "full"⟩)) := by
    decide +kernel
  rw [made] at moved
  obtain ⟨found, refused⟩ := Prod.mk.inj (Except.ok.inj moved)
  have parts : Parts ((Cursor.next fresh).state, { collector := k }) _ :=
    Parts.start.call 3 (by rw [refused]; nofun)
  exact ⟨fresh, hits, _, made, parts, delivers found k parts 3⟩

end Query

end Retrieval
