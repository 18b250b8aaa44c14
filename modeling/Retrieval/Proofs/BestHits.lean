import Retrieval.Collector.TopHits
import Retrieval.Proofs.Ranking

/-!
# The best hits are kept

The hits that have been handed over are ranked by score, and among equal scores by document. If they
come in the order of documents, what is kept are the first of them, as many as there is room for.
Each further hit takes its place among all: it is let in exactly if it is ranked before the last of
those that are kept, which then has to go.
-/

namespace Retrieval

namespace Hit

variable {a b c : Hit}

theorem better_iff : a.better b = true ↔
    b.score.rank < a.score.rank ∨ a.score.rank = b.score.rank ∧ a.doc < b.doc := by
  simp [better]

theorem better_trans (first : a.better b = true) (second : b.better c = true) :
    a.better c = true := by
  rw [better_iff, Int32.lt_iff_toInt_lt] at first second ⊢
  omega

theorem not_better_trans (first : ¬ b.better a = true) (second : ¬ c.better b = true) :
    ¬ c.better a = true := by
  rw [better_iff, Int32.lt_iff_toInt_lt] at first second ⊢
  omega

theorem better_asymm (better : a.better b = true) : ¬ b.better a = true := by
  rw [better_iff, Int32.lt_iff_toInt_lt] at better ⊢
  omega

/-- Of two hits that are not the same, one is ranked before the other. -/
theorem eq_of_not_better (not : ¬ a.better b = true) (not' : ¬ b.better a = true) : a = b := by
  rw [better_iff, Int32.lt_iff_toInt_lt] at not not'
  obtain ⟨doc, score⟩ := a
  obtain ⟨doc', score'⟩ := b
  dsimp only at not not'
  obtain rfl : score = score' := Score.eq_of_rank_eq (by omega)
  obtain rfl : doc = doc' := Int32.toInt_inj.mp (by omega)
  rfl

/-- Of two hits of different documents, one is ranked before the other. -/
theorem better_of_not_better (differ : a.doc < b.doc) (not : ¬ b.better a = true) :
    a.better b = true := by
  rw [better_iff, Int32.lt_iff_toInt_lt] at not ⊢
  rw [Int32.lt_iff_toInt_lt] at differ
  omega

/-- The first hit has the higher score, or the second one's is not higher and its document comes
later. -/
def Beats (a b : Hit) : Prop := b.score < a.score ∨ ¬ a.score < b.score ∧ a.doc < b.doc

theorem beats_iff_better (plain : a.score.Plain) (plain' : b.score.Plain) :
    a.Beats b ↔ a.better b = true := by
  rw [Beats, Score.lt_iff_rank_lt plain' plain, Score.lt_iff_rank_lt plain plain', better_iff,
    Int32.lt_iff_toInt_lt]
  omega

/-- A hit of a later document is better only if its score is higher. -/
theorem score_lt_iff (later : a.doc < b.doc) (plain : a.score.Plain) (plain' : b.score.Plain) :
    a.score < b.score ↔ b.better a = true := by
  rw [Score.lt_iff_rank_lt plain plain', better_iff]
  have after := Int32.not_lt.mpr (Int32.le_of_lt later)
  exact (or_iff_left fun same => after same.2).symm

end Hit

namespace TopHits

variable {hit worst : Hit} {kept ranked rest : List Hit} {n : Nat}

/-- Put a hit in its place among ranked ones. -/
def insert (hit : Hit) : List Hit → List Hit
  | [] => [hit]
  | h :: rest => if hit.better h then hit :: h :: rest else h :: insert hit rest

theorem insert_perm (hit : Hit) (ranked : List Hit) : (insert hit ranked).Perm (hit :: ranked) := by
  induction ranked with
  | nil => exact .refl _
  | cons h rest ih =>
      rw [insert]
      split
      · exact .refl _
      · exact (ih.cons h).trans (.swap hit h rest)

theorem length_insert : (insert hit ranked).length = ranked.length + 1 :=
  (insert_perm hit ranked).length_eq

/-- The order is kept if all others belong to earlier documents. -/
theorem pairwise_insert (sorted : ranked.Pairwise fun a b => a.better b = true)
    (later : ∀ a ∈ ranked, a.doc < hit.doc) :
    (insert hit ranked).Pairwise fun a b => a.better b = true := by
  induction ranked with
  | nil => exact List.pairwise_singleton _ _
  | cons h rest ih =>
      obtain ⟨first, sorted⟩ := List.pairwise_cons.mp sorted
      rw [insert]
      split
      · rename_i better
        refine List.pairwise_cons.mpr ⟨?_, List.pairwise_cons.mpr ⟨first, sorted⟩⟩
        rintro a (_ | ⟨_, inside⟩)
        · exact better
        · exact Hit.better_trans better (first a inside)
      · rename_i notBetter
        refine List.pairwise_cons.mpr ⟨fun a inside => ?_, ih sorted fun a inside =>
          later a (List.mem_cons_of_mem h inside)⟩
        obtain rfl | inside := List.mem_cons.mp ((insert_perm hit rest).mem_iff.mp inside)
        · exact Hit.better_of_not_better (later h List.mem_cons_self) notBetter
        · exact first a inside

/-- A hit that is ranked before `worst` gets its place before it. -/
theorem insert_append_of_better (better : hit.better worst = true) :
    insert hit (kept ++ worst :: rest) = insert hit kept ++ worst :: rest := by
  induction kept with
  | nil => exact if_pos better
  | cons h kept ih =>
      rw [List.cons_append, insert, insert, ih]
      split <;> rfl

theorem insert_append_of_not_better (notBetter : ∀ a ∈ kept, ¬ hit.better a = true) :
    insert hit (kept ++ rest) = kept ++ insert hit rest := by
  induction kept with
  | nil => rfl
  | cons h kept ih =>
      rw [List.cons_append, insert, if_neg (notBetter h List.mem_cons_self),
        ih fun a inside => notBetter a (List.mem_cons_of_mem h inside), List.cons_append]

/-- If there is no room left, a hit is among the first ones exactly if it is ranked before the last
of them. -/
theorem take_insert_of_full (sorted : ranked.Pairwise fun a b => a.better b = true)
    (full : n ≤ ranked.length) (last : (ranked.take n).getLast? = some worst) :
    (insert hit ranked).take n =
      if hit.better worst then insert hit (ranked.take n).dropLast else ranked.take n := by
  obtain ⟨kept, first⟩ := List.getLast?_eq_some_iff.mp last
  have size : (kept ++ [worst]).length = n := by
    rw [← first, List.length_take, Nat.min_eq_left full]
  have whole : ranked = kept ++ worst :: ranked.drop n := by
    rw [List.append_cons, ← first, List.take_append_drop]
  rw [first, List.dropLast_concat]
  split
  · rename_i better
    rw [whole, insert_append_of_better better]
    refine List.take_left' ?_
    rw [length_insert, ← size, List.length_append]
    rfl
  · rename_i notBetter
    have none : ∀ a ∈ kept ++ [worst], ¬ hit.better a = true := by
      intro a inside better
      obtain inside | same := List.mem_append.mp inside
      · rw [whole] at sorted
        have before := (List.pairwise_append.mp sorted).2.2 a inside worst List.mem_cons_self
        exact notBetter (Hit.better_trans better before)
      · exact notBetter (List.mem_singleton.mp same ▸ better)
    rw [whole, List.append_cons, insert_append_of_not_better none]
    exact List.take_left' size

theorem exists_worst? {store : List Hit} (some : store ≠ []) :
    ∃ worst, worst? store = .some worst ∧ worst ∈ store ∧
      ∀ a ∈ store, ¬ worst.better a = true := by
  induction store with
  | nil => exact absurd rfl some
  | cons h rest ih =>
      by_cases none : rest = []
      · rw [none]
        have self : ¬ h.better h = true := fun better => Hit.better_asymm better better
        exact ⟨h, rfl, List.mem_cons_self, by simpa using self⟩
      obtain ⟨worst, found, inside, last⟩ := ih none
      rw [worst?, found]
      refine ⟨_, rfl, ?_⟩
      split
      · rename_i better
        refine ⟨List.mem_cons_self, List.forall_mem_cons.mpr ⟨?_, fun a there before =>
          last a there (Hit.better_trans better before)⟩⟩
        exact fun before => Hit.better_asymm before before
      · rename_i notBetter
        exact ⟨List.mem_cons_of_mem h inside, List.forall_mem_cons.mpr ⟨notBetter, last⟩⟩

/-- However hits are kept, the worst one is the last one when they are ranked. -/
theorem worst?_eq {store : List Hit} (perm : store.Perm (kept ++ [worst]))
    (sorted : (kept ++ [worst]).Pairwise fun a b => a.better b = true) :
    worst? store = some worst := by
  have inside : worst ∈ store := perm.mem_iff.mpr (by simp)
  obtain ⟨found, eq, there, last⟩ := exists_worst? (List.ne_nil_of_mem inside)
  rcases List.mem_append.mp (perm.mem_iff.mp there) with before | same
  · have better := (List.pairwise_append.mp sorted).2.2 found before worst (by simp)
    exact absurd better (last worst inside)
  · rw [eq, List.mem_singleton.mp same]

variable {k : TopHits} {hits : List Hit}

/-- However hits are kept, they are handed out as they are ranked. -/
theorem hits_eq (perm : k.store.Perm ranked)
    (sorted : ranked.Pairwise fun a b => a.better b = true) : k.hits = ranked := by
  have trans (a b c : Hit) (first : (!b.better a) = true) (second : (!c.better b) = true) :
      (!c.better a) = true := by
    simp only [Bool.not_eq_true', ← Bool.not_eq_true] at first second ⊢
    exact Hit.not_better_trans first second
  have total (a b : Hit) : (!b.better a || !a.better b) = true := by
    rw [← Bool.not_and, Bool.not_eq_true', Bool.and_eq_false_imp]
    exact fun better => Bool.not_eq_true _ ▸ Hit.better_asymm better
  have ordered := List.pairwise_mergeSort trans total k.store
  refine List.Perm.eq_of_pairwise ?_ ordered ?_ ((List.mergeSort_perm _ _).trans perm)
  · intro a b _ _ first second
    simp only [Bool.not_eq_true', ← Bool.not_eq_true] at first second
    exact Hit.eq_of_not_better second first
  · exact sorted.imp fun better => by simpa using Hit.better_asymm better

/-- What has been kept of the hits that were handed over. -/
structure Keeps (hits : List Hit) (k : TopHits) : Prop where
  exists_ranked : ∃ ranked : List Hit, ranked.Perm hits ∧
    (ranked.Pairwise fun a b => a.better b = true) ∧ k.store.Perm (ranked.take k.capacity)
  total : k.total = hits.length

/-- A hit is counted, and nothing but the hits changes besides. -/
theorem take_eq (k : TopHits) (hit : Hit) :
    k.take hit = ⟨k.capacity, (k.take hit).store, k.total + 1⟩ := by
  rw [take]
  dsimp only
  split
  · rfl
  · split
    · rfl
    · split
      · rfl
      · split <;> rfl

theorem capacity_take (k : TopHits) (hit : Hit) : (k.take hit).capacity = k.capacity := by
  rw [take_eq]

theorem total_take (k : TopHits) (hit : Hit) : (k.take hit).total = k.total + 1 := by
  rw [take_eq]

/-- Taking a hit of a later document is putting it in its place among all others. -/
theorem store_take (sorted : ranked.Pairwise fun a b => a.better b = true)
    (perm : k.store.Perm (ranked.take k.capacity)) (later : ∀ a ∈ ranked, a.doc < hit.doc)
    (plain : ∀ a ∈ ranked, a.score.Plain) (plain' : hit.score.Plain) :
    (k.take hit).store.Perm ((insert hit ranked).take k.capacity) := by
  have size : k.store.length = min k.capacity ranked.length := by
    rw [perm.length_eq, List.length_take]
  rw [take]
  dsimp only
  by_cases none : k.capacity = 0
  · rw [if_pos none, none, List.take_zero]
    rwa [none, List.take_zero] at perm
  rw [if_neg none]
  by_cases room : k.store.length < k.capacity
  · rw [List.take_of_length_le (by omega)] at perm
    rw [if_pos room, List.take_of_length_le (by rw [length_insert]; omega)]
    exact (perm.cons hit).trans (insert_perm hit ranked).symm
  rw [if_neg room]
  have full : k.capacity ≤ ranked.length := by omega
  have some : ranked.take k.capacity ≠ [] := by
    rw [ne_eq, List.take_eq_nil_iff]
    rintro (empty | rfl)
    · exact none empty
    · exact none (Nat.eq_zero_of_le_zero full)
  obtain ⟨worst, last⟩ := Option.ne_none_iff_exists'.mp (mt List.getLast?_eq_none_iff.mp some)
  obtain ⟨kept, first⟩ := List.getLast?_eq_some_iff.mp last
  have ranked' : (kept ++ [worst]).Pairwise fun a b => a.better b = true :=
    first ▸ sorted.sublist (List.take_sublist ..)
  have inside : worst ∈ ranked := List.mem_of_mem_take (List.mem_of_getLast? last)
  have higher := Hit.score_lt_iff (later worst inside) (plain worst inside) plain'
  rw [take_insert_of_full sorted full last]
  rw [first] at perm ⊢
  rw [worst?_eq perm ranked', List.dropLast_concat]
  dsimp only
  by_cases better : hit.better worst = true
  · rw [if_pos (higher.mpr better), if_pos better]
    have others := (perm.trans (List.perm_append_singleton worst kept)).erase worst
    rw [List.erase_cons_head] at others
    exact (others.cons hit).trans (insert_perm hit kept).symm
  · rwa [if_neg (mt higher.mp better), if_neg better]

theorem Keeps.take (keeps : Keeps hits k) (later : ∀ a ∈ hits, a.doc < hit.doc)
    (plain : ∀ a ∈ hits, a.score.Plain) (plain' : hit.score.Plain) :
    Keeps (hits ++ [hit]) (k.take hit) := by
  obtain ⟨ranked, perm, sorted, eq⟩ := keeps.exists_ranked
  have later' : ∀ a ∈ ranked, a.doc < hit.doc := fun a inside => later a (perm.mem_iff.mp inside)
  refine ⟨⟨insert hit ranked, ?_, pairwise_insert sorted later', ?_⟩, ?_⟩
  · exact (insert_perm hit ranked).trans ((perm.cons hit).trans
      (List.perm_append_singleton hit hits).symm)
  · rw [capacity_take]
    exact store_take sorted eq later' (fun a inside => plain a (perm.mem_iff.mp inside)) plain'
  · rw [total_take, keeps.total, List.length_append]
    rfl

end TopHits

/-- A collector after some hits have been handed over, whatever it answered. -/
def Collector.collectAll {κ : Type} [Collector κ] (k : κ) (hits : List Hit) : κ :=
  hits.foldl (fun k hit => (Collector.collect k hit).2) k

open Collector

namespace TopHits

variable {k : TopHits} {hits : List Hit} {capacity : Nat}

/-- Room for some hits, none of which has been handed over since it was made or reset. -/
inductive Blank (capacity : Nat) : TopHits → Prop
  | new : Blank capacity { capacity }
  | reset {k : TopHits} (same : k.capacity = capacity) : Blank capacity (Collector.reset k)

theorem Blank.keeps (blank : Blank capacity k) : Keeps [] k := by
  cases blank <;> exact ⟨⟨[], .nil, .nil, .of_eq List.take_nil.symm⟩, rfl⟩

theorem capacity_collectAll (k : TopHits) (hits : List Hit) :
    (collectAll k hits).capacity = k.capacity := by
  induction hits generalizing k with
  | nil => rfl
  | cons hit hits ih => exact (ih (k.take hit)).trans (capacity_take k hit)

theorem keeps_collectAll (keeps : Keeps [] k) (ascending : hits.Pairwise fun a b => a.doc < b.doc)
    (plain : ∀ a ∈ hits, a.score.Plain) : Keeps hits (collectAll k hits) := by
  induction hits using List.reverseRecOn with
  | nil => exact keeps
  | append_singleton hits hit ih =>
      have last := List.mem_singleton_self hit
      obtain ⟨ascending, -, later⟩ := List.pairwise_append.mp ascending
      obtain ⟨plain, plain'⟩ := List.forall_mem_append.mp plain
      rw [collectAll, List.foldl_append]
      exact (ih ascending plain).take (fun a inside => later a inside hit last) plain
        (plain' hit last)

/-- After hits in the order of their documents, whose scores are numbers other than the zero with a
minus sign, those are kept that come first among all of them by higher score and then by earlier
document, as many as there is room for. All of them have been counted. -/
theorem hits_collectAll (blank : Blank capacity k)
    (ascending : hits.Pairwise fun a b => a.doc < b.doc) (plain : ∀ a ∈ hits, a.score.Plain) :
    (∃ ranked : List Hit, ranked.Perm hits ∧ ranked.Pairwise Hit.Beats ∧
      (collectAll k hits).hits = ranked.take capacity) ∧
    Collector.total (collectAll k hits) = hits.length := by
  obtain ⟨⟨ranked, perm, sorted, kept⟩, total⟩ := keeps_collectAll blank.keeps ascending plain
  have room : (collectAll k hits).capacity = capacity := by
    rw [capacity_collectAll]
    cases blank with
    | new => rfl
    | reset same => exact same
  refine ⟨⟨ranked, perm, ?_, hits_eq (room ▸ kept) (sorted.sublist (List.take_sublist ..))⟩, total⟩
  refine sorted.imp_of_mem fun {a b} first second better => ?_
  exact (Hit.beats_iff_better (plain a (perm.mem_iff.mp first))
    (plain b (perm.mem_iff.mp second))).mpr better

/-- Three hits in the order of their documents, the last two with equal scores. -/
def tied : List Hit := [⟨1, 1⟩, ⟨4, .ofNat 3⟩, ⟨6, .ofNat 3⟩]

/-- With room for two hits, the first one has to go when the last one comes. -/
theorem hits_collectAll_tied : Blank 2 (Collector.reset ({ capacity := 2, total := 7 } : TopHits)) ∧
    (tied.Pairwise fun a b => a.doc < b.doc) ∧ (∀ a ∈ tied, a.score.Plain) ∧
    ∃ k : TopHits, k.hits = [⟨4, .ofNat 3⟩, ⟨6, .ofNat 3⟩] ∧ Collector.total k = 3 ∧
      ∃ ranked : List Hit, ranked.Perm tied ∧ ranked.Pairwise Hit.Beats ∧
        k.hits = ranked.take 2 := by
  have blank : Blank 2 (Collector.reset ({ capacity := 2, total := 7 } : TopHits)) := .reset rfl
  have ascending : tied.Pairwise fun a b => a.doc < b.doc := by decide
  have plain : ∀ a ∈ tied, a.score.Plain := by decide +kernel
  obtain ⟨best, total⟩ := hits_collectAll blank ascending plain
  refine ⟨blank, ascending, plain, _, hits_eq ?_ ?_, total, best⟩ <;> decide +kernel

end TopHits

end Retrieval
