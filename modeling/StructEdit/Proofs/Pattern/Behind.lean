import StructEdit.Proofs.Scan.Partition

/-!
# Matches and the text behind them

Without anchors, a pattern sees no more of a text than it reads. So what stands behind a text
makes a difference to a match in the text only when the match goes on into it. The longest offer of
a grammar without anchors is then the same, or it goes on behind the text as well, and so does the
next token of a line.
-/
namespace StructEdit

/-! ## Patterns without anchors -/

/-- No anchor occurs in the pattern. -/
def Pattern.isFree : Pattern → Bool
  | .empty | .mark _ | .one _ => true
  | .look _ => false
  | .seq p q | .alt p q => p.isFree && q.isFree
  | .rounds _ p | .further _ p => p.isFree

def Agenda.IsFree (a : Agenda) : Prop := ∀ p ∈ a, p.isFree = true

def Move.IsFree : Move → Prop
  | .stop => True
  | .read _ next => Agenda.IsFree next

def Explorer.IsFree (e : Explorer) : Prop := ∀ met, ∀ m ∈ (e met).1, m.IsFree

namespace Explorer

variable {a b : Explorer}

theorem isFree_nothing : (found []).IsFree := by
  intro met m hm
  simp [found] at hm

theorem IsFree.both (ha : a.IsFree) (hb : b.IsFree) : (a.both b).IsFree := fun met m hm =>
  (List.mem_append.1 hm).elim (ha met m) (hb _ m)

theorem IsFree.once (choice : Agenda) (ha : a.IsFree) : (a.once choice).IsFree := by
  intro met m hm
  unfold Explorer.once at hm
  split at hm
  · simp at hm
  · exact ha _ m hm

end Explorer

theorem Agenda.isFree_cons {p : Pattern} {next : Agenda} :
    Agenda.IsFree (p :: next) ↔ p.isFree = true ∧ Agenda.IsFree next := List.forall_mem_cons

theorem Pattern.isFree_explore (spot : Spot) {p : Pattern} {next : Agenda} {after : Explorer}
    (hp : p.isFree = true) (hnext : Agenda.IsFree next) (hafter : after.IsFree) :
    (p.explore spot next after).IsFree := by
  induction p generalizing next after with
  | empty | mark => exact hafter
  | look => simp [isFree] at hp
  | one k =>
    intro met m hm
    obtain rfl : m = .read k next := by simpa [explore, Explorer.found] using hm
    exact hnext
  | seq p q ihp ihq =>
    obtain ⟨hp, hq⟩ := Bool.and_eq_true_iff.1 hp
    exact ihp hp (Agenda.isFree_cons.2 ⟨hq, hnext⟩) (ihq hq hnext hafter)
  | alt p q ihp ihq =>
    obtain ⟨hp, hq⟩ := Bool.and_eq_true_iff.1 hp
    exact .once _ (.both (ihp hp hnext hafter) (ihq hq hnext hafter))
  | rounds g p ih => exact ih hp (Agenda.isFree_cons.2 ⟨hp, hnext⟩) (.once _ hafter)
  | further g p ih =>
    have hagain : (p.explore spot (.further g p :: next) (.found [])).IsFree :=
      ih hp (Agenda.isFree_cons.2 ⟨hp, hnext⟩) Explorer.isFree_nothing
    cases g with
    | most => exact .once _ (.both hagain hafter)
    | least => exact .once _ (.both hafter hagain)

/-- Without anchors, a place is like any other. -/
theorem Pattern.explore_congr {p : Pattern} (hp : p.isFree = true) (spot spot' : Spot)
    (next : Agenda) (after : Explorer) : p.explore spot next after = p.explore spot' next after := by
  induction p generalizing next after with
  | empty | mark | one => rfl
  | look => simp [isFree] at hp
  | seq p q ihp ihq =>
    obtain ⟨hp, hq⟩ := Bool.and_eq_true_iff.1 hp
    rw [explore, explore, ihq hq, ihp hp]
  | alt p q ihp ihq =>
    obtain ⟨hp, hq⟩ := Bool.and_eq_true_iff.1 hp
    rw [explore, explore, ihp hp, ihq hq]
  | rounds g p ih => rw [explore, explore, ih hp]
  | further g p ih => cases g <;> simp only [explore, ih hp (.further _ p :: next)]

namespace Agenda

theorem isFree_explore (spot : Spot) {a : Agenda} (h : a.IsFree) : (explore spot a).IsFree := by
  induction a with
  | nil =>
    intro met m hm
    obtain rfl : m = .stop := by simpa [explore, Explorer.found] using hm
    exact trivial
  | cons p next ih =>
    obtain ⟨hp, hnext⟩ := isFree_cons.1 h
    exact Pattern.isFree_explore spot hp hnext (ih hnext)

theorem explore_congr {a : Agenda} (h : a.IsFree) (spot spot' : Spot) :
    explore spot a = explore spot' a := by
  induction a with
  | nil => rfl
  | cons p next ih =>
    obtain ⟨hp, hnext⟩ := isFree_cons.1 h
    rw [explore, explore, ih hnext, Pattern.explore_congr hp spot spot']

variable {play : List Agenda}

theorem moves_congr (h : ∀ a ∈ play, a.IsFree) (spot spot' : Spot) :
    moves spot play = moves spot' play := by
  have hfold : play.foldr (fun a b => .both (explore spot a) b) (Explorer.found []) =
      play.foldr (fun a b => .both (explore spot' a) b) (Explorer.found []) := by
    induction play with
    | nil => rfl
    | cons a play ih =>
      rw [List.foldr_cons, List.foldr_cons, ih fun b hb => h b (List.mem_cons_of_mem a hb),
        explore_congr (h a List.mem_cons_self) spot spot']
  rw [moves, moves, hfold]

theorem isFree_moves (h : ∀ a ∈ play, a.IsFree) (spot : Spot) : ∀ m ∈ moves spot play, m.IsFree := by
  have hfold : (play.foldr (fun a b => .both (explore spot a) b) (Explorer.found [])).IsFree := by
    induction play with
    | nil => exact Explorer.isFree_nothing
    | cons a play ih =>
      exact .both (isFree_explore spot (h a List.mem_cons_self))
        (ih fun b hb => h b (List.mem_cons_of_mem a hb))
  exact fun m hm => hfold [] m (List.mem_eraseDups.1 hm)

/-- The agendas in play after a character. -/
def next (before : Option Char) (play : List Agenda) (c : Char) : List Agenda :=
  (((moves ⟨before, some c⟩ play).takeWhile (!·.isStop)).filterMap (Move.next? c)).eraseDups

theorem isFree_next (h : ∀ a ∈ play, a.IsFree) (before : Option Char) (c : Char) :
    ∀ a ∈ next before play c, a.IsFree := by
  intro a ha
  obtain ⟨m, hm, hnext⟩ := List.mem_filterMap.1 (List.mem_eraseDups.1 ha)
  have hfree := isFree_moves h ⟨before, some c⟩ m (List.takeWhile_subset _ hm)
  cases m with
  | stop => simp [Move.next?] at hnext
  | read k next =>
    simp only [Move.next?] at hnext
    split at hnext
    · obtain rfl := Option.some.inj hnext
      exact hfree
    · simp at hnext

/-- Whether a match may end here. -/
def here (spot : Spot) (play : List Agenda) : Option Nat :=
  if (moves spot play).any Move.isStop then some 0 else none

theorem reach?_of_next_nil {before : Option Char} {c : Char} (h : next before play c = [])
    (s : Text) : reach? before play (c :: s) = here ⟨before, some c⟩ play := by
  rw [next] at h
  simp only [reach?, List.head?_cons, h]
  rfl

theorem reach?_of_next {before : Option Char} {c : Char} (h : next before play c ≠ [])
    (s : Text) : reach? before play (c :: s) =
      ((reach? (some c) (next before play c) s).map (· + 1)).or (here ⟨before, some c⟩ play) := by
  obtain ⟨a, rest, hrest⟩ := List.exists_cons_of_ne_nil h
  rw [hrest]
  rw [next] at hrest
  simp only [reach?, List.head?_cons, hrest]
  rfl

/-- With more text behind it, the match of a text is the same, or it goes on into what stands
behind. -/
theorem reach?_append (h : ∀ a ∈ play, a.IsFree) (before : Option Char) (u t : Text) :
    reach? before play (u ++ t) = reach? before play u ∨
      ∃ n, reach? before play (u ++ t) = some n ∧ u.length < n := by
  induction u generalizing before play with
  | nil =>
    cases t with
    | nil => exact Or.inl rfl
    | cons c t =>
      have hhere : here ⟨before, some c⟩ play = reach? before play [] := by
        rw [here, moves_congr h ⟨before, some c⟩ ⟨before, none⟩]
        rfl
      by_cases hnil : next before play c = []
      · exact Or.inl ((reach?_of_next_nil hnil t).trans hhere)
      · rw [List.nil_append, reach?_of_next hnil, hhere]
        cases reach? (some c) (next before play c) t with
        | none => exact Or.inl rfl
        | some n => exact Or.inr ⟨n + 1, rfl, Nat.succ_pos n⟩
  | cons c u ih =>
    rw [List.cons_append]
    by_cases hnil : next before play c = []
    · exact Or.inl ((reach?_of_next_nil hnil _).trans (reach?_of_next_nil hnil u).symm)
    · rw [reach?_of_next hnil, reach?_of_next hnil]
      rcases ih (isFree_next h before c) (some c) with heq | ⟨n, hn, hlt⟩
      · exact Or.inl (by rw [heq])
      · exact Or.inr ⟨n + 1, by rw [hn]; rfl, Nat.succ_lt_succ hlt⟩

end Agenda

theorem Pattern.matchLength?_append {p : Pattern} (h : p.isFree = true) (u t : Text) :
    p.matchLength? (u ++ t) = p.matchLength? u ∨
      ∃ n, p.matchLength? (u ++ t) = some n ∧ u.length < n :=
  Agenda.reach?_append (by simpa [Agenda.IsFree] using h) none u t

/-! ## Grammars without anchors -/

namespace Grammar

/-- The offer of one more terminal, when the best offers so far agree or the second one goes on. -/
theorem better_append {u t : Text} {best best' : Option (Kind × Nat)} {x : Terminal}
    (hx : x.pattern.isFree = true) (hbest : ∀ k n, best = some (k, n) → n ≤ u.length)
    (h : best' = best ∨ ∃ k n, best' = some (k, n) ∧ u.length < n) :
    (∀ k n, better u best x = some (k, n) → n ≤ u.length) ∧
      (better (u ++ t) best' x = better u best x ∨
        ∃ k n, better (u ++ t) best' x = some (k, n) ∧ u.length < n) := by
  have hroom : (best.map Prod.snd).getD 0 ≤ u.length := by
    cases hb : best with
    | none => exact Nat.zero_le _
    | some r => exact hbest r.1 r.2 hb
  constructor
  · intro k n hn
    unfold better at hn
    split at hn
    · exact hbest k n hn
    · rename_i m hm
      split at hn
      · obtain ⟨-, rfl⟩ := Prod.mk.inj (Option.some.inj hn)
        exact Pattern.matchLength?_le hm
      · exact hbest k n hn
  · rcases Pattern.matchLength?_append hx u t with heq | ⟨m, hm, hlt⟩
    · rcases h with rfl | ⟨k, n, rfl, hlt⟩
      · exact Or.inl (by simp only [better, Matcher.length?_pattern, heq])
      · refine Or.inr ⟨k, n, ?_, hlt⟩
        rw [better, Matcher.length?_pattern, heq]
        split
        · rfl
        · rename_i m hm
          have := Pattern.matchLength?_le hm
          exact if_neg (by simp; omega)
    · rw [better, Matcher.length?_pattern, hm]
      rcases h with rfl | ⟨k, n, rfl, hlt'⟩
      · exact Or.inr ⟨x.kind, m, if_pos (by omega), hlt⟩
      · by_cases hbetter : n < m
        · exact Or.inr ⟨x.kind, m, if_pos hbetter, hlt⟩
        · exact Or.inr ⟨k, n, if_neg hbetter, hlt'⟩

theorem longest?_append {g : Grammar} (h : ∀ x ∈ g, x.pattern.isFree = true) (u t : Text) :
    g.longest? (u ++ t) = g.longest? u ∨
      ∃ k n, g.longest? (u ++ t) = some (k, n) ∧ u.length < n := by
  have go : ∀ (xs : List Terminal) (best best' : Option (Kind × Nat)),
      (∀ x ∈ xs, x.pattern.isFree = true) → (∀ k n, best = some (k, n) → n ≤ u.length) →
      (best' = best ∨ ∃ k n, best' = some (k, n) ∧ u.length < n) →
      xs.foldl (better (u ++ t)) best' = xs.foldl (better u) best ∨
        ∃ k n, xs.foldl (better (u ++ t)) best' = some (k, n) ∧ u.length < n := by
    intro xs
    induction xs with
    | nil => exact fun _ _ _ _ h => h
    | cons x xs ih =>
      intro best best' hfree hbest hagree
      obtain ⟨hbest', hagree'⟩ := better_append (t := t) (hfree x List.mem_cons_self) hbest hagree
      exact ih _ _ (fun y hy => hfree y (List.mem_cons_of_mem x hy)) hbest' hagree'
  exact go g none none h (by simp) (Or.inl rfl)

end Grammar

theorem Mode.isFree_grammar (m : Mode) : ∀ x ∈ m.grammar, x.pattern.isFree = true := by
  cases m <;> decide +kernel

/-- With more text behind it, the next token of a text is the same, or it goes on into what stands
behind. -/
theorem Mode.read?_append (m : Mode) (u t : Text) :
    m.read? (u ++ t) = m.read? u ∨ ∃ k n, m.read? (u ++ t) = some (k, n) ∧ u.length < n := by
  rcases Grammar.longest?_append m.isFree_grammar u t with heq | ⟨k, n, hn, hlt⟩
  · unfold read?
    rw [heq]
    cases m.grammar.longest? u with
    | some r => exact Or.inl rfl
    | none =>
      cases t with
      | nil => exact Or.inl (by rw [List.append_nil])
      | cons c t => exact Or.inr ⟨.junk, (u ++ c :: t).length, by simp, by simp⟩
  · exact Or.inr ⟨k, n, by rw [read?, hn], hlt⟩

end StructEdit
