import StructEdit.Pattern.Basic

/-!
# What a match reads

The texts of a pattern, without regard to preference and anchors. The preferred match
of a pattern reads one of its texts. The proof follows the exploration of agendas: every
move that is found either stops where the agenda has nothing more to read, or reads a
character that one of the texts of the agenda starts with.
-/
namespace StructEdit

/-- The texts that a pattern can read. -/
inductive Pattern.Reads : Pattern → Text → Prop
  | empty : Reads .empty []
  | mark (n : Nat) : Reads (.mark n) []
  | look (a : Anchor) : Reads (.look a) []
  | one {k : CharSet} {c : Char} : k.contains c = true → Reads (.one k) [c]
  | seq {p q : Pattern} {s t : Text} : Reads p s → Reads q t → Reads (.seq p q) (s ++ t)
  | left {p q : Pattern} {s : Text} : Reads p s → Reads (.alt p q) s
  | right {p q : Pattern} {s : Text} : Reads q s → Reads (.alt p q) s
  | rounds {g : Greed} {p : Pattern} {s t : Text} :
      Reads p s → Reads (.further g p) t → Reads (.rounds g p) (s ++ t)
  | done (g : Greed) (p : Pattern) : Reads (.further g p) []
  | again {g : Greed} {p : Pattern} {s t : Text} :
      Reads p s → Reads (.further g p) t → Reads (.further g p) (s ++ t)

/-- The texts that an agenda can read, pattern after pattern. -/
def Agenda.Reads : Agenda → Text → Prop
  | [], s => s = []
  | p :: next, s => ∃ t u, s = t ++ u ∧ p.Reads t ∧ Agenda.Reads next u

/-- The move goes on with the texts of `texts`. -/
def Move.Within (texts : Text → Prop) : Move → Prop
  | .stop => texts []
  | .read k next => ∀ c s, k.contains c = true → Agenda.Reads next s → texts (c :: s)

def Explorer.Sound (e : Explorer) (texts : Text → Prop) : Prop :=
  ∀ met, ∀ m ∈ (e met).1, m.Within texts

theorem Move.Within.mono {texts texts' : Text → Prop} (h : ∀ s, texts s → texts' s) {m : Move}
    (hm : m.Within texts) : m.Within texts' := by
  cases m with
  | stop => exact h _ hm
  | read k next => exact fun c s hc hs => h _ (hm c s hc hs)

namespace Explorer

variable {texts texts' : Text → Prop} {a b : Explorer}

theorem Sound.mono (h : ∀ s, texts s → texts' s) (ha : a.Sound texts) : a.Sound texts' :=
  fun met m hm => (ha met m hm).mono h

theorem sound_nothing : (found []).Sound texts := by
  intro met m hm
  simp [found] at hm

theorem Sound.both (ha : a.Sound texts) (hb : b.Sound texts) : (a.both b).Sound texts := by
  intro met m hm
  rcases List.mem_append.1 hm with hm | hm
  · exact ha _ m hm
  · exact hb _ m hm

theorem Sound.once (choice : Agenda) (ha : a.Sound texts) : (a.once choice).Sound texts := by
  intro met m hm
  unfold Explorer.once at hm
  split at hm
  · simp at hm
  · exact ha _ m hm

end Explorer

/-- Exploring a pattern finds moves of the agenda that starts with it, if the rest is explored so. -/
theorem Pattern.sound_explore (spot : Spot) (p : Pattern) {next : Agenda} {after : Explorer}
    (h : after.Sound (Agenda.Reads next)) :
    (p.explore spot next after).Sound (Agenda.Reads (p :: next)) := by
  induction p generalizing next after with
  | empty => exact h.mono fun s hs => ⟨[], s, rfl, .empty, hs⟩
  | mark n => exact h.mono fun s hs => ⟨[], s, rfl, .mark n, hs⟩
  | look a =>
    simp only [explore]
    split
    · exact h.mono fun s hs => ⟨[], s, rfl, .look a, hs⟩
    · exact Explorer.sound_nothing
  | one k =>
    intro met m hm
    obtain rfl : m = .read k next := by simpa [explore, Explorer.found] using hm
    exact fun c s hc hs => ⟨[c], s, rfl, .one hc, hs⟩
  | seq p q ihp ihq =>
    refine (ihp (ihq h)).mono fun s hs => ?_
    obtain ⟨t, u, rfl, ht, v, w, rfl, hv, hw⟩ := hs
    exact ⟨t ++ v, w, by simp, .seq ht hv, hw⟩
  | alt p q ihp ihq =>
    refine Explorer.Sound.once _ (Explorer.Sound.both ?_ ?_)
    · refine (ihp h).mono fun s hs => ?_
      obtain ⟨t, u, rfl, ht, hu⟩ := hs
      exact ⟨t, u, rfl, .left ht, hu⟩
    · refine (ihq h).mono fun s hs => ?_
      obtain ⟨t, u, rfl, ht, hu⟩ := hs
      exact ⟨t, u, rfl, .right ht, hu⟩
  | rounds g p ih =>
    have hrest : (Explorer.once (.further g p :: next) after).Sound
        (Agenda.Reads (.further g p :: next)) :=
      Explorer.Sound.once _ (h.mono fun s hs => ⟨[], s, rfl, .done g p, hs⟩)
    refine (ih hrest).mono fun s hs => ?_
    obtain ⟨t, u, rfl, ht, v, w, rfl, hv, hw⟩ := hs
    exact ⟨t ++ v, w, by simp, .rounds ht hv, hw⟩
  | further g p ih =>
    have hend : after.Sound (Agenda.Reads (.further g p :: next)) :=
      h.mono fun s hs => ⟨[], s, rfl, .done g p, hs⟩
    have hagain : (p.explore spot (.further g p :: next) (.found [])).Sound
        (Agenda.Reads (.further g p :: next)) := by
      refine (ih Explorer.sound_nothing).mono fun s hs => ?_
      obtain ⟨t, u, rfl, ht, v, w, rfl, hv, hw⟩ := hs
      exact ⟨t ++ v, w, by simp, .again ht hv, hw⟩
    cases g with
    | most => exact Explorer.Sound.once _ (hagain.both hend)
    | least => exact Explorer.Sound.once _ (hend.both hagain)

namespace Agenda

theorem sound_explore (spot : Spot) (a : Agenda) : (explore spot a).Sound (Reads a) := by
  induction a with
  | nil =>
    intro met m hm
    obtain rfl : m = .stop := by simpa [explore, Explorer.found] using hm
    exact rfl
  | cons p next ih => exact p.sound_explore spot ih

theorem within_of_mem_moves {spot : Spot} {play : List Agenda} {m : Move}
    (h : m ∈ moves spot play) : ∃ a ∈ play, m.Within (Reads a) := by
  have go : ∀ (play : List Agenda) (met : List Agenda),
      m ∈ ((play.foldr (fun a b => .both (explore spot a) b) (Explorer.found [])) met).1 →
      ∃ a ∈ play, m.Within (Reads a) := by
    intro play
    induction play with
    | nil => simp [Explorer.found]
    | cons a play ih =>
      intro met hm
      rcases List.mem_append.1 hm with hm | hm
      · exact ⟨a, List.mem_cons_self, sound_explore spot a _ m hm⟩
      · obtain ⟨b, hb, hw⟩ := ih _ hm
        exact ⟨b, List.mem_cons_of_mem _ hb, hw⟩
  exact go play [] (List.mem_eraseDups.1 h)

theorem reads_of_stop {spot : Spot} {play : List Agenda} {n : Nat}
    (h : (if (moves spot play).any Move.isStop then some 0 else none) = some n) :
    n = 0 ∧ ∃ a ∈ play, Reads a [] := by
  split at h
  · rename_i hany
    obtain ⟨m, hm, hstop⟩ := List.any_eq_true.1 hany
    obtain ⟨a, ha, hw⟩ := within_of_mem_moves hm
    cases m with
    | stop => exact ⟨(Option.some.inj h).symm, a, ha, hw⟩
    | read k next => simp [Move.isStop] at hstop
  · simp at h

theorem reads_of_reach? {before : Option Char} {play : List Agenda} {s : Text} {n : Nat}
    (h : reach? before play s = some n) : ∃ a ∈ play, Reads a (s.take n) := by
  induction s generalizing before play n with
  | nil =>
    rw [reach?] at h
    obtain ⟨rfl, a, ha, hr⟩ := reads_of_stop h
    exact ⟨a, ha, hr⟩
  | cons c s ih =>
    simp only [reach?] at h
    split at h
    · obtain ⟨rfl, a, ha, hr⟩ := reads_of_stop h
      exact ⟨a, ha, hr⟩
    · rw [Option.or_eq_some_iff] at h
      rcases h with h | ⟨-, h⟩
      · obtain ⟨m, hm, rfl⟩ := Option.map_eq_some_iff.1 h
        obtain ⟨b, hb, hr⟩ := ih hm
        obtain ⟨move, hmove, hnext⟩ := List.mem_filterMap.1 (List.mem_eraseDups.1 hb)
        obtain ⟨a, ha, hw⟩ := within_of_mem_moves (List.takeWhile_subset _ hmove)
        cases move with
        | stop => simp [Move.next?] at hnext
        | read k next =>
          simp only [Move.next?] at hnext
          split at hnext
          · rename_i hc
            obtain rfl := Option.some.inj hnext
            exact ⟨a, ha, hw c _ hc hr⟩
          · simp at hnext
      · obtain ⟨rfl, a, ha, hr⟩ := reads_of_stop h
        exact ⟨a, ha, hr⟩

/-- One character read, where a single agenda goes on. -/
theorem reach?_cons {before : Option Char} {play : List Agenda} {c : Char} (next : Agenda)
    (h : ((moves ⟨before, some c⟩ play).takeWhile (!·.isStop)).filterMap (Move.next? c) = [next])
    (s : Text) :
    reach? before play (c :: s) = ((reach? (some c) [next] s).map (· + 1)).or
      (if (moves ⟨before, some c⟩ play).any Move.isStop then some 0 else none) := by
  simp only [reach?, List.head?_cons, h]
  rfl

/-- An agenda that is done has been matched. -/
theorem reach?_done (before : Option Char) (s : Text) : reach? before [[]] s = some 0 := by
  have hmoves : ∀ spot, moves spot [[]] = [.stop] := fun _ => rfl
  cases s with
  | nil => simp [reach?, hmoves, Move.isStop]
  | cons c s => simp [reach?, hmoves, Move.isStop]

end Agenda

namespace Pattern

theorem reads_of_matchLength? {p : Pattern} {s : Text} {n : Nat}
    (h : p.matchLength? s = some n) : p.Reads (s.take n) := by
  obtain ⟨a, ha, hr⟩ := Agenda.reads_of_reach? h
  obtain rfl : a = [p] := by simpa using ha
  obtain ⟨t, u, hs, ht, rfl⟩ := hr
  rw [hs, List.append_nil]
  exact ht

/-- Whether some set of the pattern has the character. -/
def asks (c : Char) : Pattern → Bool
  | .empty | .mark _ | .look _ => false
  | .one k => k.contains c
  | .seq p q | .alt p q => p.asks c || q.asks c
  | .rounds _ p | .further _ p => p.asks c

/-- A pattern reads characters that it asks for. -/
theorem Reads.asks_of_mem {p : Pattern} {s : Text} (h : p.Reads s) {c : Char} (hc : c ∈ s) :
    p.asks c = true := by
  induction h with
  | empty => simp at hc
  | mark => simp at hc
  | look => simp at hc
  | one hk =>
    obtain rfl := List.mem_singleton.1 hc
    exact hk
  | seq _ _ ihp ihq =>
    simp only [asks, Bool.or_eq_true]
    exact (List.mem_append.1 hc).imp ihp ihq
  | left _ ih => simp [asks, ih hc]
  | right _ ih => simp [asks, ih hc]
  | rounds _ _ ihp ihq => exact (List.mem_append.1 hc).elim ihp ihq
  | done => simp at hc
  | again _ _ ihp ihq => exact (List.mem_append.1 hc).elim ihp ihq

theorem reads_char {c : Char} {s : Text} : (char c).Reads s ↔ s = [c] := by
  constructor
  · intro h
    cases h with
    | one hk =>
      rw [CharSet.contains_single, decide_eq_true_eq] at hk
      rw [hk]
  · rintro rfl
    exact .one (by simp [CharSet.contains_single])

/-- A set reads one character. -/
theorem eq_one_of_matchLength? {k : CharSet} {s : Text} {n : Nat}
    (h : (one k).matchLength? s = some n) : n = 1 := by
  have hreads := reads_of_matchLength? h
  have hle := matchLength?_le h
  generalize hw : s.take n = w at hreads
  cases hreads with
  | one _ =>
    have hlen := congrArg List.length hw
    rw [List.length_take, Nat.min_eq_left hle] at hlen
    exact hlen

theorem reads_seq {p q : Pattern} {s : Text} :
    (Pattern.seq p q).Reads s ↔ ∃ t u, s = t ++ u ∧ p.Reads t ∧ q.Reads u := by
  constructor
  · intro h
    cases h with
    | seq ht hu => exact ⟨_, _, rfl, ht, hu⟩
  · rintro ⟨t, u, rfl, ht, hu⟩
    exact .seq ht hu

theorem reads_literal {s t : Text} (h : (literal s).Reads t) : t = s := by
  induction s generalizing t with
  | nil =>
    cases h
    rfl
  | cons c s ih =>
    cases s with
    | nil => exact reads_char.1 h
    | cons d s =>
      obtain ⟨u, v, rfl, hu, hv⟩ := reads_seq.1 (show (Pattern.seq _ _).Reads t from h)
      rw [reads_char.1 hu, ih hv]
      rfl

theorem reads_oneOf {ps : List Pattern} {s : Text} (h : (oneOf ps).Reads s) :
    ∃ p ∈ ps, p.Reads s := by
  induction ps with
  | nil =>
    cases h with
    | one hk => simp [CharSet.contains] at hk
  | cons p ps ih =>
    cases ps with
    | nil => exact ⟨p, List.mem_cons_self, h⟩
    | cons q ps =>
      cases h with
      | left hp => exact ⟨p, List.mem_cons_self, hp⟩
      | right hq =>
        obtain ⟨r, hr, hs⟩ := ih hq
        exact ⟨r, List.mem_cons_of_mem _ hr, hs⟩

end Pattern
end StructEdit
