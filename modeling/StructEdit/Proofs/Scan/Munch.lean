import Mathlib.Data.List.Induction
import StructEdit.Lexer

/-!
# The longest match

At each place the terminals of a grammar are asked for their matches, one after the other. The best
offer so far gives way to a longer one only, so in the end it is the longest of all, made by the
first terminal that makes one as long. Where no terminal reads anything there is no best offer.
-/
namespace StructEdit

namespace Grammar
variable {P : Type} [Matcher P] {g : Grammar P} {s : Text}

/-- A terminal of the grammar reads something. -/
def Reads (g : Grammar P) (s : Text) : Prop :=
  ∃ t ∈ g, ∃ n, 0 < n ∧ Matcher.length? t.pattern s = some n

/-- The longest match is one of `n` characters, and `k` is the kind of the first terminal that has
one as long. -/
structure Longest (g : Grammar P) (s : Text) (k : Kind) (n : Nat) : Prop where
  pos : 0 < n
  first : ∃ front t back, g = front ++ t :: back ∧ t.kind = k ∧
    Matcher.length? t.pattern s = some n ∧
    ∀ u ∈ front, ∀ m, Matcher.length? u.pattern s = some m → m < n
  most : ∀ t ∈ g, ∀ m, Matcher.length? t.pattern s = some m → m ≤ n

theorem Longest.reads {k : Kind} {n : Nat} (h : Longest g s k n) : g.Reads s := by
  obtain ⟨front, t, back, rfl, -, hn, -⟩ := h.first
  exact ⟨t, List.mem_append_right front List.mem_cons_self, n, h.pos, hn⟩

/-- What the terminals asked so far have come to: no offer is longer than the best one, which is
the longest match of these terminals. -/
structure Asked (g : Grammar P) (s : Text) (best : Option (Kind × Nat)) : Prop where
  most : ∀ t ∈ g, ∀ m, Matcher.length? t.pattern s = some m → m ≤ (best.map Prod.snd).getD 0
  longest : ∀ k n, best = some (k, n) → Longest g s k n

theorem asked_nil (s : Text) : Asked ([] : Grammar P) s none where
  most := by simp
  longest := by simp

/-- A terminal that reads no more than those before it changes nothing. -/
theorem Asked.keep {best : Option (Kind × Nat)} (h : Asked g s best) {t : Terminal P}
    (ht : ∀ m, Matcher.length? t.pattern s = some m → m ≤ (best.map Prod.snd).getD 0) :
    Asked (g ++ [t]) s best := by
  have hmost : ∀ u ∈ g ++ [t], ∀ m, Matcher.length? u.pattern s = some m →
      m ≤ (best.map Prod.snd).getD 0 := by
    intro u hu
    rcases List.mem_append.1 hu with hu | hu
    · exact h.most u hu
    · exact List.mem_singleton.1 hu ▸ ht
  refine ⟨hmost, ?_⟩
  rintro k n rfl
  obtain ⟨front, u, back, rfl, hu⟩ := (h.longest k n rfl).first
  exact ⟨(h.longest k n rfl).pos, ⟨front, u, back ++ [t], by simp, hu⟩, hmost⟩

/-- A terminal that reads more than those before it makes the best offer. -/
theorem Asked.overtake {best : Option (Kind × Nat)} (h : Asked g s best) {t : Terminal P} {n : Nat}
    (ht : Matcher.length? t.pattern s = some n) (hn : (best.map Prod.snd).getD 0 < n) :
    Asked (g ++ [t]) s (some (t.kind, n)) := by
  have hbefore : ∀ u ∈ g, ∀ m, Matcher.length? u.pattern s = some m → m < n :=
    fun u hu m hm => Nat.lt_of_le_of_lt (h.most u hu m hm) hn
  have hmost : ∀ u ∈ g ++ [t], ∀ m, Matcher.length? u.pattern s = some m → m ≤ n := by
    intro u hu m hm
    rcases List.mem_append.1 hu with hu | hu
    · exact Nat.le_of_lt (hbefore u hu m hm)
    · rw [List.mem_singleton.1 hu, ht] at hm
      exact Nat.le_of_eq (Option.some.inj hm).symm
  refine ⟨hmost, ?_⟩
  rintro k m hm
  obtain ⟨rfl, rfl⟩ := Prod.mk.inj (Option.some.inj hm)
  exact ⟨Nat.zero_lt_of_lt hn, ⟨g, t, [], rfl, rfl, ht, hbefore⟩, hmost⟩

theorem Asked.better {best : Option (Kind × Nat)} (h : Asked g s best) (t : Terminal P) :
    Asked (g ++ [t]) s (better s best t) := by
  unfold Grammar.better
  split
  · rename_i hnone
    exact h.keep (by simp [hnone])
  · rename_i n hn
    split
    · rename_i hlt
      exact h.overtake hn hlt
    · rename_i hle
      refine h.keep fun m hm => ?_
      rw [← Option.some.inj (hn.symm.trans hm)]
      exact Nat.le_of_not_lt hle

theorem asked_longest? (g : Grammar P) (s : Text) : Asked g s (g.longest? s) := by
  induction g using List.reverseRecOn with
  | nil => exact asked_nil s
  | append_singleton g t ih =>
    rw [longest?, List.foldl_append]
    exact ih.better t

theorem longest_of_longest? {k : Kind} {n : Nat} (h : g.longest? s = some (k, n)) :
    Longest g s k n := (asked_longest? g s).longest k n h

/-- Without a best offer there was no offer that reads something. -/
theorem eq_zero_of_longest?_none (h : g.longest? s = none) :
    ∀ t ∈ g, ∀ n, Matcher.length? t.pattern s = some n → n = 0 := by
  intro t ht n hn
  have hle := (asked_longest? g s).most t ht n hn
  rw [h] at hle
  exact Nat.le_zero.1 hle

/-- The kind of the best offer is that of a terminal which makes this offer. -/
theorem exists_of_longest? {k : Kind} {n : Nat} (h : g.longest? s = some (k, n)) :
    ∃ t ∈ g, t.kind = k ∧ Matcher.length? t.pattern s = some n := by
  obtain ⟨front, t, back, rfl, hk, hn, -⟩ := (longest_of_longest? h).first
  exact ⟨t, List.mem_append_right front List.mem_cons_self, hk, hn⟩

/-- There is a best offer where a terminal reads something. -/
theorem longest?_eq_none_iff : g.longest? s = none ↔ ¬g.Reads s := by
  constructor
  · rintro h ⟨t, ht, n, hpos, hn⟩
    exact absurd (eq_zero_of_longest?_none h t ht n hn) (Nat.ne_of_gt hpos)
  · intro h
    exact Option.eq_none_iff_forall_ne_some.2 fun _ hsome => h (longest_of_longest? hsome).reads

end Grammar

end StructEdit
