import StructEdit.Cursor.Partner
import StructEdit.Proofs.Balance.Carets

/-!
# Lists by counting brackets

Where no mark and no junk comes between, the motions out of a list do what counting brackets
does. Forwards, each opening bracket counts one up and each closing one counts one down, and
the list ends at the first token that takes the count to -1; backwards it is the other way
round. Nothing is asked of the text: its brackets need not match, and it may end in a string.

The motions do not count through. They go from expression to expression, and start each time
from zero. An expression leaves the count where it was and never takes it below, so both come
to the same bracket. This needs that a search for an expression meets no bracket that ends the
list before it has found anything: it starts on a token that begins an expression, or inside a
string, and a string is not left before its end.
-/
namespace StructEdit

/-! ## Counting -/

/-- What a token adds to the count on the way forward. -/
def Kind.ahead : Kind → Int
  | .opening => 1
  | .closing => -1
  | _ => 0

/-- What a token adds to the count on the way back. -/
def Kind.behind (k : Kind) : Int := -k.ahead

/-- Counts along the tokens, with `n` counted before. Gives the number of tokens passed before the
first one that takes the count to -1. -/
def exit? (weight : Kind → Int) (n : Int) : List Placed → Option Nat
  | [] => none
  | q :: ps =>
    if n + weight q.kind = -1 then some 0
    else (exit? weight (n + weight q.kind) ps).map (· + 1)

/-- Along these tokens the count goes down by `k`, and never below where it ends. -/
def Falls (weight : Kind → Int) (k : Nat) (ts : List Placed) : Prop :=
  ∀ (n : Nat) (rest : List Placed),
    exit? weight (n + k) (ts ++ rest) = (exit? weight n rest).map (· + ts.length)

/-- Along these tokens the count never goes down by more than `k`. -/
def Stays (weight : Kind → Int) (k : Nat) (ts : List Placed) : Prop :=
  ∀ n : Nat, exit? weight (n + k) ts = none

section Steps

variable {weight : Kind → Int} {k : Nat} {q : Placed} {ts us : List Placed}

theorem exit?_cons {n : Int} (h : n + weight q.kind ≠ -1) (ps : List Placed) :
    exit? weight n (q :: ps) = (exit? weight (n + weight q.kind) ps).map (· + 1) := by
  rw [exit?, if_neg h]

theorem falls_nil : Falls weight 0 [] := by
  intro n rest
  simp

/-- One token before others, where the count stays at or above zero. -/
theorem Falls.cons {m : Nat} (h : Falls weight m ts) (hk : (k : Int) + weight q.kind = m) :
    Falls weight k (q :: ts) := by
  intro n rest
  have hsum : (n : Int) + k + weight q.kind = n + m := by omega
  rw [List.cons_append, exit?_cons (by omega), hsum, h n rest, Option.map_map]
  congr 1

theorem Falls.level (h : Falls weight 0 ts) (n : Nat) (rest : List Placed) :
    exit? weight n (ts ++ rest) = (exit? weight n rest).map (· + ts.length) := by
  simpa using h n rest

theorem Falls.trans (h : Falls weight 0 ts) (h' : Falls weight 0 us) :
    Falls weight 0 (ts ++ us) := by
  intro n rest
  have hsum : (n : Int) + (0 : Nat) = n := by omega
  rw [hsum, List.append_assoc, h.level, h'.level, Option.map_map]
  congr 1
  funext i
  simp only [Function.comp, List.length_append]
  omega

theorem Falls.skip (hw : ∀ q ∈ us, weight q.kind = 0) (h : Falls weight k ts) :
    Falls weight k (us ++ ts) := by
  induction us with
  | nil => exact h
  | cons q us ih =>
    refine (ih fun r hr => hw r (List.mem_cons_of_mem _ hr)).cons ?_
    rw [hw q List.mem_cons_self, Int.add_zero]

theorem stays_nil : Stays weight k [] := fun _ => rfl

theorem Stays.cons {m : Nat} (h : Stays weight m ts) (hk : (k : Int) + weight q.kind = m) :
    Stays weight k (q :: ts) := by
  intro n
  have hsum : (n : Int) + k + weight q.kind = n + m := by omega
  rw [exit?_cons (by omega), hsum, h n]
  rfl

/-- Tokens that leave the count at zero, and then tokens that never take it below. -/
theorem Falls.exit_none (h : Falls weight 0 ts) (h' : Stays weight 0 us) :
    exit? weight 0 (ts ++ us) = none := by
  have hus : exit? weight 0 us = none := by simpa using h' 0
  rw [← Int.ofNat_zero, h.level, Int.ofNat_zero, hus]
  rfl

/-- Tokens that leave the count at zero, and then one that takes it to -1. -/
theorem Falls.exit_some (h : Falls weight 0 ts) (hw : weight q.kind = -1) :
    exit? weight 0 (ts ++ q :: us) = some ts.length := by
  rw [← Int.ofNat_zero, h.level, exit?, if_pos (by rw [hw]; rfl)]
  simp

end Steps

/-! ## Steps of a cursor -/

namespace Cursor

/-- A number of tokens on. -/
def forward (c : Cursor) : Nat → Cursor
  | 0 => c
  | n + 1 => c.next.forward n

/-- A number of tokens back. -/
def back (c : Cursor) : Nat → Cursor
  | 0 => c
  | n + 1 => c.prev.back n

variable {b : Buffer} {c d : Cursor} {ts : List Placed}

theorem back_prev (c : Cursor) (n : Nat) : c.prev.back n = (c.back n).prev := by
  induction n generalizing c with
  | zero => rfl
  | succ n ih => exact ih c.prev

theorem Span.eq_of_nil (h : Span c d []) : c = d := by
  obtain ⟨before, here, after⟩ := c
  obtain ⟨before', here', after'⟩ := d
  obtain rfl : before' = before := by simpa using h.behind
  obtain ⟨rfl, rfl⟩ := List.cons.inj h.ahead
  rfl

/-- The first step of a way. -/
theorem Span.next {q : Placed} (h : Span c d (q :: ts)) : Span c.next d ts ∧ c.next.prev = c := by
  obtain ⟨before, here, after⟩ := c
  obtain ⟨rfl, hafter⟩ := List.cons.inj h.ahead
  cases after with
  | nil => simp at hafter
  | cons n after =>
    exact ⟨⟨h.behind.trans (by simp [Cursor.next, next?]), hafter⟩, rfl⟩

theorem Span.eq_forward (h : Span c d ts) : d = c.forward ts.length := by
  induction ts generalizing c with
  | nil => exact h.eq_of_nil.symm
  | cons q ts ih => exact ih h.next.1

theorem Span.eq_back (h : Span d c ts) : d = c.back ts.length := by
  induction ts generalizing d with
  | nil => exact h.eq_of_nil
  | cons q ts ih =>
    obtain ⟨hspan, hprev⟩ := h.next
    rw [← hprev, ih hspan]
    exact (c.back_prev ts.length).symm

/-- From a token under an offset to the cursor on it. -/
theorem In.cursorAt_eq_of_lt (h : c.In b) {offset : Nat} (hlow : c.start ≤ offset)
    (hhigh : offset < c.start + c.raw.length) : b.cursorAt offset = c := by
  have hin := b.in_cursorAt offset
  have hle := b.start_cursorAt_le offset
  have hroom := h.start_add_length_le
  have hlt := Buffer.lt_cursorAt (show offset ≤ b.maxOffset by omega)
  refine hin.eq_of_start h ?_
  rcases Nat.lt_trichotomy (b.cursorAt offset).start c.start with hbefore | heq | hbehind
  · have := hin.stop_le_start h (hin.before_length_lt h hbefore)
    omega
  · exact heq
  · have := h.stop_le_start hin (h.before_length_lt hin hbehind)
    omega

theorem In.cursorAt_eq (h : c.In b) (hk : c.kind ≠ .lineEnd) {offset : Nat}
    (hlow : c.start ≤ offset) (hhigh : offset < c.stop) : b.cursorAt offset = c :=
  h.cursorAt_eq_of_lt hlow (h.stop_eq hk ▸ hhigh)

/-! ## Forwards -/

/-- No token is a mark or junk. -/
def Plain (ts : List Placed) : Prop := ∀ q ∈ ts, q.kind ≠ .mark ∧ q.kind ≠ .junk

theorem Plain.tail {q : Placed} {ts : List Placed} (h : Plain (q :: ts)) : Plain ts :=
  fun r hr => h r (List.mem_cons_of_mem q hr)

/-- Along tokens that are listed from the last to the first. -/
theorem phase_reverse_cons {p : Place} {q : Placed} {qs : List Placed} :
    Phase p (q :: qs).reverse ↔ Phase p qs.reverse ∧ Phase (p.along qs.reverse) [q] := by
  rw [List.reverse_cons, phase_append]

theorem ahead_of_skipped {k : Kind} {comments : Bool} (h : k.isSkipped comments = true) :
    k.ahead = 0 := by
  cases k <;> simp_all [Kind.isSkipped, Kind.ahead]

structure CountsAhead (c : Cursor) (k : Nat) (r : Landing) : Prop where
  found : r.found = true → ∃ ts, Span c r.cursor ts ∧ Falls Kind.ahead k ts
  none : r.found = false → Stays Kind.ahead k (c.here :: c.after)

theorem CountsAhead.step {before : List Placed} {here n : Placed} {after : List Placed}
    {k m : Nat} {r : Landing} (h : CountsAhead ⟨here :: before, n, after⟩ m r)
    (hk : (k : Int) + here.kind.ahead = m) : CountsAhead ⟨before, here, n :: after⟩ k r where
  found hf := by
    obtain ⟨ts, hspan, hfalls⟩ := h.found hf
    exact ⟨here :: ts, (span_one before here n after).trans hspan, hfalls.cons hk⟩
  none hf := (h.none hf).cons hk

theorem countsAhead_one {before : List Placed} {here n : Placed} {after : List Placed} {k : Nat}
    (hk : (k : Int) + here.kind.ahead = (0 : Nat)) :
    CountsAhead ⟨before, here, n :: after⟩ k ⟨true, ⟨here :: before, n, after⟩⟩ where
  found _ := ⟨[here], span_one before here n after, falls_nil.cons hk⟩
  none hf := by simp at hf

/-- A token that ends no expression and is no blank leads into a string, or on in it. -/
theorem isFinal_pass_ahead {p : Place} {k : Kind} (hadmits : p.admits k = true)
    (hrole : k.roleAhead true = .pass) (hmark : k ≠ .mark) (hjunk : k ≠ .junk)
    (hstart : p.isFinal = false ∨ k.isSkipped true = false) : (p.pass k).isFinal = false := by
  revert hadmits hrole hmark hjunk hstart
  cases p <;> cases k <;> decide

theorem roleAhead_weight {k : Kind} (hr : k.roleAhead true = .pass ∨ k.roleAhead true = .atom) :
    k.ahead = 0 := by
  revert hr
  cases k <;> decide

/-- A search for the end of an expression starts on no blank and no closing bracket, or in a
string, and then the count goes down by the lists it has entered. -/
theorem sexpAhead_counts {depth : Nat} {before : List Placed} {here : Placed}
    {after : List Placed} {p : Place} (hphase : Phase p (here :: after))
    (hplain : Plain (here :: after))
    (hlast : ∀ q, (here :: after).getLast? = some q → q.kind = .lineEnd)
    (hstart : depth = 0 → p.isFinal = false ∨ after = [] ∨
      here.kind.isSkipped true = false ∧ here.kind ≠ .closing) :
    CountsAhead ⟨before, here, after⟩ depth (sexpAhead true depth before here after) := by
  fun_induction sexpAhead true depth before here after generalizing p with
  | case1 depth before here =>
    have hend : here.kind = .lineEnd := hlast here rfl
    exact ⟨by simp, fun _ => stays_nil.cons (by rw [hend]; exact Int.add_zero _)⟩
  | case2 depth before here n after hr ih =>
    have hweight := roleAhead_weight (Or.inl hr)
    refine (ih hphase.2 hplain.tail
      (fun q hq => hlast q (by simpa using hq)) fun hz => Or.inl ?_).step (by omega)
    obtain ⟨hmark, hjunk⟩ := hplain here List.mem_cons_self
    refine isFinal_pass_ahead hphase.1.admits hr hmark hjunk ?_
    rcases hstart hz with hp | hnil | ⟨hs, -⟩
    · exact Or.inl hp
    · simp at hnil
    · exact Or.inr hs
  | case3 depth before here n after hr ih =>
    have hweight : here.kind.ahead = 1 := by rw [roleAhead_enter hr]; rfl
    exact (ih hphase.2 hplain.tail
      (fun q hq => hlast q (by simpa using hq)) (by simp)).step (by omega)
  | case4 depth before here n after hr hle =>
    have hclosing := roleAhead_leave hr
    have hweight : here.kind.ahead = -1 := by rw [hclosing]; rfl
    have hone : depth = 1 := by
      rcases Nat.eq_zero_or_pos depth with hz | hpos
      · rcases hstart hz with hp | hnil | ⟨-, hne⟩
        · have hadmits := hphase.1.admits
          rw [hclosing] at hadmits
          cases p <;> simp [Place.isFinal, Place.admits] at hp hadmits
        · simp at hnil
        · exact absurd hclosing hne
      · omega
    exact countsAhead_one (by omega)
  | case5 depth before here n after hr hgt ih =>
    have hweight : here.kind.ahead = -1 := by rw [roleAhead_leave hr]; rfl
    exact (ih hphase.2 hplain.tail
      (fun q hq => hlast q (by simpa using hq)) (fun hz => by omega)).step (by omega)
  | case6 before here n after hr =>
    have hweight := roleAhead_weight (Or.inr hr)
    exact countsAhead_one (by omega)
  | case7 depth before here n after hr hne ih =>
    have hweight := roleAhead_weight (Or.inr hr)
    exact (ih hphase.2 hplain.tail
      (fun q hq => hlast q (by simpa using hq)) (fun hz => absurd hz hne)).step (by omega)
  | case8 before here n after hr =>
    rw [roleAhead_note hr] at hr
    simp [Kind.roleAhead] at hr
  | case9 depth before here n after hr hne ih =>
    rw [roleAhead_note hr] at hr
    simp [Kind.roleAhead] at hr

theorem In.plain (h : c.In b) (hplain : Plain b.placed) :
    Plain (c.here :: c.after) ∧ Plain c.before := by
  rw [← h, toList] at hplain
  exact ⟨fun q hq => hplain q (List.mem_append_right _ hq),
    fun q hq => hplain q (List.mem_append_left _ (List.mem_reverse.2 hq))⟩

variable (hp : Phase .code b.placed) (hplain : Plain b.placed)
include hp hplain

/-- A motion over an expression leaves the count where it was. Where it finds none, it stands on the
closing bracket of the list, or there is no such bracket. -/
theorem In.forwardSexp_counts (h : c.In b) :
    (∃ ts, Span c (c.forwardSexp true).cursor ts ∧ Falls Kind.ahead 0 ts ∧
      ((c.forwardSexp true).found = false → (c.forwardSexp true).cursor.kind = .closing)) ∨
    (c.forwardSexp true).found = false ∧ (c.forwardSexp true).cursor.kind ≠ .closing ∧
      exit? Kind.ahead 0 (c.here :: c.after) = none := by
  obtain ⟨us, hspan, hskip⟩ := span_forwardSpace true c
  have hin := h.forwardSpace true
  have hus : Falls Kind.ahead 0 us := by
    have := falls_nil.skip fun q hq => ahead_of_skipped (hskip q hq)
    rwa [List.append_nil] at this
  have hstops := forwardSpace_stops true c
  by_cases hk : (c.forwardSpace true).kind = .closing
  · have heq : c.forwardSexp true = ⟨false, c.forwardSpace true⟩ := by
      rw [Cursor.forwardSexp, if_pos hk]
    rw [heq]
    exact Or.inl ⟨us, hspan, hus, fun _ => hk⟩
  · have heq : c.forwardSexp true = sexpAhead true 0 (c.forwardSpace true).before
        (c.forwardSpace true).here (c.forwardSpace true).after := by
      rw [Cursor.forwardSexp, if_neg hk]
    have hcounts : CountsAhead (c.forwardSpace true) 0 (c.forwardSexp true) := heq ▸
      sexpAhead_counts (hin.phase hp).2.2 (hin.plain hplain).1 hin.kind_last fun _ =>
        Or.inr (hstops.symm.imp id fun hs => ⟨hs, hk⟩)
    cases hf : (c.forwardSexp true).found with
    | true =>
      obtain ⟨ts, hspan', hfalls⟩ := hcounts.found hf
      exact Or.inl ⟨us ++ ts, hspan.trans hspan', hus.trans hfalls, by simp⟩
    | false =>
      refine Or.inr ⟨rfl, ?_, ?_⟩
      · have hnil : (c.forwardSexp true).cursor.after = [] := by
          rw [heq] at hf ⊢
          exact sexpAhead_not_found hf
        have hlast : (c.forwardSexp true).cursor.kind = .lineEnd :=
          (h.forwardSexp true).kind_last _ (by rw [hnil]; rfl)
        rw [hlast]
        simp
      · rw [hspan.ahead]
        exact hus.exit_none (hcounts.none hf)

theorem In.forwardSexps_counts (h : c.In b) :
    (c.forwardSexps true).kind = .closing ∧
      (∃ ts, Span c (c.forwardSexps true) ts ∧ Falls Kind.ahead 0 ts) ∨
    (c.forwardSexps true).kind ≠ .closing ∧ exit? Kind.ahead 0 (c.here :: c.after) = none := by
  fun_induction Cursor.forwardSexps true c with
  | case1 c hf _ ih =>
    rcases h.forwardSexp_counts hp hplain with ⟨ts, hspan, hfalls, -⟩ | ⟨hnot, -⟩
    · rcases ih (h.forwardSexp true) with ⟨hk, us, hspan', hfalls'⟩ | ⟨hk, hexit⟩
      · exact Or.inl ⟨hk, ts ++ us, hspan.trans hspan', hfalls.trans hfalls'⟩
      · refine Or.inr ⟨hk, ?_⟩
        rw [hspan.ahead, ← Int.ofNat_zero, hfalls.level, Int.ofNat_zero, hexit]
        rfl
    · rw [hf] at hnot
      simp at hnot
  | case2 c hf =>
    rcases h.forwardSexp_counts hp hplain with ⟨ts, hspan, hfalls, hk⟩ | ⟨-, hk, hexit⟩
    · exact Or.inl ⟨hk (Bool.eq_false_iff.2 hf), ts, hspan, hfalls⟩
    · exact Or.inr ⟨hk, hexit⟩

/-- The motion to the closing bracket stops where the count first comes to -1. -/
theorem In.forwardList?_eq_exit (h : c.In b) :
    c.forwardList? = (exit? Kind.ahead 0 (c.here :: c.after)).map c.forward := by
  rcases h.forwardSexps_counts hp hplain with ⟨hk, ts, hspan, hfalls⟩ | ⟨hk, hexit⟩
  · have hweight : (c.forwardSexps true).here.kind.ahead = -1 := congrArg Kind.ahead hk
    simp only [Cursor.forwardList?, hk, ↓reduceIte]
    rw [hspan.ahead, hfalls.exit_some hweight, Option.map_some, ← hspan.eq_forward]
  · simp only [Cursor.forwardList?, hk, ↓reduceIte, hexit, Option.map_none]

omit hp hplain

/-! ## Backwards -/

theorem behind_of_skipped {k : Kind} {comments : Bool} (h : k.isSkipped comments = true) :
    k.behind = 0 := by
  cases k <;> simp_all [Kind.isSkipped, Kind.behind, Kind.ahead]

/-- Where blanks end on the way back: behind no blank, and behind a line end only when it ends a
comment. -/
def Settles (before : List Placed) : Prop :=
  ∀ q qs, before = q :: qs → q.kind ≠ .blank ∧ (q.kind = .lineEnd → kindBefore qs = .comment)

theorem settles_backwardSpace (c : Cursor) : Settles (c.backwardSpace false).before := by
  obtain ⟨before, here, after⟩ := c
  unfold backwardSpace
  induction before generalizing here after with
  | nil => exact fun q qs h => by simp [spaceBehind] at h
  | cons p before ih =>
    simp only [spaceBehind]
    split
    · exact ih p (here :: after)
    · rename_i hs
      rintro q qs heq
      obtain ⟨rfl, rfl⟩ := List.cons.inj heq
      refine ⟨fun hb => hs (Or.inl hb), fun hl => ?_⟩
      exact Decidable.byContradiction fun hc => hs (Or.inr ⟨by simp [hl, Kind.isSkipped], hc⟩)

structure CountsBehind (c : Cursor) (k : Nat) (r : Landing) : Prop where
  found : r.found = true → ∃ ts, Span r.cursor c ts ∧ Falls Kind.behind k ts.reverse
  none : r.found = false → Stays Kind.behind k c.before ∧ r.cursor.before = []

theorem CountsBehind.step {q here : Placed} {after before : List Placed} {k m : Nat} {r : Landing}
    (h : CountsBehind ⟨before, q, here :: after⟩ m r) (hk : (k : Int) + q.kind.behind = m) :
    CountsBehind ⟨q :: before, here, after⟩ k r where
  found hf := by
    obtain ⟨ts, hspan, hfalls⟩ := h.found hf
    refine ⟨ts ++ [q], hspan.trans (span_one before q here after), ?_⟩
    rw [List.reverse_append]
    exact hfalls.cons hk
  none hf := ⟨(h.none hf).1.cons hk, (h.none hf).2⟩

theorem countsBehind_one {q here : Placed} {after before : List Placed} {k : Nat}
    (hk : (k : Int) + q.kind.behind = (0 : Nat)) :
    CountsBehind ⟨q :: before, here, after⟩ k ⟨true, ⟨before, q, here :: after⟩⟩ where
  found _ := ⟨[q], span_one before q here after, falls_nil.cons hk⟩
  none hf := by simp at hf

theorem roleBehind_weight {k : Kind} (hr : k.roleBehind false = .pass ∨
    k.roleBehind false = .atom ∨ k.roleBehind false = .note) : k.behind = 0 := by
  revert hr
  cases k <;> decide

/-- A token that ends in a string and starts no string starts in it. -/
theorem isFinal_of_pass_behind {p : Place} {k : Kind} (hadmits : p.admits k = true)
    (hrole : k.roleBehind false = .pass) (hjunk : k ≠ .junk)
    (hstop : (p.pass k).isFinal = false ∨ k = .stringEnd ∨ k = .stringMiddle) :
    p.isFinal = false := by
  revert hadmits hrole hjunk hstop
  cases p <;> cases k <;> decide

/-- A search for the start of an expression starts behind no blank and no opening bracket, or in a
string, and then the count goes down by the lists it has entered. -/
theorem sexpBehind_counts {depth : Nat} {here : Placed} {after before : List Placed}
    (hphase : Phase .code before.reverse) (hplain : Plain before)
    (hstart : depth = 0 → (Place.code.along before.reverse).isFinal = false ∨
      Settles before ∧ kindBefore before ≠ .opening) :
    CountsBehind ⟨before, here, after⟩ depth (sexpBehind false depth here after before) := by
  fun_induction sexpBehind false depth here after before with
  | case1 depth here after => exact ⟨by simp, fun _ => ⟨stays_nil, rfl⟩⟩
  | case2 depth here after q before hr ih =>
    have hweight := roleBehind_weight (Or.inl hr)
    rw [phase_reverse_cons] at hphase
    refine (ih hphase.1 hplain.tail fun hz => ?_).step
      (by omega)
    obtain ⟨hmark, hjunk⟩ := hplain q List.mem_cons_self
    have hadmits := hphase.2.1.admits
    rcases hstart hz with hin | ⟨hsettles, hne⟩
    · rw [List.reverse_cons, Place.along_append] at hin
      exact Or.inl (isFinal_of_pass_behind hadmits hr hjunk (Or.inl hin))
    · obtain ⟨hblank, hline⟩ := hsettles q before rfl
      by_cases hl : q.kind = .lineEnd
      · have hc := hline hl
        refine Or.inr ⟨?_, by rw [hc]; simp⟩
        rintro r rs rfl
        have hr : r.kind = .comment := hc
        exact ⟨by simp [hr], by simp [hr]⟩
      · refine Or.inl (isFinal_of_pass_behind hadmits hr hjunk (Or.inr ?_))
        cases hk : q.kind <;> simp_all [Kind.roleBehind]
  | case3 depth here after q before hr ih =>
    have hweight : q.kind.behind = 1 := by rw [roleBehind_enter hr]; rfl
    rw [phase_reverse_cons] at hphase
    exact (ih hphase.1 hplain.tail (by simp)).step (by omega)
  | case4 depth here after q before hr hle =>
    have hopening := roleBehind_leave hr
    have hweight : q.kind.behind = -1 := by rw [hopening]; rfl
    have hone : depth = 1 := by
      rcases Nat.eq_zero_or_pos depth with hz | hpos
      · rcases hstart hz with hin | ⟨-, hne⟩
        · rw [phase_reverse_cons] at hphase
          have hadmits := hphase.2.1.admits
          rw [List.reverse_cons, Place.along_append] at hin
          have hin' : ((Place.code.along before.reverse).pass q.kind).isFinal = false := hin
          rw [hopening] at hadmits hin'
          generalize Place.code.along before.reverse = p at hadmits hin'
          cases p <;> simp [Place.isFinal, Place.admits, Place.pass] at hin' hadmits
        · exact absurd hopening hne
      · omega
    exact countsBehind_one (by omega)
  | case5 depth here after q before hr hgt ih =>
    have hweight : q.kind.behind = -1 := by rw [roleBehind_leave hr]; rfl
    rw [phase_reverse_cons] at hphase
    exact (ih hphase.1 hplain.tail
      (fun hz => by omega)).step (by omega)
  | case6 here after q before hr =>
    have hweight := roleBehind_weight (Or.inr (Or.inl hr))
    exact countsBehind_one (by omega)
  | case7 depth here after q before hr hne ih =>
    have hweight := roleBehind_weight (Or.inr (Or.inl hr))
    rw [phase_reverse_cons] at hphase
    exact (ih hphase.1 hplain.tail
      (fun hz => absurd hz hne)).step (by omega)
  | case8 here after q before hr =>
    have hweight := roleBehind_weight (Or.inr (Or.inr hr))
    exact countsBehind_one (by omega)
  | case9 depth here after q before hr hne ih =>
    have hweight := roleBehind_weight (Or.inr (Or.inr hr))
    rw [phase_reverse_cons] at hphase
    exact (ih hphase.1 hplain.tail
      (fun hz => absurd hz hne)).step (by omega)

theorem Span.before_eq (h : Span d c ts) : c.before = ts.reverse ++ d.before := by
  rw [← List.reverse_inj, h.behind, List.reverse_append, List.reverse_reverse]

include hp hplain

/-- A motion back over an expression leaves the count where it was. Where it finds none, it stands
behind the opening bracket of the list, or there is no such bracket. -/
theorem In.backwardSexp_counts (h : c.In b) :
    (∃ ts, Span (c.backwardSexp false).cursor c ts ∧ Falls Kind.behind 0 ts.reverse ∧
      ((c.backwardSexp false).found = false →
        (c.backwardSexp false).cursor.prevKind = .opening)) ∨
    (c.backwardSexp false).found = false ∧ (c.backwardSexp false).cursor.prevKind ≠ .opening ∧
      exit? Kind.behind 0 c.before = none := by
  obtain ⟨us, hspan, hskip, -⟩ := span_backwardSpace false c
  have hin := h.backwardSpace false
  have hus : Falls Kind.behind 0 us.reverse := by
    have := falls_nil.skip fun q hq => behind_of_skipped (hskip q (List.mem_reverse.1 hq))
    rwa [List.append_nil] at this
  by_cases hk : (c.backwardSpace false).prevKind = .opening
  · have heq : c.backwardSexp false = ⟨false, c.backwardSpace false⟩ := by
      rw [Cursor.backwardSexp, if_pos hk]
    rw [heq]
    exact Or.inl ⟨us, hspan, hus, fun _ => hk⟩
  · have heq : c.backwardSexp false = sexpBehind false 0 (c.backwardSpace false).here
        (c.backwardSpace false).after (c.backwardSpace false).before := by
      rw [Cursor.backwardSexp, if_neg hk]
    have hcounts : CountsBehind (c.backwardSpace false) 0 (c.backwardSexp false) := heq ▸
      sexpBehind_counts (hin.phase hp).1 (hin.plain hplain).2 fun _ =>
        Or.inr ⟨c.settles_backwardSpace, hk⟩
    cases hf : (c.backwardSexp false).found with
    | true =>
      obtain ⟨ts, hspan', hfalls⟩ := hcounts.found hf
      refine Or.inl ⟨ts ++ us, hspan'.trans hspan, ?_, by simp⟩
      rw [List.reverse_append]
      exact hus.trans hfalls
    | false =>
      obtain ⟨hstays, hnil⟩ := hcounts.none hf
      refine Or.inr ⟨rfl, by rw [prevKind, hnil]; simp [kindBefore], ?_⟩
      rw [hspan.before_eq]
      exact hus.exit_none hstays

theorem In.backwardSexps_counts (h : c.In b) :
    (c.backwardSexps false).prevKind = .opening ∧
      (∃ ts, Span (c.backwardSexps false) c ts ∧ Falls Kind.behind 0 ts.reverse) ∨
    (c.backwardSexps false).prevKind ≠ .opening ∧ exit? Kind.behind 0 c.before = none := by
  fun_induction Cursor.backwardSexps false c with
  | case1 c hf _ ih =>
    rcases h.backwardSexp_counts hp hplain with ⟨ts, hspan, hfalls, -⟩ | ⟨hnot, -⟩
    · rcases ih (h.backwardSexp false) with ⟨hk, us, hspan', hfalls'⟩ | ⟨hk, hexit⟩
      · refine Or.inl ⟨hk, us ++ ts, hspan'.trans hspan, ?_⟩
        rw [List.reverse_append]
        exact hfalls.trans hfalls'
      · refine Or.inr ⟨hk, ?_⟩
        rw [hspan.before_eq, ← Int.ofNat_zero, hfalls.level, Int.ofNat_zero, hexit]
        rfl
    · rw [hf] at hnot
      simp at hnot
  | case2 c hf =>
    rcases h.backwardSexp_counts hp hplain with ⟨ts, hspan, hfalls, hk⟩ | ⟨-, hk, hexit⟩
    · exact Or.inl ⟨hk (Bool.eq_false_iff.2 hf), ts, hspan, hfalls⟩
    · exact Or.inr ⟨hk, hexit⟩

/-- The motion to the start of the list stops behind the token where the count first comes to -1. -/
theorem In.backwardList?_eq_exit (h : c.In b) :
    c.backwardList? = (exit? Kind.behind 0 c.before).map c.back := by
  rcases h.backwardSexps_counts hp hplain with ⟨hk, ts, hspan, hfalls⟩ | ⟨hk, hexit⟩
  · obtain ⟨q, qs, hbefore⟩ : ∃ q qs, (c.backwardSexps false).before = q :: qs := by
      cases hb : (c.backwardSexps false).before with
      | nil => simp [prevKind, hb, kindBefore] at hk
      | cons q qs => exact ⟨q, qs, rfl⟩
    have hweight : q.kind.behind = -1 := by
      rw [prevKind, hbefore] at hk
      exact congrArg Kind.behind hk
    simp only [Cursor.backwardList?, hk, ↓reduceIte]
    rw [hspan.before_eq, hbefore, hfalls.exit_some hweight, Option.map_some, List.length_reverse,
      ← hspan.eq_back]
  · simp only [Cursor.backwardList?, hk, ↓reduceIte, hexit, Option.map_none]

omit hp hplain

/-! ## Partners -/

/-- The bracket that belongs to the one under the cursor: the first to take the count to -1 among the
tokens behind an opening bracket, or among those before a closing one. -/
def partner? (c : Cursor) : Option Placed :=
  match c.kind with
  | .opening => (exit? Kind.ahead 0 c.after).bind (c.after[·]?)
  | .closing => (exit? Kind.behind 0 c.before).bind (c.before[·]?)
  | _ => none

theorem here_forward {i : Nat} {q : Placed} (h : (c.here :: c.after)[i]? = some q) :
    (c.forward i).here = q := by
  induction i generalizing c with
  | zero => exact Option.some.inj h
  | succ i ih =>
    obtain ⟨before, here, after⟩ := c
    cases after with
    | nil => simp at h
    | cons n after => exact ih h

theorem here_prev_back {i : Nat} {q : Placed} (h : c.before[i]? = some q) :
    (c.back i).prev.here = q := by
  induction i generalizing c with
  | zero =>
    obtain ⟨before, here, after⟩ := c
    cases before with
    | nil => simp at h
    | cons p before => exact Option.some.inj h
  | succ i ih =>
    obtain ⟨before, here, after⟩ := c
    cases before with
    | nil => simp at h
    | cons p before => exact ih h

theorem exit?_lt {weight : Kind → Int} {n : Int} {ps : List Placed} {i : Nat}
    (h : exit? weight n ps = some i) : i < ps.length := by
  induction ps generalizing n i with
  | nil => simp [exit?] at h
  | cons q ps ih =>
    rw [exit?] at h
    split at h
    · obtain rfl := Option.some.inj h
      simp
    · obtain ⟨j, hj, rfl⟩ := Option.map_eq_some_iff.1 h
      exact Nat.succ_lt_succ (ih hj)

variable {offset : Nat}

include hp hplain

theorem In.bracketAt?_opening (h : c.In b) (hk : c.kind = .opening) (hlow : c.start ≤ offset)
    (hhigh : offset < c.stop) :
    b.bracketAt? offset = some ⟨some c.start, c.partner?.map Placed.start,
      c.partner?.any fun q => Bracket.paired c.raw q.token.raw⟩ := by
  have hcursor := h.cursorAt_eq (by simp [hk]) hlow hhigh
  have hafter : c.next.here :: c.next.after = c.after :=
    (List.cons.inj (h.next_of_kind (by simp [hk])).1.ahead).2.symm
  simp only [Buffer.bracketAt?, hcursor, hk, h.next.forwardList?_eq_exit hp hplain, partner?,
    hafter]
  cases he : exit? Kind.ahead 0 c.after with
  | none => rfl
  | some i =>
    obtain ⟨q, hq⟩ : ∃ q, c.after[i]? = some q := ⟨_, List.getElem?_eq_getElem (exit?_lt he)⟩
    have hhere : (c.next.forward i).here = q := here_forward (by rw [hafter, hq])
    simp only [Option.map_some, Option.bind_some, hq, BracketPair.ofCursors, Option.any_some,
      start, raw, hhere]

theorem In.bracketAt?_closing (h : c.In b) (hk : c.kind = .closing) (hlow : c.start ≤ offset)
    (hhigh : offset < c.stop) :
    b.bracketAt? offset = some ⟨c.partner?.map Placed.start, some c.start,
      c.partner?.any fun q => Bracket.paired q.token.raw c.raw⟩ := by
  have hcursor := h.cursorAt_eq (by simp [hk]) hlow hhigh
  simp only [Buffer.bracketAt?, hcursor, hk, h.backwardList?_eq_exit hp hplain, partner?]
  cases he : exit? Kind.behind 0 c.before with
  | none => rfl
  | some i =>
    obtain ⟨q, hq⟩ : ∃ q, c.before[i]? = some q := ⟨_, List.getElem?_eq_getElem (exit?_lt he)⟩
    simp only [Option.map_some, Option.bind_some, hq, BracketPair.ofCursors, Option.any_some,
      start, raw, here_prev_back hq]

end Cursor

/-- In a flushed buffer without marks and junk, whatever has been done to it before, the motions out of
a list come to the first bracket that takes the count to -1, and fail when there is none. Under any
offset on a bracket, the bracket and its partner by this count are reported, as valid when they
are of one family. -/
theorem lists_eq_exit {d : Document} (hd : d.buffer = .empty ∨ ∃ s, d.buffer = .ofText s)
    (ops : List BufferOp) :
    let b := (BufferOp.runAll ops d).buffer.flush
    (∀ q ∈ b.placed, q.kind ≠ .mark ∧ q.kind ≠ .junk) → ∀ c : Cursor, c.In b →
      c.forwardList? = (exit? Kind.ahead 0 (c.here :: c.after)).map c.forward ∧
      c.backwardList? = (exit? Kind.behind 0 c.before).map c.back ∧
      ∀ offset, c.start ≤ offset → offset < c.stop →
        (c.kind = .opening → b.bracketAt? offset = some ⟨some c.start,
          c.partner?.map Placed.start, c.partner?.any fun q => Bracket.paired c.raw q.token.raw⟩) ∧
        (c.kind = .closing → b.bracketAt? offset = some ⟨c.partner?.map Placed.start,
          some c.start, c.partner?.any fun q => Bracket.paired q.token.raw c.raw⟩) := by
  intro b hplain c hc
  have hstart : d.buffer.Covered ∧ d.buffer.Unbroken := by
    rcases hd with hd | ⟨s, hd⟩ <;> rw [hd]
    · exact ⟨Buffer.settled_empty.covered, Buffer.unbroken_empty⟩
    · exact ⟨Buffer.covered_ofText s, .ofText s⟩
  have hphase : Phase .code b.placed := Buffer.phase_placed
    (BufferOp.covered_runAll hstart.1 ops).flush (BufferOp.unbroken_runAll hstart.2 ops).flush
  exact ⟨hc.forwardList?_eq_exit hphase hplain, hc.backwardList?_eq_exit hphase hplain,
    fun offset hlow hhigh => ⟨fun hk => hc.bracketAt?_opening hphase hplain hk hlow hhigh,
      fun hk => hc.bracketAt?_closing hphase hplain hk hlow hhigh⟩⟩

/-- In `]("` nothing matches. The round bracket has no partner behind it, where the text ends in a
string. -/
theorem lists_eq_exit_unbalanced :
    let b := (BufferOp.runAll [.markDirty 0] (.ofText [']', '(', '"', '\n'])).buffer.flush
    b.bracketAt? 1 = some ⟨some 1, none, false⟩ := by
  intro b
  have hplain : ∀ q ∈ b.placed, q.kind ≠ .mark ∧ q.kind ≠ .junk := by decide +kernel
  have h := lists_eq_exit (Or.inr ⟨_, rfl⟩ : (Document.ofText [']', '(', '"', '\n']).buffer =
    .empty ∨ ∃ s, (Document.ofText [']', '(', '"', '\n']).buffer = .ofText s) [.markDirty 0] hplain
    (b.cursorAt 1) (b.in_cursorAt 1)
  have hreport := (h.2.2 1 (by decide +kernel) (by decide +kernel)).1 (by decide +kernel)
  rw [hreport]
  decide +kernel

end StructEdit
